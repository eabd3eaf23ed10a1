import ClearYourTools.Injection.SessionLog

/-!
# JSON with single quotes

`tools/serialize.py`: a value as the prompt shows it, and the block of a tool's call examples.
-/

namespace ClearYourTools.Tools

open Misc
open Injection.SessionLog (sortKeys)

variable {φ : Type}

/-- The two loops of `_swap_json_delimiter_quotes`; the flag says that the inner one runs. -/
def swapFrom : Bool → Text → Text
  | _, [] => []
  | false, c :: t => if c = '"' then '\'' :: swapFrom true t else c :: swapFrom false t
  | true, '\\' :: '"' :: t => '"' :: swapFrom true t
  | true, '\\' :: c :: t => '\\' :: c :: swapFrom true t
  | true, c :: t => if c = '"' then '\'' :: swapFrom false t else c :: swapFrom true t

def swapJsonDelimiterQuotes (compact : Text) : Text := swapFrom false compact

variable (f : Json.FloatFormat φ)

def minimizeJsonSingleQuotes (value : Json φ) : Text :=
  swapJsonDelimiterQuotes (Json.dumps f false value)

def canonicalizeJsonValue (value : Json φ) : Option (Json φ) :=
  Json.loads f (Json.dumps f false (sortKeys value))

def truncateString (value : Text) (maxChars : ℕ) : Text :=
  if value.length ≤ maxChars then value
  else if maxChars ≤ 3 then List.replicate maxChars '.'
  else value.take (maxChars - 3) ++ "..."

mutual

def truncatePayloadValues (maxChars : ℕ) : Json φ → Json φ
  | .str s => .str (truncateString s maxChars)
  | .obj fields => .obj (truncateFields maxChars fields)
  | .arr items => .arr (truncateItems maxChars items)
  | v => v

def truncateItems (maxChars : ℕ) : List (Json φ) → List (Json φ)
  | [] => []
  | v :: vs => truncatePayloadValues maxChars v :: truncateItems maxChars vs

def truncateFields (maxChars : ℕ) : List (Text × Json φ) → List (Text × Json φ)
  | [] => []
  | (k, v) :: kvs => (k, truncatePayloadValues maxChars v) :: truncateFields maxChars kvs

end

/-- `max_chars` is zero where the source has `None` or no positive number. -/
def formatExampleLine (maxChars : ℕ) (payload : Json φ) : Option Text :=
  (canonicalizeJsonValue f payload).map fun display =>
    let shown := if 0 < maxChars then truncatePayloadValues maxChars display else display
    "- " ++ minimizeJsonSingleQuotes f shown

/-- One example of `format_examples_block`; `seen_lines` is the set of the lines. -/
def exampleStep (maxChars : ℕ) (lines : List Text) : Json φ → Option (List Text)
  | .obj (kv :: kvs) =>
    (formatExampleLine f maxChars (.obj (kv :: kvs))).map fun line =>
      if line ∈ lines then lines else lines ++ [line]
  | _ => some lines

def exampleLines (maxChars : ℕ) (examples : List (Json φ)) : Option (List Text) :=
  examples.foldlM (exampleStep f maxChars) []

def openTag : Text := "<examples>"
def closeTag : Text := "</examples>"

def wrapLines (lines : List Text) : Text :=
  if lines = [] then [] else Text.joinLines (openTag :: (lines ++ [closeTag]))

def formatExamplesBlock (maxChars : ℕ) (examples : List (Json φ)) : Option Text :=
  (exampleLines f maxChars examples).map wrapLines

end ClearYourTools.Tools

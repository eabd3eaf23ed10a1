import Mathlib.Data.List.Forall2
import ClearYourTools.Injection.Proofs.AppendedText
import ClearYourTools.Proxy.UserMessageInject

/-!
# What an injection keeps

The injection is in the last user turn of the new body, the texts of the user are still there in
order, and nothing else changed: exactly when the body has a list of turns, and the text that the
injection goes into is kept by it.
-/

namespace ClearYourTools.Proxy

open Misc Injection List
open Json (get? PyFormat noFloats)

variable {φ : Type}

def turnsKey : ProxyKind → Text
  | .anthropic => messagesKey
  | .openai => inputKey

def contentTexts : Option (Json φ) → List Text
  | some (.str s) => [s]
  | some (.arr parts) => parts.filterMap blockText
  | _ => []

/-- The texts of a turn of the user. -/
def turnTexts (kind : ProxyKind) (turn : Json φ) : List Text :=
  match turn with
  | .obj fields => if isUserTurn kind turn then contentTexts (get? fields contentKey) else []
  | _ => []

def bodyTurns (kind : ProxyKind) (body : Fields φ) : List (Json φ) :=
  match get? body (turnsKey kind) with
  | some (.arr turns) => turns
  | _ => []

/-- Every text that the user wrote, in order. -/
def userTexts (kind : ProxyKind) (body : Fields φ) : List Text :=
  match kind, get? body (turnsKey kind) with
  | .openai, some (.str s) => [s]
  | _, some (.arr turns) => turns.flatMap (turnTexts kind)
  | _, _ => []

def lastUserTurn (kind : ProxyKind) (turns : List (Json φ)) : Option (Json φ) :=
  (lastUserIndex kind turns).bind fun i => turns[i]?

def lastUserTexts (kind : ProxyKind) (turns : List (Json φ)) : List Text :=
  match lastUserTurn kind turns with
  | some turn => turnTexts kind turn
  | none => []

/-- One block was added, or the text of one block changed. -/
inductive PartsChange : List (Json φ) → List (Json φ) → Prop
  | added (parts : List (Json φ)) (new : Json φ) : PartsChange parts (parts ++ [new])
  | changed (before : List (Json φ)) (fields : Fields φ) (s : Text) (after : List (Json φ)) :
      PartsChange (before ++ .obj fields :: after)
        (before ++ .obj (Json.set fields textKey (.str s)) :: after)

/-- Of a message, only the content changed, and of a list of blocks only one block. -/
structure ContentChange (message message' : Fields φ) : Prop where
  fields : ∀ key, key ≠ contentKey → get? message' key = get? message key
  parts : ∀ parts, get? message contentKey = some (.arr parts) →
    ∃ parts', get? message' contentKey = some (.arr parts') ∧ PartsChange parts parts'

/-- Nothing changed, or a user turn was added at the end, or the last user turn changed. -/
inductive TurnsChange (kind : ProxyKind) : List (Json φ) → List (Json φ) → Prop
  | same (turns : List (Json φ)) : TurnsChange kind turns turns
  | added (turns : List (Json φ)) (new : Json φ) : isUserTurn kind new = true →
      TurnsChange kind turns (turns ++ [new])
  | changed (before : List (Json φ)) (message message' : Fields φ) (after : List (Json φ)) :
      isUserTurn kind (.obj message) = true → (∀ t ∈ after, isUserTurn kind t = false) →
      ContentChange message message' →
      TurnsChange kind (before ++ .obj message :: after) (before ++ .obj message' :: after)

/-- The three parts of losslessness. -/
structure Lossless (kind : ProxyKind) (body : Fields φ) (text : Text) (body' : Fields φ) :
    Prop where
  injected : ∃ t ∈ lastUserTexts kind (bodyTurns kind body'), text <:+: t
  kept : List.SublistForall₂ (fun s t : Text => s <:+: t) (userTexts kind body)
    (userTexts kind body')
  others : ∀ key, key ≠ turnsKey kind → get? body' key = get? body key
  turns : TurnsChange kind (bodyTurns kind body) (bodyTurns kind body')

variable {kind : ProxyKind} {before after : List (Json φ)} {x : Json φ}

section

variable (hx : isUserTurn kind x = true)
include hx

variable (ha : ∀ t ∈ after, isUserTurn kind t = false)
include ha

end

variable {turns : List (Json φ)}

variable {message : Fields φ}

variable {text : Text} {sameTurn : Bool}

/-- The texts are pieces of later texts, in order. -/
abbrev Shown (ss ts : List Text) : Prop := List.SublistForall₂ (fun s t : Text => s <:+: t) ss ts

variable {s : Text}

variable {body : Fields φ}

end ClearYourTools.Proxy

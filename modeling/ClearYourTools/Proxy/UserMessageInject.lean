import ClearYourTools.Injection.BlockMerge
import ClearYourTools.Misc.Json

/-!
# Injecting into the last user turn

`proxy/user_message_inject.py`: an injection text is appended to the last user turn of a request
body, for the two shapes of request. A body is the JSON object of the request.
-/

namespace ClearYourTools.Proxy

open Misc Injection
open Json (get?)

variable {φ : Type}

abbrev Fields (φ : Type) := List (Text × Json φ)

inductive ProxyKind where
  | anthropic
  | openai
deriving DecidableEq

def messagesKey : Text := "messages"
def inputKey : Text := "input"
def roleKey : Text := "role"
def typeKey : Text := "type"
def contentKey : Text := "content"
def textKey : Text := "text"

variable (fields : Fields φ)

/-- `fields.get(key) == text`. -/
def fieldIs (key text : Text) : Bool :=
  match get? fields key with
  | some (.str s) => s == text
  | _ => false

/-- `fields.get(key) is None`. -/
def fieldIsNone (key : Text) : Bool :=
  match get? fields key with
  | none | some .null => true
  | _ => false

/-- The loop that keeps the index of the last item that satisfies `p`. -/
def lastIndexFrom {α : Type} (p : α → Bool) : ℕ → Option ℕ → List α → Option ℕ
  | _, last, [] => last
  | i, last, x :: xs => lastIndexFrom p (i + 1) (if p x then some i else last) xs

/-- The test of `_anthropic_last_user_message_index`. -/
def isAnthropicUser : Json φ → Bool
  | .obj fields => fieldIs fields roleKey "user"
  | _ => false

/-- The test of `_openai_last_user_input_index`. -/
def isOpenaiUser : Json φ → Bool
  | .obj fields =>
    (fieldIs fields typeKey "message" && fieldIs fields roleKey "user") ||
      (fieldIs fields roleKey "user" && fieldIsNone fields typeKey)
  | _ => false

def isUserTurn : ProxyKind → Json φ → Bool
  | .anthropic => isAnthropicUser
  | .openai => isOpenaiUser

/-- `_anthropic_last_user_message_index` and `_openai_last_user_input_index`. -/
def lastUserIndex (kind : ProxyKind) (turns : List (Json φ)) : Option ℕ :=
  lastIndexFrom (isUserTurn kind) 0 none turns

/-- `_text_block_types`. -/
def isTextBlockType : Bool :=
  fieldIs fields typeKey "input_text" || fieldIs fields typeKey "output_text" ||
    fieldIs fields typeKey "text"

def blockText : Json φ → Option Text
  | .obj fields =>
    if isTextBlockType fields then (get? fields textKey).bind Json.str? else none
  | _ => none

def injectionMarkerInText (t : Text) : Domain → Bool
  | .skills => occursIn "<agent-skills>" t
  | .tools => occursIn toolsOpen t

variable (p : Json.PyFormat φ)

def systemKey : Text := "system"
def instructionsKey : Text := "instructions"

/-- `block.get("type")` can be looked for in a set: it is no list and no object. -/
def typeHashable : Bool :=
  match get? fields typeKey with
  | some (.arr _) | some (.obj _) => false
  | _ => true

/-- What `_strip_message_content` puts for a block, if anything; `none` where it raises. -/
def stripBlock (block : Json φ) : Option (Option (Json φ)) :=
  match block with
  | .obj fields =>
    if ¬ typeHashable fields then none
    else
      match blockText block with
      | none => some (some block)
      | some t =>
        let stripped := stripAgentSkillsBlocks t
        some (if stripped = [] then none
          else some (.obj (Json.set fields textKey (.str stripped))))
  | _ => some (some block)

def stripBlocks : List (Json φ) → Option (List (Json φ))
  | [] => some []
  | block :: blocks =>
    (stripBlock block).bind fun kept => (stripBlocks blocks).map fun rest => kept.toList ++ rest

def stripMessageContent : Json φ → Option (Json φ)
  | .str s => some (.str (stripAgentSkillsBlocks s))
  | .arr blocks => (stripBlocks blocks).map .arr
  | content => some content

variable (body : Fields φ)

/-- The body with the value of one key rewritten. -/
def updateField (key : Text) (f : Json φ → Option (Json φ)) : Option (Fields φ) :=
  match get? body key with
  | none => some body
  | some v => (f v).map fun v' => Json.set body key v'

/-- A message in `strip_agent_skills_from_anthropic_body`: its content is always written. -/
def anthropicStripMessage : Json φ → Option (Json φ)
  | .obj message =>
    (stripMessageContent ((get? message contentKey).getD .null)).map fun content =>
      .obj (Json.set message contentKey content)
  | message => some message

/-- An item in `strip_agent_skills_from_openai_body`. -/
def openaiStripItem : Json φ → Option (Json φ)
  | .obj item => (updateField item contentKey stripMessageContent).map .obj
  | item => some item

/-- A loop over the turns of a list; what is no list has none. -/
def stripTurns (stripTurn : Json φ → Option (Json φ)) : Json φ → Option (Json φ)
  | .arr turns => (turns.mapM stripTurn).map .arr
  | v => some v

def stripAgentSkillsFromAnthropicBody : Option (Fields φ) :=
  (updateField body systemKey stripMessageContent).bind fun body =>
    updateField body messagesKey (stripTurns anthropicStripMessage)

/-- `instructions` are stripped when they are a string. -/
def stripInstructions : Json φ → Option (Json φ)
  | .str s => some (.str (stripAgentSkillsBlocks s))
  | v => some v

def stripAgentSkillsFromOpenaiBody : Option (Fields φ) :=
  (updateField body instructionsKey stripInstructions).bind fun body =>
    updateField body inputKey (stripTurns openaiStripItem)

def messageContentText : Option (Json φ) → Text
  | some (.str s) => s
  | some (.arr blocks) => Text.joinLines (blocks.filterMap blockText)
  | _ => []

/-- `already_has_user_turn_injection` for the tag of one domain. -/
def alreadyHasUserTurnInjection (kind : ProxyKind) (domain : Domain) : Bool :=
  let key := match kind with
    | .anthropic => messagesKey
    | .openai => inputKey
  match get? body key with
  | some (.arr turns) =>
    match (lastUserIndex kind turns).bind fun i => turns[i]? with
    | some (.obj message) =>
      injectionMarkerInText (messageContentText (get? message contentKey)) domain
    | _ => false
  | _ => false

def prepareAgentSkillsInjectBody (kind : ProxyKind) (useUserTurn : Bool) :
    Option (Fields φ × Bool) :=
  let sameTurn := useUserTurn && alreadyHasUserTurnInjection body kind .skills
  if sameTurn then some (body, sameTurn)
  else
    let prepared := match kind with
      | .anthropic => stripAgentSkillsFromAnthropicBody body
      | .openai => stripAgentSkillsFromOpenaiBody body
    prepared.map fun body => (body, sameTurn)

end ClearYourTools.Proxy

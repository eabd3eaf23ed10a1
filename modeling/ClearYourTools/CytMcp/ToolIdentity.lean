import ClearYourTools.Misc.Text

/-!
# Wire names

`cyt_mcp/tool_identity.py`: a backend tool of a server is shown to the agent under a wire
name, and the wire name is resolved against the configured server keys.
-/

namespace ClearYourTools.CytMcp

open Misc

structure CytMcpToolIdentity where
  wireName : Text
  serverKey : Text
  backendToolName : Text
deriving DecidableEq

def wireNameFor (serverKey backendToolName : Text) : Text := serverKey ++ '_' :: backendToolName

/-- `{str(key).strip() for key in server_keys if str(key).strip()}`, in some order. -/
def strippedKeys (serverKeys : List Text) : List Text :=
  (serverKeys.map Text.strip).filter fun key => !key.isEmpty

variable (configured : List Text)

/-- `_is_false_wire_split`, with what `_configured_mcp_server_keys` returns. -/
def isFalseWireSplit (identity : CytMcpToolIdentity) : Bool :=
  if identity.backendToolName ≠ "tool" then false
  else configured.isEmpty || !configured.contains identity.serverKey

/-- The body of the loop of `split_wire_name`: the identity that a key gives, if the loop
returns it. -/
def splitAt (name serverKey : Text) : Option CytMcpToolIdentity :=
  let start := serverKey ++ ['_']
  if ¬ start.isPrefixOf name then none
  else
    let backendToolName := Text.strip (name.drop start.length)
    if backendToolName = [] then none
    else
      let identity := ⟨name, serverKey, backendToolName⟩
      if isFalseWireSplit configured identity then none else some identity

/-- `sorted(keys, key=len, reverse=True)`. -/
def longestFirst (keys : List Text) : List Text :=
  keys.mergeSort fun a b => decide (b.length ≤ a.length)

def splitWireName (wireName : Text) (serverKeys : List Text) : Option CytMcpToolIdentity :=
  let name := wireName.strip
  if name = [] ∨ serverKeys = [] then none
  else (longestFirst (strippedKeys serverKeys)).findSome? (splitAt configured name)

def isKnownServerKey (serverKey : Text) (serverKeys : List Text) : Bool :=
  let key := serverKey.strip
  if key = [] then false else (strippedKeys serverKeys).contains key

def isCanonicalSchemaIdentity (mcpServer toolName : Text) (serverKeys : List Text) : Bool :=
  let server := mcpServer.strip
  let bare := toolName.strip
  if server = [] ∨ bare = [] ∨ serverKeys = [] then false
  else if ¬ isKnownServerKey server serverKeys then false
  else
    let wire := wireNameFor server bare
    match splitWireName configured wire serverKeys with
    | none => wire == bare || wire == server
    | some identity => identity.serverKey == server && identity.backendToolName == bare

/-- `purge_misparsed_identity_schemas` on the `(mcp_server, tool_name)` rows. -/
def purgeMisparsedIdentitySchemas (configured serverKeys : List Text)
    (rows : List (Text × Text)) : List (Text × Text) :=
  rows.filter fun row => isCanonicalSchemaIdentity configured row.1 row.2 serverKeys

end ClearYourTools.CytMcp

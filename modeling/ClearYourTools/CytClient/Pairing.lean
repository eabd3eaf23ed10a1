import ClearYourTools.CytClient.Sessions
import ClearYourTools.Misc.JsonRoundTrip
import ClearYourTools.Misc.Search

/-!
# Pairing

`cyt_client/pairing.py` with `cyt_client/mcp_entry.py`: the entry of the cyt-mcp frontend is put into
the MCP configuration of an agent, and taken out of it. The configuration of Codex is TOML, the
others are JSON.
-/

namespace ClearYourTools.CytClient

open Misc
open Json (get? PyFormat)

variable {φ : Type}

/-- `CYT_MCP_FRONTEND_SERVER_KEYS`. -/
def frontendServerKeys : List Text :=
  ["cyt-mcp-usr".toList, "cyt-mcp-ws".toList, "cyt-mcp".toList, "cyt-mcp-workspace".toList,
    "cyt_mcp"]

def installedCytMcpCommand : Text := "cyt-mcp"

/-- A file of an agent. Reading a text turns every line end into a line feed. -/
inductive AgentFile
  /-- The directory of the file is not there. -/
  | noDirectory
  /-- There is no file. -/
  | missing
  /-- Reading the file is an `OSError`. -/
  | unreadable
  /-- The file is no UTF-8. -/
  | undecodable
  | text (content : Text)

/-- How the header of a table of a server starts. -/
def serversHeader : Text := "[mcp_servers."

/-- `f"[mcp_servers.{key}]"`. -/
def marker (key : Text) : Text := serversHeader ++ (key ++ [']'])

/-- `part in text`. -/
def hasPart (part text : Text) : Bool := (Matcher.search (Matcher.literal part) text).isSome

/-- The body of the loops over the keys: the table of a key is cut out. -/
def cutTable (text key : Text) : Text :=
  match Matcher.search (Matcher.literal (marker key)) text with
  | none => text
  | some (before, _, after) =>
    match Matcher.search (Matcher.literal ('\n' :: serversHeader)) after with
    | some (_, header, rest) => before.rstrip ++ (header ++ rest)
    | none => before.rstrip ++ ['\n']

variable (order : List Text)

/-- A loop over keys, in the order of the set. -/
def cutTables (text : Text) : Text := order.foldl cutTable text

/-- `_strip_frontend_keys_from_codex_mcp`. Where no marker is found the text stays as it is. -/
def stripFrontendKeysFromCodexMcp : AgentFile → AgentFile
  | .text content => .text (cutTables order content)
  | file => file

section

variable (p : PyFormat φ)

variable (agent : Text)

/-- The lines of a table after its header, for an entry with a command. -/
def commandLines (entry : Record φ) : List Text :=
  let command := ((get? entry "command").map (Json.toStr p)).getD installedCytMcpCommand
  let args : Json φ :=
    match get? entry "args" with
    | some (.arr items) => .arr items
    | _ => .arr [.str "--agent", .str agent]
  let cwd :=
    match get? entry "cwd" with
    | some (.str cwd) => if cwd.strip = [] then [] else ["cwd = \"".toList ++ (cwd.strip ++ ['"'])]
    | _ => []
  let env :=
    match get? entry "env" with
    | some (.obj (kv :: env)) =>
      ["env = ".toList ++ Json.dumpsSpaced p (.obj (kv :: env))]
    | _ => []
  ["command = \"".toList ++ (command ++ ['"']),
    "args = " ++ Json.dumpsSpaced p args] ++ (cwd ++ env)

/-- The lines of a table after its header. -/
def entryLines (entry : Record φ) : List Text :=
  match get? entry "url" with
  | some (.str url) =>
    if url.strip = [] then commandLines p agent entry
    else ["url = \"".toList ++ (url.strip ++ ['"'])]
  | _ => commandLines p agent entry

/-- What follows the header of a table. -/
def tableBody (entry : Record φ) : Text :=
  '\n' :: (Text.joinLines (entryLines p agent entry) ++ ['\n'])

def codexCytMcpTomlBlock (entry : Record φ) (serverKey : Text) : Text :=
  '\n' :: (marker serverKey ++ tableBody p agent entry)

end

/-- The text with the block in it, if it is not there. -/
def withBlock (serverKey block text : Text) : Option Text :=
  if hasPart (marker serverKey) text then some ((cutTable text serverKey).rstrip ++ block)
  else if hasPart serverKey text && hasPart block.strip text then none
  else some (text.rstrip ++ block)

/-- The text that `_ensure_codex_mcp_server` writes, if it writes one. -/
def ensuredText (serverKey block text : Text) : Option Text :=
  withBlock serverKey block (cutTables (order.filter fun key => key != serverKey) text)

/-- `_ensure_codex_mcp_server`, with the block of the desired entry. -/
def ensureCodexMcpServer (serverKey block : Text) : AgentFile → AgentFile
  | .text content => .text ((ensuredText order serverKey block content).getD content)
  | .missing => ((ensuredText order serverKey block []).map .text).getD .missing
  | file => file

/-- How Python compares two numbers, where `True` is one. -/
structure PairingEnv (φ : Type) extends PyFormat φ where
  numbersEqual : Json φ → Json φ → Bool

instance : Coe (PairingEnv φ) (PyFormat φ) := ⟨PairingEnv.toPyFormat⟩

def isNumber : Json φ → Bool
  | .bool _ | .int _ | .float _ => true
  | _ => false

variable (env : PairingEnv φ)

mutual

/-- `left == right`. -/
def pyEqual : Json φ → Json φ → Bool
  | .null, .null => true
  | .str s, .str t => s == t
  | .arr items, .arr items' => pyEqualItems items items'
  | .obj fields, .obj fields' =>
    fields.length == fields'.length && pyEqualFields fields fields'
  | v, v' => isNumber v && isNumber v' && env.numbersEqual v v'

def pyEqualItems : List (Json φ) → List (Json φ) → Bool
  | [], [] => true
  | v :: items, v' :: items' => pyEqual v v' && pyEqualItems items items'
  | _, _ => false

/-- Each field is equal to the one with the same key. -/
def pyEqualFields : List (Text × Json φ) → List (Text × Json φ) → Bool
  | [], _ => true
  | (k, v) :: fields, fields' =>
    (match get? fields' k with
    | some v' => pyEqual v v'
    | none => false) && pyEqualFields fields fields'

end

/-- `mcp_entries_equivalent`. A field that is not there is `None`. -/
def mcpEntriesEquivalent (existing : Option (Json φ)) (desired : Record φ) : Bool :=
  match existing with
  | some (.obj existing) =>
    desired.all fun kv => pyEqual env ((get? existing kv.1).getD .null) kv.2
  | _ => false

def mcpServersKey : Text := "mcpServers"

def isFrontendKey (key : Text) : Bool := frontendServerKeys.contains key

/-- The dictionary of a value, if it is one. -/
def dictOr (v : Option (Json φ)) : Record φ :=
  match v with
  | some (.obj fields) => fields
  | _ => []

/-- `json.dumps(raw, indent=2) + "\n"`. -/
def writtenJson (raw : Record φ) : Text := Json.dumpsIndent env true 0 (.obj raw) ++ ['\n']

/-- The document that `_strip_frontend_keys_from_json_mcp` writes, if it writes one. -/
def strippedDocument (raw : Record φ) : Option (Record φ) :=
  match get? raw mcpServersKey with
  | some (.obj servers) =>
    if servers.any fun kv => isFrontendKey kv.1 then
      some (Json.set raw mcpServersKey (.obj (servers.filter fun kv => !isFrontendKey kv.1)))
    else none
  | _ => none

def stripFrontendKeysFromJsonMcp : AgentFile → AgentFile
  | .text content =>
    match Json.loads env content with
    | some (.obj raw) => .text (((strippedDocument raw).map (writtenJson env)).getD content)
    | _ => .text content
  | file => file

variable (serverKey : Text)

/-- The servers of `_ensure_json_mcp_server`, if they change. -/
def ensuredServers (desired servers : Record φ) : Option (Record φ) :=
  if mcpEntriesEquivalent env (get? servers serverKey) desired then none
  else
    some (Json.set (servers.filter fun kv => !isFrontendKey kv.1 || kv.1 == serverKey) serverKey
      (.obj (Json.overlaid (dictOr (get? servers serverKey)) desired)))

/-- The document that `_ensure_json_mcp_server` writes, if it writes one. -/
def ensuredDocument (desired raw : Record φ) : Option (Record φ) :=
  (ensuredServers env serverKey desired (dictOr (get? raw mcpServersKey))).map fun servers =>
    Json.set raw mcpServersKey (.obj servers)

/-- The document that `_ensure_json_mcp_server` starts with; `none` is an exception. -/
def existingDocument : AgentFile → Option (Record φ)
  | .text content => some (dictOr (Json.loads env content))
  | .missing | .unreadable => some []
  | .noDirectory | .undecodable => none

/-- `_ensure_json_mcp_server`, with the desired entry. -/
def ensureJsonMcpServer (desired : Record φ) (file : AgentFile) : AgentFile :=
  match (existingDocument env file).bind (ensuredDocument env serverKey desired) with
  | some raw => .text (writtenJson env raw)
  | none => file

end ClearYourTools.CytClient

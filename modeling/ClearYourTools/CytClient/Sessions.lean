import ClearYourTools.Misc.Json

/-!
# Session logs

`cyt_client/sessions.py`: a session log is a file with one JSON record a line. It is the text
of the file, or `none` while there is no file.
-/

namespace ClearYourTools.CytClient

open Misc

variable {φ : Type}

/-- A JSON object. -/
abbrev Record (φ : Type) := List (Text × Json φ)

variable (p : Json.PyFormat φ)

/-- `str(record.get(key) or "")`. -/
def fieldText (record : Record φ) (key : Text) : Text := Json.strOr p record key []

/-- `record.get(key) == text`. -/
def fieldIs (record : Record φ) (key text : Text) : Bool :=
  match Json.get? record key with
  | some (.str s) => s == text
  | _ => false

variable (f : Json.FloatFormat φ)

def parseJsonlLine (line : Text) : Option (Record φ) :=
  let stripped := line.strip
  if stripped = [] then none
  else
    match Json.loads f stripped with
    | some (.obj fields) => some fields
    | _ => none

/-- The records of the lines of a log. Reading a file turns every line end into a line feed,
which changes no line. -/
def logRecords (text : Text) : List (Record φ) :=
  (Text.splitLines text).filterMap (parseJsonlLine f)

def typeKey : Text := "type"
def agentKey : Text := "agent"
def metaType : Text := "meta"

def isMeta (record : Record φ) : Bool := fieldIs record typeKey metaType

/-- The body of the loop of `read_session_log_file`. -/
def readRecord (state : Option Text × List (Record φ)) (record : Record φ) :
    Option Text × List (Record φ) :=
  if isMeta record then
    match Json.get? record agentKey with
    | some (.str agent) => if agent.strip = [] then state else (some agent.strip, state.2)
    | _ => state
  else (state.1, state.2 ++ [record])

/-- `read_session_log_file`: the agent of the meta line, and the item entries. -/
def readSessionLogFile (log : Option Text) : Option Text × List (Record φ) :=
  match log with
  | none => (none, [])
  | some text => (logRecords f text).foldl readRecord (none, [])

def entriesAfterLatestCompaction (entries : List (Record φ)) : List (Record φ) :=
  (entries.reverse.takeWhile fun e => !fieldIs e "kind" "compaction").reverse

def readSessionLog (log : Option Text) (postCompactionOnly : Bool) : List (Record φ) :=
  let items := (readSessionLogFile f log).2
  if postCompactionOnly then entriesAfterLatestCompaction items else items

def catalogPrefix : Text := "tool_catalog:"

/-- The body of the loop of `read_latest_tool_catalogs`. -/
def addCatalog (catalogs : List (Text × Record φ)) (entry : Record φ) : List (Text × Record φ) :=
  if ¬ fieldIs entry "kind" "tool_catalog" then catalogs
  else
    match Json.get? entry "tools" with
    | some (.arr (_ :: _)) =>
      let catalog := (fieldText p entry "catalog").strip
      let key := (Json.strOr p entry "key" (catalogPrefix ++ catalog)).strip
      let catalogs := if key = [] then catalogs else Dict.setEntries key entry catalogs
      if catalog = [] then catalogs
      else Dict.setEntries (catalogPrefix ++ catalog) entry catalogs
    | _ => catalogs

def readLatestToolCatalogs (log : Option Text) : List (Text × Record φ) :=
  (readSessionLog p log true).foldl (addCatalog p) []

/-- The body of the loop of `read_tool_catalog_hashes`. -/
def addCatalogHash (hashes : List (Text × Text)) (entry : Record φ) : List (Text × Text) :=
  if ¬ fieldIs entry "kind" "tool_catalog" then hashes
  else
    match Json.get? entry "hash" with
    | some (.str hash) =>
      if hash.strip = [] then hashes
      else
        let catalog := (fieldText p entry "catalog").strip
        let key := (Json.strOr p entry "key" (catalogPrefix ++ catalog)).strip
        let hashes := if key = [] then hashes else Dict.setEntries key hash.strip hashes
        if catalog = [] then hashes
        else Dict.setEntries (catalogPrefix ++ catalog) hash.strip hashes
    | _ => hashes

def readToolCatalogHashes (log : Option Text) : List (Text × Text) :=
  (readSessionLog p log true).foldl (addCatalogHash p) []

/-- A flag of the latest `session_state:inject` entry that has it. -/
def readStateFlag (flag : Text) (log : Option Text) : Option Bool :=
  (readSessionLogFile p log).2.reverse.findSome? fun entry =>
    if fieldIs entry "kind" "session_state" ∧
        fieldText p entry "key".toList = "session_state:inject".toList then
      match Json.get? entry flag with
      | some (.bool b) => some b
      | _ => none
    else none

def readToolsInjectEnabled (log : Option Text) : Option Bool :=
  readStateFlag p "tools_inject_enabled" log

def readHallucinationGateEnabled (log : Option Text) : Option Bool :=
  readStateFlag p "hallucination_gate_enabled" log

/-- The lines that `append_session_log` writes. -/
def newLines (log : Option Text) (entries : List (Record φ)) (agent : Option Text) : List Text :=
  let metaLine :=
    match log, agent with
    | none, some (c :: name) =>
      [Json.dumps f true (.obj [(typeKey, .str metaType), (agentKey, .str (c :: name))])]
    | _, _ => []
  metaLine ++ entries.map fun e => Json.dumps f false (.obj e)

/-- One turn of the writing loop: a line feed first, unless the file is empty. -/
def writeLine (file line : Text) : Text :=
  if file = [] then line else file ++ '\n' :: line

def appendSessionLog (log : Option Text) (entries : List (Record φ)) (agent : Option Text) :
    Option Text :=
  if entries = [] then log
  else some ((newLines f log entries agent).foldl writeLine (log.getD []))

/-- `_existing_keys_and_hashes`, of the entries that `read_session_log` returns. -/
def existingKeysAndHashes (kind : Text) (logged : List (Record φ)) : List (Text × Text) :=
  (logged.filter fun entry => fieldIs entry "kind" kind).map fun entry =>
    (fieldText p entry "key", fieldText p entry "hash")

/-- `entry.get("full") is True`. -/
def isFull (entry : Record φ) : Bool :=
  match Json.get? entry "full" with
  | some (.bool b) => b
  | _ => false

/-- `_has_full_tool_entry`, of the entries that `read_session_log` returns. -/
def hasFullToolEntry (logged : List (Record φ)) (key hash : Text) : Bool :=
  logged.any fun entry => fieldIs entry "kind" "tool" &&
    fieldText p entry "key" == key && fieldText p entry "hash" == hash &&
    isFull entry

/-- The body of the loop of `_append_deduped_kind_entries`: the entries to append and the keys
and hashes that exist. -/
def dedupEntry (kind : Text) (logged : List (Record φ))
    (state : List (Record φ) × List (Text × Text)) (entry : Record φ) :
    List (Record φ) × List (Text × Text) :=
  if ¬ fieldIs entry "kind" kind then state
  else
    let key := (fieldText p entry "key").strip
    let hash := (fieldText p entry "hash").strip
    if key ≠ [] ∧ hash ≠ [] ∧ (key, hash) ∈ state.2 then
      if kind = "tool" ∧ isFull entry ∧ ¬ hasFullToolEntry p logged key hash then
        (state.1 ++ [entry], state.2)
      else state
    else
      (state.1 ++ [entry], if key ≠ [] ∧ hash ≠ [] then state.2 ++ [(key, hash)] else state.2)

/-- The entries that `_append_deduped_kind_entries` appends. -/
def dedupedEntries (kind : Text) (logged entries : List (Record φ)) : List (Record φ) :=
  (entries.foldl (dedupEntry p kind logged) ([], existingKeysAndHashes p kind logged)).1

def appendDedupedKindEntries (kind : Text) (log : Option Text) (entries : List (Record φ))
    (agent : Option Text) : Option Text :=
  appendSessionLog p log
    (dedupedEntries p kind (readSessionLog p log true) entries) agent

def appendToolEntries (log : Option Text) (entries : List (Record φ)) (agent : Option Text) :
    Option Text :=
  appendDedupedKindEntries p "tool" log entries agent

/-- The test of the loop of `append_tool_catalog_entries`. -/
def isNewCatalog (latest : List (Text × Record φ)) (entry : Record φ) : Bool :=
  if ¬ fieldIs entry "kind" "tool_catalog" then false
  else
    match Json.get? entry "tools" with
    | some (.arr (_ :: _)) =>
      let catalog := (fieldText p entry "catalog").strip
      let key := if catalog = [] then fieldText p entry "key" else catalogPrefix ++ catalog
      match latest.lookup key with
      | some existing => fieldText p existing "hash" != fieldText p entry "hash"
      | none => true
    | _ => false

def appendToolCatalogEntries (log : Option Text) (entries : List (Record φ)) (agent : Option Text) :
    Option Text :=
  appendSessionLog p log
    (entries.filter (isNewCatalog p (readLatestToolCatalogs p log))) agent

end ClearYourTools.CytClient

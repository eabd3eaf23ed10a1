import ClearYourTools.CytClient.Sessions
import ClearYourTools.Misc.Search

/-!
# Reads of skill files

`cyt_client/agent_interceptor.py`: a Read of a skill file is answered with a skinny version of it,
with the file itself, or is denied, by what the session log says of the file. The file system is a
parameter, and so is what the transcript and the daemon say; a session has a log path.
-/

namespace ClearYourTools.CytClient

open Misc
open Json (get? truthy)

variable {φ : Type}

def fullPromotionThreshold : ℕ := 3

/-- The file system and the harness: `expandUser` is `str(Path(t).expanduser())`, `resolve` is
`Path(t).expanduser().resolve()` where that raises no `OSError`. -/
structure InterceptEnv (φ : Type) extends Json.PyFormat φ where
  enabled : Bool
  home : Text
  expandUser : Text → Text
  resolve : Text → Option Text
  isFile : Text → Bool
  contentSha256 : Text → Text
  readText : Text → Text
  launchAgent : Option Text
  agent : Text
  payloadDirectories : List Text

instance : Coe (InterceptEnv φ) (Json.PyFormat φ) := ⟨InterceptEnv.toPyFormat⟩

/-- A Read: its arguments, the last user and assistant messages of the transcript, and the body of
the reply if the daemon is asked and does not fail. -/
structure ReadCall (φ : Type) where
  toolInput : Record φ
  user : Option Text
  assistant : Option Text
  reply : Option (Json φ)

/-- What a Read is answered with. -/
inductive ReadResponse
  | allow
  | skinny (path : Text)
  | deniedRedundant
  | deniedFullReread
  | deniedByDaemon (message : Text)
deriving DecidableEq

inductive InjectionMode
  | skip
  | skinny
  | full
  | denyFullReread
deriving DecidableEq

/-- A field that is a text with more than white space. -/
def textField (record : Record φ) (field : Text) : Option Text :=
  match get? record field with
  | some (.str raw) => if raw.strip = [] then none else some raw.strip
  | _ => none

def readPathFields : List Text := ["path".toList, "file_path".toList, "filePath".toList]

def readPathFromToolInput (toolInput : Record φ) : Option Text :=
  (readPathFields.findSome? (textField toolInput)).or
    (match get? toolInput "input" with
      | some (.obj nested) => readPathFields.findSome? (textField nested)
      | _ => none)

def hasPartialReadParams (toolInput : Record φ) : Bool :=
  ["offset".toList, "limit".toList].any fun field =>
    match get? toolInput field with
    | none | some .null => false
    | some _ => true

/-- `.*?` and a match. -/
def lazyThen (m : Matcher) : Matcher := fun t =>
  (Matcher.search m t).map fun r => (r.1 ++ r.2.1, r.2.2)

/-- An `i` for a pattern that ignores case. -/
def letterI : Matcher
  | [] => none
  | c :: t =>
    if c.toLower = 'i' ∨ c.toNat = 0x130 ∨ c.toNat = 0x131 then some ([c], t) else none

/-- `timestamp>` in any case, after an opening. -/
def timestampTag (opening : Text) : Matcher :=
  (Matcher.literalIgnoreCase (opening ++ ['t'])).andThen
    (letterI.andThen (Matcher.literalIgnoreCase "mestamp>"))

def timestampRe : Matcher :=
  (timestampTag ['<']).andThen
    ((lazyThen (timestampTag ['<', '/'])).andThen (Matcher.many isSpace))

/-- The group of `_USER_QUERY_RE` where a text has a match. -/
def userQuery (text : Text) : Option Text :=
  Matcher.searchMap (fun t => (Matcher.literalIgnoreCase "<user_query>" t).bind fun r =>
    (Matcher.search (Matcher.literalIgnoreCase "</user_query>") r.2).map fun s => s.1) text

def normalizeTurnPrompt (text : Text) : Text :=
  let stripped := text.strip
  if stripped = [] then []
  else
    match userQuery stripped with
    | some query => query.strip
    | none => (Matcher.removeAll timestampRe stripped).strip

def formatSearchQuery (query : Text) (assistant : Option Text) : Text :=
  "User_Asks: " ++ query ++
    (match assistant with
      | some (c :: message) => "; Assistant_Says: " ++ c :: message
      | _ => [])

def skillPrefix : Text := "skill:"

def components (path : Text) : List Text := path.splitOnP (· == '/')

/-- Whether a resolved path lies in a resolved directory or is it. -/
def isUnder (base resolved : Text) : Bool :=
  resolved == base || (if base == ['/'] then base else base ++ ['/']).isPrefixOf resolved

section

variable (env : InterceptEnv φ)

variable (path : Text)

def shortenHomePath : Text :=
  let text := path.strip
  match env.resolve text with
  | none => text
  | some resolved =>
    if resolved = env.home then "~/."
    else if isUnder env.home resolved then
      "~/" ++ resolved.drop (if env.home == ['/'] then 1 else env.home.length + 1)
    else text

def skillItemKeyForPath : Text := skillPrefix ++ shortenHomePath env path

/-- The path that a key or a path of an entry names, in `_skill_entry_path_candidates`. -/
def candidate (raw : Text) : Option Text :=
  let text := raw.strip
  if text = [] then none
  else
    env.resolve (if skillPrefix.isPrefixOf text then Text.strip (text.drop skillPrefix.length)
      else text)

variable (entry : Record φ)

def skillEntryPathCandidates : List Text :=
  ["key".toList, "path".toList].filterMap fun field =>
    match get? entry field with
    | some (.str raw) => candidate env raw
    | _ => none

def skillEntryMatchesReadPath (readPath : Text) : Bool :=
  fieldIs entry "kind" "skill" &&
    (env.resolve readPath).any fun resolved => (skillEntryPathCandidates env entry).contains resolved

/-- The owners of `.system` skills, in the parts of a path. -/
def hasOtherOwner (agent : Text) : List Text → Bool
  | owner :: skills :: system :: rest =>
    let name := if ['.'].isPrefixOf owner then owner.drop 1 else owner
    (skills == "skills" && system == ".system" &&
      ["claude".toList, "codex".toList, "cursor".toList].contains name && name != agent) ||
        hasOtherOwner agent (skills :: system :: rest)
  | _ => false

/-- `is_excluded_system_skill`, of the agent that was launched. -/
def isExcludedSystemSkill : Bool :=
  env.launchAgent.any fun agent =>
    (env.resolve path).any fun resolved => hasOtherOwner agent (components resolved)

/-- The directories of an entry of `_skill_directories_from_session_log`, if it has any. -/
def entryDirectories : Option (List Text) :=
  if fieldIs entry "kind" "skill_directories" then
    match get? entry "directories" with
    | some (.arr items) =>
      let directories := items.filterMap fun item =>
        match item with
        | .str raw => if raw.strip = [] then none else env.resolve raw
        | _ => none
      if directories = [] then none else some directories
    | _ => none
  else none

/-- `skill_directories_from_session_or_payload`. -/
def skillDirectories (entries : List (Record φ)) : List Text :=
  ((entriesAfterLatestCompaction entries).reverse.findSome? (entryDirectories env)).getD
    (env.payloadDirectories.filterMap env.resolve).eraseDups

def isSkillMdUnderDirectories (directories : List Text) : Bool :=
  ".md".toList.isSuffixOf (path.map Char.toLower) &&
    (env.resolve path).any fun resolved => directories.any fun directory =>
      (env.resolve directory).any fun base => isUnder base resolved

end

section

variable (env : InterceptEnv φ) (entries : List (Record φ))

def hasKey (key : Text) (entry : Record φ) : Bool := fieldText env entry "key" == key

def countKey (key : Text) : ℕ := entries.countP (hasKey env key)

def latestHash (key : Text) : Option Text :=
  entries.reverse.findSome? fun entry =>
    if hasKey env key entry then textField entry "hash" else none

variable (key currentHash : Text)

/-- An entry that says that the full file with a hash was read. -/
def satisfiesFull (entry : Record φ) : Bool :=
  hasKey env key entry && (get? entry "full").any (truthy env) &&
    (match get? entry "hash" with
      | some (.str logged) => logged.strip == currentHash
      | _ => false)

def hasSatisfiedFull : Bool := entries.any (satisfiesFull env key currentHash)

def resolveReadInterceptMode : InjectionMode :=
  if hasSatisfiedFull env entries key currentHash then .denyFullReread
  else if (latestHash env entries key).any (· != currentHash) then .full
  else if fullPromotionThreshold ≤ countKey env entries key then .full
  else .skinny

def isTurn (entry : Record φ) : Bool := fieldIs entry "kind" "turn"

def matchingSkillEntryAfterLatestTurn (readPath : Text) : Option (Record φ) :=
  if entries.any isTurn then
    (entries.reverse.takeWhile fun entry => !isTurn entry).reverse.find? fun entry =>
      skillEntryMatchesReadPath env entry readPath
  else none

def sessionSkillKeyForReadPath (readPath : Text) : Option Text :=
  entries.reverse.findSome? fun entry =>
    if skillEntryMatchesReadPath env entry readPath then
      let key := (fieldText env entry "key").strip
      if key = [] then none else some key
    else none

def latestTurnPromptFromSession : Text :=
  (entries.reverse.findSome? fun entry =>
    if isTurn entry then
      let prompt := (fieldText env entry "prompt").strip
      if prompt = [] then none else some prompt
    else none).getD []

def latestTurnQueryFromSession : Text :=
  (entries.reverse.findSome? fun entry =>
    if isTurn entry then
      let prompt := (fieldText env entry "prompt").strip
      let assistant := (fieldText env entry "assistant").strip
      if prompt = [] then none else some (formatSearchQuery prompt (some assistant))
    else none).getD []

def shouldDenySameTurnPreinjectedSkill (sessionPrompt transcriptPrompt contentHash readPath : Text) :
    Bool :=
  match matchingSkillEntryAfterLatestTurn env entries readPath with
  | none => false
  | some entry =>
    match get? entry "hash" with
    | some (.str logged) =>
      let session := normalizeTurnPrompt sessionPrompt
      let transcript := normalizeTurnPrompt transcriptPrompt
      if logged.strip ≠ contentHash ∨ session = [] then false
      else transcript == [] || session == transcript
    | _ => false

end

section

variable (env : InterceptEnv φ)

/-- `Path.stem` of a file name. -/
def stem (name : Text) : Text :=
  let suffix := name.rtakeWhile (· != '.')
  let base := name.take (name.length - suffix.length - 1)
  if base = [] ∨ suffix = [] ∨ suffix.length = name.length then name else base

/-- A capital letter for `str.upper`. -/
def upperChar (c : Char) : Char :=
  if c.toNat = 0x17F then 'S' else if c.toNat = 0x131 then 'I' else c.toUpper

/-- The name of the skill of `_append_full_skill_log_entry`. -/
def skillNameForFile (path : Text) : Text :=
  match (components path).reverse with
  | name :: parent :: _ => if name.map upperChar = "SKILL.MD" then parent else stem name
  | parts => stem parts.flatten

def fullSkillLogEntry (skillFile contentHash key : Text) : Record φ :=
  [("kind", .str "skill"), ("key", .str key),
    ("hash", .str contentHash), ("full", .bool true),
    ("source", .str "file"), ("body", .str (env.readText skillFile)),
    ("name", .str (skillNameForFile skillFile)),
    ("path", .str (shortenHomePath env skillFile))]

variable (log : Option Text)

def appendSkillEntries (entries : List (Record φ)) : Option Text :=
  appendDedupedKindEntries env "skill" log entries (some env.agent)

/-- The hash of the file that a Read names. -/
def readContentHash (readPath : Text) : Text := env.contentSha256 (env.expandUser readPath)

/-- The key that the session log has for a Read, or that of its path. -/
def readSessionKey (entries : List (Record φ)) (readPath : Text) : Text :=
  (sessionSkillKeyForReadPath env entries (env.expandUser readPath)).getD
    (skillItemKeyForPath env (env.expandUser readPath))

/-- Whether `_read_intercept_decision` denies a Read in the turn of the entry of its file. -/
def deniesInTurn (entries : List (Record φ)) (call : ReadCall φ) (readPath : Text) : Bool :=
  shouldDenySameTurnPreinjectedSkill env entries (latestTurnPromptFromSession env entries)
    (call.user.getD []) (readContentHash env readPath) readPath

/-- `_read_intercept_decision`: the answer, unless the daemon is to be asked, and the log. -/
def readInterceptDecision (call : ReadCall φ) (readPath : Text) :
    Option ReadResponse × Option Text :=
  let skillFile := env.expandUser readPath
  if isExcludedSystemSkill env skillFile then (some .allow, log)
  else if !env.isFile skillFile then (some .allow, log)
  else
    let entries := entriesAfterLatestCompaction (readSessionLogFile env log).2
    if deniesInTurn env entries call readPath then (some .deniedRedundant, log)
    else
      match resolveReadInterceptMode env entries (readSessionKey env entries readPath)
          (readContentHash env readPath) with
      | .denyFullReread => (some .deniedFullReread, log)
      | .full => (some .allow, appendSkillEntries env log [fullSkillLogEntry env skillFile
          (readContentHash env readPath) (skillItemKeyForPath env skillFile)])
      | _ => (none, log)

def interceptQueryForPayload (entries : List (Record φ)) (call : ReadCall φ) : Text :=
  match call.user with
  | some (c :: user) =>
    let assistant := (call.assistant.map normalizeTurnPrompt).getD []
    formatSearchQuery (normalizeTurnPrompt (c :: user)) (some assistant)
  | _ => latestTurnQueryFromSession env (entriesAfterLatestCompaction entries)

def parseAgentInterceptorResponse (body : Json φ) : Option (Record φ) :=
  let flagged := fun (record : Record φ) (flag : String) =>
    (get? record flag.toList).any (truthy env)
  match body with
  | .obj parsed =>
    if flagged parsed "agent_interceptor" || flagged parsed "cyt_agent_interceptor" then some parsed
    else
      match get? parsed "hookSpecificOutput" with
      | some (.obj output) => if flagged output "agent_interceptor" then some output else none
      | _ => none
  | _ => none

/-- The path of the skinny file that a reply names. -/
def skinnyPath (reply : Record φ) : Option Text :=
  match get? reply "updated_input" with
  | some (.obj input) => (get? input "path").bind Json.str?
  | _ => none

def readInterceptFromDaemon (call : ReadCall φ) : ReadResponse × Option Text :=
  match call.reply.bind (parseAgentInterceptorResponse env) with
  | none => (.allow, log)
  | some reply =>
    if fieldIs reply "permission" "deny" then
      (.deniedByDaemon (Json.strOr env reply "user_message" "Read denied by CYT."), log)
    else
      match skinnyPath reply with
      | none => (.allow, log)
      | some path =>
        (.skinny path, match get? reply "skill_log_entry" with
          | some (.obj entry) => appendSkillEntries env log [entry]
          | _ => log)

/-- `handle_read_intercept` of a Read: the answer, unless another gate is to answer, and the log. -/
def handleReadIntercept (call : ReadCall φ) : Option ReadResponse × Option Text :=
  if !env.enabled then (none, log)
  else
    match readPathFromToolInput call.toolInput with
    | none => (none, log)
    | some readPath =>
      let entries := (readSessionLogFile env log).2
      if !isSkillMdUnderDirectories env readPath (skillDirectories env entries) then
        (some .allow, log)
      else if hasPartialReadParams call.toolInput then (some .allow, log)
      else
        match readInterceptDecision env log call readPath with
        | (some response, log) => (some response, log)
        | (none, log) =>
          if (interceptQueryForPayload env entries call).strip = [] then (some .allow, log)
          else
            let (response, log) := readInterceptFromDaemon env log call
            (some response, log)

def ReadResponse.userMessage : ReadResponse → Option Text
  | .deniedRedundant => some "Skill already injected for this turn; Read is redundant."
  | .deniedFullReread => some "Full skill file was already read in this session."
  | .deniedByDaemon message => some message
  | _ => none

end

/-- The log of a session, and the answers to the Reads so far. -/
structure ReadState where
  log : Option Text
  responses : List (Option ReadResponse)

/-- A Read, or what else is written to the log. -/
inductive ReadEvent (φ : Type)
  | read (call : ReadCall φ)
  | others (log : Option Text)

/-- What an event does to a session. -/
def ReadState.step (env : InterceptEnv φ) (s : ReadState) : ReadEvent φ → Option ReadState
  | .read call =>
    let answer := handleReadIntercept env s.log call
    some ⟨answer.2, s.responses ++ [answer.1]⟩
  | .others log => some { s with log := log }

end ClearYourTools.CytClient

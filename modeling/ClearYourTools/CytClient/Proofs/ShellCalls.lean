import ClearYourTools.CytClient.Proofs.GateVerdicts

/-!
# Sequences of mcpc calls

The gate reads one call off a shell command: the session and the tool of the first mention of a
call, and the arguments of the first text that looks like an argument of `echo`.
-/

namespace ClearYourTools.CytClient

open Misc List Option Matcher
open Json (get? PyFormat noFloats)
open Matcher (searchMap literal many1 literalIgnoreCase andThen_stopsAt many1_stopsAt)
open Text (forall_of_all strip)

variable {φ : Type}

/-- What the gate relies on about alphanumeric characters. -/
structure WordChars (isAlnum : Char → Bool) : Prop where
  not_space : ∀ c, isAlnum c = true → isSpace c = false
  not_quote : isAlnum '\'' = false

inductive CallForm where
  | echoed
  | trailing

/-- An mcpc tool call of a shell command, with the JSON text of its arguments. -/
structure McpcCall (isAlnum : Char → Bool) (f : Json.FloatFormat φ) where
  form : CallForm
  name : Text
  toolName : Text
  json : Text
  args : Record φ
  name_ne_nil : name ≠ []
  name_chars : ∀ c ∈ name, isSessionChar isAlnum c = true
  toolName_ne_nil : toolName ≠ []
  toolName_chars : ∀ c ∈ toolName, isToolChar c = true
  loads_json : Json.loads f json = some (.obj args)

variable {isAlnum : Char → Bool} {f : Json.FloatFormat φ}

namespace McpcCall

def session (call : McpcCall isAlnum f) : Text := '@' :: call.name

/-- The text of a call in its form. -/
def text (call : McpcCall isAlnum f) : Text :=
  match call.form with
  | .echoed => cliExample call.session call.toolName call.json
  | .trailing =>
    "mcpc " ++ call.session ++ " tools-call " ++ call.toolName ++ ' ' :: shellSingleQuoted call.json

end McpcCall

/-- A further call of a command, and what joins it to the call before. -/
structure NextCall (isAlnum : Char → Bool) (f : Json.FloatFormat φ) where
  before : Text
  operator : Text
  after : Text
  call : McpcCall isAlnum f
  before_blank : ∀ c ∈ before, isSpace c = true
  operator_mem : operator ∈ [[';'], ['&', '&']]
  after_blank : ∀ c ∈ after, isSpace c = true

def NextCall.text (next : NextCall isAlnum f) : Text :=
  next.before ++ next.operator ++ next.after ++ next.call.text

def commandText (first : McpcCall isAlnum f) (rest : List (NextCall isAlnum f)) : Text :=
  first.text ++ rest.flatMap NextCall.text

/-- The first call of a command is the one that is read: its JSON text has no quote, and

* after `echo`, no pipe to `mcpc`, and if it mentions a call first, of the same session and tool;
* behind the tool name, nothing of the command is taken for an argument of `echo`, the session
  does not have the words `tools-call`, and no call follows. -/
def ReadsFirst (first : McpcCall isAlnum f) (rest : List (NextCall isAlnum f)) : Prop :=
  '\'' ∉ first.json ∧
    match first.form with
    | .echoed => pipeToMcpc.search first.json = none ∧
        ∀ named, searchMap (mcpcToolsCall isAlnum) (shellSingleQuoted first.json) =
          some named → named = (first.session, first.toolName)
    | .trailing => rest = [] ∧ searchMap echoPayload first.text = none ∧
        (literal toolsCallWord).search first.name = none

section

variable (p : PyFormat φ) (validate : SchemaValidator φ)

/-- The catalog has the tool for the session of the call, and it accepts the arguments. -/
def CallAccepted (catalogs : Catalogs φ) (call : McpcCall isAlnum f) : Prop :=
  ∃ tool, findToolInCatalog p catalogs mcpcCatalog call.toolName (some call.session) = some tool ∧
    RecordAccepts validate tool call.args

/-- The shell gate recognises the command and lets it run. -/
def ShellAllowed (isAlnum : Char → Bool) (catalogs : Catalogs φ) (gateActive : Bool)
    (command : Text) : Prop :=
  ∃ verdict, validateMcpcShellPreToolCall p validate isAlnum catalogs gateActive command =
    some verdict ∧ verdict.allowed = true

end

variable {c : Char}

theorem isSessionChar_space (hword : WordChars isAlnum) (h : isSessionChar isAlnum c = true) :
    isSpace c = false := by
  unfold isSessionChar at h
  simp only [Bool.or_eq_true, beq_iff_eq] at h
  rcases h with ((h | rfl) | rfl) | rfl
  · exact hword.not_space c h
  · rfl
  · rfl
  · rfl

theorem isSessionChar_of_space (hword : WordChars isAlnum) (h : isSpace c = true) :
    isSessionChar isAlnum c = false := by
  rw [← Bool.not_eq_true]
  intro hsession
  rw [isSessionChar_space hword hsession] at h
  cases h

theorem isSessionChar_quote (hword : WordChars isAlnum) : isSessionChar isAlnum '\'' = false := by
  unfold isSessionChar
  rw [hword.not_quote]
  rfl

theorem isSpace_of_isToolChar (h : isToolChar c = true) : isSpace c = false := by
  unfold isToolChar at h
  simp only [Bool.and_eq_true, Bool.not_eq_true'] at h
  exact h.1.1.1

theorem shellSingleQuoted_of_notMem {value : Text} (h : '\'' ∉ value) :
    shellSingleQuoted value = '\'' :: value ++ ['\''] := by
  have hflat : (value.flatMap fun c => if c = '\'' then "'\\''" else [c]) = value := by
    induction value with
    | nil => rfl
    | cons c t ih =>
      rw [mem_cons, not_or] at h
      rw [flatMap_cons, if_neg (Ne.symm h.1), ih h.2, singleton_append]
  rw [shellSingleQuoted, hflat]

theorem literalIgnoreCase_append {w : Text} (hw : w.map Char.toLower = w) (t : Text) :
    literalIgnoreCase w (w ++ t) = some (w, t) := by
  induction w with
  | nil => rfl
  | cons c w ih =>
    obtain ⟨hc, hw⟩ := List.cons.inj hw
    rw [List.cons_append, literalIgnoreCase, if_pos (.inl hc), ih hw]
    rfl

variable {t : Text}

theorem many1_run {p : Char → Bool} {r : Text} (hne : t ≠ []) (ht : ∀ c ∈ t, p c = true)
    (hr : ∀ c ∈ r.head?, p c = false) : many1 p (t ++ r) = some (t, r) := by
  rw [many1, Text.takeWhile_run ht hr, Text.dropWhile_run ht hr, if_neg hne]

theorem mcpcToolsCallStart_append (hword : WordChars isAlnum) {name : Text} (hne : name ≠ [])
    (hname : ∀ c ∈ name, isSessionChar isAlnum c = true) (ht : ∀ c ∈ t.head?, isSpace c = false) :
    mcpcToolsCallStart isAlnum ("mcpc " ++ ('@' :: name) ++ " tools-call " ++ t) =
      some ('@' :: name, t) := by
  -- what is left after each piece of the pattern
  obtain ⟨tail, htail⟩ : ∃ tail, tail = [' '] ++ t := ⟨_, rfl⟩
  obtain ⟨words, hwords⟩ : ∃ words, words = [' '] ++ (toolsCallWord ++ tail) := ⟨_, rfl⟩
  obtain ⟨rest, hrest⟩ : ∃ rest, rest = [' '] ++ ('@' :: (name ++ words)) := ⟨_, rfl⟩
  have hshape : "mcpc " ++ ('@' :: name) ++ " tools-call " ++ t = "mcpc" ++ rest := by
    rw [hrest, hwords, htail]
    simp only [List.append_assoc, List.cons_append, nil_append]
    rfl
  have hmcpc : literalIgnoreCase "mcpc" ("mcpc" ++ rest) = _ := literalIgnoreCase_append rfl rest
  have hspace : many1 isSpace rest = some ([' '], '@' :: (name ++ words)) := by
    rw [hrest]
    refine many1_run (by simp) (forall_of_all rfl) fun c hc => ?_
    rw [← Option.some.inj hc]
    rfl
  have hat : literal ['@'] ('@' :: (name ++ words)) = some (['@'], name ++ words) := rfl
  have hsession : many1 (isSessionChar isAlnum) (name ++ words) = some (name, words) := by
    refine many1_run hne hname fun c hc => ?_
    rw [hwords] at hc
    rw [← Option.some.inj hc]
    exact isSessionChar_of_space hword rfl
  have hblank : many1 isSpace words = some ([' '], toolsCallWord ++ tail) := by
    rw [hwords]
    refine many1_run (by simp) (forall_of_all rfl) fun c hc => ?_
    rw [← Option.some.inj hc]
    rfl
  have hcall : literalIgnoreCase toolsCallWord (toolsCallWord ++ tail) = _ :=
    literalIgnoreCase_append rfl tail
  have hend : many1 isSpace tail = some ([' '], t) := by
    rw [htail]
    exact many1_run (by simp) (forall_of_all rfl) ht
  unfold mcpcToolsCallStart
  simp only [hshape, hmcpc, bind_eq_bind, bind_some, hspace, hat, hsession, hblank, hcall, hend]

theorem mcpcToolsCall_append (hword : WordChars isAlnum) (call : McpcCall isAlnum f)
    (ht : ∀ c ∈ t.head?, isToolChar c = false) :
    mcpcToolsCall isAlnum ("mcpc " ++ call.session ++ " tools-call " ++ (call.toolName ++ t)) =
      some (call.session, call.toolName) := by
  have hhead : ∀ c ∈ (call.toolName ++ t).head?, isSpace c = false := by
    intro c hc
    rw [head?_append_of_ne_nil _ call.toolName_ne_nil] at hc
    exact isSpace_of_isToolChar (call.toolName_chars c (mem_of_mem_head? hc))
  have hstart := mcpcToolsCallStart_append hword call.name_ne_nil call.name_chars hhead
  have htool := many1_run call.toolName_ne_nil call.toolName_chars ht
  unfold mcpcToolsCall
  rw [McpcCall.session, hstart]
  simp only [bind_eq_bind, bind_some, htool]

theorem mcpcToolsCallStart_cons_of_ne (h : c.toLower ≠ 'm') (t : Text) :
    mcpcToolsCallStart isAlnum (c :: t) = none := by
  have hmcpc : literalIgnoreCase "mcpc" (c :: t) = none := by
    show literalIgnoreCase ('m' :: "cpc") (c :: t) = none
    rw [literalIgnoreCase, if_neg]
    rintro (hc | ⟨hs, -⟩)
    · exact h hc
    · cases hs
  unfold mcpcToolsCallStart
  rw [hmcpc]
  rfl

theorem searchMap_skip (h : c.toLower ≠ 'm') (t : Text) :
    searchMap (mcpcToolsCall isAlnum) (c :: t) = searchMap (mcpcToolsCall isAlnum) t := by
  have hnone : mcpcToolsCall isAlnum (c :: t) = none := by
    unfold mcpcToolsCall
    rw [mcpcToolsCallStart_cons_of_ne h]
    rfl
  rw [searchMap, hnone, none_or]

theorem mcpcToolsCallStart_stopsAt (hword : WordChars isAlnum) :
    Matcher.StopsAt '\'' (mcpcToolsCallStart isAlnum) := by
  have hlower : '\''.toLower = '\'' := rfl
  have hmcpc := literalIgnoreCase_stopsAt (q := '\'') (p := "mcpc")
    (by rw [hlower]; decide) (by decide)
  have hcall := literalIgnoreCase_stopsAt (q := '\'') (p := toolsCallWord)
    (by rw [hlower]; decide) (by decide)
  have hspace := many1_stopsAt (q := '\'') (p := isSpace) rfl
  have hat := literal_stopsAt (q := '\'') (p := ['@']) (by decide)
  have hname := many1_stopsAt (isSessionChar_quote hword)
  intro t r
  unfold mcpcToolsCallStart
  simp only [bind_eq_bind]
  rw [hmcpc t r]
  cases literalIgnoreCase "mcpc" t with
  | none => rfl
  | some mcpc =>
    simp only [map_some, bind_some]
    rw [hspace mcpc.2 r]
    cases many1 isSpace mcpc.2 with
    | none => rfl
    | some space =>
      simp only [map_some, bind_some]
      rw [hat space.2 r]
      cases literal ['@'] space.2 with
      | none => rfl
      | some sign =>
        simp only [map_some, bind_some]
        rw [hname sign.2 r]
        cases many1 (isSessionChar isAlnum) sign.2 with
        | none => rfl
        | some name =>
          simp only [map_some, bind_some]
          rw [hspace name.2 r]
          cases many1 isSpace name.2 with
          | none => rfl
          | some blank =>
            simp only [map_some, bind_some]
            rw [hcall blank.2 r]
            cases literalIgnoreCase toolsCallWord blank.2 with
            | none => rfl
            | some call =>
              simp only [map_some, bind_some]
              rw [hspace call.2 r]
              cases many1 isSpace call.2 with
              | none => rfl
              | some last => rfl

theorem mcpcToolsCall_quote_space (hword : WordChars isAlnum) (u y : Text) :
    mcpcToolsCall isAlnum (u ++ ['\''] ++ ' ' :: y) = mcpcToolsCall isAlnum (u ++ ['\'']) := by
  have hstart := mcpcToolsCallStart_stopsAt hword
  have hspace : isToolChar ' ' = false := rfl
  unfold mcpcToolsCall
  rw [List.append_assoc, singleton_append, hstart u, hstart u]
  cases mcpcToolsCallStart isAlnum u with
  | none => rfl
  | some start =>
    have htool := Text.takeWhile_append_stop hspace (start.2 ++ ['\'']) y
    rw [List.append_assoc, singleton_append] at htool
    simp only [map_some, bind_eq_bind, bind_some, many1, htool]
    split <;> rfl

theorem searchMap_quoted (hword : WordChars isAlnum) (body y : Text) :
    searchMap (mcpcToolsCall isAlnum) (body ++ ['\''] ++ ' ' :: y) =
      (searchMap (mcpcToolsCall isAlnum) (body ++ ['\''])).or
        (searchMap (mcpcToolsCall isAlnum) (' ' :: y)) := by
  refine searchMap_append rfl fun v hv hne => ?_
  obtain ⟨u, hu⟩ : ∃ u, v = u ++ ['\''] := by
    obtain ⟨w, hw⟩ := hv
    refine ⟨v.dropLast, ?_⟩
    have hlast := congrArg List.getLast? hw
    rw [getLast?_append_of_ne_nil _ hne, getLast?_append_of_ne_nil _ (by simp),
      getLast?_singleton, getLast?_eq_some_getLast hne] at hlast
    rw [← Option.some.inj hlast, dropLast_append_getLast hne]
  rw [hu]
  exact mcpcToolsCall_quote_space hword u y

theorem parseShellJsonLiteral_quoted {json : Text} {args : Record φ}
    (h : Json.loads f json = some (.obj args)) :
    parseShellJsonLiteral f (strip ('\'' :: json ++ ['\''])) = some (.obj args) := by
  have hquote : isSpace '\'' = false := rfl
  have hlast : ('\'' :: json ++ ['\'']).getLast? = some '\'' := getLast?_concat
  have hstrip : strip ('\'' :: json ++ ['\'']) = '\'' :: json ++ ['\''] := by
    refine Text.Stripped.strip ⟨fun c hc => ?_, fun c hc => ?_⟩
    · rw [← Option.some.inj hc]
      exact hquote
    · rw [hlast] at hc
      rw [← Option.some.inj hc]
      exact hquote
  have hwrapped : 2 ≤ ('\'' :: json ++ ['\'']).length ∧
      ('\'' :: json ++ ['\'']).head? = ('\'' :: json ++ ['\'']).getLast? ∧
        ('\'' :: json ++ ['\'']).head?.any isQuote = true := by
    refine ⟨?_, ?_, rfl⟩
    · simp
    · rw [hlast]
      rfl
  have hinner : ('\'' :: json ++ ['\'']).tail.dropLast = json := by
    rw [List.cons_append, tail_cons, dropLast_concat]
  unfold parseShellJsonLiteral
  rw [hstrip]
  simp only [hstrip, if_pos hwrapped, hinner, h]
  rfl

theorem pipeToMcpc_stopsAt : Matcher.StopsAt '\'' pipeToMcpc := by
  have hlower : '\''.toLower = '\'' := rfl
  have hspaces := many_stopsAt (q := '\'') (p := isSpace) rfl
  have hspace := many1_stopsAt (q := '\'') (p := isSpace) rfl
  have hpipe := literal_stopsAt (q := '\'') (p := ['|']) (by decide)
  have hmcpc := literalIgnoreCase_stopsAt (q := '\'') (p := "mcpc")
    (by rw [hlower]; decide) (by decide)
  exact andThen_stopsAt hspaces (andThen_stopsAt hpipe
    (andThen_stopsAt hspaces (andThen_stopsAt hmcpc hspace)))

theorem echoPayload_quoted {json : Text} (h : pipeToMcpc.search json = none) (y : Text) :
    echoPayload ("echo " ++ ('\'' :: json ++ ['\'']) ++ " | mcpc " ++ '@' :: y) =
      some ('\'' :: json ++ ['\'']) := by
  have hpipe : pipeToMcpc.search (" | mcpc " ++ '@' :: y) =
      some ([], " | mcpc ".toList, '@' :: y) := rfl
  have hquote : pipeToMcpc.search ('\'' :: (" | mcpc " ++ '@' :: y)) =
      some (['\''], " | mcpc ".toList, '@' :: y) := by
    rw [search, show pipeToMcpc ('\'' :: (" | mcpc ".toList ++ '@' :: y)) = none from rfl]
    simp only [hpipe, map_some]
  have huntil : untilPipe ('\'' :: (json ++ '\'' :: (" | mcpc " ++ '@' :: y))) =
      some ('\'' :: json ++ ['\'']) := by
    rw [untilPipe, search_append_stop pipeToMcpc_stopsAt h, hquote]
    rfl
  have hshape : "echo " ++ ('\'' :: json ++ ['\'']) ++ " | mcpc " ++ '@' :: y =
      "echo" ++ ([' '] ++ '\'' :: (json ++ '\'' :: (" | mcpc " ++ '@' :: y))) := by
    simp only [List.append_assoc, List.cons_append, nil_append]
    rfl
  have hecho : literalIgnoreCase "echo" ("echo" ++
      ([' '] ++ '\'' :: (json ++ '\'' :: (" | mcpc " ++ '@' :: y)))) = _ :=
    literalIgnoreCase_append rfl _
  have hspaces : ([' '] ++ '\'' :: (json ++ '\'' :: (" | mcpc " ++ '@' :: y))).takeWhile
      isSpace = [' '] := by
    refine Text.takeWhile_run (forall_of_all rfl) fun c hc => ?_
    rw [← Option.some.inj hc]
    rfl
  unfold echoPayload
  rw [hshape, hecho]
  simp only [bind_some, hspaces]
  have hrange : (List.range [' '].length).map (fun i => [' '].length - i) = [1] := rfl
  have hdrop : List.drop 1 ([' '] ++ '\'' :: (json ++ '\'' :: (" | mcpc " ++ '@' :: y))) =
      '\'' :: (json ++ '\'' :: (" | mcpc " ++ '@' :: y)) := rfl
  rw [hrange, findSome?_cons, hdrop, huntil]

theorem McpcCall.session_stripped (hword : WordChars isAlnum) (call : McpcCall isAlnum f) :
    strip call.session = call.session := by
  refine Text.Stripped.strip ⟨fun c hc => ?_, fun c hc => ?_⟩
  · rw [← Option.some.inj hc]
    rfl
  · rw [McpcCall.session, getLast?_cons_of_ne_nil call.name_ne_nil] at hc
    exact isSessionChar_space hword (call.name_chars c (mem_of_getLast? hc))

theorem McpcCall.toolName_stripped (call : McpcCall isAlnum f) : Text.Stripped call.toolName :=
  ⟨fun c hc => isSpace_of_isToolChar (call.toolName_chars c (mem_of_mem_head? hc)),
    fun c hc => isSpace_of_isToolChar (call.toolName_chars c (mem_of_getLast? hc))⟩

theorem parseMcpcShellCommand_of_found (hword : WordChars isAlnum) (call : McpcCall isAlnum f)
    (hstrip : strip t = t)
    (hnamed : searchMap (mcpcToolsCall isAlnum) t = some (call.session, call.toolName))
    (hargs : extractJsonPayload f t = some call.args) :
    parseMcpcShellCommand isAlnum f t = some ⟨call.session, call.toolName, call.args⟩ := by
  have hne : t ≠ [] := by
    rintro rfl
    cases hnamed
  have hneeds : ∀ u, literalIgnoreCase "mcpc" u = none → mcpcToolsCall isAlnum u = none := by
    intro u hu
    unfold mcpcToolsCall mcpcToolsCallStart
    rw [hu]
    rfl
  have hmcpc := searchMap_isSome_of_needs hneeds (t := t) (by rw [hnamed]; rfl)
  have hfirst : ¬ (t = [] ∨ (searchMap (literalIgnoreCase "mcpc") t).isNone = true) := by
    rintro (hnil | hnone)
    · exact hne hnil
    · rw [isNone_iff_eq_none] at hnone
      rw [hnone] at hmcpc
      cases hmcpc
  have hsecond : ¬ (call.session = [] ∨ call.toolName = []) := by
    rintro (hnil | hnil)
    · cases hnil
    · exact call.toolName_ne_nil hnil
  unfold parseMcpcShellCommand
  simp only [hstrip, if_neg hfirst, hnamed, hargs, call.session_stripped hword,
    call.toolName_stripped.strip, if_neg hsecond, getD_some]

variable (session toolName json more : Text)

theorem cliExample_named :
    cliExample session toolName json ++ more =
      "echo " ++ (shellSingleQuoted json ++ ' ' :: ("| " ++
        ("mcpc " ++ session ++ " tools-call " ++ (toolName ++ more)))) := by
  unfold cliExample
  simp only [List.append_assoc]
  rfl

theorem cliExample_piped :
    cliExample session toolName json ++ more =
      "echo " ++ shellSingleQuoted json ++ " | mcpc " ++
        (session ++ (" tools-call " ++ (toolName ++ more))) := by
  unfold cliExample
  simp only [List.append_assoc]

variable {call : McpcCall isAlnum f}

theorem echoed_named (hword : WordChars isAlnum) {more : Text} (hquote : '\'' ∉ call.json)
    (hnames : ∀ named, searchMap (mcpcToolsCall isAlnum) (shellSingleQuoted call.json) =
      some named → named = (call.session, call.toolName))
    (hmore : ∀ c ∈ more.head?, isToolChar c = false) :
    searchMap (mcpcToolsCall isAlnum) (cliExample call.session call.toolName call.json ++ more) =
      some (call.session, call.toolName) := by
  obtain ⟨tail, htail⟩ : ∃ tail, tail = "mcpc " ++ call.session ++
      " tools-call " ++ (call.toolName ++ more) := ⟨_, rfl⟩
  have hhere : searchMap (mcpcToolsCall isAlnum) tail = some (call.session, call.toolName) := by
    rw [htail]
    exact searchMap_of_here (mcpcToolsCall_append hword call hmore)
  have hpipe : searchMap (mcpcToolsCall isAlnum) (' ' :: ("| " ++ tail)) =
      some (call.session, call.toolName) := by
    show searchMap (mcpcToolsCall isAlnum) (' ' :: '|' :: ' ' :: tail) = _
    rw [searchMap_skip (by decide), searchMap_skip (by decide), searchMap_skip (by decide), hhere]
  rw [cliExample_named, ← htail, shellSingleQuoted_of_notMem hquote]
  show searchMap (mcpcToolsCall isAlnum) ('e' :: 'c' :: 'h' :: 'o' :: ' ' ::
    ('\'' :: call.json ++ ['\''] ++ ' ' :: ("| " ++ tail))) = _
  rw [searchMap_skip (by decide), searchMap_skip (by decide), searchMap_skip (by decide),
    searchMap_skip (by decide), searchMap_skip (by decide), searchMap_quoted hword, hpipe]
  rw [shellSingleQuoted_of_notMem hquote] at hnames
  cases hfound : searchMap (mcpcToolsCall isAlnum) ('\'' :: call.json ++ ['\'']) with
  | none => rfl
  | some named => rw [hnames named hfound, some_or]

theorem echoed_args (more : Text) (hquote : '\'' ∉ call.json)
    (hpipe : pipeToMcpc.search call.json = none) :
    extractJsonPayload f (cliExample call.session call.toolName call.json ++ more) =
      some call.args := by
  have hecho := searchMap_of_here (echoPayload_quoted hpipe
    (call.name ++ (" tools-call " ++ (call.toolName ++ more))))
  have hshape := cliExample_piped call.session call.toolName call.json more
  rw [shellSingleQuoted_of_notMem hquote] at hshape
  have hsession : call.session ++ (" tools-call " ++ (call.toolName ++ more)) =
      '@' :: (call.name ++ (" tools-call " ++ (call.toolName ++ more))) := rfl
  unfold extractJsonPayload
  rw [hshape, hsession, hecho]
  simp only [bind_some, parseShellJsonLiteral_quoted call.loads_json, dict?, some_or]

theorem search_toolsCall_skip (h : c ≠ 't') (t : Text) :
    (literal toolsCallWord).search (c :: t) =
      ((literal toolsCallWord).search t).map fun r => (c :: r.1, r.2) := by
  have hnone : literal toolsCallWord (c :: t) = none := by
    rw [literal, if_neg]
    intro hpre
    obtain ⟨r, hr⟩ := isPrefixOf_iff_prefix.mp hpre
    exact h (List.cons.inj hr).1.symm
  rw [search, hnone]

theorem search_toolsCall {name : Text} (h : (literal toolsCallWord).search name = none)
    (t : Text) : ∃ before, (literal toolsCallWord).search
      ("mcpc @" ++ (name ++ ' ' :: (toolsCallWord ++ t))) = some (before, toolsCallWord, t) := by
  have hlit : literal toolsCallWord (toolsCallWord ++ t) = some (toolsCallWord, t) := by
    rw [literal, if_pos ( isPrefixOf_iff_prefix.mpr (prefix_append _ t)), drop_left]
  have hhere := search_of_here hlit
  have hstop := literal_stopsAt (q := ' ') (p := toolsCallWord) (by decide)
  have hname := search_append_stop hstop h (toolsCallWord ++ t)
  rw [search_toolsCall_skip (by decide), hhere] at hname
  show ∃ before, (literal toolsCallWord).search ('m' :: 'c' :: 'p' :: 'c' :: ' ' :: '@' ::
    (name ++ ' ' :: (toolsCallWord ++ t))) = _
  rw [search_toolsCall_skip (by decide), search_toolsCall_skip (by decide),
    search_toolsCall_skip (by decide), search_toolsCall_skip (by decide),
    search_toolsCall_skip (by decide), search_toolsCall_skip (by decide), hname]
  exact ⟨_, rfl⟩

theorem secondPart_toolName (call : McpcCall isAlnum f) {word : Text} (hne : word ≠ [])
    (hword : Text.Stripped word) :
    secondPart (strip (' ' :: (call.toolName ++ ' ' :: word))) = some word := by
  have hlead : strip (' ' :: (call.toolName ++ ' ' :: word)) = call.toolName ++ ' ' :: word := by
    have hlstrip : Text.lstrip (' ' :: (call.toolName ++ ' ' :: word)) =
        call.toolName ++ ' ' :: word := by
      rw [Text.lstrip, dropWhile_cons_of_pos (by decide)]
      refine Text.lstrip_eq_self fun c hc => ?_
      rw [head?_append_of_ne_nil _ call.toolName_ne_nil] at hc
      exact call.toolName_stripped.1 c hc
    rw [← Text.strip_lstrip, hlstrip]
    refine Text.Stripped.strip ⟨fun c hc => ?_, fun c hc => ?_⟩
    · rw [head?_append_of_ne_nil _ call.toolName_ne_nil] at hc
      exact call.toolName_stripped.1 c hc
    · rw [getLast?_append_of_ne_nil _ (cons_ne_nil _ _), getLast?_cons_of_ne_nil hne] at hc
      exact hword.2 c hc
  have hname : (call.toolName ++ ' ' :: word).dropWhile (fun c => !isSpace c) = ' ' :: word := by
    refine Text.dropWhile_run (fun c hc => ?_) fun c hc => ?_
    · rw [isSpace_of_isToolChar (call.toolName_chars c hc)]
      rfl
    · rw [← Option.some.inj hc]
      rfl
  have hspace : (' ' :: word).dropWhile isSpace = word := by
    rw [dropWhile_cons_of_pos (by decide)]
    exact Text.lstrip_eq_self hword.1
  have hlstrip : Text.lstrip (call.toolName ++ ' ' :: word) = call.toolName ++ ' ' :: word := by
    refine Text.lstrip_eq_self fun c hc => ?_
    rw [head?_append_of_ne_nil _ call.toolName_ne_nil] at hc
    exact call.toolName_stripped.1 c hc
  rw [hlead]
  unfold secondPart
  simp only [hlstrip, hname, hspace, if_neg hne]

theorem quoted_last (value : Text) : (shellSingleQuoted value).getLast? = some '\'' :=
  getLast?_concat

theorem quoted_ne_nil (value : Text) : shellSingleQuoted value ≠ [] :=
  append_ne_nil_of_right_ne_nil _ (cons_ne_nil _ _)

theorem McpcCall.text_ne_nil (call : McpcCall isAlnum f) : call.text ≠ [] := by
  unfold McpcCall.text cliExample
  cases call.form with
  | echoed => exact append_ne_nil_of_right_ne_nil _ call.toolName_ne_nil
  | trailing => exact append_ne_nil_of_right_ne_nil _ (cons_ne_nil _ _)

theorem McpcCall.text_stripped (call : McpcCall isAlnum f) : Text.Stripped call.text := by
  unfold McpcCall.text cliExample
  cases call.form with
  | echoed =>
    refine Text.stripped_append (by simp) (fun c hc => ?_) call.toolName_ne_nil
      call.toolName_stripped.2
    rw [← Option.some.inj hc]
    rfl
  | trailing =>
    refine Text.stripped_append (by simp) (fun c hc => ?_) (cons_ne_nil _ _) fun c hc => ?_
    · rw [← Option.some.inj hc]
      rfl
    · rw [getLast?_cons_of_ne_nil (quoted_ne_nil call.json), quoted_last] at hc
      rw [← Option.some.inj hc]
      rfl

theorem commandText_stripped (first : McpcCall isAlnum f) (rest : List (NextCall isAlnum f)) :
    strip (commandText first rest) = commandText first rest := by
  have hfrom : ∀ (rest : List (NextCall isAlnum f)) (t : Text), t ≠ [] → Text.Stripped t →
      Text.Stripped (t ++ rest.flatMap NextCall.text) := by
    intro rest
    induction rest with
    | nil =>
      intro t _ ht
      rw [flatMap_nil, List.append_nil]
      exact ht
    | cons next rest ih =>
      intro t hne ht
      rw [flatMap_cons, ← List.append_assoc]
      refine ih _ (append_ne_nil_of_left_ne_nil hne _) ?_
      rw [NextCall.text, ← List.append_assoc]
      refine Text.stripped_append (append_ne_nil_of_left_ne_nil hne _) (fun c hc => ?_)
        next.call.text_ne_nil next.call.text_stripped.2
      rw [head?_append_of_ne_nil _ hne] at hc
      exact ht.1 c hc
  exact (hfrom rest first.text first.text_ne_nil first.text_stripped).strip

theorem rest_head (rest : List (NextCall isAlnum f)) :
    ∀ c ∈ (rest.flatMap NextCall.text).head?, isToolChar c = false := by
  intro c hc
  cases rest with
  | nil => cases hc
  | cons next rest =>
    have hoperator := next.operator_mem
    simp only [mem_cons, not_mem_nil, or_false] at hoperator
    rw [flatMap_cons, NextCall.text, List.append_assoc, List.append_assoc, List.append_assoc] at hc
    cases hbefore : next.before with
    | nil =>
      rw [hbefore, nil_append] at hc
      rcases hoperator with hop | hop
      · rw [hop] at hc
        rw [← Option.some.inj hc]
        rfl
      · rw [hop] at hc
        rw [← Option.some.inj hc]
        rfl
    | cons d before =>
      rw [hbefore] at hc
      obtain rfl := Option.some.inj hc
      have hspace := next.before_blank d (by rw [hbefore]; exact mem_cons_self)
      unfold isToolChar
      rw [hspace]
      rfl

variable {first : McpcCall isAlnum f} {rest : List (NextCall isAlnum f)}

theorem parse_echoed (hword : WordChars isAlnum) (hform : first.form = .echoed)
    (hread : ReadsFirst first rest) :
    parseMcpcShellCommand isAlnum f (commandText first rest) =
      some ⟨first.session, first.toolName, first.args⟩ := by
  have htext : commandText first rest = cliExample first.session first.toolName first.json ++
      rest.flatMap NextCall.text := by
    rw [commandText, McpcCall.text, hform]
  obtain ⟨hquote, hclean⟩ := hread
  rw [hform] at hclean
  obtain ⟨hpipe, hnames⟩ := hclean
  refine parseMcpcShellCommand_of_found hword first (commandText_stripped first rest) ?_ ?_
  · rw [htext]
    exact echoed_named hword hquote hnames (rest_head rest)
  · rw [htext]
    exact echoed_args _ hquote hpipe

theorem trailing_args (hform : call.form = .trailing) (hquote : '\'' ∉ call.json)
    (hecho : searchMap echoPayload call.text = none)
    (hname : (literal toolsCallWord).search call.name = none) :
    extractJsonPayload f call.text = some call.args := by
  obtain ⟨before, hbefore⟩ := search_toolsCall hname
    (' ' :: (call.toolName ++ ' ' :: shellSingleQuoted call.json))
  have htext : call.text = "mcpc @" ++ (call.name ++ ' ' :: (toolsCallWord ++
      (' ' :: (call.toolName ++ ' ' :: shellSingleQuoted call.json)))) := by
    rw [McpcCall.text, hform]
    simp only [List.append_assoc]
    rfl
  have hquoted : Text.Stripped (shellSingleQuoted call.json) := by
    refine ⟨fun c hc => ?_, fun c hc => ?_⟩
    · rw [← Option.some.inj hc]
      rfl
    · rw [quoted_last] at hc
      rw [← Option.some.inj hc]
      rfl
  have hpart := secondPart_toolName call (quoted_ne_nil call.json) hquoted
  have hjson := parseShellJsonLiteral_quoted call.loads_json
  rw [← shellSingleQuoted_of_notMem hquote] at hjson
  unfold extractJsonPayload
  rw [hecho, htext, hbefore]
  simp only [bind_none, bind_some, hpart, hjson, dict?, none_or]

theorem parse_trailing (hword : WordChars isAlnum) (hform : first.form = .trailing)
    (hread : ReadsFirst first rest) :
    parseMcpcShellCommand isAlnum f (commandText first rest) =
      some ⟨first.session, first.toolName, first.args⟩ := by
  obtain ⟨hquote, hclean⟩ := hread
  rw [hform] at hclean
  obtain ⟨rfl, hecho, hname⟩ := hclean
  have htext : commandText first [] = first.text := by
    rw [commandText, flatMap_nil, List.append_nil]
  have hstrip := commandText_stripped first []
  rw [htext] at hstrip ⊢
  refine parseMcpcShellCommand_of_found hword first hstrip ?_
    (trailing_args hform hquote hecho hname)
  have hhead : ∀ c ∈ (' ' :: shellSingleQuoted first.json).head?, isToolChar c = false := by
    intro c hc
    rw [← Option.some.inj hc]
    rfl
  have hcall := mcpcToolsCall_append hword first hhead
  rw [McpcCall.text, hform]
  simp only [List.append_assoc] at hcall ⊢
  exact searchMap_of_here hcall

theorem parseMcpcShellCommand_first (hword : WordChars isAlnum) (hread : ReadsFirst first rest) :
    parseMcpcShellCommand isAlnum f (commandText first rest) =
      some ⟨first.session, first.toolName, first.args⟩ := by
  cases hform : first.form with
  | echoed => exact parse_echoed hword hform hread
  | trailing => exact parse_trailing hword hform hread

section

variable (p : PyFormat φ) (validate : SchemaValidator φ)

/-- A command is let through when the call that is read off it is accepted. -/
theorem shellAllowed_iff {catalogs : Catalogs φ} {command : Text} {call : McpcCall isAlnum p}
    (hentry : (catalogEntry catalogs mcpcCatalog).isSome = true)
    (hparse : parseMcpcShellCommand isAlnum p command =
      some ⟨call.session, call.toolName, call.args⟩) :
    ShellAllowed p validate isAlnum catalogs true command ↔
      CallAccepted p validate catalogs call := by
  have hgate : ¬ (true = false ∨ (catalogEntry catalogs mcpcCatalog).isNone = true) := by
    rintro (h | h)
    · cases h
    · rw [isNone_iff_eq_none] at h
      rw [h] at hentry
      cases hentry
  unfold ShellAllowed CallAccepted RecordAccepts validateMcpcShellPreToolCall
  simp only [hparse, if_neg hgate]
  cases findToolInCatalog p catalogs mcpcCatalog call.toolName (some call.session) with
  | none =>
    constructor
    · rintro ⟨verdict, hverdict, hallowed⟩
      rw [← Option.some.inj hverdict] at hallowed
      cases hallowed
    · rintro ⟨tool, htool, -⟩
      cases htool
  | some tool =>
    simp only
    split
    · rename_i hvalid
      exact ⟨fun _ => ⟨tool, rfl, hvalid⟩, fun _ => ⟨.allow, rfl, rfl⟩⟩
    rename_i hvalid
    constructor
    · rintro ⟨verdict, hverdict, hallowed⟩
      rw [← Option.some.inj hverdict] at hallowed
      cases hallowed
    · rintro ⟨tool', htool', hvalid'⟩
      rw [← Option.some.inj htool'] at hvalid'
      exact absurd hvalid' hvalid

/-- Where the first call of a command is read, a single call is read exactly, and the verdict is
right about all calls exactly when the others are accepted if the first is. -/
theorem shellCommand_by_catalog_iff (hword : WordChars isAlnum) {catalogs : Catalogs φ}
    {gateActive : Bool} {first : McpcCall isAlnum p}
    {rest : List (NextCall isAlnum p)} (hactive : gateActive = true)
    (hentry : (catalogEntry catalogs mcpcCatalog).isSome = true)
    (hread : ReadsFirst first rest) :
    ((ShellAllowed p validate isAlnum catalogs gateActive (commandText first rest) ↔
          CallAccepted p validate catalogs first ∧
            ∀ next ∈ rest, CallAccepted p validate catalogs next.call) ∧
        (rest = [] → parseMcpcShellCommand isAlnum p (commandText first rest) =
          some ⟨first.session, first.toolName, first.args⟩)) ↔
      (CallAccepted p validate catalogs first →
        ∀ next ∈ rest, CallAccepted p validate catalogs next.call) := by
  subst hactive
  have hparse := parseMcpcShellCommand_first hword hread
  rw [shellAllowed_iff p validate hentry hparse]
  constructor
  · rintro ⟨hall, -⟩ hfirst
    exact (hall.mp hfirst).2
  · intro hothers
    exact ⟨⟨fun hfirst => ⟨hfirst, hothers hfirst⟩, fun hall => hall.1⟩, fun _ => hparse⟩

end

section

def asciiAlnum (c : Char) : Bool :=
  (0x30 ≤ c.toNat && c.toNat ≤ 0x39) || (0x41 ≤ c.toNat && c.toNat ≤ 0x5A) ||
    (0x61 ≤ c.toNat && c.toNat ≤ 0x7A)

theorem asciiAlnum_wordChars : WordChars asciiAlnum := by
  refine ⟨fun c hc => ?_, rfl⟩
  rw [← Bool.not_eq_true]
  intro hspace
  simp only [asciiAlnum, Bool.or_eq_true, Bool.and_eq_true, decide_eq_true_eq] at hc
  simp only [isSpace, isWhitespace, Bool.or_eq_true, Bool.and_eq_true, decide_eq_true_eq,
    beq_iff_eq] at hspace
  omega

/-- The catalog of the tool `t` of the session `@s`, which needs a `q`. -/
def oneMcpcTool : Catalogs Empty :=
  [("tool_catalog:mcpc", [("tools", .arr [.obj [("name", .str "t"),
    ("mcpc_session", .str "@s"),
    ("input_schema", .obj [("required", .arr [.str "q"])])]])])]

/-- The part of the validator that looks at `required`. -/
def requiredOnly : SchemaValidator Empty := fun args schema =>
  match get? schema "required" with
  | some (.arr keys) =>
    (keys.all fun key => (key.str?.bind fun key => get? args key).isSome, [])
  | _ => (true, [])

/-- `echo '{"q":"a"}' | mcpc @s tools-call t`. -/
def plainCall : McpcCall asciiAlnum noFloats.toFloatFormat where
  form := .echoed
  name := "s"
  toolName := "t"
  json := "\x7b\"q\":\"a\"\x7d"
  args := [("q", .str "a")]
  name_ne_nil := by decide
  name_chars := forall_of_all rfl
  toolName_ne_nil := by decide
  toolName_chars := forall_of_all rfl
  loads_json := rfl

/-- The same call with the argument `it's`. -/
def quotedCall : McpcCall asciiAlnum noFloats.toFloatFormat where
  form := .echoed
  name := "s"
  toolName := "t"
  json := "\x7b\"q\":\"it's\"\x7d"
  args := [("q", .str "it's")]
  name_ne_nil := by decide
  name_chars := forall_of_all rfl
  toolName_ne_nil := by decide
  toolName_chars := forall_of_all rfl
  loads_json := rfl

/-- `&& mcpc @s tools-call x '{}'`, of a tool that the catalog does not have. -/
def unknownNext : NextCall asciiAlnum noFloats.toFloatFormat where
  before := [' ']
  operator := ['&', '&']
  after := [' ']
  call :=
    { form := .trailing
      name := "s"
      toolName := "x"
      json := "\x7b\x7d"
      args := []
      name_ne_nil := by decide
      name_chars := forall_of_all rfl
      toolName_ne_nil := by decide
      toolName_chars := forall_of_all rfl
      loads_json := rfl }
  before_blank := forall_of_all rfl
  operator_mem := by decide
  after_blank := forall_of_all rfl

theorem oneMcpcTool_listed : (catalogEntry oneMcpcTool mcpcCatalog).isSome = true := rfl

theorem plainCall_read : ReadsFirst plainCall [] := by
  refine ⟨by decide, rfl, ?_⟩
  intro named hnamed
  cases hnamed

/-- A call without a quote is read and decided by the catalog. -/
theorem plainCall_by_catalog :
    (ShellAllowed noFloats requiredOnly asciiAlnum oneMcpcTool true (commandText plainCall []) ↔
        CallAccepted noFloats requiredOnly oneMcpcTool plainCall ∧
          ∀ next ∈ ([] : List (NextCall asciiAlnum noFloats.toFloatFormat)),
            CallAccepted noFloats requiredOnly oneMcpcTool next.call) ∧
      ([] = ([] : List (NextCall asciiAlnum noFloats.toFloatFormat)) →
        parseMcpcShellCommand asciiAlnum noFloats.toFloatFormat (commandText plainCall []) =
          some ⟨plainCall.session, plainCall.toolName, plainCall.args⟩) :=
  (shellCommand_by_catalog_iff noFloats requiredOnly asciiAlnum_wordChars rfl
    oneMcpcTool_listed plainCall_read).mpr fun _ _ hnext => absurd hnext not_mem_nil

theorem not_shellAllowed_of_denied {φ : Type} {p : PyFormat φ} {validate : SchemaValidator φ}
    {isAlnum : Char → Bool} {catalogs : Catalogs φ} {gateActive : Bool} {command : Text}
    (h : (validateMcpcShellPreToolCall p validate isAlnum catalogs gateActive command).map
      PreToolValidation.allowed = some false) :
    ¬ ShellAllowed p validate isAlnum catalogs gateActive command := by
  rintro ⟨verdict, hverdict, hallowed⟩
  rw [hverdict, map_some, hallowed] at h
  cases h

/-- A valid call with a quote in its argument is denied, since its arguments are not read; and a
call of an unknown tool is let through behind a valid call. -/
theorem quotedCall_denied :
    (CallAccepted noFloats requiredOnly oneMcpcTool quotedCall ∧
        ¬ ShellAllowed noFloats requiredOnly asciiAlnum oneMcpcTool true
          (commandText quotedCall []) ∧
        parseMcpcShellCommand asciiAlnum noFloats.toFloatFormat (commandText quotedCall []) =
          some ⟨quotedCall.session, quotedCall.toolName, []⟩ ∧ quotedCall.args ≠ []) ∧
      (ShellAllowed noFloats requiredOnly asciiAlnum oneMcpcTool true
          (commandText plainCall [unknownNext]) ∧
        ¬ CallAccepted noFloats requiredOnly oneMcpcTool unknownNext.call) := by
  refine ⟨⟨⟨_, rfl, rfl⟩, not_shellAllowed_of_denied rfl, rfl, cons_ne_nil _ _⟩,
    ⟨.allow, rfl, rfl⟩, ?_⟩
  rintro ⟨tool, htool, -⟩
  cases htool

end

end ClearYourTools.CytClient

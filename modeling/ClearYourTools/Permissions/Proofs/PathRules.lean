import ClearYourTools.Permissions.Wizard

/-!
# What the rule of a directory matches

The rule of a directory matches what lies in the directory, and every other path that has its parts
below the workspace in a row.
-/

namespace ClearYourTools.Permissions

open Misc List Option

namespace PurePath

theorem notMem_slash {path : PurePath} {part : Text} (hpart : part ∈ path.parts) : '/' ∉ part := by
  have hok := path.isPart part hpart
  rw [isPathPart, Bool.and_eq_true, Bool.not_eq_true', ← Bool.not_eq_true, contains_iff_mem] at hok
  exact hok.2

theorem part_ne_nil {path : PurePath} {part : Text} (hpart : part ∈ path.parts) : part ≠ [] := by
  have hok := path.isPart part hpart
  rw [isPathPart, Bool.and_eq_true, Bool.and_eq_true] at hok
  exact bne_iff_ne.mp hok.1.1

theorem ext_iff' {path other : PurePath} :
    path = other ↔ path.root = other.root ∧ path.parts = other.parts := by
  constructor
  · rintro rfl
    exact ⟨rfl, rfl⟩
  · intro h
    cases path
    cases other
    cases h.1
    cases h.2
    rfl

variable (path : PurePath)

theorem filter_splitOn_join :
    ((Text.join ['/'] path.parts).splitOn '/').filter isPathPart = path.parts := by
  by_cases hnil : path.parts = []
  · rw [hnil]
    rfl
  · rw [Text.join, splitOn_intercalate '/' (fun part hpart => notMem_slash hpart) hnil]
    exact filter_eq_self.mpr path.isPart

theorem filter_splitOn_cons (text : Text) :
    (('/' :: text).splitOn '/').filter isPathPart = (text.splitOn '/').filter isPathPart := by
  have hsplit : ([] ++ '/' :: text).splitOn '/' = [[]] ++ text.splitOn '/' :=
    splitOn_append_cons_self [] text
  rw [nil_append] at hsplit
  rw [hsplit]
  rfl

theorem filter_splitOn_concat (text : Text) :
    ((text ++ ['/']).splitOn '/').filter isPathPart = (text.splitOn '/').filter isPathPart := by
  rw [splitOn_append_cons_self text [], filter_append]
  exact List.append_nil _

theorem takeWhile_slash_join : (Text.join ['/'] path.parts).takeWhile (· == '/') = [] := by
  cases hparts : path.parts with
  | nil => rfl
  | cons part parts =>
    have hmem : part ∈ path.parts := by
      rw [hparts]
      exact mem_cons_self
    obtain ⟨c, rest, hpart⟩ := exists_cons_of_ne_nil (part_ne_nil hmem)
    have hc : (c == '/') = false := by
      refine beq_false_of_ne ?_
      rintro rfl
      exact notMem_slash hmem (hpart ▸ mem_cons_self)
    have hjoin : ∃ tail, Text.join ['/'] (part :: parts) = c :: tail := by
      rw [hpart]
      cases parts with
      | nil => exact ⟨rest, by simp [Text.join, List.intercalate]⟩
      | cons next parts => exact ⟨_, rfl⟩
    obtain ⟨tail, hjoin⟩ := hjoin
    rw [hjoin, takeWhile_cons_of_neg]
    rw [hc]
    decide

theorem ofText_posix : ofText path.posix = path := by
  refine ext_iff'.mpr ?_
  have hslashes := takeWhile_slash_join path
  have hparts := filter_splitOn_join path
  cases hroot : path.root with
  | relative =>
    by_cases hnil : path.parts = []
    · rw [posix, if_pos ⟨hroot, hnil⟩, hnil]
      exact ⟨rfl, rfl⟩
    · rw [posix, if_neg fun h => hnil h.2, hroot]
      refine ⟨?_, hparts⟩
      show PathRoot.ofSlashes ((Text.join ['/'] path.parts).takeWhile (· == '/')).length = .relative
      rw [hslashes]
      rfl
  | slash =>
    have habsolute : path.root ≠ .relative := by
      rw [hroot]
      decide
    rw [posix, if_neg fun h => habsolute h.1, hroot]
    refine ⟨?_, (filter_splitOn_cons _).trans hparts⟩
    show PathRoot.ofSlashes (('/' :: Text.join ['/'] path.parts).takeWhile (· == '/')).length =
      .slash
    rw [takeWhile_cons_of_pos (by decide), hslashes]
    rfl
  | doubleSlash =>
    have habsolute : path.root ≠ .relative := by
      rw [hroot]
      decide
    rw [posix, if_neg fun h => habsolute h.1, hroot]
    refine ⟨?_, (filter_splitOn_cons _).trans ((filter_splitOn_cons _).trans hparts)⟩
    show PathRoot.ofSlashes
      (('/' :: '/' :: Text.join ['/'] path.parts).takeWhile (· == '/')).length = .doubleSlash
    rw [takeWhile_cons_of_pos (by decide), takeWhile_cons_of_pos (by decide), hslashes]
    rfl

theorem posix_ne_nil : path.posix ≠ [] := by
  rw [posix]
  split
  · decide
  rename_i h
  cases hroot : path.root with
  | relative =>
    obtain ⟨part, parts, hparts⟩ := exists_cons_of_ne_nil fun hnil => h ⟨hroot, hnil⟩
    have hpart : part ≠ [] := part_ne_nil (hparts ▸ mem_cons_self)
    rw [hparts]
    cases parts with
    | nil => simp [PathRoot.text, Text.join, List.intercalate, hpart]
    | cons next parts => simp [PathRoot.text, Text.join, List.intercalate, hpart]
  | slash => exact cons_ne_nil _ _
  | doubleSlash => exact cons_ne_nil _ _

end PurePath

variable (path : PurePath)

/-- The text of a directory in a rule: its path with a slash at the end. -/
def ruleText : Text :=
  if "/".toList.isSuffixOf path.posix then path.posix else path.posix ++ ['/']

theorem takeWhile_slash_concat {text : Text} (htext : text ≠ []) (h : ¬"/".toList.isSuffixOf text) :
    (text ++ ['/']).takeWhile (· == '/') = text.takeWhile (· == '/') := by
  have hother : ∃ c ∈ text, ¬(c == '/') = true := by
    refine ⟨text.getLast htext, getLast_mem htext, fun heq => h ?_⟩
    rw [isSuffixOf_iff_suffix]
    refine ⟨text.dropLast, ?_⟩
    conv_rhs => rw [← dropLast_append_getLast htext, beq_iff_eq.mp heq]
    rfl
  obtain ⟨c, hc, hne⟩ := hother
  rw [takeWhile_append, if_neg]
  intro hlength
  have hall : text.takeWhile (· == '/') = text := ( takeWhile_prefix _).eq_of_length hlength
  exact hne (takeWhile_eq_self_iff.mp hall c hc)

theorem ofText_ruleText : PurePath.ofText (ruleText path) = path := by
  rw [ruleText]
  split
  · exact PurePath.ofText_posix path
  rename_i h
  have hsame : PurePath.ofText (path.posix ++ ['/']) = PurePath.ofText path.posix := by
    refine PurePath.ext_iff'.mpr ⟨?_, PurePath.filter_splitOn_concat path.posix⟩
    show PathRoot.ofSlashes ((path.posix ++ ['/']).takeWhile (· == '/')).length = _
    rw [takeWhile_slash_concat path.posix_ne_nil h]
    rfl
  rw [hsame, PurePath.ofText_posix]

theorem getLast_ruleText : (ruleText path).getLast? = some '/' := by
  rw [ruleText]
  split
  · rename_i h
    obtain ⟨start, hstart⟩ := isSuffixOf_iff_suffix.mp h
    rw [← hstart]
    exact getLast?_concat
  · exact getLast?_concat

theorem ruleText_ne_nil : ruleText path ≠ [] := by
  intro hnil
  have hlast := getLast_ruleText path
  rw [hnil] at hlast
  exact absurd hlast nofun

theorem parseSkillPermissionEntry_ruleText {path : PurePath}
    (hfirst : ∀ c ∈ path.posix.head?, isSpace c = false) :
    parseSkillPermissionEntry (skillPathPrefix ++ ruleText path) =
      some ⟨skillPathPrefix ++ ruleText path, .path, ruleText path⟩ := by
  have hlast : ∀ c ∈ (ruleText path).getLast?, isSpace c = false := by
    intro c hc
    rw [getLast_ruleText] at hc
    cases hc
    decide
  have hhead : ∀ c ∈ (ruleText path).head?, isSpace c = false := by
    intro c hc
    refine hfirst c ?_
    rw [ruleText] at hc
    split at hc
    · exact hc
    · rwa [head?_append_of_ne_nil _ path.posix_ne_nil] at hc
  have hvalue : (ruleText path).strip = ruleText path := Text.Stripped.strip ⟨hhead, hlast⟩
  have hentry : (skillPathPrefix ++ ruleText path).strip = skillPathPrefix ++ ruleText path := by
    refine Text.Stripped.strip ⟨?_, fun c hc => hlast c ?_⟩
    · intro c hc
      cases hc
      decide
    · rwa [getLast?_append_of_ne_nil _ (ruleText_ne_nil path)] at hc
  have hstart : Text.startsWith skillPathPrefix (skillPathPrefix ++ ruleText path) = true :=
    isPrefixOf_iff_prefix.mpr (prefix_append _ _)
  have hne : skillPathPrefix ++ ruleText path ≠ [] :=
    append_ne_nil_of_right_ne_nil _ (ruleText_ne_nil path)
  rw [parseSkillPermissionEntry]
  dsimp only
  rw [hentry, if_neg hne, if_pos hstart, drop_left, hvalue, if_neg (ruleText_ne_nil path)]

theorem isSome_findMatchingRuleSegmentIndex {skillParts ruleParts : List Text} :
    (findMatchingRuleSegmentIndex skillParts ruleParts).isSome ↔
      ruleParts ≠ [] ∧ ruleParts <:+: skillParts := by
  rw [findMatchingRuleSegmentIndex]
  split
  · rename_i h
    refine iff_of_false nofun ?_
    rintro ⟨hne, hinfix⟩
    rcases h with hnil | hlong
    · exact hne hnil
    · exact absurd hinfix.length_le hlong.not_ge
  · rename_i h
    rw [not_or, not_lt] at h
    rw [and_iff_right h.1, find?_isSome]
    constructor
    · rintro ⟨start, -, hmatch⟩
      have hrun : (skillParts.drop start).take ruleParts.length = ruleParts := beq_iff_eq.mp hmatch
      rw [← hrun]
      exact ( take_prefix _ _).isInfix.trans (drop_suffix _ _).isInfix
    · rintro ⟨before, after, rfl⟩
      refine ⟨before.length, mem_range.mpr ?_, beq_iff_eq.mpr ?_⟩
      · rw [length_append, length_append]
        omega
      · rw [List.append_assoc, drop_left, take_left]

theorem starts_of_within {x : Text} {xs ys : List Text} (hx : x ∉ ys) (h : x :: xs <:+: x :: ys) :
    xs <+: ys := by
  rcases infix_cons_iff.mp h with hstarts | hlater
  · exact (cons_prefix_cons.mp hstarts).2
  · exact absurd (hlater.subset mem_cons_self) hx

theorem join_cons (part : Text) (parts : List Text) :
    ∃ tail, Text.join ['/'] (part :: parts) = part ++ tail := by
  cases parts with
  | nil => exact ⟨[], by simp [Text.join, List.intercalate]⟩
  | cons next parts => exact ⟨'/' :: Text.join ['/'] (next :: parts), rfl⟩

theorem dropDotSlash_of_ne {text : Text} (h : ∀ rest, text ≠ '.' :: '/' :: rest) :
    dropDotSlash text = text := by
  unfold dropDotSlash
  split
  · exact absurd rfl (h _)
  · rfl

/-- The text of a rule starts with `./` only for the directory itself. -/
theorem dropDotSlash_ruleText : PurePath.ofText (dropDotSlash (ruleText path)) = path := by
  by_cases hdot : path.root = .relative ∧ path.parts = []
  · have htext : ruleText path = "./" := by
      rw [ruleText, PurePath.posix, if_pos hdot]
      rfl
    rw [htext]
    exact PurePath.ext_iff'.mpr ⟨hdot.1.symm, hdot.2.symm⟩
  · have hkeep : dropDotSlash (ruleText path) = ruleText path := by
      refine dropDotSlash_of_ne fun rest htext => ?_
      have hhead : ∃ tail, ruleText path = path.posix ++ tail := by
        rw [ruleText]
        split
        · exact ⟨[], (List.append_nil _).symm⟩
        · exact ⟨['/'], rfl⟩
      obtain ⟨tail, hhead⟩ := hhead
      rw [hhead, PurePath.posix, if_neg hdot] at htext
      cases hroot : path.root with
      | relative =>
        rw [hroot] at htext
        obtain ⟨part, parts, hparts⟩ :=
          exists_cons_of_ne_nil fun hnil => hdot ⟨hroot, hnil⟩
        have hmem : part ∈ path.parts := by
          rw [hparts]
          exact mem_cons_self
        obtain ⟨more, hjoin⟩ := join_cons part parts
        obtain ⟨c, chars, hpart⟩ := exists_cons_of_ne_nil (PurePath.part_ne_nil hmem)
        rw [hparts, hjoin, hpart] at htext
        obtain ⟨rfl, hrest⟩ := List.cons.inj htext
        cases chars with
        | nil =>
          have hok := path.isPart part hmem
          rw [hpart] at hok
          exact absurd hok (by decide)
        | cons d chars =>
          obtain ⟨rfl, -⟩ := List.cons.inj hrest
          refine PurePath.notMem_slash hmem ?_
          rw [hpart]
          exact mem_cons_of_mem _ mem_cons_self
      | slash =>
        rw [hroot] at htext
        exact absurd (List.cons.inj htext).1 (by decide)
      | doubleSlash =>
        rw [hroot] at htext
        exact absurd (List.cons.inj htext).1 (by decide)
    rw [hkeep, ofText_ruleText]

/-- A text that a rule can have: it does not start with a blank and has no backslash. -/
def ReadsBack : Prop := (∀ c ∈ path.posix.head?, isSpace c = false) ∧ '\\' ∉ path.posix

theorem stripped_ruleText {path : PurePath} (hpath : ReadsBack path) :
    (ruleText path).strip = ruleText path := by
  refine Text.Stripped.strip ⟨fun c hc => hpath.1 c ?_, fun c hc => ?_⟩
  · rw [ruleText] at hc
    split at hc
    · exact hc
    · rwa [head?_append_of_ne_nil _ path.posix_ne_nil] at hc
  · rw [getLast_ruleText] at hc
    cases hc
    decide

theorem normalizeRulePathParts_ruleText {path : PurePath} (hpath : ReadsBack path) :
    normalizeRulePathParts (ruleText path) = path.allParts := by
  have hslash : ((ruleText path).map fun c => if c = '\\' then '/' else c) = ruleText path := by
    conv_rhs => rw [← List.map_id (ruleText path)]
    refine map_congr_left fun c hc => if_neg ?_
    rintro rfl
    rw [ruleText] at hc
    split at hc
    · exact hpath.2 hc
    · rcases mem_append.mp hc with hc | hc
      · exact hpath.2 hc
      · exact absurd (mem_singleton.mp hc) (by decide)
  rw [normalizeRulePathParts, hslash, stripped_ruleText hpath, dropDotSlash_ruleText]

section

variable (env : PathEnv)

/-- An absolute path that is resolved. -/
structure PlainPath (path : PurePath) : Prop where
  root : path.root = .slash
  expandUser : env.expandUser path = path
  resolve : env.resolve path = path

/-- An absolute path to a skill whose text does not end in a blank. -/
structure SkillPath (path : PurePath) : Prop where
  strip : path.posix.strip = path.posix
  isAbsolute : (env.expandUser path).isAbsolute = true
  root : (env.resolve (env.expandUser path)).root = .slash
  expandUser : env.expandUser (env.resolve (env.expandUser path)) =
    env.resolve (env.expandUser path)

/-- The directory that a skill is matched with. -/
def skillDir (path : PurePath) : PurePath :=
  skillPermissionDir env (env.resolve (env.expandUser path))

/-- The path that a rule of a workspace has for a directory. -/
def shownPath (workspaceRoot directory : PurePath) : PurePath :=
  (directory.relativeTo workspaceRoot).getD directory

/-- A directory whose rule reads back as the directory, and not as that of a file. -/
structure PlainDir (workspaceRoot directory : PurePath) : Prop extends PlainPath env directory where
  isDir : skillPermissionDir env directory = directory
  readsBack : ReadsBack (shownPath workspaceRoot directory)
  relative : ∀ shown, directory.relativeTo workspaceRoot = some shown →
    env.expandUser shown = shown ∧ isFileRule env shown = false

variable {env}

theorem PlainPath.isAbsolute {path : PurePath} (hpath : PlainPath env path) :
    path.isAbsolute = true := by
  rw [PurePath.isAbsolute, hpath.root]
  rfl

theorem SkillPath.root_skillDir {path : PurePath} (hpath : SkillPath env path) :
    (skillDir env path).root = .slash := by
  rw [skillDir, skillPermissionDir, hpath.expandUser]
  split
  · exact hpath.root
  · split
    · exact hpath.root
    · exact hpath.root

theorem relativeTo_eq_some {path base shown : PurePath} (h : path.relativeTo base = some shown) :
    path.root = base.root ∧ path.parts = base.parts ++ shown.parts ∧ shown.root = .relative := by
  rw [PurePath.relativeTo] at h
  split at h
  · rename_i hunder
    obtain ⟨hroot, rest, hrest⟩ := hunder
    cases h
    refine ⟨hroot, ?_, rfl⟩
    show path.parts = base.parts ++ path.parts.drop base.parts.length
    rw [← hrest, drop_left]
  · cases h

theorem isSome_relativeTo {path base : PurePath} :
    (path.relativeTo base).isSome ↔ path.root = base.root ∧ base.parts <+: path.parts := by
  rw [PurePath.relativeTo]
  split
  · rename_i h
    exact iff_of_true rfl h
  · rename_i h
    exact iff_of_false nofun h

theorem join_of_relativeTo {path base shown : PurePath} (h : path.relativeTo base = some shown) :
    base.join shown = path := by
  obtain ⟨hroot, hparts, hrelative⟩ := relativeTo_eq_some h
  rw [PurePath.join, if_neg]
  · exact PurePath.ext_iff'.mpr ⟨hroot.symm, hparts.symm⟩
  · rw [PurePath.isAbsolute, hrelative]
    decide

theorem formatSkillPathPermissionEntry_plain {workspaceRoot given directory : PurePath}
    (hworkspace : PlainPath env workspaceRoot) (hstrip : given.posix.strip = given.posix)
    (hisDir : skillPermissionDir env given = given) (habsolute : given.isAbsolute = true)
    (hresolve : env.resolve given = directory) :
    formatSkillPathPermissionEntry env given.posix workspaceRoot =
      some (skillPathPrefix ++ ruleText (shownPath workspaceRoot directory)) := by
  rw [formatSkillPathPermissionEntry]
  dsimp only
  rw [hstrip, if_neg given.posix_ne_nil, PurePath.ofText_posix, hisDir, if_pos habsolute,
    hworkspace.expandUser, hworkspace.resolve, hresolve]
  cases hshown : directory.relativeTo workspaceRoot with
  | some shown =>
    rw [shownPath, hshown]
    rfl
  | none =>
    rw [shownPath, hshown]
    rfl

variable {workspaceRoot directory : PurePath} (hdirectory : PlainDir env workspaceRoot directory)

include hdirectory

theorem resolvePermissionPath_shownPath :
    resolvePermissionPath env (shownPath workspaceRoot directory) (some workspaceRoot) =
      directory := by
  rw [resolvePermissionPath]
  cases hshown : directory.relativeTo workspaceRoot with
  | some shown =>
    have hrelative : ¬shown.isAbsolute = true := by
      rw [PurePath.isAbsolute, (relativeTo_eq_some hshown).2.2]
      decide
    rw [shownPath, hshown, getD_some, (hdirectory.relative shown hshown).1,
      if_neg hrelative, map_some, getD_some, join_of_relativeTo hshown,
      if_pos hdirectory.toPlainPath.isAbsolute, hdirectory.resolve]
  | none =>
    rw [shownPath, hshown, getD_none, hdirectory.expandUser,
      if_pos hdirectory.toPlainPath.isAbsolute, if_pos hdirectory.toPlainPath.isAbsolute,
      hdirectory.resolve]

theorem below_or_run_of_segments {skill : PurePath} (hskill : skill.root = .slash) :
    skillPathMatchesRuleSegments env skill (ruleText (shownPath workspaceRoot directory)) = true →
      directory.parts <+: skill.parts ∨ ∃ shown, directory.relativeTo workspaceRoot = some shown ∧
        shown.parts ≠ [] ∧ shown.parts <:+: skill.allParts := by
  intro h
  have hindex : (findMatchingRuleSegmentIndex skill.allParts
      (shownPath workspaceRoot directory).allParts).isSome := by
    rw [skillPathMatchesRuleSegments] at h
    dsimp only at h
    rw [normalizeRulePathParts_ruleText hdirectory.readsBack] at h
    cases hfind : findMatchingRuleSegmentIndex skill.allParts
        (shownPath workspaceRoot directory).allParts with
    | none =>
      rw [hfind] at h
      cases h
    | some start => rfl
  obtain ⟨hne, hinfix⟩ := isSome_findMatchingRuleSegmentIndex.mp hindex
  cases hshown : directory.relativeTo workspaceRoot with
  | some shown =>
    rw [shownPath, hshown, getD_some, PurePath.allParts,
      if_pos (relativeTo_eq_some hshown).2.2] at hne hinfix
    exact Or.inr ⟨shown, rfl, hne, hinfix⟩
  | none =>
    have habsolute : ∀ path : PurePath, path.root = .slash →
        path.allParts = "/".toList :: path.parts := by
      intro path hpath
      rw [PurePath.allParts, if_neg (by rw [hpath]; decide), hpath]
      rfl
    rw [shownPath, hshown, getD_none, habsolute _ hdirectory.root, habsolute _ hskill] at hinfix
    refine Or.inl (starts_of_within (fun hmem => ?_) hinfix)
    exact PurePath.notMem_slash hmem (by decide)

/-- The rule of a directory matches the skills in the directory, and those whose path has the parts
of the rule in a row. -/
theorem skillPathMatchesRule_iff {path : PurePath} (hpath : SkillPath env path) :
    skillPathMatchesRule env path.posix (ruleText (shownPath workspaceRoot directory))
        (some workspaceRoot) = true ↔
      directory.parts <+: (skillDir env path).parts ∨
        ∃ shown, directory.relativeTo workspaceRoot = some shown ∧ shown.parts ≠ [] ∧
          shown.parts <:+: (skillDir env path).allParts := by
  have hroot := hpath.root_skillDir
  have hskill : resolvePermissionPath env (.ofText path.posix) (some workspaceRoot) =
      env.resolve (env.expandUser path) := by
    rw [resolvePermissionPath, PurePath.ofText_posix, if_pos hpath.isAbsolute,
      if_pos hpath.isAbsolute]
  rw [skillPathMatchesRule, hskill, ← skillDir, ofText_ruleText,
    resolvePermissionPath_shownPath hdirectory, hdirectory.isDir]
  constructor
  · intro h
    rw [Bool.or_eq_true, Bool.or_eq_true, Bool.or_eq_true] at h
    rcases h with ((hsame | hparent) | hbelow) | hrun
    · refine Or.inl ?_
      rw [beq_iff_eq.mp hsame]
    · refine Or.inl ?_
      rw [← beq_iff_eq.mp hparent]
      exact dropLast_prefix _
    · exact Or.inl (isSome_relativeTo.mp hbelow).2
    · exact below_or_run_of_segments hdirectory hroot hrun
  · rintro (hbelow | ⟨shown, hshown, hne, hinfix⟩)
    · have hrelative : ((skillDir env path).relativeTo directory).isSome = true :=
        isSome_relativeTo.mpr ⟨hroot.trans hdirectory.root.symm, hbelow⟩
      rw [hrelative, Bool.or_true, Bool.true_or]
    · have hparts : shown.allParts = shown.parts := by
        rw [PurePath.allParts, if_pos (relativeTo_eq_some hshown).2.2]
      have hindex : (findMatchingRuleSegmentIndex (skillDir env path).allParts
          (shownPath workspaceRoot directory).allParts).isSome := by
        refine isSome_findMatchingRuleSegmentIndex.mpr ?_
        rw [shownPath, hshown, getD_some, hparts]
        exact ⟨hne, hinfix⟩
      obtain ⟨start, hstart⟩ := isSome_iff_exists.mp hindex
      have hrun : skillPathMatchesRuleSegments env (skillDir env path)
          (ruleText (shownPath workspaceRoot directory)) = true := by
        rw [skillPathMatchesRuleSegments]
        dsimp only
        rw [normalizeRulePathParts_ruleText hdirectory.readsBack, hstart]
        have hkind : isFileRule env (.ofText (ruleText (shownPath workspaceRoot directory))) =
            false := by
          rw [ofText_ruleText, shownPath, hshown]
          exact (hdirectory.relative shown hshown).2
        dsimp only
        rw [hkind, if_neg Bool.false_ne_true, isPrefixOf_iff_prefix.mpr ( take_prefix _ _),
          Bool.or_true]
      rw [hrun, Bool.or_true]

omit hdirectory in
theorem isSkillPathDenied_iff_exists {path : Text} {entries : List Text} {base : Option PurePath} :
    isSkillPathDenied env path entries base = true ↔
      ∃ entry ∈ entries, isSkillPathDenied env path [entry] base = true := by
  simp only [isSkillPathDenied]
  split
  · simp
  · simp only [skillPathEntries, List.any_eq_true, List.mem_map, mem_filter, mem_filterMap,
      mem_singleton]
    grind

theorem isSkillPathDenied_entry_iff {path : PurePath} (hpath : SkillPath env path) :
    isSkillPathDenied env path.posix [skillPathPrefix ++ ruleText (shownPath workspaceRoot directory)]
        (some workspaceRoot) = true ↔
      directory.parts <+: (skillDir env path).parts ∨
        ∃ shown, directory.relativeTo workspaceRoot = some shown ∧ shown.parts ≠ [] ∧
          shown.parts <:+: (skillDir env path).allParts := by
  have hentries : skillPathEntries [skillPathPrefix ++ ruleText (shownPath workspaceRoot directory)] =
      [ruleText (shownPath workspaceRoot directory)] := by
    rw [skillPathEntries, filterMap_cons, parseSkillPermissionEntry_ruleText hdirectory.readsBack.1]
    rfl
  rw [← skillPathMatchesRule_iff hdirectory hpath, isSkillPathDenied, hpath.strip,
    if_neg path.posix_ne_nil, hentries, any_cons, any_nil, Bool.or_false]

end

end ClearYourTools.Permissions

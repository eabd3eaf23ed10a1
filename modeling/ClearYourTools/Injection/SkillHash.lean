import ClearYourTools.Injection.PreExposure

/-!
# The hash of a skill file

`skill_content_hash` looks a path up among the entry directories of the skills cache before it
reads the file.
-/

namespace ClearYourTools.Injection.SessionLog

open Misc List

variable {β : Type}

/-- SHA-256, the bytes of a text, the paths that are compared, and the order in which the file
system lists the entry directories. -/
structure HashEnv (β : Type) where
  sha256 : β → Text
  encode : Text → β
  shortenHomePath : Text → Text
  iterdir : List (Text × Option Text) → List (Text × Option Text)
  perm_iterdir : ∀ entries, (iterdir entries).Perm entries

/-- The files by their shortened paths, the entry directories with the `source_path` of their
metadata, and `_SKILL_HASH_BY_SOURCE`. -/
structure HashState (β : Type) where
  files : Text → Option β
  entries : Dict Text (Option Text)
  skillHashBySource : Option (Dict Text Text)

/-- The path that the metadata of an entry directory names. -/
def sourcePath (entry : Text × Option Text) : Text := (entry.2.getD []).strip

variable (env : HashEnv β)

/-- The loop over the entry directories: where several name one path, the last one stays. -/
def hashBySource (entries : Dict Text (Option Text)) : Dict Text Text :=
  Dict.empty.writeAll ((env.iterdir entries.entries).filterMap fun entry =>
    if sourcePath entry = [] then none else some (sourcePath entry, entry.1))

def loadSkillHashBySource (s : HashState β) : Dict Text Text × HashState β :=
  match s.skillHashBySource with
  | some index => (index, s)
  | none =>
    (hashBySource env s.entries, { s with skillHashBySource := some (hashBySource env s.entries) })

def skillPath (skill : MatchedSkill) : Text := (env.shortenHomePath skill.filePath).strip

def skillContentHash (skill : MatchedSkill) (s : HashState β) : Text × HashState β :=
  match textOrNone skill.contentHash with
  | some contentHash => (contentHash, s)
  | none =>
    if skillPath env skill = [] then (env.sha256 (env.encode skill.markdown), s)
    else
      let loaded := loadSkillHashBySource env s
      match textOrNone (loaded.1.get? (skillPath env skill)) with
      | some cached => (cached, loaded.2)
      | none =>
        match loaded.2.files (skillPath env skill) with
        | some content => (env.sha256 content, loaded.2)
        | none => (env.sha256 (env.encode skill.markdown), loaded.2)

/-- A file is written or removed, an index is built of a file, or a skill is hashed. -/
inductive HashEvent (β : Type) where
  | edit (path : Text) (content : Option β)
  | build (path : Text)
  | hash (skill : MatchedSkill)

/-- A process, with the entry directories as it found them when it first looked. -/
structure Hashing (β : Type) where
  state : HashState β
  found : Option (Dict Text (Option Text))

/-- The entry directories that the process goes by. -/
def Hashing.known (s : Hashing β) : Dict Text (Option Text) := s.found.getD s.state.entries

/-- An index that is built leaves the entry directory of the content, which names the path. -/
def HashEvent.apply : HashEvent β → Hashing β → Hashing β
  | .edit path content, s =>
    { s with state := { s.state with
        files := fun path' => if path' = path then content else s.state.files path' } }
  | .build path, s =>
    match s.state.files (env.shortenHomePath path) with
    | none => s
    | some content =>
      { s with state := { s.state with
          entries := s.state.entries.set (env.sha256 content) (some (env.shortenHomePath path)) } }
  | .hash skill, s =>
    let hashed := (skillContentHash env skill s.state).2
    ⟨hashed, s.found.or (hashed.skillHashBySource.map fun _ => s.state.entries)⟩

/-- `P` holds whenever a skill without a hash of its own is hashed whose file can be read. -/
def AtHashes (P : Hashing β → MatchedSkill → β → Prop) : Hashing β → List (HashEvent β) → Prop
  | _, [] => True
  | s, event :: events =>
    (∀ skill content, event = .hash skill → textOrNone skill.contentHash = none →
      skillPath env skill ≠ [] → s.state.files (skillPath env skill) = some content →
      P s skill content) ∧ AtHashes P (event.apply env s) events

/-- The hash is that of the content that the file has now. -/
def HashCurrent (s : Hashing β) (skill : MatchedSkill) (content : β) : Prop :=
  (skillContentHash env skill s.state).1 = env.sha256 content

/-- Of the entry directories that name the path, the one that is listed last is that of the content
that the file has now. -/
def EntryCurrent (s : Hashing β) (skill : MatchedSkill) (content : β) : Prop :=
  ∀ entry, ((env.iterdir s.known.entries).filter fun entry =>
      decide (sourcePath entry = skillPath env skill)).getLast? = some entry →
    entry.1 ≠ [] → entry.1 = env.sha256 content

/-- What the process remembers is what it found. -/
def Remembers (s : Hashing β) : Prop := s.state.skillHashBySource = s.found.map (hashBySource env)

variable {env} {s : Hashing β}

theorem get?_hashBySource (entries : Dict Text (Option Text)) {path : Text} (h : path ≠ []) :
    (hashBySource env entries).get? path =
      ((env.iterdir entries.entries).filter fun entry =>
        decide (sourcePath entry = path)).getLast?.map Prod.fst := by
  have hfilter : ∀ dirs : List (Text × Option Text),
      ((dirs.filterMap fun entry =>
        if sourcePath entry = [] then none else some (sourcePath entry, entry.1)).filter
          fun w => decide (w.1 = path)) =
        (dirs.filter fun entry => decide (sourcePath entry = path)).map fun entry =>
          (path, entry.1) := by
    intro dirs
    induction dirs with
    | nil => rfl
    | cons entry dirs ih =>
      rw [filterMap_cons, filter_cons]
      by_cases hpath : sourcePath entry = path
      · rw [hpath, if_neg h, decide_eq_true rfl, if_pos rfl, map_cons, ← ih]
        exact filter_cons_of_pos (decide_eq_true rfl)
      rw [decide_eq_false hpath, if_neg Bool.false_ne_true, ← ih]
      split
      · rfl
      · rename_i hsome
        split at hsome
        · cases hsome
        · cases hsome
          exact filter_cons_of_neg (by simpa using hpath)
  rw [hashBySource, Dict.get?_writeAll, hfilter, getLast?_map, Option.map_map, Dict.get?_empty,
    Option.or_none]
  rfl

theorem loadSkillHashBySource_fst (h : Remembers env s) :
    (loadSkillHashBySource env s.state).1 = hashBySource env s.known := by
  unfold loadSkillHashBySource Hashing.known
  rw [h]
  cases s.found with
  | none => rfl
  | some found => rfl

theorem files_loadSkillHashBySource (s : HashState β) :
    (loadSkillHashBySource env s).2.files = s.files := by
  unfold loadSkillHashBySource
  split <;> rfl

theorem hashCurrent_iff (h : Remembers env s) {skill : MatchedSkill} {content : β}
    (hown : textOrNone skill.contentHash = none) (hpath : skillPath env skill ≠ [])
    (hfile : s.state.files (skillPath env skill) = some content) :
    HashCurrent env s skill content ↔ EntryCurrent env s skill content := by
  unfold HashCurrent EntryCurrent skillContentHash
  rw [hown]
  dsimp only
  rw [if_neg hpath, loadSkillHashBySource_fst h, get?_hashBySource _ hpath,
    files_loadSkillHashBySource, hfile]
  cases hlast : ((env.iterdir s.known.entries).filter fun entry =>
      decide (sourcePath entry = skillPath env skill)).getLast? with
  | none => exact iff_of_true rfl nofun
  | some entry =>
    obtain ⟨name, source⟩ := entry
    cases name with
    | nil => exact iff_of_true rfl fun entry hentry hne => absurd (by cases hentry; rfl) hne
    | cons c name =>
      constructor
      · intro hcurrent entry hentry _
        cases hentry
        exact hcurrent
      · exact fun hentry => hentry _ rfl (cons_ne_nil _ _)

theorem Remembers.apply (h : Remembers env s) (event : HashEvent β) :
    Remembers env (event.apply env s) := by
  cases event with
  | edit path content => exact h
  | build path =>
    unfold HashEvent.apply
    dsimp only
    split <;> exact h
  | hash skill =>
    have hkept : ∀ hashed : HashState β, hashed = s.state ∨
        hashed = (loadSkillHashBySource env s.state).2 →
        hashed.skillHashBySource = (s.found.or (hashed.skillHashBySource.map fun _ =>
          s.state.entries)).map (hashBySource env) := by
      intro hashed hcases
      unfold Remembers at h
      cases hfound : s.found with
      | none =>
        rw [hfound] at h
        rcases hcases with rfl | rfl
        · rw [h]
          rfl
        · unfold loadSkillHashBySource
          rw [h]
          rfl
      | some found =>
        rw [hfound] at h
        rcases hcases with rfl | rfl
        · exact h
        · unfold loadSkillHashBySource
          rw [h]
          exact h
    refine hkept (skillContentHash env skill s.state).2 ?_
    unfold skillContentHash
    split
    · exact .inl rfl
    split
    · exact .inl rfl
    · right
      dsimp only
      split
      · rfl
      · split <;> rfl

/-- In every run of edits, builds and calls, the hashes are current if and only if what the process
found of each path is. -/
theorem hashes_current_iff (env : HashEnv β) (files : Text → Option β)
    (entries : Dict Text (Option Text)) (events : List (HashEvent β)) :
    AtHashes env (HashCurrent env) ⟨⟨files, entries, none⟩, none⟩ events ↔
      AtHashes env (EntryCurrent env) ⟨⟨files, entries, none⟩, none⟩ events := by
  have hruns : ∀ (events : List (HashEvent β)) (s : Hashing β), Remembers env s →
      (AtHashes env (HashCurrent env) s events ↔ AtHashes env (EntryCurrent env) s events) := by
    intro events
    induction events with
    | nil => exact fun _ _ => Iff.rfl
    | cons event events ih =>
      intro s hs
      refine and_congr (forall_congr' fun skill => forall_congr' fun content => ?_)
        (ih _ (hs.apply event))
      refine forall_congr' fun _ => forall_congr' fun hown => ?_
      exact forall_congr' fun hpath => forall_congr' fun hfile => hashCurrent_iff hs hown hpath hfile
  exact hruns events _ rfl

def plainHashEnv : HashEnv Text := ⟨id, id, id, id, fun _ => .refl _⟩

/-- The index of the first version is still there when the file has changed. -/
theorem firstVersion_taken : ¬ AtHashes plainHashEnv (HashCurrent plainHashEnv)
    ⟨⟨fun _ => none, .empty, none⟩, none⟩
    [.edit "a" (some "one"), .build "a",
      .edit "a" (some "two"), .hash ⟨[], "a", [], none, none, none⟩] := by
  rintro ⟨-, -, -, hhash, -⟩
  have hcurrent := hhash _ "two" rfl rfl (by decide) rfl
  unfold HashCurrent at hcurrent
  exact absurd hcurrent (by decide)

end ClearYourTools.Injection.SessionLog

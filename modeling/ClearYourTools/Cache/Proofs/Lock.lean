import ClearYourTools.Cache.Lock

/-!
# Exclusion of the build lock

Between the check of a waiter and its removal another process may drop the lock and a third one
take it; the removal then lets the waiter in beside the third one.
-/

namespace ClearYourTools.Cache

open Misc

variable {P : Type} [DecidableEq P] {s s' : LockState P}

/-- A process is between a successful `acquire` and its drop. -/
def Holds (s : LockState P) (p : P) : Prop := ∃ since, s.phase p = .holding since

/-- At most one process holds the lock. -/
def Excludes (s : LockState P) : Prop := ∀ p q, Holds s p → Holds s q → p = q

/-- No held lock is older than `STALE_SECONDS`. -/
def NoOldLock (s : LockState P) : Prop :=
  ∀ p since, s.phase p = .holding since → s.now - since ≤ staleMs

/-- Nobody has put a lock in the place of what a waiter found stale before it removes it. -/
def RemovesStale (s : LockState P) (a : LockAction P) : Prop :=
  ∀ p, a = .removeFile p → lockStale s.now s.file = true

/-- No process has started. -/
def Unused (s : LockState P) : Prop := ∀ p, s.phase p = .idle

theorem enter_phase_self (p : P) (phase : Phase) : (s.enter p phase).phase p = phase :=
  Function.update_self ..

theorem enter_phase_of_ne {p q : P} (h : q ≠ p) (phase : Phase) :
    (s.enter p phase).phase q = s.phase q :=
  Function.update_of_ne h ..

/-- What a step does to the lock file and to who holds it. -/
inductive Effect (s s' : LockState P) : LockAction P → Prop
  /-- The file stays, and nobody becomes a holder. -/
  | waits {a : LockAction P} (file : s'.file = s.file) (now : s.now ≤ s'.now)
      (holders : ∀ p since, s'.phase p = .holding since → s.phase p = .holding since) : Effect s s' a
  | creates (p : P) (absent : s.file = none) (file : s'.file = some s.now) (now : s'.now = s.now)
      (holder : s'.phase p = .holding s.now) (others : ∀ q, q ≠ p → s'.phase q = s.phase q) :
      Effect s s' (.createNew p)
  | removes (p : P) (file : s'.file = none) (now : s'.now = s.now)
      (holders : ∀ q since, s'.phase q = .holding since → s.phase q = .holding since) :
      Effect s s' (.removeFile p)
  | drops (p : P) (held : Holds s p) (file : s'.file = none) (now : s'.now = s.now)
      (phase : s'.phase p = .idle) (others : ∀ q, q ≠ p → s'.phase q = s.phase q) :
      Effect s s' (.drop p)

theorem holding_of_enter {p q : P} {phase : Phase} {since : ℕ} (hphase : ∀ t, phase ≠ .holding t)
    (h : (s.enter p phase).phase q = .holding since) : s.phase q = .holding since := by
  by_cases hq : q = p
  · subst hq
    rw [enter_phase_self] at h
    exact absurd h (hphase since)
  · rwa [enter_phase_of_ne hq] at h

variable {a : LockAction P}

theorem Effect.of_enter {p : P} {phase : Phase}
    (hphase : ∀ t, phase ≠ .holding t) : Effect s (s.enter p phase) a :=
  .waits rfl (Nat.le_refl _) fun _ _ h => holding_of_enter hphase h

theorem step_effect (h : s.step a = some s') : Effect s s' a := by
  unfold LockState.step at h
  cases a with
  | start p =>
    dsimp only at h
    split at h
    · cases h
      exact .of_enter (by simp)
    · cases h
  | createNew p =>
    dsimp only at h
    split at h
    · split at h
      · rename_i hfile
        cases h
        exact .creates p hfile rfl rfl (enter_phase_self ..) fun q hq => enter_phase_of_ne hq _
      · cases h
        exact .of_enter (by split <;> simp)
    · cases h
  | metadata p =>
    dsimp only at h
    split at h
    · cases h
      exact .of_enter (by split <;> simp)
    · cases h
  | removeFile p =>
    dsimp only at h
    split at h
    · cases h
      exact .removes p rfl rfl fun q since hq => holding_of_enter (s := { s with file := none })
        (by simp) hq
    · cases h
  | wake p =>
    dsimp only at h
    split at h
    · cases h
      exact .of_enter (by simp)
    · cases h
  | drop p =>
    dsimp only at h
    split at h
    · rename_i since hheld
      cases h
      exact .drops p ⟨since, hheld⟩ rfl rfl (enter_phase_self ..) fun q hq => enter_phase_of_ne hq _
    · cases h
  | tick ms =>
    cases h
    exact .waits rfl (Nat.le_add_right ..) fun _ _ h => h

/-- Whoever holds the lock holds the file that is there, alone. -/
structure Guarded (s : LockState P) : Prop where
  owned : ∀ p since, s.phase p = .holding since → s.file = some since ∧ since ≤ s.now
  excludes : Excludes s

omit [DecidableEq P] in
theorem not_stale {p : P} (hinv : Guarded s) (hold : NoOldLock s) (h : Holds s p) :
    lockStale s.now s.file = false := by
  obtain ⟨since, hsince⟩ := h
  obtain ⟨hfile, hle⟩ := hinv.owned p since hsince
  have hage := hold p since hsince
  rw [hfile, lockStale, if_neg (by omega), decide_eq_false_iff_not]
  omega

theorem Effect.guarded (h : Effect s s' a) (hinv : Guarded s)
    (hold : NoOldLock s) (hremoves : RemovesStale s a) : Guarded s' := by
  cases h with
  | waits hfile hnow hholders =>
    constructor
    · intro p since hp
      obtain ⟨howned, hle⟩ := hinv.owned p since (hholders p since hp)
      exact ⟨hfile.trans howned, Nat.le_trans hle hnow⟩
    · rintro p q ⟨_, hp⟩ ⟨_, hq⟩
      exact hinv.excludes p q ⟨_, hholders p _ hp⟩ ⟨_, hholders q _ hq⟩
  | creates p habsent hfile hnow hholder hothers =>
    have hnobody : ∀ q, q ≠ p → ¬ Holds s' q := by
      rintro q hq ⟨since, hsince⟩
      rw [hothers q hq] at hsince
      have howned := (hinv.owned q since hsince).1
      rw [habsent] at howned
      cases howned
    constructor
    · intro q since hq
      by_cases heq : q = p
      · subst heq
        rw [hholder] at hq
        cases hq
        exact ⟨hfile, Nat.le_of_eq hnow.symm⟩
      · exact absurd ⟨since, hq⟩ (hnobody q heq)
    · intro q q' hq hq'
      by_cases heq : q = p
      · by_cases heq' : q' = p
        · exact heq.trans heq'.symm
        · exact absurd hq' (hnobody q' heq')
      · exact absurd hq (hnobody q heq)
  | removes p hfile hnow hholders =>
    have hnobody : ∀ q, ¬ Holds s' q := by
      rintro q ⟨since, hsince⟩
      have hstale := hremoves p rfl
      rw [not_stale hinv hold ⟨since, hholders q since hsince⟩] at hstale
      cases hstale
    exact ⟨fun q since hq => absurd ⟨since, hq⟩ (hnobody q), fun q _ hq => absurd hq (hnobody q)⟩
  | drops p hheld hfile hnow hphase hothers =>
    have hnobody : ∀ q, ¬ Holds s' q := by
      rintro q ⟨since, hsince⟩
      by_cases heq : q = p
      · subst heq
        rw [hphase] at hsince
        cases hsince
      · rw [hothers q heq] at hsince
        exact heq (hinv.excludes q p ⟨since, hsince⟩ hheld)
    exact ⟨fun q since hq => absurd ⟨since, hq⟩ (hnobody q), fun q _ hq => absurd hq (hnobody q)⟩

/-- In a run in which no held lock gets old and no waiter removes what is not stale any more, at
most one process holds the lock. -/
theorem excludes_of_removesStale {start : LockState P} {actions : List (LockAction P)}
    (hunused : Unused start)
    (run : Run LockState.step (fun s a => NoOldLock s ∧ RemovesStale s a) start actions s) :
    Excludes s := by
  have hstart : Guarded start := by
    constructor
    · intro p since hp
      rw [hunused p] at hp
      cases hp
    · rintro p _ ⟨since, hp⟩
      rw [hunused p] at hp
      cases hp
  exact (run.invariant hstart fun hinv hok hnext =>
    (step_effect hnext).guarded hinv hok.1 hok.2).excludes

def holdsNoOldLock (s : LockState P) (p : P) : Bool :=
  match s.phase p with
  | .holding since => s.now - since ≤ staleMs
  | _ => true

omit [DecidableEq P] in
theorem noOldLock_iff : NoOldLock s ↔ ∀ p, holdsNoOldLock s p = true := by
  refine forall_congr' fun p => ?_
  unfold holdsNoOldLock
  split
  · rename_i since hsince
    simp [hsince]
  · rename_i hnot
    simp only [iff_true]
    exact fun since hsince => absurd hsince (hnot since)

instance (s : LockState (Fin 3)) : Decidable (NoOldLock s) := decidable_of_iff' _ noOldLock_iff

instance (s : LockState (Fin 3)) (a : LockAction (Fin 3)) : Decidable (RemovesStale s a) :=
  inferInstanceAs (Decidable (∀ p, a = .removeFile p → lockStale s.now s.file = true))

/-- A directory in which nobody has started, with the time that has passed and a lock that was
left behind. -/
def directory (now : ℕ) (file : Option ℕ) : LockState (Fin 3) := ⟨now, file, fun _ => .idle⟩

/-- A lock that was left behind eleven minutes ago is removed, and the waiter gets in alone. -/
theorem leftover_removed : ∃ s, runFrom LockState.step (fun s a => NoOldLock s ∧ RemovesStale s a)
      (directory 660000 (some 0))
      [.start 0, .createNew 0, .metadata 0, .removeFile 0, .wake 0, .createNew 0] = some s ∧
    Excludes s := by
  have hsome : (runFrom LockState.step (fun s a => NoOldLock s ∧ RemovesStale s a)
      (directory 660000 (some 0))
      [.start 0, .createNew 0, .metadata 0, .removeFile 0, .wake 0, .createNew 0]).isSome := by
    decide
  obtain ⟨s, hs⟩ := Option.isSome_iff_exists.mp hsome
  exact ⟨s, hs, excludes_of_removesStale (fun _ => rfl) (.of_runFrom hs)⟩

/-- The first process drops its lock before the second one looks at it, which then removes the
lock of the third one. -/
def overtaken : List (LockAction (Fin 3)) :=
  [.start 0, .createNew 0, .start 1, .createNew 1, .drop 0, .metadata 1, .start 2, .createNew 2,
    .removeFile 1, .wake 1, .createNew 1]

/-- Two processes hold the lock after a run in which no held lock gets old. -/
theorem two_holders :
    ∃ s, Run LockState.step (fun s _ => NoOldLock s) (directory 0 none) overtaken s ∧
      NoOldLock s ∧ ¬ Excludes s := by
  have hrun : (runFrom LockState.step (fun s _ => NoOldLock s) (directory 0 none) overtaken).any
      (fun s => decide (NoOldLock s) && s.phase 1 == .holding 0 && s.phase 2 == .holding 0)
        = true := by
    decide
  obtain ⟨s, hs, htest⟩ := (Option.any_eq_true ..).mp hrun
  rw [Bool.and_eq_true, Bool.and_eq_true, decide_eq_true_eq, beq_iff_eq, beq_iff_eq] at htest
  obtain ⟨⟨hyoung, hsecond⟩, hthird⟩ := htest
  refine ⟨s, .of_runFrom hs, hyoung, ?_⟩
  intro hexcludes
  exact absurd (hexcludes 1 2 ⟨0, hsecond⟩ ⟨0, hthird⟩) (by decide)

end ClearYourTools.Cache

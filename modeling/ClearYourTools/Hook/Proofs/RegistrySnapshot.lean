import ClearYourTools.Hook.Proofs.RegistryThreads

/-!
# The snapshot of the registry when all is quiet

A change of the registry is owed to the file until a thread that will still write is under way.
-/

namespace ClearYourTools.Hook

open Misc CytClient CytMcp List

variable {φ : Type} {env : CatalogEnv φ} {normalizeWorkspace : NormalizeWorkspace}

namespace RegistryThread

/-- A call that has changed an entry, or is to store one, and has not scheduled the snapshot. -/
def upserts : RegistryThread φ → Bool
  | .register _ _ (.upserting ..) => true
  | .register _ _ (.scheduling _) => true
  | _ => false

/-- A call that has stored an entry and scheduled the snapshot. -/
def hasRegistered : RegistryThread φ → Bool
  | .register _ _ (.answering status) => status == .stored || status == .unchanged
  | .register _ _ (.answered status) => status == .stored || status == .unchanged
  | _ => false

/-- A writer that will take the entries again, or has not tried to write those that it took. -/
def willWrite (generation : ℕ) : RegistryThread φ → Bool
  | .writer .clearing => true
  | .writer .choosing => true
  | .writer (.collecting _) => true
  | .writer (.writing ..) => true
  | .writer (.checking taken) => taken != generation
  | _ => false

/-- A writer that `_snapshot_pending` stands for. -/
def isPending : RegistryThread φ → Bool
  | .writer .waking => false
  | .writer .ended => false
  | .writer _ => true
  | _ => false

/-- A removal that holds `_snapshot_file_lock`. -/
def flushes : RegistryThread φ → Bool
  | .remove _ (.flushing ..) => true
  | _ => false

end RegistryThread

namespace RegistryState

variable {s s' : RegistryState φ} {event : RegistryEvent φ}

/-- When every thread has ended and a registration was made, the file has the entries of the
registry. -/
def SnapshotMatches (s : RegistryState φ) : Prop :=
  s.isQuiet = true → (∃ thread ∈ s.threads, thread.hasRegistered = true) →
    s.file = some s.snapshotPayload

/-- A change of the registry will still be scheduled. -/
def Upserting (s : RegistryState φ) : Prop := ∃ thread ∈ s.threads, thread.upserts = true

/-- A thread is under way that will write the entries, or see to it. -/
def WriteDue (s : RegistryState φ) : Prop :=
  s.Upserting ∨ ∃ thread ∈ s.threads, thread.willWrite s.snapshotGeneration = true

/-- The steps at which a write may be lost. A snapshot is scheduled while no writer is between its
last check and the reset of `_snapshot_pending`; entries are removed while no writer holds those
that it has taken under the present generation; and a removal leaves the file to others only when a
write is due. -/
def LeavesWrite (s : RegistryState φ) : RegistryEvent φ → Prop
  | .advance t _ _ =>
    (∀ request started status, s.threads[t]? = some (.register request started (.scheduling status)) →
      ∀ thread ∈ s.threads, thread ≠ .writer .resetting) ∧
    (∀ removal generation, s.threads[t]? = some (.remove removal (.removing generation)) →
      (∃ e ∈ s.registrations.entries, s.taken removal e.1 e.2 = true) →
      ∀ thread ∈ s.threads, ∀ payload, thread ≠ .writer (.writing s.snapshotGeneration payload)) ∧
    ∀ removal generation removed payload,
      s.threads[t]? = some (.remove removal (.flushing generation removed payload)) →
      generation ≠ s.snapshotGeneration → s.WriteDue
  | _ => True

/-- The generation that a thread has taken, and the entries that it took under it. -/
def ThreadFresh (s : RegistryState φ) : RegistryThread φ → Prop
  | .remove _ (.removing generation) => generation ≤ s.snapshotGeneration
  | .remove _ (.flushing generation _ payload) => generation ≤ s.snapshotGeneration ∧
      (generation = s.snapshotGeneration → payload = s.snapshotPayload ∨ s.Upserting)
  | .writer (.collecting generation) => generation ≤ s.snapshotGeneration
  | .writer (.writing generation payload) => generation ≤ s.snapshotGeneration ∧
      (generation = s.snapshotGeneration → payload = s.snapshotPayload ∨ s.Upserting)
  | .writer (.checking generation) => generation ≤ s.snapshotGeneration
  | _ => True

/-- The file has the entries of the registry, or a thread will see to it. -/
def Covered (s : RegistryState φ) : Prop :=
  s.file = some s.snapshotPayload ∨ s.WriteDue ∨ ∃ thread ∈ s.threads, thread.flushes = true

/-- One writer at most is pending, one removal at most has the lock, and the file is covered once a
registration was made. -/
structure SnapshotKept (s : RegistryState φ) : Prop where
  fresh : ∀ thread ∈ s.threads, s.ThreadFresh thread
  pending : s.threads.countP RegistryThread.isPending = if s.snapshotPending then 1 else 0
  locked : s.threads.countP RegistryThread.flushes = if s.fileLocked then 1 else 0
  covered : (∃ thread ∈ s.threads, thread.hasRegistered = true) → s.Covered

theorem SnapshotKept.snapshotMatches (h : SnapshotKept s) : SnapshotMatches s := by
  intro hquiet hregistered
  -- a thread that has ended sees to nothing
  have hover : ∀ thread ∈ s.threads, thread.isOver = true := all_eq_true.mp hquiet
  have hidle : ∀ thread ∈ s.threads, thread.upserts = false ∧
      thread.willWrite s.snapshotGeneration = false ∧ thread.flushes = false := by
    intro thread hthread
    have hthread := hover thread hthread
    unfold RegistryThread.isOver at hthread
    split at hthread
    · exact ⟨rfl, rfl, rfl⟩
    · exact ⟨rfl, rfl, rfl⟩
    · exact ⟨rfl, rfl, rfl⟩
    · cases hthread
  obtain hfile | (⟨thread, hthread, hdue⟩ | ⟨thread, hthread, hdue⟩) | ⟨thread, hthread, hdue⟩ :=
    h.covered hregistered
  · exact hfile
  · rw [(hidle thread hthread).1] at hdue
    cases hdue
  · rw [(hidle thread hthread).2.1] at hdue
    cases hdue
  · rw [(hidle thread hthread).2.2] at hdue
    cases hdue

section

variable {t : ℕ} {thread thread' : RegistryThread φ}

variable {P : RegistryThread φ → Prop}

theorem forall_goto (h : ∀ other ∈ s.threads, P other) (hthread : P thread') :
    ∀ other ∈ (s.goto t thread').threads, P other := by
  intro other hother
  obtain hother | rfl := mem_or_eq_of_mem_set hother
  · exact h other hother
  · exact hthread

section

variable (ht : s.threads[t]? = some thread)
include ht

theorem mem_goto : thread' ∈ (s.goto t thread').threads :=
  List.mem_set (List.getElem?_eq_some_iff.mp ht).1 _

theorem exists_goto (h : ∃ other ∈ s.threads, P other)
    (hthread : P thread → P thread') : ∃ other ∈ (s.goto t thread').threads, P other := by
  obtain ⟨other, hother, hP⟩ := h
  obtain ⟨u, hu⟩ := getElem?_of_mem hother
  by_cases htu : t = u
  · cases htu
    cases ht.symm.trans hu
    exact ⟨thread', mem_goto ht, hthread hP⟩
  · refine ⟨other, mem_of_getElem? (i := u) ?_, hP⟩
    unfold goto
    rw [getElem?_set_ne htu, hu]

theorem exists_of_goto (h : ∃ other ∈ (s.goto t thread').threads, P other)
    (hthread : P thread' → P thread) : ∃ other ∈ s.threads, P other := by
  obtain ⟨other, hother, hP⟩ := h
  obtain hother | rfl := mem_or_eq_of_mem_set hother
  · exact ⟨other, hother, hP⟩
  · exact ⟨thread, mem_of_getElem? ht, hthread hP⟩

end

variable {p : RegistryThread φ → Bool}

theorem countP_goto (ht : s.threads[t]? = some thread) :
    (s.goto t thread').threads.countP p =
      s.threads.countP p - (if p thread then 1 else 0) + if p thread' then 1 else 0 := by
  obtain ⟨hlt, hget⟩ := List.getElem?_eq_some_iff.mp ht
  unfold goto
  dsimp only
  rw [countP_set hlt, hget]

theorem countP_goto_of_eq (ht : s.threads[t]? = some thread)
    (h : p thread' = p thread) : (s.goto t thread').threads.countP p = s.threads.countP p := by
  rw [countP_goto ht, h]
  refine Nat.sub_add_cancel ?_
  split
  · exact countP_pos_iff.mpr ⟨thread, mem_of_getElem? ht, ‹_›⟩
  · exact Nat.zero_le _

end

variable {thread : RegistryThread φ}

section

variable (h : s.ThreadFresh thread)
include h

theorem ThreadFresh.mono (hgeneration : s'.snapshotGeneration = s.snapshotGeneration)
    (hpayload : s'.snapshotPayload = s.snapshotPayload ∨ s'.Upserting)
    (hupserting : s.Upserting → s'.Upserting) : s'.ThreadFresh thread := by
  have hfresh : ∀ {generation payload}, (generation = s.snapshotGeneration →
      payload = s.snapshotPayload ∨ s.Upserting) → generation = s'.snapshotGeneration →
      payload = s'.snapshotPayload ∨ s'.Upserting := by
    intro generation payload hold heq
    obtain hpayload | hupserting' := hpayload
    · rw [hpayload]
      exact (hold (heq.trans hgeneration)).imp_right hupserting
    · exact .inr hupserting'
  unfold ThreadFresh at h ⊢
  split at h
  · exact hgeneration ▸ h
  · exact ⟨hgeneration ▸ h.1, hfresh h.2⟩
  · exact hgeneration ▸ h
  · exact ⟨hgeneration ▸ h.1, hfresh h.2⟩
  · exact hgeneration ▸ h
  · trivial

theorem ThreadFresh.of_lt
    (hgeneration : s.snapshotGeneration < s'.snapshotGeneration) : s'.ThreadFresh thread := by
  unfold ThreadFresh at h ⊢
  split at h
  · exact h.trans hgeneration.le
  · exact ⟨h.1.trans hgeneration.le, fun heq => by have := h.1; omega⟩
  · exact h.trans hgeneration.le
  · exact ⟨h.1.trans hgeneration.le, fun heq => by have := h.1; omega⟩
  · exact h.trans hgeneration.le
  · trivial

theorem ThreadFresh.of_notTaken
    (hgeneration : s'.snapshotGeneration = s.snapshotGeneration) (hflushes : thread.flushes = false)
    (hwriting : ∀ payload, thread ≠ .writer (.writing s.snapshotGeneration payload)) :
    s'.ThreadFresh thread := by
  unfold ThreadFresh at h ⊢
  split at h
  · exact hgeneration ▸ h
  · cases hflushes
  · exact hgeneration ▸ h
  · refine ⟨hgeneration ▸ h.1, fun heq => ?_⟩
    cases heq.trans hgeneration
    exact absurd rfl (hwriting _)
  · exact hgeneration ▸ h
  · trivial

end

section

variable {t : ℕ} {thread thread' : RegistryThread φ}

theorem WriteDue.goto (h : s.WriteDue) (ht : s.threads[t]? = some thread)
    (hupserts : thread.upserts = true → thread'.upserts = true)
    (hwrites : thread.willWrite s.snapshotGeneration = true →
      thread'.willWrite s.snapshotGeneration = true) : (s.goto t thread').WriteDue :=
  h.imp (fun hupserting => exists_goto ht hupserting hupserts)
    fun hwriting => exists_goto ht hwriting hwrites

section

variable (h : SnapshotKept s)
include h

theorem SnapshotKept.withIdle (idle : Bool) : SnapshotKept { s with snapshotIdle := idle } where
  fresh := h.fresh
  pending := h.pending
  locked := h.locked
  covered := h.covered

theorem SnapshotKept.withHistory (history : RegistryHistory) :
    SnapshotKept { s with history := history } where
  fresh := h.fresh
  pending := h.pending
  locked := h.locked
  covered := h.covered

theorem SnapshotKept.goto (ht : s.threads[t]? = some thread) (hfresh : s.ThreadFresh thread')
    (hpending : thread'.isPending = thread.isPending) (hflushes : thread'.flushes = thread.flushes)
    (hregistered : thread'.hasRegistered = true → thread.hasRegistered = true)
    (hupserts : thread.upserts = true → thread'.upserts = true)
    (hwrites : thread.willWrite s.snapshotGeneration = true →
      thread'.willWrite s.snapshotGeneration = true) : SnapshotKept (s.goto t thread') where
  fresh := by
    have hupserting : s.Upserting → (s.goto t thread').Upserting :=
      fun hupserting => exists_goto ht hupserting hupserts
    exact forall_goto (fun other hother => (h.fresh other hother).mono rfl (.inl rfl) hupserting)
      (hfresh.mono rfl (.inl rfl) hupserting)
  pending := (countP_goto_of_eq ht hpending).trans h.pending
  locked := (countP_goto_of_eq ht hflushes).trans h.locked
  covered := by
    intro hsome
    obtain hfile | hdue | hflush := h.covered (exists_of_goto ht hsome hregistered)
    · exact .inl hfile
    · exact .inr (.inl (hdue.goto ht hupserts hwrites))
    · exact .inr (.inr (exists_goto ht hflush fun htrue => hflushes.trans htrue))

theorem SnapshotKept.pass (ht : s.threads[t]? = some thread)
    (hpass : Passes s thread thread') : SnapshotKept (s.goto t thread') := by
  have hfresh := h.fresh thread (mem_of_getElem? ht)
  cases hpass with
  | read => exact h.goto ht trivial rfl rfl (nofun) (nofun) (nofun)
  | refused _ _ _ hstatus =>
    refine h.goto ht trivial rfl rfl (fun hregistered => ?_) (nofun) (nofun)
    obtain heq | heq := Bool.or_eq_true_iff.mp hregistered
    · exact absurd (beq_iff_eq.mp heq) hstatus.1
    · exact absurd (beq_iff_eq.mp heq) hstatus.2
  | answered => exact h.goto ht trivial rfl rfl id (nofun) (nofun)
  | waited => exact h.goto ht trivial rfl rfl (nofun) (nofun) (nofun)
  | foundNone => exact h.goto ht trivial rfl rfl (nofun) (nofun) (nofun)
  | chosen => exact h.goto ht le_rfl rfl rfl (nofun) (nofun) fun _ => rfl
  | collected =>
    exact h.goto ht ⟨hfresh, fun _ => .inl rfl⟩ rfl rfl (nofun) (nofun) fun _ => rfl
  | overtaken => exact h.goto ht trivial rfl rfl (nofun) (nofun) fun _ => rfl
  | checked =>
    refine h.goto ht trivial rfl rfl (nofun) (nofun) fun hwrites => ?_
    exact absurd rfl (bne_iff_ne.mp hwrites)
  | again => exact h.goto ht trivial rfl rfl (nofun) (nofun) fun _ => rfl

theorem SnapshotKept.spawn {time : ℕ} (hstarts : Starts time thread) :
    SnapshotKept (s.spawn thread) where
  fresh := by
    intro other hother
    obtain hother | hother := mem_append.mp hother
    · refine (h.fresh other hother).mono rfl (.inl rfl) ?_
      exact fun ⟨u, hu, hupserts⟩ => ⟨u, mem_append_left _ hu, hupserts⟩
    · cases mem_singleton.mp hother
      cases hstarts <;> trivial
  pending := by
    unfold RegistryState.spawn
    rw [countP_append, h.pending]
    cases hstarts <;> rfl
  locked := by
    unfold RegistryState.spawn
    rw [countP_append, h.locked]
    cases hstarts <;> rfl
  covered := by
    rintro ⟨other, hother, hregistered⟩
    obtain hother | hother := mem_append.mp hother
    · obtain hfile | hdue | ⟨u, hu, hflushes⟩ := h.covered ⟨other, hother, hregistered⟩
      · exact .inl hfile
      · refine .inr (.inl (hdue.imp ?_ ?_))
        · exact fun ⟨u, hu, hupserts⟩ => ⟨u, mem_append_left _ hu, hupserts⟩
        · exact fun ⟨u, hu, hwrites⟩ => ⟨u, mem_append_left _ hu, hwrites⟩
      · exact .inr (.inr ⟨u, mem_append_left _ hu, hflushes⟩)
    · cases mem_singleton.mp hother
      cases hstarts <;> cases hregistered

theorem SnapshotKept.upserts (ht : s.threads[t]? = some thread)
    (hthreads : s'.threads = s.threads) (hgeneration : s'.snapshotGeneration = s.snapshotGeneration)
    (hpending : s'.snapshotPending = s.snapshotPending) (hlocked : s'.fileLocked = s.fileLocked)
    (hwas : thread.isPending = false ∧ thread.flushes = false)
    (his : thread'.isPending = false ∧ thread'.flushes = false) (hfresh : s'.ThreadFresh thread')
    (hupserts : thread'.upserts = true) : SnapshotKept (s'.goto t thread') := by
  have ht' : s'.threads[t]? = some thread := hthreads ▸ ht
  have hupserting : (s'.goto t thread').Upserting := ⟨thread', mem_goto ht', hupserts⟩
  refine { fresh := ?_, pending := ?_, locked := ?_, covered := fun _ => .inr (.inl (.inl hupserting)) }
  · refine forall_goto (fun other hother => ?_)
      (hfresh.mono rfl (.inr hupserting) fun _ => hupserting)
    exact (h.fresh other (hthreads ▸ hother)).mono hgeneration (.inr hupserting) fun _ => hupserting
  · rw [countP_goto_of_eq ht' (his.1.trans hwas.1.symm), hthreads, h.pending]
    exact congrArg (fun pending : Bool => if pending then 1 else 0) hpending.symm
  · rw [countP_goto_of_eq ht' (his.2.trans hwas.2.symm), hthreads, h.locked]
    exact congrArg (fun locked : Bool => if locked then 1 else 0) hlocked.symm

end

variable {generation : ℕ}

theorem ThreadFresh.willWrite (h : s.ThreadFresh thread) (hpending : thread.isPending = true)
    (hresetting : thread ≠ .writer .resetting) (hgeneration : s.snapshotGeneration < generation) :
    thread.willWrite generation = true := by
  cases thread with
  | register => cases hpending
  | remove => cases hpending
  | writer phase =>
    cases phase with
    | checking taken =>
      have htaken : taken ≤ s.snapshotGeneration := h
      exact bne_iff_ne.mpr (by omega)
    | resetting => exact absurd rfl hresetting
    | waking => cases hpending
    | ended => cases hpending
    | clearing => rfl
    | choosing => rfl
    | collecting => rfl
    | writing => rfl

theorem ThreadFresh.stillWrites (h : s.ThreadFresh thread)
    (hwrites : thread.willWrite s.snapshotGeneration = true)
    (hgeneration : s.snapshotGeneration < generation) : thread.willWrite generation = true := by
  refine h.willWrite ?_ ?_ hgeneration
  · unfold RegistryThread.willWrite at hwrites
    split at hwrites
    · rfl
    · rfl
    · rfl
    · rfl
    · rfl
    · cases hwrites
  · rintro rfl
    cases hwrites

variable (h : SnapshotKept s)

include h

theorem SnapshotKept.schedule {request : RegisterRequest φ} {started : ℕ} {status : RegisterStatus}
    (ht : s.threads[t]? = some (.register request started (.scheduling status)))
    (hresetting : ∀ thread ∈ s.threads, thread ≠ .writer .resetting) :
    SnapshotKept (s.scheduleSnapshotWrite.goto t
      (.register request started (.answering status))) := by
  have hlt : s.snapshotGeneration < s.snapshotGeneration + 1 := Nat.lt_succ_self _
  unfold scheduleSnapshotWrite
  dsimp only
  split
  · rename_i hpending
    -- the writer that is pending finds another generation at its next check
    obtain ⟨writer, hwriter, hiswriter⟩ : ∃ writer ∈ s.threads, writer.isPending = true := by
      refine countP_pos_iff.mp ?_
      rw [h.pending, if_pos hpending]
      exact Nat.one_pos
    have hwrites := (h.fresh writer hwriter).willWrite hiswriter (hresetting writer hwriter) hlt
    refine { fresh := ?_, pending := ?_, locked := ?_, covered := fun _ => .inr (.inl (.inr ?_)) }
    · exact forall_goto (fun other hother => (h.fresh other hother).of_lt hlt) trivial
    · exact (countP_goto_of_eq ht (by rfl)).trans h.pending
    · exact (countP_goto_of_eq ht (by rfl)).trans h.locked
    · exact exists_goto ht
        ⟨writer, hwriter, hwrites⟩ (nofun)
  · rename_i hpending
    -- a writer starts
    have hlen : t < s.threads.length := (List.getElem?_eq_some_iff.mp ht).1
    obtain ⟨s₁, hs₁⟩ : ∃ s₁, s₁ = RegistryState.spawn { s with
        snapshotGeneration := s.snapshotGeneration + 1
        snapshotPending := true } (.writer .clearing) := ⟨_, rfl⟩
    have ht₁ : s₁.threads[t]? = some (.register request started (.scheduling status)) := by
      rw [hs₁]
      exact (getElem?_append_left hlen).trans ht
    have hcount : s₁.threads.countP RegistryThread.isPending = 1 ∧
        s₁.threads.countP RegistryThread.flushes = if s.fileLocked then 1 else 0 := by
      rw [hs₁]
      unfold RegistryState.spawn
      dsimp only
      rw [countP_append, countP_append, h.pending, h.locked, if_neg hpending]
      exact ⟨rfl, rfl⟩
    rw [← hs₁]
    refine { fresh := ?_, pending := ?_, locked := ?_, covered := fun _ => .inr (.inl (.inr ?_)) }
    · refine forall_goto (fun other hother => ?_) trivial
      rw [hs₁] at hother ⊢
      obtain hother | hother := mem_append.mp hother
      · exact (h.fresh other hother).of_lt hlt
      · cases mem_singleton.mp hother
        trivial
    · refine ((countP_goto_of_eq ht₁ (by rfl)).trans hcount.1).trans ?_
      rw [hs₁]
      rfl
    · refine ((countP_goto_of_eq ht₁ (by rfl)).trans hcount.2).trans ?_
      rw [hs₁]
      rfl
    · refine exists_goto ht₁ ⟨.writer .clearing, ?_, rfl⟩ (nofun)
      rw [hs₁]
      exact mem_append_right _ (mem_singleton_self _)

variable {removal : Removal}

theorem SnapshotKept.bump (ht : s.threads[t]? = some (.remove removal .bumping)) :
    SnapshotKept ({ s with snapshotGeneration := s.snapshotGeneration + 1 }.goto t
      (.remove removal (.removing (s.snapshotGeneration + 1)))) where
  fresh := forall_goto
    (fun other hother => (h.fresh other hother).of_lt (Nat.lt_succ_self _)) (Nat.le_refl _)
  pending := (countP_goto_of_eq ht (by rfl)).trans h.pending
  locked := (countP_goto_of_eq ht (by rfl)).trans h.locked
  covered := by
    intro hsome
    obtain hfile | (hupserting | ⟨writer, hwriter, hwrites⟩) | hflush :=
      h.covered (exists_of_goto ht hsome (nofun))
    · exact .inl hfile
    · exact .inr (.inl (.inl (exists_goto ht hupserting (nofun))))
    · have hstill := (h.fresh writer hwriter).stillWrites hwrites (Nat.lt_succ_self _)
      exact .inr (.inl (.inr (exists_goto ht ⟨writer, hwriter, hstill⟩ (nofun))))
    · exact .inr (.inr (exists_goto ht hflush (nofun)))

theorem SnapshotKept.remove {removed : ℕ}
    (ht : s.threads[t]? = some (.remove removal (.removing generation)))
    (hfree : s.fileLocked = false) (hwriting : ∀ thread ∈ s.threads, ∀ payload,
      thread ≠ .writer (.writing s.snapshotGeneration payload)) :
    SnapshotKept ({ s.removeTaken removal with fileLocked := true }.goto t (.remove removal
      (.flushing generation removed (s.removeTaken removal).snapshotPayload))) := by
  have hnone : s.threads.countP RegistryThread.flushes = 0 := by
    rw [h.locked, hfree]
    rfl
  have hgeneration : generation ≤ s.snapshotGeneration := h.fresh _ (mem_of_getElem? ht)
  refine { fresh := ?_, pending := ?_, locked := ?_, covered := fun _ => .inr (.inr ?_) }
  · refine forall_goto (fun other hother => ?_) ⟨hgeneration, fun _ => .inl rfl⟩
    refine (h.fresh other hother).of_notTaken rfl ?_ (hwriting other hother)
    exact eq_false_of_ne_true (countP_eq_zero.mp hnone other hother)
  · exact (countP_goto_of_eq ht (by rfl)).trans h.pending
  · refine (countP_goto ht).trans ?_
    rw [hnone]
    rfl
  · exact ⟨_, mem_goto ht, rfl⟩

theorem SnapshotKept.flush {generation removed : ℕ} {payload : List (RegistryEntry φ)}
    (ht : s.threads[t]? = some (.remove removal (.flushing generation removed payload)))
    (hdue : generation ≠ s.snapshotGeneration → s.WriteDue) :
    SnapshotKept ({ s with
      file := if generation = s.snapshotGeneration then some payload else s.file
      fileLocked := false }.goto t (.remove removal (.answering removed))) := by
  have hmem := mem_of_getElem? ht
  obtain ⟨-, hpayload⟩ : generation ≤ s.snapshotGeneration ∧ (generation = s.snapshotGeneration →
      payload = s.snapshotPayload ∨ s.Upserting) := h.fresh _ hmem
  refine { fresh := ?_, pending := ?_, locked := ?_, covered := fun _ => ?_ }
  · refine forall_goto (fun other hother => ?_) trivial
    exact (h.fresh other hother).mono rfl (.inl rfl) fun hupserting =>
      exists_goto ht hupserting (nofun)
  · exact (countP_goto_of_eq ht (by rfl)).trans h.pending
  · have hlocked := h.locked
    have hone : s.threads.countP RegistryThread.flushes ≤ 1 := by
      rw [hlocked]
      split <;> omega
    refine (countP_goto ht).trans ?_
    exact Nat.sub_eq_zero_of_le hone
  · by_cases heq : generation = s.snapshotGeneration
    · obtain hpayload | hupserting := hpayload heq
      · refine .inl ?_
        exact (if_pos heq).trans (congrArg some hpayload)
      · exact .inr (.inl (.inl (exists_goto ht hupserting (nofun))))
    · exact .inr (.inl ((hdue heq).goto ht (nofun) (nofun)))

theorem SnapshotKept.write {payload : List (RegistryEntry φ)}
    (ht : s.threads[t]? = some (.writer (.writing s.snapshotGeneration payload))) :
    SnapshotKept ({ s with file := some payload }.goto t
      (.writer (.checking s.snapshotGeneration))) := by
  obtain ⟨-, hpayload⟩ : s.snapshotGeneration ≤ s.snapshotGeneration ∧
      (s.snapshotGeneration = s.snapshotGeneration → payload = s.snapshotPayload ∨ s.Upserting) :=
    h.fresh _ (mem_of_getElem? ht)
  refine { fresh := ?_, pending := ?_, locked := ?_, covered := fun _ => ?_ }
  · refine forall_goto (fun other hother => ?_) (Nat.le_refl s.snapshotGeneration)
    exact (h.fresh other hother).mono rfl (.inl rfl) fun hupserting =>
      exists_goto ht hupserting (nofun)
  · exact (countP_goto_of_eq ht (by rfl)).trans h.pending
  · exact (countP_goto_of_eq ht (by rfl)).trans h.locked
  · obtain hpayload | hupserting := hpayload rfl
    · exact .inl (congrArg some hpayload)
    · exact .inr (.inl (.inl (exists_goto ht hupserting (nofun))))

theorem SnapshotKept.reset (ht : s.threads[t]? = some (.writer .resetting)) :
    SnapshotKept ({ s with snapshotPending := false }.goto t (.writer .waking)) := by
  refine { fresh := ?_, pending := ?_, locked := ?_, covered := fun hsome => ?_ }
  · refine forall_goto (fun other hother => ?_) trivial
    exact (h.fresh other hother).mono rfl (.inl rfl) fun hupserting =>
      exists_goto ht hupserting (nofun)
  · have hone : s.threads.countP RegistryThread.isPending ≤ 1 := by
      rw [h.pending]
      split <;> omega
    refine (countP_goto ht).trans ?_
    exact Nat.sub_eq_zero_of_le hone
  · exact (countP_goto_of_eq ht (by rfl)).trans h.locked
  · obtain hfile | hdue | hflush := h.covered (exists_of_goto ht hsome (nofun))
    · exact .inl hfile
    · exact .inr (.inl (hdue.goto ht (nofun) (nofun)))
    · exact .inr (.inr (exists_goto ht hflush (nofun)))

theorem SnapshotKept.step (hleaves : LeavesWrite s event)
    (hstep : s.step env normalizeWorkspace event = some s') : SnapshotKept s' := by
  obtain ⟨s₁, hmoves, rfl⟩ := moves_step hstep
  refine SnapshotKept.withHistory ?_ _
  cases hmoves with
  | refuse => exact h
  | start _ hstarts => exact h.spawn hstarts
  | pass _ _ ht hpass => exact h.pass ht hpass
  | refresh _ _ ht _ =>
    exact h.upserts ht rfl rfl rfl rfl ⟨rfl, rfl⟩ ⟨rfl, rfl⟩ trivial rfl
  | create _ _ ht _ => exact h.upserts ht rfl rfl rfl rfl ⟨rfl, rfl⟩ ⟨rfl, rfl⟩ trivial rfl
  | upsert _ _ ht _ => exact h.upserts ht rfl rfl rfl rfl ⟨rfl, rfl⟩ ⟨rfl, rfl⟩ trivial rfl
  | schedule _ _ ht => exact h.schedule ht (hleaves.1 _ _ _ ht)
  | bump _ _ ht => exact h.bump ht
  | remove _ _ _ ht hfree htaken => exact h.remove ht hfree (hleaves.2.1 _ _ ht htaken)
  | flush _ _ ht => exact h.flush ht (hleaves.2.2 _ _ _ _ ht)
  | report _ _ ht _ _ =>
    exact (h.withHistory _).goto ht trivial rfl rfl (nofun) (nofun) (nofun)
  | clear _ _ ht =>
    exact (h.withIdle _).goto ht trivial rfl rfl (nofun) (nofun) fun _ => rfl
  | write _ _ ht _ => exact h.write ht
  | reset _ _ ht => exact h.reset ht
  | wake _ _ ht => exact (h.withIdle _).goto ht trivial rfl rfl (nofun) (nofun) (nofun)

end

theorem snapshotKept_start (loaded : List (RegistryEntry φ))
    (file : Option (List (RegistryEntry φ))) : SnapshotKept (start loaded file) where
  fresh _ hthread := nomatch hthread
  pending := rfl
  locked := rfl
  covered := fun ⟨_, hthread, _⟩ => nomatch hthread

/-- In a run in which no write is lost at its steps the snapshot matches the registry whenever all
is quiet. -/
theorem snapshotMatches_of_leavesWrite {loaded : List (RegistryEntry φ)}
    {file : Option (List (RegistryEntry φ))} {events : List (RegistryEvent φ)}
    (run : Run (RegistryState.step env normalizeWorkspace) LeavesWrite (start loaded file) events s) :
    SnapshotMatches s :=
  (run.invariant (snapshotKept_start loaded file) SnapshotKept.step).snapshotMatches

/-- `LeavesWrite` where a removal writes itself. -/
def keepsWrite (s : RegistryState φ) : RegistryEvent φ → Bool
  | .advance t _ _ =>
    match s.threads[t]? with
    | some (.register _ _ (.scheduling _)) => s.threads.all fun thread =>
      match thread with
      | .writer .resetting => false
      | _ => true
    | some (.remove _ (.removing _)) => s.threads.all fun thread =>
      match thread with
      | .writer (.writing ..) => false
      | _ => true
    | some (.remove _ (.flushing generation _ _)) => generation == s.snapshotGeneration
    | _ => true
  | _ => true

theorem leavesWrite_of_keepsWrite (h : s.keepsWrite event = true) : LeavesWrite s event := by
  cases event with
  | advance t now timedOut =>
    unfold keepsWrite at h
    dsimp only at h
    refine ⟨?_, ?_, ?_⟩
    · intro request started status ht
      rw [ht] at h
      rintro thread hthread rfl
      cases all_eq_true.mp h _ hthread
    · intro removal generation ht _
      rw [ht] at h
      rintro thread hthread payload rfl
      cases all_eq_true.mp h _ hthread
    · intro removal generation removed payload ht hne
      rw [ht] at h
      exact absurd (beq_iff_eq.mp h) hne
  | register payload => trivial
  | deregister payload => trivial
  | prune now => trivial

/-- A push whose snapshot is written, another one, and a call that deregisters it before the
second snapshot is written. -/
def writtenPush : List (RegistryEvent Empty) :=
  .register (layerPayload ['h'] (some [namedTool ['a']])) :: advances 0 5 ++ advances 1 7 ++
    .register (layerPayload ['h'] (some [namedTool ['b']])) :: advances 2 5 ++
      .deregister (layerPayload [] none) :: advances 4 5 ++ advances 3 7

theorem writtenPush_matches : ∃ s,
    Run (RegistryState.step plainCatalogEnv some) LeavesWrite (start [] none) writtenPush s ∧
      s.isQuiet = true ∧ s.file = some s.snapshotPayload := by
  have hrun : (runFrom (RegistryState.step plainCatalogEnv some)
      (fun s event => s.keepsWrite event = true) (start [] none) writtenPush).any
        (fun s => s.isQuiet && s.threads.any RegistryThread.hasRegistered) = true := by
    decide +kernel
  obtain ⟨s, hs, htest⟩ := (Option.any_eq_true ..).mp hrun
  obtain ⟨hquiet, hregistered⟩ := Bool.and_eq_true_iff.mp htest
  have run : Run (RegistryState.step plainCatalogEnv some) LeavesWrite (start [] none)
      writtenPush s := .mono (fun s event => leavesWrite_of_keepsWrite) (.of_runFrom hs)
  exact ⟨s, run, hquiet, snapshotMatches_of_leavesWrite run hquiet (any_eq_true.mp hregistered)⟩

/-- The snapshot of a second push is scheduled after the last check of the writer of the first. -/
def lateSchedule : List (RegistryEvent Empty) :=
  .register (layerPayload ['h'] (some [namedTool ['a']])) :: advances 0 5 ++ advances 1 5 ++
    .register (layerPayload ['h'] (some [namedTool ['b']])) :: advances 2 5 ++ advances 1 2

/-- All is quiet and the file has other tools than the registry. -/
def missesSnapshot (s : RegistryState Empty) : Bool :=
  s.isQuiet && s.threads.any RegistryThread.hasRegistered &&
    (s.file.getD []).map (fun entry => firstName entry.tools) !=
      s.snapshotPayload.map fun entry => firstName entry.tools

/-- The file still has the tools of the first push when all is quiet. -/
theorem lateSchedule_missed : ∃ s,
    Run (RegistryState.step plainCatalogEnv some) (fun _ _ => True) (start [] none) lateSchedule s ∧
      ¬ SnapshotMatches s := by
  have hrun : (runFrom (RegistryState.step plainCatalogEnv some) (fun _ _ => True)
      (start [] none) lateSchedule).any missesSnapshot = true := by decide +kernel
  obtain ⟨s, hs, hmissed⟩ := (Option.any_eq_true ..).mp hrun
  refine ⟨s, .of_runFrom hs, fun hmatches => ?_⟩
  obtain ⟨htest, hne⟩ := Bool.and_eq_true_iff.mp hmissed
  obtain ⟨hquiet, hregistered⟩ := Bool.and_eq_true_iff.mp htest
  rw [hmatches hquiet (any_eq_true.mp hregistered)] at hne
  exact bne_iff_ne.mp hne rfl

end RegistryState

end ClearYourTools.Hook

import ClearYourTools.CytMcp.Proofs.WireNames
import ClearYourTools.Hook.Proofs.CatalogRegistry
import ClearYourTools.Hook.RegistryThreads

/-!
# What a step of the registry's threads does

The steps by their effect: those that only move a thread on, and those that change the objects, the
registry or the snapshot. A call that is not interrupted registers as `register_catalog` does.
-/

namespace ClearYourTools.Hook

open Misc CytClient CytMcp List Option

variable {φ : Type} {env : CatalogEnv φ} {normalizeWorkspace : NormalizeWorkspace}

theorem RegisterRequest.tools_of_stored {request : RegisterRequest φ}
    {existing : Option (CatalogRegistration φ)} (h : request.answer existing = .stored) :
    request.tools = some request.newEntry.tools := by
  unfold RegisterRequest.newEntry
  cases htools : request.tools with
  | some tools => rfl
  | none =>
    unfold RegisterRequest.answer at h
    rw [htools] at h
    cases existing with
    | none => cases h
    | some entry =>
      dsimp only at h
      split at h <;> cases h

theorem RegisterRequest.exists_of_unchanged {request : RegisterRequest φ}
    {existing : Option (CatalogRegistration φ)} (h : request.answer existing = .unchanged) :
    ∃ entry, existing = some entry := by
  cases existing with
  | some entry => exact ⟨entry, rfl⟩
  | none =>
    unfold RegisterRequest.answer at h
    cases htools : request.tools with
    | none =>
      rw [htools] at h
      cases h
    | some tools =>
      rw [htools] at h
      cases h

namespace RegistryState

variable {s s' : RegistryState φ} {event : RegistryEvent φ}

/-- The steps that only move the thread on. -/
inductive Passes (s : RegistryState φ) : RegistryThread φ → RegistryThread φ → Prop
  | read (request : RegisterRequest φ) (started : ℕ) :
      Passes s (.register request started .reading)
        (.register request started (.checking (s.registrations.get? request.key)))
  | refused (request : RegisterRequest φ) (started : ℕ) (existing : Option ℕ)
      {status : RegisterStatus} (h : status ≠ .stored ∧ status ≠ .unchanged) :
      Passes s (.register request started (.checking existing))
        (.register request started (.answering status))
  | answered (request : RegisterRequest φ) (started : ℕ) (status : RegisterStatus) :
      Passes s (.register request started (.answering status))
        (.register request started (.answered status))
  | waited (removal : Removal) : Passes s (.remove removal .waiting) (.remove removal .bumping)
  | foundNone (removal : Removal) (generation : ℕ) :
      Passes s (.remove removal (.removing generation)) (.remove removal (.answering 0))
  | chosen : Passes s (.writer .choosing) (.writer (.collecting s.snapshotGeneration))
  | collected (generation : ℕ) : Passes s (.writer (.collecting generation))
      (.writer (.writing generation s.snapshotPayload))
  | overtaken {generation : ℕ} (payload : List (RegistryEntry φ))
      (h : generation ≠ s.snapshotGeneration) :
      Passes s (.writer (.writing generation payload)) (.writer .choosing)
  | checked : Passes s (.writer (.checking s.snapshotGeneration)) (.writer .resetting)
  | again {generation : ℕ} (h : generation ≠ s.snapshotGeneration) :
      Passes s (.writer (.checking generation)) (.writer .choosing)

/-- The object `i` after a call that answers `UNCHANGED` has changed it. -/
def refreshObject (s : RegistryState φ) (request : RegisterRequest φ) (now : ℚ) (i : ℕ)
    (entry : RegistryEntry φ) : RegistryState φ :=
  { s with
    objects := s.objects.set i
      { entry with toCatalogRegistration := request.refresh entry.toCatalogRegistration
                   lastSeenAt := now } }

/-- A call that answers `STORED` makes an object. -/
def addObject (s : RegistryState φ) (request : RegisterRequest φ) (now : ℚ) : RegistryState φ :=
  { s with objects := s.objects ++ [RegistryEntry.mk request.newEntry now now] }

/-- A thread that starts at a time. -/
inductive Starts (time : ℕ) : RegistryThread φ → Prop
  | register (request : RegisterRequest φ) : Starts time (.register request time .reading)
  | remove (removal : Removal) : Starts time (.remove removal .waiting)

/-- What an event does to the state, by the thread that takes the step. -/
inductive Moves (s : RegistryState φ) : RegistryEvent φ → RegistryState φ → Prop
  | refuse (event : RegistryEvent φ) : Moves s event s
  | start (event : RegistryEvent φ) {thread : RegistryThread φ} (h : Starts s.history.time thread) :
      Moves s event (s.spawn thread)
  | pass {t : ℕ} {thread thread' : RegistryThread φ} (now : ℚ) (timedOut : Bool)
      (ht : s.threads[t]? = some thread) (h : Passes s thread thread') :
      Moves s (.advance t now timedOut) (s.goto t thread')
  | refresh {t started i : ℕ} {request : RegisterRequest φ} {entry : RegistryEntry φ} (now : ℚ)
      (timedOut : Bool)
      (ht : s.threads[t]? = some (.register request started (.checking (some i))))
      (hentry : s.objects[i]? = some entry) :
      Moves s (.advance t now timedOut) ((s.refreshObject request now i entry).goto t
        (.register request started (.upserting .unchanged i)))
  | create {t started : ℕ} {request : RegisterRequest φ} {existing : Option ℕ} (now : ℚ)
      (timedOut : Bool)
      (ht : s.threads[t]? = some (.register request started (.checking existing)))
      (htools : request.tools = some request.newEntry.tools) :
      Moves s (.advance t now timedOut) ((s.addObject request now).goto t
        (.register request started (.upserting .stored s.objects.length)))
  | upsert {t started i : ℕ} {request : RegisterRequest φ} {status : RegisterStatus}
      {entry : RegistryEntry φ} (now : ℚ) (timedOut : Bool)
      (ht : s.threads[t]? = some (.register request started (.upserting status i)))
      (hentry : s.objects[i]? = some entry) :
      Moves s (.advance t now timedOut) ((s.upsert t started status i entry).goto t
        (.register request started (.scheduling status)))
  | schedule {t started : ℕ} {request : RegisterRequest φ} {status : RegisterStatus} (now : ℚ)
      (timedOut : Bool)
      (ht : s.threads[t]? = some (.register request started (.scheduling status))) :
      Moves s (.advance t now timedOut) (s.scheduleSnapshotWrite.goto t
        (.register request started (.answering status)))
  | bump {t : ℕ} {removal : Removal} (now : ℚ) (timedOut : Bool)
      (ht : s.threads[t]? = some (.remove removal .bumping)) :
      Moves s (.advance t now timedOut)
        ({ s with snapshotGeneration := s.snapshotGeneration + 1 }.goto t
          (.remove removal (.removing (s.snapshotGeneration + 1))))
  | remove {t generation : ℕ} {removal : Removal} (removed : ℕ) (now : ℚ) (timedOut : Bool)
      (ht : s.threads[t]? = some (.remove removal (.removing generation)))
      (hfree : s.fileLocked = false)
      (htaken : ∃ e ∈ s.registrations.entries, s.taken removal e.1 e.2 = true) :
      Moves s (.advance t now timedOut)
        ({ s.removeTaken removal with fileLocked := true }.goto t (.remove removal
          (.flushing generation removed (s.removeTaken removal).snapshotPayload)))
  | flush {t generation removed : ℕ} {removal : Removal} {payload : List (RegistryEntry φ)}
      (now : ℚ) (timedOut : Bool)
      (ht : s.threads[t]? = some (.remove removal (.flushing generation removed payload))) :
      Moves s (.advance t now timedOut)
        ({ s with
          file := if generation = s.snapshotGeneration then some payload else s.file
          fileLocked := false }.goto t (.remove removal (.answering removed)))
  | report {t removed : ℕ} {removal : Removal} (now : ℚ) (timedOut : Bool)
      (ht : s.threads[t]? = some (.remove removal (.answering removed)))
      (deregistered : List (RegistryKey × ℕ))
      (hdereg : deregistered = s.history.deregistered ∨ ∃ key,
        deregistered = s.history.deregistered ++ [(key, s.history.time)]) :
      Moves s (.advance t now timedOut)
        ({ s with history := { s.history with deregistered := deregistered } }.goto t
          (.remove removal (.answered removed)))
  | clear {t : ℕ} (now : ℚ) (timedOut : Bool) (ht : s.threads[t]? = some (.writer .clearing)) :
      Moves s (.advance t now timedOut)
        ({ s with snapshotIdle := false }.goto t (.writer .choosing))
  | write {t : ℕ} {payload : List (RegistryEntry φ)} (now : ℚ) (timedOut : Bool)
      (ht : s.threads[t]? = some (.writer (.writing s.snapshotGeneration payload)))
      (hfree : s.fileLocked = false) :
      Moves s (.advance t now timedOut)
        ({ s with file := some payload }.goto t (.writer (.checking s.snapshotGeneration)))
  | reset {t : ℕ} (now : ℚ) (timedOut : Bool) (ht : s.threads[t]? = some (.writer .resetting)) :
      Moves s (.advance t now timedOut)
        ({ s with snapshotPending := false }.goto t (.writer .waking))
  | wake {t : ℕ} (now : ℚ) (timedOut : Bool) (ht : s.threads[t]? = some (.writer .waking)) :
      Moves s (.advance t now timedOut) ({ s with snapshotIdle := true }.goto t (.writer .ended))

section

variable {t : ℕ} {now : ℚ} {timedOut : Bool}

theorem moves_registerStep {request : RegisterRequest φ} {started : ℕ} {phase : RegisterPhase}
    (ht : s.threads[t]? = some (.register request started phase))
    (h : s.registerStep t request started now phase = some s') :
    Moves s (.advance t now timedOut) s' := by
  cases phase with
  | reading =>
    cases h
    exact .pass _ _ ht (.read _ _)
  | checking existing =>
    unfold registerStep at h
    dsimp only at h
    split at h
    · rename_i i entry hanswer hentry
      cases h
      exact .refresh _ _ ht hentry
    · rename_i hanswer
      cases h
      exact .create _ _ ht (RegisterRequest.tools_of_stored hanswer)
    · rename_i hstored hunchanged
      cases h
      refine .pass _ _ ht (.refused _ _ _ ⟨hstored, fun hanswer => ?_⟩)
      obtain ⟨entry, hentry⟩ := RegisterRequest.exists_of_unchanged hanswer
      obtain ⟨entry, hobject, -⟩ := map_eq_some_iff.mp hentry
      obtain ⟨i, rfl, -⟩ := bind_eq_some_iff.mp hobject
      exact hunchanged i entry hanswer rfl hobject
  | upserting status i =>
    obtain ⟨entry, hentry, heq⟩ := map_eq_some_iff.mp h
    cases heq
    exact .upsert _ _ ht hentry
  | scheduling status =>
    cases h
    exact .schedule _ _ ht
  | answering status =>
    cases h
    exact .pass _ _ ht (.answered _ _ _)
  | answered status => cases h

theorem moves_removeStep {removal : Removal} {phase : RemovalPhase φ}
    (ht : s.threads[t]? = some (.remove removal phase))
    (h : s.removeStep t removal timedOut phase = some s') : Moves s (.advance t now timedOut) s' := by
  cases phase with
  | waiting =>
    unfold removeStep at h
    dsimp only at h
    split at h
    · cases h
      exact .pass _ _ ht (.waited _)
    · cases h
  | bumping =>
    cases h
    exact .bump _ _ ht
  | removing generation =>
    unfold removeStep at h
    dsimp only at h
    split at h
    · cases h
    rename_i hlocked
    split at h
    · cases h
      exact .pass _ _ ht (.foundNone _ _)
    · rename_i hsome
      cases h
      exact .remove _ _ _ ht (eq_false_of_ne_true hlocked)
        (countP_pos_iff.mp (Nat.pos_of_ne_zero hsome))
  | flushing generation removed payload =>
    cases h
    exact .flush _ _ ht
  | answering removed =>
    cases h
    refine .report _ _ ht _ ?_
    cases removal with
    | prune now => exact .inl rfl
    | deregister key instanceId =>
      dsimp only
      split
      · exact .inl rfl
      · exact .inr ⟨key, rfl⟩
  | answered removed => cases h

theorem moves_writerStep {phase : WriterPhase φ} (ht : s.threads[t]? = some (.writer phase))
    (h : s.writerStep t phase = some s') : Moves s (.advance t now timedOut) s' := by
  cases phase with
  | clearing =>
    cases h
    exact .clear _ _ ht
  | choosing =>
    cases h
    exact .pass _ _ ht .chosen
  | collecting generation =>
    cases h
    exact .pass _ _ ht (.collected _)
  | writing generation payload =>
    unfold writerStep at h
    dsimp only at h
    split at h
    · cases h
    rename_i hlocked
    split at h
    · rename_i hne
      cases h
      exact .pass _ _ ht (.overtaken _ hne)
    · rename_i heq
      cases h
      cases not_not.mp heq
      exact .write _ _ ht (eq_false_of_ne_true hlocked)
  | checking generation =>
    unfold writerStep at h
    cases h
    split
    · rename_i heq
      cases heq
      exact .pass _ _ ht .checked
    · rename_i hne
      exact .pass _ _ ht (.again hne)
  | resetting =>
    cases h
    exact .reset _ _ ht
  | waking =>
    cases h
    exact .wake _ _ ht
  | ended => cases h

theorem moves_step (h : s.step env normalizeWorkspace event = some s') :
    ∃ s₁, Moves s event s₁ ∧ s' = s₁.tick := by
  obtain ⟨s₁, h₁, rfl⟩ := map_eq_some_iff.mp h
  refine ⟨s₁, ?_, rfl⟩
  cases event with
  | register payload =>
    cases Option.some.inj h₁
    split
    · exact .refuse _
    · exact .start _ (.register _)
  | deregister payload =>
    cases Option.some.inj h₁
    split
    · exact .refuse _
    · exact .start _ (.remove _)
  | prune now =>
    cases Option.some.inj h₁
    exact .start _ (.remove _)
  | advance t now timedOut =>
    dsimp only at h₁
    unfold advance at h₁
    split at h₁
    · cases h₁
    · exact moves_registerStep ‹_› h₁
    · exact moves_removeStep ‹_› h₁
    · exact moves_writerStep ‹_› h₁

end

theorem getElem?_scheduleSnapshotWrite {t : ℕ} {thread : RegistryThread φ}
    (ht : s.threads[t]? = some thread) : s.scheduleSnapshotWrite.threads[t]? = some thread := by
  unfold scheduleSnapshotWrite spawn
  dsimp only
  split
  · exact ht
  · dsimp only
    rw [getElem?_append_left (List.getElem?_eq_some_iff.mp ht).1, ht]

def namedTool (name : Text) : Record Empty := [(Injection.SessionLog.nameKey, .str name)]

/-- A payload of one agent and workspace. -/
def layerPayload (contentHash : Text) (tools : Option (List (Record Empty))) :
    RegisterPayload Empty :=
  ⟨"codex", "workspace", some ['/'], "ws", [], contentHash, tools⟩

/-- The hash of the tools that are pushed first. -/
def firstHash : Text := catalogToolsContentHash plainCatalogEnv [namedTool ['a']]

/-- The thread `t` takes some steps. -/
def advances (t n : ℕ) : List (RegistryEvent Empty) := List.replicate n (.advance t 0 false)

def firstName (tools : List (Record Empty)) : Text :=
  fieldOr plainCatalogEnv (tools.headD []) Injection.SessionLog.nameKey

end RegistryState

/-- The request of a call of `register_catalog`. -/
def RegistryThread.request : RegistryThread φ → Option (RegisterRequest φ)
  | .register request _ _ => some request
  | _ => none

namespace RegistryState

variable {s s' : RegistryState φ} {event : RegistryEvent φ}

/-- The request of the call that is a thread. -/
def request (s : RegistryState φ) (t : ℕ) : Option (RegisterRequest φ) :=
  (s.threads[t]?).bind RegistryThread.request

/-- No update is lost: the tools of a push that was stored stay until another push of the key is
stored or the entry is removed, and where `deregister_catalog` has answered `True` only calls that
started later have stored an entry of the key again. -/
structure KeepsUpdates (s : RegistryState φ) : Prop where
  stored : ∀ t request started,
    s.threads[t]? = some (.register request started (.answered .stored)) →
    s.history.lastStored request.key = some t →
    ∃ i entry, s.registrations.get? request.key = some i ∧ s.objects[i]? = some entry ∧
      request.tools = some entry.tools
  gone : ∀ a ∈ s.history.appeared, ∀ d ∈ s.history.deregistered,
    d.1 = a.key → d.2 < a.time → d.2 < a.started

/-- A call that stores an entry finds what it may replace: the entry that it has read is written
back over the same tools only, and a key without an entry has not been deregistered since the call
started. -/
def MayStore (s : RegistryState φ) : RegistryEvent φ → Prop
  | .advance t _ _ => ∀ request started status i entry,
      s.threads[t]? = some (.register request started (.upserting status i)) →
      s.objects[i]? = some entry →
      (∀ i' entry', s.registrations.get? request.key = some i' → s.objects[i']? = some entry' →
        status ≠ .stored → entry'.tools = entry.tools) ∧
      (s.registrations.get? request.key = none →
        ∀ d ∈ s.history.deregistered, d.1 = request.key → d.2 < started)
  | _ => True

/-- What a call holds: an object of its key, with the tools of a push once that has made it. -/
def ThreadKept (s : RegistryState φ) : RegistryThread φ → Prop
  | .register request _ (.checking (some i)) =>
    ∃ entry, s.objects[i]? = some entry ∧ entry.key = request.key
  | .register request _ (.upserting status i) =>
    ∃ entry, s.objects[i]? = some entry ∧ entry.key = request.key ∧
      (status = .stored → request.tools = some entry.tools)
  | _ => True

/-- The registry has objects of its keys, and those with the tools that were stored last. -/
structure UpdatesKept (s : RegistryState φ) : Prop where
  entry : ∀ key i, s.registrations.get? key = some i →
    ∃ entry, s.objects[i]? = some entry ∧ entry.key = key
  thread : ∀ thread ∈ s.threads, s.ThreadKept thread
  last : ∀ key t, s.history.lastStored key = some t →
    ∃ request i entry, s.request t = some request ∧ s.registrations.get? key = some i ∧
      s.objects[i]? = some entry ∧ request.tools = some entry.tools
  past : (∀ d ∈ s.history.deregistered, d.2 < s.history.time) ∧
    ∀ a ∈ s.history.appeared, a.time < s.history.time
  gone : ∀ a ∈ s.history.appeared, ∀ d ∈ s.history.deregistered,
    d.1 = a.key → d.2 < a.time → d.2 < a.started

theorem UpdatesKept.keepsUpdates (h : UpdatesKept s) : KeepsUpdates s where
  stored := by
    intro t request started ht hlast
    obtain ⟨request', i, entry, hrequest, hi, hentry, htools⟩ := h.last _ _ hlast
    unfold RegistryState.request at hrequest
    rw [ht, bind_some] at hrequest
    cases hrequest
    exact ⟨i, entry, hi, hentry, htools⟩
  gone := h.gone

/-- No object is lost, or gets another key or other tools. -/
def ObjectsKept (s s' : RegistryState φ) : Prop :=
  ∀ (i : ℕ) (entry : RegistryEntry φ), s.objects[i]? = some entry →
    ∃ entry' : RegistryEntry φ, s'.objects[i]? = some entry' ∧ entry'.key = entry.key ∧
      entry'.tools = entry.tools

theorem objectsKept_of_eq (h : s'.objects = s.objects) : ObjectsKept s s' := by
  intro i entry hentry
  exact ⟨entry, h ▸ hentry, rfl, rfl⟩

variable (request : RegisterRequest φ)

theorem objectsKept_refreshObject (now : ℚ) {i : ℕ}
    {entry : RegistryEntry φ} (hentry : s.objects[i]? = some entry) :
    ObjectsKept s (s.refreshObject request now i entry) := by
  intro j entry' hentry'
  unfold refreshObject
  dsimp only
  by_cases hij : i = j
  · cases hij
    cases hentry.symm.trans hentry'
    refine ⟨_, getElem?_set_self ?_, rfl, rfl⟩
    exact (List.getElem?_eq_some_iff.mp hentry).1
  · exact ⟨entry', by rw [getElem?_set_ne hij, hentry'], rfl, rfl⟩

theorem objectsKept_addObject (now : ℚ) : ObjectsKept s (s.addObject request now) := by
  intro i entry hentry
  refine ⟨entry, ?_, rfl, rfl⟩
  unfold addObject
  dsimp only
  rw [getElem?_append_left (List.getElem?_eq_some_iff.mp hentry).1, hentry]

variable {thread : RegistryThread φ}

theorem ThreadKept.mono (h : s.ThreadKept thread) (hobjects : ObjectsKept s s') :
    s'.ThreadKept thread := by
  unfold ThreadKept at h ⊢
  split at h
  · obtain ⟨entry, hentry, hkey⟩ := h
    obtain ⟨entry', hentry', hkey', -⟩ := hobjects _ _ hentry
    exact ⟨entry', hentry', hkey'.trans hkey⟩
  · obtain ⟨entry, hentry, hkey, htools⟩ := h
    obtain ⟨entry', hentry', hkey', htools'⟩ := hobjects _ _ hentry
    exact ⟨entry', hentry', hkey'.trans hkey, fun hstored => htools' ▸ htools hstored⟩
  · trivial

/-- The threads of one state as those of another: nothing but what one call holds is new. -/
structure ThreadsKept (s s' : RegistryState φ) : Prop where
  thread : ∀ thread ∈ s'.threads, thread ∈ s.threads ∨ s'.ThreadKept thread
  request : ∀ t request, s.request t = some request → s'.request t = some request

theorem threadsKept_of_eq (h : s'.threads = s.threads) : ThreadsKept s s' where
  thread thread hthread := .inl (h ▸ hthread)
  request t request hrequest := by
    unfold RegistryState.request at hrequest ⊢
    rw [h, hrequest]

variable {t : ℕ} {thread' : RegistryThread φ}

theorem threadsKept_goto (ht : s.threads[t]? = some thread)
    (hrequest : thread'.request = thread.request) (hkept : (s.goto t thread').ThreadKept thread') :
    ThreadsKept s (s.goto t thread') where
  thread other hother := by
    obtain hother | rfl := mem_or_eq_of_mem_set hother
    · exact .inl hother
    · exact .inr hkept
  request u request hu := by
    unfold RegistryState.request at hu ⊢
    unfold goto
    dsimp only
    by_cases htu : t = u
    · cases htu
      rw [getElem?_set_self (List.getElem?_eq_some_iff.mp ht).1, bind_some, hrequest]
      rw [ht, bind_some] at hu
      exact hu
    · rw [getElem?_set_ne htu, hu]

theorem threadsKept_spawn (hkept : (s.spawn thread).ThreadKept thread) :
    ThreadsKept s (s.spawn thread) where
  thread other hother := by
    obtain hother | hother := mem_append.mp hother
    · exact .inl hother
    · cases mem_singleton.mp hother
      exact .inr hkept
  request t request ht := by
    obtain ⟨other, hother, hrequest⟩ := bind_eq_some_iff.mp ht
    unfold RegistryState.request spawn
    dsimp only
    rw [getElem?_append_left (List.getElem?_eq_some_iff.mp hother).1, hother, bind_some, hrequest]

variable (h : UpdatesKept s)

include h

theorem UpdatesKept.frame (hobjects : ObjectsKept s s')
    (hthreads : ThreadsKept s s') (hregistrations : s'.registrations = s.registrations)
    (hhistory : s'.history = s.history) : UpdatesKept s' where
  entry key i hi := by
    rw [hregistrations] at hi
    obtain ⟨entry, hentry, hkey⟩ := h.entry key i hi
    obtain ⟨entry', hentry', hkey', -⟩ := hobjects _ _ hentry
    exact ⟨entry', hentry', hkey'.trans hkey⟩
  thread thread hthread := by
    obtain hthread | hkept := hthreads.thread thread hthread
    · exact (h.thread thread hthread).mono hobjects
    · exact hkept
  last key t ht := by
    rw [hhistory] at ht
    obtain ⟨request, i, entry, hrequest, hi, hentry, htools⟩ := h.last key t ht
    obtain ⟨entry', hentry', -, htools'⟩ := hobjects _ _ hentry
    exact ⟨request, i, entry', hthreads.request t request hrequest, hregistrations ▸ hi, hentry',
      htools'.symm ▸ htools⟩
  past := hhistory ▸ h.past
  gone := hhistory ▸ h.gone

theorem UpdatesKept.of_eq (hobjects : s'.objects = s.objects)
    (hregistrations : s'.registrations = s.registrations) (hthreads : s'.threads = s.threads)
    (hhistory : s'.history = s.history) : UpdatesKept s' :=
  h.frame (objectsKept_of_eq hobjects) (threadsKept_of_eq hthreads) hregistrations hhistory

theorem UpdatesKept.goto (ht : s.threads[t]? = some thread)
    (hrequest : thread'.request = thread.request) (hkept : s.ThreadKept thread') :
    UpdatesKept (s.goto t thread') :=
  h.frame (objectsKept_of_eq rfl)
    (threadsKept_goto ht hrequest (hkept.mono (objectsKept_of_eq rfl))) rfl rfl

theorem UpdatesKept.pass (ht : s.threads[t]? = some thread)
    (hpass : Passes s thread thread') : UpdatesKept (s.goto t thread') := by
  cases hpass with
  | read request started =>
    refine h.goto ht rfl ?_
    cases hi : s.registrations.get? request.key with
    | none => trivial
    | some i => exact h.entry _ _ hi
  | refused => exact h.goto ht rfl trivial
  | answered => exact h.goto ht rfl trivial
  | waited => exact h.goto ht rfl trivial
  | foundNone => exact h.goto ht rfl trivial
  | chosen => exact h.goto ht rfl trivial
  | collected => exact h.goto ht rfl trivial
  | overtaken => exact h.goto ht rfl trivial
  | checked => exact h.goto ht rfl trivial
  | again => exact h.goto ht rfl trivial

theorem UpdatesKept.upsert {started i : ℕ} {status : RegisterStatus}
    {request : RegisterRequest φ} {entry : RegistryEntry φ}
    (ht : s.threads[t]? = some (.register request started (.upserting status i)))
    (hentry : s.objects[i]? = some entry)
    (hsame : ∀ i' entry', s.registrations.get? request.key = some i' →
      s.objects[i']? = some entry' → status ≠ .stored → entry'.tools = entry.tools)
    (hgone : s.registrations.get? request.key = none →
      ∀ d ∈ s.history.deregistered, d.1 = request.key → d.2 < started) :
    UpdatesKept (s.upsert t started status i entry).tick := by
  obtain ⟨entry', hentry', hkey, hstored⟩ := h.thread _ (mem_of_getElem? ht)
  cases hentry.symm.trans hentry'
  rw [← hkey] at hsame hgone
  unfold RegistryState.upsert tick
  refine { entry := ?_, thread := ?_, last := ?_, past := ⟨?_, ?_⟩, gone := ?_ }
  · intro key j hj
    dsimp only at hj
    by_cases hkeys : key = entry.key
    · cases hkeys
      rw [Dict.get?_set_self] at hj
      cases hj
      exact ⟨entry, hentry, rfl⟩
    · rw [Dict.get?_set_of_ne _ _ hkeys] at hj
      exact h.entry key j hj
  · intro thread hthread
    exact (h.thread thread hthread).mono (objectsKept_of_eq rfl)
  · intro key u hu
    dsimp only at hu ⊢
    have hbefore : s.history.lastStored key = some u →
        ∃ request i entry, s.request u = some request ∧ s.registrations.get? key = some i ∧
          s.objects[i]? = some entry ∧ request.tools = some entry.tools := h.last key u
    by_cases hkeys : key = entry.key
    · cases hkeys
      rw [Dict.get?_set_self]
      by_cases hstatus : status = .stored
      · -- the push is the last one
        rw [if_pos hstatus, Function.update_self] at hu
        cases hu
        refine ⟨request, i, entry, ?_, rfl, hentry, hstored hstatus⟩
        unfold RegistryState.request
        dsimp only
        rw [ht]
        rfl
      · -- an entry is written back over the tools of the last push
        rw [if_neg hstatus] at hu
        obtain ⟨request', j, old, hrequest, hj, hold, htools⟩ := hbefore hu
        refine ⟨request', i, entry, hrequest, rfl, hentry, ?_⟩
        rw [htools, hsame j old hj hold hstatus]
    · rw [Dict.get?_set_of_ne _ _ hkeys]
      refine hbefore ?_
      split at hu
      · rw [Function.update_of_ne hkeys] at hu
        exact hu
      · exact hu
  · intro d hd
    exact (h.past.1 d hd).trans (Nat.lt_succ_self _)
  · intro a ha
    dsimp only at ha ⊢
    split at ha
    · exact (h.past.2 a ha).trans (Nat.lt_succ_self _)
    · obtain ha | ha := mem_append.mp ha
      · exact (h.past.2 a ha).trans (Nat.lt_succ_self _)
      · cases mem_singleton.mp ha
        exact Nat.lt_succ_self _
  · intro a ha d hd
    dsimp only at ha
    split at ha
    · exact h.gone a ha d hd
    rename_i hcontains
    obtain ha | ha := mem_append.mp ha
    · exact h.gone a ha d hd
    · cases mem_singleton.mp ha
      have hnone : s.registrations.get? entry.key = none := not_isSome_iff_eq_none.mp hcontains
      exact fun hd' _ => hgone hnone d hd hd'

theorem UpdatesKept.scheduleSnapshotWrite : UpdatesKept s.scheduleSnapshotWrite := by
  have hbumped : UpdatesKept { s with snapshotGeneration := s.snapshotGeneration + 1 } :=
    h.of_eq rfl rfl rfl rfl
  unfold RegistryState.scheduleSnapshotWrite
  dsimp only
  split
  · exact hbumped
  · have hpending : UpdatesKept { s with
        snapshotGeneration := s.snapshotGeneration + 1
        snapshotPending := true } := h.of_eq rfl rfl rfl rfl
    exact hpending.frame (objectsKept_of_eq rfl) (threadsKept_spawn trivial) rfl rfl

theorem UpdatesKept.removeTaken (removal : Removal) :
    UpdatesKept { s.removeTaken removal with fileLocked := true } where
  entry key i hi := by
    unfold RegistryState.removeTaken at hi
    dsimp only at hi
    rw [Dict.get?_filter] at hi
    obtain ⟨hi, -⟩ := filter_eq_some_iff.mp hi
    exact h.entry key i hi
  thread thread hthread := (h.thread thread hthread).mono (objectsKept_of_eq rfl)
  last key t ht := by
    unfold RegistryState.removeTaken at ht ⊢
    dsimp only at ht ⊢
    split at ht
    · cases ht
    · rename_i hnot
      obtain ⟨request, i, entry, hrequest, hi, hentry, htools⟩ := h.last key t ht
      refine ⟨request, i, entry, hrequest, ?_, hentry, htools⟩
      rw [hi, any_some] at hnot
      rw [Dict.get?_filter, hi, filter_some, if_pos (by rw [eq_false_of_ne_true hnot]; rfl)]
  past := h.past
  gone := h.gone

theorem UpdatesKept.report {deregistered : List (RegistryKey × ℕ)}
    (hdereg : deregistered = s.history.deregistered ∨ ∃ key,
      deregistered = s.history.deregistered ++ [(key, s.history.time)]) :
    UpdatesKept { s with history := { s.history with deregistered := deregistered } }.tick := by
  have hmem : ∀ d ∈ deregistered, d ∈ s.history.deregistered ∨ d.2 = s.history.time := by
    intro d hd
    obtain rfl | ⟨key, rfl⟩ := hdereg
    · exact .inl hd
    · obtain hd | hd := mem_append.mp hd
      · exact .inl hd
      · cases mem_singleton.mp hd
        exact .inr rfl
  refine { entry := h.entry, thread := ?_, last := h.last, past := ⟨?_, ?_⟩, gone := ?_ }
  · intro thread hthread
    exact (h.thread thread hthread).mono (objectsKept_of_eq rfl)
  · intro d hd
    obtain hd | hd := hmem d hd
    · exact (h.past.1 d hd).trans (Nat.lt_succ_self _)
    · rw [hd]
      exact Nat.lt_succ_self _
  · intro a ha
    exact (h.past.2 a ha).trans (Nat.lt_succ_self _)
  · intro a ha d hd hkey hbefore
    obtain hd | hd := hmem d hd
    · exact h.gone a ha d hd hkey hbefore
    · -- every appearance so far was before this answer
      have := h.past.2 a ha
      omega

theorem UpdatesKept.tick : UpdatesKept s.tick where
  entry := h.entry
  thread thread hthread := (h.thread thread hthread).mono (objectsKept_of_eq rfl)
  last := h.last
  past := ⟨fun d hd => (h.past.1 d hd).trans (Nat.lt_succ_self _),
    fun a ha => (h.past.2 a ha).trans (Nat.lt_succ_self _)⟩
  gone := h.gone

theorem UpdatesKept.step (hmay : MayStore s event)
    (hstep : s.step env normalizeWorkspace event = some s') : UpdatesKept s' := by
  obtain ⟨s₁, hmoves, rfl⟩ := moves_step hstep
  cases hmoves with
  | refuse => exact h.tick
  | start _ hstarts =>
    refine .tick (h.frame (objectsKept_of_eq rfl) (threadsKept_spawn ?_) rfl rfl)
    cases hstarts <;> trivial
  | pass _ _ ht hpass => exact (h.pass ht hpass).tick
  | @refresh t started i request old now _ ht hentry =>
    obtain ⟨entry, hentry', hkey⟩ := h.thread _ (mem_of_getElem? ht)
    have hobjects := objectsKept_refreshObject request now hentry
    have hrefreshed : UpdatesKept (s.refreshObject request now i old) :=
      h.frame hobjects (threadsKept_of_eq rfl) rfl rfl
    obtain ⟨entry', hentry'', hkey', -⟩ := hobjects _ _ hentry'
    exact .tick (hrefreshed.goto ht rfl
      ⟨entry', hentry'', hkey'.trans hkey, fun hstored => by cases hstored⟩)
  | @create t started request existing now _ ht htools =>
    have hadded : UpdatesKept (s.addObject request now) :=
      h.frame (objectsKept_addObject request now) (threadsKept_of_eq rfl) rfl rfl
    exact .tick (hadded.goto ht rfl ⟨_, getElem?_concat_length, rfl, fun _ => htools⟩)
  | upsert _ _ ht hentry =>
    obtain ⟨hsame, hgone⟩ := hmay _ _ _ _ _ ht hentry
    exact (h.upsert ht hentry hsame hgone).goto ht rfl trivial
  | schedule _ _ ht => 
    exact .tick (h.scheduleSnapshotWrite.goto (getElem?_scheduleSnapshotWrite ht) rfl trivial)
  | bump _ _ ht =>
    have hbumped : UpdatesKept { s with snapshotGeneration := s.snapshotGeneration + 1 } :=
      h.of_eq rfl rfl rfl rfl
    exact .tick (hbumped.goto ht rfl trivial)
  | remove _ _ _ ht _ _ => exact .tick ((h.removeTaken _).goto ht rfl trivial)
  | @flush t generation removed removal payload _ _ ht =>
    have hflushed : UpdatesKept { s with
        file := if generation = s.snapshotGeneration then some payload else s.file
        fileLocked := false } := h.of_eq rfl rfl rfl rfl
    exact .tick (hflushed.goto ht rfl trivial)
  | report _ _ ht _ hdereg => exact (h.report hdereg).goto ht rfl trivial
  | clear _ _ ht =>
    have hcleared : UpdatesKept { s with snapshotIdle := false } := h.of_eq rfl rfl rfl rfl
    exact .tick (hcleared.goto ht rfl trivial)
  | @write t payload _ _ ht _ =>
    have hwritten : UpdatesKept { s with file := some payload } := h.of_eq rfl rfl rfl rfl
    exact .tick (hwritten.goto ht rfl trivial)
  | reset _ _ ht =>
    have hreset : UpdatesKept { s with snapshotPending := false } := h.of_eq rfl rfl rfl rfl
    exact .tick (hreset.goto ht rfl trivial)
  | wake _ _ ht =>
    have hwoken : UpdatesKept { s with snapshotIdle := true } := h.of_eq rfl rfl rfl rfl
    exact .tick (hwoken.goto ht rfl trivial)

omit h

theorem updatesKept_start (loaded : List (RegistryEntry φ))
    (file : Option (List (RegistryEntry φ))) : UpdatesKept (start loaded file) where
  entry key i hi := by
    have hmem := Dict.mem_of_get?_writeAll_empty hi
    obtain ⟨⟨entry, j⟩, hentry, heq⟩ := List.mem_map.mp hmem
    cases heq
    exact ⟨entry, mk_mem_zipIdx_iff_getElem?.mp hentry, rfl⟩
  thread thread hthread := nomatch hthread
  last key t ht := nomatch ht
  past := ⟨fun d hd => (nomatch hd), fun a ha => (nomatch ha)⟩
  gone a ha := nomatch ha

/-- In a run whose calls find what they may replace when they store an entry, no update is lost. -/
theorem keepsUpdates_of_mayStore {loaded : List (RegistryEntry φ)}
    {file : Option (List (RegistryEntry φ))} {events : List (RegistryEvent φ)}
    (run : Run (step env normalizeWorkspace) MayStore (start loaded file) events s) :
    KeepsUpdates s :=
  (run.invariant (updatesKept_start loaded file) UpdatesKept.step).keepsUpdates

/-- The entry that a call writes back is still the entry of its key, and a key without an entry has
not been deregistered since the call started. -/
def keepsPlace (s : RegistryState φ) : RegistryEvent φ → Bool
  | .advance t _ _ =>
    match s.threads[t]? with
    | some (.register request started (.upserting status i)) =>
      match s.registrations.get? request.key with
      | some i' => status == .stored || i' == i
      | none => s.history.deregistered.all fun d => d.1 != request.key || decide (d.2 < started)
    | _ => true
  | _ => true

theorem mayStore_of_keepsPlace (h : s.keepsPlace event = true) : MayStore s event := by
  cases event with
  | advance t now timedOut =>
    intro request started status i entry ht hentry
    unfold keepsPlace at h
    dsimp only at h
    rw [ht] at h
    dsimp only at h
    constructor
    · intro i' entry' hi hentry' hstatus
      rw [hi] at h
      obtain hstored | hsame := Bool.or_eq_true_iff.mp h
      · exact absurd (beq_iff_eq.mp hstored) hstatus
      · cases beq_iff_eq.mp hsame
        cases hentry.symm.trans hentry'
        rfl
    · intro hnone d hd hkey
      rw [hnone] at h
      obtain hne | hlt := Bool.or_eq_true_iff.mp (List.all_eq_true.mp h d hd)
      · exact absurd hkey (bne_iff_ne.mp hne)
      · exact of_decide_eq_true hlt
  | register payload => trivial
  | deregister payload => trivial
  | prune now => trivial

/-- A push, a heartbeat of it, and a call that deregisters it. -/
def quietPush : List (RegistryEvent Empty) :=
  .register (layerPayload ['h'] (some [namedTool ['a']])) :: advances 0 5 ++ advances 1 7 ++
    .register (layerPayload firstHash none) :: advances 2 5 ++
      .deregister (layerPayload [] none) :: advances 4 5

theorem quietPush_keeps : ∃ s,
    Run (step plainCatalogEnv some) MayStore (start [] none) quietPush s ∧ KeepsUpdates s := by
  have hsome : (runFrom (step plainCatalogEnv some) (fun s event => s.keepsPlace event = true)
      (start [] none) quietPush).isSome := by decide +kernel
  obtain ⟨s, hs⟩ := isSome_iff_exists.mp hsome
  have run : Run (step plainCatalogEnv some) MayStore (start [] none) quietPush s :=
    .mono (fun s event => mayStore_of_keepsPlace) (.of_runFrom hs)
  exact ⟨s, run, keepsUpdates_of_mayStore run⟩

/-- A heartbeat of the first tools reads the entry, other tools are pushed, and then the heartbeat
stores what it has read. -/
def overtakenPush : List (RegistryEvent Empty) :=
  .register (layerPayload ['h'] (some [namedTool ['a']])) :: advances 0 5 ++
    .register (layerPayload firstHash none) :: advances 2 1 ++
      .register (layerPayload ['h'] (some [namedTool ['b']])) :: advances 3 5 ++ advances 2 2

/-- The push `t` was answered with `STORED` and is the last one of its key, which has a first tool
of another name. -/
def losesPush (s : RegistryState Empty) (t : ℕ) : Bool :=
  match s.threads[t]? with
  | some (.register request _ (.answered .stored)) =>
    s.history.lastStored request.key == some t &&
      (s.registrations.get? request.key).any fun i => (s.objects[i]?).any fun entry =>
        firstName entry.tools != firstName (request.tools.getD [])
  | _ => false

theorem not_keepsUpdates_of_losesPush {s : RegistryState Empty} (h : s.losesPush t = true) :
    ¬ KeepsUpdates s := by
  intro hkeeps
  unfold losesPush at h
  split at h
  · rename_i request started ht
    obtain ⟨hlast, hentry⟩ := Bool.and_eq_true_iff.mp h
    obtain ⟨i, entry, hi, hobject, htools⟩ :=
      hkeeps.stored t request started ht (beq_iff_eq.mp hlast)
    rw [hi, any_some, hobject, any_some, htools] at hentry
    exact bne_iff_ne.mp hentry rfl
  · cases h

/-- The push was answered with `STORED`, and its tools are lost. -/
theorem overtakenPush_lost : ∃ s,
    Run (step plainCatalogEnv some) (fun _ _ => True) (start [] none) overtakenPush s ∧
      ¬ KeepsUpdates s := by
  have hrun : (runFrom (step plainCatalogEnv some) (fun _ _ => True) (start [] none)
      overtakenPush).any (losesPush · 3) = true := by decide +kernel
  obtain ⟨s, hs, hlost⟩ := (Option.any_eq_true ..).mp hrun
  exact ⟨s, .of_runFrom hs, not_keepsUpdates_of_losesPush hlost⟩

end RegistryState

end ClearYourTools.Hook

import ClearYourTools.Misc.Runs
import ClearYourTools.Tools.MasterCatalog

/-!
# What the master catalog shows

The fingerprints of a catalog are read after its tools. So a catalog that is not stale shows the
tools of its sources in every run in which no source changes between the two, no source is found
empty whose tools the catalog still has, and no rebuild starts next to another one.
-/

namespace ClearYourTools.Tools

open Misc CytClient List
open Injection.SessionLog (catalogSourceKey)

variable {φ : Type} {config : MasterConfig φ}

def withoutCount (tool : Record φ) : Record φ := Json.popKey tool tokenCountKey

/-- The tools of all sources, each stamped with its source, in the order of the configuration. -/
def wantedTools (config : MasterConfig φ) (fingerprints : Text → Text) : List (Record φ) :=
  config.sources.flatMap fun source => (loadSourceTools config fingerprints source).map fun tool =>
    withoutCount (Json.set tool catalogSourceKey (.str source))

/-- The tools, up to their token counts, are the wanted ones. -/
def Shows (config : MasterConfig φ) (tools : List (Record φ)) (fingerprints : Text → Text) : Prop :=
  tools.map withoutCount = wantedTools config fingerprints

/-- No more than one rebuild is inside its `try` statement. -/
def AtMostOne (world : World φ) : Prop :=
  (world.threads.countP fun thread => thread.phase.inTry) ≤ 1

/-- A catalog that is not stale shows the tools that the sources have. -/
def FreshShows (config : MasterConfig φ) (world : World φ) : Prop :=
  masterIsStale config world.shared = false →
    Shows config world.shared.state.tools world.shared.fingerprints

variable (count : Record φ → ℕ)

theorem withoutCount_stamp (source : Text) (tool : Record φ) :
    withoutCount (stamp count source tool) =
      withoutCount (Json.set tool catalogSourceKey (.str source)) := by
  unfold stamp withoutCount
  dsimp only
  rw [Json.popKey_set]
  unfold Json.popKey
  rw [filter_filter]
  simp only [Bool.and_self]

/-- The parts of a rebuild that finds every source as it is. -/
def partsOf (config : MasterConfig φ) (fingerprints : Text → Text) (sources : List Text) :
    List (Text × List (Record φ)) :=
  sources.flatMap fun source =>
    if (loadSourceTools config fingerprints source).isEmpty then []
    else [(source, loadSourceTools config fingerprints source)]

theorem shows_buildMasterTools (fingerprints : Text → Text) :
    Shows config (buildMasterTools count (partsOf config fingerprints config.sources))
      fingerprints := by
  unfold Shows wantedTools buildMasterTools partsOf
  rw [flatMap_assoc, map_flatMap]
  refine flatMap_congr fun source _ => ?_
  cases htools : loadSourceTools config fingerprints source with
  | nil => rfl
  | cons tool tools =>
    rw [isEmpty_cons, if_neg Bool.false_ne_true, flatMap_singleton, List.map_map]
    exact map_congr_left fun tool _ => withoutCount_stamp count source tool

variable {fingerprints fingerprints' : Text → Text} {source : Text}

theorem loadSourceTools_congr
    (h : config.used source = true → fingerprints source = fingerprints' source) :
    loadSourceTools config fingerprints source = loadSourceTools config fingerprints' source := by
  unfold loadSourceTools
  split
  · rename_i hused
    rw [h hused]
  · rfl

theorem wantedTools_congr (h : ∀ source ∈ config.sources, config.used source = true →
      fingerprints source = fingerprints' source) :
    wantedTools config fingerprints = wantedTools config fingerprints' :=
  flatMap_congr fun source hsource => by rw [loadSourceTools_congr (h source hsource)]

theorem partsOf_congr {sources : List Text} (h : ∀ source ∈ sources, config.used source = true →
      fingerprints source = fingerprints' source) :
    partsOf config fingerprints sources = partsOf config fingerprints' sources :=
  flatMap_congr fun source hsource => by rw [loadSourceTools_congr (h source hsource)]

theorem eq_of_currentSourceFingerprints_eq (h : currentSourceFingerprints config fingerprints =
      currentSourceFingerprints config fingerprints') (hsource : source ∈ config.sources)
    (hused : config.used source = true) : fingerprints source = fingerprints' source := by
  have hitem := map_inj_left.mp h source (mem_filter.mpr ⟨hsource, hused⟩)
  exact (Prod.mk.inj hitem).2

/-- A rebuild at this point has loaded the source, and is still to read its fingerprint again. -/
def hasLoaded (source : Text) : Phase φ → Bool
  | .load loading => !loading.pending.contains source
  | .rereadFingerprints _ => true
  | _ => false

/-- The next step of a thread neither starts a rebuild next to another one nor keeps tools of a
source that it finds empty. -/
def CalmStep (config : MasterConfig φ) (shared : Shared φ) : Phase φ → Prop
  | .enter blocking => ¬ (blocking = true ∧ shared.inProgress = true ∧ shared.waiter = false)
  | .load loading => ∀ source ∈ loading.pending.head?,
      keepsPrior config shared.fingerprints loading source = false
  | _ => True

/-- The condition on the steps of a run. A source that is used changes only where no rebuild has
loaded it and is still to read its fingerprint again. -/
def Calm (config : MasterConfig φ) (world : World φ) : Action φ → Prop
  | .update source fingerprint =>
    fingerprint = world.shared.fingerprints source ∨ ¬ (source ∈ config.sources ∧
      config.used source = true) ∨ ∀ thread ∈ world.threads, hasLoaded source thread.phase = false
  | .step index _ => ∀ thread ∈ world.threads[index]?, CalmStep config world.shared thread.phase
  | _ => True

/-- What the variables of a thread hold. -/
def PhaseHolds (config : MasterConfig φ) (fingerprints : Text → Text) : Phase φ → Prop
  | .load loading => ∃ done, config.sources = done ++ loading.pending ∧
      loading.orderedParts = partsOf config fingerprints done
  | .rereadFingerprints merged => Shows config merged fingerprints
  | .apply merged read => ∃ past, read = currentSourceFingerprints config past ∧
      Shows config merged past
  | _ => True

/-- The catalog is empty, or shows its sources as they were under its fingerprints. -/
def StateHolds (config : MasterConfig φ) (state : MasterCatalogState φ) : Prop :=
  state.tools = [] ∨ ∃ past, state.sourceFingerprints = currentSourceFingerprints config past ∧
    Shows config state.tools past

structure MasterInv (config : MasterConfig φ) (world : World φ) : Prop where
  one : (world.threads.countP fun thread => thread.phase.inTry) = world.shared.inProgress.toNat
  state : StateHolds config world.shared.state
  phases : ∀ thread ∈ world.threads, PhaseHolds config world.shared.fingerprints thread.phase

theorem masterInv_start (fingerprints : Text → Text) :
    MasterInv config (World.start fingerprints) where
  one := rfl
  state := .inl rfl
  phases _ h := by cases h

variable {world : World φ}

theorem MasterInv.atMostOne (h : MasterInv config world) : AtMostOne world := by
  unfold AtMostOne
  rw [h.one]
  exact Bool.toNat_le _

theorem MasterInv.freshShows (h : MasterInv config world) : FreshShows config world := by
  intro hfresh
  unfold masterIsStale at hfresh
  obtain ⟨hempty, hsame⟩ := Bool.or_eq_false_iff.mp hfresh
  rcases h.state with hnil | ⟨past, hread, hshows⟩
  · rw [hnil] at hempty
    cases hempty
  have hequal : currentSourceFingerprints config past =
      currentSourceFingerprints config world.shared.fingerprints := by
    rw [← hread]
    exact bne_eq_false_iff_eq.mp hsame
  unfold Shows at hshows ⊢
  rw [hshows]
  exact wantedTools_congr fun source hsource hused =>
    eq_of_currentSourceFingerprints_eq hequal hsource hused

theorem PhaseHolds.update {phase : Phase φ} (h : PhaseHolds config fingerprints phase)
    {fingerprint : Text} (hcalm : ¬ (source ∈ config.sources ∧ config.used source = true) ∨
      hasLoaded source phase = false) :
    PhaseHolds config (setFingerprint fingerprints source fingerprint) phase := by
  have hsame : ∀ s, s ≠ source → fingerprints s = setFingerprint fingerprints source fingerprint s :=
    fun s hs => (if_neg hs).symm
  cases phase with
  | load loading =>
    obtain ⟨done, hsplit, hparts⟩ := h
    refine ⟨done, hsplit, hparts.trans (partsOf_congr fun s hs hused => hsame s ?_)⟩
    rintro rfl
    have hmem : s ∈ config.sources := hsplit ▸ mem_append_left _ hs
    rcases hcalm with hunused | hpending
    · exact hunused ⟨hmem, hused⟩
    · have hboth : s ∈ loading.pending := by simpa [hasLoaded] using hpending
      have hnodup := config.distinct
      rw [hsplit] at hnodup
      exact (nodup_append.mp hnodup).2.2 s hs s hboth rfl
  | rereadFingerprints merged =>
    have hshows : Shows config merged fingerprints := h
    refine hshows.trans (wantedTools_congr fun s hs hused => hsame s ?_)
    rintro rfl
    rcases hcalm with hunused | hpending
    · exact hunused ⟨hs, hused⟩
    · cases hpending
  | apply merged read => exact h
  | _ => trivial

/-- What a step of a thread does to the shared state, and what the thread holds after it. -/
structure Advances (config : MasterConfig φ) (shared : Shared φ) (thread : Thread φ)
    (next : Shared φ × Thread φ) : Prop where
  fingerprints : next.1.fingerprints = shared.fingerprints
  state : StateHolds config next.1.state
  phase : PhaseHolds config shared.fingerprints next.2.phase
  balance : next.2.phase.inTry.toNat + shared.inProgress.toNat =
    thread.phase.inTry.toNat + next.1.inProgress.toNat

theorem resume_inTry (caller : Caller) : (resume caller : Thread φ).phase.inTry = false := by
  cases caller <;> rfl

theorem resume_holds (fingerprints : Text → Text) (caller : Caller) :
    PhaseHolds config fingerprints (resume caller : Thread φ).phase := by
  cases caller <;> trivial

variable {shared : Shared φ} {thread : Thread φ}

theorem Advances.of_same {next : Thread φ} (hstate : StateHolds config shared.state)
    (hphase : PhaseHolds config shared.fingerprints next.phase)
    (htry : next.phase.inTry = thread.phase.inTry) :
    Advances config shared thread (shared, next) where
  fingerprints := rfl
  state := hstate
  phase := hphase
  balance := by rw [htry]

theorem Advances.of_resume (hstate : StateHolds config shared.state)
    (htry : thread.phase.inTry = false) (caller : Caller) :
    Advances config shared thread (shared, resume caller) :=
  .of_same hstate (resume_holds _ _) ((resume_inTry caller).trans htry.symm)

theorem partOf_eq {loading : Loading φ} (h : keepsPrior config fingerprints loading source = false) :
    partOf config fingerprints loading source = partsOf config fingerprints [source] := by
  unfold partOf partsOf
  rw [h, if_neg Bool.false_ne_true, flatMap_singleton]

theorem advances_load {caller : Caller} {loading : Loading φ}
    (hstate : StateHolds config shared.state)
    (hphase : PhaseHolds config shared.fingerprints (.load loading))
    (hcalm : CalmStep config shared (.load loading)) :
    Advances config shared ⟨caller, .load loading⟩
      (advance config count shared ⟨caller, .load loading⟩) := by
  obtain ⟨done, hsplit, hparts⟩ := hphase
  unfold advance
  dsimp only
  cases hpending : loading.pending with
  | nil =>
    rw [hpending, List.append_nil] at hsplit
    refine .of_same hstate ?_ rfl
    rw [hparts, ← hsplit]
    exact shows_buildMasterTools count shared.fingerprints
  | cons source pending =>
    refine .of_same hstate ⟨done ++ [source], ?_, ?_⟩ rfl
    · rw [hsplit, hpending, List.append_assoc]
      rfl
    · have hkeeps := hcalm source (by rw [hpending]; rfl)
      rw [partOf_eq hkeeps, hparts]
      unfold partsOf
      rw [flatMap_append]

theorem advances (hstate : StateHolds config shared.state)
    (hphase : PhaseHolds config shared.fingerprints thread.phase)
    (hcalm : CalmStep config shared thread.phase)
    (hmarked : thread.phase.inTry = true → shared.inProgress = true) :
    Advances config shared thread (advance config count shared thread) := by
  obtain ⟨caller, phase⟩ := thread
  cases phase with
  | enter blocking =>
    unfold advance
    dsimp only
    split
    · rename_i hfree
      exact ⟨rfl, hstate, trivial, by rw [hfree]; rfl⟩
    split
    · exact .of_resume hstate rfl caller
    split
    · exact .of_same hstate trivial rfl
    · -- a second rebuild would start
      rename_i hbusy hblocking hwaiter
      exact absurd ⟨Bool.eq_true_of_not_eq_false hblocking, Bool.eq_true_of_not_eq_false hbusy,
        Bool.eq_false_iff.mpr hwaiter⟩ hcalm
  | joinWaiters =>
    unfold advance
    dsimp only
    split
    · exact .of_resume hstate rfl caller
    · exact ⟨rfl, hstate, trivial, rfl⟩
  | waiting => exact .of_resume hstate rfl caller
  | readPriorTools blocking => exact .of_same hstate trivial rfl
  | readPriorFingerprints blocking priorTools => exact .of_same hstate trivial rfl
  | readFingerprints blocking priorTools priorFingerprints =>
    exact .of_same hstate ⟨[], rfl, rfl⟩ rfl
  | load loading => exact advances_load count hstate hphase hcalm
  | rereadFingerprints merged => exact .of_same hstate ⟨shared.fingerprints, rfl, hphase⟩ rfl
  | apply merged read =>
    obtain ⟨past, hread, hshows⟩ := hphase
    exact ⟨rfl, .inr ⟨past, hread, hshows⟩, trivial, rfl⟩
  | finish =>
    refine ⟨rfl, hstate, resume_holds _ _, ?_⟩
    have hbusy : shared.inProgress = true := hmarked rfl
    have hout : (resume caller : Thread φ).phase.inTry = false := resume_inTry caller
    change (resume caller : Thread φ).phase.inTry.toNat + shared.inProgress.toNat = 1
    rw [hout, hbusy]
    rfl
  | getSnapshot | getHydrate | getSnapshotAgain | getRebuilt | getInProgress =>
    unfold advance
    dsimp only
    split
    · exact .of_same hstate trivial rfl
    · exact .of_same hstate trivial rfl
  | returned => exact .of_same hstate trivial rfl

theorem countP_set_add {α : Type} (p : α → Bool) {l : List α} {index : ℕ} {old : α}
    (h : l[index]? = some old) (new : α) :
    (l.set index new).countP p + (p old).toNat = l.countP p + (p new).toNat := by
  obtain ⟨hindex, rfl⟩ := List.getElem?_eq_some_iff.mp h
  have hcount : ∀ b : Bool, (if b = true then 1 else 0) = b.toNat := by
    intro b
    cases b <;> rfl
  have hle : (if p l[index] = true then 1 else 0) ≤ l.countP p := boole_getElem_le_countP hindex
  rw [countP_set hindex, hcount, hcount]
  rw [hcount] at hle
  omega

theorem MasterInv.marked (h : MasterInv config world) (hthread : thread ∈ world.threads)
    (htry : thread.phase.inTry = true) : world.shared.inProgress = true := by
  have hpos : 0 < world.threads.countP fun thread => thread.phase.inTry :=
    countP_pos_iff.mpr ⟨thread, hthread, htry⟩
  rw [h.one] at hpos
  cases hbusy : world.shared.inProgress with
  | true => rfl
  | false =>
    rw [hbusy] at hpos
    cases hpos

theorem MasterInv.call (h : MasterInv config world) (htry : thread.phase.inTry = false)
    (hphase : PhaseHolds config world.shared.fingerprints thread.phase) :
    MasterInv config { world with threads := world.threads ++ [thread] } where
  one := by
    rw [countP_append, countP_singleton, htry, h.one]
    rfl
  state := h.state
  phases := by
    intro t ht
    rcases mem_append.mp ht with ht | ht
    · exact h.phases t ht
    · rw [mem_singleton.mp ht]
      exact hphase

theorem MasterInv.step {world' : World φ} {action : Action φ} (h : MasterInv config world)
    (hcalm : Calm config world action) (hstep : world.step config action = some world') :
    MasterInv config world' := by
  cases action with
  | update source fingerprint =>
    cases hstep
    rcases hcalm with hsame | hcalm
    · have hunchanged : setFingerprint world.shared.fingerprints source fingerprint =
          world.shared.fingerprints := by
        funext s
        unfold setFingerprint
        split
        · rename_i hs
          rw [hs, hsame]
        · rfl
      rw [hunchanged]
      exact h
    · refine ⟨h.one, h.state, fun thread hthread => (h.phases thread hthread).update ?_⟩
      exact hcalm.imp_right fun hnone => hnone thread hthread
  | callRebuild blocking =>
    cases hstep
    exact h.call rfl trivial
  | callGet blocking =>
    unfold World.step at hstep
    dsimp only at hstep
    split at hstep
    · cases hstep
      exact h
    · cases hstep
      exact h.call rfl trivial
  | step index count =>
    obtain ⟨thread, hthread, rfl⟩ := Option.map_eq_some_iff.mp hstep
    have hmem := mem_of_getElem? hthread
    have hnext := advances count h.state (h.phases thread hmem)
      (hcalm thread hthread) (h.marked hmem)
    constructor
    · have hset := countP_set_add (fun thread => thread.phase.inTry) hthread
        (advance config count world.shared thread).2
      have hone := h.one
      have hbalance := hnext.balance
      dsimp only at hset ⊢
      omega
    · exact hnext.state
    · intro t ht
      rw [hnext.fingerprints]
      rcases mem_or_eq_of_mem_set ht with ht | rfl
      · exact h.phases t ht
      · exact hnext.phase
  | raise index =>
    obtain ⟨thread, hthread, hraise⟩ := Option.bind_eq_some_iff.mp hstep
    split at hraise
    · rename_i htry
      cases hraise
      constructor
      · have hset := countP_set_add (fun thread => thread.phase.inTry) hthread
          (⟨.direct, .finish⟩ : Thread φ)
        have hone := h.one
        dsimp only at hset ⊢
        rw [htry] at hset
        have hfinish : (Phase.finish : Phase φ).inTry = true := rfl
        rw [hfinish] at hset
        omega
      · exact h.state
      · intro t ht
        rcases mem_or_eq_of_mem_set ht with ht | rfl
        · exact h.phases t ht
        · trivial
    · cases hraise

/-- In every run of calm steps, in every state that it gets to, at most one rebuild is running, and
a catalog that is not stale shows the tools that its sources have. -/
theorem masterCatalog_fresh {fingerprints : Text → Text} {actions : List (Action φ)}
    {world : World φ} (run : Run (World.step config) (Calm config) (World.start fingerprints)
      actions world) : AtMostOne world ∧ FreshShows config world := by
  have hinv : MasterInv config world :=
    run.invariant (masterInv_start fingerprints) fun h hcalm hstep => h.step hcalm hstep
  exact ⟨hinv.atMostOne, hinv.freshShows⟩

/-- The executor as the only source, with a tool for each character of its fingerprint. -/
def executorOnly : MasterConfig Empty where
  sources := ["executor".toList]
  distinct := List.nodup_singleton _
  used _ := true
  toolsAt _ fingerprint := fingerprint.map fun c => [("name", .str [c])]

def firstStep : Action Empty := .step 0 fun _ => 0

/-- The first thread up to the second read of the fingerprints. -/
def rebuildLoaded : List (Action Empty) :=
  [.callRebuild false, firstStep, firstStep, firstStep, firstStep, firstStep, firstStep]

theorem calm_step {index : ℕ} {count : Record φ → ℕ} (hthread : world.threads[index]? = some thread)
    (hcalm : CalmStep config world.shared thread.phase) :
    Calm config world (.step index count) := by
  intro t ht
  rw [hthread] at ht
  cases ht
  exact hcalm

theorem rebuildLoaded_run : ∃ world, Run (World.step executorOnly) (Calm executorOnly)
    (World.start fun _ => "a") rebuildLoaded world ∧
    ∃ tool, world = ⟨⟨fun _ => "a", ⟨[], []⟩, true, false⟩,
      [⟨.direct, .rereadFingerprints [tool]⟩]⟩ := by
  have hload : CalmStep executorOnly ⟨fun _ => "a", ⟨[], []⟩, true, false⟩
      (.load ⟨false, [], [], [("executor".toList, "a".toList)], ["executor".toList], []⟩) := by
    rintro source ⟨⟩
    rfl
  refine ⟨_, .snoc (.snoc (.snoc (.snoc (.snoc (.snoc (.snoc .nil trivial rfl)
    (calm_step rfl ?_) rfl) (calm_step rfl ?_) rfl) (calm_step rfl ?_) rfl) (calm_step rfl ?_) rfl)
    (calm_step rfl ?_) rfl) (calm_step rfl ?_) rfl, _, rfl⟩
  · exact fun h => Bool.false_ne_true h.1
  · trivial
  · trivial
  · trivial
  · exact hload
  · intro source hsource
    cases hsource

/-- The rest of a rebuild: the second read of the fingerprints, the assignment and the end. -/
def rebuildStored : List (Action Empty) := [firstStep, firstStep, firstStep]

theorem rebuildStored_run : ∃ world, Run (World.step executorOnly) (Calm executorOnly)
    (World.start fun _ => "a") (rebuildLoaded ++ rebuildStored) world ∧
    world.shared.state.tools ≠ [] := by
  obtain ⟨_, run, tool, rfl⟩ := rebuildLoaded_run
  refine ⟨_, .snoc (.snoc (.snoc run (calm_step rfl ?_) rfl) (calm_step rfl ?_) rfl)
    (calm_step rfl ?_) rfl, cons_ne_nil _ _⟩
  · trivial
  · trivial
  · trivial

theorem masterCatalog_fresh_executorOnly : ∃ world,
    Run (World.step executorOnly) (Calm executorOnly) (World.start fun _ => "a")
      (rebuildLoaded ++ rebuildStored) world ∧
    world.shared.state.tools ≠ [] ∧ AtMostOne world ∧ FreshShows executorOnly world := by
  obtain ⟨world, run, htools⟩ := rebuildStored_run
  exact ⟨world, run, htools, masterCatalog_fresh run⟩

/-- A source that changes between its load and the second read of the fingerprints leaves a catalog
of its old tools that is not stale. -/
theorem lateUpdate_fresh : ∃ world, Run (World.step executorOnly) (fun _ _ => True)
    (World.start fun _ => "a")
    (rebuildLoaded ++ [.update "executor" "ab"] ++ rebuildStored) world ∧
    (∀ thread ∈ world.threads, thread.phase.inTry = false) ∧
    masterIsStale executorOnly world.shared = false ∧
    ¬ Shows executorOnly world.shared.state.tools world.shared.fingerprints := by
  obtain ⟨_, run, tool, rfl⟩ := rebuildLoaded_run
  refine ⟨_, .snoc (.snoc (.snoc (.snoc (run.mono fun _ _ _ => trivial) trivial rfl) trivial rfl)
    trivial rfl) trivial rfl, ?_, ?_, fun h => ?_⟩
  · rintro thread (_ | ⟨_, ⟨⟩⟩)
    rfl
  · rfl
  · have hlength := congrArg List.length h
    cases hlength

end ClearYourTools.Tools

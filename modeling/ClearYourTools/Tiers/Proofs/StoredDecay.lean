import ClearYourTools.Tiers.Store

/-!
# Stored decay and runtime decay

`apply_stat_decay` decays the rows of the store, `EffectiveStats.decay` a loaded entity. The two
agree on the rows that have no epoch counters and a factor below one.
-/

namespace ClearYourTools.Tiers

open Misc List Option

/-- `2.0 ** x` overflows for a large exponent only. -/
structure FloatPow extends FloatOps where
  defined : ∀ x, x ≤ 0 → (pow2 x).isSome = true

namespace TierStore

/-- The rows of `entity_stats` of an entity. -/
def isRowOf (projectId : Int) (key : EntityKey) (row : StatsKey) : Bool :=
  row.projectId == projectId && row.entity == key

variable (store : TierStore)

/-- The row of `entity_stats` that counts for an entity. -/
def lastRow (projectId : Int) (key : EntityKey) : Option (StatsKey × EffectiveStats) :=
  (store.entityStats.entries.filter fun e => isRowOf projectId key e.1).getLast?

variable (projectId : Int)
variable (key : EntityKey)

theorem statsByEntity_get? :
    (store.statsByEntity projectId).get? key =
      (store.lastRow projectId key).map fun e => (e.1.pipeline, e.2) := by
  have hrows : ∀ e : StatsKey × EffectiveStats,
      (decide (e.1.entity = key) && e.1.projectId == projectId) = isRowOf projectId key e.1 := by
    intro e
    rw [isRowOf, Bool.and_comm, beq_eq_decide (a := e.1.entity)]
  rw [statsByEntity, Dict.get?_writeAll, Dict.get?_empty, or_none, List.filter_map,
    List.filter_filter, getLast?_map, Option.map_map, lastRow]
  simp only [Function.comp_def, hrows]

theorem loadEntityStates_get? :
    (store.loadEntityStates projectId).get? key =
      (store.entityTier.get? (projectId, key)).map fun row =>
        loadedState key row ((store.statsByEntity projectId).get? key) := by
  have hkeys : ((store.entityTier.entries.filter fun e => e.1.1 == projectId).map
      fun e => e.1.2).Nodup := by
    have hnodup : ((store.entityTier.entries.filter fun e => e.1.1 == projectId).map
        Prod.fst).Nodup :=
      (filter_sublist.map Prod.fst).nodup store.entityTier.nodup
    have hmap : ((store.entityTier.entries.filter fun e => e.1.1 == projectId).map
        fun e => e.1.2) =
        ((store.entityTier.entries.filter fun e => e.1.1 == projectId).map Prod.fst).map
          Prod.snd := by
      rw [List.map_map]
      rfl
    rw [hmap]
    refine hnodup.map_on ?_
    intro a ha b hb heq
    obtain ⟨e, he, rfl⟩ := List.mem_map.mp ha
    obtain ⟨f, hf, rfl⟩ := List.mem_map.mp hb
    have hep := beq_iff_eq.mp (mem_filter.mp he).2
    have hfp := beq_iff_eq.mp (mem_filter.mp hf).2
    exact Prod.ext (hep.trans hfp.symm) heq
  cases hrow : store.entityTier.get? (projectId, key) with
  | none =>
    rw [loadEntityStates, Dict.get?_writeAll_of_notMem, Dict.get?_empty, map_none]
    intro hmem
    rw [List.map_map] at hmem
    obtain ⟨e, he, rfl⟩ := List.mem_map.mp hmem
    have hproject := beq_iff_eq.mp (mem_filter.mp he).2
    have hfound := Dict.get?_of_mem_entries (mem_filter.mp he).1
    have hkey : e.1 = (projectId, e.1.2) := Prod.ext hproject rfl
    rw [hkey] at hfound
    exact some_ne_none _ (hfound.symm.trans hrow)
  | some row =>
    have hmem : ((projectId, key), row) ∈
        store.entityTier.entries.filter fun e => e.1.1 == projectId :=
      mem_filter.mpr ⟨Dict.mem_entries_of_get? hrow, beq_self_eq_true projectId⟩
    have hwrite := List.mem_map_of_mem (f := fun e : (Int × EntityKey) × TierRow =>
      (e.1.2, loadedState e.1.2 e.2 ((store.statsByEntity projectId).get? e.1.2))) hmem
    refine Dict.get?_writeAll_of_mem Dict.empty ?_ hwrite
    rw [List.map_map]
    exact hkeys

theorem loadStats_eq :
    store.loadStats projectId key = (store.entityTier.get? (projectId, key)).map fun _ =>
      ((store.lastRow projectId key).map Prod.snd).getD .init := by
  rw [loadStats, loadEntityStates_get?, statsByEntity_get?, Option.map_map]
  congr 1
  funext row
  cases store.lastRow projectId key with
  | none => rfl
  | some e => rfl

variable (ops : FloatPow)

theorem decayStatRow_defined (halfLife : ℚ) (stats : EffectiveStats) :
    (decayStatRow ops.toFloatOps halfLife stats).isSome = true := by
  rw [decayStatRow]
  split
  · rfl
  rename_i hdue
  rw [isSome_map, decayFactor]
  split
  · rfl
  rename_i hpos
  rw [not_or, not_le, not_le] at hpos
  refine ops.defined _ ?_
  refine div_nonpos_of_nonpos_of_nonneg ?_ (le_of_lt hpos.2)
  have hsince : (0 : ℚ) ≤ stats.requestsSinceDecay := by
    exact_mod_cast le_of_lt hpos.1
  exact neg_nonpos.mpr hsince

theorem applyStatDecay_ends (halfLife : ℚ) (store : TierStore) :
    (store.applyStatDecay ops.toFloatOps halfLife).2 = true :=
  (Dict.mapUntil_snd _ _).mpr fun e _ => decayStatRow_defined ops halfLife e.2

theorem applyStatDecay_lastRow (halfLife : ℚ) (store : TierStore)
    (projectId : Int) (key : EntityKey) :
    (store.applyStatDecay ops.toFloatOps halfLife).1.lastRow projectId key =
      (store.lastRow projectId key).map fun e =>
        (e.1, (decayStatRow ops.toFloatOps halfLife e.2).getD e.2) := by
  have hentries := Dict.entries_mapUntil_of_true store.entityStats
    (decayStatRow ops.toFloatOps halfLife) (applyStatDecay_ends ops halfLife store)
  rw [lastRow, applyStatDecay]
  dsimp only
  rw [hentries, List.filter_map, getLast?_map]
  rfl

theorem storedDecay_eq (halfLife : ℚ) (store : TierStore) (projectId : Int) (key : EntityKey) :
    store.storedDecay ops.toFloatOps halfLife projectId key =
      (store.loadStats projectId key).bind (decayStatRow ops.toFloatOps halfLife) := by
  have hinit : decayStatRow ops.toFloatOps halfLife .init = some .init := rfl
  rw [storedDecay, if_pos (applyStatDecay_ends ops halfLife store), loadStats_eq, loadStats_eq,
    applyStatDecay_lastRow, Option.map_map]
  cases htier : store.entityTier.get? (projectId, key) with
  | none =>
    have htier' : (store.applyStatDecay ops.toFloatOps halfLife).1.entityTier.get?
        (projectId, key) = none := htier
    rw [htier']
    rfl
  | some row =>
    have htier' : (store.applyStatDecay ops.toFloatOps halfLife).1.entityTier.get?
        (projectId, key) = some row := htier
    rw [htier', map_some, map_some, bind_some]
    cases store.lastRow projectId key with
    | none => exact hinit.symm
    | some e =>
      obtain ⟨stats, hstats⟩ :=
        isSome_iff_exists.mp (decayStatRow_defined ops halfLife e.2)
      show some ((decayStatRow ops.toFloatOps halfLife e.2).getD e.2) =
        decayStatRow ops.toFloatOps halfLife e.2
      rw [hstats]
      rfl

theorem loadStats_upsertEntityState {isEphemeralSkillPath : Text → Bool} {store : TierStore}
    {projectId : Int} {key : EntityKey} {loaded : LoadedState}
    (hloaded : (store.loadEntityStates projectId).get? key = some loaded)
    (hsaved : isEphemeralSkillPath key.2 = false) (stats : EffectiveStats) :
    (store.upsertEntityState isEphemeralSkillPath projectId
      { loaded with state := { loaded.state with stats := stats } }).loadStats projectId key =
        some stats := by
  obtain ⟨kind, entityId⟩ := key
  rw [loadEntityStates_get?] at hloaded
  obtain ⟨row, -, rfl⟩ := map_eq_some_iff.mp hloaded
  have hkey : ∀ pipeline,
      isRowOf projectId (kind, entityId) ⟨projectId, (kind, entityId), pipeline⟩ = true := by
    intro pipeline
    rw [isRowOf, beq_self_eq_true, beq_self_eq_true, Bool.and_self]
  rw [loadStats_eq, upsertEntityState]
  simp only [loadedState, hsaved, Bool.false_eq_true, if_false]
  rw [Dict.get?_set_self, map_some, lastRow]
  -- the row is written where it was read
  have hlast := Dict.getLast?_filter_setEntries (v := stats)
    (hkey ((((store.statsByEntity projectId).get? (kind, entityId)).map Prod.fst).getD "default"))
    store.entityStats.nodup (by
      intro e he
      have hrow := (mem_filter.mp (mem_of_getLast? he)).2
      rw [isRowOf, Bool.and_eq_true, beq_iff_eq, beq_iff_eq] at hrow
      rw [statsByEntity_get?, lastRow, he, ← hrow.1, ← hrow.2]
      rfl)
  rw [Dict.entries_set, hlast]
  rfl

variable (isEphemeralSkillPath : Text → Bool)

theorem runtimeDecay_eq (ops : FloatOps) (halfLife : ℚ)
    (store : TierStore) (projectId : Int) (key : EntityKey) :
    store.runtimeDecay isEphemeralSkillPath ops halfLife projectId key =
      (store.loadStats projectId key).bind fun stats =>
        (stats.decay ops halfLife).map fun decayed =>
          if isEphemeralSkillPath key.2 then stats else decayed := by
  rw [runtimeDecay]
  cases hloaded : (store.loadEntityStates projectId).get? key with
  | none =>
    rw [loadStats, hloaded]
    rfl
  | some loaded =>
    have hstats : store.loadStats projectId key = some loaded.state.stats := by
      rw [loadStats, hloaded]
      rfl
    rw [hstats, bind_some]
    cases hdecay : loaded.state.stats.decay ops halfLife with
    | none =>
      dsimp only
      rw [hdecay]
      rfl
    | some stats =>
      dsimp only
      rw [hdecay, map_some]
      dsimp only
      cases hephemeral : isEphemeralSkillPath key.2 with
      | false => rw [loadStats_upsertEntityState hloaded hephemeral, if_neg Bool.false_ne_true]
      | true =>
        rw [loadEntityStates_get?] at hloaded
        obtain ⟨row, -, rfl⟩ := map_eq_some_iff.mp hloaded
        rw [upsertEntityState]
        simp only [loadedState, hephemeral, if_true]
        exact hstats

/-- A row that is due decays alike in the store and at runtime: the half-life is positive, the
factor is below one and the epoch counters are empty. The row of an ephemeral path is never saved
again; it is to be one that the store passes over too, where the runtime does not raise. -/
def DecaysAlike (isEphemeralSkillPath : Text → Bool) (ops : FloatOps) (halfLife : ℚ)
    (entityId : Text) (stats : EffectiveStats) : Prop :=
  0 < stats.requestsSinceDecay →
    ∃ factor, ops.pow2 (-stats.requestsSinceDecay / halfLife) = some factor ∧
      if isEphemeralSkillPath entityId then halfLife ≠ 0 ∧ (0 < halfLife → 1 ≤ factor)
      else 0 < halfLife ∧ factor < 1 ∧ stats.epochUsed = 0 ∧ stats.epochAttempts = 0

variable {ops : FloatOps} {halfLife : ℚ} {stats : EffectiveStats}

theorem decay_due (hdue : 0 < stats.requestsSinceDecay) {decayed : EffectiveStats}
    (hdecay : stats.decay ops halfLife = some decayed) :
    halfLife ≠ 0 ∧ ∃ factor, ops.pow2 (-stats.requestsSinceDecay / halfLife) = some factor ∧
      decayed.requestsSinceDecay = 0 ∧ decayed.epochUsed = stats.epochUsed ∧
        decayed.epochAttempts = stats.epochAttempts := by
  rw [EffectiveStats.decay, if_neg (not_le.mpr hdue)] at hdecay
  by_cases hzero : halfLife = 0
  · rw [if_pos hzero] at hdecay
    cases hdecay
  · rw [if_neg hzero] at hdecay
    obtain ⟨factor, hfactor, rfl⟩ := map_eq_some_iff.mp hdecay
    exact ⟨hzero, factor, hfactor, rfl, rfl, rfl⟩

theorem decayStatRow_due (hdue : 0 < stats.requestsSinceDecay) (hpos : 0 < halfLife) :
    decayStatRow ops halfLife stats =
      (ops.pow2 (-stats.requestsSinceDecay / halfLife)).bind fun factor =>
        if 1 ≤ factor then some stats
        else
          (stats.decay ops halfLife).map fun decayed =>
            { decayed with
              epochUsed := stats.epochUsed * factor
              epochAttempts := stats.epochAttempts * factor } := by
  have hboth : ¬ (stats.requestsSinceDecay ≤ 0 ∨ halfLife ≤ 0) :=
    not_or.mpr ⟨not_le.mpr hdue, not_le.mpr hpos⟩
  rw [decayStatRow, if_neg (not_le.mpr hdue), decayFactor, if_neg hboth, EffectiveStats.decay,
    if_neg (not_le.mpr hdue), if_neg (ne_of_gt hpos)]
  cases ops.pow2 (-stats.requestsSinceDecay / halfLife) with
  | none => rfl
  | some factor =>
    rw [map_some, map_some, bind_some]
    split
    · rfl
    · rfl

theorem decayStatRow_of_nonpos (hpos : halfLife ≤ 0) (stats : EffectiveStats) :
    decayStatRow ops halfLife stats = some stats := by
  rw [decayStatRow]
  split
  · rfl
  · rw [decayFactor, if_pos (Or.inr hpos), map_some, if_pos (le_refl 1)]

theorem decay_of_factor {factor : ℚ} (hdue : 0 < stats.requestsSinceDecay) (hzero : halfLife ≠ 0)
    (hfactor : ops.pow2 (-stats.requestsSinceDecay / halfLife) = some factor) :
    ∃ decayed, stats.decay ops halfLife = some decayed := by
  rw [EffectiveStats.decay, if_neg (not_le.mpr hdue), if_neg hzero, hfactor]
  exact ⟨_, rfl⟩

section

variable (isEphemeralSkillPath : Text → Bool) (ops : FloatPow) (halfLife : ℚ) (entityId : Text)
  (stats : EffectiveStats)

theorem decaysAlike_of_eq (heq : decayStatRow ops.toFloatOps halfLife stats =
      (stats.decay ops.toFloatOps halfLife).map fun decayed =>
        if isEphemeralSkillPath entityId then stats else decayed) :
    DecaysAlike isEphemeralSkillPath ops.toFloatOps halfLife entityId stats := by
  intro hdue
  obtain ⟨row, hrow⟩ := isSome_iff_exists.mp (decayStatRow_defined ops halfLife stats)
  rw [hrow] at heq
  obtain ⟨decayed, hdecay, hsaved⟩ := map_eq_some_iff.mp heq.symm
  obtain ⟨hzero, factor, hfactor, hreset, hused, hattempts⟩ := decay_due hdue hdecay
  refine ⟨factor, hfactor, ?_⟩
  cases hephemeral : isEphemeralSkillPath entityId with
  | true =>
    rw [hephemeral, if_pos rfl] at hsaved
    rw [if_pos rfl]
    refine ⟨hzero, fun hpos => ?_⟩
    by_contra hbelow
    rw [decayStatRow_due hdue hpos, hfactor, bind_some, if_neg hbelow, hdecay,
      map_some, some_inj, ← hsaved] at hrow
    have hrequests := congrArg EffectiveStats.requestsSinceDecay hrow
    rw [hreset] at hrequests
    exact absurd hrequests.symm (ne_of_gt hdue)
  | false =>
    rw [hephemeral, if_neg Bool.false_ne_true] at hsaved
    rw [if_neg Bool.false_ne_true]
    -- a row that is passed over still counts its requests
    have hpassed : decayStatRow ops.toFloatOps halfLife stats ≠ some stats := by
      intro hsame
      rw [hrow, some_inj, ← hsaved] at hsame
      rw [hsame] at hreset
      exact absurd hreset (ne_of_gt hdue)
    have hpos : 0 < halfLife := by
      by_contra hnot
      exact hpassed (decayStatRow_of_nonpos (not_lt.mp hnot) stats)
    have hbelow : factor < 1 := by
      by_contra hnot
      apply hpassed
      rw [decayStatRow_due hdue hpos, hfactor, bind_some, if_pos (not_lt.mp hnot)]
    rw [decayStatRow_due hdue hpos, hfactor, bind_some, if_neg (not_le.mpr hbelow), hdecay,
      map_some, some_inj, ← hsaved] at hrow
    have hkept : ∀ count : ℚ, count * factor = count → count = 0 := by
      intro count hcount
      by_contra hne
      have hone : factor = 1 := mul_left_cancel₀ hne (hcount.trans (mul_one count).symm)
      exact ne_of_lt hbelow hone
    refine ⟨hpos, hbelow, hkept _ ?_, hkept _ ?_⟩
    · exact (congrArg EffectiveStats.epochUsed hrow).trans hused
    · exact (congrArg EffectiveStats.epochAttempts hrow).trans hattempts

theorem eq_of_decaysAlike
    (halike : DecaysAlike isEphemeralSkillPath ops.toFloatOps halfLife entityId stats) :
    decayStatRow ops.toFloatOps halfLife stats =
      (stats.decay ops.toFloatOps halfLife).map fun decayed =>
        if isEphemeralSkillPath entityId then stats else decayed := by
  by_cases hdue : 0 < stats.requestsSinceDecay
  · obtain ⟨factor, hfactor, hcases⟩ := halike hdue
    cases hephemeral : isEphemeralSkillPath entityId with
    | true =>
      rw [hephemeral, if_pos rfl] at hcases
      obtain ⟨hzero, habove⟩ := hcases
      obtain ⟨decayed, hdecay⟩ := decay_of_factor hdue hzero hfactor
      rw [hdecay, map_some, if_pos rfl]
      by_cases hpos : 0 < halfLife
      · rw [decayStatRow_due hdue hpos, hfactor, bind_some, if_pos (habove hpos)]
      · exact decayStatRow_of_nonpos (not_lt.mp hpos) stats
    | false =>
      rw [hephemeral, if_neg Bool.false_ne_true] at hcases
      obtain ⟨hpos, hbelow, hused, hattempts⟩ := hcases
      obtain ⟨decayed, hdecay⟩ := decay_of_factor hdue (ne_of_gt hpos) hfactor
      obtain ⟨-, -, -, -, hused', hattempts'⟩ := decay_due hdue hdecay
      have hepochUsed : stats.epochUsed * factor = decayed.epochUsed := by
        rw [hused', hused, zero_mul]
      have hepochAttempts : stats.epochAttempts * factor = decayed.epochAttempts := by
        rw [hattempts', hattempts, zero_mul]
      rw [decayStatRow_due hdue hpos, hfactor, bind_some, if_neg (not_le.mpr hbelow), hdecay,
        map_some, map_some, if_neg Bool.false_ne_true, hepochUsed, hepochAttempts]
  · have hnot : stats.requestsSinceDecay ≤ 0 := not_lt.mp hdue
    rw [decayStatRow, if_pos hnot, EffectiveStats.decay, if_pos hnot, map_some, ite_self]

end

/-- To decay the stored row and to load it gives the statistics that the loaded entity has once it
is decayed and saved, exactly when its row decays alike in the two. -/
theorem storedDecay_eq_runtimeDecay_iff (isEphemeralSkillPath : Text → Bool) (ops : FloatPow)
    (halfLife : ℚ) (store : TierStore) (projectId : Int) (key : EntityKey) :
    store.storedDecay ops.toFloatOps halfLife projectId key =
        store.runtimeDecay isEphemeralSkillPath ops.toFloatOps halfLife projectId key ↔
      ∀ stats, store.loadStats projectId key = some stats →
        DecaysAlike isEphemeralSkillPath ops.toFloatOps halfLife key.2 stats := by
  rw [storedDecay_eq, runtimeDecay_eq]
  cases store.loadStats projectId key with
  | none =>
    refine ⟨fun _ stats hstats => ?_, fun _ => rfl⟩
    cases hstats
  | some stats =>
    rw [bind_some, bind_some]
    constructor
    · intro heq loaded hloaded
      rw [← Option.some.inj hloaded]
      exact decaysAlike_of_eq isEphemeralSkillPath ops halfLife key.2 stats heq
    · intro halike
      exact eq_of_decaysAlike isEphemeralSkillPath ops halfLife key.2 stats (halike stats rfl)

/-- Exponents of minus one and below give one half, the others one. -/
def oneHalf : FloatPow where
  sqrt x := x
  pow2 x := some (if x ≤ -1 then 1 / 2 else 1)
  defined _ _ := rfl

/-- A tool with one execution in the current epoch, a hundred requests after its last decay. -/
def usedInEpoch : TierStore where
  entityTier := Dict.empty.set (1, .tool, "cyt_mcp:Shell")
    ⟨.active, .active, none, 0, none, 0, 0⟩
  entityStats := Dict.empty.set ⟨1, (.tool, "cyt_mcp:Shell"), "default"⟩
    { EffectiveStats.init with
      candidates := 8
      used := 2
      requestsSinceDecay := 100
      epochUsed := 1 }

/-- The store halves the epoch counter, the runtime keeps it. -/
theorem usedInEpoch_decays_apart :
    usedInEpoch.storedDecay oneHalf.toFloatOps 100 1 (.tool, "cyt_mcp:Shell") ≠
      usedInEpoch.runtimeDecay (fun _ => false) oneHalf.toFloatOps 100 1
        (.tool, "cyt_mcp:Shell") := by
  decide +kernel

end TierStore

end ClearYourTools.Tiers

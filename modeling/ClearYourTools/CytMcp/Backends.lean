import Mathlib.Data.List.Nodup
import ClearYourTools.Misc.Text

/-!
# Backends that are mounted lazily

`cyt_mcp/backends.py`: the backends of a configuration are mounted on the server when they are
first needed.
-/

namespace ClearYourTools.CytMcp

open Misc List

variable {σ : Type}

/-- An entry of `mcp_servers`, without a spec where this is no mapping, and whether its backend can
be mounted when it is tried. -/
structure BackendEntry (σ : Type) where
  name : Text
  spec : Option σ
  available : Bool

def BackendEntry.serverKey (entry : BackendEntry σ) : Text := entry.name.strip

/-- The proxies mounted on the server, and its set in `_MOUNTED_BACKEND_SERVERS`. -/
structure BackendServer (σ : Type) where
  mounts : List (Text × σ)
  mounted : List Text

/-- The configured keys: the others are skipped by the loop of `mount_backend_servers`. -/
def configuredServers (mcpServers : List (BackendEntry σ)) : List (Text × σ × Bool) :=
  mcpServers.filterMap fun entry =>
    if entry.serverKey = [] then none
    else entry.spec.map fun spec => (entry.serverKey, spec, entry.available)

/-- The degraded names, and the proxies that are mounted. -/
def mountBackendServers (mcpServers : List (BackendEntry σ)) : List Text × List (Text × σ) :=
  (((configuredServers mcpServers).filter fun e => !e.2.2).map Prod.fst,
    ((configuredServers mcpServers).filter fun e => e.2.2).map fun e => (e.1, e.2.1))

def newServers (server : BackendServer σ) (mcpServers : List (BackendEntry σ)) :
    List (BackendEntry σ) :=
  mcpServers.filter fun entry =>
    decide (entry.serverKey ≠ [] ∧ entry.serverKey ∉ server.mounted)

def ensureBackendServersMounted (server : BackendServer σ) (mcpServers : List (BackendEntry σ)) :
    List Text × BackendServer σ :=
  let new := newServers server mcpServers
  if new.isEmpty then ([], server)
  else
    ((mountBackendServers new).1,
      ⟨server.mounts ++ (mountBackendServers new).2,
        server.mounted ++ new.map BackendEntry.serverKey⟩)

/-- What a call owes: each configured key is mounted with its spec or reported, each key that its
last call reported is tried, and nothing is mounted twice. -/
def CallConverges (reported : List Text) (server : BackendServer σ)
    (mcpServers : List (BackendEntry σ)) : Prop :=
  let result := ensureBackendServersMounted server mcpServers
  (∀ e ∈ configuredServers mcpServers, e.1 ∉ result.1 → (e.1, e.2.1) ∈ result.2.mounts) ∧
  (∀ e ∈ configuredServers mcpServers, e.1 ∈ reported →
    e.1 ∈ (configuredServers (newServers server mcpServers)).map Prod.fst) ∧
  result.2.mounts.Nodup

/-- The keys that the last call that had them reported as degraded. -/
def nextReported (reported : List Text) (server : BackendServer σ)
    (mcpServers : List (BackendEntry σ)) : List Text :=
  (reported.filter fun key => decide (key ∉ (configuredServers mcpServers).map Prod.fst)) ++
    (ensureBackendServersMounted server mcpServers).1

def Converges : List Text → BackendServer σ → List (List (BackendEntry σ)) → Prop
  | _, _, [] => True
  | reported, server, mcpServers :: calls =>
    CallConverges reported server mcpServers ∧ Converges (nextReported reported server mcpServers)
        (ensureBackendServersMounted server mcpServers).2 calls

/-- The configured keys that are remembered are mounted with the specs of the call, and no two names
of the call stand for one key. -/
def CallKept (server : BackendServer σ) (mcpServers : List (BackendEntry σ)) : Prop :=
  (∀ e ∈ configuredServers mcpServers, e.1 ∈ server.mounted → (e.1, e.2.1) ∈ server.mounts) ∧
    ((configuredServers mcpServers).map Prod.fst).Nodup

def RunKept : BackendServer σ → List (List (BackendEntry σ)) → Prop
  | _, [] => True
  | server, mcpServers :: calls =>
    CallKept server mcpServers ∧ RunKept (ensureBackendServersMounted server mcpServers).2 calls

/-- Only remembered keys are mounted, each once, and a key that was reported is remembered and not
mounted. -/
structure MountInv (reported : List Text) (server : BackendServer σ) : Prop where
  remembered : ∀ e ∈ server.mounts, e.1 ∈ server.mounted
  nodup : server.mounts.Nodup
  reported : ∀ key ∈ reported, key ∈ server.mounted ∧ key ∉ server.mounts.map Prod.fst

variable {server : BackendServer σ} {reported : List Text} {mcpServers : List (BackendEntry σ)}

theorem ensureBackendServersMounted_eq (server : BackendServer σ)
    (mcpServers : List (BackendEntry σ)) :
    ensureBackendServersMounted server mcpServers =
      ((mountBackendServers (newServers server mcpServers)).1,
        ⟨server.mounts ++ (mountBackendServers (newServers server mcpServers)).2,
          server.mounted ++ (newServers server mcpServers).map BackendEntry.serverKey⟩) := by
  unfold ensureBackendServersMounted
  dsimp only
  split
  · rename_i hempty
    rw [isEmpty_iff.mp hempty]
    simp [mountBackendServers, configuredServers]
  · rfl

/-- Of the configured keys those are tried that are not remembered. -/
theorem configuredServers_newServers (server : BackendServer σ)
    (mcpServers : List (BackendEntry σ)) :
    configuredServers (newServers server mcpServers) =
      (configuredServers mcpServers).filter fun e => decide (e.1 ∉ server.mounted) := by
  unfold configuredServers newServers
  rw [filterMap_filter, filter_filterMap]
  refine filterMap_congr fun entry _ => ?_
  by_cases hkey : entry.serverKey = []
  · rw [if_pos hkey, if_neg (by simp [hkey])]
    rfl
  · rw [if_neg hkey]
    by_cases hnew : entry.serverKey ∈ server.mounted <;> cases entry.spec <;>
      simp [hkey, hnew, Option.filter]

theorem serverKey_mem_of_configured {e : Text × σ × Bool} (h : e ∈ configuredServers mcpServers) :
    e.1 ∈ mcpServers.map BackendEntry.serverKey := by
  obtain ⟨entry, hentry, he⟩ := mem_filterMap.mp h
  split at he
  · cases he
  · obtain ⟨spec, -, rfl⟩ := Option.map_eq_some_iff.mp he
    exact mem_map_of_mem hentry

theorem MountInv.call (h : MountInv reported server) (hkept : CallKept server mcpServers) :
    CallConverges reported server mcpServers ∧ MountInv (nextReported reported server mcpServers)
        (ensureBackendServersMounted server mcpServers).2 := by
  obtain ⟨hspecs, hkeys⟩ := hkept
  have hnew : ∀ e, e ∈ configuredServers (newServers server mcpServers) ↔
      e ∈ configuredServers mcpServers ∧ e.1 ∉ server.mounted := by
    intro e
    rw [configuredServers_newServers, mem_filter, decide_eq_true_iff]
  have hnodup : (server.mounts ++ (mountBackendServers (newServers server mcpServers)).2).Nodup := by
    refine h.nodup.append ?_ ?_
    · refine Nodup.of_map Prod.fst ?_
      rw [mountBackendServers, map_map, configuredServers_newServers]
      exact ((filter_sublist.trans filter_sublist).map Prod.fst).nodup hkeys
    · intro mount hold hmount
      obtain ⟨e, he, rfl⟩ := mem_map.mp hmount
      exact ((hnew e).mp (mem_filter.mp he).1).2 (h.remembered _ hold)
  unfold CallConverges nextReported
  rw [ensureBackendServersMounted_eq]
  dsimp only
  refine ⟨⟨?_, ?_, hnodup⟩, ?_, hnodup, ?_⟩
  · intro e he hok
    by_cases hmounted : e.1 ∈ server.mounted
    · exact mem_append_left _ (hspecs e he hmounted)
    · have htried := (hnew e).mpr ⟨he, hmounted⟩
      cases havailable : e.2.2 with
      | true => exact mem_append_right _ (mem_map.mpr ⟨e, mem_filter.mpr ⟨htried, havailable⟩, rfl⟩)
      | false =>
        exact absurd (mem_map_of_mem (mem_filter.mpr ⟨htried, by rw [havailable]; rfl⟩)) hok
  · intro e he hreported
    obtain ⟨hmounted, hnot⟩ := h.reported e.1 hreported
    exact absurd (mem_map_of_mem (f := Prod.fst) (hspecs e he hmounted)) hnot
  · intro mount hmount
    rcases mem_append.mp hmount with hold | hmount
    · exact mem_append_left _ (h.remembered mount hold)
    · obtain ⟨e, he, rfl⟩ := mem_map.mp hmount
      exact mem_append_right _ (serverKey_mem_of_configured (mem_filter.mp he).1)
  · intro key hkey
    rw [map_append, List.mem_append (s := server.mounts.map _), not_or]
    rcases mem_append.mp hkey with hold | hfailed
    · obtain ⟨hreported, habsent⟩ := mem_filter.mp hold
      obtain ⟨hmounted, hnot⟩ := h.reported key hreported
      refine ⟨mem_append_left _ hmounted, hnot, fun hin => of_decide_eq_true habsent ?_⟩
      obtain ⟨mount, hmount, rfl⟩ := mem_map.mp hin
      obtain ⟨e, he, rfl⟩ := mem_map.mp hmount
      exact mem_map_of_mem ((hnew e).mp (mem_filter.mp he).1).1
    · obtain ⟨e, he, rfl⟩ := mem_map.mp hfailed
      obtain ⟨htried, hunavailable⟩ := mem_filter.mp he
      obtain ⟨hconfigured, hmounted⟩ := (hnew e).mp htried
      refine ⟨mem_append_right _ (serverKey_mem_of_configured htried), fun hin => ?_, fun hin => ?_⟩
      · obtain ⟨mount, hmount, heq⟩ := mem_map.mp hin
        exact hmounted (heq ▸ h.remembered mount hmount)
      · obtain ⟨mount, hmount, heq⟩ := mem_map.mp hin
        obtain ⟨e', he', rfl⟩ := mem_map.mp hmount
        obtain ⟨htried', havailable⟩ := mem_filter.mp he'
        obtain rfl := inj_on_of_nodup_map hkeys ((hnew e').mp htried').1 hconfigured heq
        rw [havailable] at hunavailable
        cases hunavailable

/-- In every run whose calls meet the condition, each call mounts what it owes. -/
theorem converges_of_kept {calls : List (List (BackendEntry σ))} (h : RunKept ⟨[], []⟩ calls) :
    Converges [] ⟨[], []⟩ calls := by
  have hruns : ∀ (calls : List (List (BackendEntry σ))) (reported : List Text)
      (server : BackendServer σ), MountInv reported server → RunKept server calls →
      Converges reported server calls := by
    intro calls
    induction calls with
    | nil => exact fun _ _ _ _ => trivial
    | cons mcpServers calls ih =>
      intro reported server hinv hkept
      obtain ⟨hcall, hinv'⟩ := hinv.call hkept.1
      exact ⟨hcall, ih _ _ hinv' hkept.2⟩
  exact hruns calls [] _ ⟨fun _ => nofun, .nil, fun _ => nofun⟩ h

theorem converges_of_kept_twoCalls :
    Converges [] ⟨[], []⟩ [[⟨"web", some 1, true⟩],
      [⟨"web", some 1, true⟩, ⟨"files", some 2, false⟩]] :=
  converges_of_kept ⟨by unfold CallKept; decide, by unfold CallKept; decide, trivial⟩

/-- A backend that could not be mounted once is not tried again. -/
theorem failedBackend_not_retried : ¬ Converges [] (⟨[], []⟩ : BackendServer ℕ)
    [[⟨"web", some 1, false⟩], [⟨"web", some 1, true⟩]] := by
  rintro ⟨-, ⟨hmounted, -, -⟩, -⟩
  exact absurd (hmounted ("web", 1, true) (by decide) (by decide)) (by decide)

end ClearYourTools.CytMcp

import ClearYourTools.CytClient.Sessions

/-!
# The namespace of the pruning stages

`migrations/versions/002_pruning_tools_namespace.py`, and `normalize_legacy_config` of
`migrations/legacy.py`, which applies it to a configuration of an older revision.
-/

namespace ClearYourTools.Migrations

open Misc CytClient
open Json (get? getPath popKey setPath fieldsOr)

variable {φ : Type}

def pruningKey : Text := "pruning"
def cytKey : Text := "cyt"
def schemaVersionKey : Text := "schema_version"
def migratedAtKey : Text := "migrated_at"
def modelNickKey : Text := "model_nick"
def modelKey : Text := "model"
def remoteKey : Text := "remote"

def moveIfAbsent (cfg : Record φ) (src dst : List Text) : Record φ :=
  if Json.isPresent (getPath cfg dst) then cfg
  else
    match getPath cfg src with
    | none | some .null => Json.popPath cfg src
    | some value => setPath (Json.popPath cfg src) value dst

def stageNames : List Text := ["bm25".toList, "rerank".toList, "llm".toList]

/-- The path of a stage below `pruning`. -/
def stagePath (stage : Text) : List Text := ["tools".toList, "pipelines".toList, stage]

/-- A dictionary under a key, which is dropped when it is empty. -/
def setOrDrop (fields : Record φ) (key : Text) (block : Record φ) : Record φ :=
  if block = [] then popKey fields key else Json.set fields key (.obj block)

/-- A stage with its model's nick in its own place. -/
def migratedStage (stageCfg : Record φ) : Record φ :=
  match getPath stageCfg [modelKey, remoteKey, modelNickKey] with
  | none | some .null => stageCfg
  | some nick =>
    if Json.isPresent (get? stageCfg modelNickKey) then stageCfg
    else
      let model := fieldsOr (get? stageCfg modelKey)
      let remote := popKey (fieldsOr (get? model remoteKey)) modelNickKey
      setOrDrop (Json.set stageCfg modelNickKey nick) modelKey (setOrDrop model remoteKey remote)

/-- What `_migrate_stage_pipelines` does with one stage. -/
def migrateStage (pruning : Record φ) (stage : Text) : Record φ :=
  match get? pruning stage with
  | some (.obj stageCfg) =>
    match getPath pruning (stagePath stage) with
    | some (.obj _) => popKey pruning stage
    | _ => popKey (setPath pruning (.obj (migratedStage stageCfg)) (stagePath stage)) stage
  | _ => pruning

def ensureDict (fields : Record φ) (keys : List Text) : Record φ :=
  setPath fields (.obj (fieldsOr (getPath fields keys))) keys

def migrateStagePipelines (cfg : Record φ) : Record φ :=
  match get? cfg pruningKey with
  | some (.obj pruning) =>
    Json.set cfg pruningKey (.obj (stageNames.foldl migrateStage
      (ensureDict pruning ["tools".toList, "pipelines".toList])))
  | _ => cfg

/-- The default for the way in which tools are injected, out of the tools section. -/
def moveInjectVia (cfg : Record φ) : Record φ :=
  match getPath cfg [pruningKey, "tools", "inject_via"] with
  | some (.str injectVia) =>
    if Json.isPresent (getPath cfg [pruningKey, "inject_via_default"]) then cfg
    else
      Json.popPath (setPath cfg (.str injectVia) [pruningKey, "inject_via_default"])
        [pruningKey, "tools", "inject_via"]
  | _ => cfg

def moveSequence (cfg : Record φ) : Record φ :=
  moveIfAbsent cfg [pruningKey, "pipeline"] [pruningKey, "tools", "sequence"]

def movePolicy (cfg : Record φ) : Record φ :=
  moveIfAbsent cfg [pruningKey, "policy"] [pruningKey, "tools", "policy"]

def movePerTool (cfg : Record φ) : Record φ :=
  moveIfAbsent cfg [pruningKey, "per_tool"]
    [pruningKey, "tools", "policy", "per_tool"]

/-- `upgrade` of the revision, without its stamp. -/
def upgradePruningTools (cfg : Record φ) : Record φ :=
  migrateStagePipelines (moveInjectVia (movePerTool (movePolicy (moveSequence cfg))))

def baselineRevision : Text := "000_baseline"

def legacyShimCutoff : Text := "002_pruning_tools_namespace"

def readSchemaVersion (cfg : Record φ) : Text :=
  match getPath cfg [cytKey, schemaVersionKey] with
  | some (.str version) => if version.strip = [] then baselineRevision else version.strip
  | _ => baselineRevision

section

variable (int : Text → Option ℤ)

/-- The number of `_revision_sort_key`. -/
def revisionNumber (revision : Text) : ℤ :=
  if revision = baselineRevision then 0
  else (int (revision.takeWhile fun c => c != '_')).getD 9999

def needsLegacyShim (cfg : Record φ) : Bool :=
  let current := readSchemaVersion cfg
  decide (revisionNumber int current < revisionNumber int legacyShimCutoff ∨
    revisionNumber int current = revisionNumber int legacyShimCutoff ∧ current < legacyShimCutoff)

/-- The configuration without the stamp that the revision puts on it. -/
def dropStamp (cfg : Record φ) : Record φ :=
  setOrDrop cfg cytKey
    (popKey (popKey (fieldsOr (get? cfg cytKey)) schemaVersionKey) migratedAtKey)

def normalizeLegacyConfig (cfg : Record φ) : Record φ :=
  if needsLegacyShim int cfg then dropStamp (upgradePruningTools cfg) else cfg

end

variable {k : Text}

theorem get?_setOrDrop_of_ne {fields : Record φ} {key : Text} (h : k ≠ key) (block : Record φ) :
    get? (setOrDrop fields key block) k = get? fields k := by
  unfold setOrDrop
  split
  · exact Json.get?_popKey_of_ne h
  · exact Json.get?_set_of_ne h _

variable {cfg : Record φ}

/-- A move below one key leaves the other keys alone. -/
theorem get?_moveIfAbsent_of_ne {key : Text} (h : k ≠ key) (src dst : List Text) :
    get? (moveIfAbsent cfg (key :: src) (key :: dst)) k = get? cfg k := by
  unfold moveIfAbsent
  split
  · rfl
  · split
    · exact Json.get?_popPath_of_ne h src
    · exact Json.get?_popPath_of_ne h src
    · rw [Json.get?_setPath_of_ne h, Json.get?_popPath_of_ne h]

theorem get?_moveInjectVia_of_ne (h : k ≠ pruningKey) :
    get? (moveInjectVia cfg) k = get? cfg k := by
  unfold moveInjectVia
  split
  · split
    · rfl
    · rw [Json.get?_popPath_of_ne h, Json.get?_setPath_of_ne h]
  · rfl

theorem get?_migrateStagePipelines_of_ne (h : k ≠ pruningKey) :
    get? (migrateStagePipelines cfg) k = get? cfg k := by
  unfold migrateStagePipelines
  split
  · exact Json.get?_set_of_ne h _
  · rfl

/-- What is read of an older configuration differs from it only in its stamp and below `pruning`. -/
theorem get?_normalizeLegacyConfig_of_ne (int : Text → Option ℤ) (hcyt : k ≠ cytKey)
    (hpruning : k ≠ pruningKey) : get? (normalizeLegacyConfig int cfg) k = get? cfg k := by
  unfold normalizeLegacyConfig
  split
  · rw [dropStamp, get?_setOrDrop_of_ne hcyt, upgradePruningTools,
      get?_migrateStagePipelines_of_ne hpruning, get?_moveInjectVia_of_ne hpruning, movePerTool,
      get?_moveIfAbsent_of_ne hpruning, movePolicy, get?_moveIfAbsent_of_ne hpruning, moveSequence,
      get?_moveIfAbsent_of_ne hpruning]
  · rfl

end ClearYourTools.Migrations

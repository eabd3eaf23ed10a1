import Mathlib.Data.List.Sort
import ClearYourTools.Bm25Search.Skills
import ClearYourTools.CytClient.Sessions

/-!
# Model providers

`migrations/versions/003_model_provider_registry.py` with `migrations/providers.py`: the provider
fields of model entries move to rows of `models.providers`. And `merge_model_entry` of
`config/__init__.py`, which puts an entry and its row together. No other revision touches these
parts of a configuration.
-/

namespace ClearYourTools.Migrations

open Misc CytClient
open Json (get? orElse toStr)

variable {φ : Type}

def providerKey : Text := "provider"
def providerNickKey : Text := "provider_nick"
def keyVarNameKey : Text := "key_var_name"
def baseUrlKey : Text := "base_url"
def domainMatchKey : Text := "domain_match"

def providerFields : List Text := [providerKey, keyVarNameKey, baseUrlKey, domainMatchKey]

inductive ModelKind
  | llm
  | rerankers
deriving DecidableEq

/-- The parts of `models` that the revision reads: `providers`, and the lists `remote`. -/
structure Models (φ : Type) where
  providers : Option (Json φ)
  llm : List (Record φ)
  rerankers : List (Record φ)

def Models.remote (models : Models φ) : ModelKind → List (Record φ)
  | .llm => models.llm
  | .rerankers => models.rerankers

/-- All entries, in the order in which the revision gets to them. -/
def Models.entries (models : Models φ) : List (Record φ) := models.llm ++ models.rerankers

/-- Rows by their provider nick. -/
abbrev Registry (φ : Type) := Dict Text (Record φ)

variable (p : Json.PyFormat φ)

/-- `item.get("provider") or item.get("name") or nick`. -/
def rowProvider (item : Record φ) (nick : Text) : Json φ :=
  (orElse p (get? item providerKey)
    (orElse p (get? item "name") none)).getD (.str nick)

def normalizeProviderEntry (item : Record φ) : Option (Record φ) :=
  match get? item providerNickKey with
  | some nick => some (Json.set item providerKey (rowProvider p item (toStr p nick)))
  | none =>
    match item with
    | [(key, .obj nested)] =>
      let nick := ((get? nested providerNickKey).map (toStr p)).getD key
      some (Json.set (Json.set nested providerNickKey (.str nick)) providerKey
        (rowProvider p nested key))
    | _ => none

/-- A normalized row with its nick, if it has one. -/
def nickedRow (item : Json φ) : Option (Text × Record φ) :=
  match item with
  | .obj item =>
    match normalizeProviderEntry p item with
    | none => none
    | some normalized =>
      (orElse p (get? normalized providerNickKey) none).map fun nick =>
        (toStr p nick, normalized)
  | _ => none

def iterNormalizedProviders (providers : Option (Json φ)) : List (Text × Record φ) :=
  match providers with
  | some (.arr items) => items.filterMap (nickedRow p)
  | _ => []

def providerRegistryIndex (providers : Option (Json φ)) : Registry φ :=
  Dict.empty.writeAll (iterNormalizedProviders p providers)

/-- `_default_provider_nick`, if it is not empty. -/
def defaultProviderNick (entry : Record φ) : Option Text :=
  let nick :=
    match orElse p (get? entry providerNickKey) none with
    | some nick => some (toStr p nick)
    | none =>
      match get? entry providerKey with
      | some (.str provider) => some provider.strip
      | _ => none
  nick.filter fun nick => nick != []

def withProvider (row : Record φ) (nick : Text) : Record φ :=
  if (get? row providerKey).isNone then Json.set row providerKey (.str nick) else row

def upsertProvider (registry : Registry φ) (providerNick : Text) (fields : Record φ) :
    Registry φ :=
  registry.set providerNick (withProvider (Json.set
    (Json.overlaid ((registry.get? providerNick).getD []) fields) providerNickKey
    (.str providerNick)) providerNick)

def inlineFields (entry : Record φ) : Record φ :=
  entry.filter fun kv => providerFields.contains kv.1

/-- What the loop of `_migrate_remote_entries` makes of the registry. -/
def migrateInto (registry : Registry φ) (entry : Record φ) : Registry φ :=
  match defaultProviderNick p entry with
  | none => registry
  | some nick =>
    if inlineFields entry = [] then registry
    else upsertProvider registry nick (inlineFields entry)

/-- What the loop of `_migrate_remote_entries` makes of an entry. -/
def migrateEntry (entry : Record φ) : Record φ :=
  match defaultProviderNick p entry with
  | none => entry
  | some nick =>
    let entry := entry.filter fun kv => !providerFields.contains kv.1
    if (get? entry providerNickKey).isNone then
      Json.set entry providerNickKey (.str nick)
    else entry

/-- The rows of `providers` in the form of a mapping. -/
def mappedRow (kv : Text × Json φ) : Option (Text × Record φ) :=
  match kv.2 with
  | .obj item => some (kv.1, Json.set item providerNickKey (.str kv.1))
  | _ => none

/-- The rows that `_normalize_providers_list` puts into the registry. -/
def listedRows (providers : Option (Json φ)) : List (Text × Record φ) :=
  match providers with
  | some (.obj fields) => fields.filterMap mappedRow
  | _ => iterNormalizedProviders p providers

def normalizeProvidersList (providers : Option (Json φ)) (registry : Registry φ) : Registry φ :=
  (listedRows p providers).foldl (fun registry row => upsertProvider registry row.1 row.2) registry

/-- The registry before any entry is migrated. -/
def ownRegistry (models : Models φ) : Registry φ :=
  normalizeProvidersList p models.providers (providerRegistryIndex p models.providers)

/-- The registry that the revision writes. -/
def migratedRegistry (models : Models φ) : Registry φ :=
  models.entries.foldl (migrateInto p) (ownRegistry p models)

/-- The rows in the order of their nicks. -/
def sortedRows (registry : Registry φ) : List (Json φ) :=
  (registry.entries.insertionSort fun a b => Bm25Search.textLe a.1 b.1 = true).map fun row =>
    .obj row.2

def upgrade (models : Models φ) : Models φ where
  providers :=
    let registry := migratedRegistry p models
    if registry.entries = [] then models.providers else some (.arr (sortedRows registry))
  llm := models.llm.map (migrateEntry p)
  rerankers := models.rerankers.map (migrateEntry p)

def bundledRow (nick provider keyVarName domain : String) : Json φ :=
  .obj [(providerNickKey, .str nick.toList), (providerKey, .str provider.toList),
    (keyVarNameKey, .str keyVarName.toList), (domainMatchKey, .arr [.str domain.toList])]

/-- `models.providers` of `defaults.yaml`. -/
def bundledProviders : Json φ :=
  .arr [bundledRow "openai" "openai" "OPENAI_API_KEY" "api.openai.com",
    bundledRow "anthropic" "anthropic" "ANTHROPIC_API_KEY" "api.anthropic.com",
    bundledRow "gemini" "gemini" "GOOGLE_API_KEY" "generativelanguage.googleapis.com",
    bundledRow "deepinfra" "deepinfra" "DEEPINFRA_API_KEY" "api.deepinfra.com",
    bundledRow "openrouter-ai" "openrouter" "OPENROUTER_API_KEY" "openrouter.ai"]

def bundledProviderRegistry : Registry φ := providerRegistryIndex p (some bundledProviders)

def providerRegistry (models : Models φ) : Registry φ :=
  (iterNormalizedProviders p models.providers).foldl
    (fun registry row => registry.set row.1
      (Json.deepMerge ((registry.get? row.1).getD []) row.2)) (bundledProviderRegistry p)

def providerSlug (nick : Text) : Option (Json φ) → Option Text
  | some (.str provider) =>
    if provider.strip = [] ∨ provider.strip = nick then none else some provider.strip
  | _ => none

def litellmProviderForEntry (providerNick : Option Text)
    (entryProvider registryProvider : Option (Json φ)) : Option Text :=
  let nick := Text.strip (providerNick.getD [])
  ((providerSlug nick entryProvider).or (providerSlug nick registryProvider)).or
    (if nick = [] then none
    else providerSlug nick (((bundledProviderRegistry p).get? nick).bind (get? · providerKey)))

/-- The nick under which an entry is looked up:
`entry.get("provider_nick") or entry.get("provider")`, if it is not empty. -/
def routingNick (entry : Record φ) : Option Text :=
  (orElse p (get? entry providerNickKey)
    (orElse p (get? entry providerKey) none)).map (toStr p)

/-- The row that an entry is put together with. -/
def baseRow (models : Models φ) (entry : Record φ) : Record φ :=
  ((routingNick p entry).bind (providerRegistry p models).get?).getD []

def mergeModelEntry (models : Models φ) (entry : Record φ) : Record φ :=
  let base := baseRow p models entry
  let merged := Json.overlaid base entry
  match litellmProviderForEntry p (routingNick p entry) (get? entry providerKey)
    (get? base providerKey) with
  | some provider => Json.set merged providerKey (.str provider)
  | none => merged

/-- The entry of a kind with a nick. -/
def remoteEntry (models : Models φ) (kind : ModelKind) (nick : Text) : Option (Record φ) :=
  (models.remote kind).find? fun entry => fieldIs entry "nick" nick

/-- The upgrade leaves the provider fields of a merged entry. -/
def KeepsRouting (models : Models φ) (kind : ModelKind) (nick : Text) (entry : Record φ) : Prop :=
  ∃ migrated, remoteEntry (upgrade p models) kind nick = some migrated ∧
    ∀ field ∈ providerFields, get? (mergeModelEntry p (upgrade p models) migrated) field =
      get? (mergeModelEntry p models entry) field

end ClearYourTools.Migrations

import ClearYourTools.CytMcp.Catalog
import ClearYourTools.Misc.JsonRoundTrip
import ClearYourTools.Misc.Runs

/-!
# The catalog on disk

`cyt_mcp/catalog_disk.py`: the tools of a catalog are stored once under their hash, and each slug
has a reference to a hash. Caches of an older layout have the tools under the slug.
-/

namespace ClearYourTools.CytMcp

open Misc CytClient
open Injection.SessionLog (sortKeys)

variable {φ γ : Type}

def catalogContentHashKey : Text := "catalog_content_hash"
def toolsKey : Text := "tools"

/-- The parts of a path in `cyt_mcp_catalog_cache_dir()`. -/
abbrev CachePath := List Text

/-- The end of the name of every file. -/
def jsonFileName (stem : Text) : Text := stem ++ ".json"

def legacyCatalogPath (slug : Text) : CachePath := [jsonFileName slug]

def backendRefPath (scopeSlug : Text) : CachePath := ["backends".toList, jsonFileName scopeSlug]

def byHashPath (contentHash : Text) : CachePath := ["by-hash".toList, jsonFileName contentHash]

abbrev DiskFiles (γ : Type) := γ → Option Text

/-- What the functions of this file call: `file` is the file that a path names, if a file can be
there. -/
structure DiskEnv (φ γ : Type) extends CatalogEnv φ where
  file : CachePath → Option γ

instance {γ : Type} : CoeOut (DiskEnv φ γ) (CatalogEnv φ) := ⟨DiskEnv.toCatalogEnv⟩

variable (env : DiskEnv φ γ)

/-- `path.is_file()`. -/
def isFile (files : DiskFiles γ) (path : CachePath) : Bool := ((env.file path).bind files).isSome

/-- The object that a file has, if there is one. -/
def readObject (files : DiskFiles γ) (path : CachePath) : Option (Record φ) :=
  match ((env.file path).bind files).bind (Json.loads env) with
  | some (.obj fields) => some fields
  | _ => none

def readBackendRef (files : DiskFiles γ) (scopeSlug : Text) : Option (Record φ) :=
  readObject env files (backendRefPath scopeSlug)

def envelopeTools (envelope : Record φ) : Option (List (Json φ)) :=
  match Json.get? envelope toolsKey with
  | some (.arr tools) => some tools
  | _ => none

/-- `_read_by_hash_envelope`, and the same code for the older layout. -/
def readEnvelope (files : DiskFiles γ) (path : CachePath) : Option (Record φ) :=
  (readObject env files path).filter fun envelope => (envelopeTools envelope).isSome

/-- `str(ref.get("catalog_content_hash") or "")`. -/
def refContentHash (ref : Record φ) : Text := fieldOr env ref catalogContentHashKey

/-- The envelope that a reference of the slug leads to. -/
def referredEnvelope (files : DiskFiles γ) (slug : Text) : Option (Record φ) :=
  match readBackendRef env files slug with
  | none => none
  | some ref =>
    let contentHash := (refContentHash env ref).strip
    if contentHash = [] then none else readEnvelope env files (byHashPath contentHash)

def readDiskCatalog (files : DiskFiles γ) (slug : Text) : Option (Record φ) :=
  match referredEnvelope env files slug with
  | some envelope => some envelope
  | none => readEnvelope env files (legacyCatalogPath slug)

/-- The arguments of `write_disk_catalog`, and the times that it gets. The rows are dictionaries. -/
structure CatalogWrite (φ : Type) where
  slug : Text
  agent : Text
  tools : List (Record φ)
  envelopeUpdatedAt : Text
  refUpdatedAt : Text
  valid : ∀ tool ∈ tools, (Json.obj tool).Valid

/-- What `write_disk_catalog` returns. -/
inductive DiskWrite
  | skipped
  | updated
  | created
deriving DecidableEq

variable (write : CatalogWrite φ)

/-- `raw_catalog_content_hash(tools)`. -/
def CatalogWrite.contentHash : Text := catalogToolsContentHash env write.tools

def CatalogWrite.envelope : Record φ :=
  [("agent", .str write.agent),
    (catalogContentHashKey, .str (write.contentHash env)),
    ("updated_at", .str write.envelopeUpdatedAt),
    ("tool_count", .int write.tools.length),
    (toolsKey, .arr (write.tools.map .obj))]

def CatalogWrite.refPayload : Record φ :=
  [("agent", .str write.agent),
    ("scope_slug", .str write.slug),
    (catalogContentHashKey, .str (write.contentHash env)),
    ("updated_at", .str write.refUpdatedAt)]

/-- Whether the reference of the slug has the hash already. -/
def refHasHash (files : DiskFiles γ) : Bool :=
  match readBackendRef env files write.slug with
  | some ref => refContentHash env ref == write.contentHash env
  | none => false

/-- Whether there is no reference, and the file of the older layout has the hash. -/
def legacyHasHash (files : DiskFiles γ) : Bool :=
  (readBackendRef env files write.slug).isNone &&
    match readObject env files (legacyCatalogPath write.slug) with
    | some existing => fieldIs existing catalogContentHashKey (write.contentHash env)
    | none => false

variable [DecidableEq γ]

/-- A file written and put in place, or `none` for the error of a path that names none. -/
def writeObject (files : DiskFiles γ) (path : CachePath) (fields : Record φ) :
    Option (DiskFiles γ) :=
  (env.file path).map fun file =>
    Function.update files file (some (Json.dumpsIndent env false 0 (.obj fields)))

/-- The envelope under its hash, if no file is there. -/
def storeEnvelope (files : DiskFiles γ) : Option (DiskFiles γ) :=
  bif isFile env files (byHashPath (write.contentHash env)) then some files
  else writeObject env files (byHashPath (write.contentHash env)) (write.envelope env)

/-- `write_disk_catalog`: what it returns, or `none` where it raises, and the files then. -/
def writeDiskCatalog (files : DiskFiles γ) : Option DiskWrite × DiskFiles γ :=
  bif refHasHash env write files || legacyHasHash env write files then (some .skipped, files)
  else
    match storeEnvelope env write files with
    | none => (none, files)
    | some stored =>
      match writeObject env stored (backendRefPath write.slug) (write.refPayload env) with
      | none => (none, stored)
      | some files' =>
        (some (bif (readBackendRef env files write.slug).isSome ||
          isFile env files' (legacyCatalogPath write.slug) then .updated else .created), files')

/-- The files, and the writes that did not raise. -/
structure DiskState (φ γ : Type) where
  files : DiskFiles γ
  writes : List (CatalogWrite φ)

namespace DiskState

/-- An empty cache directory. -/
def start : DiskState φ γ := ⟨fun _ => none, []⟩

def step (s : DiskState φ γ) (write : CatalogWrite φ) : Option (DiskState φ γ) :=
  let written := writeDiskCatalog env write s.files
  some ⟨written.2, if written.1.isSome then s.writes ++ [write] else s.writes⟩

def lastWrite? (s : DiskState φ γ) (slug : Text) : Option (CatalogWrite φ) :=
  (s.writes.filter fun write => write.slug == slug).getLast?

end DiskState

/-- The same tools in any order, and with their fields in any order. -/
def SameTools (tools tools' : List (Json φ)) : Prop :=
  (tools.map sortKeys).Perm (tools'.map sortKeys)

/-- Every slug that was written reads as the tools of the last write to it. -/
def DiskState.ReturnsWritten (s : DiskState φ γ) : Prop :=
  ∀ slug write, s.lastWrite? slug = some write → ∃ envelope tools,
    readDiskCatalog env s.files slug = some envelope ∧ envelopeTools envelope = some tools ∧
      SameTools tools (write.tools.map .obj)

end ClearYourTools.CytMcp

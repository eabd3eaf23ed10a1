import ClearYourTools.CytMcp.CatalogDisk
import ClearYourTools.CytMcp.Proofs.WireNames

/-!
# What the catalog on disk returns

The tools of a catalog are stored under a hash that covers their names, descriptions and schemas
only, so a slug may read as what another write has left.
-/

namespace ClearYourTools.CytMcp

open Misc CytClient List Option
open Injection.SessionLog (nameKey inputSchemaKey serverKeyKey sortKeys)

variable {φ γ : Type} {env : DiskEnv φ γ}

namespace SameTools

variable {tools tools' tools'' : List (Json φ)}

theorem refl (tools : List (Json φ)) : SameTools tools tools := List.Perm.refl _

theorem trans (h : SameTools tools tools') (h' : SameTools tools' tools'') :
    SameTools tools tools'' := List.Perm.trans h h'

theorem symm (h : SameTools tools tools') : SameTools tools' tools := List.Perm.symm h

theorem of_perm (h : tools.Perm tools') : SameTools tools tools' := h.map sortKeys

end SameTools

def refKeys : List Text :=
  ["agent".toList, "scope_slug".toList, catalogContentHashKey, "updated_at".toList]

def envelopeKeys : List Text :=
  ["agent".toList, catalogContentHashKey, "updated_at".toList, "tool_count".toList, toolsKey]

theorem valid_refPayload (write : CatalogWrite φ) : (Json.obj (write.refPayload env)).Valid := by
  have hnodup : refKeys.Nodup := by decide
  exact ⟨hnodup, trivial, trivial, trivial, trivial, trivial⟩

theorem valid_envelope (write : CatalogWrite φ) : (Json.obj (write.envelope env)).Valid := by
  have hnodup : envelopeKeys.Nodup := by decide
  have htools : (Json.arr (write.tools.map .obj)).Valid := by
    apply Json.validItems_iff.mpr
    intro v hv
    obtain ⟨tool, htool, rfl⟩ := List.mem_map.mp hv
    exact write.valid tool htool
  exact ⟨hnodup, trivial, trivial, trivial, trivial, htools, trivial⟩

def HasObject (env : DiskEnv φ γ) (files : DiskFiles γ) (path : CachePath) (fields : Record φ) :
    Prop :=
  ∃ file, env.file path = some file ∧
    files file = some (Json.dumpsIndent env false 0 (.obj fields))

theorem HasObject.read (hf : env.Lawful) {files : DiskFiles γ} {path : CachePath}
    {fields : Record φ} (h : HasObject env files path fields) (hv : (Json.obj fields).Valid) :
    readObject env files path = some fields := by
  obtain ⟨file, hfile, htext⟩ := h
  unfold readObject
  rw [hfile, bind_some, htext, bind_some, Json.loads_dumpsIndent hf false hv]

theorem HasObject.readBackendRef (hf : env.Lawful) {files : DiskFiles γ} {slug : Text}
    {write : CatalogWrite φ}
    (h : HasObject env files (backendRefPath slug) (write.refPayload env)) :
    readBackendRef env files slug = some (write.refPayload env) :=
  h.read hf (valid_refPayload write)

section

variable (write : CatalogWrite φ)

theorem refContentHash_refPayload :
    refContentHash env (write.refPayload env) = write.contentHash env := by
  apply fieldOr_str
  rfl

theorem contentHash_strip :
    (write.contentHash env).strip = write.contentHash env := env.sha256_strip _

theorem contentHash_ne_nil : write.contentHash env ≠ [] := env.sha256_ne_nil _

theorem envelopeTools_envelope :
    envelopeTools (write.envelope env) = some (write.tools.map .obj) := rfl

end

theorem HasObject.readEnvelope (hf : env.Lawful) {files : DiskFiles γ} {path : CachePath}
    {write : CatalogWrite φ} (h : HasObject env files path (write.envelope env)) :
    readEnvelope env files path = some (write.envelope env) := by
  unfold CytMcp.readEnvelope
  rw [h.read hf (valid_envelope write), filter_some, envelopeTools_envelope]
  rfl

theorem readDiskCatalog_eq (hf : env.Lawful) {files : DiskFiles γ} {slug : Text}
    {ref content : CatalogWrite φ}
    (href : HasObject env files (backendRefPath slug) (ref.refPayload env))
    (hcontent : HasObject env files (byHashPath (ref.contentHash env)) (content.envelope env)) :
    readDiskCatalog env files slug = some (content.envelope env) := by
  have hreferred : referredEnvelope env files slug = some (content.envelope env) := by
    unfold referredEnvelope
    rw [href.readBackendRef hf]
    dsimp only
    rw [refContentHash_refPayload, contentHash_strip, if_neg (contentHash_ne_nil ref),
      hcontent.readEnvelope hf]
  unfold readDiskCatalog
  rw [hreferred]

namespace DiskState

theorem lastWrite?_concat (files : DiskFiles γ) (writes : List (CatalogWrite φ))
    (write : CatalogWrite φ) (slug : Text) :
    lastWrite? ⟨files, writes ++ [write]⟩ slug =
      if write.slug = slug then some write else lastWrite? ⟨files, writes⟩ slug := by
  unfold lastWrite?
  rw [filter_append]
  split
  · rename_i hslug
    have hkept : [write].filter (fun write => write.slug == slug) = [write] :=
      filter_cons_of_pos (beq_iff_eq.mpr hslug)
    rw [hkept, getLast?_concat]
  · rename_i hslug
    have hdropped : [write].filter (fun write => write.slug == slug) = [] :=
      filter_cons_of_neg (fun heq => hslug (beq_iff_eq.mp heq))
    rw [hdropped, List.append_nil]

variable {s : DiskState φ γ}

theorem mem_of_lastWrite? {slug : Text} {write : CatalogWrite φ}
    (h : s.lastWrite? slug = some write) : write ∈ s.writes ∧ write.slug = slug := by
  obtain ⟨hmem, hslug⟩ := mem_filter.mp (mem_of_getLast? h)
  exact ⟨hmem, beq_iff_eq.mp hslug⟩

theorem lastWrite?_of_mem {write : CatalogWrite φ} (h : write ∈ s.writes) :
    ∃ last, s.lastWrite? write.slug = some last := by
  apply isSome_iff_exists.mp
  unfold lastWrite?
  rw [getLast?_isSome]
  exact ne_nil_of_mem (mem_filter.mpr ⟨h, beq_self_eq_true _⟩)

end DiskState

/-- The write has a file for its reference and one for its content, both of its own, and there is
no file of the older layout. -/
structure HasOwnFiles (env : DiskEnv φ γ) (s : DiskState φ γ) (write : CatalogWrite φ) : Prop where
  ref : env.file (backendRefPath write.slug) ≠ none
  content : env.file (byHashPath (write.contentHash env)) ≠ none
  apart : env.file (backendRefPath write.slug) ≠ env.file (byHashPath (write.contentHash env))
  refs : ∀ earlier ∈ s.writes, env.file (backendRefPath earlier.slug) =
    env.file (backendRefPath write.slug) → earlier.slug = write.slug
  contents : ∀ earlier ∈ s.writes, env.file (byHashPath (earlier.contentHash env)) =
    env.file (byHashPath (write.contentHash env)) → earlier.contentHash env = write.contentHash env
  contentApart : ∀ earlier ∈ s.writes, env.file (byHashPath (earlier.contentHash env)) ≠
    env.file (backendRefPath write.slug)
  refApart : ∀ earlier ∈ s.writes, env.file (backendRefPath earlier.slug) ≠
    env.file (byHashPath (write.contentHash env))
  legacy : (env.file (legacyCatalogPath write.slug)).bind s.files = none

/-- No earlier write has the hash of this one and other tools. -/
def AgreesWithHash (env : DiskEnv φ γ) (s : DiskState φ γ) (write : CatalogWrite φ) : Prop :=
  ∀ earlier ∈ s.writes, earlier.contentHash env = write.contentHash env →
    SameTools (earlier.tools.map .obj) (write.tools.map .obj)

/-- The content of every write is stored under its hash, every slug refers to the hash of its last
write, and there are no other files. -/
structure DiskKept (env : DiskEnv φ γ) (s : DiskState φ γ) : Prop where
  contents : ∀ write ∈ s.writes, ∃ content : CatalogWrite φ,
    HasObject env s.files (byHashPath (write.contentHash env)) (content.envelope env) ∧
      SameTools (content.tools.map .obj) (write.tools.map .obj)
  refs : ∀ slug write, s.lastWrite? slug = some write → ∃ ref : CatalogWrite φ,
    HasObject env s.files (backendRefPath slug) (ref.refPayload env) ∧
      ref.contentHash env = write.contentHash env
  files : ∀ file, s.files file ≠ none → ∃ write ∈ s.writes,
    env.file (backendRefPath write.slug) = some file ∨
      env.file (byHashPath (write.contentHash env)) = some file

namespace DiskKept

variable {s : DiskState φ γ} {write : CatalogWrite φ}

theorem start : DiskKept env (DiskState.start : DiskState φ γ) where
  contents := fun _ h => by cases h
  refs := fun _ _ h => by cases h
  files := fun _ h => absurd rfl h

theorem returnsWritten (hf : env.Lawful) (h : DiskKept env s) : s.ReturnsWritten env := by
  intro slug write hlast
  obtain ⟨ref, href, hhash⟩ := h.refs slug write hlast
  obtain ⟨content, hcontent, hsame⟩ := h.contents write (DiskState.mem_of_lastWrite? hlast).1
  rw [← hhash] at hcontent
  exact ⟨_, _, readDiskCatalog_eq hf href hcontent, envelopeTools_envelope content, hsame⟩

variable (h : DiskKept env s)
include h

section

variable (hown : HasOwnFiles env s write)
include hown

theorem ref_of_file {file : γ} (hfile : env.file (backendRefPath write.slug) = some file)
    (hthere : s.files file ≠ none) : ∃ last, s.lastWrite? write.slug = some last := by
  obtain ⟨earlier, hmem, hrefers | hstores⟩ := h.files file hthere
  · rw [← hown.refs earlier hmem (hrefers.trans hfile.symm)]
    exact DiskState.lastWrite?_of_mem hmem
  · exact absurd (hstores.trans hfile.symm) (hown.contentApart earlier hmem)

theorem content_of_file {file : γ}
    (hfile : env.file (byHashPath (write.contentHash env)) = some file)
    (hthere : s.files file ≠ none) :
    ∃ earlier ∈ s.writes, earlier.contentHash env = write.contentHash env := by
  obtain ⟨earlier, hmem, hrefers | hstores⟩ := h.files file hthere
  · exact absurd (hrefers.trans hfile.symm) (hown.refApart earlier hmem)
  · exact ⟨earlier, hmem, hown.contents earlier hmem (hstores.trans hfile.symm)⟩

theorem ref_of_read {ref : Record φ} (hread : readBackendRef env s.files write.slug = some ref) :
    ∃ last, s.lastWrite? write.slug = some last := by
  obtain ⟨file, hfile⟩ := ne_none_iff_exists'.mp hown.ref
  apply h.ref_of_file hown hfile
  intro hnone
  unfold readBackendRef readObject at hread
  rw [hfile, bind_some, hnone] at hread
  cases hread

theorem content_of_isFile (hisFile : isFile env s.files (byHashPath (write.contentHash env))) :
    ∃ earlier ∈ s.writes, earlier.contentHash env = write.contentHash env := by
  obtain ⟨file, hfile⟩ := ne_none_iff_exists'.mp hown.content
  apply h.content_of_file hown hfile
  intro hnone
  unfold isFile at hisFile
  rw [hfile, bind_some, hnone] at hisFile
  cases hisFile

end

theorem content_of_earlier (hagrees : AgreesWithHash env s write)
    {earlier : CatalogWrite φ} (hmem : earlier ∈ s.writes)
    (hhash : earlier.contentHash env = write.contentHash env) : ∃ content : CatalogWrite φ,
      HasObject env s.files (byHashPath (write.contentHash env)) (content.envelope env) ∧
        SameTools (content.tools.map .obj) (write.tools.map .obj) := by
  obtain ⟨content, hcontent, hsame⟩ := h.contents earlier hmem
  rw [hhash] at hcontent
  exact ⟨content, hcontent, hsame.trans (hagrees earlier hmem hhash)⟩

end DiskKept

variable [DecidableEq γ]
variable {files files' : DiskFiles γ}
variable {path : CachePath}
variable {fields : Record φ}

theorem writeObject_eq_some_iff : writeObject env files path fields = some files' ↔
      ∃ file, env.file path = some file ∧ files' = Function.update files file
        (some (Json.dumpsIndent env false 0 (.obj fields))) := by
  unfold writeObject
  rw [map_eq_some_iff]
  exact exists_congr fun file => and_congr_right fun _ => eq_comm

theorem hasObject_of_writeObject (h : writeObject env files path fields = some files') :
    HasObject env files' path fields := by
  obtain ⟨file, hfile, rfl⟩ := writeObject_eq_some_iff.mp h
  exact ⟨file, hfile, Function.update_self ..⟩

theorem HasObject.of_writeObject {path path' : CachePath}
    {fields fields' : Record φ} (hobject : HasObject env files path' fields')
    (h : writeObject env files path fields = some files') (hne : env.file path' ≠ env.file path) :
    HasObject env files' path' fields' := by
  obtain ⟨file, hfile, rfl⟩ := writeObject_eq_some_iff.mp h
  obtain ⟨file', hfile', htext⟩ := hobject
  rw [hfile, hfile'] at hne
  refine ⟨file', hfile', ?_⟩
  rw [Function.update_of_ne (fun heq => hne (congrArg some heq)), htext]

/-- A write puts its content where no file is, and then its reference, unless there is a reference
with its hash. -/
inductive Writes (env : DiskEnv φ γ) (files : DiskFiles γ) (write : CatalogWrite φ) :
    DiskFiles γ → Prop
  | skip {ref : Record φ} (href : readBackendRef env files write.slug = some ref)
      (hhash : refContentHash env ref = write.contentHash env) : Writes env files write files
  | shared {files' : DiskFiles γ} (hfile : isFile env files (byHashPath (write.contentHash env)))
      (href : writeObject env files (backendRefPath write.slug) (write.refPayload env) =
        some files') : Writes env files write files'
  | stored {stored files' : DiskFiles γ}
      (hfile : isFile env files (byHashPath (write.contentHash env)) = false)
      (hstored : writeObject env files (byHashPath (write.contentHash env)) (write.envelope env) =
        some stored)
      (href : writeObject env stored (backendRefPath write.slug) (write.refPayload env) =
        some files') : Writes env files write files'

theorem writeObject_isSome (files : DiskFiles γ) {path : CachePath} (fields : Record φ)
    (h : env.file path ≠ none) : ∃ files', writeObject env files path fields = some files' := by
  obtain ⟨file, hfile⟩ := ne_none_iff_exists'.mp h
  exact ⟨_, writeObject_eq_some_iff.mpr ⟨file, hfile, rfl⟩⟩

theorem writes_writeDiskCatalog {files : DiskFiles γ} {write : CatalogWrite φ}
    (href : env.file (backendRefPath write.slug) ≠ none)
    (hcontent : env.file (byHashPath (write.contentHash env)) ≠ none)
    (hlegacy : (env.file (legacyCatalogPath write.slug)).bind files = none) :
    (writeDiskCatalog env write files).1.isSome ∧
      Writes env files write (writeDiskCatalog env write files).2 := by
  have hhas : legacyHasHash env write files = false := by
    unfold legacyHasHash readObject
    rw [hlegacy]
    exact Bool.and_false _
  unfold writeDiskCatalog
  rw [hhas, Bool.or_false]
  cases hreferred : refHasHash env write files with
  | true =>
    refine ⟨rfl, ?_⟩
    unfold refHasHash at hreferred
    split at hreferred
    · rename_i ref hread
      exact .skip hread (beq_iff_eq.mp hreferred)
    · cases hreferred
  | false =>
    rw [cond_false]
    unfold storeEnvelope
    cases hfile : isFile env files (byHashPath (write.contentHash env)) with
    | true =>
      obtain ⟨files', hfiles'⟩ := writeObject_isSome files (write.refPayload env) href
      rw [cond_true]
      dsimp only
      rw [hfiles']
      exact ⟨rfl, .shared hfile hfiles'⟩
    | false =>
      obtain ⟨stored, hstored⟩ := writeObject_isSome files (write.envelope env) hcontent
      obtain ⟨files', hfiles'⟩ := writeObject_isSome stored (write.refPayload env) href
      rw [cond_false, hstored]
      dsimp only
      rw [hfiles']
      exact ⟨rfl, .stored hfile hstored hfiles'⟩

namespace Writes

variable {files files' : DiskFiles γ} {write : CatalogWrite φ}

theorem frame (h : Writes env files write files') {path : CachePath} {fields : Record φ}
    (hobject : HasObject env files path fields)
    (href : env.file path ≠ env.file (backendRefPath write.slug))
    (hcontent : env.file path ≠ env.file (byHashPath (write.contentHash env))) :
    HasObject env files' path fields := by
  cases h with
  | skip _ _ => exact hobject
  | shared _ hwritten => exact hobject.of_writeObject hwritten href
  | stored _ hstored hwritten =>
    exact (hobject.of_writeObject hstored hcontent).of_writeObject hwritten href

theorem files_of_writeObject {file : γ} (h : writeObject env files path fields = some files')
    (hthere : files' file ≠ none) : files file ≠ none ∨ env.file path = some file := by
  obtain ⟨written, hwritten, rfl⟩ := writeObject_eq_some_iff.mp h
  by_cases heq : file = written
  · rw [heq]
    exact .inr hwritten
  · rw [Function.update_of_ne heq] at hthere
    exact .inl hthere

theorem before_or_written (h : Writes env files write files') {file : γ} (hthere : files' file ≠ none) :
    files file ≠ none ∨ env.file (backendRefPath write.slug) = some file ∨
      env.file (byHashPath (write.contentHash env)) = some file := by
  cases h with
  | skip _ _ => exact .inl hthere
  | shared _ href => exact (files_of_writeObject href hthere).imp_right .inl
  | stored _ hstored href =>
    rcases files_of_writeObject href hthere with hbefore | hfile
    · exact (files_of_writeObject hstored hbefore).imp_right .inr
    · exact .inr (.inl hfile)

variable {s : DiskState φ γ}
variable (h : Writes env s.files write files')
include h

theorem ref (hf : env.Lawful) (hkept : DiskKept env s)
    (hown : HasOwnFiles env s write) : ∃ ref : CatalogWrite φ,
      HasObject env files' (backendRefPath write.slug) (ref.refPayload env) ∧
        ref.contentHash env = write.contentHash env := by
  cases h with
  | skip href hhash =>
    obtain ⟨last, hlast⟩ := hkept.ref_of_read hown href
    obtain ⟨stored, hobject, -⟩ := hkept.refs _ _ hlast
    rw [hobject.readBackendRef hf] at href
    cases href
    rw [refContentHash_refPayload] at hhash
    exact ⟨stored, hobject, hhash⟩
  | shared _ href => exact ⟨write, hasObject_of_writeObject href, rfl⟩
  | stored _ _ href => exact ⟨write, hasObject_of_writeObject href, rfl⟩

theorem kept_content (hown : HasOwnFiles env s write) {fields : Record φ}
    (hobject : HasObject env s.files (byHashPath (write.contentHash env)) fields) :
    HasObject env files' (byHashPath (write.contentHash env)) fields := by
  cases h with
  | skip _ _ => exact hobject
  | shared _ href => exact hobject.of_writeObject href hown.apart.symm
  | stored hfile _ _ =>
    obtain ⟨file, hnamed, htext⟩ := hobject
    unfold isFile at hfile
    rw [hnamed, bind_some, htext] at hfile
    cases hfile

theorem content (hf : env.Lawful) (hkept : DiskKept env s)
    (hown : HasOwnFiles env s write) (hagrees : AgreesWithHash env s write) :
    ∃ content : CatalogWrite φ,
      HasObject env files' (byHashPath (write.contentHash env)) (content.envelope env) ∧
        SameTools (content.tools.map .obj) (write.tools.map .obj) := by
  cases h with
  | skip href hhash =>
    obtain ⟨last, hlast⟩ := hkept.ref_of_read hown href
    obtain ⟨stored, hobject, hstored⟩ := hkept.refs _ _ hlast
    rw [hobject.readBackendRef hf] at href
    cases href
    rw [refContentHash_refPayload, hstored] at hhash
    exact hkept.content_of_earlier hagrees (DiskState.mem_of_lastWrite? hlast).1 hhash
  | shared hfile href =>
    obtain ⟨earlier, hmem, hhash⟩ := hkept.content_of_isFile hown hfile
    obtain ⟨content, hobject, hsame⟩ := hkept.content_of_earlier hagrees hmem hhash
    exact ⟨content, (Writes.shared hfile href).kept_content hown hobject, hsame⟩
  | stored _ hstored href =>
    exact ⟨write, (hasObject_of_writeObject hstored).of_writeObject href hown.apart.symm,
      SameTools.refl _⟩

end Writes

/-- One write keeps the invariant. -/
theorem DiskKept.write {s : DiskState φ γ} {write : CatalogWrite φ} {files' : DiskFiles γ}
    (h : DiskKept env s) (hf : env.Lawful) (hown : HasOwnFiles env s write)
    (hagrees : AgreesWithHash env s write) (hwrites : Writes env s.files write files') :
    DiskKept env ⟨files', s.writes ++ [write]⟩ where
  contents := by
    intro other hother
    rcases mem_append.mp hother with hearlier | hnew
    · by_cases hhash : other.contentHash env = write.contentHash env
      · obtain ⟨content, hobject, hsame⟩ := hwrites.content hf h hown hagrees
        rw [hhash]
        exact ⟨content, hobject, hsame.trans (hagrees other hearlier hhash).symm⟩
      · obtain ⟨content, hobject, hsame⟩ := h.contents other hearlier
        exact ⟨content, hwrites.frame hobject (hown.contentApart other hearlier)
          (fun hfile => hhash (hown.contents other hearlier hfile)), hsame⟩
    · rw [mem_singleton.mp hnew]
      exact hwrites.content hf h hown hagrees
  refs := by
    intro slug last hlast
    rw [DiskState.lastWrite?_concat] at hlast
    split at hlast
    · rename_i hslug
      cases hlast
      rw [← hslug]
      exact hwrites.ref hf h hown
    · rename_i hslug
      obtain ⟨ref, hobject, hhash⟩ := h.refs slug last hlast
      obtain ⟨hmem, rfl⟩ := DiskState.mem_of_lastWrite? hlast
      exact ⟨ref, hwrites.frame hobject (fun hfile => hslug (hown.refs last hmem hfile).symm)
        (hown.refApart last hmem), hhash⟩
  files := by
    intro file hthere
    rcases hwrites.before_or_written hthere with hbefore | hfile
    · obtain ⟨earlier, hmem, hfile⟩ := h.files file hbefore
      exact ⟨earlier, mem_append_left _ hmem, hfile⟩
    · exact ⟨write, mem_append_right _ (mem_singleton_self write), hfile⟩

variable {s s' : DiskState φ γ}

theorem writes_step {write : CatalogWrite φ}
    (hown : HasOwnFiles env s write) (hnext : s.step env write = some s') :
    ∃ files', s' = ⟨files', s.writes ++ [write]⟩ ∧ Writes env s.files write files' := by
  obtain ⟨hreturned, hwrites⟩ := writes_writeDiskCatalog hown.ref hown.content hown.legacy
  refine ⟨_, ?_, hwrites⟩
  unfold DiskState.step at hnext
  dsimp only at hnext
  rw [if_pos hreturned] at hnext
  exact (Option.some.inj hnext).symm

theorem DiskKept.agrees_of_returnsWritten {write : CatalogWrite φ} (h : DiskKept env s)
    (hf : env.Lawful) (hown : HasOwnFiles env s write) (hnext : s.step env write = some s')
    (hreturns : s'.ReturnsWritten env) : AgreesWithHash env s write := by
  intro earlier hmem hhash
  obtain ⟨files', rfl, hwrites⟩ := writes_step hown hnext
  obtain ⟨content, hobject, hsame⟩ := h.contents earlier hmem
  obtain ⟨ref, href, hrefHash⟩ := hwrites.ref hf h hown
  rw [hhash] at hobject
  have hkept := hwrites.kept_content hown hobject
  rw [← hrefHash] at hkept
  have hlast : DiskState.lastWrite? ⟨files', s.writes ++ [write]⟩ write.slug = some write := by
    rw [DiskState.lastWrite?_concat, if_pos rfl]
  obtain ⟨envelope, tools, hread, htools, hreturned⟩ := hreturns write.slug write hlast
  rw [readDiskCatalog_eq hf href hkept] at hread
  cases hread
  rw [envelopeTools_envelope] at htools
  cases htools
  exact hsame.symm.trans hreturned

/-- Where all writes have files of their own, and no two of them one hash and different tools, every
slug reads as the tools of the last write to it. -/
theorem DiskState.returnsWritten_of_agrees (hf : env.Lawful) {s : DiskState φ γ}
    {writes : List (CatalogWrite φ)}
    (run : Run (DiskState.step env) (fun s write => HasOwnFiles env s write ∧
      AgreesWithHash env s write) DiskState.start writes s) : s.ReturnsWritten env := by
  have hkept : DiskKept env s := by
    apply run.invariant (P := DiskKept env) .start
    rintro s write s' hkept ⟨hown, hagrees⟩ hnext
    obtain ⟨files', rfl, hwrites⟩ := writes_step hown hnext
    exact hkept.write hf hown hagrees hwrites
  exact hkept.returnsWritten hf

/-- A cache in which every path names a file. -/
def plainDiskEnv : DiskEnv Empty CachePath where
  toCatalogEnv := plainCatalogEnv
  file := some

theorem hasOwnFiles_plainDiskEnv {s : DiskState Empty CachePath} {write : CatalogWrite Empty}
    (hlegacy : s.files (legacyCatalogPath write.slug) = none) :
    HasOwnFiles plainDiskEnv s write := by
  have hapart : ∀ slug hash, backendRefPath slug ≠ byHashPath hash := by
    intro slug hash heq
    have hdir : "backends".toList ≠ "by-hash".toList := by decide
    exact hdir (List.cons.inj heq).1
  refine ⟨some_ne_none _, some_ne_none _, ?_, ?_, ?_, ?_, ?_, hlegacy⟩
  · exact fun heq => hapart _ _ (Option.some.inj heq)
  · intro earlier _ heq
    exact append_cancel_right (List.cons.inj (List.cons.inj (Option.some.inj heq)).2).1
  · intro earlier _ heq
    exact append_cancel_right (List.cons.inj (List.cons.inj (Option.some.inj heq)).2).1
  · exact fun earlier _ heq => hapart _ _ (Option.some.inj heq).symm
  · exact fun earlier _ heq => hapart _ _ (Option.some.inj heq)

def scopedRow (name scope : Text) : Record Empty :=
  [(nameKey, .str name), (inputSchemaKey, .obj []), (serverKeyKey, .str "fs"),
    (catalogScopeKey, .str scope)]

theorem valid_scopedRow (name scope : Text) : (Json.obj (scopedRow name scope)).Valid := by
  have hnodup : [nameKey, inputSchemaKey, serverKeyKey, catalogScopeKey].Nodup := by decide
  exact ⟨hnodup, trivial, ⟨nodup_nil, trivial⟩, trivial, trivial, trivial⟩

/-- A write of the rows of two tools. -/
def rowsWrite (slug : Text) (names : List Text) (scope : Text) : CatalogWrite Empty where
  slug := slug
  agent := "cursor"
  tools := names.map (scopedRow · scope)
  envelopeUpdatedAt := []
  refUpdatedAt := []
  valid := fun tool htool => by
    obtain ⟨name, -, rfl⟩ := List.mem_map.mp htool
    exact valid_scopedRow name scope

def firstWrite : CatalogWrite Empty :=
  rowsWrite "usr".toList ["fs_read".toList, "fs_list".toList] "user".toList

def reorderedWrite : CatalogWrite Empty :=
  rowsWrite "ws".toList ["fs_list".toList, "fs_read".toList] "user".toList

/-- Two slugs share the content of one hash. -/
theorem reorderedWrite_returned : ∃ s : DiskState Empty CachePath,
    s.ReturnsWritten plainDiskEnv ∧ s.writes = [firstWrite, reorderedWrite] := by
  obtain ⟨s, hs⟩ : ∃ s, DiskState.start.step plainDiskEnv firstWrite = some s := ⟨_, rfl⟩
  obtain ⟨s', hs'⟩ : ∃ s', s.step plainDiskEnv reorderedWrite = some s' := ⟨_, rfl⟩
  have hfirst : HasOwnFiles plainDiskEnv DiskState.start firstWrite := hasOwnFiles_plainDiskEnv rfl
  obtain ⟨files, rfl, -⟩ := writes_step hfirst hs
  have hlegacy : files (legacyCatalogPath reorderedWrite.slug) = none := by
    cases hs
    rfl
  have hsecond : HasOwnFiles plainDiskEnv ⟨files, [firstWrite]⟩ reorderedWrite :=
    hasOwnFiles_plainDiskEnv hlegacy
  obtain ⟨files', rfl, -⟩ := writes_step hsecond hs'
  have hagrees : AgreesWithHash plainDiskEnv ⟨files, [firstWrite]⟩ reorderedWrite := by
    intro earlier hearlier _
    rw [mem_singleton.mp hearlier]
    exact SameTools.of_perm (List.Perm.swap _ _ _)
  exact ⟨_, DiskState.returnsWritten_of_agrees Json.noFloats_lawful
    (.snoc (.snoc .nil ⟨hfirst, fun _ h => by cases h⟩ hs) ⟨hsecond, hagrees⟩ hs'), rfl⟩

def rowScope : Json Empty → Option Text
  | .obj fields => (Json.get? fields catalogScopeKey).bind Json.str?
  | _ => none

def rowScopes (tools : List (Json Empty)) : List (Option Text) := (tools.map sortKeys).map rowScope

def rescopedWrite : CatalogWrite Empty :=
  rowsWrite "usr".toList ["fs_read".toList] "workspace".toList

def scopedWrite : CatalogWrite Empty := rowsWrite "usr".toList ["fs_read".toList] "user".toList

/-- A write that changes only the scope of a row is skipped. -/
theorem rescopedWrite_lost : ∃ s, Run (DiskState.step plainDiskEnv) (fun _ _ => True)
    DiskState.start [scopedWrite, rescopedWrite] s ∧ ¬ s.ReturnsWritten plainDiskEnv := by
  obtain ⟨s, hs⟩ : ∃ s, DiskState.start.step plainDiskEnv scopedWrite = some s := ⟨_, rfl⟩
  obtain ⟨s', hs'⟩ : ∃ s', s.step plainDiskEnv rescopedWrite = some s' := ⟨_, rfl⟩
  refine ⟨s', .snoc (.snoc .nil trivial hs) trivial hs', ?_⟩
  intro hreturns
  have hown : HasOwnFiles plainDiskEnv DiskState.start scopedWrite := hasOwnFiles_plainDiskEnv rfl
  obtain ⟨files', rfl, hwrites⟩ := writes_step hown hs
  have hkept := DiskKept.start.write Json.noFloats_lawful hown (fun _ h => by cases h) hwrites
  have hlegacy : files' (legacyCatalogPath rescopedWrite.slug) = none := by
    cases hs
    rfl
  have hagrees := hkept.agrees_of_returnsWritten Json.noFloats_lawful
    (hasOwnFiles_plainDiskEnv hlegacy) hs' hreturns
  have hhash : scopedWrite.contentHash plainDiskEnv = rescopedWrite.contentHash plainDiskEnv := rfl
  have hsame := (hagrees scopedWrite mem_cons_self hhash).map rowScope
  have hscopes : rowScopes (scopedWrite.tools.map .obj) =
      rowScopes (rescopedWrite.tools.map .obj) := perm_singleton.mp hsame
  revert hscopes
  decide

end ClearYourTools.CytMcp

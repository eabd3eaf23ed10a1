import ClearYourTools.Cache.Proofs.SkillEntries
import ClearYourTools.Misc.Runs

/-!
# Each source and its entry

A call of the registry gives each source the document of its own file as long as no other source has
the same entry: page index and document belong to a content, not to a source.
-/

namespace ClearYourTools.Cache

open Misc PageIndex Bm25Cohesion List Option
open RegistryEnvironment (sourceText readToString contentSha256)

/-- A hash in digits. -/
def IsDigest (hash : Text) : Prop := hash ≠ [] ∧ ∀ c ∈ hash, c.isAlphanum = true

section

variable (env : RegistryEnvironment)

/-- A source whose text can be read, with a hash in digits if it comes with one. -/
structure Readable (spec : SkillSourceSpec) : Prop where
  text : ∃ content, env.sourceText spec = .ok content
  hash : ∀ hash ∈ spec.givenHash, IsDigest hash

def OwnDocument (spec : SkillSourceSpec) (doc : SkillDocument) : Prop :=
  doc.id = env.docIdFromPath spec.path ∧ env.shortenHomePath spec.path = .ok doc.path

/-- The entry of a source is its own: the document has the id of the entry and the path of the
source. -/
structure Attributed (spec : SkillSourceSpec) (ref : SkillEntryRef) : Prop where
  docId : ref.docId = env.docIdFromPath spec.path
  sourcePath : ref.sourcePath = spec.path
  document : ∃ doc, ref.document = some doc ∧ OwnDocument env spec doc

variable {env} {spec : SkillSourceSpec}

theorem Readable.isPresent (h : Readable env spec) : env.isPresent spec = true := by
  obtain ⟨content, htext⟩ := h.text
  unfold sourceText at htext
  unfold RegistryEnvironment.isPresent
  cases hcontent : spec.content with
  | some content => rfl
  | none =>
    rw [hcontent] at htext
    unfold readToString at htext
    cases hfile : env.sourceFile spec.path with
    | none =>
      rw [hfile] at htext
      cases htext
    | some file => rfl

theorem Readable.contentSha256_eq (h : Readable env spec) :
    env.contentSha256 spec = .ok (entryHash env spec) ∧ IsDigest (entryHash env spec) := by
  have hdigest : ∀ hash, env.contentSha256 spec = .ok hash → IsDigest hash →
      env.contentSha256 spec = .ok (entryHash env spec) ∧ IsDigest (entryHash env spec) := by
    intro hash heq hhash
    unfold entryHash
    rw [heq]
    exact ⟨rfl, hhash⟩
  obtain ⟨content, htext⟩ := h.text
  cases hgiven : spec.givenHash with
  | some hash =>
    apply hdigest hash
    · unfold contentSha256
      rw [hgiven]
    · exact h.hash hash hgiven
  | none =>
    have hplain := env.contentHash_digits content
    apply hdigest (env.contentHashText content) _ hplain
    unfold contentSha256
    unfold sourceText at htext
    rw [hgiven]
    cases hcontent : spec.content with
    | some given =>
      rw [hcontent, Except.ok.injEq] at htext
      rw [htext]
    | none =>
      rw [hcontent] at htext
      dsimp only at htext ⊢
      unfold readToString at htext
      unfold RegistryEnvironment.fileContentHash
      cases hfile : env.sourceFile spec.path with
      | none =>
        rw [hfile] at htext
        cases htext
      | some file =>
        rw [hfile] at htext
        exact env.hash_of_text spec.path file content hfile htext

theorem slash_notMem_of_isDigest {hash : Text} (h : IsDigest hash) : '/' ∉ hash := by
  intro hslash
  have hdigit := h.2 '/' hslash
  revert hdigit
  decide

theorem entryHashMatches_of_isDigest {hash : Text} (h : IsDigest hash) (root : Text) :
    entryHashMatches (skillEntryDir root hash) hash = true := by
  have hslash : ∀ c ∈ hash.reverse, (c != '/') = true := by
    intro c hc
    rw [bne_iff_ne]
    rintro rfl
    exact slash_notMem_of_isDigest h (mem_reverse.mp hc)
  have hname : fileName (skillEntryDir root hash) = hash := by
    unfold fileName skillEntryDir joinPath
    split
    · rename_i hroot
      rw [reverse_append, takeWhile_append_of_pos hslash]
      have hnil : root.reverse.takeWhile (· != '/') = [] := by
        rcases hroot with rfl | hlast
        · rfl
        rw [← head?_reverse] at hlast
        cases hrev : root.reverse with
        | nil => rfl
        | cons c rest =>
          rw [hrev, head?_cons, some.injEq] at hlast
          rw [hlast]
          rfl
      rw [hnil, List.append_nil, reverse_reverse]
    · rw [reverse_append, reverse_cons, List.append_assoc, takeWhile_append_of_pos hslash,
        singleton_append, takeWhile_cons_of_neg (by simp), List.append_nil, reverse_reverse]
  unfold entryHashMatches
  rw [hname, beq_self_eq_true, Bool.or_true]

theorem buildPageIndex_eq {sourcePath : Text} (hpath : env.shortenHomePath spec.path = .ok sourcePath)
    (content : Text) (config : PageIndexConfig) :
    env.buildPageIndexForContent spec.path content config =
      .ok (builtIndex env config sourcePath (env.docIdFromPath spec.path) content) := by
  unfold RegistryEnvironment.buildPageIndexForContent
  rw [buildIndexForContent_eq, hpath]
  rfl

end

section

variable (env : RegistryEnvironment) (call : RegistryCall) (spec : SkillSourceSpec)

/-- The entry of a source is on disk, with the chunks that a call asks for. -/
def Stored (cache : SkillsCache) : Prop :=
  (∃ page, readPage env (cache.disk (call.entryDir env spec)) = some page) ∧
    HasVariant (cache.disk (call.entryDir env spec)) call.variant

/-- A call can serve a source: it can index it, and what it would find of its entry is the source's
own. -/
structure ServesSource (cache : SkillsCache) : Prop where
  readable : Readable env spec
  path : ∃ sourcePath, env.shortenHomePath spec.path = .ok sourcePath
  chunker : ChunkerAccepts call.config call.variant
  page : call.diskOk = true → ∀ page,
    readPage env (cache.disk (call.entryDir env spec)) = some page → OwnDocument env spec page
  document : call.diskOk = true → ∀ doc,
    cache.mergedDocuments.peek (call.entryDir env spec, call.variant) = some doc →
      OwnDocument env spec doc

/-- What a call gives a source, and what it does to the caches. -/
structure Ensured (cache : SkillsCache) (ref : SkillEntryRef) (cache' : SkillsCache) : Prop where
  kept : CacheKept env cache'
  advances : Advances env (call.entryDir env spec) call.variant
    (OwnDocument env spec) cache cache'
  attributed : Attributed env spec ref
  stored : call.diskOk = true → Stored env call spec cache'
  hit : call.diskOk = true → Stored env call spec cache → ref.cacheStatus = .hit

variable {env call spec} {cache : SkillsCache}

theorem Stored.mono {cache' : SkillsCache} (h : Stored env call spec cache)
    (hpersists : Persists env cache cache') : Stored env call spec cache' := by
  obtain ⟨⟨page, hpage⟩, hvariant⟩ := h
  exact ⟨⟨page, hpersists.pages _ page hpage⟩, hvariant.mono (hpersists.grows _)⟩

theorem RegistryCall.isBm25_variant (call : RegistryCall) : IsBm25 call.variant :=
  isBm25_bm25Variant call.pipeline call.paramsHash

theorem lacksChunks_iff {entryDir docId : Text} {page : SkillDocument}
    (hkept : EntryKept env (cache.disk entryDir))
    (hpage : readPage env (cache.disk entryDir) = some page) (hid : page.id = docId) :
    call.lacksChunks env cache entryDir docId = false ↔
      HasVariant (cache.disk entryDir) call.variant := by
  unfold RegistryCall.lacksChunks HasVariant
  cases hvariant : call.variant with
  | none => simp
  | some v =>
    obtain ⟨pipeline, paramsHash⟩ := v
    have hpipeline : pipeline = "bm25" := call.isBm25_variant _ hvariant
    have hvalid := hkept.chunkVariantValid_iff hpage entryDir pipeline paramsHash docId
    dsimp only
    unfold SkillsCache.chunkVariantValid
    rw [Bool.not_eq_false', ← hpipeline, hvalid]
    constructor
    · intro h v' hv
      rw [mem_some_iff] at hv
      rw [← hv]
      exact h.2
    · intro h
      exact ⟨hid, h (pipeline, paramsHash) (mem_some_self _)⟩

theorem attributed_entryRef {diskBacked lazyPending : Bool} {status : CacheStatus}
    {hash : Text} {doc : SkillDocument} (h : OwnDocument env spec doc) :
    Attributed env spec (call.entryRef env spec hash diskBacked status (some doc) lazyPending) :=
  ⟨rfl, rfl, doc, rfl, h⟩

theorem ownDocument_merged {files : EntryFiles} {variant : ChunkVariant} {page : SkillDocument}
    (h : OwnDocument env spec page) :
    OwnDocument env spec (mergedDocument env files variant page) := by
  unfold OwnDocument
  rw [mergedDocument_id, mergedDocument_path]
  exact h

theorem ownDocument_loaded {files : EntryFiles} {variant : ChunkVariant} {page : SkillDocument}
    {hot : Option SkillDocument} (hhot : ∀ doc, hot = some doc → OwnDocument env spec doc)
    (hpage : OwnDocument env spec page) :
    OwnDocument env spec (hot.getD (mergedDocument env files variant page)) := by
  cases hot with
  | none => exact ownDocument_merged hpage
  | some doc => exact hhot doc rfl

variable (hkept : CacheKept env cache)

include hkept

theorem hit_spec (hserves : ServesSource env call spec cache)
    (hdisk : call.diskOk = true) {page : SkillDocument}
    (hpage : readPage env (cache.disk (call.entryDir env spec)) = some page) :
    ∃ ref cache', call.hit env spec (entryHash env spec) cache = (.ok ref, cache') ∧
      Ensured env call spec cache ref cache' := by
  have hown := hserves.page hdisk page hpage
  obtain ⟨document, cache₁, hload, hdocument, hremembers⟩ :=
    loadDocumentCached_spec (hkept.disk (call.entryDir env spec)) hpage call.variant
  have hownDocument : OwnDocument env spec document := by
    rw [hdocument]
    exact ownDocument_loaded (hserves.document hdisk) hown
  have hkept₁ := hremembers.kept hkept
  have hadvances₁ : Advances env (call.entryDir env spec) call.variant
      (OwnDocument env spec) cache cache₁ := hremembers.advances hownDocument
  have hpage₁ := hadvances₁.pages _ page hpage
  have hlacks : call.lacksChunks env cache₁ (call.entryDir env spec) (env.docIdFromPath spec.path) =
      false ↔ HasVariant (cache₁.disk (call.entryDir env spec)) call.variant :=
    lacksChunks_iff (hkept₁.disk _) hpage₁ hown.1
  have hdir : skillEntryDir (call.root env) (entryHash env spec) = call.entryDir env spec := rfl
  unfold RegistryCall.hit Outcome.andThen
  dsimp only
  rw [hdir, hload]
  dsimp only
  split
  · rename_i hmissing
    obtain ⟨cache₂, hensure, hstays, hvariant⟩ := ensureBm25ChunkVariant_spec hkept₁ hpage₁
      call.isBm25_variant hserves.chunker (env.docIdFromPath spec.path)
    have hadvances := hadvances₁.trans (hstays.advances _ _ _)
    refine ⟨call.entryRef env spec (entryHash env spec) true .miss (some document) false, cache₂,
      ?_, hstays.kept, hadvances, attributed_entryRef hownDocument, ?_, ?_⟩
    · rw [hensure]
    · intro _
      exact ⟨⟨page, hadvances.pages _ page hpage⟩, hvariant⟩
    · intro _ hstored
      have hfalse := hlacks.mpr (hstored.mono hadvances₁.toPersists).2
      rw [hfalse] at hmissing
      cases hmissing
  · rename_i hcomplete
    refine ⟨call.entryRef env spec (entryHash env spec) true .hit (some document) false, cache₁,
      rfl, hkept₁, hadvances₁, attributed_entryRef hownDocument, ?_, ?_⟩
    · intro _
      exact ⟨⟨page, hpage₁⟩, hlacks.mp (Bool.not_eq_true _ ▸ hcomplete)⟩
    · intro _ _
      rfl

theorem persist_spec (hserves : ServesSource env call spec cache) (hdisk : call.diskOk = true)
    (hpage : readPage env (cache.disk (call.entryDir env spec)) = none)
    {sourcePath : Text} (hpath : env.shortenHomePath spec.path = .ok sourcePath) (content : Text) :
    ∃ ref cache', call.persist env spec (entryHash env spec)
        (builtIndex env call.config sourcePath (env.docIdFromPath spec.path)
          content) cache = (.ok ref, cache') ∧ Ensured env call spec cache ref cache' := by
  obtain ⟨files, hfiles⟩ : ∃ files, files = pageFiles env call.config sourcePath
      (env.docIdFromPath spec.path) content (cache.disk (call.entryDir env spec)) := ⟨_, rfl⟩
  obtain ⟨page, hpageEq⟩ : ∃ page, page = pageDocument call.config sourcePath
      (env.docIdFromPath spec.path) content := ⟨_, rfl⟩
  have hown : OwnDocument env spec page := by
    rw [hpageEq]
    exact ⟨rfl, hpath⟩
  have hread : readPage env files = some page := by
    rw [hfiles, hpageEq, readPage_pageFiles]
  have hgrows : Grows (cache.disk (call.entryDir env spec)) files := by
    rw [hfiles]
    exact grows_pageFiles _ _
  have hfilesKept : EntryKept env files := by
    rw [hfiles]
    exact entryKept_pageFiles _ (hkept.disk _)
  -- the page index is written
  have hkept₁ := hkept.write hfilesKept hgrows
  have hadvances₁ : Advances env (call.entryDir env spec) call.variant
      (OwnDocument env spec) cache (cache.write (call.entryDir env spec) files) := by
    apply advances_write hgrows
    · intro page' hpage'
      rw [hpage] at hpage'
      cases hpage'
    · intro page' hpage'
      rw [hread, some.injEq] at hpage'
      rw [← hpage']
      exact .inr hown
  -- the index is stored
  have hindex : IndexKept env files (env.docIdFromPath spec.path) none
      (builtIndex env call.config sourcePath (env.docIdFromPath spec.path) content) := by
    constructor
    · intro pipeline hash raw hraw
      rw [get?_builtIndex_chunkIndex] at hraw
      cases hraw
    · exact ⟨_, get?_documents_builtIndex _, fun _ => chunkless_pageDocument⟩
  obtain ⟨cache₂, hcache₂⟩ : ∃ cache₂, cache₂ =
      (cache.write (call.entryDir env spec) files).storeSkillsIndex (call.entryDir env spec)
        (env.docIdFromPath spec.path) none (builtIndex env call.config sourcePath
          (env.docIdFromPath spec.path) content) := ⟨_, rfl⟩
  have hstays₂ : Stays env (cache.write (call.entryDir env spec) files) cache₂ := by
    rw [hcache₂]
    apply (loads_storeSkillsIndex _ _ _ _ _).stays hkept₁
    rw [disk_write_self]
    exact hindex
  have hpage₂ : readPage env (cache₂.disk (call.entryDir env spec)) = some page := by
    rw [hstays₂.page, disk_write_self, hread]
  -- the chunk variant is ensured, and the document loaded
  obtain ⟨cache₃, hensure, hstays₃, hvariant⟩ := ensureBm25ChunkVariant_spec hstays₂.kept hpage₂
    call.isBm25_variant hserves.chunker (env.docIdFromPath spec.path)
  have hpage₃ : readPage env (cache₃.disk (call.entryDir env spec)) = some page := by
    rw [hstays₃.page, hpage₂]
  obtain ⟨document, cache₄, hload, hdocument, hremembers⟩ :=
    loadDocumentCached_spec (hstays₃.kept.disk (call.entryDir env spec)) hpage₃ call.variant
  have hownDocument : OwnDocument env spec document := by
    rw [hdocument, hstays₃.documents, hstays₂.documents]
    exact ownDocument_loaded (hserves.document hdisk) hown
  have hadvances := ((hadvances₁.trans (hstays₂.advances _ _ _)).trans
    (hstays₃.advances _ _ _)).trans (hremembers.advances hownDocument)
  refine ⟨call.entryRef env spec (entryHash env spec) true .miss (some document) false, cache₄,
    ?_, hremembers.kept hstays₃.kept, hadvances, attributed_entryRef hownDocument, ?_, ?_⟩
  · have hdir : skillEntryDir (call.root env) (entryHash env spec) = call.entryDir env spec := rfl
    unfold RegistryCall.persist SkillsCache.writePageIndexEntry Outcome.andThen
    dsimp only
    rw [hdir, writePageIndexEntry_eq, ← hfiles]
    dsimp only
    rw [← hcache₂, hensure]
    dsimp only
    rw [hload]
  · intro _
    refine ⟨⟨page, ?_⟩, ?_⟩
    · rw [hremembers.disk, hpage₃]
    · rw [hremembers.disk]
      exact hvariant
  · rintro _ ⟨⟨page', hpage'⟩, -⟩
    rw [hpage] at hpage'
    cases hpage'

theorem keep_spec (hdisk : call.diskOk = false)
    {sourcePath : Text} (hpath : env.shortenHomePath spec.path = .ok sourcePath) (content : Text) :
    ∃ ref cache', call.keep env spec (entryHash env spec)
        (builtIndex env call.config sourcePath (env.docIdFromPath spec.path)
          content) cache = (.ok ref, cache') ∧ Ensured env call spec cache ref cache' := by
  have hown : OwnDocument env spec (pageDocument call.config sourcePath
      (env.docIdFromPath spec.path) content) := ⟨rfl, hpath⟩
  have hremembers := remembers_storeMergedDocument cache (call.entryDir env spec) call.variant
    (pageDocument call.config sourcePath (env.docIdFromPath spec.path) content)
  have hfalse : ∀ {P : Prop}, call.diskOk = true → P := by
    intro P htrue
    rw [hdisk] at htrue
    cases htrue
  unfold RegistryCall.keep
  rw [get?_documents_builtIndex]
  exact ⟨_, _, rfl, hremembers.kept hkept, hremembers.advances hown, attributed_entryRef hown,
    hfalse, hfalse⟩

theorem ensureOneSkillEntry_spec
    (hserves : ServesSource env call spec cache) (heager : call.lazyRegistry = false) :
    ∃ ref cache', call.ensureOneSkillEntry env spec cache = (.ok ref, cache') ∧
      Ensured env call spec cache ref cache' := by
  obtain ⟨hhash, hdigest⟩ := hserves.readable.contentSha256_eq
  obtain ⟨sourcePath, hpath⟩ := hserves.path
  obtain ⟨content, htext⟩ := hserves.readable.text
  have hdir : skillEntryDir (call.root env) (entryHash env spec) = call.entryDir env spec := rfl
  have hvalid := (hkept.disk (call.entryDir env spec)).page.pageIndexValid_iff
    (entryHashMatches_of_isDigest hdigest (call.root env))
  rw [hdir] at hvalid
  unfold RegistryCall.ensureOneSkillEntry
  rw [hhash]
  dsimp only
  rw [hdir]
  split
  · rename_i hhit
    rw [Bool.and_eq_true] at hhit
    obtain ⟨page, hpage, -⟩ := (hkept.disk (call.entryDir env spec)).page.exists_page
      (hvalid.mp hhit.2)
    exact hit_spec hkept hserves hhit.1 hpage
  · rename_i hmiss
    rw [heager, Bool.false_and, if_neg (by simp)]
    unfold RegistryCall.build
    rw [htext]
    dsimp only
    rw [buildPageIndex_eq hpath]
    dsimp only
    cases hdisk : call.diskOk with
    | false =>
      rw [if_neg (by simp)]
      exact keep_spec hkept hdisk hpath content
    | true =>
      rw [if_pos rfl]
      apply persist_spec hkept hserves hdisk _ hpath content
      cases hpage : readPage env (cache.disk (call.entryDir env spec)) with
      | none => rfl
      | some page =>
        rw [hdisk, Bool.true_and] at hmiss
        exact absurd (hvalid.mpr (contains_of_readPage hpage)) hmiss

end

section

variable (env : RegistryEnvironment) (call : RegistryCall)

/-- Sources with the same entry are for the same document. -/
def EntriesAgree (sources : List SkillSourceSpec) : Prop :=
  ∀ a ∈ sources, ∀ b ∈ sources, call.entryDir env a = call.entryDir env b →
    env.docIdFromPath a.path = env.docIdFromPath b.path ∧
      env.shortenHomePath a.path = env.shortenHomePath b.path

variable {env call} {cache cache' : SkillsCache}

theorem OwnDocument.congr {a b : SkillSourceSpec} {doc : SkillDocument} (h : OwnDocument env a doc)
    (hsame : env.docIdFromPath a.path = env.docIdFromPath b.path ∧
      env.shortenHomePath a.path = env.shortenHomePath b.path) : OwnDocument env b doc := by
  unfold OwnDocument at h ⊢
  rw [← hsame.1, ← hsame.2]
  exact h

theorem ServesSource.of_ensured {a b : SkillSourceSpec} {ref : SkillEntryRef}
    (h : ServesSource env call b cache) (hensured : Ensured env call a cache ref cache')
    (hagree : call.diskOk = true → call.entryDir env a = call.entryDir env b →
      env.docIdFromPath a.path = env.docIdFromPath b.path ∧
        env.shortenHomePath a.path = env.shortenHomePath b.path) :
    ServesSource env call b cache' where
  readable := h.readable
  path := h.path
  chunker := h.chunker
  page := by
    intro hdisk page hpage
    rcases hensured.advances.newPage _ page hpage with hold | ⟨hdir, hown⟩
    · exact h.page hdisk page hold
    · exact hown.congr (hagree hdisk hdir.symm)
  document := by
    intro hdisk doc hdoc
    rcases hensured.advances.newDocument _ doc hdoc with hold | ⟨hkey, hown⟩
    · exact h.document hdisk doc hold
    · exact hown.congr (hagree hdisk (congrArg Prod.fst hkey).symm)

theorem ensureEntries_spec (heager : call.lazyRegistry = false) {sources : List SkillSourceSpec}
    (hagree : call.diskOk = true → EntriesAgree env call sources) (hkept : CacheKept env cache)
    (hserves : ∀ spec ∈ sources, ServesSource env call spec cache) :
    ∃ refs cache', call.ensureEntries env sources cache = (.ok refs, cache') ∧
      CacheKept env cache' ∧ Persists env cache cache' ∧
      List.Forall₂ (fun spec ref => Attributed env spec ref ∧
        (call.diskOk = true → Stored env call spec cache → ref.cacheStatus = .hit)) sources refs ∧
      (call.diskOk = true → ∀ spec ∈ sources, Stored env call spec cache') := by
  induction sources generalizing cache with
  | nil => exact ⟨[], cache, rfl, hkept, .refl cache, .nil, fun _ spec hspec => nomatch hspec⟩
  | cons spec rest ih =>
    have hspec := hserves spec mem_cons_self
    obtain ⟨ref, cache₁, hensure, hensured⟩ := ensureOneSkillEntry_spec hkept hspec heager
    have hrest : ∀ other ∈ rest, ServesSource env call other cache₁ := by
      intro other hother
      have hserved := hserves other (mem_cons_of_mem _ hother)
      exact hserved.of_ensured hensured fun hdisk =>
        hagree hdisk spec mem_cons_self other (mem_cons_of_mem _ hother)
    have hagreeRest : call.diskOk = true → EntriesAgree env call rest := fun hdisk a ha b hb =>
      hagree hdisk a (mem_cons_of_mem _ ha) b (mem_cons_of_mem _ hb)
    obtain ⟨refs, cache₂, hensures, hkept₂, hpersists, hall, hstored⟩ :=
      ih hagreeRest hensured.kept hrest
    have hfirst := hensured.advances.toPersists
    refine ⟨ref :: refs, cache₂, ?_, hkept₂, hfirst.trans hpersists, .cons ?_ ?_, ?_⟩
    · unfold RegistryCall.ensureEntries Outcome.andThen
      rw [if_pos hspec.readable.isPresent, hensure]
      dsimp only
      rw [hensures]
    · exact ⟨hensured.attributed, hensured.hit⟩
    · apply hall.imp
      intro other ref' h
      exact ⟨h.1, fun hdisk hbefore => h.2 hdisk (hbefore.mono hfirst)⟩
    · intro hdisk other hother
      rcases mem_cons.mp hother with rfl | hother
      · exact (hensured.stored hdisk).mono hpersists
      · exact hstored hdisk other hother

end

section

variable (env : RegistryEnvironment)

/-- A call for readable sources, with the lazy registry off. -/
structure Admissible (call : RegistryCall) : Prop where
  eager : call.lazyRegistry = false
  readable : ∀ spec ∈ call.sources, Readable env spec

/-- An earlier call was for the same source, with the same entry and chunk variant. -/
def Built (s : Served) (call : RegistryCall) (spec : SkillSourceSpec) : Prop :=
  ∃ earlier ∈ s.calls, ∃ spec' ∈ earlier.sources, spec'.path = spec.path ∧
    earlier.entryDir env spec' = call.entryDir env spec ∧ earlier.variant = call.variant

/-- An earlier call had a disk to build the entry on, with the chunks. -/
def BuiltOnDisk (s : Served) (call : RegistryCall) (spec : SkillSourceSpec) : Prop :=
  ∃ earlier ∈ s.calls, earlier.diskOk = true ∧ ∃ spec' ∈ earlier.sources,
    earlier.entryDir env spec' = call.entryDir env spec ∧
      (call.variant = none ∨ earlier.variant = call.variant)

/-- The sources of a call can be indexed, and their entries are their own: the page index on disk and
the document in memory, if there are any, and those of the other sources. A source that was there
before has its entry on disk. -/
structure OwnEntries (s : Served) (call : RegistryCall) : Prop where
  path : ∀ spec ∈ call.sources, ∃ sourcePath, env.shortenHomePath spec.path = .ok sourcePath
  chunker : ChunkerAccepts call.config call.variant
  page : call.diskOk = true → ∀ spec ∈ call.sources, ∀ page,
    readPage env (s.cache.disk (call.entryDir env spec)) = some page → OwnDocument env spec page
  document : call.diskOk = true → ∀ spec ∈ call.sources, ∀ doc,
    s.cache.mergedDocuments.peek (call.entryDir env spec, call.variant) = some doc →
      OwnDocument env spec doc
  agree : call.diskOk = true → EntriesAgree env call call.sources
  again : ∀ spec ∈ call.sources, Built env s call spec →
    call.diskOk = true ∧ BuiltOnDisk env s call spec

/-- There is one entry for each source, in the order of the sources and each for its own document,
and a source that was there before is hit. -/
def RegistryAttributes (s : Served) (call : RegistryCall) : Prop :=
  ∃ refs, (ensureSkillsRegistry env call s.cache).1 = .ok refs ∧
    List.Forall₂ (fun spec ref => Attributed env spec ref ∧
      (Built env s call spec → ref.cacheStatus = .hit)) call.sources refs

/-- The condition on the calls of a run. -/
def MeetsOwn (s : Served) : RegistryAction → Prop
  | .call call => Admissible env call ∧ OwnEntries env s call
  | .reset _ _ => True

/-- What every run keeps: the entries of the calls that had a disk are on it. -/
structure ServedKept (s : Served) : Prop where
  cache : CacheKept env s.cache
  stored : ∀ earlier ∈ s.calls, earlier.diskOk = true → ∀ spec ∈ earlier.sources,
    Stored env earlier spec s.cache

variable {env} {s s' : Served} {call : RegistryCall}

theorem stored_of_builtOnDisk {spec : SkillSourceSpec} (hkept : ServedKept env s)
    (h : BuiltOnDisk env s call spec) : Stored env call spec s.cache := by
  obtain ⟨earlier, hearlier, hdisk, spec', hspec', hdir, hvariant⟩ := h
  obtain ⟨hpage, hchunks⟩ := hkept.stored earlier hearlier hdisk spec' hspec'
  unfold Stored
  rw [← hdir]
  refine ⟨hpage, ?_⟩
  rcases hvariant with hnone | hsame
  · rw [hnone]
    intro v hv
    cases hv
  · rw [← hsame]
    exact hchunks

/-- A call that meets the condition attributes its sources, and keeps the run. -/
theorem attributes_call (hkept : ServedKept env s) (hadmissible : Admissible env call)
    (hown : OwnEntries env s call) :
    RegistryAttributes env s call ∧
      ServedKept env ⟨(ensureSkillsRegistry env call s.cache).2, s.calls ++ [call]⟩ := by
  have hserves : ∀ spec ∈ call.sources, ServesSource env call spec s.cache := by
    intro spec hspec
    exact ⟨hadmissible.readable spec hspec, hown.path spec hspec, hown.chunker,
      fun hdisk => hown.page hdisk spec hspec, fun hdisk => hown.document hdisk spec hspec⟩
  obtain ⟨refs, cache', hcall, hkept', hpersists, hall, hstored⟩ :=
    ensureEntries_spec hadmissible.eager hown.agree hkept.cache hserves
  have heq : ensureSkillsRegistry env call s.cache = (.ok refs, cache') := hcall
  constructor
  · refine ⟨refs, congrArg Prod.fst heq, ?_⟩
    have hzip := forall₂_iff_zip.mp hall
    refine forall₂_iff_zip.mpr ⟨hzip.1, ?_⟩
    intro spec ref hin
    obtain ⟨hattributed, hhit⟩ := hzip.2 hin
    refine ⟨hattributed, ?_⟩
    intro hbuilt
    obtain ⟨hdisk, honDisk⟩ := hown.again spec (of_mem_zip hin).1 hbuilt
    exact hhit hdisk (stored_of_builtOnDisk hkept honDisk)
  · rw [heq]
    refine ⟨hkept', ?_⟩
    intro earlier hearlier hdisk spec hspec
    rcases mem_append.mp hearlier with hold | hnew
    · exact (hkept.stored earlier hold hdisk spec hspec).mono hpersists
    · rw [mem_singleton] at hnew
      subst hnew
      exact hstored hdisk spec hspec

theorem servedKept_start (lruMergedDocuments lruSkillsIndex : ℕ) :
    ServedKept env (.start lruMergedDocuments lruSkillsIndex) where
  cache := cacheKept_empty _ _
  stored := by
    intro earlier hearlier
    cases hearlier

theorem servedKept_step {a : RegistryAction} (hkept : ServedKept env s) (hmeets : MeetsOwn env s a)
    (hstep : s.step env a = some s') : ServedKept env s' := by
  cases a with
  | call call =>
    cases hstep
    exact (attributes_call hkept hmeets.1 hmeets.2).2
  | reset lruMergedDocuments lruSkillsIndex =>
    cases hstep
    exact ⟨⟨hkept.cache.disk, Lru.all_new _⟩, hkept.stored⟩

/-- As long as the entries of the sources are their own, every call of a run gives each source its own
document, and hits what it has built. -/
theorem registryAttributes_of_ownEntries {lruMergedDocuments lruSkillsIndex : ℕ}
    {actions : List RegistryAction}
    (run : Run (Served.step env) (MeetsOwn env) (.start lruMergedDocuments lruSkillsIndex) actions s)
    (hcall : MeetsOwn env s (.call call)) : RegistryAttributes env s call := by
  have hkept : ServedKept env s :=
    run.invariant (servedKept_start _ _) fun hkept hmeets hstep =>
      servedKept_step hkept hmeets hstep
  exact (attributes_call hkept hcall.1 hcall.2).1

end

/-- Digits for a text, other ones for other letters. -/
def plainHash (content : Text) : Text := '0' :: content.map fun c => if c.isAlphanum then c else 'f'

/-- Some files, and no home directory. -/
def plainRegistry (files : List (Text × Text)) : RegistryEnvironment where
  toEntryEnvironment := plainEntryEnvironment
  sourceFile path := (files.lookup path).map fun content => ⟨.ok (plainHash content), .ok content⟩
  missingFile := "No such file or directory (os error 2)"
  contentHashText := plainHash
  expandTilde path := path
  toLowercase t := t.map Char.toLower
  hash_of_text := by
    intro path file content hfile htext
    obtain ⟨text, -, rfl⟩ := Option.map_eq_some_iff.mp hfile
    cases htext
    rfl
  contentHash_digits := by
    intro content
    refine ⟨List.cons_ne_nil _ _, ?_⟩
    intro c hc
    rcases List.mem_cons.mp hc with rfl | hc
    · decide
    · obtain ⟨d, -, rfl⟩ := List.mem_map.mp hc
      split
      · assumption
      · decide

def skillSource (path : String) : SkillSourceSpec := ⟨path.toList, none, none⟩

/-- A call for two skills, with their chunks. -/
def skillsCall : RegistryCall where
  sources := [skillSource "a.md", skillSource "b.md"]
  catalogRoot := "cache"
  config := .default
  pipeline := "bm25"
  paramsHash := "p"
  policy := .auto
  diskAvailable := true
  lazyRegistry := false

def differentSkills : RegistryEnvironment := plainRegistry [("a.md", "# A"), ("b.md", "# B")]

def twinSkills : RegistryEnvironment := plainRegistry [("a.md", "# A"), ("b.md", "# A")]

theorem admissible_skillsCall {first second : Text} :
    Admissible (plainRegistry [("a.md", first), ("b.md", second)]) skillsCall where
  eager := rfl
  readable := by
    intro spec hspec
    rcases mem_cons.mp hspec with rfl | hspec
    · exact ⟨⟨first, rfl⟩, fun _ hhash => nomatch hhash⟩
    · rw [mem_singleton] at hspec
      subst hspec
      exact ⟨⟨second, rfl⟩, fun _ hhash => nomatch hhash⟩

theorem chunkerAccepts_skillsCall : ChunkerAccepts skillsCall.config skillsCall.variant :=
  chunkerAccepts_of_validate (by decide +kernel)

instance (env : RegistryEnvironment) (spec : SkillSourceSpec) (doc : SkillDocument) :
    Decidable (OwnDocument env spec doc) :=
  inferInstanceAs (Decidable (_ ∧ _))

theorem ownDocument_of_all {env : RegistryEnvironment} {spec : SkillSourceSpec}
    {found : Option SkillDocument} (h : found.all (fun doc => decide (OwnDocument env spec doc)) = true) :
    ∀ doc, found = some doc → OwnDocument env spec doc := by
  rintro doc rfl
  exact of_decide_eq_true h

/-- The state after one call. -/
def servedOnce (env : RegistryEnvironment) : Served :=
  ⟨(ensureSkillsRegistry env skillsCall (.empty 128 64)).2, [skillsCall]⟩

theorem registryAttributes_differentSkills :
    RegistryAttributes differentSkills (servedOnce differentSkills) skillsCall := by
  have hadmissible : Admissible differentSkills skillsCall := admissible_skillsCall
  have hagree : EntriesAgree differentSkills skillsCall skillsCall.sources := by
    unfold EntriesAgree
    decide +kernel
  have hfirst : MeetsOwn differentSkills (.start 128 64) (.call skillsCall) := by
    refine ⟨hadmissible, fun _ _ => ⟨_, rfl⟩, chunkerAccepts_skillsCall, ?_, ?_,
      fun _ => hagree, ?_⟩
    · intro _ spec _ page hpage
      cases hpage
    · intro _ spec _ doc hdoc
      cases hdoc
    · rintro spec _ ⟨earlier, hearlier, _⟩
      cases hearlier
  have hsecond : MeetsOwn differentSkills (servedOnce differentSkills) (.call skillsCall) := by
    refine ⟨hadmissible, fun _ _ => ⟨_, rfl⟩, chunkerAccepts_skillsCall, ?_, ?_,
      fun _ => hagree, ?_⟩
    · have hall : ∀ spec ∈ skillsCall.sources, (readPage differentSkills
          ((servedOnce differentSkills).cache.disk
            (skillsCall.entryDir differentSkills spec))).all
              (fun doc => decide (OwnDocument differentSkills spec doc)) = true := by
        decide +kernel
      intro _ spec hspec
      exact ownDocument_of_all (hall spec hspec)
    · have hall : ∀ spec ∈ skillsCall.sources,
          ((servedOnce differentSkills).cache.mergedDocuments.peek
            (skillsCall.entryDir differentSkills spec, skillsCall.variant)).all
              (fun doc => decide (OwnDocument differentSkills spec doc)) = true := by
        decide +kernel
      intro _ spec hspec
      exact ownDocument_of_all (hall spec hspec)
    · intro spec hspec _
      exact ⟨rfl, skillsCall, mem_singleton_self _, rfl, spec, hspec, rfl, .inr rfl⟩
  exact registryAttributes_of_ownEntries (.snoc .nil hfirst rfl) hsecond

/-- Of two skills with the same text the second gets the document of the first. -/
theorem registry_confuses_twinSkills :
    ¬ ∀ (env : RegistryEnvironment) (call : RegistryCall), Admissible env call →
      (∀ spec ∈ call.sources, ∃ sourcePath, env.shortenHomePath spec.path = .ok sourcePath) →
      ChunkerAccepts call.config call.variant → RegistryAttributes env (.start 128 64) call := by
  intro h
  obtain ⟨refs, hcall, hall⟩ := h twinSkills skillsCall admissible_skillsCall
    (fun _ _ => ⟨_, rfl⟩) chunkerAccepts_skillsCall
  have hids : ((ensureSkillsRegistry twinSkills skillsCall (.empty 128 64)).1.toOption.map
      fun refs => refs.map fun ref => ref.document.map SkillDocument.id) =
        some [some "a".toList, some "a".toList] := by
    decide +kernel
  have hcall' : (ensureSkillsRegistry twinSkills skillsCall (.empty 128 64)).1 = .ok refs := hcall
  rw [hcall'] at hids
  rw [Except.toOption, map_some, some.injEq] at hids
  cases hall with
  | cons _ hrest =>
    cases hrest with
    | @cons _ ref _ rest hsecond _ =>
      obtain ⟨doc, hdoc, hown, -⟩ := hsecond.1.document
      rw [map_cons, map_cons, hdoc, map_some, hown] at hids
      have hid := (List.cons.inj (List.cons.inj hids).2).1
      revert hid
      decide

end ClearYourTools.Cache

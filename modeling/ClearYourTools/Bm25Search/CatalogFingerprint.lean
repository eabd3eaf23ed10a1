import Mathlib.Data.String.Basic
import Mathlib.Data.List.Sort
import ClearYourTools.Misc.Text

/-!
# The fingerprint of a catalog

`bm25_search/catalog.rs`: the documents of a catalog are fed to a hash, each list key and each text
with a NUL behind it.
-/

namespace ClearYourTools.Bm25Search

open Misc List

structure CatalogDocument where
  listKey : Text
  itemIndex : ℕ
  text : Text
deriving DecidableEq

/-- The tuples that `sorted.sort_by` compares. -/
def CatalogDocument.le (a b : CatalogDocument) : Prop :=
  a.listKey < b.listKey ∨ a.listKey = b.listKey ∧
    (a.itemIndex < b.itemIndex ∨ a.itemIndex = b.itemIndex ∧ a.text ≤ b.text)

instance : DecidableRel CatalogDocument.le := fun _ _ =>
  inferInstanceAs (Decidable (_ ∨ _ ∧ (_ ∨ _ ∧ _)))

/-- What is fed of the configuration, the numbers as their bytes. -/
structure FingerprintConfig where
  stemLanguage : Text
  stopwords : Text
  useStopwords : Bool
  k1 : ByteArray
  b : ByteArray

def nul : Char := Char.ofNat 0

def asBytes (t : Text) : ByteArray := (String.ofList t).toByteArray

def fingerprintHeader (cfg : FingerprintConfig) : ByteArray :=
  asBytes "v3-unified-analyzer" ++ asBytes [nul] ++ asBytes cfg.stemLanguage ++
    asBytes [nul] ++ asBytes cfg.stopwords ++ asBytes [nul] ++
    ⟨#[if cfg.useStopwords then 1 else 0]⟩ ++ asBytes [nul] ++ cfg.k1 ++ asBytes [nul] ++ cfg.b ++
    asBytes [nul]

/-- What `catalog_fingerprint` feeds to the hash. -/
def catalogFingerprint (cfg : FingerprintConfig) (docs : List CatalogDocument) : ByteArray :=
  (docs.insertionSort CatalogDocument.le).foldl (fun fed doc =>
    fed ++ asBytes doc.listKey ++ asBytes [nul] ++ asBytes doc.text ++ asBytes [nul])
    (fingerprintHeader cfg)

/-- The documents of a list, given by the texts of its items: an item without a text has none. -/
def listDocuments (listKey : Text) (texts : List Text) : List CatalogDocument :=
  texts.zipIdx.filterMap fun item =>
    if item.1.isEmpty then none else some ⟨listKey, item.2, item.1⟩

/-- The lists of a catalog, as the texts of their items. -/
structure CatalogTexts where
  json : List Text
  md : List Text

def collectCatalogDocuments (data : CatalogTexts) : List CatalogDocument :=
  listDocuments "json" data.json ++ listDocuments "md" data.md

/-- The corpus with its list keys. -/
def entries (data : CatalogTexts) : List (Text × Text) :=
  (collectCatalogDocuments data).map fun doc => (doc.listKey, doc.text)

/-- The list keys, and the texts cut at their NULs. -/
def pieces (data : CatalogTexts) : List Text :=
  (entries data).flatMap fun entry => entry.1 :: entry.2.splitOn nul

theorem pairwise_listDocuments (listKey : Text) (texts : List Text) :
    (listDocuments listKey texts).Pairwise CatalogDocument.le := by
  have hindices : texts.zipIdx.Pairwise fun a b => a.2 < b.2 := by
    rw [← pairwise_map (f := Prod.snd) (R := (· < ·)), zipIdx_map_snd]
    exact pairwise_lt_range'
  refine hindices.filterMap _ fun a b hab doc hdoc doc' hdoc' => ?_
  split at hdoc
  · cases hdoc
  · split at hdoc'
    · cases hdoc'
    · cases hdoc
      cases hdoc'
      exact .inr ⟨rfl, .inl hab⟩

theorem listKey_of_mem {listKey : Text} {texts : List Text} {doc : CatalogDocument}
    (h : doc ∈ listDocuments listKey texts) : doc.listKey = listKey := by
  obtain ⟨item, -, hdoc⟩ := mem_filterMap.mp h
  split at hdoc
  · cases hdoc
  · cases hdoc
    rfl

variable (data : CatalogTexts)

theorem sort_collectCatalogDocuments :
    (collectCatalogDocuments data).insertionSort CatalogDocument.le =
      collectCatalogDocuments data := by
  refine Pairwise.insertionSort_eq (pairwise_append.mpr ⟨pairwise_listDocuments _ _,
    pairwise_listDocuments _ _, fun a ha b hb => .inl ?_⟩)
  rw [listKey_of_mem ha, listKey_of_mem hb]
  decide

theorem asBytes_append (t u : Text) : asBytes (t ++ u) = asBytes t ++ asBytes u := by
  rw [asBytes, String.ofList_append, String.toByteArray_append]
  rfl

theorem asBytes_inj {t u : Text} : asBytes t = asBytes u ↔ t = u := by
  rw [asBytes, asBytes, String.toByteArray_inj, String.ofList_inj]

def fedText (data : CatalogTexts) : Text :=
  (entries data).flatMap fun entry => entry.1 ++ nul :: (entry.2 ++ [nul])

variable (cfg : FingerprintConfig)

theorem catalogFingerprint_eq :
    catalogFingerprint cfg (collectCatalogDocuments data) =
      fingerprintHeader cfg ++ asBytes (fedText data) := by
  have hfold : ∀ (docs : List CatalogDocument) (fed : ByteArray),
      docs.foldl (fun fed doc =>
        fed ++ asBytes doc.listKey ++ asBytes [nul] ++ asBytes doc.text ++ asBytes [nul]) fed =
      fed ++ asBytes ((docs.map fun doc => (doc.listKey, doc.text)).flatMap fun entry =>
        entry.1 ++ nul :: (entry.2 ++ [nul])) := by
    intro docs
    induction docs with
    | nil => exact fun fed => ByteArray.append_empty.symm
    | cons doc docs ih =>
      intro fed
      rw [foldl_cons, ih, map_cons, flatMap_cons, ← singleton_append (l := doc.text ++ [nul])]
      simp only [asBytes_append, ByteArray.append_assoc]
  rw [catalogFingerprint, sort_collectCatalogDocuments, hfold]
  rfl

theorem nul_notMem_listKey {data : CatalogTexts} {entry : Text × Text} (h : entry ∈ entries data) :
    nul ∉ entry.1 := by
  obtain ⟨doc, hdoc, rfl⟩ := mem_map.mp h
  rcases mem_append.mp hdoc with hjson | hmd
  · have hkey : nul ∉ "json".toList := by decide
    exact listKey_of_mem hjson ▸ hkey
  · have hkey : nul ∉ "md".toList := by decide
    exact listKey_of_mem hmd ▸ hkey

/-- What is fed can be cut into the pieces again. -/
theorem splitOn_fedText : (fedText data).splitOn nul = pieces data ++ [[]] := by
  have hcut : ∀ es : List (Text × Text), (∀ entry ∈ es, nul ∉ entry.1) →
      (es.flatMap fun entry => entry.1 ++ nul :: (entry.2 ++ [nul])).splitOn nul =
        (es.flatMap fun entry => entry.1 :: entry.2.splitOn nul) ++ [[]] := by
    intro es
    induction es with
    | nil => exact fun _ => rfl
    | cons entry es ih =>
      intro hkeys
      obtain ⟨hkey, hrest⟩ := forall_mem_cons.mp hkeys
      have hfed : (entry :: es).flatMap (fun entry => entry.1 ++ nul :: (entry.2 ++ [nul])) =
          entry.1 ++ nul :: (entry.2 ++ nul :: es.flatMap
            fun entry => entry.1 ++ nul :: (entry.2 ++ [nul])) := by
        simp [flatMap_cons]
      rw [hfed, splitOn_append_cons_self, splitOn_append_cons_self, splitOn_eq_singleton hkey,
        ih hrest, flatMap_cons]
      simp
  exact hcut _ fun entry hentry => nul_notMem_listKey hentry

/-- The same bytes are fed if and only if the pieces are the same. -/
theorem catalogFingerprint_eq_iff (data data' : CatalogTexts) :
    catalogFingerprint cfg (collectCatalogDocuments data) =
        catalogFingerprint cfg (collectCatalogDocuments data') ↔ pieces data = pieces data' := by
  rw [catalogFingerprint_eq, catalogFingerprint_eq, ByteArray.append_right_inj, asBytes_inj]
  constructor
  · intro h
    have hcut := congrArg (splitOn nul) h
    rw [splitOn_fedText, splitOn_fedText] at hcut
    exact append_cancel_right hcut
  · intro h
    have hjoin : ∀ t : Text, [nul].intercalate (splitOn nul t) = t := fun _ => intercalate_splitOn nul
    rw [← hjoin (fedText data), splitOn_fedText, h, ← splitOn_fedText, hjoin]

/-- Catalogs of which the same bytes are fed have the same corpus. -/
def Separated (cfg : FingerprintConfig) (data data' : CatalogTexts) : Prop :=
  catalogFingerprint cfg (collectCatalogDocuments data) =
    catalogFingerprint cfg (collectCatalogDocuments data') → entries data = entries data'

def NulFree (data : CatalogTexts) : Prop := ∀ entry ∈ entries data, nul ∉ entry.2

/-- Catalogs are told apart if and only if they have the same corpus or their texts, cut at the
NULs, differ; without NULs they always are. -/
theorem separated_iff (cfg : FingerprintConfig) (data data' : CatalogTexts) :
    (Separated cfg data data' ↔ entries data = entries data' ∨ pieces data ≠ pieces data') ∧
      (NulFree data → NulFree data' → Separated cfg data data') := by
  have hiff : Separated cfg data data' ↔
      entries data = entries data' ∨ pieces data ≠ pieces data' := by
    rw [Separated, catalogFingerprint_eq_iff, imp_iff_or_not]
  refine ⟨hiff, fun h h' hfed => ?_⟩
  have hpieces : ∀ es es' : List (Text × Text), (∀ entry ∈ es, nul ∉ entry.2) →
      (∀ entry ∈ es', nul ∉ entry.2) →
      (es.flatMap fun entry => entry.1 :: entry.2.splitOn nul) =
        (es'.flatMap fun entry => entry.1 :: entry.2.splitOn nul) → es = es' := by
    intro es
    induction es with
    | nil =>
      intro es' _ _ heq
      cases es' with
      | nil => rfl
      | cons entry es' => cases heq
    | cons entry es ih =>
      intro es' hes hes' heq
      obtain ⟨hentry, hes⟩ := forall_mem_cons.mp hes
      cases es' with
      | nil => cases heq
      | cons entry' es' =>
        obtain ⟨hentry', hes'⟩ := forall_mem_cons.mp hes'
        rw [flatMap_cons, flatMap_cons, splitOn_eq_singleton hentry, splitOn_eq_singleton hentry']
          at heq
        obtain ⟨hkey, heq⟩ := cons_eq_cons.mp heq
        obtain ⟨htext, heq⟩ := cons_eq_cons.mp heq
        rw [ih es' hes hes' heq, Prod.ext hkey htext]
  exact hpieces _ _ h h' ((catalogFingerprint_eq_iff cfg data data').mp hfed)

/-- A text with NULs stands for two documents. -/
theorem nulText_not_separated : ¬ Separated ⟨[], [], false, .empty, .empty⟩
    ⟨["a".toList, "b".toList], []⟩ ⟨["a".toList ++ nul :: "json".toList ++ nul :: "b".toList], []⟩ :=
  fun h => absurd (h ((catalogFingerprint_eq_iff _ _ _).mpr (by decide))) (by decide)

end ClearYourTools.Bm25Search

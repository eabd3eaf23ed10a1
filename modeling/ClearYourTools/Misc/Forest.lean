import Mathlib.Data.List.Nodup
import Mathlib.Data.List.TakeWhile
import Mathlib.Data.Nat.Notation

/-!
# Forests

Ordered forests in the first-child, next-sibling form, and their nodes in preorder.
-/

namespace Misc

open List

inductive Forest (α : Type) where
  | nil
  | node (value : α) (children rest : Forest α)

namespace Forest

variable {α β γ : Type}

def preorder : Forest α → List α
  | nil => []
  | node a children rest => a :: (children.preorder ++ rest.preorder)

def append : Forest α → Forest α → Forest α
  | nil, g => g
  | node a children rest, g => node a children (rest.append g)

/-- A tree is added behind the others. -/
def push (f : Forest α) (a : α) (children : Forest α) : Forest α := f.append (node a children nil)

def map (g : α → β) : Forest α → Forest β
  | nil => nil
  | node a children rest => node (g a) (children.map g) (rest.map g)

/-- No tree has children. -/
def isFlat : Forest α → Bool
  | nil => true
  | node _ nil rest => rest.isFlat
  | node _ (node _ _ _) _ => false

/-- Keep the nodes that satisfy `p`, dropping the others with all below them. -/
def prune (p : α → Bool) : Forest α → Forest α
  | nil => nil
  | node a children rest =>
    if p a then node a (children.prune p) (rest.prune p) else rest.prune p

/-- Change the first node in preorder that satisfies `p`, and say whether there is one. -/
def updateFirst (p : α → Bool) (g : α → α) : Forest α → Forest α × Bool
  | nil => (nil, false)
  | node a children rest =>
    if p a then (node (g a) children rest, true)
    else if (children.updateFirst p g).2 then (node a (children.updateFirst p g).1 rest, true)
    else (node a (children.updateFirst p g).1 (rest.updateFirst p g).1, (rest.updateFirst p g).2)

@[simp] theorem preorder_nil : (nil : Forest α).preorder = [] := rfl

@[simp] theorem preorder_node (a : α) (children rest : Forest α) :
    (node a children rest).preorder = a :: (children.preorder ++ rest.preorder) := rfl

@[simp] theorem preorder_append (f g : Forest α) :
    (f.append g).preorder = f.preorder ++ g.preorder := by
  induction f with
  | nil => rfl
  | node a children rest _ ih => rw [append, preorder_node, ih, preorder_node]; simp

@[simp] theorem preorder_push (f : Forest α) (a : α) (children : Forest α) :
    (f.push a children).preorder = f.preorder ++ a :: children.preorder := by
  simp [push]

@[simp] theorem append_nil (f : Forest α) : f.append nil = f := by
  induction f with
  | nil => rfl
  | node a children rest _ ih => rw [append, ih]

theorem append_assoc (f g h : Forest α) : (f.append g).append h = f.append (g.append h) := by
  induction f with
  | nil => rfl
  | node a children rest _ ih => rw [append, append, append, ih]

@[simp] theorem preorder_map (g : α → β) (f : Forest α) :
    (f.map g).preorder = f.preorder.map g := by
  induction f with
  | nil => rfl
  | node a children rest ihc ihr => simp [map, ihc, ihr]

variable {f : Forest α}

/-- Pruning by a property of every node changes nothing. -/
theorem prune_eq_self {p : α → Bool} (h : ∀ a ∈ f.preorder, p a = true) : f.prune p = f := by
  induction f with
  | nil => rfl
  | node a children rest ihc ihr =>
    simp only [preorder_node, mem_cons, mem_append] at h
    rw [prune, if_pos (h a (.inl rfl)), ihc fun b hb => h b (.inr (.inl hb)),
      ihr fun b hb => h b (.inr (.inr hb))]

theorem map_congr {g h : α → β} (hsame : ∀ a ∈ f.preorder, g a = h a) : f.map g = f.map h := by
  induction f with
  | nil => rfl
  | node a children rest ihc ihr =>
    simp only [preorder_node, mem_cons, mem_append] at hsame
    rw [map, map, hsame a (.inl rfl), ihc fun b hb => hsame b (.inr (.inl hb)),
      ihr fun b hb => hsame b (.inr (.inr hb))]

variable {g : α → α}

/-- A map that changes no node changes nothing. -/
theorem map_eq_self (h : ∀ a ∈ f.preorder, g a = a) : f.map g = f := by
  induction f with
  | nil => rfl
  | node a children rest ihc ihr =>
    simp only [preorder_node, mem_cons, mem_append] at h
    rw [map, h a (.inl rfl), ihc fun b hb => h b (.inr (.inl hb)),
      ihr fun b hb => h b (.inr (.inr hb))]

theorem map_map (g : β → γ) (f : α → β) (t : Forest α) : (t.map f).map g = t.map (g ∘ f) := by
  induction t with
  | nil => rfl
  | node a children rest ihc ihr => rw [map, map, map, ihc, ihr, Function.comp_apply]

@[simp] theorem isFlat_append (f g : Forest α) : (f.append g).isFlat = (f.isFlat && g.isFlat) := by
  induction f with
  | nil => simp [append, isFlat]
  | node a children rest _ ih =>
    cases children with
    | nil => simpa [append, isFlat] using ih
    | node _ _ _ => simp [append, isFlat]

theorem isFlat_push_nil (f : Forest α) (a : α) : (f.push a nil).isFlat = f.isFlat := by
  simp [push, isFlat]

theorem isFlat_push_node (f : Forest α) (a b : α) (children rest : Forest α) :
    (f.push a (node b children rest)).isFlat = false := by
  simp [push, isFlat]

@[simp] theorem isFlat_map (g : α → β) (f : Forest α) : (f.map g).isFlat = f.isFlat := by
  induction f with
  | nil => rfl
  | node a children rest _ ih =>
    cases children with
    | nil => exact ih
    | node _ _ _ => rfl

theorem push_ne_nil (f : Forest α) (a : α) (children : Forest α) : f.push a children ≠ nil := by
  cases f <;> simp [push, append]

/-- Change the first element that satisfies `p`. -/
def updateFirstIn (p : α → Bool) (g : α → α) : List α → List α
  | [] => []
  | a :: as => if p a then g a :: as else a :: updateFirstIn p g as

theorem updateFirstIn_append (p : α → Bool) (g : α → α) (as bs : List α) :
    updateFirstIn p g (as ++ bs) =
      if as.any p then updateFirstIn p g as ++ bs else as ++ updateFirstIn p g bs := by
  induction as with
  | nil => rfl
  | cons a as ih =>
    rw [List.cons_append, updateFirstIn, updateFirstIn, ih, any_cons]
    cases p a with
    | true => rfl
    | false =>
      simp only [Bool.false_eq_true, if_false, Bool.false_or]
      split <;> rfl

/-- A property that the change gives, or leaves alone. -/
theorem exists_updateFirstIn {P : α → Prop} (hg : ∀ a, P (g a)) {p : α → Bool} {as : List α}
    (h : ∃ a ∈ as, p a = true ∨ P a) : ∃ a ∈ updateFirstIn p g as, P a := by
  induction as with
  | nil => simp at h
  | cons a as ih =>
    obtain ⟨b, hb, hor⟩ := h
    rw [updateFirstIn]
    split
    · exact ⟨g a, mem_cons_self, hg a⟩
    · rename_i hnot
      rcases mem_cons.mp hb with rfl | hb
      · exact ⟨b, mem_cons_self, hor.resolve_left hnot⟩
      · obtain ⟨c, hc, hP⟩ := ih ⟨b, hb, hor⟩
        exact ⟨c, mem_cons_of_mem a hc, hP⟩

/-- A view that the change leaves alone. -/
theorem map_updateFirstIn (f : α → β) (hg : ∀ a, f (g a) = f a) (p : α → Bool) (as : List α) :
    (updateFirstIn p g as).map f = as.map f := by
  induction as with
  | nil => rfl
  | cons a as ih =>
    rw [updateFirstIn]
    split
    · rw [map_cons, map_cons, hg]
    · rw [map_cons, map_cons, ih]

theorem map_updateFirst (f : α → β) (hg : ∀ a, f (g a) = f a) (p : α → Bool) (t : Forest α) :
    (t.updateFirst p g).1.map f = t.map f := by
  induction t with
  | nil => rfl
  | node a children rest ihc ihr =>
    rw [updateFirst]
    split
    · rw [map, map, hg]
    · split
      · rw [map, map, ihc]
      · rw [map, map, ihc, ihr]

theorem updateFirst_spec (p : α → Bool) (g : α → α) (f : Forest α) :
    (f.updateFirst p g).1.preorder = updateFirstIn p g f.preorder ∧
      (f.updateFirst p g).2 = f.preorder.any p := by
  induction f with
  | nil => exact ⟨rfl, rfl⟩
  | node a children rest ihc ihr =>
    rw [updateFirst, preorder_node, updateFirstIn, any_cons, any_append]
    cases ha : p a with
    | true => simp
    | false =>
      simp only [Bool.false_eq_true, if_false, Bool.false_or, updateFirstIn_append, ihc.2]
      cases hc : children.preorder.any p with
      | true => simp [ihc.1]
      | false =>
        have hsame : updateFirstIn p g children.preorder = children.preorder := by
          have happ := updateFirstIn_append p g children.preorder []
          rw [hc] at happ
          simpa [updateFirstIn] using happ
        simp [ihc.1, ihr.1, ihr.2, hsame]

/-!
## Paths in forests

The nodes above a node, and the smallest part of a forest that holds some nodes and all that
is above them.
-/

variable {α β κ : Type}

/-- The nodes that satisfy `p` or have a node below them that does, in preorder. -/
def closure (p : α → Bool) : Forest α → List α
  | nil => []
  | node a children rest =>
    (if p a || children.preorder.any p then a :: children.closure p else []) ++ rest.closure p

/-- `q` picks the nodes that satisfy `p` or have a node below them that does. -/
def Closes (q p : α → Bool) : Forest α → Prop
  | nil => True
  | node a children rest =>
    q a = (p a || children.preorder.any p) ∧ children.Closes q p ∧ rest.Closes q p

/-- Each node with the nodes above it, the nearest one first; `path` is above the roots. -/
def pathsFrom (path : List α) : Forest α → List (α × List α)
  | nil => []
  | node a children rest => (a, path) :: (children.pathsFrom (a :: path) ++ rest.pathsFrom path)

/-- The nodes that are no roots. -/
def inner : Forest α → List α
  | nil => []
  | node _ children rest => children.preorder ++ rest.inner

section

variable {p q : α → Bool}

variable {f : Forest α}

theorem closure_eq_nil (h : f.preorder.any p = false) : f.closure p = [] := by
  induction f with
  | nil => rfl
  | node a children rest _ ihr =>
    simp only [preorder_node, any_cons, any_append, Bool.or_eq_false_iff] at h
    rw [closure, h.1, h.2.1, ihr h.2.2]
    rfl

/-- What the closure holds is kept when the tree is cut from the roots down. -/
theorem Closes.preorder_prune (h : f.Closes q p) : (f.prune q).preorder = f.closure p := by
  induction f with
  | nil => rfl
  | node a children rest ihc ihr =>
    obtain ⟨ha, hchildren, hrest⟩ := h
    rw [prune, closure, ← ha]
    cases q a with
    | true => simp [ihc hchildren, ihr hrest]
    | false => simp [ihr hrest]

/-- It is also what is kept when the nodes are picked one by one. -/
theorem Closes.filter_preorder (h : f.Closes q p) : f.preorder.filter q = f.closure p := by
  induction f with
  | nil => rfl
  | node a children rest ihc ihr =>
    obtain ⟨ha, hchildren, hrest⟩ := h
    rw [preorder_node, filter_cons, filter_append, ihc hchildren, ihr hrest, closure, ← ha]
    cases hq : q a with
    | true => rfl
    | false =>
      rw [hq] at ha
      have hnone : children.preorder.any p = false := (Bool.or_eq_false_iff.mp ha.symm).2
      rw [closure_eq_nil hnone]
      rfl

/-- Where no node satisfies either property nothing is closed. -/
theorem closes_of_none (hq : ∀ a ∈ f.preorder, q a = false) (hp : ∀ a ∈ f.preorder, p a = false) :
    f.Closes q p := by
  induction f with
  | nil => trivial
  | node a children rest ihc ihr =>
    simp only [preorder_node, forall_mem_cons, forall_mem_append] at hq hp
    have hnone : children.preorder.any p = false := by simpa using hp.2.1
    refine ⟨?_, ihc hq.2.1 hp.2.1, ihr hq.2.2 hp.2.2⟩
    rw [hq.1, hp.1, hnone]
    rfl

theorem closes_of_inner (hsame : ∀ a ∈ f.preorder, q a = p a) (hinner : ∀ a ∈ f.inner, p a = false) :
    f.Closes q p := by
  induction f with
  | nil => trivial
  | node a children rest _ ihr =>
    simp only [preorder_node, inner, forall_mem_cons, forall_mem_append] at hsame hinner
    have hnone : children.preorder.any p = false := by simpa using hinner.1
    refine ⟨?_, closes_of_none (fun b hb => ?_) hinner.1, ihr hsame.2.2 hinner.2⟩
    · rw [hsame.1, hnone, Bool.or_false]
    · rw [hsame.2.1 b hb, hinner.1 b hb]

theorem mem_preorder_of_mem_inner {a : α} (h : a ∈ f.inner) : a ∈ f.preorder := by
  induction f with
  | nil => cases h
  | node b children rest _ ihr =>
    rw [inner, mem_append] at h
    rw [preorder_node, mem_cons, mem_append]
    exact .inr (h.imp id ihr)

theorem inner_of_isFlat (h : f.isFlat = true) : f.inner = [] := by
  induction f with
  | nil => rfl
  | node a children rest _ ihr =>
    cases children with
    | nil => exact ihr h
    | node _ _ _ => cases h

theorem inner_map (g : α → β) (f : Forest α) : (f.map g).inner = f.inner.map g := by
  induction f with
  | nil => rfl
  | node a children rest _ ihr => simp [map, inner, ihr]

/-- In a flat forest the closure adds nothing. -/
theorem of_mem_closure (hflat : f.isFlat = true) {a : α} (h : a ∈ f.closure p) : p a = true := by
  have hcloses : f.Closes p p := closes_of_inner (fun _ _ => rfl) (by simp [inner_of_isFlat hflat])
  rw [← hcloses.filter_preorder] at h
  exact (mem_filter.mp h).2

end

section

theorem map_fst_pathsFrom (path : List α) (f : Forest α) :
    (f.pathsFrom path).map Prod.fst = f.preorder := by
  induction f generalizing path with
  | nil => rfl
  | node a children rest ihc ihr => simp [pathsFrom, ihc, ihr]

theorem pathsFrom_map (g : α → β) (path : List α) (f : Forest α) :
    (f.map g).pathsFrom (path.map g) = (f.pathsFrom path).map (Prod.map g (List.map g)) := by
  induction f generalizing path with
  | nil => rfl
  | node a children rest ihc ihr =>
    have hchildren := ihc (a :: path)
    rw [map_cons] at hchildren
    simp [map, pathsFrom, hchildren, ihr]

variable {f : Forest α} {a : α}

theorem exists_path (h : a ∈ f.preorder) (path : List α) : ∃ up, (a, up) ∈ f.pathsFrom path := by
  rw [← map_fst_pathsFrom path] at h
  obtain ⟨⟨_, up⟩, hmem, rfl⟩ := mem_map.mp h
  exact ⟨up, hmem⟩

variable {path up : List α} {b : α}

theorem path_tail (h : (b, a :: up) ∈ f.pathsFrom path) :
    (a, up) ∈ f.pathsFrom path ∨ path = a :: up := by
  induction f generalizing path with
  | nil => cases h
  | node c children rest ihc ihr =>
    simp only [pathsFrom, mem_cons, mem_append, Prod.mk.injEq] at h ⊢
    rcases h with ⟨-, hpath⟩ | h | h
    · exact .inr hpath.symm
    · rcases ihc h with h | h
      · exact .inl (.inr (.inl h))
      · obtain ⟨rfl, rfl⟩ := List.cons.inj h
        exact .inl (.inl ⟨rfl, rfl⟩)
    · rcases ihr h with h | h
      · exact .inl (.inr (.inr h))
      · exact .inr h

theorem mem_of_mem_path (h : (b, up) ∈ f.pathsFrom path) (ha : a ∈ up) :
    a ∈ f.preorder ∨ a ∈ path := by
  induction f generalizing path with
  | nil => cases h
  | node c children rest ihc ihr =>
    simp only [pathsFrom, mem_cons, mem_append, Prod.mk.injEq, preorder_node] at h ⊢
    rcases h with ⟨-, rfl⟩ | h | h
    · exact .inr ha
    · rcases ihc h with h | h
      · exact .inl (.inr (.inl h))
      · exact (mem_cons.mp h).imp .inl id
    · exact (ihr h).imp (fun h => .inr (.inr h)) id

/-- The nodes that satisfy `p`, each with those above it. -/
def withAncestors (p : α → Bool) (path : List α) (f : Forest α) : List α :=
  ((f.pathsFrom path).filter fun e => p e.1).flatMap fun e => e.1 :: e.2

variable {p : α → Bool}

variable {x : α}

theorem mem_withAncestors :
    x ∈ f.withAncestors p path ↔ ∃ e ∈ f.pathsFrom path, p e.1 = true ∧ (x = e.1 ∨ x ∈ e.2) := by
  simp only [withAncestors, mem_flatMap, mem_filter, mem_cons]
  constructor
  · rintro ⟨e, ⟨he, hp⟩, hx⟩
    exact ⟨e, he, hp, hx⟩
  · rintro ⟨e, he, hp, hx⟩
    exact ⟨e, ⟨he, hp⟩, hx⟩

theorem withAncestors_node (path : List α) (a : α) (children rest : Forest α) :
    (node a children rest).withAncestors p path =
      (if p a then a :: path else []) ++
        (children.withAncestors p (a :: path) ++ rest.withAncestors p path) := by
  rw [withAncestors, pathsFrom, filter_cons, filter_append]
  cases p a with
  | true => simp [withAncestors]
  | false => simp [withAncestors]

theorem mem_or_of_mem_withAncestors (h : x ∈ f.withAncestors p path) :
    x ∈ f.preorder ∨ x ∈ path := by
  obtain ⟨⟨a, up⟩, he, -, rfl | hup⟩ := mem_withAncestors.mp h
  · left
    rw [← map_fst_pathsFrom path]
    exact mem_map_of_mem he
  · exact mem_of_mem_path he hup

theorem any_of_mem_withAncestors (h : x ∈ f.withAncestors p path) : f.preorder.any p = true := by
  obtain ⟨e, he, hp, -⟩ := mem_withAncestors.mp h
  rw [any_eq_true]
  refine ⟨e.1, ?_, hp⟩
  rw [← map_fst_pathsFrom path]
  exact mem_map_of_mem he

theorem subset_path (f : Forest α) (h : (b, up) ∈ f.pathsFrom path) (hx : x ∈ path) : x ∈ up := by
  induction f generalizing path with
  | nil => cases h
  | node c children rest ihc ihr =>
    simp only [pathsFrom, mem_cons, mem_append, Prod.mk.injEq] at h
    rcases h with ⟨-, rfl⟩ | h | h
    · exact hx
    · exact ihc h (mem_cons_of_mem c hx)
    · exact ihr h hx

theorem mem_withAncestors_of_any (h : f.preorder.any p = true) (hx : x ∈ path) :
    x ∈ f.withAncestors p path := by
  obtain ⟨b, hb, hp⟩ := any_eq_true.mp h
  obtain ⟨up, hup⟩ := exists_path hb path
  exact mem_withAncestors.mpr ⟨(b, up), hup, hp, .inr (subset_path f hup hx)⟩

/-- Where nodes have keys of their own, the keys of the nodes and their ancestors pick the
closure. -/
theorem closes_of_withAncestors [DecidableEq κ] (key : α → κ) {kept : List κ}
    (hnodup : (f.preorder.map key).Nodup) (hpath : ∀ k ∈ path.map key, k ∉ f.preorder.map key)
    (hkept : ∀ k ∈ f.preorder.map key, k ∈ kept ↔ k ∈ (f.withAncestors p path).map key) :
    f.Closes (fun a => decide (key a ∈ kept)) p := by
  induction f generalizing path with
  | nil => trivial
  | node a children rest ihc ihr =>
    rw [preorder_node, map_cons, map_append, nodup_cons, nodup_append] at hnodup
    obtain ⟨ha, hchildren, hrest, hapart⟩ := hnodup
    simp only [preorder_node, map_cons, map_append, mem_cons, mem_append, not_or] at hpath hkept ha
    have hwith : ∀ k, k ∈ ((node a children rest).withAncestors p path).map key ↔
        (p a = true ∧ (k = key a ∨ k ∈ path.map key)) ∨
          k ∈ (children.withAncestors p (a :: path)).map key ∨
            k ∈ (rest.withAncestors p path).map key := by
      intro k
      rw [withAncestors_node, map_append, map_append, mem_append, mem_append]
      cases p a <;> simp [eq_comm]
    have hin : ∀ (g : Forest α) (above : List α) (k : κ), k ∈ (g.withAncestors p above).map key →
        k ∈ g.preorder.map key ∨ k ∈ above.map key := by
      intro g above k hk
      obtain ⟨x, hx, rfl⟩ := mem_map.mp hk
      exact (mem_or_of_mem_withAncestors hx).imp mem_map_of_mem mem_map_of_mem
    have hbelow := hin children (a :: path)
    have hbeside := hin rest path
    simp only [map_cons, mem_cons] at hbelow
    refine ⟨?_, @ihc (a :: path) hchildren ?_ ?_, @ihr path hrest ?_ ?_⟩
    · -- the node itself is kept for its own sake or for a node below it
      rw [Bool.eq_iff_iff, decide_eq_true_eq, Bool.or_eq_true, hkept _ (.inl rfl), hwith]
      constructor
      · rintro (⟨hp, -⟩ | hk | hk)
        · exact .inl hp
        · obtain ⟨x, hx, -⟩ := mem_map.mp hk
          exact .inr (any_of_mem_withAncestors hx)
        · rcases hbeside _ hk with h | h
          · exact absurd h ha.2
          · exact absurd rfl (hpath _ h).1
      · rintro (hp | hany)
        · exact .inl ⟨hp, .inl rfl⟩
        · exact .inr (.inl (mem_map_of_mem
            (mem_withAncestors_of_any hany mem_cons_self)))
    · intro k hk
      rcases mem_cons.mp hk with rfl | hk
      · exact ha.1
      · exact (hpath k hk).2.1
    · intro k hk
      have hne : k ≠ key a := fun heq => ha.1 (heq ▸ hk)
      have hoff : k ∉ path.map key := fun h => (hpath k h).2.1 hk
      rw [hkept k (.inr (.inl hk)), hwith]
      constructor
      · rintro (⟨-, h | h⟩ | h | h)
        · exact absurd h hne
        · exact absurd h hoff
        · exact h
        · rcases hbeside k h with h | h
          · exact absurd rfl (hapart k hk k h)
          · exact absurd h hoff
      · exact fun h => .inr (.inl h)
    · exact fun k hk => (hpath k hk).2.2
    · intro k hk
      have hne : k ≠ key a := fun heq => ha.2 (heq ▸ hk)
      have hoff : k ∉ path.map key := fun h => (hpath k h).2.2 hk
      rw [hkept k (.inr (.inr hk)), hwith]
      constructor
      · rintro (⟨-, h | h⟩ | h | h)
        · exact absurd h hne
        · exact absurd h hoff
        · rcases hbelow k h with h | h | h
          · exact absurd rfl (hapart k h k hk)
          · exact absurd h hne
          · exact absurd h hoff
        · exact h
      · exact fun h => .inr (.inr h)

end

end Forest

/-!
## Forests from levels

A list of elements with levels, read as a forest: what follows an element on greater levels,
up to the first element that is not on one, is below it. The parent of an element is the
nearest element before it that is still open there.
-/

variable {α β : Type}

section

variable (level : α → ℕ)

/-- The element at `i` is on a smaller level than the one at `j`. -/
def Smaller (l : List α) (i j : ℕ) : Prop := ∃ a ∈ l[i]?, ∃ b ∈ l[j]?, level a < level b

/-- The element at `i` is before the one at `j` and on a smaller level, and no element between
them is on its level or a smaller one. -/
structure Opens (l : List α) (i j : ℕ) : Prop where
  before : i < j
  smaller : Smaller level l i j
  unclosed : ∀ k, i < k → k < j → Smaller level l i k

/-- The last position before `j` that is open there, or none when no position is. -/
def NearestOpen (l : List α) (j : ℕ) : Option ℕ → Prop
  | none => ∀ i, ¬ Opens level l i j
  | some i => Opens level l i j ∧ ∀ k, Opens level l k j → k ≤ i

variable {level}

variable {l : List α} {i j : ℕ}

theorem Smaller.congr {m : List α} {i' j' : ℕ} (hi : l[i]? = m[i']?) (hj : l[j]? = m[j']?) :
    Smaller level l i j ↔ Smaller level m i' j' := by
  rw [Smaller, Smaller, hi, hj]

variable {xs ys : List α}

theorem opens_append_left (hj : j < xs.length) :
    Opens level (xs ++ ys) i j ↔ Opens level xs i j := by
  have hsame : ∀ k, k ≤ j → (xs ++ ys)[k]? = xs[k]? := fun k hk =>
    getElem?_append_left (Nat.lt_of_le_of_lt hk hj)
  constructor
  · intro h
    have hi := hsame i h.before.le
    exact ⟨h.before, (Smaller.congr hi (hsame j (Nat.le_refl j))).mp h.smaller,
      fun k hik hkj => (Smaller.congr hi (hsame k hkj.le)).mp (h.unclosed k hik hkj)⟩
  · intro h
    have hi := hsame i h.before.le
    exact ⟨h.before, (Smaller.congr hi (hsame j (Nat.le_refl j))).mpr h.smaller,
      fun k hik hkj => (Smaller.congr hi (hsame k hkj.le)).mpr (h.unclosed k hik hkj)⟩

theorem opens_append_right (xs : List α) {ys : List α} {i j : ℕ} :
    Opens level (xs ++ ys) (xs.length + i) (xs.length + j) ↔ Opens level ys i j := by
  have hsame : ∀ k, (xs ++ ys)[xs.length + k]? = ys[k]? := fun k => by
    rw [getElem?_append_right (Nat.le_add_right _ _), Nat.add_sub_cancel_left]
  constructor
  · intro h
    refine ⟨Nat.lt_of_add_lt_add_left h.before, (Smaller.congr (hsame i) (hsame j)).mp h.smaller,
      fun k hik hkj => ?_⟩
    exact (Smaller.congr (hsame i) (hsame k)).mp
      (h.unclosed (xs.length + k) (Nat.add_lt_add_left hik _) (Nat.add_lt_add_left hkj _))
  · intro h
    refine ⟨Nat.add_lt_add_left h.before _, (Smaller.congr (hsame i) (hsame j)).mpr h.smaller,
      fun k hik hkj => ?_⟩
    obtain ⟨m, rfl⟩ := Nat.exists_eq_add_of_le (show xs.length ≤ k by omega)
    exact (Smaller.congr (hsame i) (hsame m)).mpr (h.unclosed m (by omega) (by omega))

/-- An element that is not below the one at `m` closes it, and with it all that came after. -/
theorem not_opens_across {m : ℕ} (him : i < m) (hmj : m ≤ j) (hclose : ¬ Smaller level l i m) :
    ¬ Opens level l i j := by
  intro h
  rcases Nat.lt_or_eq_of_le hmj with hlt | rfl
  · exact hclose (h.unclosed m him hlt)
  · exact hclose h.smaller

variable {o : Option ℕ}

theorem NearestOpen.unique {o' : Option ℕ} (h : NearestOpen level l j o)
    (h' : NearestOpen level l j o') : o = o' := by
  cases o with
  | none =>
    cases o' with
    | none => rfl
    | some i => exact absurd h'.1 (h i)
  | some i =>
    cases o' with
    | none => exact absurd h.1 (h' i)
    | some i' => rw [Nat.le_antisymm (h'.2 i h.1) (h.2 i' h'.1)]

/-- Below its first element, the rest of a list has that element to fall back on. -/
theorem NearestOpen.cons_append {a : α} (hall : ∀ x ∈ xs, level a < level x) (hj : j < xs.length)
    (h : NearestOpen level xs j o) :
    NearestOpen level (a :: (xs ++ ys)) (j + 1) ((o.map (· + 1)).or (some 0)) := by
  have hsucc : ∀ i, Opens level (a :: (xs ++ ys)) (i + 1) (j + 1) ↔ Opens level xs i j := by
    intro i
    have hright := @opens_append_right _ level [a] (xs ++ ys) i j
    rw [singleton_append, length_singleton, Nat.add_comm 1 i, Nat.add_comm 1 j] at hright
    exact hright.trans (opens_append_left hj)
  have hzero : Opens level (a :: (xs ++ ys)) 0 (j + 1) := by
    have hsmall : ∀ k, k < xs.length → Smaller level (a :: (xs ++ ys)) 0 (k + 1) := by
      intro k hk
      refine ⟨a, rfl, xs[k], ?_, hall _ (getElem_mem hk)⟩
      rw [getElem?_cons_succ, getElem?_append_left hk]
      exact getElem?_eq_getElem hk
    refine ⟨Nat.succ_pos j, hsmall j hj, fun k hk hkj => ?_⟩
    obtain ⟨m, rfl⟩ := Nat.exists_eq_add_of_lt hk
    simpa using hsmall m (by omega)
  cases o with
  | none =>
    refine ⟨hzero, fun k hk => ?_⟩
    cases k with
    | zero => exact Nat.le_refl 0
    | succ k => exact absurd ((hsucc k).mp hk) (h k)
  | some i =>
    refine ⟨(hsucc i).mpr h.1, fun k hk => ?_⟩
    cases k with
    | zero => exact Nat.zero_le _
    | succ k => exact Nat.succ_le_succ (h.2 k ((hsucc k).mp hk))

/-- Nothing before an element that closes all of it is open behind it. -/
theorem NearestOpen.append (hclose : ∀ i < xs.length, ¬ Smaller level (xs ++ ys) i xs.length)
    (h : NearestOpen level ys j o) :
    NearestOpen level (xs ++ ys) (xs.length + j) (o.map (xs.length + ·)) := by
  have hleft : ∀ i, i < xs.length → ¬ Opens level (xs ++ ys) i (xs.length + j) := fun i hi =>
    not_opens_across hi (Nat.le_add_right _ j) (hclose i hi)
  have hright : ∀ i, Opens level (xs ++ ys) i (xs.length + j) →
      ∃ m, i = xs.length + m ∧ Opens level ys m j := by
    intro i hi
    obtain ⟨m, rfl⟩ := Nat.exists_eq_add_of_le (Nat.not_lt.mp fun hlt => hleft i hlt hi)
    exact ⟨m, rfl, (opens_append_right xs).mp hi⟩
  cases o with
  | none =>
    intro i hi
    obtain ⟨m, -, hm⟩ := hright i hi
    exact h m hm
  | some i =>
    refine ⟨(opens_append_right xs).mpr h.1, fun k hk => ?_⟩
    obtain ⟨m, rfl, hm⟩ := hright k hk
    exact Nat.add_le_add_left (h.2 m hm) _

end

namespace Forest

/-- The forest of a list with levels. -/
def ofLevels (level : α → ℕ) : List α → Forest α
  | [] => nil
  | a :: rest =>
    node a (ofLevels level (rest.takeWhile fun b => level a < level b))
      (ofLevels level (rest.dropWhile fun b => level a < level b))
termination_by l => l.length
decreasing_by
  · exact Nat.lt_succ_of_le (List.takeWhile_sublist _).length_le
  · exact Nat.lt_succ_of_le (List.dropWhile_sublist _).length_le

/-- The positions of the parents, in preorder, when the first node is at `pos` and the trees are
below `parent`. -/
def parentsFrom (parent : Option ℕ) (pos : ℕ) : Forest α → List (Option ℕ)
  | nil => []
  | node _ children rest =>
    parent :: (children.parentsFrom (some pos) (pos + 1) ++
      rest.parentsFrom parent (pos + 1 + children.preorder.length))

/-- The positions of the parents of all nodes, in preorder. -/
def parents (f : Forest α) : List (Option ℕ) := f.parentsFrom none 0

theorem length_parentsFrom (parent : Option ℕ) (pos : ℕ) (f : Forest α) :
    (f.parentsFrom parent pos).length = f.preorder.length := by
  induction f generalizing parent pos with
  | nil => rfl
  | node a children rest ihc ihr => simp [parentsFrom, ihc, ihr]

@[simp] theorem parentsFrom_map (g : α → β) (parent : Option ℕ) (pos : ℕ) (f : Forest α) :
    (f.map g).parentsFrom parent pos = f.parentsFrom parent pos := by
  induction f generalizing parent pos with
  | nil => rfl
  | node a children rest ihc ihr => simp [map, parentsFrom, ihc, ihr]

@[simp] theorem parents_map (g : α → β) (f : Forest α) : (f.map g).parents = f.parents :=
  parentsFrom_map g none 0 f

variable {level : α → ℕ}

@[simp] theorem ofLevels_nil : ofLevels level [] = nil := by rw [ofLevels]

theorem ofLevels_cons (a : α) (rest : List α) :
    ofLevels level (a :: rest) = node a (ofLevels level (rest.takeWhile fun b => level a < level b))
        (ofLevels level (rest.dropWhile fun b => level a < level b)) := by
  rw [ofLevels]

@[simp] theorem preorder_ofLevels (l : List α) : (ofLevels level l).preorder = l := by
  induction l using ofLevels.induct level with
  | case1 => simp
  | case2 a rest ihc ihr =>
    rw [ofLevels_cons, preorder_node, ihc, ihr, takeWhile_append_dropWhile]

/-- What follows the children of the first element closes it and its children. -/
theorem not_smaller_dropWhile (a : α) (rest : List α) {i : ℕ}
    (hi : i < (a :: rest.takeWhile fun b => level a < level b).length) :
    ¬ Smaller level ((a :: rest.takeWhile fun b => level a < level b) ++
        rest.dropWhile fun b => level a < level b) i
      (a :: rest.takeWhile fun b => level a < level b).length := by
  rintro ⟨x, hx, y, hy, hlt⟩
  rw [getElem?_append_left hi] at hx
  rw [getElem?_append_right (Nat.le_refl _), Nat.sub_self] at hy
  have hy' : level y ≤ level a := by
    cases hdrop : rest.dropWhile fun b => level a < level b with
    | nil => rw [hdrop] at hy; simp at hy
    | cons z zs =>
      rw [hdrop] at hy
      obtain rfl : z = y := by simpa using hy
      have hhead := head_dropWhile_not (fun b => decide (level a < level b)) (l := rest)
        (by rw [hdrop]; simp)
      simp only [hdrop, head_cons, decide_eq_false_iff_not, Nat.not_lt] at hhead
      exact hhead
  have hx' : level a ≤ level x := by
    rcases mem_cons.mp (mem_of_getElem? hx) with rfl | hmem
    · exact Nat.le_refl _
    · have := mem_takeWhile_imp hmem
      simp only [decide_eq_true_eq] at this
      exact this.le
  omega

theorem parentsFrom_ofLevels (l : List α) (parent : Option ℕ) (pos : ℕ) :
    ∀ j < l.length, ∃ o, NearestOpen level l j o ∧
      ((ofLevels level l).parentsFrom parent pos)[j]? = some ((o.map (pos + ·)).or parent) := by
  induction l using ofLevels.induct level generalizing parent pos with
  | case1 => simp
  | case2 a rest ihc ihr =>
    intro j hj
    generalize hkids : (rest.takeWhile fun b => level a < level b) = kids at ihc
    generalize hothers : (rest.dropWhile fun b => level a < level b) = others at ihr
    have hsplit : rest = kids ++ others := by
      rw [← hkids, ← hothers, takeWhile_append_dropWhile]
    have hbelow : ∀ x ∈ kids, level a < level x := fun x hx => by
      rw [← hkids] at hx
      simpa using mem_takeWhile_imp hx
    have hclose : ∀ i < (a :: kids).length,
        ¬ Smaller level ((a :: kids) ++ others) i (a :: kids).length := by
      intro i hi
      subst hkids hothers
      exact not_smaller_dropWhile a rest hi
    have hparents : (ofLevels level (a :: rest)).parentsFrom parent pos =
        parent :: ((ofLevels level kids).parentsFrom (some pos) (pos + 1) ++
          (ofLevels level others).parentsFrom parent (pos + 1 + kids.length)) := by
      rw [ofLevels_cons, parentsFrom, preorder_ofLevels, hkids, hothers]
    rw [hparents]
    have hlength : ((ofLevels level kids).parentsFrom (some pos) (pos + 1)).length = kids.length := by
      rw [length_parentsFrom, preorder_ofLevels]
    cases j with
    | zero => exact ⟨none, fun i h => absurd h.before (Nat.not_lt_zero i), by simp⟩
    | succ j =>
      rw [length_cons, hsplit, length_append] at hj
      rw [getElem?_cons_succ, hsplit]
      by_cases hin : j < kids.length
      · obtain ⟨o, hnearest, hget⟩ := ihc (some pos) (pos + 1) j hin
        refine ⟨_, hnearest.cons_append hbelow hin, ?_⟩
        rw [getElem?_append_left (by rw [hlength]; exact hin), hget]
        cases o with
        | none => simp
        | some i => simp; omega
      · obtain ⟨m, rfl⟩ := Nat.exists_eq_add_of_le (Nat.not_lt.mp hin)
        obtain ⟨o, hnearest, hget⟩ := ihr parent (pos + 1 + kids.length) m (by omega)
        have happend := NearestOpen.append hclose hnearest
        have hpos : (a :: kids).length + m = kids.length + m + 1 := by
          rw [length_cons]; omega
        rw [hpos] at happend
        refine ⟨_, happend, ?_⟩
        rw [getElem?_append_right (by rw [hlength]; exact Nat.le_add_right _ _), hlength,
          Nat.add_sub_cancel_left, hget]
        cases o with
        | none => simp
        | some i => simp; omega

end Forest

/-!
## Self-delimiting texts

A value is written as a text that says itself where it ends, so that values can be written one after
the other and read back.
-/

/-- Writing values, and reading one back from the front of a text. -/
structure Codec (α : Type) where
  write : α → List Char
  read : List Char → Option (α × List Char)
  read_write : ∀ a rest, read (write a ++ rest) = some (a, rest)

namespace Codec

variable {α β : Type}

def char : Codec Char where
  write c := [c]
  read
    | [] => none
    | c :: t => some (c, t)
  read_write _ _ := rfl

/-- As many marks as the number, and a stop. -/
def writeNat : ℕ → List Char
  | 0 => ['.']
  | n + 1 => '|' :: writeNat n

def readNat : List Char → Option (ℕ × List Char)
  | [] => none
  | c :: t => if c = '.' then some (0, t) else (readNat t).map fun r => (r.1 + 1, r.2)

def nat : Codec ℕ where
  write := writeNat
  read := readNat
  read_write n rest := by
    induction n with
    | zero => rfl
    | succ n ih =>
      rw [writeNat, List.cons_append, readNat, ih]
      rfl

/-- One value after the other. -/
def pair (c : Codec α) (d : Codec β) : Codec (α × β) where
  write p := c.write p.1 ++ d.write p.2
  read t := (c.read t).bind fun r => (d.read r.2).map fun s => ((r.1, s.1), s.2)
  read_write p rest := by
    rw [List.append_assoc, c.read_write, Option.bind_some, d.read_write]
    rfl

def option (c : Codec α) : Codec (Option α) where
  write
    | none => ['.']
    | some a => '|' :: c.write a
  read
    | [] => none
    | mark :: t => if mark = '.' then some (none, t) else (c.read t).map fun r => (some r.1, r.2)
  read_write a rest := by
    cases a with
    | none => rfl
    | some a =>
      dsimp only [List.cons_append]
      rw [c.read_write]
      rfl

/-- Values that are written as others. -/
def via (c : Codec β) (f : α → β) (g : β → α) (h : ∀ a, g (f a) = a) : Codec α where
  write a := c.write (f a)
  read t := (c.read t).map fun r => (g r.1, r.2)
  read_write a rest := by
    rw [c.read_write, Option.map_some, h]

section

variable (c : Codec α)

def writeForest : Forest α → List Char
  | .nil => ['.']
  | .node a children rest => '|' :: (c.write a ++ (writeForest children ++ writeForest rest))

/-- The length of the text bounds the nodes that are read. -/
def readForest : ℕ → List Char → Option (Forest α × List Char)
  | 0, _ => none
  | _ + 1, [] => none
  | fuel + 1, mark :: t =>
    if mark = '.' then some (.nil, t)
    else
      (c.read t).bind fun value =>
        (readForest fuel value.2).bind fun children =>
          (readForest fuel children.2).map fun rest =>
            (.node value.1 children.1 rest.1, rest.2)

theorem readForest_writeForest (f : Forest α) {fuel : ℕ} (h : (c.writeForest f).length ≤ fuel)
    (rest : List Char) : c.readForest fuel (c.writeForest f ++ rest) = some (f, rest) := by
  induction f generalizing fuel rest with
  | nil =>
    cases fuel with
    | zero => simp [writeForest] at h
    | succ fuel => rfl
  | node a children siblings ihc ihs =>
    rw [writeForest, length_cons, length_append, length_append] at h
    cases fuel with
    | zero => simp at h
    | succ fuel =>
      have hchildren : (c.writeForest children).length ≤ fuel := by omega
      have hsiblings : (c.writeForest siblings).length ≤ fuel := by omega
      rw [writeForest, List.cons_append, readForest, if_neg (by decide), List.append_assoc,
        List.append_assoc, c.read_write, Option.bind_some, ihc hchildren, Option.bind_some,
        ihs hsiblings]
      rfl

def forest : Codec (Forest α) where
  write := c.writeForest
  read t := c.readForest t.length t
  read_write f rest := by
    apply c.readForest_writeForest f
    rw [List.length_append]
    exact Nat.le_add_right _ _

/-- The trees of a list have no children. -/
def ofList : List α → Forest α
  | [] => .nil
  | a :: as => .node a .nil (ofList as)

theorem preorder_ofList (as : List α) : (ofList as).preorder = as := by
  induction as with
  | nil => rfl
  | cons a as ih => rw [ofList, Forest.preorder_node, Forest.preorder_nil, nil_append, ih]

def list : Codec (List α) := c.forest.via ofList Forest.preorder preorder_ofList

end

end Codec

end Misc

import ClearYourTools.Injection.BlockMerge

/-!
# Injection into a text without a block

Where the existing text has no block, `merge_injection_into_text` puts the stripped injection
after it, behind a separator.
-/

namespace ClearYourTools.Injection

open Misc List

variable {p : Text}

theorem occursIn_iff (hp : p ≠ []) (t : Text) : occursIn p t = true ↔ p <:+: t :=
  Option.isSome_iff_ne_none.trans ((Matcher.search_literal_eq_none_iff hp).not.trans not_not)

/-- A text without space. -/
def Spaceless (p : Text) : Prop := ∀ c ∈ p, isSpace c = false

theorem infix_lstrip_iff (hp : p ≠ []) (hspace : Spaceless p) (t : Text) :
    p <:+: Text.lstrip t ↔ p <:+: t := by
  induction t with
  | nil => rfl
  | cons c t ih =>
    rw [Text.lstrip, dropWhile_cons]
    split
    · rename_i hc
      rw [← Text.lstrip, ih, infix_cons_iff]
      refine ⟨Or.inr, fun h => h.resolve_left fun hpre => ?_⟩
      cases p with
      | nil => exact hp rfl
      | cons d p =>
        obtain ⟨r, hr⟩ := hpre
        obtain ⟨rfl, -⟩ := List.cons.inj hr
        rw [hspace d mem_cons_self] at hc
        cases hc
    · rfl

theorem infix_strip_iff (hp : p ≠ []) (hspace : Spaceless p) (t : Text) :
    p <:+: Text.strip t ↔ p <:+: t := by
  have hrev : Spaceless p.reverse := fun c hc => hspace c (mem_reverse.mp hc)
  rw [Text.strip_eq, Text.rstrip_eq_reverse, ← reverse_infix, reverse_reverse,
    infix_lstrip_iff (by simpa using hp) hrev, reverse_infix, infix_lstrip_iff hp hspace]

theorem occursIn_strip (hp : p ≠ []) (hspace : Spaceless p) (t : Text) :
    occursIn p (Text.strip t) = occursIn p t := by
  rw [Bool.eq_iff_iff, occursIn_iff hp, occursIn_iff hp, infix_strip_iff hp hspace]

theorem injectionDomain_strip (t : Text) : injectionDomain (Text.strip t) = injectionDomain t := by
  have hskills : Spaceless skillsOpen := Text.forall_not_of_any rfl
  have htools : Spaceless toolsOpen := Text.forall_not_of_any rfl
  rw [injectionDomain, injectionDomain, occursIn_strip (by decide) hskills,
    occursIn_strip (by decide) htools]

/-- What `merge_injection_into_text` puts between the existing text and the injection. -/
def separator (existing delta : Text) : Text :=
  if existing.getLast? = some '\n' then ['\n']
  else if toolsOpen.isPrefixOf delta then ['\n', '\n', '\n']
  else ['\n', '\n']

theorem ensureAgentToolsStartsOnNewLine_eq {delta existing : Text}
    (hdelta : delta.head? ≠ some '\n') (hne : existing ≠ [])
    (hlast : existing.getLast? ≠ some '\n') :
    ensureAgentToolsStartsOnNewLine delta existing =
      if toolsOpen.isPrefixOf delta then '\n' :: delta else delta := by
  have hself : delta.dropWhile (· == '\n') = delta := by
    cases delta with
    | nil => rfl
    | cons c delta =>
      have hc : (c == '\n') = false := by
        rw [beq_eq_false_iff_ne]
        rintro rfl
        exact hdelta rfl
      rw [dropWhile_cons, hc, if_neg (by simp)]
  unfold ensureAgentToolsStartsOnNewLine
  rw [hself]
  by_cases hopen : toolsOpen.isPrefixOf delta = true
  · rw [if_neg (not_not.mpr hopen), if_pos ⟨hne, hlast⟩, if_pos hopen]
  · rw [if_pos hopen, if_neg hopen]

theorem appendDelta_eq {existing delta : Text} (hdelta : Text.Stripped delta)
    (hne : existing ≠ []) :
    appendDelta existing delta = existing ++ separator existing delta ++ delta := by
  have hhead : delta.head? ≠ some '\n' := by
    intro h
    exact absurd (hdelta.1 '\n' h) (by decide)
  unfold appendDelta separator
  split
  · simp
  · rename_i hlast
    rw [ensureAgentToolsStartsOnNewLine_eq hhead hne hlast]
    split <;> simp

end ClearYourTools.Injection

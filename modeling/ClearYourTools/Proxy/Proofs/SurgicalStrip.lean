import ClearYourTools.Misc.Mapped
import ClearYourTools.Proxy.UserMessageInject

/-!
# Stripping is surgical on clean texts only

What stripping the earlier skills is to do, `cutBody`: the blocks are cut out of the texts and the
rest stays. What it does besides, for texts with and without blocks, is to collapse line feeds, to
trim, and to drop the blocks that are then empty.
-/

namespace ClearYourTools.Proxy

open Misc Injection List Option
open Json (get?)

variable {φ : Type}

variable (t : Text)

/-- The text without its agent-skills blocks and their intro lines. -/
def cutText : Text := skillsBlock.removeAll t

/-- A content block without the agent-skills blocks of its text; it may go when it becomes empty. -/
def cutBlock (block : Json φ) : Option (Json φ) :=
  match block, blockText block with
  | .obj fields, some t =>
    if t ≠ [] ∧ cutText t = [] then none
    else some (.obj (Json.set fields textKey (.str (cutText t))))
  | _, _ => some block

def cutContent : Json φ → Json φ
  | .str s => .str (cutText s)
  | .arr blocks => .arr (blocks.filterMap cutBlock)
  | content => content

/-- The fields with the value of one key changed, if there is one. -/
def changeField (fields : Fields φ) (key : Text) (g : Json φ → Json φ) : Fields φ :=
  match get? fields key with
  | none => fields
  | some v => Json.set fields key (g v)

def cutTurn : Json φ → Json φ
  | .obj fields => .obj (changeField fields contentKey cutContent)
  | turn => turn

def cutTurns : Json φ → Json φ
  | .arr turns => .arr (turns.map cutTurn)
  | v => v

def cutInstructions : Json φ → Json φ
  | .str s => .str (cutText s)
  | v => v

variable (kind : ProxyKind)

/-- The body without the agent-skills blocks of its texts. -/
def cutBody (body : Fields φ) : Fields φ :=
  match kind with
  | .anthropic => changeField (changeField body systemKey cutContent) messagesKey cutTurns
  | .openai => changeField (changeField body instructionsKey cutInstructions) inputKey cutTurns

/-- Nothing to trim and nothing to collapse. -/
structure Clean (t : Text) : Prop where
  stripped : Text.Stripped t
  noRun : ¬ ['\n', '\n', '\n'] <:+: t

/-- The text of a content block is not empty and is clean once it is cut, and its type can be
looked up. -/
def BlockClean : Json φ → Prop
  | .obj fields => typeHashable fields = true ∧
      ∀ t, blockText (.obj fields) = some t → t ≠ [] ∧ Clean (cutText t)
  | _ => True

def ContentClean : Json φ → Prop
  | .str s => Clean (cutText s)
  | .arr blocks => ∀ block ∈ blocks, BlockClean block
  | _ => True

/-- The texts of a turn are clean; an anthropic message has a content. -/
def TurnClean : Json φ → Prop
  | .obj fields =>
    (kind = .anthropic → (get? fields contentKey).isSome = true) ∧
      ∀ content, get? fields contentKey = some content → ContentClean content
  | _ => True

/-- The key of what comes before the turns. -/
def headKey : ProxyKind → Text
  | .anthropic => systemKey
  | .openai => instructionsKey

def listKey : ProxyKind → Text
  | .anthropic => messagesKey
  | .openai => inputKey

/-- All texts that stripping comes to are clean once they are cut. -/
structure BodyClean (kind : ProxyKind) (body : Fields φ) : Prop where
  headText : ∀ s, get? body (headKey kind) = some (.str s) → Clean (cutText s)
  systemBlocks : kind = .anthropic → ∀ blocks, get? body (headKey kind) = some (.arr blocks) →
    ∀ block ∈ blocks, BlockClean block
  turns : ∀ turns, get? body (listKey kind) = some (.arr turns) →
    ∀ turn ∈ turns, TurnClean kind turn

theorem removeAllFrom_sublist (m : Matcher) (skip : ℕ) (t : Text) :
    (Matcher.removeAllFrom m skip t).Sublist t := by
  induction t generalizing skip with
  | nil =>
    cases skip with
    | zero => exact List.Sublist.slnil
    | succ skip => exact List.Sublist.slnil
  | cons c t ih =>
    cases skip with
    | zero =>
      rw [Matcher.removeAllFrom]
      split
      · exact (ih _).cons c
      · exact (ih 0).cons_cons c
    | succ skip => exact (ih skip).cons c

theorem collapseLineFeedsFrom_sublist (n : ℕ) (t : Text) :
    (collapseLineFeedsFrom n t).Sublist t := by
  induction t generalizing n with
  | nil => exact List.Sublist.slnil
  | cons c t ih =>
    rw [collapseLineFeedsFrom]
    split
    · rename_i hc
      split
      · rw [hc]
        exact (ih _).cons_cons '\n'
      · exact (ih n).cons c
    · exact (ih 0).cons_cons c

theorem strip_sublist : t.strip.Sublist t :=
  ( rdropWhile_prefix _ _).sublist.trans (dropWhile_sublist _)

theorem stripAgentSkillsBlocks_eq :
    stripAgentSkillsBlocks t = Text.strip (collapseLineFeedsFrom 0 (cutText t)) := by
  rw [stripAgentSkillsBlocks]
  split
  · rename_i hblank
    symm
    rw [Text.strip_eq_nil_iff] at hblank ⊢
    intro c hc
    have hcut := (collapseLineFeedsFrom_sublist 0 (cutText t)).subset hc
    exact hblank c ((removeAllFrom_sublist skillsBlock 0 t).subset hcut)
  · rfl

theorem run_append_cons {n : ℕ} (hn : n ≤ 2) {c : Char} (hc : c ≠ '\n') (t : Text) :
    ['\n', '\n', '\n'] <:+: List.replicate n '\n' ++ c :: t ↔ ['\n', '\n', '\n'] <:+: t := by
  have hcases : n = 0 ∨ n = 1 ∨ n = 2 := by omega
  have hne : ¬ '\n' = c := Ne.symm hc
  rcases hcases with rfl | rfl | rfl
  · simp [infix_cons_iff, cons_prefix_cons, hne]
  · simp [infix_cons_iff, cons_prefix_cons, hne]
  · simp [infix_cons_iff, cons_prefix_cons, hne, List.replicate]

theorem collapseLineFeedsFrom_eq_iff {n : ℕ} (hn : n ≤ 2) (t : Text) :
    collapseLineFeedsFrom n t = t ↔ ¬ ['\n', '\n', '\n'] <:+: List.replicate n '\n' ++ t := by
  induction t generalizing n with
  | nil =>
    refine ⟨fun _ hrun => ?_, fun _ => rfl⟩
    have hlength := hrun.length_le
    rw [List.append_nil, length_replicate] at hlength
    have hthree : ['\n', '\n', '\n'].length = 3 := rfl
    omega
  | cons c t ih =>
    rw [collapseLineFeedsFrom]
    by_cases hc : c = '\n'
    · subst hc
      rw [if_pos rfl]
      have hmove : List.replicate n '\n' ++ '\n' :: t = List.replicate (n + 1) '\n' ++ t := by
        rw [replicate_succ', List.append_assoc]
        rfl
      by_cases hlt : n < 2
      · rw [if_pos hlt, cons_inj_right, ih (by omega), hmove]
      have htwo : n = 2 := by omega
      rw [if_neg hlt, htwo]
      refine ⟨fun heq => ?_, fun hrun => absurd ⟨[], t, rfl⟩ hrun⟩
      have hlength := (collapseLineFeedsFrom_sublist 2 t).length_le
      rw [heq, length_cons] at hlength
      omega
    · rw [if_neg hc, cons_inj_right, ih (by omega), run_append_cons hn hc]
      rfl

theorem stripAgentSkillsBlocks_eq_cutText_iff :
    stripAgentSkillsBlocks t = cutText t ↔ Clean (cutText t) := by
  rw [stripAgentSkillsBlocks_eq]
  generalize cutText t = r
  have hcollapse := collapseLineFeedsFrom_eq_iff (n := 0) (by omega) r
  constructor
  · intro heq
    have hback := strip_sublist (collapseLineFeedsFrom 0 r)
    rw [heq] at hback
    have hsame : collapseLineFeedsFrom 0 r = r := (collapseLineFeedsFrom_sublist 0 r).antisymm hback
    rw [hsame] at heq
    exact ⟨Text.stripped_iff.mpr heq, hcollapse.mp hsame⟩
  · intro hclean
    rw [hcollapse.mpr hclean.noRun, hclean.stripped.strip]

variable {fields : Fields φ} {key : Text}

theorem set_injective {v w : Json φ} (h : Json.set fields key v = Json.set fields key w) :
    v = w := by
  have hget := congrArg (fun fields => get? fields key) h
  rw [Json.get?_set_self, Json.get?_set_self] at hget
  exact Option.some.inj hget

theorem stripBlock_of_text (hhash : typeHashable fields = true) {t : Text}
    (ht : blockText (.obj fields) = some t) :
    stripBlock (.obj fields) = some (if stripAgentSkillsBlocks t = [] then none
      else some (.obj (Json.set fields textKey (.str (stripAgentSkillsBlocks t))))) := by
  rw [stripBlock]
  simp only [hhash, ht, not_true_eq_false, if_false]

theorem cutBlock_of_text {t : Text} (ht : blockText (.obj fields) = some t) :
    cutBlock (.obj fields) = if t ≠ [] ∧ cutText t = [] then none
      else some (.obj (Json.set fields textKey (.str (cutText t)))) := by
  simp only [cutBlock, ht]

theorem cutBlock_of_no_text (ht : blockText (.obj fields) = none) :
    cutBlock (.obj fields) = some (.obj fields) := by
  simp only [cutBlock, ht]

theorem stripBlock_of_cutBlock_none {block : Json φ} (hcut : cutBlock block = none)
    {kept : Option (Json φ)} (hstrip : stripBlock block = some kept) : kept = none := by
  cases block with
  | obj fields =>
    cases ht : blockText (.obj fields) with
    | none =>
      rw [cutBlock_of_no_text ht] at hcut
      cases hcut
    | some t =>
      rw [cutBlock_of_text ht] at hcut
      split at hcut
      · rename_i hempty
        have hnil : stripAgentSkillsBlocks t = [] := by
          rw [stripAgentSkillsBlocks_eq, hempty.2]
          rfl
        by_cases hhash : typeHashable fields = true
        · rw [stripBlock_of_text hhash ht, if_pos hnil, some_inj] at hstrip
          exact hstrip.symm
        · rw [stripBlock, if_pos hhash] at hstrip
          cases hstrip
      · cases hcut
  | _ => cases hcut

theorem stripBlock_eq_cutBlock_iff (block : Json φ) :
    stripBlock block = some (cutBlock block) ↔ BlockClean block := by
  cases block with
  | obj fields =>
    rw [BlockClean]
    by_cases hhash : typeHashable fields = true
    · cases ht : blockText (.obj fields) with
      | none =>
        rw [cutBlock_of_no_text ht, stripBlock]
        simp [hhash, ht]
      | some t =>
        have hclean := stripAgentSkillsBlocks_eq_cutText_iff t
        rw [stripBlock_of_text hhash ht, cutBlock_of_text ht, some_inj]
        constructor
        · intro heq
          refine ⟨hhash, fun t' ht' => ?_⟩
          rw [← Option.some.inj ht', ← hclean]
          by_cases hnil : stripAgentSkillsBlocks t = []
          · rw [if_pos hnil] at heq
            split at heq
            · rename_i hempty
              exact ⟨hempty.1, hnil.trans hempty.2.symm⟩
            · cases heq
          · rw [if_neg hnil] at heq
            split at heq
            · cases heq
            · have hsame : stripAgentSkillsBlocks t = cutText t :=
                Json.str.inj (set_injective (Json.obj.inj (Option.some.inj heq)))
              refine ⟨?_, hsame⟩
              rintro rfl
              exact hnil rfl
        · rintro ⟨-, htext⟩
          obtain ⟨hne, hsame⟩ := htext t rfl
          rw [← hclean] at hsame
          simp only [hsame, ne_eq, hne, not_false_eq_true, true_and]
    · rw [stripBlock, if_pos hhash]
      simp [hhash]
  | _ => simp [BlockClean, stripBlock, cutBlock]

theorem stripBlocks_length_le {blocks kept : List (Json φ)} (h : stripBlocks blocks = some kept) :
    kept.length ≤ (blocks.filterMap cutBlock).length := by
  induction blocks generalizing kept with
  | nil =>
    rw [← Option.some.inj h]
    exact le_rfl
  | cons block blocks ih =>
    obtain ⟨first, hfirst, hrest⟩ := bind_eq_some_iff.mp h
    obtain ⟨rest, hstrip, rfl⟩ := map_eq_some_iff.mp hrest
    have hlength := ih hstrip
    cases hcut : cutBlock block with
    | none =>
      rw [stripBlock_of_cutBlock_none hcut hfirst, filterMap_cons_none hcut]
      exact hlength
    | some cut =>
      rw [filterMap_cons_some hcut, length_append, length_cons]
      have hone : first.toList.length ≤ 1 := by
        cases first with
        | none => exact Nat.zero_le 1
        | some b => exact le_rfl
      omega

theorem stripBlocks_eq_iff (blocks : List (Json φ)) :
    stripBlocks blocks = some (blocks.filterMap cutBlock) ↔
      ∀ block ∈ blocks, stripBlock block = some (cutBlock block) := by
  induction blocks with
  | nil =>
    refine ⟨fun _ block hblock => ?_, fun _ => rfl⟩
    cases hblock
  | cons block blocks ih =>
    rw [forall_mem_cons, ← ih]
    constructor
    · intro h
      obtain ⟨first, hfirst, hrest⟩ := bind_eq_some_iff.mp h
      obtain ⟨rest, hstrip, heq⟩ := map_eq_some_iff.mp hrest
      cases hcut : cutBlock block with
      | none =>
        have hgone := stripBlock_of_cutBlock_none hcut hfirst
        rw [filterMap_cons_none hcut, hgone] at heq
        rw [hgone] at hfirst
        refine ⟨hfirst, ?_⟩
        rw [hstrip, ← heq]
        rfl
      | some cut =>
        rw [filterMap_cons_some hcut] at heq
        cases first with
        | none =>
          -- one block fewer cannot be made up for
          have hlength := stripBlocks_length_le hstrip
          have hsame : rest = cut :: blocks.filterMap cutBlock := heq
          rw [hsame, length_cons] at hlength
          omega
        | some kept =>
          have hboth : kept :: rest = cut :: blocks.filterMap cutBlock := heq
          obtain ⟨hkept, hrests⟩ := cons_eq_cons.mp hboth
          rw [hfirst, hstrip, hkept, hrests]
          exact ⟨rfl, rfl⟩
    · rintro ⟨hfirst, hrest⟩
      rw [stripBlocks, hfirst, hrest, bind_some, map_some, some_inj]
      cases hcut : cutBlock block with
      | none =>
        rw [filterMap_cons_none hcut]
        rfl
      | some cut =>
        rw [filterMap_cons_some hcut]
        rfl

theorem stripMessageContent_eq_iff (content : Json φ) :
    stripMessageContent content = some (cutContent content) ↔ ContentClean content := by
  cases content with
  | str s =>
    rw [stripMessageContent, cutContent, some_inj, Json.str.injEq]
    exact stripAgentSkillsBlocks_eq_cutText_iff s
  | arr blocks =>
    rw [ContentClean, stripMessageContent, cutContent]
    constructor
    · intro h
      obtain ⟨kept, hkept, heq⟩ := map_eq_some_iff.mp h
      rw [Json.arr.injEq] at heq
      rw [heq, stripBlocks_eq_iff] at hkept
      exact fun block hblock => (stripBlock_eq_cutBlock_iff block).mp (hkept block hblock)
    · intro hclean
      rw [(stripBlocks_eq_iff blocks).mpr fun block hblock =>
        (stripBlock_eq_cutBlock_iff block).mpr (hclean block hblock)]
      rfl
  | _ => exact ⟨fun _ => trivial, fun _ => rfl⟩

variable (body : Fields φ)

theorem updateField_eq_iff (key : Text) (f : Json φ → Option (Json φ)) (g : Json φ → Json φ) :
    updateField body key f = some (changeField body key g) ↔
      ∀ v, get? body key = some v → f v = some (g v) := by
  rw [updateField, changeField]
  cases hv : get? body key with
  | none =>
    refine ⟨fun _ v h => ?_, fun _ => rfl⟩
    cases h
  | some v =>
    constructor
    · intro h w hw
      obtain ⟨v', hv', heq⟩ := map_eq_some_iff.mp h
      rw [← Option.some.inj hw, hv', set_injective heq]
    · intro h
      show (f v).map _ = _
      rw [h v rfl]
      rfl

theorem get?_updateField_of_ne {body body' : Fields φ} {key' : Text} {f : Json φ → Option (Json φ)}
    (hne : key' ≠ key) (h : updateField body key f = some body') :
    get? body' key' = get? body key' := by
  rw [updateField] at h
  split at h
  · rw [Option.some.inj h]
  · obtain ⟨v', -, rfl⟩ := map_eq_some_iff.mp h
    exact Json.get?_set_of_ne hne v'

theorem get?_changeField (key key' : Text) (g : Json φ → Json φ) :
    get? (changeField body key g) key' =
      if key' = key then (get? body key).map g else get? body key' := by
  rw [changeField]
  cases hv : get? body key with
  | none =>
    dsimp only
    by_cases hkey : key' = key
    · rw [if_pos hkey, hkey, hv]
      rfl
    · rw [if_neg hkey]
  | some v =>
    dsimp only
    rw [Json.get?_set]
    rfl

theorem get?_updateField {body body' : Fields φ} {f : Json φ → Option (Json φ)}
    (h : updateField body key f = some body') {v : Json φ} (hv : get? body key = some v) :
    get? body' key = f v := by
  rw [updateField, hv] at h
  obtain ⟨v', hv', rfl⟩ := map_eq_some_iff.mp h
  rw [Json.get?_set_self, hv']

theorem updateField_bind_eq_iff {key' : Text} (hne : key' ≠ key) (f f' : Json φ → Option (Json φ))
    (g g' : Json φ → Json φ) :
    ((updateField body key f).bind fun body => updateField body key' f') =
        some (changeField (changeField body key g) key' g') ↔
      (∀ v, get? body key = some v → f v = some (g v)) ∧
        ∀ v, get? body key' = some v → f' v = some (g' v) := by
  constructor
  · intro h
    obtain ⟨middle, hmiddle, hlast⟩ := bind_eq_some_iff.mp h
    refine ⟨fun v hv => ?_, fun v hv => ?_⟩
    · rw [← get?_updateField hmiddle hv, ← get?_updateField_of_ne (Ne.symm hne) hlast,
        get?_changeField, if_neg (Ne.symm hne), get?_changeField, if_pos rfl, hv]
      rfl
    · rw [← get?_updateField_of_ne hne hmiddle] at hv
      rw [← get?_updateField hlast hv, get?_changeField, if_pos rfl, get?_changeField, if_neg hne,
        ← get?_updateField_of_ne hne hmiddle, hv]
      rfl
  · rintro ⟨hfirst, hlast⟩
    rw [(updateField_eq_iff body key f g).mpr hfirst, bind_some, updateField_eq_iff]
    intro v hv
    rw [get?_changeField, if_neg hne] at hv
    exact hlast v hv

theorem stripTurns_eq_iff (stripTurn : Json φ → Option (Json φ)) (v : Json φ) :
    stripTurns stripTurn v = some (cutTurns v) ↔
      ∀ turns, v = .arr turns → ∀ turn ∈ turns, stripTurn turn = some (cutTurn turn) := by
  cases v with
  | arr turns =>
    rw [stripTurns, cutTurns]
    constructor
    · intro h turns' heq
      obtain ⟨stripped, hstripped, hcut⟩ := map_eq_some_iff.mp h
      rw [Json.arr.injEq] at hcut
      rw [hcut, mapM_eq_some_map_iff] at hstripped
      rw [← Json.arr.inj heq]
      exact hstripped
    · intro h
      rw [(mapM_eq_some_map_iff _ _ _).mpr (h turns rfl)]
      rfl
  | _ => exact ⟨fun _ turns heq => (by cases heq), fun _ => rfl⟩

theorem openaiStripItem_eq_iff (item : Json φ) :
    openaiStripItem item = some (cutTurn item) ↔ TurnClean .openai item := by
  cases item with
  | obj fields =>
    rw [openaiStripItem, cutTurn, TurnClean]
    have hupdate := updateField_eq_iff fields contentKey stripMessageContent cutContent
    constructor
    · intro h
      obtain ⟨fields', hfields, heq⟩ := map_eq_some_iff.mp h
      rw [Json.obj.inj heq, hupdate] at hfields
      refine ⟨fun hkind => (by cases hkind), fun content hcontent => ?_⟩
      exact (stripMessageContent_eq_iff content).mp (hfields content hcontent)
    · rintro ⟨-, hclean⟩
      rw [hupdate.mpr fun content hcontent =>
        (stripMessageContent_eq_iff content).mpr (hclean content hcontent)]
      rfl
  | _ => exact ⟨fun _ => trivial, fun _ => rfl⟩

theorem anthropicStripMessage_eq_iff (message : Json φ) :
    anthropicStripMessage message = some (cutTurn message) ↔ TurnClean .anthropic message := by
  cases message with
  | obj fields =>
    rw [anthropicStripMessage, cutTurn, TurnClean, changeField]
    cases hcontent : get? fields contentKey with
    | none =>
      -- the message gains a content
      refine ⟨fun h => ?_, fun h => ?_⟩
      · have hset := congrArg (get? · contentKey) (Json.obj.inj (Option.some.inj h))
        rw [Json.get?_set_self] at hset
        rw [hcontent] at hset
        cases hset
      · have hpresent := h.1 rfl
        cases hpresent
    | some content =>
      show (stripMessageContent content).map _ = some (Json.obj (Json.set fields _ _)) ↔ _
      constructor
      · intro h
        obtain ⟨content', hstrip, heq⟩ := map_eq_some_iff.mp h
        rw [set_injective (Json.obj.inj heq), stripMessageContent_eq_iff] at hstrip
        refine ⟨fun _ => rfl, fun other hother => ?_⟩
        rw [← Option.some.inj hother]
        exact hstrip
      · rintro ⟨-, hclean⟩
        rw [(stripMessageContent_eq_iff content).mpr (hclean content rfl)]
        rfl
  | _ => exact ⟨fun _ => trivial, fun _ => rfl⟩

theorem listKey_ne_headKey : listKey kind ≠ headKey kind := by
  cases kind with
  | anthropic => decide
  | openai => decide

theorem stripAgentSkillsFromAnthropicBody_eq_iff :
    stripAgentSkillsFromAnthropicBody body = some (cutBody .anthropic body) ↔
      BodyClean .anthropic body := by
  have hne : messagesKey ≠ systemKey := listKey_ne_headKey .anthropic
  rw [stripAgentSkillsFromAnthropicBody, cutBody, updateField_bind_eq_iff body hne]
  constructor
  · rintro ⟨hhead, hturns⟩
    refine ⟨fun s hs => ?_, fun _ blocks hblocks => ?_, fun turns hlist turn hturn => ?_⟩
    · exact (stripMessageContent_eq_iff _).mp (hhead _ hs)
    · exact (stripMessageContent_eq_iff _).mp (hhead _ hblocks)
    · exact (anthropicStripMessage_eq_iff turn).mp
        ((stripTurns_eq_iff _ _).mp (hturns _ hlist) turns rfl turn hturn)
  · intro hclean
    refine ⟨fun v hv => (stripMessageContent_eq_iff v).mpr ?_,
      fun v hv => (stripTurns_eq_iff _ v).mpr fun turns hlist turn hturn => ?_⟩
    · cases v with
      | str s => exact hclean.headText s hv
      | arr blocks => exact hclean.systemBlocks rfl blocks hv
      | _ => trivial
    · rw [hlist] at hv
      exact (anthropicStripMessage_eq_iff turn).mpr (hclean.turns turns hv turn hturn)

theorem stripAgentSkillsFromOpenaiBody_eq_iff :
    stripAgentSkillsFromOpenaiBody body = some (cutBody .openai body) ↔ BodyClean .openai body := by
  have hinstructions : ∀ v : Json φ, stripInstructions v = some (cutInstructions v) ↔
      ∀ s, v = .str s → Clean (cutText s) := by
    intro v
    cases v with
    | str s =>
      rw [stripInstructions, cutInstructions, some_inj, Json.str.injEq,
        stripAgentSkillsBlocks_eq_cutText_iff]
      refine ⟨fun hclean s' hs => ?_, fun h => h s rfl⟩
      rw [← Json.str.inj hs]
      exact hclean
    | _ => exact ⟨fun _ s hs => (by cases hs), fun _ => rfl⟩
  have hne : inputKey ≠ instructionsKey := listKey_ne_headKey .openai
  rw [stripAgentSkillsFromOpenaiBody, cutBody, updateField_bind_eq_iff body hne]
  constructor
  · rintro ⟨hhead, hturns⟩
    refine ⟨fun s hs => ?_, fun hkind => (by cases hkind), fun turns hlist turn hturn => ?_⟩
    · exact (hinstructions _).mp (hhead _ hs) s rfl
    · exact (openaiStripItem_eq_iff turn).mp
        ((stripTurns_eq_iff _ _).mp (hturns _ hlist) turns rfl turn hturn)
  · intro hclean
    refine ⟨fun v hv => (hinstructions v).mpr fun s hs => ?_,
      fun v hv => (stripTurns_eq_iff _ v).mpr fun turns hlist turn hturn => ?_⟩
    · rw [hs] at hv
      exact hclean.headText s hv
    · rw [hlist] at hv
      exact (openaiStripItem_eq_iff turn).mpr (hclean.turns turns hv turn hturn)

/-- The body for a skills injection has the agent-skills blocks cut out and is otherwise unchanged
exactly when it is the same turn, or every text is clean once its blocks are cut, no text block is
empty, and every anthropic message has a content. -/
theorem prepareAgentSkillsInjectBody_surgical_iff (body : Fields φ) (kind : ProxyKind)
    (useUserTurn : Bool) :
    (prepareAgentSkillsInjectBody body kind useUserTurn).map Prod.fst =
        some (if useUserTurn && alreadyHasUserTurnInjection body kind .skills then body
          else cutBody kind body) ↔
      (useUserTurn && alreadyHasUserTurnInjection body kind .skills) = true ∨
        BodyClean kind body := by
  unfold prepareAgentSkillsInjectBody
  cases hsame : (useUserTurn && alreadyHasUserTurnInjection body kind .skills) with
  | true => exact ⟨fun _ => .inl rfl, fun _ => rfl⟩
  | false =>
    simp only [Bool.false_eq_true, if_false, Option.map_map, false_or]
    have hfst : ∀ prepared : Option (Fields φ),
        prepared.map (Prod.fst ∘ fun body => (body, false)) = prepared := by
      intro prepared
      cases prepared with
      | none => rfl
      | some body => rfl
    rw [hfst]
    cases kind with
    | anthropic => exact stripAgentSkillsFromAnthropicBody_eq_iff body
    | openai => exact stripAgentSkillsFromOpenaiBody_eq_iff body

/-- A message with indented code and no block. -/
def indentedCode : Fields Empty :=
  [(messagesKey, .arr [.obj [(roleKey, .str "user"),
    (contentKey, .str "    return x\n")]])]

def firstMessageText (body : Option (Fields Empty)) : Option Text :=
  match body.bind fun body => get? body messagesKey with
  | some (.arr (.obj message :: _)) => (get? message contentKey).bind Json.str?
  | _ => none

/-- The indentation and the line feed are lost. -/
theorem indentedCode_changed :
    (prepareAgentSkillsInjectBody indentedCode .anthropic true).map Prod.fst ≠
      some (if true && alreadyHasUserTurnInjection indentedCode .anthropic .skills then indentedCode
        else cutBody .anthropic indentedCode) := by
  intro heq
  have htext := congrArg firstMessageText heq
  have hstripped : firstMessageText
      ((prepareAgentSkillsInjectBody indentedCode .anthropic true).map Prod.fst) =
        some "return x" := by
    decide +kernel
  have hcut : firstMessageText (some (if true && alreadyHasUserTurnInjection indentedCode .anthropic
      .skills then indentedCode else cutBody .anthropic indentedCode)) = some "    return x\n" := by
    decide +kernel
  rw [hstripped, hcut] at htext
  exact absurd htext (by decide)

end ClearYourTools.Proxy

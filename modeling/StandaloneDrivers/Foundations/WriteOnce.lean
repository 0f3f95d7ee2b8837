import Mathlib.Data.Finset.Card
import Mathlib.Data.Finset.Dedup
import Mathlib.Logic.Function.Basic

/-! A store of blocks of words in which a word can be replaced by another one only if that fits on
it. A write into a block that is not there, or one that does not fit, takes a fresh block. -/
namespace Foundations
variable {β ι W : Type*}

/-- The blocks that are there, and how many more there can be. -/
structure OnceStore (β ι W : Type*) where
  block : β → Option (ι → W)
  free : ℕ

/-- A word to be written. -/
structure Put (β ι W : Type*) where
  block : β
  word : ι
  value : W

def Put.cell (x : Put β ι W) : β × ι := (x.block, x.word)

namespace OnceStore
variable [DecidableEq β] [DecidableEq ι] (fits : W → W → Prop) [DecidableRel fits] (blank : W)
  (s : OnceStore β ι W)

/-- The words of a block, or those of a fresh one. -/
def words (b : β) : ι → W := (s.block b).getD fun _ => blank

/-- The block of a word is not there. -/
def absent (x : Put β ι W) : Bool := (s.block x.block).isNone

/-- The block of a word is there, and the word does not fit. -/
def clashes (x : Put β ι W) : Bool :=
  (s.block x.block).any fun words => !decide (fits (words x.word) x.value)

/-- The blocks after a word was written. -/
def blockAfter (x : Put β ι W) : β → Option (ι → W) :=
  Function.update s.block x.block
    (some (Function.update (s.words blank x.block) x.word x.value))

/-- One word is written; `none` when there is no fresh block for it. -/
def put (x : Put β ι W) : Option (OnceStore β ι W) :=
  if s.absent x || s.clashes fits x then
    if s.free = 0 then none else some ⟨s.blockAfter blank x, s.free - 1⟩
  else some ⟨s.blockAfter blank x, s.free⟩

/-- The fresh blocks that some words take: one for each block that is not there, and one for each
word that does not fit. -/
def cost (l : List (Put β ι W)) : ℕ :=
  ((l.filter s.absent).map Put.block).toFinset.card + l.countP (s.clashes fits)

variable {fits blank s} {s' : OnceStore β ι W} {x y : Put β ι W} {l : List (Put β ι W)}

theorem blockAfter_block (x : Put β ι W) : s.blockAfter blank x x.block =
    some (Function.update (s.words blank x.block) x.word x.value) := Function.update_self _ _ _

theorem blockAfter_of_ne {b : β} (h : b ≠ x.block) : s.blockAfter blank x b = s.block b :=
  Function.update_of_ne h _ _

theorem put_block (h : s.put fits blank x = some s') : s'.block = s.blockAfter blank x := by
  rw [put] at h
  split_ifs at h
  · exact Option.some.inj h ▸ rfl
  · exact Option.some.inj h ▸ rfl

theorem put_free (h : s.put fits blank x = some s') :
    s'.free + (if s.absent x || s.clashes fits x then 1 else 0) = s.free := by
  rw [put] at h
  split_ifs at h with hneeds hfree
  · obtain rfl := Option.some.inj h
    rw [if_pos hneeds]
    exact Nat.sub_add_cancel (Nat.one_le_iff_ne_zero.mpr hfree)
  · obtain rfl := Option.some.inj h
    rw [if_neg hneeds]
    rfl

theorem put_of_needs (h : (s.absent x || s.clashes fits x) = true) {n : ℕ} (hfree : s.free = n + 1) :
    s.put fits blank x = some ⟨s.blockAfter blank x, n⟩ := by
  rw [put, if_pos h, hfree, if_neg (Nat.succ_ne_zero n)]
  rfl

theorem put_of_fits (h : (s.absent x || s.clashes fits x) = false) :
    s.put fits blank x = some ⟨s.blockAfter blank x, s.free⟩ := by
  rw [put, h]
  rfl

theorem put_eq_none_iff : s.put fits blank x = none ↔
    (s.absent x || s.clashes fits x) = true ∧ s.free = 0 := by
  rw [put]
  split_ifs with hneeds hfree
  · exact iff_of_true rfl ⟨hneeds, hfree⟩
  · exact iff_of_false nofun fun h => hfree h.2
  · exact iff_of_false nofun fun h => hneeds h.1

theorem absent_put (h : s.put fits blank x = some s') (y : Put β ι W) :
    s'.absent y = (s.absent y && decide (y.block ≠ x.block)) := by
  rw [absent, put_block h]
  by_cases hy : y.block = x.block
  · rw [hy, blockAfter_block, decide_eq_false (not_not_intro rfl), Bool.and_false]
    rfl
  · rw [blockAfter_of_ne hy, decide_eq_true hy, Bool.and_true]
    rfl

/-- Writing one word does not change whether another one fits. -/
theorem clashes_put (hblank : ∀ v, fits blank v) (h : s.put fits blank x = some s')
    (hy : y.cell ≠ x.cell) : s'.clashes fits y = s.clashes fits y := by
  rw [clashes, clashes, put_block h]
  by_cases hblock : y.block = x.block
  · have hword : y.word ≠ x.word := by
      intro hword
      exact hy (Prod.ext hblock hword)
    rw [hblock, blockAfter_block, Option.any_some, Function.update_of_ne hword, words]
    cases s.block x.block with
    | none => simp only [Option.getD_none, hblank, decide_true, Bool.not_true, Option.any_none]
    | some c => rfl
  · rw [blockAfter_of_ne hblock]

omit [DecidableEq ι] in
theorem cost_pos (h : (s.absent x || s.clashes fits x) = true) : 0 < s.cost fits (x :: l) := by
  rw [cost]
  cases hxa : s.absent x with
  | true =>
    apply Nat.add_pos_left
    apply Finset.card_pos.mpr
    refine ⟨x.block, ?_⟩
    rw [List.filter_cons_of_pos hxa, List.mem_toFinset]
    exact List.mem_cons_self
  | false =>
    rw [hxa, Bool.false_or] at h
    rw [List.countP_cons_of_pos h]
    exact Nat.succ_pos _

omit [DecidableEq ι] in
/-- Each block that needs a fresh one is paid for. -/
theorem card_le_cost {t : Finset β}
    (h : ∀ b ∈ t, ∃ y ∈ l, y.block = b ∧ (s.absent y || s.clashes fits y) = true) :
    t.card ≤ s.cost fits l := by
  have hsubset : t ⊆ ((l.filter s.absent).map Put.block).toFinset ∪
      ((l.filter (s.clashes fits)).map Put.block).toFinset := by
    intro b hb
    obtain ⟨y, hy, rfl, hneeds⟩ := h b hb
    rw [Finset.mem_union, List.mem_toFinset, List.mem_toFinset]
    rcases Bool.or_eq_true_iff.mp hneeds with habsent | hclash
    · exact Or.inl (List.mem_map_of_mem (List.mem_filter.mpr ⟨hy, habsent⟩))
    · exact Or.inr (List.mem_map_of_mem (List.mem_filter.mpr ⟨hy, hclash⟩))
  have hclashes : ((l.filter (s.clashes fits)).map Put.block).toFinset.card ≤
      l.countP (s.clashes fits) := by
    apply Nat.le_trans (List.toFinset_card_le _)
    rw [List.length_map, List.countP_eq_length_filter]
  exact ((Finset.card_le_card hsubset).trans (Finset.card_union_le _ _)).trans
    (Nat.add_le_add_left hclashes _)

/-- What is left to be paid after the first word. -/
theorem cost_put (hblank : ∀ v, fits blank v) (h : s.put fits blank x = some s')
    (hx : x.cell ∉ l.map Put.cell) :
    s.cost fits (x :: l) = s'.cost fits l + if s.absent x || s.clashes fits x then 1 else 0 := by
  have hcount : l.countP (s'.clashes fits) = l.countP (s.clashes fits) := by
    apply List.countP_congr
    intro y hy
    rw [clashes_put hblank h]
    intro heq
    exact hx (heq ▸ List.mem_map_of_mem hy)
  have habsent : ((l.filter s'.absent).map Put.block).toFinset =
      ((l.filter s.absent).map Put.block).toFinset.erase x.block := by
    ext b
    simp only [List.mem_toFinset, List.mem_map, List.mem_filter, absent_put h, Bool.and_eq_true,
      decide_eq_true_eq, Finset.mem_erase]
    constructor
    · rintro ⟨y, ⟨hy, hya, hne⟩, rfl⟩
      exact ⟨hne, y, ⟨hy, hya⟩, rfl⟩
    · rintro ⟨hne, y, ⟨hy, hya⟩, rfl⟩
      exact ⟨y, ⟨hy, hya, hne⟩, rfl⟩
  rw [cost, cost, habsent, hcount, List.countP_cons]
  cases hxa : s.absent x with
  | true =>
    have hclash : s.clashes fits x = false := by
      rw [absent, Option.isNone_iff_eq_none] at hxa
      rw [clashes, hxa]
      rfl
    have hinsert : ∀ t : Finset β, insert x.block t = insert x.block (t.erase x.block) := by
      intro t
      grind
    rw [List.filter_cons_of_pos hxa, List.map_cons, List.toFinset_cons, hclash, hinsert,
      Finset.card_insert_of_notMem (Finset.notMem_erase _ _)]
    simp only [Bool.true_or, if_true, Bool.false_eq_true, if_false]
    omega
  | false =>
    have hnot : x.block ∉ ((l.filter s.absent).map Put.block).toFinset := by
      intro hmem
      simp only [List.mem_toFinset, List.mem_map, List.mem_filter] at hmem
      obtain ⟨y, ⟨-, hya⟩, hyx⟩ := hmem
      rw [absent, hyx] at hya
      exact Bool.false_ne_true (hxa.symm.trans hya)
    rw [List.filter_cons_of_neg (Bool.eq_false_iff.mp hxa), Finset.erase_eq_of_notMem hnot]
    simp only [Bool.false_or, Nat.add_assoc]

variable (fits blank s)

/-- Some words are written, one after the other. -/
def putAll : List (Put β ι W) → OnceStore β ι W → Option (OnceStore β ι W)
  | [], s => some s
  | x :: l, s => (s.put fits blank x).bind (putAll l)

variable {fits blank s}

/-- The words can be written if the fresh blocks suffice. -/
theorem putAll_isSome_iff (hblank : ∀ v, fits blank v) (hnodup : (l.map Put.cell).Nodup) :
    (putAll fits blank l s).isSome = true ↔ s.cost fits l ≤ s.free := by
  induction l generalizing s with
  | nil => exact iff_of_true rfl (Nat.zero_le _)
  | cons x l ih =>
    obtain ⟨hx, hnodup⟩ := List.nodup_cons.mp hnodup
    rw [putAll]
    cases hput : s.put fits blank x with
    | none =>
      obtain ⟨hneeds, hfree⟩ := put_eq_none_iff.mp hput
      refine iff_of_false nofun fun hle => ?_
      rw [hfree] at hle
      exact Nat.not_lt.mpr hle (cost_pos hneeds)
    | some s' =>
      have hcost := cost_put hblank hput hx
      have hfree := put_free hput
      rw [Option.bind_some, ih hnodup, hcost]
      omega

/-- The words of a block change where they are written, and a fresh block is blank elsewhere. -/
theorem putAll_words (h : putAll fits blank l s = some s') (hnodup : (l.map Put.cell).Nodup) :
    (∀ y ∈ l, s'.words blank y.block y.word = y.value) ∧
      ∀ b w, (b, w) ∉ l.map Put.cell → s'.words blank b w = s.words blank b w := by
  induction l generalizing s with
  | nil =>
    cases h
    exact ⟨(fun _ hy => nomatch hy), fun _ _ _ => rfl⟩
  | cons x l ih =>
    obtain ⟨hx, hnodup⟩ := List.nodup_cons.mp hnodup
    rw [putAll, Option.bind_eq_some_iff] at h
    obtain ⟨s₁, hput, hrest⟩ := h
    obtain ⟨hvalues, hothers⟩ := ih hrest hnodup
    have hwords : ∀ b w, s₁.words blank b w =
        if (b, w) = x.cell then x.value else s.words blank b w := by
      intro b w
      rw [words, put_block hput]
      by_cases hb : b = x.block
      · subst hb
        rw [blockAfter_block, Option.getD_some, Function.update_apply]
        simp only [Put.cell, Prod.mk.injEq, true_and]
      · rw [blockAfter_of_ne hb, if_neg fun heq => hb (congrArg Prod.fst heq)]
        rfl
    constructor
    · rintro y (_ | ⟨_, hy⟩)
      · rw [hothers _ _ hx, hwords]
        exact if_pos rfl
      · exact hvalues y hy
    · intro b w hnot
      rw [List.map_cons, List.mem_cons, not_or] at hnot
      rw [hothers b w hnot.2, hwords, if_neg hnot.1]

/-- The blocks that are there afterwards. -/
theorem putAll_block (h : putAll fits blank l s = some s') (b : β) :
    (s'.block b).isSome = true ↔ (s.block b).isSome = true ∨ b ∈ l.map Put.block := by
  induction l generalizing s with
  | nil =>
    cases h
    exact (or_iff_left List.not_mem_nil).symm
  | cons x l ih =>
    rw [putAll, Option.bind_eq_some_iff] at h
    obtain ⟨s₁, hput, hrest⟩ := h
    rw [ih hrest, put_block hput, List.map_cons, List.mem_cons]
    by_cases hb : b = x.block
    · subst hb
      rw [blockAfter_block]
      exact iff_of_true (Or.inl rfl) (Or.inr (Or.inl rfl))
    · rw [blockAfter_of_ne hb]
      exact or_congr_right (or_iff_right hb).symm

/-- A word that was written is there. -/
theorem putAll_written (h : putAll fits blank l s = some s') (hnodup : (l.map Put.cell).Nodup)
    (hx : x ∈ l) : (s'.block x.block).map (· x.word) = some x.value := by
  have hword := (putAll_words h hnodup).1 x hx
  have hsome := (putAll_block h x.block).mpr (Or.inr (List.mem_map_of_mem hx))
  obtain ⟨c, hc⟩ := Option.isSome_iff_exists.mp hsome
  rw [words, hc, Option.getD_some] at hword
  rw [hc, Option.map_some, hword]

/-- A word that was not written is as it was, unless its block is a fresh one. -/
theorem putAll_kept (h : putAll fits blank l s = some s') (hnodup : (l.map Put.cell).Nodup) {b : β}
    {w : ι} (hcell : (b, w) ∉ l.map Put.cell)
    (hfresh : s.block b = none → b ∉ l.map Put.block) :
    (s'.block b).map (· w) = (s.block b).map (· w) := by
  have hword := (putAll_words h hnodup).2 b w hcell
  have hblock := putAll_block h b
  rw [words, words] at hword
  cases hs : s.block b with
  | none =>
    have hnone : s'.block b = none := by
      rw [← Option.not_isSome_iff_eq_none, hblock, hs, not_or]
      exact ⟨nofun, hfresh hs⟩
    rw [hnone]
  | some c =>
    obtain ⟨c', hc'⟩ := Option.isSome_iff_exists.mp (hblock.mpr (Or.inl (by rw [hs]; rfl)))
    rw [hs, hc', Option.getD_some, Option.getD_some] at hword
    rw [hc', Option.map_some, Option.map_some, hword]

end OnceStore
end Foundations

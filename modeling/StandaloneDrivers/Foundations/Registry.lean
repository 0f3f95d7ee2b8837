import Mathlib.Tactic
import Mathlib.Data.Finset.Card

/-! A table whose slots are taken by keys, kept beside an index from keys to slots and a count
of the slots in use. Slot 0 is never taken: an index of 0 says that a key has no slot. -/
namespace Foundations
variable {κ : Type*}

/-- The numbers `1 .. n - 1` with a property. -/
def countSlots (n : ℕ) (p : ℕ → Prop) [DecidablePred p] : ℕ := ((Finset.Ico 1 n).filter p).card

theorem countSlots_congr {n : ℕ} {p q : ℕ → Prop} [DecidablePred p] [DecidablePred q]
    (h : ∀ i, 1 ≤ i → i < n → (p i ↔ q i)) : countSlots n p = countSlots n q := by
  unfold countSlots
  congr 1
  apply Finset.filter_congr
  intro i hi
  obtain ⟨h1, h2⟩ := Finset.mem_Ico.mp hi
  exact h i h1 h2

/-- One more slot has the property. -/
theorem countSlots_insert {n j : ℕ} {p q : ℕ → Prop} [DecidablePred p] [DecidablePred q]
    (hj : 1 ≤ j) (hn : j < n) (hp : ¬ p j) (hq : q j)
    (h : ∀ i, i ≠ j → (p i ↔ q i)) : countSlots n q = countSlots n p + 1 := by
  have hins : (Finset.Ico 1 n).filter q = insert j ((Finset.Ico 1 n).filter p) := by
    ext i
    simp only [Finset.mem_filter, Finset.mem_insert, Finset.mem_Ico]
    by_cases hi : i = j
    · subst hi
      simp [hj, hn, hq]
    · simp [hi, h i hi]
  unfold countSlots
  rw [hins, Finset.card_insert_of_notMem (by simp [hp])]

/-- One slot less has the property. -/
theorem countSlots_erase {n j : ℕ} {p q : ℕ → Prop} [DecidablePred p] [DecidablePred q]
    (hj : 1 ≤ j) (hn : j < n) (hp : p j) (hq : ¬ q j)
    (h : ∀ i, i ≠ j → (p i ↔ q i)) : countSlots n q = countSlots n p - 1 := by
  rw [countSlots_insert hj hn hq hp fun i hi => (h i hi).symm, Nat.add_sub_cancel]

/-- Not all slots have the property, so one does not. -/
theorem exists_slot_of_count_lt {n : ℕ} {p : ℕ → Prop} [DecidablePred p]
    (h : countSlots n p < n - 1) : ∃ i, 1 ≤ i ∧ i < n ∧ ¬ p i := by
  by_contra hall
  push Not at hall
  have hfull : (Finset.Ico 1 n).filter p = Finset.Ico 1 n := by
    apply Finset.filter_true_of_mem
    intro i hi
    obtain ⟨h1, h2⟩ := Finset.mem_Ico.mp hi
    exact hall i h1 h2
  unfold countSlots at h
  rw [hfull, Nat.card_Ico] at h
  exact lt_irrefl _ h

/-- Which key holds a slot, which slot a key holds, how many slots are held. -/
@[ext] structure Registry (κ : Type*) where
  owner : ℕ → Option κ
  slot : κ → ℕ
  count : ℕ

namespace Registry
variable {n : ℕ} {keys : κ → Prop} {r : Registry κ}

/-- The three agree on the slots `1 .. n - 1` and the keys in use. -/
structure Valid (n : ℕ) (keys : κ → Prop) (r : Registry κ) : Prop where
  owned : ∀ {i k}, 1 ≤ i → i < n → r.owner i = some k → keys k
  link : ∀ {i k}, 1 ≤ i → i < n → keys k → (r.owner i = some k ↔ r.slot k = i)
  range : ∀ {k}, keys k → r.slot k < n
  counted : r.count = countSlots n fun i => (r.owner i).isSome = true

/-- Agreement is a matter of the slots and keys in use only. -/
theorem Valid.congr {r' : Registry κ} (h : r.Valid n keys)
    (ho : ∀ i, 1 ≤ i → i < n → r'.owner i = r.owner i) (hs : ∀ k, keys k → r'.slot k = r.slot k)
    (hc : r'.count = r.count) : r'.Valid n keys where
  owned := fun h1 h2 hk => h.owned h1 h2 (ho _ h1 h2 ▸ hk)
  link := fun h1 h2 hk => by rw [ho _ h1 h2, hs _ hk, h.link h1 h2 hk]
  range := fun hk => by rw [hs _ hk]; exact h.range hk
  counted := by
    rw [hc, h.counted]
    exact countSlots_congr fun i h1 h2 => by rw [ho i h1 h2]

/-- A slot that a key holds is the one the key points to. -/
theorem Valid.owner_slot (h : r.Valid n keys) {k : κ} (hk : keys k) (hs : r.slot k ≠ 0) :
    r.owner (r.slot k) = some k :=
  (h.link (Nat.one_le_iff_ne_zero.mpr hs) (h.range hk) hk).mpr rfl

/-- While not all slots are counted, one is free. -/
theorem Valid.exists_free (h : r.Valid n keys) (hc : r.count < n - 1) :
    ∃ i, 1 ≤ i ∧ i < n ∧ r.owner i = none := by
  rw [h.counted] at hc
  obtain ⟨i, h1, h2, hi⟩ := exists_slot_of_count_lt hc
  exact ⟨i, h1, h2, by simpa using hi⟩

variable [DecidableEq κ]

/-- A free slot is given to a key without one. -/
def take (r : Registry κ) (i : ℕ) (k : κ) : Registry κ where
  owner := Function.update r.owner i (some k)
  slot := Function.update r.slot k i
  count := r.count + 1

/-- A slot is given back. -/
def give (r : Registry κ) (i : ℕ) (k : κ) : Registry κ where
  owner := Function.update r.owner i none
  slot := Function.update r.slot k 0
  count := r.count - 1

theorem Valid.take (h : r.Valid n keys) {i : ℕ} {k : κ} (hi : 1 ≤ i) (hn : i < n)
    (hfree : r.owner i = none) (hk : keys k) (hslot : r.slot k = 0) :
    (r.take i k).Valid n keys where
  owned := by
    intro j k' h1 h2 ho
    by_cases hj : j = i
    · subst hj
      simp only [Registry.take, Function.update_self, Option.some_inj] at ho
      exact ho ▸ hk
    · simp only [Registry.take, Function.update_of_ne hj] at ho
      exact h.owned h1 h2 ho
  link := by
    intro j k' h1 h2 hk'
    simp only [Registry.take, Function.update_apply]
    by_cases hj : j = i
    · subst hj
      have hother : r.slot k' ≠ j := fun hs => by
        rw [(h.link h1 h2 hk').mpr hs] at hfree
        exact Option.some_ne_none _ hfree
      by_cases hkk : k' = k
      · simp [hkk]
      · simp [hkk, hother, Ne.symm hkk]
    · by_cases hkk : k' = k
      · subst hkk
        have hnone : r.owner j ≠ some k' := fun ho => by
          have := (h.link h1 h2 hk').mp ho
          omega
        simp [hj, hnone, Ne.symm hj]
      · simp [hj, hkk, h.link h1 h2 hk']
  range := by
    intro k' hk'
    simp only [Registry.take, Function.update_apply]
    split_ifs
    · exact hn
    · exact h.range hk'
  counted := by
    simp only [Registry.take, h.counted]
    refine (countSlots_insert hi hn (by simp [hfree]) (by simp) fun j hj => ?_).symm
    simp [Function.update_of_ne hj]

theorem Valid.give (h : r.Valid n keys) {i : ℕ} {k : κ} (hi : 1 ≤ i) (hn : i < n)
    (hown : r.owner i = some k) : (r.give i k).Valid n keys where
  owned := by
    intro j k' h1 h2 ho
    by_cases hj : j = i
    · subst hj
      simp [Registry.give] at ho
    · simp only [Registry.give, Function.update_of_ne hj] at ho
      exact h.owned h1 h2 ho
  link := by
    intro j k' h1 h2 hk'
    have hki := (h.link hi hn (h.owned hi hn hown)).mp hown
    simp only [Registry.give, Function.update_apply]
    by_cases hj : j = i
    · subst hj
      by_cases hkk : k' = k
      · simp [hkk]
        omega
      · have hother : r.slot k' ≠ j := fun hs => by
          have ho := (h.link h1 h2 hk').mpr hs
          rw [hown, Option.some_inj] at ho
          exact hkk ho.symm
        simp [hkk, hother]
    · by_cases hkk : k' = k
      · subst hkk
        have hnone : r.owner j ≠ some k' := fun ho => by
          have := (h.link h1 h2 hk').mp ho
          omega
        simp [hj, hnone]
        omega
      · simp [hj, hkk, h.link h1 h2 hk']
  range := by
    intro k' hk'
    simp only [Registry.give, Function.update_apply]
    split_ifs
    · omega
    · exact h.range hk'
  counted := by
    simp only [Registry.give, h.counted]
    refine (countSlots_erase hi hn (by simp [hown]) (by simp) fun j hj => ?_).symm
    simp [Function.update_of_ne hj]

end Registry

/-- A registry whose slots are confirmed in a second stage, with a flag for the keys of
confirmed slots. -/
@[ext] structure Marked (κ : Type*) extends Registry κ where
  confirmed : ℕ → Bool
  flag : κ → Bool

namespace Marked
variable {n : ℕ} {keys : κ → Prop} {r : Marked κ}

/-- A flagged key holds a confirmed slot; a slot in no use is not confirmed. -/
structure Valid (n : ℕ) (keys : κ → Prop) (r : Marked κ) : Prop
    extends Registry.Valid n keys r.toRegistry where
  flagged : ∀ {k}, keys k → r.flag k = true → r.slot k ≠ 0 ∧ r.confirmed (r.slot k) = true
  held : ∀ {i}, 1 ≤ i → i < n → r.owner i = none → r.confirmed i = false

theorem Valid.congr {r' : Marked κ} (h : r.Valid n keys)
    (ho : ∀ i, 1 ≤ i → i < n → r'.owner i = r.owner i) (hs : ∀ k, keys k → r'.slot k = r.slot k)
    (hc : r'.count = r.count) (hm : ∀ i, 1 ≤ i → i < n → r'.confirmed i = r.confirmed i)
    (hf : ∀ k, keys k → r'.flag k = r.flag k) : r'.Valid n keys where
  toValid := h.toValid.congr ho hs hc
  flagged := fun {k} hk hflag => by
    rw [hf k hk] at hflag
    obtain ⟨hne, hconf⟩ := h.flagged hk hflag
    rw [hs k hk, hm _ (Nat.one_le_iff_ne_zero.mpr hne) (h.range hk)]
    exact ⟨hne, hconf⟩
  held := fun h1 h2 hfree => by
    rw [hm _ h1 h2]
    exact h.held h1 h2 (ho _ h1 h2 ▸ hfree)

theorem Valid.flag_of_not_confirmed (h : r.Valid n keys) {k : κ} (hk : keys k)
    (hc : r.slot k = 0 ∨ r.confirmed (r.slot k) = false) : r.flag k = false := by
  by_contra hflag
  rw [Bool.not_eq_false] at hflag
  obtain ⟨hne, hconf⟩ := h.flagged hk hflag
  rcases hc with h0 | hfalse
  · exact hne h0
  · rw [hconf] at hfalse
    exact Bool.noConfusion hfalse

variable [DecidableEq κ]

def take (r : Marked κ) (i : ℕ) (k : κ) (c : Bool) : Marked κ where
  toRegistry := r.toRegistry.take i k
  confirmed := Function.update r.confirmed i c
  flag := Function.update r.flag k c

def confirm (r : Marked κ) (i : ℕ) (k : κ) : Marked κ where
  toRegistry := r.toRegistry
  confirmed := Function.update r.confirmed i true
  flag := Function.update r.flag k true

def give (r : Marked κ) (i : ℕ) (k : κ) : Marked κ where
  toRegistry := r.toRegistry.give i k
  confirmed := Function.update r.confirmed i false
  flag := Function.update r.flag k false

theorem Valid.take (h : r.Valid n keys) {i : ℕ} {k : κ} (c : Bool) (hi : 1 ≤ i) (hn : i < n)
    (hfree : r.owner i = none) (hk : keys k) (hslot : r.slot k = 0) :
    (r.take i k c).Valid n keys where
  toValid := h.toValid.take hi hn hfree hk hslot
  flagged := by
    intro k' hk' hflag
    simp only [Marked.take, Registry.take, Function.update_apply] at hflag ⊢
    by_cases hkk : k' = k
    · simp only [hkk, ↓reduceIte] at hflag ⊢
      exact ⟨by omega, hflag⟩
    · simp only [hkk, ↓reduceIte] at hflag ⊢
      obtain ⟨hne, hconf⟩ := h.flagged hk' hflag
      have hother : r.slot k' ≠ i := fun hs => by
        have ho := h.owner_slot hk' hne
        rw [hs, hfree] at ho
        exact Option.some_ne_none _ ho.symm
      simpa [hother] using ⟨hne, hconf⟩
  held := by
    intro j h1 h2 hj
    have hne : j ≠ i := fun he => by
      simp [Marked.take, Registry.take, he] at hj
    simp only [Marked.take, Registry.take, Function.update_of_ne hne] at hj ⊢
    exact h.held h1 h2 hj

theorem Valid.confirm (h : r.Valid n keys) {i : ℕ} {k : κ} (hi : 1 ≤ i) (hn : i < n)
    (hown : r.owner i = some k) : (r.confirm i k).Valid n keys where
  toValid := h.toValid
  flagged := by
    intro k' hk' hflag
    simp only [Marked.confirm, Function.update_apply] at hflag ⊢
    by_cases hkk : k' = k
    · have hs := (h.link hi hn (h.owned hi hn hown)).mp hown
      rw [hkk, hs]
      exact ⟨by omega, by simp⟩
    · simp only [hkk, ↓reduceIte] at hflag
      obtain ⟨hne, hconf⟩ := h.flagged hk' hflag
      refine ⟨hne, ?_⟩
      split_ifs
      · rfl
      · exact hconf
  held := by
    intro j h1 h2 hj
    have hne : j ≠ i := fun he => by
      rw [he] at hj
      exact Option.some_ne_none _ (hown.symm.trans hj)
    simp only [Marked.confirm, Function.update_of_ne hne]
    exact h.held h1 h2 hj

theorem Valid.give (h : r.Valid n keys) {i : ℕ} {k : κ} (hi : 1 ≤ i) (hn : i < n)
    (hown : r.owner i = some k) : (r.give i k).Valid n keys where
  toValid := h.toValid.give hi hn hown
  flagged := by
    intro k' hk' hflag
    simp only [Marked.give, Registry.give, Function.update_apply] at hflag ⊢
    by_cases hkk : k' = k
    · simp [hkk] at hflag
    · simp only [hkk, ↓reduceIte] at hflag ⊢
      obtain ⟨hne, hconf⟩ := h.flagged hk' hflag
      have hother : r.slot k' ≠ i := fun hs => by
        have ho := h.owner_slot hk' hne
        rw [hs, hown, Option.some_inj] at ho
        exact hkk ho.symm
      simpa [hother] using ⟨hne, hconf⟩
  held := by
    intro j h1 h2 hj
    simp only [Marked.give, Registry.give, Function.update_apply] at hj ⊢
    split_ifs at hj ⊢ with he
    · rfl
    · exact h.held h1 h2 hj

end Marked
end Foundations

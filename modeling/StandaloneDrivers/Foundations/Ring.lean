import Mathlib.Data.Fin.Basic
import Mathlib.Data.ZMod.Defs

/-! A ring of slots, and the values that the slots behind a position stand for. -/
namespace Foundations.Ring
variable {α β : Type*} {n : ℕ} [NeZero n]

/-- The slot `k` places behind `h`. -/
def slot (h : Fin n) (k : ℕ) : Fin n := h + Fin.ofNat n k

theorem slot_zero (h : Fin n) : slot h 0 = h := by
  have hzero : Fin.ofNat n 0 = 0 := rfl
  rw [slot, hzero, add_zero]

theorem slot_succ (h : Fin n) (k : ℕ) : slot h (k + 1) = slot (h + 1) k := by
  have hone : Fin.ofNat n (k + 1) = 1 + Fin.ofNat n k := by
    apply Fin.ext
    simp [Fin.val_add, Nat.add_comm]
  rw [slot, hone, slot, add_assoc]

theorem slot_next (h : Fin n) (k : ℕ) : slot h (k + 1) = slot h k + 1 := by
  have hone : Fin.ofNat n (k + 1) = Fin.ofNat n k + 1 := by
    apply Fin.ext
    simp [Fin.val_add]
  rw [slot, hone, slot, add_assoc]

theorem slot_round (h : Fin n) : slot h n = h := by
  have hround : Fin.ofNat n n = 0 := by
    apply Fin.ext
    simp
  rw [slot, hround, add_zero]

/-- Places less than a round apart are different slots. -/
theorem slot_inj {h : Fin n} {j k : ℕ} (hj : j < n) (hk : k < n) (heq : slot h j = slot h k) :
    j = k := by
  have hoffset := congrArg Fin.val (add_left_cancel heq)
  simpa [Fin.ofNat, Nat.mod_eq_of_lt hj, Nat.mod_eq_of_lt hk] using hoffset

/-- The slots behind `h` stand for the values of a list, one after another. -/
def Holds (stands : α → β → Prop) (ring : Vector α n) (h : Fin n) (values : List β) : Prop :=
  ∀ k v, values[k]? = some v → stands (ring.get (slot h k)) v

section
variable {stands : α → β → Prop} {ring : Vector α n} {h : Fin n} {values : List β}

theorem holds_nil : Holds stands ring h [] := by
  intro k v hv
  cases hv

/-- The first value, and the ones behind it. -/
theorem Holds.next {v : β} (hv : Holds stands ring h (v :: values)) :
    stands (ring.get h) v ∧ Holds stands ring (h + 1) values := by
  constructor
  · have hfirst := hv 0 v rfl
    rwa [slot_zero] at hfirst
  · intro k w hw
    rw [← slot_succ]
    exact hv (k + 1) w hw

omit [NeZero n] in
theorem get_set (ring : Vector α n) (i j : Fin n) (a : α) :
    (ring.set i a).get j = if i = j then a else ring.get j := by
  show (ring.set i a)[(j : ℕ)] = if i = j then a else ring[(j : ℕ)]
  rw [Vector.getElem_set]
  simp only [Fin.ext_iff]

/-- A slot that stands for none of the values may be written. -/
theorem Holds.set {i : Fin n} (hv : Holds stands ring h values) (a : α)
    (hi : ∀ k < values.length, slot h k ≠ i) : Holds stands (ring.set i a) h values := by
  intro k v hkv
  have hk : k < values.length := (List.getElem?_eq_some_iff.mp hkv).1
  rw [get_set, if_neg (hi k hk).symm]
  exact hv k v hkv

/-- A value is put behind the others. -/
theorem Holds.put {i : Fin n} {a : α} {v : β} (hv : Holds stands ring h values)
    (hi : i = slot h values.length) (hfull : values.length < n) (ha : stands a v) :
    Holds stands (ring.set i a) h (values ++ [v]) := by
  subst hi
  intro k w hw
  rcases Nat.lt_or_ge k values.length with hk | hk
  · rw [List.getElem?_append_left hk] at hw
    have hother : ∀ j < values.length, slot h j ≠ slot h values.length := by
      intro j hj heq
      exact hj.ne (slot_inj (hj.trans hfull) hfull heq)
    exact hv.set a hother k w hw
  · rw [List.getElem?_append_right hk] at hw
    have hlast : k = values.length := by
      have hlen := (List.getElem?_eq_some_iff.mp hw).1
      rw [List.length_singleton] at hlen
      omega
    subst hlast
    rw [Nat.sub_self] at hw
    cases hw
    rw [get_set, if_pos rfl]
    exact ha

end

end Foundations.Ring

import Mathlib.Algebra.Order.Ring.Int
import Mathlib.Data.List.Basic
import Mathlib.Data.List.GetD

/-! A memory of bytes without bounds: blocks that are read and written. -/
namespace Foundations

abbrev Memory : Type := ℕ → UInt8

namespace Memory
variable (m : Memory)

def read (i n : ℕ) : List UInt8 := (List.range n).map fun j => m (i + j)

def write (i : ℕ) (bytes : List UInt8) : Memory :=
  fun j => if i ≤ j ∧ j < i + bytes.length then bytes.getD (j - i) 0 else m j

@[simp] theorem read_length (i n : ℕ) : (m.read i n).length = n := by
  rw [read, List.length_map, List.length_range]

theorem read_getD {i n j : ℕ} (h : j < n) : (m.read i n).getD j 0 = m (i + j) := by
  rw [List.getD_eq_getElem _ _ (by rwa [read_length])]
  simp only [read, List.getElem_map, List.getElem_range]

theorem read_add (i a b : ℕ) : m.read i (a + b) = m.read i a ++ m.read (i + a) b := by
  simp only [read, List.range_add, List.map_append, List.map_map]
  congr 2
  funext j
  exact congrArg m (Nat.add_assoc i a j).symm

theorem read_succ (i n : ℕ) : m.read i (n + 1) = m i :: m.read (i + 1) n := by
  rw [Nat.add_comm n 1, read_add]
  rfl

/-- A part of what was read. -/
theorem read_take_drop {s i n l : ℕ} (h : i + n ≤ l) :
    ((m.read s l).drop i).take n = m.read (s + i) n := by
  obtain ⟨r, rfl⟩ := Nat.exists_eq_add_of_le h
  rw [Nat.add_assoc, read_add, List.drop_left' (read_length m s i), read_add,
    List.take_left' (read_length m (s + i) n)]

/-- What was read of two parts is read of each. -/
theorem read_eq_append {i : ℕ} {a b : List UInt8} (h : m.read i (a ++ b).length = a ++ b) :
    m.read i a.length = a ∧ m.read (i + a.length) b.length = b := by
  rw [List.length_append, read_add] at h
  exact List.append_inj h (read_length m i a.length)

/-- Reading depends on the bytes that are read. -/
theorem read_congr {m m' : Memory} {i n : ℕ} (h : ∀ j, i ≤ j → j < i + n → m j = m' j) :
    m.read i n = m'.read i n := by
  apply List.map_congr_left
  intro j hj
  have := List.mem_range.mp hj
  exact h (i + j) (by omega) (by omega)

theorem write_outside {i : ℕ} {bytes : List UInt8} {j : ℕ} (h : j < i ∨ i + bytes.length ≤ j) :
    m.write i bytes j = m j := if_neg (by omega)

theorem write_inside {i j : ℕ} {bytes : List UInt8} (h : j < bytes.length) :
    m.write i bytes (i + j) = bytes.getD j 0 := by
  rw [write, if_pos ⟨Nat.le_add_right i j, Nat.add_lt_add_left h i⟩, Nat.add_sub_cancel_left]

/-- A copy holds the bytes that were copied. -/
theorem write_read_inside {m' : Memory} {i j k n : ℕ} (h : j < n) :
    m.write i (m'.read k n) (i + j) = m' (k + j) := by
  rw [write_inside m (by rwa [read_length]), read_getD m' h]

theorem read_write_same (i : ℕ) (bytes : List UInt8) :
    (m.write i bytes).read i bytes.length = bytes := by
  apply List.ext_getElem
  · rw [read_length]
  · intro j _ hj
    simp only [read, write, List.getElem_map, List.getElem_range]
    rw [if_pos (by omega), Nat.add_sub_cancel_left, List.getD_eq_getElem _ _ hj]

theorem read_write_disjoint {i : ℕ} {bytes : List UInt8} {k n : ℕ}
    (h : k + n ≤ i ∨ i + bytes.length ≤ k) : (m.write i bytes).read k n = m.read k n := by
  apply read_congr
  intro j _ _
  exact m.write_outside (by omega)

def le16 (i : ℕ) : ℕ := (m i).toNat + 256 * (m (i + 1)).toNat

def be16 (i : ℕ) : ℕ := 256 * (m i).toNat + (m (i + 1)).toNat

def le32 (i : ℕ) : ℕ := m.le16 i + 65536 * m.le16 (i + 2)

/-- The word `n` as it is stored. -/
def le32Bytes (n : ℕ) : List UInt8 :=
  [UInt8.ofNat n, UInt8.ofNat (n / 256), UInt8.ofNat (n / 65536), UInt8.ofNat (n / 16777216)]

theorem le16_lt (i : ℕ) : m.le16 i < 65536 := by
  have h0 := (m i).toNat_lt
  have h1 := (m (i + 1)).toNat_lt
  unfold le16
  omega

theorem le32_lt (i : ℕ) : m.le32 i < 2 ^ 32 := by
  have h0 := m.le16_lt i
  have h2 := m.le16_lt (i + 2)
  unfold le32
  omega

theorem le16_congr {m m' : Memory} {i : ℕ} (h : ∀ j < 2, m (i + j) = m' (i + j)) :
    m.le16 i = m'.le16 i := by
  have h0 := h 0 (by decide)
  have h1 := h 1 (by decide)
  rw [Nat.add_zero] at h0
  rw [le16, le16, h0, h1]

theorem le32_congr {m m' : Memory} {i : ℕ} (h : ∀ j < 4, m (i + j) = m' (i + j)) :
    m.le32 i = m'.le32 i := by
  have h0 := h 0 (by decide)
  have h1 := h 1 (by decide)
  have h2 := h 2 (by decide)
  have h3 := h 3 (by decide)
  simp only [le32, le16, Nat.add_assoc, Nat.add_zero, Nat.reduceAdd] at h0 h1 h2 h3 ⊢
  rw [h0, h1, h2, h3]

/-- A word that was stored is read again. -/
theorem le32_write_same (i : ℕ) {n : ℕ} (hn : n < 2 ^ 32) :
    (m.write i (le32Bytes n)).le32 i = n := by
  have hbyte : ∀ j < 4, (m.write i (le32Bytes n)) (i + j) = (le32Bytes n).getD j 0 :=
    fun j hj => m.write_inside hj
  have h0 := hbyte 0 (by decide)
  have h1 := hbyte 1 (by decide)
  have h2 := hbyte 2 (by decide)
  have h3 := hbyte 3 (by decide)
  simp only [le32, le16, Nat.add_assoc, Nat.add_zero, Nat.reduceAdd] at h0 h1 h2 h3 ⊢
  rw [h0, h1, h2, h3]
  simp only [le32Bytes, List.getD_cons_zero, List.getD_cons_succ, UInt8.toNat_ofNat']
  omega

theorem le32_write_disjoint {i : ℕ} {bytes : List UInt8} {k : ℕ}
    (h : k + 4 ≤ i ∨ i + bytes.length ≤ k) : (m.write i bytes).le32 k = m.le32 k := by
  apply le32_congr
  intro j hj
  exact m.write_outside (by omega)

theorem write_congr {m m' : Memory} {i j : ℕ} {bytes : List UInt8} (h : m j = m' j) :
    m.write i bytes j = m'.write i bytes j := by
  unfold write
  rw [h]

/-- Writing behind what is read changes nothing there, whatever is written then. -/
theorem read_write_behind {p n i j : ℕ} {bytes front : List UInt8} (h : p + n ≤ i) :
    ((m.write i bytes).write j front).read p n = (m.write j front).read p n := by
  apply read_congr
  intro q _ hq
  exact write_congr (m.write_outside (Or.inl (by omega)))

/-- What was written is still there after a write in front. -/
theorem read_write_far {i j : ℕ} {bytes front : List UInt8} (h : j + front.length ≤ i) :
    ((m.write i bytes).write j front).read i bytes.length = bytes := by
  rw [read_write_disjoint _ (Or.inr h), read_write_same]

theorem le32_write_far {i j n : ℕ} {front : List UInt8} (hn : n < 2 ^ 32)
    (h : j + front.length ≤ i) :
    ((m.write i (le32Bytes n)).write j front).le32 i = n := by
  rw [le32_write_disjoint _ (Or.inr h), le32_write_same _ _ hn]

theorem write_append (i : ℕ) (a b : List UInt8) :
    m.write i (a ++ b) = (m.write i a).write (i + a.length) b := by
  funext j
  simp only [write, List.length_append]
  by_cases hfront : j < i + a.length
  · rw [if_neg (show ¬(i + a.length ≤ j ∧ j < i + a.length + b.length) by omega)]
    by_cases hi : i ≤ j
    · rw [if_pos (by omega), if_pos ⟨hi, hfront⟩, List.getD_append _ _ _ _ (by omega)]
    · rw [if_neg (by omega), if_neg (by omega)]
  · by_cases hb : j < i + a.length + b.length
    · rw [if_pos (by omega), if_pos (by omega), List.getD_append_right _ _ _ _ (by omega),
        Nat.sub_sub]
    · rw [if_neg (by omega), if_neg (by omega), if_neg (by omega)]

end Memory

/-- The least multiple of `a` from `n` on. -/
def alignUp (n a : ℕ) : ℕ := (n + (a - 1)) / a * a

theorem alignUp_of_dvd {n a : ℕ} (ha : 0 < a) (h : a ∣ n) : alignUp n a = n := by
  obtain ⟨k, rfl⟩ := h
  rw [alignUp, Nat.mul_add_div ha, Nat.div_eq_of_lt (Nat.sub_lt ha Nat.one_pos), Nat.add_zero,
    Nat.mul_comm]

/-- Some bytes that are read or written, by their place. -/
structure Span where
  start : ℕ
  count : ℕ
  deriving DecidableEq, Repr

/-- The bytes lie in the first `size`. -/
def Span.Inside (s : Span) (size : ℕ) : Prop := s.start + s.count ≤ size

instance (s : Span) (size : ℕ) : Decidable (s.Inside size) :=
  inferInstanceAs (Decidable (_ ≤ _))

end Foundations

import Mathlib.Data.Nat.ModEq
import Mathlib.Tactic.NormNum
import StandaloneDrivers.Foundations.Memory

/-! Ones'-complement sums of 16-bit words, in either byte order. -/
namespace Foundations

/-- The end-around carries. -/
def fold16 (n : ℕ) : ℕ :=
  if n < 65536 then n else fold16 (n % 65536 + n / 65536)
  termination_by n
  decreasing_by omega

theorem fold16_lt (n : ℕ) : fold16 n < 65536 := by
  fun_induction fold16 n with
  | case1 n h => exact h
  | case2 n h ih => exact ih

theorem fold16_modEq (n : ℕ) : fold16 n ≡ n [MOD 65535] := by
  fun_induction fold16 n with
  | case1 n h => exact Nat.ModEq.refl n
  | case2 n h ih =>
    apply ih.trans
    have hn : n = n % 65536 + 65535 * (n / 65536) + n / 65536 := by omega
    unfold Nat.ModEq
    omega

theorem fold16_pos {n : ℕ} (h : 0 < n) : 0 < fold16 n := by
  fun_induction fold16 n with
  | case1 n _ => exact h
  | case2 n hlarge ih => exact ih (by omega)

/-- The complement of a folded sum takes the sum away. -/
theorem compl_fold16 (n : ℕ) : 65535 - fold16 n + n ≡ 0 [MOD 65535] := by
  have hlt := fold16_lt n
  have hmod := fold16_modEq n
  unfold Nat.ModEq at hmod ⊢
  omega

/-- A 16-bit number in network order, as the host reads it. -/
def order16 (bigEndian : Bool) (n : ℕ) : ℕ :=
  if bigEndian then n else 256 * (n % 256) + n / 256

theorem order16_lt {n : ℕ} (hn : n < 65536) (bigEndian : Bool) : order16 bigEndian n < 65536 := by
  unfold order16
  split <;> omega

theorem order16_order16 {n : ℕ} (hn : n < 65536) (bigEndian : Bool) :
    order16 bigEndian (order16 bigEndian n) = n := by
  unfold order16
  split <;> omega

/-- Exchanging the bytes multiplies by 256. -/
def orderFactor (bigEndian : Bool) : ℕ := if bigEndian then 1 else 256

theorem order16_modEq (bigEndian : Bool) (n : ℕ) :
    order16 bigEndian n ≡ orderFactor bigEndian * n [MOD 65535] := by
  cases bigEndian with
  | true => simp only [order16, orderFactor, if_true, Nat.one_mul, Nat.ModEq.refl]
  | false =>
    have hn : 256 * n = 256 * (n % 256) + n / 256 + 65535 * (n / 256) := by omega
    simp only [order16, orderFactor, Bool.false_eq_true, if_false]
    rw [hn]
    unfold Nat.ModEq
    omega

theorem orderFactor_sq (bigEndian : Bool) :
    orderFactor bigEndian * orderFactor bigEndian ≡ 1 [MOD 65535] := by
  cases bigEndian <;> decide

/-- The order of the bytes may be left out of an equation. -/
theorem orderFactor_cancel (bigEndian : Bool) {a b : ℕ}
    (h : orderFactor bigEndian * a ≡ orderFactor bigEndian * b [MOD 65535]) : a ≡ b [MOD 65535] := by
  have htwice := h.mul_left (orderFactor bigEndian)
  rw [← Nat.mul_assoc, ← Nat.mul_assoc] at htwice
  have hone := orderFactor_sq bigEndian
  calc
    a = 1 * a := (Nat.one_mul a).symm
    _ ≡ orderFactor bigEndian * orderFactor bigEndian * a [MOD 65535] := (hone.mul_right a).symm
    _ ≡ orderFactor bigEndian * orderFactor bigEndian * b [MOD 65535] := htwice
    _ ≡ 1 * b [MOD 65535] := hone.mul_right b
    _ = b := Nat.one_mul b

theorem orderFactor_order16 (bigEndian : Bool) (n : ℕ) :
    orderFactor bigEndian * order16 bigEndian n ≡ n [MOD 65535] := by
  have h := (order16_modEq bigEndian n).mul_left (orderFactor bigEndian)
  rw [← Nat.mul_assoc] at h
  have hone := (orderFactor_sq bigEndian).mul_right n
  rw [Nat.one_mul] at hone
  exact h.trans hone

namespace Memory
variable (m : Memory) (bigEndian : Bool)

/-- A 16-bit number as the host reads it. -/
def host16 (i : ℕ) : ℕ := order16 bigEndian (m.be16 i)

def store16 (i n : ℕ) : Memory :=
  m.write i [UInt8.ofNat (order16 bigEndian n / 256), UInt8.ofNat (order16 bigEndian n)]

/-- The sum of the words of `n` bytes, the last of which may stand alone. -/
def hostSum (i : ℕ) : ℕ → ℕ
  | 0 => 0
  | 1 => order16 bigEndian (256 * (m i).toNat)
  | n + 2 => m.host16 bigEndian i + hostSum (i + 2) n

/-- The sum in network order. -/
def wordSum (i n : ℕ) : ℕ := m.hostSum true i n

theorem be16_lt (i : ℕ) : m.be16 i < 65536 := by
  have h0 := (m i).toNat_lt
  have h1 := (m (i + 1)).toNat_lt
  unfold be16
  omega

theorem be16_congr {m m' : Memory} {i : ℕ} (h0 : m i = m' i) (h1 : m (i + 1) = m' (i + 1)) :
    m.be16 i = m'.be16 i := by
  rw [be16, be16, h0, h1]

theorem be16_store16 (i : ℕ) {n : ℕ} (hn : n < 65536) :
    (m.store16 bigEndian i n).be16 i = order16 bigEndian n := by
  have hlt := order16_lt hn bigEndian
  have h0 : m.store16 bigEndian i n (i + 0) = UInt8.ofNat (order16 bigEndian n / 256) :=
    m.write_inside Nat.zero_lt_two
  have h1 : m.store16 bigEndian i n (i + 1) = UInt8.ofNat (order16 bigEndian n) :=
    m.write_inside Nat.one_lt_two
  rw [Nat.add_zero] at h0
  rw [be16, h0, h1, UInt8.toNat_ofNat', UInt8.toNat_ofNat']
  omega

theorem store16_outside {i n j : ℕ} (h : j < i ∨ i + 2 ≤ j) : m.store16 bigEndian i n j = m j :=
  m.write_outside h

theorem hostSum_add (i k r : ℕ) :
    m.hostSum bigEndian i (2 * k + r) =
      m.hostSum bigEndian i (2 * k) + m.hostSum bigEndian (i + 2 * k) r := by
  induction k generalizing i with
  | zero => simp [hostSum]
  | succ k ih =>
    have hn : 2 * (k + 1) + r = 2 * k + r + 2 := by omega
    have hk : 2 * (k + 1) = 2 * k + 2 := Nat.mul_succ 2 k
    have hi : i + 2 + 2 * k = i + (2 * k + 2) := by omega
    rw [hn, hk, hostSum, hostSum, ih, hi, Nat.add_assoc]

/-- One word of a sum. -/
theorem hostSum_word {i k n : ℕ} (h : 2 * k + 2 ≤ n) :
    m.hostSum bigEndian i n = m.hostSum bigEndian i (2 * k) +
      (m.host16 bigEndian (i + 2 * k) + m.hostSum bigEndian (i + 2 * k + 2) (n - (2 * k + 2))) := by
  obtain ⟨r, rfl⟩ := Nat.exists_eq_add_of_le h
  rw [Nat.add_assoc, hostSum_add, Nat.add_comm 2, hostSum]
  congr 3
  omega

theorem hostSum_congr {m m' : Memory} {i n : ℕ} (h : ∀ j, i ≤ j → j < i + n → m j = m' j) :
    m.hostSum bigEndian i n = m'.hostSum bigEndian i n := by
  fun_induction hostSum m bigEndian i n with
  | case1 i => rfl
  | case2 i => rw [hostSum, h i (Nat.le_refl i) (Nat.lt_succ_self i)]
  | case3 i n ih =>
    rw [hostSum, host16, host16, be16_congr (h i (by omega) (by omega)) (h (i + 1) (by omega) (by omega)),
      ih fun j hj hlt => h j (by omega) (by omega)]

theorem hostSum_modEq (i n : ℕ) :
    m.hostSum bigEndian i n ≡ orderFactor bigEndian * m.wordSum i n [MOD 65535] := by
  fun_induction hostSum m bigEndian i n with
  | case1 i => rfl
  | case2 i => exact order16_modEq bigEndian _
  | case3 i n ih =>
    rw [wordSum, hostSum, Nat.mul_add]
    exact (order16_modEq bigEndian _).add ih

end Memory
end Foundations

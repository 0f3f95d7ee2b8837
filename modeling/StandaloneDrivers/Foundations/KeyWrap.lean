import Mathlib.Data.Fintype.Basic
import Mathlib.Data.List.FinRange
import StandaloneDrivers.Foundations.CipherModes
import StandaloneDrivers.Foundations.Run

/-! Keys wrapped in six passes over their halves of a block, with a register that takes up the number
of each step. -/
namespace Foundations.KeyWrap

/-- Half a block. -/
abbrev SemiBlock : Type := Vector UInt8 8

/-- The register and the halves. -/
abbrev State (n : ℕ) : Type := SemiBlock × Vector SemiBlock n

def xorSemi (a b : SemiBlock) : SemiBlock := a.zipWith (· ^^^ ·) b

def join (a r : SemiBlock) : CipherBlock := padBlock (a.toList ++ r.toList)

def high (b : CipherBlock) : SemiBlock := Vector.ofFn fun i => b[i.val]

def low (b : CipherBlock) : SemiBlock := Vector.ofFn fun i => b[8 + i.val]

/-- The passes, and the halves in each of them. -/
def steps (n : ℕ) : List (ℕ × Fin n) :=
  (List.range 6).flatMap fun j => (List.finRange n).map fun i => (j, i)

variable {n : ℕ}

/-- The steps are counted from 1 on. -/
def number (e : ℕ × Fin n) : ℕ := n * e.1 + e.2 + 1

section
variable (E D : CipherBlock → CipherBlock) (mask : ℕ → SemiBlock)

def wrapStep (s : State n) (e : ℕ × Fin n) : State n :=
  let b := E (join s.1 s.2[e.2])
  (xorSemi (high b) (mask (number e)), s.2.set e.2 (low b))

def unwrapStep (s : State n) (e : ℕ × Fin n) : State n :=
  let b := D (join (xorSemi s.1 (mask (number e))) s.2[e.2])
  (high b, s.2.set e.2 (low b))

def wrap (s : State n) : State n := (steps n).foldl (wrapStep E mask) s

def unwrap (s : State n) : State n := (steps n).reverse.foldl (unwrapStep D mask) s

end

/-- The number of a step in 64 bits. -/
def standardMask (t : ℕ) : SemiBlock := Vector.ofFn fun i => (beBytes 8 t).getD i 0

def initial : SemiBlock := Vector.replicate 8 0xa6

theorem join_getElem (a r : SemiBlock) {i : ℕ} (hi : i < 16) :
    (join a r)[i] = if h : i < 8 then a[i] else r[i - 8] := by
  have ha : a.toList.length = 8 := Vector.length_toList
  have hr : r.toList.length = 8 := Vector.length_toList
  rw [join, padBlock_getElem _ hi]
  split
  · rename_i hlt
    rw [List.getD_append _ _ _ _ (by omega), List.getD_eq_getElem _ _ (by omega),
      Vector.getElem_toList]
  · rename_i hge
    rw [List.getD_append_right _ _ _ _ (by omega), List.getD_eq_getElem _ _ (by omega),
      Vector.getElem_toList]
    simp only [ha]

theorem join_high_low (b : CipherBlock) : join (high b) (low b) = b := by
  apply Vector.ext
  intro i hi
  rw [join_getElem _ _ hi]
  split
  · rw [high, Vector.getElem_ofFn]
  · rename_i hge
    have hindex : 8 + (i - 8) = i := by omega
    simp only [low, Vector.getElem_ofFn, hindex]

@[simp] theorem high_join (a r : SemiBlock) : high (join a r) = a := by
  apply Vector.ext
  intro i hi
  rw [high, Vector.getElem_ofFn, join_getElem _ _ (by omega), dif_pos hi]

@[simp] theorem low_join (a r : SemiBlock) : low (join a r) = r := by
  apply Vector.ext
  intro i hi
  rw [low, Vector.getElem_ofFn, join_getElem _ _ (by omega), dif_neg (by omega)]
  simp only [Nat.add_sub_cancel_left]

theorem xorSemi_cancel (a b : SemiBlock) : xorSemi (xorSemi a b) b = a := by
  apply Vector.ext
  intro i hi
  simp only [xorSemi, Vector.getElem_zipWith, UInt8.xor_assoc, UInt8.xor_self, UInt8.xor_zero]

variable {E D : CipherBlock → CipherBlock} {mask : ℕ → SemiBlock}

theorem unwrapStep_wrapStep (h : ∀ b, D (E b) = b) (s : State n) (e : ℕ × Fin n) :
    unwrapStep D mask (wrapStep E mask s e) e = s := by
  simp [unwrapStep, wrapStep, xorSemi_cancel, join_high_low, h]

theorem wrapStep_unwrapStep (h : ∀ b, E (D b) = b) (s : State n) (e : ℕ × Fin n) :
    wrapStep E mask (unwrapStep D mask s e) e = s := by
  simp [unwrapStep, wrapStep, xorSemi_cancel, join_high_low, h]

/-- The steps are taken back one by one, under any way to take up their numbers. -/
theorem unwrap_wrap (h : ∀ b, D (E b) = b) (s : State n) : unwrap D mask (wrap E mask s) = s :=
  foldl_reverse_cancel (unwrapStep_wrapStep h) s (steps n)

theorem wrap_unwrap (h : ∀ b, E (D b) = b) (s : State n) : wrap E mask (unwrap D mask s) = s := by
  have hback := foldl_reverse_cancel (@wrapStep_unwrapStep n E D mask h) s (steps n).reverse
  rwa [List.reverse_reverse] at hback

theorem number_le {e : ℕ × Fin n} (he : e ∈ steps n) : number e ≤ 6 * n := by
  obtain ⟨j, hj, hmem⟩ := List.mem_flatMap.mp he
  obtain ⟨i, -, rfl⟩ := List.mem_map.mp hmem
  have hpass : j ≤ 5 := Nat.le_of_lt_succ (List.mem_range.mp hj)
  have hmul : n * j ≤ n * 5 := Nat.mul_le_mul_left n hpass
  have hi := i.isLt
  simp only [number]
  omega

/-- The steps come in the order of their numbers. -/
theorem map_number (n : ℕ) : (steps n).map number = List.range' 1 (6 * n) := by
  have hpass : ∀ k, ((List.range k).flatMap fun j => (List.finRange n).map fun i => (j, i)).map
      number = List.range' 1 (k * n) := by
    intro k
    induction k with
    | zero => simp
    | succ k ih =>
      have hlast : ((List.finRange n).map fun i => (k, i)).map number =
          List.range' (1 + k * n) n := by
        apply List.ext_getElem
        · simp
        · intro i _ _
          simp [number, Nat.mul_comm n k]
          omega
      rw [List.range_succ, List.flatMap_append, List.map_append, ih, List.flatMap_cons,
        List.flatMap_nil, List.append_nil, hlast, List.range'_append_1, Nat.succ_mul]
  exact hpass 6

theorem steps_length (n : ℕ) : (steps n).length = 6 * n := by
  have hmap := congrArg List.length (map_number n)
  rwa [List.length_map, List.length_range'] at hmap

theorem number_getElem {k : ℕ} (hk : k < (steps n).length) : number (steps n)[k] = k + 1 := by
  have hget : ((steps n).map number)[k]? = some (number (steps n)[k]) := by
    rw [List.getElem?_map, List.getElem?_eq_getElem hk]
    rfl
  have hlen := steps_length n
  rw [map_number, List.getElem?_range' (by omega)] at hget
  have heq := Option.some.inj hget
  omega

theorem foldl_wrapStep_congr {mask' : ℕ → SemiBlock} {es : List (ℕ × Fin n)}
    (h : ∀ e ∈ es, mask (number e) = mask' (number e)) (s : State n) :
    es.foldl (wrapStep E mask) s = es.foldl (wrapStep E mask') s := by
  induction es generalizing s with
  | nil => rfl
  | cons e es ih =>
    have hfirst : wrapStep E mask s e = wrapStep E mask' s e := by
      rw [wrapStep, wrapStep, h e List.mem_cons_self]
    rw [List.foldl_cons, List.foldl_cons, hfirst]
    exact ih (fun e he => h e (List.mem_cons_of_mem _ he)) _

/-- Two ways to take up numbers wrap alike where they agree on those of the steps. -/
theorem wrap_congr {mask' : ℕ → SemiBlock} (h : ∀ t ≤ 6 * n, mask t = mask' t) (s : State n) :
    wrap E mask s = wrap E mask' s :=
  foldl_wrapStep_congr (fun _ he => h _ (number_le he)) s

section Bytes

/-- The halves of a text, and what they are in it. -/
def semis (n : ℕ) (text : List UInt8) : Vector SemiBlock n :=
  Vector.ofFn fun i => Vector.ofFn fun j => text.getD (8 * i.val + j.val) 0

def bytes (r : Vector SemiBlock n) : List UInt8 := r.toList.flatMap Vector.toList

/-- The wrapping of a text of `n` halves. -/
def keyWrap (E : CipherBlock → CipherBlock) (n : ℕ) (text : List UInt8) : List UInt8 :=
  let s := wrap E standardMask (initial, semis n text)
  s.1.toList ++ bytes s.2

theorem semis_getElem (text : List UInt8) {i j : ℕ} (hi : i < n) (hj : j < 8) :
    (semis n text)[i][j] = text.getD (8 * i + j) 0 := by
  simp only [semis, Vector.getElem_ofFn]

theorem field_semis (text : List UInt8) {i : ℕ} (hi : i < n) :
    field text (8 * i) 8 = (semis n text)[i].toList := by
  apply List.ext_getElem
  · rw [field_length, Vector.length_toList]
  · intro j hj _
    rw [field_length] at hj
    simp only [field, List.getElem_map, List.getElem_range, Vector.getElem_toList,
      semis_getElem text hi hj]

/-- A half that is written takes the place of the one that was there. -/
theorem semis_overwrite {text : List UInt8} (hlen : 8 * n ≤ text.length) {i : ℕ} (hi : i < n)
    (b : SemiBlock) : semis n (overwrite text (8 * i) b.toList) = (semis n text).set i b := by
  have hb : b.toList.length = 8 := Vector.length_toList
  apply Vector.ext
  intro k hk
  apply Vector.ext
  intro j hj
  rw [semis_getElem _ hk hj, Vector.getElem_set]
  rcases Nat.lt_trichotomy k i with hlt | heq | hgt
  · simp only [if_neg (show ¬ i = k by omega), semis_getElem _ hk hj]
    exact overwrite_getD_before (by omega)
  · subst heq
    rw [overwrite_getD_inside (by omega) (by omega), List.getD_eq_getElem _ _ (by omega),
      Vector.getElem_toList]
    simp only [if_true]
  · simp only [if_neg (show ¬ i = k by omega), semis_getElem _ hk hj]
    exact overwrite_getD_behind (by omega)

theorem bytes_getD (r : Vector SemiBlock n) {i j : ℕ} (hi : i < n) (hj : j < 8) :
    (bytes r).getD (8 * i + j) 0 = r[i][j] := by
  have hlist : ∀ l : List SemiBlock, ∀ i (hi : i < l.length),
      (l.flatMap Vector.toList).getD (8 * i + j) 0 = l[i][j] := by
    intro l
    induction l with
    | nil => intro i hi; cases hi
    | cons b l ih =>
      intro i hi
      have hb : b.toList.length = 8 := Vector.length_toList
      rw [List.flatMap_cons]
      cases i with
      | zero =>
        rw [List.getD_append _ _ _ _ (by omega), List.getD_eq_getElem _ _ (by omega)]
        simp only [Nat.mul_zero, Nat.zero_add, Vector.getElem_toList, List.getElem_cons_zero]
      | succ i =>
        have hindex : 8 * (i + 1) + j - b.toList.length = 8 * i + j := by omega
        rw [List.getD_append_right _ _ _ _ (by omega), hindex,
          ih i (by rw [List.length_cons] at hi; omega), List.getElem_cons_succ]
  have hget := hlist r.toList i (by rwa [Vector.length_toList])
  rwa [Vector.getElem_toList] at hget

@[simp] theorem bytes_length (r : Vector SemiBlock n) : (bytes r).length = 8 * n := by
  have hlist : ∀ l : List SemiBlock, (l.flatMap Vector.toList).length = 8 * l.length := by
    intro l
    induction l with
    | nil => rfl
    | cons b l ih =>
      rw [List.flatMap_cons, List.length_append, ih, Vector.length_toList, List.length_cons]
      omega
  rw [bytes, hlist, Vector.length_toList]

/-- A text of whole halves is given by them. -/
theorem bytes_semis {text : List UInt8} (hlen : text.length = 8 * n) :
    bytes (semis n text) = text := by
  apply List.ext_getElem
  · rw [bytes_length, hlen]
  · intro i hi hi'
    have hsplit : 8 * (i / 8) + i % 8 = i := by omega
    have hget := bytes_getD (semis n text) (show i / 8 < n by omega)
      (Nat.mod_lt i (show 0 < 8 by decide))
    rw [semis_getElem _ _ (Nat.mod_lt i (by decide)), hsplit, List.getD_eq_getElem _ _ hi,
      List.getD_eq_getElem _ _ hi'] at hget
    exact hget

theorem semis_bytes (r : Vector SemiBlock n) (tail : List UInt8) :
    semis n (bytes r ++ tail) = r := by
  have hlen := bytes_length r
  apply Vector.ext
  intro i hi
  apply Vector.ext
  intro j hj
  rw [semis_getElem _ hi hj, List.getD_append _ _ _ _ (by omega), bytes_getD r hi hj]

/-- The halves of a text, and what is left of it. -/
theorem bytes_semis_append {text : List UInt8} (hlen : 8 * n ≤ text.length) :
    bytes (semis n text) ++ text.drop (8 * n) = text := by
  have htake : (text.take (8 * n)).length = 8 * n := List.length_take_of_le hlen
  have hsame : semis n (text.take (8 * n)) = semis n text := by
    apply Vector.ext
    intro i hi
    apply Vector.ext
    intro j hj
    rw [semis_getElem _ hi hj, semis_getElem _ hi hj, List.getD_eq_getElem _ _ (by omega),
      List.getD_eq_getElem _ _ (by omega), List.getElem_take]
  rw [← hsame, bytes_semis htake, List.take_append_drop]

end Bytes

end Foundations.KeyWrap

import Mathlib.Algebra.Order.Ring.Int
import Mathlib.Data.List.Basic
import Mathlib.Data.List.GetD

/-! Bytes of a buffer: fields at an offset, slices, and writes that keep the length. Bytes
behind the end read as zero. -/
namespace Foundations

/-! The places of an address, of a column, of a semi-block and of a block that definitions read by
their numbers, and the sizes that they count modulo. -/

theorem zero_lt_six : 0 < 6 := by decide
theorem one_lt_six : 1 < 6 := by decide
theorem two_lt_six : 2 < 6 := by decide
theorem three_lt_six : 3 < 6 := by decide
theorem four_lt_six : 4 < 6 := by decide
theorem five_lt_six : 5 < 6 := by decide

theorem zero_lt_four : 0 < 4 := by decide
theorem one_lt_four : 1 < 4 := by decide
theorem two_lt_four : 2 < 4 := by decide
theorem three_lt_four : 3 < 4 := by decide

theorem six_lt_eight : 6 < 8 := by decide
theorem seven_lt_eight : 7 < 8 := by decide

theorem zero_lt_sixteen : 0 < 16 := by decide
theorem seven_lt_sixteen : 7 < 16 := by decide
theorem fourteen_lt_sixteen : 14 < 16 := by decide
theorem fifteen_lt_sixteen : 15 < 16 := by decide

theorem val_lt_sixteen (i : Fin 16) : i.val < 16 := i.isLt

theorem val_mod_four_lt (i : Fin 16) : i.val % 4 < 4 := Nat.mod_lt _ zero_lt_four

theorem neZero_four : NeZero 4 := ⟨by decide⟩
theorem neZero_sixteen : NeZero 16 := ⟨by decide⟩
theorem neZero_thirtyTwo : NeZero 32 := ⟨by decide⟩
theorem neZero_sixtyFour : NeZero 64 := ⟨by decide⟩
theorem neZero_seqRange : NeZero 4096 := ⟨by decide⟩

/-- A locally administered address, by its last octet. -/
def localAddr (last : UInt8) : Vector UInt8 6 := #v[2, 0, 0, 0, 0, last]

def byteAt (data : List UInt8) (i : ℕ) : ℕ := (data.getD i 0).toNat

def le16 (data : List UInt8) (i : ℕ) : ℕ := byteAt data i + 256 * byteAt data (i + 1)

def be16 (data : List UInt8) (i : ℕ) : ℕ := 256 * byteAt data i + byteAt data (i + 1)

/-- `n` bytes from offset `i` on. -/
def slice (data : List UInt8) (i n : ℕ) : List UInt8 := (data.drop i).take n

/-- `bytes` written at offset `i`, as far as they fit. -/
def overwrite (data : List UInt8) (i : ℕ) (bytes : List UInt8) : List UInt8 :=
  data.mapIdx fun j b => if i ≤ j then bytes.getD (j - i) b else b

@[simp] theorem overwrite_length (data : List UInt8) (i : ℕ) (bytes : List UInt8) :
    (overwrite data i bytes).length = data.length := by
  simp [overwrite]

/-- What fits takes the place of as many bytes. -/
theorem overwrite_eq {data bytes : List UInt8} {i : ℕ} (h : i + bytes.length ≤ data.length) :
    overwrite data i bytes = data.take i ++ bytes ++ data.drop (i + bytes.length) := by
  apply List.ext_getElem
  · simp only [overwrite_length, List.length_append, List.length_take, List.length_drop]
    omega
  · intro j hj _
    rw [overwrite_length] at hj
    simp only [overwrite, List.getElem_mapIdx, List.append_assoc]
    split
    · rename_i hle
      rw [List.getElem_append_right (by rw [List.length_take]; omega)]
      by_cases hlt : j - i < bytes.length
      · rw [List.getD_eq_getElem _ _ hlt, List.getElem_append_left (by rw [List.length_take]; omega)]
        congr 1
        rw [List.length_take]
        omega
      · rw [List.getD_eq_default _ _ (by omega),
          List.getElem_append_right (by rw [List.length_take]; omega), List.getElem_drop]
        congr 1
        rw [List.length_take]
        omega
    · rename_i hlt
      rw [List.getElem_append_left (by rw [List.length_take]; omega), List.getElem_take]

theorem take_overwrite {data bytes : List UInt8} {i : ℕ} (h : i + bytes.length ≤ data.length) :
    (overwrite data i bytes).take (i + bytes.length) = data.take i ++ bytes := by
  rw [overwrite_eq h]
  apply List.take_left'
  rw [List.length_append, List.length_take]
  omega

/-- Both parts of what was written are read again. -/
theorem slice_overwrite {data bytes bytes' : List UInt8} {i : ℕ}
    (h : i + bytes.length + bytes'.length ≤ data.length) :
    slice (overwrite data i (bytes ++ bytes')) i bytes.length = bytes ∧
      slice (overwrite data i (bytes ++ bytes')) (i + bytes.length) bytes'.length = bytes' := by
  have htake : (data.take i).length = i := by
    rw [List.length_take]
    omega
  have heq : overwrite data i (bytes ++ bytes') = data.take i ++ (bytes ++ (bytes' ++
      data.drop (i + (bytes ++ bytes').length))) := by
    rw [overwrite_eq (by rw [List.length_append]; omega)]
    simp only [List.append_assoc]
  rw [heq]
  constructor
  · rw [slice, List.drop_left' htake, List.take_left]
  · rw [slice, ← List.drop_drop, List.drop_left' htake, List.drop_left, List.take_left]

theorem slice_overwrite_same {data bytes : List UInt8} {i : ℕ}
    (h : i + bytes.length ≤ data.length) :
    slice (overwrite data i bytes) i bytes.length = bytes := by
  have hpair : slice (overwrite data i (bytes ++ [])) i bytes.length = bytes :=
    (slice_overwrite h).1
  rwa [List.append_nil] at hpair

theorem slice_overwrite_before {data bytes : List UInt8} {i n j : ℕ} (hn : i + n ≤ j)
    (h : j + bytes.length ≤ data.length) :
    slice (overwrite data j bytes) i n = slice data i n := by
  have htake : (overwrite data j bytes).take (i + n) = data.take (i + n) := by
    have hall := congrArg (List.take (i + n)) (take_overwrite h)
    rwa [List.take_take, Nat.min_eq_left (by omega), List.take_append_of_le_length (by
      rw [List.length_take]
      omega), List.take_take, Nat.min_eq_left hn] at hall
  simp only [slice, List.take_drop, htake]

theorem slice_add (data : List UInt8) (i n m : ℕ) :
    slice data i (n + m) = slice data i n ++ slice data (i + n) m := by
  simp only [slice, List.take_add, List.drop_drop]

section
variable {data bytes : List UInt8} {i j : ℕ}

theorem overwrite_getD_before (h : j < i) :
    (overwrite data i bytes).getD j 0 = data.getD j 0 := by
  simp only [overwrite, List.getD_eq_getElem?_getD, List.getElem?_mapIdx]
  cases data[j]? with
  | none => rfl
  | some b => simp [Nat.not_le.mpr h]

theorem overwrite_getD_behind (h : i + bytes.length ≤ j) :
    (overwrite data i bytes).getD j 0 = data.getD j 0 := by
  simp only [overwrite, List.getD_eq_getElem?_getD, List.getElem?_mapIdx]
  cases data[j]? with
  | none => rfl
  | some b =>
    have hnone : bytes[j - i]? = none := List.getElem?_eq_none (by omega)
    simp [hnone]

theorem overwrite_getD_inside (h : j < bytes.length) (hfits : i + bytes.length ≤ data.length) :
    (overwrite data i bytes).getD (i + j) 0 = bytes.getD j 0 := by
  simp only [overwrite, List.getD_eq_getElem?_getD, List.getElem?_mapIdx]
  rw [List.getElem?_eq_getElem (show i + j < data.length by omega)]
  simp [List.getElem?_eq_getElem h]

end

/-- A number in `len` bytes, the highest first. -/
def beBytes : ℕ → ℕ → List UInt8
  | 0, _ => []
  | len + 1, n => UInt8.ofNat (n / 256 ^ len) :: beBytes len n

@[simp] theorem beBytes_length (len n : ℕ) : (beBytes len n).length = len := by
  induction len with
  | zero => rfl
  | succ len ih => rw [beBytes, List.length_cons, ih]

/-- The bytes give back what fits into them. -/
theorem beBytes_mod {len n m : ℕ} (h : beBytes len n = beBytes len m) :
    n % 256 ^ len = m % 256 ^ len := by
  induction len with
  | zero => simp only [Nat.pow_zero, Nat.mod_one]
  | succ len ih =>
    simp only [beBytes, List.cons.injEq] at h
    have hbyte : n / 256 ^ len % 256 = m / 256 ^ len % 256 := by
      have hnat := congrArg UInt8.toNat h.1
      rwa [UInt8.toNat_ofNat', UInt8.toNat_ofNat'] at hnat
    rw [Nat.pow_succ, Nat.mod_mul, Nat.mod_mul, ih h.2, hbyte]

theorem beBytes_injOn {len n m : ℕ} (hn : n < 256 ^ len) (hm : m < 256 ^ len)
    (h : beBytes len n = beBytes len m) : n = m := by
  have hmod := beBytes_mod h
  rwa [Nat.mod_eq_of_lt hn, Nat.mod_eq_of_lt hm] at hmod

/-- The number of bytes, the highest first. -/
def beNat : List UInt8 → ℕ
  | [] => 0
  | b :: bytes => b.toNat * 256 ^ bytes.length + beNat bytes

theorem beNat_lt (bytes : List UInt8) : beNat bytes < 256 ^ bytes.length := by
  induction bytes with
  | nil => exact Nat.zero_lt_one
  | cons b bytes ih =>
    have hb : (b.toNat + 1) * 256 ^ bytes.length ≤ 256 * 256 ^ bytes.length :=
      Nat.mul_le_mul_right _ b.toNat_lt
    rw [Nat.succ_mul] at hb
    rw [beNat, List.length_cons, Nat.pow_succ, Nat.mul_comm (256 ^ bytes.length)]
    omega

theorem beNat_injOn {a b : List UInt8} (hlen : a.length = b.length) (h : beNat a = beNat b) : a = b := by
  induction a generalizing b with
  | nil => exact (List.length_eq_zero_iff.mp hlen.symm).symm
  | cons x a ih =>
    cases b with
    | nil => exact absurd hlen (Nat.succ_ne_zero _)
    | cons y b =>
      have hrest : a.length = b.length := Nat.succ_injective hlen
      have ha := beNat_lt a
      have hb := beNat_lt b
      rw [beNat, beNat, hrest] at h
      rw [hrest] at ha
      have hxy : x.toNat = y.toNat := by
        have hx := Nat.div_eq_of_lt_le (m := x.toNat * 256 ^ b.length + beNat a)
          (Nat.le_add_right _ _) (by rw [Nat.succ_mul]; omega)
        have hy := Nat.div_eq_of_lt_le (m := y.toNat * 256 ^ b.length + beNat b)
          (Nat.le_add_right _ _) (by rw [Nat.succ_mul]; omega)
        rw [← hx, h, hy]
      rw [hxy] at h
      rw [UInt8.toNat_inj.mp hxy, ih hrest (Nat.add_left_cancel h)]

theorem beNat_append (a b : List UInt8) : beNat (a ++ b) = beNat a * 256 ^ b.length + beNat b := by
  induction a with
  | nil => rw [List.nil_append, beNat, Nat.zero_mul, Nat.zero_add]
  | cons x a ih =>
    rw [List.cons_append, beNat, beNat, ih, List.length_append, Nat.pow_add, Nat.add_mul, Nat.add_assoc,
      Nat.mul_assoc]

/-- The bytes of a word, the lowest first. -/
def leBytes (w : BitVec 32) : List UInt8 :=
  [⟨w.extractLsb' 0 8⟩, ⟨w.extractLsb' 8 8⟩, ⟨w.extractLsb' 16 8⟩, ⟨w.extractLsb' 24 8⟩]

theorem leBytes_eq_map (w : UInt32) :
    (List.range 4).map (fun i => (w >>> (8 * i).toUInt32).toUInt8) = leBytes w.toBitVec := by
  have hbyte : ∀ i < 4, (w >>> (8 * i).toUInt32).toUInt8 = ⟨w.toBitVec.extractLsb' (8 * i) 8⟩ := by
    intro i hi
    apply UInt8.toBitVec_inj.mp
    ext j hj
    match i with
    | 0 => simp
    | 1 => simp
    | 2 => simp
    | 3 => simp
  rw [List.map_congr_left fun i hi => hbyte i (List.mem_range.mp hi)]
  rfl

/-- What holds of the 256 bytes holds of a byte. -/
theorem byte_cases {p : UInt8 → Prop} (h : ∀ n < 256, p (UInt8.ofNat n)) (a : UInt8) : p a := by
  have ha := h a.toNat a.toNat_lt
  rwa [UInt8.ofNat_toNat] at ha

/-- A table of 256 bytes is checked entry by entry. -/
theorem getD_table {table : Array UInt8} {f : UInt8 → UInt8}
    (h : table.toList = (List.range 256).map fun n => f (UInt8.ofNat n)) (a : UInt8) :
    table.getD a.toNat 0 = f a := by
  have hlt := a.toNat_lt
  rw [Array.getD_eq_getD_getElem?, ← Array.getElem?_toList, h, List.getElem?_map,
    List.getElem?_range hlt]
  simp

/-- The bytes as the digits of one number, in which a table is looked up at once. -/
def packed (bytes : List UInt8) : ℕ := bytes.foldr (fun b n => b.toNat + 256 * n) 0

theorem getD_packed (bytes : List UInt8) (i : ℕ) :
    bytes.getD i 0 = UInt8.ofNat (packed bytes >>> (8 * i)) := by
  induction bytes generalizing i with
  | nil => simp [packed]
  | cons b bytes ih =>
    have hb := b.toNat_lt
    cases i with
    | zero =>
      rw [List.getD_cons_zero, Nat.mul_zero, Nat.shiftRight_zero, packed, List.foldr_cons]
      apply UInt8.toNat_inj.mp
      rw [UInt8.toNat_ofNat']
      omega
    | succ i =>
      have hrest : packed (b :: bytes) >>> 8 = packed bytes := by
        rw [Nat.shiftRight_eq_div_pow, packed, List.foldr_cons, ← packed]
        omega
      rw [List.getD_cons_succ, ih, Nat.mul_succ, Nat.add_comm, Nat.shiftRight_add, hrest]

theorem table_packed (table : Array UInt8) (a : UInt8) :
    table.getD a.toNat 0 = UInt8.ofNat (packed table.toList >>> (8 * a.toNat)) := by
  rw [← getD_packed, Array.getD_eq_getD_getElem?, ← Array.getElem?_toList,
    List.getD_eq_getElem?_getD]

/-- A byte stands in a list when its bit is set in the mask of the list. -/
theorem mem_of_mask {l : List UInt8} {a : UInt8} {mask : ℕ}
    (h : (l.foldl (fun mask a => mask ||| 1 <<< a.toNat) mask).testBit a.toNat = true)
    (hmask : mask.testBit a.toNat = false) : a ∈ l := by
  induction l generalizing mask with
  | nil => simp [hmask] at h
  | cons b l ih =>
    by_cases heq : b = a
    · exact heq ▸ List.mem_cons_self
    · have hne : b.toNat ≠ a.toNat := fun hnat => heq (UInt8.toNat_inj.mp hnat)
      refine List.mem_cons_of_mem b (ih h ?_)
      rw [Nat.testBit_or, hmask, Nat.one_shiftLeft, Nat.testBit_two_pow_of_ne hne, Bool.or_false]

/-- `n` bytes at offset `i`, filled up with zeroes. -/
def field (data : List UInt8) (i n : ℕ) : List UInt8 :=
  (List.range n).map fun j => data.getD (i + j) 0

@[simp] theorem field_length (data : List UInt8) (i n : ℕ) : (field data i n).length = n := by
  simp [field]

theorem field_add (data : List UInt8) (i n m : ℕ) :
    field data i (n + m) = field data i n ++ field data (i + n) m := by
  simp only [field, List.range_add, List.map_append, List.map_map, Function.comp_def,
    Nat.add_assoc]

/-- The bytes that stand behind others. -/
theorem field_middle (front bytes behind : List UInt8) :
    field (front ++ bytes ++ behind) front.length bytes.length = bytes := by
  apply List.ext_getElem
  · exact field_length _ _ _
  · intro i _ hi
    simp only [field, List.getElem_map, List.getElem_range, List.append_assoc]
    rw [List.getD_append_right _ _ _ _ (Nat.le_add_right _ _), Nat.add_sub_cancel_left,
      List.getD_append _ _ _ _ hi, List.getD_eq_getElem _ _ hi]

theorem field_overwrite {data bytes : List UInt8} {i : ℕ}
    (h : i + bytes.length ≤ data.length) :
    field (overwrite data i bytes) i bytes.length = bytes := by
  apply List.ext_getElem
  · exact field_length _ _ _
  · intro j hj hj'
    simp only [field, List.getElem_map, List.getElem_range]
    rw [overwrite_getD_inside hj' h, List.getD_eq_getElem _ _ hj']

theorem field_overwrite_before {data bytes : List UInt8} {i j n : ℕ} (h : i + n ≤ j) :
    field (overwrite data j bytes) i n = field data i n := by
  apply List.map_congr_left
  intro k hk
  have hlt := List.mem_range.mp hk
  exact overwrite_getD_before (by omega)

theorem field_overwrite_behind {data bytes : List UInt8} {i j n : ℕ}
    (h : j + bytes.length ≤ i) : field (overwrite data j bytes) i n = field data i n := by
  apply List.map_congr_left
  intro k _
  exact overwrite_getD_behind (by omega)

end Foundations

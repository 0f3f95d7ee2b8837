import StandaloneDrivers.Foundations.Michael
import StandaloneDrivers.Rtl8188eu.Michael
import Mathlib.Tactic.IntervalCases

/-! The byte-wise Michael of the driver computes the message integrity code over the words. -/
namespace Rtl8188eu
open Foundations Foundations.Michael

section
variable {n : UInt32}

theorem mask_toNat (h : n.toNat < 32) : (1 <<< n - 1 : UInt32).toNat = 2 ^ n.toNat - 1 := by
  have hlt : 2 ^ n.toNat < 2 ^ 32 := Nat.pow_lt_pow_right (by decide) h
  have hone : (1 <<< n : UInt32).toNat = 2 ^ n.toNat := by
    rw [UInt32.toNat_shiftLeft, Nat.mod_eq_of_lt h, UInt32.toNat_one, Nat.one_shiftLeft,
      Nat.mod_eq_of_lt hlt]
  rw [UInt32.toNat_sub_of_le _ _ (by
    rw [UInt32.le_iff_toNat_le, hone]
    exact Nat.one_le_two_pow), hone, UInt32.toNat_one]

/-- The mask of `ROL32` takes nothing away. -/
theorem rol32_mask (a : UInt32) (h0 : 0 < n.toNat) (h : n.toNat < 32) :
    a >>> (32 - n) &&& (1 <<< n - 1) = a >>> (32 - n) := by
  have hsub : (32 - n).toNat = 32 - n.toNat := by
    rw [UInt32.toNat_sub_of_le _ _ (UInt32.le_iff_toNat_le.mpr h.le)]
    rfl
  apply UInt32.toNat_inj.mp
  rw [UInt32.toNat_and, mask_toNat h, Nat.and_two_pow_sub_one_eq_mod]
  apply Nat.mod_eq_of_lt
  rw [UInt32.toNat_shiftRight, hsub, Nat.mod_eq_of_lt (by omega), Nat.shiftRight_eq_div_pow]
  apply Nat.div_lt_of_lt_mul
  rw [← Nat.pow_add, Nat.sub_add_cancel h.le]
  exact a.toNat_lt

theorem rol32_toBitVec (a : UInt32) (h0 : 0 < n.toNat) (h : n.toNat < 32) :
    (rol32 a n).toBitVec = a.toBitVec.rotateLeft n.toNat := by
  have hsub : (32 - n).toNat = 32 - n.toNat := by
    rw [UInt32.toNat_sub_of_le _ _ (UInt32.le_iff_toNat_le.mpr h.le)]
    rfl
  rw [rol32, rol32_mask a h0 h, BitVec.rotateLeft_eq_rotateLeftAux_of_lt h, BitVec.rotateLeftAux,
    UInt32.toBitVec_or, UInt32.toBitVec_shiftLeft, UInt32.toBitVec_shiftRight]
  have hright : (4294967296 - n.toNat) % 32 = 32 - n.toNat := by omega
  simp [Nat.mod_eq_of_lt h, hright]

theorem ror32_toBitVec (a : UInt32) : (ror32 a 2).toBitVec = a.toBitVec.rotateRight 2 := by
  have hrol := rol32_toBitVec a (n := 30) (by decide) (by decide)
  rw [ror32, show (32 - 2 : UInt32) = 30 from rfl, hrol,
    BitVec.rotateLeft_eq_rotateLeftAux_of_lt (by decide),
    BitVec.rotateRight_eq_rotateRightAux_of_lt (by decide)]
  exact BitVec.or_comm _ _

end

theorem xswap_toBitVec (l : UInt32) :
    ((l &&& 0xff00ff00) >>> 8 ||| (l &&& 0x00ff00ff) <<< 8).toBitVec = xswap l.toBitVec := by
  apply BitVec.eq_of_getLsbD_eq
  intro i hi
  simp only [xswap, BitVec.getLsbD_append]
  interval_cases i <;> simp

theorem secmicgetuint32_toBitVec (a b c d : UInt8) (rest : List UInt8) :
    (secmicgetuint32 (a :: b :: c :: d :: rest)).toBitVec = leWord a b c d := by
  ext i hi
  simp [secmicgetuint32, leWord, List.range_succ]
  grind

theorem secmicputuint32_eq (val : UInt32) : secmicputuint32 val = leBytes val.toBitVec :=
  leBytes_eq_map val

/-- The halves of the state. -/
def MicData.halves (d : MicData) : BitVec 32 × BitVec 32 := (d.l.toBitVec, d.r.toBitVec)

/-- The state with other halves. -/
def MicData.withHalves (d : MicData) (halves : BitVec 32 × BitVec 32) : MicData :=
  { d with l := ⟨halves.1⟩, r := ⟨halves.2⟩ }

/-- No byte of an unfinished word is held. -/
structure MicData.Aligned (d : MicData) : Prop where
  empty : d.m = 0
  start : d.nBytesInM = 0

theorem rtwSecmicappendbyte_full {d : MicData} (b : UInt8) (h : d.nBytesInM = 3) :
    rtwSecmicappendbyte d b = { d.withHalves
      (block d.halves (d.m ||| b.toUInt32 <<< 24).toBitVec) with m := 0, nBytesInM := 0 } := by
  have hrol (a : UInt32) : (rol32 a 17).toBitVec = a.toBitVec.rotateLeft 17 :=
    rol32_toBitVec a (by decide) (by decide)
  have hrol' (a : UInt32) : (rol32 a 3).toBitVec = a.toBitVec.rotateLeft 3 :=
    rol32_toBitVec a (by decide) (by decide)
  have hcount : (8 * (3 : Fin 4).val).toUInt32 = 24 := rfl
  simp only [rtwSecmicappendbyte, h, hcount, if_true, MicData.withHalves, MicData.halves, block,
    MicData.mk.injEq, true_and, and_true]
  constructor
  · apply UInt32.toBitVec_inj.mp
    simp only [UInt32.toBitVec_add, UInt32.toBitVec_xor, hrol, hrol', ror32_toBitVec,
      xswap_toBitVec]
  · apply UInt32.toBitVec_inj.mp
    simp only [UInt32.toBitVec_add, UInt32.toBitVec_xor, hrol, hrol', ror32_toBitVec,
      xswap_toBitVec]

theorem rtwSecmicappendbyte_nBytesInM (d : MicData) (b : UInt8) :
    (rtwSecmicappendbyte d b).nBytesInM = d.nBytesInM + 1 := by
  rw [rtwSecmicappendbyte]
  split
  · rename_i h
    rw [h]
    rfl
  · rfl

theorem rtwSecmicappend_nBytesInM (d : MicData) (src : List UInt8) :
    (rtwSecmicappend d src).nBytesInM.val = (d.nBytesInM.val + src.length) % 4 := by
  induction src generalizing d with
  | nil => exact (Nat.mod_eq_of_lt d.nBytesInM.isLt).symm
  | cons b src ih =>
    have hrest := ih (rtwSecmicappendbyte d b)
    rw [rtwSecmicappendbyte_nBytesInM, Fin.val_add] at hrest
    rw [rtwSecmicappend, List.foldl_cons, ← rtwSecmicappend, hrest, List.length_cons]
    simp only [Fin.val_one]
    omega

/-- Four bytes at the start of a word are one word. -/
theorem rtwSecmicappend_word {d : MicData} (h : d.Aligned) (a b c e : UInt8) :
    rtwSecmicappend d [a, b, c, e] = d.withHalves (block d.halves (leWord a b c e)) := by
  obtain ⟨hm, hn⟩ := h
  have hpart : rtwSecmicappend d [a, b, c] =
      { d with m := (0 : UInt32) ||| a.toUInt32 <<< 0 ||| b.toUInt32 <<< 8 ||| c.toUInt32 <<< 16,
               nBytesInM := 3 } := by
    simp [rtwSecmicappend, rtwSecmicappendbyte, hm, hn]
  have hword : ((0 : UInt32) ||| a.toUInt32 <<< 0 ||| b.toUInt32 <<< 8 ||| c.toUInt32 <<< 16 |||
      e.toUInt32 <<< 24).toBitVec = leWord a b c e := secmicgetuint32_toBitVec a b c e []
  have hsplit : rtwSecmicappend d [a, b, c, e] =
      rtwSecmicappendbyte (rtwSecmicappend d [a, b, c]) e := rfl
  rw [hsplit, hpart, rtwSecmicappendbyte_full e rfl, hword]
  simp only [MicData.withHalves, MicData.halves, hm, hn]

theorem MicData.Aligned.withHalves {d : MicData} (h : d.Aligned) (halves : BitVec 32 × BitVec 32) :
    (d.withHalves halves).Aligned := ⟨h.empty, h.start⟩

theorem rtwSecmicappend_words {d : MicData} (h : d.Aligned) {src : List UInt8}
    (hlen : src.length % 4 = 0) :
    rtwSecmicappend d src = d.withHalves ((leWords src).foldl block d.halves) := by
  induction src using leWords.induct generalizing d with
  | case1 a b c e rest ih =>
    have hrest : rest.length % 4 = 0 := by
      simp only [List.length_cons] at hlen
      omega
    have hsplit : a :: b :: c :: e :: rest = [a, b, c, e] ++ rest := rfl
    rw [leWords, List.foldl_cons, hsplit, rtwSecmicappend_append, rtwSecmicappend_word h,
      ih (h.withHalves _) hrest]
    rfl
  | case2 src hshort =>
    have hnil : src = [] := by
      match src with
      | [] => rfl
      | [_] => simp at hlen
      | [_, _] => simp at hlen
      | [_, _, _] => simp at hlen
      | a :: b :: c :: e :: rest => exact absurd rfl (hshort a b c e rest)
    rw [hnil]
    rfl

theorem rtwSecmicappend_chunks (d : MicData) (chunks : List (List UInt8)) :
    chunks.foldl rtwSecmicappend d = rtwSecmicappend d chunks.flatten := by
  induction chunks generalizing d with
  | nil => rfl
  | cons chunk chunks ih => rw [List.foldl_cons, ih, List.flatten_cons, rtwSecmicappend_append]

/-- What `rtw_secgetmic` appends pads the message. -/
theorem append_padding (message : List UInt8) {n : Fin 4} (h : n.val = (message.length + 5) % 4) :
    message ++ [0x5a, 0, 0, 0, 0] ++ micZeroes n = pad message := by
  have hzeroes : 7 - message.length % 4 = 4 + (-n : Fin 4).val := by
    have hneg : (-n : Fin 4).val = (4 - n.val) % 4 := Fin.val_neg' n
    omega
  rw [pad, hzeroes, List.replicate_add, micZeroes, List.append_assoc]
  rfl

theorem rtwSecmicsetkey_aligned (key : List UInt8) : (rtwSecmicsetkey key).Aligned := ⟨rfl, rfl⟩

theorem rtwSecmicsetkey_halves (key : Vector UInt8 8) :
    (rtwSecmicsetkey key.toList).halves = start key := by
  have hkey : key.toList =
      [key[0], key[1], key[2], key[3], key[4], key[5], key[6], key[7]] := by
    apply List.ext_getElem
    · simp
    · intro i hi _
      rw [Vector.length_toList] at hi
      interval_cases i <;> simp
  rw [hkey, start, ← secmicgetuint32_toBitVec, ← secmicgetuint32_toBitVec _ _ _ _ []]
  rfl

theorem rtwSecgetmic_append (key : Vector UInt8 8) (message : List UInt8) :
    rtwSecgetmic (rtwSecmicappend (rtwSecmicsetkey key.toList) message) =
      (mic key message, rtwSecmicsetkey key.toList) := by
  generalize hd : rtwSecmicsetkey key.toList = d
  generalize hd' : rtwSecmicappend (rtwSecmicappend d message) [0x5a, 0, 0, 0, 0] = d'
  have haligned : d.Aligned := hd ▸ rtwSecmicsetkey_aligned _
  have hcount : d'.nBytesInM.val = (message.length + 5) % 4 := by
    rw [← hd', ← rtwSecmicappend_append, rtwSecmicappend_nBytesInM, haligned.start]
    simp
  have hpad : rtwSecmicappend d' (micZeroes d'.nBytesInM) =
      d.withHalves ((leWords (pad message)).foldl block d.halves) := by
    rw [← rtwSecmicappend_words haligned (pad_length _), ← append_padding _ hcount,
      rtwSecmicappend_append, rtwSecmicappend_append, hd']
  have hclear (halves : BitVec 32 × BitVec 32) : secmicclear (d.withHalves halves) = d := by
    rw [← hd]
    rfl
  have hhalves : d.halves = start key := hd ▸ rtwSecmicsetkey_halves key
  rw [rtwSecgetmic]
  simp only [hd', hpad, hclear, secmicputuint32_eq, mic, ← hhalves]
  rfl

/-- However the message was split, the code is Michael's of the whole message, and the state is
that of a new message under the key. -/
theorem rtwSecgetmic_chunks (key : Vector UInt8 8) (chunks : List (List UInt8)) :
    rtwSecgetmic (chunks.foldl rtwSecmicappend (rtwSecmicsetkey key.toList)) =
      (mic key chunks.flatten, rtwSecmicsetkey key.toList) := by
  rw [rtwSecmicappend_chunks, rtwSecgetmic_append]

/-- DA, SA and the priority stand in front of the data. -/
theorem rtwSeccalctkipmic_eq (key : Vector UInt8 8) (header data : List UInt8) (pri : UInt8) :
    rtwSeccalctkipmic key.toList header data pri =
      mic key ((micAddresses header).1.toList ++ (micAddresses header).2.toList ++
        [pri, 0, 0, 0] ++ data) := by
  simp only [rtwSeccalctkipmic, micStart, ← rtwSecmicappend_append, rtwSecgetmic_append]

end Rtl8188eu

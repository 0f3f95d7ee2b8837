import StandaloneDrivers.Rtl8188eu.MichaelAgreement

/-! The Michael functions on words of any size (cmm_tkip.c). -/
namespace Rt5572
open Foundations Foundations.Michael Rtl8188eu

section
variable {w : ℕ}

/-- `ROL32` -/
def tkipRol32 (a : BitVec w) (n : ℕ) : BitVec w :=
  a <<< n ||| a >>> (32 - n) &&& (1#w <<< n - 1#w)

/-- `ROR32` -/
def tkipRor32 (a : BitVec w) (n : ℕ) : BitVec w := tkipRol32 a (32 - n)

/-- A shifted byte is an `int`, so that `ULONG` extends its sign. -/
def shiftedInt (b : UInt8) (n : ℕ) : BitVec w := (b.toBitVec.setWidth 32 <<< n).signExtend w

/-- `TKIP_KEY_INFO`, where `ULONG` has `w` bits. -/
structure TkipKeyInfo (w : ℕ) where
  nBytesInM : ℕ
  k0 : BitVec w
  k1 : BitVec w
  l : BitVec w
  r : BitVec w
  m : BitVec w
  mic : List UInt8
  deriving DecidableEq, Repr

def rtmpTkipGetUInt32 (pMICKey : List UInt8) : BitVec w :=
  (List.range 4).foldl (fun res i => res ||| shiftedInt (pMICKey.getD i 0) (8 * i)) 0

def rtmpTkipPutUInt32 (val : BitVec w) : List UInt8 :=
  (List.range 4).map fun i => ⟨(val >>> (8 * i) &&& 0xff#w).setWidth 8⟩

def rtmpTkipSetMICKey (pTkip : TkipKeyInfo w) (pMICKey : List UInt8) : TkipKeyInfo w :=
  let k0 := rtmpTkipGetUInt32 pMICKey
  let k1 := rtmpTkipGetUInt32 (pMICKey.drop 4)
  { pTkip with k0 := k0, k1 := k1, l := k0, r := k1, nBytesInM := 0, m := 0 }

def rtmpTkipAppendByte (pTkip : TkipKeyInfo w) (uChar : UInt8) : TkipKeyInfo w :=
  let m := pTkip.m ||| shiftedInt uChar (8 * pTkip.nBytesInM)
  if 4 ≤ pTkip.nBytesInM + 1 then
    let l := pTkip.l ^^^ m
    let r := pTkip.r ^^^ tkipRol32 l 17
    let l := l + r
    let r := r ^^^ ((l &&& 0xff00ff00#w) >>> 8 ||| (l &&& 0x00ff00ff#w) <<< 8)
    let l := l + r
    let r := r ^^^ tkipRol32 l 3
    let l := l + r
    let r := r ^^^ tkipRor32 l 2
    { pTkip with l := l + r, r := r, m := 0, nBytesInM := 0 }
  else { pTkip with m := m, nBytesInM := pTkip.nBytesInM + 1 }

def rtmpTkipAppend (pTkip : TkipKeyInfo w) (src : List UInt8) : TkipKeyInfo w :=
  src.foldl rtmpTkipAppendByte pTkip

/-- The zeroes until the length is a multiple of 4. -/
def appendZeroes (pTkip : TkipKeyInfo w) : TkipKeyInfo w :=
  if pTkip.nBytesInM = 0 then pTkip else appendZeroes (rtmpTkipAppendByte pTkip 0)
termination_by if pTkip.nBytesInM = 0 then 0 else 5 - min pTkip.nBytesInM 4
decreasing_by
  simp only [rtmpTkipAppendByte]
  split <;> grind

def rtmpTkipGetMIC (pTkip : TkipKeyInfo w) : TkipKeyInfo w :=
  let pTkip := appendZeroes (rtmpTkipAppend pTkip [0x5a, 0, 0, 0, 0])
  { pTkip with mic := rtmpTkipPutUInt32 pTkip.l ++ rtmpTkipPutUInt32 pTkip.r }

end

/-- The low 32 bits of the registers are those of the 32-bit computation. -/
structure TkipKeyInfo.Tracks {w : ℕ} (pTkip : TkipKeyInfo w) (d : MicData) : Prop where
  count : pTkip.nBytesInM = d.nBytesInM.val
  left : pTkip.l.setWidth 32 = d.l.toBitVec
  right : pTkip.r.setWidth 32 = d.r.toBitVec
  word : pTkip.m.setWidth 32 = d.m.toBitVec

section
variable {w n : ℕ}

theorem shiftedInt_setWidth (hw : 32 ≤ w) (b : UInt8) (n : ℕ) :
    (shiftedInt b n : BitVec w).setWidth 32 = b.toBitVec.setWidth 32 <<< n := by
  rw [shiftedInt]
  generalize b.toBitVec.setWidth 32 <<< n = x
  apply BitVec.eq_of_getLsbD_eq
  intro i hi
  have hiw : i < w := by omega
  simp only [BitVec.getLsbD_setWidth, BitVec.getLsbD_signExtend, hiw, hi, decide_true,
    Bool.true_and, if_true]

theorem mask_getLsbD (hn : n < w) (i : ℕ) : (1#w <<< n - 1#w).getLsbD i = decide (i < n) := by
  have hpow : 2 ^ n < 2 ^ w := Nat.pow_lt_pow_right (by decide) hn
  have hone : (1#w).toNat = 1 := by
    rw [BitVec.toNat_ofNat, Nat.mod_eq_of_lt (Nat.one_lt_two_pow (by omega))]
  have hshift : (1#w <<< n).toNat = 2 ^ n := by
    rw [BitVec.toNat_shiftLeft, hone, Nat.one_shiftLeft, Nat.mod_eq_of_lt hpow]
  have hmask : (1#w <<< n - 1#w).toNat = 2 ^ n - 1 := by
    rw [BitVec.toNat_sub_of_le, hshift, hone]
    rw [BitVec.le_def, hone, hshift]
    exact Nat.one_le_two_pow
  rw [← BitVec.testBit_toNat, hmask, Nat.testBit_two_pow_sub_one]

/-- Masked, the rotation brings no bit above the 31st down. -/
theorem tkipRol32_setWidth (hw : 32 ≤ w) (a : BitVec w) (hn : n < 32) :
    (tkipRol32 a n).setWidth 32 = (a.setWidth 32).rotateLeft n := by
  ext i hi
  have hiw : i < w := by omega
  have hmask := mask_getLsbD (w := w) (n := n) (by omega) i
  simp only [tkipRol32, BitVec.getElem_setWidth, BitVec.getLsbD_or, BitVec.getLsbD_and, hmask,
    BitVec.getLsbD_shiftLeft, BitVec.getLsbD_ushiftRight, BitVec.getElem_rotateLeft]
  grind

theorem tkipSwap_setWidth (hw : 32 ≤ w) (l : BitVec w) :
    ((l &&& 0xff00ff00#w) >>> 8 ||| (l &&& 0x00ff00ff#w) <<< 8).setWidth 32 =
      xswap (l.setWidth 32) := by
  apply BitVec.eq_of_getLsbD_eq
  intro i hi
  have hiw : i < w := by omega
  simp only [xswap, BitVec.getLsbD_append, BitVec.getLsbD_setWidth, BitVec.getLsbD_or,
    BitVec.getLsbD_ushiftRight, BitVec.getLsbD_shiftLeft, BitVec.getLsbD_and,
    BitVec.getLsbD_extractLsb', BitVec.getLsbD_ofNat]
  interval_cases i <;> simp [hiw, Nat.testBit] <;> omega

theorem putByte_eq (hw : 32 ≤ w) (val : BitVec w) (hn : n + 8 ≤ 32) :
    (val >>> n &&& 0xff#w).setWidth 8 = (val.setWidth 32).extractLsb' n 8 := by
  apply BitVec.eq_of_getLsbD_eq
  intro i hi
  have hiw : i < w := by omega
  have hin : n + i < 32 := by omega
  have hmask : Nat.testBit 0xff i = true := by
    interval_cases i <;> rfl
  simp only [BitVec.getLsbD_setWidth, BitVec.getLsbD_and, BitVec.getLsbD_ushiftRight,
    BitVec.getLsbD_ofNat, BitVec.getLsbD_extractLsb', hiw, hi, hin, hmask, decide_true,
    Bool.true_and, Bool.and_true]

theorem rtmpTkipPutUInt32_eq (hw : 32 ≤ w) (val : BitVec w) :
    rtmpTkipPutUInt32 val = leBytes (val.setWidth 32) := by
  have hbyte : ∀ i < 4, (val >>> (8 * i) &&& 0xff#w).setWidth 8 =
      (val.setWidth 32).extractLsb' (8 * i) 8 :=
    fun i hi => putByte_eq hw val (by omega)
  simp only [rtmpTkipPutUInt32, List.range_succ, List.range_zero, List.nil_append, List.map_append,
    List.map_cons, List.map_nil, hbyte 0 (by decide), hbyte 1 (by decide), hbyte 2 (by decide),
    hbyte 3 (by decide)]
  rfl

theorem shiftedInt_toBitVec (hw : 32 ≤ w) (b : UInt8) {i : ℕ} (hi : i < 4) :
    (shiftedInt b (8 * i) : BitVec w).setWidth 32 =
      (b.toUInt32 <<< (8 * i).toUInt32).toBitVec := by
  rw [shiftedInt_setWidth hw]
  interval_cases i <;> rfl

theorem rtmpTkipGetUInt32_setWidth (hw : 32 ≤ w) (p : List UInt8) :
    (rtmpTkipGetUInt32 p : BitVec w).setWidth 32 = (secmicgetuint32 p).toBitVec := by
  have hzero : (0 : BitVec w).setWidth 32 = (0 : UInt32).toBitVec := BitVec.setWidth_zero 32 w
  simp only [rtmpTkipGetUInt32, secmicgetuint32, List.range_succ, List.range_zero,
    List.nil_append, List.cons_append, List.foldl_cons, List.foldl_nil, BitVec.setWidth_or,
    UInt32.toBitVec_or, hzero, shiftedInt_toBitVec hw _ (show 0 < 4 by decide),
    shiftedInt_toBitVec hw _ (show 1 < 4 by decide),
    shiftedInt_toBitVec hw _ (show 2 < 4 by decide),
    shiftedInt_toBitVec hw _ (show 3 < 4 by decide)]

end

section
variable {w : ℕ} {pTkip : TkipKeyInfo w} {d : MicData}

theorem rtmpTkipSetMICKey_tracks (hw : 32 ≤ w) (pTkip : TkipKeyInfo w) (key : List UInt8) :
    (rtmpTkipSetMICKey pTkip key).Tracks (rtwSecmicsetkey key) where
  count := rfl
  left := rtmpTkipGetUInt32_setWidth hw key
  right := rtmpTkipGetUInt32_setWidth hw (key.drop 4)
  word := BitVec.setWidth_zero 32 w

/-- The accumulated word with one more byte. -/
theorem TkipKeyInfo.Tracks.word_byte (h : pTkip.Tracks d) (hw : 32 ≤ w) (b : UInt8) :
    (pTkip.m ||| shiftedInt b (8 * pTkip.nBytesInM)).setWidth 32 =
      (d.m ||| b.toUInt32 <<< (8 * d.nBytesInM.val).toUInt32).toBitVec := by
  rw [BitVec.setWidth_or, h.word, h.count, shiftedInt_toBitVec hw b d.nBytesInM.isLt,
    UInt32.toBitVec_or]

/-- A full word is mixed into the registers. -/
theorem TkipKeyInfo.Tracks.full (h : pTkip.Tracks d) (hw : 32 ≤ w) (b : UInt8)
    (hfull : d.nBytesInM = 3) :
    (rtmpTkipAppendByte pTkip b).Tracks (rtwSecmicappendbyte d b) := by
  have hword := h.word_byte hw b
  have hrot (a : BitVec w) := tkipRol32_setWidth hw a (show 17 < 32 by decide)
  have hrot' (a : BitVec w) := tkipRol32_setWidth hw a (show 3 < 32 by decide)
  have hrot'' (a : BitVec w) : (tkipRor32 a 2).setWidth 32 = (a.setWidth 32).rotateRight 2 := by
    rw [tkipRor32, tkipRol32_setWidth hw a (by decide),
      BitVec.rotateLeft_eq_rotateLeftAux_of_lt (by decide),
      BitVec.rotateRight_eq_rotateRightAux_of_lt (by decide)]
    exact BitVec.or_comm _ _
  have hcount : 4 ≤ pTkip.nBytesInM + 1 := by
    rw [h.count, hfull]
    decide
  rw [hfull] at hword
  rw [rtwSecmicappendbyte_full b hfull, rtmpTkipAppendByte, if_pos hcount]
  constructor
  · rfl
  · simp only [MicData.withHalves, block, MicData.halves, BitVec.setWidth_add _ _ hw,
      BitVec.setWidth_xor, hrot, hrot', hrot'', tkipSwap_setWidth hw, h.left, h.right, hword]
    rfl
  · simp only [MicData.withHalves, block, MicData.halves, BitVec.setWidth_add _ _ hw,
      BitVec.setWidth_xor, hrot, hrot', hrot'', tkipSwap_setWidth hw, h.left, h.right, hword]
    rfl
  · exact BitVec.setWidth_zero 32 w

theorem TkipKeyInfo.Tracks.appendByte (h : pTkip.Tracks d) (hw : 32 ≤ w) (b : UInt8) :
    (rtmpTkipAppendByte pTkip b).Tracks (rtwSecmicappendbyte d b) := by
  by_cases hfull : d.nBytesInM = 3
  · exact h.full hw b hfull
  · have hlt : d.nBytesInM.val < 3 := by
      have hne : d.nBytesInM.val ≠ 3 := Fin.val_ne_of_ne hfull
      have hlt := d.nBytesInM.isLt
      omega
    have hcount : ¬4 ≤ pTkip.nBytesInM + 1 := by
      rw [h.count]
      omega
    rw [rtmpTkipAppendByte, if_neg hcount, rtwSecmicappendbyte, if_neg hfull]
    refine ⟨?_, h.left, h.right, h.word_byte hw b⟩
    change pTkip.nBytesInM + 1 = (d.nBytesInM + 1).val
    rw [h.count, Fin.val_add, Fin.val_one, Nat.mod_eq_of_lt (by omega)]

theorem TkipKeyInfo.Tracks.append (h : pTkip.Tracks d) (hw : 32 ≤ w) (src : List UInt8) :
    (rtmpTkipAppend pTkip src).Tracks (rtwSecmicappend d src) := by
  induction src generalizing pTkip d with
  | nil => exact h
  | cons b src ih => exact ih (h.appendByte hw b)

theorem TkipKeyInfo.Tracks.chunks (h : pTkip.Tracks d) (hw : 32 ≤ w)
    (chunks : List (List UInt8)) :
    (chunks.foldl rtmpTkipAppend pTkip).Tracks (chunks.foldl rtwSecmicappend d) := by
  induction chunks generalizing pTkip d with
  | nil => exact h
  | cons chunk chunks ih => exact ih (h.append hw chunk)

theorem TkipKeyInfo.Tracks.appendZeroes (h : pTkip.Tracks d) (hw : 32 ≤ w) :
    (Rt5572.appendZeroes pTkip).Tracks (rtwSecmicappend d (micZeroes d.nBytesInM)) := by
  induction pTkip using Rt5572.appendZeroes.induct generalizing d with
  | case1 pTkip hzero =>
    have hd : d.nBytesInM = 0 := Fin.ext (h.count.symm.trans hzero)
    rw [Rt5572.appendZeroes, if_pos hzero, hd]
    exact h
  | case2 pTkip hne ih =>
    have hd : d.nBytesInM ≠ 0 := by
      intro hd
      rw [h.count, hd] at hne
      exact hne rfl
    have hzeroes : ∀ n : Fin 4, n ≠ 0 → micZeroes n = 0 :: micZeroes (n + 1) := by decide
    rw [Rt5572.appendZeroes, if_neg hne, hzeroes _ hd]
    have hrest := ih (h.appendByte hw 0)
    rw [rtwSecmicappendbyte_nBytesInM] at hrest
    exact hrest

theorem TkipKeyInfo.Tracks.getMIC (h : pTkip.Tracks d) (hw : 32 ≤ w) :
    (rtmpTkipGetMIC pTkip).mic = (rtwSecgetmic d).1 := by
  have hend := (h.append hw [0x5a, 0, 0, 0, 0]).appendZeroes hw
  rw [rtmpTkipGetMIC, rtwSecgetmic]
  simp only [rtmpTkipPutUInt32_eq hw, secmicputuint32_eq, hend.left, hend.right]

/-- On words of 32 bits or more, whatever was in the registers, the code is Michael's of the
whole message. -/
theorem rtmpTkipGetMIC_chunks (hw : 32 ≤ w) (pTkip : TkipKeyInfo w) (key : Vector UInt8 8)
    (chunks : List (List UInt8)) :
    (rtmpTkipGetMIC (chunks.foldl rtmpTkipAppend (rtmpTkipSetMICKey pTkip key.toList))).mic =
      mic key chunks.flatten := by
  have hstart := rtmpTkipSetMICKey_tracks hw pTkip key.toList
  rw [(hstart.chunks hw chunks).getMIC hw, rtwSecgetmic_chunks]

theorem rtmpTkipGetMIC_chunks_ulong :
    (rtmpTkipGetMIC ([[0x81, 0x92], [], [0xa3, 4, 5]].foldl rtmpTkipAppend
      (rtmpTkipSetMICKey (⟨3, 1, 2, 3, 4, 5, []⟩ : TkipKeyInfo 32)
        (Vector.replicate 8 0xff).toList))).mic =
      mic (Vector.replicate 8 0xff) [0x81, 0x92, 0xa3, 4, 5] ∧
    (rtmpTkipGetMIC ([[0x81, 0x92], [], [0xa3, 4, 5]].foldl rtmpTkipAppend
      (rtmpTkipSetMICKey (⟨3, 1, 2, 3, 4, 5, []⟩ : TkipKeyInfo 64)
        (Vector.replicate 8 0xff).toList))).mic =
      mic (Vector.replicate 8 0xff) [0x81, 0x92, 0xa3, 4, 5] :=
  ⟨rtmpTkipGetMIC_chunks (by decide) ⟨3, 1, 2, 3, 4, 5, []⟩ (Vector.replicate 8 0xff)
    [[0x81, 0x92], [], [0xa3, 4, 5]],
    rtmpTkipGetMIC_chunks (by decide) ⟨3, 1, 2, 3, 4, 5, []⟩ (Vector.replicate 8 0xff)
    [[0x81, 0x92], [], [0xa3, 4, 5]]⟩

end

end Rt5572

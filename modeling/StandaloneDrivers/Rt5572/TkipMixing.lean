import StandaloneDrivers.Rtl8188eu.TkipUniqueness
import Mathlib.Tactic.IntervalCases

/-! The key mixing of TKIP on unreduced words (cmm_tkip.c). -/
namespace Rt5572
open Foundations Rtl8188eu

/-- `Tkip_Sbox_Lower` -/
def tkipSboxLower : Array UInt32 := #[
    0xA5, 0x84, 0x99, 0x8D, 0x0D, 0xBD, 0xB1, 0x54, 0x50, 0x03, 0xA9, 0x7D, 0x19, 0x62, 0xE6, 0x9A,
    0x45, 0x9D, 0x40, 0x87, 0x15, 0xEB, 0xC9, 0x0B, 0xEC, 0x67, 0xFD, 0xEA, 0xBF, 0xF7, 0x96, 0x5B,
    0xC2, 0x1C, 0xAE, 0x6A, 0x5A, 0x41, 0x02, 0x4F, 0x5C, 0xF4, 0x34, 0x08, 0x93, 0x73, 0x53, 0x3F,
    0x0C, 0x52, 0x65, 0x5E, 0x28, 0xA1, 0x0F, 0xB5, 0x09, 0x36, 0x9B, 0x3D, 0x26, 0x69, 0xCD, 0x9F,
    0x1B, 0x9E, 0x74, 0x2E, 0x2D, 0xB2, 0xEE, 0xFB, 0xF6, 0x4D, 0x61, 0xCE, 0x7B, 0x3E, 0x71, 0x97,
    0xF5, 0x68, 0x00, 0x2C, 0x60, 0x1F, 0xC8, 0xED, 0xBE, 0x46, 0xD9, 0x4B, 0xDE, 0xD4, 0xE8, 0x4A,
    0x6B, 0x2A, 0xE5, 0x16, 0xC5, 0xD7, 0x55, 0x94, 0xCF, 0x10, 0x06, 0x81, 0xF0, 0x44, 0xBA, 0xE3,
    0xF3, 0xFE, 0xC0, 0x8A, 0xAD, 0xBC, 0x48, 0x04, 0xDF, 0xC1, 0x75, 0x63, 0x30, 0x1A, 0x0E, 0x6D,
    0x4C, 0x14, 0x35, 0x2F, 0xE1, 0xA2, 0xCC, 0x39, 0x57, 0xF2, 0x82, 0x47, 0xAC, 0xE7, 0x2B, 0x95,
    0xA0, 0x98, 0xD1, 0x7F, 0x66, 0x7E, 0xAB, 0x83, 0xCA, 0x29, 0xD3, 0x3C, 0x79, 0xE2, 0x1D, 0x76,
    0x3B, 0x56, 0x4E, 0x1E, 0xDB, 0x0A, 0x6C, 0xE4, 0x5D, 0x6E, 0xEF, 0xA6, 0xA8, 0xA4, 0x37, 0x8B,
    0x32, 0x43, 0x59, 0xB7, 0x8C, 0x64, 0xD2, 0xE0, 0xB4, 0xFA, 0x07, 0x25, 0xAF, 0x8E, 0xE9, 0x18,
    0xD5, 0x88, 0x6F, 0x72, 0x24, 0xF1, 0xC7, 0x51, 0x23, 0x7C, 0x9C, 0x21, 0xDD, 0xDC, 0x86, 0x85,
    0x90, 0x42, 0xC4, 0xAA, 0xD8, 0x05, 0x01, 0x12, 0xA3, 0x5F, 0xF9, 0xD0, 0x91, 0x58, 0x27, 0xB9,
    0x38, 0x13, 0xB3, 0x33, 0xBB, 0x70, 0x89, 0xA7, 0xB6, 0x22, 0x92, 0x20, 0x49, 0xFF, 0x78, 0x7A,
    0x8F, 0xF8, 0x80, 0x17, 0xDA, 0x31, 0xC6, 0xB8, 0xC3, 0xB0, 0x77, 0x11, 0xCB, 0xFC, 0xD6, 0x3A]

/-- `Tkip_Sbox_Upper` -/
def tkipSboxUpper : Array UInt32 := #[
    0xC6, 0xF8, 0xEE, 0xF6, 0xFF, 0xD6, 0xDE, 0x91, 0x60, 0x02, 0xCE, 0x56, 0xE7, 0xB5, 0x4D, 0xEC,
    0x8F, 0x1F, 0x89, 0xFA, 0xEF, 0xB2, 0x8E, 0xFB, 0x41, 0xB3, 0x5F, 0x45, 0x23, 0x53, 0xE4, 0x9B,
    0x75, 0xE1, 0x3D, 0x4C, 0x6C, 0x7E, 0xF5, 0x83, 0x68, 0x51, 0xD1, 0xF9, 0xE2, 0xAB, 0x62, 0x2A,
    0x08, 0x95, 0x46, 0x9D, 0x30, 0x37, 0x0A, 0x2F, 0x0E, 0x24, 0x1B, 0xDF, 0xCD, 0x4E, 0x7F, 0xEA,
    0x12, 0x1D, 0x58, 0x34, 0x36, 0xDC, 0xB4, 0x5B, 0xA4, 0x76, 0xB7, 0x7D, 0x52, 0xDD, 0x5E, 0x13,
    0xA6, 0xB9, 0x00, 0xC1, 0x40, 0xE3, 0x79, 0xB6, 0xD4, 0x8D, 0x67, 0x72, 0x94, 0x98, 0xB0, 0x85,
    0xBB, 0xC5, 0x4F, 0xED, 0x86, 0x9A, 0x66, 0x11, 0x8A, 0xE9, 0x04, 0xFE, 0xA0, 0x78, 0x25, 0x4B,
    0xA2, 0x5D, 0x80, 0x05, 0x3F, 0x21, 0x70, 0xF1, 0x63, 0x77, 0xAF, 0x42, 0x20, 0xE5, 0xFD, 0xBF,
    0x81, 0x18, 0x26, 0xC3, 0xBE, 0x35, 0x88, 0x2E, 0x93, 0x55, 0xFC, 0x7A, 0xC8, 0xBA, 0x32, 0xE6,
    0xC0, 0x19, 0x9E, 0xA3, 0x44, 0x54, 0x3B, 0x0B, 0x8C, 0xC7, 0x6B, 0x28, 0xA7, 0xBC, 0x16, 0xAD,
    0xDB, 0x64, 0x74, 0x14, 0x92, 0x0C, 0x48, 0xB8, 0x9F, 0xBD, 0x43, 0xC4, 0x39, 0x31, 0xD3, 0xF2,
    0xD5, 0x8B, 0x6E, 0xDA, 0x01, 0xB1, 0x9C, 0x49, 0xD8, 0xAC, 0xF3, 0xCF, 0xCA, 0xF4, 0x47, 0x10,
    0x6F, 0xF0, 0x4A, 0x5C, 0x38, 0x57, 0x73, 0x97, 0xCB, 0xA1, 0xE8, 0x3E, 0x96, 0x61, 0x0D, 0x0F,
    0xE0, 0x7C, 0x71, 0xCC, 0x90, 0x06, 0xF7, 0x1C, 0xC2, 0x6A, 0xAE, 0x69, 0x17, 0x99, 0x3A, 0x27,
    0xD9, 0xEB, 0x2B, 0x22, 0xD2, 0xA9, 0x07, 0x33, 0x2D, 0x3C, 0x15, 0xC9, 0x87, 0xAA, 0x50, 0xA5,
    0x03, 0x59, 0x09, 0x1A, 0x65, 0xD7, 0x84, 0xD0, 0x82, 0x29, 0x5A, 0x1E, 0x7B, 0xA8, 0x6D, 0x2C]

def tkipSbox (index : UInt32) : UInt32 :=
  let indexLow := index % 256
  let indexHigh := (index >>> 8) % 256
  let left := tkipSboxLower.getD indexLow.toNat 0 + tkipSboxUpper.getD indexLow.toNat 0 * 256
  let right := tkipSboxUpper.getD indexHigh.toNat 0 + tkipSboxLower.getD indexHigh.toNat 0 * 256
  left ^^^ right

def rotr1 (a : UInt32) : UInt32 :=
  let b := if a &&& 1 = 1 then a >>> 1 ||| 0x8000 else a >>> 1 &&& 0x7fff
  b % 65536

/-- `256*key[n+1] + key[n]` -/
def keyWord (key : Keytype) (n : ℕ) : UInt32 :=
  256 * (key.toList.getD (n + 1) 0).toUInt32 + (key.toList.getD n 0).toUInt32

/-- The words of `p1k`. -/
structure MixWords where
  p1k0 : UInt32
  p1k1 : UInt32
  p1k2 : UInt32
  p1k3 : UInt32
  p1k4 : UInt32
  deriving DecidableEq, Repr

/-- A round of the second step of the first phase. -/
def mixRound (key : Keytype) (p1k : MixWords) (i : ℕ) : MixWords :=
  let j := 2 * (i &&& 1)
  let p1k0 := (p1k.p1k0 + tkipSbox ((p1k.p1k4 ^^^ keyWord key j) % 65536)) % 65536
  let p1k1 := (p1k.p1k1 + tkipSbox ((p1k0 ^^^ keyWord key (4 + j)) % 65536)) % 65536
  let p1k2 := (p1k.p1k2 + tkipSbox ((p1k1 ^^^ keyWord key (8 + j)) % 65536)) % 65536
  let p1k3 := (p1k.p1k3 + tkipSbox ((p1k2 ^^^ keyWord key (12 + j)) % 65536)) % 65536
  let p1k4 := (p1k.p1k4 + tkipSbox ((p1k3 ^^^ keyWord key j) % 65536)) % 65536
  ⟨p1k0, p1k1, p1k2, p1k3, (p1k4 + UInt32.ofNat i) % 65536⟩

/-- The first phase. -/
def mixP1k (key : Keytype) (ta : MacAddr) (pnh : ℕ) : MixWords :=
  let tsc0 := UInt32.ofNat ((pnh >>> 16) % 65536)
  let tsc1 := UInt32.ofNat (pnh % 65536)
  (List.range 8).foldl (mixRound key)
    ⟨tsc1, tsc0,
      (getElem ta 0 zero_lt_six).toUInt32 + (getElem ta 1 one_lt_six).toUInt32 * 256,
      (getElem ta 2 two_lt_six).toUInt32 + (getElem ta 3 three_lt_six).toUInt32 * 256,
      (getElem ta 4 four_lt_six).toUInt32 + (getElem ta 5 five_lt_six).toUInt32 * 256⟩

/-- The RC4 key and the words that the first phase leaves in `p1k`. -/
def rtmpTkipMixKey (key : Keytype) (ta : MacAddr) (pnl pnh : ℕ) : List UInt8 × MixWords :=
  let tsc2 := UInt32.ofNat (pnl % 65536)
  let p1k := mixP1k key ta pnh
  let ppk5 := (p1k.p1k4 + tsc2) % 65536
  let ppk0 := p1k.p1k0 + tkipSbox ((ppk5 ^^^ keyWord key 0) % 65536)
  let ppk1 := p1k.p1k1 + tkipSbox ((ppk0 ^^^ keyWord key 2) % 65536)
  let ppk2 := p1k.p1k2 + tkipSbox ((ppk1 ^^^ keyWord key 4) % 65536)
  let ppk3 := p1k.p1k3 + tkipSbox ((ppk2 ^^^ keyWord key 6) % 65536)
  let ppk4 := p1k.p1k4 + tkipSbox ((ppk3 ^^^ keyWord key 8) % 65536)
  let ppk5 := ppk5 + tkipSbox ((ppk4 ^^^ keyWord key 10) % 65536)
  let ppk0 := ppk0 + rotr1 (ppk5 ^^^ keyWord key 12)
  let ppk1 := ppk1 + rotr1 (ppk0 ^^^ keyWord key 14)
  let ppk2 := ppk2 + rotr1 ppk1
  let ppk3 := ppk3 + rotr1 ppk2
  let ppk4 := ppk4 + rotr1 ppk3
  let ppk5 := ppk5 + rotr1 ppk4
  ([((tsc2 >>> 8) % 256).toUInt8, (((tsc2 >>> 8) % 256 ||| 0x20) &&& 0x7f).toUInt8,
    (tsc2 % 256).toUInt8, (((ppk5 ^^^ keyWord key 0) >>> 1) % 256).toUInt8,
    (ppk0 % 256).toUInt8, ((ppk0 >>> 8) % 256).toUInt8,
    (ppk1 % 256).toUInt8, ((ppk1 >>> 8) % 256).toUInt8,
    (ppk2 % 256).toUInt8, ((ppk2 >>> 8) % 256).toUInt8,
    (ppk3 % 256).toUInt8, ((ppk3 >>> 8) % 256).toUInt8,
    (ppk4 % 256).toUInt8, ((ppk4 >>> 8) % 256).toUInt8,
    (ppk5 % 256).toUInt8, ((ppk5 >>> 8) % 256).toUInt8], p1k)

/-- The low halves of the words. -/
def MixWords.low (p1k : MixWords) : P1k :=
  ⟨p1k.p1k0.toUInt16, p1k.p1k1.toUInt16, p1k.p1k2.toUInt16, p1k.p1k3.toUInt16, p1k.p1k4.toUInt16⟩

set_option maxRecDepth 8000 in
/-- The two tables are the bytes of the words of the other two. -/
theorem tkipSbox_tables :
    List.zipWith (fun lower upper => (lower + upper * 256).toUInt16) tkipSboxLower.toList
      tkipSboxUpper.toList = sbox1Lo.toList ∧
    List.zipWith (fun upper lower => (upper + lower * 256).toUInt16) tkipSboxUpper.toList
      tkipSboxLower.toList = sbox1Hi.toList ∧
    tkipSboxLower.size = tkipSboxUpper.size := by
  decide

theorem mod_toUInt16 (a : UInt32) : (a % 65536).toUInt16 = a.toUInt16 := by
  apply UInt16.toNat_inj.mp
  simp

theorem low_eq_lo8 (a : UInt32) : (a % 256).toUInt8 = lo8 a.toUInt16 := by
  apply UInt8.toNat_inj.mp
  simp [lo8]

theorem high_eq_hi8 (a : UInt32) : ((a >>> 8) % 256).toUInt8 = hi8 a.toUInt16 := by
  apply UInt8.toNat_inj.mp
  simp [hi8, Nat.shiftRight_eq_div_pow]
  omega

theorem second_eq (a : UInt32) :
    (((a >>> 8) % 256 ||| 0x20) &&& 0x7f).toUInt8 = (hi8 a.toUInt16 ||| 0x20) &&& 0x7f := by
  rw [UInt32.toUInt8_and, UInt32.toUInt8_or, high_eq_hi8]
  rfl

theorem half_eq_lo8 (a : UInt32) : ((a >>> 1) % 256).toUInt8 = lo8 (a.toUInt16 >>> 1) := by
  apply UInt8.toNat_inj.mp
  simp [lo8, Nat.shiftRight_eq_div_pow]
  omega

/-- A word of the table at a byte of the index. -/
theorem getD_zipWith {f : UInt32 → UInt32 → UInt16} {a b : Array UInt32} {c : Array UInt16}
    (h : List.zipWith f a.toList b.toList = c.toList) (hf : f 0 0 = 0) (hab : a.size = b.size)
    (i : ℕ) : f (a.getD i 0) (b.getD i 0) = c.getD i 0 := by
  simp only [Array.getD_eq_getD_getElem?, ← Array.getElem?_toList, ← h, List.getElem?_zipWith]
  by_cases hi : i < a.size
  · have hi' : i < b.size := hab ▸ hi
    simp [hi, hi']
  · have hi' : ¬i < b.size := hab ▸ hi
    simp [hi, hi', hf]

theorem tkipSbox_toUInt16 (index : UInt32) : (tkipSbox index).toUInt16 = sboxS index.toUInt16 := by
  have hlow : (lo8 index.toUInt16).toNat = (index % 256).toNat := by
    simp [lo8]
  have hhigh : (hi8 index.toUInt16).toNat = ((index >>> 8) % 256).toNat := by
    simp [hi8, Nat.shiftRight_eq_div_pow]
    omega
  rw [tkipSbox, sboxS, hlow, hhigh, UInt32.toUInt16_xor,
    ← getD_zipWith tkipSbox_tables.1 rfl tkipSbox_tables.2.2,
    ← getD_zipWith tkipSbox_tables.2.1 rfl tkipSbox_tables.2.2.symm]

theorem rotr1_toUInt16 (a : UInt32) : (rotr1 a).toUInt16 = rotR1 a.toUInt16 := by
  have hbit : a &&& 1 = 1 ↔ a.toBitVec.getLsbD 0 = true := by
    rw [← UInt32.toNat_inj, UInt32.toNat_and, UInt32.toNat_one, Nat.and_one_is_mod,
      ← BitVec.testBit_toNat, Nat.testBit_zero, decide_eq_true_eq]
    rfl
  rw [rotr1, mod_toUInt16, rotR1]
  apply UInt16.toBitVec_inj.mp
  apply BitVec.eq_of_getLsbD_eq
  intro i hi
  split
  · rename_i hodd
    have hodd := hbit.mp hodd
    interval_cases i <;> simp [hodd]
  · rename_i heven
    have heven : a.toBitVec.getLsbD 0 = false := by
      rw [← Bool.not_eq_true, ← hbit]
      exact heven
    interval_cases i <;> simp
    exact heven

theorem word_toUInt16 (high low : UInt8) :
    (256 * high.toUInt32 + low.toUInt32).toUInt16 = mk16 high low := by
  have hhigh := high.toNat_lt
  have hlow := low.toNat_lt
  rw [← mk16_split (256 * high.toUInt32 + low.toUInt32).toUInt16]
  congr 1
  · apply UInt8.toNat_inj.mp
    simp [hi8, Nat.shiftRight_eq_div_pow]
    omega
  · apply UInt8.toNat_inj.mp
    simp [lo8]

theorem keyWord_toUInt16 (key : Keytype) (n : ℕ) :
    (keyWord key (2 * n)).toUInt16 = tk16 key n := word_toUInt16 _ _

theorem mixRound_low (key : Keytype) (p1k : MixWords) (i : ℕ) :
    (mixRound key p1k i).low = phase1Round sboxS key p1k.low i := by
  have hword (n : ℕ) :
      (keyWord key (4 * n + 2 * (i &&& 1))).toUInt16 = tk16 key (i % 2 + 2 * n) := by
    rw [← keyWord_toUInt16, Nat.and_one_is_mod]
    congr 2
    omega
  have hword0 := hword 0
  rw [Nat.mul_zero, Nat.zero_add] at hword0
  simp only [mixRound, phase1Round, MixWords.low, mod_toUInt16, UInt32.toUInt16_add,
    UInt32.toUInt16_xor, tkipSbox_toUInt16, hword0, hword 1, hword 2, hword 3,
    UInt32.toUInt16_ofNat']
  rfl

theorem mixRounds_low (key : Keytype) (p1k : MixWords) (rounds : List ℕ) :
    (rounds.foldl (mixRound key) p1k).low =
      rounds.foldl (phase1Round sboxS key) p1k.low := by
  induction rounds generalizing p1k with
  | nil => rfl
  | cons i rounds ih => rw [List.foldl_cons, List.foldl_cons, ih, mixRound_low]

theorem taWord_toUInt16 (low high : UInt8) :
    (low.toUInt32 + high.toUInt32 * 256).toUInt16 = mk16 high low := by
  rw [UInt32.add_comm, UInt32.mul_comm, word_toUInt16]

theorem mixP1k_low (key : Keytype) (ta : MacAddr) (pnh : UInt32) :
    (mixP1k key ta pnh.toNat).low = phase1 sboxS key ta pnh := by
  have hlow : (UInt32.ofNat (pnh.toNat % 65536)).toUInt16 = lo16 pnh := by
    apply UInt16.toNat_inj.mp
    simp [lo16]
  have hhigh : (UInt32.ofNat ((pnh.toNat >>> 16) % 65536)).toUInt16 = hi16 pnh := by
    apply UInt16.toNat_inj.mp
    simp [hi16]
  rw [mixP1k, mixRounds_low, phase1]
  simp only [MixWords.low, hlow, hhigh, taWord_toUInt16]

/-- The RC4 key is that of the mixing on 16-bit words. -/
theorem rtmpTkipMixKey_phase2 (key : Keytype) (ta : MacAddr) (pnl : UInt16) (pnh : UInt32) :
    (rtmpTkipMixKey key ta pnl.toNat pnh.toNat).1 =
      phase2 sboxS key (phase1 sboxS key ta pnh) pnl := by
  have htsc : (UInt32.ofNat (pnl.toNat % 65536)).toUInt16 = pnl := by
    apply UInt16.toNat_inj.mp
    simp
  have hp1k := mixP1k_low key ta pnh
  have hwords : (keyWord key 0).toUInt16 = tk16 key 0 ∧ (keyWord key 2).toUInt16 = tk16 key 1 ∧
      (keyWord key 4).toUInt16 = tk16 key 2 ∧ (keyWord key 6).toUInt16 = tk16 key 3 ∧
      (keyWord key 8).toUInt16 = tk16 key 4 ∧ (keyWord key 10).toUInt16 = tk16 key 5 ∧
      (keyWord key 12).toUInt16 = tk16 key 6 ∧ (keyWord key 14).toUInt16 = tk16 key 7 :=
    ⟨keyWord_toUInt16 key 0, keyWord_toUInt16 key 1, keyWord_toUInt16 key 2,
      keyWord_toUInt16 key 3, keyWord_toUInt16 key 4, keyWord_toUInt16 key 5,
      keyWord_toUInt16 key 6, keyWord_toUInt16 key 7⟩
  obtain ⟨hw0, hw1, hw2, hw3, hw4, hw5, hw6, hw7⟩ := hwords
  rw [rtmpTkipMixKey, ← hp1k]
  generalize mixP1k key ta pnh.toNat = p1k
  simp only [high_eq_hi8, second_eq, half_eq_lo8]
  simp only [low_eq_lo8, phase2, MixWords.low, UInt32.toUInt16_add, UInt32.toUInt16_xor,
    mod_toUInt16, tkipSbox_toUInt16, rotr1_toUInt16, htsc, hw0, hw1, hw2, hw3, hw4, hw5, hw6, hw7]
  rfl

end Rt5572

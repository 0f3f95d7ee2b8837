import StandaloneDrivers.Foundations.Bytes
import Mathlib.Logic.Function.Iterate

/-! The cyclic redundancy check CRC-32, bit by bit. -/
namespace Foundations.Crc32

/-- A bit enters the register at its top. -/
def step (reg : BitVec 32) (bit : Bool) : BitVec 32 :=
  (reg <<< 1) ^^^ if reg.msb ^^ bit then 0x04c11db7#32 else 0#32

/-- The bits of a byte in the order in which they are sent. -/
def byteBits (b : UInt8) : List Bool := (List.range 8).map b.toNat.testBit

/-- The complement of the register is sent from its top bit on. -/
def crc32 (message : List UInt8) : List UInt8 :=
  leBytes (~~~((message.flatMap byteBits).foldl step (BitVec.allOnes 32))).reverse

example : crc32 [0x31, 0x32, 0x33, 0x34, 0x35, 0x36, 0x37, 0x38, 0x39] =
    [0x26, 0x39, 0xf4, 0xcb] := by decide +kernel

/-- The step on the reversed register, without a bit. -/
def shift (c : BitVec 32) : BitVec 32 :=
  (c >>> 1) ^^^ if c.getLsbD 0 then 0xedb88320#32 else 0#32

theorem reverse_xor (a b : BitVec 32) : (a ^^^ b).reverse = a.reverse ^^^ b.reverse := by
  ext i hi
  simp [BitVec.getElem_reverse]

theorem reverse_shiftLeft (a : BitVec 32) : (a <<< 1).reverse = a.reverse >>> 1 := by
  ext i hi
  simp [BitVec.getElem_reverse, BitVec.getLsbD_reverse, Nat.add_comm]

/-- The bit that enters, where the reversed register has its lowest bit. -/
def bitWord (bit : Bool) : BitVec 32 := if bit then 1#32 else 0#32

theorem reverse_step (reg : BitVec 32) (bit : Bool) :
    (step reg bit).reverse = shift (reg.reverse ^^^ bitWord bit) := by
  have hlow : reg.reverse.getLsbD 0 = reg.msb := BitVec.getLsbD_reverse
  have hone : (1#32 >>> 1) = 0#32 := rfl
  have hpoly : (0x04c11db7#32).reverse = 0xedb88320#32 := by decide +kernel
  have hzero : (0#32).reverse = 0#32 := by decide +kernel
  simp only [step, shift, bitWord, reverse_xor, reverse_shiftLeft, BitVec.getLsbD_xor, hlow,
    BitVec.ushiftRight_xor_distrib]
  cases reg.msb <;> cases bit <;> simp [hpoly, hone, hzero]

theorem shift_xor (a b : BitVec 32) : shift (a ^^^ b) = shift a ^^^ shift b := by
  have hcancel (x y p : BitVec 32) : x ^^^ y = x ^^^ p ^^^ (y ^^^ p) := by
    rw [BitVec.xor_assoc, BitVec.xor_comm y, ← BitVec.xor_assoc p, BitVec.xor_self,
      BitVec.zero_xor]
  simp only [shift, BitVec.getLsbD_xor, BitVec.ushiftRight_xor_distrib]
  cases a.getLsbD 0 <;> cases b.getLsbD 0 <;> simp
  · ac_rfl
  · ac_rfl
  · exact hcancel _ _ _

theorem shift_iterate_xor (n : ℕ) (a b : BitVec 32) :
    shift^[n] (a ^^^ b) = shift^[n] a ^^^ shift^[n] b := by
  induction n generalizing a b with
  | zero => rfl
  | succ n ih =>
    simp only [Function.iterate_succ_apply, shift_xor, ih]

/-- The bits that enter are added to what the register becomes by itself. -/
theorem foldl_shift (bits : List Bool) (a c : BitVec 32) :
    bits.foldl (fun c bit => shift (c ^^^ bitWord bit)) (a ^^^ c) =
      shift^[bits.length] a ^^^ bits.foldl (fun c bit => shift (c ^^^ bitWord bit)) c := by
  induction bits generalizing a c with
  | nil => rfl
  | cons bit bits ih =>
    rw [List.foldl_cons, BitVec.xor_assoc, shift_xor, ih]
    rfl

theorem reverse_foldl (bits : List Bool) (reg : BitVec 32) :
    (bits.foldl step reg).reverse =
      bits.foldl (fun c bit => shift (c ^^^ bitWord bit)) reg.reverse := by
  induction bits generalizing reg with
  | nil => rfl
  | cons bit bits ih => rw [List.foldl_cons, ih, reverse_step, List.foldl_cons]

/-- A register with its lowest bits clear only moves. -/
theorem shift_iterate_high {a : BitVec 32} {n : ℕ} (h : ∀ i < n, a.getLsbD i = false) :
    shift^[n] a = a >>> n := by
  induction n with
  | zero => simp
  | succ n ih =>
    have hbit : (a >>> n).getLsbD 0 = false := by
      rw [BitVec.getLsbD_ushiftRight]
      exact h n (Nat.lt_succ_self n)
    rw [Function.iterate_succ_apply', ih fun i hi => h i (Nat.lt_succ_of_lt hi), shift, hbit,
      ← BitVec.shiftRight_add]
    simp

/-- The lowest byte of a word. -/
def lowByte (c : BitVec 32) : UInt8 := ⟨c.setWidth 8⟩

def ofByte (b : UInt8) : BitVec 32 := b.toBitVec.setWidth 32

/-- Eight shifts: those of the lowest byte, and the others moved down. -/
theorem shift_eight (c : BitVec 32) : shift^[8] c = shift^[8] (ofByte (lowByte c)) ^^^ c >>> 8 := by
  have hsplit : c = ofByte (lowByte c) ^^^ ((c >>> 8) <<< 8) := by
    ext i hi
    simp [ofByte, lowByte]
    grind
  have hhigh : ((c >>> 8) <<< 8) >>> 8 = c >>> 8 := by
    ext i hi
    simp
    grind
  have hclear : ∀ i < 8, ((c >>> 8) <<< 8).getLsbD i = false := by
    intro i hi
    simp [hi]
  conv_lhs => rw [hsplit]
  rw [shift_iterate_xor, shift_iterate_high hclear, hhigh]

theorem byteBits_shift (b : UInt8) :
    (byteBits b).foldl (fun c bit => shift (c ^^^ bitWord bit)) 0#32 = shift^[8] (ofByte b) := by
  apply byte_cases (p := fun b => (byteBits b).foldl (fun c bit => shift (c ^^^ bitWord bit)) 0#32 =
    shift^[8] (ofByte b))
  decide +kernel

/-- The bits of a byte, all at once. -/
theorem reverse_byte (reg : BitVec 32) (b : UInt8) :
    ((byteBits b).foldl step reg).reverse =
      shift^[8] (ofByte (lowByte (reg.reverse ^^^ ofByte b))) ^^^ reg.reverse >>> 8 := by
  have hlength : (byteBits b).length = 8 := rfl
  have hclear : ofByte b >>> 8 = 0#32 := by
    ext i hi
    simp [ofByte]
  have hfold := foldl_shift (byteBits b) reg.reverse 0#32
  rw [BitVec.xor_zero, hlength, byteBits_shift, ← shift_iterate_xor, shift_eight,
    BitVec.ushiftRight_xor_distrib, hclear, BitVec.xor_zero] at hfold
  rw [reverse_foldl, hfold]

end Foundations.Crc32

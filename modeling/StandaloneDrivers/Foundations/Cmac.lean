import StandaloneDrivers.Foundations.BinaryField
import StandaloneDrivers.Foundations.CipherModes

/-! The code of a message from a block cipher, with subkeys for the last block. -/
namespace Foundations.Cmac

/-- The 128 bits of a block; the highest is the first bit of the first byte. -/
def blockBits (b : CipherBlock) : BitVec 128 :=
  (BitVec.ofBoolListLE (List.ofFn fun i : Fin 128 =>
    b[15 - i.val / 8].toBitVec.getLsbD (i.val % 8))).setWidth 128

/-- The bytes of 128 bits. -/
def bitsBlock (x : BitVec 128) : CipherBlock :=
  Vector.ofFn fun i => ⟨x.extractLsb' (8 * (15 - i.val)) 8⟩

theorem blockBits_getLsbD (b : CipherBlock) {i : ℕ} (hi : i < 128) :
    (blockBits b).getLsbD i = b[15 - i / 8].toBitVec.getLsbD (i % 8) := by
  rw [blockBits, BitVec.getLsbD_setWidth, decide_eq_true hi, Bool.true_and,
    BitVec.getLsbD_ofBoolListLE, List.getD_eq_getElem _ _ (by rwa [List.length_ofFn]),
    List.getElem_ofFn]

theorem blockBits_bitsBlock (x : BitVec 128) : blockBits (bitsBlock x) = x := by
  apply BitVec.eq_of_getLsbD_eq
  intro i hi
  rw [blockBits_getLsbD _ hi]
  have hplace : 8 * (15 - (15 - i / 8)) + i % 8 = i := by omega
  simp only [bitsBlock, Vector.getElem_ofFn, BitVec.getLsbD_extractLsb', hplace]
  rw [decide_eq_true (Nat.mod_lt i (by decide)), Bool.true_and]

theorem blockBits_injective : Function.Injective blockBits := by
  intro a b h
  apply Vector.ext
  intro i hi
  apply UInt8.toBitVec_inj.mp
  apply BitVec.eq_of_getLsbD_eq
  intro j hj
  have hbit := congrArg (BitVec.getLsbD · (8 * (15 - i) + j)) h
  have hbyte : 15 - (8 * (15 - i) + j) / 8 = i := by omega
  have hmod : (8 * (15 - i) + j) % 8 = j := by omega
  simp only [blockBits_getLsbD _ (show 8 * (15 - i) + j < 128 by omega), hbyte, hmod] at hbit
  exact hbit

/-- The coefficients of `X ^ 7 + X ^ 2 + X + 1`. -/
def reduction : BitVec 128 := 0x87#128

/-- The product with `X` in the field of `2 ^ 128` elements. -/
def double (b : CipherBlock) : CipherBlock :=
  bitsBlock (BinaryField.double reduction (blockBits b))

/-- A block as an element of the field. -/
noncomputable def toField (b : CipherBlock) : AdjoinRoot (BinaryField.modulus reduction) :=
  BinaryField.toRing reduction (blockBits b)

theorem toField_injective : Function.Injective toField :=
  (BinaryField.toRing_injective reduction).comp blockBits_injective

theorem toField_double (b : CipherBlock) :
    toField (double b) = AdjoinRoot.root (BinaryField.modulus reduction) * toField b := by
  rw [toField, double, blockBits_bitsBlock, BinaryField.toRing_double]
  rfl

variable (E : CipherBlock → CipherBlock)

def subKey1 : CipherBlock := double (E (Vector.replicate 16 0))

def subKey2 : CipherBlock := double (subKey1 E)

/-- The number of blocks of a message, of which there is always a last one. -/
def blockCount (n : ℕ) : ℕ := max 1 ((n + 15) / 16)

/-- The last block: added to the first subkey where it is complete, else padded with one bit and
added to the second. -/
def lastBlock (last : List UInt8) : CipherBlock :=
  if last.length = 16 then xorBlock (padBlock last) (subKey1 E)
  else xorBlock (padBlock (last ++ [0x80])) (subKey2 E)

def mac (text : List UInt8) : CipherBlock :=
  let front := 16 * (blockCount text.length - 1)
  chain E (Vector.replicate 16 0)
    (blocksOf (text.take front) ++ [lastBlock E (text.drop front)])

end Foundations.Cmac

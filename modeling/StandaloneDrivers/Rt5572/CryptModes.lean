import StandaloneDrivers.Foundations.KeyWrap
import StandaloneDrivers.Foundations.Memory
import StandaloneDrivers.Rt5572.CryptAes

/-! The modes of crypt_aes.c: CCM, the message code with two subkeys, CBC and the key wrap. -/
namespace Rt5572
open Foundations

/-- A block enciphered; where the key is refused the output block keeps its zeroes. -/
def cipherBlock (key : List UInt8) (block : CipherBlock) : CipherBlock :=
  (rtAesEncrypt block key).getD (Vector.replicate 16 0)

/-- The values that are returned for a failure, from -1 to -5. -/
inductive CcmError where
  | keyLength
  | nonceLength
  | macLength
  | textLength
  | micMismatch
  deriving DecidableEq, Repr

/-- What a CCM message is protected with. -/
structure CcmParams where
  key : List UInt8
  nonce : List UInt8
  aad : List UInt8
  macLength : ℕ
  deriving DecidableEq, Repr

namespace CcmParams
variable (p : CcmParams)

def cipher : CipherBlock → CipherBlock := cipherBlock p.key

/-- The bits of `Block[0]`: whether there is associated data, the length of the code, and that of
the length field. -/
def macFlags : UInt8 :=
  (if 0 < p.aad.length then 0x40 else 0) ||| UInt8.ofNat ((p.macLength - 2) / 2 * 8) |||
    UInt8.ofNat (15 - p.nonce.length - 1)

/-- The first block: flags, nonce, and the length behind it. -/
def controlBlock (payloadLength : ℕ) : CipherBlock :=
  Vector.ofFn fun i =>
    if i.val = 15 then UInt8.ofNat payloadLength
    else if i.val = 14 then UInt8.ofNat (payloadLength / 256)
    else if i.val = 13 ∧ p.nonce.length < 13 then UInt8.ofNat (payloadLength / 65536)
    else if i.val = 12 ∧ p.nonce.length < 12 then UInt8.ofNat (payloadLength / 16777216)
    else (p.macFlags :: p.nonce).getD i 0

/-- The length of the associated data, in two bytes or in six; the `ff fe` in front of a long one
is left zero. -/
def aadHead : List UInt8 :=
  let n := p.aad.length
  if 0 < n ∧ n < 0xff00 then [UInt8.ofNat (n / 256), UInt8.ofNat n]
  else [0, 0, UInt8.ofNat (n / 16777216), UInt8.ofNat (n / 65536), UInt8.ofNat (n / 256),
    UInt8.ofNat n]

/-- Without associated data its loop does not run. -/
def aadBlocks : List CipherBlock := if p.aad = [] then [] else blocksOf (p.aadHead ++ p.aad)

def aesCcmMac (payload : List UInt8) : List UInt8 :=
  let blockMac := p.cipher (p.controlBlock payload.length)
  let blockMac := chain p.cipher blockMac p.aadBlocks
  (chain p.cipher blockMac (blocksOf payload)).toList.take p.macLength

/-- `Block_CTR` -/
def counterBlock : CipherBlock :=
  padBlock (UInt8.ofNat (15 - p.nonce.length - 1) :: p.nonce)

/-- A round of the loop over the text: the counter is a byte. -/
def cipherRound (text : List UInt8) (s : CipherBlock × List UInt8) (i : ℕ) :
    CipherBlock × List UInt8 :=
  let blockCtr := s.1.set 15 (getElem s.1 15 fifteen_lt_sixteen + 1) fifteen_lt_sixteen
  (blockCtr, s.2 ++ xorBytes (slice text (16 * i) 16) (p.cipher blockCtr).toList)

/-- The text after its loop; it may be written over the text that is read, or some bytes before. -/
def cipherText (text : List UInt8) : List UInt8 :=
  ((List.range ((text.length + 15) / 16)).foldl (p.cipherRound text) (p.counterBlock, [])).2

/-- A code under the counter block that was not counted up. -/
def maskMac (mac : List UInt8) : List UInt8 := xorBytes mac (p.cipher p.counterBlock).toList

/-- The checks that both directions make, in their order. -/
def checkInput : Except CcmError Unit :=
  if p.key.length ≠ 16 then .error .keyLength
  else if p.nonce.length < 7 ∨ p.nonce.length > 13 then .error .nonceLength
  else if p.macLength ∉ [4, 6, 8, 10, 12, 14, 16] then .error .macLength
  else .ok ()

def aesCcmEncrypt (plainText : List UInt8) (cipherTextLength : ℕ) :
    Except CcmError (List UInt8) := do
  p.checkInput
  if cipherTextLength < (plainText.length + p.macLength) % 2 ^ 32 then throw .textLength
  return p.cipherText plainText ++ p.maskMac (p.aesCcmMac plainText)

/-- `AES_CCM_Decrypt`; the length of the text is an unsigned difference. -/
def aesCcmDecrypt (cipherText : List UInt8) (plainTextLength : ℕ) :
    Except CcmError (List UInt8) := do
  p.checkInput
  let n := (cipherText.length + 2 ^ 32 - p.macLength) % 2 ^ 32
  if plainTextLength < n then throw .textLength
  let blockMacFromCipher := p.maskMac (slice cipherText n p.macLength)
  let plainText := p.cipherText (cipherText.take n)
  if blockMacFromCipher ≠ p.aesCcmMac plainText then throw .micMismatch
  return plainText

end CcmParams

/-! The message code of crypt_aes.c with two subkeys. -/

def constRb : CipherBlock := #v[0, 0, 0, 0, 0, 0, 0, 0, 0, 0, 0, 0, 0, 0, 0, 0x87]

/-- `Top_Bit` -/
def topBit (a : UInt8) : UInt8 := if a &&& 0x80 ≠ 0 then 1 else 0

def byteOf (b : CipherBlock) (i : ℕ) : UInt8 := b.toList.getD i 0

/-- The byte at an index, one bit to the left, with the top bit of the next one. -/
def shiftedByte (b : CipherBlock) (index : ℕ) : UInt8 :=
  byteOf b index <<< 1 ||| topBit (byteOf b (index + 1))

/-- The first subkey is shifted where it stands. -/
def shiftInPlace (subKey1 : CipherBlock) : CipherBlock :=
  let s := (List.range 15).foldl (fun s index => s.setIfInBounds index (shiftedByte s index)) subKey1
  s.set 15 (getElem s 15 fifteen_lt_sixteen <<< 1) fifteen_lt_sixteen

/-- The second one is written over what `SubKey2` holds. -/
def shiftInto (subKey2 subKey1 : CipherBlock) : CipherBlock :=
  let s := (List.range 15).foldl
    (fun s index => s.setIfInBounds index (shiftedByte subKey1 index)) subKey2
  s.set 15 (getElem subKey1 15 fifteen_lt_sixteen <<< 1) fifteen_lt_sixteen

/-- `AES_CMAC_GenerateSubKey`, over what the two subkeys hold before. -/
def aesCmacGenerateSubKey (key : List UInt8) (subKey1 subKey2 : CipherBlock) :
    CipherBlock × CipherBlock :=
  if key.length ≠ 16 then (subKey1, subKey2)
  else
    let subKey1 := (rtAesEncrypt (Vector.replicate 16 0) key).getD subKey1
    let msbL := getElem subKey1 0 zero_lt_sixteen &&& 0x80
    let subKey1 := shiftInPlace subKey1
    let subKey1 := if msbL > 0 then xorBlock subKey1 constRb else subKey1
    let msbK1 := getElem subKey1 0 zero_lt_sixteen &&& 0x80
    let subKey2 := shiftInto subKey2 subKey1
    let subKey2 := if msbK1 > 0 then xorBlock subKey2 constRb else subKey2
    (subKey1, subKey2)

/-- The loop over the blocks in front of the last one: where it ends, and `X`. -/
def cmacLoop (key plainText : List UInt8) (plainBlockStart : ℕ) (x : CipherBlock) :
    ℕ × CipherBlock :=
  if plainText.length - plainBlockStart > 16 then
    let y := xorBlock (padBlock (slice plainText plainBlockStart 16)) x
    cmacLoop key plainText (plainBlockStart + 16) ((rtAesEncrypt y key).getD x)
  else (plainBlockStart, x)
termination_by plainText.length - plainBlockStart

/-- `AES_CMAC`; where a length is not accepted, nothing is written. -/
def aesCmac (plainText key : List UInt8) (macTextLength : ℕ) : Option CipherBlock :=
  if macTextLength < 16 then none
  else if key.length ≠ 16 then none
  else
    let (subKey1, subKey2) :=
      aesCmacGenerateSubKey key (Vector.replicate 16 0) (Vector.replicate 16 0)
    let (plainBlockStart, x) := cmacLoop key plainText 0 (Vector.replicate 16 0)
    let last := plainText.drop plainBlockStart
    let y :=
      if plainText.length - plainBlockStart = 16 then
        xorBlock (xorBlock (padBlock last) x) subKey1
      else xorBlock (xorBlock (padBlock (last ++ [0x80])) x) subKey2
    rtAesEncrypt y key

/-! The CBC mode of crypt_aes.c. The plain text is the memory from the address that the caller
gives. -/

/-- What the next block is added to. -/
def cbcPrevious (iv cipherText : List UInt8) : CipherBlock :=
  if cipherText.length = 0 then padBlock iv else padBlock (cipherText.drop (cipherText.length - 16))

/-- The loop over whole blocks: where the rest of the text starts, and the ciphertext. -/
def cbcEncryptLoop (key iv plainText : List UInt8) (plainBlockStart : ℕ)
    (cipherText : List UInt8) : ℕ × List UInt8 :=
  if plainText.length - plainBlockStart ≥ 16 then
    let block := xorBlock (padBlock (slice plainText plainBlockStart 16))
      (cbcPrevious iv cipherText)
    cbcEncryptLoop key iv plainText (plainBlockStart + 16)
      (cipherText ++ (cipherBlock key block).toList)
  else (plainBlockStart, cipherText)
termination_by plainText.length - plainBlockStart

/-- `AES_CBC_Encrypt`; where a length is not accepted, nothing is written. -/
def aesCbcEncrypt (plainText key iv : List UInt8) (cipherTextLength : ℕ) : Option (List UInt8) :=
  let paddingSize := 16 - plainText.length % 16
  if cipherTextLength < (plainText.length + paddingSize) % 2 ^ 32 then none
  else if aesKeyLength key.length = false then none
  else if iv.length ≠ 16 then none
  else
    let (plainBlockStart, cipherText) := cbcEncryptLoop key iv plainText 0 []
    let block := padBlock (plainText.drop plainBlockStart ++
      List.replicate paddingSize (UInt8.ofNat paddingSize))
    let block := xorBlock block (cbcPrevious iv cipherText)
    some (cipherText ++ (cipherBlock key block).toList)

/-- The difference of two `UINT`. -/
def uintSub (a b : ℕ) : ℕ := (a + 2 ^ 32 - b) % 2 ^ 32

theorem uintSub_le {a b : ℕ} (hle : b ≤ a) (ha : a < 2 ^ 32) : uintSub a b = a - b := by
  have hsub : a + 2 ^ 32 - b = a - b + 2 ^ 32 := by omega
  rw [uintSub, hsub, Nat.add_mod_right, Nat.mod_eq_of_lt (by omega)]

/-- Below zero the difference is larger than what it was taken from. -/
theorem uintSub_gt {a b : ℕ} (hlt : a < b) : uintSub a b = a + 2 ^ 32 - b := by
  rw [uintSub, Nat.mod_eq_of_lt (by omega)]

/-- `RT_AES_Decrypt` into the plain text: the block, or what is left of it, and `PlainBlockSize`. -/
def decryptInto (block : CipherBlock) (key : List UInt8) (plainText : Memory)
    (plainBlockStart plainBlockSize : ℕ) : Memory × ℕ :=
  match rtAesDecrypt block key plainBlockSize with
  | some plainBlock => (plainText.write plainBlockStart plainBlock.toList, 16)
  | none => (plainText, plainBlockSize)

/-- A round of the loop over the ciphertext: the plain text, and `PlainBlockStart`. Where too little
is left of the length for a block, the block stays as it is. -/
def cbcDecryptRound (cipherText key iv : List UInt8) (plainTextLength : ℕ) (s : Memory × ℕ)
    (i : ℕ) : Memory × ℕ :=
  let cipherBlockStart := 16 * i
  let opened := decryptInto (padBlock (slice cipherText cipherBlockStart 16)) key s.1 s.2
    (uintSub plainTextLength s.2)
  let previous := if s.2 = 0 then iv else slice cipherText (cipherBlockStart - 16) 16
  (opened.1.write s.2 (xorBytes (opened.1.read s.2 16) previous), s.2 + opened.2)

/-- `AES_CBC_Decrypt`: the plain text, and `*PlainTextLength`. -/
def aesCbcDecrypt (cipherText key iv : List UInt8) (plainText : Memory) (plainTextLength : ℕ) :
    Memory × ℕ :=
  if cipherText.length % 16 ≠ 0 then (plainText, plainTextLength)
  else if aesKeyLength key.length = false then (plainText, plainTextLength)
  else if iv.length ≠ 16 then (plainText, plainTextLength)
  else
    let s := (List.range (cipherText.length / 16)).foldl
      (cbcDecryptRound cipherText key iv plainTextLength) (plainText, 0)
    let paddingSize := (s.1 (uintSub s.2 1)).toNat
    (s.1, uintSub s.2 paddingSize)

/-! The key wrap of crypt_aes.c. -/

def defaultIv : Vector UInt8 8 := #v[0xa6, 0xa6, 0xa6, 0xa6, 0xa6, 0xa6, 0xa6, 0xa6]

/-- The values that are returned for a failure, -1 and -2. -/
inductive KeyWrapError where
  | keyLength
  | memory
  deriving DecidableEq, Repr

/-- `IV` and `pResult` -/
abbrev KeyWrapState : Type := Vector UInt8 8 × List UInt8

/-- The number of a step, of which a byte is added to the last byte of the register. -/
def stepNumber (numberOfBlock indexJ indexI : ℕ) : UInt8 :=
  UInt8.ofNat (numberOfBlock * indexJ + indexI + 1)

def keyWrapStep (key : List UInt8) (numberOfBlock indexJ : ℕ) (s : KeyWrapState) (indexI : ℕ) :
    KeyWrapState :=
  let blockB := cipherBlock key (padBlock (s.1.toList ++ field s.2 (8 * indexI) 8))
  let iv := (KeyWrap.high blockB).set 7
    (getElem blockB 7 seven_lt_sixteen ^^^ stepNumber numberOfBlock indexJ indexI) seven_lt_eight
  (iv, overwrite s.2 (8 * indexI) (KeyWrap.low blockB).toList)

/-- `AES_Key_Wrap`; `allocated` says whether there is memory for the result. -/
def aesKeyWrap (plainText key : List UInt8) (allocated : Bool) :
    Except KeyWrapError (List UInt8) :=
  if aesKeyLength key.length = false then .error .keyLength
  else if allocated = false then .error .memory
  else
    let numberOfBlock := plainText.length / 8
    let s := (List.range 6).foldl (fun s indexJ =>
      (List.range numberOfBlock).foldl (keyWrapStep key numberOfBlock indexJ) s)
      (defaultIv, plainText)
    .ok (s.1.toList ++ s.2)

def keyUnwrapStep (key : List UInt8) (numberOfBlock indexJ : ℕ) (s : KeyWrapState) (indexI : ℕ) :
    KeyWrapState :=
  let iv := s.1.set 7
    (getElem s.1 7 seven_lt_eight ^^^ stepNumber numberOfBlock indexJ indexI) seven_lt_eight
  let blockB := plainBlock key (padBlock (iv.toList ++ field s.2 (8 * indexI) 8))
  (KeyWrap.high blockB, overwrite s.2 (8 * indexI) (KeyWrap.low blockB).toList)

/-- `IV` and `pResult` after the passes. -/
def keyUnwrapPasses (cipherText key : List UInt8) : KeyWrapState :=
  let plainLength := uintSub cipherText.length 8
  let numberOfBlock := plainLength / 8
  (List.range 6).reverse.foldl (fun s indexJ =>
    (List.range numberOfBlock).reverse.foldl (keyUnwrapStep key numberOfBlock indexJ) s)
    (Vector.ofFn fun i => cipherText.getD i.val 0, field cipherText 8 plainLength)

/-- `AES_Key_Unwrap`; the register is not compared with anything. -/
def aesKeyUnwrap (cipherText key : List UInt8) (allocated : Bool) :
    Except KeyWrapError (List UInt8) :=
  if aesKeyLength key.length = false then .error .keyLength
  else if allocated = false then .error .memory
  else .ok (keyUnwrapPasses cipherText key).2

end Rt5572

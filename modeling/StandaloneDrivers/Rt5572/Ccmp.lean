import StandaloneDrivers.Rt5572.CryptModes
import StandaloneDrivers.Rtl8188eu.Aes

/-! Software encryption and decryption of CCMP frames (cmm_aes.c). A decryption is given the whole
frame, or its header and what follows it. -/
namespace Rt5572
open Foundations

/-- `CIPHER_KEY` -/
structure CipherKey where
  key : CipherBlock
  keyLen : ℕ
  deriving DecidableEq, Repr

section Header
variable (hdr : List UInt8)

def frameType : UInt8 := (hdr.getD 0 0 >>> 2) &&& 0x03

def frameSubtype : UInt8 := (hdr.getD 0 0 >>> 4) &&& 0x0f

/-- `from_ds & to_ds` -/
def a4Exists : Bool :=
  let fromDs := (hdr.getD 1 0 &&& 0x02) >>> 1
  let toDs := hdr.getD 1 0 &&& 0x01
  fromDs &&& toDs == 1

def qosSubtype : Bool := [0x08, 0x09, 0x0a, 0x0b].contains (frameSubtype hdr)

def isDataFrame : Bool := frameType hdr == 2

/-- The place of the QoS field. -/
def qosOffset (a4 : Bool) : ℕ := if a4 then 30 else 24

/-- The priority in the nonce, zero without a QoS field. -/
def qosTid (a4 qc : Bool) : UInt8 := if qc then hdr.getD (qosOffset a4) 0 &&& 0x0f else 0

def rtmpConstructCCMPAAD (isDataFrame a4 qc : Bool) : List UInt8 :=
  [if isDataFrame then hdr.getD 0 0 &&& 0x8f else hdr.getD 0 0,
    (hdr.getD 1 0 &&& 0xc7) ||| 0x40] ++ field hdr 4 18 ++ [hdr.getD 22 0 &&& 0x0f, 0] ++
    (if a4 then field hdr 24 6 else []) ++
    if qc then [hdr.getD (qosOffset a4) 0 &&& 0x0f, 0] else []

/-- The address of the transmitter and the packet number, its highest byte first. -/
def nonceTail (pn : List UInt8) : List UInt8 :=
  field hdr 10 6 ++ (List.range 6).map fun i => pn.getD (5 - i) 0

def rtmpConstructCCMPNonce (a4 qc : Bool) (pn : List UInt8) : List UInt8 :=
  qosTid hdr a4 qc :: nonceTail hdr pn

end Header

def rtmpConstructCCMPHdr (keyIdx : UInt8) (pn : List UInt8) : List UInt8 :=
  [pn.getD 0 0, pn.getD 1 0, 0, (keyIdx <<< 6) ||| 0x20, pn.getD 2 0, pn.getD 3 0, pn.getD 4 0,
    pn.getD 5 0]

/-- The packet number of a CCMP header. -/
def ccmpPn (ccmpHdr : List UInt8) : List UInt8 :=
  [0, 1, 4, 5, 6, 7].map fun i => ccmpHdr.getD i 0

/-- What the generic mode is given for a frame. -/
def ccmpParams (key : CipherBlock) (hdr pn : List UInt8) : CcmParams :=
  let a4 := a4Exists hdr
  let qc := isDataFrame hdr && qosSubtype hdr
  { key := key.toList
    nonce := rtmpConstructCCMPNonce hdr a4 qc pn
    aad := rtmpConstructCCMPAAD hdr (isDataFrame hdr) a4 qc
    macLength := 8 }

def rtmpSoftEncryptCCMP (hdr pn : List UInt8) (key : CipherBlock) (data : List UInt8) :
    Option (List UInt8) :=
  ((ccmpParams key hdr pn).aesCcmEncrypt data (data.length + 8)).toOption

/-- The data behind a header, decrypted. -/
def rtmpSoftDecryptCCMP (hdr : List UInt8) (key : CipherKey) (data : List UInt8) :
    Option (List UInt8) :=
  if key.keyLen = 0 then none
  else if data.length ≤ 8 then none
  else ((ccmpParams key.key hdr (ccmpPn data)).aesCcmDecrypt (data.drop 8) data.length).toOption

/-- `aes128k128d` of this driver is the same text as that of the other one. -/
def aes128k128d (key data : CipherBlock) : CipherBlock := Rtl8188eu.aes128k128d key data

/-- The two blocks with a nonce: flags, priority, nonce, and a number in two bytes. -/
def nonceBlock (flags : UInt8) (mpdu : List UInt8) (a4 qc : Bool) (pn : List UInt8) (n : ℕ) :
    CipherBlock :=
  padBlock ([flags, qosTid mpdu a4 qc] ++ nonceTail mpdu pn ++
    [UInt8.ofNat (n / 256), UInt8.ofNat (n % 256)])

def constructMicIv (mpdu : List UInt8) (a4 qc : Bool) (pn : List UInt8) (payloadLength : ℕ) :
    CipherBlock := nonceBlock 0x59 mpdu a4 qc pn payloadLength

def constructCtrPreload (mpdu : List UInt8) (a4 qc : Bool) (pn : List UInt8) (c : ℕ) :
    CipherBlock := nonceBlock 0x01 mpdu a4 qc pn c

def constructMicHeader1 (headerLength : ℕ) (mpdu : List UInt8) : CipherBlock :=
  padBlock ([UInt8.ofNat ((headerLength - 2) / 256), UInt8.ofNat ((headerLength - 2) % 256),
    mpdu.getD 0 0 &&& 0xcf, mpdu.getD 1 0 &&& 0xc7] ++ field mpdu 4 12)

def constructMicHeader2 (mpdu : List UInt8) (a4 qc : Bool) : CipherBlock :=
  padBlock (field mpdu 16 6 ++ [mpdu.getD 22 0 &&& 0x0f, 0x00] ++
    (if a4 then field mpdu 24 6 else []) ++
    if qc then [mpdu.getD (qosOffset a4) 0 &&& 0x0f, 0x00] else [])

def ccmpHeaderLen (a4 qc : Bool) : ℕ := 24 + (if a4 then 6 else 0) + if qc then 2 else 0

/-- A block of at most 16 bytes is deciphered, to a place eight bytes in front of its own. -/
def openBlock (key : CipherBlock) (a4 qc : Bool) (pn : List UInt8) (n : ℕ) (pData : List UInt8)
    (payloadIndex c : ℕ) : List UInt8 :=
  let aesOut := aes128k128d key (constructCtrPreload pData a4 qc pn c)
  let chainBuffer := xorBlock aesOut (padBlock (slice pData payloadIndex n))
  overwrite pData (payloadIndex - 8) (chainBuffer.toList.take n)

/-- The payload moved over the CCMP header as it is deciphered. -/
def openPayload (key : CipherBlock) (a4 qc : Bool) (pn : List UInt8) (payloadLen : ℕ)
    (pData : List UInt8) : List UInt8 :=
  let start := ccmpHeaderLen a4 qc + 8
  let numBlocks := payloadLen / 16
  let payloadRemainder := payloadLen % 16
  let pData := (List.range numBlocks).foldl
    (fun pData i => openBlock key a4 qc pn 16 pData (start + 16 * i) (i + 1)) pData
  if 0 < payloadRemainder then
    openBlock key a4 qc pn payloadRemainder pData (start + 16 * numBlocks) (numBlocks + 1)
  else pData

/-- `MIC`, over the header and the payload that stands right behind it. -/
def frameMic (key : CipherBlock) (a4 qc : Bool) (pn : List UInt8) (payloadLen : ℕ)
    (pData : List UInt8) : List UInt8 :=
  let headerLen := ccmpHeaderLen a4 qc
  let aesOut := aes128k128d key (constructMicIv pData a4 qc pn payloadLen)
  (chain (aes128k128d key) aesOut (constructMicHeader1 headerLen pData ::
    constructMicHeader2 pData a4 qc :: blocksOf (field pData headerLen payloadLen))).toList.take 8

/-- The result, and the frame as it is left; its payload stands right behind the header then. -/
def rtmpSoftDecryptAES (key : CipherKey) (pData : List UInt8) (dataByteCnt : ℕ) :
    Bool × List UInt8 :=
  let a4 := a4Exists pData
  let qc := qosSubtype pData
  let headerLen := ccmpHeaderLen a4 qc
  if key.keyLen = 0 then (false, pData)
  else
    let pn := ccmpPn (pData.drop headerLen)
    let payloadLen := (dataByteCnt + 2 ^ 32 - headerLen - 8 - 8) % 2 ^ 32
    let pData := openPayload key.key a4 qc pn payloadLen pData
    let trailMic := xorBytes (field pData (headerLen + 8 + payloadLen) 8)
      (aes128k128d key.key (constructCtrPreload pData a4 qc pn 0)).toList
    -- The protected frame bit is forced on before the code is computed.
    let pData := pData.set 1 (pData.getD 1 0 ||| 0x40)
    (frameMic key.key a4 qc pn payloadLen pData == trailMic, pData)

end Rt5572

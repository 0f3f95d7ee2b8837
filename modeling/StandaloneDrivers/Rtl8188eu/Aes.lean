import StandaloneDrivers.Rtl8188eu.RecvFrame

/-! The block cipher and the CCM mode of frames (rtw_security.c). -/
namespace Rtl8188eu
open Foundations

def sboxTable : Array UInt8 := #[
    0x63, 0x7c, 0x77, 0x7b, 0xf2, 0x6b, 0x6f, 0xc5, 0x30, 0x01, 0x67, 0x2b, 0xfe, 0xd7,
    0xab, 0x76, 0xca, 0x82, 0xc9, 0x7d, 0xfa, 0x59, 0x47, 0xf0, 0xad, 0xd4, 0xa2, 0xaf,
    0x9c, 0xa4, 0x72, 0xc0, 0xb7, 0xfd, 0x93, 0x26, 0x36, 0x3f, 0xf7, 0xcc, 0x34, 0xa5,
    0xe5, 0xf1, 0x71, 0xd8, 0x31, 0x15, 0x04, 0xc7, 0x23, 0xc3, 0x18, 0x96, 0x05, 0x9a,
    0x07, 0x12, 0x80, 0xe2, 0xeb, 0x27, 0xb2, 0x75, 0x09, 0x83, 0x2c, 0x1a, 0x1b, 0x6e,
    0x5a, 0xa0, 0x52, 0x3b, 0xd6, 0xb3, 0x29, 0xe3, 0x2f, 0x84, 0x53, 0xd1, 0x00, 0xed,
    0x20, 0xfc, 0xb1, 0x5b, 0x6a, 0xcb, 0xbe, 0x39, 0x4a, 0x4c, 0x58, 0xcf, 0xd0, 0xef,
    0xaa, 0xfb, 0x43, 0x4d, 0x33, 0x85, 0x45, 0xf9, 0x02, 0x7f, 0x50, 0x3c, 0x9f, 0xa8,
    0x51, 0xa3, 0x40, 0x8f, 0x92, 0x9d, 0x38, 0xf5, 0xbc, 0xb6, 0xda, 0x21, 0x10, 0xff,
    0xf3, 0xd2, 0xcd, 0x0c, 0x13, 0xec, 0x5f, 0x97, 0x44, 0x17, 0xc4, 0xa7, 0x7e, 0x3d,
    0x64, 0x5d, 0x19, 0x73, 0x60, 0x81, 0x4f, 0xdc, 0x22, 0x2a, 0x90, 0x88, 0x46, 0xee,
    0xb8, 0x14, 0xde, 0x5e, 0x0b, 0xdb, 0xe0, 0x32, 0x3a, 0x0a, 0x49, 0x06, 0x24, 0x5c,
    0xc2, 0xd3, 0xac, 0x62, 0x91, 0x95, 0xe4, 0x79, 0xe7, 0xc8, 0x37, 0x6d, 0x8d, 0xd5,
    0x4e, 0xa9, 0x6c, 0x56, 0xf4, 0xea, 0x65, 0x7a, 0xae, 0x08, 0xba, 0x78, 0x25, 0x2e,
    0x1c, 0xa6, 0xb4, 0xc6, 0xe8, 0xdd, 0x74, 0x1f, 0x4b, 0xbd, 0x8b, 0x8a, 0x70, 0x3e,
    0xb5, 0x66, 0x48, 0x03, 0xf6, 0x0e, 0x61, 0x35, 0x57, 0xb9, 0x86, 0xc1, 0x1d, 0x9e,
    0xe1, 0xf8, 0x98, 0x11, 0x69, 0xd9, 0x8e, 0x94, 0x9b, 0x1e, 0x87, 0xe9, 0xce, 0x55,
    0x28, 0xdf, 0x8c, 0xa1, 0x89, 0x0d, 0xbf, 0xe6, 0x42, 0x68, 0x41, 0x99, 0x2d, 0x0f,
    0xb0, 0x54, 0xbb, 0x16]

def sbox (a : UInt8) : UInt8 := sboxTable.getD a.toNat 0

/-- A block of 16 bytes, also the key of a round. -/
abbrev Block : Type := Vector UInt8 16

/-- `xor_128` and `bitwise_xor` -/
def xor128 (a b : Block) : Block := a.zipWith (· ^^^ ·) b

def rconTable : List UInt8 :=
  [0x01, 0x02, 0x04, 0x08, 0x10, 0x20, 0x40, 0x80, 0x1b, 0x36, 0x36, 0x36]

def nextKey (key : Block) (round : ℕ) : Block :=
  let k0 := key[0] ^^^ sbox key[13] ^^^ rconTable.getD round 0
  let k1 := key[1] ^^^ sbox key[14]
  let k2 := key[2] ^^^ sbox key[15]
  let k3 := key[3] ^^^ sbox key[12]
  let k4 := key[4] ^^^ k0
  let k5 := key[5] ^^^ k1
  let k6 := key[6] ^^^ k2
  let k7 := key[7] ^^^ k3
  let k8 := key[8] ^^^ k4
  let k9 := key[9] ^^^ k5
  let k10 := key[10] ^^^ k6
  let k11 := key[11] ^^^ k7
  #v[k0, k1, k2, k3, k4, k5, k6, k7, k8, k9, k10, k11,
    key[12] ^^^ k8, key[13] ^^^ k9, key[14] ^^^ k10, key[15] ^^^ k11]

def byteSub (b : Block) : Block := b.map sbox

def shiftRow (b : Block) : Block :=
  #v[b[0], b[5], b[10], b[15], b[4], b[9], b[14], b[3],
    b[8], b[13], b[2], b[7], b[12], b[1], b[6], b[11]]

/-- The reduction of a byte whose highest bit is shifted out. -/
def add1b (a : UInt8) : UInt8 := if a &&& 0x80 == 0x80 then 0x1b else 0x00

/-- A byte of `andf7`: seven bits shifted left, and the bit carried over from the byte before,
which is looked for where it has just been masked out. -/
def andf7 (a prev : UInt8) : UInt8 :=
  if (prev &&& 0x7f) &&& 0x80 == 0x80 then ((a &&& 0x7f) <<< 1) ||| 0x01 else (a &&& 0x7f) <<< 1

/-- `mix_column`, on the four bytes of a column. -/
def mixColumn (a b c d : UInt8) : List UInt8 :=
  let f0 := add1b a ^^^ (((a &&& 0x7f) <<< 1) &&& (0xfe : UInt8))
  let f1 := add1b b ^^^ andf7 b a
  let f2 := add1b c ^^^ andf7 c b
  let f3 := add1b d ^^^ andf7 d c
  [(f0 ^^^ (b ^^^ f1)) ^^^ (c ^^^ d), (f1 ^^^ (c ^^^ f2)) ^^^ (d ^^^ a),
    (f2 ^^^ (d ^^^ f3)) ^^^ (a ^^^ b), (f3 ^^^ (a ^^^ f0)) ^^^ (b ^^^ c)]

def mixColumns (b : Block) : Block :=
  let bytes := mixColumn b[0] b[1] b[2] b[3] ++ mixColumn b[4] b[5] b[6] b[7] ++
    mixColumn b[8] b[9] b[10] b[11] ++ mixColumn b[12] b[13] b[14] b[15]
  Vector.ofFn fun i => bytes.getD i 0

/-- A round with `mix_column`: the key of the next round, and the block. -/
def aesRound (r : Block × Block) (round : ℕ) : Block × Block :=
  (nextKey r.1 round, xor128 (mixColumns (shiftRow (byteSub r.2))) r.1)

def aes128k128d (key data : Block) : Block :=
  let r := (List.range' 1 9).foldl aesRound (nextKey key 0, xor128 key data)
  xor128 (shiftRow (byteSub r.2)) r.1

/-- Whether a header has a QoS field. The type of a frame has two bits and is never one of the
three subtypes it is compared with. -/
def qcExists (mpdu : List UInt8) : Bool :=
  [0x18, 0x28, 0x38].contains (getFrameType mpdu) ||
    [0x08, 0x09, 0x0a, 0x0b].contains (getFrameSubType mpdu >>> 4)

def a4Exists (hdrlen : ℕ) : Bool := hdrlen != 24 && hdrlen != 26

/-- The length of the header as the cipher takes it. -/
def ccmHdrlen (hdrlen : ℕ) (mpdu : List UInt8) : ℕ :=
  if qcExists mpdu && hdrlen != 26 then hdrlen + 2 else hdrlen

def pnVector (mpdu : List UInt8) (hdrlen : ℕ) : List UInt8 :=
  [0, 1, 4, 5, 6, 7].map fun i => mpdu.getD (hdrlen + i) 0

/-- What the first blocks are made of. -/
structure CcmHeader where
  mpdu : List UInt8
  hdrlen : ℕ
  qc : Bool
  a4 : Bool
  pn : List UInt8

namespace CcmHeader
variable (h : CcmHeader)

/-- The second byte of the nonce. -/
def qosTc : UInt8 := if h.qc then h.mpdu.getD (if h.a4 then 30 else 24) 0 &&& 0x0f else 0

/-- The address of the transmitter and the packet number, its highest byte first. -/
def nonce : List UInt8 :=
  (List.range 6).map (fun i => h.mpdu.getD (10 + i) 0) ++
    (List.range 6).map fun i => h.pn.getD (5 - i) 0

def nonceBlock (flag : UInt8) (n : ℕ) : Block :=
  let bytes := [flag, h.qosTc] ++ h.nonce ++ [UInt8.ofNat (n / 256), UInt8.ofNat n]
  Vector.ofFn fun i => bytes.getD i 0

def constructMicIv (payloadLength : ℕ) : Block := h.nonceBlock 0x59 payloadLength

def constructCtrPreload (c : ℕ) : Block := h.nonceBlock 0x01 c

def constructMicHeader1 : Block :=
  let bytes := [UInt8.ofNat ((h.hdrlen - 2) / 256), UInt8.ofNat (h.hdrlen - 2),
    h.mpdu.getD 0 0 &&& 0xcf, h.mpdu.getD 1 0 &&& 0xc7] ++
      (List.range 12).map fun i => h.mpdu.getD (4 + i) 0
  Vector.ofFn fun i => bytes.getD i 0

def constructMicHeader2 : Block :=
  let bytes := (List.range 6).map (fun i => h.mpdu.getD (16 + i) 0) ++ [0x00, 0x00] ++
    (if h.a4 then (List.range 6).map fun i => h.mpdu.getD (24 + i) 0 else []) ++
    if h.qc then [h.mpdu.getD (if h.a4 then 30 else 24) 0 &&& 0x0f, 0x00] else []
  Vector.ofFn fun i => bytes.getD i 0

end CcmHeader

/-- The blocks of a message, the last one filled up with zeroes. -/
def messageBlocks (message : List UInt8) : List Block :=
  (List.range ((message.length + 15) / 16)).map fun i =>
    Vector.ofFn fun j => message.getD (16 * i + j) 0

/-- The code of a payload, before it is encrypted. -/
def ccmMic (key : Block) (h : CcmHeader) (payload : List UInt8) : List UInt8 :=
  let blocks := h.constructMicHeader1 :: h.constructMicHeader2 :: messageBlocks payload
  let start := aes128k128d key (h.constructMicIv payload.length)
  (blocks.foldl (fun aesOut b => aes128k128d key (xor128 aesOut b)) start).toList.take 8

/-- The payload xored with the blocks from number 1 on. -/
def ccmCtr (key : Block) (h : CcmHeader) (payload : List UInt8) : List UInt8 :=
  List.zipWith (· ^^^ ·) payload <| (List.range ((payload.length + 15) / 16)).flatMap fun i =>
    (aes128k128d key (h.constructCtrPreload (i + 1))).toList

/-- The code xored with block number 0. -/
def ccmCtrMic (key : Block) (h : CcmHeader) (mic : List UInt8) : List UInt8 :=
  List.zipWith (· ^^^ ·) mic (aes128k128d key (h.constructCtrPreload 0)).toList

/-- What is sent of a payload: the payload and its code, encrypted. -/
def ccmSeal (key : Block) (h : CcmHeader) (payload : List UInt8) : List UInt8 :=
  ccmCtr key h payload ++ ccmCtrMic key h (ccmMic key h payload)

theorem ccmCtr_length (key : Block) (h : CcmHeader) (payload : List UInt8) :
    (ccmCtr key h payload).length = payload.length := by
  simp only [ccmCtr, List.length_zipWith, List.length_flatMap, Vector.length_toList,
    List.map_const', List.sum_replicate_nat, List.length_range]
  omega

theorem ccmMic_length (key : Block) (h : CcmHeader) (payload : List UInt8) :
    (ccmMic key h payload).length = 8 := by
  simp only [ccmMic, List.length_take, Vector.length_toList]
  rfl

theorem ccmSeal_length (key : Block) (h : CcmHeader) (payload : List UInt8) :
    (ccmSeal key h payload).length = payload.length + 8 := by
  simp only [ccmSeal, List.length_append, ccmCtr_length, ccmCtrMic, List.length_zipWith,
    ccmMic_length, Vector.length_toList]
  rfl

end Rtl8188eu

import StandaloneDrivers.R92su.Frame
import Mathlib.Logic.Function.Basic

/-! Keys, and the stages of the receive path that read and strip IV, ICV and MIC (rx.c). -/
namespace R92su

inductive EncAlg where
  | noEncryption
  | wep40
  | tkip
  | tkipWtmic
  | aesccmp
  | wep104
  deriving DecidableEq, Repr

/-- `struct r92su_key`; the receive counters of CCMP and TKIP share their place. -/
structure Key where
  type : EncAlg
  rxSeq : ℕ
  material : List UInt8
  deriving DecidableEq, Repr

def getIvLen (key : Key) : ℕ :=
  match key.type with
  | .wep40 | .wep104 => 4
  | .tkip | .aesccmp => 8
  | _ => 0

/-- Six bytes, most significant first. -/
def be48 (a b c d e f : ℕ) : ℕ := ((((a * 256 + b) * 256 + c) * 256 + d) * 256 + e) * 256 + f

namespace Skb

/-- Byte `i` of the IV, right behind the header. -/
def iv (skb : Skb) (i : ℕ) : ℕ := byteAt skb.data (skb.hdrlen + i)

def tkipSeq (skb : Skb) : ℕ :=
  be48 (skb.iv 7) (skb.iv 6) (skb.iv 5) (skb.iv 4) (skb.iv 0) (skb.iv 2)

def ccmpSeq (skb : Skb) : ℕ :=
  be48 (skb.iv 7) (skb.iv 6) (skb.iv 5) (skb.iv 4) (skb.iv 1) (skb.iv 0)

def extIv (skb : Skb) : Bool := skb.iv 3 &&& 0x20 != 0

/-- The header is moved up over the IV. -/
def stripIv (skb : Skb) (ivLen : ℕ) : Skb :=
  let moved := skb.data.take skb.hdrlen ++ skb.data.drop (skb.hdrlen + ivLen)
  { skb with data := moved.take (skb.data.length - ivLen) }

end Skb

/-- The IV is stripped from a frame long enough to hold it. -/
def ivStripped (ivLen : ℕ) (skb : Skb) : RxControl × Skb :=
  if skb.data.length ≤ ivLen then (.rxDrop, skb) else (.rxContinue, skb.stripIv ivLen)

def rxIvHandle (keys : ℕ → Key) (skb : Skb) : RxControl × Skb :=
  match skb.cb.key.map keys with
  | none => (.rxContinue, skb)
  | some key =>
      let ivLen := getIvLen key
      match key.type with
      | .wep40 | .wep104 => ivStripped ivLen skb
      | .tkip =>
          if !skb.extIv then (.rxDrop, skb)
          else if key.rxSeq ≥ skb.tkipSeq then (.rxDrop, skb)
          else ivStripped ivLen { skb with cb := { skb.cb with iv := skb.tkipSeq } }
      | .aesccmp =>
          if !skb.extIv then (.rxDrop, skb)
          else if skb.ccmpSeq ≤ key.rxSeq then (.rxDrop, skb)
          else ivStripped ivLen { skb with cb := { skb.cb with iv := skb.ccmpSeq } }
      | _ => (.rxDrop, skb)

/-- The receive counter of a key takes the number of the frame. -/
def setRxSeq (keys : ℕ → Key) (skb : Skb) : ℕ → Key :=
  match skb.cb.key with
  | none => keys
  | some k => Function.update keys k { keys k with rxSeq := skb.cb.iv }

def rxIvCheck (keys : ℕ → Key) (skb : Skb) : RxControl × (ℕ → Key) :=
  match skb.cb.key.map keys with
  | none => (.rxContinue, keys)
  | some key =>
      match key.type with
      | .wep40 | .wep104 => (.rxContinue, keys)
      | .tkip | .aesccmp => (.rxContinue, setRxSeq keys skb)
      | _ => (.rxDrop, keys)

/-- `struct michael_mic_ctx` -/
structure MichaelMicCtx where
  l : UInt32
  r : UInt32

def rol32 (x : UInt32) (n : UInt32) : UInt32 := (x <<< n) ||| (x >>> (32 - n))

def michaelBlock (ctx : MichaelMicCtx) (val : UInt32) : MichaelMicCtx :=
  let l := ctx.l ^^^ val
  let r := ctx.r ^^^ rol32 l 17
  let l := l + r
  let r := r ^^^ (((l &&& 0xff00ff00) >>> 8) ||| ((l &&& 0x00ff00ff) <<< 8))
  let l := l + r
  let r := r ^^^ rol32 l 3
  let l := l + r
  let r := r ^^^ rol32 l 30
  ⟨l + r, r⟩

def le32 (data : List UInt8) (i : ℕ) : UInt32 :=
  UInt32.ofNat (le16 data i + 65536 * le16 data (i + 2))

/-- `ieee80211_get_DA` and `ieee80211_get_SA` -/
def getDA (fc : ℕ) : ℕ := if fc &&& 0x0100 != 0 then 16 else 4

def getSA (fc : ℕ) : ℕ :=
  if hasA4 fc then 24 else if fc &&& 0x0200 != 0 then 16 else 10

def michaelMicHdr (key : List UInt8) (skb : Skb) : MichaelMicCtx :=
  let da := getDA skb.frameControl
  let sa := getSA skb.frameControl
  let tid := if isDataQos skb.frameControl then skb.tid else 0
  let words := [le32 skb.data da,
    UInt32.ofNat (le16 skb.data (da + 4) + 65536 * le16 skb.data sa),
    le32 skb.data (sa + 2), UInt32.ofNat tid]
  words.foldl michaelBlock ⟨le32 key 0, le32 key 4⟩

/-- The last partial block, padded with 0x5a. -/
def michaelTail (data : List UInt8) : UInt32 :=
  UInt32.ofNat ((data.drop (data.length / 4 * 4)).foldr (fun b val => val * 256 + b.toNat) 0x5a)

def bytes32 (x : UInt32) : List UInt8 :=
  [x.toUInt8, (x >>> 8).toUInt8, (x >>> 16).toUInt8, (x >>> 24).toUInt8]

def michaelMic (key : List UInt8) (skb : Skb) (data : List UInt8) : List UInt8 :=
  let blocks := (List.range (data.length / 4)).map fun block => le32 data (block * 4)
  let ctx := (blocks ++ [michaelTail data, 0]).foldl michaelBlock (michaelMicHdr key skb)
  bytes32 ctx.l ++ bytes32 ctx.r

/-- `remove_len` bytes are trimmed from a frame longer than that. -/
def trimmed (removeLen : ℕ) (skb : Skb) : RxControl × Skb :=
  if skb.data.length ≤ removeLen then (.rxDrop, skb)
  else (.rxContinue, { skb with data := skb.data.take (skb.data.length - removeLen) })

/-- The MIC key for reception starts at byte 24 of the key material. -/
def rxIcvMicHandle (keys : ℕ → Key) (skb : Skb) : RxControl × (ℕ → Key) × Skb :=
  match skb.cb.key.map keys with
  | none => (.rxContinue, keys, skb)
  | some key =>
      match key.type with
      | .wep40 | .wep104 => ((trimmed 4 skb).1, keys, (trimmed 4 skb).2)
      | .tkip =>
          if skb.data.length < skb.hdrlen + 12 then (.rxDrop, keys, skb)
          else
            let data := (skb.data.drop skb.hdrlen).take (skb.data.length - skb.hdrlen - 12)
            let tail := (skb.data.drop (skb.data.length - 12)).take 8
            if michaelMic (key.material.drop 24) skb data ≠ tail then (.rxDrop, keys, skb)
            else ((trimmed 12 skb).1, setRxSeq keys skb, (trimmed 12 skb).2)
      | .aesccmp => ((trimmed 8 skb).1, keys, (trimmed 8 skb).2)
      | _ => (.rxDrop, keys, skb)

end R92su

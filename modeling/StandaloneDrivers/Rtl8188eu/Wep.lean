import StandaloneDrivers.Rtl8188eu.Station
import Mathlib.Logic.Function.Iterate

/-! The RC4 stream cipher and the CRC-32 of WEP and TKIP (rtw_security.c). -/
namespace Rtl8188eu
open Foundations

/-- `struct arc4context`, all indices being taken modulo 256. -/
structure Arc4Context where
  x : UInt8
  y : UInt8
  state : Vector UInt8 256

namespace Arc4Context

def get (state : Vector UInt8 256) (i : UInt8) : UInt8 := state.get ⟨i.toNat, i.toNat_lt⟩

def set (state : Vector UInt8 256) (i b : UInt8) : Vector UInt8 256 := state.set i.toNat b i.toNat_lt

end Arc4Context

open Arc4Context

/-- The key is used again and again from its start. -/
def arcfourInit (key : List UInt8) : Arc4Context :=
  let r := (List.range 256).foldl (fun r counter =>
    let t := get r.1 (UInt8.ofNat counter)
    let stateindex := r.2.2 + key.getD r.2.1 0 + t
    let u := get r.1 stateindex
    let state := set (set r.1 stateindex t) (UInt8.ofNat counter) u
    (state, if r.2.1 + 1 ≥ key.length then 0 else r.2.1 + 1, stateindex))
    (Vector.ofFn fun i => UInt8.ofNat i.val, 0, 0)
  ⟨0, 0, r.1⟩

def arcfourByte (ctx : Arc4Context) : UInt8 × Arc4Context :=
  let x := ctx.x + 1
  let sx := get ctx.state x
  let y := sx + ctx.y
  let sy := get ctx.state y
  let state := set (set ctx.state y sx) x sy
  (get state (sx + sy), ⟨x, y, state⟩)

def arcfourEncrypt (ctx : Arc4Context) : List UInt8 → List UInt8 × Arc4Context
  | [] => ([], ctx)
  | b :: src =>
      let k := arcfourByte ctx
      let r := arcfourEncrypt k.2 src
      ((b ^^^ k.1) :: r.1, r.2)

def crc32ReverseBit (data : UInt8) : UInt8 :=
  ((data <<< 7) &&& (0x80 : UInt8)) ||| ((data <<< 5) &&& (0x40 : UInt8)) |||
    ((data <<< 3) &&& (0x20 : UInt8)) ||| ((data <<< 1) &&& (0x10 : UInt8)) |||
    ((data >>> 1) &&& (0x08 : UInt8)) ||| ((data >>> 3) &&& (0x04 : UInt8)) |||
    ((data >>> 5) &&& (0x02 : UInt8)) ||| ((data >>> 7) &&& (0x01 : UInt8))

/-- One step of the loop that fills `crc32_table`. -/
def crc32Shift (c : UInt32) : UInt32 :=
  if c &&& 0x80000000 != 0 then (c <<< 1) ^^^ (0x04c11db7 : UInt32) else c <<< 1

/-- An entry of `crc32_table`: the bits of the whole word are reversed. -/
def crc32Table (i : UInt8) : UInt32 :=
  let c := crc32Shift^[8] ((crc32ReverseBit i).toUInt32 <<< 24)
  let p (j : UInt32) : UInt32 := (crc32ReverseBit (c >>> (8 * j)).toUInt8).toUInt32
  p 3 ||| (p 2 <<< 8) ||| (p 1 <<< 16) ||| (p 0 <<< 24)

def crc32Byte (crc : UInt32) (p : UInt8) : UInt32 :=
  crc32Table (crc ^^^ p.toUInt32).toUInt8 ^^^ (crc >>> 8)

/-- The four bytes of the code, the lowest first. -/
def getcrc32 (buf : List UInt8) : List UInt8 :=
  let crc := buf.foldl crc32Byte 0xffffffff
  (List.range 4).map fun i => (~~~crc >>> (8 * i).toUInt32).toUInt8

/-- What is sent of a payload: the payload and its CRC, encrypted. -/
def arcfourSeal (rc4key payload : List UInt8) : List UInt8 :=
  (arcfourEncrypt (arcfourInit rc4key) (payload ++ getcrc32 payload)).1

/-- The key of a frame: three bytes of its IV, and the key of the network. -/
def wepkey (iv : List UInt8) (key : Keytype) (keylength : ℕ) : List UInt8 :=
  iv.take 3 ++ key.toList.take keylength

theorem arcfourEncrypt_length (ctx : Arc4Context) (src : List UInt8) :
    (arcfourEncrypt ctx src).1.length = src.length := by
  induction src generalizing ctx with
  | nil => rfl
  | cons b src ih => simp only [arcfourEncrypt, List.length_cons, ih]

theorem getcrc32_length (buf : List UInt8) : (getcrc32 buf).length = 4 := rfl

theorem arcfourSeal_length (rc4key payload : List UInt8) :
    (arcfourSeal rc4key payload).length = payload.length + 4 := by
  rw [arcfourSeal, arcfourEncrypt_length, List.length_append, getcrc32_length]

theorem arcfourEncrypt_append (ctx : Arc4Context) (src src' : List UInt8) :
    (arcfourEncrypt ctx (src ++ src')).1 =
      (arcfourEncrypt ctx src).1 ++ (arcfourEncrypt (arcfourEncrypt ctx src).2 src').1 := by
  induction src generalizing ctx with
  | nil => rfl
  | cons b src ih => simp only [List.cons_append, arcfourEncrypt, ih]

theorem arcfourEncrypt_injective (ctx : Arc4Context) {src src' : List UInt8}
    (h : (arcfourEncrypt ctx src).1 = (arcfourEncrypt ctx src').1) : src = src' := by
  induction src generalizing ctx src' with
  | nil =>
    cases src' with
    | nil => rfl
    | cons b' src' => cases h
  | cons b src ih =>
    cases src' with
    | nil => cases h
    | cons b' src' =>
      simp only [arcfourEncrypt, List.cons.injEq] at h
      rw [(UInt8.xor_left_inj _).mp h.1, ih _ h.2]

end Rtl8188eu

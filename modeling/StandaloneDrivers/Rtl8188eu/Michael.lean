import StandaloneDrivers.Rtl8188eu.RecvFrame

/-! The Michael message integrity code (rtw_security.c). -/
namespace Rtl8188eu
open Foundations
attribute [local instance] neZero_four

/-- `ROL32` -/
def rol32 (a n : UInt32) : UInt32 := a <<< n ||| a >>> (32 - n) &&& (1 <<< n - 1)

/-- `ROR32` -/
def ror32 (a n : UInt32) : UInt32 := rol32 a (32 - n)

/-- `struct mic_data`; `nBytesInM` is back at 0 after the fourth byte. -/
structure MicData where
  k0 : UInt32
  k1 : UInt32
  l : UInt32
  r : UInt32
  m : UInt32
  nBytesInM : Fin 4
  deriving DecidableEq, Repr

def secmicgetuint32 (p : List UInt8) : UInt32 :=
  (List.range 4).foldl (fun res i => res ||| (p.getD i 0).toUInt32 <<< (8 * i).toUInt32) 0

def secmicputuint32 (val : UInt32) : List UInt8 :=
  (List.range 4).map fun i => (val >>> (8 * i).toUInt32).toUInt8

def secmicclear (d : MicData) : MicData := { d with l := d.k0, r := d.k1, nBytesInM := 0, m := 0 }

def rtwSecmicsetkey (key : List UInt8) : MicData :=
  secmicclear
    { k0 := secmicgetuint32 key
      k1 := secmicgetuint32 (key.drop 4)
      l := 0
      r := 0
      m := 0
      nBytesInM := 0 }

/-- The word is processed when its fourth byte has come. -/
def rtwSecmicappendbyte (d : MicData) (b : UInt8) : MicData :=
  let m := d.m ||| b.toUInt32 <<< (8 * d.nBytesInM.val).toUInt32
  if d.nBytesInM = 3 then
    let l := d.l ^^^ m
    let r := d.r ^^^ rol32 l 17
    let l := l + r
    let r := r ^^^ ((l &&& 0xff00ff00) >>> 8 ||| (l &&& 0x00ff00ff) <<< 8)
    let l := l + r
    let r := r ^^^ rol32 l 3
    let l := l + r
    let r := r ^^^ ror32 l 2
    { d with l := l + r, r := r, m := 0, nBytesInM := 0 }
  else { d with m := m, nBytesInM := d.nBytesInM + 1 }

def rtwSecmicappend (d : MicData) (src : List UInt8) : MicData := src.foldl rtwSecmicappendbyte d

/-- The zeroes that fill the last word. -/
def micZeroes (n : Fin 4) : List UInt8 := List.replicate (-n : Fin 4) 0

def rtwSecgetmic (d : MicData) : List UInt8 × MicData :=
  let d := rtwSecmicappend d [0x5a, 0, 0, 0, 0]
  let d := rtwSecmicappend d (micZeroes d.nBytesInM)
  (secmicputuint32 d.l ++ secmicputuint32 d.r, secmicclear d)

/-- Where DA and SA stand in a header. -/
def micAddresses (header : List UInt8) : MacAddr × MacAddr :=
  let fc := header.getD 1 0
  if fc &&& 1 != 0 then (macAt header 16, macAt header (if fc &&& 2 != 0 then 24 else 10))
  else (macAt header 4, macAt header (if fc &&& 2 != 0 then 16 else 10))

/-- The state after DA, SA and the priority. -/
def micStart (key header : List UInt8) (pri : UInt8) : MicData :=
  let addresses := micAddresses header
  rtwSecmicappend (rtwSecmicappend (rtwSecmicappend (rtwSecmicsetkey key)
    addresses.1.toList) addresses.2.toList) [pri, 0, 0, 0]

def rtwSeccalctkipmic (key header data : List UInt8) (pri : UInt8) : List UInt8 :=
  (rtwSecgetmic (rtwSecmicappend (micStart key header pri) data)).1

theorem rtwSecmicappend_append (d : MicData) (a b : List UInt8) :
    rtwSecmicappend d (a ++ b) = rtwSecmicappend (rtwSecmicappend d a) b := List.foldl_append

end Rtl8188eu

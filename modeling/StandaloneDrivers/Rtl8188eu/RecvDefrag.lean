import StandaloneDrivers.Rtl8188eu.Michael
import StandaloneDrivers.Rtl8188eu.Station

/-! Reassembly of fragments, one queue for each station, and the Michael check that follows it
(rtw_recv.c). -/
namespace Rtl8188eu
open Foundations
attribute [local instance] neZero_sixteen

/-- The key of the Michael check. -/
def rxMickey (sec : SecurityPriv) (stainfo : StaInfo) (attrib : RxPktAttrib) : Keytype :=
  if isMcast attrib.ra then keyAt sec.dot118021XGrprxmickey attrib.keyIndex
  else stainfo.dot11tkiprxmickey

namespace RecvFrame

/-- The length of what the Michael code covers, an `u32`. -/
def micDatalen (f : RecvFrame) : ℕ :=
  (((f.len : ℤ) - f.attrib.payload - f.attrib.icvLen - 8) % 2 ^ 32).toNat

/-- The code behind the payload is the one computed from the frame. -/
def micOk (f : RecvFrame) (mickey : Keytype) : Bool :=
  rtwSeccalctkipmic mickey.toList f.mem (slice f.mem f.attrib.payload f.micDatalen)
    (UInt8.ofNat f.attrib.priority) == slice f.mem (f.attrib.payload + f.micDatalen) 8

end RecvFrame

/-- Without a station nothing is compared. -/
def recvframeChkmic (stapriv : StaPriv) (sec : SecurityPriv) (f : RecvFrame) :
    Status × RecvFrame :=
  if f.attrib.encrypt = .tkip then
    match stapriv.station f.attrib.ta with
    | some stainfo => (if f.micOk (rxMickey sec stainfo f.attrib) then .success else .fail,
        f.pullTail 8)
    | none => (.success, f.pullTail 8)
  else (.success, f)

namespace RecvFrame

/-- The payload of the next fragment is copied over the ICV of what has been put together. -/
def append (prframe pnextrframe : RecvFrame) : RecvFrame :=
  let pnext := pnextrframe.pull pnextrframe.attrib.payload
  let prframe := prframe.pullTail prframe.attrib.icvLen
  let prframe := (prframe.write prframe.len pnext.data).put pnext.len
  { prframe with attrib := { prframe.attrib with icvLen := pnext.attrib.icvLen } }

/-- How many bytes `append` copies to places behind `rx_end`. -/
def appendOverrun (prframe pnextrframe : RecvFrame) : ℕ :=
  (prframe.pullTail prframe.attrib.icvLen).len +
    (pnextrframe.pull pnextrframe.attrib.payload).len - prframe.mem.length

theorem append_attrib (prframe pnextrframe : RecvFrame) :
    (prframe.append pnextrframe).attrib =
      { prframe.attrib with icvLen := pnextrframe.attrib.icvLen } := by
  simp only [append, put_attrib, write_attrib, pullTail_attrib, pull_attrib]

theorem append_mem (prframe pnextrframe : RecvFrame) :
    (prframe.append pnextrframe).mem =
      overwrite prframe.mem (prframe.pullTail prframe.attrib.icvLen).len
        (pnextrframe.pull pnextrframe.attrib.payload).data := by
  simp only [append, put_mem, write_mem, pullTail_mem]

/-- A payload that finds place is put behind what lies before the ICV. -/
theorem append_len {prframe pnextrframe : RecvFrame}
    (hicv : prframe.attrib.icvLen ≤ prframe.len)
    (hpull : pnextrframe.attrib.payload ≤ pnextrframe.len)
    (hroom : prframe.len - prframe.attrib.icvLen + (pnextrframe.len - pnextrframe.attrib.payload) ≤
      prframe.mem.length) :
    (prframe.append pnextrframe).len =
      prframe.len - prframe.attrib.icvLen + (pnextrframe.len - pnextrframe.attrib.payload) := by
  rw [← pullTail_len hicv, ← pull_len hpull] at *
  apply put_len
  rw [write_len, write_mem, overwrite_length]
  exact hroom

end RecvFrame

/-- The loop of `recvframe_defrag`, and the bytes it writes behind `rx_end`. -/
def defragLoop (prframe : RecvFrame) (curfragnum : ℕ) : List RecvFrame → Option RecvFrame × ℕ
  | [] => (some prframe, 0)
  | pnextrframe :: plist =>
      if curfragnum ≠ pnextrframe.attrib.fragNum then (none, 0)
      else
        let r := defragLoop (prframe.append pnextrframe) (curfragnum + 1) plist
        (r.1, prframe.appendOverrun pnextrframe + r.2)

/-- The frame returned by a call, the frames given to `rtw_free_recvframe`, and how many bytes
were written behind `rx_end`. -/
structure Merged where
  frame : Option RecvFrame
  freed : List ℕ
  overrun : ℕ

def recvframeDefrag : List RecvFrame → Merged
  | [] => ⟨none, [], 0⟩
  | prframe :: plist =>
      if 0 ≠ prframe.attrib.fragNum.val then ⟨none, (prframe :: plist).map RecvFrame.id, 0⟩
      else
        match defragLoop prframe 1 plist with
        | (none, overrun) => ⟨none, (prframe :: plist).map RecvFrame.id, overrun⟩
        | (some prframe, overrun) => ⟨some prframe, plist.map RecvFrame.id, overrun⟩

namespace StaPriv

def defragQ (stapriv : StaPriv) (i : ℕ) : List RecvFrame :=
  (stapriv.stainfo[i]?).elim [] StaInfo.defragQ

/-- The station whose queue a frame is put in; one frame that is no data frame and has no
station goes to the queue of the broadcast station. -/
def pdefragQ (stapriv : StaPriv) (f : RecvFrame) : Option ℕ :=
  match stapriv.rtwGetStainfo (some f.attrib.ta) with
  | some i => some i
  | none => if getFrameType f.mem ≠ wifiDataType then stapriv.rtwGetBcmcStainfo else none

/-- A fragment is queued or completes the queue, another frame is passed on. -/
def queueFragment (stapriv : StaPriv) (f : RecvFrame) : StaPriv × Merged :=
  if f.attrib.mfrag then
    match stapriv.pdefragQ f with
    | none => (stapriv, ⟨none, [f.id], 0⟩)
    | some i =>
        if f.attrib.fragNum = 0 then
          (stapriv.setDefragQ i [f], ⟨none, (stapriv.defragQ i).map RecvFrame.id, 0⟩)
        else (stapriv.setDefragQ i (stapriv.defragQ i ++ [f]), ⟨none, [], 0⟩)
  else if f.attrib.fragNum ≠ 0 then
    match stapriv.pdefragQ f with
    | none => (stapriv, ⟨none, [f.id], 0⟩)
    | some i => (stapriv.setDefragQ i [], recvframeDefrag (stapriv.defragQ i ++ [f]))
  else (stapriv, ⟨some f, [], 0⟩)

/-- The frame that is passed on is checked if it is protected. -/
def recvframeChkDefrag (stapriv : StaPriv) (sec : SecurityPriv) (f : RecvFrame) :
    StaPriv × Merged :=
  let r := stapriv.queueFragment f
  match r.2.frame with
  | none => r
  | some prtnframe =>
      if prtnframe.attrib.privacy then
        match recvframeChkmic r.1 sec prtnframe with
        | (.fail, prtnframe) => (r.1, { r.2 with frame := none, freed := r.2.freed ++ [prtnframe.id] })
        | (.success, prtnframe) => (r.1, { r.2 with frame := some prtnframe })
      else r

end StaPriv

end Rtl8188eu

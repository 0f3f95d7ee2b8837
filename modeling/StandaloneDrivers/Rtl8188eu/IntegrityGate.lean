import StandaloneDrivers.Rtl8188eu.Tainting
import StandaloneDrivers.Rtl8188eu.WepDelivery

/-! The integrity gate: no part of a frame that does not verify is handed up. -/
namespace Rtl8188eu
open Foundations

namespace Receiver

/-- The acts of a run. -/
def trace (s : Receiver) : List RecvEvent → List RecvAct
  | [] => []
  | e :: es => (s.step e).acts ++ trace (s.step e) es

/-- Every frame given to a decryptor or to the Michael check is one for which the answer is right. -/
def Checkable (s : Receiver) (e : RecvEvent) : Prop := ∀ act ∈ (s.step e).acts, act.Checkable

instance (s : Receiver) (e : RecvEvent) : Decidable (Checkable s e) :=
  inferInstanceAs (Decidable (∀ act ∈ _, _))

theorem trace_clean {s : Receiver} {tainted : List ℕ} {es : List RecvEvent}
    (h : { s with acts := [] }.Clear tainted []) (howns : Owns Pool.Apart s [])
    (hes : Guarded step Checkable s es) : Guarded taint Clean tainted (s.trace es) := by
  induction es generalizing s tainted with
  | nil => trivial
  | cons e es ih =>
    have hstep := h.step e howns hes.1
    have hnext := step_owns Pool.apart_rules e howns (Or.inl Pool.apart_lossy)
    rw [trace, guarded_append]
    constructor
    · exact hstep.acts
    · exact ih ⟨trivial, hstep.held, hstep.message⟩ hnext hes.2

/-- A broadcast frame of the access point that is protected with CCM. -/
def groupFrame : RecvFrame where
  id := 0
  psta := none
  attrib := RxPktAttrib.zero
  mem := [0x08, 0x42, 0, 0, 0xff, 0xff, 0xff, 0xff, 0xff, 0xff, 0, 1, 2, 3, 4, 5,
    0, 21, 22, 23, 24, 25, 0x50, 0] ++ List.replicate 24 0
  len := 48
  fits := le_rfl

/-- The ICV of a WEP frame that was handed up should have verified. -/
theorem behindWep_verifies {s : Receiver} {f : RecvFrame} {tainted : List ℕ}
    {rc4key : List UInt8} (hf : WepShaped f.attrib)
    (hkey : wepkey f.readKeyIndex.iv (keyAt s.sec.dot11DefKey f.readKeyIndex.attrib.keyIndex)
      (s.sec.dot11DefKeylen[f.readKeyIndex.attrib.keyIndex]?.getD 0) = rc4key)
    (h : Guarded taint Clean tainted (s.behindWep f).acts) :
    f.readKeyIndex.icvVerifies rc4key = true := by
  have hread := hf.readKeyIndex
  have hid : (wlanhdrToEthhdr (rtwWepDecrypt s.sec f.readKeyIndex)).id = f.readKeyIndex.id :=
    wlanhdrToEthhdr_id _
  have hencrypt : (rtwWepDecrypt s.sec f.readKeyIndex).attrib.encrypt = .wep40 := hread.encrypt
  have hverifies : mpduVerifies s.sec s.stapriv f.readKeyIndex =
      f.readKeyIndex.icvVerifies rc4key := by
    simp only [mpduVerifies, hread.encrypt, hkey]
  by_contra hfails
  have htaints : mpduVerifies s.sec s.stapriv f.readKeyIndex = false := by
    rw [hverifies]
    simpa using hfails
  simp only [behindWep, rtwFreeRecvframe, List.append_assoc, guarded_append] at h
  simp [Guarded, Clean, taint, hread.bdecrypted, htaints, hid, hencrypt] at h

/-- A station of a network with WEP. -/
def wepStation : Receiver := associated false { SecurityPriv.zero with
  dot11PrivacyAlgrthm := .wep40, dot11DefKeylen := Vector.replicate 4 5 }

/-- A frame that is protected with WEP, with its sequence control and the last byte of its ICV. -/
def wepFrame (seqCtrl last : UInt8) : RecvFrame :=
  incoming 0x08 0x42 seqCtrl ([0, 0, 0, 0] ++ ipv4Body ++ [1, 2, 3, last])

/-- What goes to the cipher of a first frame. -/
def wepFirst : Receiver × RecvFrame :=
  (wepStation.validated (wepFrame 0x50 0)).get (by decide)

/-- What goes to the cipher of a second one. -/
def wepSecond : Receiver × RecvFrame :=
  ((wepFirst.1.behindWep wepFirst.2).validated (wepFrame 0x60 1)).get (by decide)

end Receiver

end Rtl8188eu

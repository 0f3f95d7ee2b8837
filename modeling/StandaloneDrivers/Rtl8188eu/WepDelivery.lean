import StandaloneDrivers.Rtl8188eu.RecvLog
import StandaloneDrivers.Rtl8188eu.Verification

/-! What becomes of frames that are protected with WEP: they are handed up, whatever their ICV. -/
namespace Rtl8188eu
open Foundations
attribute [local instance] neZero_sixteen

namespace RecvFrame

/-- The ICV is the last part of what is decrypted. -/
theorem icvVerifies_spec {f : RecvFrame} {rc4key : List UInt8} {n : ℕ}
    (hn : f.len = f.attrib.payload + n + 4) (h : f.icvVerifies rc4key = true) :
    let r := arcfourEncrypt (arcfourInit rc4key) (slice f.mem f.attrib.payload n)
    (arcfourEncrypt r.2 (slice f.mem (f.attrib.payload + n) 4)).1 = getcrc32 r.1 := by
  intro r
  let r' := arcfourEncrypt r.2 (slice f.mem (f.attrib.payload + n) 4)
  have hfits := f.fits
  have hlen : r.1.length = n := by
    rw [arcfourEncrypt_length, slice, List.length_take, List.length_drop]
    omega
  have hlen' : r'.1.length = 4 := by
    rw [arcfourEncrypt_length, slice, List.length_take, List.length_drop]
    omega
  have hmem : (f.arcfourOpen rc4key).mem = overwrite f.mem f.attrib.payload (r.1 ++ r'.1) := by
    have hsplit : f.len - f.attrib.payload = n + 4 := by omega
    rw [arcfourOpen, write_mem, hsplit, slice_add, arcfourEncrypt_append]
  have hroom : f.attrib.payload + r.1.length + r'.1.length ≤ f.mem.length := by omega
  obtain ⟨hpayload, hicv⟩ := slice_overwrite hroom
  have hcrc : (f.arcfourOpen rc4key).crcOk = true := by
    simp only [icvVerifies, Bool.and_eq_true] at h
    exact h.2
  have hlow : f.len - f.attrib.payload - 4 = n := by omega
  have hhigh : f.len - 4 = f.attrib.payload + n := by omega
  have hattrib : (f.arcfourOpen rc4key).attrib = f.attrib := rfl
  have hlength : (f.arcfourOpen rc4key).len = f.len := rfl
  rw [crcOk, hattrib, hlength, hmem, hlow, hhigh, beq_iff_eq] at hcrc
  rw [hlen] at hpayload hicv
  rw [hlen'] at hicv
  rw [hpayload, hicv] at hcrc
  exact hcrc.symm

/-- At most one ICV verifies behind a payload. -/
theorem icvVerifies_unique {f g : RecvFrame} {rc4key : List UInt8} {n : ℕ}
    (hf : f.len = f.attrib.payload + n + 4) (hg : g.len = g.attrib.payload + n + 4)
    (hpayload : slice f.mem f.attrib.payload n = slice g.mem g.attrib.payload n)
    (hf' : f.icvVerifies rc4key = true) (hg' : g.icvVerifies rc4key = true) :
    slice f.mem (f.attrib.payload + n) 4 = slice g.mem (g.attrib.payload + n) 4 := by
  have hicv := icvVerifies_spec hf hf'
  have hicv' := icvVerifies_spec hg hg'
  rw [hpayload] at hicv
  exact arcfourEncrypt_injective _ (hicv.trans hicv'.symm)

end RecvFrame

theorem RecvFrame.readKeyIndex_attrib (f : RecvFrame) : ∃ keyIndex,
    f.readKeyIndex.attrib = { f.attrib with keyIndex := keyIndex } := by
  unfold RecvFrame.readKeyIndex
  split
  · exact ⟨_, rfl⟩
  · exact ⟨f.attrib.keyIndex, rfl⟩

/-- A WEP frame for the software that is no fragment. -/
structure WepShaped (attrib : RxPktAttrib) : Prop where
  encrypt : attrib.encrypt = .wep40
  bdecrypted : attrib.bdecrypted = false
  mfrag : attrib.mfrag = false
  fragNum : attrib.fragNum = 0

instance : DecidablePred WepShaped := fun attrib => decidable_of_iff
  (attrib.encrypt = .wep40 ∧ attrib.bdecrypted = false ∧ attrib.mfrag = false ∧ attrib.fragNum = 0)
  ⟨fun ⟨h₁, h₂, h₃, h₄⟩ => ⟨h₁, h₂, h₃, h₄⟩, fun ⟨h₁, h₂, h₃, h₄⟩ => ⟨h₁, h₂, h₃, h₄⟩⟩

theorem WepShaped.readKeyIndex {f : RecvFrame} (h : WepShaped f.attrib) :
    WepShaped f.readKeyIndex.attrib := by
  obtain ⟨keyIndex, heq⟩ := f.readKeyIndex_attrib
  rw [heq]
  exact ⟨h.encrypt, h.bdecrypted, h.mfrag, h.fragNum⟩

namespace Receiver
variable {s : Receiver} {f : RecvFrame}

/-- The comparison with the ICV of a WEP frame is not heeded. -/
theorem decryptor_wep (hf : WepShaped f.attrib) : s.decryptor f =
    (s.behindCipher f.readKeyIndex, some (rtwWepDecrypt s.sec f.readKeyIndex)) := by
  have hread := hf.readKeyIndex
  have hopens : s.sec.opens f.readKeyIndex.attrib = true := by
    simp only [SecurityPriv.opens, hread.encrypt, hread.bdecrypted]
    rfl
  have hdecrypted : swDecryptFrame s.sec s.stapriv s.message f.readKeyIndex =
      ⟨.success, rtwWepDecrypt s.sec f.readKeyIndex, s.message⟩ := by
    simp only [swDecryptFrame, hread.encrypt]
  simp only [decryptor, hopens, if_true, behindCipher, hdecrypted]

/-- A whole WEP frame is passed on. -/
theorem chkDefrag_wep (hf : WepShaped f.attrib) :
    s.chkDefrag f = (s.log (.checked s.sec s.stapriv f), some f) := by
  have hqueue : s.stapriv.queueFragment f = (s.stapriv, ⟨some f, [], 0⟩) := by
    simp [StaPriv.queueFragment, hf.mfrag, hf.fragNum]
  have hchk : s.stapriv.recvframeChkDefrag s.sec f = (s.stapriv, ⟨some f, [], 0⟩) := by
    simp [StaPriv.recvframeChkDefrag, hqueue, recvframeChkmic, hf.encrypt]
  have hacts : s.defragActs f = [.checked s.sec s.stapriv f] := by
    simp [defragActs, hqueue, hf.fragNum]
  simp only [chkDefrag, hchk, hacts]
  rfl

/-- Without reordering, a driver that runs hands up whatever comes to the port. -/
theorem handUp_running {orig : ℕ} (hht : s.mlme.htOption = false)
    (hrunning : s.flags.running = true) :
    s.handUp orig f = (s.atPort orig f).perform (.indicated (wlanhdrToEthhdr f)) := by
  have hht' : (s.atPort orig f).mlme.htOption = false := hht
  have hrunning' : (s.atPort orig f).flags.running = true := hrunning
  simp only [handUp, processRecvIndicatepkts, hht', hrunning', Bool.false_eq_true, if_false,
    if_true]

/-- The state when a whole WEP frame has been handed up. -/
def behindWep (s : Receiver) (f : RecvFrame) : Receiver :=
  let p := rtwWepDecrypt s.sec f.readKeyIndex
  let sec := { s.sec with hwDecrypted := false }
  let acts := s.acts ++ [RecvAct.opened s.sec s.stapriv f.readKeyIndex,
    .checked sec s.stapriv p, .port s.mlme s.flags s.stapriv f.id p, .indicated (wlanhdrToEthhdr p)]
  { s with sec := sec, acts := acts }.rtwFreeRecvframe f.id

/-- A whole WEP frame is handed up, whatever its ICV. -/
theorem recvFuncPosthandle_wep (hf : WepShaped f.attrib) (hht : s.mlme.htOption = false)
    (hrunning : s.flags.running = true) : s.recvFuncPosthandle f = s.behindWep f := by
  let p := rtwWepDecrypt s.sec f.readKeyIndex
  have hp : WepShaped p.attrib := hf.readKeyIndex
  have hid : (wlanhdrToEthhdr p).id = f.id := (wlanhdrToEthhdr_id p).trans (readKeyIndex_id f)
  rcases s.recvFuncPosthandle_cases f with ⟨hnone, -⟩ | ⟨g, hg, hnone, -⟩ | ⟨g, q, hg, hq, heq⟩
  · rw [decryptor_wep hf] at hnone
    cases hnone
  · rw [decryptor_wep hf] at hg hnone
    cases hg
    rw [chkDefrag_wep hp] at hnone
    cases hnone
  · rw [decryptor_wep hf] at hg hq heq
    cases hg
    rw [chkDefrag_wep hp] at hq heq
    cases hq
    rw [heq]
    simp only [handUp_running (s := (s.behindCipher f.readKeyIndex).log _) hht hrunning, perform,
      hid]
    simp only [behindWep, log, atPort, behindCipher, swDecryptFrame, hf.readKeyIndex.encrypt,
      List.append_assoc, List.cons_append, List.nil_append]
    rfl

/-- What `recv_func_posthandle` gets of a data frame. -/
def validated (s : Receiver) (f : RecvFrame) : Option (Receiver × RecvFrame) :=
  s.pool.take.bind fun taken =>
    let f := { f with id := taken.1 }
    (validateRecvDataFrame s.mlme s.sec s.stapriv (readHeader f)).map fun valid =>
      ({ s with pool := taken.2, stapriv := valid.1, acts := [.received f] }, valid.2)

/-- A WEP frame goes to the decryptor at once, and is handed up. -/
theorem step_wep {r : Receiver × RecvFrame} (hf : WepShaped r.2.attrib)
    (hht : s.mlme.htOption = false) (hrunning : s.flags.running = true)
    (hbusetkipkey : s.sec.busetkipkey = false) (hwep : s.sec.dot11PrivacyAlgrthm = .wep40)
    (hversion : (f.mem.getD 0 0 &&& 3 != 0) = false) (hdata : getFrameType f.mem = wifiDataType)
    (hr : s.validated f = some r) :
    s.step (.recv f) = r.1.behindWep r.2 := by
  obtain ⟨⟨id, pool⟩, htake, hvalid⟩ := Option.bind_eq_some_iff.mp hr
  obtain ⟨⟨stapriv, g⟩, hg, rfl⟩ := Option.map_eq_some_iff.mp hvalid
  have hmem : (readHeader { f with id := id }).mem = f.mem := by
    unfold readHeader
    dsimp only
    split <;> rfl
  have hdrain : (s.mlme.stationState && s.sec.busetkipkey) = false := by
    rw [hbusetkipkey, Bool.and_false]
  have hmgt : wifiDataType ≠ wifiMgtType := by decide
  simp only [step, recvEntry, htake, recvFunc, log, recvFrame, hdrain, hversion, hmem, hdata, hmgt,
    hg, List.nil_append, Bool.false_eq_true, if_false, if_true]
  rw [if_neg (by simp [waitsForKey, hwep])]
  exact recvFuncPosthandle_wep hf hht hrunning

end Receiver

end Rtl8188eu

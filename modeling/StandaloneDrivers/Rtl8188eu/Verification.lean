import StandaloneDrivers.Rtl8188eu.Decryptor
import StandaloneDrivers.Rtl8188eu.RecvDefrag

/-! When the integrity codes of a protected frame verify, and what the decryptors say about it. -/
namespace Rtl8188eu
open Foundations

namespace RecvFrame
variable (f : RecvFrame)

/-- The ICV behind the decrypted payload is its CRC. -/
def icvVerifies (rc4key : List UInt8) : Bool :=
  decide (f.attrib.payload + 4 ≤ f.len) && (f.arcfourOpen rc4key).crcOk

/-- What CCM covers besides the payload; a field for HT control is no part of it. -/
def ccmHeader : CcmHeader where
  mpdu := f.mem
  hdrlen := 24 + (if f.attrib.toFrDs = 3 then 6 else 0) + if f.attrib.qos then 2 else 0
  qc := f.attrib.qos
  a4 := f.attrib.toFrDs == 3
  pn := pnVector f.mem f.attrib.hdrlen

/-- The code behind the payload is that of the decrypted payload. -/
def ccmVerifies (key : Keytype) : Bool :=
  let n := f.len - f.attrib.payload - 8
  let payload := ccmCtr key f.ccmHeader (bytesAt f.mem f.attrib.payload n)
  decide (f.attrib.payload + 8 ≤ f.len) &&
    ccmCtrMic key f.ccmHeader (ccmMic key f.ccmHeader payload) ==
      bytesAt f.mem (f.attrib.payload + n) 8

/-- A frame long enough for its code and not too long for the static buffer, with a header of three
addresses and no HT control. -/
structure CcmShaped : Prop where
  ivLen : f.attrib.ivLen = 8
  hdrlen : f.attrib.hdrlen = if f.attrib.qos then 26 else 24
  toFrDs : f.attrib.toFrDs ≠ 3
  qos : qcExists f.mem = f.attrib.qos
  long : f.attrib.payload + 8 ≤ f.len
  short : f.len ≤ maxMsgSize

instance : Decidable f.CcmShaped := decidable_of_iff
  (f.attrib.ivLen = 8 ∧ (f.attrib.hdrlen = if f.attrib.qos then 26 else 24) ∧
    f.attrib.toFrDs ≠ 3 ∧ qcExists f.mem = f.attrib.qos ∧ f.attrib.payload + 8 ≤ f.len ∧
      f.len ≤ maxMsgSize)
  ⟨fun ⟨h₁, h₂, h₃, h₄, h₅, h₆⟩ => ⟨h₁, h₂, h₃, h₄, h₅, h₆⟩,
    fun ⟨h₁, h₂, h₃, h₄, h₅, h₆⟩ => ⟨h₁, h₂, h₃, h₄, h₅, h₆⟩⟩

end RecvFrame

/-- The ICV or the CCM code of a frame verifies. -/
def mpduVerifies (sec : SecurityPriv) (stapriv : StaPriv) (f : RecvFrame) : Bool :=
  match f.attrib.encrypt with
  | .wep40 | .wep104 => f.icvVerifies (wepkey f.iv (keyAt sec.dot11DefKey f.attrib.keyIndex)
      (sec.dot11DefKeylen[f.attrib.keyIndex]?.getD 0))
  | .tkip => (rxUncstKey sec stapriv f.attrib).any fun prwskey =>
      f.icvVerifies (tkipRc4key prwskey f.attrib.ta f.iv)
  | .aes => (rxUncstKey sec stapriv f.attrib).any f.ccmVerifies
  | _ => true

/-- The Michael code of a frame that has been put together verifies. -/
def micVerifies (sec : SecurityPriv) (stapriv : StaPriv) (f : RecvFrame) : Bool :=
  (stapriv.station f.attrib.ta).any fun stainfo => f.micOk (rxMickey sec stainfo f.attrib)

namespace CcmHeader

/-- Two headers that say the same where they are read. -/
structure Agree (h h' : CcmHeader) : Prop where
  hdrlen : h.hdrlen = h'.hdrlen
  qc : h.qc = h'.qc
  a4 : h.a4 = false
  a4' : h'.a4 = false
  pn : h.pn = h'.pn
  bytes : ∀ j < (if h.qc then 26 else 24), h.mpdu.getD j 0 = h'.mpdu.getD j 0

variable {h h' : CcmHeader}

theorem Agree.low (hh : Agree h h') {j : ℕ} (hj : j < 24) :
    h.mpdu.getD j 0 = h'.mpdu.getD j 0 := hh.bytes j (by split <;> omega)

theorem Agree.qosTc (hh : Agree h h') : h.qosTc = h'.qosTc := by
  simp only [CcmHeader.qosTc, ← hh.qc, hh.a4, hh.a4']
  cases hq : h.qc with
  | false => rfl
  | true =>
    have hbyte := hh.bytes 24 (by rw [hq]; decide)
    simp only [Bool.false_eq_true, if_false, if_true, hbyte]

theorem Agree.range (hh : Agree h h') {i n : ℕ} (hn : i + n ≤ 24) :
    (List.range n).map (fun j => h.mpdu.getD (i + j) 0) =
      (List.range n).map fun j => h'.mpdu.getD (i + j) 0 := by
  apply List.map_congr_left
  intro j hj
  have := List.mem_range.mp hj
  exact hh.low (by omega)

theorem Agree.nonceBlock (hh : Agree h h') (flag : UInt8) (n : ℕ) :
    h.nonceBlock flag n = h'.nonceBlock flag n := by
  simp only [CcmHeader.nonceBlock, nonce, hh.qosTc, hh.pn, hh.range (show 10 + 6 ≤ 24 by omega)]

theorem Agree.constructMicHeader1 (hh : Agree h h') :
    h.constructMicHeader1 = h'.constructMicHeader1 := by
  simp only [CcmHeader.constructMicHeader1, hh.hdrlen, hh.low (show 0 < 24 by omega),
    hh.low (show 1 < 24 by omega), hh.range (show 4 + 12 ≤ 24 by omega)]

theorem Agree.constructMicHeader2 (hh : Agree h h') :
    h.constructMicHeader2 = h'.constructMicHeader2 := by
  simp only [CcmHeader.constructMicHeader2, hh.a4, hh.a4', ← hh.qc,
    hh.range (show 16 + 6 ≤ 24 by omega)]
  cases hq : h.qc with
  | false => rfl
  | true =>
    have hbyte := hh.bytes 24 (by rw [hq]; decide)
    simp only [Bool.false_eq_true, if_false, if_true, hbyte]

theorem Agree.ccmMic (hh : Agree h h') (key : Block) (payload : List UInt8) :
    ccmMic key h payload = ccmMic key h' payload := by
  simp only [Rtl8188eu.ccmMic, constructMicIv, hh.nonceBlock, hh.constructMicHeader1,
    hh.constructMicHeader2]

theorem Agree.ccmCtr (hh : Agree h h') (key : Block) (payload : List UInt8) :
    ccmCtr key h payload = ccmCtr key h' payload := by
  simp only [Rtl8188eu.ccmCtr, constructCtrPreload, hh.nonceBlock]

theorem Agree.ccmCtrMic (hh : Agree h h') (key : Block) (mic : List UInt8) :
    ccmCtrMic key h mic = ccmCtrMic key h' mic := by
  simp only [Rtl8188eu.ccmCtrMic, constructCtrPreload, hh.nonceBlock]

end CcmHeader

section
variable {data bytes : List UInt8} {i j n : ℕ}

theorem bytesAt_congr {data' : List UInt8} {i' : ℕ}
    (h : ∀ j < n, data.getD (i + j) 0 = data'.getD (i' + j) 0) :
    bytesAt data i n = bytesAt data' i' n := by
  apply List.map_congr_left
  intro j hj
  exact h j (List.mem_range.mp hj)

theorem bytesAt_length (data : List UInt8) (i n : ℕ) : (bytesAt data i n).length = n := by
  rw [bytesAt, List.length_map, List.length_range]

theorem bytesAt_self (bytes : List UInt8) : bytesAt bytes 0 bytes.length = bytes := by
  apply List.ext_getElem
  · exact bytesAt_length _ _ _
  · intro j _ hj
    simp only [bytesAt, List.getElem_map, List.getElem_range, Nat.zero_add]
    exact List.getD_eq_getElem _ _ hj

/-- The second part of what was written is read again. -/
theorem bytesAt_overwrite_append {bytes' : List UInt8}
    (h : i + bytes.length + bytes'.length ≤ data.length) :
    bytesAt (overwrite data i (bytes ++ bytes')) (i + bytes.length) bytes'.length = bytes' := by
  have hread : bytesAt (overwrite data i (bytes ++ bytes')) (i + bytes.length) bytes'.length =
      bytesAt bytes' 0 bytes'.length := by
    apply bytesAt_congr
    intro j hj
    have hinside : (overwrite data i (bytes ++ bytes')).getD (i + (bytes.length + j)) 0 =
        (bytes ++ bytes').getD (bytes.length + j) 0 := by
      apply overwrite_getD_inside
      · rw [List.length_append]
        omega
      · rw [List.length_append]
        omega
    rw [Nat.add_assoc, hinside, List.getD_append_right _ _ _ _ (by omega),
      Nat.add_sub_cancel_left, Nat.zero_add]
  rw [hread, bytesAt_self]

/-- What was written is read again. -/
theorem bytesAt_overwrite (h : i + bytes.length ≤ data.length) :
    bytesAt (overwrite data i bytes) i bytes.length = bytes := by
  have hread : bytesAt (overwrite data i ([] ++ bytes)) (i + 0) bytes.length = bytes :=
    bytesAt_overwrite_append h
  exact hread

end

theorem pnVector_congr {mpdu mpdu' : List UInt8} {hdrlen : ℕ}
    (h : ∀ j < hdrlen + 8, mpdu.getD j 0 = mpdu'.getD j 0) :
    pnVector mpdu hdrlen = pnVector mpdu' hdrlen := by
  simp only [pnVector, List.map_cons, List.map_nil, h (hdrlen + 0) (by omega),
    h (hdrlen + 1) (by omega), h (hdrlen + 4) (by omega), h (hdrlen + 5) (by omega),
    h (hdrlen + 6) (by omega), h (hdrlen + 7) (by omega)]

section
variable {f : RecvFrame} {key : Keytype} {message : List UInt8}

theorem ccmCtrMic_length (key : Block) (h : CcmHeader) (payload : List UInt8) :
    (ccmCtrMic key h (ccmMic key h payload)).length = 8 := by
  simp only [ccmCtrMic, List.length_zipWith, ccmMic_length, Vector.length_toList]
  rfl

/-- The header of a frame, read from any buffer that begins with its bytes. -/
theorem ccmHeader_agree (hf : f.CcmShaped) {mpdu : List UInt8}
    (hbytes : ∀ j < f.attrib.hdrlen + 8, mpdu.getD j 0 = f.mem.getD j 0) :
    CcmHeader.Agree ⟨mpdu, f.attrib.hdrlen, qcExists f.mem, a4Exists f.attrib.hdrlen,
      pnVector mpdu f.attrib.hdrlen⟩ f.ccmHeader where
  hdrlen := by
    rw [hf.hdrlen, RecvFrame.ccmHeader, if_neg hf.toFrDs]
    split <;> rfl
  qc := hf.qos
  a4 := by
    rw [hf.hdrlen]
    split <;> rfl
  a4' := by simpa [RecvFrame.ccmHeader] using hf.toFrDs
  pn := pnVector_congr hbytes
  bytes j hj := by
    apply hbytes
    have hlow : j < if f.attrib.qos then 26 else 24 := by rwa [← hf.qos]
    rw [hf.hdrlen]
    omega

/-- What `aes_decipher` accepts verifies. -/
theorem aesDecipher_verifies (hf : f.CcmShaped) (hm : message.length = maxMsgSize)
    (h : (aesDecipher key message f).status = .success) : f.ccmVerifies key = true := by
  have hpayload : f.attrib.payload = f.attrib.hdrlen + 8 := by
    rw [RxPktAttrib.payload, hf.ivLen]
  have hccm : ccmHdrlen f.attrib.hdrlen f.mem = f.attrib.hdrlen := by
    rw [ccmHdrlen, hf.qos, hf.hdrlen]
    cases f.attrib.qos <;> rfl
  have hlong := hf.long
  have hshort := hf.short
  have hfits := f.fits
  obtain ⟨n, hn⟩ : ∃ n, f.len - f.attrib.payload - 8 = n := ⟨_, rfl⟩
  let plain := ccmCtr key f.ccmHeader (bytesAt f.mem f.attrib.payload n)
  have hagree := ccmHeader_agree hf fun j _ => rfl
  have hlength : plain.length = n := by rw [ccmCtr_length, bytesAt_length]
  let opened := overwrite f.mem f.attrib.payload plain
  let copied := overwrite message 0 (opened.take f.len)
  have htake : (opened.take f.len).length = f.len := by
    rw [List.length_take, overwrite_length]
    omega
  have hcopied (j : ℕ) (hj : j < f.len) : copied.getD j 0 = opened.getD j 0 := by
    have hinside : copied.getD (0 + j) 0 = (opened.take f.len).getD j 0 :=
      overwrite_getD_inside (by omega) (by omega)
    rw [Nat.zero_add] at hinside
    rw [hinside, List.getD_eq_getElem?_getD, List.getElem?_take_of_lt hj,
      List.getD_eq_getElem?_getD]
  have hopened (j : ℕ) (hj : j < f.attrib.payload) : opened.getD j 0 = f.mem.getD j 0 :=
    overwrite_getD_before hj
  have hsame : bytesAt copied f.attrib.payload n = plain := by
    have hread : bytesAt copied f.attrib.payload n = bytesAt opened f.attrib.payload n :=
      bytesAt_congr fun j hj => hcopied _ (by omega)
    have hwritten : bytesAt opened f.attrib.payload plain.length = plain :=
      bytesAt_overwrite (by omega)
    rw [hread, ← hlength, hwritten]
  have hcode : bytesAt opened (f.attrib.payload + n) 8 =
      bytesAt f.mem (f.attrib.payload + n) 8 := by
    apply bytesAt_congr
    intro j _
    exact overwrite_getD_behind (by omega)
  have hagree' := ccmHeader_agree hf (fun j (hj : j < f.attrib.hdrlen + 8) => by
    rw [hcopied j (by omega), hopened j (by omega)])
  have hpn : pnVector opened f.attrib.hdrlen = pnVector copied f.attrib.hdrlen :=
    pnVector_congr fun j hj => (hcopied j (by omega)).symm
  have hlen : f.attrib.hdrlen + (f.len - f.attrib.payload) + 8 = f.len := by omega
  let mic := ccmCtrMic key f.ccmHeader (ccmMic key f.ccmHeader plain)
  have hcopiedLength : copied.length = maxMsgSize := by rw [overwrite_length, hm]
  have hsealed : bytesAt (overwrite copied f.attrib.payload
      (ccmCtr key f.ccmHeader plain ++ mic)) (f.attrib.payload + n) 8 = mic := by
    have hmic : mic.length = 8 := ccmCtrMic_length _ _ _
    have hread : bytesAt (overwrite copied f.attrib.payload (ccmCtr key f.ccmHeader plain ++ mic))
        (f.attrib.payload + (ccmCtr key f.ccmHeader plain).length) mic.length = mic := by
      apply bytesAt_overwrite_append
      rw [ccmCtr_length]
      omega
    rwa [ccmCtr_length, hlength, hmic] at hread
  unfold aesDecipher at h
  simp only [hccm, hn, hlen, if_pos hf.short, RecvFrame.write_mem, ← hpayload,
    hagree.ccmCtr] at h
  split at h
  · rename_i hequal
    let header : CcmHeader := ⟨copied, f.attrib.hdrlen, qcExists f.mem,
      a4Exists f.attrib.hdrlen, pnVector opened f.attrib.hdrlen⟩
    have hheader : header.Agree f.ccmHeader :=
      ⟨hagree'.hdrlen, hagree'.qc, hagree'.a4, hagree'.a4', hpn.trans hagree'.pn, hagree'.bytes⟩
    have hcompared : bytesAt opened (f.attrib.payload + n) 8 = bytesAt (overwrite copied
        f.attrib.payload (ccmCtr key header (bytesAt copied f.attrib.payload n) ++
          ccmCtrMic key header (ccmMic key header (bytesAt copied f.attrib.payload n))))
            (f.attrib.payload + n) 8 := hequal
    rw [hsame, hheader.ccmCtr, hheader.ccmMic, hheader.ccmCtrMic, hsealed, hcode] at hcompared
    simp only [RecvFrame.ccmVerifies, hn, Bool.and_eq_true, decide_eq_true_eq, beq_iff_eq]
    exact ⟨hlong, hcompared.symm⟩
  · cases h

theorem aesDecipher_message (key : Keytype) (message : List UInt8) (f : RecvFrame) :
    (aesDecipher key message f).message.length = message.length := by
  unfold aesDecipher
  simp only [overwrite_length]
  split
  · rw [overwrite_length]
  · rfl

theorem swDecryptFrame_message (sec : SecurityPriv) (stapriv : StaPriv) (message : List UInt8)
    (f : RecvFrame) : (swDecryptFrame sec stapriv message f).message.length = message.length := by
  unfold swDecryptFrame
  split
  · rfl
  · rfl
  · rfl
  · unfold rtwAesDecrypt
    split
    · rfl
    · split
      · rfl
      · exact aesDecipher_message _ _ _
  · rfl

/-- The condition under which a decryptor accepts only what verifies: the ICV of a WEP frame is not
heeded, and the other ciphers have to find their codes. -/
def MpduCheckable (sec : SecurityPriv) (stapriv : StaPriv) (f : RecvFrame) : Prop :=
  match f.attrib.encrypt with
  | .wep40 | .wep104 => mpduVerifies sec stapriv f = true
  | .tkip => (rxUncstKey sec stapriv f.attrib).isSome = true → f.attrib.payload + 4 ≤ f.len
  | .aes => (rxUncstKey sec stapriv f.attrib).isSome = true → f.CcmShaped
  | _ => True

instance (sec : SecurityPriv) (stapriv : StaPriv) (f : RecvFrame) :
    Decidable (MpduCheckable sec stapriv f) := by
  unfold MpduCheckable
  split <;> infer_instance

theorem swDecryptFrame_verifies {sec : SecurityPriv} {stapriv : StaPriv}
    (hf : MpduCheckable sec stapriv f) (hm : message.length = maxMsgSize)
    (h : (swDecryptFrame sec stapriv message f).status = .success) :
    mpduVerifies sec stapriv f = true := by
  unfold MpduCheckable at hf
  unfold swDecryptFrame at h
  split at hf
  · exact hf
  · exact hf
  · rename_i htkip
    simp only [htkip, rtwTkipDecrypt] at h
    simp only [mpduVerifies, htkip]
    cases hkey : rxUncstKey sec stapriv f.attrib with
    | none =>
      rw [hkey] at h
      cases h
    | some prwskey =>
      rw [hkey] at h hf
      simp only at h
      split at h
      · rename_i hcrc
        simp only [Option.any_some, RecvFrame.icvVerifies, hcrc, hf rfl, decide_true,
          Bool.and_self]
      · cases h
  · rename_i haes
    simp only [haes, rtwAesDecrypt] at h
    simp only [mpduVerifies, haes]
    cases hkey : rxUncstKey sec stapriv f.attrib with
    | none =>
      rw [hkey] at h
      cases h
    | some prwskey =>
      rw [hkey] at h hf
      simp only at h
      split at h
      · cases h
      · exact aesDecipher_verifies (hf rfl) hm h
  · unfold mpduVerifies
    split <;> simp_all

end

end Rtl8188eu

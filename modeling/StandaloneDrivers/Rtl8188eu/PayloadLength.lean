import StandaloneDrivers.Rtl8188eu.RecvLog

/-! The payload lengths that are computed of a data frame behind `validate_recv_frame`, as integers:
in the ciphers, in the Michael check, and in the header conversion (rtw_security.c, rtw_recv.c). -/
namespace Rtl8188eu
open Foundations
attribute [local instance] neZero_sixteen
attribute [local instance] neZero_seqRange

namespace RecvFrame
variable (f : RecvFrame)

/-- `length` of `rtw_wep_decrypt` and `rtw_tkip_decrypt`, and `plen` of `aes_decipher`. -/
def payloadLength : ℤ := (f.len : ℤ) - f.attrib.hdrlen - f.attrib.ivLen

/-- `datalen` of `recvframe_chkmic` -/
def datalen : ℤ := (f.len : ℤ) - f.attrib.hdrlen - f.attrib.ivLen - f.attrib.icvLen - 8

/-- What `wlanhdr_to_ethhdr` removes at the front. -/
def rmvLen : ℕ := f.attrib.payload + if bsnaphdr f then snapSize else 0

/-- The frame without its ICV. -/
def withoutIcv : RecvFrame :=
  if f.attrib.encrypt != .noPrivacy then f.pullTail f.attrib.icvLen else f

/-- `len` of `wlanhdr_to_ethhdr` -/
def ethLength : ℤ := (f.withoutIcv.len : ℤ) - f.rmvLen

/-- No fragment. -/
def Unfragmented : Prop := f.attrib.mfrag = false ∧ f.attrib.fragNum = 0

end RecvFrame

/-- Whether the cipher of a frame has a key for it. -/
def softKeyed (sec : SecurityPriv) (stapriv : StaPriv) (attrib : RxPktAttrib) : Bool :=
  match attrib.encrypt with
  | .wep40 | .wep104 => true
  | .tkip => (rxUncstKey sec stapriv attrib).isSome
  | .aes => (rxUncstKey sec stapriv attrib).isSome &&
      !(isMcast attrib.ra && sec.dot118021XGrpKeyid.val != attrib.keyIndex)
  | _ => false

/-- The lengths in the cipher of a frame. -/
def softLengths (sec : SecurityPriv) (stapriv : StaPriv) (f : RecvFrame) : List ℤ :=
  if softKeyed sec stapriv f.attrib then
    match f.attrib.encrypt with
    | .aes => [f.payloadLength - 8]
    | _ => [f.payloadLength, f.payloadLength - 4]
  else []

/-- Whether the Michael code of a frame is computed. -/
def micChecked (stapriv : StaPriv) (f : RecvFrame) : Bool :=
  f.attrib.privacy && f.attrib.encrypt == .tkip && (stapriv.station f.attrib.ta).isSome

namespace Receiver
variable (s : Receiver)

/-- The frame that comes out of the reassembly when `f` goes in at `recv_func_posthandle`, and the
stations at that time. -/
def reassembled (f : RecvFrame) : Option (StaPriv × RecvFrame) :=
  match s.decryptor f with
  | (_, none) => none
  | (s, some f) =>
      let r := s.stapriv.queueFragment f
      r.2.frame.map fun g => (r.1, g)

/-- Whether `process_recv_indicatepkts` gives a frame to `wlanhdr_to_ethhdr`. -/
def converts (f : RecvFrame) : Bool :=
  !s.mlme.htOption || (!f.attrib.amsdu &&
    (f.psta.bind fun slot => s.stapriv.preorderCtrl slot f.attrib.priority).isSome)

/-- The frame that comes to `wlanhdr_to_ethhdr`. -/
def converted (f : RecvFrame) : Option RecvFrame :=
  match s.decryptor f with
  | (_, none) => none
  | (s, some f) =>
      match s.chkDefrag f with
      | (_, none) => none
      | (s, some f) => if portctrl s.sec s.stapriv f && s.converts f then some f else none

/-- All payload lengths that `recv_func_posthandle` computes. -/
def payloadLengths (f : RecvFrame) : List ℤ :=
  (if s.sec.opens f.readKeyIndex.attrib then softLengths s.sec s.stapriv f.readKeyIndex else []) ++
    ((s.reassembled f).elim [] (fun r => if micChecked r.1 r.2 then [r.2.datalen] else []) ++
      (s.converted f).elim [] fun p => [p.ethLength])

/-- Each stage has the bytes that it takes off: a cipher its header, IV and ICV, the Michael check
the code too, and the conversion what it removes. -/
structure LongEnough (f : RecvFrame) : Prop where
  opened : s.sec.opens f.readKeyIndex.attrib = true →
    softKeyed s.sec s.stapriv f.readKeyIndex.attrib = true →
      f.attrib.payload + f.attrib.icvLen ≤ f.len
  checked : ∀ r, s.reassembled f = some r → micChecked r.1 r.2 = true →
    r.2.attrib.payload + r.2.attrib.icvLen + 8 ≤ r.2.len
  converted : ∀ p, s.converted f = some p → p.rmvLen ≤ p.withoutIcv.len

/-- The same of a frame that is no fragment, in its own bytes: nothing has become longer or shorter
but for the code that the Michael check takes off. -/
structure WholeLongEnough (f : RecvFrame) : Prop where
  opened : s.sec.opens f.readKeyIndex.attrib = true →
    softKeyed s.sec s.stapriv f.readKeyIndex.attrib = true →
      f.attrib.payload + f.attrib.icvLen ≤ f.len
  checked : ∀ r, s.reassembled f = some r → micChecked r.1 r.2 = true →
    f.attrib.payload + f.attrib.icvLen + 8 ≤ f.len
  converted : ∀ p, s.converted f = some p →
    f.attrib.payload + f.attrib.icvLen + (if f.attrib.encrypt = .tkip then 8 else 0) +
      (if bsnaphdr p then snapSize else 0) ≤ f.len

end Receiver

/-- A data frame that `validate_recv_frame` has accepted. -/
def Accepted (f : RecvFrame) : Prop :=
  ∃ (mlme : MlmePriv) (sec : SecurityPriv) (stapriv stapriv' : StaPriv) (g : RecvFrame),
    (g.mem.getD 0 0 &&& 3 != 0) = false ∧ getFrameType g.mem = wifiDataType ∧
      validateRecvDataFrame mlme sec stapriv (readHeader g) = some (stapriv', f)

/-- `icv_len` of a cipher -/
def icvSize : EncryAlgo → ℕ
  | .wep40 | .wep104 | .tkip => 4
  | .aes => 8
  | .other code => if code = 6 then 16 else 0
  | _ => 0

theorem icvSize_le (cipher : EncryAlgo) : icvSize cipher ≤ 16 := by
  unfold icvSize
  split
  · decide
  · decide
  · decide
  · decide
  · split
    · decide
    · decide
  · decide

/-- What an accepted frame says of its header and its cipher. -/
structure Sized (attrib : RxPktAttrib) : Prop where
  hdrlen : 24 ≤ attrib.hdrlen
  icvLen : attrib.icvLen = icvSize attrib.encrypt
  privacy : attrib.encrypt ≠ .noPrivacy → attrib.privacy = true

theorem setIceIvLen_sized {attrib : RxPktAttrib} (h : 24 ≤ attrib.hdrlen)
    (hprivacy : attrib.privacy = true) : Sized (setIceIvLen attrib) := by
  unfold setIceIvLen
  split
  · rename_i hcipher
    exact ⟨h, by simp only [hcipher, icvSize], fun _ => hprivacy⟩
  · rename_i hcipher
    exact ⟨h, by simp only [hcipher, icvSize], fun _ => hprivacy⟩
  · rename_i hcipher
    exact ⟨h, by simp only [hcipher, icvSize], fun _ => hprivacy⟩
  · rename_i hcipher
    exact ⟨h, by simp only [hcipher, icvSize], fun _ => hprivacy⟩
  · rename_i hcipher
    exact ⟨h, by simp only [hcipher, icvSize, ↓reduceIte], fun _ => hprivacy⟩
  · rename_i hwep40 hwep104 htkip haes hother
    refine ⟨h, ?_, fun _ => hprivacy⟩
    cases hcipher : attrib.encrypt with
    | wep40 => exact absurd hcipher hwep40
    | wep104 => exact absurd hcipher hwep104
    | tkip => exact absurd hcipher htkip
    | aes => exact absurd hcipher haes
    | noPrivacy => rfl
    | tkipWtmic => rfl
    | other code =>
      have hcode : code ≠ 6 := by
        rintro rfl
        exact hother hcipher
      simp only [icvSize, if_neg hcode]

theorem cipherAttrib_sized {sec : SecurityPriv} {cipher : EncryAlgo} {attrib : RxPktAttrib}
    (h : 24 ≤ attrib.hdrlen) : Sized (cipherAttrib sec cipher attrib) := by
  unfold cipherAttrib
  split
  · rename_i hprivacy
    exact setIceIvLen_sized h hprivacy
  · exact ⟨h, rfl, fun hne => absurd rfl hne⟩

theorem qosAttrib_hdrlen (data : List UInt8) (attrib : RxPktAttrib) :
    24 ≤ (qosAttrib data attrib).hdrlen := by
  have hbase : 24 ≤ if attrib.toFrDs = 3 then 30 else 24 := by
    split
    · decide
    · decide
  cases hqos : attrib.qos with
  | true =>
    simp only [qosAttrib, hqos, ↓reduceIte]
    exact Nat.le_add_right_of_le (Nat.le_add_right_of_le hbase)
  | false =>
    simp only [qosAttrib, hqos, Bool.false_eq_true, ↓reduceIte]
    exact Nat.le_add_right_of_le hbase

theorem Accepted.sized {f : RecvFrame} (h : Accepted f) : Sized f.attrib := by
  obtain ⟨mlme, sec, stapriv, stapriv', g, -, -, hvalid⟩ := h
  unfold validateRecvDataFrame at hvalid
  dsimp only at hvalid
  split at hvalid
  · obtain ⟨psta, -, hdecache⟩ := Option.bind_eq_some_iff.mp hvalid
    obtain ⟨stapriv'', -, heq⟩ := Option.map_eq_some_iff.mp hdecache
    cases heq
    exact cipherAttrib_sized (qosAttrib_hdrlen _ _)
  · cases hvalid

/-- The lengths in a cipher are there exactly with IV and ICV. -/
theorem Sized.softLengths_nonneg {sec : SecurityPriv} {stapriv : StaPriv} {f : RecvFrame}
    (h : Sized f.attrib) (hkey : softKeyed sec stapriv f.attrib = true) :
    (∀ v ∈ softLengths sec stapriv f, 0 ≤ v) ↔ f.attrib.payload + f.attrib.icvLen ≤ f.len := by
  have hicv := h.icvLen
  rw [softLengths, if_pos hkey]
  cases hcipher : f.attrib.encrypt with
  | aes =>
    rw [hcipher] at hicv
    simp only [List.forall_mem_singleton, RecvFrame.payloadLength, RxPktAttrib.payload, hicv,
      icvSize]
    omega
  | wep40 =>
    rw [hcipher] at hicv
    simp only [List.forall_mem_cons, List.not_mem_nil, false_imp_iff, implies_true, and_true,
      RecvFrame.payloadLength, RxPktAttrib.payload, hicv, icvSize]
    omega
  | wep104 =>
    rw [hcipher] at hicv
    simp only [List.forall_mem_cons, List.not_mem_nil, false_imp_iff, implies_true, and_true,
      RecvFrame.payloadLength, RxPktAttrib.payload, hicv, icvSize]
    omega
  | tkip =>
    rw [hcipher] at hicv
    simp only [List.forall_mem_cons, List.not_mem_nil, false_imp_iff, implies_true, and_true,
      RecvFrame.payloadLength, RxPktAttrib.payload, hicv, icvSize]
    omega
  | noPrivacy => simp only [softKeyed, hcipher, Bool.false_eq_true] at hkey
  | tkipWtmic => simp only [softKeyed, hcipher, Bool.false_eq_true] at hkey
  | other code => simp only [softKeyed, hcipher, Bool.false_eq_true] at hkey

theorem datalen_nonneg (f : RecvFrame) :
    0 ≤ f.datalen ↔ f.attrib.payload + f.attrib.icvLen + 8 ≤ f.len := by
  rw [RecvFrame.datalen, RxPktAttrib.payload]
  omega

theorem ethLength_nonneg (f : RecvFrame) : 0 ≤ f.ethLength ↔ f.rmvLen ≤ f.withoutIcv.len := by
  rw [RecvFrame.ethLength]
  omega

theorem readKeyIndex_attrib (f : RecvFrame) : ∃ keyIndex,
    f.readKeyIndex.attrib = { f.attrib with keyIndex := keyIndex } := by
  unfold RecvFrame.readKeyIndex
  split
  · exact ⟨_, rfl⟩
  · exact ⟨f.attrib.keyIndex, rfl⟩

theorem readKeyIndex_len (f : RecvFrame) : f.readKeyIndex.len = f.len := by
  unfold RecvFrame.readKeyIndex
  split <;> rfl

theorem Sized.readKeyIndex {f : RecvFrame} (h : Sized f.attrib) : Sized f.readKeyIndex.attrib := by
  obtain ⟨keyIndex, hattrib⟩ := readKeyIndex_attrib f
  rw [hattrib]
  exact ⟨h.hdrlen, h.icvLen, h.privacy⟩

namespace Receiver
variable {s : Receiver} {f : RecvFrame}

/-- What a cipher does not keep in its place. -/
theorem opened_nonneg (h : Sized f.attrib) :
    (∀ v ∈ (if s.sec.opens f.readKeyIndex.attrib then softLengths s.sec s.stapriv f.readKeyIndex
      else []), 0 ≤ v) ↔
      (s.sec.opens f.readKeyIndex.attrib = true →
        softKeyed s.sec s.stapriv f.readKeyIndex.attrib = true →
          f.attrib.payload + f.attrib.icvLen ≤ f.len) := by
  obtain ⟨keyIndex, hattrib⟩ := readKeyIndex_attrib f
  have hsame : f.readKeyIndex.attrib.payload + f.readKeyIndex.attrib.icvLen ≤ f.readKeyIndex.len ↔
      f.attrib.payload + f.attrib.icvLen ≤ f.len := by
    rw [hattrib, readKeyIndex_len]
    rfl
  by_cases hopens : s.sec.opens f.readKeyIndex.attrib = true
  · rw [if_pos hopens]
    by_cases hkey : softKeyed s.sec s.stapriv f.readKeyIndex.attrib = true
    · rw [h.readKeyIndex.softLengths_nonneg hkey, hsame]
      exact ⟨fun hle _ _ => hle, fun hle => hle hopens hkey⟩
    · rw [softLengths, if_neg hkey]
      exact iff_of_true (List.forall_mem_nil _) fun _ hkeyed => absurd hkeyed hkey
  · rw [if_neg hopens]
    exact iff_of_true (List.forall_mem_nil _) fun hopened => absurd hopened hopens

/-- No length is negative exactly where each stage has its bytes. -/
theorem longEnough_iff (h : Sized f.attrib) :
    (∀ v ∈ s.payloadLengths f, 0 ≤ v) ↔ s.LongEnough f := by
  have hchecked : (∀ v ∈ (s.reassembled f).elim [] (fun r => if micChecked r.1 r.2 then
      [r.2.datalen] else []), 0 ≤ v) ↔ ∀ r, s.reassembled f = some r →
        micChecked r.1 r.2 = true → r.2.attrib.payload + r.2.attrib.icvLen + 8 ≤ r.2.len := by
    cases s.reassembled f with
    | none => exact iff_of_true (List.forall_mem_nil _) fun r hr => by cases hr
    | some r =>
      simp only [Option.elim_some, Option.some.injEq, forall_eq']
      by_cases hmic : micChecked r.1 r.2 = true
      · rw [if_pos hmic, List.forall_mem_singleton, datalen_nonneg]
        exact ⟨fun hle _ => hle, fun hle => hle hmic⟩
      · rw [if_neg hmic]
        exact iff_of_true (List.forall_mem_nil _) fun hchecked => absurd hchecked hmic
  have hconverted : (∀ v ∈ (s.converted f).elim [] (fun p => [p.ethLength]), 0 ≤ v) ↔
      ∀ p, s.converted f = some p → p.rmvLen ≤ p.withoutIcv.len := by
    cases s.converted f with
    | none => exact iff_of_true (List.forall_mem_nil _) fun p hp => by cases hp
    | some p =>
      simp only [Option.elim_some, Option.some.injEq, forall_eq', List.forall_mem_singleton,
        ethLength_nonneg]
  rw [payloadLengths, List.forall_mem_append, List.forall_mem_append, opened_nonneg h, hchecked,
    hconverted]
  exact ⟨fun ⟨hopened, hmic, heth⟩ => ⟨hopened, hmic, heth⟩,
    fun ⟨hopened, hmic, heth⟩ => ⟨hopened, hmic, heth⟩⟩

/-- Decryption keeps the length and all attributes but the key index. -/
theorem decryptor_kept {g : RecvFrame} (h : (s.decryptor f).2 = some g) : Kept f.readKeyIndex g := by
  rcases s.decryptor_cases f with ⟨-, -, heq⟩ | ⟨-, -, heq⟩ | ⟨-, sec, heq⟩
  · rw [heq] at h
    cases h
    exact swDecryptFrame_kept _ _ _ _
  · rw [heq] at h
    cases h
  · rw [heq] at h
    cases h
    exact Kept.refl _

theorem queueFragment_whole (stapriv : StaPriv) {g : RecvFrame} (h : g.Unfragmented) :
    stapriv.queueFragment g = (stapriv, ⟨some g, [], 0⟩) := by
  simp only [StaPriv.queueFragment, h.1, h.2, Bool.false_eq_true, ↓reduceIte, ne_eq,
    not_true_eq_false]

theorem whole_kept {g : RecvFrame} (h : f.Unfragmented) (hg : Kept f.readKeyIndex g) : g.Unfragmented := by
  obtain ⟨keyIndex, hattrib⟩ := readKeyIndex_attrib f
  rw [RecvFrame.Unfragmented, hg.attrib, hattrib]
  exact h

/-- A frame that is no fragment comes out of the reassembly as it went in. -/
theorem reassembled_whole (hwhole : f.Unfragmented) {r : StaPriv × RecvFrame}
    (h : s.reassembled f = some r) : Kept f.readKeyIndex r.2 := by
  unfold reassembled at h
  split at h
  · cases h
  · rename_i t g heq
    have hkept : Kept f.readKeyIndex g := decryptor_kept (by rw [heq])
    simp only [queueFragment_whole _ (whole_kept hwhole hkept), Option.map_some] at h
    cases h
    exact hkept

/-- The Michael check takes off the code of a protected TKIP frame. -/
theorem chkDefrag_frame {g p : RecvFrame} (hwhole : g.Unfragmented) (h : (s.chkDefrag g).2 = some p) :
    p = if g.attrib.privacy = true ∧ g.attrib.encrypt = .tkip then g.pullTail 8 else g := by
  have hresult : (s.stapriv.recvframeChkDefrag s.sec g).2.frame = some p := h
  simp only [StaPriv.recvframeChkDefrag, queueFragment_whole _ hwhole] at hresult
  by_cases hprivacy : g.attrib.privacy = true
  · rw [if_pos hprivacy] at hresult
    by_cases htkip : g.attrib.encrypt = .tkip
    · have hframe : (recvframeChkmic s.stapriv s.sec g).2 = g.pullTail 8 := by
        rw [recvframeChkmic, if_pos htkip]
        split <;> rfl
      rw [if_pos ⟨hprivacy, htkip⟩, ← hframe]
      split at hresult
      · cases hresult
      · rename_i q heq
        cases hresult
        rw [heq]
    · rw [recvframeChkmic, if_neg htkip] at hresult
      rw [if_neg fun hboth => htkip hboth.2]
      cases hresult
      rfl
  · rw [if_neg hprivacy] at hresult
    rw [if_neg fun hboth => hprivacy hboth.1]
    cases hresult
    rfl

/-- What of a frame that is no fragment comes to the conversion. -/
theorem converted_whole (hsized : Sized f.attrib) (hwhole : f.Unfragmented) {p : RecvFrame}
    (h : s.converted f = some p) : p.attrib = f.readKeyIndex.attrib ∧
      p.len = if f.attrib.encrypt = .tkip ∧ 8 ≤ f.len then f.len - 8 else f.len := by
  obtain ⟨keyIndex, hattrib⟩ := readKeyIndex_attrib f
  unfold converted at h
  split at h
  · cases h
  · rename_i t g heq
    have hkept : Kept f.readKeyIndex g := decryptor_kept (by rw [heq])
    have hlen : g.len = f.len := hkept.len.trans (readKeyIndex_len f)
    split at h
    · cases h
    · rename_i u q hchk
      have hq := chkDefrag_frame (whole_kept hwhole hkept) (congrArg Prod.snd hchk)
      split at h
      · cases h
        have hcipher : g.attrib.encrypt = f.attrib.encrypt := by rw [hkept.attrib, hattrib]
        by_cases htkip : f.attrib.encrypt = .tkip
        · have hprivacy : g.attrib.privacy = true := by
            rw [hkept.attrib, hattrib]
            exact hsized.privacy (by rw [htkip]; decide)
          rw [if_pos ⟨hprivacy, hcipher.trans htkip⟩] at hq
          subst hq
          refine ⟨hkept.attrib, ?_⟩
          rw [RecvFrame.pullTail]
          simp only [hlen, htkip, true_and]
        · rw [if_neg fun hboth => htkip (hcipher.symm.trans hboth.2)] at hq
          subst hq
          exact ⟨hkept.attrib, by rw [hlen, if_neg fun hboth => htkip hboth.1]⟩
      · cases h

/-- What `recvframe_pull_tail` leaves, if that is at least what it takes off. -/
theorem le_cut {need len sz : ℕ} (h : sz ≤ need) :
    need ≤ (if sz ≤ len then len - sz else len) ↔ need + sz ≤ len := by
  split <;> omega

/-- The conversion takes off what is in front and behind, with the code of TKIP. -/
theorem converted_len (hsized : Sized f.attrib) (hwhole : f.Unfragmented) {p : RecvFrame}
    (h : s.converted f = some p) : p.rmvLen ≤ p.withoutIcv.len ↔
      f.attrib.payload + f.attrib.icvLen + (if f.attrib.encrypt = .tkip then 8 else 0) +
        (if bsnaphdr p then snapSize else 0) ≤ f.len := by
  obtain ⟨keyIndex, hattrib⟩ := readKeyIndex_attrib f
  obtain ⟨hp, hlen⟩ := converted_whole hsized hwhole h
  rw [hattrib] at hp
  have hhdrlen := hsized.hdrlen
  have hicv := hsized.icvLen
  have hicv' := icvSize_le f.attrib.encrypt
  have hrmv : p.rmvLen = f.attrib.payload + if bsnaphdr p then snapSize else 0 := by
    rw [RecvFrame.rmvLen, hp]
    rfl
  have hcut : p.withoutIcv.len = if f.attrib.icvLen ≤ p.len then p.len - f.attrib.icvLen else
      p.len := by
    rw [RecvFrame.withoutIcv, hp]
    by_cases hplain : f.attrib.encrypt = .noPrivacy
    · have hzero : f.attrib.icvLen = 0 := by
        rw [hicv, hplain]
        rfl
      simp only [hplain, hzero, bne_self_eq_false, Bool.false_eq_true, ↓reduceIte, Nat.zero_le,
        Nat.sub_zero]
    · rw [if_pos (bne_iff_ne.mpr hplain)]
      rfl
  have hfront : 24 ≤ f.attrib.payload + if bsnaphdr p then snapSize else 0 :=
    Nat.le_add_right_of_le (Nat.le_add_right_of_le hhdrlen)
  rw [hrmv, hcut, le_cut (by omega), hlen, Nat.add_right_comm]
  by_cases htkip : f.attrib.encrypt = .tkip
  · simp only [htkip, true_and, ↓reduceIte]
    rw [le_cut (by omega), Nat.add_right_comm]
  · simp only [htkip, false_and, ↓reduceIte, Nat.add_zero]

theorem wholeLongEnough_iff (hsized : Sized f.attrib) (hwhole : f.Unfragmented) :
    s.LongEnough f ↔ s.WholeLongEnough f := by
  obtain ⟨keyIndex, hattrib⟩ := readKeyIndex_attrib f
  have hchecked : ∀ r, s.reassembled f = some r →
      (r.2.attrib.payload + r.2.attrib.icvLen + 8 ≤ r.2.len ↔
        f.attrib.payload + f.attrib.icvLen + 8 ≤ f.len) := by
    intro r hr
    have hkept := reassembled_whole hwhole hr
    rw [hkept.attrib, hkept.len, hattrib, readKeyIndex_len]
    rfl
  constructor
  · intro h
    exact ⟨h.opened, fun r hr hmic => (hchecked r hr).mp (h.checked r hr hmic),
      fun p hp => (converted_len hsized hwhole hp).mp (h.converted p hp)⟩
  · intro h
    exact ⟨h.opened, fun r hr hmic => (hchecked r hr).mpr (h.checked r hr hmic),
      fun p hp => (converted_len hsized hwhole hp).mpr (h.converted p hp)⟩

end Receiver

/-- No payload length of an accepted frame is negative exactly where each stage finds the bytes that
it takes off; for a frame that is no fragment these are bytes of its own. -/
theorem payloadLengths_nonneg_iff {f : RecvFrame} (hf : Accepted f) (s : Receiver) :
    ((∀ v ∈ s.payloadLengths f, 0 ≤ v) ↔ s.LongEnough f) ∧
      (f.Unfragmented → ((∀ v ∈ s.payloadLengths f, 0 ≤ v) ↔ s.WholeLongEnough f)) := by
  have hlong := s.longEnough_iff hf.sized
  refine ⟨hlong, fun hwhole => ?_⟩
  rw [hlong]
  exact Receiver.wholeLongEnough_iff hf.sized hwhole

/-- The frame of a linked station's access point, as `validate_recv_data_frame` leaves it. -/
def fromAccessPoint (flags : UInt8) (body : List UInt8) (privacy : Bool) (encrypt : EncryAlgo)
    (ivLen icvLen : ℕ) : RecvFrame :=
  { incoming 0x08 flags 0x50 body with
    psta := some 1
    attrib := { RxPktAttrib.zero with
      hdrlen := 24
      toFrDs := 1
      seqNum := 5
      privacy := privacy
      encrypt := encrypt
      ivLen := ivLen
      icvLen := icvLen
      dst := Receiver.ownAddr
      src := ⟨#[0, 21, 22, 23, 24, 25], rfl⟩
      ta := Receiver.bssAddr
      ra := Receiver.ownAddr
      bssid := Receiver.bssAddr } }

def plainFrame : RecvFrame := fromAccessPoint 0x02 ipv4Body false .noPrivacy 0 0

def openStation : Receiver := Receiver.associated false SecurityPriv.zero

theorem plainFrame_accepted : Accepted plainFrame :=
  ⟨openStation.mlme, openStation.sec, openStation.stapriv, _, incoming 0x08 0x02 0x50 ipv4Body,
    by decide, by decide, rfl⟩

/-- A frame with an IPv4 packet in it is long enough. -/
theorem plainFrame_nonneg :
    (openStation.payloadLengths plainFrame).all (fun v => decide (0 ≤ v)) = true := by
  have hiff := (payloadLengths_nonneg_iff plainFrame_accepted openStation).2 ⟨rfl, rfl⟩
  refine List.all_eq_true.mpr fun v hv => decide_eq_true (hiff.mpr ⟨?_, ?_, ?_⟩ v hv)
  · intro hopens
    cases hopens
  · intro r hr hmic
    have hkept := Receiver.reassembled_whole ⟨rfl, rfl⟩ hr
    have hprivacy : r.2.attrib.privacy = false := by
      rw [hkept.attrib]
      rfl
    simp only [micChecked, hprivacy, Bool.false_and, Bool.false_eq_true] at hmic
  · intro p hp
    have hfront : plainFrame.attrib.payload + plainFrame.attrib.icvLen +
        (if plainFrame.attrib.encrypt = .tkip then 8 else 0) = 24 := rfl
    have hlen : plainFrame.len = 36 := rfl
    have hsnap : (if bsnaphdr p then snapSize else 0) ≤ 6 := by
      split
      · exact Nat.le_refl 6
      · exact Nat.zero_le 6
    omega

/-- A frame of 26 bytes from a WEP network, without a whole IV. -/
def cutWepFrame : RecvFrame := fromAccessPoint 0x42 [0, 0] true .wep40 4 4

def wepNetwork : Receiver := Receiver.associated false { SecurityPriv.zero with
  dot11PrivacyAlgrthm := .wep40, dot11DefKeylen := Vector.replicate 4 5 }

theorem cutWepFrame_accepted : Accepted cutWepFrame :=
  ⟨wepNetwork.mlme, wepNetwork.sec, wepNetwork.stapriv, _, incoming 0x08 0x42 0x50 [0, 0],
    by decide, by decide, rfl⟩

/-- Its payload is two bytes shorter than nothing. -/
theorem cutWepFrame_negative : Accepted cutWepFrame ∧
    ¬ ∀ v ∈ wepNetwork.payloadLengths cutWepFrame, 0 ≤ v := by
  refine ⟨cutWepFrame_accepted, fun h => ?_⟩
  have hmem : (-2 : ℤ) ∈ wepNetwork.payloadLengths cutWepFrame :=
    List.mem_append_left _ (by decide)
  exact absurd (h _ hmem) (by decide)

end Rtl8188eu

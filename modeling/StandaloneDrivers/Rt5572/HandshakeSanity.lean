import StandaloneDrivers.Rt5572.HandshakeSteps

/-! What a side gets of a message that the other one has built, and that no step lacks a result. -/
namespace Rt5572
open Foundations
open BssTab (WepStatus AuthMode)

/-- Flags of message 3. -/
def EapolPacket.IsMsg3 (p : EapolPacket) : Prop := p.keyInfo.keyType = true ∧ p.keyInfo.keyMic = true

/-- The key that an access point makes of the nonce of a frame. -/
def WpaAdapter.nextKeys (ad : WpaAdapter) (p : EapolPacket) : List (Vector UInt8 64) :=
  match ad.mode with
  | .ap mbss => (ptkOf mbss.pmk ad.entry.aNonce p.keyNonce mbss.bssid ad.entry.addr).toList
  | .sta _ => []

section Decode
variable {e e' : MacEntry} {a : MsgArgs} {m p : EapolPacket}

/-- The key data before it is wrapped. -/
def MsgArgs.plainData (a : MsgArgs) (e : MacEntry) : List UInt8 :=
  constructEapolKeyData e.bWpa2 a.groupKeyWepStatus (a.keyDescVer e) a.msgType a.defaultKeyIdx a.gtk
    a.rsnIe a.rsnIeLen

/-- A message that is wrapped. -/
def MsgArgs.Wraps (a : MsgArgs) (e : MacEntry) : Prop :=
  (a.msgType = eapolPairMsg3 ∧ e.bWpa2 = true) ∨ a.msgType = eapolGroupMsg1

theorem wraps_keyData {keyData : List UInt8} (hwraps : a.Wraps e) (h : a.keyData e = .ok keyData) :
    if a.keyDescVer e = keyDescAes then aesKeyWrap (a.plainData e) (kekOf e.ptk) true = .ok keyData
    else keyData = tkipGtkKeyWrap (kekOf e.ptk) (a.keyIv e).toList (a.plainData e) := by
  have hother : ¬(a.msgType = eapolPairMsg1 ∨ a.msgType = eapolPairMsg4 ∨ a.msgType = eapolGroupMsg2) := by
    rcases hwraps with ⟨h, -⟩ | h <;> rw [h] <;> decide
  rw [MsgArgs.Wraps] at hwraps
  rw [MsgArgs.keyData, if_neg hother, if_pos hwraps] at h
  split
  · rename_i hver
    rwa [if_pos hver] at h
  · rename_i hver
    rw [if_neg hver] at h
    exact (Except.ok.inj h).symm

/-- The data of a message that has the text of another one. -/
theorem field_sameText (hm : Built e a m) (hsame : p.SameText m) :
    field p.keyData 0 p.keyDataLen.toNat = m.keyData := by
  obtain ⟨keyData, mic, hdata, rfl⟩ := hm.data
  have hlen := MsgArgs.keyData_length_le hdata
  have hlength : p.keyDataLen.toNat = keyData.length := by
    rw [hsame.keyDataLen]
    apply UInt16.toNat_ofNat_of_lt'
    simp only [UInt16.size]
    omega
  have htake : p.keyData.take keyData.length = keyData := hsame.keyData
  have hsplit : p.keyData = [] ++ keyData ++ p.keyData.drop keyData.length := by
    have happend := List.take_append_drop keyData.length p.keyData
    rw [htake] at happend
    exact happend.symm
  rw [hlength, hsplit]
  exact field_middle [] keyData _

/-- An RSN element that can be sent along with a group key, under an index of two bits. -/
structure MsgArgs.SendsKey (a : MsgArgs) : Prop where
  version : a.msgType = eapolPairMsg3 → a.rsnIe.le16 0 = 1
  short : a.rsnIeLen.toNat ≤ 206
  index : a.defaultKeyIdx < 4

theorem plainData_length_le (h : a.SendsKey) : (a.plainData e).length ≤ 255 :=
  (constructEapolKeyData_length_le e.bWpa2 a.groupKeyWepStatus (a.keyDescVer e) a.msgType a.defaultKeyIdx
    a.gtk a.rsnIe a.rsnIeLen).trans (Nat.add_le_add_right h.short 49)

/-- What a station gets of the data of a wrapped message is what was wrapped. -/
theorem keyDataOf_wrapped (hm : Built e a m) (hsends : a.SendsKey) (hwraps : a.Wraps e)
    (hsame : p.SameText m) (hptk : e'.ptk = e.ptk) (hwpa2 : e'.bWpa2 = e.bWpa2) :
    keyDataOf e' p a.msgType = some (a.plainData e) := by
  have hfield := field_sameText hm hsame
  obtain ⟨keyData, mic, hkeyData, rfl⟩ := hm.data
  have hform := wraps_keyData hwraps hkeyData
  have hplain := plainData_length_le (e := e) hsends
  have hver : p.keyInfo.keyDescVer = a.keyDescVer e := by
    rw [hsame.keyInfo]
    exact (a.keyInfo_bits e).1
  have hiv : p.keyIv = a.keyIv e := hsame.keyIv
  have hlength : p.keyDataLen.toNat = keyData.length := by
    have hlen := congrArg List.length hfield
    rwa [field_length] at hlen
  rw [MsgArgs.Wraps, ← hwpa2] at hwraps
  rw [keyDataOf, if_pos hwraps, hver, hptk, hiv]
  simp only [hfield]
  rcases a.keyDescVer_cases e with hone | htwo
  · rw [hone, if_neg (by decide)] at hform
    have hshort : ¬maxLenOfRsnIe < p.keyDataLen.toNat := by
      rw [hlength, hform, arc4_length]
      exact Nat.not_lt.mpr hplain
    rw [hone, if_neg (by decide), if_neg hshort]
    show some (tkipGtkKeyWrap _ _ keyData) = _
    rw [hform]
    exact congrArg some (arc4Compute_twice _ _)
  · rw [htwo, if_pos rfl] at hform
    have hwrapped := aesKeyWrap_length (kekOf_aesKeyLength e.ptk) hform
    have hshort : ¬maxLenOfRsnIe < uintSub p.keyDataLen.toNat 8 := by
      rw [hlength, uintSub_le (by omega) (by omega), hwrapped, Nat.add_sub_cancel]
      exact Nat.not_lt.mpr hplain
    obtain ⟨cipherText, hwrap, hunwrap⟩ := keyUnwrapPasses_aesKeyWrap (kekOf_aesKeyLength e.ptk)
      (show (a.plainData e).length + 8 < 2 ^ 32 by omega)
    rw [hform] at hwrap
    cases hwrap
    have hresult : aesKeyUnwrap keyData (kekOf e.ptk) true = .ok (a.plainData e) := by
      rw [aesKeyUnwrap, if_neg (by rw [kekOf_aesKeyLength]; decide), if_neg (by decide), hunwrap]
    rw [htwo, if_pos (Or.inr rfl), if_neg hshort]
    show (aesKeyUnwrap keyData (kekOf e.ptk) true).toOption = _
    rw [hresult]
    rfl

/-- The arguments as a message with a group key; memory holds zeroes behind it. -/
def MsgArgs.groupKeyMessage (a : MsgArgs) (ver : UInt8) (h : a.SendsKey)
    (htype : a.msgType = eapolPairMsg3 ∨ a.msgType = eapolGroupMsg1) : GroupKeyMessage where
  groupKeyWepStatus := a.groupKeyWepStatus
  keyDescVer := ver
  msgType := a.msgType
  carriesKey := htype
  defaultKeyIdx := a.defaultKeyIdx
  index_lt := h.index
  gtk := a.gtk
  rsnIe := if a.msgType = eapolPairMsg3 then a.rsnIe else fun i => if i = 0 then 1 else 0
  rsnIeLen := a.rsnIeLen
  version := by
    split
    · exact h.version ‹_›
    · rfl
  behind := fun _ => 0

section Message
variable {ver : UInt8} (h : a.SendsKey) (htype : a.msgType = eapolPairMsg3 ∨ a.msgType = eapolGroupMsg1)

theorem groupKeyMessage_keyData (hwpa2 : e.bWpa2 = true) :
    (a.groupKeyMessage (a.keyDescVer e) h htype).keyData = a.plainData e := by
  rw [GroupKeyMessage.keyData, MsgArgs.plainData, hwpa2]
  simp only [MsgArgs.groupKeyMessage, constructEapolKeyData]
  rcases htype with hthree | hfive
  · simp only [hthree, if_true]
  · have hother : ¬(eapolGroupMsg1 = eapolPairMsg2 ∨ eapolGroupMsg1 = eapolPairMsg3) := by decide
    simp only [hfive, if_neg hother]

/-- There are zeroes behind the first octet of the padding. -/
theorem groupKeyMessage_padding : (a.groupKeyMessage ver h htype).memory
    ((a.groupKeyMessage ver h htype).keyData.length - (a.groupKeyMessage ver h htype).pad + 2 + 1) = 0 := by
  have hread := (a.groupKeyMessage ver h htype).read_keyData
  have hlen := (a.groupKeyMessage ver h htype).keyData_length
  rw [GroupKeyMessage.keyData_eq] at hread
  obtain ⟨-, hrest⟩ := Memory.read_eq_append _ hread
  obtain ⟨-, hpad⟩ := Memory.read_eq_append _ hrest
  rw [Nat.zero_add, GroupKeyMessage.padding_length (GroupKeyMessage.pad_lt _)] at hpad
  rw [hlen, Nat.add_sub_cancel, Nat.add_assoc]
  by_cases hin : 2 + 1 < (a.groupKeyMessage ver h htype).pad
  · rw [← Memory.read_getD (a.groupKeyMessage ver h htype).memory hin, hpad, padding_getD hin]
    rfl
  · exact Memory.write_outside _ (.inr (by omega))

theorem groupKeyMessage_fits (ver : UInt8) : (a.groupKeyMessage ver h htype).Fits := by
  have hshort := h.short
  have hgtk : (gtkLenOf a.groupKeyWepStatus).toNat ≤ 32 := by
    rcases gtkLenOf_cases a.groupKeyWepStatus with h | h <;> rw [h] <;> decide
  have hpad := GroupKeyMessage.pad_lt (a.groupKeyMessage ver h htype)
  have hlen := GroupKeyMessage.keyData_length (a.groupKeyMessage ver h htype)
  have helement := GroupKeyMessage.gtkElement_length (a.groupKeyMessage ver h htype)
  have hstatus : (a.groupKeyMessage ver h htype).groupKeyWepStatus = a.groupKeyWepStatus := rfl
  have hrsn : (a.groupKeyMessage ver h htype).rsnElement.length ≤ 208 := by
    rw [GroupKeyMessage.rsnElement]
    split
    · rw [rtmpInsertRsnIe]
      split
      · exact Nat.zero_le _
      · simp only [List.length_cons, Memory.read_length]
        exact Nat.add_le_add_right hshort 2
    · exact Nat.zero_le _
  rw [hstatus] at helement
  refine ⟨by omega, fun htwo hkde => ?_⟩
  -- the second octet of the OUI would be one of the padding or behind it
  have hbyte : (a.groupKeyMessage ver h htype).memory ((a.groupKeyMessage ver h htype).keyData.length -
      (a.groupKeyMessage ver h htype).pad + 2 + 1) = 0x0f := by
    rw [← Memory.read_getD (a.groupKeyMessage ver h htype).memory (show 1 < 4 by decide), hkde]
    rfl
  exact absurd ((groupKeyMessage_padding h htype).symm.trans hbyte) (by decide)

include h htype in
/-- The parser installs the group key that was sent in WPA2 mode. -/
theorem parse_plainData (hwpa2 : e.bWpa2 = true) :
    (rtmpParseEapolKeyData (Memory.write (fun _ => 0) 0 (a.plainData e))
      (UInt8.ofNat (a.plainData e).length) 0 a.msgType true).result =
        .installed (a.gtk.read 0 (gtkLenOf a.groupKeyWepStatus).toNat) a.defaultKeyIdx := by
  have hround := (GroupKeyMessage.roundTrips_iff_fits _).mpr
    (groupKeyMessage_fits h htype (a.keyDescVer e)) 0
  rw [GroupKeyMessage.parsed, GroupKeyMessage.memory, groupKeyMessage_keyData h htype hwpa2] at hround
  exact hround

end Message

/-- Outside WPA2 the group key is sent as it is. -/
theorem plainData_wpa (hwpa2 : e.bWpa2 = false) (htype : a.msgType = eapolGroupMsg1) :
    a.plainData e = a.gtk.read 0 (gtkLenOf a.groupKeyWepStatus).toNat := by
  have hother : ¬(eapolGroupMsg1 = eapolPairMsg2 ∨ eapolGroupMsg1 = eapolPairMsg3) := by decide
  have hpad : padLen (a.gtk.read 0 (gtkLenOf a.groupKeyWepStatus).toNat).length = 0 := by
    rw [Memory.read_length]
    rcases gtkLenOf_cases a.groupKeyWepStatus with h | h <;> rw [h] <;> decide
  rw [MsgArgs.plainData, hwpa2, htype]
  simp only [constructEapolKeyData, if_neg hother, Bool.false_eq_true, if_false, and_false, or_true, if_true,
    List.nil_append, hpad]
  split
  · exact List.append_nil _
  · rfl

theorem parse_wpa (hwpa2 : e.bWpa2 = false) (htype : a.msgType = eapolGroupMsg1) {index : UInt8}
    (hindex : index < 4) :
    ∃ reads, rtmpParseEapolKeyData (Memory.write (fun _ => 0) 0 (a.plainData e))
      (UInt8.ofNat (a.plainData e).length) index eapolGroupMsg1 false =
        ⟨reads, [(gtkLenOf a.groupKeyWepStatus).toNat],
          .installed (a.gtk.read 0 (gtkLenOf a.groupKeyWepStatus).toNat) index⟩ := by
  have hplain := plainData_wpa hwpa2 htype
  have hlength : (a.plainData e).length = (gtkLenOf a.groupKeyWepStatus).toNat := by
    rw [hplain, Memory.read_length]
  have hlen : (UInt8.ofNat (a.plainData e).length).toNat = (a.plainData e).length := by
    apply UInt8.toNat_ofNat_of_lt'
    rw [hlength]
    exact UInt8.toNat_lt _
  have hother : ¬((eapolGroupMsg1 = eapolPairMsg2 ∨ eapolGroupMsg1 = eapolPairMsg3) ∧
      ¬(false = true ∧ eapolGroupMsg1 = eapolPairMsg3)) := by decide
  have hindex' : ¬3 < index := by
    rw [UInt8.lt_iff_toNat_lt] at hindex ⊢
    exact Nat.not_lt.mpr (Nat.le_of_lt_succ hindex)
  rw [rtmpParseEapolKeyData, if_neg hother, groupKeyOf, if_neg (by decide), if_pos (by decide)]
  dsimp only
  rw [if_neg hindex', hlen, Memory.read_write_same, hlength, hplain]
  exact ⟨_, rfl⟩

/-- The index of a group key that is sent outside WPA2. -/
theorem keyIndex_wpa (hwpa2 : e.bWpa2 = false) (htype : a.msgType = eapolGroupMsg1)
    (hindex : a.defaultKeyIdx < 4) : (a.keyInfo e).keyIndex = a.defaultKeyIdx := by
  have hcases : a.defaultKeyIdx = 0 ∨ a.defaultKeyIdx = 1 ∨ a.defaultKeyIdx = 2 ∨ a.defaultKeyIdx = 3 := by
    rw [UInt8.lt_iff_toNat_lt] at hindex
    simp only [← UInt8.toNat_inj, UInt8.reduceToNat] at hindex ⊢
    omega
  rw [KeyInfo.keyIndex, MsgArgs.keyInfo]
  dsimp only
  rw [hwpa2, htype]
  rcases a.keyDescVer_cases e with hver | hver <;> rcases hcases with h | h | h | h <;>
    rw [hver, h] <;> decide

/-- A group key is wrapped. -/
theorem wraps_keyDataLen (hm : Built e a m) (hwraps : a.Wraps e) : m.keyDataLen ≠ 0 := by
  obtain ⟨keyData, mic, hkeyData, rfl⟩ := hm.data
  have hle := MsgArgs.keyData_length_le hkeyData
  have hform := wraps_keyData hwraps hkeyData
  have hplain : 16 ≤ (a.plainData e).length := by
    have hkey : 16 ≤ (gtkLenOf a.groupKeyWepStatus).toNat := by
      rcases gtkLenOf_cases a.groupKeyWepStatus with h | h <;> rw [h] <;> decide
    rw [MsgArgs.Wraps] at hwraps
    simp only [MsgArgs.plainData, constructEapolKeyData, if_pos hwraps]
    split <;> simp only [List.length_append, Memory.read_length] <;> omega
  have hpos : keyData.length ≠ 0 := by
    split at hform
    · have := aesKeyWrap_length (kekOf_aesKeyLength e.ptk) hform
      omega
    · rw [hform, arc4_length]
      omega
  intro hzero
  have hmod := congrArg UInt16.toNat hzero
  simp only [MsgArgs.packet, UInt16.toNat_ofNat', UInt16.toNat_zero] at hmod
  omega

/-- The group key that a wrapped message brings. -/
def MsgArgs.groupKey (a : MsgArgs) : List UInt8 × UInt8 :=
  (a.gtk.read 0 (gtkLenOf a.groupKeyWepStatus).toNat, a.defaultKeyIdx)

/-- The key data of a wrapped message is parsed without a copy that leaves `GTK`. -/
theorem parseKeyData_wrapped (hsends : a.SendsKey) (hwraps : a.Wraps e) (hwpa2 : e'.bWpa2 = e.bWpa2)
    (hinfo : p.keyInfo = a.keyInfo e) :
    parseKeyData e' p a.msgType (a.plainData e) = some (.accepted (some a.groupKey)) := by
  have hparse : ∃ r : KeyDataParse, rtmpParseEapolKeyData (Memory.write (fun _ => 0) 0 (a.plainData e))
      (UInt8.ofNat (a.plainData e).length)
      (if ¬e'.bWpa2 ∧ a.msgType = eapolGroupMsg1 then p.keyInfo.keyIndex else 0) a.msgType e'.bWpa2 = r ∧
        r.result = .installed a.groupKey.1 a.groupKey.2 ∧ ∀ n ∈ r.copies, n ≤ maxLenGtk := by
    refine ⟨_, rfl, ?_⟩
    cases hmode : e.bWpa2 with
    | true =>
      have htype : a.msgType = eapolPairMsg3 ∨ a.msgType = eapolGroupMsg1 := hwraps.imp And.left id
      rw [hwpa2, hmode, if_neg (by simp)]
      refine ⟨parse_plainData hsends htype hmode, ?_⟩
      have hcopies := GroupKeyMessage.copies_le (groupKeyMessage_fits hsends htype (a.keyDescVer e)).length
        (fun _ => rfl) 0
      rwa [GroupKeyMessage.parsed, GroupKeyMessage.memory, groupKeyMessage_keyData hsends htype hmode]
        at hcopies
    | false =>
      have htype : a.msgType = eapolGroupMsg1 := hwraps.resolve_left fun h => by
        rw [hmode] at h
        exact absurd h.2 (by decide)
      obtain ⟨reads, hparse⟩ := parse_wpa hmode htype hsends.index
      rw [hwpa2, hmode, htype, if_pos (by decide), hinfo, keyIndex_wpa hmode htype hsends.index, hparse]
      refine ⟨rfl, List.forall_mem_singleton.mpr ?_⟩
      rcases gtkLenOf_cases a.groupKeyWepStatus with h | h <;> rw [h] <;> decide
  obtain ⟨r, hr, hresult, hcopies⟩ := hparse
  have hfits : r.copies.any (maxLenGtk < ·) = false := by
    rw [List.any_eq_false]
    intro n hn
    rw [decide_eq_true_eq]
    exact Nat.not_lt.mpr (hcopies n hn)
  simp only [parseKeyData, hr, hfits, hresult, Bool.false_eq_true, if_false]

/-- A station takes a message that has the text of a wrapped one and the right MIC, with the group key. -/
theorem sanity_wrapped (hm : Built e a m) (hsends : a.SendsKey) (hwraps : a.Wraps e) (hsame : p.SameText m)
    (hptk : e'.ptk = e.ptk) (hwpa2 : e'.bWpa2 = e.bWpa2) (hreplay : replayDiff e' p a.msgType = false)
    (hvalid : MicValid e'.ptk p) :
    peerWpaMessageSanity e' p a.msgType = some (.accepted (some a.groupKey)) := by
  have hinfo : p.keyInfo = a.keyInfo e := by
    obtain ⟨keyData, mic, -, rfl⟩ := hm.data
    exact hsame.keyInfo
  have htype : a.msgType = eapolPairMsg3 ∨ a.msgType = eapolGroupMsg1 := hwraps.imp And.left id
  have hone : a.msgType ≠ eapolPairMsg1 := by rcases htype with h | h <;> rw [h] <;> decide
  have hfull : ¬(p.keyDataLen = 0 ∨ a.msgType = eapolPairMsg4 ∨ a.msgType = eapolGroupMsg2) := by
    rintro (hempty | hfour | hsix)
    · exact wraps_keyDataLen hm hwraps (hsame.keyDataLen ▸ hempty)
    · rcases htype with h | h <;> rw [h] at hfour <;> exact absurd hfour (by decide)
    · rcases htype with h | h <;> rw [h] at hsix <;> exact absurd hsix (by decide)
  rw [MicValid] at hvalid
  rw [peerWpaMessageSanity, if_neg (by rw [hreplay]; decide), if_neg hone, hvalid]
  simp only [Option.bind_eq_bind, Option.bind_some, ne_eq, not_true_eq_false, if_false, if_neg hfull,
    keyDataOf_wrapped hm hsends hwraps hsame hptk hwpa2]
  exact parseKeyData_wrapped hsends hwraps hwpa2 hinfo

/-- Message 3 outside WPA2 brings none. -/
theorem sanity_msg3_wpa (hm : Built e a m) (hsends : a.SendsKey) (hthree : a.msgType = eapolPairMsg3)
    (hmode : e.bWpa2 = false) (hsame : p.SameText m) (hwpa2 : e'.bWpa2 = e.bWpa2)
    (hreplay : replayDiff e' p a.msgType = false) (hvalid : MicValid e'.ptk p) :
    peerWpaMessageSanity e' p a.msgType = some (.accepted none) := by
  have hfield := field_sameText hm hsame
  obtain ⟨keyData, mic, hkeyData, rfl⟩ := hm.data
  have hplain := plainData_length_le (e := e) hsends
  have hwraps : ¬((a.msgType = eapolPairMsg3 ∧ e.bWpa2 = true) ∨ a.msgType = eapolGroupMsg1) := by
    rw [hthree, hmode]
    decide
  have hother : ¬(a.msgType = eapolPairMsg1 ∨ a.msgType = eapolPairMsg4 ∨ a.msgType = eapolGroupMsg2) := by
    rw [hthree]
    decide
  rw [MsgArgs.keyData, if_neg hother, if_neg hwraps] at hkeyData
  have hlength : p.keyDataLen.toNat ≤ 255 := by
    have hlen := congrArg List.length hfield
    rw [field_length] at hlen
    rw [hlen]
    exact (congrArg List.length (Except.ok.inj hkeyData)).symm.trans_le hplain
  rw [MicValid] at hvalid
  rw [hthree] at hreplay hwraps ⊢
  rw [← hwpa2] at hwraps hmode
  rw [peerWpaMessageSanity, if_neg (by rw [hreplay]; decide), if_neg (by decide), hvalid]
  simp only [Option.bind_eq_bind, Option.bind_some, ne_eq, not_true_eq_false, if_false]
  split
  · rfl
  · rw [keyDataOf, if_neg hwraps, if_neg (Nat.not_lt.mpr hlength)]
    simp only [Option.bind_some, parseKeyData, rtmpParseEapolKeyData, hmode]
    rfl

end Decode

theorem read_keyMemory (gtk : Vector UInt8 32) (status : WepStatus) :
    (keyMemory gtk.toList).read 0 (gtkLenOf status).toNat = gtk.toList.take (gtkLenOf status).toNat := by
  have hle : (gtkLenOf status).toNat ≤ gtk.toList.length := by
    rw [Vector.length_toList]
    rcases gtkLenOf_cases status with h | h <;> rw [h] <;> decide
  have hsplit := field_middle [] (gtk.toList.take (gtkLenOf status).toNat)
    (gtk.toList.drop (gtkLenOf status).toNat)
  rw [List.nil_append, List.take_append_drop, List.length_take, Nat.min_eq_left hle] at hsplit
  exact hsplit

/-- A network whose RSN elements can be sent along with its group key. -/
structure Mbss.SendsKeys (mbss : Mbss) : Prop where
  version : ∀ i, (mbss.rsnIe i).le16 0 = 1
  short : ∀ i, (mbss.rsnIeLen i).toNat ≤ 206
  index : mbss.defaultKeyId < 4

theorem Mbss.SendsKeys.step {mbss mbss' : Mbss} (h : mbss.SendsKeys) (hsame : mbss.SameNetwork mbss') :
    mbss'.SendsKeys where
  version i := hsame.rsnIe ▸ h.version i
  short i := hsame.rsnIeLen ▸ h.short i
  index := by
    rcases hsame.index with hkept | hone | htwo
    · rw [hkept]
      exact h.index
    · rw [hone]
      decide
    · rw [htwo]
      decide

theorem msg3Args_sendsKey {mbss : Mbss} (h : mbss.SendsKeys) (e : MacEntry) (env : Env) :
    (mbss.msg3Args e env).SendsKey := ⟨fun _ => h.version _, h.short _, h.index⟩

theorem groupMsg1Args_sendsKey {mbss : Mbss} (h : mbss.SendsKeys) (env : Env) :
    (mbss.groupMsg1Args env).SendsKey :=
  ⟨fun hthree => absurd (show eapolGroupMsg1 = eapolPairMsg3 from hthree) (by decide), Nat.zero_le _,
    h.index⟩

theorem MacEntry.SameStation.bWpa2 {e e' : MacEntry} (h : e.SameStation e') : e'.bWpa2 = e.bWpa2 := by
  simp only [MacEntry.bWpa2, h.authMode]

section Total

theorem ptkOf_some (pmk : List UInt8) (aNonce sNonce : Vector UInt8 32) (aa sa : Vector UInt8 6) :
    ∃ ptk, ptkOf pmk aNonce sNonce aa sa = some ptk := by
  have hfits : prfMoved 64 ≤ (List.replicate 80 (0 : UInt8)).length := by decide
  rw [ptkOf, wpaDerivePtk_expands pmk aa.length_toList sa.length_toList aNonce.length_toList
    sNonce.length_toList hfits]
  exact ⟨_, rfl⟩

theorem derivePtk_some (e : MacEntry) (pmk : List UInt8) (aa sa : Vector UInt8 6) :
    ∃ ptk, ptkOf pmk e.aNonce e.sNonce aa sa = some ptk ∧
      e.derivePtk pmk aa sa = some { e with ptk := ptk } := by
  obtain ⟨ptk, hptk⟩ := ptkOf_some pmk e.aNonce e.sNonce aa sa
  obtain ⟨bytes, hbytes, rfl⟩ := Option.map_eq_some_iff.mp hptk
  exact ⟨_, hptk, Option.map_eq_some_iff.mpr ⟨bytes, hbytes, rfl⟩⟩

theorem rekey_some (mbss : Mbss) (env : Env) : ∃ mbss', mbss.rekey env = some mbss' := by
  rw [Mbss.rekey, wpaDeriveGtk_eq mbss.bssid.length_toList env.random.length_toList (by decide)]
  exact ⟨_, rfl⟩

variable {e : MacEntry} {p : EapolPacket} {msgType : UInt8}

/-- A message is checked if its data is read where the MIC is right. -/
theorem sanity_some (h : MicValid e.ptk p → replayDiff e p msgType = false → msgType ≠ eapolPairMsg1 →
    p.keyDataLen ≠ 0 → msgType ≠ eapolPairMsg4 → msgType ≠ eapolGroupMsg2 →
      ∃ s, peerWpaMessageSanity e p msgType = some s) : ∃ s, peerWpaMessageSanity e p msgType = some s := by
  by_cases hreplay : replayDiff e p msgType = true
  · exact ⟨_, by rw [peerWpaMessageSanity, if_pos hreplay]⟩
  by_cases hone : msgType = eapolPairMsg1
  · exact ⟨_, by rw [peerWpaMessageSanity, if_neg hreplay, if_pos hone]⟩
  obtain ⟨mic, hmic⟩ := eapolMic_some p.keyInfo.keyDescVer e.ptk p.micInput_length
  by_cases hvalid : p.keyMic = mic
  · by_cases hempty : p.keyDataLen = 0 ∨ msgType = eapolPairMsg4 ∨ msgType = eapolGroupMsg2
    · refine ⟨.accepted none, ?_⟩
      rw [peerWpaMessageSanity, if_neg hreplay, if_neg hone, hmic]
      simp only [Option.bind_eq_bind, Option.bind_some, hvalid, ne_eq, not_true_eq_false, if_false,
        if_pos hempty]
    · rw [not_or, not_or] at hempty
      exact h (by rw [MicValid, hmic, hvalid]) (Bool.eq_false_iff.mpr hreplay) hone hempty.1 hempty.2.1
        hempty.2.2
  · refine ⟨.micDiff, ?_⟩
    rw [peerWpaMessageSanity, if_neg hreplay, if_neg hone, hmic]
    simp only [Option.bind_eq_bind, Option.bind_some, if_pos hvalid]

/-- Message 2 is checked unless its data is longer than the buffer. -/
theorem sanity_msg2_some (h : MicValid e.ptk p → p.keyDataLen.toNat ≤ maxLenOfRsnIe) :
    ∃ s, peerWpaMessageSanity e p eapolPairMsg2 = some s := by
  apply sanity_some
  intro hvalid hreplay hone hdata hfour hsix
  have hshort := Nat.not_lt.mpr (h hvalid)
  have hplain : ¬((eapolPairMsg2 = eapolPairMsg3 ∧ e.bWpa2 = true) ∨ eapolPairMsg2 = eapolGroupMsg1) := by
    rintro (⟨h, -⟩ | h) <;> exact absurd h (by decide)
  have hfull : ¬(p.keyDataLen = 0 ∨ eapolPairMsg2 = eapolPairMsg4 ∨ eapolPairMsg2 = eapolGroupMsg2) :=
    fun h => h.elim hdata fun h => h.elim hfour hsix
  rw [MicValid] at hvalid
  rw [peerWpaMessageSanity, if_neg (by rw [hreplay]; decide), if_neg hone, hvalid]
  simp only [Option.bind_eq_bind, Option.bind_some, ne_eq, not_true_eq_false, if_false, if_neg hfull,
    keyDataOf, if_neg hplain, if_neg hshort, parseKeyData, rtmpParseEapolKeyData]
  cases e.bWpa2 <;> exact ⟨_, rfl⟩

end Total

section Station
variable {cfg : StaCfg} {ad : WpaAdapter} {env : Env} {p : EapolPacket}

theorem peerPairMsg1Action_some (hmode : ad.mode = .sta cfg) :
    ∃ r, ad.peerPairMsg1Action env p = some r := by
  simp only [WpaAdapter.peerPairMsg1Action, hmode]
  split
  · exact ⟨_, rfl⟩
  obtain ⟨s, hs⟩ : ∃ s, peerWpaMessageSanity ad.entry p eapolPairMsg1 = some s :=
    sanity_some fun _ _ hone => absurd rfl hone
  rw [hs]
  cases s with
  | accepted groupKey =>
    obtain ⟨ptk, -, hderive⟩ := derivePtk_some { ad.entry with
      rCounter := p.replayCounter, aNonce := p.keyNonce, sNonce := env.random } cfg.pmk ad.entry.addr
      cfg.currentAddress
    obtain ⟨m, hm⟩ := constructEapolMsg_some { ad.entry with
      rCounter := p.replayCounter, aNonce := p.keyNonce, sNonce := env.random, ptk := ptk
      wpaState := .ptkInitNegotiating } (cfg.msg2Args { ad.entry with
      rCounter := p.replayCounter, aNonce := p.keyNonce, sNonce := env.random, ptk := ptk
      wpaState := .ptkInitNegotiating })
    simp only [Option.bind_eq_bind, Option.bind_some, hderive, hm]
    exact ⟨_, rfl⟩
  | _ => exact ⟨_, rfl⟩

theorem peerPairMsg3Action_some (hmode : ad.mode = .sta cfg)
    (h : ∃ s, peerWpaMessageSanity ad.entry p eapolPairMsg3 = some s) :
    ∃ r, ad.peerPairMsg3Action p = some r := by
  simp only [WpaAdapter.peerPairMsg3Action, hmode]
  split
  · exact ⟨_, rfl⟩
  obtain ⟨s, hs⟩ := h
  rw [hs]
  cases s with
  | accepted groupKey =>
    obtain ⟨m, hm⟩ := constructEapolMsg_some { ad.entry with rCounter := p.replayCounter }
      (.plain (cfg.installGroupKey groupKey).1.groupCipher eapolPairMsg4 0)
    simp only [Option.bind_eq_bind, Option.bind_some, hm]
    split
    · exact ⟨_, rfl⟩
    · split <;> exact ⟨_, rfl⟩
  | _ => exact ⟨_, rfl⟩

theorem peerGroupMsg1Action_some (hmode : ad.mode = .sta cfg)
    (h : ∃ s, peerWpaMessageSanity ad.entry p eapolGroupMsg1 = some s) :
    ∃ r, ad.peerGroupMsg1Action p = some r := by
  simp only [WpaAdapter.peerGroupMsg1Action, hmode]
  obtain ⟨s, hs⟩ := h
  rw [hs]
  cases s with
  | accepted groupKey =>
    obtain ⟨m, hm⟩ := constructEapolMsg_some { ad.entry with rCounter := p.replayCounter }
      (.plain (cfg.installGroupKey groupKey).1.groupCipher eapolGroupMsg2 cfg.defaultKeyId)
    simp only [Option.bind_eq_bind, Option.bind_some, hm]
    exact ⟨_, rfl⟩
  | _ => exact ⟨_, rfl⟩

/-- A frame of an access point at a station, where messages that bring a group key can be checked. -/
theorem ackedKeyAction_some (hmode : ad.mode = .sta cfg)
    (h : ∀ msgType, (p.IsMsg3 ∧ msgType = eapolPairMsg3) ∨
      (p.keyInfo.keyType = false ∧ p.keyInfo.keyMic = true ∧ msgType = eapolGroupMsg1) →
        ∃ s, peerWpaMessageSanity ad.entry p msgType = some s) :
    ∃ r, ad.ackedKeyAction env p = some r := by
  rw [WpaAdapter.ackedKeyAction]
  split
  · rename_i hflags
    split
    · rename_i hmic
      exact peerPairMsg3Action_some hmode (h _ (.inl ⟨⟨hflags.2.2.2, hmic⟩, rfl⟩))
    · exact peerPairMsg1Action_some hmode
  split
  · rename_i hflags
    split
    · rename_i htype
      exact peerPairMsg3Action_some hmode (h _ (.inl ⟨⟨htype, hflags.2.1⟩, rfl⟩))
    · rename_i htype
      exact peerGroupMsg1Action_some hmode (h _ (.inr ⟨Bool.eq_false_iff.mpr htype, hflags.2.1, rfl⟩))
  · exact ⟨_, rfl⟩

end Station

section AccessPoint
variable {mbss : Mbss} {ad : WpaAdapter} {env : Env} {p : EapolPacket}

theorem wpaStart4WayHs_some (ad : WpaAdapter) (env : Env) (timeInterval : ℕ) (hmode : ad.mode = .ap mbss) :
    ∃ r, ad.wpaStart4WayHs env timeInterval = some r := by
  simp only [WpaAdapter.wpaStart4WayHs, hmode]
  split
  · exact ⟨_, rfl⟩
  · obtain ⟨m, hm⟩ := constructEapolMsg_some { ad.entry.countUp with aNonce := env.random }
      (mbss.msg1Args { ad.entry.countUp with aNonce := env.random })
    simp only [Option.bind_eq_bind, Option.bind_some, hm]
    exact ⟨_, rfl⟩

theorem wpaStart2WayGroupHs_some (ad : WpaAdapter) (env : Env) (hmode : ad.mode = .ap mbss) :
    ∃ r, ad.wpaStart2WayGroupHs env = some r := by
  simp only [WpaAdapter.wpaStart2WayGroupHs, hmode]
  split
  · exact ⟨_, rfl⟩
  · obtain ⟨m, hm⟩ := constructEapolMsg_some ad.entry.countUp (mbss.groupMsg1Args env)
    simp only [Option.bind_eq_bind, Option.bind_some, hm]
    exact ⟨_, rfl⟩

theorem wpaEapolStartAction_some (env : Env) (hmode : ad.mode = .ap mbss) :
    ∃ r, ad.wpaEapolStartAction env = some r := by
  simp only [WpaAdapter.wpaEapolStartAction]
  split
  · exact wpaStart4WayHs_some _ _ _ hmode
  · exact ⟨_, rfl⟩

theorem wpaRetryExec_some (env : Env) (hmode : ad.mode = .ap mbss) : ∃ r, ad.wpaRetryExec env = some r := by
  simp only [WpaAdapter.wpaRetryExec]
  split
  · exact ⟨_, rfl⟩
  split
  · split
    · exact ⟨_, rfl⟩
    split
    · split
      · obtain ⟨r, hr⟩ := wpaStart2WayGroupHs_some { ad with
          entry := { ad.entry with reTryCounter := ad.entry.reTryCounter + 1 } } env hmode
        rw [hr]
        exact ⟨_, rfl⟩
      · exact ⟨_, rfl⟩
    split
    · exact ⟨_, rfl⟩
    split
    · exact wpaStart4WayHs_some _ _ _ hmode
    split
    · exact wpaStart4WayHs_some _ _ _ hmode
    · exact ⟨_, rfl⟩
  · exact ⟨_, rfl⟩

theorem peerPairMsg2Action_some (hmode : ad.mode = .ap mbss)
    (h : ∀ ptk ∈ ad.nextKeys p, MicValid ptk p → p.keyDataLen.toNat ≤ maxLenOfRsnIe) :
    ∃ r, ad.peerPairMsg2Action env p = some r := by
  simp only [WpaAdapter.peerPairMsg2Action, hmode]
  split
  · exact ⟨_, rfl⟩
  obtain ⟨ptk, hptk, hderive⟩ := derivePtk_some { ad.entry with sNonce := p.keyNonce } mbss.pmk mbss.bssid
    ad.entry.addr
  have hnext : ptk ∈ ad.nextKeys p := by
    rw [WpaAdapter.nextKeys, hmode]
    simp only [show ptkOf mbss.pmk ad.entry.aNonce p.keyNonce mbss.bssid ad.entry.addr = some ptk from hptk]
    exact List.mem_cons_self
  obtain ⟨s, hs⟩ := sanity_msg2_some (e := { ad.entry with sNonce := p.keyNonce, ptk := ptk }) (h ptk hnext)
  simp only [Option.bind_eq_bind, hderive, Option.bind_some, hs]
  cases s with
  | accepted groupKey =>
    obtain ⟨m, hm⟩ := constructEapolMsg_some
      { ({ ad.entry with sNonce := p.keyNonce, ptk := ptk } : MacEntry).countUp with
        wpaState := .ptkInitNegotiating }
      (mbss.msg3Args { ({ ad.entry with sNonce := p.keyNonce, ptk := ptk } : MacEntry).countUp with
        wpaState := .ptkInitNegotiating } env)
    simp only [hm, Option.bind_some]
    exact ⟨_, rfl⟩
  | _ => exact ⟨_, rfl⟩

theorem peerPairMsg4Action_some (hmode : ad.mode = .ap mbss) :
    ∃ r, ad.peerPairMsg4Action env p = some r := by
  rw [WpaAdapter.peerPairMsg4Action]
  split
  · exact ⟨_, rfl⟩
  obtain ⟨s, hs⟩ : ∃ s, peerWpaMessageSanity ad.entry p eapolPairMsg4 = some s :=
    sanity_some fun _ _ _ _ hfour => absurd rfl hfour
  rw [hs]
  cases s with
  | accepted groupKey =>
    dsimp only [Option.bind_eq_bind, Option.bind_some]
    split
    · exact ⟨_, rfl⟩
    · obtain ⟨r, hr⟩ := wpaStart2WayGroupHs_some { ad with
        entry := { (ad.entry.wpaInstallPairwiseKey true).1 with
          acceptAll := true, wpaState := .ptkInitDone, portSecured := true } } env hmode
      simp only [hr, Option.bind_some]
      exact ⟨_, rfl⟩
  | _ => exact ⟨_, rfl⟩

theorem peerGroupMsg2Action_some : ∃ r, ad.peerGroupMsg2Action p = some r := by
  rw [WpaAdapter.peerGroupMsg2Action]
  split
  · exact ⟨_, rfl⟩
  obtain ⟨s, hs⟩ : ∃ s, peerWpaMessageSanity ad.entry p eapolGroupMsg2 = some s :=
    sanity_some fun _ _ _ _ _ hsix => absurd rfl hsix
  rw [hs]
  cases s <;> exact ⟨_, rfl⟩

theorem keyRequest_some (hmode : ad.mode = .ap mbss) : ∃ r, ad.keyRequest env p mbss = some r := by
  simp only [WpaAdapter.keyRequest]
  split
  · obtain ⟨mbss', hrekey⟩ := rekey_some mbss env
    simp only [Option.bind_eq_bind, hrekey, Option.bind_some]
    split
    · obtain ⟨r, hr⟩ := wpaStart2WayGroupHs_some { ad with
        mode := .ap mbss', entry := { ad.entry with rekeyEstablished := false } } env rfl
      simp only [hr, Option.bind_some]
      exact ⟨_, rfl⟩
    · exact ⟨_, rfl⟩
  · obtain ⟨r, hr⟩ := wpaStart4WayHs_some { ad with entry := { ad.entry with
        pairwiseKey := ⟨none, [], [], []⟩
        assoc := true
        wpaState := if ad.entry.authMode = .wpa ∨ ad.entry.authMode = .wpa2 then WpaState.initPmk
          else if ad.entry.authMode = .wpaPsk ∨ ad.entry.authMode = .wpa2Psk then .initPsk
          else ad.entry.wpaState
        rekeyEstablished := false
        acceptAll := false
        reTryCounter := 0
        portSecured := false
        rCounter := Vector.replicate 8 0 } } env peerMsg1RetryExecIntv hmode
    simp only [Option.bind_eq_bind, hr, Option.bind_some]
    exact ⟨_, rfl⟩

theorem wpaEapolKeyAction_some (env : Env) (p : EapolPacket) (hmode : ad.mode = .ap mbss)
    (h : ∀ ptk ∈ ad.nextKeys p, p.keyInfo.keyAck = false → MicValid ptk p →
      p.keyDataLen.toNat ≤ maxLenOfRsnIe) : ∃ r, ad.wpaEapolKeyAction env p = some r := by
  simp only [WpaAdapter.wpaEapolKeyAction, hmode]
  split
  · exact ⟨_, rfl⟩
  split
  · simp only [WpaAdapter.ackedKeyAction, WpaAdapter.peerPairMsg3Action, WpaAdapter.peerPairMsg1Action,
      WpaAdapter.peerGroupMsg1Action, hmode]
    split_ifs <;> exact ⟨_, rfl⟩
  rename_i hack
  split
  · exact ⟨_, rfl⟩
  split
  · simp only [WpaAdapter.answeredKeyAction]
    split
    · split
      · exact peerPairMsg2Action_some hmode fun ptk hptk => h ptk hptk (Bool.eq_false_iff.mpr hack)
      · exact peerPairMsg4Action_some hmode
    · split
      · exact peerGroupMsg2Action_some
      · exact ⟨_, rfl⟩
  split
  · exact keyRequest_some hmode
  · exact ⟨_, rfl⟩

end AccessPoint

/-- Message 2 carries the RSN element. -/
theorem msg2_data {cfg : StaCfg} {e : MacEntry} {m : EapolPacket} (h : Built e (cfg.msg2Args e) m)
    (hrsn : cfg.rsnIeLen ≠ 0) : m.keyDataLen ≠ 0 ∧ m.keyInfo.secure = false := by
  obtain ⟨keyData, mic, hdata, rfl⟩ := h.data
  obtain ⟨-, -, -, -, hsecure, -, -⟩ := (cfg.msg2Args e).keyInfo_bits e
  refine ⟨?_, hsecure.trans ?_⟩
  · have hkeyData : keyData = rtmpInsertRsnIe cfg.rsnIe cfg.rsnIeLen := (Except.ok.inj hdata).symm
    have hlen : keyData.length = cfg.rsnIeLen.toNat + 2 := by
      rw [hkeyData, rtmpInsertRsnIe, if_neg hrsn]
      simp only [List.length_cons, Memory.read_length]
    have hlt := cfg.rsnIeLen.toNat_lt
    intro hzero
    have hmod := congrArg UInt16.toNat hzero
    simp only [MsgArgs.packet, hlen, UInt16.toNat_ofNat', UInt16.toNat_zero] at hmod
    omega
  · have htype : (cfg.msg2Args e).msgType = eapolPairMsg2 := rfl
    rw [htype]
    cases e.bWpa2 <;> decide

/-- Message 2 is not longer than the buffer that it is read into. -/
theorem msg2_short {cfg : StaCfg} {e : MacEntry} {m : EapolPacket} (h : Built e (cfg.msg2Args e) m)
    (hrsn : cfg.rsnIeLen.toNat ≤ 253) : m.keyDataLen.toNat ≤ maxLenOfRsnIe := by
  obtain ⟨keyData, mic, hdata, rfl⟩ := h.data
  have hkeyData : keyData = rtmpInsertRsnIe cfg.rsnIe cfg.rsnIeLen := (Except.ok.inj hdata).symm
  have hlen := rtmpInsertRsnIe_length_le cfg.rsnIe cfg.rsnIeLen
  simp only [MsgArgs.packet, UInt16.toNat_ofNat', hkeyData]
  exact (Nat.mod_le _ _).trans (hlen.trans (Nat.add_le_add_right hrsn 2))

end Rt5572

import StandaloneDrivers.Rt5572.KeyDerivation
import StandaloneDrivers.Rt5572.KeyWrapAgreement
import StandaloneDrivers.Rt5572.CmacAgreement
import StandaloneDrivers.Rt5572.CryptArc4
import StandaloneDrivers.Rt5572.EapolKeyData

/-! EAPOL-Key messages (common/cmm_wpa.c): their layout, `ConstructEapolMsg`, `CalculateMIC`, and what
`PeerWpaMessageSanity` lets pass. What lies behind a received message reads as zero. -/
namespace Rt5572
open Foundations
open BssTab (WepStatus AuthMode)

abbrev eapolPairMsg1 : UInt8 := 1
abbrev eapolPairMsg4 : UInt8 := 4
abbrev eapolGroupMsg2 : UInt8 := 6

/-- `KEY_DESC_TKIP` -/
abbrev keyDescTkip : UInt8 := 1

/-- `KEY_DESC_EXT` -/
abbrev keyDescExt : UInt8 := 3

/-- `MIN_LEN_OF_EAPOL_KEY_MSG` -/
abbrev minLenOfEapolKeyMsg : ℕ := 95

/-- `MAX_LEN_OF_RSNIE`, the size of `KEYDATA` -/
abbrev maxLenOfRsnIe : ℕ := 255

/-- `KEY_INFO`: its two octets. -/
structure KeyInfo where
  lo : UInt8
  hi : UInt8
  deriving DecidableEq, Repr

namespace KeyInfo
variable (info : KeyInfo)

def keyMic : Bool := info.lo.toNat.testBit 0
def secure : Bool := info.lo.toNat.testBit 1
def error : Bool := info.lo.toNat.testBit 2
def request : Bool := info.lo.toNat.testBit 3
def keyDescVer : UInt8 := info.hi &&& 7

/-- Set for a pairwise key, `PAIRWISEKEY`. -/
def keyType : Bool := info.hi.toNat.testBit 3

def keyIndex : UInt8 := info.hi >>> 4 &&& 3
def keyAck : Bool := info.hi.toNat.testBit 7

end KeyInfo

/-- `EAPOL_PACKET` and what follows it in the buffer. -/
structure EapolPacket where
  proVer : UInt8
  proType : UInt8
  bodyLen : UInt16
  type : UInt8
  keyInfo : KeyInfo
  keyLength : UInt16
  replayCounter : Vector UInt8 8
  keyNonce : Vector UInt8 32
  keyIv : Vector UInt8 16
  keyRsc : Vector UInt8 8
  keyId : Vector UInt8 8
  keyMic : Vector UInt8 16
  keyDataLen : UInt16
  keyData : List UInt8
  deriving DecidableEq, Repr

namespace EapolPacket
variable (p : EapolPacket)

/-- The octets in front of the MIC. -/
def head : List UInt8 :=
  p.proVer :: p.proType :: beBytes 2 p.bodyLen.toNat ++
    (p.type :: p.keyInfo.lo :: p.keyInfo.hi :: beBytes 2 p.keyLength.toNat) ++
    p.replayCounter.toList ++ p.keyNonce.toList ++ p.keyIv.toList ++ p.keyRsc.toList ++ p.keyId.toList

/-- The octets behind it. -/
def tail : List UInt8 := beBytes 2 p.keyDataLen.toNat ++ p.keyData

def bytes : List UInt8 := p.head ++ p.keyMic.toList ++ p.tail

/-- `MsgLen` -/
def msgLen : ℕ := 99 + p.keyData.length

/-- `eapol_len` -/
def eapolLen : ℕ := p.bodyLen.toNat + 4

/-- What a MIC is calculated over: the message with the field set to zero. -/
def micInput : List UInt8 := (p.head ++ List.replicate 16 0 ++ p.tail).take p.eapolLen

end EapolPacket

/-- The MIC of a message under the first half of a key, as both sides calculate it. -/
def eapolMic (keyDescVer : UInt8) (ptk : Vector UInt8 64) (text : List UInt8) :
    Option (Vector UInt8 16) :=
  let kck := ptk.toList.take 16
  if keyDescVer = keyDescTkip then (rtHmacMd5 kck text 16).map padBlock
  else if keyDescVer = keyDescAes then (rtHmacSha1 kck text 20).map padBlock
  else if keyDescVer = keyDescExt then aesCmac text kck 16
  else some (Vector.replicate 16 0)

/-- `CalculateMIC`: the buffer holds 512 octets. -/
def calculateMic (keyDescVer : UInt8) (ptk : Vector UInt8 64) (p : EapolPacket) : Option EapolPacket :=
  if 512 < p.eapolLen then none
  else (eapolMic keyDescVer ptk p.micInput).map fun mic => { p with keyMic := mic }

/-- `ARC4_Discard_KeyLength` -/
def arc4DiscardKeyLength (ctx : Arc4Ctx) : ℕ → Arc4Ctx
  | 0 => ctx
  | length + 1 => arc4DiscardKeyLength (arc4Byte ctx).2 length

/-- `TKIP_GTK_KEY_WRAP` and `TKIP_GTK_KEY_UNWRAP` -/
def tkipGtkKeyWrap (key iv inputText : List UInt8) : List UInt8 :=
  arc4Compute (arc4DiscardKeyLength (arc4Init (iv ++ key)) 256) inputText

/-- The half of a pairwise key that wraps group keys. -/
def kekOf (ptk : Vector UInt8 64) : List UInt8 := (ptk.toList.drop 16).take 16

/-- `PairwiseKey` of an entry, without the numbers that the hardware counts. -/
structure PairwiseKey where
  cipherAlg : Option WepStatus
  key : List UInt8
  txMic : List UInt8
  rxMic : List UInt8
  deriving DecidableEq, Repr

/-- `AP_WPA_STATE`, as far as a PSK network gets into the states. -/
inductive WpaState
  | notUse | initialise | authentication | initPmk | initPsk | ptkStart | ptkInitNegotiating
  | ptkInitDone
  deriving DecidableEq, Repr

/-- The number of a state. -/
def WpaState.code : WpaState → ℕ
  | notUse => 0
  | initialise => 3
  | authentication => 4
  | initPmk => 6
  | initPsk => 7
  | ptkStart => 8
  | ptkInitNegotiating => 9
  | ptkInitDone => 10

/-- `MAC_TABLE_ENTRY`, as far as the handshakes use it. -/
structure MacEntry where
  addr : Vector UInt8 6
  authMode : AuthMode
  wepStatus : WepStatus
  assoc : Bool
  wpaState : WpaState
  rekeyEstablished : Bool
  portSecured : Bool
  acceptAll : Bool
  rCounter : Vector UInt8 8
  aNonce : Vector UInt8 32
  sNonce : Vector UInt8 32
  ptk : Vector UInt8 64
  pairwiseKey : PairwiseKey
  reTryCounter : ℕ
  deriving DecidableEq, Repr

/-- `bWPA2` -/
def MacEntry.bWpa2 (e : MacEntry) : Bool := e.authMode = .wpa2 ∨ e.authMode = .wpa2Psk

section Construct

/-- What the callers of `ConstructEapolMsg` give besides the entry. -/
structure MsgArgs where
  groupKeyWepStatus : WepStatus
  msgType : UInt8
  defaultKeyIdx : UInt8
  keyNonce : Vector UInt8 32
  txRsc : Vector UInt8 6
  gtk : Memory
  rsnIe : Memory
  rsnIeLen : UInt8

/-- A bit of `KEY_INFO`. -/
def infoBit (b : Bool) (i : UInt8) : UInt8 := if b then 1 <<< i else 0

variable (e : MacEntry) (a : MsgArgs)

/-- `KeyDescVer` -/
def MsgArgs.keyDescVer : UInt8 :=
  if e.wepStatus = .encryption3Enabled ∨ a.groupKeyWepStatus = .encryption3Enabled then keyDescAes
  else keyDescTkip

/-- `KeyInfo` of a message that is sent. -/
def MsgArgs.keyInfo : KeyInfo where
  lo := infoBit (a.msgType ≠ eapolPairMsg1) 0 |||
    infoBit ((e.bWpa2 ∧ eapolPairMsg3 ≤ a.msgType) ∨ (¬e.bWpa2 ∧ eapolGroupMsg1 ≤ a.msgType)) 1 |||
    infoBit (e.bWpa2 ∧ (a.msgType = eapolPairMsg3 ∨ a.msgType = eapolGroupMsg1)) 4
  hi := a.keyDescVer e ||| infoBit (a.msgType < eapolGroupMsg1) 3 |||
    (if ¬e.bWpa2 ∧ eapolGroupMsg1 ≤ a.msgType then (a.defaultKeyIdx &&& 3) <<< 4 else 0) |||
    infoBit (a.msgType = eapolPairMsg3) 6 |||
    infoBit (a.msgType = eapolPairMsg1 ∨ a.msgType = eapolPairMsg3 ∨ a.msgType = eapolGroupMsg1) 7

/-- `KeyLength` -/
def MsgArgs.keyLength : UInt16 :=
  if e.bWpa2 then
    if a.msgType = eapolPairMsg1 ∨ a.msgType = eapolPairMsg3 then
      if e.wepStatus = .encryption2Enabled then 32 else 16
    else 0
  else if eapolGroupMsg1 ≤ a.msgType then
    if a.groupKeyWepStatus = .encryption2Enabled then 32 else 16
  else if e.wepStatus = .encryption2Enabled then 32 else 16

/-- `KeyIv`: the second half of the nonce, plus two in its last octet, where a group key is sent
outside WPA2. -/
def MsgArgs.keyIv : Vector UInt8 16 :=
  if ¬e.bWpa2 ∧ a.msgType = eapolGroupMsg1 then
    padBlock (a.keyNonce.toList.drop 16 |>.modify 15 (· + 2))
  else Vector.replicate 16 0

/-- `ConstructEapolKeyData`: the plaintext, wrapped where it holds a group key. -/
def MsgArgs.keyData : Except KeyWrapError (List UInt8) :=
  let ver := a.keyDescVer e
  let plain := constructEapolKeyData e.bWpa2 a.groupKeyWepStatus ver a.msgType a.defaultKeyIdx a.gtk
    a.rsnIe a.rsnIeLen
  if a.msgType = eapolPairMsg1 ∨ a.msgType = eapolPairMsg4 ∨ a.msgType = eapolGroupMsg2 then .ok []
  else if (a.msgType = eapolPairMsg3 ∧ e.bWpa2) ∨ a.msgType = eapolGroupMsg1 then
    if ver = keyDescAes then aesKeyWrap plain (kekOf e.ptk) true
    else .ok (tkipGtkKeyWrap (kekOf e.ptk) (a.keyIv e).toList plain)
  else .ok plain

/-- A message before the MIC is filled in. -/
def MsgArgs.packet (keyData : List UInt8) : EapolPacket where
  proVer := 1
  proType := 3
  bodyLen := UInt16.ofNat (minLenOfEapolKeyMsg + keyData.length)
  type := if e.bWpa2 then 2 else 0xfe
  keyInfo := a.keyInfo e
  keyLength := a.keyLength e
  replayCounter := e.rCounter
  keyNonce :=
    if a.msgType ≤ eapolPairMsg3 ∨ (¬e.bWpa2 ∧ a.msgType = eapolGroupMsg1) then a.keyNonce
    else Vector.replicate 32 0
  keyIv := a.keyIv e
  keyRsc :=
    if (a.msgType = eapolPairMsg3 ∧ e.bWpa2) ∨ a.msgType = eapolGroupMsg1 then
      a.txRsc ++ Vector.replicate 2 (0 : UInt8)
    else Vector.replicate 8 0
  keyId := Vector.replicate 8 0
  keyMic := Vector.replicate 16 0
  keyDataLen := UInt16.ofNat keyData.length
  keyData := keyData

/-- `ConstructEapolMsg` -/
def constructEapolMsg : Option EapolPacket :=
  match a.keyData e with
  | .error _ => none
  | .ok keyData =>
    if a.msgType = eapolPairMsg1 then some (a.packet e keyData)
    else calculateMic (a.keyDescVer e) e.ptk (a.packet e keyData)

end Construct

/-- What `PeerWpaMessageSanity` returns, with the group key that is handed on to be installed. -/
inductive Sanity
  | replayDiff
  | micDiff
  | keyDataRefused
  | accepted (groupKey : Option (List UInt8 × UInt8))
  deriving DecidableEq, Repr

section Check
variable (e : MacEntry) (p : EapolPacket) (msgType : UInt8)

/-- `bReplayDiff` -/
def replayDiff : Bool :=
  if msgType = eapolPairMsg1 ∨ msgType = eapolPairMsg3 ∨ msgType = eapolGroupMsg1 then
    rtmpCompareMemory p.replayCounter.toList e.rCounter.toList ≠ 1 ∧
      rtmpCompareMemory p.replayCounter.toList (List.replicate 8 0) ≠ 0
  else p.replayCounter ≠ e.rCounter

/-- The key data as it is parsed, with its length, in a buffer of 255 octets. -/
def keyDataOf : Option (List UInt8) :=
  let data := field p.keyData 0 p.keyDataLen.toNat
  if (msgType = eapolPairMsg3 ∧ e.bWpa2) ∨ msgType = eapolGroupMsg1 then
    if p.keyInfo.keyDescVer = keyDescExt ∨ p.keyInfo.keyDescVer = keyDescAes then
      if maxLenOfRsnIe < uintSub p.keyDataLen.toNat 8 then none
      else (aesKeyUnwrap data (kekOf e.ptk) true).toOption
    else if maxLenOfRsnIe < p.keyDataLen.toNat then none
    else some (tkipGtkKeyWrap (kekOf e.ptk) p.keyIv.toList data)
  else if maxLenOfRsnIe < p.keyDataLen.toNat then none
  else some data

/-- The call of `RTMPParseEapolKeyData`; a copy must not leave `GTK`. -/
def parseKeyData (data : List UInt8) : Option Sanity :=
  let groupKeyIndex := if ¬e.bWpa2 ∧ msgType = eapolGroupMsg1 then p.keyInfo.keyIndex else 0
  let r := rtmpParseEapolKeyData (Memory.write (fun _ => 0) 0 data) (UInt8.ofNat data.length)
    groupKeyIndex msgType e.bWpa2
  if r.copies.any (maxLenGtk < ·) then none
  else match r.result with
    | .refused => some .keyDataRefused
    | .passed => some (.accepted none)
    | .installed gtk defaultIdx => some (.accepted (some (gtk, defaultIdx)))

/-- `PeerWpaMessageSanity` of the six messages. -/
def peerWpaMessageSanity : Option Sanity :=
  if replayDiff e p msgType then some .replayDiff
  else if msgType = eapolPairMsg1 then some (.accepted none)
  else do
    let mic ← eapolMic p.keyInfo.keyDescVer e.ptk p.micInput
    if p.keyMic ≠ mic then some .micDiff
    else if p.keyDataLen = 0 ∨ msgType = eapolPairMsg4 ∨ msgType = eapolGroupMsg2 then
      some (.accepted none)
    else parseKeyData e p msgType (← keyDataOf e p msgType)

end Check

namespace EapolPacket
variable {p q : EapolPacket}

theorem head_length (p : EapolPacket) : p.head.length = 81 := by
  simp [head]

theorem tail_length (p : EapolPacket) : p.tail.length = 2 + p.keyData.length := by
  simp [tail]

theorem bytes_length (p : EapolPacket) : p.bytes.length = p.msgLen := by
  simp only [bytes, msgLen, List.length_append, head_length, tail_length, Vector.length_toList]
  omega

/-- The length field is the length of the message. -/
def Whole (p : EapolPacket) : Prop := p.eapolLen = p.msgLen

theorem micInput_whole (h : p.Whole) : p.micInput = p.head ++ List.replicate 16 0 ++ p.tail := by
  apply List.take_of_length_le
  rw [h, msgLen]
  simp only [List.length_append, head_length, tail_length, List.length_replicate]
  omega

/-- Messages of one text have the same octets in front of the MIC, and the data of the one that is whole
starts the data of the other. -/
theorem micInput_parts (hq : q.Whole) (h : p.micInput = q.micInput) :
    p.head = q.head ∧ p.keyDataLen = q.keyDataLen ∧ p.keyData.take q.keyData.length = q.keyData := by
  rw [micInput_whole hq, micInput] at h
  have hlen := congrArg List.length h
  simp only [List.length_take, List.length_append, head_length, tail_length, List.length_replicate] at hlen
  have hfront := congrArg (List.take 81) h
  have hback := congrArg (List.drop 97) h
  rw [List.take_take, Nat.min_eq_left (by omega), List.append_assoc, List.append_assoc,
    List.take_left' p.head_length, List.take_left' q.head_length] at hfront
  have hskip : ∀ r : EapolPacket, (r.head ++ List.replicate 16 0).length = 97 := by
    intro r
    rw [List.length_append, head_length, List.length_replicate]
  rw [List.drop_take, List.drop_left' (hskip p), List.drop_left' (hskip q)] at hback
  have htail : p.tail.take (2 + q.keyData.length) = q.tail := by
    rw [← hback, List.take_eq_take_iff, tail_length]
    omega
  simp only [tail] at htail
  rw [List.take_append, beBytes_length, Nat.add_sub_cancel_left,
    List.take_of_length_le (by rw [beBytes_length]; omega)] at htail
  obtain ⟨hlength, hdata⟩ := List.append_inj htail (by rw [beBytes_length, beBytes_length])
  exact ⟨hfront, UInt16.toNat_inj.mp (beBytes_injOn p.keyDataLen.toNat_lt q.keyDataLen.toNat_lt hlength),
    hdata⟩

/-- The octets in front of the MIC tell the fields that are looked at. -/
theorem head_injective (h : p.head = q.head) :
    p.keyInfo = q.keyInfo ∧ p.replayCounter = q.replayCounter ∧ p.keyNonce = q.keyNonce ∧
      p.keyIv = q.keyIv := by
  simp only [head, List.cons_append, List.append_assoc, List.cons.injEq] at h
  obtain ⟨-, -, h⟩ := h
  obtain ⟨-, h⟩ := List.append_inj h (by simp only [beBytes_length])
  simp only [List.cons.injEq] at h
  obtain ⟨-, hlo, hhi, h⟩ := h
  obtain ⟨-, h⟩ := List.append_inj h (by simp only [beBytes_length])
  obtain ⟨hcounter, h⟩ := List.append_inj h (by simp only [Vector.length_toList])
  obtain ⟨hnonce, h⟩ := List.append_inj h (by simp only [Vector.length_toList])
  obtain ⟨hiv, -⟩ := List.append_inj h (by simp only [Vector.length_toList])
  have hinfo : p.keyInfo = q.keyInfo := congrArg₂ KeyInfo.mk hlo hhi
  exact ⟨hinfo, Vector.toList_inj.mp hcounter, Vector.toList_inj.mp hnonce, Vector.toList_inj.mp hiv⟩

/-- What a message has of the text of another one. -/
structure SameText (p q : EapolPacket) : Prop where
  keyInfo : p.keyInfo = q.keyInfo
  replayCounter : p.replayCounter = q.replayCounter
  keyNonce : p.keyNonce = q.keyNonce
  keyIv : p.keyIv = q.keyIv
  keyDataLen : p.keyDataLen = q.keyDataLen
  keyData : p.keyData.take q.keyData.length = q.keyData

theorem sameText (hq : q.Whole) (h : p.micInput = q.micInput) : p.SameText q := by
  obtain ⟨hhead, hlength, hdata⟩ := micInput_parts hq h
  obtain ⟨hinfo, hcounter, hnonce, hiv⟩ := head_injective hhead
  exact ⟨hinfo, hcounter, hnonce, hiv, hlength, hdata⟩

end EapolPacket

section Bits
variable {ver : UInt8}

theorem infoBit_lo : ∀ b c d : Bool,
    let info : KeyInfo := ⟨infoBit b 0 ||| infoBit c 1 ||| infoBit d 4, 0⟩
    info.keyMic = b ∧ info.secure = c ∧ info.error = false ∧ info.request = false := by
  decide

theorem infoBit_hi (hver : ver = keyDescTkip ∨ ver = keyDescAes) (index : UInt8) :
    ∀ b c d i : Bool,
      let info : KeyInfo := ⟨0, ver ||| infoBit b 3 ||| (if i then (index &&& 3) <<< 4 else 0) |||
        infoBit c 6 ||| infoBit d 7⟩
      info.keyDescVer = ver ∧ info.keyType = b ∧ info.keyAck = d := by
  have hindex : index &&& 3 = 0 ∨ index &&& 3 = 1 ∨ index &&& 3 = 2 ∨ index &&& 3 = 3 := by
    have hlt : (index &&& 3).toNat < 3 + 1 := by
      rw [UInt8.toNat_and]
      exact Nat.lt_succ_of_le Nat.and_le_right
    simp only [← UInt8.toNat_inj, UInt8.reduceToNat]
    omega
  rcases hver with rfl | rfl <;> rcases hindex with h | h | h | h <;> rw [h] <;> decide

end Bits

section Construct
variable (e : MacEntry) (a : MsgArgs)

theorem MsgArgs.keyDescVer_cases : a.keyDescVer e = keyDescTkip ∨ a.keyDescVer e = keyDescAes := by
  simp only [MsgArgs.keyDescVer]
  split
  · exact .inr rfl
  · exact .inl rfl

/-- What the flags of a message that is sent tell. -/
theorem MsgArgs.keyInfo_bits :
    (a.keyInfo e).keyDescVer = a.keyDescVer e ∧
      (a.keyInfo e).keyType = decide (a.msgType < eapolGroupMsg1) ∧
      (a.keyInfo e).keyAck = decide (a.msgType = eapolPairMsg1 ∨ a.msgType = eapolPairMsg3 ∨
        a.msgType = eapolGroupMsg1) ∧
      (a.keyInfo e).keyMic = decide (a.msgType ≠ eapolPairMsg1) ∧
      (a.keyInfo e).secure = decide ((e.bWpa2 ∧ eapolPairMsg3 ≤ a.msgType) ∨
        (¬e.bWpa2 ∧ eapolGroupMsg1 ≤ a.msgType)) ∧
      (a.keyInfo e).error = false ∧ (a.keyInfo e).request = false := by
  obtain ⟨hver, htype, hack⟩ := infoBit_hi (a.keyDescVer_cases e) a.defaultKeyIdx
    (decide (a.msgType < eapolGroupMsg1)) (decide (a.msgType = eapolPairMsg3))
    (decide (a.msgType = eapolPairMsg1 ∨ a.msgType = eapolPairMsg3 ∨ a.msgType = eapolGroupMsg1))
    (decide (¬e.bWpa2 ∧ eapolGroupMsg1 ≤ a.msgType))
  obtain ⟨hmic, hsecure, herror, hrequest⟩ := infoBit_lo (decide (a.msgType ≠ eapolPairMsg1))
    (decide ((e.bWpa2 ∧ eapolPairMsg3 ≤ a.msgType) ∨ (¬e.bWpa2 ∧ eapolGroupMsg1 ≤ a.msgType)))
    (decide (e.bWpa2 ∧ (a.msgType = eapolPairMsg3 ∨ a.msgType = eapolGroupMsg1)))
  simp only [decide_eq_true_eq] at hver htype hack
  exact ⟨hver, htype, hack, hmic, hsecure, herror, hrequest⟩

end Construct

section Length

theorem rtmpInsertRsnIe_length_le (rsnIe : Memory) (rsnIeLen : UInt8) :
    (rtmpInsertRsnIe rsnIe rsnIeLen).length ≤ rsnIeLen.toNat + 2 := by
  rw [rtmpInsertRsnIe]
  split
  · exact Nat.zero_le _
  · simp only [List.length_cons, Memory.read_length]
    exact Nat.le_refl _

/-- What a message carries besides the RSN element: a group key in its element, and the padding. -/
theorem constructEapolKeyData_length_le (bWpa2 : Bool) (status : WepStatus)
    (ver msgType idx : UInt8) (gtk rsnIe : Memory) (rsnIeLen : UInt8) :
    (constructEapolKeyData bWpa2 status ver msgType idx gtk rsnIe rsnIeLen).length ≤
      rsnIeLen.toNat + 49 := by
  have hkey : (gtkLenOf status).toNat ≤ 32 := by
    rcases gtkLenOf_cases status with h | h <;> rw [h] <;> decide
  have hrsn : (if msgType = eapolPairMsg2 ∨ msgType = eapolPairMsg3 then rtmpInsertRsnIe rsnIe rsnIeLen
      else []).length ≤ rsnIeLen.toNat + 2 := by
    split
    · exact rtmpInsertRsnIe_length_le rsnIe rsnIeLen
    · exact Nat.zero_le _
  have hkde : (if bWpa2 then wpaConstructKdeHdr kdeGtk (2 + gtkLenOf status) ++ [idx &&& 3, 0]
      else []).length ≤ 8 := by
    split
    · exact Nat.le_refl 8
    · exact Nat.zero_le _
  simp only [constructEapolKeyData]
  split
  · split
    · rw [List.length_append, GroupKeyMessage.padding_length (GroupKeyMessage.padLen_lt _)]
      have hpad := GroupKeyMessage.padLen_lt ((if msgType = eapolPairMsg2 ∨ msgType = eapolPairMsg3 then
        rtmpInsertRsnIe rsnIe rsnIeLen else []) ++ ((if bWpa2 then
          wpaConstructKdeHdr kdeGtk (2 + gtkLenOf status) ++ [idx &&& 3, 0] else []) ++
            gtk.read 0 (gtkLenOf status).toNat)).length
      simp only [List.length_append, Memory.read_length] at hpad ⊢
      omega
    · simp only [List.length_append, Memory.read_length]
      omega
  · omega

theorem aesKeyWrap_length {key plainText cipherText : List UInt8} (hkey : aesKeyLength key.length = true)
    (h : aesKeyWrap plainText key true = .ok cipherText) : cipherText.length = plainText.length + 8 := by
  obtain ⟨y, -, hwrapped⟩ := aesKeyWrap_eq hkey plainText rfl
  rw [hwrapped] at h
  cases h
  rw [List.length_append, List.length_append, KeyWrap.bytes_length, List.length_drop, Vector.length_toList]
  omega

end Length

theorem kekOf_length (ptk : Vector UInt8 64) : (kekOf ptk).length = 16 := by
  simp [kekOf]

theorem kekOf_aesKeyLength (ptk : Vector UInt8 64) : aesKeyLength (kekOf ptk).length = true := by
  rw [kekOf_length]
  decide

theorem arc4_length (key iv text : List UInt8) : (tkipGtkKeyWrap key iv text).length = text.length :=
  arc4Compute_length _ text

section Built
variable {e : MacEntry} {a : MsgArgs}

theorem MsgArgs.keyData_length_le {d : List UInt8} (h : a.keyData e = .ok d) : d.length ≤ 312 := by
  have hplain := constructEapolKeyData_length_le e.bWpa2 a.groupKeyWepStatus (a.keyDescVer e) a.msgType
    a.defaultKeyIdx a.gtk a.rsnIe a.rsnIeLen
  have hrsn := a.rsnIeLen.toNat_lt
  simp only [MsgArgs.keyData] at h
  split at h
  · cases h
    exact Nat.zero_le _
  · split at h
    · split at h
      · rw [aesKeyWrap_length (kekOf_aesKeyLength e.ptk) h]
        omega
      · cases h
        rw [arc4_length]
        omega
    · cases h
      omega

/-- No message lacks its data. -/
theorem MsgArgs.keyData_ok (e : MacEntry) (a : MsgArgs) : ∃ d, a.keyData e = .ok d := by
  simp only [MsgArgs.keyData]
  split
  · exact ⟨_, rfl⟩
  · split
    · split
      · obtain ⟨n, hn⟩ := aesKeyWrap_eq (kekOf_aesKeyLength e.ptk) (constructEapolKeyData e.bWpa2
          a.groupKeyWepStatus (a.keyDescVer e) a.msgType a.defaultKeyIdx a.gtk a.rsnIe a.rsnIeLen) rfl
        exact ⟨_, hn.2⟩
      · exact ⟨_, rfl⟩
    · exact ⟨_, rfl⟩

/-- The MIC of a text that a message can have. -/
theorem eapolMic_some (ver : UInt8) (ptk : Vector UInt8 64) {text : List UInt8}
    (htext : text.length + 64 ≤ 2 ^ 32) : ∃ mic, eapolMic ver ptk text = some mic := by
  have hlength : (ptk.toList.take 16).length = 16 := by
    rw [List.length_take, Vector.length_toList]
    rfl
  have hkck : (ptk.toList.take 16).length + 64 ≤ 2 ^ 32 := by
    rw [hlength]
    decide
  rw [eapolMic]
  split
  · rw [rtHmacMd5, md5Kind.hmac_eq md5_computes 16 hkck htext]
    exact ⟨_, rfl⟩
  split
  · rw [rtHmacSha1_eq hkck htext]
    exact ⟨_, rfl⟩
  split
  · obtain ⟨key, hkey⟩ : ∃ key : Vector UInt8 16, key.toList = ptk.toList.take 16 :=
      ⟨⟨(ptk.toList.take 16).toArray, by rw [List.size_toArray, hlength]⟩, rfl⟩
    rw [← hkey]
    exact ⟨_, aesCmac_mac key text (Nat.le_refl 16)⟩
  · exact ⟨_, rfl⟩

/-- The text of a message is not longer than its length field tells. -/
theorem EapolPacket.micInput_length (p : EapolPacket) : p.micInput.length + 64 ≤ 2 ^ 32 := by
  have hle : p.micInput.length ≤ p.eapolLen := List.length_take_le _ _
  have hlt := p.bodyLen.toNat_lt
  rw [EapolPacket.eapolLen] at hle
  omega

variable {m : EapolPacket}

/-- A message as it is built: the length field is right, and the MIC is that of the text. -/
structure Built (e : MacEntry) (a : MsgArgs) (m : EapolPacket) : Prop where
  data : ∃ keyData mic, a.keyData e = .ok keyData ∧ m = { a.packet e keyData with keyMic := mic }
  mic : a.msgType ≠ eapolPairMsg1 → eapolMic (a.keyDescVer e) e.ptk m.micInput = some m.keyMic

theorem constructEapolMsg_built (h : constructEapolMsg e a = some m) : Built e a m := by
  rw [constructEapolMsg] at h
  split at h
  · cases h
  · rename_i keyData hdata
    split at h
    · rename_i hone
      cases h
      exact ⟨⟨keyData, _, hdata, rfl⟩, fun h => absurd hone h⟩
    · rw [calculateMic] at h
      split at h
      · cases h
      · obtain ⟨mic, hmic, hm⟩ := Option.map_eq_some_iff.mp h
        subst hm
        exact ⟨⟨keyData, mic, hdata, rfl⟩, fun _ => hmic⟩

theorem Built.whole (h : Built e a m) : m.Whole := by
  obtain ⟨keyData, mic, hdata, rfl⟩ := h.data
  have hlen := MsgArgs.keyData_length_le hdata
  have hbody : (UInt16.ofNat (minLenOfEapolKeyMsg + keyData.length)).toNat =
      minLenOfEapolKeyMsg + keyData.length := by
    apply UInt16.toNat_ofNat_of_lt'
    simp only [minLenOfEapolKeyMsg, UInt16.size]
    omega
  rw [EapolPacket.Whole, EapolPacket.eapolLen, EapolPacket.msgLen, MsgArgs.packet, hbody]
  simp only [minLenOfEapolKeyMsg]
  omega

/-- Every message can be built. -/
theorem constructEapolMsg_some (e : MacEntry) (a : MsgArgs) : ∃ m, constructEapolMsg e a = some m := by
  obtain ⟨keyData, hdata⟩ := a.keyData_ok e
  have hlen := MsgArgs.keyData_length_le hdata
  rw [constructEapolMsg]
  simp only [hdata]
  split
  · exact ⟨_, rfl⟩
  · have hbody : (a.packet e keyData).eapolLen ≤ 411 := by
      have hmod : (UInt16.ofNat (minLenOfEapolKeyMsg + keyData.length)).toNat ≤
          minLenOfEapolKeyMsg + keyData.length := by
        rw [UInt16.toNat_ofNat']
        exact Nat.mod_le _ _
      rw [EapolPacket.eapolLen, MsgArgs.packet]
      simp only [minLenOfEapolKeyMsg] at hmod ⊢
      omega
    obtain ⟨mic, hmic⟩ := eapolMic_some (a.keyDescVer e) e.ptk (a.packet e keyData).micInput_length
    rw [calculateMic, if_neg (by omega), hmic, Option.map_some]
    exact ⟨_, rfl⟩

end Built

end Rt5572

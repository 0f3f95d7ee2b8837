import StandaloneDrivers.Rt5572.ManagementElements

/-! The key data of EAPOL-Key messages (common/cmm_wpa.c): `ConstructEapolKeyData` up to the
encryption, and `RTMPParseEapolKeyData`. The key data lies in memory from 0 on. -/
namespace Rt5572
open Foundations
open BssTab (WepStatus eidStruct ieRsn ieWpa)

abbrev eapolPairMsg2 : UInt8 := 2
abbrev eapolPairMsg3 : UInt8 := 3
abbrev eapolGroupMsg1 : UInt8 := 5

/-- `KEY_DESC_AES` -/
abbrev keyDescAes : UInt8 := 2

/-- `WPA_KDE_TYPE` -/
abbrev wpaKdeType : UInt8 := 0xdd

/-- `KDE_GTK` -/
abbrev kdeGtk : UInt8 := 1

/-- `OUI_WPA2` -/
def ouiWpa2 : List UInt8 := [0x00, 0x0f, 0xac]

/-- `LEN_WEP64` -/
abbrev lenWep64 : UInt8 := 5

/-- `MAX_LEN_GTK` -/
abbrev maxLenGtk : ℕ := 32

section Construct

/-- `RTMPInsertRSNIE` without PMKIDs: the element has the octets of `rsnie_ptr`. -/
def rtmpInsertRsnIe (rsnIe : Memory) (rsnIeLen : UInt8) : List UInt8 :=
  if rsnIeLen = 0 then []
  else (if rsnIe.read 2 3 = ouiWpa2 then ieRsn else ieWpa) :: rsnIeLen ::
    rsnIe.read 0 rsnIeLen.toNat

/-- `WPA_ConstructKdeHdr` -/
def wpaConstructKdeHdr (dataType dataLen : UInt8) : List UInt8 :=
  wpaKdeType :: (4 + dataLen) :: ouiWpa2 ++ [dataType]

/-- `LEN_AES_GTK` or `LEN_TKIP_GTK` -/
def gtkLenOf (groupKeyWepStatus : WepStatus) : UInt8 :=
  if groupKeyWepStatus = .encryption3Enabled then 16 else 32

/-- How many bytes are appended before the key wrap. -/
def padLen (dataOffset : ℕ) : ℕ := if dataOffset % 8 = 0 then 0 else 8 - dataOffset % 8

/-- 0xdd and zeroes behind it. -/
def padding (n : ℕ) : List UInt8 := [wpaKdeType, 0, 0, 0, 0, 0, 0, 0].take n

/-- The plaintext of `ConstructEapolKeyData`. -/
def constructEapolKeyData (bWpa2Capable : Bool) (groupKeyWepStatus : WepStatus)
    (keyDescVer msgType defaultKeyIdx : UInt8) (gtk rsnIe : Memory) (rsnIeLen : UInt8) :
    List UInt8 :=
  let rsn := if msgType = eapolPairMsg2 ∨ msgType = eapolPairMsg3 then
      rtmpInsertRsnIe rsnIe rsnIeLen
    else []
  if (msgType = eapolPairMsg3 ∧ bWpa2Capable) ∨ msgType = eapolGroupMsg1 then
    let gtkLen := gtkLenOf groupKeyWepStatus
    let kde := if bWpa2Capable then wpaConstructKdeHdr kdeGtk (2 + gtkLen) ++ [defaultKeyIdx &&& 3, 0]
      else []
    let keyData := rsn ++ (kde ++ gtk.read 0 gtkLen.toNat)
    if keyDescVer = keyDescAes then keyData ++ padding (padLen keyData.length) else keyData
  else rsn

end Construct

/-- What is handed on to have the key installed, if anything is. -/
inductive KeyDataResult
  | refused
  | passed
  | installed (gtk : List UInt8) (defaultIdx : UInt8)
  deriving DecidableEq, Repr

/-- The places that were read, the sizes of the copies to `GTK`, and `GTK` with `DefaultIdx`; there
are none when the function has returned FALSE. -/
structure KdeWalk where
  reads : List Span
  copies : List ℕ
  out : Option (List UInt8 × UInt8)

structure KeyDataParse where
  reads : List Span
  copies : List ℕ
  result : KeyDataResult

section Parse
variable (m : Memory)

/-- `case WPA_KDE_TYPE`; the length of the key is a byte. -/
def kdeElement (pos : ℕ) (s : List UInt8 × UInt8) : KdeWalk :=
  if m pos = wpaKdeType then
    if m.read (pos + 2) 3 = ouiWpa2 then
      if m (pos + 5) = kdeGtk then
        let gtkLen := m (pos + 1) - 6
        if gtkLen < lenWep64 then ⟨[⟨pos + 2, 3⟩, ⟨pos + 5, 1⟩, ⟨pos + 6, 1⟩], [], none⟩
        else
          ⟨[⟨pos + 2, 3⟩, ⟨pos + 5, 1⟩, ⟨pos + 6, 1⟩, ⟨pos + 8, gtkLen.toNat⟩], [gtkLen.toNat],
            some (m.read (pos + 8) gtkLen.toNat, m (pos + 6) &&& 3)⟩
      else ⟨[⟨pos + 2, 3⟩, ⟨pos + 5, 1⟩], [], some s⟩
    else ⟨[⟨pos + 2, 3⟩], [], some s⟩
  else ⟨[], [], some s⟩

/-- The loop over the elements, which reads the length of the next one first. -/
def kdeWalk (keyDataLength pos : ℕ) (s : List UInt8 × UInt8) : KdeWalk :=
  if eidStruct.next m pos ≤ keyDataLength then
    let r := kdeElement m pos s
    match r.out with
    | none => ⟨⟨pos + 1, 1⟩ :: ⟨pos, 1⟩ :: r.reads, r.copies, none⟩
    | some s =>
      let rest := kdeWalk keyDataLength (eidStruct.next m pos) s
      ⟨⟨pos + 1, 1⟩ :: ⟨pos, 1⟩ :: r.reads ++ rest.reads, r.copies ++ rest.copies, rest.out⟩
  else ⟨[⟨pos + 1, 1⟩], [], some s⟩
  termination_by keyDataLength - pos
  decreasing_by
    have := eidStruct.lt_next m pos
    omega

/-- The key of a message; WPA sends it as it is. -/
def groupKeyOf (keyDataLen groupKeyIndex msgType : UInt8) (bWpa2 : Bool) : KdeWalk :=
  if bWpa2 ∧ (msgType = eapolPairMsg3 ∨ msgType = eapolGroupMsg1) then
    kdeWalk m keyDataLen.toNat 0 ([], 0)
  else if ¬bWpa2 ∧ msgType = eapolGroupMsg1 then
    ⟨[⟨0, keyDataLen.toNat⟩], [keyDataLen.toNat], some (m.read 0 keyDataLen.toNat, groupKeyIndex)⟩
  else ⟨[], [], some ([], 0)⟩

def rtmpParseEapolKeyData (keyDataLen groupKeyIndex msgType : UInt8) (bWpa2 : Bool) :
    KeyDataParse :=
  if (msgType = eapolPairMsg2 ∨ msgType = eapolPairMsg3) ∧ ¬(bWpa2 ∧ msgType = eapolPairMsg3) then
    ⟨[], [], .passed⟩
  else
    let r := groupKeyOf m keyDataLen groupKeyIndex msgType bWpa2
    ⟨r.reads, r.copies, match r.out with
      | none => .refused
      | some (gtk, defaultIdx) => if 3 < defaultIdx then .refused else .installed gtk defaultIdx⟩

end Parse

/-- A message that carries a group key in WPA2 mode, and what memory holds where its key data is
parsed; the first field of an RSN element is its version. -/
structure GroupKeyMessage where
  groupKeyWepStatus : WepStatus
  keyDescVer : UInt8
  msgType : UInt8
  carriesKey : msgType = eapolPairMsg3 ∨ msgType = eapolGroupMsg1
  defaultKeyIdx : UInt8
  index_lt : defaultKeyIdx < 4
  gtk : Memory
  rsnIe : Memory
  rsnIeLen : UInt8
  version : rsnIe.le16 0 = 1
  behind : Memory

namespace GroupKeyMessage
variable (msg : GroupKeyMessage)

def keyData : List UInt8 :=
  constructEapolKeyData true msg.groupKeyWepStatus msg.keyDescVer msg.msgType msg.defaultKeyIdx
    msg.gtk msg.rsnIe msg.rsnIeLen

/-- The key data, with the rest of memory behind it. -/
def memory : Memory := msg.behind.write 0 msg.keyData

/-- The length is handed over as a byte. -/
def parsed (groupKeyIndex : UInt8) : KeyDataParse :=
  rtmpParseEapolKeyData msg.memory (UInt8.ofNat msg.keyData.length) groupKeyIndex msg.msgType true

/-- The parser installs the key that was sent, under its index. -/
def RoundTrips : Prop :=
  ∀ groupKeyIndex, (msg.parsed groupKeyIndex).result =
    .installed (msg.gtk.read 0 (gtkLenOf msg.groupKeyWepStatus).toNat) msg.defaultKeyIdx

/-- The element in front of the key. -/
def rsnElement : List UInt8 :=
  if msg.msgType = eapolPairMsg3 then rtmpInsertRsnIe msg.rsnIe msg.rsnIeLen else []

def gtkElement : List UInt8 :=
  wpaConstructKdeHdr kdeGtk (2 + gtkLenOf msg.groupKeyWepStatus) ++ [msg.defaultKeyIdx &&& 3, 0] ++
    msg.gtk.read 0 (gtkLenOf msg.groupKeyWepStatus).toNat

/-- How much is padded behind the key. -/
def pad : ℕ :=
  if msg.keyDescVer = keyDescAes then padLen (msg.rsnElement ++ msg.gtkElement).length else 0

/-- The key data fits into a byte, and what memory holds behind it does not make a GTK KDE of the
padding. -/
structure Fits : Prop where
  length : msg.keyData.length < 256
  padding : 2 ≤ msg.pad → msg.memory.read (msg.keyData.length - msg.pad + 2) 4 ≠ ouiWpa2 ++ [kdeGtk]

end GroupKeyMessage

/-- The arguments of a call, and memory from the key data on. -/
structure KeyDataCall where
  pKeyData : Memory
  keyDataLen : UInt8
  groupKeyIndex : UInt8
  msgType : UInt8
  bWpa2 : Bool

section Specification
variable (m : Memory)

/-- A GTK KDE that holds its header, by its place. -/
def IsGtkKde (p : ℕ) : Prop :=
  m p = wpaKdeType ∧ 4 ≤ (m (p + 1)).toNat ∧ m.read (p + 2) 3 = ouiWpa2 ∧ m (p + 5) = kdeGtk

/-- What is looked at of a complete element lies inside, and the key of one that is taken for a GTK
KDE is neither too short nor too long. -/
structure KdeFits (len p : ℕ) : Prop where
  oui : m p = wpaKdeType → p + 5 ≤ len
  dataType : m p = wpaKdeType → m.read (p + 2) 3 = ouiWpa2 → p + 6 ≤ len
  key : m p = wpaKdeType → m.read (p + 2) 3 = ouiWpa2 → m (p + 5) = kdeGtk →
    11 ≤ (m (p + 1)).toNat ∧ (m (p + 1)).toNat ≤ 38

/-- From a place on, all complete elements fit up to a GTK KDE that is refused as it holds its header
and less than a key, or up to an element that is cut off behind its header. -/
inductive KdesFit (len : ℕ) : ℕ → Prop
  | done {p : ℕ} (hcut : len < eidStruct.next m p) (h : p + 2 ≤ len) : KdesFit len p
  | refused {p : ℕ} (h : eidStruct.next m p ≤ len) (hkde : IsGtkKde m p)
      (hlow : 6 ≤ (m (p + 1)).toNat) (hshort : (m (p + 1)).toNat < 11) : KdesFit len p
  | next {p : ℕ} (h : eidStruct.next m p ≤ len) (hfits : KdeFits m len p)
      (hrest : KdesFit len (eidStruct.next m p)) : KdesFit len p

end Specification

namespace KeyDataCall
variable (call : KeyDataCall)

def parse : KeyDataParse :=
  rtmpParseEapolKeyData call.pKeyData call.keyDataLen call.groupKeyIndex call.msgType call.bWpa2

/-- The elements are parsed. -/
def HasKdes : Prop :=
  call.bWpa2 = true ∧ (call.msgType = eapolPairMsg3 ∨ call.msgType = eapolGroupMsg1)

/-- The key data only is read, no copy is longer than `GTK`, and a GTK KDE that is too short for a key
is refused. -/
structure Safe : Prop where
  reads : ∀ s ∈ call.parse.reads, s.Inside call.keyDataLen.toNat
  copies : ∀ n ∈ call.parse.copies, n ≤ maxLenGtk
  short : call.HasKdes → (∃ p ∈ eidStruct.items call.pKeyData call.keyDataLen.toNat 0,
    IsGtkKde call.pKeyData p ∧ (call.pKeyData (p + 1)).toNat < 6 + lenWep64.toNat) →
      call.parse.result = .refused

/-- The elements fit in WPA2 mode, and the key as it is in the other. -/
structure Fits : Prop where
  kdes : call.HasKdes → KdesFit call.pKeyData call.keyDataLen.toNat 0
  key : call.bWpa2 = false → call.msgType = eapolGroupMsg1 → call.keyDataLen.toNat ≤ maxLenGtk

end KeyDataCall

section Elements
variable {m : Memory} {len p : ℕ} {s : List UInt8 × UInt8}

/-- What was subtracted from the length comes back in a byte. -/
theorem keyLength (a : UInt8) : (a - 6).toNat = (a.toNat + 250) % 256 := by
  have hsix : (6 : UInt8).toNat = 6 := rfl
  rw [UInt8.toNat_sub, hsix, Nat.add_comm]

theorem keyShort_iff (a : UInt8) : a - 6 < lenWep64 ↔ 6 ≤ a.toNat ∧ a.toNat < 11 := by
  have hlt := a.toNat_lt
  have hfive : lenWep64.toNat = 5 := rfl
  rw [UInt8.lt_iff_toNat_lt, keyLength, hfive]
  omega

/-- What an element leaves of the key. -/
inductive KdeCase (m : Memory) (p : ℕ) (s : List UInt8 × UInt8) : KdeWalk → Prop
  | other (h : m p ≠ wpaKdeType) : KdeCase m p s ⟨[], [], some s⟩
  | oui (h : m p = wpaKdeType) (houi : m.read (p + 2) 3 ≠ ouiWpa2) :
      KdeCase m p s ⟨[⟨p + 2, 3⟩], [], some s⟩
  | dataType (h : m p = wpaKdeType) (houi : m.read (p + 2) 3 = ouiWpa2) (htype : m (p + 5) ≠ kdeGtk) :
      KdeCase m p s ⟨[⟨p + 2, 3⟩, ⟨p + 5, 1⟩], [], some s⟩
  | short (h : m p = wpaKdeType) (houi : m.read (p + 2) 3 = ouiWpa2) (htype : m (p + 5) = kdeGtk)
      (hlow : 6 ≤ (m (p + 1)).toNat) (hshort : (m (p + 1)).toNat < 11) :
      KdeCase m p s ⟨[⟨p + 2, 3⟩, ⟨p + 5, 1⟩, ⟨p + 6, 1⟩], [], none⟩
  | key (h : m p = wpaKdeType) (houi : m.read (p + 2) 3 = ouiWpa2) (htype : m (p + 5) = kdeGtk)
      (hlong : ¬(6 ≤ (m (p + 1)).toNat ∧ (m (p + 1)).toNat < 11)) :
      KdeCase m p s
        ⟨[⟨p + 2, 3⟩, ⟨p + 5, 1⟩, ⟨p + 6, 1⟩, ⟨p + 8, (m (p + 1) - 6).toNat⟩],
          [(m (p + 1) - 6).toNat],
          some (m.read (p + 8) (m (p + 1) - 6).toNat, m (p + 6) &&& 3)⟩

theorem kdeElement_case (m : Memory) (p : ℕ) (s : List UInt8 × UInt8) :
    KdeCase m p s (kdeElement m p s) := by
  simp only [kdeElement, keyShort_iff]
  split_ifs with h houi htype hshort
  · exact .short h houi htype hshort.1 hshort.2
  · exact .key h houi htype hshort
  · exact .dataType h houi htype
  · exact .oui h houi
  · exact .other h

theorem kdeElement_safe (hnext : eidStruct.next m p ≤ len) (hfits : KdeFits m len p) :
    (kdeElement m p s).out.isSome ∧ (∀ r ∈ (kdeElement m p s).reads, r.Inside len) ∧
      ∀ n ∈ (kdeElement m p s).copies, n ≤ maxLenGtk := by
  rw [eidStruct_next] at hnext
  have hcase := kdeElement_case m p s
  generalize kdeElement m p s = r at hcase ⊢
  cases hcase with
  | other h => simp
  | oui h houi =>
    have := hfits.oui h
    simp [Span.Inside, this]
  | dataType h houi htype =>
    have := hfits.dataType h houi
    simp [Span.Inside]
    omega
  | short h houi htype hlow hshort =>
    have := hfits.key h houi htype
    omega
  | key h houi htype hlong =>
    obtain ⟨hlow, hhigh⟩ := hfits.key h houi htype
    have hcount : (m (p + 1) - 6).toNat = (m (p + 1)).toNat - 6 := by
      rw [keyLength]
      omega
    simp only [Option.isSome_some, List.forall_mem_cons, Span.Inside, hcount, maxLenGtk, true_and]
    refine ⟨⟨by omega, by omega, by omega, by omega, by simp⟩, by omega, by simp⟩

/-- What an element has read and copied tells that it fits, or that it is refused. -/
theorem kdeElement_fits (hreads : ∀ r ∈ (kdeElement m p s).reads, r.Inside len)
    (hcopies : ∀ n ∈ (kdeElement m p s).copies, n ≤ maxLenGtk) :
    ((kdeElement m p s).out.isSome → KdeFits m len p) ∧
      ((kdeElement m p s).out = none →
        IsGtkKde m p ∧ 6 ≤ (m (p + 1)).toNat ∧ (m (p + 1)).toNat < 11) := by
  have hcase := kdeElement_case m p s
  generalize kdeElement m p s = r at hcase hreads hcopies ⊢
  cases hcase with
  | other h =>
    exact ⟨fun _ => ⟨fun h' => absurd h' h, fun h' => absurd h' h, fun h' => absurd h' h⟩, (by rintro ⟨⟩)⟩
  | oui h houi =>
    simp only [List.forall_mem_cons, Span.Inside] at hreads
    exact ⟨fun _ => ⟨fun _ => hreads.1, fun _ h' => absurd h' houi, fun _ h' => absurd h' houi⟩,
      (by rintro ⟨⟩)⟩
  | dataType h houi htype =>
    simp only [List.forall_mem_cons, Span.Inside] at hreads
    exact ⟨fun _ => ⟨fun _ => hreads.1, fun _ _ => hreads.2.1, fun _ _ h' => absurd h' htype⟩,
      (by rintro ⟨⟩)⟩
  | short h houi htype hlow hshort =>
    exact ⟨(by rintro ⟨⟩), fun _ => ⟨⟨h, by omega, houi, htype⟩, hlow, hshort⟩⟩
  | key h houi htype hlong =>
    simp only [List.forall_mem_cons, Span.Inside] at hreads
    rw [List.forall_mem_singleton, keyLength] at hcopies
    have hlt := (m (p + 1)).toNat_lt
    simp only [maxLenGtk] at hcopies
    exact ⟨fun _ => ⟨fun _ => hreads.1, fun _ _ => hreads.2.1, fun _ _ _ => by omega⟩, (by rintro ⟨⟩)⟩

theorem kdeWalk_cut (h : len < eidStruct.next m p) :
    kdeWalk m len p s = ⟨[⟨p + 1, 1⟩], [], some s⟩ := by
  rw [kdeWalk, if_neg (Nat.not_le.mpr h)]

theorem kdeWalk_refused (h : eidStruct.next m p ≤ len) (hout : (kdeElement m p s).out = none) :
    kdeWalk m len p s =
      ⟨⟨p + 1, 1⟩ :: ⟨p, 1⟩ :: (kdeElement m p s).reads, (kdeElement m p s).copies, none⟩ := by
  rw [kdeWalk, if_pos h]
  simp only [hout]

theorem kdeWalk_next {t : List UInt8 × UInt8} (h : eidStruct.next m p ≤ len)
    (hout : (kdeElement m p s).out = some t) :
    kdeWalk m len p s =
      ⟨⟨p + 1, 1⟩ :: ⟨p, 1⟩ :: (kdeElement m p s).reads ++
          (kdeWalk m len (eidStruct.next m p) t).reads,
        (kdeElement m p s).copies ++ (kdeWalk m len (eidStruct.next m p) t).copies,
        (kdeWalk m len (eidStruct.next m p) t).out⟩ := by
  rw [kdeWalk, if_pos h]
  simp only [hout]

/-- The walk over elements that fit; the induction is on them. -/
theorem KdesFit.safe (h : KdesFit m len p) (s : List UInt8 × UInt8) :
    (∀ r ∈ (kdeWalk m len p s).reads, r.Inside len) ∧
      (∀ n ∈ (kdeWalk m len p s).copies, n ≤ maxLenGtk) ∧
        ((∃ q ∈ eidStruct.items m len p, IsGtkKde m q ∧ (m (q + 1)).toNat < 11) →
          (kdeWalk m len p s).out = none) := by
  induction h generalizing s with
  | done hcut h =>
    simp only [kdeWalk_cut hcut, Tlv.items_of_cut hcut, List.forall_mem_singleton]
    exact ⟨h, by simp, by simp⟩
  | @refused p h hkde hlow hshort =>
    obtain ⟨hid, hheader, houi, htype⟩ := hkde
    have hout : kdeElement m p s = ⟨[⟨p + 2, 3⟩, ⟨p + 5, 1⟩, ⟨p + 6, 1⟩], [], none⟩ := by
      simp only [kdeElement, hid, houi, htype, if_true]
      rw [if_pos ((keyShort_iff _).mpr ⟨hlow, hshort⟩)]
    rw [kdeWalk_refused h (by rw [hout]), hout]
    rw [eidStruct_next] at h
    simp only [List.forall_mem_cons, Span.Inside]
    exact ⟨⟨by omega, by omega, by omega, by omega, by omega, by simp⟩, by simp, fun _ => trivial⟩
  | @next p h hfits hrest ih =>
    obtain ⟨hsome, hreads, hcopies⟩ := kdeElement_safe (s := s) h hfits
    obtain ⟨t, hout⟩ := Option.isSome_iff_exists.mp hsome
    obtain ⟨hreads', hcopies', hshort⟩ := ih t
    rw [kdeWalk_next h hout]
    refine ⟨?_, ?_, ?_⟩
    · simp only [List.cons_append, List.forall_mem_cons, List.forall_mem_append]
      rw [eidStruct_next] at h
      exact ⟨by simp only [Span.Inside]; omega, by simp only [Span.Inside]; omega, hreads, hreads'⟩
    · simp only [List.forall_mem_append]
      exact ⟨hcopies, hcopies'⟩
    · rintro ⟨q, hq, hkde, hlt⟩
      rw [Tlv.items_of_complete h, List.mem_cons] at hq
      rcases hq with rfl | hq
      · have := hfits.key hkde.1 hkde.2.2.1 hkde.2.2.2
        omega
      · exact hshort ⟨q, hq, hkde, hlt⟩

theorem kdesFit_of_safe (hreads : ∀ r ∈ (kdeWalk m len p s).reads, r.Inside len)
    (hcopies : ∀ n ∈ (kdeWalk m len p s).copies, n ≤ maxLenGtk) : KdesFit m len p := by
  fun_induction Tlv.items eidStruct m len p generalizing s with
  | case1 p h ih =>
    cases hout : (kdeElement m p s).out with
    | none =>
      rw [kdeWalk_refused h hout] at hreads hcopies
      simp only [List.forall_mem_cons] at hreads
      obtain ⟨hkde, hlow, hshort⟩ := (kdeElement_fits hreads.2.2 hcopies).2 hout
      exact .refused h hkde hlow hshort
    | some t =>
      rw [kdeWalk_next h hout] at hreads hcopies
      simp only [List.cons_append, List.forall_mem_cons, List.forall_mem_append] at hreads hcopies
      exact .next h ((kdeElement_fits hreads.2.2.1 hcopies.1).1 (by rw [hout]; rfl))
        (ih hreads.2.2.2 hcopies.2)
  | case2 p h =>
    rw [kdeWalk_cut (Nat.not_le.mp h)] at hreads
    exact .done (Nat.not_le.mp h) (hreads _ List.mem_cons_self)

end Elements

namespace KeyDataCall
variable {call : KeyDataCall}

theorem parse_kdes (h : call.HasKdes) :
    call.parse.reads = (kdeWalk call.pKeyData call.keyDataLen.toNat 0 ([], 0)).reads ∧
      call.parse.copies = (kdeWalk call.pKeyData call.keyDataLen.toNat 0 ([], 0)).copies ∧
        ((kdeWalk call.pKeyData call.keyDataLen.toNat 0 ([], 0)).out = none →
          call.parse.result = .refused) := by
  have hkept : ¬((call.msgType = eapolPairMsg2 ∨ call.msgType = eapolPairMsg3) ∧
      ¬(call.bWpa2 = true ∧ call.msgType = eapolPairMsg3)) := by
    rintro ⟨hpair, hnot⟩
    rcases h.2 with hmsg | hmsg
    · exact hnot ⟨h.1, hmsg⟩
    · rw [hmsg] at hpair
      exact absurd hpair (by decide)
  have hparsed : call.bWpa2 = true ∧ (call.msgType = eapolPairMsg3 ∨ call.msgType = eapolGroupMsg1) := h
  rw [parse, rtmpParseEapolKeyData, if_neg hkept, groupKeyOf, if_pos hparsed]
  exact ⟨rfl, rfl, fun hout => by simp only [hout]⟩

theorem parse_wpa (hmode : call.bWpa2 = false) (hmsg : call.msgType = eapolGroupMsg1) :
    call.parse.reads = [⟨0, call.keyDataLen.toNat⟩] ∧
      call.parse.copies = [call.keyDataLen.toNat] := by
  have hkept : ¬((eapolGroupMsg1 = eapolPairMsg2 ∨ eapolGroupMsg1 = eapolPairMsg3) ∧
      ¬(false = true ∧ eapolGroupMsg1 = eapolPairMsg3)) := by decide
  simp only [parse, rtmpParseEapolKeyData, groupKeyOf, hmode, hmsg, if_neg hkept]
  exact ⟨rfl, rfl⟩

theorem parse_other (h : ¬call.HasKdes)
    (hwpa : ¬(call.bWpa2 = false ∧ call.msgType = eapolGroupMsg1)) :
    call.parse.reads = [] ∧ call.parse.copies = [] := by
  simp only [HasKdes] at h
  simp only [parse, rtmpParseEapolKeyData, groupKeyOf, if_neg h, Bool.not_eq_true, if_neg hwpa]
  split_ifs <;> exact ⟨rfl, rfl⟩

theorem safe_iff_fits (call : KeyDataCall) : call.Safe ↔ call.Fits := by
  by_cases hkdes : call.HasKdes
  · obtain ⟨hreads, hcopies, hrefused⟩ := parse_kdes hkdes
    have hmode : call.bWpa2 ≠ false := by
      rw [hkdes.1]
      decide
    constructor
    · intro h
      exact ⟨fun _ => kdesFit_of_safe (hreads ▸ h.reads) (hcopies ▸ h.copies),
        fun hwpa => absurd hwpa hmode⟩
    · intro h
      obtain ⟨hinside, hshort, hout⟩ := (h.kdes hkdes).safe ([], 0)
      exact ⟨hreads ▸ hinside, hcopies ▸ hshort, fun _ hkde => hrefused (hout hkde)⟩
  · by_cases hwpa : call.bWpa2 = false ∧ call.msgType = eapolGroupMsg1
    · obtain ⟨hreads, hcopies⟩ := parse_wpa hwpa.1 hwpa.2
      constructor
      · intro h
        refine ⟨fun hno => absurd hno hkdes, fun _ _ => h.copies _ ?_⟩
        rw [hcopies]
        exact List.mem_cons_self
      · intro h
        refine ⟨?_, ?_, fun hno => absurd hno hkdes⟩
        · rw [hreads, List.forall_mem_singleton]
          exact Nat.le_of_eq (Nat.zero_add _)
        · rw [hcopies, List.forall_mem_singleton]
          exact h.key hwpa.1 hwpa.2
    · obtain ⟨hreads, hcopies⟩ := parse_other hkdes hwpa
      apply iff_of_true
      · exact ⟨by simp [hreads], by simp [hcopies], fun hno => absurd hno hkdes⟩
      · exact ⟨fun hno => absurd hno hkdes, fun hmode hmsg => absurd ⟨hmode, hmsg⟩ hwpa⟩

end KeyDataCall

section Padding
variable {m : Memory} {len p : ℕ} {s : List UInt8 × UInt8}

theorem kdeElement_other (h : m p ≠ wpaKdeType) : kdeElement m p s = ⟨[], [], some s⟩ := by
  rw [kdeElement, if_neg h]

/-- Zeroes are elements of another kind. -/
theorem kdeWalk_zeroes (h : ∀ i, p ≤ i → i < len → m i = 0) : (kdeWalk m len p s).out = some s := by
  fun_induction Tlv.items eidStruct m len p with
  | case1 p hnext ih =>
    have hlt := eidStruct.lt_next m p
    have hzero : m p ≠ wpaKdeType := by
      rw [h p (Nat.le_refl p) (by omega)]
      decide
    rw [kdeWalk_next hnext (by rw [kdeElement_other hzero])]
    exact ih fun i hi => h i (Nat.le_trans (Nat.le_of_lt (eidStruct.lt_next m p)) hi)
  | case2 p hcut => rw [kdeWalk_cut (Nat.not_le.mp hcut)]

theorem padding_getD {n j : ℕ} (h : j < n) :
    (padding n).getD j 0 = if j = 0 then wpaKdeType else 0 := by
  rw [padding, List.getD_eq_getElem?_getD, List.getElem?_take_of_lt h]
  cases j with
  | zero => rfl
  | succ j =>
    have hzeroes : ([0, 0, 0, 0, 0, 0, 0] : List UInt8) = List.replicate 7 0 := rfl
    rw [List.getElem?_cons_succ, hzeroes, List.getElem?_replicate, if_neg (Nat.succ_ne_zero j)]
    split <;> rfl

theorem read_type (p : ℕ) : m.read p 4 = ouiWpa2 ++ [kdeGtk] ↔
    m.read p 3 = ouiWpa2 ∧ m (p + 3) = kdeGtk := by
  have hsplit : m.read p 4 = m.read p 3 ++ [m (p + 3)] := m.read_add p 3 1
  rw [hsplit]
  constructor
  · intro h
    obtain ⟨houi, htype⟩ := List.append_inj h (m.read_length p 3)
    exact ⟨houi, List.singleton_inj.mp htype⟩
  · rintro ⟨houi, htype⟩
    rw [houi, htype]

/-- A padding that takes no GTK KDE from behind it leaves the key alone; else 250 bytes are the key. -/
theorem kdeWalk_padding {n : ℕ} (hpad : m.read p n = padding n) :
    (kdeWalk m (p + n) p s).out =
      if 2 ≤ n ∧ m.read (p + 2) 3 = ouiWpa2 ∧ m (p + 5) = kdeGtk then
        some (m.read (p + 8) 250, m (p + 6) &&& 3)
      else some s := by
  have hbyte : ∀ j < n, m (p + j) = if j = 0 then wpaKdeType else 0 := fun j hj => by
    rw [← padding_getD hj, ← hpad, Memory.read_getD m hj]
  by_cases htwo : 2 ≤ n
  · have hid : m p = wpaKdeType := hbyte 0 (by omega)
    have hlen : m (p + 1) = 0 := hbyte 1 htwo
    have hnext : eidStruct.next m p = p + 2 := by
      rw [eidStruct_next, hlen]
      rfl
    have hrest : ∀ t, (kdeWalk m (p + n) (p + 2) t).out = some t := fun t => by
      apply kdeWalk_zeroes
      intro i hi hin
      obtain ⟨j, rfl⟩ := Nat.exists_eq_add_of_le (show p ≤ i by omega)
      rw [hbyte j (by omega), if_neg (by omega)]
    have hout : (kdeElement m p s).out = if m.read (p + 2) 3 = ouiWpa2 ∧ m (p + 5) = kdeGtk then
        some (m.read (p + 8) 250, m (p + 6) &&& 3) else some s := by
      have hlong : ¬((0 : UInt8) - 6 < lenWep64) := by decide
      simp only [kdeElement, hid, hlen, if_true, ite_and, if_neg hlong]
      split_ifs <;> rfl
    split_ifs with h
    · rw [if_pos h.2] at hout
      rw [kdeWalk_next (by omega) hout, hnext]
      exact hrest _
    · rw [if_neg fun hkde => h ⟨htwo, hkde⟩] at hout
      rw [kdeWalk_next (by omega) hout, hnext]
      exact hrest _
  · rw [kdeWalk_cut (by rw [eidStruct_next]; omega), if_neg (fun h => htwo h.1)]

end Padding

section Built
variable {m : Memory} {len p : ℕ} {s : List UInt8 × UInt8}

/-- An RSN element is no GTK KDE, as there is the version where the OUI would be. -/
theorem kdeElement_rsn {rsnIe : Memory} {rsnIeLen : UInt8} (version : rsnIe.le16 0 = 1)
    (hsome : rsnIeLen ≠ 0)
    (hread : m.read p (rtmpInsertRsnIe rsnIe rsnIeLen).length = rtmpInsertRsnIe rsnIe rsnIeLen) :
    eidStruct.next m p = p + (rtmpInsertRsnIe rsnIe rsnIeLen).length ∧
      (kdeElement m p s).copies = [] ∧ (kdeElement m p s).out = some s := by
  simp only [rtmpInsertRsnIe, if_neg hsome, List.length_cons, Memory.read_length] at hread ⊢
  obtain ⟨k, hk⟩ := Nat.exists_eq_succ_of_ne_zero (fun h => hsome (UInt8.toNat_inj.mp h))
  have hsize : m (p + 1) = rsnIeLen ∧ m (p + 2) = rsnIe 0 := by
    simp only [hk, Nat.succ_eq_add_one, Memory.read_succ, List.cons.injEq] at hread
    exact ⟨hread.2.1, hread.2.2.1⟩
  have hone : m (p + 2) ≠ 0 := by
    rw [hsize.2]
    intro hzero
    simp only [Memory.le16, hzero, UInt8.toNat_zero] at version
    omega
  have houi : m.read (p + 2) 3 ≠ ouiWpa2 := by
    rw [Memory.read_succ]
    exact fun h => hone (List.cons.inj h).1
  refine ⟨?_, ?_, ?_⟩
  · rw [eidStruct_next, hsize.1]
    omega
  · simp only [kdeElement, if_neg houi]
    split_ifs <;> rfl
  · simp only [kdeElement, if_neg houi]
    split_ifs <;> rfl

theorem kdeWalk_rsn {rsnIe : Memory} {rsnIeLen : UInt8} (version : rsnIe.le16 0 = 1)
    (hread : m.read p (rtmpInsertRsnIe rsnIe rsnIeLen).length = rtmpInsertRsnIe rsnIe rsnIeLen)
    (hlen : p + (rtmpInsertRsnIe rsnIe rsnIeLen).length ≤ len) :
    (kdeWalk m len p s).out =
        (kdeWalk m len (p + (rtmpInsertRsnIe rsnIe rsnIeLen).length) s).out ∧
      (kdeWalk m len p s).copies =
        (kdeWalk m len (p + (rtmpInsertRsnIe rsnIe rsnIeLen).length) s).copies := by
  by_cases hnone : rsnIeLen = 0
  · simp only [rtmpInsertRsnIe, if_pos hnone, List.length_nil, Nat.add_zero, and_self]
  · obtain ⟨hnext, hcopies, hout⟩ := kdeElement_rsn (s := s) version hnone hread
    rw [kdeWalk_next (hnext ▸ hlen) hout, hnext, hcopies, List.nil_append]
    exact ⟨rfl, rfl⟩

theorem gtkLenOf_cases (status : WepStatus) : gtkLenOf status = 16 ∨ gtkLenOf status = 32 := by
  rw [gtkLenOf]
  split
  · exact .inl rfl
  · exact .inr rfl

/-- The element of the key is found with the key in it. -/
theorem kdeElement_gtk {gtkLen idx : UInt8} {key : List UInt8} (hkey : gtkLen = 16 ∨ gtkLen = 32)
    (hread : m.read p (8 + gtkLen.toNat) =
      (wpaConstructKdeHdr kdeGtk (2 + gtkLen) ++ [idx &&& 3, 0]) ++ key) :
    eidStruct.next m p = p + (8 + gtkLen.toNat) ∧
      (kdeElement m p s).out = some (key, idx &&& 3) := by
  rw [Memory.read_add] at hread
  obtain ⟨hheader, hbehind⟩ := List.append_inj hread (by rw [Memory.read_length]; rfl)
  simp only [Memory.read_succ, wpaConstructKdeHdr, ouiWpa2, List.cons_append, List.nil_append,
    List.cons.injEq, Nat.add_assoc, Nat.reduceAdd] at hheader
  obtain ⟨hid, hsize, houi0, houi1, houi2, htype, hindex, -⟩ := hheader
  have houi : m.read (p + 2) 3 = ouiWpa2 := by
    simp only [Memory.read_succ, Nat.add_assoc, Nat.reduceAdd, houi0, houi1, houi2]
    rfl
  have hlen : m (p + 1) - 6 = gtkLen ∧ ¬gtkLen < lenWep64 ∧ (m (p + 1)).toNat = 6 + gtkLen.toNat := by
    rw [hsize]
    rcases hkey with rfl | rfl <;> decide
  constructor
  · rw [eidStruct_next, hlen.2.2]
    omega
  · simp only [kdeElement, hid, houi, htype, if_true, hlen.1, if_neg hlen.2.1, hbehind, hindex]
    rw [UInt8.and_assoc]
    rfl

end Built

section Copies
variable {m : Memory} {len p : ℕ} {s : List UInt8 × UInt8}

/-- What is copied of an element is as long as the element tells. -/
theorem kdeElement_copies : ∀ n ∈ (kdeElement m p s).copies, n = (m (p + 1) - 6).toNat := by
  have hcase := kdeElement_case m p s
  generalize kdeElement m p s = r at hcase
  cases hcase with
  | key h houi htype hlong => exact List.forall_mem_singleton.mpr rfl
  | _ => exact List.forall_mem_nil _

/-- Nothing is copied where no GTK KDE is. -/
theorem kdeWalk_copies_nil (h : ∀ i, p ≤ i → m (i + 3) ≠ 0x0f) : (kdeWalk m len p s).copies = [] := by
  fun_induction Tlv.items eidStruct m len p with
  | case1 p hnext ih =>
    have helement : (kdeElement m p s).copies = [] ∧ (kdeElement m p s).out = some s := by
      have houi : m.read (p + 2) 3 ≠ ouiWpa2 := by
        intro houi
        simp only [Memory.read_succ, ouiWpa2, List.cons.injEq] at houi
        exact h p (Nat.le_refl p) houi.2.1
      simp only [kdeElement, if_neg houi]
      split_ifs <;> exact ⟨rfl, rfl⟩
    rw [kdeWalk_next hnext helement.2, helement.1, List.nil_append]
    exact ih fun i hi => h i (Nat.le_trans (Nat.le_of_lt (eidStruct.lt_next m p)) hi)
  | case2 p hcut => rw [kdeWalk_cut (Nat.not_le.mp hcut)]

end Copies

namespace GroupKeyMessage
variable {msg : GroupKeyMessage}

theorem padLen_lt (n : ℕ) : padLen n < 8 := by
  rw [padLen]
  split <;> omega

theorem padding_length {n : ℕ} (h : n < 8) : (padding n).length = n := by
  rw [padding, List.length_take]
  exact Nat.min_eq_left (Nat.le_of_lt h)

theorem pad_lt (msg : GroupKeyMessage) : msg.pad < 8 := by
  rw [pad]
  split
  · exact padLen_lt _
  · decide

/-- The key data has the RSN element, the GTK KDE and the padding. -/
theorem keyData_eq (msg : GroupKeyMessage) :
    msg.keyData = msg.rsnElement ++ (msg.gtkElement ++ padding msg.pad) := by
  have hrsn : (if msg.msgType = eapolPairMsg2 ∨ msg.msgType = eapolPairMsg3 then
      rtmpInsertRsnIe msg.rsnIe msg.rsnIeLen else []) = msg.rsnElement := by
    rw [rsnElement]
    rcases msg.carriesKey with h | h <;> rw [h] <;> rfl
  simp only [keyData, constructEapolKeyData, hrsn, and_true, if_pos msg.carriesKey, if_true]
  change (if msg.keyDescVer = keyDescAes then
    msg.rsnElement ++ msg.gtkElement ++ padding (padLen (msg.rsnElement ++ msg.gtkElement).length)
    else msg.rsnElement ++ msg.gtkElement) = _
  rw [pad, ← List.append_assoc]
  split
  · rfl
  · exact (List.append_nil _).symm

theorem gtkElement_length (msg : GroupKeyMessage) :
    msg.gtkElement.length = 8 + (gtkLenOf msg.groupKeyWepStatus).toNat := by
  rw [gtkElement, List.length_append, Memory.read_length]
  rfl

theorem keyData_length (msg : GroupKeyMessage) :
    msg.keyData.length = msg.rsnElement.length + msg.gtkElement.length + msg.pad := by
  rw [keyData_eq, List.length_append, List.length_append, padding_length msg.pad_lt, Nat.add_assoc]

theorem read_keyData (msg : GroupKeyMessage) :
    msg.memory.read 0 msg.keyData.length = msg.keyData :=
  msg.behind.read_write_same 0 msg.keyData

theorem index_and (msg : GroupKeyMessage) : msg.defaultKeyIdx &&& 3 = msg.defaultKeyIdx := by
  have hlt := UInt8.lt_iff_toNat_lt.mp msg.index_lt
  apply UInt8.toNat_inj.mp
  rw [UInt8.toNat_and]
  exact (Nat.and_two_pow_sub_one_eq_mod _ 2).trans (Nat.mod_eq_of_lt hlt)

/-- The walk over the key data gets to the padding with the key. -/
theorem kdeWalk_keyData (msg : GroupKeyMessage) :
    (kdeWalk msg.memory msg.keyData.length 0 ([], 0)).out =
      (kdeWalk msg.memory msg.keyData.length (msg.rsnElement.length + msg.gtkElement.length)
        (msg.gtk.read 0 (gtkLenOf msg.groupKeyWepStatus).toNat, msg.defaultKeyIdx)).out := by
  have hread := msg.read_keyData
  rw [keyData_eq] at hread
  obtain ⟨hrsn, hrest⟩ := Memory.read_eq_append _ hread
  obtain ⟨hgtk, -⟩ := Memory.read_eq_append _ hrest
  rw [Nat.zero_add, gtkElement_length] at hgtk
  have hlength := msg.keyData_length
  obtain ⟨hnext, hout⟩ := kdeElement_gtk (s := ([], 0)) (gtkLenOf_cases _) hgtk
  rw [index_and] at hout
  have hskip : (kdeWalk msg.memory msg.keyData.length 0 ([], 0)).out =
      (kdeWalk msg.memory msg.keyData.length msg.rsnElement.length ([], 0)).out := by
    rw [rsnElement] at hrsn hlength ⊢
    split
    · next hpair =>
      rw [if_pos hpair] at hrsn hlength
      rw [(kdeWalk_rsn msg.version hrsn (by omega)).1, Nat.zero_add]
    · rfl
  rw [hskip, kdeWalk_next (by rw [hnext, ← gtkElement_length]; omega) hout, hnext,
    ← gtkElement_length]

/-- A key data whose length does not fit into a byte is cut in the RSN element. -/
theorem kdeWalk_long (hlong : 256 ≤ msg.keyData.length) :
    (kdeWalk msg.memory (UInt8.ofNat msg.keyData.length).toNat 0 ([], 0)).out = some ([], 0) := by
  have hlength := msg.keyData_length
  have hpad := msg.pad_lt
  have hgtk := msg.gtkElement_length
  have hkey : (gtkLenOf msg.groupKeyWepStatus).toNat ≤ 32 := by
    rcases gtkLenOf_cases msg.groupKeyWepStatus with h | h <;> rw [h] <;> decide
  have hread := msg.read_keyData
  rw [keyData_eq] at hread
  obtain ⟨hrsn, -⟩ := Memory.read_eq_append _ hread
  have hpair : msg.msgType = eapolPairMsg3 := by
    by_contra hgroup
    rw [rsnElement, if_neg hgroup, List.length_nil] at hlength
    omega
  have hsome : msg.rsnIeLen ≠ 0 := by
    intro hnone
    rw [rsnElement, if_pos hpair, rtmpInsertRsnIe, if_pos hnone, List.length_nil] at hlength
    omega
  simp only [rsnElement, if_pos hpair, rtmpInsertRsnIe, if_neg hsome, List.length_cons,
    Memory.read_length, Memory.read_succ, List.cons.injEq] at hrsn hlength
  have hrange := msg.rsnIeLen.toNat_lt
  have hbyte : (UInt8.ofNat msg.keyData.length).toNat = msg.keyData.length % 256 :=
    UInt8.toNat_ofNat'
  apply congrArg KdeWalk.out (kdeWalk_cut _)
  rw [eidStruct_next, hrsn.2.1, hbyte]
  omega

/-- The walk decides what is installed and what is copied. -/
theorem parsed_walk (msg : GroupKeyMessage) (groupKeyIndex : UInt8) :
    (msg.parsed groupKeyIndex).copies =
        (kdeWalk msg.memory (UInt8.ofNat msg.keyData.length).toNat 0 ([], 0)).copies ∧
      (msg.parsed groupKeyIndex).result =
        match (kdeWalk msg.memory (UInt8.ofNat msg.keyData.length).toNat 0 ([], 0)).out with
        | none => .refused
        | some (gtk, defaultIdx) =>
          if 3 < defaultIdx then .refused else .installed gtk defaultIdx := by
  have hkept : ¬((msg.msgType = eapolPairMsg2 ∨ msg.msgType = eapolPairMsg3) ∧
      ¬(true = true ∧ msg.msgType = eapolPairMsg3)) := by
    rcases msg.carriesKey with h | h <;> rw [h] <;> decide
  have hkdes : true = true ∧ (msg.msgType = eapolPairMsg3 ∨ msg.msgType = eapolGroupMsg1) :=
    ⟨rfl, msg.carriesKey⟩
  rw [parsed, rtmpParseEapolKeyData, if_neg hkept, groupKeyOf, if_pos hkdes]
  exact ⟨rfl, rfl⟩

theorem key_length (msg : GroupKeyMessage) :
    (msg.gtk.read 0 (gtkLenOf msg.groupKeyWepStatus).toNat).length ∈ [16, 32] := by
  rw [Memory.read_length]
  rcases gtkLenOf_cases msg.groupKeyWepStatus with h | h <;> rw [h] <;> decide

/-- The pair of sides installs the key when the key data fits into a byte and the padding stays one. -/
theorem roundTrips_iff_fits (msg : GroupKeyMessage) : msg.RoundTrips ↔ msg.Fits := by
  have hindex : ¬3 < msg.defaultKeyIdx := by
    have := UInt8.lt_iff_toNat_lt.mp msg.index_lt
    rw [UInt8.lt_iff_toNat_lt]
    exact Nat.not_lt.mpr (Nat.le_of_lt_succ this)
  by_cases hlong : 256 ≤ msg.keyData.length
  · apply iff_of_false
    · intro h
      have hresult := h 0
      rw [(parsed_walk msg 0).2, kdeWalk_long hlong] at hresult
      have hempty := msg.key_length
      have hkey : ([] : List UInt8) = msg.gtk.read 0 (gtkLenOf msg.groupKeyWepStatus).toNat :=
        (KeyDataResult.installed.inj hresult).1
      rw [← hkey] at hempty
      exact absurd hempty (by decide)
    · exact fun h => absurd h.length (Nat.not_lt.mpr hlong)
  · have hbyte : (UInt8.ofNat msg.keyData.length).toNat = msg.keyData.length :=
      UInt8.toNat_ofNat_of_lt' (Nat.not_le.mp hlong)
    have hread := msg.read_keyData
    rw [keyData_eq] at hread
    obtain ⟨-, hrest⟩ := Memory.read_eq_append _ hread
    obtain ⟨-, hpad⟩ := Memory.read_eq_append _ hrest
    rw [Nat.zero_add, padding_length msg.pad_lt] at hpad
    have hout : ∀ groupKeyIndex, (msg.parsed groupKeyIndex).result =
        match (kdeWalk msg.memory msg.keyData.length
            (msg.rsnElement.length + msg.gtkElement.length)
            (msg.gtk.read 0 (gtkLenOf msg.groupKeyWepStatus).toNat, msg.defaultKeyIdx)).out with
        | none => .refused
        | some (gtk, defaultIdx) =>
          if 3 < defaultIdx then .refused else .installed gtk defaultIdx := by
      intro groupKeyIndex
      rw [(parsed_walk msg groupKeyIndex).2, hbyte, kdeWalk_keyData]
    have hplace : msg.keyData.length - msg.pad = msg.rsnElement.length + msg.gtkElement.length := by
      rw [keyData_length, Nat.add_sub_cancel]
    rw [keyData_length, kdeWalk_padding hpad] at hout
    by_cases hlike : 2 ≤ msg.pad ∧
        msg.memory.read (msg.rsnElement.length + msg.gtkElement.length + 2) 3 = ouiWpa2 ∧
        msg.memory (msg.rsnElement.length + msg.gtkElement.length + 5) = kdeGtk
    · simp only [if_pos hlike] at hout
      apply iff_of_false
      · intro h
        have hresult := (hout 0).symm.trans (h 0)
        split_ifs at hresult
        have hlength := msg.key_length
        rw [← (KeyDataResult.installed.inj hresult).1, Memory.read_length] at hlength
        exact absurd hlength (by decide)
      · intro h
        have hother := h.padding hlike.1
        rw [hplace] at hother
        exact hother ((read_type _).mpr hlike.2)
    · simp only [if_neg hlike, if_neg hindex] at hout
      apply iff_of_true hout
      refine ⟨Nat.not_le.mp hlong, fun htwo hkde => ?_⟩
      rw [hplace] at hkde
      exact hlike ⟨htwo, (read_type _).mp hkde⟩

/-- Only the key is copied of what was built over zeroes. -/
theorem copies_le (hfits : msg.keyData.length < 256) (hbehind : ∀ i, msg.behind i = 0)
    (groupKeyIndex : UInt8) : ∀ n ∈ (msg.parsed groupKeyIndex).copies, n ≤ maxLenGtk := by
  have hread := msg.read_keyData
  have hlength := msg.keyData_length
  have hbyte : (UInt8.ofNat msg.keyData.length).toNat = msg.keyData.length := UInt8.toNat_ofNat_of_lt' hfits
  rw [keyData_eq] at hread
  obtain ⟨hrsn, hrest⟩ := Memory.read_eq_append _ hread
  obtain ⟨hgtk, hpad⟩ := Memory.read_eq_append _ hrest
  rw [padding_length msg.pad_lt] at hpad
  rw [Nat.zero_add] at hgtk hpad
  -- the RSN element is passed over
  have hskip : (msg.parsed groupKeyIndex).copies =
      (kdeWalk msg.memory msg.keyData.length msg.rsnElement.length ([], 0)).copies := by
    rw [(parsed_walk msg groupKeyIndex).1, hbyte]
    rw [rsnElement] at hrsn hlength ⊢
    split
    · rename_i hpair
      rw [if_pos hpair] at hrsn hlength
      rw [(kdeWalk_rsn msg.version hrsn (by omega)).2, Nat.zero_add]
    · rfl
  -- behind the key there is no other one
  have hbehind' : ∀ i, msg.rsnElement.length + msg.gtkElement.length ≤ i → msg.memory (i + 3) ≠ 0x0f := by
    intro i hi
    obtain ⟨j, rfl⟩ := Nat.exists_eq_add_of_le hi
    have hzero : msg.memory (msg.rsnElement.length + msg.gtkElement.length + (j + 3)) = 0 := by
      by_cases hin : j + 3 < msg.pad
      · rw [← Memory.read_getD msg.memory hin, hpad, padding_getD hin]
        rfl
      · exact (Memory.write_outside _ (.inr (by omega))).trans (hbehind _)
    rw [Nat.add_assoc, hzero]
    decide
  have hsize : msg.memory (msg.rsnElement.length + 1) - 6 = gtkLenOf msg.groupKeyWepStatus := by
    have hsecond : msg.memory (msg.rsnElement.length + 1) = 4 + (2 + gtkLenOf msg.groupKeyWepStatus) := by
      have hlt : 1 < msg.gtkElement.length := by
        rw [gtkElement_length]
        omega
      rw [← Memory.read_getD msg.memory hlt, hgtk]
      rfl
    rw [hsecond]
    rcases gtkLenOf_cases msg.groupKeyWepStatus with h | h <;> rw [h] <;> decide
  rw [gtkElement_length] at hgtk
  obtain ⟨hnext, hout⟩ := kdeElement_gtk (s := ([], 0)) (gtkLenOf_cases _) hgtk
  rw [← gtkElement_length] at hnext
  rw [hskip, kdeWalk_next (by rw [hnext]; omega) hout, hnext, kdeWalk_copies_nil hbehind', List.append_nil]
  intro n hn
  rw [kdeElement_copies n hn, hsize]
  rcases gtkLenOf_cases msg.groupKeyWepStatus with h | h <;> rw [h] <;> decide

/-- An RSN element of 255 bytes, whose counts are zero. -/
def longElement : GroupKeyMessage where
  groupKeyWepStatus := .encryption3Enabled
  keyDescVer := keyDescAes
  msgType := eapolPairMsg3
  carriesKey := Or.inl rfl
  defaultKeyIdx := 1
  index_lt := by decide
  gtk := fun _ => 0x11
  rsnIe := fun i => [0x01, 0x00, 0x00, 0x0f, 0xac, 0x04].getD i 0
  rsnIeLen := 255
  version := by decide
  behind := fun _ => 0

end GroupKeyMessage

/-- What is built is installed if it fits, and a call is safe just when its elements fit. -/
theorem eapolKeyData_sound_iff (msg : GroupKeyMessage) (call : KeyDataCall) :
    (msg.RoundTrips ↔ msg.Fits) ∧ (call.Safe ↔ call.Fits) :=
  ⟨msg.roundTrips_iff_fits, call.safe_iff_fits⟩

/-- A GTK KDE without a key. -/
def emptyKde : KeyDataCall where
  pKeyData := fun i => [0xdd, 0x04, 0x00, 0x0f, 0xac, 0x01].getD i 0
  keyDataLen := 6
  groupKeyIndex := 1
  msgType := eapolPairMsg3
  bWpa2 := true

/-- 254 bytes are copied of a key that is not there; the other side's key is not found behind a long
RSN element. -/
theorem emptyKde_unsafe : ¬emptyKde.Safe ∧ ¬GroupKeyMessage.longElement.RoundTrips := by
  constructor
  · rw [KeyDataCall.safe_iff_fits]
    intro h
    have hkdes : emptyKde.HasKdes := ⟨rfl, .inl rfl⟩
    cases h.kdes hkdes with
    | done hcut _ => exact absurd hcut (by decide)
    | refused _ _ hlow _ => exact absurd hlow (by decide)
    | next _ hfits _ => exact absurd (hfits.key rfl rfl rfl).1 (by decide)
  · rw [GroupKeyMessage.roundTrips_iff_fits]
    intro h
    have hlength := h.length
    have helement : GroupKeyMessage.longElement.rsnElement.length = 255 + 1 + 1 := by
      have hpair : GroupKeyMessage.longElement.msgType = eapolPairMsg3 := rfl
      rw [GroupKeyMessage.rsnElement, if_pos hpair, rtmpInsertRsnIe, if_neg (by decide),
        List.length_cons, List.length_cons, Memory.read_length]
      rfl
    rw [GroupKeyMessage.keyData_length, helement] at hlength
    omega

end Rt5572

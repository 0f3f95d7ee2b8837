import StandaloneDrivers.Rt5572.BssTableRuns
import StandaloneDrivers.Foundations.Bytes

/-! The candidates for a connection, copied out of the scan table and sorted (common/mlme.c). A copy
points to the buffer of the entry it was copied from. -/
namespace Rt5572.BssTab

/-- `NDIS_802_11_AUTHENTICATION_MODE` -/
inductive AuthMode
  | autoOpen | shared | autoSwitch | wpa | wpaPsk | wpaNone | wpa2 | wpa2Psk | wpa1Wpa2
  | wpa1PskWpa2Psk | authModeMax
  deriving DecidableEq, Repr

/-- `AuthMode >= Ndis802_11AuthModeWPA` -/
def AuthMode.atLeastWpa : AuthMode → Bool
  | .autoOpen | .shared | .autoSwitch => false
  | _ => true

/-- `NDIS_802_11_WEP_STATUS` -/
inductive WepStatus
  | wepEnabled | wepDisabled | wepKeyAbsent | wepNotSupported | encryption2Enabled
  | encryption2KeyAbsent | encryption3Enabled | encryption3KeyAbsent | encryption4Enabled
  | encryption4KeyAbsent | groupWep40Enabled | groupWep104Enabled
  deriving DecidableEq, Repr

/-- The modes of `RT_802_11_PHY_MODE` that are told apart here. -/
inductive PhyMode
  | n24g | gnMixed | n5g | other
  deriving DecidableEq, Repr

/-- `CIPHER_SUITE` -/
structure CipherSuite where
  pairCipher : WepStatus
  pairCipherAux : WepStatus
  groupCipher : WepStatus
  bMixMode : Bool
  deriving DecidableEq, Repr

/-- The fields of `BSS_ENTRY` that only the choice of candidates reads. -/
structure BssSecurity where
  authMode : AuthMode
  authModeAux : AuthMode
  wepStatus : WepStatus
  wpa : CipherSuite
  wpa2 : CipherSuite
  bSES : Bool
  deriving DecidableEq, Repr

/-- What `BssTableSsidSort` reads of the adapter; the list has the channels with `DfsReq`. -/
structure StaConfig where
  bAutoConnectIfNoSSID : Bool
  bIEEE80211H : Bool
  channel : UInt8
  channelList : List (UInt8 × Bool)
  bssType : UInt8
  wpaSupplicantUP : UInt8
  phyMode : PhyMode
  authMode : AuthMode
  wepStatus : WepStatus
  deriving DecidableEq, Repr

namespace StaConfig
variable (pAd : StaConfig)

def radarChannelCheck (ch : UInt8) : Bool :=
  ((pAd.channelList.find? fun c => c.1 = ch).map Prod.snd).getD false

def isHiddenApIncluded (pInBss : BssEntry) : Bool :=
  pAd.bIEEE80211H && 14 < pAd.channel && pAd.radarChannelCheck pInBss.channel && pInBss.hidden

/-- The N-only modes. -/
def phyMatches (pInBss : BssEntry) : Bool :=
  !(pInBss.htCapability.isEmpty && (pAd.phyMode = .n24g || pAd.phyMode = .n5g)) &&
    !(pAd.phyMode = .gnMixed && pInBss.supRateLen + pInBss.extRate.length < 12)

/-- Without mixed mode the encryption is the same. -/
def groupMatches (suite : CipherSuite) : Bool :=
  suite.bMixMode || pAd.wepStatus = suite.groupCipher

/-- `WepStatus < GroupCipher` -/
def weakerThan (groupCipher : WepStatus) : Bool :=
  pAd.wepStatus.ctorIdx < groupCipher.ctorIdx

def pairMatches (suite : CipherSuite) : Bool :=
  !(pAd.wepStatus = .encryption2Enabled && pAd.wepStatus != suite.pairCipher &&
    pAd.wepStatus != suite.pairCipherAux)

def authMatches (sec : BssSecurity) : Bool :=
  pAd.authMode = sec.authMode || pAd.authMode = sec.authModeAux

/-- A group cipher with keys of WEP. -/
def wepGroup (groupCipher : WepStatus) : Bool :=
  groupCipher = .groupWep40Enabled || groupCipher = .groupWep104Enabled

/-- The security of a network with the name that is looked for; with WPA2 the group cipher of WPA is
compared. -/
def securityMatches (sec : BssSecurity) : Bool :=
  if pAd.authMode.atLeastWpa then
    pAd.authMatches sec &&
      match pAd.authMode with
      | .wpa | .wpaPsk => pAd.groupMatches sec.wpa &&
          !(pAd.weakerThan sec.wpa.groupCipher && !wepGroup sec.wpa.groupCipher) &&
          pAd.pairMatches sec.wpa
      | .wpa2 | .wpa2Psk => pAd.groupMatches sec.wpa2 &&
          !(pAd.weakerThan sec.wpa.groupCipher && !wepGroup sec.wpa2.groupCipher) &&
          pAd.pairMatches sec.wpa2
      | _ => true
  else pAd.wepStatus = sec.wepStatus || sec.bSES

/-- The security of a network when no name is looked for. -/
def securityMatchesAny (sec : BssSecurity) : Bool :=
  if pAd.authMode.atLeastWpa then
    pAd.authMatches sec &&
      match pAd.authMode with
      | .wpa | .wpaPsk => pAd.groupMatches sec.wpa && !pAd.weakerThan sec.wpa.groupCipher &&
          pAd.pairMatches sec.wpa
      | .wpa2 | .wpa2Psk => pAd.groupMatches sec.wpa2 && !pAd.weakerThan sec.wpa2.groupCipher &&
          pAd.pairMatches sec.wpa2
      | _ => true
  else pAd.wepStatus = sec.wepStatus

/-- How the body of the loop ends for an entry: with or without a copy, and with `continue` or at
the test of `BssNr`. -/
inductive Verdict
  | skipped
  | copiedOn
  | copied
  | passed
  deriving DecidableEq, Repr

def Verdict.copies : Verdict → Bool
  | .copiedOn | .copied => true
  | _ => false

def verdict (ssid : List UInt8) (pInBss : BssEntry) (sec : BssSecurity) : Verdict :=
  if pInBss.bssType = pAd.bssType && (ssid = pInBss.ssid || pAd.isHiddenApIncluded pInBss) then
    if pAd.wpaSupplicantUP &&& 0x80 != 0 then .copiedOn
    else if pAd.phyMatches pInBss && pAd.securityMatches sec && !ssid.isEmpty then .copied
    else .skipped
  else if pInBss.bssType = pAd.bssType && ssid.isEmpty then
    if pAd.phyMatches pInBss && pAd.securityMatchesAny sec then .copied else .skipped
  else .passed

end StaConfig

/-- `NdisMoveMemory(pOutBss, pInBss, sizeof(BSS_ENTRY))` and `BssNr++` -/
def push (s : BssTab) (e : BssEntry) : BssTab :=
  { s.setEntry s.bssNr e with bssNr := s.bssNr + 1 }

/-- The loop of `BssTableSsidSort` over the entries of the scan table. -/
def copyLoop (pAd : StaConfig) (ssid : List UInt8) : List (BssEntry × BssSecurity) → BssTab → BssTab
  | [], outTab => outTab
  | (pInBss, sec) :: rest, outTab =>
    match pAd.verdict ssid pInBss sec with
    | .skipped => copyLoop pAd ssid rest outTab
    | .copiedOn => copyLoop pAd ssid rest (outTab.push pInBss)
    | .copied =>
      let outTab := outTab.push pInBss
      if maxLen ≤ outTab.bssNr then outTab else copyLoop pAd ssid rest outTab
    | .passed => if maxLen ≤ outTab.bssNr then outTab else copyLoop pAd ssid rest outTab

/-- The exchange of two entries when the second is stronger. -/
def orderEntries (s : BssTab) (i j : ℕ) : BssTab :=
  if (s.bssEntry i).rssi < (s.bssEntry j).rssi then
    (s.setEntry j (s.bssEntry i)).setEntry i (s.bssEntry j)
  else s

/-- `allocated` says whether `os_alloc_mem` finds memory. -/
def bssTableSortByRssi (s : BssTab) (allocated : Bool) : BssTab :=
  if allocated then
    (List.range (s.bssNr - 1)).foldl (fun s i =>
      (List.range' (i + 1) (s.bssNr - 1 - i)).foldl (fun s j => s.orderEntries i j) s) s
  else s

/-- Some entry of the table points to the buffer. -/
def Pointed (s : BssTab) (p : Buffer) : Prop := ∃ i < maxLen, s.buffer i = some p

/-- One of the first `BssNr` entries points to it. -/
def Listed (s : BssTab) (p : Buffer) : Prop := ∃ i < s.bssNr, s.buffer i = some p

/-- What `RTMPZeroMemory` leaves. -/
def zeroes : List UInt8 := List.replicate maxVieLen 0

theorem clearEntry_varIe (s : BssTab) (i : ℕ) (rssi : ℤ) (p : Buffer) :
    (s.buffer i = some p → (s.clearEntry i rssi).varIe p = zeroes) ∧
      (s.buffer i ≠ some p → (s.clearEntry i rssi).varIe p = s.varIe p) := by
  simp only [clearEntry, buffer]
  cases hbuffer : (s.bssEntry i).pVarIeFromProbRsp with
  | none => simp [setEntry]
  | some q =>
    constructor
    · intro h
      obtain rfl : q = p := by simpa using h
      exact Function.update_self _ _ _
    · intro h
      exact Function.update_of_ne (by simpa [eq_comm] using h) _ _

theorem clearEntry_buffer (s : BssTab) (i : ℕ) (rssi : ℤ) (j : ℕ) :
    (s.clearEntry i rssi).buffer j = s.buffer j := (clearEntries_spec [i] rssi s).2.2 j

theorem clearEntries_varIe (l : List ℕ) (rssi : ℤ) (s : BssTab) (p : Buffer) :
    ((∃ i ∈ l, s.buffer i = some p) →
        (l.foldl (fun s i => s.clearEntry i rssi) s).varIe p = zeroes) ∧
      ((∀ i ∈ l, s.buffer i ≠ some p) →
        (l.foldl (fun s i => s.clearEntry i rssi) s).varIe p = s.varIe p) := by
  induction l generalizing s with
  | nil => simp
  | cons i l ih =>
    obtain ⟨hzero, hkeep⟩ := ih (s.clearEntry i rssi)
    obtain ⟨hzeroOne, hkeepOne⟩ := s.clearEntry_varIe i rssi p
    simp only [clearEntry_buffer] at hzero hkeep
    rw [List.foldl_cons]
    constructor
    · rintro ⟨j, hj, hbuffer⟩
      by_cases hlater : ∃ j ∈ l, s.buffer j = some p
      · exact hzero hlater
      · rcases List.mem_cons.mp hj with rfl | hj
        · rw [hkeep (by simpa using hlater)]
          exact hzeroOne hbuffer
        · exact absurd ⟨j, hj, hbuffer⟩ hlater
    · intro hnone
      rw [hkeep fun j hj => hnone j (List.mem_cons_of_mem i hj)]
      exact hkeepOne (hnone i List.mem_cons_self)

/-- The initialiser clears what the entries of the table point to, and nothing else. -/
theorem bssTableInit_varIe (s : BssTab) (p : Buffer) :
    (s.Pointed p → s.bssTableInit.varIe p = zeroes) ∧
      (¬ s.Pointed p → s.bssTableInit.varIe p = s.varIe p) := by
  obtain ⟨hzero, hkeep⟩ := clearEntries_varIe (List.range maxLen) (-127)
    { s with
      bssNr := 0
      bssOverlapNr := 0 } p
  rw [bssTableInit]
  constructor
  · rintro ⟨i, hi, hbuffer⟩
    exact hzero ⟨i, List.mem_range.mpr hi, hbuffer⟩
  · intro hnot
    apply hkeep
    intro i hi hbuffer
    exact hnot ⟨i, List.mem_range.mp hi, hbuffer⟩

theorem bssTableInit_spec (s : BssTab) :
    s.bssTableInit.bssNr = 0 ∧ ∀ i, s.bssTableInit.buffer i = s.buffer i := by
  obtain ⟨hnr, -, hbuffer⟩ := clearEntries_spec (List.range maxLen) (-127)
    { s with
      bssNr := 0
      bssOverlapNr := 0 }
  exact ⟨hnr, hbuffer⟩

theorem bssTableInit_pointed (s : BssTab) (p : Buffer) : s.bssTableInit.Pointed p ↔ s.Pointed p := by
  simp only [Pointed, s.bssTableInit_spec.2]

theorem push_buffer (s : BssTab) (e : BssEntry) (i : ℕ) :
    (s.push e).buffer i = if i = s.bssNr then e.pVarIeFromProbRsp else s.buffer i := by
  unfold buffer push setEntry
  by_cases h : i = s.bssNr
  · simp [h]
  · simp [h]

theorem push_listed (s : BssTab) (e : BssEntry) (p : Buffer) :
    (s.push e).Listed p ↔ s.Listed p ∨ e.pVarIeFromProbRsp = some p := by
  constructor
  · rintro ⟨i, hi, hbuffer⟩
    rw [push_buffer] at hbuffer
    split at hbuffer
    · exact Or.inr hbuffer
    · next hne =>
      have hlt : i < s.bssNr + 1 := hi
      exact Or.inl ⟨i, by omega, hbuffer⟩
  · rintro (⟨i, hi, hbuffer⟩ | hbuffer)
    · refine ⟨i, Nat.lt_succ_of_lt hi, ?_⟩
      rw [push_buffer, if_neg hi.ne, hbuffer]
    · refine ⟨s.bssNr, Nat.lt_succ_self _, ?_⟩
      rw [push_buffer, if_pos rfl, hbuffer]

theorem push_pointed {s : BssTab} {e : BssEntry} {p : Buffer} (h : (s.push e).Pointed p) :
    s.Pointed p ∨ e.pVarIeFromProbRsp = some p := by
  obtain ⟨i, hi, hbuffer⟩ := h
  rw [push_buffer] at hbuffer
  split at hbuffer
  · exact Or.inr hbuffer
  · exact Or.inl ⟨i, hi, hbuffer⟩

theorem Listed.pointed {s : BssTab} {p : Buffer} (h : s.Listed p) (hnr : s.bssNr ≤ maxLen) :
    s.Pointed p := by
  obtain ⟨i, hi, hbuffer⟩ := h
  exact ⟨i, by omega, hbuffer⟩

/-- An entry of the list is copied and points to the buffer. -/
def CopiedFrom (pAd : StaConfig) (ssid : List UInt8) (l : List (BssEntry × BssSecurity))
    (p : Buffer) : Prop :=
  ∃ x ∈ l, (pAd.verdict ssid x.1 x.2).copies = true ∧ x.1.pVarIeFromProbRsp = some p

/-- What the loop has done: the buffers are not written, the listed pointers are those of the
copies, and no other pointer is new. -/
structure Copied (pAd : StaConfig) (ssid : List UInt8) (l : List (BssEntry × BssSecurity))
    (s s' : BssTab) : Prop where
  varIe : s'.varIe = s.varIe
  nr : s'.bssNr ≤ maxLen
  listed : ∀ p, s.Listed p ∨ CopiedFrom pAd ssid l p → s'.Listed p
  pointed : ∀ p, s'.Pointed p → s.Pointed p ∨ CopiedFrom pAd ssid l p

theorem copiedFrom_cons {pAd : StaConfig} {ssid : List UInt8} {x : BssEntry × BssSecurity}
    {l : List (BssEntry × BssSecurity)} {p : Buffer} : CopiedFrom pAd ssid (x :: l) p ↔
      ((pAd.verdict ssid x.1 x.2).copies = true ∧ x.1.pVarIeFromProbRsp = some p) ∨
        CopiedFrom pAd ssid l p := by
  simp [CopiedFrom]

theorem Copied.leave {pAd : StaConfig} {ssid : List UInt8} {x : BssEntry × BssSecurity}
    {l : List (BssEntry × BssSecurity)} {s s' : BssTab}
    (hx : (pAd.verdict ssid x.1 x.2).copies = false) (h : Copied pAd ssid l s s') :
    Copied pAd ssid (x :: l) s s' := by
  constructor
  · exact h.varIe
  · exact h.nr
  · intro p hp
    simpa [copiedFrom_cons, hx] using h.listed p (by simpa [copiedFrom_cons, hx] using hp)
  · intro p hp
    simpa [copiedFrom_cons, hx] using h.pointed p hp

theorem Copied.push {pAd : StaConfig} {ssid : List UInt8} {x : BssEntry × BssSecurity}
    {l : List (BssEntry × BssSecurity)} {s s' : BssTab}
    (hx : (pAd.verdict ssid x.1 x.2).copies = true) (h : Copied pAd ssid l (s.push x.1) s') :
    Copied pAd ssid (x :: l) s s' := by
  constructor
  · exact h.varIe
  · exact h.nr
  · intro p hp
    apply h.listed
    rw [push_listed]
    rw [copiedFrom_cons] at hp
    tauto
  · intro p hp
    have hpush := @push_pointed s x.1 p
    have hcases := h.pointed p hp
    rw [copiedFrom_cons]
    tauto

theorem Copied.nil (pAd : StaConfig) (ssid : List UInt8) {s : BssTab} (h : s.bssNr ≤ maxLen) :
    Copied pAd ssid [] s s := by
  constructor
  · rfl
  · exact h
  · simp [CopiedFrom]
  · exact fun p hp => Or.inl hp

theorem copyLoop_copied (pAd : StaConfig) (ssid : List UInt8) (l : List (BssEntry × BssSecurity))
    (s : BssTab) (h : s.bssNr + l.length ≤ maxLen) :
    Copied pAd ssid l s (copyLoop pAd ssid l s) := by
  induction l generalizing s with
  | nil => exact Copied.nil pAd ssid h
  | cons x l ih =>
    obtain ⟨pInBss, sec⟩ := x
    rw [List.length_cons] at h
    have hpush : (s.push pInBss).bssNr + l.length ≤ maxLen := by
      simp only [BssTab.push]
      omega
    rw [copyLoop]
    cases hv : pAd.verdict ssid pInBss sec with
    | skipped => exact Copied.leave (by simp [hv, StaConfig.Verdict.copies]) (ih s (by omega))
    | copiedOn => exact Copied.push (by simp [hv, StaConfig.Verdict.copies]) (ih _ hpush)
    | copied =>
      apply Copied.push (by simp [hv, StaConfig.Verdict.copies])
      dsimp only
      split
      · next hfull =>
        obtain rfl : l = [] := List.length_eq_zero_iff.mp (by omega)
        exact Copied.nil pAd ssid (by simpa using hpush)
      · exact ih _ hpush
    | passed =>
      apply Copied.leave (by simp [hv, StaConfig.Verdict.copies])
      dsimp only
      rw [if_neg (by omega)]
      exact ih s (by omega)

/-- Sorting only moves entries. -/
structure Moved (s s' : BssTab) : Prop where
  varIe : s'.varIe = s.varIe
  nr : s'.bssNr = s.bssNr
  pointed : ∀ p, s'.Pointed p ↔ s.Pointed p

theorem Moved.refl (s : BssTab) : Moved s s := ⟨rfl, rfl, fun _ => Iff.rfl⟩

theorem Moved.trans {s s' s'' : BssTab} (h : Moved s s') (h' : Moved s' s'') : Moved s s'' where
  varIe := h'.varIe.trans h.varIe
  nr := h'.nr.trans h.nr
  pointed := fun p => (h'.pointed p).trans (h.pointed p)

theorem orderEntries_moved (s : BssTab) {i j : ℕ} (hi : i < maxLen) (hj : j < maxLen) :
    Moved s (s.orderEntries i j) := by
  unfold orderEntries
  split
  · refine ⟨rfl, rfl, ?_⟩
    intro p
    have hbuffer : ∀ k, ((s.setEntry j (s.bssEntry i)).setEntry i (s.bssEntry j)).buffer k =
        s.buffer (Equiv.swap i j k) := by
      intro k
      unfold buffer
      by_cases hki : k = i
      · rw [hki, setEntry_self, Equiv.swap_apply_left]
      · rw [setEntry_other _ _ hki]
        by_cases hkj : k = j
        · rw [hkj, setEntry_self, Equiv.swap_apply_right]
        · rw [setEntry_other _ _ hkj, Equiv.swap_apply_of_ne_of_ne hki hkj]
    have hlt : ∀ k < maxLen, Equiv.swap i j k < maxLen := by
      intro k hk
      rw [Equiv.swap_apply_def]
      split_ifs <;> omega
    simp only [Pointed, hbuffer]
    constructor
    · rintro ⟨k, hk, h⟩
      exact ⟨Equiv.swap i j k, hlt k hk, h⟩
    · rintro ⟨k, hk, h⟩
      exact ⟨Equiv.swap i j k, hlt k hk, by rwa [Equiv.swap_apply_self]⟩
  · exact Moved.refl s

theorem foldl_moved {α : Type} {f : BssTab → α → BssTab} (l : List α) (s : BssTab)
    (h : ∀ a ∈ l, ∀ s', s'.bssNr = s.bssNr → Moved s' (f s' a)) : Moved s (l.foldl f s) := by
  induction l generalizing s with
  | nil => exact Moved.refl s
  | cons a l ih =>
    have hfirst := h a List.mem_cons_self s rfl
    apply hfirst.trans
    apply ih
    intro b hb s' hs'
    exact h b (List.mem_cons_of_mem a hb) s' (hs'.trans hfirst.nr)

theorem bssTableSortByRssi_moved (s : BssTab) (allocated : Bool) (h : s.bssNr ≤ maxLen) :
    Moved s (s.bssTableSortByRssi allocated) := by
  unfold bssTableSortByRssi
  split
  · apply foldl_moved
    intro i hi s' hs'
    apply foldl_moved
    intro j hj s'' _
    have hilt := List.mem_range.mp hi
    have hjlt := List.mem_range'_1.mp hj
    exact orderEntries_moved s'' (by omega) (by omega)
  · exact Moved.refl s

end BssTab

open BssTab

/-- The scan table and the table of the candidates, in one memory. -/
structure Tables where
  scanTab : BssTab
  security : ℕ → BssSecurity
  outTab : BssTab
  shared : outTab.varIe = scanTab.varIe
  fits : scanTab.bssNr ≤ maxLen

namespace Tables
attribute [local instance] Foundations.neZero_sixtyFour
variable (t : Tables)

/-- What is written to the buffers through one table is read through the other. -/
def setOutTab (outTab : BssTab) : Tables where
  scanTab := { t.scanTab with varIe := outTab.varIe }
  security := t.security
  outTab := outTab
  shared := rfl
  fits := t.fits

/-- `BssTableInit` of the table of the candidates. -/
def outTableInit : Tables := t.setOutTab t.outTab.bssTableInit

def scanned : List (BssEntry × BssSecurity) :=
  (List.range t.scanTab.bssNr).map fun i => (t.scanTab.bssEntry i, t.security i)

def bssTableSsidSort (pAd : StaConfig) (ssid : List UInt8) (allocated : Bool) : Tables :=
  let t := t.outTableInit
  if ssid.isEmpty && !pAd.bAutoConnectIfNoSSID then t
  else t.setOutTab ((copyLoop pAd ssid t.scanned t.outTab).bssTableSortByRssi allocated)

/-- Every entry of the scan table, with its buffer, is the same in another state. -/
structure Intact (t t' : Tables) : Prop where
  nr : t'.scanTab.bssNr = t.scanTab.bssNr
  entry : ∀ i < t.scanTab.bssNr, t'.scanTab.bssEntry i = t.scanTab.bssEntry i
  security : ∀ i < t.scanTab.bssNr, t'.security i = t.security i
  content : ∀ i < t.scanTab.bssNr, ∀ p, t.scanTab.buffer i = some p →
    t'.scanTab.varIe p = t.scanTab.varIe p

/-- An entry that is a candidate. -/
def Candidate (pAd : StaConfig) (ssid : List UInt8) (i : ℕ) : Prop :=
  i < t.scanTab.bssNr ∧ (ssid ≠ [] ∨ pAd.bAutoConnectIfNoSSID = true) ∧
    (pAd.verdict ssid (t.scanTab.bssEntry i) (t.security i)).copies = true

section Memory
variable (outTab : BssTab)

@[simp] theorem setOutTab_scanTab :
    (t.setOutTab outTab).scanTab = { t.scanTab with varIe := outTab.varIe } := rfl

@[simp] theorem setOutTab_security : (t.setOutTab outTab).security = t.security := rfl

@[simp] theorem setOutTab_outTab : (t.setOutTab outTab).outTab = outTab := rfl

end Memory

/-- Some buffers are filled with zeroes, and the scan table is else the same. -/
structure Erased (t t' : Tables) (P : Buffer → Prop) : Prop where
  nr : t'.scanTab.bssNr = t.scanTab.bssNr
  entry : t'.scanTab.bssEntry = t.scanTab.bssEntry
  security : t'.security = t.security
  zero : ∀ p, P p → t'.scanTab.varIe p = zeroes
  kept : ∀ p, ¬ P p → t'.scanTab.varIe p = t.scanTab.varIe p

theorem Erased.trans {t t' t'' : Tables} {P Q : Buffer → Prop} (h : t.Erased t' P)
    (h' : t'.Erased t'' Q) : t.Erased t'' (fun p => P p ∨ Q p) := by
  constructor
  · exact h'.nr.trans h.nr
  · exact h'.entry.trans h.entry
  · exact h'.security.trans h.security
  · intro p hp
    by_cases hq : Q p
    · exact h'.zero p hq
    · rw [h'.kept p hq]
      exact h.zero p (hp.resolve_right hq)
  · intro p hp
    rw [not_or] at hp
    rw [h'.kept p hp.2, h.kept p hp.1]

/-- The scan table is intact exactly when the listed buffers among the erased ones were erased
before. -/
theorem Erased.intact_iff {t t' : Tables} {P : Buffer → Prop} (h : t.Erased t' P) :
    t.Intact t' ↔ ∀ i < t.scanTab.bssNr, ∀ p, t.scanTab.buffer i = some p → P p →
      t.scanTab.varIe p = zeroes := by
  constructor
  · intro hintact i hi p hbuffer hp
    rw [← hintact.content i hi p hbuffer, h.zero p hp]
  · intro hzero
    constructor
    · exact h.nr
    · intro i _
      rw [h.entry]
    · intro i _
      rw [h.security]
    · intro i hi p hbuffer
      by_cases hp : P p
      · rw [h.zero p hp, hzero i hi p hbuffer hp]
      · exact h.kept p hp

theorem setOutTab_erased (t : Tables) {outTab : BssTab} {P : Buffer → Prop}
    (hzero : ∀ p, P p → outTab.varIe p = zeroes)
    (hkept : ∀ p, ¬ P p → outTab.varIe p = t.outTab.varIe p) : t.Erased (t.setOutTab outTab) P := by
  constructor
  · rfl
  · rfl
  · rfl
  · exact hzero
  · intro p hp
    rw [← t.shared]
    exact hkept p hp

theorem outTableInit_erased (t : Tables) : t.Erased t.outTableInit t.outTab.Pointed := by
  unfold outTableInit
  apply setOutTab_erased
  · intro p hp
    exact (t.outTab.bssTableInit_varIe p).1 hp
  · intro p hp
    exact (t.outTab.bssTableInit_varIe p).2 hp

theorem outTableInit_pointed (t : Tables) (p : Buffer) :
    t.outTableInit.outTab.Pointed p ↔ t.outTab.Pointed p := by
  rw [outTableInit, setOutTab_outTab, bssTableInit_pointed]

theorem outTableInit_iterate (t : Tables) (k : ℕ) :
    t.Erased (outTableInit^[k + 1] t) t.outTab.Pointed ∧
      ∀ p, (outTableInit^[k + 1] t).outTab.Pointed p ↔ t.outTab.Pointed p := by
  induction k with
  | zero =>
    rw [Function.iterate_one]
    exact ⟨t.outTableInit_erased, t.outTableInit_pointed⟩
  | succ k ih =>
    obtain ⟨herased, hpointed⟩ := ih
    rw [Function.iterate_succ_apply']
    constructor
    · have hnext := herased.trans (outTableInit_erased _)
      simp only [hpointed, or_self] at hnext
      exact hnext
    · intro p
      rw [outTableInit_pointed, hpointed]

theorem mem_scanned {t : Tables} {x : BssEntry × BssSecurity} :
    x ∈ t.scanned ↔ ∃ i < t.scanTab.bssNr, (t.scanTab.bssEntry i, t.security i) = x := by
  simp [scanned]

section Selection
variable (pAd : StaConfig) (ssid : List UInt8)

/-- The copies are those of the candidates. -/
theorem copiedFrom_scanned {p : Buffer} (hor : ssid ≠ [] ∨ pAd.bAutoConnectIfNoSSID = true) :
    CopiedFrom pAd ssid t.scanned p ↔
      ∃ i, t.Candidate pAd ssid i ∧ t.scanTab.buffer i = some p := by
  constructor
  · rintro ⟨x, hx, hcopies, hbuffer⟩
    obtain ⟨i, hi, rfl⟩ := mem_scanned.mp hx
    exact ⟨i, ⟨hi, hor, hcopies⟩, hbuffer⟩
  · rintro ⟨i, ⟨hi, -, hcopies⟩, hbuffer⟩
    exact ⟨_, mem_scanned.mpr ⟨i, hi, rfl⟩, hcopies, hbuffer⟩

theorem outTableInit_scanned : t.outTableInit.scanned = t.scanned := by
  rw [scanned, outTableInit, setOutTab_scanTab, setOutTab_security]
  rfl

theorem bssTableSsidSort_none (allocated : Bool)
    (h : ¬ (ssid ≠ [] ∨ pAd.bAutoConnectIfNoSSID = true)) :
    t.bssTableSsidSort pAd ssid allocated = t.outTableInit := by
  simp only [ne_eq, not_or, not_not, Bool.not_eq_true] at h
  simp [bssTableSsidSort, h.1, h.2]

theorem bssTableSsidSort_some (allocated : Bool)
    (h : ssid ≠ [] ∨ pAd.bAutoConnectIfNoSSID = true) :
    t.bssTableSsidSort pAd ssid allocated = t.outTableInit.setOutTab
      ((copyLoop pAd ssid t.scanned t.outTableInit.outTab).bssTableSortByRssi allocated) := by
  have hgo : (ssid.isEmpty && !pAd.bAutoConnectIfNoSSID) = false := by
    rcases h with h | h
    · simp [h]
    · simp [h]
  rw [bssTableSsidSort, hgo, outTableInit_scanned]
  rfl

/-- The buffers that the two tables share after the selection. -/
theorem bssTableSsidSort_erased (allocated : Bool) :
    t.Erased (t.bssTableSsidSort pAd ssid allocated) t.outTab.Pointed ∧
      ∀ p, t.outTab.Pointed p ∨ (t.bssTableSsidSort pAd ssid allocated).outTab.Pointed p ↔
        t.outTab.Pointed p ∨ ∃ i, t.Candidate pAd ssid i ∧ t.scanTab.buffer i = some p := by
  have hinit := t.outTableInit_erased
  by_cases hor : ssid ≠ [] ∨ pAd.bAutoConnectIfNoSSID = true
  · have hlen : t.outTableInit.outTab.bssNr + t.scanned.length ≤ maxLen := by
      rw [outTableInit, setOutTab_outTab, t.outTab.bssTableInit_spec.1]
      simpa [scanned] using t.fits
    have hcopied := copyLoop_copied pAd ssid _ _ hlen
    have hmoved := bssTableSortByRssi_moved _ allocated hcopied.nr
    rw [bssTableSsidSort_some t pAd ssid allocated hor]
    constructor
    · have hsame : t.outTableInit.Erased (t.outTableInit.setOutTab ((copyLoop pAd ssid t.scanned
          t.outTableInit.outTab).bssTableSortByRssi allocated)) fun _ => False := by
        apply setOutTab_erased
        · intro p hp
          exact hp.elim
        · intro p _
          rw [hmoved.varIe, hcopied.varIe]
      simpa using hinit.trans hsame
    · intro p
      rw [setOutTab_outTab, hmoved.pointed p, ← copiedFrom_scanned t pAd ssid hor]
      have hold := t.outTableInit_pointed p
      constructor
      · rintro (h | h)
        · exact Or.inl h
        · exact (hcopied.pointed p h).imp_left hold.mp
      · rintro (h | h)
        · exact Or.inl h
        · exact Or.inr ((hcopied.listed p (Or.inr h)).pointed hcopied.nr)
  · rw [bssTableSsidSort_none t pAd ssid allocated hor]
    refine ⟨hinit, ?_⟩
    intro p
    have hcand : ∀ i, ¬ t.Candidate pAd ssid i := fun i hi => hor hi.2.1
    simp only [hcand, false_and, exists_false, or_false, outTableInit_pointed, or_self]

end Selection

theorem ssidSort_erased (t : Tables) (pAd : StaConfig) (ssid : List UInt8) (allocated : Bool)
    (k : ℕ) : t.Erased (outTableInit^[k + 1] (t.bssTableSsidSort pAd ssid allocated)) fun p =>
      t.outTab.Pointed p ∨ ∃ j, t.Candidate pAd ssid j ∧ t.scanTab.buffer j = some p := by
  obtain ⟨hsort, hshared⟩ := t.bssTableSsidSort_erased pAd ssid allocated
  have hrun := hsort.trans (outTableInit_iterate _ k).1
  simp only [hshared] at hrun
  exact hrun

/-- Selection and later initialisations leave the scan table intact exactly when the buffers of the
candidates, and those that the old candidates pointed to, had nothing in them. -/
theorem ssidSort_intact_iff (t : Tables) (pAd : StaConfig) (ssid : List UInt8) (allocated : Bool)
    (k : ℕ) : t.Intact (outTableInit^[k + 1] (t.bssTableSsidSort pAd ssid allocated)) ↔
      ∀ i < t.scanTab.bssNr, ∀ p, t.scanTab.buffer i = some p →
        (t.outTab.Pointed p ∨ ∃ j, t.Candidate pAd ssid j ∧ t.scanTab.buffer j = some p) →
        t.scanTab.varIe p = zeroes :=
  (t.ssidSort_erased pAd ssid allocated k).intact_iff

/-- A station that looks for an open network. -/
def openStation : StaConfig where
  bAutoConnectIfNoSSID := false
  bIEEE80211H := false
  channel := 1
  channelList := []
  bssType := bssInfra
  wpaSupplicantUP := 0
  phyMode := .other
  authMode := .autoOpen
  wepStatus := .wepDisabled

/-- A scan has found one open network, which has answered a probe with one element; there were no
candidates before. -/
def oneNetwork : Tables where
  scanTab :=
    { bssNr := 1
      bssOverlapNr := 0
      bssEntry := fun _ => { BssEntry.zero with
        bssType := bssInfra
        ssid := [0x61]
        varIeFromProbeRspLen := 3
        pVarIeFromProbRsp := some 0 }
      varIe := fun _ => [0x2a, 0x01, 0x04] ++ List.replicate (maxVieLen - 3) 0 }
  security := fun _ =>
    { authMode := .autoOpen
      authModeAux := .autoOpen
      wepStatus := .wepDisabled
      wpa := ⟨.wepDisabled, .wepDisabled, .wepDisabled, false⟩
      wpa2 := ⟨.wepDisabled, .wepDisabled, .wepDisabled, false⟩
      bSES := false }
  outTab :=
    { bssNr := 0
      bssOverlapNr := 0
      bssEntry := fun _ => BssEntry.zero
      varIe := fun _ => [0x2a, 0x01, 0x04] ++ List.replicate (maxVieLen - 3) 0 }
  shared := rfl
  fits := by decide

theorem oneNetwork_not_intact :
    ¬ oneNetwork.Intact (oneNetwork.bssTableSsidSort openStation [0x61] true).outTableInit := by
  have hcandidate : oneNetwork.Candidate openStation [0x61] 0 := ⟨by decide, by decide, by decide⟩
  have herased := (oneNetwork.ssidSort_erased openStation [0x61] true 0).zero 0
    (Or.inr ⟨0, hcandidate, rfl⟩)
  intro h
  have hkept := h.content 0 (by decide) 0 rfl
  have hhead : zeroes.head? = some 0x2a := congrArg List.head? (herased.symm.trans hkept)
  rw [zeroes, List.head?_replicate, if_neg (by decide)] at hhead
  exact absurd hhead (by decide)

end Tables
end Rt5572

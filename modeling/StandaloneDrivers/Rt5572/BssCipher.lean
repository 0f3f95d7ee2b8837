import StandaloneDrivers.Foundations.Tlv
import StandaloneDrivers.Rt5572.BssTableSort

/-! The elements of a network that a scan has found: `BssCipherParse`, and the walk of `BssEntrySet`
over the elements (common/mlme.c). -/
namespace Rt5572.BssTab
open Foundations

abbrev bssAdhoc : UInt8 := 0

def sesOui : List UInt8 := [0x00, 0x90, 0x4c]

/-- `EID_STRUCT`: an id, a length, and as many octets. -/
def eidStruct : Tlv where
  header := 2
  header_pos := by decide
  body := fun m p => (m (p + 1)).toNat

/-- What `BssCipherParse` sets of `BSS_ENTRY`. -/
structure CipherFields extends BssSecurity where
  wpaRsnCapability : ℕ
  wpa2RsnCapability : ℕ
  deriving DecidableEq, Repr

/-- The places that have been read, and the fields. -/
structure CipherParse where
  reads : List Span
  out : CipherFields

def groupCipherOf (old : WepStatus) (type : UInt8) : WepStatus :=
  if type = 1 then .groupWep40Enabled
  else if type = 5 then .groupWep104Enabled
  else if type = 2 then .encryption2Enabled
  else if type = 4 then .encryption3Enabled
  else old

def pairCipherOf (type : UInt8) : WepStatus :=
  if type = 1 ∨ type = 5 then .wepEnabled
  else if type = 2 then .encryption2Enabled
  else if type = 4 then .encryption3Enabled
  else .wepDisabled

namespace CipherSuite
variable (c : CipherSuite)

def setGroup (type : UInt8) : CipherSuite :=
  { c with groupCipher := groupCipherOf c.groupCipher type }

/-- The lower cipher suite is moved to `PairCipherAux`. -/
def addPair (tmpCipher : WepStatus) : CipherSuite :=
  if c.pairCipher.ctorIdx < tmpCipher.ctorIdx then
    { c with pairCipherAux := c.pairCipher, pairCipher := tmpCipher }
  else { c with pairCipherAux := tmpCipher }

def patchAux : CipherSuite :=
  if c.pairCipherAux = .wepDisabled then { c with pairCipherAux := c.groupCipher } else c

def checkMix : CipherSuite :=
  if c.groupCipher ≠ c.pairCipher then { c with bMixMode := true } else c

def disabled : CipherSuite := ⟨.wepDisabled, .wepDisabled, .wepDisabled, false⟩

end CipherSuite

namespace CipherFields
variable (b : CipherFields) (bssType : UInt8)

def addAuthMode (mode : AuthMode) : CipherFields :=
  if b.authMode = .autoOpen then { b with authMode := mode } else { b with authModeAux := mode }

/-- What is set before the elements are read. -/
def reset (privacy : Bool) : CipherFields :=
  { b with
    wepStatus := if privacy then .wepEnabled else .wepDisabled
    authMode := .autoOpen
    authModeAux := .autoOpen
    wpa := .disabled
    wpaRsnCapability := 0
    wpa2 := .disabled
    wpa2RsnCapability := 0 }

/-- The AKM suite of a WPA element. -/
def addWpaAkm (type : UInt8) : CipherFields :=
  if type = 1 then b.addAuthMode .wpa
  else if type = 2 then b.addAuthMode .wpaPsk
  else b

/-- An AKM suite of an RSN element. -/
def addRsnAkm (type : UInt8) : CipherFields :=
  if type = 0 then b.addAuthMode .wpaNone
  else if type = 1 then b.addAuthMode .wpa2
  else if type = 2 then b.addAuthMode .wpa2Psk
  else b.addAuthMode .authModeMax

def finishWpa : CipherFields :=
  let b := if bssType = bssAdhoc then
      { b with
        authMode := .wpaNone
        authModeAux := .wpaNone
        wepStatus := b.wpa.groupCipher
        wpa := b.wpa.patchAux }
    else { b with wepStatus := b.wpa.pairCipher }
  { b with wpa := b.wpa.checkMix }

def finishRsn (capability : ℕ) : CipherFields :=
  let b := if bssType = bssAdhoc then
      { b with
        wpa := { b.wpa with
          pairCipherAux := b.wpa2.pairCipherAux
          groupCipher := b.wpa2.groupCipher }.patchAux }
    else b
  { b with
    wepStatus := b.wpa2.pairCipher
    wpa2RsnCapability := capability
    wpa2 := b.wpa2.checkMix }

end CipherFields

/-- The AKM suites that have been read, and where the cursor stands. -/
structure AkmParse where
  reads : List Span
  pos : ℕ
  out : CipherFields

/-- What was read and written, with the size of the array that is written to. -/
structure IeWrite where
  size : ℕ
  span : Span
  deriving DecidableEq

structure IeWalk where
  reads : List Span
  writes : List IeWrite
  ies : CustomIes

section Code
variable (bssType : UInt8) (m : Memory)

/-- The loop over the unicast suites, which skips their OUIs. -/
def parsePairSuites : ℕ → ℕ → CipherSuite → List Span × CipherSuite
  | 0, _, c => ([], c)
  | count + 1, pos, c =>
      let rest := parsePairSuites count (pos + 4) (c.addPair (pairCipherOf (m (pos + 3))))
      (⟨pos + 3, 1⟩ :: rest.1, rest.2)

/-- The loop over the AKM suites of an RSN element, up to one with another OUI. -/
def parseAkmSuites : ℕ → ℕ → CipherFields → AkmParse
  | 0, pos, b => ⟨[], pos, b⟩
  | count + 1, pos, b =>
      if m.read pos 3 = rsnOui then
        let rest := parseAkmSuites count (pos + 4) (b.addRsnAkm (m (pos + 3)))
        { rest with reads := ⟨pos, 3⟩ :: ⟨pos + 3, 1⟩ :: rest.reads }
      else ⟨[⟨pos, 3⟩], pos, b⟩

/-- The first test of `case IE_WPA`. -/
def sesReads (pos : ℕ) : List Span :=
  ⟨pos + 2, 3⟩ :: if m.read (pos + 2) 3 = sesOui then [⟨pos + 1, 1⟩] else []

/-- `case IE_WPA` -/
def parseWpa (pos : ℕ) (b : CipherFields) : CipherParse :=
  if m.read (pos + 2) 3 = sesOui ∧ m (pos + 1) = 7 then
    ⟨sesReads m pos, { b with bSES := true }⟩
  else if m.read (pos + 2) 4 ≠ wpaOui then ⟨sesReads m pos ++ [⟨pos + 2, 4⟩], b⟩
  else
    let count := m.le16 (pos + 12)
    let suites := parsePairSuites m count (pos + 14) (b.wpa.setGroup (m (pos + 11)))
    let akm := pos + 14 + 4 * count
    ⟨sesReads m pos ++ ⟨pos + 2, 4⟩ :: ⟨pos + 11, 1⟩ :: ⟨pos + 12, 2⟩ :: suites.1 ++
        [⟨akm, 2⟩, ⟨akm + 5, 1⟩],
      ({ b with wpa := suites.2 }.addWpaAkm (m (akm + 5))).finishWpa bssType⟩

/-- `case IE_RSN` -/
def parseRsn (pos : ℕ) (b : CipherFields) : CipherParse :=
  if m.le16 (pos + 2) ≠ 1 then ⟨[⟨pos + 2, 2⟩], b⟩
  else if m.read (pos + 4) 3 ≠ rsnOui then ⟨[⟨pos + 2, 2⟩, ⟨pos + 4, 3⟩], b⟩
  else
    let count := m.le16 (pos + 8)
    let suites := parsePairSuites m count (pos + 10) (b.wpa2.setGroup (m (pos + 7)))
    let akm := pos + 10 + 4 * count
    let auth := parseAkmSuites m (m.le16 akm) (akm + 2) { b with wpa2 := suites.2 }
    ⟨⟨pos + 2, 2⟩ :: ⟨pos + 4, 3⟩ :: ⟨pos + 7, 1⟩ :: ⟨pos + 8, 2⟩ :: suites.1 ++
        ⟨akm, 2⟩ :: auth.reads ++ [⟨auth.pos, 2⟩],
      auth.out.finishRsn bssType (m.le16 auth.pos)⟩

def parseElement (pos : ℕ) (b : CipherFields) : CipherParse :=
  let r := if m pos = ieWpa then parseWpa bssType m pos b
    else if m pos = ieRsn then parseRsn bssType m pos b
    else ⟨[], b⟩
  ⟨⟨pos, 1⟩ :: r.reads ++ [⟨pos + 1, 1⟩], r.out⟩

/-- The loop over the elements, also over one that is cut off. -/
def parseElements (len pos : ℕ) (b : CipherFields) : CipherParse :=
  if pos < len then
    let r := parseElement bssType m pos b
    let rest := parseElements len (eidStruct.next m pos) r.out
    ⟨r.reads ++ rest.reads, rest.out⟩
  else ⟨[], b⟩
  termination_by len - pos
  decreasing_by
    have := eidStruct.lt_next m pos
    omega

/-- `BssCipherParse`; the memory is what begins with `VarIEs`. -/
def bssCipherParse (privacy : Bool) (varIELen : ℕ) (b : CipherFields) : CipherParse :=
  parseElements bssType m varIELen 0 (b.reset privacy)

/-- The element is copied with its header, or dropped when it is too long. -/
def storeIe (pos : ℕ) (reads : List Span) (put : List UInt8 → CustomIes) : IeWalk :=
  let size := (m (pos + 1)).toNat + 2
  if size > maxCustomLen then ⟨reads, [], put []⟩
  else ⟨reads ++ [⟨pos, size⟩], [⟨maxCustomLen, ⟨0, size⟩⟩], put (m.read pos size)⟩

def pickElement (pos : ℕ) (ies : CustomIes) : IeWalk :=
  if m pos = ieWpa then
    if m.read (pos + 2) 4 = wpsOui then
      storeIe m pos [⟨pos + 2, 4⟩] fun ie => { ies with wpsIE := ie }
    else if m.read (pos + 2) 4 = wpaOui then
      storeIe m pos [⟨pos + 2, 4⟩, ⟨pos + 2, 4⟩] fun ie => { ies with wpaIE := ie }
    else ⟨[⟨pos + 2, 4⟩, ⟨pos + 2, 4⟩], [], ies⟩
  else if m pos = ieRsn then
    if m.read (pos + 4) 3 = rsnOui then
      storeIe m pos [⟨pos + 4, 3⟩] fun ie => { ies with rsnIE := ie }
    else ⟨[⟨pos + 4, 3⟩], [], ies⟩
  else ⟨[], [], ies⟩

/-- The loop over the elements, which reads the length of the next one first. -/
def walkElements (len pos : ℕ) (ies : CustomIes) : IeWalk :=
  if eidStruct.next m pos ≤ len then
    let r := pickElement m pos ies
    let rest := walkElements len (eidStruct.next m pos) r.ies
    ⟨⟨pos + 1, 1⟩ :: ⟨pos, 1⟩ :: r.reads ++ rest.reads, r.writes ++ rest.writes, rest.ies⟩
  else ⟨[⟨pos + 1, 1⟩], [], ies⟩
  termination_by len - pos
  decreasing_by
    have := eidStruct.lt_next m pos
    omega

end Code

/-- What `BssEntrySet` has read of the buffer and of `VarIEs`, and written to arrays. -/
structure EntryElements where
  vieReads : List Span
  varReads : List Span
  writes : List IeWrite
  varIEs : Memory
  fields : CipherFields
  ies : CustomIes

/-- What `BssEntrySet` does with the elements: the copy to `VarIEs`, which may be followed by
anything in memory, the parse of the copy, and the walk over the buffer. -/
def bssEntrySetElements (bssType : UInt8) (privacy : Bool) (b : CipherFields)
    (varIEs pVIE : Memory) (lengthVIE : UInt16) : EntryElements :=
  let len := lengthVIE.toNat
  let copy := varIEs.write 0 (pVIE.read 0 len)
  let parsed := bssCipherParse bssType copy privacy len b
  let walked := walkElements pVIE len 0 ⟨[], [], []⟩
  { vieReads := ⟨0, len⟩ :: walked.reads
    varReads := parsed.reads
    writes := ⟨maxVieLen, ⟨0, len⟩⟩ ::
      List.replicate 3 ⟨maxCustomLen, ⟨0, maxCustomLen⟩⟩ ++ walked.writes
    varIEs := copy
    fields := parsed.out
    ies := walked.ies }

/-- It reads nothing but the buffer, or the copy of it, and writes inside the arrays. -/
def EntryElements.Stays (r : EntryElements) (len : ℕ) : Prop :=
  (∀ s ∈ r.vieReads, s.Inside len) ∧ (∀ s ∈ r.varReads, s.Inside len) ∧
    ∀ w ∈ r.writes, w.span.Inside w.size

section Ends
variable (m : Memory)

/-- Where the first AKM OUI that differs ends, or the capability behind all suites. -/
def akmEnd : ℕ → ℕ → ℕ
  | 0, pos => pos + 2
  | count + 1, pos => if m.read pos 3 = rsnOui then akmEnd count (pos + 4) else pos + 3

/-- Where the parts of a WPA element end that are looked at: the suites are as many as it says. -/
def wpaEnd (pos : ℕ) : ℕ :=
  if m.read (pos + 2) 3 = sesOui ∧ m (pos + 1) = 7 then pos + 5
  else if m.read (pos + 2) 4 ≠ wpaOui then pos + 6
  else pos + 20 + 4 * m.le16 (pos + 12)

def rsnEnd (pos : ℕ) : ℕ :=
  if m.le16 (pos + 2) ≠ 1 then pos + 4
  else if m.read (pos + 4) 3 ≠ rsnOui then pos + 7
  else akmEnd m (m.le16 (pos + 10 + 4 * m.le16 (pos + 8))) (pos + 10 + 4 * m.le16 (pos + 8) + 2)

def cipherEnd (pos : ℕ) : ℕ :=
  if m pos = ieWpa then wpaEnd m pos
  else if m pos = ieRsn then rsnEnd m pos
  else pos + 2

/-- Where the OUI of an element ends. -/
def ouiEnd (pos : ℕ) : ℕ :=
  if m pos = ieWpa then pos + 6
  else if m pos = ieRsn then pos + 7
  else pos + 2

end Ends

/-- The buffers whose elements can be handled: a last element is cut off behind its header, and what
the elements say that they have lies inside. -/
structure ElementsFit (pVIE : Memory) (len : ℕ) : Prop where
  room : len ≤ maxVieLen
  cutOff : eidStruct.itemsEnd pVIE len 0 + 2 ≤ len
  ciphers : ∀ p ∈ eidStruct.items pVIE len 0 ++ [eidStruct.itemsEnd pVIE len 0],
    cipherEnd pVIE p ≤ len
  ouis : ∀ p ∈ eidStruct.items pVIE len 0, ouiEnd pVIE p ≤ len

section Ciphers
variable {bssType : UInt8} {m c : Memory} {pos n len : ℕ} {b : CipherFields}

theorem parsePairSuites_inside (count pos : ℕ) (suite : CipherSuite) (h : pos + 4 * count ≤ n) :
    ∀ s ∈ (parsePairSuites m count pos suite).1, s.Inside n := by
  induction count generalizing pos suite with
  | zero => simp [parsePairSuites]
  | succ count ih =>
    rw [parsePairSuites, List.forall_mem_cons]
    refine ⟨?_, ih (pos + 4) _ (by omega)⟩
    simp only [Span.Inside]
    omega

theorem le_akmEnd (count pos : ℕ) : pos + 2 ≤ akmEnd m count pos := by
  induction count generalizing pos with
  | zero => exact Nat.le_refl _
  | succ count ih =>
    have := ih (pos + 4)
    rw [akmEnd]
    split <;> omega

/-- The AKM suites and the capability behind them. -/
theorem parseAkmSuites_inside (count pos : ℕ) (b : CipherFields) :
    (∀ s ∈ (parseAkmSuites m count pos b).reads, s.Inside n) ∧
        (parseAkmSuites m count pos b).pos + 2 ≤ n ↔ akmEnd m count pos ≤ n := by
  induction count generalizing pos b with
  | zero => simp [parseAkmSuites, akmEnd]
  | succ count ih =>
    rw [parseAkmSuites, akmEnd]
    split
    · have hrest := ih (pos + 4) (b.addRsnAkm (m (pos + 3)))
      have hle := le_akmEnd (m := m) count (pos + 4)
      simp only [List.forall_mem_cons, Span.Inside] at hrest ⊢
      rw [and_assoc, and_assoc, hrest]
      omega
    · simp only [List.forall_mem_singleton, Span.Inside]
      omega

theorem sesReads_inside : (∀ s ∈ sesReads m pos, s.Inside n) ↔ pos + 5 ≤ n := by
  rw [sesReads]
  split
  · rw [List.forall_mem_cons, List.forall_mem_singleton]
    simp only [Span.Inside]
    omega
  · rw [List.forall_mem_singleton]
    rfl

theorem parseWpa_inside :
    (∀ s ∈ (parseWpa bssType m pos b).reads, s.Inside n) ↔ wpaEnd m pos ≤ n := by
  rw [parseWpa, wpaEnd]
  split_ifs with hses houi
  · exact sesReads_inside
  · rw [List.forall_mem_append, sesReads_inside, List.forall_mem_singleton]
    simp only [Span.Inside]
    omega
  · have hpair := parsePairSuites_inside (m := m) (n := n) (m.le16 (pos + 12)) (pos + 14)
      (b.wpa.setGroup (m (pos + 11)))
    dsimp only
    rw [List.append_assoc, List.forall_mem_append, sesReads_inside]
    simp only [List.cons_append, List.forall_mem_append, List.forall_mem_cons,
      Span.Inside] at hpair ⊢
    constructor
    · rintro ⟨-, -, -, -, -, -, htype, -⟩
      omega
    · intro hend
      exact ⟨by omega, by omega, by omega, by omega, hpair (by omega), by omega, by omega, by simp⟩

theorem parseRsn_inside :
    (∀ s ∈ (parseRsn bssType m pos b).reads, s.Inside n) ↔ rsnEnd m pos ≤ n := by
  rw [parseRsn, rsnEnd]
  split_ifs with hversion houi
  · rw [List.forall_mem_singleton]
    rfl
  · rw [List.forall_mem_cons, List.forall_mem_singleton]
    simp only [Span.Inside]
    omega
  · have hpair := parsePairSuites_inside (m := m) (n := n) (m.le16 (pos + 8)) (pos + 10)
      (b.wpa2.setGroup (m (pos + 7)))
    have hakm := parseAkmSuites_inside (m := m) (n := n) (m.le16 (pos + 10 + 4 * m.le16 (pos + 8)))
      (pos + 10 + 4 * m.le16 (pos + 8) + 2) { b with wpa2 :=
        (parsePairSuites m (m.le16 (pos + 8)) (pos + 10) (b.wpa2.setGroup (m (pos + 7)))).2 }
    have hle := le_akmEnd (m := m) (m.le16 (pos + 10 + 4 * m.le16 (pos + 8)))
      (pos + 10 + 4 * m.le16 (pos + 8) + 2)
    rw [← hakm]
    simp only [List.cons_append, List.append_assoc, List.forall_mem_append,
      List.forall_mem_cons, Span.Inside] at hpair hakm ⊢
    constructor
    · rintro ⟨-, -, -, -, -, -, hauth, hcapability, -⟩
      exact ⟨hauth, hcapability⟩
    · intro hauth
      have hend := hakm.mp hauth
      exact ⟨by omega, by omega, by omega, by omega, hpair (by omega), by omega, hauth.1, hauth.2,
        by simp⟩

theorem le_cipherEnd (m : Memory) (pos : ℕ) : pos + 2 ≤ cipherEnd m pos := by
  have hakm := le_akmEnd (m := m) (m.le16 (pos + 10 + 4 * m.le16 (pos + 8)))
    (pos + 10 + 4 * m.le16 (pos + 8) + 2)
  simp only [cipherEnd, wpaEnd, rsnEnd]
  split_ifs <;> omega

theorem parseElement_inside :
    (∀ s ∈ (parseElement bssType m pos b).reads, s.Inside n) ↔ cipherEnd m pos ≤ n := by
  have hle := le_cipherEnd m pos
  have hkind : (∀ s ∈ (if m pos = ieWpa then parseWpa bssType m pos b
      else if m pos = ieRsn then parseRsn bssType m pos b else ⟨[], b⟩ : CipherParse).reads,
        s.Inside n) ∧ pos + 2 ≤ n ↔ cipherEnd m pos ≤ n := by
    rw [cipherEnd] at hle ⊢
    split_ifs at hle ⊢ with hwpa hrsn
    · rw [parseWpa_inside]
      omega
    · rw [parseRsn_inside]
      omega
    · simp
  rw [parseElement, List.cons_append, List.forall_mem_cons, List.forall_mem_append,
    List.forall_mem_singleton, ← hkind]
  simp only [Span.Inside]
  constructor
  · rintro ⟨-, hreads, hlen⟩
    exact ⟨hreads, hlen⟩
  · rintro ⟨hreads, hlen⟩
    exact ⟨by omega, hreads, hlen⟩

end Ciphers

section Agreement
variable {m c : Memory} {pos n len : ℕ}

theorem akmEnd_congr (h : ∀ j < n, m j = c j) (count pos : ℕ) (hend : akmEnd m count pos ≤ n) :
    akmEnd c count pos = akmEnd m count pos := by
  induction count generalizing pos with
  | zero => rfl
  | succ count ih =>
    have hle := le_akmEnd (m := m) count (pos + 4)
    rw [akmEnd] at hend ⊢
    rw [akmEnd]
    have hroom : pos + 3 ≤ n := by
      split at hend <;> omega
    have houi : m.read pos 3 = c.read pos 3 := Memory.read_congr fun j _ hj => h j (by omega)
    rw [← houi]
    split at hend
    · rename_i hsame
      rw [if_pos hsame, if_pos hsame, ih _ hend]
    · rename_i hother
      rw [if_neg hother, if_neg hother]

theorem le16_below (h : ∀ j < n, m j = c j) (hpos : pos + 2 ≤ n) : c.le16 pos = m.le16 pos :=
  Memory.le16_congr fun j hj => (h (pos + j) (by omega)).symm

theorem read_below (h : ∀ j < n, m j = c j) {k : ℕ} (hpos : pos + k ≤ n) :
    c.read pos k = m.read pos k :=
  Memory.read_congr fun j _ hj => (h j (by omega)).symm

theorem wpaEnd_congr (h : ∀ j < n, m j = c j) (hend : wpaEnd m pos ≤ n) :
    wpaEnd c pos = wpaEnd m pos := by
  have hroom : pos + 5 ≤ n := by
    rw [wpaEnd] at hend
    split_ifs at hend <;> omega
  rw [wpaEnd] at hend ⊢
  rw [wpaEnd, read_below h (by omega), ← h (pos + 1) (by omega)]
  split_ifs at hend with hses houi
  · rw [if_pos hses, if_pos hses]
  · rw [if_neg hses, if_neg hses, read_below h (by omega), if_pos houi, if_pos houi]
  · rw [if_neg hses, if_neg hses, read_below h (by omega), if_neg houi, if_neg houi,
      le16_below h (by omega)]

theorem rsnEnd_congr (h : ∀ j < n, m j = c j) (hend : rsnEnd m pos ≤ n) :
    rsnEnd c pos = rsnEnd m pos := by
  have hakm := le_akmEnd (m := m) (m.le16 (pos + 10 + 4 * m.le16 (pos + 8)))
    (pos + 10 + 4 * m.le16 (pos + 8) + 2)
  have hroom : pos + 4 ≤ n := by
    rw [rsnEnd] at hend
    split_ifs at hend <;> omega
  rw [rsnEnd] at hend ⊢
  rw [rsnEnd, le16_below h hroom]
  split_ifs at hend with hversion houi
  · rw [if_pos hversion, if_pos hversion]
  · rw [if_neg hversion, if_neg hversion, read_below h (by omega), if_pos houi, if_pos houi]
  · have hcount : c.le16 (pos + 8) = m.le16 (pos + 8) := le16_below h (by omega)
    rw [if_neg hversion, if_neg hversion, read_below h (by omega), if_neg houi, if_neg houi,
      hcount, le16_below h (by omega), akmEnd_congr h _ _ hend]

/-- What decides how far the parse of an element gets lies inside, if it stays inside. -/
theorem cipherEnd_congr (h : ∀ j < n, m j = c j) (hend : cipherEnd m pos ≤ n) :
    cipherEnd c pos = cipherEnd m pos := by
  have hroom : pos + 2 ≤ n := Nat.le_trans (le_cipherEnd m pos) hend
  rw [cipherEnd] at hend ⊢
  rw [cipherEnd, ← h pos (by omega)]
  split_ifs at hend ⊢ with hwpa hrsn
  · exact wpaEnd_congr h hend
  · exact rsnEnd_congr h hend
  · rfl

theorem cipherEnd_le_iff (h : ∀ j < n, m j = c j) : cipherEnd c pos ≤ n ↔ cipherEnd m pos ≤ n := by
  constructor
  · intro hend
    rwa [cipherEnd_congr (fun j hj => (h j hj).symm) hend]
  · intro hend
    rwa [cipherEnd_congr h hend]

end Agreement

section Loops
variable {bssType : UInt8} {m c : Memory} {pos len : ℕ}

/-- The parse of a copy, when the buffer ends in an element that is cut off behind its header. -/
theorem parseElements_inside (h : ∀ j < len, m j = c j) (b : CipherFields)
    (hcut : eidStruct.itemsEnd m len pos + 2 ≤ len) :
    (∀ s ∈ (parseElements bssType c len pos b).reads, s.Inside len) ↔
      ∀ p ∈ eidStruct.items m len pos ++ [eidStruct.itemsEnd m len pos], cipherEnd m p ≤ len := by
  have hnext : ∀ p, p + 2 ≤ len → eidStruct.next c p = eidStruct.next m p := by
    intro p hp
    simp only [Tlv.next, Tlv.size, eidStruct, h (p + 1) (by omega)]
  fun_induction Tlv.items eidStruct m len pos generalizing b with
  | case1 pos hle ih =>
    rw [Tlv.itemsEnd_of_complete hle] at hcut ⊢
    have hroom : pos + 2 ≤ len := Nat.le_trans (eidStruct.header_le_next m pos) hle
    rw [parseElements, if_pos (by omega), hnext pos hroom]
    dsimp only
    rw [List.forall_mem_append, parseElement_inside, cipherEnd_le_iff h, List.cons_append,
      List.forall_mem_cons]
    exact and_congr_right fun _ => ih _ hcut
  | case2 pos hlt =>
    rw [Tlv.itemsEnd_of_cut (Nat.not_le.mp hlt)] at hcut ⊢
    rw [parseElements, if_pos (by omega), hnext pos hcut]
    dsimp only
    rw [parseElements, if_neg (by omega), List.append_nil, parseElement_inside, cipherEnd_le_iff h,
      List.nil_append, List.forall_mem_singleton]

theorem mem_parseElements {b : CipherFields} {s : Span} (h : pos < len)
    (hs : s ∈ (parseElement bssType m pos b).reads) :
    s ∈ (parseElements bssType m len pos b).reads := by
  rw [parseElements, if_pos h]
  exact List.mem_append_left _ hs

theorem storeIe_writes (reads : List Span) (put : List UInt8 → CustomIes) :
    ∀ w ∈ (storeIe m pos reads put).writes, w.span.Inside w.size := by
  rw [storeIe]
  split
  · simp
  · rw [List.forall_mem_singleton]
    simp only [Span.Inside]
    omega

theorem storeIe_inside (reads : List Span) (put : List UInt8 → CustomIes)
    (h : eidStruct.next m pos ≤ len) :
    (∀ s ∈ (storeIe m pos reads put).reads, s.Inside len) ↔ ∀ s ∈ reads, s.Inside len := by
  simp only [Tlv.next, Tlv.size, eidStruct] at h
  rw [storeIe]
  split
  · rfl
  · rw [List.forall_mem_append, List.forall_mem_singleton, and_iff_left_iff_imp]
    intro _
    simp only [Span.Inside]
    omega

theorem pickElement_writes (ies : CustomIes) :
    ∀ w ∈ (pickElement m pos ies).writes, w.span.Inside w.size := by
  rw [pickElement]
  split_ifs
  · exact storeIe_writes _ _
  · exact storeIe_writes _ _
  · simp
  · exact storeIe_writes _ _
  · simp
  · simp

theorem pickElement_inside (ies : CustomIes) (h : eidStruct.next m pos ≤ len) :
    (∀ s ∈ (pickElement m pos ies).reads, s.Inside len) ↔ ouiEnd m pos ≤ len := by
  have hroom : pos + 2 ≤ len := Nat.le_trans (eidStruct.header_le_next m pos) h
  rw [pickElement, ouiEnd]
  split_ifs
  · rw [storeIe_inside _ _ h, List.forall_mem_singleton]
    rfl
  · rw [storeIe_inside _ _ h, List.forall_mem_cons, List.forall_mem_singleton, and_self]
    rfl
  · rw [List.forall_mem_cons, List.forall_mem_singleton, and_self]
    rfl
  · rw [storeIe_inside _ _ h, List.forall_mem_singleton]
    rfl
  · rw [List.forall_mem_singleton]
    rfl
  · simpa using hroom

theorem walkElements_writes (len pos : ℕ) (ies : CustomIes) :
    ∀ w ∈ (walkElements m len pos ies).writes, w.span.Inside w.size := by
  fun_induction walkElements m len pos ies with
  | case1 pos ies hle r rest ih =>
    rw [List.forall_mem_append]
    exact ⟨pickElement_writes ies, ih⟩
  | case2 pos ies hlt => simp

/-- The walk stays inside when the length behind its end does, and the OUIs of the elements. -/
theorem walkElements_inside (len pos : ℕ) (ies : CustomIes) :
    (∀ s ∈ (walkElements m len pos ies).reads, s.Inside len) ↔
      eidStruct.itemsEnd m len pos + 2 ≤ len ∧
        ∀ p ∈ eidStruct.items m len pos, ouiEnd m p ≤ len := by
  fun_induction walkElements m len pos ies with
  | case1 pos ies hle r rest ih =>
    have hroom : pos + 2 ≤ len := Nat.le_trans (eidStruct.header_le_next m pos) hle
    rw [Tlv.itemsEnd_of_complete hle, Tlv.items_of_complete hle, List.cons_append, List.cons_append,
      List.forall_mem_cons, List.forall_mem_cons, List.forall_mem_append, ih,
      pickElement_inside ies hle, List.forall_mem_cons]
    simp only [Span.Inside]
    constructor
    · rintro ⟨-, -, hfirst, hend, hrest⟩
      exact ⟨hend, hfirst, hrest⟩
    · rintro ⟨hend, hfirst, hrest⟩
      exact ⟨hroom, by omega, hfirst, hend, hrest⟩
  | case2 pos ies hlt =>
    rw [Tlv.itemsEnd_of_cut (Nat.not_le.mp hlt), Tlv.items_of_cut (Nat.not_le.mp hlt),
      List.forall_mem_singleton, and_iff_left fun p hp => absurd hp List.not_mem_nil]
    rfl

end Loops

section List
variable {m : Memory} {pos len : ℕ}

theorem take_read {k n : ℕ} (h : n ≤ k) : (m.read pos k).take n = m.read pos n := by
  obtain ⟨r, rfl⟩ := Nat.exists_eq_add_of_le h
  rw [Memory.read_add, List.take_left' (m.read_length pos n)]

theorem storeIe_ies (reads : List Span) (put : List UInt8 → CustomIes)
    (h : eidStruct.next m pos ≤ len) : (storeIe m pos reads put).ies =
      put (customIe (m pos) (m (pos + 1)) (m.read (pos + 2) (len - (pos + 2)))) := by
  simp only [Tlv.next, Tlv.size, eidStruct] at h
  rw [storeIe, customIe]
  split
  · rfl
  · rw [take_read (by omega), Memory.read_succ, Memory.read_succ]

theorem pickElement_ies (ies : CustomIes) (h : eidStruct.next m pos ≤ len)
    (houi : ouiEnd m pos ≤ len) : (pickElement m pos ies).ies =
      ies.pick (m pos) (m (pos + 1)) (m.read (pos + 2) (len - (pos + 2))) := by
  rw [ouiEnd] at houi
  rw [pickElement, CustomIes.pick]
  split_ifs at houi with hwpa hrsn
  · rw [if_pos hwpa, if_pos hwpa, take_read (by omega)]
    split_ifs
    · exact storeIe_ies _ _ h
    · exact storeIe_ies _ _ h
    · rfl
  · rw [if_neg hwpa, if_pos hrsn, if_neg hwpa, if_pos hrsn, m.read_take_drop (by omega)]
    split_ifs
    · exact storeIe_ies _ _ h
    · rfl
  · rw [if_neg hwpa, if_neg hrsn, if_neg hwpa, if_neg hrsn]

/-- The elements that are kept apart are those of the list of bytes. -/
theorem walkElements_ies (ies : CustomIes) {fuel : ℕ} (hfuel : len - pos ≤ fuel)
    (houi : ∀ p ∈ eidStruct.items m len pos, ouiEnd m p ≤ len) :
    (walkElements m len pos ies).ies = CustomIes.parse fuel (m.read pos (len - pos)) ies := by
  fun_induction Tlv.items eidStruct m len pos generalizing ies fuel with
  | case1 pos hle ih =>
    rw [List.forall_mem_cons] at houi
    have hnext : eidStruct.next m pos = pos + 2 + (m (pos + 1)).toNat := by
      simp only [Tlv.next, Tlv.size, eidStruct, Nat.add_assoc]
    obtain ⟨fuel, rfl⟩ : ∃ k, fuel = k + 1 := ⟨fuel - 1, by omega⟩
    have hsplit : len - pos = len - (pos + 2) + 1 + 1 := by omega
    have hbody : len - (pos + 2) = (m (pos + 1)).toNat + (len - eidStruct.next m pos) := by omega
    have hdrop : (m.read (pos + 2) (len - (pos + 2))).drop (m (pos + 1)).toNat =
        m.read (eidStruct.next m pos) (len - eidStruct.next m pos) := by
      rw [hbody, Memory.read_add, List.drop_left' (m.read_length _ _), hnext]
    rw [walkElements, if_pos hle, hsplit, Memory.read_succ, Memory.read_succ, CustomIes.parse,
      if_pos (by rw [Memory.read_length]; omega), hdrop, ← pickElement_ies ies hle houi.1]
    exact ih _ (by omega) houi.2
  | case2 pos hlt =>
    rw [walkElements, if_neg hlt]
    simp only [Tlv.next, Tlv.size, eidStruct] at hlt
    rcases fuel with _ | fuel
    · rfl
    · rcases hleft : len - pos with _ | _ | k
      · rfl
      · rfl
      · rw [Memory.read_succ, Memory.read_succ, CustomIes.parse,
          if_neg (by rw [Memory.read_length]; omega)]

end List

/-- Nothing but the buffer and its copy is read, and nothing outside of the arrays is written, for
exactly the buffers that fit. -/
theorem bssEntrySetElements_stays_iff (bssType : UInt8) (privacy : Bool) (b : CipherFields)
    (varIEs pVIE : Memory) (lengthVIE : UInt16) :
    (bssEntrySetElements bssType privacy b varIEs pVIE lengthVIE).Stays lengthVIE.toNat ↔
      ElementsFit pVIE lengthVIE.toNat := by
  have hcopy : ∀ j < lengthVIE.toNat,
      pVIE j = (varIEs.write 0 (pVIE.read 0 lengthVIE.toNat)) j := by
    intro j hj
    have hsame : (varIEs.write 0 (pVIE.read 0 lengthVIE.toNat)) (0 + j) = pVIE (0 + j) :=
      varIEs.write_read_inside hj
    rw [Nat.zero_add] at hsame
    exact hsame.symm
  have hwrites : (∀ w ∈ (bssEntrySetElements bssType privacy b varIEs pVIE lengthVIE).writes,
      w.span.Inside w.size) ↔ lengthVIE.toNat ≤ maxVieLen := by
    rw [bssEntrySetElements, List.cons_append, List.forall_mem_cons, List.forall_mem_append]
    have hzeroed : ∀ w ∈ List.replicate 3 (⟨maxCustomLen, ⟨0, maxCustomLen⟩⟩ : IeWrite),
        w.span.Inside w.size := by
      intro w hw
      rw [List.eq_of_mem_replicate hw]
      exact Nat.le_of_eq (Nat.zero_add _)
    constructor
    · rintro ⟨hfirst, -⟩
      simpa [Span.Inside] using hfirst
    · intro hroom
      exact ⟨by simpa [Span.Inside] using hroom, hzeroed, walkElements_writes _ _ _⟩
  have hvie : (∀ s ∈ (bssEntrySetElements bssType privacy b varIEs pVIE lengthVIE).vieReads,
      s.Inside lengthVIE.toNat) ↔ eidStruct.itemsEnd pVIE lengthVIE.toNat 0 + 2 ≤ lengthVIE.toNat ∧
        ∀ p ∈ eidStruct.items pVIE lengthVIE.toNat 0, ouiEnd pVIE p ≤ lengthVIE.toNat := by
    rw [bssEntrySetElements, List.forall_mem_cons, walkElements_inside]
    exact and_iff_right (Nat.le_of_eq (Nat.zero_add _))
  rw [EntryElements.Stays, hwrites, hvie]
  constructor
  · rintro ⟨⟨hcut, houi⟩, hvar, hroom⟩
    exact ⟨hroom, hcut, (parseElements_inside hcopy _ hcut).mp hvar, houi⟩
  · rintro ⟨hroom, hcut, hciphers, houi⟩
    exact ⟨⟨hcut, houi⟩, (parseElements_inside hcopy _ hcut).mpr hciphers, hroom⟩

/-- A buffer that fits leaves the elements that `bssEntrySet` keeps. -/
theorem bssEntrySetElements_ies (bssType : UInt8) (privacy : Bool) (b : CipherFields)
    (varIEs pVIE : Memory) (lengthVIE : UInt16) (h : ElementsFit pVIE lengthVIE.toNat) :
    (bssEntrySetElements bssType privacy b varIEs pVIE lengthVIE).ies =
      CustomIes.parse lengthVIE.toNat (pVIE.read 0 lengthVIE.toNat) ⟨[], [], []⟩ :=
  walkElements_ies _ (Nat.sub_le _ _) h.ouis

/-- A WPA element with a count of one unicast suite, and no suite. -/
def suitelessWpaIe : Memory :=
  fun i => [0xdd, 12, 0x00, 0x50, 0xf2, 1, 1, 0, 0x00, 0x50, 0xf2, 2, 1, 0].getD i 0

/-- The type of the suite is read behind the fourteen bytes. -/
theorem bssCipherParse_overread : ¬ (bssEntrySetElements bssInfra true
    ⟨⟨.autoOpen, .autoOpen, .wepEnabled, .disabled, .disabled, false⟩, 0, 0⟩ (fun _ => 0)
    suitelessWpaIe 14).Stays 14 := by
  rintro ⟨-, hvar, -⟩
  have hfirst := parseElement_inside.mp fun s hs => hvar s (mem_parseElements (by decide) hs)
  exact absurd hfirst (by decide)

end Rt5572.BssTab

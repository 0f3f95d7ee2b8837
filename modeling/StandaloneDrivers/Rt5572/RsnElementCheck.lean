import StandaloneDrivers.Rt5572.BssCipher

/-! `RTMPCheckRSNIE` (common/cmm_wpa.c): the WPA and RSN elements in front of the key data, compared
with the one that the station gave at association. The key data lies in memory from 0 on. -/
namespace Rt5572
open Foundations
open BssTab (AuthMode eidStruct ieWpa ieRsn wpaOui rsnOui)

/-- `sizeof(RSNIE2)` -/
abbrev rsnIe2Size : ℕ := 12

/-- What is read of `MAC_TABLE_ENTRY`. -/
structure RsnEntry where
  authMode : AuthMode
  rsnIe : Memory
  rsnIeLen : UInt8

/-- What has been read of the key data, the result, and `*Offset`. -/
structure RsnCheck where
  reads : List Span
  result : Bool
  offset : UInt8

inductive RsnKind
  | wpa
  | rsn
  deriving DecidableEq, Repr

section Elements
variable (m : Memory) (pos : ℕ)

/-- Which of the two elements begins at a place. -/
def rsnKind : Option RsnKind :=
  if m pos = ieWpa ∧ m.read (pos + 2) 4 = wpaOui then some .wpa
  else if m pos = ieRsn ∧ m.read (pos + 4) 3 = rsnOui then some .rsn
  else none

def kindReads : List Span :=
  ⟨pos, 1⟩ :: if m pos = ieWpa then [⟨pos + 2, 4⟩] else if m pos = ieRsn then [⟨pos + 4, 3⟩] else []

end Elements

namespace RsnEntry
variable (pEntry : RsnEntry) (m : Memory) (pos : ℕ)

/-- The modes in which an element of a kind is compared. -/
def usesKind : RsnKind → Bool
  | .wpa => pEntry.authMode == .wpa || pEntry.authMode == .wpaPsk
  | .rsn => pEntry.authMode == .wpa2 || pEntry.authMode == .wpa2Psk

/-- `pEntry->RSNIE_Len - 4` as a `size_t`. -/
def octetCount : ℕ := (pEntry.rsnIeLen.toUInt32 - 4).toNat

/-- The whole WPA element is compared before its length is. -/
def checkWpa : List Span × Bool :=
  let count := pEntry.rsnIeLen.toNat
  if pEntry.usesKind .wpa then
    if m.read pos count = pEntry.rsnIe.read 0 count then
      ([⟨pos, count⟩, ⟨pos + 1, 1⟩], decide (count = (m (pos + 1)).toNat + 2))
    else ([⟨pos, count⟩], false)
  else ([], false)

def checkRsn : List Span × Bool :=
  if pEntry.usesKind .rsn then
    if m pos = pEntry.rsnIe 0 then
      if pEntry.rsnIeLen.toNat ≤ (m (pos + 1)).toNat + 2 then
        ([⟨pos, 1⟩, ⟨pos + 1, 1⟩, ⟨pos + 2, pEntry.octetCount⟩],
          decide (m.read (pos + 2) pEntry.octetCount = pEntry.rsnIe.read 2 pEntry.octetCount))
      else ([⟨pos, 1⟩, ⟨pos + 1, 1⟩], false)
    else ([⟨pos, 1⟩], false)
  else ([], false)

def checkKind : RsnKind → List Span × Bool
  | .wpa => pEntry.checkWpa m pos
  | .rsn => pEntry.checkRsn m pos

/-- The loop with `len` bytes left; `none` while it has not ended. Both counters are bytes. -/
def rsnLoop : ℕ → ℕ → UInt8 → Option RsnCheck
  | 0, _, _ => none
  | fuel + 1, pos, len =>
    if len.toNat ≤ rsnIe2Size then some ⟨[], false, 0⟩
    else match rsnKind m pos with
    | none => some ⟨kindReads m pos, false, 0⟩
    | some kind =>
      let size := m (pos + 1) + 2
      let check := pEntry.checkKind m pos kind
      (rsnLoop fuel (eidStruct.next m pos) (len - size)).map fun rest =>
        { reads := kindReads m pos ++ check.1 ++ ⟨pos + 1, 1⟩ :: rest.reads
          result := check.2 || rest.result
          offset := size + rest.offset }

end RsnEntry

/-- The arguments of a call. -/
structure RsnCall where
  pData : Memory
  dataLen : UInt8
  pEntry : RsnEntry

section Leading
variable (m : Memory)

/-- The complete WPA and RSN elements from `pos` on that begin with room for the suites. -/
def leading (stop pos : ℕ) : List ℕ :=
  if rsnIe2Size < stop - pos ∧ (rsnKind m pos).isSome ∧ eidStruct.next m pos ≤ stop then
    pos :: leading stop (eidStruct.next m pos)
  else []
  termination_by stop - pos
  decreasing_by
    have := eidStruct.lt_next m pos
    omega

/-- Where they end. -/
def leadingEnd (stop pos : ℕ) : ℕ :=
  if rsnIe2Size < stop - pos ∧ (rsnKind m pos).isSome ∧ eidStruct.next m pos ≤ stop then
    leadingEnd stop (eidStruct.next m pos)
  else pos
  termination_by stop - pos
  decreasing_by
    have := eidStruct.lt_next m pos
    omega

end Leading

namespace RsnEntry
variable (pEntry : RsnEntry) (m : Memory)

/-- The stored bytes are inside: those of a WPA element are compared whatever its length is, and an
RSN element is compared up to the last four of a length that may be less. -/
def ComparesInside (stop p : ℕ) : Prop :=
  match rsnKind m p with
  | some .wpa => pEntry.usesKind .wpa = true → p + pEntry.rsnIeLen.toNat ≤ stop
  | some .rsn => pEntry.usesKind .rsn = true → m p = pEntry.rsnIe 0 →
      pEntry.rsnIeLen.toNat ≤ (m (p + 1)).toNat + 2 → 4 ≤ pEntry.rsnIeLen.toNat
  | none => True

/-- The comparison of an element succeeds. -/
def Accepts (p : ℕ) : Prop :=
  ∃ kind, rsnKind m p = some kind ∧ (pEntry.checkKind m p kind).2 = true

/-- An element is of the kind that the mode has compared. -/
def Compared (p : ℕ) : Prop := ∃ kind, rsnKind m p = some kind ∧ pEntry.usesKind kind = true

/-- An element is the stored one: id and octets, of an RSN element up to the last two of the stored
ones and perhaps with further octets behind. -/
def Agrees (p : ℕ) : Prop :=
  match rsnKind m p with
  | some .wpa => (m (p + 1)).toNat + 2 = pEntry.rsnIeLen.toNat ∧
      m.read p pEntry.rsnIeLen.toNat = pEntry.rsnIe.read 0 pEntry.rsnIeLen.toNat
  | some .rsn => pEntry.rsnIeLen.toNat ≤ (m (p + 1)).toNat + 2 ∧ m p = pEntry.rsnIe 0 ∧
      m.read (p + 2) (pEntry.rsnIeLen.toNat - 4) = pEntry.rsnIe.read 2 (pEntry.rsnIeLen.toNat - 4)
  | none => False

/-- An element is the stored one byte for byte, for RSN without the last two of each. -/
def Equals (p : ℕ) : Prop :=
  match rsnKind m p with
  | some .wpa => m.read p ((m (p + 1)).toNat + 2) = pEntry.rsnIe.read 0 pEntry.rsnIeLen.toNat
  | some .rsn =>
      m.read p ((m (p + 1)).toNat + 2 - 2) = pEntry.rsnIe.read 0 (pEntry.rsnIeLen.toNat - 2)
  | none => False

end RsnEntry

namespace RsnCall
variable (call : RsnCall)

def rtmpCheckRsnIe (fuel : ℕ) : Option RsnCheck :=
  call.pEntry.rsnLoop call.pData fuel 0 call.dataLen

/-- The leading elements of the key data. -/
def elements : List ℕ := leading call.pData call.dataLen.toNat 0

/-- The check ends, reads the key data only, returns TRUE only for an element that is the `same` as
the stored one, and leaves the length of the leading elements in `*Offset`. -/
def Sound (same : ℕ → Prop) : Prop :=
  ∃ fuel r, call.rtmpCheckRsnIe fuel = some r ∧ (∀ s ∈ r.reads, s.Inside call.dataLen.toNat) ∧
    (r.result = true → ∃ p ∈ call.elements, same p) ∧
    r.offset.toNat = leadingEnd call.pData call.dataLen.toNat 0

/-- The key data from a place on can be handled: no leading element is cut off, and the comparisons
stay inside. -/
structure StaysFrom (pEntry : RsnEntry) (m : Memory) (stop pos : ℕ) : Prop where
  complete : rsnIe2Size < stop - leadingEnd m stop pos → rsnKind m (leadingEnd m stop pos) = none
  compares : ∀ p ∈ leading m stop pos, pEntry.ComparesInside m stop p

/-- The key data can be handled. -/
def Stays : Prop := StaysFrom call.pEntry call.pData call.dataLen.toNat 0

/-- An element that agrees but is not equal, as it is longer, does not stand alone. -/
def NotLonger : Prop :=
  (∃ p ∈ call.elements, call.pEntry.Compared call.pData p ∧ call.pEntry.Agrees call.pData p) →
    ∃ p ∈ call.elements, call.pEntry.Equals call.pData p

end RsnCall

section Leading
variable {m : Memory} {stop pos : ℕ}

/-- One more complete element in front. -/
def Leads (m : Memory) (stop pos : ℕ) : Prop :=
  rsnIe2Size < stop - pos ∧ (rsnKind m pos).isSome ∧ eidStruct.next m pos ≤ stop

theorem leading_of_leads (h : Leads m stop pos) :
    leading m stop pos = pos :: leading m stop (eidStruct.next m pos) := by
  rw [leading]
  exact if_pos h

theorem leadingEnd_of_leads (h : Leads m stop pos) :
    leadingEnd m stop pos = leadingEnd m stop (eidStruct.next m pos) := by
  rw [leadingEnd]
  exact if_pos h

theorem leading_of_ends (h : ¬Leads m stop pos) : leading m stop pos = [] := by
  rw [leading]
  exact if_neg h

theorem leadingEnd_of_ends (h : ¬Leads m stop pos) : leadingEnd m stop pos = pos := by
  rw [leadingEnd]
  exact if_neg h

theorem leadingEnd_bounds (h : pos ≤ stop) :
    pos ≤ leadingEnd m stop pos ∧ leadingEnd m stop pos ≤ stop := by
  fun_induction leadingEnd m stop pos with
  | case1 pos hleads ih =>
    have hnext := eidStruct.lt_next m pos
    obtain ⟨hlow, hhigh⟩ := ih hleads.2.2
    exact ⟨by omega, hhigh⟩
  | case2 pos hends => exact ⟨Nat.le_refl pos, h⟩

theorem kindReads_inside (h : rsnIe2Size < stop - pos) :
    ∀ s ∈ kindReads m pos, s.Inside stop := by
  intro s hs
  have hshape : s = ⟨pos, 1⟩ ∨ s = ⟨pos + 2, 4⟩ ∨ s = ⟨pos + 4, 3⟩ := by
    simp only [kindReads, List.mem_cons] at hs
    split_ifs at hs <;> simp only [List.mem_singleton, List.not_mem_nil, or_false] at hs <;> tauto
  simp only [rsnIe2Size] at h
  rcases hshape with rfl | rfl | rfl <;> simp only [Span.Inside] <;> omega

/-- The size of an element is what both counters are changed by. -/
theorem next_eq_size (m : Memory) (pos : ℕ) :
    eidStruct.next m pos = pos + ((m (pos + 1)).toNat + 2) := by
  simp only [Tlv.next, Tlv.size, eidStruct]
  omega

/-- The counter of a complete element does not wrap. -/
theorem size_toNat (hroom : stop < 256) (h : eidStruct.next m pos ≤ stop) :
    (m (pos + 1) + 2).toNat = (m (pos + 1)).toNat + 2 := by
  rw [next_eq_size] at h
  have htwo : (2 : UInt8).toNat = 2 := rfl
  rw [UInt8.toNat_add, htwo]
  exact Nat.mod_eq_of_lt (by omega)

theorem left_toNat {len : UInt8} (hlen : len.toNat = stop - pos) (hroom : stop < 256)
    (h : eidStruct.next m pos ≤ stop) :
    (len - (m (pos + 1) + 2)).toNat = stop - eidStruct.next m pos := by
  have hsize := size_toNat hroom h
  rw [next_eq_size] at h ⊢
  rw [UInt8.toNat_sub_of_le _ _ (by rw [UInt8.le_iff_toNat_le, hsize, hlen]; omega), hsize, hlen]
  omega

end Leading

namespace RsnEntry
variable {pEntry : RsnEntry} {m : Memory} {stop pos fuel : ℕ} {len : UInt8}

theorem octetCount_eq (h : 4 ≤ pEntry.rsnIeLen.toNat) :
    pEntry.octetCount = pEntry.rsnIeLen.toNat - 4 := by
  have hle : (4 : UInt32) ≤ pEntry.rsnIeLen.toUInt32 := by
    rw [UInt32.le_iff_toNat_le, UInt8.toNat_toUInt32]
    exact h
  rw [octetCount, UInt32.toNat_sub_of_le _ _ hle, UInt8.toNat_toUInt32]
  rfl

/-- A stored length below four makes the count wrap. -/
theorem octetCount_wraps (h : pEntry.rsnIeLen.toNat < 4) : 256 ≤ pEntry.octetCount := by
  rw [octetCount, UInt32.toNat_sub, UInt8.toNat_toUInt32]
  have hfour : (4 : UInt32).toNat = 4 := rfl
  rw [hfour]
  omega

/-- What the comparison of a complete element reads. -/
theorem checkKind_inside {kind : RsnKind} (hroom : stop < 256) (hkind : rsnKind m pos = some kind)
    (hnext : eidStruct.next m pos ≤ stop) :
    (∀ s ∈ (pEntry.checkKind m pos kind).1, s.Inside stop) ↔ pEntry.ComparesInside m stop pos := by
  rw [next_eq_size] at hnext
  have hid : (⟨pos, 1⟩ : Span).Inside stop := by
    simp only [Span.Inside]
    omega
  have hlength : (⟨pos + 1, 1⟩ : Span).Inside stop := by
    simp only [Span.Inside]
    omega
  cases kind with
  | wpa =>
    simp only [checkKind, checkWpa, ComparesInside, hkind]
    split_ifs with huses hequal
    · rw [List.forall_mem_cons, List.forall_mem_singleton, and_iff_left hlength]
      exact ⟨fun h _ => h, fun h => h huses⟩
    · rw [List.forall_mem_singleton]
      exact ⟨fun h _ => h, fun h => h huses⟩
    · exact iff_of_true (by simp) fun h => absurd h huses
  | rsn =>
    simp only [checkKind, checkRsn, ComparesInside, hkind]
    split_ifs with huses hfirst hlong
    · rw [List.forall_mem_cons, List.forall_mem_cons, List.forall_mem_singleton, and_iff_right hid,
        and_iff_right hlength, forall_prop_of_true huses, forall_prop_of_true hfirst,
        forall_prop_of_true hlong]
      simp only [Span.Inside]
      constructor
      · intro hcount
        by_contra hshort
        have hwraps := pEntry.octetCount_wraps (Nat.not_le.mp hshort)
        omega
      · intro hfour
        rw [octetCount_eq hfour]
        omega
    · exact iff_of_true (by simp [hid, hlength]) fun _ _ h => absurd h hlong
    · exact iff_of_true (by simp [hid]) fun _ h => absurd h hfirst
    · exact iff_of_true (by simp) fun h => absurd h huses

/-- The accepted elements are those that are compared and agree with the stored one. -/
theorem accepts_iff {p : ℕ} (hinside : pEntry.ComparesInside m stop p) :
    pEntry.Accepts m p ↔ pEntry.Compared m p ∧ pEntry.Agrees m p := by
  cases hkind : rsnKind m p with
  | none => simp [Accepts, Compared, hkind]
  | some kind =>
    simp only [Accepts, Compared, hkind, Option.some.injEq, exists_eq_left']
    cases kind with
    | wpa =>
      simp only [checkKind, checkWpa, Agrees, hkind]
      split_ifs with huses hequal
      · simp [huses, hequal, eq_comm]
      · simp [hequal]
      · simp [huses]
    | rsn =>
      simp only [checkKind, checkRsn, Agrees, ComparesInside, hkind] at hinside ⊢
      split_ifs with huses hfirst hlong
      · simp [huses, hfirst, hlong, octetCount_eq (hinside huses hfirst hlong)]
      · simp [hlong]
      · simp [hfirst]
      · simp [huses]

theorem rsnLoop_short (h : len.toNat ≤ rsnIe2Size) :
    pEntry.rsnLoop m (fuel + 1) pos len = some ⟨[], false, 0⟩ := by
  rw [rsnLoop, if_pos h]

theorem rsnLoop_other (h : rsnIe2Size < len.toNat) (hkind : rsnKind m pos = none) :
    pEntry.rsnLoop m (fuel + 1) pos len = some ⟨kindReads m pos, false, 0⟩ := by
  rw [rsnLoop, if_neg (Nat.not_le.mpr h), hkind]

theorem rsnLoop_element {kind : RsnKind} (h : rsnIe2Size < len.toNat)
    (hkind : rsnKind m pos = some kind) :
    pEntry.rsnLoop m (fuel + 1) pos len =
      (pEntry.rsnLoop m fuel (eidStruct.next m pos) (len - (m (pos + 1) + 2))).map fun rest =>
        { reads := kindReads m pos ++ (pEntry.checkKind m pos kind).1 ++ ⟨pos + 1, 1⟩ :: rest.reads
          result := (pEntry.checkKind m pos kind).2 || rest.result
          offset := m (pos + 1) + 2 + rest.offset } := by
  rw [rsnLoop, if_neg (Nat.not_le.mpr h), hkind]

/-- More fuel changes nothing once the loop has ended. -/
theorem rsnLoop_mono {r : RsnCheck} (h : pEntry.rsnLoop m fuel pos len = some r) (more : ℕ) :
    pEntry.rsnLoop m (fuel + more) pos len = some r := by
  induction fuel generalizing pos len r with
  | zero => cases h
  | succ fuel ih =>
    rw [Nat.succ_add]
    by_cases hshort : len.toNat ≤ rsnIe2Size
    · rwa [rsnLoop_short hshort] at h ⊢
    · cases hkind : rsnKind m pos with
      | none => rwa [rsnLoop_other (Nat.not_le.mp hshort) hkind] at h ⊢
      | some kind =>
        rw [rsnLoop_element (Nat.not_le.mp hshort) hkind, Option.map_eq_some_iff] at h
        obtain ⟨rest, hrest, rfl⟩ := h
        rw [rsnLoop_element (Nat.not_le.mp hshort) hkind, ih hrest]
        rfl

end RsnEntry

namespace RsnCall
variable {pEntry : RsnEntry} {m : Memory} {stop pos fuel : ℕ} {len : UInt8}

/-- What the loop leaves behind the elements that have been passed. -/
structure Leaves (pEntry : RsnEntry) (m : Memory) (stop pos : ℕ) (r : RsnCheck) : Prop where
  inside : ∀ s ∈ r.reads, s.Inside stop
  accepted : r.result = true ↔ ∃ p ∈ leading m stop pos, pEntry.Accepts m p
  offset : r.offset.toNat = leadingEnd m stop pos - pos

theorem StaysFrom.next (h : StaysFrom pEntry m stop pos) (hleads : Leads m stop pos) :
    pEntry.ComparesInside m stop pos ∧ StaysFrom pEntry m stop (eidStruct.next m pos) := by
  obtain ⟨hcomplete, hcompares⟩ := h
  rw [leadingEnd_of_leads hleads] at hcomplete
  rw [leading_of_leads hleads, List.forall_mem_cons] at hcompares
  exact ⟨hcompares.1, hcomplete, hcompares.2⟩

/-- By induction over the leading elements; the counter is what is left of the key data. -/
theorem rsnLoop_leaves (hroom : stop < 256) (hpos : pos ≤ stop) (hlen : len.toNat = stop - pos)
    (hstays : StaysFrom pEntry m stop pos) (hfuel : (leading m stop pos).length < fuel) :
    ∃ r, pEntry.rsnLoop m fuel pos len = some r ∧ Leaves pEntry m stop pos r := by
  induction fuel generalizing pos len with
  | zero => cases hfuel
  | succ fuel ih =>
    by_cases hshort : len.toNat ≤ rsnIe2Size
    · have hends : ¬Leads m stop pos := fun h => by
        have := h.1
        omega
      refine ⟨_, RsnEntry.rsnLoop_short hshort, by simp, ?_, ?_⟩
      · simp [leading_of_ends hends]
      · simp [leadingEnd_of_ends hends]
    have hlong : rsnIe2Size < stop - pos := hlen ▸ Nat.not_le.mp hshort
    cases hkind : rsnKind m pos with
    | none =>
      have hends : ¬Leads m stop pos := fun h => by simp [Leads, hkind] at h
      refine ⟨_, RsnEntry.rsnLoop_other (Nat.not_le.mp hshort) hkind, kindReads_inside hlong, ?_, ?_⟩
      · simp [leading_of_ends hends]
      · simp [leadingEnd_of_ends hends]
    | some kind =>
      have hleads : Leads m stop pos := by
        by_contra hends
        have hcomplete := hstays.complete
        rw [leadingEnd_of_ends hends, hkind] at hcomplete
        exact nomatch hcomplete hlong
      obtain ⟨hcompares, hrest⟩ := hstays.next hleads
      have hnext := hleads.2.2
      rw [leading_of_leads hleads, List.length_cons] at hfuel
      obtain ⟨rest, hloop, hinside, haccepted, hoffset⟩ :=
        ih hnext (left_toNat hlen hroom hnext) hrest (by omega)
      refine ⟨_, by rw [RsnEntry.rsnLoop_element (Nat.not_le.mp hshort) hkind, hloop]; rfl, ?_, ?_, ?_⟩
      · rw [List.forall_mem_append, List.forall_mem_append, List.forall_mem_cons]
        have hlength : (⟨pos + 1, 1⟩ : Span).Inside stop := by
          rw [next_eq_size] at hnext
          simp only [Span.Inside]
          omega
        exact ⟨⟨kindReads_inside hlong, (RsnEntry.checkKind_inside hroom hkind hnext).mpr hcompares⟩,
          hlength, hinside⟩
      · have hfirst : pEntry.Accepts m pos ↔ (pEntry.checkKind m pos kind).2 = true := by
          simp only [RsnEntry.Accepts, hkind, Option.some.injEq, exists_eq_left']
        simp only [leading_of_leads hleads, List.mem_cons, exists_eq_or_imp, Bool.or_eq_true,
          haccepted, hfirst]
      · have hsize := size_toNat hroom hnext
        have hbounds := leadingEnd_bounds (m := m) hnext
        rw [leadingEnd_of_leads hleads, UInt8.toNat_add, hsize, hoffset, Nat.mod_eq_of_lt (by
          rw [next_eq_size] at hbounds ⊢
          omega)]
        rw [next_eq_size] at hbounds ⊢
        omega

/-- A cut element makes the counter of the offset wrong, or the next header is read behind it. -/
theorem cut_impossible {kind : RsnKind} {r : RsnCheck} (hlong : rsnIe2Size < len.toNat)
    (hkind : rsnKind m pos = some kind) (hcut : stop < eidStruct.next m pos)
    (hloop : pEntry.rsnLoop m (fuel + 1) pos len = some r)
    (hinside : ∀ s ∈ r.reads, s.Inside stop) : r.offset ≠ 0 := by
  rw [RsnEntry.rsnLoop_element hlong hkind, Option.map_eq_some_iff] at hloop
  obtain ⟨rest, hrest, rfl⟩ := hloop
  rw [List.forall_mem_append, List.forall_mem_cons] at hinside
  cases fuel with
  | zero => cases hrest
  | succ fuel =>
    by_cases hshort : (len - (m (pos + 1) + 2)).toNat ≤ rsnIe2Size
    · rw [RsnEntry.rsnLoop_short hshort] at hrest
      cases hrest
      intro hzero
      have hsize : m (pos + 1) + 2 = 0 := by simpa using hzero
      rw [hsize, UInt8.sub_zero] at hshort
      omega
    · have hread : (⟨eidStruct.next m pos, 1⟩ : Span) ∈ rest.reads := by
        cases hother : rsnKind m (eidStruct.next m pos) with
        | none =>
          rw [RsnEntry.rsnLoop_other (Nat.not_le.mp hshort) hother] at hrest
          cases hrest
          exact List.mem_cons_self
        | some kind' =>
          rw [RsnEntry.rsnLoop_element (Nat.not_le.mp hshort) hother, Option.map_eq_some_iff] at hrest
          obtain ⟨_, -, rfl⟩ := hrest
          exact List.mem_append_left _ (List.mem_append_left _ List.mem_cons_self)
      have houtside := hinside.2.2 _ hread
      simp only [Span.Inside] at houtside
      omega

/-- What the loop reads and counts tells that no element is cut off. -/
theorem rsnLoop_stays {r : RsnCheck} (hroom : stop < 256) (hpos : pos ≤ stop)
    (hlen : len.toNat = stop - pos) (hloop : pEntry.rsnLoop m fuel pos len = some r)
    (hinside : ∀ s ∈ r.reads, s.Inside stop)
    (hoffset : r.offset.toNat = leadingEnd m stop pos - pos) : StaysFrom pEntry m stop pos := by
  induction fuel generalizing pos len r with
  | zero => cases hloop
  | succ fuel ih =>
    by_cases hleads : Leads m stop pos
    · obtain ⟨hlong, hsome, hnext⟩ := hleads
      obtain ⟨kind, hkind⟩ := Option.isSome_iff_exists.mp hsome
      rw [RsnEntry.rsnLoop_element (hlen ▸ hlong) hkind, Option.map_eq_some_iff] at hloop
      obtain ⟨rest, hrest, rfl⟩ := hloop
      rw [List.forall_mem_append, List.forall_mem_append, List.forall_mem_cons] at hinside
      have hsize := size_toNat hroom hnext
      have hbounds := leadingEnd_bounds (m := m) hnext
      have hbehind : rest.offset.toNat =
          leadingEnd m stop (eidStruct.next m pos) - eidStruct.next m pos := by
        rw [leadingEnd_of_leads ⟨hlong, hsome, hnext⟩, UInt8.toNat_add, hsize] at hoffset
        have hrange := rest.offset.toNat_lt
        rw [next_eq_size] at hbounds hoffset ⊢
        omega
      obtain ⟨hcomplete, hcompares⟩ :=
        ih hnext (left_toNat hlen hroom hnext) hrest hinside.2.2 hbehind
      have hfirst := (RsnEntry.checkKind_inside hroom hkind hnext).mp hinside.1.2
      constructor
      · rwa [leadingEnd_of_leads ⟨hlong, hsome, hnext⟩]
      · rw [leading_of_leads ⟨hlong, hsome, hnext⟩, List.forall_mem_cons]
        exact ⟨hfirst, hcompares⟩
    · constructor
      · rw [leadingEnd_of_ends hleads] at hoffset ⊢
        intro hlong
        by_contra hsome
        obtain ⟨kind, hkind⟩ := Option.ne_none_iff_exists'.mp hsome
        have hcut : stop < eidStruct.next m pos := by
          by_contra hle
          exact hleads ⟨hlong, by simp [hkind], Nat.not_lt.mp hle⟩
        apply cut_impossible (hlen ▸ hlong) hkind hcut hloop hinside
        rw [Nat.sub_self] at hoffset
        exact UInt8.toNat_inj.mp hoffset
      · simp [leading_of_ends hleads]

/-- Whatever `same` means: the key data can be handled, and an accepted element is not alone. -/
theorem sound_iff_stays (call : RsnCall) (same : ℕ → Prop) : call.Sound same ↔
    call.Stays ∧ ((∃ p ∈ call.elements, call.pEntry.Accepts call.pData p) →
      ∃ p ∈ call.elements, same p) := by
  have hroom := call.dataLen.toNat_lt
  constructor
  · rintro ⟨fuel, r, hcheck, hinside, hresult, hoffset⟩
    have hstays : call.Stays := rsnLoop_stays hroom (Nat.zero_le _) rfl hcheck hinside hoffset
    refine ⟨hstays, fun haccepted => hresult ?_⟩
    let more := (leading call.pData call.dataLen.toNat 0).length + 1
    obtain ⟨r', hcheck', -, hr', -⟩ := rsnLoop_leaves hroom (Nat.zero_le _) rfl hstays
      (show (leading call.pData call.dataLen.toNat 0).length < fuel + more by omega)
    have hsame : r' = r :=
      Option.some.inj (hcheck'.symm.trans (RsnEntry.rsnLoop_mono hcheck more))
    exact hsame ▸ hr'.mpr haccepted
  · rintro ⟨hstays, hsame⟩
    obtain ⟨r, hcheck, hinside, haccepted, hoffset⟩ :=
      rsnLoop_leaves hroom (Nat.zero_le _) rfl hstays (Nat.lt_succ_self _)
    exact ⟨_, r, hcheck, hinside, fun hresult => hsame (haccepted.mp hresult), hoffset⟩

theorem accepted_iff {call : RsnCall} (hstays : call.Stays) :
    (∃ p ∈ call.elements, call.pEntry.Accepts call.pData p) ↔
      ∃ p ∈ call.elements, call.pEntry.Compared call.pData p ∧ call.pEntry.Agrees call.pData p := by
  apply exists_congr
  intro p
  apply and_congr_right
  intro hp
  exact RsnEntry.accepts_iff (hstays.compares p hp)

/-- The check does what it should when no leading element is cut off and the comparisons stay inside;
an accepted RSN element may be longer than the stored one. -/
theorem rtmpCheckRsnIe_sound_iff (call : RsnCall) :
    (call.Sound (call.pEntry.Equals call.pData) ↔ call.Stays ∧ call.NotLonger) ∧
      (call.Sound (call.pEntry.Agrees call.pData) ↔ call.Stays) := by
  constructor
  · rw [sound_iff_stays]
    apply and_congr_right
    intro hstays
    rw [accepted_iff hstays, NotLonger]
  · rw [sound_iff_stays, and_iff_left_iff_imp]
    intro hstays haccepted
    obtain ⟨p, hp, -, hagrees⟩ := (accepted_iff hstays).mp haccepted
    exact ⟨p, hp, hagrees⟩

/-- 22 bytes that begin with an RSN element of 100. -/
def cutElement : RsnCall where
  pData := fun i => [0x30, 0x64, 0x01, 0x00, 0x00, 0x0f, 0xac, 0x04, 0x01, 0x00, 0x00, 0x0f, 0xac,
    0x04, 0x01, 0x00, 0x00, 0x0f, 0xac, 0x02, 0x00, 0x00].getD i 0
  dataLen := 22
  pEntry :=
    { authMode := .wpa2Psk
      rsnIe := fun i => [0x30, 0x14, 0x01, 0x00, 0x00, 0x0f, 0xac, 0x04, 0x01, 0x00, 0x00, 0x0f,
        0xac, 0x04, 0x01, 0x00, 0x00, 0x0f, 0xac, 0x02, 0x00, 0x00].getD i 0
      rsnIeLen := 22 }

/-- The element behind the 100 bytes is read, whatever an equal element is taken to be. -/
theorem cutElement_unsound : ¬cutElement.Sound (cutElement.pEntry.Equals cutElement.pData) ∧
    ¬cutElement.Sound (cutElement.pEntry.Agrees cutElement.pData) := by
  have hends : ¬Leads cutElement.pData cutElement.dataLen.toNat 0 := fun h =>
    absurd h.2.2 (by decide)
  have hcut : ¬cutElement.Stays := by
    intro hstays
    have hcomplete := hstays.complete
    rw [leadingEnd_of_ends hends] at hcomplete
    exact absurd (hcomplete (by decide)) (by decide)
  constructor
  · exact fun h => hcut ((sound_iff_stays _ _).mp h).1
  · exact fun h => hcut ((sound_iff_stays _ _).mp h).1

end RsnCall
end Rt5572

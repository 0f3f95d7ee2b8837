import StandaloneDrivers.Rt5572.BssCipher

/-! The elements of probe requests and of DLS frames: `PeerProbeReqSanity`, `PeerDlsReqSanity` and
`PeerDlsRspSanity` (common/cmm_sanity.c). A frame lies in memory from 0 on. -/
namespace Rt5572
open Foundations
open BssTab (eidStruct)

abbrev ieSsid : UInt8 := 0
abbrev ieSuppRates : UInt8 := 1
abbrev ieHtCap : UInt8 := 45
abbrev ieExtSuppRates : UInt8 := 50
abbrev ieVendorSpecific : UInt8 := 221

/-- `sizeof(HT_CAPABILITY_IE)` -/
abbrev htCapabilitySize : ℕ := 26

def ralinkOui : List UInt8 := [0x00, 0x0c, 0x43]

/-- What has been read of the frame, and what is left. -/
structure Parsed (σ : Type) where
  reads : List Span
  out : σ

section Walk
variable {σ : Type} (m : Memory) (visit : ℕ → σ → Parsed σ)

/-- The loop over the elements, which reads the length of the next one first. -/
def eidWalk (stop pos : ℕ) (s : σ) : Parsed σ :=
  if pos + (m (pos + 1)).toNat + 1 < stop then
    let r := visit pos s
    let rest := eidWalk stop (eidStruct.next m pos) r.out
    ⟨⟨pos + 1, 1⟩ :: ⟨pos, 1⟩ :: r.reads ++ rest.reads, rest.out⟩
  else ⟨[⟨pos + 1, 1⟩], s⟩
  termination_by stop - pos
  decreasing_by
    have := eidStruct.lt_next m pos
    omega

end Walk

/-- `Rates` and `*pRatesLen`, with the places of `Rates` that were written. -/
structure SupportedRates where
  rates : Memory
  ratesLen : UInt8
  writes : List Span

def SupportedRates.put (r : SupportedRates) (i : ℕ) (bytes : List UInt8) (ratesLen : UInt8) :
    SupportedRates :=
  ⟨r.rates.write i bytes, ratesLen, r.writes ++ [⟨i, bytes.length⟩]⟩

/-- The rates that stand for a list of a wrong length. -/
def defaultRates : List UInt8 := [0x82, 0x84, 0x8b, 0x96, 0x12, 0x24, 0x48, 0x6c]

structure DlsElements extends SupportedRates where
  htCapabilityLen : ℕ
  htCapability : List UInt8

structure DlsRequest where
  da : List UInt8
  sa : List UInt8
  capabilityInfo : ℕ
  dlsTimeout : ℕ
  elements : DlsElements

/-- `status` is there when `pStatus` is, `capabilityInfo` is 0 then. -/
structure DlsResponse where
  status : Option ℕ
  da : List UInt8
  sa : List UInt8
  capabilityInfo : ℕ
  elements : DlsElements

/-- `ssid` is as long as `*SsidLen` says. -/
structure ProbeRequest where
  accepted : Bool
  addr2 : List UInt8
  ssid : List UInt8
  rssiRequested : Option Bool

section Code
variable (m : Memory)

/-- `case IE_SUPP_RATES` -/
def suppRates (pos : ℕ) (r : SupportedRates) : Parsed SupportedRates :=
  let len := m (pos + 1)
  if len.toNat ≤ BssTab.maxLenOfSupportedRates ∧ 0 < len then
    ⟨[⟨pos + 2, len.toNat⟩], r.put 0 (m.read (pos + 2) len.toNat) len⟩
  else ⟨[], r.put 0 defaultRates 8⟩

/-- `case IE_EXT_SUPP_RATES`; the difference becomes a `size_t`. -/
def extSuppRates (pos : ℕ) (r : SupportedRates) : Parsed SupportedRates :=
  let len := m (pos + 1)
  if len.toNat + r.ratesLen.toNat ≤ BssTab.maxLenOfSupportedRates then
    ⟨[⟨pos + 2, len.toNat⟩],
      r.put r.ratesLen.toNat (m.read (pos + 2) len.toNat) (r.ratesLen + len)⟩
  else
    let count : UInt32 := 12 - r.ratesLen.toUInt32
    ⟨[⟨pos + 2, count.toNat⟩], r.put r.ratesLen.toNat (m.read (pos + 2) count.toNat) 12⟩

def dlsElement (pos : ℕ) (e : DlsElements) : Parsed DlsElements :=
  if m pos = ieSuppRates then
    let r := suppRates m pos e.toSupportedRates
    ⟨r.reads, { e with toSupportedRates := r.out }⟩
  else if m pos = ieExtSuppRates then
    let r := extSuppRates m pos e.toSupportedRates
    ⟨r.reads, { e with toSupportedRates := r.out }⟩
  else if m pos = ieHtCap then
    if htCapabilitySize ≤ (m (pos + 1)).toNat then
      ⟨[⟨pos + 2, htCapabilitySize⟩],
        { e with
          htCapability := m.read (pos + 2) htCapabilitySize
          htCapabilityLen := htCapabilitySize }⟩
    else ⟨[], e⟩
  else ⟨[], e⟩

variable (msgLen : UInt32)

/-- `PeerDlsReqSanity`, which returns TRUE; `Rates`, `*pRatesLen` and `*pHtCapability` are what the
caller has left in them. -/
def peerDlsReqSanity (rates : Memory) (ratesLen : UInt8) (htCapability : List UInt8) :
    Parsed DlsRequest :=
  let walk := eidWalk m (dlsElement m) msgLen.toNat 42 ⟨⟨rates, ratesLen, []⟩, 0, htCapability⟩
  { reads := ⟨26, 6⟩ :: ⟨32, 6⟩ :: ⟨38, 2⟩ :: ⟨40, 2⟩ :: walk.reads
    out :=
      { da := m.read 26 6
        sa := m.read 32 6
        capabilityInfo := m.le16 38
        dlsTimeout := m.le16 40
        elements := walk.out } }

/-- `PeerDlsRspSanity`, which returns TRUE; `pStatus` tells whether it points to a status. -/
def peerDlsRspSanity (pStatus : Bool) (rates : Memory) (ratesLen : UInt8)
    (htCapability : List UInt8) : Parsed DlsResponse :=
  let walk := eidWalk m (dlsElement m) msgLen.toNat 42 ⟨⟨rates, ratesLen, []⟩, 0, htCapability⟩
  { reads := (if pStatus then [⟨26, 2⟩] else []) ++ ⟨28, 6⟩ :: ⟨34, 6⟩ ::
      (if pStatus then [] else [⟨40, 2⟩]) ++ walk.reads
    out :=
      { status := if pStatus then some (m.le16 26) else none
        da := m.read 28 6
        sa := m.read 34 6
        capabilityInfo := if pStatus then 0 else m.le16 40
        elements := walk.out } }

/-- The vendor elements of a probe request; `bRssiRequested` may be NULL. -/
def probeElement (pos : ℕ) (bRssiRequested : Option Bool) : Parsed (Option Bool) :=
  if m pos = ieVendorSpecific ∧ 4 < (m (pos + 1)).toNat then
    match bRssiRequested with
    | some requested =>
        if m.read (pos + 2) 3 = ralinkOui ∧ m (pos + 1) = 7 then
          ⟨[⟨pos + 2, 3⟩, ⟨pos + 5, 1⟩], some (requested || m (pos + 5) &&& 8 != 0)⟩
        else ⟨[⟨pos + 2, 3⟩, ⟨pos + 2, 4⟩], some requested⟩
    | none => ⟨[⟨pos + 2, 4⟩], none⟩
  else ⟨[], bRssiRequested⟩

/-- The loop over the elements, which has read the header of the next one first. -/
def probeWalk (stop pos : ℕ) (bRssiRequested : Option Bool) : Parsed (Option Bool) :=
  if pos + 2 + (m (pos + 1)).toNat ≤ stop then
    let r := probeElement m pos bRssiRequested
    let rest := probeWalk stop (eidStruct.next m pos) r.out
    ⟨⟨pos, 1⟩ :: ⟨pos + 1, 1⟩ :: r.reads ++ rest.reads, rest.out⟩
  else ⟨[⟨pos, 1⟩, ⟨pos + 1, 1⟩], bRssiRequested⟩
  termination_by stop - pos
  decreasing_by
    have := eidStruct.lt_next m pos
    omega

/-- `PeerProbeReqSanity` -/
def peerProbeReqSanity (bRssiRequested : Option Bool) : Parsed ProbeRequest :=
  if m 24 ≠ ieSsid then
    ⟨[⟨10, 6⟩, ⟨24, 1⟩], ⟨false, m.read 10 6, [], bRssiRequested⟩⟩
  else if 32 < (m 25).toNat then
    ⟨[⟨10, 6⟩, ⟨24, 1⟩, ⟨25, 1⟩], ⟨false, m.read 10 6, [], bRssiRequested⟩⟩
  else
    let walk := probeWalk m msgLen.toNat 24 bRssiRequested
    ⟨⟨10, 6⟩ :: ⟨24, 1⟩ :: ⟨25, 1⟩ :: ⟨26, (m 25).toNat⟩ :: walk.reads,
      ⟨true, m.read 10 6, m.read 26 (m 25).toNat, walk.out⟩⟩

end Code

section Walks
variable {σ : Type} {m : Memory} {visit : ℕ → σ → Parsed σ} {stop pos : ℕ} {s : σ}

theorem eidStruct_next : eidStruct.next m pos = pos + 2 + (m (pos + 1)).toNat := by
  simp only [Tlv.next, Tlv.size, eidStruct, Nat.add_assoc]

theorem eidWalk_of_complete (h : eidStruct.next m pos ≤ stop) :
    eidWalk m visit stop pos s =
      ⟨⟨pos + 1, 1⟩ :: ⟨pos, 1⟩ :: (visit pos s).reads ++
        (eidWalk m visit stop (eidStruct.next m pos) (visit pos s).out).reads,
        (eidWalk m visit stop (eidStruct.next m pos) (visit pos s).out).out⟩ := by
  have hnext : eidStruct.next m pos = pos + 2 + (m (pos + 1)).toNat := eidStruct_next
  rw [eidWalk, if_pos (by omega)]

theorem eidWalk_of_cut (h : stop < eidStruct.next m pos) :
    eidWalk m visit stop pos s = ⟨[⟨pos + 1, 1⟩], s⟩ := by
  have hnext : eidStruct.next m pos = pos + 2 + (m (pos + 1)).toNat := eidStruct_next
  rw [eidWalk, if_neg (by omega)]

/-- What every visit keeps. -/
theorem eidWalk_invariant {I : σ → Prop}
    (hvisit : ∀ p s, eidStruct.next m p ≤ stop → I s → I (visit p s).out) (h : I s) :
    I (eidWalk m visit stop pos s).out := by
  fun_induction Tlv.items eidStruct m stop pos generalizing s with
  | case1 pos hle ih =>
    rw [eidWalk_of_complete hle]
    exact ih (hvisit pos s hle h)
  | case2 pos hlt =>
    rw [eidWalk_of_cut (Nat.not_le.mp hlt)]
    exact h

/-- The header of a complete element lies inside. -/
theorem eidWalk_reads (h : eidStruct.next m pos ≤ stop) :
    (∀ r ∈ (eidWalk m visit stop pos s).reads, r.Inside stop) ↔
      (∀ r ∈ (visit pos s).reads, r.Inside stop) ∧
        ∀ r ∈ (eidWalk m visit stop (eidStruct.next m pos) (visit pos s).out).reads,
          r.Inside stop := by
  have hroom : pos + 2 ≤ stop := Nat.le_trans (eidStruct.header_le_next m pos) h
  have hid : (⟨pos, 1⟩ : Span).Inside stop := Nat.le_trans (Nat.le_succ (pos + 1)) hroom
  have hlen : (⟨pos + 1, 1⟩ : Span).Inside stop := hroom
  rw [eidWalk_of_complete h, List.cons_append, List.cons_append, List.forall_mem_cons,
    List.forall_mem_cons, and_iff_right hlen, and_iff_right hid, List.forall_mem_append]

/-- The walk stays inside when the length behind its end does, and what is read of the elements. -/
theorem eidWalk_inside {I : σ → Prop} {P : ℕ → Prop}
    (hkeeps : ∀ p s, eidStruct.next m p ≤ stop → I s → I (visit p s).out)
    (hreads : ∀ p s, eidStruct.next m p ≤ stop → I s →
      ((∀ r ∈ (visit p s).reads, r.Inside stop) ↔ P p)) (h : I s) :
    (∀ r ∈ (eidWalk m visit stop pos s).reads, r.Inside stop) ↔
      eidStruct.itemsEnd m stop pos + 2 ≤ stop ∧ ∀ p ∈ eidStruct.items m stop pos, P p := by
  fun_induction Tlv.items eidStruct m stop pos generalizing s with
  | case1 pos hle ih =>
    rw [Tlv.itemsEnd_of_complete hle, eidWalk_reads hle, hreads pos s hle h,
      ih (hkeeps pos s hle h), List.forall_mem_cons]
    exact and_left_comm
  | case2 pos hlt =>
    rw [Tlv.itemsEnd_of_cut (Nat.not_le.mp hlt), eidWalk_of_cut (Nat.not_le.mp hlt),
      List.forall_mem_singleton, and_iff_left fun p hp => absurd hp List.not_mem_nil]
    rfl

theorem le_itemsEnd (stop pos : ℕ) : pos ≤ eidStruct.itemsEnd m stop pos := by
  fun_induction Tlv.itemsEnd eidStruct m stop pos with
  | case1 pos hle ih => exact Nat.le_trans (Nat.le_of_lt (eidStruct.lt_next m pos)) ih
  | case2 pos hlt => exact Nat.le_refl pos

end Walks

section Rates
variable {m : Memory} {stop pos : ℕ}

/-- Nothing outside of the array was written. -/
def SupportedRates.Stays (r : SupportedRates) : Prop :=
  ∀ w ∈ r.writes, w.Inside BssTab.maxLenOfSupportedRates

/-- The rates that the next list is appended to are not more than the array holds. -/
def SupportedRates.Kept (r : SupportedRates) : Prop :=
  r.ratesLen.toNat ≤ BssTab.maxLenOfSupportedRates ∧ r.Stays

theorem SupportedRates.put_stays {r : SupportedRates} {i : ℕ} {bytes : List UInt8} {len : UInt8} :
    (r.put i bytes len).Stays ↔ r.Stays ∧ i + bytes.length ≤ BssTab.maxLenOfSupportedRates := by
  simp only [Stays, put, List.forall_mem_append, List.forall_mem_singleton, Span.Inside]

theorem suppRates_kept {r : SupportedRates} (h : r.Stays) : (suppRates m pos r).out.Kept := by
  simp only [suppRates]
  split_ifs with hlen
  · refine ⟨hlen.1, SupportedRates.put_stays.mpr ⟨h, ?_⟩⟩
    rw [Memory.read_length, Nat.zero_add]
    exact hlen.1
  · exact ⟨show (8 : UInt8).toNat ≤ 12 by decide, SupportedRates.put_stays.mpr ⟨h, by decide⟩⟩

theorem suppRates_inside {r : SupportedRates} (h : eidStruct.next m pos ≤ stop) :
    ∀ s ∈ (suppRates m pos r).reads, s.Inside stop := by
  rw [eidStruct_next] at h
  simp only [suppRates]
  split_ifs
  · rw [List.forall_mem_singleton]
    exact h
  · simp

/-- The room behind the rates, as a `size_t`. -/
theorem ratesRoom {len : UInt8} (h : len.toNat ≤ BssTab.maxLenOfSupportedRates) :
    (12 - len.toUInt32).toNat = BssTab.maxLenOfSupportedRates - len.toNat := by
  have hle : len.toUInt32 ≤ 12 := by
    rw [UInt32.le_iff_toNat_le, UInt8.toNat_toUInt32]
    exact h
  rw [UInt32.toNat_sub_of_le _ _ hle, UInt8.toNat_toUInt32]
  rfl

theorem extSuppRates_kept {r : SupportedRates} (h : r.Kept) : (extSuppRates m pos r).out.Kept := by
  obtain ⟨hlen, hstays⟩ := h
  simp only [extSuppRates]
  split_ifs with hsum
  · refine ⟨?_, SupportedRates.put_stays.mpr ⟨hstays, ?_⟩⟩
    · simp only [SupportedRates.put, UInt8.toNat_add]
      omega
    · rw [Memory.read_length]
      omega
  · refine ⟨Nat.le_refl 12, SupportedRates.put_stays.mpr ⟨hstays, ?_⟩⟩
    rw [Memory.read_length, ratesRoom hlen]
    omega

theorem extSuppRates_inside {r : SupportedRates} (hkept : r.Kept)
    (h : eidStruct.next m pos ≤ stop) : ∀ s ∈ (extSuppRates m pos r).reads, s.Inside stop := by
  obtain ⟨hlen, -⟩ := hkept
  rw [eidStruct_next] at h
  simp only [extSuppRates]
  split_ifs with hsum
  · rw [List.forall_mem_singleton]
    exact h
  · rw [List.forall_mem_singleton, ratesRoom hlen]
    simp only [Span.Inside]
    omega

/-- More rates than the array holds make the count wrap. -/
theorem extSuppRates_overruns {r : SupportedRates}
    (h : BssTab.maxLenOfSupportedRates < r.ratesLen.toNat) :
    ¬(extSuppRates m pos r).out.Stays := by
  simp only [extSuppRates]
  rw [if_neg (by omega), SupportedRates.put_stays, not_and, Memory.read_length]
  omega

theorem extSuppRates_stays {r : SupportedRates} (h : (extSuppRates m pos r).out.Stays) :
    r.Stays := by
  simp only [extSuppRates] at h
  split_ifs at h
  · exact (SupportedRates.put_stays.mp h).1
  · exact (SupportedRates.put_stays.mp h).1

theorem dlsElement_kept {e : DlsElements} (h : e.Kept) : (dlsElement m pos e).out.Kept := by
  rw [dlsElement]
  split_ifs
  · exact suppRates_kept h.2
  · exact extSuppRates_kept h
  · exact h
  · exact h
  · exact h

theorem dlsElement_inside {e : DlsElements} (hkept : e.Kept) (h : eidStruct.next m pos ≤ stop) :
    ∀ s ∈ (dlsElement m pos e).reads, s.Inside stop := by
  rw [dlsElement]
  split_ifs with _ _ _ hlen
  · exact suppRates_inside h
  · exact extSuppRates_inside hkept h
  · rw [eidStruct_next] at h
    rw [List.forall_mem_singleton]
    simp only [Span.Inside]
    omega
  · simp
  · simp

theorem dlsElement_stays {e : DlsElements} (h : (dlsElement m pos e).out.Stays) : e.Stays := by
  rw [dlsElement] at h
  split_ifs at h
  · simp only [suppRates] at h
    split_ifs at h
    · exact (SupportedRates.put_stays.mp h).1
    · exact (SupportedRates.put_stays.mp h).1
  · exact extSuppRates_stays h
  · exact h
  · exact h
  · exact h

theorem dlsWalk_stays {e : DlsElements} (h : (eidWalk m (dlsElement m) stop pos e).out.Stays) :
    e.Stays := by
  by_contra hout
  have hstep : ∀ p (s : DlsElements), eidStruct.next m p ≤ stop → ¬s.Stays →
      ¬(dlsElement m p s).out.Stays := fun p s _ hs hstays => hs (dlsElement_stays hstays)
  exact eidWalk_invariant (I := fun s : DlsElements => ¬s.Stays) hstep hout h

theorem dlsWalk_kept {e : DlsElements} (h : e.Kept) :
    (eidWalk m (dlsElement m) stop pos e).out.Kept :=
  eidWalk_invariant (I := fun s : DlsElements => s.Kept) (fun _ _ _ hs => dlsElement_kept hs) h

/-- A list of supported rates stands before the first list of further ones, unless the caller has
set the number of rates. -/
def RatesFit (m : Memory) (places : List ℕ) (ratesLen : UInt8) : Prop :=
  ratesLen.toNat ≤ BssTab.maxLenOfSupportedRates ∨
    ∀ p, places.find? (fun p => m p = ieSuppRates ∨ m p = ieExtSuppRates) = some p →
      m p = ieSuppRates

theorem dlsWalk_inside {e : DlsElements} (h : e.Kept) :
    (∀ r ∈ (eidWalk m (dlsElement m) stop pos e).reads, r.Inside stop) ↔
      eidStruct.itemsEnd m stop pos + 2 ≤ stop := by
  have hwalk : _ ↔ _ ∧ ∀ p ∈ eidStruct.items m stop pos, True :=
    eidWalk_inside (I := fun s : DlsElements => s.Kept) (fun _ _ _ hs => dlsElement_kept hs)
      (fun p s hp hs => iff_of_true (dlsElement_inside hs hp) trivial) h
  exact hwalk.trans (and_iff_left fun _ _ => trivial)

/-- Only bytes of the frame are read, and nothing outside of `Rates` is written. -/
theorem dlsWalk_iff {e : DlsElements} (h : e.Stays) :
    (∀ r ∈ (eidWalk m (dlsElement m) stop pos e).reads, r.Inside stop) ∧
        (eidWalk m (dlsElement m) stop pos e).out.Stays ↔
      eidStruct.itemsEnd m stop pos + 2 ≤ stop ∧
        RatesFit m (eidStruct.items m stop pos) e.ratesLen := by
  by_cases hlen : e.ratesLen.toNat ≤ BssTab.maxLenOfSupportedRates
  · have hkept : e.Kept := ⟨hlen, h⟩
    rw [dlsWalk_inside hkept, and_iff_left (dlsWalk_kept hkept).2]
    exact (and_iff_left (Or.inl hlen)).symm
  · rw [RatesFit, or_iff_right hlen]
    fun_induction Tlv.items eidStruct m stop pos generalizing e with
    | case1 pos hle ih =>
      rw [Tlv.itemsEnd_of_complete hle, eidWalk_reads hle, eidWalk_of_complete hle]
      by_cases hsupp : m pos = ieSuppRates
      · have hout : (dlsElement m pos e).out.Kept := by
          rw [dlsElement, if_pos hsupp]
          exact suppRates_kept h
        have hfirst : ∀ s ∈ (dlsElement m pos e).reads, s.Inside stop := by
          rw [dlsElement, if_pos hsupp]
          exact suppRates_inside hle
        rw [and_iff_right hfirst, dlsWalk_inside hout, and_iff_left (dlsWalk_kept hout).2,
          List.find?_cons_of_pos (by simp [hsupp]), and_iff_left]
        intro p hp
        rw [← Option.some.inj hp]
        exact hsupp
      · by_cases hext : m pos = ieExtSuppRates
        · have hover : ¬(dlsElement m pos e).out.Stays := by
            rw [dlsElement, if_neg hsupp, if_pos hext]
            exact extSuppRates_overruns (Nat.not_le.mp hlen)
          rw [List.find?_cons_of_pos (by simp [hext])]
          constructor
          · rintro ⟨-, hstays⟩
            exact absurd (dlsWalk_stays hstays) hover
          · rintro ⟨-, hfirst⟩
            exact absurd (hfirst pos rfl) hsupp
        · have hrates : (dlsElement m pos e).out.toSupportedRates = e.toSupportedRates := by
            rw [dlsElement, if_neg hsupp, if_neg hext]
            split_ifs <;> rfl
          have hfirst : ∀ s ∈ (dlsElement m pos e).reads, s.Inside stop := by
            rw [dlsElement, if_neg hsupp, if_neg hext]
            split_ifs with _ hcap
            · rw [eidStruct_next] at hle
              rw [List.forall_mem_singleton]
              simp only [Span.Inside]
              omega
            · simp
            · simp
          rw [and_iff_right hfirst, ih (by rwa [hrates]) (by rwa [hrates]),
            List.find?_cons_of_neg (by simp [hsupp, hext])]
    | case2 pos hlt =>
      rw [Tlv.itemsEnd_of_cut (Nat.not_le.mp hlt), eidWalk_of_cut (Nat.not_le.mp hlt),
        List.forall_mem_singleton, and_iff_left h]
      exact (and_iff_left fun _ hp => by cases hp).symm

end Rates

section Probe
variable {m : Memory} {stop pos : ℕ} {b : Option Bool}

theorem probeElement_inside (h : eidStruct.next m pos ≤ stop) :
    ∀ s ∈ (probeElement m pos b).reads, s.Inside stop := by
  rw [eidStruct_next] at h
  cases b with
  | none =>
    rw [probeElement]
    split_ifs with hvendor
    · rw [List.forall_mem_singleton]
      simp only [Span.Inside]
      omega
    · simp
  | some requested =>
    rw [probeElement]
    split_ifs with hvendor
    · rw [List.forall_mem_cons, List.forall_mem_singleton]
      simp only [Span.Inside]
      omega
    · rw [List.forall_mem_cons, List.forall_mem_singleton]
      simp only [Span.Inside]
      omega
    · simp

/-- Only the header behind the last element may lie outside. -/
theorem probeWalk_inside :
    (∀ r ∈ (probeWalk m stop pos b).reads, r.Inside stop) ↔
      eidStruct.itemsEnd m stop pos + 2 ≤ stop := by
  have hnext (p : ℕ) : eidStruct.next m p = p + 2 + (m (p + 1)).toNat := eidStruct_next
  fun_induction Tlv.itemsEnd eidStruct m stop pos generalizing b with
  | case1 pos hle ih =>
    have hroom : pos + 2 ≤ stop := Nat.le_trans (eidStruct.header_le_next m pos) hle
    have hid : (⟨pos, 1⟩ : Span).Inside stop := Nat.le_trans (Nat.le_succ (pos + 1)) hroom
    have hlen : (⟨pos + 1, 1⟩ : Span).Inside stop := hroom
    rw [probeWalk, if_pos (by rwa [← hnext])]
    dsimp only
    rw [List.cons_append, List.cons_append, List.forall_mem_cons, List.forall_mem_cons,
      and_iff_right hid, and_iff_right hlen, List.forall_mem_append,
      and_iff_right (probeElement_inside hle)]
    exact ih
  | case2 pos hlt =>
    rw [probeWalk, if_neg (by rwa [← hnext]), List.forall_mem_cons, List.forall_mem_singleton]
    simp only [Span.Inside]
    omega

/-- The probe requests of which nothing outside is read: one without SSID ends behind its id, one
with a long SSID behind its length, and another one in an element that is cut off behind its
header. -/
def ProbeFits (m : Memory) (msgLen : ℕ) : Prop :=
  if m 24 ≠ ieSsid then 25 ≤ msgLen
  else if 32 < (m 25).toNat then 26 ≤ msgLen
  else eidStruct.next m 24 ≤ msgLen ∧ eidStruct.itemsEnd m msgLen 24 + 2 ≤ msgLen

theorem peerProbeReqSanity_inside {msgLen : UInt32} :
    (∀ r ∈ (peerProbeReqSanity m msgLen b).reads, r.Inside msgLen.toNat) ↔
      ProbeFits m msgLen.toNat := by
  rw [peerProbeReqSanity, ProbeFits]
  split_ifs
  · rw [List.forall_mem_cons, List.forall_mem_singleton]
    simp only [Span.Inside]
    omega
  · rw [List.forall_mem_cons, List.forall_mem_cons, List.forall_mem_singleton]
    simp only [Span.Inside]
    omega
  · have hnext : eidStruct.next m 24 = 26 + (m 25).toNat := eidStruct_next
    rw [hnext, List.forall_mem_cons, List.forall_mem_cons, List.forall_mem_cons,
      List.forall_mem_cons, probeWalk_inside]
    simp only [Span.Inside]
    omega

end Probe

section Dls
variable {m : Memory} {msgLen : UInt32} {rates : Memory} {ratesLen : UInt8}
  {htCapability : List UInt8}

/-- The DLS frames whose parse stays inside. -/
def DlsFits (m : Memory) (msgLen : ℕ) (ratesLen : UInt8) : Prop :=
  eidStruct.itemsEnd m msgLen 42 + 2 ≤ msgLen ∧ RatesFit m (eidStruct.items m msgLen 42) ratesLen

/-- The fixed fields lie in front of the elements. -/
theorem dlsFields_iff {l : List Span} (h : ∀ r ∈ l, r.Inside 42) :
    (∀ r ∈ l ++ (eidWalk m (dlsElement m) msgLen.toNat 42
        ⟨⟨rates, ratesLen, []⟩, 0, htCapability⟩).reads, r.Inside msgLen.toNat) ∧
      (eidWalk m (dlsElement m) msgLen.toNat 42
        ⟨⟨rates, ratesLen, []⟩, 0, htCapability⟩).out.Stays ↔
      DlsFits m msgLen.toNat ratesLen := by
  have hnone : (⟨⟨rates, ratesLen, []⟩, 0, htCapability⟩ : DlsElements).Stays :=
    fun w hw => absurd hw List.not_mem_nil
  have hwalk := @dlsWalk_iff m msgLen.toNat 42 _ hnone
  rw [DlsFits, ← hwalk, List.forall_mem_append, and_assoc, and_iff_right_iff_imp]
  rintro hboth r hr
  have hend := (hwalk.mp hboth).1
  have hle := le_itemsEnd (m := m) msgLen.toNat 42
  have hfield := h r hr
  simp only [Span.Inside] at hfield ⊢
  omega

theorem peerDlsReqSanity_iff :
    (∀ r ∈ (peerDlsReqSanity m msgLen rates ratesLen htCapability).reads,
        r.Inside msgLen.toNat) ∧
      (peerDlsReqSanity m msgLen rates ratesLen htCapability).out.elements.Stays ↔
      DlsFits m msgLen.toNat ratesLen :=
  dlsFields_iff (l := [⟨26, 6⟩, ⟨32, 6⟩, ⟨38, 2⟩, ⟨40, 2⟩]) (by decide)

theorem peerDlsRspSanity_iff {pStatus : Bool} :
    (∀ r ∈ (peerDlsRspSanity m msgLen pStatus rates ratesLen htCapability).reads,
        r.Inside msgLen.toNat) ∧
      (peerDlsRspSanity m msgLen pStatus rates ratesLen htCapability).out.elements.Stays ↔
      DlsFits m msgLen.toNat ratesLen := by
  cases pStatus with
  | false => exact dlsFields_iff (l := [⟨28, 6⟩, ⟨34, 6⟩, ⟨40, 2⟩]) (by decide)
  | true => exact dlsFields_iff (l := [⟨26, 2⟩, ⟨28, 6⟩, ⟨34, 6⟩]) (by decide)

end Dls

end Rt5572

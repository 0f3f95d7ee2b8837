import Mathlib.Data.UInt
import StandaloneDrivers.Rt5572.BeaconParse

/-! What the parser of beacons and probe responses reads, writes and leaves: each case against what
it amounts to, the loop, and what follows it. -/
namespace Rt5572.Beacon
open Foundations
open BssTab (eidStruct IeWrite rsnOui maxVieLen maxLenOfSupportedRates)
open Rtl8188eu (Element encodeElements)

theorem ElementStream.append {a b : List UInt8} (ha : ElementStream a) (hb : ElementStream b) :
    ElementStream (a ++ b) := by
  obtain ⟨es, rfl⟩ := ha
  obtain ⟨fs, rfl⟩ := hb
  exact ⟨es ++ fs, (List.flatMap_append ..).symm⟩

/-- What stands behind complete elements is told apart from them. -/
theorem ElementStream.of_append {a b : List UInt8} (ha : ElementStream a)
    (h : ElementStream (a ++ b)) : ElementStream b := by
  obtain ⟨es, rfl⟩ := ha
  obtain ⟨fs, hfs⟩ := h
  induction es generalizing fs with
  | nil => exact ⟨fs, hfs⟩
  | cons e es ih =>
    cases fs with
    | nil => exact absurd hfs (List.cons_ne_nil _ _)
    | cons f fs =>
      rw [Rtl8188eu.encodeElements_cons, Rtl8188eu.encodeElements_cons, Element.encode,
        Element.encode] at hfs
      simp only [List.cons_append, List.append_assoc] at hfs
      obtain ⟨hlen, hrest⟩ := List.cons.inj (List.cons.inj hfs).2
      have hsame : e.body.length = f.body.length := by
        have hnat := congrArg UInt8.toNat hlen
        rwa [UInt8.toNat_ofNat_of_lt' e.short, UInt8.toNat_ofNat_of_lt' f.short] at hnat
      exact ih fs (List.append_inj hrest hsame).2

/-- The element that lies at a place. -/
def elementAt (m : Memory) (pos : ℕ) : Element :=
  ⟨m pos, m.read (pos + 2) (len m pos), by
    rw [Memory.read_length]
    exact (m (pos + 1)).toNat_lt⟩

theorem elementAt_encode (m : Memory) (pos : ℕ) :
    (elementAt m pos).encode = m.read pos (len m pos + 2) := by
  have hlen : UInt8.ofNat (len m pos) = m (pos + 1) := UInt8.ofNat_toNat
  rw [Memory.read_succ, Memory.read_succ, Element.encode, elementAt, Memory.read_length, hlen]

theorem elementAt_stream (m : Memory) (pos : ℕ) :
    ElementStream (m.read pos (len m pos + 2)) := by
  refine ⟨[elementAt m pos], ?_⟩
  rw [← elementAt_encode]
  exact (List.append_nil _).symm

/-- What a state of the loop amounts to. -/
structure Tracks (s : State) (c : Counts) : Prop where
  sanity : s.sanity = c.sanity
  htLen : s.htCapabilityLen = c.htLen
  vieLen : s.lengthVIE = c.vieLen
  wscLen : s.peerWscIeLen = c.wsc.length
  wsc : s.peerWscIe.read 0 c.wsc.length = c.wsc
  stream : ElementStream (s.vie.read 0 c.vieLen)
  room : c.vieLen ≤ maxVieLen

/-- Nothing outside of the frame is read, or written outside of an array. -/
def Visit.Stays (v : Visit) (stop : ℕ) : Prop :=
  (∀ r ∈ v.reads, r.Inside stop) ∧ ∀ w ∈ v.writes, w.span.Inside w.size

/-- A case stays inside under a condition, and amounts to the counts then. -/
structure Visit.Meets (v : Visit) (stop : ℕ) (P : Prop) (c : Counts) : Prop where
  exit : v.exit = .next
  stays : v.Stays stop ↔ P
  tracks : P → Tracks v.out c

section Cases
variable {a : Adapter} {m : Memory} {stop pos n size : ℕ} {s : State} {v : Visit} {c : Counts}
  {P : Prop} {l : List Span} {f : Fields}

theorem Tracks.set (h : Tracks s c) (f : Fields) : Tracks { s with fields := f } c :=
  ⟨h.sanity, h.htLen, h.vieLen, h.wscLen, h.wsc, h.stream, h.room⟩

theorem set_meets (h : Tracks s c) (hreads : (∀ r ∈ l, r.Inside stop) ↔ P) :
    (s.set l f).Meets stop P c where
  exit := rfl
  stays := (and_iff_left fun _ hw => absurd hw List.not_mem_nil).trans hreads
  tracks _ := h.set f

theorem skip_meets (h : Tracks s c) : (s.set [] f).Meets stop True c :=
  set_meets h (iff_of_true (fun _ hr => absurd hr List.not_mem_nil) trivial)

/-- A part of an element is copied to an array that is large enough. -/
theorem copy_meets (hnext : eidStruct.next m pos ≤ stop) (hlen : n ≤ len m pos) (hsize : n ≤ size)
    (h : Tracks s c) :
    Visit.Meets ⟨[⟨pos + 2, n⟩], [⟨size, ⟨0, n⟩⟩], s, .next⟩ stop True c := by
  rw [eidStruct_next] at hnext
  rw [len] at hlen
  refine ⟨rfl, iff_of_true ⟨?_, ?_⟩ trivial, fun _ => h⟩
  · rw [List.forall_mem_singleton]
    simp only [Span.Inside]
    omega
  · rw [List.forall_mem_singleton]
    simp only [Span.Inside]
    omega

/-- The element goes behind the others. -/
theorem storeVie_meets (hnext : eidStruct.next m pos ≤ stop)
    (hroom : c.vieLen + len m pos + 2 < maxVieLen) (h : v.Meets stop P c) :
    (v.storeVie m pos).Meets stop P (c.store m pos) := by
  rw [eidStruct_next] at hnext
  have hread : (⟨pos, len m pos + 2⟩ : Span).Inside stop := by
    simp only [Span.Inside, len]
    omega
  refine ⟨h.exit, ?_, ?_⟩
  · rw [← h.stays]
    simp only [Visit.Stays, Visit.storeVie, List.forall_mem_append, List.forall_mem_singleton,
      and_iff_left hread]
    refine and_congr_right fun hreads => and_iff_left_of_imp fun hwrites => ?_
    have htracks := h.tracks (h.stays.mp ⟨hreads, hwrites⟩)
    simp only [Span.Inside, htracks.vieLen]
    omega
  · intro hP
    have htracks := h.tracks hP
    refine ⟨htracks.sanity, htracks.htLen, ?_, htracks.wscLen, htracks.wsc, ?_, ?_⟩
    · simp only [Visit.storeVie, Counts.store, htracks.vieLen]
    · simp only [Visit.storeVie, Counts.store, htracks.vieLen]
      have hbehind := (v.out.vie).read_write_same c.vieLen (m.read pos (len m pos + 2))
      rw [Memory.read_length] at hbehind
      rw [Memory.read_add, Memory.read_write_disjoint _ (Or.inl (Nat.le_of_eq (Nat.zero_add _))),
        Nat.zero_add, hbehind]
      exact htracks.stream.append (elementAt_stream m pos)
    · simp only [Counts.store]
      omega

theorem storeVieIf_meets (sta : Bool) (hnext : eidStruct.next m pos ≤ stop)
    (hroom : c.vieLen + len m pos + 2 < maxVieLen) (h : v.Meets stop P c) :
    (v.storeVieIf m pos sta).Meets stop P (c.storeIf m pos sta) := by
  cases sta with
  | false => exact h
  | true => exact storeVie_meets hnext hroom h

theorem Tracks.mark (h : Tracks s c) (b : UInt8) (f : Fields) :
    Tracks { s with sanity := s.sanity ||| b, fields := f } { c with sanity := c.sanity ||| b } :=
  ⟨congrArg (· ||| b) h.sanity, h.htLen, h.vieLen, h.wscLen, h.wsc, h.stream, h.room⟩

/-- What is read of a complete element lies inside. -/
theorem inside_of_complete (hnext : eidStruct.next m pos ≤ stop) {i k : ℕ}
    (h : i + k ≤ len m pos + 2) : (⟨pos + i, k⟩ : Span).Inside stop := by
  rw [eidStruct_next] at hnext
  rw [len] at h
  simp only [Span.Inside]
  omega

theorem caseSsid_meets (h : Tracks s c) (hnext : eidStruct.next m pos ≤ stop)
    (hgo : ¬(c.sanity &&& 1 = 0 ∧ maxLenOfSsid < len m pos)) :
    (caseSsid m pos s).Meets stop True
      (if c.sanity &&& 1 ≠ 0 then c else { c with sanity := c.sanity ||| 1 }) := by
  rw [caseSsid, h.sanity]
  split_ifs with hseen hlen
  · exact skip_meets h
  · exact copy_meets hnext (Nat.le_refl _) hlen
      ⟨rfl, h.htLen, h.vieLen, h.wscLen, h.wsc, h.stream, h.room⟩
  · exact absurd ⟨not_not.mp hseen, Nat.not_le.mp hlen⟩ hgo

theorem caseSuppRates_meets (h : Tracks s c) (hnext : eidStruct.next m pos ≤ stop)
    (hgo : ¬maxLenOfSupportedRates < len m pos) :
    (caseSuppRates m pos s).Meets stop True { c with sanity := c.sanity ||| 2 } := by
  rw [caseSuppRates, if_pos (Nat.not_lt.mp hgo)]
  exact copy_meets hnext (Nat.le_refl _) (Nat.not_lt.mp hgo) (h.mark 2 _)

theorem caseHtCap_meets (h : Tracks s c) (hnext : eidStruct.next m pos ≤ stop)
    (hroom : c.vieLen + len m pos + 2 < maxVieLen) :
    (caseHtCap a m pos s).Meets stop True
      (if htCapabilitySize ≤ len m pos then
        Counts.storeIf m pos { c with htLen := htCapabilitySize } a.opModeSta else c) := by
  by_cases hlen : htCapabilitySize ≤ len m pos
  · rw [caseHtCap, if_pos hlen, if_pos hlen]
    exact storeVieIf_meets _ hnext hroom (copy_meets hnext hlen (Nat.le_refl _)
      ⟨h.sanity, rfl, h.vieLen, h.wscLen, h.wsc, h.stream, h.room⟩)
  · rw [caseHtCap, if_neg hlen, if_neg hlen]
    exact skip_meets h

theorem caseAddHt_meets (h : Tracks s c) (hnext : eidStruct.next m pos ≤ stop)
    (hroom : c.vieLen + len m pos + 2 < maxVieLen) :
    (caseAddHt a m pos s).Meets stop True
      (if addHtInfoSize ≤ len m pos then c.storeIf m pos a.opModeSta else c) := by
  rw [caseAddHt]
  split_ifs with hlen
  · exact storeVieIf_meets _ hnext hroom (copy_meets hnext hlen (Nat.le_refl _) (h.set _))
  · exact skip_meets h

theorem caseDsParm_meets (h : Tracks s c) (hnext : eidStruct.next m pos ≤ stop)
    (hgo : ¬(len m pos ≠ 1 ∨ a.opModeSta = true ∧ m (pos + 2) ∉ a.channelList)) :
    (caseDsParm a m pos s).Meets stop True { c with sanity := c.sanity ||| 4 } := by
  rw [not_or, not_not] at hgo
  obtain ⟨hlen, hchannel⟩ := hgo
  have hinside : (⟨pos + 2, 1⟩ : Span).Inside stop := inside_of_complete hnext (by omega)
  rw [caseDsParm, if_pos hlen, if_neg (by simpa using hchannel)]
  exact ⟨rfl, iff_of_true ⟨List.forall_mem_singleton.mpr hinside,
    fun _ hw => absurd hw List.not_mem_nil⟩ trivial, fun _ => h.mark 4 _⟩

theorem caseCfParm_meets (h : Tracks s c) (hnext : eidStruct.next m pos ≤ stop)
    (hgo : ¬len m pos ≠ 6) : (caseCfParm m pos s).Meets stop True c := by
  rw [not_not] at hgo
  rw [caseCfParm, if_pos hgo]
  refine set_meets h (iff_of_true ?_ trivial)
  rw [List.forall_mem_cons, List.forall_mem_cons, List.forall_mem_cons, List.forall_mem_singleton]
  exact ⟨inside_of_complete hnext (by omega), inside_of_complete hnext (by omega),
    inside_of_complete hnext (by omega), inside_of_complete hnext (by omega)⟩

theorem caseIbssParm_meets (h : Tracks s c) (hnext : eidStruct.next m pos ≤ stop)
    (hgo : ¬len m pos ≠ 2) : (caseIbssParm m pos s).Meets stop True c := by
  rw [not_not] at hgo
  rw [caseIbssParm, if_pos hgo]
  exact copy_meets hnext (Nat.le_of_eq hgo.symm) (Nat.le_refl 2) (h.set _)

theorem caseTim_meets (h : Tracks s c) :
    (caseTim a m pos s).Meets stop (ownBeacon a m = true → pos + 5 ≤ stop ∧
      (timCovers m pos a.aid = true → pos + 6 + (timByte m pos a.aid).toNat ≤ stop)) c := by
  rw [caseTim]
  split_ifs with hown
  · refine set_meets h ?_
    rw [imp_iff_right hown, timReads, List.forall_mem_append, List.forall_mem_cons,
      List.forall_mem_cons, List.forall_mem_cons, List.forall_mem_singleton]
    split_ifs with hcovers
    · rw [imp_iff_right hcovers, List.forall_mem_singleton]
      simp only [Span.Inside]
      omega
    · rw [and_iff_left (fun _ hr => absurd hr List.not_mem_nil),
        and_iff_left (fun h => absurd h hcovers)]
      simp only [Span.Inside]
      omega
  · exact set_meets h (iff_of_true (fun _ hr => absurd hr List.not_mem_nil)
      fun h => absurd h hown)

theorem setByte_meets {k i : ℕ} {put : UInt8 → Fields} (h : Tracks s c)
    (hnext : eidStruct.next m pos ≤ stop) (hi : i < k) :
    (s.setByte m pos k i put).Meets stop True c := by
  rw [State.setByte]
  split_ifs with hlen
  · refine set_meets h (iff_of_true (List.forall_mem_singleton.mpr ?_) trivial)
    rw [Nat.add_assoc]
    exact inside_of_complete hnext (by omega)
  · exact skip_meets h

theorem caseAironetCkip_meets (h : Tracks s c) (hnext : eidStruct.next m pos ≤ stop) :
    (caseAironetCkip m pos s).Meets stop True c := by
  rw [caseAironetCkip]
  split_ifs with hlen
  · exact skip_meets h
  · exact set_meets h (iff_of_true (List.forall_mem_singleton.mpr
      (inside_of_complete hnext (by omega))) trivial)

theorem caseApTxPower_meets (h : Tracks s c) (hnext : eidStruct.next m pos ≤ stop) :
    (caseApTxPower m pos s).Meets stop True c := by
  rw [caseApTxPower]
  split_ifs with hlen
  · exact skip_meets h
  · rw [not_not] at hlen
    refine set_meets h (iff_of_true ?_ trivial)
    rw [List.forall_mem_cons, List.forall_mem_singleton]
    exact ⟨inside_of_complete hnext (by omega), inside_of_complete hnext (by omega)⟩
  · rw [not_not] at hlen
    exact set_meets h (iff_of_true (List.forall_mem_singleton.mpr
      (inside_of_complete hnext (by omega))) trivial)

theorem caseExtSuppRates_meets (h : Tracks s c) (hnext : eidStruct.next m pos ≤ stop) :
    (caseExtSuppRates m pos s).Meets stop True c := by
  rw [caseExtSuppRates]
  split_ifs with hlen
  · exact copy_meets hnext (Nat.le_refl _) hlen (h.set _)
  · exact skip_meets h

theorem caseExtCapability_meets (h : Tracks s c) (hnext : eidStruct.next m pos ≤ stop) :
    (caseExtCapability m pos s).Meets stop True c := by
  rw [caseExtCapability]
  split_ifs with hlen
  · exact copy_meets hnext hlen (Nat.le_refl 1) (h.set _)
  · exact skip_meets h

theorem caseRsn_meets (h : Tracks s c) (hnext : eidStruct.next m pos ≤ stop)
    (hroom : c.vieLen + len m pos + 2 < maxVieLen) :
    (caseRsn m pos s).Meets stop (pos + 7 ≤ stop)
      (if m.read (pos + 4) 3 = rsnOui then c.store m pos else c) := by
  have hoi : (s.set [⟨pos + 4, 3⟩] s.fields).Meets stop (pos + 7 ≤ stop) c :=
    set_meets h List.forall_mem_singleton
  rw [caseRsn]
  split_ifs
  · exact storeVie_meets hnext hroom hoi
  · exact hoi

theorem caseQbssLoad_meets (h : Tracks s c) (hnext : eidStruct.next m pos ≤ stop)
    (hroom : c.vieLen + len m pos + 2 < maxVieLen) :
    (caseQbssLoad m pos s).Meets stop True (if len m pos = 5 then c.store m pos else c) := by
  rw [caseQbssLoad]
  split_ifs with hlen
  · refine storeVie_meets hnext hroom (set_meets h (iff_of_true ?_ trivial))
    rw [List.forall_mem_cons, List.forall_mem_cons, List.forall_mem_singleton]
    exact ⟨inside_of_complete hnext (by omega), inside_of_complete hnext (by omega),
      inside_of_complete hnext (by omega)⟩
  · exact skip_meets h

theorem Visit.Meets.congr {Q : Prop} (h : v.Meets stop P c) (hiff : P ↔ Q) : v.Meets stop Q c :=
  ⟨h.exit, h.stays.trans hiff, fun hQ => h.tracks (hiff.mpr hQ)⟩

/-- The comparisons up to a kind; the first two kinds are long enough for them. -/
theorem vendorReads_inside {htLen : ℕ} {kind : VendorKind}
    (h : kind = .ralink ∨ kind = .preN → pos + 5 ≤ stop) :
    (∀ r ∈ vendorReads pos htLen kind, r.Inside stop) ↔ Counts.vendorEnd pos kind ≤ stop := by
  by_cases hroom : pos + 5 ≤ stop
  · have hfirst : (⟨pos + 2, 3⟩ : Span).Inside stop := hroom
    have hht : ∀ r ∈ (if htLen = 0 then [⟨pos + 2, 3⟩] else [] : List Span), r.Inside stop := by
      split_ifs
      · exact List.forall_mem_singleton.mpr hfirst
      · exact fun _ hr => absurd hr List.not_mem_nil
    rw [vendorReads.eq_def, List.forall_mem_cons, and_iff_right hfirst]
    cases kind with
    | ralink =>
      exact iff_of_true (fun _ hr => absurd hr List.not_mem_nil) (Nat.le_of_add_right_le hroom)
    | preN => exact iff_of_true hht (Nat.le_of_add_right_le hroom)
    | wpa => rw [List.forall_mem_append, and_iff_right hht, List.forall_mem_singleton]; rfl
    | wmeParm =>
      rw [List.forall_mem_append, and_iff_right hht, List.forall_mem_cons,
        List.forall_mem_singleton]
      simp only [Span.Inside, Counts.vendorEnd]
      omega
    | wmeInfo =>
      rw [List.forall_mem_append, and_iff_right hht, List.forall_mem_cons, List.forall_mem_cons,
        List.forall_mem_singleton]
      simp only [Span.Inside, Counts.vendorEnd]
      omega
    | wps =>
      rw [List.forall_mem_append, and_iff_right hht, List.forall_mem_cons, List.forall_mem_cons,
        List.forall_mem_cons, List.forall_mem_singleton]
      simp only [Span.Inside, Counts.vendorEnd]
      omega
    | other =>
      rw [List.forall_mem_append, and_iff_right hht, List.forall_mem_cons, List.forall_mem_cons,
        List.forall_mem_cons, List.forall_mem_singleton]
      simp only [Span.Inside, Counts.vendorEnd]
      omega
  · refine iff_of_false (fun hreads => ?_) ?_
    · rw [vendorReads.eq_def, List.forall_mem_cons] at hreads
      exact hroom hreads.1
    · cases kind with
      | ralink => exact absurd (h (Or.inl rfl)) hroom
      | preN => exact absurd (h (Or.inr rfl)) hroom
      | _ =>
        simp only [Counts.vendorEnd]
        omega

/-- What the search for the selected registrar reads and writes. -/
theorem selRegWalk_stays (left pData : ℕ) (b : UInt8) :
    ((∀ r ∈ (selRegWalk m left pData b).reads, r.Inside stop) ∧
        ∀ w ∈ (selRegWalk m left pData b).writes, w.span.Inside w.size) ↔
      ∀ q ∈ Counts.wscAttrs m left pData,
        q + 5 ≤ stop ∧ (m.be16 q = 0x1041 → m.be16 (q + 2) ≤ 1) := by
  fun_induction selRegWalk m left pData b with
  | case1 left pData hleft htype dataLen =>
    rw [Counts.wscAttrs, if_pos hleft, if_pos htype, List.forall_mem_cons, List.forall_mem_singleton,
      List.forall_mem_singleton, List.forall_mem_singleton, imp_iff_right htype]
    simp only [Span.Inside]
    omega
  | case2 left pData hleft htype rest ih =>
    rw [Counts.wscAttrs, if_pos hleft, if_neg htype, List.forall_mem_cons, List.forall_mem_cons,
      and_iff_left (fun h => absurd h htype), ← ih, and_assoc]
    rfl
  | case3 left pData hleft =>
    rw [Counts.wscAttrs, if_neg hleft]
    simp

theorem sizeT_natCast {k : ℕ} (h : k < 2 ^ 32) : sizeT k = k := by
  rw [sizeT]
  omega

theorem findSelReg_meets (h : v.Meets stop P c) :
    (findSelReg m pos v).Meets stop (P ∧ (isBeacon m = true →
      ∀ q ∈ Counts.wscAttrs m (len m pos - 4) (pos + 6),
        q + 5 ≤ stop ∧ (m.be16 q = 0x1041 → m.be16 (q + 2) ≤ 1))) c := by
  rw [findSelReg]
  split_ifs with hbeacon
  · refine ⟨h.exit, ?_, fun hP => (h.tracks hP.1).set _⟩
    rw [imp_iff_right hbeacon, ← h.stays, ← selRegWalk_stays _ _ v.out.fields.selReg]
    simp only [Visit.Stays, List.forall_mem_append]
    exact and_and_and_comm
  · exact h.congr (and_iff_left fun h => absurd h hbeacon).symm

theorem gatherWps_stays (h : v.Stays stop) {k place count : ℕ} :
    ({ v with
      reads := v.reads ++ [⟨pos + k, count⟩]
      writes := v.writes ++ [⟨size, ⟨place, count⟩⟩]
      out := s } : Visit).Stays stop ↔ pos + k + count ≤ stop ∧ place + count ≤ size := by
  simp only [Visit.Stays, List.forall_mem_append, List.forall_mem_singleton]
  exact ⟨fun ⟨hreads, hwrites⟩ => ⟨hreads.2, hwrites.2⟩,
    fun ⟨hread, hwrite⟩ => ⟨⟨h.1, hread⟩, h.2, hwrite⟩⟩

/-- The data of a WPS element goes behind the data that is there, unless the element is too short or
the buffer too small. -/
theorem gatherWps_meets (hnext : eidStruct.next m pos ≤ stop) (h : v.Meets stop P c) :
    (gatherWps a m pos v).Meets stop (P ∧ (a.pPeerWscIe = true → c.wsc.length < wscSize →
      4 ≤ len m pos ∧ c.wsc.length + (len m pos - 4) ≤ wscSize)) (c.gather a m pos) := by
  by_cases hP : P
  · have htracks := h.tracks hP
    have hstays := h.stays.mpr hP
    have hlimit : v.out.peerWscIeLen < wscSize ↔ c.wsc.length < wscSize := by
      rw [htracks.wscLen]
      exact Int.ofNat_lt
    rw [and_iff_right hP]
    by_cases hgather : a.pPeerWscIe = true ∧ c.wsc.length < wscSize
    · obtain ⟨hbuf, hwsc⟩ := hgather
      have hplace : sizeT v.out.peerWscIeLen = c.wsc.length := by
        rw [htracks.wscLen]
        exact sizeT_natCast (Nat.lt_trans hwsc (by decide))
      rw [gatherWps, if_pos ⟨hbuf, hlimit.mpr hwsc⟩, Counts.gather, if_pos ⟨hbuf, hwsc⟩, hplace,
        imp_iff_right hbuf, imp_iff_right hwsc]
      have hbyte : len m pos < 256 := (m (pos + 1)).toNat_lt
      have hsize : wscSize = 512 := rfl
      refine ⟨h.exit, ?_, ?_⟩
      · have hend : eidStruct.next m pos = pos + 2 + len m pos := eidStruct_next
        rw [gatherWps_stays hstays]
        simp only [sizeT]
        omega
      · rintro ⟨hlen, hfits⟩
        have hcount : sizeT ((len m pos : ℤ) - 4) = len m pos - 4 := by
          rw [← sizeT_natCast (k := len m pos - 4) (by omega)]
          congr 1
          omega
        have hwscLen : v.out.peerWscIeLen + ((len m pos : ℤ) - 4) =
            ((c.wsc ++ m.read (pos + 6) (len m pos - 4)).length : ℤ) := by
          rw [htracks.wscLen, List.length_append, Memory.read_length]
          omega
        rw [hcount]
        refine ⟨htracks.sanity, htracks.htLen, htracks.vieLen, hwscLen, ?_, htracks.stream,
          htracks.room⟩
        have hbehind := (v.out.peerWscIe).read_write_same c.wsc.length
          (m.read (pos + 6) (len m pos - 4))
        rw [List.length_append, Memory.read_add,
          Memory.read_write_disjoint _ (Or.inl (Nat.le_of_eq (Nat.zero_add _))), Nat.zero_add,
          htracks.wsc, hbehind]
    · have hskip : ¬(a.pPeerWscIe = true ∧ v.out.peerWscIeLen < wscSize) :=
        fun h => hgather ⟨h.1, hlimit.mp h.2⟩
      rw [gatherWps, if_neg hskip, Counts.gather, if_neg hgather]
      have hnone : a.pPeerWscIe = true → c.wsc.length < wscSize →
          4 ≤ len m pos ∧ c.wsc.length + (len m pos - 4) ≤ wscSize :=
        fun hbuf hwsc => absurd ⟨hbuf, hwsc⟩ hgather
      exact ⟨h.exit, iff_of_true hstays hnone, fun _ => htracks⟩
  · refine ⟨?_, iff_of_false ?_ fun h => hP h.1, fun h => absurd h.1 hP⟩
    · rw [gatherWps]
      split_ifs
      · exact h.exit
      · exact h.exit
    · intro hstays
      rw [gatherWps] at hstays
      split_ifs at hstays
      · refine hP (h.stays.mp ⟨?_, ?_⟩)
        · exact fun r hr => hstays.1 r (List.mem_append_left _ hr)
        · exact fun w hw => hstays.2 w (List.mem_append_left _ hw)
      · exact hP (h.stays.mp hstays)

/-- The lengths that the kinds are told by. -/
def kindLen : VendorKind → ℕ
  | .ralink => 7
  | .preN => 4
  | .wmeParm => 24
  | .wmeInfo => 7
  | _ => 0

theorem kindLen_le (htLen : ℕ) : kindLen (vendorKind a m pos htLen) ≤ len m pos := by
  rw [vendorKind]
  split_ifs with hralink hpreN _ hparm hinfo
  · exact Nat.le_of_eq hralink.2.symm
  · exact hpreN.2.2.1
  · exact Nat.zero_le _
  · exact Nat.le_of_eq hparm.2.symm
  · exact Nat.le_of_eq hinfo.2.symm
  · exact Nat.zero_le _
  · exact Nat.zero_le _

/-- An HT element under the OUI is copied as far as the array goes. -/
theorem preNHt_meets (hnext : eidStruct.next m pos ≤ stop) (h : v.Meets stop P c) :
    (preNHt m pos v).Meets stop P c := by
  have hcopy {k : ℕ} (hlen : k + 4 ≤ len m pos) :
      (⟨pos + 6, k⟩ : Span).Inside stop ∧ (⟨0, k⟩ : Span).Inside k :=
    ⟨inside_of_complete hnext (by omega), Nat.le_of_eq (Nat.zero_add k)⟩
  rw [preNHt]
  split_ifs with hcap hadd
  · refine ⟨h.exit, ?_, fun hP => (h.tracks hP).set _⟩
    rw [← h.stays]
    simp only [Visit.Stays, List.forall_mem_append, List.forall_mem_singleton,
      and_iff_left (hcopy hcap.2).1, and_iff_left (hcopy hcap.2).2]
  · refine ⟨h.exit, ?_, fun hP => (h.tracks hP).set _⟩
    rw [← h.stays]
    simp only [Visit.Stays, List.forall_mem_append, List.forall_mem_singleton,
      and_iff_left (hcopy hadd.2).1, and_iff_left (hcopy hadd.2).2]
  · exact h

theorem caseVendorSpecific_meets (h : Tracks s c) (hnext : eidStruct.next m pos ≤ stop)
    (hroom : c.vieLen + len m pos + 2 < maxVieLen) :
    (caseVendorSpecific a m pos s).Meets stop
      (Counts.vendorEnd pos (vendorKind a m pos c.htLen) ≤ stop ∧
        (vendorKind a m pos c.htLen = .wps → c.WpsFits a m pos stop))
      (match vendorKind a m pos c.htLen with
        | .wpa => c.store m pos
        | .wps => c.gather a m pos
        | _ => c) := by
  have hlen := @kindLen_le a m pos c.htLen
  have hcompare (kind : VendorKind) (hshort : kind = .ralink ∨ kind = .preN → 4 ≤ len m pos) :
      (∀ r ∈ vendorReads pos c.htLen kind, r.Inside stop) ↔ Counts.vendorEnd pos kind ≤ stop :=
    vendorReads_inside fun hkind =>
      inside_of_complete (i := 2) (k := 3) hnext (by have := hshort hkind; omega)
  have hset {kind : VendorKind} {extra : List Span} {f : Fields}
      (hshort : kind = .ralink ∨ kind = .preN → 4 ≤ len m pos)
      (hextra : ∀ r ∈ extra, r.Inside stop) (hwps : kind ≠ .wps) :
      (s.set (vendorReads pos c.htLen kind ++ extra) f).Meets stop
        (Counts.vendorEnd pos kind ≤ stop ∧ (kind = .wps → c.WpsFits a m pos stop)) c := by
    refine set_meets h ?_
    rw [List.forall_mem_append, and_iff_left hextra, and_iff_left fun h => absurd h hwps]
    exact hcompare kind hshort
  rw [caseVendorSpecific, h.htLen]
  cases hkind : vendorKind a m pos c.htLen with
  | ralink =>
    rw [hkind] at hlen
    have hseven : 7 ≤ len m pos := hlen
    exact hset (fun _ => by omega) (List.forall_mem_singleton.mpr
      (inside_of_complete hnext (by omega))) (by decide)
  | preN =>
    rw [hkind] at hlen
    have hfour : 4 ≤ len m pos := hlen
    exact preNHt_meets hnext (hset (fun _ => hfour) (List.forall_mem_singleton.mpr
      (inside_of_complete hnext (by omega))) (by decide))
  | wpa =>
    have hkept := set_meets (f := s.fields) h (hcompare .wpa (by simp))
    exact storeVie_meets hnext hroom (hkept.congr (and_iff_left (by simp)).symm)
  | wmeParm =>
    rw [hkind] at hlen
    have hlong : 24 ≤ len m pos := hlen
    refine hset (by simp) ?_ (by decide)
    rw [List.forall_mem_cons, List.forall_mem_singleton]
    exact ⟨inside_of_complete hnext (by omega), inside_of_complete hnext (by omega)⟩
  | wmeInfo =>
    rw [hkind] at hlen
    have hseven : 7 ≤ len m pos := hlen
    exact hset (by simp) (List.forall_mem_singleton.mpr
      (inside_of_complete hnext (by omega))) (by decide)
  | wps =>
    have hkept := set_meets (f := s.fields) h (hcompare .wps (by simp))
    refine (findSelReg_meets (gatherWps_meets hnext hkept)).congr ?_
    rw [and_assoc, imp_iff_right rfl]
    exact and_congr_right fun _ =>
      ⟨fun ⟨hroom, hattrs⟩ => ⟨hroom, hattrs⟩, fun hfits => ⟨hfits.room, hfits.attrs⟩⟩
  | other =>
    have hkept := set_meets (f := s.fields) h (hcompare .other (by simp))
    exact hkept.congr (and_iff_left (by simp)).symm

/-- One element that does not end the walk. -/
theorem element_meets (h : Tracks s c) (hnext : eidStruct.next m pos ≤ stop)
    (hroom : c.vieLen + len m pos + 2 < maxVieLen) (hgo : ¬c.Stops a m pos) :
    (element a m pos s).Meets stop (c.ElementFits a m pos stop) (c.add a m pos) := by
  rw [Counts.Stops] at hgo
  rw [element, Counts.ElementFits, Counts.add]
  cases hkind : elementKind (m pos) with
  | ssid => exact caseSsid_meets h hnext (by rwa [hkind] at hgo)
  | suppRates => exact caseSuppRates_meets h hnext (by rwa [hkind] at hgo)
  | htCap => exact caseHtCap_meets h hnext hroom
  | addHt => exact caseAddHt_meets h hnext hroom
  | secondaryChOffset => exact setByte_meets h hnext (by decide)
  | fhParm => exact skip_meets h
  | dsParm => exact caseDsParm_meets h hnext (by rwa [hkind] at hgo)
  | cfParm => exact caseCfParm_meets h hnext (by rwa [hkind] at hgo)
  | ibssParm => exact caseIbssParm_meets h hnext (by rwa [hkind] at hgo)
  | tim => exact caseTim_meets h
  | channelSwitch => exact setByte_meets h hnext (by decide)
  | vendorSpecific => exact caseVendorSpecific_meets h hnext hroom
  | extSuppRates => exact caseExtSuppRates_meets h hnext
  | erp => exact setByte_meets h hnext (by decide)
  | aironetCkip => exact caseAironetCkip_meets h hnext
  | apTxPower => exact caseApTxPower_meets h hnext
  | rsn => exact caseRsn_meets h hnext hroom
  | qbssLoad => exact caseQbssLoad_meets h hnext hroom
  | extCapability => exact caseExtCapability_meets h hnext
  | unknown => exact skip_meets h

/-- A case that ends the walk has read and written nothing outside, and left `pVIE`. -/
structure Visit.Ends (v : Visit) (stop : ℕ) (s : State) : Prop where
  exit : v.exit ≠ .next
  stays : v.Stays stop
  vie : v.out.vie = s.vie
  lengthVIE : v.out.lengthVIE = s.lengthVIE

theorem nothing_ends {e : Exit} (h : e ≠ .next) : Visit.Ends ⟨[], [], s, e⟩ stop s :=
  ⟨h, ⟨fun _ hr => absurd hr List.not_mem_nil, fun _ hw => absurd hw List.not_mem_nil⟩, rfl, rfl⟩

theorem element_ends (h : Tracks s c) (hnext : eidStruct.next m pos ≤ stop)
    (hstop : c.Stops a m pos) : (element a m pos s).Ends stop s := by
  rw [Counts.Stops] at hstop
  rw [element]
  cases hkind : elementKind (m pos) with
  | ssid =>
    rw [hkind] at hstop
    obtain ⟨hfirst, hlong⟩ := hstop
    rw [← h.sanity] at hfirst
    simp only [caseSsid]
    rw [if_neg (not_not.mpr hfirst), if_neg (Nat.not_le.mpr hlong)]
    exact nothing_ends (by decide)
  | suppRates =>
    rw [hkind] at hstop
    simp only [caseSuppRates]
    rw [if_neg (Nat.not_le.mpr hstop)]
    exact nothing_ends (by decide)
  | dsParm =>
    rw [hkind] at hstop
    simp only [caseDsParm]
    by_cases hlen : len m pos = 1
    · obtain ⟨hsta, hchannel⟩ := hstop.resolve_left (not_not.mpr hlen)
      rw [if_pos hlen, if_pos (by simpa [hsta] using hchannel)]
      exact ⟨show Exit.sanityCheck ≠ .next by decide,
        ⟨List.forall_mem_singleton.mpr (inside_of_complete hnext (by omega)),
          fun _ hw => absurd hw List.not_mem_nil⟩, rfl, rfl⟩
    · rw [if_neg hlen]
      exact nothing_ends (by decide)
  | cfParm =>
    rw [hkind] at hstop
    simp only [caseCfParm]
    rw [if_neg hstop]
    exact nothing_ends (by decide)
  | ibssParm =>
    rw [hkind] at hstop
    simp only [caseIbssParm]
    rw [if_neg hstop]
    exact nothing_ends (by decide)
  | _ =>
    rw [hkind] at hstop
    exact hstop.elim

end Cases

section Walk
variable {a : Adapter} {m : Memory} {stop pos : ℕ} {s : State} {v : Visit} {c : Counts}
  {msgChannel : UInt8}

/-- What is true of the end holds of what follows the loop. -/
def EndsWell (r : Visit × Bool) (stop : ℕ) : Prop :=
  r.1.Stays stop ∧ (r.2 = true → r.1.out.lengthVIE ≤ maxVieLen ∧
    ElementStream (r.1.out.vie.read 0 r.1.out.lengthVIE))

theorem conclude_append (reads : List Span) (writes : List IeWrite) (v : Visit) :
    conclude a msgChannel ⟨reads ++ v.reads, writes ++ v.writes, v.out, v.exit⟩ =
      (⟨reads ++ (conclude a msgChannel v).1.reads, writes ++ (conclude a msgChannel v).1.writes,
        (conclude a msgChannel v).1.out, (conclude a msgChannel v).1.exit⟩,
        (conclude a msgChannel v).2) := by
  obtain ⟨r, w, s, e⟩ := v
  cases e with
  | next =>
    simp only [conclude, appendWps]
    split_ifs
    · simp only [List.append_assoc]
    · rfl
  | sanityCheck => rfl
  | returnFalse => rfl

theorem endsWell_append {reads : List Span} {writes : List IeWrite} :
    EndsWell (conclude a msgChannel ⟨reads ++ v.reads, writes ++ v.writes, v.out, v.exit⟩) stop ↔
      ((∀ r ∈ reads, r.Inside stop) ∧ ∀ w ∈ writes, w.span.Inside w.size) ∧
        EndsWell (conclude a msgChannel v) stop := by
  rw [conclude_append, EndsWell, EndsWell, ← and_assoc]
  refine and_congr_left' ?_
  simp only [Visit.Stays, List.forall_mem_append]
  exact and_and_and_comm

theorem endsWell_of_ends (h : Tracks s c) (hv : v.Ends stop s) :
    EndsWell (conclude a msgChannel v) stop := by
  have hvie : v.out.lengthVIE ≤ maxVieLen ∧
      ElementStream (v.out.vie.read 0 v.out.lengthVIE) := by
    rw [hv.vie, hv.lengthVIE, h.vieLen]
    exact ⟨h.room, h.stream⟩
  rw [conclude.eq_def]
  cases hexit : v.exit with
  | next => exact absurd hexit hv.exit
  | sanityCheck => exact ⟨hv.stays, fun _ => hvie⟩
  | returnFalse => exact ⟨hv.stays, fun h => absurd h Bool.false_ne_true⟩

theorem patchChannel_tracks (h : Tracks s c) :
    Tracks (patchChannel a msgChannel s) { c with sanity := c.finalSanity a } := by
  rw [patchChannel, Counts.finalSanity, h.sanity]
  by_cases hpatch : 14 < a.latchChannel ∧ c.sanity &&& 4 = 0
  · rw [if_pos hpatch, if_pos hpatch]
    exact ⟨rfl, h.htLen, h.vieLen, h.wscLen, h.wsc, h.stream, h.room⟩
  · rw [if_neg hpatch, if_neg hpatch]
    exact h

theorem wpsElement_length (data : List UInt8) : (wpsElement data).length = data.length + 6 := by
  rw [wpsElement, List.length_append, Nat.add_comm]
  rfl

/-- Data of up to 251 bytes makes a complete element. -/
theorem wpsElement_stream {data : List UInt8} (h : data.length ≤ 251) :
    ElementStream (wpsElement data) := by
  have hshort : ([0x00, 0x50, 0xf2, 0x04] ++ data).length < 256 := by
    rw [List.length_append]
    exact Nat.lt_of_le_of_lt (Nat.add_le_add_left h 4) (by decide)
  refine ⟨[⟨0xdd, _, hshort⟩], ?_⟩
  rw [Rtl8188eu.encodeElements_cons, Element.encode, List.length_append, Nat.add_comm]
  exact (List.append_nil _).symm

/-- The WPS data behind the elements. -/
theorem appendWps_endsWell (h : Tracks s c) (reads : List Span) :
    EndsWell (appendWps a ⟨reads, [], s, .next⟩,
        (appendWps a ⟨reads, [], s, .next⟩).out.sanity == 7) stop ↔
      (∀ r ∈ reads, r.Inside stop) ∧ (a.pPeerWscIe = true → 0 < c.wsc.length →
        c.wsc.length < wscSize → c.vieLen + (c.wsc.length + 6) ≤ maxVieLen ∧
          (c.sanity = 7 → ElementStream (wpsElement c.wsc))) := by
  have hcount : s.peerWscIeLen.toNat = c.wsc.length := by
    rw [h.wscLen]
    exact Int.toNat_natCast _
  have hlimits : 0 < s.peerWscIeLen ∧ s.peerWscIeLen < wscSize ↔
      0 < c.wsc.length ∧ c.wsc.length < wscSize := by
    rw [h.wscLen]
    exact and_congr Int.natCast_pos Int.ofNat_lt
  by_cases happend : a.pPeerWscIe = true ∧ 0 < c.wsc.length ∧ c.wsc.length < wscSize
  · obtain ⟨hbuf, hpos, hlt⟩ := happend
    have hread : ((s.vie.write c.vieLen (wpsElement c.wsc)).read 0
        (c.vieLen + (c.wsc.length + 6))) = s.vie.read 0 c.vieLen ++ wpsElement c.wsc := by
      have hbehind := s.vie.read_write_same c.vieLen (wpsElement c.wsc)
      rw [wpsElement_length] at hbehind
      rw [Memory.read_add, Memory.read_write_disjoint _ (Or.inl (Nat.le_of_eq (Nat.zero_add _))),
        Nat.zero_add, hbehind]
    have happended : appendWps a ⟨reads, [], s, .next⟩ =
        { reads := reads
          writes := [⟨maxVieLen, ⟨c.vieLen, 6⟩⟩, ⟨maxVieLen, ⟨c.vieLen + 6, c.wsc.length⟩⟩]
          out :=
            { s with
              vie := s.vie.write c.vieLen (wpsElement c.wsc)
              lengthVIE := c.vieLen + (c.wsc.length + 6) }
          exit := .next } := by
      simp only [appendWps]
      rw [if_pos ⟨hbuf, hlimits.mpr ⟨hpos, hlt⟩⟩]
      simp only [hcount, h.wsc, h.vieLen, List.nil_append]
    rw [happended, imp_iff_right hbuf, imp_iff_right hpos, imp_iff_right hlt, EndsWell,
      Visit.Stays, List.forall_mem_cons, List.forall_mem_singleton]
    simp only [Span.Inside, hread, h.sanity, beq_iff_eq]
    constructor
    · rintro ⟨⟨hreads, -, hroom⟩, hvie⟩
      exact ⟨hreads, by omega, fun hsanity => h.stream.of_append (hvie hsanity).2⟩
    · rintro ⟨hreads, hroom, hstream⟩
      exact ⟨⟨hreads, by omega, by omega⟩,
        fun hsanity => ⟨hroom, h.stream.append (hstream hsanity)⟩⟩
  · have hkept : appendWps a ⟨reads, [], s, .next⟩ = ⟨reads, [], s, .next⟩ := by
      rw [appendWps, if_neg]
      exact fun h => happend ⟨h.1, hlimits.mp h.2⟩
    have hlast : a.pPeerWscIe = true → 0 < c.wsc.length → c.wsc.length < wscSize →
        c.vieLen + (c.wsc.length + 6) ≤ maxVieLen ∧
          (c.sanity = 7 → ElementStream (wpsElement c.wsc)) :=
      fun hbuf hpos hlt => absurd ⟨hbuf, hpos, hlt⟩ happend
    rw [hkept, and_iff_left hlast, EndsWell]
    simp only [h.vieLen]
    refine (and_iff_left fun _ => ⟨h.room, h.stream⟩).trans ?_
    exact and_iff_left fun _ hw => absurd hw List.not_mem_nil

/-- What follows a loop that ended by itself. -/
theorem endsWell_next (h : Tracks s c) (reads : List Span) :
    EndsWell (conclude a msgChannel ⟨reads, [], s, .next⟩) stop ↔
      (∀ r ∈ reads, r.Inside stop) ∧ c.LastFits a :=
  appendWps_endsWell (patchChannel_tracks h) reads

/-- The walk and what follows it, for a state that amounts to the counts. -/
theorem walk_endsWell (h : Tracks s c) :
    EndsWell (conclude a msgChannel (walk a m stop pos s)) stop ↔
      Counts.Fits a m stop (eidStruct.itemsEnd m stop pos) c (eidStruct.items m stop pos) := by
  fun_induction Tlv.items eidStruct m stop pos generalizing s c with
  | case1 pos hnext ih =>
    have hroom : pos + 2 ≤ stop := Nat.le_trans (eidStruct.header_le_next m pos) hnext
    have hid : (⟨pos, 1⟩ : Span).Inside stop := Nat.le_trans (Nat.le_succ (pos + 1)) hroom
    have hlen : (⟨pos + 1, 1⟩ : Span).Inside stop := hroom
    rw [Tlv.itemsEnd_of_complete hnext, Counts.Fits, walk, if_pos (by rwa [← eidStruct_next]),
      h.vieLen]
    by_cases hfull : maxVieLen ≤ c.vieLen + len m pos + 2
    · rw [if_pos hfull, if_pos hfull, endsWell_next h, List.forall_mem_singleton]
      exact and_iff_right hlen
    · rw [if_neg hfull, if_neg hfull]
      by_cases hstop : c.Stops a m pos
      · have hends := element_ends h hnext hstop
        have hheader : (element a m pos s).Stays stop → (⟨⟨pos + 1, 1⟩ :: ⟨pos, 1⟩ ::
            (element a m pos s).reads, (element a m pos s).writes, (element a m pos s).out,
            (element a m pos s).exit⟩ : Visit).Stays stop := fun h =>
          ⟨List.forall_mem_cons.mpr ⟨hlen, List.forall_mem_cons.mpr ⟨hid, h.1⟩⟩, h.2⟩
        simp only
        rw [if_neg hends.exit]
        exact iff_of_true (endsWell_of_ends h
          ⟨hends.exit, hheader hends.stays, hends.vie, hends.lengthVIE⟩) (Or.inl hstop)
      · have hmeets := element_meets h hnext (Nat.not_le.mp hfull) hstop
        simp only
        rw [if_pos hmeets.exit, endsWell_append, or_iff_right hstop, List.forall_mem_cons,
          and_iff_right hlen, List.forall_mem_cons, and_iff_right hid]
        refine (and_congr_left' hmeets.stays).trans (and_congr_right fun hfits => ?_)
        exact ih (hmeets.tracks hfits)
  | case2 pos hcut =>
    rw [Tlv.itemsEnd_of_cut (Nat.not_le.mp hcut), Counts.Fits, walk,
      if_neg (by rwa [← eidStruct_next]), endsWell_next h, List.forall_mem_singleton]
    rfl

end Walk

section Frames
variable {a : Adapter} {m : Memory} {msgLen : ℕ} {msgChannel : UInt8} {fields : Fields}
  {pVIE pPeerWscIe : Memory}

theorem start_tracks : Tracks ⟨0, 0, 0, pVIE, 0, pPeerWscIe, fields⟩ ⟨0, 0, 0, []⟩ :=
  ⟨rfl, rfl, rfl, rfl, rfl, ⟨[], rfl⟩, Nat.zero_le _⟩

/-- The fixed part, and the walk over the elements. -/
theorem sound_split :
    (peerBeaconAndProbeRspSanity a m msgLen msgChannel fields pVIE pPeerWscIe).Sound msgLen ↔
      36 ≤ msgLen ∧ EndsWell (conclude a msgChannel
        (walk a m msgLen 36 ⟨0, 0, 0, pVIE, 0, pPeerWscIe, resetFields a fields⟩)) msgLen := by
  have hfixed : (∀ r ∈ ([⟨0, 2⟩, ⟨10, 6⟩, ⟨16, 6⟩, ⟨24, 8⟩, ⟨32, 2⟩, ⟨34, 2⟩] : List Span),
      r.Inside msgLen) ↔ 36 ≤ msgLen := by
    rw [List.forall_mem_cons, List.forall_mem_cons, List.forall_mem_cons, List.forall_mem_cons,
      List.forall_mem_cons, List.forall_mem_singleton]
    simp only [Span.Inside]
    omega
  rw [← hfixed]
  constructor
  · intro h
    have hreads := List.forall_mem_append.mp h.reads
    exact ⟨hreads.1, ⟨hreads.2, h.writes⟩, h.vie⟩
  · rintro ⟨hstart, ⟨hreads, hwrites⟩, hvie⟩
    exact ⟨List.forall_mem_append.mpr ⟨hstart, hreads⟩, hwrites, hvie⟩

end Frames

/-- The parser reads only the frame, writes only inside of the arrays and leaves complete elements
in `pVIE`, for exactly the frames that fit. -/
theorem peerBeaconAndProbeRspSanity_sound_iff (a : Adapter) (m : Memory) (msgLen : ℕ)
    (msgChannel : UInt8) (fields : Fields) (pVIE pPeerWscIe : Memory) :
    (peerBeaconAndProbeRspSanity a m msgLen msgChannel fields pVIE pPeerWscIe).Sound msgLen ↔
      FrameFits a m msgLen := by
  rw [sound_split, FrameFits, walk_endsWell start_tracks]

/-- A station without a network. -/
def idleStation : Adapter := ⟨true, false, [], 0, [1], 1, 10, true⟩

def clearedEdca : EdcaParm := ⟨false, false, false, false, false, 0, 0, 0, 0, 0, fun _ => false⟩

def clearedFields : Fields where
  ssid := []
  channel := 0
  newChannel := 0
  cfParm := ⟨false, 0, 0, 0, 0⟩
  atimWin := 0
  erp := 0
  dtimCount := 0
  dtimPeriod := 0
  bcastFlag := false
  messageToMe := false
  supRate := []
  extRate := []
  ckipFlag := 0
  aironetCellPowerLimit := 0
  edcaParm := clearedEdca
  qbssLoad := ⟨false, 0, 0, 0⟩
  ralinkIe := 0
  preNHtCapabilityLen := 0
  selReg := 0
  htCapability := []
  extCapInfo := 0
  addHtInfoLen := 0
  addHtInfo := []
  newExtChannelOffset := 0
  ctrlChannel := 0

/-- A beacon with an empty vendor element, behind which the WPS OUI stands. -/
def emptyVendor : Memory :=
  let bytes : List UInt8 :=
    0x80 :: List.replicate 35 0 ++ [0xdd, 0x00, 0x00, 0x50, 0xf2, 0x04, 0x00, 0x00]
  fun i => bytes.getD i 0

/-- The length of the data of that element wraps. -/
theorem emptyVendor_overruns :
    ¬(peerBeaconAndProbeRspSanity idleStation emptyVendor 44 1 clearedFields 0 0).Sound 44 := by
  have hnext : eidStruct.next emptyVendor 36 ≤ 44 := by decide
  have hkind : elementKind (emptyVendor 36) = .vendorSpecific := by decide
  have hwps : vendorKind idleStation emptyVendor 36 0 = .wps := by decide
  intro h
  have hwalk := (walk_endsWell start_tracks).mp (sound_split.mp h).2
  rw [Tlv.items_of_complete hnext, Counts.Fits, if_neg (by decide)] at hwalk
  rcases hwalk with hstops | ⟨hfits, -⟩
  · rw [Counts.Stops, hkind] at hstops
    exact hstops
  · rw [Counts.ElementFits, hkind] at hfits
    have hroom := (hfits.2 hwps).room rfl (by decide)
    exact absurd hroom.1 (by decide)

end Rt5572.Beacon

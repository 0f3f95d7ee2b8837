import StandaloneDrivers.Rtl8188eu.AttributeSearch

/-! The searches for information elements (rtw_ieee80211.c): `rtw_get_ie`, `rtw_get_ie_ex`,
`rtw_get_wps_ie`, `rtw_get_wpa_ie` and `rtw_get_sec_ie`. -/
namespace Rtl8188eu
open Foundations

/-- A byte of id, a byte of length, and the body. -/
def elementFormat : Tlv where
  header := 2
  header_pos := Nat.two_pos
  body m p := (m (p + 1)).toNat

/-- The places that a search has read, and the element that it returns. -/
abbrev ElementSearch : Type := List Span × Option ℕ

/-- What is read to test an element, besides its id, and whether it is wanted. -/
structure Probe where
  reads : List Span
  wanted : Bool

section Code
variable (m : Memory)

/-- The loop of the searches: `found` is what they read of the element that they return. -/
def searchFrom (probe : ℕ → Probe) (found : ℕ → List Span) (stop p : ℕ) : ElementSearch :=
  if p < stop then
    if (probe p).wanted then (⟨p, 1⟩ :: (probe p).reads ++ found p, some p)
    else
      let rest := searchFrom probe found stop (elementFormat.next m p)
      (⟨p, 1⟩ :: (probe p).reads ++ ⟨p + 1, 1⟩ :: rest.1, rest.2)
  else ([], none)
  termination_by stop - p
  decreasing_by
    have := elementFormat.lt_next m p
    omega

def idProbe (index p : ℕ) : Probe := ⟨[], (m p).toNat == index⟩

/-- `rtw_get_ie`, from the address `pbuf` on -/
def rtwGetIe (pbuf index limit : ℕ) : ElementSearch :=
  searchFrom m (idProbe m index) (fun p => [⟨p + 1, 1⟩]) (pbuf + limit) pbuf

/-- The id, and the OUI of an element with the right id. -/
def ouiProbe (eid : UInt8) (oui : Option (List UInt8)) (p : ℕ) : Probe :=
  if m p = eid then
    match oui with
    | none => ⟨[], true⟩
    | some oui => ⟨[⟨p + 2, oui.length⟩], m.read (p + 2) oui.length == oui⟩
  else ⟨[], false⟩

/-- What is read of an element to copy it, and for its length. -/
def takenReads (ie ielen : Bool) (p : ℕ) : List Span :=
  (if ie then [⟨p + 1, 1⟩, ⟨p, elementFormat.size m p⟩] else []) ++
    if ielen then [⟨p + 1, 1⟩] else []

def rtwGetIeEx (inIe inLen : ℕ) (eid : UInt8) (oui : Option (List UInt8)) (ie ielen : Bool) :
    ElementSearch :=
  searchFrom m (ouiProbe m eid oui) (takenReads m ie ielen) (inIe + inLen) inIe

def wpsOui : List UInt8 := [0x00, 0x50, 0xf2, 0x04]

/-- `rtw_get_wps_ie`, which steps over the element that it has found. -/
def rtwGetWpsIe (inIe inLen : ℕ) (wpsIe wpsIelen : Bool) : ElementSearch :=
  searchFrom m (ouiProbe m vendorSpecificIe (some wpsOui))
    (fun p => takenReads m wpsIe wpsIelen p ++ [⟨p + 1, 1⟩]) (inIe + inLen) inIe

def wpaOui : List UInt8 := [0x00, 0x50, 0xf2, 0x01]

/-- The OUI and the version of a vendor element. -/
def wpaVersion (p : ℕ) : Probe :=
  if m.read (p + 2) 4 = wpaOui then ⟨[⟨p + 2, 4⟩, ⟨p + 6, 2⟩], m.le16 (p + 6) == 1⟩
  else ⟨[⟨p + 2, 4⟩], false⟩

theorem searchFrom_ge {probe : ℕ → Probe} {found : ℕ → List Span} {stop p q : ℕ}
    (h : (searchFrom m probe found stop p).2 = some q) : p ≤ q := by
  fun_induction searchFrom m probe found stop p with
  | case1 p _ hwanted => exact Nat.le_of_eq (Option.some.inj h)
  | case2 p _ hwanted rest ih =>
    exact Nat.le_of_lt (Nat.lt_of_lt_of_le (elementFormat.lt_next m p) (ih h))
  | case3 => cases h

/-- `rtw_get_wpa_ie`, whose inner search starts again behind each vendor element that is another. -/
def wpaFrom (stop pbuf : ℕ) : ElementSearch :=
  let inner := rtwGetIe m pbuf vendorSpecificIe.toNat (stop - pbuf)
  match _h : (rtwGetIe m pbuf vendorSpecificIe.toNat (stop - pbuf)).2 with
  | none => (inner.1, none)
  | some p =>
      let reads := inner.1 ++ (wpaVersion m p).reads
      if (wpaVersion m p).wanted then (reads, some p)
      else if _hle : stop ≤ elementFormat.next m p then (reads, none)
      else
        let rest := wpaFrom stop (elementFormat.next m p)
        (reads ++ rest.1, rest.2)
  termination_by stop - pbuf
  decreasing_by
    have hge := searchFrom_ge m _h
    have := elementFormat.lt_next m p
    omega

def rtwGetWpaIe (pie limit : ℕ) : ElementSearch := wpaFrom m (pie + limit) pie

/-- `_WPA2_IE_ID_` -/
def wpa2IeId : UInt8 := 0x30

/-- What `rtw_get_sec_ie` has read, the elements that it has taken, and their lengths. -/
structure SecSearch where
  reads : List Span
  taken : List ℕ
  rsnLen : ℕ
  wpaLen : ℕ

/-- The loop of `rtw_get_sec_ie`; the flags are the buffers that are there. -/
def secFrom (rsnIe wpaIe : Bool) (stop cnt : ℕ) (rsnLen wpaLen : ℕ) : SecSearch :=
  if cnt < stop then
    let wpa := ouiProbe m vendorSpecificIe (some wpaOui) cnt
    if wpa.wanted then
      let rest := secFrom rsnIe wpaIe stop (elementFormat.next m cnt) rsnLen
        (elementFormat.size m cnt)
      { rest with
        reads := ⟨cnt, 1⟩ :: wpa.reads ++ takenReads m wpaIe true cnt ++ rest.reads
        taken := cnt :: rest.taken }
    else if m cnt = wpa2IeId then
      let rest := secFrom rsnIe wpaIe stop (elementFormat.next m cnt) (elementFormat.size m cnt)
        wpaLen
      { rest with
        reads := ⟨cnt, 1⟩ :: wpa.reads ++ takenReads m rsnIe true cnt ++ rest.reads
        taken := cnt :: rest.taken }
    else
      let rest := secFrom rsnIe wpaIe stop (elementFormat.next m cnt) rsnLen wpaLen
      { rest with reads := ⟨cnt, 1⟩ :: wpa.reads ++ ⟨cnt + 1, 1⟩ :: rest.reads }
  else ⟨[], [], rsnLen, wpaLen⟩
  termination_by stop - cnt
  decreasing_by
    all_goals
      have := elementFormat.lt_next m cnt
      omega

/-- `rtw_get_sec_ie`, behind the fixed fields; the lengths start as the caller has set them. -/
def rtwGetSecIe (inLen : ℕ) (rsnIe wpaIe : Bool) (rsnLen wpaLen : ℕ) : SecSearch :=
  secFrom m rsnIe wpaIe inLen 12 rsnLen wpaLen

/-- A search reads bytes of the string only, and returns a complete element. -/
structure ElementSound (len : ℕ) (r : ElementSearch) : Prop where
  reads : ∀ s ∈ r.1, s.Inside len
  returned : ∀ p, r.2 = some p → elementFormat.next m p ≤ len

/-- The same for the search that takes several elements. -/
structure SecSound (len : ℕ) (r : SecSearch) : Prop where
  reads : ∀ s ∈ r.reads, s.Inside len
  taken : ∀ p ∈ r.taken, elementFormat.next m p ≤ len

/-- A list up to the first member that is wanted. -/
def upTo (wanted : ℕ → Bool) : List ℕ → List ℕ
  | [] => []
  | p :: ps => if wanted p then [p] else p :: upTo wanted ps

/-- What stands behind the complete elements is nothing, or a whole header of an element that can be
seen not to be wanted. -/
def TailFits (probe : ℕ → Probe) (len e : ℕ) : Prop :=
  len ≤ e ∨ e + 2 ≤ len ∧ (probe e).wanted = false ∧ ∀ s ∈ (probe e).reads, s.Inside len

/-- The complete elements up to the first wanted one can be tested, and without a wanted one the
rest fits. -/
structure SearchFits (probe : ℕ → Probe) (len pos : ℕ) : Prop where
  tested : ∀ p ∈ upTo (fun q => (probe q).wanted) (elementFormat.items m len pos),
    ∀ s ∈ (probe p).reads, s.Inside len
  tail : (∃ p ∈ elementFormat.items m len pos, (probe p).wanted = true) ∨
    TailFits probe len (elementFormat.itemsEnd m len pos)

/-- All complete elements can be tested, and the rest fits. -/
structure SecFits (probe : ℕ → Probe) (len pos : ℕ) : Prop where
  tested : ∀ p ∈ elementFormat.items m len pos, ∀ s ∈ (probe p).reads, s.Inside len
  tail : TailFits probe len (elementFormat.itemsEnd m len pos)

/-- The elements that `rtw_get_wpa_ie` wants. -/
def wpaProbe (p : ℕ) : Probe :=
  if m p = vendorSpecificIe then wpaVersion m p else ⟨[], false⟩

/-- The elements that `rtw_get_sec_ie` takes. -/
def secProbe (p : ℕ) : Probe :=
  let wpa := ouiProbe m vendorSpecificIe (some wpaOui) p
  ⟨wpa.reads, wpa.wanted || m p == wpa2IeId⟩

end Code

section Search
variable {m : Memory} {probe : ℕ → Probe} {found : ℕ → List Span} {len p : ℕ}

theorem searchFrom_wanted (hlt : p < len) (h : (probe p).wanted = true) :
    searchFrom m probe found len p = (⟨p, 1⟩ :: (probe p).reads ++ found p, some p) := by
  rw [searchFrom, if_pos hlt, if_pos h]

theorem searchFrom_other (hlt : p < len) (h : (probe p).wanted = false) :
    searchFrom m probe found len p =
      (⟨p, 1⟩ :: (probe p).reads ++
        ⟨p + 1, 1⟩ :: (searchFrom m probe found len (elementFormat.next m p)).1,
        (searchFrom m probe found len (elementFormat.next m p)).2) := by
  rw [searchFrom, if_pos hlt, if_neg (by simp [h])]

theorem searchFrom_end (hge : len ≤ p) : searchFrom m probe found len p = ([], none) := by
  rw [searchFrom, if_neg (Nat.not_lt.mpr hge)]

/-- The search in what stands behind the complete elements. -/
theorem searchFrom_tail (hcut : len < elementFormat.next m p) :
    ElementSound m len (searchFrom m probe found len p) ↔ TailFits probe len p := by
  rcases Nat.lt_or_ge p len with hlt | hge
  · cases hwanted : (probe p).wanted with
    | true =>
      rw [searchFrom_wanted hlt hwanted]
      constructor
      · intro h
        have := h.returned p rfl
        omega
      · rintro (hge | ⟨-, hother, -⟩)
        · omega
        · rw [hwanted] at hother
          cases hother
    | false =>
      rw [searchFrom_other hlt hwanted, searchFrom_end (Nat.le_of_lt hcut)]
      constructor
      · intro h
        have hreads := h.reads
        simp only [List.cons_append, List.forall_mem_cons, List.forall_mem_append] at hreads
        exact Or.inr ⟨hreads.2.2.1, hwanted, hreads.2.1⟩
      · rintro (hge | ⟨hheader, -, htested⟩)
        · omega
        · refine ⟨?_, nofun⟩
          simp only [List.cons_append, List.forall_mem_cons, List.forall_mem_append]
          exact ⟨hlt, htested, hheader, nofun⟩
  · rw [searchFrom_end hge]
    exact ⟨fun _ => Or.inl hge, fun _ => ⟨nofun, nofun⟩⟩

theorem searchFits_wanted (hle : elementFormat.next m p ≤ len) (h : (probe p).wanted = true) :
    SearchFits m probe len p ↔ ∀ s ∈ (probe p).reads, s.Inside len := by
  have hitems := Tlv.items_of_complete hle
  constructor
  · rintro ⟨htested, -⟩
    rwa [hitems, upTo, if_pos h, List.forall_mem_singleton] at htested
  · intro htested
    refine ⟨?_, Or.inl ⟨p, by rw [hitems]; exact List.mem_cons_self, h⟩⟩
    rwa [hitems, upTo, if_pos h, List.forall_mem_singleton]

theorem searchFits_other (hle : elementFormat.next m p ≤ len) (h : (probe p).wanted = false) :
    SearchFits m probe len p ↔ (∀ s ∈ (probe p).reads, s.Inside len) ∧
      SearchFits m probe len (elementFormat.next m p) := by
  have hitems := Tlv.items_of_complete hle
  constructor
  · rintro ⟨htested, htail⟩
    rw [hitems, upTo, if_neg (by simp [h]), List.forall_mem_cons] at htested
    rw [hitems, Tlv.itemsEnd_of_complete hle] at htail
    refine ⟨htested.1, htested.2, ?_⟩
    rcases htail with ⟨q, hq, hwanted⟩ | htail
    · rcases List.mem_cons.mp hq with rfl | hq
      · rw [h] at hwanted
        cases hwanted
      · exact Or.inl ⟨q, hq, hwanted⟩
    · exact Or.inr htail
  · rintro ⟨htest, htested, htail⟩
    constructor
    · rw [hitems, upTo, if_neg (by simp [h]), List.forall_mem_cons]
      exact ⟨htest, htested⟩
    · rw [hitems, Tlv.itemsEnd_of_complete hle]
      rcases htail with ⟨q, hq, hwanted⟩ | htail
      · exact Or.inl ⟨q, List.mem_cons_of_mem p hq, hwanted⟩
      · exact Or.inr htail

theorem searchFits_cut (hcut : len < elementFormat.next m p) :
    SearchFits m probe len p ↔ TailFits probe len p := by
  constructor
  · rintro ⟨-, htail⟩
    rw [Tlv.items_of_cut hcut, Tlv.itemsEnd_of_cut hcut] at htail
    rcases htail with ⟨q, hq, -⟩ | htail
    · cases hq
    · exact htail
  · intro h
    refine ⟨?_, Or.inr (by rwa [Tlv.itemsEnd_of_cut hcut])⟩
    rw [Tlv.items_of_cut hcut]
    exact nofun

/-- A search is sound exactly for the strings that fit it. -/
theorem searchFrom_sound_iff
    (hfound : ∀ q, elementFormat.next m q ≤ len → ∀ s ∈ found q, s.Inside len) :
    ElementSound m len (searchFrom m probe found len p) ↔ SearchFits m probe len p := by
  fun_induction Tlv.items elementFormat m len p with
  | case1 p hle ih =>
    have hlt := elementFormat.lt_next m p
    have hheader : p + 2 ≤ elementFormat.next m p := elementFormat.header_le_next m p
    cases hwanted : (probe p).wanted with
    | true =>
      rw [searchFrom_wanted (by omega) hwanted, searchFits_wanted hle hwanted]
      constructor
      · intro h
        have hreads := h.reads
        simp only [List.cons_append, List.forall_mem_cons, List.forall_mem_append] at hreads
        exact hreads.2.1
      · intro htested
        refine ⟨?_, fun q hq => by cases hq; exact hle⟩
        simp only [List.cons_append, List.forall_mem_cons, List.forall_mem_append]
        exact ⟨by simp only [Span.Inside]; omega, htested, hfound p hle⟩
    | false =>
      rw [searchFrom_other (by omega) hwanted, searchFits_other hle hwanted, ← ih]
      constructor
      · intro h
        have hreads := h.reads
        simp only [List.cons_append, List.forall_mem_cons, List.forall_mem_append] at hreads
        exact ⟨hreads.2.1, hreads.2.2.2, h.returned⟩
      · rintro ⟨htest, hrest⟩
        refine ⟨?_, hrest.returned⟩
        simp only [List.cons_append, List.forall_mem_cons, List.forall_mem_append]
        exact ⟨by simp only [Span.Inside]; omega, htest, by simp only [Span.Inside]; omega,
          hrest.reads⟩
  | case2 p hcut =>
    have hlt := Nat.not_le.mp hcut
    rw [searchFrom_tail hlt, searchFits_cut hlt]

end Search

section Wpa
variable {m : Memory} {stop p : ℕ}

/-- What follows an inner search. -/
def wpaBehind (m : Memory) (stop : ℕ) (inner : ElementSearch) : ElementSearch :=
  match inner.2 with
  | none => (inner.1, none)
  | some p =>
      if (wpaVersion m p).wanted then (inner.1 ++ (wpaVersion m p).reads, some p)
      else if stop ≤ elementFormat.next m p then (inner.1 ++ (wpaVersion m p).reads, none)
      else (inner.1 ++ (wpaVersion m p).reads ++ (wpaFrom m stop (elementFormat.next m p)).1,
        (wpaFrom m stop (elementFormat.next m p)).2)

theorem wpaFrom_eq (stop p : ℕ) : wpaFrom m stop p =
    wpaBehind m stop (rtwGetIe m p vendorSpecificIe.toNat (stop - p)) := by
  rw [wpaFrom, wpaBehind]
  split
  · rename_i heq
    simp only [heq]
  · rename_i q heq
    simp only [heq]
    split
    · rfl
    · split <;> rfl

/-- An inner search is the loop up to the end of the string. -/
theorem rtwGetIe_eq (stop p index : ℕ) : rtwGetIe m p index (stop - p) =
    searchFrom m (idProbe m index) (fun q => [⟨q + 1, 1⟩]) stop p := by
  rw [rtwGetIe]
  rcases Nat.le_total p stop with hle | hge
  · rw [Nat.add_sub_cancel' hle]
  · rw [searchFrom_end (by omega), searchFrom_end hge]

theorem idProbe_wanted (p : ℕ) :
    (idProbe m vendorSpecificIe.toNat p).wanted = (m p == vendorSpecificIe) := by
  rw [idProbe, Bool.eq_iff_iff, beq_iff_eq, beq_iff_eq, UInt8.toNat_inj]

theorem wpaFrom_end (hge : stop ≤ p) : wpaFrom m stop p = ([], none) := by
  rw [wpaFrom_eq, rtwGetIe_eq, searchFrom_end hge]
  rfl

theorem wpaBehind_cons (s : Span) (r : ElementSearch) : wpaBehind m stop (s :: r.1, r.2) =
    (s :: (wpaBehind m stop r).1, (wpaBehind m stop r).2) := by
  simp only [wpaBehind]
  split
  · rfl
  · split
    · rfl
    · split <;> rfl

/-- The inner search passes an element with another id. -/
theorem wpaFrom_other (hlt : p < stop) (hid : m p ≠ vendorSpecificIe) :
    wpaFrom m stop p = (⟨p, 1⟩ :: ⟨p + 1, 1⟩ :: (wpaFrom m stop (elementFormat.next m p)).1,
      (wpaFrom m stop (elementFormat.next m p)).2) := by
  have hother : (idProbe m vendorSpecificIe.toNat p).wanted = false := by
    rw [idProbe_wanted]
    simpa using hid
  rw [wpaFrom_eq, rtwGetIe_eq, searchFrom_other hlt hother, wpaFrom_eq stop, rtwGetIe_eq]
  exact (wpaBehind_cons _ (⟨p + 1, 1⟩ :: _, _)).trans (by rw [wpaBehind_cons])

theorem wpaFrom_vendor (hlt : p < stop) (hid : m p = vendorSpecificIe) :
    wpaFrom m stop p = if (wpaVersion m p).wanted then
        (⟨p, 1⟩ :: ⟨p + 1, 1⟩ :: (wpaVersion m p).reads, some p)
      else (⟨p, 1⟩ :: ⟨p + 1, 1⟩ :: (wpaVersion m p).reads ++
          (wpaFrom m stop (elementFormat.next m p)).1,
        (wpaFrom m stop (elementFormat.next m p)).2) := by
  have hvendor : (idProbe m vendorSpecificIe.toNat p).wanted = true := by
    rw [idProbe_wanted]
    simpa using hid
  rw [wpaFrom_eq, rtwGetIe_eq, searchFrom_wanted hlt hvendor]
  simp only [wpaBehind, idProbe]
  split
  · rfl
  · split
    · rename_i hge
      rw [wpaFrom_end hge, List.append_nil]
      rfl
    · rfl

/-- The restarted searches see what one search for the element would see. -/
theorem wpaFrom_same (stop p : ℕ) :
    (wpaFrom m stop p).2 = (searchFrom m (wpaProbe m) (fun q => [⟨q + 1, 1⟩]) stop p).2 ∧
      ∀ s, s ∈ (wpaFrom m stop p).1 ↔
        s ∈ (searchFrom m (wpaProbe m) (fun q => [⟨q + 1, 1⟩]) stop p).1 := by
  fun_induction searchFrom m (wpaProbe m) (fun q => [⟨q + 1, 1⟩]) stop p with
  | case1 p hlt hwanted =>
    have hid : m p = vendorSpecificIe := by
      by_contra hid
      simp [wpaProbe, hid] at hwanted
    have hprobe : wpaProbe m p = wpaVersion m p := if_pos hid
    rw [hprobe] at hwanted ⊢
    rw [wpaFrom_vendor hlt hid, if_pos hwanted]
    refine ⟨rfl, fun s => ?_⟩
    simp only [List.mem_cons, List.mem_append, List.cons_append, List.not_mem_nil, or_false]
    tauto
  | case2 p hlt hwanted rest ih =>
    obtain ⟨hresult, hreads⟩ := ih
    by_cases hid : m p = vendorSpecificIe
    · have hprobe : wpaProbe m p = wpaVersion m p := if_pos hid
      rw [hprobe] at hwanted ⊢
      rw [wpaFrom_vendor hlt hid, if_neg hwanted]
      refine ⟨hresult, fun s => ?_⟩
      simp only [List.mem_cons, List.mem_append, List.cons_append, hreads, rest]
      tauto
    · have hprobe : wpaProbe m p = ⟨[], false⟩ := if_neg hid
      rw [hprobe, wpaFrom_other hlt hid]
      refine ⟨hresult, fun s => ?_⟩
      simp only [List.mem_cons, List.cons_append, List.nil_append, hreads, rest]
  | case3 p hge =>
    rw [wpaFrom_end (Nat.not_lt.mp hge)]
    exact ⟨rfl, fun s => Iff.rfl⟩

/-- The search is sound exactly for the strings that fit the single search. -/
theorem wpaFrom_sound_iff (len p : ℕ) :
    ElementSound m len (wpaFrom m len p) ↔ SearchFits m (wpaProbe m) len p := by
  obtain ⟨hresult, hreads⟩ := wpaFrom_same (m := m) len p
  have hsound := @searchFrom_sound_iff m (wpaProbe m)
    (fun q => [⟨q + 1, 1⟩]) len p (by
      intro q hq
      have hheader : q + 2 ≤ elementFormat.next m q := elementFormat.header_le_next m q
      exact List.forall_mem_singleton.mpr (Nat.le_trans hheader hq))
  rw [← hsound]
  constructor
  · rintro ⟨hinside, hreturned⟩
    exact ⟨fun s hs => hinside s ((hreads s).mpr hs), fun q hq => hreturned q (hresult.trans hq)⟩
  · rintro ⟨hinside, hreturned⟩
    exact ⟨fun s hs => hinside s ((hreads s).mp hs),
      fun q hq => hreturned q (hresult.symm.trans hq)⟩

end Wpa

section Sec
variable {m : Memory} {rsnIe wpaIe : Bool} {len p rsnLen wpaLen : ℕ}

theorem takenReads_inside {ie ielen : Bool} (hle : elementFormat.next m p ≤ len) :
    ∀ s ∈ takenReads m ie ielen p, s.Inside len := by
  have hheader : p + 2 ≤ elementFormat.next m p := elementFormat.header_le_next m p
  have hbyte : Span.Inside ⟨p + 1, 1⟩ len := Nat.le_trans hheader hle
  rw [takenReads, List.forall_mem_append]
  constructor
  · split
    · exact List.forall_mem_cons.mpr ⟨hbyte, List.forall_mem_singleton.mpr hle⟩
    · exact nofun
  · split
    · exact List.forall_mem_singleton.mpr hbyte
    · exact nofun

/-- A round of the search for the elements of security. -/
theorem secFrom_round (hlt : p < len) : ∃ rsnLen' wpaLen' taken,
    (secFrom m rsnIe wpaIe len p rsnLen wpaLen).reads = ⟨p, 1⟩ :: (secProbe m p).reads ++ taken ++
        (secFrom m rsnIe wpaIe len (elementFormat.next m p) rsnLen' wpaLen').reads ∧
      (secFrom m rsnIe wpaIe len p rsnLen wpaLen).taken =
        (if (secProbe m p).wanted then [p] else []) ++
          (secFrom m rsnIe wpaIe len (elementFormat.next m p) rsnLen' wpaLen').taken ∧
      ⟨p + 1, 1⟩ ∈ taken ∧
      ((elementFormat.next m p ≤ len ∨ (secProbe m p).wanted = false ∧ p + 2 ≤ len) →
        ∀ s ∈ taken, s.Inside len) := by
  have hlength : ∀ ie : Bool, ⟨p + 1, 1⟩ ∈ takenReads m ie true p := fun ie =>
    List.mem_append_right _ List.mem_cons_self
  by_cases hwpa : (ouiProbe m vendorSpecificIe (some wpaOui) p).wanted = true
  · have hwanted : (secProbe m p).wanted = true := by simp [secProbe, hwpa]
    rw [hwanted]
    refine ⟨rsnLen, elementFormat.size m p, takenReads m wpaIe true p, ?_, ?_, hlength _, ?_⟩
    · rw [secFrom, if_pos hlt, if_pos hwpa]
      rfl
    · rw [secFrom, if_pos hlt, if_pos hwpa]
      rfl
    · rintro (hle | ⟨hother, -⟩)
      · exact takenReads_inside hle
      · cases hother
  · by_cases hrsn : m p = wpa2IeId
    · have hwanted : (secProbe m p).wanted = true := by simp [secProbe, hrsn]
      rw [hwanted]
      refine ⟨elementFormat.size m p, wpaLen, takenReads m rsnIe true p, ?_, ?_, hlength _, ?_⟩
      · rw [secFrom, if_pos hlt, if_neg hwpa, if_pos hrsn]
        rfl
      · rw [secFrom, if_pos hlt, if_neg hwpa, if_pos hrsn]
        rfl
      · rintro (hle | ⟨hother, -⟩)
        · exact takenReads_inside hle
        · cases hother
    · have hwanted : (secProbe m p).wanted = false := by simp [secProbe, hwpa, hrsn]
      rw [hwanted]
      refine ⟨rsnLen, wpaLen, [⟨p + 1, 1⟩], ?_, ?_, List.mem_cons_self, ?_⟩
      · rw [secFrom, if_pos hlt, if_neg hwpa, if_neg hrsn]
        simp [secProbe]
      · rw [secFrom, if_pos hlt, if_neg hwpa, if_neg hrsn]
        rfl
      · have hheader : p + 2 ≤ elementFormat.next m p := elementFormat.header_le_next m p
        intro h
        refine List.forall_mem_singleton.mpr ?_
        rcases h with hle | ⟨-, hle⟩
        · exact Nat.le_trans hheader hle
        · exact hle

theorem secFrom_end (hge : len ≤ p) :
    secFrom m rsnIe wpaIe len p rsnLen wpaLen = ⟨[], [], rsnLen, wpaLen⟩ := by
  rw [secFrom, if_neg (Nat.not_lt.mpr hge)]

section
variable {probe : ℕ → Probe}

theorem secFits_complete (hle : elementFormat.next m p ≤ len) :
    SecFits m probe len p ↔ (∀ s ∈ (probe p).reads, s.Inside len) ∧
      SecFits m probe len (elementFormat.next m p) := by
  have hitems := Tlv.items_of_complete hle
  constructor
  · rintro ⟨htested, htail⟩
    rw [hitems, List.forall_mem_cons] at htested
    rw [Tlv.itemsEnd_of_complete hle] at htail
    exact ⟨htested.1, htested.2, htail⟩
  · rintro ⟨htest, htested, htail⟩
    constructor
    · rw [hitems, List.forall_mem_cons]
      exact ⟨htest, htested⟩
    · rwa [Tlv.itemsEnd_of_complete hle]

theorem secFits_cut (hcut : len < elementFormat.next m p) :
    SecFits m probe len p ↔ TailFits probe len p := by
  constructor
  · rintro ⟨-, htail⟩
    rwa [Tlv.itemsEnd_of_cut hcut] at htail
  · intro h
    refine ⟨?_, by rwa [Tlv.itemsEnd_of_cut hcut]⟩
    rw [Tlv.items_of_cut hcut]
    exact nofun

end

theorem secFrom_tail (hcut : len < elementFormat.next m p) :
    SecSound m len (secFrom m rsnIe wpaIe len p rsnLen wpaLen) ↔ TailFits (secProbe m) len p := by
  rcases Nat.lt_or_ge p len with hlt | hge
  · obtain ⟨rsnLen', wpaLen', taken, hreads, htaken, hlength, hinside⟩ := @secFrom_round m rsnIe wpaIe
      len p rsnLen wpaLen hlt
    rw [secFrom_end (Nat.le_of_lt hcut), List.append_nil] at hreads htaken
    constructor
    · rintro ⟨h, hcomplete⟩
      rw [hreads] at h
      rw [htaken] at hcomplete
      simp only [List.cons_append, List.forall_mem_cons, List.forall_mem_append] at h
      refine Or.inr ⟨h.2.2 _ hlength, ?_, h.2.1⟩
      cases hwanted : (secProbe m p).wanted with
      | false => rfl
      | true =>
        rw [hwanted, if_pos rfl, List.forall_mem_singleton] at hcomplete
        omega
    · rintro (hge | ⟨hheader, hother, htested⟩)
      · omega
      · constructor
        · rw [hreads]
          simp only [List.cons_append, List.forall_mem_cons, List.forall_mem_append]
          exact ⟨hlt, htested, hinside (Or.inr ⟨hother, hheader⟩)⟩
        · rw [htaken, hother, if_neg (by decide)]
          exact nofun
  · rw [secFrom_end hge]
    exact ⟨fun _ => Or.inl hge, fun _ => ⟨nofun, nofun⟩⟩

/-- The search is sound exactly for the strings that fit it to their end. -/
theorem secFrom_sound_iff : SecSound m len (secFrom m rsnIe wpaIe len p rsnLen wpaLen) ↔
    SecFits m (secProbe m) len p := by
  fun_induction Tlv.items elementFormat m len p generalizing rsnLen wpaLen with
  | case1 p hle ih =>
    have hlt := elementFormat.lt_next m p
    obtain ⟨rsnLen', wpaLen', taken, hreads, htaken, -, hinside⟩ := @secFrom_round m rsnIe wpaIe
      len p rsnLen wpaLen (by omega)
    have hrest := @ih rsnLen' wpaLen'
    rw [secFits_complete hle, ← hrest]
    constructor
    · rintro ⟨h, hcomplete⟩
      rw [hreads] at h
      rw [htaken, List.forall_mem_append] at hcomplete
      simp only [List.cons_append, List.forall_mem_cons, List.forall_mem_append] at h
      exact ⟨h.2.1.1, h.2.2, hcomplete.2⟩
    · rintro ⟨htest, h, hcomplete⟩
      constructor
      · rw [hreads]
        simp only [List.cons_append, List.forall_mem_cons, List.forall_mem_append]
        exact ⟨by simp only [Span.Inside]; omega, ⟨htest, hinside (Or.inl hle)⟩, h⟩
      · rw [htaken, List.forall_mem_append]
        refine ⟨?_, hcomplete⟩
        split
        · exact List.forall_mem_singleton.mpr hle
        · exact List.forall_mem_nil _
  | case2 p hcut =>
    have hlt := Nat.not_le.mp hcut
    rw [secFits_cut hlt, secFrom_tail hlt]

end Sec

/-- The five searches stay inside a string and return elements that lie in it exactly when it fits
them. -/
theorem elementSearch_sound_iff (m : Memory) (len index : ℕ) (eid : UInt8)
    (oui : Option (List UInt8)) (ie ielen rsnIe wpaIe : Bool) (rsnLen wpaLen : ℕ) :
    (ElementSound m len (rtwGetIe m 0 index len) ↔ SearchFits m (idProbe m index) len 0) ∧
    (ElementSound m len (rtwGetIeEx m 0 len eid oui ie ielen) ↔
      SearchFits m (ouiProbe m eid oui) len 0) ∧
    (ElementSound m len (rtwGetWpaIe m 0 len) ↔ SearchFits m (wpaProbe m) len 0) ∧
    (SecSound m len (rtwGetSecIe m len rsnIe wpaIe rsnLen wpaLen) ↔
      SecFits m (secProbe m) len 12) ∧
    (ElementSound m len (rtwGetWpsIe m 0 len ie ielen) ↔
      SearchFits m (ouiProbe m vendorSpecificIe (some wpsOui)) len 0) := by
  have hlength : ∀ q, elementFormat.next m q ≤ len →
      ∀ s ∈ [(⟨q + 1, 1⟩ : Span)], s.Inside len := by
    intro q hq
    have hheader : q + 2 ≤ elementFormat.next m q := elementFormat.header_le_next m q
    exact List.forall_mem_singleton.mpr (Nat.le_trans hheader hq)
  simp only [rtwGetIe, rtwGetIeEx, rtwGetWpaIe, rtwGetSecIe, rtwGetWpsIe, Nat.zero_add]
  refine ⟨searchFrom_sound_iff hlength, searchFrom_sound_iff fun q hq => takenReads_inside hq,
    wpaFrom_sound_iff len 0, secFrom_sound_iff, searchFrom_sound_iff fun q hq => ?_⟩
  exact List.forall_mem_append.mpr ⟨takenReads_inside hq, hlength q hq⟩

/-- Half a header at the end. -/
theorem halfHeader_outside : ¬ ElementSound (fun _ => 0) 1 (rtwGetIe (fun _ => 0) 0 5 1) := by
  intro h
  have hread := h.reads ⟨1, 1⟩ (by
    rw [rtwGetIe, searchFrom_other (by decide) (by decide)]
    exact List.mem_cons_of_mem _ List.mem_cons_self)
  exact absurd hread (by decide)

end Rtl8188eu

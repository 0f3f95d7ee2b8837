import StandaloneDrivers.Foundations.Tlv

/-! The search for an attribute of a WPS or P2P element (rtw_ieee80211.c). The element stands at the
beginning of the memory. -/
namespace Rtl8188eu
open Foundations

/-- `_VENDOR_SPECIFIC_IE_` and `_WPA_IE_ID_` -/
def vendorSpecificIe : UInt8 := 221

/-- Big endian, as `RTW_GET_BE16` -/
def getBe16 (m : Memory) (i : ℕ) : ℕ := 256 * (m i).toNat + (m (i + 1)).toNat

/-- The attributes of an element, by its OUI and type. -/
structure AttrFormat extends Tlv where
  oui : List UInt8
  attrId : Memory → ℕ → ℕ

/-- Two bytes of id and two of length. -/
def wpsFormat : AttrFormat where
  header := 4
  header_pos := Nat.succ_pos _
  body m p := getBe16 m (p + 2)
  oui := [0x00, 0x50, 0xf2, 0x04]
  attrId := getBe16

/-- A byte of id and two of length, the lower first. -/
def p2pFormat : AttrFormat where
  header := 3
  header_pos := by decide
  body m p := m.le16 (p + 1)
  oui := [0x50, 0x6f, 0x9a, 0x09]
  attrId m p := (m p).toNat

/-- The places that a search has read, and its result: the attribute and `len_attr`. -/
abbrev AttrSearch : Type := List Span × Option (ℕ × ℕ)

section Code
variable (f : AttrFormat) (m : Memory) (ielen targetAttrId : ℕ) (bufAttr : Bool)

/-- `attr_len`, a `u16` -/
def attrLen (p : ℕ) : ℕ := f.size m p % 65536

/-- The loop over the attributes, cut off after a number of rounds. -/
def attrLoop : ℕ → ℕ → Option AttrSearch
  | 0, p => if p < ielen then none else some ([], none)
  | fuel + 1, p =>
      if p < ielen then
        if f.attrId m p = targetAttrId then
          some (⟨p, f.header⟩ :: (if bufAttr then [⟨p, attrLen f m p⟩] else []),
            some (p, attrLen f m p))
        else (attrLoop fuel (p + attrLen f m p)).map fun r => (⟨p, f.header⟩ :: r.1, r.2)
      else some ([], none)

/-- The test of the element, and the search from the byte behind the type on. -/
def getAttr (fuel : ℕ) : Option AttrSearch :=
  if m 0 ≠ vendorSpecificIe then some ([⟨0, 1⟩], none)
  else if m.read 2 4 ≠ f.oui then some ([⟨0, 1⟩, ⟨2, 4⟩], none)
  else (attrLoop f m ielen targetAttrId bufAttr fuel 6).map
    fun r => (⟨0, 1⟩ :: ⟨2, 4⟩ :: r.1, r.2)

def rtwGetWpsAttr : ℕ → Option AttrSearch := getAttr wpsFormat m ielen targetAttrId bufAttr

def rtwGetP2pAttr : ℕ → Option AttrSearch := getAttr p2pFormat m ielen targetAttrId bufAttr

/-- The element is of the type of the attributes. -/
def IsTyped : Prop := 6 ≤ ielen ∧ m 0 = vendorSpecificIe ∧ m.read 2 4 = f.oui

instance : Decidable (IsTyped f m ielen) := inferInstanceAs (Decidable (_ ∧ _ ∧ _))

/-- The first complete attribute with an id, in front of which all are complete. -/
def firstAttr (p : ℕ) : Option (ℕ × ℕ) :=
  ((f.items m ielen p).find? fun q => f.attrId m q == targetAttrId).map fun q => (q, f.size m q)

/-- A search ends, reads bytes of the element only, and finds the first attribute. -/
def SearchSound (search : ℕ → Option AttrSearch) : Prop :=
  ∃ fuel r, search fuel = some r ∧ (∀ s ∈ r.1, s.Inside ielen) ∧
    r.2 = if IsTyped f m ielen then firstAttr f m ielen targetAttrId 6 else none

/-- From here on the search meets headers inside the element only, with other ids, up to its end. -/
inductive Quiet : ℕ → Prop
  | done {p : ℕ} (h : ielen ≤ p) : Quiet p
  | step {p : ℕ} (hheader : p + f.header ≤ ielen) (hid : f.attrId m p ≠ targetAttrId)
      (hrest : Quiet (p + attrLen f m p)) : Quiet p

/-- The type of the element can be read, and where the complete attributes end without the wanted
one the search is quiet. -/
def Searchable : Prop :=
  (0 < ielen ∧ m 0 ≠ vendorSpecificIe) ∨ 6 ≤ ielen ∧
    (m.read 2 4 = f.oui → (firstAttr f m ielen targetAttrId 6).isSome ∨
      Quiet f m ielen targetAttrId (f.itemsEnd m ielen 6))

end Code

variable {f : AttrFormat} {m : Memory} {ielen targetAttrId : ℕ} {bufAttr : Bool} {p : ℕ}

theorem firstAttr_of_wanted (hle : f.next m p ≤ ielen) (hid : f.attrId m p = targetAttrId) :
    firstAttr f m ielen targetAttrId p = some (p, f.size m p) := by
  rw [firstAttr, Tlv.items_of_complete hle, List.find?_cons_of_pos (by simpa using hid)]
  rfl

theorem firstAttr_of_other (hle : f.next m p ≤ ielen) (hid : f.attrId m p ≠ targetAttrId) :
    firstAttr f m ielen targetAttrId p = firstAttr f m ielen targetAttrId (f.next m p) := by
  rw [firstAttr, Tlv.items_of_complete hle, List.find?_cons_of_neg (by simpa using hid), firstAttr]

theorem firstAttr_of_cut (hcut : ielen < f.next m p) :
    firstAttr f m ielen targetAttrId p = none := by
  rw [firstAttr, Tlv.items_of_cut hcut]
  rfl

/-- The length of a complete attribute is not cut to 16 bits. -/
theorem attrLen_eq (hlen : ielen < 65536) (hle : f.next m p ≤ ielen) :
    attrLen f m p = f.size m p := by
  apply Nat.mod_eq_of_lt
  simp only [Tlv.next] at hle
  omega

/-- A round at an attribute with another id. -/
theorem attrLoop_other (hlt : p < ielen) (hid : f.attrId m p ≠ targetAttrId) (fuel : ℕ) :
    attrLoop f m ielen targetAttrId bufAttr (fuel + 1) p =
      (attrLoop f m ielen targetAttrId bufAttr fuel (p + attrLen f m p)).map
        fun r => (⟨p, f.header⟩ :: r.1, r.2) := by
  rw [attrLoop, if_pos hlt, if_neg hid]

theorem attrLoop_wanted (hlt : p < ielen) (hid : f.attrId m p = targetAttrId) (fuel : ℕ) :
    attrLoop f m ielen targetAttrId bufAttr (fuel + 1) p =
      some (⟨p, f.header⟩ :: (if bufAttr then [⟨p, attrLen f m p⟩] else []),
        some (p, attrLen f m p)) := by
  rw [attrLoop, if_pos hlt, if_pos hid]

theorem attrLoop_end (hge : ielen ≤ p) (fuel : ℕ) :
    attrLoop f m ielen targetAttrId bufAttr fuel p = some ([], none) := by
  cases fuel with
  | zero => rw [attrLoop, if_neg (Nat.not_lt.mpr hge)]
  | succ fuel => rw [attrLoop, if_neg (Nat.not_lt.mpr hge)]

/-- The loop does not end without a round. -/
theorem attrLoop_cases {fuel : ℕ} {r : AttrSearch}
    (h : attrLoop f m ielen targetAttrId bufAttr fuel p = some r)
    (hreads : ∀ s ∈ r.1, s.Inside ielen) :
    (ielen ≤ p ∧ r.2 = none) ∨ p + f.header ≤ ielen ∧
      (f.attrId m p = targetAttrId ∧ r.2 = some (p, attrLen f m p) ∨
        f.attrId m p ≠ targetAttrId ∧ ∃ fuel' < fuel, ∃ r',
          attrLoop f m ielen targetAttrId bufAttr fuel' (p + attrLen f m p) = some r' ∧
            (∀ s ∈ r'.1, s.Inside ielen) ∧ r'.2 = r.2) := by
  rcases Nat.lt_or_ge p ielen with hlt | hge
  · cases fuel with
    | zero =>
      rw [attrLoop, if_pos hlt] at h
      cases h
    | succ fuel =>
      right
      by_cases hid : f.attrId m p = targetAttrId
      · rw [attrLoop_wanted hlt hid] at h
        cases h
        exact ⟨hreads ⟨p, f.header⟩ List.mem_cons_self, Or.inl ⟨hid, rfl⟩⟩
      · rw [attrLoop_other hlt hid] at h
        obtain ⟨r', hr', rfl⟩ := Option.map_eq_some_iff.mp h
        refine ⟨hreads ⟨p, f.header⟩ List.mem_cons_self, Or.inr ⟨hid, fuel, Nat.lt_succ_self _, r',
          hr', ?_, rfl⟩⟩
        exact fun s hs => hreads s (List.mem_cons_of_mem _ hs)
  · left
    rw [attrLoop_end hge] at h
    cases h
    exact ⟨hge, rfl⟩

theorem quiet_of_attrLoop {fuel : ℕ} {r : AttrSearch}
    (h : attrLoop f m ielen targetAttrId bufAttr fuel p = some r)
    (hreads : ∀ s ∈ r.1, s.Inside ielen) (hnone : r.2 = none) :
    Quiet f m ielen targetAttrId p := by
  induction fuel using Nat.strongRecOn generalizing p r with
  | _ fuel ih =>
    rcases attrLoop_cases h hreads with ⟨hge, -⟩ | ⟨hheader, ⟨-, hsome⟩ | ⟨hid, hrest⟩⟩
    · exact Quiet.done hge
    · rw [hsome] at hnone
      cases hnone
    · obtain ⟨fuel', hlt, r', hr', hreads', heq⟩ := hrest
      exact Quiet.step hheader hid (ih fuel' hlt hr' hreads' (heq.trans hnone))

theorem attrLoop_of_quiet (h : Quiet f m ielen targetAttrId p) :
    ∃ fuel r, attrLoop f m ielen targetAttrId bufAttr fuel p = some r ∧
      (∀ s ∈ r.1, s.Inside ielen) ∧ r.2 = none := by
  induction h with
  | done hge => exact ⟨0, _, attrLoop_end hge 0, nofun, rfl⟩
  | @step p hheader hid hrest ih =>
    obtain ⟨fuel, r, hr, hreads, hnone⟩ := ih
    have hpos := f.header_pos
    refine ⟨fuel + 1, (⟨p, f.header⟩ :: r.1, r.2), ?_, ?_, hnone⟩
    · rw [attrLoop_other (by omega) hid, hr]
      rfl
    · exact List.forall_mem_cons.mpr ⟨hheader, hreads⟩

/-- A sound search has found the first attribute, or is quiet behind the complete ones. -/
theorem attrLoop_sound (hlen : ielen < 65536) {fuel : ℕ} {r : AttrSearch}
    (h : attrLoop f m ielen targetAttrId bufAttr fuel p = some r)
    (hreads : ∀ s ∈ r.1, s.Inside ielen) (hfirst : r.2 = firstAttr f m ielen targetAttrId p) :
    (firstAttr f m ielen targetAttrId p).isSome ∨
      Quiet f m ielen targetAttrId (f.itemsEnd m ielen p) := by
  induction fuel using Nat.strongRecOn generalizing p r with
  | _ fuel ih =>
    rcases Nat.lt_or_ge ielen (f.next m p) with hcut | hle
    · rw [firstAttr_of_cut hcut] at hfirst
      rw [Tlv.itemsEnd_of_cut hcut]
      exact Or.inr (quiet_of_attrLoop h hreads hfirst)
    · by_cases hid : f.attrId m p = targetAttrId
      · rw [firstAttr_of_wanted hle hid]
        exact Or.inl rfl
      · have hlt := f.lt_next m p
        rcases attrLoop_cases h hreads with ⟨hge, -⟩ | ⟨-, ⟨hid', -⟩ | ⟨-, hrest⟩⟩
        · omega
        · exact absurd hid' hid
        · obtain ⟨fuel', hfuel, r', hr', hreads', heq⟩ := hrest
          rw [attrLen_eq hlen hle] at hr'
          rw [firstAttr_of_other hle hid, Tlv.itemsEnd_of_complete hle]
          rw [firstAttr_of_other hle hid, ← heq] at hfirst
          exact ih fuel' hfuel hr' hreads' hfirst

theorem attrLoop_finds (hlen : ielen < 65536)
    (h : (firstAttr f m ielen targetAttrId p).isSome ∨
      Quiet f m ielen targetAttrId (f.itemsEnd m ielen p)) :
    ∃ fuel r, attrLoop f m ielen targetAttrId bufAttr fuel p = some r ∧
      (∀ s ∈ r.1, s.Inside ielen) ∧ r.2 = firstAttr f m ielen targetAttrId p := by
  fun_induction Tlv.items f.toTlv m ielen p with
  | case1 p hle ih =>
    have hlt := f.lt_next m p
    have hheader := f.header_le_next m p
    by_cases hid : f.attrId m p = targetAttrId
    · refine ⟨1, _, attrLoop_wanted (by omega) hid 0, ?_, ?_⟩
      · refine List.forall_mem_cons.mpr ⟨Nat.le_trans hheader hle, ?_⟩
        split
        · exact List.forall_mem_singleton.mpr (by rwa [attrLen_eq hlen hle])
        · exact nofun
      · rw [firstAttr_of_wanted hle hid, attrLen_eq hlen hle]
    · rw [firstAttr_of_other hle hid, Tlv.itemsEnd_of_complete hle] at h
      obtain ⟨fuel, r, hr, hreads, hfirst⟩ := ih h
      refine ⟨fuel + 1, (⟨p, f.header⟩ :: r.1, r.2), ?_, ?_, ?_⟩
      · rw [attrLoop_other (by omega) hid, attrLen_eq hlen hle]
        exact congrArg _ hr
      · exact List.forall_mem_cons.mpr ⟨Nat.le_trans hheader hle, hreads⟩
      · rw [firstAttr_of_other hle hid, hfirst]
  | case2 p hcut =>
    have hlt := Nat.not_le.mp hcut
    rw [firstAttr_of_cut hlt, Tlv.itemsEnd_of_cut hlt] at h
    rcases h with hsome | hquiet
    · cases hsome
    · rw [firstAttr_of_cut hlt]
      exact attrLoop_of_quiet hquiet

/-- The search behind a type that fits. -/
theorem getAttr_typed (hvendor : m 0 = vendorSpecificIe) (houi : m.read 2 4 = f.oui) (fuel : ℕ) :
    getAttr f m ielen targetAttrId bufAttr fuel =
      (attrLoop f m ielen targetAttrId bufAttr fuel 6).map
        fun r => (⟨0, 1⟩ :: ⟨2, 4⟩ :: r.1, r.2) := by
  rw [getAttr, if_neg (not_not.mpr hvendor), if_neg (not_not.mpr houi)]

theorem getAttr_other (hvendor : m 0 = vendorSpecificIe) (houi : m.read 2 4 ≠ f.oui) (fuel : ℕ) :
    getAttr f m ielen targetAttrId bufAttr fuel = some ([⟨0, 1⟩, ⟨2, 4⟩], none) := by
  rw [getAttr, if_neg (not_not.mpr hvendor), if_pos houi]

/-- The type of a vendor element is read in any case. -/
theorem getAttr_reads (hvendor : m 0 = vendorSpecificIe) {fuel : ℕ} {r : AttrSearch}
    (h : getAttr f m ielen targetAttrId bufAttr fuel = some r) : ⟨2, 4⟩ ∈ r.1 := by
  by_cases houi : m.read 2 4 = f.oui
  · rw [getAttr_typed hvendor houi] at h
    obtain ⟨r', -, rfl⟩ := Option.map_eq_some_iff.mp h
    exact List.mem_cons_of_mem _ List.mem_cons_self
  · rw [getAttr_other hvendor houi] at h
    cases h
    exact List.mem_cons_of_mem _ List.mem_cons_self

theorem typed_sound_iff (hlen : ielen < 65536) (htyped : IsTyped f m ielen) :
    SearchSound f m ielen targetAttrId (getAttr f m ielen targetAttrId bufAttr) ↔
      (firstAttr f m ielen targetAttrId 6).isSome ∨
        Quiet f m ielen targetAttrId (f.itemsEnd m ielen 6) := by
  have h6 := htyped.1
  simp only [SearchSound, if_pos htyped, getAttr_typed htyped.2.1 htyped.2.2]
  constructor
  · rintro ⟨fuel, r, hr, hreads, hfirst⟩
    obtain ⟨r', hr', rfl⟩ := Option.map_eq_some_iff.mp hr
    have hreads' : ∀ s ∈ r'.1, s.Inside ielen := fun s hs =>
      hreads s (List.mem_cons_of_mem _ (List.mem_cons_of_mem _ hs))
    exact attrLoop_sound hlen hr' hreads' hfirst
  · intro h
    obtain ⟨fuel, r, hr, hreads, hfirst⟩ := @attrLoop_finds f m _ _ bufAttr _ hlen h
    refine ⟨fuel, (⟨0, 1⟩ :: ⟨2, 4⟩ :: r.1, r.2), by rw [hr]; rfl, ?_, hfirst⟩
    simp only [List.forall_mem_cons, Span.Inside]
    exact ⟨by omega, h6, hreads⟩

/-- A search does what it should exactly for the elements in which it can. -/
theorem getAttr_sound_iff (hlen : ielen < 65536) :
    SearchSound f m ielen targetAttrId (getAttr f m ielen targetAttrId bufAttr) ↔
      Searchable f m ielen targetAttrId := by
  by_cases hvendor : m 0 = vendorSpecificIe
  · rcases Nat.lt_or_ge ielen 6 with hshort | h6
    · constructor
      · rintro ⟨fuel, r, hr, hreads, -⟩
        have hinside : 2 + 4 ≤ ielen := hreads _ (getAttr_reads hvendor hr)
        omega
      · rintro (⟨-, hother⟩ | ⟨h6, -⟩)
        · exact absurd hvendor hother
        · omega
    · by_cases houi : m.read 2 4 = f.oui
      · rw [typed_sound_iff hlen ⟨h6, hvendor, houi⟩]
        simp only [Searchable, hvendor, houi, ne_eq, not_true_eq_false, and_false, false_or, h6,
          true_and, forall_const]
      · have htyped : ¬ IsTyped f m ielen := fun h => houi h.2.2
        constructor
        · intro _
          exact Or.inr ⟨h6, fun h => absurd h houi⟩
        · intro _
          refine ⟨0, _, getAttr_other hvendor houi 0, ?_, by rw [if_neg htyped]⟩
          simp only [List.forall_mem_cons, Span.Inside]
          exact ⟨by omega, h6, List.forall_mem_nil _⟩
  · have htyped : ¬ IsTyped f m ielen := fun h => hvendor h.2.1
    have hsearch (fuel : ℕ) : getAttr f m ielen targetAttrId bufAttr fuel =
        some ([⟨0, 1⟩], none) := by
      rw [getAttr, if_pos hvendor]
    constructor
    · rintro ⟨fuel, r, hr, hreads, -⟩
      rw [hsearch] at hr
      cases hr
      exact Or.inl ⟨hreads _ List.mem_cons_self, hvendor⟩
    · intro h
      refine ⟨0, _, hsearch 0, ?_, by rw [if_neg htyped]⟩
      simp only [List.forall_mem_cons, Span.Inside]
      exact ⟨by rcases h with ⟨hpos, -⟩ | ⟨h6, -⟩ <;> omega, List.forall_mem_nil _⟩

/-- Both searches end, stay inside, and find the first complete attribute, exactly when the type can
be read and, without a complete attribute of the id, nothing behind the complete ones leads them
on. -/
theorem attrSearch_sound_iff (m : Memory) {ielen : ℕ} (hlen : ielen < 65536) (targetAttrId : ℕ)
    (bufAttr : Bool) :
    (SearchSound wpsFormat m ielen targetAttrId (rtwGetWpsAttr m ielen targetAttrId bufAttr) ↔
      Searchable wpsFormat m ielen targetAttrId) ∧
    (SearchSound p2pFormat m ielen targetAttrId (rtwGetP2pAttr m ielen targetAttrId bufAttr) ↔
      Searchable p2pFormat m ielen targetAttrId) :=
  ⟨getAttr_sound_iff hlen, getAttr_sound_iff hlen⟩

section Wrap

/-- Where the length wraps to nothing, the loop never ends. -/
theorem attrLoop_endless (hlt : p < ielen) (hid : f.attrId m p ≠ targetAttrId)
    (hzero : attrLen f m p = 0) (fuel : ℕ) :
    attrLoop f m ielen targetAttrId bufAttr fuel p = none := by
  induction fuel with
  | zero => rw [attrLoop, if_pos hlt]
  | succ fuel ih =>
    rw [attrLoop_other hlt hid, hzero, Nat.add_zero, ih]
    rfl

/-- A WPS element with one attribute, of length 0xfffc. -/
def endlessElement : Memory := fun i =>
  [0xdd, 0x08, 0x00, 0x50, 0xf2, 0x04, 0x00, 0x01, 0xff, 0xfc].getD i 0

theorem endlessElement_endless : ¬ SearchSound wpsFormat endlessElement 10 0x1049
    (rtwGetWpsAttr endlessElement 10 0x1049 true) := by
  rintro ⟨fuel, r, hr, -⟩
  rw [rtwGetWpsAttr, getAttr_typed (by decide) (by decide),
    attrLoop_endless (by decide) (by decide) (by decide)] at hr
  cases hr

/-- A WPS element with one attribute without a body. -/
def shortElement : Memory := fun i =>
  [0xdd, 0x08, 0x00, 0x50, 0xf2, 0x04, 0x10, 0x49, 0x00, 0x00].getD i 0

theorem shortElement_searched :
    SearchSound wpsFormat shortElement 10 0x1049 (rtwGetWpsAttr shortElement 10 0x1049 true) ∧
      SearchSound p2pFormat shortElement 10 0x49 (rtwGetP2pAttr shortElement 10 0x49 true) := by
  have hcomplete : wpsFormat.next shortElement 6 ≤ 10 := by decide
  have hfirst : (firstAttr wpsFormat shortElement 10 0x1049 6).isSome := by
    rw [firstAttr_of_wanted hcomplete (by decide)]
    rfl
  constructor
  · exact (attrSearch_sound_iff shortElement (by decide) 0x1049 true).1.mpr
      (Or.inr ⟨by decide, fun _ => Or.inl hfirst⟩)
  · exact (attrSearch_sound_iff shortElement (by decide) 0x49 true).2.mpr
      (Or.inr ⟨by decide, fun h => absurd h (by decide)⟩)

end Wrap

end Rtl8188eu

import StandaloneDrivers.Rtl8188eu.ElementRemoval

/-! The parser of the information elements of a management frame
(`rtw_ieee802_11_parse_elems` of rtw_ieee80211.c). -/
namespace Rtl8188eu
open Foundations

/-- The kinds of elements for which `rtw_ieee802_11_elems` has a pointer and a length. -/
inductive ElemKind
  | ssid | suppRates | fhParams | dsParams | cfParams | tim | ibssParams | challenge | erpInfo
  | extSuppRates | wpaIe | rsnIe | wme | wmeTspec | wpsIe | powerCap | suppChannels | mdie | ftie
  | timeoutInt | htCapabilities | htOperation | vendorHtCap
  deriving DecidableEq

/-- `rtw_ieee802_11_elems`: a pointer that is not null, with its length. -/
abbrev Elems : Type := ElemKind → Option Span

def Elems.record (elems : Elems) (kind : Option ElemKind) (pos elen : ℕ) : Elems :=
  match kind with
  | none => elems
  | some k => Function.update elems k (some ⟨pos, elen⟩)

/-- What is read to classify an element, and its kind unless it is unknown. -/
structure Classified where
  reads : List Span
  kind : Option ElemKind

/-- `OUI_MICROSOFT` and `OUI_BROADCOM` -/
def ouiMicrosoft : ℕ := 0x0050f2
def ouiBroadcom : ℕ := 0x00904c

/-- `WME_OUI_TYPE` and `VENDOR_HT_CAPAB_OUI_TYPE` -/
def wmeOuiType : UInt8 := 2
def vendorHtCapabOuiType : UInt8 := 0x33

/-- `RTW_GET_BE24` -/
def getBe24 (m : Memory) (i : ℕ) : ℕ :=
  65536 * (m i).toNat + 256 * (m (i + 1)).toNat + (m (i + 2)).toNat

inductive ParseRes
  | parseOk | parseUnknown | parseFailed
  deriving DecidableEq

/-- The places that the parser has read, the elements that it leaves, and its result. -/
structure ElemParse where
  reads : List Span
  elems : Elems
  res : ParseRes

section Code
variable (m : Memory)

def rtwIeee80211ParseVendorSpecific (pos elen : ℕ) : Classified :=
  if elen < 4 then ⟨[], none⟩
  else if getBe24 m pos = ouiMicrosoft then
    if m (pos + 3) = 1 then ⟨[⟨pos, 3⟩, ⟨pos + 3, 1⟩], some .wpaIe⟩
    else if m (pos + 3) = wmeOuiType then
      if elen < 5 then ⟨[⟨pos, 3⟩, ⟨pos + 3, 1⟩], none⟩
      else if m (pos + 4) = 0 ∨ m (pos + 4) = 1 then
        ⟨[⟨pos, 3⟩, ⟨pos + 3, 1⟩, ⟨pos + 4, 1⟩], some .wme⟩
      else if m (pos + 4) = 2 then ⟨[⟨pos, 3⟩, ⟨pos + 3, 1⟩, ⟨pos + 4, 1⟩], some .wmeTspec⟩
      else ⟨[⟨pos, 3⟩, ⟨pos + 3, 1⟩, ⟨pos + 4, 1⟩], none⟩
    else if m (pos + 3) = 4 then ⟨[⟨pos, 3⟩, ⟨pos + 3, 1⟩], some .wpsIe⟩
    else ⟨[⟨pos, 3⟩, ⟨pos + 3, 1⟩], none⟩
  else if getBe24 m pos = ouiBroadcom then
    if m (pos + 3) = vendorHtCapabOuiType then ⟨[⟨pos, 3⟩, ⟨pos + 3, 1⟩], some .vendorHtCap⟩
    else ⟨[⟨pos, 3⟩, ⟨pos + 3, 1⟩], none⟩
  else ⟨[⟨pos, 3⟩], none⟩

/-- The `WLAN_EID_` cases other than the vendor specific one. -/
def kindOfId (id : UInt8) : Option ElemKind :=
  if id = 0 then some .ssid
  else if id = 1 then some .suppRates
  else if id = 2 then some .fhParams
  else if id = 3 then some .dsParams
  else if id = 4 then some .cfParams
  else if id = 5 then some .tim
  else if id = 6 then some .ibssParams
  else if id = 16 then some .challenge
  else if id = 42 then some .erpInfo
  else if id = 50 then some .extSuppRates
  else if id = 48 then some .rsnIe
  else if id = 33 then some .powerCap
  else if id = 36 then some .suppChannels
  else if id = 54 then some .mdie
  else if id = 55 then some .ftie
  else if id = 56 then some .timeoutInt
  else if id = 45 then some .htCapabilities
  else if id = 61 then some .htOperation
  else none

def classify (id : UInt8) (pos elen : ℕ) : Classified :=
  if id = vendorSpecificIe then rtwIeee80211ParseVendorSpecific m pos elen else ⟨[], kindOfId id⟩

/-- The loop over the elements, with the number of the unknown ones. -/
def parseElemsFrom (pos left : ℕ) (elems : Elems) (unknown : ℕ) : ElemParse :=
  if 2 ≤ left then
    let elen := (m (pos + 1)).toNat
    if left - 2 < elen then ⟨[⟨pos, 1⟩, ⟨pos + 1, 1⟩], elems, .parseFailed⟩
    else
      let c := classify m (m pos) (pos + 2) elen
      let rest := parseElemsFrom (pos + 2 + elen) (left - 2 - elen)
        (elems.record c.kind (pos + 2) elen) (if c.kind.isNone then unknown + 1 else unknown)
      { rest with reads := ⟨pos, 1⟩ :: ⟨pos + 1, 1⟩ :: c.reads ++ rest.reads }
  else
    ⟨[], elems,
      if left ≠ 0 then .parseFailed else if unknown ≠ 0 then .parseUnknown else .parseOk⟩
  termination_by left

/-- `rtw_ieee802_11_parse_elems` -/
def rtwIeee80211ParseElems (start len : ℕ) : ElemParse :=
  parseElemsFrom m start len (fun _ => none) 0

end Code

/-- The vendor elements that are known, by the bytes with which their bodies begin. -/
def vendorKinds : List (List UInt8 × ElemKind) :=
  [([0x00, 0x50, 0xf2, 1], .wpaIe), ([0x00, 0x50, 0xf2, 2, 0], .wme),
    ([0x00, 0x50, 0xf2, 2, 1], .wme), ([0x00, 0x50, 0xf2, 2, 2], .wmeTspec),
    ([0x00, 0x50, 0xf2, 4], .wpsIe), ([0x00, 0x90, 0x4c, 0x33], .vendorHtCap)]

def vendorKind (body : List UInt8) : Option ElemKind :=
  (vendorKinds.find? fun v => v.1.isPrefixOf body).map Prod.snd

def Element.kind (e : Element) : Option ElemKind :=
  if e.id = vendorSpecificIe then vendorKind e.body else kindOfId e.id

section Classes
variable (m : Memory) (pos elen : ℕ)

theorem getBe24_eq_iff (a b c : UInt8) :
    getBe24 m pos = 65536 * a.toNat + 256 * b.toNat + c.toNat ↔
      m pos = a ∧ m (pos + 1) = b ∧ m (pos + 2) = c := by
  have h1 := (m pos).toNat_lt
  have h2 := (m (pos + 1)).toNat_lt
  have h3 := (m (pos + 2)).toNat_lt
  have ha := a.toNat_lt
  have hb := b.toNat_lt
  have hc := c.toNat_lt
  simp only [getBe24, ← UInt8.toNat_inj]
  omega

theorem parseVendorSpecific_reads {s : Span}
    (h : s ∈ (rtwIeee80211ParseVendorSpecific m pos elen).reads) :
    pos ≤ s.start ∧ s.start + s.count ≤ pos + elen := by
  simp only [rtwIeee80211ParseVendorSpecific] at h
  split_ifs at h <;> simp only [List.mem_cons, List.not_mem_nil, or_false] at h <;>
    rcases h with rfl | rfl | rfl <;> exact ⟨by dsimp only; omega, by dsimp only; omega⟩

theorem vendorKind_short {body : List UInt8} (h : body.length < 4) : vendorKind body = none := by
  have hlong : ∀ v ∈ vendorKinds, 4 ≤ v.1.length := by decide
  rw [vendorKind, Option.map_eq_none_iff, List.find?_eq_none]
  intro v hv hprefix
  have := (List.isPrefixOf_iff_prefix.mp hprefix).length_le
  have := hlong v hv
  omega

/-- The classifier of the code knows the vendor elements by the beginnings of their bodies. -/
theorem parseVendorSpecific_kind :
    (rtwIeee80211ParseVendorSpecific m pos elen).kind = vendorKind (m.read pos elen) := by
  rcases Nat.lt_or_ge elen 4 with hshort | hlong
  · rw [rtwIeee80211ParseVendorSpecific, if_pos hshort, vendorKind_short]
    rwa [Memory.read_length]
  · obtain ⟨rest, rfl⟩ := Nat.exists_eq_add_of_le' hlong
    have hmicrosoft := getBe24_eq_iff m pos 0x00 0x50 0xf2
    have hbroadcom := getBe24_eq_iff m pos 0x00 0x90 0x4c
    change getBe24 m pos = ouiMicrosoft ↔ _ at hmicrosoft
    change getBe24 m pos = ouiBroadcom ↔ _ at hbroadcom
    rw [rtwIeee80211ParseVendorSpecific, if_neg (Nat.not_lt.mpr hlong)]
    simp only [hmicrosoft, hbroadcom, Memory.read_succ, vendorKind, vendorKinds, List.find?_cons,
      List.isPrefixOf, Nat.add_assoc, Nat.reduceAdd, Bool.and_true]
    by_cases hms : m pos = 0x00 ∧ m (pos + 1) = 0x50 ∧ m (pos + 2) = 0xf2
    · obtain ⟨h0, h1, h2⟩ := hms
      by_cases hwme : m (pos + 3) = 2
      · cases rest with
        | zero => simp [h0, h1, h2, hwme, wmeOuiType, Memory.read]
        | succ rest =>
          have hroom : ¬ rest + 5 < 5 := by omega
          by_cases hinfo : m (pos + 4) = 0
          · simp [h0, h1, h2, hwme, hinfo, hroom, wmeOuiType, Memory.read_succ]
          by_cases hparam : m (pos + 4) = 1
          · simp [h0, h1, h2, hwme, hparam, hroom, wmeOuiType, Memory.read_succ, List.isPrefixOf]
          by_cases htspec : m (pos + 4) = 2
          · simp [h0, h1, h2, hwme, htspec, hroom, wmeOuiType, Memory.read_succ, List.isPrefixOf]
          simp [h0, h1, h2, hwme, hinfo, hparam, htspec, hroom, wmeOuiType, Memory.read_succ,
            List.isPrefixOf, beq_false_of_ne (Ne.symm hinfo), beq_false_of_ne (Ne.symm hparam),
            beq_false_of_ne (Ne.symm htspec)]
      · by_cases hwpa : m (pos + 3) = 1
        · simp [h0, h1, h2, hwpa]
        by_cases hwps : m (pos + 3) = 4
        · simp [h0, h1, h2, hwps, wmeOuiType]
        · simp [h0, h1, h2, hwpa, hwps, hwme, wmeOuiType, beq_false_of_ne (Ne.symm hwpa),
            beq_false_of_ne (Ne.symm hwps), beq_false_of_ne (Ne.symm hwme)]
    · have hother : ∀ b, (0x00 == m pos && (0x50 == m (pos + 1) && (0xf2 == m (pos + 2) && b))) =
          false := by
        simp only [Bool.and_eq_false_imp, beq_iff_eq]
        intro b h0 h1 h2
        exact absurd ⟨h0.symm, h1.symm, h2.symm⟩ hms
      by_cases hbc : m pos = 0x00 ∧ m (pos + 1) = 0x90 ∧ m (pos + 2) = 0x4c
      · obtain ⟨h0, h1, h2⟩ := hbc
        by_cases hht : m (pos + 3) = 0x33
        · simp [h0, h1, h2, hht, vendorHtCapabOuiType]
        · simp [h0, h1, h2, hht, vendorHtCapabOuiType, beq_false_of_ne (Ne.symm hht)]
      · have hnone : ∀ b, (0x00 == m pos && (0x90 == m (pos + 1) && (0x4c == m (pos + 2) && b))) =
            false := by
          simp only [Bool.and_eq_false_imp, beq_iff_eq]
          intro b h0 h1 h2
          exact absurd ⟨h0.symm, h1.symm, h2.symm⟩ hbc
        simp [hms, hbc, hother, hnone]

theorem classify_reads (id : UInt8) {s : Span} (h : s ∈ (classify m id pos elen).reads) :
    pos ≤ s.start ∧ s.start + s.count ≤ pos + elen := by
  rw [classify] at h
  split at h
  · exact parseVendorSpecific_reads m pos elen h
  · cases h

theorem classify_kind (e : Element) (h : m.read pos e.body.length = e.body) :
    (classify m e.id pos e.body.length).kind = e.kind := by
  rw [classify, Element.kind]
  split
  · rw [parseVendorSpecific_kind, h]
  · rfl

end Classes

/-- The elements that the loop leaves behind those that it has passed. -/
def recordAll : Elems → ℕ → List Element → Elems
  | elems, _, [] => elems
  | elems, pos, e :: es =>
      recordAll (elems.record e.kind (pos + 2) e.body.length) (pos + e.encode.length) es

/-- `s` is the body of the last of the elements from `pos` on that have the kind. -/
def LastOfKind (es : List Element) (pos : ℕ) (k : ElemKind) (s : Span) : Prop :=
  ∃ before e after, es = before ++ e :: after ∧ e.kind = some k ∧
    (∀ a ∈ after, a.kind ≠ some k) ∧
    s = ⟨pos + (encodeElements before).length + 2, e.body.length⟩

section Ranges
variable {k : ElemKind} {s : Span}

theorem Elems.record_eq_some {elems : Elems} {kind : Option ElemKind} {pos elen : ℕ} :
    elems.record kind pos elen k = some s ↔
      kind = some k ∧ s = ⟨pos, elen⟩ ∨ kind ≠ some k ∧ elems k = some s := by
  cases kind with
  | none => simp [record]
  | some j =>
    by_cases hj : j = k
    · subst hj
      simp [record, eq_comm]
    · simp [record, hj, Function.update_of_ne (Ne.symm hj)]

theorem lastOfKind_cons {e : Element} {es : List Element} {pos : ℕ} :
    LastOfKind (e :: es) pos k s ↔
      LastOfKind es (pos + e.encode.length) k s ∨
        e.kind = some k ∧ (∀ a ∈ es, a.kind ≠ some k) ∧ s = ⟨pos + 2, e.body.length⟩ := by
  constructor
  · rintro ⟨before, f, after, heq, hkind, hafter, hs⟩
    cases before with
    | nil =>
      obtain ⟨rfl, rfl⟩ := List.cons.inj heq
      exact Or.inr ⟨hkind, hafter, hs⟩
    | cons b before =>
      obtain ⟨rfl, rfl⟩ := List.cons.inj heq
      refine Or.inl ⟨before, f, after, rfl, hkind, hafter, ?_⟩
      rw [hs, encodeElements_cons, List.length_append, ← Nat.add_assoc pos]
  · rintro (⟨before, f, after, rfl, hkind, hafter, hs⟩ | ⟨hkind, hafter, hs⟩)
    · refine ⟨e :: before, f, after, rfl, hkind, hafter, ?_⟩
      rw [hs, encodeElements_cons, List.length_append, ← Nat.add_assoc pos]
    · exact ⟨[], e, es, rfl, hkind, hafter, hs⟩

theorem recordAll_eq_some (elems : Elems) (pos : ℕ) (es : List Element) :
    recordAll elems pos es k = some s ↔
      LastOfKind es pos k s ∨ (∀ a ∈ es, a.kind ≠ some k) ∧ elems k = some s := by
  induction es generalizing elems pos with
  | nil => simp [recordAll, LastOfKind]
  | cons e es ih =>
    rw [recordAll, ih, lastOfKind_cons, Elems.record_eq_some, List.forall_mem_cons]
    by_cases hkind : e.kind = some k
    · simp [hkind]
    · simp [hkind]

theorem LastOfKind.inside {es : List Element} {pos : ℕ} (h : LastOfKind es pos k s) :
    pos ≤ s.start ∧ s.start + s.count ≤ pos + (encodeElements es).length := by
  obtain ⟨before, e, after, rfl, -, -, rfl⟩ := h
  simp only [encodeElements, List.flatMap_append, List.flatMap_cons, List.length_append,
    Element.encode_length]
  omega

end Ranges

section Loop
variable (m : Memory)

theorem parseElemsFrom_reads (pos left : ℕ) (elems : Elems) (unknown : ℕ) {s : Span}
    (h : s ∈ (parseElemsFrom m pos left elems unknown).reads) :
    pos ≤ s.start ∧ s.start + s.count ≤ pos + left := by
  fun_induction parseElemsFrom m pos left elems unknown with
  | case1 pos left elems unknown hroom elen hlong =>
    simp only [List.mem_cons, List.not_mem_nil, or_false] at h
    rcases h with rfl | rfl <;> exact ⟨by dsimp only; omega, by dsimp only; omega⟩
  | case2 pos left elems unknown hroom elen hfits c rest ih =>
    simp only [List.cons_append, List.mem_cons, List.mem_append] at h
    rcases h with rfl | rfl | hbody | hrest
    · exact ⟨by dsimp only; omega, by dsimp only; omega⟩
    · exact ⟨by dsimp only; omega, by dsimp only; omega⟩
    · have := classify_reads m (pos + 2) elen (m pos) hbody
      omega
    · have := ih hrest
      omega
  | case3 => cases h

/-- A string of complete elements is accepted, and each element is recorded. -/
theorem parseElemsFrom_encode (es : List Element) (pos : ℕ) (elems : Elems) (unknown : ℕ)
    (h : m.read pos (encodeElements es).length = encodeElements es) :
    (parseElemsFrom m pos (encodeElements es).length elems unknown).elems =
        recordAll elems pos es ∧
      (parseElemsFrom m pos (encodeElements es).length elems unknown).res =
        if unknown = 0 ∧ ∀ e ∈ es, e.kind ≠ none then .parseOk else .parseUnknown := by
  induction es generalizing pos elems unknown with
  | nil =>
    rw [parseElemsFrom, if_neg (by decide)]
    refine ⟨rfl, ?_⟩
    by_cases hunknown : unknown = 0 <;> simp [hunknown, encodeElements]
  | cons e es ih =>
    rw [encodeElements_cons, List.length_append, Memory.read_add] at h
    obtain ⟨hfront, hrest⟩ := List.append_inj h (Memory.read_length m _ _)
    obtain ⟨hid, hsize, hbody⟩ := Element.read_encode hfront
    have helen : (m (pos + 1)).toNat = e.body.length := by
      change 2 + (m (pos + 1)).toNat = e.body.length + 2 at hsize
      omega
    have hlength : (encodeElements (e :: es)).length =
        e.body.length + 2 + (encodeElements es).length := by
      rw [encodeElements_cons, List.length_append, Element.encode_length]
    have hleft : (encodeElements (e :: es)).length - 2 - e.body.length =
        (encodeElements es).length := by omega
    have hpos : pos + 2 + e.body.length = pos + e.encode.length := by
      rw [Element.encode_length]
      omega
    rw [parseElemsFrom, if_pos (by omega), if_neg (by omega)]
    simp only [helen, hid, hleft, hpos, classify_kind m (pos + 2) e hbody]
    obtain ⟨helems, hres⟩ := ih (pos + e.encode.length)
      (elems.record e.kind (pos + 2) e.body.length)
      (if e.kind.isNone then unknown + 1 else unknown) hrest
    refine ⟨helems, hres.trans ?_⟩
    cases hkind : e.kind <;> simp [hkind]

/-- What is not rejected is a string of complete elements. -/
theorem exists_encode_of_parseElemsFrom (pos left : ℕ) (elems : Elems) (unknown : ℕ)
    (h : (parseElemsFrom m pos left elems unknown).res ≠ .parseFailed) :
    ∃ es, encodeElements es = m.read pos left := by
  fun_induction parseElemsFrom m pos left elems unknown with
  | case1 pos left elems unknown hroom elen hlong => exact absurd rfl h
  | case2 pos left elems unknown hroom elen hfits c rest ih =>
    obtain ⟨es, hes⟩ := ih h
    have hshort : (m.read (pos + 2) elen).length < 256 := by
      rw [Memory.read_length]
      exact (m (pos + 1)).toNat_lt
    obtain ⟨behind, hbehind⟩ := Nat.exists_eq_add_of_le' hroom
    refine ⟨⟨m pos, m.read (pos + 2) elen, hshort⟩ :: es, ?_⟩
    rw [encodeElements_cons, hes, Element.encode, Memory.read_length, hbehind,
      Memory.read_succ, Memory.read_succ]
    have hsplit : behind = elen + (left - 2 - elen) := by omega
    rw [← hbehind, hsplit, Memory.read_add]
    simp [elen]
  | case3 pos left elems unknown hroom =>
    refine ⟨[], ?_⟩
    have hzero : left = 0 := by
      by_contra hleft
      exact h (if_pos hleft)
    rw [hzero]
    rfl

end Loop

/-- The parser reads only the string, rejects exactly what is not a sequence of complete elements,
and leaves the bodies of the last elements of each kind. -/
theorem rtwIeee80211ParseElems_spec (m : Memory) (start len : ℕ) :
    (∀ s ∈ (rtwIeee80211ParseElems m start len).reads,
        start ≤ s.start ∧ s.start + s.count ≤ start + len) ∧
      ((rtwIeee80211ParseElems m start len).res = .parseFailed ↔
        ¬ ∃ es, encodeElements es = m.read start len) ∧
      ∀ es, encodeElements es = m.read start len → ∀ k s,
        ((rtwIeee80211ParseElems m start len).elems k = some s ↔ LastOfKind es start k s) ∧
          ((rtwIeee80211ParseElems m start len).elems k = some s →
            start ≤ s.start ∧ s.start + s.count ≤ start + len) := by
  have hencode : ∀ es, encodeElements es = m.read start len →
      len = (encodeElements es).length ∧
        m.read start (encodeElements es).length = encodeElements es := by
    intro es hes
    have hlen := congrArg List.length hes
    rw [Memory.read_length] at hlen
    exact ⟨hlen.symm, by rw [hlen, hes]⟩
  refine ⟨fun s hs => parseElemsFrom_reads m start len _ _ hs, ⟨?_, ?_⟩, ?_⟩
  · rintro hfailed ⟨es, hes⟩
    obtain ⟨hlen, hread⟩ := hencode es hes
    have hres := (parseElemsFrom_encode m es start (fun _ => none) 0 hread).2
    rw [← hlen] at hres
    rw [rtwIeee80211ParseElems, hres] at hfailed
    split at hfailed <;> cases hfailed
  · intro hnone
    by_contra hres
    exact hnone (exists_encode_of_parseElemsFrom m start len _ _ hres)
  · intro es hes k s
    obtain ⟨hlen, hread⟩ := hencode es hes
    have helems := (parseElemsFrom_encode m es start (fun _ => none) 0 hread).1
    rw [← hlen] at helems
    have hlast : (rtwIeee80211ParseElems m start len).elems k = some s ↔
        LastOfKind es start k s := by
      rw [rtwIeee80211ParseElems, helems, recordAll_eq_some]
      simp
    refine ⟨hlast, fun hsome => ?_⟩
    rw [hlen]
    exact (hlast.mp hsome).inside

end Rtl8188eu

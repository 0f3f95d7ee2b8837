import StandaloneDrivers.Rtl8188eu.ElementRemoval
import Mathlib.Data.List.Flatten

/-! The removal of the attributes of a P2P element (rtw_ieee80211.c):
`rtw_wlan_bssid_ex_remove_p2p_attr`. The elements of the network stand at the beginning of the
memory, behind 12 bytes of fixed fields. -/
namespace Rtl8188eu
open Foundations

section Code
variable (m : Memory)

/-- The memory from an address on. -/
def memoryFrom (p : ℕ) : Memory := fun j => m (p + j)

/-- The loop of `rtw_get_p2p_ie`, which goes no further than `MAX_IE_SZ`. -/
def p2pIeFrom (inIe stop p : ℕ) : Option ℕ :=
  if p < stop then
    if maxIeSz < p - inIe then none
    else if (ouiProbe m vendorSpecificIe (some p2pFormat.oui) p).wanted then some p
    else p2pIeFrom inIe stop (elementFormat.next m p)
  else none
  termination_by stop - p
  decreasing_by
    have := elementFormat.lt_next m p
    omega

def rtwGetP2pIe (inIe inLen : ℕ) : Option ℕ := p2pIeFrom m inIe (inIe + inLen) inIe

/-- A round of `rtw_p2p_attr_remove`, for an attribute at `target` in the element. -/
def removeAttr (ie ielen target targetAttrLen : ℕ) : Memory :=
  let remainLen := ielen - (target + targetAttrLen)
  let m := m.write (ie + target) (List.replicate targetAttrLen 0)
  let m := m.cut (ie + target) targetAttrLen remainLen
  let m := m.write (ie + target + remainLen) (List.replicate targetAttrLen 0)
  m.write (ie + 1) [m (ie + 1) - UInt8.ofNat targetAttrLen]

/-- `rtw_p2p_attr_remove`; there is no result when a search does not end, or a length wraps. -/
def rtwP2pAttrRemove (attrId ie : ℕ) (m : Memory) (ielen : ℕ) : Option (Memory × ℕ) :=
  match rtwGetP2pAttr (memoryFrom m ie) ielen attrId false (ielen + 1) with
  | none => none
  | some (_, none) => some (m, ielen)
  | some (_, some (target, targetAttrLen)) =>
      if _hnull : targetAttrLen = 0 then some (m, ielen)
      else if _hlong : ielen < target + targetAttrLen then none
      else rtwP2pAttrRemove attrId ie (removeAttr m ie ielen target targetAttrLen)
        (ielen - targetAttrLen)
  termination_by ielen

/-- The elements that follow are moved up behind the shortened element. -/
def rtwWlanBssidExRemoveP2pAttr (ieLength attrId : ℕ) : Option (Memory × ℕ) :=
  if ieLength < 12 then some (m, ieLength)
  else
    match rtwGetP2pIe m 12 (ieLength - 12) with
    | none => some (m, ieLength)
    | some p2pIe =>
        let p2pIelenOri := elementFormat.size m p2pIe
        (rtwP2pAttrRemove attrId p2pIe m p2pIelenOri).bind fun r =>
          if r.2 = p2pIelenOri then some (r.1, ieLength)
          else if ieLength < p2pIe + p2pIelenOri then none
          else
            let remainLen := ieLength - (p2pIe + p2pIelenOri)
            let m := r.1.cut (p2pIe + r.2) (p2pIelenOri - r.2) remainLen
            some (m.write (p2pIe + r.2 + remainLen) (List.replicate (p2pIelenOri - r.2) 0),
              ieLength - (p2pIelenOri - r.2))

end Code

/-- An attribute of a P2P element as it is meant. -/
structure P2pAttr where
  id : UInt8
  body : List UInt8
  short : body.length < 65536

def P2pAttr.encode (a : P2pAttr) : List UInt8 :=
  a.id :: UInt8.ofNat a.body.length :: UInt8.ofNat (a.body.length / 256) :: a.body

def encodeAttrs (attrs : List P2pAttr) : List UInt8 := attrs.flatMap P2pAttr.encode

/-- The bytes of a P2P element. -/
def p2pBytes (attrs : List P2pAttr) : List UInt8 :=
  vendorSpecificIe :: UInt8.ofNat (4 + (encodeAttrs attrs).length) ::
    (p2pFormat.oui ++ encodeAttrs attrs)

section Encoding

theorem P2pAttr.encode_length (a : P2pAttr) : a.encode.length = a.body.length + 3 := rfl

theorem encodeAttrs_cons (a : P2pAttr) (attrs : List P2pAttr) :
    encodeAttrs (a :: attrs) = a.encode ++ encodeAttrs attrs := rfl

theorem encodeAttrs_append (attrs attrs' : List P2pAttr) :
    encodeAttrs (attrs ++ attrs') = encodeAttrs attrs ++ encodeAttrs attrs' := List.flatMap_append

theorem p2pBytes_length (attrs : List P2pAttr) :
    (p2pBytes attrs).length = 6 + (encodeAttrs attrs).length := by
  simp only [p2pBytes, List.length_cons, List.length_append]
  show 4 + _ + 1 + 1 = _
  omega

variable {m : Memory} {p : ℕ} {a : P2pAttr}

theorem P2pAttr.read_encode (h : m.read p a.encode.length = a.encode) :
    p2pFormat.attrId m p = a.id.toNat ∧ p2pFormat.size m p = a.encode.length := by
  change m.read p (a.body.length + 1 + 1 + 1) = a.encode at h
  rw [Memory.read_succ, Memory.read_succ, Memory.read_succ, P2pAttr.encode, List.cons.injEq,
    List.cons.injEq, List.cons.injEq] at h
  obtain ⟨hid, hlow, hhigh, -⟩ := h
  have hshort := a.short
  constructor
  · show (m p).toNat = _
    rw [hid]
  · show 3 + m.le16 (p + 1) = a.body.length + 3
    rw [Memory.le16, hlow, hhigh, UInt8.toNat_ofNat', UInt8.toNat_ofNat']
    omega

theorem length_le_encodeAttrs (attrs : List P2pAttr) :
    attrs.length ≤ (encodeAttrs attrs).length := by
  induction attrs with
  | nil => exact Nat.le_refl 0
  | cons a attrs ih =>
    rw [encodeAttrs_cons, List.length_append, List.length_cons, P2pAttr.encode_length]
    omega

/-- The bytes of a P2P element in memory, by their parts. -/
theorem read_p2pBytes {ie : ℕ} {attrs : List P2pAttr} :
    m.read ie (p2pBytes attrs).length = p2pBytes attrs ↔ m ie = vendorSpecificIe ∧
      m (ie + 1) = UInt8.ofNat (4 + (encodeAttrs attrs).length) ∧
        m.read (ie + 2) 4 = p2pFormat.oui ∧
          m.read (ie + 6) (encodeAttrs attrs).length = encodeAttrs attrs := by
  have hlong : (p2pBytes attrs).length = 4 + (encodeAttrs attrs).length + 1 + 1 := by
    rw [p2pBytes_length]
    omega
  have hsplit (x y : List UInt8) (hx : x.length = 4) :
      x ++ y = p2pFormat.oui ++ encodeAttrs attrs ↔ x = p2pFormat.oui ∧ y = encodeAttrs attrs := by
    constructor
    · exact fun h => List.append_inj h hx
    · rintro ⟨rfl, rfl⟩
      rfl
  rw [hlong, Memory.read_succ, Memory.read_succ, p2pBytes, List.cons.injEq, List.cons.injEq,
    Memory.read_add, hsplit _ _ (Memory.read_length m _ _)]

theorem read_memoryFrom (ie i n : ℕ) : (memoryFrom m ie).read i n = m.read (ie + i) n := by
  simp only [Memory.read, memoryFrom, Nat.add_assoc]

end Encoding

section Search
variable {m : Memory} {ielen targetAttrId : ℕ} {bufAttr : Bool}

/-- The first attribute with an id, by its place from `p` on and its size. -/
def foundAttr (targetAttrId : ℕ) : ℕ → List P2pAttr → Option (ℕ × ℕ)
  | _, [] => none
  | p, a :: attrs =>
      if a.id.toNat = targetAttrId then some (p, a.encode.length)
      else foundAttr targetAttrId (p + a.encode.length) attrs

theorem attrLoop_encoded (hlen : ielen < 65536) (attrs : List P2pAttr) : ∀ {p fuel : ℕ},
    m.read p (encodeAttrs attrs).length = encodeAttrs attrs →
    p + (encodeAttrs attrs).length = ielen → attrs.length < fuel →
    ∃ reads, attrLoop p2pFormat m ielen targetAttrId bufAttr fuel p =
      some (reads, foundAttr targetAttrId p attrs) := by
  induction attrs with
  | nil =>
    intro p fuel _ hend _
    exact ⟨[], attrLoop_end (Nat.le_of_eq hend.symm) fuel⟩
  | cons a attrs ih =>
    intro p fuel hread hend hfuel
    rw [encodeAttrs_cons, List.length_append, Memory.read_add] at hread
    rw [encodeAttrs_cons, List.length_append] at hend
    obtain ⟨hhead, hrest⟩ := List.append_inj hread (Memory.read_length m _ _)
    obtain ⟨hid, hsize⟩ := P2pAttr.read_encode hhead
    have hpos := P2pAttr.encode_length a
    have hnext : p2pFormat.next m p = p + a.encode.length := by rw [Tlv.next, hsize]
    have hlength : attrLen p2pFormat m p = a.encode.length := by
      rw [attrLen_eq hlen (by omega), hsize]
    obtain ⟨fuel, rfl⟩ : ∃ k, fuel = k + 1 := ⟨fuel - 1, by omega⟩
    by_cases hwanted : a.id.toNat = targetAttrId
    · refine ⟨⟨p, p2pFormat.header⟩ :: (if bufAttr then [⟨p, a.encode.length⟩] else []), ?_⟩
      rw [attrLoop_wanted (by omega) (hid.trans hwanted), foundAttr, if_pos hwanted, hlength]
    · obtain ⟨reads, hrun⟩ := ih hrest (by omega) (Nat.lt_of_succ_lt_succ hfuel)
      refine ⟨⟨p, p2pFormat.header⟩ :: reads, ?_⟩
      rw [attrLoop_other (by omega) (by rwa [hid]), hlength, hrun, foundAttr, if_neg hwanted]
      rfl

theorem foundAttr_none {p : ℕ} {attrs : List P2pAttr}
    (h : ∀ a ∈ attrs, a.id.toNat ≠ targetAttrId) : foundAttr targetAttrId p attrs = none := by
  induction attrs generalizing p with
  | nil => rfl
  | cons a attrs ih =>
    rw [List.forall_mem_cons] at h
    rw [foundAttr, if_neg h.1, ih h.2]

theorem foundAttr_some {p : ℕ} {before after : List P2pAttr} {a : P2pAttr}
    (h : ∀ b ∈ before, b.id.toNat ≠ targetAttrId) (ha : a.id.toNat = targetAttrId) :
    foundAttr targetAttrId p (before ++ a :: after) =
      some (p + (encodeAttrs before).length, a.encode.length) := by
  induction before generalizing p with
  | nil => rw [List.nil_append, foundAttr, if_pos ha]; rfl
  | cons b before ih =>
    rw [List.forall_mem_cons] at h
    rw [List.cons_append, foundAttr, if_neg h.1, ih h.2, encodeAttrs_cons, List.length_append,
      Nat.add_assoc]

/-- A search in a P2P element finds the first attribute. -/
theorem rtwGetP2pAttr_encoded {ie : ℕ} {attrs : List P2pAttr}
    (hread : m.read ie (p2pBytes attrs).length = p2pBytes attrs)
    (hshort : (p2pBytes attrs).length < 65536) :
    ∃ reads, rtwGetP2pAttr (memoryFrom m ie) (p2pBytes attrs).length targetAttrId bufAttr
        ((p2pBytes attrs).length + 1) = some (reads, foundAttr targetAttrId 6 attrs) := by
  obtain ⟨hvendor, -, houi, hattrs⟩ := read_p2pBytes.mp hread
  have hlong := p2pBytes_length attrs
  have hcount := length_le_encodeAttrs attrs
  obtain ⟨reads, hrun⟩ := attrLoop_encoded (m := memoryFrom m ie) hshort attrs (p := 6)
    (by rw [read_memoryFrom, hattrs]) hlong.symm
    (show attrs.length < (p2pBytes attrs).length + 1 by omega)
  refine ⟨⟨0, 1⟩ :: ⟨2, 4⟩ :: reads, ?_⟩
  rw [rtwGetP2pAttr, getAttr_typed (f := p2pFormat) (m := memoryFrom m ie) hvendor
    ((read_memoryFrom ie 2 4).trans houi), hrun]
  rfl

end Search

section Removal
variable {m : Memory} {ie : ℕ} {before after : List P2pAttr} {a : P2pAttr}

section
variable {ielen target targetAttrLen : ℕ}

theorem removeAttr_front {j : ℕ} (hj : j < ie + target) (hlength : j ≠ ie + 1) :
    removeAttr m ie ielen target targetAttrLen j = m j := by
  simp only [removeAttr]
  rw [Memory.write_outside _ (by rw [List.length_singleton]; omega),
    Memory.write_outside _ (by omega), Memory.cut_outside _ (by omega),
    Memory.write_outside _ (by omega)]

/-- The length byte is lowered. -/
theorem removeAttr_length (h : 1 < target) :
    removeAttr m ie ielen target targetAttrLen (ie + 1) =
      m (ie + 1) - UInt8.ofNat targetAttrLen := by
  simp only [removeAttr]
  have hinside (m : Memory) (x : UInt8) : m.write (ie + 1) [x] (ie + 1) = x :=
    Memory.write_inside m (i := ie + 1) (j := 0) Nat.zero_lt_one
  rw [hinside, Memory.write_outside _ (by omega), Memory.cut_outside _ (by omega),
    Memory.write_outside _ (by omega)]

theorem removeAttr_moved (h : 1 < target) :
    (removeAttr m ie ielen target targetAttrLen).read (ie + target)
        (ielen - (target + targetAttrLen)) =
      m.read (ie + target + targetAttrLen) (ielen - (target + targetAttrLen)) := by
  simp only [removeAttr]
  rw [Memory.read_write_disjoint _ (by rw [List.length_singleton]; omega),
    Memory.read_write_disjoint _ (by omega), Memory.cut_read_same,
    Memory.read_write_disjoint _ (by rw [List.length_replicate]; omega)]

end

/-- The rest of the attributes is moved over the one that is removed. -/
theorem removeAttr_read
    (hread : m.read ie (p2pBytes (before ++ a :: after)).length = p2pBytes (before ++ a :: after)) :
    (removeAttr m ie (p2pBytes (before ++ a :: after)).length (6 + (encodeAttrs before).length)
      a.encode.length).read ie (p2pBytes (before ++ after)).length =
        p2pBytes (before ++ after) := by
  obtain ⟨hvendor, hlength, houi, hattrs⟩ := read_p2pBytes.mp hread
  have hsize : (p2pBytes (before ++ a :: after)).length =
      6 + (encodeAttrs before).length + a.encode.length + (encodeAttrs after).length := by
    rw [p2pBytes_length, encodeAttrs_append, encodeAttrs_cons, List.length_append,
      List.length_append]
    omega
  have hrest : (p2pBytes (before ++ a :: after)).length - (6 + (encodeAttrs before).length +
      a.encode.length) = (encodeAttrs after).length := by omega
  have hmoved := @removeAttr_moved m ie (p2pBytes (before ++ a :: after)).length
    (6 + (encodeAttrs before).length) a.encode.length (by omega)
  rw [hrest] at hmoved
  rw [encodeAttrs_append, encodeAttrs_cons, List.length_append, List.length_append,
    Memory.read_add, Memory.read_add] at hattrs
  obtain ⟨hbefore, hattrs⟩ := List.append_inj hattrs (Memory.read_length m _ _)
  have hafter := (List.append_inj hattrs (Memory.read_length m _ _)).2
  refine read_p2pBytes.mpr ⟨?_, ?_, ?_, ?_⟩
  · rw [removeAttr_front (by omega) (by omega), hvendor]
  · rw [removeAttr_length (by omega), hlength, encodeAttrs_append, encodeAttrs_append,
      encodeAttrs_cons, List.length_append, List.length_append, List.length_append]
    rw [show 4 + ((encodeAttrs before).length + (a.encode.length + (encodeAttrs after).length)) =
      4 + ((encodeAttrs before).length + (encodeAttrs after).length) + a.encode.length by omega,
      UInt8.ofNat_add, UInt8.add_sub_cancel]
  · rw [← houi]
    apply Memory.read_congr
    intro j _ hj
    exact removeAttr_front (by omega) (by omega)
  · have hkept : (removeAttr m ie (p2pBytes (before ++ a :: after)).length
        (6 + (encodeAttrs before).length) a.encode.length).read (ie + 6)
          (encodeAttrs before).length = encodeAttrs before := by
      rw [← hbefore, Memory.read_length]
      apply Memory.read_congr
      intro j _ hj
      exact removeAttr_front (by omega) (by omega)
    rw [encodeAttrs_append, List.length_append, Memory.read_add, hkept, Nat.add_assoc ie 6, hmoved,
      ← Nat.add_assoc ie 6, hafter]

/-- Outside of the element nothing changes. -/
theorem removeAttr_outside {ielen target targetAttrLen j : ℕ} (h : target + targetAttrLen ≤ ielen)
    (h2 : 2 ≤ ielen) (hj : j < ie ∨ ie + ielen ≤ j) :
    removeAttr m ie ielen target targetAttrLen j = m j := by
  simp only [removeAttr]
  rw [Memory.write_outside _ (by rw [List.length_singleton]; omega),
    Memory.write_outside _ (by rw [List.length_replicate]; omega),
    Memory.cut_outside _ (by omega), Memory.write_outside _ (by rw [List.length_replicate]; omega)]

/-- The attributes that are to be kept. -/
def keptAttrs (attrId : ℕ) (attrs : List P2pAttr) : List P2pAttr :=
  attrs.filter fun a => a.id.toNat != attrId

/-- The attributes with the id are removed, one after the other. -/
theorem rtwP2pAttrRemove_encoded (attrId n : ℕ) : ∀ {attrs : List P2pAttr} {m : Memory},
    attrs.length = n → m.read ie (p2pBytes attrs).length = p2pBytes attrs →
    (p2pBytes attrs).length < 65536 →
    ∃ m', rtwP2pAttrRemove attrId ie m (p2pBytes attrs).length =
        some (m', (p2pBytes (keptAttrs attrId attrs)).length) ∧
      m'.read ie (p2pBytes (keptAttrs attrId attrs)).length = p2pBytes (keptAttrs attrId attrs) ∧
      ∀ j, j < ie ∨ ie + (p2pBytes attrs).length ≤ j → m' j = m j := by
  induction n using Nat.strongRecOn with
  | _ n ih =>
    intro attrs m hn hread hshort
    obtain ⟨reads, hsearch⟩ := @rtwGetP2pAttr_encoded _ attrId false _ _
      hread hshort
    cases hfind : attrs.find? fun a => a.id.toNat == attrId with
    | none =>
      have hother : ∀ a ∈ attrs, a.id.toNat ≠ attrId := by
        simpa using List.find?_eq_none.mp hfind
      have hkept : keptAttrs attrId attrs = attrs :=
        List.filter_eq_self.mpr fun a ha => by simpa using hother a ha
      rw [foundAttr_none hother] at hsearch
      rw [hkept]
      refine ⟨m, ?_, hread, fun _ _ => rfl⟩
      rw [rtwP2pAttrRemove, hsearch]
    | some a =>
      obtain ⟨ha, before, after, rfl, hbefore⟩ := List.find?_eq_some_iff_append.mp hfind
      have hid : a.id.toNat = attrId := by simpa using ha
      have hother : ∀ b ∈ before, b.id.toNat ≠ attrId := by simpa using hbefore
      have hkept : keptAttrs attrId (before ++ a :: after) =
          keptAttrs attrId (before ++ after) := by
        simp [keptAttrs, hid]
      have hsize : (p2pBytes (before ++ a :: after)).length =
          (p2pBytes (before ++ after)).length + a.encode.length := by
        simp only [p2pBytes_length, encodeAttrs_append, encodeAttrs_cons, List.length_append]
        omega
      have hpos := P2pAttr.encode_length a
      have hrest : 6 + (encodeAttrs before).length ≤ (p2pBytes (before ++ after)).length := by
        simp only [p2pBytes_length, encodeAttrs_append, List.length_append]
        omega
      rw [foundAttr_some hother hid] at hsearch
      obtain ⟨m', hrun, hread', houtside⟩ := ih (before ++ after).length
        (by rw [← hn, List.length_append, List.length_append, List.length_cons]; omega) rfl
        (removeAttr_read hread) (by omega)
      rw [hkept]
      refine ⟨m', ?_, hread', ?_⟩
      · rw [rtwP2pAttrRemove, hsearch]
        simp only
        rw [dif_neg (by omega), dif_neg (by omega), hsize, Nat.add_sub_cancel]
        rw [hsize] at hrun
        exact hrun
      · intro j hj
        rw [houtside j (by omega), removeAttr_outside (by omega) (by omega) hj]

end Removal

section Element
variable {m : Memory} {inIe stop p : ℕ}

theorem p2pIeFrom_wanted (hlt : p < stop) (hshort : p - inIe ≤ maxIeSz)
    (h : (ouiProbe m vendorSpecificIe (some p2pFormat.oui) p).wanted = true) :
    p2pIeFrom m inIe stop p = some p := by
  rw [p2pIeFrom, if_pos hlt, if_neg (Nat.not_lt.mpr hshort), if_pos h]

theorem p2pIeFrom_other (hlt : p < stop) (hshort : p - inIe ≤ maxIeSz)
    (h : ¬ (ouiProbe m vendorSpecificIe (some p2pFormat.oui) p).wanted = true) :
    p2pIeFrom m inIe stop p = p2pIeFrom m inIe stop (elementFormat.next m p) := by
  rw [p2pIeFrom, if_pos hlt, if_neg (Nat.not_lt.mpr hshort), if_neg h]

/-- The search passes elements that are not P2P elements, or stops at one that it misreads. -/
theorem p2pIeFrom_elements (hshort : stop - inIe ≤ maxIeSz) (es : List Element) : ∀ {p : ℕ},
    m.read p (encodeElements es).length = encodeElements es →
    p + (encodeElements es).length < stop →
    (∀ e ∈ es, e.hit vendorSpecificIe (some p2pFormat.oui) = false) →
    NoneMisread vendorSpecificIe (some p2pFormat.oui) m p es ∧
        p2pIeFrom m inIe stop p = p2pIeFrom m inIe stop (p + (encodeElements es).length) ∨
      ¬ NoneMisread vendorSpecificIe (some p2pFormat.oui) m p es ∧
        ∃ q e, p2pIeFrom m inIe stop p = some q ∧ m.read q e.encode.length = e.encode ∧
          Misread vendorSpecificIe (some p2pFormat.oui) m q e := by
  induction es with
  | nil => exact fun _ _ _ => Or.inl ⟨trivial, rfl⟩
  | cons e es ih =>
    intro p hread hstop hnot
    rw [encodeElements_cons, List.length_append] at hread hstop
    rw [Memory.read_add] at hread
    obtain ⟨hhead, hrest⟩ := List.append_inj hread (Memory.read_length m _ _)
    obtain ⟨hnot, hnotRest⟩ := List.forall_mem_cons.mp hnot
    have hwanted := @wanted_iff _ _ _ vendorSpecificIe (some p2pFormat.oui) hhead
    rw [hnot] at hwanted
    rw [NoneMisread, if_neg (by simp [hnot])]
    by_cases hmisread : Misread vendorSpecificIe (some p2pFormat.oui) m p e
    · exact Or.inr ⟨fun h => h.1 hmisread, p, e,
        p2pIeFrom_wanted (by omega) (by omega) (hwanted.mpr (Or.inr hmisread)), hhead, hmisread⟩
    · have hother : ¬ (ouiProbe m vendorSpecificIe (some p2pFormat.oui) p).wanted = true := by
        intro h
        rcases hwanted.mp h with h | h
        · cases h
        · exact hmisread h
      have hnext : elementFormat.next m p = p + e.encode.length := by
        rw [Tlv.next, (Element.read_encode hhead).2.1]
      rw [p2pIeFrom_other (by omega) (by omega) hother, hnext, encodeElements_cons,
        List.length_append, ← Nat.add_assoc]
      rcases ih hrest (by omega) hnotRest with ⟨hnone, heq⟩ | ⟨hsome, hfound⟩
      · exact Or.inl ⟨⟨hmisread, hnone⟩, heq⟩
      · exact Or.inr ⟨fun h => hsome h.2, hfound⟩

/-- In an element that is misread nothing is removed. -/
theorem rtwP2pAttrRemove_misread {attrId q : ℕ} {e : Element}
    (hread : m.read q e.encode.length = e.encode)
    (h : Misread vendorSpecificIe (some p2pFormat.oui) m q e) :
    rtwP2pAttrRemove attrId q m (elementFormat.size m q) =
      some (m, elementFormat.size m q) := by
  obtain ⟨hid, hsize, -⟩ := Element.read_encode hread
  obtain ⟨heid, o, ho, hshort, houi⟩ := h
  cases ho
  have hlong : elementFormat.size m q ≤ 6 := by
    rw [hsize, Element.encode_length]
    exact Nat.add_le_add_right (Nat.le_of_lt hshort) 2
  have hsearch : rtwGetP2pAttr (memoryFrom m q) (elementFormat.size m q) attrId false
      (elementFormat.size m q + 1) = some ([⟨0, 1⟩, ⟨2, 4⟩], none) := by
    rw [rtwGetP2pAttr, getAttr_typed (f := p2pFormat) (m := memoryFrom m q) (hid.trans heid)
      ((read_memoryFrom q 2 4).trans houi), attrLoop_end hlong]
    rfl
  rw [rtwP2pAttrRemove, hsearch]

end Element

/-- The fixed fields, the elements in front of the P2P element, this one, and the others. -/
def networkIes (fixed : List UInt8) (es : List Element) (attrs : List P2pAttr)
    (es' : List Element) : List UInt8 :=
  fixed ++ (encodeElements es ++ (p2pBytes attrs ++ encodeElements es'))

/-- The attributes with the id are removed from the first P2P element, and nothing else. -/
def RemovesAttrs (m : Memory) (attrId : ℕ) (fixed : List UInt8) (es : List Element)
    (attrs : List P2pAttr) (es' : List Element) : Prop :=
  let kept := networkIes fixed es (keptAttrs attrId attrs) es'
  ∃ m', rtwWlanBssidExRemoveP2pAttr m (networkIes fixed es attrs es').length attrId =
    some (m', kept.length) ∧ m'.read 0 kept.length = kept

section Network
variable {m : Memory} {attrId : ℕ} {fixed : List UInt8} {es : List Element} {attrs : List P2pAttr}
  {es' : List Element}

/-- A list of the network's elements whose first P2P element is that with the attributes. -/
structure NetworkShaped (m : Memory) (fixed : List UInt8) (es : List Element)
    (attrs : List P2pAttr) (es' : List Element) : Prop where
  read : m.read 0 (networkIes fixed es attrs es').length = networkIes fixed es attrs es'
  fixedLength : fixed.length = 12
  first : ∀ e ∈ es, e.hit vendorSpecificIe (some p2pFormat.oui) = false
  element : 4 + (encodeAttrs attrs).length < 256
  short : (networkIes fixed es attrs es').length ≤ maxIeSz

theorem encodeAttrs_kept_le (attrs : List P2pAttr) :
    (encodeAttrs (keptAttrs attrId attrs)).length ≤ (encodeAttrs attrs).length :=
  (List.filter_sublist.flatMap P2pAttr.encode).length_le

/-- Fewer attributes take fewer bytes. -/
theorem encodeAttrs_kept_lt (h : ∃ a ∈ attrs, a.id.toNat = attrId) :
    (encodeAttrs (keptAttrs attrId attrs)).length < (encodeAttrs attrs).length := by
  obtain ⟨a, ha, hid⟩ := h
  obtain ⟨before, after, rfl⟩ := List.append_of_mem ha
  have hpos := P2pAttr.encode_length a
  have hbefore := @encodeAttrs_kept_le attrId before
  have hafter := @encodeAttrs_kept_le attrId after
  have hsplit : keptAttrs attrId (before ++ a :: after) =
      keptAttrs attrId before ++ keptAttrs attrId after := by
    simp [keptAttrs, hid]
  rw [hsplit, encodeAttrs_append, encodeAttrs_append, encodeAttrs_cons, List.length_append,
    List.length_append, List.length_append]
  omega

theorem networkIes_length : (networkIes fixed es attrs es').length =
    fixed.length + (encodeElements es).length + (p2pBytes attrs).length +
      (encodeElements es').length := by
  simp only [networkIes, List.length_append]
  omega

/-- The parts of the elements in memory. -/
theorem NetworkShaped.parts (h : NetworkShaped m fixed es attrs es') :
    m.read 0 12 = fixed ∧ m.read 12 (encodeElements es).length = encodeElements es ∧
      m.read (12 + (encodeElements es).length) (p2pBytes attrs).length = p2pBytes attrs ∧
        m.read (12 + (encodeElements es).length + (p2pBytes attrs).length)
          (encodeElements es').length = encodeElements es' := by
  have hread := h.read
  rw [networkIes, List.length_append, List.length_append, List.length_append, Memory.read_add,
    Memory.read_add, Memory.read_add, Nat.zero_add, h.fixedLength] at hread
  obtain ⟨hfixed, hread⟩ := List.append_inj hread (by rw [Memory.read_length, h.fixedLength])
  obtain ⟨hbefore, hread⟩ := List.append_inj hread (Memory.read_length m _ _)
  obtain ⟨hp2p, hafter⟩ := List.append_inj hread (Memory.read_length m _ _)
  exact ⟨hfixed, hbefore, hp2p, hafter⟩

theorem NetworkShaped.p2pSize (h : NetworkShaped m fixed es attrs es') :
    elementFormat.size m (12 + (encodeElements es).length) = (p2pBytes attrs).length := by
  have hlength := (read_p2pBytes.mp h.parts.2.2.1).2.1
  rw [p2pBytes_length]
  show 2 + (m _).toNat = _
  rw [hlength, UInt8.toNat_ofNat', Nat.mod_eq_of_lt h.element]
  omega

theorem NetworkShaped.p2pWanted (h : NetworkShaped m fixed es attrs es') :
    (ouiProbe m vendorSpecificIe (some p2pFormat.oui)
      (12 + (encodeElements es).length)).wanted = true := by
  obtain ⟨hvendor, -, houi, -⟩ := read_p2pBytes.mp h.parts.2.2.1
  rw [ouiProbe, if_pos hvendor]
  exact beq_iff_eq.mpr houi

/-- Where the P2P element is found, the attributes are removed from it. -/
theorem removesAttrs_found (h : NetworkShaped m fixed es attrs es')
    (hfound : rtwGetP2pIe m 12 ((networkIes fixed es attrs es').length - 12) =
      some (12 + (encodeElements es).length)) : RemovesAttrs m attrId fixed es attrs es' := by
  obtain ⟨hfixed, hbefore, hp2p, hafter⟩ := h.parts
  obtain ⟨P, hP⟩ : ∃ P, 12 + (encodeElements es).length = P := ⟨_, rfl⟩
  have hsize := h.p2pSize
  have helement := h.element
  have hfixedLength := h.fixedLength
  have horiLength := p2pBytes_length attrs
  have hkeptLength := p2pBytes_length (keptAttrs attrId attrs)
  have hkept := @encodeAttrs_kept_le attrId attrs
  have hlong := @networkIes_length fixed es attrs es'
  have hlongKept := @networkIes_length fixed es (keptAttrs attrId attrs) es'
  rw [hP] at hfound hsize hp2p hafter
  obtain ⟨m', hrun, hread, houtside⟩ := rtwP2pAttrRemove_encoded attrId attrs.length rfl hp2p
    (by omega)
  have hfront : m'.read 0 P = fixed ++ encodeElements es := by
    have hsame : m'.read 0 P = m.read 0 P := by
      apply Memory.read_congr
      intro j _ hj
      exact houtside j (Or.inl (by omega))
    rw [hsame, ← hP, Memory.read_add, Nat.zero_add, hfixed, hbefore]
  have hbehind : m'.read (P + (p2pBytes attrs).length) (encodeElements es').length =
      encodeElements es' := by
    have hsame : m'.read (P + (p2pBytes attrs).length) (encodeElements es').length =
        m.read (P + (p2pBytes attrs).length) (encodeElements es').length := by
      apply Memory.read_congr
      intro j hj _
      exact houtside j (Or.inr hj)
    rw [hsame, hafter]
  have hlengthEq : (networkIes fixed es (keptAttrs attrId attrs) es').length =
      P + ((p2pBytes (keptAttrs attrId attrs)).length + (encodeElements es').length) := by omega
  have hwhole (M : Memory) (hM : M.read 0 P = fixed ++ encodeElements es)
      (hM' : M.read P (p2pBytes (keptAttrs attrId attrs)).length =
        p2pBytes (keptAttrs attrId attrs))
      (hM'' : M.read (P + (p2pBytes (keptAttrs attrId attrs)).length)
        (encodeElements es').length = encodeElements es') :
      M.read 0 (networkIes fixed es (keptAttrs attrId attrs) es').length =
        networkIes fixed es (keptAttrs attrId attrs) es' := by
    rw [hlengthEq, Memory.read_add, Memory.read_add, Nat.zero_add, hM, hM', hM'', networkIes,
      List.append_assoc]
  by_cases hsame : (p2pBytes (keptAttrs attrId attrs)).length = (p2pBytes attrs).length
  · refine ⟨m', ?_, hwhole m' hfront hread (by rw [hsame, hbehind])⟩
    rw [rtwWlanBssidExRemoveP2pAttr, if_neg (by omega), hfound]
    simp only
    rw [hsize, hrun, Option.bind_some, if_pos hsame]
    have hequal : (networkIes fixed es attrs es').length =
        (networkIes fixed es (keptAttrs attrId attrs) es').length := by omega
    rw [hequal]
  · have hkeptLt : (p2pBytes (keptAttrs attrId attrs)).length < (p2pBytes attrs).length := by omega
    have hremain : (networkIes fixed es attrs es').length - (P + (p2pBytes attrs).length) =
        (encodeElements es').length := by omega
    have hgap : P + (p2pBytes (keptAttrs attrId attrs)).length +
        ((p2pBytes attrs).length - (p2pBytes (keptAttrs attrId attrs)).length) =
          P + (p2pBytes attrs).length := by omega
    have hshorter : (networkIes fixed es attrs es').length -
        ((p2pBytes attrs).length - (p2pBytes (keptAttrs attrId attrs)).length) =
          (networkIes fixed es (keptAttrs attrId attrs) es').length := by omega
    refine ⟨_, ?_, hwhole ((m'.cut (P + (p2pBytes (keptAttrs attrId attrs)).length)
      ((p2pBytes attrs).length - (p2pBytes (keptAttrs attrId attrs)).length)
        (encodeElements es').length).write (P + (p2pBytes (keptAttrs attrId attrs)).length +
          (encodeElements es').length) (List.replicate
            ((p2pBytes attrs).length - (p2pBytes (keptAttrs attrId attrs)).length) 0)) ?_ ?_ ?_⟩
    · rw [rtwWlanBssidExRemoveP2pAttr, if_neg (by omega), hfound]
      simp only
      rw [hsize, hrun, Option.bind_some, if_neg hsame, if_neg (by omega), hremain, hshorter]
    · rw [← hfront]
      apply Memory.read_congr
      intro j _ hj
      rw [Memory.write_outside _ (by omega), Memory.cut_outside _ (by omega)]
    · rw [← hread, Memory.read_length]
      apply Memory.read_congr
      intro j _ hj
      rw [Memory.write_outside _ (by omega), Memory.cut_outside _ (by omega)]
    · rw [Memory.read_write_disjoint _ (by omega), Memory.cut_read_same, hgap, hbehind]

/-- The attributes are removed exactly when no element in front of the P2P element is taken for one,
or when there is nothing to remove. -/
theorem removesAttrs_iff (h : NetworkShaped m fixed es attrs es') :
    RemovesAttrs m attrId fixed es attrs es' ↔
      NoneMisread vendorSpecificIe (some p2pFormat.oui) m 12 es ∨
        ∀ a ∈ attrs, a.id.toNat ≠ attrId := by
  obtain ⟨-, hbefore, -, -⟩ := h.parts
  have hlong := @networkIes_length fixed es attrs es'
  have hfixedLength := h.fixedLength
  have hshort := h.short
  have horiLength := p2pBytes_length attrs
  have hstop : 12 + ((networkIes fixed es attrs es').length - 12) =
      (networkIes fixed es attrs es').length := by omega
  have hsearch := @p2pIeFrom_elements m 12
    (networkIes fixed es attrs es').length (by omega) es 12 hbefore (by omega) h.first
  rcases hsearch with ⟨hnone, hpassed⟩ | ⟨hmisread, q, e, hfound, hread, hwrong⟩
  · refine ⟨fun _ => Or.inl hnone, fun _ => removesAttrs_found h ?_⟩
    rw [rtwGetP2pIe, hstop, hpassed]
    exact p2pIeFrom_wanted (by omega) (by omega) h.p2pWanted
  · have hrun : rtwWlanBssidExRemoveP2pAttr m (networkIes fixed es attrs es').length attrId =
        some (m, (networkIes fixed es attrs es').length) := by
      rw [rtwWlanBssidExRemoveP2pAttr, if_neg (by omega), rtwGetP2pIe, hstop, hfound]
      simp only
      rw [rtwP2pAttrRemove_misread hread hwrong, Option.bind_some, if_pos rfl]
    constructor
    · rintro ⟨m', hrun', -⟩
      right
      by_contra hsome
      simp only [not_forall, not_not, exists_prop] at hsome
      have hlt := encodeAttrs_kept_lt hsome
      rw [hrun] at hrun'
      have hlength := congrArg Prod.snd (Option.some.inj hrun')
      simp only [networkIes_length, p2pBytes_length] at hlength
      omega
    · rintro (hnone | hother)
      · exact absurd hnone hmisread
      · have hkept : keptAttrs attrId attrs = attrs :=
          List.filter_eq_self.mpr fun a ha => by simpa using hother a ha
        rw [RemovesAttrs, hkept]
        exact ⟨m, hrun, h.read⟩

end Network

/-- Both removals remove exactly what they should when no element too short for an OUI is taken for
one with that OUI because of the bytes behind it. -/
theorem removals_exact_iff {eid : UInt8} {oui : Option (List UInt8)} {m : Memory}
    {front : List UInt8} {es : List Element}
    (hread : m.read 0 (front ++ encodeElements es).length = front ++ encodeElements es)
    (hsize : (front ++ encodeElements es).length ≤ maxIeSz)
    {m' : Memory} {attrId : ℕ} {fixed : List UInt8} {before : List Element}
    {attrs : List P2pAttr} {behind : List Element}
    (hshaped : NetworkShaped m' fixed before attrs behind) :
    (RemovesExactly eid oui m front es ↔ NoneMisread eid oui m front.length es) ∧
      (RemovesAttrs m' attrId fixed before attrs behind ↔
        NoneMisread vendorSpecificIe (some p2pFormat.oui) m' 12 before ∨
          ∀ a ∈ attrs, a.id.toNat ≠ attrId) :=
  ⟨removesExactly_iff hread hsize, removesAttrs_iff hshaped⟩

section Example

/-- Bytes at the beginning of an empty memory. -/
def memoryOf (bytes : List UInt8) : Memory := fun i => bytes.getD i 0

def ssidElement : Element := ⟨0x00, [0x61, 0x62], by decide⟩

def groupInfo : P2pAttr := ⟨14, [0x01], by decide⟩

theorem removals_plain :
    RemovesExactly 0x00 none (memoryOf ssidElement.encode) [] [ssidElement] ∧
      RemovesAttrs (memoryOf (networkIes (List.replicate 12 0) [] [groupInfo] [])) 14
        (List.replicate 12 0) [] [groupInfo] [] := by
  have helements : (memoryOf ssidElement.encode).read 0
      ([] ++ encodeElements [ssidElement]).length = [] ++ encodeElements [ssidElement] := by decide
  have hshaped : NetworkShaped (memoryOf (networkIes (List.replicate 12 0) [] [groupInfo] []))
      (List.replicate 12 0) [] [groupInfo] [] :=
    ⟨by decide, rfl, nofun, by decide, by decide⟩
  obtain ⟨hexact, hattrs⟩ :=
    @removals_exact_iff 0x00 none _ _ _ helements (by decide) _ 14 _ _ _ _ hshaped
  refine ⟨hexact.mpr ?_, hattrs.mpr (Or.inl trivial)⟩
  rw [NoneMisread, if_pos (by decide)]
  trivial

/-- A vendor element with three bytes, and one with the id 4. -/
def misreadElements : List Element :=
  [⟨0xdd, [0x00, 0x50, 0xf2], by decide⟩, ⟨0x04, List.replicate 6 0, by decide⟩]

/-- The id of the next element completes the OUI of WPS. -/
theorem misreadElements_removed : ¬ RemovesExactly 0xdd (some wpsOui)
    (memoryOf (encodeElements misreadElements)) [] misreadElements := by
  rw [removesExactly_iff (by decide) (by decide), misreadElements, NoneMisread, if_neg (by decide)]
  rintro ⟨hread, -⟩
  exact hread ⟨rfl, wpsOui, rfl, by decide, by decide⟩

end Example

end Rtl8188eu

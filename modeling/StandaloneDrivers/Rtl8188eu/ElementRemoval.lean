import StandaloneDrivers.Rtl8188eu.ElementSearch
import StandaloneDrivers.Rtl8188eu.Reorder

/-! The removal of information elements (`rtw_ies_remove_ie` of rtw_ieee80211.c), which searches
again from where it has removed one. The elements stand at the beginning of the memory. -/
namespace Rtl8188eu
open Foundations

/-- `MAX_IE_SZ` -/
def maxIeSz : ℕ := 768

theorem searchFrom_lt {m : Memory} {probe : ℕ → Probe} {found : ℕ → List Span} {stop p q : ℕ}
    (h : (searchFrom m probe found stop p).2 = some q) : q < stop := by
  fun_induction searchFrom m probe found stop p with
  | case1 p hlt hwanted => exact Option.some.inj h ▸ hlt
  | case2 p hlt hwanted rest ih => exact ih h
  | case3 => cases h

section Code
variable (eid : UInt8) (oui : Option (List UInt8))

theorem rtwGetIeEx_lt {m : Memory} {inIe inLen target : ℕ} {ie ielen : Bool}
    (h : (rtwGetIeEx m inIe inLen eid oui ie ielen).2 = some target) :
    inIe ≤ target ∧ target < inIe + inLen :=
  ⟨searchFrom_ge m h, searchFrom_lt h⟩

/-- The loop of the removals. A length that wraps or does not fit into the buffer on the stack
leaves no result. -/
def removeFrom (m : Memory) (iesLen start searchLen : ℕ) (ret : Status) :
    Option (Status × Memory × ℕ) :=
  match _h : (rtwGetIeEx m start searchLen eid oui false true).2 with
  | none => some (ret, m, iesLen)
  | some target =>
      let remainIes := elementFormat.next m target
      if _hlong : start + searchLen < remainIes ∨ maxIeSz < start + searchLen - remainIes then none
      else
        let remainLen := searchLen - (remainIes - start)
        removeFrom (m.cut target (elementFormat.size m target) remainLen)
          (iesLen - elementFormat.size m target) target remainLen .success
  termination_by searchLen
  decreasing_by
    have := rtwGetIeEx_lt eid oui _h
    have := elementFormat.lt_next m target
    omega

def rtwIesRemoveIe (m : Memory) (iesLen offset : ℕ) : Option (Status × Memory × ℕ) :=
  if iesLen ≤ offset then some (.fail, m, iesLen)
  else removeFrom eid oui m iesLen offset (iesLen - offset) .fail

end Code

/-- An element as it is meant. -/
structure Element where
  id : UInt8
  body : List UInt8
  short : body.length < 256

namespace Element

def encode (e : Element) : List UInt8 := e.id :: UInt8.ofNat e.body.length :: e.body

/-- An element with the id, the body of which begins with the OUI. -/
def hit (eid : UInt8) (oui : Option (List UInt8)) (e : Element) : Bool :=
  e.id == eid && oui.all fun o => o.isPrefixOf e.body

end Element

def encodeElements (es : List Element) : List UInt8 := es.flatMap Element.encode

section Code
variable (eid : UInt8) (oui : Option (List UInt8))

/-- The body of an element is too short for the OUI, and the bytes that follow it complete it. -/
def Misread (m : Memory) (p : ℕ) (e : Element) : Prop :=
  e.id = eid ∧ ∃ o, oui = some o ∧ e.body.length < o.length ∧ m.read (p + 2) o.length = o

/-- None of the elements that are kept is misread where the search meets it. -/
def NoneMisread : Memory → ℕ → List Element → Prop
  | _, _, [] => True
  | m, p, e :: es =>
      if e.hit eid oui then
        NoneMisread (m.cut p e.encode.length (encodeElements es).length) p es
      else ¬ Misread eid oui m p e ∧ NoneMisread m (p + e.encode.length) es

/-- The elements that the loop leaves. -/
def leftElements : Memory → ℕ → List Element → List Element
  | _, _, [] => []
  | m, p, e :: es =>
      if (ouiProbe m eid oui p).wanted then
        leftElements (m.cut p e.encode.length (encodeElements es).length) p es
      else e :: leftElements m (p + e.encode.length) es

end Code

section Encoding

theorem Element.encode_length (e : Element) : e.encode.length = e.body.length + 2 := rfl

theorem encodeElements_cons (e : Element) (es : List Element) :
    encodeElements (e :: es) = e.encode ++ encodeElements es := rfl

variable {m : Memory} {p : ℕ} {e : Element} {eid : UInt8} {oui : Option (List UInt8)}

/-- The id, the length and the body of an element in memory. -/
theorem Element.read_encode (h : m.read p e.encode.length = e.encode) :
    m p = e.id ∧ elementFormat.size m p = e.encode.length ∧
      m.read (p + 2) e.body.length = e.body := by
  change m.read p (e.body.length + 1 + 1) = e.encode at h
  rw [Memory.read_succ, Memory.read_succ, Element.encode, List.cons.injEq, List.cons.injEq] at h
  obtain ⟨hid, hlength, hbody⟩ := h
  refine ⟨hid, ?_, hbody⟩
  have hshort := e.short
  rw [Tlv.size, Element.encode_length]
  show 2 + (m (p + 1)).toNat = e.body.length + 2
  rw [hlength, UInt8.toNat_ofNat', Nat.mod_eq_of_lt hshort, Nat.add_comm]

theorem wanted_iff (h : m.read p e.encode.length = e.encode) :
    (ouiProbe m eid oui p).wanted = true ↔ e.hit eid oui = true ∨ Misread eid oui m p e := by
  obtain ⟨hid, -, hbody⟩ := Element.read_encode h
  by_cases heid : e.id = eid
  · cases oui with
    | none => simp [ouiProbe, Element.hit, hid, heid]
    | some o =>
      have hprobe : (ouiProbe m eid (some o) p).wanted = true ↔ m.read (p + 2) o.length = o := by
        rw [ouiProbe, if_pos (hid.trans heid)]
        exact beq_iff_eq
      have hhit : e.hit eid (some o) = true ↔ o <+: e.body := by
        simp [Element.hit, heid]
      rw [hprobe, hhit]
      rcases Nat.lt_or_ge e.body.length o.length with hlt | hge
      · constructor
        · intro hread
          exact Or.inr ⟨heid, o, rfl, hlt, hread⟩
        · rintro (hfront | ⟨-, o', ho', -, hread⟩)
          · have := hfront.length_le
            omega
          · cases ho'
            exact hread
      · have hread : m.read (p + 2) o.length = e.body.take o.length := by
          obtain ⟨k, hk⟩ := Nat.exists_eq_add_of_le hge
          rw [hk, Memory.read_add] at hbody
          rw [← hbody, List.take_left' (Memory.read_length m _ _)]
        rw [hread, List.prefix_iff_eq_take]
        constructor
        · intro heq
          exact Or.inl heq.symm
        · rintro (heq | ⟨-, o', ho', hlt, -⟩)
          · exact heq.symm
          · cases ho'
            omega
  · have hother : ¬ m p = eid := fun h => heid (hid.symm.trans h)
    simp [ouiProbe, Element.hit, Misread, hother, heid]

end Encoding

section Loop
variable {eid : UInt8} {oui : Option (List UInt8)} {m : Memory} {iesLen p searchLen : ℕ}
  {ret : Status}

theorem removeFrom_none (h : (rtwGetIeEx m p searchLen eid oui false true).2 = none) :
    removeFrom eid oui m iesLen p searchLen ret = some (ret, m, iesLen) := by
  rw [removeFrom]
  split
  · rfl
  · rename_i heq
    rw [h] at heq
    cases heq

theorem removeFrom_some {target : ℕ}
    (h : (rtwGetIeEx m p searchLen eid oui false true).2 = some target) :
    removeFrom eid oui m iesLen p searchLen ret =
      if p + searchLen < elementFormat.next m target ∨
          maxIeSz < p + searchLen - elementFormat.next m target then none
      else removeFrom eid oui (m.cut target (elementFormat.size m target)
          (searchLen - (elementFormat.next m target - p)))
        (iesLen - elementFormat.size m target) target
          (searchLen - (elementFormat.next m target - p)) .success := by
  rw [removeFrom]
  split
  · rename_i heq
    rw [h] at heq
    cases heq
  · rename_i target' heq
    rw [h] at heq
    cases heq
    simp only [dite_eq_ite]

/-- An element that is not wanted is passed. -/
theorem removeFrom_pass (hle : elementFormat.next m p ≤ p + searchLen)
    (hother : (ouiProbe m eid oui p).wanted = false) :
    removeFrom eid oui m iesLen p searchLen ret =
      removeFrom eid oui m iesLen (elementFormat.next m p)
        (searchLen - elementFormat.size m p) ret := by
  have hlt := elementFormat.lt_next m p
  have hnext : elementFormat.next m p = p + elementFormat.size m p := rfl
  have hstop : elementFormat.next m p + (searchLen - elementFormat.size m p) = p + searchLen := by
    omega
  have hsearch : (rtwGetIeEx m p searchLen eid oui false true).2 =
      (rtwGetIeEx m (elementFormat.next m p) (searchLen - elementFormat.size m p) eid oui false
        true).2 := by
    rw [rtwGetIeEx, searchFrom_other (by omega) hother, rtwGetIeEx, hstop]
  cases hresult : (rtwGetIeEx m p searchLen eid oui false true).2 with
  | none =>
    rw [hsearch] at hresult
    rw [removeFrom_none (hsearch.trans hresult), removeFrom_none hresult]
  | some target =>
    have hresult' := hsearch.symm.trans hresult
    have hge := (rtwGetIeEx_lt eid oui hresult').1
    have htarget := elementFormat.lt_next m target
    have hrest : searchLen - elementFormat.size m p -
        (elementFormat.next m target - elementFormat.next m p) =
          searchLen - (elementFormat.next m target - p) := by omega
    rw [removeFrom_some hresult, removeFrom_some hresult', hstop, hrest]

/-- A wanted element is removed, and the search goes on in its place. -/
theorem removeFrom_hit (hle : elementFormat.next m p ≤ p + searchLen)
    (hshort : searchLen ≤ maxIeSz) (hwanted : (ouiProbe m eid oui p).wanted = true) :
    removeFrom eid oui m iesLen p searchLen ret =
      removeFrom eid oui (m.cut p (elementFormat.size m p) (searchLen - elementFormat.size m p))
        (iesLen - elementFormat.size m p) p (searchLen - elementFormat.size m p) .success := by
  have hlt := elementFormat.lt_next m p
  have hnext : elementFormat.next m p = p + elementFormat.size m p := rfl
  have hsearch : (rtwGetIeEx m p searchLen eid oui false true).2 = some p := by
    rw [rtwGetIeEx, searchFrom_wanted (by omega) hwanted]
  have hrest : searchLen - (elementFormat.next m p - p) =
      searchLen - elementFormat.size m p := by omega
  rw [removeFrom_some hsearch, if_neg (by omega), hrest]

end Loop

section Run
variable {eid : UInt8} {oui : Option (List UInt8)}

/-- What the loop makes of a list of elements. -/
theorem removeFrom_elements (es : List Element) : ∀ {m : Memory} {iesLen p : ℕ} {ret : Status},
    m.read p (encodeElements es).length = encodeElements es →
    (encodeElements es).length ≤ maxIeSz → (encodeElements es).length ≤ iesLen →
    ∃ m', removeFrom eid oui m iesLen p (encodeElements es).length ret =
        some (if (leftElements eid oui m p es).length < es.length then .success else ret, m',
          iesLen - (encodeElements es).length +
            (encodeElements (leftElements eid oui m p es)).length) ∧
      m'.read p (encodeElements (leftElements eid oui m p es)).length =
        encodeElements (leftElements eid oui m p es) ∧
      (leftElements eid oui m p es).length ≤ es.length ∧
      (encodeElements (leftElements eid oui m p es)).length ≤ (encodeElements es).length ∧
      ∀ j < p, m' j = m j := by
  induction es with
  | nil =>
    intro m iesLen p ret hread hshort hlen
    have hsearch : (rtwGetIeEx m p 0 eid oui false true).2 = none := by
      rw [rtwGetIeEx, searchFrom_end (by omega)]
    exact ⟨m, removeFrom_none hsearch, rfl, Nat.le_refl _, Nat.le_refl _, fun _ _ => rfl⟩
  | cons e es ih =>
    intro m iesLen p ret hread hshort hlen
    rw [encodeElements_cons, List.length_append] at hread hshort hlen
    rw [Memory.read_add] at hread
    obtain ⟨hhead, hrest⟩ := List.append_inj hread (Memory.read_length m _ _)
    obtain ⟨-, hsize, -⟩ := Element.read_encode hhead
    have hnext : elementFormat.next m p = p + e.encode.length := by rw [Tlv.next, hsize]
    rw [encodeElements_cons, List.length_append]
    cases hwanted : (ouiProbe m eid oui p).wanted with
    | true =>
      have hleft : leftElements eid oui m p (e :: es) = leftElements eid oui
          (m.cut p e.encode.length (encodeElements es).length) p es := by
        rw [leftElements, if_pos hwanted]
      rw [removeFrom_hit (by omega) hshort hwanted, hsize, Nat.add_sub_cancel_left, hleft]
      have hcut : (m.cut p e.encode.length (encodeElements es).length).read p
          (encodeElements es).length = encodeElements es := by rw [Memory.cut_read_same, hrest]
      obtain ⟨m', hrun, hkept, hcount, hbytes, hbefore⟩ := @ih _
        (iesLen - e.encode.length) _ .success hcut (by omega) (by omega)
      refine ⟨m', ?_, hkept, by rw [List.length_cons]; omega, by omega, ?_⟩
      · rw [hrun, ite_self, if_pos (by rw [List.length_cons]; omega), Nat.sub_sub]
      · intro j hj
        rw [hbefore j hj, m.cut_outside (Or.inl hj)]
    | false =>
      have hleft : leftElements eid oui m p (e :: es) =
          e :: leftElements eid oui m (p + e.encode.length) es := by
        rw [leftElements, if_neg (by simp [hwanted])]
      obtain ⟨m', hrun, hkept, hcount, hbytes, hbefore⟩ := @ih _ iesLen _ ret hrest
        (by omega) (by omega)
      rw [removeFrom_pass (by omega) hwanted, hsize, hnext, Nat.add_sub_cancel_left, hleft,
        encodeElements_cons, List.length_append]
      refine ⟨m', ?_, ?_, by rw [List.length_cons, List.length_cons]; omega, by omega, ?_⟩
      · rw [hrun]
        simp only [List.length_cons, Nat.add_lt_add_iff_right, Option.some.injEq, Prod.mk.injEq,
          true_and]
        omega
      · have hhead' : m'.read p e.encode.length = m.read p e.encode.length := by
          apply Memory.read_congr
          intro j _ hj
          exact hbefore j hj
        rw [Memory.read_add, hhead', hhead, hkept]
      · intro j hj
        exact hbefore j (by omega)

/-- The elements that are to be kept. -/
def keptElements (eid : UInt8) (oui : Option (List UInt8)) (es : List Element) : List Element :=
  es.filter fun e => !e.hit eid oui

theorem keptElements_lt (es : List Element) :
    (keptElements eid oui es).length < es.length ↔ ∃ e ∈ es, e.hit eid oui = true := by
  rw [keptElements, List.length_filter_lt_length_iff_exists]
  simp

/-- The loop leaves the elements that are to be kept, or fewer bytes when one is misread. -/
theorem leftElements_cases (es : List Element) : ∀ {m : Memory} {p : ℕ},
    m.read p (encodeElements es).length = encodeElements es →
    NoneMisread eid oui m p es ∧ leftElements eid oui m p es = keptElements eid oui es ∨
      ¬ NoneMisread eid oui m p es ∧ (encodeElements (leftElements eid oui m p es)).length <
        (encodeElements (keptElements eid oui es)).length := by
  induction es with
  | nil => exact fun _ => Or.inl ⟨trivial, rfl⟩
  | cons e es ih =>
    intro m p hread
    rw [encodeElements_cons, List.length_append, Memory.read_add] at hread
    obtain ⟨hhead, hrest⟩ := List.append_inj hread (Memory.read_length m _ _)
    have hwanted := @wanted_iff _ _ _ eid oui hhead
    have hcut := ih (m := m.cut p e.encode.length (encodeElements es).length) (p := p)
      (by rw [Memory.cut_read_same, hrest])
    cases hhit : e.hit eid oui with
    | true =>
      rw [NoneMisread, if_pos hhit, leftElements, if_pos (hwanted.mpr (Or.inl hhit)), keptElements,
        List.filter_cons_of_neg (by simp [hhit])]
      exact hcut
    | false =>
      rw [NoneMisread, if_neg (by simp [hhit]), leftElements, keptElements,
        List.filter_cons_of_pos (by simp [hhit])]
      by_cases hmisread : Misread eid oui m p e
      · rw [if_pos (hwanted.mpr (Or.inr hmisread))]
        refine Or.inr ⟨fun h => h.1 hmisread, ?_⟩
        have hpos : 0 < e.encode.length := by rw [Element.encode_length]; omega
        rw [encodeElements_cons, List.length_append]
        rcases hcut with ⟨-, heq⟩ | ⟨-, hlt⟩
        · rw [heq, keptElements]
          omega
        · rw [keptElements] at hlt
          omega
      · have hother : ¬ (ouiProbe m eid oui p).wanted = true := by
          intro h
          rcases hwanted.mp h with h | h
          · rw [hhit] at h
            cases h
          · exact hmisread h
        rw [if_neg hother]
        rcases ih hrest with ⟨hnone, heq⟩ | ⟨hnot, hlt⟩
        · refine Or.inl ⟨⟨hmisread, hnone⟩, ?_⟩
          rw [heq, keptElements]
        · refine Or.inr ⟨fun h => hnot h.2, ?_⟩
          rw [encodeElements_cons, encodeElements_cons, List.length_append, List.length_append]
          rw [keptElements] at hlt
          omega

end Run

/-- The elements that match are removed from behind `front`, the others are kept in their order, the
length is that of what is left, and the result says whether anything was removed. -/
def RemovesExactly (eid : UInt8) (oui : Option (List UInt8)) (m : Memory) (front : List UInt8)
    (es : List Element) : Prop :=
  let kept := front ++ encodeElements (keptElements eid oui es)
  ∃ ret m', rtwIesRemoveIe eid oui m (front ++ encodeElements es).length front.length =
      some (ret, m', kept.length) ∧ m'.read 0 kept.length = kept ∧
    (ret = .success ↔ ∃ e ∈ es, e.hit eid oui = true)

section
variable {eid : UInt8} {oui : Option (List UInt8)} {m : Memory} {front : List UInt8}
  {es : List Element}

/-- Exactly the matching elements are removed if and only if none of the others is misread. -/
theorem removesExactly_iff
    (hread : m.read 0 (front ++ encodeElements es).length = front ++ encodeElements es)
    (hshort : (front ++ encodeElements es).length ≤ maxIeSz) :
    RemovesExactly eid oui m front es ↔ NoneMisread eid oui m front.length es := by
  rw [List.length_append, Memory.read_add, Nat.zero_add] at hread
  obtain ⟨hfront, helements⟩ := List.append_inj hread (Memory.read_length m _ _)
  rw [List.length_append] at hshort
  cases es with
  | nil =>
    have hrun : rtwIesRemoveIe eid oui m (front ++ encodeElements []).length front.length =
        some (.fail, m, front.length) := by
      rw [rtwIesRemoveIe, if_pos (by simp [encodeElements])]
      simp [encodeElements]
    constructor
    · intro _
      trivial
    · intro _
      refine ⟨.fail, m, ?_, ?_, ?_⟩
      · rw [hrun]
        simp [keptElements, encodeElements]
      · simpa [keptElements, encodeElements] using hfront
      · simp
  | cons e es =>
    obtain ⟨m', hrun, hkept, -, -, hbefore⟩ := @removeFrom_elements eid oui (e :: es) _
      (front.length + (encodeElements (e :: es)).length) _ .fail helements
      (by omega) (by omega)
    have hremove : rtwIesRemoveIe eid oui m (front ++ encodeElements (e :: es)).length
        front.length = removeFrom eid oui m (front.length + (encodeElements (e :: es)).length)
          front.length (encodeElements (e :: es)).length .fail := by
      have hpos : 0 < (encodeElements (e :: es)).length := by
        rw [encodeElements_cons, List.length_append, Element.encode_length]
        omega
      rw [rtwIesRemoveIe, List.length_append, if_neg (by omega), Nat.add_sub_cancel_left]
    rw [Nat.add_sub_cancel] at hrun
    rcases @leftElements_cases eid oui (e :: es) _ _ helements with
      ⟨hnone, heq⟩ | ⟨hmisread, hlt⟩
    · refine ⟨fun _ => hnone, fun _ => ?_⟩
      rw [heq] at hrun hkept
      refine ⟨if (keptElements eid oui (e :: es)).length < (e :: es).length then .success else .fail,
        m', ?_, ?_, ?_⟩
      · rw [hremove, hrun, List.length_append]
      · have hfront' : m'.read 0 front.length = m.read 0 front.length := by
          apply Memory.read_congr
          intro j _ hj
          exact hbefore j (by omega)
        rw [List.length_append, Memory.read_add, Nat.zero_add, hfront', hfront, hkept]
      · rw [← keptElements_lt]
        split
        · rename_i hlt
          exact ⟨fun _ => hlt, fun _ => rfl⟩
        · rename_i hge
          exact ⟨fun h => (nomatch h), fun hlt => absurd hlt hge⟩
    · refine ⟨?_, fun h => absurd h hmisread⟩
      rintro ⟨ret, m'', hrun', -⟩
      rw [hremove, hrun, List.length_append] at hrun'
      have hlength := congrArg (fun r : Status × Memory × ℕ => r.2.2) (Option.some.inj hrun')
      simp only at hlength
      omega

end

end Rtl8188eu

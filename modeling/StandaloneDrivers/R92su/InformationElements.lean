import StandaloneDrivers.Foundations.Memory

/-! The search for information elements: `r92su_find_ie` of rx.c, and `r92su_find_wmm_ie` of main.c,
which restarts it behind every vendor element. -/
namespace R92su
open Foundations

section Code
variable (m : Memory)

/-- Where the element behind the one at `pos` starts. -/
def nextElement (pos : ℕ) : ℕ := pos + 2 + (m (pos + 1)).toNat

/-- `r92su_find_ie` from `pos` on: the bytes it reads, and the element it returns. -/
def findIe (stop : ℕ) (ie : UInt8) (pos : ℕ) : List ℕ × Option ℕ :=
  if pos < stop then
    if stop < nextElement m pos then ([pos + 1], none)
    else if m pos = ie then ([pos + 1, pos], some pos)
    else
      let rest := findIe stop ie (nextElement m pos)
      ((pos + 1) :: pos :: rest.1, rest.2)
  else ([], none)
  termination_by stop - pos
  decreasing_by
    simp only [nextElement] at *
    omega

/-- `WLAN_EID_VENDOR_SPECIFIC` -/
def vendorSpecific : UInt8 := 221

/-- The bytes of a WMM element that are compared: OUI, type and version. -/
def wmmPattern : List (ℕ × UInt8) := [(2, 0x00), (3, 0x50), (4, 0xf2), (5, 0x02), (7, 1)]

/-- A chain of `&&`: the bytes that are read, and whether all of them match. -/
def matchBytes (pos : ℕ) : List (ℕ × UInt8) → List ℕ × Bool
  | [] => ([], true)
  | (k, b) :: pattern =>
    if m (pos + k) = b then ((pos + k) :: (matchBytes pos pattern).1, (matchBytes pos pattern).2)
    else ([pos + k], false)

/-- The test of one vendor element, which reads its length first. -/
def testWmm (pos : ℕ) : List ℕ × Bool :=
  if 7 ≤ (m (pos + 1)).toNat then
    ((pos + 1) :: (matchBytes m pos wmmPattern).1, (matchBytes m pos wmmPattern).2)
  else ([pos + 1], false)

theorem findIe_ge {stop pos p : ℕ} {ie : UInt8} (h : (findIe m stop ie pos).2 = some p) :
    pos ≤ p := by
  fun_induction findIe m stop ie pos with
  | case1 => cases h
  | case2 pos => exact Nat.le_of_eq (Option.some.inj h)
  | case3 pos _ _ _ rest ih =>
    have hle := ih h
    unfold nextElement at hle
    omega
  | case4 => cases h

/-- `r92su_find_wmm_ie` from `pos` on; every inner search gets the full length. -/
def findWmmIe (len pos : ℕ) : List ℕ × Option ℕ :=
  if _hlt : pos < len then
    match _h : (findIe m (pos + len) vendorSpecific pos).2 with
    | none => ((findIe m (pos + len) vendorSpecific pos).1, none)
    | some p =>
      let reads := (findIe m (pos + len) vendorSpecific pos).1 ++ (testWmm m p).1
      if (testWmm m p).2 then (reads, some p)
      else
        let rest := findWmmIe len (nextElement m p)
        (reads ++ rest.1, rest.2)
  else ([], none)
  termination_by len - pos
  decreasing_by
    have hle := findIe_ge m _h
    simp only [nextElement]
    omega

/-- The complete elements that are reached from `pos`, by their offsets. -/
def elements (len pos : ℕ) : List ℕ :=
  if nextElement m pos ≤ len then pos :: elements len (nextElement m pos) else []
  termination_by len - pos
  decreasing_by
    simp only [nextElement] at *
    omega

/-- Where the elements end. -/
def elementsEnd (len pos : ℕ) : ℕ :=
  if nextElement m pos ≤ len then elementsEnd len (nextElement m pos) else pos
  termination_by len - pos
  decreasing_by
    simp only [nextElement] at *
    omega

/-- A vendor element with at least seven bytes, and the bytes of WMM. -/
def isWmm (pos : ℕ) : Bool :=
  m pos == vendorSpecific && 7 ≤ (m (pos + 1)).toNat &&
    wmmPattern.all fun kb => m (pos + kb.1) == kb.2

/-- The searches read the string only, and return the first element they are about. -/
structure SearchSound (len : ℕ) (ie : UInt8) : Prop where
  ieReads : ∀ i ∈ (findIe m len ie 0).1, i < len
  ieResult : (findIe m len ie 0).2 = (elements m len 0).find? fun p => m p == ie
  wmmReads : ∀ i ∈ (findWmmIe m len 0).1, i < len
  wmmResult : (findWmmIe m len 0).2 = (elements m len 0).find? (isWmm m)

end Code

variable {m : Memory} {len stop pos : ℕ}

theorem pos_lt_nextElement (pos : ℕ) : pos + 2 ≤ nextElement m pos := Nat.le_add_right _ _

theorem elementsEnd_of_le (h : nextElement m pos ≤ len) :
    elementsEnd m len pos = elementsEnd m len (nextElement m pos) := by
  rw [elementsEnd, if_pos h]

/-- A search whose end is not in front of the string passes the elements of the string. -/
theorem findIe_none {ie : UInt8} (hstop : len ≤ stop)
    (h : ∀ p ∈ elements m len pos, m p ≠ ie) :
    ∃ reads, (∀ i ∈ reads, i < len) ∧ findIe m stop ie pos =
      (reads ++ (findIe m stop ie (elementsEnd m len pos)).1,
        (findIe m stop ie (elementsEnd m len pos)).2) := by
  fun_induction elements m len pos with
  | case1 pos hle ih =>
    obtain ⟨hne, hrest⟩ := List.forall_mem_cons.mp h
    obtain ⟨reads, hreads, heq⟩ := ih hrest
    have hlt := pos_lt_nextElement (m := m) pos
    refine ⟨(pos + 1) :: pos :: reads, ?_, ?_⟩
    · simp only [List.forall_mem_cons]
      exact ⟨by omega, by omega, hreads⟩
    · rw [findIe, if_pos (by omega), if_neg (by omega), if_neg hne, heq, elementsEnd_of_le hle]
      rfl
  | case2 pos hle =>
    refine ⟨[], nofun, ?_⟩
    rw [elementsEnd, if_neg hle]
    rfl

/-- The search stops at the first element with the wanted id. -/
theorem findIe_some {ie : UInt8} (hstop : len ≤ stop) {p : ℕ}
    (h : (elements m len pos).find? (fun p => m p == ie) = some p) :
    (findIe m stop ie pos).2 = some p ∧ ∀ i ∈ (findIe m stop ie pos).1, i < len := by
  fun_induction elements m len pos with
  | case1 pos hle ih =>
    have hlt := pos_lt_nextElement (m := m) pos
    rw [findIe, if_pos (by omega), if_neg (by omega)]
    rw [List.find?_cons] at h
    by_cases hie : m pos = ie
    · rw [if_pos hie]
      rw [beq_iff_eq.mpr hie] at h
      refine ⟨h, ?_⟩
      simp only [List.forall_mem_cons]
      exact ⟨by omega, by omega, nofun⟩
    · rw [if_neg hie]
      rw [beq_eq_false_iff_ne.mpr hie] at h
      obtain ⟨hres, hreads⟩ := ih h
      refine ⟨hres, ?_⟩
      simp only [List.forall_mem_cons]
      exact ⟨by omega, by omega, hreads⟩
  | case2 pos hle => cases h

/-- The elements up to one that is found, and those behind it. -/
theorem elements_split {f : ℕ → Bool} {p : ℕ} (h : (elements m len pos).find? f = some p) :
    pos ≤ p ∧ nextElement m p ≤ len ∧
      elementsEnd m len pos = elementsEnd m len (nextElement m p) ∧
      ∃ before, elements m len pos = before ++ p :: elements m len (nextElement m p) ∧
        ∀ x ∈ before, f x = false := by
  fun_induction elements m len pos with
  | case1 pos hle ih =>
    rw [List.find?_cons] at h
    cases hf : f pos with
    | true =>
      rw [hf] at h
      cases h
      exact ⟨Nat.le_refl _, hle, elementsEnd_of_le hle, [], rfl, nofun⟩
    | false =>
      rw [hf] at h
      obtain ⟨hpos, hnext, hend, before, heq, hbefore⟩ := ih h
      have hlt := pos_lt_nextElement (m := m) pos
      refine ⟨by omega, hnext, (elementsEnd_of_le hle).trans hend, pos :: before, ?_, ?_⟩
      · rw [heq, List.cons_append]
      · exact List.forall_mem_cons.mpr ⟨hf, hbefore⟩
  | case2 => cases h

theorem elementsEnd_le (h : pos ≤ len) : elementsEnd m len pos ≤ len := by
  fun_induction elementsEnd m len pos with
  | case1 pos hle ih => exact ih hle
  | case2 pos hle => exact h

theorem le_elementsEnd (m : Memory) (len pos : ℕ) : pos ≤ elementsEnd m len pos := by
  fun_induction elementsEnd m len pos with
  | case1 pos hle ih => exact Nat.le_trans (Nat.le_trans (Nat.le_add_right _ _)
      (pos_lt_nextElement pos)) ih
  | case2 pos hle => exact Nat.le_refl _

/-- What follows the elements is cut off. -/
theorem lt_nextElement_elementsEnd (m : Memory) (len pos : ℕ) :
    len < nextElement m (elementsEnd m len pos) := by
  fun_induction elementsEnd m len pos with
  | case1 pos hle ih => exact ih
  | case2 pos hle => exact Nat.not_le.mp hle

section Find
variable (m) (len : ℕ) (ie : UInt8)

/-- `r92su_find_ie` reads behind the string when a single byte is left. -/
theorem findIe_reads : (∀ i ∈ (findIe m len ie 0).1, i < len) ↔
    (∃ p ∈ elements m len 0, m p = ie) ∨ elementsEnd m len 0 + 1 ≠ len := by
  cases hfind : (elements m len 0).find? fun p => m p == ie with
  | some p =>
    have hbeq : (m p == ie) = true := @List.find?_some _ (fun p => m p == ie) _ _ hfind
    have hp : ∃ p ∈ elements m len 0, m p = ie :=
      ⟨p, List.mem_of_find?_eq_some hfind, beq_iff_eq.mp hbeq⟩
    exact iff_of_true (findIe_some (Nat.le_refl _) hfind).2 (Or.inl hp)
  | none =>
    have hne : ∀ p ∈ elements m len 0, m p ≠ ie := by
      intro p hp heq
      exact List.find?_eq_none.mp hfind p hp (beq_iff_eq.mpr heq)
    obtain ⟨reads, hreads, heq⟩ := findIe_none (Nat.le_refl _) hne
    have hcut := lt_nextElement_elementsEnd m len 0
    have hnone : ¬ ∃ p ∈ elements m len 0, m p = ie := by
      rintro ⟨p, hp, hie⟩
      exact hne p hp hie
    rw [heq, findIe, if_pos hcut, List.forall_mem_append, and_iff_right hreads, or_iff_right hnone]
    have hle := elementsEnd_le (m := m) (Nat.zero_le len)
    split_ifs with hlt
    · rw [List.forall_mem_singleton]
      omega
    · exact iff_of_true nofun (by omega)

/-- `r92su_find_ie` finds the first complete element with its id. -/
theorem findIe_result :
    (findIe m len ie 0).2 = (elements m len 0).find? fun p => m p == ie := by
  cases hfind : (elements m len 0).find? fun p => m p == ie with
  | some p => exact (findIe_some (Nat.le_refl _) hfind).1
  | none =>
    have hne : ∀ p ∈ elements m len 0, m p ≠ ie := by
      intro p hp heq
      exact List.find?_eq_none.mp hfind p hp (beq_iff_eq.mpr heq)
    obtain ⟨reads, -, heq⟩ := findIe_none (Nat.le_refl _) hne
    rw [heq, findIe, if_pos (lt_nextElement_elementsEnd m len 0)]
    split_ifs <;> rfl

end Find

section Match

/-- The comparison says whether the bytes match. -/
theorem matchBytes_result (pattern : List (ℕ × UInt8)) :
    (matchBytes m pos pattern).2 = pattern.all fun kb => m (pos + kb.1) == kb.2 := by
  induction pattern with
  | nil => rfl
  | cons kb pattern ih =>
    rw [matchBytes, List.all_cons]
    split
    · rename_i heq
      rw [beq_iff_eq.mpr heq, Bool.true_and]
      exact ih
    · rename_i hne
      rw [beq_eq_false_iff_ne.mpr hne, Bool.false_and]

theorem matchBytes_reads {i : ℕ} {pattern : List (ℕ × UInt8)}
    (h : i ∈ (matchBytes m pos pattern).1) : ∃ kb ∈ pattern, i = pos + kb.1 := by
  induction pattern with
  | nil => cases h
  | cons kb pattern ih =>
    rw [matchBytes] at h
    split at h
    · rcases List.mem_cons.mp h with rfl | h
      · exact ⟨kb, List.mem_cons_self, rfl⟩
      · obtain ⟨kb', hmem, heq⟩ := ih h
        exact ⟨kb', List.mem_cons_of_mem _ hmem, heq⟩
    · cases List.mem_singleton.mp h
      exact ⟨kb, List.mem_cons_self, rfl⟩

/-- The comparison ends in the string when one of its bytes there differs. -/
theorem matchBytes_inside {pattern : List (ℕ × UInt8)}
    (hsorted : pattern.Pairwise fun a b => a.1 < b.1) :
    (∀ i ∈ (matchBytes m pos pattern).1, i < len) ∧ (matchBytes m pos pattern).2 = false ↔
      ∃ kb ∈ pattern, pos + kb.1 < len ∧ m (pos + kb.1) ≠ kb.2 := by
  induction pattern with
  | nil => simp [matchBytes]
  | cons kb pattern ih =>
    obtain ⟨hhead, htail⟩ := List.pairwise_cons.mp hsorted
    rw [matchBytes]
    split
    · rename_i heq
      rw [List.forall_mem_cons, and_assoc, ih htail]
      constructor
      · rintro ⟨-, kb', hmem, h⟩
        exact ⟨kb', List.mem_cons_of_mem _ hmem, h⟩
      · rintro ⟨kb', hmem, hlt, hne⟩
        rcases List.mem_cons.mp hmem with rfl | hmem
        · exact absurd heq hne
        · have hless := hhead kb' hmem
          exact ⟨by omega, kb', hmem, hlt, hne⟩
    · rename_i hne
      rw [List.forall_mem_singleton, and_iff_left rfl]
      constructor
      · exact fun hlt => ⟨kb, List.mem_cons_self, hlt, hne⟩
      · rintro ⟨kb', hmem, hlt, -⟩
        rcases List.mem_cons.mp hmem with rfl | hmem
        · exact hlt
        · have hless := hhead kb' hmem
          omega

/-- The test of a vendor element. -/
theorem testWmm_result (hvendor : m pos = vendorSpecific) : (testWmm m pos).2 = isWmm m pos := by
  rw [testWmm, isWmm, hvendor, beq_self_eq_true, Bool.true_and]
  split
  · rename_i hlen
    rw [matchBytes_result, decide_eq_true hlen, Bool.true_and]
  · rename_i hlen
    rw [decide_eq_false hlen, Bool.false_and]

/-- The test of a complete element reads its own bytes. -/
theorem testWmm_inside (h : nextElement m pos ≤ len) : ∀ i ∈ (testWmm m pos).1, i < len := by
  have hpos := pos_lt_nextElement (m := m) pos
  intro i hi
  rw [testWmm] at hi
  split at hi
  · rename_i hlen
    rcases List.mem_cons.mp hi with rfl | hi
    · omega
    · obtain ⟨kb, hmem, rfl⟩ := matchBytes_reads hi
      have hk : ∀ kb ∈ wmmPattern, kb.1 ≤ 7 := by decide
      have hk' := hk kb hmem
      unfold nextElement at h
      omega
  · rw [List.mem_singleton.mp hi]
    omega

/-- The test of an element that is cut off. -/
theorem testWmm_cut (h : pos + 2 ≤ len) :
    (∀ i ∈ (testWmm m pos).1, i < len) ∧ (testWmm m pos).2 = false ↔
      (m (pos + 1)).toNat < 7 ∨ ∃ kb ∈ wmmPattern, pos + kb.1 < len ∧ m (pos + kb.1) ≠ kb.2 := by
  rw [testWmm]
  split
  · rename_i hlen
    rw [List.forall_mem_cons, and_assoc, matchBytes_inside (by decide),
      and_iff_right (by omega), or_iff_right (by omega)]
  · rename_i hlen
    rw [List.forall_mem_singleton]
    exact iff_of_true ⟨by omega, rfl⟩ (Or.inl (by omega))

end Match

section Restart

theorem findWmmIe_of_none (hlt : pos < len)
    (h : (findIe m (pos + len) vendorSpecific pos).2 = none) :
    findWmmIe m len pos = ((findIe m (pos + len) vendorSpecific pos).1, none) := by
  rw [findWmmIe, dif_pos hlt]
  split
  · rfl
  · rename_i heq
    rw [h] at heq
    cases heq

theorem findWmmIe_of_some (hlt : pos < len) {p : ℕ}
    (h : (findIe m (pos + len) vendorSpecific pos).2 = some p) :
    findWmmIe m len pos =
      if (testWmm m p).2 then
        ((findIe m (pos + len) vendorSpecific pos).1 ++ (testWmm m p).1, some p)
      else
        ((findIe m (pos + len) vendorSpecific pos).1 ++ (testWmm m p).1 ++
          (findWmmIe m len (nextElement m p)).1, (findWmmIe m len (nextElement m p)).2) := by
  rw [findWmmIe, dif_pos hlt]
  split
  · rename_i heq
    rw [h] at heq
    cases heq
  · rename_i p' heq
    rw [h] at heq
    cases heq
    rfl

theorem findWmmIe_of_le (h : len ≤ pos) : findWmmIe m len pos = ([], none) := by
  rw [findWmmIe, dif_neg (Nat.not_lt.mpr h)]

/-- What the inner search reads is read. -/
theorem findIe_subset_findWmmIe (hlt : pos < len) :
    (findIe m (pos + len) vendorSpecific pos).1 ⊆ (findWmmIe m len pos).1 := by
  cases h : (findIe m (pos + len) vendorSpecific pos).2 with
  | none =>
    rw [findWmmIe_of_none hlt h]
    exact List.Subset.refl _
  | some p =>
    rw [findWmmIe_of_some hlt h]
    split
    · exact List.subset_append_left _ _
    · rw [List.append_assoc]
      exact List.subset_append_left _ _

theorem mem_findIe_reads {ie : UInt8} (h : pos < stop) : pos + 1 ∈ (findIe m stop ie pos).1 := by
  rw [findIe, if_pos h]
  split_ifs <;> exact List.mem_cons_self

/-- Where the last vendor element of `es` ends; `q` when there is none. -/
def lastVendorEnd (m : Memory) (q : ℕ) (es : List ℕ) : ℕ :=
  es.foldl (fun q p => if m p = vendorSpecific then nextElement m p else q) q

/-- What the string may end with, when the last search starts at `q` and the elements end at `r`:
the search stops there, or meets a cut-off element that it drops inside the string. -/
def WmmTail (m : Memory) (len q r : ℕ) : Prop :=
  (r = len ∧ (q = r ∨ q = 0)) ∨
  (r + 2 ≤ len ∧
    (q + len < nextElement m r ∨
    (m r ≠ vendorSpecific ∧ nextElement m r = q + len) ∨
    (m r = vendorSpecific ∧ ((m (r + 1)).toNat < 7 ∨
      ∃ kb ∈ wmmPattern, r + kb.1 < len ∧ m (r + kb.1) ≠ kb.2))))

/-- The search from `pos` reads the string only and finds the first WMM element. -/
def WmmSound (m : Memory) (len pos : ℕ) : Prop :=
  (∀ i ∈ (findWmmIe m len pos).1, i < len) ∧
    (findWmmIe m len pos).2 = (elements m len pos).find? (isWmm m)

theorem isWmm_vendor (h : isWmm m pos = true) : m pos = vendorSpecific := by
  rw [isWmm, Bool.and_eq_true, Bool.and_eq_true, beq_iff_eq] at h
  exact h.1.1

theorem lastVendorEnd_of_none {q : ℕ} {es : List ℕ} (h : ∀ p ∈ es, m p ≠ vendorSpecific) :
    lastVendorEnd m q es = q := by
  induction es with
  | nil => rfl
  | cons p es ih =>
    obtain ⟨hp, hes⟩ := List.forall_mem_cons.mp h
    rw [lastVendorEnd, List.foldl_cons, if_neg hp]
    exact ih hes

section Tail
variable {reads : List ℕ} {r : ℕ} (hlt : pos < len) (hreads : ∀ i ∈ reads, i < len)
  (heq : findIe m (pos + len) vendorSpecific pos =
    (reads ++ (findIe m (pos + len) vendorSpecific r).1,
      (findIe m (pos + len) vendorSpecific r).2))
include hlt heq

/-- A read behind the string at the end of the last search. -/
theorem wmm_read_behind {i : ℕ} (hi : i ∈ (findIe m (pos + len) vendorSpecific r).1)
    (hle : len ≤ i) :
    ¬ ((∀ i ∈ (findWmmIe m len pos).1, i < len) ∧ (findWmmIe m len pos).2 = none) := by
  rintro ⟨hall, -⟩
  have hmem : i ∈ (findIe m (pos + len) vendorSpecific pos).1 := by
    rw [heq]
    exact List.mem_append_right _ hi
  exact absurd (hall i (findIe_subset_findWmmIe hlt hmem)) (Nat.not_lt.mpr hle)

include hreads

/-- The last search finds nothing, inside the string. -/
theorem wmm_stops (hres : (findIe m (pos + len) vendorSpecific r).2 = none)
    (hin : ∀ i ∈ (findIe m (pos + len) vendorSpecific r).1, i < len) :
    (∀ i ∈ (findWmmIe m len pos).1, i < len) ∧ (findWmmIe m len pos).2 = none := by
  rw [findWmmIe_of_none hlt (by rw [heq]; exact hres), heq]
  exact ⟨List.forall_mem_append.mpr ⟨hreads, hin⟩, rfl⟩

/-- The last search takes a cut-off vendor element for a whole one and tests it. -/
theorem wmm_tests_cut (htwo : r + 2 ≤ len) (hcut : len < nextElement m r)
    (hfind : findIe m (pos + len) vendorSpecific r = ([r + 1, r], some r)) :
    ((∀ i ∈ (findWmmIe m len pos).1, i < len) ∧ (findWmmIe m len pos).2 = none) ↔
      (m (r + 1)).toNat < 7 ∨ ∃ kb ∈ wmmPattern, r + kb.1 < len ∧ m (r + kb.1) ≠ kb.2 := by
  have hfound : (findIe m (pos + len) vendorSpecific pos).2 = some r := by
    rw [heq, hfind]
  rw [← testWmm_cut htwo, findWmmIe_of_some hlt hfound, findWmmIe_of_le (Nat.le_of_lt hcut), heq,
    hfind]
  cases htest : (testWmm m r).2 with
  | true => simp only [if_true, reduceCtorEq, and_false]
  | false =>
    have hin : ∀ i ∈ reads ++ [r + 1, r], i < len := by
      simp only [List.forall_mem_append, List.forall_mem_cons]
      exact ⟨hreads, by omega, by omega, nofun⟩
    simp only [Bool.false_eq_true, if_false, List.append_nil, and_true]
    rw [List.forall_mem_append]
    exact and_iff_right hin

/-- The last search meets an element of which the string has the two first bytes only, at least. -/
theorem wmm_meets_cut (htwo : r + 2 ≤ len) (hcut : len < nextElement m r) :
    ((∀ i ∈ (findWmmIe m len pos).1, i < len) ∧ (findWmmIe m len pos).2 = none) ↔
      pos + len < nextElement m r ∨
      (m r ≠ vendorSpecific ∧ nextElement m r = pos + len) ∨
      (m r = vendorSpecific ∧ ((m (r + 1)).toNat < 7 ∨
        ∃ kb ∈ wmmPattern, r + kb.1 < len ∧ m (r + kb.1) ≠ kb.2)) := by
  have hr : r < pos + len := by omega
  by_cases hshort : pos + len < nextElement m r
  · have hfind : findIe m (pos + len) vendorSpecific r = ([r + 1], none) := by
      rw [findIe, if_pos hr, if_pos hshort]
    apply iff_of_true _ (Or.inl hshort)
    apply wmm_stops hlt hreads heq
    · rw [hfind]
    · rw [hfind, List.forall_mem_singleton]
      omega
  · rw [or_iff_right hshort]
    by_cases hvendor : m r = vendorSpecific
    · have hfind : findIe m (pos + len) vendorSpecific r = ([r + 1, r], some r) := by
        rw [findIe, if_pos hr, if_neg hshort, if_pos hvendor]
      rw [or_iff_right (fun hne => hne.1 hvendor), and_iff_right hvendor]
      exact wmm_tests_cut hlt hreads heq htwo hcut hfind
    · rw [and_iff_right hvendor, or_iff_left (fun hv => hvendor hv.1)]
      by_cases hexact : nextElement m r = pos + len
      · have hfind : findIe m (pos + len) vendorSpecific r = ([r + 1, r], none) := by
          rw [findIe, if_pos hr, if_neg hshort, if_neg hvendor, findIe, if_neg (by omega)]
        apply iff_of_true _ hexact
        apply wmm_stops hlt hreads heq
        · rw [hfind]
        · rw [hfind]
          simp only [List.forall_mem_cons]
          exact ⟨by omega, by omega, nofun⟩
      · have hmem : nextElement m r + 1 ∈ (findIe m (pos + len) vendorSpecific r).1 := by
          rw [findIe, if_pos hr, if_neg hshort, if_neg hvendor]
          apply List.mem_cons_of_mem
          apply List.mem_cons_of_mem
          exact mem_findIe_reads (by omega)
        exact iff_of_false (wmm_read_behind hlt heq hmem (by omega)) hexact

end Tail

/-- The last search, which meets no vendor element any more. -/
theorem wmmSound_last (hpos : pos ≤ len) (h : ∀ p ∈ elements m len pos, m p ≠ vendorSpecific) :
    WmmSound m len pos ↔ WmmTail m len pos (elementsEnd m len pos) := by
  have hend := elementsEnd_le (m := m) hpos
  have hge := le_elementsEnd m len pos
  have hcut := lt_nextElement_elementsEnd m len pos
  have hnone : (elements m len pos).find? (isWmm m) = none := by
    rw [List.find?_eq_none]
    exact fun p hp hwmm => h p hp (isWmm_vendor hwmm)
  rw [WmmSound, hnone]
  by_cases hlt : pos < len
  · obtain ⟨reads, hreads, heq⟩ := findIe_none (Nat.le_add_left len pos) h
    generalize elementsEnd m len pos = r at *
    by_cases hr : r < pos + len
    · by_cases htwo : r + 2 ≤ len
      · rw [WmmTail, or_iff_right (by omega), and_iff_right htwo]
        exact wmm_meets_cut hlt hreads heq htwo hcut
      · apply iff_of_false (wmm_read_behind hlt heq (mem_findIe_reads hr) (by omega))
        rintro (⟨hlen, hq⟩ | ⟨hle, -⟩)
        · omega
        · omega
    · have hfind : findIe m (pos + len) vendorSpecific r = ([], none) := by
        rw [findIe, if_neg hr]
      apply iff_of_true
      · apply wmm_stops hlt hreads heq
        · rw [hfind]
        · rw [hfind]
          exact nofun
      · exact Or.inl ⟨by omega, Or.inr (by omega)⟩
  · rw [findWmmIe_of_le (Nat.not_lt.mp hlt)]
    apply iff_of_true ⟨nofun, rfl⟩
    exact Or.inl ⟨by omega, Or.inl (by omega)⟩

section Split
variable {p : ℕ} {before : List ℕ}
  (heq : elements m len pos = before ++ p :: elements m len (nextElement m p))
  (hbefore : ∀ x ∈ before, (m x == vendorSpecific) = false)
include heq hbefore

theorem lastVendorEnd_split (hvendor : m p = vendorSpecific) :
    lastVendorEnd m pos (elements m len pos) =
      lastVendorEnd m (nextElement m p) (elements m len (nextElement m p)) := by
  have hq : lastVendorEnd m pos before = pos := lastVendorEnd_of_none
    fun x hx => beq_eq_false_iff_ne.mp (hbefore x hx)
  rw [lastVendorEnd] at hq
  rw [heq, lastVendorEnd, List.foldl_append, hq, List.foldl_cons, if_pos hvendor]
  rfl

theorem find_isWmm_split : (elements m len pos).find? (isWmm m) =
    if isWmm m p then some p else (elements m len (nextElement m p)).find? (isWmm m) := by
  have hskip : ∀ x ∈ before, isWmm m x = false := by
    intro x hx
    cases hwmm : isWmm m x with
    | false => rfl
    | true => exact absurd (isWmm_vendor hwmm) (beq_eq_false_iff_ne.mp (hbefore x hx))
  rw [heq, List.find?_append, List.find?_eq_none.mpr (by simpa using hskip), Option.none_or,
    List.find?_cons]
  cases isWmm m p <;> rfl

end Split

/-- The search from `pos` is sound when there is a WMM element, or the string ends well for the
search behind its last vendor element. -/
theorem wmmSound_iff (hpos : pos ≤ len) :
    WmmSound m len pos ↔ (∃ p ∈ elements m len pos, isWmm m p = true) ∨
      WmmTail m len (lastVendorEnd m pos (elements m len pos)) (elementsEnd m len pos) := by
  induction hk : len - pos using Nat.strongRecOn generalizing pos with
  | _ k ih =>
  cases hfind : (elements m len pos).find? fun p => m p == vendorSpecific with
  | none =>
    have hne : ∀ p ∈ elements m len pos, m p ≠ vendorSpecific := by
      intro p hp heq
      exact List.find?_eq_none.mp hfind p hp (beq_iff_eq.mpr heq)
    rw [lastVendorEnd_of_none hne, wmmSound_last hpos hne, or_iff_right]
    rintro ⟨p, hp, hwmm⟩
    exact hne p hp (isWmm_vendor hwmm)
  | some p =>
    have hbeq : (m p == vendorSpecific) = true :=
      @List.find?_some _ (fun p => m p == vendorSpecific) _ _ hfind
    have hvendor : m p = vendorSpecific := beq_iff_eq.mp hbeq
    obtain ⟨hge, hnext, hend, before, heq, hbefore⟩ := elements_split hfind
    obtain ⟨hres, hreads⟩ := findIe_some (Nat.le_add_left len pos) hfind
    have hstep := pos_lt_nextElement (m := m) p
    have hlast := lastVendorEnd_split heq hbefore hvendor
    have hfindWmm := find_isWmm_split heq hbefore
    rw [WmmSound, hfindWmm, findWmmIe_of_some (by omega) hres, testWmm_result hvendor, hlast, hend]
    cases hwmm : isWmm m p with
    | true =>
      apply iff_of_true
      · rw [if_pos rfl, if_pos rfl]
        exact ⟨List.forall_mem_append.mpr ⟨hreads, testWmm_inside hnext⟩, rfl⟩
      · exact Or.inl ⟨p, by rw [heq]; exact List.mem_append_right _ List.mem_cons_self, hwmm⟩
    | false =>
      have hrec := ih (len - nextElement m p) (by omega) hnext rfl
      rw [WmmSound] at hrec
      have hmem : (∃ p' ∈ elements m len pos, isWmm m p' = true) ↔
          ∃ p' ∈ elements m len (nextElement m p), isWmm m p' = true := by
        rw [← List.find?_isSome, ← List.find?_isSome, hfindWmm, hwmm, if_neg Bool.false_ne_true]
      rw [if_neg Bool.false_ne_true, if_neg Bool.false_ne_true, hmem, ← hrec]
      apply and_congr_left
      intro _
      rw [List.forall_mem_append, List.forall_mem_append]
      exact and_iff_right ⟨hreads, testWmm_inside hnext⟩

end Restart

/-- Both searches are sound when no single byte is left behind the elements, and the search behind
the last vendor element, whose end lies behind the string, meets nothing there. -/
theorem searchSound_iff (m : Memory) (len : ℕ) (ie : UInt8) :
    SearchSound m len ie ↔
      ((∃ p ∈ elements m len 0, m p = ie) ∨ elementsEnd m len 0 + 1 ≠ len) ∧
      ((∃ p ∈ elements m len 0, isWmm m p = true) ∨
        WmmTail m len (lastVendorEnd m 0 (elements m len 0)) (elementsEnd m len 0)) := by
  rw [← findIe_reads, ← wmmSound_iff (Nat.zero_le len)]
  constructor
  · exact fun h => ⟨h.ieReads, h.wmmReads, h.wmmResult⟩
  · rintro ⟨hie, hwmm⟩
    exact ⟨hie, findIe_result m len ie, hwmm.1, hwmm.2⟩

section Example

/-- A vendor element of another vendor, and behind it an empty element. -/
def vendorFirst : Memory := Memory.write (fun _ => 0) 0 [221, 3, 0, 0, 0, 1, 0]

/-- The search behind the vendor element reads the length of an element behind the string. -/
theorem vendorFirst_unsound : ¬ SearchSound vendorFirst 7 1 := by
  have hnext : nextElement vendorFirst 0 = 5 := by decide
  have hnext' : nextElement vendorFirst 5 = 7 := by decide
  have hnext'' : nextElement vendorFirst 7 = 9 := by decide
  have hwmm : ∀ p ∈ [0, 5], isWmm vendorFirst p = false := by decide
  have helems : elements vendorFirst 7 0 = [0, 5] := by
    rw [elements, if_pos (by omega), hnext, elements, if_pos (by omega), hnext', elements,
      if_neg (by omega)]
  have hend : elementsEnd vendorFirst 7 0 = 7 := by
    rw [elementsEnd_of_le (by omega), hnext, elementsEnd_of_le (by omega), hnext', elementsEnd,
      if_neg (by omega)]
  rw [searchSound_iff, helems, hend]
  rintro ⟨-, ⟨p, hp, hfound⟩ | ⟨-, hq⟩ | ⟨htwo, -⟩⟩
  · exact absurd hfound (Bool.eq_false_iff.mp (hwmm p hp))
  · exact absurd hq (by decide)
  · omega

end Example

end R92su

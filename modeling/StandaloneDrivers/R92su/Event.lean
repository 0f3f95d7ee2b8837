import Mathlib.Algebra.Order.Ring.Int
import StandaloneDrivers.Foundations.Memory

/-! Card-to-host events: the dispatch of event.c, the survey event, and the work of main.c that
reports the networks it found. -/
namespace R92su
open Foundations

/-- `sizeof(struct h2cc2h)` -/
def sizeofC2h : ℕ := 8

/-- `sizeof(struct h2cc2h_bss)`, which is also where its elements start. -/
def sizeofC2hBss : ℕ := 128

namespace C2h

/-- `c2h->len`, the number of data bytes behind the header. -/
def len (c2h : Memory) : ℕ := c2h.le16 0

def event (c2h : Memory) : ℕ := (c2h 2).toNat

/-- `c2h_bss->length` of a survey event. -/
def bssLength (c2h : Memory) : ℕ := c2h.le32 8

/-- `c2h_bss->config.frequency`, a channel number. -/
def frequency (c2h : Memory) : ℕ := c2h.le32 (8 + 72)

def ieLength (c2h : Memory) : ℕ := c2h.le32 (8 + 112)

end C2h

inductive C2hEvent where
  | survey
  | surveyDone
  | joinBss
  | addSta
  | delSta
  | atimDone
  | fwdbg
  | reportPwrState
  | wpsPbc
  | addbaReport
  deriving DecidableEq, Repr

/-- The cases of `r92su_c2h_event`; its default is `none`. -/
def C2hEvent.ofCode : ℕ → Option C2hEvent
  | 8 => some .survey
  | 9 => some .surveyDone
  | 10 => some .joinBss
  | 11 => some .addSta
  | 12 => some .delSta
  | 13 => some .atimDone
  | 19 => some .fwdbg
  | 23 => some .reportPwrState
  | 24 => some .wpsPbc
  | 25 => some .addbaReport
  | _ => none

/-- `le16_to_cpu(c2h->len) - FCS_LEN` as a `u16` -/
def surveyLen (c2h : Memory) : ℕ := (C2h.len c2h + 65536 - 4) % 65536

/-- `le32_to_cpu(c2h_bss->length) - FCS_LEN` as a `u32` -/
def surveyBssLen (c2h : Memory) : ℕ := (C2h.bssLength c2h + 2 ^ 32 - 4) % 2 ^ 32

def surveyRejected (c2h : Memory) : Bool :=
  surveyLen c2h < sizeofC2hBss || surveyLen c2h != surveyBssLen c2h || C2h.ieLength c2h ≤ 12

/-- `struct r92su_add_bss`: the copy of the event's data starts behind the list node. -/
structure AddBss where
  size : ℕ
  mem : Memory

/-- `sizeof(struct llist_node)` -/
def sizeofNode : ℕ := 8

/-- What the event leaves: whether it marks the device dead, and the entry for `add_bss_list`.
`kmalloc` gives the memory of a block, or `none`. -/
def c2hSurveyEvent (kmalloc : ℕ → Option Memory) (c2h : Memory) : Bool × Option AddBss :=
  if surveyRejected c2h then (true, none)
  else
    let len := surveyLen c2h
    let size := len - sizeofC2hBss + (sizeofNode + sizeofC2hBss)
    match kmalloc size with
    | none => (false, none)
    | some block =>
      let copy := block.write sizeofNode (c2h.read sizeofC2h len)
      let copy := copy.write sizeofNode (Memory.le32Bytes len)
      let ieLength := (copy.le32 (sizeofNode + 112) + 2 ^ 32 - 4) % 2 ^ 32
      (false, some ⟨size, copy.write (sizeofNode + 112) (Memory.le32Bytes ieLength)⟩)

/-- What the event reads, by its place from the header on. -/
def c2hSurveyReads (kmalloc : ℕ → Option Memory) (c2h : Memory) : List Span :=
  [⟨0, 2⟩, ⟨sizeofC2h, 4⟩] ++
  (if surveyLen c2h < sizeofC2hBss || surveyLen c2h != surveyBssLen c2h then []
    else [⟨sizeofC2h + 112, 4⟩]) ++
  (if (c2hSurveyEvent kmalloc c2h).2.isSome then [⟨sizeofC2h, surveyLen c2h⟩] else [])

/-- Whether the device is dead after an event. -/
def c2hEventDies (c2h : Memory) : Bool :=
  match C2hEvent.ofCode (C2h.event c2h) with
  | none => true
  | some .survey => surveyRejected c2h
  | some _ => false

/-- `ARRAY_SIZE(r92su_channeltable)` -/
def nChannels : ℤ := 14

/-- What the work passes to `cfg80211_inform_bss`: the channel and the place of the elements. -/
structure BssReport where
  chanIdx : ℕ
  ie : Span
  deriving DecidableEq

/-- One round of `r92su_bss_add_work`. -/
def AddBss.report (entry : AddBss) : Option BssReport :=
  let chanIdx := Int.bmod ((entry.mem.le32 (sizeofNode + 72) : ℤ) - 1) (2 ^ 32)
  if chanIdx < 0 ∨ chanIdx ≥ nChannels then none
  else
    let ieLen := Int.bmod ((entry.mem.le32 (sizeofNode + 112) : ℤ) - 12) (2 ^ 32)
    if ieLen < 0 then none
    else some ⟨chanIdx.toNat, ⟨sizeofNode + sizeofC2hBss, ieLen.toNat⟩⟩

variable (kmalloc : ℕ → Option Memory) (c2h : Memory)

/-- The event reads its own bytes, and the elements that are reported lie in the entry. -/
def SurveySafe : Prop :=
  (∀ r ∈ c2hSurveyReads kmalloc c2h, r.Inside (sizeofC2h + C2h.len c2h)) ∧
  ∀ entry, (c2hSurveyEvent kmalloc c2h).2 = some entry →
    ∀ report, entry.report = some report → report.ie.Inside entry.size

/-- The event leaves an entry that is reported. -/
def SurveyReported : Prop :=
  surveyRejected c2h = false ∧ (kmalloc (surveyLen c2h + 8)).isSome ∧
    1 ≤ C2h.frequency c2h ∧ C2h.frequency c2h ≤ 14 ∧ 16 ≤ C2h.ieLength c2h ∧
    C2h.ieLength c2h < 2 ^ 31 + 16

variable {kmalloc c2h}

theorem surveyRejected_eq_false : surveyRejected c2h = false ↔
    sizeofC2hBss ≤ surveyLen c2h ∧ surveyLen c2h = surveyBssLen c2h ∧ 12 < C2h.ieLength c2h := by
  simp only [surveyRejected, Bool.or_eq_false_iff, decide_eq_false_iff_not, bne_eq_false_iff_eq,
    not_lt, not_le, and_assoc]

theorem surveyLen_of_le (h : 4 ≤ C2h.len c2h) : surveyLen c2h = C2h.len c2h - 4 := by
  have hlt : C2h.len c2h < 65536 := Memory.le16_lt c2h 0
  unfold surveyLen
  omega

/-- The size of an entry, which has the data behind the list node. -/
theorem surveyEntry_size (hlen : sizeofC2hBss ≤ surveyLen c2h) :
    surveyLen c2h - sizeofC2hBss + (sizeofNode + sizeofC2hBss) = surveyLen c2h + 8 := by
  simp only [sizeofC2hBss, sizeofNode] at hlen ⊢
  omega

/-- A field of the copy behind its length is the field of the event. -/
theorem copiedField {block : Memory} (hlen : sizeofC2hBss ≤ surveyLen c2h) (k : ℕ) (hk : 4 ≤ k)
    (hk' : k + 4 ≤ 128) :
    ((block.write sizeofNode (c2h.read sizeofC2h (surveyLen c2h))).write sizeofNode
      (Memory.le32Bytes (surveyLen c2h))).le32 (sizeofNode + k) = c2h.le32 (8 + k) := by
  rw [Memory.le32_write_disjoint _ (Or.inr (Nat.add_le_add_left hk _))]
  apply Memory.le32_congr
  intro j hj
  simp only [sizeofC2hBss] at hlen
  rw [Nat.add_assoc, Memory.write_read_inside _ (by omega)]
  rfl

/-- The entry is as large as the copy and the list node, and keeps the two fields the work reads. -/
theorem c2hSurveyEvent_entry {entry : AddBss}
    (h : (c2hSurveyEvent kmalloc c2h).2 = some entry) :
    surveyRejected c2h = false ∧ (kmalloc (surveyLen c2h + 8)).isSome ∧
      entry.size = surveyLen c2h + 8 ∧ entry.mem.le32 (sizeofNode + 72) = C2h.frequency c2h ∧
      entry.mem.le32 (sizeofNode + 112) = C2h.ieLength c2h - 4 := by
  cases hrej : surveyRejected c2h with
  | true => simp only [c2hSurveyEvent, hrej, if_true, reduceCtorEq] at h
  | false =>
    obtain ⟨hlen, -, hie⟩ := surveyRejected_eq_false.mp hrej
    have hie' : C2h.ieLength c2h < 2 ^ 32 := Memory.le32_lt c2h _
    have hsize := surveyEntry_size hlen
    simp only [c2hSurveyEvent, hrej, Bool.false_eq_true, if_false, hsize] at h
    cases hblock : kmalloc (surveyLen c2h + 8) with
    | none => simp only [hblock, reduceCtorEq] at h
    | some block =>
      simp only [hblock, Option.some.injEq] at h
      subst h
      have hfield := @copiedField c2h block hlen
      refine ⟨rfl, rfl, rfl, ?_, ?_⟩
      · rw [Memory.le32_write_disjoint _ (Or.inl (by decide)), hfield 72 (by decide) (by decide)]
        rfl
      · rw [hfield 112 (by decide) (by decide),
          Memory.le32_write_same _ _ (Nat.mod_lt _ (by decide))]
        change (C2h.ieLength c2h + 2 ^ 32 - 4) % 2 ^ 32 = C2h.ieLength c2h - 4
        omega

theorem c2hSurveyEvent_isSome : (c2hSurveyEvent kmalloc c2h).2.isSome ↔
    surveyRejected c2h = false ∧ (kmalloc (surveyLen c2h + 8)).isSome := by
  constructor
  · intro h
    obtain ⟨entry, hentry⟩ := Option.isSome_iff_exists.mp h
    obtain ⟨hrej, hblock, -⟩ := c2hSurveyEvent_entry hentry
    exact ⟨hrej, hblock⟩
  · rintro ⟨hrej, hblock⟩
    have hlen := (surveyRejected_eq_false.mp hrej).1
    have hsize := surveyEntry_size hlen
    obtain ⟨block, hblock⟩ := Option.isSome_iff_exists.mp hblock
    simp only [c2hSurveyEvent, hrej, Bool.false_eq_true, if_false, hsize, hblock,
      Option.isSome_some]

/-- The event stays in its bytes when they hold the checksum that is taken off. -/
theorem c2hSurveyReads_inside :
    (∀ r ∈ c2hSurveyReads kmalloc c2h, r.Inside (sizeofC2h + C2h.len c2h)) ↔
      4 ≤ C2h.len c2h := by
  constructor
  · intro h
    have hmem : (⟨sizeofC2h, 4⟩ : Span) ∈ c2hSurveyReads kmalloc c2h :=
      List.mem_append_left _ (List.mem_append_left _
        (List.mem_cons_of_mem _ (List.mem_singleton_self _)))
    have hread : sizeofC2h + 4 ≤ sizeofC2h + C2h.len c2h := h _ hmem
    omega
  · intro hlen r hr
    have hsurvey := surveyLen_of_le hlen
    simp only [c2hSurveyReads, List.mem_append, List.mem_cons, List.not_mem_nil, or_false] at hr
    rcases hr with ((rfl | rfl) | hr) | hr
    · simp only [Span.Inside, sizeofC2h]
      omega
    · simp only [Span.Inside]
      omega
    · split at hr
      · cases hr
      · rename_i hshort
        simp only [Bool.or_eq_true, decide_eq_true_eq, bne_iff_ne, not_or, not_lt] at hshort
        have hlong : 128 ≤ surveyLen c2h := hshort.1
        cases List.mem_singleton.mp hr
        simp only [Span.Inside, sizeofC2h]
        omega
    · split at hr
      · cases List.mem_singleton.mp hr
        simp only [Span.Inside]
        omega
      · cases hr

/-- What a `u32` leaves behind a subtraction, as an `int`. -/
theorem int32_sub {n k : ℕ} (hn : n < 2 ^ 32) (hk : k ≤ 2 ^ 31) :
    Int.bmod ((n : ℤ) - k) (2 ^ 32) =
      if n < 2 ^ 31 + k then (n : ℤ) - k else (n : ℤ) - k - 2 ^ 32 := by
  rw [Int.bmod_def]
  split_ifs <;> omega

/-- The work reports the channels it knows, and a length that is no negative `int`. -/
theorem AddBss.report_eq_some {entry : AddBss} {report : BssReport} :
    entry.report = some report ↔
      (1 ≤ entry.mem.le32 (sizeofNode + 72) ∧ entry.mem.le32 (sizeofNode + 72) ≤ 14) ∧
      (12 ≤ entry.mem.le32 (sizeofNode + 112) ∧
        entry.mem.le32 (sizeofNode + 112) < 2 ^ 31 + 12) ∧
      ⟨entry.mem.le32 (sizeofNode + 72) - 1,
        ⟨sizeofNode + sizeofC2hBss, entry.mem.le32 (sizeofNode + 112) - 12⟩⟩ = report := by
  have hfreq := entry.mem.le32_lt (sizeofNode + 72)
  have hie := entry.mem.le32_lt (sizeofNode + 112)
  have hchan := int32_sub hfreq (k := 1) (by decide)
  have hlen := int32_sub hie (k := 12) (by decide)
  simp only [AddBss.report]
  generalize entry.mem.le32 (sizeofNode + 72) = freq at *
  generalize entry.mem.le32 (sizeofNode + 112) = ie at *
  rw [Nat.cast_one] at hchan
  rw [Nat.cast_ofNat] at hlen
  rw [hchan, hlen, nChannels]
  by_cases hknown : 1 ≤ freq ∧ freq ≤ 14
  · rw [if_pos (show freq < 2 ^ 31 + 1 by omega), if_neg (by omega)]
    by_cases hpos : 12 ≤ ie ∧ ie < 2 ^ 31 + 12
    · rw [if_pos hpos.2, if_neg (by omega), Option.some.injEq]
      have hfreq' : ((freq : ℤ) - 1).toNat = freq - 1 := by omega
      have hie' : ((ie : ℤ) - 12).toNat = ie - 12 := by omega
      simp only [hknown, hpos, and_self, true_and, hfreq', hie']
    · have hneg : (if ie < 2 ^ 31 + 12 then (ie : ℤ) - 12 else (ie : ℤ) - 12 - 2 ^ 32) < 0 := by
        split_ifs <;> omega
      rw [if_pos hneg]
      simp only [reduceCtorEq, hpos, false_and, and_false]
  · have hbad : (if freq < 2 ^ 31 + 1 then (freq : ℤ) - 1 else (freq : ℤ) - 1 - 2 ^ 32) < 0 ∨
        (if freq < 2 ^ 31 + 1 then (freq : ℤ) - 1 else (freq : ℤ) - 1 - 2 ^ 32) ≥ 14 := by
      split_ifs <;> omega
    rw [if_pos hbad]
    simp only [reduceCtorEq, hknown, false_and]

/-- An event is safe when it holds its checksum, and the elements it announces fit in its copy. -/
theorem surveySafe_iff (kmalloc : ℕ → Option Memory) (c2h : Memory) :
    SurveySafe kmalloc c2h ↔ 4 ≤ C2h.len c2h ∧
      (SurveyReported kmalloc c2h → C2h.ieLength c2h - 16 ≤ C2h.len c2h - 4 - sizeofC2hBss) := by
  rw [SurveySafe, c2hSurveyReads_inside]
  apply and_congr_right
  intro hlen
  rw [← surveyLen_of_le hlen]
  constructor
  · rintro h ⟨hrej, hblock, hlow, hhigh, hie, hie'⟩
    obtain ⟨entry, hentry⟩ := Option.isSome_iff_exists.mp (c2hSurveyEvent_isSome.mpr ⟨hrej, hblock⟩)
    obtain ⟨-, -, hsize, hfreq, helems⟩ := c2hSurveyEvent_entry hentry
    have hin := h entry hentry _ (AddBss.report_eq_some.mpr
      ⟨by rw [hfreq]; exact ⟨hlow, hhigh⟩, by rw [helems]; omega, rfl⟩)
    have hlong := (surveyRejected_eq_false.mp hrej).1
    rw [Span.Inside, hsize, helems] at hin
    simp only [sizeofNode, sizeofC2hBss] at hin hlong ⊢
    omega
  · intro h entry hentry report hreport
    obtain ⟨hrej, hblock, hsize, hfreq, helems⟩ := c2hSurveyEvent_entry hentry
    obtain ⟨hchan, hrange, rfl⟩ := AddBss.report_eq_some.mp hreport
    rw [hfreq] at hchan
    rw [helems] at hrange
    obtain ⟨hlong, -, hpos⟩ := surveyRejected_eq_false.mp hrej
    have hfits := h ⟨hrej, hblock, hchan.1, hchan.2, by omega, by omega⟩
    rw [Span.Inside, hsize, helems]
    simp only [sizeofNode, sizeofC2hBss] at hfits hlong ⊢
    omega

section Example

/-- A survey event of 132 data bytes that announces 1000 bytes of elements. -/
def clippedSurvey : Memory :=
  let header := Memory.write (fun _ => 0) 0 [132, 0, 8]
  let length := header.write 8 (Memory.le32Bytes 132)
  let channel := length.write (8 + 72) (Memory.le32Bytes 1)
  channel.write (8 + 112) (Memory.le32Bytes 1000)

/-- The elements that are reported lie behind the entry. -/
theorem clippedSurvey_unsafe : ¬ SurveySafe (fun _ => some fun _ => 0) clippedSurvey := by
  rw [surveySafe_iff]
  rintro ⟨-, h⟩
  have hreported : SurveyReported (fun _ => some fun _ => 0) clippedSurvey := by
    unfold SurveyReported
    decide
  exact absurd (h hreported) (by decide)

end Example

end R92su

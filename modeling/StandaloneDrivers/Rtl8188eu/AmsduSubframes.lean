import StandaloneDrivers.Rtl8188eu.RecvFrame
import StandaloneDrivers.Foundations.Memory

/-! The run of `amsdu_to_msdu` (rtw_recv.c) with its allocations: the bytes that it reads, the
packets that it passes up, and the sub-skbs that it loses. -/
namespace Rtl8188eu
open Foundations

/-- Whether a subframe gets a buffer of its own, a clone of the frame's, or none. -/
inductive SubAlloc where
  | devAllocSkb
  | skbClone
  | failed
  deriving DecidableEq, Repr

/-- Bytes that are read from the frame, or from a buffer that holds `len` bytes. -/
inductive SubRead where
  | frame (span : Span)
  | own (len : ℕ) (span : Span)

/-- The bytes are there. -/
def SubRead.Inside (size : ℕ) : SubRead → Prop
  | .frame span => span.Inside size
  | .own len span => span.Inside len

/-- A sub-skb. The data of a clone stays in the frame, where it begins at `start`. -/
structure SubSkb where
  clone : Bool
  start : ℕ
  data : List UInt8
  deriving DecidableEq, Repr

namespace SubSkb

/-- The sub-skb of a subframe, as far as there is memory. -/
def alloc (start : ℕ) (data : List UInt8) : SubAlloc → Option SubSkb
  | .devAllocSkb => some ⟨false, start, data⟩
  | .skbClone => some ⟨true, start, data⟩
  | .failed => none

/-- What is read to fill it. -/
def copied (s : SubSkb) : List SubRead :=
  if s.clone then [] else [.frame ⟨s.start, s.data.length⟩]

def read (s : SubSkb) (i count : ℕ) : SubRead :=
  if s.clone then .frame ⟨s.start + i, count⟩ else .own s.data.length ⟨i, count⟩

/-- What is read for the Ethernet header: the type comes before the test of the length. -/
def headerReads (s : SubSkb) : List SubRead :=
  s.read 6 2 :: if 8 ≤ s.data.length then [s.read 0 snapSize] else []

end SubSkb

/-- What the first loop of `amsdu_to_msdu` has read and collected, and whether it has left for
`exit`. -/
structure AmsduRun where
  reads : List SubRead
  subframes : List SubSkb
  aborted : Bool

/-- The padding behind a subframe of `nSubframeLength` bytes. -/
def subframePadding (nSubframeLength : ℕ) : ℕ := (4 - (nSubframeLength + 14) % 4) % 4

/-- The first loop, at `pos` of the frame and with `n` places left. -/
def amsduLoop (alloc : ℕ → SubAlloc) : ℕ → ℕ → List UInt8 → AmsduRun
  | 0, _, _ => ⟨[], [], false⟩
  | n + 1, pos, pdata =>
      if pdata.length ≤ 14 then ⟨[], [], false⟩
      else
        let nSubframeLength := be16 pdata 12
        let length := SubRead.frame ⟨pos + 12, 2⟩
        if pdata.length < 14 + nSubframeLength then ⟨[length], [], true⟩
        else
          match SubSkb.alloc (pos + 14) (slice pdata 14 nSubframeLength) (alloc 0) with
          | none => ⟨[length], [], false⟩
          | some subSkb =>
              let reads := length :: subSkb.copied
              let rest := pdata.drop (14 + nSubframeLength)
              let paddingLen := subframePadding nSubframeLength
              if n = 0 ∨ rest = [] then ⟨reads, [subSkb], false⟩
              else if rest.length < paddingLen then ⟨reads, [subSkb], true⟩
              else
                let later := amsduLoop (fun i => alloc (i + 1)) n
                  (pos + 14 + nSubframeLength + paddingLen) (rest.drop paddingLen)
                ⟨reads ++ later.reads, subSkb :: later.subframes, later.aborted⟩

/-- What comes of a frame; a sub-skb that is lost is neither passed up nor freed. -/
structure AmsduOutcome where
  reads : List SubRead
  indicated : List (List UInt8)
  lost : List SubSkb

/-- The frame behind its header and its IV. -/
def RecvFrame.msdu (f : RecvFrame) : List UInt8 :=
  ((f.pull f.attrib.hdrlen).pull f.attrib.ivLen).data

/-- `amsdu_to_msdu`, where the jump to `exit` passes over the second loop. -/
def amsduOutcome (alloc : ℕ → SubAlloc) (f : RecvFrame) : AmsduOutcome :=
  let run := amsduLoop alloc maxSubframeCount 0 f.msdu
  if run.aborted then ⟨run.reads, [], run.subframes⟩
  else
    ⟨run.reads ++ run.subframes.flatMap SubSkb.headerReads,
      run.subframes.map fun s => subframeEthhdr f.attrib s.data, []⟩

theorem amsduLoop_subframes {alloc : ℕ → SubAlloc} (halloc : ∀ i, alloc i ≠ .failed) (n pos : ℕ)
    (pdata : List UInt8) :
    amsduSubframes n pdata = if (amsduLoop alloc n pos pdata).aborted then none
      else some ((amsduLoop alloc n pos pdata).subframes.map SubSkb.data) := by
  induction n generalizing alloc pos pdata with
  | zero => rfl
  | succ n ih =>
    have hlater := @ih (fun i => alloc (i + 1)) (fun i => halloc (i + 1))
    rw [amsduSubframes, amsduLoop]
    by_cases hshort : pdata.length ≤ 14
    · rw [if_pos hshort, if_pos hshort]
      rfl
    · rw [if_neg hshort, if_neg hshort]
      by_cases hcut : pdata.length < 14 + be16 pdata 12
      · simp only [if_pos hcut, ↓reduceIte]
      · obtain ⟨s, hs, hdata⟩ : ∃ s, SubSkb.alloc (pos + 14) (slice pdata 14 (be16 pdata 12))
            (alloc 0) = some s ∧ s.data = slice pdata 14 (be16 pdata 12) := by
          cases h : alloc 0 with
          | devAllocSkb => exact ⟨_, rfl, rfl⟩
          | skbClone => exact ⟨_, rfl, rfl⟩
          | failed => exact absurd h (halloc 0)
        simp only [if_neg hcut, hs]
        by_cases hend : n = 0 ∨ pdata.drop (14 + be16 pdata 12) = []
        · simp only [if_pos hend, Bool.false_eq_true, ↓reduceIte, List.map_cons, hdata,
            List.map_nil]
        · rw [if_neg hend, if_neg hend]
          by_cases hpad : (pdata.drop (14 + be16 pdata 12)).length <
              subframePadding (be16 pdata 12)
          · simp only [if_pos hpad, ↓reduceIte]
            rw [subframePadding] at hpad
            rw [if_pos hpad]
          · rw [if_neg hpad]
            have hpad' := hpad
            rw [subframePadding] at hpad'
            rw [if_neg hpad', hlater (pos + 14 + be16 pdata 12 + subframePadding (be16 pdata 12))]
            simp only [subframePadding]
            by_cases hlost : (amsduLoop (fun i => alloc (i + 1)) n
                (pos + 14 + be16 pdata 12 + (4 - (be16 pdata 12 + 14) % 4) % 4)
                ((pdata.drop (14 + be16 pdata 12)).drop
                  ((4 - (be16 pdata 12 + 14) % 4) % 4))).aborted = true
            · simp only [hlost, ↓reduceIte, Option.map_none]
            · simp only [hlost, Bool.false_eq_true, ↓reduceIte, Option.map_some, List.map_cons,
                hdata]

/-- With memory for every subframe it is what `amsduToMsdu` says. -/
theorem amsduOutcome_indicated {alloc : ℕ → SubAlloc} (halloc : ∀ i, alloc i ≠ .failed)
    (f : RecvFrame) : (amsduOutcome alloc f).indicated = amsduToMsdu f := by
  have hlink : amsduToMsdu f = (if (amsduLoop alloc maxSubframeCount 0 f.msdu).aborted
      then none else some ((amsduLoop alloc maxSubframeCount 0 f.msdu).subframes.map
        SubSkb.data)).elim [] fun subframes => subframes.map (subframeEthhdr f.attrib) := by
    rw [← amsduLoop_subframes halloc]
    change amsduToMsdu f = (amsduSubframes maxSubframeCount
      ((f.pull f.attrib.hdrlen).pull f.attrib.ivLen).data).elim _ _
    rw [amsduToMsdu]
    cases amsduSubframes maxSubframeCount ((f.pull f.attrib.hdrlen).pull f.attrib.ivLen).data <;> rfl
  rw [hlink, amsduOutcome]
  cases (amsduLoop alloc maxSubframeCount 0 f.msdu).aborted with
  | true => rfl
  | false =>
    simp only [Bool.false_eq_true, ↓reduceIte, Option.elim_some, List.map_map]
    rfl

/-- A subframe, and the padding for one that is not the last. -/
structure Subframe where
  da : MacAddr
  sa : MacAddr
  content : List UInt8
  padding : List UInt8
  content_lt : content.length < 65536
  padding_length : padding.length = subframePadding content.length

namespace Subframe

def header (s : Subframe) : List UInt8 :=
  s.da.toList ++ (s.sa.toList ++
    [UInt8.ofNat (s.content.length / 256), UInt8.ofNat s.content.length])

def bytes (s : Subframe) : List UInt8 := s.header ++ s.content

/-- The packet with the subframe's own addresses. -/
def packet (s : Subframe) : List UInt8 :=
  subframeEthhdr { RxPktAttrib.zero with dst := s.da, src := s.sa } s.content

variable (s : Subframe) (rest : List UInt8)

@[simp] theorem header_length : s.header.length = 14 := by
  simp only [header, List.length_append, Vector.length_toList, List.length_cons, List.length_nil]

@[simp] theorem bytes_length : s.bytes.length = 14 + s.content.length := by
  rw [bytes, List.length_append, header_length]

theorem byteAt_header {i : ℕ} (h : 12 ≤ i) (hi : i < 14) :
    byteAt (s.bytes ++ rest) i =
      byteAt [UInt8.ofNat (s.content.length / 256), UInt8.ofNat s.content.length] (i - 12) := by
  have hda : s.da.toList.length ≤ i := by
    rw [Vector.length_toList]
    omega
  have hsa : s.sa.toList.length ≤ i - 6 := by
    rw [Vector.length_toList]
    omega
  rw [byteAt, bytes, header, List.append_assoc, List.append_assoc, List.append_assoc,
    List.getD_append_right _ _ _ _ hda, Vector.length_toList,
    List.getD_append_right _ _ _ _ hsa, Vector.length_toList,
    List.getD_append _ _ _ _ (by simp only [List.length_cons, List.length_nil]; omega), byteAt,
    Nat.sub_sub]

theorem be16_bytes : be16 (s.bytes ++ rest) 12 = s.content.length := by
  have := s.content_lt
  rw [be16, s.byteAt_header rest (Nat.le_refl 12) (by decide),
    s.byteAt_header rest (by decide) (by decide)]
  simp only [byteAt, List.getD_cons_zero, Nat.sub_self, List.getD_cons_succ,
    UInt8.toNat_ofNat']
  omega

theorem slice_bytes : slice (s.bytes ++ rest) 14 s.content.length = s.content := by
  rw [slice, bytes, List.append_assoc, List.drop_left' s.header_length, List.take_left' rfl]

theorem drop_bytes : (s.bytes ++ rest).drop (14 + s.content.length) = rest :=
  List.drop_left' s.bytes_length

end Subframe

theorem ofNat_high (a b : UInt8) : UInt8.ofNat ((256 * a.toNat + b.toNat) / 256) = a := by
  have := b.toNat_lt
  rw [show (256 * a.toNat + b.toNat) / 256 = a.toNat by omega, UInt8.ofNat_toNat]

theorem ofNat_low (a b : UInt8) : UInt8.ofNat (256 * a.toNat + b.toNat) = b := by
  apply UInt8.toNat.inj
  have := b.toNat_lt
  rw [UInt8.toNat_ofNat']
  omega

theorem slice_two {data : List UInt8} {i : ℕ} (h : i + 2 ≤ data.length) :
    slice data i 2 = [data.getD i 0, data.getD (i + 1) 0] := by
  rw [slice, List.drop_eq_getElem_cons (by omega), List.drop_eq_getElem_cons (by omega),
    List.take_succ_cons, List.take_succ_cons, List.take_zero, List.getD_eq_getElem _ _ (by omega),
    List.getD_eq_getElem _ _ (by omega)]

/-- A header whose length fits begins a subframe. -/
theorem exists_subframe {pdata : List UInt8} (h : 14 < pdata.length)
    (hfits : 14 + be16 pdata 12 ≤ pdata.length) :
    ∃ (s : Subframe) (rest : List UInt8), pdata = s.bytes ++ rest := by
  have hlt : be16 pdata 12 < 65536 := by
    have h0 := (pdata.getD 12 0).toNat_lt
    have h1 := (pdata.getD (12 + 1) 0).toNat_lt
    rw [be16, byteAt, byteAt]
    omega
  have hlen : (slice pdata 14 (be16 pdata 12)).length = be16 pdata 12 := by
    rw [slice, List.length_take, List.length_drop]
    omega
  refine ⟨⟨⟨(slice pdata 0 6).toArray, ?_⟩, ⟨(slice pdata 6 6).toArray, ?_⟩,
    slice pdata 14 (be16 pdata 12), List.replicate (subframePadding (be16 pdata 12)) 0,
    ?_, ?_⟩, pdata.drop (14 + be16 pdata 12), ?_⟩
  · simp only [slice, List.size_toArray, List.length_take, List.length_drop]
    omega
  · simp only [slice, List.size_toArray, List.length_take, List.length_drop]
    omega
  · rwa [hlen]
  · rw [hlen, List.length_replicate]
  · have hlength : [UInt8.ofNat (be16 pdata 12 / 256), UInt8.ofNat (be16 pdata 12)] =
        slice pdata 12 2 := by
      rw [slice_two (by omega), be16, byteAt, byteAt, ofNat_high, ofNat_low]
    have htake : slice pdata 0 6 ++ slice pdata 6 6 ++ slice pdata 12 2 ++
        slice pdata 14 (be16 pdata 12) = pdata.take (14 + be16 pdata 12) := by
      rw [← slice_add pdata 0, ← slice_add pdata 0, ← slice_add pdata 0, slice, List.drop_zero]
    rw [Subframe.bytes, Subframe.header]
    simp only [hlen, hlength, Vector.toList, ← List.append_assoc]
    rw [htake, List.take_append_drop]

theorem amsduLoop_subframe (alloc : ℕ → SubAlloc) (n pos : ℕ) (s : Subframe) {rest : List UInt8}
    (h : s.content ++ rest ≠ []) :
    amsduLoop alloc (n + 1) pos (s.bytes ++ rest) =
      match SubSkb.alloc (pos + 14) s.content (alloc 0) with
      | none => ⟨[.frame ⟨pos + 12, 2⟩], [], false⟩
      | some subSkb =>
          if n = 0 ∨ rest = [] then ⟨.frame ⟨pos + 12, 2⟩ :: subSkb.copied, [subSkb], false⟩
          else if rest.length < subframePadding s.content.length then
            ⟨.frame ⟨pos + 12, 2⟩ :: subSkb.copied, [subSkb], true⟩
          else
            let later := amsduLoop (fun i => alloc (i + 1)) n
              (pos + 14 + s.content.length + subframePadding s.content.length)
              (rest.drop (subframePadding s.content.length))
            ⟨.frame ⟨pos + 12, 2⟩ :: subSkb.copied ++ later.reads, subSkb :: later.subframes,
              later.aborted⟩ := by
  have hpos : 0 < s.content.length + rest.length := by
    rw [← List.length_append]
    exact List.length_pos_iff.mpr h
  have hlong : ¬(s.bytes ++ rest).length ≤ 14 := by
    rw [List.length_append, s.bytes_length]
    omega
  have hfits : ¬(s.bytes ++ rest).length < 14 + s.content.length := by
    rw [List.length_append, s.bytes_length]
    omega
  rw [amsduLoop, if_neg hlong]
  simp only [s.be16_bytes rest, s.slice_bytes rest, s.drop_bytes rest, if_neg hfits]

theorem Subframe.bytes_inj {s t : Subframe} {rest rest' : List UInt8}
    (h : s.bytes ++ rest = t.bytes ++ rest') : s.content = t.content ∧ rest = rest' := by
  have hlen : s.content.length = t.content.length := by
    rw [← s.be16_bytes rest, h, t.be16_bytes]
  constructor
  · rw [← s.slice_bytes rest, h, hlen, t.slice_bytes]
  · rw [← s.drop_bytes rest, h, hlen, t.drop_bytes]

/-- The subframes with their padding, one behind the other. -/
def padded (subs : List Subframe) : List UInt8 := subs.flatMap fun s => s.bytes ++ s.padding

/-- The bytes that are read of a sub-skb for its header are there: its own, or those that follow in
the frame. -/
def SubAlloc.Holds (len rest : ℕ) : SubAlloc → Prop
  | .devAllocSkb => 8 ≤ len
  | .skbClone => 8 ≤ len + rest
  | .failed => True

/-- Behind a subframe the frame ends, or there is its padding and no subframe that is cut. -/
def Continues (len : ℕ) (rest : List UInt8) : Prop :=
  rest = [] ∨ subframePadding len ≤ rest.length ∧
    ∀ next, next = rest.drop (subframePadding len) → 14 < next.length →
      14 + be16 next 12 ≤ next.length

/-- Each subframe that gets a sub-skb holds what is read of it, and `n` sub-skbs are made or the
frame continues as it should. -/
def AmsduKept (alloc : ℕ → SubAlloc) (n : ℕ) (bytes : List UInt8) : Prop :=
  ∀ (before : List Subframe) (s : Subframe) (rest : List UInt8),
    bytes = padded before ++ (s.bytes ++ rest) → s.content ++ rest ≠ [] → before.length < n →
      (∀ i ≤ before.length, alloc i ≠ .failed) →
      (alloc before.length).Holds s.content.length rest.length ∧
        (before.length + 1 < n → Continues s.content.length rest)

section Kept
variable {alloc : ℕ → SubAlloc} {n : ℕ} {s : Subframe} {rest bytes : List UInt8}

theorem kept_of_short (h : bytes.length ≤ 14) : AmsduKept alloc n bytes := by
  intro before t rest hbytes hne hn halloc
  have hlen := congrArg List.length hbytes
  have hpos := List.length_pos_iff.mpr hne
  rw [List.length_append, List.length_append, t.bytes_length] at hlen
  rw [List.length_append] at hpos
  omega

/-- Bytes that begin with subframes begin with a complete one. -/
theorem padded_append (before : List Subframe) (t : Subframe) (rest : List UInt8) :
    ∃ (s : Subframe) (rest' : List UInt8), padded before ++ (t.bytes ++ rest) = s.bytes ++ rest' := by
  cases before with
  | nil => exact ⟨t, rest, rfl⟩
  | cons b before =>
    refine ⟨b, b.padding ++ (padded before ++ (t.bytes ++ rest)), ?_⟩
    simp only [padded, List.flatMap_cons, List.append_assoc]

theorem kept_of_cut (h : bytes.length < 14 + be16 bytes 12) : AmsduKept alloc n bytes := by
  intro before t rest hbytes hne hn halloc
  obtain ⟨s, rest', hs⟩ := padded_append before t rest
  rw [hbytes, hs, s.be16_bytes, List.length_append, s.bytes_length] at h
  omega

theorem kept_of_failed (h : alloc 0 = .failed) : AmsduKept alloc n bytes := by
  intro before t rest hbytes hne hn halloc
  exact absurd h (halloc 0 (Nat.zero_le _))

/-- What the subframe at the front has to do with it. -/
theorem kept_cons (hne : s.content ++ rest ≠ []) (halloc : alloc 0 ≠ .failed) :
    AmsduKept alloc (n + 1) (s.bytes ++ rest) ↔
      (alloc 0).Holds s.content.length rest.length ∧
        (n ≠ 0 → Continues s.content.length rest ∧
          AmsduKept (fun i => alloc (i + 1)) n
            (rest.drop (subframePadding s.content.length))) := by
  constructor
  · intro h
    have hfirst := h [] s rest rfl hne (Nat.succ_pos n) fun i hi => by
      rwa [Nat.le_zero.mp hi]
    refine ⟨hfirst.1, fun hn => ?_⟩
    have hcontinues := hfirst.2 (Nat.succ_lt_succ (Nat.pos_of_ne_zero hn))
    refine ⟨hcontinues, ?_⟩
    intro before t rest' hbytes hne' hbefore halloc'
    have hpad : (rest.take (subframePadding s.content.length)).length =
        subframePadding s.content.length := by
      rw [List.length_take]
      rcases hcontinues with rfl | ⟨hle, -⟩
      · exact absurd (congrArg List.length hbytes) (by
          simp only [List.drop_nil, List.length_nil, List.length_append, t.bytes_length]
          omega)
      · exact Nat.min_eq_left hle
    let front : Subframe := ⟨s.da, s.sa, s.content, _, s.content_lt, hpad⟩
    have hall := h (front :: before) t rest' (by
      simp only [padded, List.flatMap_cons, List.append_assoc]
      rw [← padded, ← hbytes, List.take_append_drop]
      rfl) hne' (Nat.succ_lt_succ hbefore) fun i hi => by
        cases i with
        | zero => exact halloc
        | succ i => exact halloc' i (Nat.le_of_succ_le_succ hi)
    exact ⟨hall.1, fun hlt => hall.2 (Nat.succ_lt_succ hlt)⟩
  · rintro ⟨hholds, hrest⟩ before t rest' hbytes hne' hbefore halloc'
    cases before with
    | nil =>
      obtain ⟨hcontent, rfl⟩ := Subframe.bytes_inj hbytes
      rw [← hcontent]
      exact ⟨hholds, fun hlt => (hrest (Nat.ne_of_gt (Nat.lt_of_succ_lt_succ hlt))).1⟩
    | cons b before =>
      have hsplit : s.bytes ++ rest = b.bytes ++ (b.padding ++ (padded before ++
          (t.bytes ++ rest'))) := by
        rw [hbytes]
        simp only [padded, List.flatMap_cons, List.append_assoc]
      obtain ⟨hcontent, rfl⟩ := Subframe.bytes_inj hsplit
      have hlt := Nat.lt_of_succ_lt_succ hbefore
      obtain ⟨-, hlater⟩ := hrest (Nat.ne_zero_of_lt hlt)
      rw [hcontent, List.drop_left' b.padding_length] at hlater
      have hall := hlater before t rest' rfl hne' hlt fun i hi =>
        halloc' (i + 1) (Nat.succ_le_succ hi)
      exact ⟨hall.1, fun h => hall.2 (Nat.lt_of_succ_lt_succ h)⟩

end Kept

/-- A run whose reads are inside, and that leaves for `exit` only with empty hands. -/
structure AmsduRun.Sound (size : ℕ) (run : AmsduRun) : Prop where
  reads : ∀ r ∈ run.reads, r.Inside size
  headers : ∀ s ∈ run.subframes, ∀ r ∈ s.headerReads, r.Inside size
  kept : run.aborted = true → run.subframes = []

theorem alloc_failed {a : SubAlloc} {start : ℕ} {data : List UInt8}
    (h : SubSkb.alloc start data a = none) : a = .failed := by
  cases a with
  | devAllocSkb => cases h
  | skbClone => cases h
  | failed => rfl

theorem copied_inside {a : SubAlloc} {start size : ℕ} {data : List UInt8} {s : SubSkb}
    (hs : SubSkb.alloc start data a = some s) (h : start + data.length ≤ size) :
    ∀ r ∈ s.copied, r.Inside size := by
  intro r hr
  cases a with
  | devAllocSkb =>
    obtain rfl := Option.some.inj hs
    rw [List.mem_singleton.mp hr]
    exact h
  | skbClone =>
    obtain rfl := Option.some.inj hs
    cases hr
  | failed => cases hs

theorem headerReads_inside {a : SubAlloc} {start size rest : ℕ} {data : List UInt8} {s : SubSkb}
    (hs : SubSkb.alloc start data a = some s) (h : start + data.length + rest = size) :
    (∀ r ∈ s.headerReads, r.Inside size) ↔ a.Holds data.length rest := by
  cases a with
  | devAllocSkb =>
    obtain rfl := Option.some.inj hs
    by_cases hlen : 8 ≤ data.length
    · simp only [SubSkb.headerReads, SubSkb.read, SubAlloc.Holds, SubRead.Inside, Span.Inside, hlen,
        snapSize, List.forall_mem_cons, Bool.false_eq_true, ↓reduceIte, List.not_mem_nil,
        false_imp_iff, implies_true, and_true, true_and, iff_true]
      omega
    · simp only [SubSkb.headerReads, SubSkb.read, SubAlloc.Holds, SubRead.Inside, Span.Inside, hlen,
        List.forall_mem_cons, Bool.false_eq_true, ↓reduceIte, List.not_mem_nil,
        false_imp_iff, implies_true, and_true]
  | skbClone =>
    obtain rfl := Option.some.inj hs
    by_cases hlen : 8 ≤ data.length
    · simp only [SubSkb.headerReads, SubSkb.read, SubAlloc.Holds, SubRead.Inside, Span.Inside, hlen,
        snapSize, List.forall_mem_cons, ↓reduceIte, List.not_mem_nil,
        false_imp_iff, implies_true, and_true]
      omega
    · simp only [SubSkb.headerReads, SubSkb.read, SubAlloc.Holds, SubRead.Inside, Span.Inside, hlen,
        List.forall_mem_cons, ↓reduceIte, List.not_mem_nil,
        false_imp_iff, implies_true, and_true]
      omega
  | failed => cases hs

/-- The loop leaves empty-handed where the frame is cut at its front. -/
theorem amsduLoop_aborted_iff {alloc : ℕ → SubAlloc} {n pos : ℕ} {bytes : List UInt8} (hn : n ≠ 0)
    (hkept : (amsduLoop alloc n pos bytes).aborted = true →
      (amsduLoop alloc n pos bytes).subframes = []) :
    (amsduLoop alloc n pos bytes).aborted = true ↔
      14 < bytes.length ∧ bytes.length < 14 + be16 bytes 12 := by
  obtain ⟨n, rfl⟩ := Nat.exists_eq_succ_of_ne_zero hn
  by_cases hshort : bytes.length ≤ 14
  · rw [amsduLoop, if_pos hshort]
    simp only [Bool.false_eq_true, false_iff]
    omega
  · by_cases hcut : bytes.length < 14 + be16 bytes 12
    · simp only [amsduLoop, if_neg hshort, if_pos hcut, true_iff]
      omega
    · refine iff_of_false (fun haborted => ?_) (fun h => hcut h.2)
      have hempty := hkept haborted
      simp only [amsduLoop, if_neg hshort, if_neg hcut] at haborted hempty
      cases hs : SubSkb.alloc (pos + 14) (slice bytes 14 (be16 bytes 12)) (alloc 0) with
      | none => simp only [hs, Bool.false_eq_true] at haborted
      | some s =>
        simp only [hs] at hempty
        split at hempty
        · cases hempty
        · split at hempty
          · cases hempty
          · cases hempty

theorem amsduLoop_short {alloc : ℕ → SubAlloc} {n pos : ℕ} {bytes : List UInt8}
    (h : bytes.length ≤ 14) : amsduLoop alloc n pos bytes = ⟨[], [], false⟩ := by
  cases n with
  | zero => rfl
  | succ n => rw [amsduLoop, if_pos h]

/-- A run that ends before it gets a sub-skb. -/
theorem sound_nothing {size : ℕ} {reads : List SubRead} {aborted : Bool}
    (h : ∀ r ∈ reads, r.Inside size) : AmsduRun.Sound size ⟨reads, [], aborted⟩ := by
  refine ⟨h, ?_, fun _ => rfl⟩
  intro s hs
  cases hs

/-- The subframe at the front, and what the run does behind it. -/
theorem sound_subframe {alloc : ℕ → SubAlloc} {n pos size : ℕ} {s : Subframe} {rest : List UInt8}
    (hne : s.content ++ rest ≠ []) (halloc : alloc 0 ≠ .failed)
    (hsize : pos + (s.bytes ++ rest).length = size) :
    (amsduLoop alloc (n + 1) pos (s.bytes ++ rest)).Sound size ↔
      (alloc 0).Holds s.content.length rest.length ∧
        (n ≠ 0 → Continues s.content.length rest ∧
          (amsduLoop (fun i => alloc (i + 1)) n
            (pos + 14 + s.content.length + subframePadding s.content.length)
            (rest.drop (subframePadding s.content.length))).Sound size) := by
  rw [List.length_append, s.bytes_length] at hsize
  cases hs : SubSkb.alloc (pos + 14) s.content (alloc 0) with
  | none => exact absurd (alloc_failed hs) halloc
  | some sub =>
    have hhead : (SubRead.frame ⟨pos + 12, 2⟩).Inside size := by
      simp only [SubRead.Inside, Span.Inside]
      omega
    have hcopied := @copied_inside _ _ size _ _ hs (by omega)
    have hholds := @headerReads_inside _ _ size rest.length _ _ hs (by omega)
    rw [amsduLoop_subframe alloc n pos s hne]
    simp only [hs]
    have hreads : ∀ r ∈ SubRead.frame ⟨pos + 12, 2⟩ :: sub.copied, r.Inside size :=
      List.forall_mem_cons.mpr ⟨hhead, hcopied⟩
    by_cases hend : n = 0 ∨ rest = []
    · rw [if_pos hend, ← hholds]
      constructor
      · intro h
        refine ⟨h.headers sub List.mem_cons_self, fun hn => ?_⟩
        obtain rfl := hend.resolve_left hn
        rw [List.drop_nil, amsduLoop_short (Nat.zero_le _)]
        exact ⟨Or.inl rfl, sound_nothing (List.forall_mem_nil _)⟩
      · intro h
        refine ⟨hreads, ?_, ?_⟩
        · intro t ht
          rw [List.mem_singleton.mp ht]
          exact h.1
        · intro haborted
          cases haborted
    · rw [if_neg hend]
      obtain ⟨hn, hrest⟩ := not_or.mp hend
      by_cases hpad : rest.length < subframePadding s.content.length
      · rw [if_pos hpad]
        refine iff_of_false (fun h => ?_) (fun h => ?_)
        · cases h.kept rfl
        · rcases (h.2 hn).1 with hnil | ⟨hle, -⟩
          · exact hrest hnil
          · exact absurd hpad (Nat.not_lt.mpr hle)
      · rw [if_neg hpad]
        constructor
        · intro h
          have haborted : ¬(amsduLoop (fun i => alloc (i + 1)) n
              (pos + 14 + s.content.length + subframePadding s.content.length)
              (rest.drop (subframePadding s.content.length))).aborted = true := by
            intro haborted
            cases h.kept haborted
          have hcut := (not_congr (amsduLoop_aborted_iff hn fun h => absurd h haborted)).mp haborted
          refine ⟨hholds.mp (h.headers sub List.mem_cons_self), fun _ => ⟨Or.inr ⟨Nat.not_lt.mp hpad,
            ?_⟩, ?_, ?_, fun h => absurd h haborted⟩⟩
          · rintro next rfl hlong
            exact Nat.not_lt.mp fun hlt => hcut ⟨hlong, hlt⟩
          · intro r hr
            exact h.reads r (List.mem_append_right _ hr)
          · intro t ht
            exact h.headers t (List.mem_cons_of_mem _ ht)
        · rintro ⟨hfirst, hlater⟩
          obtain ⟨hcontinues, hsound⟩ := hlater hn
          have hcut := (hcontinues.resolve_left hrest).2 _ rfl
          refine ⟨?_, List.forall_mem_cons.mpr ⟨hholds.mpr hfirst, hsound.headers⟩, ?_⟩
          · intro r hr
            exact (List.mem_append.mp hr).elim (hreads r) (hsound.reads r)
          · intro haborted
            obtain ⟨hlong, hlt⟩ := (amsduLoop_aborted_iff hn hsound.kept).mp haborted
            exact absurd hlt (Nat.not_lt.mpr (hcut hlong))

/-- For every frame and whatever memory there is: the loop reads inside and loses nothing exactly
where the frame is kept. -/
theorem amsduLoop_sound_iff {alloc : ℕ → SubAlloc} {n pos size : ℕ} {bytes : List UInt8}
    (hsize : pos + bytes.length = size) :
    (amsduLoop alloc n pos bytes).Sound size ↔ AmsduKept alloc n bytes := by
  induction n generalizing alloc pos bytes with
  | zero =>
    refine iff_of_true (sound_nothing (List.forall_mem_nil _)) ?_
    intro before s rest _ _ hn
    cases hn
  | succ n ih =>
    by_cases hshort : bytes.length ≤ 14
    · rw [amsduLoop_short hshort]
      exact iff_of_true (sound_nothing (List.forall_mem_nil _)) (kept_of_short hshort)
    · have hhead : ∀ r ∈ [SubRead.frame ⟨pos + 12, 2⟩], r.Inside size := by
        simp only [List.forall_mem_singleton, SubRead.Inside, Span.Inside]
        omega
      by_cases hcut : bytes.length < 14 + be16 bytes 12
      · rw [amsduLoop, if_neg hshort]
        simp only [if_pos hcut]
        exact iff_of_true (sound_nothing hhead) (kept_of_cut hcut)
      · obtain ⟨s, rest, rfl⟩ := exists_subframe (Nat.not_le.mp hshort) (Nat.not_lt.mp hcut)
        have hne : s.content ++ rest ≠ [] := by
          intro h
          rw [Subframe.bytes, List.append_assoc, h, List.append_nil, s.header_length] at hshort
          exact hshort (Nat.le_refl 14)
        by_cases halloc : alloc 0 = .failed
        · rw [amsduLoop_subframe alloc n pos s hne, halloc]
          exact iff_of_true (sound_nothing hhead) (kept_of_failed halloc)
        · rw [sound_subframe hne halloc hsize, kept_cons hne halloc]
          refine and_congr_right fun _ => forall_congr' fun _ => and_congr_right fun hcontinues => ?_
          rcases hcontinues with rfl | ⟨hle, -⟩
          · rw [List.drop_nil, amsduLoop_short (Nat.zero_le _)]
            exact iff_of_true (sound_nothing (List.forall_mem_nil _))
              (kept_of_short (Nat.zero_le _))
          · apply ih
            rw [List.length_drop]
            rw [List.length_append, s.bytes_length] at hsize
            omega

/-- The subframes one behind the other, all but the last one padded. -/
def encodeAmsdu : List Subframe → List UInt8
  | [] => []
  | [s] => s.bytes
  | s :: t :: subs => s.bytes ++ s.padding ++ encodeAmsdu (t :: subs)

/-- What is left behind the last subframe: nothing, or an ICV. -/
def AmsduTail (tail : List UInt8) : Prop := tail = [] ∨ 3 ≤ tail.length ∧ tail.length ≤ 14

/-- The last subframe is not empty at the end of the frame. -/
def LastKept (subs : List Subframe) (tail : List UInt8) : Prop :=
  tail = [] → ∀ s, subs.getLast? = some s → s.content ≠ []

theorem alloc_data {a : SubAlloc} {start : ℕ} {data : List UInt8} {s : SubSkb}
    (h : SubSkb.alloc start data a = some s) : s.data = data ∧ a ≠ .failed := by
  cases a with
  | devAllocSkb =>
    obtain rfl := Option.some.inj h
    exact ⟨rfl, fun h => by cases h⟩
  | skbClone =>
    obtain rfl := Option.some.inj h
    exact ⟨rfl, fun h => by cases h⟩
  | failed => cases h

theorem subframePadding_lt (len : ℕ) : subframePadding len < 4 := Nat.mod_lt _ (by decide)

/-- The contents that the loop collects of an A-MSDU, and when these are all of them. -/
structure Collects (alloc : ℕ → SubAlloc) (subs : List Subframe) (tail : List UInt8)
    (run : AmsduRun) (k : ℕ) : Prop where
  le : k ≤ subs.length
  aborted : run.aborted = false
  data : run.subframes.map SubSkb.data = (subs.take k).map Subframe.content
  all : k = subs.length ↔ (∀ i < subs.length, alloc i ≠ .failed) ∧ LastKept subs tail

theorem collects_failed {alloc : ℕ → SubAlloc} {s : Subframe} {subs : List Subframe}
    {tail : List UInt8} {reads : List SubRead} (h : alloc 0 = .failed) :
    Collects alloc (s :: subs) tail ⟨reads, [], false⟩ 0 := by
  refine ⟨Nat.zero_le _, rfl, rfl, iff_of_false (fun h => ?_) (fun hall => ?_)⟩
  · cases h
  · exact hall.1 0 (Nat.succ_pos _) h

/-- The last subframe. -/
theorem collects_last {alloc : ℕ → SubAlloc} {n pos : ℕ} (s : Subframe) {tail : List UInt8}
    (htail : AmsduTail tail) :
    ∃ k, Collects alloc [s] tail (amsduLoop alloc (n + 1) pos (s.bytes ++ tail)) k := by
  by_cases hne : s.content ++ tail = []
  · obtain ⟨hcontent, rfl⟩ := List.append_eq_nil_iff.mp hne
    have hshort : (s.bytes ++ []).length ≤ 14 := by
      rw [List.append_nil, s.bytes_length, hcontent]
      exact Nat.le_refl 14
    rw [amsduLoop_short hshort]
    refine ⟨0, Nat.zero_le _, rfl, rfl, iff_of_false (fun h => ?_) (fun hall => ?_)⟩
    · cases h
    · exact hall.2 rfl s rfl hcontent
  · rw [amsduLoop_subframe alloc n pos s hne]
    cases hs : SubSkb.alloc (pos + 14) s.content (alloc 0) with
    | none => exact ⟨0, collects_failed (alloc_failed hs)⟩
    | some sub =>
      obtain ⟨hdata, halloc⟩ := alloc_data hs
      have hall : (1 = [s].length ↔ (∀ i < [s].length, alloc i ≠ .failed) ∧ LastKept [s] tail) := by
        refine iff_of_true rfl ⟨fun i hi => ?_, ?_⟩
        · rwa [Nat.lt_one_iff.mp hi]
        · rintro rfl t ht
          obtain rfl := Option.some.inj ht
          rwa [List.append_nil] at hne
      by_cases hend : n = 0 ∨ tail = []
      · dsimp only
        rw [if_pos hend]
        exact ⟨1, Nat.le_refl _, rfl, by rw [List.map_singleton, hdata]; rfl, hall⟩
      · have hlen := htail.resolve_left (not_or.mp hend).2
        have hpad := subframePadding_lt s.content.length
        have hshort : (tail.drop (subframePadding s.content.length)).length ≤ 14 := by
          rw [List.length_drop]
          omega
        have hfits : ¬tail.length < subframePadding s.content.length := by omega
        dsimp only
        rw [if_neg hend, if_neg hfits, amsduLoop_short hshort]
        exact ⟨1, Nat.le_refl _, rfl, by rw [List.map_singleton, hdata]; rfl, hall⟩

/-- The loop goes through an A-MSDU as far as the memory lasts. -/
theorem amsduLoop_encode {alloc : ℕ → SubAlloc} {n pos : ℕ} {subs : List Subframe}
    {tail : List UInt8} (hn : subs.length ≤ n) (htail : AmsduTail tail) :
    ∃ k, Collects alloc subs tail (amsduLoop alloc n pos (encodeAmsdu subs ++ tail)) k := by
  induction subs generalizing alloc n pos with
  | nil =>
    have hshort : (encodeAmsdu [] ++ tail).length ≤ 14 := by
      rcases htail with rfl | h
      · exact Nat.zero_le _
      · exact h.2
    rw [amsduLoop_short hshort]
    refine ⟨0, Nat.le_refl _, rfl, rfl, iff_of_true rfl ⟨?_, ?_⟩⟩
    · intro i hi
      cases hi
    · intro _ s hs
      cases hs
  | cons s subs ih =>
    obtain ⟨n, rfl⟩ := Nat.exists_eq_succ_of_ne_zero (Nat.ne_zero_of_lt hn)
    cases subs with
    | nil => exact collects_last s htail
    | cons t subs =>
      have hsplit : encodeAmsdu (s :: t :: subs) ++ tail =
          s.bytes ++ (s.padding ++ (encodeAmsdu (t :: subs) ++ tail)) := by
        simp only [encodeAmsdu, List.append_assoc]
      have hlong : encodeAmsdu (t :: subs) ≠ [] := by
        intro h
        have hlen := congrArg List.length h
        cases subs with
        | nil =>
          rw [encodeAmsdu, t.bytes_length, List.length_nil] at hlen
          omega
        | cons u subs =>
          rw [encodeAmsdu, List.length_append, List.length_append, t.bytes_length,
            List.length_nil] at hlen
          omega
      have hrest : s.padding ++ (encodeAmsdu (t :: subs) ++ tail) ≠ [] := by
        simp only [ne_eq, List.append_eq_nil_iff, hlong, false_and, and_false, not_false_eq_true]
      have hne : s.content ++ (s.padding ++ (encodeAmsdu (t :: subs) ++ tail)) ≠ [] := by
        simp only [ne_eq, List.append_eq_nil_iff, hlong, false_and, and_false, not_false_eq_true]
      rw [hsplit, amsduLoop_subframe alloc n pos s hne]
      cases hs : SubSkb.alloc (pos + 14) s.content (alloc 0) with
      | none => exact ⟨0, collects_failed (alloc_failed hs)⟩
      | some sub =>
        obtain ⟨hdata, halloc⟩ := alloc_data hs
        have hn' : n ≠ 0 := by
          rw [List.length_cons, List.length_cons] at hn
          omega
        have hpad : ¬(s.padding ++ (encodeAmsdu (t :: subs) ++ tail)).length <
            subframePadding s.content.length := by
          rw [List.length_append, s.padding_length]
          omega
        obtain ⟨k, hle, haborted, hlater, hall⟩ := @ih (fun i => alloc (i + 1)) n
          (pos + 14 + s.content.length + subframePadding s.content.length)
          (Nat.le_of_succ_le_succ hn)
        dsimp only
        rw [if_neg (not_or.mpr ⟨hn', hrest⟩), if_neg hpad, List.drop_left' s.padding_length]
        refine ⟨k + 1, Nat.succ_le_succ hle, haborted, ?_, ?_⟩
        · simp only [List.map_cons, hdata, hlater, List.take_succ_cons]
        · rw [List.length_cons, Nat.add_right_cancel_iff, hall]
          refine and_congr ?_ ?_
          · constructor
            · intro h i hi
              cases i with
              | zero => exact halloc
              | succ i => exact h i (Nat.lt_of_succ_lt_succ hi)
            · intro h i hi
              exact h (i + 1) (Nat.succ_lt_succ hi)
          · rw [LastKept, LastKept, List.getLast?_cons_cons]

/-- The frame holds these subframes behind its header and its IV. -/
structure RecvFrame.Carries (f : RecvFrame) (subs : List Subframe) (tail : List UInt8) : Prop where
  data : ∃ front, f.data = front ++ (encodeAmsdu subs ++ tail) ∧ front.length = f.attrib.payload
  count : subs.length ≤ maxSubframeCount
  tail : AmsduTail tail

theorem msdu_eq {f : RecvFrame} {front bytes : List UInt8} (h : f.data = front ++ bytes)
    (hfront : front.length = f.attrib.payload) : f.msdu = bytes := by
  have hlen := f.data_length
  rw [h, List.length_append, hfront, RxPktAttrib.payload] at hlen
  have hhdr : f.attrib.hdrlen ≤ f.len := by omega
  have hiv : f.attrib.ivLen ≤ (f.pull f.attrib.hdrlen).len := by
    rw [RecvFrame.pull_len hhdr]
    omega
  rw [RecvFrame.msdu, RecvFrame.pull_data hiv, RecvFrame.pull_data hhdr, List.drop_drop, h]
  exact List.drop_left' hfront

theorem subframeEthhdr_inj {a b : RxPktAttrib} (content : List UInt8) :
    subframeEthhdr a content = subframeEthhdr b content ↔ a.dst = b.dst ∧ a.src = b.src := by
  have hsame : subframeEthhdr a content = subframeEthhdr b content ↔
      a.dst.toList ++ a.src.toList = b.dst.toList ++ b.src.toList := by
    simp only [subframeEthhdr]
    split <;> simp only [List.append_cancel_right_eq]
  rw [hsame]
  constructor
  · intro h
    obtain ⟨hdst, hsrc⟩ := List.append_inj h (by simp only [Vector.length_toList])
    exact ⟨Vector.toList_inj.mp hdst, Vector.toList_inj.mp hsrc⟩
  · rintro ⟨hdst, hsrc⟩
    rw [hdst, hsrc]

/-- The subframes come up one by one exactly where they have the addresses of the frame, there is
memory for each, and none ends the frame empty. -/
theorem indicated_iff {alloc : ℕ → SubAlloc} {f : RecvFrame} {subs : List Subframe}
    {tail : List UInt8} (h : f.Carries subs tail) :
    (amsduOutcome alloc f).indicated = subs.map Subframe.packet ↔
      (∀ s ∈ subs, s.da = f.attrib.dst ∧ s.sa = f.attrib.src) ∧
        (∀ i < subs.length, alloc i ≠ .failed) ∧ LastKept subs tail := by
  obtain ⟨front, hdata, hfront⟩ := h.data
  obtain ⟨k, hle, haborted, hcollected, hall⟩ :=
    @amsduLoop_encode alloc _ 0 _ _ h.count h.tail
  have hindicated : (amsduOutcome alloc f).indicated =
      (subs.take k).map fun s => subframeEthhdr f.attrib s.content := by
    have hmap := congrArg (List.map (subframeEthhdr f.attrib)) hcollected
    rw [List.map_map, List.map_map] at hmap
    rw [amsduOutcome, msdu_eq hdata hfront]
    simp only [haborted, Bool.false_eq_true, ↓reduceIte]
    exact hmap
  rw [hindicated, ← hall]
  constructor
  · intro heq
    have hk : k = subs.length := by
      have hlen := congrArg List.length heq
      rwa [List.length_map, List.length_map, List.length_take, Nat.min_eq_left hle] at hlen
    rw [hk, List.take_length] at heq
    refine ⟨fun s hs => ?_, hk⟩
    obtain ⟨hdst, hsrc⟩ := (subframeEthhdr_inj s.content).mp (List.map_inj_left.mp heq s hs)
    exact ⟨hdst.symm, hsrc.symm⟩
  · rintro ⟨haddr, rfl⟩
    rw [List.take_length]
    refine List.map_congr_left fun s hs => ?_
    obtain ⟨hdst, hsrc⟩ := haddr s hs
    exact (subframeEthhdr_inj s.content).mpr ⟨hdst.symm, hsrc.symm⟩

theorem outcome_sound_iff (alloc : ℕ → SubAlloc) (f : RecvFrame) :
    ((∀ r ∈ (amsduOutcome alloc f).reads, r.Inside f.msdu.length) ∧
      (amsduOutcome alloc f).lost = []) ↔
      (amsduLoop alloc maxSubframeCount 0 f.msdu).Sound f.msdu.length := by
  rw [amsduOutcome]
  by_cases haborted : (amsduLoop alloc maxSubframeCount 0 f.msdu).aborted = true
  · simp only [haborted, ↓reduceIte]
    constructor
    · rintro ⟨hreads, hlost⟩
      refine ⟨hreads, ?_, fun _ => hlost⟩
      intro s hs
      rw [hlost] at hs
      cases hs
    · intro h
      exact ⟨h.reads, h.kept haborted⟩
  · simp only [haborted, Bool.false_eq_true, ↓reduceIte, and_true]
    constructor
    · intro h
      refine ⟨?_, ?_, fun h => absurd h haborted⟩
      · intro r hr
        exact h r (List.mem_append_left _ hr)
      · intro s hs r hr
        exact h r (List.mem_append_right _ (List.mem_flatMap.mpr ⟨s, hs, hr⟩))
    · intro h r hr
      rcases List.mem_append.mp hr with hloop | hheader
      · exact h.reads r hloop
      · obtain ⟨s, hs, hr⟩ := List.mem_flatMap.mp hheader
        exact h.headers s hs r hr

/-- An A-MSDU comes up as its subframes exactly where they have the addresses of the frame, there
is memory, and none ends the frame empty; any other frame is read inside and nothing of it lost
exactly where it is kept. -/
theorem amsduToMsdu_sound_iff (alloc : ℕ → SubAlloc) (f : RecvFrame) :
    (∀ subs tail, f.Carries subs tail →
      ((amsduOutcome alloc f).indicated = subs.map Subframe.packet ↔
        (∀ s ∈ subs, s.da = f.attrib.dst ∧ s.sa = f.attrib.src) ∧
          (∀ i < subs.length, alloc i ≠ .failed) ∧ LastKept subs tail)) ∧
      (((∀ r ∈ (amsduOutcome alloc f).reads, r.Inside f.msdu.length) ∧
        (amsduOutcome alloc f).lost = []) ↔ AmsduKept alloc maxSubframeCount f.msdu) := by
  constructor
  · intro subs tail h
    exact indicated_iff h
  · rw [outcome_sound_iff]
    exact amsduLoop_sound_iff (Nat.zero_add _)

/-- The packet of a host behind an access point. -/
def relayedSubframe (host : UInt8) : Subframe where
  da := localAddr 1
  sa := localAddr host
  content := [0xaa, 0xaa, 0x03, 0, 0, 0, 0x08, 0x00, 0x45, 0x00]
  padding := []
  content_lt := by decide
  padding_length := rfl

/-- The header of a frame with data from an access point. -/
def relayedHeader : List UInt8 :=
  [0x88, 0x02, 0, 0, 2, 0, 0, 0, 0, 1, 2, 0, 0, 0, 0, 7, 2, 0, 0, 0, 0, 7, 0, 0, 0x80, 0]

def relayedFrame : RecvFrame where
  id := 0
  psta := some 0
  attrib := { RxPktAttrib.zero with
    hdrlen := 26
    toFrDs := 1
    amsdu := true
    qos := true
    dst := localAddr 1
    src := localAddr 7 }
  mem := relayedHeader ++ encodeAmsdu [relayedSubframe 2, relayedSubframe 3]
  len := (relayedHeader ++ encodeAmsdu [relayedSubframe 2, relayedSubframe 3]).length
  fits := Nat.le_refl _

theorem relayedFrame_carries :
    relayedFrame.Carries [relayedSubframe 2, relayedSubframe 3] [] := by
  refine ⟨⟨relayedHeader, ?_, rfl⟩, by decide, Or.inl rfl⟩
  rw [List.append_nil]
  exact List.take_length

/-- The packets of two hosts come up with the address of the access point. -/
theorem relayedFrame_renamed : relayedFrame.Carries [relayedSubframe 2, relayedSubframe 3] [] ∧
    (amsduOutcome (fun _ => .devAllocSkb) relayedFrame).indicated ≠
      [relayedSubframe 2, relayedSubframe 3].map Subframe.packet := by
  refine ⟨relayedFrame_carries, fun h => ?_⟩
  obtain ⟨-, hsrc⟩ := ((indicated_iff relayedFrame_carries).mp h).1 _ List.mem_cons_self
  exact absurd hsrc (by decide)

end Rtl8188eu

import StandaloneDrivers.Rt5572.AmsduDeaggregation
import StandaloneDrivers.Rtl8188eu.AmsduSubframes

/-! Which subframes of an A-MSDU come up as they should, and which A-MSDUs are read inside. -/
namespace Rt5572
open Foundations Amsdu
open Rtl8188eu (Subframe encodeAmsdu subframePadding subframePadding_lt)

/-- The content has an LLC/SNAP header that makes way for the Ethernet header. -/
def llcRemoved (s : Subframe) : Bool :=
  decide (8 ≤ s.content.length) && removesLlc (Memory.write (fun _ => 0) 0 s.content) 0

/-- The content is an EAPOL packet. -/
def eapolSubframe (s : Subframe) : Bool := llcRemoved s && slice s.content 6 2 == [0x88, 0x8e]

namespace Deaggregation
variable (e : Deaggregation)

/-- The Ethernet packet of a subframe. -/
def packet (s : Subframe) : List UInt8 :=
  if llcRemoved s then
    vlan8023HeaderCopy e.vlan (s.da.toList ++ (s.sa.toList ++ slice s.content 6 2)) ++
      s.content.drop 8
  else vlan8023HeaderCopy e.vlan s.header ++ s.content

/-- The packet that should come up. -/
def wanted (s : Subframe) : Option (List UInt8) :=
  if e.mode = .sta ∧ eapolSubframe s = true then none else some (e.packet s)

/-- The payload that should go to the MLME of a station. -/
def wantedReport (s : Subframe) : Option (List UInt8) :=
  if eapolSubframe s then some (s.content.drop 8) else none

/-- Each subframe comes up, or goes to the MLME. -/
structure Deaggregated (subs : List Subframe) (run : AmsduRun) : Prop where
  packets : run.packets = subs.map e.wanted
  reported : e.mode = .sta → run.reported = subs.map wantedReport

/-- The subframe has an LLC/SNAP header that is removed, there is memory for its packet, and it is
no EAPOL packet for a station; for such a one a clone must have failed. -/
structure Handles (i : ℕ) (s : Subframe) : Prop where
  llc : llcRemoved s = true
  cloned : e.cloned i = !(decide (e.mode = .sta) && eapolSubframe s)
  elem : e.mode = .sta → eapolSubframe s = true → e.elemAllocated i = true

/-- Each subframe is handled, and its length lets the loop go on. -/
def HandlesAll : ℕ → List Subframe → Prop
  | _, [] => True
  | i, s :: subs =>
      e.Handles i s ∧ s.content.length ≤ 1518 ∧
        (subs ≠ [] → 15 ≤ s.content.length ∧ s.content.length ≤ 1514) ∧ HandlesAll (i + 1) subs

end Deaggregation

theorem removesLlc_congr {m m' : Memory} {i j : ℕ} (h : m.read i 8 = m'.read j 8) :
    removesLlc m i = removesLlc m' j := by
  have h6 : m.read i 6 = m'.read j 6 ∧ m.read (i + 6) 2 = m'.read (j + 6) 2 := by
    rw [Memory.read_add m i 6 2, Memory.read_add m' j 6 2] at h
    exact List.append_inj h (by rw [Memory.read_length, Memory.read_length])
  simp only [removesLlc, hasSnap, keepsSnap, h6]

section Subframes
variable {m : Memory} {pData : ℕ} {s : Subframe}

/-- The subframe lies at `pData`. -/
structure Lies (m : Memory) (pData : ℕ) (s : Subframe) : Prop where
  da : m.read pData 6 = s.da.toList
  sa : m.read (pData + 6) 6 = s.sa.toList
  length : (payloadSize m pData).toNat = s.content.length
  content : m.read (pData + 14) s.content.length = s.content

theorem lies_of_read (h : m.read pData s.bytes.length = s.bytes) : Lies m pData s := by
  rw [Subframe.bytes] at h
  obtain ⟨hheader, hcontent⟩ := m.read_eq_append h
  rw [Subframe.header] at hheader
  obtain ⟨hda, hrest⟩ := m.read_eq_append hheader
  obtain ⟨hsa, hlen⟩ := m.read_eq_append hrest
  rw [Vector.length_toList] at hda hrest
  rw [Vector.length_toList] at hsa hlen
  rw [Vector.length_toList] at hsa hlen
  rw [s.header_length] at hcontent
  have hbytes : m (pData + 6 + 6) = UInt8.ofNat (s.content.length / 256) ∧
      m (pData + 6 + 6 + 1) = UInt8.ofNat s.content.length := by
    rw [List.length_cons, List.length_cons, List.length_nil, Memory.read_succ, Memory.read_succ]
      at hlen
    simp only [List.cons.injEq] at hlen
    exact ⟨hlen.1, hlen.2.1⟩
  refine ⟨hda, hsa, ?_, hcontent⟩
  have hlt := s.content_lt
  rw [payloadSize, show pData + 13 = pData + 6 + 6 + 1 from rfl,
    show pData + 12 = pData + 6 + 6 from rfl, hbytes.1, hbytes.2, UInt16.toNat_add,
    UInt16.toNat_shiftLeft]
  simp only [UInt8.toNat_toUInt16, UInt8.toNat_ofNat', UInt16.reduceToNat, Nat.shiftLeft_eq,
    Nat.reduceMod, Nat.reducePow]
  omega

theorem llc_length (h : llcRemoved s = true) : 8 ≤ s.content.length := by
  rw [llcRemoved, Bool.and_eq_true] at h
  exact of_decide_eq_true h.1

namespace Lies
variable (h : Lies m pData s)
include h

/-- The content is read from its place as from a memory of its own. -/
theorem read_content {i n : ℕ} (hn : i + n ≤ s.content.length) :
    m.read (pData + 14 + i) n = slice s.content i n := by
  have hpart := Memory.read_take_drop m (s := pData + 14) hn
  rw [h.content] at hpart
  exact hpart.symm

theorem removes (hlen : 8 ≤ s.content.length) :
    removesLlc m (pData + 14) = llcRemoved s := by
  rw [llcRemoved, decide_eq_true hlen, Bool.true_and]
  have hread : (Memory.write (fun _ => 0) 0 s.content).read 0 8 = slice s.content 0 8 := by
    have hpart := Memory.read_take_drop (Memory.write (fun _ => 0) 0 s.content) (s := 0) (i := 0)
      (n := 8) (l := s.content.length) (by omega)
    rw [Memory.read_write_same] at hpart
    exact hpart.symm
  exact removesLlc_congr ((h.read_content (i := 0) (n := 8) (by omega)).trans hread.symm)

theorem size_sub_llc (hlen : 8 ≤ s.content.length) :
    (payloadSize m pData - 8).toNat = s.content.length - 8 := by
  have hle : (8 : UInt16) ≤ payloadSize m pData := by
    rw [UInt16.le_iff_toNat_le, h.length]
    exact hlen
  rw [UInt16.toNat_sub_of_le _ _ hle, h.length]
  rfl

/-- What `CONVERT_TO_802_3` makes of a subframe whose LLC/SNAP header is removed. -/
theorem converted_removed (hllc : llcRemoved s = true) :
    converted m pData =
      { header8023 := s.da.toList ++ (s.sa.toList ++ slice s.content 6 2), removedLlcSnap := true,
        pData := pData + 22, dataSize := payloadSize m pData - 8,
        reads := [⟨pData + 14, 6⟩, ⟨pData + 20, 2⟩] } := by
  have hlen := llc_length hllc
  have hremoves := (h.removes hlen).trans hllc
  rw [removesLlc, Bool.and_eq_true, Bool.not_eq_true'] at hremoves
  have htype := h.read_content (i := 6) (n := 2) (by omega)
  rw [converted, convertTo8023, if_pos hremoves.1, hremoves.2, h.da, h.sa, htype]
  rfl

theorem isEapol_eq (hllc : llcRemoved s = true) : isEapol m pData = eapolSubframe s := by
  have hlen := llc_length hllc
  obtain ⟨a, b, htype⟩ : ∃ a b, slice s.content 6 2 = [a, b] :=
    ⟨_, _, Rtl8188eu.slice_two (by omega)⟩
  have hget (i : ℕ) (c d : List UInt8) (hc : c.length = 6) (hd : d.length = 6) :
      (c ++ (d ++ [a, b])).getD (12 + i) 0 = [a, b].getD i 0 := by
    rw [List.getD_append_right _ _ _ _ (by omega), List.getD_append_right _ _ _ _ (by omega)]
    congr 1
    omega
  have h12 := hget 0 s.da.toList s.sa.toList (Vector.length_toList) (Vector.length_toList)
  have h13 := hget 1 s.da.toList s.sa.toList (Vector.length_toList) (Vector.length_toList)
  rw [isEapol, eapolSubframe, h.converted_removed hllc, hllc, htype]
  simp only [Bool.true_and]
  rw [h12, h13]
  change (a == 0x88 && b == 0x8e) = (a == 0x88 && (b == 0x8e && true))
  rw [Bool.and_true]

end Lies

variable {e : Deaggregation} {nMsdu : ℕ}

/-- The packet of a subframe whose LLC/SNAP header is removed, in any memory that keeps it. -/
theorem clone_removed (h : Lies m pData s) (hle : s.content.length ≤ 1518)
    (hllc : llcRemoved s = true) {m' : Memory}
    (hkept : ∀ j, pData + 4 ≤ j → j < pData + 14 + s.content.length →
      m' j = e.rewritten m pData j) :
    m'.read (e.placed (converted m pData)).pPayload
      (e.placed (converted m pData)).payloadSize.toNat = e.packet s := by
  have hlen := llc_length hllc
  have htag := e.tagSize_le
  have hsize : (payloadSize m pData).toNat ≤ 1518 := Nat.le_trans (Nat.le_of_eq h.length) hle
  obtain ⟨hplace, hcount, -⟩ := e.placed_spec hsize
  rw [h.removes hlen, hllc, if_pos rfl] at hplace hcount
  rw [h.length] at hcount
  have hheader : (e.placed (converted m pData)).header = vlan8023HeaderCopy e.vlan
      (s.da.toList ++ (s.sa.toList ++ slice s.content 6 2)) := by
    rw [h.converted_removed hllc, e.placed_removed rfl]
  have hlength : (vlan8023HeaderCopy e.vlan
      (s.da.toList ++ (s.sa.toList ++ slice s.content 6 2))).length = 14 + e.tagSize := by
    apply e.header_length
    rw [List.length_append, List.length_append, Vector.length_toList, Vector.length_toList,
      slice, List.length_take, List.length_drop]
    omega
  have hrewritten : e.rewritten m pData = m.write (pData + 14 - e.tagSize - 6)
      (vlan8023HeaderCopy e.vlan (s.da.toList ++ (s.sa.toList ++ slice s.content 6 2))) := by
    rw [Deaggregation.rewritten, hheader, hplace]
  have hrewrittenRead : m'.read (pData + 14 - e.tagSize - 6) (s.content.length + e.tagSize + 6) =
      (e.rewritten m pData).read (pData + 14 - e.tagSize - 6) (s.content.length + e.tagSize + 6) :=
    Memory.read_congr fun j hj hj' => hkept j (by omega) (by omega)
  rw [hplace, hcount, hrewrittenRead]
  have hsplit : s.content.length + e.tagSize + 6 =
      14 + e.tagSize + (s.content.length - 8) := by omega
  have hbehind : pData + 14 - e.tagSize - 6 + (14 + e.tagSize) = pData + 14 + 8 := by omega
  have hfront : (e.rewritten m pData).read (pData + 14 - e.tagSize - 6) (14 + e.tagSize) =
      vlan8023HeaderCopy e.vlan (s.da.toList ++ (s.sa.toList ++ slice s.content 6 2)) := by
    rw [hrewritten, ← hlength]
    exact Memory.read_write_same _ _ _
  have hrest : (e.rewritten m pData).read (pData + 14 + 8) (s.content.length - 8) =
      s.content.drop 8 := by
    rw [hrewritten, Memory.read_write_disjoint _ (by omega),
      h.read_content (by omega), slice]
    exact List.take_of_length_le (Nat.le_of_eq (List.length_drop ..))
  rw [hsplit, Memory.read_add, hfront, hbehind, hrest, Deaggregation.packet, if_pos hllc]

/-- Any other packet has the wrong length. -/
theorem clone_kept (h : Lies m pData s) (hle : s.content.length ≤ 1518)
    (hllc : llcRemoved s = false) (m' : Memory) :
    m'.read (e.placed (converted m pData)).pPayload
      (e.placed (converted m pData)).payloadSize.toNat ≠ e.packet s := by
  intro heq
  have hsize : (payloadSize m pData).toNat ≤ 1518 := Nat.le_trans (Nat.le_of_eq h.length) hle
  obtain ⟨-, hcount, -⟩ := e.placed_spec hsize
  have hlen := congrArg List.length heq
  rw [Memory.read_length, hcount, h.length, Deaggregation.packet, hllc,
    if_neg Bool.false_ne_true, List.length_append, e.header_length s.header_length] at hlen
  split at hlen <;> omega

theorem take_reported (h : Lies m pData s) (hllc : llcRemoved s = true) :
    (e.take m pData nMsdu).reported =
      if eapolSubframe s && e.elemAllocated nMsdu then some (s.content.drop 8) else none := by
  have hlen := llc_length hllc
  have hpayload : m.read (pData + 14 + 8) (s.content.length - 8) = s.content.drop 8 := by
    rw [h.read_content (by omega), slice]
    exact List.take_of_length_le (Nat.le_of_eq (List.length_drop ..))
  rw [Deaggregation.take, Deaggregation.reports, h.isEapol_eq hllc, h.converted_removed hllc]
  dsimp only
  rw [h.size_sub_llc hlen, hpayload]

/-- A subframe that is taken comes up as it should exactly where it is handled. -/
theorem take_iff (h : Lies m pData s) (hle : s.content.length ≤ 1518) {m' : Memory}
    (hkept : ∀ j, pData + 4 ≤ j → j < pData + 14 + s.content.length →
      m' j = e.rewritten m pData j) :
    ((e.take m pData nMsdu).clone.map (fun c => m'.read c.start c.count) = e.wanted s ∧
      (e.mode = .sta → (e.take m pData nMsdu).reported = Deaggregation.wantedReport s)) ↔
      e.Handles nMsdu s := by
  have hclone : (e.take m pData nMsdu).clone.map (fun c => m'.read c.start c.count) =
      if e.cloned nMsdu then some (m'.read (e.placed (converted m pData)).pPayload
        (e.placed (converted m pData)).payloadSize.toNat) else none := by
    rw [Deaggregation.take]
    cases e.cloned nMsdu <;> rfl
  rw [hclone]
  by_cases heapol : e.mode = .sta ∧ eapolSubframe s = true
  · have hwanted : e.wanted s = none := if_pos heapol
    obtain ⟨hsta, heapol⟩ := heapol
    have hllc : llcRemoved s = true := by
      rw [eapolSubframe, Bool.and_eq_true] at heapol
      exact heapol.1
    rw [hwanted, take_reported h hllc, Deaggregation.wantedReport, heapol, Bool.true_and]
    constructor
    · rintro ⟨hnone, hreported⟩
      refine ⟨hllc, ?_, fun _ _ => ?_⟩
      · rw [hsta, heapol]
        cases hc : e.cloned nMsdu with
        | false => rfl
        | true =>
          rw [hc, if_pos rfl] at hnone
          cases hnone
      · cases ha : e.elemAllocated nMsdu with
        | true => rfl
        | false =>
          rw [ha] at hreported
          cases hreported hsta
    · intro hhandles
      have hcloned := hhandles.cloned
      rw [hsta, heapol] at hcloned
      refine ⟨?_, fun _ => if_pos (hhandles.elem hsta heapol)⟩
      rw [hcloned]
      rfl
  · have hno : (decide (e.mode = .sta) && eapolSubframe s) = false := by
      rw [Bool.eq_false_iff, ne_eq, Bool.and_eq_true, decide_eq_true_eq]
      exact heapol
    have hwanted : e.wanted s = some (e.packet s) := if_neg heapol
    rw [hwanted]
    constructor
    · rintro ⟨hsome, -⟩
      cases hc : e.cloned nMsdu with
      | false =>
        rw [hc] at hsome
        cases hsome
      | true =>
        rw [hc, if_pos rfl] at hsome
        refine ⟨?_, ?_, fun hsta hs => absurd ⟨hsta, hs⟩ heapol⟩
        · by_contra hllc
          exact clone_kept h hle (Bool.eq_false_iff.mpr hllc) m' (Option.some.inj hsome)
        · rw [hc, hno]
          rfl
    · intro hhandles
      have hcloned := hhandles.cloned
      rw [hno] at hcloned
      refine ⟨?_, fun hsta => ?_⟩
      · rw [hcloned, clone_removed h hle hhandles.llc hkept]
        rfl
      · have heapol' : eapolSubframe s = false := by
          rw [hsta] at hno
          exact hno
        rw [take_reported h hhandles.llc, Deaggregation.wantedReport, heapol']
        rfl

end Subframes

section Runs
variable {e : Deaggregation}

theorem encodeAmsdu_cons (s : Subframe) {subs : List Subframe} (h : subs ≠ []) :
    encodeAmsdu (s :: subs) = s.bytes ++ (s.padding ++ encodeAmsdu subs) := by
  cases subs with
  | nil => exact absurd rfl h
  | cons t subs => rw [encodeAmsdu, List.append_assoc]

theorem encodeAmsdu_length {subs : List Subframe} (h : subs ≠ []) :
    14 ≤ (encodeAmsdu subs).length := by
  cases subs with
  | nil => exact absurd rfl h
  | cons s subs =>
    cases subs with
    | nil =>
      rw [encodeAmsdu, s.bytes_length]
      exact Nat.le_add_right 14 _
    | cons t subs =>
      rw [encodeAmsdu, List.length_append, List.length_append, s.bytes_length]
      omega

theorem deaggregated_cons {s : Subframe} {subs : List Subframe} {later : AmsduRun}
    {reads : List Span} {t : MsduTaken} :
    e.Deaggregated (s :: subs) { later with reads := reads, taken := t :: later.taken } ↔
      (t.clone.map (fun c => later.mem.read c.start c.count) = e.wanted s ∧
        (e.mode = .sta → t.reported = Deaggregation.wantedReport s)) ∧
      e.Deaggregated subs later := by
  constructor
  · rintro ⟨hpackets, hreported⟩
    obtain ⟨hpacket, hpackets⟩ := List.cons.inj hpackets
    exact ⟨⟨hpacket, fun hsta => (List.cons.inj (hreported hsta)).1⟩, hpackets,
      fun hsta => (List.cons.inj (hreported hsta)).2⟩
  · rintro ⟨⟨hpacket, hreport⟩, hpackets, hreported⟩
    exact ⟨congrArg₂ List.cons hpacket hpackets,
      fun hsta => congrArg₂ List.cons (hreport hsta) (hreported hsta)⟩

theorem deaggregated_releases {subs : List Subframe} {run : AmsduRun} {n : ℕ} :
    e.Deaggregated subs { run with releases := n } ↔ e.Deaggregated subs run :=
  ⟨fun h => ⟨h.packets, h.reported⟩, fun h => ⟨h.packets, h.reported⟩⟩

/-- The packets are those of the subframes exactly where all are handled. -/
theorem loop_deaggregated (subs : List Subframe) {m : Memory} {pData i : ℕ}
    (h : m.read pData (encodeAmsdu subs).length = encodeAmsdu subs) :
    e.Deaggregated subs (e.loop m pData (encodeAmsdu subs).length i) ↔ e.HandlesAll i subs := by
  induction subs generalizing m pData i with
  | nil =>
    have hshort : (encodeAmsdu []).length ≤ 14 := Nat.zero_le _
    rw [Deaggregation.loop_short hshort]
    exact iff_of_true ⟨rfl, fun _ => rfl⟩ trivial
  | cons s subs ih =>
    have hfront : ∃ rest, encodeAmsdu (s :: subs) = s.bytes ++ rest ∧
        (subs = [] → rest = []) ∧ (subs ≠ [] → rest = s.padding ++ encodeAmsdu subs) := by
      by_cases hsubs : subs = []
      · subst hsubs
        exact ⟨[], (List.append_nil _).symm, fun _ => rfl, fun h => absurd rfl h⟩
      · exact ⟨_, encodeAmsdu_cons s hsubs, fun h => absurd h hsubs, fun _ => rfl⟩
    obtain ⟨rest, hbytes, hlast, hnext⟩ := hfront
    rw [hbytes] at h ⊢
    obtain ⟨hread, hrest⟩ := m.read_eq_append h
    have hlies := lies_of_read hread
    rw [s.bytes_length] at hrest
    have hlen : (s.bytes ++ rest).length = 14 + s.content.length + rest.length := by
      rw [List.length_append, s.bytes_length]
    have hempty {run : AmsduRun} (hrun : run.taken = []) :
        ¬e.Deaggregated (s :: subs) run := by
      intro hdeaggregated
      have hpackets := hdeaggregated.packets
      rw [AmsduRun.packets, hrun] at hpackets
      cases hpackets
    by_cases hshort : (s.bytes ++ rest).length ≤ 14
    · rw [Deaggregation.loop_short hshort]
      refine iff_of_false (hempty rfl) (fun hall => ?_)
      have := llc_length hall.1.llc
      omega
    by_cases hle : s.content.length ≤ 1518
    swap
    · have hno : ¬Accepts m pData (s.bytes ++ rest).length := by
        intro haccepts
        have := hlies.length ▸ haccepts.2.2
        exact hle this
      rw [Deaggregation.loop_refused (Nat.not_le.mp hshort) hno]
      exact iff_of_false (hempty rfl) (fun hall => hle hall.2.1)
    have hsize : (payloadSize m pData).toNat ≤ 1518 := Nat.le_trans (Nat.le_of_eq hlies.length) hle
    obtain ⟨hsub, hpadded⟩ := sizes_of_le hsize
    rw [hlies.length] at hsub hpadded
    have haccepts : Accepts m pData (s.bytes ++ rest).length :=
      ⟨Nat.not_le.mp hshort, by omega, hsize⟩
    rw [Deaggregation.loop_accepted haccepts]
    by_cases hsubs : subs = []
    · subst hsubs
      obtain rfl := hlast rfl
      have hstop : ¬Continues m pData (s.bytes ++ []).length := by
        rintro ⟨-, -, hlt⟩
        rw [List.length_nil] at hlen
        omega
      rw [if_neg hstop]
      have hcons := @deaggregated_cons e s [] ⟨e.rewritten m pData, i + 1, [], [], 0⟩
        (e.reads m pData i) (e.take m pData i)
      refine hcons.trans ?_
      rw [take_iff hlies hle (fun _ _ _ => rfl), Deaggregation.HandlesAll]
      exact and_congr_right fun _ => iff_of_true ⟨rfl, fun _ => rfl⟩
        ⟨hle, fun h => absurd rfl h, trivial⟩
    · obtain rfl := hnext hsubs
      obtain ⟨-, hlater⟩ := m.read_eq_append hrest
      have hmore := encodeAmsdu_length hsubs
      have hpad : (s.padding ++ encodeAmsdu subs).length =
          subframePadding s.content.length + (encodeAmsdu subs).length := by
        rw [List.length_append, s.padding_length]
      have hround : (s.content.length + 17) / 4 * 4 =
          14 + s.content.length + subframePadding s.content.length := by
        rw [subframePadding]
        omega
      rw [hround] at hpadded
      rw [s.padding_length] at hlater
      by_cases hgo : 15 ≤ s.content.length ∧ s.content.length ≤ 1514
      · have hcontinues : Continues m pData (s.bytes ++ (s.padding ++ encodeAmsdu subs)).length :=
          ⟨by omega, by omega, by omega⟩
        have hleft : (s.bytes ++ (s.padding ++ encodeAmsdu subs)).length -
            (paddedSize m pData).toNat = (encodeAmsdu subs).length := by omega
        have hplace : pData + (14 + s.content.length) + subframePadding s.content.length =
            pData + (paddedSize m pData).toNat := by omega
        rw [hplace] at hlater
        have hkeep : (e.rewritten m pData).read (pData + (paddedSize m pData).toNat)
            (encodeAmsdu subs).length = encodeAmsdu subs :=
          (Memory.read_congr fun j hj _ => e.rewritten_outside hsize (Or.inr (by omega))).trans hlater
        rw [if_pos hcontinues, hleft]
        refine deaggregated_cons.trans ?_
        rw [ih hkeep, take_iff hlies hle (fun j _ hj => e.loop_mem _ (by omega)),
          Deaggregation.HandlesAll]
        exact and_congr_right fun _ => ⟨fun hall => ⟨hle, fun _ => hgo, hall⟩, fun h => h.2.2⟩
      · have hstop : ¬Continues m pData (s.bytes ++ (s.padding ++ encodeAmsdu subs)).length := by
          rintro ⟨h32, h1528, -⟩
          have := subframePadding_lt s.content.length
          rw [subframePadding] at hround
          omega
        rw [if_neg hstop]
        refine iff_of_false (fun hdeaggregated => ?_) (fun hall => hgo (hall.2.2.1 hsubs))
        have hcount := congrArg List.length hdeaggregated.packets
        simp only [AmsduRun.packets, List.map_cons, List.map_nil, List.length_cons, List.length_nil,
          List.length_map] at hcount
        exact hsubs (List.length_eq_zero_iff.mp (by omega))

end Runs

/-- The places of the subframes that are taken. -/
def visited (m : Memory) (pData dataSize : ℕ) : List ℕ :=
  if Accepts m pData dataSize then
    if Continues m pData dataSize then
      pData :: visited m (pData + (paddedSize m pData).toNat)
        (dataSize - (paddedSize m pData).toNat)
    else [pData]
  else []
termination_by dataSize
decreasing_by
  have hcontinues : Continues m pData dataSize := ‹_›
  obtain ⟨h32, -, hlt⟩ := hcontinues
  omega

/-- The bytes that are read of the subframe at `pos`, the one with number `i`, are there: those that
are compared with the LLC/SNAP headers and the payload that goes to the MLME. -/
structure Deaggregation.ReadsFit (e : Deaggregation) (m : Memory) (size i pos : ℕ) : Prop where
  snap : pos + 20 ≤ size
  proto : hasSnap m (pos + 14) = true → pos + 22 ≤ size
  report : e.reports m pos i = true →
    (converted m pos).pData + (converted m pos).dataSize.toNat ≤ size

section Reads
variable {e : Deaggregation} {m m' : Memory} {pos left size i : ℕ}

theorem reads_inside_iff (h : 14 < left) (hsize : pos + left = size) :
    (∀ s ∈ e.reads m pos i, s.Inside size) ↔ e.ReadsFit m size i pos := by
  have hreads : e.reads m pos i = [⟨pos + 12, 2⟩, ⟨pos, 6⟩, ⟨pos + 6, 6⟩, ⟨pos + 14, 6⟩] ++
      ((if hasSnap m (pos + 14) then [⟨pos + 20, 2⟩] else []) ++
        if e.reports m pos i then
          [⟨(converted m pos).pData, (converted m pos).dataSize.toNat⟩] else []) := by
    rw [Deaggregation.reads]
    rw [show (converted m pos).reads = _ from convertTo8023_reads _ _ _ _ _]
    simp only [List.cons_append, List.nil_append]
  rw [hreads, List.forall_mem_append, List.forall_mem_append]
  simp only [List.forall_mem_cons, Span.Inside]
  constructor
  · rintro ⟨⟨-, -, -, hsnap, -⟩, hproto, hreport⟩
    refine ⟨by omega, fun hs => ?_, fun hr => ?_⟩
    · rw [if_pos hs, List.forall_mem_singleton] at hproto
      exact hproto
    · rw [if_pos hr, List.forall_mem_singleton] at hreport
      exact hreport
  · rintro ⟨hsnap, hproto, hreport⟩
    refine ⟨⟨by omega, by omega, by omega, by omega, List.forall_mem_nil _⟩, ?_, ?_⟩
    · split
      · rename_i hs
        rw [List.forall_mem_singleton]
        exact hproto hs
      · exact List.forall_mem_nil _
    · split
      · rename_i hr
        rw [List.forall_mem_singleton]
        exact hreport hr
      · exact List.forall_mem_nil _

/-- A subframe is seen alike in memories that agree from it on. -/
theorem seen_congr (h : ∀ j, pos ≤ j → m' j = m j) :
    payloadSize m' pos = payloadSize m pos ∧ converted m' pos = converted m pos := by
  have hread (k n : ℕ) : m'.read (pos + k) n = m.read (pos + k) n :=
    Memory.read_congr fun j hj _ => h j (by omega)
  have hsize : payloadSize m' pos = payloadSize m pos := by
    rw [payloadSize, payloadSize, h (pos + 13) (by omega), h (pos + 12) (by omega)]
  refine ⟨hsize, ?_⟩
  have h0 := hread 0 6
  rw [Nat.add_zero] at h0
  have h20 := hread 20 2
  rw [converted, converted, hsize, h0, hread 6 6, convertTo8023, convertTo8023]
  simp only [hasSnap, keepsSnap, hread 14 6, show pos + 14 + 6 = pos + 20 from rfl, h20]

theorem loop_inside (left : ℕ) {m' : Memory} {pData i : ℕ} (h : ∀ j, pData ≤ j → m' j = m j)
    (hsize : pData + left = size) :
    (∀ s ∈ (e.loop m' pData left i).reads, s.Inside size) ↔
      ∀ k pos, (visited m pData left)[k]? = some pos → e.ReadsFit m size (i + k) pos := by
  induction left using Nat.strong_induction_on generalizing m' pData i with
  | _ left ih =>
    obtain ⟨hpayload, hconverted⟩ := seen_congr h
    have haccepts : Accepts m' pData left ↔ Accepts m pData left := by
      rw [Accepts, Accepts, subFrameSize, subFrameSize, hpayload]
    have hpadded : paddedSize m' pData = paddedSize m pData := by
      rw [paddedSize, paddedSize, subFrameSize, subFrameSize, hpayload]
    have hreports : e.reports m' pData i = e.reports m pData i := by
      rw [Deaggregation.reports, Deaggregation.reports, isEapol, isEapol, hconverted]
    have hreads : e.reads m' pData i = e.reads m pData i := by
      rw [Deaggregation.reads, Deaggregation.reads, hconverted, hreports]
    rw [visited]
    by_cases hno : Accepts m pData left
    swap
    · rw [if_neg hno]
      refine iff_of_true ?_ (fun k pos hk => by cases hk)
      by_cases hshort : left ≤ 14
      · rw [Deaggregation.loop_short hshort]
        exact List.forall_mem_nil _
      · rw [Deaggregation.loop_refused (Nat.not_le.mp hshort) (fun h => hno (haccepts.mp h)),
          List.forall_mem_singleton]
        simp only [Span.Inside]
        omega
    have hfirst := reads_inside_iff (e := e) (m := m) (i := i) hno.1 hsize
    rw [if_pos hno, Deaggregation.loop_accepted (haccepts.mpr hno), hreads]
    by_cases hgo : Continues m pData left
    · have hgo' : Continues m' pData left := by
        rw [Continues, hpadded]
        exact hgo
      have hle : (payloadSize m' pData).toNat ≤ 1518 := (haccepts.mpr hno).2.2
      have h32 := hgo.1
      have hlt := hgo.2.2
      have hagree : ∀ j, pData + (paddedSize m pData).toNat ≤ j →
          e.rewritten m' pData j = m j := by
        intro j hj
        exact (e.rewritten_outside hle (Or.inr (by omega))).trans (h j (by omega))
      have hlater := @ih (left - (paddedSize m pData).toNat) (by omega) (e.rewritten m' pData)
        (pData + (paddedSize m pData).toNat) (i + 1) hagree (by omega)
      rw [if_pos hgo', if_pos hgo, hpadded]
      dsimp only
      rw [List.forall_mem_append, hfirst, hlater]
      constructor
      · rintro ⟨hfit, hfits⟩ k pos hk
        cases k with
        | zero =>
          cases hk
          exact hfit
        | succ k =>
          have := hfits k pos hk
          rwa [Nat.add_right_comm, Nat.add_assoc] at this
      · intro hfits
        refine ⟨hfits 0 pData rfl, fun k pos hk => ?_⟩
        have := hfits (k + 1) pos hk
        rwa [Nat.add_right_comm, Nat.add_assoc]
    · have hgo' : ¬Continues m' pData left := by
        rw [Continues, hpadded]
        exact hgo
      rw [if_neg hgo', if_neg hgo]
      refine hfirst.trans ⟨fun hfit k pos hk => ?_, fun hfits => hfits 0 pData rfl⟩
      cases k with
      | zero =>
        cases hk
        exact hfit
      | succ k => cases hk

end Reads

/-- The subframes of an A-MSDU come up exactly where all are handled; any other body is read inside
exactly where what is read of each subframe that is taken is there. -/
theorem Deaggregation.deaggregateAmsduAnnounce_sound_iff (e : Deaggregation) (m : Memory)
    (dataSize : ℕ) :
    ((∀ subs, m.read 0 dataSize = encodeAmsdu subs →
        e.Deaggregated subs (e.deaggregateAmsduAnnounce m dataSize)) ∧
      ((¬∃ subs, m.read 0 dataSize = encodeAmsdu subs) →
        (∀ s ∈ (e.deaggregateAmsduAnnounce m dataSize).reads, s.Inside dataSize) ∧
          (e.deaggregateAmsduAnnounce m dataSize).releases = 1)) ↔
      (∀ subs, m.read 0 dataSize = encodeAmsdu subs → e.HandlesAll 0 subs) ∧
        ((¬∃ subs, m.read 0 dataSize = encodeAmsdu subs) →
          ∀ i pos, (visited m 0 dataSize)[i]? = some pos → e.ReadsFit m dataSize i pos) := by
  refine and_congr (forall_congr' fun subs => forall_congr' fun hbody => ?_)
    (forall_congr' fun _ => ?_)
  · have hlen := congrArg List.length hbody
    rw [Memory.read_length] at hlen
    subst hlen
    exact deaggregated_releases.trans (loop_deaggregated subs hbody)
  · have hinside := @loop_inside e m dataSize dataSize m 0 0 (fun _ _ => rfl) (Nat.zero_add _)
    simp only [Nat.zero_add] at hinside
    have hreleases : (e.deaggregateAmsduAnnounce m dataSize).releases = 1 :=
      congrArg (· + 1) (e.loop_releases dataSize m 0 0)
    exact (and_iff_left hreleases).trans hinside

/-- A packet without LLC/SNAP header. -/
def bareSubframe : Subframe where
  da := localAddr 1
  sa := localAddr 2
  content := List.replicate 46 0
  padding := []
  content_lt := by decide
  padding_length := by decide

def bareAmsdu : Memory := Memory.write (fun _ => 0) 0 bareSubframe.bytes

def stationDeaggregation : Deaggregation where
  cfg := ⟨⟨0, 0, Nat.le_refl _, Nat.zero_le _⟩, fun _ => 0, fun _ => 0⟩
  mode := .sta
  fromWhichBssid := 0
  elemAllocated := fun _ => true
  cloned := fun _ => true

/-- It comes up without an Ethernet header. -/
theorem bareAmsdu_headless : ¬∀ (e : Deaggregation) (m : Memory) (dataSize : ℕ),
    (∀ subs, m.read 0 dataSize = encodeAmsdu subs →
        e.Deaggregated subs (e.deaggregateAmsduAnnounce m dataSize)) ∧
      ((¬∃ subs, m.read 0 dataSize = encodeAmsdu subs) →
        (∀ s ∈ (e.deaggregateAmsduAnnounce m dataSize).reads, s.Inside dataSize) ∧
          (e.deaggregateAmsduAnnounce m dataSize).releases = 1) := by
  intro hall
  have hbody : bareAmsdu.read 0 60 = encodeAmsdu [bareSubframe] :=
    Memory.read_write_same _ 0 bareSubframe.bytes
  have hdeaggregated := (hall stationDeaggregation bareAmsdu 60).1 _ hbody
  have hloop := deaggregated_releases.mp hdeaggregated
  have hhandles := ((loop_deaggregated [bareSubframe] hbody).mp hloop).1.llc
  exact absurd hhandles (by decide)

end Rt5572

import StandaloneDrivers.Rtl8188eu.Xmit
import Mathlib.Tactic

/-! Where `rtw_xmitframe_coalesce` puts the fragments of a frame. -/
namespace Rtl8188eu
open Foundations

namespace XmitFrame
variable (x : XmitFrame)

/-- The packet fits in one fragment. -/
def SingleFragment : Prop := x.bmcst = true ∨ x.pktfile.length ≤ x.readLen 8

instance : Decidable x.SingleFragment := inferInstanceAs (Decidable (_ ∨ _))

/-- The payload of the first fragment. -/
def firstExtent : Extent where
  start := x.hwHdrOffset + x.attrib.payload
  length := 8 + (x.pktfile.take (x.readLen 8)).length

variable {x} {c c' : Coalesced} {fuel : ℕ}

/-- Every round puts fragments behind the ones that are there. -/
theorem coalesceLoop_frags (h : x.coalesceLoop fuel c = some c') :
    ∃ rest, rest ≠ [] ∧ c'.frags = c.frags ++ rest := by
  induction fuel generalizing c with
  | zero => cases h
  | succ fuel ih =>
    unfold coalesceLoop at h
    split at h
    · cases h
      exact ⟨[x.extent c], by simp, rfl⟩
    · obtain ⟨rest, -, hrest⟩ := ih h
      refine ⟨x.extent c :: rest, by simp, ?_⟩
      rw [hrest, nextRound, List.append_assoc]
      rfl

theorem llc_of_frags (h : c.frags ≠ []) : x.llc c = [] := if_neg (by simpa using h)

/-- While a later fragment has room, the loop ends after at most one round for each byte that is
left and one more. -/
theorem coalesceLoop_total (hroom : 0 < x.readLen 0) (hfrags : c.frags ≠ [])
    (hfuel : c.rest.length < fuel) : ∃ c', x.coalesceLoop fuel c = some c' := by
  induction fuel generalizing c with
  | zero => omega
  | succ fuel ih =>
    unfold coalesceLoop
    split
    · exact ⟨_, rfl⟩
    · rename_i hlast
      have hleft : (x.nextRound c).rest = c.rest.drop (x.readLen 0) := by
        show c.rest.drop (x.readLen (x.llc c).length) = _
        rw [llc_of_frags hfrags]
        rfl
      have hne : c.rest ≠ [] := by
        intro hnil
        apply hlast
        simp [isLast, left, hnil]
      have hpos := List.length_pos_iff.mpr hne
      apply ih
      · simp [nextRound]
      · rw [hleft, List.length_drop]
        omega

/-- The state before the first round. -/
structure Start (x : XmitFrame) (c : Coalesced) : Prop where
  rest : c.rest = x.pktfile
  memStart : c.memStart = x.hwHdrOffset
  frags : c.frags = []
  header : ∃ seqnum, x.rtwMakeWlanhdr x.buf x.hwHdrOffset = some (c.mem, seqnum)

namespace Start
variable (h : x.Start c)
include h

theorem llc : x.llc c = rtwPutSnap x.attrib.etherType := if_pos (by rw [h.frags]; rfl)

theorem left : x.left c = x.pktfile.drop (x.readLen 8) := by
  rw [XmitFrame.left, h.llc, h.rest]
  rfl

theorem extent : x.extent c = x.firstExtent := by
  rw [XmitFrame.extent, chunk, h.llc, h.rest, h.memStart]
  rfl

theorem isLast : x.isLast c = true ↔ x.SingleFragment := by
  rw [XmitFrame.isLast, h.left, Bool.or_eq_true, List.isEmpty_iff, List.drop_eq_nil_iff]
  rfl

end Start

theorem mpduLen_zero (x : XmitFrame) : x.mpduLen 0 = x.mpduLen 8 + 8 := by
  unfold mpduLen
  omega

/-- A packet that does not fit in the first fragment has left room in it for its headers. -/
theorem mpduLen_of_not_single (h : ¬ x.SingleFragment) :
    0 ≤ x.mpduLen 8 ∧ (x.readLen 8 : ℤ) = x.mpduLen 8 ∧ 0 < x.readLen 0 := by
  obtain ⟨hbmcst, hlen⟩ := not_or.mp h
  have hpktfile := x.pktfile_lt
  have hhdrlen := x.hdrlen_lt
  have hfragLen := x.fragLen_lt
  have hiv : x.attrib.ivLen ≤ 8 := by
    unfold PktAttrib.ivLen
    split <;> norm_num
  have hreserved : x.attrib.reserved ≤ 8 := by
    unfold PktAttrib.reserved PktAttrib.icvLen
    split
    · split <;> norm_num
    · norm_num
  have hread (llcSz : ℕ) : x.readLen llcSz = (x.mpduLen llcSz % 2 ^ 32).toNat := if_neg hbmcst
  rw [hread] at hlen
  have hzero := x.mpduLen_zero
  have hupper : x.mpduLen 8 < 2 ^ 32 - 8 := by
    unfold mpduLen
    omega
  have hlower : -2 ^ 17 < x.mpduLen 8 := by
    unfold mpduLen
    omega
  rw [hread, hread, hzero]
  omega

theorem coalesceFragments_some (h : x.coalesceFragments = some c) :
    ∃ start, x.Start start ∧ x.coalesceLoop (x.pktfile.length + 2) start = some c := by
  unfold coalesceFragments at h
  obtain ⟨psta, -, h⟩ := Option.bind_eq_some_iff.mp h
  obtain ⟨r, hr, h⟩ := Option.bind_eq_some_iff.mp h
  exact ⟨_, ⟨rfl, rfl, rfl, r.2, hr⟩, h⟩

/-- The station is known. -/
theorem stainfo_some (h : x.coalesceFragments = some c) : ∃ stainfo, x.stainfo = some stainfo := by
  unfold coalesceFragments at h
  obtain ⟨psta, hpsta, -⟩ := Option.bind_eq_some_iff.mp h
  unfold stainfo
  cases hslot : x.attrib.psta with
  | none => exact ⟨psta, hpsta⟩
  | some slot => exact ⟨_, List.getElem?_eq_getElem (x.psta_lt slot hslot)⟩

/-- The loop never runs out of rounds. -/
theorem coalesceLoop_start (h : x.Start c) :
    ∃ c', x.coalesceLoop (x.pktfile.length + 2) c = some c' := by
  unfold coalesceLoop
  split
  · exact ⟨_, rfl⟩
  · rename_i hlast
    obtain ⟨-, -, hroom⟩ := mpduLen_of_not_single (mt h.isLast.mpr hlast)
    apply coalesceLoop_total hroom
    · simp [nextRound]
    · show (x.left c).length < _
      rw [h.left, List.length_drop]
      omega

/-- A single fragment. -/
theorem coalesce_single (hs : x.SingleFragment) (h : x.coalesceFragments = some c) :
    c.frags = [x.firstExtent] ∧
      c.lastTxcmdsz = x.attrib.payload + x.attrib.reserved + x.firstExtent.length := by
  obtain ⟨start, hstart, h⟩ := coalesceFragments_some h
  unfold coalesceLoop at h
  rw [if_pos (hstart.isLast.mpr hs)] at h
  cases h
  constructor
  · rw [lastRound, hstart.frags, hstart.extent]
    rfl
  · simp only [lastRound, chunk, hstart.llc, hstart.rest, firstExtent]
    have hllc : (rtwPutSnap x.attrib.etherType).length = 8 := rfl
    rw [hllc]
    omega

theorem frameCtl_cons : ∃ b, x.frameCtl = [x.attrib.subtype, b] := by
  unfold frameCtl
  dsimp only
  split
  · exact ⟨_, rfl⟩
  · exact ⟨_, rfl⟩

theorem rtwMakeWlanhdr_subtype {mem : Memory} {hdr seqnum : ℕ}
    (h : x.rtwMakeWlanhdr x.buf hdr = some (mem, seqnum)) : mem hdr = x.attrib.subtype := by
  have hbase : ((x.buf.write hdr (List.replicate 64 0)).write hdr x.frameCtl) hdr =
      x.attrib.subtype := by
    obtain ⟨b, hb⟩ := x.frameCtl_cons
    simp [hb, Memory.write]
  have hge := x.hdrlen_ge
  unfold rtwMakeWlanhdr at h
  dsimp only at h
  split at h
  · obtain ⟨psta, -, h⟩ := Option.bind_eq_some_iff.mp h
    obtain ⟨r, -, h⟩ := Option.map_eq_some_iff.mp h
    obtain ⟨rfl, -⟩ := Prod.mk.inj h
    rw [Memory.write_outside _ (by omega)]
    split
    · rw [Memory.write_outside _ (by omega), Memory.write_outside _ (by omega)]
      exact hbase
    · rw [Memory.write_outside _ (by omega)]
      exact hbase
  · obtain ⟨rfl, -⟩ := Prod.mk.inj (Option.some.inj h)
    exact hbase

/-- The header of a single fragment, up to the bit that announces another one. -/
theorem single_header (hs : x.SingleFragment) (h : x.coalesceFragments = some c) :
    ∃ mem seqnum, x.rtwMakeWlanhdr x.buf x.hwHdrOffset = some (mem, seqnum) ∧
      ∀ i < x.attrib.hdrlen, i ≠ 1 → c.mem (x.hwHdrOffset + i) = mem (x.hwHdrOffset + i) := by
  obtain ⟨start, hstart, h⟩ := coalesceFragments_some h
  obtain ⟨seqnum, hheader⟩ := hstart.header
  refine ⟨start.mem, seqnum, hheader, ?_⟩
  intro i hi hone
  have hextent : (x.extent start).start = x.hwHdrOffset + x.attrib.hdrlen + x.attrib.ivLen := by
    rw [hstart.extent]
    exact (Nat.add_assoc _ _ _).symm
  have hfc (b : UInt8) : x.hwHdrOffset + i < x.hwHdrOffset + 1 ∨
      x.hwHdrOffset + 1 + [b].length ≤ x.hwHdrOffset + i := by
    simp only [List.length_singleton]
    omega
  unfold coalesceLoop at h
  rw [if_pos (hstart.isLast.mpr hs)] at h
  cases h
  simp only [lastRound, fragmentWritten, hstart.memStart]
  rw [Memory.write_outside _ (hfc _), Memory.write_outside _ (by omega),
    Memory.write_outside _ (by omega), Memory.write_outside _ (by omega),
    Memory.write_outside _ (hfc _)]

/-- Several fragments: the first one is shorter by four bytes than the ciphers and the Michael
code take it to be. -/
theorem coalesce_several (hs : ¬ x.SingleFragment) (h : x.coalesceFragments = some c) :
    ∃ rest, rest ≠ [] ∧ c.frags = x.firstExtent :: rest ∧
      x.firstExtent.length + 4 = x.fragLen - x.attrib.payload - x.attrib.reserved := by
  obtain ⟨start, hstart, h⟩ := coalesceFragments_some h
  obtain ⟨hnonneg, hread, -⟩ := mpduLen_of_not_single hs
  unfold coalesceLoop at h
  rw [if_neg (mt hstart.isLast.mp hs)] at h
  obtain ⟨rest, hne, hrest⟩ := coalesceLoop_frags h
  refine ⟨rest, hne, ?_, ?_⟩
  · rw [hrest, nextRound, hstart.frags, hstart.extent]
    rfl
  · have hlen : x.readLen 8 < x.pktfile.length := by
      have := (not_or.mp hs).2
      omega
    simp only [firstExtent, List.length_take, Nat.min_eq_left hlen.le, PktAttrib.payload]
    unfold mpduLen at hread hnonneg
    omega

end XmitFrame

end Rtl8188eu

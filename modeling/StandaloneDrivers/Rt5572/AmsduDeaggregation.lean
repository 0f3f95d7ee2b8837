import StandaloneDrivers.Rt5572.EthernetHeader

/-! The loop of `deaggregate_AMSDU_announce` (common/cmm_data.c): it writes Ethernet headers into
the buffer that it still reads, and passes up clones that share it. -/
namespace Rt5572
open Foundations

/-- What an A-MSDU meets: the mode and the VLANs, and whether there is memory for the element and
for the clone of a subframe. -/
structure Deaggregation where
  cfg : VlanCfg
  mode : RxMode
  fromWhichBssid : UInt8
  elemAllocated : ℕ → Bool
  cloned : ℕ → Bool

/-- What is done with a subframe: the payload that is reported to the MLME, and the place of the
packet that is passed up. -/
structure MsduTaken where
  reported : Option (List UInt8)
  clone : Option Span

structure AmsduRun where
  mem : Memory
  nMsdu : ℕ
  reads : List Span
  taken : List MsduTaken
  releases : ℕ

namespace Amsdu
variable (m : Memory) (pData : ℕ)

def payloadSize : UInt16 := (m (pData + 13)).toUInt16 + ((m (pData + 12)).toUInt16 <<< 8)

def subFrameSize : UInt16 := payloadSize m pData + 14

/-- `SubFrameSize` with the padding. -/
def paddedSize : UInt16 := (subFrameSize m pData + 3) &&& 0xfffc

def converted : Converted :=
  convertTo8023 m (m.read pData 6) (m.read (pData + 6) 6) (pData + 14) (payloadSize m pData)

def isEapol : Bool :=
  (converted m pData).header8023.getD 12 0 == 0x88 &&
    (converted m pData).header8023.getD 13 0 == 0x8e

end Amsdu

open Amsdu

/-- The place of a packet, and the header that is copied there. -/
structure Placed where
  pPayload : ℕ
  payloadSize : UInt16
  header : List UInt8

namespace Deaggregation
variable (e : Deaggregation)

/-- `VLAN_Size` -/
def vlanSize : ℕ :=
  if e.fromWhichBssid.toNat < e.cfg.bssidNum then
    if e.cfg.vlanVid e.fromWhichBssid.toNat ≠ 0 then 4 else 0
  else 0

def placed (c : Converted) : Placed :=
  match e.mode with
  | .ap =>
      let header := vlan8023HeaderCopy (e.cfg.mbssVlanInfoGet e.fromWhichBssid) c.header8023
      if c.removedLlcSnap then
        ⟨c.pData - (14 + e.vlanSize), c.dataSize + UInt16.ofNat (14 + e.vlanSize), header⟩
      else ⟨c.pData - e.vlanSize, c.dataSize + UInt16.ofNat e.vlanSize, header⟩
  | .sta =>
      if c.removedLlcSnap then ⟨c.pData - 14, c.dataSize + 14, c.header8023⟩
      else ⟨c.pData, c.dataSize, []⟩

/-- Whether the payload goes to the MLME. -/
def reports (m : Memory) (pData nMsdu : ℕ) : Bool := isEapol m pData && e.elemAllocated nMsdu

def take (m : Memory) (pData nMsdu : ℕ) : MsduTaken :=
  let c := converted m pData
  let p := e.placed c
  { reported := if e.reports m pData nMsdu then some (m.read c.pData c.dataSize.toNat) else none
    clone := if e.cloned nMsdu then some ⟨p.pPayload, p.payloadSize.toNat⟩ else none }

/-- The header of the packet in its place. -/
def rewritten (m : Memory) (pData : ℕ) : Memory :=
  let p := e.placed (converted m pData)
  m.write p.pPayload p.header

def reads (m : Memory) (pData nMsdu : ℕ) : List Span :=
  let c := converted m pData
  ⟨pData + 12, 2⟩ :: ⟨pData, 6⟩ :: ⟨pData + 6, 6⟩ :: c.reads ++
    if e.reports m pData nMsdu then [⟨c.pData, c.dataSize.toNat⟩] else []

/-- The loop, with `nMsdu` subframes behind it. -/
def loop (m : Memory) (pData dataSize nMsdu : ℕ) : AmsduRun :=
  if dataSize ≤ 14 then ⟨m, nMsdu, [], [], 0⟩
  else if dataSize < (subFrameSize m pData).toNat ∨ 1518 < payloadSize m pData then
    ⟨m, nMsdu + 1, [⟨pData + 12, 2⟩], [], 0⟩
  else
    let m' := e.rewritten m pData
    let reads := e.reads m pData nMsdu
    let taken := e.take m pData nMsdu
    let padded := paddedSize m pData
    if 1528 < padded ∨ padded < 32 then ⟨m', nMsdu + 1, reads, [taken], 0⟩
    else if padded.toNat < dataSize then
      let later := loop m' (pData + padded.toNat) (dataSize - padded.toNat) (nMsdu + 1)
      { later with reads := reads ++ later.reads, taken := taken :: later.taken }
    else ⟨m', nMsdu + 1, reads, [taken], 0⟩
termination_by dataSize
decreasing_by
  have hpadded : 32 ≤ (paddedSize m pData).toNat := by
    rename_i h _
    exact UInt16.le_iff_toNat_le.mp (UInt16.not_lt.mp (not_or.mp h).2)
  omega

/-- `deaggregate_AMSDU_announce` on the `dataSize` bytes that lie in `m` from the start. -/
def deaggregateAmsduAnnounce (m : Memory) (dataSize : ℕ) : AmsduRun :=
  let run := e.loop m 0 dataSize 0
  { run with releases := run.releases + 1 }

end Deaggregation

/-- The packets that come up of the subframes, one by one, as the buffer holds them at the end. -/
def AmsduRun.packets (run : AmsduRun) : List (Option (List UInt8)) :=
  run.taken.map fun t => t.clone.map fun c => run.mem.read c.start c.count

def AmsduRun.reported (run : AmsduRun) : List (Option (List UInt8)) :=
  run.taken.map MsduTaken.reported

namespace Amsdu

/-- The subframe at `pData` is not refused for its length. -/
def Accepts (m : Memory) (pData dataSize : ℕ) : Prop :=
  14 < dataSize ∧ (subFrameSize m pData).toNat ≤ dataSize ∧ (payloadSize m pData).toNat ≤ 1518

/-- And there is another one behind it. -/
def Continues (m : Memory) (pData dataSize : ℕ) : Prop :=
  32 ≤ (paddedSize m pData).toNat ∧ (paddedSize m pData).toNat ≤ 1528 ∧
    (paddedSize m pData).toNat < dataSize

instance (m : Memory) (pData dataSize : ℕ) : Decidable (Accepts m pData dataSize) :=
  inferInstanceAs (Decidable (_ ∧ _ ∧ _))

instance (m : Memory) (pData dataSize : ℕ) : Decidable (Continues m pData dataSize) :=
  inferInstanceAs (Decidable (_ ∧ _ ∧ _))

theorem and_fffc {n : ℕ} (h : n < 65536) : n &&& 0xfffc = n / 4 * 4 := by
  apply Nat.eq_of_testBit_eq
  intro i
  have hmask : (0xfffc : ℕ) = (2 ^ 14 - 1) <<< 2 := rfl
  rw [Nat.testBit_and, hmask, Nat.testBit_shiftLeft, Nat.testBit_two_pow_sub_one,
    show n / 4 * 4 = (n >>> 2) <<< 2 by rw [Nat.shiftLeft_eq, Nat.shiftRight_eq_div_pow],
    Nat.testBit_shiftLeft, Nat.testBit_shiftRight]
  by_cases hi : 2 ≤ i
  · rw [Nat.add_sub_cancel' hi]
    by_cases hlt : i - 2 < 14
    · simp only [hi, hlt, decide_true, Bool.and_true, Bool.true_and]
    · have hpow : 2 ^ 16 ≤ 2 ^ i := Nat.pow_le_pow_right Nat.two_pos (by omega)
      have hbit : n.testBit i = false := Nat.testBit_lt_two_pow (Nat.lt_of_lt_of_le h hpow)
      simp only [hbit, Bool.false_and, Bool.and_false]
  · simp only [ge_iff_le, hi, decide_false, Bool.false_and, Bool.and_false]

/-- The sizes of a subframe that is taken. -/
theorem sizes_of_le {m : Memory} {pData : ℕ} (h : (payloadSize m pData).toNat ≤ 1518) :
    (subFrameSize m pData).toNat = (payloadSize m pData).toNat + 14 ∧
      (paddedSize m pData).toNat = ((payloadSize m pData).toNat + 17) / 4 * 4 := by
  have hsub : (subFrameSize m pData).toNat = (payloadSize m pData).toNat + 14 := by
    rw [subFrameSize, UInt16.toNat_add]
    simp only [UInt16.reduceToNat]
    omega
  refine ⟨hsub, ?_⟩
  have hsum : (subFrameSize m pData + 3).toNat = (payloadSize m pData).toNat + 17 := by
    rw [UInt16.toNat_add, hsub]
    simp only [UInt16.reduceToNat]
    omega
  rw [paddedSize, UInt16.toNat_and, hsum]
  exact and_fffc (by omega)

end Amsdu

namespace Deaggregation
variable {e : Deaggregation} {m : Memory} {pData dataSize nMsdu : ℕ}

theorem loop_short (h : dataSize ≤ 14) : e.loop m pData dataSize nMsdu = ⟨m, nMsdu, [], [], 0⟩ := by
  rw [loop, if_pos h]

theorem loop_refused (h : 14 < dataSize) (hno : ¬Accepts m pData dataSize) :
    e.loop m pData dataSize nMsdu = ⟨m, nMsdu + 1, [⟨pData + 12, 2⟩], [], 0⟩ := by
  have hbad : dataSize < (subFrameSize m pData).toNat ∨ 1518 < payloadSize m pData := by
    rw [UInt16.lt_iff_toNat_lt]
    have hbound : (1518 : UInt16).toNat = 1518 := rfl
    rw [Accepts] at hno
    omega
  rw [loop, if_neg (by omega), if_pos hbad]

theorem loop_accepted (h : Accepts m pData dataSize) :
    e.loop m pData dataSize nMsdu =
      if Continues m pData dataSize then
        let later := e.loop (e.rewritten m pData) (pData + (paddedSize m pData).toNat)
          (dataSize - (paddedSize m pData).toNat) (nMsdu + 1)
        { later with
          reads := e.reads m pData nMsdu ++ later.reads
          taken := e.take m pData nMsdu :: later.taken }
      else ⟨e.rewritten m pData, nMsdu + 1, e.reads m pData nMsdu, [e.take m pData nMsdu], 0⟩ := by
  have hok : ¬(dataSize < (subFrameSize m pData).toNat ∨ 1518 < payloadSize m pData) := by
    rw [UInt16.lt_iff_toNat_lt]
    have hbound : (1518 : UInt16).toNat = 1518 := rfl
    have := h.2
    omega
  rw [loop, if_neg (Nat.not_le.mpr h.1), if_neg hok]
  have hhigh : (1528 : UInt16).toNat = 1528 := rfl
  have hlow : (32 : UInt16).toNat = 32 := rfl
  by_cases hc : Continues m pData dataSize
  · rw [if_pos hc]
    obtain ⟨h32, h1528, hlt⟩ := hc
    have hsize : ¬(1528 < paddedSize m pData ∨ paddedSize m pData < 32) := by
      rw [UInt16.lt_iff_toNat_lt, UInt16.lt_iff_toNat_lt]
      omega
    simp only [if_neg hsize, if_pos hlt]
  · rw [if_neg hc]
    by_cases hsize : 1528 < paddedSize m pData ∨ paddedSize m pData < 32
    · simp only [if_pos hsize]
    · have hlt : ¬(paddedSize m pData).toNat < dataSize := by
        rw [UInt16.lt_iff_toNat_lt, UInt16.lt_iff_toNat_lt] at hsize
        rw [Continues] at hc
        omega
      simp only [if_neg hsize, if_neg hlt]

variable (e)

/-- The VLAN of the packets that come up. -/
def vlan : UInt16 × UInt16 :=
  match e.mode with
  | .ap => e.cfg.mbssVlanInfoGet e.fromWhichBssid
  | .sta => (0, 0)

def tagSize : ℕ :=
  match e.mode with
  | .ap => e.vlanSize
  | .sta => 0

theorem vlanSize_eq :
    e.vlanSize = if (e.cfg.mbssVlanInfoGet e.fromWhichBssid).1 ≠ 0 then 4 else 0 := by
  have hnum : e.cfg.bssidNum ≤ MacTab.hwBeaconMaxNum :=
    Nat.le_trans e.cfg.bssidNum_le e.cfg.maxMbssidNum_le
  by_cases htag : e.fromWhichBssid.toNat < e.cfg.bssidNum ∧
      e.cfg.vlanVid e.fromWhichBssid.toNat ≠ 0
  · obtain ⟨hlt, hvid⟩ := htag
    have hinfo : (e.cfg.mbssVlanInfoGet e.fromWhichBssid).1 =
        e.cfg.vlanVid e.fromWhichBssid.toNat :=
      congrArg Prod.fst (if_pos ⟨hlt, Nat.lt_of_lt_of_le hlt hnum, hvid⟩)
    rw [vlanSize, if_pos hlt, if_pos hvid, hinfo, if_pos hvid]
  · have hinfo : (e.cfg.mbssVlanInfoGet e.fromWhichBssid).1 = 0 :=
      congrArg Prod.fst (if_neg fun h => htag ⟨h.1, h.2.2⟩)
    rw [hinfo, if_neg (fun h => h rfl), vlanSize]
    by_cases hlt : e.fromWhichBssid.toNat < e.cfg.bssidNum
    · rw [if_pos hlt, if_neg (fun h => htag ⟨hlt, h⟩)]
    · rw [if_neg hlt]

theorem tagSize_eq : e.tagSize = if e.vlan.1 ≠ 0 then 4 else 0 := by
  rw [tagSize, vlan]
  cases e.mode with
  | ap => exact e.vlanSize_eq
  | sta => rfl

theorem tagSize_le : e.tagSize ≤ 4 := by
  rw [tagSize_eq]
  split <;> omega

theorem header_length {pHeader8023 : List UInt8} (h : pHeader8023.length = 14) :
    (vlan8023HeaderCopy e.vlan pHeader8023).length = 14 + e.tagSize := by
  rw [vlan8023HeaderCopy_length _ (by omega), tagSize_eq, h]

theorem placed_removed {c : Converted} (h : c.removedLlcSnap = true) :
    e.placed c = ⟨c.pData - (14 + e.tagSize), c.dataSize + UInt16.ofNat (14 + e.tagSize),
      vlan8023HeaderCopy e.vlan c.header8023⟩ := by
  rw [placed, tagSize, vlan]
  cases e.mode with
  | ap => exact if_pos h
  | sta => exact if_pos h

theorem placed_kept {c : Converted} (h : c.removedLlcSnap = false) :
    e.placed c = ⟨c.pData - e.tagSize, c.dataSize + UInt16.ofNat e.tagSize,
      if e.mode = .ap then vlan8023HeaderCopy e.vlan c.header8023 else []⟩ := by
  have hneg : ¬c.removedLlcSnap = true := by
    rw [h]
    decide
  rw [placed, tagSize, vlan]
  cases e.mode with
  | ap => exact if_neg hneg
  | sta =>
    have hsize : c.dataSize + UInt16.ofNat 0 = c.dataSize := UInt16.add_zero _
    refine (if_neg hneg).trans ?_
    dsimp only
    rw [hsize]
    rfl

theorem converted_header_length (m : Memory) (pData : ℕ) :
    (converted m pData).header8023.length = 14 := by
  rw [converted, convertTo8023_header]
  split <;> simp only [List.length_append, Memory.read_length, llcLen, List.length_cons,
    List.length_nil]

/-- Where a packet lies: at the end of its subframe, in front of which the header is written. -/
theorem placed_spec (h : (payloadSize m pData).toNat ≤ 1518) :
    (e.placed (converted m pData)).pPayload =
        pData + 14 - e.tagSize - (if removesLlc m (pData + 14) then 6 else 0) ∧
      (e.placed (converted m pData)).payloadSize.toNat =
        (payloadSize m pData).toNat + e.tagSize + (if removesLlc m (pData + 14) then 6 else 0) ∧
      (e.placed (converted m pData)).header.length ≤ 14 + e.tagSize := by
  have htag := e.tagSize_le
  have hlen := e.header_length (converted_header_length m pData)
  have hremoved : (converted m pData).removedLlcSnap = removesLlc m (pData + 14) :=
    convertTo8023_removed _ _ _ _ _
  have hdata : (converted m pData).pData = pData + 14 + if removesLlc m (pData + 14) then 8 else 0 :=
    convertTo8023_pData _ _ _ _ _
  have hsize : (converted m pData).dataSize =
      payloadSize m pData - if removesLlc m (pData + 14) then 8 else 0 :=
    convertTo8023_dataSize _ _ _ _ _
  cases hr : removesLlc m (pData + 14) with
  | true =>
    rw [hr] at hremoved hdata hsize
    rw [e.placed_removed hremoved, hdata, hsize]
    refine ⟨?_, ?_, Nat.le_of_eq hlen⟩
    · simp only [if_true]
      omega
    · simp only [if_true]
      rw [UInt16.toNat_add, UInt16.toNat_sub, UInt16.toNat_ofNat']
      simp only [UInt16.reduceToNat]
      omega
  | false =>
    rw [hr] at hremoved hdata hsize
    rw [e.placed_kept hremoved, hdata, hsize]
    refine ⟨?_, ?_, ?_⟩
    · simp only [Bool.false_eq_true, if_false, Nat.add_zero, Nat.sub_zero]
    · simp only [Bool.false_eq_true, if_false, UInt16.sub_zero, Nat.add_zero]
      rw [UInt16.toNat_add, UInt16.toNat_ofNat']
      omega
    · dsimp only
      split
      · exact Nat.le_of_eq hlen
      · exact Nat.zero_le _

/-- The header is written inside the first 28 bytes of the subframe, behind the first four. -/
theorem rewritten_outside (h : (payloadSize m pData).toNat ≤ 1518) {j : ℕ}
    (hj : j < pData + 4 ∨ pData + 28 ≤ j) : e.rewritten m pData j = m j := by
  obtain ⟨hplace, -, hlen⟩ := e.placed_spec h
  have htag := e.tagSize_le
  apply Memory.write_outside
  rw [hplace]
  split <;> omega

/-- A packet that was passed up stays as it is. -/
theorem loop_mem (left : ℕ) {m : Memory} {pData nMsdu j : ℕ} (hj : j < pData + 4) :
    (e.loop m pData left nMsdu).mem j = m j := by
  induction left using Nat.strong_induction_on generalizing m pData nMsdu with
  | _ left ih =>
    by_cases hshort : left ≤ 14
    · rw [loop_short hshort]
    · by_cases haccepts : Accepts m pData left
      · rw [loop_accepted haccepts]
        have hrewritten := e.rewritten_outside haccepts.2.2 (j := j) (Or.inl hj)
        split
        · rename_i hcontinues
          obtain ⟨h32, -, hlt⟩ := hcontinues
          exact (ih _ (by omega) (by omega)).trans hrewritten
        · exact hrewritten
      · rw [loop_refused (Nat.not_le.mp hshort) haccepts]

theorem loop_releases (left : ℕ) (m : Memory) (pData nMsdu : ℕ) :
    (e.loop m pData left nMsdu).releases = 0 := by
  induction left using Nat.strong_induction_on generalizing m pData nMsdu with
  | _ left ih =>
    by_cases hshort : left ≤ 14
    · rw [loop_short hshort]
    · by_cases haccepts : Accepts m pData left
      · rw [loop_accepted haccepts]
        split
        · rename_i hcontinues
          obtain ⟨h32, -, hlt⟩ := hcontinues
          exact ih _ (by omega) _ _ _
        · rfl
      · rw [loop_refused (Nat.not_le.mp hshort) haccepts]

end Deaggregation
end Rt5572

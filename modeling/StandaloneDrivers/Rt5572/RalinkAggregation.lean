import StandaloneDrivers.Rt5572.EthernetHeader

/-! Two packets in one frame: `CmmRxRalinkFrameIndicate` (common/cmm_data.c). -/
namespace Rt5572
open Foundations

/-- What it reads of `RX_BLK`: the frame lies in `mem` from its 802.11 header on. -/
structure AralinkBlk where
  mem : Memory
  pData : ℕ
  dataSize : UInt16
  fRxWds : Bool
  fRxMesh : Bool
  fRxApcli : Bool
  fRxInfra : Bool
  fRxDls : Bool
  header : (if fRxWds || fRxMesh then 30 else 24) ≤ pData

/-- What comes of a frame, with the places that are read and those of the first payload, the second
header and the second payload. -/
structure AralinkOutcome where
  reads : List Span
  parts : Option (Span × Span × Span)
  indicated : List (List UInt8)
  released : ℕ

namespace AralinkBlk
variable (b : AralinkBlk)

/-- The places of DA and SA. -/
def daSa : RxMode → ℕ × ℕ
  | .ap =>
      if b.fRxWds || b.fRxMesh then (16, 24)
      else if b.fRxApcli then (4, 16)
      else (16, 10)
  | .sta =>
      if b.fRxWds || b.fRxMesh then (16, 24)
      else if b.fRxInfra then (4, if b.fRxDls then 10 else 16)
      else (4, 10)

def msdu2Size : UInt16 :=
  (b.mem b.pData).toUInt16 + ((b.mem (b.pData + 1)).toUInt16 <<< 8)

/-- `RTMP_802_11_REMOVE_LLC_AND_CONVERT_TO_802_3`, or the one of an access point. -/
def converted (mode : RxMode) : Converted :=
  convertTo8023 b.mem (b.mem.read (b.daSa mode).1 6) (b.mem.read (b.daSa mode).2 6) (b.pData + 2)
    (b.dataSize - 2)

def payload1Size (mode : RxMode) : UInt16 := (b.converted mode).dataSize - b.msdu2Size

def payload2Size : UInt16 := b.msdu2Size - 14

def pData2 (mode : RxMode) : ℕ := (b.converted mode).pData + (b.payload1Size mode).toNat + 14

def vlan (cfg : VlanCfg) (fromWhichBssid : UInt8) : RxMode → UInt16 × UInt16
  | .ap => cfg.mbssVlanInfoGet fromWhichBssid
  | .sta => (0, 0)

/-- `CmmRxRalinkFrameIndicate`, and whether there is memory for the second packet. -/
def cmmRxRalinkFrameIndicate (cfg : VlanCfg) (mode : RxMode) (fromWhichBssid : UInt8)
    (duplicated : Bool) : AralinkOutcome :=
  if b.msdu2Size ≤ 1536 ∧ b.msdu2Size < b.dataSize then
    let header := (b.converted mode).header8023
    let reads := ⟨b.pData, 2⟩ :: ⟨(b.daSa mode).1, 6⟩ :: ⟨(b.daSa mode).2, 6⟩ ::
      (b.converted mode).reads
    let payload1 : Span := ⟨(b.converted mode).pData, (b.payload1Size mode).toNat⟩
    let header2 : Span := ⟨b.pData2 mode - 14, 14⟩
    let payload2 : Span := ⟨b.pData2 mode, b.payload2Size.toNat⟩
    let vlan := vlan cfg fromWhichBssid mode
    if duplicated then
      { reads := reads ++ [header2, payload2]
        parts := some (payload1, header2, payload2)
        indicated := [
          vlan8023HeaderCopy vlan header ++ b.mem.read payload1.start payload1.count,
          vlan8023HeaderCopy vlan (b.mem.read header2.start 14) ++
            b.mem.read payload2.start payload2.count]
        released := 0 }
    else
      { reads := reads, parts := some (payload1, header2, payload2), indicated := [],
        released := 1 }
  else { reads := [⟨b.pData, 2⟩], parts := none, indicated := [], released := 1 }

/-- The size of the LLC/SNAP header that is removed. -/
def llc : ℕ := if removesLlc b.mem (b.pData + 2) then 8 else 0

/-- The parts follow one another, from behind the two bytes of the length and the LLC/SNAP header
that is removed to the end of the frame. -/
structure Covers (payload1 header2 payload2 : Span) : Prop where
  first : payload1.start = b.pData + 2 + b.llc
  header : header2.start = payload1.start + payload1.count
  second : payload2.start = header2.start + header2.count
  length : header2.count = 14
  last : payload2.start + payload2.count = b.pData + b.dataSize.toNat

/-- There are such sizes for its length of the second packet. -/
def Divides : Prop := ∃ p1 p2 : ℕ, 2 + b.llc + p1 + 14 + p2 = b.dataSize.toNat ∧
  14 + p2 = b.msdu2Size.toNat

/-- What is asked of a run on the frame. -/
structure Divided (o : AralinkOutcome) : Prop where
  inside : ∀ s ∈ o.reads, s.Inside (b.pData + b.dataSize.toNat)
  covers : ∀ payload1 header2 payload2, o.parts = some (payload1, header2, payload2) →
    b.Covers payload1 header2 payload2
  refused : ¬b.Divides → o.indicated = [] ∧ o.released = 1

theorem divides_iff :
    b.Divides ↔ 14 ≤ b.msdu2Size.toNat ∧ 2 + b.llc + b.msdu2Size.toNat ≤ b.dataSize.toNat := by
  constructor
  · rintro ⟨p1, p2, hsum, hsecond⟩
    omega
  · rintro ⟨hheader, hfits⟩
    exact ⟨b.dataSize.toNat - (2 + b.llc + b.msdu2Size.toNat), b.msdu2Size.toNat - 14,
      by omega, by omega⟩

theorem daSa_inside (mode : RxMode) :
    (b.daSa mode).1 + 6 ≤ b.pData ∧ (b.daSa mode).2 + 6 ≤ b.pData := by
  have hheader := b.header
  by_cases hfour : (b.fRxWds || b.fRxMesh) = true
  · rw [if_pos hfour] at hheader
    cases mode <;> simp only [daSa, if_pos hfour] <;> omega
  · rw [if_neg hfour] at hheader
    cases mode <;> simp only [daSa, if_neg hfour] <;> split <;> (try split) <;> simp only <;> omega

theorem payload2Size_toNat :
    b.payload2Size.toNat = (b.msdu2Size.toNat + 65522) % 65536 := by
  rw [payload2Size, UInt16.toNat_sub]
  simp only [UInt16.reduceToNat]
  omega

theorem converted_pData (mode : RxMode) : (b.converted mode).pData = b.pData + 2 + b.llc :=
  convertTo8023_pData _ _ _ _ _

theorem payload1Size_toNat (mode : RxMode) :
    (b.payload1Size mode).toNat =
      (b.dataSize.toNat + (131072 - (2 + b.llc + b.msdu2Size.toNat))) % 65536 := by
  have hmsdu := b.msdu2Size.toNat_lt
  have hllc : b.llc ≤ 8 := by
    rw [llc]
    split <;> omega
  rw [payload1Size, converted, convertTo8023_dataSize, UInt16.toNat_sub, UInt16.toNat_sub,
    UInt16.toNat_sub]
  rw [llc] at hllc ⊢
  split <;> simp only [UInt16.reduceToNat] <;> omega

theorem converted_reads_inside {mode : RxMode} {size : ℕ} (h : b.pData + 10 ≤ size) :
    ∀ s ∈ (b.converted mode).reads, s.Inside size := by
  rw [converted, convertTo8023_reads, List.forall_mem_cons]
  refine ⟨?_, ?_⟩
  · simp only [Span.Inside]
    omega
  · split
    · rw [List.forall_mem_singleton]
      simp only [Span.Inside]
      omega
    · exact List.forall_mem_nil _

section Run
variable {b}
variable (cfg : VlanCfg) (mode : RxMode) (fromWhichBssid : UInt8) (duplicated : Bool)

theorem divided_of_refused (h : ¬(b.msdu2Size ≤ 1536 ∧ b.msdu2Size < b.dataSize)) :
    b.Divided (b.cmmRxRalinkFrameIndicate cfg mode fromWhichBssid duplicated) ↔
      2 ≤ b.dataSize.toNat := by
  rw [cmmRxRalinkFrameIndicate, if_neg h]
  constructor
  · intro hdivided
    have hinside := hdivided.inside _ List.mem_cons_self
    simp only [Span.Inside] at hinside
    omega
  · intro hsize
    refine ⟨?_, ?_, fun _ => ⟨rfl, rfl⟩⟩
    · rw [List.forall_mem_singleton]
      simp only [Span.Inside]
      omega
    · intro payload1 header2 payload2 hparts
      cases hparts

/-- A size that wraps makes the sum too large by 65536. -/
theorem fits_of_covers
    (h : b.Covers ⟨(b.converted mode).pData, (b.payload1Size mode).toNat⟩
      ⟨b.pData2 mode - 14, 14⟩ ⟨b.pData2 mode, b.payload2Size.toNat⟩) :
    14 ≤ b.msdu2Size.toNat ∧ 2 + b.llc + b.msdu2Size.toNat ≤ b.dataSize.toNat := by
  have hlast := h.last
  have hfirst := b.payload1Size_toNat mode
  have hsecond := b.payload2Size_toNat
  have hmsdu := b.msdu2Size.toNat_lt
  have hsize := b.dataSize.toNat_lt
  have hllc : b.llc ≤ 8 := by
    rw [llc]
    split <;> omega
  simp only [pData2, b.converted_pData] at hlast
  omega

theorem covers_of_fits (hheader : 14 ≤ b.msdu2Size.toNat)
    (hfits : 2 + b.llc + b.msdu2Size.toNat ≤ b.dataSize.toNat) :
    b.Covers ⟨(b.converted mode).pData, (b.payload1Size mode).toNat⟩
      ⟨b.pData2 mode - 14, 14⟩ ⟨b.pData2 mode, b.payload2Size.toNat⟩ := by
  have hfirst := b.payload1Size_toNat mode
  have hsecond := b.payload2Size_toNat
  have hmsdu := b.msdu2Size.toNat_lt
  have hsize := b.dataSize.toNat_lt
  have hstart := b.converted_pData mode
  refine ⟨hstart, ?_, ?_, rfl, ?_⟩ <;> simp only [pData2] <;> omega

theorem divided_of_accepted (h : b.msdu2Size ≤ 1536 ∧ b.msdu2Size < b.dataSize) :
    b.Divided (b.cmmRxRalinkFrameIndicate cfg mode fromWhichBssid duplicated) ↔
      14 ≤ b.msdu2Size.toNat ∧ 2 + b.llc + b.msdu2Size.toNat ≤ b.dataSize.toNat := by
  have hparts : (b.cmmRxRalinkFrameIndicate cfg mode fromWhichBssid duplicated).parts =
      some (⟨(b.converted mode).pData, (b.payload1Size mode).toNat⟩,
        ⟨b.pData2 mode - 14, 14⟩, ⟨b.pData2 mode, b.payload2Size.toNat⟩) := by
    rw [cmmRxRalinkFrameIndicate, if_pos h]
    cases duplicated <;> rfl
  constructor
  · intro hdivided
    exact fits_of_covers mode (hdivided.covers _ _ _ hparts)
  · rintro ⟨hheader, hfits⟩
    have hcovers := covers_of_fits mode hheader hfits
    refine ⟨?_, ?_, fun hno => absurd ((divides_iff b).mpr ⟨hheader, hfits⟩) hno⟩
    · obtain ⟨hda, hsa⟩ := b.daSa_inside mode
      have hfront : ∀ s ∈ (⟨b.pData, 2⟩ : Span) :: ⟨(b.daSa mode).1, 6⟩ ::
          ⟨(b.daSa mode).2, 6⟩ :: (b.converted mode).reads,
          s.Inside (b.pData + b.dataSize.toNat) := by
        simp only [List.forall_mem_cons, Span.Inside]
        refine ⟨by omega, by omega, by omega, b.converted_reads_inside (by omega)⟩
      have hback : ∀ s ∈ [(⟨b.pData2 mode - 14, 14⟩ : Span),
          ⟨b.pData2 mode, b.payload2Size.toNat⟩], s.Inside (b.pData + b.dataSize.toNat) := by
        have hsecond := hcovers.second
        have hlast := hcovers.last
        simp only at hsecond hlast
        simp only [List.forall_mem_cons, Span.Inside]
        refine ⟨by omega, by omega, List.forall_mem_nil _⟩
      rw [cmmRxRalinkFrameIndicate, if_pos h]
      cases duplicated with
      | false => exact hfront
      | true => exact List.forall_mem_append.mpr ⟨hfront, hback⟩
    · intro payload1 header2 payload2 hsome
      rw [hparts] at hsome
      cases hsome
      exact hcovers

/-- The sizes fit the frame exactly where the frame holds its length field, and the length is
refused at once or is that of a second packet with its header in what is left. -/
theorem cmmRxRalinkFrameIndicate_divided_iff (b : AralinkBlk) (cfg : VlanCfg) (mode : RxMode)
    (fromWhichBssid : UInt8) (duplicated : Bool) :
    b.Divided (b.cmmRxRalinkFrameIndicate cfg mode fromWhichBssid duplicated) ↔
      2 ≤ b.dataSize.toNat ∧ (1536 < b.msdu2Size.toNat ∨ b.dataSize.toNat ≤ b.msdu2Size.toNat ∨
        14 ≤ b.msdu2Size.toNat ∧ 2 + b.llc + b.msdu2Size.toNat ≤ b.dataSize.toNat) := by
  by_cases h : b.msdu2Size ≤ 1536 ∧ b.msdu2Size < b.dataSize
  · have hle : b.msdu2Size.toNat ≤ 1536 := UInt16.le_iff_toNat_le.mp h.1
    have hlt : b.msdu2Size.toNat < b.dataSize.toNat := UInt16.lt_iff_toNat_lt.mp h.2
    rw [divided_of_accepted cfg mode fromWhichBssid duplicated h]
    omega
  · have hrefused : 1536 < b.msdu2Size.toNat ∨ b.dataSize.toNat ≤ b.msdu2Size.toNat := by
      rw [UInt16.le_iff_toNat_le, UInt16.lt_iff_toNat_lt] at h
      have hbound : (1536 : UInt16).toNat = 1536 := rfl
      omega
    rw [divided_of_refused cfg mode fromWhichBssid duplicated h]
    omega

end Run

/-- A frame whose second packet is shorter than its header. -/
def shortSecond : AralinkBlk where
  mem := Memory.write (fun _ => 0) 24 [4, 0]
  pData := 24
  dataSize := 20
  fRxWds := false
  fRxMesh := false
  fRxApcli := false
  fRxInfra := true
  fRxDls := false
  header := by decide

/-- The second payload is taken for 65526 bytes. -/
theorem shortSecond_wraps : ¬∀ (b : AralinkBlk) (cfg : VlanCfg) (mode : RxMode)
    (fromWhichBssid : UInt8) (duplicated : Bool),
    b.Divided (b.cmmRxRalinkFrameIndicate cfg mode fromWhichBssid duplicated) := by
  intro hall
  have hcfg : VlanCfg := ⟨⟨0, 0, by decide, by decide⟩, fun _ => 0, fun _ => 0⟩
  have hdivided := hall shortSecond hcfg .sta 0 true
  rw [divided_of_accepted hcfg .sta 0 true (by decide)] at hdivided
  exact absurd hdivided.1 (by decide)

end AralinkBlk
end Rt5572

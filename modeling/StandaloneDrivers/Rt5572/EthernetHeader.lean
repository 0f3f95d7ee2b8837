import StandaloneDrivers.Foundations.Memory
import StandaloneDrivers.Rt5572.MacTable

/-! The Ethernet headers of received frames: `CONVERT_TO_802_3` (include/rtmp.h), and the tag that
`VLAN_8023_Header_Copy` inserts (os/linux/rt_linux.c). -/
namespace Rt5572
open Foundations

/-- `SNAP_802_1H` -/
def snap8021H : List UInt8 := [0xaa, 0xaa, 0x03, 0, 0, 0]

/-- `SNAP_BRIDGE_TUNNEL` -/
def snapBridgeTunnel : List UInt8 := [0xaa, 0xaa, 0x03, 0, 0, 0xf8]

/-- `IPX` -/
def ipx : List UInt8 := [0x81, 0x37]

/-- `APPLE_TALK` -/
def appleTalk : List UInt8 := [0x80, 0xf3]

/-- `LLC_Len` -/
def llcLen (dataSize : UInt16) : List UInt8 := [(dataSize >>> 8).toUInt8, (dataSize &&& 255).toUInt8]

/-- What `CONVERT_TO_802_3` leaves, with what it reads at `_pData`. -/
structure Converted where
  header8023 : List UInt8
  removedLlcSnap : Bool
  pData : ℕ
  dataSize : UInt16
  reads : List Span

def hasSnap (m : Memory) (pData : ℕ) : Bool :=
  m.read pData 6 == snap8021H || m.read pData 6 == snapBridgeTunnel

/-- The LLC/SNAP header of IPX and AppleTalk is preserved. -/
def keepsSnap (m : Memory) (pData : ℕ) : Bool :=
  (m.read (pData + 6) 2 == ipx || m.read (pData + 6) 2 == appleTalk) &&
    m.read pData 6 == snap8021H

/-- `CONVERT_TO_802_3` -/
def convertTo8023 (m : Memory) (pDA pSA : List UInt8) (pData : ℕ) (dataSize : UInt16) :
    Converted :=
  if hasSnap m pData then
    let reads := [⟨pData, 6⟩, ⟨pData + 6, 2⟩]
    if keepsSnap m pData then
      { header8023 := pDA ++ (pSA ++ llcLen dataSize), removedLlcSnap := false, pData := pData,
        dataSize := dataSize, reads := reads }
    else
      { header8023 := pDA ++ (pSA ++ m.read (pData + 6) 2), removedLlcSnap := true,
        pData := pData + 8, dataSize := dataSize - 8, reads := reads }
  else
    { header8023 := pDA ++ (pSA ++ llcLen dataSize), removedLlcSnap := false, pData := pData,
      dataSize := dataSize, reads := [⟨pData, 6⟩] }

/-- Whether it removes the eight bytes of LLC/SNAP. -/
def removesLlc (m : Memory) (pData : ℕ) : Bool := hasSnap m pData && !keepsSnap m pData

section Conversion
variable (m : Memory) (pDA pSA : List UInt8) (pData : ℕ) (dataSize : UInt16)

theorem convertTo8023_removed :
    (convertTo8023 m pDA pSA pData dataSize).removedLlcSnap = removesLlc m pData := by
  rw [convertTo8023, removesLlc]
  cases hasSnap m pData with
  | false => rfl
  | true => cases keepsSnap m pData <;> rfl

theorem convertTo8023_pData :
    (convertTo8023 m pDA pSA pData dataSize).pData =
      pData + if removesLlc m pData then 8 else 0 := by
  rw [convertTo8023, removesLlc]
  cases hasSnap m pData with
  | false => rfl
  | true => cases keepsSnap m pData <;> rfl

theorem convertTo8023_dataSize :
    (convertTo8023 m pDA pSA pData dataSize).dataSize =
      dataSize - if removesLlc m pData then 8 else 0 := by
  rw [convertTo8023, removesLlc]
  cases hasSnap m pData with
  | false => exact (UInt16.sub_zero _).symm
  | true =>
    cases keepsSnap m pData with
    | false => rfl
    | true => exact (UInt16.sub_zero _).symm

theorem convertTo8023_header :
    (convertTo8023 m pDA pSA pData dataSize).header8023 =
      pDA ++ (pSA ++ if removesLlc m pData then m.read (pData + 6) 2 else llcLen dataSize) := by
  rw [convertTo8023, removesLlc]
  cases hasSnap m pData with
  | false => rfl
  | true => cases keepsSnap m pData <;> rfl

theorem convertTo8023_reads :
    (convertTo8023 m pDA pSA pData dataSize).reads =
      ⟨pData, 6⟩ :: if hasSnap m pData then [⟨pData + 6, 2⟩] else [] := by
  rw [convertTo8023]
  cases hasSnap m pData with
  | false => rfl
  | true => cases keepsSnap m pData <;> rfl

end Conversion

/-- `OPMODE_AP` and `OPMODE_STA` -/
inductive RxMode
  | ap
  | sta
  deriving DecidableEq, Repr

/-- The VLANs of the networks of an access point. -/
structure VlanCfg extends MacTab.ApCfg where
  vlanVid : ℕ → UInt16
  vlanPriority : ℕ → UInt16

/-- `TPID` -/
def vlanTpid : List UInt8 := [0x81, 0x00]

/-- `MBSS_VLAN_INFO_GET`, of a frame that no network tags zero. -/
def VlanCfg.mbssVlanInfoGet (cfg : VlanCfg) (fromWhichBssid : UInt8) : UInt16 × UInt16 :=
  let i := fromWhichBssid.toNat
  if i < cfg.bssidNum ∧ i < MacTab.hwBeaconMaxNum ∧ cfg.vlanVid i ≠ 0 then
    (cfg.vlanVid i, cfg.vlanPriority i)
  else (0, 0)

def vlanTci (vlanVid vlanPriority : UInt16) : UInt16 :=
  (vlanVid &&& 0x0fff) ||| ((vlanPriority &&& 7) <<< (13 : UInt16))

/-- What `VLAN_8023_Header_Copy` writes for a header. -/
def vlan8023HeaderCopy (vlan : UInt16 × UInt16) (pHeader8023 : List UInt8) : List UInt8 :=
  if vlan.1 ≠ 0 then
    let tci := vlanTci vlan.1 vlan.2
    pHeader8023.take 12 ++ (vlanTpid ++ ([(tci >>> 8).toUInt8, tci.toUInt8] ++
      pHeader8023.drop 12))
  else pHeader8023

theorem vlan8023HeaderCopy_length (vlan : UInt16 × UInt16) {pHeader8023 : List UInt8}
    (h : 12 ≤ pHeader8023.length) :
    (vlan8023HeaderCopy vlan pHeader8023).length =
      pHeader8023.length + if vlan.1 ≠ 0 then 4 else 0 := by
  rw [vlan8023HeaderCopy]
  split
  · simp only [List.length_append, List.length_take, List.length_drop, List.length_cons,
      List.length_nil, vlanTpid]
    omega
  · rfl

end Rt5572

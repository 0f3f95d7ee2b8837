import StandaloneDrivers.Foundations.Memory
import StandaloneDrivers.Rt5572.McastTable

/-! `IGMPSnooping` and `MLDSnooping` (common/igmp_snoop.c): the groups that a packet has inserted
into the filter table and deleted from it, and the bytes that are read. The packet lies in memory
from its EtherType on. `IPv6ExtHdrHandle` is a parameter. -/
namespace Rt5572
open Foundations

inductive IpFamily
  | ipv4
  | ipv6
  deriving DecidableEq, Repr

/-- The length of an address, `IPV6_ADDR_LEN` for the second family. -/
def IpFamily.addrLen : IpFamily → ℕ
  | .ipv4 => 4
  | .ipv6 => 16

/-- `ConvertMulticastIP2MAC` -/
def convertMulticastIp2Mac (pIpAddr : ℕ → UInt8) : IpFamily → Addr
  | .ipv4 => #v[0x01, 0x00, 0x5e, pIpAddr 1 &&& 0x7f, pIpAddr 2, pIpAddr 3]
  | .ipv6 => #v[0x33, 0x33, pIpAddr 12, pIpAddr 13, pIpAddr 14, pIpAddr 15]

/-- What it reads of an address. -/
def IpFamily.macSpan (pIpAddr : ℕ) : IpFamily → Span
  | .ipv4 => ⟨pIpAddr + 1, 3⟩
  | .ipv6 => ⟨pIpAddr + 12, 4⟩

/-- `MulticastFilterTableInsertEntry` or `MulticastFilterTableDeleteEntry` for a group, with the
place from which its address was taken. -/
structure GroupOp where
  insert : Bool
  place : ℕ
  group : Addr
  deriving DecidableEq, Repr

/-- The call on the filter table, for the sender and the device of the packet. -/
def GroupOp.call {c : McastTab.Clock} (op : GroupOp) (times : McastTab.Times c) (pSrcMacAddr : Addr)
    (pDev : ℕ) : McastTab.Call c :=
  if op.insert then .insert times op.group (some pSrcMacAddr) pDev .dynamic
  else .delete op.group (some pSrcMacAddr) pDev

structure SnoopRun where
  ops : List GroupOp
  reads : List Span

/-- The filter table after a packet; `times` is what the clock shows during its calls. -/
def SnoopRun.table {c : McastTab.Clock} (run : SnoopRun) (times : ℕ → McastTab.Times c)
    (pSrcMacAddr : Addr) (pDev : ℕ) (t : McastTab) : Option McastTab :=
  run.ops.zipIdx.foldlM (fun t x => t.step (x.1.call (times x.2) pSrcMacAddr pDev)) t

section Walk
variable (f : IpFamily) (m : Memory)

/-- Whether a record inserts or deletes, by `GroupType` and `numOfSources`. -/
def groupTypeInserts (groupType : UInt8) (numOfSources : ℕ) : Option Bool :=
  if groupType = 2 ∨ groupType = 4 ∨ groupType = 5 then some true
  else if groupType = 3 ∨ groupType = 1 ∨ groupType = 6 then some (decide (numOfSources ≠ 0))
  else none

def groupAt (insert : Bool) (pGroupIpAddr : ℕ) : GroupOp :=
  ⟨insert, pGroupIpAddr, convertMulticastIp2Mac (fun i => m (pGroupIpAddr + i)) f⟩

def groupRecordOp (pGroup : ℕ) : Option GroupOp :=
  (groupTypeInserts (m pGroup) (m.be16 (pGroup + 2))).map fun insert =>
    groupAt f m insert (pGroup + 4)

/-- The way from a record to the next one. -/
def groupStride (pGroup : ℕ) : ℕ :=
  4 + f.addrLen + m.be16 (pGroup + 2) * f.addrLen + (m (pGroup + 1)).toNat

/-- The loop over the records of a report. -/
def groupRecords : ℕ → ℕ → SnoopRun
  | 0, _ => ⟨[], []⟩
  | n + 1, pGroup =>
      let later := groupRecords n (pGroup + groupStride f m pGroup)
      { ops := (groupRecordOp f m pGroup).toList ++ later.ops
        reads := ⟨pGroup, 1⟩ :: ⟨pGroup + 1, 1⟩ :: ⟨pGroup + 2, 2⟩ :: f.macSpan (pGroup + 4) ::
          later.reads }

/-- Where the loop looks for the records. -/
def groupPlaces : ℕ → ℕ → List ℕ
  | 0, _ => []
  | n + 1, pGroup => pGroup :: groupPlaces n (pGroup + groupStride f m pGroup)

end Walk

section Packets
variable (m : Memory) (pDstMacAddr : Addr)

def isIgmpMacAddr : Bool :=
  getElem pDstMacAddr 0 zero_lt_six == 0x01 && getElem pDstMacAddr 1 one_lt_six == 0x00 &&
    getElem pDstMacAddr 2 two_lt_six == 0x5e

def isIgmpPkt : Bool :=
  isIgmpMacAddr pDstMacAddr && decide (m.be16 0 = 0x0800) && m 11 == 2

/-- `pIgmpHeader` -/
def igmpHeader : ℕ := 2 + (m 2 &&& 0x0f).toNat * 4

def igmpSnooping : SnoopRun :=
  if isIgmpPkt m pDstMacAddr then
    let p := igmpHeader m
    let reads := [⟨0, 2⟩, ⟨11, 1⟩, ⟨2, 1⟩, ⟨p, 1⟩]
    if m p = 0x12 ∨ m p = 0x16 then
      ⟨[groupAt .ipv4 m true (p + 4)], reads ++ [IpFamily.ipv4.macSpan (p + 4)]⟩
    else if m p = 0x17 then
      ⟨[groupAt .ipv4 m false (p + 4)], reads ++ [IpFamily.ipv4.macSpan (p + 4)]⟩
    else if m p = 0x22 then
      let records := groupRecords .ipv4 m (m.be16 (p + 6)) (p + 8)
      { records with reads := reads ++ ⟨p + 6, 2⟩ :: records.reads }
    else ⟨[], reads⟩
  else
    ⟨[], ⟨0, 2⟩ ::
      if isIgmpMacAddr pDstMacAddr && decide (m.be16 0 = 0x0800) then [⟨11, 1⟩] else []⟩

def isMldMacAddr : Bool :=
  getElem pDstMacAddr 0 zero_lt_six == 0x33 && getElem pDstMacAddr 1 one_lt_six == 0x33

/-- `IPV6_NEXT_HEADER_ICMPV6` -/
abbrev icmpv6 : UInt8 := 58

/-- `IPV6_HDR_LEN` -/
abbrev ipv6HdrLen : ℕ := 40

/-- `IsSupportedMldMsg` -/
def isSupportedMldMsg (msgType : UInt8) : Bool := msgType == 131 || msgType == 132 || msgType == 143

/-- `IPv6ExtHdrHandle` with the place of the header, `*pProto` and `*pOffset`: its result and what
it leaves in both. -/
abbrev ExtHdrHandle : Type := Memory → ℕ → UInt8 → ℕ → Bool × UInt8 × ℕ

variable (handle : ExtHdrHandle)

/-- The loop over the extension headers, for so many of them; `none` when it has not ended. -/
def extHdrs : ℕ → UInt8 → ℕ → Option (UInt8 × ℕ)
  | 0, _, _ => none
  | n + 1, nextProtocol, offset =>
      if nextProtocol = icmpv6 then some (nextProtocol, offset)
      else
        match handle m (2 + offset) nextProtocol offset with
        | (true, nextProtocol, offset) => extHdrs n nextProtocol offset
        | (false, nextProtocol, offset) => some (nextProtocol, offset)

/-- `isMldPkt`, with `*pProtoType` and `*pMldHeader`. -/
def isMldPkt (fuel : ℕ) : Option (UInt8 × ℕ) :=
  if isMldMacAddr pDstMacAddr && decide (m.be16 0 = 0x86dd) then
    (extHdrs m handle fuel (m 8) ipv6HdrLen).bind fun (nextProtocol, offset) =>
      if nextProtocol = icmpv6 ∧ isSupportedMldMsg (m (2 + offset)) then
        some (m (2 + offset), 2 + offset)
      else none
  else none

def mldSnooping (fuel : ℕ) : SnoopRun :=
  match isMldPkt m pDstMacAddr handle fuel with
  | none =>
      ⟨[], ⟨0, 2⟩ ::
        if isMldMacAddr pDstMacAddr && decide (m.be16 0 = 0x86dd) then [⟨8, 1⟩] else []⟩
  | some (mldType, p) =>
      let reads := [⟨0, 2⟩, ⟨8, 1⟩, ⟨p, 1⟩]
      if mldType = 131 then
        ⟨[groupAt .ipv6 m true (p + 8)], reads ++ [IpFamily.ipv6.macSpan (p + 8)]⟩
      else if mldType = 132 then
        ⟨[groupAt .ipv6 m false (p + 8)], reads ++ [IpFamily.ipv6.macSpan (p + 8)]⟩
      else if mldType = 143 then
        let records := groupRecords .ipv6 m (m.be16 (p + 6)) (p + 8)
        { records with reads := reads ++ ⟨p + 6, 2⟩ :: records.reads }
      else ⟨[], reads⟩

end Packets

/-- A packet as the two functions see it. -/
structure SnoopedPacket where
  mem : Memory
  length : ℕ
  pDstMacAddr : Addr
  extHdrHandle : ExtHdrHandle
  extHdrs : ℕ

namespace SnoopedPacket
variable (pkt : SnoopedPacket)

def snooping : IpFamily → SnoopRun
  | .ipv4 => igmpSnooping pkt.mem pkt.pDstMacAddr
  | .ipv6 => mldSnooping pkt.mem pkt.pDstMacAddr pkt.extHdrHandle pkt.extHdrs

/-- The place of the header of an IGMPv3 membership report or an MLDv2 listener report. -/
def report : IpFamily → Option ℕ
  | .ipv4 =>
      if isIgmpPkt pkt.mem pkt.pDstMacAddr = true ∧ pkt.mem (igmpHeader pkt.mem) = 0x22 then
        some (igmpHeader pkt.mem)
      else none
  | .ipv6 =>
      match isMldPkt pkt.mem pkt.pDstMacAddr pkt.extHdrHandle pkt.extHdrs with
      | some (mldType, p) => if mldType = 143 then some p else none
      | none => none

/-- What is read before the report, and its number of records. -/
def reportReads (p : ℕ) : IpFamily → List Span
  | .ipv4 => [⟨0, 2⟩, ⟨11, 1⟩, ⟨2, 1⟩, ⟨p, 1⟩, ⟨p + 6, 2⟩]
  | .ipv6 => [⟨0, 2⟩, ⟨8, 1⟩, ⟨p, 1⟩, ⟨p + 6, 2⟩]

theorem snooping_report {f : IpFamily} {p : ℕ} (h : pkt.report f = some p) :
    (pkt.snooping f).ops = (groupRecords f pkt.mem (pkt.mem.be16 (p + 6)) (p + 8)).ops ∧
      (pkt.snooping f).reads = reportReads p f ++
        (groupRecords f pkt.mem (pkt.mem.be16 (p + 6)) (p + 8)).reads := by
  cases f with
  | ipv4 =>
    rw [report] at h
    split at h
    · rename_i hpkt
      obtain rfl := Option.some.inj h
      rw [snooping, igmpSnooping, if_pos hpkt.1]
      simp only [hpkt.2]
      exact ⟨rfl, rfl⟩
    · cases h
  | ipv6 =>
    rw [report] at h
    rw [snooping, mldSnooping]
    split at h
    · rename_i mldType q hpkt
      rw [hpkt]
      split at h
      · rename_i htype
        obtain rfl := Option.some.inj h
        subst htype
        exact ⟨rfl, rfl⟩
      · cases h
    · cases h

end SnoopedPacket
end Rt5572

import StandaloneDrivers.Rt5572.MembershipReports

/-! Membership reports as their standards have them, with auxiliary data counted in words of four
bytes, and which of them the loops over their records follow. -/
namespace Rt5572
open Foundations

/-- A group record. -/
structure GroupRecord (f : IpFamily) where
  type : UInt8
  auxDataLen : UInt8
  address : Vector UInt8 f.addrLen
  sources : List (Vector UInt8 f.addrLen)
  auxData : List UInt8
  sources_lt : sources.length < 65536
  auxData_length : auxData.length = 4 * auxDataLen.toNat

namespace GroupRecord
variable {f : IpFamily}

def header (r : GroupRecord f) : List UInt8 :=
  [r.type, r.auxDataLen, UInt8.ofNat (r.sources.length / 256), UInt8.ofNat r.sources.length]

def bytes (r : GroupRecord f) : List UInt8 :=
  r.header ++ (r.address.toList ++ (r.sources.flatMap Vector.toList ++ r.auxData))

/-- The group of the record. -/
def group (r : GroupRecord f) : Addr := convertMulticastIp2Mac (fun i => r.address.toList.getD i 0) f

/-- A type that the standards define. -/
def Defined (r : GroupRecord f) : Prop := 1 ≤ r.type.toNat ∧ r.type.toNat ≤ 6

theorem sources_length (l : List (Vector UInt8 f.addrLen)) :
    (l.flatMap Vector.toList).length = l.length * f.addrLen := by
  induction l with
  | nil => exact (Nat.zero_mul _).symm
  | cons v l ih =>
    rw [List.flatMap_cons, List.length_append, ih, Vector.length_toList, List.length_cons,
      Nat.add_one_mul, Nat.add_comm]

theorem bytes_length (r : GroupRecord f) :
    r.bytes.length = 4 + f.addrLen + r.sources.length * f.addrLen + 4 * r.auxDataLen.toNat := by
  rw [bytes, List.length_append, List.length_append, List.length_append, sources_length,
    Vector.length_toList, r.auxData_length]
  simp only [header, List.length_cons, List.length_nil]
  omega

end GroupRecord

/-- The records one behind the other. -/
def encodeRecords {f : IpFamily} (records : List (GroupRecord f)) : List UInt8 :=
  records.flatMap GroupRecord.bytes

/-- The place and the group of each record from `start` on. -/
def groupsFrom {f : IpFamily} : ℕ → List (GroupRecord f) → List (ℕ × Addr)
  | _, [] => []
  | start, r :: records => (start + 4, r.group) :: groupsFrom (start + r.bytes.length) records

/-- No record that another one follows has auxiliary data. -/
def AuxFree {f : IpFamily} (records : List (GroupRecord f)) : Prop :=
  ∀ r ∈ records.dropLast, r.auxDataLen = 0

theorem groupsFrom_length {f : IpFamily} (start : ℕ) (records : List (GroupRecord f)) :
    (groupsFrom start records).length = records.length := by
  induction records generalizing start with
  | nil => rfl
  | cons r records ih => rw [groupsFrom, List.length_cons, ih, List.length_cons]

section Records
variable {f : IpFamily} {m : Memory} {p : ℕ}

/-- The record lies at `p`. -/
structure RecordLies (m : Memory) (p : ℕ) (r : GroupRecord f) : Prop where
  type : m p = r.type
  stride : groupStride f m p =
    4 + f.addrLen + r.sources.length * f.addrLen + r.auxDataLen.toNat
  group : convertMulticastIp2Mac (fun i => m (p + 4 + i)) f = r.group

theorem convertMulticastIp2Mac_congr {a b : ℕ → UInt8} (h : ∀ i < f.addrLen, a i = b i) :
    convertMulticastIp2Mac a f = convertMulticastIp2Mac b f := by
  cases f with
  | ipv4 =>
    simp only [IpFamily.addrLen] at h
    rw [convertMulticastIp2Mac, convertMulticastIp2Mac, h 1 (by decide), h 2 (by decide),
      h 3 (by decide)]
  | ipv6 =>
    simp only [IpFamily.addrLen] at h
    rw [convertMulticastIp2Mac, convertMulticastIp2Mac, h 12 (by decide), h 13 (by decide),
      h 14 (by decide), h 15 (by decide)]

theorem recordLies_of_read {r : GroupRecord f} (h : m.read p r.bytes.length = r.bytes) :
    RecordLies m p r := by
  rw [GroupRecord.bytes] at h
  obtain ⟨hheader, hrest⟩ := m.read_eq_append h
  obtain ⟨haddress, -⟩ := m.read_eq_append hrest
  have hlength : r.header.length = 4 := rfl
  rw [hlength, GroupRecord.header] at hheader
  rw [hlength, Vector.length_toList] at haddress
  simp only [Memory.read_succ, List.cons.injEq] at hheader
  obtain ⟨htype, haux, hhigh, hlow, -⟩ := hheader
  have hcount : m.be16 (p + 2) = r.sources.length := by
    have hlt := r.sources_lt
    rw [Memory.be16, show p + 2 = p + 1 + 1 from rfl, hhigh, hlow, UInt8.toNat_ofNat',
      UInt8.toNat_ofNat']
    omega
  refine ⟨htype, ?_, ?_⟩
  · rw [groupStride, hcount, haux]
  · apply convertMulticastIp2Mac_congr
    intro i hi
    rw [← haddress, Memory.read_getD m hi]

theorem groupTypeInserts_defined {type : UInt8} (h : 1 ≤ type.toNat ∧ type.toNat ≤ 6) (n : ℕ) :
    ∃ insert, groupTypeInserts type n = some insert := by
  have hcases : type = 1 ∨ type = 2 ∨ type = 3 ∨ type = 4 ∨ type = 5 ∨ type = 6 := by
    simp only [← UInt8.toNat_inj, UInt8.reduceToNat]
    omega
  rw [groupTypeInserts]
  split
  · exact ⟨true, rfl⟩
  · rename_i hno
    rw [if_pos (by tauto)]
    exact ⟨_, rfl⟩

theorem groupPlaces_length (n p : ℕ) : (groupPlaces f m n p).length = n := by
  induction n generalizing p with
  | zero => rfl
  | succ n ih => rw [groupPlaces, List.length_cons, ih]

/-- The groups are taken from places where the loop looks. -/
theorem ops_sublist (n p : ℕ) :
    ((groupRecords f m n p).ops.map GroupOp.place).Sublist
      ((groupPlaces f m n p).map (· + 4)) := by
  induction n generalizing p with
  | zero => exact List.Sublist.slnil
  | succ n ih =>
    rw [groupRecords, groupPlaces, List.map_append, List.map_cons]
    cases hop : groupRecordOp f m p with
    | none => exact (ih _).cons _
    | some op =>
      have hplace : op.place = p + 4 := by
        rw [groupRecordOp, Option.map_eq_some_iff] at hop
        obtain ⟨insert, -, rfl⟩ := hop
        rfl
      rw [Option.toList_some, List.map_cons, List.map_nil, hplace]
      exact (ih _).cons_cons _

theorem read_cons {r : GroupRecord f} {records : List (GroupRecord f)}
    (h : m.read p (encodeRecords (r :: records)).length = encodeRecords (r :: records)) :
    RecordLies m p r ∧ m.read (p + r.bytes.length) (encodeRecords records).length =
      encodeRecords records := by
  rw [encodeRecords, List.flatMap_cons] at h
  obtain ⟨hrecord, hrest⟩ := m.read_eq_append h
  exact ⟨recordLies_of_read hrecord, hrest⟩

/-- The loop keeps to the records exactly where no auxiliary data is in its way. -/
theorem groupPlaces_iff {records : List (GroupRecord f)}
    (h : m.read p (encodeRecords records).length = encodeRecords records) :
    (groupPlaces f m records.length p).map (· + 4) = (groupsFrom p records).map Prod.fst ↔
      AuxFree records := by
  induction records generalizing p with
  | nil =>
    refine iff_of_true rfl ?_
    intro r hr
    cases hr
  | cons r records ih =>
    obtain ⟨hlies, hrest⟩ := read_cons h
    have hstride := hlies.stride
    have hbytes := r.bytes_length
    rw [List.length_cons, groupPlaces, groupsFrom, List.map_cons, List.map_cons]
    cases records with
    | nil =>
      refine iff_of_true rfl ?_
      intro r hr
      cases hr
    | cons s records =>
      have hdrop : (r :: s :: records).dropLast = r :: (s :: records).dropLast := rfl
      rw [AuxFree, hdrop, List.forall_mem_cons, ← AuxFree]
      constructor
      · intro heq
        have htail := (List.cons.inj heq).2
        have hfirst : p + groupStride f m p + 4 = p + r.bytes.length + 4 :=
          (List.cons.inj htail).1
        have hzero : r.auxDataLen.toNat = 0 := by omega
        have hplace : p + groupStride f m p = p + r.bytes.length := by omega
        rw [hplace] at htail
        exact ⟨UInt8.toNat_inj.mp hzero, (ih hrest).mp htail⟩
      · rintro ⟨hzero, hfree⟩
        have hplace : p + groupStride f m p = p + r.bytes.length := by
          rw [hstride, hbytes, hzero]
          rfl
        rw [hplace]
        exact congrArg (List.cons _) ((ih hrest).mpr hfree)

theorem ops_of_auxFree {records : List (GroupRecord f)}
    (h : m.read p (encodeRecords records).length = encodeRecords records)
    (hdefined : ∀ r ∈ records, r.Defined) (hfree : AuxFree records) :
    (groupRecords f m records.length p).ops.map (fun op => (op.place, op.group)) =
      groupsFrom p records := by
  induction records generalizing p with
  | nil => rfl
  | cons r records ih =>
    obtain ⟨hlies, hrest⟩ := read_cons h
    obtain ⟨hr, hrecords⟩ := List.forall_mem_cons.mp hdefined
    obtain ⟨insert, hinsert⟩ := groupTypeInserts_defined hr (m.be16 (p + 2))
    have hop : groupRecordOp f m p = some (groupAt f m insert (p + 4)) := by
      rw [groupRecordOp, hlies.type, hinsert]
      rfl
    have hlater : (groupRecords f m records.length (p + groupStride f m p)).ops.map
        (fun op => (op.place, op.group)) = groupsFrom (p + r.bytes.length) records := by
      cases records with
      | nil => rfl
      | cons s records =>
        obtain ⟨hzero, hfree⟩ := List.forall_mem_cons.mp hfree
        have hplace : p + groupStride f m p = p + r.bytes.length := by
          rw [hlies.stride, r.bytes_length, hzero]
          rfl
        rw [hplace]
        exact ih hrest hrecords hfree
    rw [List.length_cons, groupRecords, groupsFrom, hop, List.map_append, hlater,
      Option.toList_some, List.map_cons, List.map_nil]
    exact congrArg (fun g => (p + 4, g) :: groupsFrom (p + r.bytes.length) records) hlies.group

/-- One call for each record, for its own group. -/
theorem ops_iff {records : List (GroupRecord f)}
    (h : m.read p (encodeRecords records).length = encodeRecords records)
    (hdefined : ∀ r ∈ records, r.Defined) :
    (groupRecords f m records.length p).ops.map (fun op => (op.place, op.group)) =
      groupsFrom p records ↔ AuxFree records := by
  refine ⟨fun heq => ?_, ops_of_auxFree h hdefined⟩
  have hplaces := congrArg (List.map Prod.fst) heq
  rw [List.map_map] at hplaces
  have hlen := groupsFrom_length p records
  have hall := (ops_sublist (f := f) (m := m) records.length p).eq_of_length (by
    have hcount := congrArg List.length hplaces
    rw [List.length_map, List.length_map, hlen] at hcount
    rw [List.length_map, List.length_map, groupPlaces_length, hcount])
  exact (groupPlaces_iff h).mp (hall.symm.trans hplaces)

/-- The reads of the loop end with the addresses of the groups. -/
theorem groupRecords_inside_iff (n p size : ℕ) :
    (∀ s ∈ (groupRecords f m n p).reads, s.Inside size) ↔
      ∀ q ∈ groupPlaces f m n p, q + 4 + f.addrLen ≤ size := by
  induction n generalizing p with
  | zero => exact iff_of_true (List.forall_mem_nil _) (List.forall_mem_nil _)
  | succ n ih =>
    have haddress : (f.macSpan (p + 4)).Inside size ↔ p + 4 + f.addrLen ≤ size := by
      cases f with
      | ipv4 => rfl
      | ipv6 => rfl
    simp only [groupRecords, groupPlaces, List.forall_mem_cons, ih, haddress]
    simp only [Span.Inside]
    constructor
    · rintro ⟨-, -, -, hlast, hlater⟩
      exact ⟨hlast, hlater⟩
    · rintro ⟨hlast, hlater⟩
      exact ⟨by omega, by omega, by omega, hlast, hlater⟩

end Records

namespace SnoopedPacket
variable (pkt : SnoopedPacket)

/-- The report with its header at `p` holds the records, and behind them what the standards call
additional data. -/
structure Holds {f : IpFamily} (p : ℕ) (records : List (GroupRecord f)) : Prop where
  count : pkt.mem.be16 (p + 6) = records.length
  fits : p + 8 + (encodeRecords records).length ≤ pkt.length
  records : pkt.mem.read (p + 8) (encodeRecords records).length = encodeRecords records

/-- What is asked of a report: one call for each record, for its own group and in the order of the
records, and no read behind a packet that cannot hold the records. -/
structure Snooped (f : IpFamily) (p : ℕ) : Prop where
  groups : ∀ records : List (GroupRecord f), pkt.Holds p records → (∀ r ∈ records, r.Defined) →
    (pkt.snooping f).ops.map (fun op => (op.place, op.group)) = groupsFrom (p + 8) records
  inside : (¬∃ records : List (GroupRecord f), pkt.Holds p records) →
    ∀ s ∈ (pkt.snooping f).reads, s.Inside pkt.length

/-- The place behind the fields that are read before the report is known. -/
def fixedLength : IpFamily → ℕ
  | .ipv4 => 12
  | .ipv6 => 9

theorem reportReads_inside_iff (f : IpFamily) (p size : ℕ) :
    (∀ s ∈ reportReads p f, s.Inside size) ↔ fixedLength f ≤ size ∧ p + 8 ≤ size := by
  cases f with
  | ipv4 =>
    simp only [reportReads, fixedLength, List.forall_mem_cons, Span.Inside]
    constructor
    · rintro ⟨-, hproto, -, -, hcount, -⟩
      exact ⟨hproto, hcount⟩
    · rintro ⟨hproto, hcount⟩
      exact ⟨by omega, hproto, by omega, by omega, hcount, List.forall_mem_nil _⟩
  | ipv6 =>
    simp only [reportReads, fixedLength, List.forall_mem_cons, Span.Inside]
    constructor
    · rintro ⟨-, hproto, -, hcount, -⟩
      exact ⟨hproto, hcount⟩
    · rintro ⟨hproto, hcount⟩
      exact ⟨by omega, hproto, by omega, hcount, List.forall_mem_nil _⟩

/-- Reports are snooped as they should exactly where no record before the last has auxiliary data,
and where the loop finds all it looks for in a packet that cannot hold the records. -/
theorem snooping_iff (pkt : SnoopedPacket) (f : IpFamily) :
    (∀ p, pkt.report f = some p → pkt.Snooped f p) ↔
      ∀ p, pkt.report f = some p →
        (∀ records : List (GroupRecord f), pkt.Holds p records → (∀ r ∈ records, r.Defined) →
          AuxFree records) ∧
        ((¬∃ records : List (GroupRecord f), pkt.Holds p records) →
          (fixedLength f ≤ pkt.length ∧ p + 8 ≤ pkt.length) ∧
          ∀ q ∈ groupPlaces f pkt.mem (pkt.mem.be16 (p + 6)) (p + 8),
            q + 4 + f.addrLen ≤ pkt.length) := by
  refine forall_congr' fun p => forall_congr' fun hreport => ?_
  obtain ⟨hops, hreads⟩ := pkt.snooping_report hreport
  have hgroups (records : List (GroupRecord f)) (hholds : pkt.Holds p records)
      (hdefined : ∀ r ∈ records, r.Defined) :
      (pkt.snooping f).ops.map (fun op => (op.place, op.group)) = groupsFrom (p + 8) records ↔
        AuxFree records := by
    rw [hops, hholds.count]
    exact ops_iff hholds.records hdefined
  have hinside : (∀ s ∈ (pkt.snooping f).reads, s.Inside pkt.length) ↔
      (fixedLength f ≤ pkt.length ∧ p + 8 ≤ pkt.length) ∧
        ∀ q ∈ groupPlaces f pkt.mem (pkt.mem.be16 (p + 6)) (p + 8),
          q + 4 + f.addrLen ≤ pkt.length := by
    rw [hreads, List.forall_mem_append, reportReads_inside_iff, groupRecords_inside_iff]
  constructor
  · intro h
    exact ⟨fun records hholds hdefined => (hgroups records hholds hdefined).mp
      (h.groups records hholds hdefined), fun hno => hinside.mp (h.inside hno)⟩
  · rintro ⟨hfree, hfits⟩
    exact ⟨fun records hholds hdefined => (hgroups records hholds hdefined).mpr
      (hfree records hholds hdefined), fun hno => hinside.mpr (hfits hno)⟩

end SnoopedPacket

/-- A record that changes to exclude mode, with one word of auxiliary data or with none. -/
def auxRecord (host : UInt8) (words : ℕ) (h : words < 256) : GroupRecord .ipv4 where
  type := 4
  auxDataLen := UInt8.ofNat words
  address := #v[239, 1, 1, host]
  sources := []
  auxData := List.replicate (4 * words) 0
  sources_lt := by decide
  auxData_length := by
    rw [List.length_replicate, UInt8.toNat_ofNat', Nat.mod_eq_of_lt h]

/-- An IGMPv3 membership report with two records, the first of which has auxiliary data. -/
def auxReport : SnoopedPacket where
  mem := Memory.write (fun _ => 0) 0 ([0x08, 0x00, 0x45] ++ List.replicate 8 0 ++ [2] ++
    List.replicate 10 0 ++ [0x22, 0, 0, 0, 0, 0, 0, 2] ++
    encodeRecords [auxRecord 1 1 (by decide), auxRecord 2 0 (by decide)])
  length := 50
  pDstMacAddr := #v[0x01, 0x00, 0x5e, 0x00, 0x00, 0x16]
  extHdrHandle := fun _ _ nextProtocol offset => (false, nextProtocol, offset)
  extHdrs := 0

theorem auxReport_holds :
    auxReport.Holds 22 [auxRecord 1 1 (by decide), auxRecord 2 0 (by decide)] :=
  ⟨by decide, by decide, by decide⟩

/-- The second record is looked for three bytes too early. -/
theorem auxReport_missed : ¬∀ (pkt : SnoopedPacket) (f : IpFamily) (p : ℕ),
    pkt.report f = some p → pkt.Snooped f p := by
  intro hall
  have hsnooped := hall auxReport .ipv4 22 (by decide)
  have hdefined : ∀ r ∈ [auxRecord 1 1 (by decide), auxRecord 2 0 (by decide)], r.Defined := by
    simp only [List.forall_mem_cons]
    exact ⟨⟨by decide, by decide⟩, ⟨by decide, by decide⟩, List.forall_mem_nil _⟩
  have hgroups := hsnooped.groups _ auxReport_holds hdefined
  exact absurd (congrArg List.length hgroups) (by decide)

end Rt5572

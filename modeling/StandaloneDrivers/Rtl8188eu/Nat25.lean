import Mathlib.Data.BitVec
import StandaloneDrivers.Foundations.Buckets
import StandaloneDrivers.Foundations.Bytes

/-! rtl8188eu: the data base of the NAT2.5 bridge extension (`rtw_br_ext.c`): network addresses,
hash chains, and the branches of `nat25_db_handle` that insert and look up an address. -/
namespace Rtl8188eu.BrExt
open Foundations

abbrev Mac := List UInt8
abbrev NetworkAddr := List UInt8

/-- A frame from its Ethernet header on. -/
structure Skb where
  data : List UInt8
  header : 14 ≤ data.length
  deriving DecidableEq

namespace Skb

def write (skb : Skb) (i : ℕ) (bytes : List UInt8) : Skb where
  data := overwrite skb.data i bytes
  header := by
    rw [overwrite_length]
    exact skb.header

def dest (skb : Skb) : Mac := field skb.data 0 6

def source (skb : Skb) : Mac := field skb.data 6 6

def protocol (skb : Skb) : ℕ := be16 skb.data 12

theorem dest_write {mac : Mac} (hmac : mac.length = 6) (skb : Skb) :
    (skb.write 0 mac).dest = mac := by
  have hroom := skb.header
  have h := @field_overwrite skb.data mac 0 (by omega)
  rwa [hmac] at h

theorem dest_write_behind {i : ℕ} (hi : 6 ≤ i) (skb : Skb) (bytes : List UInt8) :
    (skb.write i bytes).dest = skb.dest := field_overwrite_before (by omega)

end Skb

/-- Byte order, width of `unsigned long`, `HZ`, the adapter's MAC address, and what the tag branch
makes of a PPPoE discovery frame. -/
structure Host where
  bigEndian : Bool
  bits : ℕ
  hz : ℕ
  ticks : 0 < hz
  fits : 300 * hz < 2 ^ (bits - 1)
  myHwaddr : Mac
  hwaddrLength : myHwaddr.length = 6
  relay : Skb → Skb

/-- A little-endian host of 32 bits. -/
def littleHost : Host where
  bigEndian := false
  bits := 32
  hz := 100
  ticks := by decide
  fits := by decide
  myHwaddr := [0x00, 0xe0, 0x4c, 0x81, 0x88, 0x01]
  hwaddrLength := rfl
  relay := id

/-- `be32_to_cpu`, as the bytes in memory. -/
def Host.be32ToCpu (h : Host) (ip : List UInt8) : List UInt8 :=
  if h.bigEndian then ip else ip.reverse

structure Entry (bits : ℕ) where
  addr : ℕ
  useCount : BitVec 32
  macAddr : Mac
  ageingTimer : BitVec bits
  networkAddr : NetworkAddr
  deriving DecidableEq

namespace Entry
variable {bits : ℕ}

def use (e : Entry bits) : Entry bits := { e with useCount := e.useCount + 1 }

def renew (mac : Mac) (now : BitVec bits) (e : Entry bits) : Entry bits :=
  { e with macAddr := mac, ageingTimer := now }

end Entry

/-- The fields of the adapter that the bridge extension uses. Entries are named by the number of
their allocation. -/
structure Priv (bits : ℕ) where
  nethash : Fin 16 → List (Entry bits)
  allocations : ℕ
  scdbMac : Mac
  scdbIp : List UInt8
  scdbEntry : Option ℕ
  brMac : Mac
  brIp : List UInt8

section Addresses

def generateNetworkAddr (kind : UInt8) (body : List UInt8) : NetworkAddr :=
  kind :: body ++ List.replicate (16 - body.length) 0

def generateIpv4NetworkAddr (ip : List UInt8) : NetworkAddr :=
  generateNetworkAddr 1 (List.replicate 6 0 ++ ip)

def generateIpv6NetworkAddr (ip : List UInt8) : NetworkAddr := generateNetworkAddr 2 ip

def generateIpxNetworkAddrWithNode (net node : List UInt8) : NetworkAddr :=
  generateNetworkAddr 3 (net ++ node)

def generateIpxNetworkAddrWithSocket (net sock : List UInt8) : NetworkAddr :=
  generateNetworkAddr 3 (net ++ sock)

def generateAppleNetworkAddr (net node : List UInt8) : NetworkAddr :=
  generateNetworkAddr 4 (net ++ node)

def generatePppoeNetworkAddr (acMac sid : List UInt8) : NetworkAddr :=
  generateNetworkAddr 5 (sid ++ acMac)

def networkHash (a : NetworkAddr) : Fin 16 :=
  let bytes := match a.headD 0 with
    | 1 => slice a 7 4
    | 3 => slice a 1 10
    | 4 => slice a 1 3
    | 5 => slice a 0 9
    | 2 => slice a 1 16
    | _ => a
  Fin.ofNat 16 (bytes.foldl (· ^^^ ·) 0).toNat

theorem generateIpv4NetworkAddr_inj {a b : List UInt8} (ha : a.length = 4) (hb : b.length = 4)
    (h : generateIpv4NetworkAddr a = generateIpv4NetworkAddr b) : a = b := by
  have htail := (List.cons.inj h).2
  have hbody := List.append_inj_left htail (by simp [ha, hb])
  exact List.append_cancel_left hbody

theorem generateIpv6NetworkAddr_inj {a b : List UInt8} (ha : a.length = 16) (hb : b.length = 16)
    (h : generateIpv6NetworkAddr a = generateIpv6NetworkAddr b) : a = b :=
  List.append_inj_left (List.cons.inj h).2 (ha.trans hb.symm)

theorem generateNetworkAddr_ne {k k' : UInt8} (hk : k ≠ k') (a b : List UInt8) :
    generateNetworkAddr k a ≠ generateNetworkAddr k' b := fun h => hk (List.cons.inj h).1

end Addresses

section Frames
variable (h : Host) (skb : Skb)

def ipMalformed : Bool := skb.data.length ≤ byteAt skb.data 14 % 16 * 4

def ipv6Malformed : Bool := skb.data.length - 14 ≤ 40

inductive Datagram where
  | ipx (i : ℕ)
  | aarp (i : ℕ)
  | ddp (i : ℕ)
  deriving DecidableEq

/-- Which header an IPX or AppleTalk frame has, and where it stands. -/
def datagram : Option Datagram :=
  if skb.protocol = 0x8137 then some (.ipx 14)
  else if field skb.data 14 2 = [0xff, 0xff] then some (.ipx 14)
  else if byteAt skb.data 14 = 0xaa then
    if field skb.data 17 5 = [0x00, 0x00, 0x00, 0x81, 0x37] then some (.ipx 22)
    else if field skb.data 17 5 = [0x00, 0x00, 0x00, 0x80, 0xf3] then
      if byteAt skb.data 26 = 6 ∧ byteAt skb.data 27 = 4 then some (.aarp 22) else none
    else if field skb.data 17 5 = [0x08, 0x00, 0x07, 0x80, 0x9b] then some (.ddp 22)
    else none
  else if byteAt skb.data 14 = 0xe0 then
    if field skb.data 17 2 = [0xff, 0xff] then some (.ipx 17) else none
  else none

/-- The network address that `NAT25_INSERT` records for a frame. -/
def insertAddr : Option NetworkAddr :=
  if skb.protocol = 0x0800 then
    let saddr := field skb.data 26 4
    if ipMalformed skb || saddr == [0, 0, 0, 0] then none
    else some (generateIpv4NetworkAddr (h.be32ToCpu saddr))
  else if skb.protocol = 0x0806 then
    if be16 skb.data 16 = 0x0800 then
      let skb' := skb.write 22 h.myHwaddr
      some (generateIpv4NetworkAddr (field skb'.data (22 + byteAt skb.data 18) 4))
    else none
  else if skb.protocol = 0x8137 ∨ skb.protocol ≤ 1514 then
    match datagram skb with
    | some (.ipx i) =>
      if skb.source = field skb.data (i + 22) 6 then some (generateIpxNetworkAddrWithSocket
        (field skb.data (i + 18) 4) (field skb.data (i + 28) 2))
      else some (generateIpxNetworkAddrWithNode (field skb.data (i + 18) 4)
        (field skb.data (i + 22) 6))
    | some (.aarp i) => some (generateAppleNetworkAddr (field skb.data (i + 15) 2)
        (field skb.data (i + 17) 1))
    | some (.ddp i) => some (generateAppleNetworkAddr (field skb.data (i + 6) 2)
        (field skb.data (i + 9) 1))
    | none => none
  else if skb.protocol = 0x8863 ∨ skb.protocol = 0x8864 then
    if be16 skb.data 16 = 0 then none
    else some (generatePppoeNetworkAddr skb.dest (field skb.data 16 2))
  else if skb.protocol = 0x86dd then
    let saddr := field skb.data 22 16
    if ipv6Malformed skb || saddr == List.replicate 16 0 then none
    else some (generateIpv6NetworkAddr saddr)
  else none

/-- What `NAT25_LOOKUP` asks the data base for a frame: the address, whether an IP frame is
forwarded when it is unknown, and where the new destination is written a second time. -/
structure Query where
  addr : NetworkAddr
  forward : Bool
  copyTo : Option ℕ

def lookupQuery : Option Query :=
  if skb.protocol = 0x0800 then
    if ipMalformed skb then none
    else some ⟨generateIpv4NetworkAddr (h.be32ToCpu (field skb.data 30 4)), true, none⟩
  else if skb.protocol = 0x0806 then
    if be16 skb.data 16 = 0x0800 then
      let hln := byteAt skb.data 18
      let pln := byteAt skb.data 19
      some ⟨generateIpv4NetworkAddr (field skb.data (22 + hln + (hln + pln)) 4), false,
        some (22 + (hln + pln))⟩
    else none
  else if skb.protocol = 0x8137 ∨ skb.protocol ≤ 1514 then
    match datagram skb with
    | some (.ipx i) =>
      if h.myHwaddr = field skb.data (i + 10) 6 then some ⟨generateIpxNetworkAddrWithSocket
        (field skb.data (i + 6) 4) (field skb.data (i + 16) 2), false, some (i + 10)⟩
      else some ⟨generateIpxNetworkAddrWithNode (field skb.data (i + 6) 4)
        (field skb.data (i + 10) 6), false, none⟩
    | some (.aarp i) => some ⟨generateAppleNetworkAddr (field skb.data (i + 25) 2)
        (field skb.data (i + 27) 1), false, some (i + 18)⟩
    | some (.ddp i) => some ⟨generateAppleNetworkAddr (field skb.data (i + 4) 2)
        (field skb.data (i + 8) 1), false, none⟩
    | none => none
  else if skb.protocol = 0x8863 ∨ skb.protocol = 0x8864 then
    if byteAt skb.data 15 = 0x07 ∨ byteAt skb.data 15 = 0x65 ∨ be16 skb.data 16 = 0 then none
    else some ⟨generatePppoeNetworkAddr skb.source (field skb.data 16 2), false, none⟩
  else if skb.protocol = 0x86dd then
    if ipv6Malformed skb then none
    else some ⟨generateIpv6NetworkAddr (field skb.data 38 16), false, none⟩
  else none

/-- A PADO or PADS frame, whose destination comes from the relay tag or the pending client. -/
def isDiscoveryReply : Bool :=
  (skb.protocol = 0x8863 ∨ skb.protocol = 0x8864) ∧
    (byteAt skb.data 15 = 0x07 ∨ byteAt skb.data 15 = 0x65)

end Frames

/-- The order of two values of `jiffies`. -/
def timeBeforeEq {bits : ℕ} (a b : BitVec bits) : Bool := !(b - a).msb

section Table
variable (h : Host) (p : Priv h.bits) (now : BitVec h.bits)

def nat25Timeout : BitVec h.bits := now - BitVec.ofNat h.bits (300 * h.hz)

def hasExpired (e : Entry h.bits) : Bool := timeBeforeEq e.ageingTimer (nat25Timeout h now)

def Priv.find (p : Priv h.bits) (a : NetworkAddr) : Option (Entry h.bits) :=
  search networkHash Entry.networkAddr p.nethash a

def Priv.modify (p : Priv h.bits) (a : NetworkAddr) (f : Entry h.bits → Entry h.bits) :
    Priv h.bits :=
  { p with nethash := modifyEntry networkHash Entry.networkAddr p.nethash a f }

def networkLookupAndReplace (skb : Skb) (a : NetworkAddr) : Priv h.bits × Skb × Bool :=
  match p.find h a with
  | none => (p, skb, false)
  | some e =>
    if hasExpired h now e then (p, skb, true)
    else (p.modify h a Entry.use, skb.write 0 e.macAddr, true)

/-- `storage`: the memory for a new entry is there. -/
def networkInsert (storage : Bool) (mac : Mac) (a : NetworkAddr) : Priv h.bits :=
  match p.find h a with
  | some _ => p.modify h a (Entry.renew mac now)
  | none =>
    if storage then
      { p with
        nethash := linkEntry networkHash Entry.networkAddr p.nethash
          { addr := p.allocations, useCount := 1, macAddr := mac, ageingTimer := now,
            networkAddr := a }
        allocations := p.allocations + 1 }
    else p

/-- `None` when the entry is unlinked and freed. -/
def expireEntry (e : Entry h.bits) : Option (Entry h.bits) :=
  if hasExpired h now e then
    if e.useCount - 1 = 0 then none else some { e with useCount := e.useCount - 1 }
  else some e

/-- The entry that the shortcut points to is one of those that are freed. -/
def cacheExpires : Bool :=
  (List.finRange 16).any fun b => (p.nethash b).any fun e =>
    p.scdbEntry == some e.addr && (expireEntry h now e).isNone

def nat25DbExpire : Priv h.bits :=
  let nethash := sweep (expireEntry h now) p.nethash
  if cacheExpires h p now then
    { p with nethash := nethash, scdbMac := List.replicate 6 0, scdbIp := List.replicate 4 0,
             scdbEntry := none }
  else { p with nethash := nethash }

/-- `NAT25_INSERT`, as far as the data base goes. -/
def nat25Insert (storage : Bool) (skb : Skb) : Priv h.bits :=
  match insertAddr h skb with
  | some a => networkInsert h p now storage skb.source a
  | none => p

/-- `netdev_br_init`: `bridge` is the MAC address of the bridge device, if there is one. -/
def netdevBrInit (bridge : Option Mac) : Priv h.bits :=
  match bridge with
  | some mac => { p with brMac := mac }
  | none => p

/-- An IP frame to an unknown address. -/
def forwardUnknown (bridge : Option Mac) (skb : Skb) : Priv h.bits × Skb :=
  if byteAt skb.data 33 = 0xff then (p, skb.write 0 (List.replicate 6 0xff))
  else
    let p := if p.brMac = List.replicate 6 0 then netdevBrInit h p bridge else p
    (p, skb.write 0 p.brMac)

def nat25Lookup (bridge : Option Mac) (skb : Skb) : Priv h.bits × Skb :=
  match lookupQuery h skb with
  | some q =>
    let (p, skb, found) := networkLookupAndReplace h p now skb q.addr
    let (p, skb) := if q.forward && !found then forwardUnknown h p bridge skb else (p, skb)
    (p, match q.copyTo with
      | some i => skb.write i skb.dest
      | none => skb)
  | none => (p, if isDiscoveryReply skb then h.relay skb else skb)

end Table

section Clock
variable (h : Host) {t now : ℕ}

theorem Host.bits_pos : 0 < h.bits := by
  have hticks := h.ticks
  have hfits := h.fits
  rcases Nat.eq_zero_or_pos h.bits with hzero | hpos
  · rw [hzero, Nat.zero_sub, Nat.pow_zero] at hfits
    omega
  · exact hpos

theorem Host.two_pow_bits : 2 ^ h.bits = 2 * 2 ^ (h.bits - 1) := by
  have hpos := h.bits_pos
  rw [← Nat.pow_succ', Nat.succ_eq_add_one, Nat.sub_add_cancel hpos]

theorem timeout_sub_timer {d : ℕ} (hd : now = t + d) :
    nat25Timeout h (BitVec.ofNat h.bits now) - BitVec.ofNat h.bits t =
      BitVec.ofNat h.bits d - BitVec.ofNat h.bits (300 * h.hz) := by
  rw [nat25Timeout, hd, BitVec.ofNat_add, sub_right_comm, add_sub_cancel_left]

theorem timeBeforeEq_fresh (hle : t ≤ now) (hage : now - t < 300 * h.hz) :
    timeBeforeEq (BitVec.ofNat h.bits t) (nat25Timeout h (BitVec.ofNat h.bits now)) = false := by
  have hfits := h.fits
  have hpow := h.two_pow_bits
  obtain ⟨d, rfl⟩ := Nat.exists_eq_add_of_le hle
  obtain ⟨k, hk⟩ := Nat.exists_eq_add_of_lt (show d < 300 * h.hz by omega)
  have hsub : BitVec.ofNat h.bits d - BitVec.ofNat h.bits (300 * h.hz) =
      -BitVec.ofNat h.bits (k + 1) := by
    rw [hk, Nat.add_assoc, BitVec.ofNat_add, sub_add_cancel_left]
  rw [timeBeforeEq, timeout_sub_timer h rfl, hsub, BitVec.msb_eq_decide, BitVec.toNat_neg,
    BitVec.toNat_ofNat, Nat.mod_eq_of_lt (show k + 1 < 2 ^ h.bits by omega),
    Nat.mod_eq_of_lt (by omega)]
  simp only [Bool.not_eq_eq_eq_not, Bool.not_false, decide_eq_true_eq]
  omega

theorem timeBeforeEq_stale (hage : 300 * h.hz ≤ now - t)
    (hwrap : now - t < 300 * h.hz + 2 ^ (h.bits - 1)) :
    timeBeforeEq (BitVec.ofNat h.bits t) (nat25Timeout h (BitVec.ofNat h.bits now)) = true := by
  have hticks := h.ticks
  have hpow := h.two_pow_bits
  obtain ⟨d, rfl⟩ := Nat.exists_eq_add_of_le (show t ≤ now by omega)
  obtain ⟨k, hk⟩ := Nat.exists_eq_add_of_le (show 300 * h.hz ≤ d by omega)
  have hsub : BitVec.ofNat h.bits d - BitVec.ofNat h.bits (300 * h.hz) =
      BitVec.ofNat h.bits k := by
    rw [hk, BitVec.ofNat_add, add_sub_cancel_left]
  rw [timeBeforeEq, timeout_sub_timer h rfl, hsub, BitVec.msb_eq_decide, BitVec.toNat_ofNat,
    Nat.mod_eq_of_lt (by omega)]
  simp only [Bool.not_eq_true', decide_eq_false_iff_not]
  omega

end Clock

/-- What the data base says about an address: all of its entry but the use counter. -/
structure Binding (bits : ℕ) where
  addr : ℕ
  macAddr : Mac
  ageingTimer : BitVec bits

def Entry.binding {bits : ℕ} (e : Entry bits) : Binding bits := ⟨e.addr, e.macAddr, e.ageingTimer⟩

section Specifications
variable (h : Host) {p : Priv h.bits} {now : BitVec h.bits}

def Priv.Chained (p : Priv h.bits) : Prop := Hashed networkHash Entry.networkAddr p.nethash

def Priv.binding (p : Priv h.bits) (a : NetworkAddr) : Option (Binding h.bits) :=
  (p.find h a).map Entry.binding

def Binding.expired (now : BitVec h.bits) (b : Binding h.bits) : Bool :=
  timeBeforeEq b.ageingTimer (nat25Timeout h now)

theorem modify_chained (hp : p.Chained h) (a : NetworkAddr) {f : Entry h.bits → Entry h.bits}
    (hf : ∀ e, (f e).networkAddr = e.networkAddr) : (p.modify h a f).Chained h :=
  Hashed.modifyEntry hp hf a

theorem modify_binding (a k : NetworkAddr) {f : Entry h.bits → Entry h.bits}
    (hf : ∀ e, (f e).networkAddr = e.networkAddr) : (p.modify h a f).binding h k =
      if k = a then (p.find h a).map (fun e => (f e).binding) else p.binding h k := by
  rw [Priv.binding, Priv.find, Priv.modify, search_modifyEntry hf]
  split
  · rw [Option.map_map]
    rfl
  · rfl

theorem networkInsert_chained (hp : p.Chained h) (storage : Bool) (mac : Mac) (a : NetworkAddr) :
    (networkInsert h p now storage mac a).Chained h := by
  unfold networkInsert
  split
  · exact modify_chained h hp a fun e => rfl
  · rename_i hnone
    split
    · exact Hashed.linkEntry hp hnone
    · exact hp

/-- What an insertion leaves under each address. -/
theorem networkInsert_binding (storage : Bool) (mac : Mac) (a k : NetworkAddr) :
    (networkInsert h p now storage mac a).binding h k =
      if k = a then
        match p.binding h a with
        | some b => some ⟨b.addr, mac, now⟩
        | none => if storage then some ⟨p.allocations, mac, now⟩ else none
      else p.binding h k := by
  unfold networkInsert
  cases hfind : p.find h a with
  | some e =>
    simp only [Priv.binding, hfind, Option.map_some]
    have hmod := modify_binding h (p := p) a k (f := Entry.renew mac now) fun e => rfl
    rw [hfind] at hmod
    exact hmod
  | none =>
    have hnone : p.binding h a = none := by rw [Priv.binding, hfind, Option.map_none]
    rw [hnone]
    cases storage with
    | true =>
      simp only [if_true, Priv.binding, Priv.find]
      rw [search_linkEntry]
      split <;> rfl
    | false =>
      simp only [Bool.false_eq_true, if_false]
      split
      · rename_i hk
        rw [hk, hnone]
      · rfl

theorem networkInsert_kept {storage : Bool} {a : NetworkAddr}
    (hkept : (storage || (p.find h a).isSome) = true) (mac : Mac) :
    ∃ i, ∀ k, (networkInsert h p now storage mac a).binding h k =
      if k = a then some ⟨i, mac, now⟩ else p.binding h k := by
  have hbinding := @networkInsert_binding h p now storage mac a
  cases hb : p.binding h a with
  | some b =>
    refine ⟨b.addr, fun k => ?_⟩
    rw [hbinding, hb]
  | none =>
    have hnone : p.find h a = none := Option.map_eq_none_iff.mp hb
    rw [hnone, Option.isSome_none, Bool.or_false] at hkept
    refine ⟨p.allocations, fun k => ?_⟩
    rw [hbinding, hb, hkept]
    rfl

theorem networkInsert_dropped {storage : Bool} {a : NetworkAddr}
    (hkept : (storage || (p.find h a).isSome) = false) (mac : Mac) :
    networkInsert h p now storage mac a = p := by
  obtain ⟨hstorage, hnone⟩ := Bool.or_eq_false_iff.mp hkept
  rw [Option.isSome_eq_false_iff, Option.isNone_iff_eq_none] at hnone
  rw [networkInsert, hnone, hstorage]
  rfl

theorem networkInsert_scdb (storage : Bool) (mac : Mac) (a : NetworkAddr) :
    (networkInsert h p now storage mac a).scdbMac = p.scdbMac ∧
      (networkInsert h p now storage mac a).scdbIp = p.scdbIp ∧
      (networkInsert h p now storage mac a).scdbEntry = p.scdbEntry := by
  unfold networkInsert
  split
  · exact ⟨rfl, rfl, rfl⟩
  · split <;> exact ⟨rfl, rfl, rfl⟩

theorem networkInsert_allocations {a : NetworkAddr} {b : Binding h.bits}
    (hb : p.binding h a = some b) (storage : Bool) (mac : Mac) :
    (networkInsert h p now storage mac a).allocations = p.allocations := by
  obtain ⟨e, hfind, -⟩ := Option.map_eq_some_iff.mp hb
  simp only [networkInsert, hfind, Priv.modify]

theorem networkLookupAndReplace_chained (hp : p.Chained h) (skb : Skb) (a : NetworkAddr) :
    (networkLookupAndReplace h p now skb a).1.Chained h := by
  unfold networkLookupAndReplace
  split
  · exact hp
  · split
    · exact hp
    · exact modify_chained h hp a fun e => rfl

theorem networkLookupAndReplace_binding (skb : Skb) (a k : NetworkAddr) :
    (networkLookupAndReplace h p now skb a).1.binding h k = p.binding h k := by
  unfold networkLookupAndReplace
  cases hfind : p.find h a with
  | none => rfl
  | some e =>
    simp only
    split
    · rfl
    · rw [modify_binding h a k (f := Entry.use) fun e => rfl]
      split
      · rename_i hk
        rw [hk, Priv.binding, hfind]
        rfl
      · rfl

/-- What a lookup answers, seen from the bindings. -/
theorem networkLookupAndReplace_answer (skb : Skb) (a : NetworkAddr) :
    (networkLookupAndReplace h p now skb a).2 =
      match p.binding h a with
      | none => (skb, false)
      | some b => if b.expired h now then (skb, true) else (skb.write 0 b.macAddr, true) := by
  unfold networkLookupAndReplace Priv.binding
  cases p.find h a with
  | none => rfl
  | some e =>
    exact apply_ite Prod.snd _ _ _

theorem expireEntry_networkAddr {e e' : Entry h.bits} (he : expireEntry h now e = some e') :
    e'.networkAddr = e.networkAddr := by
  unfold expireEntry at he
  split at he
  · split at he
    · cases he
    · cases he
      rfl
  · cases he
    rfl

theorem expireEntry_binding {e e' : Entry h.bits} (he : expireEntry h now e = some e') :
    e'.binding = e.binding := by
  unfold expireEntry at he
  split at he
  · split at he
    · cases he
    · cases he
      rfl
  · cases he
    rfl

theorem nat25DbExpire_nethash : (nat25DbExpire h p now).nethash =
    sweep (expireEntry h now) p.nethash := by
  unfold nat25DbExpire
  simp only
  split <;> rfl

theorem nat25DbExpire_chained (hp : p.Chained h) : (nat25DbExpire h p now).Chained h := by
  rw [Priv.Chained, nat25DbExpire_nethash]
  exact Hashed.sweep hp fun e e' => expireEntry_networkAddr h

theorem nat25DbExpire_find (hp : p.Chained h) (k : NetworkAddr) :
    (nat25DbExpire h p now).find h k = (p.find h k).bind (expireEntry h now) := by
  rw [Priv.find, nat25DbExpire_nethash]
  exact Hashed.search_sweep hp (fun e e' => expireEntry_networkAddr h) k

theorem expireEntry_none {e : Entry h.bits} (he : expireEntry h now e = none) :
    e.binding.expired h now = true := by
  unfold expireEntry at he
  split at he
  · rename_i hexp
    exact hexp
  · cases he

/-- An expiry run keeps a binding or drops one that has expired. -/
theorem nat25DbExpire_binding (hp : p.Chained h) (k : NetworkAddr) :
    (nat25DbExpire h p now).binding h k = p.binding h k ∨
      (nat25DbExpire h p now).binding h k = none ∧
        ∃ b, p.binding h k = some b ∧ b.expired h now = true := by
  unfold Priv.binding
  rw [nat25DbExpire_find h hp]
  cases p.find h k with
  | none => exact Or.inl rfl
  | some e =>
    rw [Option.bind_some, Option.map_some]
    cases he : expireEntry h now e with
    | some e' =>
      apply Or.inl
      rw [Option.map_some, expireEntry_binding h he]
    | none =>
      apply Or.inr
      constructor
      · rfl
      · exact ⟨e.binding, rfl, expireEntry_none h he⟩

theorem forwardUnknown_nethash (bridge : Option Mac) (skb : Skb) :
    (forwardUnknown h p bridge skb).1.nethash = p.nethash := by
  unfold forwardUnknown netdevBrInit
  split
  · rfl
  · split
    · split <;> rfl
    · rfl

theorem forwardUnknown_skb {p' : Priv h.bits} (hmac : p'.brMac = p.brMac) (bridge : Option Mac)
    (skb : Skb) : (forwardUnknown h p' bridge skb).2 = (forwardUnknown h p bridge skb).2 := by
  have hwrite : skb.write 0 p'.brMac = skb.write 0 p.brMac := by rw [hmac]
  unfold forwardUnknown netdevBrInit
  rw [hmac]
  split
  · rfl
  · split
    · cases bridge with
      | none => exact hwrite
      | some mac => rfl
    · exact hwrite

theorem networkLookupAndReplace_brMac (skb : Skb) (a : NetworkAddr) :
    (networkLookupAndReplace h p now skb a).1.brMac = p.brMac := by
  unfold networkLookupAndReplace
  split
  · rfl
  · split <;> rfl

theorem nat25Lookup_nethash (bridge : Option Mac) (skb : Skb) :
    (nat25Lookup h p now bridge skb).1.nethash = p.nethash ∨
      ∃ a, (nat25Lookup h p now bridge skb).1.nethash =
        (networkLookupAndReplace h p now skb a).1.nethash := by
  unfold nat25Lookup
  cases lookupQuery h skb with
  | none => exact Or.inl rfl
  | some q =>
    refine Or.inr ⟨q.addr, ?_⟩
    simp only
    split
    · exact forwardUnknown_nethash h bridge _
    · rfl

theorem nat25Lookup_chained (hp : p.Chained h) (bridge : Option Mac) (skb : Skb) :
    (nat25Lookup h p now bridge skb).1.Chained h := by
  unfold Priv.Chained
  rcases nat25Lookup_nethash h bridge skb with heq | ⟨a, heq⟩
  · rw [heq]
    exact hp
  · rw [heq]
    exact networkLookupAndReplace_chained h hp skb a

theorem nat25Lookup_binding (bridge : Option Mac) (skb : Skb) (k : NetworkAddr) :
    (nat25Lookup h p now bridge skb).1.binding h k = p.binding h k := by
  unfold Priv.binding Priv.find
  rcases nat25Lookup_nethash h bridge skb with heq | ⟨a, heq⟩
  · rw [heq]
  · rw [heq]
    exact networkLookupAndReplace_binding h skb a k

/-- The fields of the adapter that a lookup leaves alone. -/
def Priv.shortcut {bits : ℕ} (p : Priv bits) : ℕ × Mac × List UInt8 × Option ℕ :=
  (p.allocations, p.scdbMac, p.scdbIp, p.scdbEntry)

theorem nat25Lookup_shortcut (bridge : Option Mac) (skb : Skb) :
    (nat25Lookup h p now bridge skb).1.shortcut = p.shortcut := by
  have hreplace : ∀ a, (networkLookupAndReplace h p now skb a).1.shortcut = p.shortcut := by
    intro a
    unfold networkLookupAndReplace
    split
    · rfl
    · split <;> rfl
  have hforward : ∀ (p : Priv h.bits) skb, (forwardUnknown h p bridge skb).1.shortcut =
      p.shortcut := by
    intro p skb
    unfold forwardUnknown netdevBrInit
    split
    · rfl
    · split
      · split <;> rfl
      · rfl
  unfold nat25Lookup
  split
  · simp only
    split
    · exact (hforward _ _).trans (hreplace _)
    · exact hreplace _
  · rfl

theorem lookupQuery_copyTo {skb : Skb} {q : Query} {i : ℕ} (hq : lookupQuery h skb = some q)
    (hi : q.copyTo = some i) : 6 ≤ i := by
  unfold lookupQuery at hq
  simp only at hq
  repeat' split at hq
  all_goals cases hq
  all_goals cases hi
  all_goals omega

/-- A fresh entry gives the destination. -/
theorem nat25Lookup_fresh {skb : Skb} {q : Query} {b : Binding h.bits}
    (hq : lookupQuery h skb = some q) (hb : p.binding h q.addr = some b)
    (hexp : b.expired h now = false) (hmac : b.macAddr.length = 6) (bridge : Option Mac) :
    (nat25Lookup h p now bridge skb).2.dest = b.macAddr := by
  have hans := @networkLookupAndReplace_answer h p now skb q.addr
  rw [hb] at hans
  simp only [hexp, Bool.false_eq_true, if_false] at hans
  unfold nat25Lookup
  simp only [hq, hans, Bool.not_true, Bool.and_false, Bool.false_eq_true, if_false]
  cases hcopy : q.copyTo with
  | none => exact Skb.dest_write hmac skb
  | some i =>
    simp only
    rw [Skb.dest_write_behind (lookupQuery_copyTo h hq hcopy)]
    exact Skb.dest_write hmac skb

/-- A frame for an address without an entry, or with an expired one where that makes no difference,
is treated as on an empty data base. -/
theorem nat25Lookup_unknown {skb : Skb} {q : Query} (hq : lookupQuery h skb = some q)
    (hnone : p.binding h q.addr = none ∨
      q.forward = false ∧ ∃ b, p.binding h q.addr = some b ∧ b.expired h now = true)
    (bridge : Option Mac) : (nat25Lookup h p now bridge skb).2 =
      (nat25Lookup h { p with nethash := fun _ => [] } now bridge skb).2 := by
  have hempty := @networkLookupAndReplace_answer h
    { p with nethash := fun _ => [] } now skb q.addr
  have hans := @networkLookupAndReplace_answer h p now skb q.addr
  have hbr := @networkLookupAndReplace_brMac h p now skb q.addr
  have hbr' := @networkLookupAndReplace_brMac h { p with nethash := fun _ => [] }
    now skb q.addr
  have hnew : (networkLookupAndReplace h { p with nethash := fun _ => [] } now skb q.addr).2 =
    (skb, false) := hempty
  unfold nat25Lookup
  simp only [hq]
  rcases hnone with hnone | ⟨hfwd, b, hb, hexp⟩
  · rw [hnone] at hans
    simp only [hans, hnew]
    cases q.forward with
    | true =>
      simp only [Bool.not_false, Bool.and_self, if_true]
      rw [forwardUnknown_skb h (hbr.trans hbr'.symm)]
    | false => rfl
  · rw [hb] at hans
    simp only [hexp, if_true] at hans
    simp only [hans, hnew, hfwd]
    rfl

end Specifications

end Rtl8188eu.BrExt

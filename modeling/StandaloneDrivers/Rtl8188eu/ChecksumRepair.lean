import Mathlib.Data.Nat.Bitwise
import StandaloneDrivers.Foundations.OnesComplement
import StandaloneDrivers.Rtl8188eu.OptionScans

/-! The checksums that the bridge extension repairs (`rtw_br_ext.c`): of a DHCP request that gets the
broadcast flag, and of a neighbour-discovery message with another link-layer address. A frame lies in
memory from its Ethernet header on. -/
namespace Rtl8188eu.BrExt
open Foundations

/-- `BROADCAST_FLAG` -/
abbrev broadcastFlag : ℕ := 0x8000

/-- `DHCP_MAGIC` -/
abbrev dhcpMagic : List UInt8 := [0x63, 0x82, 0x53, 0x63]

section Code
variable (bigEndian : Bool) (m : Memory)

/-- The place of `udph`. -/
def udpHeader : ℕ := 14 + 4 * ((m 14).toNat % 16)

/-- IPv4, UDP, from the client's port to the server's, with the magic cookie. -/
def IsDhcpRequest : Prop :=
  m.be16 12 = 0x0800 ∧ m 23 = 17 ∧ m.be16 (udpHeader m) = 68 ∧ m.be16 (udpHeader m + 2) = 67 ∧
    m.read (udpHeader m + 8 + 236) 4 = dhcpMagic

instance : Decidable (IsDhcpRequest m) := inferInstanceAs (Decidable (_ ∧ _))

/-- `dhcp_flag_bcast`; `order16` is `htons` and `be16_to_cpu`. -/
def dhcpFlagBcast (dhcpBcstDisable : Bool) : Memory :=
  if !dhcpBcstDisable ∧ IsDhcpRequest m then
    let flags := m.host16 bigEndian (udpHeader m + 18)
    if flags &&& order16 bigEndian broadcastFlag = 0 then
      let flags := flags ||| order16 bigEndian broadcastFlag
      let sum := 65535 - m.host16 bigEndian (udpHeader m + 6)
      let sum := fold16 (sum + order16 bigEndian flags)
      (m.store16 bigEndian (udpHeader m + 18) flags).store16 bigEndian (udpHeader m + 6) (65535 - sum)
    else m
  else m

/-- `csum_partial` without a sum to start from -/
def csumPartial (buff len : ℕ) : ℕ := m.hostSum bigEndian buff len

/-- `csum_ipv6_magic`, for a length of 16 bits -/
def csumIpv6Magic (saddr daddr len proto sum : ℕ) : ℕ :=
  65535 - fold16 (m.hostSum bigEndian saddr 16 + m.hostSum bigEndian daddr 16 +
    order16 bigEndian len + order16 bigEndian proto + sum)

/-- The branch of `nat25_db_handle` that inserts an IPv6 address, as far as it changes the frame: the
frame and the bytes that are summed up, if an address is replaced. -/
def nat25InsertIpv6 (myHwaddr : List UInt8) (len fuel : ℕ) : Option (Memory × Span) :=
  if m.be16 12 = 0x86dd ∧ 54 < len ∧ m.read 22 16 ≠ List.replicate 16 0 ∧ m 20 = 58 ∧ 58 < len then
    match ndScan (fun i => m (54 + i)) (len - 54) fuel with
    | some (_, some mac) =>
      let m := (m.write (54 + mac) myHwaddr).store16 bigEndian 56 0
      let payloadLen := m.host16 bigEndian 18
      some (m.store16 bigEndian 56 (csumIpv6Magic bigEndian m 22 38 payloadLen 58
        (csumPartial bigEndian m 54 payloadLen)), ⟨54, payloadLen⟩)
    | _ => none
  else none

end Code

section Specification
variable (m : Memory)

/-- The pseudo header and the datagram add up. -/
def UdpSumValid : Prop :=
  m.wordSum 26 8 + 17 + m.be16 (udpHeader m + 4) +
    m.wordSum (udpHeader m) (m.be16 (udpHeader m + 4)) ≡ 0 [MOD 65535]

/-- There is a checksum, and it is right. -/
def UdpChecksumValid : Prop := m.be16 (udpHeader m + 6) ≠ 0 ∧ UdpSumValid m

/-- The pseudo header and the message add up. -/
def Icmpv6Valid : Prop :=
  m.wordSum 22 16 + m.wordSum 38 16 + m.be16 18 + 58 + m.wordSum 54 (m.be16 18) ≡ 0 [MOD 65535]

end Specification

/-- A DHCP request without the flag, whose checksum covers the flags and is right. -/
structure DhcpFrame where
  m : Memory
  ihl : 5 ≤ (m 14).toNat % 16
  request : IsDhcpRequest m
  unset : m.be16 (udpHeader m + 18) &&& broadcastFlag = 0
  covered : 20 ≤ m.be16 (udpHeader m + 4)
  valid : UdpChecksumValid m

namespace DhcpFrame
variable (f : DhcpFrame)

def flags : ℕ := f.m.be16 (udpHeader f.m + 18)

def check : ℕ := f.m.be16 (udpHeader f.m + 6)

def after (bigEndian : Bool) : Memory := dhcpFlagBcast bigEndian f.m false

end DhcpFrame

/-- A neighbour-discovery message whose address is replaced; its checksum and its payload lie in the
frame. -/
structure NdFrame where
  m : Memory
  len : ℕ
  myHwaddr : List UInt8
  ipv6 : m.be16 12 = 0x86dd
  sender : m.read 22 16 ≠ List.replicate 16 0
  icmpv6 : m 20 = 58
  payload : 4 ≤ m.be16 18 ∧ 54 + m.be16 18 ≤ len
  room : 58 < len
  fuel : ℕ
  mac : ℕ
  scan : ∃ reads, ndScan (fun i => m (54 + i)) (len - 54) fuel = some (reads, some mac)

namespace NdFrame
variable (f : NdFrame) (bigEndian : Bool)

def payloadLen : ℕ := f.m.be16 18

/-- The message with the new address, before a checksum is entered. -/
def changed : Memory := (f.m.write (54 + f.mac) f.myHwaddr).store16 bigEndian 56 0

/-- The checksum is right afterwards, and bytes of the message only were summed up for it. -/
def Sound : Prop :=
  ∃ m' read, nat25InsertIpv6 bigEndian f.m f.myHwaddr f.len f.fuel = some (m', read) ∧
    Icmpv6Valid m' ∧ 54 ≤ read.start ∧ read.Inside (54 + f.payloadLen)

/-- The length, as the host reads it, is not too large, and what it leaves away of the sum makes up
for the difference of the lengths. -/
structure Fits : Prop where
  inside : order16 bigEndian f.payloadLen ≤ f.payloadLen
  sum : order16 bigEndian f.payloadLen +
      (f.changed bigEndian).wordSum 54 (order16 bigEndian f.payloadLen) ≡
    f.payloadLen + (f.changed bigEndian).wordSum 54 f.payloadLen [MOD 65535]

end NdFrame
section Flags
variable {n : ℕ}

theorem and_broadcastFlag : n &&& broadcastFlag = 0 ↔ n / 32768 % 2 = 0 := by
  rw [show broadcastFlag = 2 ^ 15 from rfl, Nat.and_two_pow, Nat.testBit_eq_decide_div_mod_eq]
  change (decide (n / 32768 % 2 = 1)).toNat * 32768 = 0 ↔ n / 32768 % 2 = 0
  rcases Nat.mod_two_eq_zero_or_one (n / 32768) with h | h <;> simp [h]

/-- The flag is a bit in either order. -/
theorem order16_flag (bigEndian : Bool) (hn : n < 32768) :
    order16 bigEndian n &&& order16 bigEndian broadcastFlag = 0 ∧
      order16 bigEndian n ||| order16 bigEndian broadcastFlag = order16 bigEndian (n + 32768) := by
  cases bigEndian with
  | true =>
    refine ⟨and_broadcastFlag.mpr (by simp only [order16, if_true]; omega), ?_⟩
    exact Nat.or_two_pow_eq_add_of_lt (n := 15) hn
  | false =>
    have hlow : order16 false n = 2 ^ 8 * (n % 256) + n / 256 := rfl
    have hflag : order16 false broadcastFlag = 2 ^ 7 := rfl
    have hhigh : n / 256 < 2 ^ 7 := by omega
    have heven : (2 ^ 8 * (n % 256) + n / 256) / 2 ^ 7 = 2 * (n % 256) := by omega
    constructor
    · rw [hlow, hflag, Nat.and_two_pow, Nat.testBit_eq_decide_div_mod_eq, heven,
        decide_eq_false (by omega)]
      rfl
    · rw [hlow, hflag, Nat.two_pow_add_eq_or_of_lt (Nat.lt_trans hhigh (by decide)), Nat.or_assoc,
        Nat.or_two_pow_eq_add_of_lt hhigh, ← Nat.two_pow_add_eq_or_of_lt (by omega)]
      simp only [order16, Bool.false_eq_true, if_false]
      omega

end Flags

namespace DhcpFrame
variable {f : DhcpFrame}

theorem flags_lt (f : DhcpFrame) : f.flags < 32768 := by
  have hbit := and_broadcastFlag.mp f.unset
  have hlt := f.m.be16_lt (udpHeader f.m + 18)
  unfold flags
  omega

/-- The checksum that is entered, in network order. -/
def newCheck (f : DhcpFrame) (bigEndian : Bool) : ℕ :=
  order16 bigEndian (65535 - fold16 (65535 - order16 bigEndian f.check + (f.flags + 32768)))

theorem after_eq (f : DhcpFrame) (bigEndian : Bool) :
    f.after bigEndian = (f.m.store16 bigEndian (udpHeader f.m + 18)
      (order16 bigEndian (f.flags + 32768))).store16 bigEndian (udpHeader f.m + 6)
        (65535 - fold16 (65535 - order16 bigEndian f.check + (f.flags + 32768))) := by
  obtain ⟨hunset, hset⟩ := order16_flag bigEndian f.flags_lt
  have hlt := f.flags_lt
  have hback : order16 bigEndian (order16 bigEndian (f.flags + 32768)) = f.flags + 32768 :=
    order16_order16 (by omega) bigEndian
  have henabled : (!false) = true ∧ IsDhcpRequest f.m := ⟨rfl, f.request⟩
  have hflags : f.m.host16 bigEndian (udpHeader f.m + 18) = order16 bigEndian f.flags := rfl
  have hcheck : f.m.host16 bigEndian (udpHeader f.m + 6) = order16 bigEndian f.check := rfl
  rw [after, dhcpFlagBcast, if_pos henabled]
  simp only [hflags, if_pos hunset, hset, hback, hcheck]

/-- Two words of the frame are other ones. -/
theorem after_words (f : DhcpFrame) (bigEndian : Bool) :
    (f.after bigEndian).be16 (udpHeader f.m + 6) = f.newCheck bigEndian ∧
      (f.after bigEndian).be16 (udpHeader f.m + 18) = f.flags + 32768 ∧
        ∀ j, (j < udpHeader f.m + 6 ∨ udpHeader f.m + 8 ≤ j) →
          (j < udpHeader f.m + 18 ∨ udpHeader f.m + 20 ≤ j) → f.after bigEndian j = f.m j := by
  have hlt := f.flags_lt
  have hback : order16 bigEndian (order16 bigEndian (f.flags + 32768)) = f.flags + 32768 :=
    order16_order16 (by omega) bigEndian
  rw [after_eq]
  refine ⟨?_, ?_, fun j hcheck hflags => ?_⟩
  · exact Memory.be16_store16 _ _ _ (Nat.lt_succ_of_le (Nat.sub_le _ _))
  · rw [Memory.be16_congr (Memory.store16_outside _ _ (by omega))
      (Memory.store16_outside _ _ (by omega)), Memory.be16_store16 _ _ _ (order16_lt (by omega) _), hback]
  · rw [Memory.store16_outside _ _ hcheck, Memory.store16_outside _ _ hflags]

/-- The new checksum makes up for the flag only where the old flags are not missed. -/
theorem newCheck_iff (f : DhcpFrame) (bigEndian : Bool) :
    f.newCheck bigEndian + 32768 ≡ f.check [MOD 65535] ↔ bigEndian = true ∧ f.flags = 0 := by
  have hflags := f.flags_lt
  have hcheck : f.check < 65536 := f.m.be16_lt _
  have hcompl := compl_fold16 (65535 - order16 bigEndian f.check + (f.flags + 32768))
  have hlt := fold16_lt (65535 - order16 bigEndian f.check + (f.flags + 32768))
  rw [newCheck]
  generalize fold16 (65535 - order16 bigEndian f.check + (f.flags + 32768)) = sum at hcompl hlt ⊢
  unfold Nat.ModEq at hcompl ⊢
  cases bigEndian with
  | true =>
    simp only [order16, if_true, true_and] at hcompl ⊢
    omega
  | false =>
    simp only [order16, Bool.false_eq_true, if_false, false_and, iff_false] at hcompl ⊢
    omega

theorem newCheck_zero (f : DhcpFrame) (hflags : f.flags = 0) :
    f.newCheck true = 0 ↔ f.check = 32768 := by
  have hcheck : f.check < 65536 := f.m.be16_lt _
  have hmod := fold16_modEq (65535 - f.check + (0 + 32768))
  have hlt := fold16_lt (65535 - f.check + (0 + 32768))
  have hpos := fold16_pos (n := 65535 - f.check + (0 + 32768)) (by omega)
  simp only [newCheck, hflags, order16, if_true]
  unfold Nat.ModEq at hmod
  omega

/-- A datagram is its checksum, the flags and the rest. -/
theorem wordSum_datagram (m : Memory) {p u : ℕ} (h : 20 ≤ u) :
    m.wordSum p u = m.be16 (p + 6) + m.be16 (p + 18) +
      (m.wordSum p 6 + (m.wordSum (p + 8) 10 + m.wordSum (p + 20) (u - 20))) := by
  have hfirst := m.hostSum_word true (i := p) (k := 3) (n := u) (by omega)
  have hsecond := m.hostSum_word true (i := p + 8) (k := 5) (n := u - 8) (by omega)
  have hrest : u - 8 - (2 * 5 + 2) = u - 20 := by omega
  rw [hrest] at hsecond
  simp only [Memory.wordSum] at hfirst hsecond ⊢
  rw [hfirst]
  simp only [Nat.reduceMul, Nat.add_assoc, Nat.reduceAdd] at hsecond ⊢
  rw [hsecond]
  simp only [Memory.host16, order16, if_true]
  omega

theorem udpHeader_after (f : DhcpFrame) (bigEndian : Bool) :
    udpHeader (f.after bigEndian) = udpHeader f.m := by
  have hplace : 34 ≤ udpHeader f.m := by
    have := f.ihl
    unfold udpHeader
    omega
  rw [udpHeader, (f.after_words bigEndian).2.2 14 (by omega) (by omega)]
  rfl

theorem sumValid_iff (f : DhcpFrame) (bigEndian : Bool) :
    UdpSumValid (f.after bigEndian) ↔ bigEndian = true ∧ f.flags = 0 := by
  obtain ⟨hcheck, hflags, hsame⟩ := f.after_words bigEndian
  have hplace : 34 ≤ udpHeader f.m := by
    have := f.ihl
    unfold udpHeader
    omega
  have hsum : ∀ i n, (i + n ≤ udpHeader f.m + 6 ∨ udpHeader f.m + 8 ≤ i) →
      (i + n ≤ udpHeader f.m + 18 ∨ udpHeader f.m + 20 ≤ i) →
      (f.after bigEndian).wordSum i n = f.m.wordSum i n := by
    intro i n hbefore hbehind
    apply Memory.hostSum_congr
    intro j hj hlt
    exact hsame j (by omega) (by omega)
  have hlen : (f.after bigEndian).be16 (udpHeader f.m + 4) = f.m.be16 (udpHeader f.m + 4) :=
    Memory.be16_congr (hsame _ (by omega) (by omega)) (hsame _ (by omega) (by omega))
  have hold := f.valid.2
  unfold UdpSumValid at hold ⊢
  rw [udpHeader_after, hlen]
  rw [wordSum_datagram _ f.covered] at hold ⊢
  rw [hcheck, hflags, hsum 26 8 (by omega) (by omega), hsum _ 6 (by omega) (by omega),
    hsum _ 10 (by omega) (by omega), hsum _ _ (by omega) (by omega), ← newCheck_iff]
  change _ + _ + (f.check + f.flags + _) ≡ 0 [MOD 65535] at hold
  unfold Nat.ModEq at hold ⊢
  omega

/-- On a big-endian host, with flags of zero. -/
theorem checksumValid_iff (f : DhcpFrame) (bigEndian : Bool) :
    UdpChecksumValid (f.after bigEndian) ↔
      bigEndian = true ∧ f.flags = 0 ∧ f.check ≠ 32768 := by
  rw [UdpChecksumValid, sumValid_iff, udpHeader_after, (f.after_words bigEndian).1]
  constructor
  · rintro ⟨hzero, rfl, hflags⟩
    exact ⟨rfl, hflags, fun hcheck => hzero ((newCheck_zero f hflags).mpr hcheck)⟩
  · rintro ⟨rfl, hflags, hcheck⟩
    exact ⟨fun hzero => hcheck ((newCheck_zero f hflags).mp hzero), rfl, hflags⟩

end DhcpFrame
namespace NdFrame
variable {f : NdFrame}

/-- The addresses and the length stand in front of the message. -/
theorem changed_before (f : NdFrame) (bigEndian : Bool) {j : ℕ} (hj : j < 54) :
    f.changed bigEndian j = f.m j := by
  rw [changed, Memory.store16_outside _ _ (by omega), Memory.write_outside _ (by omega)]

theorem changed_payloadLen (f : NdFrame) (bigEndian : Bool) :
    (f.changed bigEndian).be16 18 = f.payloadLen :=
  Memory.be16_congr (f.changed_before bigEndian (by decide)) (f.changed_before bigEndian (by decide))

/-- The checksum that is computed, as the host sees it. -/
def newCksum (f : NdFrame) (bigEndian : Bool) : ℕ :=
  csumIpv6Magic bigEndian (f.changed bigEndian) 22 38 (order16 bigEndian f.payloadLen) 58
    (csumPartial bigEndian (f.changed bigEndian) 54 (order16 bigEndian f.payloadLen))

theorem nat25InsertIpv6_eq (f : NdFrame) (bigEndian : Bool) :
    nat25InsertIpv6 bigEndian f.m f.myHwaddr f.len f.fuel =
      some ((f.changed bigEndian).store16 bigEndian 56 (f.newCksum bigEndian),
        ⟨54, order16 bigEndian f.payloadLen⟩) := by
  have hroom := f.room
  have hbranch : f.m.be16 12 = 0x86dd ∧ 54 < f.len ∧ f.m.read 22 16 ≠ List.replicate 16 0 ∧
      f.m 20 = 58 ∧ 58 < f.len := ⟨f.ipv6, by omega, f.sender, f.icmpv6, hroom⟩
  obtain ⟨reads, hscan⟩ := f.scan
  have hlen : (f.changed bigEndian).host16 bigEndian 18 = order16 bigEndian f.payloadLen := by
    rw [Memory.host16, changed_payloadLen]
  unfold changed at hlen
  rw [nat25InsertIpv6, if_pos hbranch, hscan]
  simp only [hlen]
  rfl

/-- The checksum makes up for the pseudo header and the message, both with the length as the host
reads it. -/
theorem newCksum_modEq (f : NdFrame) (bigEndian : Bool) :
    order16 bigEndian (f.newCksum bigEndian) + ((f.changed bigEndian).wordSum 22 16 +
      (f.changed bigEndian).wordSum 38 16 + order16 bigEndian f.payloadLen + 58 +
        (f.changed bigEndian).wordSum 54 (order16 bigEndian f.payloadLen)) ≡ 0 [MOD 65535] := by
  have hcompl := compl_fold16 ((f.changed bigEndian).hostSum bigEndian 22 16 +
    (f.changed bigEndian).hostSum bigEndian 38 16 +
    order16 bigEndian (order16 bigEndian f.payloadLen) + order16 bigEndian 58 +
    (f.changed bigEndian).hostSum bigEndian 54 (order16 bigEndian f.payloadLen))
  apply orderFactor_cancel bigEndian
  rw [Nat.mul_add, Nat.mul_zero]
  apply Nat.ModEq.trans _ hcompl
  apply (orderFactor_order16 bigEndian _).add
  simp only [Nat.mul_add]
  have hsum := fun i n => ((f.changed bigEndian).hostSum_modEq bigEndian i n).symm
  have hword := fun n => (order16_modEq bigEndian n).symm
  exact ((((hsum 22 16).add (hsum 38 16)).add (hword _)).add (hword 58)).add (hsum 54 _)

/-- The changed message with a checksum. -/
theorem icmpv6Valid_iff (f : NdFrame) (bigEndian : Bool) {cksum : ℕ} (hcksum : cksum < 65536) :
    Icmpv6Valid ((f.changed bigEndian).store16 bigEndian 56 cksum) ↔
      order16 bigEndian cksum + ((f.changed bigEndian).wordSum 22 16 +
        (f.changed bigEndian).wordSum 38 16 + f.payloadLen + 58 +
          (f.changed bigEndian).wordSum 54 f.payloadLen) ≡ 0 [MOD 65535] := by
  have hpayload : 2 * 1 + 2 ≤ f.payloadLen := f.payload.1
  have hkept : ∀ i n, i + n ≤ 56 ∨ 58 ≤ i →
      ((f.changed bigEndian).store16 bigEndian 56 cksum).wordSum i n =
        (f.changed bigEndian).wordSum i n := by
    intro i n h
    apply Memory.hostSum_congr
    exact fun j hj hlt => Memory.store16_outside _ _ (by omega)
  have hlen : ((f.changed bigEndian).store16 bigEndian 56 cksum).be16 18 = f.payloadLen := by
    rw [← changed_payloadLen f bigEndian]
    exact Memory.be16_congr (Memory.store16_outside _ _ (by decide))
      (Memory.store16_outside _ _ (by decide))
  have hword : ∀ m : Memory, m.wordSum 54 f.payloadLen =
      m.wordSum 54 2 + (m.be16 56 + m.wordSum 58 (f.payloadLen - 4)) :=
    fun m => m.hostSum_word true hpayload
  have hzero : (f.changed bigEndian).be16 56 = 0 := by
    rw [changed, Memory.be16_store16 _ _ _ (by decide)]
    cases bigEndian <;> rfl
  rw [Icmpv6Valid, hlen, hkept 22 16 (by decide), hkept 38 16 (by decide), hword, hword, hzero,
    hkept 54 2 (by decide), hkept 58 _ (by omega), Memory.be16_store16 _ _ _ hcksum]
  unfold Nat.ModEq
  omega

theorem sound_iff_fits (f : NdFrame) (bigEndian : Bool) : f.Sound bigEndian ↔ f.Fits bigEndian := by
  have hnew := f.newCksum_modEq bigEndian
  have hcksum : f.newCksum bigEndian < 65536 := Nat.lt_succ_of_le (Nat.sub_le _ _)
  have hvalid := f.icmpv6Valid_iff bigEndian hcksum
  have hsum : Icmpv6Valid ((f.changed bigEndian).store16 bigEndian 56 (f.newCksum bigEndian)) ↔
      order16 bigEndian f.payloadLen +
          (f.changed bigEndian).wordSum 54 (order16 bigEndian f.payloadLen) ≡
        f.payloadLen + (f.changed bigEndian).wordSum 54 f.payloadLen [MOD 65535] := by
    rw [hvalid]
    unfold Nat.ModEq at hnew ⊢
    omega
  constructor
  · rintro ⟨m', read, hinsert, hchecked, -, hread⟩
    rw [nat25InsertIpv6_eq] at hinsert
    obtain ⟨rfl, rfl⟩ := Prod.mk.inj (Option.some.inj hinsert)
    exact ⟨Nat.le_of_add_le_add_left hread, hsum.mp hchecked⟩
  · rintro ⟨hinside, hmatch⟩
    exact ⟨_, _, f.nat25InsertIpv6_eq bigEndian, hsum.mpr hmatch, Nat.le_refl 54,
      Nat.add_le_add_left hinside 54⟩

/-- The length is read as it is on a big-endian host. -/
theorem fits_bigEndian (f : NdFrame) : f.Fits true := ⟨Nat.le_refl _, Nat.ModEq.refl _⟩

end NdFrame

/-- The UDP checksum is right on a big-endian host without earlier flags, the ICMPv6 checksum where the
length as the host reads it leads to the same sum. -/
theorem checksumRepair_sound_iff (bigEndian : Bool) :
    (∀ f : DhcpFrame,
      (UdpChecksumValid (f.after bigEndian) ↔ bigEndian = true ∧ f.flags = 0 ∧ f.check ≠ 32768) ∧
        (UdpSumValid (f.after bigEndian) ↔ bigEndian = true ∧ f.flags = 0)) ∧
      ∀ f : NdFrame, f.Sound bigEndian ↔ f.Fits bigEndian := by
  refine ⟨fun f => ⟨f.checksumValid_iff bigEndian, f.sumValid_iff bigEndian⟩, fun f => ?_⟩
  exact f.sound_iff_fits bigEndian

section Frames

/-- A DHCP request up to the client's address; zeroes and the cookie follow. -/
def dhcpBytes : List UInt8 := [
  0xff, 0xff, 0xff, 0xff, 0xff, 0xff, 0x00, 0x1b, 0x21, 0x0a, 0x0b, 0x0c, 0x08, 0x00,
  0x45, 0x00, 0x01, 0x0c, 0x00, 0x00, 0x00, 0x00, 0x40, 0x11, 0x79, 0xe2, 0x00, 0x00,
  0x00, 0x00, 0xff, 0xff, 0xff, 0xff, 0x00, 0x44, 0x00, 0x43, 0x00, 0xf8, 0xe7, 0x35,
  0x01, 0x01, 0x06, 0x00, 0x39, 0x03, 0xf3, 0x26, 0x00, 0x00, 0x00, 0x00, 0x00, 0x00,
  0x00, 0x00, 0x00, 0x00, 0x00, 0x00, 0x00, 0x00, 0x00, 0x00, 0x00, 0x00, 0x00, 0x00,
  0x00, 0x1b, 0x21, 0x0a, 0x0b, 0x0c] ++ List.replicate 202 0 ++ dhcpMagic

def dhcpFrame : DhcpFrame where
  m := fun i => dhcpBytes.getD i 0
  ihl := by decide
  request := by decide
  unset := by decide
  covered := by decide
  valid := by
    unfold UdpChecksumValid UdpSumValid
    decide +kernel

/-- A neighbour solicitation with the address of its sender. -/
def ndBytes : List UInt8 := [
  0x33, 0x33, 0xff, 0x00, 0x00, 0x01, 0x00, 0x1b, 0x21, 0x0a, 0x0b, 0x0c, 0x86, 0xdd,
  0x60, 0x00, 0x00, 0x00, 0x00, 0x20, 0x3a, 0xff, 0xfe, 0x80, 0x00, 0x00, 0x00, 0x00,
  0x00, 0x00, 0x00, 0x00, 0x00, 0x00, 0x00, 0x00, 0x00, 0x02, 0xff, 0x02, 0x00, 0x00,
  0x00, 0x00, 0x00, 0x00, 0x00, 0x00, 0x00, 0x01, 0xff, 0x00, 0x00, 0x01, 0x87, 0x00,
  0x50, 0x68, 0x00, 0x00, 0x00, 0x00, 0xfe, 0x80, 0x00, 0x00, 0x00, 0x00, 0x00, 0x00,
  0x00, 0x00, 0x00, 0x00, 0x00, 0x00, 0x00, 0x01, 0x01, 0x01, 0x00, 0x1b, 0x21, 0x0a,
  0x0b, 0x0c]

def ndFrame : NdFrame where
  m := fun i => ndBytes.getD i 0
  len := 86
  myHwaddr := [0x00, 0xe0, 0x4c, 0x81, 0x88, 0x01]
  ipv6 := by decide
  sender := by decide
  icmpv6 := by decide
  payload := by decide
  room := by decide
  fuel := 1
  mac := 26
  scan := ⟨[⟨24, 1⟩, ⟨25, 1⟩], by decide⟩

/-- Both frames on a little-endian host. -/
theorem littleEndian_unsound :
    ¬UdpSumValid (dhcpFrame.after false) ∧ ¬ndFrame.Sound false := by
  constructor
  · rw [DhcpFrame.sumValid_iff]
    exact fun h => Bool.false_ne_true h.1
  · rw [NdFrame.sound_iff_fits]
    exact fun h => absurd h.inside (by decide)

end Frames
end Rtl8188eu.BrExt

import Mathlib.Data.List.Find
import StandaloneDrivers.Foundations.Run
import StandaloneDrivers.Rtl8188eu.Nat25

/-! What the NAT2.5 data base knows after any run of insertions, lookups and expiry runs, and when
a lookup answers as the frames heard from an address say. -/
namespace Rtl8188eu.BrExt
open Foundations

inductive IpAddr where
  | v4 (bytes : List UInt8)
  | v6 (bytes : List UInt8)
  deriving DecidableEq

/-- An IPv4 or IPv6 frame with its whole header, or an ARP frame for IPv4 over Ethernet. -/
def wellFormed (skb : Skb) : Bool :=
  let data := skb.data
  (skb.protocol == 0x0800 && byteAt data 14 / 16 == 4 && decide (5 ≤ byteAt data 14 % 16) &&
    decide (14 + byteAt data 14 % 16 * 4 ≤ data.length)) ||
  (skb.protocol == 0x0806 && be16 data 14 == 1 && be16 data 16 == 0x0800 &&
    byteAt data 18 == 6 && byteAt data 19 == 4 && decide (42 ≤ data.length)) ||
  (skb.protocol == 0x86dd && byteAt data 14 / 16 == 6 && decide (54 ≤ data.length))

def IpAddr.unspecified : IpAddr → Bool
  | v4 bytes => bytes == List.replicate 4 0
  | v6 bytes => bytes == List.replicate 16 0

/-- An address field of the frame, at its place in each of the three protocols. -/
def ipField (skb : Skb) (ip arp ipv6 : ℕ) : IpAddr :=
  if skb.protocol = 0x0800 then .v4 (field skb.data ip 4)
  else if skb.protocol = 0x0806 then .v4 (field skb.data arp 4)
  else .v6 (field skb.data ipv6 16)

/-- The address a frame gives as its sender's. -/
def senderIp (skb : Skb) : Option IpAddr :=
  let ip := ipField skb 26 28 22
  if wellFormed skb && !ip.unspecified then some ip else none

/-- The address a frame is for. -/
def targetIp (skb : Skb) : Option IpAddr :=
  if wellFormed skb then some (ipField skb 30 38 38) else none

/-- A frame given to `NAT25_INSERT`, and whether there was an entry or memory for one. -/
structure Heard where
  skb : Skb
  time : ℕ
  kept : Bool

structure World (h : Host) where
  priv : Priv h.bits
  time : ℕ
  heard : List Heard

inductive Call where
  | wait (ticks : ℕ)
  | insert (storage : Bool) (skb : Skb)
  | lookup (bridge : Option Mac) (skb : Skb)
  | expire

namespace World
variable {h : Host} (w : World h)

def jiffies : BitVec h.bits := BitVec.ofNat h.bits w.time

/-- The entry of the frame's address exists, or there is memory for one. -/
def keeps (storage : Bool) (skb : Skb) : Bool :=
  storage || ((insertAddr h skb).bind (w.priv.find h)).isSome

def step (w : World h) : Call → World h
  | .wait ticks => { w with time := w.time + ticks }
  | .insert storage skb =>
    { w with
      priv := nat25Insert h w.priv w.jiffies storage skb
      heard := ⟨skb, w.time, w.keeps storage skb⟩ :: w.heard }
  | .lookup bridge skb => { w with priv := (nat25Lookup h w.priv w.jiffies bridge skb).1 }
  | .expire => { w with priv := nat25DbExpire h w.priv w.jiffies }

/-- Before the first frame. -/
def Empty : Prop := w.priv.nethash = (fun _ => []) ∧ w.heard = []

def within (f : Heard) : Bool := w.time - f.time < 300 * h.hz

/-- The latest frame that gives an address as its sender's. -/
def heardFrom (a : IpAddr) : Option Heard := w.heard.find? fun f => senderIp f.skb = some a

/-- The latest frame that was recorded under a key. -/
def filedUnder (k : NetworkAddr) : Option Heard :=
  w.heard.find? fun f => f.kept ∧ insertAddr h f.skb = some k

def learned (a : IpAddr) : Option Mac := ((w.heardFrom a).filter w.within).map (·.skb.source)

def recorded (k : NetworkAddr) : Option Mac :=
  ((w.filedUnder k).filter w.within).map (·.skb.source)

/-- The frames recorded under the key of the lookup and those heard from the address agree. -/
def Agrees (skb : Skb) : Prop :=
  ∀ a, targetIp skb = some a →
    ((lookupQuery h skb).bind fun q => w.recorded q.addr) = w.learned a

/-- An entry left under the key of the lookup is fresh; where the frame is not an IPv4 one it may
be one whose age the clock shows to be over. -/
def Current (skb : Skb) : Prop :=
  ∀ q f, lookupQuery h skb = some q → w.filedUnder q.addr = some f →
    (w.priv.find h q.addr).isSome → w.within f ∨
      q.forward = false ∧
        timeBeforeEq (BitVec.ofNat h.bits f.time) (nat25Timeout h w.jiffies) = true

/-- The lookup gives the sender that was learned; without one it does what it does on an empty
data base. -/
def Answers (bridge : Option Mac) (skb : Skb) : Prop :=
  ∀ a, targetIp skb = some a →
    let result := (nat25Lookup h w.priv w.jiffies bridge skb).2
    match w.learned a with
    | some mac => result.dest = mac
    | none => result =
        (nat25Lookup h { w.priv with nethash := fun _ => [] } w.jiffies bridge skb).2

/-- The entry of a key is the latest frame recorded under it; without an entry that frame is too
old. -/
structure Known : Prop where
  chained : w.priv.Chained h
  past : ∀ f ∈ w.heard, f.time ≤ w.time
  bound : ∀ k b, w.priv.binding h k = some b → ∃ f, w.filedUnder k = some f ∧
    b.macAddr = f.skb.source ∧ b.ageingTimer = BitVec.ofNat h.bits f.time
  lost : ∀ k f, w.priv.binding h k = none → w.filedUnder k = some f →
    300 * h.hz ≤ w.time - f.time

variable {w}

theorem Known.start (hw : w.Empty) : w.Known where
  chained := by
    rw [Priv.Chained, hw.1]
    exact Hashed.empty
  past f hf := by
    rw [hw.2] at hf
    cases hf
  bound k b hb := by
    rw [Priv.binding, Priv.find, hw.1] at hb
    cases hb
  lost k f hk hf := by
    rw [filedUnder, hw.2] at hf
    cases hf

theorem Known.wait (hw : w.Known) (ticks : ℕ) : (w.step (.wait ticks)).Known where
  chained := hw.chained
  past f hf := Nat.le_add_right_of_le (hw.past f hf)
  bound := hw.bound
  lost k f hk hf := by
    have hold := hw.lost k f hk hf
    simp only [step]
    omega

theorem Known.lookup (hw : w.Known) (bridge : Option Mac) (skb : Skb) :
    (w.step (.lookup bridge skb)).Known where
  chained := nat25Lookup_chained h hw.chained bridge skb
  past := hw.past
  bound k b hb := by
    rw [step, nat25Lookup_binding] at hb
    exact hw.bound k b hb
  lost k f hk hf := by
    rw [step, nat25Lookup_binding] at hk
    exact hw.lost k f hk hf

/-- An expired entry is as old as the ageing time. -/
theorem Known.old (hw : w.Known) {k : NetworkAddr} {b : Binding h.bits}
    (hb : w.priv.binding h k = some b) (hexp : b.expired h w.jiffies = true) {f : Heard}
    (hf : w.filedUnder k = some f) : 300 * h.hz ≤ w.time - f.time := by
  obtain ⟨f', hf', -, htime⟩ := hw.bound k b hb
  rw [hf] at hf'
  cases hf'
  by_contra hlt
  have hpast := hw.past f (List.mem_of_find?_eq_some hf)
  have hfresh := timeBeforeEq_fresh h hpast (Nat.lt_of_not_le hlt)
  rw [Binding.expired, htime, jiffies, hfresh] at hexp
  cases hexp

theorem Known.expire (hw : w.Known) : (w.step .expire).Known where
  chained := nat25DbExpire_chained h hw.chained
  past := hw.past
  bound k b hb := by
    rw [step] at hb
    rcases @nat25DbExpire_binding h _ w.jiffies hw.chained k with heq | ⟨hnone, -⟩
    · rw [heq] at hb
      exact hw.bound k b hb
    · rw [hnone] at hb
      cases hb
  lost k f hk hf := by
    rw [step] at hk
    rcases @nat25DbExpire_binding h _ w.jiffies hw.chained k with heq | ⟨-, b, hb, hexp⟩
    · rw [heq] at hk
      exact hw.lost k f hk hf
    · exact hw.old hb hexp hf

/-- A frame that is not recorded changes no answer. -/
theorem filedUnder_unrecorded {f : Heard} (hf : ∀ k, ¬ (f.kept ∧ insertAddr h f.skb = some k))
    {w' : World h} (hw' : w'.heard = f :: w.heard) (k : NetworkAddr) :
    w'.filedUnder k = w.filedUnder k := by
  rw [filedUnder, hw']
  exact List.find?_cons_of_neg (by simpa using hf k)

theorem filedUnder_recorded {f : Heard} {a : NetworkAddr} (hkept : f.kept = true)
    (hf : insertAddr h f.skb = some a) {w' : World h} (hw' : w'.heard = f :: w.heard)
    (k : NetworkAddr) : w'.filedUnder k = if k = a then some f else w.filedUnder k := by
  rw [filedUnder, hw']
  by_cases hk : k = a
  · rw [if_pos hk, hk]
    exact List.find?_cons_of_pos (by simp [hkept, hf])
  · rw [if_neg hk]
    apply List.find?_cons_of_neg
    simp only [hkept, hf, decide_eq_true_eq, Option.some.injEq, true_and]
    exact fun heq => hk heq.symm

/-- A frame that is recorded becomes the entry of its address. -/
theorem Known.recorded (hw : w.Known) {storage : Bool} {skb : Skb} {a : NetworkAddr}
    (ha : insertAddr h skb = some a) (hkept : w.keeps storage skb = true) :
    (w.step (.insert storage skb)).Known := by
  have hpriv : (w.step (.insert storage skb)).priv =
      networkInsert h w.priv w.jiffies storage skb.source a := by
    simp only [step, nat25Insert, ha]
  have hkeeps : (storage || (w.priv.find h a).isSome) = true := by
    rwa [keeps, ha, Option.bind_some] at hkept
  obtain ⟨i, hbinding⟩ := @networkInsert_kept h _ w.jiffies _ _ hkeeps skb.source
  have hfiled := @filedUnder_recorded h w ⟨skb, w.time, w.keeps storage skb⟩ a hkept ha
    (w.step (.insert storage skb)) rfl
  constructor
  · rw [hpriv]
    exact networkInsert_chained h hw.chained storage skb.source a
  · intro f hf
    rcases List.mem_cons.mp hf with rfl | hf
    · exact Nat.le_refl _
    · exact hw.past f hf
  · intro k b hb
    rw [hpriv, hbinding] at hb
    rw [hfiled]
    split at hb
    · rename_i hk
      cases hb
      exact ⟨_, if_pos hk, rfl, rfl⟩
    · rename_i hk
      rw [if_neg hk]
      exact hw.bound k b hb
  · intro k f hk hf
    rw [hpriv, hbinding] at hk
    rw [hfiled] at hf
    split at hk
    · cases hk
    · rename_i hne
      rw [if_neg hne] at hf
      exact hw.lost k f hk hf

/-- Any other frame leaves the data base alone. -/
theorem Known.unrecorded (hw : w.Known) {storage : Bool} {skb : Skb}
    (hnone : ∀ k, ¬ (w.keeps storage skb ∧ insertAddr h skb = some k)) :
    (w.step (.insert storage skb)).Known := by
  have hpriv : (w.step (.insert storage skb)).priv = w.priv := by
    cases ha : insertAddr h skb with
    | none => simp only [step, nat25Insert, ha]
    | some a =>
      have hkeeps : (storage || (w.priv.find h a).isSome) = false := by
        rw [Bool.eq_false_iff]
        intro hkept
        apply hnone a
        constructor
        · rwa [keeps, ha, Option.bind_some]
        · exact ha
      simp only [step, nat25Insert, ha]
      exact networkInsert_dropped h hkeeps skb.source
  have hfiled := @filedUnder_unrecorded h w ⟨skb, w.time, w.keeps storage skb⟩ hnone
    (w.step (.insert storage skb)) rfl
  constructor
  · rw [hpriv]
    exact hw.chained
  · intro f hf
    rcases List.mem_cons.mp hf with rfl | hf
    · exact Nat.le_refl _
    · exact hw.past f hf
  · intro k b hb
    rw [hpriv] at hb
    rw [hfiled]
    exact hw.bound k b hb
  · intro k f hk hf
    rw [hpriv] at hk
    rw [hfiled] at hf
    exact hw.lost k f hk hf

theorem Known.insert (hw : w.Known) (storage : Bool) (skb : Skb) :
    (w.step (.insert storage skb)).Known := by
  by_cases hkept : w.keeps storage skb ∧ (insertAddr h skb).isSome
  · obtain ⟨a, ha⟩ := Option.isSome_iff_exists.mp hkept.2
    exact hw.recorded ha hkept.1
  · apply hw.unrecorded
    rintro k ⟨hkeeps, hk⟩
    exact hkept ⟨hkeeps, Option.isSome_iff_exists.mpr ⟨k, hk⟩⟩

theorem Known.step (hw : w.Known) (c : Call) : (w.step c).Known := by
  cases c with
  | wait ticks => exact hw.wait ticks
  | insert storage skb => exact hw.insert storage skb
  | lookup bridge skb => exact hw.lookup bridge skb
  | expire => exact hw.expire

theorem Known.run (hw : w.Known) (calls : List Call) : (run World.step w calls).Known :=
  run_invariant Known (fun _ c hw => hw.step c) calls hw

/-- A frame heard within the ageing time has a fresh entry under its key. -/
theorem Known.fresh (hw : w.Known) {k : NetworkAddr} {mac : Mac} (hk : w.recorded k = some mac) :
    ∃ b, w.priv.binding h k = some b ∧ b.expired h w.jiffies = false ∧ b.macAddr = mac ∧
      mac.length = 6 := by
  rw [World.recorded] at hk
  obtain ⟨f, hfilter, rfl⟩ := Option.map_eq_some_iff.mp hk
  obtain ⟨hf, hwithin⟩ := Option.filter_eq_some_iff.mp hfilter
  have hage : w.time - f.time < 300 * h.hz := of_decide_eq_true hwithin
  cases hb : w.priv.binding h k with
  | none =>
    have hold := hw.lost k f hb hf
    omega
  | some b =>
    obtain ⟨f', hf', hmac, htime⟩ := hw.bound k b hb
    rw [hf] at hf'
    cases hf'
    refine ⟨b, rfl, ?_, hmac, field_length _ _ _⟩
    rw [Binding.expired, htime]
    exact timeBeforeEq_fresh h (hw.past f (List.mem_of_find?_eq_some hf)) hage

section Example

def idleWorld : World littleHost where
  priv := { nethash := fun _ => [], allocations := 0, scdbMac := List.replicate 6 0,
            scdbIp := List.replicate 4 0, scdbEntry := none,
            brMac := [0x02, 0x00, 0x00, 0x00, 0x00, 0xfe], brIp := List.replicate 4 0 }
  time := 1000
  heard := []

/-- The client 02:00:00:00:00:0a answers as 192.168.1.10. -/
def arpReply : Skb where
  data := [0x02, 0x00, 0x00, 0x00, 0x00, 0xfe, 0x02, 0x00, 0x00, 0x00, 0x00, 0x0a, 0x08, 0x06,
    0x00, 0x01, 0x08, 0x00, 0x06, 0x04, 0x00, 0x02, 0x02, 0x00, 0x00, 0x00, 0x00, 0x0a,
    192, 168, 1, 10, 0x02, 0x00, 0x00, 0x00, 0x00, 0xfe, 192, 168, 1, 1]
  header := by decide

/-- An IPv4 header from 192.168.1.1 to 192.168.1.10. -/
def ipToClient : Skb where
  data := [0x00, 0xe0, 0x4c, 0x81, 0x88, 0x01, 0x00, 0x11, 0x22, 0x33, 0x44, 0x55, 0x08, 0x00,
    0x45, 0, 0, 20, 0, 0, 0, 0, 64, 17, 0, 0, 192, 168, 1, 1, 192, 168, 1, 10]
  header := by decide

/-- The router asks 192.168.1.10 for its MAC address again. -/
def arpToClient : Skb where
  data := [0x00, 0xe0, 0x4c, 0x81, 0x88, 0x01, 0x00, 0x11, 0x22, 0x33, 0x44, 0x55, 0x08, 0x06,
    0x00, 0x01, 0x08, 0x00, 0x06, 0x04, 0x00, 0x01, 0x00, 0x11, 0x22, 0x33, 0x44, 0x55,
    192, 168, 1, 1, 0, 0, 0, 0, 0, 0, 192, 168, 1, 10]
  header := by decide

end Example

/-- Only an age of more than half the range of `jiffies` seems negative. -/
theorem current_of_age {skb : Skb} (hq : ∀ q, lookupQuery h skb = some q → q.forward = false)
    (hage : ∀ f ∈ w.heard, w.time - f.time < 300 * h.hz + 2 ^ (h.bits - 1)) : w.Current skb := by
  intro q f hquery hf _
  by_cases hwithin : w.within f
  · exact Or.inl hwithin
  · apply Or.inr
    constructor
    · exact hq q hquery
    · apply timeBeforeEq_stale h _ (hage f (List.mem_of_find?_eq_some hf))
      simpa [within] using hwithin

end World

/-- The key of an address where memory holds it in network order. -/
def IpAddr.key : IpAddr → NetworkAddr
  | v4 bytes => generateIpv4NetworkAddr bytes
  | v6 bytes => generateIpv6NetworkAddr bytes

/-- Well-formed, from a real address, and not an IPv6 header alone. -/
structure Regular (skb : Skb) : Prop where
  wellFormed : wellFormed skb = true
  sender : (ipField skb 26 28 22).unspecified = false
  payload : skb.protocol = 0x86dd → 54 < skb.data.length

def IpAddr.Sized : IpAddr → Prop
  | v4 bytes => bytes.length = 4
  | v6 bytes => bytes.length = 16

theorem ipField_sized (skb : Skb) (ip arp ipv6 : ℕ) : (ipField skb ip arp ipv6).Sized := by
  unfold ipField
  split
  · exact field_length _ _ _
  · split <;> exact field_length _ _ _

theorem IpAddr.key_inj {a b : IpAddr} (ha : a.Sized) (hb : b.Sized) (h : a.key = b.key) :
    a = b := by
  cases a with
  | v4 x =>
    cases b with
    | v4 y => exact congrArg v4 (generateIpv4NetworkAddr_inj ha hb h)
    | v6 y => exact absurd h (generateNetworkAddr_ne (by decide) _ _)
  | v6 x =>
    cases b with
    | v4 y => exact absurd h (generateNetworkAddr_ne (by decide) _ _)
    | v6 y => exact congrArg v6 (generateIpv6NetworkAddr_inj ha hb h)

theorem wellFormed_cases {skb : Skb} (hskb : wellFormed skb = true) :
    (skb.protocol = 0x0800 ∧ ipMalformed skb = false) ∨
    (skb.protocol = 0x0806 ∧ be16 skb.data 16 = 0x0800 ∧ byteAt skb.data 18 = 6 ∧
      byteAt skb.data 19 = 4) ∨ skb.protocol = 0x86dd := by
  simp only [wellFormed, Bool.or_eq_true, Bool.and_eq_true, beq_iff_eq, decide_eq_true_eq] at hskb
  rcases hskb with (⟨⟨⟨hp, -⟩, -⟩, hlen⟩ | ⟨⟨⟨⟨⟨hp, -⟩, hpro⟩, hhln⟩, hpln⟩, -⟩) | ⟨⟨hp, -⟩, -⟩
  · apply Or.inl
    constructor
    · exact hp
    · simp only [ipMalformed, decide_eq_false_iff_not, Nat.not_le]
      omega
  · exact Or.inr (Or.inl ⟨hp, hpro, hhln, hpln⟩)
  · exact Or.inr (Or.inr hp)

theorem ipv6Malformed_false {skb : Skb} (hlen : 54 < skb.data.length) :
    ipv6Malformed skb = false := by
  simp only [ipv6Malformed, decide_eq_false_iff_not]
  omega

section BigEndian
variable {h : Host} {skb : Skb}

theorem insertAddr_bigEndian (hbig : h.bigEndian = true) (hskb : Regular skb) :
    insertAddr h skb = (senderIp skb).map IpAddr.key := by
  have hsender := hskb.sender
  rw [senderIp, hskb.wellFormed, hsender, Bool.not_false, Bool.and_true, if_pos rfl,
    Option.map_some]
  unfold ipField at hsender ⊢
  rcases wellFormed_cases hskb.wellFormed with ⟨hp, hmal⟩ | ⟨hp, hpro, hhln, hpln⟩ | hp
  · rw [if_pos hp, IpAddr.unspecified] at hsender
    have hzero : (field skb.data 26 4 == [0, 0, 0, 0]) = false := hsender
    simp [insertAddr, hp, hmal, hzero, Host.be32ToCpu, hbig, IpAddr.key]
  · have hsame : field (skb.write 22 h.myHwaddr).data 28 4 = field skb.data 28 4 := by
      apply field_overwrite_behind
      rw [h.hwaddrLength]
    simp [insertAddr, hp, hpro, hhln, hsame, IpAddr.key]
  · have hmal := ipv6Malformed_false (hskb.payload hp)
    rw [if_neg (by omega), if_neg (by omega), IpAddr.unspecified] at hsender
    simpa [insertAddr, hp, hmal, IpAddr.key] using hsender

theorem lookupQuery_bigEndian (hbig : h.bigEndian = true) (hskb : wellFormed skb = true)
    (hpayload : skb.protocol = 0x86dd → 54 < skb.data.length) :
    (lookupQuery h skb).map Query.addr = (targetIp skb).map IpAddr.key := by
  rw [targetIp, if_pos hskb, Option.map_some]
  unfold ipField
  rcases wellFormed_cases hskb with ⟨hp, hmal⟩ | ⟨hp, hpro, hhln, hpln⟩ | hp
  · simp [lookupQuery, hp, hmal, Host.be32ToCpu, hbig, IpAddr.key]
  · simp [lookupQuery, hp, hpro, hhln, hpln, IpAddr.key]
  · have hmal := ipv6Malformed_false (hpayload hp)
    simp [lookupQuery, hp, hmal, IpAddr.key]

/-- On a big-endian host every lookup agrees with what regular frames taught. -/
theorem agrees_of_bigEndian {w : World h} (hbig : h.bigEndian = true)
    (hheard : ∀ f ∈ w.heard, f.kept = true ∧ Regular f.skb)
    (hpayload : skb.protocol = 0x86dd → 54 < skb.data.length) : w.Agrees skb := by
  intro a ha
  have hskb : wellFormed skb = true := by
    by_contra hmal
    rw [targetIp, if_neg hmal] at ha
    cases ha
  have hsized : a.Sized := by
    rw [targetIp, if_pos hskb] at ha
    cases ha
    exact ipField_sized skb 30 38 38
  have hquery := lookupQuery_bigEndian hbig hskb hpayload
  rw [ha, Option.map_some] at hquery
  obtain ⟨q, hq, hkey⟩ := Option.map_eq_some_iff.mp hquery
  have hsame : w.filedUnder q.addr = w.heardFrom a := by
    rw [World.filedUnder, World.heardFrom, hkey]
    apply List.find?_congr
    intro f hf
    obtain ⟨hkept, hreg⟩ := hheard f hf
    rw [insertAddr_bigEndian hbig hreg, senderIp, hreg.wellFormed, hreg.sender]
    simp only [hkept, Bool.not_false, Bool.and_self, if_true, Option.map_some, Option.some.injEq,
      true_and, decide_eq_decide]
    constructor
    · exact IpAddr.key_inj (ipField_sized _ _ _ _) hsized
    · exact congrArg IpAddr.key
  rw [hq, Option.bind_some, World.recorded, hsame]
  rfl

end BigEndian
end Rtl8188eu.BrExt

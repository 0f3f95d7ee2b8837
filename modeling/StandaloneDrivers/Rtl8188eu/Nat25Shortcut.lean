import StandaloneDrivers.Rtl8188eu.Nat25

/-! The single-client shortcut of the NAT2.5 bridge extension: `rtw_br_client_tx`,
`nat25_handle_frame` and `scdb_findEntry`, and when they agree with the data base. -/
namespace Rtl8188eu.BrExt
open Foundations

namespace Skb

/-- The frame without its VLAN tag. -/
def untag (skb : Skb) : Skb where
  data := field skb.data 0 12 ++ skb.data.drop 16 ++ List.replicate (18 - skb.data.length) 0
  header := by
    simp only [List.length_append, field_length, List.length_drop, List.length_replicate]
    omega

/-- The VLAN tag of `old` is put back. -/
def retag (skb old : Skb) : Skb where
  data := field skb.data 0 12 ++ [0x81, 0x00] ++ field old.data 14 2 ++ skb.data.drop 12
  header := by
    simp only [List.length_append, field_length, List.length_cons, List.length_nil]
    omega

/-- What is left of the frame when a VLAN tag is taken off. -/
def inner (skb : Skb) : Skb := if skb.protocol = 0x8100 then skb.untag else skb

def multicast (skb : Skb) : Bool := skb.data.headD 0 &&& 1 == 1

def saddr (skb : Skb) : List UInt8 := field skb.data 26 4

def daddr (skb : Skb) : List UInt8 := field skb.data 30 4

theorem dest_retag (skb old : Skb) : (skb.retag old).dest = skb.dest := by
  have hlen : (field skb.data 0 12).length = 12 := field_length _ _ _
  have hhead : ∀ j < 6, (skb.retag old).data.getD j 0 = skb.data.getD j 0 := by
    intro j hj
    simp only [retag, List.append_assoc, List.getD_eq_getElem?_getD]
    rw [List.getElem?_append_left (by omega)]
    simp [field, show j < 12 by omega]
  unfold dest field
  apply List.map_congr_left
  intro j hj
  rw [Nat.zero_add]
  exact hhead j (List.mem_range.mp hj)

end Skb

def Entry.touch {bits : ℕ} (i : ℕ) (now : BitVec bits) (e : Entry bits) : Entry bits :=
  if e.addr = i then { e with ageingTimer := now } else e

/-- The switches `nat25_disable` and `nat25sc_disable`. -/
structure BrExtInfo where
  nat25Disable : Bool
  nat25scDisable : Bool

section Shortcut
variable (h : Host) (p : Priv h.bits) (now : BitVec h.bits)

/-- The ageing timer of the entry that the pointer names is set. -/
def touch (i : ℕ) : Priv h.bits :=
  { p with nethash := sweep (fun e => some (e.touch i now)) p.nethash }

def scdbFindEntry (ip : List UInt8) : Option ℕ :=
  (p.find h (generateIpv4NetworkAddr ip)).map Entry.addr

/-- What `rtw_br_client_tx` makes of the shortcut for an IP frame, and whether it leaves the
insertion out. -/
def consultShortcut (skb : Skb) : Priv h.bits × Bool :=
  if p.scdbMac = skb.source then
    match p.scdbEntry with
    | some i => (touch h p now i, true)
    | none => ({ p with scdbMac := List.replicate 6 0, scdbIp := List.replicate 4 0 }, false)
  else
    match scdbFindEntry h p skb.saddr with
    | some i =>
      (touch h { p with scdbEntry := some i, scdbMac := skb.source, scdbIp := skb.saddr } now i,
        true)
    | none => ({ p with scdbEntry := none }, false)

/-- The first test of `rtw_br_client_tx`. -/
def fastPath (brPort : Bool) (skb : Skb) : Option ℕ :=
  if !skb.multicast && brPort && skb.source != p.brMac && skb.protocol == 0x0800 &&
      p.scdbMac == skb.source then p.scdbEntry
  else none

/-- The bridge's own IP address is noted. -/
def noteBrIp (skb : Skb) : Priv h.bits :=
  if skb.source == p.brMac && skb.protocol == 0x0800 then { p with brIp := skb.saddr } else p

/-- `rtw_br_client_tx`, as far as the shortcut and the data base go, and whether the insertion is
left out. `ready`: the copy and the linearization of the frame succeed. -/
def rtwBrClientTx (brPort ready storage : Bool) (skb : Skb) : Priv h.bits × Bool :=
  match fastPath h p brPort skb with
  | some i => (touch h p now i, true)
  | none =>
    let skb := skb.inner
    let p := noteBrIp h p skb
    let (p, skip) := if skb.protocol == 0x0800 then consultShortcut h p now skb else (p, false)
    if skip then (p, true)
    else (if ready then nat25Insert h p now storage skb else p, false)

/-- `nat25_handle_frame` answers from the shortcut. -/
def fromShortcut (info : BrExtInfo) (skb : Skb) : Bool :=
  !skb.multicast && !info.nat25Disable && !info.nat25scDisable && skb.inner.protocol == 0x0800 &&
    p.scdbIp == skb.inner.daddr

def nat25HandleFrame (info : BrExtInfo) (bridge : Option Mac) (skb : Skb) : Priv h.bits × Skb :=
  if skb.multicast then (p, skb)
  else
    let inner := skb.inner
    let (p, inner) :=
      if !info.nat25Disable then
        if fromShortcut h p info skb then (p, inner.write 0 p.scdbMac)
        else nat25Lookup h p now bridge inner
      else if inner.protocol == 0x0800 && p.brIp == inner.daddr ||
          inner.protocol == 0x0806 && p.brIp == field inner.data 38 4 then
        nat25Lookup h p now bridge inner
      else (p, inner)
    (p, if skb.protocol = 0x8100 then inner.retag skb else inner)

/-- The shortcut holds an address. -/
def filled : Prop := p.scdbIp ≠ List.replicate 4 0

instance : Decidable (filled h p) := inferInstanceAs (Decidable (_ ≠ _))

end Shortcut

/-- The key under which `NAT25_INSERT` records an IPv4 address. -/
def ipKey (h : Host) (ip : List UInt8) : NetworkAddr := generateIpv4NetworkAddr (h.be32ToCpu ip)

/-- What `scdb_findEntry` finds for the sender's address is the entry of that address, and has this
sender. -/
def FindsOwn (h : Host) (p : Priv h.bits) (skb : Skb) : Prop :=
  ∀ e ∈ p.find h (generateIpv4NetworkAddr skb.saddr),
    e.networkAddr = ipKey h skb.saddr ∧ e.macAddr = skb.source

instance (h : Host) (p : Priv h.bits) (skb : Skb) : Decidable (FindsOwn h p skb) :=
  inferInstanceAs (Decidable (∀ e ∈ _, _))

section Cases
variable {h : Host} {p : Priv h.bits} {now : BitVec h.bits} {skb : Skb}

theorem noteBrIp_nethash : (noteBrIp h p skb).nethash = p.nethash := by
  unfold noteBrIp
  split <;> rfl

theorem noteBrIp_shortcut : (noteBrIp h p skb).shortcut = p.shortcut := by
  unfold noteBrIp
  split <;> rfl

/-- The fast path is the one of the two ways to leave the insertion out that knows the sender. -/
theorem fastPath_some {brPort : Bool} {i : ℕ} (hfast : fastPath h p brPort skb = some i) :
    skb.inner = skb ∧ skb.protocol = 0x0800 ∧ p.scdbMac = skb.source ∧ p.scdbEntry = some i := by
  unfold fastPath at hfast
  split at hfast
  · rename_i hcond
    simp only [Bool.and_eq_true, beq_iff_eq] at hcond
    obtain ⟨⟨-, hip⟩, hmac⟩ := hcond
    have hinner : skb.inner = skb := by
      rw [Skb.inner, hip]
      rfl
    exact ⟨hinner, hip, hmac, hfast⟩
  · cases hfast

theorem consultShortcut_known {i : ℕ} (hmac : p.scdbMac = skb.source)
    (hentry : p.scdbEntry = some i) : consultShortcut h p now skb = (touch h p now i, true) := by
  rw [consultShortcut, if_pos hmac, hentry]

/-- A frame of a client either leaves the insertion out, or goes on to it with the shortcut as the
consultation left it. -/
theorem rtwBrClientTx_cases (brPort ready storage : Bool) :
    ∃ q : Priv h.bits, q.nethash = p.nethash ∧ q.shortcut = p.shortcut ∧
      (skb.inner.protocol = 0x0800 ∧ (consultShortcut h q now skb.inner).2 = true ∧
        rtwBrClientTx h p now brPort ready storage skb = consultShortcut h q now skb.inner ∨
      ∃ q', (skb.inner.protocol ≠ 0x0800 ∧ q' = q ∨ skb.inner.protocol = 0x0800 ∧
          consultShortcut h q now skb.inner = (q', false)) ∧
        rtwBrClientTx h p now brPort ready storage skb =
          (if ready then nat25Insert h q' now storage skb.inner else q', false)) := by
  cases hfast : fastPath h p brPort skb with
  | some i =>
    obtain ⟨hinner, hip, hmac, hentry⟩ := fastPath_some hfast
    refine ⟨p, rfl, rfl, Or.inl ?_⟩
    rw [hinner, consultShortcut_known hmac hentry]
    refine ⟨hip, rfl, ?_⟩
    simp only [rtwBrClientTx, hfast]
  | none =>
    refine ⟨noteBrIp h p skb.inner, noteBrIp_nethash, noteBrIp_shortcut, ?_⟩
    by_cases hip : skb.inner.protocol = 0x0800
    · rcases hc : consultShortcut h (noteBrIp h p skb.inner) now skb.inner with ⟨q', skip⟩
      cases skip with
      | true =>
        refine Or.inl ⟨hip, rfl, ?_⟩
        simp [rtwBrClientTx, hfast, hip, hc]
      | false =>
        refine Or.inr ⟨q', Or.inr ⟨hip, rfl⟩, ?_⟩
        simp [rtwBrClientTx, hfast, hip, hc]
    · refine Or.inr ⟨_, Or.inl ⟨hip, rfl⟩, ?_⟩
      simp [rtwBrClientTx, hfast, hip]

theorem fromShortcut_ip {info : BrExtInfo} (hfrom : fromShortcut h p info skb = true) :
    skb.inner.protocol = 0x0800 ∧ p.scdbIp = skb.inner.daddr := by
  simp only [fromShortcut, Bool.and_eq_true, beq_iff_eq] at hfrom
  exact ⟨hfrom.1.2, hfrom.2⟩

theorem nat25HandleFrame_fromShortcut {info : BrExtInfo}
    (hfrom : fromShortcut h p info skb = true) (hmac : p.scdbMac.length = 6)
    (bridge : Option Mac) :
    (nat25HandleFrame h p now info bridge skb).2.dest = p.scdbMac := by
  have hparts := hfrom
  simp only [fromShortcut, Bool.and_eq_true, Bool.not_eq_true'] at hparts
  obtain ⟨⟨⟨⟨hunicast, hon⟩, -⟩, -⟩, -⟩ := hparts
  simp only [nat25HandleFrame, hunicast, hon, hfrom, Bool.false_eq_true, if_false, Bool.not_false,
    if_true]
  split
  · rw [Skb.dest_retag]
    exact Skb.dest_write hmac skb.inner
  · exact Skb.dest_write hmac skb.inner

end Cases
end Rtl8188eu.BrExt

import StandaloneDrivers.Foundations.Run
import StandaloneDrivers.Rtl8188eu.Nat25Shortcut

/-! When the single-client shortcut of NAT2.5 agrees with the data base, over whole runs. -/
namespace Rtl8188eu.BrExt
open Foundations

section Sanity
variable (h : Host)

/-- No two entries have one address, and `scdb_entry` is NULL or names one of them. -/
structure Sane (p : Priv h.bits) : Prop where
  chained : p.Chained h
  numbered : ∀ k b, p.binding h k = some b → b.addr < p.allocations
  apart : ∀ k k' b b', p.binding h k = some b → p.binding h k' = some b' → b.addr = b'.addr →
    k = k'
  pointer : ∀ i, p.scdbEntry = some i → ∃ k b, p.binding h k = some b ∧ b.addr = i

variable {h} {p p' : Priv h.bits} {now : BitVec h.bits}

theorem Sane.congr (hp : Sane h p) (hnethash : p'.nethash = p.nethash)
    (hallocations : p'.allocations = p.allocations)
    (hpointer : ∀ i, p'.scdbEntry = some i → ∃ k b, p.binding h k = some b ∧ b.addr = i) :
    Sane h p' := by
  have hbinding : ∀ k, p'.binding h k = p.binding h k := by
    intro k
    rw [Priv.binding, Priv.find, hnethash]
    rfl
  constructor
  · rw [Priv.Chained, hnethash]
    exact hp.chained
  · intro k b hb
    rw [hbinding] at hb
    rw [hallocations]
    exact hp.numbered k b hb
  · intro k k' b b' hb hb'
    rw [hbinding] at hb hb'
    exact hp.apart k k' b b' hb hb'
  · intro i hi
    obtain ⟨k, b, hb, hbi⟩ := hpointer i hi
    exact ⟨k, b, (hbinding k).trans hb, hbi⟩

/-- A change of the table that keeps or drops each entry, the one pointed to kept. -/
theorem Sane.shrink (hp : Sane h p) (hchained : p'.Chained h)
    (hallocations : p'.allocations = p.allocations)
    (hold : ∀ k b', p'.binding h k = some b' → ∃ b, p.binding h k = some b ∧ b.addr = b'.addr)
    (hpointer : ∀ i, p'.scdbEntry = some i → ∃ k b, p'.binding h k = some b ∧ b.addr = i) :
    Sane h p' where
  chained := hchained
  numbered k b' hb' := by
    obtain ⟨b, hb, haddr⟩ := hold k b' hb'
    rw [hallocations, ← haddr]
    exact hp.numbered k b hb
  apart k k' b b' hb hb' haddr := by
    obtain ⟨c, hc, hcb⟩ := hold k b hb
    obtain ⟨c', hc', hcb'⟩ := hold k' b' hb'
    exact hp.apart k k' c c' hc hc' (hcb.trans (haddr.trans hcb'.symm))
  pointer := hpointer

def Binding.touch {bits : ℕ} (i : ℕ) (now : BitVec bits) (b : Binding bits) : Binding bits :=
  if b.addr = i then { b with ageingTimer := now } else b

theorem Entry.touch_networkAddr {bits : ℕ} (i : ℕ) (now : BitVec bits) (e : Entry bits) :
    (e.touch i now).networkAddr = e.networkAddr := by
  unfold touch
  split <;> rfl

theorem Entry.touch_binding {bits : ℕ} (i : ℕ) (now : BitVec bits) (e : Entry bits) :
    (e.touch i now).binding = e.binding.touch i now := by
  unfold touch Binding.touch binding
  split <;> rfl

theorem Binding.touch_addr {bits : ℕ} (i : ℕ) (now : BitVec bits) (b : Binding bits) :
    (b.touch i now).addr = b.addr := by
  unfold touch
  split <;> rfl

theorem Binding.touch_macAddr {bits : ℕ} (i : ℕ) (now : BitVec bits) (b : Binding bits) :
    (b.touch i now).macAddr = b.macAddr := by
  unfold touch
  split <;> rfl

theorem touch_chained (hp : p.Chained h) (i : ℕ) : (touch h p now i).Chained h := by
  apply Hashed.sweep hp
  intro e e' he
  cases he
  exact e.touch_networkAddr i now

theorem touch_binding (hp : p.Chained h) (i : ℕ) (k : NetworkAddr) :
    (touch h p now i).binding h k = (p.binding h k).map (Binding.touch i now) := by
  have hfind : (touch h p now i).find h k =
      (p.find h k).bind fun e => some (e.touch i now) := by
    apply Hashed.search_sweep hp
    intro e e' he
    cases he
    exact e.touch_networkAddr i now
  rw [Priv.binding, hfind, Priv.binding]
  cases p.find h k with
  | none => rfl
  | some e => exact congrArg some (e.touch_binding i now)

theorem Sane.touch (hp : Sane h p) (i : ℕ) : Sane h (touch h p now i) := by
  apply hp.shrink (touch_chained hp.chained i) rfl
  · intro k b' hb'
    rw [touch_binding hp.chained] at hb'
    obtain ⟨b, hb, rfl⟩ := Option.map_eq_some_iff.mp hb'
    exact ⟨b, hb, (b.touch_addr i now).symm⟩
  · intro j hj
    obtain ⟨k, b, hb, hbj⟩ := hp.pointer j hj
    refine ⟨k, b.touch i now, ?_, (b.touch_addr i now).trans hbj⟩
    rw [touch_binding hp.chained, hb]
    rfl

theorem Sane.networkInsert (hp : Sane h p) (storage : Bool) (mac : Mac) (a : NetworkAddr) :
    Sane h (networkInsert h p now storage mac a) := by
  have hchained := @networkInsert_chained h p now hp.chained storage mac a
  have hbinding := @networkInsert_binding h p now storage mac a
  cases hb : p.binding h a with
  | some b =>
    have hkept : ∀ k c, p.binding h k = some c →
        ∃ c', (BrExt.networkInsert h p now storage mac a).binding h k = some c' ∧
          c'.addr = c.addr := by
      intro k c hc
      rw [hbinding, hb]
      split
      · rename_i hk
        rw [hk, hb] at hc
        cases hc
        exact ⟨_, rfl, rfl⟩
      · exact ⟨c, hc, rfl⟩
    apply hp.shrink hchained (networkInsert_allocations h hb storage mac)
    · intro k b' hb'
      rw [hbinding, hb] at hb'
      split at hb'
      · rename_i hk
        cases hb'
        exact ⟨b, hk ▸ hb, rfl⟩
      · exact ⟨b', hb', rfl⟩
    · intro i hi
      rw [(networkInsert_scdb h storage mac a).2.2] at hi
      obtain ⟨k, c, hc, hci⟩ := hp.pointer i hi
      obtain ⟨c', hc', haddr⟩ := hkept k c hc
      exact ⟨k, c', hc', haddr.trans hci⟩
  | none =>
    have hnone : p.find h a = none := Option.map_eq_none_iff.mp hb
    cases storage with
    | false =>
      rw [networkInsert_dropped h (by rw [hnone]; rfl)]
      exact hp
    | true =>
      simp only [hb, if_true] at hbinding
      have hnext : (BrExt.networkInsert h p now true mac a).allocations = p.allocations + 1 := by
        simp only [BrExt.networkInsert, hnone, if_true]
      constructor
      · exact hchained
      · intro k c hc
        rw [hbinding] at hc
        rw [hnext]
        split at hc
        · cases hc
          exact Nat.lt_succ_self _
        · exact Nat.lt_succ_of_lt (hp.numbered k c hc)
      · intro k k' c c' hc hc' haddr
        rw [hbinding] at hc hc'
        split at hc <;> split at hc'
        · rename_i hk hk'
          exact hk.trans hk'.symm
        · cases hc
          exact absurd haddr (hp.numbered k' c' hc').ne'
        · cases hc'
          exact absurd haddr (hp.numbered k c hc).ne
        · exact hp.apart k k' c c' hc hc' haddr
      · intro i hi
        rw [(networkInsert_scdb h true mac a).2.2] at hi
        obtain ⟨k, c, hc, hci⟩ := hp.pointer i hi
        refine ⟨k, c, ?_, hci⟩
        rw [hbinding, if_neg]
        · exact hc
        · rintro rfl
          rw [hb] at hc
          cases hc

theorem Sane.lookup (hp : Sane h p) (bridge : Option Mac) (skb : Skb) :
    Sane h (nat25Lookup h p now bridge skb).1 := by
  have hbinding := @nat25Lookup_binding h p now bridge skb
  have hrest := @nat25Lookup_shortcut h p now bridge skb
  simp only [Priv.shortcut, Prod.mk.injEq] at hrest
  obtain ⟨hallocations, -, -, hentry⟩ := hrest
  apply hp.shrink (nat25Lookup_chained h hp.chained bridge skb) hallocations
  · intro k b hb
    rw [hbinding] at hb
    exact ⟨b, hb, rfl⟩
  · intro i hi
    rw [hentry] at hi
    obtain ⟨k, b, hb, hbi⟩ := hp.pointer i hi
    exact ⟨k, b, (hbinding k).trans hb, hbi⟩

/-- The entry pointed to is not freed unless the pointer is cleared. -/
theorem expireEntry_of_cached {e : Entry h.bits} {k : NetworkAddr}
    (hcache : cacheExpires h p now = false) (hfind : p.find h k = some e)
    (he : p.scdbEntry = some e.addr) : expireEntry h now e ≠ none := by
  intro hnone
  rw [cacheExpires, List.any_eq_false] at hcache
  have hbucket := hcache (networkHash k) (List.mem_finRange _)
  rw [Bool.not_eq_true, List.any_eq_false] at hbucket
  apply hbucket e (search_mem hfind)
  rw [he, hnone]
  simp

theorem nat25DbExpire_cached (hp : p.Chained h) (hcache : cacheExpires h p now = false)
    {k : NetworkAddr} {b : Binding h.bits} (hb : p.binding h k = some b)
    (hentry : p.scdbEntry = some b.addr) : (nat25DbExpire h p now).binding h k = some b := by
  obtain ⟨e, hfind, rfl⟩ := Option.map_eq_some_iff.mp hb
  have hkept := expireEntry_of_cached hcache hfind hentry
  obtain ⟨e', he'⟩ := Option.ne_none_iff_exists'.mp hkept
  rw [Priv.binding, nat25DbExpire_find h hp, hfind, Option.bind_some, he', Option.map_some,
    expireEntry_binding h he']

theorem Sane.expire (hp : Sane h p) : Sane h (nat25DbExpire h p now) := by
  have hallocations : (nat25DbExpire h p now).allocations = p.allocations := by
    unfold nat25DbExpire
    simp only
    split <;> rfl
  apply hp.shrink (nat25DbExpire_chained h hp.chained) hallocations
  · intro k b' hb'
    rcases @nat25DbExpire_binding h p now hp.chained k with heq | ⟨hnone, -⟩
    · rw [heq] at hb'
      exact ⟨b', hb', rfl⟩
    · rw [hnone] at hb'
      cases hb'
  · intro i hi
    cases hcache : cacheExpires h p now with
    | true =>
      simp [nat25DbExpire, hcache] at hi
    | false =>
      have hentry : p.scdbEntry = some i := by simpa [nat25DbExpire, hcache] using hi
      obtain ⟨k, b, hb, rfl⟩ := hp.pointer i hentry
      exact ⟨k, b, nat25DbExpire_cached hp.chained hcache hb hentry, rfl⟩

theorem Sane.insert (hp : Sane h p) (storage : Bool) (skb : Skb) :
    Sane h (nat25Insert h p now storage skb) := by
  unfold nat25Insert
  split
  · exact hp.networkInsert storage skb.source _
  · exact hp

theorem scdbFindEntry_some {ip : List UInt8} {i : ℕ} (hi : scdbFindEntry h p ip = some i) :
    ∃ e, p.find h (generateIpv4NetworkAddr ip) = some e ∧ e.addr = i :=
  Option.map_eq_some_iff.mp hi

theorem Sane.consult (hp : Sane h p) (skb : Skb) : Sane h (consultShortcut h p now skb).1 := by
  unfold consultShortcut
  split
  · split
    · exact hp.touch _
    · rename_i hnone
      apply Sane.congr hp
      · rfl
      · rfl
      · intro i hi
        cases hnone.symm.trans hi
  · split
    · rename_i i hi
      obtain ⟨e, hfind, he⟩ := scdbFindEntry_some hi
      apply Sane.touch
      apply Sane.congr hp
      · rfl
      · rfl
      · intro j hj
        cases hj
        refine ⟨generateIpv4NetworkAddr skb.saddr, e.binding, ?_, he⟩
        rw [Priv.binding, hfind]
        rfl
    · apply Sane.congr hp
      · rfl
      · rfl
      · intro i hi
        cases hi

theorem Sane.rename (hp : Sane h p) (hnethash : p'.nethash = p.nethash)
    (hshortcut : p'.shortcut = p.shortcut) : Sane h p' := by
  simp only [Priv.shortcut, Prod.mk.injEq] at hshortcut
  apply hp.congr hnethash hshortcut.1
  intro i hi
  rw [hshortcut.2.2.2] at hi
  exact hp.pointer i hi

theorem Sane.send (hp : Sane h p) (brPort ready storage : Bool) (skb : Skb) :
    Sane h (rtwBrClientTx h p now brPort ready storage skb).1 := by
  obtain ⟨q, hnethash, hshortcut, hcases⟩ := @rtwBrClientTx_cases h p now skb brPort
    ready storage
  have hq := hp.rename hnethash hshortcut
  rcases hcases with ⟨-, -, hr⟩ | ⟨q', hq', hr⟩
  · rw [hr]
    exact hq.consult skb.inner
  · have hsane : Sane h q' := by
      rcases hq' with ⟨-, rfl⟩ | ⟨-, hc⟩
      · exact hq
      · have hconsult := @Sane.consult h q now hq skb.inner
        rwa [hc] at hconsult
    rw [hr]
    cases ready with
    | true => exact hsane.insert storage skb.inner
    | false => exact hsane

theorem Sane.receive (hp : Sane h p) (info : BrExtInfo) (bridge : Option Mac) (skb : Skb) :
    Sane h (nat25HandleFrame h p now info bridge skb).1 := by
  unfold nat25HandleFrame
  split
  · exact hp
  · simp only
    split
    · split
      · exact hp
      · exact hp.lookup bridge skb.inner
    · split
      · exact hp.lookup bridge skb.inner
      · exact hp

end Sanity

section Coherence
variable (h : Host)

/-- The address in the shortcut has an entry with the sender in the shortcut, and `scdb_entry`, if
set, names it. -/
structure Coherent (p : Priv h.bits) : Prop where
  sane : Sane h p
  macLength : p.scdbMac.length = 6
  mapped : filled h p → ∃ b, p.binding h (ipKey h p.scdbIp) = some b ∧ b.macAddr = p.scdbMac ∧
    ∀ i, p.scdbEntry = some i → b.addr = i

variable {h} {p p' : Priv h.bits} {now : BitVec h.bits} {skb : Skb}

theorem Coherent.rename (hp : Coherent h p) (hnethash : p'.nethash = p.nethash)
    (hshortcut : p'.shortcut = p.shortcut) : Coherent h p' := by
  have hsane := hp.sane.rename hnethash hshortcut
  simp only [Priv.shortcut, Prod.mk.injEq] at hshortcut
  obtain ⟨-, hmac, hip, hentry⟩ := hshortcut
  constructor
  · exact hsane
  · rw [hmac]
    exact hp.macLength
  · rw [filled, Priv.binding, Priv.find, hnethash, hmac, hip, hentry]
    exact hp.mapped

/-- The insertion is left out for a known sender: its address is the one in the shortcut. -/
theorem Coherent.known (hp : Coherent h p) {i : ℕ} (hentry : p.scdbEntry = some i) :
    Coherent h (touch h p now i) ∧ (filled h p →
      ∃ b, (touch h p now i).binding h (ipKey h p.scdbIp) = some b ∧
        b.macAddr = p.scdbMac ∧ b.ageingTimer = now) := by
  have hnew : filled h p → ∃ b, (touch h p now i).binding h (ipKey h p.scdbIp) = some b ∧
      b.macAddr = p.scdbMac ∧ b.addr = i ∧ b.ageingTimer = now := by
    intro hfilled
    obtain ⟨b, hb, hmac, haddr⟩ := hp.mapped hfilled
    refine ⟨b.touch i now, ?_, (b.touch_macAddr i now).trans hmac,
      (b.touch_addr i now).trans (haddr i hentry), ?_⟩
    · rw [touch_binding hp.sane.chained, hb]
      rfl
    · rw [Binding.touch, if_pos (haddr i hentry)]
  constructor
  · constructor
    · exact hp.sane.touch i
    · exact hp.macLength
    · intro hfilled
      obtain ⟨b, hb, hmac, haddr, -⟩ := hnew hfilled
      refine ⟨b, hb, hmac, fun j hj => ?_⟩
      cases hentry.symm.trans hj
      exact haddr
  · intro hfilled
    obtain ⟨b, hb, hmac, -, htimer⟩ := hnew hfilled
    exact ⟨b, hb, hmac, htimer⟩

/-- The insertion is left out for an address whose entry has this sender. -/
theorem Coherent.found (hp : Coherent h p) {e : Entry h.bits}
    (hfind : p.find h (generateIpv4NetworkAddr skb.saddr) = some e)
    (hown : skb.saddr ≠ List.replicate 4 0 →
      e.networkAddr = ipKey h skb.saddr ∧ e.macAddr = skb.source) :
    let q := touch h { p with scdbEntry := some e.addr, scdbMac := skb.source,
                              scdbIp := skb.saddr } now e.addr
    Coherent h q ∧ (skb.saddr ≠ List.replicate 4 0 →
      ∃ b, q.binding h (ipKey h skb.saddr) = some b ∧ b.macAddr = skb.source ∧
        b.ageingTimer = now) := by
  intro q
  have hb : p.binding h (generateIpv4NetworkAddr skb.saddr) = some e.binding := by
    rw [Priv.binding, hfind]
    rfl
  have hq : q.binding h (generateIpv4NetworkAddr skb.saddr) =
      some (e.binding.touch e.addr now) := by
    have hchained : ({ p with scdbEntry := some e.addr, scdbMac := skb.source,
                              scdbIp := skb.saddr } : Priv h.bits).Chained h := hp.sane.chained
    rw [touch_binding hchained]
    exact congrArg (Option.map (Binding.touch e.addr now)) hb
  have hnew : skb.saddr ≠ List.replicate 4 0 →
      q.binding h (ipKey h skb.saddr) = some (e.binding.touch e.addr now) ∧
        (e.binding.touch e.addr now).macAddr = skb.source := by
    intro hne
    obtain ⟨hkey, hmac⟩ := hown hne
    rw [← hkey, search_key hfind]
    exact ⟨hq, (Binding.touch_macAddr _ _ _).trans hmac⟩
  constructor
  · constructor
    · apply Sane.touch
      apply Sane.congr hp.sane
      · rfl
      · rfl
      · intro j hj
        cases hj
        exact ⟨_, e.binding, hb, rfl⟩
    · exact field_length _ _ _
    · intro hfilled
      obtain ⟨hbinding, hmac⟩ := hnew hfilled
      refine ⟨_, hbinding, hmac, fun j hj => ?_⟩
      cases hj
      exact Binding.touch_addr _ _ _
  · intro hne
    obtain ⟨hbinding, hmac⟩ := hnew hne
    exact ⟨_, hbinding, hmac, congrArg Binding.ageingTimer (if_pos rfl)⟩

/-- A consultation that does not leave the insertion out empties the shortcut or unsets its
pointer. -/
theorem Coherent.unknown (hp : Coherent h p)
    (hc : consultShortcut h p now skb = (p', false)) :
    Coherent h p' ∧ (filled h p' → p'.scdbIp = p.scdbIp ∧ p'.scdbMac = p.scdbMac) := by
  have hsane := @Sane.consult h p now hp.sane skb
  rw [hc] at hsane
  unfold consultShortcut at hc
  split at hc
  · split at hc
    · cases hc
    · cases hc
      constructor
      · constructor
        · exact hsane
        · rfl
        · exact fun hfilled => absurd rfl hfilled
      · exact fun hfilled => absurd rfl hfilled
  · split at hc
    · cases hc
    · cases hc
      constructor
      · constructor
        · exact hsane
        · exact hp.macLength
        · intro hfilled
          obtain ⟨b, hb, hmac, -⟩ := hp.mapped hfilled
          refine ⟨b, hb, hmac, fun j hj => ?_⟩
          cases hj
      · exact fun _ => ⟨rfl, rfl⟩

/-- An insertion that gives the address in the shortcut to no other sender. -/
theorem Coherent.insert (hp : Coherent h p) (storage : Bool)
    (hown : insertAddr h skb = some (ipKey h p.scdbIp) → filled h p →
      p.scdbMac = skb.source) : Coherent h (nat25Insert h p now storage skb) := by
  have hsane := @Sane.insert h p now hp.sane storage skb
  unfold nat25Insert at hsane ⊢
  cases ha : insertAddr h skb with
  | none => exact hp
  | some a =>
    rw [ha] at hsane hown
    simp only at hsane ⊢
    obtain ⟨hmac, hip, hentry⟩ := @networkInsert_scdb h p now storage skb.source a
    constructor
    · exact hsane
    · rw [hmac]
      exact hp.macLength
    · rw [filled, hmac, hip, hentry, networkInsert_binding]
      intro hfilled
      obtain ⟨b, hb, hbmac, haddr⟩ := hp.mapped hfilled
      split
      · rename_i hk
        rw [← hk, hb]
        exact ⟨_, rfl, (hown (congrArg some hk.symm) hfilled).symm, haddr⟩
      · exact ⟨b, hb, hbmac, haddr⟩

theorem Coherent.lookup (hp : Coherent h p) (bridge : Option Mac) (skb : Skb) :
    Coherent h (nat25Lookup h p now bridge skb).1 := by
  have hsane := @Sane.lookup h p now hp.sane bridge skb
  have hrest := @nat25Lookup_shortcut h p now bridge skb
  simp only [Priv.shortcut, Prod.mk.injEq] at hrest
  obtain ⟨-, hmac, hip, hentry⟩ := hrest
  constructor
  · exact hsane
  · rw [hmac]
    exact hp.macLength
  · rw [filled, hmac, hip, hentry, nat25Lookup_binding]
    exact hp.mapped

theorem Coherent.receive (hp : Coherent h p) (info : BrExtInfo) (bridge : Option Mac) (skb : Skb) :
    Coherent h (nat25HandleFrame h p now info bridge skb).1 := by
  unfold nat25HandleFrame
  split
  · exact hp
  · simp only
    split
    · split
      · exact hp
      · exact hp.lookup bridge skb.inner
    · split
      · exact hp.lookup bridge skb.inner
      · exact hp

theorem Coherent.expire (hp : Coherent h p)
    (hkept : filled h p → p.scdbEntry = none →
      ∀ e, p.find h (ipKey h p.scdbIp) = some e → (expireEntry h now e).isSome) :
    Coherent h (nat25DbExpire h p now) := by
  have hsane := @Sane.expire h p now hp.sane
  cases hcache : cacheExpires h p now with
  | true =>
    constructor
    · exact hsane
    · simp [nat25DbExpire, hcache]
    · intro hfilled
      simp [filled, nat25DbExpire, hcache] at hfilled
  | false =>
    have hsame : nat25DbExpire h p now =
        { p with nethash := sweep (expireEntry h now) p.nethash } := by
      simp only [nat25DbExpire, hcache, Bool.false_eq_true, if_false]
    constructor
    · exact hsane
    · rw [hsame]
      exact hp.macLength
    · intro hfilled
      have hold : filled h p := by
        rwa [hsame] at hfilled
      obtain ⟨b, hb, hmac, haddr⟩ := hp.mapped hold
      refine ⟨b, ?_, ?_, ?_⟩
      · have hip : (nat25DbExpire h p now).scdbIp = p.scdbIp := by rw [hsame]
        rw [hip]
        cases hentry : p.scdbEntry with
        | some i =>
          apply nat25DbExpire_cached hp.sane.chained hcache hb
          rw [hentry, haddr i hentry]
        | none =>
          obtain ⟨e, hfind, rfl⟩ := Option.map_eq_some_iff.mp hb
          obtain ⟨e', he'⟩ := Option.isSome_iff_exists.mp (hkept hold hentry e hfind)
          rw [Priv.binding, nat25DbExpire_find h hp.sane.chained, hfind, Option.bind_some, he',
            Option.map_some, expireEntry_binding h he']
      · rw [hsame]
        exact hmac
      · rw [hsame]
        exact haddr

end Coherence

structure Bridge (h : Host) where
  priv : Priv h.bits
  time : ℕ

inductive Frame where
  | wait (ticks : ℕ)
  | send (brPort ready storage : Bool) (skb : Skb)
  | receive (info : BrExtInfo) (bridge : Option Mac) (skb : Skb)
  | expire

namespace Bridge
variable {h : Host} (s : Bridge h)

def jiffies : BitVec h.bits := BitVec.ofNat h.bits s.time

def step (s : Bridge h) : Frame → Bridge h
  | .wait ticks => { s with time := s.time + ticks }
  | .send brPort ready storage skb =>
    { s with priv := (rtwBrClientTx h s.priv s.jiffies brPort ready storage skb).1 }
  | .receive info bridge skb =>
    { s with priv := (nat25HandleFrame h s.priv s.jiffies info bridge skb).1 }
  | .expire => { s with priv := nat25DbExpire h s.priv s.jiffies }

/-- The adapter as allocated. -/
def Fresh : Prop := s.priv.nethash = (fun _ => []) ∧ s.priv.scdbMac = List.replicate 6 0 ∧
  s.priv.scdbIp = List.replicate 4 0 ∧ s.priv.scdbEntry = none

/-- `scdb_entry` is NULL or names an entry on a hash chain. -/
def PointerValid : Prop :=
  ∀ i, s.priv.scdbEntry = some i → ∃ k b, s.priv.binding h k = some b ∧ b.addr = i

/-- In one step, an answer from the shortcut is the one of the data base, and an insertion is left
out only where the data base has the source address with its sender, and fresh. -/
def Agrees (s : Bridge h) : Frame → Prop
  | .send brPort ready storage skb =>
    let r := rtwBrClientTx h s.priv s.jiffies brPort ready storage skb
    r.2 = true → skb.inner.saddr ≠ List.replicate 4 0 →
      ∃ b, r.1.binding h (ipKey h skb.inner.saddr) = some b ∧ b.macAddr = skb.inner.source ∧
        b.expired h s.jiffies = false
  | .receive info bridge skb =>
    fromShortcut h s.priv info skb = true →
      (nat25HandleFrame h s.priv s.jiffies info bridge skb).2.dest =
        (nat25Lookup h s.priv s.jiffies bridge skb.inner).2.dest
  | _ => True

/-- The branches in which shortcut and data base come apart are not taken. -/
def Clear (s : Bridge h) : Frame → Prop
  | .wait _ => True
  | .send _ ready _ skb =>
    (skb.inner.protocol = 0x0800 → s.priv.scdbMac = skb.inner.source → s.priv.scdbEntry ≠ none →
      skb.inner.saddr = s.priv.scdbIp ∨ skb.inner.saddr = List.replicate 4 0) ∧
    (skb.inner.protocol = 0x0800 → s.priv.scdbMac ≠ skb.inner.source →
      skb.inner.saddr ≠ List.replicate 4 0 → FindsOwn h s.priv skb.inner) ∧
    (ready = true → insertAddr h skb.inner = some (ipKey h s.priv.scdbIp) → filled h s.priv →
      s.priv.scdbMac = skb.inner.source)
  | .receive info _ skb =>
    fromShortcut h s.priv info skb = true → filled h s.priv ∧ ipMalformed skb.inner = false ∧
      ∀ b ∈ s.priv.binding h (ipKey h s.priv.scdbIp), b.expired h s.jiffies = false
  | .expire => filled h s.priv → s.priv.scdbEntry = none →
      ∀ e ∈ s.priv.find h (ipKey h s.priv.scdbIp), (expireEntry h s.jiffies e).isSome

instance (s : Bridge h) : ∀ f, Decidable (s.Clear f)
  | .wait _ => isTrue trivial
  | .send .. => inferInstanceAs (Decidable (_ ∧ _ ∧ _))
  | .receive .. => inferInstanceAs (Decidable (_ → _))
  | .expire => inferInstanceAs (Decidable (_ → _))

variable {s}

theorem start_coherent (hs : s.Fresh) : Coherent h s.priv := by
  obtain ⟨hnethash, hmac, hip, hentry⟩ := hs
  have hbinding : ∀ k, s.priv.binding h k = none := by
    intro k
    rw [Priv.binding, Priv.find, hnethash]
    rfl
  constructor
  · constructor
    · rw [Priv.Chained, hnethash]
      exact Hashed.empty
    · intro k b hb
      cases (hbinding k).symm.trans hb
    · intro k k' b b' hb
      cases (hbinding k).symm.trans hb
    · intro i hi
      cases hentry.symm.trans hi
  · rw [hmac]
    rfl
  · exact fun hfilled => absurd hip hfilled

theorem step_sane (hs : Sane h s.priv) (f : Frame) : Sane h (s.step f).priv := by
  cases f with
  | wait ticks => exact hs
  | send brPort ready storage skb => exact hs.send brPort ready storage skb
  | receive info bridge skb => exact hs.receive info bridge skb
  | expire => exact hs.expire

/-- What leaving the insertion out asks of the state, and what it leaves. -/
theorem consult_agrees {p : Priv h.bits} {now : BitVec h.bits} {skb : Skb} (hp : Coherent h p)
    (hskip : (consultShortcut h p now skb).2 = true)
    (hknown : p.scdbMac = skb.source → p.scdbEntry ≠ none →
      skb.saddr = p.scdbIp ∨ skb.saddr = List.replicate 4 0)
    (hfound : p.scdbMac ≠ skb.source → skb.saddr ≠ List.replicate 4 0 → FindsOwn h p skb) :
    Coherent h (consultShortcut h p now skb).1 ∧ (skb.saddr ≠ List.replicate 4 0 →
      ∃ b, (consultShortcut h p now skb).1.binding h (ipKey h skb.saddr) = some b ∧
        b.macAddr = skb.source ∧ b.ageingTimer = now) := by
  by_cases hmac : p.scdbMac = skb.source
  · cases hentry : p.scdbEntry with
    | none => simp [consultShortcut, hmac, hentry] at hskip
    | some i =>
      rw [consultShortcut_known hmac hentry]
      obtain ⟨hcoherent, hfresh⟩ := @Coherent.known h p now hp _ hentry
      constructor
      · exact hcoherent
      · intro hne
        rcases hknown hmac (by simp [hentry]) with hip | hzero
        · rw [← hmac, hip]
          apply hfresh
          rwa [filled, ← hip]
        · exact absurd hzero hne
  · cases hi : scdbFindEntry h p skb.saddr with
    | none => simp [consultShortcut, hmac, hi] at hskip
    | some i =>
      obtain ⟨e, hfind, rfl⟩ := scdbFindEntry_some hi
      simp only [consultShortcut, hmac, if_false, hi]
      exact hp.found hfind fun hne => hfound hmac hne e hfind

/-- A clear step agrees and leaves the shortcut coherent. -/
theorem step_agrees (hs : Coherent h s.priv) {f : Frame} (hclear : s.Clear f) :
    s.Agrees f ∧ Coherent h (s.step f).priv := by
  cases f with
  | wait ticks => exact ⟨trivial, hs⟩
  | send brPort ready storage skb =>
    obtain ⟨hknown, hfound, hown⟩ := hclear
    obtain ⟨q, hnethash, hshortcut, hcases⟩ := @rtwBrClientTx_cases h s.priv s.jiffies skb
      brPort ready storage
    have hq := hs.rename hnethash hshortcut
    have hfind : ∀ k, q.find h k = s.priv.find h k := by
      intro k
      rw [Priv.find, hnethash]
      rfl
    simp only [Priv.shortcut, Prod.mk.injEq] at hshortcut
    obtain ⟨-, hmac, hip, hentry⟩ := hshortcut
    rcases hcases with ⟨hproto, hskip, hr⟩ | ⟨q', hq', hr⟩
    · rw [← hmac, ← hip, ← hentry] at hknown
      rw [← hmac, FindsOwn, ← hfind] at hfound
      obtain ⟨hcoherent, hfresh⟩ := consult_agrees hq hskip (hknown hproto) (hfound hproto)
      simp only [Agrees, step, hr]
      constructor
      · intro _ hne
        obtain ⟨b, hb, hbmac, htimer⟩ := hfresh hne
        refine ⟨b, hb, hbmac, ?_⟩
        rw [Binding.expired, htimer]
        apply timeBeforeEq_fresh h (Nat.le_refl _)
        have hticks := h.ticks
        omega
      · exact hcoherent
    · have hcoherent : Coherent h q' ∧
          (filled h q' → q'.scdbIp = q.scdbIp ∧ q'.scdbMac = q.scdbMac) := by
        rcases hq' with ⟨-, rfl⟩ | ⟨-, hc⟩
        · exact ⟨hq, fun _ => ⟨rfl, rfl⟩⟩
        · exact hq.unknown hc
      simp only [Agrees, step, hr]
      constructor
      · exact fun hskip => absurd hskip (by simp)
      · cases ready with
        | false => exact hcoherent.1
        | true =>
          apply hcoherent.1.insert
          intro ha hfilled
          obtain ⟨hip', hmac'⟩ := hcoherent.2 hfilled
          rw [hip', hip] at ha
          rw [hmac', hmac]
          apply hown rfl ha
          rwa [filled, ← hip, ← hip']
  | receive info bridge skb =>
    constructor
    · intro hfrom
      obtain ⟨hfilled, hmalformed, hfresh⟩ := hclear hfrom
      obtain ⟨hip, hdaddr⟩ := fromShortcut_ip hfrom
      obtain ⟨b, hb, hmac, -⟩ := hs.mapped hfilled
      have hquery : lookupQuery h skb.inner =
          some ⟨ipKey h s.priv.scdbIp, true, none⟩ := by
        simp only [lookupQuery, hip, if_true, hmalformed, Bool.false_eq_true, if_false, hdaddr]
        rfl
      rw [nat25HandleFrame_fromShortcut hfrom hs.macLength, ← hmac]
      symm
      apply nat25Lookup_fresh h hquery hb (hfresh b hb)
      rw [hmac]
      exact hs.macLength
    · exact hs.receive info bridge skb
  | expire => exact ⟨trivial, hs.expire hclear⟩

/-- The shortcut's pointer is always valid; in runs whose steps are clear every step agrees. -/
theorem shortcut_agrees (hs : s.Fresh) (frames : List Frame) :
    (run step s frames).PointerValid ∧
      (Guarded step Clear s frames → Guarded step Agrees s frames) := by
  have hstart := start_coherent hs
  constructor
  · have hsane : Sane h (run step s frames).priv :=
      run_invariant (fun s : Bridge h => Sane h s.priv) (fun _ f hs => step_sane hs f) frames
        hstart.sane
    exact hsane.pointer
  · intro hclear
    clear hs
    induction frames generalizing s with
    | nil => trivial
    | cons f frames ih =>
      obtain ⟨hagrees, hcoherent⟩ := step_agrees hstart hclear.1
      exact ⟨hagrees, ih hcoherent hclear.2⟩

section Example

def idleBridge : Bridge littleHost where
  priv := { nethash := fun _ => [], allocations := 0, scdbMac := List.replicate 6 0,
            scdbIp := List.replicate 4 0, scdbEntry := none,
            brMac := [0x02, 0x00, 0x00, 0x00, 0x00, 0xfe], brIp := List.replicate 4 0 }
  time := 1000

/-- An IPv4 header from 10.1.1.`last` of the client 02:00:00:00:00:0a. -/
def clientFrame (last : UInt8) : Skb where
  data := [0x00, 0x11, 0x22, 0x33, 0x44, 0x55, 0x02, 0x00, 0x00, 0x00, 0x00, 0x0a, 0x08, 0x00,
    0x45, 0, 0, 20, 0, 0, 0, 0, 64, 17, 0, 0, 10, 1, 1, last, 192, 168, 1, 1]
  header := by simp

/-- An IPv4 header back to 10.1.1.10. -/
def replyFrame : Skb where
  data := [0x00, 0xe0, 0x4c, 0x81, 0x88, 0x01, 0x00, 0x11, 0x22, 0x33, 0x44, 0x55, 0x08, 0x00,
    0x45, 0, 0, 20, 0, 0, 0, 0, 64, 17, 0, 0, 192, 168, 1, 1, 10, 1, 1, 10]
  header := by decide

theorem shortcut_agrees_reply : Guarded step Agrees idleBridge
    [.send true true true (clientFrame 10), .send true true true (clientFrame 10),
      .receive ⟨false, false⟩ none replyFrame] := by
  apply (shortcut_agrees ⟨rfl, rfl, rfl, rfl⟩ _).2
  decide

/-- Once the shortcut knows a client, a second address of it is never recorded. -/
theorem second_address_not_recorded : idleBridge.Fresh ∧ ¬ Guarded step Agrees idleBridge
    [.send true true true (clientFrame 10), .send true true true (clientFrame 10),
      .send true true true (clientFrame 20)] := by
  constructor
  · exact ⟨rfl, rfl, rfl, rfl⟩
  · rintro ⟨-, -, hagrees, -⟩
    obtain ⟨b, hb, -⟩ := hagrees (by decide) (by decide)
    have hnone := Option.isSome_iff_exists.mpr ⟨b, hb⟩
    revert hnone
    decide

end Example

end Bridge
end Rtl8188eu.BrExt

import StandaloneDrivers.Rt5572.MacTable
import Mathlib.Data.Fintype.Card
import Mathlib.Data.List.Find

/-! The table of stations over every sequence of its operations: its size, its chains, the search
for an address and the counters of an access point's networks. -/
namespace Rt5572.MacTab
open Foundations

def live (s : MacTab) (i : Wcid) : Prop := (s.content i).entryType ≠ .none

instance (s : MacTab) : DecidablePred s.live := fun i =>
  inferInstanceAs (Decidable ((s.content i).entryType ≠ .none))

def addr (s : MacTab) (i : Wcid) : Addr := (s.content i).addr

def bucket (s : MacTab) (i : Wcid) : Fin hashTableSize := macAddrHashIndex (s.addr i)

/-- An entry is a client of a network. -/
def ClientOf (s : MacTab) (apidx : UInt8) (i : Wcid) : Prop :=
  (s.content i).entryType = .client ∧ (s.content i).apidx = apidx

instance (s : MacTab) (apidx : UInt8) : DecidablePred (s.ClientOf apidx) := fun _ =>
  inferInstanceAs (Decidable (_ ∧ _))

/-- What the table guarantees in either mode. -/
structure Sound (s : MacTab) : Prop where
  size : s.size = (Finset.univ.filter s.live).card
  chains : ∀ h, ∃ l, Linked s.next (s.hash h) l ∧ l.Nodup ∧
    ∀ i, i ∈ l ↔ s.live i ∧ macAddrHashIndex (s.content i).addr = h
  found : ∀ a, ∃ r, s.macTableLookup a = some r ∧
    (∀ i, r = some i → s.live i ∧ (s.content i).addr = a) ∧
    (r = none → ∀ i, s.live i → (s.content i).addr ≠ a)

/-- The counter of each network is the number of its clients. -/
def Counted (s : MacTab) : Prop :=
  ∀ apidx, (s.staCount apidx).toNat = (Finset.univ.filter (s.ClientOf apidx)).card

/-- What the operations preserve: entry 0 is never used. -/
structure Inv (s : MacTab) : Prop where
  chains : ∃ lists, Filed s.live s.bucket lists ∧ Chained s.next s.hash lists
  size : s.size = (Finset.univ.filter s.live).card
  first : ¬ s.live 0

theorem length_le {l : List Wcid} (h : l.Nodup) : l.length ≤ maxLen := by
  have hcard := h.length_le_card
  rwa [Fintype.card_fin] at hcard

theorem Inv.sound {s : MacTab} (h : s.Inv) : s.Sound where
  size := h.size
  chains := by
    intro b
    obtain ⟨lists, hfiled, hchained⟩ := h.chains
    exact ⟨lists b, hchained b, hfiled.nodup b, hfiled.mem b⟩
  found := by
    intro a
    obtain ⟨lists, hfiled, hchained⟩ := h.chains
    have hwalk := (hchained (macAddrHashIndex a)).walk
      (fun i => s.isNone i || (s.content i).addr = a) (length_le (hfiled.nodup _))
    have hstop : ∀ i ∈ lists (macAddrHashIndex a),
        (s.isNone i || decide ((s.content i).addr = a)) = decide ((s.content i).addr = a) := by
      intro i hi
      have hlive := ((hfiled.mem _ i).mp hi).1
      rw [isNone, decide_eq_false hlive, Bool.false_or]
    rw [List.find?_congr hstop] at hwalk
    have hkeyed : Filed s.live (fun i => macAddrHashIndex (s.addr i)) lists := hfiled
    refine ⟨_, hwalk, ?_, ?_⟩
    · intro i hi
      exact hkeyed.find_some hi
    · intro hnone
      exact hkeyed.find_none.mp hnone

/-- Two tables whose entries differ in their pointers only. -/
def SameEntries (s s' : MacTab) : Prop :=
  ∀ i, (s'.content i).entryType = (s.content i).entryType ∧
    (s'.content i).apidx = (s.content i).apidx ∧ (s'.content i).addr = (s.content i).addr

theorem setNext_same (s : MacTab) (t : Wcid) (n : Option Wcid) : s.SameEntries (s.setNext t n) := by
  intro i
  by_cases hi : i = t
  · subst hi
    simp only [setNext, setEntry, Function.update_self, and_self]
  · simp only [setNext, setEntry, Function.update_of_ne hi, and_self]

theorem setNext_next (s : MacTab) (t : Wcid) (n : Option Wcid) :
    (s.setNext t n).next = Function.update s.next t n := by
  funext i
  by_cases hi : i = t
  · subst hi
    simp only [next, setNext, setEntry, Function.update_self]
  · simp only [next, setNext, setEntry, Function.update_of_ne hi]

/-- A new entry becomes the last of its chain. -/
theorem addToHash_spec {s s₁ : MacTab} {lists : Fin hashTableSize → List Wcid}
    (hfiled : Filed s.live s.bucket lists) (hchained : Chained s.next s.hash lists) {i : Wcid}
    (hi : ¬ s.live i) (hothers : ∀ j, j ≠ i → s₁.content j = s.content j)
    (hnew : s₁.live i) (hnext : s₁.next i = none) (hhash : s₁.hash = s.hash) :
    ∃ s₂, s₁.addToHash i (s₁.content i).addr = some s₂ ∧ s₁.SameEntries s₂ ∧
      s₂.size = s₁.size ∧ s₂.staCount = s₁.staCount ∧ s₂.maxStaNum = s₁.maxStaNum ∧
      ∃ lists', Filed s₁.live s₁.bucket lists' ∧ Chained s₂.next s₂.hash lists' := by
  have hne : ∀ j, s.live j → j ≠ i := by
    rintro j hj rfl
    exact hi hj
  have hlive : ∀ j, s₁.live j ↔ s.live j ∨ j = i := by
    intro j
    by_cases hj : j = i
    · rw [hj]
      exact ⟨fun _ => Or.inr rfl, fun _ => hnew⟩
    · rw [live, hothers j hj]
      exact ⟨Or.inl, fun hor => hor.resolve_right hj⟩
  have hbucket : ∀ j, s.live j → s₁.bucket j = s.bucket j := by
    intro j hj
    rw [bucket, addr, hothers j (hne j hj), bucket, addr]
  have hnext₁ : ∀ j, s.live j → s₁.next j = s.next j := by
    intro j hj
    rw [next, hothers j (hne j hj), next]
  have hfiled' := hfiled.append hi hlive hbucket rfl
  have hchain := hchained (macAddrHashIndex (s₁.content i).addr)
  cases hhead : s.hash (macAddrHashIndex (s₁.content i).addr) with
  | none =>
    have heq : s₁.addToHash i (s₁.content i).addr = some { s₁ with
        hash := Function.update s.hash (macAddrHashIndex (s₁.content i).addr) (some i) } := by
      simp only [addToHash, hhash, hhead]
    rw [hhead] at hchain
    refine ⟨_, heq, fun j => ⟨rfl, rfl, rfl⟩, rfl, rfl, rfl, _, hfiled', ?_⟩
    exact hchained.append_nil hfiled hchain.eq_nil hnext₁ hnext
  | some first =>
    obtain ⟨front, t, hlist⟩ : ∃ front t, lists (macAddrHashIndex (s₁.content i).addr) =
        front ++ [t] := by
      apply (List.eq_nil_or_concat' _).resolve_left
      intro hnil
      rw [hnil, hhead] at hchain
      cases hchain
    have hlength := length_le (hfiled.nodup (macAddrHashIndex (s₁.content i).addr))
    have hmem : ∀ j ∈ front ++ [t], s.live j :=
      fun j hj => ((hfiled.mem _ j).mp (hlist ▸ hj)).1
    rw [hlist] at hlength
    rw [hlist, hhead] at hchain
    have hchain₁ := hchain.congr fun j hj => hnext₁ j (hmem j hj)
    have ht := hmem t (List.mem_append_right _ List.mem_cons_self)
    have hwalk := hchain₁.walk (fun j => (s₁.next j).isNone) hlength
    rw [hchain₁.find_last] at hwalk
    have heq : s₁.addToHash i (s₁.content i).addr = some (s₁.setNext t (some i)) := by
      simp only [addToHash, hhash, hhead, hwalk, Option.map_some]
    refine ⟨_, heq, setNext_same _ _ _, rfl, rfl, rfl, _, hfiled', ?_⟩
    have hhash' : (s₁.setNext t (some i)).hash = s.hash := hhash
    rw [setNext_next, hhash']
    apply hchained.append_last hfiled hlist
    · intro j hj hjt
      rw [Function.update_of_ne hjt, hnext₁ j hj]
    · rw [Function.update_self]
    · rw [Function.update_of_ne (hne t ht).symm, hnext]

/-- An entry is taken out of its chain. -/
theorem removeFromHash_spec {s s₁ : MacTab} {lists : Fin hashTableSize → List Wcid}
    (hfiled : Filed s.live s.bucket lists) (hchained : Chained s.next s.hash lists) {i : Wcid}
    (hi : s.live i) (hcontent : s₁.content = s.content) (hhash : s₁.hash = s.hash) :
    ∃ s₂, s₁.removeFromHash i (s.content i).addr = some s₂ ∧ s₁.SameEntries s₂ ∧
      s₂.size = s₁.size ∧ s₂.staCount = s₁.staCount ∧ s₂.maxStaNum = s₁.maxStaNum ∧
      Chained s₂.next s₂.hash (Function.update lists (s.bucket i)
        ((lists (s.bucket i)).erase i)) := by
  have hnext : s₁.next = s.next := by
    funext j
    rw [next, hcontent, next]
  have hmem : i ∈ lists (s.bucket i) := (hfiled.mem _ i).mpr ⟨hi, rfl⟩
  obtain ⟨front, back, hlist⟩ := List.append_of_mem hmem
  have hchain := hchained (s.bucket i)
  have hnodup := hfiled.nodup (s.bucket i)
  have hlength := length_le hnodup
  rw [hlist] at hchain hnodup hlength
  have hfront : i ∉ front := by
    intro hin
    exact (List.nodup_append.mp hnodup).2.2 i hin i List.mem_cons_self rfl
  have hwalk := hchain.walkTo hfront none hlength
  have hindex : macAddrHashIndex (s.content i).addr = s.bucket i := rfl
  cases front using List.reverseRecOn with
  | nil =>
    have heq : s₁.removeFromHash i (s.content i).addr = some { s₁ with
        hash := Function.update s.hash (s.bucket i) (s.next i) } := by
      simp only [removeFromHash, hindex, hnext, hhash, hwalk, List.getLast?_nil, Option.none_or,
        Option.map_some]
    refine ⟨_, heq, fun j => ⟨rfl, rfl, rfl⟩, rfl, rfl, rfl, ?_⟩
    apply hchained.unlink_head hfiled hlist
    intro j _ _
    exact congrFun hnext j
  | append_singleton front p =>
    have heq : s₁.removeFromHash i (s.content i).addr = some (s₁.setNext p (s.next i)) := by
      simp only [removeFromHash, hindex, hnext, hhash, hwalk, List.getLast?_concat,
        Option.some_or, Option.map_some]
    refine ⟨_, heq, setNext_same _ _ _, rfl, rfl, rfl, ?_⟩
    have hhash' : (s₁.setNext p (s.next i)).hash = s.hash := hhash
    rw [setNext_next, hhash', hnext]
    apply hchained.unlink_next hfiled (hlist.trans (List.append_assoc _ _ _))
    · intro j _ _ hjp
      exact Function.update_of_ne hjp _ _
    · exact Function.update_self _ _ _

theorem Inv.of_same {s₁ s₂ : MacTab} (hsame : s₁.SameEntries s₂)
    {lists : Fin hashTableSize → List Wcid} (hfiled : Filed s₁.live s₁.bucket lists)
    (hchained : Chained s₂.next s₂.hash lists)
    (hsize : s₂.size = (Finset.univ.filter s₁.live).card) (hfirst : ¬ s₁.live 0) : s₂.Inv := by
  have hlive : ∀ i, s₂.live i ↔ s₁.live i := by
    intro i
    rw [live, (hsame i).1, live]
  constructor
  · refine ⟨lists, hfiled.congr hlive ?_, hchained⟩
    intro i _
    rw [bucket, addr, (hsame i).2.2, bucket, addr]
  · rw [hsize]
    congr 1
    ext i
    simp only [Finset.mem_filter, hlive]
  · rwa [hlive]

theorem clientOf_same {s₁ s₂ : MacTab} (hsame : s₁.SameEntries s₂) (apidx : UInt8) (i : Wcid) :
    s₂.ClientOf apidx i ↔ s₁.ClientOf apidx i := by
  rw [ClientOf, (hsame i).1, (hsame i).2.1, ClientOf]

theorem Counted.congr {s s' : MacTab} (h : s.Counted) (hcount : s'.staCount = s.staCount)
    (hclient : ∀ apidx i, s'.ClientOf apidx i ↔ s.ClientOf apidx i) : s'.Counted := by
  intro apidx
  rw [hcount, h apidx]
  congr 1
  ext i
  simp only [Finset.mem_filter, hclient]

/-- An unused entry may be written, as long as it stays unused. -/
theorem Inv.zero {s : MacTab} (h : s.Inv) {i : Wcid} (hi : ¬ s.live i) :
    (s.setEntry i Entry.zero).Inv := by
  obtain ⟨lists, hfiled, hchained⟩ := h.chains
  have hother : ∀ j, s.live j → (s.setEntry i Entry.zero).content j = s.content j := by
    intro j hj
    apply Function.update_of_ne
    rintro rfl
    exact hi hj
  have hlive : ∀ j, (s.setEntry i Entry.zero).live j ↔ s.live j := by
    intro j
    by_cases hj : j = i
    · subst hj
      simp only [live, setEntry, Function.update_self, Entry.zero, ne_eq, not_true_eq_false,
        false_iff]
      exact hi
    · simp only [live, setEntry, Function.update_of_ne hj]
  constructor
  · refine ⟨lists, hfiled.congr hlive ?_, hchained.congr ?_⟩
    · intro j hj
      rw [bucket, addr, hother j hj, bucket, addr]
    · intro b j hj
      rw [next, hother j ((hfiled.mem b j).mp hj).1, next]
  · simp only [hlive]
    exact h.size
  · rw [hlive]
    exact h.first

theorem zero_clientOf {s : MacTab} {i : Wcid} (hi : ¬ s.live i) (apidx : UInt8) (j : Wcid) :
    (s.setEntry i Entry.zero).ClientOf apidx j ↔ s.ClientOf apidx j := by
  by_cases hj : j = i
  · subst hj
    rw [live, not_not] at hi
    simp only [ClientOf, setEntry, Function.update_self, Entry.zero, hi, reduceCtorEq, false_and]
  · simp only [ClientOf, setEntry, Function.update_of_ne hj]

/-- A new entry is chained after it was set up. -/
theorem Inv.insert {s : MacTab} (h : s.Inv) {i : Wcid} (hi : ¬ s.live i) (hfirst : i ≠ 0)
    (e : Entry) (s₁ : MacTab) (he : e.entryType ≠ .none) (hnext : e.pNext = none)
    (hcontent : s₁.content = Function.update s.content i e) (hhash : s₁.hash = s.hash)
    (hsize : s₁.size = s.size + 1) :
    ∃ s₂, s₁.addToHash i e.addr = some s₂ ∧ s₂.Inv ∧ s₂.staCount = s₁.staCount ∧
      ∀ a j, s₂.ClientOf a j ↔ s.ClientOf a j ∨
        (j = i ∧ e.entryType = .client ∧ e.apidx = a) := by
  have hself : s₁.content i = e := by rw [hcontent, Function.update_self]
  have hothers : ∀ j, j ≠ i → s₁.content j = s.content j := by
    intro j hj
    rw [hcontent, Function.update_of_ne hj]
  have hnew : s₁.live i := by
    rw [live, hself]
    exact he
  obtain ⟨lists, hfiled, hchained⟩ := h.chains
  have hend : s₁.next i = none := by rw [next, hself, hnext]
  obtain ⟨s₂, heq, hsame, hsize₂, hcount, -, lists', hfiled', hchained'⟩ :=
    addToHash_spec hfiled hchained hi hothers hnew hend hhash
  rw [hself] at heq
  refine ⟨s₂, heq, Inv.of_same hsame hfiled' hchained' ?_ ?_, hcount, ?_⟩
  · rw [hsize₂, hsize, h.size]
    symm
    apply card_filter_insert hi
    intro j
    by_cases hj : j = i
    · rw [hj]
      exact ⟨fun _ => Or.inr rfl, fun _ => hnew⟩
    · rw [live, hothers j hj]
      exact ⟨Or.inl, fun hor => hor.resolve_right hj⟩
  · rw [live, hothers 0 hfirst.symm]
    exact h.first
  · intro a j
    rw [clientOf_same hsame]
    by_cases hj : j = i
    · subst hj
      have hnot : ¬ s.ClientOf a j := by
        intro hc
        rw [live, hc.1] at hi
        exact hi nofun
      rw [ClientOf, hself]
      simp only [hnot, false_or, true_and]
    · rw [ClientOf, hothers j hj]
      simp only [hj, false_and, or_false, ClientOf]

theorem vacancy_spec {s : MacTab} {mode : OpMode} {i : Wcid} (h : s.vacancy mode = some i) :
    ¬ s.live i ∧ i ≠ 0 := by
  have hfound := List.find?_some h
  rw [Bool.and_eq_true, decide_eq_true_eq] at hfound
  constructor
  · rw [live, not_not]
    exact of_decide_eq_true hfound.2
  · rintro rfl
    have hone : 1 ≤ firstWcid mode := by
      unfold firstWcid
      split <;> decide
    exact absurd (hone.trans hfound.1) (by decide)

/-- A network that the callers of an access point pass: one of the profile, or a client of another
access point. -/
def KnownApidx (cfg : ApCfg) (apidx : UInt8) : Prop :=
  apidx.toNat < cfg.bssidNum ∨ minNetDeviceForApcli ≤ apidx

theorem apidxSanityCheck_known {cfg : ApCfg} {apidx : UInt8} (h : KnownApidx cfg apidx)
    (hap : ¬ minNetDeviceForApcli ≤ apidx) : apidxSanityCheck cfg apidx = apidx := by
  have hlt := h.resolve_right hap
  have hle := cfg.bssidNum_le
  have hmax := cfg.maxMbssidNum_le
  have hno : (cfg.maxMbssidNum ≤ apidx.toNat || hwBeaconMaxNum ≤ apidx.toNat) = false := by
    rw [Bool.or_eq_false_iff, decide_eq_false_iff_not, decide_eq_false_iff_not]
    omega
  rw [apidxSanityCheck, hno]
  rfl

/-- A client joins its network. -/
theorem Counted.join {s s' : MacTab} (h : s.Counted) {i : Wcid} (hi : ¬ s.live i) {apidx : UInt8}
    (hcount : s'.staCount = Function.update s.staCount apidx (s.staCount apidx + 1))
    (hclient : ∀ a j, s'.ClientOf a j ↔ s.ClientOf a j ∨ (j = i ∧ a = apidx)) : s'.Counted := by
  intro a
  have hnot : ∀ a, ¬ s.ClientOf a i := by
    intro a hc
    rw [live, hc.1] at hi
    exact hi nofun
  rw [hcount]
  by_cases ha : a = apidx
  · subst ha
    have hle : (Finset.univ.filter (s.ClientOf a)).card ≤ maxLen := by
      have hcard := Finset.card_le_univ (Finset.univ.filter (s.ClientOf a))
      rwa [Fintype.card_fin] at hcard
    have hcard : (Finset.univ.filter (s'.ClientOf a)).card =
        (Finset.univ.filter (s.ClientOf a)).card + 1 := by
      apply card_filter_insert (hnot a)
      intro j
      rw [hclient]
      simp only [and_true]
    rw [Function.update_self, UInt8.toNat_add, h a, hcard]
    apply Nat.mod_eq_of_lt
    exact Nat.lt_of_le_of_lt (Nat.succ_le_succ hle) (by decide)
  · rw [Function.update_of_ne ha, h a]
    congr 1
    ext j
    simp only [Finset.mem_filter, hclient, ha, and_false, or_false]

/-- A client leaves its network. -/
theorem Counted.leave {s s' : MacTab} (h : s.Counted) {i : Wcid} {apidx : UInt8}
    (hi : s.ClientOf apidx i)
    (hcount : s'.staCount = Function.update s.staCount apidx (s.staCount apidx - 1))
    (hclient : ∀ a j, s'.ClientOf a j ↔ s.ClientOf a j ∧ j ≠ i) : s'.Counted := by
  intro a
  rw [hcount]
  by_cases ha : a = apidx
  · subst ha
    have hcard : (Finset.univ.filter (s.ClientOf a)).card =
        (Finset.univ.filter (s'.ClientOf a)).card + 1 := by
      apply card_filter_insert
      · intro hc
        exact ((hclient a i).mp hc).2 rfl
      · intro j
        rw [hclient]
        constructor
        · intro hj
          by_cases hji : j = i
          · exact Or.inr hji
          · exact Or.inl ⟨hj, hji⟩
        · rintro (hj | rfl)
          · exact hj.1
          · exact hi
    have hpos : 1 ≤ s.staCount a := by
      rw [UInt8.le_iff_toNat_le, h a, hcard]
      exact Nat.succ_le_succ (Nat.zero_le _)
    rw [Function.update_self, UInt8.toNat_sub_of_le _ _ hpos, h a, hcard]
    rfl
  · rw [Function.update_of_ne ha, h a]
    congr 1
    ext j
    simp only [Finset.mem_filter, hclient]
    constructor
    · rintro ⟨hu, hj⟩
      refine ⟨hu, hj, ?_⟩
      rintro rfl
      exact ha (hj.2.symm.trans hi.2)
    · rintro ⟨hu, hj, -⟩
      exact ⟨hu, hj⟩

theorem macTableInsertEntry_spec {s : MacTab} (h : s.Inv) (cfg : ApCfg) (mode : OpMode)
    (pAddr : Addr) (apidx : UInt8) (cleanAll : Bool) :
    ∃ s' r, s.macTableInsertEntry cfg mode pAddr apidx cleanAll = some (s', r) ∧ s'.Inv ∧
      (mode = .ap → KnownApidx cfg apidx → s.Counted → s'.Counted) := by
  by_cases hfull : maxLen ≤ s.size
  · exact ⟨s, none, by rw [macTableInsertEntry, if_pos hfull], h, fun _ _ hc => hc⟩
  cases hvacancy : s.vacancy mode with
  | none =>
    refine ⟨s, none, ?_, h, fun _ _ hc => hc⟩
    rw [macTableInsertEntry, if_neg hfull]
    simp only [hvacancy]
  | some i =>
    obtain ⟨hi, hfirst⟩ := vacancy_spec hvacancy
    have hzero := h.zero hi
    have hzeroCounted : s.Counted → (s.setEntry i Entry.zero).Counted := by
      intro hc
      exact hc.congr rfl (zero_clientOf hi)
    have hclean : (if cleanAll then (s.setEntry i Entry.zero).setEntry i Entry.zero
        else s.setEntry i Entry.zero) = s.setEntry i Entry.zero := by
      cases cleanAll with
      | false => rfl
      | true => simp only [setEntry, Function.update_idem, if_true]
    have hunused : ¬ (s.setEntry i Entry.zero).live i := by
      simp only [live, setEntry, Function.update_self, Entry.zero, ne_eq, not_true_eq_false,
        not_false_eq_true]
    generalize hs₀ : s.setEntry i Entry.zero = s₀ at hzero hzeroCounted hclean hunused
    by_cases hapcli : minNetDeviceForApcli ≤ apidx
    · obtain ⟨s₂, heq, hinv, hcount, hclient⟩ := hzero.insert hunused hfirst
        ⟨.apcli, apidx - minNetDeviceForApcli, pAddr, .notAuth, none⟩
        { s₀.setEntry i ⟨.apcli, apidx - minNetDeviceForApcli, pAddr, .notAuth, none⟩ with
          size := s₀.size + 1 } nofun rfl rfl rfl rfl
      refine ⟨s₂, some i, ?_, hinv, ?_⟩
      · rw [macTableInsertEntry, if_neg hfull]
        simp only [hvacancy, hs₀, hclean, if_pos hapcli]
        exact congrArg (Option.map (·, some i)) heq
      · intro _ _ hc
        apply (hzeroCounted hc).congr hcount
        intro a j
        rw [hclient]
        simp only [reduceCtorEq, false_and, and_false, or_false]
    · by_cases hmax : mode = .ap ∧ s₀.connectionTableFull cfg apidx
      · refine ⟨s₀, none, ?_, hzero, fun _ _ hc => hzeroCounted hc⟩
        rw [macTableInsertEntry, if_neg hfull]
        simp only [hvacancy, hs₀, hclean, if_neg hapcli, if_pos hmax]
      · let e : Entry := ⟨.client, apidx, pAddr, .notAuth, none⟩
        let s₁ : MacTab := if mode = .ap then
            { s₀.setEntry i e with
              staCount := Function.update s₀.staCount (apidxSanityCheck cfg apidx)
                (s₀.staCount (apidxSanityCheck cfg apidx) + 1) }
          else s₀.setEntry i e
        have hs₁ : s₁.content = Function.update s₀.content i e ∧ s₁.hash = s₀.hash ∧
            s₁.size = s₀.size := by
          by_cases hmode : mode = .ap
          · simp only [s₁, if_pos hmode, setEntry, and_self]
          · simp only [s₁, if_neg hmode, setEntry, and_self]
        obtain ⟨s₂, heq, hinv, hcount, hclient⟩ := hzero.insert hunused hfirst e
          { s₁ with size := s₁.size + 1 } nofun rfl hs₁.1 hs₁.2.1
          (congrArg (· + 1) hs₁.2.2)
        refine ⟨s₂, some i, ?_, hinv, ?_⟩
        · rw [macTableInsertEntry, if_neg hfull]
          simp only [hvacancy, hs₀, hclean, if_neg hapcli, if_neg hmax]
          exact congrArg (Option.map (·, some i)) heq
        · intro hmode hknown hc
          have hcount' : s₂.staCount = Function.update s₀.staCount apidx
              (s₀.staCount apidx + 1) := by
            rw [hcount]
            simp only [s₁, if_pos hmode, apidxSanityCheck_known hknown hapcli]
          apply (hzeroCounted hc).join hunused hcount'
          intro a j
          rw [hclient, eq_comm (a := a)]
          simp only [e, true_and]

/-- The entry with its address cleared, and the smaller table. -/
def dropEntry (s : MacTab) (i : Wcid) : MacTab :=
  { s.setEntry i { s.content i with addr := Vector.replicate 6 0, entryType := .none } with
    size := s.size - 1 }

theorem dropEntry_next (s : MacTab) (i : Wcid) : (s.dropEntry i).next = s.next := by
  funext j
  by_cases hj : j = i
  · subst hj
    simp only [next, dropEntry, setEntry, Function.update_self]
  · simp only [next, dropEntry, setEntry, Function.update_of_ne hj]

/-- A live entry is unchained before it is cleared. -/
theorem Inv.remove {s : MacTab} (h : s.Inv) {i : Wcid} (hi : s.live i) (s₁ : MacTab)
    (hcontent : s₁.content = s.content) (hhash : s₁.hash = s.hash) (hsize : s₁.size = s.size) :
    ∃ s₂, s₁.removeFromHash i (s.content i).addr = some s₂ ∧ (s₂.dropEntry i).Inv ∧
      (s₂.dropEntry i).staCount = s₁.staCount ∧
      (∀ j, (s₂.dropEntry i).live j ↔ s.live j ∧ j ≠ i) ∧
      ∀ a j, (s₂.dropEntry i).ClientOf a j ↔ s.ClientOf a j ∧ j ≠ i := by
  obtain ⟨lists, hfiled, hchained⟩ := h.chains
  obtain ⟨s₂, heq, hsame, hsize₂, hcount, -, hchained'⟩ :=
    removeFromHash_spec hfiled hchained hi hcontent hhash
  have hself : ((s₂.dropEntry i).content i).entryType = .none := by
    simp only [dropEntry, setEntry, Function.update_self]
  have hother : ∀ j, j ≠ i → (s₂.dropEntry i).content j = s₂.content j :=
    fun j hj => Function.update_of_ne hj _ _
  have hsame' : ∀ j, (s₂.content j).entryType = (s.content j).entryType ∧
      (s₂.content j).apidx = (s.content j).apidx ∧ (s₂.content j).addr = (s.content j).addr := by
    intro j
    rw [← hcontent]
    exact hsame j
  have hlive : ∀ j, (s₂.dropEntry i).live j ↔ s.live j ∧ j ≠ i := by
    intro j
    by_cases hj : j = i
    · subst hj
      simp only [live, hself, ne_eq, not_true_eq_false, and_false]
    · rw [live, hother j hj, (hsame' j).1]
      exact (and_iff_left hj).symm
  refine ⟨s₂, heq, ⟨⟨_, hfiled.erase rfl hlive ?_, ?_⟩, ?_, ?_⟩, hcount, hlive, ?_⟩
  · intro j hj
    rw [bucket, addr, hother j ((hlive j).mp hj).2, (hsame' j).2.2, bucket, addr]
  · rw [dropEntry_next]
    exact hchained'
  · have hcard : (Finset.univ.filter s.live).card =
        (Finset.univ.filter (s₂.dropEntry i).live).card + 1 := by
      apply card_filter_insert
      · intro hlive'
        exact ((hlive i).mp hlive').2 rfl
      · intro j
        rw [hlive]
        by_cases hj : j = i
        · rw [hj]
          exact ⟨fun _ => Or.inr rfl, fun _ => hi⟩
        · simp only [hj, ne_eq, not_false_eq_true, and_true, or_false]
    show s₂.size - 1 = _
    rw [hsize₂, hsize, h.size, hcard, Nat.add_sub_cancel]
  · rw [hlive]
    exact fun hzero => h.first hzero.1
  · intro a j
    by_cases hj : j = i
    · subst hj
      simp only [ClientOf, hself, reduceCtorEq, false_and, ne_eq, not_true_eq_false, and_false]
    · rw [ClientOf, hother j hj, (hsame' j).1, (hsame' j).2.1]
      exact (and_iff_left hj).symm

theorem macTableDeleteEntry_spec {s : MacTab} (h : s.Inv) (wcid : ℕ) (pAddr : Addr) :
    ∃ s' r, s.macTableDeleteEntry wcid pAddr = some (s', r) ∧ s'.Inv ∧
      (s.Counted → s'.Counted) ∧ (∀ j, s'.live j → s.live j) ∧
      ∀ i : Wcid, wcid = i → pAddr = s.addr i → ¬ s'.live i := by
  by_cases hlt : wcid < maxLen
  swap
  · refine ⟨s, false, ?_, h, fun hc => hc, fun _ hj => hj, fun i hi => ?_⟩
    · rw [macTableDeleteEntry, dif_neg hlt]
    · exact absurd (hi ▸ i.isLt) hlt
  obtain ⟨i, rfl⟩ : ∃ i : Wcid, wcid = i := ⟨⟨wcid, hlt⟩, rfl⟩
  by_cases hskip : (s.isNone i || decide ((s.content i).addr ≠ pAddr)) = true
  · refine ⟨s, true, ?_, h, fun hc => hc, fun _ hj => hj, ?_⟩
    · rw [macTableDeleteEntry, dif_pos hlt]
      exact if_pos hskip
    · intro j hj haddr
      obtain rfl := Fin.ext hj
      rw [Bool.or_eq_true, decide_eq_true_eq, haddr] at hskip
      have hnone := hskip.resolve_right (not_not.mpr rfl)
      rw [live, not_not]
      exact of_decide_eq_true hnone
  · have hdelete : s.macTableDeleteEntry i pAddr = ((if (s.content i).entryType = .client then
        { s with
          staCount := Function.update s.staCount (s.content i).apidx
            (s.staCount (s.content i).apidx - 1) }
      else s).removeFromHash i pAddr).map fun s => (s.dropEntry i, true) := by
      rw [macTableDeleteEntry, dif_pos hlt]
      exact if_neg hskip
    rw [Bool.or_eq_true, not_or, decide_eq_true_eq, not_not] at hskip
    obtain ⟨hsome, rfl⟩ := hskip
    have hi : s.live i := fun hnone => hsome (decide_eq_true hnone)
    by_cases hclient : (s.content i).entryType = .client
    · rw [if_pos hclient] at hdelete
      obtain ⟨s₂, heq, hinv, hcount, hlive, hclients⟩ := h.remove hi
        { s with
          staCount := Function.update s.staCount (s.content i).apidx
            (s.staCount (s.content i).apidx - 1) } rfl rfl rfl
      rw [heq] at hdelete
      refine ⟨s₂.dropEntry i, true, hdelete, hinv, ?_, fun j hj => ((hlive j).mp hj).1, ?_⟩
      · intro hc
        exact hc.leave ⟨hclient, rfl⟩ hcount hclients
      · intro j hj _
        obtain rfl := Fin.ext hj
        exact fun hself => ((hlive i).mp hself).2 rfl
    · rw [if_neg hclient] at hdelete
      obtain ⟨s₂, heq, hinv, hcount, hlive, hclients⟩ := h.remove hi s rfl rfl rfl
      rw [heq] at hdelete
      refine ⟨s₂.dropEntry i, true, hdelete, hinv, ?_, fun j hj => ((hlive j).mp hj).1, ?_⟩
      · intro hc
        apply hc.congr hcount
        intro a j
        rw [hclients]
        apply and_iff_left_of_imp
        rintro hj rfl
        exact hclient hj.1
      · intro j hj _
        obtain rfl := Fin.ext hj
        exact fun hself => ((hlive i).mp hself).2 rfl

theorem deleteEntries_spec (mode : OpMode) (allocated : Wcid → Bool) (l : List Wcid) {s : MacTab}
    (h : s.Inv) : ∃ s' complete, deleteEntries mode allocated l s = some (s', complete) ∧ s'.Inv ∧
      (s.Counted → s'.Counted) ∧ (∀ j, s'.live j → s.live j) ∧
      (complete = true → ∀ j ∈ l, ¬ s'.live j) := by
  induction l generalizing s with
  | nil => exact ⟨s, true, rfl, h, fun hc => hc, fun _ hj => hj, fun _ j hj => nomatch hj⟩
  | cons i l ih =>
    unfold deleteEntries
    by_cases hstop : (s.content i).entryType = .client ∧ mode = .ap ∧ (s.content i).sst = .assoc ∧
        allocated i = false
    · rw [if_pos hstop]
      exact ⟨s, false, rfl, h, fun hc => hc, fun _ hj => hj, fun hno => nomatch hno⟩
    · rw [if_neg hstop]
      obtain ⟨s₁, r, hdelete, hinv, hcount, hlive, hgone⟩ :=
        macTableDeleteEntry_spec h i (s.content i).addr
      obtain ⟨s₂, complete, hrest, hinv', hcount', hlive', hgone'⟩ := ih hinv
      rw [hdelete]
      refine ⟨s₂, complete, hrest, hinv', fun hc => hcount' (hcount hc),
        fun j hj => hlive j (hlive' j hj), ?_⟩
      intro hcomplete j hj
      rcases List.mem_cons.mp hj with rfl | hj
      · exact fun hself => hgone j rfl rfl (hlive' j hself)
      · exact hgone' hcomplete j hj

theorem macTableReset_spec {s : MacTab} (h : s.Inv) (cfg : ApCfg) (mode : OpMode)
    (allocated : Wcid → Bool) :
    ∃ s', s.macTableReset cfg mode allocated = some s' ∧ s'.Inv ∧ (s.Counted → s'.Counted) := by
  obtain ⟨s₁, complete, heq, hinv, hcount, -, hgone⟩ :=
    deleteEntries_spec mode allocated ((List.finRange maxLen).drop 1) h
  simp only [macTableReset, heq, Option.map_some]
  by_cases hclear : complete = true ∧ mode = .ap
  · have hempty : ∀ j, ¬ s₁.live j := by
      intro j
      by_cases hj : j = 0
      · rw [hj]
        exact hinv.first
      · have hdrop : ∀ j : Wcid, j ≠ 0 → j ∈ (List.finRange maxLen).drop 1 := by decide
        exact hgone hclear.1 j (hdrop j hj)
    simp only [if_pos hclear]
    refine ⟨_, rfl, ⟨hinv.chains, ?_, hinv.first⟩, ?_⟩
    · symm
      rw [Finset.card_eq_zero, Finset.filter_eq_empty_iff]
      intro j _
      exact hempty j
    · intro hc apidx
      by_cases hlt : apidx.toNat < cfg.bssidNum
      · simp only [if_pos hlt]
        symm
        rw [UInt8.toNat_zero, Finset.card_eq_zero, Finset.filter_eq_empty_iff]
        intro j _ hj
        apply hempty j
        rw [live]
        exact hj.1 ▸ nofun
      · simp only [if_neg hlt]
        exact hcount hc apidx
  · simp only [if_neg hclear]
    exact ⟨s₁, rfl, hinv, hcount⟩

/-- The driver is an access point at a call, and the network of a new entry is a known one. -/
def ApCall (cfg : ApCfg) (call : OpMode × Call) : Prop :=
  call.1 = .ap ∧ match call.2 with
    | .insert _ apidx _ => KnownApidx cfg apidx
    | _ => True

theorem step_spec {s : MacTab} (h : s.Inv) (cfg : ApCfg) (call : OpMode × Call) :
    ∃ s', s.step cfg call = some s' ∧ s'.Inv ∧ (ApCall cfg call → s.Counted → s'.Counted) := by
  obtain ⟨mode, call⟩ := call
  cases call with
  | insert pAddr apidx cleanAll =>
    obtain ⟨s', r, heq, hinv, hcount⟩ := macTableInsertEntry_spec h cfg mode pAddr apidx cleanAll
    refine ⟨s', ?_, hinv, fun hap => hcount hap.1 hap.2⟩
    simp only [step, heq, Option.map_some]
  | delete wcid pAddr =>
    obtain ⟨s', r, heq, hinv, hcount, -, -⟩ := macTableDeleteEntry_spec h wcid pAddr
    refine ⟨s', ?_, hinv, fun _ => hcount⟩
    simp only [step, heq, Option.map_some]
  | reset allocated =>
    obtain ⟨s', heq, hinv, hcount⟩ := macTableReset_spec h cfg mode allocated
    exact ⟨s', heq, hinv, fun _ => hcount⟩
  | setSst i sst =>
    have hsame : s.SameEntries (s.setEntry i { s.content i with sst := sst }) := by
      intro j
      by_cases hj : j = i
      · subst hj
        simp only [setEntry, Function.update_self, and_self]
      · simp only [setEntry, Function.update_of_ne hj, and_self]
    have hnext : (s.setEntry i { s.content i with sst := sst }).next = s.next := by
      funext j
      by_cases hj : j = i
      · subst hj
        simp only [next, setEntry, Function.update_self]
      · simp only [next, setEntry, Function.update_of_ne hj]
    obtain ⟨lists, hfiled, hchained⟩ := h.chains
    refine ⟨_, rfl, Inv.of_same hsame hfiled ?_ h.size h.first, fun _ hc => ?_⟩
    · rw [hnext]
      exact hchained
    · exact hc.congr rfl (clientOf_same hsame)
  | setMaxStaNum apidx maxStaNum =>
    exact ⟨_, rfl, ⟨h.chains, h.size, h.first⟩, fun _ hc => hc⟩

theorem init_inv : init.Inv where
  chains := by
    refine ⟨fun _ => [], ⟨?_, fun _ => List.nodup_nil⟩, fun _ => rfl⟩
    intro b i
    constructor
    · intro hi
      cases hi
    · intro hi
      exact absurd rfl hi.1
  size := by decide
  first := by decide

theorem init_counted : init.Counted := by
  intro apidx
  have hempty : Finset.univ.filter (init.ClientOf apidx) = ∅ := by
    rw [Finset.filter_eq_empty_iff]
    intro i _ hi
    exact nomatch hi.1
  rw [hempty]
  rfl

theorem steps_spec (cfg : ApCfg) (calls : List (OpMode × Call)) {s : MacTab} (h : s.Inv) :
    ∃ s', calls.foldlM (step cfg) s = some s' ∧ s'.Inv ∧
      ((∀ call ∈ calls, ApCall cfg call) → s.Counted → s'.Counted) := by
  induction calls generalizing s with
  | nil => exact ⟨s, rfl, h, fun _ hc => hc⟩
  | cons call calls ih =>
    obtain ⟨s₁, hstep, hinv, hcount⟩ := step_spec h cfg call
    obtain ⟨s₂, hrest, hinv', hcount'⟩ := ih hinv
    refine ⟨s₂, ?_, hinv', fun hap hc => ?_⟩
    · rw [List.foldlM_cons, hstep]
      exact hrest
    · exact hcount' (fun c hmem => hap c (List.mem_cons_of_mem _ hmem))
        (hcount (hap call List.mem_cons_self) hc)

/-- Whatever the calls and the modes they are made in, all loops end and the table is sound; an
access point's counters are right. -/
theorem mac_table_sound (cfg : ApCfg) (calls : List (OpMode × Call)) :
    ∃ s, calls.foldlM (step cfg) init = some s ∧ s.Sound ∧
      ((∀ call ∈ calls, ApCall cfg call) → s.Counted) := by
  obtain ⟨s, heq, hinv, hcount⟩ := steps_spec cfg calls init_inv
  exact ⟨s, heq, hinv.sound, fun hap => hcount hap init_counted⟩

end Rt5572.MacTab

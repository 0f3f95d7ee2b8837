import Mathlib.Data.List.TakeWhile
import StandaloneDrivers.Foundations.Fanout
import StandaloneDrivers.Foundations.Run
import StandaloneDrivers.Rt5572.MacTableRuns

/-! The clones of a multicast packet (`IgmpPktClone` of common/igmp_snoop.c): one for each member of
the packet's group, or, for a membership message, one for each client of its network device. -/
namespace Rt5572
open Foundations MacTab
attribute [local instance] neZero_thirtyTwo

/-- `PsMode` -/
inductive PsMode
  | active
  | save
  | mmps
  deriving DecidableEq, Repr

/-- `MAC_ADDR_IS_GROUP` -/
def macAddrIsGroup (addr : Addr) : Bool := getElem addr 0 zero_lt_six &&& 1 != 0

/-- `IgmpPktInGroup` -/
inductive PktInGroup
  | none
  | pkt
  | inGroup
  deriving DecidableEq, Repr

/-- The table of stations as its operations leave it, with more of each entry. `Aid` is the index of
the entry. -/
structure StationTab where
  tab : MacTab
  inv : tab.Inv
  psMode : Wcid → PsMode
  portSecured : Wcid → Bool

/-- What `APSsPsInquiry` returns, and two of the variables that it sets. -/
structure Inquiry where
  pEntry : Option Wcid
  sst : Sst
  psMode : PsMode
  deriving DecidableEq, Repr

/-- The members of a group: none is listed twice. -/
structure MemberList where
  addrs : List Addr
  nodup : addrs.Nodup

namespace StationTab
variable (t : StationTab)

def addr (i : Wcid) : Addr := (t.tab.content i).addr

/-- `MacTableLookup`, whose walk along a chain ends. -/
def macTableLookup (pAddr : Addr) : Option Wcid := (t.tab.macTableLookup pAddr).join

/-- What an inquiry reports of an entry. -/
def report (i : Wcid) : Inquiry := ⟨some i, (t.tab.content i).sst, t.psMode i⟩

/-- `APSsPsInquiry` -/
def apSsPsInquiry (pAddr : Addr) : Inquiry :=
  if macAddrIsGroup pAddr then ⟨none, .assoc, .active⟩
  else match t.macTableLookup pAddr with
  | some i => t.report i
  | none => ⟨none, .notAuth, .active⟩

/-- The entry that an address leads to. -/
def entryOf (pAddr : Addr) : Option Wcid := (t.apSsPsInquiry pAddr).pEntry

end StationTab

/-- The variables of the loop: the members that follow `pMemberEntry`, and the last inquiry. -/
structure Turn where
  later : List Addr
  inquiry : Inquiry

/-- `turn` is there while `bContinue` is set; `status` is what the function returns. A clone is parked
in the power-save queue (`APInsertPsQueue`), sent through `TxSwQueue` or released. -/
structure CloneSt where
  turn : Option Turn
  attempts : ℕ
  number : ℕ
  clones : List (Wcid × Fate)
  status : Bool

/-- A call of `IgmpPktClone`: which attempts of `OS_PKT_CLONE` succeed, and the length of the queue
`TxSwQueue[QueIdx]`. -/
structure CloneCall where
  stations : StationTab
  getNetdevFromBssid : UInt8 → Option ℕ
  pktInGroup : PktInGroup
  pGroupEntry : Option MemberList
  pPacket : ℕ → UInt8
  pNetDev : Option ℕ
  osPktClone : ℕ → Bool
  number : ℕ
  txSwQMaxLen : ℕ

namespace CloneCall
variable (c : CloneCall)

section Code

/-- The source address of the packet. -/
def srcAddr : Addr := Vector.ofFn fun i => c.pPacket (6 + i)

/-- An entry is a client of the packet's device. -/
def ofDevice (i : Wcid) : Bool :=
  (c.stations.tab.content i).entryType = .client &&
    c.getNetdevFromBssid (c.stations.tab.content i).apidx = c.pNetDev

def nextMember : List Addr → Option Turn
  | [] => none
  | pMemberAddr :: later => some ⟨later, c.stations.apSsPsInquiry pMemberAddr⟩

/-- The test of the loops over `MacEntryIdx`; the loop after a clone that was queued does not compare
the addresses. -/
def accepts (skipSrc : Bool) (inquiry : Inquiry) : Bool :=
  inquiry.pEntry.any fun j =>
    c.ofDevice j && !(skipSrc && decide (c.stations.addr j = c.srcAddr))

def nextClient (skipSrc : Bool) (macEntryIdx : ℕ) : Option Turn :=
  ((List.finRange maxLen).drop macEntryIdx).findSome? fun i =>
    let inquiry := c.stations.apSsPsInquiry (c.stations.addr i)
    if c.accepts skipSrc inquiry then some ⟨[], inquiry⟩ else none

def nextTurn (skipSrc : Bool) (turn : Turn) : Option Turn :=
  match c.pktInGroup with
  | .inGroup => c.nextMember turn.later
  | .pkt => turn.inquiry.pEntry.bind fun i => c.nextClient skipSrc (i + 1)
  | .none => none

/-- The entry of a turn, if it is associated and its port is secured. -/
def target (inquiry : Inquiry) : Option Wcid :=
  inquiry.pEntry.filter fun i => inquiry.sst = .assoc && c.stations.portSecured i

/-- One round of the loop. -/
def round (s : CloneSt) : CloneSt :=
  match s.turn with
  | none => s
  | some turn =>
    match c.target turn.inquiry with
    | none => { s with turn := c.nextTurn false turn }
    | some i =>
      if c.osPktClone s.attempts then
        if turn.inquiry.psMode = .save then
          { s with
            turn := c.nextTurn false turn
            attempts := s.attempts + 1
            clones := s.clones ++ [(i, .parked)] }
        else if c.txSwQMaxLen ≤ s.number then
          { s with
            turn := none
            attempts := s.attempts + 1
            clones := s.clones ++ [(i, .dropped)]
            status := false }
        else
          { s with
            turn := c.nextTurn false turn
            attempts := s.attempts + 1
            number := s.number + 1
            clones := s.clones ++ [(i, .sent)] }
      else { s with turn := c.nextTurn true turn, attempts := s.attempts + 1 }

def start : CloneSt :=
  match c.pktInGroup, c.pGroupEntry with
  | .inGroup, none => ⟨none, 0, c.number, [], false⟩
  | .inGroup, some group => ⟨c.nextMember group.addrs, 0, c.number, [], true⟩
  | .pkt, _ => ⟨c.nextClient true 1, 0, c.number, [], true⟩
  | .none, _ => ⟨none, 0, c.number, [], false⟩

/-- `IgmpPktClone`, cut off after a number of rounds. -/
def igmpPktClone (fuel : ℕ) : Option CloneSt := loop (fun s => s.turn.isSome) c.round fuel c.start

end Code

section Specification

def members : List Addr := (c.pGroupEntry.map MemberList.addrs).getD []

/-- An associated entry whose port is secured. -/
def secured (i : Wcid) : Bool :=
  (c.stations.tab.content i).sst = .assoc && c.stations.portSecured i

/-- The clients that have to get a clone. -/
def required (i : Wcid) : Bool :=
  (c.stations.tab.content i).entryType = .client && c.secured i &&
    match c.pktInGroup with
    | .inGroup => decide (c.stations.addr i ∈ c.members)
    | .pkt => c.getNetdevFromBssid (c.stations.tab.content i).apidx = c.pNetDev &&
        decide (c.stations.addr i ≠ c.srcAddr)
    | .none => false

/-- The function ends, each client that has to get a clone gets one and nobody else does, and the
clone is inserted into the power-save queue exactly if the client is in power save. -/
def Sound : Prop :=
  ∃ fuel s, c.igmpPktClone fuel = some s ∧
    (∀ i, (s.clones.map Prod.fst).count i = if c.required i then 1 else 0) ∧
    ∀ x ∈ s.clones, x.2 = .parked ↔ c.stations.psMode x.1 = .save

/-- The entries whose turn can come, in the order of the turns. -/
def candidates : List Wcid :=
  match c.pktInGroup with
  | .inGroup => c.members.filterMap c.stations.entryOf
  | .pkt => ((List.finRange maxLen).drop 1).filter fun i =>
      c.ofDevice i && decide (c.stations.entryOf (c.stations.addr i) = some i)
  | .none => []

/-- The source of a membership message. -/
def fromSrc (i : Wcid) : Bool := c.pktInGroup = .pkt && decide (c.stations.addr i = c.srcAddr)

def fanout : Fanout Wcid where
  eligible := c.secured
  parks i := c.stations.psMode i = .save
  barred := c.fromSrc
  copies := c.osPktClone
  room := c.txSwQMaxLen

/-- No address in the table leads to a client of the packet's device at another place of the table. -/
def EntriesApart : Prop :=
  c.pktInGroup = .pkt → ∀ i j : Wcid, i ≠ 0 → c.ofDevice j = true →
    c.stations.entryOf (c.stations.addr i) = some j → j = i

/-- The clients that have to get a clone are found by their addresses, their clones can be made and
queued, and no other clone is. The source of a membership message has no turn if it comes first. -/
structure Served : Prop where
  found : ∀ i, c.required i = true → c.stations.entryOf (c.stations.addr i) = some i
  clones : c.fanout.Suffices c.required (c.candidates.dropWhile c.fromSrc) 0 c.number

end Specification

section Table
variable {t : StationTab} {a : Addr} {i j : Wcid}

theorem lookup_addr (h : t.macTableLookup a = some i) : t.addr i = a := by
  obtain ⟨r, hlookup, hfound, -⟩ := t.inv.sound.found a
  rw [StationTab.macTableLookup, hlookup, Option.join_some] at h
  exact (hfound i h).2

theorem entryOf_some (h : t.entryOf a = some i) :
    t.addr i = a ∧ t.apSsPsInquiry a = t.report i := by
  rw [StationTab.entryOf] at h
  rw [StationTab.apSsPsInquiry] at h ⊢
  split_ifs at h ⊢ with hgroup
  cases hlookup : t.macTableLookup a with
  | none => simp only [hlookup, reduceCtorEq] at h
  | some j =>
    simp only [hlookup, StationTab.report, Option.some.injEq] at h
    subst h
    exact ⟨lookup_addr hlookup, rfl⟩

/-- The entry that an address leads to is found by its own address. -/
theorem entryOf_again (h : t.entryOf a = some i) : t.entryOf (t.addr i) = some i := by
  rw [(entryOf_some h).1, h]

end Table

section Loop
variable {c : CloneCall} {inquiry : Inquiry} {i j : Wcid} {l : List Wcid}

/-- The loop ends with these clones. -/
def Ends (c : CloneCall) (s : CloneSt) (clones : List (Wcid × Fate)) : Prop :=
  ∃ n s', loop (fun s => s.turn.isSome) c.round n s = some s' ∧ s'.clones = clones

/-- From a turn on, the loop serves the entries of a list. -/
def Serves (c : CloneCall) (turn : Option Turn) (bar : Bool) (l : List Wcid) : Prop :=
  ∀ s : CloneSt, c.Ends { s with turn := turn } (s.clones ++ c.fanout.serve bar l s.attempts s.number)

theorem ends_round {s : CloneSt} {clones : List (Wcid × Fate)} (hturn : s.turn.isSome = true)
    (h : c.Ends (c.round s) clones) : c.Ends s clones := by
  obtain ⟨n, s', hloop, hclones⟩ := h
  exact ⟨n + 1, s', loop_round hturn hloop, hclones⟩

theorem serves_end (bar : Bool) : c.Serves none bar [] := by
  intro s
  exact ⟨0, _, rfl, (List.append_nil s.clones).symm⟩

theorem target_report : c.target (c.stations.report i) = if c.secured i then some i else none :=
  Option.filter_some

/-- A turn whose member is not in the table. -/
theorem serves_absent (turn : Turn) (habsent : turn.inquiry.pEntry = none)
    (hnext : c.Serves (c.nextTurn false turn) false l) : c.Serves (some turn) false l := by
  intro s
  have htarget : c.target turn.inquiry = none := by
    rw [target, habsent]
    rfl
  apply ends_round rfl
  simp only [round, htarget]
  exact hnext s

/-- The turn of an entry: one case for each way in which the round can end. -/
theorem serves_turn {turn : Turn} {bar : Bool} (hturn : turn.inquiry = c.stations.report i)
    (hbar : (bar && c.fromSrc i) = false)
    (hnext : ∀ skipSrc, c.Serves (c.nextTurn skipSrc turn) skipSrc l) :
    c.Serves (some turn) bar (i :: l) := by
  intro s
  apply ends_round rfl
  have hbarred : (bar && c.fanout.barred i) = false := hbar
  have heligible : c.fanout.eligible i = c.secured i := rfl
  have hcopies : c.fanout.copies s.attempts = c.osPktClone s.attempts := rfl
  have hparks : c.fanout.parks i = decide (c.stations.psMode i = .save) := rfl
  have hroom : c.fanout.room = c.txSwQMaxLen := rfl
  have hps : (c.stations.report i).psMode = c.stations.psMode i := rfl
  simp only [round, hturn, target_report, Fanout.serve, hbarred, heligible, hcopies, hparks, hroom,
    hps, Bool.false_eq_true, if_false]
  cases hsecured : c.secured i with
  | false => exact hnext false s
  | true =>
    cases hcopy : c.osPktClone s.attempts with
    | false => exact hnext true { s with attempts := s.attempts + 1 }
    | true =>
      by_cases hsave : c.stations.psMode i = .save
      · simp only [if_true, hsave, decide_true]
        have hrest := hnext false
          { s with attempts := s.attempts + 1, clones := s.clones ++ [(i, .parked)] }
        rwa [List.append_assoc] at hrest
      · simp only [if_true, hsave, if_false, decide_false, Bool.false_eq_true]
        by_cases hfull : c.txSwQMaxLen ≤ s.number
        · rw [if_pos hfull, if_pos hfull]
          exact ⟨0, _, rfl, rfl⟩
        · rw [if_neg hfull, if_neg hfull]
          have hrest := hnext false ⟨none, s.attempts + 1, s.number + 1, s.clones ++ [(i, .sent)],
            s.status⟩
          rwa [List.append_assoc] at hrest

/-- By induction over the members that are left. -/
theorem serves_members (hmode : c.pktInGroup = .inGroup) (bar : Bool) (l : List Addr) :
    c.Serves (c.nextMember l) bar (l.filterMap c.stations.entryOf) := by
  have hfree : ∀ i, c.fromSrc i = false := by
    intro i
    rw [fromSrc, hmode]
    rfl
  have hnext : ∀ skipSrc turn, c.nextTurn skipSrc turn = c.nextMember turn.later := by
    intro skipSrc turn
    simp only [nextTurn, hmode]
  induction l generalizing bar with
  | nil => exact serves_end bar
  | cons a l ih =>
    rw [nextMember]
    cases hentry : c.stations.entryOf a with
    | none =>
      rw [List.filterMap_cons_none hentry]
      have habsent := serves_absent ⟨l, c.stations.apSsPsInquiry a⟩ hentry
        (by rw [hnext]; exact ih false)
      intro s
      cases bar with
      | false => exact habsent s
      | true =>
        rw [Fanout.serve_eq_of_not_barred fun i _ => hfree i]
        exact habsent s
    | some i =>
      rw [List.filterMap_cons_some hentry]
      apply serves_turn (entryOf_some hentry).2
      · rw [hfree, Bool.and_false]
      · intro skipSrc
        rw [hnext]
        exact ih skipSrc

/-- The clients of the device from a place of the table on that are found by their addresses. -/
def clientsFrom (c : CloneCall) (k : ℕ) : List Wcid :=
  ((List.finRange maxLen).drop k).filter fun i =>
    c.ofDevice i && decide (c.stations.entryOf (c.stations.addr i) = some i)

theorem serves_barred {turn : Option Turn} (hsrc : c.fromSrc i = true) (h : c.Serves turn true l) :
    c.Serves turn true (i :: l) := by
  intro s
  have hbarred : c.fanout.barred i = true := hsrc
  simp only [Fanout.serve, hbarred, Bool.and_self, if_true]
  exact h s

/-- By induction over the entries that are left; `EntriesApart` is what makes the next loop begin
behind the entry of the turn. -/
theorem serves_clients (h : c.EntriesApart) (hmode : c.pktInGroup = .pkt) (n : ℕ) :
    ∀ k, maxLen - k = n → 1 ≤ k → ∀ bar, c.Serves (c.nextClient bar k) bar (c.clientsFrom k) := by
  induction n with
  | zero =>
    intro k hk _ bar
    have hnil : (List.finRange maxLen).drop k = [] := by
      apply List.drop_eq_nil_of_le
      rw [List.length_finRange]
      exact Nat.le_of_sub_eq_zero hk
    rw [nextClient, clientsFrom, hnil]
    exact serves_end bar
  | succ n ih =>
    intro k hk hpos bar
    have hlt : k < maxLen := by
      by_contra hge
      rw [Nat.sub_eq_zero_of_le (Nat.not_lt.mp hge)] at hk
      exact Nat.succ_ne_zero n hk.symm
    have hdrop : (List.finRange maxLen).drop k =
        (⟨k, hlt⟩ : Wcid) :: (List.finRange maxLen).drop (k + 1) := by
      rw [List.drop_eq_getElem_cons (by rwa [List.length_finRange]), List.getElem_finRange]
      rfl
    have ih := ih (k + 1) (by omega) (Nat.le_add_left 1 k)
    have hne : (⟨k, hlt⟩ : Wcid) ≠ 0 := fun heq => Nat.ne_of_gt hpos (congrArg Fin.val heq)
    have hapart := fun j => h hmode ⟨k, hlt⟩ j hne
    generalize hi : (⟨k, hlt⟩ : Wcid) = i at hdrop hapart
    have hval : (i : ℕ) = k := by rw [← hi]
    have hfrom : c.clientsFrom k =
        if c.ofDevice i && decide (c.stations.entryOf (c.stations.addr i) = some i) then
          i :: c.clientsFrom (k + 1) else c.clientsFrom (k + 1) := by
      rw [clientsFrom, hdrop, List.filter_cons]
      rfl
    have hclient : c.nextClient bar k =
        if c.accepts bar (c.stations.apSsPsInquiry (c.stations.addr i)) then
          some ⟨[], c.stations.apSsPsInquiry (c.stations.addr i)⟩
        else c.nextClient bar (k + 1) := by
      cases haccepts : c.accepts bar (c.stations.apSsPsInquiry (c.stations.addr i)) with
      | false =>
        rw [nextClient, hdrop, List.findSome?_cons]
        simp only [haccepts, Bool.false_eq_true, if_false]
        rfl
      | true =>
        rw [nextClient, hdrop, List.findSome?_cons]
        simp only [haccepts, if_true]
    have haccepts : c.accepts bar (c.stations.apSsPsInquiry (c.stations.addr i)) =
        (c.stations.entryOf (c.stations.addr i)).any fun j =>
          c.ofDevice j && !(bar && decide (c.stations.addr j = c.srcAddr)) := rfl
    rw [hfrom, hclient, haccepts]
    cases hentry : c.stations.entryOf (c.stations.addr i) with
    | none =>
      simp only [Option.any_none, reduceCtorEq, decide_false, Bool.and_false, Bool.false_eq_true,
        if_false]
      exact ih bar
    | some j =>
      cases hdevice : c.ofDevice j with
      | false =>
        have hnot : (c.ofDevice i && decide (some j = some i)) = false := by
          by_cases hji : j = i
          · rw [← hji, hdevice, Bool.false_and]
          · rw [decide_eq_false (fun heq => hji (Option.some.inj heq)), Bool.and_false]
        simp only [Option.any_some, hdevice, Bool.false_and, hnot, Bool.false_eq_true, if_false]
        exact ih bar
      | true =>
        obtain rfl := hapart j hdevice hentry
        have hsrc : decide (c.stations.addr j = c.srcAddr) = c.fromSrc j := by
          rw [fromSrc, hmode]
          rfl
        simp only [Option.any_some, hdevice, decide_true, Bool.true_and, if_true, hsrc]
        cases hbar : bar && c.fromSrc j with
        | true =>
          obtain ⟨rfl, hsrc⟩ := (Bool.and_eq_true _ _).mp hbar
          exact serves_barred hsrc (ih true)
        | false =>
          refine serves_turn (entryOf_some hentry).2 hbar fun skipSrc => ?_
          have hturn : c.nextTurn skipSrc ⟨[], c.stations.apSsPsInquiry (c.stations.addr j)⟩ =
              c.nextClient skipSrc (k + 1) := by
            rw [← hval]
            simp only [nextTurn, hmode]
            rw [(entryOf_some hentry).2]
            rfl
          rw [hturn]
          exact ih skipSrc

/-- The function ends, and it serves the candidates from the first that is not the source on. -/
theorem igmpPktClone_ends (h : c.EntriesApart) :
    ∃ fuel s, c.igmpPktClone fuel = some s ∧
      s.clones = c.fanout.serve false (c.candidates.dropWhile c.fromSrc) 0 c.number := by
  have hserve := Fanout.serve_barred (f := c.fanout) (l := c.candidates) 0 c.number
  have hbarred : c.fanout.barred = c.fromSrc := rfl
  rw [hbarred] at hserve
  rw [← hserve]
  cases hmode : c.pktInGroup with
  | none =>
    have hstart : c.start = ⟨none, 0, c.number, [], false⟩ := by rw [start, hmode]
    have hnil : c.candidates = [] := by rw [candidates, hmode]
    refine ⟨0, c.start, by rw [igmpPktClone, hstart]; rfl, ?_⟩
    rw [hstart, hnil]
    rfl
  | pkt =>
    have hstart : c.start = ⟨c.nextClient true 1, 0, c.number, [], true⟩ := by rw [start, hmode]
    have hcandidates : c.candidates = c.clientsFrom 1 := by
      simp only [candidates, hmode]
      rfl
    obtain ⟨n, s, hloop, hclones⟩ :=
      serves_clients h hmode _ 1 rfl (Nat.le_refl 1) true ⟨none, 0, c.number, [], true⟩
    refine ⟨n, s, ?_, ?_⟩
    · rw [igmpPktClone, hstart]
      exact hloop
    · rw [hclones, hcandidates]
      rfl
  | inGroup =>
    cases hgroup : c.pGroupEntry with
    | none =>
      have hstart : c.start = ⟨none, 0, c.number, [], false⟩ := by rw [start, hmode, hgroup]
      have hnil : c.candidates = [] := by
        simp only [candidates, hmode, members, hgroup]
        rfl
      refine ⟨0, c.start, by rw [igmpPktClone, hstart]; rfl, ?_⟩
      rw [hstart, hnil]
      rfl
    | some group =>
      have hstart : c.start = ⟨c.nextMember group.addrs, 0, c.number, [], true⟩ := by
        rw [start, hmode, hgroup]
      have hcandidates : c.candidates = group.addrs.filterMap c.stations.entryOf := by
        simp only [candidates, hmode, members, hgroup]
        rfl
      obtain ⟨n, s, hloop, hclones⟩ :=
        serves_members hmode true group.addrs ⟨none, 0, c.number, [], true⟩
      refine ⟨n, s, ?_, ?_⟩
      · rw [igmpPktClone, hstart]
        exact hloop
      · rw [hclones, hcandidates]
        rfl

end Loop

section Candidates
variable {c : CloneCall} {i : Wcid}

theorem candidates_found (h : i ∈ c.candidates) : c.stations.entryOf (c.stations.addr i) = some i := by
  rw [candidates] at h
  cases hmode : c.pktInGroup with
  | none => simp only [hmode, List.not_mem_nil] at h
  | pkt =>
    simp only [hmode, List.mem_filter, Bool.and_eq_true, decide_eq_true_eq] at h
    exact h.2.2
  | inGroup =>
    simp only [hmode, List.mem_filterMap] at h
    obtain ⟨a, -, ha⟩ := h
    exact entryOf_again ha

theorem candidates_nodup : c.candidates.Nodup := by
  rw [candidates]
  cases hmode : c.pktInGroup with
  | none => exact List.nodup_nil
  | pkt => exact ((List.nodup_finRange maxLen).sublist (List.drop_sublist 1 _)).filter _
  | inGroup =>
    have hmembers : c.members.Nodup := by
      rw [members]
      cases c.pGroupEntry with
      | none => exact List.nodup_nil
      | some group => exact group.nodup
    apply hmembers.filterMap
    intro a a' i ha ha'
    exact (entryOf_some ha).1.symm.trans (entryOf_some ha').1

theorem required_secured (h : c.required i = true) : c.secured i = true := by
  rw [required, Bool.and_eq_true, Bool.and_eq_true] at h
  exact h.1.2

/-- A client that has to get a clone has a turn if its address leads to it. -/
theorem required_mem (h : c.required i = true)
    (hfound : c.stations.entryOf (c.stations.addr i) = some i) :
    i ∈ c.candidates.dropWhile c.fromSrc := by
  have hcandidate : i ∈ c.candidates ∧ c.fromSrc i = false := by
    rw [required, Bool.and_eq_true, Bool.and_eq_true, decide_eq_true_eq] at h
    obtain ⟨⟨hclient, -⟩, hwanted⟩ := h
    rw [candidates, fromSrc]
    cases hmode : c.pktInGroup with
    | none => simp only [hmode, Bool.false_eq_true] at hwanted
    | pkt =>
      simp only [hmode, Bool.and_eq_true, decide_eq_true_eq] at hwanted
      obtain ⟨hdevice, hsrc⟩ := hwanted
      have hne : i ≠ 0 := by
        rintro rfl
        apply c.stations.inv.first
        rw [MacTab.live, hclient]
        rintro ⟨⟩
      have hmem : ∀ i : Wcid, i ≠ 0 → i ∈ (List.finRange maxLen).drop 1 := by decide
      have hmem := hmem i hne
      simp only [List.mem_filter, hmem, ofDevice, hclient, hdevice, hfound, hsrc, decide_true,
        Bool.and_self, decide_false, Bool.and_false, and_self]
    | inGroup =>
      simp only [hmode, decide_eq_true_eq] at hwanted
      exact ⟨List.mem_filterMap.mpr ⟨_, hwanted, hfound⟩, rfl⟩
  obtain ⟨hmem, hsrc⟩ := hcandidate
  rw [← List.takeWhile_append_dropWhile (p := c.fromSrc) (l := c.candidates), List.mem_append] at hmem
  rcases hmem with hmem | hmem
  · exact absurd (List.mem_takeWhile_imp hmem) (Bool.eq_false_iff.mp hsrc)
  · exact hmem

/-- Of the entries that have a turn and may get a clone, only the source of a membership message may
not have to get one; nobody else has its address. -/
theorem barred_apart : (c.candidates.dropWhile c.fromSrc).Pairwise fun i j =>
    c.secured i = true → c.required i = false → c.fromSrc j = false := by
  have hsub := List.dropWhile_sublist (l := c.candidates) c.fromSrc
  apply (candidates_nodup.sublist hsub).imp_of_mem
  intro i j hi hj hne hsecured hrequired
  rw [Bool.eq_false_iff]
  intro hsrc
  have hi := hsub.subset hi
  rw [fromSrc, Bool.and_eq_true, decide_eq_true_eq, decide_eq_true_eq] at hsrc
  obtain ⟨hmode, hsrc⟩ := hsrc
  have haddr : c.stations.addr i = c.srcAddr := by
    rw [candidates] at hi
    simp only [hmode, List.mem_filter, ofDevice, Bool.and_eq_true, decide_eq_true_eq] at hi
    obtain ⟨-, ⟨hclient, hdevice⟩, -⟩ := hi
    simpa only [required, hmode, hclient, hsecured, hdevice, decide_true, Bool.true_and, ne_eq,
      decide_eq_false_iff_not, not_not] using hrequired
  have hfound := candidates_found hi
  rw [haddr, ← hsrc, candidates_found (hsub.subset hj)] at hfound
  exact hne (Option.some.inj hfound).symm

/-- The clones are the ones that have to be there exactly if the table leads to each client that has
to get one and the clones can be made and queued. -/
theorem igmpPktClone_sound_iff (c : CloneCall) (h : c.EntriesApart) : c.Sound ↔ c.Served := by
  obtain ⟨fuel, s, hloop, hclones⟩ := igmpPktClone_ends h
  have hsublist := Fanout.serve_sublist (f := c.fanout) (l := c.candidates.dropWhile c.fromSrc)
    false 0 c.number
  have hnodup := candidates_nodup.sublist (List.dropWhile_sublist (l := c.candidates) c.fromSrc)
  have hcounts := eq_filter_iff_count hsublist hnodup c.required
  rw [← hclones] at hsublist hcounts
  have hserve := Fanout.serve_eq_filter_iff (f := c.fanout) (a := 0) (q := c.number) hnodup
    (fun i _ => required_secured) barred_apart
  rw [← hclones] at hserve
  constructor
  · rintro ⟨fuel', s', hloop', hcount, -⟩
    obtain rfl := loop_unique hloop hloop'
    constructor
    · intro i hi
      have hone := hcount i
      rw [if_pos hi] at hone
      have hmem : i ∈ s.clones.map Prod.fst := List.count_pos_iff.mp (hone ▸ Nat.one_pos)
      exact candidates_found ((List.dropWhile_sublist _).subset (hsublist.subset hmem))
    · exact hserve.mp (hcounts.mpr fun i _ => hcount i)
  · rintro ⟨hfound, hsuffices⟩
    refine ⟨fuel, s, hloop, fun i => ?_, ?_⟩
    · by_cases hmem : i ∈ c.candidates.dropWhile c.fromSrc
      · exact hcounts.mp (hserve.mpr hsuffices) i hmem
      · rw [if_neg (fun hi => hmem (required_mem hi (hfound i hi)))]
        exact List.count_eq_zero_of_not_mem fun hi => hmem (hsublist.subset hi)
    · intro x hx
      rw [hclones] at hx
      exact (Fanout.serve_parked false 0 c.number x hx).trans decide_eq_true_iff

/-- An entry that the loops lead back to, and whose clones do not go through the queue, keeps its turn
for ever. By induction over the rounds. -/
theorem igmpPktClone_never_ends {i : Wcid} (hmode : c.pktInGroup = .pkt)
    (hfirst : c.nextClient true 1 = some ⟨[], c.stations.report i⟩)
    (hnext : ∀ skipSrc, c.nextClient skipSrc (i + 1) = some ⟨[], c.stations.report i⟩)
    (hsave : c.stations.psMode i = .save) (fuel : ℕ) : c.igmpPktClone fuel = none := by
  have hkeeps : ∀ s : CloneSt, s.turn = some ⟨[], c.stations.report i⟩ →
      (c.round s).turn = some ⟨[], c.stations.report i⟩ := by
    intro s hs
    have hturn : ∀ skipSrc, c.nextTurn skipSrc ⟨[], c.stations.report i⟩ =
        some ⟨[], c.stations.report i⟩ := by
      intro skipSrc
      rw [← hnext skipSrc]
      simp only [nextTurn, hmode]
      rfl
    have hparks : (c.stations.report i).psMode = .save := hsave
    simp only [round, hs, target_report]
    cases c.secured i with
    | false => exact hturn false
    | true =>
      simp only [if_true, hparks]
      split_ifs
      · exact hturn false
      · exact hturn true
  have hloop : ∀ s : CloneSt, s.turn = some ⟨[], c.stations.report i⟩ →
      loop (fun s => s.turn.isSome) c.round fuel s = none := by
    induction fuel with
    | zero =>
      intro s hs
      simp only [loop, hs, Option.isSome_some, if_true]
    | succ fuel ih =>
      intro s hs
      simp only [loop, hs, Option.isSome_some, if_true]
      exact ih _ (hkeeps s hs)
  apply hloop
  rw [start, hmode]
  exact hfirst

end Candidates

/-- The stations of an access point after some calls. -/
def stationsAfter (calls : List (OpMode × Call)) (psMode : Wcid → PsMode)
    (portSecured : Wcid → Bool) : StationTab where
  tab := (calls.foldlM (MacTab.step ⟨1, 8, by decide, by decide⟩) MacTab.init).getD MacTab.init
  inv := by
    obtain ⟨s, heq, hinv, -⟩ := MacTab.steps_spec ⟨1, 8, by decide, by decide⟩ calls init_inv
    rw [heq]
    exact hinv
  psMode := psMode
  portSecured := portSecured

/-- Two associated clients, and a report of the group 224.0.0.22 that ends in the given byte of the
source address. -/
def reportFrom (last : UInt8) : CloneCall where
  stations := stationsAfter [(.ap, .insert (localAddr 1) 0 true),
    (.ap, .insert (localAddr 2) 0 true), (.ap, .setSst 1 .assoc), (.ap, .setSst 2 .assoc)]
    (fun _ => .active) (fun _ => true)
  getNetdevFromBssid _ := some 0
  pktInGroup := .pkt
  pGroupEntry := none
  pPacket n := [0x01, 0, 0x5E, 0, 0, 0x16, 2, 0, 0, 0, 0, last].getD n 0
  pNetDev := some 0
  osPktClone _ := true
  number := 0
  txSwQMaxLen := 256

/-- From a station that is no client of the device both clients get their clone. -/
theorem reportFrom_outside_sound : (reportFrom 3).Sound := by
  apply (igmpPktClone_sound_iff (reportFrom 3) (fun _ => by decide +kernel)).mpr
  have hall : ∀ i ∈ (reportFrom 3).candidates.dropWhile (reportFrom 3).fromSrc,
      (reportFrom 3).required i = true := by decide +kernel
  refine ⟨by decide +kernel, fun _ _ _ _ => rfl, by decide +kernel, ?_⟩
  intro n i hi hnot
  exact absurd (hall i (List.mem_filter.mp (List.mem_of_getElem? hi)).1) hnot

/-- The second client gets a clone of its own report. -/
theorem reportFrom_second_unsound : ¬(reportFrom 2).Sound := by
  rintro ⟨fuel, s, hloop, hcount, -⟩
  have hclones : ((reportFrom 2).igmpPktClone 4).map CloneSt.clones =
      some [(1, .sent), (2, .sent)] := by decide +kernel
  obtain ⟨s', hloop', hs'⟩ := Option.map_eq_some_iff.mp hclones
  obtain rfl := loop_unique hloop hloop'
  have htwo := hcount 2
  rw [hs'] at htwo
  have hnot : (reportFrom 2).required 2 = false := by decide +kernel
  rw [hnot] at htwo
  exact absurd htwo (by decide)
end CloneCall
end Rt5572

import StandaloneDrivers.Foundations.Keyed
import StandaloneDrivers.Rt5572.BssTable

/-! The scan table over every run: what it lists is what was set and not deleted or overwritten
since, and every entry keeps its buffer until a full table is overwritten. -/
namespace Rt5572.BssTab
open Foundations

/-- A network is an address in one of the two bands. -/
def network (bssid : Addr) (channel : UInt8) : Addr × Bool := (bssid, lowBand channel)

/-- What happens to networks. -/
inductive BssEvent
  | cleared
  | set (bssid : Addr) (channel : UInt8)
  | deleted (bssid : Addr) (channel : UInt8)
  | overwritten (bssid : Addr) (channel : UInt8)
  deriving DecidableEq, Repr

def BssEvent.apply (known : Addr × Bool → Option UInt8) : BssEvent → Addr × Bool → Option UInt8
  | .cleared => fun _ => none
  | .set bssid channel => Function.update known (network bssid channel) (some channel)
  | .deleted bssid channel =>
    if known (network bssid channel) = some channel then
      Function.update known (network bssid channel) none
    else known
  | .overwritten bssid channel => Function.update known (network bssid channel) none

/-- The channel on which each network was set last, unless it was deleted or overwritten since. -/
def listed (log : List BssEvent) : Addr × Bool → Option UInt8 :=
  log.foldl BssEvent.apply fun _ => none

/-- What a call does: another network may stand in the entry that is returned. -/
def events (s : BssTab) : Call → List BssEvent
  | .init => [.cleared]
  | .delete bssid channel => [.deleted bssid channel]
  | .set pAd bssid channel a =>
    match (s.bssTableSetEntry pAd bssid channel a).2 with
    | none => []
    | some i =>
      if i < s.bssNr ∧
          network (s.bssEntry i).bssid (s.bssEntry i).channel ≠ network bssid channel then
        [.overwritten (s.bssEntry i).bssid (s.bssEntry i).channel, .set bssid channel]
      else [.set bssid channel]

/-- A table with what has happened. -/
structure Logged where
  table : BssTab
  log : List BssEvent

def Logged.step (x : Logged) (call : Call) : Logged where
  table := x.table.step call
  log := x.log ++ x.table.events call

/-- The network of an entry. -/
def net (s : BssTab) (i : ℕ) : Addr × Bool :=
  network (s.bssEntry i).bssid (s.bssEntry i).channel

/-- The buffer of an entry. -/
def buffer (s : BssTab) (i : ℕ) : Option Buffer := (s.bssEntry i).pVarIeFromProbRsp

theorem search_some {s : BssTab} {bssid : Addr} {channel : UInt8} {i : ℕ}
    (h : s.bssTableSearch bssid channel = some i) :
    i < s.bssNr ∧ s.net i = network bssid channel := by
  have hmem := List.mem_of_find?_eq_some h
  have hp := List.find?_some h
  simp only [Bool.and_eq_true, decide_eq_true_eq] at hp
  constructor
  · exact List.mem_range.mp hmem
  · rw [net, network, network, hp.1, hp.2]

theorem search_none {s : BssTab} {bssid : Addr} {channel : UInt8}
    (h : s.bssTableSearch bssid channel = none) {i : ℕ} (hi : i < s.bssNr) :
    s.net i ≠ network bssid channel := by
  intro heq
  have hnot := List.find?_eq_none.mp h i (List.mem_range.mpr hi)
  have hpair := Prod.mk.inj heq
  rw [hpair.1, hpair.2] at hnot
  simp at hnot

theorem listed_append (log log' : List BssEvent) :
    listed (log ++ log') = log'.foldl BssEvent.apply (listed log) := List.foldl_append

/-- The channel of an entry. -/
def chan (s : BssTab) (i : ℕ) : UInt8 := (s.bssEntry i).channel

/-- The invariant of the lists. -/
structure Listing (x : Logged) : Prop where
  nr : x.table.bssNr ≤ maxLen
  overlap : x.table.bssOverlapNr < maxLen
  keyed : Keyed (listed x.log) x.table.bssNr x.table.net x.table.chan

theorem setEntry_self (s : BssTab) (i : ℕ) (e : BssEntry) : (s.setEntry i e).bssEntry i = e :=
  Function.update_self _ _ _

theorem setEntry_other (s : BssTab) (e : BssEntry) {i j : ℕ} (hj : j ≠ i) :
    (s.setEntry i e).bssEntry j = s.bssEntry j := Function.update_of_ne hj _ _

theorem setEntry_net (s : BssTab) (i : ℕ) (e : BssEntry) :
    (s.setEntry i e).net = Function.update s.net i (network e.bssid e.channel) := by
  funext j
  by_cases hj : j = i
  · rw [hj, Function.update_self, net, setEntry_self]
  · rw [Function.update_of_ne hj, net, net, setEntry_other s e hj]

theorem setEntry_chan (s : BssTab) (i : ℕ) (e : BssEntry) :
    (s.setEntry i e).chan = Function.update s.chan i e.channel := by
  funext j
  by_cases hj : j = i
  · rw [hj, Function.update_self, chan, setEntry_self]
  · rw [Function.update_of_ne hj, chan, chan, setEntry_other s e hj]

theorem Listing.set {x : Logged} (h : Listing x) (pAd : Desired) (bssid : Addr) (channel : UInt8)
    (a : BssInfo) : Listing (x.step (.set pAd bssid channel a)) := by
  simp only [Logged.step, step, events]
  unfold bssTableSetEntry
  cases hsearch : x.table.bssTableSearch bssid channel with
  | some i =>
    obtain ⟨hi, hnet⟩ := search_some hsearch
    have hold : network (x.table.bssEntry i).bssid (x.table.bssEntry i).channel =
        network bssid channel := hnet
    simp only [hold, ne_eq, not_true_eq_false, and_false, if_false]
    refine ⟨h.nr, h.overlap, ?_⟩
    rw [listed_append, setEntry_net, setEntry_chan]
    have hset := h.keyed.set (k := network bssid channel) hi (by
      intro j hj hji heq
      exact hji (h.keyed.unique j i hj hi (heq.trans hnet.symm))) channel
    rw [hnet, Function.update_idem] at hset
    exact hset
  | none =>
    have hfresh : ∀ i < x.table.bssNr, x.table.net i ≠ network bssid channel := by
      intro i hi
      exact search_none hsearch hi
    simp only
    split
    · next hfull =>
      split
      · split
        · have hi : x.table.bssOverlapNr < x.table.bssNr := Nat.lt_of_lt_of_le h.overlap hfull
          have hold : network (x.table.bssEntry x.table.bssOverlapNr).bssid
              (x.table.bssEntry x.table.bssOverlapNr).channel ≠ network bssid channel :=
            hfresh _ hi
          simp only [hi, hold, ne_eq, not_false_eq_true, and_true, if_true]
          refine ⟨h.nr, Nat.mod_lt _ (by decide), ?_⟩
          rw [listed_append]
          show Keyed _ _ (setEntry _ _ _).net (setEntry _ _ _).chan
          rw [setEntry_net, setEntry_chan]
          exact h.keyed.set hi (fun j hj _ => hfresh j hj) channel
        · simp only [List.append_nil]
          exact h
      · simp only [List.append_nil]
        exact h
    · next hfull =>
      have hlt : x.table.bssNr < maxLen := Nat.lt_of_not_le hfull
      simp only [Nat.lt_irrefl, false_and, if_false]
      refine ⟨hlt, h.overlap, ?_⟩
      rw [listed_append]
      show Keyed _ _ (setEntry _ _ _).net (setEntry _ _ _).chan
      rw [setEntry_net, setEntry_chan]
      exact h.keyed.append hfresh channel

/-- A change of what the buffers hold changes nothing else. -/
theorem moveVarIe_entry (s : BssTab) (p : Buffer) (src : Option Buffer) (len : ℕ) :
    (s.moveVarIe p src len).bssEntry = s.bssEntry ∧
      (s.moveVarIe p src len).bssNr = s.bssNr ∧
      (s.moveVarIe p src len).bssOverlapNr = s.bssOverlapNr := by
  cases src with
  | none => exact ⟨rfl, rfl, rfl⟩
  | some q => exact ⟨rfl, rfl, rfl⟩

theorem clearEntry_spec (s : BssTab) (i : ℕ) (rssi : ℤ) :
    (s.clearEntry i rssi).bssEntry = Function.update s.bssEntry i { BssEntry.zero with
      rssi := rssi
      pVarIeFromProbRsp := s.buffer i } ∧
    (s.clearEntry i rssi).bssNr = s.bssNr ∧
    (s.clearEntry i rssi).bssOverlapNr = s.bssOverlapNr := by
  simp only [clearEntry]
  split
  · exact ⟨rfl, rfl, rfl⟩
  · exact ⟨rfl, rfl, rfl⟩

/-- What entry `j` has after the shift, up to what is in the buffers. -/
theorem shiftEntry_spec (s : BssTab) (j : ℕ) :
    (s.shiftEntry j).bssEntry = Function.update s.bssEntry j { s.bssEntry (j + 1) with
      pVarIeFromProbRsp := (s.buffer j).or (s.buffer (j + 1)) } ∧
    (s.shiftEntry j).bssNr = s.bssNr ∧ (s.shiftEntry j).bssOverlapNr = s.bssOverlapNr := by
  simp only [shiftEntry, buffer]
  split
  · next hp =>
    rw [hp]
    exact ⟨rfl, rfl, rfl⟩
  · next p hp =>
    rw [hp]
    obtain ⟨hentry, hnr, hoverlap⟩ := (s.zeroVarIe p).moveVarIe_entry p
      (s.bssEntry (j + 1)).pVarIeFromProbRsp (s.bssEntry (j + 1)).varIeFromProbeRspLen
    refine ⟨?_, hnr, hoverlap⟩
    simp only [setEntry, hentry]
    rfl

/-- The entries after the loop of `BssTableDeleteEntry`. -/
theorem shiftEntries_spec (i k : ℕ) (s : BssTab) :
    ((List.range' i k).foldl shiftEntry s).bssNr = s.bssNr ∧
      ((List.range' i k).foldl shiftEntry s).bssOverlapNr = s.bssOverlapNr ∧
      ∀ j, ((List.range' i k).foldl shiftEntry s).net j =
          s.net (if i ≤ j ∧ j < i + k then j + 1 else j) ∧
        ((List.range' i k).foldl shiftEntry s).chan j =
          s.chan (if i ≤ j ∧ j < i + k then j + 1 else j) := by
  induction k generalizing i s with
  | zero =>
    refine ⟨rfl, rfl, ?_⟩
    intro j
    rw [if_neg (by omega)]
    exact ⟨rfl, rfl⟩
  | succ k ih =>
    obtain ⟨hentry, hnr, hoverlap⟩ := s.shiftEntry_spec i
    obtain ⟨hnr', hoverlap', hentries⟩ := ih (i + 1) (s.shiftEntry i)
    rw [List.range'_succ, List.foldl_cons]
    refine ⟨hnr'.trans hnr, hoverlap'.trans hoverlap, ?_⟩
    have hself : ∀ j, (s.shiftEntry i).net j = s.net (if j = i then i + 1 else j) ∧
        (s.shiftEntry i).chan j = s.chan (if j = i then i + 1 else j) := by
      intro j
      rw [net, chan, hentry]
      by_cases hj : j = i
      · rw [hj, Function.update_self, if_pos rfl]
        exact ⟨rfl, rfl⟩
      · rw [Function.update_of_ne hj, if_neg hj]
        exact ⟨rfl, rfl⟩
    intro j
    obtain ⟨hnet, hchan⟩ := hentries j
    have hindex : (if (if i + 1 ≤ j ∧ j < i + 1 + k then j + 1 else j) = i then i + 1
        else if i + 1 ≤ j ∧ j < i + 1 + k then j + 1 else j) =
        if i ≤ j ∧ j < i + (k + 1) then j + 1 else j := by
      split_ifs <;> omega
    constructor
    · rw [hnet, (hself _).1, hindex]
    · rw [hchan, (hself _).2, hindex]

theorem exact_some {s : BssTab} {bssid : Addr} {channel : UInt8} {i : ℕ}
    (h : ((List.range s.bssNr).find? fun i =>
      (s.bssEntry i).channel = channel && (s.bssEntry i).bssid = bssid) = some i) :
    i < s.bssNr ∧ s.net i = network bssid channel ∧ s.chan i = channel := by
  have hmem := List.mem_of_find?_eq_some h
  have hp := List.find?_some h
  simp only [Bool.and_eq_true, decide_eq_true_eq] at hp
  refine ⟨List.mem_range.mp hmem, ?_, hp.1⟩
  rw [net, hp.1, hp.2]

theorem Listing.delete {x : Logged} (h : Listing x) (bssid : Addr) (channel : UInt8) :
    Listing (x.step (.delete bssid channel)) := by
  simp only [Logged.step, step, events]
  unfold bssTableDeleteEntry
  split
  · next hfind =>
    have hknown : ¬ listed x.log (network bssid channel) = some channel := by
      rw [h.keyed.agrees]
      rintro ⟨i, hi, hnet, hchan⟩
      have hnot := List.find?_eq_none.mp hfind i (List.mem_range.mpr hi)
      have hbssid : (x.table.bssEntry i).bssid = bssid := (Prod.mk.inj hnet).1
      have hchannel : (x.table.bssEntry i).channel = channel := hchan
      simp [hbssid, hchannel] at hnot
    refine ⟨h.nr, h.overlap, ?_⟩
    rw [listed_append]
    show Keyed (if _ then _ else _) _ _ _
    rw [if_neg hknown]
    exact h.keyed
  · next i hfind =>
    obtain ⟨hi, hnet, hchan⟩ := exact_some hfind
    have hknown : listed x.log (network bssid channel) = some channel := by
      rw [← hnet, h.keyed.known_some hi, hchan]
    obtain ⟨hnr, hoverlap, hentries⟩ := shiftEntries_spec i (x.table.bssNr - 1 - i) x.table
    obtain ⟨hentry, hnr', hoverlap'⟩ :=
      ((List.range' i (x.table.bssNr - 1 - i)).foldl shiftEntry x.table).clearEntry_spec
        (x.table.bssNr - 1) 0
    simp only [hnr, hnr']
    have hle := h.nr
    refine ⟨?_, ?_, ?_⟩
    · show x.table.bssNr - 1 ≤ maxLen
      omega
    · show BssTab.bssOverlapNr _ < maxLen
      rw [hoverlap', hoverlap]
      exact h.overlap
    · rw [listed_append]
      show Keyed (if _ then _ else _) (x.table.bssNr - 1) _ _
      rw [if_pos hknown, ← hnet]
      have hsucc : x.table.bssNr = x.table.bssNr - 1 + 1 := by omega
      have hkeyed := h.keyed
      rw [hsucc] at hkeyed
      apply (hkeyed.erase (Nat.le_sub_one_of_lt hi)).congr
      · intro j hj
        have hne : j ≠ x.table.bssNr - 1 := by omega
        show network (BssEntry.bssid (BssTab.bssEntry _ j))
          (BssEntry.channel (BssTab.bssEntry _ j)) = _
        rw [hentry, Function.update_of_ne hne]
        have hindex : (if i ≤ j ∧ j < i + (x.table.bssNr - 1 - i) then j + 1 else j) =
            if j < i then j else j + 1 := by
          split_ifs <;> omega
        rw [← hindex]
        exact (hentries j).1
      · intro j hj
        have hne : j ≠ x.table.bssNr - 1 := by omega
        show BssEntry.channel (BssTab.bssEntry _ j) = _
        rw [hentry, Function.update_of_ne hne]
        have hindex : (if i ≤ j ∧ j < i + (x.table.bssNr - 1 - i) then j + 1 else j) =
            if j < i then j else j + 1 := by
          split_ifs <;> omega
        rw [← hindex]
        exact (hentries j).2

theorem clearEntries_spec (l : List ℕ) (rssi : ℤ) (s : BssTab) :
    (l.foldl (fun s i => s.clearEntry i rssi) s).bssNr = s.bssNr ∧
      (l.foldl (fun s i => s.clearEntry i rssi) s).bssOverlapNr = s.bssOverlapNr ∧
      ∀ j, (l.foldl (fun s i => s.clearEntry i rssi) s).buffer j = s.buffer j := by
  induction l generalizing s with
  | nil => exact ⟨rfl, rfl, fun _ => rfl⟩
  | cons i l ih =>
    obtain ⟨hentry, hnr, hoverlap⟩ := s.clearEntry_spec i rssi
    obtain ⟨hnr', hoverlap', hbuffer⟩ := ih (s.clearEntry i rssi)
    refine ⟨hnr'.trans hnr, hoverlap'.trans hoverlap, ?_⟩
    intro j
    rw [List.foldl_cons, hbuffer, buffer, hentry]
    by_cases hj : j = i
    · rw [hj, Function.update_self]
    · rw [Function.update_of_ne hj]
      rfl

theorem Listing.init (x : Logged) : Listing (x.step .init) := by
  simp only [Logged.step, step, events, bssTableInit]
  obtain ⟨hnr, hoverlap, -⟩ := clearEntries_spec (List.range maxLen) (-127) { x.table with
    bssNr := 0
    bssOverlapNr := 0 }
  refine ⟨?_, ?_, ?_⟩
  · rw [hnr]
    exact Nat.zero_le _
  · rw [hoverlap]
    exact Nat.zero_lt_succ _
  · rw [listed_append, hnr]
    exact Keyed.empty _ _

theorem Listing.step {x : Logged} (h : Listing x) (call : Call) : Listing (x.step call) := by
  cases call with
  | init => exact Listing.init x
  | set pAd bssid channel a => exact h.set pAd bssid channel a
  | delete bssid channel => exact h.delete bssid channel

/-- When every entry keeps its buffer: the entry that is overwritten in a full table has none, and
no entry without one is filled from an entry that has one. -/
def KeepsBuffers (s : BssTab) : Call → Prop
  | .init => True
  | .set pAd bssid channel a => s.bssTableSearch bssid channel = none → maxLen ≤ s.bssNr →
      (pAd.mediaStateConnected = false ∨ pAd.apMediaStateConnected = false) →
      pAd.wants bssid a.ssid = true → s.buffer s.bssOverlapNr = none
  | .delete bssid channel => ∀ i < s.bssNr, s.net i = network bssid channel → s.chan i = channel →
      ∀ j, i ≤ j → j + 1 < s.bssNr → s.buffer j = none → s.buffer (j + 1) = none

theorem setEntry_buffer (s : BssTab) {i : ℕ} {e : BssEntry}
    (he : e.pVarIeFromProbRsp = s.buffer i) (j : ℕ) : (s.setEntry i e).buffer j = s.buffer j := by
  by_cases hj : j = i
  · rw [hj, ← he, buffer, setEntry_self]
  · rw [buffer, buffer, setEntry_other s e hj]

theorem set_buffer {s : BssTab} {pAd : Desired} {bssid : Addr} {channel : UInt8} {a : BssInfo}
    (hok : s.KeepsBuffers (.set pAd bssid channel a)) (j : ℕ) :
    (s.bssTableSetEntry pAd bssid channel a).1.buffer j = s.buffer j := by
  unfold bssTableSetEntry
  cases hsearch : s.bssTableSearch bssid channel with
  | some i =>
    apply setEntry_buffer
    rfl
  | none =>
    simp only
    split
    · next hfull =>
      split
      · next hconnected =>
        split
        · next hwants =>
          have hnone : s.buffer s.bssOverlapNr = none := by
            apply hok hsearch hfull _ hwants
            simpa only [Bool.or_eq_true, Bool.not_eq_true'] using hconnected
          exact s.setEntry_buffer hnone.symm j
        · rfl
      · rfl
    · apply setEntry_buffer
      rfl

theorem shiftEntries_buffer (i k : ℕ) {s : BssTab}
    (hok : ∀ j, i ≤ j → j < i + k → s.buffer j = none → s.buffer (j + 1) = none) (m : ℕ) :
    ((List.range' i k).foldl shiftEntry s).buffer m = s.buffer m := by
  induction k generalizing i s with
  | zero => rfl
  | succ k ih =>
    have hshift : ∀ m, (s.shiftEntry i).buffer m = s.buffer m := by
      intro m
      obtain ⟨hentry, -⟩ := s.shiftEntry_spec i
      rw [buffer, hentry]
      by_cases hm : m = i
      · rw [hm, Function.update_self]
        cases hbuffer : s.buffer i with
        | none =>
          show (none : Option Buffer).or (s.buffer (i + 1)) = none
          rw [hok i (Nat.le_refl i) (by omega) hbuffer]
          rfl
        | some p => rfl
      · rw [Function.update_of_ne hm]
        rfl
    rw [List.range'_succ, List.foldl_cons, ih (i + 1) _, hshift]
    intro j hj hlt hnone
    rw [hshift] at hnone ⊢
    exact hok j (by omega) (by omega) hnone

theorem delete_buffer {s : BssTab} {bssid : Addr} {channel : UInt8}
    (hok : s.KeepsBuffers (.delete bssid channel)) (m : ℕ) :
    (s.bssTableDeleteEntry bssid channel).buffer m = s.buffer m := by
  unfold bssTableDeleteEntry
  split
  · rfl
  · next i hfind =>
    obtain ⟨hi, hnet, hchan⟩ := exact_some hfind
    have hshift := fun m => shiftEntries_buffer i (s.bssNr - 1 - i) (s := s)
      (fun j hj hlt => hok i hi hnet hchan j hj (by omega)) m
    obtain ⟨hentry, -⟩ := ((List.range' i (s.bssNr - 1 - i)).foldl shiftEntry s).clearEntry_spec
      (((List.range' i (s.bssNr - 1 - i)).foldl shiftEntry s).bssNr - 1) 0
    show BssEntry.pVarIeFromProbRsp (BssTab.bssEntry _ m) = _
    simp only [hentry]
    by_cases hm : m = ((List.range' i (s.bssNr - 1 - i)).foldl shiftEntry s).bssNr - 1
    · rw [hm, Function.update_self]
      exact hshift _
    · rw [Function.update_of_ne hm]
      exact hshift m

theorem step_buffer {s : BssTab} {call : Call} (hok : s.KeepsBuffers call) (m : ℕ) :
    (s.step call).buffer m = s.buffer m := by
  cases call with
  | init => exact (clearEntries_spec _ _ _).2.2 m
  | set pAd bssid channel a => exact set_buffer hok m
  | delete bssid channel => exact delete_buffer hok m

/-- The table is a set of networks, and lists those set and neither deleted nor overwritten since. -/
structure Lists (x : Logged) : Prop where
  nr : x.table.bssNr ≤ maxLen
  unique : ∀ i j, i < x.table.bssNr → j < x.table.bssNr →
    (x.table.bssEntry i).bssid = (x.table.bssEntry j).bssid →
    lowBand (x.table.bssEntry i).channel = lowBand (x.table.bssEntry j).channel → i = j
  searched : ∀ bssid channel, (∃ i, x.table.bssTableSearch bssid channel = some i) ↔
    ∃ c, listed x.log (bssid, lowBand channel) = some c
  found : ∀ bssid channel i, x.table.bssTableSearch bssid channel = some i →
    i < x.table.bssNr ∧ (x.table.bssEntry i).bssid = bssid ∧
      listed x.log (bssid, lowBand channel) = some (x.table.bssEntry i).channel

/-- The buffers that were allocated are each in one entry, too. -/
structure Sound (allocated : Buffer → Bool) (x : Logged) : Prop extends Lists x where
  distinct : ∀ i j p, i < maxLen → j < maxLen →
    (x.table.bssEntry i).pVarIeFromProbRsp = some p →
    (x.table.bssEntry j).pVarIeFromProbRsp = some p → i = j
  kept : ∀ p, allocated p = true → ∃ i < maxLen, (x.table.bssEntry i).pVarIeFromProbRsp = some p

theorem Listing.found {x : Logged} (h : Listing x) {bssid : Addr} {channel : UInt8} {i : ℕ}
    (hsearch : x.table.bssTableSearch bssid channel = some i) :
    i < x.table.bssNr ∧ (x.table.bssEntry i).bssid = bssid ∧
      listed x.log (bssid, lowBand channel) = some (x.table.bssEntry i).channel := by
  obtain ⟨hi, hnet⟩ := search_some hsearch
  refine ⟨hi, (Prod.mk.inj hnet).1, ?_⟩
  have hknown := h.keyed.known_some hi
  rw [hnet] at hknown
  exact hknown

theorem Listing.searched {x : Logged} (h : Listing x) (bssid : Addr) (channel : UInt8) :
    (∃ i, x.table.bssTableSearch bssid channel = some i) ↔
      ∃ c, listed x.log (bssid, lowBand channel) = some c := by
  constructor
  · rintro ⟨i, hsearch⟩
    exact ⟨_, (h.found hsearch).2.2⟩
  · rintro ⟨c, hc⟩
    cases hsearch : x.table.bssTableSearch bssid channel with
    | some i => exact ⟨i, rfl⟩
    | none =>
      have hnone := h.keyed.known_none (k := network bssid channel) fun i hi =>
        search_none hsearch hi
      exact absurd (hnone.symm.trans hc) (by simp)

theorem Listing.lists {x : Logged} (h : Listing x) : Lists x where
  nr := h.nr
  unique i j hi hj hbssid hband := by
    apply h.keyed.unique i j hi hj
    rw [net, net, network, network, hbssid, hband]
  searched := h.searched
  found _ _ _ hsearch := h.found hsearch

theorem listing_start (allocated : Buffer → Bool) : Listing ⟨start allocated, []⟩ :=
  ⟨Nat.zero_le _, Nat.zero_lt_succ _, Keyed.empty _ _⟩

/-- After every run, whatever the calls. -/
theorem scan_table_lists (allocated : Buffer → Bool) (calls : List Call) :
    Lists (run Logged.step ⟨start allocated, []⟩ calls) := by
  apply Listing.lists
  apply run_invariant Listing _ calls (listing_start allocated)
  intro x call h
  exact h.step call

/-- The buffer of an entry at the start. -/
def own (allocated : Buffer → Bool) (i : ℕ) : Option Buffer :=
  if h : i < maxLen then (if allocated ⟨i, h⟩ then some ⟨i, h⟩ else none) else none

theorem own_some {allocated : Buffer → Bool} {i : ℕ} {p : Buffer}
    (h : own allocated i = some p) : i = p.val := by
  unfold own at h
  split at h
  · split at h
    · exact congrArg Fin.val (Option.some.inj h)
    · cases h
  · cases h

theorem own_allocated {allocated : Buffer → Bool} {p : Buffer} (h : allocated p = true) :
    own allocated p.val = some p := by
  rw [own, dif_pos p.isLt, if_pos h]

/-- After every run in which a full table is overwritten only where there is no buffer, and no entry
without a buffer is filled from one that has one, every entry has its own buffer. -/
theorem scan_table_sound (allocated : Buffer → Bool) {calls : List Call}
    (hok : Guarded Logged.step (fun x call => x.table.KeepsBuffers call) ⟨start allocated, []⟩ calls) :
    Sound allocated (run Logged.step ⟨start allocated, []⟩ calls) := by
  have hbuffer : ∀ m,
      (run Logged.step ⟨start allocated, []⟩ calls).table.buffer m = own allocated m := by
    apply guarded_invariant (fun x : Logged => ∀ m, x.table.buffer m = own allocated m) _ _ hok
    · intro x call hbuffer hkeeps m
      rw [← hbuffer m]
      exact step_buffer hkeeps m
    · intro m
      rfl
  constructor
  · exact scan_table_lists allocated calls
  · intro i j p _ _ hi hj
    have hi' := own_some ((hbuffer i).symm.trans hi)
    have hj' := own_some ((hbuffer j).symm.trans hj)
    rw [hi', hj']
  · intro p hp
    exact ⟨p.val, p.isLt, (hbuffer p.val).trans (own_allocated hp)⟩

/-- A network with a hidden name. -/
def hiddenInfo : BssInfo where
  ssid := []
  bssType := bssInfra
  beaconPeriod := 100
  cfParm := ⟨false, 0, 0, 0, 0⟩
  atimWin := 0
  capabilityInfo := 1
  supRate := []
  extRate := []
  htCapability := []
  addHtInfo := []
  htInfo := ⟨false, 0, false, false⟩
  newExtChanOffset := 0
  rssi := -50
  timeStamp := 0
  ckipFlag := 0
  vie := []

def addrOf (i : ℕ) : Addr := #v[2, 0, 0, 0, 0, UInt8.ofNat i]

/-- A network with the address `addrOf i` is heard, and looked for. -/
def heard (i : ℕ) : Call :=
  .set ⟨false, false, (addrOf i, []), none⟩ (addrOf i) 1 hiddenInfo

theorem scan_table_sound_heard : Sound (fun _ => true)
    (run Logged.step ⟨start fun _ => true, []⟩ [heard 0, heard 1, .delete (addrOf 0) 1, .init]) := by
  apply scan_table_sound
  refine ⟨?_, ?_, ?_, trivial, trivial⟩
  · intro _ hfull
    exact absurd hfull (by decide)
  · intro _ hfull
    exact absurd hfull (by decide)
  · intro i _ _ _ j _ hj hnone
    exfalso
    have hnr : j < 1 := by
      have htwo : j + 1 < 2 := hj
      omega
    have hzero : j = 0 := by omega
    subst hzero
    revert hnone
    decide

theorem addrOf_inj {i j : ℕ} (hi : i < 256) (hj : j < 256) (h : addrOf i = addrOf j) : i = j := by
  have hlast : UInt8.ofNat i = UInt8.ofNat j := congrArg (fun a : Addr => a[5]) h
  have hnat := congrArg UInt8.toNat hlast
  rw [UInt8.toNat_ofNat_of_lt' hi, UInt8.toNat_ofNat_of_lt' hj] at hnat
  exact hnat

theorem search_eq_none {s : BssTab} {bssid : Addr} {channel : UInt8}
    (h : ∀ i < s.bssNr, s.net i ≠ network bssid channel) :
    s.bssTableSearch bssid channel = none := by
  cases hsearch : s.bssTableSearch bssid channel with
  | none => rfl
  | some i => exact absurd (search_some hsearch).2 (h i (search_some hsearch).1)

/-- A network that is not listed is appended while there is room. -/
theorem set_room {s : BssTab} {pAd : Desired} {bssid : Addr} {channel : UInt8} {a : BssInfo}
    (hsearch : s.bssTableSearch bssid channel = none) (hroom : s.bssNr < maxLen) :
    (s.bssTableSetEntry pAd bssid channel a).1 =
      { s.setEntry s.bssNr (bssEntrySet (s.bssEntry s.bssNr) bssid channel a) with
        bssNr := s.bssNr + 1 } := by
  simp only [bssTableSetEntry, hsearch]
  rw [if_neg (Nat.not_le_of_lt hroom)]

/-- Another network that is looked for is put over the oldest. -/
theorem set_over {s : BssTab} {pAd : Desired} {bssid : Addr} {channel : UInt8} {a : BssInfo}
    (hsearch : s.bssTableSearch bssid channel = none) (hfull : maxLen ≤ s.bssNr)
    (hconnected : pAd.mediaStateConnected = false) (hwants : pAd.wants bssid a.ssid = true) :
    (s.bssTableSetEntry pAd bssid channel a).1 =
      { s.setEntry s.bssOverlapNr (bssEntrySet BssEntry.zero bssid channel a) with
        bssOverlapNr := (s.bssOverlapNr + 1) % maxLen } := by
  simp only [bssTableSetEntry, hsearch]
  rw [if_pos hfull, hconnected, hwants]
  rfl

/-- A scan that hears `n` networks. -/
def scanned (n : ℕ) : Logged :=
  run Logged.step ⟨start fun _ => true, []⟩ ((List.range n).map heard)

theorem scanned_succ (n : ℕ) : scanned (n + 1) = (scanned n).step (heard n) := by
  rw [scanned, List.range_succ, List.map_append, run_append]
  rfl

/-- A further network is not listed. -/
theorem scanned_search {n m : ℕ} (hn : n ≤ maxLen) (hm : m < 256) (hnm : n ≤ m) {s : BssTab}
    (hnr : s.bssNr = n) (hnet : ∀ i < n, s.net i = network (addrOf i) 1) :
    s.bssTableSearch (addrOf m) 1 = none := by
  apply search_eq_none
  intro i hi heq
  rw [hnr] at hi
  rw [hnet i hi] at heq
  have hmax : maxLen = 64 := rfl
  have him := addrOf_inj (by omega) hm (Prod.mk.inj heq).1
  omega

theorem scanned_spec {n : ℕ} (hn : n ≤ maxLen) : (scanned n).table.bssNr = n ∧
    (scanned n).table.bssOverlapNr = 0 ∧
    (∀ i < n, (scanned n).table.net i = network (addrOf i) 1) ∧
    ∀ i, (scanned n).table.buffer i = own (fun _ => true) i := by
  induction n with
  | zero => exact ⟨rfl, rfl, fun i hi => absurd hi (Nat.not_lt_zero i), fun _ => rfl⟩
  | succ n ih =>
    obtain ⟨hnr, hoverlap, hnet, hbuffer⟩ := ih (Nat.le_of_succ_le hn)
    have hmax : maxLen = 64 := rfl
    have hsearch := scanned_search (m := n) (Nat.le_of_succ_le hn) (by omega) (Nat.le_refl n) hnr hnet
    have htable : (scanned (n + 1)).table =
        { (scanned n).table.setEntry n (bssEntrySet ((scanned n).table.bssEntry n) (addrOf n) 1
            hiddenInfo) with bssNr := n + 1 } := by
      rw [scanned_succ]
      show (BssTab.bssTableSetEntry _ _ _ _ _).1 = _
      rw [set_room hsearch (by omega), hnr]
    rw [htable]
    refine ⟨rfl, hoverlap, ?_, ?_⟩
    · intro i hi
      show (BssTab.setEntry _ _ _).net i = _
      rw [setEntry_net]
      by_cases hin : i = n
      · rw [hin, Function.update_self]
        rfl
      · rw [Function.update_of_ne hin]
        exact hnet i (by omega)
    · intro i
      rw [← hbuffer i]
      show (BssTab.setEntry _ _ _).buffer i = _
      apply setEntry_buffer
      rfl

theorem own_true {i : ℕ} (hi : i < maxLen) : own (fun _ => true) i = some ⟨i, hi⟩ := by
  rw [own, dif_pos hi, if_pos rfl]

/-- The network that is put over the oldest in a full table loses its buffer. -/
theorem scanned_over {n : ℕ} (hn : n = maxLen) : (scanned (n + 1)).table.bssNr = n ∧
    (scanned (n + 1)).table.net 0 = network (addrOf n) 1 ∧
    (scanned (n + 1)).table.chan 0 = 1 ∧
    ∀ i, (scanned (n + 1)).table.buffer i = if i = 0 then none else own (fun _ => true) i := by
  obtain ⟨hnr, hoverlap, hnet, hbuffer⟩ := scanned_spec (Nat.le_of_eq hn)
  have hmax : maxLen = 64 := rfl
  have hsearch := scanned_search (m := n) (Nat.le_of_eq hn) (by omega) (Nat.le_refl n) hnr hnet
  have hwants : (Desired.mk false false (addrOf n, []) none).wants (addrOf n) hiddenInfo.ssid =
      true := by
    simp [Desired.wants]
  have htable : (scanned (n + 1)).table =
      { (scanned n).table.setEntry 0 (bssEntrySet BssEntry.zero (addrOf n) 1 hiddenInfo)
        with bssOverlapNr := 1 } := by
    rw [scanned_succ]
    show (BssTab.bssTableSetEntry _ _ _ _ _).1 = _
    rw [set_over hsearch (by omega) rfl hwants, hoverlap]
    rfl
  rw [htable]
  refine ⟨hnr, ?_, ?_, ?_⟩
  · show (BssTab.setEntry _ _ _).net 0 = _
    rw [setEntry_net, Function.update_self]
    rfl
  · show (BssTab.setEntry _ _ _).chan 0 = _
    rw [setEntry_chan, Function.update_self]
    rfl
  · intro i
    show (BssEntry.pVarIeFromProbRsp ((BssTab.setEntry _ 0 _).bssEntry i)) = _
    by_cases hi : i = 0
    · rw [if_pos hi, hi, setEntry_self]
      rfl
    · rw [if_neg hi, setEntry_other _ _ hi]
      exact hbuffer i

theorem over_lost {n : ℕ} (hn : n = maxLen) : ¬ ∃ i < maxLen,
    ((scanned (n + 1)).table.bssEntry i).pVarIeFromProbRsp = some 0 := by
  rintro ⟨i, hi, hp⟩
  have hbuffer := ((scanned_over hn).2.2.2 i).symm.trans hp
  by_cases hzero : i = 0
  · rw [if_pos hzero] at hbuffer
    cases hbuffer
  · rw [if_neg hzero, own_true hi] at hbuffer
    exact hzero (congrArg Fin.val (Option.some.inj hbuffer))

theorem shiftEntries_some (i k : ℕ) {s : BssTab} {m : ℕ} {p : Buffer}
    (h : s.buffer m = some p) : ((List.range' i k).foldl shiftEntry s).buffer m = some p := by
  induction k generalizing i s with
  | zero => exact h
  | succ k ih =>
    rw [List.range'_succ, List.foldl_cons]
    apply ih
    obtain ⟨hentry, -⟩ := s.shiftEntry_spec i
    rw [buffer, hentry]
    by_cases hm : m = i
    · rw [← hm, Function.update_self]
      show (s.buffer m).or _ = some p
      rw [h]
      rfl
    · rw [Function.update_of_ne hm]
      exact h

/-- The first of two entries or more is deleted: when it has no buffer it gets that of the second. -/
theorem delete_first {s : BssTab} {bssid : Addr} {channel : UInt8} {p : Buffer}
    (hnr : 1 < s.bssNr) (hbssid : (s.bssEntry 0).bssid = bssid)
    (hchannel : (s.bssEntry 0).channel = channel) (hnone : s.buffer 0 = none)
    (hsome : s.buffer 1 = some p) :
    (s.bssTableDeleteEntry bssid channel).buffer 0 = some p ∧
      (s.bssTableDeleteEntry bssid channel).buffer 1 = some p := by
  have hfind : ((List.range s.bssNr).find? fun i =>
      (s.bssEntry i).channel = channel && (s.bssEntry i).bssid = bssid) = some 0 := by
    obtain ⟨k, hk⟩ : ∃ k, s.bssNr = k + 1 := ⟨s.bssNr - 1, by omega⟩
    rw [hk, List.range_succ_eq_map, List.find?_cons_of_pos]
    simp [hbssid, hchannel]
  obtain ⟨k, hk⟩ : ∃ k, s.bssNr - 1 - 0 = k + 1 := ⟨s.bssNr - 2, by omega⟩
  obtain ⟨hentry, -⟩ := s.shiftEntry_spec 0
  have hzero : (s.shiftEntry 0).buffer 0 = some p := by
    rw [buffer, hentry, Function.update_self]
    show (s.buffer 0).or (s.buffer 1) = some p
    rw [hnone, hsome]
    rfl
  have hone : (s.shiftEntry 0).buffer 1 = some p := by
    rw [buffer, hentry, Function.update_of_ne Nat.one_ne_zero]
    exact hsome
  have hlast := fun m => ((clearEntries_spec [((List.range' 0 (k + 1)).foldl shiftEntry s).bssNr - 1]
    0 ((List.range' 0 (k + 1)).foldl shiftEntry s)).2.2 m)
  have hdelete : ∀ m, (s.bssTableDeleteEntry bssid channel).buffer m =
      ((List.range' 0 (k + 1)).foldl shiftEntry s).buffer m := by
    intro m
    rw [← hlast m]
    simp only [bssTableDeleteEntry, hfind, hk]
    rfl
  rw [hdelete, hdelete, List.range'_succ, List.foldl_cons]
  exact ⟨shiftEntries_some _ _ hzero, shiftEntries_some _ _ hone⟩

theorem over_shared {n : ℕ} (hn : n = maxLen) :
    ((scanned (n + 1)).table.bssTableDeleteEntry (addrOf n) 1).buffer 0 = some 1 ∧
      ((scanned (n + 1)).table.bssTableDeleteEntry (addrOf n) 1).buffer 1 = some 1 := by
  obtain ⟨hnr, hnet, hchan, hbuffer⟩ := scanned_over hn
  have hmax : maxLen = 64 := rfl
  apply delete_first
  · omega
  · exact (Prod.mk.inj hnet).1
  · exact hchan
  · rw [hbuffer, if_pos rfl]
  · rw [hbuffer, if_neg Nat.one_ne_zero, own_true (by omega)]
    rfl

theorem over_unsound {n : ℕ} (hn : n = maxLen) :
    ¬ Sound (fun _ => true) ((scanned (n + 1)).step (.delete (addrOf n) 1)) := by
  intro h
  obtain ⟨hzero, hone⟩ := over_shared hn
  exact absurd (h.distinct 0 1 1 (by decide) (by decide) hzero hone) Nat.zero_ne_one

/-- When a network that is looked for was heard with a full table, the first buffer is in no entry;
when this network is deleted then, the second buffer is in two. -/
theorem buffer_lost : ¬ Sound (fun _ => true) (scanned (maxLen + 1)) ∧
    ¬ Sound (fun _ => true) ((scanned (maxLen + 1)).step (.delete (addrOf maxLen) 1)) := by
  constructor
  · intro h
    exact over_lost rfl (h.kept 0 rfl)
  · exact over_unsound rfl

end Rt5572.BssTab

import StandaloneDrivers.Foundations.ExchangeSort
import StandaloneDrivers.Rt5572.BssTableSort

/-! Exchanging WPA and WPA2 in the scan table and in the configuration (common/mlme.c). -/
namespace Rt5572
open Foundations

namespace BssTab

def AuthMode.exchange : AuthMode → AuthMode
  | .wpa => .wpa2
  | .wpaPsk => .wpa2Psk
  | .wpa2 => .wpa
  | .wpa2Psk => .wpaPsk
  | mode => mode

def BssSecurity.exchange (sec : BssSecurity) : BssSecurity :=
  { sec with
    authMode := sec.authMode.exchange
    authModeAux := sec.authModeAux.exchange
    wpa := sec.wpa2
    wpa2 := sec.wpa }

namespace StaConfig
variable (pAd : StaConfig)

def exchange : StaConfig := { pAd with authMode := pAd.authMode.exchange }

/-- The configured mode is one of WPA or of WPA2. -/
def UsesWpa : Prop :=
  pAd.authMode = .wpa ∨ pAd.authMode = .wpaPsk ∨ pAd.authMode = .wpa2 ∨ pAd.authMode = .wpa2Psk

/-- The part of the configured mode. -/
def ownSuite (sec : BssSecurity) : CipherSuite :=
  match pAd.authMode with
  | .wpa | .wpaPsk => sec.wpa
  | _ => sec.wpa2

/-- Where the group cipher decides on a network with the name that is looked for, the group ciphers
of both parts are on the same side of the configured one. -/
def GroupsAgree (ssid : List UInt8) (pInBss : BssEntry) (sec : BssSecurity) : Prop :=
  pInBss.bssType = pAd.bssType → ssid = pInBss.ssid ∨ pAd.isHiddenApIncluded pInBss = true →
    ssid ≠ [] → pAd.wpaSupplicantUP &&& 0x80 = 0 → pAd.phyMatches pInBss = true →
    pAd.authMatches sec = true → pAd.groupMatches (pAd.ownSuite sec) = true →
    pAd.pairMatches (pAd.ownSuite sec) = true → wepGroup (pAd.ownSuite sec).groupCipher = false →
    pAd.weakerThan sec.wpa.groupCipher = pAd.weakerThan sec.wpa2.groupCipher

end StaConfig

theorem AuthMode.exchange_inj {a b : AuthMode} : a.exchange = b.exchange ↔ a = b := by
  cases a <;> cases b <;> decide

namespace StaConfig
variable {pAd : StaConfig}

theorem exchange_authMatches (sec : BssSecurity) :
    pAd.exchange.authMatches sec.exchange = pAd.authMatches sec := by
  simp only [authMatches, exchange, BssSecurity.exchange, AuthMode.exchange_inj]

theorem exchange_authMode : pAd.exchange.authMode = pAd.authMode.exchange := rfl

theorem exchange_groupMatches (suite : CipherSuite) :
    pAd.exchange.groupMatches suite = pAd.groupMatches suite := rfl

theorem exchange_weakerThan (groupCipher : WepStatus) :
    pAd.exchange.weakerThan groupCipher = pAd.weakerThan groupCipher := rfl

theorem exchange_pairMatches (suite : CipherSuite) :
    pAd.exchange.pairMatches suite = pAd.pairMatches suite := rfl

/-- Without a name the copies of the filter agree. -/
theorem exchange_securityMatchesAny (h : pAd.UsesWpa) (sec : BssSecurity) :
    pAd.exchange.securityMatchesAny sec.exchange = pAd.securityMatchesAny sec := by
  simp only [securityMatchesAny, exchange_authMatches, exchange_groupMatches, exchange_weakerThan,
    exchange_pairMatches, exchange_authMode]
  rcases h with h | h | h | h
  all_goals
    rw [h]
    rfl

/-- With one filter for weak group ciphers in place of another. -/
theorem filter_eq_iff : ∀ auth group pair wep a b : Bool,
    (auth && (group && !(a && !wep) && pair)) = (auth && (group && !(b && !wep) && pair)) ↔
      (auth = true → group = true → pair = true → wep = false → b = a) := by
  decide

theorem exchange_securityMatches (h : pAd.UsesWpa) (sec : BssSecurity) :
    pAd.exchange.securityMatches sec.exchange = pAd.securityMatches sec ↔
      (pAd.authMatches sec = true → pAd.groupMatches (pAd.ownSuite sec) = true →
        pAd.pairMatches (pAd.ownSuite sec) = true →
        wepGroup (pAd.ownSuite sec).groupCipher = false →
        pAd.weakerThan sec.wpa.groupCipher = pAd.weakerThan sec.wpa2.groupCipher) := by
  rw [← filter_eq_iff]
  simp only [securityMatches, exchange_authMatches, exchange_groupMatches, exchange_weakerThan,
    exchange_pairMatches, exchange_authMode, ownSuite]
  rcases h with h | h | h | h
  all_goals
    rw [h]
    rfl

/-- Whether an entry is copied. -/
theorem verdict_copies (ssid : List UInt8) (pInBss : BssEntry) (sec : BssSecurity) :
    (pAd.verdict ssid pInBss sec).copies =
      (decide (pInBss.bssType = pAd.bssType) &&
        (if ssid = pInBss.ssid ∨ pAd.isHiddenApIncluded pInBss = true then
          pAd.wpaSupplicantUP &&& 0x80 != 0 ||
            pAd.phyMatches pInBss && pAd.securityMatches sec && !ssid.isEmpty
        else ssid.isEmpty && (pAd.phyMatches pInBss && pAd.securityMatchesAny sec))) := by
  have hite (c : Bool) (v : Verdict) (hv : v.copies = true) :
      (if c = true then v else .skipped).copies = c := by
    cases c
    · rfl
    · exact hv
  by_cases htype : pInBss.bssType = pAd.bssType
  · by_cases hname : ssid = pInBss.ssid ∨ pAd.isHiddenApIncluded pInBss = true
    · by_cases hsup : pAd.wpaSupplicantUP &&& 0x80 = 0
      · simp [verdict, htype, hname, hsup, hite _ .copied rfl, -Bool.and_eq_true]
      · simp [verdict, htype, hname, hsup, Verdict.copies]
    · by_cases hempty : ssid.isEmpty = true
      · simp [verdict, htype, hname, hempty, hite _ .copied rfl, -Bool.and_eq_true]
      · simp [verdict, htype, hname, hempty, Verdict.copies]
  · simp [verdict, htype, Verdict.copies]

/-- The entry is copied after the exchange as before it exactly when the group ciphers agree. -/
theorem exchange_copies (h : pAd.UsesWpa) (ssid : List UInt8) (pInBss : BssEntry)
    (sec : BssSecurity) :
    (pAd.exchange.verdict ssid pInBss sec.exchange).copies =
        (pAd.verdict ssid pInBss sec).copies ↔ pAd.GroupsAgree ssid pInBss sec := by
  have hmatches := exchange_securityMatches h sec
  have hany := exchange_securityMatchesAny h sec
  have hphy : pAd.exchange.phyMatches pInBss = pAd.phyMatches pInBss := rfl
  have hhidden : pAd.exchange.isHiddenApIncluded pInBss = pAd.isHiddenApIncluded pInBss := rfl
  have htype : pAd.exchange.bssType = pAd.bssType := rfl
  have hsup : pAd.exchange.wpaSupplicantUP = pAd.wpaSupplicantUP := rfl
  have hbool : ∀ set phy exchanged matching empty : Bool,
      (set || phy && exchanged && !empty) = (set || phy && matching && !empty) ↔
        (empty = false → set = false → phy = true → exchanged = matching) := by
    decide
  have hclear : pAd.wpaSupplicantUP &&& 0x80 = 0 ↔ (pAd.wpaSupplicantUP &&& 0x80 != 0) = false :=
    bne_eq_false_iff_eq.symm
  have hne : ssid ≠ [] ↔ ssid.isEmpty = false := List.isEmpty_eq_false_iff.symm
  simp only [verdict_copies, GroupsAgree, hany, hphy, hhidden, htype, hsup, ← hmatches, hclear, hne]
  by_cases hmode : pInBss.bssType = pAd.bssType
  · by_cases hname : ssid = pInBss.ssid ∨ pAd.isHiddenApIncluded pInBss = true
    · simp only [hmode, hname, decide_true, Bool.true_and, if_true, hbool, true_implies]
    · simp only [hname, if_false, false_implies, implies_true]
  · simp only [hmode, decide_false, Bool.false_and, false_implies]

end StaConfig
/-- The entries that the table lists. -/
def entries (s : BssTab) : List BssEntry := (List.range s.bssNr).map s.bssEntry

theorem push_entries (s : BssTab) (e : BssEntry) : (s.push e).entries = s.entries ++ [e] := by
  have hold : (List.range s.bssNr).map (s.push e).bssEntry = s.entries := by
    apply List.map_congr_left
    intro i hi
    have hlt := List.mem_range.mp hi
    exact Function.update_of_ne hlt.ne _ _
  have hnew : (s.push e).bssEntry s.bssNr = e := Function.update_self _ _ _
  have hnr : (s.push e).bssNr = s.bssNr + 1 := rfl
  rw [entries, hnr, List.range_succ, List.map_append, hold, List.map_singleton, hnew]

theorem copyLoop_entries (pAd : StaConfig) (ssid : List UInt8) (l : List (BssEntry × BssSecurity))
    (s : BssTab) (h : s.bssNr + l.length ≤ maxLen) :
    (copyLoop pAd ssid l s).entries = s.entries ++
      (l.filter fun x => (pAd.verdict ssid x.1 x.2).copies).map Prod.fst := by
  induction l generalizing s with
  | nil => simp [copyLoop]
  | cons x l ih =>
    obtain ⟨pInBss, sec⟩ := x
    rw [List.length_cons] at h
    have hpush : (s.push pInBss).bssNr + l.length ≤ maxLen := by
      simp only [BssTab.push]
      omega
    have hcopy := ih (s.push pInBss) hpush
    rw [push_entries] at hcopy
    rw [copyLoop]
    cases hv : pAd.verdict ssid pInBss sec with
    | skipped => simpa [hv, StaConfig.Verdict.copies] using ih s (by omega)
    | copiedOn => simpa [hv, StaConfig.Verdict.copies] using hcopy
    | copied =>
      dsimp only
      split
      · next hfull =>
        obtain rfl : l = [] := List.length_eq_zero_iff.mp (by omega)
        simp [hv, StaConfig.Verdict.copies, push_entries]
      · simpa [hv, StaConfig.Verdict.copies] using hcopy
    | passed =>
      dsimp only
      rw [if_neg (by omega)]
      simpa [hv, StaConfig.Verdict.copies] using ih s (by omega)

theorem orderEntries_entry (s : BssTab) (i j : ℕ) :
    (s.orderEntries i j).bssEntry = ExchangeSort.order BssEntry.rssi s.bssEntry i j := by
  unfold orderEntries ExchangeSort.order
  split
  · funext k
    simp only [setEntry, Function.comp_apply, Equiv.swap_apply_def, Function.update_apply]
    split_ifs <;> simp_all
  · rfl

theorem orderEntries_nr (s : BssTab) (i j : ℕ) : (s.orderEntries i j).bssNr = s.bssNr := by
  unfold orderEntries
  split <;> rfl

/-- A loop that keeps the length is a loop over the entries. -/
theorem foldl_entry {ι : Type} {step : BssTab → ι → BssTab}
    {move : (ℕ → BssEntry) → ι → ℕ → BssEntry} (l : List ι) (s : BssTab)
    (h : ∀ s' a, s'.bssNr = s.bssNr →
      (step s' a).bssEntry = move s'.bssEntry a ∧ (step s' a).bssNr = s'.bssNr) :
    (l.foldl step s).bssEntry = l.foldl move s.bssEntry ∧ (l.foldl step s).bssNr = s.bssNr := by
  induction l generalizing s with
  | nil => exact ⟨rfl, rfl⟩
  | cons a l ih =>
    obtain ⟨hentry, hnr⟩ := h s a rfl
    obtain ⟨hrest, hlast⟩ := ih (step s a) fun s' a hs' => h s' a (hs'.trans hnr)
    rw [List.foldl_cons, List.foldl_cons, hrest, hentry]
    exact ⟨rfl, hlast.trans hnr⟩

theorem bssTableSortByRssi_entry (s : BssTab) :
    (s.bssTableSortByRssi true).bssEntry =
        ExchangeSort.sort BssEntry.rssi s.bssNr s.bssEntry ∧
      (s.bssTableSortByRssi true).bssNr = s.bssNr := by
  unfold bssTableSortByRssi
  rw [if_pos rfl]
  apply foldl_entry
  intro s' i hs'
  rw [hs', ExchangeSort.pass, ← hs']
  apply foldl_entry
  intro s'' j _
  exact ⟨s''.orderEntries_entry i j, s''.orderEntries_nr i j⟩

/-- The sort rearranges the listed entries by falling `Rssi`. -/
theorem bssTableSortByRssi_entries (s : BssTab) :
    (s.bssTableSortByRssi true).entries.Perm s.entries ∧
      (s.bssTableSortByRssi true).entries.Pairwise fun a b => b.rssi ≤ a.rssi := by
  obtain ⟨hentry, hnr⟩ := s.bssTableSortByRssi_entry
  rw [entries, hnr, hentry]
  exact ⟨(ExchangeSort.sort_rearranged BssEntry.rssi _ _).perm,
    (ExchangeSort.sort_ordered BssEntry.rssi _ _).pairwise⟩

end BssTab

open BssTab

namespace Tables
variable (t : Tables)

def exchange : Tables where
  scanTab := t.scanTab
  security := fun i => (t.security i).exchange
  outTab := t.outTab
  shared := t.shared
  fits := t.fits

section
variable (pAd : StaConfig) (ssid : List UInt8)

/-- The places of the selected entries in the scan table. -/
def selected : List ℕ :=
  if ssid.isEmpty && !pAd.bAutoConnectIfNoSSID then []
  else (List.range t.scanTab.bssNr).filter fun i =>
    (pAd.verdict ssid (t.scanTab.bssEntry i) (t.security i)).copies

/-- The matching entries of the scan table are in falling order of `Rssi` as they are. -/
def InOrder : Prop :=
  ∀ i j, i < j → t.Candidate pAd ssid i → t.Candidate pAd ssid j →
    (t.scanTab.bssEntry j).rssi ≤ (t.scanTab.bssEntry i).rssi

end

section
variable {pAd : StaConfig} {ssid : List UInt8}

theorem mem_selected {i : ℕ} : i ∈ t.selected pAd ssid ↔ t.Candidate pAd ssid i := by
  unfold selected Candidate
  split
  · next hnone =>
    simp_all
  · next hsome =>
    simp_all
    tauto

theorem selected_pairwise : (t.selected pAd ssid).Pairwise (· < ·) := by
  unfold selected
  split
  · exact List.Pairwise.nil
  · exact List.pairwise_lt_range.filter _

/-- In the order of the scan table or by falling `Rssi`, the output lists the selected entries. -/
theorem bssTableSsidSort_entries (pAd : StaConfig) (ssid : List UInt8) (allocated : Bool) :
    (t.bssTableSsidSort pAd ssid allocated).outTab.entries.Perm
        ((t.selected pAd ssid).map t.scanTab.bssEntry) ∧
      (allocated = true → (t.bssTableSsidSort pAd ssid allocated).outTab.entries.Pairwise
        fun a b => b.rssi ≤ a.rssi) ∧
      (allocated = false → (t.bssTableSsidSort pAd ssid allocated).outTab.entries =
        (t.selected pAd ssid).map t.scanTab.bssEntry) := by
  have hstart : t.outTableInit.outTab.bssNr = 0 := t.outTab.bssTableInit_spec.1
  have hempty : t.outTableInit.outTab.entries = [] := by
    rw [entries, hstart]
    rfl
  cases hgo : ssid.isEmpty && !pAd.bAutoConnectIfNoSSID with
  | true =>
    have hsort : t.bssTableSsidSort pAd ssid allocated = t.outTableInit := by
      rw [bssTableSsidSort, hgo]
      rfl
    rw [hsort, hempty, selected, if_pos hgo]
    exact ⟨List.Perm.nil, fun _ => List.Pairwise.nil, fun _ => rfl⟩
  | false =>
    have hlen : t.outTableInit.outTab.bssNr + t.scanned.length ≤ maxLen := by
      rw [hstart]
      simpa [scanned] using t.fits
    have hcopied : (copyLoop pAd ssid t.scanned t.outTableInit.outTab).entries =
        (t.selected pAd ssid).map t.scanTab.bssEntry := by
      rw [copyLoop_entries pAd ssid _ _ hlen, hempty, List.nil_append, selected, hgo, scanned,
        List.filter_map, List.map_map]
      rfl
    have hsort : (t.bssTableSsidSort pAd ssid allocated).outTab =
        (copyLoop pAd ssid t.scanned t.outTableInit.outTab).bssTableSortByRssi allocated := by
      rw [bssTableSsidSort, hgo, outTableInit_scanned]
      rfl
    rw [hsort, ← hcopied]
    cases allocated with
    | true =>
      obtain ⟨hperm, hdescending⟩ := bssTableSortByRssi_entries _
      exact ⟨hperm, fun _ => hdescending, fun h => absurd h (by decide)⟩
    | false => exact ⟨List.Perm.refl _, fun h => absurd h (by decide), fun _ => rfl⟩

/-- The listed entries are in falling order of `Rssi` exactly when they were sorted or in that order
before. -/
theorem bssTableSsidSort_descending_iff (pAd : StaConfig) (ssid : List UInt8) (allocated : Bool) :
    ((t.bssTableSsidSort pAd ssid allocated).outTab.entries.Pairwise fun a b => b.rssi ≤ a.rssi) ↔
      allocated = true ∨ t.InOrder pAd ssid := by
  obtain ⟨-, hsorted, hkept⟩ := t.bssTableSsidSort_entries pAd ssid allocated
  have horder : (((t.selected pAd ssid).map t.scanTab.bssEntry).Pairwise
      fun a b => b.rssi ≤ a.rssi) ↔ t.InOrder pAd ssid := by
    rw [List.pairwise_map]
    constructor
    · intro h i j hij hi hj
      obtain ⟨a, ha, rfl⟩ := List.getElem_of_mem (t.mem_selected.mpr hi)
      obtain ⟨b, hb, rfl⟩ := List.getElem_of_mem (t.mem_selected.mpr hj)
      have hselected : (t.selected pAd ssid).Pairwise (· < ·) := t.selected_pairwise
      have hincreasing := List.pairwise_iff_getElem.mp hselected
      have hab : a < b := by
        by_contra hle
        rcases Nat.lt_or_eq_of_le (not_lt.mp hle) with hlt | rfl
        · exact absurd (hincreasing b a hb ha hlt) (by omega)
        · omega
      exact List.pairwise_iff_getElem.mp h a b ha hb hab
    · intro h
      apply t.selected_pairwise.imp_of_mem
      intro i j hi hj hij
      exact h i j hij (t.mem_selected.mp hi) (t.mem_selected.mp hj)
  cases allocated with
  | true => exact iff_of_true (hsorted rfl) (Or.inl rfl)
  | false =>
    rw [hkept rfl, horder]
    simp

theorem exchange_selected_iff (h : pAd.UsesWpa) :
    t.exchange.selected pAd.exchange ssid = t.selected pAd ssid ↔
      ∀ i < t.scanTab.bssNr, pAd.GroupsAgree ssid (t.scanTab.bssEntry i) (t.security i) := by
  have hiff (i : ℕ) := StaConfig.exchange_copies h ssid (t.scanTab.bssEntry i) (t.security i)
  cases hgo : ssid.isEmpty && !pAd.bAutoConnectIfNoSSID with
  | true =>
    have hgo' : (ssid.isEmpty && !pAd.exchange.bAutoConnectIfNoSSID) = true := hgo
    have hempty : ssid = [] := by
      simp only [Bool.and_eq_true, List.isEmpty_iff] at hgo
      exact hgo.1
    rw [selected, selected, if_pos hgo, if_pos hgo']
    refine iff_of_true rfl ?_
    intro i _ _ _ hne
    exact absurd hempty hne
  | false =>
    have hgo' : (ssid.isEmpty && !pAd.exchange.bAutoConnectIfNoSSID) = false := hgo
    rw [selected, selected, hgo, hgo']
    simp only [Bool.false_eq_true, if_false]
    constructor
    · intro heq i hi
      rw [← hiff, Bool.eq_iff_iff]
      have hmem := congrArg (i ∈ ·) heq
      simpa [exchange, hi] using hmem
    · intro hagree
      apply List.filter_congr
      intro i hi
      exact (hiff i).mpr (hagree i (List.mem_range.mp hi))

end

/-- The selection is that of the exchanged tables, and its output is sorted, exactly when the group
ciphers agree where they decide, and the entries were sorted or stood in order. -/
theorem bssTableSsidSort_symmetric_iff (pAd : StaConfig) (ssid : List UInt8) (allocated : Bool)
    (h : pAd.UsesWpa) :
    (t.exchange.selected pAd.exchange ssid = t.selected pAd ssid ∧
      (t.bssTableSsidSort pAd ssid allocated).outTab.entries.Perm
        ((t.selected pAd ssid).map t.scanTab.bssEntry) ∧
      (t.bssTableSsidSort pAd ssid allocated).outTab.entries.Pairwise
        fun a b => b.rssi ≤ a.rssi) ↔
      (∀ i < t.scanTab.bssNr, pAd.GroupsAgree ssid (t.scanTab.bssEntry i) (t.security i)) ∧
        (allocated = true ∨ t.InOrder pAd ssid) := by
  have hperm := (t.bssTableSsidSort_entries pAd ssid allocated).1
  rw [exchange_selected_iff t h, bssTableSsidSort_descending_iff]
  constructor
  · rintro ⟨hagree, -, horder⟩
    exact ⟨hagree, horder⟩
  · rintro ⟨hagree, horder⟩
    exact ⟨hagree, hperm, horder⟩

/-- A station of WPA2-PSK with TKIP. -/
def tkipStation : StaConfig where
  bAutoConnectIfNoSSID := false
  bIEEE80211H := false
  channel := 1
  channelList := []
  bssType := bssInfra
  wpaSupplicantUP := 0
  phyMode := .other
  authMode := .wpa2Psk
  wepStatus := .encryption2Enabled

/-- A network with CCMP as the group cipher of WPA and TKIP as that of WPA2. -/
def dualNetwork : Tables where
  scanTab :=
    { bssNr := 1
      bssOverlapNr := 0
      bssEntry := fun _ => { BssEntry.zero with
        bssType := bssInfra
        ssid := [0x61] }
      varIe := fun _ => [] }
  security := fun _ =>
    { authMode := .wpa2Psk
      authModeAux := .wpaPsk
      wepStatus := .encryption2Enabled
      wpa := ⟨.encryption3Enabled, .encryption3Enabled, .encryption3Enabled, false⟩
      wpa2 := ⟨.encryption2Enabled, .encryption2Enabled, .encryption2Enabled, false⟩
      bSES := false }
  outTab :=
    { bssNr := 0
      bssOverlapNr := 0
      bssEntry := fun _ => BssEntry.zero
      varIe := fun _ => [] }
  shared := rfl
  fits := by decide

theorem dualNetwork_asymmetric :
    tkipStation.UsesWpa ∧ dualNetwork.exchange.selected tkipStation.exchange [0x61] ≠
      dualNetwork.selected tkipStation [0x61] := by
  refine ⟨Or.inr (Or.inr (Or.inr rfl)), ?_⟩
  decide

theorem bssTableSsidSort_symmetric_iff_dualNetwork :
    ¬ (dualNetwork.exchange.selected tkipStation.exchange [0x61] =
        dualNetwork.selected tkipStation [0x61] ∧
      (dualNetwork.bssTableSsidSort tkipStation [0x61] true).outTab.entries.Perm
        ((dualNetwork.selected tkipStation [0x61]).map dualNetwork.scanTab.bssEntry) ∧
      (dualNetwork.bssTableSsidSort tkipStation [0x61] true).outTab.entries.Pairwise
        fun a b => b.rssi ≤ a.rssi) ∧
    ∃ i < 1, ¬ tkipStation.GroupsAgree [0x61] (dualNetwork.scanTab.bssEntry i)
      (dualNetwork.security i) := by
  have hiff := dualNetwork.bssTableSsidSort_symmetric_iff tkipStation [0x61] true
    (Or.inr (Or.inr (Or.inr rfl)))
  have hdisagree : ¬ tkipStation.GroupsAgree [0x61] (dualNetwork.scanTab.bssEntry 0)
      (dualNetwork.security 0) := by
    intro hagree
    have hsame := hagree rfl (Or.inl rfl) (by decide) rfl (by decide) (by decide) (by decide)
      (by decide) (by decide)
    exact absurd hsame (by decide)
  refine ⟨?_, 0, by decide, hdisagree⟩
  intro hsymmetric
  exact hdisagree ((hiff.mp hsymmetric).1 0 (by decide))

end Tables
end Rt5572

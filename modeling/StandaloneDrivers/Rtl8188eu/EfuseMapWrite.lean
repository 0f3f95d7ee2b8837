import StandaloneDrivers.Rtl8188eu.EfuseMap
import StandaloneDrivers.Rtl8188eu.EfuseUpdate

/-! A range of the map is written packet by packet behind the log: where every header byte and
the fuse behind every packet are unprogrammed, the map has the range afterwards. -/
namespace Rtl8188eu.Efuse
open Foundations

/-- A packet at `e` finds room, unprogrammed fuses for its header, and one behind it. -/
structure Fits (content : Memory) (offset wordEn : UInt8) (e : ℕ) : Prop where
  room : e < 238
  header : ∀ a, e ≤ a → a < e + headerBytes offset → content a = 0xFF
  behind : content (e + packetBytes offset wordEn) = 0xFF

/-- The packets written for some words of a section from `e` on: one for all of them, and again
one for those that do not read back, up to the new end, or to where the room is used up. -/
inductive Takes (content : Memory) (offset : UInt8) (data : Memory) : UInt8 → ℕ → Option ℕ → Prop
  | refused {wordEn : UInt8} {e : ℕ} (full : 238 ≤ e) : Takes content offset data wordEn e none
  | whole {wordEn : UInt8} {e : ℕ} (fits : Fits content offset wordEn e)
      (good : badWords content e offset wordEn data = 0x0F) :
      Takes content offset data wordEn e (some (e + packetBytes offset wordEn))
  | again {wordEn : UInt8} {e : ℕ} {r : Option ℕ} (fits : Fits content offset wordEn e)
      (bad : badWords content e offset wordEn data ≠ 0x0F)
      (rest : Takes content offset data (badWords content e offset wordEn data)
        (e + packetBytes offset wordEn) r) : Takes content offset data wordEn e r

theorem badWords_congr {content content' : Memory} {e : ℕ} {offset wordEn : UInt8}
    {data data' : Memory} (hsame : ∀ a, e ≤ a → content' a = content a)
    (hdata : ∀ i < 8, wordEnabled wordEn (i / 2) = true → data' i = data i) :
    badWords content' e offset wordEn data' = badWords content e offset wordEn data := by
  apply maskOf_congr
  intro v hv
  exact misread_congr (fun a ha => hsame a (by omega)) hdata hv

theorem badWords_enabled {content : Memory} {e : ℕ} {offset wordEn : UInt8} {data : Memory}
    {v : ℕ} (hv : v < 4) (h : wordEnabled (badWords content e offset wordEn data) v = true) :
    wordEnabled wordEn v = true := by
  rw [badWords, maskOf_enabled _ hv, misread, Bool.and_eq_true] at h
  exact h.1

theorem Fits.congr {content content' : Memory} {offset wordEn : UInt8} {e : ℕ}
    (h : Fits content offset wordEn e) (hsame : ∀ a, e ≤ a → content' a = content a) :
    Fits content' offset wordEn e := by
  constructor
  · exact h.room
  · intro a ha ha'
    rw [hsame a ha]
    exact h.header a ha ha'
  · rw [hsame _ (by omega)]
    exact h.behind

theorem Takes.congr {content content' : Memory} {offset wordEn : UInt8} {data : Memory} {e : ℕ}
    {r : Option ℕ} (h : Takes content offset data wordEn e r)
    (hsame : ∀ a, e ≤ a → content' a = content a) : Takes content' offset data wordEn e r := by
  induction h with
  | refused full => exact Takes.refused full
  | whole fits good =>
    apply Takes.whole (fits.congr hsame)
    rw [badWords_congr hsame fun _ _ _ => rfl]
    exact good
  | again fits bad rest ih =>
    apply Takes.again (fits.congr hsame)
    · rw [badWords_congr hsame fun _ _ _ => rfl]
      exact bad
    · rw [badWords_congr hsame fun _ _ _ => rfl]
      exact ih fun a ha => hsame a (by omega)

theorem Takes.end_le {content : Memory} {offset wordEn : UInt8} {data : Memory} {e e' : ℕ}
    {r : Option ℕ} (h : Takes content offset data wordEn e r) (hr : r = some e') :
    e < e' ∧ e' ≤ 248 := by
  induction h with
  | refused full => contradiction
  | whole fits good =>
    cases hr
    have := fits.room
    rename_i wordEn e
    have := packetBytes_le offset wordEn
    have := headerBytes_pos offset
    have : headerBytes offset ≤ packetBytes offset wordEn := Nat.le_add_right _ _
    omega
  | again fits bad rest ih =>
    have := ih hr
    omega

/-- What a successful write of some words of a section leaves. -/
structure Written (s s' : EfuseState) (ps : List Packet) (e e' : ℕ) (offset wordEn : UInt8)
    (data : Memory) (qs : List Packet) : Prop where
  laid : Laid s' (ps ++ qs) e'
  before : ∀ a < e, s'.content a = s.content a
  behind : ∀ a, e' ≤ a → s'.content a = s.content a
  map : ∀ o < 64, ∀ i < 8, mapByte s'.content o i (ps ++ qs) =
    if o = offset.toNat ∧ wordEnabled wordEn (i / 2) = true then data i
    else mapByte s.content o i ps

/-- Attempt by attempt, each behind the one before. -/
theorem Takes.run {content : Memory} {offset wordEn : UInt8} {data : Memory} {e : ℕ}
    {r : Option ℕ} (h : Takes content offset data wordEn e r) (hoff : offset.toNat < 64) :
    ∀ {s : EfuseState} {ps : List Packet} {data' : Memory} {fuel : ℕ}, Laid s ps e →
      (∀ a, e ≤ a → s.content a = content a) → wordEn.toNat < 16 → wordEn ≠ 0x0F →
      (∀ i < 8, wordEnabled wordEn (i / 2) = true → data' i = data i) → e ≤ 248 →
      250 ≤ fuel + e →
      (r = none → ∃ s', halEfusePgPacketWrite fuel s offset wordEn data' = some (false, s')) ∧
      (∀ e', r = some e' → ∃ s' qs,
        halEfusePgPacketWrite fuel s offset wordEn data' = some (true, s') ∧
        Written s s' ps e e' offset wordEn data qs) := by
  induction h with
  | refused full =>
    intro s ps data' fuel hlaid _ _ _ _ he hfuel
    obtain ⟨qs, hlog⟩ := hlaid.sizeLog
    obtain ⟨fuel, rfl⟩ := Nat.exists_eq_succ_of_ne_zero (by omega : fuel ≠ 0)
    constructor
    · intro _
      exact ⟨_, halEfusePgPacketWrite_full hlog full fuel offset _ data'⟩
    · intro e' he'
      contradiction
  | @whole wordEn e fits good =>
    intro s ps data' fuel hlaid hsame hw hne hdata he hfuel
    obtain ⟨qs, hlog⟩ := hlaid.sizeLog
    obtain ⟨fuel, rfl⟩ := Nat.exists_eq_succ_of_ne_zero (by omega : fuel ≠ 0)
    have hfits := fits.congr hsame
    obtain ⟨content', p, happ, hrun⟩ := halEfusePgPacketWrite_attempt hlog hfits.room fuel data'
      hoff hw hne hfits.header
    rw [badWords_congr hsame hdata, good] at happ hrun
    rw [if_pos rfl] at hrun
    have hbytes := packetBytes_le offset wordEn
    have hroom := hfits.room
    have hstop := happ.stop
    constructor
    · intro hnone
      contradiction
    · intro e' he'
      cases he'
      refine ⟨_, [p], hrun, ?_, ?_, ?_, ?_⟩
      · rw [← hstop]
        apply hlaid.snoc (fun a ha => happ.outside a (Or.inl ha)) happ.packet
          (by rw [happ.ofSection]; exact hoff) (by omega) (by omega)
        rw [hstop, happ.outside _ (Or.inr le_rfl)]
        exact hfits.behind
      · intro a ha
        exact happ.outside a (Or.inl ha)
      · intro a ha
        exact happ.outside a (Or.inr ha)
      · intro o ho i hi
        rw [happ.mapByte_snoc hlaid.walk ho hi fun _ => void_enabled _ (by omega)]
        split
        · rename_i hheld
          exact hdata i hi hheld.2
        · rfl
  | @again wordEn e r fits bad rest ih =>
    intro s ps data' fuel hlaid hsame hw hne hdata he hfuel
    obtain ⟨qs, hlog⟩ := hlaid.sizeLog
    obtain ⟨fuel, rfl⟩ := Nat.exists_eq_succ_of_ne_zero (by omega : fuel ≠ 0)
    have hfits := fits.congr hsame
    obtain ⟨content', p, happ, hrun⟩ := halEfusePgPacketWrite_attempt hlog hfits.room fuel data'
      hoff hw hne hfits.header
    rw [badWords_congr hsame hdata] at happ hrun
    rw [if_neg bad] at hrun
    have hbytes := packetBytes_le offset wordEn
    have hpos := headerBytes_pos offset
    have hge : headerBytes offset ≤ packetBytes offset wordEn := Nat.le_add_right _ _
    have hroom := hfits.room
    have hstop := happ.stop
    have hlaid' : Laid ⟨content', e⟩ (ps ++ [p]) (e + packetBytes offset wordEn) := by
      rw [← hstop]
      apply hlaid.snoc (fun a ha => happ.outside a (Or.inl ha)) happ.packet
        (by rw [happ.ofSection]; exact hoff) (by omega) (by omega)
      rw [hstop, happ.outside _ (Or.inr le_rfl)]
      exact hfits.behind
    have hretry := @ih ⟨content', e⟩ _ _ fuel hlaid'
      (fun a ha => (happ.outside a (Or.inr ha)).trans (hsame a (by omega)))
      (maskOf_spec _ le_rfl).1 bad
      (fun i hi hei => (halEfuseConstructPGPkt_data offset wordEn data' hi
        (badWords_enabled (by omega) hei)).trans (hdata i hi (badWords_enabled (by omega) hei)))
      (by omega) (by omega)
    rw [hrun]
    refine ⟨hretry.1, ?_⟩
    intro e' he'
    obtain ⟨s', qs', hrun', hwritten⟩ := hretry.2 e' he'
    have hend := (rest.end_le he').1
    refine ⟨s', p :: qs', hrun', ?_, ?_, ?_, ?_⟩
    · have := hwritten.laid
      rwa [List.append_assoc] at this
    · intro a ha
      rw [hwritten.before a (by omega)]
      exact happ.outside a (Or.inl ha)
    · intro a ha
      rw [hwritten.behind a ha]
      exact happ.outside a (Or.inr (by omega))
    · intro o ho i hi
      have hmap := hwritten.map o ho i hi
      rw [List.append_assoc] at hmap
      rw [show ps ++ p :: qs' = ps ++ ([p] ++ qs') from rfl, hmap]
      by_cases hbad : o = offset.toNat ∧
          wordEnabled (badWords content e offset wordEn data) (i / 2) = true
      · rw [if_pos hbad, if_pos ⟨hbad.1, badWords_enabled (by omega) hbad.2⟩]
      · rw [if_neg hbad, happ.mapByte_snoc hlaid.walk ho hi fun hsec => by
          rw [← Bool.not_eq_true]
          exact fun hc => hbad ⟨hsec, hc⟩]
        split
        · rename_i hheld
          exact hdata i hi hheld.2
        · rfl

end Rtl8188eu.Efuse

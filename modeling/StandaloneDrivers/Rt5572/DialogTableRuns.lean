import StandaloneDrivers.Rt5572.DialogTable

/-! The tables of dialog tokens over every sequence of their calls, and when an insertion gives up. -/
namespace Rt5572
open Foundations ReqTab

namespace ReqTab
variable {w : ℕ} {t : ReqTab w}

def bucket (t : ReqTab w) (i : Slot) : Fin maxReqTabSize := dialogTokenHashIndex (t.dialogToken i)

/-- What the calls preserve: an entry that is not used points nowhere. -/
structure Inv (t : ReqTab w) : Prop where
  chains : ∃ lists, Filed (fun i => t.valid i = true) t.bucket lists ∧ Chained t.pNext t.hash lists
  size : t.size.toNat = (Finset.univ.filter fun i => t.valid i = true).card
  tokens : ∀ i j, t.valid i = true → t.valid j = true → t.dialogToken i = t.dialogToken j → i = j
  ends : ∀ i, ¬t.valid i = true → t.pNext i = none

theorem length_le {l : List Slot} (h : l.Nodup) : l.length ≤ maxReqTabSize := by
  have hcard := h.length_le_card
  rwa [Fintype.card_fin] at hcard

theorem init_inv : (init : ReqTab w).Inv where
  chains := by
    refine ⟨fun _ => [], ⟨?_, fun _ => List.nodup_nil⟩, fun _ => rfl⟩
    intro b i
    exact ⟨nofun, fun h => nomatch h.1⟩
  size := by
    have hnone : (Finset.univ.filter fun i => (init : ReqTab w).valid i = true) = ∅ := by
      apply Finset.filter_eq_empty_iff.mpr
      exact fun _ _ => Bool.false_ne_true
    rw [hnone]
    rfl
  tokens _ _ h := nomatch h
  ends _ _ := rfl

theorem reqLookUp_spec (h : t.Inv) (dialogToken : UInt8) :
    ∃ r, t.reqLookUp dialogToken = some r ∧
      ∀ i, r = some i ↔ t.valid i = true ∧ t.dialogToken i = dialogToken := by
  obtain ⟨lists, hfiled, hchained⟩ := h.chains
  have hwalk := (hchained (dialogTokenHashIndex dialogToken)).walk
    (fun i => t.dialogToken i = dialogToken) (length_le (hfiled.nodup _))
  have hkeyed : Filed (fun i => t.valid i = true)
    (fun i => dialogTokenHashIndex (t.dialogToken i)) lists := hfiled
  refine ⟨_, hwalk, hkeyed.find_iff ?_⟩
  intro i j hi hj htoken htoken'
  exact h.tokens i j hi hj (htoken.trans htoken'.symm)

/-- An entry that is used is taken off its chain. -/
theorem removeEntry_spec (h : t.Inv) {i : Slot} (hi : t.valid i = true) :
    ∃ t', t.removeEntry i = some t' ∧ t'.Inv ∧
      t'.content = Function.update t.content i Entry.zero := by
  obtain ⟨lists, hfiled, hchained⟩ := h.chains
  have hmem : i ∈ lists (t.bucket i) := (hfiled.mem _ i).mpr ⟨hi, rfl⟩
  obtain ⟨next', head', hunlink, hchained', hkept⟩ :=
    hchained.unlink_spec hfiled (length_le (hfiled.nodup _)) hmem
  rw [bucket] at hunlink
  refine ⟨_, by rw [removeEntry, hunlink, Option.map_some], ?_, rfl⟩
  let content' := Function.update t.content i Entry.zero
  have hother : ∀ j, j ≠ i → content' j = t.content j := fun j hj => Function.update_of_ne hj _ _
  have hlive : ∀ j, (content' j).valid = true ↔ t.valid j = true ∧ j ≠ i := by
    intro j
    by_cases hj : j = i
    · subst hj
      simp only [content', Function.update_self, Entry.zero, Bool.false_eq_true, ne_eq,
        not_true_eq_false, and_false]
    · rw [hother j hj, valid]
      exact (and_iff_left hj).symm
  have hcount := card_filter_insert (p := fun j => (content' j).valid = true)
    (q := fun j => t.valid j = true) (fun hp => ((hlive i).mp hp).2 rfl) (by
      intro j
      rw [hlive]
      constructor
      · intro hj
        by_cases hji : j = i
        · exact Or.inr hji
        · exact Or.inl ⟨hj, hji⟩
      · rintro (hj | rfl)
        · exact hj.1
        · exact hi)
  have hfiled' : Filed (fun j => (content' j).valid = true)
      (fun j => dialogTokenHashIndex (content' j).dialogToken)
      (Function.update lists (t.bucket i) ((lists (t.bucket i)).erase i)) := by
    apply hfiled.erase rfl hlive
    intro j hj
    rw [hother j ((hlive j).mp hj).2, bucket, dialogToken]
  constructor
  · refine ⟨_, hfiled', hchained'.congr ?_⟩
    intro b j hj
    exact Function.update_of_ne ((hlive j).mp ((hfiled'.mem b j).mp hj).1).2 _ _
  · have hpos : 1 ≤ t.size := by
      rw [UInt8.le_iff_toNat_le, h.size, hcount]
      exact Nat.succ_le_succ (Nat.zero_le _)
    rw [UInt8.toNat_sub_of_le _ _ hpos, h.size, hcount]
    rfl
  · intro j k hj hk htoken
    obtain ⟨hj, hji⟩ := (hlive j).mp hj
    obtain ⟨hk, hki⟩ := (hlive k).mp hk
    have htokens : (content' j).dialogToken = (content' k).dialogToken := htoken
    rw [hother j hji, hother k hki] at htokens
    exact h.tokens j k hj hk htokens
  · intro j hj
    by_cases hji : j = i
    · rw [hji]
      exact Function.update_self _ _ _
    · have hnot : ¬t.valid j = true := fun hv => hj ((hlive j).mpr ⟨hv, hji⟩)
      exact (Function.update_of_ne hji _ _).trans ((hkept j hnot).trans (h.ends j hnot))

/-- An entry that is not used is filled with a new token. -/
theorem addEntry_spec (h : t.Inv) {i : Slot} (hi : ¬t.valid i = true) {dialogToken : UInt8}
    (hnew : ∀ j, t.valid j = true → t.dialogToken j ≠ dialogToken) (stamp : ℕ) :
    ∃ t', t.addEntry dialogToken stamp i = some t' ∧ t'.Inv ∧
      t'.content = Function.update t.content i ⟨BitVec.ofNat w stamp, true, dialogToken⟩ := by
  obtain ⟨lists, hfiled, hchained⟩ := h.chains
  obtain ⟨next', head', hadd, hchained', hkept⟩ :=
    hchained.addLast_spec hfiled (b := dialogTokenHashIndex dialogToken)
      (length_le (hfiled.nodup _)) hi (h.ends i hi)
  refine ⟨_, by rw [addEntry, hadd, Option.map_some], ?_, rfl⟩
  let content' := Function.update t.content i ⟨BitVec.ofNat w stamp, true, dialogToken⟩
  have hself : content' i = ⟨BitVec.ofNat w stamp, true, dialogToken⟩ := Function.update_self _ _ _
  have hother : ∀ j, j ≠ i → content' j = t.content j := fun j hj => Function.update_of_ne hj _ _
  have hne : ∀ j, t.valid j = true → j ≠ i := by
    rintro j hj rfl
    exact hi hj
  have hlive : ∀ j, (content' j).valid = true ↔ t.valid j = true ∨ j = i := by
    intro j
    by_cases hj : j = i
    · subst hj
      rw [hself]
      exact ⟨fun _ => Or.inr rfl, fun _ => rfl⟩
    · rw [hother j hj, valid]
      exact (or_iff_left hj).symm
  have hcount := card_filter_insert (p := fun j => t.valid j = true)
    (q := fun j => (content' j).valid = true) hi hlive
  have hfiled' : Filed (fun j => (content' j).valid = true)
      (fun j => dialogTokenHashIndex (content' j).dialogToken)
      (Function.update lists (dialogTokenHashIndex dialogToken)
        (lists (dialogTokenHashIndex dialogToken) ++ [i])) := by
    apply hfiled.append hi hlive
    · intro j hj
      rw [hother j (hne j hj), bucket, ReqTab.dialogToken]
    · rw [hself]
  constructor
  · exact ⟨_, hfiled', hchained'⟩
  · have hle : (Finset.univ.filter fun j => (content' j).valid = true).card ≤ maxReqTabSize := by
      have hcard := Finset.card_le_univ (Finset.univ.filter fun j => (content' j).valid = true)
      rwa [Fintype.card_fin] at hcard
    change (t.size + 1).toNat = (Finset.univ.filter fun j => (content' j).valid = true).card
    rw [UInt8.toNat_add, h.size, hcount]
    rw [hcount] at hle
    exact Nat.mod_eq_of_lt (Nat.lt_of_le_of_lt hle (by decide))
  · intro j k hj hk htoken
    have htokens : (content' j).dialogToken = (content' k).dialogToken := htoken
    by_cases hji : j = i
    · by_cases hki : k = i
      · rw [hji, hki]
      · have hold := ((hlive k).mp hk).resolve_right hki
        rw [hji, hself, hother k hki] at htokens
        exact absurd htokens.symm (hnew k hold)
    · have hold := ((hlive j).mp hj).resolve_right hji
      by_cases hki : k = i
      · rw [hki, hself, hother j hji] at htokens
        exact absurd htokens (hnew j hold)
      · rw [hother j hji, hother k hki] at htokens
        exact h.tokens j k hold (((hlive k).mp hk).resolve_right hki) htokens
  · intro j hj
    have hnot : ¬t.valid j = true := fun hv => hj ((hlive j).mpr (Or.inl hv))
    exact (hkept j hnot).trans (h.ends j hnot)

/-- What an insertion does. -/
inductive Inserted (t : ReqTab w) (ageOut : ℕ) (times : Times) (dialogToken : UInt8) :
    ReqTab w → Option Slot → Prop
  | found {i : Slot} (hvalid : t.valid i = true) (htoken : t.dialogToken i = dialogToken) :
      Inserted t ageOut times dialogToken t (some i)
  | full (hnew : ∀ i, t.valid i = true → t.dialogToken i ≠ dialogToken)
      (hvalid : ∀ i, t.valid i = true) (hfresh : ∀ i, ¬t.aged ageOut (times.search i) i = true) :
      Inserted t ageOut times dialogToken t none
  | placed {i : Slot} {t' : ReqTab w} (hnew : ∀ j, t.valid j = true → t.dialogToken j ≠ dialogToken)
      (hplace : t.aged ageOut (times.search i) i = true ∨ ¬t.valid i = true)
      (hcontent : t'.content =
        Function.update t.content i ⟨BitVec.ofNat w times.stamp, true, dialogToken⟩)
      (hinv : t'.Inv) : Inserted t ageOut times dialogToken t' (some i)

theorem reqInsert_spec (h : t.Inv) (ageOut : ℕ) (times : Times) (dialogToken : UInt8) :
    ∃ t' r, t.reqInsert ageOut times dialogToken = some (t', r) ∧
      t.Inserted ageOut times dialogToken t' r := by
  obtain ⟨r, hlookUp, hfound⟩ := reqLookUp_spec h dialogToken
  simp only [reqInsert, hlookUp, Option.bind_some]
  cases r with
  | some i =>
    obtain ⟨hvalid, htoken⟩ := (hfound i).mp rfl
    exact ⟨t, some i, rfl, .found hvalid htoken⟩
  | none =>
    have hnew : ∀ j, t.valid j = true → t.dialogToken j ≠ dialogToken :=
      fun j hj htoken => nomatch (hfound j).mpr ⟨hj, htoken⟩
    cases hplace : t.place ageOut times with
    | none =>
      have hall := List.find?_eq_none.mp hplace
      simp only [Bool.or_eq_true, Bool.not_eq_true', not_or, Bool.not_eq_false] at hall
      exact ⟨t, none, rfl, .full hnew (fun i => (hall i (List.mem_finRange i)).2)
        fun i => (hall i (List.mem_finRange i)).1⟩
    | some i =>
      have hends := List.find?_some hplace
      by_cases haged : t.aged ageOut (times.search i) i = true
      · have hvalid : t.valid i = true := by
          rw [aged, Bool.and_eq_true] at haged
          exact haged.1
        obtain ⟨t₁, hremove, hinv₁, hcontent₁⟩ := removeEntry_spec h hvalid
        have hgone : ¬t₁.valid i = true := by
          rw [valid, hcontent₁, Function.update_self]
          exact Bool.false_ne_true
        have hnew₁ : ∀ j, t₁.valid j = true → t₁.dialogToken j ≠ dialogToken := by
          intro j hj
          have hji : j ≠ i := by
            rintro rfl
            exact hgone hj
          rw [valid, hcontent₁, Function.update_of_ne hji] at hj
          rw [ReqTab.dialogToken, hcontent₁, Function.update_of_ne hji]
          exact hnew j hj
        obtain ⟨t₂, hadd, hinv₂, hcontent₂⟩ := addEntry_spec hinv₁ hgone hnew₁ times.stamp
        rw [hcontent₁, Function.update_idem] at hcontent₂
        refine ⟨t₂, some i, ?_, .placed hnew (Or.inl haged) hcontent₂ hinv₂⟩
        simp only [haged, if_true, hremove, Option.bind_some, hadd, Option.map_some]
      · have hvacant : ¬t.valid i = true := by
          rw [Bool.or_eq_true, Bool.not_eq_true'] at hends
          exact Bool.not_eq_true _ ▸ hends.resolve_left haged
        obtain ⟨t₁, hadd, hinv₁, hcontent₁⟩ := addEntry_spec h hvacant hnew times.stamp
        refine ⟨t₁, some i, ?_, .placed hnew (Or.inr hvacant) hcontent₁ hinv₁⟩
        simp only [if_neg haged, Option.bind_some, hadd, Option.map_some]

/-- A deletion leaves the other entries as they are. -/
theorem reqDelete_spec (h : t.Inv) (dialogToken : UInt8) :
    ∃ t', t.reqDelete dialogToken = some t' ∧ t'.Inv ∧
      ∀ i, t'.valid i = true → t'.content i = t.content i := by
  by_cases hempty : t.size = 0
  · exact ⟨t, by rw [reqDelete, if_pos hempty], h, fun _ _ => rfl⟩
  · obtain ⟨r, hlookUp, hfound⟩ := reqLookUp_spec h dialogToken
    simp only [reqDelete, if_neg hempty, hlookUp, Option.bind_some]
    cases r with
    | none => exact ⟨t, rfl, h, fun _ _ => rfl⟩
    | some i =>
      obtain ⟨t', hremove, hinv, hcontent⟩ := removeEntry_spec h ((hfound i).mp rfl).1
      refine ⟨t', hremove, hinv, fun j hj => ?_⟩
      have hji : j ≠ i := by
        rintro rfl
        rw [valid, hcontent, Function.update_self] at hj
        exact Bool.false_ne_true hj
      rw [hcontent, Function.update_of_ne hji]

end ReqTab

section Clock

/-- Which half of the period a difference lies in, by the number that was taken away. -/
theorem upperHalf_iff {half a n v : ℕ} (ha : a < half) (hv : v < 2 * half)
    (heq : v + n ≡ a [MOD 2 * half]) : half ≤ v ↔ a < n ∧ (n - a - 1) % (2 * half) < half := by
  by_cases hn : a < n
  · obtain ⟨m, rfl⟩ : ∃ m, n = a + (m + 1) := ⟨n - a - 1, by omega⟩
    have hzero : v + (m + 1) ≡ 0 [MOD 2 * half] := by
      apply Nat.ModEq.add_left_cancel' a
      rwa [Nat.add_left_comm]
    obtain ⟨k, hk⟩ := (Nat.modEq_zero_iff_dvd).mp hzero
    obtain ⟨k, rfl⟩ : ∃ j, k = j + 1 := by
      apply Nat.exists_eq_succ_of_ne_zero
      rintro rfl
      omega
    have hm : m = 2 * half * k + (2 * half - 1 - v) := by
      rw [Nat.mul_succ] at hk
      omega
    have hrest : (a + (m + 1) - a - 1) % (2 * half) = 2 * half - 1 - v := by
      rw [Nat.add_sub_cancel_left, Nat.add_sub_cancel, hm, Nat.mul_add_mod,
        Nat.mod_eq_of_lt (by omega)]
    rw [hrest]
    omega
  · obtain ⟨d, rfl⟩ := Nat.exists_eq_add_of_le (Nat.not_lt.mp hn)
    have hd : v ≡ d [MOD 2 * half] := by
      apply Nat.ModEq.add_right_cancel' n
      rwa [Nat.add_comm d]
    rw [Nat.ModEq, Nat.mod_eq_of_lt hv, Nat.mod_eq_of_lt (by omega)] at hd
    omega

/-- The time of expiry lies in the past half of the clock's period. -/
theorem rtmpTimeAfter_iff (c : Jiffies) (kind : ReqKind) (since n : ℕ) :
    rtmpTimeAfter (BitVec.ofNat c.bits (since + n))
        (BitVec.ofNat c.bits since + BitVec.ofNat c.bits kind.ageOut) = true ↔
      ReqWorld.Expired c kind n := by
  have hbits := c.bits_ge
  have hperiod : 2 ^ c.bits = 2 * 2 ^ (c.bits - 1) := by
    rw [← Nat.pow_succ', Nat.succ_eq_add_one, Nat.sub_add_cancel (by omega)]
  have hhalf : 2 ^ 31 ≤ 2 ^ (c.bits - 1) := Nat.pow_le_pow_right (by decide) (by omega)
  have hage : kind.ageOut < 2 ^ (c.bits - 1) := by
    apply Nat.lt_of_lt_of_le _ hhalf
    cases kind <;> decide
  generalize hd : BitVec.ofNat c.bits since + BitVec.ofNat c.bits kind.ageOut -
    BitVec.ofNat c.bits (since + n) = d
  have hback : d + BitVec.ofNat c.bits (since + n) =
      BitVec.ofNat c.bits since + BitVec.ofNat c.bits kind.ageOut := by
    rw [← hd, BitVec.sub_add_cancel]
  have hmod : d.toNat + n ≡ kind.ageOut [MOD 2 * 2 ^ (c.bits - 1)] := by
    have hnat := congrArg BitVec.toNat hback
    simp only [BitVec.toNat_add, BitVec.toNat_ofNat, Nat.add_mod_mod, Nat.mod_add_mod] at hnat
    rw [← hperiod]
    apply Nat.ModEq.add_left_cancel' since
    rw [Nat.add_left_comm]
    exact hnat
  rw [rtmpTimeAfter, hd, BitVec.msb_eq_decide, decide_eq_true_eq,
    upperHalf_iff hage (hperiod ▸ d.isLt) hmod, ReqWorld.Expired, hperiod]

end Clock

namespace ReqWorld
variable {c : Jiffies} {kind : ReqKind} {s : ReqWorld c}

theorem lookUp_eq (kind : ReqKind) : lookUp (c := c) kind = ReqTab.reqLookUp := by cases kind <;> rfl

theorem insert_eq (kind : ReqKind) (t : ReqTab c.bits) (times : Times) (dialogToken : UInt8) :
    insert kind t times dialogToken = t.reqInsert kind.ageOut times dialogToken := by
  cases kind <;> rfl

theorem delete_eq (kind : ReqKind) : delete (c := c) kind = ReqTab.reqDelete := by cases kind <;> rfl

/-- What the calls preserve: a stamp is the time of the insertion, which has passed. -/
structure Inv (s : ReqWorld c) : Prop where
  tab : s.tab.Inv
  stamps : ∀ i, s.tab.valid i = true →
    s.since i ≤ s.now ∧ (s.tab.content i).lastTime = BitVec.ofNat c.bits (s.since i)

theorem step_inv (h : s.Inv) {call : ReqCall} (hclock : call.From s.now) :
    ∃ s', s.step kind call = some s' ∧ s'.Inv := by
  cases call with
  | lookUp dialogToken =>
    obtain ⟨r, hlookUp, -⟩ := reqLookUp_spec h.tab dialogToken
    exact ⟨s, by rw [step, lookUp_eq, hlookUp, Option.map_some], h⟩
  | delete dialogToken =>
    obtain ⟨t, hdelete, hinv, hsame⟩ := reqDelete_spec h.tab dialogToken
    refine ⟨_, by rw [step, delete_eq, hdelete, Option.map_some], hinv, fun i hi => ?_⟩
    have hcontent := hsame i hi
    change (t.content i).valid = true at hi
    rw [hcontent] at hi ⊢
    exact h.stamps i hi
  | insert times dialogToken =>
    obtain ⟨t, r, hinsert, hcase⟩ := reqInsert_spec h.tab kind.ageOut times dialogToken
    have hpast : s.now ≤ times.stamp := (hclock 0).trans (times.search_le 0)
    have hkept : ∀ i, s.tab.valid i = true →
        s.since i ≤ times.stamp ∧ (s.tab.content i).lastTime = BitVec.ofNat c.bits (s.since i) :=
      fun i hi => ⟨(h.stamps i hi).1.trans hpast, (h.stamps i hi).2⟩
    refine ⟨_, by rw [step, insert_eq, hinsert, Option.map_some], ?_⟩
    cases hcase with
    | found hvalid htoken =>
      refine ⟨h.tab, ?_⟩
      simp only [stamped, hvalid, htoken, and_self, if_true]
      exact hkept
    | full hnew hvalid hfresh => exact ⟨h.tab, hkept⟩
    | @placed i t hnew hplace hcontent hinv =>
      have hother : ¬(s.tab.valid i = true ∧ s.tab.dialogToken i = dialogToken) :=
        fun hsame => hnew i hsame.1 hsame.2
      refine ⟨hinv, fun j hj => ?_⟩
      simp only [stamped, if_neg hother]
      by_cases hji : j = i
      · subst hji
        rw [hcontent, Function.update_self, Function.update_self]
        exact ⟨Nat.le_refl _, rfl⟩
      · change (t.content j).valid = true at hj
        rw [hcontent, Function.update_of_ne hji] at hj ⊢
        rw [Function.update_of_ne hji]
        exact hkept j hj

theorem Reached.inv (h : Reached kind s) : s.Inv := by
  induction h with
  | init => exact ⟨init_inv, fun _ hi => nomatch hi⟩
  | step h hclock hstep ih =>
    obtain ⟨s', heq, hinv⟩ := step_inv ih hclock
    rw [hstep] at heq
    rwa [Option.some.inj heq]

theorem Inv.sound (h : s.Inv) : s.Sound where
  size := h.tab.size
  chains b := by
    obtain ⟨lists, hfiled, hchained⟩ := h.tab.chains
    exact ⟨lists b, hchained b, hfiled.nodup b, hfiled.mem b⟩
  tokens := h.tab.tokens
  walks kind dialogToken := by
    rw [lookUp_eq]
    exact reqLookUp_spec h.tab dialogToken

/-- An entry is replaced at the ages at which it is taken for aged. -/
theorem aged_iff (h : s.Inv) (kind : ReqKind) {times : Times} {i : Slot} (hi : s.tab.valid i = true)
    (hpast : s.now ≤ times.search i) :
    s.tab.aged kind.ageOut (times.search i) i = true ↔ Expired c kind (s.age times i) := by
  obtain ⟨hsince, hlast⟩ := h.stamps i hi
  have hage : times.search i = s.since i + s.age times i :=
    (Nat.add_sub_cancel' (hsince.trans hpast)).symm
  rw [aged, hi, Bool.true_and, hlast]
  nth_rewrite 1 [hage]
  exact rtmpTimeAfter_iff c kind _ _

theorem insertMeets_iff (h : s.Inv) {times : Times} {dialogToken : UInt8}
    (hclock : (ReqCall.insert times dialogToken).From s.now) :
    s.Meets kind (.insert times dialogToken) ↔ s.Timely kind (.insert times dialogToken) := by
  obtain ⟨t, r, hinsert, hcase⟩ := reqInsert_spec h.tab kind.ageOut times dialogToken
  constructor
  · intro hmeets hall hold
    by_contra hnone
    have hfresh : ∀ i, ¬s.tab.aged kind.ageOut (times.search i) i = true :=
      fun i haged => hnone ⟨i, (aged_iff h kind (hall i).1 (hclock i)).mp haged⟩
    cases hcase with
    | found hvalid htoken => exact (hall _).2 htoken
    | placed hnew hplace _ _ => exact hplace.elim (hfresh _) fun hvacant => hvacant (hall _).1
    | full _ _ _ =>
      obtain ⟨i, hi⟩ := hold
      exact (hmeets s.tab (by rw [insert_eq, hinsert])).2 i hi
  · intro htimely t' hfull
    rw [insert_eq, hinsert] at hfull
    obtain ⟨rfl, rfl⟩ := Prod.mk.inj (Option.some.inj hfull)
    cases hcase with
    | full hnew hvalid hfresh =>
      refine ⟨hvalid, fun i hold => ?_⟩
      obtain ⟨j, hexpired⟩ := htimely (fun j => ⟨hvalid j, hnew j (hvalid j)⟩) ⟨i, hold⟩
      exact hfresh j ((aged_iff h kind (hvalid j) (hclock j)).mpr hexpired)

/-- After every sequence of calls the table is in order and the next call ends; an insertion gives up
when it may, as long as the ages meet the condition. -/
theorem reqTab_sound_iff (c : Jiffies) (kind : ReqKind) (s : ReqWorld c) (h : Reached kind s)
    (call : ReqCall) (hclock : call.From s.now) :
    s.Sound ∧ (∃ s', s.step kind call = some s') ∧ (s.Meets kind call ↔ s.Timely kind call) := by
  have hinv := h.inv
  refine ⟨hinv.sound, ?_, ?_⟩
  · have hruns : ∃ s', s.step kind call = some s' ∧ s'.Inv := step_inv hinv hclock
    obtain ⟨s', hstep, -⟩ := hruns
    exact ⟨s', hstep⟩
  · cases call with
    | lookUp dialogToken => exact Iff.rfl
    | delete dialogToken => exact Iff.rfl
    | insert times dialogToken => exact insertMeets_iff hinv hclock

/-- A clock of 100 ticks in a second. -/
def hundredHz : Jiffies := ⟨32, Nat.le_refl 32, 100⟩

/-- The clock stands while a call runs. -/
def Times.still (now : ℕ) : Times :=
  ⟨fun _ => now, now, fun _ _ _ => Nat.le_refl now, fun _ => Nat.le_refl now⟩

/-- The tokens below `k` were inserted at 0. -/
def filled (k : ℕ) : ReqWorld hundredHz where
  tab :=
    { size := UInt8.ofNat k
      hash := fun b => if b.val < k then some b else none
      content := fun i => if i.val < k then ⟨0, true, UInt8.ofNat i⟩ else Entry.zero
      pNext := fun _ => none }
  since := fun _ => 0
  now := 0

theorem filled_place (k : Slot) : (filled k).tab.place 500 (Times.still 0) = some k := by
  revert k
  decide

theorem dialogTokenHashIndex_ofNat (k : Slot) : dialogTokenHashIndex (UInt8.ofNat k) = k := by
  revert k
  decide

theorem update_below {α : Type*} (f g : Slot → α) (k : Slot) :
    Function.update (fun i => if i.val < k.val then f i else g i) k (f k) =
      fun i => if i.val < k.val + 1 then f i else g i := by
  funext i
  by_cases hi : i = k
  · rw [hi, Function.update_self, if_pos (Nat.lt_succ_self _)]
  · rw [Function.update_of_ne hi]
    have hne : i.val ≠ k.val := fun h => hi (Fin.ext h)
    by_cases hlt : i.val < k.val
    · rw [if_pos hlt, if_pos (Nat.lt_succ_of_lt hlt)]
    · rw [if_neg hlt, if_neg (by omega)]

theorem filled_step (kind : ReqKind) (k : Slot) :
    (filled k).step kind (.insert (Times.still 0) (UInt8.ofNat k)) = some (filled (k + 1)) := by
  have hlookUp : (filled k).tab.reqLookUp (UInt8.ofNat k) = some none := by
    rw [reqLookUp, dialogTokenHashIndex_ofNat]
    simp only [filled, Nat.lt_irrefl, if_false, walk]
  have hage : kind.ageOut = 500 := by cases kind <;> rfl
  have hvacant : (filled k).tab.valid k = false := by
    simp only [valid, filled, Nat.lt_irrefl, if_false, Entry.zero]
  have haged : (filled k).tab.aged 500 ((Times.still 0).search k) k = false := by
    rw [aged, hvacant, Bool.false_and]
  have hadd : (filled k).tab.addEntry (UInt8.ofNat k) (Times.still 0).stamp k =
      some (filled (k + 1)).tab := by
    have hempty : (filled k).tab.hash k = none := by
      simp only [filled, Nat.lt_irrefl, if_false]
    have hsize : UInt8.ofNat k + 1 = UInt8.ofNat (k + 1) := by
      rw [UInt8.ofNat_add]
      rfl
    simp only [addEntry, dialogTokenHashIndex_ofNat, Chained.addLast, hempty, Option.map_some]
    simp only [filled, hsize]
    rw [update_below (fun i => some i) (fun _ => none) k]
    exact congrArg (fun content => some (ReqTab.mk _ _ content _))
      (update_below (fun i => (⟨0, true, UInt8.ofNat i.val⟩ : Entry hundredHz.bits)) _ k)
  have hinsert : insert kind (filled k).tab (Times.still 0) (UInt8.ofNat k) =
      some ((filled (k + 1)).tab, some k) := by
    simp only [insert_eq, hage, reqInsert, hlookUp, Option.bind_some, filled_place, haged,
      Bool.false_eq_true, if_false, hadd, Option.map_some]
  have hsince : (filled k).stamped (Times.still 0) (UInt8.ofNat k) (some k) = fun _ => 0 := by
    simp only [stamped, hvacant, Bool.false_eq_true, false_and, if_false]
    exact Function.update_eq_self k _
  rw [step, hinsert, Option.map_some]
  simp only [hsince]
  rfl

theorem filled_reached (kind : ReqKind) {k : ℕ} (hk : k ≤ maxReqTabSize) :
    Reached kind (filled k) := by
  induction k with
  | zero =>
    have hinit : filled 0 = init hundredHz := by
      simp only [filled, Nat.not_lt_zero, if_false]
      rfl
    rw [hinit]
    exact .init
  | succ k ih =>
    apply Reached.step (ih (Nat.le_of_succ_le hk)) _ (filled_step kind ⟨k, hk⟩)
    exact fun _ => Nat.le_refl 0

theorem filled_gives_up (kind : ReqKind) :
    ¬(filled 32).Meets kind (.insert (Times.still 100) 32) := by
  intro hmeets
  have hclock : (ReqCall.insert (Times.still 100) 32).From (filled 32).now :=
    fun _ => Nat.zero_le 100
  have htimely := (insertMeets_iff (filled_reached kind (Nat.le_refl 32)).inv hclock).mp hmeets
  have hage : kind.ageOut = 500 := by cases kind <;> rfl
  have hfull : ∀ i : Slot, (filled 32).tab.valid i = true ∧ (filled 32).tab.dialogToken i ≠ 32 := by
    decide
  obtain ⟨i, hlt, -⟩ := htimely hfull ⟨0, by rw [Older, hage]; decide⟩
  rw [hage] at hlt
  exact absurd hlt (by decide : ¬500 < 100)

theorem filled_sound : (filled 32).Sound ∧
    (∃ s', (filled 32).step .measure (.insert (Times.still 100) 32) = some s') ∧
      ((filled 32).Meets .measure (.insert (Times.still 100) 32) ↔
        (filled 32).Timely .measure (.insert (Times.still 100) 32)) :=
  reqTab_sound_iff hundredHz .measure (filled 32) (filled_reached .measure (Nat.le_refl 32))
    (.insert (Times.still 100) 32) fun _ => Nat.zero_le 100

/-- A second after 32 insertions the tables are full, and no entry is replaced. -/
theorem filled_unsound :
    (Reached .measure (filled 32) ∧ ¬(filled 32).Meets .measure (.insert (Times.still 100) 32)) ∧
      Reached .tpc (filled 32) ∧ ¬(filled 32).Meets .tpc (.insert (Times.still 100) 32) :=
  ⟨⟨filled_reached .measure (Nat.le_refl 32), filled_gives_up .measure⟩,
    filled_reached .tpc (Nat.le_refl 32), filled_gives_up .tpc⟩

end ReqWorld
end Rt5572

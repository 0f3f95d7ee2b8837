import StandaloneDrivers.Rtl8188eu.RecvFrame
import StandaloneDrivers.Rtl8188eu.RecvLog
import StandaloneDrivers.Rtl8188eu.RecvPlaces

/-! The controlled port: what is handed up of stations that are blocked. -/
namespace Rtl8188eu
open Foundations

/-- The EtherType of an Ethernet frame is that of EAPOL. -/
def isEapol (msdu : List UInt8) : Bool := be16 msdu 12 == 0x888e

namespace RecvFrame

/-- What is handed up of a frame that is taken off a reorder queue. -/
def msdus (f : RecvFrame) : List (List UInt8) :=
  if f.attrib.amsdu then amsduToMsdu f else [f.data]

def eapol (f : RecvFrame) : Bool := f.msdus.all isEapol

/-- What is to be handed up of a frame that comes to the port is EAPOL. -/
def eapolOnly (f : RecvFrame) (mlme : MlmePriv) : Bool :=
  if mlme.htOption then f.converted.eapol else isEapol (wlanhdrToEthhdr f).data

theorem converted_ta (f : RecvFrame) : f.converted.attrib.ta = f.attrib.ta := by
  unfold converted
  split
  · rfl
  · obtain ⟨ethType, h⟩ := wlanhdrToEthhdr_attrib f
    rw [h]

theorem converted_amsdu (f : RecvFrame) : f.converted.attrib.amsdu = f.attrib.amsdu := by
  unfold converted
  split
  · rfl
  · obtain ⟨ethType, h⟩ := wlanhdrToEthhdr_attrib f
    rw [h]

end RecvFrame

namespace StaPriv

/-- The station of an address is blocked. -/
def blocked (stapriv : StaPriv) (ta : MacAddr) : Bool :=
  (stapriv.station ta).any StaInfo.ieee8021xBlocked

/-- The frames in the reorder queues. -/
def pending (stapriv : StaPriv) : List RecvFrame :=
  stapriv.stainfo.flatMap fun psta => psta.recvreorderCtrl.toList.flatMap RecvReorderCtrl.pending

theorem blocked_congr {a b : StaPriv} (hhash : b.staHash = a.staHash)
    (hkeys : (b.stainfo.map fun psta => (psta.hwaddr, psta.ieee8021xBlocked)) =
      a.stainfo.map fun psta => (psta.hwaddr, psta.ieee8021xBlocked)) : b.blocked = a.blocked := by
  have hget (i : ℕ) : ((b.stainfo[i]?).map fun psta => (psta.hwaddr, psta.ieee8021xBlocked)) =
      (a.stainfo[i]?).map fun psta => (psta.hwaddr, psta.ieee8021xBlocked) := by
    rw [← List.getElem?_map, hkeys, List.getElem?_map]
  have hany (i : ℕ) (p : MacAddr × Bool → Bool) :
      ((b.stainfo[i]?).any fun psta => p (psta.hwaddr, psta.ieee8021xBlocked)) =
        (a.stainfo[i]?).any fun psta => p (psta.hwaddr, psta.ieee8021xBlocked) := by
    have h := congrArg (Option.any p) (hget i)
    simpa only [Option.any_map] using h
  funext ta
  have hfind : b.rtwGetStainfo (some ta) = a.rtwGetStainfo (some ta) := by
    simp only [rtwGetStainfo, Option.bind_some, hhash]
    congr 1
    funext i
    exact hany i fun key => key.1 == searched ta
  simp only [blocked, station, hfind]
  cases a.rtwGetStainfo (some ta) with
  | none => rfl
  | some i => exact hany i fun key => key.2

/-- The same stations are blocked, and no frame has come to a reorder queue. -/
structure Calm (a b : StaPriv) : Prop where
  blocked : b.blocked = a.blocked
  pending : ∀ f ∈ b.pending, f ∈ a.pending

namespace Calm

theorem refl (a : StaPriv) : Calm a a := ⟨rfl, fun _ hf => hf⟩

theorem trans {a b c : StaPriv} (h : Calm a b) (h' : Calm b c) : Calm a c :=
  ⟨h'.blocked.trans h.blocked, fun f hf => h.pending f (h'.pending f hf)⟩

end Calm

theorem modify_blocked (stapriv : StaPriv) (i : ℕ) {g : StaInfo → StaInfo}
    (hkey : ∀ psta, (g psta).hwaddr = psta.hwaddr ∧
      (g psta).ieee8021xBlocked = psta.ieee8021xBlocked) :
    (stapriv.modify i g).blocked = stapriv.blocked := by
  apply blocked_congr
  · rfl
  · unfold modify
    dsimp only
    induction stapriv.stainfo generalizing i with
    | nil => cases i <;> rfl
    | cons psta stainfo ih =>
      cases i with
      | zero =>
        rw [List.modify_zero_cons, List.map_cons, List.map_cons, (hkey psta).1, (hkey psta).2]
      | succ i => rw [List.modify_succ_cons, List.map_cons, List.map_cons, ih]

theorem modify_pending {stapriv : StaPriv} {i : ℕ} {g : StaInfo → StaInfo} {f : RecvFrame}
    (hf : f ∈ (stapriv.modify i g).pending) : f ∈ stapriv.pending ∨ ∃ psta,
      stapriv.stainfo[i]? = some psta ∧
        f ∈ (g psta).recvreorderCtrl.toList.flatMap RecvReorderCtrl.pending := by
  obtain ⟨psta, hmem, hpsta⟩ := List.mem_flatMap.mp hf
  obtain ⟨j, hj⟩ := List.mem_iff_getElem?.mp hmem
  rw [modify, List.getElem?_modify] at hj
  split at hj
  · rename_i hij
    rw [← hij] at hj
    obtain ⟨old, hold, rfl⟩ := Option.map_eq_some_iff.mp hj
    exact Or.inr ⟨old, hold, hpsta⟩
  · obtain ⟨old, hold, rfl⟩ := Option.map_eq_some_iff.mp hj
    exact Or.inl (List.mem_flatMap.mpr ⟨_, List.mem_of_getElem? hold, hpsta⟩)

/-- A change of a station that leaves its address, its port and its reorder queues alone. -/
theorem calm_modify (stapriv : StaPriv) (i : ℕ) {g : StaInfo → StaInfo}
    (hkey : ∀ psta, (g psta).hwaddr = psta.hwaddr ∧
      (g psta).ieee8021xBlocked = psta.ieee8021xBlocked)
    (hctrl : ∀ psta, (g psta).recvreorderCtrl = psta.recvreorderCtrl) :
    Calm stapriv (stapriv.modify i g) where
  blocked := modify_blocked stapriv i hkey
  pending f hf := by
    rcases modify_pending hf with hold | ⟨psta, hpsta, hnew⟩
    · exact hold
    · rw [hctrl] at hnew
      exact List.mem_flatMap.mpr ⟨psta, List.mem_of_getElem? hpsta, hnew⟩

theorem calm_listDelete (stapriv : StaPriv) (id : ℕ) : Calm stapriv (stapriv.listDelete id) where
  blocked := by
    apply blocked_congr
    · rfl
    · rw [listDelete, List.map_map]
      rfl
  pending f hf := by
    obtain ⟨psta, hmem, hpsta⟩ := List.mem_flatMap.mp hf
    obtain ⟨old, hold, rfl⟩ := List.mem_map.mp hmem
    obtain ⟨c, hc, hfc⟩ := List.mem_flatMap.mp hpsta
    rw [StaInfo.listDelete, Vector.toList_map] at hc
    obtain ⟨cold, hcold, rfl⟩ := List.mem_map.mp hc
    exact List.mem_flatMap.mpr ⟨old, hold,
      List.mem_flatMap.mpr ⟨cold, hcold, (List.mem_filter.mp hfc).1⟩⟩

theorem calm_setDefragQ (stapriv : StaPriv) (i : ℕ) (q : List RecvFrame) :
    Calm stapriv (stapriv.setDefragQ i q) :=
  calm_modify stapriv i (fun _ => ⟨rfl, rfl⟩) fun _ => rfl

theorem calm_recvframeChkDefrag (stapriv : StaPriv) (sec : SecurityPriv) (f : RecvFrame) :
    Calm stapriv (stapriv.recvframeChkDefrag sec f).1 := by
  have hqueue : Calm stapriv (stapriv.queueFragment f).1 := by
    unfold queueFragment
    split
    · split
      · exact Calm.refl _
      · split <;> exact calm_setDefragQ _ _ _
    · split
      · split
        · exact Calm.refl _
        · exact calm_setDefragQ _ _ _
      · exact Calm.refl _
  unfold recvframeChkDefrag
  dsimp only
  split
  · exact hqueue
  · split
    · split <;> exact hqueue
    · exact hqueue

theorem calm_validateRecvDataFrame {mlme : MlmePriv} {sec : SecurityPriv}
    {stapriv stapriv' : StaPriv} {f g : RecvFrame}
    (h : validateRecvDataFrame mlme sec stapriv f = some (stapriv', g)) :
    Calm stapriv stapriv' := by
  unfold validateRecvDataFrame at h
  dsimp only at h
  split at h
  · obtain ⟨psta, -, hmap⟩ := Option.bind_eq_some_iff.mp h
    obtain ⟨next, hnext, hpair⟩ := Option.map_eq_some_iff.mp hmap
    cases hpair
    obtain ⟨psta', hpsta, hdecache⟩ := Option.bind_eq_some_iff.mp hnext
    split at hdecache
    · cases hdecache
    · cases hdecache
      exact calm_modify stapriv _ (fun _ => ⟨rfl, rfl⟩) fun _ => rfl
  · cases h

end StaPriv

/-- What an act of the receive path hands up of a blocked station is EAPOL. -/
def RecvAct.Controlled (blocked : MacAddr → Bool) : RecvAct → Prop
  | .indicated f => blocked f.attrib.ta = true → isEapol f.data = true
  | .split f => blocked f.attrib.ta = true → (amsduToMsdu f).all isEapol = true
  | _ => True

instance (blocked : MacAddr → Bool) : DecidablePred (RecvAct.Controlled blocked)
  | .indicated _ | .split _ => show Decidable (_ = true → _ = true) from inferInstance
  | .received _ | .mgnt _ _ _ | .opened _ _ _ | .joined _ | .checked _ _ _ | .port _ _ _ _ _
  | .freed _ => isTrue trivial

def Act.Controlled (blocked : MacAddr → Bool) : Act → Prop
  | .indicated f => (RecvAct.indicated f).Controlled blocked
  | .split f => (RecvAct.split f).Controlled blocked
  | _ => True

/-- A frame in a reorder queue may be handed up. -/
def RecvFrame.Controlled (blocked : MacAddr → Bool) (f : RecvFrame) : Prop :=
  blocked f.attrib.ta = true → f.eapol = true

section
variable {blocked : MacAddr → Bool} {c : RecvReorderCtrl} {flags : DriverFlags} {f : RecvFrame}

theorem indicated_controlled (hf : f.Controlled blocked) (hamsdu : f.attrib.amsdu = false) :
    (Act.indicated f).Controlled blocked := by
  intro hblocked
  simpa [RecvFrame.eapol, RecvFrame.msdus, hamsdu] using hf hblocked

theorem split_controlled (hf : f.Controlled blocked) (hamsdu : f.attrib.amsdu = true) :
    (Act.split f).Controlled blocked := by
  intro hblocked
  simpa [RecvFrame.eapol, RecvFrame.msdus, hamsdu] using hf hblocked

theorem indicateAct_controlled (hf : f.Controlled blocked) :
    (indicateAct flags f).Controlled blocked := by
  unfold indicateAct
  cases hamsdu : f.attrib.amsdu with
  | true =>
    rw [if_pos rfl]
    exact split_controlled hf hamsdu
  | false =>
    rw [if_neg (by simp)]
    split
    · exact indicated_controlled hf hamsdu
    · trivial

namespace RecvReorderCtrl

theorem moved_controlled {act : Act} (h : act.frame = none) : act.Controlled blocked := by
  cases act with
  | moved seq => trivial
  | indicated f => cases h
  | split f => cases h
  | forgotten f => cases h

/-- What comes from the queue only. -/
theorem moves_controlled {o : Outcome} (hmoves : Moves flags [] c.pending o)
    (hq : ∀ g ∈ c.pending, g.Controlled blocked) : ∀ act ∈ o.acts, act.Controlled blocked := by
  intro act hact
  have hframes := hmoves.frames
  rw [List.nil_append] at hframes
  cases hframe : act.frame with
  | none => exact moved_controlled hframe
  | some g =>
    have hmem := hframes.subset (List.mem_append_left _ (List.mem_filterMap.mpr ⟨act, hact, hframe⟩))
    rw [(hmoves.kinds act hact g hframe).resolve_right (by simp)]
    exact indicateAct_controlled (hq g hmem)

/-- An A-MSDU before the window is handed up as it is. -/
theorem reorderLocked_controlled (hq : ∀ g ∈ c.pending, g.Controlled blocked)
    (hf : f.Controlled blocked) (hraw : f.attrib.amsdu = true →
      (c.checkIndicateSeq f.seqNum).1 = false → (Act.indicated f).Controlled blocked) :
    ∀ act ∈ (c.reorderLocked flags f).2.acts, act.Controlled blocked := by
  obtain ⟨hpending, -, hframe⟩ := c.checkIndicateSeq_moves f.seqNum
  unfold reorderLocked
  split
  · rename_i first hcheck
    simp only [hcheck] at hframe hraw
    intro act hact
    rcases List.mem_append.mp hact with hact | hact
    · exact moved_controlled (hframe act hact)
    · rw [List.mem_singleton.mp hact]
      cases hamsdu : f.attrib.amsdu with
      | true => exact hraw hamsdu trivial
      | false => exact indicated_controlled hf hamsdu
  · rename_i first hcheck
    simp only [hcheck] at hpending hframe
    split
    · intro act hact
      exact moved_controlled (hframe act hact)
    · rename_i pending hpend
      rw [hpending] at hpend
      have hperm := enqueueReorderRecvframe_perm hpend
      intro act hact
      rcases List.mem_append.mp hact with hact | hact
      · exact moved_controlled (hframe act hact)
      · apply moves_controlled (indicateQueue_moves flags _) _ act hact
        intro g hg
        rcases List.mem_cons.mp (hperm.subset hg) with rfl | hold
        · exact hf
        · exact hq g hold

theorem recvIndicatepktReorder_controlled (hq : ∀ g ∈ c.pending, g.Controlled blocked)
    (hf : f.converted.Controlled blocked) (hraw : f.attrib.amsdu = true → c.enable = true →
      (c.checkIndicateSeq f.seqNum).1 = false → (Act.indicated f).Controlled blocked) :
    ∀ act ∈ (c.recvIndicatepktReorder flags f).2.acts, act.Controlled blocked := by
  unfold recvIndicatepktReorder
  have hconverted := f.converted_amsdu
  cases hamsdu : f.attrib.amsdu with
  | false =>
    have heq : f.converted = wlanhdrToEthhdr f := by
      rw [RecvFrame.converted, hamsdu]
      rfl
    rw [heq] at hf hconverted
    rw [hamsdu] at hconverted
    have hindicated := indicated_controlled hf hconverted
    simp only [Bool.not_false, if_true]
    split
    · split
      · intro act hact
        rw [List.mem_singleton.mp hact]
        exact hindicated
      · intro act hact
        cases hact
    · split
      · simp only [List.forall_mem_cons]
        exact ⟨trivial, hindicated, trivial, by simp⟩
      · apply reorderLocked_controlled hq hf
        intro h
        rw [hconverted] at h
        cases h
  | true =>
    have heq : f.converted = f := by
      rw [RecvFrame.converted, hamsdu]
      rfl
    rw [heq] at hf
    simp only [Bool.not_true, Bool.false_eq_true, if_false]
    cases henable : c.enable with
    | false =>
      simp only [Bool.not_false, if_true, List.forall_mem_cons]
      exact ⟨trivial, split_controlled hf hamsdu, trivial, by simp⟩
    | true =>
      simp only [Bool.not_true, Bool.false_eq_true, if_false]
      exact reorderLocked_controlled hq hf fun h hcheck => hraw h henable hcheck

end RecvReorderCtrl

end

/-- The condition on a frame of a blocked station that comes to the port: what is to be handed up of
it is EAPOL, and so is an A-MSDU as it is when its number is before the window. -/
def RecvAct.Eapol : RecvAct → Prop
  | .port mlme _ stapriv _ f => stapriv.blocked f.attrib.ta = true →
      f.eapolOnly mlme = true ∧ (mlme.htOption = true → f.attrib.amsdu = true →
        ∀ slot ∈ f.psta, ∀ c ∈ stapriv.preorderCtrl slot f.attrib.priority,
          c.enable = true → (c.checkIndicateSeq f.seqNum).1 = false → isEapol f.data = true)
  | _ => True

instance : DecidablePred RecvAct.Eapol
  | .port _ _ _ _ _ => show Decidable (_ = true → _ ∧ _) from inferInstance
  | .received _ | .mgnt _ _ _ | .opened _ _ _ | .joined _ | .checked _ _ _ | .indicated _ | .split _
  | .freed _ => isTrue trivial

/-- Whether an act gives a frame back. -/
def RecvAct.frees (id : ℕ) : RecvAct → Bool
  | .freed other => other == id
  | _ => false

namespace Receiver

/-- In a step that leaves the ports alone nothing but EAPOL is handed up of blocked stations, or is
to be handed up of them. -/
structure Controlled (blocked : MacAddr → Bool) (s : Receiver) : Prop where
  ports : s.stapriv.blocked = blocked
  pending : ∀ f ∈ s.stapriv.pending, f.Controlled blocked
  acts : ∀ act ∈ s.acts, act.Controlled blocked

section
variable {blocked : MacAddr → Bool} {s : Receiver} {f : RecvFrame} {id : ℕ} {ids : List ℕ}

namespace Controlled

theorem extend {t : Receiver} {new : List RecvAct} (h : s.Controlled blocked)
    (hacts : t.acts = s.acts ++ new) (hcalm : StaPriv.Calm s.stapriv t.stapriv)
    (hnew : ∀ act ∈ new, act.Controlled blocked) : t.Controlled blocked where
  ports := hcalm.blocked.trans h.ports
  pending g hg := h.pending g (hcalm.pending g hg)
  acts act hact := by
    rw [hacts] at hact
    exact (List.mem_append.mp hact).elim (h.acts act) (hnew act)

theorem log {act : RecvAct} (h : s.Controlled blocked) (hact : act.Controlled blocked) :
    (s.log act).Controlled blocked := by
  apply extend h rfl
  · exact StaPriv.Calm.refl _
  · exact List.forall_mem_singleton.mpr hact

theorem free (h : s.Controlled blocked) : (s.rtwFreeRecvframe id).Controlled blocked := by
  apply extend h rfl
  · exact StaPriv.calm_listDelete _ _
  · exact List.forall_mem_singleton.mpr trivial

theorem freeAll (h : s.Controlled blocked) : (s.freeAll ids).Controlled blocked := by
  induction ids generalizing s with
  | nil => exact h
  | cons id ids ih => exact ih h.free

theorem perform {act : Act} (h : s.Controlled blocked) (hact : act.Controlled blocked) :
    (s.perform act).Controlled blocked := by
  cases act with
  | moved seq => exact h
  | indicated f =>
    have hlog : (s.log (.indicated f)).Controlled blocked := h.log hact
    exact hlog.free
  | split f =>
    have hlog : (s.log (.split f)).Controlled blocked := h.log hact
    exact hlog.free
  | forgotten f => exact h

theorem performAll {acts : List Act} (h : s.Controlled blocked)
    (hacts : ∀ act ∈ acts, act.Controlled blocked) : (s.performAll acts).Controlled blocked := by
  induction acts generalizing s with
  | nil => exact h
  | cons act acts ih =>
    apply ih
    · exact h.perform (hacts act List.mem_cons_self)
    · intro other hother
      exact hacts other (List.mem_cons_of_mem act hother)

theorem decryptor (h : s.Controlled blocked) : (s.decryptor f).1.Controlled blocked := by
  have hbehind : (s.behindCipher f.readKeyIndex).Controlled blocked := by
    apply extend h rfl
    · exact StaPriv.Calm.refl _
    · exact List.forall_mem_singleton.mpr trivial
  rcases s.decryptor_cases f with ⟨-, -, heq⟩ | ⟨-, -, heq⟩ | ⟨-, sec, heq⟩
  · rw [heq]
    exact hbehind
  · rw [heq]
    exact hbehind.free
  · rw [heq]
    exact ⟨h.ports, h.pending, h.acts⟩

theorem defragActs_controlled (s : Receiver) (f : RecvFrame) :
    ∀ act ∈ s.defragActs f, act.Controlled blocked := by
  unfold defragActs
  intro act hact
  rcases List.mem_append.mp hact with hjoined | hchecked
  · split at hjoined
    · split at hjoined
      · cases hjoined
      · rw [List.mem_singleton.mp hjoined]
        trivial
    · cases hjoined
  · obtain ⟨g, -, rfl⟩ := Option.map_eq_some_iff.mp (Option.mem_toList.mp hchecked)
    trivial

theorem chkDefrag (h : s.Controlled blocked) : (s.chkDefrag f).1.Controlled blocked := by
  apply freeAll (s := s.merging f)
  apply extend h rfl
  · exact StaPriv.calm_recvframeChkDefrag _ _ _
  · exact defragActs_controlled s f

theorem ctrl_pending {slot : ℕ} {priority : Fin 16} {c : RecvReorderCtrl}
    (h : s.Controlled blocked) (hc : s.stapriv.preorderCtrl slot priority = some c) :
    ∀ g ∈ c.pending, g.Controlled blocked := by
  obtain ⟨psta, hpsta, rfl⟩ := Option.map_eq_some_iff.mp hc
  intro g hg
  apply h.pending g
  apply List.mem_flatMap.mpr ⟨psta, List.mem_of_getElem? hpsta, _⟩
  exact List.mem_flatMap.mpr ⟨_, Vector.mem_toList_iff.mpr (Vector.getElem_mem priority.isLt), hg⟩

/-- A reorder control hands up what it holds and what it is given. -/
theorem reorder {slot : ℕ} {priority : Fin 16} {c : RecvReorderCtrl} {given : List RecvFrame}
    {o : Outcome} (h : s.Controlled blocked)
    (hc : s.stapriv.preorderCtrl slot priority = some c)
    (hmoves : (o.acts.filterMap Act.frame ++ o.ctrl.pending).Perm (given ++ c.pending))
    (hgiven : ∀ g ∈ given, g.Controlled blocked)
    (hacts : ∀ act ∈ o.acts, act.Controlled blocked) :
    ({ s with stapriv := s.stapriv.setPreorderCtrl slot priority o.ctrl }.performAll
      o.acts).Controlled blocked := by
  have hq := ctrl_pending h hc
  have hports : (s.stapriv.setPreorderCtrl slot priority o.ctrl).blocked = s.stapriv.blocked :=
    StaPriv.modify_blocked s.stapriv slot fun _ => ⟨rfl, rfl⟩
  apply performAll _ hacts
  constructor
  · exact hports.trans h.ports
  · intro g hg
    rcases StaPriv.modify_pending hg with hold | ⟨psta, hpsta, hnew⟩
    · exact h.pending g hold
    · rw [Vector.toList_set] at hnew
      obtain ⟨c', hc', hgc⟩ := List.mem_flatMap.mp hnew
      rcases List.mem_or_eq_of_mem_set hc' with hmem | rfl
      · exact h.pending g (List.mem_flatMap.mpr ⟨psta, List.mem_of_getElem? hpsta,
          List.mem_flatMap.mpr ⟨c', hmem, hgc⟩⟩)
      · exact (List.mem_append.mp (hmoves.subset (List.mem_append_right _ hgc))).elim
          (hgiven g) (hq g)
  · exact h.acts

theorem processRecvIndicatepkts {orig : ℕ} (h : s.Controlled blocked)
    (hport : (RecvAct.port s.mlme s.flags s.stapriv orig f).Eapol) :
    (s.processRecvIndicatepkts f).1.Controlled blocked := by
  simp only [RecvAct.Eapol, h.ports, RecvFrame.eapolOnly] at hport
  unfold Receiver.processRecvIndicatepkts
  split
  · rename_i hht
    split
    · exact h.free
    · rename_i slot c hctrl
      obtain ⟨slot', hslot, hmap⟩ := Option.bind_eq_some_iff.mp hctrl
      obtain ⟨c', hc, hpair⟩ := Option.map_eq_some_iff.mp hmap
      cases hpair
      have hconverted : f.converted.Controlled blocked := by
        intro hblocked
        rw [f.converted_ta] at hblocked
        have heapol := (hport hblocked).1
        rwa [if_pos hht] at heapol
      have hq := ctrl_pending h hc
      apply h.reorder hc (c.recvIndicatepktReorder_moves s.flags f).frames
      · intro g hg
        cases hstatus : (c.recvIndicatepktReorder s.flags f).1 with
        | success =>
          rw [hstatus] at hg
          rw [List.mem_singleton.mp hg]
          exact hconverted
        | fail =>
          rw [hstatus] at hg
          cases hg
      · apply RecvReorderCtrl.recvIndicatepktReorder_controlled hq hconverted
        intro hamsdu henable hcheck hblocked
        exact (hport hblocked).2 hht hamsdu slot hslot c hc henable hcheck
  · rename_i hht
    split
    · show (s.perform (.indicated (wlanhdrToEthhdr f))).Controlled blocked
      apply h.perform
      intro hblocked
      obtain ⟨ethType, hattrib⟩ := wlanhdrToEthhdr_attrib f
      rw [hattrib] at hblocked
      have heapol := (hport hblocked).1
      rwa [if_neg hht] at heapol
    · exact h

theorem handUp {orig : ℕ} (h : s.Controlled blocked)
    (hacts : ∀ act ∈ (s.handUp orig f).acts, act.Eapol) :
    (s.handUp orig f).Controlled blocked := by
  have hport := hacts _ (handUp_acts.subset (List.mem_append_right _ (List.mem_singleton.mpr rfl)))
  have hlog : (s.atPort orig f).Controlled blocked := h.log trivial
  have hprocess := hlog.processRecvIndicatepkts hport
  unfold Receiver.handUp
  split
  · rename_i t heq
    rwa [heq] at hprocess
  · rename_i t heq
    rw [heq] at hprocess
    exact hprocess.free

theorem recvFuncPosthandle (h : s.Controlled blocked)
    (hacts : ∀ act ∈ (s.recvFuncPosthandle f).acts, act.Eapol) :
    (s.recvFuncPosthandle f).Controlled blocked := by
  rcases s.recvFuncPosthandle_cases f with ⟨-, heq⟩ | ⟨g, -, -, heq⟩ | ⟨g, p, -, -, heq⟩
  · rw [heq]
    exact h.decryptor
  · rw [heq]
    exact h.decryptor.chkDefrag
  · rw [heq] at hacts ⊢
    exact h.decryptor.chkDefrag.handUp hacts

theorem drainPending {n : ℕ} (h : s.Controlled blocked)
    (hacts : ∀ act ∈ (drainPending n s).acts, act.Eapol) :
    (drainPending n s).Controlled blocked := by
  induction n generalizing s with
  | zero => exact h
  | succ n ih =>
    unfold Receiver.drainPending at hacts ⊢
    split at hacts
    · exact h
    · rename_i f queue hq
      apply ih _ hacts
      apply recvFuncPosthandle (s := { s with ucSwdecPendingQueue := queue })
      · exact ⟨h.ports, h.pending, h.acts⟩
      · intro act hact
        exact hacts act (drainPending_acts.subset hact)

theorem recvFrame (h : s.Controlled blocked) (hacts : ∀ act ∈ (s.recvFrame f).acts, act.Eapol) :
    (s.recvFrame f).Controlled blocked := by
  rcases s.recvFrame_cases f with heq | heq | ⟨stapriv, g, hvalid, heq⟩
  · rw [heq]
    exact h.free
  · rw [heq]
    have hlog : (s.log (.mgnt s.sec s.stapriv (readHeader f))).Controlled blocked := h.log trivial
    exact hlog.chkDefrag.free
  · have hcalm := StaPriv.calm_validateRecvDataFrame hvalid
    have hstapriv {t : Receiver} (ht : t.stapriv = stapriv) (hacts : t.acts = s.acts) :
        t.Controlled blocked := by
      apply extend h (hacts.trans (List.append_nil _).symm)
      · rw [ht]
        exact hcalm
      · simp
    rcases heq with heq | heq
    · rw [heq]
      exact hstapriv rfl rfl
    · rw [heq] at hacts ⊢
      exact recvFuncPosthandle (s := { s with stapriv := stapriv }) (hstapriv rfl rfl) hacts

theorem recvFunc (h : s.Controlled blocked) (hacts : ∀ act ∈ (s.recvFunc f).acts, act.Eapol) :
    (s.recvFunc f).Controlled blocked := by
  unfold Receiver.recvFunc at hacts ⊢
  dsimp only at hacts ⊢
  split at hacts
  · rename_i hdrain
    rw [if_pos hdrain]
    apply recvFrame _ hacts
    apply h.drainPending
    intro act hact
    exact hacts act (recvFrame_acts.subset hact)
  · rename_i hdrain
    rw [if_neg hdrain]
    exact h.recvFrame hacts

theorem recvEntry (h : s.Controlled blocked) (hacts : ∀ act ∈ (s.recvEntry f).acts, act.Eapol) :
    (s.recvEntry f).Controlled blocked := by
  unfold Receiver.recvEntry at hacts ⊢
  split at hacts
  · exact h
  · rename_i id pool htake
    have hpool : { s with pool := pool }.Controlled blocked := ⟨h.ports, h.pending, h.acts⟩
    have hlog : ({ s with pool := pool }.log (.received { f with id := id })).Controlled blocked :=
      hpool.log trivial
    exact hlog.recvFunc hacts

theorem reorderTimeout {slot : ℕ} {priority : Fin 16} (h : s.Controlled blocked) :
    (s.reorderTimeout slot priority).Controlled blocked := by
  unfold Receiver.reorderTimeout
  split
  · exact h
  · rename_i c hc
    have hmoves := c.timeoutHandler_moves s.flags
    apply h.reorder hc hmoves.frames
    · simp
    · exact RecvReorderCtrl.moves_controlled hmoves (ctrl_pending h hc)

end Controlled

end

/-- No frame in a reorder queue of a blocked station is anything but EAPOL. -/
def Quiet (s : Receiver) : Prop :=
  ∀ f ∈ s.stapriv.pending, f.Controlled s.stapriv.blocked

/-- The frames of blocked stations that come to the port are EAPOL, and a station becomes blocked
only while no other frame of it waits in a reorder queue. -/
def EapolOnly (s : Receiver) (e : RecvEvent) : Prop :=
  (∀ act ∈ (s.step e).acts, act.Eapol) ∧
    match e with
    | .recv _ | .timeout _ _ => True
    | _ => (s.step e).Quiet

/-- Of blocked stations only EAPOL is handed up, and every other frame that comes to the port is
given back once. -/
structure Enforced (s : Receiver) (e : RecvEvent) : Prop where
  indicated : ∀ act ∈ (s.step e).acts, act.Controlled s.stapriv.blocked
  freed : ∀ mlme flags stapriv orig f,
    RecvAct.port mlme flags stapriv orig f ∈ (s.step e).acts →
      stapriv.blocked f.attrib.ta = true → f.eapolOnly mlme = false →
        (s.step e).acts.countP (RecvAct.frees f.id) = 1

theorem freeAll_freed {s : Receiver} {ids : List ℕ} :
    ∀ act ∈ (s.freeAll ids).acts, act ∈ s.acts ∨ ∃ id, act = .freed id := by
  induction ids generalizing s with
  | nil => exact fun act hact => Or.inl hact
  | cons id ids ih =>
    intro act hact
    rcases ih act hact with hold | hnew
    · rcases List.mem_append.mp hold with hold | hfreed
      · exact Or.inl hold
      · exact Or.inr ⟨id, List.mem_singleton.mp hfreed⟩
    · exact Or.inr hnew

/-- What a step hands up, and what it leaves in the reorder queues. -/
theorem step_controlled {s : Receiver} {e : RecvEvent} (hs : s.Quiet) (he : s.EapolOnly e) :
    (s.step e).Quiet ∧ ∀ act ∈ (s.step e).acts, act.Controlled s.stapriv.blocked := by
  have hstart : { s with acts := [] }.Controlled s.stapriv.blocked := ⟨rfl, hs, by simp⟩
  have hquiet {t : Receiver} (h : t.Controlled s.stapriv.blocked) :
      t.Quiet ∧ ∀ act ∈ t.acts, act.Controlled s.stapriv.blocked := by
    constructor
    · rw [Quiet, h.ports]
      exact h.pending
    · exact h.acts
  have hfreed {t : Receiver} {ids : List ℕ} (ht : t.acts = []) :
      ∀ act ∈ (t.freeAll ids).acts, act.Controlled s.stapriv.blocked := by
    intro act hact
    rcases freeAll_freed act hact with hold | ⟨id, rfl⟩
    · rw [ht] at hold
      cases hold
    · trivial
  obtain ⟨hacts, hstate⟩ := he
  cases e with
  | recv f => exact hquiet (hstart.recvEntry hacts)
  | timeout slot priority => exact hquiet hstart.reorderTimeout
  | blocked slot blocked => exact ⟨hstate, by simp [step]⟩
  | freeStainfo slot =>
    refine ⟨hstate, ?_⟩
    simp only [step]
    split
    · unfold rtwFreeStainfo
      split
      · simp
      · exact hfreed rfl
    · simp
  | allocStainfo slot hwaddr =>
    refine ⟨hstate, ?_⟩
    simp only [step]
    split <;> simp [rtwAllocStainfo]
  | update slot new => exact ⟨hstate, by simp [step]⟩
  | freeUcSwdec =>
    refine ⟨hstate, ?_⟩
    exact hfreed rfl
  | config mlme sec flags => exact ⟨hstate, by simp [step]⟩

theorem step_enforced {s : Receiver} {e : RecvEvent} (hs : s.Quiet) (he : s.EapolOnly e) :
    s.Enforced e where
  indicated := (step_controlled hs he).2
  freed mlme flags stapriv orig f hport hblocked hother := by
    have heapol := (he.1 _ hport hblocked).1
    rw [hother] at heapol
    cases heapol

theorem initial_quiet {s : Receiver} (hs : s.Initial) : s.Quiet := by
  intro f hf
  obtain ⟨psta, hmem, hpsta⟩ := List.mem_flatMap.mp hf
  have hframe : f ∈ s.stapriv.frames :=
    List.mem_flatMap.mpr ⟨psta, hmem, List.mem_append_right _ hpsta⟩
  rw [hs.frames] at hframe
  cases hframe

instance (s : Receiver) : Decidable s.Quiet :=
  inferInstanceAs (Decidable (∀ f ∈ _, (_ = true → _ = true)))

instance : ∀ s e, Decidable (EapolOnly s e)
  | _, .recv _ | _, .timeout _ _ => inferInstanceAs (Decidable (_ ∧ True))
  | _, .blocked _ _ | _, .freeStainfo _ | _, .allocStainfo _ _ | _, .update _ _ | _, .freeUcSwdec
  | _, .config _ _ _ => inferInstanceAs (Decidable (_ ∧ Quiet _))

/-- A station with 802.1X. -/
def enterprise : Receiver := associated true { SecurityPriv.zero with dot11AuthAlgrthm := 2 }

/-- An EAPOL frame while the port is closed, and an IPv4 frame when it is open again. -/
def handshake : List RecvEvent :=
  [.blocked 1 true, .recv (incoming 0x08 0x02 0x50 eapolBody), .blocked 1 false,
    .recv (incoming 0x08 0x02 0x60 ipv4Body)]

end Receiver

end Rtl8188eu

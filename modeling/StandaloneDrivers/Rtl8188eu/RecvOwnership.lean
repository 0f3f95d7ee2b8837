import StandaloneDrivers.Rtl8188eu.RecvLog
import StandaloneDrivers.Rtl8188eu.RecvPlaces

/-! Who holds the received frames: what the functions of the receive path do to the frames in
queues and to those they work on. -/
namespace Rtl8188eu
open Foundations
attribute [local instance] neZero_sixteen

/-- Whether an act leaves a frame at no place. -/
def Act.forgets : Act → Bool
  | .forgotten _ => true
  | _ => false

/-- What the log says about a call of `portctrl` or of `validate_recv_mgnt_frame` that leaves every
frame at one place. A frame that is handed up is not refused by the reorder control, unless it is
the frame received last; no frame is taken off a queue while the driver has stopped. A management
frame is queued as a fragment, or returned as it is. -/
def RecvAct.Conserving : RecvAct → Prop
  | .port mlme flags stapriv orig f =>
      if mlme.htOption then
        ∀ slot ∈ f.psta, ∀ c ∈ stapriv.preorderCtrl slot f.attrib.priority,
          ((c.recvIndicatepktReorder flags f).1 = .fail → flags.running = true ∧ orig = f.id) ∧
            ∀ act ∈ (c.recvIndicatepktReorder flags f).2.acts, act.forgets = false
      else flags.running = true ∨ orig = f.id
  | .mgnt sec stapriv f =>
      if f.attrib.mfrag then (stapriv.pdefragQ f).isSome = true
      else f.attrib.fragNum = 0 ∧
        (f.attrib.privacy = true → (recvframeChkmic stapriv sec f).1 = .success)
  | _ => True

instance : DecidablePred RecvAct.Conserving
  | .port _ _ _ _ _ => show Decidable (if _ then _ else _) from inferInstance
  | .mgnt _ _ _ => show Decidable (if _ then _ else _) from inferInstance
  | .received _ | .opened _ _ _ | .joined _ | .checked _ _ _ | .indicated _ | .split _
  | .freed _ => isTrue trivial

/-- A timer that runs out forgets no frame. -/
theorem RecvReorderCtrl.timeoutHandler_keeps (c : RecvReorderCtrl) (flags : DriverFlags) :
    ∀ act ∈ (c.rtwReorderingCtrlTimeoutHandler flags).acts, act.forgets = false := by
  intro act hact
  cases hrunning : flags.running with
  | false =>
    simp only [RecvReorderCtrl.rtwReorderingCtrlTimeoutHandler, hrunning] at hact
    cases hact
  | true =>
    cases act with
    | forgotten f =>
      have hkind := ((c.timeoutHandler_moves flags).kinds _ hact f rfl).resolve_right (by simp)
      unfold indicateAct at hkind
      rw [hrunning, if_pos rfl] at hkind
      split at hkind <;> cases hkind
    | moved seq => rfl
    | indicated f => rfl
    | split f => rfl

namespace Receiver

/-- The frames in queues. -/
def held (s : Receiver) : List ℕ := (s.stapriv.frames ++ s.ucSwdecPendingQueue).map RecvFrame.id

/-- Every call in a step leaves each frame at one place, no station is freed with fragments in its
queue, and none is set up in a slot whose queues are not empty. -/
def Conserving (s : Receiver) (e : RecvEvent) : Prop :=
  (∀ act ∈ (s.step e).acts, act.Conserving) ∧
    match e with
    | .freeStainfo slot => slot ∈ s.stapriv.staHash → s.stapriv.defragQ slot = []
    | .allocStainfo slot _ =>
        slot ∉ s.stapriv.staHash → ∀ psta ∈ s.stapriv.stainfo[slot]?, psta.frames = []
    | _ => True

/-- An invariant of the pool, for the frames in queues and those that are being worked on. -/
def Owns (inv : Pool → List ℕ → Prop) (s : Receiver) (ids : List ℕ) : Prop :=
  inv s.pool (ids ++ s.held)

theorem free_held (s : Receiver) (id : ℕ) :
    (s.rtwFreeRecvframe id).held = s.held.filter (· ≠ id) := by
  simp only [held, rtwFreeRecvframe, StaPriv.listDelete_frames, ← List.filter_append,
    List.filter_map]
  rfl

/-- A management frame that is no fragment is returned. -/
theorem chkDefrag_whole {s : Receiver} {f : RecvFrame} (hmfrag : f.attrib.mfrag = false)
    (hfrag : f.attrib.fragNum = 0)
    (hmic : f.attrib.privacy = true → (recvframeChkmic s.stapriv s.sec f).1 = .success) :
    ∃ g, (s.chkDefrag f).2 = some g ∧ g.id = f.id := by
  have hqueue : s.stapriv.queueFragment f = (s.stapriv, ⟨some f, [], 0⟩) := by
    simp [StaPriv.queueFragment, hmfrag, hfrag]
  simp only [chkDefrag, StaPriv.recvframeChkDefrag, hqueue]
  split
  · rename_i hprivacy
    have hid := recvframeChkmic_id s.stapriv s.sec f
    have hok := hmic hprivacy
    split
    · rename_i g hchk
      rw [hchk] at hok
      cases hok
    · rename_i g hchk
      rw [hchk] at hid
      exact ⟨g, rfl, hid⟩
  · exact ⟨f, rfl, rfl⟩

section
variable {inv : Pool → List ℕ → Prop} {s : Receiver} {id orig : ℕ} {ids extra : List ℕ}
  {f g : RecvFrame} (hr : Pool.Rules inv)
include hr

theorem Owns.of_perm {t : Receiver} (h : Owns inv s ids) (hpool : t.pool = s.pool)
    (hids : (ids ++ s.held).Perm (extra ++ t.held)) : Owns inv t extra := by
  rw [Owns, hpool]
  exact hr.perm h hids

/-- A frame that is being worked on is in no queue. -/
theorem free_other (h : Owns inv s (id :: ids)) : (s.rtwFreeRecvframe id).held = s.held := by
  rw [free_held, List.filter_eq_self]
  intro r hmem
  have hne : id ∉ ids ++ s.held := (hr.apart h).notMem.2
  rw [List.mem_append, not_or] at hne
  simpa using ne_of_mem_of_not_mem hmem hne.2

theorem free_owns (h : Owns inv s (id :: ids)) : Owns inv (s.rtwFreeRecvframe id) ids := by
  rw [Owns, free_other hr h]
  exact hr.give h

/-- A frame is taken out of its queue and given back. -/
theorem free_queued (h : Owns inv s []) (hid : id ∈ s.held) :
    Owns inv (s.rtwFreeRecvframe id) [] := by
  have hnodup : s.held.Nodup := (List.nodup_append.mp (hr.apart h)).2.1
  have herase : s.held.filter (fun r => decide (r ≠ id)) = s.held.erase id := by
    rw [hnodup.erase_eq_filter]
    apply List.filter_congr
    intro r _
    by_cases hr : r = id <;> simp [hr]
  rw [Owns, free_held, herase]
  exact hr.give (hr.perm h (List.perm_cons_erase hid))

theorem freeAll_owns (h : Owns inv s (ids ++ extra)) : Owns inv (s.freeAll ids) extra := by
  induction ids generalizing s with
  | nil => exact h
  | cons id ids ih => exact ih (free_owns hr h)

theorem freeAll_other (h : Owns inv s (ids ++ extra)) : (s.freeAll ids).held = s.held := by
  induction ids generalizing s with
  | nil => rfl
  | cons id ids ih => exact (ih (free_owns hr h)).trans (free_other hr h)

omit hr in
/-- A frame is given back by somebody who does not work on it. -/
theorem free_again (hl : Pool.Lossy inv) (h : Owns inv s ids) (hid : id ∉ ids) :
    Owns inv (s.rtwFreeRecvframe id) ids := by
  have hkeep : ids.filter (fun r => decide (r ≠ id)) = ids := by
    rw [List.filter_eq_self]
    intro r hmem
    simpa using ne_of_mem_of_not_mem hmem hid
  have hagain := hl.again (r := id) h
  rw [List.filter_append, hkeep, ← free_held] at hagain
  exact hagain

theorem perform_owns {act : Act} (h : Owns inv s ((act.frame.map RecvFrame.id).toList ++ ids))
    (hact : Pool.Lossy inv ∨ act.forgets = false) : Owns inv (s.perform act) ids := by
  cases act with
  | moved seq => exact h
  | indicated f => exact free_owns hr (s := s.log (.indicated f)) h
  | split f => exact free_owns hr (s := s.log (.split f)) h
  | forgotten f =>
    rcases hact with hl | hact
    · exact hl.lose h
    · cases hact

theorem performAll_owns {acts : List Act}
    (h : Owns inv s ((acts.filterMap Act.frame).map RecvFrame.id ++ ids))
    (hacts : Pool.Lossy inv ∨ ∀ act ∈ acts, act.forgets = false) :
    Owns inv (s.performAll acts) ids := by
  induction acts generalizing s with
  | nil => exact h
  | cons act acts ih =>
    apply ih
    · apply perform_owns hr _ (hacts.imp_right fun hacts => hacts act List.mem_cons_self)
      rw [List.filterMap_cons] at h
      cases hframe : act.frame with
      | none =>
        rw [hframe] at h
        exact h
      | some f =>
        rw [hframe] at h
        exact h
    · exact hacts.imp_right fun hacts other hother =>
        hacts other (List.mem_cons_of_mem act hother)

theorem decryptor_owns (h : Owns inv s (f.id :: ids)) :
    Owns inv (s.decryptor f).1 (((s.decryptor f).2.map RecvFrame.id).toList ++ ids) := by
  rcases s.decryptor_cases f with ⟨-, -, heq⟩ | ⟨-, -, heq⟩ | ⟨-, sec, heq⟩
  · rw [heq, Option.map_some, (swDecryptFrame_kept _ _ _ _).id, readKeyIndex_id]
    exact h
  · rw [heq, readKeyIndex_id]
    exact free_owns hr (s := s.behindCipher _) h
  · rw [heq, Option.map_some, readKeyIndex_id]
    exact h

theorem merging_owns (h : Owns inv s (f.id :: ids)) :
    Owns inv (s.merging f) ((s.stapriv.recvframeChkDefrag s.sec f).2.ids ++ ids) := by
  apply Owns.of_perm hr h
  · rfl
  · rw [List.perm_iff_count]
    intro a
    have hids := (StaPriv.recvframeChkDefrag_ids s.stapriv s.sec f).count_eq a
    simp only [held, merging, List.map_append, List.count_append, List.count_cons] at hids ⊢
    omega

theorem chkDefrag_owns (h : Owns inv s (f.id :: ids)) :
    Owns inv (s.chkDefrag f).1 (((s.chkDefrag f).2.map RecvFrame.id).toList ++ ids) := by
  have hmerging := merging_owns hr h
  rw [Merged.ids, List.append_assoc] at hmerging
  exact freeAll_owns hr hmerging

/-- What a reorder control takes off its queue is given back, and so is what is given to it. -/
theorem moves_owns {slot : ℕ} {priority : Fin 16} {c : RecvReorderCtrl} {given : List RecvFrame}
    {o : Outcome} (hc : s.stapriv.preorderCtrl slot priority = some c)
    (hmoves : (o.acts.filterMap Act.frame ++ o.ctrl.pending).Perm (given ++ c.pending))
    (hacts : Pool.Lossy inv ∨ ∀ act ∈ o.acts, act.forgets = false)
    (h : Owns inv s (given.map RecvFrame.id ++ ids)) :
    Owns inv ({ s with stapriv := s.stapriv.setPreorderCtrl slot priority o.ctrl }.performAll
      o.acts) ids := by
  obtain ⟨others, hself, hset⟩ := StaPriv.setPreorderCtrl_frames hc
  apply performAll_owns hr _ hacts
  apply Owns.of_perm hr h
  · rfl
  · rw [List.perm_iff_count]
    intro a
    have hbefore := (hself.map RecvFrame.id).count_eq a
    have hafter := ((hset o.ctrl).map RecvFrame.id).count_eq a
    have hmoved := (hmoves.map RecvFrame.id).count_eq a
    simp only [held, List.map_append, List.count_append] at hbefore hafter hmoved ⊢
    omega

/-- A frame handed up is not refused, or the frame that was received last is given back. -/
theorem processRecvIndicatepkts_owns (h : Owns inv s (f.id :: ids))
    (hact : Pool.Lossy inv ∨ (RecvAct.port s.mlme s.flags s.stapriv orig f).Conserving) :
    ((s.processRecvIndicatepkts f).2 = .success → Owns inv (s.processRecvIndicatepkts f).1 ids) ∧
      ((s.processRecvIndicatepkts f).2 = .fail → (Pool.Lossy inv ∨ orig = f.id) ∧
        Owns inv (s.processRecvIndicatepkts f).1 (f.id :: ids)) := by
  unfold processRecvIndicatepkts
  simp only [RecvAct.Conserving] at hact
  split
  · rename_i hht
    rw [if_pos hht] at hact
    split
    · exact ⟨fun _ => free_owns hr h, fun hfail => by cases hfail⟩
    · rename_i slot c hctrl
      obtain ⟨slot', hslot, hmap⟩ := Option.bind_eq_some_iff.mp hctrl
      obtain ⟨c', hc, hpair⟩ := Option.map_eq_some_iff.mp hmap
      cases hpair
      have hmoves := (c.recvIndicatepktReorder_moves s.flags f).frames
      have hkeep := hact.imp_right fun hact => (hact slot hslot c hc).2
      cases hstatus : (c.recvIndicatepktReorder s.flags f).1 with
      | success =>
        rw [hstatus] at hmoves
        constructor
        · intro _
          apply moves_owns hr hc hmoves hkeep
          simp only [RecvReorderCtrl.given, List.map_cons, RecvFrame.converted_id]
          exact h
        · intro hstop
          simp only [hstatus, ite_self] at hstop
          cases hstop
      | fail =>
        rw [hstatus] at hmoves
        have hnone : Owns inv s (([] : List RecvFrame).map RecvFrame.id ++ f.id :: ids) := h
        have howns := moves_owns hr hc hmoves hkeep hnone
        constructor
        · intro hstop
          rcases hact with hl | hact
          · exact hl.lose howns
          · have hrunning := ((hact slot hslot c hc).1 hstatus).1
            simp only [performAll_flags, hstatus, hrunning, if_true] at hstop
            cases hstop
        · intro _
          exact ⟨hact.imp_right fun hact => ((hact slot hslot c hc).1 hstatus).2, howns⟩
  · rename_i hht
    rw [if_neg hht] at hact
    split
    · rename_i hrunning
      constructor
      · intro _
        apply perform_owns hr _ (Or.inr rfl)
        simp only [Act.frame, Option.map_some, wlanhdrToEthhdr_id]
        exact h
      · intro hfail
        cases hfail
    · rename_i hrunning
      exact ⟨fun hsuccess => by (cases hsuccess),
        fun _ => ⟨hact.imp_right fun hact => hact.resolve_left hrunning, h⟩⟩

theorem handUp_owns (h : Owns inv s (f.id :: ids)) (horig : orig ∉ ids)
    (hacts : Pool.Lossy inv ∨ ∀ act ∈ (s.handUp orig f).acts, act.Conserving) :
    Owns inv (s.handUp orig f) ids := by
  have hport := hacts.imp_right fun hacts =>
    hacts _ (handUp_acts.subset (List.mem_append_right _ (List.mem_singleton.mpr rfl)))
  obtain ⟨hsuccess, hfail⟩ := processRecvIndicatepkts_owns hr (s := s.atPort orig f) h hport
  unfold handUp
  split
  · rename_i t heq
    rw [heq] at hsuccess
    exact hsuccess rfl
  · rename_i t heq
    rw [heq] at hfail
    obtain ⟨hlossy | horig, howns⟩ := hfail rfl
    · exact free_again hlossy (hlossy.lose howns) horig
    · rw [horig]
      exact free_owns hr howns

theorem recvFuncPosthandle_owns (h : Owns inv s (f.id :: ids))
    (hacts : Pool.Lossy inv ∨ ∀ act ∈ (s.recvFuncPosthandle f).acts, act.Conserving) :
    Owns inv (s.recvFuncPosthandle f) ids := by
  have hdec := decryptor_owns hr h
  have horig : f.id ∉ ids := fun hmem => (hr.apart h).notMem.2 (List.mem_append_left _ hmem)
  rcases s.recvFuncPosthandle_cases f with ⟨hd, heq⟩ | ⟨g, hd, hc, heq⟩ | ⟨g, p, hd, hc, heq⟩
  · rw [hd] at hdec
    rw [heq]
    exact hdec
  · rw [hd] at hdec
    have hdefrag := chkDefrag_owns hr hdec
    rw [hc] at hdefrag
    rw [heq]
    exact hdefrag
  · rw [hd] at hdec
    have hdefrag := chkDefrag_owns hr hdec
    rw [hc] at hdefrag
    rw [heq] at hacts ⊢
    exact handUp_owns hr hdefrag horig hacts

theorem drainPending_owns {n : ℕ} (h : Owns inv s ids)
    (hacts : Pool.Lossy inv ∨ ∀ act ∈ (drainPending n s).acts, act.Conserving) :
    Owns inv (drainPending n s) ids := by
  induction n generalizing s with
  | zero => exact h
  | succ n ih =>
    unfold drainPending at hacts ⊢
    split at hacts
    · exact h
    · rename_i f queue hq
      apply ih _ hacts
      apply recvFuncPosthandle_owns hr
      · apply Owns.of_perm hr h
        · rfl
        · rw [List.perm_iff_count]
          intro a
          simp only [held, hq, List.map_append, List.map_cons, List.count_append, List.count_cons]
          omega
      · exact hacts.imp_right fun hacts act hact => hacts act (drainPending_acts.subset hact)

/-- A fragment with more to follow is put in a queue. -/
theorem chkDefrag_queued (h : Owns inv s [f.id]) (hmfrag : f.attrib.mfrag = true) {i : ℕ}
    (hi : s.stapriv.pdefragQ f = some i) :
    (s.chkDefrag f).2 = none ∧ f.id ∈ (s.chkDefrag f).1.held := by
  have hmerging := merging_owns hr h
  obtain ⟨psta, hpsta⟩ := StaPriv.pdefragQ_some hi
  obtain ⟨others, -, hset⟩ := StaPriv.setDefragQ_frames hpsta
  obtain ⟨q, freed, hq, hqueue⟩ := StaPriv.queueFragment_mfrag hmfrag hi
  have hchk : s.stapriv.recvframeChkDefrag s.sec f =
      (s.stapriv.setDefragQ i q, ⟨none, freed, 0⟩) := by
    simp only [StaPriv.recvframeChkDefrag, hqueue]
  have hids : (s.stapriv.recvframeChkDefrag s.sec f).2.ids =
      (s.stapriv.recvframeChkDefrag s.sec f).2.freed := by
    rw [hchk, Merged.ids]
    exact List.append_nil _
  rw [hids] at hmerging
  have hheld : (s.chkDefrag f).1.held = (s.merging f).held := freeAll_other hr hmerging
  constructor
  · simp only [chkDefrag, hchk]
  · rw [hheld]
    apply List.mem_map_of_mem
    apply List.mem_append_left
    simp only [merging, hchk]
    exact (hset q).mem_iff.mpr (List.mem_append_left _ hq)

/-- A management frame is given back from wherever `validate_recv_mgnt_frame` left it. -/
theorem mgnt_owns (h : Owns inv s [f.id])
    (hact : Pool.Lossy inv ∨ (RecvAct.mgnt s.sec s.stapriv f).Conserving) :
    Owns inv ((s.chkDefrag f).1.rtwFreeRecvframe f.id) [] := by
  have hdefrag := chkDefrag_owns hr h
  rcases hact with hl | hact
  · rw [List.append_nil] at hdefrag
    apply free_again hl
    · exact hl.loseAll _ hdefrag
    · exact List.not_mem_nil
  · simp only [RecvAct.Conserving] at hact
    split at hact
    · rename_i hmfrag
      obtain ⟨i, hi⟩ := Option.isSome_iff_exists.mp hact
      obtain ⟨hnone, hmem⟩ := chkDefrag_queued hr h hmfrag hi
      rw [hnone] at hdefrag
      exact free_queued hr hdefrag hmem
    · rename_i hmfrag
      obtain ⟨g, hsome, hid⟩ := chkDefrag_whole (by simpa using hmfrag) hact.1 hact.2
      rw [hsome, Option.map_some, hid] at hdefrag
      exact free_owns hr hdefrag

theorem recvFrame_owns (h : Owns inv s [f.id])
    (hacts : Pool.Lossy inv ∨ ∀ act ∈ (s.recvFrame f).acts, act.Conserving) :
    Owns inv (s.recvFrame f) [] := by
  rcases s.recvFrame_cases f with heq | heq | ⟨stapriv, g, hvalid, heq⟩
  · rw [heq]
    exact free_owns hr h
  · rw [heq] at hacts ⊢
    let t := s.log (.mgnt s.sec s.stapriv (readHeader f))
    have hlog : (RecvAct.mgnt s.sec s.stapriv (readHeader f)) ∈ t.acts :=
      List.mem_append_right _ (List.mem_singleton.mpr rfl)
    apply mgnt_owns hr (s := t)
    · rw [readHeader_id]
      exact h
    · exact hacts.imp_right fun hacts =>
        hacts _ (free_acts.subset ((chkDefrag_acts (s := t)).subset hlog))
  · obtain ⟨hid, hframes⟩ := StaPriv.validateRecvDataFrame_frames hvalid
    rw [readHeader_id] at hid
    rcases heq with heq | heq
    · rw [heq]
      apply Owns.of_perm hr h
      · rfl
      · rw [List.perm_iff_count]
        intro a
        have hcount := (hframes.map RecvFrame.id).count_eq a
        simp only [held, List.map_append, List.map_cons, List.map_nil, hid, List.count_append,
          List.count_cons, List.count_nil] at hcount ⊢
        omega
    · rw [heq] at hacts ⊢
      apply recvFuncPosthandle_owns hr _ hacts
      rw [hid]
      apply Owns.of_perm hr h
      · rfl
      · simp only [held, List.map_append]
        exact ((hframes.map RecvFrame.id).symm.append_right _).append_left _

theorem recvFunc_owns (h : Owns inv s [f.id])
    (hacts : Pool.Lossy inv ∨ ∀ act ∈ (s.recvFunc f).acts, act.Conserving) :
    Owns inv (s.recvFunc f) [] := by
  unfold recvFunc at hacts ⊢
  dsimp only at hacts ⊢
  split at hacts
  · rename_i hdrain
    rw [if_pos hdrain]
    apply recvFrame_owns hr _ hacts
    apply drainPending_owns hr h
    exact hacts.imp_right fun hacts act hact => hacts act (recvFrame_acts.subset hact)
  · rename_i hdrain
    rw [if_neg hdrain]
    exact recvFrame_owns hr h hacts

theorem recvEntry_owns (h : Owns inv s [])
    (hacts : Pool.Lossy inv ∨ ∀ act ∈ (s.recvEntry f).acts, act.Conserving) :
    Owns inv (s.recvEntry f) [] := by
  unfold recvEntry at hacts ⊢
  split at hacts
  · exact h
  · rename_i id pool htake
    exact recvFunc_owns hr (hr.take h htake) hacts

theorem reorderTimeout_owns {slot : ℕ} {priority : Fin 16} (h : Owns inv s []) :
    Owns inv (s.reorderTimeout slot priority) [] := by
  unfold reorderTimeout
  split
  · exact h
  · rename_i c hc
    have hmoves := (c.timeoutHandler_moves s.flags).frames
    exact moves_owns hr hc hmoves (Or.inr (c.timeoutHandler_keeps s.flags)) h

theorem rtwFreeUcSwdecPendingQueue_owns (h : Owns inv s []) :
    Owns inv s.rtwFreeUcSwdecPendingQueue [] := by
  apply freeAll_owns hr
  apply Owns.of_perm hr h
  · rfl
  · rw [List.perm_iff_count]
    intro a
    simp only [held, List.map_append, List.map_nil, List.count_append, List.count_nil]
    omega

/-- The fragments of a station that is freed are lost. -/
theorem rtwFreeStainfo_owns {slot : ℕ} (h : Owns inv s [])
    (hdefrag : Pool.Lossy inv ∨ s.stapriv.defragQ slot = []) :
    Owns inv (s.rtwFreeStainfo slot) [] := by
  unfold rtwFreeStainfo
  split
  · exact h
  · rename_i psta hpsta
    have hdropped : Owns inv { s with stapriv := s.stapriv.dropStation slot }
        (psta.frames.map RecvFrame.id) := by
      apply Owns.of_perm hr h
      · rfl
      · rw [List.perm_iff_count]
        intro a
        have hframes := ((StaPriv.dropStation_frames hpsta).map RecvFrame.id).count_eq a
        simp only [held, List.map_append, List.count_append, List.count_nil] at hframes ⊢
        omega
    rw [StaInfo.frames, List.map_append] at hdropped
    apply freeAll_owns hr
    rw [List.append_nil]
    rcases hdefrag with hl | hq
    · rw [Owns, List.append_assoc] at hdropped
      exact hl.loseAll _ hdropped
    · have hnone : psta.defragQ = [] := by
        rw [StaPriv.defragQ, hpsta] at hq
        exact hq
      rwa [hnone] at hdropped

theorem rtwAllocStainfo_owns {slot : ℕ} {hwaddr : MacAddr} (h : Owns inv s [])
    (hempty : Pool.Lossy inv ∨ ∀ psta ∈ s.stapriv.stainfo[slot]?, psta.frames = []) :
    Owns inv (s.rtwAllocStainfo slot hwaddr) [] := by
  cases hslot : s.stapriv.stainfo[slot]? with
  | none =>
    have hsame : s.stapriv.modify slot (fun _ => StaInfo.alloc hwaddr) = s.stapriv := by
      rw [StaPriv.modify, List.modify_eq_self]
      exact List.getElem?_eq_none_iff.mp hslot
    apply Owns.of_perm hr h
    · rfl
    · simp only [held, rtwAllocStainfo, hsame]
      exact List.Perm.refl _
  | some psta =>
    obtain ⟨others, hself, hset⟩ := StaPriv.modify_frames hslot
    have hfresh := hset fun _ => StaInfo.alloc hwaddr
    rw [StaInfo.alloc_frames, List.nil_append] at hfresh
    have hlost : Owns inv (s.rtwAllocStainfo slot hwaddr) (psta.frames.map RecvFrame.id) := by
      apply Owns.of_perm hr h
      · rfl
      · rw [List.perm_iff_count]
        intro a
        have hbefore := (hself.map RecvFrame.id).count_eq a
        have hafter := (hfresh.map RecvFrame.id).count_eq a
        simp only [held, rtwAllocStainfo, List.map_append, List.count_append,
          List.count_nil] at hbefore ⊢
        simp only [StaPriv.frames] at hafter hbefore ⊢
        omega
    rcases hempty with hl | hempty
    · exact hl.loseAll _ hlost
    · rwa [hempty psta hslot] at hlost

omit hr in
theorem Owns.of_same {t : Receiver} (h : Owns inv s []) (hpool : t.pool = s.pool)
    (hframes : t.stapriv.frames = s.stapriv.frames)
    (hpending : t.ucSwdecPendingQueue = s.ucSwdecPendingQueue) : Owns inv t [] := by
  rw [Owns, held, hpool, hframes, hpending]
  exact h

/-- A step keeps the invariant if it is conserving, or if the invariant does not mind lost frames. -/
theorem step_owns (e : RecvEvent) (h : Owns inv s []) (hok : Pool.Lossy inv ∨ s.Conserving e) :
    Owns inv (s.step e) [] := by
  have hstart : Owns inv { s with acts := [] } [] := h
  cases e with
  | recv f => exact recvEntry_owns hr hstart (hok.imp_right fun hok => hok.1)
  | timeout slot priority => exact reorderTimeout_owns hr hstart
  | blocked slot blocked =>
    exact Owns.of_same h rfl (s.stapriv.modify_frames_same slot fun _ => rfl) rfl
  | freeStainfo slot =>
    simp only [step]
    split
    · rename_i hmem
      exact rtwFreeStainfo_owns hr hstart (hok.imp_right fun hok => hok.2 hmem)
    · exact h
  | allocStainfo slot hwaddr =>
    simp only [step]
    split
    · exact h
    · rename_i hmem
      exact rtwAllocStainfo_owns hr hstart (hok.imp_right fun hok => hok.2 hmem)
  | update slot new =>
    exact Owns.of_same h rfl
      (s.stapriv.modify_frames_same slot fun psta => psta.update_frames new) rfl
  | freeUcSwdec => exact rtwFreeUcSwdecPendingQueue_owns hr hstart
  | config mlme sec flags => exact h

end

end Receiver

end Rtl8188eu

/-! Conservation of the received frames over runs of the receive path. -/
namespace Rtl8188eu
open Foundations
attribute [local instance] neZero_sixteen

namespace Receiver

/-- Every frame of the pool is free or in one queue, the counter of the free ones is right, and none
was given back while it was free, as long as the steps of the run are conserving. -/
theorem recvframes_conserved {s : Receiver} {es : List RecvEvent} (hs : s.Initial)
    (hes : Guarded step Conserving s es) :
    (run step s es).pool.Holds nrRecvframe (run step s es).held := by
  let inv (p : Pool) (held : List ℕ) : Prop := p.Holds nrRecvframe held
  have hinitial : Owns inv s [] := by
    rw [Owns, held, hs.pool, hs.frames, hs.pending]
    exact Pool.holds_full nrRecvframe
  exact guarded_invariant (fun s => Owns inv s [])
    (fun _ e h hok => step_owns (Pool.holds_rules nrRecvframe) e h (Or.inr hok)) hinitial hes

instance : ∀ s e, Decidable (Conserving s e)
  | _, .freeStainfo _ | _, .allocStainfo _ _ => inferInstanceAs (Decidable (_ ∧ (_ → _)))
  | _, .recv _ | _, .timeout _ _ | _, .blocked _ _ | _, .update _ _ | _, .freeUcSwdec
  | _, .config _ _ _ => inferInstanceAs (Decidable (_ ∧ True))

/-- A station that is not protected. -/
def unprotected : Receiver := associated true SecurityPriv.zero

/-- Two fragments, a frame and a timer, and the station goes. -/
def session : List RecvEvent :=
  [.recv (incoming 0x08 0x06 0x50 ipv4Body), .recv (incoming 0x08 0x02 0x51 ipv4Body),
    .recv (incoming 0x08 0x02 0x60 ipv4Body), .timeout 1 0, .freeStainfo 1]

theorem session_conserved :
    (run step unprotected session).pool.Holds nrRecvframe (run step unprotected session).held :=
  recvframes_conserved (start_initial _ _ _ _) (by decide +kernel)

/-- The last fragment of a management frame, with nothing before it. -/
def mgntFragment : RecvFrame := incoming 0xd0 0 0x51 ipv4Body

/-- The fragment is given back when the queue cannot be put together, and once more after that. -/
theorem mgntFragment_freed_twice : unprotected.Initial ∧
    ¬ (run step unprotected [.recv mgntFragment]).pool.Holds nrRecvframe
      (run step unprotected [.recv mgntFragment]).held := by
  constructor
  · exact start_initial _ _ _ _
  · intro h
    have htwice : (run step unprotected [.recv mgntFragment]).pool.doubled = [0] := by
      decide
    have hnone := h.doubled
    rw [htwice] at hnone
    cases hnone

end Receiver

end Rtl8188eu

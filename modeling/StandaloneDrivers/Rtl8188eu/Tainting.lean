import StandaloneDrivers.Rtl8188eu.RecvOwnership
import StandaloneDrivers.Rtl8188eu.Verification

/-! What holds a part of a frame that did not verify, over the functions of the receive path. -/
namespace Rtl8188eu
open Foundations
attribute [local instance] neZero_sixteen

/-- The frames that hold a part of something that did not verify, after one more act: a frame that
is received starts afresh, and one that is put together takes after its fragments. -/
def taint (tainted : List ℕ) : RecvAct → List ℕ
  | .received f => tainted.filter (· ≠ f.id)
  | .opened sec stapriv f =>
      if !f.attrib.bdecrypted && !mpduVerifies sec stapriv f then f.id :: tainted else tainted
  | .joined ids => if ids.any tainted.contains then ids.take 1 ++ tainted else tainted
  | .checked sec stapriv f =>
      if getFrameType f.mem = wifiDataType ∧ f.attrib.bdecrypted = false ∧ f.attrib.encrypt = .tkip ∧
          micVerifies sec stapriv f = false then f.id :: tainted else tainted
  | _ => tainted

/-- A frame that is handed up is not tainted. -/
def Clean (tainted : List ℕ) : RecvAct → Prop
  | .indicated f | .split f => f.id ∉ tainted
  | _ => True

/-- The condition on a frame given to a decryptor or to the Michael check: the answer says whether
it verifies. Michael finds the station of the frame. -/
def RecvAct.Checkable : RecvAct → Prop
  | .opened sec stapriv f => f.attrib.bdecrypted = false → MpduCheckable sec stapriv f
  | .checked _ stapriv f => getFrameType f.mem = wifiDataType → f.attrib.bdecrypted = false →
      f.attrib.encrypt = .tkip → f.attrib.privacy = true ∧
        (stapriv.station f.attrib.ta).isSome = true
  | _ => True

instance : DecidablePred RecvAct.Checkable
  | .opened _ _ _ => show Decidable (_ = false → _) from inferInstance
  | .checked _ _ _ => show Decidable (_ → _ → _ → _ ∧ _) from inferInstance
  | .received _ | .mgnt _ _ _ | .joined _ | .port _ _ _ _ _ | .indicated _ | .split _
  | .freed _ => isTrue trivial

namespace Receiver

/-- The first act of `recvframe_chk_defrag`. -/
def joinedActs (s : Receiver) (f : RecvFrame) : List RecvAct :=
  if !f.attrib.mfrag && f.attrib.fragNum != 0 then
    match s.stapriv.pdefragQ f with
    | none => []
    | some i => [.joined ((s.stapriv.defragQ i ++ [f]).map RecvFrame.id)]
  else []

/-- What is put together is the frame itself and frames of its queue. -/
theorem joinedActs_ids {s : Receiver} {f : RecvFrame} {act : RecvAct}
    (h : act ∈ s.joinedActs f) : ∃ ids, act = .joined ids ∧ ∀ id ∈ ids, id ∈ f.id :: s.held := by
  unfold joinedActs at h
  split at h
  · split at h
    · cases h
    · rename_i i hi
      refine ⟨_, List.mem_singleton.mp h, ?_⟩
      intro id hid
      obtain ⟨g, hg, rfl⟩ := List.mem_map.mp hid
      rcases List.mem_append.mp hg with hg | hg
      · obtain ⟨psta, hpsta⟩ := StaPriv.pdefragQ_some hi
        obtain ⟨others, hself, -⟩ := StaPriv.setDefragQ_frames hpsta
        apply List.mem_cons_of_mem
        apply List.mem_map_of_mem
        apply List.mem_append_left
        exact hself.mem_iff.mpr (List.mem_append_left _ hg)
      · rw [List.mem_singleton.mp hg]
        exact List.mem_cons_self
  · cases h

theorem queueFragment_id {s : Receiver} {f g : RecvFrame}
    (h : (s.stapriv.queueFragment f).2.frame = some g) : g.id ∈ f.id :: s.held := by
  have hids := (StaPriv.queueFragment_ids s.stapriv f).subset
  have hmem : g.id ∈ f.id :: s.stapriv.frames.map RecvFrame.id := by
    apply hids
    apply List.mem_append_left
    rw [Merged.ids, h]
    exact List.mem_append_right _ (List.mem_singleton.mpr rfl)
  rw [held, List.map_append, ← List.cons_append]
  exact List.mem_append_left _ hmem

theorem run_joined {tainted : List ℕ} {acts : List RecvAct}
    (h : ∀ act ∈ acts, ∃ ids, act = .joined ids ∧ ∀ id ∈ ids, id ∉ tainted) :
    run taint tainted acts = tainted := by
  induction acts with
  | nil => rfl
  | cons act acts ih =>
    obtain ⟨ids, rfl, hids⟩ := h _ List.mem_cons_self
    have hnone : ids.any tainted.contains = false := by
      rw [List.any_eq_false]
      intro id hid
      simpa using hids id hid
    rw [run_cons, taint, hnone]
    exact ih fun act hact => h act (List.mem_cons_of_mem _ hact)

/-- A frame whose Michael code does not verify is given back. -/
theorem recvframeChkDefrag_fails {s : Receiver} {f g : RecvFrame}
    (hframe : (s.stapriv.queueFragment f).2.frame = some g) (hprivacy : g.attrib.privacy = true)
    (htkip : g.attrib.encrypt = .tkip)
    (hstation : ((s.stapriv.queueFragment f).1.station g.attrib.ta).isSome = true)
    (hmic : micVerifies s.sec (s.stapriv.queueFragment f).1 g = false) :
    (s.stapriv.recvframeChkDefrag s.sec f).2.frame = none ∧
      g.id ∈ (s.stapriv.recvframeChkDefrag s.sec f).2.freed := by
  obtain ⟨stainfo, hstainfo⟩ := Option.isSome_iff_exists.mp hstation
  have hnot : g.micOk (rxMickey s.sec stainfo g.attrib) = false := by
    simpa [micVerifies, hstainfo] using hmic
  have hchk : recvframeChkmic (s.stapriv.queueFragment f).1 s.sec g = (.fail, g.pullTail 8) := by
    simp [recvframeChkmic, htkip, hstainfo, hnot]
  simp only [StaPriv.recvframeChkDefrag, hframe, hprivacy, if_true, hchk]
  exact ⟨trivial, List.mem_append_right _ (List.mem_singleton.mpr rfl)⟩

/-- `recvframe_chk_defrag` taints no frame, or one that it gives back. -/
theorem defragActs_run {s : Receiver} {f : RecvFrame} {tainted : List ℕ}
    (h : ∀ id ∈ f.id :: s.held, id ∉ tainted)
    (hacts : ∀ act ∈ s.defragActs f, act.Checkable) :
    run taint tainted (s.defragActs f) = tainted ∨
      ∃ g : RecvFrame, g.id ∈ f.id :: s.held ∧
        g.id ∈ (s.stapriv.recvframeChkDefrag s.sec f).2.freed ∧
          (s.stapriv.recvframeChkDefrag s.sec f).2.frame = none ∧
            run taint tainted (s.defragActs f) = g.id :: tainted := by
  have hjoined : run taint tainted (s.joinedActs f) = tainted := by
    apply run_joined
    intro act hact
    obtain ⟨ids, hids, hmem⟩ := joinedActs_ids hact
    exact ⟨ids, hids, fun id hid => h id (hmem id hid)⟩
  have hsplit : s.defragActs f = s.joinedActs f ++ ((s.stapriv.queueFragment f).2.frame.map
      fun g => RecvAct.checked s.sec (s.stapriv.queueFragment f).1 g).toList := rfl
  rw [hsplit] at hacts ⊢
  rw [run_append, hjoined]
  cases hframe : (s.stapriv.queueFragment f).2.frame with
  | none => exact Or.inl rfl
  | some g =>
    rw [hframe] at hacts
    have hact := hacts _ (List.mem_append_right _ (List.mem_singleton.mpr rfl))
    simp only [Option.map_some, Option.toList_some, run_cons, run_nil, taint]
    split
    · rename_i hfails
      obtain ⟨hdata, hdecrypted, htkip, hmic⟩ := hfails
      obtain ⟨hprivacy, hstation⟩ := hact hdata hdecrypted htkip
      obtain ⟨hnone, hfreed⟩ := recvframeChkDefrag_fails hframe hprivacy htkip hstation hmic
      exact Or.inr ⟨g, queueFragment_id hframe, hfreed, hnone, rfl⟩
    · exact Or.inl rfl

theorem defragActs_clean {s : Receiver} {f : RecvFrame} {tainted : List ℕ} :
    Guarded taint Clean tainted (s.defragActs f) := by
  have hsplit : s.defragActs f = s.joinedActs f ++ ((s.stapriv.queueFragment f).2.frame.map
      fun g => RecvAct.checked s.sec (s.stapriv.queueFragment f).1 g).toList := rfl
  rw [hsplit, guarded_append]
  constructor
  · unfold joinedActs
    split
    · split
      · trivial
      · exact ⟨trivial, trivial⟩
    · trivial
  · cases (s.stapriv.queueFragment f).2.frame with
    | none => trivial
    | some g => exact ⟨trivial, trivial⟩

theorem merging_held {s : Receiver} {f : RecvFrame} {id : ℕ}
    (h : id ∈ (s.stapriv.recvframeChkDefrag s.sec f).2.ids ++ (s.merging f).held) :
    id ∈ f.id :: s.held := by
  have hids := (StaPriv.recvframeChkDefrag_ids s.stapriv s.sec f).subset
  rw [held, List.map_append] at h ⊢
  rw [← List.append_assoc] at h
  rw [← List.cons_append]
  rcases List.mem_append.mp h with h | h
  · exact List.mem_append_left _ (hids h)
  · exact List.mem_append_right _ h

/-- Nothing tainted has been handed up, and neither the frames in queues nor those that are being
worked on are tainted. -/
structure Clear (tainted ids : List ℕ) (s : Receiver) : Prop where
  acts : Guarded taint Clean tainted s.acts
  held : ∀ id ∈ ids ++ s.held, id ∉ run taint tainted s.acts
  message : s.message.length = maxMsgSize

section
variable {tainted ids freed : List ℕ} {s : Receiver} {f g : RecvFrame} {id orig : ℕ}

theorem freeAll_held : (s.freeAll freed).held = s.held.filter (· ∉ freed) := by
  induction freed generalizing s with
  | nil => simp [freeAll]
  | cons id freed ih =>
    have hstep : s.freeAll (id :: freed) = (s.rtwFreeRecvframe id).freeAll freed := rfl
    rw [hstep, ih, free_held, List.filter_filter]
    apply List.filter_congr
    intro r _
    simp [Bool.and_comm]

theorem freeAll_tainted : Guarded taint Clean tainted (s.freeAll freed).acts ↔
    Guarded taint Clean tainted s.acts := by
  induction freed generalizing s with
  | nil => exact Iff.rfl
  | cons id freed ih =>
    have hstep : s.freeAll (id :: freed) = (s.rtwFreeRecvframe id).freeAll freed := rfl
    rw [hstep, ih, rtwFreeRecvframe, guarded_append]
    simp [Guarded, Clean]

theorem freeAll_run : run taint tainted (s.freeAll freed).acts = run taint tainted s.acts := by
  induction freed generalizing s with
  | nil => rfl
  | cons id freed ih =>
    have hstep : s.freeAll (id :: freed) = (s.rtwFreeRecvframe id).freeAll freed := rfl
    rw [hstep, ih, rtwFreeRecvframe, run_append]
    rfl

theorem freeAll_message : (s.freeAll freed).message = s.message := by
  induction freed generalizing s with
  | nil => rfl
  | cons id freed ih => exact ih

/-- Frames that are given back may be tainted. -/
theorem freeAll_clear (hacts : Guarded taint Clean tainted s.acts)
    (hids : ∀ id ∈ ids, id ∉ run taint tainted s.acts)
    (hheld : ∀ id ∈ s.held, id ∉ freed → id ∉ run taint tainted s.acts)
    (hm : s.message.length = maxMsgSize) : (s.freeAll freed).Clear tainted ids where
  acts := freeAll_tainted.mpr hacts
  held id hid := by
    rw [freeAll_run]
    rcases List.mem_append.mp hid with hid | hid
    · exact hids id hid
    · rw [freeAll_held] at hid
      obtain ⟨hmem, hnot⟩ := List.mem_filter.mp hid
      exact hheld id hmem (by simpa using hnot)
  message := by rw [freeAll_message, hm]

namespace Clear

theorem freeAll (h : s.Clear tainted ids) : (s.freeAll freed).Clear tainted ids :=
  freeAll_clear h.acts (fun id hid => h.held id (List.mem_append_left _ hid))
    (fun id hid _ => h.held id (List.mem_append_right _ hid)) h.message

theorem free (h : s.Clear tainted ids) : (s.rtwFreeRecvframe id).Clear tainted ids := by
  have hall : (s.freeAll [id]).Clear tainted ids := h.freeAll
  exact hall

/-- Frames that go elsewhere. -/
theorem subset {t : Receiver} {ids' : List ℕ} (h : s.Clear tainted ids) (hacts : t.acts = s.acts)
    (hids : ∀ id ∈ ids' ++ t.held, id ∈ ids ++ s.held) (hmessage : t.message = s.message) :
    t.Clear tainted ids' where
  acts := by rw [hacts]; exact h.acts
  held id hid := by rw [hacts]; exact h.held id (hids id hid)
  message := by rw [hmessage]; exact h.message

theorem log {act : RecvAct} (h : s.Clear tainted ids)
    (htaint : ∀ tainted, taint tainted act = tainted)
    (hclean : Clean (run taint tainted s.acts) act) : (s.log act).Clear tainted ids where
  acts := guarded_append.mpr ⟨h.acts, hclean, trivial⟩
  held id hid := by
    rw [Receiver.log, run_append, run_cons, run_nil, htaint]
    exact h.held id hid
  message := h.message

theorem perform {act : Act} (h : s.Clear tainted ((act.frame.map RecvFrame.id).toList ++ ids)) :
    (s.perform act).Clear tainted ids := by
  have hkept : s.Clear tainted ids := by
    apply h.subset rfl _ rfl
    intro id hid
    rw [List.append_assoc]
    exact List.mem_append_right _ hid
  cases act with
  | moved seq => exact hkept
  | indicated f =>
    have hlog : (s.log (.indicated f)).Clear tainted ids :=
      hkept.log (fun _ => rfl) (h.held f.id List.mem_cons_self)
    exact hlog.free
  | split f =>
    have hlog : (s.log (.split f)).Clear tainted ids :=
      hkept.log (fun _ => rfl) (h.held f.id List.mem_cons_self)
    exact hlog.free
  | forgotten f => exact hkept

theorem performAll {acts : List Act}
    (h : s.Clear tainted ((acts.filterMap Act.frame).map RecvFrame.id ++ ids)) :
    (s.performAll acts).Clear tainted ids := by
  induction acts generalizing s with
  | nil => exact h
  | cons act acts ih =>
    apply ih
    apply perform
    apply h.subset rfl _ rfl
    intro id hid
    rw [List.filterMap_cons]
    cases hframe : act.frame with
    | none =>
      rw [hframe] at hid
      exact hid
    | some f =>
      rw [hframe] at hid
      simpa using hid

/-- What the cipher lets pass verifies. -/
theorem behindCipher (h : s.Clear tainted (f.id :: ids))
    (hact : (RecvAct.opened s.sec s.stapriv f).Checkable)
    (hstatus : (swDecryptFrame s.sec s.stapriv s.message f).status = .success) :
    (s.behindCipher f).Clear tainted (f.id :: ids) := by
  have htaint : taint (run taint tainted s.acts) (.opened s.sec s.stapriv f) =
      run taint tainted s.acts := by
    cases hdecrypted : f.attrib.bdecrypted with
    | true => simp [taint, hdecrypted]
    | false =>
      have hverifies := swDecryptFrame_verifies (hact hdecrypted) h.message hstatus
      simp [taint, hverifies]
  constructor
  · exact guarded_append.mpr ⟨h.acts, trivial, trivial⟩
  · intro id hid
    rw [Receiver.behindCipher, run_append, run_cons, run_nil, htaint]
    exact h.held id hid
  · rw [Receiver.behindCipher, swDecryptFrame_message]
    exact h.message

/-- What it does not let pass is given back. -/
theorem behindCipher_free (h : s.Clear tainted (f.id :: ids)) (hid : f.id ∉ ids) :
    ((s.behindCipher f).rtwFreeRecvframe f.id).Clear tainted ids := by
  have htaint {id : ℕ} (hmem : id ∈ ids ++ s.held) (hne : id ≠ f.id) :
      id ∉ run taint tainted (s.behindCipher f).acts := by
    have hclear := h.held id (List.mem_cons_of_mem _ hmem)
    rw [Receiver.behindCipher, run_append, run_cons, run_nil, taint]
    split
    · rw [List.mem_cons, not_or]
      exact ⟨hne, hclear⟩
    · exact hclear
  have hall : ((s.behindCipher f).freeAll [f.id]).Clear tainted ids := by
    apply freeAll_clear
    · exact guarded_append.mpr ⟨h.acts, trivial, trivial⟩
    · intro id hmem
      exact htaint (List.mem_append_left _ hmem) (ne_of_mem_of_not_mem hmem hid)
    · intro id hmem hnot
      exact htaint (List.mem_append_right _ hmem) (by simpa using hnot)
    · rw [Receiver.behindCipher, swDecryptFrame_message]
      exact h.message
  exact hall

theorem decryptor (h : s.Clear tainted (f.id :: ids)) (hid : f.id ∉ ids)
    (hacts : ∀ act ∈ (s.decryptor f).1.acts, act.Checkable) :
    (s.decryptor f).1.Clear tainted (((s.decryptor f).2.map RecvFrame.id).toList ++ ids) := by
  have hlogged : (RecvAct.opened s.sec s.stapriv f.readKeyIndex) ∈
      (s.behindCipher f.readKeyIndex).acts :=
    List.mem_append_right _ (List.mem_singleton.mpr rfl)
  rw [← readKeyIndex_id] at h hid
  rcases s.decryptor_cases f with ⟨-, hstatus, heq⟩ | ⟨-, -, heq⟩ | ⟨-, sec, heq⟩
  · rw [heq] at hacts ⊢
    rw [Option.map_some, (swDecryptFrame_kept _ _ _ _).id]
    exact h.behindCipher (hacts _ hlogged) hstatus
  · rw [heq]
    exact h.behindCipher_free hid
  · rw [heq, Option.map_some]
    exact h.subset rfl (fun id hid => hid) rfl

/-- What is passed on behind the Michael check is not tainted. -/
theorem chkDefrag (h : s.Clear tainted (f.id :: ids))
    (howns : Owns Pool.Apart s (f.id :: ids))
    (hacts : ∀ act ∈ (s.chkDefrag f).1.acts, act.Checkable) :
    (s.chkDefrag f).1.Clear tainted (((s.chkDefrag f).2.map RecvFrame.id).toList ++ ids) := by
  obtain ⟨hnodup, -, hdisjoint⟩ := List.nodup_append.mp (List.nodup_append.mp howns).2.1
  have hfresh : f.id ∉ ids := (List.nodup_cons.mp hnodup).1
  have hold : ∀ id ∈ f.id :: s.held, id ∉ run taint tainted s.acts := by
    intro id hid
    apply h.held
    rcases List.mem_cons.mp hid with rfl | hid
    · exact List.mem_cons_self
    · exact List.mem_append_right _ hid
  have hrun : run taint tainted (s.merging f).acts =
      run taint (run taint tainted s.acts) (s.defragActs f) := run_append _ _ _ _
  have hdefrag : ∀ act ∈ s.defragActs f, act.Checkable := fun act hact =>
    hacts act (freeAll_acts.subset (List.mem_append_right _ hact))
  apply freeAll_clear (s := s.merging f)
  · exact guarded_append.mpr ⟨h.acts, defragActs_clean⟩
  · intro id hid
    rw [hrun]
    rcases defragActs_run hold hdefrag with hsame | ⟨g, hg, -, hnone, hmore⟩
    · rw [hsame]
      rcases List.mem_append.mp hid with hid | hid
      · exact hold id (merging_held (List.mem_append_left _ (List.mem_append_right _ hid)))
      · exact h.held id (List.mem_cons_of_mem _ (List.mem_append_left _ hid))
    · rw [hmore, List.mem_cons, not_or]
      have hid' : id ∈ ids := by
        have hframe : (s.chkDefrag f).2 = none := hnone
        rwa [hframe] at hid
      constructor
      · rintro rfl
        rcases List.mem_cons.mp hg with heq | hheld
        · rw [heq] at hid'
          exact hfresh hid'
        · exact hdisjoint _ (List.mem_cons_of_mem _ hid') _ hheld rfl
      · exact h.held id (List.mem_cons_of_mem _ (List.mem_append_left _ hid'))
  · intro id hid hnot
    rw [hrun]
    have hid' := hold id (merging_held (List.mem_append_right _ hid))
    rcases defragActs_run hold hdefrag with hsame | ⟨g, -, hfreed, -, hmore⟩
    · rwa [hsame]
    · rw [hmore, List.mem_cons, not_or]
      exact ⟨fun heq => hnot (heq ▸ hfreed), hid'⟩
  · exact h.message

/-- What a reorder control hands up was in its queue or has been given to it. -/
theorem moves {slot : ℕ} {priority : Fin 16} {c : RecvReorderCtrl} {given : List RecvFrame}
    {o : Outcome} (h : s.Clear tainted (given.map RecvFrame.id ++ ids))
    (hc : s.stapriv.preorderCtrl slot priority = some c)
    (hmoves : (o.acts.filterMap Act.frame ++ o.ctrl.pending).Perm (given ++ c.pending)) :
    ({ s with stapriv := s.stapriv.setPreorderCtrl slot priority o.ctrl }.performAll
      o.acts).Clear tainted ids := by
  obtain ⟨others, hself, hset⟩ := StaPriv.setPreorderCtrl_frames hc
  apply performAll
  apply subset h
  · rfl
  · intro id hid
    have hbefore := (hself.map RecvFrame.id).mem_iff (a := id)
    have hafter := ((hset o.ctrl).map RecvFrame.id).mem_iff (a := id)
    have hmoved := (hmoves.map RecvFrame.id).mem_iff (a := id)
    simp only [Receiver.held, List.map_append, List.mem_append] at hbefore hafter hmoved hid ⊢
    rw [hafter] at hid
    rw [hbefore]
    tauto
  · rfl

theorem processRecvIndicatepkts (h : s.Clear tainted (f.id :: ids)) :
    (s.processRecvIndicatepkts f).1.Clear tainted ids := by
  have hkept : s.Clear tainted ids := by
    apply h.subset rfl _ rfl
    intro id hid
    exact List.mem_cons_of_mem _ hid
  unfold Receiver.processRecvIndicatepkts
  split
  · split
    · exact hkept.free
    · rename_i slot c hctrl
      obtain ⟨slot', hslot, hmap⟩ := Option.bind_eq_some_iff.mp hctrl
      obtain ⟨c', hc, hpair⟩ := Option.map_eq_some_iff.mp hmap
      cases hpair
      have hmoves := (c.recvIndicatepktReorder_moves s.flags f).frames
      apply moves _ hc hmoves
      cases (c.recvIndicatepktReorder s.flags f).1 with
      | success =>
        simp only [RecvReorderCtrl.given, List.map_cons, List.map_nil, RecvFrame.converted_id]
        exact h
      | fail => exact hkept
  · split
    · show (s.perform (.indicated (wlanhdrToEthhdr f))).Clear tainted ids
      apply perform
      simp only [Act.frame, Option.map_some, wlanhdrToEthhdr_id]
      exact h
    · exact hkept

theorem handUp (h : s.Clear tainted (f.id :: ids)) : (s.handUp orig f).Clear tainted ids := by
  have hport : (s.atPort orig f).Clear tainted (f.id :: ids) := h.log (fun _ => rfl) trivial
  have hprocess := hport.processRecvIndicatepkts
  unfold Receiver.handUp
  split
  · rename_i t heq
    rwa [heq] at hprocess
  · rename_i t heq
    rw [heq] at hprocess
    exact hprocess.free

theorem recvFuncPosthandle (h : s.Clear tainted (f.id :: ids))
    (howns : Owns Pool.Apart s (f.id :: ids))
    (hacts : ∀ act ∈ (s.recvFuncPosthandle f).acts, act.Checkable) :
    (s.recvFuncPosthandle f).Clear tainted ids := by
  have hid : f.id ∉ ids := fun hmem => howns.notMem.2 (List.mem_append_left _ hmem)
  have hdec := decryptor_owns Pool.apart_rules howns
  rcases s.recvFuncPosthandle_cases f with ⟨hd, heq⟩ | ⟨g, hd, hc, heq⟩ | ⟨g, p, hd, hc, heq⟩
  · rw [heq] at hacts ⊢
    have hclear := h.decryptor hid hacts
    rwa [hd] at hclear
  · rw [heq] at hacts ⊢
    have hclear := h.decryptor hid fun act hact => hacts act (chkDefrag_acts.subset hact)
    rw [hd] at hclear hdec
    have hdefrag := hclear.chkDefrag hdec hacts
    rwa [hc] at hdefrag
  · rw [heq] at hacts ⊢
    have hbefore : ∀ act ∈ ((s.decryptor f).1.chkDefrag g).1.acts, act.Checkable := fun act hact =>
      hacts act (handUp_acts.subset (List.mem_append_left _ hact))
    have hclear := h.decryptor hid fun act hact => hbefore act (chkDefrag_acts.subset hact)
    rw [hd] at hclear hdec
    have hdefrag := hclear.chkDefrag hdec hbefore
    rw [hc] at hdefrag
    exact hdefrag.handUp

theorem drainPending {n : ℕ} (h : s.Clear tainted ids) (howns : Owns Pool.Apart s ids)
    (hacts : ∀ act ∈ (drainPending n s).acts, act.Checkable) :
    (drainPending n s).Clear tainted ids := by
  induction n generalizing s with
  | zero => exact h
  | succ n ih =>
    unfold Receiver.drainPending at hacts ⊢
    split at hacts
    · exact h
    · rename_i f queue hq
      have htaken : Owns Pool.Apart { s with ucSwdecPendingQueue := queue } (f.id :: ids) := by
        apply Owns.of_perm Pool.apart_rules howns
        · rfl
        · rw [List.perm_iff_count]
          intro a
          simp only [Receiver.held, hq, List.map_append, List.map_cons, List.count_append,
            List.count_cons]
          omega
      apply ih _ _ hacts
      · apply recvFuncPosthandle _ htaken
        · exact fun act hact => hacts act (drainPending_acts.subset hact)
        · apply subset h
          · rfl
          · intro id hid
            simp only [Receiver.held, hq, List.map_append, List.map_cons, List.mem_append,
              List.mem_cons] at hid ⊢
            tauto
          · rfl
      · exact recvFuncPosthandle_owns Pool.apart_rules htaken (Or.inl Pool.apart_lossy)

theorem recvFrame (h : s.Clear tainted [f.id]) (howns : Owns Pool.Apart s [f.id])
    (hacts : ∀ act ∈ (s.recvFrame f).acts, act.Checkable) :
    (s.recvFrame f).Clear tainted [] := by
  have hkept : s.Clear tainted [] := by
    apply h.subset rfl _ rfl
    intro id hid
    exact List.mem_cons_of_mem _ hid
  rcases s.recvFrame_cases f with heq | heq | ⟨stapriv, g, hvalid, heq⟩
  · rw [heq]
    exact hkept.free
  · rw [heq] at hacts ⊢
    rw [← readHeader_id] at h howns
    have hlog : (s.log (.mgnt s.sec s.stapriv (readHeader f))).Clear tainted [(readHeader f).id] :=
      h.log (fun _ => rfl) trivial
    have hdefrag := hlog.chkDefrag howns fun act hact => hacts act (free_acts.subset hact)
    have hpassed : ((s.log (.mgnt s.sec s.stapriv (readHeader f))).chkDefrag
        (readHeader f)).1.Clear tainted [] := by
      apply hdefrag.subset rfl _ rfl
      intro id hid
      exact List.mem_append_right _ hid
    exact hpassed.free
  · obtain ⟨hid, hframes⟩ := StaPriv.validateRecvDataFrame_frames hvalid
    have hmem (id : ℕ) := (hframes.map RecvFrame.id).mem_iff (a := id)
    rw [readHeader_id] at hid
    rcases heq with heq | heq
    · rw [heq]
      apply subset h
      · rfl
      · intro id hin
        simp only [Receiver.held, List.map_append, List.map_cons, List.map_nil, hid,
          List.mem_append, List.mem_cons, hmem id] at hin ⊢
        tauto
      · rfl
    · rw [heq] at hacts ⊢
      apply recvFuncPosthandle _ _ hacts
      · rw [hid]
        apply subset h
        · rfl
        · intro id hin
          simp only [Receiver.held, List.map_append, List.mem_append, hmem id] at hin ⊢
          exact hin
        · rfl
      · rw [hid]
        apply Owns.of_perm Pool.apart_rules howns
        · rfl
        · simp only [Receiver.held, List.map_append]
          exact ((hframes.map RecvFrame.id).symm.append_right _).append_left _

theorem recvFunc (h : s.Clear tainted [f.id]) (howns : Owns Pool.Apart s [f.id])
    (hacts : ∀ act ∈ (s.recvFunc f).acts, act.Checkable) :
    (s.recvFunc f).Clear tainted [] := by
  unfold Receiver.recvFunc at hacts ⊢
  dsimp only at hacts ⊢
  split at hacts
  · rename_i hdrain
    rw [if_pos hdrain]
    have hbefore := h.drainPending howns fun act hact => hacts act (recvFrame_acts.subset hact)
    have hdrained := drainPending_owns Pool.apart_rules (n := s.ucSwdecPendingQueue.length) howns
      (Or.inl Pool.apart_lossy)
    exact hbefore.recvFrame hdrained hacts
  · rename_i hdrain
    rw [if_neg hdrain]
    exact h.recvFrame howns hacts

/-- A frame that is received is not tainted any more. -/
theorem recvEntry (h : s.Clear tainted []) (howns : Owns Pool.Apart s [])
    (hacts : ∀ act ∈ (s.recvEntry f).acts, act.Checkable) :
    (s.recvEntry f).Clear tainted [] := by
  unfold Receiver.recvEntry at hacts ⊢
  split at hacts
  · exact h
  · rename_i id pool htake
    let t := { s with pool := pool }.log (.received { f with id := id })
    have howned : Owns Pool.Apart t [id] := Pool.Apart.take howns htake
    have hlog : t.Clear tainted [id] := by
      constructor
      · exact guarded_append.mpr ⟨h.acts, trivial, trivial⟩
      · intro other hother
        show other ∉ run taint tainted (s.acts ++ [.received { f with id := id }])
        rw [run_append, run_cons, run_nil, taint, List.mem_filter]
        rintro ⟨hmem, hne⟩
        rcases List.mem_cons.mp hother with heq | hheld
        · simp [heq] at hne
        · exact h.held other hheld hmem
      · exact h.message
    exact recvFunc (s := t) hlog howned hacts

theorem reorderTimeout {slot : ℕ} {priority : Fin 16} (h : s.Clear tainted []) :
    (s.reorderTimeout slot priority).Clear tainted [] := by
  unfold Receiver.reorderTimeout
  split
  · exact h
  · rename_i c hc
    have hstart : s.Clear tainted (([] : List RecvFrame).map RecvFrame.id ++ []) := h
    exact hstart.moves hc (c.timeoutHandler_moves s.flags).frames

theorem rtwFreeStainfo {slot : ℕ} (h : s.Clear tainted []) :
    (s.rtwFreeStainfo slot).Clear tainted [] := by
  unfold Receiver.rtwFreeStainfo
  split
  · exact h
  · rename_i psta hpsta
    have hdropped : { s with stapriv := s.stapriv.dropStation slot }.Clear tainted [] := by
      apply subset h
      · rfl
      · intro id hid
        have hframes := ((StaPriv.dropStation_frames hpsta).map RecvFrame.id).mem_iff (a := id)
        simp only [Receiver.held, List.map_append, List.mem_append] at hframes hid ⊢
        tauto
      · rfl
    exact hdropped.freeAll

theorem rtwAllocStainfo {slot : ℕ} {hwaddr : MacAddr} (h : s.Clear tainted []) :
    (s.rtwAllocStainfo slot hwaddr).Clear tainted [] := by
  apply subset h
  · rfl
  · intro id hid
    cases hslot : s.stapriv.stainfo[slot]? with
    | none =>
      have hsame : s.stapriv.modify slot (fun _ => StaInfo.alloc hwaddr) = s.stapriv := by
        rw [StaPriv.modify, List.modify_eq_self]
        exact List.getElem?_eq_none_iff.mp hslot
      simp only [Receiver.held, Receiver.rtwAllocStainfo, hsame] at hid
      exact hid
    | some psta =>
      obtain ⟨others, hself, hset⟩ := StaPriv.modify_frames hslot
      have hfresh := hset fun _ => StaInfo.alloc hwaddr
      rw [StaInfo.alloc_frames, List.nil_append] at hfresh
      have hbefore := (hself.map RecvFrame.id).mem_iff (a := id)
      have hafter := (hfresh.map RecvFrame.id).mem_iff (a := id)
      simp only [Receiver.held, Receiver.rtwAllocStainfo, List.map_append,
        List.mem_append] at hbefore hid ⊢
      simp only [StaPriv.frames] at hafter hbefore hid ⊢
      tauto
  · rfl

theorem modify {slot : ℕ} {g : StaInfo → StaInfo} (h : s.Clear tainted [])
    (hg : ∀ psta, (g psta).frames = psta.frames) :
    { s with stapriv := s.stapriv.modify slot g }.Clear tainted [] := by
  apply subset h
  · rfl
  · intro id hid
    simp only [Receiver.held, s.stapriv.modify_frames_same slot hg] at hid
    exact hid
  · rfl

theorem rtwFreeUcSwdecPendingQueue (h : s.Clear tainted []) :
    s.rtwFreeUcSwdecPendingQueue.Clear tainted [] := by
  apply freeAll
  apply subset h
  · rfl
  · intro id hid
    simp only [Receiver.held, List.append_nil, List.map_append, List.mem_append] at hid ⊢
    tauto
  · rfl

/-- A step whose checks are right leaves nothing tainted in the queues, and hands nothing tainted
up. -/
theorem step (e : RecvEvent) (h : { s with acts := [] }.Clear tainted [])
    (howns : Owns Pool.Apart s []) (hacts : ∀ act ∈ (s.step e).acts, act.Checkable) :
    (s.step e).Clear tainted [] := by
  cases e with
  | recv f => exact recvEntry (s := { s with acts := [] }) h howns hacts
  | timeout slot priority => exact h.reorderTimeout
  | blocked slot blocked => exact h.modify fun _ => rfl
  | freeStainfo slot =>
    simp only [Receiver.step]
    split
    · exact h.rtwFreeStainfo
    · exact h
  | allocStainfo slot hwaddr =>
    simp only [Receiver.step]
    split
    · exact h
    · exact h.rtwAllocStainfo
  | update slot new => exact h.modify fun psta => psta.update_frames new
  | freeUcSwdec => exact h.rtwFreeUcSwdecPendingQueue
  | config mlme sec flags => exact h.subset rfl (fun id hid => hid) rfl

end Clear

end

end Receiver

end Rtl8188eu

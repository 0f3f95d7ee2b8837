import StandaloneDrivers.Rtl8188eu.RecvPath
import StandaloneDrivers.Rtl8188eu.ReorderQueue
import Mathlib.Data.List.Perm.Basic

/-! Where the functions of the receive path put the frames. -/
namespace Rtl8188eu
open Foundations

namespace StaInfo

theorem listDelete_frames (psta : StaInfo) (id : ℕ) :
    (psta.listDelete id).frames = psta.frames.filter fun f => f.id ≠ id := by
  simp only [frames, listDelete, Vector.toList_map, List.flatMap_map, List.filter_append,
    List.filter_flatMap]

/-- The frames of one reorder control. -/
theorem set_frames (psta : StaInfo) (priority : Fin 16) : ∃ others,
    psta.frames.Perm ((psta.recvreorderCtrl.get priority).pending ++ others) ∧
      ∀ c, { psta with
        recvreorderCtrl := psta.recvreorderCtrl.set priority c (val_lt_sixteen priority) }.frames.Perm
          (c.pending ++ others) := by
  have hget : psta.recvreorderCtrl.toList[priority.val]? =
      some (psta.recvreorderCtrl.get priority) := by
    rw [List.getElem?_eq_getElem (by simp)]
    rfl
  obtain ⟨others, hself, hset⟩ := flatMap_set RecvReorderCtrl.pending hget
  refine ⟨psta.defragQ ++ others, ?_, ?_⟩
  · exact (hself.append_left _).trans (List.perm_append_comm_assoc _ _ _)
  · intro c
    simp only [frames, Vector.toList_set]
    exact ((hset c).append_left _).trans (List.perm_append_comm_assoc _ _ _)

theorem update_frames (psta new : StaInfo) : (psta.update new).frames = psta.frames := by
  have hctrl : psta.recvreorderCtrl.toList = List.ofFn psta.recvreorderCtrl.get := by
    apply List.ext_getElem
    · simp
    · intro i _ _
      rw [List.getElem_ofFn]
      rfl
  unfold frames update
  rw [hctrl, Vector.toList_ofFn, List.flatMap_def, List.flatMap_def, List.map_ofFn, List.map_ofFn]
  rfl

theorem alloc_frames (hwaddr : MacAddr) : (alloc hwaddr).frames = [] := by
  simp [frames, alloc, RecvReorderCtrl.start]

end StaInfo

namespace StaPriv
variable {stapriv : StaPriv} {i : ℕ} {psta : StaInfo}

theorem listDelete_frames (stapriv : StaPriv) (id : ℕ) :
    (stapriv.listDelete id).frames = stapriv.frames.filter fun f => f.id ≠ id := by
  simp only [frames, listDelete, List.flatMap_map, List.filter_flatMap, StaInfo.listDelete_frames]

/-- The frames of one station. -/
theorem modify_frames (h : stapriv.stainfo[i]? = some psta) : ∃ others,
    stapriv.frames.Perm (psta.frames ++ others) ∧
      ∀ g, (stapriv.modify i g).frames.Perm ((g psta).frames ++ others) := by
  obtain ⟨others, hself, hset⟩ := flatMap_set StaInfo.frames h
  refine ⟨others, hself, ?_⟩
  intro g
  have hmodify : stapriv.stainfo.modify i g = stapriv.stainfo.set i (g psta) := by
    obtain ⟨hi, hpsta⟩ := List.getElem?_eq_some_iff.mp h
    rw [List.modify_eq_take_cons_drop hi, hpsta, List.set_eq_take_append_cons_drop, if_pos hi]
  simp only [frames, modify, hmodify]
  exact hset (g psta)

/-- A change of a station that leaves its queues alone. -/
theorem modify_frames_same (stapriv : StaPriv) (i : ℕ) {g : StaInfo → StaInfo}
    (hg : ∀ psta, (g psta).frames = psta.frames) :
    (stapriv.modify i g).frames = stapriv.frames := by
  unfold frames modify
  dsimp only
  induction stapriv.stainfo generalizing i with
  | nil => cases i <;> rfl
  | cons psta stainfo ih =>
    cases i with
    | zero => rw [List.modify_zero_cons, List.flatMap_cons, List.flatMap_cons, hg]
    | succ i => rw [List.modify_succ_cons, List.flatMap_cons, List.flatMap_cons, ih]

/-- The frames of a station that is dropped. -/
theorem dropStation_frames (h : stapriv.stainfo[i]? = some psta) :
    stapriv.frames.Perm (psta.frames ++ (stapriv.dropStation i).frames) := by
  obtain ⟨others, hself, hset⟩ := modify_frames h
  have hdropped : (stapriv.dropStation i).frames.Perm others := by
    apply (hset _).trans
    simp only [StaInfo.frames, Vector.toList_map, List.flatMap_map, List.nil_append]
    rw [List.flatMap_eq_nil_iff.mpr fun _ _ => rfl]
    exact List.Perm.refl _
  exact hself.trans (hdropped.symm.append_left _)

/-- The frames of one reassembly queue. -/
theorem setDefragQ_frames (h : stapriv.stainfo[i]? = some psta) : ∃ others,
    stapriv.frames.Perm (stapriv.defragQ i ++ others) ∧
      ∀ q, (stapriv.setDefragQ i q).frames.Perm (q ++ others) := by
  obtain ⟨others, hself, hset⟩ := modify_frames h
  have hq : stapriv.defragQ i = psta.defragQ := by rw [defragQ, h]; rfl
  refine ⟨psta.recvreorderCtrl.toList.flatMap RecvReorderCtrl.pending ++ others, ?_, ?_⟩
  · rw [hq, ← List.append_assoc]
    exact hself
  · intro q
    rw [← List.append_assoc]
    exact hset fun psta => { psta with defragQ := q }

/-- The frames of one reorder control. -/
theorem setPreorderCtrl_frames {priority : Fin 16} {c : RecvReorderCtrl}
    (h : stapriv.preorderCtrl i priority = some c) : ∃ others,
    stapriv.frames.Perm (c.pending ++ others) ∧
      ∀ c', (stapriv.setPreorderCtrl i priority c').frames.Perm (c'.pending ++ others) := by
  obtain ⟨psta, hpsta, rfl⟩ := Option.map_eq_some_iff.mp h
  obtain ⟨others, hself, hset⟩ := modify_frames hpsta
  obtain ⟨more, hctrl, hctrls⟩ := psta.set_frames priority
  refine ⟨more ++ others, ?_, ?_⟩
  · rw [← List.append_assoc]
    exact hself.trans (hctrl.append_right others)
  · intro c'
    rw [← List.append_assoc]
    exact (hset _).trans ((hctrls c').append_right others)

end StaPriv

theorem Receiver.start_initial (mlme : MlmePriv) (sec : SecurityPriv) (flags : DriverFlags)
    (stations : List MacAddr) : (start mlme sec flags stations).Initial where
  pool := rfl
  frames := by
    rw [start, StaPriv.frames, List.flatMap_map]
    exact List.flatMap_eq_nil_iff.mpr fun hwaddr _ => StaInfo.alloc_frames hwaddr
  pending := rfl
  message := List.length_replicate

namespace Merged

/-- The ids of what a call gives back and returns. -/
def ids (m : Merged) : List ℕ := m.freed ++ (m.frame.map RecvFrame.id).toList

end Merged

theorem append_id (prframe pnextrframe : RecvFrame) :
    (prframe.append pnextrframe).id = prframe.id := by
  simp only [RecvFrame.append, RecvFrame.put]
  split <;> rfl

theorem defragLoop_id {prframe out : RecvFrame} {curfragnum overrun : ℕ} {plist : List RecvFrame}
    (h : defragLoop prframe curfragnum plist = (some out, overrun)) : out.id = prframe.id := by
  induction plist generalizing prframe curfragnum overrun with
  | nil =>
    cases h
    rfl
  | cons pnextrframe plist ih =>
    unfold defragLoop at h
    split at h
    · cases h
    · obtain ⟨hsome, -⟩ := Prod.mk.inj h
      rw [ih (Prod.ext hsome rfl), append_id]

/-- The frames of a queue are returned or given back. -/
theorem recvframeDefrag_ids (q : List RecvFrame) :
    (recvframeDefrag q).ids.Perm (q.map RecvFrame.id) := by
  cases q with
  | nil => exact List.Perm.refl _
  | cons prframe plist =>
    simp only [recvframeDefrag]
    split
    · simp [Merged.ids]
    · split
      · simp [Merged.ids]
      · rename_i out overrun hloop
        rw [Merged.ids]
        simp only [Option.map_some, Option.toList_some, defragLoop_id hloop, List.map_cons]
        exact List.perm_append_singleton _ _

theorem recvframeChkmic_id (stapriv : StaPriv) (sec : SecurityPriv) (f : RecvFrame) :
    (recvframeChkmic stapriv sec f).2.id = f.id := by
  unfold recvframeChkmic
  split
  · split <;> rfl
  · rfl

namespace StaPriv

theorem pdefragQ_some {stapriv : StaPriv} {f : RecvFrame} {i : ℕ}
    (h : stapriv.pdefragQ f = some i) : ∃ psta, stapriv.stainfo[i]? = some psta := by
  unfold pdefragQ at h
  split at h
  · rename_i hsta
    cases h
    exact rtwGetStainfo_lt hsta
  · split at h
    · exact rtwGetStainfo_lt h
    · cases h

/-- A frame is queued, returned or given back, and so are the frames of the queue. -/
theorem queueFragment_ids (stapriv : StaPriv) (f : RecvFrame) :
    let r := stapriv.queueFragment f
    (r.2.ids ++ r.1.frames.map RecvFrame.id).Perm (f.id :: stapriv.frames.map RecvFrame.id) := by
  have hreturn (m : Merged) (hm : m.ids = [f.id]) :
      (m.ids ++ stapriv.frames.map RecvFrame.id).Perm (f.id :: stapriv.frames.map RecvFrame.id) := by
    rw [hm]
    exact List.Perm.refl _
  have hqueue {i : ℕ} (hi : stapriv.pdefragQ f = some i) (q : List RecvFrame) (m : Merged)
      (hm : (m.ids ++ q.map RecvFrame.id).Perm (f.id :: (stapriv.defragQ i).map RecvFrame.id)) :
      (m.ids ++ (stapriv.setDefragQ i q).frames.map RecvFrame.id).Perm
        (f.id :: stapriv.frames.map RecvFrame.id) := by
    obtain ⟨psta, hpsta⟩ := pdefragQ_some hi
    obtain ⟨others, hself, hset⟩ := setDefragQ_frames hpsta
    have hleft := ((hset q).map RecvFrame.id).append_left m.ids
    rw [List.map_append, ← List.append_assoc] at hleft
    have hright := (hself.map RecvFrame.id).cons f.id
    rw [List.map_append, ← List.cons_append] at hright
    exact hleft.trans ((hm.append_right _).trans hright.symm)
  unfold queueFragment
  split
  · split
    · exact hreturn _ rfl
    · rename_i i hi
      split
      · apply hqueue hi
        simp only [Merged.ids, Option.map_none, Option.toList_none, List.append_nil]
        exact List.perm_append_singleton _ _
      · apply hqueue hi
        rw [List.map_append]
        exact List.perm_append_singleton _ _
  · split
    · split
      · exact hreturn _ rfl
      · rename_i i hi
        apply hqueue hi
        rw [List.map_nil, List.append_nil]
        have hids := recvframeDefrag_ids (stapriv.defragQ i ++ [f])
        rw [List.map_append] at hids
        exact hids.trans (List.perm_append_singleton _ _)
    · exact hreturn _ rfl

theorem queueFragment_mfrag {stapriv : StaPriv} {f : RecvFrame} (hmfrag : f.attrib.mfrag = true)
    {i : ℕ}
    (hi : stapriv.pdefragQ f = some i) : ∃ q freed, f ∈ q ∧
      stapriv.queueFragment f = (stapriv.setDefragQ i q, ⟨none, freed, 0⟩) := by
  simp only [queueFragment, hmfrag, if_true, hi]
  split
  · exact ⟨_, _, List.mem_singleton.mpr rfl, rfl⟩
  · exact ⟨_, _, List.mem_append_right _ (List.mem_singleton.mpr rfl), rfl⟩

theorem recvframeChkDefrag_ids (stapriv : StaPriv) (sec : SecurityPriv) (f : RecvFrame) :
    let r := stapriv.recvframeChkDefrag sec f
    (r.2.ids ++ r.1.frames.map RecvFrame.id).Perm (f.id :: stapriv.frames.map RecvFrame.id) := by
  have hqueue := queueFragment_ids stapriv f
  unfold recvframeChkDefrag
  dsimp only at hqueue ⊢
  generalize stapriv.queueFragment f = r at hqueue ⊢
  split
  · exact hqueue
  · rename_i prtnframe hframe
    have hids : r.2.ids = r.2.freed ++ [prtnframe.id] := by rw [Merged.ids, hframe]; rfl
    rw [hids] at hqueue
    split
    · have hid := recvframeChkmic_id r.1 sec prtnframe
      split
      · rename_i checked hchk
        rw [hchk] at hid
        simp only [Merged.ids, Option.map_none, Option.toList_none, List.append_nil]
        rwa [hid]
      · rename_i checked hchk
        rw [hchk] at hid
        simp only [Merged.ids, Option.map_some, Option.toList_some]
        rwa [hid]
    · rwa [hids]

/-- A data frame that is accepted leaves the queues alone. -/
theorem validateRecvDataFrame_frames {mlme : MlmePriv} {sec : SecurityPriv}
    {stapriv stapriv' : StaPriv} {f g : RecvFrame}
    (h : validateRecvDataFrame mlme sec stapriv f = some (stapriv', g)) :
    g.id = f.id ∧ stapriv'.frames.Perm stapriv.frames := by
  unfold validateRecvDataFrame at h
  dsimp only at h
  split at h
  · obtain ⟨psta, -, hmap⟩ := Option.bind_eq_some_iff.mp h
    obtain ⟨next, hnext, hpair⟩ := Option.map_eq_some_iff.mp hmap
    cases hpair
    obtain ⟨psta', hpsta, hdecache⟩ := Option.bind_eq_some_iff.mp hnext
    split at hdecache
    · cases hdecache
    · cases hdecache
      obtain ⟨others, hself, hset⟩ := modify_frames hpsta
      exact ⟨rfl, (hset _).trans hself.symm⟩
  · cases h

end StaPriv

theorem RecvFrame.converted_id (f : RecvFrame) : f.converted.id = f.id := by
  unfold converted
  split
  · rfl
  · exact wlanhdrToEthhdr_id f

/-- What a call does with the frames given to it and those in the queue: each is taken off or stays,
and only a frame given to it is handed up otherwise than from the queue. -/
structure Moves (flags : DriverFlags) (given pending : List RecvFrame) (o : Outcome) : Prop where
  frames : (o.acts.filterMap Act.frame ++ o.ctrl.pending).Perm (given ++ pending)
  kinds : ∀ act ∈ o.acts, ∀ f, act.frame = some f → act = indicateAct flags f ∨ f ∈ given

namespace RecvReorderCtrl
variable (flags : DriverFlags) (c : RecvReorderCtrl)

theorem checkIndicateSeq_moves (seq : ℕ) : (c.checkIndicateSeq seq).2.ctrl.pending = c.pending ∧
    (c.checkIndicateSeq seq).2.acts.filterMap Act.frame = [] ∧
      ∀ act ∈ (c.checkIndicateSeq seq).2.acts, act.frame = none := by
  unfold checkIndicateSeq
  dsimp only
  split_ifs <;> simp [setIndicateSeq, Act.frame]

theorem indicateQueue_moves : Moves flags [] c.pending (c.indicateQueue flags).2 where
  frames := List.Perm.of_eq (indicateLoop_frames flags c.indicateSeq c.pending)
  kinds act hact f hf := Or.inl (indicateLoop_kinds flags c.indicateSeq c.pending act hact f hf)

/-- A frame that has no place in the queue is not given away. -/
def given (status : Status) (f : RecvFrame) : List RecvFrame :=
  match status with
  | .success => [f]
  | .fail => []

theorem reorderLocked_moves (f : RecvFrame) :
    Moves flags (given (c.reorderLocked flags f).1 f) c.pending (c.reorderLocked flags f).2 := by
  obtain ⟨hpending, hnone, hframe⟩ := c.checkIndicateSeq_moves f.seqNum
  unfold reorderLocked
  split
  · rename_i first hcheck
    simp only [hcheck] at hpending hnone hframe
    constructor
    · simp only [List.filterMap_append, hnone, hpending, List.nil_append]
      exact List.Perm.refl _
    · intro act hact g hg
      rcases List.mem_append.mp hact with hact | hact
      · rw [hframe act hact] at hg
        cases hg
      · rw [List.mem_singleton.mp hact] at hg
        exact Or.inr (List.mem_singleton.mpr (Option.some.inj hg).symm)
  · rename_i first hcheck
    simp only [hcheck] at hpending hnone hframe
    split
    · constructor
      · simp only [hnone, hpending]
        exact List.Perm.refl _
      · intro act hact g hg
        rw [hframe act hact] at hg
        cases hg
    · rename_i pending hpend
      rw [hpending] at hpend
      have hperm := enqueueReorderRecvframe_perm hpend
      have hmoves := indicateQueue_moves flags { first.ctrl with pending := pending }
      constructor
      · simp only [List.filterMap_append, hnone, List.nil_append]
        exact hmoves.frames.trans hperm
      · intro act hact g hg
        rcases List.mem_append.mp hact with hact | hact
        · rw [hframe act hact] at hg
          cases hg
        · exact Or.inl ((hmoves.kinds act hact g hg).resolve_right (by simp))

/-- A frame handed up at once. -/
theorem moves_given {f : RecvFrame} {o : Outcome} (hpending : o.ctrl.pending = c.pending)
    (hframes : o.acts.filterMap Act.frame = [f]) : Moves flags [f] c.pending o where
  frames := by rw [hframes, hpending]
  kinds act hact g hg := by
    have hmem := List.mem_filterMap.mpr ⟨act, hact, hg⟩
    rw [hframes] at hmem
    exact Or.inr hmem

theorem moves_nothing : Moves flags [] c.pending ⟨c, []⟩ where
  frames := List.Perm.refl _
  kinds := by simp

theorem recvIndicatepktReorder_moves (f : RecvFrame) :
    let r := c.recvIndicatepktReorder flags f
    Moves flags (given r.1 f.converted) c.pending r.2 := by
  unfold recvIndicatepktReorder RecvFrame.converted
  cases hamsdu : f.attrib.amsdu with
  | false =>
    simp only [Bool.not_false, if_true, Bool.false_eq_true, if_false]
    split
    · split
      · exact moves_given flags c rfl rfl
      · exact moves_nothing flags c
    · split
      · exact moves_given flags c rfl rfl
      · exact reorderLocked_moves flags c _
  | true =>
    simp only [Bool.not_true, Bool.false_eq_true, if_false, if_true]
    split
    · exact moves_given flags c rfl rfl
    · exact reorderLocked_moves flags c _

theorem timeoutHandler_moves :
    Moves flags [] c.pending (c.rtwReorderingCtrlTimeoutHandler flags) := by
  unfold rtwReorderingCtrlTimeoutHandler
  dsimp only
  split
  · exact ⟨List.Perm.refl _, by simp⟩
  · unfold recvIndicatepktsInOrder
    rw [if_pos rfl]
    split
    · exact ⟨List.Perm.of_eq rfl, by simp⟩
    · rename_i f q hq
      have hmoves := indicateQueue_moves flags { c with indicateSeq := f.seqNum, timer := false }
      constructor
      · exact hmoves.frames
      · intro act hact g hg
        rcases List.mem_append.mp hact with hact | hact
        · rw [List.mem_singleton.mp hact] at hg
          cases hg
        · exact hmoves.kinds act hact g hg

end RecvReorderCtrl

end Rtl8188eu

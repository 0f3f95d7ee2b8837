import StandaloneDrivers.Rtl8188eu.RecvPath

/-! What the functions of the receive path can do, case by case, and how their log grows. -/
namespace Rtl8188eu
open Foundations

namespace Receiver
variable {s : Receiver} {id : ℕ} {ids : List ℕ} {f g : RecvFrame}

theorem free_acts : s.acts <+: (s.rtwFreeRecvframe id).acts := List.prefix_append _ _

theorem freeAll_acts : s.acts <+: (s.freeAll ids).acts := by
  induction ids generalizing s with
  | nil => exact List.prefix_rfl
  | cons id ids ih => exact free_acts.trans ih

theorem perform_acts {act : Act} : s.acts <+: (s.perform act).acts := by
  cases act with
  | moved seq => exact List.prefix_rfl
  | indicated f => exact (List.prefix_append _ _).trans (free_acts (s := s.log (.indicated f)))
  | split f => exact (List.prefix_append _ _).trans (free_acts (s := s.log (.split f)))
  | forgotten f => exact List.prefix_rfl

theorem performAll_acts {acts : List Act} : s.acts <+: (s.performAll acts).acts := by
  induction acts generalizing s with
  | nil => exact List.prefix_rfl
  | cons act acts ih => exact perform_acts.trans ih

theorem perform_flags {act : Act} : (s.perform act).flags = s.flags := by cases act <;> rfl

theorem performAll_flags {acts : List Act} : (s.performAll acts).flags = s.flags := by
  induction acts generalizing s with
  | nil => rfl
  | cons act acts ih => exact ih.trans perform_flags

theorem readKeyIndex_id (f : RecvFrame) : f.readKeyIndex.id = f.id := by
  unfold RecvFrame.readKeyIndex
  split <;> rfl

/-- The state behind the cipher. -/
def behindCipher (s : Receiver) (f : RecvFrame) : Receiver :=
  { s with
    sec := { s.sec with hwDecrypted := false }
    message := (swDecryptFrame s.sec s.stapriv s.message f).message
    acts := s.acts ++ [.opened s.sec s.stapriv f] }

/-- What `decryptor` does. -/
theorem decryptor_cases (s : Receiver) (f : RecvFrame) :
    let g := f.readKeyIndex
    let r := swDecryptFrame s.sec s.stapriv s.message g
    (s.sec.opens g.attrib = true ∧ r.status = .success ∧
      s.decryptor f = (s.behindCipher g, some r.frame)) ∨
    (s.sec.opens g.attrib = true ∧ r.status = .fail ∧
      s.decryptor f = ((s.behindCipher g).rtwFreeRecvframe g.id, none)) ∨
    (s.sec.opens g.attrib = false ∧ ∃ sec, s.decryptor f = ({ s with sec := sec }, some g)) := by
  intro g r
  unfold decryptor
  cases hopens : s.sec.opens g.attrib with
  | false =>
    refine Or.inr (Or.inr ⟨rfl, ?_⟩)
    simp only [g] at hopens
    simp only [hopens, Bool.false_eq_true, if_false]
    split
    · exact ⟨_, rfl⟩
    · exact ⟨s.sec, rfl⟩
  | true =>
    simp only [g] at hopens
    simp only [hopens, if_true]
    cases hstatus : r.status with
    | success => exact Or.inl ⟨trivial, rfl, rfl⟩
    | fail => exact Or.inr (Or.inl ⟨trivial, rfl, rfl⟩)

theorem decryptor_acts : s.acts <+: (s.decryptor f).1.acts := by
  rcases s.decryptor_cases f with ⟨-, -, heq⟩ | ⟨-, -, heq⟩ | ⟨-, sec, heq⟩
  · rw [heq]
    exact List.prefix_append _ _
  · rw [heq]
    exact (List.prefix_append _ _).trans (free_acts (s := s.behindCipher _))
  · rw [heq]

/-- The state of `recvframe_chk_defrag` before frames are given back. -/
def merging (s : Receiver) (f : RecvFrame) : Receiver :=
  { s with
    stapriv := (s.stapriv.recvframeChkDefrag s.sec f).1
    acts := s.acts ++ s.defragActs f }

theorem chkDefrag_acts : s.acts <+: (s.chkDefrag f).1.acts :=
  (List.prefix_append _ _).trans (freeAll_acts (s := s.merging f))

theorem processRecvIndicatepkts_acts : s.acts <+: (s.processRecvIndicatepkts f).1.acts := by
  unfold processRecvIndicatepkts
  split
  · split
    · exact free_acts
    · rename_i slot c _
      let stapriv := s.stapriv.setPreorderCtrl slot f.attrib.priority
        (c.recvIndicatepktReorder s.flags f).2.ctrl
      exact performAll_acts (s := { s with stapriv := stapriv })
  · split
    · exact perform_acts
    · exact List.prefix_rfl

/-- The frame that comes to the port. -/
def atPort (s : Receiver) (orig : ℕ) (f : RecvFrame) : Receiver :=
  s.log (.port s.mlme s.flags s.stapriv orig f)

/-- What follows the port. -/
def handUp (s : Receiver) (orig : ℕ) (f : RecvFrame) : Receiver :=
  match (s.atPort orig f).processRecvIndicatepkts f with
  | (s, .success) => s
  | (s, .fail) => s.rtwFreeRecvframe orig

theorem handUp_acts {orig : ℕ} : (s.atPort orig f).acts <+: (s.handUp orig f).acts := by
  have hacts := (s.atPort orig f).processRecvIndicatepkts_acts (f := f)
  unfold handUp
  split
  · rename_i t heq
    rwa [heq] at hacts
  · rename_i t heq
    rw [heq] at hacts
    exact hacts.trans free_acts

/-- The port is given no address, and lets every frame pass. -/
theorem portctrl_passes (sec : SecurityPriv) (stapriv : StaPriv) (f : RecvFrame) :
    portctrl sec stapriv f = true := by
  simp [portctrl, StaPriv.rtwGetStainfo]

/-- What `recv_func_posthandle` does: a frame is dropped, queued as a fragment, or handed up. -/
theorem recvFuncPosthandle_cases (s : Receiver) (f : RecvFrame) :
    ((s.decryptor f).2 = none ∧ s.recvFuncPosthandle f = (s.decryptor f).1) ∨
    (∃ g, (s.decryptor f).2 = some g ∧ ((s.decryptor f).1.chkDefrag g).2 = none ∧
      s.recvFuncPosthandle f = ((s.decryptor f).1.chkDefrag g).1) ∨
    ∃ g p, (s.decryptor f).2 = some g ∧ ((s.decryptor f).1.chkDefrag g).2 = some p ∧
      s.recvFuncPosthandle f = ((s.decryptor f).1.chkDefrag g).1.handUp f.id p := by
  unfold recvFuncPosthandle
  rcases hd : s.decryptor f with ⟨s₁, _ | g⟩
  · exact Or.inl ⟨rfl, rfl⟩
  · rcases hc : s₁.chkDefrag g with ⟨s₂, _ | p⟩
    · refine Or.inr (Or.inl ⟨g, rfl, ?_⟩)
      simp only [hc]
      exact ⟨trivial, trivial⟩
    · refine Or.inr (Or.inr ⟨g, p, rfl, ?_⟩)
      simp only [hc, portctrl_passes, if_true]
      exact ⟨trivial, rfl⟩

theorem recvFuncPosthandle_acts : s.acts <+: (s.recvFuncPosthandle f).acts := by
  rcases s.recvFuncPosthandle_cases f with ⟨-, heq⟩ | ⟨g, -, -, heq⟩ | ⟨g, p, -, -, heq⟩
  · rw [heq]
    exact decryptor_acts
  · rw [heq]
    exact decryptor_acts.trans chkDefrag_acts
  · rw [heq]
    exact decryptor_acts.trans (chkDefrag_acts.trans ((List.prefix_append _ _).trans handUp_acts))

theorem drainPending_acts {n : ℕ} : s.acts <+: (drainPending n s).acts := by
  induction n generalizing s with
  | zero => exact List.prefix_rfl
  | succ n ih =>
    unfold drainPending
    split
    · exact List.prefix_rfl
    · rename_i f queue _
      have hpost := recvFuncPosthandle_acts (s := { s with ucSwdecPendingQueue := queue }) (f := f)
      exact hpost.trans ih

theorem readHeader_id (f : RecvFrame) : (readHeader f).id = f.id := by
  unfold readHeader
  dsimp only
  split <;> rfl

/-- What becomes of a frame: it is dropped, taken for a management frame, waits for a key, or goes
on. -/
theorem recvFrame_cases (s : Receiver) (f : RecvFrame) :
    s.recvFrame f = s.rtwFreeRecvframe f.id ∨
    s.recvFrame f = ((s.log (.mgnt s.sec s.stapriv (readHeader f))).chkDefrag
      (readHeader f)).1.rtwFreeRecvframe (readHeader f).id ∨
    ∃ stapriv g, validateRecvDataFrame s.mlme s.sec s.stapriv (readHeader f) = some (stapriv, g) ∧
      (s.recvFrame f =
          { s with stapriv := stapriv, ucSwdecPendingQueue := s.ucSwdecPendingQueue ++ [g] } ∨
        s.recvFrame f = { s with stapriv := stapriv }.recvFuncPosthandle g) := by
  unfold recvFrame
  split
  · exact Or.inl rfl
  · dsimp only
    split
    · exact Or.inr (Or.inl rfl)
    · split
      · split
        · rw [readHeader_id]
          exact Or.inl rfl
        · rename_i stapriv g hvalid
          refine Or.inr (Or.inr ⟨stapriv, g, hvalid, ?_⟩)
          split
          · exact Or.inl rfl
          · exact Or.inr rfl
      · rw [readHeader_id]
        exact Or.inl rfl

theorem recvFrame_acts : s.acts <+: (s.recvFrame f).acts := by
  rcases s.recvFrame_cases f with heq | heq | ⟨stapriv, g, -, heq | heq⟩
  · rw [heq]
    exact free_acts
  · rw [heq]
    exact (List.prefix_append _ _).trans
      ((chkDefrag_acts (s := s.log (.mgnt s.sec s.stapriv (readHeader f)))).trans free_acts)
  · rw [heq]
  · rw [heq]
    exact recvFuncPosthandle_acts (s := { s with stapriv := stapriv })

end Receiver

end Rtl8188eu

import StandaloneDrivers.Foundations.Run
import StandaloneDrivers.Rtl8188eu.StaTable
import Mathlib.Algebra.BigOperators.Group.Finset.Basic
import Mathlib.Algebra.BigOperators.Fin

/-! The queues of frames that wait for the hardware (rtw_xmit.c): four of each station, the lists of
stations that have frames in them, and the counters of both. -/
namespace Rtl8188eu

/-- The access categories, in the order of `hwxmits`. -/
inductive Ac
  | vo
  | vi
  | be
  | bk
  deriving DecidableEq, Repr

instance : Fintype Ac := ⟨{.vo, .vi, .be, .bk}, fun ac => by cases ac <;> decide⟩

/-- The category of a priority (`rtw_get_sta_pending`). -/
def Ac.ofPriority (priority : UInt8) : Ac :=
  if priority = 1 ∨ priority = 2 then .bk
  else if priority = 4 ∨ priority = 5 then .vi
  else if priority = 6 ∨ priority = 7 then .vo
  else .be

/-- A frame, by what the queues read and write of `struct pkt_attrib`; `hiq` is `qsel = 0x11`. -/
structure TxFrame where
  priority : UInt8
  ra : MacAddr
  psta : Option StaPtr
  triggered : Bool
  mdata : Bool
  eosp : Bool
  hiq : Bool
  deriving DecidableEq, Repr

def TxFrame.ac (f : TxFrame) : Ac := Ac.ofPriority f.priority

/-- `struct tx_servq` -/
structure TxServq where
  staPending : List TxFrame
  qcnt : ℤ
  deriving DecidableEq, Repr

/-- `struct hw_xmit`, with the stations that are linked into its queue. -/
structure HwXmit where
  staQueue : List StaPtr
  accnt : ℤ
  deriving DecidableEq, Repr

structure XmitQueues where
  servq : StaPtr → Ac → TxServq
  hwxmits : Ac → HwXmit

namespace XmitQueues
attribute [local instance] lawfulBEq_staPtr

def empty : XmitQueues where
  servq := fun _ _ => ⟨[], 0⟩
  hwxmits := fun _ => ⟨[], 0⟩

variable (q : XmitQueues)

def setServq (psta : StaPtr) (ac : Ac) (servq : TxServq) : XmitQueues :=
  { q with servq := Function.update q.servq psta (Function.update (q.servq psta) ac servq) }

def setHwXmit (ac : Ac) (hwxmit : HwXmit) : XmitQueues :=
  { q with hwxmits := Function.update q.hwxmits ac hwxmit }

/-- `rtw_list_delete(&ptxservq->tx_pending)` -/
def unlink (psta : StaPtr) (ac : Ac) : XmitQueues :=
  q.setHwXmit ac { q.hwxmits ac with staQueue := (q.hwxmits ac).staQueue.erase psta }

/-- `rtw_xmit_classifier`, when the station of the frame is found. -/
def classify (psta : StaPtr) (f : TxFrame) : XmitQueues :=
  let hw := q.hwxmits f.ac
  let staQueue := if psta ∈ hw.staQueue then hw.staQueue else hw.staQueue ++ [psta]
  let servq := q.servq psta f.ac
  (q.setHwXmit f.ac ⟨staQueue, hw.accnt + 1⟩).setServq psta f.ac
    ⟨servq.staPending ++ [f], servq.qcnt + 1⟩

/-- The first frame of the first station with frames. -/
def dequeueFrom (ac : Ac) : List StaPtr → Option (XmitQueues × TxFrame)
  | [] => none
  | psta :: rest =>
    match (q.servq psta ac).staPending with
    | [] => dequeueFrom ac rest
    | f :: pending =>
      let q' := (q.setServq psta ac ⟨pending, (q.servq psta ac).qcnt - 1⟩).setHwXmit ac
        { q.hwxmits ac with accnt := (q.hwxmits ac).accnt - 1 }
      some (if pending.isEmpty then q'.unlink psta ac else q', f)

/-- The categories in the order of `hwxmits`, which `wmm_para_seq` replaces for `wifi_spec`. -/
def inx (wifiSpec : Bool) (wmmParaSeq : Vector Ac 4) : List Ac :=
  if wifiSpec then wmmParaSeq.toList else [.vo, .vi, .be, .bk]

/-- `rtw_dequeue_xframe`, for the categories in their order. -/
def rtwDequeueXframe : List Ac → XmitQueues × Option TxFrame
  | [] => (q, none)
  | ac :: rest =>
    match q.dequeueFrom ac (q.hwxmits ac).staQueue with
    | some (q', f) => (q', some f)
    | none => rtwDequeueXframe rest

/-- The counters of a frame that leaves the queue of its category. -/
def leave (psta : StaPtr) (f : TxFrame) : XmitQueues :=
  let servq := q.servq psta f.ac
  let hw := q.hwxmits f.ac
  (q.setServq psta f.ac { servq with qcnt := servq.qcnt - 1 }).setHwXmit f.ac
    { hw with accnt := hw.accnt - 1 }

def setPending (psta : StaPtr) (ac : Ac) (pending : List TxFrame) : XmitQueues :=
  q.setServq psta ac { q.servq psta ac with staPending := pending }

/-- What `rtw_free_stainfo` does to the queues: the frames are freed, the links deleted, and the
queues set up again. -/
def freeStation (psta : StaPtr) : XmitQueues :=
  let q := (((q.unlink psta .vo).unlink psta .vi).unlink psta .bk).unlink psta .be
  { q with servq := Function.update q.servq psta fun _ => ⟨[], 0⟩ }

/-- The frames of a category. -/
def total (ac : Ac) : ℤ := Finset.univ.sum fun psta => ((q.servq psta ac).staPending.length : ℤ)

/-- The counters are right, and the stations with frames are linked. -/
structure Accounted : Prop where
  qcnt : ∀ psta ac, (q.servq psta ac).qcnt = (q.servq psta ac).staPending.length
  linked : ∀ psta ac, psta ∈ (q.hwxmits ac).staQueue ↔ (q.servq psta ac).staPending ≠ []
  once : ∀ ac, (q.hwxmits ac).staQueue.Nodup
  accnt : ∀ ac, (q.hwxmits ac).accnt = q.total ac
  category : ∀ psta ac, ∀ f ∈ (q.servq psta ac).staPending, f.ac = ac

variable {q}

theorem accounted_empty : empty.Accounted where
  qcnt _ _ := rfl
  linked _ _ := by
    constructor
    · intro hmem
      cases hmem
    · intro hne
      exact absurd rfl hne
  once _ := List.nodup_nil
  accnt _ := by simp only [total, empty, List.length_nil, Nat.cast_zero, Finset.sum_const_zero]
  category _ _ f hf := by cases hf

/-- When one summand changes, the sum changes as much. -/
theorem sum_change {f g : StaPtr → ℤ} {psta : StaPtr} (h : ∀ p, p ≠ psta → g p = f p) :
    Finset.univ.sum g = Finset.univ.sum f + (g psta - f psta) := by
  have hf : f psta + (Finset.univ.erase psta).sum f = Finset.univ.sum f :=
    Finset.add_sum_erase _ f (Finset.mem_univ psta)
  have hg : g psta + (Finset.univ.erase psta).sum g = Finset.univ.sum g :=
    Finset.add_sum_erase _ g (Finset.mem_univ psta)
  have hrest : (Finset.univ.erase psta).sum g = (Finset.univ.erase psta).sum f := by
    apply Finset.sum_congr rfl
    intro p hp
    exact h p (Finset.ne_of_mem_erase hp)
  rw [← hf, ← hg, hrest]
  omega

/-- One queue of a station changes, and the list and the counter of its category with it. -/
theorem Accounted.change {q' : XmitQueues} (h : q.Accounted) (psta : StaPtr) (ac : Ac)
    (hservq : ∀ p a, ¬ (p = psta ∧ a = ac) → q'.servq p a = q.servq p a)
    (hhw : ∀ a, a ≠ ac → q'.hwxmits a = q.hwxmits a)
    (hqcnt : (q'.servq psta ac).qcnt = (q'.servq psta ac).staPending.length)
    (hlink : ∀ p, p ∈ (q'.hwxmits ac).staQueue ↔
      if p = psta then (q'.servq psta ac).staPending ≠ [] else p ∈ (q.hwxmits ac).staQueue)
    (honce : (q'.hwxmits ac).staQueue.Nodup)
    (haccnt : (q'.hwxmits ac).accnt = (q.hwxmits ac).accnt +
      (((q'.servq psta ac).staPending.length : ℤ) - (q.servq psta ac).staPending.length))
    (hcategory : ∀ f ∈ (q'.servq psta ac).staPending, f.ac = ac) : q'.Accounted where
  qcnt p a := by
    by_cases hpa : p = psta ∧ a = ac
    · rw [hpa.1, hpa.2, hqcnt]
    · rw [hservq p a hpa]
      exact h.qcnt p a
  linked p a := by
    by_cases ha : a = ac
    · subst ha
      rw [hlink]
      by_cases hp : p = psta
      · rw [if_pos hp, hp]
      · rw [if_neg hp, h.linked, hservq p a fun hpa => hp hpa.1]
    · rw [hhw a ha, h.linked, hservq p a fun hpa => ha hpa.2]
  once a := by
    by_cases ha : a = ac
    · rw [ha]
      exact honce
    · rw [hhw a ha]
      exact h.once a
  accnt a := by
    by_cases ha : a = ac
    · subst ha
      rw [haccnt, h.accnt a, total, total]
      symm
      apply sum_change (f := fun p => ((q.servq p a).staPending.length : ℤ))
      intro p hp
      rw [hservq p a fun hpa => hp hpa.1]
    · rw [hhw a ha, h.accnt a, total, total]
      apply Finset.sum_congr rfl
      intro p _
      rw [hservq p a fun hpa => ha hpa.2]
  category p a := by
    by_cases hpa : p = psta ∧ a = ac
    · rw [hpa.1, hpa.2]
      exact hcategory
    · rw [hservq p a hpa]
      exact h.category p a

theorem setServq_self (psta : StaPtr) (ac : Ac) (servq : TxServq) :
    (q.setServq psta ac servq).servq psta ac = servq := by
  simp only [setServq, Function.update_self]

theorem setServq_other (servq : TxServq) {psta p : StaPtr} {ac a : Ac}
    (h : ¬ (p = psta ∧ a = ac)) : (q.setServq psta ac servq).servq p a = q.servq p a := by
  by_cases hp : p = psta
  · subst hp
    have ha : a ≠ ac := fun ha => h ⟨rfl, ha⟩
    simp only [setServq, Function.update_self, Function.update_of_ne ha]
  · simp only [setServq, Function.update_of_ne hp]

theorem Accounted.classify (h : q.Accounted) (psta : StaPtr) (f : TxFrame) :
    (q.classify psta f).Accounted := by
  have hself : (q.classify psta f).servq psta f.ac =
      ⟨(q.servq psta f.ac).staPending ++ [f], (q.servq psta f.ac).qcnt + 1⟩ := setServq_self _ _ _
  have hhw : (q.classify psta f).hwxmits = Function.update q.hwxmits f.ac
      ⟨if psta ∈ (q.hwxmits f.ac).staQueue then (q.hwxmits f.ac).staQueue
        else (q.hwxmits f.ac).staQueue ++ [psta], (q.hwxmits f.ac).accnt + 1⟩ := rfl
  apply h.change psta f.ac
  · intro p a hpa
    exact setServq_other _ hpa
  · intro a ha
    rw [hhw, Function.update_of_ne ha]
  · rw [hself, h.qcnt]
    simp only [List.length_append, List.length_singleton, Nat.cast_add, Nat.cast_one]
  · intro p
    rw [hhw, Function.update_self, hself]
    by_cases hmem : psta ∈ (q.hwxmits f.ac).staQueue
    · rw [if_pos hmem]
      by_cases hp : p = psta
      · simp [hp, hmem]
      · simp [hp]
    · rw [if_neg hmem]
      by_cases hp : p = psta
      · simp [hp]
      · simp [hp]
  · rw [hhw, Function.update_self]
    by_cases hmem : psta ∈ (q.hwxmits f.ac).staQueue
    · rw [if_pos hmem]
      exact h.once f.ac
    · rw [if_neg hmem]
      apply (h.once f.ac).append (List.nodup_singleton psta)
      intro p hp hself
      exact hmem (List.mem_singleton.mp hself ▸ hp)
  · rw [hhw, Function.update_self, hself]
    simp only [List.length_append, List.length_singleton, Nat.cast_add, Nat.cast_one]
    omega
  · intro g hg
    rw [hself] at hg
    rcases List.mem_append.mp hg with hold | hnew
    · exact h.category psta f.ac g hold
    · rw [List.mem_singleton.mp hnew]

/-- The frames of a station's queue are taken out and the station is unlinked if none is left. -/
theorem Accounted.take {q' : XmitQueues} (h : q.Accounted) (psta : StaPtr) (ac : Ac)
    {pending : List TxFrame} (hsub : pending ⊆ (q.servq psta ac).staPending)
    (hservq : q'.servq = (q.setServq psta ac ⟨pending, pending.length⟩).servq)
    (hhw : q'.hwxmits = Function.update q.hwxmits ac
      ⟨if pending = [] then (q.hwxmits ac).staQueue.erase psta else (q.hwxmits ac).staQueue,
        (q.hwxmits ac).accnt + ((pending.length : ℤ) - (q.servq psta ac).staPending.length)⟩) :
    q'.Accounted := by
  have hself : q'.servq psta ac = ⟨pending, pending.length⟩ := by
    rw [hservq]
    exact setServq_self _ _ _
  apply h.change psta ac
  · intro p a hpa
    rw [hservq]
    exact setServq_other _ hpa
  · intro a ha
    rw [hhw, Function.update_of_ne ha]
  · rw [hself]
  · intro p
    rw [hhw, Function.update_self, hself]
    by_cases hnil : pending = []
    · simp only [if_pos hnil, (h.once ac).mem_erase_iff]
      by_cases hp : p = psta
      · simp only [hp, if_true, ne_eq, not_true_eq_false, false_and, hnil]
      · simp only [hp, ne_eq, not_false_eq_true, true_and, if_false]
    · simp only [if_neg hnil]
      by_cases hp : p = psta
      · rw [if_pos hp, hp, h.linked]
        constructor
        · intro _
          exact hnil
        · intro _ hold
          rw [hold] at hsub
          exact hnil (List.subset_nil.mp hsub)
      · rw [if_neg hp]
  · rw [hhw, Function.update_self]
    split
    · exact (h.once ac).erase psta
    · exact h.once ac
  · rw [hhw, Function.update_self, hself]
  · intro f hf
    rw [hself] at hf
    exact h.category psta ac f (hsub hf)

theorem Accounted.dequeueFrom (h : q.Accounted) (ac : Ac) {l : List StaPtr} {q' : XmitQueues}
    {f : TxFrame} (heq : q.dequeueFrom ac l = some (q', f)) : q'.Accounted := by
  induction l with
  | nil => cases heq
  | cons psta rest ih =>
    unfold XmitQueues.dequeueFrom at heq
    cases hpending : (q.servq psta ac).staPending with
    | nil =>
      rw [hpending] at heq
      exact ih heq
    | cons g pending =>
      simp only [hpending, Option.some.injEq, Prod.mk.injEq] at heq
      obtain ⟨rfl, rfl⟩ := heq
      have hsub : pending ⊆ (q.servq psta ac).staPending := by
        rw [hpending]
        exact List.subset_cons_self _ _
      apply h.take psta ac hsub
      · have hqcnt : (q.servq psta ac).qcnt - 1 = pending.length := by
          rw [h.qcnt, hpending, List.length_cons, Nat.cast_add, Nat.cast_one]
          omega
        rw [hqcnt]
        split <;> rfl
      · have haccnt : (q.hwxmits ac).accnt +
            ((pending.length : ℤ) - (q.servq psta ac).staPending.length) =
            (q.hwxmits ac).accnt - 1 := by
          rw [hpending, List.length_cons, Nat.cast_add, Nat.cast_one]
          omega
        rw [haccnt]
        cases pending with
        | nil =>
          show Function.update (Function.update q.hwxmits ac _) ac _ = _
          rw [Function.update_idem]
          simp only [setHwXmit, setServq, Function.update_self, if_true]
        | cons _ _ => rfl

theorem Accounted.rtwDequeueXframe (h : q.Accounted) (order : List Ac) :
    (q.rtwDequeueXframe order).1.Accounted := by
  induction order with
  | nil => exact h
  | cons ac order ih =>
    unfold XmitQueues.rtwDequeueXframe
    cases heq : q.dequeueFrom ac (q.hwxmits ac).staQueue with
    | none => exact ih
    | some r => exact h.dequeueFrom ac heq

/-- The counters after some frames of a category have left. -/
theorem foldl_leave {psta : StaPtr} {ac : Ac} {l : List TxFrame} (hl : ∀ f ∈ l, f.ac = ac)
    (q : XmitQueues) : l.foldl (fun q f => q.leave psta f) q =
      (q.setServq psta ac ⟨(q.servq psta ac).staPending, (q.servq psta ac).qcnt - l.length⟩).setHwXmit
        ac ⟨(q.hwxmits ac).staQueue, (q.hwxmits ac).accnt - l.length⟩ := by
  induction l generalizing q with
  | nil =>
    simp only [List.foldl_nil, List.length_nil, Nat.cast_zero, sub_zero, setServq, setHwXmit,
      Function.update_eq_self]
  | cons f l ih =>
    have hf : f.ac = ac := hl f List.mem_cons_self
    rw [List.foldl_cons, ih (fun g hg => hl g (List.mem_cons_of_mem _ hg))]
    have hsub : ∀ x : ℤ, x - 1 - l.length = x - (f :: l).length := by
      intro x
      rw [List.length_cons, Nat.cast_add, Nat.cast_one]
      omega
    simp only [leave, hf, setServq, setHwXmit, Function.update_self, Function.update_idem, hsub]

/-- All frames of a queue have left, and the station is unlinked. -/
theorem Accounted.drain (h : q.Accounted) (psta : StaPtr) (ac : Ac) :
    ((((q.servq psta ac).staPending.foldl (fun q f => q.leave psta f) q).setPending psta ac
      []).unlink psta ac).Accounted := by
  rw [foldl_leave (h.category psta ac)]
  apply h.take psta ac (List.nil_subset _)
  · have hqcnt : (q.servq psta ac).qcnt - (q.servq psta ac).staPending.length = 0 := by
      rw [h.qcnt]
      omega
    simp only [unlink, setPending, setServq, setHwXmit, Function.update_self, Function.update_idem,
      hqcnt, List.length_nil, Nat.cast_zero]
  · simp only [unlink, setPending, setServq, setHwXmit, Function.update_self, Function.update_idem,
      if_true, List.length_nil, Nat.cast_zero]
    congr 2
    omega

/-- A station without frames is freed. -/
theorem Accounted.freeStation (h : q.Accounted) {psta : StaPtr}
    (hpending : ∀ ac, (q.servq psta ac).staPending = []) : (q.freeStation psta).Accounted := by
  have hunlink : ∀ (q' : XmitQueues) (ac : Ac), q'.hwxmits = q.hwxmits →
      (q'.unlink psta ac).hwxmits = q.hwxmits := by
    intro q' ac hhw
    have hnot : psta ∉ (q.hwxmits ac).staQueue := by
      rw [h.linked, hpending]
      exact fun hne => hne rfl
    simp only [unlink, setHwXmit, hhw, List.erase_of_not_mem hnot, Function.update_eq_self]
  have hhw : (q.freeStation psta).hwxmits = q.hwxmits :=
    hunlink _ _ (hunlink _ _ (hunlink _ _ (hunlink _ _ rfl)))
  have hservq : (q.freeStation psta).servq = q.servq := by
    show Function.update q.servq psta _ = q.servq
    rw [Function.update_eq_self_iff]
    funext ac
    have hqcnt := h.qcnt psta ac
    rw [hpending] at hqcnt
    have hpair : q.servq psta ac = ⟨(q.servq psta ac).staPending, (q.servq psta ac).qcnt⟩ := rfl
    rw [hpair, hpending, hqcnt]
    rfl
  have heq : q.freeStation psta = q := by
    have hpair : q.freeStation psta = ⟨(q.freeStation psta).servq, (q.freeStation psta).hwxmits⟩ :=
      rfl
    rw [hpair, hservq, hhw]
  rw [heq]
  exact h

/-- Frames that wait are reached. -/
theorem dequeueFrom_none {ac : Ac} {l : List StaPtr} (h : q.dequeueFrom ac l = none) :
    ∀ psta ∈ l, (q.servq psta ac).staPending = [] := by
  induction l with
  | nil =>
    intro psta hmem
    cases hmem
  | cons p rest ih =>
    unfold XmitQueues.dequeueFrom at h
    cases hpending : (q.servq p ac).staPending with
    | nil =>
      rw [hpending] at h
      intro psta hmem
      rcases List.mem_cons.mp hmem with rfl | hrest
      · exact hpending
      · exact ih h psta hrest
    | cons f pending =>
      simp only [hpending] at h
      cases h

theorem Accounted.reached (h : q.Accounted) {order : List Ac} {psta : StaPtr} {ac : Ac}
    (hac : ac ∈ order) (hpending : (q.servq psta ac).staPending ≠ []) :
    ∃ f, (q.rtwDequeueXframe order).2 = some f := by
  induction order with
  | nil => cases hac
  | cons a order ih =>
    unfold XmitQueues.rtwDequeueXframe
    cases heq : q.dequeueFrom a (q.hwxmits a).staQueue with
    | some r => exact ⟨r.2, rfl⟩
    | none =>
      rcases List.mem_cons.mp hac with rfl | hrest
      · exact absurd (dequeueFrom_none heq psta ((h.linked psta ac).mpr hpending)) hpending
      · exact ih hrest

/-- Only frames are taken out. -/
theorem dequeueFrom_subset {ac : Ac} {l : List StaPtr} {q' : XmitQueues} {f : TxFrame}
    (h : q.dequeueFrom ac l = some (q', f)) (p : StaPtr) (a : Ac) :
    (q'.servq p a).staPending ⊆ (q.servq p a).staPending := by
  induction l with
  | nil => cases h
  | cons psta rest ih =>
    unfold XmitQueues.dequeueFrom at h
    cases hpending : (q.servq psta ac).staPending with
    | nil =>
      rw [hpending] at h
      exact ih h
    | cons g pending =>
      simp only [hpending, Option.some.injEq, Prod.mk.injEq] at h
      obtain ⟨rfl, rfl⟩ := h
      have hservq : ∀ q'' : XmitQueues, q''.servq =
          (q.setServq psta ac ⟨pending, (q.servq psta ac).qcnt - 1⟩).servq →
          (q''.servq p a).staPending ⊆ (q.servq p a).staPending := by
        intro q'' heq
        rw [heq]
        by_cases hpa : p = psta ∧ a = ac
        · obtain ⟨rfl, rfl⟩ := hpa
          rw [setServq_self, hpending]
          exact List.subset_cons_self _ _
        · rw [setServq_other _ hpa]
          exact List.Subset.refl _
      split
      · exact hservq _ rfl
      · exact hservq _ rfl

theorem rtwDequeueXframe_subset (order : List Ac) (p : StaPtr) (a : Ac) :
    ((q.rtwDequeueXframe order).1.servq p a).staPending ⊆ (q.servq p a).staPending := by
  induction order with
  | nil => exact List.Subset.refl _
  | cons ac order ih =>
    unfold XmitQueues.rtwDequeueXframe
    cases heq : q.dequeueFrom ac (q.hwxmits ac).staQueue with
    | none => exact ih
    | some r => exact dequeueFrom_subset heq p a

end XmitQueues
end Rtl8188eu

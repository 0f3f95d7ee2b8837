import StandaloneDrivers.Rt5572.MlmeQueue

/-! Messages for the MLME state machines are handled once, in order and unchanged. -/
namespace Rt5572
open Foundations

namespace MlmeQueueElem

/-- An element with a message as it was enqueued. -/
structure Carries (e : MlmeQueueElem) (m : MlmeMsg) : Prop where
  machine : e.machine = m.machine
  msgType : e.msgType = m.msgType
  msgLen : e.msgLen = m.msgLen
  msg : e.msg.take m.bytes.length = m.bytes
  occupied : e.occupied = true

theorem fill_carries (e : MlmeQueueElem) (channel : UInt8) (m : MlmeMsg) :
    (e.fill channel m).Carries m := by
  have hfits : 0 + m.bytes.length ≤ e.msg.length := by
    have hlen : m.bytes.length ≤ m.msgLen := List.length_take_le _ _
    have := m.fits
    rw [e.size]
    omega
  have hcopy : (overwrite e.msg 0 m.bytes).take m.bytes.length = m.bytes := by
    have htake := take_overwrite hfits
    rwa [Nat.zero_add, List.take_zero, List.nil_append] at htake
  unfold fill
  cases m.rx with
  | none => exact ⟨rfl, rfl, rfl, hcopy, rfl⟩
  | some rx => exact ⟨rfl, rfl, rfl, hcopy, rfl⟩

end MlmeQueueElem

namespace Mlme

/-- What was accepted is handled in order and unchanged, `num` counts what is left of it, and an
element stays as it is while it is being handled. -/
structure Delivered (d : Mlme) : Prop where
  num : d.handled.length + d.queue.num = d.accepted.length
  bound : d.queue.num ≤ maxLenOfMlmeQueue
  handled : List.Forall₂ MlmeQueueElem.Carries d.handled (d.accepted.take d.handled.length)
  queued : Ring.Holds MlmeQueueElem.Carries d.queue.entry d.queue.head
    (d.accepted.drop d.handled.length)
  elem : ∀ elem, d.elem = some elem → d.handled.getLast? = some (d.queue.entry.get elem)

/-- A message goes into an element that is free. -/
def PutsFree (d : Mlme) : MlmeEvent → Prop
  | .put call => (d.calls[call]?).isSome = true →
      (d.queue.entry.get d.queue.tail).occupied = false
  | _ => True

instance (d : Mlme) : DecidablePred d.PutsFree
  | .put _ => inferInstanceAs (Decidable (_ = true → _ = false))
  | .mlmeEnqueue .. | .mlmeEnqueueForRecv .. | .dequeue | .finish | .config .. => isTrue trivial

/-- The element that is being handled is the one before the queue, which does not reach it. -/
structure Placed (d : Mlme) : Prop where
  delivered : d.Delivered
  tail : d.queue.tail = Ring.slot d.queue.head d.queue.num
  elem : ∀ elem, d.elem = some elem → elem + 1 = d.queue.head ∧
    d.queue.num < maxLenOfMlmeQueue ∧ (d.queue.entry.get elem).occupied = true

variable {d : Mlme}

theorem Placed.waiting (h : d.Placed) :
    (d.accepted.drop d.handled.length).length = d.queue.num := by
  have := h.delivered.num
  rw [List.length_drop]
  omega

/-- The queue is not full when there is a free element behind it. -/
theorem Placed.room (h : d.Placed)
    (hfree : (d.queue.entry.get d.queue.tail).occupied = false) :
    d.queue.num < maxLenOfMlmeQueue := by
  by_contra hfull
  have hnum : d.queue.num = maxLenOfMlmeQueue := by
    have := h.delivered.bound
    omega
  have hlen := h.waiting
  obtain ⟨m, rest, hwaiting⟩ : ∃ m rest, d.accepted.drop d.handled.length = m :: rest := by
    apply List.exists_cons_of_ne_nil
    intro hnil
    rw [hnil, hnum] at hlen
    cases hlen
  have hqueued := h.delivered.queued
  rw [hwaiting] at hqueued
  have htail : d.queue.tail = d.queue.head := by
    rw [h.tail, hnum, Ring.slot_round]
  rw [htail, hqueued.next.1.occupied] at hfree
  cases hfree

theorem Placed.put (h : d.Placed) (call : ℕ) (hcall : d.PutsFree (.put call)) :
    (d.put call).Placed := by
  have hwaiting := h.waiting
  have hnum := h.delivered.num
  unfold Mlme.put
  split
  · exact h
  · rename_i m hm
    have hfree : (d.queue.entry.get d.queue.tail).occupied = false :=
      hcall (by rw [hm, Option.isSome_some])
    have hroom := h.room hfree
    have hdrop : (d.accepted ++ [m]).drop d.handled.length =
        d.accepted.drop d.handled.length ++ [m] :=
      List.drop_append_of_le_length (by omega)
    have htake : (d.accepted ++ [m]).take d.handled.length = d.accepted.take d.handled.length :=
      List.take_append_of_le_length (by omega)
    have hkept : ∀ elem, d.elem = some elem →
        (d.queue.put d.channel m).entry.get elem = d.queue.entry.get elem := by
      intro elem helem
      rw [MlmeQueue.put, Ring.get_set, if_neg]
      intro htail
      rw [htail, (h.elem elem helem).2.2] at hfree
      cases hfree
    constructor
    · constructor
      · show d.handled.length + (d.queue.num + 1) = (d.accepted ++ [m]).length
        rw [List.length_append, List.length_singleton]
        omega
      · exact hroom
      · show List.Forall₂ _ d.handled ((d.accepted ++ [m]).take d.handled.length)
        rw [htake]
        exact h.delivered.handled
      · show Ring.Holds _ (d.queue.put d.channel m).entry d.queue.head
          ((d.accepted ++ [m]).drop d.handled.length)
        rw [hdrop]
        apply h.delivered.queued.put
        · rw [h.tail, hwaiting]
        · rw [hwaiting]
          exact hroom
        · exact MlmeQueueElem.fill_carries _ _ _
      · intro elem helem
        rw [hkept elem helem]
        exact h.delivered.elem elem helem
    · show d.queue.tail + 1 = Ring.slot d.queue.head (d.queue.num + 1)
      rw [h.tail, Ring.slot_next]
    · intro elem helem
      obtain ⟨hhead, -, hoccupied⟩ := h.elem elem helem
      rw [hkept elem helem]
      have hbehind : d.queue.num + 1 ≠ maxLenOfMlmeQueue := by
        intro hlast
        have htail : d.queue.tail = elem := by
          rw [h.tail, ← hhead, ← Ring.slot_succ, hlast, Ring.slot_round]
        rw [htail, hoccupied] at hfree
        cases hfree
      exact ⟨hhead, lt_of_le_of_ne hroom hbehind, hoccupied⟩

theorem Placed.dequeue (h : d.Placed) : d.dequeue.Placed := by
  have hwaiting := h.waiting
  have hnum := h.delivered.num
  have hbound := h.delivered.bound
  unfold Mlme.dequeue
  split
  · exact h
  · rename_i hready
    have hpositive : d.queue.num ≠ 0 := by
      intro hzero
      simp [hzero] at hready
    obtain ⟨m, rest, hnext⟩ : ∃ m rest, d.accepted.drop d.handled.length = m :: rest := by
      apply List.exists_cons_of_ne_nil
      intro hnil
      rw [hnil] at hwaiting
      exact hpositive hwaiting.symm
    have hqueued := h.delivered.queued
    rw [hnext] at hqueued
    obtain ⟨hfirst, hrest⟩ := hqueued.next
    have hlength : (d.handled ++ [d.queue.entry.get d.queue.head]).length =
        d.handled.length + 1 := by
      rw [List.length_append, List.length_singleton]
    have htake : d.accepted.take (d.handled.length + 1) =
        d.accepted.take d.handled.length ++ [m] := by
      rw [List.take_add, hnext, List.take_succ_cons, List.take_zero]
    have hdrop : d.accepted.drop (d.handled.length + 1) = rest := by
      rw [← List.drop_drop, hnext, List.drop_succ_cons, List.drop_zero]
    constructor
    · constructor
      · show (d.handled ++ [_]).length + (d.queue.num - 1) = d.accepted.length
        rw [hlength]
        omega
      · show d.queue.num - 1 ≤ maxLenOfMlmeQueue
        omega
      · show List.Forall₂ _ (d.handled ++ [_]) (d.accepted.take (d.handled ++ [_]).length)
        rw [hlength, htake]
        exact List.rel_append h.delivered.handled (List.Forall₂.cons hfirst List.Forall₂.nil)
      · show Ring.Holds _ d.queue.entry (d.queue.head + 1)
          (d.accepted.drop (d.handled ++ [_]).length)
        rw [hlength, hdrop]
        exact hrest
      · rintro elem ⟨⟩
        exact List.getLast?_concat
    · show d.queue.tail = Ring.slot (d.queue.head + 1) (d.queue.num - 1)
      rw [← Ring.slot_succ, Nat.sub_add_cancel (Nat.pos_of_ne_zero hpositive)]
      exact h.tail
    · rintro elem ⟨⟩
      refine ⟨rfl, ?_, hfirst.occupied⟩
      show d.queue.num - 1 < maxLenOfMlmeQueue
      omega

theorem Placed.finish (h : d.Placed) : d.finish.Placed := by
  unfold Mlme.finish
  split
  · exact h
  · rename_i elem helem
    obtain ⟨hhead, hroom, -⟩ := h.elem elem helem
    have houtside : ∀ k < (d.accepted.drop d.handled.length).length,
        Ring.slot d.queue.head k ≠ elem := by
      intro k hk heq
      rw [h.waiting] at hk
      have hslot : Ring.slot elem (k + 1) = Ring.slot elem 0 := by
        rw [Ring.slot_succ, hhead, heq, Ring.slot_zero]
      have hzero := Ring.slot_inj (by omega) (by decide) hslot
      omega
    constructor
    · constructor
      · exact h.delivered.num
      · exact h.delivered.bound
      · exact h.delivered.handled
      · exact h.delivered.queued.set _ houtside
      · rintro elem' ⟨⟩
    · exact h.tail
    · rintro elem' ⟨⟩

theorem Placed.step (e : MlmeEvent) (h : d.Placed) (he : d.PutsFree e) : (d.step e).Placed := by
  cases e with
  | mlmeEnqueue machine msgType msgLen msg priv =>
    exact ⟨⟨h.delivered.num, h.delivered.bound, h.delivered.handled, h.delivered.queued,
      h.delivered.elem⟩, h.tail, h.elem⟩
  | mlmeEnqueueForRecv rx msgLen msg =>
    exact ⟨⟨h.delivered.num, h.delivered.bound, h.delivered.handled, h.delivered.queued,
      h.delivered.elem⟩, h.tail, h.elem⟩
  | put call => exact h.put call he
  | dequeue => exact h.dequeue
  | finish => exact h.finish
  | config haltInProgress nicNotExist mlmeResetInProgress channel msgTypeSubst =>
    exact ⟨⟨h.delivered.num, h.delivered.bound, h.delivered.handled, h.delivered.queued,
      h.delivered.elem⟩, h.tail, h.elem⟩

theorem placed_start (channel : UInt8) (msgTypeSubst : List UInt8 → Option (ℕ × ℕ)) :
    (start channel msgTypeSubst).Placed where
  delivered :=
    { num := rfl
      bound := Nat.zero_le _
      handled := List.Forall₂.nil
      queued := Ring.holds_nil
      elem := by rintro elem ⟨⟩ }
  tail := rfl
  elem := by rintro elem ⟨⟩

/-- Messages are handled once, in order and unchanged in every run in which each goes into a free
element. -/
theorem mlme_delivered (channel : UInt8) (msgTypeSubst : List UInt8 → Option (ℕ × ℕ))
    {es : List MlmeEvent} (hes : Guarded step PutsFree (start channel msgTypeSubst) es) :
    (run step (start channel msgTypeSubst) es).Delivered :=
  (guarded_invariant Placed (fun _ e hd he => hd.step e he) (placed_start channel msgTypeSubst)
    hes).delivered

/-- A message that is put in while another one is handled. -/
theorem mlme_delivered_two : (run step (start 1 fun _ => none)
    [.mlmeEnqueue 1 2 0 none 0, .put 0, .dequeue, .mlmeEnqueue 3 4 0 none 0, .put 0,
      .finish, .dequeue]).Delivered :=
  mlme_delivered 1 _ (by decide)

/-- `MlmeEnqueue` of a full queue while its first message is handled. -/
def overtaking : List MlmeEvent :=
  (List.range maxLenOfMlmeQueue).flatMap (fun n => [.mlmeEnqueue 1 n 0 none 0, .put 0]) ++
    [.dequeue, .mlmeEnqueue 1 100 0 none 0, .put 0]

/-- The message that is being handled is overwritten. -/
theorem handled_message_overwritten :
    ¬ (run step (start 1 fun _ => none) overtaking).Delivered := by
  intro h
  have hlast := congrArg (Option.map MlmeQueueElem.msgType) (h.elem 0 (by decide +kernel))
  revert hlast
  decide +kernel

end Mlme

end Rt5572

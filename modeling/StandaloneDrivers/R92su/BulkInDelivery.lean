import StandaloneDrivers.R92su.BulkIn

/-! What a bulk-in transfer delivers: its events to `r92su_c2h_event`, its frames to the receive
queue. -/
namespace R92su
open Foundations

/-- The packet that an action dispatches or queues. -/
def RxAction.delivered : RxAction → Option Packet
  | .event p => some p
  | .frame p true => some p
  | _ => none

namespace Transfer
variable (t : Transfer)

def delivered : List Packet := t.rx.filterMap RxAction.delivered

/-- The packets lie in the transfer, and so do the events with their data. -/
def WellFormed : Prop :=
  ∀ p ∈ t.aggregate, p.stop ≤ t.len ∧
    (p.isCmd → p.offset + rxDescSize + (sizeofC2h + p.c2hLen) ≤ t.len)

/-- Every event, and every data packet that comes while the device is connected. -/
def wanted : List Packet → Bool → List Packet
  | [], _ => []
  | p :: ps, connected =>
    (if p.isCmd || connected then [p] else []) ++ wanted ps (t.keeps p connected)

/-- No event comes behind a data packet that meets no connection; what is wanted ends before the
limit, and its allocation succeeds. -/
def Served : List Packet → Bool → Prop
  | [], _ => True
  | p :: ps, connected =>
    (p.isCmd || connected → p.stop ≤ t.limit ∧ (p.isCmd = false → t.alloc p.offset)) ∧
    ((p.isCmd || connected) = false → ∀ q ∈ ps, q.isCmd = false) ∧
    Served ps (t.keeps p connected)

variable {t}

theorem keeps_false (p : Packet) : t.keeps p false = false := by
  simp only [keeps, Bool.false_and, ite_self]

theorem wanted_false {ps : List Packet} :
    t.wanted ps false = [] ↔ ∀ p ∈ ps, p.isCmd = false := by
  induction ps with
  | nil => simp only [wanted, List.not_mem_nil, false_implies, implies_true]
  | cons p ps ih =>
    rw [wanted, keeps_false, List.append_eq_nil_iff, ih, List.forall_mem_cons]
    apply and_congr_left
    intro _
    cases p.isCmd <;> simp

theorem served_false {ps : List Packet} (h : ∀ p ∈ ps, p.isCmd = false) : t.Served ps false := by
  induction ps with
  | nil => trivial
  | cons p ps ih =>
    obtain ⟨hp, hps⟩ := List.forall_mem_cons.mp h
    rw [Served, keeps_false, hp]
    exact ⟨nofun, fun _ => hps, ih hps⟩

/-- Where nothing is delivered, nothing must be wanted. -/
theorem wanted_nil_iff {p : Packet} {ps : List Packet} {connected : Bool}
    (h : p.isCmd || connected → t.limit < p.stop) :
    [] = t.wanted (p :: ps) connected ↔ t.Served (p :: ps) connected := by
  rw [wanted, Served, eq_comm, List.append_eq_nil_iff]
  cases hpass : p.isCmd || connected with
  | true =>
    have hlimit := h hpass
    constructor
    · rintro ⟨hnil, -⟩
      cases hnil
    · rintro ⟨hstop, -⟩
      exact absurd (hstop rfl).1 (Nat.not_le.mpr hlimit)
  | false =>
    obtain ⟨-, rfl⟩ := Bool.or_eq_false_iff.mp hpass
    rw [keeps_false, wanted_false]
    constructor
    · rintro ⟨-, hps⟩
      exact ⟨nofun, fun _ => hps, served_false hps⟩
    · rintro ⟨-, hps, -⟩
      exact ⟨rfl, hps rfl⟩

/-- The rounds at a data packet that meets no connection deliver nothing. -/
theorem rxLoop_delivered_stuck {pos : ℕ} (hcmd : (packetAt t.buf pos).isCmd = false)
    (hstop : (packetAt t.buf pos).stop ≤ t.limit) (n : ℕ) :
    (t.rxLoop n pos false).filterMap RxAction.delivered = [] := by
  rw [List.filterMap_eq_nil_iff]
  exact @rxLoop_stuck t (fun a => a.delivered = none) pos hcmd hstop rfl n

/-- Whether a packet that is passed is delivered. -/
def passes (t : Transfer) (p : Packet) : Bool :=
  if p.isCmd then !t.clipped p else t.alloc p.offset

/-- A round that goes on delivers its packet, as far as it passes, and leaves the rest to the
rounds behind it. -/
theorem rxLoop_delivered_succ (n pos : ℕ) (connected : Bool) :
    (t.rxLoop (n + 1) pos connected).filterMap RxAction.delivered =
      if (packetAt t.buf pos).stop ≤ t.limit ∧ ((packetAt t.buf pos).isCmd || connected) then
        (if t.passes (packetAt t.buf pos) then [packetAt t.buf pos] else []) ++
        (t.rxLoop n (packetAt t.buf pos).next
          (t.keeps (packetAt t.buf pos) connected)).filterMap RxAction.delivered
      else [] := by
  rw [rxLoop, rxRound_next]
  by_cases hend : t.limit ≤ pos
  · have hstop : ¬ (packetAt t.buf pos).stop ≤ t.limit := by
      simp only [Packet.stop, packetAt, rxDescSize]
      omega
    rw [if_pos hend, if_neg (fun h => hstop h.1)]
    rfl
  · rw [if_neg hend, List.filterMap_append]
    by_cases hstop : (packetAt t.buf pos).stop ≤ t.limit
    · cases hpass : (packetAt t.buf pos).isCmd || connected with
      | true =>
        rw [if_pos hstop, if_pos rfl, if_pos ⟨hstop, rfl⟩]
        congr 1
        generalize hp : packetAt t.buf pos = p at hstop hpass
        have hpos : p.offset = pos := by rw [← hp, packetAt_offset]
        simp only [rxRound, hp, if_neg (Nat.not_lt.mpr hstop), passes, hpos]
        cases hcmd : p.isCmd with
        | true => cases t.clipped p <;> rfl
        | false =>
          rw [hcmd, Bool.false_or] at hpass
          subst hpass
          cases t.alloc pos <;> rfl
      | false =>
        obtain ⟨hcmd, rfl⟩ := Bool.or_eq_false_iff.mp hpass
        rw [if_pos hstop, if_neg Bool.false_ne_true, if_neg (fun h => Bool.false_ne_true h.2),
          rxLoop_delivered_stuck hcmd hstop, List.append_nil]
        simp only [rxRound, if_neg (Nat.not_lt.mpr hstop), hcmd, Bool.false_eq_true, if_false,
          Bool.not_false, if_true]
        rfl
    · rw [if_neg hstop, if_neg (fun h => hstop h.1)]
      simp only [rxRound, if_pos (Nat.not_le.mp hstop)]
      rfl

/-- Nothing is delivered twice or out of order. -/
theorem rxLoop_sublist (n pos : ℕ) (connected : Bool) :
    ((t.rxLoop n pos connected).filterMap RxAction.delivered).Sublist
      (t.wanted (packets t.buf n pos) connected) := by
  induction n generalizing pos connected with
  | zero => exact List.nil_sublist _
  | succ n ih =>
    rw [rxLoop_delivered_succ, packets, wanted]
    split
    · rename_i hpass
      rw [if_pos hpass.2]
      apply List.Sublist.append _ (ih _ _)
      split
      · exact List.Sublist.refl _
      · exact List.nil_sublist _
    · exact List.nil_sublist _

/-- An event that lies in the transfer is not clipped. -/
theorem clipped_eq_false {p : Packet}
    (h : p.offset + rxDescSize + (sizeofC2h + p.c2hLen) ≤ t.len) : t.clipped p = false := by
  have hlen := t.len_le
  rw [clipped, decide_eq_false_iff_not]
  simp only [sizeMaxRxBuffer, rxDescSize, sizeofC2h] at h hlen ⊢
  omega

theorem rxLoop_delivered (n pos : ℕ) (connected : Bool)
    (h : ∀ p ∈ packets t.buf n pos, p.isCmd →
      p.offset + rxDescSize + (sizeofC2h + p.c2hLen) ≤ t.len) :
    (t.rxLoop n pos connected).filterMap RxAction.delivered =
        t.wanted (packets t.buf n pos) connected ↔
      t.Served (packets t.buf n pos) connected := by
  induction n generalizing pos connected with
  | zero => exact ⟨fun _ => trivial, fun _ => rfl⟩
  | succ n ih =>
    rw [packets] at h ⊢
    obtain ⟨hevent, hrest⟩ := List.forall_mem_cons.mp h
    rw [rxLoop_delivered_succ]
    by_cases hpass : (packetAt t.buf pos).stop ≤ t.limit ∧ ((packetAt t.buf pos).isCmd || connected)
    · rw [if_pos hpass, wanted, if_pos hpass.2, Served]
      cases hgo : t.passes (packetAt t.buf pos) with
      | true =>
        rw [if_pos rfl, List.append_cancel_left_eq, ih _ _ hrest]
        constructor
        · intro hserved
          refine ⟨fun _ => ⟨hpass.1, fun hcmd => ?_⟩, fun hno => ?_, hserved⟩
          · rwa [passes, hcmd, if_neg Bool.false_ne_true] at hgo
          · rw [hno] at hpass
            exact absurd hpass.2 Bool.false_ne_true
        · exact fun hserved => hserved.2.2
      | false =>
        constructor
        · intro heq
          have hlen := (@rxLoop_sublist t n (packetAt t.buf pos).next
            (t.keeps (packetAt t.buf pos) connected)).length_le
          rw [if_neg Bool.false_ne_true, List.nil_append] at heq
          rw [heq, List.length_append, List.length_singleton] at hlen
          omega
        · rintro ⟨hserved, -⟩
          rw [passes] at hgo
          cases hcmd : (packetAt t.buf pos).isCmd with
          | true =>
            rw [hcmd, if_pos rfl, clipped_eq_false (hevent hcmd)] at hgo
            cases hgo
          | false =>
            rw [hcmd, if_neg Bool.false_ne_true, (hserved hpass.2).2 hcmd] at hgo
            cases hgo
    · rw [if_neg hpass]
      apply wanted_nil_iff
      intro hcmd
      exact Nat.not_le.mp fun hstop => hpass ⟨hstop, hcmd⟩

/-- A well-formed aggregate is delivered when it is served. -/
theorem delivered_iff_served (t : Transfer) (h : t.WellFormed) :
    t.delivered = t.wanted t.aggregate t.connected ↔ t.Served t.aggregate t.connected := by
  have hevents : ∀ p ∈ t.aggregate, p.isCmd →
      p.offset + rxDescSize + (sizeofC2h + p.c2hLen) ≤ t.len := fun p hp => (h p hp).2
  exact rxLoop_delivered t.pktCnt 0 t.connected hevents

section Example

/-- A data packet and behind it an event, for a device without a connection. -/
def lostEvent : Transfer where
  buf := ((Memory.write (fun _ => 0) 10 [2]).write 128 [8, 0, 0, 0, 0xff, 0x01]).write 154 [13]
  len := 256
  len_le := by decide
  connected := false
  alloc := fun _ => true

instance (t : Transfer) : Decidable t.WellFormed :=
  inferInstanceAs (Decidable (∀ p ∈ t.aggregate, _ ∧ (_ → _)))

theorem lostEvent_wellFormed : lostEvent.WellFormed := by
  decide

/-- The event behind the data packet is not dispatched. -/
theorem lostEvent_lost : lostEvent.WellFormed ∧
    lostEvent.delivered ≠ lostEvent.wanted lostEvent.aggregate lostEvent.connected :=
  ⟨lostEvent_wellFormed, by decide⟩

theorem lostEvent_served : lostEvent.WellFormed ∧
    (lostEvent.delivered = lostEvent.wanted lostEvent.aggregate lostEvent.connected ↔
      lostEvent.Served lostEvent.aggregate lostEvent.connected) :=
  ⟨lostEvent_wellFormed, delivered_iff_served lostEvent lostEvent_wellFormed⟩

end Example

end Transfer

end R92su

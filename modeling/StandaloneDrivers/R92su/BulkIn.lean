import StandaloneDrivers.R92su.Event

/-! The bulk-in transfer: the packets that follow one another in the buffer of one URB
(`r92su_rx` in rx.c). -/
namespace R92su
open Foundations

/-- `RX_DESC_SIZE` -/
def rxDescSize : ℕ := 24

/-- `RTL92SU_SIZE_MAX_RX_BUFFER` -/
def sizeMaxRxBuffer : ℕ := 32768

/-- `r92su->rx_alignment` -/
def rxAlignment : ℕ := 128

/-- `SHIFT_AND_MASK_LE(desc, dword, shift, bits)` of the descriptor at `pos` -/
def shiftAndMask (buf : Memory) (pos dword shift bits : ℕ) : ℕ :=
  (buf.le32 (pos + 4 * dword) >>> shift) &&& (2 ^ bits - 1)

/-- One packet of the buffer, as its descriptor and its event header give it. -/
structure Packet where
  offset : ℕ
  hdrLen : ℕ
  shift : ℕ
  pktLen : ℕ
  isCmd : Bool
  c2hLen : ℕ
  dies : Bool
  deriving DecidableEq, Repr

/-- `&rx->c2h` of the packet at `pos` -/
def c2hAt (buf : Memory) (pos : ℕ) : Memory := fun i => buf (pos + rxDescSize + i)

def packetAt (buf : Memory) (pos : ℕ) : Packet where
  offset := pos
  hdrLen := rxDescSize + shiftAndMask buf pos 0 16 4 * 8
  shift := shiftAndMask buf pos 0 24 2
  pktLen := shiftAndMask buf pos 0 0 14
  isCmd := shiftAndMask buf pos 1 0 9 == 0x1ff
  c2hLen := C2h.len (c2hAt buf pos)
  dies := c2hEventDies (c2hAt buf pos)

namespace Packet

def stop (p : Packet) : ℕ := p.offset + p.pktLen + p.hdrLen + p.shift

/-- Where the next packet starts. -/
def next (p : Packet) : ℕ := p.offset + alignUp (p.hdrLen + p.pktLen) rxAlignment

end Packet

/-- A finished transfer, the state of the device, and the allocations for its packets. -/
structure Transfer where
  buf : Memory
  len : ℕ
  len_le : len ≤ sizeMaxRxBuffer
  connected : Bool
  alloc : ℕ → Bool

namespace Transfer
variable (t : Transfer)

/-- `end`, as an offset. -/
def limit : ℕ := min t.len (sizeMaxRxBuffer - rxDescSize)

/-- `max(GET_RX_DESC_PKTCNT(rx->hdr), 1)` of the first descriptor -/
def pktCnt : ℕ := max (shiftAndMask t.buf 0 2 16 8) 1

/-- `len - sizeof(rx->hdr) < c2h.len + sizeof(rx->c2h)`, where the difference is a `size_t` -/
def clipped (p : Packet) : Bool := (t.len + 2 ^ 64 - rxDescSize) % 2 ^ 64 < p.c2hLen + sizeofC2h

/-- The connection behind a packet that was passed. -/
def keeps (p : Packet) (connected : Bool) : Bool :=
  if p.isCmd then connected && !(t.clipped p || p.dies) else connected

end Transfer

inductive RxAction where
  | descriptor (p : Packet)
  | event (p : Packet)
  | frame (p : Packet) (queued : Bool)
  deriving DecidableEq, Repr

/-- The bytes that are read, copied or handed on. -/
def RxAction.spans : RxAction → List Span
  | .descriptor p => [⟨p.offset, rxDescSize⟩]
  | .event p => [⟨p.offset + rxDescSize, sizeofC2h + p.c2hLen⟩]
  | .frame p _ => [⟨p.offset, p.hdrLen⟩, ⟨p.offset + p.hdrLen + p.shift, p.pktLen⟩]

namespace Transfer
variable (t : Transfer)

/-- One round of the loop: what it does, and where the next one starts. -/
def rxRound (pos : ℕ) (connected : Bool) : List RxAction × Option (ℕ × Bool) :=
  let p := packetAt t.buf pos
  if t.limit < p.stop then ([.descriptor p], none)
  else if p.isCmd then
    if t.clipped p then ([.descriptor p], some (p.next, false))
    else ([.descriptor p, .event p], some (p.next, connected && !p.dies))
  -- `continue` leaves `buf` at the packet
  else if !connected then ([.descriptor p], some (pos, connected))
  else ([.descriptor p, .frame p (t.alloc pos)], some (p.next, connected))

/-- `while (buf < end && pkt_cnt--)` -/
def rxLoop : ℕ → ℕ → Bool → List RxAction
  | 0, _, _ => []
  | n + 1, pos, connected =>
    if t.limit ≤ pos then []
    else
      (t.rxRound pos connected).1 ++
      match (t.rxRound pos connected).2 with
      | none => []
      | some (pos, connected) => rxLoop n pos connected

/-- `r92su_rx`, which takes the packet count from the first descriptor. -/
def rx : List RxAction :=
  .descriptor (packetAt t.buf 0) :: t.rxLoop t.pktCnt 0 t.connected

/-- The packets of the aggregate, each at the aligned end of the one before. -/
def packets (buf : Memory) : ℕ → ℕ → List Packet
  | 0, _ => []
  | n + 1, pos => packetAt buf pos :: packets buf n (packetAt buf pos).next

def aggregate : List Packet := packets t.buf t.pktCnt 0

/-- The packets the loop comes to. -/
def reached : List Packet → Bool → List Packet
  | [], _ => []
  | p :: ps, connected =>
    if t.limit ≤ p.offset then []
    else p :: if p.stop ≤ t.limit ∧ (p.isCmd || connected) then reached ps (t.keeps p connected)
      else []

/-- A packet whose descriptor lies in the transfer, and whose event does if it is handed on. -/
def Fits (p : Packet) : Prop :=
  p.offset + rxDescSize ≤ t.len ∧
    (p.isCmd → p.stop ≤ t.limit → t.clipped p = false →
      p.offset + rxDescSize + (sizeofC2h + p.c2hLen) ≤ t.len)

/-- What is read, copied and handed on lies in the first `len` bytes. -/
def RxInside : Prop := ∀ a ∈ t.rx, ∀ s ∈ a.spans, s.Inside t.len

variable {t}

theorem limit_le : t.limit ≤ t.len := Nat.min_le_left _ _

@[simp] theorem packetAt_offset (buf : Memory) (pos : ℕ) : (packetAt buf pos).offset = pos := rfl

/-- The frames of a round always lie in the transfer. -/
theorem rxRound_inside {pos : ℕ} {connected : Bool} :
    (∀ a ∈ (t.rxRound pos connected).1, ∀ s ∈ a.spans, s.Inside t.len) ↔
      t.Fits (packetAt t.buf pos) := by
  have hlimit := t.limit_le
  generalize hp : packetAt t.buf pos = p
  simp only [rxRound, hp, Fits]
  by_cases hstop : t.limit < p.stop
  · simp [hstop, RxAction.spans, Span.Inside]
  · have hle : p.stop ≤ t.limit := Nat.not_lt.mp hstop
    cases hcmd : p.isCmd with
    | true =>
      cases hclip : t.clipped p <;> simp [hstop, hle, RxAction.spans, Span.Inside]
    | false =>
      cases connected with
      | false => simp [hstop, RxAction.spans, Span.Inside]
      | true =>
        have hhdr : p.offset + p.hdrLen ≤ t.len := by
          unfold Packet.stop at hle
          omega
        have hframe : p.offset + p.hdrLen + p.shift + p.pktLen ≤ t.len := by
          unfold Packet.stop at hle
          omega
        simp [hstop, RxAction.spans, Span.Inside, hhdr, hframe]

/-- Where the loop goes on. -/
theorem rxRound_next (pos : ℕ) (connected : Bool) :
    (t.rxRound pos connected).2 =
      if (packetAt t.buf pos).stop ≤ t.limit then
        if (packetAt t.buf pos).isCmd || connected then
          some ((packetAt t.buf pos).next, t.keeps (packetAt t.buf pos) connected)
        else some (pos, false)
      else none := by
  generalize hp : packetAt t.buf pos = p
  simp only [rxRound, hp, keeps]
  by_cases hstop : t.limit < p.stop
  · rw [if_pos hstop, if_neg (Nat.not_le.mpr hstop)]
  · rw [if_neg hstop, if_pos (Nat.not_lt.mp hstop)]
    cases p.isCmd <;> cases connected <;> cases t.clipped p <;> cases p.dies <;> rfl

/-- A data packet that meets no connection is met again in every round. -/
theorem rxLoop_stuck {P : RxAction → Prop} {pos : ℕ} (hcmd : (packetAt t.buf pos).isCmd = false)
    (hstop : (packetAt t.buf pos).stop ≤ t.limit) (h : P (.descriptor (packetAt t.buf pos)))
    (n : ℕ) : ∀ a ∈ t.rxLoop n pos false, P a := by
  have hround : t.rxRound pos false =
      ([.descriptor (packetAt t.buf pos)], some (pos, false)) := by
    simp only [rxRound, if_neg (Nat.not_lt.mpr hstop), hcmd, Bool.false_eq_true, if_false,
      Bool.not_false, if_true]
  induction n with
  | zero => exact fun a ha => absurd ha List.not_mem_nil
  | succ n ih =>
    rw [rxLoop, hround]
    split
    · exact fun a ha => absurd ha List.not_mem_nil
    · intro a ha
      rcases List.mem_append.mp ha with ha | ha
      · rw [List.mem_singleton.mp ha]
        exact h
      · exact ih a ha

/-- The loop stays in the transfer when the packets it comes to do. -/
theorem rxLoop_inside (n pos : ℕ) (connected : Bool) :
    (∀ a ∈ t.rxLoop n pos connected, ∀ s ∈ a.spans, s.Inside t.len) ↔
      ∀ p ∈ t.reached (packets t.buf n pos) connected, t.Fits p := by
  induction n generalizing pos connected with
  | zero => simp only [rxLoop, packets, reached, List.not_mem_nil, false_implies, implies_true]
  | succ n ih =>
    rw [rxLoop, packets, reached, packetAt_offset]
    by_cases hend : t.limit ≤ pos
    · simp only [hend, if_true, List.not_mem_nil, false_implies, implies_true]
    · rw [if_neg hend, if_neg hend, List.forall_mem_append, rxRound_inside, List.forall_mem_cons]
      apply and_congr_right
      intro hfits
      rw [rxRound_next]
      by_cases hstop : (packetAt t.buf pos).stop ≤ t.limit
      · rw [if_pos hstop]
        by_cases hpass : (packetAt t.buf pos).isCmd || connected
        · rw [if_pos hpass, if_pos ⟨hstop, hpass⟩]
          exact ih _ _
        · rw [if_neg hpass, if_neg (fun h => hpass h.2)]
          simp only [Bool.not_eq_true, Bool.or_eq_false_iff] at hpass
          constructor
          · exact fun _ p hp => absurd hp List.not_mem_nil
          · intro _
            apply @rxLoop_stuck t (fun a => ∀ s ∈ a.spans, s.Inside t.len) pos hpass.1 hstop
            intro s hs
            rw [List.mem_singleton.mp hs]
            exact hfits.1
      · rw [if_neg hstop, if_neg (fun h => hstop h.1)]
        simp only [List.not_mem_nil, false_implies, implies_true]

/-- The transfer bounds the parser when it holds the first descriptor, and every packet the loop
comes to leaves room for its descriptor and for an event that is handed on. -/
theorem rxInside_iff (t : Transfer) :
    t.RxInside ↔ rxDescSize ≤ t.len ∧ ∀ p ∈ t.reached t.aggregate t.connected, t.Fits p := by
  rw [RxInside, rx, List.forall_mem_cons, rxLoop_inside]
  apply and_congr_left
  intro _
  simp only [RxAction.spans, List.mem_singleton, forall_eq, Span.Inside, packetAt_offset,
    Nat.zero_add]

end Transfer

section Example

/-- Two empty packets, of which the second has only eight bytes. -/
def shortTransfer : Transfer where
  buf := Memory.write (fun _ => 0) 10 [2]
  len := 136
  len_le := by decide
  connected := true
  alloc := fun _ => true

/-- The second descriptor is read behind the end. -/
theorem shortTransfer_outside : ¬ shortTransfer.RxInside := by
  rw [Transfer.rxInside_iff]
  rintro ⟨-, h⟩
  have hmem : packetAt shortTransfer.buf 128 ∈
      shortTransfer.reached shortTransfer.aggregate shortTransfer.connected := by
    decide
  exact absurd (h _ hmem).1 (by decide)

end Example

end R92su

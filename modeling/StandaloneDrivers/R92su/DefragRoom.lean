import StandaloneDrivers.R92su.Reassembly

/-! The room in front of the last fragment, where the queued ones are put (rx.c). -/
namespace R92su
open Foundations

/-- A frame with the free bytes in front of it. -/
structure RxBuffer where
  skb : Skb
  headroom : ℕ

namespace RxBuffer

/-- `skb_pull` -/
def pull (b : RxBuffer) (n : ℕ) : RxBuffer :=
  if n ≤ b.skb.data.length then
    ⟨{ b.skb with data := b.skb.data.drop n }, b.headroom + n⟩
  else b

/-- `memcpy(skb_push(skb, tmp->len), tmp->data, tmp->len)`; `none` where the buffer underruns. -/
def push (b : RxBuffer) (tmp : Skb) : Option RxBuffer :=
  if tmp.data.length ≤ b.headroom then
    some ⟨{ b.skb with data := tmp.data ++ b.skb.data, clear := tmp.clear || b.skb.clear },
      b.headroom - tmp.data.length⟩
  else none

/-- `pskb_expand_head(skb, nhead, 0, GFP_ATOMIC)`, which must not be asked for less than nothing. -/
def expandHead (b : RxBuffer) (nhead : ℤ) : Option RxBuffer :=
  if nhead < 0 then none else some { b with headroom := b.headroom + nhead.toNat }

/-- The queue is emptied from its tail. -/
def merge (queue : List Skb) (b : RxBuffer) : Option RxBuffer :=
  queue.foldr (fun tmp b => b.bind fun b => (b.pull b.skb.hdrlen).push tmp) (some b)

end RxBuffer

/-- `defrag->size - skb->len` with the last fragment counted, as an `int`. -/
def DefragEntry.expandArg (defrag : DefragEntry) (skb : Skb) : ℤ :=
  Int.bmod ((defrag.addSize skb : ℤ) - skb.data.length) (2 ^ 32)

/-- The last fragment and all that is queued, in its buffer. -/
def DefragEntry.mergeBuffer (defrag : DefragEntry) (b : RxBuffer) : Option RxBuffer := do
  let b ← b.expandHead (defrag.expandArg b.skb)
  b.merge defrag.queue

/-- The buffer a frame arrives in: `rx92su_rx_copy_data` leaves 32 bytes free, and the tasklet
pulls the descriptor's 24. -/
structure RxArrival extends RxBuffer where
  reserved : 32 + 24 ≤ headroom
  headroom_lt : headroom < 2 ^ 32

/-- The bytes behind the headers. -/
def payloadBytes (queue : List Skb) : ℕ := (queue.map fun f => f.payload.length).sum

@[simp] theorem payloadBytes_nil : payloadBytes [] = 0 := rfl

@[simp] theorem payloadBytes_cons (f : Skb) (queue : List Skb) :
    payloadBytes (f :: queue) = f.payload.length + payloadBytes queue := List.sum_cons

theorem payloadBytes_snoc (queue : List Skb) (f : Skb) :
    payloadBytes (queue ++ [f]) = payloadBytes queue + f.payload.length := by
  simp [payloadBytes]

/-- A frame with a header of `n` bytes that is all there. -/
structure Skb.Whole (n : ℕ) (skb : Skb) : Prop where
  header : skb.hdrlen = n
  fits : n ≤ skb.data.length

theorem Skb.Whole.length {n : ℕ} {skb : Skb} (h : skb.Whole n) :
    skb.data.length = n + skb.payload.length := by
  have := h.fits
  rw [Skb.payload, h.header, List.length_drop]
  omega

/-- A frame put in front of other bytes keeps its header. -/
theorem Skb.Whole.prepend {n : ℕ} {f skb : Skb} {bytes : List UInt8} (h : f.Whole n)
    (hdata : skb.data = f.data ++ bytes) : skb.Whole n := by
  have hfits := h.fits
  have hheader : R92su.hdrlen f.frameControl = n := h.header
  have htwo : 2 ≤ f.data.length := by
    have := hdrlen_ge f.frameControl
    omega
  constructor
  · rw [← hheader, Skb.hdrlen, Skb.frameControl, hdata, le16_append htwo]
    rfl
  · rw [hdata, List.length_append]
    omega

namespace RxBuffer

/-- Merging needs room for the payloads; each header takes the place of the one before. -/
theorem merge_room {n : ℕ} {queue : List Skb} (hq : ∀ f ∈ queue, f.Whole n) {b : RxBuffer}
    (hb : b.skb.Whole n) :
    (b.headroom < payloadBytes queue → b.merge queue = none) ∧
    (payloadBytes queue ≤ b.headroom → ∃ b', b.merge queue = some b' ∧ b'.skb.Whole n ∧
      b'.skb = mergeQueue queue b.skb ∧ b'.headroom = b.headroom - payloadBytes queue) := by
  induction queue with
  | nil => exact ⟨fun h => absurd h (Nat.not_lt_zero _), fun _ => ⟨b, rfl, hb, rfl, rfl⟩⟩
  | cons f queue ih =>
    obtain ⟨hnone, hsome⟩ := ih fun g hg => hq g (List.mem_cons_of_mem _ hg)
    have hf := hq f List.mem_cons_self
    have hlen := hf.length
    have hunfold : b.merge (f :: queue) =
        (b.merge queue).bind fun b => (b.pull b.skb.hdrlen).push f := rfl
    rw [payloadBytes_cons, hunfold]
    by_cases hroom : payloadBytes queue ≤ b.headroom
    · obtain ⟨b', hrun, hwhole, hskb, hhead⟩ := hsome hroom
      rw [hrun, Option.bind_some, pull, hwhole.header, if_pos hwhole.fits, push]
      constructor
      · intro hlt
        apply if_neg
        dsimp only
        omega
      · intro hle
        rw [if_pos (by dsimp only; omega)]
        refine ⟨_, rfl, ?_, ?_, ?_⟩
        · exact hf.prepend rfl
        · rw [mergeQueue, List.foldr_cons]
          change _ = { mergeQueue queue b.skb with
            data := f.data ++ (mergeQueue queue b.skb).pull (mergeQueue queue b.skb).hdrlen
            clear := f.clear || (mergeQueue queue b.skb).clear }
          rw [← hskb, Skb.pull, hwhole.header, if_pos hwhole.fits]
        · dsimp only
          omega
    · rw [hnone (by omega)]
      exact ⟨fun _ => rfl, fun h => by omega⟩

end RxBuffer

namespace DefragEntry

/-- The entry after a frame. -/
def step (defrag : DefragEntry) (e : FragmentEvent) : DefragEntry :=
  (rxDefrag e.key e.expanded e.skb defrag).2.1

/-- The queued frames are all there, and their size is kept, as far as it fits. -/
structure Sized (n : ℕ) (defrag : DefragEntry) : Prop where
  whole : ∀ f ∈ defrag.queue, f.Whole n
  size : defrag.queue ≠ [] → defrag.size = payloadBytes defrag.queue % 2 ^ 32

theorem sized_empty (n size : ℕ) : Sized n ⟨[], size⟩ :=
  ⟨fun _ hf => absurd hf List.not_mem_nil, fun h => absurd rfl h⟩

theorem addSize_whole {n : ℕ} {skb : Skb} (h : skb.Whole n) (defrag : DefragEntry) :
    defrag.addSize skb = (defrag.size + skb.payload.length) % 2 ^ 32 := by
  have hlen := h.length
  rw [addSize, h.header]
  omega

theorem Sized.add {n : ℕ} {defrag : DefragEntry} (h : Sized n defrag)
    (hsize : defrag.size = payloadBytes defrag.queue % 2 ^ 32) {skb : Skb} (hskb : skb.Whole n) :
    Sized n (defrag.add skb) := by
  constructor
  · intro f hf
    obtain hf | hf := List.mem_append.mp hf
    · exact h.whole f hf
    · rw [List.mem_singleton.mp hf]
      exact ⟨hskb.header, hskb.fits⟩
  · intro _
    rw [DefragEntry.add, addSize_whole hskb, payloadBytes_snoc, hsize]
    exact Nat.mod_add_mod _ _ _

theorem match_nonempty {skb : Skb} {defrag : DefragEntry} {key : Option Key}
    (h : checkIfMatch skb defrag key = true) : defrag.queue ≠ [] := by
  obtain ⟨tail, htail, -⟩ := checkIfMatch_iff.mp h
  exact List.ne_nil_of_mem (List.mem_of_getLast? htail)

theorem Sized.step {n : ℕ} {defrag : DefragEntry} (h : Sized n defrag) {e : FragmentEvent}
    (he : e.skb.Whole n) : Sized n (defrag.step e) := by
  unfold DefragEntry.step rxDefrag
  split
  · split
    · exact (sized_empty n 0).add rfl he
    · split
      · rename_i hmatch
        exact h.add (h.size (match_nonempty hmatch)) he
      · exact sized_empty n 0
  · split
    · exact sized_empty n 0
    · split
      · exact sized_empty n 0
      · split
        · exact sized_empty n 0
        · exact sized_empty n _

theorem run_sized {n : ℕ} {es : List FragmentEvent} (hes : ∀ e ∈ es, e.skb.Whole n) :
    Sized n (run step ⟨[], 0⟩ es) := by
  induction es using List.reverseRecOn with
  | nil => exact sized_empty n 0
  | append_singleton es e ih =>
    rw [run_append]
    exact (ih fun e he => hes e (List.mem_append_left _ he)).step
      (hes e (List.mem_append_right _ List.mem_cons_self))

/-- The frame completes the queued ones. -/
def Completes (key : Option Key) (skb : Skb) (defrag : DefragEntry) : Prop :=
  hasMorefrags skb.frameControl = false ∧ skb.frag ≠ 0 ∧ checkIfMatch skb defrag key = true

/-- The size is that of the queue, and a last fragment is merged within its buffer. -/
structure RoomSound (defrag : DefragEntry) (key : Option Key) (b : RxBuffer) : Prop where
  size : defrag.queue ≠ [] → defrag.size = payloadBytes defrag.queue
  merge : Completes key b.skb defrag → 0 ≤ defrag.expandArg b.skb ∧
    ∃ b', defrag.mergeBuffer b = some b'

/-- The sum fits, and what was queued before a last fragment is not shorter than a header. -/
structure RoomEnough (defrag : DefragEntry) (key : Option Key) (n : ℕ) (skb : Skb) : Prop where
  size : payloadBytes defrag.queue < 2 ^ 32
  merge : Completes key skb defrag →
    n ≤ payloadBytes defrag.queue ∧ payloadBytes defrag.queue < 2 ^ 31 + n

theorem Sized.expandArg {n : ℕ} {defrag : DefragEntry} (h : Sized n defrag)
    (hne : defrag.queue ≠ []) {skb : Skb} (hskb : skb.Whole n) :
    defrag.expandArg skb = Int.bmod ((payloadBytes defrag.queue : ℤ) - n) (2 ^ 32) := by
  have hlen := hskb.length
  rw [DefragEntry.expandArg, addSize_whole hskb, h.size hne, Nat.mod_add_mod, hlen]
  push_cast
  rw [Int.bmod_def, Int.bmod_def]
  have hmod : ((payloadBytes defrag.queue + skb.payload.length : ℤ) % 4294967296 -
      (n + skb.payload.length)) % 4294967296 = (payloadBytes defrag.queue - n : ℤ) % 4294967296 := by
    omega
  push_cast
  rw [hmod]

theorem Sized.mergeBuffer {n : ℕ} {defrag : DefragEntry} (h : Sized n defrag) {b : RxArrival}
    (hb : b.skb.Whole n) (hnonneg : 0 ≤ defrag.expandArg b.skb) :
    (∃ b', defrag.mergeBuffer b.toRxBuffer = some b') ↔
      payloadBytes defrag.queue ≤ b.headroom + (defrag.expandArg b.skb).toNat := by
  have hexpand : b.expandHead (defrag.expandArg b.skb) =
      some { b.toRxBuffer with headroom := b.headroom + (defrag.expandArg b.skb).toNat } :=
    if_neg (not_lt.mpr hnonneg)
  obtain ⟨hnone, hsome⟩ := RxBuffer.merge_room h.whole
    (b := { b.toRxBuffer with headroom := b.headroom + (defrag.expandArg b.skb).toNat }) hb
  rw [DefragEntry.mergeBuffer, hexpand]
  constructor
  · rintro ⟨b', hrun⟩
    by_contra hlt
    rw [Option.bind_eq_bind, Option.bind_some, hnone (not_le.mp hlt)] at hrun
    contradiction
  · intro hle
    obtain ⟨b', hrun, -⟩ := hsome hle
    exact ⟨b', hrun⟩

theorem Sized.roomSound_iff {n : ℕ} {defrag : DefragEntry} (h : Sized n defrag) {b : RxArrival}
    (hb : b.skb.Whole n) (key : Option Key) :
    RoomSound defrag key b.toRxBuffer ↔ RoomEnough defrag key n b.skb := by
  have hn : n ≤ 36 := by
    rw [← hb.header]
    exact hdrlen_le _
  have hroom := b.reserved
  have hlt := b.headroom_lt
  constructor
  · rintro ⟨hsize, hmerge⟩
    have hbytes : payloadBytes defrag.queue < 2 ^ 32 := by
      by_cases hne : defrag.queue = []
      · rw [hne]
        exact Nat.two_pow_pos 32
      · have := h.size hne
        have := hsize hne
        omega
    refine ⟨hbytes, fun hc => ?_⟩
    obtain ⟨hnonneg, hrun⟩ := hmerge hc
    rw [h.expandArg (match_nonempty hc.2.2) hb, Int.bmod_def] at hnonneg
    push_cast at hnonneg
    split at hnonneg
    · omega
    · omega
  · rintro ⟨hbytes, hmerge⟩
    constructor
    · intro hne
      rw [h.size hne]
      exact Nat.mod_eq_of_lt hbytes
    · intro hc
      obtain ⟨hle, hbound⟩ := hmerge hc
      have harg : defrag.expandArg b.skb = (payloadBytes defrag.queue : ℤ) - n := by
        rw [h.expandArg (match_nonempty hc.2.2) hb]
        exact Int.bmod_eq_of_le_mul_two (by omega) (by omega)
      have hnonneg : 0 ≤ defrag.expandArg b.skb := by omega
      exact ⟨hnonneg, (h.mergeBuffer hb hnonneg).mpr (by omega)⟩

/-- After every run of fragments with headers of one length: the size is that of the queue, and a
last fragment is merged within its buffer, exactly where the sum fits and the queued payloads are
not shorter than a header. -/
theorem run_roomSound {n : ℕ} {es : List FragmentEvent} (hes : ∀ e ∈ es, e.skb.Whole n)
    {b : RxArrival} (hb : b.skb.Whole n) (key : Option Key) :
    RoomSound (run step ⟨[], 0⟩ es) key b.toRxBuffer ↔
      RoomEnough (run step ⟨[], 0⟩ es) key n b.skb :=
  (run_sized hes).roomSound_iff hb key

/-- Within its buffer a last fragment becomes the merged frame. -/
theorem mergeBuffer_skb {n : ℕ} {defrag : DefragEntry} (h : Sized n defrag) {b b' : RxBuffer}
    (hb : b.skb.Whole n) (hrun : defrag.mergeBuffer b = some b') :
    b'.skb = mergeQueue defrag.queue b.skb := by
  obtain ⟨c, hc, hrun⟩ := Option.bind_eq_some_iff.mp hrun
  unfold RxBuffer.expandHead at hc
  split at hc
  · contradiction
  · cases hc
    obtain ⟨hnone, hsome⟩ := RxBuffer.merge_room h.whole
      (b := { b with headroom := b.headroom + (defrag.expandArg b.skb).toNat }) hb
    by_cases hle : payloadBytes defrag.queue ≤ b.headroom + (defrag.expandArg b.skb).toNat
    · obtain ⟨d, hd, -, hskb, -⟩ := hsome hle
      rw [hd] at hrun
      cases hrun
      exact hskb
    · rw [hnone (by dsimp only; omega)] at hrun
      contradiction

section Samples

/-- A frame as it arrives, behind the descriptor. -/
def arrival (skb : Skb) : RxArrival := ⟨⟨skb, 56⟩, le_rfl, show 56 < 2 ^ 32 by decide⟩

theorem plainFrame_whole (more : Bool) (seq frag : ℕ) (payload : List UInt8) :
    (Reassembly.plainFrame more seq frag payload).Whole 24 := by
  constructor
  · have hfc : (Reassembly.plainFrame more seq frag payload).frameControl =
        if more then 0x0608 else 0x0208 := by
      cases more <;> simp [Skb.frameControl, le16, byteAt, Reassembly.plainFrame]
    rw [Skb.hdrlen, hfc]
    cases more
    · decide
    · decide
  · simp [Reassembly.plainFrame]

theorem run_roomSound_whole : RoomSound
    (run step ⟨[], 0⟩ [⟨none, true, Reassembly.plainFrame true 7 0 (List.replicate 24 1)⟩]) none
    (arrival (Reassembly.plainFrame false 7 1 [2])).toRxBuffer := by
  apply (run_roomSound (n := 24) ?_ (plainFrame_whole _ _ _ _) none).mpr
  · constructor
    · decide
    · intro _
      decide
  · intro e he
    rw [List.mem_singleton.mp he]
    exact plainFrame_whole _ _ _ _

/-- A first fragment shorter than a header. -/
theorem short_fragments_underrun : ¬ ∀ (n : ℕ) (es : List FragmentEvent) (b : RxArrival)
    (key : Option Key), (∀ e ∈ es, e.skb.Whole n) → b.skb.Whole n →
      RoomSound (run step ⟨[], 0⟩ es) key b.toRxBuffer := by
  intro h
  have hsound := h 24 [⟨none, true, Reassembly.plainFrame true 7 0 [1]⟩]
    (arrival (Reassembly.plainFrame false 7 1 [2])) none
    (fun e he => by
      rw [List.mem_singleton.mp he]
      exact plainFrame_whole _ _ _ _)
    (plainFrame_whole _ _ _ _)
  have hcompletes : Completes none (Reassembly.plainFrame false 7 1 [2])
      (run step ⟨[], 0⟩ [⟨none, true, Reassembly.plainFrame true 7 0 [1]⟩]) :=
    ⟨by decide, by decide, by decide⟩
  exact absurd (hsound.merge hcompletes).1 (by decide)

end Samples

end DefragEntry

end R92su

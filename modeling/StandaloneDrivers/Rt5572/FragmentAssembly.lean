import StandaloneDrivers.Rt5572.DeFragment

/-! What is made of fragments: the packets that are returned are whole and of one frame. -/
namespace Rt5572
open Foundations
variable {rxwiSize : UInt8}

/-- Fragments 0, 1, .. of one transmitter and one sequence number. -/
structure OneFrame (first : FragBlk rxwiSize) (rest : List (FragBlk rxwiSize)) : Prop where
  frag : (first :: rest).map FragBlk.frag = List.range (rest.length + 1)
  sequence : ∀ b ∈ rest, b.sequence = first.sequence
  transmitter : ∀ b ∈ rest, b.transmitter = first.transmitter

/-- The packet is a whole frame: the last of its fragments, and only the last, announces no more. -/
def WholeFrame (received : List (FragBlk rxwiSize)) (p : RxPacket) : Prop :=
  ∃ first rest last, OneFrame first (rest ++ [last]) ∧ first :: (rest ++ [last]) ⊆ received ∧
    (∀ b ∈ first :: rest, b.moreFrag = true) ∧ last.moreFrag = false ∧
      p.rxWI = first.rxWI ∧ p.header = first.header ∧
        p.data = first.data ++ (rest ++ [last]).flatMap FragBlk.data ∧ p.dataSize = p.data.length

theorem WholeFrame.mono {received received' : List (FragBlk rxwiSize)} {p : RxPacket}
    (hp : WholeFrame received p) (h : received ⊆ received') : WholeFrame received' p := by
  obtain ⟨first, rest, last, hone, hsub, hrest⟩ := hp
  exact ⟨first, rest, last, hone, fun b hb => h (hsub hb), hrest⟩

theorem OneFrame.append {first b : FragBlk rxwiSize} {rest : List (FragBlk rxwiSize)}
    (h : OneFrame first rest) (hfrag : b.frag = rest.length + 1)
    (hsequence : b.sequence = first.sequence) (htransmitter : b.transmitter = first.transmitter) :
    OneFrame first (rest ++ [b]) where
  frag := by
    rw [← List.cons_append, List.map_append, h.frag, List.map_singleton, hfrag,
      List.length_append, List.length_singleton, List.range_succ (n := rest.length + 1)]
  sequence := by
    intro c hc
    rcases List.mem_append.mp hc with hc | hc
    · exact h.sequence c hc
    · rw [List.mem_singleton.mp hc, hsequence]
  transmitter := by
    intro c hc
    rcases List.mem_append.mp hc with hc | hc
    · exact h.transmitter c hc
    · rw [List.mem_singleton.mp hc, htransmitter]

/-- The bytes of a descriptor, a header and payloads. -/
def joinedBytes (first : FragBlk rxwiSize) (rest : List (FragBlk rxwiSize)) : List UInt8 :=
  first.rxWI ++ first.header ++ (first.data ++ rest.flatMap FragBlk.data)

theorem joinedBytes_append (first b : FragBlk rxwiSize) (rest : List (FragBlk rxwiSize)) :
    joinedBytes first (rest ++ [b]) = joinedBytes first rest ++ b.data := by
  simp [joinedBytes]

/-- The buffer holds fragments of one frame that all announce more. -/
structure Holding (f : FragmentFrame) (first : FragBlk rxwiSize) (rest : List (FragBlk rxwiSize)) :
    Prop where
  one : OneFrame first rest
  moreFrag : ∀ b ∈ first :: rest, b.moreFrag = true
  sequence : f.sequence = first.sequence
  lastFrag : f.lastFrag = rest.length
  rxSize : f.rxSize = (joinedBytes first rest).length
  fragPacket : f.rxSize ≤ f.fragPacket.length →
    f.fragPacket.take f.rxSize = joinedBytes first rest

theorem rxwiSize_fits {n : ℕ} (h : n ≤ maxFrameSize + rxwiSize.toNat) : n ≤ rxBufferNormsize := by
  have := rxwiSize.toNat_lt
  simp only [maxFrameSize, rxBufferNormsize] at *
  omega

section
variable {f : FragmentFrame} {first b : FragBlk rxwiSize} {rest : List (FragBlk rxwiSize)}

/-- A first fragment begins a frame. -/
theorem holding_record (hfrag : b.frag = 0) (hmore : b.moreFrag = true) :
    Holding (f.record b) b [] where
  one :=
    { frag := by
        rw [List.map_singleton, hfrag]
        rfl
      sequence := fun c hc => absurd hc List.not_mem_nil
      transmitter := fun c hc => absurd hc List.not_mem_nil }
  moreFrag := by
    intro c hc
    rw [List.mem_singleton.mp hc, hmore]
  sequence := rfl
  lastFrag := hfrag
  rxSize := by
    simp only [FragmentFrame.record, joinedBytes, List.flatMap_nil, List.append_nil,
      List.length_append, b.rxWI_length]
    omega
  fragPacket := by
    intro hfits
    simp only [FragmentFrame.record, overwrite_length] at hfits ⊢
    have hrxwi : 0 + b.rxWI.length ≤ f.fragPacket.length := by
      rw [b.rxWI_length]
      omega
    have hlen : b.data.length + b.header.length + rxwiSize.toNat =
        rxwiSize.toNat + (b.header ++ b.data).length := by
      rw [List.length_append]
      omega
    have hfirst := take_overwrite hrxwi
    rw [Nat.zero_add, List.take_zero, List.nil_append, b.rxWI_length] at hfirst
    rw [hlen, take_overwrite (by rw [overwrite_length]; omega), hfirst]
    simp [joinedBytes]

/-- A frame goes behind the others. -/
theorem Holding.concatenate (h : Holding f first rest) (hact : f.act b = .joined)
    (htransmitter : b.transmitter = first.transmitter)
    (hsize : f.fragPacket.length = rxBufferNormsize) :
    OneFrame first (rest ++ [b]) ∧ (f.concatenate b).rxSize ≤ rxBufferNormsize ∧
      (f.concatenate b).rxSize = (joinedBytes first (rest ++ [b])).length ∧
        (f.concatenate b).fragPacket.take (f.concatenate b).rxSize =
          joinedBytes first (rest ++ [b]) := by
  unfold FragmentFrame.act at hact
  split_ifs at hact with hzero hmore hother hlarge hsnap
  obtain ⟨hsequence, hfrag⟩ := not_or.mp hother
  have hroom : f.rxSize + b.data.length ≤ rxBufferNormsize :=
    rxwiSize_fits (Nat.le_of_not_lt hlarge)
  have hfits : f.rxSize + b.data.length ≤ f.fragPacket.length := by rwa [hsize]
  refine ⟨?_, hroom, ?_, ?_⟩
  · apply h.one.append
    · rw [← h.lastFrag]
      exact not_not.mp hfrag
    · rw [← h.sequence]
      exact not_not.mp hsequence
    · exact htransmitter
  · rw [joinedBytes_append, List.length_append, ← h.rxSize]
    rfl
  · show (overwrite f.fragPacket f.rxSize b.data).take (f.rxSize + b.data.length) = _
    rw [take_overwrite hfits, h.fragPacket (by omega), joinedBytes_append]

/-- What is read of a buffer that begins with the bytes of a frame. -/
theorem packet_eq {last : FragBlk rxwiSize} (hsize : f.rxSize = (joinedBytes first rest).length)
    (hbytes : f.fragPacket.take f.rxSize = joinedBytes first rest)
    (hroom : first.header.length = last.header.length)
    (hlarge : f.rxSize < 65536) :
    f.packet last = ⟨first.rxWI, first.header, first.data ++ rest.flatMap FragBlk.data,
      (first.data ++ rest.flatMap FragBlk.data).length⟩ := by
  have hlen : f.rxSize = rxwiSize.toNat + first.header.length +
      (first.data ++ rest.flatMap FragBlk.data).length := by
    rw [hsize, joinedBytes, List.length_append, List.length_append, first.rxWI_length]
  have hdataSize : (((f.rxSize : ℤ) - last.header.length - rxwiSize.toNat) % 65536).toNat =
      (first.data ++ rest.flatMap FragBlk.data).length := by omega
  rw [← hroom] at hdataSize
  have hsplit : f.fragPacket = first.rxWI ++ (first.header ++ ((first.data ++
      rest.flatMap FragBlk.data) ++ f.fragPacket.drop f.rxSize)) := by
    conv_lhs => rw [← List.take_append_drop f.rxSize f.fragPacket, hbytes]
    simp only [joinedBytes, List.append_assoc]
  have hdata : slice f.fragPacket (rxwiSize.toNat + first.header.length)
      (first.data ++ rest.flatMap FragBlk.data).length = first.data ++ rest.flatMap FragBlk.data := by
    rw [slice, ← List.drop_drop, hsplit, List.drop_left' first.rxWI_length, List.drop_left,
      List.take_left]
  have hheader : slice f.fragPacket rxwiSize.toNat first.header.length = first.header := by
    rw [slice, hsplit, List.drop_left' first.rxWI_length, List.take_left]
  have hrxWI : slice f.fragPacket 0 rxwiSize.toNat = first.rxWI := by
    rw [slice, hsplit, List.drop_zero, List.take_left' first.rxWI_length]
  unfold FragmentFrame.packet
  simp only [hdataSize, ← hroom, hdata, hheader, hrxWI]

end

namespace DeFragmentation

/-- A fragment that is put behind others belongs to the frame of a first fragment of its
transmitter, and the last one has a header of the same length. -/
def Continues (s : DeFragmentation rxwiSize) (e : FragmentEvent rxwiSize) : Prop :=
  s.fragFrame.act e.rxBlk = .joined → s.inBuffer.head?.any (fun first =>
    e.rxBlk.transmitter == first.transmitter &&
      (e.rxBlk.moreFrag || first.header.length == e.rxBlk.header.length)) = true

instance (s : DeFragmentation rxwiSize) (e : FragmentEvent rxwiSize) : Decidable (s.Continues e) :=
  inferInstanceAs (Decidable (_ → _ = true))

/-- The buffer holds what was received, and whole frames were returned. -/
structure Sound (s : DeFragmentation rxwiSize) : Prop where
  size : s.fragFrame.fragPacket.length = rxBufferNormsize
  received : s.inBuffer ⊆ s.received
  holding : ∀ first rest, s.inBuffer = first :: rest → Holding s.fragFrame first rest
  returned : ∀ p ∈ s.returned, WholeFrame s.received p

variable {s : DeFragmentation rxwiSize} {e : FragmentEvent rxwiSize}

theorem Sound.returned_mono (h : s.Sound) {p : RxPacket} (hp : p ∈ s.returned) :
    WholeFrame (s.received ++ [e.rxBlk]) p :=
  (h.returned p hp).mono (List.subset_append_left _ _)

theorem record_length (f : FragmentFrame) (b : FragBlk rxwiSize) :
    (f.record b).fragPacket.length = f.fragPacket.length := by
  simp only [FragmentFrame.record, overwrite_length]

theorem concatenate_length (f : FragmentFrame) (b : FragBlk rxwiSize) :
    (f.concatenate b).fragPacket.length = f.fragPacket.length := by
  simp only [FragmentFrame.concatenate, overwrite_length]

/-- A frame that changes nothing but what is known to have come. -/
theorem Sound.same (h : s.Sound) {t : DeFragmentation rxwiSize} (hframe : t.fragFrame = s.fragFrame)
    (hbuffer : t.inBuffer = s.inBuffer) (hreceived : t.received = s.received ++ [e.rxBlk])
    (hreturned : t.returned = s.returned) : t.Sound where
  size := by rw [hframe, h.size]
  received := by
    rw [hbuffer, hreceived]
    exact List.Subset.trans h.received (List.subset_append_left _ _)
  holding := by
    rw [hframe, hbuffer]
    exact h.holding
  returned := by
    rw [hreturned, hreceived]
    exact fun p hp => h.returned_mono hp

/-- After a reset, or a frame that was returned, the buffer counts as empty. -/
theorem Sound.emptied (h : s.Sound) {t : DeFragmentation rxwiSize}
    (hsize : t.fragFrame.fragPacket.length = rxBufferNormsize) (hbuffer : t.inBuffer = [])
    (hreceived : t.received = s.received ++ [e.rxBlk])
    (hreturned : ∀ p ∈ t.returned, p ∈ s.returned ∨ WholeFrame (s.received ++ [e.rxBlk]) p) :
    t.Sound where
  size := hsize
  received := by
    rw [hbuffer]
    exact List.nil_subset _
  holding := by
    rw [hbuffer]
    rintro first rest ⟨⟩
  returned := by
    intro p hp
    rw [hreceived]
    rcases hreturned p hp with hold | hnew
    · exact h.returned_mono hold
    · exact hnew

/-- A first fragment is recorded. -/
theorem Sound.first (h : s.Sound) (hact : s.fragFrame.act e.rxBlk = .first) : (s.step e).Sound := by
  have hfirst : e.rxBlk.frag = 0 ∧ e.rxBlk.moreFrag = true := by
    unfold FragmentFrame.act at hact
    split_ifs at hact with hzero hmore
    exact ⟨hzero, hmore⟩
  have hstep : s.step e = { s with
      fragFrame := s.fragFrame.record e.rxBlk
      received := s.received ++ [e.rxBlk]
      inBuffer := [e.rxBlk] } := by
    simp [DeFragmentation.step, buffered, FragmentFrame.rtmpDeFragmentDataFrame, hact]
  rw [hstep]
  constructor
  · rw [record_length, h.size]
  · exact List.subset_append_right _ _
  · rintro first rest ⟨⟩
    exact holding_record hfirst.1 hfirst.2
  · exact fun p hp => h.returned_mono hp

/-- What is known when a fragment goes behind others. -/
theorem Sound.joined (h : s.Sound) (he : s.Continues e)
    (hact : s.fragFrame.act e.rxBlk = .joined) : ∃ first rest, s.inBuffer = first :: rest ∧
      Holding s.fragFrame first rest ∧ e.rxBlk.transmitter = first.transmitter ∧
        first :: (rest ++ [e.rxBlk]) ⊆ s.received ++ [e.rxBlk] ∧
          (e.rxBlk.moreFrag = false → first.header.length = e.rxBlk.header.length) := by
  have hcontinues := he hact
  cases hbuffer : s.inBuffer with
  | nil =>
    rw [hbuffer] at hcontinues
    cases hcontinues
  | cons first rest =>
    rw [hbuffer, List.head?_cons, Option.any_some] at hcontinues
    simp only [Bool.and_eq_true, beq_iff_eq, Bool.or_eq_true] at hcontinues
    obtain ⟨htransmitter, hroom⟩ := hcontinues
    refine ⟨first, rest, rfl, h.holding first rest hbuffer, htransmitter, ?_, ?_⟩
    · rw [← List.cons_append, ← hbuffer]
      apply List.append_subset_of_subset_of_subset
      · exact List.Subset.trans h.received (List.subset_append_left _ _)
      · exact List.subset_append_right _ _
    · intro hmore
      simpa [hmore] using hroom

/-- A fragment goes behind others, and more are announced. -/
theorem Sound.more (h : s.Sound) (he : s.Continues e)
    (hact : s.fragFrame.act e.rxBlk = .joined) (hmore : e.rxBlk.moreFrag = true) :
    (s.step e).Sound := by
  obtain ⟨first, rest, hbuffer, hholding, htransmitter, hsub, -⟩ := h.joined he hact
  obtain ⟨hone, hfits, hrxSize, hbytes⟩ := hholding.concatenate hact htransmitter h.size
  have hstep : s.step e = { s with
      fragFrame := s.fragFrame.concatenate e.rxBlk
      received := s.received ++ [e.rxBlk]
      inBuffer := first :: (rest ++ [e.rxBlk]) } := by
    simp [DeFragmentation.step, buffered, FragmentFrame.rtmpDeFragmentDataFrame, hact, hmore,
      hbuffer]
  rw [hstep]
  constructor
  · rw [concatenate_length, h.size]
  · exact hsub
  · rintro _ _ ⟨⟩
    constructor
    · exact hone
    · intro b hb
      rw [← List.cons_append] at hb
      rcases List.mem_append.mp hb with hb | hb
      · exact hholding.moreFrag b hb
      · rw [List.mem_singleton.mp hb, hmore]
    · exact hholding.sequence
    · have hnumbers := congrArg (·[rest.length + 1]?) hone.frag
      have hfrag : e.rxBlk.frag = rest.length + 1 := by simpa using hnumbers
      rw [List.length_append, List.length_singleton]
      exact hfrag
    · exact hrxSize
    · exact fun _ => hbytes
  · exact fun p hp => h.returned_mono hp

/-- The last fragment: the frame is returned if there is a new buffer. -/
theorem Sound.last (h : s.Sound) (he : s.Continues e)
    (hact : s.fragFrame.act e.rxBlk = .joined) (hmore : e.rxBlk.moreFrag = false) :
    (s.step e).Sound := by
  obtain ⟨first, rest, hbuffer, hholding, htransmitter, hsub, hroom⟩ := h.joined he hact
  obtain ⟨hone, hfits, hrxSize, hbytes⟩ := hholding.concatenate hact htransmitter h.size
  have hlarge : (s.fragFrame.concatenate e.rxBlk).rxSize < 65536 :=
    Nat.lt_of_le_of_lt hfits (by decide)
  have hpacket := packet_eq hrxSize hbytes (hroom hmore) hlarge
  have hwhole : WholeFrame (s.received ++ [e.rxBlk])
      ((s.fragFrame.concatenate e.rxBlk).packet e.rxBlk) := by
    rw [hpacket]
    exact ⟨first, rest, e.rxBlk, hone, hsub, hholding.moreFrag, hmore, rfl, rfl, rfl, rfl⟩
  cases hnew : e.newFragPacket with
  | none =>
    have hstep : s.step e = { s with
        fragFrame := (s.fragFrame.concatenate e.rxBlk).reset
        received := s.received ++ [e.rxBlk]
        inBuffer := [] } := by
      simp [DeFragmentation.step, buffered, FragmentFrame.rtmpDeFragmentDataFrame, hact, hmore,
        hnew]
    rw [hstep]
    apply h.emptied (e := e)
    · exact (concatenate_length _ _).trans h.size
    · rfl
    · rfl
    · exact fun p hp => Or.inl hp
  | some buffer =>
    have hstep : s.step e = {
        fragFrame := { s.fragFrame.concatenate e.rxBlk with fragPacket := buffer.val }
        received := s.received ++ [e.rxBlk]
        inBuffer := []
        returned := s.returned ++ [(s.fragFrame.concatenate e.rxBlk).packet e.rxBlk] } := by
      simp [DeFragmentation.step, buffered, FragmentFrame.rtmpDeFragmentDataFrame, hact, hmore,
        hnew]
    rw [hstep]
    apply h.emptied (e := e)
    · exact buffer.property
    · rfl
    · rfl
    · intro p hp
      rcases List.mem_append.mp hp with hp | hp
      · exact Or.inl hp
      · rw [List.mem_singleton.mp hp]
        exact Or.inr hwhole

theorem Sound.step (h : s.Sound) (he : s.Continues e) : (s.step e).Sound := by
  cases hact : s.fragFrame.act e.rxBlk with
  | passed =>
    apply h.same (e := e) <;> simp [DeFragmentation.step, buffered,
      FragmentFrame.rtmpDeFragmentDataFrame, hact]
  | ignored =>
    apply h.same (e := e) <;> simp [DeFragmentation.step, buffered,
      FragmentFrame.rtmpDeFragmentDataFrame, hact]
  | refused =>
    have hstep : s.step e = { s with
        fragFrame := s.fragFrame.reset
        received := s.received ++ [e.rxBlk]
        inBuffer := [] } := by
      simp [DeFragmentation.step, buffered, FragmentFrame.rtmpDeFragmentDataFrame, hact]
    rw [hstep]
    apply h.emptied (e := e)
    · exact h.size
    · rfl
    · rfl
    · exact fun p hp => Or.inl hp
  | first => exact h.first hact
  | joined =>
    cases hmore : e.rxBlk.moreFrag with
    | true => exact h.more he hact hmore
    | false => exact h.last he hact hmore

theorem sound_start (buffer : FragPacketBuffer) :
    (start buffer : DeFragmentation rxwiSize).Sound where
  size := buffer.property
  received := List.nil_subset _
  holding := by rintro first rest ⟨⟩
  returned := fun p hp => absurd hp List.not_mem_nil

/-- Only whole frames are returned in every run in which fragments that are put behind others
continue the frame of their transmitter. -/
theorem fragments_reassembled (buffer : FragPacketBuffer) {es : List (FragmentEvent rxwiSize)}
    (hes : Guarded DeFragmentation.step Continues (start buffer) es) :
    ∀ p ∈ (run DeFragmentation.step (start buffer) es).returned,
      WholeFrame (run DeFragmentation.step (start buffer) es).received p :=
  (guarded_invariant Sound (fun _ _ hs he => hs.step he) (sound_start buffer) hes).returned

/-- A fragment with a header of 24 bytes. -/
def fragment (control transmitter seqCtrl : UInt8) (data : UInt8) : FragBlk 4 where
  rxWI := [1, 2, 3, 4]
  header := [8, control, 0, 0, 0, 0, 0, 0, 0, 0, 0, 1, 2, 3, 4, transmitter,
    0, 0, 0, 0, 0, 0, seqCtrl, 0]
  data := [data]
  rxWI_length := rfl
  header_length := by simp only [List.length_cons, List.length_nil]; decide
  data_length := by simp only [List.length_singleton]; decide

/-- A buffer with something in it. -/
def freshBuffer (b : UInt8) : FragPacketBuffer :=
  ⟨List.replicate rxBufferNormsize b, List.length_replicate⟩

/-- Two fragments of one frame. -/
theorem fragments_reassembled_two : ∃ p, p ∈ (run DeFragmentation.step (start (freshBuffer 0))
    [⟨fragment 4 5 0x10 1, none⟩, ⟨fragment 0 5 0x11 2, some (freshBuffer 9)⟩]).returned ∧
      WholeFrame (run DeFragmentation.step (start (freshBuffer 0))
        [⟨fragment 4 5 0x10 1, none⟩, ⟨fragment 0 5 0x11 2, some (freshBuffer 9)⟩]).received p := by
  obtain ⟨p, hp⟩ := List.length_pos_iff_exists_mem.mp (show 0 <
    (run DeFragmentation.step (start (freshBuffer 0)) [⟨fragment 4 5 0x10 1, none⟩,
      ⟨fragment 0 5 0x11 2, some (freshBuffer 9)⟩]).returned.length by decide)
  exact ⟨p, hp, fragments_reassembled (freshBuffer 0) (by decide) p hp⟩

/-- After a frame is complete, another last fragment of it comes. -/
def extended : DeFragmentation 4 := run DeFragmentation.step (start (freshBuffer 0))
  [⟨fragment 4 5 0x10 1, none⟩, ⟨fragment 0 5 0x11 2, some (freshBuffer 9)⟩,
    ⟨fragment 0 5 0x12 3, some (freshBuffer 9)⟩]

/-- A second packet is returned, and its fragments are not those of one frame. -/
theorem complete_frame_extended : ¬ ∀ p ∈ extended.returned, WholeFrame extended.received p := by
  intro h
  have hsizes : extended.returned.map RxPacket.dataSize = [2, 3] := by decide
  obtain ⟨p, hp, hsize⟩ : ∃ p ∈ extended.returned, p.dataSize = 3 := by
    rw [← List.mem_map, hsizes]
    decide
  obtain ⟨first, rest, last, hone, hsub, hmore, -, -, -, hdata, hlen⟩ := h p hp
  have hone' : ∀ b ∈ extended.received, b.data.length = 1 := by decide
  have hlast : ∀ b ∈ extended.received, b.frag = 1 → b.moreFrag = false := by decide
  cases rest with
  | nil =>
    have hfirst := hone' first (hsub List.mem_cons_self)
    have hsecond := hone' last (hsub (List.mem_cons_of_mem _ List.mem_cons_self))
    rw [hsize, hdata] at hlen
    simp [hfirst, hsecond] at hlen
  | cons b rest =>
    have hnumbers := congrArg (·[1]?) hone.frag
    have hfrag : b.frag = 1 := by simpa using hnumbers
    have hmem : b ∈ extended.received := hsub (List.mem_cons_of_mem _ List.mem_cons_self)
    have hannounced := hmore b (List.mem_cons_of_mem _ List.mem_cons_self)
    rw [hlast b hmem hfrag] at hannounced
    cases hannounced

end DeFragmentation

end Rt5572

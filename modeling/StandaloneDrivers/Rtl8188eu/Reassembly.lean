import StandaloneDrivers.Foundations.Run
import StandaloneDrivers.Rtl8188eu.RecvDefrag
import Mathlib.Tactic

/-! What the reassembly of fragments returns, over runs of the calls for all stations. -/
namespace Rtl8188eu
open Foundations
attribute [local instance] neZero_four
attribute [local instance] neZero_sixteen

namespace RecvFrame

/-- What lies before the ICV. -/
def body (f : RecvFrame) : List UInt8 := f.mem.take (f.len - f.attrib.icvLen)

/-- The header and the IV. -/
def header (f : RecvFrame) : List UInt8 := f.body.take f.attrib.payload

def payload (f : RecvFrame) : List UInt8 := f.body.drop f.attrib.payload

/-- The frame is not shorter than its header, IV and ICV. -/
def Whole (f : RecvFrame) : Prop := f.attrib.payload + f.attrib.icvLen ≤ f.len

instance (f : RecvFrame) : Decidable f.Whole := inferInstanceAs (Decidable (_ ≤ _))

/-- The packet number in the IV of a frame protected by CCMP. -/
def aesPn (f : RecvFrame) : ℕ :=
  le16 f.mem f.attrib.hdrlen + 2 ^ 16 * le16 f.mem (f.attrib.hdrlen + 4) +
    2 ^ 32 * le16 f.mem (f.attrib.hdrlen + 6)

theorem body_length (f : RecvFrame) : f.body.length = f.len - f.attrib.icvLen := by
  have := f.fits
  rw [body, List.length_take]
  omega

theorem payload_length (f : RecvFrame) :
    f.payload.length = f.len - f.attrib.icvLen - f.attrib.payload := by
  rw [payload, List.length_drop, body_length]

/-- The payload is what a pulled frame holds before the ICV. -/
theorem take_pull {f : RecvFrame} (h : f.attrib.payload ≤ f.len) :
    (f.pull f.attrib.payload).data.take (f.len - f.attrib.payload - f.attrib.icvLen) =
      f.payload := by
  rw [pull_data h, payload, body, data, List.drop_take, List.drop_take, List.take_take]
  congr 1
  omega

end RecvFrame

/-- The second frame goes on where the first one ends: same sequence number, TID and
protection, and with CCMP the next packet number. -/
structure Follows (f g : RecvFrame) : Prop where
  seqNum : g.attrib.seqNum = f.attrib.seqNum
  priority : g.attrib.priority = f.attrib.priority
  privacy : g.attrib.privacy = f.attrib.privacy
  encrypt : g.attrib.encrypt = f.attrib.encrypt
  pn : f.attrib.encrypt = .aes → g.aesPn = f.aesPn + 1

/-- The fragment numbers are 0, 1, 2, .. -/
def InOrder (frags : List RecvFrame) : Prop :=
  frags.map (fun f => f.attrib.fragNum.val) = List.range frags.length

instance (frags : List RecvFrame) : Decidable (InOrder frags) :=
  inferInstanceAs (Decidable (_ = _))

/-- Fragments 0, 1, .. of one MSDU. -/
structure OneMsdu (frags : List RecvFrame) : Prop where
  inOrder : InOrder frags
  same : ∀ f ∈ frags, ∀ g ∈ frags, f.attrib.seqNum = g.attrib.seqNum ∧
    f.attrib.priority = g.attrib.priority ∧ f.attrib.privacy = g.attrib.privacy ∧
    f.attrib.encrypt = g.attrib.encrypt
  pns : frags.IsChain fun f g => f.attrib.encrypt = .aes → g.aesPn = f.aesPn + 1

/-- A frame that is no shorter than it must be goes on where a queue ends, and finds place in
the buffer of the first frame. -/
structure Takes (queue : List RecvFrame) (f : RecvFrame) : Prop where
  whole : f.Whole
  follows : ∀ tail ∈ queue.getLast?, Follows tail f
  room : ∀ first ∈ queue.head?, first.attrib.payload +
    (queue.flatMap RecvFrame.payload).length + (f.len - f.attrib.payload) ≤ first.mem.length

/-- The frame as `recvframe_chkmic` leaves it. -/
def RecvFrame.withoutMic (f : RecvFrame) : RecvFrame :=
  if f.attrib.privacy ∧ f.attrib.encrypt = .tkip then f.pullTail 8 else f

/-- The frame is the first of some received fragments of one MSDU with the payloads of all,
less the Michael code once that is checked. -/
def Reassembled (received : List RecvFrame) (out : RecvFrame) : Prop :=
  ∃ first rest, ∃ merged : RecvFrame, rest ≠ [] ∧ (first :: rest).Sublist received ∧
    OneMsdu (first :: rest) ∧ merged.header = first.header ∧
    merged.payload = (first :: rest).flatMap RecvFrame.payload ∧ out = merged.withoutMic

theorem inOrder_append {l : List RecvFrame} {f : RecvFrame} :
    InOrder (l ++ [f]) ↔ InOrder l ∧ f.attrib.fragNum.val = l.length := by
  unfold InOrder
  rw [List.map_append, List.length_append, List.length_singleton, List.range_succ]
  constructor
  · intro h
    obtain ⟨h1, h2⟩ := List.append_inj' h rfl
    exact ⟨h1, List.singleton_inj.mp h2⟩
  · rintro ⟨h1, h2⟩
    rw [h1, List.map_singleton, h2]

/-- What the loop of `recvframe_defrag` has made of `first` and the frames after it. -/
structure Joined (first : RecvFrame) (rest : List RecvFrame) (merged : RecvFrame) : Prop where
  attrib : merged.attrib = { first.attrib with icvLen := merged.attrib.icvLen }
  room : merged.mem.length = first.mem.length
  whole : merged.Whole
  body : merged.body = first.header ++ (first :: rest).flatMap RecvFrame.payload

namespace Joined
variable {first : RecvFrame} {rest : List RecvFrame} {merged : RecvFrame}

theorem single (h : first.Whole) : Joined first [] first where
  attrib := rfl
  room := rfl
  whole := h
  body := by
    rw [List.flatMap_singleton]
    exact (List.take_append_drop _ _).symm

theorem header_length (h : first.Whole) : first.header.length = first.attrib.payload := by
  unfold RecvFrame.Whole at h
  rw [RecvFrame.header, List.length_take, RecvFrame.body_length]
  omega

theorem start (h : Joined first rest merged) : merged.attrib.payload = first.attrib.payload := by
  unfold RxPktAttrib.payload
  rw [h.attrib]

theorem header (h : Joined first rest merged) (hfirst : first.Whole) :
    merged.header = first.header := by
  rw [RecvFrame.header, h.body, h.start, ← header_length hfirst, List.take_left]

theorem payload (h : Joined first rest merged) (hfirst : first.Whole) :
    merged.payload = (first :: rest).flatMap RecvFrame.payload := by
  rw [RecvFrame.payload, h.body, h.start, ← header_length hfirst, List.drop_left]

/-- One round of the loop. -/
theorem append {f : RecvFrame} (h : Joined first rest merged) (hfirst : first.Whole)
    (hf : Takes (first :: rest) f) :
    Joined first (rest ++ [f]) (merged.append f) ∧ merged.appendOverrun f = 0 := by
  have hwhole := hf.whole
  have hmerged := h.whole
  unfold RecvFrame.Whole at hwhole hmerged
  have hicv : merged.attrib.icvLen ≤ merged.len := by omega
  have hpull : f.attrib.payload ≤ f.len := by omega
  have hbody : merged.len - merged.attrib.icvLen =
      first.attrib.payload + ((first :: rest).flatMap RecvFrame.payload).length := by
    rw [← RecvFrame.body_length, h.body, List.length_append, header_length hfirst]
  have hroom := hf.room first rfl
  rw [← hbody, ← h.room] at hroom
  have hlen := RecvFrame.append_len hicv hpull hroom
  have hdata : (f.pull f.attrib.payload).data.length = f.len - f.attrib.payload := by
    rw [RecvFrame.data_length, RecvFrame.pull_len hpull]
  have htake : merged.len - merged.attrib.icvLen + (f.len - f.attrib.payload) - f.attrib.icvLen =
      merged.body.length + (f.len - f.attrib.payload - f.attrib.icvLen) := by
    rw [RecvFrame.body_length]
    omega
  constructor
  · constructor
    · rw [RecvFrame.append_attrib, h.attrib]
    · rw [RecvFrame.append_mem, overwrite_length, h.room]
    · unfold RecvFrame.Whole
      rw [RecvFrame.append_attrib, hlen]
      simp only [RxPktAttrib.payload] at hmerged hwhole ⊢
      omega
    · calc (merged.append f).body
        _ = ((overwrite merged.mem (merged.len - merged.attrib.icvLen)
              (f.pull f.attrib.payload).data).take (merged.len - merged.attrib.icvLen +
                (f.pull f.attrib.payload).data.length)).take
              (merged.body.length + (f.len - f.attrib.payload - f.attrib.icvLen)) := by
          rw [RecvFrame.body, hlen, RecvFrame.append_attrib, RecvFrame.append_mem,
            RecvFrame.pullTail_len hicv, htake, List.take_take, hdata, RecvFrame.body_length]
          congr 1
          omega
        _ = (merged.body ++ (f.pull f.attrib.payload).data).take
              (merged.body.length + (f.len - f.attrib.payload - f.attrib.icvLen)) := by
          rw [take_overwrite (by rw [hdata]; exact hroom)]
          rfl
        _ = merged.body ++ f.payload := by
          rw [List.take_length_add_append, RecvFrame.take_pull hpull]
        _ = first.header ++ (first :: (rest ++ [f])).flatMap RecvFrame.payload := by
          rw [h.body, ← List.cons_append, List.flatMap_append, List.flatMap_singleton,
            List.append_assoc]
  · unfold RecvFrame.appendOverrun
    rw [RecvFrame.pullTail_len hicv, RecvFrame.pull_len hpull]
    omega

end Joined

/-- What a queue is known to be: as long as the numbers are in order, every frame goes on where
the ones before it end. -/
structure QueueSound (received queue : List RecvFrame) : Prop where
  sublist : queue.Sublist received
  takes : ∀ l f r, queue = l ++ f :: r → InOrder (l ++ [f]) → Takes l f

namespace QueueSound
variable {received queue : List RecvFrame}

theorem nil (received : List RecvFrame) : QueueSound received [] where
  sublist := List.nil_sublist _
  takes := by
    intro l f r h
    cases l <;> cases h

theorem mono (h : QueueSound received queue) (f : RecvFrame) :
    QueueSound (received ++ [f]) queue where
  sublist := h.sublist.trans (List.sublist_append_left _ _)
  takes := h.takes

theorem append (h : QueueSound received queue) {f : RecvFrame}
    (hf : InOrder (queue ++ [f]) → Takes queue f) : QueueSound (received ++ [f]) (queue ++ [f]) where
  sublist := h.sublist.append (List.Sublist.refl _)
  takes := by
    intro l g r heq horder
    rcases List.append_eq_append_iff.mp heq with ⟨s, hl, hr⟩ | ⟨s, hq, hg⟩
    · cases s with
      | nil =>
        rw [List.append_nil] at hl
        obtain ⟨rfl, -⟩ := List.cons_eq_cons.mp hr
        rw [hl] at horder ⊢
        exact hf horder
      | cons x s =>
        have hlen := congrArg List.length hr
        simp only [List.length_append, List.length_cons, List.length_nil] at hlen
        omega
    · cases s with
      | nil =>
        rw [List.append_nil] at hq
        obtain ⟨rfl, -⟩ := List.cons_eq_cons.mp hg
        rw [← hq] at horder ⊢
        exact hf horder
      | cons x s =>
        obtain ⟨rfl, -⟩ := List.cons_eq_cons.mp hg
        exact h.takes l g s hq horder

/-- The frames of a queue whose numbers are in order belong together. -/
theorem chain {q : List RecvFrame} (h : ∀ l f r, q = l ++ f :: r → InOrder (l ++ [f]) → Takes l f)
    (horder : InOrder q) : q.IsChain Follows := by
  induction q using List.reverseRecOn with
  | nil => exact List.isChain_nil
  | append_singleton q f ih =>
    have htakes := h q f [] rfl horder
    rw [List.isChain_append]
    constructor
    · apply ih
      · intro l g r heq
        exact h l g (r ++ [f]) (by rw [heq, List.append_assoc, List.cons_append])
      · exact (inOrder_append.mp horder).1
    · constructor
      · exact List.isChain_singleton f
      · intro tail htail g hg
        obtain rfl : f = g := by simpa using hg
        exact htakes.follows tail htail

theorem oneMsdu (h : QueueSound received queue) (horder : InOrder queue) : OneMsdu queue := by
  have hchain := chain h.takes horder
  constructor
  · exact horder
  · let tag (f : RecvFrame) := (f.attrib.seqNum, f.attrib.priority, f.attrib.privacy, f.attrib.encrypt)
    have htags : queue.IsChain fun f g => tag f = tag g := by
      apply hchain.imp
      intro f g hfg
      simp only [tag, hfg.seqNum, hfg.priority, hfg.privacy, hfg.encrypt]
    have hpairs : queue.Pairwise fun f g => tag f = tag g := by
      have : IsTrans RecvFrame fun f g => tag f = tag g := ⟨fun _ _ _ => Eq.trans⟩
      exact List.isChain_iff_pairwise.mp htags
    intro f hf g hg
    have : Std.Symm fun f g => tag f = tag g := ⟨fun _ _ => Eq.symm⟩
    have heq := List.Pairwise.forall_of_forall (R := fun f g => tag f = tag g)
      (fun _ _ => rfl) hpairs hf hg
    simpa only [tag, Prod.mk.injEq] using heq
  · apply hchain.imp
    intro f g hfg
    exact hfg.pn

end QueueSound

/-- The loop never copies too much, and reaches the end only when the numbers are in order. -/
theorem defragLoop_spec {first : RecvFrame} (hfirst : first.Whole) {plist rest : List RecvFrame}
    {merged : RecvFrame} (hmerged : Joined first rest merged) (horder : InOrder (first :: rest))
    (htakes : ∀ l f r, first :: (rest ++ plist) = l ++ f :: r → InOrder (l ++ [f]) → Takes l f) :
    (defragLoop merged (rest.length + 1) plist).2 = 0 ∧
      ∀ out, (defragLoop merged (rest.length + 1) plist).1 = some out →
        Joined first (rest ++ plist) out ∧ InOrder (first :: (rest ++ plist)) := by
  induction plist generalizing rest merged with
  | nil =>
    constructor
    · rfl
    · intro out hout
      obtain rfl : merged = out := by simpa [defragLoop] using hout
      rw [List.append_nil]
      exact ⟨hmerged, horder⟩
  | cons f plist ih =>
    unfold defragLoop
    split
    · exact ⟨rfl, by simp⟩
    · rename_i hnum
      have horder' : InOrder (first :: rest ++ [f]) := by
        apply inOrder_append.mpr
        constructor
        · exact horder
        · rw [List.length_cons]
          omega
      obtain ⟨hjoined, hover⟩ := hmerged.append hfirst
        (htakes (first :: rest) f plist rfl horder')
      have hlen : (rest ++ [f]).length + 1 = rest.length + 1 + 1 := by simp
      have htakes' : ∀ l g r, first :: ((rest ++ [f]) ++ plist) = l ++ g :: r →
          InOrder (l ++ [g]) → Takes l g := by
        rw [List.append_assoc]
        exact htakes
      obtain ⟨hzero, hall⟩ := ih hjoined horder' htakes'
      rw [hlen] at hzero hall
      rw [List.append_assoc] at hall
      constructor
      · show merged.appendOverrun f + (defragLoop (merged.append f) _ plist).2 = 0
        rw [hover, hzero]
      · exact hall

/-- A call of `recvframe_defrag` on a sound queue. -/
theorem recvframeDefrag_spec {received queue : List RecvFrame} (h : QueueSound received queue) :
    (recvframeDefrag queue).overrun = 0 ∧ ∀ out, (recvframeDefrag queue).frame = some out →
      ∃ first rest, queue = first :: rest ∧ first.Whole ∧ OneMsdu queue ∧ Joined first rest out := by
  cases queue with
  | nil => exact ⟨rfl, by simp [recvframeDefrag]⟩
  | cons first rest =>
    simp only [recvframeDefrag]
    split
    · exact ⟨rfl, by simp⟩
    · rename_i hzero
      have horder : InOrder [first] := by
        simp only [InOrder, List.map_singleton, List.length_singleton, List.range_one]
        rw [← not_not.mp hzero]
      have hwhole := (h.takes [] first rest rfl horder).whole
      have hloop := defragLoop_spec hwhole (Joined.single hwhole) horder h.takes
      simp only [List.length_nil, zero_add, List.nil_append] at hloop
      generalize hr : defragLoop first 1 rest = r at hloop
      obtain ⟨out, overrun⟩ := r
      cases out with
      | none => exact ⟨hloop.1, by simp⟩
      | some out =>
        constructor
        · exact hloop.1
        · intro out' hout
          obtain rfl : out = out' := by simpa using hout
          obtain ⟨hjoined, hall⟩ := hloop.2 out rfl
          exact ⟨first, rest, rfl, hwhole, h.oneMsdu hall, hjoined⟩

/-- The calls of `recvframe_chk_defrag`: the keys and the frame. -/
abbrev DefragEvent : Type := SecurityPriv × RecvFrame

theorem recvframeChkmic_frame (stapriv : StaPriv) (sec : SecurityPriv) {f : RecvFrame}
    (h : f.attrib.privacy = true) : (recvframeChkmic stapriv sec f).2 = f.withoutMic := by
  unfold recvframeChkmic RecvFrame.withoutMic
  by_cases htkip : f.attrib.encrypt = .tkip
  · rw [if_pos htkip, if_pos ⟨h, htkip⟩]
    cases stapriv.station f.attrib.ta with
    | none => rfl
    | some stainfo => rfl
  · rw [if_neg htkip, if_neg fun hboth => htkip hboth.2]

namespace StaPriv

/-- The check of the Michael code changes nothing but the frame. -/
theorem recvframeChkDefrag_cases (stapriv : StaPriv) (sec : SecurityPriv) (f : RecvFrame) :
    let r := stapriv.recvframeChkDefrag sec f
    let q := stapriv.queueFragment f
    r.1 = q.1 ∧ r.2.overrun = q.2.overrun ∧ ∀ out, r.2.frame = some out →
      ∃ merged, q.2.frame = some merged ∧ out = merged.withoutMic := by
  simp only [recvframeChkDefrag]
  generalize stapriv.queueFragment f = q
  obtain ⟨stapriv, merged, freed, overrun⟩ := q
  cases merged with
  | none => simp
  | some merged =>
    simp only
    split_ifs with hprivacy
    · have hmic := recvframeChkmic_frame stapriv sec hprivacy
      generalize recvframeChkmic stapriv sec merged = r at hmic
      obtain ⟨status, out⟩ := r
      cases status with
      | fail => simp
      | success => simpa using hmic
    · have hplain : merged.withoutMic = merged := if_neg fun hboth => hprivacy hboth.1
      simp [hplain]

variable {stapriv : StaPriv}

theorem pdefragQ_lt {f : RecvFrame} {i : ℕ} (h : stapriv.pdefragQ f = some i) :
    ∃ psta, stapriv.stainfo[i]? = some psta := by
  unfold pdefragQ at h
  cases hfound : stapriv.rtwGetStainfo (some f.attrib.ta) with
  | some j =>
    simp only [hfound] at h
    cases h
    exact rtwGetStainfo_lt hfound
  | none =>
    simp only [hfound] at h
    split_ifs at h
    exact rtwGetStainfo_lt h

theorem defragQ_setDefragQ {i : ℕ} (h : ∃ psta, stapriv.stainfo[i]? = some psta)
    (q : List RecvFrame) (j : ℕ) :
    (stapriv.setDefragQ i q).defragQ j = if i = j then q else stapriv.defragQ j := by
  obtain ⟨psta, hpsta⟩ := h
  unfold setDefragQ modify defragQ
  rw [List.getElem?_modify]
  by_cases hij : i = j
  · rw [← hij, hpsta, if_pos rfl]
    simp
  · rw [if_neg hij]
    simp [hij]

def defragStep (stapriv : StaPriv) (e : DefragEvent) : StaPriv :=
  (stapriv.recvframeChkDefrag e.1 e.2).1

/-- What the tables of a run are known to be. -/
def QueuesSound (received : List RecvFrame) (stapriv : StaPriv) : Prop :=
  ∀ i, QueueSound received (stapriv.defragQ i)

theorem QueuesSound.set {received : List RecvFrame} (h : stapriv.QueuesSound received)
    (f : RecvFrame) {i : ℕ} (hi : ∃ psta, stapriv.stainfo[i]? = some psta) {q : List RecvFrame}
    (hq : QueueSound (received ++ [f]) q) :
    (stapriv.setDefragQ i q).QueuesSound (received ++ [f]) := by
  intro j
  rw [defragQ_setDefragQ hi]
  split
  · exact hq
  · exact (h j).mono f

/-- The queue that a fragment is put in. -/
def queueBefore (stapriv : StaPriv) (i : ℕ) (f : RecvFrame) : List RecvFrame :=
  if f.attrib.fragNum = 0 then [] else stapriv.defragQ i

/-- A fragment whose number is the next of its queue goes on where that ends. -/
def Continues (stapriv : StaPriv) (e : DefragEvent) : Prop :=
  ∀ i, stapriv.pdefragQ e.2 = some i → (e.2.attrib.mfrag = true ∨ e.2.attrib.fragNum ≠ 0) →
    InOrder (stapriv.queueBefore i e.2 ++ [e.2]) → Takes (stapriv.queueBefore i e.2) e.2

/-- Nothing is copied behind the buffer, and a frame returned for the last of several
fragments is reassembled from fragments of one MSDU. -/
def DefragSound (stapriv : StaPriv) (received : List RecvFrame) (e : DefragEvent) : Prop :=
  let r := (stapriv.recvframeChkDefrag e.1 e.2).2
  r.overrun = 0 ∧ (e.2.attrib.fragNum ≠ 0 → ∀ out, r.frame = some out → Reassembled received out)

/-- A fragment that continues its queue keeps the queues sound. -/
theorem queueFragment_spec {received : List RecvFrame} (h : stapriv.QueuesSound received)
    (sec : SecurityPriv) {f : RecvFrame} (hok : stapriv.Continues (sec, f)) :
    (stapriv.queueFragment f).1.QueuesSound (received ++ [f]) ∧
      (stapriv.queueFragment f).2.overrun = 0 ∧
      (f.attrib.fragNum ≠ 0 → ∀ merged, (stapriv.queueFragment f).2.frame = some merged →
        ∃ first rest, (first :: rest).Sublist (received ++ [f]) ∧ rest ≠ [] ∧ first.Whole ∧
          OneMsdu (first :: rest) ∧ Joined first rest merged) := by
  have hmono : stapriv.QueuesSound (received ++ [f]) := fun i => (h i).mono f
  have hput (i : ℕ) (hi : stapriv.pdefragQ f = some i)
      (hfrag : f.attrib.mfrag = true ∨ f.attrib.fragNum ≠ 0) :
      QueueSound (received ++ [f]) (stapriv.queueBefore i f ++ [f]) := by
    have hbefore : QueueSound received (stapriv.queueBefore i f) := by
      unfold queueBefore
      split
      · exact QueueSound.nil received
      · exact h i
    exact hbefore.append (hok i hi hfrag)
  unfold queueFragment
  by_cases hmfrag : f.attrib.mfrag = true
  · rw [if_pos hmfrag]
    cases hq : stapriv.pdefragQ f with
    | none => exact ⟨hmono, rfl, by simp⟩
    | some i =>
      have hsound := hput i hq (Or.inl hmfrag)
      unfold queueBefore at hsound
      dsimp only
      split_ifs at hsound ⊢ with hzero
      · exact ⟨h.set f (pdefragQ_lt hq) hsound, rfl, by simp⟩
      · exact ⟨h.set f (pdefragQ_lt hq) hsound, rfl, by simp⟩
  rw [if_neg hmfrag]
  by_cases hzero : f.attrib.fragNum = 0
  · rw [if_neg (not_not.mpr hzero)]
    exact ⟨hmono, rfl, fun hne => absurd hzero hne⟩
  rw [if_pos hzero]
  cases hq : stapriv.pdefragQ f with
  | none => exact ⟨hmono, rfl, by simp⟩
  | some i =>
    have hsound := hput i hq (Or.inr hzero)
    unfold queueBefore at hsound
    rw [if_neg hzero] at hsound
    obtain ⟨hover, hmerged⟩ := recvframeDefrag_spec hsound
    refine ⟨h.set f (pdefragQ_lt hq) (QueueSound.nil _), hover, ?_⟩
    intro _ merged hframe
    obtain ⟨first, rest, hqueue, hwhole, hone, hjoined⟩ := hmerged merged hframe
    have hlast := congrArg List.getLast? hqueue
    rw [hqueue] at hsound hone
    refine ⟨first, rest, hsound.sublist, ?_, hwhole, hone, hjoined⟩
    rintro rfl
    obtain rfl : f = first := by simpa using hlast
    exact hzero (Fin.ext (inOrder_append (l := []).mp hone.inOrder).2)

/-- One call, the check of the Michael code included. -/
theorem recvframeChkDefrag_spec {received : List RecvFrame} (h : stapriv.QueuesSound received)
    {e : DefragEvent} (hok : stapriv.Continues e) :
    (stapriv.defragStep e).QueuesSound (received ++ [e.2]) ∧
      stapriv.DefragSound (received ++ [e.2]) e := by
  obtain ⟨hqueues, hover, hmerged⟩ := queueFragment_spec h e.1 hok
  obtain ⟨hstapriv, hsame, hframe⟩ := recvframeChkDefrag_cases stapriv e.1 e.2
  constructor
  · rw [defragStep, hstapriv]
    exact hqueues
  · constructor
    · rw [hsame]
      exact hover
    · intro hne out hout
      obtain ⟨merged, hsome, rfl⟩ := hframe out hout
      obtain ⟨first, rest, hsub, hrest, hwhole, hone, hjoined⟩ := hmerged hne merged hsome
      exact ⟨first, rest, merged, hrest, hsub, hone, hjoined.header hwhole,
        hjoined.payload hwhole, rfl⟩

theorem defragRun_sound (h : stapriv.QueuesSound [])
    {es : List DefragEvent} (hg : Guarded defragStep Continues stapriv es) :
    (run defragStep stapriv es).QueuesSound (es.map Prod.snd) := by
  induction es using List.reverseRecOn with
  | nil => exact h
  | append_singleton es e ih =>
    obtain ⟨hbefore, hlast⟩ := guarded_append.mp hg
    rw [run_append, List.map_append]
    exact (recvframeChkDefrag_spec (ih hbefore) hlast.1).1

/-- In every run from empty queues in which each fragment goes on where its queue ends, no call
copies anything behind a buffer, and a frame put together from several fragments is put together
from fragments of one MSDU. -/
theorem defrag_sound (stapriv : StaPriv) (hempty : ∀ psta ∈ stapriv.stainfo, psta.defragQ = [])
    (es : List DefragEvent) (e : DefragEvent)
    (hg : Guarded defragStep Continues stapriv (es ++ [e])) :
    (run defragStep stapriv es).DefragSound ((es ++ [e]).map Prod.snd) e := by
  obtain ⟨hbefore, hlast⟩ := guarded_append.mp hg
  have hstart : stapriv.QueuesSound [] := by
    intro i
    have hnil : stapriv.defragQ i = [] := by
      unfold defragQ
      cases hslot : stapriv.stainfo[i]? with
      | none => rfl
      | some psta => exact hempty psta (List.mem_of_getElem? hslot)
    rw [hnil]
    exact QueueSound.nil []
  rw [List.map_append]
  exact (recvframeChkDefrag_spec (defragRun_sound hstart hbefore) hlast.1).2

/-- A table with the access point `00:11:22:33:44:55` and nothing queued. -/
def oneStation : StaPriv where
  stainfo := [{
    hwaddr := #v[0x00, 0x11, 0x22, 0x33, 0x44, 0x55]
    ieee8021xBlocked := false
    fwLinked := true
    qosOption := false
    dot118021XPrivacy := .noPrivacy
    dot118021xUncstKey := Vector.replicate 16 0
    dot11tkiptxmickey := Vector.replicate 16 0
    dot11tkiprxmickey := Vector.replicate 16 0
    dot11txpn := 0
    txseqTid := Vector.replicate 16 0
    tidRxseq := Vector.replicate 16 0xffff
    defragQ := []
    recvreorderCtrl := Vector.replicate 16 .start }]
  staHash := [0]

def openSystem : SecurityPriv where
  dot11AuthAlgrthm := 0
  dot11PrivacyAlgrthm := .noPrivacy
  dot11PrivacyKeyIndex := 0
  dot11DefKey := Vector.replicate 4 (Vector.replicate 16 0)
  dot11DefKeylen := Vector.replicate 4 0
  dot118021XGrpPrivacy := .noPrivacy
  dot118021XGrpKeyid := 0
  dot118021XGrpKey := Vector.replicate 4 (Vector.replicate 16 0)
  dot118021XGrptxmickey := Vector.replicate 4 (Vector.replicate 16 0)
  dot118021XGrprxmickey := Vector.replicate 4 (Vector.replicate 16 0)
  binstallGrpkey := false
  busetkipkey := false
  swEncrypt := false
  swDecrypt := false
  hwDecrypted := true

/-- A fragment from the access point with a payload of one byte, and room for four more. -/
def fragment (seq : Fin 4096) (frag : Fin 16) (mfrag : Bool) : DefragEvent :=
  (openSystem, {
    id := frag
    psta := some 0
    attrib := { RxPktAttrib.zero with
      hdrlen := 24
      ta := #v[0x00, 0x11, 0x22, 0x33, 0x44, 0x55]
      seqNum := seq
      fragNum := frag
      mfrag := mfrag }
    mem := 0x08 :: List.replicate 23 0 ++ [UInt8.ofNat frag] ++ List.replicate 4 0
    len := 25
    fits := by simp })

/-- Fragments 0 and 1 of MSDU 7. -/
theorem defrag_sound_two : (run defragStep oneStation [fragment 7 0 true]).DefragSound
    [(fragment 7 0 true).2, (fragment 7 1 false).2] (fragment 7 1 false) := by
  apply defrag_sound oneStation (by decide) [fragment 7 0 true] (fragment 7 1 false)
  constructor
  · intro i _ _ _
    have hqueue : oneStation.queueBefore i (fragment 7 0 true).2 = [] := if_pos rfl
    rw [hqueue]
    exact ⟨by decide, by simp, by simp⟩
  · constructor
    · intro i hi _ _
      have hstation : (oneStation.defragStep (fragment 7 0 true)).pdefragQ (fragment 7 1 false).2 =
          some 0 := by decide
      have hqueue : (oneStation.defragStep (fragment 7 0 true)).queueBefore 0
          (fragment 7 1 false).2 = [(fragment 7 0 true).2] := by decide
      obtain rfl : 0 = i := Option.some.inj (hstation.symm.trans hi)
      rw [hqueue]
      constructor
      · decide
      · intro tail htail
        obtain rfl : (fragment 7 0 true).2 = tail := by simpa using htail
        exact ⟨rfl, rfl, rfl, rfl, nofun⟩
      · intro first hfirst
        obtain rfl : (fragment 7 0 true).2 = first := by simpa using hfirst
        decide
    · trivial

/-- Fragment 1 of MSDU 8 completes fragment 0 of MSDU 7. -/
theorem mixed_fragments_joined : ¬ ∀ (stapriv : StaPriv) (es : List DefragEvent) (e : DefragEvent),
    (∀ psta ∈ stapriv.stainfo, psta.defragQ = []) →
      (run defragStep stapriv es).DefragSound ((es ++ [e]).map Prod.snd) e := by
  intro h
  have hframe : ((run defragStep oneStation [fragment 7 0 true]).recvframeChkDefrag
      openSystem (fragment 8 1 false).2).2.frame.isSome := by decide
  obtain ⟨out, hout⟩ := Option.isSome_iff_exists.mp hframe
  obtain ⟨first, rest, -, hrest, hsub, hone, -⟩ :=
    (h oneStation [fragment 7 0 true] (fragment 8 1 false) (by decide)).2 (by decide) out hout
  have hall : first :: rest = [(fragment 7 0 true).2, (fragment 8 1 false).2] := by
    apply hsub.eq_of_length_le
    have := List.length_pos_iff.mpr hrest
    simp only [List.length_cons, List.map_append, List.length_append, List.length_map,
      List.length_nil]
    omega
  rw [hall] at hone
  have hseq := (hone.same (fragment 7 0 true).2 (by simp) (fragment 8 1 false).2 (by simp)).1
  revert hseq
  decide

end StaPriv

end Rtl8188eu

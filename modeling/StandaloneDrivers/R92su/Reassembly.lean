import StandaloneDrivers.Foundations.Run
import StandaloneDrivers.R92su.Receive
import Mathlib.Tactic

/-! What the reassembly of fragments passes on, over runs of one defragmentation entry. -/
namespace R92su
open Foundations

namespace Skb

def header (skb : Skb) : List UInt8 := skb.data.take skb.hdrlen

theorem header_append_payload (skb : Skb) : skb.header ++ skb.payload = skb.data :=
  List.take_append_drop _ _

end Skb

theorem le16_append {a : List UInt8} (h : 2 ≤ a.length) (b : List UInt8) :
    le16 (a ++ b) 0 = le16 a 0 := by
  unfold le16 byteAt
  rw [List.getD_append _ _ _ _ (by omega), List.getD_append _ _ _ _ (by omega)]

theorem mergeQueue_cons_data (f : Skb) (gs : List Skb) (skb : Skb) :
    (mergeQueue (f :: gs) skb).data =
      f.data ++ (mergeQueue gs skb).pull (mergeQueue gs skb).hdrlen := rfl

/-- Merging puts the payloads behind the first frame, each header being replaced. -/
theorem mergeQueue_data (f : Skb) (gs : List Skb) (skb : Skb)
    (hlen : ∀ g ∈ gs ++ [skb], g.hdrlen ≤ g.data.length) :
    (mergeQueue (f :: gs) skb).data = f.data ++ (gs ++ [skb]).flatMap Skb.payload := by
  induction gs generalizing f with
  | nil =>
    have hpull : (mergeQueue [] skb).pull (mergeQueue [] skb).hdrlen = skb.payload :=
      if_pos (hlen skb (by simp))
    rw [mergeQueue_cons_data, hpull]
    simp
  | cons g gs ih =>
    have hg := hlen g (by simp)
    have hrest := ih g fun x hx => hlen x (List.mem_cons_of_mem _ hx)
    have htwo : 2 ≤ g.data.length := by
      have := hdrlen_ge g.frameControl
      unfold Skb.hdrlen at hg
      omega
    have hhdr : (mergeQueue (g :: gs) skb).hdrlen = g.hdrlen := by
      unfold Skb.hdrlen Skb.frameControl
      rw [hrest, le16_append htwo]
    have hpull : (mergeQueue (g :: gs) skb).pull (mergeQueue (g :: gs) skb).hdrlen =
        g.payload ++ (gs ++ [skb]).flatMap Skb.payload := by
      rw [Skb.pull, hhdr, hrest, if_pos (by rw [List.length_append]; omega),
        List.drop_append_of_le_length hg]
      rfl
    rw [mergeQueue_cons_data, hpull]
    rfl

theorem checkIfMatch_iff {skb : Skb} {defrag : DefragEntry} {key : Option Key} :
    checkIfMatch skb defrag key = true ↔ ∃ tail, defrag.queue.getLast? = some tail ∧
      (tail.seq = skb.seq ∨ skb.frag = 1 + tail.frag) ∧
      (key.map Key.type = some .aesccmp → (tail.cb.iv + 1) % 2 ^ 64 = skb.cb.iv) := by
  unfold checkIfMatch
  cases defrag.queue.getLast? with
  | none => simp
  | some tail =>
    simp only [Option.some.injEq, exists_eq_left']
    split_ifs <;> simp only [ne_eq, false_iff, true_iff] at * <;> tauto

/-- Everything a call can do with a frame. -/
theorem rxDefrag_cases (key : Option Key) (expanded : Bool) (skb : Skb) (defrag : DefragEntry)
    {r : RxControl × DefragEntry × Skb} (hr : rxDefrag key expanded skb defrag = r) :
    r.1 = .rxDrop ∧ r.2.1.queue = [] ∨
    r.1 = .rxContinue ∧ skb.frag = 0 ∧ r.2.1.queue = [] ∨
    r.1 = .rxQueue ∧ skb.frag = 0 ∧ r.2.1.queue = [{ skb with cb := .zero }] ∨
    checkIfMatch skb defrag key = true ∧ skb.frag ≠ 0 ∧
      (r.1 = .rxQueue ∧ r.2.1.queue = defrag.queue ++ [{ skb with cb := .zero }] ∨
        r.1 = .rxContinue ∧ r.2.1.queue = [] ∧ r.2.2 = mergeQueue defrag.queue skb) := by
  subst hr
  unfold rxDefrag
  split_ifs with hmore hfrag hmatch hfrag hmatch hexp
  · exact Or.inr (Or.inr (Or.inl ⟨rfl, hfrag, rfl⟩))
  · exact Or.inr (Or.inr (Or.inr ⟨hmatch, hfrag, Or.inl ⟨rfl, rfl⟩⟩))
  · exact Or.inl ⟨rfl, rfl⟩
  · exact Or.inr (Or.inl ⟨rfl, hfrag, rfl⟩)
  · exact Or.inl ⟨rfl, rfl⟩
  · exact Or.inl ⟨rfl, rfl⟩
  · refine Or.inr (Or.inr (Or.inr ⟨by simpa using hmatch, hfrag, Or.inr ⟨rfl, rfl, rfl⟩⟩))

/-- The frame is the last of received fragments 0, 1, .. of one sequence number, and `data` is
the header of the first of them followed by the payloads of all. -/
def Assembled (received : List Skb) (skb : Skb) (data : List UInt8) : Prop :=
  ∃ f gs, f :: gs ⊆ received ∧ (f :: gs).getLast? = some skb ∧
    (f :: gs).map Skb.frag = List.range (skb.frag + 1) ∧ (∀ g ∈ f :: gs, g.seq = skb.seq) ∧
    data = f.header ++ (f :: gs).flatMap Skb.payload

theorem Assembled.mono {received received' : List Skb} {skb : Skb} {data : List UInt8}
    (ha : Assembled received skb data) (h : received ⊆ received') : Assembled received' skb data := by
  obtain ⟨f, gs, hsub, hrest⟩ := ha
  exact ⟨f, gs, fun g hg => h (hsub hg), hrest⟩

/-- The frames given to the entry of one station and access category, and what the calls that
return `RX_CONTINUE` made of theirs. -/
structure Reassembly where
  defrag : DefragEntry
  received : List Skb
  passed : List (Skb × Skb)

structure FragmentEvent where
  key : Option Key
  expanded : Bool
  skb : Skb

namespace Reassembly

def start : Reassembly := ⟨⟨[], 0⟩, [], []⟩

def step (s : Reassembly) (e : FragmentEvent) : Reassembly :=
  let r := rxDefrag e.key e.expanded e.skb s.defrag
  { defrag := r.2.1
    received := s.received ++ [e.skb]
    passed := if r.1 = .rxContinue then s.passed ++ [(e.skb, r.2.2)] else s.passed }

/-- Every frame passed on with a fragment number other than 0 is well assembled. -/
def AllAssembled (s : Reassembly) : Prop :=
  ∀ p ∈ s.passed, p.1.frag ≠ 0 → Assembled s.received p.1 p.2.data

/-- A fragment that has the sequence number of the queued one or continues its numbering, and
under CCMP its packet number, does both, and is not shorter than its header. -/
def Continues (s : Reassembly) (e : FragmentEvent) : Prop :=
  match s.defrag.queue.getLast? with
  | none => True
  | some tail => e.skb.frag ≠ 0 → (tail.seq = e.skb.seq ∨ e.skb.frag = 1 + tail.frag) →
      (e.key.map Key.type = some .aesccmp → (tail.cb.iv + 1) % 2 ^ 64 = e.skb.cb.iv) →
      tail.seq = e.skb.seq ∧ e.skb.frag = 1 + tail.frag ∧ e.skb.hdrlen ≤ e.skb.data.length

instance : ∀ s e, Decidable (Continues s e) := by
  intro s e
  unfold Continues
  cases s.defrag.queue.getLast? with
  | none => exact isTrue trivial
  | some tail => infer_instance

/-- The queued frames are received fragments 0, 1, .. of one sequence number. -/
structure Queued (s : Reassembly) (fs : List Skb) : Prop where
  queue : s.defrag.queue = fs.map fun f => { f with cb := .zero }
  received : fs ⊆ s.received
  frags : fs.map Skb.frag = List.range fs.length
  seqs : ∀ f ∈ fs, ∀ g ∈ fs, f.seq = g.seq
  headers : ∀ f ∈ fs.tail, f.hdrlen ≤ f.data.length

def Inv (s : Reassembly) : Prop := (∃ fs, s.Queued fs) ∧ s.AllAssembled

theorem queued_nil {s : Reassembly} (h : s.defrag.queue = []) : s.Queued [] :=
  ⟨h, List.nil_subset _, rfl, by simp, by simp⟩

/-- A frame that continues the queue extends its list of fragments. -/
theorem Queued.extend {s : Reassembly} {fs : List Skb} (h : s.Queued fs) {e : FragmentEvent}
    (hc : s.Continues e) (hfrag : e.skb.frag ≠ 0)
    (hm : checkIfMatch e.skb s.defrag e.key = true) :
    fs ≠ [] ∧ e.skb.frag = fs.length ∧ (∀ f ∈ fs, f.seq = e.skb.seq) ∧
      e.skb.hdrlen ≤ e.skb.data.length := by
  obtain ⟨tail, htail, hor, hiv⟩ := checkIfMatch_iff.mp hm
  simp only [Continues, htail] at hc
  obtain ⟨hseq, hnext, hlen⟩ := hc hfrag hor hiv
  rw [h.queue, List.getLast?_map] at htail
  obtain ⟨last, hlast, rfl⟩ := Option.map_eq_some_iff.mp htail
  have hmem : last ∈ fs := List.mem_of_getLast? hlast
  have hne : fs ≠ [] := List.ne_nil_of_mem hmem
  refine ⟨hne, ?_, fun f hf => (h.seqs f hf last hmem).trans hseq, hlen⟩
  have hnum : (fs.map Skb.frag).getLast? = some last.frag := by
    rw [List.getLast?_map, hlast]
    rfl
  rw [h.frags, List.getLast?_range] at hnum
  have hpos := List.length_pos_iff.mpr hne
  rw [if_neg hpos.ne'] at hnum
  have hlastnum := Option.some.inj hnum
  change e.skb.frag = 1 + last.frag at hnext
  omega

theorem range_extend {fs : List Skb} {skb : Skb} (h : fs.map Skb.frag = List.range fs.length)
    (hn : skb.frag = fs.length) : (fs ++ [skb]).map Skb.frag = List.range (skb.frag + 1) := by
  rw [List.map_append, h, List.map_singleton, hn, List.range_succ]

theorem Queued.assembled {s : Reassembly} {fs : List Skb} (h : s.Queued fs) {e : FragmentEvent}
    (hc : s.Continues e) (hfrag : e.skb.frag ≠ 0)
    (hm : checkIfMatch e.skb s.defrag e.key = true) :
    Assembled (s.received ++ [e.skb]) e.skb (mergeQueue s.defrag.queue e.skb).data := by
  obtain ⟨hne, hnum, hseqs, hlen⟩ := h.extend hc hfrag hm
  cases fs with
  | nil => exact absurd rfl hne
  | cons f gs =>
    refine ⟨f, gs ++ [e.skb], ?_, List.getLast?_concat (l := f :: gs), range_extend h.frags hnum,
      ?_, ?_⟩
    · intro g hg
      rcases List.mem_append.mp (show g ∈ (f :: gs) ++ [e.skb] from hg) with hg | hg
      · exact List.mem_append_left _ (h.received hg)
      · exact List.mem_append_right _ hg
    · intro g hg
      rcases List.mem_append.mp (show g ∈ (f :: gs) ++ [e.skb] from hg) with hg | hg
      · exact hseqs g hg
      · rw [List.mem_singleton.mp hg]
    · have hfit : ∀ g ∈ gs.map (fun f : Skb => { f with cb := .zero }) ++ [e.skb],
          g.hdrlen ≤ g.data.length := by
        intro g hg
        rcases List.mem_append.mp hg with hg | hg
        · obtain ⟨x, hx, rfl⟩ := List.mem_map.mp hg
          exact h.headers x hx
        · rw [List.mem_singleton.mp hg]
          exact hlen
      rw [h.queue, List.map_cons, mergeQueue_data _ _ _ hfit, List.flatMap_cons, ← List.append_assoc,
        Skb.header_append_payload, List.flatMap_append, List.flatMap_append, List.flatMap_map]
      rfl

theorem step_queued {s : Reassembly} {fs : List Skb} (h : s.Queued fs) {e : FragmentEvent}
    (hc : s.Continues e) : ∃ gs, (s.step e).Queued gs := by
  rcases rxDefrag_cases e.key e.expanded e.skb s.defrag rfl with
    ⟨-, hq⟩ | ⟨-, -, hq⟩ | ⟨-, hfrag, hq⟩ | ⟨hm, hfrag, ⟨-, hq⟩ | ⟨-, hq, -⟩⟩
  · exact ⟨[], queued_nil hq⟩
  · exact ⟨[], queued_nil hq⟩
  · refine ⟨[e.skb], hq, ?_, by simpa using hfrag, by simp, by simp⟩
    exact fun x hx => List.mem_append_right _ hx
  · obtain ⟨hne, hnum, hseqs, hlen⟩ := h.extend hc hfrag hm
    refine ⟨fs ++ [e.skb], ?_, ?_, ?_, ?_, ?_⟩
    · change (rxDefrag e.key e.expanded e.skb s.defrag).2.1.queue = _
      rw [hq, h.queue, List.map_append]
      rfl
    · intro x hx
      rcases List.mem_append.mp hx with hx | hx
      · exact List.mem_append_left _ (h.received hx)
      · exact List.mem_append_right _ hx
    · rw [range_extend h.frags hnum, hnum, List.length_append, List.length_singleton]
    · have hall : ∀ f ∈ fs ++ [e.skb], f.seq = e.skb.seq := by
        intro f hf
        rcases List.mem_append.mp hf with hf | hf
        · exact hseqs f hf
        · rw [List.mem_singleton.mp hf]
      intro f hf g hg
      rw [hall f hf, hall g hg]
    · intro f hf
      rw [List.tail_append_of_ne_nil hne] at hf
      rcases List.mem_append.mp hf with hf | hf
      · exact h.headers f hf
      · rw [List.mem_singleton.mp hf]
        exact hlen
  · exact ⟨[], queued_nil hq⟩

theorem step_allAssembled {s : Reassembly} {fs : List Skb} (h : s.Queued fs)
    (ha : s.AllAssembled) {e : FragmentEvent} (hc : s.Continues e) : (s.step e).AllAssembled := by
  intro p hp hfrag
  by_cases hcont : (rxDefrag e.key e.expanded e.skb s.defrag).1 = .rxContinue
  · simp only [step, if_pos hcont] at hp
    rcases List.mem_append.mp hp with hp | hp
    · exact (ha p hp hfrag).mono (List.subset_append_left _ _)
    · rw [List.mem_singleton.mp hp] at hfrag ⊢
      rcases rxDefrag_cases e.key e.expanded e.skb s.defrag rfl with
        ⟨hn, -⟩ | ⟨-, hz, -⟩ | ⟨-, hz, -⟩ | ⟨hm, -, ⟨hn, -⟩ | ⟨-, -, hdata⟩⟩
      · rw [hcont] at hn
        cases hn
      · exact absurd hz hfrag
      · exact absurd hz hfrag
      · rw [hcont] at hn
        cases hn
      · rw [hdata]
        exact h.assembled hc hfrag hm
  · simp only [step, if_neg hcont] at hp
    exact (ha p hp hfrag).mono (List.subset_append_left _ _)

theorem inv_start : Inv start := ⟨⟨[], queued_nil rfl⟩, by simp [AllAssembled, start]⟩

theorem Inv.step {s : Reassembly} (h : Inv s) {e : FragmentEvent} (hc : s.Continues e) :
    Inv (s.step e) := by
  obtain ⟨⟨fs, hfs⟩, ha⟩ := h
  exact ⟨step_queued hfs hc, step_allAssembled hfs ha hc⟩

/-- In a run in which every fragment that fits the queue in one respect fits it in all, what
is passed on is the header of fragment 0 with the payloads of fragments 0, 1, .. of one MSDU. -/
theorem run_allAssembled (es : List FragmentEvent) (h : Guarded step Continues start es) :
    (run step start es).AllAssembled :=
  (guarded_invariant Inv (fun _ _ hs hc => hs.step hc) inv_start h).2

/-- A data frame with a plain 24-byte header. -/
def plainFrame (more : Bool) (seq frag : ℕ) (payload : List UInt8) : Skb where
  data := [0x08, if more then 0x06 else 0x02] ++ List.replicate 20 0 ++
    [UInt8.ofNat (seq % 16 * 16 + frag), UInt8.ofNat (seq / 16)] ++ payload
  cb := .zero
  protocol := 0
  queueMapping := 0
  clear := true

theorem run_allAssembled_two : (run step start [⟨none, true, plainFrame true 7 0 [1]⟩,
    ⟨none, true, plainFrame false 7 1 [2]⟩]).AllAssembled :=
  run_allAssembled _ (by decide)

/-- Fragment 1 of another MSDU is put behind fragment 0. -/
theorem mixed_fragments_passed : ¬ ∀ es, (run step start es).AllAssembled := by
  intro h
  let first := plainFrame true 7 0 (List.replicate 24 1)
  let second := plainFrame false 9 1 [2]
  have hmix := h [⟨none, true, first⟩, ⟨none, true, second⟩] (second, mergeQueue [first] second)
    (by decide) (by decide)
  obtain ⟨f, gs, hsub, -, hfrags, hseqs, -⟩ := hmix
  have hf : f.frag = 0 := by
    have h0 := congrArg List.head? hfrags
    simpa [List.range_succ_eq_map] using h0
  have hnone : ∀ f ∈ (run step start [⟨none, true, first⟩, ⟨none, true, second⟩]).received,
      f.frag = 0 → f.seq ≠ second.seq := by decide
  exact hnone f (hsub List.mem_cons_self) hf (hseqs f List.mem_cons_self)

end Reassembly

end R92su

import StandaloneDrivers.R92su.Receive

/-! The conversion of an MPDU beside the frames of other MPDUs on the same queue (rx.c). -/
namespace R92su
variable {conv : Conversion} {skb : Skb} {queue : List Skb}

/-- An MPDU only appends frames of its own, with its own data, and is dropped when it has none. -/
def Isolated (conv : Conversion) (skb : Skb) (queue : List Skb) : Prop :=
  ∃ added, (rxDataTo8023 conv skb queue).2 = queue ++ added ∧ (∀ f ∈ added, f.cb = skb.cb) ∧
    ((rxDataTo8023 conv skb queue).1 = .rxDrop ↔ added = [])

theorem isolated_single (h : isAmsdu skb = false) : Isolated conv skb queue := by
  rw [Isolated, rxDataTo8023, h]
  cases conv.to8023 skb.data with
  | none =>
    refine ⟨[], (List.append_nil queue).symm, ?_, ?_⟩
    · intro f hf
      cases hf
    · exact ⟨fun _ => rfl, fun _ => rfl⟩
  | some data =>
    refine ⟨_, rfl, ?_, ?_⟩
    · intro f hf
      rw [List.mem_singleton.mp hf]
    · exact ⟨nofun, nofun⟩

/-- The frames of an A-MSDU that is converted. -/
def subframes (skb : Skb) (frames : List (List UInt8)) : List Skb :=
  frames.map fun data => ⟨data, skb.cb, 0, 0, skb.clear⟩

theorem rxDataTo8023_amsdu (h : isAmsdu skb = true) {frames : List (List UInt8)}
    (hconv : conv.amsduTo8023s skb.data = some frames) (hne : queue ++ subframes skb frames ≠ []) :
    rxDataTo8023 conv skb queue =
      (.rxContinue, queue.map (fun f => { f with cb := skb.cb }) ++ subframes skb frames) := by
  have hsome : (queue ++ frames.map fun data => Skb.mk data .zero 0 0 skb.clear).isEmpty =
      false := by
    rw [List.isEmpty_eq_false_iff]
    intro hnil
    obtain ⟨hqueue, hframes⟩ := List.append_eq_nil_iff.mp hnil
    rw [hqueue, List.map_eq_nil_iff.mp hframes] at hne
    exact hne rfl
  simp only [rxDataTo8023, h, if_true, hconv, hsome, Bool.false_eq_true, if_false, List.map_append,
    List.map_map]
  rfl

theorem rxDataTo8023_purged (h : isAmsdu skb = true) (hconv : conv.amsduTo8023s skb.data = none) :
    rxDataTo8023 conv skb queue = (.rxDrop, []) := by
  simp only [rxDataTo8023, h, if_true, hconv, List.isEmpty_nil]

/-- Writing the data of one MPDU over a queue is harmless when all frames had the same. -/
theorem map_cb_eq : queue.map (fun f => { f with cb := skb.cb }) = queue ↔
    ∀ f ∈ queue, f.cb = skb.cb := by
  induction queue with
  | nil => exact ⟨fun _ _ hf => absurd hf List.not_mem_nil, fun _ => rfl⟩
  | cons f queue ih =>
    rw [List.map_cons, List.cons.injEq, ih, List.forall_mem_cons]
    apply and_congr_left
    intro _
    constructor
    · intro heq
      exact (congrArg Skb.cb heq).symm
    · intro heq
      rw [← heq]

/-- An A-MSDU that does not fail half-way and yields `added` is isolated when the frames that wait
have its own data. -/
theorem isolated_amsdu (h : isAmsdu skb = true) {frames : List (List UInt8)}
    (hconv : conv.amsduTo8023s skb.data = some frames) (hqueue : queue ≠ []) :
    Isolated conv skb queue ↔ frames ≠ [] ∧ ∀ f ∈ queue, f.cb = skb.cb := by
  have hne : queue ++ subframes skb frames ≠ [] := by
    intro hnil
    exact hqueue (List.append_eq_nil_iff.mp hnil).1
  rw [Isolated, rxDataTo8023_amsdu h hconv hne]
  constructor
  · rintro ⟨added, heq, -, hdrop⟩
    obtain ⟨hmap, hadded⟩ := List.append_inj heq (List.length_map _)
    constructor
    · intro hnil
      have hempty : added = [] := by
        rw [← hadded, subframes, hnil, List.map_nil]
      exact absurd (hdrop.mpr hempty) nofun
    · exact map_cb_eq.mp hmap
  · rintro ⟨hframes, hcb⟩
    refine ⟨subframes skb frames, ?_, ?_, ?_⟩
    · rw [map_cb_eq.mpr hcb]
    · intro f hf
      obtain ⟨data, -, rfl⟩ := List.mem_map.mp hf
      rfl
    · constructor
      · nofun
      · intro hnil
        exact absurd (List.map_eq_nil_iff.mp hnil) hframes

/-- Only an A-MSDU that meets waiting frames may touch them. -/
theorem isolated_iff (conv : Conversion) (skb : Skb) (queue : List Skb) :
    Isolated conv skb queue ↔ isAmsdu skb = false ∨ queue = [] ∨
      (∃ data frames, conv.amsduTo8023s skb.data = some (data :: frames)) ∧
        ∀ f ∈ queue, f.cb = skb.cb := by
  cases h : isAmsdu skb with
  | false => exact ⟨fun _ => Or.inl rfl, fun _ => isolated_single h⟩
  | true =>
    simp only [reduceCtorEq, false_or]
    by_cases hqueue : queue = []
    · subst hqueue
      simp only [true_or, iff_true]
      cases hconv : conv.amsduTo8023s skb.data with
      | none =>
        rw [Isolated, rxDataTo8023_purged h hconv]
        exact ⟨[], rfl, fun f hf => absurd hf List.not_mem_nil, fun _ => rfl, fun _ => rfl⟩
      | some frames =>
        by_cases hframes : frames = []
        · have hdrop : rxDataTo8023 conv skb [] = (.rxDrop, []) := by
            simp only [rxDataTo8023, h, if_true, hconv, hframes, List.map_nil, List.append_nil,
              List.isEmpty_nil]
          rw [Isolated, hdrop]
          exact ⟨[], rfl, fun f hf => absurd hf List.not_mem_nil, fun _ => rfl, fun _ => rfl⟩
        · have hne : subframes skb frames ≠ [] := fun hnil => hframes (List.map_eq_nil_iff.mp hnil)
          rw [Isolated, rxDataTo8023_amsdu h hconv hne]
          refine ⟨subframes skb frames, rfl, ?_, nofun, fun hnil => absurd hnil hne⟩
          intro f hf
          obtain ⟨data, -, rfl⟩ := List.mem_map.mp hf
          rfl
    · simp only [hqueue, false_or]
      cases hconv : conv.amsduTo8023s skb.data with
      | none =>
        rw [Isolated, rxDataTo8023_purged h hconv]
        simp only [reduceCtorEq, exists_false, false_and, iff_false]
        rintro ⟨added, heq, -⟩
        exact hqueue (List.append_eq_nil_iff.mp heq.symm).1
      | some frames =>
        rw [isolated_amsdu h hconv hqueue]
        apply and_congr_left
        intro _
        cases frames with
        | nil => simp only [ne_eq, not_true_eq_false, Option.some.injEq, reduceCtorEq, exists_false]
        | cons data frames =>
          simp only [ne_eq, reduceCtorEq, not_false_eq_true, true_iff]
          exact ⟨data, frames, rfl⟩

section Example

/-- Every A-MSDU holds one frame. -/
def oneFrame : Conversion := ⟨fun data => some data, fun data => some [data]⟩

/-- A frame that came without protection. -/
def openFrame : Skb := ⟨[], .zero, 0, 0, true⟩

/-- A protected A-MSDU. -/
def protectedAmsdu : Skb where
  data := [0x88, 0x40] ++ List.replicate 22 0 ++ [0x80, 0]
  cb := ⟨some 1, some 0, 5, true⟩
  protocol := 0
  queueMapping := 0
  clear := false

/-- The waiting frame is marked as protected. -/
theorem open_frame_marked : ¬ Isolated oneFrame protectedAmsdu [openFrame] := by
  rw [isolated_iff]
  rintro (hsingle | hempty | ⟨-, hsame⟩)
  · exact absurd hsingle (by decide)
  · cases hempty
  · exact absurd (hsame openFrame List.mem_cons_self) (by decide)

end Example
end R92su

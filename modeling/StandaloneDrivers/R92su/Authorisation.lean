import StandaloneDrivers.R92su.Receive
import Mathlib.Tactic

/-! Which frames the port check lets through. It reads the protocol of a frame before the
delivery sets it, and the protection recorded in its control block. -/
namespace R92su
open Foundations

theorem mergeQueue_protocol (queue : List Skb) (skb : Skb) :
    (mergeQueue queue skb).protocol = skb.protocol := by
  induction queue with
  | nil => rfl
  | cons tmp queue ih => exact ih

theorem rxFindKey_protocol (bss : BssPriv) (skb : Skb) :
    (rxFindKey bss skb).2.protocol = skb.protocol := by
  unfold rxFindKey
  split
  · split <;> rfl
  · rfl

theorem ivStripped_protocol (ivLen : ℕ) (skb : Skb) :
    (ivStripped ivLen skb).2.protocol = skb.protocol := by
  unfold ivStripped
  split <;> rfl

theorem rxIvHandle_protocol (keys : ℕ → Key) (skb : Skb) :
    (rxIvHandle keys skb).2.protocol = skb.protocol := by
  unfold rxIvHandle
  cases skb.cb.key.map keys with
  | none => rfl
  | some key =>
    dsimp only
    split
    · exact ivStripped_protocol _ _
    · exact ivStripped_protocol _ _
    · split_ifs <;> first | rfl | exact ivStripped_protocol _ _
    · split_ifs <;> first | rfl | exact ivStripped_protocol _ _
    · rfl

theorem trimmed_protocol (removeLen : ℕ) (skb : Skb) :
    (trimmed removeLen skb).2.protocol = skb.protocol := by
  unfold trimmed
  split <;> rfl

theorem rxIcvMicHandle_protocol (keys : ℕ → Key) (skb : Skb) :
    (rxIcvMicHandle keys skb).2.2.protocol = skb.protocol := by
  unfold rxIcvMicHandle
  cases skb.cb.key.map keys with
  | none => rfl
  | some key =>
    dsimp only
    split
    · exact trimmed_protocol _ _
    · exact trimmed_protocol _ _
    · split_ifs <;> first | rfl | exact trimmed_protocol _ _
    · exact trimmed_protocol _ _
    · rfl

theorem rxDefrag_protocol (key : Option Key) (expanded : Bool) (skb : Skb) (defrag : DefragEntry) :
    (rxDefrag key expanded skb defrag).2.2.protocol = skb.protocol := by
  unfold rxDefrag
  split_ifs <;> first | rfl | exact mergeQueue_protocol _ _

/-- No stage before the conversion sets the protocol. -/
theorem RxContext.prepare_protocol {bss : BssPriv} {s : RxContext} {mpdu : Mpdu} {skb : Skb}
    (h : (s.prepare bss mpdu).2 = some skb) :
    skb.protocol = 0 := by
  unfold prepare at h
  split at h
  · rename_i skb₁ h₁
    split at h
    · rename_i skb₂ h₂
      split at h
      · rename_i keys skb₃ h₃
        split at h
        · rename_i s₄ skb₄ h₄
          split at h
          · cases h
            have hp₁ := rxFindKey_protocol bss mpdu.skb
            have hp₂ := rxIvHandle_protocol s.keys skb₁
            have hp₃ := rxIcvMicHandle_protocol s.keys skb₂
            rw [h₁] at hp₁
            rw [h₂] at hp₂
            rw [h₃] at hp₃
            have hp₄ : skb.protocol = skb₃.protocol := by
              have hd := congrArg (fun r => r.2.2.protocol) h₄
              rw [← hd]
              exact rxDefrag_protocol _ _ _ _
            exact hp₄.trans (hp₃.trans (hp₂.trans hp₁))
          · cases h
        · cases h
      · cases h
    · cases h
  · cases h

namespace BssPriv

/-- The port check has an effect: the protocol it reads is still 0, so that only a port type
other than 0 makes it drop a frame. -/
def Enforces (bss : BssPriv) : Prop :=
  bss.controlPortNoEncrypt = true ∧ bss.controlPortEthertype ≠ 0

instance (bss : BssPriv) : Decidable bss.Enforces := inferInstanceAs (Decidable (_ ∧ _))

end BssPriv

theorem rxPortCheck_eq {bss : BssPriv} (henc : bss.encSta bss.sta = true) {skb : Skb}
    (hp : skb.protocol = 0) : rxPortCheck bss skb =
      if bss.Enforces ∧ skb.cb.hasProtect = false then .rxDrop else .rxContinue := by
  have hne : (0 != bss.controlPortEthertype) = decide (bss.controlPortEthertype ≠ 0) := by
    by_cases h : bss.controlPortEthertype = 0
    · simp [h]
    · simp [h, Ne.symm h]
  unfold rxPortCheck BssPriv.Enforces
  rw [henc, hp, hne]
  cases hb : skb.cb.hasProtect with
  | true => simp
  | false => by_cases hc : bss.controlPortNoEncrypt = true <;> simp [hc]

namespace RxPath
variable {conv : Conversion} {bss : BssPriv} {s : RxPath}

/-- A frame of unprotected origin was handed on only with the port type, and the port check
dropped none with the port type while that goes unencrypted. -/
structure Authorised (bss : BssPriv) (s : RxPath) : Prop where
  delivered : ∀ f ∈ s.delivered, f.clear = true → f.protocol = bss.controlPortEthertype
  dropped : bss.controlPortNoEncrypt = true → ∀ f ∈ s.portDropped, f.clear = true →
    ethTypeTrans f.data ≠ bss.controlPortEthertype

/-- Where the port check has an effect, a frame that counts as protected when it is converted
is made of protected MPDUs only, and if it is an A-MSDU no frame of unprotected origin waits
for the second loop. -/
def ConvertOk (bss : BssPriv) (s : RxPath) (mpdu : Mpdu) : Prop :=
  bss.Enforces → ∀ skb ∈ (s.prepare bss mpdu).2, skb.cb.hasProtect = true →
    skb.clear = false ∧ (isAmsdu skb = true → ∀ f ∈ s.frames, f.clear = false)

/-- A frame of unprotected origin has the port type just where the check has no effect. -/
def PortOk (bss : BssPriv) (f : Skb) : Prop :=
  f.clear = true → (ethTypeTrans f.data = bss.controlPortEthertype ↔ ¬ bss.Enforces)

def BatchOk (conv : Conversion) (bss : BssPriv) (s : RxPath) (batch : List Mpdu) : Prop :=
  Guarded (prep conv bss) (ConvertOk bss) { s with frames := [] } batch ∧
    ∀ f ∈ (s.prepAll conv bss batch).frames, PortOk bss f

instance : Decidable (PortOk bss f) := by
  unfold PortOk
  infer_instance

instance : ∀ s mpdu, Decidable (ConvertOk bss s mpdu) := by
  intro s mpdu
  unfold ConvertOk
  infer_instance

instance : ∀ s batch, Decidable (BatchOk conv bss s batch) :=
  fun _ _ => inferInstanceAs (Decidable (_ ∧ _))

/-- The frames between the two loops: none has a protocol yet, and where the port check has
an effect those of unprotected origin count as unprotected. -/
def Waiting (bss : BssPriv) (s : RxPath) : Prop :=
  ∀ f ∈ s.frames, f.protocol = 0 ∧ (bss.Enforces → f.clear = true → f.cb.hasProtect = false)

theorem mem_dataTo8023 {skb f : Skb} {queue : List Skb} (h : f ∈ (rxDataTo8023 conv skb queue).2) :
    (∃ g ∈ queue, f.protocol = g.protocol ∧ f.clear = g.clear ∧
      (f.cb = g.cb ∨ isAmsdu skb = true ∧ f.cb = skb.cb)) ∨
    (f.protocol = 0 ∨ f.protocol = skb.protocol) ∧ f.clear = skb.clear ∧ f.cb = skb.cb := by
  unfold rxDataTo8023 at h
  cases hamsdu : isAmsdu skb with
  | true =>
    simp only [hamsdu, if_true] at h
    cases hconv : conv.amsduTo8023s skb.data with
    | none => simp [hconv] at h
    | some subframes =>
      simp only [hconv] at h
      split at h
      · rename_i hempty
        rw [List.isEmpty_iff.mp hempty] at h
        cases h
      · obtain ⟨g, hg, rfl⟩ := List.mem_map.mp h
        rcases List.mem_append.mp hg with hg | hg
        · exact Or.inl ⟨g, hg, rfl, rfl, Or.inr ⟨rfl, rfl⟩⟩
        · obtain ⟨data, -, rfl⟩ := List.mem_map.mp hg
          exact Or.inr ⟨Or.inl rfl, rfl, rfl⟩
  | false =>
    simp only [hamsdu, Bool.false_eq_true, if_false] at h
    cases hconv : conv.to8023 skb.data with
    | none =>
      simp only [hconv] at h
      exact Or.inl ⟨f, h, rfl, rfl, Or.inl rfl⟩
    | some data =>
      simp only [hconv] at h
      rcases List.mem_append.mp h with h | h
      · exact Or.inl ⟨f, h, rfl, rfl, Or.inl rfl⟩
      · rw [List.mem_singleton.mp h]
        exact Or.inr ⟨Or.inr rfl, rfl, rfl⟩

theorem Waiting.prep {mpdu : Mpdu} (h : Waiting bss s) (hc : ConvertOk bss s mpdu) :
    Waiting bss (s.prep conv bss mpdu) := by
  cases hr : (s.prepare bss mpdu).2 with
  | none =>
    intro f hf
    simp only [RxPath.prep, hr] at hf
    exact h f hf
  | some skb =>
    have hprot := RxContext.prepare_protocol hr
    intro f hf
    simp only [RxPath.prep, hr] at hf
    rcases mem_dataTo8023 hf with ⟨g, hg, hp, hclear, hcb⟩ | ⟨hp, hclear, hcb⟩
    · obtain ⟨hg0, hgw⟩ := h g hg
      refine ⟨hp.trans hg0, fun he hf => ?_⟩
      rcases hcb with hcb | ⟨hamsdu, hcb⟩
      · rw [hcb]
        exact hgw he (hclear ▸ hf)
      · rw [hcb]
        by_contra hprotect
        have hg' := (hc he skb hr (by simpa using hprotect)).2 hamsdu g hg
        rw [← hclear, hf] at hg'
        cases hg'
    · refine ⟨by rcases hp with hp | hp <;> simp [hp, hprot], fun he hf => ?_⟩
      rw [hcb]
      by_contra hprotect
      have hskb := (hc he skb hr (by simpa using hprotect)).1
      rw [← hclear, hf] at hskb
      cases hskb

theorem Authorised.prep {mpdu : Mpdu} (h : Authorised bss s) :
    Authorised bss (s.prep conv bss mpdu) := ⟨h.delivered, h.dropped⟩

/-- A waiting frame that meets the condition is dealt with as authorised. -/
theorem Authorised.main (henc : bss.encSta bss.sta = true) (h : Authorised bss s) {f : Skb}
    (hprot : f.protocol = 0)
    (hwait : bss.Enforces → f.clear = true → f.cb.hasProtect = false) (hok : PortOk bss f) :
    Authorised bss (s.main bss f) := by
  have hcheck := rxPortCheck_eq henc hprot
  by_cases hdrop : bss.Enforces ∧ f.cb.hasProtect = false
  · rw [if_pos hdrop] at hcheck
    simp only [RxPath.main, hcheck]
    refine ⟨h.delivered, fun hno g hg hclear => ?_⟩
    rcases List.mem_append.mp hg with hg | hg
    · exact h.dropped hno g hg hclear
    · rw [List.mem_singleton.mp hg] at hclear ⊢
      exact fun heq => (hok hclear).mp heq hdrop.1
  · rw [if_neg hdrop] at hcheck
    simp only [RxPath.main, hcheck]
    refine ⟨fun g hg hclear => ?_, h.dropped⟩
    rcases List.mem_append.mp hg with hg | hg
    · exact h.delivered g hg hclear
    · rw [List.mem_singleton.mp hg] at hclear ⊢
      exact (hok hclear).mpr fun he => hdrop ⟨he, hwait he hclear⟩

theorem Authorised.mainAll (henc : bss.encSta bss.sta = true) (h : Authorised bss s)
    {frames : List Skb} (hwait : ∀ f ∈ frames, f.protocol = 0 ∧
      (bss.Enforces → f.clear = true → f.cb.hasProtect = false))
    (hok : ∀ f ∈ frames, PortOk bss f) : Authorised bss (run (RxPath.main bss) s frames) := by
  induction frames generalizing s with
  | nil => exact h
  | cons f frames ih =>
    obtain ⟨hprot, hf⟩ := hwait f List.mem_cons_self
    apply ih
    · exact h.main henc hprot hf (hok f List.mem_cons_self)
    · exact fun g hg => hwait g (List.mem_cons_of_mem _ hg)
    · exact fun g hg => hok g (List.mem_cons_of_mem _ hg)

theorem Authorised.rxHandler (henc : bss.encSta bss.sta = true) (h : Authorised bss s)
    {batch : List Mpdu} (hok : BatchOk conv bss s batch) :
    Authorised bss (s.rxHandler conv bss batch) := by
  have hprep := guarded_invariant (fun s => Authorised bss s ∧ Waiting bss s)
    (fun s mpdu hs hc => ⟨hs.1.prep, hs.2.prep hc⟩) (s := { s with frames := [] })
    ⟨⟨h.delivered, h.dropped⟩, by simp [Waiting]⟩ hok.1
  exact hprep.1.mainAll henc hprep.2 hok.2

/-- In every run of the receive handler whose batches meet the condition, no frame of
unprotected origin is handed on but with the port type, and none with it is dropped. -/
theorem run_authorised (conv : Conversion) (henc : bss.encSta bss.sta = true)
    (context : RxContext) (batches : List (List Mpdu))
    (hok : Guarded (RxPath.rxHandler conv bss) (BatchOk conv bss) ⟨context, [], [], []⟩ batches) :
    Authorised bss (run (RxPath.rxHandler conv bss) ⟨context, [], [], []⟩ batches) :=
  guarded_invariant (Authorised bss) (fun _ _ hs hb => hs.rxHandler henc hb)
    ⟨by simp, by simp⟩ hok

/-- A frame from the access point with a SNAP header becomes an Ethernet frame. -/
def snapConversion : Conversion where
  to8023 := fun data => some ((data.drop 4).take 6 ++ (data.drop 16).take 6 ++ data.drop 30)
  amsduTo8023s := fun _ => none

/-- A BSS with encryption whose port type is that of EAPOL. -/
def eapolBss (noEncrypt : Bool) : BssPriv where
  sta := 0
  encSta := fun _ => true
  staKey := fun _ => some 0
  groupKey := fun _ => none
  controlPortEthertype := 0x888E
  controlPortNoEncrypt := noEncrypt

def idleContext : RxContext := ⟨fun _ => ⟨.aesccmp, 0, []⟩, fun _ => ⟨[], 0⟩⟩

/-- An unprotected MPDU with a frame of the given type. -/
def openMpdu (hi lo : UInt8) : Mpdu where
  data := [0x08, 0x02] ++ List.replicate 22 0 ++ [0xAA, 0xAA, 3, 0, 0, 0, hi, lo, 1, 2]
  sta := 0
  queueMapping := 0
  expanded := true

theorem run_authorised_small : Authorised (eapolBss true)
    (run (RxPath.rxHandler snapConversion (eapolBss true)) ⟨idleContext, [], [], []⟩
      [[openMpdu 0x08 0x00, openMpdu 0x86 0xDD]]) :=
  run_authorised _ rfl _ _ (by decide)

/-- An unprotected IPv4 frame is handed on, and an unprotected EAPOL frame is dropped. -/
theorem port_check_reversed :
    ¬ Authorised (eapolBss false) (run (RxPath.rxHandler snapConversion (eapolBss false))
      ⟨idleContext, [], [], []⟩ [[openMpdu 0x08 0x00]]) ∧
    ¬ Authorised (eapolBss true) (run (RxPath.rxHandler snapConversion (eapolBss true))
      ⟨idleContext, [], [], []⟩ [[openMpdu 0x88 0x8E]]) := by
  constructor
  · intro h
    exact absurd h.delivered (by decide)
  · intro h
    exact absurd (h.dropped rfl) (by decide)

end RxPath

end R92su

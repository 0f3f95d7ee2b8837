import StandaloneDrivers.Rt5572.HandshakeRuns

/-! The group keys that are handed over in a run. -/
namespace Rt5572
open Foundations
open BssTab (WepStatus AuthMode)

/-- A frame that has the text of a message, the right MIC and no old counter is taken for what the
message is, and a group key that it brings is the one that the access point had. -/
def ApMessage.Carries (x : ApMessage) (bWpa2 : Bool) (status : WepStatus) : Prop :=
  ∀ (e : MacEntry) (p : EapolPacket) (msgType : UInt8), e.ptk = x.ptk → e.bWpa2 = bWpa2 →
    p.SameText x.packet → MicValid e.ptk p → replayDiff e p msgType = false →
      (x.packet.IsMsg3 ∧ msgType = eapolPairMsg3) ∨
        (x.packet.keyInfo.keyType = false ∧ msgType = eapolGroupMsg1) →
      ∃ groupKey, peerWpaMessageSanity e p msgType = some (.accepted groupKey) ∧
        ∀ k ∈ groupKey, k = (x.gtk.toList.take (gtkLenOf status).toNat, x.keyIdx)

section Carries
variable {e : MacEntry} {a : MsgArgs} {m : EapolPacket} {gtk : Vector UInt8 32}

theorem carries_one (hmsg : Built e a m) (hone : a.msgType = eapolPairMsg1) (idx : UInt8) (bWpa2 : Bool)
    (status : WepStatus) : ApMessage.Carries ⟨e.ptk, m, gtk, idx⟩ bWpa2 status := by
  have hmessage := hmsg.isMessage
  rintro e' p msgType - - - - - (⟨hthree, -⟩ | ⟨htype, -⟩)
  · have hmic := hmessage.keyMic
    rw [hone] at hmic
    exact absurd (hthree.2.symm.trans hmic) (by decide)
  · have hpair := hmessage.keyType
    rw [hone] at hpair
    exact absurd (htype.symm.trans hpair) (by decide)

theorem carries_key (hmsg : Built e a m) (hsends : a.SendsKey)
    (htype : a.msgType = eapolPairMsg3 ∨ a.msgType = eapolGroupMsg1) (hgtk : a.gtk = keyMemory gtk.toList) :
    ApMessage.Carries ⟨e.ptk, m, gtk, a.defaultKeyIdx⟩ e.bWpa2 a.groupKeyWepStatus := by
  intro e' p msgType hptk hwpa2 hsame hvalid hreplay hshape
  have hpair := hmsg.isMessage.keyType
  have hkey : a.groupKey = (gtk.toList.take (gtkLenOf a.groupKeyWepStatus).toNat, a.defaultKeyIdx) := by
    rw [MsgArgs.groupKey, hgtk, read_keyMemory]
  -- the frame is taken for the message that it is
  obtain rfl : msgType = a.msgType := by
    rcases hshape with ⟨hthree, rfl⟩ | ⟨hgroup, rfl⟩ <;> rcases htype with h | h <;> rw [h] at hpair ⊢
    · exact absurd (hthree.1.symm.trans hpair) (by decide)
    · exact absurd (hgroup.symm.trans hpair) (by decide)
  by_cases hwraps : a.Wraps e
  · refine ⟨_, sanity_wrapped hmsg hsends hwraps hsame hptk hwpa2 hreplay hvalid, fun k hk => ?_⟩
    rw [← hkey]
    exact (Option.some.inj hk).symm
  · rw [MsgArgs.Wraps, not_or, not_and, Bool.not_eq_true] at hwraps
    have hthree := htype.resolve_right hwraps.2
    exact ⟨none, sanity_msg3_wpa hmsg hsends hthree (hwraps.1 hthree) hsame hwpa2 hreplay hvalid,
      (by rintro _ ⟨⟩)⟩

end Carries

namespace World
variable {w : World} {bWpa2 : Bool} {status : WepStatus}

/-- Both sides are in one mode, and what the station has got of group keys was sent to it. -/
structure HandsOver (w : World) (bWpa2 : Bool) (status : WepStatus) : Prop where
  network : ∃ mbss, w.ap.mode = .ap mbss ∧ mbss.SendsKeys ∧ mbss.groupKeyWepStatus = status
  apWpa2 : w.ap.entry.bWpa2 = bWpa2
  staWpa2 : w.sta.entry.bWpa2 = bWpa2
  carries : ∀ x ∈ w.apSent, x.Carries bWpa2 status
  shared : ∀ s ∈ w.staShared, s.1 ≠ zeroKey →
    ∃ x ∈ w.apSent, x.ptk = s.1 ∧ s.2 = (x.gtk.toList.take (gtkLenOf status).toNat, x.keyIdx)

theorem HandsOver.apTurn (h : w.HandsOver bWpa2 status) {mbss : Mbss} (hmode : w.ap.mode = .ap mbss)
    {env : Env} {p : EapolPacket} {r : WpaAdapter × List Effect} (hresult : ApResult mbss w.ap env p r) :
    (w.apTurn r).HandsOver bWpa2 status := by
  obtain ⟨mbss₀, hmode₀, hsends, hstatus⟩ := h.network
  obtain rfl : mbss₀ = mbss := OpMode.ap.inj (hmode₀.symm.trans hmode)
  obtain ⟨mbss', hmode', hsame, houtcome⟩ := hresult.outcome
  have hsends' := hsends.step hsame
  have hstatus' : mbss'.groupKeyWepStatus = status := hsame.groupKeyWepStatus.trans hstatus
  have hwpa2 : r.1.entry.bWpa2 = bWpa2 := hresult.station.bWpa2.trans h.apWpa2
  have hgroup : r.1.groupKey = (mbss'.gtk, mbss'.defaultKeyId) := by rw [WpaAdapter.groupKey, hmode']
  have hnew : ∀ m ∈ sentOf r.2, ApMessage.Carries ⟨r.1.entry.ptk, m, mbss'.gtk, mbss'.defaultKeyId⟩ bWpa2
      status := by
    generalize r.1.entry = e' at houtcome hwpa2
    generalize sentOf r.2 = sent at houtcome
    generalize installs r.2 = installed at houtcome
    rw [← hwpa2, ← hstatus']
    cases houtcome with
    | kept hcounter => exact List.forall_mem_nil _
    | started hstart hcounter hmsg =>
      exact List.forall_mem_singleton.mpr (carries_one hmsg rfl _ _ _)
    | answered hack hdata hkey hreplay hvalid hcounter hmsg =>
      exact List.forall_mem_singleton.mpr (carries_key hmsg (msg3Args_sendsKey hsends' _ _) (.inl rfl) rfl)
    | installed hack htype hdata hvalid hptk hcounter => exact List.forall_mem_nil _
    | installedFirst hack htype hdata hvalid hptk hcounter hmsg =>
      exact List.forall_mem_singleton.mpr (carries_key hmsg (groupMsg1Args_sendsKey hsends' _) (.inr rfl) rfl)
    | grouped hcounter hmsg =>
      exact List.forall_mem_singleton.mpr (carries_key hmsg (groupMsg1Args_sendsKey hsends' _) (.inr rfl) rfl)
  refine ⟨⟨mbss', hmode', hsends', hstatus'⟩, hwpa2, h.staWpa2, ?_, ?_⟩
  · intro x hx
    rcases List.mem_append.mp hx with hx | hx
    · obtain ⟨m, hm, rfl⟩ := List.mem_map.mp hx
      rw [hgroup]
      exact hnew m hm
    · exact h.carries x hx
  · intro s hs hkey
    obtain ⟨x, hx, hsame⟩ := h.shared s hs hkey
    exact ⟨x, List.mem_append_right _ hx, hsame⟩

theorem HandsOver.staTurn (h : w.HandsOver bWpa2 status) {n : ℕ} (hinv : w.Inv n) {cfg : StaCfg} {env : Env}
    {p : EapolPacket} (hunforged : w.Unforged (.toSta env p)) {r : WpaAdapter × List Effect}
    (hresult : StaResult cfg w.sta env p r) : (w.staTurn r).HandsOver bWpa2 status := by
  refine ⟨h.network, h.apWpa2, hresult.station.bWpa2.trans h.staWpa2, h.carries, ?_⟩
  have houtcome := hresult.outcome
  have hnew : ∀ k ∈ sharedOf r.2, r.1.entry.ptk ≠ zeroKey → ∃ x ∈ w.apSent, x.ptk = r.1.entry.ptk ∧
      k = (x.gtk.toList.take (gtkLenOf status).toNat, x.keyIdx) := by
    generalize r.1.entry = e' at houtcome
    generalize sentOf r.2 = sent at houtcome
    generalize installs r.2 = installed at houtcome
    generalize sharedOf r.2 = shared at houtcome
    -- a frame that brings a group key has the text of a message that carries it
    have hframe : ∀ {k : List UInt8 × UInt8}, e'.ptk = w.sta.entry.ptk → e'.ptk ≠ zeroKey →
        p.keyInfo.keyAck = true →
          (p.IsMsg3 ∧ peerWpaMessageSanity w.sta.entry p eapolPairMsg3 = some (.accepted (some k))) ∨
            (p.keyInfo.keyType = false ∧
              peerWpaMessageSanity w.sta.entry p eapolGroupMsg1 = some (.accepted (some k))) →
            ∃ x ∈ w.apSent, x.ptk = e'.ptk ∧
              k = (x.gtk.toList.take (gtkLenOf status).toNat, x.keyIdx) := by
      intro k hptk hkey hack hshape
      have hvalid : MicValid w.sta.entry.ptk p := by
        rcases hshape with ⟨-, hsanity⟩ | ⟨-, hsanity⟩
        · exact (sanity_accepted hsanity).2 (by decide)
        · exact (sanity_accepted hsanity).2 (by decide)
      obtain ⟨x, hx, hxkey, hsame⟩ :=
        hinv.sentByAp (hunforged _ List.mem_cons_self (hptk ▸ hkey) hvalid) hack
      refine ⟨x, hx, hxkey.trans hptk.symm, ?_⟩
      have hcarries := h.carries x hx w.sta.entry p
      rw [EapolPacket.IsMsg3, ← hsame.keyInfo] at hcarries
      rcases hshape with ⟨hthree, hsanity⟩ | ⟨htype, hsanity⟩
      · obtain ⟨groupKey, htaken, hkey⟩ := hcarries _ hxkey.symm h.staWpa2 hsame hvalid
          (sanity_accepted hsanity).1 (.inl ⟨hthree, rfl⟩)
        rw [hsanity] at htaken
        cases htaken
        exact hkey k rfl
      · obtain ⟨groupKey, htaken, hkey⟩ := hcarries _ hxkey.symm h.staWpa2 hsame hvalid
          (sanity_accepted hsanity).1 (.inr ⟨htype, rfl⟩)
        rw [hsanity] at htaken
        cases htaken
        exact hkey k rfl
    cases houtcome with
    | kept hptk hcounter hnonce => exact fun k hk => absurd hk List.not_mem_nil
    | derived hreplay hkey hcounter hnonce hmsg => exact fun k hk => absurd hk List.not_mem_nil
    | turned hack htype hmic hsanity hptk hcounter hnonce =>
      intro k hk hkey
      rw [Option.mem_toList] at hk
      exact hframe hptk hkey hack (.inl ⟨⟨htype, hmic⟩, hk ▸ hsanity⟩)
    | confirmed hack htype hmic hsanity hnonce' hptk hcounter hnonce hmsg =>
      intro k hk hkey
      rw [Option.mem_toList] at hk
      exact hframe hptk hkey hack (.inl ⟨⟨htype, hmic⟩, hk ▸ hsanity⟩)
    | reflected hack htype hdata hsanity hptk hcounter hnonce => exact fun k hk => absurd hk List.not_mem_nil
    | grouped hack htype hsanity hptk hcounter hnonce hmsg =>
      intro k hk hkey
      rw [Option.mem_toList] at hk
      exact hframe hptk hkey hack (.inr ⟨htype, hk ▸ hsanity⟩)
  intro s hs hkey
  rcases List.mem_append.mp hs with hs | hs
  · obtain ⟨k, hk, rfl⟩ := List.mem_map.mp hs
    exact hnew k hk hkey
  · exact h.shared s hs hkey

theorem Run.handsOver {ap sta : WpaAdapter} {actions : List Action} {mbss : Mbss}
    (h : Run (ofSides ap sta) actions w) (hassociated : Associated ap sta)
    (hlen : actions.length < 2 ^ 64) (hmode : ap.mode = .ap mbss) (hsends : mbss.SendsKeys)
    (hwpa2 : sta.entry.bWpa2 = ap.entry.bWpa2) :
    w.HandsOver ap.entry.bWpa2 mbss.groupKeyWepStatus := by
  induction h with
  | nil =>
    exact ⟨⟨mbss, hmode, hsends, rfl⟩, rfl, hwpa2, List.forall_mem_nil _, List.forall_mem_nil _⟩
  | @step actions w w' a h hunforged hfresh hstep ih =>
    rw [List.length_cons] at hlen
    have hinv := h.inv hassociated (by omega)
    have hover := ih (by omega)
    obtain ⟨mbss₁, hap, -⟩ := hover.network
    obtain ⟨cfg, hsta, -⟩ := hinv.staMode
    -- a step without a frame goes with any frame
    have frame : EapolPacket := (mbss.msg1Args ap.entry).packet ap.entry []
    cases a with
    | start env =>
      obtain ⟨r, hr, rfl⟩ := Option.map_eq_some_iff.mp hstep
      exact hover.apTurn hap (wpaEapolStartAction_accessPoint (p := frame) hap hr)
    | retry env =>
      obtain ⟨r, hr, rfl⟩ := Option.map_eq_some_iff.mp hstep
      exact hover.apTurn hap (wpaRetryExec_accessPoint (p := frame) hap hr)
    | toAp env p =>
      obtain ⟨r, hr, rfl⟩ := Option.map_eq_some_iff.mp hstep
      exact hover.apTurn hap (wpaEapolKeyAction_accessPoint hap hinv.apCipher hr)
    | toSta env p =>
      obtain ⟨r, hr, rfl⟩ := Option.map_eq_some_iff.mp hstep
      exact hover.staTurn hinv hunforged (wpaEapolKeyAction_station hsta hinv.staCipher hr)

/-- What the station has sent is not longer than the buffer that it is read into. -/
structure Short (w : World) : Prop where
  rsn : ∃ cfg, w.sta.mode = .sta cfg ∧ cfg.rsnIeLen.toNat ≤ 253
  sent : ∀ y ∈ w.staSent, y.2.keyDataLen.toNat ≤ maxLenOfRsnIe

theorem Short.staTurn (h : w.Short) {cfg : StaCfg} (hmode : w.sta.mode = .sta cfg) {env : Env}
    {p : EapolPacket} {r : WpaAdapter × List Effect} (hresult : StaResult cfg w.sta env p r) :
    (w.staTurn r).Short := by
  obtain ⟨cfg₀, hmode₀, hrsn⟩ := h.rsn
  obtain rfl : cfg₀ = cfg := OpMode.sta.inj (hmode₀.symm.trans hmode)
  obtain ⟨cfg', hmode', hnetwork⟩ := hresult.mode
  have houtcome := hresult.outcome
  have hnew : ∀ m ∈ sentOf r.2, m.keyDataLen.toNat ≤ maxLenOfRsnIe := by
    generalize r.1.entry = e' at houtcome
    generalize sentOf r.2 = sent at houtcome
    generalize installs r.2 = installed at houtcome
    generalize sharedOf r.2 = shared at houtcome
    cases houtcome with
    | derived hreplay hkey hcounter hnonce hmsg => exact List.forall_mem_singleton.mpr (msg2_short hmsg hrsn)
    | confirmed hack htype hmic hsanity hnonce' hptk hcounter hnonce hmsg =>
      refine List.forall_mem_singleton.mpr ?_
      rw [hmsg.empty (.inl rfl)]
      decide
    | grouped hack htype hsanity hptk hcounter hnonce hmsg =>
      refine List.forall_mem_singleton.mpr ?_
      rw [hmsg.empty (.inr rfl)]
      decide
    | _ => exact List.forall_mem_nil _
  refine ⟨⟨cfg', hmode', hnetwork.rsnIeLen ▸ hrsn⟩, fun y hy => ?_⟩
  rcases List.mem_append.mp hy with hy | hy
  · obtain ⟨m, hm, rfl⟩ := List.mem_map.mp hy
    exact hnew m hm
  · exact h.sent y hy

theorem Run.short {ap sta : WpaAdapter} {actions : List Action} {cfg : StaCfg}
    (h : Run (ofSides ap sta) actions w) (hassociated : Associated ap sta)
    (hlen : actions.length < 2 ^ 64) (hmode : sta.mode = .sta cfg) (hrsn : cfg.rsnIeLen.toNat ≤ 253) :
    w.Short := by
  induction h with
  | nil => exact ⟨⟨cfg, hmode, hrsn⟩, List.forall_mem_nil _⟩
  | @step actions w w' a h hunforged hfresh hstep ih =>
    rw [List.length_cons] at hlen
    have hshort := ih (by omega)
    have hinv := h.inv hassociated (by omega)
    obtain ⟨cfg₁, hsta, -⟩ := hinv.staMode
    cases a with
    | toSta env p =>
      obtain ⟨r, hr, rfl⟩ := Option.map_eq_some_iff.mp hstep
      exact hshort.staTurn hsta (wpaEapolKeyAction_station hsta hinv.staCipher hr)
    | _ =>
      obtain ⟨r, -, rfl⟩ := Option.map_eq_some_iff.mp hstep
      exact ⟨hshort.rsn, hshort.sent⟩

/-- No MIC is checked under the key that is zero. -/
def Keyed (w : World) : Action → Prop
  | .start _ => True
  | .retry _ => True
  | .toAp _ p => ∀ ptk ∈ w.ap.nextKeys p, ptk ≠ zeroKey
  | .toSta _ p => p.keyInfo.keyMic = true → w.sta.entry.ptk ≠ zeroKey

end World

end Rt5572

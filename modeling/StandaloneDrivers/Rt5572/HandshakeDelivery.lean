import StandaloneDrivers.Rt5572.HandshakeSanity

/-! Handshakes where every message arrives: both sides get to one key. -/
namespace Rt5572
open Foundations
open BssTab (WepStatus AuthMode)

section Taken
variable {e e' : MacEntry} {a : MsgArgs} {m p : EapolPacket} {msgType : UInt8}

/-- A station takes a counter that is higher than its own. -/
theorem replayDiff_newer (htype : msgType = eapolPairMsg1 ∨ msgType = eapolPairMsg3 ∨
    msgType = eapolGroupMsg1) (hlt : beNat e.rCounter.toList < beNat p.replayCounter.toList) :
    replayDiff e p msgType = false := by
  have hlen : p.replayCounter.toList.length = e.rCounter.toList.length := by
    simp only [Vector.length_toList]
  rw [replayDiff, if_pos htype, decide_eq_false_iff_not]
  exact fun h => h.1 ((rtmpCompareMemory_one hlen).mpr hlt)

/-- An access point takes its own counter. -/
theorem replayDiff_same (htype : ¬(msgType = eapolPairMsg1 ∨ msgType = eapolPairMsg3 ∨
    msgType = eapolGroupMsg1)) (h : p.replayCounter = e.rCounter) : replayDiff e p msgType = false := by
  rw [replayDiff, if_neg htype, decide_eq_false_iff_not]
  exact not_not.mpr h

/-- A message without data, or whose data is not read, is let pass. -/
theorem sanity_empty (hreplay : replayDiff e p msgType = false) (hvalid : MicValid e.ptk p)
    (hempty : p.keyDataLen = 0 ∨ msgType = eapolPairMsg4 ∨ msgType = eapolGroupMsg2) :
    peerWpaMessageSanity e p msgType = some (.accepted none) := by
  rw [peerWpaMessageSanity, if_neg (by rw [hreplay]; decide)]
  split
  · rfl
  · rw [MicValid] at hvalid
    rw [hvalid]
    simp only [Option.bind_eq_bind, Option.bind_some, ne_eq, not_true_eq_false, if_false]

/-- Message 2 with an RSN element that fits is let pass, whatever the element is. -/
theorem sanity_msg2 (hreplay : replayDiff e p eapolPairMsg2 = false) (hvalid : MicValid e.ptk p)
    (hshort : p.keyDataLen.toNat ≤ maxLenOfRsnIe) :
    peerWpaMessageSanity e p eapolPairMsg2 = some (.accepted none) := by
  by_cases hempty : p.keyDataLen = 0
  · exact sanity_empty hreplay hvalid (.inl hempty)
  have hfull : ¬(p.keyDataLen = 0 ∨ eapolPairMsg2 = eapolPairMsg4 ∨ eapolPairMsg2 = eapolGroupMsg2) := by
    rintro (h | h | h)
    · exact hempty h
    · exact absurd h (by decide)
    · exact absurd h (by decide)
  have hplain : ¬((eapolPairMsg2 = eapolPairMsg3 ∧ e.bWpa2 = true) ∨ eapolPairMsg2 = eapolGroupMsg1) := by
    rintro (⟨h, -⟩ | h) <;> exact absurd h (by decide)
  rw [MicValid] at hvalid
  rw [peerWpaMessageSanity, if_neg (by rw [hreplay]; decide), if_neg (by decide), hvalid]
  simp only [Option.bind_eq_bind, Option.bind_some, ne_eq, not_true_eq_false, if_false, if_neg hfull,
    keyDataOf, if_neg hplain, if_neg (Nat.not_lt.mpr hshort), parseKeyData, rtmpParseEapolKeyData]
  cases e.bWpa2 <;> rfl

end Taken

/-- What `WpaEAPOLKeyAction` looks at before it tells messages apart, where they come from a peer whose
entry has the same security. -/
structure WpaAdapter.Listens (ad : WpaAdapter) : Prop where
  client : ad.client = true
  psk : ad.entry.authMode = .wpaPsk ∨ ad.entry.authMode = .wpa2Psk
  cipher : ad.entry.HasCipher
  assoc : ad.entry.assoc = true
  state : WpaState.initPsk.code ≤ ad.entry.wpaState.code

section Dispatch
variable {ad : WpaAdapter} {e : MacEntry} {a : MsgArgs} {m : EapolPacket} {env : Env}

theorem keyFrameTaken_built (h : ad.Listens) (hm : Built e a m)
    (hcipher : e.wepStatus = ad.entry.wepStatus)
    (hgroup : e.wepStatus = .encryption2Enabled → a.groupKeyWepStatus ≠ .encryption3Enabled) :
    ad.keyFrameTaken m = true := by
  have hwhole := hm.whole
  obtain ⟨keyData, mic, -, rfl⟩ := hm.data
  have hver : (a.keyInfo e).keyDescVer = a.keyDescVer e := (a.keyInfo_bits e).1
  have hwpa : ad.entry.authMode.atLeastWpa = true := by
    rcases h.psk with h | h <;> rw [h] <;> rfl
  have htype : (if e.bWpa2 = true then (2 : UInt8) else 0xfe) = 2 ∨
      (if e.bWpa2 = true then (2 : UInt8) else 0xfe) = 0xfe := by
    split
    · exact .inl rfl
    · exact .inr rfl
  have htkip : ¬(ad.entry.wepStatus = .encryption2Enabled ∧ a.keyDescVer e ≠ keyDescTkip) := by
    rintro ⟨hstatus, hne⟩
    apply hne
    rw [MsgArgs.keyDescVer, if_neg]
    rintro (haes | haes)
    · rw [hcipher, hstatus] at haes
      cases haes
    · exact hgroup (hcipher.trans hstatus) haes
  have haes : ¬(ad.entry.wepStatus = .encryption3Enabled ∧ a.keyDescVer e ≠ keyDescAes ∧
      a.keyDescVer e ≠ keyDescExt) := by
    rintro ⟨hstatus, hne, -⟩
    exact hne (if_pos (.inl (hcipher.trans hstatus)))
  rw [WpaAdapter.keyFrameTaken, decide_eq_true_eq]
  refine ⟨h.client, hwpa, Nat.le_of_eq hwhole, .inl rfl, htype.symm, ?_, ?_, h.assoc, h.state⟩
  · simp only [MsgArgs.packet, hver]
    exact htkip
  · simp only [MsgArgs.packet, hver]
    exact haes

/-- A message of an access point goes to the action that it is for. -/
theorem ackedKeyAction_built (hm : Built e a m) :
    (a.msgType = eapolPairMsg1 → ad.ackedKeyAction env m = ad.peerPairMsg1Action env m) ∧
      (a.msgType = eapolPairMsg3 → ad.ackedKeyAction env m = ad.peerPairMsg3Action m) ∧
        (a.msgType = eapolGroupMsg1 → ad.ackedKeyAction env m = ad.peerGroupMsg1Action m) := by
  obtain ⟨keyData, mic, -, hm⟩ := hm.data
  obtain ⟨-, htype, -, hmic, hsecure, herror, hrequest⟩ := a.keyInfo_bits e
  have hinfo : m.keyInfo = a.keyInfo e := by rw [hm]; rfl
  rw [← hinfo] at htype hmic hsecure herror hrequest
  refine ⟨fun hone => ?_, fun hthree => ?_, fun hfive => ?_⟩
  · rw [hone] at htype hmic hsecure
    simp only [WpaAdapter.ackedKeyAction, htype, hmic, hsecure, herror, hrequest]
    cases e.bWpa2 <;> rfl
  · rw [hthree] at htype hmic hsecure
    simp only [WpaAdapter.ackedKeyAction, htype, hmic, hsecure, herror, hrequest]
    cases e.bWpa2 <;> rfl
  · rw [hfive] at htype hmic hsecure
    simp only [WpaAdapter.ackedKeyAction, htype, hmic, hsecure, herror, hrequest]
    cases e.bWpa2 <;> rfl

/-- An answer of a station goes to the action that it is for. -/
theorem answeredKeyAction_built (hm : Built e a m) :
    (a.msgType = eapolPairMsg2 → m.keyDataLen ≠ 0 →
        ad.answeredKeyAction env m = ad.peerPairMsg2Action env m) ∧
      (a.msgType = eapolPairMsg4 → ad.answeredKeyAction env m = ad.peerPairMsg4Action env m) ∧
        (a.msgType = eapolGroupMsg2 → ad.answeredKeyAction env m = ad.peerGroupMsg2Action m) := by
  have hempty := hm.isMessage.empty
  obtain ⟨keyData, mic, -, hm⟩ := hm.data
  obtain ⟨-, htype, -, hmic, hsecure, -, -⟩ := a.keyInfo_bits e
  have hinfo : m.keyInfo = a.keyInfo e := by rw [hm]; rfl
  rw [← hinfo] at htype hmic hsecure
  refine ⟨fun htwo hdata => ?_, fun hfour => ?_, fun hsix => ?_⟩
  · rw [htwo] at htype hsecure
    have hopen : (¬(m.keyInfo.secure = true) ∧ m.keyDataLen ≠ 0) := by
      refine ⟨?_, hdata⟩
      rw [hsecure]
      cases e.bWpa2 <;> decide
    rw [WpaAdapter.answeredKeyAction, htype, if_pos (by decide), if_pos hopen]
  · have hnone := hempty (.inl hfour)
    have hclosed : ¬(¬(m.keyInfo.secure = true) ∧ m.keyDataLen ≠ 0) := fun h => h.2 hnone
    rw [hfour] at htype
    rw [WpaAdapter.answeredKeyAction, htype, if_pos (by decide), if_neg hclosed]
  · rw [hsix] at htype hsecure
    simp only [WpaAdapter.answeredKeyAction, htype, hsecure]
    cases e.bWpa2 <;> rfl

end Dispatch

section Actions
variable {ad : WpaAdapter} {mbss : Mbss} {cfg : StaCfg} {env : Env} {p : EapolPacket}

theorem wpaStart4WayHs_sends (ad : WpaAdapter) (env : Env) (hmode : ad.mode = .ap mbss)
    (hclient : ad.client = true)
    (hlow : WpaState.initPmk.code ≤ ad.entry.wpaState.code)
    (hhigh : ad.entry.wpaState.code ≤ WpaState.ptkStart.code) (timeInterval : ℕ) :
    ∃ m, Built { ad.entry.countUp with aNonce := env.random }
        (mbss.msg1Args { ad.entry.countUp with aNonce := env.random }) m ∧
      ad.wpaStart4WayHs env timeInterval =
        some ({ ad with entry := { ad.entry.countUp with aNonce := env.random, wpaState := .ptkStart } },
          [.send m !ad.entry.portSecured, .modTimer timeInterval]) := by
  obtain ⟨m, hm⟩ := constructEapolMsg_some { ad.entry.countUp with aNonce := env.random }
    (mbss.msg1Args { ad.entry.countUp with aNonce := env.random })
  have hready : ¬(¬ad.client = true ∨ WpaState.ptkStart.code < ad.entry.wpaState.code ∨
      ad.entry.wpaState.code < WpaState.initPmk.code) := by
    rintro (h | h | h)
    · exact h hclient
    · exact Nat.not_lt.mpr hhigh h
    · exact Nat.not_lt.mpr hlow h
  refine ⟨m, constructEapolMsg_built hm, ?_⟩
  simp only [WpaAdapter.wpaStart4WayHs, hmode, if_neg hready, Option.bind_eq_bind, hm, Option.bind_some]
  rfl

/-- The access point answers an EAPOL-Start with message 1, with a counter of one. -/
theorem wpaEapolStartAction_sends (env : Env) (hmode : ad.mode = .ap mbss) (hlistens : ad.Listens)
    (hclosed : ad.entry.portSecured = false) (hstate : ad.entry.wpaState.code < WpaState.ptkStart.code) :
    ∃ e m, Built e (mbss.msg1Args e) m ∧ ad.entry.SameStation e ∧ e.ptk = ad.entry.ptk ∧
      beNat e.rCounter.toList = 1 ∧ e.aNonce = env.random ∧ e.portSecured = false ∧ e.assoc = true ∧
        ad.wpaEapolStartAction env = some ({ ad with entry := { e with wpaState := .ptkStart } },
          [.send m true, .modTimer peerMsg1RetryExecIntv]) := by
  obtain ⟨m, hm, hstart⟩ := wpaStart4WayHs_sends { ad with entry := { ad.entry with
    acceptAll := false, wpaState := .initPsk, portSecured := false, rCounter := Vector.replicate 8 0
    reTryCounter := 0 } } env hmode hlistens.client
    (show WpaState.initPmk.code ≤ WpaState.initPsk.code by decide)
    (show WpaState.initPsk.code ≤ WpaState.ptkStart.code by decide) peerMsg1RetryExecIntv
  have hready : ad.client = true ∧ ¬ad.entry.portSecured = true ∧
      ad.entry.wpaState.code < WpaState.ptkStart.code ∧
        (ad.entry.authMode = .wpaPsk ∨ ad.entry.authMode = .wpa2Psk) :=
    ⟨hlistens.client, by rw [hclosed]; decide, hstate, hlistens.psk⟩
  have hone : beNat (addOneTo64BitVar (Vector.replicate 8 0)).toList = 1 := by
    rw [addOneTo64BitVar_toNat]
    rfl
  refine ⟨_, m, hm, ⟨rfl, rfl, rfl⟩, rfl, hone, rfl, rfl, hlistens.assoc, ?_⟩
  simp only [WpaAdapter.wpaEapolStartAction, if_pos hready]
  exact hstart

/-- The station answers message 1 with message 2, under the key of the two nonces. -/
theorem peerPairMsg1Action_answers (env : Env) (hmode : ad.mode = .sta cfg)
    (hreplay : replayDiff ad.entry p eapolPairMsg1 = false) :
    ∃ ptk e m, ptkOf cfg.pmk p.keyNonce env.random ad.entry.addr cfg.currentAddress = some ptk ∧
      e = { ad.entry with
        rCounter := p.replayCounter, aNonce := p.keyNonce, sNonce := env.random, ptk := ptk
        wpaState := .ptkInitNegotiating } ∧
      Built e (cfg.msg2Args e) m ∧
        ad.peerPairMsg1Action env p = some ({ ad with entry := e }, [.send m true]) := by
  obtain ⟨ptk, hptk, hderive⟩ := derivePtk_some { ad.entry with
    rCounter := p.replayCounter, aNonce := p.keyNonce, sNonce := env.random } cfg.pmk ad.entry.addr
    cfg.currentAddress
  obtain ⟨m, hm⟩ := constructEapolMsg_some { ad.entry with
    rCounter := p.replayCounter, aNonce := p.keyNonce, sNonce := env.random, ptk := ptk
    wpaState := .ptkInitNegotiating } (cfg.msg2Args { ad.entry with
    rCounter := p.replayCounter, aNonce := p.keyNonce, sNonce := env.random, ptk := ptk
    wpaState := .ptkInitNegotiating })
  have hlong : ¬p.msgLen < 99 := Nat.not_lt.mpr (Nat.le_add_right 99 _)
  have hsanity : peerWpaMessageSanity ad.entry p eapolPairMsg1 = some (.accepted none) := by
    rw [peerWpaMessageSanity, if_neg (by rw [hreplay]; decide), if_pos rfl]
  refine ⟨ptk, _, m, hptk, rfl, constructEapolMsg_built hm, ?_⟩
  simp only [WpaAdapter.peerPairMsg1Action, hmode, if_neg hlong, hsanity, Option.bind_eq_bind,
    Option.bind_some, hderive, hm]

/-- The access point answers message 2 with message 3, where it makes the same key. -/
theorem peerPairMsg2Action_answers (env : Env) (hmode : ad.mode = .ap mbss)
    (hstate : WpaState.ptkStart.code ≤ ad.entry.wpaState.code) {ptk : Vector UInt8 64}
    (hptk : ptkOf mbss.pmk ad.entry.aNonce p.keyNonce mbss.bssid ad.entry.addr = some ptk)
    (hcounter : p.replayCounter = ad.entry.rCounter) (hvalid : MicValid ptk p)
    (hshort : p.keyDataLen.toNat ≤ maxLenOfRsnIe) :
    ∃ e m, e = { ad.entry.countUp with
        sNonce := p.keyNonce, ptk := ptk, wpaState := .ptkInitNegotiating } ∧
      Built e (mbss.msg3Args e env) m ∧
        ad.peerPairMsg2Action env p =
          some ({ ad with entry := { e with reTryCounter := peerMsg3RetryTimerCtr } },
            [.cancelTimer, .send m !e.portSecured, .modTimer peerMsg3RetryExecIntv]) := by
  obtain ⟨ptk', hptk', hderive⟩ := derivePtk_some { ad.entry with sNonce := p.keyNonce } mbss.pmk
    mbss.bssid ad.entry.addr
  obtain rfl : ptk = ptk' := Option.some.inj (hptk.symm.trans hptk')
  have hlong : ¬(p.msgLen < 99 ∨ ad.entry.wpaState.code < WpaState.ptkStart.code) := by
    rintro (h | h)
    · exact Nat.not_lt.mpr (Nat.le_add_right 99 _) h
    · exact Nat.not_lt.mpr hstate h
  have hreplay : replayDiff { ad.entry with sNonce := p.keyNonce, ptk := ptk } p eapolPairMsg2 = false :=
    replayDiff_same (by decide) hcounter
  have hsanity := sanity_msg2 hreplay hvalid hshort
  obtain ⟨m, hm⟩ := constructEapolMsg_some
    { ad.entry.countUp with sNonce := p.keyNonce, ptk := ptk, wpaState := .ptkInitNegotiating }
    (mbss.msg3Args { ad.entry.countUp with
      sNonce := p.keyNonce, ptk := ptk, wpaState := .ptkInitNegotiating } env)
  refine ⟨_, m, rfl, constructEapolMsg_built hm, ?_⟩
  simp only [MacEntry.countUp] at hm
  simp only [WpaAdapter.peerPairMsg2Action, if_neg hlong, hmode, Option.bind_eq_bind, hderive,
    Option.bind_some, hsanity, MacEntry.countUp, hm]

/-- The station answers message 3 with message 4 and installs its key. -/
theorem peerPairMsg3Action_answers (hmode : ad.mode = .sta cfg) (hcipher : ad.entry.HasCipher)
    {groupKey : Option (List UInt8 × UInt8)}
    (hsanity : peerWpaMessageSanity ad.entry p eapolPairMsg3 = some (.accepted groupKey))
    (hnonce : p.keyNonce = ad.entry.aNonce) :
    ∃ m, Built { ad.entry with rCounter := p.replayCounter }
        (.plain (cfg.installGroupKey groupKey).1.groupCipher eapolPairMsg4 0) m ∧
      ad.peerPairMsg3Action p = some
        ({ ad with
            mode := .sta { (cfg.installGroupKey groupKey).1 with
              ptk := ad.entry.ptk
              portSecured := ad.entry.bWpa2 || (cfg.installGroupKey groupKey).1.portSecured }
            entry := { ad.entry with
              rCounter := p.replayCounter
              wpaState := .ptkInitDone
              pairwiseKey := ad.entry.pairwiseKeyOf false
              portSecured := ad.entry.bWpa2 || ad.entry.portSecured
              acceptAll := ad.entry.bWpa2 || ad.entry.acceptAll } },
          (cfg.installGroupKey groupKey).2 ++ [.installPairwise (ad.entry.pairwiseKeyOf false)] ++
            [.send m true]) := by
  obtain ⟨m, hm⟩ := constructEapolMsg_some { ad.entry with rCounter := p.replayCounter }
    (.plain (cfg.installGroupKey groupKey).1.groupCipher eapolPairMsg4 0)
  have hlong : ¬p.msgLen < 99 := Nat.not_lt.mpr (Nat.le_add_right 99 _)
  have hsame : ¬(ad.entry.aNonce ≠ p.keyNonce) := not_not.mpr hnonce.symm
  refine ⟨m, constructEapolMsg_built hm, ?_⟩
  simp only [WpaAdapter.peerPairMsg3Action, hmode, if_neg hlong, hsanity, Option.bind_eq_bind,
    Option.bind_some, if_neg hsame, hm, wpaInstallPairwiseKey_eq (show MacEntry.HasCipher { ad.entry with
      rCounter := p.replayCounter, wpaState := .ptkInitDone } from hcipher)]
  cases hwpa2 : ad.entry.bWpa2 with
  | true => exact (if_pos hwpa2).trans rfl
  | false => exact (if_neg (ne_true_of_eq_false hwpa2)).trans rfl

/-- The access point opens the port on message 4, and outside WPA2 sends the group key next. -/
theorem peerPairMsg4Action_installs (env : Env) (hmode : ad.mode = .ap mbss)
    (hclient : ad.client = true) (hcipher : ad.entry.HasCipher)
    (hstate : WpaState.ptkInitNegotiating.code ≤ ad.entry.wpaState.code)
    (hcounter : p.replayCounter = ad.entry.rCounter) (hvalid : MicValid ad.entry.ptk p) :
    ∃ e, e = { ad.entry with
        pairwiseKey := ad.entry.pairwiseKeyOf true
        acceptAll := true
        wpaState := .ptkInitDone
        portSecured := true } ∧
      if e.bWpa2 then
        ad.peerPairMsg4Action env p = some ({ ad with entry := { e with rekeyEstablished := true } },
          [.installPairwise (ad.entry.pairwiseKeyOf true), .cancelTimer, .event .setKeyDoneWpa2])
      else ∃ m, Built e.countUp (mbss.groupMsg1Args env) m ∧
        ad.peerPairMsg4Action env p =
          some ({ ad with entry := { e.countUp with reTryCounter := groupMsg1RetryTimerCtr } },
            [.installPairwise (ad.entry.pairwiseKeyOf true), .send m false,
              .modTimer peerMsg3RetryExecIntv]) := by
  have hlong : ¬(p.msgLen < 99 ∨ ad.entry.wpaState.code < WpaState.ptkInitNegotiating.code) := by
    rintro (h | h)
    · exact Nat.not_lt.mpr (Nat.le_add_right 99 _) h
    · exact Nat.not_lt.mpr hstate h
  have hsanity : peerWpaMessageSanity ad.entry p eapolPairMsg4 = some (.accepted none) :=
    sanity_empty (replayDiff_same (by decide) hcounter) hvalid (.inr (.inl rfl))
  refine ⟨_, rfl, ?_⟩
  simp only [WpaAdapter.peerPairMsg4Action, if_neg hlong, hsanity, Option.bind_eq_bind, Option.bind_some,
    wpaInstallPairwiseKey_eq hcipher]
  split
  · rfl
  · obtain ⟨m, hm⟩ := constructEapolMsg_some
      ({ ad.entry with
        pairwiseKey := ad.entry.pairwiseKeyOf true, acceptAll := true, wpaState := .ptkInitDone
        portSecured := true } : MacEntry).countUp (mbss.groupMsg1Args env)
    refine ⟨m, constructEapolMsg_built hm, ?_⟩
    simp only [WpaAdapter.wpaStart2WayGroupHs, hclient, hmode, Option.bind_eq_bind, hm, Option.bind_some]
    rfl

/-- The station takes the group key of group message 1 and opens the port. -/
theorem peerGroupMsg1Action_answers (hmode : ad.mode = .sta cfg) {groupKey : List UInt8 × UInt8}
    (hsanity : peerWpaMessageSanity ad.entry p eapolGroupMsg1 = some (.accepted (some groupKey))) :
    ∃ m, Built { ad.entry with rCounter := p.replayCounter }
        (.plain cfg.groupCipher eapolGroupMsg2 cfg.defaultKeyId) m ∧
      ad.peerGroupMsg1Action p = some
        ({ ad with
            mode := .sta { cfg with gtk := groupKey.1, defaultKeyId := groupKey.2, portSecured := true }
            entry := { ad.entry with rCounter := p.replayCounter, portSecured := true, acceptAll := true } },
          [.installShared groupKey.1 groupKey.2, .send m false]) := by
  obtain ⟨m, hm⟩ := constructEapolMsg_some { ad.entry with rCounter := p.replayCounter }
    (.plain cfg.groupCipher eapolGroupMsg2 cfg.defaultKeyId)
  refine ⟨m, constructEapolMsg_built hm, ?_⟩
  simp only [WpaAdapter.peerGroupMsg1Action, hmode, hsanity, Option.bind_eq_bind, Option.bind_some,
    StaCfg.installGroupKey, hm]
  rfl

/-- The access point is done when it gets group message 2. -/
theorem peerGroupMsg2Action_done (hstate : ad.entry.wpaState = .ptkInitDone)
    (hcounter : p.replayCounter = ad.entry.rCounter) (hvalid : MicValid ad.entry.ptk p) :
    ∃ flag, ad.peerGroupMsg2Action p = some ({ ad with entry := { ad.entry with rekeyEstablished := true } },
      [.cancelTimer, .event flag]) := by
  have hlong : ¬(p.msgLen < 99 ∨ ad.entry.wpaState ≠ .ptkInitDone) := by
    rintro (h | h)
    · exact Nat.not_lt.mpr (Nat.le_add_right 99 _) h
    · exact h hstate
  have hsanity : peerWpaMessageSanity ad.entry p eapolGroupMsg2 = some (.accepted none) :=
    sanity_empty (replayDiff_same (by decide) hcounter) hvalid (.inr (.inr rfl))
  simp only [WpaAdapter.peerGroupMsg2Action, if_neg hlong, hsanity, Option.bind_eq_bind, Option.bind_some]
  exact ⟨_, rfl⟩

end Actions

/-- Messages of both sides that all arrive: one of an access point goes to the station, one of a station to
the access point. -/
def exchange : List Env → WpaAdapter → WpaAdapter → List EapolPacket → Option (WpaAdapter × WpaAdapter)
  | _, ap, sta, [] => some (ap, sta)
  | [], _, _, _ :: _ => none
  | env :: envs, ap, sta, p :: rest =>
    if p.keyInfo.keyAck then
      (sta.wpaEapolKeyAction env p).bind fun r => exchange envs ap r.1 (rest ++ sentOf r.2)
    else (ap.wpaEapolKeyAction env p).bind fun r => exchange envs r.1 sta (rest ++ sentOf r.2)

/-- An EAPOL-Start at the access point, and what follows. -/
def handshake (env : Env) (envs : List Env) (ap sta : WpaAdapter) : Option (WpaAdapter × WpaAdapter) :=
  (ap.wpaEapolStartAction env).bind fun r => exchange envs r.1 sta (sentOf r.2)

/-- An access point and a station of one network with a pre-shared key. -/
structure Partners (ap sta : WpaAdapter) (mbss : Mbss) (cfg : StaCfg) : Prop where
  apMode : ap.mode = .ap mbss
  staMode : sta.mode = .sta cfg
  apListens : ap.Listens
  staListens : sta.Listens
  authMode : sta.entry.authMode = ap.entry.authMode
  wepStatus : sta.entry.wepStatus = ap.entry.wepStatus
  apGroup : ap.entry.wepStatus = .encryption2Enabled → mbss.groupKeyWepStatus ≠ .encryption3Enabled
  staGroup : ap.entry.wepStatus = .encryption2Enabled → cfg.groupCipher ≠ .encryption3Enabled
  apAddr : ap.entry.addr = cfg.currentAddress
  staAddr : sta.entry.addr = mbss.bssid
  pmk : cfg.pmk = mbss.pmk
  rsn : cfg.rsnIeLen ≠ 0
  short : cfg.rsnIeLen.toNat ≤ 253
  sends : mbss.SendsKeys

/-- Both sides have one pairwise key, with the keys for Michael the other way round, open ports, and the
group key of the access point. -/
structure Agree (ap sta : WpaAdapter) (mbss : Mbss) (cfg : StaCfg) (ptk : Vector UInt8 64) : Prop where
  apPtk : ap.entry.ptk = ptk
  staPtk : sta.entry.ptk = ptk
  apKey : ap.entry.pairwiseKey = ap.entry.pairwiseKeyOf true
  staKey : sta.entry.pairwiseKey = sta.entry.pairwiseKeyOf false
  apDone : ap.entry.wpaState = .ptkInitDone
  rekeyed : ap.entry.rekeyEstablished = true
  counter : sta.entry.rCounter = ap.entry.rCounter
  apPort : ap.entry.portSecured = true
  staPort : cfg.portSecured = true
  gtk : cfg.gtk = mbss.gtk.toList.take (gtkLenOf mbss.groupKeyWepStatus).toNat
  index : cfg.defaultKeyId = mbss.defaultKeyId

/-- What the keys of both sides have of each other. -/
theorem Agree.keys {ap sta : WpaAdapter} {mbss : Mbss} {cfg : StaCfg} {ptk : Vector UInt8 64}
    (h : Agree ap sta mbss cfg ptk) (hstatus : sta.entry.wepStatus = ap.entry.wepStatus) :
    sta.entry.pairwiseKey.cipherAlg = ap.entry.pairwiseKey.cipherAlg ∧
      sta.entry.pairwiseKey.key = ap.entry.pairwiseKey.key ∧
        sta.entry.pairwiseKey.txMic = ap.entry.pairwiseKey.rxMic ∧
          sta.entry.pairwiseKey.rxMic = ap.entry.pairwiseKey.txMic := by
  rw [h.apKey, h.staKey]
  simp only [MacEntry.pairwiseKeyOf, h.apPtk, h.staPtk, hstatus]
  split
  · exact ⟨rfl, rfl, rfl, rfl⟩
  · split <;> exact ⟨rfl, rfl, rfl, rfl⟩

section Exchange
variable {ap sta : WpaAdapter} {mbss : Mbss} {cfg : StaCfg} {e : MacEntry} {a : MsgArgs} {m : EapolPacket}
  {env : Env} {envs : List Env} {r : WpaAdapter × List Effect} {rest : List EapolPacket}

/-- A message of the access point gets to its action. -/
theorem wpaEapolKeyAction_acked (env : Env) (hm : Built e a m) (hack : a.msgType = eapolPairMsg1 ∨
    a.msgType = eapolPairMsg3 ∨ a.msgType = eapolGroupMsg1) (htaken : sta.keyFrameTaken m = true) :
    sta.wpaEapolKeyAction env m = sta.ackedKeyAction env m := by
  have hflag : m.keyInfo.keyAck = true := hm.isMessage.keyAck.trans (decide_eq_true hack)
  rw [WpaAdapter.wpaEapolKeyAction, if_neg (not_not.mpr htaken), if_pos hflag]

/-- A message of the station gets to its action. -/
theorem wpaEapolKeyAction_answered (env : Env) (hm : Built e a m) (hmode : ap.mode = .ap mbss)
    (hanswer : a.msgType = eapolPairMsg2 ∨ a.msgType = eapolPairMsg4 ∨ a.msgType = eapolGroupMsg2)
    (htaken : ap.keyFrameTaken m = true) :
    ap.wpaEapolKeyAction env m = ap.answeredKeyAction env m := by
  have hflag : ¬m.keyInfo.keyAck = true := by
    rw [hm.isMessage.keyAck, decide_eq_true_iff]
    rcases hanswer with h | h | h <;> rw [h] <;> decide
  have hmic : m.keyInfo.keyMic = true := by
    rw [hm.isMessage.keyMic, decide_eq_true_iff]
    rcases hanswer with h | h | h <;> rw [h] <;> decide
  obtain ⟨keyData, mic, -, hpacket⟩ := hm.data
  obtain ⟨-, -, -, -, -, herror, hrequest⟩ := a.keyInfo_bits e
  have hinfo : m.keyInfo = a.keyInfo e := by rw [hpacket]; rfl
  rw [← hinfo] at herror hrequest
  rw [WpaAdapter.wpaEapolKeyAction, if_neg (not_not.mpr htaken), if_neg hflag, hmode]
  simp only [hmic, herror, hrequest]
  rfl

theorem exchange_toSta (hm : Built e a m) (hack : a.msgType = eapolPairMsg1 ∨ a.msgType = eapolPairMsg3 ∨
    a.msgType = eapolGroupMsg1) (h : sta.wpaEapolKeyAction env m = some r) :
    exchange (env :: envs) ap sta (m :: rest) = exchange envs ap r.1 (rest ++ sentOf r.2) := by
  have hflag : m.keyInfo.keyAck = true := hm.isMessage.keyAck.trans (decide_eq_true hack)
  rw [exchange, if_pos hflag, h, Option.bind_some]

theorem exchange_toAp (hm : Built e a m) (hanswer : a.msgType = eapolPairMsg2 ∨ a.msgType = eapolPairMsg4 ∨
    a.msgType = eapolGroupMsg2) (h : ap.wpaEapolKeyAction env m = some r) :
    exchange (env :: envs) ap sta (m :: rest) = exchange envs r.1 sta (rest ++ sentOf r.2) := by
  have hflag : ¬m.keyInfo.keyAck = true := by
    rw [hm.isMessage.keyAck, decide_eq_true_iff]
    rcases hanswer with h | h | h <;> rw [h] <;> decide
  rw [exchange, if_neg hflag, h, Option.bind_some]

theorem exchange_nil : exchange envs ap sta [] = some (ap, sta) := by
  cases envs <;> rfl

theorem EapolPacket.SameText.refl (p : EapolPacket) : p.SameText p :=
  ⟨.refl _, .refl _, .refl _, .refl _, .refl _, List.take_length⟩

/-- The count of a timer is no part of a message. -/
theorem Built.retry (h : Built e a m) (reTryCounter : ℕ) :
    Built { e with reTryCounter := reTryCounter } a m :=
  ⟨h.data, h.mic⟩

theorem WpaAdapter.Listens.next {ad ad' : WpaAdapter} (h : ad.Listens) (hclient : ad'.client = ad.client)
    (hsame : ad.entry.SameStation ad'.entry) (hassoc : ad'.entry.assoc = ad.entry.assoc)
    (hstate : WpaState.initPsk.code ≤ ad'.entry.wpaState.code) : ad'.Listens where
  client := hclient.trans h.client
  psk := by
    rw [hsame.authMode]
    exact h.psk
  cipher := by
    rw [MacEntry.HasCipher, hsame.wepStatus]
    exact h.cipher
  assoc := hassoc.trans h.assoc
  state := hstate

/-- Partners stay partners. -/
theorem Partners.next (h : Partners ap sta mbss cfg) {ap' sta' : WpaAdapter} {cfg' : StaCfg}
    (hapMode : ap'.mode = .ap mbss) (hstaMode : sta'.mode = .sta cfg') (hnetwork : cfg.SameNetwork cfg')
    (hap : ap.entry.SameStation ap'.entry) (hsta : sta.entry.SameStation sta'.entry)
    (hapListens : ap'.Listens) (hstaListens : sta'.Listens) : Partners ap' sta' mbss cfg' where
  apMode := hapMode
  staMode := hstaMode
  apListens := hapListens
  staListens := hstaListens
  authMode := hsta.authMode.trans (h.authMode.trans hap.authMode.symm)
  wepStatus := hsta.wepStatus.trans (h.wepStatus.trans hap.wepStatus.symm)
  apGroup := fun hcipher => h.apGroup (hap.wepStatus ▸ hcipher)
  staGroup := fun hcipher => hnetwork.groupCipher ▸ h.staGroup (hap.wepStatus ▸ hcipher)
  apAddr := hap.addr.trans (h.apAddr.trans hnetwork.currentAddress.symm)
  staAddr := hsta.addr.trans h.staAddr
  pmk := hnetwork.pmk.trans h.pmk
  rsn := hnetwork.rsnIeLen ▸ h.rsn
  short := hnetwork.rsnIeLen ▸ h.short
  sends := h.sends

theorem Partners.bWpa2 (h : Partners ap sta mbss cfg) : sta.entry.bWpa2 = ap.entry.bWpa2 := by
  simp only [MacEntry.bWpa2, h.authMode]

/-- A station gets the group key of group message 1, and the access point its answer. -/
theorem exchange_groupMsg1 (h : Partners ap sta mbss cfg) {env' : Env}
    (hm : Built ap.entry (mbss.groupMsg1Args env') m) (hptk : sta.entry.ptk = ap.entry.ptk)
    (hdone : ap.entry.wpaState = .ptkInitDone)
    (hlt : beNat sta.entry.rCounter.toList < beNat ap.entry.rCounter.toList) (env₁ env₂ : Env)
    (envs : List Env) : exchange (env₁ :: env₂ :: envs) ap sta [m] = some
      ({ ap with entry := { ap.entry with rekeyEstablished := true } },
        { sta with
          mode := .sta { cfg with
            gtk := mbss.gtk.toList.take (gtkLenOf mbss.groupKeyWepStatus).toNat
            defaultKeyId := mbss.defaultKeyId
            portSecured := true }
          entry := { sta.entry with
            rCounter := ap.entry.rCounter, portSecured := true, acceptAll := true } }) := by
  have hmessage := hm.isMessage
  have hcounter : m.replayCounter = ap.entry.rCounter := hmessage.counter
  have hreplay : replayDiff sta.entry m eapolGroupMsg1 = false := by
    apply replayDiff_newer (.inr (.inr rfl))
    rw [hcounter]
    exact hlt
  have hvalid : MicValid sta.entry.ptk m :=
    hptk ▸ hmessage.valid (show eapolGroupMsg1 ≠ eapolPairMsg1 by decide)
  have hgroupKey : (mbss.groupMsg1Args env').groupKey =
      (mbss.gtk.toList.take (gtkLenOf mbss.groupKeyWepStatus).toNat, mbss.defaultKeyId) :=
    congrArg (·, mbss.defaultKeyId) (read_keyMemory mbss.gtk mbss.groupKeyWepStatus)
  have hsanity := sanity_wrapped hm (groupMsg1Args_sendsKey h.sends env') (.inr rfl) (.refl m) hptk h.bWpa2
    hreplay hvalid
  rw [hgroupKey] at hsanity
  obtain ⟨m₂, hm₂, hanswer⟩ := peerGroupMsg1Action_answers h.staMode hsanity
  have htaken := keyFrameTaken_built h.staListens hm h.wepStatus.symm h.apGroup
  have hstep := (wpaEapolKeyAction_acked env₁ hm (.inr (.inr rfl)) htaken).trans
    (((ackedKeyAction_built hm).2.2 rfl).trans hanswer)
  rw [exchange_toSta hm (.inr (.inr rfl)) hstep]
  -- the answer
  have htaken₂ := keyFrameTaken_built h.apListens hm₂ h.wepStatus fun hcipher =>
    h.staGroup (h.wepStatus ▸ hcipher)
  have hvalid₂ : MicValid ap.entry.ptk m₂ :=
    hptk ▸ hm₂.isMessage.valid (show eapolGroupMsg2 ≠ eapolPairMsg1 by decide)
  obtain ⟨flag, hlast⟩ := peerGroupMsg2Action_done hdone (hm₂.isMessage.counter.trans hcounter) hvalid₂
  have hstep₂ := (wpaEapolKeyAction_answered env₂ hm₂ h.apMode (.inr (.inr rfl)) htaken₂).trans
    (((answeredKeyAction_built hm₂).2.2 rfl).trans hlast)
  rw [hcounter]
  exact (exchange_toAp hm₂ (.inr (.inr rfl)) hstep₂).trans exchange_nil

/-- The access point answers message 2 of its partner. -/
theorem msg2_answered (h : Partners ap sta mbss cfg) (hm : Built sta.entry (cfg.msg2Args sta.entry) m)
    (hcounter : sta.entry.rCounter = ap.entry.rCounter)
    (hstate : WpaState.ptkStart.code ≤ ap.entry.wpaState.code)
    (hptk : ptkOf mbss.pmk ap.entry.aNonce sta.entry.sNonce mbss.bssid ap.entry.addr =
      some sta.entry.ptk) (env : Env) :
    ∃ e m₃, e = { ap.entry.countUp with
        sNonce := sta.entry.sNonce
        ptk := sta.entry.ptk
        wpaState := .ptkInitNegotiating
        reTryCounter := peerMsg3RetryTimerCtr } ∧
      Built e (mbss.msg3Args e env) m₃ ∧
        ap.wpaEapolKeyAction env m = some ({ ap with entry := e },
          [.cancelTimer, .send m₃ !e.portSecured, .modTimer peerMsg3RetryExecIntv]) := by
  have hmessage := hm.isMessage
  have hnonce : m.keyNonce = sta.entry.sNonce := by
    obtain ⟨keyData, mic, -, rfl⟩ := hm.data
    rfl
  have hvalid : MicValid sta.entry.ptk m := hmessage.valid (show eapolPairMsg2 ≠ eapolPairMsg1 by decide)
  obtain ⟨e, m₃, he, hm₃, hanswer⟩ := peerPairMsg2Action_answers env h.apMode hstate (hnonce ▸ hptk)
    (hmessage.counter.trans hcounter) hvalid (msg2_short hm h.short)
  rw [hnonce] at he
  have htaken := keyFrameTaken_built h.apListens hm h.wepStatus fun hcipher =>
    h.staGroup (h.wepStatus ▸ hcipher)
  have hdata := (msg2_data hm h.rsn).1
  refine ⟨{ e with reTryCounter := peerMsg3RetryTimerCtr }, m₃, by rw [he], hm₃.retry _, ?_⟩
  exact (wpaEapolKeyAction_answered env hm h.apMode (.inl rfl) htaken).trans
    (((answeredKeyAction_built hm).1 rfl hdata).trans hanswer)

/-- The station answers message 3 of its partner and installs the key. -/
theorem msg3_answered (h : Partners ap sta mbss cfg) {env' : Env}
    (hm : Built ap.entry (mbss.msg3Args ap.entry env') m) (hptk : sta.entry.ptk = ap.entry.ptk)
    (hnonce : sta.entry.aNonce = ap.entry.aNonce)
    (hlt : beNat sta.entry.rCounter.toList < beNat ap.entry.rCounter.toList) (env : Env) :
    ∃ e cfg' m₄ fx, e = { sta.entry with
        rCounter := ap.entry.rCounter
        wpaState := .ptkInitDone
        pairwiseKey := sta.entry.pairwiseKeyOf false
        portSecured := sta.entry.bWpa2 || sta.entry.portSecured
        acceptAll := sta.entry.bWpa2 || sta.entry.acceptAll } ∧
      cfg.SameNetwork cfg' ∧
      (sta.entry.bWpa2 = true → cfg'.portSecured = true ∧ cfg'.defaultKeyId = mbss.defaultKeyId ∧
        cfg'.gtk = mbss.gtk.toList.take (gtkLenOf mbss.groupKeyWepStatus).toNat) ∧
      Built e (.plain cfg.groupCipher eapolPairMsg4 0) m₄ ∧ sentOf fx = [m₄] ∧ installs fx = true ∧
        (sta.entry.bWpa2 = true → sharedOf fx ≠ []) ∧
          sta.wpaEapolKeyAction env m = some ({ sta with mode := .sta cfg', entry := e }, fx) := by
  have hmessage := hm.isMessage
  have hcounter : m.replayCounter = ap.entry.rCounter := hmessage.counter
  have hnonce' : m.keyNonce = sta.entry.aNonce := by
    obtain ⟨keyData, mic, -, rfl⟩ := hm.data
    exact hnonce.symm
  have hreplay : replayDiff sta.entry m eapolPairMsg3 = false := by
    apply replayDiff_newer (.inr (.inl rfl))
    rw [hcounter]
    exact hlt
  have hvalid : MicValid sta.entry.ptk m :=
    hptk ▸ hmessage.valid (show eapolPairMsg3 ≠ eapolPairMsg1 by decide)
  have hsends := msg3Args_sendsKey h.sends ap.entry env'
  have hgroupKey : (mbss.msg3Args ap.entry env').groupKey =
      (mbss.gtk.toList.take (gtkLenOf mbss.groupKeyWepStatus).toNat, mbss.defaultKeyId) :=
    congrArg (·, mbss.defaultKeyId) (read_keyMemory mbss.gtk mbss.groupKeyWepStatus)
  -- in WPA2 mode the message brings the group key
  obtain ⟨groupKey, hsanity, hbrings⟩ : ∃ groupKey,
      peerWpaMessageSanity sta.entry m eapolPairMsg3 = some (.accepted groupKey) ∧
        (sta.entry.bWpa2 = true → groupKey =
          some (mbss.gtk.toList.take (gtkLenOf mbss.groupKeyWepStatus).toNat, mbss.defaultKeyId)) := by
    cases hmode : ap.entry.bWpa2 with
    | true =>
      have htaken := sanity_wrapped hm hsends (.inl ⟨rfl, hmode⟩) (.refl m) hptk h.bWpa2 hreplay hvalid
      rw [hgroupKey] at htaken
      exact ⟨_, htaken, fun _ => rfl⟩
    | false =>
      have htaken := sanity_msg3_wpa hm hsends rfl hmode (.refl m) h.bWpa2 hreplay hvalid
      refine ⟨none, htaken, fun hwpa2 => ?_⟩
      rw [h.bWpa2, hmode] at hwpa2
      cases hwpa2
  obtain ⟨m₄, hm₄, hanswer⟩ := peerPairMsg3Action_answers h.staMode h.staListens.cipher hsanity hnonce'
  have hnetwork := (installGroupKey_eq cfg groupKey).1
  rw [hcounter] at hm₄ hanswer
  rw [hnetwork.groupCipher] at hm₄
  have htaken := keyFrameTaken_built h.staListens hm h.wepStatus.symm h.apGroup
  obtain ⟨-, hsent, hinstalls, -⟩ := installGroupKey_eq cfg groupKey
  refine ⟨_, { (cfg.installGroupKey groupKey).1 with
      ptk := sta.entry.ptk
      portSecured := sta.entry.bWpa2 || (cfg.installGroupKey groupKey).1.portSecured }, m₄, _, rfl,
    ⟨hnetwork.1, hnetwork.2, hnetwork.3, hnetwork.4, hnetwork.5⟩, fun hwpa2 => ?_,
    ⟨hm₄.data, hm₄.mic⟩, ?_, ?_, fun hwpa2 => ?_,
    (wpaEapolKeyAction_acked env hm (.inr (.inl rfl)) htaken).trans
      (((ackedKeyAction_built hm).2.1 rfl).trans hanswer)⟩
  · rw [hbrings hwpa2, hwpa2]
    exact ⟨rfl, rfl, rfl⟩
  · simp only [sentOf_append, hsent]
    rfl
  · simp only [installs_append, hinstalls]
    rfl
  · simp only [sharedOf_append, hbrings hwpa2]
    exact List.cons_ne_nil _ _

/-- The access point takes message 4 of its partner, and outside WPA2 sends the group key. -/
theorem msg4_taken (h : Partners ap sta mbss cfg) {status : WepStatus} (hstatus : status = cfg.groupCipher)
    (hm : Built sta.entry (.plain status eapolPairMsg4 0) m) (hptk : sta.entry.ptk = ap.entry.ptk)
    (hcounter : sta.entry.rCounter = ap.entry.rCounter)
    (hstate : WpaState.ptkInitNegotiating.code ≤ ap.entry.wpaState.code) (env : Env) :
    ∃ e, e = { ap.entry with
        pairwiseKey := ap.entry.pairwiseKeyOf true
        acceptAll := true
        wpaState := .ptkInitDone
        portSecured := true } ∧
      if e.bWpa2 then
        ap.wpaEapolKeyAction env m = some ({ ap with entry := { e with rekeyEstablished := true } },
          [.installPairwise (ap.entry.pairwiseKeyOf true), .cancelTimer, .event .setKeyDoneWpa2])
      else ∃ e' m₅, e' = { e.countUp with reTryCounter := groupMsg1RetryTimerCtr } ∧
        Built e' (mbss.groupMsg1Args env) m₅ ∧
          ap.wpaEapolKeyAction env m = some ({ ap with entry := e' },
            [.installPairwise (ap.entry.pairwiseKeyOf true), .send m₅ false,
              .modTimer peerMsg3RetryExecIntv]) := by
  have hmessage := hm.isMessage
  have hvalid : MicValid ap.entry.ptk m :=
    hptk ▸ hmessage.valid (show eapolPairMsg4 ≠ eapolPairMsg1 by decide)
  have htaken := keyFrameTaken_built h.apListens hm h.wepStatus fun hcipher =>
    hstatus ▸ h.staGroup (h.wepStatus ▸ hcipher)
  obtain ⟨e, he, hresult⟩ := peerPairMsg4Action_installs env h.apMode h.apListens.client
    h.apListens.cipher hstate (hmessage.counter.trans hcounter) hvalid
  have hstep := (wpaEapolKeyAction_answered env hm h.apMode (.inr (.inl rfl)) htaken).trans
    ((answeredKeyAction_built hm).2.1 rfl)
  refine ⟨e, he, ?_⟩
  split
  · rename_i hwpa2
    rw [if_pos hwpa2] at hresult
    exact hstep.trans hresult
  · rename_i hwpa2
    rw [if_neg hwpa2] at hresult
    obtain ⟨m₅, hm₅, hanswer⟩ := hresult
    exact ⟨_, m₅, rfl, hm₅.retry _, hstep.trans hanswer⟩

/-- The access point sends message 1, and its partner answers. -/
theorem msg1_answered (h : Partners ap sta mbss cfg) (hclosed : ap.entry.portSecured = false)
    (hstate : ap.entry.wpaState.code < WpaState.ptkStart.code)
    (hcounter : sta.entry.rCounter = Vector.replicate 8 0) (env₀ env₁ : Env) :
    ∃ e₁ e₂ e₁' a₁ m₁ m₂, Built e₁' a₁ m₁ ∧ a₁.msgType = eapolPairMsg1 ∧ m₁.keyNonce = env₀.random ∧
      e₁.ptk = ap.entry.ptk ∧ sta.entry.SameStation e₂ ∧
      Partners { ap with entry := e₁ } { sta with entry := e₂ } mbss cfg ∧
      Built e₂ (cfg.msg2Args e₂) m₂ ∧ e₂.rCounter = e₁.rCounter ∧ beNat e₁.rCounter.toList = 1 ∧
        e₁.aNonce = env₀.random ∧ e₂.aNonce = env₀.random ∧ e₁.wpaState = .ptkStart ∧
          ptkOf mbss.pmk e₁.aNonce e₂.sNonce mbss.bssid e₁.addr = some e₂.ptk ∧
            ptkOf mbss.pmk env₀.random env₁.random mbss.bssid cfg.currentAddress = some e₂.ptk ∧
              ap.wpaEapolStartAction env₀ = some ({ ap with entry := e₁ },
                [.send m₁ true, .modTimer peerMsg1RetryExecIntv]) ∧
              sta.wpaEapolKeyAction env₁ m₁ = some ({ sta with entry := e₂ }, [.send m₂ true]) := by
  obtain ⟨e₁, m₁, hm₁, hsame₁, hkey₁, hone, hnonce₁, -, hassoc₁, hstart⟩ :=
    wpaEapolStartAction_sends env₀ h.apMode h.apListens hclosed hstate
  have hmessage := hm₁.isMessage
  have hnonce : m₁.keyNonce = env₀.random := by
    obtain ⟨keyData, mic, -, rfl⟩ := hm₁.data
    exact hnonce₁
  have hreplay : replayDiff sta.entry m₁ eapolPairMsg1 = false := by
    apply replayDiff_newer (.inl rfl)
    rw [hmessage.counter, hone, hcounter]
    decide
  obtain ⟨ptk, e₂, m₂, hptk, he₂, hm₂, hanswer⟩ := peerPairMsg1Action_answers env₁ h.staMode hreplay
  rw [hnonce, h.staAddr, h.pmk] at hptk
  rw [hnonce, hmessage.counter] at he₂
  have htaken := keyFrameTaken_built h.staListens hm₁ (hsame₁.wepStatus.trans h.wepStatus.symm)
    fun hcipher => h.apGroup (hsame₁.wepStatus ▸ hcipher)
  have hstep := (wpaEapolKeyAction_acked env₁ hm₁ (.inl rfl) htaken).trans
    (((ackedKeyAction_built hm₁).1 rfl).trans hanswer)
  have hap : ap.entry.SameStation { e₁ with wpaState := .ptkStart } :=
    ⟨hsame₁.addr, hsame₁.authMode, hsame₁.wepStatus⟩
  have hsta : sta.entry.SameStation e₂ := by
    rw [he₂]
    exact ⟨rfl, rfl, rfl⟩
  have hpartners : Partners { ap with entry := { e₁ with wpaState := .ptkStart } } { sta with entry := e₂ }
      mbss cfg := by
    refine h.next h.apMode h.staMode .rfl hap hsta ?_ ?_
    · exact h.apListens.next rfl hap (hassoc₁.trans h.apListens.assoc.symm)
        (show WpaState.initPsk.code ≤ WpaState.ptkStart.code by decide)
    · refine h.staListens.next rfl hsta ?_ ?_
      · rw [he₂]
      · rw [he₂]
        exact (show WpaState.initPsk.code ≤ WpaState.ptkInitNegotiating.code by decide)
  have haddr : e₁.addr = cfg.currentAddress := hsame₁.addr.trans h.apAddr
  refine ⟨{ e₁ with wpaState := .ptkStart }, e₂, _, _, m₁, m₂, hm₁, rfl, hnonce, hkey₁, hsta, hpartners, hm₂,
    by rw [he₂], hone, hnonce₁, by rw [he₂], rfl, ?_, by rw [he₂]; exact hptk, hstart, hstep⟩
  rw [he₂, haddr, hnonce₁]
  exact hptk

/-- Message 3 on its way: the rest of the handshake, with the group key handshake outside WPA2. -/
theorem exchange_completes (h : Partners ap sta mbss cfg) {env' : Env}
    (hm : Built ap.entry (mbss.msg3Args ap.entry env') m) (hptk : sta.entry.ptk = ap.entry.ptk)
    (hnonce : sta.entry.aNonce = ap.entry.aNonce) (hstate : ap.entry.wpaState = .ptkInitNegotiating)
    (hlt : beNat sta.entry.rCounter.toList < beNat ap.entry.rCounter.toList)
    (hcounter : beNat ap.entry.rCounter.toList + 1 < 2 ^ 64) (env₁ env₂ env₃ env₄ : Env) :
    ∃ ap' sta' cfg', exchange [env₁, env₂, env₃, env₄] ap sta [m] = some (ap', sta') ∧
      Partners ap' sta' mbss cfg' ∧ Agree ap' sta' mbss cfg' ap.entry.ptk := by
  obtain ⟨e₁, cfg₁, m₁, fx₁, he₁, hnetwork, hgroup, hm₁, hsent, -, -, hstep⟩ :=
    msg3_answered h hm hptk hnonce hlt env₁
  have hmsg3 : exchange [env₁, env₂, env₃, env₄] ap sta [m] = exchange [env₂, env₃, env₄] ap
      { sta with mode := .sta cfg₁, entry := e₁ } [m₁] := by
    rw [exchange_toSta hm (.inr (.inl rfl)) hstep, hsent]
    rfl
  have hsta : sta.entry.SameStation e₁ := by
    rw [he₁]
    exact ⟨rfl, rfl, rfl⟩
  have hdone : e₁.wpaState = .ptkInitDone := by rw [he₁]
  have hstaListens : WpaAdapter.Listens { sta with mode := .sta cfg₁, entry := e₁ } :=
    h.staListens.next rfl hsta (by rw [he₁]) (by dsimp only; rw [hdone]; decide)
  have h₁ : Partners ap { sta with mode := .sta cfg₁, entry := e₁ } mbss cfg₁ :=
    h.next h.apMode rfl hnetwork .rfl hsta h.apListens hstaListens
  have hptk₁ : e₁.ptk = ap.entry.ptk := by rw [he₁, ← hptk]
  have hcounter₁ : e₁.rCounter = ap.entry.rCounter := by rw [he₁]
  have hkey₁ : e₁.pairwiseKey = e₁.pairwiseKeyOf false := by
    rw [he₁]
    rfl
  obtain ⟨e₂, he₂, hmsg4⟩ := msg4_taken h₁ hnetwork.groupCipher.symm hm₁ hptk₁ hcounter₁ (by rw [hstate]) env₂
  have hap : ap.entry.SameStation e₂ := by
    rw [he₂]
    exact ⟨rfl, rfl, rfl⟩
  have hwpa2 : e₂.bWpa2 = sta.entry.bWpa2 := by
    simp only [MacEntry.bWpa2, hap.authMode, h.authMode]
  rw [hmsg3]
  cases hmode : e₂.bWpa2 with
  | true =>
    rw [hmode, if_pos rfl] at hmsg4
    obtain ⟨hport, hindex, hgtk⟩ := hgroup (hwpa2 ▸ hmode)
    have hdone₂ : e₂.wpaState = .ptkInitDone := by rw [he₂]
    refine ⟨_, _, cfg₁, (exchange_toAp hm₁ (.inr (.inl rfl)) hmsg4).trans exchange_nil,
      h₁.next h.apMode rfl .rfl ⟨hap.1, hap.2, hap.3⟩ .rfl (h.apListens.next rfl ⟨hap.1, hap.2, hap.3⟩ (by rw [he₂])
        (by dsimp only; rw [hdone₂]; decide)) hstaListens, ?_⟩
    exact ⟨by rw [he₂], hptk₁, by rw [he₂]; rfl, hkey₁, by rw [he₂], rfl, by rw [hcounter₁, he₂],
      by rw [he₂], hport, hgtk, hindex⟩
  | false =>
    rw [hmode, if_neg (by decide)] at hmsg4
    obtain ⟨e₃, m₃, he₃, hm₃, hstep₄⟩ := hmsg4
    have hmsg4 : exchange [env₂, env₃, env₄] ap { sta with mode := .sta cfg₁, entry := e₁ } [m₁] =
        exchange [env₃, env₄] { ap with entry := e₃ } { sta with mode := .sta cfg₁, entry := e₁ } [m₃] :=
      exchange_toAp hm₁ (.inr (.inl rfl)) hstep₄
    have hap₃ : ap.entry.SameStation e₃ := by
      rw [he₃, he₂]
      exact ⟨rfl, rfl, rfl⟩
    have hdone₃ : e₃.wpaState = .ptkInitDone := by rw [he₃, he₂]; rfl
    have hapListens : WpaAdapter.Listens { ap with entry := e₃ } :=
      h.apListens.next rfl hap₃ (by rw [he₃, he₂]; rfl) (by dsimp only; rw [hdone₃]; decide)
    have h₃ : Partners { ap with entry := e₃ } { sta with mode := .sta cfg₁, entry := e₁ } mbss cfg₁ :=
      h₁.next h.apMode rfl .rfl hap₃ .rfl hapListens hstaListens
    have hnext : beNat e₃.rCounter.toList = beNat ap.entry.rCounter.toList + 1 := by
      rw [he₃, he₂]
      simp only [MacEntry.countUp]
      rw [addOneTo64BitVar_toNat, Nat.mod_eq_of_lt hcounter]
    have hend := exchange_groupMsg1 h₃ hm₃ (by rw [he₃, he₂]; exact hptk₁) (by rw [he₃, he₂]; rfl)
      (by dsimp only; rw [hnext, hcounter₁]; exact Nat.lt_succ_self _) env₃ env₄ []
    refine ⟨_, _, _, hmsg4.trans hend, h₃.next h.apMode rfl ⟨rfl, rfl, rfl, rfl, rfl⟩ ⟨rfl, rfl, rfl⟩
      ⟨rfl, rfl, rfl⟩ (hapListens.next rfl ⟨rfl, rfl, rfl⟩ rfl hapListens.state)
      (hstaListens.next rfl ⟨rfl, rfl, rfl⟩ rfl hstaListens.state), ?_⟩
    exact ⟨by rw [he₃, he₂]; rfl, hptk₁, by rw [he₃, he₂]; rfl, hkey₁, by rw [he₃, he₂]; rfl, rfl, rfl,
      by rw [he₃, he₂]; rfl, rfl, rfl, rfl⟩

end Exchange

/-- An entry right after an association with a WPA2 network. -/
def pairEntry (addr : Vector UInt8 6) : MacEntry where
  addr := addr
  authMode := .wpa2Psk
  wepStatus := .encryption3Enabled
  assoc := true
  wpaState := .initPsk
  rekeyEstablished := false
  portSecured := false
  acceptAll := false
  rCounter := Vector.replicate 8 0
  aNonce := Vector.replicate 32 0
  sNonce := Vector.replicate 32 0
  ptk := Vector.replicate 64 0
  pairwiseKey := ⟨none, [], [], []⟩
  reTryCounter := 0

/-- An RSN element for AES and a pre-shared key, behind its length. -/
def pairRsnIe : List UInt8 := [1, 0, 0, 0x0f, 0xac, 4, 1, 0, 0, 0x0f, 0xac, 4, 1, 0, 0, 0x0f, 0xac, 2, 0, 0]

def pairMbss : Mbss where
  bssid := Vector.replicate 6 1
  authMode := .wpa2Psk
  pmk := List.replicate 32 9
  gmk := List.replicate 32 8
  gNonce := Vector.replicate 32 3
  gtk := Vector.replicate 32 4
  groupKeyWepStatus := .encryption3Enabled
  defaultKeyId := 1
  rsnIe := fun _ => keyMemory pairRsnIe
  rsnIeLen := fun _ => 20

def pairCfg : StaCfg where
  currentAddress := Vector.replicate 6 2
  pmk := List.replicate 32 9
  groupCipher := .encryption3Enabled
  rsnIe := keyMemory pairRsnIe
  rsnIeLen := 20
  ptk := Vector.replicate 64 0
  gtk := []
  defaultKeyId := 0
  portSecured := false

def pairAp : WpaAdapter := ⟨.ap pairMbss, true, pairEntry pairCfg.currentAddress⟩

def pairSta : WpaAdapter := ⟨.sta pairCfg, true, pairEntry pairMbss.bssid⟩

def pairEnv (n : UInt8) : Env := ⟨Vector.replicate 32 n, Vector.replicate 6 n⟩

/-- The key of a pair, by the number that the station takes. -/
def pairKey (n : UInt8) : Option (Vector UInt8 64) :=
  ptkOf pairMbss.pmk (pairEnv 1).random (pairEnv n).random pairMbss.bssid pairCfg.currentAddress

theorem pairPartners : Partners pairAp pairSta pairMbss pairCfg where
  apMode := rfl
  staMode := rfl
  apListens := ⟨rfl, .inr rfl, .inr rfl, rfl, Nat.le_refl _⟩
  staListens := ⟨rfl, .inr rfl, .inr rfl, rfl, Nat.le_refl _⟩
  authMode := rfl
  wepStatus := rfl
  apGroup := nofun
  staGroup := nofun
  apAddr := rfl
  staAddr := rfl
  pmk := rfl
  rsn := by decide
  short := by decide
  sends := ⟨fun _ => rfl, fun _ => show (20 : UInt8).toNat ≤ 206 by decide, by decide⟩

end Rt5572

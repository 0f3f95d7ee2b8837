import StandaloneDrivers.Rt5572.Handshake

/-! What one step of either side of the handshakes does. -/
namespace Rt5572
open Foundations
open BssTab (WepStatus AuthMode)

/-- The key that `WpaDerivePTK` makes of the nonces. -/
def ptkOf (pmk : List UInt8) (aNonce sNonce : Vector UInt8 32) (aa sa : Vector UInt8 6) :
    Option (Vector UInt8 64) :=
  (wpaDerivePtk pmk aNonce.toList aa.toList sNonce.toList sa.toList (List.replicate 80 0) 64).map
    fun ptk => Vector.ofFn fun i => ptk.getD i 0

/-- The MIC of a message is the one under a key. -/
def MicValid (ptk : Vector UInt8 64) (p : EapolPacket) : Prop :=
  eapolMic p.keyInfo.keyDescVer ptk p.micInput = some p.keyMic

instance (ptk : Vector UInt8 64) (p : EapolPacket) : Decidable (MicValid ptk p) :=
  inferInstanceAs (Decidable (_ = _))

section Derive
variable {e e' : MacEntry} {pmk : List UInt8} {aa sa : Vector UInt8 6}

theorem derivePtk_eq (h : e.derivePtk pmk aa sa = some e') :
    ∃ ptk, ptkOf pmk e.aNonce e.sNonce aa sa = some ptk ∧ e' = { e with ptk := ptk } := by
  obtain ⟨ptk, hptk, he⟩ := Option.map_eq_some_iff.mp h
  exact ⟨_, Option.map_eq_some_iff.mpr ⟨ptk, hptk, rfl⟩, he.symm⟩

end Derive

section Counter

/-- The loop counts up the number in front of a place; the induction is on the octets from the back. -/
theorem addOneLoop_append (a b : List UInt8) :
    ∃ a', addOneLoop a.length (a ++ b) = a' ++ b ∧ a'.length = a.length ∧
      beNat a' = (beNat a + 1) % 256 ^ a.length := by
  induction a using List.reverseRecOn generalizing b with
  | nil => exact ⟨[], rfl, rfl, (Nat.mod_one _).symm⟩
  | append_singleton a x ih =>
    have hset : ((a ++ [x]) ++ b).set a.length (((a ++ [x]) ++ b).getD a.length 0 + 1) =
        a ++ ((x + 1) :: b) := by
      simp only [List.append_assoc, List.singleton_append, List.getD_eq_getElem?_getD,
        List.getElem?_append_right (Nat.le_refl _), Nat.sub_self, List.getElem?_cons_zero,
        Option.getD_some, List.set_append_right _ _ (Nat.le_refl _), List.set_cons_zero]
    have hget : (a ++ ((x + 1) :: b)).getD a.length 0 = x + 1 := by
      simp only [List.getD_eq_getElem?_getD, List.getElem?_append_right (Nat.le_refl _), Nat.sub_self,
        List.getElem?_cons_zero, Option.getD_some]
    have hx := x.toNat_lt
    have hlt := beNat_lt a
    have hnum : beNat (a ++ [x]) = beNat a * 256 + x.toNat := by
      rw [beNat_append]
      simp [beNat]
    have hsucc : (x + 1).toNat = (x.toNat + 1) % 256 := UInt8.toNat_add x 1
    rw [List.length_append, List.length_singleton, addOneLoop]
    simp only [hset, hget]
    split
    · rename_i hzero
      obtain ⟨a', hloop, hlen, hval⟩ := ih ((x + 1) :: b)
      refine ⟨a' ++ [x + 1], ?_, ?_, ?_⟩
      · rw [hloop, List.append_assoc, List.singleton_append]
      · rw [List.length_append, List.length_singleton, hlen]
      · have hbyte : (x + 1).toNat = 0 := by rw [hzero]; rfl
        have hfull : x.toNat + 1 = 256 := by omega
        rw [beNat_append, hval, hnum, Nat.add_assoc, hfull, Nat.pow_succ, List.length_singleton, hzero,
          ← Nat.succ_mul, Nat.mul_mod_mul_right]
        simp [beNat]
    · rename_i hsome
      refine ⟨a ++ [x + 1], ?_, ?_, ?_⟩
      · rw [List.append_assoc, List.singleton_append]
      · rw [List.length_append, List.length_singleton]
      · have hne : (x + 1).toNat ≠ 0 := fun h => hsome (UInt8.toNat_inj.mp h)
        have hval : beNat (a ++ [x + 1]) = beNat a * 256 + (x + 1).toNat := by
          rw [beNat_append]
          simp [beNat]
        have hbound : beNat a * 256 + x.toNat + 1 < 256 ^ (a.length + 1) := by
          have hmul : (beNat a + 1) * 256 ≤ 256 ^ a.length * 256 := Nat.mul_le_mul_right 256 hlt
          rw [Nat.pow_succ]
          omega
        rw [hval, hnum, Nat.mod_eq_of_lt hbound]
        omega

theorem addOneTo64BitVar_toNat (v : Vector UInt8 8) :
    beNat (addOneTo64BitVar v).toList = (beNat v.toList + 1) % 2 ^ 64 := by
  obtain ⟨a', hloop, -, hval⟩ := addOneLoop_append v.toList []
  rw [List.append_nil, List.append_nil, Vector.length_toList] at hloop
  rw [Vector.length_toList] at hval
  have hlist : (addOneTo64BitVar v).toList = addOneLoop 8 v.toList := rfl
  have hsize : 256 ^ 8 = 2 ^ 64 := rfl
  rw [hlist, hloop, hval, hsize]

end Counter

section Sanity
variable {e : MacEntry} {p : EapolPacket} {msgType : UInt8} {groupKey : Option (List UInt8 × UInt8)}

/-- A message that is let pass is not old and, but for message 1, has the right MIC. -/
theorem sanity_accepted (h : peerWpaMessageSanity e p msgType = some (.accepted groupKey)) :
    replayDiff e p msgType = false ∧ (msgType ≠ eapolPairMsg1 → MicValid e.ptk p) := by
  rw [peerWpaMessageSanity] at h
  split at h
  · cases h
  · rename_i hreplay
    refine ⟨Bool.eq_false_iff.mpr hreplay, fun hone => ?_⟩
    rw [if_neg hone] at h
    obtain ⟨mic, hmic, h⟩ := Option.bind_eq_some_iff.mp h
    split at h
    · cases h
    · rename_i hsame
      rw [MicValid, hmic, not_not.mp hsame]

/-- A counter that a station takes is higher than the last one, or zero. -/
theorem replayDiff_acked (htype : msgType = eapolPairMsg1 ∨ msgType = eapolPairMsg3 ∨
    msgType = eapolGroupMsg1) (h : replayDiff e p msgType = false) :
    beNat e.rCounter.toList < beNat p.replayCounter.toList ∨ beNat p.replayCounter.toList = 0 := by
  rw [replayDiff, if_pos htype, decide_eq_false_iff_not] at h
  by_cases hone : rtmpCompareMemory p.replayCounter.toList e.rCounter.toList = 1
  · left
    have hlen : p.replayCounter.toList.length = e.rCounter.toList.length := by
      rw [Vector.length_toList, Vector.length_toList]
    exact (rtmpCompareMemory_one hlen).mp hone
  · right
    have hlen : p.replayCounter.toList.length = (List.replicate 8 (0 : UInt8)).length := by
      rw [Vector.length_toList, List.length_replicate]
    have hzero := (rtmpCompareMemory_zero hlen).mp (not_not.mp fun hne => h ⟨hone, hne⟩)
    rw [hzero]
    rfl

/-- The counter that an access point takes is the last one. -/
theorem replayDiff_answered (hone : msgType ≠ eapolPairMsg1) (hthree : msgType ≠ eapolPairMsg3)
    (hgroup : msgType ≠ eapolGroupMsg1) (h : replayDiff e p msgType = false) :
    p.replayCounter = e.rCounter := by
  rw [replayDiff, if_neg (not_or.mpr ⟨hone, not_or.mpr ⟨hthree, hgroup⟩⟩)] at h
  exact not_not.mp (decide_eq_false_iff_not.mp h)

end Sanity

/-- The messages of a step. -/
def sentOf (fx : List Effect) : List EapolPacket := fx.filterMap fun
  | .send p _ => some p
  | _ => none

/-- A step hands a pairwise key on. -/
def installs (fx : List Effect) : Bool := fx.any fun
  | .installPairwise _ => true
  | _ => false

/-- The group keys that a step hands on. -/
def sharedOf (fx : List Effect) : List (List UInt8 × UInt8) := fx.filterMap fun
  | .installShared gtk keyIdx => some (gtk, keyIdx)
  | _ => none

theorem sentOf_append (fx fx' : List Effect) : sentOf (fx ++ fx') = sentOf fx ++ sentOf fx' :=
  List.filterMap_append

theorem installs_append (fx fx' : List Effect) : installs (fx ++ fx') = (installs fx || installs fx') :=
  List.any_append

theorem sharedOf_append (fx fx' : List Effect) : sharedOf (fx ++ fx') = sharedOf fx ++ sharedOf fx' :=
  List.filterMap_append

/-- A message as one of the six, with the counter of an entry and under its key. -/
structure IsMessage (msgType : UInt8) (e : MacEntry) (m : EapolPacket) : Prop where
  whole : m.Whole
  keyAck : m.keyInfo.keyAck =
    decide (msgType = eapolPairMsg1 ∨ msgType = eapolPairMsg3 ∨ msgType = eapolGroupMsg1)
  keyType : m.keyInfo.keyType = decide (msgType < eapolGroupMsg1)
  keyMic : m.keyInfo.keyMic = decide (msgType ≠ eapolPairMsg1)
  counter : m.replayCounter = e.rCounter
  empty : msgType = eapolPairMsg4 ∨ msgType = eapolGroupMsg2 → m.keyDataLen = 0
  valid : msgType ≠ eapolPairMsg1 → MicValid e.ptk m

theorem IsMessage.congr {msgType : UInt8} {e e' : MacEntry} {m : EapolPacket} (h : IsMessage msgType e m)
    (hptk : e'.ptk = e.ptk) (hcounter : e'.rCounter = e.rCounter) : IsMessage msgType e' m where
  whole := h.whole
  keyAck := h.keyAck
  keyType := h.keyType
  keyMic := h.keyMic
  counter := h.counter.trans hcounter.symm
  empty := h.empty
  valid hone := hptk ▸ h.valid hone

theorem Built.isMessage {e : MacEntry} {a : MsgArgs} {m : EapolPacket} (h : Built e a m) :
    IsMessage a.msgType e m := by
  obtain ⟨keyData, mic, hdata, hm⟩ := h.data
  obtain ⟨hver, htype, hack, hmic, -, -, -⟩ := a.keyInfo_bits e
  have hinfo : m.keyInfo = a.keyInfo e := by rw [hm]; rfl
  refine ⟨h.whole, hinfo ▸ hack, hinfo ▸ htype, hinfo ▸ hmic, by rw [hm]; rfl, fun hempty => ?_,
    fun hone => ?_⟩
  · have hnil : keyData = [] := by
      rw [MsgArgs.keyData, if_pos (Or.inr hempty)] at hdata
      exact (Except.ok.inj hdata).symm
    rw [hm, hnil]
    rfl
  · rw [MicValid, hinfo, hver]
    exact h.mic hone

/-- What no step of a station changes. -/
structure StaCfg.SameNetwork (cfg cfg' : StaCfg) : Prop where
  pmk : cfg'.pmk = cfg.pmk
  currentAddress : cfg'.currentAddress = cfg.currentAddress
  groupCipher : cfg'.groupCipher = cfg.groupCipher
  rsnIe : cfg'.rsnIe = cfg.rsnIe
  rsnIeLen : cfg'.rsnIeLen = cfg.rsnIeLen

theorem StaCfg.SameNetwork.rfl {cfg : StaCfg} : cfg.SameNetwork cfg :=
  ⟨.refl _, .refl _, .refl _, .refl _, .refl _⟩

/-- What no step changes of an entry. -/
structure MacEntry.SameStation (e e' : MacEntry) : Prop where
  addr : e'.addr = e.addr
  authMode : e'.authMode = e.authMode
  wepStatus : e'.wepStatus = e.wepStatus

theorem MacEntry.SameStation.rfl {e : MacEntry} : e.SameStation e := ⟨.refl _, .refl _, .refl _⟩

/-- A cipher that pairwise keys are made for. -/
def MacEntry.HasCipher (e : MacEntry) : Prop :=
  e.wepStatus = .encryption2Enabled ∨ e.wepStatus = .encryption3Enabled

theorem pairwiseKeyOf_isSome {e : MacEntry} (h : e.HasCipher) (bAE : Bool) :
    (e.pairwiseKeyOf bAE).cipherAlg.isSome := by
  rw [MacEntry.pairwiseKeyOf]
  rcases h with h | h
  · rw [if_pos h]
    rfl
  · rw [if_neg (by rw [h]; decide), if_pos h]
    rfl

theorem wpaInstallPairwiseKey_eq {e : MacEntry} (h : e.HasCipher) (bAE : Bool) :
    e.wpaInstallPairwiseKey bAE =
      ({ e with pairwiseKey := e.pairwiseKeyOf bAE }, [.installPairwise (e.pairwiseKeyOf bAE)]) := by
  rw [MacEntry.wpaInstallPairwiseKey]
  simp only [pairwiseKeyOf_isSome h, if_true]

/-- What a frame leaves of a station: its entry, what is sent, whether a pairwise key is installed, and
the group keys that are. -/
inductive StaOutcome (cfg : StaCfg) (e : MacEntry) (env : Env) (p : EapolPacket) :
    MacEntry → List EapolPacket → Bool → List (List UInt8 × UInt8) → Prop
  | kept {e' : MacEntry} (hptk : e'.ptk = e.ptk) (hcounter : e'.rCounter = e.rCounter)
      (hnonce : e'.aNonce = e.aNonce) : StaOutcome cfg e env p e' [] false []
  | derived {e' : MacEntry} {m : EapolPacket} (hreplay : replayDiff e p eapolPairMsg1 = false)
      (hkey : ptkOf cfg.pmk p.keyNonce env.random e.addr cfg.currentAddress = some e'.ptk)
      (hcounter : e'.rCounter = p.replayCounter) (hnonce : e'.aNonce = p.keyNonce)
      (hmsg : Built e' (cfg.msg2Args e') m) : StaOutcome cfg e env p e' [m] false []
  | turned {e' : MacEntry} {groupKey : Option (List UInt8 × UInt8)} (hack : p.keyInfo.keyAck = true)
      (htype : p.keyInfo.keyType = true) (hmic : p.keyInfo.keyMic = true)
      (hsanity : peerWpaMessageSanity e p eapolPairMsg3 = some (.accepted groupKey))
      (hptk : e'.ptk = e.ptk) (hcounter : e'.rCounter = p.replayCounter) (hnonce : e'.aNonce = e.aNonce) :
      StaOutcome cfg e env p e' [] false groupKey.toList
  | confirmed {e' : MacEntry} {m : EapolPacket} {groupKey : Option (List UInt8 × UInt8)}
      (hack : p.keyInfo.keyAck = true) (htype : p.keyInfo.keyType = true) (hmic : p.keyInfo.keyMic = true)
      (hsanity : peerWpaMessageSanity e p eapolPairMsg3 = some (.accepted groupKey))
      (hsame : e.aNonce = p.keyNonce)
      (hptk : e'.ptk = e.ptk) (hcounter : e'.rCounter = p.replayCounter) (hnonce : e'.aNonce = e.aNonce)
      (hmsg : IsMessage eapolPairMsg4 e' m) : StaOutcome cfg e env p e' [m] true groupKey.toList
  | reflected {e' : MacEntry} {groupKey : Option (List UInt8 × UInt8)} (hack : p.keyInfo.keyAck = false)
      (htype : p.keyInfo.keyType = true) (hdata : p.keyInfo.secure = true ∨ p.keyDataLen = 0)
      (hsanity : peerWpaMessageSanity e p eapolPairMsg4 = some (.accepted groupKey))
      (hptk : e'.ptk = e.ptk) (hcounter : e'.rCounter = e.rCounter) (hnonce : e'.aNonce = e.aNonce) :
      StaOutcome cfg e env p e' [] true []
  | grouped {e' : MacEntry} {m : EapolPacket} {groupKey : Option (List UInt8 × UInt8)}
      (hack : p.keyInfo.keyAck = true) (htype : p.keyInfo.keyType = false)
      (hsanity : peerWpaMessageSanity e p eapolGroupMsg1 = some (.accepted groupKey))
      (hptk : e'.ptk = e.ptk) (hcounter : e'.rCounter = p.replayCounter) (hnonce : e'.aNonce = e.aNonce)
      (hmsg : IsMessage eapolGroupMsg2 e' m) : StaOutcome cfg e env p e' [m] false groupKey.toList

/-- The result of a frame at a station. -/
structure StaResult (cfg : StaCfg) (ad : WpaAdapter) (env : Env) (p : EapolPacket)
    (r : WpaAdapter × List Effect) : Prop where
  mode : ∃ cfg', r.1.mode = .sta cfg' ∧ cfg.SameNetwork cfg'
  station : ad.entry.SameStation r.1.entry
  outcome : StaOutcome cfg ad.entry env p r.1.entry (sentOf r.2) (installs r.2) (sharedOf r.2)

theorem StaResult.of_effects {cfg : StaCfg} {ad : WpaAdapter} {env : Env} {p : EapolPacket}
    {r : WpaAdapter × List Effect} {sent : List EapolPacket} {installed : Bool}
    {shared : List (List UInt8 × UInt8)} (hmode : ∃ cfg', r.1.mode = .sta cfg' ∧ cfg.SameNetwork cfg')
    (hstation : ad.entry.SameStation r.1.entry) (hsent : sentOf r.2 = sent)
    (hinstalls : installs r.2 = installed) (hshared : sharedOf r.2 = shared)
    (houtcome : StaOutcome cfg ad.entry env p r.1.entry sent installed shared) :
    StaResult cfg ad env p r where
  mode := hmode
  station := hstation
  outcome := by rwa [hsent, hinstalls, hshared]

section Station
variable {cfg : StaCfg} {ad : WpaAdapter} {env : Env} {p : EapolPacket} {r : WpaAdapter × List Effect}

/-- An adapter that a frame leaves as it was. -/
theorem StaResult.unchanged (hmode : ad.mode = .sta cfg) {fx : List Effect} (hsent : sentOf fx = [])
    (hinstalls : installs fx = false) (hshared : sharedOf fx = []) : StaResult cfg ad env p (ad, fx) where
  mode := ⟨cfg, hmode, .rfl⟩
  station := .rfl
  outcome := by
    rw [hsent, hinstalls, hshared]
    exact .kept rfl rfl rfl

theorem installGroupKey_eq (cfg : StaCfg) (groupKey : Option (List UInt8 × UInt8)) :
    cfg.SameNetwork (cfg.installGroupKey groupKey).1 ∧ sentOf (cfg.installGroupKey groupKey).2 = [] ∧
      installs (cfg.installGroupKey groupKey).2 = false ∧
        sharedOf (cfg.installGroupKey groupKey).2 = groupKey.toList := by
  cases groupKey with
  | none => exact ⟨.rfl, rfl, rfl, rfl⟩
  | some k => exact ⟨⟨rfl, rfl, rfl, rfl, rfl⟩, rfl, rfl, rfl⟩

variable (hmode : ad.mode = .sta cfg)
include hmode

theorem peerPairMsg1Action_station (h : ad.peerPairMsg1Action env p = some r) :
    StaResult cfg ad env p r := by
  simp only [WpaAdapter.peerPairMsg1Action, hmode] at h
  split at h
  · cases h
    exact .unchanged hmode rfl rfl rfl
  · obtain ⟨s, hs, h⟩ := Option.bind_eq_some_iff.mp h
    cases s with
    | accepted groupKey =>
      obtain ⟨e, he, h⟩ := Option.bind_eq_some_iff.mp h
      obtain ⟨m, hm, h⟩ := Option.bind_eq_some_iff.mp h
      obtain ⟨ptk, hptk, rfl⟩ := derivePtk_eq he
      cases h
      exact ⟨⟨cfg, rfl, .rfl⟩, ⟨rfl, rfl, rfl⟩,
        .derived (sanity_accepted hs).1 hptk rfl rfl (constructEapolMsg_built hm)⟩
    | _ =>
      cases h
      exact .unchanged hmode rfl rfl rfl

theorem peerPairMsg2Action_station (h : ad.peerPairMsg2Action env p = some r) :
    StaResult cfg ad env p r := by
  simp only [WpaAdapter.peerPairMsg2Action, hmode] at h
  split at h
  · cases h
    exact .unchanged hmode rfl rfl rfl
  · cases h
    exact ⟨⟨cfg, rfl, .rfl⟩, ⟨rfl, rfl, rfl⟩, .kept rfl rfl rfl⟩

theorem peerPairMsg3Action_station (hcipher : ad.entry.HasCipher) (hack : p.keyInfo.keyAck = true)
    (htype : p.keyInfo.keyType = true) (hmic : p.keyInfo.keyMic = true)
    (h : ad.peerPairMsg3Action p = some r) : StaResult cfg ad env p r := by
  simp only [WpaAdapter.peerPairMsg3Action, hmode] at h
  split at h
  · cases h
    exact .unchanged hmode rfl rfl rfl
  · obtain ⟨s, hs, h⟩ := Option.bind_eq_some_iff.mp h
    cases s with
    | accepted groupKey =>
      obtain ⟨hnetwork, hsent, hinstalls, hshared⟩ := installGroupKey_eq cfg groupKey
      dsimp only at h
      split at h
      · cases h
        refine ⟨⟨_, rfl, hnetwork⟩, ⟨rfl, rfl, rfl⟩, ?_⟩
        simp only [hsent, hinstalls, hshared]
        exact .turned hack htype hmic hs rfl rfl rfl
      · rename_i hsame
        obtain ⟨m, hm, h⟩ := Option.bind_eq_some_iff.mp h
        have hmsg := (constructEapolMsg_built hm).isMessage
        simp only [wpaInstallPairwiseKey_eq (show MacEntry.HasCipher { ad.entry with
          rCounter := p.replayCounter, wpaState := .ptkInitDone } from hcipher)] at h
        have hnetwork' : ∀ (ptk : Vector UInt8 64) (secured : Bool), cfg.SameNetwork
            { (cfg.installGroupKey groupKey).1 with ptk := ptk, portSecured := secured } := fun _ _ =>
          ⟨hnetwork.1, hnetwork.2, hnetwork.3, hnetwork.4, hnetwork.5⟩
        have hfx : ∀ key : PairwiseKey,
            sentOf ((cfg.installGroupKey groupKey).2 ++ [.installPairwise key] ++ [.send m true]) = [m] ∧
            installs ((cfg.installGroupKey groupKey).2 ++ [.installPairwise key] ++ [.send m true]) = true ∧
            sharedOf ((cfg.installGroupKey groupKey).2 ++ [.installPairwise key] ++ [.send m true]) =
              groupKey.toList := by
          intro key
          simp only [sentOf_append, installs_append, sharedOf_append, hsent, hinstalls, hshared]
          exact ⟨rfl, rfl, (List.append_nil _).trans (List.append_nil _)⟩
        split at h
        · cases h
          exact .of_effects ⟨_, rfl, hnetwork' _ _⟩ ⟨rfl, rfl, rfl⟩ (hfx _).1 (hfx _).2.1 (hfx _).2.2
            (.confirmed hack htype hmic hs (not_not.mp hsame) rfl rfl rfl (hmsg.congr rfl rfl))
        · cases h
          exact .of_effects ⟨_, rfl, hnetwork' _ _⟩ ⟨rfl, rfl, rfl⟩ (hfx _).1 (hfx _).2.1 (hfx _).2.2
            (.confirmed hack htype hmic hs (not_not.mp hsame) rfl rfl rfl (hmsg.congr rfl rfl))
    | _ =>
      cases h
      exact .unchanged hmode rfl rfl rfl

theorem peerPairMsg4Action_station (hclient : ad.client = true) (hcipher : ad.entry.HasCipher)
    (hack : p.keyInfo.keyAck = false) (htype : p.keyInfo.keyType = true) (hdata : p.keyInfo.secure = true ∨ p.keyDataLen = 0)
    (h : ad.peerPairMsg4Action env p = some r) : StaResult cfg ad env p r := by
  rw [WpaAdapter.peerPairMsg4Action] at h
  split at h
  · cases h
    exact .unchanged hmode rfl rfl rfl
  · obtain ⟨s, hs, h⟩ := Option.bind_eq_some_iff.mp h
    cases s with
    | accepted groupKey =>
      simp only [wpaInstallPairwiseKey_eq hcipher] at h
      split at h
      · cases h
        exact ⟨⟨cfg, hmode, .rfl⟩, ⟨rfl, rfl, rfl⟩, .reflected hack htype hdata hs rfl rfl rfl⟩
      · obtain ⟨r', hr, h⟩ := Option.bind_eq_some_iff.mp h
        -- a station has no group key to send
        simp only [WpaAdapter.wpaStart2WayGroupHs, hclient, hmode] at hr
        cases hr
    | _ =>
      cases h
      exact .unchanged hmode rfl rfl rfl

theorem peerGroupMsg1Action_station (hack : p.keyInfo.keyAck = true) (htype : p.keyInfo.keyType = false)
    (h : ad.peerGroupMsg1Action p = some r) : StaResult cfg ad env p r := by
  simp only [WpaAdapter.peerGroupMsg1Action, hmode] at h
  obtain ⟨s, hs, h⟩ := Option.bind_eq_some_iff.mp h
  cases s with
  | accepted groupKey =>
    obtain ⟨hnetwork, hsent, hinstalls, hshared⟩ := installGroupKey_eq cfg groupKey
    obtain ⟨m, hm, h⟩ := Option.bind_eq_some_iff.mp h
    have hmsg := (constructEapolMsg_built hm).isMessage
    cases h
    refine .of_effects ⟨_, rfl, ⟨hnetwork.1, hnetwork.2, hnetwork.3, hnetwork.4, hnetwork.5⟩⟩ ⟨rfl, rfl, rfl⟩
      ?_ ?_ ?_ (.grouped hack htype hs rfl rfl rfl (hmsg.congr rfl rfl))
    · rw [sentOf_append, hsent]
      rfl
    · rw [installs_append, hinstalls]
      rfl
    · rw [sharedOf_append, hshared]
      exact List.append_nil _
  | _ =>
    cases h
    exact .unchanged hmode rfl rfl rfl

theorem peerGroupMsg2Action_station (h : ad.peerGroupMsg2Action p = some r) : StaResult cfg ad env p r := by
  rw [WpaAdapter.peerGroupMsg2Action] at h
  split at h
  · cases h
    exact .unchanged hmode rfl rfl rfl
  · obtain ⟨s, hs, h⟩ := Option.bind_eq_some_iff.mp h
    cases s with
    | accepted groupKey =>
      cases h
      exact ⟨⟨cfg, hmode, .rfl⟩, ⟨rfl, rfl, rfl⟩, .kept rfl rfl rfl⟩
    | _ =>
      cases h
      exact .unchanged hmode rfl rfl rfl

omit hmode in
/-- What is not taken for message 2. -/
theorem notMsg2 (h : ¬(¬p.keyInfo.secure ∧ p.keyDataLen ≠ 0)) :
    p.keyInfo.secure = true ∨ p.keyDataLen = 0 := by
  by_cases hsecure : p.keyInfo.secure = true
  · exact .inl hsecure
  · exact .inr (not_not.mp fun hne => h ⟨hsecure, hne⟩)

/-- A frame at a station does one of these things. -/
theorem wpaEapolKeyAction_station (hcipher : ad.entry.HasCipher) (h : ad.wpaEapolKeyAction env p = some r) :
    StaResult cfg ad env p r := by
  simp only [WpaAdapter.wpaEapolKeyAction, hmode] at h
  split at h
  · cases h
    exact .unchanged hmode rfl rfl rfl
  · rename_i htaken
    have hclient : ad.client = true := by
      simp only [WpaAdapter.keyFrameTaken, not_not] at htaken
      exact (of_decide_eq_true htaken).1
    split at h
    · rename_i hack
      simp only [WpaAdapter.ackedKeyAction] at h
      split at h
      · rename_i hflags
        split at h
        · rename_i hmic
          exact peerPairMsg3Action_station hmode hcipher hack hflags.2.2.2 hmic h
        · exact peerPairMsg1Action_station hmode h
      · split at h
        · rename_i hflags
          split at h
          · rename_i htype
            exact peerPairMsg3Action_station hmode hcipher hack htype hflags.2.1 h
          · rename_i htype
            exact peerGroupMsg1Action_station hmode hack (Bool.eq_false_iff.mpr htype) h
        · cases h
          exact .unchanged hmode rfl rfl rfl
    · rename_i hack
      split at h
      · simp only [WpaAdapter.answeredKeyAction] at h
        split at h
        · rename_i htype
          split at h
          · exact peerPairMsg2Action_station hmode h
          · rename_i hdata
            exact peerPairMsg4Action_station hmode hclient hcipher (Bool.eq_false_iff.mpr hack) htype
              (notMsg2 hdata) h
        · split at h
          · exact peerGroupMsg2Action_station hmode h
          · cases h
            exact .unchanged hmode rfl rfl rfl
      · cases h
        exact .unchanged hmode rfl rfl rfl

end Station

theorem Built.congr {e e' : MacEntry} {a : MsgArgs} {m : EapolPacket} (h : Built e a m)
    (hptk : e'.ptk = e.ptk) (hcounter : e'.rCounter = e.rCounter) (hstation : e.SameStation e') :
    Built e' a m := by
  have hwpa2 : e'.bWpa2 = e.bWpa2 := by simp only [MacEntry.bWpa2, hstation.authMode]
  have hver : a.keyDescVer e' = a.keyDescVer e := by simp only [MsgArgs.keyDescVer, hstation.wepStatus]
  have hdata : a.keyData e' = a.keyData e := by
    simp only [MsgArgs.keyData, MsgArgs.keyIv, hwpa2, hver, hptk]
  have hpacket : ∀ d, a.packet e' d = a.packet e d := by
    intro d
    simp only [MsgArgs.packet, MsgArgs.keyInfo, MsgArgs.keyLength, MsgArgs.keyIv, hwpa2, hver, hcounter,
      hstation.wepStatus]
  refine ⟨?_, ?_⟩
  · simp only [hdata, hpacket]
    exact h.data
  · rw [hver, hptk]
    exact h.mic

/-- What no step of an access point changes of a network. -/
structure Mbss.SameNetwork (mbss mbss' : Mbss) : Prop where
  bssid : mbss'.bssid = mbss.bssid
  authMode : mbss'.authMode = mbss.authMode
  pmk : mbss'.pmk = mbss.pmk
  groupKeyWepStatus : mbss'.groupKeyWepStatus = mbss.groupKeyWepStatus
  rsnIe : mbss'.rsnIe = mbss.rsnIe
  rsnIeLen : mbss'.rsnIeLen = mbss.rsnIeLen
  index : mbss'.defaultKeyId = mbss.defaultKeyId ∨ mbss'.defaultKeyId = 1 ∨ mbss'.defaultKeyId = 2

theorem Mbss.SameNetwork.rfl {mbss : Mbss} : mbss.SameNetwork mbss :=
  ⟨.refl _, .refl _, .refl _, .refl _, .refl _, .refl _, .inl (.refl _)⟩

/-- What a step leaves of an access point: the network, the entry, what is sent, and whether a pairwise
key is installed. -/
inductive ApOutcome (mbss : Mbss) (e : MacEntry) (env : Env) (p : EapolPacket) :
    Mbss → MacEntry → List EapolPacket → Bool → Prop
  | kept {mbss' : Mbss} {e' : MacEntry}
      (hcounter : e'.rCounter = e.rCounter ∨ e'.rCounter = Vector.replicate 8 0) :
      ApOutcome mbss e env p mbss' e' [] false
  | started {e' : MacEntry} {m : EapolPacket} {c : Vector UInt8 8}
      (hstart : c = e.rCounter ∨ c = Vector.replicate 8 0) (hcounter : e'.rCounter = addOneTo64BitVar c)
      (hmsg : Built e' (mbss.msg1Args e') m) : ApOutcome mbss e env p mbss e' [m] false
  | answered {e' : MacEntry} {m : EapolPacket} (hack : p.keyInfo.keyAck = false)
      (hdata : p.keyDataLen ≠ 0)
      (hkey : ptkOf mbss.pmk e.aNonce p.keyNonce mbss.bssid e.addr = some e'.ptk)
      (hreplay : p.replayCounter = e.rCounter) (hvalid : MicValid e'.ptk p)
      (hcounter : e'.rCounter = addOneTo64BitVar e.rCounter)
      (hmsg : Built e' (mbss.msg3Args e' env) m) : ApOutcome mbss e env p mbss e' [m] false
  | installed {e' : MacEntry} (hack : p.keyInfo.keyAck = false) (htype : p.keyInfo.keyType = true)
      (hdata : p.keyInfo.secure = true ∨ p.keyDataLen = 0) (hvalid : MicValid e.ptk p)
      (hptk : e'.ptk = e.ptk) (hcounter : e'.rCounter = e.rCounter) :
      ApOutcome mbss e env p mbss e' [] true
  | installedFirst {e' : MacEntry} {m : EapolPacket} (hack : p.keyInfo.keyAck = false)
      (htype : p.keyInfo.keyType = true) (hdata : p.keyInfo.secure = true ∨ p.keyDataLen = 0)
      (hvalid : MicValid e.ptk p) (hptk : e'.ptk = e.ptk)
      (hcounter : e'.rCounter = addOneTo64BitVar e.rCounter)
      (hmsg : Built e' (mbss.groupMsg1Args env) m) : ApOutcome mbss e env p mbss e' [m] true
  | grouped {mbss' : Mbss} {e' : MacEntry} {m : EapolPacket}
      (hcounter : e'.rCounter = addOneTo64BitVar e.rCounter)
      (hmsg : Built e' (mbss'.groupMsg1Args env) m) : ApOutcome mbss e env p mbss' e' [m] false

/-- The result of a step of an access point. -/
structure ApResult (mbss : Mbss) (ad : WpaAdapter) (env : Env) (p : EapolPacket)
    (r : WpaAdapter × List Effect) : Prop where
  station : ad.entry.SameStation r.1.entry
  outcome : ∃ mbss', r.1.mode = .ap mbss' ∧ mbss.SameNetwork mbss' ∧
    ApOutcome mbss ad.entry env p mbss' r.1.entry (sentOf r.2) (installs r.2)

section AccessPoint
variable {mbss : Mbss} {ad : WpaAdapter} {env : Env} {p : EapolPacket} {r : WpaAdapter × List Effect}

theorem ApResult.unchanged (hmode : ad.mode = .ap mbss) {fx : List Effect} (hsent : sentOf fx = [])
    (hinstalls : installs fx = false) : ApResult mbss ad env p (ad, fx) where
  station := .rfl
  outcome := ⟨mbss, hmode, .rfl, by
    rw [hsent, hinstalls]
    exact .kept (.inl rfl)⟩

theorem wpaStart4WayHs_cases {timeInterval : ℕ} (h : ad.wpaStart4WayHs env timeInterval = some r)
    (hmode : ad.mode = .ap mbss) :
    r = (ad, []) ∨ ∃ m, Built { ad.entry.countUp with aNonce := env.random, wpaState := .ptkStart }
        (mbss.msg1Args { ad.entry.countUp with aNonce := env.random, wpaState := .ptkStart }) m ∧
      r = ({ ad with entry := { ad.entry.countUp with aNonce := env.random, wpaState := .ptkStart } },
        [.send m !ad.entry.portSecured, .modTimer timeInterval]) := by
  simp only [WpaAdapter.wpaStart4WayHs, hmode] at h
  split at h
  · cases h
    exact .inl rfl
  · obtain ⟨m, hm, h⟩ := Option.bind_eq_some_iff.mp h
    cases h
    exact .inr ⟨m, (constructEapolMsg_built hm).congr rfl rfl ⟨rfl, rfl, rfl⟩, by rw [hmode]; rfl⟩

theorem wpaStart2WayGroupHs_cases (h : ad.wpaStart2WayGroupHs env = some r) (hmode : ad.mode = .ap mbss) :
    r = (ad, []) ∨ ∃ m, Built ad.entry.countUp (mbss.groupMsg1Args env) m ∧
      r = ({ ad with entry := ad.entry.countUp }, [.send m false]) := by
  simp only [WpaAdapter.wpaStart2WayGroupHs, hmode] at h
  split at h
  · cases h
    exact .inl rfl
  · obtain ⟨m, hm, h⟩ := Option.bind_eq_some_iff.mp h
    cases h
    exact .inr ⟨m, constructEapolMsg_built hm, by rw [hmode]⟩

end AccessPoint

section AccessPoint
variable {mbss mbss₀ : Mbss} {ad : WpaAdapter} {env : Env} {p : EapolPacket}
  {r : WpaAdapter × List Effect}

theorem ApOutcome.retried {e e' : MacEntry} {mbss' : Mbss} {sent : List EapolPacket} {installed : Bool}
    (h : ApOutcome mbss e env p mbss' e' sent installed) (n : ℕ) :
    ApOutcome mbss e env p mbss' { e' with reTryCounter := n } sent installed := by
  cases h with
  | kept hcounter => exact .kept hcounter
  | started hstart hcounter hmsg => exact .started hstart hcounter (hmsg.congr rfl rfl ⟨rfl, rfl, rfl⟩)
  | answered hack hdata hkey hreplay hvalid hcounter hmsg =>
    exact .answered hack hdata hkey hreplay hvalid hcounter (hmsg.congr rfl rfl ⟨rfl, rfl, rfl⟩)
  | installed hack htype hdata hvalid hptk hcounter =>
    exact .installed hack htype hdata hvalid hptk hcounter
  | installedFirst hack htype hdata hvalid hptk hcounter hmsg =>
    exact .installedFirst hack htype hdata hvalid hptk hcounter (hmsg.congr rfl rfl ⟨rfl, rfl, rfl⟩)
  | grouped hcounter hmsg => exact .grouped hcounter (hmsg.congr rfl rfl ⟨rfl, rfl, rfl⟩)

/-- Timers and shared keys behind the messages of a step, and a number of tries. -/
theorem ApResult.behind {ad' : WpaAdapter} {fx back : List Effect} (h : ApResult mbss ad env p (ad', fx))
    (hsent : sentOf back = []) (hinstalls : installs back = false) (n : ℕ) :
    ApResult mbss ad env p ({ ad' with entry := { ad'.entry with reTryCounter := n } }, fx ++ back) := by
  obtain ⟨mbss', hmode, hnetwork, houtcome⟩ := h.outcome
  refine ⟨⟨h.station.1, h.station.2, h.station.3⟩, mbss', hmode, hnetwork, ?_⟩
  rw [sentOf_append, installs_append, hsent, hinstalls, List.append_nil, Bool.or_false]
  exact houtcome.retried n

/-- A 4-way handshake is started for an entry that may have been reset. -/
theorem wpaStart4WayHs_outcome (ad₀ : WpaAdapter) {timeInterval : ℕ}
    (h : ad.wpaStart4WayHs env timeInterval = some r) (hmode : ad.mode = .ap mbss)
    (hstation : ad₀.entry.SameStation ad.entry)
    (hcounter : ad.entry.rCounter = ad₀.entry.rCounter ∨ ad.entry.rCounter = Vector.replicate 8 0) :
    ApResult mbss ad₀ env p r := by
  rcases wpaStart4WayHs_cases h hmode with rfl | ⟨m, hmsg, rfl⟩
  · exact ⟨hstation, mbss, hmode, .rfl, .kept hcounter⟩
  · exact ⟨⟨hstation.1, hstation.2, hstation.3⟩, mbss, hmode, .rfl, .started hcounter rfl hmsg⟩

/-- A group key handshake is started for an entry that has the counter it had. -/
theorem wpaStart2WayGroupHs_outcome (ad₀ : WpaAdapter) (h : ad.wpaStart2WayGroupHs env = some r)
    (hmode : ad.mode = .ap mbss) (hnetwork : mbss₀.SameNetwork mbss)
    (hstation : ad₀.entry.SameStation ad.entry) (hcounter : ad.entry.rCounter = ad₀.entry.rCounter) :
    ApResult mbss₀ ad₀ env p r := by
  rcases wpaStart2WayGroupHs_cases h hmode with rfl | ⟨m, hmsg, rfl⟩
  · exact ⟨hstation, mbss, hmode, hnetwork, .kept (.inl hcounter)⟩
  · refine ⟨⟨hstation.1, hstation.2, hstation.3⟩, mbss, hmode, hnetwork, .grouped ?_ hmsg⟩
    rw [← hcounter]
    rfl

variable (hmode : ad.mode = .ap mbss)
include hmode

theorem wpaEapolStartAction_accessPoint (h : ad.wpaEapolStartAction env = some r) :
    ApResult mbss ad env p r := by
  simp only [WpaAdapter.wpaEapolStartAction] at h
  split at h
  · exact wpaStart4WayHs_outcome ad h hmode ⟨rfl, rfl, rfl⟩ (.inr rfl)
  · cases h
    exact .unchanged hmode rfl rfl

theorem wpaRetryExec_accessPoint (h : ad.wpaRetryExec env = some r) : ApResult mbss ad env p r := by
  have hnext : ∀ {ad' : WpaAdapter} {fx : List Effect}, ad'.mode = ad.mode →
      ad.entry.SameStation ad'.entry → ad'.entry.rCounter = ad.entry.rCounter → sentOf fx = [] →
        installs fx = false → ApResult mbss ad env p (ad', fx) := by
    intro ad' fx hmode' hstation hcounter hsent hinstalls
    refine ⟨hstation, mbss, hmode'.trans hmode, .rfl, ?_⟩
    simp only [hsent, hinstalls]
    exact .kept (.inl hcounter)
  simp only [WpaAdapter.wpaRetryExec, WpaAdapter.mlmeDeAuthAction] at h
  split at h
  · cases h
    exact .unchanged hmode rfl rfl
  split at h
  · split at h
    · cases h
      exact hnext rfl ⟨rfl, rfl, rfl⟩ rfl rfl rfl
    split at h
    · split at h
      · obtain ⟨⟨ad', sent⟩, hr, h⟩ := Option.bind_eq_some_iff.mp h
        have hresult : ApResult mbss ad env p (ad', sent) :=
          wpaStart2WayGroupHs_outcome ad hr hmode .rfl ⟨rfl, rfl, rfl⟩ rfl
        cases h
        exact hresult.behind rfl rfl ad'.entry.reTryCounter
      · cases h
        exact hnext rfl ⟨rfl, rfl, rfl⟩ rfl rfl rfl
    split at h
    · cases h
      exact hnext rfl ⟨rfl, rfl, rfl⟩ rfl rfl rfl
    split at h
    · exact wpaStart4WayHs_outcome ad h hmode ⟨rfl, rfl, rfl⟩ (.inl rfl)
    split at h
    · exact wpaStart4WayHs_outcome ad h hmode ⟨rfl, rfl, rfl⟩ (.inl rfl)
    · cases h
      exact hnext rfl ⟨rfl, rfl, rfl⟩ rfl rfl rfl
  · cases h
    exact hnext rfl ⟨rfl, rfl, rfl⟩ rfl rfl rfl

theorem peerPairMsg2Action_accessPoint (hack : p.keyInfo.keyAck = false) (hdata : p.keyDataLen ≠ 0)
    (h : ad.peerPairMsg2Action env p = some r) : ApResult mbss ad env p r := by
  simp only [WpaAdapter.peerPairMsg2Action, hmode] at h
  split at h
  · cases h
    exact .unchanged hmode rfl rfl
  · obtain ⟨e, he, h⟩ := Option.bind_eq_some_iff.mp h
    obtain ⟨ptk, hptk, rfl⟩ := derivePtk_eq he
    obtain ⟨s, hs, h⟩ := Option.bind_eq_some_iff.mp h
    cases s with
    | accepted groupKey =>
      obtain ⟨m, hm, h⟩ := Option.bind_eq_some_iff.mp h
      obtain ⟨hreplay, hvalid⟩ := sanity_accepted hs
      cases h
      exact ⟨⟨rfl, rfl, rfl⟩, mbss, rfl, .rfl, .answered hack hdata hptk
        (replayDiff_answered (by decide) (by decide) (by decide) hreplay) (hvalid (by decide)) rfl
        ((constructEapolMsg_built hm).congr rfl rfl ⟨rfl, rfl, rfl⟩)⟩
    | _ =>
      cases h
      exact ⟨⟨rfl, rfl, rfl⟩, mbss, rfl, .rfl, .kept (.inl rfl)⟩

theorem peerPairMsg4Action_accessPoint (hcipher : ad.entry.HasCipher) (hack : p.keyInfo.keyAck = false)
    (htype : p.keyInfo.keyType = true) (hdata : p.keyInfo.secure = true ∨ p.keyDataLen = 0)
    (h : ad.peerPairMsg4Action env p = some r) : ApResult mbss ad env p r := by
  rw [WpaAdapter.peerPairMsg4Action] at h
  split at h
  · cases h
    exact .unchanged hmode rfl rfl
  · obtain ⟨s, hs, h⟩ := Option.bind_eq_some_iff.mp h
    cases s with
    | accepted groupKey =>
      have hvalid := (sanity_accepted hs).2 (by decide)
      simp only [wpaInstallPairwiseKey_eq hcipher] at h
      split at h
      · cases h
        exact ⟨⟨rfl, rfl, rfl⟩, mbss, hmode, .rfl, .installed hack htype hdata hvalid rfl rfl⟩
      · obtain ⟨⟨ad', sent⟩, hr, h⟩ := Option.bind_eq_some_iff.mp h
        rcases wpaStart2WayGroupHs_cases hr hmode with hr | ⟨m, hmsg, hr⟩
        · cases hr
          cases h
          exact ⟨⟨rfl, rfl, rfl⟩, mbss, hmode, .rfl, .installed hack htype hdata hvalid rfl rfl⟩
        · cases hr
          cases h
          exact ⟨⟨rfl, rfl, rfl⟩, mbss, hmode, .rfl, .installedFirst hack htype hdata hvalid rfl rfl
            (hmsg.congr rfl rfl ⟨rfl, rfl, rfl⟩)⟩
    | _ =>
      cases h
      exact .unchanged hmode rfl rfl

theorem peerGroupMsg2Action_accessPoint (h : ad.peerGroupMsg2Action p = some r) :
    ApResult mbss ad env p r := by
  rw [WpaAdapter.peerGroupMsg2Action] at h
  split at h
  · cases h
    exact .unchanged hmode rfl rfl
  · obtain ⟨s, hs, h⟩ := Option.bind_eq_some_iff.mp h
    cases s with
    | accepted groupKey =>
      cases h
      exact ⟨⟨rfl, rfl, rfl⟩, mbss, hmode, .rfl, .kept (.inl rfl)⟩
    | _ =>
      cases h
      exact .unchanged hmode rfl rfl

theorem keyRequest_accessPoint (h : ad.keyRequest env p mbss = some r) : ApResult mbss ad env p r := by
  simp only [WpaAdapter.keyRequest] at h
  split at h
  · obtain ⟨mbss', hrekey, h⟩ := Option.bind_eq_some_iff.mp h
    obtain ⟨gtk, -, hmbss⟩ := Option.map_eq_some_iff.mp hrekey
    have hnetwork : mbss.SameNetwork mbss' := by
      rw [← hmbss]
      refine ⟨rfl, rfl, rfl, rfl, rfl, rfl, .inr ?_⟩
      dsimp only
      split
      · exact .inr rfl
      · exact .inl rfl
    split at h
    · obtain ⟨⟨ad', sent⟩, hr, h⟩ := Option.bind_eq_some_iff.mp h
      have hresult : ApResult mbss ad env p (ad', sent) :=
        wpaStart2WayGroupHs_outcome ad hr rfl hnetwork ⟨rfl, rfl, rfl⟩ rfl
      cases h
      rw [List.append_assoc]
      exact hresult.behind rfl rfl groupMsg1RetryTimerCtr
    · cases h
      exact ⟨⟨rfl, rfl, rfl⟩, mbss', rfl, hnetwork, .kept (.inl rfl)⟩
  · obtain ⟨⟨ad', sent⟩, hr, h⟩ := Option.bind_eq_some_iff.mp h
    have hresult : ApResult mbss ad env p (ad', sent) :=
      wpaStart4WayHs_outcome ad hr hmode ⟨rfl, rfl, rfl⟩ (.inr rfl)
    cases h
    exact ⟨hresult.station, hresult.outcome⟩

/-- A frame at an access point does one of these things. -/
theorem wpaEapolKeyAction_accessPoint (hcipher : ad.entry.HasCipher)
    (h : ad.wpaEapolKeyAction env p = some r) : ApResult mbss ad env p r := by
  simp only [WpaAdapter.wpaEapolKeyAction, hmode] at h
  split at h
  · cases h
    exact .unchanged hmode rfl rfl
  split at h
  · simp only [WpaAdapter.ackedKeyAction, WpaAdapter.peerPairMsg3Action, WpaAdapter.peerPairMsg1Action,
      WpaAdapter.peerGroupMsg1Action, hmode] at h
    have hsame : r = (ad, []) := by
      split_ifs at h <;> exact (Option.some.inj h).symm
    rw [hsame]
    exact .unchanged hmode rfl rfl
  · rename_i hack
    have hack := Bool.eq_false_iff.mpr hack
    split at h
    · cases h
      exact .unchanged hmode rfl rfl
    split at h
    · simp only [WpaAdapter.answeredKeyAction] at h
      split at h
      · rename_i htype
        split at h
        · rename_i hdata
          exact peerPairMsg2Action_accessPoint hmode hack hdata.2 h
        · rename_i hdata
          exact peerPairMsg4Action_accessPoint hmode hcipher hack htype (notMsg2 hdata) h
      · split at h
        · exact peerGroupMsg2Action_accessPoint hmode h
        · cases h
          exact .unchanged hmode rfl rfl
    split at h
    · exact keyRequest_accessPoint hmode h
    · cases h
      exact .unchanged hmode rfl rfl

end AccessPoint

end Rt5572

import StandaloneDrivers.Rt5572.HandshakeDelivery

/-! Runs of the handshakes of one access point and one station, where whoever is between them delivers
what they like. A MIC under a key that is not zero is one that a side has made. -/
namespace Rt5572
open Foundations
open BssTab (WepStatus AuthMode)

/-- The key of an entry that no key was derived for. -/
def zeroKey : Vector UInt8 64 := Vector.replicate 64 0

/-- A message of the access point with the pairwise key and the group key of that time. -/
structure ApMessage where
  ptk : Vector UInt8 64
  packet : EapolPacket
  gtk : Vector UInt8 32
  keyIdx : UInt8

/-- Both sides, with what they have sent, installed and derived. -/
structure World where
  ap : WpaAdapter
  sta : WpaAdapter
  apSent : List ApMessage
  staSent : List (Vector UInt8 64 × EapolPacket)
  apInstalled : List (Vector UInt8 64)
  staInstalled : List (Vector UInt8 64)
  staShared : List (Vector UInt8 64 × List UInt8 × UInt8)
  staKeys : List (Vector UInt8 64)

/-- An EAPOL-Start or a timer at the access point, or a frame that is delivered to a side. -/
inductive World.Action
  | start (env : Env)
  | retry (env : Env)
  | toAp (env : Env) (p : EapolPacket)
  | toSta (env : Env) (p : EapolPacket)

/-- The group key of an access point with its index. -/
def WpaAdapter.groupKey (ad : WpaAdapter) : Vector UInt8 32 × UInt8 :=
  match ad.mode with
  | .ap mbss => (mbss.gtk, mbss.defaultKeyId)
  | .sta _ => (Vector.replicate 32 0, 0)

/-- The keys that the MIC of a frame may be checked under. -/
def WpaAdapter.micKeys (ad : WpaAdapter) (p : EapolPacket) : List (Vector UInt8 64) :=
  ad.entry.ptk :: ad.nextKeys p

/-- The key that a station makes of the nonce of a frame. -/
def WpaAdapter.newKey (ad : WpaAdapter) (env : Env) (p : EapolPacket) : Option (Vector UInt8 64) :=
  match ad.mode with
  | .ap _ => none
  | .sta cfg => ptkOf cfg.pmk p.keyNonce env.random ad.entry.addr cfg.currentAddress

namespace World
variable (w : World)

/-- Nothing has happened to the two sides yet. -/
def ofSides (ap sta : WpaAdapter) : World := ⟨ap, sta, [], [], [], [], [], [sta.entry.ptk]⟩

/-- A step of the access point. -/
def apTurn (r : WpaAdapter × List Effect) : World :=
  { w with
    ap := r.1
    apSent := (sentOf r.2).map (⟨r.1.entry.ptk, ·, r.1.groupKey.1, r.1.groupKey.2⟩) ++ w.apSent
    apInstalled := if installs r.2 then r.1.entry.ptk :: w.apInstalled else w.apInstalled }

/-- A step of the station. -/
def staTurn (r : WpaAdapter × List Effect) : World :=
  { w with
    sta := r.1
    staSent := (sentOf r.2).map ((r.1.entry.ptk, ·)) ++ w.staSent
    staInstalled := if installs r.2 then r.1.entry.ptk :: w.staInstalled else w.staInstalled
    staShared := (sharedOf r.2).map ((r.1.entry.ptk, ·)) ++ w.staShared
    staKeys := r.1.entry.ptk :: w.staKeys }

def step : Action → Option World
  | .start env => (w.ap.wpaEapolStartAction env).map w.apTurn
  | .retry env => (w.ap.wpaRetryExec env).map w.apTurn
  | .toAp env p => (w.ap.wpaEapolKeyAction env p).map w.apTurn
  | .toSta env p => (w.sta.wpaEapolKeyAction env p).map w.staTurn

/-- A side has sent the text of a frame under a key. -/
def WasSent (ptk : Vector UInt8 64) (p : EapolPacket) : Prop :=
  (∃ x ∈ w.apSent, x.ptk = ptk ∧ p.micInput = x.packet.micInput) ∨
    ∃ y ∈ w.staSent, y.1 = ptk ∧ p.micInput = y.2.micInput

/-- No MIC is forged: a frame whose MIC is right has a text that was sent. -/
def Unforged : Action → Prop
  | .start _ => True
  | .retry _ => True
  | .toAp _ p => ∀ ptk ∈ w.ap.micKeys p, ptk ≠ zeroKey → MicValid ptk p → w.WasSent ptk p
  | .toSta _ p => ∀ ptk ∈ w.sta.micKeys p, ptk ≠ zeroKey → MicValid ptk p → w.WasSent ptk p

/-- The random numbers of the station are new: they make keys that it has not had. -/
def Fresh : Action → Prop
  | .start _ => True
  | .retry _ => True
  | .toAp _ _ => True
  | .toSta env p => ∀ ptk ∈ w.sta.newKey env p, ptk ∉ w.staKeys

/-- A run with the actions, the last one first. -/
inductive Run (w₀ : World) : List Action → World → Prop
  | nil : Run w₀ [] w₀
  | step {actions : List Action} {w w' : World} {a : Action} (h : Run w₀ actions w)
      (hunforged : w.Unforged a) (hfresh : w.Fresh a) (hstep : w.step a = some w') :
      Run w₀ (a :: actions) w'

/-- Both sides right after an association with a pre-shared key. -/
structure Associated (ap sta : WpaAdapter) : Prop where
  apMode : ∃ mbss, ap.mode = .ap mbss
  staMode : ∃ cfg, sta.mode = .sta cfg ∧ cfg.rsnIeLen ≠ 0
  apCipher : ap.entry.HasCipher
  staCipher : sta.entry.HasCipher
  apCounter : ap.entry.rCounter = Vector.replicate 8 0
  staKey : sta.entry.ptk = zeroKey

end World

/-- What holds of both sides and of what they have done in a number of steps. -/
structure World.Inv (w : World) (n : ℕ) : Prop where
  apMode : ∃ mbss, w.ap.mode = .ap mbss
  staMode : ∃ cfg, w.sta.mode = .sta cfg ∧ cfg.rsnIeLen ≠ 0
  apCipher : w.ap.entry.HasCipher
  staCipher : w.sta.entry.HasCipher
  apCounter : beNat w.ap.entry.rCounter.toList ≤ n
  apSent : ∀ x ∈ w.apSent, x.packet.Whole ∧ x.packet.keyInfo.keyAck = true ∧
    0 < beNat x.packet.replayCounter.toList
  staSent : ∀ y ∈ w.staSent, y.2.Whole ∧ y.2.keyInfo.keyAck = false ∧ y.1 ∈ w.staKeys ∧
    (y.2.keyDataLen ≠ 0 → y.2.keyInfo.secure = false)
  staHolds : w.sta.entry.ptk ∈ w.staKeys
  /-- A key is the key of one message 2. -/
  oneMsg2 : ∀ y ∈ w.staSent, ∀ y' ∈ w.staSent, y.1 = y'.1 → y.2.keyDataLen ≠ 0 →
    y'.2.keyDataLen ≠ 0 → y.2 = y'.2
  /-- Message 3 answers message 2, with the next counter. -/
  msg3 : ∀ x ∈ w.apSent, x.packet.IsMsg3 → x.ptk ≠ zeroKey → ∃ y ∈ w.staSent, y.1 = x.ptk ∧
    y.2.keyDataLen ≠ 0 ∧
      beNat x.packet.replayCounter.toList = beNat y.2.replayCounter.toList + 1
  /-- Message 4 answers message 3, with its counter, and its key is installed. -/
  msg4 : ∀ y ∈ w.staSent, y.2.keyInfo.keyType = true → y.2.keyDataLen = 0 → y.1 ≠ zeroKey →
    y.1 ∈ w.staInstalled ∧
      ∃ x ∈ w.apSent, x.ptk = y.1 ∧ x.packet.IsMsg3 ∧ x.packet.replayCounter = y.2.replayCounter
  apInstalled : ∀ ptk ∈ w.apInstalled, ptk ≠ zeroKey → ptk ∈ w.staInstalled
  staInstalled : ∀ ptk ∈ w.staInstalled, ptk ∈ w.staKeys ∧
    (ptk ≠ zeroKey → ∃ x ∈ w.apSent, x.ptk = ptk ∧ x.packet.IsMsg3)
  /-- The counter of the station has got to that of the message that its key was installed for. -/
  staCounter : w.sta.entry.ptk ∈ w.staInstalled → w.sta.entry.ptk ≠ zeroKey →
    ∃ x ∈ w.apSent, x.ptk = w.sta.entry.ptk ∧ x.packet.IsMsg3 ∧
      beNat x.packet.replayCounter.toList ≤ beNat w.sta.entry.rCounter.toList

namespace World
variable {w : World} {n : ℕ} {ptk : Vector UInt8 64} {p : EapolPacket}

/-- A text that only an access point sends. -/
theorem Inv.sentByAp (hinv : w.Inv n) (h : w.WasSent ptk p) (hack : p.keyInfo.keyAck = true) :
    ∃ x ∈ w.apSent, x.ptk = ptk ∧ p.SameText x.packet := by
  rcases h with ⟨x, hx, hptk, htext⟩ | ⟨y, hy, -, htext⟩
  · exact ⟨x, hx, hptk, EapolPacket.sameText (hinv.apSent x hx).1 htext⟩
  · have hsame := EapolPacket.sameText (hinv.staSent y hy).1 htext
    rw [hsame.keyInfo, (hinv.staSent y hy).2.1] at hack
    cases hack

/-- A text that only a station sends. -/
theorem Inv.sentBySta (hinv : w.Inv n) (h : w.WasSent ptk p) (hack : p.keyInfo.keyAck = false) :
    ∃ y ∈ w.staSent, y.1 = ptk ∧ p.SameText y.2 := by
  rcases h with ⟨x, hx, -, htext⟩ | ⟨y, hy, hptk, htext⟩
  · have hsame := EapolPacket.sameText (hinv.apSent x hx).1 htext
    rw [hsame.keyInfo, (hinv.apSent x hx).2.1] at hack
    cases hack
  · exact ⟨y, hy, hptk, EapolPacket.sameText (hinv.staSent y hy).1 htext⟩

/-- A text of the station that is not taken for message 2 carries nothing. -/
theorem Inv.notMsg2 (hinv : w.Inv n) {y : Vector UInt8 64 × EapolPacket} (hy : y ∈ w.staSent)
    (hsame : p.SameText y.2) (hdata : p.keyInfo.secure = true ∨ p.keyDataLen = 0) :
    y.2.keyDataLen = 0 := by
  rcases hdata with hsecure | hempty
  · by_contra hne
    rw [hsame.keyInfo, (hinv.staSent y hy).2.2.2 hne] at hsecure
    cases hsecure
  · exact hsame.keyDataLen ▸ hempty

/-- What a step of the station must show for the invariant. -/
structure StaProgress (w : World) (e' : MacEntry) (sent : List EapolPacket) (installed : Bool) : Prop where
  single : ∀ m ∈ sent, ∀ m' ∈ sent, m = m'
  whole : ∀ m ∈ sent, m.Whole ∧ m.keyInfo.keyAck = false ∧ (m.keyDataLen ≠ 0 → m.keyInfo.secure = false)
  msg2 : ∀ m ∈ sent, m.keyDataLen ≠ 0 → ∀ y ∈ w.staSent, y.1 ≠ e'.ptk
  msg4 : ∀ m ∈ sent, m.keyInfo.keyType = true → m.keyDataLen = 0 → e'.ptk ≠ zeroKey →
    installed = true ∧
      ∃ x ∈ w.apSent, x.ptk = e'.ptk ∧ x.packet.IsMsg3 ∧ x.packet.replayCounter = m.replayCounter
  installed : installed = true → e'.ptk ≠ zeroKey → ∃ x ∈ w.apSent, x.ptk = e'.ptk ∧ x.packet.IsMsg3 ∧
    beNat x.packet.replayCounter.toList ≤ beNat e'.rCounter.toList
  kept : e'.ptk ∉ w.staKeys ∨ e'.ptk = w.sta.entry.ptk ∧ (e'.ptk ≠ zeroKey →
    beNat w.sta.entry.rCounter.toList ≤ beNat e'.rCounter.toList)

/-- A step that sends nothing. -/
theorem StaProgress.quiet {e' : MacEntry} {installed : Bool}
    (hinstalled : installed = true → e'.ptk ≠ zeroKey → ∃ x ∈ w.apSent, x.ptk = e'.ptk ∧ x.packet.IsMsg3 ∧
      beNat x.packet.replayCounter.toList ≤ beNat e'.rCounter.toList)
    (hkept : e'.ptk = w.sta.entry.ptk ∧ (e'.ptk ≠ zeroKey →
      beNat w.sta.entry.rCounter.toList ≤ beNat e'.rCounter.toList)) :
    w.StaProgress e' [] installed :=
  ⟨by simp, by simp, by simp, by simp, hinstalled, .inr hkept⟩

/-- A step that sends one message. -/
theorem StaProgress.send {e' : MacEntry} {m : EapolPacket} {installed : Bool} (hwhole : m.Whole)
    (hack : m.keyInfo.keyAck = false) (hsecure : m.keyDataLen ≠ 0 → m.keyInfo.secure = false)
    (hmsg2 : m.keyDataLen ≠ 0 → ∀ y ∈ w.staSent, y.1 ≠ e'.ptk)
    (hmsg4 : m.keyInfo.keyType = true → m.keyDataLen = 0 → e'.ptk ≠ zeroKey → installed = true ∧
      ∃ x ∈ w.apSent, x.ptk = e'.ptk ∧ x.packet.IsMsg3 ∧ x.packet.replayCounter = m.replayCounter)
    (hinstalled : installed = true → e'.ptk ≠ zeroKey → ∃ x ∈ w.apSent, x.ptk = e'.ptk ∧ x.packet.IsMsg3 ∧
      beNat x.packet.replayCounter.toList ≤ beNat e'.rCounter.toList)
    (hkept : e'.ptk ∉ w.staKeys ∨ e'.ptk = w.sta.entry.ptk ∧ (e'.ptk ≠ zeroKey →
      beNat w.sta.entry.rCounter.toList ≤ beNat e'.rCounter.toList)) :
    w.StaProgress e' [m] installed where
  single _ h₁ _ h₂ := (List.mem_singleton.mp h₁).trans (List.mem_singleton.mp h₂).symm
  whole := List.forall_mem_singleton.mpr ⟨hwhole, hack, hsecure⟩
  msg2 := List.forall_mem_singleton.mpr hmsg2
  msg4 := List.forall_mem_singleton.mpr hmsg4
  installed := hinstalled
  kept := hkept

theorem staInstalled_mono {r : WpaAdapter × List Effect} (h : ptk ∈ w.staInstalled) :
    ptk ∈ (w.staTurn r).staInstalled := by
  simp only [World.staTurn]
  split
  · exact List.mem_cons_of_mem _ h
  · exact h

theorem Inv.staTurn {r : WpaAdapter × List Effect} (hinv : w.Inv n)
    (hmode : ∃ cfg, r.1.mode = .sta cfg ∧ cfg.rsnIeLen ≠ 0) (hcipher : r.1.entry.HasCipher)
    (h : w.StaProgress r.1.entry (sentOf r.2) (installs r.2)) : (w.staTurn r).Inv (n + 1) where
  apMode := hinv.apMode
  staMode := hmode
  apCipher := hinv.apCipher
  staCipher := hcipher
  apCounter := hinv.apCounter.trans (Nat.le_succ n)
  apSent := hinv.apSent
  staSent y hy := by
    rcases List.mem_append.mp hy with hy | hy
    · obtain ⟨m, hm, rfl⟩ := List.mem_map.mp hy
      obtain ⟨hwhole, hack, hsecure⟩ := h.whole m hm
      exact ⟨hwhole, hack, List.mem_cons_self, hsecure⟩
    · obtain ⟨hwhole, hack, hkey, hsecure⟩ := hinv.staSent y hy
      exact ⟨hwhole, hack, List.mem_cons_of_mem _ hkey, hsecure⟩
  staHolds := List.mem_cons_self
  oneMsg2 y hy y' hy' hkey hdata hdata' := by
    rcases List.mem_append.mp hy with hy | hy <;> rcases List.mem_append.mp hy' with hy' | hy'
    · obtain ⟨m, hm, rfl⟩ := List.mem_map.mp hy
      obtain ⟨m', hm', rfl⟩ := List.mem_map.mp hy'
      exact h.single m hm m' hm'
    · obtain ⟨m, hm, rfl⟩ := List.mem_map.mp hy
      exact absurd hkey.symm (h.msg2 m hm hdata y' hy')
    · obtain ⟨m', hm', rfl⟩ := List.mem_map.mp hy'
      exact absurd hkey (h.msg2 m' hm' hdata' y hy)
    · exact hinv.oneMsg2 y hy y' hy' hkey hdata hdata'
  msg3 x hx hmsg hkey := by
    obtain ⟨y, hy, hsame⟩ := hinv.msg3 x hx hmsg hkey
    exact ⟨y, List.mem_append_right _ hy, hsame⟩
  msg4 y hy htype hdata hkey := by
    rcases List.mem_append.mp hy with hy | hy
    · obtain ⟨m, hm, rfl⟩ := List.mem_map.mp hy
      obtain ⟨hinstalls, hsent⟩ := h.msg4 m hm htype hdata hkey
      refine ⟨?_, hsent⟩
      simp only [World.staTurn, if_pos hinstalls]
      exact List.mem_cons_self
    · obtain ⟨hinstalled, hsent⟩ := hinv.msg4 y hy htype hdata hkey
      exact ⟨staInstalled_mono hinstalled, hsent⟩
  apInstalled ptk hptk hkey := staInstalled_mono (hinv.apInstalled ptk hptk hkey)
  staInstalled ptk hptk := by
    have hold : ptk ∈ w.staInstalled → ptk ∈ (w.staTurn r).staKeys ∧
        (ptk ≠ zeroKey → ∃ x ∈ w.apSent, x.ptk = ptk ∧ x.packet.IsMsg3) := by
      intro hptk
      obtain ⟨hkey, hsent⟩ := hinv.staInstalled ptk hptk
      exact ⟨List.mem_cons_of_mem _ hkey, hsent⟩
    simp only [World.staTurn] at hptk
    split at hptk
    · rename_i hinstalls
      rcases List.mem_cons.mp hptk with rfl | hptk
      · refine ⟨List.mem_cons_self, fun hkey => ?_⟩
        obtain ⟨x, hx, hsame, hmsg, -⟩ := h.installed hinstalls hkey
        exact ⟨x, hx, hsame, hmsg⟩
      · exact hold hptk
    · exact hold hptk
  staCounter hptk hkey := by
    have hold : r.1.entry.ptk ∈ w.staInstalled → ∃ x ∈ w.apSent, x.ptk = r.1.entry.ptk ∧
        x.packet.IsMsg3 ∧ beNat x.packet.replayCounter.toList ≤ beNat r.1.entry.rCounter.toList := by
      intro hptk
      rcases h.kept with hnew | ⟨hsame, hcounter⟩
      · exact absurd (hinv.staInstalled _ hptk).1 hnew
      · obtain ⟨x, hx, hxkey, hmsg, hle⟩ := hinv.staCounter (hsame ▸ hptk) (hsame ▸ hkey)
        exact ⟨x, hx, hxkey.trans hsame.symm, hmsg, hle.trans (hcounter hkey)⟩
    simp only [World.staTurn] at hptk
    split at hptk
    · rename_i hinstalls
      exact h.installed hinstalls hkey
    · exact hold hptk

/-- A frame that carries a counter of the access point moves the counter of the station forwards. -/
theorem Inv.newer (hinv : w.Inv n) {e : MacEntry} {msgType : UInt8}
    (hmsg : msgType = eapolPairMsg3 ∨ msgType = eapolGroupMsg1) (hreplay : replayDiff e p msgType = false)
    {x : ApMessage} (hx : x ∈ w.apSent) (hsame : p.SameText x.packet) :
    beNat e.rCounter.toList < beNat p.replayCounter.toList := by
  have hpos := (hinv.apSent x hx).2.2
  rw [← hsame.replayCounter] at hpos
  rcases replayDiff_acked (.inr hmsg) hreplay with hlt | hzero
  · exact hlt
  · omega

theorem Inv.staProgress (hinv : w.Inv n) {cfg : StaCfg} (hmode : w.sta.mode = .sta cfg)
    (hrsn : cfg.rsnIeLen ≠ 0) {env : Env} (hunforged : w.Unforged (.toSta env p))
    (hfresh : w.Fresh (.toSta env p)) {e' : MacEntry} {sent : List EapolPacket} {installed : Bool}
    {shared : List (List UInt8 × UInt8)}
    (h : StaOutcome cfg w.sta.entry env p e' sent installed shared) : w.StaProgress e' sent installed := by
  have hsent : ∀ {ptk : Vector UInt8 64}, ptk = w.sta.entry.ptk → ptk ≠ zeroKey →
      MicValid w.sta.entry.ptk p → w.WasSent ptk p := by
    rintro ptk rfl hkey hvalid
    exact hunforged _ List.mem_cons_self hkey hvalid
  cases h with
  | kept hptk hcounter hnonce => exact .quiet nofun ⟨hptk, fun _ => hcounter ▸ Nat.le_refl _⟩
  | @derived m hreplay hkey hcounter hnonce hmsg =>
    have hnew : e'.ptk ∉ w.staKeys := by
      apply hfresh
      rw [WpaAdapter.newKey, hmode]
      exact hkey
    obtain ⟨hdata, hsecure⟩ := msg2_data hmsg hrsn
    exact .send hmsg.isMessage.whole hmsg.isMessage.keyAck (fun _ => hsecure)
      (fun _ y hy hykey => hnew (hykey ▸ (hinv.staSent y hy).2.2.1)) (fun _ hempty => absurd hempty hdata)
      nofun (.inl hnew)
  | turned hack htype hmic hsanity hptk hcounter hnonce =>
    refine .quiet nofun ⟨hptk, fun hkey => ?_⟩
    obtain ⟨hreplay, hvalid⟩ := sanity_accepted hsanity
    obtain ⟨x, hx, hxkey, hsame⟩ := hinv.sentByAp (hsent hptk hkey (hvalid (by decide))) hack
    rw [hcounter]
    exact (hinv.newer (.inl rfl) hreplay hx hsame).le
  | @confirmed m _ hack htype hmic hsanity hnonce' hptk hcounter hnonce hmsg =>
    obtain ⟨hreplay, hvalid⟩ := sanity_accepted hsanity
    -- the frame is a message 3 of the access point
    have hthree : e'.ptk ≠ zeroKey → ∃ x ∈ w.apSent, x.ptk = e'.ptk ∧ x.packet.IsMsg3 ∧
        x.packet.replayCounter = e'.rCounter ∧
          beNat w.sta.entry.rCounter.toList ≤ beNat e'.rCounter.toList := by
      intro hkey
      obtain ⟨x, hx, hxkey, hsame⟩ := hinv.sentByAp (hsent hptk hkey (hvalid (by decide))) hack
      refine ⟨x, hx, hxkey, ⟨hsame.keyInfo ▸ htype, hsame.keyInfo ▸ hmic⟩,
        hsame.replayCounter.symm.trans hcounter.symm, ?_⟩
      rw [hcounter]
      exact (hinv.newer (.inl rfl) hreplay hx hsame).le
    have hempty : m.keyDataLen = 0 := hmsg.empty (.inl rfl)
    refine .send hmsg.whole hmsg.keyAck (fun hdata => absurd hempty hdata)
      (fun hdata => absurd hempty hdata) (fun _ _ hkey => ?_) (fun _ hkey => ?_)
      (.inr ⟨hptk, fun hkey => ?_⟩)
    · obtain ⟨x, hx, hxkey, hmsg3, hsame, -⟩ := hthree hkey
      exact ⟨rfl, x, hx, hxkey, hmsg3, hsame.trans hmsg.counter.symm⟩
    · obtain ⟨x, hx, hxkey, hmsg3, hsame, -⟩ := hthree hkey
      exact ⟨x, hx, hxkey, hmsg3, hsame ▸ Nat.le_refl _⟩
    · obtain ⟨-, -, -, -, -, hle⟩ := hthree hkey
      exact hle
  | reflected hack htype hdata hsanity hptk hcounter hnonce =>
    refine .quiet (fun _ hkey => ?_) ⟨hptk, fun _ => hcounter ▸ Nat.le_refl _⟩
    obtain ⟨hreplay, hvalid⟩ := sanity_accepted hsanity
    -- the frame is a message 4 of the station itself
    obtain ⟨y, hy, hykey, hsame⟩ := hinv.sentBySta (hsent hptk hkey (hvalid (by decide))) hack
    have hempty := hinv.notMsg2 hy hsame hdata
    obtain ⟨-, x, hx, hxkey, hmsg3, hcount⟩ :=
      hinv.msg4 y hy (hsame.keyInfo ▸ htype) hempty (hykey ▸ hkey)
    refine ⟨x, hx, hxkey.trans hykey, hmsg3, ?_⟩
    rw [hcount, ← hsame.replayCounter, hcounter,
      replayDiff_answered (by decide) (by decide) (by decide) hreplay]
  | @grouped m _ hack htype hsanity hptk hcounter hnonce hmsg =>
    obtain ⟨hreplay, hvalid⟩ := sanity_accepted hsanity
    have hempty : m.keyDataLen = 0 := hmsg.empty (.inr rfl)
    refine .send hmsg.whole hmsg.keyAck (fun hdata => absurd hempty hdata)
      (fun hdata => absurd hempty hdata) (fun hpair => ?_) nofun (.inr ⟨hptk, fun hkey => ?_⟩)
    · rw [hmsg.keyType] at hpair
      exact absurd hpair (by decide)
    · obtain ⟨x, hx, hxkey, hsame⟩ := hinv.sentByAp (hsent hptk hkey (hvalid (by decide))) hack
      rw [hcounter]
      exact (hinv.newer (.inr rfl) hreplay hx hsame).le

/-- What a step of the access point must show for the invariant. -/
structure ApProgress (w : World) (n : ℕ) (e' : MacEntry) (sent : List EapolPacket) (installed : Bool) :
    Prop where
  counter : beNat e'.rCounter.toList ≤ n + 1
  whole : ∀ m ∈ sent, m.Whole ∧ m.keyInfo.keyAck = true ∧ 0 < beNat m.replayCounter.toList
  msg3 : ∀ m ∈ sent, m.IsMsg3 → e'.ptk ≠ zeroKey → ∃ y ∈ w.staSent, y.1 = e'.ptk ∧
    y.2.keyDataLen ≠ 0 ∧ beNat m.replayCounter.toList = beNat y.2.replayCounter.toList + 1
  installed : installed = true → e'.ptk ≠ zeroKey → e'.ptk ∈ w.staInstalled

theorem Inv.apTurn {r : WpaAdapter × List Effect} (hinv : w.Inv n) (hmode : ∃ mbss, r.1.mode = .ap mbss)
    (hcipher : r.1.entry.HasCipher) (h : w.ApProgress n r.1.entry (sentOf r.2) (installs r.2)) :
    (w.apTurn r).Inv (n + 1) where
  apMode := hmode
  staMode := hinv.staMode
  apCipher := hcipher
  staCipher := hinv.staCipher
  apCounter := h.counter
  apSent x hx := by
    rcases List.mem_append.mp hx with hx | hx
    · obtain ⟨m, hm, rfl⟩ := List.mem_map.mp hx
      exact h.whole m hm
    · exact hinv.apSent x hx
  staSent := hinv.staSent
  staHolds := hinv.staHolds
  oneMsg2 := hinv.oneMsg2
  msg3 x hx hmsg hkey := by
    rcases List.mem_append.mp hx with hx | hx
    · obtain ⟨m, hm, rfl⟩ := List.mem_map.mp hx
      exact h.msg3 m hm hmsg hkey
    · exact hinv.msg3 x hx hmsg hkey
  msg4 y hy htype hdata hkey := by
    obtain ⟨hinstalled, x, hx, hsame⟩ := hinv.msg4 y hy htype hdata hkey
    exact ⟨hinstalled, x, List.mem_append_right _ hx, hsame⟩
  apInstalled ptk hptk hkey := by
    simp only [World.apTurn] at hptk
    split at hptk
    · rename_i hinstalls
      rcases List.mem_cons.mp hptk with rfl | hptk
      · exact h.installed hinstalls hkey
      · exact hinv.apInstalled ptk hptk hkey
    · exact hinv.apInstalled ptk hptk hkey
  staInstalled ptk hptk := by
    obtain ⟨hheld, hsent⟩ := hinv.staInstalled ptk hptk
    refine ⟨hheld, fun hkey => ?_⟩
    obtain ⟨x, hx, hsame⟩ := hsent hkey
    exact ⟨x, List.mem_append_right _ hx, hsame⟩
  staCounter hptk hkey := by
    obtain ⟨x, hx, hsame⟩ := hinv.staCounter hptk hkey
    exact ⟨x, List.mem_append_right _ hx, hsame⟩

/-- The counter of the access point, counted up. -/
theorem counter_succ (hn : n + 1 < 2 ^ 64) {c : Vector UInt8 8} (hc : beNat c.toList ≤ n) :
    beNat (addOneTo64BitVar c).toList = beNat c.toList + 1 := by
  rw [addOneTo64BitVar_toNat, Nat.mod_eq_of_lt (by omega)]

theorem counter_zero : beNat (Vector.replicate 8 (0 : UInt8)).toList = 0 := rfl

/-- A step that sends one message, with the next counter. -/
theorem ApProgress.send (hn : n + 1 < 2 ^ 64) {e' : MacEntry} {a : MsgArgs} {m : EapolPacket}
    {c : Vector UInt8 8} {installed : Bool} (hc : beNat c.toList ≤ n)
    (hcounter : e'.rCounter = addOneTo64BitVar c) (hmsg : Built e' a m)
    (hack : a.msgType = eapolPairMsg1 ∨ a.msgType = eapolPairMsg3 ∨ a.msgType = eapolGroupMsg1)
    (hmsg3 : a.msgType = eapolPairMsg3 → e'.ptk ≠ zeroKey → ∃ y ∈ w.staSent, y.1 = e'.ptk ∧
      y.2.keyDataLen ≠ 0 ∧ y.2.replayCounter = c)
    (hinstalled : installed = true → e'.ptk ≠ zeroKey → e'.ptk ∈ w.staInstalled) :
    w.ApProgress n e' [m] installed := by
  have hmessage := hmsg.isMessage
  have hsucc := counter_succ hn hc
  rw [← hcounter, ← hmessage.counter] at hsucc
  refine ⟨?_, List.forall_mem_singleton.mpr ⟨hmessage.whole, ?_, by omega⟩,
    List.forall_mem_singleton.mpr fun hthree hkey => ?_, hinstalled⟩
  · rw [← hmessage.counter]
    omega
  · rw [hmessage.keyAck]
    exact decide_eq_true hack
  · have htype : a.msgType = eapolPairMsg3 := by
      have hpair := hthree.1
      have hmic := hthree.2
      rw [hmessage.keyType] at hpair
      rw [hmessage.keyMic] at hmic
      rcases hack with hone | hthree | hfive
      · exact absurd hone (of_decide_eq_true hmic)
      · exact hthree
      · rw [hfive] at hpair
        exact absurd hpair (by decide)
    obtain ⟨y, hy, hykey, hdata, hycounter⟩ := hmsg3 htype hkey
    exact ⟨y, hy, hykey, hdata, by rw [hycounter, hsucc]⟩

theorem Inv.apProgress (hinv : w.Inv n) (hn : n + 1 < 2 ^ 64) {mbss mbss' : Mbss}
    (hmode : w.ap.mode = .ap mbss) {env : Env}
    (hunforged : p.keyInfo.keyAck = false → w.Unforged (.toAp env p)) {e' : MacEntry}
    {sent : List EapolPacket} {installed : Bool}
    (h : ApOutcome mbss w.ap.entry env p mbss' e' sent installed) : w.ApProgress n e' sent installed := by
  have hzero : beNat (Vector.replicate 8 (0 : UInt8)).toList ≤ n := Nat.zero_le n
  -- what is taken for message 4 under the key of the entry is message 4 of the station
  have hinstalled : e'.ptk = w.ap.entry.ptk → p.keyInfo.keyAck = false → p.keyInfo.keyType = true →
      p.keyInfo.secure = true ∨ p.keyDataLen = 0 → MicValid w.ap.entry.ptk p → e'.ptk ≠ zeroKey →
        e'.ptk ∈ w.staInstalled := by
    intro hptk hack htype hdata hvalid hkey
    obtain ⟨y, hy, hykey, hsame⟩ :=
      hinv.sentBySta (hunforged hack _ List.mem_cons_self (hptk ▸ hkey) hvalid) hack
    rw [hptk, ← hykey] at hkey ⊢
    exact (hinv.msg4 y hy (hsame.keyInfo ▸ htype) (hinv.notMsg2 hy hsame hdata) hkey).1
  cases h with
  | kept hcounter =>
    refine ⟨?_, by simp, by simp, (by rintro ⟨⟩)⟩
    rcases hcounter with hsame | hreset
    · rw [hsame]
      exact hinv.apCounter.trans (Nat.le_succ n)
    · rw [hreset, counter_zero]
      exact Nat.zero_le _
  | started hstart hcounter hmsg =>
    have hother : eapolPairMsg1 ≠ eapolPairMsg3 := by decide
    refine .send hn ?_ hcounter hmsg (.inl rfl) (fun hthree => absurd hthree hother) (by rintro ⟨⟩)
    rcases hstart with rfl | rfl
    · exact hinv.apCounter
    · exact hzero
  | answered hack hdata hkey hreplay hvalid hcounter hmsg =>
    refine .send hn hinv.apCounter hcounter hmsg (.inr (.inl rfl)) (fun _ hnonzero => ?_) (by rintro ⟨⟩)
    have hheld : e'.ptk ∈ w.ap.micKeys p := by
      apply List.mem_cons_of_mem
      rw [WpaAdapter.nextKeys, hmode]
      simp only [hkey]
      exact List.mem_cons_self
    obtain ⟨y, hy, hykey, hsame⟩ := hinv.sentBySta (hunforged hack _ hheld hnonzero hvalid) hack
    exact ⟨y, hy, hykey, hsame.keyDataLen ▸ hdata, hsame.replayCounter.symm.trans hreplay⟩
  | installed hack htype hdata hvalid hptk hcounter =>
    refine ⟨?_, by simp, by simp, fun _ => hinstalled hptk hack htype hdata hvalid⟩
    rw [hcounter]
    exact hinv.apCounter.trans (Nat.le_succ n)
  | installedFirst hack htype hdata hvalid hptk hcounter hmsg =>
    have hother : eapolGroupMsg1 ≠ eapolPairMsg3 := by decide
    exact .send hn hinv.apCounter hcounter hmsg (.inr (.inr rfl)) (fun hthree => absurd hthree hother)
      (fun _ => hinstalled hptk hack htype hdata hvalid)
  | grouped hcounter hmsg =>
    have hother : eapolGroupMsg1 ≠ eapolPairMsg3 := by decide
    exact .send hn hinv.apCounter hcounter hmsg (.inr (.inr rfl)) (fun hthree => absurd hthree hother)
      (by rintro ⟨⟩)

/-- The invariant over one step. -/
theorem Inv.step (hinv : w.Inv n) (hn : n + 1 < 2 ^ 64) {a : Action} {w' : World}
    (hunforged : w.Unforged a) (hfresh : w.Fresh a) (hstep : w.step a = some w') : w'.Inv (n + 1) := by
  obtain ⟨mbss, hap⟩ := hinv.apMode
  obtain ⟨cfg, hsta, hrsn⟩ := hinv.staMode
  have happly : ∀ {env : Env} {p : EapolPacket} {r : WpaAdapter × List Effect},
      ApResult mbss w.ap env p r → (p.keyInfo.keyAck = false → w.Unforged (.toAp env p)) →
        (w.apTurn r).Inv (n + 1) := by
    intro env p r hresult hunforged
    obtain ⟨mbss', hmode, -, houtcome⟩ := hresult.outcome
    have hcipher : r.1.entry.HasCipher := by
      rw [MacEntry.HasCipher, hresult.station.wepStatus]
      exact hinv.apCipher
    exact hinv.apTurn ⟨mbss', hmode⟩ hcipher (hinv.apProgress hn hap hunforged houtcome)
  -- a step without a frame does nothing that an answer of the station does
  obtain ⟨p₁, hp₁⟩ : ∃ p : EapolPacket, p.keyInfo.keyAck = true :=
    ⟨(mbss.msg1Args w.ap.entry).packet w.ap.entry [], ((mbss.msg1Args w.ap.entry).keyInfo_bits _).2.2.1⟩
  have hnone : ∀ env, p₁.keyInfo.keyAck = false → w.Unforged (.toAp env p₁) := by
    intro env hack
    rw [hp₁] at hack
    cases hack
  cases a with
  | start env =>
    obtain ⟨r, hr, rfl⟩ := Option.map_eq_some_iff.mp hstep
    exact happly (wpaEapolStartAction_accessPoint hap hr) (hnone env)
  | retry env =>
    obtain ⟨r, hr, rfl⟩ := Option.map_eq_some_iff.mp hstep
    exact happly (wpaRetryExec_accessPoint hap hr) (hnone env)
  | toAp env p =>
    obtain ⟨r, hr, rfl⟩ := Option.map_eq_some_iff.mp hstep
    exact happly (wpaEapolKeyAction_accessPoint hap hinv.apCipher hr) fun _ => hunforged
  | toSta env p =>
    obtain ⟨r, hr, rfl⟩ := Option.map_eq_some_iff.mp hstep
    have hresult := wpaEapolKeyAction_station hsta hinv.staCipher hr
    obtain ⟨cfg', hmode, hnetwork⟩ := hresult.mode
    have hcipher : r.1.entry.HasCipher := by
      rw [MacEntry.HasCipher, hresult.station.wepStatus]
      exact hinv.staCipher
    exact hinv.staTurn ⟨cfg', hmode, hnetwork.rsnIeLen ▸ hrsn⟩ hcipher
      (hinv.staProgress hsta hrsn hunforged hfresh hresult.outcome)

theorem Associated.inv {ap sta : WpaAdapter} (h : Associated ap sta) : (ofSides ap sta).Inv 0 where
  apMode := h.apMode
  staMode := h.staMode
  apCipher := h.apCipher
  staCipher := h.staCipher
  apCounter := by
    have hzero : (ofSides ap sta).ap.entry.rCounter = Vector.replicate 8 0 := h.apCounter
    rw [hzero, counter_zero]
  apSent := List.forall_mem_nil _
  staSent := List.forall_mem_nil _
  staHolds := List.mem_cons_self
  oneMsg2 := List.forall_mem_nil _
  msg3 := List.forall_mem_nil _
  msg4 := List.forall_mem_nil _
  apInstalled := List.forall_mem_nil _
  staInstalled := List.forall_mem_nil _
  staCounter hptk := absurd hptk List.not_mem_nil

theorem Run.inv {ap sta : WpaAdapter} {actions : List Action} (h : Run (ofSides ap sta) actions w)
    (hassociated : Associated ap sta) (hlen : actions.length < 2 ^ 64) : w.Inv actions.length := by
  induction h with
  | nil => exact hassociated.inv
  | @step actions w w' a h hunforged hfresh hstep ih =>
    rw [List.length_cons] at hlen ⊢
    exact (ih (by omega)).step hlen hunforged hfresh hstep

/-- Only what an access point can have sent is delivered to the station. -/
def Action.Outwards : Action → Prop
  | .toSta _ p => p.keyInfo.keyAck = true
  | _ => True

section Pair

/-- The first octet of a key. -/
theorem pairKey_two : (pairKey 2).map (·.toList.headD 0) = some 205 := by decide +kernel

theorem pairKey_four : (pairKey 4).map (·.toList.headD 0) = some 4 := by decide +kernel

theorem pairAssociated : Associated pairAp pairSta where
  apMode := ⟨_, rfl⟩
  staMode := ⟨_, rfl, by decide⟩
  apCipher := .inr rfl
  staCipher := .inr rfl
  apCounter := rfl
  staKey := rfl

/-- A run of a pair in which the station installs a key. -/
theorem pairRun : ∃ actions w, Run (ofSides pairAp pairSta) actions w ∧ actions.length = 4 ∧
    (∀ a ∈ actions, a.Outwards) ∧ (∃ ptk ∈ w.staInstalled, ptk ≠ zeroKey) ∧ w.staShared ≠ [] ∧
      ∃ x ∈ w.apSent, x.packet.keyInfo.keyAck = true ∧ x.ptk ≠ zeroKey ∧
        ∀ p, w.sta.micKeys p = [x.ptk] := by
  obtain ⟨e₁, e₂, e₁', a₁, m₁, m₂, hm₁, hfirst, hmsg₁, hkey₁, hsta, h₁, hm₂, hcounter₁, hone, hnonce₁,
    hnonce₂, hstate₁, hkey, hptk, hstart, hstep₁⟩ :=
      msg1_answered pairPartners rfl (by decide) rfl (pairEnv 1) (pairEnv 2)
  obtain ⟨e₃, m₃, he₃, hm₃, hstep₂⟩ :=
    msg2_answered h₁ hm₂ hcounter₁ (by dsimp only; rw [hstate₁]) hkey (pairEnv 3)
  have hap₃ : e₁.SameStation e₃ := by
    rw [he₃]
    exact ⟨rfl, rfl, rfl⟩
  have hstate₃ : e₃.wpaState = .ptkInitNegotiating := by rw [he₃]
  have h₂ : Partners { pairAp with entry := e₃ } { pairSta with entry := e₂ } pairMbss pairCfg :=
    h₁.next rfl rfl .rfl hap₃ .rfl (h₁.apListens.next rfl hap₃ (by rw [he₃]; rfl)
      (by dsimp only; rw [hstate₃]; decide)) h₁.staListens
  have hptk₃ : e₃.ptk = e₂.ptk := by rw [he₃]
  have hnonce₃ : e₃.aNonce = (pairEnv 1).random := by
    rw [he₃]
    exact hnonce₁
  have htwo : beNat e₃.rCounter.toList = 2 := by
    rw [he₃]
    simp only [MacEntry.countUp]
    rw [addOneTo64BitVar_toNat, hone]
    rfl
  obtain ⟨e₄, cfg', m₄, fx, he₄, hnetwork, hgroup, hm₄, hsent, hinstalls, hshared, hstep₃⟩ :=
    msg3_answered h₂ hm₃ hptk₃.symm (hnonce₂.trans hnonce₃.symm)
      (by dsimp only; rw [htwo, hcounter₁, hone]; decide) (pairEnv 4)
  have hmsg₃ : m₃.keyNonce = (pairEnv 1).random := by
    obtain ⟨keyData, mic, -, rfl⟩ := hm₃.data
    exact hnonce₃
  have hnew : e₂.ptk ≠ zeroKey := by
    intro hzero
    have hhead := pairKey_two
    rw [show pairKey 2 = some e₂.ptk from hptk, hzero] at hhead
    exact absurd hhead (by decide)
  let w₁ := (ofSides pairAp pairSta).apTurn
    ({ pairAp with entry := e₁ }, [.send m₁ true, .modTimer peerMsg1RetryExecIntv])
  let w₂ := w₁.staTurn ({ pairSta with entry := e₂ }, [.send m₂ true])
  let w₃ := w₂.apTurn ({ pairAp with entry := e₃ },
    [.cancelTimer, .send m₃ !e₃.portSecured, .modTimer peerMsg3RetryExecIntv])
  let w₄ := w₃.staTurn ({ pairSta with mode := .sta cfg', entry := e₄ }, fx)
  have hrun₁ : Run (ofSides pairAp pairSta) [.start (pairEnv 1)] w₁ :=
    .step .nil trivial trivial (congrArg (Option.map (ofSides pairAp pairSta).apTurn) hstart)
  have hrun₂ : Run (ofSides pairAp pairSta) [.toSta (pairEnv 2) m₁, .start (pairEnv 1)] w₂ := by
    refine .step hrun₁ (List.forall_mem_singleton.mpr fun hne => absurd rfl hne) ?_
      (congrArg (Option.map w₁.staTurn) hstep₁)
    intro ptk hmem hold
    have hkey₂ : ptkOf pairCfg.pmk m₁.keyNonce (pairEnv 2).random pairMbss.bssid pairCfg.currentAddress =
        some ptk := hmem
    rw [hmsg₁] at hkey₂
    obtain rfl : e₂.ptk = ptk := Option.some.inj (hptk.symm.trans hkey₂)
    exact hnew (List.mem_singleton.mp hold)
  have hrun₃ : Run (ofSides pairAp pairSta)
      [.toAp (pairEnv 3) m₂, .toSta (pairEnv 2) m₁, .start (pairEnv 1)] w₃ := by
    refine .step hrun₂ ?_ trivial (congrArg (Option.map w₂.apTurn) hstep₂)
    -- the key is zero, or that of the station
    intro ptk hmem hne _
    rcases List.mem_cons.mp hmem with rfl | hmem
    · exact absurd hkey₁ hne
    · have hkey₂ : ptkOf pairMbss.pmk e₁.aNonce m₂.keyNonce pairMbss.bssid e₁.addr = some ptk :=
        Option.mem_toList.mp hmem
      have hmsg₂ : m₂.keyNonce = e₂.sNonce := by
        obtain ⟨keyData, mic, -, rfl⟩ := hm₂.data
        rfl
      rw [hmsg₂] at hkey₂
      exact .inr ⟨(e₂.ptk, m₂), List.mem_singleton_self _, Option.some.inj (hkey.symm.trans hkey₂), rfl⟩
  have hrun₄ : Run (ofSides pairAp pairSta) [.toSta (pairEnv 4) m₃, .toAp (pairEnv 3) m₂,
      .toSta (pairEnv 2) m₁, .start (pairEnv 1)] w₄ := by
    refine .step hrun₃ ?_ ?_ (congrArg (Option.map w₃.staTurn) hstep₃)
    · exact List.forall_mem_singleton.mpr fun _ _ =>
        .inl ⟨⟨e₃.ptk, m₃, pairMbss.gtk, pairMbss.defaultKeyId⟩, List.mem_cons_self, hptk₃, rfl⟩
    · intro ptk hmem hold
      have hkey₄ : ptkOf pairCfg.pmk m₃.keyNonce (pairEnv 4).random e₂.addr pairCfg.currentAddress =
          some ptk := hmem
      have haddr : e₂.addr = pairMbss.bssid := h₁.staAddr
      rw [hmsg₃, haddr] at hkey₄
      have hhead := pairKey_four
      rw [show pairKey 4 = some ptk from hkey₄] at hhead
      rcases List.mem_cons.mp hold with rfl | hold
      · have hhead₂ := pairKey_two
        rw [show pairKey 2 = some e₂.ptk from hptk] at hhead₂
        exact absurd (hhead.symm.trans hhead₂) (by decide)
      · rw [List.mem_singleton.mp hold] at hhead
        exact absurd hhead (by decide)
  have hptk₄ : e₄.ptk = e₃.ptk := by rw [he₄, hptk₃]
  have hack₃ : m₃.keyInfo.keyAck = true := hm₃.isMessage.keyAck
  refine ⟨_, w₄, hrun₄, rfl, ?_, ⟨e₄.ptk, ?_, ?_⟩, ?_,
    ⟨⟨e₃.ptk, m₃, pairMbss.gtk, pairMbss.defaultKeyId⟩, List.mem_cons_self, hack₃, hptk₃ ▸ hnew,
      fun p => congrArg ([·]) hptk₄⟩⟩
  · have hack₁ : m₁.keyInfo.keyAck = true := hm₁.isMessage.keyAck.trans (by rw [hfirst]; rfl)
    rintro a (_ | ⟨_, _ | ⟨_, _ | ⟨_, _ | ⟨_, h⟩⟩⟩⟩)
    · exact hack₃
    · trivial
    · exact hack₁
    · trivial
    · cases h
  · simp only [w₄, World.staTurn, hinstalls, if_true]
    exact List.mem_cons_self
  · rw [he₄]
    exact hnew
  · intro hnone
    have hwpa2 : e₂.bWpa2 = true := by
      rw [MacEntry.bWpa2, hsta.authMode]
      rfl
    exact hshared hwpa2 (List.map_eq_nil_iff.mp (List.append_eq_nil_iff.mp hnone).1)

end Pair

/-- Messages 3 under one key have one counter. -/
theorem Inv.oneMsg3 (hinv : w.Inv n) {x x' : ApMessage} (hx : x ∈ w.apSent) (hx' : x' ∈ w.apSent)
    (hmsg : x.packet.IsMsg3) (hmsg' : x'.packet.IsMsg3) (hsame : x.ptk = x'.ptk)
    (hkey : x.ptk ≠ zeroKey) :
    beNat x.packet.replayCounter.toList = beNat x'.packet.replayCounter.toList := by
  obtain ⟨y, hy, hykey, hdata, hcount⟩ := hinv.msg3 x hx hmsg hkey
  obtain ⟨y', hy', hykey', hdata', hcount'⟩ := hinv.msg3 x' hx' hmsg' (hsame ▸ hkey)
  have htext := hinv.oneMsg2 y hy y' hy' (hykey.trans (hsame.trans hykey'.symm)) hdata hdata'
  rw [hcount, hcount', htext]

/-- A message 3 that is taken has a key that is not installed yet. -/
theorem Inv.notInstalled (hinv : w.Inv n) {env : Env} (hunforged : w.Unforged (.toSta env p))
    (hack : p.keyInfo.keyAck = true) (htype : p.keyInfo.keyType = true) (hmic : p.keyInfo.keyMic = true)
    {groupKey : Option (List UInt8 × UInt8)}
    (hsanity : peerWpaMessageSanity w.sta.entry p eapolPairMsg3 = some (.accepted groupKey))
    (hkey : w.sta.entry.ptk ≠ zeroKey) : w.sta.entry.ptk ∉ w.staInstalled := by
  intro hinstalled
  obtain ⟨hreplay, hvalid⟩ := sanity_accepted hsanity
  obtain ⟨x, hx, hxkey, hsame⟩ :=
    hinv.sentByAp (hunforged _ List.mem_cons_self hkey (hvalid (by decide))) hack
  have hlt := hinv.newer (.inl rfl) hreplay hx hsame
  obtain ⟨x', hx', hxkey', hmsg', hle⟩ := hinv.staCounter hinstalled hkey
  have hcount := hinv.oneMsg3 hx hx' ⟨hsame.keyInfo ▸ htype, hsame.keyInfo ▸ hmic⟩ hmsg'
    (hxkey.trans hxkey'.symm) (hxkey ▸ hkey)
  rw [hsame.replayCounter, hcount] at hlt
  omega

end World
end Rt5572

import StandaloneDrivers.Foundations.Run
import StandaloneDrivers.R92su.Connection

/-! The list of stations over all interleavings of station events, joins and BSS frees. -/
namespace R92su.Device
open Foundations

/-- The list is counted, its mac_ids and MAC addresses are distinct, and while a BSS is
connected its station is listed, under the mac_id of the BSS. -/
structure Registered (s : Device) : Prop where
  counted : s.stas.Counted
  distinct : s.stas.Distinct
  bssSta : s.state = .connected → ∀ c ∈ s.connectBss,
    ∃ sta ∈ s.stas.list, sta.id = c.sta ∧ sta.macId = bssMacid
  connected : s.connectBss ≠ none → s.state = .connected ∨ s.state = .dead

theorem registered_start (iftype : Iftype) : (start iftype).Registered where
  counted := StaList.counted_empty
  distinct := List.nodup_nil
  bssSta := by simp [start]
  connected := by simp [start]

/-- Without a connected BSS, or on a dead device, only the list itself matters. -/
theorem registered_of_idle {s : Device} (hidle : s.connectBss = none ∨ s.state = .dead)
    (hcounted : s.stas.Counted) (hdistinct : s.stas.Distinct) : s.Registered where
  counted := hcounted
  distinct := hdistinct
  bssSta := by
    rcases hidle with hc | hd
    · simp [hc]
    · simp [hd]
  connected := by
    rcases hidle with hc | hd
    · simp [hc]
    · exact fun _ => Or.inr hd

theorem bssFree_list {s : Device} (hcounted : s.stas.Counted) (hdistinct : s.stas.Distinct)
    (bss : Option ℕ) : (s.bssFree bss).stas.Counted ∧ (s.bssFree bss).stas.Distinct := by
  cases bss with
  | none => exact ⟨hcounted, hdistinct⟩
  | some bss => exact ⟨hcounted.staDel bssMacid, hdistinct.staDel bssMacid⟩

theorem foldl_staDel {stas : StaList} (hcounted : stas.Counted) (hdistinct : stas.Distinct)
    (macIds : List ℕ) : (macIds.foldl StaList.staDel stas).Counted ∧
      (macIds.foldl StaList.staDel stas).Distinct := by
  induction macIds generalizing stas with
  | nil => exact ⟨hcounted, hdistinct⟩
  | cons macId macIds ih => exact ih (hcounted.staDel macId) (hdistinct.staDel macId)

theorem staDelAll_registered {s : Device} (hidle : s.connectBss = none ∨ s.state = .dead)
    (hcounted : s.stas.Counted) (hdistinct : s.stas.Distinct) : s.staDelAll.Registered := by
  obtain ⟨hc, hd⟩ := foldl_staDel hcounted hdistinct (List.range maxSta)
  unfold staDelAll
  generalize (List.range maxSta).foldl StaList.staDel s.stas = stas at hc hd ⊢
  exact registered_of_idle hidle hc hd

theorem bssFreeConnected_connect (s : Device) : s.bssFreeConnected.connectBss = none := by
  unfold bssFreeConnected
  rw [bssFree_connect]

/-- The result of a join that is taken over. -/
def Joins (join : JoinBss) (alloc : Bool) : Prop :=
  12 ≤ join.ieLength ∧ join.joinResult ≠ 0 ∧ alloc = true

instance (join : JoinBss) (alloc : Bool) : Decidable (Joins join alloc) :=
  inferInstanceAs (Decidable (_ ∧ _ ∧ _))

namespace Registered
variable {s : Device} (h : s.Registered)
include h

theorem congr {t : Device} (hstas : t.stas = s.stas) (hstate : t.state = s.state)
    (hconn : t.connectBss = s.connectBss) : t.Registered where
  counted := hstas ▸ h.counted
  distinct := hstas ▸ h.distinct
  bssSta := by
    rw [hstas, hstate, hconn]
    exact h.bssSta
  connected := by
    rw [hstate, hconn]
    exact h.connected

theorem bssFree {bss : Option ℕ} (hc : bss ≠ none → s.connectBss = none) :
    (s.bssFree bss).Registered := by
  cases bss with
  | none => exact h
  | some bss =>
    obtain ⟨hcounted, hdistinct⟩ := bssFree_list h.counted h.distinct (some bss)
    exact registered_of_idle (Or.inl (hc (by simp))) hcounted hdistinct

theorem bssFreeConnected : s.bssFreeConnected.Registered := by
  have hlist := bssFree_list (s := { s with
    state := if s.isConnected then .opened else s.state
    connectBss := none }) h.counted h.distinct (s.connectBss.map ConnectBss.bss)
  exact registered_of_idle (Or.inl (bssFreeConnected_connect s)) hlist.1 hlist.2

theorem connect (a : Attempt) : (s.connect a).Registered := by
  apply h.congr <;> unfold Device.connect internalConnect <;> split_ifs <;> rfl

theorem joinIbss (a : Attempt) : (s.joinIbss a).Registered := by
  apply h.congr <;> unfold Device.joinIbss internalConnect <;> split_ifs <;> rfl

theorem joinBssEvent (copied : Bool) (join : JoinBss) : (s.joinBssEvent copied join).Registered := by
  apply h.congr <;> unfold Device.joinBssEvent <;> split_ifs <;> rfl

theorem bssConnectWork {alloc : Bool} (hlost : s.isOpen = true → s.wantConnectBss ≠ none →
    (∀ p ∈ s.connectResult, ¬ Joins p.2 alloc) → s.connectBss = none)
    (hnew : s.isOpen = true → s.wantConnectBss ≠ none → ∀ p ∈ s.connectResult,
      Joins p.2 alloc → ∀ sta ∈ s.stas.list, sta.macAddr = p.2.bssid → sta.macId = bssMacid) :
    (s.bssConnectWork alloc).Registered := by
  unfold Device.bssConnectWork
  split
  · exact h
  · rename_i hopen
    rw [Bool.not_eq_true, Bool.not_eq_false'] at hopen
    cases hw : s.wantConnectBss with
    | none =>
      cases hr : s.connectResult with
      | none => exact h
      | some p => exact h.congr rfl rfl rfl
    | some bss =>
      have hwant : s.wantConnectBss ≠ none := by simp [hw]
      cases hr : s.connectResult with
      | none => exact h.bssFree fun _ => hlost hopen hwant (by simp [hr])
      | some p =>
        obtain ⟨buf, join⟩ := p
        dsimp only
        by_cases hjoin : 12 ≤ join.ieLength ∧ join.joinResult ≠ 0 ∧ alloc = true
        · rw [if_pos hjoin]
          constructor
          · exact h.counted.staAlloc _ _ _
          · exact h.counted.distinct_staAlloc h.distinct
              (hnew hopen hwant (buf, join) hr hjoin) join.aid
          · rintro - c hc
            cases hc
            exact ⟨_, List.mem_cons_self, StaList.staDel_nextId bssMacid, rfl⟩
          · exact fun _ => Or.inl rfl
        · rw [if_neg hjoin]
          have hnone := hlost hopen hwant fun p hp => by
            rw [hr] at hp
            cases hp
            exact hjoin
          rw [← hw]
          have hs : (freeJoin { s with connectResult := none } buf).Registered := h.congr rfl rfl rfl
          exact hs.bssFree fun _ => hnone

theorem stop : s.stop.Registered := by
  have hdisc : (if s.isConnected then s.bssFreeConnected else s).Registered ∧
      ((if s.isConnected then s.bssFreeConnected else s).connectBss = none ∨
        (if s.isConnected then s.bssFreeConnected else s).state = .dead) := by
    split
    · exact ⟨h.bssFreeConnected, Or.inl (bssFreeConnected_connect s)⟩
    · rename_i hconn
      refine ⟨h, ?_⟩
      by_cases hc : s.connectBss = none
      · exact Or.inl hc
      · rcases h.connected hc with hstate | hdead
        · exact absurd (by rw [isConnected, hstate]; rfl) hconn
        · exact Or.inr hdead
  unfold Device.stop
  generalize (if s.isConnected then s.bssFreeConnected else s) = t at hdisc ⊢
  obtain ⟨ht, hidle⟩ := hdisc
  have hfree := bssFree_list (s := { t with
    state := if t.isInitializing then .stop else t.state
    wantConnectBss := none }) ht.counted ht.distinct t.wantConnectBss
  apply staDelAll_registered _ hfree.1 hfree.2
  rw [bssFree_connect, bssFree_state]
  rcases hidle with hnone | hdead
  · exact Or.inl hnone
  · right
    simp only [isInitializing, hdead]
    rfl

/-- Stations may go as long as the BSS station stays. -/
theorem staDel {macId : ℕ} (hne : s.state = .connected → s.connectBss ≠ none →
    macId ≠ bssMacid) : Registered { s with stas := s.stas.staDel macId } where
  counted := h.counted.staDel macId
  distinct := h.distinct.staDel macId
  bssSta := by
    intro hstate c hc
    obtain ⟨sta, hm, hid, hmac⟩ := h.bssSta hstate c hc
    have hneq := hne hstate (Option.ne_none_iff_exists'.mpr ⟨c, hc⟩)
    exact ⟨sta, h.counted.mem_staDel.mpr ⟨hm, by rw [hmac]; exact hneq.symm⟩, hid, hmac⟩
  connected := h.connected

theorem addStaEvent {alloc : Bool} {macAddr : MacAddr} {aid : ℕ}
    (hnew : alloc = true → ∀ sta ∈ s.stas.list, sta.macAddr = macAddr → sta.macId = aid)
    (hbss : alloc = true → s.state = .connected → s.connectBss ≠ none → aid ≠ bssMacid) :
    (s.addStaEvent alloc macAddr aid).Registered := by
  unfold Device.addStaEvent
  split
  · rename_i halloc
    have hdel := h.staDel (hbss halloc)
    constructor
    · exact h.counted.staAlloc _ _ _
    · exact h.counted.distinct_staAlloc h.distinct (hnew halloc) aid
    · intro hstate c hc
      obtain ⟨sta, hm, hid⟩ := hdel.bssSta hstate c hc
      exact ⟨sta, List.mem_cons_of_mem _ hm, hid⟩
    · exact h.connected
  · exact h

theorem delStaEvent {macAddr : MacAddr} (hbss : s.iftype ≠ .station → s.state = .connected →
    s.connectBss ≠ none → ∀ sta ∈ s.stas.staGet macAddr, sta.macId ≠ bssMacid) :
    (s.delStaEvent macAddr).Registered := by
  unfold Device.delStaEvent
  split
  · exact h.congr rfl rfl rfl
  · rename_i hmode
    cases hget : s.stas.staGet macAddr with
    | none => exact h
    | some sta => exact h.staDel fun hstate hconn => hbss hmode hstate hconn sta hget

/-- After the event no station has the address. -/
theorem staGet_delStaEvent (hmode : s.iftype ≠ .station) (macAddr : MacAddr) :
    (s.delStaEvent macAddr).stas.staGet macAddr = none := by
  unfold Device.delStaEvent
  rw [if_neg hmode]
  cases hget : s.stas.staGet macAddr with
  | none => exact hget
  | some sta =>
    have hmem := List.mem_of_find?_eq_some hget
    have haddr := List.find?_some (p := fun x : Sta => x.macAddr == macAddr) hget
    apply List.find?_eq_none.mpr
    intro other hother hsame
    obtain ⟨hin, hne⟩ := h.counted.mem_staDel.mp hother
    have heq : other = sta := by
      apply List.inj_on_of_nodup_map h.distinct hin hmem
      rw [beq_iff_eq.mp hsame, beq_iff_eq.mp haddr]
    exact hne (heq ▸ rfl)

end Registered

/-- The work of an open device that finds a BSS wanted: a join that is taken over finds its
BSSID listed under the mac_id of the BSS only, any other ending finds no BSS connected. -/
def JoinKeepsStations (s : Device) (alloc : Bool) : Prop :=
  s.isOpen = true → s.wantConnectBss ≠ none →
    ((∀ p ∈ s.connectResult, ¬ Joins p.2 alloc) → s.connectBss = none) ∧
    ∀ p ∈ s.connectResult, Joins p.2 alloc →
      ∀ sta ∈ s.stas.list, sta.macAddr = p.2.bssid → sta.macId = bssMacid

/-- An added station has a new address, or one listed under its own mac_id, and while a BSS is
connected neither replaces nor removes the station of the BSS. -/
def KeepsStations (s : Device) : Event → Prop
  | .connectWork alloc => s.connectBssWork = true → s.JoinKeepsStations alloc
  | .addSta alloc macAddr aid => alloc = true →
      (∀ sta ∈ s.stas.list, sta.macAddr = macAddr → sta.macId = aid) ∧
      (s.state = .connected → s.connectBss ≠ none → aid ≠ bssMacid)
  | .delSta macAddr => s.iftype ≠ .station → s.state = .connected → s.connectBss ≠ none →
      ∀ sta ∈ s.stas.staGet macAddr, sta.macId ≠ bssMacid
  | _ => True

instance (s : Device) (alloc : Bool) : Decidable (s.JoinKeepsStations alloc) := by
  unfold JoinKeepsStations
  infer_instance

instance : ∀ s e, Decidable (KeepsStations s e)
  | _, .connectWork _ => inferInstanceAs (Decidable (_ → _))
  | _, .addSta _ _ _ => inferInstanceAs (Decidable (_ → _ ∧ _))
  | _, .delSta _ => inferInstanceAs (Decidable (_ → _ → _ → _))
  | _, .connect _ | _, .joinIbss _ | _, .joinBss _ _ | _, .disconnect | _, .disconnectWork | _, .stop
  | _, .openDevice _ | _, .markDead => isTrue trivial

theorem Registered.step {s : Device} (h : s.Registered) {e : Event} (hk : s.KeepsStations e) :
    (s.step e).Registered := by
  cases e with
  | connect a => exact h.connect a
  | joinIbss a => exact h.joinIbss a
  | joinBss copied join => exact h.joinBssEvent copied join
  | connectWork alloc =>
    simp only [Device.step]
    split
    · rename_i hpending
      have hs : Registered { s with connectBssWork := false } := h.congr rfl rfl rfl
      exact hs.bssConnectWork (fun ho hw => (hk hpending ho hw).1) fun ho hw => (hk hpending ho hw).2
    · exact h
  | disconnect => exact h.bssFreeConnected
  | disconnectWork =>
    simp only [Device.step]
    split
    · have hs : Registered { s with disconnectWork := false } := h.congr rfl rfl rfl
      exact hs.bssFreeConnected
    · exact h
  | stop => exact h.stop
  | openDevice loaded =>
    simp only [Device.step, Device.openDevice]
    split
    · rename_i hstop
      have hnone : s.connectBss = none := by
        by_contra hc
        rcases h.connected hc with hconn | hdead
        · rw [hstop.1] at hconn
          cases hconn
        · rw [hstop.1] at hdead
          cases hdead
      exact registered_of_idle (Or.inl hnone) h.counted h.distinct
    · exact h
  | markDead => exact registered_of_idle (Or.inr rfl) h.counted h.distinct
  | addSta alloc macAddr aid =>
    exact h.addStaEvent (fun ha => (hk ha).1) fun ha => (hk ha).2
  | delSta macAddr => exact h.delStaEvent hk

/-- What the list of stations promises: it is counted, neither mac_ids nor addresses occur
twice, a deleted address is gone, and the station of the connected BSS is listed. -/
structure StationsSound (s : Device) : Prop where
  staNum : s.stas.staNum = s.stas.list.length
  macIds : (s.stas.list.map Sta.macId).Nodup
  macAddrs : (s.stas.list.map Sta.macAddr).Nodup
  deleted : ∀ macAddr, s.iftype ≠ .station →
    (s.step (.delSta macAddr)).stas.staGet macAddr = none
  bssSta : s.state = .connected → ∀ c ∈ s.connectBss, ∃ sta ∈ s.stas.list, sta.id = c.sta

theorem Registered.stationsSound {s : Device} (h : s.Registered) : s.StationsSound where
  staNum := h.counted.staNum
  macIds := h.counted.macIds
  macAddrs := h.distinct
  deleted := fun macAddr hmode => h.staGet_delStaEvent hmode macAddr
  bssSta := by
    intro hstate c hc
    obtain ⟨sta, hm, hid, -⟩ := h.bssSta hstate c hc
    exact ⟨sta, hm, hid⟩

/-- In a run whose steps all meet the condition the list of stations is sound throughout. -/
theorem run_stationsSound (iftype : Iftype) (es : List Event)
    (hk : Guarded step KeepsStations (start iftype) es) :
    (run step (start iftype) es).StationsSound :=
  (guarded_invariant Registered (fun _ _ h he => h.step he) (registered_start iftype)
    hk).stationsSound

/-- An IBSS is joined, and a station comes and goes. -/
theorem run_stationsSound_ibss : (run step (start .adhoc) [.openDevice true,
    .joinIbss ⟨true, false, true, true, true, true, true⟩, .joinBss true ⟨1, 12, 7, 0⟩,
    .connectWork true, .addSta true 9 1, .delSta 9, .stop]).StationsSound :=
  run_stationsSound .adhoc _ (by decide)

/-- A station that the firmware adds as number 5 takes the place of the station of the BSS. -/
theorem bss_station_replaced : ¬ ∀ iftype es, (run step (start iftype) es).StationsSound := by
  intro h
  have hbss := (h .adhoc [.openDevice true, .joinIbss ⟨true, false, true, true, true, true, true⟩,
    .joinBss true ⟨1, 12, 7, 0⟩, .connectWork true, .addSta true 9 5]).bssSta
  exact absurd hbss (by decide)

end R92su.Device

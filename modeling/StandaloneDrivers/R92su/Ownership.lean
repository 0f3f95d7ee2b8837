import StandaloneDrivers.Foundations.Run
import StandaloneDrivers.R92su.Connection

/-! Who holds the references to BSSs and the copies of join events, over all interleavings of
connection attempts, events, work items and stops. -/
namespace R92su.Device
open Foundations

/-- Every reference taken was put once or is the wanted or the connected BSS, and every copy
was freed once or is the pending result. -/
structure Owned (s : Device) : Prop where
  refs : s.refs.Balanced (s.wantConnectBss.toList ++ (s.connectBss.map ConnectBss.bss).toList)
  bufs : s.bufs.Balanced (s.connectResult.map Prod.fst).toList

theorem owned_start (iftype : Iftype) : (start iftype).Owned :=
  ⟨Ledger.balanced_empty, Ledger.balanced_empty⟩

theorem bssFree_refs (s : Device) (bss : Option ℕ) {held : List ℕ}
    (h : s.refs.Balanced (bss.toList ++ held)) : (s.bssFree bss).refs.Balanced held := by
  cases bss with
  | none => exact h
  | some bss => exact h.release

namespace Owned
variable {s : Device} (h : s.Owned)
include h

theorem bssFreeConnected : s.bssFreeConnected.Owned where
  refs := by
    unfold Device.bssFreeConnected
    rw [bssFree_want, bssFree_connect]
    exact bssFree_refs _ _ (h.refs.perm (by simpa using List.perm_append_comm))
  bufs := by
    unfold Device.bssFreeConnected
    rw [bssFree_bufs, bssFree_result]
    exact h.bufs

theorem stop : s.stop.Owned := by
  have hdisc : (if s.isConnected then s.bssFreeConnected else s).Owned := by
    split
    · exact h.bssFreeConnected
    · exact h
  unfold Device.stop
  generalize (if s.isConnected then s.bssFreeConnected else s) = t at hdisc ⊢
  constructor
  · simp only [staDelAll, bssFree_want, bssFree_connect]
    exact bssFree_refs _ _ hdisc.refs
  · simp only [staDelAll, bssFree_bufs, bssFree_result]
    exact hdisc.bufs

/-- A new reference that is put at once. -/
theorem getBss_failed (hw : s.wantConnectBss = none) :
    (s.getBss.connectFailed s.refs.next).Owned where
  refs := by
    have href := h.refs.take
    rw [hw] at href
    exact href.release
  bufs := h.bufs

theorem getBss_internalConnect (hw : s.wantConnectBss = none) (a : Attempt) :
    (s.getBss.internalConnect a s.refs.next).Owned := by
  unfold internalConnect
  split
  · exact h.getBss_failed hw
  · split
    · exact ⟨(h.getBss_failed hw).refs, h.bufs⟩
    · have href := h.refs.take
      rw [hw] at href
      exact ⟨href, h.bufs⟩

theorem failed (hw : s.wantConnectBss = none) : (s.connectFailed none).Owned where
  refs := by
    have href := h.refs
    rw [hw] at href
    exact href
  bufs := h.bufs

theorem connect {a : Attempt} (hw : a.scan = true → s.isOpen = true → s.wantConnectBss = none) :
    (s.connect a).Owned := by
  unfold Device.connect
  split_ifs with hscan hopen hfound hsetup
  · exact h
  · exact h
  · exact h.failed (hw (by simpa using hscan) (by simpa using hopen))
  · exact h.getBss_failed (hw (by simpa using hscan) (by simpa using hopen))
  · exact h.getBss_internalConnect (hw (by simpa using hscan) (by simpa using hopen)) a

theorem joinIbss {a : Attempt} (hw : a.scan = true → s.isOpen = true →
    (a.found = true ∨ a.setup = false ∨ a.informed = true) → s.wantConnectBss = none) :
    (s.joinIbss a).Owned := by
  unfold Device.joinIbss
  split_ifs with hscan hopen hfound hsetup hinformed hfw
  · exact h
  · exact h
  · exact h.getBss_internalConnect (hw (by simpa using hscan) (by simpa using hopen) (by simp_all)) a
  · exact h.failed (hw (by simpa using hscan) (by simpa using hopen) (by simp_all))
  · exact h
  · exact h.getBss_failed (hw (by simpa using hscan) (by simpa using hopen) (by simp_all))
  · exact h.getBss_internalConnect (hw (by simpa using hscan) (by simpa using hopen) (by simp_all)) a

theorem joinBssEvent (copied : Bool) (join : JoinBss) : (s.joinBssEvent copied join).Owned := by
  unfold Device.joinBssEvent
  split_ifs with hsome hcopied
  · exact h
  · have hnone : s.connectResult = none := by simpa using hsome
    have hbuf := h.bufs.take
    rw [hnone] at hbuf
    exact ⟨h.refs, hbuf⟩
  · have hnone : s.connectResult = none := by simpa using hsome
    have hbuf := h.bufs
    rw [hnone] at hbuf
    exact ⟨h.refs, hbuf⟩

end Owned

/-- What the connect work finds: either nothing is wanted and there is no result, or a BSS is
wanted and the result is a success that yields a station while no BSS is connected. -/
def JoinGoesWell (s : Device) (alloc : Bool) : Prop :=
  match s.wantConnectBss, s.connectResult with
  | none, none => True
  | some _, some (_, join) =>
      12 ≤ join.ieLength ∧ join.joinResult ≠ 0 ∧ alloc = true ∧ s.connectBss = none
  | _, _ => False

instance (s : Device) (alloc : Bool) : Decidable (s.JoinGoesWell alloc) := by
  unfold JoinGoesWell
  split <;> infer_instance

theorem Owned.bssConnectWork {s : Device} (h : s.Owned) {alloc : Bool}
    (hgood : s.isOpen = true → s.JoinGoesWell alloc) : (s.bssConnectWork alloc).Owned := by
  unfold Device.bssConnectWork
  split
  · exact h
  · rename_i hopen
    have hg := hgood (by simpa using hopen)
    unfold JoinGoesWell at hg
    cases hw : s.wantConnectBss with
    | none =>
      cases hr : s.connectResult with
      | none => exact h
      | some p => simp [hw, hr] at hg
    | some bss =>
      cases hr : s.connectResult with
      | none => simp [hw, hr] at hg
      | some p =>
        obtain ⟨buf, join⟩ := p
        simp only [hw, hr] at hg ⊢
        obtain ⟨hlen, hres, halloc, hconn⟩ := hg
        rw [if_pos ⟨hlen, hres, halloc⟩]
        have href := h.refs
        have hbuf := h.bufs
        rw [hw, hconn] at href
        rw [hr] at hbuf
        exact ⟨href, hbuf.release⟩

/-- An attempt that reaches the driver while the device is open finds no BSS wanted, and the
connect work of an open device finds that the join went well. -/
def KeepsOwnership (s : Device) : Event → Prop
  | .connect a => a.scan = true → s.isOpen = true → s.wantConnectBss = none
  | .joinIbss a => a.scan = true → s.isOpen = true →
      (a.found = true ∨ a.setup = false ∨ a.informed = true) → s.wantConnectBss = none
  | .connectWork alloc => s.connectBssWork = true → s.isOpen = true → s.JoinGoesWell alloc
  | _ => True

instance : ∀ s e, Decidable (KeepsOwnership s e) := by
  intro s e
  cases e <;> unfold KeepsOwnership <;> infer_instance

theorem Owned.step {s : Device} (h : s.Owned) {e : Event} (hk : s.KeepsOwnership e) :
    (s.step e).Owned := by
  cases e with
  | connect a => exact h.connect hk
  | joinIbss a => exact h.joinIbss hk
  | joinBss copied join => exact h.joinBssEvent copied join
  | connectWork alloc =>
    simp only [Device.step]
    split
    · rename_i hpending
      exact bssConnectWork (s := { s with connectBssWork := false }) ⟨h.refs, h.bufs⟩ (hk hpending)
    · exact h
  | disconnect => exact h.bssFreeConnected
  | disconnectWork =>
    simp only [Device.step]
    split
    · exact bssFreeConnected (s := { s with disconnectWork := false }) ⟨h.refs, h.bufs⟩
    · exact h
  | stop => exact h.stop
  | openDevice loaded =>
    simp only [Device.step, Device.openDevice]
    split
    · exact ⟨h.refs, h.bufs⟩
    · exact h
  | markDead => exact ⟨h.refs, h.bufs⟩
  | addSta alloc macAddr aid =>
    simp only [Device.step, Device.addStaEvent]
    split
    · exact ⟨h.refs, h.bufs⟩
    · exact h
  | delSta macAddr =>
    simp only [Device.step, Device.delStaEvent]
    split
    · exact ⟨h.refs, h.bufs⟩
    · split
      · exact h
      · exact ⟨h.refs, h.bufs⟩

/-- Neither pointer is left behind when what it points to is put or freed. -/
structure NoneDangling (s : Device) : Prop where
  want : ∀ bss ∈ s.wantConnectBss, bss ∉ s.refs.released
  result : ∀ p ∈ s.connectResult, p.1 ∉ s.bufs.released

theorem Owned.noneDangling {s : Device} (h : s.Owned) : s.NoneDangling where
  want := by
    intro bss hb
    exact h.refs.notMem_released (List.mem_append_left _ (Option.mem_toList.mpr hb))
  result := by
    intro p hp
    rw [Option.mem_def] at hp
    exact h.bufs.notMem_released (by simp [hp])

end R92su.Device

import StandaloneDrivers.Rtl8188eu.Reorder

/-! Keys, stations and the search for a station (rtw_security.h, sta_info.h, rtw_sta_mgt.c). -/
namespace Rtl8188eu
open Foundations
attribute [local instance] neZero_four

/-- `union Keytype` -/
abbrev Keytype : Type := Vector UInt8 16

/-- What the data paths read of `struct security_priv`. -/
structure SecurityPriv where
  dot11AuthAlgrthm : ℕ
  dot11PrivacyAlgrthm : EncryAlgo
  dot11PrivacyKeyIndex : Fin 4
  dot11DefKey : Vector Keytype 4
  dot11DefKeylen : Vector ℕ 4
  dot118021XGrpPrivacy : EncryAlgo
  dot118021XGrpKeyid : Fin 4
  dot118021XGrpKey : Vector Keytype 4
  dot118021XGrptxmickey : Vector Keytype 4
  dot118021XGrprxmickey : Vector Keytype 4
  binstallGrpkey : Bool
  busetkipkey : Bool
  swEncrypt : Bool
  swDecrypt : Bool
  hwDecrypted : Bool
  deriving DecidableEq, Repr

/-- `struct security_priv` as it is allocated, filled with zeroes. -/
def SecurityPriv.zero : SecurityPriv where
  dot11AuthAlgrthm := 0
  dot11PrivacyAlgrthm := .noPrivacy
  dot11PrivacyKeyIndex := 0
  dot11DefKey := Vector.replicate 4 (Vector.replicate 16 0)
  dot11DefKeylen := Vector.replicate 4 0
  dot118021XGrpPrivacy := .noPrivacy
  dot118021XGrpKeyid := 0
  dot118021XGrpKey := Vector.replicate 4 (Vector.replicate 16 0)
  dot118021XGrptxmickey := Vector.replicate 4 (Vector.replicate 16 0)
  dot118021XGrprxmickey := Vector.replicate 4 (Vector.replicate 16 0)
  binstallGrpkey := false
  busetkipkey := false
  swEncrypt := false
  swDecrypt := false
  hwDecrypted := false

/-- One of the four keys of a table. -/
def keyAt (keys : Vector Keytype 4) (keyIndex : ℕ) : Keytype :=
  keys[keyIndex]?.getD (Vector.replicate 16 0)

/-- The cipher of a station's frames, left alone by an unknown authentication algorithm. -/
def getEncryAlgo (sec : SecurityPriv) (dot118021XPrivacy : EncryAlgo) (bmcst : Bool)
    (encryAlgo : EncryAlgo) : EncryAlgo :=
  match sec.dot11AuthAlgrthm with
  | 0 | 1 | 3 | 4 => sec.dot11PrivacyAlgrthm
  | 2 => if bmcst then sec.dot118021XGrpPrivacy else dot118021XPrivacy
  | _ => encryAlgo

/-- What the data paths read of `struct mlme_priv`: the bits of `fw_state`, the addresses of the
network and of the station itself, and the options of the network. -/
structure MlmePriv where
  stationState : Bool
  apState : Bool
  adhocState : Bool
  adhocMasterState : Bool
  mpState : Bool
  fwLinked : Bool
  fwUnderLinking : Bool
  bssid : MacAddr
  myid : MacAddr
  qosOption : Bool
  acmMask : UInt8
  htOption : Bool
  deriving DecidableEq, Repr

def MlmePriv.zero : MlmePriv where
  stationState := false
  apState := false
  adhocState := false
  adhocMasterState := false
  mpState := false
  fwLinked := false
  fwUnderLinking := false
  bssid := Vector.replicate 6 0
  myid := Vector.replicate 6 0
  qosOption := false
  acmMask := 0
  htOption := false

/-- What the data paths read and write of `struct sta_info`. -/
structure StaInfo where
  hwaddr : MacAddr
  ieee8021xBlocked : Bool
  fwLinked : Bool
  qosOption : Bool
  dot118021XPrivacy : EncryAlgo
  dot118021xUncstKey : Keytype
  dot11tkiptxmickey : Keytype
  dot11tkiprxmickey : Keytype
  dot11txpn : ℕ
  txseqTid : Vector ℕ 16
  tidRxseq : Vector ℕ 16
  defragQ : List RecvFrame
  recvreorderCtrl : Vector RecvReorderCtrl 16
  deriving DecidableEq, Repr

/-- A station that `rtw_alloc_stainfo` has just set up. -/
def StaInfo.alloc (hwaddr : MacAddr) : StaInfo where
  hwaddr := hwaddr
  ieee8021xBlocked := false
  fwLinked := false
  qosOption := false
  dot118021XPrivacy := .noPrivacy
  dot118021xUncstKey := Vector.replicate 16 0
  dot11tkiptxmickey := Vector.replicate 16 0
  dot11tkiprxmickey := Vector.replicate 16 0
  dot11txpn := 0
  txseqTid := Vector.replicate 16 0
  tidRxseq := Vector.replicate 16 0xffff
  defragQ := []
  recvreorderCtrl := Vector.replicate 16 { RecvReorderCtrl.start with enable := false }

/-- `struct sta_priv`: the slots, and those in the hash table in the order of the search. -/
structure StaPriv where
  stainfo : List StaInfo
  staHash : List ℕ
  deriving DecidableEq, Repr

def bcAddr : MacAddr := Vector.replicate 6 0xff

namespace StaPriv

/-- All multicast addresses stand for one station. -/
def searched (hwaddr : MacAddr) : MacAddr := if isMcast hwaddr then bcAddr else hwaddr

/-- The slot that `rtw_get_stainfo` finds; a null pointer finds none. -/
def rtwGetStainfo (stapriv : StaPriv) (hwaddr : Option MacAddr) : Option ℕ :=
  hwaddr.bind fun hwaddr => stapriv.staHash.find? fun i =>
    (stapriv.stainfo[i]?).any fun psta => psta.hwaddr == searched hwaddr

def rtwGetBcmcStainfo (stapriv : StaPriv) : Option ℕ := stapriv.rtwGetStainfo (some bcAddr)

/-- The station of the search. -/
def station (stapriv : StaPriv) (hwaddr : MacAddr) : Option StaInfo :=
  (stapriv.rtwGetStainfo (some hwaddr)).bind (stapriv.stainfo[·]?)

def modify (stapriv : StaPriv) (i : ℕ) (f : StaInfo → StaInfo) : StaPriv :=
  { stapriv with stainfo := stapriv.stainfo.modify i f }

def setDefragQ (stapriv : StaPriv) (i : ℕ) (q : List RecvFrame) : StaPriv :=
  stapriv.modify i fun psta => { psta with defragQ := q }

theorem rtwGetStainfo_lt {stapriv : StaPriv} {hwaddr : Option MacAddr} {i : ℕ}
    (h : stapriv.rtwGetStainfo hwaddr = some i) : ∃ psta, stapriv.stainfo[i]? = some psta := by
  cases hwaddr with
  | none => cases h
  | some hwaddr =>
    have hfound := List.find?_some h
    cases hslot : stapriv.stainfo[i]? with
    | none =>
      rw [hslot] at hfound
      cases hfound
    | some psta => exact ⟨psta, rfl⟩

end StaPriv

end Rtl8188eu

import StandaloneDrivers.R92su.Reassembly
import StandaloneDrivers.R92su.Receive

/-! What the receive stages read of a frame, each read with its place and length (rx.c). -/
namespace R92su
open Foundations

/-- `sizeof(struct ieee80211_hdr)`, which has four addresses. -/
def sizeofHdr : ℕ := 30

def isMgmt (fc : ℕ) : Bool := fc &&& 0x000C == 0

def isDataPresent (fc : ℕ) : Bool := fc &&& 0x004C == 0x0008

/-- What the check reads of the receive descriptor. -/
structure RxDescriptor where
  crc32 : Bool
  swdec : Bool

/-- The frame without its checksum, or `none` for `RX_DROP`. -/
def rxHwHeaderCheck (rx : RxDescriptor) (data : List UInt8) : Option (List UInt8) :=
  if data.length < sizeofHdr + fcsLen then none
  else
    let data := data.take (data.length - fcsLen)
    let fc := le16 data 0
    if rx.crc32 then none
    else if hasProtected fc && rx.swdec then none
    else if !(isDataPresent fc || isMgmt fc) then none
    else if data.length < hdrlen fc then none
    else some data

/-- Some bytes of a frame that a stage reads. -/
structure Read where
  skb : Skb
  offset : ℕ
  count : ℕ

def Read.Inside (r : Read) : Prop := r.offset + r.count ≤ r.skb.data.length

namespace Skb

def readFrameControl (skb : Skb) : Read := ⟨skb, 0, 2⟩

def readSeqCtrl (skb : Skb) : Read := ⟨skb, 22, 2⟩

/-- Byte `i` of the IV. -/
def readIv (skb : Skb) (i : ℕ) : Read := ⟨skb, skb.hdrlen + i, 1⟩

/-- The source of the `memmove` that strips the IV. -/
def readHeader (skb : Skb) : Read := ⟨skb, 0, skb.hdrlen⟩

end Skb

def findKeyReads (skb : Skb) : List Read :=
  if skb.cb.hasProtect then [skb.readFrameControl, skb.readIv 3] else []

def ivStrippedReads (ivLen : ℕ) (skb : Skb) : List Read :=
  if skb.data.length ≤ ivLen then [] else [skb.readHeader]

def ivHandleReads (keys : ℕ → Key) (skb : Skb) : List Read :=
  skb.readFrameControl ::
  match skb.cb.key.map keys with
  | none => []
  | some key =>
      match key.type with
      | .wep40 | .wep104 => ivStrippedReads (getIvLen key) skb
      | .tkip =>
          skb.readIv 3 ::
          if !skb.extIv then []
          else [7, 6, 5, 4, 0, 2].map skb.readIv ++
            if key.rxSeq ≥ skb.tkipSeq then [] else ivStrippedReads (getIvLen key) skb
      | .aesccmp =>
          skb.readIv 3 ::
          if !skb.extIv then []
          else [7, 6, 5, 4, 1, 0].map skb.readIv ++
            if skb.ccmpSeq ≤ key.rxSeq then [] else ivStrippedReads (getIvLen key) skb
      | _ => []

/-- The Michael MIC covers the addresses, the priority and the data; it is compared with the
bytes behind them. -/
def michaelReads (skb : Skb) : List Read :=
  [⟨skb, getDA skb.frameControl, 6⟩, ⟨skb, getSA skb.frameControl, 6⟩] ++
  (if isDataQos skb.frameControl then [⟨skb, if hasA4 skb.frameControl then 30 else 24, 1⟩]
    else []) ++
  [⟨skb, skb.hdrlen, skb.data.length - skb.hdrlen - 12⟩, ⟨skb, skb.data.length - 12, 8⟩]

def icvMicHandleReads (keys : ℕ → Key) (skb : Skb) : List Read :=
  skb.readFrameControl ::
  match skb.cb.key.map keys with
  | none => []
  | some key =>
      match key.type with
      | .tkip => if skb.data.length < skb.hdrlen + 12 then [] else michaelReads skb
      | _ => []

def checkIfMatchReads (skb : Skb) (defrag : DefragEntry) : List Read :=
  match defrag.queue.getLast? with
  | none => []
  | some tmp => [skb.readSeqCtrl, tmp.readSeqCtrl]

/-- Each round reads the header in front, and all of the frame that takes its place. -/
def mergeReads : List Skb → Skb → List Read
  | [], _ => []
  | tmp :: queue, skb =>
    mergeReads queue skb ++ [(mergeQueue queue skb).readFrameControl, ⟨tmp, 0, tmp.data.length⟩]

def defragReads (key : Option Key) (expanded : Bool) (skb : Skb) (defrag : DefragEntry) :
    List Read :=
  [skb.readFrameControl, skb.readSeqCtrl] ++
  (if skb.frag = 0 then [] else checkIfMatchReads skb defrag) ++
  (if !hasMorefrags skb.frameControl && skb.frag != 0 && checkIfMatch skb defrag key && expanded then
    mergeReads defrag.queue skb else [])

/-- A stage of the handler: what it reads, and what it does. -/
structure Stage where
  reads : RxContext → Skb → List Read
  handle : RxContext → Skb → RxControl × RxContext × Skb

def findKeyStage (bss : BssPriv) : Stage where
  reads := fun _ skb => findKeyReads skb
  handle := fun s skb => ((rxFindKey bss skb).1, s, (rxFindKey bss skb).2)

def ivHandleStage : Stage where
  reads := fun s skb => ivHandleReads s.keys skb
  handle := fun s skb => ((rxIvHandle s.keys skb).1, s, (rxIvHandle s.keys skb).2)

def icvMicHandleStage : Stage where
  reads := fun s skb => icvMicHandleReads s.keys skb
  handle := fun s skb =>
    let r := rxIcvMicHandle s.keys skb
    (r.1, { s with keys := r.2.1 }, r.2.2)

def defragStage (expanded : Bool) : Stage where
  reads := fun s skb =>
    defragReads (skb.cb.key.map s.keys) expanded skb (s.defrag (skb.cb.sta, skb.queueMapping))
  handle := fun s skb => s.defragStage expanded skb

/-- The stages that `r92su_rx_handler` starts with. -/
def handlerStages (bss : BssPriv) (expanded : Bool) : List Stage :=
  [findKeyStage bss, ivHandleStage, icvMicHandleStage, defragStage expanded]

/-- One stage after the other, while they pass the frame on. -/
def runStages : List Stage → RxContext → Skb → RxControl × RxContext × Skb
  | [], s, skb => (.rxContinue, s, skb)
  | stage :: stages, s, skb =>
    match stage.handle s skb with
    | (.rxContinue, s, skb) => runStages stages s skb
    | r => r

/-- Every queued fragment has its header, and no less than a header without options. -/
def QueuesHeld (defrag : Option ℕ × ℕ → DefragEntry) : Prop :=
  ∀ entry, ∀ f ∈ (defrag entry).queue, f.hdrlen ≤ f.data.length ∧ 24 ≤ f.data.length

/-- Every stage reads inside the frames, and a frame it passes on or keeps still has its header. -/
def StagesSafe : List Stage → RxContext → Skb → Prop
  | [], _, _ => True
  | stage :: stages, s, skb =>
    (∀ r ∈ stage.reads s skb, r.Inside) ∧
    ((stage.handle s skb).1 ≠ .rxDrop →
      (stage.handle s skb).2.2.hdrlen ≤ (stage.handle s skb).2.2.data.length) ∧
    QueuesHeld (stage.handle s skb).2.1.defrag ∧
    ((stage.handle s skb).1 = .rxContinue →
      StagesSafe stages (stage.handle s skb).2.1 (stage.handle s skb).2.2)

/-- The stages are those of the handler, and the counter of the key is set behind them. -/
theorem prepare_eq_runStages (bss : BssPriv) (s : RxContext) (mpdu : Mpdu) :
    s.prepare bss mpdu =
      match runStages (handlerStages bss mpdu.expanded) s mpdu.skb with
      | (.rxContinue, s, skb) =>
        ({ s with keys := (rxIvCheck s.keys skb).2 },
          if (rxIvCheck s.keys skb).1 = .rxContinue then some skb else none)
      | (_, s, _) => (s, none) := by
  simp only [RxContext.prepare, handlerStages, findKeyStage, ivHandleStage, icvMicHandleStage,
    defragStage, runStages]
  rcases rxFindKey bss mpdu.skb with ⟨_ | _ | _, skb⟩ <;> dsimp only
  rcases rxIvHandle s.keys skb with ⟨_ | _ | _, skb⟩ <;> dsimp only
  rcases rxIcvMicHandle s.keys skb with ⟨_ | _ | _, keys, skb⟩ <;> dsimp only
  rcases RxContext.defragStage { s with keys := keys } mpdu.expanded skb with
    ⟨_ | _ | _, s, skb⟩ <;> dsimp only
  rcases rxIvCheck s.keys skb with ⟨_ | _ | _, keys⟩ <;> rfl

end R92su

import StandaloneDrivers.Rt5572.ManagementElements

/-! The elements of spectrum management frames (common/spectrum.c), and what the eight parsers of
management frames read, return, and write to `Rates`. -/
namespace Rt5572
open Foundations
open BssTab (eidStruct)

abbrev ieTpcRequest : UInt8 := 34
abbrev ieTpcReport : UInt8 := 35
abbrev ieChannelSwitchAnnouncement : UInt8 := 37
abbrev ieMeasurementRequest : UInt8 := 38
abbrev ieMeasurementReport : UInt8 := 39

abbrev rmBasic : UInt8 := 0
abbrev rmCca : UInt8 := 1
abbrev rmRpiHistogram : UInt8 := 2

/-- The element that a parser looks for: how many of its bytes are copied, and what is left of them.
What is read reaches as far as these bytes do. -/
structure Wanted (σ : Type) where
  id : UInt8
  need : Memory → ℕ → ℕ
  take : Memory → ℕ → σ → Parsed σ
  take_inside : ∀ m pos s n, pos + 2 ≤ n →
    ((∀ r ∈ (take m pos s).reads, r.Inside n) ↔ pos + 2 + need m pos ≤ n)

structure ChSwAnnInfo where
  chSwMode : UInt8
  channel : UInt8
  chSwCnt : UInt8
  deriving DecidableEq, Repr

/-- `MEASURE_REQ_INFO` and `MEASURE_REQ` -/
structure MeasureReq where
  token : UInt8
  reqMode : UInt8
  reqType : UInt8
  chNum : UInt8
  measureStartTime : ℕ
  measureDuration : ℕ
  deriving DecidableEq, Repr

/-- `MEASURE_REPORT_INFO`, and the bytes of the buffer for the report. -/
structure MeasureReport where
  token : UInt8
  reportMode : UInt8
  reportType : UInt8
  reportBuf : List UInt8
  deriving DecidableEq, Repr

structure TpcReportInfo where
  txPwr : UInt8
  linkMargin : UInt8
  deriving DecidableEq, Repr

/-- The number that `SWAP64` makes of bytes that were copied to a little-endian one. -/
def swapped (bytes : List UInt8) : ℕ := bytes.foldl (fun n b => 256 * n + b.toNat) 0

section Take
variable (m : Memory) (pos : ℕ)

def takeChSwAnn (_ : ChSwAnnInfo) : Parsed ChSwAnnInfo :=
  ⟨[⟨pos + 2, 1⟩, ⟨pos + 3, 1⟩, ⟨pos + 4, 1⟩], ⟨m (pos + 2), m (pos + 3), m (pos + 4)⟩⟩

def takeMeasureReq (_ : MeasureReq) : Parsed MeasureReq :=
  { reads := [⟨pos + 2, 1⟩, ⟨pos + 3, 1⟩, ⟨pos + 4, 1⟩, ⟨pos + 5, 1⟩, ⟨pos + 6, 8⟩, ⟨pos + 14, 2⟩]
    out :=
      { token := m (pos + 2)
        reqMode := m (pos + 3)
        reqType := m (pos + 4)
        chNum := m (pos + 5)
        measureStartTime := swapped (m.read (pos + 6) 8)
        measureDuration := swapped (m.read (pos + 14) 2) } }

/-- How many bytes are copied behind channel, start time and duration of a report. -/
def reportTail (reportType : UInt8) : Option ℕ :=
  if reportType = rmBasic then some 1
  else if reportType = rmCca then some 1
  else if reportType = rmRpiHistogram then some 8
  else none

def takeMeasureReport (r : MeasureReport) : Parsed MeasureReport :=
  let info : List Span := [⟨pos + 2, 1⟩, ⟨pos + 3, 1⟩, ⟨pos + 4, 1⟩]
  match reportTail (m (pos + 4)) with
  | some tail =>
      { reads := info ++ [⟨pos + 5, 1⟩, ⟨pos + 6, 8⟩, ⟨pos + 14, 2⟩, ⟨pos + 16, tail⟩]
        out :=
          { token := m (pos + 2)
            reportMode := m (pos + 3)
            reportType := m (pos + 4)
            reportBuf := m.read (pos + 5) (11 + tail) ++ r.reportBuf.drop (11 + tail) } }
  | none =>
      { reads := info
        out :=
          { r with
            token := m (pos + 2)
            reportMode := m (pos + 3)
            reportType := m (pos + 4) } }

def reportNeed : ℕ :=
  match reportTail (m (pos + 4)) with
  | some tail => 14 + tail
  | none => 3

def takeTpcRep (_ : TpcReportInfo) : Parsed TpcReportInfo :=
  ⟨[⟨pos + 2, 1⟩, ⟨pos + 3, 1⟩], ⟨m (pos + 2), m (pos + 3)⟩⟩

end Take

/-- `case IE_CHANNEL_SWITCH_ANNOUNCEMENT` -/
def chSwAnnElement : Wanted ChSwAnnInfo where
  id := ieChannelSwitchAnnouncement
  need _ _ := 3
  take := takeChSwAnn
  take_inside m pos s n _ := by
    simp only [takeChSwAnn]
    rw [List.forall_mem_cons, List.forall_mem_cons, List.forall_mem_singleton]
    simp only [Span.Inside]
    omega

/-- `case IE_MEASUREMENT_REQUEST` -/
def measureReqElement : Wanted MeasureReq where
  id := ieMeasurementRequest
  need _ _ := 14
  take := takeMeasureReq
  take_inside m pos s n _ := by
    simp only [takeMeasureReq]
    rw [List.forall_mem_cons, List.forall_mem_cons, List.forall_mem_cons, List.forall_mem_cons,
      List.forall_mem_cons, List.forall_mem_singleton]
    simp only [Span.Inside]
    omega

/-- `case IE_MEASUREMENT_REPORT` -/
def measureReportElement : Wanted MeasureReport where
  id := ieMeasurementReport
  need := reportNeed
  take := takeMeasureReport
  take_inside m pos s n _ := by
    rw [takeMeasureReport, reportNeed]
    cases reportTail (m (pos + 4)) with
    | some tail =>
      simp only [List.cons_append, List.nil_append]
      rw [List.forall_mem_cons, List.forall_mem_cons, List.forall_mem_cons, List.forall_mem_cons,
        List.forall_mem_cons, List.forall_mem_cons, List.forall_mem_singleton]
      simp only [Span.Inside]
      omega
    | none =>
      dsimp only
      rw [List.forall_mem_cons, List.forall_mem_cons, List.forall_mem_singleton]
      simp only [Span.Inside]
      omega

/-- `case IE_TPC_REQUEST`, of which nothing is copied. -/
def tpcReqElement : Wanted Unit where
  id := ieTpcRequest
  need _ _ := 0
  take _ _ s := ⟨[], s⟩
  take_inside _ _ _ _ h := iff_of_true (fun _ hr => absurd hr List.not_mem_nil) h

/-- `case IE_TPC_REPORT` -/
def tpcRepElement : Wanted TpcReportInfo where
  id := ieTpcReport
  need _ _ := 2
  take := takeTpcRep
  take_inside m pos s n _ := by
    simp only [takeTpcRep]
    rw [List.forall_mem_cons, List.forall_mem_singleton]
    simp only [Span.Inside]
    omega

namespace Wanted
variable {σ : Type} (w : Wanted σ) (m : Memory)

def visit (pos : ℕ) (s : σ × Bool) : Parsed (σ × Bool) :=
  if m pos = w.id then ⟨(w.take m pos s.1).reads, ((w.take m pos s.1).out, true)⟩ else ⟨[], s⟩

/-- The walk from `pFramePtr` on, with what is left of `MsgLen` there, and `result` behind it. -/
def walk (pFramePtr msgLen : UInt32) (s : σ) : Parsed (σ × Bool) :=
  eidWalk m (w.visit m) (pFramePtr + msgLen).toNat pFramePtr.toNat (s, false)

end Wanted

section Parsers
variable (m : Memory) (msgLen : UInt32)

def peerChSwAnnSanity (pChSwAnnInfo : ChSwAnnInfo) : Parsed (ChSwAnnInfo × Bool) :=
  chSwAnnElement.walk m 26 (msgLen - 24 - 2) pChSwAnnInfo

def withDialogToken {σ : Type} (r : Parsed (σ × Bool)) : Parsed (UInt8 × σ × Bool) :=
  ⟨⟨26, 1⟩ :: r.reads, (m 26, r.out)⟩

def peerMeasureReqSanity (pMeasureReq : MeasureReq) : Parsed (UInt8 × MeasureReq × Bool) :=
  withDialogToken m (measureReqElement.walk m 27 (msgLen - 24 - 2 - 1) pMeasureReq)

def peerMeasureReportSanity (pReport : MeasureReport) : Parsed (UInt8 × MeasureReport × Bool) :=
  withDialogToken m (measureReportElement.walk m 27 (msgLen - 24 - 2 - 1) pReport)

def peerTpcReqSanity : Parsed (UInt8 × Unit × Bool) :=
  withDialogToken m (tpcReqElement.walk m 27 (msgLen - 24 - 2 - 1) ())

def peerTpcRepSanity (pTpcRepInfo : TpcReportInfo) : Parsed (UInt8 × TpcReportInfo × Bool) :=
  withDialogToken m (tpcRepElement.walk m 27 (msgLen - 24 - 2 - 1) pTpcRepInfo)

end Parsers

/-- A complete element of the wanted id that is as long as what is copied of it. -/
def LongEnough (m : Memory) (msgLen start : ℕ) (id : UInt8) (need : Memory → ℕ → ℕ) : Prop :=
  ∃ p ∈ eidStruct.items m msgLen start, m p = id ∧ need m p ≤ (m (p + 1)).toNat

/-- The frames that a parser of spectrum management handles: the last element is cut off behind its
header, what is copied of an element lies inside, and one is long enough if there is any. -/
structure SpectrumFits (m : Memory) (msgLen start : ℕ) (id : UInt8) (need : Memory → ℕ → ℕ) :
    Prop where
  cutOff : eidStruct.itemsEnd m msgLen start + 2 ≤ msgLen
  copies : ∀ p ∈ eidStruct.items m msgLen start, m p = id → p + 2 + need m p ≤ msgLen
  long : (∃ p ∈ eidStruct.items m msgLen start, m p = id) → LongEnough m msgLen start id need

namespace Wanted
variable {σ : Type} {w : Wanted σ} {m : Memory} {stop pos : ℕ}

theorem visit_inside (s : σ × Bool) (h : eidStruct.next m pos ≤ stop) :
    (∀ r ∈ (w.visit m pos s).reads, r.Inside stop) ↔
      (m pos = w.id → pos + 2 + w.need m pos ≤ stop) := by
  have hroom : pos + 2 ≤ stop := Nat.le_trans (eidStruct.header_le_next m pos) h
  rw [visit]
  split_ifs with hid
  · rw [w.take_inside m pos s.1 stop hroom]
    exact (imp_iff_right hid).symm
  · exact iff_of_true (fun _ hr => absurd hr List.not_mem_nil) (fun h => absurd h hid)

theorem visit_found (s : σ × Bool) : (w.visit m pos s).out.2 = true ↔ m pos = w.id ∨ s.2 = true := by
  rw [visit]
  split_ifs with hid
  · exact iff_of_true rfl (Or.inl hid)
  · exact (or_iff_right hid).symm

/-- `result` is set for an element of the wanted id. -/
theorem eidWalk_found (s : σ × Bool) :
    (eidWalk m (w.visit m) stop pos s).out.2 = true ↔
      (∃ p ∈ eidStruct.items m stop pos, m p = w.id) ∨ s.2 = true := by
  fun_induction Tlv.items eidStruct m stop pos generalizing s with
  | case1 pos hle ih =>
    rw [eidWalk_of_complete hle, ih, visit_found, List.exists_mem_cons_iff, ← or_assoc]
    exact or_congr_left or_comm
  | case2 pos hlt =>
    rw [eidWalk_of_cut (Nat.not_le.mp hlt)]
    simp

/-- A walk with the remaining length ends where the frame does. -/
theorem walk_iff {pFramePtr msgLen rest : UInt32} (h : pFramePtr + rest = msgLen) (s : σ) :
    (∀ r ∈ (w.walk m pFramePtr rest s).reads, r.Inside msgLen.toNat) ∧
        ((w.walk m pFramePtr rest s).out.2 = true →
          LongEnough m msgLen.toNat pFramePtr.toNat w.id w.need) ↔
      SpectrumFits m msgLen.toNat pFramePtr.toNat w.id w.need := by
  have hreads : (∀ r ∈ (eidWalk m (w.visit m) msgLen.toNat pFramePtr.toNat (s, false)).reads,
        r.Inside msgLen.toNat) ↔
      eidStruct.itemsEnd m msgLen.toNat pFramePtr.toNat + 2 ≤ msgLen.toNat ∧
        ∀ p ∈ eidStruct.items m msgLen.toNat pFramePtr.toNat, m p = w.id →
          p + 2 + w.need m p ≤ msgLen.toNat :=
    eidWalk_inside (I := fun _ => True) (fun _ _ _ _ => trivial)
      (fun _ s hp _ => visit_inside s hp) trivial
  have hfound : (eidWalk m (w.visit m) msgLen.toNat pFramePtr.toNat (s, false)).out.2 = true ↔
      ∃ p ∈ eidStruct.items m msgLen.toNat pFramePtr.toNat, m p = w.id := by
    rw [eidWalk_found]
    exact or_iff_left Bool.false_ne_true
  rw [walk, h, hfound]
  refine (and_congr_left' hreads).trans ?_
  constructor
  · rintro ⟨⟨hcut, hcopies⟩, hlong⟩
    exact ⟨hcut, hcopies, hlong⟩
  · intro hfits
    exact ⟨⟨hfits.cutOff, hfits.copies⟩, hfits.long⟩

end Wanted

/-- A call of one of the eight parsers, with what the caller has left in its variables. -/
inductive SanityCall
  | probeReq (bRssiRequested : Option Bool)
  | dlsReq (rates : Memory) (ratesLen : UInt8) (htCapability : List UInt8)
  | dlsRsp (pStatus : Bool) (rates : Memory) (ratesLen : UInt8) (htCapability : List UInt8)
  | chSwAnn (pChSwAnnInfo : ChSwAnnInfo)
  | measureReq (pMeasureReq : MeasureReq)
  | measureReport (pReport : MeasureReport)
  | tpcReq
  | tpcRep (pTpcRepInfo : TpcReportInfo)

namespace SanityCall
variable (c : SanityCall) (m : Memory) (msgLen : UInt32)

/-- What is read of the frame. -/
def reads : List Span :=
  match c with
  | .probeReq b => (peerProbeReqSanity m msgLen b).reads
  | .dlsReq rates ratesLen ht => (peerDlsReqSanity m msgLen rates ratesLen ht).reads
  | .dlsRsp pStatus rates ratesLen ht => (peerDlsRspSanity m msgLen pStatus rates ratesLen ht).reads
  | .chSwAnn info => (peerChSwAnnSanity m msgLen info).reads
  | .measureReq info => (peerMeasureReqSanity m msgLen info).reads
  | .measureReport info => (peerMeasureReportSanity m msgLen info).reads
  | .tpcReq => (peerTpcReqSanity m msgLen).reads
  | .tpcRep info => (peerTpcRepSanity m msgLen info).reads

/-- What is written to `Rates`. -/
def ratesWrites : List Span :=
  match c with
  | .dlsReq rates ratesLen ht => (peerDlsReqSanity m msgLen rates ratesLen ht).out.elements.writes
  | .dlsRsp pStatus rates ratesLen ht =>
      (peerDlsRspSanity m msgLen pStatus rates ratesLen ht).out.elements.writes
  | _ => []

/-- When a parser of spectrum management returns TRUE, one element is long enough. -/
def ReturnsFound : Prop :=
  match c with
  | .chSwAnn info => (peerChSwAnnSanity m msgLen info).out.2 = true →
      LongEnough m msgLen.toNat 26 ieChannelSwitchAnnouncement fun _ _ => 3
  | .measureReq info => (peerMeasureReqSanity m msgLen info).out.2.2 = true →
      LongEnough m msgLen.toNat 27 ieMeasurementRequest fun _ _ => 14
  | .measureReport info => (peerMeasureReportSanity m msgLen info).out.2.2 = true →
      LongEnough m msgLen.toNat 27 ieMeasurementReport reportNeed
  | .tpcReq => (peerTpcReqSanity m msgLen).out.2.2 = true →
      LongEnough m msgLen.toNat 27 ieTpcRequest fun _ _ => 0
  | .tpcRep info => (peerTpcRepSanity m msgLen info).out.2.2 = true →
      LongEnough m msgLen.toNat 27 ieTpcReport fun _ _ => 2
  | _ => True

structure Sound : Prop where
  reads : ∀ r ∈ c.reads m msgLen, r.Inside msgLen.toNat
  rates : ∀ w ∈ c.ratesWrites m msgLen, w.Inside BssTab.maxLenOfSupportedRates
  found : c.ReturnsFound m msgLen

/-- The frames for which a call is sound. -/
def Fits : Prop :=
  match c with
  | .probeReq _ => ProbeFits m msgLen.toNat
  | .dlsReq _ ratesLen _ => DlsFits m msgLen.toNat ratesLen
  | .dlsRsp _ _ ratesLen _ => DlsFits m msgLen.toNat ratesLen
  | .chSwAnn _ => SpectrumFits m msgLen.toNat 26 ieChannelSwitchAnnouncement fun _ _ => 3
  | .measureReq _ => SpectrumFits m msgLen.toNat 27 ieMeasurementRequest fun _ _ => 14
  | .measureReport _ => SpectrumFits m msgLen.toNat 27 ieMeasurementReport reportNeed
  | .tpcReq => SpectrumFits m msgLen.toNat 27 ieTpcRequest fun _ _ => 0
  | .tpcRep _ => SpectrumFits m msgLen.toNat 27 ieTpcReport fun _ _ => 2

end SanityCall

/-- The dialog token lies in front of the elements. -/
theorem withDialogToken_iff {σ : Type} {w : Wanted σ} {m : Memory} {msgLen : UInt32} {s : σ} :
    (∀ r ∈ (withDialogToken m (w.walk m 27 (msgLen - 24 - 2 - 1) s)).reads,
        r.Inside msgLen.toNat) ∧
      ((withDialogToken m (w.walk m 27 (msgLen - 24 - 2 - 1) s)).out.2.2 = true →
        LongEnough m msgLen.toNat 27 w.id w.need) ↔
      SpectrumFits m msgLen.toNat 27 w.id w.need := by
  have hrest : 27 + (msgLen - 24 - 2 - 1) = msgLen := by grind
  have hwalk := w.walk_iff (m := m) hrest s
  have htoken : (∀ r ∈ (w.walk m 27 (msgLen - 24 - 2 - 1) s).reads, r.Inside msgLen.toNat) ∧
      ((w.walk m 27 (msgLen - 24 - 2 - 1) s).out.2 = true →
        LongEnough m msgLen.toNat 27 w.id w.need) → (⟨26, 1⟩ : Span).Inside msgLen.toNat := by
    intro hboth
    have hend : eidStruct.itemsEnd m msgLen.toNat 27 + 2 ≤ msgLen.toNat := (hwalk.mp hboth).cutOff
    have hle := le_itemsEnd (m := m) msgLen.toNat 27
    simp only [Span.Inside]
    omega
  rw [withDialogToken, List.forall_mem_cons, and_assoc]
  exact (and_iff_right_of_imp htoken).trans hwalk

theorem SanityCall.sound_split {c : SanityCall} {m : Memory} {msgLen : UInt32} :
    c.Sound m msgLen ↔ (∀ r ∈ c.reads m msgLen, r.Inside msgLen.toNat) ∧
      (∀ w ∈ c.ratesWrites m msgLen, w.Inside BssTab.maxLenOfSupportedRates) ∧
        c.ReturnsFound m msgLen :=
  ⟨fun h => ⟨h.reads, h.rates, h.found⟩, fun ⟨hreads, hrates, hfound⟩ => ⟨hreads, hrates, hfound⟩⟩

/-- Each of the eight parsers stays inside of the frame and of `Rates`, and returns TRUE for an
element that is long enough, for exactly the frames that fit. -/
theorem SanityCall.sound_iff (c : SanityCall) (m : Memory) (msgLen : UInt32) :
    c.Sound m msgLen ↔ c.Fits m msgLen := by
  have hnone : ∀ w ∈ ([] : List Span), w.Inside BssTab.maxLenOfSupportedRates :=
    fun w hw => absurd hw List.not_mem_nil
  rw [sound_split]
  cases c with
  | probeReq b => exact (and_iff_left ⟨hnone, trivial⟩).trans peerProbeReqSanity_inside
  | dlsReq rates ratesLen ht =>
    exact (and_congr_right fun _ => and_iff_left trivial).trans peerDlsReqSanity_iff
  | dlsRsp pStatus rates ratesLen ht =>
    exact (and_congr_right fun _ => and_iff_left trivial).trans peerDlsRspSanity_iff
  | chSwAnn info =>
    have hrest : 26 + (msgLen - 24 - 2) = msgLen := by grind
    exact (and_congr_right fun _ => and_iff_right hnone).trans
      (chSwAnnElement.walk_iff hrest info)
  | measureReq info =>
    exact (and_congr_right fun _ => and_iff_right hnone).trans withDialogToken_iff
  | measureReport info =>
    exact (and_congr_right fun _ => and_iff_right hnone).trans withDialogToken_iff
  | tpcReq => exact (and_congr_right fun _ => and_iff_right hnone).trans withDialogToken_iff
  | tpcRep info =>
    exact (and_congr_right fun _ => and_iff_right hnone).trans withDialogToken_iff

/-- A channel switch announcement of 31 bytes, whose element ends with the frame. -/
def filledAnnouncement : Memory :=
  let bytes : List UInt8 := [0xd0, 0, 0, 0] ++ List.replicate 20 2 ++ [0, 4, 37, 3, 0, 6, 1]
  fun i => bytes.getD i 0

/-- Its walk reads a length behind the end of the frame. -/
theorem filledAnnouncement_overread :
    ¬(SanityCall.chSwAnn ⟨0, 0, 0⟩).Sound filledAnnouncement 31 := by
  have hnext : eidStruct.next filledAnnouncement 26 = 31 := by decide
  have hlast : 31 < eidStruct.next filledAnnouncement 31 := by decide
  intro h
  have hread : (⟨32, 1⟩ : Span) ∈ (peerChSwAnnSanity filledAnnouncement 31 ⟨0, 0, 0⟩).reads := by
    change _ ∈ (eidWalk filledAnnouncement (chSwAnnElement.visit filledAnnouncement) 31 26 _).reads
    rw [eidWalk_of_complete (Nat.le_of_eq hnext), hnext, eidWalk_of_cut hlast]
    exact List.mem_append_right _ (List.mem_singleton.mpr rfl)
  exact absurd (h.reads _ hread) (by decide)

end Rt5572

import LambdaIOT.Httpd.Reading
import LambdaIOT.Httpd.Reach

/-!
# The device description

`SSDP_Sending` writes one document, whatever room its calls have. A stage is done only with 128
bytes free, and an element has 127 at most; a call that stops leaves the stage it stopped at, and
the next one goes on there. Here the strings of the device are any.
-/

namespace Httpd

open CMem

/-- What the description tells of a device. -/
structure DeviceStrings where
  deviceName : Bytes
  vendor : Bytes
  vendorURL : Bytes
  model : Bytes
  modelURL : Bytes
  deviceVersion : Bytes
  deviceSN : Bytes
  deviceUUID : Bytes

/-- The strings of this build. -/
def deviceStrings : DeviceStrings :=
  ⟨getDeviceName, getVendor, getVendorURL, getModel, getModelURL, getDeviceVersion, getDeviceSN,
    getDeviceUUID⟩

/-- The text of each stage. -/
def describe (d : DeviceStrings) (https : Bool) (ip : Nat) : List Bytes :=
  let http := if https then ascii "https://" else ascii "http://"
  let ip := dottedIP ip
  [ascii "<?xml version=\"1.0\"?>\r\n",
   ascii "<root xmlns=\"urn:schemas-upnp-org:device-1-0\">\r\n",
   ascii "<specVersion><major>1</major><minor>0</minor></specVersion>\r\n",
   ascii "<URLBase>" ++ http ++ ip ++ ascii "</URLBase>\r\n",
   ascii "<device>\r\n",
   ascii "<deviceType>urn:schemas-upnp-org:device:Basic:1</deviceType>\r\n",
   ascii "<friendlyName>" ++ d.deviceName ++ ascii "</friendlyName>\r\n",
   ascii "<presentationURL>" ++ http ++ ip ++ ascii "</presentationURL>\r\n",
   ascii "<manufacturer>" ++ d.vendor ++ ascii "</manufacturer>\r\n",
   ascii "<manufacturerURL>" ++ d.vendorURL ++ ascii "</manufacturerURL>\r\n",
   ascii "<modelDescription>" ++ d.model ++ ascii "</modelDescription>\r\n",
   ascii "<modelName>" ++ d.model ++ ascii "</modelName>\r\n",
   ascii "<modelNumber>" ++ d.deviceName ++ ascii " (" ++ d.deviceVersion ++
     ascii ")</modelNumber>\r\n",
   ascii "<modelURL>" ++ d.modelURL ++ ascii "</modelURL>\r\n",
   ascii "<serialNumber>" ++ d.deviceSN ++ ascii "</serialNumber>\r\n",
   ascii "<UDN>uuid:" ++ d.deviceUUID ++ ascii "</UDN>\r\n",
   ascii "</device>\r\n</root>\r\n"]

/-- `SSDP_Sending(context, buffer, maxSize)` on a device with these strings. -/
def ssdpSendingOf (d : DeviceStrings) (h : Request) (c : Call) (maxSize : Int) : Content :=
  if h.requestMethod = .get then
    if c.r.dwOperStage = stageEnd then ⟨c, -1, [0]⟩
    else
      let pieces := describe d c.w.listening443 c.w.dev.workConfig.dwIP
      let s := ssdpStages maxSize (pieces.drop c.r.dwOperStage) c.r.dwOperStage []
      ⟨{ c with r := { c.r with dwOperStage := s.1 } }, s.2.length, s.2 ++ [0]⟩
  else ⟨c, 0, []⟩

/-- The handler of the server is the one with the strings of this build. -/
theorem ssdpSending_eq : ssdpSending = ssdpSendingOf deviceStrings := rfl

/-- The bytes a call returns; the caller sends these and no others. -/
def Content.sent (x : Content) : Bytes := x.out.take x.size.toNat

/-! ## One call -/

/-- What the stages that are left give: all of them, or some and the number of the next. -/
theorem ssdpStages_cases (maxSize : Int) (pieces : List Bytes) (stage : Nat) (out : Bytes) :
    (ssdpStages maxSize pieces stage out).1 = stageEnd ∧
        (ssdpStages maxSize pieces stage out).2 = out ++ pieces.flatten ∨
      ∃ k < pieces.length, (ssdpStages maxSize pieces stage out).1 = stage + k ∧
        (ssdpStages maxSize pieces stage out).2 = out ++ (pieces.take k).flatten := by
  induction pieces generalizing stage out with
  | nil =>
    left
    exact ⟨rfl, (List.append_nil out).symm⟩
  | cons piece rest ih =>
    rw [ssdpStages]
    by_cases hfull : maxSize - 128 < (out.length : Int)
    · right
      rw [if_pos hfull]
      exact ⟨0, Nat.succ_pos _, rfl, (List.append_nil out).symm⟩
    · rw [if_neg hfull]
      rcases ih (stage + 1) (out ++ piece) with ⟨hend, hout⟩ | ⟨k, hk, hstage, hout⟩
      · left
        refine ⟨hend, ?_⟩
        rw [hout, List.flatten_cons, List.append_assoc]
      · right
        refine ⟨k + 1, Nat.succ_lt_succ hk, ?_, ?_⟩
        · rw [hstage]
          omega
        · rw [hout, List.take_succ_cons, List.flatten_cons, List.append_assoc]

/-- With room for everything nothing is left. -/
theorem ssdpStages_all {maxSize : Int} (pieces : List Bytes) (stage : Nat) (out : Bytes)
    (hroom : ((out.length + pieces.flatten.length : Nat) : Int) + 128 ≤ maxSize) :
    ssdpStages maxSize pieces stage out = (stageEnd, out ++ pieces.flatten) := by
  induction pieces generalizing stage out with
  | nil => rw [ssdpStages, List.flatten_nil, List.append_nil]
  | cons piece rest ih =>
    rw [List.flatten_cons, List.length_append] at hroom
    rw [ssdpStages, if_neg (by omega), ih (stage + 1) (out ++ piece) (by rw [List.length_append]; omega),
      List.flatten_cons, List.append_assoc]

/-- The room is kept, and without any nothing is written. -/
theorem ssdpStages_room {maxSize : Int} {pieces : List Bytes}
    (hpieces : ∀ piece ∈ pieces, piece.length ≤ 127) (stage : Nat) :
    ((ssdpStages maxSize pieces stage []).2.length : Int) ≤ max maxSize 0 := by
  by_cases hneg : maxSize < 0
  · have hnothing : (ssdpStages maxSize pieces stage []).2 = [] := by
      cases pieces with
      | nil => rfl
      | cons piece rest => rw [ssdpStages, if_pos (by simp only [List.length_nil]; omega)]
    rw [hnothing]
    exact le_max_right ..
  · exact (ssdpStages_length hpieces (.inl ⟨rfl, by omega⟩)).trans (le_max_left ..)

/-! ## All calls -/

/-- The calls for one request, with the room of each and what it gave, and the stage they have led
to. Between two of them everything may change but the stage, the address and the listener. -/
inductive DescribeRun (d : DeviceStrings) (https : Bool) (ip : Nat) (h : Request) :
    Nat → List (Int × Content) → Prop
  | start : DescribeRun d https ip h 0 []
  | call {stage : Nat} {calls : List (Int × Content)} (c : Call) (maxSize : Int)
      (before : DescribeRun d https ip h stage calls) (hstage : c.r.dwOperStage = stage)
      (hhttps : c.w.listening443 = https) (hip : c.w.dev.workConfig.dwIP = ip) :
      DescribeRun d https ip h (ssdpSendingOf d h c maxSize).call.r.dwOperStage
        (calls ++ [(maxSize, ssdpSendingOf d h c maxSize)])

/-- What the calls returned, one after the other. -/
def described (calls : List (Int × Content)) : Bytes := (calls.map fun x => x.2.sent).flatten

/-- The stage of a connection and what was sent for it. -/
structure StageSent (pieces : List Bytes) (stage : Nat) (out : Bytes) : Prop where
  ended : stage = stageEnd → out = pieces.flatten
  going : stage ≠ stageEnd → stage < pieces.length ∧ out = (pieces.take stage).flatten

section

variable {d : DeviceStrings} {https : Bool} {ip : Nat} {h : Request}

/-- A call that finds the document not ended. -/
theorem ssdpSendingOf_going {c : Call} (hget : h.requestMethod = .get) (maxSize : Int)
    (hend : c.r.dwOperStage ≠ stageEnd) {s : Nat × Bytes}
    (hs : ssdpStages maxSize ((describe d c.w.listening443 c.w.dev.workConfig.dwIP).drop
      c.r.dwOperStage) c.r.dwOperStage [] = s) :
    (ssdpSendingOf d h c maxSize).call.r.dwOperStage = s.1 ∧
      (ssdpSendingOf d h c maxSize).size = s.2.length ∧
      (ssdpSendingOf d h c maxSize).sent = s.2 := by
  subst hs
  rw [ssdpSendingOf, if_pos hget, if_neg hend]
  refine ⟨rfl, rfl, ?_⟩
  rw [Content.sent, Int.toNat_natCast, List.take_left]

/-- A call behind the end. -/
theorem ssdpSendingOf_ended {c : Call} (hget : h.requestMethod = .get) (maxSize : Int)
    (hend : c.r.dwOperStage = stageEnd) : ssdpSendingOf d h c maxSize = ⟨c, -1, [0]⟩ := by
  rw [ssdpSendingOf, if_pos hget, if_pos hend]

theorem stageSent_call {c : Call} {out : Bytes} (hget : h.requestMethod = .get) (maxSize : Int)
    (hsent : StageSent (describe d c.w.listening443 c.w.dev.workConfig.dwIP) c.r.dwOperStage out) :
    StageSent (describe d c.w.listening443 c.w.dev.workConfig.dwIP)
      (ssdpSendingOf d h c maxSize).call.r.dwOperStage
      (out ++ (ssdpSendingOf d h c maxSize).sent) := by
  by_cases hend : c.r.dwOperStage = stageEnd
  · rw [ssdpSendingOf_ended hget maxSize hend]
    change StageSent _ c.r.dwOperStage (out ++ [])
    rwa [List.append_nil]
  · obtain ⟨hstage, rfl⟩ := hsent.going hend
    generalize hs : ssdpStages maxSize ((describe d c.w.listening443 c.w.dev.workConfig.dwIP).drop
      c.r.dwOperStage) c.r.dwOperStage [] = s
    obtain ⟨hnext, -, hout⟩ := ssdpSendingOf_going hget maxSize hend hs
    rw [hnext, hout]
    have hcases := ssdpStages_cases maxSize ((describe d c.w.listening443
      c.w.dev.workConfig.dwIP).drop c.r.dwOperStage) c.r.dwOperStage []
    rw [hs] at hcases
    have hcount : (describe d c.w.listening443 c.w.dev.workConfig.dwIP).length = 17 := rfl
    rw [hcount] at hstage
    constructor
    · intro hlast
      rcases hcases with ⟨-, hall⟩ | ⟨k, hk, hstop, -⟩
      · rw [hall, List.nil_append, ← List.flatten_append, List.take_append_drop]
      · rw [List.length_drop, hcount] at hk
        have hnum : stageEnd = 4294967295 := rfl
        omega
    · intro hlast
      rcases hcases with ⟨hall, -⟩ | ⟨k, hk, hstop, hsome⟩
      · exact absurd hall hlast
      · rw [List.length_drop, hcount] at hk
        refine ⟨by rw [hstop, hcount]; omega, ?_⟩
        rw [hsome, hstop, List.nil_append, ← List.flatten_append, ← List.take_add]

/-- The stages and what was sent, over the calls of a request. -/
theorem DescribeRun.stageSent (hget : h.requestMethod = .get) {stage : Nat}
    {calls : List (Int × Content)} (hrun : DescribeRun d https ip h stage calls) :
    StageSent (describe d https ip) stage (described calls) := by
  induction hrun with
  | start => exact ⟨fun hend => absurd hend (by decide), fun _ => ⟨Nat.succ_pos _, rfl⟩⟩
  | call c maxSize before hstage hhttps hip ih =>
    subst hstage hhttps hip
    have hcall := stageSent_call hget maxSize ih
    rw [described, List.map_append, List.flatten_append]
    simpa [described] using hcall

/-- No call gives more than its room. -/
theorem DescribeRun.room (hget : h.requestMethod = .get)
    (hpieces : ∀ piece ∈ describe d https ip, piece.length ≤ 127) {stage : Nat}
    {calls : List (Int × Content)} (hrun : DescribeRun d https ip h stage calls) :
    ∀ x ∈ calls, x.2.size ≤ max x.1 0 := by
  induction hrun with
  | start =>
    intro x hx
    cases hx
  | call c maxSize before hstage hhttps hip ih =>
    subst hhttps hip
    intro x hx
    rcases List.mem_append.mp hx with hx | hx
    · exact ih x hx
    · obtain rfl := List.mem_singleton.mp hx
      by_cases hend : c.r.dwOperStage = stageEnd
      · rw [ssdpSendingOf_ended hget maxSize hend]
        exact le_trans (show (-1 : Int) ≤ 0 by decide) (le_max_right ..)
      · obtain ⟨-, hsize, -⟩ := ssdpSendingOf_going hget maxSize hend rfl
        rw [hsize]
        exact ssdpStages_room (fun p hp => hpieces p (List.mem_of_mem_drop hp)) _

/-- Over any calls for one request the document is sent once, in the order of its elements. When
the calls have led to the end, all of it was sent, and that is what one call with room enough
sends. -/
theorem ssdp_description_once (hget : h.requestMethod = .get)
    (hpieces : ∀ piece ∈ describe d https ip, piece.length ≤ 127) {stage : Nat}
    {calls : List (Int × Content)} (hrun : DescribeRun d https ip h stage calls) :
    (∀ x ∈ calls, x.2.size ≤ max x.1 0) ∧
      (describe d https ip).length = 17 ∧
      (stage ≠ stageEnd → stage < 17 ∧
        described calls = ((describe d https ip).take stage).flatten) ∧
      (stage = stageEnd → described calls = (describe d https ip).flatten) ∧
      ∀ (c : Call) (maxSize : Int), c.r.dwOperStage = 0 → c.w.listening443 = https → c.w.dev.workConfig.dwIP = ip →
        ((describe d https ip).flatten.length : Int) + 128 ≤ maxSize →
        (ssdpSendingOf d h c maxSize).call.r.dwOperStage = stageEnd ∧
          (ssdpSendingOf d h c maxSize).sent = (describe d https ip).flatten := by
  have hsent := hrun.stageSent hget
  refine ⟨hrun.room hget hpieces, rfl, hsent.going, hsent.ended, ?_⟩
  rintro c maxSize hstage rfl rfl hroom
  have hend : c.r.dwOperStage ≠ stageEnd := by
    rw [hstage]
    decide
  have hleft : (describe d c.w.listening443 c.w.dev.workConfig.dwIP).drop c.r.dwOperStage =
      describe d c.w.listening443 c.w.dev.workConfig.dwIP := by
    rw [hstage, List.drop_zero]
  have hall := @ssdpStages_all maxSize (describe d c.w.listening443 c.w.dev.workConfig.dwIP)
    c.r.dwOperStage [] (by simpa using hroom)
  rw [← hleft] at hall
  obtain ⟨hnext, -, hout⟩ := ssdpSendingOf_going hget maxSize hend hall
  rw [hleft] at hout
  exact ⟨hnext, hout⟩

end

/-- A request for the description. -/
def descriptionRequest : Request := { setupContext.toRequest with requestMethod := .get }

/-- The context in front of the calls for it, the second of which has no room. -/
def firstCall : Call := ⟨plainWorld, setupContext.toResponse⟩

def secondCall : Call := (ssdpSendingOf deviceStrings descriptionRequest firstCall 200).call

def thirdCall : Call := (ssdpSendingOf deviceStrings descriptionRequest secondCall (-1)).call

/-- What the three calls give. -/
def pausedCalls : List (Int × Content) :=
  [(200, ssdpSendingOf deviceStrings descriptionRequest firstCall 200),
    (-1, ssdpSendingOf deviceStrings descriptionRequest secondCall (-1)),
    (4000, ssdpSendingOf deviceStrings descriptionRequest thirdCall 4000)]

theorem pausedCalls_run : DescribeRun deviceStrings false 0 descriptionRequest
    (ssdpSendingOf deviceStrings descriptionRequest thirdCall 4000).call.r.dwOperStage
      pausedCalls := by
  have hstart : DescribeRun deviceStrings false 0 descriptionRequest 0 [] := .start
  have hfirst := DescribeRun.call firstCall 200 hstart rfl rfl rfl
  have hsecond := DescribeRun.call secondCall (-1) hfirst rfl rfl rfl
  exact DescribeRun.call thirdCall 4000 hsecond (by rw [thirdCall]) (by decide +kernel)
    (by decide +kernel)

set_option maxRecDepth 2048 in
/-- The document stops in the middle and is sent to its end behind the pause. -/
theorem ssdp_description_once_paused :
    thirdCall.r.dwOperStage < 17 ∧
      described pausedCalls = (describe deviceStrings false 0).flatten := by
  have hpieces : ∀ piece ∈ describe deviceStrings false 0, piece.length ≤ 127 :=
    length_ssdpPieces plainWorld
  have honce := ssdp_description_once (h := descriptionRequest) rfl hpieces pausedCalls_run
  exact ⟨by decide +kernel, honce.2.2.2.1 (by decide +kernel)⟩

end Httpd

import LambdaIOT.Httpd.HeaderScan
import LambdaIOT.Properties.Receive

/-!
# Header parsing does not depend on segmentation

The window of 128 bytes is filled from the segments and from the queue, lines are shifted
out of it, and a window without a line is cut to half. `headerScanner` does the same on the
stream itself. `Scanning` couples the two while the header section is incomplete: the lines
so far are a run of the scanner, and what is waiting in the buffer and the queue is what the
scanner has left. When a delivery is worked off, the scanner is stuck (`HeaderOutcome`), and
where it is stuck depends on the stream alone.
-/

namespace Httpd

open CMem Lwip Relation

/-! ## What is waiting -/

theorem length_buffered {c : RequestContext} (h : RxShape c) :
    (c.buffered.length : Int) = c.requestLength := by
  have hbuf := h.buffer
  have h0 := h.nonneg
  have hle := h.atMost
  rw [RequestContext.buffered, List.length_take]
  omega

/-- The queue holds a byte behind its offset, or it is empty. -/
theorem reqBufList_of_queued {c : RequestContext} (h : RxShape c) (hq : c.queued = []) :
    c.reqBufList = [] := by
  cases hlist : c.reqBufList with
  | nil => rfl
  | cons p rest =>
    obtain ⟨h0, hlt⟩ := h.inFirst p rest hlist
    have hlen : (Pbuf.data c.reqBufList).length ≤ c.bufOffset.toNat := List.drop_eq_nil_iff.mp hq
    rw [hlist, Pbuf.data_cons, List.length_append] at hlen
    simp only [Pbuf.len] at hlt
    omega

theorem queued_of_reqBufList {c : RequestContext} (hq : c.reqBufList = []) : c.queued = [] := by
  rw [RequestContext.queued, hq, Pbuf.data_nil, List.drop_nil]

/-- The entries of the log from the receive path and the header lines. -/
def Act.isReceive (a : Act) : Bool := a.isRx || a.isLine

theorem isReceive_of_rx {a : Act} (h : a.isRx) : a.isReceive := by
  rw [Act.isReceive, h]
  rfl

theorem isReceive_of_line {a : Act} (h : a.isLine) : a.isReceive := by
  rw [Act.isReceive, h, Bool.or_true]

theorem consumedBytes_lines {l : List Act} (h : ∀ a ∈ l, a.isLine) : consumedBytes l = [] := by
  refine List.flatMap_eq_nil_iff.mpr fun a ha => ?_
  have hline := h a ha
  cases a <;> first | rfl | cases hline

theorem deliveredBytes_lines {l : List Act} (h : ∀ a ∈ l, a.isLine) : deliveredBytes l = [] := by
  refine List.flatMap_eq_nil_iff.mpr fun a ha => ?_
  have hline := h a ha
  cases a <;> first | rfl | cases hline

theorem recvedTotal_lines {l : List Act} (h : ∀ a ∈ l, a.isLine) : recvedTotal l = 0 := by
  refine List.sum_eq_zero fun n hn => ?_
  obtain ⟨a, ha, rfl⟩ := List.mem_map.mp hn
  have hline := h a ha
  cases a <;> first | rfl | cases hline

theorem headerLines_rx {l : List Act} (h : ∀ a ∈ l, a.isRx) : headerLines l = [] := by
  refine List.filterMap_eq_nil_iff.mpr fun a ha => ?_
  have hrx := h a ha
  cases a <;> first | rfl | cases hrx

/-! ## The dequeue block -/

/-- Behind the dequeue block the queue is empty or the buffer is full. -/
theorem dequeue_drained {c : RequestContext} (hi : RxShape c)
    (hsize : (Pbuf.data c.reqBufList).length < 65536) :
    c.dequeue.reqBufList = [] ∨ c.dequeue.requestLength = maxReqBufSize := by
  by_cases hnil : c.reqBufList = []
  · refine .inl ?_
    rw [RequestContext.dequeue, if_pos hnil]
    exact hnil
  obtain ⟨hshape, hwaiting, -⟩ := hi.dequeue hsize
  have hsame := congrArg List.length hwaiting
  have hbuf := length_buffered hi
  have hbuf' := length_buffered hshape
  have hmax := hi.maxLevel
  have htot := Pbuf.chainTotLen_eq hi.chained
  have hqueued : (c.queued.length : Int) = (Pbuf.chainTotLen c.reqBufList : Int) - c.bufOffset := by
    obtain ⟨p, rest, hq⟩ := List.exists_cons_of_ne_nil hnil
    obtain ⟨h0, hlt⟩ := hi.inFirst p rest hq
    have hin : p.payload.length ≤ (Pbuf.data c.reqBufList).length := by
      rw [hq, Pbuf.data_cons, List.length_append]
      omega
    simp only [Pbuf.len] at hlt
    rw [RequestContext.queued, List.length_drop]
    omega
  have hlen : c.dequeue.requestLength = c.requestLength +
      max 0 (min (c.maxLevel - c.requestLength)
        ((Pbuf.chainTotLen c.reqBufList : Int) - c.bufOffset)) := by
    unfold RequestContext.dequeue
    rw [if_neg hnil]
    dsimp only
    split
    · rename_i hspace
      rw [releaseQueue_requestLength]
      show c.requestLength + _ = _
      rw [max_eq_right (le_of_lt hspace)]
    · rename_i hspace
      rw [max_eq_left (not_lt.mp hspace), Int.add_zero]
  rw [RequestContext.waiting, RequestContext.waiting, List.length_append, List.length_append]
    at hsame
  by_cases hdone : c.dequeue.queued = []
  · exact .inl (reqBufList_of_queued hshape hdone)
  · refine .inr ?_
    have hpos := List.length_pos_iff.mpr hdone
    have hle := hi.atMost
    omega

/-! ## The shift -/

/-- How many bytes a scan of `n` bytes shifts out. -/
def LineScan.shifted (l : LineScan) (n : Nat) : Nat :=
  if l.nLinePos = 0 then if maxReqBufSize ≤ n then n / 2 else 0 else l.nLinePos

/-- The lines of a header section change the two parts of the request and the log. -/
theorem parseScan_frame (s : Sys) (size : Int) :
    ∃ w h r log, (parseScan s size).s =
        ⟨w, { s.c with toRequest := h, toResponse := r, log := s.c.log ++ log }, s.net⟩ ∧
      h.peerClosing = s.c.peerClosing ∧ ∀ a ∈ log, a.isLine := by
  have hline : ∀ t u : Sys, LineFrame t u →
      (∃ w h r log, t = ⟨w, { s.c with toRequest := h, toResponse := r, log := s.c.log ++ log },
        s.net⟩ ∧ h.peerClosing = s.c.peerClosing ∧ ∀ a ∈ log, a.isLine) →
      ∃ w h r log, u = ⟨w, { s.c with toRequest := h, toResponse := r, log := s.c.log ++ log },
        s.net⟩ ∧ h.peerClosing = s.c.peerClosing ∧ ∀ a ∈ log, a.isLine := by
    rintro t u ⟨w, h, r, log, rfl, hh, -, hl⟩ ⟨_, h₀, _, log₀, rfl, hpeer, hl₀⟩
    refine ⟨w, h, r, log₀ ++ log, by rw [← List.append_assoc], ?_, fun a ha => ?_⟩
    · rw [hh]
      exact hpeer
    · rcases List.mem_append.mp ha with hin | hin
      · exact hl₀ a hin
      · exact hl a hin
  refine lineLoop_induct (fun t tail n _ ht => hline _ _ (.requestLine t tail n) ht)
    (fun t tail n _ ht => hline _ _ (.headerLine t tail n) ht) ?_ _ _ _
    ⟨s.w, s.c.toRequest, s.c.toResponse, [], by rw [List.append_nil], rfl, fun _ h => nomatch h⟩
  rintro t ⟨w, h, r, log, rfl, hpeer, hl⟩
  unfold endOfHeaders
  dsimp only
  split
  · exact ⟨_, _, _, log, rfl, hpeer, hl⟩
  · exact ⟨_, _, _, log, rfl, hpeer, hl⟩

/-- The invariant looks at the buffer, the queue and what the log says about the stream. -/
theorem RxInv.of_same {c d : RequestContext} (h : RxInv c) (hlevel : d.maxLevel = c.maxLevel)
    (hlength : d.httpRequestBuffer.length = c.httpRequestBuffer.length)
    (hlen : d.requestLength = c.requestLength) (hbuf : d.buffered = c.buffered)
    (hqueue : d.reqBufList = c.reqBufList) (hoff : d.bufOffset = c.bufOffset)
    (hconsumed : consumedBytes d.log = consumedBytes c.log)
    (hdelivered : deliveredBytes d.log = deliveredBytes c.log)
    (hrecved : recvedTotal d.log = recvedTotal c.log) : RxInv d where
  maxLevel := hlevel.trans h.maxLevel
  buffer := hlength.trans h.buffer
  nonneg := by rw [hlen]; exact h.nonneg
  atMost := by rw [hlen]; exact h.atMost
  chained := by rw [hqueue]; exact h.chained
  empty := by rw [hqueue, hoff]; exact h.empty
  inFirst := by rw [hqueue, hoff]; exact h.inFirst
  stream := by
    rw [hconsumed, hdelivered, hbuf, RequestContext.queued, hqueue, hoff]
    exact h.stream
  window := by
    rw [hrecved, hdelivered, hqueue]
    exact h.window

theorem shift_log (l : LineScan) (arrived : Bytes) :
    ∃ log, (l.shift arrived).log = l.s.c.log ++ log ∧ ∀ a ∈ log, a.isRx := by
  unfold LineScan.shift
  dsimp only
  have hone : ∀ taken : Bytes, ∀ a ∈ [Act.consumed taken], a.isRx := fun taken a ha => by
    rw [List.mem_singleton.mp ha]
    rfl
  split
  · split
    · exact ⟨[.consumed _], rfl, hone _⟩
    · exact ⟨[], (List.append_nil _).symm, fun _ h => nomatch h⟩
  · exact ⟨[.consumed _], rfl, hone _⟩

/-- Lines do not touch the stream. -/
theorem rxInv_parseScan {s : Sys} (hi : RxInv s.c) (size : Int) : RxInv (parseScan s size).s.c := by
  obtain ⟨w, h, r, log, heq, -, hl⟩ := parseScan_frame s size
  rw [heq]
  refine hi.of_same rfl rfl rfl rfl rfl rfl ?_ ?_ ?_
  · rw [consumedBytes_append, consumedBytes_lines hl, List.append_nil]
  · rw [deliveredBytes_append, deliveredBytes_lines hl, List.append_nil]
  · rw [recvedTotal_append, recvedTotal_lines hl, Nat.add_zero]

/-- The shift takes from the front of the buffer, although the lines there were cut. -/
theorem shift_taken {s : Sys} {l : LineScan} {n : Nat} (hi : RxShape s.c)
    (hn : s.c.requestLength = n)
    (hframe : ∃ w h r log, l.s =
      ⟨w, { s.c with toRequest := h, toResponse := r, log := s.c.log ++ log }, s.net⟩)
    (hlength : l.buf.length = s.c.httpRequestBuffer.length)
    (hrest : l.buf.drop l.nLinePos = s.c.httpRequestBuffer.drop l.nLinePos)
    (hpos : l.nLinePos ≤ n) :
    RxTaken l.s.c (l.shifted n) (l.shift s.c.httpRequestBuffer) := by
  obtain ⟨w, h, r, log, hs⟩ := hframe
  have hscan : RxShape l.s.c := by
    rw [hs]
    exact ⟨hi.maxLevel, hi.buffer, hi.nonneg, hi.atMost, hi.chained, hi.empty, hi.inFirst⟩
  have hsame : l.s.c.httpRequestBuffer = s.c.httpRequestBuffer := by rw [hs]
  have hlen : l.s.c.requestLength = n := by
    rw [hs]
    exact hn
  have hlevel := hscan.maxLevel
  rw [← hsame] at hlength hrest ⊢
  -- any number of bytes in front of the last line
  have hcut : ∀ k : Nat, k ≤ n → l.nLinePos ≤ k → RxTaken l.s.c k (RequestContext.shiftOut
      { l.s.c with httpRequestBuffer := l.buf } k (l.s.c.httpRequestBuffer.take k)) := by
    intro k hk hle
    have hlater := congrArg (List.drop (k - l.nLinePos)) hrest
    rw [List.drop_drop, List.drop_drop, Nat.add_sub_cancel' hle] at hlater
    exact rxTaken_shiftOut hscan (by omega) hlength hlater
  unfold LineScan.shift LineScan.shifted
  dsimp only
  by_cases hfirst : l.nLinePos = 0
  · rw [if_pos hfirst, if_pos hfirst]
    by_cases hfull : maxReqBufSize ≤ n
    · have hhalf : l.s.c.requestLength.tdiv 2 = ((n / 2 : Nat) : Int) := by
        rw [hlen, Int.tdiv_eq_ediv_of_nonneg (Int.natCast_nonneg n)]
        rfl
      rw [if_pos hfull, if_pos (by rw [hlevel, hlen]; exact Int.ofNat_le.mpr hfull), hhalf,
        Int.toNat_natCast]
      exact hcut (n / 2) (Nat.div_le_self ..) (by omega)
    · rw [if_neg hfull, if_neg (by rw [hlevel, hlen]; omega)]
      have huncut : l.buf = l.s.c.httpRequestBuffer := by
        rw [hfirst] at hrest
        exact hrest
      rw [huncut]
      exact .refl hscan
  · rw [if_neg hfirst, if_neg hfirst]
    exact hcut l.nLinePos hpos (le_refl _)

/-! ## The parser on its window -/

/-- Log entries of the receive path and of lines, put together. -/
theorem receive_append {l m : List Act} (hl : ∀ a ∈ l, a.isReceive) (hm : ∀ a ∈ m, a.isReceive) :
    ∀ a ∈ l ++ m, a.isReceive := fun a ha => by
  rcases List.mem_append.mp ha with h | h
  · exact hl a h
  · exact hm a h

/-- Holding is about the fields that header lines set. -/
theorem Holds.of_same {c d : RequestContext} {lines : List Bytes} {f : HeaderData} {exact : Bool}
    (h : Holds c lines f exact)
    (hsame : HeaderData.ofParts d.toRequest d.toResponse lines =
      HeaderData.ofParts c.toRequest c.toResponse lines) : Holds d lines f exact where
  fields := (congrArg HeaderData.toHeaderFields hsame).trans h.fields
  extra := fun hx => by
    obtain ⟨h1, h2, h3⟩ := h.extra hx
    exact ⟨(congrArg HeaderData.ifModified hsame).trans h1,
      (congrArg HeaderData.rangeFrom hsame).trans h2, (congrArg HeaderData.rangeTo hsame).trans h3⟩

/-- Lines were taken from the front of the buffer, and they said what `τ` says. -/
structure WindowParsed (s t : Sys) (lines : List Bytes) (τ : HeaderScan) : Prop where
  shape : RxShape t.c
  queue : t.c.reqBufList = s.c.reqBufList
  offset : t.c.bufOffset = s.c.bufOffset
  result : t.c.result = s.c.result
  said : ∃ l, t.c.log = s.c.log ++ l ∧ (∀ a ∈ l, a.isReceive) ∧
    consumedBytes l ++ t.c.buffered = s.c.buffered ∧ deliveredBytes l = [] ∧ recvedTotal l = 0 ∧
    Holds t.c (lines ++ headerLines l) τ.data τ.exact

namespace WindowParsed

variable {s t : Sys} {lines : List Bytes} {τ : HeaderScan}

theorem queued (h : WindowParsed s t lines τ) : t.c.queued = s.c.queued := by
  rw [RequestContext.queued, RequestContext.queued, h.queue, h.offset]

/-- What was taken is accounted for. -/
theorem inv (h : WindowParsed s t lines τ) (hi : RxInv s.c) : RxInv t.c := by
  obtain ⟨l, hlog, -, hconsumed, hdelivered, hrecved, -⟩ := h.said
  refine ⟨h.shape, ?_, ?_⟩
  · rw [hlog, h.queued, consumedBytes_append, deliveredBytes_append, hdelivered, List.append_nil,
      ← hi.stream, ← hconsumed, List.append_assoc (consumedBytes s.c.log)]
  · rw [hlog, h.queue, recvedTotal_append, deliveredBytes_append, hrecved, hdelivered,
      List.append_nil, Nat.add_zero]
    exact hi.window

end WindowParsed

/-- How the parser leaves the bytes in the buffer, if the scanner reads them from `σ`. -/
inductive WindowEnd (s : Sys) (lines : List Bytes) (σ : HeaderScan) : Sys × Bool → Prop where
  | more {t : Sys} (τ : HeaderScan) (h : WindowParsed s t lines τ)
      (hsteps : headerScanner.Steps (σ, s.c.buffered) (τ, t.c.buffered))
      (hpending : τ.verdict = .pending) (hst : t.c.state = .headerReceiving)
      (hlen : t.c.requestLength < maxReqBufSize) (hnone : findSub newline t.c.buffered = none) :
      WindowEnd s lines σ (t, false)
  | complete {t : Sys} (τ : HeaderScan) (h : WindowParsed s t lines τ)
      (hsteps : headerScanner.Steps (σ, s.c.buffered) (τ, t.c.buffered))
      (hcomplete : τ.verdict = .complete) (hst : t.c.state = .headerDone) :
      WindowEnd s lines σ (t, true)
  | refused {t : Sys} {b : Bool} (τ : HeaderScan) (rest : Bytes)
      (hsteps : headerScanner.Steps (σ, s.c.buffered) (τ, rest)) (hrefused : τ.verdict = .refused)
      (hbad : t.c.result = -500) (hrec : t.c.state.receiving)
      (hsaid : ∃ l, t.c.log = s.c.log ++ l ∧ (∀ a ∈ l, a.isReceive) ∧
        Holds t.c (lines ++ headerLines l) τ.data τ.exact) : WindowEnd s lines σ (t, b)

/-- The parser follows the scanner on the bytes in the buffer. -/
theorem parseHeader_window {s : Sys} {lines : List Bytes} {σ : HeaderScan} {n : Nat}
    (hi : RxShape s.c) (hst : s.c.state = .headerReceiving) (hn : s.c.requestLength = n) (h2 : 2 ≤ n)
    (hpending : σ.verdict = .pending) (hholds : Holds s.c lines σ.data σ.exact) :
    WindowEnd s lines σ (parseHeader s s.c.requestLength) := by
  have hmax : maxReqBufSize = 128 := rfl
  have hbuf := hi.buffer
  have hle := hi.atMost
  obtain ⟨w, h, r, log, hframe, -, -⟩ := parseScan_frame s s.c.requestLength
  obtain ⟨hpos, hstate⟩ := parseScan_bound s s.c.requestLength (by omega)
  have hend := parseScan_end s lines hn (by omega) (by omega) (by omega) hpending hholds
  have hbuffered : s.c.httpRequestBuffer.take n = s.c.buffered := by
    rw [RequestContext.buffered, hn, Int.toNat_natCast]
  have hcount : s.c.buffered.length = n := by
    have hcount' := length_buffered hi
    omega
  rw [hbuffered] at hend
  unfold parseHeader
  dsimp only
  generalize parseScan s s.c.requestLength = scan at hframe hpos hstate hend ⊢
  have hpos' : scan.nLinePos ≤ n := by omega
  have hsame : scan.s.c.buffered = s.c.buffered ∧ scan.s.c.reqBufList = s.c.reqBufList ∧
      scan.s.c.bufOffset = s.c.bufOffset := by
    rw [hframe]
    exact ⟨rfl, rfl, rfl⟩
  have hstate' : (scan.shift s.c.httpRequestBuffer).state =
      if scan.afterHeader then .headerDone else .headerReceiving :=
    (congrArg Request.state (shift_request ..)).trans (hst ▸ hstate)
  have hresult' : (scan.shift s.c.httpRequestBuffer).result = scan.s.c.result :=
    congrArg Response.result (shift_response ..)
  have hparts : ∀ lines, HeaderData.ofParts (scan.shift s.c.httpRequestBuffer).toRequest
      (scan.shift s.c.httpRequestBuffer).toResponse lines =
        HeaderData.ofParts scan.s.c.toRequest scan.s.c.toResponse lines := fun lines => by
    rw [shift_request, shift_response]
  have htaken : scan.buf.length = s.c.httpRequestBuffer.length →
      scan.buf.drop scan.nLinePos = s.c.httpRequestBuffer.drop scan.nLinePos →
      RxTaken scan.s.c (scan.shifted n) (scan.shift s.c.httpRequestBuffer) := fun hlength hrest =>
    shift_taken hi hn ⟨w, h, r, log, hframe⟩ hlength hrest hpos'
  have hparsed : ∀ τ, RxTaken scan.s.c (scan.shifted n) (scan.shift s.c.httpRequestBuffer) →
      Scanned s scan.s lines τ →
      WindowParsed s { scan.s with c := scan.shift s.c.httpRequestBuffer } lines τ := by
    intro τ ht hscanned
    obtain ⟨moved, hmoved, hrx, hconsumed, hdelivered, hrecved⟩ := ht.logged
    obtain ⟨l, hlog, hline, hτ⟩ := hscanned.logged
    refine ⟨ht.shape, ht.queue.trans hsame.2.1, ht.offset.trans hsame.2.2,
      hresult'.trans hscanned.result, l ++ moved, ?_,
      receive_append (fun a ha => isReceive_of_line (hline a ha))
        fun a ha => isReceive_of_rx (hrx a ha), ?_, ?_, ?_, ?_⟩
    · show (scan.shift s.c.httpRequestBuffer).log = _
      rw [hmoved, hlog, List.append_assoc]
    · show consumedBytes (l ++ moved) ++ (scan.shift s.c.httpRequestBuffer).buffered = _
      rw [consumedBytes_append, consumedBytes_lines hline, List.nil_append, hconsumed, ht.buffered,
        hsame.1, List.take_append_drop]
    · rw [deliveredBytes_append, deliveredBytes_lines hline, hdelivered, List.append_nil]
    · rw [recvedTotal_append, recvedTotal_lines hline, hrecved]
    · rw [headerLines_append, headerLines_rx hrx, List.append_nil]
      exact hτ.of_same (hparts _)
  cases hend with
  | refused τ rest hsteps hrefused hbad hsaid =>
    obtain ⟨l, hlog, hline, hτ⟩ := hsaid
    obtain ⟨moved, hmoved, hrx⟩ := shift_log scan s.c.httpRequestBuffer
    refine .refused τ rest hsteps hrefused (hresult'.trans hbad) ?_ ⟨l ++ moved, ?_,
      receive_append (fun a ha => isReceive_of_line (hline a ha))
        fun a ha => isReceive_of_rx (hrx a ha), ?_⟩
    · show (scan.shift s.c.httpRequestBuffer).state.receiving = true
      rw [hstate']
      split <;> rfl
    · show (scan.shift s.c.httpRequestBuffer).log = _
      rw [hmoved, hlog, List.append_assoc]
    · rw [headerLines_append, headerLines_rx hrx, List.append_nil]
      exact hτ.of_same (hparts _)
  | complete τ hsteps hcomplete hscanned hdone hfirst hin hlength hrest =>
    have ht := htaken hlength hrest
    have hshifted : scan.shifted n = scan.nLinePos := if_neg (Nat.ne_of_gt hfirst)
    rw [hdone]
    refine .complete τ (hparsed τ ht hscanned) ?_ hcomplete ?_
    · show headerScanner.Steps _ (τ, (scan.shift s.c.httpRequestBuffer).buffered)
      rw [ht.buffered, hsame.1, hshifted]
      exact hsteps
    · show (scan.shift s.c.httpRequestBuffer).state = .headerDone
      rw [hstate', hdone]
      rfl
  | more τ hsteps hpending' hscanned hnone hnot hlength hrest =>
    have ht := htaken hlength hrest
    -- the cut to half is a step of the scanner too
    have hhalf : (n = maxReqBufSize → 0 < scan.shifted n) ∧
        findSub newline (s.c.buffered.drop (scan.shifted n)) = none ∧
        headerScanner.Steps (σ, s.c.buffered) (τ, s.c.buffered.drop (scan.shifted n)) := by
      unfold LineScan.shifted
      by_cases hzero : scan.nLinePos = 0
      · rw [if_pos hzero]
        rw [hzero, List.drop_zero] at hsteps hnone
        by_cases hfull : maxReqBufSize ≤ n
        · rw [if_pos hfull]
          have hn128 : n = maxReqBufSize := by omega
          refine ⟨fun _ => by omega, findSub_drop_eq_none hnone _, hsteps.tail ⟨n / 2, ?_, rfl⟩⟩
          show headerStep τ s.c.buffered = some (τ, n / 2)
          unfold headerStep
          rw [if_neg (by rw [hpending']; exact fun h => h rfl),
            List.take_of_length_le (by omega), hnone]
          dsimp only
          rw [if_pos (by omega), hn128]
        · rw [if_neg hfull]
          exact ⟨fun h => absurd (le_of_eq h.symm) hfull, hnone, hsteps⟩
      · rw [if_neg hzero]
        exact ⟨fun _ => Nat.pos_of_ne_zero hzero, hnone, hsteps⟩
    obtain ⟨hkpos, hnone', hreach⟩ := hhalf
    have hbuffered' : (scan.shift s.c.httpRequestBuffer).buffered =
        s.c.buffered.drop (scan.shifted n) := by rw [ht.buffered, hsame.1]
    rw [hnot]
    refine .more τ (hparsed τ ht hscanned) ?_ hpending' ?_ ?_ ?_
    · show headerScanner.Steps _ (τ, (scan.shift s.c.httpRequestBuffer).buffered)
      rw [hbuffered']
      exact hreach
    · show (scan.shift s.c.httpRequestBuffer).state = .headerReceiving
      rw [hstate', hnot]
      rfl
    · show (scan.shift s.c.httpRequestBuffer).requestLength < maxReqBufSize
      have hleft := length_buffered ht.shape
      rw [hbuffered', List.length_drop, hcount] at hleft
      omega
    · show findSub newline (scan.shift s.c.httpRequestBuffer).buffered = none
      rw [hbuffered']
      exact hnone'

/-! ## A header section under way -/

/-- The header section that starts in `c₀` is incomplete in `c`. The lines so far took the
stream `p` to what is waiting, and led the scanner to `σ`. -/
structure Scanning (c₀ : RequestContext) (σ₀ : HeaderScan) (p : Bytes) (c : RequestContext)
    (σ : HeaderScan) : Prop where
  rx : RxState c
  state : c.state = .idle ∨ c.state = .headerReceiving
  result : c.result = 0
  peer : c.peerClosing = false
  live : c.pcb.isSome
  pending : σ.verdict = .pending
  logged : ∃ l, c.log = c₀.log ++ l ∧ (∀ a ∈ l, a.isReceive) ∧
    Holds c (headerLines l) σ.data σ.exact
  stream : consumedBytes c₀.log ++ p = deliveredBytes c.log
  steps : headerScanner.Steps (σ₀, p) (σ, c.waiting)

/-- A context at the start of a request. -/
structure RequestStart (c : RequestContext) : Prop where
  rx : RxState c
  state : c.state = .idle
  result : c.result = 0
  peer : c.peerClosing = false
  live : c.pcb.isSome

theorem scanning_start {c : RequestContext} {σ : HeaderScan} (h : RequestStart c)
    (hpending : σ.verdict = .pending) (hholds : Holds c [] σ.data σ.exact) :
    Scanning c σ c.waiting c σ where
  rx := h.rx
  state := .inl h.state
  result := h.result
  peer := h.peer
  live := h.live
  pending := hpending
  logged := ⟨[], (List.append_nil _).symm, (fun _ h => nomatch h), hholds⟩
  stream := by
    rw [RequestContext.waiting, ← List.append_assoc]
    exact h.rx.stream
  steps := .refl

/-- The header section is complete: the fields at its end, and what the stream still holds
behind it. -/
def HeaderComplete (c₀ : RequestContext) (σ₀ : HeaderScan) (p : Bytes) (c : RequestContext) : Prop :=
  ∃ (σ : HeaderScan) (l : List Act) (h : Request) (r : Response) (b : Bool) (rest : List Act),
    c.log = c₀.log ++ (l ++ .headersEnd h r b :: rest) ∧ (∀ a ∈ l, a.isReceive) ∧
    Holds { c₀ with toRequest := h, toResponse := r } (headerLines l) σ.data σ.exact ∧
    σ.verdict = .complete ∧ (consumedBytes l).length ≤ p.length ∧
    headerScanner.Steps (σ₀, p) (σ, p.drop (consumedBytes l).length)

/-- The header section was refused: an error, before the end of the receive loop. -/
structure HeaderError (c₀ : RequestContext) (σ₀ : HeaderScan) (p : Bytes) (c : RequestContext) :
    Prop where
  result : c.result = -500
  receiving : c.state.receiving
  peer : c.peerClosing = false
  said : ∃ (σ : HeaderScan) (l : List Act) (rest : Bytes), c.log = c₀.log ++ l ∧
    (∀ a ∈ l, a.isReceive) ∧ Holds c (headerLines l) σ.data σ.exact ∧ σ.verdict = .refused ∧
    headerScanner.Steps (σ₀, p) (σ, rest)

/-- How the receive loop ends. -/
inductive LoopOutcome (c₀ : RequestContext) (σ₀ : HeaderScan) (p : Bytes) : Sys × Next → Prop where
  | scanning {s : Sys} (σ : HeaderScan) (h : Scanning c₀ σ₀ p s.c σ)
      (hstuck : headerScanner.Stuck (σ, s.c.waiting)) : LoopOutcome c₀ σ₀ p (s, .stop)
  | complete {s : Sys} {n : Next} (h : HeaderComplete c₀ σ₀ p s.c) : LoopOutcome c₀ σ₀ p (s, n)
  | refused {s : Sys} (h : HeaderError c₀ σ₀ p s.c) : LoopOutcome c₀ σ₀ p (s, .stop)

/-- Later entries of the log do not matter. -/
theorem HeaderComplete.extends {c₀ c c' : RequestContext} {σ₀ : HeaderScan} {p : Bytes}
    (h : HeaderComplete c₀ σ₀ p c) (hlog : LogExtends c c') : HeaderComplete c₀ σ₀ p c' := by
  obtain ⟨σ, l, h, r, b, rest, heq, hrest⟩ := h
  obtain ⟨log, hlog⟩ := hlog
  refine ⟨σ, l, h, r, b, rest ++ log, ?_, hrest⟩
  rw [hlog, heq, List.append_assoc, List.append_assoc]
  rfl

theorem micros_logExtends {s s' : Sys} (h : Micros s s') : LogExtends s.c s'.c := by
  induction h with
  | refl => exact .refl _
  | tail _ hstep ih => exact ih.trans (micro_logExtends hstep)

/-- A waiting buffer without a line is where the scanner is stuck. -/
theorem stuck_of_none {c : RequestContext} {σ : HeaderScan} (hi : RxState c)
    (hqueue : c.reqBufList = []) (hlen : c.requestLength < maxReqBufSize)
    (hnone : findSub newline c.buffered = none) : headerScanner.Stuck (σ, c.waiting) := by
  have hbuf := length_buffered hi.toRxShape
  have hwaiting : c.waiting = c.buffered := by
    rw [RequestContext.waiting, queued_of_reqBufList hqueue, List.append_nil]
  show headerStep σ c.waiting = none
  unfold headerStep
  rw [hwaiting, List.take_of_length_le (by omega), hnone]
  split
  · rfl
  · exact if_neg (by omega)

/-! ## One round of the loop -/

/-- A step of the receive path that keeps what is waiting. -/
theorem Scanning.rxStep {c₀ c c' : RequestContext} {σ₀ σ : HeaderScan} {p : Bytes}
    (h : Scanning c₀ σ₀ p c σ) (hstep : RxStep c c') (hrx : RxState c')
    (hwaiting : c'.waiting = c.waiting) {acks : List Nat}
    (hlog : c'.log = c.log ++ acks.map Act.recved) : Scanning c₀ σ₀ p c' σ where
  rx := hrx
  state := by
    rw [hstep.request]
    exact h.state
  result := by
    rw [hstep.response]
    exact h.result
  peer := by
    rw [hstep.request]
    exact h.peer
  live := by
    rw [hstep.pcb]
    exact h.live
  pending := h.pending
  logged := by
    obtain ⟨l, hl, hreceive, hholds⟩ := h.logged
    have hrx : ∀ a ∈ acks.map Act.recved, a.isRx := fun a ha => by
      obtain ⟨n, -, rfl⟩ := List.mem_map.mp ha
      rfl
    refine ⟨l ++ acks.map Act.recved, by rw [hlog, hl, List.append_assoc],
      receive_append hreceive fun a ha => isReceive_of_rx (hrx a ha), ?_⟩
    rw [headerLines_append, headerLines_rx hrx, List.append_nil]
    exact hholds.of_same (by rw [hstep.request, hstep.response])
  stream := by
    rw [hlog, deliveredBytes_append, deliveredBytes_acks, List.append_nil]
    exact h.stream
  steps := by
    rw [hwaiting]
    exact h.steps

theorem Scanning.dequeue {c₀ c : RequestContext} {σ₀ σ : HeaderScan} {p : Bytes}
    (h : Scanning c₀ σ₀ p c σ) : Scanning c₀ σ₀ p c.dequeue σ := by
  obtain ⟨acks, hlog⟩ := dequeue_log c
  exact h.rxStep (rxStep_dequeue h.rx.toRxInv h.rx.small) (rxState_step (e := .dequeue) h.rx trivial).1
    (h.rx.toRxShape.dequeue h.rx.small).2.1 hlog

/-- How the parser ends. -/
inductive ParseEnd (c₀ : RequestContext) (σ₀ : HeaderScan) (p : Bytes) (s : Sys) :
    Sys × Bool → Prop where
  | more {t : Sys} (σ : HeaderScan) (h : Scanning c₀ σ₀ p t.c σ)
      (hst : t.c.state = .headerReceiving) (hqueue : t.c.reqBufList = s.c.reqBufList)
      (hlen : t.c.requestLength < maxReqBufSize) (hnone : findSub newline t.c.buffered = none)
      (hless : s.c.requestLength = maxReqBufSize → t.c.waiting.length < s.c.waiting.length) :
      ParseEnd c₀ σ₀ p s (t, false)
  | complete {t : Sys} (σ : HeaderScan) (l : List Act) (hst : t.c.state = .headerDone)
      (hresult : t.c.result = 0) (hlog : t.c.log = c₀.log ++ l) (hl : ∀ a ∈ l, a.isReceive)
      (hholds : Holds t.c (headerLines l) σ.data σ.exact) (hcomplete : σ.verdict = .complete)
      (hle : (consumedBytes l).length ≤ p.length)
      (hsteps : headerScanner.Steps (σ₀, p) (σ, p.drop (consumedBytes l).length)) :
      ParseEnd c₀ σ₀ p s (t, true)
  | refused {t : Sys} {b : Bool} (h : HeaderError c₀ σ₀ p t.c) : ParseEnd c₀ σ₀ p s (t, b)

/-- What was taken is the front of the stream. -/
theorem consumed_append_waiting {c₀ c : RequestContext} {p : Bytes} {l : List Act}
    (hi : RxInv c) (hstream : consumedBytes c₀.log ++ p = deliveredBytes c.log)
    (hlog : c.log = c₀.log ++ l) : consumedBytes l ++ c.waiting = p := by
  have h := hi.stream
  rw [← hstream, hlog, consumedBytes_append, List.append_assoc, List.append_assoc] at h
  exact List.append_cancel_left h

/-- The parser follows the scanner. -/
theorem parseHeader_end {c₀ : RequestContext} {σ₀ σ : HeaderScan} {p : Bytes} {s : Sys} {n : Nat}
    (h : Scanning c₀ σ₀ p s.c σ) (hst : s.c.state = .headerReceiving)
    (hn : s.c.requestLength = n) (h2 : 2 ≤ n) :
    ParseEnd c₀ σ₀ p s (parseHeader s s.c.requestLength) := by
  obtain ⟨l, hlog, hl, hholds⟩ := h.logged
  have hrx := h.rx.toRxInv
  have hend := parseHeader_window h.rx.toRxShape hst hn h2 h.pending hholds
  have hpeer : (parseHeader s s.c.requestLength).1.c.peerClosing = false := by
    obtain ⟨_, _, _, _, hs, hpeer, -⟩ := parseScan_frame s s.c.requestLength
    show ((parseScan s s.c.requestLength).shift s.c.httpRequestBuffer).peerClosing = false
    rw [show ((parseScan s s.c.requestLength).shift s.c.httpRequestBuffer).peerClosing =
      (parseScan s s.c.requestLength).s.c.peerClosing from
        congrArg Request.peerClosing (shift_request ..), hs]
    exact hpeer.trans h.peer
  have hlive : (parseHeader s s.c.requestLength).1.c.pcb.isSome := by
    obtain ⟨_, _, _, _, _, _, hparse, -⟩ := ParseFrame.parseHeader s s.c.requestLength
    rw [hparse]
    exact h.live
  -- the scanner on the whole stream
  have hrun : ∀ τ rest, headerScanner.Steps (σ, s.c.buffered) (τ, rest) →
      headerScanner.Steps (σ₀, p) (τ, rest ++ s.c.queued) := fun τ rest hsteps =>
    h.steps.trans (hsteps.append s.c.queued)
  have hsaid : ∀ {t : Sys} {τ : HeaderScan} {m : List Act}, t.c.log = s.c.log ++ m →
      (∀ a ∈ m, a.isReceive) → Holds t.c (headerLines l ++ headerLines m) τ.data τ.exact →
      t.c.log = c₀.log ++ (l ++ m) ∧ (∀ a ∈ l ++ m, a.isReceive) ∧
        Holds t.c (headerLines (l ++ m)) τ.data τ.exact := by
    intro t τ m hm hmof hτ
    rw [headerLines_append]
    exact ⟨by rw [hm, hlog, List.append_assoc], receive_append hl hmof, hτ⟩
  generalize parseHeader s s.c.requestLength = r at hend hpeer hlive ⊢
  cases hend with
  | refused τ rest hsteps hrefused hbad hrec hτ =>
    obtain ⟨m, hm, hmof, hmholds⟩ := hτ
    obtain ⟨hm', hmof', hmholds'⟩ := hsaid hm hmof hmholds
    exact .refused ⟨hbad, hrec, hpeer, τ, l ++ m, _, hm', hmof', hmholds', hrefused,
      hrun τ rest hsteps⟩
  | @complete t τ hparsed hsteps hcomplete hst' =>
    have hinv := hparsed.inv hrx
    have hresult := hparsed.result.trans h.result
    obtain ⟨m, hm, hmof, hconsumed, hdelivered, -, hmholds⟩ := hparsed.said
    obtain ⟨hm', hmof', hmholds'⟩ := hsaid hm hmof hmholds
    have hstream : consumedBytes c₀.log ++ p = deliveredBytes t.c.log := by
      rw [hm, deliveredBytes_append, hdelivered, List.append_nil]
      exact h.stream
    have htaken := consumed_append_waiting hinv hstream hm'
    refine .complete τ (l ++ m) hst' hresult hm' hmof' hmholds' hcomplete ?_ ?_
    · rw [← htaken, List.length_append]
      omega
    · have hrest : p.drop (consumedBytes (l ++ m)).length = t.c.buffered ++ s.c.queued := by
        rw [← htaken, List.drop_left' rfl, RequestContext.waiting, hparsed.queued]
      rw [hrest]
      exact hrun τ _ hsteps
  | @more t τ hparsed hsteps hpending hst' hlen hnone =>
    have hinv := hparsed.inv hrx
    obtain ⟨m, hm, hmof, hconsumed, hdelivered, -, hmholds⟩ := hparsed.said
    obtain ⟨hm', hmof', hmholds'⟩ := hsaid hm hmof hmholds
    have hwaiting : t.c.waiting = t.c.buffered ++ s.c.queued := by
      rw [RequestContext.waiting, hparsed.queued]
    refine .more τ ?_ hst' hparsed.queue hlen hnone ?_
    · exact {
        rx := ⟨hinv, by rw [hparsed.queue]; exact h.rx.small⟩
        state := .inr hst'
        result := hparsed.result.trans h.result
        peer := hpeer
        live := hlive
        pending := hpending
        logged := ⟨l ++ m, hm', hmof', hmholds'⟩
        stream := by
          rw [hm, deliveredBytes_append, hdelivered, List.append_nil]
          exact h.stream
        steps := by
          rw [hwaiting]
          exact hrun τ _ hsteps }
    · intro hfull
      have hbuf := length_buffered h.rx.toRxShape
      have hbuf' := length_buffered hparsed.shape
      rw [hwaiting, RequestContext.waiting, List.length_append, List.length_append]
      omega

/-! ## The receive loop -/

theorem chunkLength_logExtends (s : Sys) (size : Int) : LogExtends s.c (chunkLength s size).c := by
  unfold chunkLength
  split
  · exact .refl s.c
  · exact ⟨[.chunkLine s.c.toRequest, _], List.append_assoc s.c.log [_] [_]⟩

theorem roundEnd_logExtends (s : Sys) (consumed : Int) : LogExtends s.c (roundEnd s consumed).1.c := by
  unfold roundEnd
  split
  · exact (CallFrame.completeRequest s).logExtends
  · split
    · exact .refl s.c
    · exact .refl s.c

theorem contentPart_logExtends (s : Sys) (size : Int) : LogExtends s.c (contentPart s size).1.c := by
  have hcall : LogExtends s.c (cgiContentReceived s s.c.httpRequestBuffer size).1.c := by
    obtain ⟨w, r, log, heq⟩ := cgiContentReceived_frame s s.c.httpRequestBuffer size
    rw [heq]
    exact ⟨log, rfl⟩
  unfold contentPart
  split
  · dsimp only
    split
    · exact hcall
    · split
      · exact hcall
      · refine (hcall.trans ?_).trans (roundEnd_logExtends ..)
        exact ⟨_, takeContent_log ..⟩
  · exact roundEnd_logExtends s 0

/-- Behind the end of the header section the log only grows. -/
theorem afterHeader_logExtends (s : Sys) (size : Int) :
    LogExtends (headersEnd s).c (afterHeader s true size).1.c := by
  unfold afterHeader
  dsimp only
  rw [if_pos rfl]
  split
  · exact .refl _
  · split
    · exact (chunkLength_logExtends ..).trans (contentPart_logExtends ..)
    · exact contentPart_logExtends ..

/-- The entry of the log at the end of a header section shows what the lines said. -/
theorem headerComplete_headersEnd {c₀ : RequestContext} {σ₀ σ : HeaderScan} {p : Bytes} {s : Sys}
    {l : List Act} (hlog : s.c.log = c₀.log ++ l) (hl : ∀ a ∈ l, a.isReceive)
    (hholds : Holds s.c (headerLines l) σ.data σ.exact) (hcomplete : σ.verdict = .complete)
    (hle : (consumedBytes l).length ≤ p.length)
    (hsteps : headerScanner.Steps (σ₀, p) (σ, p.drop (consumedBytes l).length)) :
    HeaderComplete c₀ σ₀ p (headersEnd s).c := by
  obtain ⟨st, t, heq, -⟩ := headersEnd_eq s
  obtain ⟨rest, hrest⟩ := (CallFrame.cgiHeadersReceived ⟨s.w, { s.c with
    toRequest := { s.c.toRequest with state := st, tLastSent := t }
    toResponse := authorize s.w s.c.toRequest s.c.toResponse
    log := s.c.log ++ [.headersEnd { s.c.toRequest with state := st, tLastSent := t }
      (authorize s.w s.c.toRequest s.c.toResponse)
      (loggedIn s.w (authorize s.w s.c.toRequest s.c.toResponse).session s.c.ipRemote)] },
    s.net⟩).logExtends
  have hauth : (authorize s.w s.c.toRequest s.c.toResponse).token = s.c.token ∧
      (authorize s.w s.c.toRequest s.c.toResponse).rangeTo = s.c.rangeTo := by
    unfold authorize
    dsimp only
    split <;> exact ⟨rfl, rfl⟩
  have hentry : (headersEnd s).c.log = c₀.log ++ (l ++
      .headersEnd { s.c.toRequest with state := st, tLastSent := t }
        (authorize s.w s.c.toRequest s.c.toResponse)
        (loggedIn s.w (authorize s.w s.c.toRequest s.c.toResponse).session s.c.ipRemote) :: rest) := by
    rw [heq, hrest, hlog, List.append_assoc, List.append_assoc]
    rfl
  refine ⟨σ, l, _, _, _, rest, hentry, hl, hholds.of_same ?_, hcomplete, hle, hsteps⟩
  unfold HeaderData.ofParts
  rw [hauth.1, hauth.2]

/-- A round behind the dequeue block: a step of the scanner and another round, or one of the
ends. -/
theorem processBuffer_end {c₀ : RequestContext} {σ₀ σ : HeaderScan} {p : Bytes} {s : Sys}
    (h : Scanning c₀ σ₀ p s.c σ)
    (hdrained : s.c.reqBufList = [] ∨ s.c.requestLength = maxReqBufSize) :
    (∃ t τ, processBuffer s = (t, .again) ∧ Scanning c₀ σ₀ p t.c τ ∧
        t.c.waiting.length < s.c.waiting.length) ∨
      LoopOutcome c₀ σ₀ p (processBuffer s) := by
  have hmax : maxReqBufSize = 128 := rfl
  have h0 := h.rx.nonneg
  unfold processBuffer
  by_cases hempty : s.c.requestLength = 0
  · rw [if_pos hempty]
    have hqueue : s.c.reqBufList = [] := by
      rcases hdrained with hq | hfull
      · exact hq
      · omega
    refine .inr (.scanning σ h (stuck_of_none h.rx hqueue (by omega) ?_))
    rw [RequestContext.buffered, hempty]
    rfl
  rw [if_neg hempty]
  -- the first bytes start the request
  obtain ⟨s', hs', h', hst', hlen', hqueue', hwaiting'⟩ : ∃ s', (if 0 < s.c.requestLength ∧
      s.c.state = .idle then startRequest s else s) = s' ∧ Scanning c₀ σ₀ p s'.c σ ∧
      s'.c.state = .headerReceiving ∧ s'.c.requestLength = s.c.requestLength ∧
      s'.c.reqBufList = s.c.reqBufList ∧ s'.c.waiting = s.c.waiting := by
    by_cases hidle : s.c.state = .idle
    · rw [if_pos ⟨by omega, hidle⟩]
      refine ⟨_, rfl, ?_, rfl, rfl, rfl, rfl⟩
      obtain ⟨l, hlog, hl, hholds⟩ := h.logged
      exact {
        rx := ⟨h.rx.toRxInv.of_same rfl rfl rfl rfl rfl rfl rfl rfl rfl, h.rx.small⟩
        state := .inr rfl
        result := h.result
        peer := h.peer
        live := h.live
        pending := h.pending
        logged := ⟨l, hlog, hl, hholds.of_same rfl⟩
        stream := h.stream
        steps := h.steps }
    · rw [if_neg fun hc => hidle hc.2]
      rcases h.state with hst | hst
      · exact absurd hst hidle
      · exact ⟨_, rfl, h, hst, rfl, rfl, rfl⟩
  unfold headerPart
  dsimp only
  rw [hs']
  by_cases hparse : s'.c.state = .headerReceiving ∧ 2 ≤ s.c.requestLength
  · rw [if_pos hparse]
    dsimp only
    have hend := parseHeader_end h' hst' (n := s.c.requestLength.toNat) (by omega) (by omega)
    rw [← hlen']
    generalize parseHeader s' s'.c.requestLength = r at hend ⊢
    cases hend with
    | more τ ht hst hqueue hlen hnone hless =>
      dsimp only
      rw [if_neg (by rw [ht.result]; decide), if_neg (by omega), if_pos (.inr hst)]
      by_cases hq : s.c.reqBufList = []
      · rw [hqueue, hqueue', if_pos hq]
        exact .inr (.scanning τ ht
          (stuck_of_none ht.rx (hqueue.trans (hqueue'.trans hq)) hlen hnone))
      · rw [hqueue, hqueue', if_neg hq]
        rcases hdrained with hnil | hfull
        · exact absurd hnil hq
        · refine .inl ⟨_, τ, rfl, ht, ?_⟩
          rw [← hwaiting']
          exact hless (hlen'.trans hfull)
    | complete τ l hst hresult hlog hl hholds hcomplete hle hsteps =>
      rename_i t
      dsimp only
      rw [if_neg (by rw [hresult]; decide), if_neg (by rw [hst]; exact fun hc => absurd hc.1 (by decide)),
        if_neg (by rw [hst]; decide)]
      have hdone := headerComplete_headersEnd hlog hl hholds hcomplete hle hsteps
      exact .inr (.complete (hdone.extends (afterHeader_logExtends t t.c.requestLength)))
    | refused ht =>
      dsimp only
      rw [if_pos (by rw [ht.result]; decide)]
      exact .inr (.refused ht)
  · -- a single byte
    rw [if_neg hparse]
    have hone : s.c.requestLength = 1 := by
      have hlt : ¬2 ≤ s.c.requestLength := fun h2 => hparse ⟨hst', h2⟩
      omega
    have hqueue : s.c.reqBufList = [] := by
      rcases hdrained with hq | hfull
      · exact hq
      · omega
    dsimp only
    rw [if_neg (by rw [h'.result]; decide), if_neg (by omega), if_pos (.inr hst'), hqueue',
      if_pos hqueue]
    refine .inr (.scanning σ h' (stuck_of_none h'.rx (hqueue'.trans hqueue) (by omega) ?_))
    have hbuf := length_buffered h'.rx.toRxShape
    cases hfound : findSub newline s'.c.buffered with
    | none => rfl
    | some i =>
      have hin := findSub_le hfound
      have htwo : newline.length = 2 := rfl
      omega

/-- Rounds that are not the last take a byte each, so the fuel is enough. -/
theorem receiveLoop_end {c₀ : RequestContext} {σ₀ σ : HeaderScan} {p : Bytes} {fuel : Nat} {s : Sys}
    (h : Scanning c₀ σ₀ p s.c σ) (hfuel : s.c.waiting.length < fuel) :
    LoopOutcome c₀ σ₀ p (receiveLoop fuel s) := by
  induction fuel generalizing s σ with
  | zero => omega
  | succ fuel ih =>
    have hreceiving : s.c.state.receiving = true := by
      rcases h.state with hst | hst
      · rw [hst]
        rfl
      · rw [hst]
        rfl
    have hround := processBuffer_end (s := { s with c := s.c.dequeue }) h.dequeue
      (dequeue_drained h.rx.toRxShape h.rx.small)
    have hsame : s.c.dequeue.waiting = s.c.waiting := (h.rx.toRxShape.dequeue h.rx.small).2.1
    rw [receiveLoop, if_pos hreceiving]
    unfold iteration
    rcases hround with ⟨t, τ, heq, ht, hless⟩ | hend
    · rw [heq]
      refine ih ht ?_
      have hless' : t.c.waiting.length < s.c.dequeue.waiting.length := hless
      rw [hsame] at hless'
      omega
    · generalize processBuffer { s with c := s.c.dequeue } = r at hend ⊢
      cases hend with
      | scanning τ ht hstuck => exact .scanning τ ht hstuck
      | refused ht => exact .refused ht
      | complete ht =>
        rename_i t next
        cases next with
        | again => exact .complete (ht.extends (micros_logExtends (receiveLoop_micros fuel t)))
        | stop => exact .complete ht
        | ret => exact .complete ht

/-! ## Deliveries -/

/-- A segment, and the globals and the network as its event finds them. -/
structure Delivery where
  w : World
  net : Net
  p : Segment

/-- `OnHttpReceive` with a segment, as long as the connection lasts. -/
def deliver (c : RequestContext) (d : Delivery) : RequestContext :=
  if c.pcb.isSome then (connStep ⟨d.w, c, d.net⟩ (.receive (some d.p))).c else c

def deliverAll (c : RequestContext) (ds : List Delivery) : RequestContext := ds.foldl deliver c

/-- The bytes of the segments. -/
def deliveredData (ds : List Delivery) : Bytes := ds.flatMap fun d => d.p.data

/-- The window keeps the queue below `2^16` bytes. -/
def DeliveriesFit : RequestContext → List Delivery → Prop
  | _, [] => True
  | c, d :: ds =>
    (Pbuf.data c.reqBufList).length + d.p.data.length < 65536 ∧ DeliveriesFit (deliver c d) ds

/-- What `FreeHttpContext` leaves of the fields that header lines set. -/
def freedFields (f : HeaderFields) : HeaderFields :=
  { f with
    requestMethod := .none
    ver := List.replicate 4 0
    requestPath := List.replicate 128 0
    handler := none
    contentLength := -1
    keepalive := false
    chunked := false
    token := [] }

/-- The header section was refused, and the connection closed. -/
structure HeaderRefused (c₀ : RequestContext) (σ₀ : HeaderScan) (p : Bytes) (c : RequestContext) :
    Prop where
  gone : c.pcb = none
  said : ∃ (σ : HeaderScan) (l calls : List Act) (rest : Bytes),
    c.log = c₀.log ++ (l ++ (calls ++ [.freed])) ∧ (∀ a ∈ l, a.isReceive) ∧
    (∀ a ∈ calls, a.isCallback) ∧ σ.verdict = .refused ∧
    headerScanner.Steps (σ₀, p) (σ, rest) ∧
    (HeaderData.ofParts c.toRequest c.toResponse (headerLines l)).toHeaderFields =
      freedFields σ.data.toHeaderFields

/-- What became of a header section once every delivered byte is worked off. -/
inductive HeaderOutcome (c₀ : RequestContext) (σ₀ : HeaderScan) (p : Bytes) (c : RequestContext) :
    Prop where
  | scanning (σ : HeaderScan) (h : Scanning c₀ σ₀ p c σ)
      (hstuck : headerScanner.Stuck (σ, c.waiting)) : HeaderOutcome c₀ σ₀ p c
  | complete (h : HeaderComplete c₀ σ₀ p c) : HeaderOutcome c₀ σ₀ p c
  | refused (h : HeaderRefused c₀ σ₀ p c) : HeaderOutcome c₀ σ₀ p c

/-- The bytes behind a complete section do not matter for it. -/
theorem HeaderComplete.append {c₀ c : RequestContext} {σ₀ : HeaderScan} {p : Bytes}
    (h : HeaderComplete c₀ σ₀ p c) (q : Bytes) : HeaderComplete c₀ σ₀ (p ++ q) c := by
  obtain ⟨σ, l, h, r, b, rest, hlog, hl, hholds, hcomplete, hle, hsteps⟩ := h
  refine ⟨σ, l, h, r, b, rest, hlog, hl, hholds, hcomplete, ?_, ?_⟩
  · rw [List.length_append]
    omega
  · rw [List.drop_append_of_le_length hle]
    exact hsteps.append q

theorem HeaderRefused.append {c₀ c : RequestContext} {σ₀ : HeaderScan} {p : Bytes}
    (h : HeaderRefused c₀ σ₀ p c) (q : Bytes) : HeaderRefused c₀ σ₀ (p ++ q) c := by
  obtain ⟨hgone, σ, l, calls, rest, hlog, hl, hcalls, hrefused, hsteps, hfields⟩ := h
  exact ⟨hgone, σ, l, calls, rest ++ q, hlog, hl, hcalls, hrefused, hsteps.append q, hfields⟩

/-- A segment adds its bytes to what is waiting. -/
theorem Scanning.receive {c₀ c : RequestContext} {σ₀ σ : HeaderScan} {p : Bytes} {q : Segment}
    (h : Scanning c₀ σ₀ p c σ) (hfit : (Pbuf.data c.reqBufList).length + q.data.length < 65536) :
    Scanning c₀ σ₀ (p ++ q.data) (c.receivePbuf q.chain) σ := by
  obtain ⟨acks, hlog⟩ := receivePbuf_log c q.chain
  have hstep := rxStep_receivePbuf h.rx.toRxInv hfit
  have hdelivered : deliveredBytes (.delivered (Pbuf.data q.chain) :: acks.map Act.recved) =
      q.data := by
    show Pbuf.data q.chain ++ deliveredBytes (acks.map Act.recved) = _
    rw [deliveredBytes_acks, List.append_nil]
    rfl
  have hwaiting : (c.receivePbuf q.chain).waiting = c.waiting ++ q.data := by
    have hbefore := h.rx.stream
    have hafter := hstep.inv.stream
    have hconsumed : consumedBytes (.delivered (Pbuf.data q.chain) :: acks.map Act.recved) = [] :=
      consumedBytes_acks acks
    rw [hlog, consumedBytes_append, deliveredBytes_append, hdelivered, hconsumed, List.append_nil,
      ← hbefore, List.append_assoc, List.append_assoc, List.append_assoc,
      ← List.append_assoc c.buffered] at hafter
    exact List.append_cancel_left hafter
  have hrx : ∀ a ∈ Act.delivered (Pbuf.data q.chain) :: acks.map Act.recved, a.isRx := by
    intro a ha
    rcases List.mem_cons.mp ha with rfl | hin
    · rfl
    · obtain ⟨n, -, rfl⟩ := List.mem_map.mp hin
      rfl
  exact {
    rx := (rxState_step (e := .deliver q) h.rx hfit).1
    state := by
      rw [hstep.request]
      exact h.state
    result := by
      rw [hstep.response]
      exact h.result
    peer := by
      rw [hstep.request]
      exact h.peer
    live := by
      rw [hstep.pcb]
      exact h.live
    pending := h.pending
    logged := by
      obtain ⟨l, hl, hreceive, hholds⟩ := h.logged
      refine ⟨l ++ .delivered (Pbuf.data q.chain) :: acks.map Act.recved, by
        rw [hlog, hl, List.append_assoc],
        receive_append hreceive fun a ha => isReceive_of_rx (hrx a ha), ?_⟩
      rw [headerLines_append, headerLines_rx hrx, List.append_nil]
      exact hholds.of_same (by rw [hstep.request, hstep.response])
    stream := by
      rw [hlog, deliveredBytes_append, hdelivered, ← List.append_assoc, h.stream]
    steps := by
      rw [hwaiting]
      exact h.steps.append q.data }

/-- Closing leaves two of the fields. -/
theorem closeHttpContext_left (s : Sys) :
    (closeHttpContext s).c.posQuestion = s.c.posQuestion ∧
      (closeHttpContext s).c.expect00 = s.c.expect00 := by
  have hdetach : (detachPcb s).c.posQuestion = s.c.posQuestion ∧
      (detachPcb s).c.expect00 = s.c.expect00 := by
    unfold detachPcb
    split
    · exact ⟨rfl, rfl⟩
    · dsimp only
      split <;> exact ⟨rfl, rfl⟩
  have hfinish := (CallFrame.invoke (detachPcb s) .onFinished Cgi.onFinished).request
  have hclose : ∀ t : Sys, (closeFileHandle t).c.toRequest = t.c.toRequest := fun t => by
    unfold closeFileHandle
    split <;> rfl
  have hreq : (closeFileHandle (cgiFinish (detachPcb s))).c.toRequest = (detachPcb s).c.toRequest :=
    (hclose _).trans hfinish
  unfold closeHttpContext freeHttpContext
  dsimp only
  show (closeFileHandle (cgiFinish (detachPcb s))).c.toRequest.posQuestion = _ ∧
    (closeFileHandle (cgiFinish (detachPcb s))).c.toRequest.expect00 = _
  rw [hreq]
  exact hdetach

/-- A refused section closes the connection. -/
theorem headerRefused_close {c₀ : RequestContext} {σ₀ : HeaderScan} {p : Bytes} {s : Sys}
    (h : HeaderError c₀ σ₀ p s.c) : HeaderRefused c₀ σ₀ p (closeHttpContext s).c := by
  obtain ⟨σ, l, rest, hlog, hl, hholds, hrefused, hsteps⟩ := h.said
  have hleft := closeHttpContext_left s
  obtain ⟨w, h', r, pcb, calls, net, heq, hcalls⟩ := closeHttpContext_frame s
  rw [heq] at hleft ⊢
  refine ⟨rfl, σ, l, calls, rest, ?_, hl, hcalls, hrefused, hsteps, ?_⟩
  · show s.c.log ++ calls ++ [.freed] = _
    rw [hlog, List.append_assoc, List.append_assoc]
  · rw [← hholds.fields]
    show HeaderFields.mk .none _ _ h'.posQuestion none (-1) false false h'.expect00 [] _ = _
    rw [show h'.posQuestion = s.c.posQuestion from hleft.1,
      show h'.expect00 = s.c.expect00 from hleft.2]
    rfl

/-- `OnHttpReceive` with data. -/
theorem onHttpReceive_segment (s : Sys) (p : List Pbuf) :
    onHttpReceive s (some p) =
      let u := httpRequestProc ⟨s.w, RequestContext.receivePbuf { s.c with toResponse :=
        { s.c.toResponse with tLastReceived := s.now } } p, s.net⟩ .recv
      if u.c.result ≤ -500 then closeHttpContext u
      else if u.c.checkAlive then u
      else { u with w := { u.w with
        sessions := sessionReceived u.w.sessions u.c.session u.w.tick } } := by
  unfold onHttpReceive
  rw [if_neg (fun h => nomatch h.1)]
  simp only [reduceCtorEq, if_false]
  rfl

/-- A delivery is worked off. -/
theorem deliver_scanning {c₀ c : RequestContext} {σ₀ σ : HeaderScan} {p : Bytes} {d : Delivery}
    (h : Scanning c₀ σ₀ p c σ)
    (hfit : (Pbuf.data c.reqBufList).length + d.p.data.length < 65536) :
    HeaderOutcome c₀ σ₀ (p ++ d.p.data) (deliver c d) := by
  have htouch : Scanning c₀ σ₀ p { c with toResponse := { c.toResponse with
      tLastReceived := (Sys.mk d.w c d.net).now } } σ := by
    obtain ⟨l, hlog, hl, hholds⟩ := h.logged
    exact {
      rx := ⟨h.rx.toRxInv.of_same rfl rfl rfl rfl rfl rfl rfl rfl rfl, h.rx.small⟩
      state := h.state
      result := h.result
      peer := h.peer
      live := h.live
      pending := h.pending
      logged := ⟨l, hlog, hl, hholds.of_same rfl⟩
      stream := h.stream
      steps := h.steps }
  have hreceived := htouch.receive (q := d.p) hfit
  unfold deliver
  rw [if_pos h.live]
  show HeaderOutcome _ _ _ (onHttpReceive ⟨d.w, c, d.net⟩ (some d.p.chain)).c
  rw [onHttpReceive_segment]
  generalize htold : Sys.mk d.w (RequestContext.receivePbuf { c with toResponse :=
    { c.toResponse with tLastReceived := (Sys.mk d.w c d.net).now } } d.p.chain) d.net = s
  have hs : Scanning c₀ σ₀ (p ++ d.p.data) s.c σ := by
    rw [← htold]
    exact hreceived
  have hfuel : s.c.waiting.length < receiveFuel s.c := by
    have hlen := length_buffered hs.rx.toRxShape
    have hqueued : s.c.queued.length ≤ (Pbuf.data s.c.reqBufList).length := by
      rw [RequestContext.queued, List.length_drop]
      omega
    rw [RequestContext.waiting, List.length_append, receiveFuel]
    omega
  have hloop := receiveLoop_end hs hfuel
  -- a complete section stays complete
  have hlater : ∀ t : Sys, HeaderComplete c₀ σ₀ (p ++ d.p.data) t.c →
      HeaderOutcome c₀ σ₀ (p ++ d.p.data) (if t.c.result ≤ -500 then closeHttpContext t
        else if t.c.checkAlive then t
        else { t with w := { t.w with
          sessions := sessionReceived t.w.sessions t.c.session t.w.tick } }).c := by
    intro t ht
    refine .complete ?_
    split
    · exact ht.extends (closeHttpContext_frame t).logExtends
    · split
      · exact ht
      · exact ht
  unfold httpRequestProc
  generalize receiveLoop (receiveFuel s.c) s = r at hloop ⊢
  cases hloop with
  | complete ht =>
    rename_i t next
    have hfinish := ht.extends (micros_logExtends (requestFinish_micros t .recv))
    cases next with
    | again => exact hlater _ hfinish
    | stop => exact hlater _ hfinish
    | ret => exact hlater _ ht
  | scanning τ ht hstuck =>
    rename_i t
    have hreceiving : t.c.state.receiving = true := by
      rcases ht.state with hst | hst <;> rw [hst] <;> rfl
    have hfinish : requestFinish t .recv = t := by
      unfold requestFinish
      rw [if_pos hreceiving, if_neg (by rw [ht.peer]; decide)]
    dsimp only
    rw [hfinish, if_neg (by rw [ht.result]; decide)]
    split
    · exact .scanning τ ht hstuck
    · exact .scanning τ ht hstuck
  | refused ht =>
    rename_i t
    have hfinish : requestFinish t .recv = t := by
      unfold requestFinish
      rw [if_pos ht.receiving, if_neg (by rw [ht.peer]; decide)]
    dsimp only
    rw [hfinish, if_pos (by rw [ht.result])]
    exact .refused (headerRefused_close ht)

theorem deliver_outcome {c₀ c : RequestContext} {σ₀ : HeaderScan} {p : Bytes} {d : Delivery}
    (h : HeaderOutcome c₀ σ₀ p c)
    (hfit : (Pbuf.data c.reqBufList).length + d.p.data.length < 65536) :
    HeaderOutcome c₀ σ₀ (p ++ d.p.data) (deliver c d) := by
  cases h with
  | scanning σ h hstuck => exact deliver_scanning h hfit
  | complete h =>
    refine .complete ((h.append d.p.data).extends ?_)
    unfold deliver
    split
    · rename_i hlive
      exact micros_logExtends (connStep_micros (s := ⟨d.w, c, d.net⟩)
        (e := .receive (some d.p)) ⟨hlive, hfit⟩)
    · exact .refl c
  | refused h =>
    have hgone : deliver c d = c := by
      unfold deliver
      rw [h.gone]
      rfl
    rw [hgone]
    exact .refused (h.append d.p.data)

theorem deliverAll_outcome {c₀ c : RequestContext} {σ₀ : HeaderScan} {p : Bytes} {ds : List Delivery}
    (h : HeaderOutcome c₀ σ₀ p c) (hfit : DeliveriesFit c ds) :
    HeaderOutcome c₀ σ₀ (p ++ deliveredData ds) (deliverAll c ds) := by
  induction ds generalizing c p with
  | nil =>
    rw [deliveredData, List.flatMap_nil, List.append_nil]
    exact h
  | cons d ds ih =>
    have hall : p ++ deliveredData (d :: ds) = p ++ d.p.data ++ deliveredData ds := by
      rw [List.append_assoc]
      rfl
    rw [hall]
    exact ih (deliver_outcome h hfit.1) hfit.2

/-- Deliveries from the start of a request on. -/
theorem requestStart_outcome {c : RequestContext} (σ : HeaderScan) {ds : List Delivery}
    (h : RequestStart c) (hpending : σ.verdict = .pending) (hholds : Holds c [] σ.data σ.exact)
    (hne : ds ≠ []) (hfit : DeliveriesFit c ds) :
    HeaderOutcome c σ (c.waiting ++ deliveredData ds) (deliverAll c ds) := by
  cases ds with
  | nil => exact absurd rfl hne
  | cons d ds =>
    have hfirst := deliver_scanning (scanning_start h hpending hholds) hfit.1
    have hall := deliverAll_outcome hfirst hfit.2
    rw [List.append_assoc] at hall
    exact hall

/-! ## What is observed of a header section -/

/-- A header section as an observer sees it: incomplete, complete with the position of its
end in the stream, or refused. -/
inductive HeaderSection (α : Type) where
  | waiting (fields : α)
  | complete (fields : α) (position : Nat)
  | refused (fields : α)
  deriving DecidableEq

def HeaderSection.map {α β : Type} (f : α → β) : HeaderSection α → HeaderSection β
  | .waiting x => .waiting (f x)
  | .complete x n => .complete (f x) n
  | .refused x => .refused (f x)

def HeaderSection.fields {α : Type} : HeaderSection α → α
  | .waiting x => x
  | .complete x _ => x
  | .refused x => x

/-- The entry of the log that decides on a header section. -/
def Act.decides : Act → Bool
  | .headersEnd .. => true
  | .freed => true
  | _ => false

/-- The header section of the request that started when the log had `n` entries: the fields
at its end, or as they are now. -/
def headerSection (n : Nat) (c : RequestContext) : HeaderSection HeaderData :=
  let l := (c.log.drop n).takeWhile fun a => !a.decides
  match (c.log.drop n).dropWhile fun a => !a.decides with
  | .headersEnd h r _ :: _ =>
    .complete (.ofParts h r (headerLines l)) (consumedBytes l).length
  | [] => .waiting (.ofParts c.toRequest c.toResponse (headerLines l))
  | _ :: _ => .refused (.ofParts c.toRequest c.toResponse (headerLines l))

theorem not_decides_of_receive {a : Act} (h : a.isReceive) : (!a.decides) = true := by
  cases a <;> first | rfl | cases h

theorem not_decides_of_callback {a : Act} (h : a.isCallback) : (!a.decides) = true := by
  cases a <;> first | rfl | cases h

theorem headerSection_of_log {n : Nat} {c : RequestContext} {log l : List Act} {a : Act}
    {rest : List Act} (hn : log.length = n) (hlog : c.log = log ++ (l ++ a :: rest))
    (hl : ∀ b ∈ l, (!b.decides) = true) (ha : a.decides = true) :
    (c.log.drop n).takeWhile (fun b => !b.decides) = l ∧
      (c.log.drop n).dropWhile (fun b => !b.decides) = a :: rest := by
  have hstop : ¬(!a.decides) = true := by
    rw [ha]
    decide
  rw [hlog, List.drop_left' hn, List.takeWhile_append_of_pos hl, List.dropWhile_append_of_pos hl,
    List.takeWhile_cons_of_neg (p := fun b : Act => !b.decides) hstop,
    List.dropWhile_cons_of_neg (p := fun b : Act => !b.decides) hstop, List.append_nil]
  exact ⟨rfl, rfl⟩

/-- What is observed when the scanner is in `σ` and `position` bytes are taken. -/
def HeaderScan.observed (σ : HeaderScan) (position : Nat) : HeaderSection HeaderFields :=
  match σ.verdict with
  | .pending => .waiting σ.data.toHeaderFields
  | .complete => .complete σ.data.toHeaderFields position
  | .refused => .refused (freedFields σ.data.toHeaderFields)

theorem stuck_of_verdict {σ : HeaderScan} {p : Bytes} (h : σ.verdict ≠ .pending) :
    headerScanner.Stuck (σ, p) := by
  show headerStep σ p = none
  unfold headerStep
  rw [if_pos h]

/-- What is observed is where the scanner is stuck. -/
theorem HeaderOutcome.observed {c₀ c : RequestContext} {σ₀ : HeaderScan} {p : Bytes}
    (h : HeaderOutcome c₀ σ₀ p c) :
    ∃ σ rest, headerScanner.Steps (σ₀, p) (σ, rest) ∧ headerScanner.Stuck (σ, rest) ∧
      (headerSection c₀.log.length c).map HeaderData.toHeaderFields =
        σ.observed (p.length - rest.length) := by
  cases h with
  | scanning σ h hstuck =>
    obtain ⟨l, hlog, hl, hholds⟩ := h.logged
    have hkeep : ∀ a ∈ l, (!a.decides) = true := fun a ha => not_decides_of_receive (hl a ha)
    refine ⟨σ, c.waiting, h.steps, hstuck, ?_⟩
    unfold headerSection HeaderScan.observed
    rw [hlog, List.drop_left' rfl, List.takeWhile_eq_self_iff.mpr hkeep,
      List.dropWhile_eq_nil_iff.mpr hkeep, h.pending]
    exact congrArg HeaderSection.waiting hholds.fields
  | complete h =>
    obtain ⟨σ, l, h, r, b, rest, hlog, hl, hholds, hcomplete, hle, hsteps⟩ := h
    obtain ⟨htake, hdrop⟩ := headerSection_of_log rfl hlog
      (fun a ha => not_decides_of_receive (hl a ha)) rfl
    refine ⟨σ, _, hsteps, stuck_of_verdict (by rw [hcomplete]; decide), ?_⟩
    unfold headerSection HeaderScan.observed
    rw [htake, hdrop, hcomplete, List.length_drop, Nat.sub_sub_self hle]
    exact congrArg (fun f => HeaderSection.complete f (consumedBytes l).length) hholds.fields
  | refused h =>
    obtain ⟨σ, l, calls, rest, hlog, hl, hcalls, hrefused, hsteps, hfields⟩ := h.said
    have hlog' : c.log = c₀.log ++ (l ++ calls ++ .freed :: []) := by
      rw [hlog, List.append_assoc l]
    have hkeep : ∀ a ∈ l ++ calls, (!a.decides) = true := fun a ha => by
      rcases List.mem_append.mp ha with hin | hin
      · exact not_decides_of_receive (hl a hin)
      · exact not_decides_of_callback (hcalls a hin)
    obtain ⟨htake, hdrop⟩ := headerSection_of_log rfl hlog' hkeep rfl
    refine ⟨σ, rest, hsteps, stuck_of_verdict (by rw [hrefused]; decide), ?_⟩
    unfold headerSection HeaderScan.observed
    rw [htake, hdrop, hrefused]
    have hlines : headerLines (l ++ calls) = headerLines l := by
      rw [headerLines_append, headerLines_callbacks hcalls, List.append_nil]
    rw [← hlines] at hfields
    exact congrArg HeaderSection.refused hfields

/-- The fields of a section that the scanner completes. -/
theorem HeaderOutcome.complete_fields {c₀ c : RequestContext} {σ₀ σ : HeaderScan} {p rest : Bytes}
    (h : HeaderOutcome c₀ σ₀ p c) (hsteps : headerScanner.Steps (σ₀, p) (σ, rest))
    (hcomplete : σ.verdict = .complete) :
    (headerSection c₀.log.length c).fields.toHeaderFields = σ.data.toHeaderFields ∧
      (σ.exact = true → (headerSection c₀.log.length c).fields = σ.data) := by
  have hstuck : headerScanner.Stuck (σ, rest) := stuck_of_verdict (by rw [hcomplete]; decide)
  cases h with
  | scanning τ h hstuck' =>
    obtain ⟨rfl, -⟩ := Prod.mk.inj (Scanner.stuck_unique hsteps h.steps hstuck hstuck')
    rw [h.pending] at hcomplete
    cases hcomplete
  | complete h =>
    obtain ⟨τ, l, h, r, b, later, hlog, hl, hholds, hcomplete', -, hsteps'⟩ := h
    have hstuck' : headerScanner.Stuck (τ, p.drop (consumedBytes l).length) :=
      stuck_of_verdict (by rw [hcomplete']; decide)
    obtain ⟨rfl, -⟩ := Prod.mk.inj (Scanner.stuck_unique hsteps hsteps' hstuck hstuck')
    obtain ⟨htake, hdrop⟩ := headerSection_of_log rfl hlog
      (fun a ha => not_decides_of_receive (hl a ha)) rfl
    unfold headerSection
    rw [htake, hdrop]
    refine ⟨hholds.fields, fun hx => ?_⟩
    rw [hx] at hholds
    exact hholds.all
  | refused h =>
    obtain ⟨τ, l, calls, later, -, -, -, hrefused, hsteps', -⟩ := h.said
    have hstuck' : headerScanner.Stuck (τ, later) := stuck_of_verdict (by rw [hrefused]; decide)
    obtain ⟨rfl, -⟩ := Prod.mk.inj (Scanner.stuck_unique hsteps hsteps' hstuck hstuck')
    rw [hrefused] at hcomplete
    cases hcomplete

/-- A connection that was just accepted is at the start of a request. -/
theorem requestStart_accept {s : Sys} (h : SlotReach s.c) (hfree : s.c.pcb = none)
    (pcb ipRemote : Nat) : RequestStart (acceptContext s pcb ipRemote).c := by
  have hshape := h.shape
  obtain ⟨w, f, fault, heq⟩ := acceptContext_spec s pcb ipRemote
  rw [heq]
  exact {
    rx := ⟨rxInv_of_empty ⟨rfl, rfl, rfl, hshape.buffer, (hshape.free hfree).length, rfl, rfl⟩,
      show 0 < 65536 by decide⟩
    state := rfl
    result := rfl
    peer := rfl
    live := rfl }

/-- **Segmentation.** Two contexts at the start of a request that hold the same fields are
given the same bytes in any segments, in any environment. Then the same is observed of the
header section: whether it is complete or refused, where in the stream it ends, what was
parsed, and which lines were handed to `CGI_HeaderReceived`. -/
theorem header_section_segmentation {s t : RequestContext} {ds es : List Delivery}
    (hs : RequestStart s) (ht : RequestStart t)
    (hsame : (HeaderData.ofParts s.toRequest s.toResponse []).toHeaderFields =
      (HeaderData.ofParts t.toRequest t.toResponse []).toHeaderFields)
    (hds : ds ≠ []) (hes : es ≠ []) (hsfit : DeliveriesFit s ds) (htfit : DeliveriesFit t es)
    (hstream : s.waiting ++ deliveredData ds = t.waiting ++ deliveredData es) :
    (headerSection s.log.length (deliverAll s ds)).map HeaderData.toHeaderFields =
      (headerSection t.log.length (deliverAll t es)).map HeaderData.toHeaderFields := by
  have hstart : ∀ c : RequestContext, (HeaderData.ofParts s.toRequest s.toResponse []).toHeaderFields =
      (HeaderData.ofParts c.toRequest c.toResponse []).toHeaderFields →
      Holds c [] (HeaderData.ofParts s.toRequest s.toResponse []) false :=
    fun c h => ⟨h.symm, fun h => nomatch h⟩
  let σ : HeaderScan := ⟨HeaderData.ofParts s.toRequest s.toResponse [], .pending, false⟩
  obtain ⟨σ₁, rest₁, hsteps₁, hstuck₁, hobs₁⟩ :=
    (requestStart_outcome σ hs rfl (hstart s rfl) hds hsfit).observed
  obtain ⟨σ₂, rest₂, hsteps₂, hstuck₂, hobs₂⟩ :=
    (requestStart_outcome σ ht rfl (hstart t hsame) hes htfit).observed
  rw [← hstream] at hsteps₂ hobs₂
  obtain ⟨rfl, rfl⟩ := Prod.mk.inj (Scanner.stuck_unique hsteps₁ hsteps₂ hstuck₁ hstuck₂)
  rw [hobs₁, hobs₂]

/-- The delivery of a text. -/
def deliverText (s : String) (h : ascii s ≠ []) : Delivery :=
  ⟨plainWorld, ⟨[], [], [], []⟩, .ofBytes (ascii s) h⟩

/-- A request in one segment, and with a line end torn apart. -/
def wholeRequest : List Delivery :=
  [deliverText "GET /a HTTP/1.1\r\nHost: b\r\n\r\n" (by decide)]

def tornRequest : List Delivery :=
  [deliverText "GET /a HTTP/1.1\r" (by decide),
    deliverText "\nHost: b\r\n\r\n" (by decide)]

theorem emptyConnection_start : RequestStart emptyConnection where
  rx := ⟨rxInv_of_empty ⟨rfl, rfl, rfl, rfl, rfl, rfl, rfl⟩, by decide⟩
  state := rfl
  result := rfl
  peer := rfl
  live := rfl

theorem header_section_segmentation_torn :
    (headerSection emptyConnection.log.length
        (deliverAll emptyConnection wholeRequest)).map HeaderData.toHeaderFields =
      (headerSection emptyConnection.log.length
        (deliverAll emptyConnection tornRequest)).map HeaderData.toHeaderFields :=
  header_section_segmentation emptyConnection_start emptyConnection_start rfl
    (List.cons_ne_nil _ _) (List.cons_ne_nil _ _) ⟨by decide, trivial⟩
    ⟨by decide +kernel, by decide +kernel, trivial⟩ (by decide +kernel)

end Httpd

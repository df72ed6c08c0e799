import LambdaIOT.Lib.Loop
import LambdaIOT.Properties.Stranded

/-!
# Every call comes to an end

The loop of `HttpRequestProc` goes on only while data is queued, and data stays queued only behind
a full buffer. So a round that goes on starts with `MAX_REQ_BUF_SIZE` bytes in the buffer at least,
and it takes some: the lines that are complete, half of a line that is too long, or what the
handler consumed. The bytes of the buffer and of the queue together are the measure, whatever the
handlers do.
-/

namespace Httpd

open CMem Lwip Loop

/-! ## The loop with any handlers -/

/-- What the handlers are called with for content: the table of their `OnContentReceived`. -/
abbrev ContentCallbacks := Cgi → Option (Request → Call → Bytes → Int → Call × Int)

section

variable (callbacks : ContentCallbacks)

/-- `CGI_ContentReceived(context, buffer, size)`. -/
def contentReceivedBy (s : Sys) (buffer : Bytes) (size : Int) : Sys × Int :=
  match s.c.handler with
  | none => (s, 0)
  | some cgi =>
    match callbacks cgi with
    | none => (s, 0)
    | some f =>
      let k := f s.c.toRequest s.call buffer size
      let note := Act.content s.c.toRequest s.c.toResponse s.c.requestLength size k.2
      ((((s.note (.callback cgi .onContentReceived)).note note).ofCall k.1), k.2)

/-- The content part of a round. -/
def contentPartBy (s : Sys) (size : Int) : Sys × Next :=
  if s.c.state = .chunkReceiving ∨ s.c.state = .bodyReceiving then
    let taken := contentReceivedBy callbacks s s.c.httpRequestBuffer size
    if taken.1.c.result ≤ -500 then (taken.1, .ret)
    else if taken.2 ≤ 0 then (taken.1, .stop)
    else roundEnd (takeContent taken.1 taken.2) taken.2
  else roundEnd s 0

/-- A round once the header section is complete. -/
def afterHeaderBy (s : Sys) (justNow : Bool) (size : Int) : Sys × Next :=
  let s := if justNow then headersEnd s else s
  if s.c.result < 0 then (s.setState .sendingHeader, .stop)
  else if s.c.state = .chunkLenReceiving ∧ 2 < size then
    contentPartBy callbacks (chunkLength s size) size
  else contentPartBy callbacks s size

/-- A round behind the dequeue block. -/
def processBufferBy (s : Sys) : Sys × Next :=
  if s.c.requestLength = 0 then (s, .stop)
  else
    let parsed := headerPart s
    let s := parsed.1
    if s.c.result < 0 then (s, .stop)
    else if s.c.state = .headerReceiving ∧ (maxReqBufSize : Int) ≤ s.c.requestLength then
      (s.setResult (-500), .stop)
    else if s.c.state = .idle ∨ s.c.state = .headerReceiving then
      (s, if s.c.reqBufList = [] then .stop else .again)
    else afterHeaderBy callbacks s parsed.2.1 parsed.2.2

/-- One round of the loop. -/
def iterationBy (s : Sys) : Sys × Next := processBufferBy callbacks { s with c := s.c.dequeue }

/-- The loop condition and the round: on to the next one, or out of the loop. -/
def receiveRound (s : Sys) : Sys ⊕ (Sys × Next) :=
  if s.c.state.receiving then
    match iterationBy callbacks s with
    | (t, .again) => .inl t
    | r => .inr r
  else .inr (s, .stop)

end

/-- With the handlers of the server this is the loop of the model. -/
theorem iterationBy_eq : iterationBy Cgi.onContentReceived = iteration := rfl

theorem receiveLoop_eq_withFuel (fuel : Nat) (s : Sys) : receiveLoop fuel s =
    withFuel (receiveRound Cgi.onContentReceived) (fun s => (s.crash, .stop)) fuel s := by
  induction fuel generalizing s with
  | zero => rfl
  | succ fuel ih =>
    rw [receiveLoop, withFuel, receiveRound, iterationBy_eq]
    by_cases hrec : s.c.state.receiving = true
    · rw [if_pos hrec, if_pos hrec]
      generalize iteration s = r
      obtain ⟨t, next⟩ := r
      cases next with
      | again => exact ih t
      | stop => rfl
      | ret => rfl
    · rw [if_neg hrec, if_neg hrec]

/-! ## What a round leaves -/

/-- The queue is as it was, and the buffer holds no more than it did. -/
structure Shrunk (s t : Sys) : Prop where
  queue : t.c.reqBufList = s.c.reqBufList
  offset : t.c.bufOffset = s.c.bufOffset
  level : t.c.maxLevel = s.c.maxLevel
  pcb : t.c.pcb = s.c.pcb
  length : t.c.requestLength ≤ s.c.requestLength

namespace Shrunk

theorem refl (s : Sys) : Shrunk s s := ⟨rfl, rfl, rfl, rfl, le_refl _⟩

theorem trans {s t u : Sys} (h : Shrunk s t) (h' : Shrunk t u) : Shrunk s u :=
  ⟨h'.queue.trans h.queue, h'.offset.trans h.offset, h'.level.trans h.level, h'.pcb.trans h.pcb,
    h'.length.trans h.length⟩

theorem line {s t : Sys} (h : LineFrame s t) : Shrunk s t := by
  obtain ⟨_, _, _, _, rfl, -⟩ := h
  exact ⟨rfl, rfl, rfl, rfl, le_refl _⟩

theorem call {s t : Sys} (h : CallFrame s t) : Shrunk s t := by
  obtain ⟨_, _, _, rfl, -⟩ := h
  exact ⟨rfl, rfl, rfl, rfl, le_refl _⟩

end Shrunk

/-- The scan moves nothing. -/
theorem parseScan_lengths (s : Sys) (size : Int) :
    (parseScan s size).s.c.requestLength = s.c.requestLength ∧
      (parseScan s size).s.c.maxLevel = s.c.maxLevel := by
  refine lineLoop_induct
    (P := fun t => t.c.requestLength = s.c.requestLength ∧ t.c.maxLevel = s.c.maxLevel)
    ?_ ?_ ?_ _ _ _ ⟨rfl, rfl⟩
  · intro t tail n _ h
    obtain ⟨_, _, _, _, heq, -⟩ := LineFrame.requestLine t tail n
    rw [heq]
    exact h
  · intro t tail n _ h
    obtain ⟨_, _, _, _, heq, -⟩ := LineFrame.headerLine t tail n
    rw [heq]
    exact h
  · intro t h
    unfold endOfHeaders
    dsimp only
    split
    · exact h
    · exact h

/-- Parsing a full buffer takes a line out of it, or cuts it to half. -/
theorem parseHeader_takes {s : Sys} (size : Int) (hlen : 2 ≤ s.c.requestLength)
    (hfull : s.c.maxLevel ≤ s.c.requestLength) :
    (parseHeader s size).1.c.requestLength < s.c.requestLength := by
  obtain ⟨hl, hm⟩ := parseScan_lengths s size
  change ((parseScan s size).shift s.c.httpRequestBuffer).requestLength < _
  rw [LineScan.shift]
  dsimp only
  by_cases hpos : (parseScan s size).nLinePos = 0
  · rw [if_pos hpos, if_pos (by rw [hl, hm]; exact hfull)]
    change (parseScan s size).s.c.requestLength - (parseScan s size).s.c.requestLength.tdiv 2 < _
    rw [hl, Int.tdiv_eq_ediv_of_nonneg (by omega)]
    omega
  · rw [if_neg hpos]
    change (parseScan s size).s.c.requestLength - ((parseScan s size).nLinePos : Int) < _
    rw [hl]
    omega

/-- Behind a full buffer the header part of a round takes something, if it is the header section
that is received. -/
theorem headerPart_takes {s : Sys} (hlen : 2 ≤ s.c.requestLength)
    (hfull : s.c.maxLevel ≤ s.c.requestLength) : Shrunk s (headerPart s).1 ∧
      ((headerPart s).1.c.state = .idle ∨ (headerPart s).1.c.state = .headerReceiving →
        (headerPart s).1.c.requestLength < s.c.requestLength) := by
  rw [headerPart]
  dsimp only
  generalize ht : (if 0 < s.c.requestLength ∧ s.c.state = .idle then startRequest s else s) = t
  have hkept : Shrunk s t ∧ t.c.requestLength = s.c.requestLength := by
    rw [← ht]
    split
    · exact ⟨⟨rfl, rfl, rfl, rfl, le_refl _⟩, rfl⟩
    · exact ⟨.refl s, rfl⟩
  have hidle : t.c.state ≠ .idle := by
    rw [← ht]
    split
    · exact HttpState.noConfusion
    · rename_i hnot
      exact fun hidle => hnot ⟨by omega, hidle⟩
  obtain ⟨hshrunk, hsame⟩ := hkept
  split
  · have htakes := parseHeader_takes (s := t) s.c.requestLength (by omega)
      (by rw [hshrunk.level, hsame]; exact hfull)
    obtain ⟨_, _, _, _, _, _, heq, -⟩ := ParseFrame.parseHeader t s.c.requestLength
    rw [hsame] at htakes
    refine ⟨hshrunk.trans ?_, fun _ => htakes⟩
    rw [heq] at htakes ⊢
    exact ⟨rfl, rfl, rfl, rfl, by rw [hsame]; exact Int.le_of_lt htakes⟩
  · rename_i hnot
    refine ⟨hshrunk, ?_⟩
    rintro (hst | hst)
    · exact absurd hst hidle
    · exact absurd ⟨hst, hlen⟩ hnot

theorem shrunk_headersEnd (s : Sys) : Shrunk s (headersEnd s) := by
  obtain ⟨_, _, heq, -⟩ := headersEnd_eq s
  obtain ⟨_, _, _, hcall, -⟩ := CallFrame.cgiHeadersReceived _
  rw [heq, hcall]
  exact ⟨rfl, rfl, rfl, rfl, le_refl _⟩

theorem shrunk_chunkLength (s : Sys) (size : Int) : Shrunk s (chunkLength s size) := by
  unfold chunkLength
  split
  · exact .refl s
  · refine ⟨rfl, rfl, rfl, rfl, ?_⟩
    change s.c.requestLength - _ ≤ s.c.requestLength
    omega

theorem shrunk_takeContent {s : Sys} {consumed : Int} (hpos : 0 < consumed) :
    Shrunk s (takeContent s consumed) ∧
      (takeContent s consumed).c.requestLength < s.c.requestLength := by
  have hless : s.c.requestLength - consumed < s.c.requestLength := by omega
  unfold takeContent
  dsimp only
  split
  · unfold contentDone
    split
    · split
      · exact ⟨⟨rfl, rfl, rfl, rfl, Int.le_of_lt hless⟩, hless⟩
      · exact ⟨⟨rfl, rfl, rfl, rfl, Int.le_of_lt hless⟩, hless⟩
    · exact ⟨⟨rfl, rfl, rfl, rfl, Int.le_of_lt hless⟩, hless⟩
  · exact ⟨⟨rfl, rfl, rfl, rfl, Int.le_of_lt hless⟩, hless⟩

theorem roundEnd_again {s t : Sys} {consumed : Int} (h : roundEnd s consumed = (t, .again)) :
    t = s ∧ s.c.reqBufList ≠ [] ∧ 0 < consumed := by
  unfold roundEnd at h
  split at h
  · cases h
  · split at h
    · cases h
    · rename_i hmore
      rw [not_or] at hmore
      cases h
      exact ⟨rfl, hmore.1, by omega⟩

section

variable (callbacks : ContentCallbacks)

theorem shrunk_contentReceivedBy (s : Sys) (buffer : Bytes) (size : Int) :
    Shrunk s (contentReceivedBy callbacks s buffer size).1 := by
  unfold contentReceivedBy
  split
  · exact .refl s
  · split
    · exact .refl s
    · exact ⟨rfl, rfl, rfl, rfl, le_refl _⟩

variable {callbacks}

/-- A content part behind which the loop goes on has taken content. -/
theorem contentPartBy_again {s t : Sys} {size : Int}
    (h : contentPartBy callbacks s size = (t, .again)) :
    Shrunk s t ∧ t.c.reqBufList ≠ [] ∧ t.c.requestLength < s.c.requestLength := by
  unfold contentPartBy at h
  split at h
  · have hoffer := shrunk_contentReceivedBy callbacks s s.c.httpRequestBuffer size
    generalize contentReceivedBy callbacks s s.c.httpRequestBuffer size = taken at h hoffer
    dsimp only at h
    split at h
    · cases h
    · split at h
      · cases h
      · rename_i hpos
        obtain ⟨rfl, hqueue, -⟩ := roundEnd_again h
        obtain ⟨htake, hless⟩ := @shrunk_takeContent taken.1 taken.2 (by omega)
        exact ⟨hoffer.trans htake, hqueue, lt_of_lt_of_le hless hoffer.length⟩
  · exact absurd (roundEnd_again h).2.2 (lt_irrefl 0)

/-- The content part behind a header section, complete just now or before. -/
theorem afterHeaderBy_again {s t : Sys} {justNow : Bool} {size : Int}
    (h : afterHeaderBy callbacks s justNow size = (t, .again)) :
    Shrunk s t ∧ t.c.reqBufList ≠ [] ∧ t.c.requestLength < s.c.requestLength := by
  unfold afterHeaderBy at h
  dsimp only at h
  generalize hu : (if justNow = true then headersEnd s else s) = u at h
  have hshrunk : Shrunk s u := by
    rw [← hu]
    split
    · exact shrunk_headersEnd s
    · exact .refl s
  split at h
  · cases h
  · split at h
    · have hchunk := shrunk_chunkLength u size
      obtain ⟨hcontent, hqueue, hless⟩ := contentPartBy_again h
      exact ⟨(hshrunk.trans hchunk).trans hcontent, hqueue,
        lt_of_lt_of_le hless (hchunk.length.trans hshrunk.length)⟩
    · obtain ⟨hcontent, hqueue, hless⟩ := contentPartBy_again h
      exact ⟨hshrunk.trans hcontent, hqueue, lt_of_lt_of_le hless hshrunk.length⟩

/-- How a round goes on: with the header section, or behind it. -/
theorem processBufferBy_again {s t : Sys} (h : processBufferBy callbacks s = (t, .again)) :
    t.c.reqBufList ≠ [] ∧
      (t = (headerPart s).1 ∧ (t.c.state = .idle ∨ t.c.state = .headerReceiving) ∨
        Shrunk (headerPart s).1 t ∧ t.c.requestLength < (headerPart s).1.c.requestLength) := by
  unfold processBufferBy at h
  split at h
  · cases h
  · dsimp only at h
    split at h
    · cases h
    · split at h
      · cases h
      · split at h
        · rename_i hst
          obtain ⟨rfl, hnext⟩ := Prod.mk.inj h
          refine ⟨?_, .inl ⟨rfl, hst⟩⟩
          intro hnil
          rw [if_pos hnil] at hnext
          cases hnext
        · obtain ⟨hshrunk, hqueue, hless⟩ := afterHeaderBy_again h
          exact ⟨hqueue, .inr ⟨hshrunk, hless⟩⟩

/-- A round that goes on found data queued. -/
theorem processBufferBy_queued {s t : Sys} (h : processBufferBy callbacks s = (t, .again)) :
    s.c.reqBufList ≠ [] := by
  have hheader : (headerPart s).1.c.reqBufList = s.c.reqBufList := by
    rw [headerPart]
    dsimp only
    generalize ht : (if 0 < s.c.requestLength ∧ s.c.state = .idle then startRequest s else s) = t
    have hsame : t.c.reqBufList = s.c.reqBufList := by
      rw [← ht]
      split
      · rfl
      · rfl
    split
    · obtain ⟨_, _, _, _, _, _, heq, -⟩ := ParseFrame.parseHeader t s.c.requestLength
      rw [heq]
      exact hsame
    · exact hsame
  obtain ⟨hqueue, ⟨rfl, -⟩ | ⟨hshrunk, -⟩⟩ := processBufferBy_again h
  · rwa [hheader] at hqueue
  · rwa [hshrunk.queue, hheader] at hqueue

/-- A round that goes on, behind a full buffer, has taken something out of it. -/
theorem processBufferBy_takes {s t : Sys} (hlen : 2 ≤ s.c.requestLength)
    (hfull : s.c.maxLevel ≤ s.c.requestLength) (h : processBufferBy callbacks s = (t, .again)) :
    Shrunk s t ∧ t.c.requestLength < s.c.requestLength := by
  obtain ⟨hheader, htakes⟩ := headerPart_takes hlen hfull
  obtain ⟨-, ⟨rfl, hst⟩ | ⟨hshrunk, hless⟩⟩ := processBufferBy_again h
  · exact ⟨hheader, htakes hst⟩
  · exact ⟨hheader.trans hshrunk, lt_of_lt_of_le hless hheader.length⟩

end

/-! ## The measure -/

/-- The bytes that wait in the queue. -/
def RequestContext.unread (c : RequestContext) : Int :=
  (Pbuf.chainTotLen c.reqBufList : Int) - c.bufOffset

theorem QueueInv.unread_nonneg {c : RequestContext} (hi : QueueInv c) : 0 ≤ c.unread := by
  rw [RequestContext.unread]
  by_cases hnil : c.reqBufList = []
  · rw [hnil, hi.empty hnil]
    exact le_refl _
  · have hlt := (hi.offset_lt hnil).2
    omega

/-- The dequeue block moves bytes from the queue into the buffer and loses none. -/
theorem dequeue_unread {c : RequestContext} (hi : QueueInv c) :
    c.dequeue.requestLength + c.dequeue.unread = c.requestLength + c.unread := by
  rw [RequestContext.dequeue]
  split
  · rfl
  · rename_i hne
    obtain ⟨h0, hlt⟩ := hi.offset_lt hne
    have htot := Pbuf.chainTotLen_eq hi.chained
    dsimp only
    split
    · rename_i hspace
      generalize hn : min (c.maxLevel - c.requestLength)
        ((Pbuf.chainTotLen c.reqBufList : Int) - c.bufOffset) = nSpace at hspace ⊢
      generalize Pbuf.pbufCopyPartial c.reqBufList nSpace.toNat c.bufOffset.toNat = bs
      generalize hd : ({ c.appendBuffer bs nSpace with
        bufOffset := (c.appendBuffer bs nSpace).bufOffset + nSpace } : RequestContext) = d
      have hqueue : d.reqBufList = c.reqBufList := by rw [← hd]; rfl
      have hoff : d.bufOffset = c.bufOffset + nSpace := by rw [← hd]; rfl
      have hlen : d.requestLength = c.requestLength + nSpace := by rw [← hd]; rfl
      obtain ⟨chain, off, acks, hrel, hch, hempty, hfirst, hleft, -⟩ :=
        releaseQueue_spec (c := d) (by rw [hqueue]; exact hi.chained) (by omega)
          (by rw [hqueue, hoff]; omega) (by rw [hqueue]; exact hi.small)
      have hoffset : 0 ≤ off ∧ off ≤ Pbuf.chainTotLen chain := by
        cases chain with
        | nil => rw [hempty rfl]; exact ⟨le_refl _, le_refl _⟩
        | cons p rest =>
          have hin := hfirst p rest rfl
          have hhead : Pbuf.chainTotLen (p :: rest) = p.len + Pbuf.chainTotLen rest := hch.2.1
          rw [hhead]
          omega
      have hbytes := congrArg List.length hleft
      rw [RequestContext.queued, List.length_drop, List.length_drop, hqueue, hoff,
        ← Pbuf.chainTotLen_eq hch, ← htot] at hbytes
      have hunread : d.releaseQueue.unread = d.unread := by
        rw [hrel, RequestContext.unread, RequestContext.unread, hqueue, hoff]
        dsimp only
        omega
      rw [hunread, releaseQueue_requestLength, hlen, RequestContext.unread, RequestContext.unread,
        hqueue, hoff]
      omega
    · rfl

/-- What holds between the rounds of a call. -/
structure LoopInv (s : Sys) : Prop where
  queue : QueueInv s.c
  live : s.c.pcb.isSome

/-- The bound of the rounds from a state on. -/
def roundsLeft (s : Sys) : Nat := (s.c.requestLength + s.c.unread).toNat + 1

section

variable {callbacks : ContentCallbacks}

/-- A round that goes on leaves fewer bytes. -/
theorem receiveRound_next {s t : Sys} (hi : LoopInv s) (h : receiveRound callbacks s = .inl t) :
    LoopInv t ∧ roundsLeft t < roundsLeft s := by
  obtain ⟨hinv, hfilled⟩ := queueInv_dequeue hi.queue
  have hcount := dequeue_unread hi.queue
  have hpcb : s.c.dequeue.pcb = s.c.pcb := by
    obtain ⟨_, _, _, _, _, _, heq, -⟩ := RxFrame.dequeue s.c
    rw [heq]
  have hlevel : s.c.maxLevel = 128 := hi.queue.level hi.live
  have hlevel' : s.c.dequeue.maxLevel = 128 := hinv.level (by rw [hpcb]; exact hi.live)
  have hround : processBufferBy callbacks { s with c := s.c.dequeue } = (t, .again) := by
    unfold receiveRound iterationBy at h
    split at h
    · split at h
      · rename_i heq
        obtain rfl := Sum.inl.inj h
        exact heq
      · cases h
    · cases h
  have hqueued : s.c.dequeue.reqBufList ≠ [] := processBufferBy_queued hround
  -- Data stays queued behind a full buffer only.
  have hfull : 128 ≤ s.c.dequeue.requestLength := by
    rcases hfilled with hnil | hfull
    · exact absurd hnil hqueued
    · rwa [hlevel] at hfull
  obtain ⟨hshrunk, hless⟩ := processBufferBy_takes (s := { s with c := s.c.dequeue })
    (show 2 ≤ s.c.dequeue.requestLength by omega)
    (show s.c.dequeue.maxLevel ≤ s.c.dequeue.requestLength by omega) hround
  have hunread : t.c.unread = s.c.dequeue.unread := by
    rw [RequestContext.unread, RequestContext.unread, hshrunk.queue, hshrunk.offset]
  refine ⟨⟨?_, ?_⟩, ?_⟩
  · refine queueInv_same hinv hshrunk.queue hshrunk.offset fun _ => ?_
    rw [hshrunk.level]
    exact hlevel'
  · rw [hshrunk.pcb]
    change s.c.dequeue.pcb.isSome
    rw [hpcb]
    exact hi.live
  · have hnonneg := hinv.unread_nonneg
    rw [roundsLeft, roundsLeft, hunread, ← hcount]
    change t.c.requestLength < s.c.dequeue.requestLength at hless
    omega

theorem roundsLeft_le {s : Sys} (hi : LoopInv s) : roundsLeft s ≤ receiveFuel s.c := by
  have htot := Pbuf.chainTotLen_eq hi.queue.chained
  have hoff : 0 ≤ s.c.bufOffset := by
    by_cases hnil : s.c.reqBufList = []
    · rw [hi.queue.empty hnil]
    · exact (hi.queue.offset_lt hnil).1
  rw [roundsLeft, receiveFuel, RequestContext.unread]
  omega

/-- The loop on a connection ends, in no more rounds than bytes have arrived and wait. -/
theorem receive_runs (callbacks : ContentCallbacks) {s : Sys} (hi : LoopInv s) :
    ∃ n ≤ receiveFuel s.c, Runs (receiveRound callbacks) n s
      (withFuel (receiveRound callbacks) (fun s => (s.crash, .stop)) (receiveFuel s.c) s) := by
  have hbound : ∃ n ≤ roundsLeft s, Runs (receiveRound callbacks) n s
      (withFuel (receiveRound callbacks) (fun s => (s.crash, .stop)) (receiveFuel s.c) s) := by
    refine runs_withFuel LoopInv roundsLeft ?_ ?_ hi (roundsLeft_le hi)
    · intro s t hi h
      exact receiveRound_next hi h
    · intro s _ hzero
      exact absurd hzero (Nat.succ_ne_zero _)
  obtain ⟨n, hn, hrun⟩ := hbound
  exact ⟨n, hn.trans (roundsLeft_le hi), hrun⟩

end

/-! ## Sending -/

/-- One round of the loop of `sendBuffered`. -/
def sendRound (s : Sys) : Sys ⊕ (Sys × Bool) :=
  if 0 < s.c.bytesLeft then
    let maxbuf := s.sndbuf
    let s := s.afterSndbuf
    if maxbuf = 0 then .inr (s, true)
    else
      let n := min s.c.bytesLeft.toNat maxbuf
      let ok := s.writeOk
      let s := s.altcpWrite (load s.c.mem 0 n)
      if ok then .inl (afterWrite s n) else .inr (s, false)
  else .inr (s, true)

theorem sendLoop_eq_withFuel (fuel : Nat) (s : Sys) :
    sendLoop fuel s = withFuel sendRound (fun s => (s, true)) fuel s := by
  induction fuel generalizing s with
  | zero => rfl
  | succ fuel ih =>
    rw [sendLoop, withFuel, sendRound]
    dsimp only
    split
    · split
      · rfl
      · split
        · exact ih _
        · rfl
    · rfl

/-- Every write takes a byte at least. -/
theorem sendRound_next {s t : Sys} (h : sendRound s = .inl t) :
    t.c.bytesLeft.toNat < s.c.bytesLeft.toNat := by
  unfold sendRound at h
  split at h
  · rename_i hleft
    dsimp only at h
    split at h
    · cases h
    · rename_i hbuf
      split at h
      · obtain rfl := Sum.inl.inj h
        change 0 < s.c.bytesLeft at hleft
        change (s.c.bytesLeft - (min s.c.bytesLeft.toNat s.sndbuf : Nat)).toNat < s.c.bytesLeft.toNat
        omega
      · cases h
  · cases h

theorem send_runs (s : Sys) : ∃ n ≤ s.c.bytesLeft.toNat, Runs sendRound n s (sendBuffered s) := by
  rw [sendBuffered, sendLoop_eq_withFuel]
  refine runs_withFuel (fun _ => True) (fun s : Sys => s.c.bytesLeft.toNat) ?_ ?_ trivial
    (Nat.le_refl _)
  · intro s t _ h
    exact ⟨trivial, sendRound_next h⟩
  · intro s _ hzero
    rw [sendRound, if_neg (by omega)]

/-! ## The call -/

/-- Each call of `HttpRequestProc` on a connection ends, in every state the connection can reach and
whatever the content callbacks of the handlers do: the loop over what was received, with the
handlers given and with those of the server, and the loop that sends. -/
theorem http_request_proc_ends (callbacks : ContentCallbacks) {s : Sys} (hreach : SlotReach s.c)
    (hlive : s.c.pcb.isSome) :
    (∃ n ≤ receiveFuel s.c, ∃ r, Runs (receiveRound callbacks) n s r) ∧
      (∃ n ≤ receiveFuel s.c,
        Runs (receiveRound Cgi.onContentReceived) n s (receiveLoop (receiveFuel s.c) s)) ∧
      ∀ t : Sys, ∃ n ≤ t.c.bytesLeft.toNat, Runs sendRound n t (sendBuffered t) := by
  have hi : LoopInv s := ⟨hreach.queueInv, hlive⟩
  refine ⟨?_, ?_, send_runs⟩
  · obtain ⟨n, hn, hrun⟩ := receive_runs callbacks hi
    exact ⟨n, hn, _, hrun⟩
  · rw [receiveLoop_eq_withFuel]
    exact receive_runs Cgi.onContentReceived hi

/-- A connection just accepted. -/
def acceptedStart : Sys := acceptContext ⟨plainWorld, setupContext, ⟨[], [], [], []⟩⟩ 0 1

/-- A request with a line that is longer than the buffer, so that the rest of it is queued. -/
def longLine : Segment :=
  .ofBytes (ascii "GET / HTTP/1.1\r\nX-Fill: " ++ List.replicate 200 97 ++ ascii "\r\n\r\n")
    (by decide)

/-- The rounds over it end, also if the handlers consume all they are offered. -/
theorem http_request_proc_ends_longLine :
    (∃ n ≤ receiveFuel (received acceptedStart longLine).c, ∃ r,
        Runs (receiveRound fun _ => some fun _ c _ size => (c, size)) n
          (received acceptedStart longLine) r) ∧
      (∃ n ≤ receiveFuel (received acceptedStart longLine).c,
        Runs (receiveRound Cgi.onContentReceived) n (received acceptedStart longLine)
          (receiveLoop (receiveFuel (received acceptedStart longLine).c)
            (received acceptedStart longLine))) ∧
      ∀ t : Sys, ∃ n ≤ t.c.bytesLeft.toNat, Runs sendRound n t (sendBuffered t) := by
  have hreach : SlotReach acceptedStart.c := .accept 0 1 .setup rfl rfl
  have hlive : acceptedStart.c.pcb.isSome := rfl
  exact http_request_proc_ends (fun _ => some fun _ c _ size => (c, size))
    (hreach.received hlive (by decide +kernel)) (by decide +kernel)

/-- The first round over it asks for a second one. -/
example : (iteration (received acceptedStart longLine)).2 = .again := by decide +kernel

end Httpd

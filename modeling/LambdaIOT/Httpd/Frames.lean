import LambdaIOT.Httpd.Server

/-!
# What the operations leave alone

Each group of operations has a frame: the fields it may write, everything else as it
was. The frames of callbacks, of sending and of parsing are existential, so that a proof
takes them apart with `obtain` and goes on with a context in which the rest is literally
the one before.
-/

namespace Httpd

open CMem Lwip

/-! ## Response headers -/

/-- `r'` differs from `r` only where `SetResponseHeaders` writes. -/
def HeaderFrame (r r' : Response) : Prop :=
  ∃ mem peak fault rangeTo dwTotal,
    r' = { r with
      mem := mem
      peak := peak
      fault := r.fault || fault
      rangeTo := rangeTo
      dwTotal := dwTotal } ∧ mem.length = r.mem.length

namespace HeaderFrame

/-- A change that does not mark the context. -/
theorem unmarked (r : Response) (peak : Nat) (rangeTo dwTotal : Int) :
    HeaderFrame r { r with peak := peak, rangeTo := rangeTo, dwTotal := dwTotal } :=
  ⟨r.mem, peak, false, rangeTo, dwTotal, by rw [Bool.or_false], rfl⟩

theorem refl (r : Response) : HeaderFrame r r := unmarked r r.peak r.rangeTo r.dwTotal

theorem trans {r s t : Response} (h : HeaderFrame r s) (h' : HeaderFrame s t) :
    HeaderFrame r t := by
  obtain ⟨_, _, fault, _, _, rfl, hlen⟩ := h
  obtain ⟨mem, peak, fault', rangeTo, dwTotal, rfl, hlen'⟩ := h'
  exact ⟨mem, peak, fault || fault', rangeTo, dwTotal, by rw [← Bool.or_assoc], hlen'.trans hlen⟩

theorem putSend (r : Response) (off : Int) (bs : Bytes) : HeaderFrame r (r.putSend off bs) :=
  ⟨_, _, _, _, _, rfl, by split <;> simp⟩

theorem strcatSend (r : Response) (bs : Bytes) : HeaderFrame r (r.strcatSend bs) := putSend ..

theorem sprintfSend (r : Response) (bs : Bytes) : HeaderFrame r (r.sprintfSend bs) := putSend ..

theorem crash (r : Response) : HeaderFrame r r.crash :=
  ⟨r.mem, r.peak, true, r.rangeTo, r.dwTotal, by rw [Bool.or_true]; rfl, rfl⟩

theorem clipRange (r : Response) : HeaderFrame r (clipRange r) := unmarked ..

theorem setDwTotal (r : Response) (n : Int) : HeaderFrame r { r with dwTotal := n } :=
  unmarked ..

theorem beginHeaders (r : Response) (line : Bytes) : HeaderFrame r (beginHeaders r line) := by
  unfold Httpd.beginHeaders
  split
  · exact sprintfSend ..
  · exact refl _

theorem appendCaching (r : Response) : HeaderFrame r (appendCaching r) := by
  have h1 : HeaderFrame r (appendGzip r) := by
    unfold appendGzip
    split
    · exact strcatSend ..
    · exact refl _
  have h2 : HeaderFrame (appendGzip r) (appendModified (appendGzip r)) := by
    unfold appendModified
    split
    · exact strcatSend ..
    · exact strcatSend ..
  have h3 : HeaderFrame (appendModified (appendGzip r)) (Httpd.appendCaching r) := by
    unfold Httpd.appendCaching appendMaxAge
    split
    · exact strcatSend ..
    · exact refl _
  exact (h1.trans h2).trans h3

end HeaderFrame

theorem appendRange_frame (h : Request) (c : Call) : HeaderFrame c.r (appendRange h c).r := by
  unfold appendRange
  dsimp only
  have hb := (HeaderFrame.clipRange c.r).trans (.beginHeaders (clipRange c.r)
    (headerRange h.rangeFrom ((clipRange c.r).rangeTo - 1) (clipRange c.r).dwTotal
      (getContentType (clipRange c.r).extension)
      (wrapLong ((clipRange c.r).rangeTo - h.rangeFrom)) connectionHeader))
  split
  · exact hb.trans (.setDwTotal ..)
  · exact (hb.trans (.setDwTotal ..)).trans (.crash _)

theorem webAppendHeaders_frame (h : Request) (c : Call) (codeInfo : Bytes) :
    HeaderFrame c.r (webAppendHeaders h c codeInfo).r := by
  have hk : HeaderFrame c.r (appendKind h c codeInfo).r := by
    unfold appendKind
    split
    · exact appendRange_frame h c
    · exact .beginHeaders ..
  exact hk.trans (.appendCaching _)

/-- No handler's `SetResponseHeaders` touches more than the frame. -/
theorem setResponseHeaders_frame {cgi : Cgi} {f : Request → Call → Bytes → Call}
    (hf : cgi.setResponseHeaders = some f) (h : Request) (c : Call) (codeInfo : Bytes) :
    HeaderFrame c.r (f h c codeInfo).r := by
  cases cgi with
  | ssdp =>
    cases hf
    show HeaderFrame c.r (ssdpSendHeader h c).r
    unfold ssdpSendHeader
    split
    · exact .sprintfSend ..
    · exact .refl _
  | auth =>
    cases hf
    unfold authSetResponseHeaders
    dsimp only
    refine HeaderFrame.trans ?_ (webAppendHeaders_frame ..)
    split
    · exact .strcatSend ..
    · exact .refl _
  | form =>
    cases hf
    exact webAppendHeaders_frame ..
  | files =>
    cases hf
    unfold filesSetResponseHeader
    split
    · exact .sprintfSend ..
    · exact .refl _
  | upload => cases hf
  | webApp =>
    cases hf
    exact webAppendHeaders_frame ..

/-- The lines behind those of the handler write only the buffer and its length. -/
theorem headersFinish_frame (w : World) (r : Response) (codeInfo : Bytes) :
    ∃ left, HeaderFrame { r with bytesLeft := left } (headersFinish w r codeInfo) := by
  have hdefault : HeaderFrame r (headersDefault r codeInfo) := by
    unfold headersDefault
    split
    · exact .sprintfSend ..
    · exact .refl r
  have hdate : ∀ t : Response, HeaderFrame t (headersDate t w.clock) := fun t =>
    ((((HeaderFrame.strcatSend ..).trans (.strcatSend ..)).trans (.strcatSend ..)).trans
      (.strcatSend ..)).trans (.strcatSend ..)
  have hbody : ∀ t : Response, HeaderFrame t (headersBody t) := by
    intro t
    unfold headersBody
    split
    · exact ((HeaderFrame.strcatSend ..).trans (.strcatSend ..)).trans (.strcatSend ..)
    · exact .refl t
  obtain ⟨mem, peak, fault, rangeTo, dwTotal, heq, hlen⟩ :=
    (hdefault.trans (hdate _)).trans (hbody _)
  unfold headersFinish
  dsimp only
  rw [heq]
  exact ⟨_, mem, peak, fault, rangeTo, dwTotal, rfl, hlen⟩

theorem headersBegin_frame (r : Response) : HeaderFrame r (headersBegin r) := by
  unfold headersBegin
  dsimp only
  split
  · exact (HeaderFrame.putSend ..).trans (.sprintfSend ..)
  · exact .putSend ..

/-- `CGI_SetResponseHeaders` keeps the result and the progress of the body. -/
theorem cgiSetResponseHeaders_frame (s : Sys) (codeInfo : Bytes) :
    ∃ left, HeaderFrame { s.c.toResponse with bytesLeft := left }
      (cgiSetResponseHeaders s codeInfo).c.toResponse := by
  have hpeak : HeaderFrame s.c.toResponse { s.c.toResponse with peak := 0 } :=
    .unmarked ..
  have hbegin := hpeak.trans (headersBegin_frame _)
  unfold cgiSetResponseHeaders
  dsimp only
  generalize hs : s.setResponse (headersBegin { s.c.toResponse with peak := 0 }) = t
  have ht : t.c.toResponse = headersBegin { s.c.toResponse with peak := 0 } := by
    rw [← hs]
    rfl
  rw [← ht] at hbegin
  have hinvoke : HeaderFrame t.c.toResponse
      (t.invoke .setResponseHeaders fun cgi =>
        cgi.setResponseHeaders.map fun f c => f t.c.toRequest c codeInfo).c.toResponse := by
    unfold Sys.invoke
    split
    · exact .refl _
    · split
      · exact .refl _
      · rename_i g hg
        obtain ⟨f, hf, rfl⟩ := Option.map_eq_some_iff.mp hg
        exact setResponseHeaders_frame hf t.c.toRequest t.call codeInfo
  generalize t.invoke .setResponseHeaders (fun cgi =>
    cgi.setResponseHeaders.map fun f c => f t.c.toRequest c codeInfo) = u at hinvoke ⊢
  obtain ⟨left, hfinish⟩ := headersFinish_frame u.w u.c.toResponse codeInfo
  refine ⟨left, HeaderFrame.trans ?_ hfinish⟩
  obtain ⟨mem, peak, fault, rangeTo, dwTotal, heq, hlen⟩ := hbegin.trans hinvoke
  rw [heq]
  exact ⟨mem, peak, fault, rangeTo, dwTotal, rfl, hlen⟩

/-! ## Callbacks -/

/-- A callback of the handler of `s`. -/
def CallbackOf (s : Sys) (a : Act) : Prop := ∃ cgi cb, s.c.handler = some cgi ∧ a = .callback cgi cb

/-- `s'` is `s` after callbacks: the globals and the response may differ, and the log shows
which callbacks ran. -/
def CallFrame (s s' : Sys) : Prop :=
  ∃ w r log, s' = ⟨w, { s.c with toResponse := r, log := s.c.log ++ log }, s.net⟩ ∧
    ∀ a ∈ log, CallbackOf s a

namespace CallFrame

theorem refl (s : Sys) : CallFrame s s :=
  ⟨s.w, s.c.toResponse, [], by rw [List.append_nil], fun _ h => nomatch h⟩

theorem trans {s t u : Sys} (h : CallFrame s t) (h' : CallFrame t u) : CallFrame s u := by
  obtain ⟨w, r, log, rfl, hl⟩ := h
  obtain ⟨w', r', log', rfl, hl'⟩ := h'
  refine ⟨w', r', log ++ log', by rw [← List.append_assoc], fun a ha => ?_⟩
  rcases List.mem_append.mp ha with h | h
  · exact hl a h
  · exact hl' a h

theorem ofCall (s : Sys) (k : Call) : CallFrame s (s.ofCall k) :=
  ⟨k.w, k.r, [], by rw [List.append_nil]; rfl, fun _ h => nomatch h⟩

theorem setResponse (s : Sys) (r : Response) : CallFrame s (s.setResponse r) :=
  ⟨s.w, r, [], by rw [List.append_nil]; rfl, fun _ h => nomatch h⟩

theorem setResult (s : Sys) (code : Int) : CallFrame s (s.setResult code) := setResponse ..

theorem crash (s : Sys) : CallFrame s s.crash := setResponse ..

theorem callback {s : Sys} {cgi : Cgi} (hcgi : s.c.handler = some cgi) (cb : Callback) :
    CallFrame s (s.note (.callback cgi cb)) :=
  ⟨s.w, s.c.toResponse, [.callback cgi cb], rfl, fun _ ha =>
    ⟨cgi, cb, hcgi, List.mem_singleton.mp ha⟩⟩

theorem invoke (s : Sys) (cb : Callback) (f : Cgi → Option (Call → Call)) :
    CallFrame s (s.invoke cb f) := by
  unfold Sys.invoke
  split
  · exact refl s
  · rename_i cgi hcgi
    split
    · exact refl s
    · exact (callback hcgi cb).trans (ofCall ..)

theorem cgiHeadersReceived (s : Sys) : CallFrame s (cgiHeadersReceived s) := by
  unfold Httpd.cgiHeadersReceived
  dsimp only
  split
  · exact setResult ..
  · split
    · exact invoke ..
    · exact setResponse ..

theorem completeRequest (s : Sys) :
    CallFrame s (let s' := cgiRequestReceived s
      if s'.c.result = 0 then s'.setResult codeOk else s') := by
  dsimp only
  split
  · exact (invoke ..).trans (setResult ..)
  · exact invoke ..

theorem loadContent (s : Sys) (caller : Caller) : CallFrame s (loadContent s caller).1 := by
  unfold Httpd.loadContent
  split
  · show CallFrame s (cgiAllSent s)
    unfold cgiAllSent
    split
    · exact crash s
    · exact invoke ..
  · split
    · exact refl s
    · rename_i cgi hcgi
      split
      · exact refl s
      · split
        · exact refl s
        · exact (callback hcgi _).trans (ofCall ..)

theorem request {s s' : Sys} (h : CallFrame s s') : s'.c.toRequest = s.c.toRequest := by
  obtain ⟨w, r, log, rfl, _⟩ := h
  rfl

end CallFrame

/-- Content is refused without a callback, or offered and logged. -/
theorem cgiContentReceived_cases (s : Sys) (buffer : Bytes) (size : Int) :
    cgiContentReceived s buffer size = (s, 0) ∨
      ∃ cgi f, s.c.handler = some cgi ∧ cgi.onContentReceived = some f ∧
        cgiContentReceived s buffer size =
          ((((s.note (.callback cgi .onContentReceived)).note
              (.content s.c.toRequest s.c.toResponse s.c.requestLength size
                (f s.c.toRequest s.call buffer size).2)).ofCall
            (f s.c.toRequest s.call buffer size).1),
          (f s.c.toRequest s.call buffer size).2) := by
  unfold cgiContentReceived
  split
  · exact .inl rfl
  · rename_i cgi hcgi
    split
    · exact .inl rfl
    · rename_i f hf
      exact .inr ⟨cgi, f, hcgi, hf, rfl⟩

/-- The headers are built by callbacks, and then logged. -/
theorem cgiSetResponseHeaders_spec (s : Sys) (codeInfo : Bytes) :
    ∃ t, CallFrame s t ∧ cgiSetResponseHeaders s codeInfo =
      t.note (.headers s.c.toRequest { s.c.toResponse with peak := 0 } t.c.toResponse) := by
  unfold cgiSetResponseHeaders
  dsimp only
  generalize hu : Sys.invoke _ _ _ = u
  have hframe : CallFrame s u := by
    rw [← hu]
    exact (CallFrame.setResponse ..).trans (.invoke ..)
  refine ⟨u.setResponse (headersFinish u.w u.c.toResponse codeInfo),
    hframe.trans (.setResponse ..), ?_⟩
  rw [hframe.request]
  rfl

/-- A block is loaded by callbacks, and then logged. -/
theorem cgiLoadContentToSend_spec (s : Sys) (caller : Caller) :
    ∃ t d, CallFrame s t ∧
      loadContent (s.setResponse { s.c.toResponse with peak := 0 }) caller = (t, d) ∧
      cgiLoadContentToSend s caller =
        (t.note (.load s.w s.c.toRequest { s.c.toResponse with peak := 0 } t.c.toResponse d), d) :=
  ⟨_, _, (CallFrame.setResponse ..).trans (.loadContent ..), rfl, rfl⟩

/-- The result after content is the one before, or fatal. -/
theorem onContentReceived_result {cgi : Cgi} {f : Request → Call → Bytes → Int → Call × Int}
    (hf : cgi.onContentReceived = some f) (h : Request) (c : Call) (buffer : Bytes) (size : Int) :
    (f h c buffer size).1.r.result = c.r.result ∨ (f h c buffer size).1.r.result = -500 := by
  cases cgi with
  | ssdp => cases hf
  | auth =>
    cases hf
    show (authOnPostData c buffer size).1.r.result = _ ∨ _
    unfold authOnPostData
    dsimp only
    split
    · split <;> exact .inl rfl
    · exact .inl rfl
  | form =>
    cases hf
    unfold webOnFormReceived
    dsimp only
    split
    · split
      · exact .inr rfl
      · split
        · unfold formAccept
          dsimp only
          split <;> exact .inl rfl
        · exact .inl rfl
    · exact .inl rfl
  | files => cases hf
  | upload =>
    cases hf
    show (uploadOnContentReceived h c size).1.r.result = _ ∨ _
    unfold uploadOnContentReceived
    dsimp only
    split
    · split
      · exact .inr rfl
      · split <;> exact .inl rfl
    · exact .inl rfl
  | webApp => cases hf

theorem cgiContentReceived_result (s : Sys) (buffer : Bytes) (size : Int) :
    (cgiContentReceived s buffer size).1.c.result = s.c.result ∨
      (cgiContentReceived s buffer size).1.c.result = -500 := by
  rcases cgiContentReceived_cases s buffer size with heq | ⟨cgi, f, -, hf, heq⟩
  · rw [heq]
    exact .inl rfl
  · rw [heq]
    exact onContentReceived_result hf ..

/-! ## Sending -/

def Act.isWrite : Act → Bool
  | .write .. => true
  | _ => false

/-- `s'` is `s` after sending: the buffer, its counters and the answers of the network may
differ, and the log shows the writes. -/
def SendFrame (s s' : Sys) : Prop :=
  ∃ total t left mem log net,
    s' = ⟨s.w, { s.c with
      toRequest := { s.c.toRequest with total2Send := total, tLastSent := t }
      toResponse := { s.c.toResponse with bytesLeft := left, mem := mem }
      log := s.c.log ++ log }, net⟩ ∧ net.pcbs = s.net.pcbs ∧ mem.length = s.c.mem.length ∧
      ∀ a ∈ log, a.isWrite

namespace SendFrame

theorem refl (s : Sys) : SendFrame s s :=
  ⟨s.c.total2Send, s.c.tLastSent, s.c.bytesLeft, s.c.mem, [], s.net,
    by rw [List.append_nil], rfl, rfl, fun _ h => nomatch h⟩

theorem trans {s t u : Sys} (h : SendFrame s t) (h' : SendFrame t u) : SendFrame s u := by
  obtain ⟨_, _, _, _, log, net, rfl, hnet, hlen, hl⟩ := h
  obtain ⟨total, t, left, mem, log', net', rfl, hnet', hlen', hl'⟩ := h'
  refine ⟨total, t, left, mem, log ++ log', net', by rw [← List.append_assoc],
    hnet'.trans hnet, hlen'.trans hlen, fun a ha => ?_⟩
  rcases List.mem_append.mp ha with h | h
  · exact hl a h
  · exact hl' a h

theorem afterSndbuf (s : Sys) : SendFrame s s.afterSndbuf :=
  ⟨s.c.total2Send, s.c.tLastSent, s.c.bytesLeft, s.c.mem, [], s.afterSndbuf.net,
    by rw [List.append_nil]; rfl, rfl, rfl, fun _ h => nomatch h⟩

theorem altcpWrite (s : Sys) (bs : Bytes) : SendFrame s (s.altcpWrite bs) :=
  ⟨s.c.total2Send, s.c.tLastSent, s.c.bytesLeft, s.c.mem, [.write bs s.writeOk],
    (s.altcpWrite bs).net, rfl, rfl, rfl, fun a ha => by rw [List.mem_singleton.mp ha]; rfl⟩

theorem afterWrite (s : Sys) (n : Nat) : SendFrame s (afterWrite s n) :=
  ⟨_, _, _, _, [], s.net, by rw [List.append_nil]; rfl, rfl, by
    rw [length_store]
    split <;> simp, fun _ h => nomatch h⟩

theorem sendLoop (fuel : Nat) (s : Sys) : SendFrame s (sendLoop fuel s).1 := by
  induction fuel generalizing s with
  | zero => exact refl s
  | succ fuel ih =>
    rw [Httpd.sendLoop]
    split
    · dsimp only
      split
      · exact afterSndbuf s
      · split
        · exact (((afterSndbuf s).trans (altcpWrite ..)).trans (afterWrite ..)).trans (ih _)
        · exact (afterSndbuf s).trans (altcpWrite ..)
    · exact refl s

theorem sendBuffered (s : Sys) : SendFrame s (sendBuffered s).1 := sendLoop ..

end SendFrame

/-! ## The receive buffer -/

def Act.isRx : Act → Bool
  | .delivered _ => true
  | .recved _ => true
  | .consumed _ => true
  | _ => false

/-- `c'` is `c` after bytes moved in or out of the buffer. -/
def RxFrame (c c' : RequestContext) : Prop :=
  ∃ queue off len buf fault log,
    c' = { c with
      toResponse := { c.toResponse with fault := c.fault || fault }
      reqBufList := queue
      bufOffset := off
      requestLength := len
      httpRequestBuffer := buf
      log := c.log ++ log } ∧ buf.length = c.httpRequestBuffer.length ∧ ∀ a ∈ log, a.isRx

namespace RxFrame

/-- Moving bytes without a trace in the log. -/
theorem quiet (c : RequestContext) (queue : List Pbuf) (off len : Int) {buf : Bytes}
    (fault : Bool) (hbuf : buf.length = c.httpRequestBuffer.length) :
    RxFrame c { c with
      toResponse := { c.toResponse with fault := c.fault || fault }
      reqBufList := queue
      bufOffset := off
      requestLength := len
      httpRequestBuffer := buf } :=
  ⟨queue, off, len, buf, fault, [], by rw [List.append_nil], hbuf, fun _ h => nomatch h⟩

theorem setQueue (c : RequestContext) (queue : List Pbuf) (off : Int) :
    RxFrame c { c with reqBufList := queue, bufOffset := off } := by
  have h := quiet c queue off c.requestLength false (Eq.refl c.httpRequestBuffer.length)
  rwa [Bool.or_false] at h

theorem refl (c : RequestContext) : RxFrame c c := setQueue c c.reqBufList c.bufOffset

theorem trans {c d e : RequestContext} (h : RxFrame c d) (h' : RxFrame d e) : RxFrame c e := by
  obtain ⟨_, _, _, _, fault, log, rfl, hbuf, hl⟩ := h
  obtain ⟨queue, off, len, buf, fault', log', rfl, hbuf', hl'⟩ := h'
  refine ⟨queue, off, len, buf, fault || fault', log ++ log', by
    rw [← Bool.or_assoc, ← List.append_assoc], hbuf'.trans hbuf, fun a ha => ?_⟩
  rcases List.mem_append.mp ha with h | h
  · exact hl a h
  · exact hl' a h

theorem notes (c : RequestContext) {log : List Act} (hl : ∀ a ∈ log, a.isRx) :
    RxFrame c { c with log := c.log ++ log } :=
  ⟨c.reqBufList, c.bufOffset, c.requestLength, c.httpRequestBuffer, false, log, by
    rw [Bool.or_false], rfl, hl⟩

theorem note (c : RequestContext) {a : Act} (ha : a.isRx) :
    RxFrame c { c with log := c.log ++ [a] } :=
  notes c fun b hb => by rwa [List.mem_singleton.mp hb]

theorem appendBuffer (c : RequestContext) (bs : Bytes) (count : Int) :
    RxFrame c (c.appendBuffer bs count) :=
  quiet c _ _ _ _ (by split <;> simp)

theorem shiftOut (c : RequestContext) (n : Int) (taken : Bytes) :
    RxFrame c (c.shiftOut n taken) := by
  refine RxFrame.trans (d := { c with
    requestLength := (c.shiftOut n taken).requestLength
    httpRequestBuffer := (c.shiftOut n taken).httpRequestBuffer }) ?_ (note _ rfl)
  have hbuf : (c.shiftOut n taken).httpRequestBuffer.length = c.httpRequestBuffer.length := by
    rw [RequestContext.shiftOut]
    dsimp only
    split
    · exact length_store ..
    · rfl
  have h := quiet c c.reqBufList c.bufOffset (c.shiftOut n taken).requestLength false hbuf
  rwa [Bool.or_false] at h

theorem releaseQueue (c : RequestContext) : RxFrame c c.releaseQueue := by
  unfold RequestContext.releaseQueue
  split
  · exact refl c
  · rename_i p rest hq
    split
    · exact (setQueue c [] 0).trans (note _ rfl)
    · split
      · split
        · rename_i chain off acks hfree
          refine (setQueue c chain off).trans (notes _ fun a ha => ?_)
          obtain ⟨n, -, rfl⟩ := List.mem_map.mp ha
          rfl
        · have h := quiet c c.reqBufList c.bufOffset c.requestLength true
            (Eq.refl c.httpRequestBuffer.length)
          rwa [Bool.or_true] at h
      · exact refl c

/-- The dequeue block when there is room: copy, move the offset, free. -/
theorem copyAndRelease (c : RequestContext) (bs : Bytes) (n : Int) :
    RxFrame c (RequestContext.releaseQueue
      { c.appendBuffer bs n with bufOffset := (c.appendBuffer bs n).bufOffset + n }) :=
  ((appendBuffer c bs n).trans (setQueue ..)).trans (releaseQueue _)

theorem dequeue (c : RequestContext) : RxFrame c c.dequeue := by
  unfold RequestContext.dequeue
  split
  · exact refl c
  · dsimp only
    split
    · exact copyAndRelease ..
    · exact refl c

theorem receivePbuf (c : RequestContext) (p : List Pbuf) : RxFrame c (c.receivePbuf p) := by
  unfold RequestContext.receivePbuf
  dsimp only
  refine (note c (a := .delivered (Pbuf.data p)) rfl).trans ?_
  split
  · exact setQueue ..
  · split
    · exact setQueue ..
    · exact (appendBuffer ..).trans (note _ rfl)

theorem request {c c' : RequestContext} (h : RxFrame c c') : c'.toRequest = c.toRequest := by
  obtain ⟨_, _, _, _, _, _, rfl, _⟩ := h
  rfl

theorem response {c c' : RequestContext} (h : RxFrame c c') :
    ∃ fault, c'.toResponse = { c.toResponse with fault := c.fault || fault } := by
  obtain ⟨_, _, _, _, fault, _, rfl, _⟩ := h
  exact ⟨fault, rfl⟩

end RxFrame

theorem releaseQueue_requestLength (c : RequestContext) :
    c.releaseQueue.requestLength = c.requestLength := by
  unfold RequestContext.releaseQueue
  split
  · rfl
  · split
    · rfl
    · split
      · split <;> rfl
      · rfl

/-! ## Parsing -/

/-- The fields of the request that header lines set. -/
def lineRequest (h h' : Request) : Request :=
  { h with
    requestMethod := h'.requestMethod
    contentLength := h'.contentLength
    keepalive := h'.keepalive
    chunked := h'.chunked
    expect00 := h'.expect00
    ifModified := h'.ifModified
    rangeFrom := h'.rangeFrom
    contentReceived := h'.contentReceived
    handler := h'.handler
    ver := h'.ver
    posQuestion := h'.posQuestion
    requestPath := h'.requestPath
    checkAlive := h'.checkAlive }

/-- The fields of the response that header lines set. -/
def lineResponse (r r' : Response) : Response :=
  { r with
    rangeTo := r'.rangeTo
    result := r'.result
    options := r'.options
    extension := r'.extension
    responsePath := r'.responsePath
    token := r'.token
    mem := r'.mem
    fault := r'.fault }

def Act.isLine : Act → Bool
  | .requestLine _ => true
  | .headerLine _ => true
  | .callback _ .onHeaderReceived => true
  | _ => false

/-- `s'` is `s` after header lines: the fields a line may set, and the log. -/
def LineFrame (s s' : Sys) : Prop :=
  ∃ w h r log,
    s' = ⟨w, { s.c with toRequest := h, toResponse := r, log := s.c.log ++ log }, s.net⟩ ∧
    h = lineRequest s.c.toRequest h ∧ r = lineResponse s.c.toResponse r ∧ ∀ a ∈ log, a.isLine

namespace LineFrame

theorem refl (s : Sys) : LineFrame s s :=
  ⟨s.w, s.c.toRequest, s.c.toResponse, [], by rw [List.append_nil], rfl, rfl,
    fun _ h => nomatch h⟩

theorem trans {s t u : Sys} (h : LineFrame s t) (h' : LineFrame t u) : LineFrame s u := by
  obtain ⟨_, h1, r1, log, rfl, heq, hr, hl⟩ := h
  obtain ⟨w, h2, r2, log', rfl, heq', hr', hl'⟩ := h'
  refine ⟨w, h2, r2, log ++ log', by rw [← List.append_assoc], ?_, ?_, fun a ha => ?_⟩
  · rw [heq', heq]
    rfl
  · rw [hr', hr]
    rfl
  · rcases List.mem_append.mp ha with h | h
    · exact hl a h
    · exact hl' a h

theorem setRequest (s : Sys) (h : Request) (heq : h = lineRequest s.c.toRequest h) :
    LineFrame s (s.setRequest h) :=
  ⟨s.w, h, s.c.toResponse, [], by rw [List.append_nil]; rfl, heq, rfl, fun _ h => nomatch h⟩

theorem setResponse (s : Sys) (r : Response) (heq : r = lineResponse s.c.toResponse r) :
    LineFrame s (s.setResponse r) :=
  ⟨s.w, s.c.toRequest, r, [], by rw [List.append_nil]; rfl, rfl, heq, fun _ h => nomatch h⟩

theorem ofCall (s : Sys) (k : Call) (heq : k.r = lineResponse s.c.toResponse k.r) :
    LineFrame s (s.ofCall k) :=
  ⟨k.w, s.c.toRequest, k.r, [], by rw [List.append_nil]; rfl, rfl, heq, fun _ h => nomatch h⟩

theorem note (s : Sys) {a : Act} (ha : a.isLine) : LineFrame s (s.note a) :=
  ⟨s.w, s.c.toRequest, s.c.toResponse, [a], rfl, rfl, rfl, fun b hb => by
    rwa [List.mem_singleton.mp hb]⟩

theorem cgiSetCgiHandler (s : Sys) : LineFrame s (cgiSetCgiHandler s) := by
  unfold Httpd.cgiSetCgiHandler
  dsimp only
  split
  · exact (setRequest s _ rfl).trans (setResponse _ _ rfl)
  · exact setRequest s _ rfl

theorem requestLine (s : Sys) (tail : Bytes) (n : Nat) : LineFrame s (requestLine s tail n) := by
  unfold Httpd.requestLine
  split
  · exact setResponse s _ rfl
  · exact (((setRequest s _ rfl).trans (setResponse _ _ rfl)).trans (note _ rfl)).trans
      (cgiSetCgiHandler _)

theorem putApp_line (r : Response) (off : Int) (bs : Bytes) :
    r.putApp off bs = lineResponse r (r.putApp off bs) := rfl

theorem onHeaderReceived_line {cgi : Cgi} {f : Call → Bytes → Call}
    (hf : cgi.onHeaderReceived = some f) (c : Call) (line : Bytes) :
    (f c line).r = lineResponse c.r (f c line).r := by
  cases cgi with
  | upload =>
    cases hf
    unfold uploadOnHeaderReceived
    split
    · exact putApp_line ..
    · rfl
  | ssdp => cases hf
  | auth => cases hf
  | form => cases hf
  | files => cases hf
  | webApp => cases hf

theorem cgiHeaderReceived (s : Sys) (line : Bytes) : LineFrame s (cgiHeaderReceived s line) := by
  unfold Httpd.cgiHeaderReceived Sys.invoke
  split
  · exact refl s
  · split
    · exact refl s
    · rename_i g hg
      obtain ⟨f, hf, rfl⟩ := Option.map_eq_some_iff.mp hg
      refine (note _ rfl).trans (ofCall _ _ ?_)
      exact onHeaderReceived_line hf s.call line

theorem headerLine (s : Sys) (tail : Bytes) (n : Nat) : LineFrame s (headerLine s tail n) := by
  unfold Httpd.headerLine
  dsimp only
  repeat' split
  · exact setRequest s _ rfl
  · exact setRequest s _ rfl
  · exact setRequest s _ rfl
  · exact setRequest s _ rfl
  · exact setRequest s _ rfl
  · exact (setRequest s _ rfl).trans (setResponse _ _ rfl)
  · exact setResponse s _ rfl
  · exact (note s rfl).trans (cgiHeaderReceived _ tail)

end LineFrame

/-- What every line preserves, the loop over the buffer preserves. -/
theorem lineLoop_induct {P : Sys → Prop}
    (hreq : ∀ s tail n, s.c.requestMethod = .none → P s → P (requestLine s tail n))
    (hline : ∀ s tail n, s.c.requestMethod ≠ .none → P s → P (headerLine s tail n))
    (hend : ∀ s, P s → P (endOfHeaders s)) (k i : Nat) (l : LineScan) (h : P l.s) :
    P (lineLoop k i l).s := by
  induction k generalizing i l with
  | zero => exact h
  | succ k ih =>
    rw [lineLoop]
    split
    · exact h
    · split
      · refine ih _ _ ?_
        unfold LineScan.line
        dsimp only
        split
        · exact hend _ h
        · split
          · rename_i hm
            split
            · exact hreq _ _ _ hm h
            · exact hreq _ _ _ hm h
          · rename_i hm
            exact hline _ _ _ hm h
      · exact ih _ _ h

/-- The loop stays inside the buffer, and tells whether the header section ended. -/
structure LineBound (st : HttpState) (i : Nat) (l : LineScan) : Prop where
  pos : l.nLinePos ≤ i + 1
  state : l.s.c.state = if l.afterHeader then .headerDone else st
  stop : l.afterHeader → l.stop

theorem lineBound_line {st : HttpState} {i : Nat} {l : LineScan} (h : LineBound st i l)
    (hrun : l.stop = false) : LineBound st (i + 1) (l.line i) := by
  have hpos := h.pos
  have hnot : l.afterHeader = false := by
    by_contra hc
    rw [h.stop (by simpa using hc)] at hrun
    cases hrun
  have hst : l.s.c.state = st := by
    have := h.state
    rw [hnot] at this
    exact this
  have hreq : ∀ tail n, (requestLine l.s tail n).c.state = st := by
    intro tail n
    obtain ⟨_, _, _, _, heq, hh, _⟩ := LineFrame.requestLine l.s tail n
    rw [heq]
    show Request.state _ = st
    rw [hh]
    exact hst
  have hline : ∀ tail n, (headerLine l.s tail n).c.state = st := by
    intro tail n
    obtain ⟨_, _, _, _, heq, hh, _⟩ := LineFrame.headerLine l.s tail n
    rw [heq]
    show Request.state _ = st
    rw [hh]
    exact hst
  unfold LineScan.line
  dsimp only
  split
  · exact ⟨by simp, rfl, fun _ => rfl⟩
  · split
    · split
      · exact ⟨by dsimp only; omega, by rw [hnot]; exact hreq _ _, fun _ => rfl⟩
      · exact ⟨by dsimp only; omega, by rw [hnot]; exact hreq _ _,
          fun hc => absurd hc (by rw [hnot]; decide)⟩
    · exact ⟨by dsimp only; omega, by rw [hnot]; exact hline _ _,
        fun hc => absurd hc (by rw [hnot]; decide)⟩

theorem lineBound_loop {st : HttpState} {k i : Nat} {l : LineScan} (h : LineBound st i l) :
    LineBound st (i + k) (lineLoop k i l) := by
  induction k generalizing i l with
  | zero => exact h
  | succ k ih =>
    have hnext : LineBound st (i + 1) l := ⟨Nat.le_succ_of_le h.pos, h.state, h.stop⟩
    rw [lineLoop]
    split
    · exact ⟨by have := h.pos; omega, h.state, h.stop⟩
    · rename_i hrun
      rw [← Nat.add_assoc, Nat.add_right_comm]
      split
      · exact ih (lineBound_line h (by simpa using hrun))
      · exact ih hnext

theorem parseScan_bound (s : Sys) (size : Int) (hsize : 1 ≤ size) :
    ((parseScan s size).nLinePos : Int) ≤ size ∧
      (parseScan s size).s.c.state =
        if (parseScan s size).afterHeader then .headerDone else s.c.state := by
  have h0 : LineBound s.c.state 0 ⟨s, s.c.httpRequestBuffer, 0, false, false⟩ :=
    ⟨Nat.zero_le _, rfl, fun h => nomatch h⟩
  have h := lineBound_loop (k := (size - 1).toNat) h0
  have hpos := h.pos
  exact ⟨by rw [parseScan]; omega, h.state⟩

/-- Shifting leaves the parts of the request alone. -/
theorem shift_request (l : LineScan) (arrived : Bytes) :
    (l.shift arrived).toRequest = l.s.c.toRequest := by
  unfold LineScan.shift
  dsimp only
  split
  · split <;> rfl
  · rfl

theorem shift_response (l : LineScan) (arrived : Bytes) :
    (l.shift arrived).toResponse = l.s.c.toResponse := by
  unfold LineScan.shift
  dsimp only
  split
  · split <;> rfl
  · rfl

theorem parseHeader_state (s : Sys) (size : Int) (hsize : 1 ≤ size) :
    (parseHeader s size).1.c.state =
      if (parseHeader s size).2 then .headerDone else s.c.state := by
  show (LineScan.shift _ _).state = _
  rw [show (LineScan.shift (parseScan s size) s.c.httpRequestBuffer).state
    = (parseScan s size).s.c.state from congrArg Request.state (shift_request ..)]
  exact (parseScan_bound s size hsize).2

def Act.isParse : Act → Bool
  | .consumed _ => true
  | a => a.isLine

/-- `s'` is `s` after the parser ran: both parts of the request, the buffer and its length
may differ, and the log shows the lines. -/
def ParseFrame (s s' : Sys) : Prop :=
  ∃ w h r len buf log,
    s' = ⟨w, { s.c with
      toRequest := h
      toResponse := r
      requestLength := len
      httpRequestBuffer := buf
      log := s.c.log ++ log }, s.net⟩ ∧ buf.length = s.c.httpRequestBuffer.length ∧
    ∀ a ∈ log, a.isParse

namespace ParseFrame

theorem trans {s t u : Sys} (h : ParseFrame s t) (h' : ParseFrame t u) : ParseFrame s u := by
  obtain ⟨_, _, _, _, _, log, rfl, hbuf, hl⟩ := h
  obtain ⟨w, h, r, len, buf, log', rfl, hbuf', hl'⟩ := h'
  refine ⟨w, h, r, len, buf, log ++ log', by rw [← List.append_assoc], hbuf'.trans hbuf,
    fun a ha => ?_⟩
  rcases List.mem_append.mp ha with h | h
  · exact hl a h
  · exact hl' a h

theorem ofLineFrame {s s' : Sys} (h : LineFrame s s') : ParseFrame s s' := by
  obtain ⟨w, h, r, log, rfl, _, _, hl⟩ := h
  refine ⟨w, h, r, s.c.requestLength, s.c.httpRequestBuffer, log, rfl, rfl, fun a ha => ?_⟩
  have := hl a ha
  cases a <;> first | rfl | exact this

theorem endOfHeaders (s : Sys) : ParseFrame s (endOfHeaders s) := by
  have h : ∀ (h : Request) (r : Response), ParseFrame s ((s.setRequest h).setResponse r) :=
    fun h r => ⟨s.w, h, r, s.c.requestLength, s.c.httpRequestBuffer, [], by
      rw [List.append_nil]; rfl, rfl, fun _ h => nomatch h⟩
  unfold Httpd.endOfHeaders
  dsimp only
  split
  · exact h _ _
  · exact h _ _

theorem parseScan (s : Sys) (size : Int) : ParseFrame s (parseScan s size).s :=
  lineLoop_induct (P := ParseFrame s)
    (fun _ _ _ _ h => h.trans (ofLineFrame (.requestLine ..)))
    (fun _ _ _ _ h => h.trans (ofLineFrame (.headerLine ..)))
    (fun _ h => h.trans (endOfHeaders _)) _ _ _ (ofLineFrame (.refl s))

/-- Moving lines out of the buffer. -/
theorem shiftOut (s : Sys) {buf : Bytes} (n : Int) (taken : Bytes)
    (hbuf : buf.length = s.c.httpRequestBuffer.length) :
    ParseFrame s { s with c := { s.c with httpRequestBuffer := buf }.shiftOut n taken } :=
  ⟨_, _, _, _, _, [.consumed taken], rfl, by
    split
    · exact (length_store ..).trans hbuf
    · exact hbuf, fun a ha => by rw [List.mem_singleton.mp ha]; rfl⟩

/-- Cutting a line off keeps the buffer's size. -/
theorem length_lineLoop (k i : Nat) (l : LineScan) :
    (lineLoop k i l).buf.length = l.buf.length := by
  induction k generalizing i l with
  | zero => rfl
  | succ k ih =>
    rw [lineLoop]
    split
    · rfl
    · split
      · rw [ih, LineScan.line]
        dsimp only
        split
        · rfl
        · split
          · split <;> exact length_store ..
          · exact length_store ..
      · exact ih ..

theorem parseHeader (s : Sys) (size : Int) : ParseFrame s (parseHeader s size).1 := by
  have hscan := parseScan s size
  have hbuf : (Httpd.parseScan s size).buf.length
      = (Httpd.parseScan s size).s.c.httpRequestBuffer.length := by
    obtain ⟨_, _, _, _, _, _, heq, hlen, _⟩ := hscan
    rw [heq]
    exact (length_lineLoop ..).trans hlen.symm
  refine hscan.trans ?_
  show ParseFrame _ { (Httpd.parseScan s size).s with
    c := (Httpd.parseScan s size).shift s.c.httpRequestBuffer }
  generalize Httpd.parseScan s size = l at hbuf ⊢
  unfold LineScan.shift
  dsimp only
  split
  · split
    · exact shiftOut _ _ _ hbuf
    · exact ⟨_, _, _, _, l.buf, [], by rw [List.append_nil], hbuf, fun _ h => nomatch h⟩
  · exact shiftOut _ _ _ hbuf

end ParseFrame

end Httpd

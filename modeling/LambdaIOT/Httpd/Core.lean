import LambdaIOT.Httpd.Header

/-!
# `http_core.c`: the request and response state machine

`httpRequestProc` is the loop over received data followed by the response step; one round
of the loop is `iteration`. Every loop of the source runs on fuel that its progress
justifies, and running out of it counts as leaving defined behaviour.
-/

namespace Httpd

open CMem Lwip

/-! ## Resetting and closing -/

/-- A zeroed `RESPONSE_CONTEXT` with its timeout. -/
def resetRequest (h : Request) : Request :=
  { h with
    state := .idle
    nReceiveTimeout := toRecv
    requestMethod := .none
    contentLength := -1
    keepalive := false
    chunked := false
    expect00 := false
    ifModified := 0
    rangeFrom := 0
    contentReceived := 0
    handler := none
    ver := List.replicate 4 0
    requestPath := List.replicate 128 0
    sendMaxBlock := 0
    sending := false
    total2Send := 0
    totalSent := 0
    tLastSent := 0
    nSendTimeout := toSent }

def resetResponse (r : Response) (now : Nat) : Response :=
  { r with
    tLastReceived := now
    rangeTo := 0
    result := 0
    extension := []
    responsePath := []
    token := []
    authorized := 0
    dwOperStage := 0
    dwOperIndex := 0
    dwTotal := 0
    bytesLeft := 0
    mem := List.replicate memSize 0 }

/-- `WEB_fclose(_fileHandle); _fileHandle = NULL`. -/
def closeFileHandle (s : Sys) : Sys :=
  match s.w.fs.webFclose s.c.fileHandle with
  | some fs =>
    { s with w := { s.w with fs := fs } }.setResponse { s.c.toResponse with fileHandle := 0 }
  | none => s.crash

/-- `ResetHttpContext(context)`: the buffer and the queue stay, for pipelined requests. -/
def resetHttpContext (s : Sys) : Sys :=
  let s := closeFileHandle s
  let s := (s.setRequest (resetRequest s.c.toRequest)).setResponse
    (resetResponse s.c.toResponse s.now)
  { s with c := { s.c with maxLevel := maxReqBufSize } }

/-- What `FreeHttpContext` clears. `_ipRemote`, the options, the session pointer and the
range and date of the request stay. -/
def freeContext (c : RequestContext) : RequestContext :=
  { c with
    reqBufList := []
    bufOffset := 0
    state := .idle
    pcb := none
    requestMethod := .none
    contentLength := -1
    keepalive := false
    chunked := false
    contentReceived := 0
    result := 0
    token := []
    authorized := 0
    dwOperStage := 0
    dwOperIndex := 0
    dwTotal := 0
    sendMaxBlock := 0
    sending := false
    total2Send := 0
    totalSent := 0
    tLastSent := 0
    nSendTimeout := 0
    bytesLeft := 0
    mem := List.replicate memSize 0
    ver := List.replicate 4 0
    extension := []
    requestPath := List.replicate 128 0
    responsePath := []
    handler := none
    requestLength := 0
    maxLevel := maxReqBufSize
    httpRequestBuffer := List.replicate (maxReqBufSize + 4) 0
    log := c.log ++ [.freed] }

/-- `FreeHttpContext(context)`. -/
def freeHttpContext (s : Sys) : Sys :=
  let s := cgiFinish s
  let s := closeFileHandle s
  { s with c := freeContext s.c }

/-- The callback argument and the life of a control block after `altcp_close`. -/
def closePcb (pcbs : List Pcb) (pcb : Nat) (ok : Bool) : List Pcb :=
  pcbs.modify pcb fun p => { p with arg := none, live := p.live && !ok }

/-- The network part of `CloseHttpContext`: detach the control block and close it. -/
def detachPcb (s : Sys) : Sys :=
  match s.c.pcb with
  | none => s
  | some pcb =>
    let ok := s.net.close.headD true
    { s with
      net := { s.net with close := s.net.close.tail, pcbs := closePcb s.net.pcbs pcb ok }
      c := if ok then { s.c with pcb := none, peerClosing := false } else s.c }

/-- `CloseHttpContext(context)`. -/
def closeHttpContext (s : Sys) : Sys := freeHttpContext (detachPcb s)

/-! ## Sending -/

/-- `altcp_write` accepted `n` bytes: move the rest to the front. -/
def afterWrite (s : Sys) (n : Nat) : Sys :=
  let left := s.c.bytesLeft - n
  let r := s.c.toResponse
  let mem := if 0 < left then store r.mem 0 (load r.mem n left.toNat) else r.mem
  (s.setRequest { s.c.toRequest with
      total2Send := s.c.total2Send + n, tLastSent := s.now }).setResponse
    { r with bytesLeft := left, mem := store mem left.toNat [0] }

/-- The loop of `sendBuffered`; the result says whether every write succeeded. -/
def sendLoop : Nat → Sys → Sys × Bool
  | 0, s => (s, true)
  | fuel + 1, s =>
    if 0 < s.c.bytesLeft then
      let maxbuf := s.sndbuf
      let s := s.afterSndbuf
      if maxbuf = 0 then (s, true)
      else
        let n := min s.c.bytesLeft.toNat maxbuf
        let ok := s.writeOk
        let s := s.altcpWrite (load s.c.mem 0 n)
        if ok then sendLoop fuel (afterWrite s n) else (s, false)
    else (s, true)

/-- `sendBuffered(context)`: every round sends at least one byte. -/
def sendBuffered (s : Sys) : Sys × Bool := sendLoop s.c.bytesLeft.toNat s

/-- A write failed: the request is over, and it is an error. -/
def sendFailed (s : Sys) : Sys := (s.setState .requestEnd).setResult (-500)

/-! ## The response -/

/-- `Response_Status_Lines[]`. -/
def responseStatusLines : List Bytes :=
  [ascii "000 Unknown Error", ascii "100 Continue", ascii "101 Switching Protocols",
   ascii "200 OK", ascii "201 Created", ascii "202 Accepted",
   ascii "203 Non-Authoritative Information", ascii "204 No Content", ascii "205 Reset Content",
   ascii "206 Partial Content", ascii "300 Multiple Choices", ascii "301 Moved Permanently",
   ascii "302 Found", ascii "303 See Other", ascii "304 Not Modified", ascii "305 Use Proxy",
   ascii "307 Temporary Redirect", ascii "400 Bad Request", ascii "401 Unauthorized",
   ascii "402 Payment Required", ascii "403 Forbidden", ascii "404 Not Found",
   ascii "405 Method Not Allowed", ascii "406 Not Acceptable",
   ascii "407 Proxy Authentication Required", ascii "408 Request Time-out", ascii "409 Conflict",
   ascii "410 Gone", ascii "411 Length Required", ascii "412 Precondition Failed",
   ascii "413 Request Entity Too Large", ascii "414 Request-URI Too Large",
   ascii "415 Unsupported Media Type", ascii "416 Requested range not satisfiable",
   ascii "417 Expectation Failed", ascii "500 Internal Server Error",
   ascii "501 Not Implemented", ascii "502 Bad Gateway", ascii "503 Service Unavailable",
   ascii "504 Gateway Time-out", ascii "505 HTTP Version not supported"]

/-- The status line for a result; an unknown code stands for itself. -/
def codeInfoOf (result : Int) : Bytes :=
  let code := zeroPad 3 (decimalNat (result.natAbs % 1000))
  (responseStatusLines.find? fun line => code.isPrefixOf line).getD code

/-- The counters of the body start at zero. -/
def beginResponse (s : Sys) : Sys :=
  let s := s.setRequest { s.c.toRequest with
    tLastSent := s.now, sendMaxBlock := (maxSendBufSize : Nat) }
  s.setResponse { s.c.toResponse with dwOperStage := 0, dwOperIndex := 0 }

/-- Build the response header and start sending it. -/
def startResponse (s : Sys) : Sys :=
  let sent := sendBuffered (cgiSetResponseHeaders (beginResponse s) (codeInfoOf s.c.result))
  if sent.2 then
    let s := sent.1.setRequest { sent.1.c.toRequest with sending := true }
    if s.c.result = codeRedirect then s.setState .sendingBody else s.setState .sendingHeader
  else sendFailed sent.1

/-- A sent event after the header: the body follows, or an error is done. -/
def headerAcked (s : Sys) : Sys :=
  if s.c.result < 0 then (s.note (.refused s.c.toResponse)).setState .requestEnd
  else s.setState .sendingBody

/-- Load the next block of the body and send it. -/
def sendBody (s : Sys) (caller : Caller) : Sys :=
  let loaded := cgiLoadContentToSend s caller
  if 0 < loaded.2 then
    let sent := sendBuffered loaded.1
    if sent.2 then sent.1.setRequest { sent.1.c.toRequest with sending := true }
    else sendFailed sent.1
  else if loaded.2 < 0 then loaded.1.setState .requestEnd
  else loaded.1

/-- The part of `HttpResponseProc` in front of the body. -/
def responseHeaderStep (s : Sys) (caller : Caller) : Sys :=
  if s.c.sending = false then startResponse s
  else if s.c.state = .sendingHeader ∧ caller = .sent then headerAcked s
  else s

/-- Send what is left of the last block. -/
def sendRemaining (s : Sys) : Sys :=
  let sent := sendBuffered s
  if sent.2 then sent.1 else sendFailed sent.1

/-- `HttpResponseProc(context, caller)`. -/
def httpResponseProc (s : Sys) (caller : Caller) : Sys :=
  if s.c.state.receiving ∨ s.c.result = 0 then s
  else if 0 < s.c.bytesLeft ∧ s.c.dwOperStage = stageEnd then sendRemaining s
  else if 0 < s.c.bytesLeft ∧ (s.sndbuf : Int) ≤ s.c.bytesLeft then sendRemaining s.afterSndbuf
  else
    let s := if 0 < s.c.bytesLeft then s.afterSndbuf else s
    let s' := responseHeaderStep s caller
    -- a header that could not be written ends the call
    if s.c.sending = false ∧ s'.c.state = .requestEnd then s'
    else if s'.c.state = .sendingBody then sendBody s' caller
    else s'

/-! ## The request -/

/-- The first data of a request. -/
def startRequest (s : Sys) : Sys :=
  let s := s.setRequest { s.c.toRequest with state := .headerReceiving, tLastSent := 0 }
  s.setResponse { s.c.toResponse with tLastReceived := s.now }

/-- `_ipRemote` is the address a session was created from. -/
def loggedIn (w : World) (session : Option Nat) (ipRemote : Nat) : Bool :=
  match session with
  | none => false
  | some i => (w.sessions.getD i emptySession).nLoginIP == ipRemote

/-- The verdict on a complete header section. -/
def authorize (w : World) (h : Request) (r : Response) : Response :=
  let session := getSession w.sessions r.token
  let r := { r with authorized := codeOk, session := session }
  if !loggedIn w session h.ipRemote ∧ r.options.authRequired ∧ sessionTypes r.extension then
    { r.setResponsePath webDefaultPage with result := codeRedirect, authorized := codeRedirect }
  else r

/-- `_state = HTTP_STATE_BODY_DONE`, and the sending timeout starts. -/
def bodyDone (s : Sys) : Sys :=
  s.setRequest { s.c.toRequest with state := .bodyDone, tLastSent := s.now }

/-- How the content of the request is delimited, and with it the next state. -/
def frameContent (s : Sys) : Sys :=
  if s.c.chunked then s.setState .chunkLenReceiving
  else if 0 < s.c.contentLength then s.setState .bodyReceiving
  else bodyDone s

/-- Behind the empty line: session, framing of the content, `CGI_HeadersReceived`. -/
def headersEnd (s : Sys) : Sys :=
  let s := frameContent (s.setResponse (authorize s.w s.c.toRequest s.c.toResponse))
  cgiHeadersReceived
    (s.note (.headersEnd s.c.toRequest s.c.toResponse (loggedIn s.w s.c.session s.c.ipRemote)))

/-- The first index of a chunk-size line that ends it: CR there or LF behind it. -/
def chunkLineEnd (buf : Bytes) : Nat → Nat → Option Nat
  | 0, _ => none
  | k + 1, c =>
    if at' buf c = 13 ∨ at' buf (c + 1) = 10 then some c else chunkLineEnd buf k (c + 1)

/-- Decode a chunk-size line, if the buffer holds one. -/
def chunkLength (s : Sys) (size : Int) : Sys :=
  match chunkLineEnd s.c.httpRequestBuffer (size - 1).toNat 0 with
  | none => s
  | some c =>
    let arrived := s.c.httpRequestBuffer
    let buf := store arrived c [0]
    let s := s.note (.chunkLine s.c.toRequest)
    let s := s.setRequest { s.c.toRequest with
      contentLength := wrapLong (atol buf + 2), contentReceived := 0, state := .chunkReceiving }
    { s with c := { s.c with httpRequestBuffer := buf }.shiftOut (c + 2) (arrived.take (c + 2)) }

/-- The content of the body or of a chunk is complete. -/
def contentDone (s : Sys) : Sys :=
  if s.c.chunked then
    let s := if s.c.contentLength = 2 then bodyDone s else s.setState .chunkLenReceiving
    s.setRequest { s.c.toRequest with contentLength := 0, contentReceived := 0 }
  else bodyDone s

/-- `consumed` bytes of content are taken from the buffer. -/
def takeContent (s : Sys) (consumed : Int) : Sys :=
  let s := s.setRequest { s.c.toRequest with
    contentReceived := s.c.contentReceived + consumed }
  let s := { s with c := s.c.shiftOut consumed (s.c.httpRequestBuffer.take consumed.toNat) }
  if s.c.contentLength ≤ s.c.contentReceived then contentDone s else s

/-- How a round of the loop ends: another round, on to the response, or return. -/
inductive Next where
  | again
  | stop
  | ret
  deriving DecidableEq, Repr

/-- The end of a round: the request is complete, or there may be more to read. -/
def roundEnd (s : Sys) (consumed : Int) : Sys × Next :=
  if s.c.state = .bodyDone then
    let s := cgiRequestReceived s
    (if s.c.result = 0 then s.setResult codeOk else s, .stop)
  else if s.c.reqBufList = [] ∨ consumed ≤ 0 then (s, .stop)
  else (s, .again)

/-- The content part of a round. -/
def contentPart (s : Sys) (size : Int) : Sys × Next :=
  if s.c.state = .chunkReceiving ∨ s.c.state = .bodyReceiving then
    let taken := cgiContentReceived s s.c.httpRequestBuffer size
    if taken.1.c.result ≤ -500 then (taken.1, .ret)
    else if taken.2 ≤ 0 then (taken.1, .stop)
    else roundEnd (takeContent taken.1 taken.2) taken.2
  else roundEnd s 0

/-- A round once the header section is complete. -/
def afterHeader (s : Sys) (justNow : Bool) (size : Int) : Sys × Next :=
  let s := if justNow then headersEnd s else s
  if s.c.result < 0 then (s.setState .sendingHeader, .stop)
  else if s.c.state = .chunkLenReceiving ∧ 2 < size then contentPart (chunkLength s size) size
  else contentPart s size

/-- The header part of a round: the buffer as parsed, whether the header section ended,
and the local `size`. -/
def headerPart (s : Sys) : Sys × Bool × Int :=
  let size := s.c.requestLength
  let s := if 0 < size ∧ s.c.state = .idle then startRequest s else s
  if s.c.state = .headerReceiving ∧ 2 ≤ size then
    let parsed := parseHeader s size
    -- cutting an over-long line leaves `size` behind, but then nothing reads it
    (parsed.1, parsed.2, parsed.1.c.requestLength)
  else (s, false, size)

/-- A round behind the dequeue block. -/
def processBuffer (s : Sys) : Sys × Next :=
  if s.c.requestLength = 0 then (s, .stop)
  else
    let parsed := headerPart s
    let s := parsed.1
    if s.c.result < 0 then (s, .stop)
    else if s.c.state = .headerReceiving ∧ (maxReqBufSize : Int) ≤ s.c.requestLength then
      (s.setResult (-500), .stop)
    else if s.c.state = .idle ∨ s.c.state = .headerReceiving then
      (s, if s.c.reqBufList = [] then .stop else .again)
    else afterHeader s parsed.2.1 parsed.2.2

/-- One round of `while (_state < HTTP_STATE_BODY_DONE)`. -/
def iteration (s : Sys) : Sys × Next := processBuffer { s with c := s.c.dequeue }

/-- The loop over received data. -/
def receiveLoop : Nat → Sys → Sys × Next
  | 0, s => (s.crash, .stop)
  | fuel + 1, s =>
    if s.c.state.receiving then
      match iteration s with
      | (s, .again) => receiveLoop fuel s
      | r => r
    else (s, .stop)

/-- Every round that is not the last takes a byte from the buffer or the queue. -/
def receiveFuel (c : RequestContext) : Nat :=
  c.requestLength.toNat + (Pbuf.data c.reqBufList).length + 2

/-- What follows a response: the next request, or the end of the connection. -/
def requestEnd (s : Sys) : Sys :=
  if s.c.peerClosing then closeHttpContext s
  else if s.c.keepalive then resetHttpContext (s.note (.reset s.c.toRequest s.c.toResponse))
  else closeHttpContext s

/-- The part of `HttpRequestProc` behind the loop. -/
def requestFinish (s : Sys) (caller : Caller) : Sys :=
  if s.c.state.receiving then
    if s.c.peerClosing then s.setResult (-500) else s
  else
    let s := httpResponseProc s caller
    if s.c.state = .requestEnd then requestEnd s else s

/-- `HttpRequestProc(context, caller)`. -/
def httpRequestProc (s : Sys) (caller : Caller) : Sys :=
  match receiveLoop (receiveFuel s.c) s with
  | (s, .ret) => s
  | (s, _) => requestFinish s caller

/-! ## Events of a connection -/

/-- `IsContextTimeout(context) > 0`. -/
def isContextTimeout (s : Sys) : Bool :=
  if s.c.state.receiving then s.c.nReceiveTimeout < elapsedSince s.now s.c.tLastReceived
  else s.c.nSendTimeout < elapsedSince s.now s.c.tLastSent

/-- A fatal result closes the connection. -/
def closeIfFatal (s : Sys) : Sys := if s.c.result ≤ -500 then closeHttpContext s else s

/-- `OnHttpReceive(context, pcb, p, err)`; the null pointer is `none`. -/
def onHttpReceive (s : Sys) (p : Option (List Pbuf)) : Sys :=
  if p = none ∧ s.c.state = .idle then closeHttpContext s
  else
    let s := if p = none then s.setRequest { s.c.toRequest with peerClosing := true } else s
    let s := s.setResponse { s.c.toResponse with tLastReceived := s.now }
    let s := match p with
      | some chain => { s with c := s.c.receivePbuf chain }
      | none => s
    let s := httpRequestProc s .recv
    if s.c.result ≤ -500 then closeHttpContext s
    else if s.c.checkAlive then s
    else { s with w := { s.w with sessions := sessionReceived s.w.sessions s.c.session s.w.tick } }

/-- `OnHttpPoll(context, pcb)`. -/
def onHttpPoll (s : Sys) : Sys :=
  if isContextTimeout s then closeHttpContext s
  else closeIfFatal (httpRequestProc s .poll)

/-- `OnHttpSent(context, pcb, len)`. -/
def onHttpSent (s : Sys) (len : Nat) : Sys :=
  let s := if s.c.checkAlive then s
    else { s with w := { s.w with sessions := sessionSent s.w.sessions s.c.session s.w.tick } }
  let s := s.setRequest { s.c.toRequest with totalSent := s.c.totalSent + len }
  closeIfFatal (httpRequestProc s .sent)

/-- `OnHttpError(context, err)`: the control block is gone already. -/
def onHttpError (s : Sys) : Sys := freeHttpContext s

end Httpd

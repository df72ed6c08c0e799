import LambdaIOT.Httpd.Handlers

/-!
# A connection and its surroundings

`RequestContext` adds the receive buffer, the queue of received pbufs and the log to the
two parts of `REQUEST_CONTEXT`. `Sys` is what an event handler runs on: the globals, one
context, and the network side (`Net`), which answers the `altcp_*` calls from lists that
the event brings along, so that a run ranges over every sequence of answers.
-/

namespace Httpd

open CMem Lwip

/-! ## The log -/

/-- The callbacks of `struct CGI_Mapping`. -/
inductive Callback where
  | onHeaderReceived
  | onHeadersReceived
  | onContentReceived
  | onRequestReceived
  | setResponseHeaders
  | readContent
  | onAllSent
  | onFinished
  deriving DecidableEq, Repr

/-- What a run does on a connection, with the state it is done in. -/
inductive Act where
  /-- `OnHttpReceive` is given these bytes. -/
  | delivered (bs : Bytes)
  /-- `altcp_recved`. -/
  | recved (n : Nat)
  /-- These bytes leave the front of `http_request_buffer`. -/
  | consumed (bs : Bytes)
  /-- A request line is handed to `CGI_SetCgiHandler`. -/
  | requestLine (line : Bytes)
  /-- A header line is handed to `CGI_HeaderReceived`. -/
  | headerLine (line : Bytes)
  /-- The header section is complete and the session is looked up: the state before
  `CGI_HeadersReceived`, and whether a session of this address was found. -/
  | headersEnd (h : Request) (r : Response) (loggedIn : Bool)
  /-- A chunk-size line is decoded. -/
  | chunkLine (h : Request)
  /-- A callback of handler `cgi` is invoked. -/
  | callback (cgi : Cgi) (cb : Callback)
  /-- Request content is offered: the state before, the bytes present, the size offered,
  the count consumed. -/
  | content (h : Request) (r : Response) (requestLength size consumed : Int)
  /-- `CGI_SetResponseHeaders`: the response before and after. -/
  | headers (h : Request) (before after : Response)
  /-- `CGI_LoadContentToSend`: the globals and the response before, the response after, its
  result. -/
  | load (w : World) (h : Request) (before after : Response) (hasData : Int)
  /-- `altcp_write` of these bytes, and whether it succeeded. -/
  | write (bs : Bytes) (ok : Bool)
  /-- The header of an error response is acknowledged: the request ends here. -/
  | refused (r : Response)
  /-- `ResetHttpContext` at the end of a request: the response it drops. -/
  | reset (h : Request) (r : Response)
  /-- `FreeHttpContext`. -/
  | freed

/-! ## Contexts -/

/-- `REQUEST_CONTEXT`. `pcb` is the number of the connection, `httpRequestBuffer` all
132 bytes of the buffer. -/
structure RequestContext extends Request, Response where
  pcb : Option Nat
  bufOffset : Int
  reqBufList : List Pbuf
  requestLength : Int
  maxLevel : Int
  httpRequestBuffer : Bytes
  log : List Act

/-- A protocol control block of lwIP: the callback argument, and whether it still exists. -/
structure Pcb where
  arg : Option Nat
  live : Bool
  deriving DecidableEq

/-- The network side of an event: the answers of `altcp_sndbuf`, `altcp_write` and
`altcp_close`, and the control blocks. -/
structure Net where
  sndbuf : List Nat
  write : List Bool
  close : List Bool
  pcbs : List Pcb

/-- What an event handler runs on. -/
structure Sys where
  w : World
  c : RequestContext
  net : Net

namespace Sys

/-- Append to the log. -/
def note (s : Sys) (a : Act) : Sys := { s with c := { s.c with log := s.c.log ++ [a] } }

/-- The globals and the response, as a callback is given them. -/
def call (s : Sys) : Call := ⟨s.w, s.c.toResponse⟩

/-- Put back what a callback returns. -/
def ofCall (s : Sys) (k : Call) : Sys := { s with w := k.w, c := { s.c with toResponse := k.r } }

/-- Change the part only `http_core.c` writes. -/
def setRequest (s : Sys) (h : Request) : Sys := { s with c := { s.c with toRequest := h } }

/-- Change the part the callbacks write as well. -/
def setResponse (s : Sys) (r : Response) : Sys := { s with c := { s.c with toResponse := r } }

/-- `_state = st`. -/
def setState (s : Sys) (st : HttpState) : Sys := s.setRequest { s.c.toRequest with state := st }

/-- `_result = code`. -/
def setResult (s : Sys) (code : Int) : Sys := s.setResponse { s.c.toResponse with result := code }

/-- The run has left defined behaviour. -/
def crash (s : Sys) : Sys := s.setResponse s.c.toResponse.crash

/-- `LWIP_GetTickCount()`, never zero. -/
def now (s : Sys) : Nat := tickOrOne s.w.tick

/-! ## `altcp_*` -/

/-- The next answer of `altcp_sndbuf`; a null connection has no buffer. -/
def sndbuf (s : Sys) : Nat := if s.c.pcb.isNone then 0 else s.net.sndbuf.headD 0

def afterSndbuf (s : Sys) : Sys := { s with net := { s.net with sndbuf := s.net.sndbuf.tail } }

/-- The next answer of `altcp_write`; a null connection fails. -/
def writeOk (s : Sys) : Bool := s.c.pcb.isSome && s.net.write.headD true

/-- `altcp_write` of `bs`. -/
def altcpWrite (s : Sys) (bs : Bytes) : Sys :=
  { s with net := { s.net with write := s.net.write.tail } }.note (.write bs s.writeOk)

/-- `altcp_recved`. -/
def altcpRecved (s : Sys) (n : Nat) : Sys := s.note (.recved n)

end Sys

/-! ## The receive buffer and its queue -/

namespace RequestContext

/-- Append bytes to `http_request_buffer`, with two terminators. -/
def appendBuffer (c : RequestContext) (bs : Bytes) (count : Int) : RequestContext :=
  let fits : Bool := 0 ≤ c.requestLength ∧ (bs.length : Int) = count ∧
    c.requestLength + count + 2 ≤ (maxReqBufSize + 4 : Nat)
  { c with
    httpRequestBuffer :=
      if fits then store c.httpRequestBuffer c.requestLength.toNat (bs ++ [0, 0])
      else c.httpRequestBuffer
    requestLength := c.requestLength + count
    fault := c.fault || !fits }

/-- The `p != NULL` part of `OnHttpReceive`: behind a queue the pbufs are queued, a
segment that does not fit starts one, and any other is copied at once. -/
def receivePbuf (c : RequestContext) (p : List Pbuf) : RequestContext :=
  let totLen := Pbuf.chainTotLen p
  let c := { c with log := c.log ++ [Act.delivered (Pbuf.data p)] }
  if c.reqBufList ≠ [] then { c with reqBufList := Pbuf.pbufCat c.reqBufList p }
  else if c.maxLevel - c.requestLength < (totLen : Int) then { c with reqBufList := p }
  else
    let c := c.appendBuffer (Pbuf.pbufCopyPartial p totLen 0) totLen
    { c with log := c.log ++ [Act.recved totLen] }

/-- The inner loop of the dequeue block: free the pbufs in front of `off`. It gives the
rest of the queue, the offset into it and the acknowledged sizes; running off the end of
the chain is an access through a null pointer. -/
def freeDrained : List Pbuf → Pbuf → Int → Option (List Pbuf × Int × List Nat)
  | [], p, off => if off < p.len then some ([p], off, []) else none
  | succeeding :: rest, p, off =>
    if off < p.len then some (p :: succeeding :: rest, off, [])
    else
      (freeDrained rest { succeeding with totLen := u16 (p.totLen - p.len) } (off - p.len)).map
        fun (chain, off, acks) => (chain, off, p.len :: acks)

/-- The part of the dequeue block behind the copy. -/
def releaseQueue (c : RequestContext) : RequestContext :=
  match c.reqBufList with
  | [] => c
  | p :: rest =>
    if c.bufOffset = p.totLen then
      { c with reqBufList := [], bufOffset := 0, log := c.log ++ [.recved p.totLen] }
    else if c.bufOffset ≠ 0 then
      match freeDrained rest p c.bufOffset with
      | some (chain, off, acks) =>
        { c with reqBufList := chain, bufOffset := off, log := c.log ++ acks.map .recved }
      | none => { c with fault := true }
    else c

/-- The dequeue block of `HttpRequestProc`. -/
def dequeue (c : RequestContext) : RequestContext :=
  if c.reqBufList = [] then c
  else
    let avail := (Pbuf.chainTotLen c.reqBufList : Int) - c.bufOffset
    let nSpace := min (c.maxLevel - c.requestLength) avail
    if 0 < nSpace then
      let bs := Pbuf.pbufCopyPartial c.reqBufList nSpace.toNat c.bufOffset.toNat
      let c := c.appendBuffer bs nSpace
      releaseQueue { c with bufOffset := c.bufOffset + nSpace }
    else c

/-- Remove `n` bytes from the front of `http_request_buffer`; `taken` is what they were
when they arrived. -/
def shiftOut (c : RequestContext) (n : Int) (taken : Bytes) : RequestContext :=
  let left := c.requestLength - n
  { c with
    requestLength := left
    httpRequestBuffer :=
      if 0 < left then store c.httpRequestBuffer 0 (load c.httpRequestBuffer n.toNat left.toNat)
      else c.httpRequestBuffer
    log := c.log ++ [.consumed taken] }

end RequestContext

end Httpd

import LambdaIOT.Httpd.Core

/-!
# The server: four contexts, their connections, and the events of lwIP

An event names a control block, and the server passes it to the context that is the
argument of the block. A context that has left defined behaviour (`fault`) stops: what
the C code does from there on is not defined.
-/

namespace Httpd

open CMem Lwip

/-- A context after `SetupHttpContext`: all zero. -/
def setupContext : RequestContext where
  state := .idle
  peerClosing := false
  nReceiveTimeout := 0
  ipRemote := 0
  checkAlive := false
  requestMethod := .none
  contentLength := 0
  keepalive := false
  chunked := false
  expect00 := false
  ifModified := 0
  rangeFrom := 0
  contentReceived := 0
  handler := none
  ver := List.replicate 4 0
  posQuestion := 0
  requestPath := List.replicate 128 0
  sendMaxBlock := 0
  sending := false
  total2Send := 0
  totalSent := 0
  tLastSent := 0
  nSendTimeout := 0
  killing := false
  tLastReceived := 0
  rangeTo := 0
  result := 0
  session := none
  options := noOptions
  extension := []
  responsePath := []
  fileHandle := 0
  token := []
  authorized := 0
  dwOperStage := 0
  dwOperIndex := 0
  dwTotal := 0
  bytesLeft := 0
  mem := List.replicate memSize 0
  peak := 0
  fault := false
  pcb := none
  bufOffset := 0
  reqBufList := []
  requestLength := 0
  maxLevel := 0
  httpRequestBuffer := List.replicate (maxReqBufSize + 4) 0
  log := []

/-- `GetHttpContext` of a free context, and the fields `OnHttpAccept` fills in. -/
def acceptContext (s : Sys) (pcb ipRemote : Nat) : Sys :=
  let s := { s with c := { s.c with
    reqBufList := [], bufOffset := 0, peerClosing := false, log := [] } }
  let s := resetHttpContext s
  { s with c := { s.c with pcb := some pcb, ipRemote := ipRemote } }

/-! ## Events -/

/-- What lwIP hands to the receive callback: a chain of non-empty pbufs with correct
totals. -/
structure Segment where
  chain : List Pbuf
  nonempty : chain ≠ []
  chained : Pbuf.Chained chain

namespace Segment

def data (p : Segment) : Bytes := Pbuf.data p.chain

/-- A segment of one pbuf. -/
def ofBytes (bs : Bytes) (h : bs ≠ []) : Segment where
  chain := [⟨bs, bs.length⟩]
  nonempty := List.cons_ne_nil _ _
  chained := ⟨List.length_pos_iff.mpr h, rfl, trivial⟩

end Segment

/-- The events that a context handles. -/
inductive ConnEvent where
  /-- `OnHttpAccept` chose this context. -/
  | accept (pcb ipRemote : Nat)
  /-- `OnHttpReceive`, with data or the null pointer. -/
  | receive (p : Option Segment)
  | poll
  | sent (len : Nat)
  /-- `OnHttpError`. -/
  | error

/-- One event on one context. -/
def connStep (s : Sys) : ConnEvent → Sys
  | .accept pcb ipRemote => acceptContext s pcb ipRemote
  | .receive p => onHttpReceive s (p.map Segment.chain)
  | .poll => onHttpPoll s
  | .sent len => onHttpSent s len
  | .error => onHttpError s

/-- The answers of the network to one event. -/
structure Answers where
  sndbuf : List Nat
  write : List Bool
  close : List Bool

/-- What can happen to the server. -/
inductive Event where
  /-- A connection from `ip` is accepted. -/
  | accept (ip : Nat)
  /-- An event of control block `pcb`. -/
  | receive (pcb : Nat) (p : Option Segment)
  | poll (pcb : Nat)
  | sent (pcb : Nat) (len : Nat)
  | error (pcb : Nat)
  /-- Time passes, and `SessionCheck` is called. -/
  | tick (tick : Nat) (clock : Clock)
  /-- The device changes under the server: its addresses, its listeners. -/
  | device (dev : Device) (listening443 : Bool)

/-- The server: globals, contexts, control blocks. -/
structure Server where
  w : World
  slots : List RequestContext
  pcbs : List Pcb

namespace Server

/-- `SetupHttpContext`, with any globals: the web root, the device, the sessions. -/
def boot (w : World) : Server where
  w := w
  slots := List.replicate maxConnections setupContext
  pcbs := []

/-- Run `f` on context `i`. -/
def onSlot (sv : Server) (i : Nat) (a : Answers) (f : Sys → Sys) : Server :=
  match sv.slots[i]? with
  | none => sv
  | some c =>
    if c.fault then sv
    else
      let s := f { w := sv.w, c := c, net := ⟨a.sndbuf, a.write, a.close, sv.pcbs⟩ }
      { w := s.w, slots := sv.slots.set i s.c, pcbs := s.net.pcbs }

/-- `OnHttpAccept`: the first context without a connection, or none and the connection
is closed. -/
def accept (sv : Server) (ip : Nat) (a : Answers) : Server :=
  match sv.slots.findIdx? fun c => c.pcb.isNone with
  | none => { sv with pcbs := sv.pcbs ++ [⟨none, false⟩] }
  | some i =>
    let opened : Server := { sv with pcbs := sv.pcbs ++ [⟨some i, true⟩] }
    opened.onSlot i a fun s => connStep s (.accept sv.pcbs.length ip)

/-- lwIP has freed the control block. -/
def dropPcb (sv : Server) (pcb : Nat) : Server :=
  { sv with pcbs := sv.pcbs.modify pcb fun p => { p with live := false } }

/-- The poll event of a detached block: it is closed or aborted. -/
def retryClose (sv : Server) (pcb : Nat) : ConnEvent → Server
  | .poll => sv.dropPcb pcb
  | _ => sv

/-- An event of a control block. A block whose close failed has no argument any more and
knows only the poll event, which closes or aborts it. -/
def onPcb (sv : Server) (pcb : Nat) (a : Answers) (e : ConnEvent) : Server :=
  match sv.pcbs[pcb]? with
  | none => sv
  | some p =>
    if p.live then
      match p.arg with
      | some i => sv.onSlot i a fun s => connStep s e
      | none => sv.retryClose pcb e
    else sv

/-- `OnHttpError`: lwIP has freed the control block before it calls back. -/
def onError (sv : Server) (pcb : Nat) (a : Answers) : Server :=
  match sv.pcbs[pcb]? with
  | none => sv
  | some p =>
    if p.live then
      match p.arg with
      | some i => (sv.dropPcb pcb).onSlot i a fun s => connStep s .error
      | none => sv.dropPcb pcb
    else sv

/-- One step of the server. -/
def step (sv : Server) (a : Answers) : Event → Server
  | .accept ip => sv.accept ip a
  | .receive pcb p => sv.onPcb pcb a (.receive p)
  | .poll pcb => sv.onPcb pcb a .poll
  | .sent pcb len => sv.onPcb pcb a (.sent len)
  | .error pcb => sv.onError pcb a
  | .tick tick clock =>
    let sessions := sessionCheck sv.w.sessions tick sv.w.dev.workConfig.nSessionTimeout
    { sv with w := { sv.w with tick := tick, clock := clock, sessions := sessions } }
  | .device dev listening443 =>
    { sv with w := { sv.w with dev := dev, listening443 := listening443 } }

/-! ## The service -/

/-- `HttpdStop(pcbListen)`: every context is freed, and its connection left alone. -/
def httpdStop (sv : Server) (a : Answers) : Server :=
  (List.range maxConnections).foldl (fun sv i => sv.onSlot i a freeHttpContext) sv

/-- `main` when the address is lost: both listeners are stopped, then `tcp_kill_all` and
`SessionClearAll`. The former aborts the blocks in TIME-WAIT; these were closed and have no
callbacks any more, so nothing changes here. `HttpdInit` listens again. -/
def restart (sv : Server) (a : Answers) : Server :=
  let sv := sv.httpdStop a
  let sv := if sv.w.listening443 then sv.httpdStop a else sv
  { sv with w := { sv.w with sessions := setupSession } }

end Server

end Httpd

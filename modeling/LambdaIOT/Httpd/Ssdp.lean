import LambdaIOT.Lwip.Pbuf
import LambdaIOT.Httpd.Utils

/-!
# `ssdp.c`: the listener for M-SEARCH requests

`ssdp_listener` copies a datagram into `szBuffer[256]` and reads it line by line. Every access
to the buffer is checked here: one behind its end, or a string in it without an end, ends the
call as `outOfBounds`, because what the C code does from there on is not defined.
-/

namespace Httpd

open CMem Lwip

/-- `SSDP_TYPES`. -/
inductive SsdpType where
  | advertiseUp
  | advertiseDown
  | msearchReply
  deriving DecidableEq, Repr

/-- A call of `ssdp_send_to(type, ipDest, portDest)`. -/
structure SsdpSend where
  type : SsdpType
  ipDest : Nat
  portDest : Nat
  deriving DecidableEq, Repr

/-- `sizeof(szBuffer)`. -/
def szBufferSize : Nat := 256

/-! ## Lines -/

/-- What the lines so far have said. -/
structure SearchFields where
  line : Nat
  gotHost : Bool
  gotSt : Bool
  gotMan : Bool
  gotMx : Bool
  ssdpMxMin : Int
  deriving DecidableEq, Repr

/-- Before the first line. -/
def SearchFields.none : SearchFields := ⟨0, false, false, false, false, 0⟩

/-- `got_host && got_st && got_man && got_mx && (ssdp_mx_min > 0)`. -/
def SearchFields.accepted (f : SearchFields) : Bool :=
  f.gotHost && f.gotSt && f.gotMan && f.gotMx && decide (0 < f.ssdpMxMin)

/-- The line at the start of `text`; the first one must be an M-SEARCH. -/
def SearchFields.read (f : SearchFields) (text : Bytes) : Option SearchFields :=
  if f.line = 0 then
    if hasPrefix text (ascii "M-SEARCH") then some { f with line := 1 } else Option.none
  else
    let f := { f with line := f.line + 1 }
    some <|
      if hasPrefix text (ascii "Host:") then { f with gotHost := true }
      else if hasPrefix text (ascii "ST:") then
        if (strstr (text.drop 3) (ascii "ssdp:all")).isSome then { f with gotSt := true }
        else if (strstr (text.drop 3) (ascii "upnp:rootdevice")).isSome then { f with gotSt := true }
        else f
      else if hasPrefix text (ascii "Man:") then
        if (strstr (text.drop 4) (ascii "\"ssdp:discover\"")).isSome then { f with gotMan := true }
        else f
      else if hasPrefix text (ascii "MX:") then
        { f with ssdpMxMin := atol (text.drop 3), gotMx := true }
      else f

/-! ## The loop -/

/-- The variables of the loop. -/
structure SearchScan where
  buff : Bytes
  i : Nat
  start : Nat
  fields : SearchFields

/-- How a round ends: another round, the return of a datagram that is no M-SEARCH, or an
access outside `szBuffer`. -/
inductive SearchRound where
  | next (s : SearchScan)
  | refused
  | outOfBounds

/-- The string at `pos` ends inside the buffer. -/
def terminated (buff : Bytes) (pos : Nat) : Bool := (buff.drop pos).contains 0

/-- CRLF at `i`: cut the line, read it, and go on behind it. -/
def SearchScan.endLine (s : SearchScan) : SearchRound :=
  let buff := store s.buff s.i [0]
  if terminated buff s.start then
    match s.fields.read (buff.drop s.start) with
    | none => .refused
    | some fields => .next ⟨buff, s.i + 2, s.i + 2, fields⟩
  else .outOfBounds

/-- One round of `for (i = 0; i < len - 1; i++)`. -/
def SearchScan.round (s : SearchScan) : SearchRound :=
  match s.buff[s.i]? with
  | none => .outOfBounds
  | some c =>
    if c = 13 then
      match s.buff[s.i + 1]? with
      | none => .outOfBounds
      | some d => if d = 10 then s.endLine else .next { s with i := s.i + 1 }
    else .next { s with i := s.i + 1 }

/-- How the loop ends, or where it is after all its rounds. -/
inductive SearchEnd where
  | done (fields : SearchFields)
  | refused
  | outOfBounds
  | running
  deriving DecidableEq, Repr

/-- At most `rounds` rounds of the loop. -/
def searchLoop (limit : Nat) : Nat → SearchScan → SearchEnd
  | 0, s => if s.i < limit then .running else .done s.fields
  | rounds + 1, s =>
    if s.i < limit then
      match s.round with
      | .next s => searchLoop limit rounds s
      | .refused => .refused
      | .outOfBounds => .outOfBounds
    else .done s.fields

/-! ## The listener -/

/-- How a call ends: it returns, with what it has sent; it has left `szBuffer`; or it has
not returned yet. -/
inductive ListenerEnd where
  | returned (sent : List SsdpSend)
  | outOfBounds
  | running
  deriving DecidableEq, Repr

/-- `szBuffer` with the datagram in it, and `len`. -/
def szBuffer (p : List Pbuf) : Bytes × Nat :=
  let copied := Pbuf.pbufCopyPartial p (szBufferSize - 4) 0
  (store (List.replicate szBufferSize 0) 0 copied, copied.length)

/-- `len - 1`, a `u32_t`. -/
def lenLess1 (len : Nat) : Nat := (len + 4294967295) % 4294967296

/-- `ssdp_listener(arg, upcb, p, addr, port)` with at most `rounds` rounds of its loop. -/
def ssdpListenerWithin (rounds : Nat) (p : List Pbuf) (addr port : Nat) : ListenerEnd :=
  let copied := szBuffer p
  if terminated copied.1 0 = false then .outOfBounds
  else if (strstr copied.1 (ascii "NOTIFY ")).isSome then .returned []
  else
    match searchLoop (lenLess1 copied.2) rounds ⟨copied.1, 0, 0, .none⟩ with
    | .done fields =>
      .returned (if fields.accepted then [⟨.msearchReply, addr, port⟩] else [])
    | .refused => .returned []
    | .outOfBounds => .outOfBounds
    | .running => .running

/-- `ssdp_listener(arg, upcb, p, addr, port)`. Every round moves on in the buffer, so one round
more than it has bytes is enough. -/
def ssdpListener (p : List Pbuf) (addr port : Nat) : ListenerEnd :=
  ssdpListenerWithin (szBufferSize + 1) p addr port

end Httpd

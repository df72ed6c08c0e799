import LambdaIOT.Httpd.Utils

/-!
# `http_session.c`: login sessions

Five sessions, each a token, the address that logged in and two ticks. A context keeps
a pointer to its session, which is the index here; killing a session clears the slot
and leaves the pointers to it alone.
-/

namespace Httpd

open CMem

def maxSessions : Nat := 5

/-- `SESSION`; a free slot has an empty token. -/
structure Session where
  token : Bytes
  nLoginIP : Nat
  tLastReceived : Nat
  tLastSent : Nat
  deriving DecidableEq

def emptySession : Session := ⟨[], 0, 0, 0⟩

/-- `SetupSession`, `SessionClearAll`. -/
def setupSession : List Session := List.replicate maxSessions emptySession

/-- A tick as the code stores it: zero means "never", so zero becomes one. -/
def tickOrOne (tick : Nat) : Nat := if tick = 0 then 1 else tick

/-- The cookie `sprintf(outCookie, "SID=%08lX", tick)`. -/
def cookieOf (tick : Nat) : Bytes := ascii "SID=" ++ zeroPad 8 (hexUpper (tick % 4294967296))

/-- `SessionCreate(outCookie, remoteIP)`: the first free slot, if there is one. -/
def sessionCreate (ss : List Session) (tick remoteIP : Nat) : List Session × Option Nat :=
  match ss.findIdx? fun s => s.token.isEmpty with
  | some i => (ss.set i ⟨cookieOf tick, remoteIP, tickOrOne tick, 0⟩, some i)
  | none => (ss, none)

/-- `SessionKill(session)`. -/
def sessionKill (ss : List Session) : Option Nat → List Session
  | none => ss
  | some i => ss.set i emptySession

/-- Extensions a session is not asked for. -/
def publicExtensions : List Bytes :=
  [ascii "css", ascii "jpg", ascii "png", ascii "ico", ascii "bmp", ascii "svg", ascii "gif",
   ascii "woff", ascii "ttf", ascii "otf", ascii "tiff"]

/-- `SessionTypes(extension) > 0`. -/
def sessionTypes (extension : Bytes) : Bool := !publicExtensions.any fun e => hasPrefix extension e

/-- `GetSession(token)`: the first live session whose token occurs in `token`. -/
def getSession (ss : List Session) (token : Bytes) : Option Nat :=
  if (cstr token).isEmpty then none
  else ss.findIdx? fun s => !s.token.isEmpty && (strstr token s.token).isSome

/-- Change the slot a context points to, unless the session is gone. -/
def sessionTouch (ss : List Session) (session : Option Nat) (f : Session → Session) :
    List Session :=
  match session with
  | none => ss
  | some i =>
    match ss[i]? with
    | some s => if s.token.isEmpty then ss else ss.set i (f s)
    | none => ss

/-- `SessionReceived(session)`. -/
def sessionReceived (ss : List Session) (session : Option Nat) (tick : Nat) : List Session :=
  sessionTouch ss session fun s => { s with tLastReceived := tickOrOne tick }

/-- `SessionSent(session)`. -/
def sessionSent (ss : List Session) (session : Option Nat) (tick : Nat) : List Session :=
  sessionTouch ss session fun s => { s with tLastSent := tickOrOne tick }

/-- Time since `last`, as the three timeout checks compute it in 64 bits; `last = 0` is no
time. -/
def elapsedSince (now last : Nat) : Nat :=
  if last = 0 then 0
  else if last ≤ now then now - last
  else (((now : Int) + (4294967295 - last)).emod 18446744073709551616).toNat

/-- `SessionCheck(tick)`: a session idle in both directions for too long is cleared. -/
def sessionCheck (ss : List Session) (tick : Nat) (timeout : Int) : List Session :=
  ss.map fun s =>
    let now := tickOrOne tick
    let idle := min (elapsedSince now s.tLastSent) (elapsedSince now s.tLastReceived)
    if !s.token.isEmpty && 0 < timeout && timeout < (idle : Int) then emptySession else s

end Httpd

import LambdaIOT.Httpd.Device
import LambdaIOT.Httpd.Fs
import LambdaIOT.Httpd.Session
import LambdaIOT.Lwip.Pbuf

/-!
# The data of the server

`REQUEST_CONTEXT` is split by who writes a field: `Request` holds what only
`http_core.c` writes and the CGI callbacks read, `Response` what the callbacks write as
well. A callback is a function of a `Request` that transforms a `Call` (the globals and
the `Response`), so that it leaves the rest alone is its type and not a lemma.

`_sendBuffer` and `_appContext` are neighbours in `RESPONSE_CONTEXT` and are both
written without bounds, so they are one memory `mem` of 512 bytes: a header that is too
long runs into the application context here as it does there.

Three fields are not in the source. `peak` is the end of the highest write addressed to
the send buffer since it was last cleared, `fault` says that something was written
outside its object (C's behaviour is undefined from there on, and the model stops the
connection), `log` records what a run did.
-/

namespace Httpd

open CMem Lwip

/-! ## Constants of `http_core.h` -/

def maxConnections : Nat := 4
def maxReqBufSize : Nat := 128
def maxSendBufSize : Nat := 256
def maxAppContextSize : Nat := 256
def toRecv : Nat := 60 * 1000
def toSent : Nat := 60 * 1000
def stageEnd : Nat := 0xFFFFFFFF

def codeOk : Int := 200
def codeNotModified : Int := -304
def codeRedirect : Int := -307
def codeUnauthorized : Int := -401
def codeNotFound : Int := -404

def crlf : Bytes := ascii "\r\n"
def connectionHeader : Bytes := ascii "close"
def serverHeader : Bytes := ascii "straight/1.1"

def webDefaultPage : Bytes := ascii "/auth/login.html"
def webSessionCheck : Bytes := ascii "/auth/session_check.cgi"
def webLogoutPage : Bytes := ascii "/auth/logout.cgi"
def webAppPage : Bytes := ascii "/app/index.shtml"

/-! ## Enumerations -/

/-- `_state`: the `HTTP_STATE_*` values, in their order. -/
inductive HttpState where
  | idle
  | headerReceiving
  | headerDone
  | chunkLenReceiving
  | chunkLenDone
  | chunkReceiving
  | chunkDone
  | bodyReceiving
  | bodyDone
  | sendingHeader
  | sendingBody
  | requestEnd
  deriving DecidableEq, Repr

/-- `_state < HTTP_STATE_BODY_DONE`. -/
def HttpState.receiving : HttpState → Bool
  | .bodyDone | .sendingHeader | .sendingBody | .requestEnd => false
  | _ => true

/-- `_requestMethod`: -1, `METHOD_GET`, `METHOD_POST`. -/
inductive Method where
  | none
  | get
  | post
  deriving DecidableEq, Repr

/-- The `caller` argument: which event runs `HttpRequestProc`. -/
inductive Caller where
  | recv
  | poll
  | sent
  deriving DecidableEq, Repr

/-- The entries of `g_cgiMapping`, in search order. -/
inductive Cgi where
  | ssdp
  | auth
  | form
  | files
  | upload
  | webApp
  deriving DecidableEq, Repr

/-- The `CGI_OPT_*` bits of `_options` that are used. -/
structure Options where
  authRequired : Bool
  prefixWildcard : Bool
  getEnabled : Bool
  postEnabled : Bool
  chunkEnabled : Bool
  gzip : Bool
  deriving DecidableEq, Repr

def noOptions : Options := ⟨false, false, false, false, false, false⟩

/-! ## Globals -/

/-- The text `getClock` prints: `%.3s, %02d %.3s %d %02d:%02d:%02d GMT`, 29 characters. -/
structure Clock where
  text : Bytes
  length_text : text.length = 29
  noNul : NoNul text

/-- The globals the connections share. -/
structure World where
  tick : Nat
  clock : Clock
  sessions : List Session
  fs : FileSystem
  dev : Device
  listening443 : Bool

/-! ## The context of a connection -/

/-- The fields of `REQUEST_CONTEXT` and `RESPONSE_CONTEXT` that no callback writes. -/
structure Request where
  state : HttpState
  peerClosing : Bool
  nReceiveTimeout : Nat
  ipRemote : Nat
  checkAlive : Bool
  requestMethod : Method
  contentLength : Int
  keepalive : Bool
  chunked : Bool
  expect00 : Bool
  ifModified : Int
  rangeFrom : Int
  contentReceived : Int
  handler : Option Cgi
  ver : Bytes
  posQuestion : Int
  requestPath : Bytes
  sendMaxBlock : Int
  sending : Bool
  total2Send : Int
  totalSent : Int
  tLastSent : Nat
  nSendTimeout : Nat

/-- The fields that the callbacks write. `token`, `extension` and `responsePath` are the
strings in their arrays. -/
structure Response where
  killing : Bool
  tLastReceived : Nat
  rangeTo : Int
  result : Int
  session : Option Nat
  options : Options
  extension : Bytes
  responsePath : Bytes
  fileHandle : Nat
  token : Bytes
  authorized : Int
  dwOperStage : Nat
  dwOperIndex : Int
  dwTotal : Int
  bytesLeft : Int
  mem : Bytes
  peak : Nat
  fault : Bool

/-- What a callback transforms. -/
structure Call where
  w : World
  r : Response

/-! ## Writing the send buffer and the application context -/

def memSize : Nat := maxSendBufSize + maxAppContextSize

namespace Response

/-- A write of `bs` at `off` of the send buffer stays in `mem`. -/
def sendFits (off : Int) (bs : Bytes) : Prop :=
  bs = [] ∨ (0 ≤ off ∧ off + bs.length ≤ memSize)

instance (off : Int) (bs : Bytes) : Decidable (sendFits off bs) :=
  inferInstanceAs (Decidable (_ ∨ _))

/-- Write `bs` at `_sendBuffer + off`. -/
def putSend (r : Response) (off : Int) (bs : Bytes) : Response :=
  { r with
    mem := if sendFits off bs then store r.mem off.toNat bs else r.mem
    peak := if bs = [] then r.peak else max r.peak (off + bs.length).toNat
    fault := r.fault || !decide (sendFits off bs) }

/-- Write `bs` at `_appContext + off`. -/
def putApp (r : Response) (off : Int) (bs : Bytes) : Response :=
  { r with
    mem := if 0 ≤ off ∧ off + bs.length ≤ maxAppContextSize then
        store r.mem (maxSendBufSize + off.toNat) bs else r.mem
    fault := r.fault || !decide (0 ≤ off ∧ off + bs.length ≤ maxAppContextSize) }

/-- `_appContext`. -/
def appContext (r : Response) : Bytes := r.mem.drop maxSendBufSize

/-- The bytes of `_sendBuffer` waiting to be sent. -/
def pending (r : Response) : Bytes := r.mem.take r.bytesLeft.toNat

/-- `LWIP_sprintf(_sendBuffer, ..)` of the text `s`. -/
def sprintfSend (r : Response) (s : Bytes) : Response := r.putSend 0 (s ++ [0])

/-- `strcat(_sendBuffer, s)`. -/
def strcatSend (r : Response) (s : Bytes) : Response := r.putSend (strlen r.mem) (s ++ [0])

/-- `strcpy(_responsePath, s)`. -/
def setResponsePath (r : Response) (s : Bytes) : Response :=
  { r with
    responsePath := if s.length < 128 then s else r.responsePath
    fault := r.fault || !decide (s.length < 128) }

/-- `_dwOperStage++`. -/
def nextStage (r : Response) : Response :=
  { r with dwOperStage := (r.dwOperStage + 1) % 4294967296 }

/-- An access through a pointer to nowhere. -/
def crash (r : Response) : Response := { r with fault := true }

end Response

end Httpd

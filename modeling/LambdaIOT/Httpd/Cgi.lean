import LambdaIOT.Httpd.Context

/-!
# `http_cgi.c`: the mapping table and the calls of the handlers

The table of `CGI_SetupMapping` is fixed, so a mapping is a constructor of `Cgi`, and
its callbacks are functions of it; `none` is a null function pointer.
-/

namespace Httpd

open CMem

/-! ## The table -/

namespace Cgi

/-- `g_cgiMapping`, in search order. -/
def mapping : List Cgi := [ssdp, auth, form, files, upload, webApp]

/-- `path`, without the wildcard that `CGI_Append` cuts off. -/
def path : Cgi → Bytes
  | ssdp => ascii "/upnp_device.xml"
  | auth => ascii "/auth/"
  | form => ascii "/app/form.shtml"
  | files => ascii "/api/files.cgi"
  | upload => ascii "/api/upload.cgi"
  | webApp => ascii "/app/"

/-- `optionsAllowed`. -/
def optionsAllowed : Cgi → Options
  | ssdp => { noOptions with getEnabled := true, chunkEnabled := true }
  | auth => { noOptions with prefixWildcard := true, getEnabled := true, postEnabled := true }
  | form => { noOptions with authRequired := true, getEnabled := true, postEnabled := true }
  | files => { noOptions with authRequired := true, getEnabled := true, chunkEnabled := true }
  | upload => { noOptions with authRequired := true, postEnabled := true }
  | webApp => { noOptions with prefixWildcard := true, authRequired := true, getEnabled := true }

/-- The test of `CGI_SetCgiHandler` for one entry. -/
def accepts (cgi : Cgi) (requestPath : Bytes) : Bool :=
  (if cgi.optionsAllowed.prefixWildcard then cgi.path.length ≤ strlen requestPath
    else strlen requestPath = cgi.path.length) && hasPrefix requestPath cgi.path

/-- The first entry that accepts the path. -/
def find (requestPath : Bytes) : Option Cgi := mapping.find? (·.accepts requestPath)

def onHeaderReceived : Cgi → Option (Call → Bytes → Call)
  | upload => some uploadOnHeaderReceived
  | _ => none

def onHeadersReceived : Cgi → Option (Request → Call → Call)
  | auth => some fun _ c => authOnHeaders c
  | form => some formOnHeadersReceived
  | upload => some uploadOnHeadersReceived
  | _ => none

def onContentReceived : Cgi → Option (Request → Call → Bytes → Int → Call × Int)
  | auth => some fun _ c buffer size => authOnPostData c buffer size
  | form => some webOnFormReceived
  | upload => some fun h c _ size => uploadOnContentReceived h c size
  | _ => none

def onRequestReceived : Cgi → Option (Request → Call → Call)
  | auth => some authOnRequestReceived
  | form => some formOnRequestReceived
  | files => some filesOnRequestReceived
  | upload => some fun _ c => uploadAllReceived c
  | webApp => some webRequestReceived
  | ssdp => none

def setResponseHeaders : Cgi → Option (Request → Call → Bytes → Call)
  | ssdp => some fun h c _ => ssdpSendHeader h c
  | auth => some authSetResponseHeaders
  | form => some webAppendHeaders
  | files => some filesSetResponseHeader
  | webApp => some webAppendHeaders
  | upload => none

def readContent : Cgi → Option (Request → Call → Int → Content)
  | ssdp => some ssdpSending
  | auth => some webReadContent
  | form => some webReadContent
  | files => some filesReadOneFileInfo
  | webApp => some webReadContent
  | upload => none

def onAllSent : Cgi → Option (Call → Call)
  | auth => some webCloseFile
  | form => some webCloseFile
  | webApp => some webCloseFile
  | _ => none

def onFinished : Cgi → Option (Call → Call)
  | auth => some webCloseFile
  | webApp => some webCloseFile
  | _ => none

end Cgi

/-! ## Calls without content -/

/-- Run a callback, if the handler has it. -/
def Sys.invoke (s : Sys) (cb : Callback) (f : Cgi → Option (Call → Call)) : Sys :=
  match s.c.handler with
  | none => s
  | some cgi =>
    match f cgi with
    | none => s
    | some g => (s.note (.callback cgi cb)).ofCall (g s.call)

/-- `CGI_Finish(context)`. -/
def cgiFinish (s : Sys) : Sys := s.invoke .onFinished Cgi.onFinished

/-- `CGI_SetCgiHandler(context)`. -/
def cgiSetCgiHandler (s : Sys) : Sys :=
  let handler := Cgi.find s.c.requestPath
  let s := s.setRequest { s.c.toRequest with handler := handler }
  match handler with
  | some cgi => s.setResponse { s.c.toResponse with options := cgi.optionsAllowed }
  | none => s

/-- `CGI_HeaderReceived(context, header_line)`. -/
def cgiHeaderReceived (s : Sys) (line : Bytes) : Sys :=
  s.invoke .onHeaderReceived fun cgi => cgi.onHeaderReceived.map fun f c => f c line

/-- The method is one the working options allow. -/
def methodEnabled (h : Request) (o : Options) : Bool :=
  match h.requestMethod with
  | .get => o.getEnabled
  | .post => o.postEnabled
  | .none => false

/-- The end of `CGI_HeadersReceived`: nobody takes the request. -/
def cgiNobody (h : Request) (r : Response) : Response :=
  if r.result < 0 then r
  else if sessionTypes r.extension ∧ h.handler.isNone then
    { r.setResponsePath webDefaultPage with authorized := 0, result := codeRedirect }
  else if h.requestMethod = .get then { r with result := codeNotFound }
  else { r with result := -500 }

/-- `CGI_HeadersReceived(context)`. -/
def cgiHeadersReceived (s : Sys) : Sys :=
  let h := s.c.toRequest
  let r := s.c.toResponse
  if h.handler.isSome ∧ r.options.authRequired ∧ r.authorized ≠ codeOk then
    s.setResult r.authorized
  else if h.handler.isSome ∧ methodEnabled h r.options then
    s.invoke .onHeadersReceived fun cgi => cgi.onHeadersReceived.map fun f c => f h c
  else s.setResponse (cgiNobody h r)

/-- `CGI_ContentReceived(context, buffer, size)`. -/
def cgiContentReceived (s : Sys) (buffer : Bytes) (size : Int) : Sys × Int :=
  match s.c.handler with
  | none => (s, 0)
  | some cgi =>
    match cgi.onContentReceived with
    | none => (s, 0)
    | some f =>
      let k := f s.c.toRequest s.call buffer size
      let note := Act.content s.c.toRequest s.c.toResponse s.c.requestLength size k.2
      ((((s.note (.callback cgi .onContentReceived)).note note).ofCall k.1), k.2)

/-- `CGI_RequestReceived(context)`. -/
def cgiRequestReceived (s : Sys) : Sys :=
  s.invoke .onRequestReceived fun cgi => cgi.onRequestReceived.map fun f c => f s.c.toRequest c

/-! ## Response headers -/

/-- The header and the page of a redirect to `target`. -/
def redirectHeader (target : Bytes) : Bytes :=
  headerGeneric (ascii "200 OK") (ascii "text/html")
    ((redirectBody1.length + redirectBody2.length + target.length : Nat) : Int) (ascii "close")

def redirectBody (target : Bytes) : Bytes := redirectBody1 ++ target ++ redirectBody2

/-- The date line. -/
def dateLine (clock : Clock) : Bytes := ascii "Date: " ++ clock.text ++ crlf

/-- The first lines of `CGI_SetResponseHeaders`: the redirect header, if it is one. -/
def headersBegin (r : Response) : Response :=
  let r := r.putSend 0 [0]
  if r.result = codeRedirect then r.sprintfSend (redirectHeader r.responsePath) else r

/-- The header of a response whose handler wrote none. -/
def headersDefault (r : Response) (codeInfo : Bytes) : Response :=
  if at' r.mem 0 = 0 then
    r.sprintfSend (headerGeneric codeInfo (ascii "text/html") 0 connectionHeader) else r

/-- The date and server lines and the empty line, one `strcat` each. -/
def headersDate (r : Response) (clock : Clock) : Response :=
  ((((r.strcatSend (dateLine clock)).strcatSend (ascii "Server: ")).strcatSend
    serverHeader).strcatSend crlf).strcatSend crlf

/-- The redirect body. -/
def headersBody (r : Response) : Response :=
  if r.result = codeRedirect then
    ((r.strcatSend redirectBody1).strcatSend r.responsePath).strcatSend redirectBody2 else r

/-- The lines behind those of the handler, and the redirect body. -/
def headersFinish (w : World) (r : Response) (codeInfo : Bytes) : Response :=
  let r := headersBody (headersDate (headersDefault r codeInfo) w.clock)
  { r with bytesLeft := strlen r.mem }

/-- `CGI_SetResponseHeaders(context, HttpCodeInfo)`. -/
def cgiSetResponseHeaders (s : Sys) (codeInfo : Bytes) : Sys :=
  let before := { s.c.toResponse with peak := 0 }
  let s := s.setResponse (headersBegin before)
  let s := s.invoke .setResponseHeaders fun cgi =>
    cgi.setResponseHeaders.map fun f c => f s.c.toRequest c codeInfo
  let after := headersFinish s.w s.c.toResponse codeInfo
  (s.setResponse after).note (.headers s.c.toRequest before after)

/-! ## Response content -/

/-- The size a handler may fill: the block without the bytes left and two bytes, and
without ten more when the content is chunked. -/
def freeSize (h : Request) (r : Response) : Int :=
  h.sendMaxBlock - r.bytesLeft - 2 - if r.options.chunkEnabled then 10 else 0

/-- The chunk prefix: the CRLF that closes the chunk before, and the size. -/
def chunkPrefix (first : Bool) (size : Nat) : Bytes :=
  (if first then [] else crlf) ++ hexUpper size ++ crlf

def chunkTail : Bytes := ascii "\r\n0\r\n\r\n"

/-- The plain branch: the content is where it belongs. -/
def storePlain (r : Response) (pReadTo : Int) (k : Content) : Response :=
  let r := r.putSend pReadTo k.out
  if k.size < 0 then { r with dwOperStage := stageEnd }
  else { r with bytesLeft := r.bytesLeft + k.size }

/-- What follows the last chunk. -/
def chunkEnding (r : Response) : Bytes := if r.dwOperStage = stageEnd then chunkTail else []

/-- `n` bytes of content lie ten bytes behind `pReadTo`: the prefix goes in front of them,
the tail behind the last ones, and the whole chunk is moved to `pReadTo`. -/
def wrapChunk (r : Response) (pReadTo : Int) (first : Bool) (n : Nat) : Response :=
  let pre := chunkPrefix first n
  let ending := chunkEnding r
  let start := pReadTo + 10 - pre.length
  let r := (r.putSend start pre).putSend (start + (n + pre.length : Nat)) ending
  let size := n + pre.length + ending.length
  let r := r.putSend pReadTo (load r.mem start.toNat size)
  { r with bytesLeft := r.bytesLeft + (size : Nat) }

/-- The chunked branch: the content was written ten bytes further on. -/
def storeChunk (r : Response) (pReadTo : Int) (first : Bool) (k : Content) : Response :=
  let r := r.putSend (pReadTo + 10) k.out
  if 0 < k.size then wrapChunk r pReadTo first k.size.toNat else r

/-- The result of `CGI_LoadContentToSend` for what the handler returned. -/
def hasData (size : Int) : Int := if size < 0 then -1 else if size = 0 then 0 else 1

/-- The part of `CGI_LoadContentToSend` that calls `ReadContent`. -/
def readToSend (f : Request → Call → Int → Content) (s : Sys) : Sys × Int :=
  let h := s.c.toRequest
  let r := s.c.toResponse
  let k := f h s.call (freeSize h r)
  let first := r.dwOperStage = 0 ∧ r.dwOperIndex = 0
  let stored :=
    if r.options.chunkEnabled then storeChunk k.call.r r.bytesLeft first k
    else storePlain k.call.r r.bytesLeft k
  (s.ofCall { k.call with r := stored }, hasData k.size)

/-- The last block was acknowledged: `OnAllSent`. A null handler is dereferenced. -/
def cgiAllSent (s : Sys) : Sys :=
  if s.c.handler.isNone then s.crash else s.invoke .onAllSent Cgi.onAllSent

/-- The body of `CGI_LoadContentToSend`. -/
def loadContent (s : Sys) (caller : Caller) : Sys × Int :=
  if s.c.requestMethod ≠ .none ∧ stageEnd ≤ s.c.dwOperStage ∧ caller = .sent ∧
      s.c.total2Send ≤ s.c.totalSent then (cgiAllSent s, -1)
  else
    match s.c.handler with
    | none => (s, -1)
    | some cgi =>
      match cgi.readContent with
      | none => (s, -1)
      | some f =>
        if stageEnd ≤ s.c.dwOperStage then (s, 0)
        else readToSend f (s.note (.callback cgi .readContent))

/-- `CGI_LoadContentToSend(context, caller)`. -/
def cgiLoadContentToSend (s : Sys) (caller : Caller) : Sys × Int :=
  let before := { s.c.toResponse with peak := 0 }
  let k := loadContent (s.setResponse before) caller
  (k.1.note (.load s.w s.c.toRequest before k.1.c.toResponse k.2), k.2)

end Httpd

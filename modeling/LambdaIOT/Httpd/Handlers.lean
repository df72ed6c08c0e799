import LambdaIOT.Httpd.Web

/-!
# The CGI handlers `cgi_auth.c`, `cgi_files.c`, `cgi_form.c`, `cgi_upload.c`, `cgi_ssdp.c`

Each section holds the callbacks of one file. A callback that only logs is left out.
-/

namespace Httpd

open CMem

/-! ## `cgi_auth.c` -/

/-- `CheckUser(u, p)`: the password is not looked at. -/
def checkUser (u : Bytes) : Bool := hasPrefix u (ascii "admin") || hasPrefix u (ascii "user")

/-- Cut the string at `pos` at its first `&`. -/
def cutAt (m : Bytes) (pos : Nat) : Bytes :=
  match strstr (m.drop pos) (ascii "&") with
  | some i => store m (pos + i) [0]
  | none => m

/-- `AuthCheck(context)`: log in the user named in the posted data. -/
def authCheck (h : Request) (c : Call) : Call × Bool :=
  let app := c.r.appContext
  if at' app 0 ≠ 0 then
    match strstr app (ascii "username="), strstr app (ascii "password=") with
    | some u, some p =>
      let app := cutAt (cutAt app (u + 9)) (p + 9)
      let r := { c.r with mem := store c.r.mem maxSendBufSize app }
      if checkUser (app.drop (u + 9)) then
        let created := sessionCreate c.w.sessions c.w.tick h.ipRemote
        let c := { w := { c.w with sessions := created.1 }, r := { r with session := created.2 } }
        if created.2.isSome then
          ({ c with r := { c.r with token := cookieOf c.w.tick } }, true)
        else (c, false)
      else ({ c with r := r }, false)
    | _, _ => (c, false)
  else (c, false)

/-- `Auth_OnHeaders(context)`. -/
def authOnHeaders (c : Call) : Call :=
  { c with r := { c.r with
    mem := store c.r.mem maxSendBufSize (List.replicate maxAppContextSize 0) } }

/-- `Auth_OnPostData(context, buffer, size)`: collects what fits, consumes everything. -/
def authOnPostData (c : Call) (buffer : Bytes) (size : Int) : Call × Int :=
  if 0 < size then
    let len := strlen c.r.appContext
    let n := min size ((maxAppContextSize : Int) - len - 2)
    if n < 0 then ({ c with r := c.r.crash }, size)
    else ({ c with r := c.r.putApp len (strncpy buffer n.toNat) }, size)
  else (c, size)

def isLogin (h : Request) : Bool :=
  h.requestMethod == .post && hasPrefix h.requestPath webDefaultPage

/-- `Auth_OnRequestReceived(context)`. -/
def authOnRequestReceived (h : Request) (c : Call) : Call :=
  if hasPrefix h.requestPath webSessionCheck then
    { c with r := { c.r with result := if c.r.session.isNone then codeUnauthorized else codeOk } }
  else if hasPrefix h.requestPath webLogoutPage then
    { w := { c.w with sessions := sessionKill c.w.sessions c.r.session }
      r := { c.r.setResponsePath webDefaultPage with
        authorized := 0, token := [], result := codeRedirect } }
  else if isLogin h then
    let checked := authCheck h c
    let r := checked.1.r.setSsi SSIContext.zero
    let r := if checked.2 then { r.setResponsePath webAppPage with authorized := codeOk }
      else { r.setResponsePath webDefaultPage with authorized := 0 }
    { checked.1 with r := { r with result := codeRedirect } }
  else webRequestReceived h c

/-- The cookie lines of `Auth_SetResponseHeaders`. -/
def authTokenLines (h : Request) (r : Response) : Bytes :=
  if hasPrefix h.requestPath webLogoutPage then
    ascii "X-Auth-Token: SID=\r\nSet-Cookie: SID=; Path=/; HttpOnly; max-age=3600\r\n"
  else if isLogin h ∧ r.authorized = codeOk ∧ r.token ≠ [] then
    ascii "X-Auth-Token: " ++ r.token ++ ascii "\r\nSet-Cookie: " ++ r.token ++
      ascii "; Path=/; HttpOnly; max-age=3600\r\n"
  else []

/-- `Auth_SetResponseHeaders(context, HttpCodeInfo)`. -/
def authSetResponseHeaders (h : Request) (c : Call) (codeInfo : Bytes) : Call :=
  let lines := authTokenLines h c.r
  let c := if lines ≠ [] then { c with r := c.r.strcatSend lines } else c
  webAppendHeaders h c codeInfo

/-! ## `cgi_files.c` -/

def folderToList : Bytes :=
  ascii "D:/straight/straight-httpd/straight-httpd/straight-httpd/httpd/webroot/app/cache/"

/-- The `path=` argument of the query, if there is one. -/
def filesPathArgument (h : Request) : Option Bytes :=
  if 0 ≤ h.posQuestion then
    let query := h.requestPath.drop (h.posQuestion.toNat + 1)
    (strstr query (ascii "path=")).map fun i => cstr (query.drop (i + 5))
  else none

/-- The folder to list, as `strcat` builds it up in `_responsePath`. -/
def filesFilter (r : Response) (argument : Option Bytes) : Response :=
  let r := r.setResponsePath folderToList
  let r := match argument with
    | none => r
    | some p =>
      let r := r.setResponsePath (r.responsePath ++ if at' p 0 = 47 then p.drop 1 else p)
      if r.responsePath.getLast? = some 47 then r
      else r.setResponsePath (r.responsePath ++ ascii "/")
  r.setResponsePath (r.responsePath ++ ascii "*.*")

/-- `Files_OnRequestReceived(context)`; the directory is opened and closed again. -/
def filesOnRequestReceived (h : Request) (c : Call) : Call :=
  let r := c.r.setSsi { SSIContext.zero with valid := 1 }
  let r := filesFilter r (filesPathArgument h)
  let opened := c.w.fs.webFirstdir
  { w := { c.w with fs := (opened.1.webFclose opened.2).getD opened.1 }
    r := { r with options := { r.options with chunkEnabled := true } } }

/-- `Files_SetResponseHeader(context, HttpCodeInfo)`. -/
def filesSetResponseHeader (h : Request) (c : Call) (codeInfo : Bytes) : Call :=
  if h.requestMethod = .get ∧ c.r.result = codeOk then
    let line := headerChunked codeInfo (ascii "application/json") [] connectionHeader
    { c with r := c.r.sprintfSend line }
  else c

/-- Entries the listing shows: no `.`, and no `..` in the root. -/
def filesListed (responsePath name : Bytes) : Bool :=
  name ≠ [] && name ≠ ascii "." &&
    !(name == ascii ".." && responsePath.length == folderToList.length + 3)

/-- One entry of the listing, the `count`-th. -/
def filesItem (count : Int) (f : FileInfo) : Bytes :=
  (if count = 0 then ascii "\x7b\"result\":1, \"data\":[" else ascii ",") ++
    ascii "\x7b\"folder\":0" ++
    ascii ",\"name\":\"" ++ f.name ++ ascii "\"" ++
    ascii ",\"size\":" ++ decimalNat f.nSize ++
    ascii ",\"date\":" ++ decimalNat f.tLastModified ++ ascii "\x7d"

/-- The loop of `Files_ReadOneFileInfo` and its result: it ends with the folder. -/
def filesLoop (maxSize : Int) : Nat → Call → Nat → Bytes → Content
  | 0, c, _, out => ⟨c, if out = [] then -1 else out.length, out⟩
  | fuel + 1, c, fp, out =>
    if (out.length : Int) < maxSize - 200 then
      let first := c.r.dwOperStage = 0
      let r := c.r.nextStage
      let opened := if first then c.w.fs.webFirstdir else (c.w.fs, fp)
      if first ∧ opened.2 = 0 then
        let text := ascii "\x7b\"result\":0, \"data\":[]\x7d"
        ⟨{ c with r := { r with dwOperStage := stageEnd }.setSsi { r.ssi with fp := 0 } },
          text.length, text ++ [0]⟩
      else
        let next := if first then some (opened.1, some (fakeFile 1 0)) else opened.1.webReaddir fp
        match next with
        | none => ⟨{ c with r := c.r.crash }, 0, out⟩
        | some (fs, none) =>
          let text := out ++ ascii "]\x7d"
          let fs := (fs.webFclose fp).getD fs
          ⟨{ w := { c.w with fs := fs }
             r := { r with dwOperStage := stageEnd }.setSsi { r.ssi with fp := 0 } },
            text.length, text ++ [0]⟩
        | some (fs, some f) =>
          let r := if first then r.setSsi { r.ssi with fp := opened.2 } else r
          let w := { c.w with fs := fs }
          if filesListed r.responsePath f.name then
            filesLoop maxSize fuel { w := w, r := { r with dwTotal := r.dwTotal + 1 } } opened.2
              (out ++ filesItem r.dwTotal f)
          else filesLoop maxSize fuel { w := w, r := r } opened.2 out
    else ⟨c, if out = [] then -1 else out.length, if out = [] then [] else out ++ [0]⟩

/-- `Files_ReadOneFileInfo(context, buffer, maxSize)`. Every round moves on in the list
of fake files, so one round more than there are files is enough. -/
def filesReadOneFileInfo (h : Request) (c : Call) (maxSize : Int) : Content :=
  if h.requestMethod = .get then
    if c.r.dwOperStage = stageEnd then ⟨webCloseFile c, -1, []⟩
    else filesLoop maxSize (fakeFiles.length + 1) c c.r.ssi.fp []
  else ⟨c, -1, []⟩

/-! ## `cgi_form.c` -/

/-- `Form_OnHeadersReceived(context)`. -/
def formOnHeadersReceived (h : Request) (c : Call) : Call :=
  let c := if h.requestMethod = .get then
      { c with w := { c.w with dev := c.w.dev.loadConfig4Edit } } else c
  webOnFormHeaders c

/-- `Form_OnRequestReceived(context)`. -/
def formOnRequestReceived (h : Request) (c : Call) : Call :=
  let c := webRequestReceived h c
  let c := if h.requestMethod = .post then
      { c with w := { c.w with dev := c.w.dev.appyConfig } } else c
  { c with r := clearSendBuffer c.r }

/-! ## `cgi_upload.c` -/

def uploadToFolder : Bytes := folderToList

/-- Offset of the value of a header line: behind the colon and the blanks after it. -/
def headerValue (line : Bytes) : Bytes :=
  match (cstr line).dropWhile (· != 58) with
  | [] => []
  | _ :: rest => rest.dropWhile (· == 32)

/-- `Upload_OnHeaderReceived(context, header_line)`. The line is decoded in place, which
nothing reads afterwards. -/
def uploadOnHeaderReceived (c : Call) (line : Bytes) : Call :=
  if hasPrefix line (ascii "X-File-Name:") then
    { c with r := c.r.putApp 0 (uploadToFolder ++ cstr (decodeB64 (headerValue line)) ++ [0]) }
  else c

/-- `Upload_OnHeadersReceived(context)`, with `Dev_IsBusy` false and `Upload_Start`. -/
def uploadOnHeadersReceived (h : Request) (c : Call) : Call :=
  match h.requestMethod with
  | .get => { c with r := { c.r with result := codeNotFound } }
  | .post =>
    let opened := c.w.fs.webFopen c.r.appContext (ascii "wb")
    let r := { c.r with fileHandle := opened.2 }
    { w := { c.w with fs := opened.1 }
      r := if opened.2 = 0 then { r with result := -500 } else r }
  | .none => c

/-- `Upload_OnContentReceived(context, buffer, size)`; the file takes all it is given. -/
def uploadOnContentReceived (h : Request) (c : Call) (size : Int) : Call × Int :=
  let maxToConsume := min (h.contentLength - h.contentReceived) size
  if 0 < maxToConsume ∧ h.requestMethod = .post then
    if c.r.killing then
      ({ c with r := { c.r with killing := false, result := -500 } }, 0)
    else
      let eaten := FileSystem.webFwrite maxToConsume
      if 0 < eaten then
        ({ c with r := { c.r with tLastReceived := tickOrOne c.w.tick } }, eaten)
      else (c, 0)
  else (c, 0)

/-- `Upload_AllReceived(context)`. -/
def uploadAllReceived (c : Call) : Call :=
  match c.w.fs.webFclose c.r.fileHandle with
  | some fs => { c with w := { c.w with fs := fs } }
  | none => { c with r := c.r.crash }

/-! ## `cgi_ssdp.c` -/

/-- `SSDP_SendHeader(context, HttpCodeInfo)`. -/
def ssdpSendHeader (h : Request) (c : Call) : Call :=
  if h.requestMethod = .get then
    let line := headerChunked (ascii "200 OK") (ascii "text/xml; charset=\"utf-8\"")
      headerNocache connectionHeader
    { c with r := c.r.sprintfSend line }
  else c

/-- The text of each stage. -/
def ssdpPieces (w : World) : List Bytes :=
  let http := if w.listening443 then ascii "https://" else ascii "http://"
  let ip := dottedIP w.dev.workConfig.dwIP
  [ascii "<?xml version=\"1.0\"?>\r\n",
   ascii "<root xmlns=\"urn:schemas-upnp-org:device-1-0\">\r\n",
   ascii "<specVersion><major>1</major><minor>0</minor></specVersion>\r\n",
   ascii "<URLBase>" ++ http ++ ip ++ ascii "</URLBase>\r\n",
   ascii "<device>\r\n",
   ascii "<deviceType>urn:schemas-upnp-org:device:Basic:1</deviceType>\r\n",
   ascii "<friendlyName>" ++ getDeviceName ++ ascii "</friendlyName>\r\n",
   ascii "<presentationURL>" ++ http ++ ip ++ ascii "</presentationURL>\r\n",
   ascii "<manufacturer>" ++ getVendor ++ ascii "</manufacturer>\r\n",
   ascii "<manufacturerURL>" ++ getVendorURL ++ ascii "</manufacturerURL>\r\n",
   ascii "<modelDescription>" ++ getModel ++ ascii "</modelDescription>\r\n",
   ascii "<modelName>" ++ getModel ++ ascii "</modelName>\r\n",
   ascii "<modelNumber>" ++ getDeviceName ++ ascii " (" ++ getDeviceVersion ++
     ascii ")</modelNumber>\r\n",
   ascii "<modelURL>" ++ getModelURL ++ ascii "</modelURL>\r\n",
   ascii "<serialNumber>" ++ getDeviceSN ++ ascii "</serialNumber>\r\n",
   ascii "<UDN>uuid:" ++ getDeviceUUID ++ ascii "</UDN>\r\n",
   ascii "</device>\r\n</root>\r\n"]

/-- Run the stages that are left, as long as 128 bytes are free; the last one ends. -/
def ssdpStages (maxSize : Int) : List Bytes → Nat → Bytes → Nat × Bytes
  | [], _, out => (stageEnd, out)
  | piece :: rest, stage, out =>
    if maxSize - 128 < (out.length : Int) then (stage, out)
    else ssdpStages maxSize rest (stage + 1) (out ++ piece)

/-- `SSDP_Sending(context, buffer, maxSize)`. -/
def ssdpSending (h : Request) (c : Call) (maxSize : Int) : Content :=
  if h.requestMethod = .get then
    if c.r.dwOperStage = stageEnd then ⟨c, -1, [0]⟩
    else
      let s := ssdpStages maxSize ((ssdpPieces c.w).drop c.r.dwOperStage) c.r.dwOperStage []
      ⟨{ c with r := { c.r with dwOperStage := s.1 } }, s.2.length, s.2 ++ [0]⟩
  else ⟨c, 0, []⟩

end Httpd

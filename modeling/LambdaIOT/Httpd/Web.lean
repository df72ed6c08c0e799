import LambdaIOT.Httpd.Ssi

/-!
# `http_web.c`: files, forms and their response headers

The default callbacks for pages of the web root. `webReadContent` returns the value of
the C function and the bytes it writes from `buffer` on: it never reads them back, so
the caller stores them.
-/

namespace Httpd

open CMem

/-! ## The header templates of `http_core.c` -/

def headerNocache : Bytes :=
  ascii "Cache-Control: no-cache, no-store, must-revalidate\r\nPragma: no-cache\r\nExpires: 0\r\n"

def headerGeneric (code type : Bytes) (length : Int) (connection : Bytes) : Bytes :=
  ascii "HTTP/1.1 " ++ code ++ ascii "\r\nContent-Type: " ++ type ++ ascii "\r\nContent-Length: " ++
    decimal length ++ ascii "\r\nConnection: " ++ connection ++ ascii "\r\n"

def headerChunked (code type extra connection : Bytes) : Bytes :=
  ascii "HTTP/1.1 " ++ code ++ ascii "\r\nContent-Type: " ++ type ++
    ascii "\r\nTransfer-Encoding: chunked\r\n" ++ extra ++ ascii "Connection: " ++ connection ++
    ascii "\r\n"

def headerRange (first last total : Int) (type : Bytes) (length : Int) (connection : Bytes) :
    Bytes :=
  ascii "HTTP/1.1 206 Partial Content\r\nContent-Range: bytes " ++ decimal first ++ ascii "-" ++
    decimal last ++ ascii "/" ++ decimal total ++ ascii "\r\nContent-type: " ++ type ++
    ascii "\r\nContent-Length: " ++ decimal length ++ ascii "\r\nConnection: " ++ connection ++
    ascii "\r\n"

def headerGzip : Bytes := ascii "Content-Encoding: gzip\r\n"

def redirectBody1 : Bytes := ascii "<html><head/><body><script>location.href='"
def redirectBody2 : Bytes := ascii "';</script></body></html>"

/-! ## Posted forms -/

/-- `memset(_sendBuffer, 0, ..); _bytesLeft = 0`. -/
def clearSendBuffer (r : Response) : Response :=
  { r with mem := store r.mem 0 (List.replicate maxSendBufSize 0), bytesLeft := 0 }

/-- `WEB_OnFormHeaders(context)`. -/
def webOnFormHeaders (c : Call) : Call := { c with r := clearSendBuffer c.r }

/-- `URLDecode` of the string at `pos`. -/
def urlDecodeAt (m : Bytes) (pos : Nat) : Bytes := m.take pos ++ (urlDecode (m.drop pos)).1

/-- The variables of `ExtractFormData`; `p` and `ne` are offsets into the buffer. -/
structure FormScan where
  dev : Device
  mem : Bytes
  p : Nat
  ne : Option Nat

/-- `TAG_Setter` of the two decoded strings at `ns` and `vs`. -/
def FormScan.set (s : FormScan) (ns vs : Nat) : FormScan :=
  let mem := urlDecodeAt (urlDecodeAt s.mem ns) vs
  { s with mem := mem, dev := tagSetter s.dev (mem.drop ns) (mem.drop vs) }

/-- The loop of `ExtractFormData`: one `name=value&` a round. -/
def formLoop (nSize : Nat) : Nat → FormScan → FormScan
  | 0, s => s
  | fuel + 1, s =>
    if at' s.mem s.p ≠ 0 ∧ s.p < nSize then
      let ve := strstr (s.mem.drop s.p) (ascii "&")
      let ne := strstr (s.mem.drop s.p) (ascii "=")
      match ve, ne with
      | some v, some n =>
        let mem := store (store s.mem (s.p + n) [0]) (s.p + v) [0]
        let s' := { s with mem := mem, ne := some (s.p + n) }.set s.p (s.p + n + 1)
        formLoop nSize fuel { s' with p := s.p + v + 1 }
      | _, n => { s with ne := n.map (s.p + ·) }
    else s

/-- `ExtractFormData(buffer, nSize, nTotalRemain)` over the send buffer: the new device
and memory, and how many bytes are parsed. -/
def extractFormData (dev : Device) (mem : Bytes) (nSize : Nat) (nTotalRemain : Int) :
    Device × Bytes × Nat :=
  let s := formLoop nSize nSize ⟨dev, mem, 0, none⟩
  if 0 < nTotalRemain then (s.dev, s.mem, s.p)
  else
    match s.ne with
    | some n =>
      let s' := { s with mem := store s.mem n [0] }.set s.p (n + 1)
      (s'.dev, s'.mem, nSize)
    | none => (s.dev, s.mem, nSize)

/-- Store `consumed` posted bytes behind the unparsed ones and parse. -/
def formAccept (h : Request) (c : Call) (buffer : Bytes) (consumed : Int) : Call :=
  let nRemain := h.contentLength - h.contentReceived - consumed
  let r := c.r.putSend c.r.bytesLeft (buffer.take consumed.toNat)
  let r := { r with
    bytesLeft := r.bytesLeft + consumed, tLastReceived := tickOrOne c.w.tick }
  let parsed := extractFormData c.w.dev r.mem r.bytesLeft.toNat nRemain
  let left : Int := r.bytesLeft - (parsed.2.2 : Nat)
  let r := { r with mem := parsed.2.1, bytesLeft := left }
  { w := { c.w with dev := parsed.1 }
    r := if 0 < parsed.2.2 ∧ 0 < left then r.putSend 0 (load r.mem parsed.2.2 left.toNat) else r }

/-- `WEB_OnFormReceived(context, buffer, size)`. -/
def webOnFormReceived (h : Request) (c : Call) (buffer : Bytes) (size : Int) : Call × Int :=
  let consumed := min (h.contentLength - h.contentReceived) size
  if 0 < consumed ∧ h.requestMethod = .post then
    if c.r.killing then
      ({ c with r := { c.r with killing := false, result := -500 } }, 0)
    else
      let nFree := (maxSendBufSize : Int) - c.r.bytesLeft - 32
      let consumed := min consumed nFree
      if 0 < consumed then (formAccept h c buffer consumed, consumed) else (c, consumed)
  else (c, consumed)

/-! ## Pages -/

/-- The response path `/` stands for the default page. -/
def defaultPath (r : Response) : Response :=
  if r.responsePath = ascii "/" then
    { r.setResponsePath webDefaultPage with extension := ascii "html" }
  else r

/-- The extension of a page that may hold tags. -/
def isSsiExtension (extension : Bytes) : Bool :=
  hasPrefix extension (ascii "shtml") || hasPrefix extension (ascii "shtm") ||
    hasPrefix extension (ascii "ssi")

/-- The file starts with `1F 8B 08`. -/
def isGzip (flag : Option Bytes) : Bool :=
  match flag with
  | some [0x1F, 0x8B, 0x08] => true
  | _ => false

/-- What `WEB_RequestReceived` does with an open file `x.fp`. -/
def webFileOpened (h : Request) (c : Call) (x : SSIContext) : Call :=
  match c.w.fs.webFread x.fp 3 with
  | none => { c with r := c.r.crash }
  | some (fs, flag) =>
    let fs := if flag.isSome then (fs.webFseek x.fp 0).getD fs else fs
    let options := { c.r.options with gzip := c.r.options.gzip || isGzip flag }
    let tFile := fs.webFtime c.r.responsePath
    let w := { c.w with fs := fs }
    if x.ssi = 0 ∧ tFile ≠ 0 ∧ h.ifModified ≠ 0 ∧ (tFile : Int) ≤ h.ifModified then
      let x := { x with lastModified := store x.lastModified 0 (ascii "Last-Modified: " ++ [0]) }
      { w := w, r := { c.r with options := options, result := codeNotModified }.setSsi x }
    else
      let line :=
        if x.ssi ≠ 0 then []
        else if tFile = 0 then 0 :: ascii "ast-Modified: " ++ [0]
        else ascii "Last-Modified: " ++ crlf ++ [0]
      let x := { x with lastModified := store x.lastModified 0 line }
      { w := w
        r := { c.r with
          options := options
          fileHandle := x.fp
          dwTotal := (fs.webFsize x.fp).getD 0 }.setSsi x }

/-- `WEB_RequestReceived(context)`. -/
def webRequestReceived (h : Request) (c : Call) : Call :=
  let r := defaultPath c.r
  let ssi := isSsiExtension r.extension
  let r := { r with
    options := { r.options with
      chunkEnabled := r.options.chunkEnabled || (ssi && h.handler.isSome) } }
  let opened := c.w.fs.webFopen r.responsePath (ascii "rb")
  let x := { SSIContext.zero with valid := 1, ssi := if ssi then 1 else 0, fp := opened.2 }
  if opened.2 ≠ 0 then webFileOpened h { w := { c.w with fs := opened.1 }, r := r } x
  else { c with r := { r with result := codeNotFound }.setSsi { x with valid := 0 } }

/-! ## Headers -/

/-- Write the first header line, unless the handler has written one already. -/
def beginHeaders (r : Response) (line : Bytes) : Response :=
  if strlen r.mem = 0 then r.sprintfSend line else r

/-- The range as the file bounds it. -/
def clipRange (r : Response) : Response := { r with rangeTo := min r.rangeTo r.dwTotal }

/-- The range branch of `WEB_AppendHeaders`: the range becomes the content. Its size is a `long`,
and the difference from a far negative start wraps. -/
def appendRange (h : Request) (c : Call) : Call :=
  let r := clipRange c.r
  let size := wrapLong (r.rangeTo - h.rangeFrom)
  let line := headerRange h.rangeFrom (r.rangeTo - 1) r.dwTotal (getContentType r.extension) size
    connectionHeader
  let r := { beginHeaders r line with dwTotal := size }
  match c.w.fs.webFseek r.fileHandle h.rangeFrom with
  | some fs => { w := { c.w with fs := fs }, r := r }
  | none => { c with r := r.crash }

/-- `chunkHeader` of `WEB_AppendHeaders`. -/
def chunkHeader (h : Request) (r : Response) : Bool :=
  decide (0 < r.ssi.ssi) || (h.handler.isSome && r.options.chunkEnabled)

/-- The header kind of `WEB_AppendHeaders`: range, chunked or with a length. -/
def appendKind (h : Request) (c : Call) (codeInfo : Bytes) : Call :=
  if h.rangeFrom < c.r.rangeTo then appendRange h c
  else
    let type := getContentType c.r.extension
    let line :=
      if chunkHeader h c.r then headerChunked codeInfo type [] connectionHeader
      else headerGeneric codeInfo type c.r.dwTotal connectionHeader
    { c with r := beginHeaders c.r line }

/-- The `Content-Encoding` line. -/
def appendGzip (r : Response) : Response :=
  if r.options.gzip then r.strcatSend headerGzip else r

/-- `_lastModified` of the context, as a string. -/
def lastModifiedOf (r : Response) : Bytes := cstr (r.appContext.drop 8)

/-- The date of the file, or a ban on caching. -/
def appendModified (r : Response) : Response :=
  if lastModifiedOf r ≠ [] then r.strcatSend (lastModifiedOf r) else r.strcatSend headerNocache

def headerMaxAge : Bytes := ascii "Cache-Control: max-age=3600\r\n"

/-- How long a page without tags may be cached. -/
def appendMaxAge (r : Response) : Response :=
  if r.ssi.ssi = 0 ∧ (strstr r.mem (ascii "no-cache")).isNone then r.strcatSend headerMaxAge else r

/-- The cache headers of `WEB_AppendHeaders`. -/
def appendCaching (r : Response) : Response := appendMaxAge (appendModified (appendGzip r))

/-- `WEB_AppendHeaders(context, HttpCodeInfo)`. -/
def webAppendHeaders (h : Request) (c : Call) (codeInfo : Bytes) : Call :=
  let c := appendKind h c codeInfo
  { c with r := appendCaching c.r }

/-! ## Content -/

/-- A `ReadContent` callback: the call after it, the value returned, the bytes written
from `buffer` on. -/
structure Content where
  call : Call
  size : Int
  out : Bytes

/-- The stage after a read of `WEB_ReadContent`. -/
def webAdvance (r : Response) (ssi cacheOffset : Int) : Response :=
  if r.dwTotal ≤ r.dwOperIndex ∧ ¬(0 < ssi ∧ 0 < cacheOffset) then
    { r with dwOperStage := stageEnd }
  else r.nextStage

/-- A page without tags: the next `maxSize` bytes of the file. -/
def webReadPlain (c : Call) (maxSize : Int) : Content :=
  let x := c.r.ssi
  let maxRead := min (c.r.dwTotal - c.r.dwOperIndex) maxSize
  if x.fp = 0 then
    -- `_buffer` is never set: only an empty copy out of it is harmless
    if maxRead = 0 then ⟨{ c with r := webAdvance c.r x.ssi x.cacheOffset }, 0, []⟩
    else ⟨{ c with r := c.r.crash }, 0, []⟩
  else
    match c.w.fs.webFread x.fp maxRead with
    | none => ⟨{ c with r := c.r.crash }, 0, []⟩
    | some (fs, none) => ⟨{ w := { c.w with fs := fs }, r := { c.r with result := -500 } }, 0, []⟩
    | some (fs, some bs) =>
      let r := { c.r with dwOperIndex := c.r.dwOperIndex + bs.length }
      ⟨{ w := { c.w with fs := fs }, r := webAdvance r x.ssi x.cacheOffset }, bs.length, bs⟩

/-- The state of the loop over a page with tags. -/
structure SsiRead where
  fs : FileSystem
  dwOperIndex : Int
  scan : SsiScan
  failed : Bool

/-- One round: fill the cache, scan it, shift it. -/
def ssiRound (dev : Device) (dwTotal maxSize : Int) (s : SsiRead) : SsiRead :=
  let x := s.scan.x
  let maxRead := min (dwTotal - s.dwOperIndex) (64 - x.cacheOffset)
  if x.fp = 0 then { s with scan := { s.scan with bad := true } }
  else
    match s.fs.webFread x.fp maxRead with
    | none => { s with scan := { s.scan with bad := true } }
    | some (fs, none) => { s with fs := fs, failed := true }
    | some (fs, some bs) =>
      let x := { x with
        cache := store x.cache x.cacheOffset.toNat bs
        cacheOffset := x.cacheOffset + bs.length }
      let scan := SsiScan.loop dev maxSize x.cacheOffset.toNat { s.scan with x := x }
      { fs := fs, dwOperIndex := s.dwOperIndex + bs.length, scan := scan.shift, failed := false }

/-- `while (_dwOperIndex < _dwTotal)`; a loop that makes no progress is `bad`. -/
def ssiLoop (dev : Device) (dwTotal maxSize : Int) : Nat → SsiRead → SsiRead
  | 0, s =>
    if s.dwOperIndex < dwTotal ∧ s.scan.ready = false then
      { s with scan := { s.scan with bad := true } }
    else s
  | fuel + 1, s =>
    if s.dwOperIndex < dwTotal ∧ s.scan.ready = false ∧ s.scan.bad = false ∧ s.failed = false then
      ssiLoop dev dwTotal maxSize fuel (ssiRound dev dwTotal maxSize s)
    else s

/-- A page with tags. A round that reads nothing empties the cache, so two rounds for
each byte left in the file are enough. -/
def webReadSsi (c : Call) (maxSize : Int) : Content :=
  let start : SsiRead := ⟨c.w.fs, c.r.dwOperIndex, ⟨c.r.ssi, [], 0, false, false⟩, false⟩
  let fuel := 2 * (c.r.dwTotal - c.r.dwOperIndex).toNat + 2
  let s := ssiLoop c.w.dev c.r.dwTotal maxSize fuel start
  let r := { c.r with dwOperIndex := s.dwOperIndex }.setSsi s.scan.x
  let w := { c.w with fs := s.fs }
  if s.scan.bad then ⟨{ w := w, r := r.crash }, 0, []⟩
  else if s.failed then ⟨{ w := w, r := { r with result := -500 } }, 0, s.scan.out⟩
  else ⟨{ w := w, r := webAdvance r s.scan.x.ssi s.scan.x.cacheOffset }, s.scan.out.length,
    s.scan.out⟩

/-- The file is read to its end: what is still in the cache goes out, then nothing. -/
def webReadEnd (c : Call) : Content :=
  let x := c.r.ssi
  let done := { c.r with dwOperStage := stageEnd }
  if 0 < x.ssi ∧ 0 < x.cacheOffset then
    let out := load c.r.appContext 152 x.cacheOffset.toNat
    if out.length = x.cacheOffset.toNat then
      ⟨{ c with r := done.setSsi { x with cacheOffset := 0 } }, x.cacheOffset, out⟩
    else ⟨{ c with r := c.r.crash }, 0, []⟩
  else ⟨{ c with r := done }, -1, []⟩

/-- `WEB_ReadContent(context, buffer, maxSize)`. -/
def webReadContent (h : Request) (c : Call) (maxSize : Int) : Content :=
  if h.requestMethod = .none then ⟨c, -1, []⟩
  else if c.r.dwTotal - c.r.dwOperIndex = 0 then webReadEnd c
  else if c.r.ssi.ssi = 0 then webReadPlain c maxSize
  else webReadSsi c maxSize

/-- `WEB_AllSent(context)` and `WEB_Finished(context)`. -/
def webCloseFile (c : Call) : Call :=
  let x := c.r.ssi
  if x.fp ≠ 0 then
    match c.w.fs.webFclose x.fp with
    | some fs => { w := { c.w with fs := fs }, r := c.r.setSsi { x with fp := 0 } }
    | none => { c with r := c.r.crash }
  else c

end Httpd

import LambdaIOT.Httpd.Cgi

/-!
# Request headers: the line parser of `HttpRequestProc`

The loop looks for CRLF in the receive buffer and takes one line at a time. It cuts each
line in place (the CR becomes NUL) and some fields are read past that NUL, so the lines
are parsed in the buffer as it then is: `tail` is the buffer from the line on.
-/

namespace Httpd

open CMem

/-! ## The request line -/

/-- Copy the path, up to ` HTTP/1.` or for `n` bytes; blanks in front are skipped and
what does not fit is dropped. The second part is the version. -/
def scanPath : Nat → Bytes → Bytes → Bytes × Option Bytes
  | 0, _, path => (path, none)
  | n + 1, rest, path =>
    if (ascii " HTTP/1.").isPrefixOf rest then (path, some (load rest 6 3))
    else
      let b := at' rest 0
      scanPath n (rest.drop 1)
        (if path = [] ∧ b = 32 then path else if path.length < 126 then path ++ [b] else path)

/-- The loop of `ParseQueryString`. `_extension[8]` lies in front of `_requestPath[128]`
and is written without a bound, so both are one memory `m`. -/
def parseQueryLoop : Nat → Bytes → Nat → Bool → Int → Nat → Bytes × Int
  | 0, m, _, _, iQuestion, _ => (m, iQuestion)
  | fuel + 1, m, i, dot, iQuestion, len =>
    if i < strlen (m.drop 8) then
      let c := at' m (8 + i)
      if c = 46 then
        if iQuestion < 0 then parseQueryLoop fuel (store m 0 [0]) (i + 1) true iQuestion 0
        else parseQueryLoop fuel m (i + 1) dot iQuestion len
      else if c = 63 then
        parseQueryLoop fuel m (i + 1) dot (if iQuestion < 0 then i else iQuestion) len
      else if c = 35 then parseQueryLoop fuel m (i + 1) dot iQuestion len
      else if c = 47 then
        if iQuestion < 0 then parseQueryLoop fuel (store m 0 [0]) (i + 1) false iQuestion 0
        else parseQueryLoop fuel m (i + 1) dot iQuestion len
      else if dot ∧ iQuestion < 0 then
        parseQueryLoop fuel (store m len [c, 0]) (i + 1) dot iQuestion (len + 1)
      else parseQueryLoop fuel m (i + 1) dot iQuestion len
    else (m, iQuestion)

/-- `ParseQueryString` of a path array: the extension, the path, `_posQuestion`. -/
def parseQueryString (requestPath : Bytes) : Bytes × Bytes × Int :=
  let s := parseQueryLoop 128 (List.replicate 8 0 ++ requestPath) 0 false (-1) 0
  let m := if 0 ≤ s.2 then store s.1 (8 + s.2.toNat) [0] else s.1
  (cstr m, m.drop 8, s.2)

/-- The method of a request line, and where its path starts. -/
def parseMethod (tail : Bytes) : Option (Method × Nat) :=
  if (ascii "GET ").isPrefixOf tail then some (.get, 4)
  else if (ascii "POST ").isPrefixOf tail then some (.post, 5)
  else none

/-- What a request line of `n` bytes does to the request. -/
def requestLineRequest (h : Request) (tail : Bytes) (n : Nat) (method : Method) (iSkip : Nat) :
    Request × Bytes :=
  let scanned := scanPath (n - iSkip) (tail.drop iSkip) []
  let path := store h.requestPath 0 (scanned.1 ++ [0])
  let decoded := urlDecode path
  let query := parseQueryString (store decoded.1 decoded.2 [0])
  ({ h with
      requestMethod := method
      ver := scanned.2.getD h.ver
      requestPath := query.2.1
      posQuestion := query.2.2
      checkAlive := hasPrefix query.2.1 webSessionCheck }, query.1)

/-- The first line: method, path, handler. An unknown method is an error. -/
def requestLine (s : Sys) (tail : Bytes) (n : Nat) : Sys :=
  match parseMethod tail with
  | none => s.setResult (-500)
  | some (method, iSkip) =>
    let parsed := requestLineRequest s.c.toRequest tail n method iSkip
    let r := { s.c.toResponse with
      mem := store s.c.mem maxSendBufSize (List.replicate maxAppContextSize 0)
      extension := parsed.2 }
    let s := (s.setRequest parsed.1).setResponse (r.setResponsePath (cstr parsed.1.requestPath))
    cgiSetCgiHandler (s.note (.requestLine (tail.take n)))

/-! ## Header lines -/

/-- `strstr` finds one of the two spellings. -/
def mentions (s a b : Bytes) : Bool := (strstr s a).isSome || (strstr s b).isSome

/-- `Range:`: the first byte, and the byte behind the last one. -/
def parseRange (tail : Bytes) : Int × Int :=
  let range : Int × Int :=
    match strstr (tail.drop 6) (ascii "bytes=") with
    | none => (0, 0)
    | some p =>
      let first := tail.drop (6 + p + 7)
      match strstr first (ascii "-") with
      | none => (atol first, 0)
      | some q =>
        (atol first, if isDigit (at' first (q + 1)) then wrapLong (atol (first.drop (q + 1)) + 1)
          else 0x7FFFFFFF)
  if range.1 < range.2 then range else (0, 0)

/-- The value of the token lines: behind the colon and the blanks, within the line. -/
def tokenValue (line : Bytes) : Bytes :=
  match line.dropWhile (· != 58) with
  | [] => []
  | _ :: rest => (cstr (rest.dropWhile (· == 32))).take 126

/-- A header line of `n` bytes behind the request line. -/
def headerLine (s : Sys) (tail : Bytes) (n : Nat) : Sys :=
  let h := s.c.toRequest
  let r := s.c.toResponse
  if hasPrefix tail (ascii "Content-Length:") then
    s.setRequest { h with contentLength := atol (tail.drop 15), contentReceived := 0 }
  else if hasPrefix tail (ascii "Connection:") then
    s.setRequest { h with
      keepalive := mentions (tail.drop 11) (ascii "keep-alive") (ascii "Keep-Alive") }
  else if hasPrefix tail (ascii "Transfer-Encoding:") then
    s.setRequest { h with
      chunked := mentions (tail.drop 18) (ascii "chunked") (ascii "Chunked") }
  else if hasPrefix tail (ascii "Expect:") then
    s.setRequest { h with
      expect00 := mentions (tail.drop 7) (ascii "100-continue") (ascii "100-Continue") }
  else if hasPrefix tail (ascii "If-Modified-Since:") then
    s.setRequest { h with ifModified := parseHttpDate (tail.drop 19) }
  else if hasPrefix tail (ascii "Range:") then
    let range := parseRange tail
    (s.setRequest { h with rangeFrom := range.1 }).setResponse { r with rangeTo := range.2 }
  else if hasPrefix tail (ascii "X-Auth-Token:") || hasPrefix tail (ascii "Cookie:") then
    s.setResponse { r with token := tokenValue (tail.take n) }
  else cgiHeaderReceived (s.note (.headerLine (cstr tail))) tail

/-- The empty line: the request is complete, the response starts from nothing. -/
def endOfHeaders (s : Sys) : Sys :=
  let r := s.c.toResponse
  let s := if s.c.requestMethod = .none then s.setResult (-500) else s
  let s := s.setRequest { s.c.toRequest with
    state := .headerDone, sending := false, total2Send := 0, totalSent := 0 }
  s.setResponse { s.c.toResponse with
    authorized := 0, dwOperIndex := 0, dwOperStage := 0, bytesLeft := 0, mem := store r.mem 0 [0] }

/-! ## The loop over the buffer -/

/-- The variables of the loop: the buffer with its lines cut, where the current line
starts, whether the empty line was reached, whether the loop was left. -/
structure LineScan where
  s : Sys
  buf : Bytes
  nLinePos : Nat
  afterHeader : Bool
  stop : Bool

/-- A CRLF at index `i`. -/
def LineScan.line (l : LineScan) (i : Nat) : LineScan :=
  if i = l.nLinePos then
    { l with s := endOfHeaders l.s, nLinePos := i + 2, afterHeader := true, stop := true }
  else
    let buf := store l.buf i [0]
    let tail := buf.drop l.nLinePos
    let n := i - l.nLinePos
    if l.s.c.requestMethod = .none then
      let s := requestLine l.s tail n
      if s.c.requestMethod = .none then { l with s := s, buf := buf, stop := true }
      else { l with s := s, buf := buf, nLinePos := i + 2 }
    else { l with s := headerLine l.s tail n, buf := buf, nLinePos := i + 2 }

/-- `for (i; i < size-1; i ++)`, with `k` indices to go. -/
def lineLoop : Nat → Nat → LineScan → LineScan
  | 0, _, l => l
  | k + 1, i, l =>
    if l.stop then l
    else if at' l.buf i = 13 ∧ at' l.buf (i + 1) = 10 then lineLoop k (i + 1) (l.line i)
    else lineLoop k (i + 1) l

/-- The scan of the first `size` bytes of the buffer. -/
def parseScan (s : Sys) (size : Int) : LineScan :=
  lineLoop (size - 1).toNat 0 ⟨s, s.c.httpRequestBuffer, 0, false, false⟩

/-- Shift the lines out of the buffer; a full buffer without a line is cut to half.
`arrived` is the buffer before the lines were cut. -/
def LineScan.shift (l : LineScan) (arrived : Bytes) : RequestContext :=
  let c : RequestContext := { l.s.c with httpRequestBuffer := l.buf }
  if l.nLinePos = 0 then
    if c.maxLevel ≤ c.requestLength then
      let n := c.requestLength.tdiv 2
      c.shiftOut n (arrived.take n.toNat)
    else c
  else c.shiftOut l.nLinePos (arrived.take l.nLinePos)

/-- Parse the lines in the buffer and shift them out. The result says whether the header
section is complete. -/
def parseHeader (s : Sys) (size : Int) : Sys × Bool :=
  let l := parseScan s size
  ({ l.s with c := l.shift s.c.httpRequestBuffer }, l.afterHeader)

end Httpd

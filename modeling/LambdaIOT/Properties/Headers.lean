import LambdaIOT.Httpd.Logged

/-!
# The capacity of the response header

`CGI_SetResponseHeaders` and the handler build the header with unbounded `sprintf` and
`strcat` calls. `HeaderAt` bounds the string while it grows: each piece adds its length, and
as long as the sum stays below `MAX_SEND_BUF_SIZE` neither the application context nor the
end of the buffer is touched. The lengths of the pieces are fixed but for a few fields, so
`HeaderRoom` says in numbers what these may take.

The header of a page and the header of a redirect never fit together: a redirect through a
handler that appends page headers takes at least 307 bytes.
-/

namespace Httpd

open CMem Lwip

/-! ## A growing header -/

/-- `r` is `b` with a header of at most `n` bytes built into its send buffer. -/
structure HeaderAt (b : Response) (n : Nat) (r : Response) : Prop where
  frame : HeaderFrame b r
  length : r.mem.length = memSize
  context : r.mem.drop maxSendBufSize = b.mem.drop maxSendBufSize
  string : strlen r.mem ≤ n
  peak : r.peak ≤ maxSendBufSize

namespace HeaderAt

theorem mono {b r : Response} {n k : Nat} (h : HeaderAt b n r) (hle : n ≤ k) : HeaderAt b k r :=
  { h with string := h.string.trans hle }

/-- A write of a string that ends in front of the application context. -/
theorem put {b r : Response} {n k : Nat} {s : Bytes} (h : HeaderAt b n r)
    (hroom : k + s.length < maxSendBufSize) :
    HeaderAt b (k + s.length) (r.putSend k (s ++ [0])) := by
  have hlen : (s ++ [0]).length = s.length + 1 := List.length_append
  have hmem : memSize = 512 := rfl
  have hbuf : maxSendBufSize = 256 := rfl
  have hfits : Response.sendFits (k : Int) (s ++ [0]) := .inr ⟨Int.natCast_nonneg k, by
    rw [hlen]
    omega⟩
  have hput : (r.putSend k (s ++ [0])).mem = store r.mem k (s ++ [0]) := by
    rw [Response.putSend, if_pos hfits]
    rfl
  refine ⟨h.frame.trans (.putSend ..), ?_, ?_, ?_, ?_⟩
  · rw [hput, length_store]
    exact h.length
  · rw [hput, drop_store (by rw [hlen]; omega)]
    exact h.context
  · rw [hput]
    exact strlen_store_le (by rw [h.length]; omega)
  · show (if _ then _ else max r.peak (k + ((s ++ [0]).length : Nat) : Int).toNat) ≤ _
    rw [if_neg (by simp), hlen]
    have := h.peak
    omega

theorem sprintf {b r : Response} {n : Nat} {s : Bytes} (h : HeaderAt b n r)
    (hroom : s.length < maxSendBufSize) : HeaderAt b s.length (r.sprintfSend s) :=
  (h.put (k := 0) (by omega)).mono (by omega)

theorem strcat {b r : Response} {n : Nat} {s : Bytes} (h : HeaderAt b n r)
    (hroom : n + s.length < maxSendBufSize) : HeaderAt b (n + s.length) (r.strcatSend s) := by
  have hstring := h.string
  exact (h.put (k := strlen r.mem) (by omega)).mono (by omega)

/-- Fields outside the header change with it. -/
theorem clipRange {b r : Response} {n : Nat} (h : HeaderAt b n r) :
    HeaderAt b n (clipRange r) where
  frame := h.frame.trans (.clipRange _)
  length := h.length
  context := h.context
  string := h.string
  peak := h.peak

theorem setDwTotal {b r : Response} {n : Nat} (h : HeaderAt b n r) (dwTotal : Int) :
    HeaderAt b n { r with dwTotal := dwTotal } where
  frame := h.frame.trans (.setDwTotal ..)
  length := h.length
  context := h.context
  string := h.string
  peak := h.peak

theorem crash {b r : Response} {n : Nat} (h : HeaderAt b n r) : HeaderAt b n r.crash where
  frame := h.frame.trans (.crash _)
  length := h.length
  context := h.context
  string := h.string
  peak := h.peak

/-! What the header leaves alone. -/

theorem result {b r : Response} {n : Nat} (h : HeaderAt b n r) : r.result = b.result := by
  obtain ⟨_, _, _, _, _, rfl, _⟩ := h.frame
  rfl

theorem responsePath {b r : Response} {n : Nat} (h : HeaderAt b n r) :
    r.responsePath = b.responsePath := by
  obtain ⟨_, _, _, _, _, rfl, _⟩ := h.frame
  rfl

theorem gzip {b r : Response} {n : Nat} (h : HeaderAt b n r) :
    r.options.gzip = b.options.gzip := by
  obtain ⟨_, _, _, _, _, rfl, _⟩ := h.frame
  rfl

theorem ssi {b r : Response} {n : Nat} (h : HeaderAt b n r) : r.ssi = b.ssi := by
  rw [Response.ssi, Response.appContext, h.context]
  rfl

theorem lastModified {b r : Response} {n : Nat} (h : HeaderAt b n r) :
    lastModifiedOf r = lastModifiedOf b := by
  rw [lastModifiedOf, Response.appContext, h.context]
  rfl

end HeaderAt

/-- The cleared buffer that the header starts from. -/
theorem headerAt_clear {b : Response} (hmem : b.mem.length = memSize) (hpeak : b.peak = 0) :
    HeaderAt b 0 (b.putSend 0 [0]) := by
  have hstart : HeaderAt b memSize b := by
    refine ⟨.refl b, hmem, rfl, ?_, by rw [hpeak]; exact Nat.zero_le _⟩
    rw [← hmem]
    exact strlen_le _
  exact hstart.put (k := 0) (s := []) (by decide)

/-! ## The lines behind those of the handler -/

theorem length_dateLine (clock : Clock) : (dateLine clock).length = 37 := by
  have h1 : (ascii "Date: ").length = 6 := rfl
  have h2 : crlf.length = 2 := rfl
  rw [dateLine, List.length_append, List.length_append, clock.length_text, h1, h2]

theorem headerAt_date {b r : Response} {n : Nat} (clock : Clock) (h : HeaderAt b n r)
    (hroom : n + 61 < maxSendBufSize) : HeaderAt b (n + 61) (headersDate r clock) := by
  have hserver : (ascii "Server: ").length = 8 := rfl
  have hname : serverHeader.length = 12 := rfl
  have hcrlf : crlf.length = 2 := rfl
  have h1 := h.strcat (s := dateLine clock) (by rw [length_dateLine]; omega)
  rw [length_dateLine] at h1
  have h2 := h1.strcat (s := ascii "Server: ") (by rw [hserver]; omega)
  rw [hserver] at h2
  have h3 := h2.strcat (s := serverHeader) (by rw [hname]; omega)
  rw [hname] at h3
  have h4 := h3.strcat (s := crlf) (by rw [hcrlf]; omega)
  rw [hcrlf] at h4
  have h5 := h4.strcat (s := crlf) (by rw [hcrlf]; omega)
  rw [hcrlf] at h5
  exact h5.mono (by omega)

/-- The redirect body adds 67 bytes and the path. -/
theorem headerAt_body {b r : Response} {n : Nat} (h : HeaderAt b n r)
    (hroom : b.result = codeRedirect → n + 67 + b.responsePath.length < maxSendBufSize) :
    ∃ k, HeaderAt b k (headersBody r) := by
  unfold headersBody
  split
  · rename_i hredirect
    rw [h.result] at hredirect
    have hlen := hroom hredirect
    have h1 : redirectBody1.length = 42 := rfl
    have h2 : redirectBody2.length = 25 := rfl
    have hb1 := h.strcat (s := redirectBody1) (by omega)
    have hb2 := hb1.strcat (s := r.responsePath) (by rw [h.responsePath]; omega)
    have hb3 := hb2.strcat (s := redirectBody2) (by rw [h.responsePath]; omega)
    exact ⟨_, hb3⟩
  · exact ⟨n, h⟩

/-- Everything behind the first lines. -/
theorem headerAt_finish {b r : Response} {n : Nat} {codeInfo : Bytes} (w : World)
    (h : HeaderAt b n (headersDefault r codeInfo)) (hroom : n + 61 < maxSendBufSize)
    (hbody : b.result = codeRedirect → n + 128 + b.responsePath.length < maxSendBufSize) :
    (headersFinish w r codeInfo).peak ≤ maxSendBufSize := by
  have hdate := headerAt_date w.clock h hroom
  obtain ⟨m, hfinal⟩ := headerAt_body hdate (by omega)
  exact hfinal.peak

/-! ## The first lines -/

/-- Length of a header with a content length. -/
theorem length_headerGeneric (code type : Bytes) (length : Int) :
    (headerGeneric code type length connectionHeader).length =
      64 + code.length + type.length + (decimal length).length := by
  have h1 : (ascii "HTTP/1.1 ").length = 9 := rfl
  have h2 : (ascii "\r\nContent-Type: ").length = 16 := rfl
  have h3 : (ascii "\r\nContent-Length: ").length = 18 := rfl
  have h4 : (ascii "\r\nConnection: ").length = 14 := rfl
  have h5 : connectionHeader.length = 5 := rfl
  have h6 : (ascii "\r\n").length = 2 := rfl
  simp only [headerGeneric, List.length_append, h1, h2, h3, h4, h5, h6]
  omega

theorem length_headerChunked (code type extra : Bytes) :
    (headerChunked code type extra connectionHeader).length =
      74 + code.length + type.length + extra.length := by
  have h1 : (ascii "HTTP/1.1 ").length = 9 := rfl
  have h2 : (ascii "\r\nContent-Type: ").length = 16 := rfl
  have h3 : (ascii "\r\nTransfer-Encoding: chunked\r\n").length = 30 := rfl
  have h4 : (ascii "Connection: ").length = 12 := rfl
  have h5 : connectionHeader.length = 5 := rfl
  have h6 : (ascii "\r\n").length = 2 := rfl
  simp only [headerChunked, List.length_append, h1, h2, h3, h4, h5, h6]
  omega

theorem length_headerRange (first last total length : Int) (type : Bytes) :
    (headerRange first last total type length connectionHeader).length =
      108 + type.length + (decimal first).length + (decimal last).length +
        (decimal total).length + (decimal length).length := by
  have h1 : (ascii "HTTP/1.1 206 Partial Content\r\nContent-Range: bytes ").length = 51 := by
    decide
  have h2 : (ascii "-").length = 1 := rfl
  have h3 : (ascii "/").length = 1 := rfl
  have h4 : (ascii "\r\nContent-type: ").length = 16 := rfl
  have h5 : (ascii "\r\nContent-Length: ").length = 18 := rfl
  have h6 : (ascii "\r\nConnection: ").length = 14 := rfl
  have h7 : connectionHeader.length = 5 := rfl
  have h8 : (ascii "\r\n").length = 2 := rfl
  simp only [headerRange, List.length_append, h1, h2, h3, h4, h5, h6, h7, h8]
  omega

/-- Every status line has at most 40 characters. -/
theorem length_codeInfoOf (result : Int) : (codeInfoOf result).length ≤ 40 := by
  have htable : ∀ line ∈ responseStatusLines, line.length ≤ 40 := by decide
  unfold codeInfoOf
  dsimp only
  cases hfind : responseStatusLines.find? fun line =>
      (zeroPad 3 (decimalNat (result.natAbs % 1000))).isPrefixOf line with
  | some line => exact htable line (List.mem_of_find?_eq_some hfind)
  | none =>
    have hdigits : (decimalNat (result.natAbs % 1000)).length ≤ 3 :=
      length_positional_le (by decide) (by decide) (Nat.mod_lt _ (by decide))
    simp only [Option.getD_none, zeroPad, List.length_append, List.length_replicate]
    omega

/-- The default header takes 74 bytes and the status. -/
theorem headerAt_default {b r : Response} {n : Nat} {codeInfo : Bytes} (h : HeaderAt b n r)
    (hcode : codeInfo.length ≤ 40) :
    HeaderAt b (max n (74 + codeInfo.length)) (headersDefault r codeInfo) := by
  unfold headersDefault
  split
  · have h1 : (ascii "text/html").length = 9 := rfl
    have h2 : (decimal 0).length = 1 := by decide
    have hlen := length_headerGeneric codeInfo (ascii "text/html") 0
    have hbuf : maxSendBufSize = 256 := rfl
    exact (h.sprintf (by omega)).mono (by omega)
  · exact h.mono (le_max_left ..)

/-- A string that is not empty, written at the start of the buffer. -/
theorem putSend_first {r : Response} {c : UInt8} {s : Bytes} (hc : c ≠ 0)
    (hmem : r.mem.length = memSize) (hlen : s.length < 256) :
    at' (r.putSend 0 (c :: s ++ [0])).mem 0 ≠ 0 ∧ strlen (r.putSend 0 (c :: s ++ [0])).mem ≠ 0 := by
  have hsize : memSize = 512 := rfl
  have htotal : (c :: s ++ [0]).length = s.length + 2 := by simp
  have hfits : Response.sendFits 0 (c :: s ++ [0]) := .inr ⟨le_refl _, by rw [htotal]; omega⟩
  have hput : (r.putSend 0 (c :: s ++ [0])).mem =
      c :: (s ++ [0] ++ r.mem.drop (0 + (c :: s ++ [0]).length)) := by
    rw [Response.putSend, if_pos hfits]
    exact store_eq (by rw [htotal, hmem]; simp; omega)
  rw [hput]
  refine ⟨hc, ?_⟩
  rw [strlen, cstr, List.takeWhile_cons_of_pos (by simpa using hc)]
  exact Nat.succ_ne_zero _

/-- The first header line, unless the handler has written one already. -/
theorem headerAt_beginHeaders {b r : Response} {n : Nat} {line : Bytes} (h : HeaderAt b n r)
    (hroom : strlen r.mem = 0 → line.length < maxSendBufSize) :
    HeaderAt b (if strlen r.mem = 0 then line.length else n) (beginHeaders r line) := by
  unfold beginHeaders
  split
  · rename_i hempty
    exact h.sprintf (hroom hempty)
  · exact h

/-- The line that `WEB_AppendHeaders` starts with. -/
def pageLine (h : Request) (r : Response) (codeInfo : Bytes) : Bytes :=
  let type := getContentType r.extension
  if h.rangeFrom < r.rangeTo then
    let last := min r.rangeTo r.dwTotal
    headerRange h.rangeFrom (last - 1) r.dwTotal type (wrapLong (last - h.rangeFrom))
      connectionHeader
  else if chunkHeader h r then headerChunked codeInfo type [] connectionHeader
  else headerGeneric codeInfo type r.dwTotal connectionHeader

/-- The range branch adds one line; the seek and the new total leave it alone. -/
theorem headerAt_range {b : Response} {n : Nat} {h : Request} {c : Call}
    (hat : HeaderAt b n (beginHeaders (clipRange c.r) (headerRange h.rangeFrom
      ((clipRange c.r).rangeTo - 1) (clipRange c.r).dwTotal
      (getContentType (clipRange c.r).extension)
      (wrapLong ((clipRange c.r).rangeTo - h.rangeFrom)) connectionHeader))) : HeaderAt b n (appendRange h c).r := by
  unfold appendRange
  dsimp only
  split
  · exact hat.setDwTotal _
  · exact (hat.setDwTotal _).crash

theorem headerAt_kind {b : Response} {n : Nat} {h : Request} {c : Call} {t : Bytes}
    (hat : HeaderAt b n c.r) (hline : pageLine h c.r t = pageLine h b t)
    (hroom : strlen c.r.mem = 0 → (pageLine h b t).length < maxSendBufSize) :
    HeaderAt b (if strlen c.r.mem = 0 then (pageLine h b t).length else n)
      (appendKind h c t).r := by
  rw [← hline] at hroom ⊢
  unfold appendKind
  by_cases hrange : h.rangeFrom < c.r.rangeTo
  · rw [if_pos hrange]
    rw [pageLine, if_pos hrange] at hroom ⊢
    exact headerAt_range (headerAt_beginHeaders hat.clipRange hroom)
  · rw [if_neg hrange]
    rw [pageLine, if_neg hrange] at hroom ⊢
    exact headerAt_beginHeaders hat hroom

/-! ## The cache lines -/

/-- What the compression, date and cache lines of a page take. -/
def cacheLines (r : Response) : Nat :=
  (if r.options.gzip then 24 else 0) +
    if lastModifiedOf r = [] then 82
    else (lastModifiedOf r).length + if r.ssi.ssi = 0 then 29 else 0

theorem headerAt_gzip {b r : Response} {n : Nat} (h : HeaderAt b n r)
    (hroom : n + (if b.options.gzip then 24 else 0) < maxSendBufSize) :
    HeaderAt b (n + if b.options.gzip then 24 else 0) (appendGzip r) := by
  have hlen : headerGzip.length = 24 := rfl
  unfold appendGzip
  rw [h.gzip]
  split
  · rename_i hg
    rw [if_pos hg] at hroom
    rw [← hlen] at hroom ⊢
    exact h.strcat hroom
  · exact h

/-- A ban on caching is found, so no maximum age is added to it. -/
theorem strstr_nocache {b r : Response} {n : Nat} (h : HeaderAt b n r)
    (hroom : n + 82 < maxSendBufSize) :
    (strstr (r.strcatSend headerNocache).mem (ascii "no-cache")).isSome := by
  have hlen : headerNocache.length = 82 := rfl
  have hstring := h.string
  have hmem := h.length
  have hsize : memSize = 512 := rfl
  have hbuf : maxSendBufSize = 256 := rfl
  have htotal : (headerNocache ++ [0]).length = 83 := by rw [List.length_append, hlen]; rfl
  have hfits : Response.sendFits (strlen r.mem : Int) (headerNocache ++ [0]) :=
    .inr ⟨Int.natCast_nonneg _, by rw [htotal]; omega⟩
  have hput : (r.strcatSend headerNocache).mem =
      store r.mem (cstr r.mem).length (headerNocache ++ [0]) := by
    rw [Response.strcatSend, Response.putSend, if_pos hfits]
    rfl
  rw [strstr, hput, cstr_store_end (by decide) (by
    rw [hlen, hmem]
    have : (cstr r.mem).length = strlen r.mem := rfl
    omega)]
  refine findSub_isSome (List.IsInfix.trans ?_ (List.suffix_append ..).isInfix)
  exact ⟨ascii "Cache-Control: ",
    ascii ", no-store, must-revalidate\r\nPragma: no-cache\r\nExpires: 0\r\n", by decide⟩

theorem headerAt_caching {b r : Response} {n : Nat} (h : HeaderAt b n r)
    (hroom : n + cacheLines b < maxSendBufSize) :
    HeaderAt b (n + cacheLines b) (appendCaching r) := by
  unfold cacheLines at hroom ⊢
  rw [← Nat.add_assoc] at hroom ⊢
  have hg := headerAt_gzip h (by omega)
  generalize n + (if b.options.gzip then 24 else 0) = m at hroom hg ⊢
  unfold appendCaching
  generalize appendGzip r = t at hg ⊢
  have hage : headerMaxAge.length = 29 := rfl
  have hno : headerNocache.length = 82 := rfl
  unfold appendModified
  rw [hg.lastModified]
  by_cases hnone : lastModifiedOf b = []
  · rw [if_pos hnone] at hroom ⊢
    rw [if_neg (by simpa using hnone)]
    have hcat := hg.strcat (s := headerNocache) (by omega)
    rw [hno] at hcat
    unfold appendMaxAge
    rw [if_neg fun hc => by
      have := strstr_nocache hg (by omega)
      rw [Option.isNone_iff_eq_none.mp hc.2] at this
      cases this]
    exact hcat
  · rw [if_neg hnone] at hroom ⊢
    rw [if_pos hnone]
    have hcat := hg.strcat (s := lastModifiedOf b) (by omega)
    unfold appendMaxAge
    rw [hcat.ssi]
    by_cases hssi : b.ssi.ssi = 0
    · rw [if_pos hssi] at hroom ⊢
      split
      · exact (hcat.strcat (s := headerMaxAge) (by omega)).mono (by omega)
      · exact hcat.mono (by omega)
    · rw [if_neg hssi] at hroom ⊢
      rw [if_neg fun hc => hssi hc.1]
      exact hcat.mono (by omega)

/-! ## The room a header needs -/

/-- The lines that a handler with page headers puts in front of the cache lines: those of a
cookie, or the line of the page. -/
def pageStart (h : Request) (r : Response) (codeInfo : Bytes) : Bytes :=
  if h.handler = some .auth ∧ authTokenLines h r ≠ [] then authTokenLines h r
  else pageLine h r codeInfo

/-- A redirect fits unless its handler appends page headers (or, as `SSDP_SendHeader`, its
own); 61 bytes of date and server lines follow the lines of a page. -/
def HeaderRoom (h : Request) (r : Response) : Prop :=
  if r.result = codeRedirect then
    (h.handler = none ∨ h.handler = some .files ∨ h.handler = some .upload) ∧
      r.responsePath.length ≤ 45
  else
    (h.handler = some .auth ∨ h.handler = some .form ∨ h.handler = some .webApp) →
      (pageStart h r (codeInfoOf r.result)).length + cacheLines r ≤ 194

instance (h : Request) (r : Response) : Decidable (HeaderRoom h r) := by
  unfold HeaderRoom
  infer_instance

/-- The first byte of cookie lines. -/
theorem authTokenLines_cons {h : Request} {r : Response} (hne : authTokenLines h r ≠ []) :
    ∃ s, authTokenLines h r = 88 :: s := by
  unfold authTokenLines at hne ⊢
  split
  · exact ⟨_, rfl⟩
  · split
    · exact ⟨_, rfl⟩
    · rename_i h1 h2
      rw [if_neg h1, if_neg h2] at hne
      exact absurd rfl hne

theorem pageLine_strcat (h : Request) (r : Response) (off : Int) (bs codeInfo : Bytes)
    (hssi : (r.putSend off bs).ssi = r.ssi) :
    pageLine h (r.putSend off bs) codeInfo = pageLine h r codeInfo := by
  unfold pageLine chunkHeader
  rw [hssi]
  rfl

/-- The headers of a page behind the lines `start` of a cookie, if there are any. -/
theorem headerAt_page {b r : Response} {n : Nat} {h : Request} {w : World} {t : Bytes}
    (hr : HeaderAt b n r) (hline : pageLine h r t = pageLine h b t)
    (hroom : (if strlen r.mem = 0 then (pageLine h b t).length else n) + cacheLines b <
      maxSendBufSize) :
    HeaderAt b ((if strlen r.mem = 0 then (pageLine h b t).length else n) + cacheLines b)
      (webAppendHeaders h ⟨w, r⟩ t).r := by
  have hkind := headerAt_kind (c := ⟨w, r⟩) (h := h) (t := t) hr hline fun h0 => by
    rw [if_pos h0] at hroom
    omega
  exact headerAt_caching hkind hroom

/-- The lines of the handler, when it appends page headers. -/
theorem headerAt_handler {b : Response} {cgi : Cgi} {f : Request → Call → Bytes → Call}
    {h : Request} {w : World} {codeInfo : Bytes} (hf : cgi.setResponseHeaders = some f)
    (hpage : cgi = .auth ∨ cgi = .form ∨ cgi = .webApp) (hcgi : h.handler = some cgi)
    (hclear : HeaderAt b 0 (b.putSend 0 [0]))
    (hroom : (pageStart h b codeInfo).length + cacheLines b < maxSendBufSize) :
    HeaderAt b ((pageStart h b codeInfo).length + cacheLines b)
      (f h ⟨w, b.putSend 0 [0]⟩ codeInfo).r := by
  have hempty : strlen (b.putSend 0 [0]).mem = 0 := Nat.le_zero.mp hclear.string
  have hplain : pageStart h b codeInfo = pageLine h b codeInfo →
      HeaderAt b ((pageStart h b codeInfo).length + cacheLines b)
        (webAppendHeaders h ⟨w, b.putSend 0 [0]⟩ codeInfo).r := by
    intro hstart
    rw [hstart] at hroom ⊢
    have hat := headerAt_page (h := h) (w := w) (t := codeInfo) hclear
      (pageLine_strcat h b 0 [0] codeInfo hclear.ssi) (by rw [if_pos hempty]; exact hroom)
    rwa [if_pos hempty] at hat
  cases cgi with
  | auth =>
    cases hf
    show HeaderAt b _ (authSetResponseHeaders h ⟨w, b.putSend 0 [0]⟩ codeInfo).r
    have htoken : authTokenLines h (b.putSend 0 [0]) = authTokenLines h b := rfl
    unfold authSetResponseHeaders
    dsimp only
    rw [htoken]
    by_cases hne : authTokenLines h b = []
    · rw [if_neg fun hc => hc hne]
      exact hplain (by rw [pageStart, if_neg fun hc => hc.2 hne])
    · have hstart : pageStart h b codeInfo = authTokenLines h b := by
        rw [pageStart, if_pos ⟨hcgi, hne⟩]
      rw [hstart] at hroom ⊢
      rw [if_pos hne]
      obtain ⟨t, ht⟩ := authTokenLines_cons hne
      have hcat := hclear.strcat (s := authTokenLines h b) (by omega)
      have hlong : strlen ((b.putSend 0 [0]).strcatSend (authTokenLines h b)).mem ≠ 0 := by
        rw [Response.strcatSend, hempty, ht]
        refine (putSend_first (by decide) hclear.length ?_).2
        rw [ht, List.length_cons] at hroom
        have : maxSendBufSize = 256 := rfl
        omega
      have hat := headerAt_page (h := h) (w := w) (t := codeInfo) hcat
        ((pageLine_strcat _ _ _ _ _ (hcat.ssi.trans hclear.ssi.symm)).trans
          (pageLine_strcat _ _ _ _ _ hclear.ssi)) (by rw [if_neg hlong]; omega)
      rw [if_neg hlong] at hat
      exact hat.mono (by omega)
  | form =>
    cases hf
    exact hplain (by rw [pageStart, if_neg fun hc => by rw [hcgi] at hc; cases hc.1])
  | webApp =>
    cases hf
    exact hplain (by rw [pageStart, if_neg fun hc => by rw [hcgi] at hc; cases hc.1])
  | ssdp => rcases hpage with h | h | h <;> cases h
  | files => rcases hpage with h | h | h <;> cases h
  | upload => rcases hpage with h | h | h <;> cases h

/-! ## The whole header -/

/-- The response after the handler's `SetResponseHeaders`. -/
def handlerHeaders (w : World) (h : Request) (b : Response) (codeInfo : Bytes) : World × Response :=
  match h.handler.bind Cgi.setResponseHeaders with
  | some f => let c := f h ⟨w, headersBegin b⟩ codeInfo; (c.w, c.r)
  | none => (w, headersBegin b)

theorem cgiSetResponseHeaders_response (s : Sys) (codeInfo : Bytes) :
    (cgiSetResponseHeaders s codeInfo).c.toResponse =
      let b := { s.c.toResponse with peak := 0 }
      let k := handlerHeaders s.w s.c.toRequest b codeInfo
      headersFinish k.1 k.2 codeInfo := by
  unfold cgiSetResponseHeaders handlerHeaders Sys.invoke
  dsimp only
  cases hcgi : s.c.handler with
  | none =>
    dsimp only [Sys.setResponse]
    rw [hcgi]
    rfl
  | some cgi =>
    dsimp only [Sys.setResponse]
    rw [hcgi]
    dsimp only [Option.bind_some]
    cases cgi.setResponseHeaders with
    | none => rfl
    | some f => rfl

/-- The header of a redirect whose handler writes none: the string starts the buffer. -/
theorem headersBegin_redirect {b : Response} (hclear : HeaderAt b 0 (b.putSend 0 [0]))
    (hredirect : b.result = codeRedirect) (hpath : b.responsePath.length ≤ 45) :
    HeaderAt b 82 (headersBegin b) ∧ ∀ codeInfo, headersDefault (headersBegin b) codeInfo =
      headersBegin b := by
  have h1 : redirectBody1.length = 42 := rfl
  have h2 : redirectBody2.length = 25 := rfl
  have h3 : (ascii "200 OK").length = 6 := rfl
  have h4 : (ascii "text/html").length = 9 := rfl
  have hdigits : (decimal ((redirectBody1.length + redirectBody2.length +
      b.responsePath.length : Nat) : Int)).length ≤ 3 := by
    rw [decimal, if_neg (by omega)]
    exact length_positional_le (by decide) (by decide) (by omega)
  have hlen : (redirectHeader b.responsePath).length ≤ 82 :=
    (length_headerGeneric ..).trans_le (by omega)
  have hbegin : headersBegin b = (b.putSend 0 [0]).sprintfSend (redirectHeader b.responsePath) := by
    unfold headersBegin
    exact if_pos hredirect
  have hbuf : maxSendBufSize = 256 := rfl
  have hat := (hclear.sprintf (s := redirectHeader b.responsePath) (by omega)).mono hlen
  rw [hbegin]
  refine ⟨hat, fun codeInfo => ?_⟩
  -- the text starts with the H of HTTP, so the default header is not written over it
  obtain ⟨t, ht⟩ : ∃ t, redirectHeader b.responsePath = 72 :: t := ⟨_, rfl⟩
  unfold headersDefault
  refine if_neg ?_
  rw [Response.sprintfSend, ht]
  refine (putSend_first (by decide) hclear.length ?_).1
  rw [ht, List.length_cons] at hlen
  omega

/-- What a call of `CGI_SetResponseHeaders` promises: no write reaches behind the buffer. -/
def HeaderFits : Act → Prop
  | .headers _ _ after => after.peak ≤ maxSendBufSize
  | _ => True

instance : DecidablePred HeaderFits := fun a => by
  apply @Act.casesOn (fun a => Decidable (HeaderFits a)) a <;> intros <;> unfold HeaderFits <;> infer_instance

/-- The condition on the context before the call. -/
def HeaderRoomAt : Act → Prop
  | .headers h before _ => HeaderRoom h before
  | _ => True

instance : DecidablePred HeaderRoomAt := fun a => by
  apply @Act.casesOn (fun a => Decidable (HeaderRoomAt a)) a <;> intros <;> unfold HeaderRoomAt <;> infer_instance

/-- The lines of a handler that appends no page headers take at most 187 bytes. -/
theorem headerAt_other {b : Response} {cgi : Cgi} {f : Request → Call → Bytes → Call}
    {h : Request} {w : World} {codeInfo : Bytes} (hf : cgi.setResponseHeaders = some f)
    (hother : ¬(cgi = .auth ∨ cgi = .form ∨ cgi = .webApp)) (hcode : codeInfo.length ≤ 40)
    (hclear : HeaderAt b 0 (b.putSend 0 [0])) :
    HeaderAt b 187 (f h ⟨w, b.putSend 0 [0]⟩ codeInfo).r := by
  have hbuf : maxSendBufSize = 256 := rfl
  cases cgi with
  | ssdp =>
    cases hf
    show HeaderAt b 187 (ssdpSendHeader h ⟨w, b.putSend 0 [0]⟩).r
    have hlen : (headerChunked (ascii "200 OK") (ascii "text/xml; charset=\"utf-8\"") headerNocache
        connectionHeader).length = 187 := by decide +kernel
    unfold ssdpSendHeader
    split
    · exact (hclear.sprintf (by omega)).mono (by omega)
    · exact hclear.mono (by omega)
  | files =>
    cases hf
    have htype : (ascii "application/json").length = 16 := rfl
    have hlen := length_headerChunked codeInfo (ascii "application/json") []
    rw [htype, List.length_nil] at hlen
    unfold filesSetResponseHeader
    split
    · exact (hclear.sprintf (by omega)).mono (by omega)
    · exact hclear.mono (by omega)
  | upload => cases hf
  | auth => exact absurd (.inl rfl) hother
  | form => exact absurd (.inr (.inl rfl)) hother
  | webApp => exact absurd (.inr (.inr rfl)) hother

/-- A redirect whose handler adds nothing to it. -/
theorem handlerHeaders_redirect {w : World} {h : Request} {b : Response} {codeInfo : Bytes}
    (hredirect : b.result = codeRedirect)
    (hhandler : h.handler = none ∨ h.handler = some .files ∨ h.handler = some .upload) :
    handlerHeaders w h b codeInfo = (w, headersBegin b) := by
  unfold handlerHeaders
  rcases hhandler with hh | hh | hh
  · rw [hh]
    rfl
  · rw [hh]
    have hsame : filesSetResponseHeader h ⟨w, headersBegin b⟩ codeInfo = ⟨w, headersBegin b⟩ := by
      have hres : (headersBegin b).result = codeRedirect := by
        obtain ⟨_, _, _, _, _, heq, _⟩ := headersBegin_frame b
        rw [heq]
        exact hredirect
      unfold filesSetResponseHeader
      refine if_neg fun hc => ?_
      rw [hres] at hc
      exact absurd hc.2 (by decide)
    show ((filesSetResponseHeader h ⟨w, headersBegin b⟩ codeInfo).w,
      (filesSetResponseHeader h ⟨w, headersBegin b⟩ codeInfo).r) = _
    rw [hsame]
  · rw [hh]
    rfl

theorem header_fits {s : Sys} (hmem : s.c.mem.length = memSize)
    (hroom : HeaderRoom s.c.toRequest { s.c.toResponse with peak := 0 }) :
    (cgiSetResponseHeaders s (codeInfoOf s.c.result)).c.peak ≤ maxSendBufSize := by
  have hbuf : maxSendBufSize = 256 := rfl
  show (cgiSetResponseHeaders s (codeInfoOf s.c.result)).c.toResponse.peak ≤ _
  rw [cgiSetResponseHeaders_response]
  dsimp only
  have hclear := headerAt_clear (b := { s.c.toResponse with peak := 0 }) hmem rfl
  have hcode := length_codeInfoOf s.c.result
  rw [show s.c.result = Response.result { s.c.toResponse with peak := 0 } from rfl] at hcode ⊢
  generalize { s.c.toResponse with peak := 0 } = b at hroom hclear hcode ⊢
  unfold HeaderRoom at hroom
  by_cases hredirect : b.result = codeRedirect
  · rw [if_pos hredirect] at hroom
    obtain ⟨hat, hdefault⟩ := headersBegin_redirect hclear hredirect hroom.2
    rw [handlerHeaders_redirect hredirect hroom.1]
    exact headerAt_finish s.w (by rw [hdefault]; exact hat) (by omega) fun _ => by omega
  · rw [if_neg hredirect] at hroom
    have hbegin : headersBegin b = b.putSend 0 [0] := by
      unfold headersBegin
      exact if_neg hredirect
    -- whoever writes the first lines leaves room for the date and server lines
    have hfinish : ∀ (w : World) (r : Response) (n : Nat), HeaderAt b n r → n ≤ 194 →
        (headersFinish w r (codeInfoOf b.result)).peak ≤ maxSendBufSize := by
      intro w r n hat hn
      exact headerAt_finish w (headerAt_default hat hcode) (by omega) fun h => absurd h hredirect
    unfold handlerHeaders
    rw [hbegin]
    cases hcgi : s.c.handler with
    | none => exact hfinish _ _ 0 hclear (by omega)
    | some cgi =>
      rw [Option.bind_some]
      cases hf : cgi.setResponseHeaders with
      | none => exact hfinish _ _ 0 hclear (by omega)
      | some f =>
        by_cases hpage : cgi = .auth ∨ cgi = .form ∨ cgi = .webApp
        · have hlines := hroom (by
            rw [hcgi]
            rcases hpage with h | h | h <;> simp [h])
          exact hfinish _ _ _ (headerAt_handler (w := s.w) hf hpage hcgi hclear (by omega)) hlines
        · exact hfinish _ _ 187 (headerAt_other hf hpage hcode hclear) (by omega)

/-- In every run, a call of `CGI_SetResponseHeaders` whose context has the room stays inside
the send buffer. -/
theorem response_header_capacity {sv : Server} (h : sv.Reachable) {c : RequestContext}
    (hc : c ∈ sv.slots) : ∀ a ∈ c.log, HeaderRoomAt a → HeaderFits a := by
  intro a ha hroom
  cases a with
  | headers req before after =>
    obtain ⟨s, hs, hlogged⟩ := (h.slot hc).logged ha rfl
    obtain ⟨-, -, -, rfl, rfl, rfl⟩ := hlogged
    exact header_fits (s := beginResponse s) hs.shape.mem hroom
  | _ => trivial

/-- A request for the login page, on a server without files. -/
def loginRun : List (Answers × Event) :=
  [(openNet, .accept 7), (openNet, receiveText 0 "GET /auth/login.html HTTP/1.1\r\n\r\n")]

/-- A request for the application without a session. -/
def noSessionRun : List (Answers × Event) :=
  [(openNet, .accept 7), (openNet, receiveText 0 "GET /app/index.shtml HTTP/1.1\r\n\r\n")]

/-- The 404 page of the login handler. -/
theorem response_header_capacity_login :
    ((∀ a ∈ (((Server.boot plainWorld).run loginRun).slot 0).log, HeaderRoomAt a) ∧
      ∀ a ∈ (((Server.boot plainWorld).run loginRun).slot 0).log, HeaderFits a) := by
  have hroom : ∀ a ∈ (((Server.boot plainWorld).run loginRun).slot 0).log, HeaderRoomAt a := by
    decide +kernel
  exact ⟨hroom, fun a ha => response_header_capacity
    ((Server.Reachable.boot plainWorld).run (by decide)) (Server.slot_mem (by decide))
    a ha (hroom a ha)⟩

/-- A redirect through the application handler writes behind the buffer. -/
theorem response_header_capacity_redirect :
    (Server.boot plainWorld).RunLegal noSessionRun ∧
      ¬ ∀ a ∈ (((Server.boot plainWorld).run noSessionRun).slot 0).log, HeaderFits a := by
  decide +kernel

end Httpd

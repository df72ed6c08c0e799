import LambdaIOT.Properties.Ranges

/-!
# How far a range can reach

A `Range:` line holds any text. The two numbers the header loop makes of it (`parseRange`)
become a position of the file and the length of the answer, and the length becomes the count
of every later read. The upper bound is clipped by the file, the lower one by nothing:
the answer stays inside the file exactly when the lower bound does (`range_safe_iff`).
-/

namespace Httpd

open CMem

/-! ## Seeking to any offset -/

/-- A seek goes to the offset as an `unsigned long` holds it. -/
theorem FileSystem.OpenFile.webFseek_wrap {fs : FileSystem} {fp : Nat} {content : Bytes} {pos : Nat}
    (h : fs.OpenFile fp content pos) (off : Int) :
    ∃ fs', fs.webFseek fp off = some fs' ∧ ∀ pos', fs'.OpenFile fp content pos' →
      pos' = (off % 4294967296).toNat ∧ pos' ≤ content.length := by
  obtain ⟨i, info, hslot, hlt, hhandle, hholds⟩ := h.at_slot
  refine ⟨fs.setHandle i ⟨some info, (off.emod 4294967296).toNat⟩, ?_, ?_⟩
  · rw [FileSystem.webFseek, hslot]
    dsimp only
    rw [hhandle]
  · intro pos' hopen
    refine ⟨?_, hopen.inside⟩
    obtain ⟨i', info', hslot', -, hhandle', -⟩ := hopen.at_slot
    rw [hslot] at hslot'
    cases hslot'
    rw [FileSystem.handle_setHandle hlt] at hhandle'
    exact (congrArg FileHandle.lReadPos hhandle').symm

/-- The lower bound of a range is a `long`, whatever the text. -/
theorem parseRange_bounds (text : Bytes) :
    longMin ≤ (parseRange text).1 ∧ (parseRange text).1 ≤ longMax := by
  have hzero : longMin ≤ 0 ∧ (0 : Int) ≤ longMax := by decide
  have hatol : ∀ bs : Bytes, longMin ≤ atol bs ∧ atol bs ≤ longMax := fun bs =>
    ⟨longMin_le_atol bs, atol_le bs⟩
  have hclip : ∀ range : Int × Int, (longMin ≤ range.1 ∧ range.1 ≤ longMax) →
      longMin ≤ (if range.1 < range.2 then range else (0, 0)).1 ∧
        (if range.1 < range.2 then range else (0, 0)).1 ≤ longMax := by
    intro range hrange
    split
    · exact hrange
    · exact hzero
  rw [parseRange]
  apply hclip
  split
  · exact hzero
  · dsimp only
    split
    · exact hatol _
    · exact hatol _

/-! ## Reading inside the file -/

/-- The read of one call of `WEB_ReadContent(context, buffer, m)`: it asks for no negative
count, and what it copies lies in the file. -/
def ReadInside (h : Request) (c : Call) (content : Bytes) (m : Int) : Prop :=
  ∃ pos, c.w.fs.OpenFile c.r.ssi.fp content pos ∧ 0 ≤ min (c.r.dwTotal - c.r.dwOperIndex) m ∧
    pos + (min (c.r.dwTotal - c.r.dwOperIndex) m).toNat ≤ content.length ∧
    (webReadContent h c m).out = load content pos (min (c.r.dwTotal - c.r.dwOperIndex) m).toNat

section

variable {h : Request} {content : Bytes} {first : Nat} {c : Call}

/-- One call keeps the bounds, at the end of the page as well. -/
theorem PlainRead.readContent (hmethod : h.requestMethod ≠ .none) (hread : PlainRead content first c)
    {m : Int} (hm : 0 ≤ m) :
    ReadInside h c content m ∧ PlainRead content first (webReadContent h c m).call := by
  obtain ⟨hindex, htotal⟩ := hread.index
  have hinside := hread.inside
  have hbounds : 0 ≤ min (c.r.dwTotal - c.r.dwOperIndex) m ∧
      first + c.r.dwOperIndex.toNat + (min (c.r.dwTotal - c.r.dwOperIndex) m).toNat
        ≤ content.length := by omega
  by_cases hend : c.r.dwTotal - c.r.dwOperIndex = 0
  · -- Nothing is left: no read, and only the stage changes.
    have hcall : webReadContent h c m = ⟨{ c with r := { c.r with dwOperStage := stageEnd } }, -1, []⟩ := by
      rw [webReadContent, if_neg hmethod, if_pos hend, webReadEnd, if_neg]
      rintro ⟨hssi, -⟩
      rw [hread.untagged] at hssi
      omega
    rw [hcall]
    refine ⟨⟨_, hread.file, hbounds.1, hbounds.2, ?_⟩, hread.untagged, hread.index, hread.inside, hread.file⟩
    rw [hcall, hend]
    have hzero : (min (0 : Int) m).toNat = 0 := by omega
    rw [hzero]
    exact (List.take_zero ..).symm
  · have hcall : webReadContent h c m = Httpd.webReadPlain c m := by
      rw [webReadContent, if_neg hmethod, if_neg hend, if_pos hread.untagged]
    obtain ⟨fs, n, hn, hplain, hnext⟩ := hread.webReadPlain hm
    rw [hcall]
    refine ⟨⟨_, hread.file, hbounds.1, hbounds.2, ?_⟩, hnext⟩
    rw [hcall, hplain, hn]

/-- Every later call, by induction on the calls. -/
theorem PlainRead.afterCalls (hmethod : h.requestMethod ≠ .none) (hread : PlainRead content first c)
    {ms : Nat → Int} (hms : ∀ i, 0 ≤ ms i) (k : Nat) : PlainRead content first (afterCalls h c ms k) := by
  induction k with
  | zero => exact hread
  | succ k ih => exact (ih.readContent hmethod (hms k)).2

end

/-! ## The page header -/

/-- Without cookie lines the header starts with the line of the page. -/
theorem ServesFile.pageStart {h : Request} (hserves : ServesFile h) (r : Response) (codeInfo : Bytes) :
    pageStart h r codeInfo = pageLine h r codeInfo := by
  rw [Httpd.pageStart, if_neg]
  rintro ⟨hauth, hlines⟩
  rcases hserves with hweb | ⟨-, -, hlogout, hlogin⟩
  · rw [hweb] at hauth
    cases hauth
  · apply hlines
    rw [authTokenLines, if_neg (by rw [hlogout]; exact Bool.false_ne_true), if_neg]
    rintro ⟨hl, -⟩
    rw [hlogin] at hl
    cases hl

/-- A complete GET for a page without tags of `content` that the client does not have, with the
range that the line `text` leaves. The header of its answer fits in the send buffer. -/
structure PageGet (s : Sys) (content text : Bytes) : Prop where
  serves : ServesFile s.c.toRequest
  method : s.c.requestMethod = .get
  state : s.c.state = .bodyDone
  result : s.c.result = 0
  mem : s.c.mem.length = memSize
  range : (s.c.rangeFrom, s.c.rangeTo) = parseRange text
  untagged : isSsiExtension (defaultPath s.c.toResponse).extension = false
  found : FileFound s.call content
  new : ¬ NotModified s.c.toRequest s.call
  room : HeaderRoom (beginResponse (roundEnd s 0).1).c.toRequest
    (beginResponse (roundEnd s 0).1).c.toResponse

/-- The page before its header: the file is open at its start, and its length is the total. -/
structure PageOpen (s t : Sys) (content : Bytes) : Prop where
  before : BeforeHeader s t
  result : t.c.result = codeOk
  mem : t.c.mem.length = memSize
  total : t.c.dwTotal = content.length
  rangeTo : t.c.rangeTo = s.c.rangeTo
  untagged : t.c.toResponse.ssi.ssi = 0
  handle : t.c.fileHandle = t.c.toResponse.ssi.fp
  file : t.w.fs.OpenFile t.c.fileHandle content 0
  plain : t.c.options.chunkEnabled = s.c.options.chunkEnabled
  room : HeaderRoom t.c.toRequest t.c.toResponse

/-- `HttpResponseProc` begins where `CGI_RequestReceived` ended. -/
theorem ServesFile.before {s : Sys} (hserves : ServesFile s.c.toRequest) (hstate : s.c.state = .bodyDone) :
    BeforeHeader s (beginResponse (roundEnd s 0).1) := by
  obtain ⟨cgi, hreceived⟩ := hserves.received
  have hround : (roundEnd s 0).1 = if (cgiRequestReceived s).c.result = 0
      then (cgiRequestReceived s).setResult codeOk else cgiRequestReceived s := by
    rw [roundEnd, if_pos hstate]
  rw [hround, hreceived]
  have hresult : ((s.note (.callback cgi .onRequestReceived)).ofCall
      (webRequestReceived s.c.toRequest s.call)).c.result
      = (webRequestReceived s.c.toRequest s.call).r.result := rfl
  by_cases h0 : (webRequestReceived s.c.toRequest s.call).r.result = 0
  · rw [if_pos (hresult.trans h0)]
    exact ⟨hserves, rfl, rfl, rfl, rfl, rfl, ⟨codeOk, rfl, (if_pos h0).symm⟩⟩
  · rw [if_neg (hresult.trans_ne h0)]
    exact ⟨hserves, rfl, rfl, rfl, rfl, rfl, ⟨_, rfl, (if_neg h0).symm⟩⟩

theorem PageGet.opened {s : Sys} {content text : Bytes} (h : PageGet s content text) :
    PageOpen s (beginResponse (roundEnd s 0).1) content := by
  have hroom := h.room
  have hbefore := h.serves.before h.state
  generalize beginResponse (roundEnd s 0).1 = t at hroom hbefore
  have hready := webRequestReceived_ready (h := s.c.toRequest) h.found h.mem h.untagged h.new
  have hpath : ∀ r : Response, (defaultPath r).rangeTo = r.rangeTo ∧ (defaultPath r).result = r.result ∧
      (defaultPath r).options = r.options := by
    intro r
    rw [defaultPath]
    split
    · exact ⟨rfl, rfl, rfl⟩
    · exact ⟨rfl, rfl, rfl⟩
  have hrest : ∀ {β : Type} (f : Response → β), f (webRequestReceived s.c.toRequest s.call).r
      = f { openResponse s.c.toRequest s.call content with
        fileHandle := (webRequestReceived s.c.toRequest s.call).r.ssi.fp, dwTotal := content.length,
        mem := (webRequestReceived s.c.toRequest s.call).r.mem } := fun f => congrArg f hready.rest
  have hzero : (webRequestReceived s.c.toRequest s.call).r.result = 0 :=
    (hrest Response.result).trans ((hpath _).2.1.trans h.result)
  obtain ⟨result, hresponse, hresult⟩ := hbefore.response
  rw [if_pos hzero] at hresult
  have hfield : ∀ {β : Type} (f : Response → β),
      f { t.c.toResponse with peak := 0 } = f { (webRequestReceived s.c.toRequest s.call).r with
        result := result, dwOperStage := 0, dwOperIndex := 0, peak := 0 } := by
    intro β f
    rw [hresponse]
  have hssi : t.c.toResponse.ssi = (webRequestReceived s.c.toRequest s.call).r.ssi :=
    hfield Response.ssi
  have hhandle : t.c.fileHandle = (webRequestReceived s.c.toRequest s.call).r.ssi.fp :=
    (hfield Response.fileHandle).trans (hrest Response.fileHandle)
  constructor
  · exact hbefore
  · exact (hfield Response.result).trans hresult
  · exact (hfield fun r => r.mem.length).trans hready.mem
  · exact (hfield Response.dwTotal).trans (hrest Response.dwTotal)
  · exact ((hfield Response.rangeTo).trans (hrest Response.rangeTo)).trans (hpath _).1
  · rw [hssi]
    exact hready.untagged
  · rw [hhandle, hssi]
  · rw [hhandle, hbefore.world]
    exact hready.file
  · have hoptions : t.c.options.chunkEnabled = (openResponse s.c.toRequest s.call content).options.chunkEnabled :=
      (hfield fun r => r.options.chunkEnabled).trans (hrest fun r => r.options.chunkEnabled)
    have huntagged : isSsiExtension (defaultPath s.call.r).extension = false := h.untagged
    rw [hoptions, openResponse]
    dsimp only
    rw [huntagged, Bool.false_and, Bool.or_false, (hpath _).2.2]
    rfl
  · exact hroom

/-! ## The page headers -/

/-- What `CGI_SetResponseHeaders` leaves of an open page: the counters at zero, the handle, and
what the kind of the header made of the file and of its length. -/
structure PageHeaded (t u : Sys) : Prop where
  request : u.c.toRequest = t.c.toRequest
  untagged : u.c.toResponse.ssi.ssi = 0
  handle : u.c.toResponse.ssi.fp = t.c.fileHandle
  index : u.c.dwOperIndex = 0
  stage : u.c.dwOperStage = 0
  kind : ∃ r codeInfo, r.fileHandle = t.c.fileHandle ∧ r.rangeTo = t.c.rangeTo ∧ r.dwTotal = t.c.dwTotal ∧
    u.w = (appendKind t.c.toRequest ⟨t.w, r⟩ codeInfo).w ∧
    u.c.dwTotal = (appendKind t.c.toRequest ⟨t.w, r⟩ codeInfo).r.dwTotal

theorem PageOpen.headed {s t : Sys} {content : Bytes} (hopen : PageOpen s t content) :
    PageHeaded t (cgiSetResponseHeaders t (codeInfoOf t.c.result)) := by
  have hresult : t.c.result ≠ codeRedirect := by
    rw [hopen.result]
    decide
  have hserves := hopen.before.serves
  obtain ⟨hrequest, hcall⟩ := hserves.headers hresult (codeInfoOf t.c.result)
  have hwebpage : t.c.handler = some .auth ∨ t.c.handler = some .form ∨ t.c.handler = some .webApp :=
    hserves.elim (fun hweb => .inr (.inr hweb)) fun hauth => .inl hauth.1
  have hroom := hopen.room
  rw [HeaderRoom, if_neg hresult] at hroom
  have hlines := hroom hwebpage
  rw [hserves.pageStart] at hlines
  have hindex : ({ t.c.toResponse with peak := 0 } : Response).dwOperIndex = 0 := hopen.before.index
  have hstage : ({ t.c.toResponse with peak := 0 } : Response).dwOperStage = 0 := hopen.before.stage
  have hclear := headerAt_clear (b := { t.c.toResponse with peak := 0 }) hopen.mem rfl
  have hline : pageLine t.c.toRequest t.c.toResponse (codeInfoOf t.c.result)
      = pageLine t.c.toRequest { t.c.toResponse with peak := 0 } (codeInfoOf t.c.result) := rfl
  have hcache : cacheLines t.c.toResponse = cacheLines { t.c.toResponse with peak := 0 } := rfl
  have hssi : ({ t.c.toResponse with peak := 0 } : Response).ssi = t.c.toResponse.ssi := rfl
  have hkind : (({ t.c.toResponse with peak := 0 } : Response).putSend 0 [0]).fileHandle = t.c.fileHandle ∧
      (({ t.c.toResponse with peak := 0 } : Response).putSend 0 [0]).rangeTo = t.c.rangeTo ∧
      (({ t.c.toResponse with peak := 0 } : Response).putSend 0 [0]).dwTotal = t.c.dwTotal :=
    ⟨rfl, rfl, rfl⟩
  have hbodyless : ({ t.c.toResponse with peak := 0 } : Response).result ≠ codeRedirect := hresult
  rw [hline, hcache] at hlines
  generalize ({ t.c.toResponse with peak := 0 } : Response) = b₀
    at hclear hindex hstage hcall hlines hssi hkind hbodyless
  have hcode := length_codeInfoOf t.c.result
  generalize codeInfoOf t.c.result = codeInfo at *
  generalize cgiSetResponseHeaders t codeInfo = u at hrequest hcall ⊢
  have hworld : u.w = (appendKind t.c.toRequest ⟨t.w, b₀.putSend 0 [0]⟩ codeInfo).w :=
    congrArg Call.w hcall
  have hresponse : u.c.toResponse = headersFinish
      (webAppendHeaders t.c.toRequest ⟨t.w, b₀.putSend 0 [0]⟩ codeInfo).w
      (webAppendHeaders t.c.toRequest ⟨t.w, b₀.putSend 0 [0]⟩ codeInfo).r codeInfo :=
    congrArg Call.r hcall
  -- The lines of the header fit, so that nothing behind the send buffer changes.
  have hbuf : maxSendBufSize = 256 := rfl
  have hempty : strlen (b₀.putSend 0 [0]).mem = 0 := Nat.le_zero.mp hclear.string
  have hpage := headerAt_page (h := t.c.toRequest) (w := t.w) (t := codeInfo) hclear
    (pageLine_strcat t.c.toRequest b₀ 0 [0] codeInfo hclear.ssi) (by
      rw [if_pos hempty]
      omega)
  rw [if_pos hempty] at hpage
  have hdate := headerAt_date (webAppendHeaders t.c.toRequest ⟨t.w, b₀.putSend 0 [0]⟩ codeInfo).w.clock
    (headerAt_default hpage hcode) (by omega)
  obtain ⟨n, hfinal⟩ := headerAt_body hdate fun hredirect => absurd hredirect hbodyless
  have hkept : (appendKind t.c.toRequest ⟨t.w, b₀.putSend 0 [0]⟩ codeInfo).r.dwTotal
      = (webAppendHeaders t.c.toRequest ⟨t.w, b₀.putSend 0 [0]⟩ codeInfo).r.dwTotal :=
    (appendCaching_dwTotal _).symm
  generalize webAppendHeaders t.c.toRequest ⟨t.w, b₀.putSend 0 [0]⟩ codeInfo = k at hfinal hresponse hkept
  obtain ⟨_, _, _, _, _, hframe, -⟩ := hfinal.frame
  have hcontext : (headersFinish k.w k.r codeInfo).ssi = b₀.ssi := hfinal.ssi
  have hcount : (headersFinish k.w k.r codeInfo).dwOperIndex = 0 :=
    (congrArg Response.dwOperIndex hframe).trans hindex
  have hcalls : (headersFinish k.w k.r codeInfo).dwOperStage = 0 :=
    (congrArg Response.dwOperStage hframe).trans hstage
  have htotal := headersFinish_dwTotal k.w k.r codeInfo
  rw [hssi] at hcontext
  rw [← hresponse] at hcontext hcount hcalls htotal
  constructor
  · exact hrequest
  · rw [hcontext]
    exact hopen.untagged
  · rw [hcontext]
    exact hopen.handle.symm
  · exact hcount
  · exact hcalls
  · exact ⟨b₀.putSend 0 [0], codeInfo, hkind.1, hkind.2.1, hkind.2.2, hworld, htotal.trans hkept.symm⟩

/-! ## The bounds -/

/-- After the headers the length and the position lie in the file, and so does every read of the
response, whatever sizes `WEB_ReadContent` is called with, none of them negative. -/
structure RangeSafe (s : Sys) (content : Bytes) : Prop where
  total : 0 ≤ (answer s).c.dwTotal ∧ (answer s).c.dwTotal ≤ content.length
  position : ∃ pos, (answer s).w.fs.OpenFile (answer s).c.toResponse.ssi.fp content pos
  reads : ∀ ms : Nat → Int, (∀ i, 0 ≤ ms i) → ∀ k,
    ReadInside (answer s).c.toRequest (afterCalls (answer s).c.toRequest (answer s).call ms k) content (ms k)

theorem RangeSafe.of_read {s : Sys} {content : Bytes} {first : Nat}
    (hmethod : (answer s).c.requestMethod ≠ .none) (hread : PlainRead content first (answer s).call) :
    RangeSafe s content := by
  obtain ⟨hindex, htotal⟩ := hread.index
  have hinside := hread.inside
  constructor
  · change 0 ≤ (answer s).call.r.dwTotal ∧ (answer s).call.r.dwTotal ≤ content.length
    omega
  · exact ⟨_, hread.file⟩
  · intro ms hms k
    exact ((hread.afterCalls hmethod hms k).readContent hmethod (hms k)).1

/-- With no range the whole page is the answer. -/
theorem PageOpen.whole {s t : Sys} {content : Bytes} (hopen : PageOpen s t content) (hgiven : answer s
    = cgiSetResponseHeaders t (codeInfoOf t.c.result)) (hno : ¬ t.c.rangeFrom < t.c.rangeTo) :
    PlainRead content 0 (answer s).call ∧ (answer s).c.dwTotal = content.length := by
  obtain ⟨-, huntagged, hhandle, hindex, -, r, codeInfo, hfile, hto, htotal, hworld, hdwTotal⟩ := hopen.headed
  rw [← hgiven] at huntagged hhandle hindex hworld hdwTotal
  have hkind : appendKind t.c.toRequest ⟨t.w, r⟩ codeInfo = ⟨t.w, beginHeaders r
      (if chunkHeader t.c.toRequest r then headerChunked codeInfo (getContentType r.extension) [] connectionHeader
        else headerGeneric codeInfo (getContentType r.extension) r.dwTotal connectionHeader)⟩ := by
    rw [appendKind, if_neg (by rw [hto]; exact hno)]
  have hlines : ∀ line, (beginHeaders r line).dwTotal = r.dwTotal := by
    intro line
    unfold beginHeaders
    split
    · exact sprintfSend_dwTotal ..
    · rfl
  rw [hkind] at hworld hdwTotal
  have hsize : (answer s).c.dwTotal = content.length :=
    hdwTotal.trans ((hlines _).trans (htotal.trans hopen.total))
  refine ⟨?_, hsize⟩
  constructor
  · exact huntagged
  · change 0 ≤ (answer s).c.dwOperIndex ∧ (answer s).c.dwOperIndex ≤ (answer s).c.dwTotal
    omega
  · change ((0 : Nat) : Int) + (answer s).c.dwTotal ≤ content.length
    omega
  · change (answer s).w.fs.OpenFile (answer s).c.toResponse.ssi.fp content (0 + (answer s).c.dwOperIndex.toNat)
    rw [hindex, hhandle, hworld]
    exact hopen.file

/-- With a range the length is what the clipped bounds leave, as a `long`, and the file is
sought. -/
theorem PageOpen.ranged {s t : Sys} {content : Bytes} (hopen : PageOpen s t content) (hgiven : answer s
    = cgiSetResponseHeaders t (codeInfoOf t.c.result)) (hrange : t.c.rangeFrom < t.c.rangeTo) :
    (answer s).c.dwTotal = wrapLong (min t.c.rangeTo content.length - t.c.rangeFrom) ∧
      ∃ fs, t.w.fs.webFseek t.c.fileHandle t.c.rangeFrom = some fs ∧ (answer s).w.fs = fs := by
  obtain ⟨-, -, -, -, -, r, codeInfo, hfile, hto, htotal, hworld, hdwTotal⟩ := hopen.headed
  rw [← hgiven] at hworld hdwTotal
  obtain ⟨fs, hseek, -⟩ := hopen.file.webFseek_wrap t.c.rangeFrom
  have hkept : ∀ line : Bytes, (beginHeaders (clipRange r) line).fileHandle = t.c.fileHandle := by
    intro line
    obtain ⟨_, _, _, _, _, hsame, -⟩ := HeaderFrame.beginHeaders (clipRange r) line
    rw [hsame]
    exact hfile
  have hkind : (appendKind t.c.toRequest ⟨t.w, r⟩ codeInfo).w.fs = fs ∧
      (appendKind t.c.toRequest ⟨t.w, r⟩ codeInfo).r.dwTotal
        = wrapLong (min r.rangeTo r.dwTotal - t.c.rangeFrom) := by
    rw [appendKind, if_pos (by rw [hto]; exact hrange), appendRange]
    dsimp only
    rw [hkept, hseek]
    exact ⟨rfl, rfl⟩
  refine ⟨?_, fs, hseek, ?_⟩
  · rw [hdwTotal, hkind.2, hto, htotal, hopen.total]
  · rw [hworld]
    exact hkind.1

/-- For every text of a `Range:` line and every size of the file: the answer stays inside the
file exactly when the lower bound of the range, where there is a range, does. -/
theorem range_safe_iff {s : Sys} {content text : Bytes} (h : PageGet s content text) :
    RangeSafe s content ↔ ((parseRange text).1 < (parseRange text).2 →
      0 ≤ (parseRange text).1 ∧ (parseRange text).1 ≤ content.length) := by
  have hopen := h.opened
  have hgiven : answer s = cgiSetResponseHeaders (beginResponse (roundEnd s 0).1)
      (codeInfoOf (beginResponse (roundEnd s 0).1).c.result) := rfl
  generalize beginResponse (roundEnd s 0).1 = t at hopen hgiven
  have hfrom : t.c.rangeFrom = (parseRange text).1 :=
    hopen.before.rangeFrom.trans (congrArg Prod.fst h.range)
  have hto : t.c.rangeTo = (parseRange text).2 := hopen.rangeTo.trans (congrArg Prod.snd h.range)
  obtain ⟨hmin, hmax⟩ := parseRange_bounds text
  rw [← hfrom] at hmin hmax
  rw [← hfrom, ← hto]
  have hsmall := h.found.small
  have hheaded := hopen.headed
  rw [← hgiven] at hheaded
  have hmethod : (answer s).c.requestMethod ≠ .none := by
    have hsame : (answer s).c.requestMethod = t.c.requestMethod := congrArg Request.requestMethod hheaded.request
    rw [hsame, hopen.before.method, h.method]
    decide
  by_cases hrange : t.c.rangeFrom < t.c.rangeTo
  · obtain ⟨htotal, fs, hseek, hfs⟩ := hopen.ranged hgiven hrange
    obtain ⟨fs', hseek', hpos⟩ := hopen.file.webFseek_wrap t.c.rangeFrom
    rw [hseek] at hseek'
    cases hseek'
    constructor
    · intro hsafe _
      -- a position in front of the file wraps behind it
      obtain ⟨pos, hposition⟩ := hsafe.position
      rw [hfs, hheaded.handle] at hposition
      obtain ⟨hwrap, hin⟩ := hpos pos hposition
      have hlow' : longMin = -2147483648 := rfl
      have hhigh' : longMax = 2147483647 := rfl
      omega
    · intro hbounds
      obtain ⟨hlow, hhigh⟩ := hbounds hrange
      have hcast : ((t.c.rangeFrom.toNat : Nat) : Int) = t.c.rangeFrom := by omega
      obtain ⟨fs', hseek', hsought, -⟩ := hopen.file.webFseek (show t.c.rangeFrom.toNat ≤ content.length by omega)
      rw [hcast, hseek] at hseek'
      cases hseek'
      have hlow' : longMin = -2147483648 := rfl
      have hhigh' : longMax = 2147483647 := rfl
      rw [wrapLong_of_fits (by omega) (by omega)] at htotal
      suffices hread : PlainRead content t.c.rangeFrom.toNat (answer s).call from
        RangeSafe.of_read hmethod hread
      constructor
      · exact hheaded.untagged
      · change 0 ≤ (answer s).c.dwOperIndex ∧ (answer s).c.dwOperIndex ≤ (answer s).c.dwTotal
        rw [hheaded.index, htotal]
        omega
      · change ((t.c.rangeFrom.toNat : Nat) : Int) + (answer s).c.dwTotal ≤ content.length
        rw [htotal]
        omega
      · change (answer s).w.fs.OpenFile (answer s).c.toResponse.ssi.fp content
          (t.c.rangeFrom.toNat + (answer s).c.dwOperIndex.toNat)
        rw [hheaded.index, hheaded.handle, hfs]
        exact hsought
  · constructor
    · intro _ hand
      exact absurd hand hrange
    · intro _
      exact RangeSafe.of_read hmethod (hopen.whole hgiven hrange).1

/-- A GET of a new page with a range is one for `range_safe_iff`. -/
theorem RangeGet.page {s : Sys} {content text : Bytes} {a : Nat} {b : Option Nat}
    (h : RangeGet s content a b) (hrange : (s.c.rangeFrom, s.c.rangeTo) = parseRange text)
    (hnew : ¬ NotModified s.c.toRequest s.call)
    (hroom : HeaderRoom (beginResponse (roundEnd s 0).1).c.toRequest
      (beginResponse (roundEnd s 0).1).c.toResponse) : PageGet s content text where
  serves := h.serves
  method := h.method
  state := h.state
  result := h.result
  mem := h.mem
  range := hrange
  untagged := h.untagged
  found := h.found
  new := hnew
  room := hroom

theorem pageGet_thirtyBytes :
    PageGet (rangeSys thirtyBytes 5 (some 9)) thirtyBytes (rangeLine 5 (some 9) []) ∧
      PageGet (rangeSys thirtyBytes 0 none) thirtyBytes (rangeLine 0 none []) := by
  constructor
  · exact (rangeGet_rangeSys (by decide) (by decide) (by decide)).page rfl
      (by decide +kernel) (by decide +kernel)
  · exact (rangeGet_rangeSys (by decide) (by decide) (by decide)).page rfl
      (by decide +kernel) (by decide +kernel)

/-- `bytes=5-9` is read as the range from -9 on, which leaves the file; `bytes=0-` stays in it. -/
theorem range_safe_behind_digit : ¬ RangeSafe (rangeSys thirtyBytes 5 (some 9)) thirtyBytes ∧
    RangeSafe (rangeSys thirtyBytes 0 none) thirtyBytes := by
  constructor
  · intro hsafe
    have hbounds := (range_safe_iff pageGet_thirtyBytes.1).mp hsafe
    revert hbounds
    decide +kernel
  · exact (range_safe_iff pageGet_thirtyBytes.2).mpr (by decide +kernel)

end Httpd

import LambdaIOT.Properties.Deliveries
import LambdaIOT.Properties.Delivery
import LambdaIOT.Properties.RangeSafety

/-!
# A file arrives as it is

The bytes of a page without tags pass through three buffers: `WEB_ReadContent` reads them
behind what is still pending, `sendBuffered` writes them as the window allows and moves the
rest to the front, and three kinds of events start these functions in any order. `Downloading`
is what holds of a connection between two of them: what was put is the header and the first
bytes of the file, and what was accepted is the front of it. `PageAt` adds the file: its handle
has been read up to what was put. The actions of the connection keep that, and so do the other
events of the server, as long as they leave the handle alone.
-/

namespace Httpd

open CMem Lwip

/-! ## The application context behind the pending bytes -/

/-- Moving what is left to the front stays in front of the application context. -/
theorem afterWrite_appContext {s : Sys} {n : Nat} (hpos : 0 < n)
    (hroom : s.c.bytesLeft ≤ maxSendBufSize) :
    (afterWrite s n).c.toResponse.appContext = s.c.toResponse.appContext := by
  have hbuf : maxSendBufSize = 256 := rfl
  have hzero : ([0] : Bytes).length = 1 := rfl
  change (store (if 0 < s.c.bytesLeft - n then
    store s.c.mem 0 (load s.c.mem n (s.c.bytesLeft - n).toNat) else s.c.mem)
      (s.c.bytesLeft - n).toNat [0]).drop maxSendBufSize = s.c.mem.drop maxSendBufSize
  rw [drop_store (by rw [hzero]; omega)]
  split
  · refine drop_store ?_
    have hle : (load s.c.mem n (s.c.bytesLeft - n).toNat).length ≤ (s.c.bytesLeft - n).toNat :=
      List.length_take_le ..
    omega
  · rfl

theorem sendLoop_appContext (fuel : Nat) {s : Sys} (h0 : 0 ≤ s.c.bytesLeft)
    (hroom : s.c.bytesLeft ≤ maxSendBufSize) :
    (sendLoop fuel s).1.c.toResponse.appContext = s.c.toResponse.appContext := by
  induction fuel generalizing s with
  | zero => rfl
  | succ fuel ih =>
    rw [sendLoop]
    by_cases hleft : 0 < s.c.bytesLeft
    · rw [if_pos hleft]
      dsimp only
      by_cases hwindow : s.sndbuf = 0
      · rw [if_pos hwindow]
        rfl
      · rw [if_neg hwindow]
        split
        · obtain ⟨n, hn⟩ : ∃ n, n = min s.afterSndbuf.c.bytesLeft.toNat s.sndbuf := ⟨_, rfl⟩
          rw [← hn]
          change n = min s.c.bytesLeft.toNat s.sndbuf at hn
          have hshift := afterWrite_appContext (s := s.afterSndbuf.altcpWrite (load s.afterSndbuf.c.mem 0 n))
            (n := n) (by omega) hroom
          refine (ih (show 0 ≤ s.c.bytesLeft - n by omega)
            (show s.c.bytesLeft - n ≤ maxSendBufSize by omega)).trans hshift
        · rfl
    · rw [if_neg hleft]

/-- `sendBuffered` leaves the application context alone. -/
theorem sendBuffered_appContext {s : Sys} (h0 : 0 ≤ s.c.bytesLeft)
    (hroom : s.c.bytesLeft ≤ maxSendBufSize) :
    (sendBuffered s).1.c.toResponse.appContext = s.c.toResponse.appContext :=
  sendLoop_appContext _ h0 hroom

/-! ## The response of a page -/

/-- The handlers that send pages. -/
def ServesPages (h : Request) : Prop :=
  h.handler = some .auth ∨ h.handler = some .form ∨ h.handler = some .webApp

theorem ServesPages.handler {h : Request} (hpage : ServesPages h) :
    ∃ cgi, h.handler = some cgi ∧ cgi.readContent = some webReadContent ∧
      cgi.onAllSent = some webCloseFile := by
  rcases hpage with h | h | h
  · exact ⟨_, h, rfl, rfl⟩
  · exact ⟨_, h, rfl, rfl⟩
  · exact ⟨_, h, rfl, rfl⟩

namespace Act

/-- The entry belongs to the response under way. -/
def continues : Act → Bool
  | .headers .. => false
  | .reset .. => false
  | .freed => false
  | _ => true

/-- `CGI_LoadContentToSend` was called. -/
def isLoad : Act → Bool
  | .load .. => true
  | _ => false

/-- A write that did not fail, or no write. -/
def written : Act → Bool
  | .write _ ok => ok
  | _ => true

end Act

/-- A connection that sends a page of `content` behind `head`; `post` is the log from the header
on. -/
structure Downloading (content head : Bytes) (post : List Act) (c : RequestContext) : Prop where
  page : ServesPages c.toRequest
  method : c.requestMethod ≠ .none
  untagged : c.toResponse.ssi.ssi = 0
  plain : c.options.chunkEnabled = false
  index : 0 ≤ c.dwOperIndex ∧ c.dwOperIndex ≤ content.length
  total : c.dwTotal = content.length
  stage : c.dwOperStage = stageEnd ∧ c.dwOperIndex = content.length ∨
    c.dwOperStage ≤ post.countP Act.isLoad
  room : c.bytesLeft ≤ 254
  tracked : Tracked c
  header : (Transfer.ofLog c.log).header = head
  bytes : (Transfer.ofLog c.log).content = load content 0 c.dwOperIndex.toNat
  written : (Transfer.ofLog c.log).failed = false

section

variable {content head : Bytes} {post : List Act}

/-- A step that changes nothing of the response. -/
theorem Downloading.quiet {c u : RequestContext} (hd : Downloading content head post c)
    (hpage : u.handler = c.handler) (hmethod : u.requestMethod = c.requestMethod) (hresponse : ∃ t peak fault, u.toResponse
      = { c.toResponse with tLastReceived := t, peak := peak, fault := fault }) {l : List Act}
    (hlog : u.log = c.log ++ l) (htakes : ∀ a ∈ l, Transfer.takes a = false) : Downloading content head (post ++ l) u := by
  obtain ⟨t, peak, fault, hresponse⟩ := hresponse
  have hsame : Transfer.ofLog u.log = Transfer.ofLog c.log := by
    rw [hlog]
    exact Transfer.ofLog_other _ htakes
  have hfield : ∀ {β : Type} (f : Response → β), f u.toResponse
      = f { c.toResponse with tLastReceived := t, peak := peak, fault := fault } := fun f => congrArg f hresponse
  have hindex : u.dwOperIndex = c.dwOperIndex := hfield Response.dwOperIndex
  constructor
  · rw [ServesPages, hpage]
    exact hd.page
  · rw [hmethod]
    exact hd.method
  · exact (hfield fun r => r.ssi.ssi).trans hd.untagged
  · exact (hfield fun r => r.options.chunkEnabled).trans hd.plain
  · rw [hindex]
    exact hd.index
  · exact (hfield Response.dwTotal).trans hd.total
  · have hstage : u.dwOperStage = c.dwOperStage := hfield Response.dwOperStage
    rw [hstage, hindex, List.countP_append]
    rcases hd.stage with h | h
    · exact .inl h
    · exact .inr (Nat.le_add_right_of_le h)
  · have hleft : u.bytesLeft = c.bytesLeft := hfield Response.bytesLeft
    rw [hleft]
    exact hd.room
  · exact tracked_quiet hd.tracked (hfield Response.bytesLeft) (hfield Response.mem) hlog htakes
  · rw [hsame]
    exact hd.header
  · rw [hsame, hindex]
    exact hd.bytes
  · rw [hsame]
    exact hd.written

/-- A step that logs nothing either. -/
theorem Downloading.same {c u : RequestContext} (hd : Downloading content head post c)
    (hpage : u.handler = c.handler) (hmethod : u.requestMethod = c.requestMethod)
    (hresponse : ∃ t peak fault, u.toResponse
      = { c.toResponse with tLastReceived := t, peak := peak, fault := fault })
    (hlog : u.log = c.log) : Downloading content head post u := by
  rw [← List.append_nil post]
  exact hd.quiet hpage hmethod hresponse (by rw [hlog, List.append_nil]) fun a ha => nomatch ha

/-- Writes that succeed leave the history clean. -/
theorem foldl_written (t : Transfer) {l : List Act} (h : ∀ a ∈ l, a.isWrite ∧ a.written = true)
    (ht : t.failed = false) : (l.foldl Transfer.add t).failed = false := by
  induction l generalizing t with
  | nil => exact ht
  | cons a l ih =>
    obtain ⟨hwrite, hok⟩ := h a (List.mem_cons_self ..)
    rw [List.foldl_cons]
    refine ih _ (fun b hb => h b (List.mem_cons_of_mem _ hb)) ?_
    cases a with
    | write bs ok =>
      rw [show ok = true from hok]
      exact ht
    | _ => cases hwrite

/-- `sendBuffered` moves what was put on, as long as writes succeed. -/
theorem Downloading.send {s : Sys} (hd : Downloading content head post s.c)
    (hmem : s.c.mem.length = memSize) {l : List Act} (hlog : (sendBuffered s).1.c.log = s.c.log ++ l)
    (hok : ∀ a ∈ l, a.written = true) :
    Downloading content head (post ++ l) (sendBuffered s).1.c := by
  have hbuf : (maxSendBufSize : Int) = 256 := rfl
  have hroom := hd.room
  have hleft := sendBuffered_bytesLeft hd.tracked.left
  have hcontext := sendBuffered_appContext hd.tracked.left (by omega)
  have htracked := tracked_send hd.tracked hmem
  obtain ⟨sent, hsent⟩ := sendBuffered_sent hd.tracked.left (by rw [hmem]; exact hd.tracked.fits)
  obtain ⟨_, _, _, _, log, _, hframe, -, -, hwrites⟩ := SendFrame.sendBuffered s
  have hl : log = l := by
    have hsame : (sendBuffered s).1.c.log = s.c.log ++ log := by rw [hframe]
    exact List.append_cancel_left (hsame.symm.trans hlog)
  have hl' : sent = l := List.append_cancel_left (hsent.logged.symm.trans hlog)
  subst hl hl'
  have hclean := foldl_written (Transfer.ofLog s.c.log) (fun a ha => ⟨hwrites a ha, hok a ha⟩) hd.written
  obtain ⟨bs, hfold, -⟩ := hsent.moved _ hclean
  have hhistory : Transfer.ofLog (sendBuffered s).1.c.log
      = { Transfer.ofLog s.c.log with accepted := (Transfer.ofLog s.c.log).accepted ++ bs } := by
    rw [hlog, Transfer.ofLog_append]
    exact hfold
  have huntagged : (sendBuffered s).1.c.toResponse.ssi.ssi = 0 := by
    rw [Response.ssi, hcontext]
    exact hd.untagged
  have hroom' : (sendBuffered s).1.c.bytesLeft ≤ 254 := hleft.2.trans hroom
  have hfields : (sendBuffered s).1.c.handler = s.c.handler ∧
      (sendBuffered s).1.c.requestMethod = s.c.requestMethod ∧
      (sendBuffered s).1.c.options = s.c.options ∧ (sendBuffered s).1.c.dwOperIndex = s.c.dwOperIndex ∧
      (sendBuffered s).1.c.dwTotal = s.c.dwTotal ∧
      (sendBuffered s).1.c.dwOperStage = s.c.dwOperStage := by
    rw [hframe]
    exact ⟨rfl, rfl, rfl, rfl, rfl, rfl⟩
  obtain ⟨hpage, hmethod, hoptions, hindex, htotal, hstage⟩ := hfields
  constructor
  · rw [ServesPages, hpage]
    exact hd.page
  · rw [hmethod]
    exact hd.method
  · exact huntagged
  · rw [hoptions]
    exact hd.plain
  · rw [hindex]
    exact hd.index
  · rw [htotal]
    exact hd.total
  · rw [hstage, hindex, List.countP_append]
    rcases hd.stage with h | h
    · exact .inl h
    · exact .inr (Nat.le_add_right_of_le h)
  · exact hroom'
  · exact htracked
  · rw [hhistory]
    exact hd.header
  · rw [hhistory, hindex]
    exact hd.bytes
  · rw [hhistory]
    exact hd.written

/-! ## Loading -/

/-- The three ways through `CGI_LoadContentToSend` for a page. -/
theorem loadContent_page {s : Sys} (caller : Caller) {cgi : Cgi} (hcgi : s.c.handler = some cgi)
    (hread : cgi.readContent = some webReadContent) (hall : cgi.onAllSent = some webCloseFile) :
    (stageEnd ≤ s.c.dwOperStage ∧
      (loadContent s caller = ((s.note (.callback cgi .onAllSent)).ofCall (webCloseFile s.call), -1) ∨
        loadContent s caller = (s, 0))) ∨
    (s.c.dwOperStage < stageEnd ∧
      loadContent s caller = readToSend webReadContent (s.note (.callback cgi .readContent))) := by
  rw [loadContent, hcgi]
  dsimp only
  rw [hread]
  dsimp only
  by_cases hend : stageEnd ≤ s.c.dwOperStage
  · refine .inl ⟨hend, ?_⟩
    rw [if_pos hend]
    split
    · refine .inl ?_
      rw [cgiAllSent, if_neg (by rw [hcgi]; exact Bool.false_ne_true), Sys.invoke, hcgi]
      dsimp only
      rw [hall]
    · exact .inr rfl
  · refine .inr ⟨Nat.lt_of_not_le hend, ?_⟩
    rw [if_neg fun h => hend h.2.1, if_neg hend]

/-- Closing the file leaves everything else of the page alone. -/
theorem webCloseFile_page {c : Call} (hmem : c.r.mem.length = memSize) (hclosed : (webCloseFile c).r.fault = false) :
    (webCloseFile c).r.ssi.ssi = c.r.ssi.ssi ∧ ∃ mem, (webCloseFile c).r = { c.r with mem := mem } := by
  unfold webCloseFile at hclosed ⊢
  dsimp only at hclosed ⊢
  split at hclosed
  · rename_i hopen
    rw [if_pos hopen]
    split at hclosed
    · refine ⟨?_, _, rfl⟩
      have hfits : ({ c.r.ssi with fp := 0 } : SSIContext).Fits :=
        { ssi_fits hmem with fp := (show 0 < 4294967296 by decide) }
      change (c.r.setSsi { c.r.ssi with fp := 0 }).ssi.ssi = c.r.ssi.ssi
      rw [ssi_setSsi hmem hfits]
    · cases hclosed
  · rename_i hnone
    rw [if_neg hnone]
    exact ⟨rfl, _, rfl⟩

/-- The read of a load: the next bytes of the page, behind those that are pending. -/
theorem Downloading.readPage {s : Sys} (hd : Downloading content head post s.c)
    (hblock : s.c.sendMaxBlock = maxSendBufSize) (hmore : s.c.dwOperStage < stageEnd)
    (hfile : s.w.fs.OpenFile s.c.toResponse.ssi.fp content s.c.dwOperIndex.toNat) :
    ∃ n stage, 0 ≤ n ∧ s.c.bytesLeft + n ≤ 254 ∧ s.c.dwOperIndex + n ≤ content.length ∧
      appendedBy webReadContent s.w s.c.toRequest s.c.toResponse
        = load content s.c.dwOperIndex.toNat n.toNat ∧
      (afterRead webReadContent s.w s.c.toRequest s.c.toResponse).dwOperIndex = s.c.dwOperIndex + n ∧
      (afterRead webReadContent s.w s.c.toRequest s.c.toResponse).dwTotal = s.c.dwTotal ∧
      (afterRead webReadContent s.w s.c.toRequest s.c.toResponse).options = s.c.options ∧
      (afterRead webReadContent s.w s.c.toRequest s.c.toResponse).ssi = s.c.toResponse.ssi ∧
      (afterRead webReadContent s.w s.c.toRequest s.c.toResponse).dwOperStage = stage ∧
      (stage = stageEnd ∧ s.c.dwOperIndex + n = content.length ∨ stage = s.c.dwOperStage + 1) ∧
      ((readOf webReadContent s.w s.c.toRequest s.c.toResponse).size < 0 →
        s.c.dwOperIndex = content.length) ∧
      (stage ≠ stageEnd → (readOf webReadContent s.w s.c.toRequest s.c.toResponse).call.w.fs.OpenFile
        s.c.toResponse.ssi.fp content (s.c.dwOperIndex + n).toNat) := by
  have hroom := hd.room
  have hleft := hd.tracked.left
  obtain ⟨hnonneg, hlast⟩ := hd.index
  have htotal := hd.total
  have hfree : freeSize s.c.toRequest s.c.toResponse = 254 - s.c.bytesLeft := by
    have hbuf : (maxSendBufSize : Int) = 256 := rfl
    rw [freeSize, hblock, hd.plain, if_neg Bool.false_ne_true, hbuf]
    omega
  have hread : PlainRead content 0 ⟨s.w, s.c.toResponse⟩ := by
    constructor
    · exact hd.untagged
    · exact ⟨hnonneg, by rw [htotal]; exact hlast⟩
    · change ((0 : Nat) : Int) + s.c.dwTotal ≤ content.length
      omega
    · rw [Nat.zero_add]
      exact hfile
  -- What the handler returns.
  obtain ⟨n, stage, k, hk, hn, hfits, hin, hsize, hout, hresponse, hstage, hnext⟩ :
      ∃ n stage k, readOf webReadContent s.w s.c.toRequest s.c.toResponse = k ∧ 0 ≤ n ∧
        s.c.bytesLeft + n ≤ 254 ∧ s.c.dwOperIndex + n ≤ content.length ∧
        (k.size = n ∨ (k.size < 0 ∧ n = 0 ∧ stage = stageEnd ∧ s.c.dwOperIndex = content.length)) ∧
        k.out = load content s.c.dwOperIndex.toNat n.toNat ∧
        k.call.r = { s.c.toResponse with dwOperIndex := s.c.dwOperIndex + n, dwOperStage := stage } ∧
        (stage = stageEnd ∧ s.c.dwOperIndex + n = content.length ∨ stage = s.c.dwOperStage + 1) ∧
        (stage ≠ stageEnd → k.call.w.fs.OpenFile s.c.toResponse.ssi.fp content
          (s.c.dwOperIndex + n).toNat) := by
    rw [readOf, hfree, webReadContent, if_neg hd.method]
    by_cases hend : s.c.dwTotal - s.c.dwOperIndex = 0
    · rw [if_pos hend, webReadEnd, if_neg (by
        rintro ⟨hssi, -⟩
        rw [hd.untagged] at hssi
        omega)]
      refine ⟨0, stageEnd, _, rfl, by omega, by omega, by omega,
        .inr ⟨(show (-1 : Int) < 0 by decide), rfl, rfl, by omega⟩, rfl, ?_, .inl ⟨rfl, by omega⟩,
        fun hmore => absurd rfl hmore⟩
      rw [Int.add_zero]
    · rw [if_neg hend, if_pos hd.untagged]
      obtain ⟨fs, n, hmin, hcall, hafter⟩ := hread.webReadPlain (show 0 ≤ 254 - s.c.bytesLeft by omega)
      have hfile' := hafter.file
      rw [hcall] at hfile' ⊢
      change fs.OpenFile s.c.toResponse.ssi.fp content (0 + (s.c.dwOperIndex + n).toNat) at hfile'
      rw [Nat.zero_add] at hfile'
      change n = min (s.c.dwTotal - s.c.dwOperIndex) (254 - s.c.bytesLeft) at hmin
      refine ⟨n, readStage s.c.dwOperStage (s.c.dwOperIndex + n) s.c.dwTotal, _, rfl, by omega, by omega,
        by omega, .inl rfl, ?_, rfl, ?_, fun _ => hfile'⟩
      · rw [Nat.zero_add]
      · rw [readStage]
        have hstageEnd : stageEnd = 4294967295 := rfl
        split
        · exact .inl ⟨rfl, by omega⟩
        · exact .inr (Nat.mod_eq_of_lt (by omega))
  have hlen : k.out.length = n.toNat := by
    rw [hout]
    exact length_load (by omega)
  -- Where it is put.
  have hsame : afterRead webReadContent s.w s.c.toRequest s.c.toResponse
      = storePlain k.call.r s.c.bytesLeft k := by
    rw [afterRead, hk, if_neg (by rw [hd.plain]; exact Bool.false_ne_true)]
  have hcontext : ∀ r : Response, (storePlain r s.c.bytesLeft k).ssi = r.ssi := by
    intro r
    have hput : (r.putSend s.c.bytesLeft k.out).mem.drop maxSendBufSize = r.mem.drop maxSendBufSize := by
      have hbuf : maxSendBufSize = 256 := rfl
      rw [Response.putSend]
      dsimp only
      split
      · exact drop_store (by omega)
      · rfl
    unfold storePlain
    dsimp only
    split
    · exact congrArg SSIContext.ofBytes hput
    · exact congrArg SSIContext.ofBytes hput
  have hkept : ∀ r : Response, (storePlain r s.c.bytesLeft k).dwOperIndex = r.dwOperIndex ∧
      (storePlain r s.c.bytesLeft k).dwTotal = r.dwTotal ∧
      (storePlain r s.c.bytesLeft k).options = r.options ∧
      (storePlain r s.c.bytesLeft k).dwOperStage = if k.size < 0 then stageEnd else r.dwOperStage := by
    intro r
    unfold storePlain
    dsimp only
    split
    · exact ⟨rfl, rfl, rfl, rfl⟩
    · exact ⟨rfl, rfl, rfl, rfl⟩
  obtain ⟨h1, h2, h3, h4⟩ := hkept k.call.r
  refine ⟨n, stage, hn, hfits, hin, ?_, ?_, ?_, ?_, ?_, ?_, hstage, ?_, ?_⟩
  · rw [appendedBy, hk, if_neg (by rw [hd.plain]; exact Bool.false_ne_true), hout]
    rcases hsize with hsize | ⟨hneg, hzero, -, -⟩
    · rw [hsize, List.take_of_length_le (by rw [← hout, hlen])]
    · rw [hzero]
      exact List.take_nil
  · rw [hsame, h1, hresponse]
  · rw [hsame, h2, hresponse]
  · rw [hsame, h3, hresponse]
  · rw [hsame, hcontext, hresponse]
    rfl
  · rw [hsame, h4, hresponse]
    dsimp only
    rcases hsize with hsize | ⟨hneg, -, hend, -⟩
    · rw [if_neg (by omega)]
    · rw [if_pos hneg, hend]
  · rw [hk]
    intro hneg
    rcases hsize with hsize | ⟨-, -, -, hend⟩
    · omega
    · exact hend
  · rw [hk]
    exact hnext

/-- What a load appends to the history. -/
theorem ofLog_afterLoad {s t : Sys} {caller : Caller} {d : Int} {log : List Act}
    (hload : loadContent (s.setResponse { s.c.toResponse with peak := 0 }) caller = (t, d))
    (htracked : Tracked s.c) (hroom : s.c.bytesLeft ≤ maxSendBufSize) (hmem : s.c.mem.length = memSize)
    (hcalls : ∀ a ∈ log, a.isCallback) (hok : t.c.fault = false) :
    Transfer.ofLog (s.c.log ++ (log ++ [.load s.w s.c.toRequest { s.c.toResponse with peak := 0 }
      t.c.toResponse d])) = { Transfer.ofLog s.c.log with
        content := (Transfer.ofLog s.c.log).content ++
          appendedOf s.w s.c.toRequest { s.c.toResponse with peak := 0 }
        reads := (Transfer.ofLog s.c.log).reads ++
          [Transfer.returned s.w s.c.toRequest { s.c.toResponse with peak := 0 }] } := by
  have happ := loadContent_appended (s := s.setResponse { s.c.toResponse with peak := 0 })
    caller htracked.left hroom hmem (by rw [hload]; exact hok)
  rw [hload] at happ
  have hloaded : Transfer.loaded { s.c.toResponse with peak := 0 } t.c.toResponse
      = appendedOf s.w s.c.toRequest { s.c.toResponse with peak := 0 } := happ.loaded hmem htracked.fits
  rw [← List.append_assoc, Transfer.ofLog_load,
    Transfer.ofLog_other _ fun a ha => takes_of_callback (hcalls a ha), hloaded]

/-- What a load leaves of a page: `n` more bytes of it are put, and the file is read up to there. -/
structure PageAdvance (content : Bytes) (post : List Act) (s : Sys) (w : World) (r : Response) (d n : Int) :
    Prop where
  count : 0 ≤ n
  inside : s.c.dwOperIndex + n ≤ content.length
  bytes : appendedOf s.w s.c.toRequest { s.c.toResponse with peak := 0 }
    = load content s.c.dwOperIndex.toNat n.toNat
  untagged : r.ssi.ssi = 0
  plain : r.options.chunkEnabled = false
  index : r.dwOperIndex = s.c.dwOperIndex + n
  total : r.dwTotal = s.c.dwTotal
  room : r.bytesLeft ≤ 254
  stage : r.dwOperStage = stageEnd ∧ s.c.dwOperIndex + n = content.length ∨
    r.dwOperStage ≤ post.countP Act.isLoad + 1
  ended : d < 0 → s.c.dwOperIndex = content.length
  file : r.dwOperStage ≠ stageEnd → s.c.dwOperStage ≠ stageEnd ∧ r.ssi.fp = s.c.toResponse.ssi.fp ∧
    w.fs.OpenFile s.c.toResponse.ssi.fp content r.dwOperIndex.toNat

theorem appendedOf_end {w : World} {h : Request} {r : Response} (hend : stageEnd ≤ r.dwOperStage) :
    appendedOf w h r = [] := by
  unfold appendedOf
  split
  · rfl
  · exact if_neg (Nat.not_lt.mpr hend)

theorem Downloading.advance {s t : Sys} {caller : Caller} {d : Int} (hd : Downloading content head post s.c)
    (hmem : s.c.mem.length = memSize) (hblock : s.c.sendMaxBlock = maxSendBufSize)
    (hload : loadContent (s.setResponse { s.c.toResponse with peak := 0 }) caller = (t, d))
    (hok : t.c.fault = false)
    (hfile : s.c.dwOperStage ≠ stageEnd → s.w.fs.OpenFile s.c.toResponse.ssi.fp content s.c.dwOperIndex.toNat)
    (hloads : post.countP Act.isLoad < stageEnd) :
    ∃ n, PageAdvance content post s t.w t.c.toResponse d n := by
  have hroom := hd.room
  obtain ⟨hnonneg, hlast⟩ := hd.index
  have hd₀ : Downloading content head post (s.setResponse { s.c.toResponse with peak := 0 }).c :=
    hd.same rfl rfl ⟨_, _, _, rfl⟩ rfl
  obtain ⟨cgi, hcgi, hread, hall⟩ := hd.page.handler
  have hend : stageEnd ≤ s.c.dwOperStage → s.c.dwOperStage = stageEnd ∧ s.c.dwOperIndex = content.length := by
    intro hend
    rcases hd.stage with h | h
    · exact h
    · omega
  -- At the end of the page nothing is put any more.
  have hnothing : stageEnd ≤ s.c.dwOperStage → ∀ (w : World) (r : Response) (mem : Bytes),
      r.ssi.ssi = s.c.toResponse.ssi.ssi → r = { s.c.toResponse with peak := 0, mem := mem } →
      PageAdvance content post s w r d 0 := by
    intro hstage w r mem hssi hr
    constructor
    · exact Int.le_refl 0
    · omega
    · exact appendedOf_end hstage
    · rw [hssi]
      exact hd.untagged
    · rw [hr]
      exact hd.plain
    · rw [hr, Int.add_zero]
    · rw [hr]
    · rw [hr]
      exact hroom
    · rw [hr, Int.add_zero]
      exact .inl (hend hstage)
    · exact fun _ => (hend hstage).2
    · intro hmore
      rw [hr] at hmore
      exact absurd (hend hstage).1 hmore
  rcases loadContent_page (s := s.setResponse { s.c.toResponse with peak := 0 }) caller hcgi hread hall with
    ⟨hstage, hsent | hnone⟩ | ⟨hstage, hreads⟩
  · rw [hsent] at hload
    obtain ⟨rfl, -⟩ := Prod.mk.inj hload
    obtain ⟨hssi, mem, hclosed⟩ := webCloseFile_page
      (c := (s.setResponse { s.c.toResponse with peak := 0 }).call) hmem hok
    change (webCloseFile (s.setResponse { s.c.toResponse with peak := 0 }).call).r.ssi.ssi
      = s.c.toResponse.ssi.ssi at hssi
    exact ⟨0, hnothing hstage _ _ mem hssi hclosed⟩
  · rw [hnone] at hload
    obtain ⟨rfl, -⟩ := Prod.mk.inj hload
    exact ⟨0, hnothing hstage _ _ s.c.mem rfl rfl⟩
  · rw [hreads] at hload
    obtain ⟨rfl, rfl⟩ := Prod.mk.inj hload
    change s.c.dwOperStage < stageEnd at hstage
    obtain ⟨n, stage, hn, hfits, hin, hbytes, hindex, htotal, hoptions, hssi, hstage', hnext, hlast', hfile'⟩ :=
      hd₀.readPage hblock hstage (hfile (Nat.ne_of_lt hstage))
    have hreader : readerOf s.c.toRequest = some webReadContent := by
      rw [readerOf, hcgi]
      exact hread
    refine ⟨n, hn, hin, ?_, ?_, ?_, hindex, htotal, ?_, ?_, ?_, ?_⟩
    · rw [appendedOf, hreader]
      dsimp only
      rw [if_pos hstage]
      exact hbytes
    · exact (congrArg SSIContext.ssi hssi).trans hd.untagged
    · exact (congrArg Options.chunkEnabled hoptions).trans hd.plain
    · have hbuf : (maxSendBufSize : Int) = 256 := rfl
      have hapart : s.c.bytesLeft ≤ maxSendBufSize := by omega
      have happ := loadContent_appended (s := s.setResponse { s.c.toResponse with peak := 0 })
        caller hd.tracked.left hapart hmem (by rw [hreads]; exact hok)
      rw [hreads] at happ
      have hleft := happ.left
      have hput : appendedOf s.w s.c.toRequest { s.c.toResponse with peak := 0 }
          = load content s.c.dwOperIndex.toNat n.toNat := by
        rw [appendedOf, hreader]
        dsimp only
        rw [if_pos hstage]
        exact hbytes
      change _ = s.c.bytesLeft
        + ((appendedOf s.w s.c.toRequest { s.c.toResponse with peak := 0 }).length : Int) at hleft
      change s.c.dwOperIndex + n ≤ content.length at hin
      change s.c.bytesLeft + n ≤ 254 at hfits
      rw [hput, length_load (by omega)] at hleft
      exact Int.le_trans (Int.le_of_eq hleft) (by omega)
    · have hcount : s.c.dwOperStage ≤ post.countP Act.isLoad := by
        rcases hd.stage with h | h
        · omega
        · exact h
      rcases hnext with ⟨hend', hwhole⟩ | hlater
      · exact .inl ⟨hstage'.trans hend', hwhole⟩
      · exact .inr ((hstage'.trans hlater).trans_le (Nat.add_le_add_right hcount 1))
    · intro hneg
      exact (hlast' (hasData_neg.mp hneg))
    · intro hmore
      refine ⟨Nat.ne_of_lt hstage, congrArg SSIContext.fp hssi, ?_⟩
      have hstands := hfile' fun h => hmore (hstage'.trans h)
      rw [← hindex] at hstands
      exact hstands

/-! ## The page and its file -/

/-- A page under way: `Downloading`, and slot `fp` of `g_FileOpened` has the file of the page, read up
to what was put of it. -/
structure PageAt (content head : Bytes) (fp : Nat) (post : List Act) (fs : FileSystem) (c : RequestContext) :
    Prop extends Downloading content head post c where
  file : c.dwOperStage ≠ stageEnd → c.toResponse.ssi.fp = fp ∧ fs.OpenFile fp content c.dwOperIndex.toNat

variable {fp : Nat}

theorem PageAt.move {fs : FileSystem} {c u : RequestContext} {post' : List Act}
    (h : PageAt content head fp post fs c) (hd : Downloading content head post' u)
    (hresponse : u.dwOperStage = c.dwOperStage ∧ u.dwOperIndex = c.dwOperIndex ∧
      u.toResponse.ssi = c.toResponse.ssi) : PageAt content head fp post' fs u where
  toDownloading := hd
  file := by
    obtain ⟨hstage, hindex, hssi⟩ := hresponse
    rw [hstage, hindex, hssi]
    exact h.file

/-- A step that changes nothing of the response. -/
theorem PageAt.quiet {fs : FileSystem} {c u : RequestContext} (h : PageAt content head fp post fs c)
    (hpage : u.handler = c.handler) (hmethod : u.requestMethod = c.requestMethod)
    (hresponse : ∃ t peak fault, u.toResponse
      = { c.toResponse with tLastReceived := t, peak := peak, fault := fault }) {l : List Act}
    (hlog : u.log = c.log ++ l) (htakes : ∀ a ∈ l, Transfer.takes a = false) :
    PageAt content head fp (post ++ l) fs u := by
  refine h.move (h.toDownloading.quiet hpage hmethod hresponse hlog htakes) ?_
  obtain ⟨t, peak, fault, hresponse⟩ := hresponse
  rw [hresponse]
  exact ⟨rfl, rfl, rfl⟩

/-- A step that logs nothing either. -/
theorem PageAt.same {fs : FileSystem} {c u : RequestContext} (h : PageAt content head fp post fs c)
    (hpage : u.handler = c.handler) (hmethod : u.requestMethod = c.requestMethod)
    (hresponse : ∃ t peak fault, u.toResponse
      = { c.toResponse with tLastReceived := t, peak := peak, fault := fault })
    (hlog : u.log = c.log) : PageAt content head fp post fs u := by
  rw [← List.append_nil post]
  exact h.quiet hpage hmethod hresponse (by rw [hlog, List.append_nil]) fun a ha => nomatch ha

/-- `sendBuffered` does not touch the file. -/
theorem PageAt.send {s : Sys} (h : PageAt content head fp post s.w.fs s.c) (hmem : s.c.mem.length = memSize)
    {l : List Act} (hlog : (sendBuffered s).1.c.log = s.c.log ++ l) (hok : ∀ a ∈ l, a.written = true) :
    PageAt content head fp (post ++ l) (sendBuffered s).1.w.fs (sendBuffered s).1.c := by
  have hroom := h.room
  have hbuf : (maxSendBufSize : Int) = 256 := rfl
  have hcontext := sendBuffered_appContext h.tracked.left (show s.c.bytesLeft ≤ maxSendBufSize by omega)
  have hd := h.toDownloading.send hmem hlog hok
  obtain ⟨_, _, _, _, _, _, hframe, -⟩ := SendFrame.sendBuffered s
  have hworld : (sendBuffered s).1.w = s.w := by rw [hframe]
  rw [hworld]
  refine h.move hd ⟨?_, ?_, ?_⟩
  · rw [hframe]
  · rw [hframe]
  · exact congrArg SSIContext.ofBytes hcontext

/-- A load goes on with the page, and with its file. -/
theorem PageAt.load {s : Sys} {caller : Caller} (h : PageAt content head fp post s.w.fs s.c)
    (hmem : s.c.mem.length = memSize) (hblock : s.c.sendMaxBlock = maxSendBufSize)
    (hok : (cgiLoadContentToSend s caller).1.c.fault = false) {l : List Act}
    (hlog : (cgiLoadContentToSend s caller).1.c.log = s.c.log ++ l)
    (hloads : post.countP Act.isLoad < stageEnd) :
    PageAt content head fp (post ++ l) (cgiLoadContentToSend s caller).1.w.fs
        (cgiLoadContentToSend s caller).1.c ∧
      (cgiLoadContentToSend s caller).1.c.mem.length = memSize := by
  have hbuf : (maxSendBufSize : Int) = 256 := rfl
  have hroom := h.room
  obtain ⟨hnonneg, -⟩ := h.index
  obtain ⟨htracked, hlen⟩ := tracked_load h.tracked hmem (by omega) hok
  refine ⟨?_, hlen⟩
  obtain ⟨t, d, hcall, hload, heq⟩ := cgiLoadContentToSend_spec s caller
  rw [heq] at hok hlog htracked ⊢
  obtain ⟨w, r, log, rfl, hcalls⟩ := hcall
  have hl : l = log ++ [.load s.w s.c.toRequest { s.c.toResponse with peak := 0 } r d] := by
    refine (List.append_right_inj s.c.log).mp ?_
    rw [← hlog, ← List.append_assoc]
    rfl
  have hstands : s.c.dwOperStage ≠ stageEnd →
      s.w.fs.OpenFile s.c.toResponse.ssi.fp content s.c.dwOperIndex.toNat := by
    intro hmore
    obtain ⟨hfp, hfile⟩ := h.file hmore
    rw [hfp]
    exact hfile
  obtain ⟨n, ha⟩ := h.toDownloading.advance hmem hblock hload hok hstands hloads
  have hhistory := ofLog_afterLoad hload h.tracked (by omega) hmem (fun a h => (hcalls a h).isCallback) hok
  rw [← hl, ← hlog] at hhistory
  have hcount : l.countP Act.isLoad = 1 := by
    rw [hl, List.countP_append, List.countP_eq_zero.mpr]
    · rfl
    · intro a h
      have hcallback := (hcalls a h).isCallback
      cases a with
      | callback => exact Bool.false_ne_true
      | _ => cases hcallback
  have hindex : r.dwOperIndex = s.c.dwOperIndex + n := ha.index
  have hn := ha.count
  refine ⟨?_, ?_⟩
  · constructor
    · exact h.page
    · exact h.method
    · exact ha.untagged
    · exact ha.plain
    · change 0 ≤ r.dwOperIndex ∧ r.dwOperIndex ≤ content.length
      rw [hindex]
      exact ⟨by omega, ha.inside⟩
    · exact ha.total.trans h.total
    · change r.dwOperStage = stageEnd ∧ r.dwOperIndex = content.length ∨ r.dwOperStage ≤ _
      rw [hindex, List.countP_append, hcount]
      exact ha.stage
    · exact ha.room
    · exact htracked
    · rw [hhistory]
      exact h.header
    · have hsum : (s.c.dwOperIndex + n).toNat = s.c.dwOperIndex.toNat + n.toNat := by omega
      rw [hhistory]
      change (Transfer.ofLog s.c.log).content ++ appendedOf s.w s.c.toRequest { s.c.toResponse with peak := 0 }
        = CMem.load content 0 r.dwOperIndex.toNat
      rw [h.bytes, ha.bytes, hindex, hsum, load_add, Nat.zero_add]
    · rw [hhistory]
      exact h.written
  · intro hmore
    obtain ⟨hbefore, hsame, hfile⟩ := ha.file hmore
    obtain ⟨hfp, -⟩ := h.file hbefore
    rw [hfp] at hsame hfile
    exact ⟨hsame, hfile⟩

/-! ## The response over a run -/

/-- The log from a header on is the rest of a response under way, whose writes succeed. -/
structure Rest (post : List Act) : Prop where
  continues : ∀ a ∈ post, a.continues = true
  written : ∀ a ∈ post, a.written = true
  loads : post.countP Act.isLoad < stageEnd

theorem Rest.before {m l : List Act} (h : Rest (m ++ l)) : Rest m where
  continues := fun a ha => h.continues a (List.mem_append_left _ ha)
  written := fun a ha => h.written a (List.mem_append_left _ ha)
  loads := by
    have hloads := h.loads
    rw [List.countP_append] at hloads
    omega

/-- What a page under way keeps: `base` is the log with its header. -/
def DownloadInv (content head : Bytes) (fp : Nat) (base : List Act) (fs : FileSystem) (c : RequestContext) :
    Prop :=
  c.sending = true → ∀ post, c.log = base ++ post → Rest post → PageAt content head fp post fs c

/-- What was accepted of a response with the header `head` and is pending in `r` makes up the header
and the first `n` bytes of the page. -/
def PutSoFar (content head : Bytes) (log : List Act) (r : Response) (n : Nat) : Prop :=
  n ≤ content.length ∧ (Transfer.ofLog log).accepted ++ r.pending = head ++ content.take n

theorem Downloading.putSoFar {c : RequestContext} (hd : Downloading content head post c) :
    PutSoFar content head c.log c.toResponse c.dwOperIndex.toNat := by
  obtain ⟨-, hlast⟩ := hd.index
  have hwhole := hd.tracked.whole hd.written
  rw [hd.header, hd.bytes, load_zero] at hwhole
  exact ⟨by omega, hwhole.symm⟩

/-- Every load behind `base` found the first bytes of the page put, and all of them where it ended the
response. -/
def LoadsInv (content head : Bytes) (base log : List Act) : Prop :=
  ∀ post w h r r' d rest, log = base ++ (post ++ .load w h r r' d :: rest) → r'.fault = false →
    Rest (post ++ [.load w h r r' d]) →
      ∃ n, PutSoFar content head (base ++ post) r n ∧ (d < 0 → n = content.length)

/-- What the actions of connection `k` keep from the header in `base` on. -/
structure PageRun (content head : Bytes) (fp : Nat) (base : List Act) (k : Nat) (fs : FileSystem)
    (c : RequestContext) : Prop where
  begun : base <+: c.log
  own : c.pcb.isSome → c.pcb = some k
  page : c.fault = false → c.pcb = some k → DownloadInv content head fp base fs c
  loads : LoadsInv content head base c.log

section

variable {base : List Act} {fs : FileSystem}

theorem downloadInv_idle {c : RequestContext} (h : c.sending = false) : DownloadInv content head fp base fs c := by
  intro hs
  rw [h] at hs
  cases hs

/-- A step that adds entries to the log. -/
theorem DownloadInv.extend {c u : RequestContext} {fs' : FileSystem} (hi : DownloadInv content head fp base fs c)
    (hbase : base <+: c.log) (hsending : c.sending = true) {l : List Act} (hlog : u.log = c.log ++ l)
    (hstep : ∀ post, PageAt content head fp post fs c → Rest (post ++ l) →
      PageAt content head fp (post ++ l) fs' u) : DownloadInv content head fp base fs' u := by
  intro _ post hsplit hrest
  obtain ⟨m, hm⟩ := hbase
  rw [hlog, ← hm, List.append_assoc] at hsplit
  obtain rfl := List.append_cancel_left hsplit
  exact hstep m (hi hsending m hm.symm hrest.before) hrest

/-- A step that ends the response, or begins the next one. -/
theorem downloadInv_ended {c u : RequestContext} (hbase : base <+: c.log) {l : List Act}
    (hlog : u.log = c.log ++ l) {a : Act} (ha : a ∈ l) (hnot : a.continues = false) :
    DownloadInv content head fp base fs u := by
  intro _ post hsplit hrest
  obtain ⟨m, hm⟩ := hbase
  rw [hlog, ← hm, List.append_assoc] at hsplit
  obtain rfl := List.append_cancel_left hsplit
  rw [hrest.continues a (List.mem_append_right _ ha)] at hnot
  cases hnot

/-- An entry of a log in two parts is in one of them. -/
theorem entry_split {log l pre rest : List Act} {a : Act} (h : log ++ l = pre ++ a :: rest) :
    (∃ m, log = pre ++ a :: m) ∨ ∃ m, pre = log ++ m ∧ l = m ++ a :: rest := by
  rcases List.append_eq_append_iff.mp h with ⟨m, hpre, hl⟩ | ⟨m, hlog, hm⟩
  · exact .inr ⟨m, hpre, hl⟩
  · cases m with
    | nil =>
      rw [List.append_nil] at hlog
      exact .inr ⟨[], by rw [hlog, List.append_nil], hm.symm⟩
    | cons b m =>
      obtain ⟨rfl, -⟩ := List.cons.inj hm
      exact .inl ⟨m, hlog⟩

/-- Only failed writes stop `sendBuffered`. -/
theorem sendBuffered_written {s : Sys} (htracked : Tracked s.c) (hmem : s.c.mem.length = memSize)
    {l : List Act} (hlog : (sendBuffered s).1.c.log = s.c.log ++ l) (hok : ∀ a ∈ l, a.written = true) :
    (sendBuffered s).2 = true := by
  obtain ⟨sent, hsent⟩ := sendBuffered_sent htracked.left (by rw [hmem]; exact htracked.fits)
  obtain ⟨_, _, _, _, log, _, hframe, -, -, hwrites⟩ := SendFrame.sendBuffered s
  have hframe' : (sendBuffered s).1.c.log = s.c.log ++ log := by rw [hframe]
  have hl : log = l := List.append_cancel_left (hframe'.symm.trans hlog)
  have hl' : sent = l := List.append_cancel_left (hsent.logged.symm.trans hlog)
  subst hl hl'
  by_contra hbad
  have hfailed := hsent.failed (by simpa using hbad) Transfer.zero
  rw [foldl_written Transfer.zero (fun a ha => ⟨hwrites a ha, hok a ha⟩) rfl] at hfailed
  cases hfailed

theorem downloadInv_sendRemaining {s : Sys} (hs : Shape s.c) (hbase : base <+: s.c.log)
    (hi : DownloadInv content head fp base s.w.fs s.c) :
    DownloadInv content head fp base (sendRemaining s).w.fs (sendRemaining s).c := by
  intro hsending
  rw [(sendRemaining_kept s).1] at hsending
  obtain ⟨_, _, _, _, l, _, hframe, -, -, hwrites⟩ := SendFrame.sendBuffered s
  have hsent : (sendBuffered s).1.c.log = s.c.log ++ l := by rw [hframe]
  have hlog : (sendRemaining s).c.log = s.c.log ++ l := by
    unfold sendRemaining
    dsimp only
    split
    · exact hsent
    · exact hsent
  refine hi.extend hbase hsending hlog (fun post hd hrest => ?_) (by rw [(sendRemaining_kept s).1]; exact hsending)
  have hkept : ∀ a ∈ l, a.written = true := fun a ha => hrest.written a (List.mem_append_right _ ha)
  unfold sendRemaining
  dsimp only
  rw [if_pos (sendBuffered_written hd.tracked hs.mem hsent hkept)]
  exact hd.send hs.mem hsent hkept

theorem downloadInv_sendBody {s : Sys} {caller : Caller} (hs : Shape s.c) (hbase : base <+: s.c.log)
    (hi : DownloadInv content head fp base s.w.fs s.c) (hinv : SendInv s.c) (hsent : s.c.sending = true)
    (hok : (sendBody s caller).c.fault = false) :
    DownloadInv content head fp base (sendBody s caller).w.fs (sendBody s caller).c := by
  rw [sendBody_fault] at hok
  -- What is logged: the load, and the writes behind it if there is data.
  obtain ⟨l₁, hload⟩ : ∃ l, (cgiLoadContentToSend s caller).1.c.log = s.c.log ++ l := by
    obtain ⟨t, d, hcall, -, heq⟩ := cgiLoadContentToSend_spec s caller
    obtain ⟨w, r, log, rfl, -⟩ := hcall
    refine ⟨log ++ [.load s.w s.c.toRequest { s.c.toResponse with peak := 0 } r d], ?_⟩
    rw [heq, ← List.append_assoc]
    rfl
  obtain ⟨_, _, _, _, l₂, _, hframe, -, -, hwrites⟩ :=
    SendFrame.sendBuffered (cgiLoadContentToSend s caller).1
  have hsend : (sendBuffered (cgiLoadContentToSend s caller).1).1.c.log
      = (cgiLoadContentToSend s caller).1.c.log ++ l₂ := by rw [hframe]
  have hblock : s.c.sendMaxBlock = maxSendBufSize := hinv.block hsent
  unfold sendBody
  dsimp only
  by_cases hdata : 0 < (cgiLoadContentToSend s caller).2
  · rw [if_pos hdata]
    have hlog : (sendBuffered (cgiLoadContentToSend s caller).1).1.c.log = s.c.log ++ (l₁ ++ l₂) := by
      rw [hsend, hload, List.append_assoc]
    have hmain : ∀ post, PageAt content head fp post s.w.fs s.c → Rest (post ++ (l₁ ++ l₂)) →
        (sendBuffered (cgiLoadContentToSend s caller).1).2 = true ∧
          PageAt content head fp (post ++ (l₁ ++ l₂)) (sendBuffered (cgiLoadContentToSend s caller).1).1.w.fs
            (sendBuffered (cgiLoadContentToSend s caller).1).1.c := by
      intro post hd hrest
      obtain ⟨hd', hmem⟩ := hd.load hs.mem hblock hok hload hrest.before.loads
      have hkept : ∀ a ∈ l₂, a.written = true := fun a ha =>
        hrest.written a (List.mem_append_right _ (List.mem_append_right _ ha))
      refine ⟨sendBuffered_written hd'.tracked hmem hsend hkept, ?_⟩
      have hdone := hd'.send hmem hsend hkept
      rwa [List.append_assoc] at hdone
    split
    · intro hsending
      refine hi.extend hbase hsent hlog (fun post hd hrest => ?_) hsending
      exact (hmain post hd hrest).2.same rfl rfl ⟨_, _, _, rfl⟩ rfl
    · rename_i hbad
      intro hsending
      exact hi.extend (u := (sendFailed (sendBuffered (cgiLoadContentToSend s caller).1).1).c) hbase hsent hlog
        (fun post hd hrest => absurd (hmain post hd hrest).1 hbad) hsending
  · rw [if_neg hdata]
    have hmain : ∀ post, PageAt content head fp post s.w.fs s.c → Rest (post ++ l₁) →
        PageAt content head fp (post ++ l₁) (cgiLoadContentToSend s caller).1.w.fs
          (cgiLoadContentToSend s caller).1.c := fun post hd hrest =>
      (hd.load hs.mem hblock hok hload hrest.before.loads).1
    split
    · intro hsending
      refine hi.extend (u := ((cgiLoadContentToSend s caller).1.setState .requestEnd).c) hbase hsent hload
        (fun post hd hrest => ?_) hsending
      exact (hmain post hd hrest).same rfl rfl ⟨_, _, _, rfl⟩ rfl
    · intro hsending
      exact hi.extend hbase hsent hload hmain hsending

theorem downloadInv_freed {s s' : Sys} (h : FreedFrame s s') : DownloadInv content head fp base fs s'.c := by
  obtain ⟨_, _, _, _, _, _, rfl, -⟩ := h
  exact downloadInv_idle rfl

theorem downloadInv_rx {s : Sys} {c : RequestContext} (hbase : base <+: s.c.log)
    (hi : DownloadInv content head fp base s.w.fs s.c) (h : RxFrame s.c c) :
    DownloadInv content head fp base s.w.fs c := by
  intro hsending
  rw [h.request] at hsending
  obtain ⟨_, _, _, _, _, log, heq, -, hl⟩ := h
  have hlog : c.log = s.c.log ++ log := by rw [heq]
  refine hi.extend hbase hsending hlog (fun post hd _ => ?_) (by rw [heq]; exact hsending)
  refine hd.quiet ?_ ?_ ?_ hlog fun a ha => takes_of_rx (hl a ha)
  · rw [heq]
  · rw [heq]
  · rw [heq]
    exact ⟨_, _, _, rfl⟩

/-- A response starts with the header `v` and what `sendBuffered` makes of it. -/
theorem startResponse_sends {s v : Sys}
    (hv : cgiSetResponseHeaders (beginResponse s) (codeInfoOf s.c.result) = v) :
    (startResponse s).c.log = (sendBuffered v).1.c.log ∧ ((sendBuffered v).2 = true →
      ∃ st, startResponse s = ((sendBuffered v).1.setRequest
        { (sendBuffered v).1.c.toRequest with sending := true }).setState st) := by
  subst hv
  unfold startResponse
  dsimp only
  generalize sendBuffered (cgiSetResponseHeaders (beginResponse s) (codeInfoOf s.c.result)) = sent
  constructor
  · split
    · split
      · rfl
      · rfl
    · rfl
  · intro hgood
    rw [if_pos hgood]
    split
    · exact ⟨_, rfl⟩
    · exact ⟨_, rfl⟩

/-- Every action keeps it. -/
theorem downloadInv_step {s s' : Sys} (hs : Shape s.c) (hinv : SendInv s.c) (hbase : base <+: s.c.log)
    (hi : DownloadInv content head fp base s.w.fs s.c) (h : Micro s s') (hok : s'.c.fault = false) :
    DownloadInv content head fp base s'.w.fs s'.c := by
  have hquiet : ∀ {u : Sys}, u.w.fs = s.w.fs → u.c.log = s.c.log → u.c.handler = s.c.handler →
      u.c.requestMethod = s.c.requestMethod → (∃ t peak fault, u.c.toResponse =
        { s.c.toResponse with tLastReceived := t, peak := peak, fault := fault }) →
      u.c.sending = s.c.sending → DownloadInv content head fp base u.w.fs u.c := by
    intro u hfs hlog hpage hmethod hresponse hsame hsending
    rw [hsame] at hsending
    rw [hfs]
    have hlog' : u.c.log = s.c.log ++ [] := by rw [hlog, List.append_nil]
    exact hi.extend hbase hsending hlog' (fun post hd _ =>
      hd.quiet hpage hmethod hresponse hlog' fun a ha => nomatch ha) (hsame.trans hsending)
  cases h with
  | environment w net hpcbs hfs => exact hquiet hfs rfl rfl rfl ⟨_, _, _, rfl⟩ rfl
  | receive p hlive hfit => exact downloadInv_rx (s := s) hbase hi (.receivePbuf ..)
  | peerClosed => exact hquiet rfl rfl rfl rfl ⟨_, _, _, rfl⟩ rfl
  | touch t => exact hquiet rfl rfl rfl rfl ⟨_, _, _, rfl⟩ rfl
  | acknowledged len => exact hquiet rfl rfl rfl rfl ⟨_, _, _, rfl⟩ rfl
  | dequeue hst => exact downloadInv_rx (s := s) hbase hi (.dequeue _)
  | startRequest hst hlen => exact downloadInv_idle (hinv.early (.inl (by rw [hst]; rfl)))
  | parseHeader hst hlen =>
    exact downloadInv_idle (parseHeader_sending (hinv.early (.inl (by rw [hst]; rfl))))
  | tooLarge hst => exact downloadInv_idle (hinv.early (.inl (by rw [hst]; rfl)))
  | headersEnd hst hgood =>
    refine downloadInv_idle ?_
    obtain ⟨_, _, heq, -⟩ := headersEnd_eq s
    rw [heq, (CallFrame.cgiHeadersReceived _).request]
    exact hinv.early (.inl (by rw [hst]; rfl))
  | refuse hst hbad hsending => exact downloadInv_idle (hinv.early hsending)
  | chunkLength hst hgood =>
    refine downloadInv_idle ?_
    have hsent := hinv.early (.inl (by rw [hst]; rfl))
    unfold chunkLength
    split
    · exact hsent
    · exact hsent
  | content size hst hgood =>
    refine downloadInv_idle ((offerContent_sending s size).trans (hinv.early (.inl ?_)))
    rcases hst with h | ⟨h, -⟩
    · rw [h]
      rfl
    · rw [h]
      rfl
  | complete hst hgood =>
    refine downloadInv_idle ?_
    have hreq : (completeRequest s).c.toRequest = s.c.toRequest := (CallFrame.completeRequest s).request
    exact (congrArg Request.sending hreq).trans (hinv.early (.inr hst))
  | sendRemaining hst hres hleft => exact downloadInv_sendRemaining hs hbase hi
  | startResponse hst hres hfirst =>
    -- the entry of the next header
    obtain ⟨t, ht, heq⟩ := cgiSetResponseHeaders_spec (beginResponse s) (codeInfoOf s.c.result)
    obtain ⟨calls, hcalls⟩ := ht.logExtends
    obtain ⟨hlog, -⟩ := startResponse_sends heq
    obtain ⟨_, _, _, _, l, _, hframe, -⟩ := SendFrame.sendBuffered (t.note (.headers (beginResponse s).c.toRequest
      { (beginResponse s).c.toResponse with peak := 0 } t.c.toResponse))
    rw [hframe] at hlog
    refine downloadInv_ended hbase (l := calls ++ [.headers (beginResponse s).c.toRequest
      { (beginResponse s).c.toResponse with peak := 0 } t.c.toResponse] ++ l) ?_
      (List.mem_append_left _ (List.mem_append_right _ (List.mem_singleton.mpr rfl))) rfl
    rw [hlog, ← List.append_assoc, ← List.append_assoc]
    exact congrArg (fun log => log ++ _ ++ l) hcalls
  | headerAcked hst hres hsent =>
    unfold headerAcked
    split
    · refine hi.extend (u := ((s.note (.refused s.c.toResponse)).setState .requestEnd).c)
        (l := [.refused s.c.toResponse]) hbase hsent rfl (fun post hd _ => ?_)
      refine hd.quiet (u := ((s.note (.refused s.c.toResponse)).setState .requestEnd).c)
        (l := [.refused s.c.toResponse]) rfl rfl ⟨_, _, _, rfl⟩ rfl ?_
      intro a ha
      rw [List.mem_singleton.mp ha]
      rfl
    · exact hquiet rfl rfl rfl rfl ⟨_, _, _, rfl⟩ rfl
  | sendBody caller hst hres hsent hstage => exact downloadInv_sendBody hs hbase hi hinv hsent hok
  | requestEnd hst =>
    unfold requestEnd
    split
    · exact downloadInv_freed (closeHttpContext_frame s)
    · split
      · obtain ⟨_, _, heq, -⟩ := resetHttpContext_spec (s.note (.reset s.c.toRequest s.c.toResponse))
        rw [heq]
        exact downloadInv_idle rfl
      · exact downloadInv_freed (closeHttpContext_frame s)
  | peerGone hst hpeer => exact downloadInv_idle (hinv.early (.inl hst))
  | close => exact downloadInv_freed (closeHttpContext_frame s)
  | free hgone => exact downloadInv_freed (freeHttpContext_frame s)
  | outOfFuel => exact hquiet rfl rfl rfl rfl ⟨_, _, _, rfl⟩ rfl

/-- A load that the page runs into finds what was put so far. -/
theorem PageRun.loads_step {s s' : Sys} {k : Nat} (hreach : SlotReach s.c)
    (hi : PageRun content head fp base k s.w.fs s.c) (h : Micro s s') : LoadsInv content head base s'.c.log := by
  obtain ⟨log, hlog, hentry⟩ := micro_logged h
  rw [hlog]
  intro post w hd r r' d rest hsplit hok hrest
  rw [← List.append_assoc] at hsplit
  rcases entry_split hsplit with ⟨m, hm⟩ | ⟨m, hpre, hl⟩
  · rw [List.append_assoc] at hm
    exact hi.loads post w hd r r' d m hm hok hrest
  · -- the entry is new, and only callbacks are logged in front of it
    obtain ⟨⟨hst, hsending, -, rfl, rfl, rfl, caller, t, hload, rfl⟩, hcalls⟩ := hentry m _ rest hl rfl
    obtain ⟨q, hq⟩ := hi.begun
    rw [← hq, List.append_assoc] at hpre
    obtain rfl := List.append_cancel_left hpre
    have hfine : s.c.fault = false := by
      by_contra hbad
      have hfault : s.c.fault = true := by simpa using hbad
      have hmarked := (loadContent_kept (s.setResponse { s.c.toResponse with peak := 0 }) caller).marked hfault
      rw [hload] at hmarked
      rw [show t.c.toResponse.fault = true from hmarked] at hok
      cases hok
    have hopen : s.c.pcb.isSome := by
      by_contra hnone
      have hstate := (hreach.shape.free (by simpa using hnone)).state
      rw [hst] at hstate
      cases hstate
    rw [List.append_assoc] at hrest
    have hpage := hi.page hfine (hi.own hopen) hsending q hq.symm hrest.before
    have hstands : s.c.dwOperStage ≠ stageEnd →
        s.w.fs.OpenFile s.c.toResponse.ssi.fp content s.c.dwOperIndex.toNat := by
      intro hmore
      obtain ⟨hfp, hfile⟩ := hpage.file hmore
      rw [hfp]
      exact hfile
    obtain ⟨n, ha⟩ := hpage.toDownloading.advance hreach.shape.mem (hreach.sendInv.block hsending) hload hok
      hstands hrest.before.loads
    have hsame : Transfer.ofLog (base ++ (q ++ m)) = Transfer.ofLog s.c.log := by
      rw [← List.append_assoc, hq]
      exact Transfer.ofLog_other _ fun a h' => takes_of_callback (hcalls a h')
    refine ⟨s.c.dwOperIndex.toNat, ?_, fun hneg => ?_⟩
    · rw [PutSoFar, hsame]
      exact hpage.toDownloading.putSoFar
    · have hend := ha.ended hneg
      omega

theorem PageRun.step {s s' : Sys} {k : Nat} (hreach : SlotReach s.c)
    (hi : PageRun content head fp base k s.w.fs s.c) (h : Micro s s') :
    PageRun content head fp base k s'.w.fs s'.c where
  begun := by
    obtain ⟨l, hl⟩ := micro_logExtends h
    rw [hl]
    exact hi.begun.trans (List.prefix_append ..)
  own := by
    intro hopen
    rcases (micro_pcbStep h).own with hsame | ⟨hnone, -⟩
    · rw [hsame] at hopen ⊢
      exact hi.own hopen
    · rw [hnone] at hopen
      cases hopen
  page := by
    intro hok hk
    have hfine : s.c.fault = false := by
      by_contra hbad
      rw [(micro_kept h).marked (by simpa using hbad)] at hok
      cases hok
    have hsame : s.c.pcb = some k := by
      rcases (micro_pcbStep h).own with hsame | ⟨hnone, -⟩
      · exact hsame.symm.trans hk
      · rw [hnone] at hk
        cases hk
    exact downloadInv_step hreach.shape hreach.sendInv hi.begun (hi.page hfine hsame) h hok
  loads := hi.loads_step hreach h

/-- The rest of an event. -/
theorem PageRun.micros {s s' : Sys} {k : Nat} (hreach : SlotReach s.c)
    (hi : PageRun content head fp base k s.w.fs s.c) (h : Micros s s') :
    PageRun content head fp base k s'.w.fs s'.c := by
  induction h with
  | refl => exact hi
  | tail hbefore hlast ih => exact ih.step (hreach.micros hbefore) hlast

end

end

/-! ## The header of a page -/

/-- A complete GET for a page without tags of `content` that the client does not have, with no range. Its
header leaves room in the send buffer. -/
structure WholePage (u : Sys) (content : Bytes) : Prop where
  get : PageGet u content []
  plain : u.c.options.chunkEnabled = false
  room : (answer u).c.bytesLeft ≤ 254

/-- With the header in the send buffer the page is under way, and its file stands at its start. -/
theorem WholePage.headed {u : Sys} {content : Bytes} (h : WholePage u content) :
    PageAt content (answer u).c.toResponse.pending (answer u).c.toResponse.ssi.fp [] (answer u).w.fs
      (answer u).c := by
  have hopen := h.get.opened
  have hgiven : answer u = cgiSetResponseHeaders (beginResponse (roundEnd u 0).1)
      (codeInfoOf (beginResponse (roundEnd u 0).1).c.result) := rfl
  generalize beginResponse (roundEnd u 0).1 = t at hopen hgiven
  have hrange : (t.c.rangeFrom, t.c.rangeTo) = ((0, 0) : Int × Int) := by
    rw [hopen.before.rangeFrom, hopen.rangeTo, h.get.range]
    rfl
  obtain ⟨hfrom, hto⟩ := Prod.mk.inj hrange
  obtain ⟨hread, htotal⟩ := hopen.whole hgiven (by omega)
  obtain ⟨hrequest, huntagged, -, hindex, hstage, -⟩ := hopen.headed
  obtain ⟨htracked, -⟩ := tracked_headers hopen.mem (codeInfoOf t.c.result)
  obtain ⟨_, _, _, _, _, _, hframe, -⟩ := cgiSetResponseHeaders_frame t (codeInfoOf t.c.result)
  obtain ⟨s, -, heq⟩ := cgiSetResponseHeaders_spec t (codeInfoOf t.c.result)
  have hhistory : Transfer.ofLog (cgiSetResponseHeaders t (codeInfoOf t.c.result)).c.log
      = { Transfer.zero with
        header := (cgiSetResponseHeaders t (codeInfoOf t.c.result)).c.toResponse.pending } := by
    rw [heq]
    exact Transfer.ofLog_headers ..
  have hoptions : (cgiSetResponseHeaders t (codeInfoOf t.c.result)).c.options = t.c.options :=
    (congrArg Response.options hframe).trans rfl
  have hroom := h.room
  rw [← hgiven] at hrequest huntagged hindex hstage htracked hhistory hoptions
  generalize answer u = v at *
  have hserves : ServesPages v.c.toRequest := by
    rw [hrequest]
    rcases hopen.before.serves with hweb | ⟨hauth, -⟩
    · exact .inr (.inr hweb)
    · exact .inl hauth
  refine ⟨?_, fun _ => ⟨rfl, ?_⟩⟩
  · constructor
    · exact hserves
    · rw [hrequest, hopen.before.method, h.get.method]
      decide
    · exact huntagged
    · rw [hoptions, hopen.plain]
      exact h.plain
    · rw [hindex]
      exact ⟨Int.le_refl 0, Int.natCast_nonneg _⟩
    · exact htotal
    · rw [hstage]
      exact .inr (Nat.zero_le _)
    · exact hroom
    · exact htracked
    · rw [hhistory]
    · rw [hhistory, hindex]
      rfl
    · rw [hhistory]
      rfl
  · have hfile := hread.file
    change v.w.fs.OpenFile v.c.toResponse.ssi.fp content (0 + v.c.dwOperIndex.toNat) at hfile
    rwa [Nat.zero_add] at hfile

/-- The request is over when its answer begins. -/
theorem WholePage.over {u : Sys} {content : Bytes} (h : WholePage u content) (hu : SlotReach u.c) :
    (roundEnd u 0).1.c.state.receiving = false ∧ (roundEnd u 0).1.c.result ≠ 0 ∧
      (roundEnd u 0).1.c.sending = false := by
  have hresult : (roundEnd u 0).1.c.result = codeOk := h.get.opened.result
  have hrequest : (roundEnd u 0).1.c.toRequest = u.c.toRequest := by
    rw [roundEnd, if_pos h.get.state]
    exact (CallFrame.completeRequest u).request
  refine ⟨?_, ?_, ?_⟩
  · rw [hrequest, h.get.state]
    rfl
  · rw [hresult]
    decide
  · rw [hrequest]
    exact hu.sendInv.early (.inr h.get.state)

/-- The answer is an action like any other. -/
theorem WholePage.started {u : Sys} {content : Bytes} (h : WholePage u content) (hu : SlotReach u.c) :
    Micros u (startResponse (roundEnd u 0).1) := by
  obtain ⟨hrec, hres, hfirst⟩ := h.over hu
  have hround : Micros u (roundEnd u 0).1 := roundEnd_micros 0 (by rw [h.get.result])
  exact hround.tail (.startResponse _ hrec hres hfirst)

/-- The answer begins. -/
theorem WholePage.begun {u : Sys} {content : Bytes} (h : WholePage u content) {k : Nat}
    (hk : u.c.pcb = some k) :
    PageRun content (answer u).c.toResponse.pending (answer u).c.toResponse.ssi.fp (answer u).c.log k
      (startResponse (roundEnd u 0).1).w.fs (startResponse (roundEnd u 0).1).c := by
  have hpage := h.headed
  have hmem : (answer u).c.mem.length = memSize := (tracked_headers h.get.opened.mem _).2
  have hround : (roundEnd u 0).1.c.pcb = some k := by
    rw [roundEnd, if_pos h.get.state]
    obtain ⟨_, _, _, heq, -⟩ := CallFrame.completeRequest u
    exact (congrArg (fun s : Sys => s.c.pcb) heq).trans hk
  have hown := (PcbStep.startResponse (roundEnd u 0).1).own
  obtain ⟨hlog, hsends⟩ := startResponse_sends (s := (roundEnd u 0).1) (v := answer u) rfl
  generalize startResponse (roundEnd u 0).1 = t at hown hlog hsends ⊢
  generalize answer u = v at hpage hmem hlog hsends ⊢
  obtain ⟨_, _, _, _, l, _, hframe, -, -, hwrites⟩ := SendFrame.sendBuffered v
  have hsent : (sendBuffered v).1.c.log = v.c.log ++ l := by rw [hframe]
  rw [hsent] at hlog
  constructor
  · exact ⟨l, hlog.symm⟩
  · intro hopen
    rcases hown with hsame | ⟨hnone, -⟩
    · exact hsame.trans hround
    · rw [hnone] at hopen
      cases hopen
  · intro _ _ hsending post hsplit hrest
    rw [hlog] at hsplit
    obtain rfl := List.append_cancel_left hsplit
    have hdone := hpage.send hmem hsent hrest.written
    obtain ⟨st, rfl⟩ := hsends (sendBuffered_written hpage.tracked hmem hsent hrest.written)
    exact hdone.same rfl rfl ⟨_, _, _, rfl⟩ rfl
  · intro post w hd r r' d rest hsplit
    rw [hlog] at hsplit
    have hload := hwrites (.load w hd r r' d) (by
      rw [List.append_cancel_left hsplit]
      exact List.mem_append_right _ (List.mem_cons_self ..))
    cases hload

/-! ## The page over a run -/

/-- Slot `fp` of `g_FileOpened` is as it was, and so is the image. -/
structure SlotKept (fp : Nat) (fs fs' : FileSystem) : Prop where
  image : fs'.image = fs.image
  size : fs'.opened.length = fs.opened.length
  handle : ∀ i, filePtr fp = .slot i → fs'.handle i = fs.handle i

theorem SlotKept.same {fp : Nat} {fs fs' : FileSystem} (h : fs' = fs) : SlotKept fp fs fs' := by
  subst h
  exact ⟨rfl, rfl, fun _ _ => rfl⟩

/-- An open file stays open where it was read up to. -/
theorem FileSystem.OpenFile.kept {fs fs' : FileSystem} {fp : Nat} {content : Bytes} {pos : Nat}
    (h : fs.OpenFile fp content pos) (hkept : SlotKept fp fs fs') : fs'.OpenFile fp content pos := by
  obtain ⟨⟨i, info, hslot, hlt, hhandle, hholds⟩, hinside⟩ := h
  refine ⟨⟨i, info, hslot, ?_, ?_, hholds.size, hholds.small, fun p n hin => ?_⟩, hinside⟩
  · rw [hkept.size]
    exact hlt
  · rw [hkept.handle i hslot]
    exact hhandle
  · rw [← hholds.bytes p n hin]
    unfold FileSystem.fileBytes
    rw [hkept.image]

section

variable {content head : Bytes} {fp k : Nat} {base : List Act}

/-- What others do to their files leaves the page alone. -/
theorem PageRun.kept {fs fs' : FileSystem} {c : RequestContext}
    (hi : PageRun content head fp base k fs c)
    (h : c.fault = false → c.pcb = some k → SlotKept fp fs fs') :
    PageRun content head fp base k fs' c where
  begun := hi.begun
  own := hi.own
  page := by
    intro hok hk hsending post hsplit hrest
    obtain ⟨hd, hfile⟩ := hi.page hok hk hsending post hsplit hrest
    refine ⟨hd, fun hmore => ?_⟩
    obtain ⟨hfp, hopen⟩ := hfile hmore
    exact ⟨hfp, hopen.kept (h hok hk)⟩
  loads := hi.loads

namespace Server

/-- In a run from `sv` the events of other connections leave file slot `fp` alone, and context `i` is
not given to a new connection. -/
def Alone (sv : Server) (fp i k : Nat) : List (Answers × Event) → Prop
  | [] => True
  | (a, e) :: es =>
    (e.pcb ≠ some k → SlotKept fp sv.w.fs (sv.step a e).w.fs) ∧
      (∀ c, sv.slots[i]? = some c → c.pcb = none → (sv.step a e).slots[i]? = some c) ∧
      (sv.step a e).Alone fp i k es

/-- One step of the server keeps it: an event of the connection is a sequence of actions, and any other
event leaves the context alone. -/
theorem pageRun_step {sv : Server} (hreach : sv.Reachable) {a : Answers} {e : Event} (hlegal : e.Legal sv)
    {i : Nat} {c : RequestContext} (hc : sv.slots[i]? = some c)
    (hi : PageRun content head fp base k sv.w.fs c)
    (hother : e.pcb ≠ some k → SlotKept fp sv.w.fs (sv.step a e).w.fs)
    (hfree : c.pcb = none → (sv.step a e).slots[i]? = some c) :
    ∃ d, (sv.step a e).slots[i]? = some d ∧ PageRun content head fp base k (sv.step a e).w.fs d := by
  have hstay : (sv.step a e).slots[i]? = some c →
      (c.fault = false → c.pcb = some k → e.pcb ≠ some k) →
      ∃ d, (sv.step a e).slots[i]? = some d ∧ PageRun content head fp base k (sv.step a e).w.fs d :=
    fun hsame hnot => ⟨c, hsame, hi.kept fun hok hk => hother (hnot hok hk)⟩
  cases step_kind hreach.inv a hlegal with
  | idle hslots _ _ hnames _ =>
    refine hstay (by rw [hslots]; exact hc) fun hok hk => ?_
    exact (hnames k i c (hreach.linked i c k hc hok hk) hc hok).2
  | @accept j s pcb ip hslot _ _ hnone hslots _ _ hnobody =>
    by_cases hji : j = i
    · -- the context was free
      subst hji
      rw [hslot] at hc
      obtain rfl := Option.some.inj hc
      refine hstay (hfree hnone) fun _ hk => ?_
      rw [hnone] at hk
      cases hk
    · refine hstay (by rw [hslots, List.getElem?_set_ne hji]; exact hc) fun _ _ => ?_
      rw [hnobody]
      nofun
  | @event j s f hslot hw hslotReach hok hpcb hown hlegal' hslots hw' _ _ _ =>
    by_cases hji : j = i
    · subst hji
      rw [hslot] at hc
      obtain rfl := Option.some.inj hc
      refine ⟨(connStep s f).c, ?_, ?_⟩
      · rw [hslots]
        exact List.getElem?_set_self (List.getElem?_eq_some_iff.mp hslot).1
      · rw [← hw] at hi
        rw [hw']
        exact hi.micros hslotReach (connStep_micros hlegal')
    · refine hstay (by rw [hslots, List.getElem?_set_ne hji]; exact hc) fun hfine hk hthis => ?_
      -- the block would name two contexts
      rw [hthis] at hown
      exact hji ((hreach.linked j s.c k hslot hok hown.symm).unique (hreach.linked i c k hc hfine hk))

theorem pageRun_run {sv : Server} (hreach : sv.Reachable) {es : List (Answers × Event)}
    (hlegal : sv.RunLegal es) {i : Nat} (halone : sv.Alone fp i k es) {c : RequestContext}
    (hc : sv.slots[i]? = some c) (hi : PageRun content head fp base k sv.w.fs c) :
    ∃ d, (sv.run es).slots[i]? = some d ∧ PageRun content head fp base k (sv.run es).w.fs d := by
  induction es generalizing sv c with
  | nil => exact ⟨c, hc, hi⟩
  | cons ae es ih =>
    obtain ⟨a, e⟩ := ae
    obtain ⟨he, hes⟩ := hlegal
    obtain ⟨hother, hfree, hrest⟩ := halone
    obtain ⟨d, hd, hpage⟩ := pageRun_step hreach he hc hi hother (hfree c hc)
    exact ih (hreach.step a e he) hes hrest hd hpage

/-- In the step from `sv` to `sv'` the request that is complete in `u` is answered on connection `k` of
context `i`: the event brings the context to `u`, and `t` is what it leaves. -/
structure Answering (sv sv' : Server) (i k : Nat) (s u t : Sys) : Prop where
  slot : sv.slots[i]? = some s.c
  world : s.w = sv.w
  own : s.c.pcb = some k
  before : Micros s u
  live : u.c.pcb = some k
  rest : Micros (startResponse (roundEnd u 0).1) t
  slot' : sv'.slots[i]? = some t.c
  world' : sv'.w = t.w

/-- In every run behind the answer to a GET for a whole page, as long as only its own connection uses the
file of the page: what was accepted and what is pending make up the header and the first bytes of the page,
and when a load ends the response these are all of them. -/
theorem page_delivered {sv : Server} (hreach : sv.Reachable) {b : Answers} {e : Event}
    (hlegal : e.Legal sv) {i k : Nat} {s u t : Sys} (hanswering : Answering sv (sv.step b e) i k s u t)
    {content : Bytes} (hpage : WholePage u content) {es : List (Answers × Event)}
    (hes : (sv.step b e).RunLegal es)
    (halone : (sv.step b e).Alone (answer u).c.toResponse.ssi.fp i k es) :
    ∃ c whole, ((sv.step b e).run es).slots[i]? = some c ∧ c.log = (answer u).c.log ++ whole ∧
      (c.fault = false → c.pcb = some k → c.sending = true → Rest whole →
        ∃ n, PutSoFar content (answer u).c.toResponse.pending c.log c.toResponse n) ∧
      ∀ post w h r r' d rest, whole = post ++ .load w h r r' d :: rest → r'.fault = false →
        Rest (post ++ [.load w h r r' d]) →
          ∃ n, PutSoFar content (answer u).c.toResponse.pending ((answer u).c.log ++ post) r n ∧
            (d < 0 → n = content.length) := by
  have hslot : SlotReach u.c :=
    (hreach.slot (List.mem_of_getElem? hanswering.slot)).micros hanswering.before
  have hbegun := hpage.begun hanswering.live
  have hstarted := hslot.micros (hpage.started hslot)
  have hafter := hbegun.micros hstarted hanswering.rest
  rw [← hanswering.world'] at hafter
  obtain ⟨c, hc, hrun⟩ := pageRun_run (hreach.step b e hlegal) hes halone hanswering.slot' hafter
  obtain ⟨whole, hwhole⟩ := hrun.begun
  refine ⟨c, whole, hc, hwhole.symm, ?_, ?_⟩
  · intro hok hk hsending hrest
    exact ⟨_, (hrun.page hok hk hsending whole hwhole.symm hrest).toDownloading.putSoFar⟩
  · intro post w h r r' d rest hsplit hok hrest
    exact hrun.loads post w h r r' d rest (by rw [← hwhole, hsplit]) hok hrest

end Server

end

/-! ## A page in two writes -/

/-- Behind the loop a response that has not begun starts with its header. -/
theorem httpResponseProc_starts {s : Sys} (caller : Caller) (hrec : s.c.state.receiving = false)
    (hres : s.c.result ≠ 0) (hleft : s.c.bytesLeft = 0) (hfirst : s.c.sending = false) :
    Micros (startResponse s) (httpResponseProc s caller) := by
  have hnone : ¬ 0 < s.c.bytesLeft := by omega
  have hheader : responseHeaderStep s caller = startResponse s := if_pos hfirst
  unfold httpResponseProc
  rw [if_neg (by rw [hrec]; simpa using hres), if_neg fun h => hnone h.1, if_neg fun h => hnone h.1]
  dsimp only
  rw [if_neg hnone, hheader]
  split
  · exact .refl
  · split
    · rename_i hbody
      rw [← hheader] at hbody ⊢
      obtain ⟨hres', hsending, hstage⟩ := responseHeaderStep_body hres (fun h => absurd h hnone) hbody
      exact micros_one (.sendBody _ caller hbody hres' hsending hstage)
    · exact .refl

/-- The first bytes of the segment `p` are in the receive buffer. -/
def dequeued (s : Sys) (p : Segment) : Sys := { received s p with c := (received s p).c.dequeue }

/-- The first round behind the segment `p` ends the header section of a request without a body. -/
structure EndsAtOnce (s : Sys) (p : Segment) : Prop where
  live : s.c.pcb.isSome
  fits : (Pbuf.data s.c.reqBufList).length + p.data.length < 65536
  receiving : s.c.state.receiving
  filled : (dequeued s p).c.requestLength ≠ 0
  header : (headerPart (dequeued s p)).2.1 = true
  fine : 0 ≤ (headerPart (dequeued s p)).1.c.result

/-- Such a request is answered by the event. -/
theorem EndsAtOnce.answers {s u : Sys} {p : Segment} {content : Bytes} (h : EndsAtOnce s p)
    (hu : u = headersEnd (headerPart (dequeued s p)).1) (hpage : WholePage u content)
    (hleft : (roundEnd u 0).1.c.bytesLeft = 0) (hs : SlotReach s.c) :
    Micros s u ∧ Micros (startResponse (roundEnd u 0).1) (onHttpReceive s (some p.chain)) := by
  have hrec : (received s p).c.state.receiving = true := by
    rw [received, (RxFrame.receivePbuf _ _).request]
    exact h.receiving
  have hrec' : (dequeued s p).c.state.receiving = true := by
    rw [dequeued, (RxFrame.dequeue _).request]
    exact hrec
  have hreceived : Micros s (received s p) :=
    (micros_one (.touch s s.now)).tail (.receive (s.setResponse { s.c.toResponse with
      tLastReceived := s.now }) p h.live h.fits)
  obtain ⟨hhead, -, hdone, -⟩ := headerPart_micros hrec'
  have hst := hdone h.header
  have hbefore : Micros s u := by
    rw [hu]
    exact ((hreceived.tail (.dequeue _ hrec)).trans hhead).tail (.headersEnd _ hst h.fine)
  refine ⟨hbefore, ?_⟩
  -- The round is the last one of the loop.
  have hstate : u.c.state = .bodyDone := hpage.get.state
  have hround : iteration (received s p) = ((roundEnd u 0).1, .stop) := by
    have hstop : roundEnd u 0 = ((roundEnd u 0).1, .stop) := by rw [roundEnd, if_pos hstate]
    change processBuffer (dequeued s p) = _
    unfold processBuffer
    rw [if_neg h.filled]
    dsimp only
    rw [if_neg (Int.not_lt.mpr h.fine), if_neg fun hc => absurd (hst.symm.trans hc.1) (by decide),
      if_neg (by rw [hst]; decide)]
    unfold afterHeader
    rw [if_pos h.header, ← hu]
    dsimp only
    rw [if_neg (by rw [hpage.get.result]; decide),
      if_neg fun hc => absurd (hstate.symm.trans hc.1) (by decide)]
    unfold contentPart
    rw [if_neg (by rw [hstate]; decide)]
    exact hstop
  have hloop : receiveLoop (receiveFuel (received s p).c) (received s p) = ((roundEnd u 0).1, .stop) := by
    unfold receiveFuel
    rw [receiveLoop, if_pos hrec, hround]
  obtain ⟨hover, hres, hfirst⟩ := hpage.over (hs.micros hbefore)
  have hproc : Micros (startResponse (roundEnd u 0).1) (httpRequestProc (received s p) .recv) := by
    have hstarts := httpResponseProc_starts .recv hover hres hleft hfirst
    unfold httpRequestProc
    rw [hloop]
    dsimp only
    unfold requestFinish
    rw [if_neg (by rw [hover]; decide)]
    dsimp only
    split
    · rename_i hend
      exact hstarts.tail (.requestEnd _ hend)
    · exact hstarts
  have hend : Micros (startResponse (roundEnd u 0).1) (let v := httpRequestProc (received s p) .recv
      if v.c.result ≤ -500 then closeHttpContext v
      else if v.c.checkAlive then v
      else { v with w := { v.w with
        sessions := sessionReceived v.w.sessions v.c.session v.w.tick } }) := by
    dsimp only
    split
    · exact hproc.tail (.close _)
    · split
      · exact hproc
      · exact hproc.tail (.environment _ _ _ rfl rfl)
  unfold onHttpReceive
  rw [if_neg fun h => Option.some_ne_none _ h.1]
  exact hend

/-- A receive event runs `OnHttpReceive` on the context of its block. -/
theorem Server.step_receive {sv : Server} (a : Answers) {k i : Nat} {c : RequestContext} (p : Option Segment)
    (hnames : sv.Names k i) (hc : sv.slots[i]? = some c) (hok : c.fault = false) :
    (sv.step a (.receive k p)).slots[i]? = some (onHttpReceive (sv.sys a c) (p.map Segment.chain)).c ∧
      (sv.step a (.receive k p)).w = (onHttpReceive (sv.sys a c) (p.map Segment.chain)).w := by
  have hstep : sv.step a (.receive k p) = sv.onSlot i a fun s => connStep s (.receive p) := by
    change sv.onPcb k a (.receive p) = _
    rw [Server.onPcb, hnames]
    rfl
  rw [hstep]
  rcases onSlot_cases sv i a fun s => connStep s (.receive p) with ⟨-, hbad⟩ | ⟨d, hd, -, hslots, hw, -⟩
  · rw [hbad c hc] at hok
    cases hok
  · rw [hc] at hd
    obtain rfl := Option.some.inj hd
    rw [hslots]
    exact ⟨List.getElem?_set_self (List.getElem?_eq_some_iff.mp hc).1, hw⟩

/-- The connection of the page is open in front of every event, and other events change no file. -/
def aloneOpen (sv : Server) (i k : Nat) : List (Answers × Event) → Bool
  | [] => true
  | (a, e) :: es =>
    (decide (e.pcb = some k) || decide ((sv.step a e).w.fs = sv.w.fs)) &&
      (sv.slots[i]?.any fun c => c.pcb.isSome) && aloneOpen (sv.step a e) i k es

theorem aloneOpen_alone {sv : Server} {fp i k : Nat} {es : List (Answers × Event)}
    (h : aloneOpen sv i k es = true) : sv.Alone fp i k es := by
  induction es generalizing sv with
  | nil => trivial
  | cons ae es ih =>
    obtain ⟨a, e⟩ := ae
    simp only [aloneOpen, Bool.and_eq_true, Bool.or_eq_true, decide_eq_true_eq] at h
    obtain ⟨⟨hfs, hopen⟩, hrest⟩ := h
    refine ⟨fun hother => .same (hfs.resolve_left hother), fun c hc hfree => ?_, ih hrest⟩
    rw [hc, Option.any_some, hfree] at hopen
    cases hopen

/-- A GET for the page. -/
def downloadGet : Segment := .ofBytes (ascii "GET /app/page.css HTTP/1.1\r\n\r\n") (by decide)

/-- A server with the page, and with one connection. -/
def downloadStart : Server := (Server.boot (pageWorld thirtyBytes)).run [(openNet, .accept 7)]

/-- The window takes 100 bytes at first. -/
def downloadWindow : Answers := ⟨[100, 0], [], []⟩

/-- The connection in front of the GET, and behind its header section. -/
def downloadSys : Sys := downloadStart.sys downloadWindow (downloadStart.slot 0)

def downloadRequest : Sys := headersEnd (headerPart (dequeued downloadSys downloadGet)).1

/-- A second client comes, and the window opens twice. -/
def downloadRun : List (Answers × Event) :=
  [(openNet, .accept 9), (openNet, .sent 0 100), (openNet, .sent 0 117)]

/-- The server with the answer begun. -/
def downloadBegun : Server := downloadStart.step downloadWindow (.receive 0 (some downloadGet))

theorem wholePage_downloadRequest : WholePage downloadRequest thirtyBytes := by
  constructor
  · constructor
    · exact .inl (by decide +kernel)
    · decide +kernel
    · decide +kernel
    · decide +kernel
    · decide +kernel
    · decide +kernel
    · decide +kernel
    · exact fileFound_page (by decide +kernel) (by decide +kernel) (by decide)
    · decide +kernel
    · decide +kernel
  · decide +kernel
  · decide +kernel

theorem downloadStart_reach : downloadStart.Reachable :=
  (Server.Reachable.boot (pageWorld thirtyBytes)).run (by decide +kernel)

theorem downloadGet_answering : downloadStart.Answering downloadBegun 0 0 downloadSys downloadRequest
    (onHttpReceive downloadSys (some downloadGet.chain)) := by
  have hslot : downloadStart.slots[0]? = some (downloadStart.slot 0) :=
    Server.slot_getElem? (by decide +kernel)
  have hreach : SlotReach downloadSys.c := downloadStart_reach.slot (List.mem_of_getElem? hslot)
  have honce : EndsAtOnce downloadSys downloadGet := by
    constructor
    · decide +kernel
    · decide +kernel
    · decide +kernel
    · decide +kernel
    · decide +kernel
    · decide +kernel
  obtain ⟨hbefore, hrest⟩ := honce.answers rfl wholePage_downloadRequest (by decide +kernel) hreach
  obtain ⟨hslot', hw⟩ := Server.step_receive downloadWindow (some downloadGet)
    (show downloadStart.pcbs[0]? = some ⟨some 0, true⟩ by decide +kernel) hslot (by decide +kernel)
  exact ⟨hslot, rfl, by decide +kernel, hbefore, by decide +kernel, hrest, hslot', hw⟩

/-- The log of the connection at the end, behind its header. -/
def downloadWhole : List Act :=
  ((downloadBegun.run downloadRun).slot 0).log.drop (answer downloadRequest).c.log.length

/-- Entry 5 ends the response. -/
def downloaded : Bool :=
  match downloadWhole[5]? with
  | some (Act.load w h r r' d) => decide (d < 0) && decide (r.bytesLeft = 0) && !r'.fault &&
      (downloadWhole.take 5 ++ [Act.load w h r r' d]).all fun a => a.continues && a.written
  | _ => false

/-- The whole header and the thirty bytes are accepted when the response ends. -/
theorem page_delivered_thirtyBytes :
    ∃ c post w h r r' d rest, (downloadBegun.run downloadRun).slots[0]? = some c ∧
      c.log = (answer downloadRequest).c.log ++ (post ++ .load w h r r' d :: rest) ∧ d < 0 ∧
      (Transfer.ofLog ((answer downloadRequest).c.log ++ post)).accepted
        = (answer downloadRequest).c.toResponse.pending ++ thirtyBytes := by
  have hrun : downloadBegun.RunLegal downloadRun ∧ aloneOpen downloadBegun 0 0 downloadRun = true ∧
      (Event.receive 0 (some downloadGet)).Legal downloadStart ∧ downloaded = true := by
    decide +kernel
  obtain ⟨hlegal, halone, hget, hdown⟩ := hrun
  obtain ⟨c, whole, hc, hlog, -, hloads⟩ := Server.page_delivered downloadStart_reach hget
    downloadGet_answering wholePage_downloadRequest hlegal (aloneOpen_alone halone)
  change (downloadBegun.run downloadRun).slots[0]? = some c at hc
  have hwhole : downloadWhole = whole := by
    rw [downloadWhole, Server.slot, List.getD_eq_getElem?_getD, hc, Option.getD_some, hlog, List.drop_left]
  unfold downloaded at hdown
  rw [hwhole] at hdown
  split at hdown
  · rename_i w h r r' d hload
    simp only [Bool.and_eq_true, decide_eq_true_eq, Bool.not_eq_true'] at hdown
    obtain ⟨⟨⟨hneg, hleft⟩, hok⟩, hrest⟩ := hdown
    have hsplit : whole = whole.take 5 ++ .load w h r r' d :: whole.drop 6 := by
      obtain ⟨hlt, heq⟩ := List.getElem?_eq_some_iff.mp hload
      rw [← heq, List.cons_getElem_drop_succ, List.take_append_drop]
    refine ⟨c, _, w, h, r, r', d, _, hc, hlog.trans (congrArg _ hsplit), hneg, ?_⟩
    have hkept : Rest (whole.take 5 ++ [.load w h r r' d]) := by
      have hentries : ∀ a ∈ whole.take 5 ++ [.load w h r r' d], a.continues = true ∧ a.written = true :=
        fun a ha => by simpa using List.all_eq_true.mp hrest a ha
      refine ⟨fun a ha => (hentries a ha).1, fun a ha => (hentries a ha).2, ?_⟩
      refine Nat.lt_of_le_of_lt List.countP_le_length ?_
      rw [List.length_append, List.length_take]
      exact Nat.lt_of_le_of_lt (Nat.add_le_add_right (Nat.min_le_left ..) _) (show 5 + 1 < stageEnd by decide)
    obtain ⟨n, ⟨-, hput⟩, hend⟩ := hloads _ w h r r' d _ hsplit hok hkept
    rw [hend hneg, List.take_length, Response.pending, hleft] at hput
    rwa [Int.toNat_zero, List.take_zero, List.append_nil] at hput
  · cases hdown

end Httpd

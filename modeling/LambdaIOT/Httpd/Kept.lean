import LambdaIOT.Httpd.Outcomes

/-!
# What every operation keeps

No operation clears `fault`: a context that has left its objects stays marked, so a state
without the mark was reached by steps without it. And no operation changes the size of the
memory behind `_sendBuffer`.
-/

namespace Httpd

open CMem Lwip Relation

/-- `r'` is marked if `r` is, and its memory has the size it has in `r`. -/
structure Kept (r r' : Response) : Prop where
  marked : r.fault = true → r'.fault = true
  size : r.mem.length = memSize → r'.mem.length = memSize

namespace Kept

theorem refl (r : Response) : Kept r r := ⟨id, id⟩

theorem trans {r s t : Response} (h : Kept r s) (h' : Kept s t) : Kept r t :=
  ⟨fun hr => h'.marked (h.marked hr), fun hr => h'.size (h.size hr)⟩

theorem of_or {r r' : Response} (b : Bool) (h : r'.fault = (r.fault || b))
    (hm : r'.mem.length = r.mem.length) : Kept r r' :=
  ⟨fun hr => by rw [h, hr, Bool.true_or], fun hr => hm.trans hr⟩

theorem of_eq {r r' : Response} (h : r'.fault = r.fault) (hm : r'.mem.length = r.mem.length) :
    Kept r r' := ⟨fun hr => h.trans hr, fun hr => hm.trans hr⟩

theorem crash (r : Response) : Kept r r.crash := ⟨fun _ => rfl, id⟩

theorem putSend (r : Response) (off : Int) (bs : Bytes) : Kept r (r.putSend off bs) := by
  refine of_or _ rfl ?_
  show List.length (if _ then _ else _) = _
  split
  · exact length_store ..
  · rfl

theorem putApp (r : Response) (off : Int) (bs : Bytes) : Kept r (r.putApp off bs) := by
  refine of_or _ rfl ?_
  show List.length (if _ then _ else _) = _
  split
  · exact length_store ..
  · rfl

theorem setResponsePath (r : Response) (s : Bytes) : Kept r (r.setResponsePath s) :=
  of_or _ rfl rfl

theorem setSsi (r : Response) (x : SSIContext) : Kept r (r.setSsi x) := of_eq rfl (length_store ..)

end Kept

/-! ## The callbacks -/

theorem webRequestReceived_kept (h : Request) (c : Call) :
    Kept c.r (webRequestReceived h c).r := by
  have hpath : Kept c.r (defaultPath c.r) := by
    unfold defaultPath
    split
    · exact (Kept.setResponsePath ..).trans (.of_eq rfl rfl)
    · exact .refl _
  have hopened : ∀ (k : Call) (x : SSIContext), Kept k.r (webFileOpened h k x).r := by
    intro k x
    unfold webFileOpened
    split
    · exact .crash _
    · dsimp only
      repeat' split
      all_goals exact .of_eq rfl (length_store ..)
  unfold webRequestReceived
  dsimp only
  split
  · refine hpath.trans (Kept.trans ?_ (hopened _ _))
    exact .of_eq rfl rfl
  · exact hpath.trans (.of_eq rfl (length_store ..))

theorem authCheck_kept (h : Request) (c : Call) : Kept c.r (authCheck h c).1.r := by
  unfold authCheck
  dsimp only
  repeat' split
  all_goals first | exact .refl _ | exact .of_eq rfl (length_store ..)

theorem authOnRequestReceived_kept (h : Request) (c : Call) :
    Kept c.r (authOnRequestReceived h c).r := by
  unfold authOnRequestReceived
  split
  · exact .of_eq rfl rfl
  · split
    · exact (Kept.setResponsePath ..).trans (.of_eq rfl rfl)
    · split
      · dsimp only
        have hcheck := (authCheck_kept h c).trans
          (.setSsi (authCheck h c).1.r SSIContext.zero)
        split
        · exact (hcheck.trans (.setResponsePath ..)).trans (.of_eq rfl rfl)
        · exact (hcheck.trans (.setResponsePath ..)).trans (.of_eq rfl rfl)
      · exact webRequestReceived_kept h c

theorem filesFilter_kept (r : Response) (argument : Option Bytes) :
    Kept r (filesFilter r argument) := by
  unfold filesFilter
  dsimp only
  refine Kept.trans (.setResponsePath r folderToList) ?_
  refine Kept.trans ?_ (.setResponsePath ..)
  split
  · exact .refl _
  · rename_i p
    generalize (if at' p 0 = 47 then p.drop 1 else p) = q
    split
    · exact .setResponsePath ..
    · exact (Kept.setResponsePath ..).trans (.setResponsePath ..)

theorem onHeaderReceived_kept {cgi : Cgi} {f : Call → Bytes → Call}
    (hf : cgi.onHeaderReceived = some f) (c : Call) (line : Bytes) :
    Kept c.r (f c line).r := by
  cases cgi with
  | upload =>
    cases hf
    unfold uploadOnHeaderReceived
    split
    · exact .putApp ..
    · exact .refl _
  | ssdp => cases hf
  | auth => cases hf
  | form => cases hf
  | files => cases hf
  | webApp => cases hf

theorem onHeadersReceived_kept {cgi : Cgi} {f : Request → Call → Call}
    (hf : cgi.onHeadersReceived = some f) (h : Request) (c : Call) : Kept c.r (f h c).r := by
  cases cgi with
  | ssdp => cases hf
  | auth =>
    cases hf
    exact .of_eq rfl (length_store ..)
  | form =>
    cases hf
    unfold formOnHeadersReceived
    dsimp only
    split <;> exact .of_eq rfl (length_store ..)
  | files => cases hf
  | upload =>
    cases hf
    unfold uploadOnHeadersReceived
    split
    · exact .of_eq rfl rfl
    · dsimp only
      split <;> exact .of_eq rfl rfl
    · exact .refl _
  | webApp => cases hf

theorem length_urlDecodeAt (m : Bytes) (pos : Nat) : (urlDecodeAt m pos).length = m.length := by
  rw [urlDecodeAt, List.length_append, length_urlDecode, ← List.length_append,
    List.take_append_drop]

theorem length_formSet (s : FormScan) (ns vs : Nat) : (s.set ns vs).mem.length = s.mem.length := by
  show (urlDecodeAt (urlDecodeAt s.mem ns) vs).length = _
  rw [length_urlDecodeAt, length_urlDecodeAt]

theorem length_formLoop (nSize fuel : Nat) (s : FormScan) :
    (formLoop nSize fuel s).mem.length = s.mem.length := by
  induction fuel generalizing s with
  | zero => rfl
  | succ fuel ih =>
    rw [formLoop]
    split
    · dsimp only
      split
      · rw [ih]
        show (FormScan.set _ _ _).mem.length = _
        rw [length_formSet, length_store, length_store]
      · rfl
    · rfl

/-- Parsing a form rewrites the buffer in place. -/
theorem length_extractFormData (dev : Device) (mem : Bytes) (nSize : Nat) (remain : Int) :
    (extractFormData dev mem nSize remain).2.1.length = mem.length := by
  unfold extractFormData
  dsimp only
  split
  · exact length_formLoop ..
  · split
    · show (FormScan.set _ _ _).mem.length = _
      rw [length_formSet, length_store, length_formLoop]
    · exact length_formLoop ..

theorem formAccept_kept (h : Request) (c : Call) (buffer : Bytes) (consumed : Int) :
    Kept c.r (formAccept h c buffer consumed).r := by
  unfold formAccept
  dsimp only
  have hput := Kept.putSend c.r c.r.bytesLeft (buffer.take consumed.toNat)
  split
  · refine hput.trans (Kept.trans ?_ (.putSend ..))
    exact .of_eq rfl (length_extractFormData ..)
  · exact hput.trans (.of_eq rfl (length_extractFormData ..))

theorem onContentReceived_kept {cgi : Cgi} {f : Request → Call → Bytes → Int → Call × Int}
    (hf : cgi.onContentReceived = some f) (h : Request) (c : Call) (buffer : Bytes) (size : Int) :
    Kept c.r (f h c buffer size).1.r := by
  cases cgi with
  | ssdp => cases hf
  | auth =>
    cases hf
    show Kept c.r (authOnPostData c buffer size).1.r
    unfold authOnPostData
    dsimp only
    split
    · split
      · exact .crash _
      · exact .putApp ..
    · exact .refl _
  | form =>
    cases hf
    unfold webOnFormReceived
    dsimp only
    split
    · split
      · exact .of_eq rfl rfl
      · split
        · exact formAccept_kept ..
        · exact .refl _
    · exact .refl _
  | files => cases hf
  | upload =>
    cases hf
    show Kept c.r (uploadOnContentReceived h c size).1.r
    unfold uploadOnContentReceived
    dsimp only
    split
    · split
      · exact .of_eq rfl rfl
      · split
        · exact .of_eq rfl rfl
        · exact .refl _
    · exact .refl _
  | webApp => cases hf

theorem onRequestReceived_kept {cgi : Cgi} {f : Request → Call → Call}
    (hf : cgi.onRequestReceived = some f) (h : Request) (c : Call) : Kept c.r (f h c).r := by
  cases cgi with
  | ssdp => cases hf
  | auth =>
    cases hf
    exact authOnRequestReceived_kept h c
  | form =>
    cases hf
    unfold formOnRequestReceived
    dsimp only
    split
    · exact (webRequestReceived_kept h c).trans (.of_eq rfl (length_store ..))
    · exact (webRequestReceived_kept h c).trans (.of_eq rfl (length_store ..))
  | files =>
    cases hf
    unfold filesOnRequestReceived
    dsimp only
    exact ((Kept.setSsi ..).trans (filesFilter_kept ..)).trans (.of_eq rfl rfl)
  | upload =>
    cases hf
    show Kept c.r (uploadAllReceived c).r
    unfold uploadAllReceived
    split
    · exact .refl _
    · exact .crash _
  | webApp =>
    cases hf
    exact webRequestReceived_kept h c

theorem filesLoop_kept (maxSize : Int) (fuel : Nat) (c : Call) (fp : Nat) (out : Bytes) :
    Kept c.r (filesLoop maxSize fuel c fp out).call.r := by
  induction fuel generalizing c fp out with
  | zero => exact .refl _
  | succ fuel ih =>
    rw [filesLoop]
    split
    · dsimp only
      repeat' split
      -- a round either goes on, or ends with the mark it has or a new one
      all_goals first
        | exact .of_eq rfl rfl
        | exact .of_eq rfl (length_store ..)
        | exact .crash _
        | (refine Kept.trans ?_ (ih _ _ _)
           exact .of_eq rfl rfl)
        | (refine Kept.trans ?_ (ih _ _ _)
           exact .of_eq rfl (length_store ..))
    · exact .refl _

theorem webAdvance_kept (r : Response) (ssi cacheOffset : Int) :
    Kept r (webAdvance r ssi cacheOffset) := by
  unfold webAdvance
  split
  · exact .of_eq rfl rfl
  · exact .of_eq rfl rfl

theorem webReadContent_kept (h : Request) (c : Call) (maxSize : Int) :
    Kept c.r (webReadContent h c maxSize).call.r := by
  unfold webReadContent
  split
  · exact .refl _
  · split
    · unfold webReadEnd
      dsimp only
      split
      · split
        · exact .of_eq rfl (length_store ..)
        · exact .crash _
      · exact .of_eq rfl rfl
    · split
      · unfold webReadPlain
        dsimp only
        split
        · split
          · exact webAdvance_kept ..
          · exact .crash _
        · split
          · exact .crash _
          · exact .of_eq rfl rfl
          · refine Kept.trans ?_ (webAdvance_kept ..)
            exact .of_eq rfl rfl
      · unfold webReadSsi
        dsimp only
        split
        · exact ⟨fun _ => rfl, fun h => (length_store ..).trans h⟩
        · split
          · exact .of_eq rfl (length_store ..)
          · refine Kept.trans ?_ (webAdvance_kept ..)
            exact .of_eq rfl (length_store ..)

theorem readContent_kept {cgi : Cgi} {f : Request → Call → Int → Content}
    (hf : cgi.readContent = some f) (h : Request) (c : Call) (maxSize : Int) :
    Kept c.r (f h c maxSize).call.r := by
  cases cgi with
  | ssdp =>
    cases hf
    unfold ssdpSending
    split
    · split
      · exact .refl _
      · exact .of_eq rfl rfl
    · exact .refl _
  | auth =>
    cases hf
    exact webReadContent_kept h c maxSize
  | form =>
    cases hf
    exact webReadContent_kept h c maxSize
  | files =>
    cases hf
    unfold filesReadOneFileInfo
    split
    · split
      · show Kept c.r (webCloseFile c).r
        unfold webCloseFile
        dsimp only
        split
        · split
          · exact .of_eq rfl (length_store ..)
          · exact .crash _
        · exact .refl _
      · exact filesLoop_kept ..
    · exact .refl _
  | upload => cases hf
  | webApp =>
    cases hf
    exact webReadContent_kept h c maxSize

theorem webCloseFile_kept (c : Call) : Kept c.r (webCloseFile c).r := by
  unfold webCloseFile
  dsimp only
  split
  · split
    · exact .of_eq rfl (length_store ..)
    · exact .crash _
  · exact .refl _

/-! ## The calls of the handlers -/

theorem invoke_kept (s : Sys) (cb : Callback) {f : Cgi → Option (Call → Call)}
    (hf : ∀ cgi g, f cgi = some g → Kept s.c.toResponse (g s.call).r) :
    Kept s.c.toResponse (s.invoke cb f).c.toResponse := by
  unfold Sys.invoke
  split
  · exact .refl _
  · split
    · exact .refl _
    · rename_i g hg
      exact hf _ g hg

theorem cgiHeadersReceived_kept (s : Sys) :
    Kept s.c.toResponse (cgiHeadersReceived s).c.toResponse := by
  unfold cgiHeadersReceived
  dsimp only
  split
  · exact .of_eq rfl rfl
  · split
    · refine invoke_kept s _ fun cgi g hg => ?_
      obtain ⟨f, hf, rfl⟩ := Option.map_eq_some_iff.mp hg
      exact onHeadersReceived_kept hf _ s.call
    · show Kept s.c.toResponse (cgiNobody s.c.toRequest s.c.toResponse)
      unfold cgiNobody
      split
      · exact .refl _
      · split
        · exact (Kept.setResponsePath ..).trans (.of_eq rfl rfl)
        · split <;> exact .of_eq rfl rfl

theorem cgiContentReceived_kept (s : Sys) (buffer : Bytes) (size : Int) :
    Kept s.c.toResponse (cgiContentReceived s buffer size).1.c.toResponse := by
  rcases cgiContentReceived_cases s buffer size with heq | ⟨cgi, f, -, hf, heq⟩
  · rw [heq]
    exact .refl _
  · rw [heq]
    exact onContentReceived_kept hf _ s.call buffer size

theorem cgiRequestReceived_kept (s : Sys) :
    Kept s.c.toResponse (cgiRequestReceived s).c.toResponse := by
  refine invoke_kept s _ fun cgi g hg => ?_
  obtain ⟨f, hf, rfl⟩ := Option.map_eq_some_iff.mp hg
  exact onRequestReceived_kept hf _ s.call

theorem cgiFinish_kept (s : Sys) : Kept s.c.toResponse (cgiFinish s).c.toResponse := by
  refine invoke_kept s _ fun cgi g hg => ?_
  cases cgi <;> first | (cases hg; exact webCloseFile_kept s.call) | cases hg

theorem wrapChunk_kept (r : Response) (pos : Int) (first : Bool) (n : Nat) :
    Kept r (wrapChunk r pos first n) :=
  (((Kept.putSend ..).trans (.putSend ..)).trans (.putSend ..)).trans (.of_eq rfl rfl)

theorem loadContent_kept (s : Sys) (caller : Caller) :
    Kept s.c.toResponse (loadContent s caller).1.c.toResponse := by
  unfold loadContent
  split
  · show Kept s.c.toResponse (cgiAllSent s).c.toResponse
    unfold cgiAllSent
    split
    · exact .crash _
    · refine invoke_kept s _ fun cgi g hg => ?_
      cases cgi <;> first | (cases hg; exact webCloseFile_kept s.call) | cases hg
  · split
    · exact .refl _
    · split
      · exact .refl _
      · rename_i f hf
        split
        · exact .refl _
        · have hread := readContent_kept hf s.c.toRequest s.call
            (freeSize s.c.toRequest s.c.toResponse)
          have hplain : ∀ (r : Response) (pos : Int) (k : Content),
              Kept r (storePlain r pos k) := by
            intro r pos k
            unfold storePlain
            dsimp only
            split <;> exact (Kept.putSend ..).trans (.of_eq rfl rfl)
          have hchunk : ∀ (r : Response) (pos : Int) (first : Bool) (k : Content),
              Kept r (storeChunk r pos first k) := by
            intro r pos first k
            unfold storeChunk
            dsimp only
            split
            · exact (Kept.putSend ..).trans (wrapChunk_kept ..)
            · exact .putSend ..
          unfold readToSend
          dsimp only
          split
          · exact hread.trans (hchunk ..)
          · exact hread.trans (hplain ..)

/-! ## The actions -/

theorem closeFileHandle_kept (s : Sys) :
    Kept s.c.toResponse (closeFileHandle s).c.toResponse := by
  unfold closeFileHandle
  split
  · exact .of_eq rfl rfl
  · exact .crash _

theorem freeHttpContext_kept (s : Sys) :
    Kept s.c.toResponse (freeHttpContext s).c.toResponse :=
  ((cgiFinish_kept s).trans (closeFileHandle_kept _)).trans
    ⟨id, fun _ => List.length_replicate ..⟩

theorem closeHttpContext_kept (s : Sys) :
    Kept s.c.toResponse (closeHttpContext s).c.toResponse := by
  refine Kept.trans ?_ (freeHttpContext_kept _)
  unfold detachPcb
  split
  · exact .refl _
  · dsimp only
    split <;> exact .of_eq rfl rfl

theorem resetHttpContext_kept (s : Sys) :
    Kept s.c.toResponse (resetHttpContext s).c.toResponse :=
  (closeFileHandle_kept s).trans ⟨id, fun _ => List.length_replicate ..⟩

theorem parseHeader_kept (s : Sys) (size : Int) :
    Kept s.c.toResponse (parseHeader s size).1.c.toResponse := by
  have hscan : Kept s.c.toResponse (parseScan s size).s.c.toResponse := by
    refine lineLoop_induct (P := fun t => Kept s.c.toResponse t.c.toResponse) ?_ ?_ ?_ _ _ _
      (.refl _)
    · intro t tail n _ ht
      refine ht.trans ?_
      unfold requestLine
      split
      · exact .of_eq rfl rfl
      · unfold cgiSetCgiHandler
        dsimp only
        split <;> exact .of_or _ rfl (length_store ..)
    · intro t tail n _ ht
      refine ht.trans ?_
      unfold headerLine
      dsimp only
      repeat' split
      all_goals try exact .of_eq rfl rfl
      refine invoke_kept (t.note (.headerLine (cstr tail))) _ fun cgi g hg => ?_
      obtain ⟨f, hf, rfl⟩ := Option.map_eq_some_iff.mp hg
      exact onHeaderReceived_kept hf (t.note (.headerLine (cstr tail))).call tail
    · intro t ht
      refine ht.trans ?_
      unfold endOfHeaders
      dsimp only
      split <;> exact .of_eq rfl (length_store ..)
  have hshift := shift_response (parseScan s size) s.c.httpRequestBuffer
  exact hscan.trans (.of_eq (congrArg Response.fault hshift)
    (congrArg (fun r => r.mem.length) hshift))

theorem rxFrame_kept {c c' : RequestContext} (h : RxFrame c c') :
    Kept c.toResponse c'.toResponse := by
  obtain ⟨_, heq⟩ := h.response
  rw [heq]
  exact .of_or _ rfl rfl

theorem sendFrame_kept {s s' : Sys} (h : SendFrame s s') :
    Kept s.c.toResponse s'.c.toResponse := by
  obtain ⟨_, _, _, _, _, _, rfl, _, hlen, _⟩ := h
  exact .of_eq rfl hlen

theorem takeContent_kept (s : Sys) (consumed : Int) :
    Kept s.c.toResponse (takeContent s consumed).c.toResponse := by
  unfold takeContent
  dsimp only
  split
  · unfold contentDone
    split
    · dsimp only
      split <;> exact .of_eq rfl rfl
    · exact .of_eq rfl rfl
  · exact .of_eq rfl rfl

theorem sendFailed_kept (s : Sys) : Kept s.c.toResponse (sendFailed s).c.toResponse :=
  .of_eq rfl rfl

theorem startResponse_kept (s : Sys) :
    Kept s.c.toResponse (startResponse s).c.toResponse := by
  obtain ⟨left, _, _, _, _, _, hframe, hlen⟩ :=
    cgiSetResponseHeaders_frame (beginResponse s) (codeInfoOf s.c.result)
  have hheaders : Kept s.c.toResponse
      (cgiSetResponseHeaders (beginResponse s) (codeInfoOf s.c.result)).c.toResponse := by
    rw [hframe]
    exact .of_or _ rfl hlen
  have hsend := hheaders.trans (sendFrame_kept (.sendBuffered _))
  unfold startResponse
  dsimp only
  generalize sendBuffered _ = sent at hsend ⊢
  split
  · split <;> exact hsend.trans (.of_eq rfl rfl)
  · exact hsend.trans (sendFailed_kept _)

theorem sendBody_kept (s : Sys) (caller : Caller) :
    Kept s.c.toResponse (sendBody s caller).c.toResponse := by
  have hzero : Kept s.c.toResponse { s.c.toResponse with peak := 0 } := .of_eq rfl rfl
  have hload : Kept s.c.toResponse (cgiLoadContentToSend s caller).1.c.toResponse :=
    hzero.trans (loadContent_kept (s.setResponse { s.c.toResponse with peak := 0 }) caller)
  unfold sendBody
  dsimp only
  split
  · have hsend := hload.trans (sendFrame_kept (.sendBuffered _))
    generalize sendBuffered _ = sent at hsend ⊢
    split
    · exact hsend.trans (.of_eq rfl rfl)
    · exact hsend.trans (sendFailed_kept _)
  · split
    · exact hload.trans (.of_eq rfl rfl)
    · exact hload

/-- No action clears the mark. -/
theorem micro_kept {s s' : Sys} (h : Micro s s') : Kept s.c.toResponse s'.c.toResponse := by
  cases h with
  | environment w net hpcbs => exact .refl _
  | receive p hlive hfit => exact rxFrame_kept (.receivePbuf ..)
  | peerClosed => exact .refl _
  | touch t => exact .of_eq rfl rfl
  | acknowledged len => exact .refl _
  | dequeue hst => exact rxFrame_kept (.dequeue _)
  | startRequest hst hlen => exact .of_eq rfl rfl
  | parseHeader hst hlen => exact parseHeader_kept ..
  | tooLarge hst => exact .of_eq rfl rfl
  | headersEnd hst hok =>
    have hauth : Kept s.c.toResponse (authorize s.w s.c.toRequest s.c.toResponse) := by
      unfold authorize
      dsimp only
      split
      · exact .of_or _ rfl rfl
      · exact .of_eq rfl rfl
    obtain ⟨_, _, heq, -⟩ :=
      frameContent_spec (s.setResponse (authorize s.w s.c.toRequest s.c.toResponse))
    unfold headersEnd
    dsimp only
    rw [heq]
    refine Kept.trans ?_ (cgiHeadersReceived_kept _)
    exact hauth
  | refuse hst hbad hsending => exact .refl _
  | chunkLength hst hok =>
    unfold chunkLength
    split
    · exact .refl _
    · exact .of_eq rfl rfl
  | content size hst hok =>
    unfold offerContent
    dsimp only
    split
    · exact cgiContentReceived_kept ..
    · exact (cgiContentReceived_kept ..).trans (takeContent_kept ..)
  | complete hst hok =>
    unfold completeRequest
    dsimp only
    split
    · exact (cgiRequestReceived_kept s).trans (.of_eq rfl rfl)
    · exact cgiRequestReceived_kept s
  | sendRemaining hst hres hleft =>
    unfold sendRemaining
    dsimp only
    split
    · exact sendFrame_kept (.sendBuffered s)
    · exact (sendFrame_kept (.sendBuffered s)).trans (sendFailed_kept _)
  | startResponse hst hres hfirst => exact startResponse_kept s
  | headerAcked hst hres hsent =>
    unfold headerAcked
    split <;> exact .refl _
  | sendBody caller hst hres hsent hstage => exact sendBody_kept s caller
  | requestEnd hst =>
    unfold requestEnd
    split
    · exact closeHttpContext_kept s
    · split
      · exact resetHttpContext_kept (s.note _)
      · exact closeHttpContext_kept s
  | peerGone hst hpeer => exact .of_eq rfl rfl
  | close => exact closeHttpContext_kept s
  | free hgone => exact freeHttpContext_kept s
  | outOfFuel => exact .crash _

end Httpd

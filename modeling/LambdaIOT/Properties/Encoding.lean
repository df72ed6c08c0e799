import LambdaIOT.Httpd.Transfer
import LambdaIOT.Lib.Chunked

/-!
# A chunked response is a chunked body

`CGI_LoadContentToSend` closes a chunk with the next one and writes the terminating chunk
behind the last. Which chunk is the first and which the last it infers from the counters
that the handler advances, so what is sent is a chunked body as long as the counters tell
the truth (`ChunkSound`): they leave zero with the first byte and not before, and the read
that ends the content returns something.
-/

namespace Httpd

open CMem Lwip

/-! ## What a read appends -/

/-- The counters from which the first chunk is recognized. -/
def Fresh (r : Response) : Prop := r.dwOperStage = 0 ∧ r.dwOperIndex = 0

instance (r : Response) : Decidable (Fresh r) := inferInstanceAs (Decidable (_ ∧ _))

/-- The chunks of a response: what the reads returned, without the empty ones. -/
def Transfer.chunks (t : Transfer) : List Bytes := t.reads.filter fun bs => !bs.isEmpty

theorem chunks_ne_nil (t : Transfer) : ∀ c ∈ t.chunks, c ≠ [] := by
  intro c hc
  have hne := (List.mem_filter.mp hc).2
  simpa using hne

theorem flatten_chunks (t : Transfer) : t.chunks.flatten = t.reads.flatten := by
  unfold Transfer.chunks
  induction t.reads with
  | nil => rfl
  | cons bs l ih =>
    cases bs with
    | nil =>
      rw [List.filter_cons_of_neg (by simp), List.flatten_cons, List.nil_append]
      exact ih
    | cons b bs =>
      rw [List.filter_cons_of_pos (by simp), List.flatten_cons, List.flatten_cons, ih]

theorem crlf_lineEnd : crlf = Chunked.lineEnd := by decide

theorem chunkTail_lastChunk : chunkTail = Chunked.lineEnd ++ Chunked.lastChunk := by decide

theorem chunkPrefix_eq (first : Bool) (n : Nat) :
    chunkPrefix first n = (if first then [] else Chunked.lineEnd) ++ Chunked.sizeLine n := by
  rw [chunkPrefix, crlf_lineEnd, Chunked.sizeLine, List.append_assoc]

/-- A chunk continues the body. -/
theorem opening_prefix {cs : List Bytes} {first : Bool} (hfirst : first = true ↔ cs = [])
    (data : Bytes) :
    Chunked.opening cs ++ (chunkPrefix first data.length ++ data) =
      Chunked.opening (cs ++ [data]) := by
  rw [chunkPrefix_eq]
  by_cases hnil : cs = []
  · rw [if_pos (hfirst.mpr hnil), hnil, List.nil_append, List.nil_append,
      Chunked.opening_singleton]
    rfl
  · have hlater : first = false := by
      rw [← Bool.not_eq_true, hfirst]
      exact hnil
    rw [hlater, Chunked.opening_concat hnil]
    rfl

/-! ## The condition -/

/-- The counters behind a read: a read that returns something leaves zero behind, and one
that returns nothing neither ends the content nor leaves zero nor goes back to it. A read
that fails says so. -/
def ReadSound (before : Response) (k : Content) : Prop :=
  (0 < k.size → ¬Fresh k.call.r) ∧
    (k.size = 0 → k.call.r.dwOperStage ≠ stageEnd ∧ (Fresh k.call.r ↔ Fresh before)) ∧
    (k.size < 0 → k.call.r.result < 0)

instance (before : Response) (k : Content) : Decidable (ReadSound before k) :=
  inferInstanceAs (Decidable (_ ∧ _ ∧ _))

/-- The condition on a load: at most a buffer is pending, and for a chunked response there is
a handler that reads, and its reads are sound. -/
def ChunkSound : Act → Prop
  | .load w h before _ _ =>
    before.bytesLeft ≤ maxSendBufSize ∧ (before.options.chunkEnabled = true →
      before.dwOperStage ≤ stageEnd ∧ readerOf h ≠ none ∧
      ∀ f ∈ readerOf h, before.dwOperStage < stageEnd → ReadSound before (readOf f w h before))
  | _ => True

instance (h : Request) : Decidable (readerOf h = none) :=
  decidable_of_iff ((readerOf h).isNone = true) Option.isNone_iff_eq_none

instance : DecidablePred ChunkSound := fun a => by
  apply @Act.casesOn (fun a => Decidable (ChunkSound a)) a <;> intros <;> unfold ChunkSound <;> infer_instance

theorem ChunkSound.apart {a : Act} (h : ChunkSound a) : Apart a := by
  cases a with
  | load w h' before after d => exact h.1
  | _ => trivial

/-! ## The invariant -/

/-- The content that was put is the chunked coding of what was read: open while there is
more, whole behind the last stage. -/
structure Encoded (c : RequestContext) : Prop where
  content : (Transfer.ofLog c.log).content =
    if c.dwOperStage = stageEnd then Chunked.encode (Transfer.ofLog c.log).chunks
    else Chunked.opening (Transfer.ofLog c.log).chunks
  fresh : Fresh c.toResponse ↔ (Transfer.ofLog c.log).chunks = []
  ended : c.dwOperStage = stageEnd → (Transfer.ofLog c.log).chunks ≠ []

/-- While a chunked response is sent its content is encoded, up to the end of the request. -/
def EncodeInv (c : RequestContext) : Prop :=
  c.sending = true → c.options.chunkEnabled = true → c.state ≠ .requestEnd → Encoded c

theorem encodeInv_idle {c : RequestContext} (h : c.sending = false) : EncodeInv c := by
  intro hs
  rw [h] at hs
  cases hs

/-- A step that leaves the counters and the content alone. -/
theorem encoded_quiet {c c' : RequestContext} (hi : Encoded c)
    (hstage : c'.dwOperStage = c.dwOperStage) (hindex : c'.dwOperIndex = c.dwOperIndex)
    (hcontent : (Transfer.ofLog c'.log).content = (Transfer.ofLog c.log).content)
    (hchunks : (Transfer.ofLog c'.log).chunks = (Transfer.ofLog c.log).chunks) : Encoded c' where
  content := by
    rw [hcontent, hchunks, hstage]
    exact hi.content
  fresh := by
    rw [hchunks, Fresh, hstage, hindex]
    exact hi.fresh
  ended := by
    rw [hchunks, hstage]
    exact hi.ended

theorem encoded_send {s s' : Sys} (hi : Encoded s.c) (h : SendFrame s s') : Encoded s'.c := by
  obtain ⟨_, _, _, _, log, _, rfl, _, _, hl⟩ := h
  obtain ⟨bs, hfold⟩ := Transfer.foldl_writes (Transfer.ofLog s.c.log) hl
  refine encoded_quiet hi rfl rfl ?_ ?_
  · rw [Transfer.ofLog_append, hfold]
  · rw [Transfer.ofLog_append, hfold]
    rfl

/-- A step of the response that logs nothing the history takes in. -/
theorem encoded_other {c c' : RequestContext} (hi : Encoded c)
    (hstage : c'.dwOperStage = c.dwOperStage) (hindex : c'.dwOperIndex = c.dwOperIndex)
    {l : List Act} (hlog : c'.log = c.log ++ l) (hl : ∀ a ∈ l, Transfer.takes a = false) :
    Encoded c' := by
  refine encoded_quiet hi hstage hindex ?_ ?_
  · rw [hlog, Transfer.ofLog_other _ hl]
  · rw [hlog, Transfer.ofLog_other _ hl]

theorem encoded_same {c c' : RequestContext} (hi : Encoded c)
    (hstage : c'.dwOperStage = c.dwOperStage) (hindex : c'.dwOperIndex = c.dwOperIndex)
    (hlog : c'.log = c.log) : Encoded c' :=
  encoded_other hi hstage hindex (l := []) (by rw [hlog, List.append_nil]) fun _ h => nomatch h

/-- A response begins without content. -/
theorem encoded_headers (s : Sys) (codeInfo : Bytes) (hfresh : Fresh s.c.toResponse) :
    Encoded (cgiSetResponseHeaders s codeInfo).c := by
  obtain ⟨t, ht, heq⟩ := cgiSetResponseHeaders_spec s codeInfo
  obtain ⟨_, _, _, _, _, _, hframe, -⟩ := cgiSetResponseHeaders_frame s codeInfo
  have hcounters : (cgiSetResponseHeaders s codeInfo).c.dwOperStage = 0 ∧
      (cgiSetResponseHeaders s codeInfo).c.dwOperIndex = 0 := by
    show Response.dwOperStage (cgiSetResponseHeaders s codeInfo).c.toResponse = 0 ∧
      Response.dwOperIndex (cgiSetResponseHeaders s codeInfo).c.toResponse = 0
    rw [hframe]
    exact hfresh
  have hlog : ∃ l h b, (cgiSetResponseHeaders s codeInfo).c.log =
      l ++ [.headers h b (cgiSetResponseHeaders s codeInfo).c.toResponse] := by
    rw [heq]
    exact ⟨_, _, _, rfl⟩
  obtain ⟨l, h, b, hlog⟩ := hlog
  constructor
  · rw [hlog, Transfer.ofLog_headers, if_neg (by rw [hcounters.1]; decide)]
    rfl
  · rw [hlog, Transfer.ofLog_headers]
    exact ⟨fun _ => rfl, fun _ => hcounters⟩
  · intro hend
    rw [hcounters.1] at hend
    cases hend

theorem startResponse_encoded (s : Sys) : Encoded (startResponse s).c := by
  have hbegun := encoded_headers (beginResponse s) (codeInfoOf s.c.result) ⟨rfl, rfl⟩
  have hsent := encoded_send hbegun (.sendBuffered _)
  unfold startResponse
  dsimp only
  generalize sendBuffered _ = v at hsent ⊢
  split
  · split
    · exact encoded_same hsent rfl rfl rfl
    · exact encoded_same hsent rfl rfl rfl
  · exact encoded_same hsent rfl rfl rfl

/-! ## A load -/

theorem webCloseFile_counters (c : Call) : (webCloseFile c).r.dwOperStage = c.r.dwOperStage ∧
    (webCloseFile c).r.dwOperIndex = c.r.dwOperIndex := by
  unfold webCloseFile
  dsimp only
  split
  · split
    · exact ⟨rfl, rfl⟩
    · exact ⟨rfl, rfl⟩
  · exact ⟨rfl, rfl⟩

/-- A call that does not read leaves the counters alone. -/
theorem loadContent_idle {s : Sys} (caller : Caller)
    (hnone : readerOf s.c.toRequest = none ∨ stageEnd ≤ s.c.dwOperStage) :
    (loadContent s caller).1.c.dwOperStage = s.c.dwOperStage ∧
      (loadContent s caller).1.c.dwOperIndex = s.c.dwOperIndex := by
  unfold loadContent
  split
  · show (cgiAllSent s).c.dwOperStage = _ ∧ (cgiAllSent s).c.dwOperIndex = _
    unfold cgiAllSent
    split
    · exact ⟨rfl, rfl⟩
    · unfold Sys.invoke
      split
      · exact ⟨rfl, rfl⟩
      · rename_i cgi _
        split
        · exact ⟨rfl, rfl⟩
        · rename_i g hg
          show (g s.call).r.dwOperStage = s.call.r.dwOperStage ∧
            (g s.call).r.dwOperIndex = s.call.r.dwOperIndex
          cases cgi <;> first | cases hg; exact webCloseFile_counters _ | cases hg
  · cases hcgi : s.c.handler with
    | none => exact ⟨rfl, rfl⟩
    | some cgi =>
      dsimp only
      cases hf : cgi.readContent with
      | none => exact ⟨rfl, rfl⟩
      | some f =>
        rcases hnone with hnone | hend
        · rw [readerOf, hcgi] at hnone
          rw [show cgi.readContent = none from hnone] at hf
          cases hf
        · dsimp only
          rw [if_pos hend]
          exact ⟨rfl, rfl⟩

theorem putSend_counters (r : Response) (off : Int) (bs : Bytes) :
    (r.putSend off bs).dwOperStage = r.dwOperStage ∧ (r.putSend off bs).dwOperIndex = r.dwOperIndex :=
  ⟨rfl, rfl⟩

theorem storeChunk_counters (r : Response) (at_ : Int) (first : Bool) (k : Content) :
    (storeChunk r at_ first k).dwOperStage = r.dwOperStage ∧
      (storeChunk r at_ first k).dwOperIndex = r.dwOperIndex := by
  unfold storeChunk
  split
  · simp only [wrapChunk, putSend_counters, and_self]
  · exact putSend_counters ..

theorem afterRead_counters {f : Request → Call → Int → Content} {w : World} {h : Request}
    {r : Response} (hchunk : r.options.chunkEnabled = true) :
    (afterRead f w h r).dwOperStage = (readOf f w h r).call.r.dwOperStage ∧
      (afterRead f w h r).dwOperIndex = (readOf f w h r).call.r.dwOperIndex := by
  unfold afterRead
  rw [if_pos hchunk]
  exact storeChunk_counters ..

/-- The chunk of a read, put behind the chunks before it. -/
theorem encoded_chunk {cs : List Bytes} {r : Response} {first : Bool} {k : Content}
    (hfirst : first = true ↔ cs = []) (hcount : Counted k) :
    Chunked.opening cs ++ chunkOf r first k =
      if 0 < k.size then
        if r.dwOperStage = stageEnd then Chunked.encode (cs ++ [k.out.take k.size.toNat])
        else Chunked.opening (cs ++ [k.out.take k.size.toNat])
      else Chunked.opening cs := by
  have hcount' : k.size ≤ k.out.length := hcount
  unfold chunkOf
  by_cases hpos : 0 < k.size
  · rw [if_pos hpos, if_pos hpos]
    have hlen : k.size.toNat = (k.out.take k.size.toNat).length := by
      rw [List.length_take]
      omega
    generalize k.out.take k.size.toNat = data at hlen ⊢
    rw [hlen, ← List.append_assoc, opening_prefix hfirst, chunkEnding]
    by_cases hend : r.dwOperStage = stageEnd
    · rw [if_pos hend, if_pos hend, chunkTail_lastChunk]
      exact Chunked.opening_close (List.append_ne_nil_of_right_ne_nil _ (List.cons_ne_nil _ _))
    · rw [if_neg hend, if_neg hend, List.append_nil]
  · rw [if_neg hpos, if_neg hpos, List.append_nil]

/-- The history behind a load. -/
theorem ofLog_loaded {s : Sys} {caller : Caller} (ht : Tracked s.c)
    (hmem : s.c.mem.length = memSize) (hapart : s.c.bytesLeft ≤ maxSendBufSize)
    (hok : (cgiLoadContentToSend s caller).1.c.fault = false) :
    (Transfer.ofLog (cgiLoadContentToSend s caller).1.c.log).content =
        (Transfer.ofLog s.c.log).content ++
          appendedOf s.w s.c.toRequest { s.c.toResponse with peak := 0 } ∧
      (Transfer.ofLog (cgiLoadContentToSend s caller).1.c.log).reads =
        (Transfer.ofLog s.c.log).reads ++
          [Transfer.returned s.w s.c.toRequest { s.c.toResponse with peak := 0 }] := by
  obtain ⟨t, d, hcall, hload, heq⟩ := cgiLoadContentToSend_spec s caller
  have happ := loadContent_appended (s := s.setResponse { s.c.toResponse with peak := 0 })
    caller ht.left hapart hmem
  rw [hload] at happ
  rw [heq] at hok ⊢
  have hloaded := (happ hok).loaded hmem ht.fits
  obtain ⟨w, r, log, rfl, hl⟩ := hcall
  have hcalls : ∀ a ∈ log, Transfer.takes a = false := fun a ha =>
    takes_of_callback (hl a ha).isCallback
  have hbefore : Transfer.ofLog (s.c.log ++ log) = Transfer.ofLog s.c.log :=
    Transfer.ofLog_other _ hcalls
  have hlog : ((Sys.mk w { s.c with toResponse := r, log := s.c.log ++ log } s.net).note
      (.load s.w s.c.toRequest { s.c.toResponse with peak := 0 } r d)).c.log =
      s.c.log ++ log ++ [.load s.w s.c.toRequest { s.c.toResponse with peak := 0 } r d] := rfl
  rw [hlog, Transfer.ofLog_load, hbefore]
  exact ⟨congrArg _ hloaded, rfl⟩

theorem chunks_append {t : Transfer} {l : List Bytes} {bs : Bytes} (h : t.reads = l ++ [bs]) :
    t.chunks = (l.filter fun bs => !bs.isEmpty) ++ if bs = [] then [] else [bs] := by
  rw [Transfer.chunks, h, List.filter_append]
  cases bs with
  | nil => rfl
  | cons b bs => rfl

/-- What a sound load appends continues the coding. -/
theorem encoded_load {s : Sys} {caller : Caller} (hi : Encoded s.c) (ht : Tracked s.c)
    (hmem : s.c.mem.length = memSize) (hchunk : s.c.options.chunkEnabled = true)
    (hok : (cgiLoadContentToSend s caller).1.c.fault = false)
    (hsound : ∀ a ∈ (cgiLoadContentToSend s caller).1.c.log, ChunkSound a)
    (hmore : 0 ≤ (cgiLoadContentToSend s caller).2) :
    Encoded (cgiLoadContentToSend s caller).1.c := by
  obtain ⟨t, d, hcall, hload, heq⟩ := cgiLoadContentToSend_spec s caller
  obtain ⟨hapart, hrest⟩ : ChunkSound (.load s.w s.c.toRequest { s.c.toResponse with peak := 0 }
      t.c.toResponse d) := by
    refine hsound _ ?_
    rw [heq]
    exact List.mem_append_right _ (List.mem_singleton.mpr rfl)
  obtain ⟨-, -, hreads⟩ := hrest hchunk
  rw [heq] at hmore
  obtain ⟨hcontent, hlist⟩ := ofLog_loaded ht hmem hapart hok
  have hchunks := chunks_append hlist
  rw [show ((Transfer.ofLog s.c.log).reads.filter fun bs => !bs.isEmpty) =
    (Transfer.ofLog s.c.log).chunks from rfl] at hchunks
  have hafter : (cgiLoadContentToSend s caller).1.c.toResponse =
      (loadContent (s.setResponse { s.c.toResponse with peak := 0 }) caller).1.c.toResponse := by
    rw [heq, hload]
    rfl
  generalize (cgiLoadContentToSend s caller).1.c = c' at hcontent hchunks hafter ⊢
  clear hok hsound heq hlist hrest
  have hcases := loadContent_cases (s.setResponse { s.c.toResponse with peak := 0 }) caller
  have hidle := loadContent_idle (s := s.setResponse { s.c.toResponse with peak := 0 }) caller
  rw [← hafter] at hcases
  have hstage : c'.dwOperStage =
      (loadContent (s.setResponse { s.c.toResponse with peak := 0 }) caller).1.c.dwOperStage :=
    congrArg Response.dwOperStage hafter
  have hindex : c'.dwOperIndex =
      (loadContent (s.setResponse { s.c.toResponse with peak := 0 }) caller).1.c.dwOperIndex :=
    congrArg Response.dwOperIndex hafter
  rw [hload] at hcases hidle hstage hindex
  rcases hcases with ⟨-, -, hnone⟩ | ⟨f, hf, hstages, hread, hd⟩
  · -- nothing is read
    have hnothing : appendedOf s.w s.c.toRequest { s.c.toResponse with peak := 0 } = [] ∧
        Transfer.returned s.w s.c.toRequest { s.c.toResponse with peak := 0 } = [] := by
      unfold appendedOf Transfer.returned
      rcases hnone with hnone | hend
      · rw [show readerOf s.c.toRequest = none from hnone]
        exact ⟨rfl, rfl⟩
      · cases readerOf s.c.toRequest with
        | none => exact ⟨rfl, rfl⟩
        | some f => exact ⟨if_neg (Nat.not_lt.mpr hend), if_neg (Nat.not_lt.mpr hend)⟩
    obtain ⟨hstage', hindex'⟩ := hidle hnone
    refine encoded_quiet hi (hstage.trans hstage') (hindex.trans hindex') ?_ ?_
    · rw [hcontent, hnothing.1, List.append_nil]
    · rw [hchunks, hnothing.2, if_pos rfl, List.append_nil]
  · -- a read
    replace hf : readerOf s.c.toRequest = some f := hf
    replace hstages : s.c.dwOperStage < stageEnd := hstages
    have hsoundRead := hreads f hf hstages
    obtain ⟨cgi, -, hreader⟩ := Option.bind_eq_some_iff.mp hf
    have hcount : Counted (readOf f s.w s.c.toRequest { s.c.toResponse with peak := 0 }) :=
      readContent_counted hreader ..
    have happ : appendedOf s.w s.c.toRequest { s.c.toResponse with peak := 0 } =
        chunkOf (readOf f s.w s.c.toRequest { s.c.toResponse with peak := 0 }).call.r
          (decide (s.c.dwOperStage = 0 ∧ s.c.dwOperIndex = 0))
          (readOf f s.w s.c.toRequest { s.c.toResponse with peak := 0 }) := by
      unfold appendedOf appendedBy
      rw [hf]
      dsimp only
      rw [if_pos hstages, if_pos hchunk]
    have hret : Transfer.returned s.w s.c.toRequest { s.c.toResponse with peak := 0 } =
        (readOf f s.w s.c.toRequest { s.c.toResponse with peak := 0 }).out.take
          (readOf f s.w s.c.toRequest { s.c.toResponse with peak := 0 }).size.toNat := by
      unfold Transfer.returned
      rw [hf]
      exact if_pos hstages
    have hcounters := afterRead_counters (f := f) (w := s.w) (h := s.c.toRequest)
      (r := { s.c.toResponse with peak := 0 }) hchunk
    replace hread : c'.toResponse =
        afterRead f s.w s.c.toRequest { s.c.toResponse with peak := 0 } := hread
    rw [← hread] at hcounters
    obtain ⟨hstage', hindex'⟩ := hcounters
    replace hd : d = hasData (readOf f s.w s.c.toRequest
      { s.c.toResponse with peak := 0 }).size := hd
    rw [happ] at hcontent
    rw [hret] at hchunks
    clear happ hret hreads hread hidle hstage hindex hafter hreader
    generalize readOf f s.w s.c.toRequest { s.c.toResponse with peak := 0 } = k at *
    have hopen : (Transfer.ofLog s.c.log).content =
        Chunked.opening (Transfer.ofLog s.c.log).chunks := by
      rw [hi.content, if_neg (Nat.ne_of_lt hstages)]
    have hfresh' : Fresh c'.toResponse ↔ Fresh k.call.r := by
      rw [Fresh, Fresh, hstage', hindex']
    rw [hopen, encoded_chunk (by rw [decide_eq_true_iff]; exact hi.fresh) hcount] at hcontent
    have hcount' : k.size ≤ k.out.length := hcount
    by_cases hpos : 0 < k.size
    · have hne : k.out.take k.size.toNat ≠ [] := by
        refine List.ne_nil_of_length_pos ?_
        rw [List.length_take]
        omega
      rw [if_neg hne] at hchunks
      rw [if_pos hpos] at hcontent
      have hsome : (Transfer.ofLog c'.log).chunks ≠ [] := by
        rw [hchunks]
        exact List.append_ne_nil_of_right_ne_nil _ (List.cons_ne_nil _ _)
      refine ⟨?_, ?_, fun _ => hsome⟩
      · rw [hcontent, hchunks, show c'.dwOperStage = k.call.r.dwOperStage from hstage']
      · rw [hfresh']
        exact iff_of_false (hsoundRead.1 hpos) hsome
    · by_cases hzero : k.size = 0
      · obtain ⟨hgoes, hiff⟩ := hsoundRead.2.1 hzero
        rw [hzero, Int.toNat_zero, List.take_zero, if_pos rfl, List.append_nil] at hchunks
        rw [if_neg hpos] at hcontent
        refine ⟨?_, ?_, fun hend => absurd (hstage'.symm.trans hend) hgoes⟩
        · rw [hcontent, hchunks, show c'.dwOperStage = k.call.r.dwOperStage from hstage',
            if_neg hgoes]
        · rw [hfresh', hiff, hchunks]
          exact hi.fresh
      · have hneg : d < 0 := by
          rw [hd, hasData_neg]
          omega
        exact absurd hneg (not_lt.mpr hmore)

/-! ## The run -/

theorem sendRemaining_encoded {s : Sys} (hi : Encoded s.c) : Encoded (sendRemaining s).c := by
  have hsent := encoded_send hi (.sendBuffered s)
  unfold sendRemaining
  dsimp only
  split
  · exact hsent
  · exact encoded_same hsent rfl rfl rfl

theorem sendRemaining_goes {s : Sys} (h : (sendRemaining s).c.state ≠ .requestEnd) :
    s.c.state ≠ .requestEnd := by
  intro hend
  obtain ⟨_, _, _, _, _, _, heq, -⟩ := SendFrame.sendBuffered s
  refine h ?_
  unfold sendRemaining
  dsimp only
  split
  · rw [heq]
    exact hend
  · rfl

theorem sendBody_encoded {s : Sys} {caller : Caller} (hi : Encoded s.c) (ht : Tracked s.c)
    (hmem : s.c.mem.length = memSize) (hchunk : s.c.options.chunkEnabled = true)
    (hok : (sendBody s caller).c.fault = false)
    (hsound : ∀ a ∈ (sendBody s caller).c.log, ChunkSound a)
    (hst : (sendBody s caller).c.state ≠ .requestEnd) : Encoded (sendBody s caller).c := by
  obtain ⟨l, hlog⟩ := sendBody_log s caller
  rw [sendBody_fault] at hok
  have hloaded := encoded_load hi ht hmem hchunk hok fun a ha =>
    hsound a (by rw [hlog]; exact List.mem_append_left _ ha)
  unfold sendBody at hst ⊢
  dsimp only at hst ⊢
  by_cases hpos : 0 < (cgiLoadContentToSend s caller).2
  · rw [if_pos hpos]
    have hsent := encoded_send (hloaded (le_of_lt hpos)) (.sendBuffered _)
    split
    · exact encoded_same hsent rfl rfl rfl
    · exact encoded_same hsent rfl rfl rfl
  · rw [if_neg hpos] at hst ⊢
    by_cases hneg : (cgiLoadContentToSend s caller).2 < 0
    · rw [if_pos hneg] at hst
      exact absurd rfl hst
    · rw [if_neg hneg]
      exact hloaded (not_lt.mp hneg)

theorem encodeInv_freed {s s' : Sys} (h : FreedFrame s s') : EncodeInv s'.c := by
  obtain ⟨_, _, _, _, _, _, rfl, -⟩ := h
  exact encodeInv_idle rfl

theorem encodeInv_rx {s : Sys} {c : RequestContext} (hi : EncodeInv s.c) (h : RxFrame s.c c) :
    EncodeInv c := by
  intro hsent hchunk hst
  rw [h.request] at hsent hst
  obtain ⟨_, hresp⟩ := h.response
  obtain ⟨_, _, _, _, _, log, heq, -, hl⟩ := h
  replace hchunk : c.toResponse.options.chunkEnabled = true := hchunk
  rw [hresp] at hchunk
  refine encoded_other (hi hsent hchunk hst) ?_ ?_ (l := log) (by rw [heq]) fun a ha =>
    takes_of_rx (hl a ha)
  · exact (congrArg Response.dwOperStage hresp).trans rfl
  · exact (congrArg Response.dwOperIndex hresp).trans rfl

/-- Every action keeps the content encoded, under the condition. -/
theorem encodeInv_step {s s' : Sys} (hs : Shape s.c) (hi : SendInv s.c) (ht : TransferInv s.c)
    (he : EncodeInv s.c) (h : Micro s s') (hok : s'.c.fault = false)
    (hsound : ∀ a ∈ s'.c.log, ChunkSound a) : EncodeInv s'.c := by
  cases h with
  | environment w net hpcbs => exact he
  | receive p hlive hfit => exact encodeInv_rx he (.receivePbuf ..)
  | peerClosed => exact fun hsent hchunk hst => encoded_same (he hsent hchunk hst) rfl rfl rfl
  | touch t => exact fun hsent hchunk hst => encoded_same (he hsent hchunk hst) rfl rfl rfl
  | acknowledged len => exact fun hsent hchunk hst => encoded_same (he hsent hchunk hst) rfl rfl rfl
  | dequeue hst => exact encodeInv_rx he (.dequeue _)
  | startRequest hst hlen => exact encodeInv_idle (hi.early (.inl (by rw [hst]; rfl)))
  | parseHeader hst hlen =>
    exact encodeInv_idle (parseHeader_sending (hi.early (.inl (by rw [hst]; rfl))))
  | tooLarge hst => exact encodeInv_idle (hi.early (.inl (by rw [hst]; rfl)))
  | headersEnd hst hgood =>
    refine encodeInv_idle ?_
    obtain ⟨_, _, heq, -⟩ := headersEnd_eq s
    rw [heq, (CallFrame.cgiHeadersReceived _).request]
    exact hi.early (.inl (by rw [hst]; rfl))
  | refuse hst hbad hsending => exact encodeInv_idle (hi.early hsending)
  | chunkLength hst hgood =>
    refine encodeInv_idle ?_
    have hsent := hi.early (.inl (by rw [hst]; rfl))
    unfold chunkLength
    split
    · exact hsent
    · exact hsent
  | content size hst hgood =>
    refine encodeInv_idle ((offerContent_sending s size).trans (hi.early (.inl ?_)))
    rcases hst with h | ⟨h, -⟩ <;> rw [h] <;> rfl
  | complete hst hgood =>
    refine encodeInv_idle ?_
    show Request.sending (completeRequest s).c.toRequest = false
    rw [show (completeRequest s).c.toRequest = s.c.toRequest from
      (CallFrame.completeRequest s).request]
    exact hi.early (.inr hst)
  | sendRemaining hst hres hleft =>
    intro hsent hchunk hgoes
    rw [(sendRemaining_kept s).1] at hsent
    rw [(sendRemaining_kept s).2] at hchunk
    exact sendRemaining_encoded (he hsent hchunk (sendRemaining_goes hgoes))
  | startResponse hst hres hfirst => exact fun _ _ _ => startResponse_encoded s
  | headerAcked hst hres hsent =>
    intro _ hchunk hgoes
    unfold headerAcked at hchunk hgoes ⊢
    by_cases hbad : s.c.result < 0
    · rw [if_pos hbad] at hgoes
      exact absurd rfl hgoes
    · rw [if_neg hbad] at hchunk ⊢
      exact encoded_same (he hsent hchunk (by rw [hst]; decide)) rfl rfl rfl
  | sendBody caller hst hres hsent hstage =>
    intro _ hchunk hgoes
    have hbefore : s.c.options.chunkEnabled = true := by
      rw [sendBody_options] at hchunk
      exact hchunk
    exact sendBody_encoded (he hsent hbefore (by rw [hst]; decide)) (ht hsent) hs.mem hbefore hok
      hsound hgoes
  | requestEnd hst =>
    unfold requestEnd
    split
    · exact encodeInv_freed (closeHttpContext_frame s)
    · split
      · obtain ⟨_, _, heq, -⟩ := resetHttpContext_spec (s.note (.reset s.c.toRequest s.c.toResponse))
        rw [heq]
        exact encodeInv_idle rfl
      · exact encodeInv_freed (closeHttpContext_frame s)
  | peerGone hst hpeer => exact encodeInv_idle (hi.early (.inl hst))
  | close => exact encodeInv_freed (closeHttpContext_frame s)
  | free hgone => exact encodeInv_freed (freeHttpContext_frame s)
  | outOfFuel => exact fun hsent hchunk hst => encoded_same (he hsent hchunk hst) rfl rfl rfl

theorem SlotReach.encoded {c : RequestContext} (h : SlotReach c) (hok : c.fault = false)
    (hsound : ∀ a ∈ c.log, ChunkSound a) (hsent : c.sending = true)
    (hchunk : c.options.chunkEnabled = true) (hst : c.state ≠ .requestEnd) : Encoded c := by
  have hall : SendInv c ∧ TransferInv c ∧ EncodeInv c :=
    SlotReach.induct (P := fun c => SendInv c ∧ TransferInv c ∧ EncodeInv c)
      ⟨sendInv_idle rfl, transferInv_idle rfl, encodeInv_idle rfl⟩
      (fun s pcb ip _ _ => by
        obtain ⟨_, _, _, heq⟩ := acceptContext_spec s pcb ip
        rw [heq]
        exact ⟨sendInv_idle rfl, transferInv_idle rfl, encodeInv_idle rfl⟩)
      (fun s s' hs hi hm hok' hcond =>
        ⟨sendInv_step hi.1 hm,
          transferInv_step hs hi.1 hi.2.1 hm hok' fun a ha => (hcond a ha).apart,
          encodeInv_step hs hi.1 hi.2.1 hi.2.2 hm hok' hcond⟩) h hok hsound
  exact hall.2.2 hsent hchunk hst

/-! ## The end of a response -/

/-- What was accepted behind the header of `t` is a chunked body, and it codes what the
handler returned. -/
def Coded (t : Transfer) : Prop :=
  ∃ body, t.accepted = t.header ++ body ∧ Chunked.decode body = some t.reads.flatten

/-- The body is behind the header. -/
theorem Coded.decode {t : Transfer} (h : Coded t) :
    Chunked.decode (t.accepted.drop t.header.length) = some t.reads.flatten := by
  obtain ⟨body, haccepted, hbody⟩ := h
  rw [haccepted, List.drop_left]
  exact hbody

/-- A load that ends the response without an error, when the reads are sound, finds the
content read to its end and nothing pending. -/
theorem loadContent_ends {s : Sys} (caller : Caller)
    (hend : (loadContent s caller).2 < 0) (hresult : 0 ≤ (loadContent s caller).1.c.result)
    (hstage : s.c.dwOperStage ≤ stageEnd) (hreader : readerOf s.c.toRequest ≠ none)
    (hsound : ∀ f ∈ readerOf s.c.toRequest, s.c.dwOperStage < stageEnd →
      ReadSound s.c.toResponse (readOf f s.w s.c.toRequest s.c.toResponse)) :
    s.c.dwOperStage = stageEnd := by
  rcases loadContent_cases s caller with ⟨-, -, hnone | hover⟩ | ⟨f, hf, hmore, hafter, hd⟩
  · exact absurd hnone hreader
  · exact Nat.le_antisymm hstage hover
  · rw [hd, hasData_neg] at hend
    have hfailed := (hsound f hf hmore).2.2 hend
    have hkept : (loadContent s caller).1.c.result =
        (readOf f s.w s.c.toRequest s.c.toResponse).call.r.result := by
      show Response.result (loadContent s caller).1.c.toResponse = _
      rw [hafter, afterRead]
      split
      · exact storeChunk_result ..
      · exact storePlain_result ..
    rw [hkept] at hresult
    omega

/-- Whenever a chunked response ends in a run without an error and without a failed write,
and the loads up to there meet the condition, what was sent behind the header is a chunked
body that codes what the handler returned. -/
theorem chunked_response {sv : Server} (h : sv.Reachable) {c : RequestContext}
    (hc : c ∈ sv.slots) {pre post : List Act} {w : World} {req : Request}
    {before after : Response} {d : Int} (hlog : c.log = pre ++ .load w req before after d :: post)
    (hend : d < 0) (hresult : 0 ≤ after.result) (hchunk : before.options.chunkEnabled = true)
    (hok : before.fault = false) (hwritten : (Transfer.ofLog pre).failed = false)
    (hsound : ∀ a ∈ pre ++ [.load w req before after d], ChunkSound a) :
    Coded (Transfer.ofLog pre) := by
  obtain ⟨s, l, hs, rfl, hcalls, hst, hsent, hleft, rfl, rfl, rfl, caller, t, hload, rfl⟩ :=
    (h.slot hc).loggedAt hlog rfl
  have hbefore : ∀ a ∈ s.c.log, ChunkSound a := fun a ha =>
    hsound a (List.mem_append_left _ (List.mem_append_left _ ha))
  have hlog' : Transfer.ofLog (s.c.log ++ l) = Transfer.ofLog s.c.log :=
    Transfer.ofLog_other _ fun a ha => takes_of_callback (hcalls a ha)
  obtain ⟨-, hlast⟩ := hsound _ (List.mem_append_right _ (List.mem_singleton.mpr rfl))
  obtain ⟨hstage, hreader, hreads⟩ := hlast hchunk
  have hdone : s.c.dwOperStage = stageEnd := by
    refine loadContent_ends (s := s.setResponse { s.c.toResponse with peak := 0 })
      caller ?_ ?_ hstage hreader hreads
    · rw [hload]
      exact hend
    · rw [hload]
      exact hresult
  have henc := hs.encoded hok hbefore hsent hchunk (by rw [hst]; decide)
  have htracked := hs.tracked hok (fun a ha => (hbefore a ha).apart) hsent
  have hzero : s.c.bytesLeft = 0 := by
    have h0 := htracked.left
    by_contra hne
    exact hleft (by omega) hdone
  rw [hlog'] at hwritten ⊢
  have hwhole := htracked.whole hwritten
  rw [Response.pending, hzero, Int.toNat_zero, List.take_zero, List.append_nil, henc.content,
    if_pos hdone] at hwhole
  refine ⟨_, hwhole.symm, ?_⟩
  rw [Chunked.decode_encode (chunks_ne_nil _), flatten_chunks]

/-- Entry `k` ends a chunked response, without an error and within defined behaviour. -/
def chunkedEnd (log : List Act) (k : Nat) : Bool :=
  match log[k]? with
  | some (.load _ _ before after d) =>
    decide (d < 0) && decide (0 ≤ after.result) && before.options.chunkEnabled && !before.fault
  | _ => false

theorem chunkedEnd_split {log : List Act} {k : Nat} (h : chunkedEnd log k = true) :
    ∃ w req before after d, log = log.take k ++ .load w req before after d :: log.drop (k + 1) ∧
      log.take (k + 1) = log.take k ++ [.load w req before after d] ∧
      d < 0 ∧ 0 ≤ after.result ∧ before.options.chunkEnabled = true ∧ before.fault = false := by
  unfold chunkedEnd at h
  cases hk : log[k]? with
  | none =>
    rw [hk] at h
    cases h
  | some a =>
    rw [hk] at h
    cases a with
    | load w req before after d =>
      obtain ⟨hlt, hget⟩ := List.getElem?_eq_some_iff.mp hk
      refine ⟨w, req, before, after, d, ?_, ?_, by simpa [and_assoc] using h⟩
      · rw [← hget, List.cons_getElem_drop_succ, List.take_append_drop]
      · rw [← hget, List.take_concat_get' _ _ hlt]
    | _ => cases h

/-- A request for the description of the device, and its acknowledgements. -/
def descriptionRun : List (Answers × Event) :=
  [(openNet, .accept 7), (openNet, receiveText 0 "GET /upnp_device.xml HTTP/1.1\r\n\r\n")] ++
    List.replicate 9 (openNet, .sent 0 200)

/-- A server with one page, and the page is empty. -/
def emptyPageWorld : World :=
  { plainWorld with fs := webFsInit [⟨ascii "/auth/e.shtml", 0, 1, 1⟩] [0, 0] }

def emptyPageRun : List (Answers × Event) :=
  [(openNet, .accept 7), (openNet, receiveText 0 "GET /auth/e.shtml HTTP/1.1\r\n\r\n"),
    (openNet, .sent 0 232)]

/-- The description is sent in six chunks. -/
theorem chunked_response_description :
    Coded (Transfer.ofLog ((((Server.boot plainWorld).run descriptionRun).slot 0).log.take 26)) := by
  have hrun : (Server.boot plainWorld).RunLegal descriptionRun ∧
      0 < ((Server.boot plainWorld).run descriptionRun).slots.length ∧
      chunkedEnd (((Server.boot plainWorld).run descriptionRun).slot 0).log 26 = true ∧
      (Transfer.ofLog ((((Server.boot plainWorld).run descriptionRun).slot 0).log.take 26)).failed =
        false ∧
      ∀ a ∈ (((Server.boot plainWorld).run descriptionRun).slot 0).log.take 27, ChunkSound a := by
    decide +kernel
  obtain ⟨hlegal, hslot, hlast, hwritten, hsound⟩ := hrun
  obtain ⟨w, req, before, after, d, hsplit, htake, hend, hresult, hchunk, hok⟩ :=
    chunkedEnd_split hlast
  exact chunked_response ((Server.Reachable.boot plainWorld).run hlegal) (Server.slot_mem hslot)
    hsplit hend hresult hchunk hok hwritten (by rw [← htake]; exact hsound)

/-- An empty page is announced as chunked, and ends without a chunk. -/
theorem chunked_response_empty :
    (Server.boot emptyPageWorld).RunLegal emptyPageRun ∧
      ∃ pre w req before after d post,
        (((Server.boot emptyPageWorld).run emptyPageRun).slot 0).log =
          pre ++ .load w req before after d :: post ∧
        d < 0 ∧ 0 ≤ after.result ∧ before.options.chunkEnabled = true ∧ before.fault = false ∧
        (Transfer.ofLog pre).failed = false ∧ ¬Coded (Transfer.ofLog pre) := by
  have hrun : (Server.boot emptyPageWorld).RunLegal emptyPageRun ∧
      chunkedEnd (((Server.boot emptyPageWorld).run emptyPageRun).slot 0).log 11 = true ∧
      (Transfer.ofLog ((((Server.boot emptyPageWorld).run emptyPageRun).slot 0).log.take 11)).failed =
        false ∧
      Chunked.decode ((Transfer.ofLog
        ((((Server.boot emptyPageWorld).run emptyPageRun).slot 0).log.take 11)).accepted.drop
        (Transfer.ofLog
          ((((Server.boot emptyPageWorld).run emptyPageRun).slot 0).log.take 11)).header.length) =
        none := by decide +kernel
  obtain ⟨hlegal, hlast, hwritten, hnone⟩ := hrun
  obtain ⟨w, req, before, after, d, hsplit, -, hend, hresult, hchunk, hok⟩ := chunkedEnd_split hlast
  refine ⟨hlegal, _, w, req, before, after, d, _, hsplit, hend, hresult, hchunk, hok, hwritten,
    fun hcoded => ?_⟩
  rw [hcoded.decode] at hnone
  cases hnone

end Httpd

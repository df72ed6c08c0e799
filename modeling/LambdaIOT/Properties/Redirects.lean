import LambdaIOT.Properties.Alignment
import LambdaIOT.Properties.Headers
import LambdaIOT.Httpd.Transfer

/-!
# The redirect of a request that is turned away

A request for a page that asks for a session is turned away at the end of its header section. The
call that finds the end also begins the response: `CGI_SetResponseHeaders` builds the header and the
page of the redirect in one text, and the body of the handler is asked for behind it, whatever the
verdict was. Only the upload has no body, so its client is sent the redirect and nothing else, if
the network takes the whole text at once: what is left of it is dropped with the request.
-/

namespace Httpd

open CMem Lwip

/-! ## Requests that are turned away -/

/-- The callbacks that a request is served with. -/
def Callback.serves : Callback → Bool
  | .onHeadersReceived | .onContentReceived | .onRequestReceived | .readContent => true
  | _ => false

def Act.serves : Act → Bool
  | .callback _ cb => cb.serves
  | _ => false

/-- A header section ends whose handler and page ask for a session, and none of the client's
address was found. -/
def Act.denies : Act → Bool
  | .headersEnd h r found =>
    h.handler.any (fun cgi => cgi.optionsAllowed.authRequired) && sessionTypes r.extension && !found
  | _ => false

/-- The bytes that `altcp_write` accepted. -/
def writtenBytes (log : List Act) : Bytes :=
  log.flatMap fun
    | .write bs ok => if ok then bs else []
    | _ => []

/-- The header and the page of the redirect to the login page. -/
def redirectText (clock : Clock) : Bytes :=
  redirectHeader webDefaultPage ++ dateLine clock ++ ascii "Server: " ++ serverHeader ++ crlf ++
    crlf ++ redirectBody webDefaultPage

/-- The entries of the request that is under way behind `pre` and goes on in `post`. -/
def requestEntries (pre post : List Act) : List Act :=
  current pre ++ post.takeWhile fun a => !a.endsRequest

/-- The request is not served. What is written for it begins the redirect, and when it ends that
is the whole redirect. -/
structure Dismissed (pre post : List Act) : Prop where
  unserved : ∀ a ∈ requestEntries pre post, a.serves = false
  written : ∃ clock, writtenBytes (requestEntries pre post) <+: redirectText clock ∧
    ((∃ e ∈ post, e.endsRequest = true) →
      writtenBytes (requestEntries pre post) = redirectText clock)

/-- Every request of the log that is turned away is sent the redirect only. -/
def DeniedDismissed (log : List Act) : Prop :=
  ∀ pre a post, log = pre ++ a :: post → a.denies = true → Dismissed pre post

/-- The request is over: it was not served, and sent the redirect. -/
def Redirected (pre post : List Act) : Prop :=
  ∃ l e rest clock, post = l ++ e :: rest ∧ e.endsRequest = true ∧
    (∀ a ∈ l, a.endsRequest = false) ∧ (∀ a ∈ current pre ++ l, a.serves = false) ∧
    writtenBytes (current pre ++ l) = redirectText clock

/-- Every request of the log that is turned away is over. -/
def DeniedRedirected (log : List Act) : Prop :=
  ∀ pre a post, log = pre ++ a :: post → a.denies = true → Redirected pre post

theorem requestEntries_ended {pre l rest : List Act} {e : Act} (he : e.endsRequest = true)
    (hl : ∀ a ∈ l, a.endsRequest = false) :
    requestEntries pre (l ++ e :: rest) = current pre ++ l := by
  have htake : (l ++ e :: rest).takeWhile (fun a => !a.endsRequest) = l := by
    rw [List.takeWhile_append_of_pos fun a ha => by rw [hl a ha]; rfl,
      List.takeWhile_cons_of_neg (by rw [he]; decide), List.append_nil]
  rw [requestEntries, htake]

theorem Redirected.dismissed {pre post : List Act} (h : Redirected pre post) :
    Dismissed pre post := by
  obtain ⟨l, e, rest, clock, rfl, he, hl, hserves, hbytes⟩ := h
  constructor
  · rw [requestEntries_ended he hl]
    exact hserves
  · rw [requestEntries_ended he hl]
    exact ⟨clock, hbytes ▸ List.prefix_rfl, fun _ => hbytes⟩

theorem DeniedRedirected.dismissed {log : List Act} (h : DeniedRedirected log) :
    DeniedDismissed log := fun pre a post heq ha => (h pre a post heq ha).dismissed

theorem writtenBytes_append (l m : List Act) :
    writtenBytes (l ++ m) = writtenBytes l ++ writtenBytes m := List.flatMap_append

/-- Entries that are no writes. -/
theorem writtenBytes_none {l : List Act} (h : ∀ a ∈ l, a.isWrite = false) : writtenBytes l = [] := by
  induction l with
  | nil => rfl
  | cons a l ih =>
    have ha := h a (List.mem_cons_self ..)
    have hrest := ih fun b hb => h b (List.mem_cons_of_mem _ hb)
    cases a with
    | write bs ok => cases ha
    | _ => exact hrest

/-- What follows the end of the request does not matter. -/
theorem Redirected.append {pre post : List Act} (h : Redirected pre post) (l : List Act) :
    Redirected pre (post ++ l) := by
  obtain ⟨m, e, rest, clock, rfl, he, hm, hserves, hbytes⟩ := h
  exact ⟨m, e, rest ++ l, clock, by rw [List.append_assoc, List.cons_append], he, hm, hserves, hbytes⟩

theorem deniedRedirected_nil : DeniedRedirected [] := by
  intro pre a post h
  exact absurd h (by simp)

theorem deniedRedirected_append {log l : List Act} (h : DeniedRedirected log)
    (hl : ∀ a ∈ l, a.denies = false) : DeniedRedirected (log ++ l) := by
  intro pre a post heq ha
  rcases List.append_eq_append_iff.mp heq with ⟨m, -, hm⟩ | ⟨m, hlog, hm⟩
  · rw [hl a (by rw [hm]; exact List.mem_append_right _ (List.mem_cons_self ..))] at ha
    cases ha
  · cases m with
    | nil =>
      rw [hl a (by
        rw [show l = a :: post from hm.symm]
        exact List.mem_cons_self ..)] at ha
      cases ha
    | cons b m =>
      obtain ⟨rfl, rfl⟩ := List.cons.inj hm
      exact (h pre a m hlog ha).append l

/-- A request that is turned away and over in one call. -/
theorem deniedRedirected_redirected {log l : List Act} {a : Act} (h : DeniedRedirected log)
    (hredirected : Redirected log l) (hl : ∀ b ∈ l, b.denies = false) :
    DeniedRedirected (log ++ a :: l) := by
  have hone : DeniedRedirected log → ∀ pre b post, log ++ [a] = pre ++ b :: post → b.denies = true →
      pre = log ∧ post = [] ∨ ∃ m, post = m ++ [a] ∧ Redirected pre m := by
    intro h pre b post heq hb
    rcases List.eq_nil_or_concat post with rfl | ⟨m, d, rfl⟩
    · exact .inl ⟨(List.append_inj' heq rfl).1.symm, rfl⟩
    · rw [List.concat_eq_append, ← List.cons_append, ← List.append_assoc] at heq
      obtain ⟨hlog, hd⟩ := List.append_inj' heq rfl
      obtain ⟨rfl, -⟩ := List.cons.inj hd
      exact .inr ⟨m, List.concat_eq_append, h pre b m hlog hb⟩
  intro pre b post heq hb
  rw [List.append_cons] at heq
  rcases List.append_eq_append_iff.mp heq with ⟨m, -, hm⟩ | ⟨m, hlog, hm⟩
  · rw [hl b (by rw [hm]; exact List.mem_append_right _ (List.mem_cons_self ..))] at hb
    cases hb
  · cases m with
    | nil =>
      rw [hl b (by
        rw [show l = b :: post from hm.symm]
        exact List.mem_cons_self ..)] at hb
      cases hb
    | cons c m =>
      obtain ⟨rfl, rfl⟩ := List.cons.inj hm
      rcases hone h pre b m hlog hb with ⟨rfl, rfl⟩ | ⟨k, rfl, hk⟩
      · exact hredirected
      · exact (hk.append [a]).append l

/-! ## The text of the redirect -/

/-- The send buffer of a redirect to the login page holds the string `text`. -/
structure Holding (r : Response) (text : Bytes) : Prop where
  memory : r.mem.length = memSize
  string : cstr r.mem = text
  result : r.result = codeRedirect
  path : r.responsePath = webDefaultPage

namespace Holding

theorem put {r : Response} {k : Nat} {s : Bytes} (hroom : k + s.length < memSize) :
    (r.putSend k (s ++ [0])).mem = store r.mem k (s ++ [0]) := by
  have hfits : Response.sendFits (k : Int) (s ++ [0]) := .inr ⟨Int.natCast_nonneg k, by
    rw [List.length_append, List.length_singleton]
    omega⟩
  rw [Response.putSend, if_pos hfits]
  rfl

theorem sprintf {r : Response} {s : Bytes} (hmem : r.mem.length = memSize)
    (hresult : r.result = codeRedirect) (hpath : r.responsePath = webDefaultPage)
    (hplain : NoNul s) (hroom : s.length < memSize) : Holding (r.sprintfSend s) s := by
  have hput : (r.sprintfSend s).mem = store r.mem 0 (s ++ [0]) := put (k := 0) (by omega)
  refine ⟨?_, ?_, hresult, hpath⟩
  · rw [hput, length_store]
    exact hmem
  · rw [hput]
    exact cstr_store_zero hplain (by omega)

theorem strcat {r : Response} {text s : Bytes} (h : Holding r text) (hplain : NoNul s)
    (hroom : text.length + s.length < memSize) : Holding (r.strcatSend s) (text ++ s) := by
  have hlen : strlen r.mem = text.length := congrArg List.length h.string
  have hput : (r.strcatSend s).mem = store r.mem (strlen r.mem) (s ++ [0]) :=
    put (by omega)
  have hmem := h.memory
  refine ⟨?_, ?_, h.result, h.path⟩
  · rw [hput, length_store]
    exact hmem
  · rw [hput]
    refine (cstr_store_end hplain ?_).trans (by rw [h.string])
    rw [h.string]
    omega

end Holding

theorem noNul_dateLine (clock : Clock) : NoNul (dateLine clock) :=
  (NoNul.append (by decide) clock.noNul).append (by decide)

theorem length_redirectText (clock : Clock) : (redirectText clock).length = 225 := by
  have hheader : (redirectHeader webDefaultPage).length = 81 := by decide +kernel
  have hserver : (ascii "Server: ").length = 8 := rfl
  have hname : serverHeader.length = 12 := rfl
  have hcrlf : crlf.length = 2 := rfl
  have hbody : (redirectBody webDefaultPage).length = 83 := by decide +kernel
  simp only [redirectText, List.length_append, length_dateLine, hheader, hserver, hname, hcrlf,
    hbody]

/-- Behind the header of the redirect come the date, the server and the page. -/
theorem headersFinish_redirect {r : Response} (w : World) (codeInfo : Bytes)
    (hmem : r.mem.length = memSize) (hresult : r.result = codeRedirect)
    (hpath : r.responsePath = webDefaultPage) :
    (headersFinish w (headersBegin r) codeInfo).pending = redirectText w.clock ∧
      (headersFinish w (headersBegin r) codeInfo).bytesLeft = 225 ∧
      (headersFinish w (headersBegin r) codeInfo).mem.length = memSize := by
  have hsize : memSize = 512 := rfl
  have hheader : (redirectHeader webDefaultPage).length = 81 := by decide +kernel
  have hserver : (ascii "Server: ").length = 8 := rfl
  have hname : serverHeader.length = 12 := rfl
  have hcrlf : crlf.length = 2 := rfl
  have hpage : webDefaultPage.length = 16 := by decide +kernel
  have h1 : redirectBody1.length = 42 := rfl
  have h2 : redirectBody2.length = 25 := rfl
  have hbegin : headersBegin r = (r.putSend 0 [0]).sprintfSend (redirectHeader webDefaultPage) := by
    unfold headersBegin
    dsimp only
    rw [if_pos (show (r.putSend 0 [0]).result = codeRedirect from hresult)]
    exact congrArg _ (congrArg redirectHeader hpath)
  have hstart : Holding (headersBegin r) (redirectHeader webDefaultPage) := by
    rw [hbegin]
    exact .sprintf ((putSend_memLength ..).trans hmem) hresult hpath (by decide +kernel) (by omega)
  generalize headersBegin r = t at hstart ⊢
  -- the buffer is not empty, so no other header is written over it
  have hdefault : headersDefault t codeInfo = t := by
    unfold headersDefault
    refine if_neg fun hzero => ?_
    have hnone : cstr t.mem = [] := by
      cases hm : t.mem with
      | nil => rfl
      | cons b m =>
        rw [hm] at hzero
        have hb : b = 0 := hzero
        rw [hb]
        rfl
    rw [hstart.string] at hnone
    rw [hnone] at hheader
    cases hheader
  have hd1 := hstart.strcat (noNul_dateLine w.clock) (by rw [length_dateLine]; omega)
  have hd2 := hd1.strcat (s := ascii "Server: ") (by decide)
    (by rw [List.length_append, length_dateLine]; omega)
  have hd3 := hd2.strcat (s := serverHeader) (by decide)
    (by simp only [List.length_append, length_dateLine]; omega)
  have hd4 := hd3.strcat (s := crlf) (by decide)
    (by simp only [List.length_append, length_dateLine]; omega)
  have hd5 : Holding (headersDate t w.clock) _ := hd4.strcat (s := crlf) (by decide)
    (by simp only [List.length_append, length_dateLine]; omega)
  have hb1 := hd5.strcat (s := redirectBody1) (by decide +kernel)
    (by simp only [List.length_append, length_dateLine]; omega)
  have hb2 := hb1.strcat (s := webDefaultPage) (by decide +kernel)
    (by simp only [List.length_append, length_dateLine]; omega)
  have hb3 := hb2.strcat (s := redirectBody2) (by decide +kernel)
    (by simp only [List.length_append, length_dateLine]; omega)
  have hbody : headersBody (headersDate t w.clock) =
      (((headersDate t w.clock).strcatSend redirectBody1).strcatSend webDefaultPage).strcatSend
        redirectBody2 := by
    unfold headersBody
    rw [if_pos hd5.result, hd5.path]
  have htext : redirectHeader webDefaultPage ++ dateLine w.clock ++ ascii "Server: " ++
      serverHeader ++ crlf ++ crlf ++ redirectBody1 ++ webDefaultPage ++ redirectBody2 =
        redirectText w.clock := by
    simp only [redirectText, redirectBody, List.append_assoc]
  have hfinal : Holding (headersBody (headersDate t w.clock)) (redirectText w.clock) := by
    rw [hbody, ← htext]
    exact hb3
  unfold headersFinish
  rw [hdefault]
  generalize headersBody (headersDate t w.clock) = u at hfinal ⊢
  have hstring : strlen u.mem = 225 :=
    (congrArg List.length hfinal.string).trans (length_redirectText w.clock)
  refine ⟨?_, ?_, hfinal.memory⟩
  · rw [Response.pending]
    show List.take (strlen u.mem : Int).toNat u.mem = _
    rw [Int.toNat_natCast, strlen, take_length_cstr]
    exact hfinal.string
  · show ((strlen u.mem : Nat) : Int) = 225
    rw [hstring]
    rfl

/-! ## Sending it at once -/

/-- The answers of `altcp_sndbuf` and `altcp_write` take `n` bytes in one call. -/
def takesAll (n : Nat) : List Nat → List Bool → Bool
  | [], _ => n == 0
  | room :: rooms, oks =>
    n == 0 || (decide (0 < room) && oks.headD true && takesAll (n - room) rooms oks.tail)

/-- Everything that is pending in `s` is accepted. -/
structure AllSent (s : Sys) (r : Sys × Bool) : Prop where
  fine : r.2 = true
  left : r.1.c.bytesLeft = 0
  logged : ∃ l, r.1.c.log = s.c.log ++ l ∧ (∀ a ∈ l, a.isWrite = true) ∧
    writtenBytes l = s.c.toResponse.pending

theorem AllSent.nothing {s : Sys} (h : s.c.bytesLeft = 0) : AllSent s (s, true) where
  fine := rfl
  left := h
  logged := ⟨[], (List.append_nil _).symm, (fun _ h => absurd h List.not_mem_nil), by
    rw [Response.pending, h]
    rfl⟩

theorem sendLoop_allSent (fuel : Nat) {s : Sys} (hlive : s.c.pcb.isSome = true)
    (h0 : 0 ≤ s.c.bytesLeft) (hfit : s.c.bytesLeft ≤ s.c.mem.length)
    (hfuel : s.c.bytesLeft.toNat ≤ fuel)
    (htakes : takesAll s.c.bytesLeft.toNat s.net.sndbuf s.net.write = true) :
    AllSent s (sendLoop fuel s) := by
  induction fuel generalizing s with
  | zero => exact .nothing (by omega)
  | succ fuel ih =>
    rw [sendLoop]
    by_cases hleft : 0 < s.c.bytesLeft
    · rw [if_pos hleft]
      dsimp only
      have hsome : (s.c.bytesLeft.toNat == 0) = false := beq_false_of_ne (by omega)
      -- there is a next answer, it leaves room, and the write is accepted
      obtain ⟨room, rooms, hrooms⟩ : ∃ room rooms, s.net.sndbuf = room :: rooms := by
        cases hnet : s.net.sndbuf with
        | nil =>
          rw [hnet, takesAll, hsome] at htakes
          cases htakes
        | cons room rooms => exact ⟨room, rooms, rfl⟩
      rw [hrooms, takesAll, hsome, Bool.false_or, Bool.and_eq_true, Bool.and_eq_true,
        decide_eq_true_eq] at htakes
      obtain ⟨⟨hroom, hwrite⟩, hrest⟩ := htakes
      have hwindow : s.sndbuf = room := by
        have hpcb : s.c.pcb.isNone = false := by
          cases hc : s.c.pcb with
          | none =>
            rw [hc] at hlive
            cases hlive
          | some k => rfl
        rw [Sys.sndbuf, hpcb, hrooms]
        rfl
      have hok : s.afterSndbuf.writeOk = true := by
        show (s.c.pcb.isSome && s.net.write.headD true) = true
        rw [hlive, hwrite]
        rfl
      obtain ⟨n, hn⟩ : ∃ n, n = min s.c.bytesLeft.toNat room := ⟨_, rfl⟩
      rw [hwindow, if_neg (by omega), if_pos hok,
        show min s.afterSndbuf.c.bytesLeft.toNat room = n from hn.symm]
      have hmem : (afterWrite (s.afterSndbuf.altcpWrite (load s.c.mem 0 n)) n).c.mem.length
          = s.c.mem.length := by
        show (store (if _ then _ else _) _ _).length = _
        rw [length_store]
        split
        · exact length_store ..
        · rfl
      obtain ⟨hfine, hzero, l, hlog, hwrites, hbytes⟩ :=
        ih (s := afterWrite (s.afterSndbuf.altcpWrite (load s.c.mem 0 n)) n) hlive
          (show 0 ≤ s.c.bytesLeft - n by omega)
          (by rw [hmem]; exact show s.c.bytesLeft - n ≤ s.c.mem.length by omega)
          (show (s.c.bytesLeft - n).toNat ≤ fuel by omega)
          (by
            show takesAll (s.c.bytesLeft - n).toNat s.net.sndbuf.tail s.net.write.tail = true
            rw [hrooms, show (s.c.bytesLeft - n).toNat = s.c.bytesLeft.toNat - room by omega]
            exact hrest)
      refine ⟨hfine, hzero, .write (load s.c.mem 0 n) true :: l, ?_, ?_, ?_⟩
      · refine hlog.trans ?_
        show s.c.log ++ [.write _ s.afterSndbuf.writeOk] ++ l = _
        rw [hok, List.append_assoc]
        rfl
      · intro a ha
        rcases List.mem_cons.mp ha with rfl | h
        · rfl
        · exact hwrites a h
      · show load s.c.mem 0 n ++ writtenBytes l = _
        rw [hbytes]
        exact (afterWrite_pending (s := s.afterSndbuf.altcpWrite (load s.c.mem 0 n)) (n := n)
          (show (n : Int) ≤ s.c.bytesLeft by omega) (by omega) hfit).symm
    · rw [if_neg hleft]
      exact .nothing (by omega)

/-! ## The response to an upload that is turned away -/

/-- What the end of the header section of such an upload leaves, in front of the response. -/
structure Redirecting (s : Sys) : Prop where
  state : s.c.state = .sendingHeader
  result : s.c.result = codeRedirect
  path : s.c.responsePath = webDefaultPage
  handler : s.c.handler = some .upload
  sending : s.c.sending = false
  empty : s.c.bytesLeft = 0
  live : s.c.pcb.isSome = true
  memory : s.c.mem.length = memSize
  takes : takesAll 225 s.net.sndbuf s.net.write = true

/-- Entries that neither end the request, nor serve it, nor decide about it. -/
def Act.plain (a : Act) : Bool := !a.endsRequest && !a.serves && !a.denies

theorem plain_of_isWrite {a : Act} (h : a.isWrite = true) : a.plain = true := by
  cases a <;> first | rfl | cases h

/-- The redirect is built and sent. -/
theorem startResponse_redirect {s : Sys} (h : Redirecting s) :
    ∃ l, (startResponse s).c.log = s.c.log ++ l ∧ (∀ a ∈ l, a.plain = true) ∧
      writtenBytes l = redirectText s.w.clock ∧ (startResponse s).c.state = .sendingBody ∧
      (startResponse s).c.handler = some .upload ∧ (startResponse s).c.dwOperStage = 0 := by
  -- the upload adds no lines of its own
  have hset : ∀ codeInfo, cgiSetResponseHeaders (beginResponse s) codeInfo =
      ((beginResponse s).setResponse (headersFinish s.w
        (headersBegin { (beginResponse s).c.toResponse with peak := 0 }) codeInfo)).note
          (.headers (beginResponse s).c.toRequest { (beginResponse s).c.toResponse with peak := 0 }
            (headersFinish s.w
              (headersBegin { (beginResponse s).c.toResponse with peak := 0 }) codeInfo)) := by
    intro codeInfo
    have hcgi : ((beginResponse s).setResponse
        (headersBegin { (beginResponse s).c.toResponse with peak := 0 })).c.handler =
          some .upload := h.handler
    unfold cgiSetResponseHeaders Sys.invoke
    dsimp only
    rw [hcgi]
    rfl
  obtain ⟨hpending, hleft, hmem⟩ := headersFinish_redirect
    (r := { (beginResponse s).c.toResponse with peak := 0 }) s.w (codeInfoOf s.c.result) h.memory
    h.result h.path
  obtain ⟨left, _, _, _, _, _, hframe, -⟩ :=
    cgiSetResponseHeaders_frame (beginResponse s) (codeInfoOf s.c.result)
  have hresult := congrArg Response.result hframe
  have hstage := congrArg Response.dwOperStage hframe
  unfold startResponse
  rw [hset] at hresult hstage ⊢
  generalize headersFinish s.w _ _ = after at hpending hleft hmem hresult hstage ⊢
  generalize hu : ((beginResponse s).setResponse after).note _ = u at hresult hstage ⊢
  have hbytes : u.c.bytesLeft = 225 := by rw [← hu]; exact hleft
  have hsent : AllSent u (sendBuffered u) := by
    refine sendLoop_allSent _ ?_ ?_ ?_ (le_refl _) ?_
    · rw [← hu]
      exact h.live
    · omega
    · rw [hbytes, show u.c.mem.length = memSize by rw [← hu]; exact hmem]
      decide
    · rw [hbytes, ← hu]
      exact h.takes
  obtain ⟨_, _, _, _, _, _, heq, -⟩ := SendFrame.sendBuffered u
  obtain ⟨l, hlog, hwrites, hwritten⟩ := hsent.logged
  have hgoes : (if (sendBuffered u).2 = true then
      (let t := (sendBuffered u).1.setRequest { (sendBuffered u).1.c.toRequest with sending := true }
        if t.c.result = codeRedirect then t.setState .sendingBody else t.setState .sendingHeader)
      else sendFailed (sendBuffered u).1) =
        ((sendBuffered u).1.setRequest
          { (sendBuffered u).1.c.toRequest with sending := true }).setState .sendingBody := by
    rw [if_pos hsent.fine]
    refine if_pos ?_
    show (sendBuffered u).1.c.result = _
    rw [heq]
    exact hresult.trans h.result
  dsimp only at hgoes ⊢
  rw [hgoes]
  refine ⟨.headers (beginResponse s).c.toRequest
    { (beginResponse s).c.toResponse with peak := 0 } after :: l, ?_, ?_, ?_, rfl, ?_, ?_⟩
  · refine hlog.trans ?_
    rw [← hu]
    exact List.append_assoc ..
  · intro a ha
    rcases List.mem_cons.mp ha with rfl | h
    · rfl
    · exact plain_of_isWrite (hwrites a h)
  · show writtenBytes l = _
    rw [hwritten, ← hu]
    exact hpending
  · show (sendBuffered u).1.c.handler = _
    rw [heq, ← hu]
    exact h.handler
  · show (sendBuffered u).1.c.dwOperStage = _
    rw [heq]
    exact hstage

/-- Behind the redirect the body of the upload is asked for, which has none. -/
theorem sendBody_upload {s : Sys} (caller : Caller) (hcgi : s.c.handler = some .upload)
    (hstage : s.c.dwOperStage = 0) :
    ∃ a, (sendBody s caller).c.log = s.c.log ++ [a] ∧ a.plain = true ∧ a.isWrite = false ∧
      (sendBody s caller).c.state = .requestEnd ∧ (sendBody s caller).c.handler = some .upload := by
  have hload : loadContent (s.setResponse { s.c.toResponse with peak := 0 }) caller =
      (s.setResponse { s.c.toResponse with peak := 0 }, -1) := by
    have hcgi' : (s.setResponse { s.c.toResponse with peak := 0 }).c.handler = some .upload := hcgi
    have hfirst : ¬ stageEnd ≤ (s.setResponse { s.c.toResponse with peak := 0 }).c.dwOperStage := by
      show ¬ stageEnd ≤ s.c.dwOperStage
      rw [hstage]
      decide
    unfold loadContent
    rw [if_neg fun hc => hfirst hc.2.1, hcgi']
    rfl
  unfold sendBody cgiLoadContentToSend
  dsimp only
  rw [hload]
  refine ⟨.load s.w s.c.toRequest { s.c.toResponse with peak := 0 }
    { s.c.toResponse with peak := 0 } (-1), rfl, rfl, rfl, rfl, hcgi⟩

/-- The whole response to such an upload. -/
theorem httpResponseProc_redirect {s : Sys} (caller : Caller) (h : Redirecting s) :
    ∃ l, (httpResponseProc s caller).c.log = s.c.log ++ l ∧ (∀ a ∈ l, a.plain = true) ∧
      writtenBytes l = redirectText s.w.clock ∧ (httpResponseProc s caller).c.state = .requestEnd ∧
      (httpResponseProc s caller).c.handler = some .upload := by
  have hgoes : ¬(s.c.state.receiving = true ∨ s.c.result = 0) := by
    rw [h.state, h.result]
    decide
  have hempty := h.empty
  obtain ⟨l, hlog, hplain, hbytes, hstate, hcgi, hstage⟩ := startResponse_redirect h
  obtain ⟨a, hlog', hplain', hwrite, hstate', hcgi'⟩ := sendBody_upload caller hcgi hstage
  -- nothing was pending in front of the redirect, so the header is built at once
  have hnothing : ¬ 0 < s.c.bytesLeft := by omega
  have hproc : httpResponseProc s caller = sendBody (startResponse s) caller := by
    unfold httpResponseProc responseHeaderStep
    rw [if_neg hgoes, if_neg fun hc => hnothing hc.1, if_neg fun hc => hnothing hc.1]
    dsimp only
    rw [if_neg hnothing, if_pos h.sending, if_neg fun hc => ?_, if_pos hstate]
    rw [hstate] at hc
    cases hc.2
  rw [hproc]
  refine ⟨l ++ [a], by rw [hlog', hlog, List.append_assoc], fun b hb => ?_, ?_, hstate', hcgi'⟩
  · rcases List.mem_append.mp hb with hb | hb
    · exact hplain b hb
    · rw [List.mem_singleton.mp hb]
      exact hplain'
  · rw [writtenBytes_append, hbytes, writtenBytes_none (l := [a]), List.append_nil]
    intro b hb
    rw [List.mem_singleton.mp hb]
    exact hwrite

/-- The end of an upload calls nobody. -/
theorem requestEnd_upload {s : Sys} (hcgi : s.c.handler = some .upload) :
    ∃ e, (requestEnd s).c.log = s.c.log ++ [e] ∧ e.endsRequest = true ∧ e.denies = false := by
  have hclose : (closeHttpContext s).c.log = s.c.log ++ [.freed] := by
    have hdetached : (detachPcb s).c.handler = some .upload ∧ (detachPcb s).c.log = s.c.log := by
      unfold detachPcb
      split
      · exact ⟨hcgi, rfl⟩
      · dsimp only
        split
        · exact ⟨hcgi, rfl⟩
        · exact ⟨hcgi, rfl⟩
    unfold closeHttpContext freeHttpContext closeFileHandle cgiFinish Sys.invoke
    rw [hdetached.1]
    dsimp only [Cgi.onFinished]
    split
    · exact congrArg (· ++ [Act.freed]) hdetached.2
    · exact congrArg (· ++ [Act.freed]) hdetached.2
  unfold requestEnd
  split
  · exact ⟨.freed, hclose, rfl, rfl⟩
  · split
    · obtain ⟨_, _, heq, -⟩ := resetHttpContext_spec (s.note (.reset s.c.toRequest s.c.toResponse))
      exact ⟨.reset s.c.toRequest s.c.toResponse, by rw [heq]; rfl, rfl, rfl⟩
    · exact ⟨.freed, hclose, rfl, rfl⟩

/-- The rest of the call: the redirect, and the end of the request. -/
theorem requestFinish_redirect {s : Sys} (caller : Caller) (h : Redirecting s) :
    ∃ l e, (requestFinish s caller).c.log = s.c.log ++ (l ++ [e]) ∧ (∀ a ∈ l, a.plain = true) ∧
      writtenBytes l = redirectText s.w.clock ∧ e.endsRequest = true ∧ e.denies = false := by
  obtain ⟨l, hlog, hplain, hbytes, hstate, hcgi⟩ := httpResponseProc_redirect caller h
  obtain ⟨e, hlog', hends, hdenies⟩ := requestEnd_upload hcgi
  have hover : ¬ s.c.state.receiving = true := by
    rw [h.state]
    decide
  unfold requestFinish
  rw [if_neg hover]
  dsimp only
  rw [if_pos hstate]
  exact ⟨l, e, by rw [hlog', hlog, List.append_assoc], hplain, hbytes, hends, hdenies⟩

end Httpd

import LambdaIOT.Httpd.Forms
import LambdaIOT.Httpd.Outcomes
import LambdaIOT.Properties.Search
import LambdaIOT.Properties.Sessions

/-!
# What the callbacks do to the globals

All connections share the session table and the configuration. The callback of the login pages
may log somebody in or out, the callback behind a posted form puts the edited configuration in
force. Every other callback, and the parser of the header lines, leaves both alone: `Aside`.
-/

namespace Httpd

open CMem Lwip Relation

/-! ## Callbacks and the globals -/

/-- What a callback leaves alone that neither logs anybody in or out nor saves a form. It may
take the time of what it received. -/
structure Aside (c k : Call) : Prop where
  tick : k.w.tick = c.w.tick
  sessions : k.w.sessions = c.w.sessions
  config : k.w.dev.workConfig = c.w.dev.workConfig
  session : k.r.session = c.r.session
  received : k.r.tLastReceived = c.r.tLastReceived ∨ k.r.tLastReceived = tickOrOne c.w.tick

namespace Aside

theorem refl (c : Call) : Aside c c := ⟨rfl, rfl, rfl, rfl, .inl rfl⟩

theorem trans {c k l : Call} (h : Aside c k) (h' : Aside k l) : Aside c l where
  tick := h'.tick.trans h.tick
  sessions := h'.sessions.trans h.sessions
  config := h'.config.trans h.config
  session := h'.session.trans h.session
  received := by
    rcases h'.received with hsame | hnow
    · rw [hsame]
      exact h.received
    · rw [hnow, h.tick]
      exact .inr rfl

/-- Only the file table changes, and fields of the response that are not the concern here. -/
theorem files {c k : Call} (fs : FileSystem) (hw : k.w = { c.w with fs := fs })
    (hsession : k.r.session = c.r.session) (hreceived : k.r.tLastReceived = c.r.tLastReceived) :
    Aside c k := by
  constructor
  · rw [hw]
  · rw [hw]
  · rw [hw]
  · exact hsession
  · exact .inl hreceived

end Aside

theorem webCloseFile_aside (c : Call) : Aside c (webCloseFile c) := by
  unfold webCloseFile
  dsimp only
  split
  · split
    · exact .files _ rfl rfl rfl
    · exact .files _ rfl rfl rfl
  · exact .refl c

/-- Opening a page only changes the file table and the response. -/
theorem webRequestReceived_files (h : Request) (c : Call) :
    ∃ fs, (webRequestReceived h c).w = { c.w with fs := fs } ∧
      (webRequestReceived h c).r.session = c.r.session ∧
      (webRequestReceived h c).r.tLastReceived = c.r.tLastReceived := by
  have hopened : ∀ (k : Call) (x : SSIContext),
      ∃ fs, (webFileOpened h k x).w = { k.w with fs := fs } ∧
        (webFileOpened h k x).r.session = k.r.session ∧
        (webFileOpened h k x).r.tLastReceived = k.r.tLastReceived := by
    intro k x
    unfold webFileOpened
    split
    · exact ⟨k.w.fs, rfl, rfl, rfl⟩
    · dsimp only
      repeat' split
      all_goals exact ⟨_, rfl, rfl, rfl⟩
  have hdefault : ∀ r : Response, (defaultPath r).session = r.session ∧
      (defaultPath r).tLastReceived = r.tLastReceived := by
    intro r
    unfold defaultPath
    split <;> exact ⟨rfl, rfl⟩
  unfold webRequestReceived
  dsimp only
  split
  · obtain ⟨fs, hfs, hsession, hreceived⟩ := hopened _ _
    exact ⟨fs, hfs, hsession.trans (hdefault c.r).1, hreceived.trans (hdefault c.r).2⟩
  · exact ⟨c.w.fs, rfl, (hdefault c.r).1, (hdefault c.r).2⟩

theorem webRequestReceived_aside (h : Request) (c : Call) : Aside c (webRequestReceived h c) := by
  obtain ⟨fs, hfs, hsession, hreceived⟩ := webRequestReceived_files h c
  exact .files fs hfs hsession hreceived

theorem onHeaderReceived_w {cgi : Cgi} {f : Call → Bytes → Call}
    (hf : cgi.onHeaderReceived = some f) (c : Call) (line : Bytes) : (f c line).w = c.w := by
  cases cgi with
  | upload =>
    cases hf
    unfold uploadOnHeaderReceived
    split <;> rfl
  | ssdp => cases hf
  | auth => cases hf
  | form => cases hf
  | files => cases hf
  | webApp => cases hf

theorem onHeadersReceived_aside {cgi : Cgi} {f : Request → Call → Call}
    (hf : cgi.onHeadersReceived = some f) (h : Request) (c : Call) : Aside c (f h c) := by
  cases cgi with
  | ssdp => cases hf
  | auth =>
    cases hf
    exact .files _ rfl rfl rfl
  | form =>
    cases hf
    unfold formOnHeadersReceived webOnFormHeaders
    dsimp only
    split
    -- a page that is asked for starts the edited configuration anew
    · exact ⟨rfl, rfl, rfl, rfl, .inl rfl⟩
    · exact .files _ rfl rfl rfl
  | files => cases hf
  | upload =>
    cases hf
    unfold uploadOnHeadersReceived
    split
    · exact .files _ rfl rfl rfl
    · dsimp only
      split <;> exact .files _ rfl rfl rfl
    · exact .refl c
  | webApp => cases hf

/-- The setters write the configuration that is being edited. -/
theorem tagSetter_workConfig (d : Device) (name value : Bytes) :
    (tagSetter d name value).workConfig = d.workConfig := by
  unfold tagSetter
  split <;> rfl

theorem setTags_workConfig (d : Device) (calls : List (Bytes × Bytes)) :
    (setTags d calls).workConfig = d.workConfig := by
  induction calls generalizing d with
  | nil => rfl
  | cons call rest ih =>
    show (setTags (tagSetter d call.1 call.2) rest).workConfig = _
    rw [ih, tagSetter_workConfig]

/-- Posted bytes set tags of the edited configuration, and count as activity. -/
theorem formAccept_aside (h : Request) (c : Call) (buffer : Bytes) (consumed : Int) :
    Aside c (formAccept h c buffer consumed) := by
  have hconfig : (formAccept h c buffer consumed).w.dev.workConfig = c.w.dev.workConfig := by
    show (extractFormData c.w.dev _ _ _).1.workConfig = _
    rw [extractFormData_calls, setTags_workConfig]
  have hr : (formAccept h c buffer consumed).r.session = c.r.session ∧
      (formAccept h c buffer consumed).r.tLastReceived = tickOrOne c.w.tick := by
    unfold formAccept
    dsimp only
    split <;> exact ⟨rfl, rfl⟩
  exact ⟨rfl, rfl, hconfig, hr.1, .inr hr.2⟩

theorem onContentReceived_aside {cgi : Cgi} {f : Request → Call → Bytes → Int → Call × Int}
    (hf : cgi.onContentReceived = some f) (h : Request) (c : Call) (buffer : Bytes) (size : Int) :
    Aside c (f h c buffer size).1 := by
  cases cgi with
  | ssdp => cases hf
  | auth =>
    cases hf
    show Aside c (authOnPostData c buffer size).1
    unfold authOnPostData
    dsimp only
    split
    · split <;> exact .files _ rfl rfl rfl
    · exact .refl c
  | form =>
    cases hf
    unfold webOnFormReceived
    dsimp only
    split
    · split
      · exact .files _ rfl rfl rfl
      · split
        -- only content that is accepted sets tags
        · exact formAccept_aside ..
        · exact .refl c
    · exact .refl c
  | files => cases hf
  | upload =>
    cases hf
    show Aside c (uploadOnContentReceived h c size).1
    unfold uploadOnContentReceived
    dsimp only
    split
    · split
      · exact .files _ rfl rfl rfl
      · split
        -- only a block that is written counts as activity
        · exact ⟨rfl, rfl, rfl, rfl, .inr rfl⟩
        · exact .refl c
    · exact .refl c
  | webApp => cases hf

theorem setResponsePath_session (r : Response) (s : Bytes) :
    (r.setResponsePath s).session = r.session := rfl

theorem setResponsePath_tLastReceived (r : Response) (s : Bytes) :
    (r.setResponsePath s).tLastReceived = r.tLastReceived := rfl

theorem filesFilter_aside (r : Response) (argument : Option Bytes) :
    (filesFilter r argument).session = r.session ∧
      (filesFilter r argument).tLastReceived = r.tLastReceived := by
  unfold filesFilter
  cases argument with
  | none =>
    dsimp only
    simp only [setResponsePath_session, setResponsePath_tLastReceived, and_self]
  | some p =>
    dsimp only
    repeat' split
    all_goals simp only [setResponsePath_session, setResponsePath_tLastReceived, and_self]

theorem filesOnRequestReceived_aside (h : Request) (c : Call) :
    Aside c (filesOnRequestReceived h c) := by
  obtain ⟨hsession, hreceived⟩ :=
    filesFilter_aside (c.r.setSsi { SSIContext.zero with valid := 1 }) (filesPathArgument h)
  exact .files _ rfl hsession hreceived

theorem HeaderFrame.session {r r' : Response} (h : HeaderFrame r r') : r'.session = r.session := by
  obtain ⟨_, _, _, _, _, rfl, -⟩ := h
  rfl

theorem HeaderFrame.tLastReceived {r r' : Response} (h : HeaderFrame r r') :
    r'.tLastReceived = r.tLastReceived := by
  obtain ⟨_, _, _, _, _, rfl, -⟩ := h
  rfl

theorem webAppendHeaders_files (h : Request) (c : Call) (codeInfo : Bytes) :
    ∃ fs, (webAppendHeaders h c codeInfo).w = { c.w with fs := fs } := by
  show ∃ fs, (appendKind h c codeInfo).w = { c.w with fs := fs }
  unfold appendKind
  split
  · unfold appendRange
    dsimp only
    split
    · exact ⟨_, rfl⟩
    · exact ⟨c.w.fs, rfl⟩
  · exact ⟨c.w.fs, rfl⟩

/-- The callbacks write a header; a range moves the position in the file. -/
theorem setResponseHeaders_aside {cgi : Cgi} {f : Request → Call → Bytes → Call}
    (hf : cgi.setResponseHeaders = some f) (h : Request) (c : Call) (codeInfo : Bytes) :
    Aside c (f h c codeInfo) := by
  have hframe := setResponseHeaders_frame hf h c codeInfo
  have hfiles : ∃ fs, (f h c codeInfo).w = { c.w with fs := fs } := by
    cases cgi with
    | ssdp =>
      cases hf
      show ∃ fs, (ssdpSendHeader h c).w = { c.w with fs := fs }
      unfold ssdpSendHeader
      split <;> exact ⟨c.w.fs, rfl⟩
    | auth =>
      cases hf
      unfold authSetResponseHeaders
      dsimp only
      split
      · exact webAppendHeaders_files h { c with r := c.r.strcatSend (authTokenLines h c.r) } _
      · exact webAppendHeaders_files h c codeInfo
    | form =>
      cases hf
      exact webAppendHeaders_files h c codeInfo
    | files =>
      cases hf
      unfold filesSetResponseHeader
      split <;> exact ⟨c.w.fs, rfl⟩
    | upload => cases hf
    | webApp =>
      cases hf
      exact webAppendHeaders_files h c codeInfo
  obtain ⟨fs, hfs⟩ := hfiles
  exact .files fs hfs hframe.session hframe.tLastReceived

theorem filesLoop_files (maxSize : Int) (fuel : Nat) (c : Call) (fp : Nat) (out : Bytes) :
    ∃ fs, (filesLoop maxSize fuel c fp out).call.w = { c.w with fs := fs } ∧
      (filesLoop maxSize fuel c fp out).call.r.session = c.r.session ∧
      (filesLoop maxSize fuel c fp out).call.r.tLastReceived = c.r.tLastReceived := by
  have hnext : ∀ r : Response, r.nextStage.session = r.session ∧
      r.nextStage.tLastReceived = r.tLastReceived := fun r => ⟨rfl, rfl⟩
  induction fuel generalizing c fp out with
  | zero => exact ⟨c.w.fs, rfl, rfl, rfl⟩
  | succ fuel ih =>
    rw [filesLoop]
    split
    · dsimp only
      repeat' split
      -- a round either ends here, or goes on with other files
      all_goals first
        | exact ⟨_, rfl, hnext c.r⟩
        | (obtain ⟨fs, hfs, hsession, hreceived⟩ := ih _ _ _
           exact ⟨fs, hfs, hsession.trans (hnext c.r).1, hreceived.trans (hnext c.r).2⟩)
    · exact ⟨c.w.fs, rfl, rfl, rfl⟩

theorem webAdvance_aside (r : Response) (ssi cacheOffset : Int) :
    (webAdvance r ssi cacheOffset).session = r.session ∧
      (webAdvance r ssi cacheOffset).tLastReceived = r.tLastReceived := by
  unfold webAdvance Response.nextStage
  repeat' split
  all_goals exact ⟨rfl, rfl⟩

theorem webReadContent_aside (h : Request) (c : Call) (maxSize : Int) :
    Aside c (webReadContent h c maxSize).call := by
  unfold webReadContent
  split
  · exact .refl c
  · split
    · unfold webReadEnd
      dsimp only
      split
      · split <;> exact .files _ rfl rfl rfl
      · exact .files _ rfl rfl rfl
    · split
      · unfold webReadPlain
        dsimp only
        split
        · split
          · exact .files _ rfl (webAdvance_aside ..).1 (webAdvance_aside ..).2
          · exact .files _ rfl rfl rfl
        · split
          · exact .files _ rfl rfl rfl
          · exact .files _ rfl rfl rfl
          · exact .files _ rfl (webAdvance_aside ..).1 (webAdvance_aside ..).2
      · unfold webReadSsi
        dsimp only
        split
        · exact .files _ rfl rfl rfl
        · split
          · exact .files _ rfl rfl rfl
          · exact .files _ rfl (webAdvance_aside ..).1 (webAdvance_aside ..).2

theorem readContent_aside {cgi : Cgi} {f : Request → Call → Int → Content}
    (hf : cgi.readContent = some f) (h : Request) (c : Call) (maxSize : Int) :
    Aside c (f h c maxSize).call := by
  cases cgi with
  | ssdp =>
    cases hf
    unfold ssdpSending
    split
    · split
      · exact .refl c
      · exact .files _ rfl rfl rfl
    · exact .refl c
  | auth =>
    cases hf
    exact webReadContent_aside h c maxSize
  | form =>
    cases hf
    exact webReadContent_aside h c maxSize
  | files =>
    cases hf
    unfold filesReadOneFileInfo
    split
    · split
      · exact webCloseFile_aside c
      · obtain ⟨fs, hfs, hsession, hreceived⟩ :=
          filesLoop_files maxSize (fakeFiles.length + 1) c c.r.ssi.fp []
        exact .files fs hfs hsession hreceived
    · exact .refl c
  | upload => cases hf
  | webApp =>
    cases hf
    exact webReadContent_aside h c maxSize

theorem closing_aside {cgi : Cgi} {f : Call → Call}
    (hf : cgi.onAllSent = some f ∨ cgi.onFinished = some f) (c : Call) : Aside c (f c) := by
  have h : f = webCloseFile := by
    cases cgi <;> rcases hf with hf | hf <;> cases hf <;> rfl
  rw [h]
  exact webCloseFile_aside c

/-! ## Parsing -/

/-- The lines of a header section leave the globals alone, and these fields of the context. -/
structure ParseAside (s t : Sys) : Prop where
  globals : t.w = s.w
  address : t.c.ipRemote = s.c.ipRemote
  session : t.c.session = s.c.session
  received : t.c.tLastReceived = s.c.tLastReceived

theorem ParseAside.trans {s t u : Sys} (h : ParseAside s t) (h' : ParseAside t u) :
    ParseAside s u where
  globals := h'.globals.trans h.globals
  address := h'.address.trans h.address
  session := h'.session.trans h.session
  received := h'.received.trans h.received

/-- What a line may write is known already; that it leaves the globals alone is new. -/
theorem LineFrame.parseAside {s t : Sys} (h : LineFrame s t) (hw : t.w = s.w) : ParseAside s t := by
  obtain ⟨_, q, r, _, rfl, hreq, hresp, -⟩ := h
  have haddress := congrArg Request.ipRemote hreq
  have hsession := congrArg Response.session hresp
  have hreceived := congrArg Response.tLastReceived hresp
  exact ⟨hw, haddress, hsession, hreceived⟩

theorem headerLine_w (s : Sys) (tail : Bytes) (n : Nat) : (headerLine s tail n).w = s.w := by
  unfold headerLine
  dsimp only
  repeat' split
  all_goals try rfl
  unfold cgiHeaderReceived Sys.invoke
  split
  · rfl
  · split
    · rfl
    · rename_i g hg
      obtain ⟨f, hf, rfl⟩ := Option.map_eq_some_iff.mp hg
      exact onHeaderReceived_w hf _ tail

theorem cgiSetCgiHandler_w (s : Sys) : (cgiSetCgiHandler s).w = s.w := by
  unfold cgiSetCgiHandler
  dsimp only
  split <;> rfl

theorem requestLine_w (s : Sys) (tail : Bytes) (n : Nat) : (requestLine s tail n).w = s.w := by
  rw [requestLine]
  split
  · rfl
  · simp only [cgiSetCgiHandler_w, Sys.note, Sys.setResponse, Sys.setRequest]

theorem endOfHeaders_parseAside (s : Sys) : ParseAside s (endOfHeaders s) := by
  unfold endOfHeaders
  dsimp only
  split <;> exact ⟨rfl, rfl, rfl, rfl⟩

theorem parseHeader_parseAside (s : Sys) (size : Int) : ParseAside s (parseHeader s size).1 := by
  have hscan : ParseAside s (parseScan s size).s := by
    refine lineLoop_induct (P := ParseAside s) ?_ ?_ ?_ _ _ _ ⟨rfl, rfl, rfl, rfl⟩
    · intro t tail n _ ht
      exact ht.trans ((LineFrame.requestLine t tail n).parseAside (requestLine_w t tail n))
    · intro t tail n _ ht
      exact ht.trans ((LineFrame.headerLine t tail n).parseAside (headerLine_w t tail n))
    · intro t ht
      exact ht.trans (endOfHeaders_parseAside t)
  -- shifting the lines out only moves the buffer
  have hshift : ParseAside (parseScan s size).s (parseHeader s size).1 := by
    show ParseAside (parseScan s size).s
      { (parseScan s size).s with c := (parseScan s size).shift s.c.httpRequestBuffer }
    unfold LineScan.shift
    dsimp only
    repeat' split
    all_goals exact ⟨rfl, rfl, rfl, rfl⟩
  exact hscan.trans hshift

/-! ## Accounts -/

/-- Whom a session belongs to: the address it was created from, and its token. -/
structure Account where
  address : Nat
  token : Bytes

/-- There is a session of this account. -/
def World.Holds (w : World) (a : Account) : Prop :=
  ∃ x ∈ w.sessions, x.Live ∧ a = ⟨x.nLoginIP, x.token⟩

theorem holds_of_sessions {w w' : World} (h : w'.sessions = w.sessions) {a : Account}
    (ha : w'.Holds a) : w.Holds a := by
  obtain ⟨x, hx, hlive, heq⟩ := ha
  rw [h] at hx
  exact ⟨x, hx, hlive, heq⟩

/-- Touching a session keeps its account. -/
theorem holds_of_touch {w : World} {session : Option Nat} {f : Session → Session}
    (hf : ∀ x, (f x).token = x.token ∧ (f x).nLoginIP = x.nLoginIP) {a : Account}
    (h : World.Holds { w with sessions := sessionTouch w.sessions session f } a) : w.Holds a := by
  obtain ⟨x, hx, hlive, rfl⟩ := h
  cases session with
  | none => exact ⟨x, hx, hlive, rfl⟩
  | some i =>
    obtain ⟨j, hj⟩ := List.getElem?_of_mem hx
    obtain ⟨y, hy, hkept⟩ := sessionTouch_getElem? hj
    refine ⟨y, List.mem_of_getElem? hy, ?_⟩
    rcases hkept with ⟨rfl, -⟩ | ⟨-, hylive, rfl⟩
    · exact ⟨hlive, rfl⟩
    · exact ⟨hylive, by rw [(hf y).1, (hf y).2]⟩

/-- A logout only takes accounts away. -/
theorem holds_of_kill {w : World} {session : Option Nat} {a : Account}
    (h : World.Holds { w with sessions := sessionKill w.sessions session } a) : w.Holds a := by
  obtain ⟨x, hx, hlive, rfl⟩ := h
  cases session with
  | none => exact ⟨x, hx, hlive, rfl⟩
  | some i =>
    obtain ⟨j, hj⟩ := List.getElem?_of_mem hx
    exact ⟨x, List.mem_of_getElem? (sessionKill_getElem? hj hlive), hlive, rfl⟩

/-- So does `SessionCheck`. -/
theorem holds_of_check {w w' : World} {tick : Nat} {timeout : Int}
    (hw : w'.sessions = sessionCheck w.sessions tick timeout) {a : Account} (h : w'.Holds a) :
    w.Holds a := by
  obtain ⟨x, hx, hlive, rfl⟩ := h
  rw [hw] at hx
  obtain ⟨j, hj⟩ := List.getElem?_of_mem hx
  exact ⟨x, List.mem_of_getElem? (sessionCheck_live hj hlive).1, hlive, rfl⟩

/-- A new session has the address and the cookie of its login. -/
theorem holds_of_create {w : World} {tick remoteIP : Nat} {a : Account}
    (h : World.Holds { w with sessions := (sessionCreate w.sessions tick remoteIP).1 } a) :
    w.Holds a ∨ a = ⟨remoteIP, cookieOf tick⟩ := by
  obtain ⟨x, hx, hlive, rfl⟩ := h
  rcases sessionCreate_spec w.sessions tick remoteIP with ⟨i, s, -, -, heq⟩ | ⟨-, heq⟩
  · rw [heq] at hx
    rcases List.mem_or_eq_of_mem_set hx with hold | hnew
    · exact .inl ⟨x, hold, hlive, rfl⟩
    · rw [hnew]
      exact .inr rfl
  · rw [heq] at hx
    exact .inl ⟨x, hx, hlive, rfl⟩

/-! ## Records of the session table -/

/-- Touching a session is about one record. -/
theorem sessionTouch_other (ss : List Session) (session : Option Nat) (f : Session → Session)
    (j : Nat) : (sessionTouch ss session f)[j]? = ss[j]? ∨ session = some j := by
  unfold sessionTouch
  split
  · exact .inl rfl
  · rename_i i
    split
    · split
      · exact .inl rfl
      · by_cases hij : i = j
        · exact .inr (by rw [hij])
        · exact .inl (List.getElem?_set_ne hij)
    · exact .inl rfl

/-- So is a logout. -/
theorem sessionKill_other (ss : List Session) (session : Option Nat) (j : Nat) :
    (sessionKill ss session)[j]? = ss[j]? ∨ session = some j := by
  cases session with
  | none => exact .inl rfl
  | some i =>
    by_cases hij : i = j
    · exact .inr (by rw [hij])
    · exact .inl (List.getElem?_set_ne hij)

/-- A record that no session is in. -/
def Vacant (ss : List Session) (j : Nat) : Prop := ∃ x, ss[j]? = some x ∧ ¬x.Live

/-- A login changes the record that it points to, and no other. -/
theorem sessionCreate_other (ss : List Session) (tick remoteIP j : Nat) :
    (sessionCreate ss tick remoteIP).1[j]? = ss[j]? ∨ (sessionCreate ss tick remoteIP).2 = some j := by
  rcases sessionCreate_spec ss tick remoteIP with ⟨i, _, -, -, heq⟩ | ⟨-, heq⟩
  · rw [heq]
    by_cases hij : i = j
    · exact .inr (by rw [hij])
    · exact .inl (List.getElem?_set_ne hij)
  · rw [heq]
    exact .inl rfl

/-- That record was vacant, and holds the new session. -/
theorem sessionCreate_taken {ss : List Session} {tick remoteIP j : Nat}
    (h : (sessionCreate ss tick remoteIP).2 = some j) : Vacant ss j ∧
      (sessionCreate ss tick remoteIP).1[j]? = some ⟨cookieOf tick, remoteIP, tickOrOne tick, 0⟩ := by
  rcases sessionCreate_spec ss tick remoteIP with ⟨i, x, hx, hfree, heq⟩ | ⟨-, heq⟩
  · rw [heq] at h ⊢
    cases h
    exact ⟨⟨x, hx, hfree⟩, List.getElem?_set_self (List.getElem?_eq_some_iff.mp hx).1⟩
  · rw [heq] at h
    cases h

/-! ## Logins -/

/-- `AuthCheck` finds a user that it knows in the posted form, and a password, which it does
not look at. -/
structure Credentials (app : Bytes) : Prop where
  user : ∃ u, strstr app (ascii "username=") = some u ∧ checkUser (app.drop (u + 9)) = true
  password : (strstr app (ascii "password=")).isSome

/-- Cutting a string leaves a beginning of it. -/
theorem cstr_drop_cut (m : Bytes) (p k : Nat) :
    cstr ((store m p [0]).drop k) <+: cstr (m.drop k) := by
  induction m generalizing p k with
  | nil => simp [store, cstr]
  | cons b m ih =>
    cases p with
    | zero =>
      have hstore : store (b :: m) 0 [0] = 0 :: m := by simp [store]
      rw [hstore]
      cases k with
      | zero =>
        rw [List.drop_zero]
        exact List.nil_prefix
      | succ k => exact List.prefix_rfl
    | succ p =>
      have hstore : store (b :: m) (p + 1) [0] = b :: store m p [0] := by
        simp [store]
      rw [hstore]
      cases k with
      | zero =>
        have hrest := ih p 0
        rw [List.drop_zero, List.drop_zero] at hrest ⊢
        unfold cstr
        rw [List.takeWhile_cons, List.takeWhile_cons]
        split
        · exact List.cons_prefix_cons.mpr ⟨rfl, hrest⟩
        · exact List.prefix_rfl
      | succ k =>
        exact ih p k

theorem cstr_drop_cutAt (m : Bytes) (pos k : Nat) :
    cstr ((cutAt m pos).drop k) <+: cstr (m.drop k) := by
  unfold cutAt
  split
  · exact cstr_drop_cut ..
  · exact List.prefix_rfl

/-- What a beginning starts with, the whole starts with. -/
theorem hasPrefix_of_cstr {s t lit : Bytes} (hlit : NoNul lit) (hst : cstr s <+: cstr t)
    (h : hasPrefix s lit = true) : hasPrefix t lit = true := by
  rw [hasPrefix_iff_namesField hlit] at h ⊢
  obtain ⟨rest, hrest⟩ := hst
  have hlen : lit.length ≤ (cstr s).length := by
    have := congrArg List.length h
    rw [List.length_map, List.length_map, List.length_take] at this
    omega
  unfold NamesField at h ⊢
  rw [← hrest, List.take_append_of_le_length hlen]
  exact h

theorem checkUser_of_cstr {s t : Bytes} (hst : cstr s <+: cstr t) (h : checkUser s = true) :
    checkUser t = true := by
  unfold checkUser at h ⊢
  rw [Bool.or_eq_true] at h ⊢
  rcases h with h | h
  · exact .inl (hasPrefix_of_cstr (by decide) hst h)
  · exact .inr (hasPrefix_of_cstr (by decide) hst h)

/-- `AuthCheck` leaves the globals and the session of the context alone, or it found credentials
and creates a session. -/
theorem authCheck_world (h : Request) (c : Call) :
    (authCheck h c).1.w = c.w ∧ (authCheck h c).1.r.session = c.r.session ∨
    Credentials c.r.appContext ∧
      (authCheck h c).1.w =
        { c.w with sessions := (sessionCreate c.w.sessions c.w.tick h.ipRemote).1 } ∧
      (authCheck h c).1.r.session = (sessionCreate c.w.sessions c.w.tick h.ipRemote).2 := by
  unfold authCheck
  dsimp only
  split
  · split
    · rename_i u p hu hp
      split
      · rename_i huser
        -- both strings are cut at their `&` before the name is looked at
        have hcut := (cstr_drop_cutAt (cutAt c.r.appContext (u + 9)) (p + 9) (u + 9)).trans
          (cstr_drop_cutAt c.r.appContext (u + 9) (u + 9))
        have hknown : Credentials c.r.appContext :=
          ⟨⟨u, hu, checkUser_of_cstr hcut huser⟩, by rw [hp]; rfl⟩
        split
        · exact .inr ⟨hknown, rfl, rfl⟩
        · exact .inr ⟨hknown, rfl, rfl⟩
      · exact .inl ⟨rfl, rfl⟩
    · exact .inl ⟨rfl, rfl⟩
  · exact .inl ⟨rfl, rfl⟩

theorem authCheck_received (h : Request) (c : Call) :
    (authCheck h c).1.r.tLastReceived = c.r.tLastReceived := by
  unfold authCheck
  dsimp only
  repeat' split
  all_goals rfl

/-- What the callback of the login pages does with the sessions: it leaves them alone, it kills
the one of the context, or a login is accepted. -/
inductive AuthOutcome (h : Request) (c k : Call) : Prop where
  | aside (hw : k.w.sessions = c.w.sessions) (hsession : k.r.session = c.r.session)
  | logout (hw : k.w.sessions = sessionKill c.w.sessions c.r.session)
      (hsession : k.r.session = c.r.session)
  | login (hlogin : isLogin h = true) (hknown : Credentials c.r.appContext)
      (hw : k.w.sessions = (sessionCreate c.w.sessions c.w.tick h.ipRemote).1)
      (hsession : k.r.session = (sessionCreate c.w.sessions c.w.tick h.ipRemote).2)

theorem authOnRequestReceived_outcome (h : Request) (c : Call) :
    AuthOutcome h c (authOnRequestReceived h c) := by
  unfold authOnRequestReceived
  split
  · exact .aside rfl rfl
  · split
    · exact .logout rfl rfl
    · split
      · rename_i hlogin
        have hshown : (if (authCheck h c).2 then
              { (((authCheck h c).1.r.setSsi SSIContext.zero).setResponsePath webAppPage) with
                authorized := codeOk }
            else { (((authCheck h c).1.r.setSsi SSIContext.zero).setResponsePath webDefaultPage) with
                authorized := 0 }).session = (authCheck h c).1.r.session := by
          split <;> rfl
        rcases authCheck_world h c with ⟨hw, hsession⟩ | ⟨hknown, hw, hsession⟩
        · exact .aside (congrArg World.sessions hw) (hshown.trans hsession)
        · exact .login hlogin hknown (congrArg World.sessions hw) (hshown.trans hsession)
      · exact .aside (webRequestReceived_aside h c).sessions (webRequestReceived_aside h c).session

/-- The rest of the globals, and the time of what was received, stay. -/
theorem authOnRequestReceived_rest (h : Request) (c : Call) :
    (authOnRequestReceived h c).w.tick = c.w.tick ∧ (authOnRequestReceived h c).w.dev = c.w.dev ∧
      (authOnRequestReceived h c).r.tLastReceived = c.r.tLastReceived := by
  unfold authOnRequestReceived
  split
  · exact ⟨rfl, rfl, rfl⟩
  · split
    · exact ⟨rfl, rfl, rfl⟩
    · split
      · have hw : (authCheck h c).1.w.tick = c.w.tick ∧ (authCheck h c).1.w.dev = c.w.dev := by
          rcases authCheck_world h c with ⟨heq, -⟩ | ⟨-, heq, -⟩
          · rw [heq]
            exact ⟨rfl, rfl⟩
          · rw [heq]
            exact ⟨rfl, rfl⟩
        refine ⟨hw.1, hw.2, ?_⟩
        dsimp only
        split <;> exact authCheck_received h c
      · obtain ⟨fs, hfs, -, hreceived⟩ := webRequestReceived_files h c
        rw [hfs]
        exact ⟨rfl, rfl, hreceived⟩

/-- Who has an account behind the callback of the login pages had one before, or the login was
accepted. -/
theorem AuthOutcome.holds {h : Request} {c k : Call} (hk : AuthOutcome h c k) {a : Account}
    (ha : k.w.Holds a) : c.w.Holds a ∨ isLogin h = true ∧ Credentials c.r.appContext ∧
      a = ⟨h.ipRemote, cookieOf c.w.tick⟩ := by
  cases hk with
  | aside hw _ => exact .inl (holds_of_sessions hw ha)
  | logout hw _ =>
    have hkilled : World.Holds { c.w with sessions := sessionKill c.w.sessions c.r.session } a :=
      holds_of_sessions hw ha
    exact .inl (holds_of_kill hkilled)
  | login hlogin hknown hw _ =>
    have hcreated : World.Holds { c.w with
        sessions := (sessionCreate c.w.sessions c.w.tick h.ipRemote).1 } a :=
      holds_of_sessions hw ha
    rcases holds_of_create hcreated with hold | hnew
    · exact .inl hold
    · exact .inr ⟨hlogin, hknown, hnew⟩

end Httpd

import LambdaIOT.Lib.Provenance
import LambdaIOT.Httpd.Events
import LambdaIOT.Properties.Authorization
import LambdaIOT.Properties.Deeds
import LambdaIOT.Properties.Segmentation

/-!
# Where the rights come from

A session is a right: it belongs to the address that logged in, and the cookie names it. The
login pages hand these rights out, a verdict on a header section needs one, and the pages behind
it, the saved configuration among them, need the verdict. Between a login and what is done with
it lie any number of events on any connections, the expiry of other sessions, and requests that
come in pieces.

The argument is that of `Provenance`, made twice: for the deeds of one event, and for the events
of a run, whose one step is the first.
-/

namespace Httpd

open CMem Relation Provenance

/-! ## One event -/

/-- Accounts as the rights of the deeds of an event; the verdicts on header sections are the
uses. -/
def deedRights : Rights Sys Account (Request × Response) where
  step := Deed
  holds s a := s.w.Holds a
  used s q := .headersEnd q.1 q.2 true ∈ s.c.log
  issue := LogsIn
  permits := Permits

theorem deedRights_sound : deedRights.Sound where
  holds := fun hst ha => hst.2.holds _ ha
  used := by
    intro s t q hst hq
    rcases hst.2.verdict q.1 q.2 true hq with hold | ⟨-, hnew⟩
    · exact .inl hold
    · obtain ⟨a, hpermits, hheld⟩ := hnew rfl
      exact .inr ⟨a, hpermits, .inl hheld⟩

/-- The verdicts in the log are on requests of the address that the connection has. -/
def Addressed (c : RequestContext) : Prop :=
  ∀ h r found, .headersEnd h r found ∈ c.log → h.ipRemote = c.ipRemote

theorem deeds_address {s t : Sys} (h : Deeds s t) : t.c.ipRemote = s.c.ipRemote := by
  induction h with
  | refl => rfl
  | tail _ hlast ih => exact hlast.2.address.trans ih

theorem addressed_deeds {s t : Sys} (h : Deeds s t) (hs : Addressed s.c) : Addressed t.c := by
  induction h with
  | refl => exact hs
  | tail hsu hlast ih =>
    intro q r found hq
    rw [hlast.2.address]
    rcases hlast.2.verdict q r found hq with hold | ⟨hnew, -⟩
    · exact ih q r found hold
    · exact hnew

theorem Server.Reachable.addressed {sv : Server} (h : sv.Reachable) :
    ∀ c ∈ sv.slots, Addressed c := by
  refine h.byEvents ?_ ?_ ?_
  · exact fun _ _ _ hq => absurd hq List.not_mem_nil
  · intro s pcb ip _ _
    obtain ⟨_, _, _, heq⟩ := acceptContext_spec s pcb ip
    rw [heq]
    exact fun _ _ _ hq => absurd hq List.not_mem_nil
  · intro s e _ _ _ hs hlegal
    exact addressed_deeds (connStep_deeds hlegal) hs

theorem deeds_micros {s t : Sys} (h : Deeds s t) : Micros s t := by
  induction h with
  | refl => exact .refl
  | tail _ hlast ih => exact ih.tail hlast.1

/-- The log of the current request is a part of the log. -/
theorem mem_of_current {calls : List Act} {a : Act} (h : a ∈ current calls) : a ∈ calls := by
  induction calls using List.reverseRecOn with
  | nil => exact absurd h List.not_mem_nil
  | append_singleton calls b ih =>
    rw [current_append_one] at h
    -- a reset ends the log of a request
    split at h
    · exact absurd h List.not_mem_nil
    · rcases List.mem_append.mp h with hold | hnew
      · exact List.mem_append_left _ (ih hold)
      · exact List.mem_append_right _ hnew

/-- A changed configuration was saved on the way. -/
theorem deeds_config {s t : Sys} (h : Deeds s t) :
    t.w.dev.workConfig = s.w.dev.workConfig ∨ ∃ u v, Deeds s u ∧ Deed u v ∧ Saves u v ∧ Deeds v t := by
  induction h with
  | refl => exact .inl rfl
  | tail hsu hlast ih =>
    rcases ih with hsame | ⟨u, v, hsu', huv, hsaves, hvt⟩
    · rcases hlast.2.config with hkept | hsaves
      · exact .inl (hkept.trans hsame)
      · exact .inr ⟨_, _, hsu, hlast, hsaves, .refl⟩
    · exact .inr ⟨u, v, hsu', huv, hsaves, hvt.tail hlast⟩

/-- A posted configuration is saved only for a request that was found logged in. -/
theorem Saves.found {s t : Sys} (h : Saves s t) (hreach : SlotReach s.c) :
    ∃ q r, .headersEnd q r true ∈ current s.c.log ∧ q.handler = some .form := by
  obtain ⟨a, ha, hlets⟩ := hreach.gated.entered (by rw [h.done]; rfl) h.fine .form h.handler
  cases a with
  | headersEnd q r found =>
    rcases hlets.2 with hfound | ⟨hopen, -⟩
    · rw [hfound] at ha
      exact ⟨q, r, ha, hlets.1⟩
    · cases hopen
  | _ => cases hlets

/-- Saving a configuration is the callback behind the posted form. -/
theorem Saves.logged {s t : Sys} (h : Saves s t) :
    t.c.log = s.c.log ++ [.callback .form .onRequestReceived] := by
  have hreceived : (cgiRequestReceived s).c.log =
      s.c.log ++ [.callback .form .onRequestReceived] := by
    rw [InnerDeed.cgiRequestReceived_some h.handler rfl]
    rfl
  rw [h.answered]
  unfold completeRequest
  dsimp only
  split
  · exact hreceived
  · exact hreceived

/-- An entry that is logged within an event is logged by one of its deeds. -/
theorem deeds_split {s t : Sys} (h : Deeds s t) {n : Nat} (hs : s.c.log.length ≤ n)
    (ht : n < t.c.log.length) :
    ∃ u v, Deeds s u ∧ Deed u v ∧ Deeds v t ∧ u.c.log.length ≤ n ∧ n < v.c.log.length := by
  induction h with
  | refl => exact absurd ht (by omega)
  | @tail u v hsu huv ih =>
    by_cases hu : n < u.c.log.length
    · obtain ⟨x, y, hsx, hxy, hyu, hx, hy⟩ := ih hu
      exact ⟨x, y, hsx, hxy, hyu.tail huv, hx, hy⟩
    · exact ⟨u, v, hsu, huv, .refl, Nat.le_of_not_lt hu, ht⟩

theorem deeds_log {s t : Sys} (h : Deeds s t) : s.c.log <+: t.c.log := by
  obtain ⟨l, hl⟩ := micros_logExtends (deeds_micros h)
  exact ⟨l, hl.symm⟩

/-- A verdict that is logged within an event needs an account, held when it falls. -/
theorem verdict_granted {s u v : Sys} (hsu : Deeds s u) (huv : Deed u v) {h : Request}
    {r : Response} (hq : .headersEnd h r true ∈ v.c.log) :
    .headersEnd h r true ∈ s.c.log ∨ ∃ a, Permits a (h, r) ∧ deedRights.Granted s u a := by
  rcases huv.2.verdict h r true hq with hold | ⟨-, hnew⟩
  · exact deedRights_sound.used_run hsu (h, r) hold
  · obtain ⟨a, hpermits, hheld⟩ := hnew rfl
    exact .inr ⟨a, hpermits, deedRights_sound.holds_run hsu a hheld⟩

/-! ## The server -/

/-- One event of the server. -/
def Server.Step (sv sv' : Server) : Prop := ∃ a e, e.Legal sv ∧ sv' = sv.step a e

/-- In the step from `sv` to `sv'` a login is accepted, and account `a` gets a session. -/
def Server.LogsIn (sv sv' : Server) (a : Account) : Prop :=
  ∃ (i : Nat) (s t : Sys), sv.slots[i]? = some s.c ∧ s.w = sv.w ∧
    sv'.slots[i]? = some t.c ∧ t.w = sv'.w ∧ deedRights.Issued s t a

/-- The step from `sv` to `sv'` is an event of context `i`, from `s` to `t` by way of `u`. -/
structure Server.Through (sv sv' : Server) (i : Nat) (s u t : Sys) : Prop where
  before : sv.slots[i]? = some s.c
  globals : s.w = sv.w
  reaches : Deeds s u
  rest : Deeds u t
  after : sv'.slots[i]? = some t.c
  globals' : t.w = sv'.w

/-- Accounts as the rights of the events of the server. -/
def serverRights : Rights Server Account (Request × Response) where
  step := fun sv sv' => sv.Reachable ∧ Server.Step sv sv'
  holds sv a := sv.w.Holds a
  used sv q := ∃ c ∈ sv.slots, .headersEnd q.1 q.2 true ∈ c.log
  issue := Server.LogsIn
  permits := Permits

/-- A run from the start to `sv` has issued account `a`, or the step from there to `sv'` does on
context `i`, before the log of the context is longer than `l`. -/
def Server.IssuedBefore (w : World) (sv sv' : Server) (i : Nat) (l : List Act) (a : Account) : Prop :=
  serverRights.Issued (.boot w) sv a ∨
    ∃ s u t, Server.Through sv sv' i s u t ∧ u.c.log <+: l ∧ deedRights.Issued s u a

/-- A fresh connection has the sessions that there are, and no verdicts. -/
theorem acceptContext_fresh (s : Sys) (pcb ip : Nat) :
    (acceptContext s pcb ip).w.sessions = s.w.sessions ∧
      (acceptContext s pcb ip).w.dev = s.w.dev ∧ (acceptContext s pcb ip).c.log = [] := by
  obtain ⟨_, _, _, heq⟩ := acceptContext_spec s pcb ip
  refine ⟨?_, ?_, ?_⟩
  · unfold acceptContext resetHttpContext closeFileHandle
    dsimp only
    split <;> rfl
  · unfold acceptContext resetHttpContext closeFileHandle
    dsimp only
    split <;> rfl
  · rw [heq]

theorem slot_set {slots slots' : List RequestContext} {i : Nat} {c d : RequestContext}
    (h : slots[i]? = some c) (hset : slots' = slots.set i d) : slots'[i]? = some d := by
  rw [hset, List.getElem?_set_self (List.getElem?_eq_some_iff.mp h).1]

/-- What is granted within an event is held in front of it, or issued by it. -/
theorem granted_event {sv sv' : Server} {i : Nat} {s t : Sys} (hslot : sv.slots[i]? = some s.c)
    (hw : s.w = sv.w) (hslot' : sv'.slots[i]? = some t.c) (hw' : t.w = sv'.w) {a : Account}
    (h : deedRights.Granted s t a) : sv.w.Holds a ∨ Server.LogsIn sv sv' a := by
  rcases h with hheld | hissued
  · have hs : s.w.Holds a := hheld
    rw [hw] at hs
    exact .inl hs
  · exact .inr ⟨i, s, t, hslot, hw, hslot', hw', hissued⟩

theorem serverRights_sound : serverRights.Sound where
  holds := by
    rintro sv sv' a ⟨hreach, b, e, hlegal, rfl⟩ ha
    cases Server.step_kind hreach.inv b hlegal with
    | idle _ htime _ _ _ =>
      rcases htime with ⟨hsame, -⟩ | ⟨tick, clock, -, -, hcheck⟩
      · exact .inl (holds_of_sessions hsame ha)
      -- the timer only clears sessions
      · exact .inl (holds_of_check hcheck ha)
    | accept pcb ip _ hw _ _ _ hw' _ _ =>
      refine .inl (holds_of_sessions ?_ ha)
      rw [hw', (acceptContext_fresh _ pcb ip).1, hw]
    | event f hslot hw _ _ _ _ hlegal' hslots hw' _ _ _ =>
      refine granted_event hslot hw (slot_set hslot hslots) hw'.symm
        (deedRights_sound.holds_run (connStep_deeds hlegal') a ?_)
      show (connStep _ f).w.Holds a
      rw [← hw']
      exact ha
  used := by
    rintro sv sv' q ⟨hreach, b, e, hlegal, rfl⟩ ⟨c, hc, hq⟩
    cases Server.step_kind hreach.inv b hlegal with
    | idle hslots _ _ _ _ =>
      rw [hslots] at hc
      exact .inl ⟨c, hc, hq⟩
    | accept pcb ip _ _ _ _ hslots _ _ _ =>
      rw [hslots] at hc
      rcases List.mem_or_eq_of_mem_set hc with hold | hnew
      · exact .inl ⟨c, hold, hq⟩
      · rw [hnew, (acceptContext_fresh _ pcb ip).2.2] at hq
        exact absurd hq List.not_mem_nil
    | event f hslot hw _ _ _ _ hlegal' hslots hw' _ _ _ =>
      rw [hslots] at hc
      rcases List.mem_or_eq_of_mem_set hc with hold | hnew
      · exact .inl ⟨c, hold, hq⟩
      -- within the event the argument is the same one, over its deeds
      · rw [hnew] at hq
        rcases deedRights_sound.used_run (connStep_deeds hlegal') q hq with
          hbefore | ⟨a, hpermits, hgranted⟩
        · exact .inl ⟨_, List.mem_of_getElem? hslot, hbefore⟩
        · exact .inr ⟨a, hpermits, granted_event hslot hw (slot_set hslot hslots) hw'.symm hgranted⟩

/-! ## Runs -/

theorem reachable_later {sv sv' : Server} (h : sv.Reachable) (hrun : ReflTransGen Server.Step sv sv') :
    sv'.Reachable := by
  induction hrun with
  | refl => exact h
  | tail _ hlast ih =>
    obtain ⟨b, e, hlegal, rfl⟩ := hlast
    exact ih.step b e hlegal

/-- A run consists of steps between reachable states. -/
theorem serverRights_run {sv sv' : Server} (h : sv.Reachable)
    (hrun : ReflTransGen Server.Step sv sv') : ReflTransGen serverRights.step sv sv' := by
  induction hrun with
  | refl => exact .refl
  | tail hbefore hlast ih => exact ih.tail ⟨reachable_later h hbefore, hlast⟩

/-- The events of a list are a run. -/
theorem Server.steps_run {sv : Server} {es : List (Answers × Event)} (hlegal : sv.RunLegal es) :
    ReflTransGen Server.Step sv (sv.run es) := by
  induction es generalizing sv with
  | nil => exact .refl
  | cons e es ih => exact .head ⟨e.1, e.2, hlegal.1, rfl⟩ (ih hlegal.2)

section

variable {w : World} (hfree : ∀ x ∈ w.sessions, ¬x.Live) {sv : Server}
  (hrun : ReflTransGen Server.Step (.boot w) sv)

include hfree

/-- Nobody holds anything at the beginning. -/
theorem issued_of_granted {a : Account} (h : serverRights.Granted (.boot w) sv a) :
    serverRights.Issued (.boot w) sv a := by
  rcases h with ⟨x, hx, hlive, -⟩ | h
  · exact absurd hlive (hfree x hx)
  · exact h

include hrun

/-- **Whoever has a session logged in.** In every run that starts without sessions, a live
session was created by a login earlier in the run: a POST of the login page, from the address
that the session has, whose form named a known user, and whose tick the token shows. -/
theorem sessions_by_login {x : Session} (hx : x ∈ sv.w.sessions) (hlive : x.Live) :
    serverRights.Issued (.boot w) sv ⟨x.nLoginIP, x.token⟩ :=
  issued_of_granted hfree (serverRights_sound.holds_run
    (serverRights_run (.boot w) hrun) _ ⟨x, hx, hlive, rfl⟩)

/-- Who was found logged in has an account that was issued before. -/
theorem verdict_issued {c : RequestContext} (hc : c ∈ sv.slots) {h : Request} {r : Response}
    (hq : .headersEnd h r true ∈ c.log) :
    ∃ a, a.address = c.ipRemote ∧ (strstr r.token a.token).isSome ∧
      serverRights.Issued (.boot w) sv a := by
  have hreach := reachable_later (.boot w) hrun
  rcases serverRights_sound.used_run (serverRights_run (.boot w) hrun) (h, r) ⟨c, hc, hq⟩ with
    ⟨d, hd, hlog⟩ | ⟨a, ⟨haddr, hname⟩, hgranted⟩
  · rw [List.eq_of_mem_replicate hd] at hlog
    exact absurd hlog List.not_mem_nil
  · refine ⟨a, ?_, hname, issued_of_granted hfree hgranted⟩
    rw [← hreach.addressed c hc h r true hq]
    exact haddr.symm

/-- What is granted within an event, before the log is longer than `l`, was issued before. -/
theorem issuedBefore_of_granted {sv' : Server} {i : Nat} {s u t : Sys}
    (hthrough : Server.Through sv sv' i s u t) {l : List Act} (hl : u.c.log <+: l) {a : Account}
    (h : deedRights.Granted s u a) : Server.IssuedBefore w sv sv' i l a := by
  rcases h with hheld | hissued
  · have hheld' : sv.w.Holds a := by
      rw [← hthrough.globals]
      exact hheld
    exact .inl (issued_of_granted hfree
      (serverRights_sound.holds_run (serverRights_run (.boot w) hrun) a hheld'))
  · exact .inr ⟨s, u, t, hthrough, hl, hissued⟩

/-- Within an event, whoever is found logged in has an account that was issued before. -/
theorem verdict_issuedBefore {b : Answers} {e : Event} (hlegal : e.Legal sv) {i : Nat}
    {s u t : Sys} (hthrough : Server.Through sv (sv.step b e) i s u t) {l : List Act}
    (hl : u.c.log <+: l) {h : Request} {r : Response}
    (hq : .headersEnd h r true ∈ s.c.log ∨ ∃ a, Permits a (h, r) ∧ deedRights.Granted s u a)
    (hlog : .headersEnd h r true ∈ t.c.log) :
    ∃ a, a.address = s.c.ipRemote ∧ (strstr r.token a.token).isSome ∧
      Server.IssuedBefore w sv (sv.step b e) i l a := by
  rcases hq with hbefore | ⟨a, ⟨haddr, hname⟩, hgranted⟩
  · obtain ⟨a, haddr, hname, hissued⟩ :=
      verdict_issued hfree hrun (List.mem_of_getElem? hthrough.before) hbefore
    exact ⟨a, haddr, hname, .inl hissued⟩
  · refine ⟨a, ?_, hname, issuedBefore_of_granted hfree hrun hthrough hl hgranted⟩
    -- the verdict was on a request of the address of the connection
    have haddressed := ((reachable_later (.boot w) hrun).step b e hlegal).addressed t.c
      (List.mem_of_getElem? hthrough.after) h r true hlog
    rw [deeds_address (hthrough.reaches.trans hthrough.rest)] at haddressed
    exact haddr.symm.trans haddressed

/-- **The pages behind the login are used by those who logged in.** In every run that starts
without sessions, an event that logs an acting callback of the form, the file list or the upload
logs it for a request that was found logged in: its cookie holds the token of an account of the
address of the connection, and the account was issued before, by a login earlier in the run or
earlier in the event. -/
theorem callbacks_by_login {b : Answers} {e : Event} (hlegal : e.Legal sv) {i : Nat}
    {c d : RequestContext} (hc : sv.slots[i]? = some c) (hd : (sv.step b e).slots[i]? = some d)
    {l₁ l₂ : List Act} {cgi : Cgi} {cb : Callback} (hlog : d.log = l₁ ++ .callback cgi cb :: l₂)
    (hnew : c.log.length ≤ l₁.length) (hacts : cb.acts = true) (hclosed : cgi.closed = true) :
    ∃ a h r, .headersEnd h r true ∈ current l₁ ∧ h.handler = some cgi ∧
      a.address = c.ipRemote ∧ (strstr r.token a.token).isSome ∧
      Server.IssuedBefore w sv (sv.step b e) i l₁ a := by
  have hreach := reachable_later (.boot w) hrun
  have hacted := callbacks_let_in (hreach.step b e hlegal) (List.mem_of_getElem? hd)
  -- the verdict that let the request in
  obtain ⟨h, r, hverdict, hhandler⟩ :
      ∃ h r, .headersEnd h r true ∈ current l₁ ∧ h.handler = some cgi := by
    obtain ⟨x, hx, hlets⟩ := hacted l₁ cgi cb l₂ hlog hacts
    cases x with
    | headersEnd h r found =>
      rcases hlets.2 with hfound | ⟨hopen, -⟩
      · rw [hfound] at hx
        exact ⟨h, r, hx, hlets.1⟩
      · rw [hclosed] at hopen
        cases hopen
    | _ => cases hlets
  have hkept : d ≠ c := by
    rintro rfl
    rw [hlog, List.length_append, List.length_cons] at hnew
    omega
  have hset : ∀ {k : Nat} {x : RequestContext}, (sv.step b e).slots = sv.slots.set k x →
      i = k ∧ d = x := by
    intro k x hslots
    rcases slot_of_set hslots hd with ⟨-, hold⟩ | hnow
    · exact absurd (Option.some.inj (hold.symm.trans hc)) hkept
    · exact hnow
  cases Server.step_kind hreach.inv b hlegal with
  | idle hslots _ _ _ _ =>
    rw [hslots] at hd
    exact absurd (Option.some.inj (hd.symm.trans hc)) hkept
  | accept pcb ip _ _ _ _ hslots _ _ _ =>
    rw [(hset hslots).2, (acceptContext_fresh _ pcb ip).2.2] at hlog
    cases l₁ <;> cases hlog
  | @event j s f hslot hw _ _ _ _ hlegal' hslots hw' _ _ _ =>
    obtain ⟨rfl, rfl⟩ := hset hslots
    cases hslot.symm.trans hc
    have hdeeds := connStep_deeds hlegal'
    -- the deed that logs the callback
    have hin : l₁.length < (connStep s f).c.log.length := by
      rw [hlog, List.length_append]
      exact Nat.lt_add_of_pos_right (Nat.succ_pos _)
    obtain ⟨u, v, hsu, huv, hvt, hu, hv⟩ := deeds_split hdeeds hnew hin
    have hbehind : l₁ <+: (connStep s f).c.log := by
      rw [hlog]
      exact List.prefix_append ..
    have hl := List.prefix_of_prefix_length_le (deeds_log (hvt.head huv)) hbehind hu
    have hentry : .headersEnd h r true ∈ v.c.log :=
      (List.prefix_of_prefix_length_le hbehind (deeds_log hvt) hv.le).subset
        (mem_of_current hverdict)
    obtain ⟨a, haddr, hname, hissued⟩ := verdict_issuedBefore hfree hrun hlegal
      ⟨hslot, hw, hsu, hvt.head huv, hd, hw'.symm⟩ hl (verdict_granted hsu huv hentry)
      ((deeds_log hvt).subset hentry)
    exact ⟨a, h, r, hverdict, hhandler, haddr, hname, hissued⟩

/-- **The configuration is changed by those who logged in.** In every run that starts without
sessions, an event that is no change of the device itself and after which the configuration in
force is another one is an event of an open connection, and within it a posted form is saved: the
callback behind the form is logged for a POST that was found logged in, its cookie holds the token
of an account of the address of the connection, and the account was issued before. -/
theorem configuration_by_login {b : Answers} {e : Event} (hlegal : e.Legal sv)
    (hevent : ∀ dev listening443, e ≠ .device dev listening443)
    (hchange : (sv.step b e).w.dev.workConfig ≠ sv.w.dev.workConfig) :
    ∃ (i : Nat) (s u v t : Sys) (a : Account) (h : Request) (r : Response),
      Server.Through sv (sv.step b e) i s u t ∧ s.c.pcb.isSome ∧ e.pcb = s.c.pcb ∧
      Saves u v ∧ v.c.log = u.c.log ++ [.callback .form .onRequestReceived] ∧ Deeds v t ∧
      .headersEnd h r true ∈ current u.c.log ∧ h.handler = some .form ∧
      a.address = s.c.ipRemote ∧ (strstr r.token a.token).isSome ∧
      Server.IssuedBefore w sv (sv.step b e) i u.c.log a := by
  have hreach := reachable_later (.boot w) hrun
  cases Server.step_kind hreach.inv b hlegal with
  | idle _ _ hdev _ _ =>
    rcases hdev with hsame | ⟨dev, listening443, he⟩
    · exact absurd (by rw [hsame]) hchange
    · exact absurd he (hevent dev listening443)
  | accept pcb ip _ hw _ _ _ hw' _ _ =>
    refine absurd ?_ hchange
    rw [hw', (acceptContext_fresh _ pcb ip).2.1, hw]
  | @event i s f hslot hw hslotreach _ hpcb hown hlegal' hslots hw' _ _ _ =>
    rcases deeds_config (connStep_deeds hlegal') with hsame | ⟨u, v, hsu, huv, hsaves, hvt⟩
    · refine absurd ?_ hchange
      rw [hw', hsame, hw]
    · obtain ⟨h, r, hfound, hform⟩ := hsaves.found (hslotreach.micros (deeds_micros hsu))
      have hut := hvt.head huv
      have hthrough : Server.Through sv (sv.step b e) i s u (connStep s f) :=
        ⟨hslot, hw, hsu, hut, slot_set hslot hslots, hw'.symm⟩
      have hin := mem_of_current hfound
      obtain ⟨a, haddr, hname, hissued⟩ := verdict_issuedBefore hfree hrun hlegal hthrough
        (List.prefix_refl _) (deedRights_sound.used_run hsu (h, r) hin)
        ((deeds_log hut).subset hin)
      exact ⟨i, s, u, v, connStep s f, a, h, r, hthrough, hpcb, hown, hsaves, hsaves.logged, hvt,
        hfound, hform, haddr, hname, hissued⟩

end

/-! ## A login and a posted form -/

/-- Two connections from one address, and a login on the first of them. -/
def loginFirst : List (Answers × Event) :=
  [(openNet, .accept 7), (openNet, .accept 7),
   (openNet, receiveText 0
     "POST /auth/login.html HTTP/1.1\r\nContent-Length: 26\r\n\r\nusername=user&password=abc")]

/-- A form on the second one, with the cookie of the login. -/
def formSecond : Event :=
  receiveText 1 ("POST /app/form.shtml HTTP/1.1\r\nCookie: SID=000003E8\r\n" ++
    "Content-Length: 9\r\n\r\nVAR_LOG=1")

theorem plainWorld_free : ∀ x ∈ plainWorld.sessions, ¬x.Live := by decide

theorem loginFirst_outcome : (Server.boot plainWorld).RunLegal loginFirst ∧
    (⟨ascii "SID=000003E8", 7, 1000, 0⟩ : Session) ∈
      ((Server.boot plainWorld).run loginFirst).w.sessions ∧
    ((Server.boot plainWorld).run loginFirst).w.dev.workConfig.nLog = 0 := by
  decide +kernel

theorem loginFirst_run :
    ReflTransGen Server.Step (.boot plainWorld) ((Server.boot plainWorld).run loginFirst) :=
  Server.steps_run loginFirst_outcome.1

theorem sessions_by_login_user :
    serverRights.Issued (.boot plainWorld) ((Server.boot plainWorld).run loginFirst)
      ⟨7, ascii "SID=000003E8"⟩ :=
  sessions_by_login plainWorld_free loginFirst_run loginFirst_outcome.2.1 (by decide)

theorem callback_of_acting {log : List Act} {cgi : Cgi} (h : cgi ∈ log.filterMap actingHandler) :
    ∃ cb, .callback cgi cb ∈ log ∧ cb.acts = true := by
  obtain ⟨a, ha, hcgi⟩ := List.mem_filterMap.mp h
  cases a with
  | callback cgi' cb =>
    have hif : (if cb.acts = true then some cgi' else none) = some cgi := hcgi
    obtain ⟨hacts, hsame⟩ := Option.ite_none_right_eq_some.mp hif
    rw [← Option.some.inj hsame]
    exact ⟨cb, ha, hacts⟩
  | _ => cases hcgi

/-- The form comes in where the login has left the server. -/
theorem formSecond_outcome : formSecond.Legal ((Server.boot plainWorld).run loginFirst) ∧
    1 < ((Server.boot plainWorld).run loginFirst).slots.length ∧
    (((Server.boot plainWorld).run loginFirst).slot 1).log = [] ∧
    (((Server.boot plainWorld).run loginFirst).slot 1).ipRemote = 7 ∧
    1 < (((Server.boot plainWorld).run loginFirst).step openNet formSecond).slots.length ∧
    .form ∈ ((((Server.boot plainWorld).run loginFirst).step openNet formSecond).slot 1).log.filterMap
      actingHandler ∧
    (((Server.boot plainWorld).run loginFirst).step openNet formSecond).w.dev.workConfig.nLog
      = 1 := by
  decide +kernel

/-- The form acts for the cookie of the login. -/
theorem callbacks_by_login_form :
    let sv := (Server.boot plainWorld).run loginFirst
    ∃ a h r l, l <+: ((sv.step openNet formSecond).slot 1).log ∧
      .headersEnd h r true ∈ current l ∧ h.handler = some .form ∧ a.address = 7 ∧
      Server.IssuedBefore plainWorld sv (sv.step openNet formSecond) 1 l a := by
  obtain ⟨hlegal, hopen, hempty, haddress, hlength, hacting, -⟩ := formSecond_outcome
  obtain ⟨cb, hcall, hacts⟩ := callback_of_acting hacting
  obtain ⟨l₁, l₂, hlog⟩ := List.append_of_mem hcall
  have hnew : (((Server.boot plainWorld).run loginFirst).slot 1).log.length ≤ l₁.length := by
    rw [hempty]
    exact Nat.zero_le _
  obtain ⟨a, h, r, hverdict, hhandler, haddr, -, hissued⟩ :=
    callbacks_by_login plainWorld_free loginFirst_run hlegal (Server.slot_getElem? hopen)
      (Server.slot_getElem? hlength) hlog hnew hacts rfl
  refine ⟨a, h, r, l₁, ?_, hverdict, hhandler, haddr.trans haddress, hissued⟩
  rw [hlog]
  exact List.prefix_append ..

/-- The form is saved for the connection that posted it. -/
theorem configuration_by_login_form :
    let sv := (Server.boot plainWorld).run loginFirst
    ∃ (i : Nat) (s u v t : Sys) (a : Account),
      Server.Through sv (sv.step openNet formSecond) i s u t ∧ s.c.pcb = some 1 ∧ Saves u v ∧
      Deeds v t ∧ Server.IssuedBefore plainWorld sv (sv.step openNet formSecond) i u.c.log a := by
  obtain ⟨hlegal, -, -, -, -, -, hafter⟩ := formSecond_outcome
  have hchange : (((Server.boot plainWorld).run loginFirst).step openNet formSecond).w.dev.workConfig
      ≠ ((Server.boot plainWorld).run loginFirst).w.dev.workConfig := by
    intro hsame
    have hlog := congrArg DeviceConfig.nLog hsame
    rw [loginFirst_outcome.2.2, hafter] at hlog
    cases hlog
  have hpcb : formSecond.pcb = some 1 := rfl
  have hevent : ∀ dev listening443, formSecond ≠ .device dev listening443 := by
    intro dev listening443 h
    have hnone := congrArg Event.pcb h
    rw [hpcb] at hnone
    cases hnone
  obtain ⟨i, s, u, v, t, a, _, _, hthrough, -, hown, hsaves, -, hvt, -, -, -, -, hissued⟩ :=
    configuration_by_login plainWorld_free loginFirst_run hlegal hevent hchange
  exact ⟨i, s, u, v, t, a, hthrough, hown.symm.trans hpcb, hsaves, hvt, hissued⟩

end Httpd

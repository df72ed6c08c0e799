import Mathlib.Logic.Relation
import LambdaIOT.Httpd.Server

/-!
# The order of the callbacks

`Core` is what the control flow of `http_core.c` depends on, and the calls it has made.
`CoreMove` is that control flow with everything else left open: which data arrives, what the
parser reads, what a callback returns and does to the globals and to `RESPONSE_CONTEXT`,
what the network answers. Whatever the handlers are, the core moves in this way.

`Follows` is the protocol the handlers rely on, a condition on each call and the calls of
the same request before it. It holds of every run of the machine: each place in the
control flow bounds the stages that a request has come to.
-/

namespace Httpd

open CMem Relation

/-! ## Calls and their stages -/

/-- What the protocol is about: the callbacks, and what the log says around them. -/
def Act.isCall : Act → Bool
  | .requestLine _ => true
  | .callback .. => true
  | .headersEnd .. => true
  | .content .. => true
  | .reset .. => true
  | .freed => true
  | _ => false

/-- A request is over. -/
def Act.endsRequest : Act → Bool
  | .reset .. => true
  | .freed => true
  | _ => false

def Act.isContent : Act → Bool
  | .content .. => true
  | _ => false

/-- The stages of a request, in their order. -/
def Callback.stage : Callback → Nat
  | .onHeaderReceived => 1
  | .onHeadersReceived => 2
  | .onContentReceived => 3
  | .onRequestReceived => 4
  | .setResponseHeaders => 5
  | .readContent => 6
  | .onAllSent => 6
  | .onFinished => 6

/-- `CGI_SetCgiHandler` is called where a request line is logged. -/
def Act.stage : Act → Option Nat
  | .requestLine _ => some 0
  | .callback _ cb => some cb.stage
  | _ => none

/-- The stages with any number of calls; the others have one at most. -/
def repeats (stage : Nat) : Bool := stage = 1 || stage = 3 || stage = 6

/-- The calls of a request so far, from all calls of a connection. -/
def current (calls : List Act) : List Act :=
  calls.foldl (fun cur a => if a.endsRequest then [] else cur ++ [a]) []

/-! ## The protocol -/

/-- In one request `b` may come after `a`. -/
def MayFollow (a b : Act) : Prop :=
  ∀ i j, a.stage = some i → b.stage = some j → i < j ∨ (i = j ∧ repeats i)

/-- The request has no body, or the last content completed the body or the final chunk. -/
def ContentComplete (calls : List Act) : Prop :=
  (∃ h r found, .headersEnd h r found ∈ calls ∧ h.chunked = false ∧ h.contentLength ≤ 0) ∨
    ∃ l h r len size n l', calls = l ++ .content h r len size n :: l' ∧
      (∀ a ∈ l', a.isContent = false) ∧ h.contentLength ≤ h.contentReceived + n ∧
      (h.chunked → h.contentLength = 2)

/-- After these calls of the same request, `a` may be called. -/
structure MayCome (calls : List Act) (a : Act) : Prop where
  order : ∀ b ∈ calls, MayFollow b a
  complete : ∀ cgi, a = .callback cgi .onRequestReceived → ContentComplete calls

/-- The calls of a connection follow the protocol. Of each request: `CGI_SetCgiHandler` is
called at most once and before any callback; `OnHeadersReceived` at most once and before any
`OnContentReceived`; `OnRequestReceived` at most once, after the last `OnContentReceived`,
and when the content is complete; `SetResponseHeaders` at most once, before any
`ReadContent` and after every receiving callback. -/
def Follows (calls : List Act) : Prop :=
  ∀ l a l', calls = l ++ a :: l' → MayCome (current l) a

theorem current_append_one (calls : List Act) (a : Act) :
    current (calls ++ [a]) = if a.endsRequest then [] else current calls ++ [a] := by
  rw [current, List.foldl_append]
  rfl

theorem follows_nil : Follows [] := by
  intro l a l' h
  have h' := congrArg List.length h
  simp at h'

theorem follows_append_one {calls : List Act} {a : Act} (h : Follows calls)
    (ha : MayCome (current calls) a) : Follows (calls ++ [a]) := by
  intro l b l' heq
  rcases List.eq_nil_or_concat l' with rfl | ⟨m, d, rfl⟩
  · obtain ⟨rfl, hb⟩ := List.append_inj_left' heq rfl, List.append_inj_right' heq rfl
    cases hb
    exact ha
  · have heq' : calls ++ [a] = (l ++ b :: m) ++ [d] := by
      rw [heq]
      simp
    exact h l b m (List.append_inj_left' heq' rfl)

/-! ## The core -/

/-- The fields that decide what is called next, and the calls so far. -/
structure Core where
  state : HttpState
  sending : Bool
  requestMethod : Method
  chunked : Bool
  contentLength : Int
  contentReceived : Int
  calls : List Act

namespace Core

/-- `SetupHttpContext`. -/
def setup : Core := ⟨.idle, false, .none, false, 0, 0, []⟩

/-- A context that is reset or freed. -/
def fresh (calls : List Act) : Core := ⟨.idle, false, .none, false, -1, 0, calls⟩

def log (c : Core) (calls : List Act) : Core := { c with calls := c.calls ++ calls }

/-- `frameContent`: how the content is delimited. -/
def framed (c : Core) : Core :=
  { c with state :=
      if c.chunked then .chunkLenReceiving
      else if 0 < c.contentLength then .bodyReceiving
      else .bodyDone }

/-- `takeContent` and `contentDone`. -/
def taken (c : Core) (n : Int) : Core :=
  if c.contentLength ≤ c.contentReceived + n then
    if c.chunked then
      { c with
        state := if c.contentLength = 2 then .bodyDone else .chunkLenReceiving
        contentLength := 0
        contentReceived := 0 }
    else { c with state := .bodyDone, contentReceived := c.contentReceived + n }
  else { c with contentReceived := c.contentReceived + n }

end Core

/-- Where `HttpRequestProc` is: not called, at the head of its loop, behind the empty line of
a header section, at the content part of a round, behind the loop, behind the header of
the response. -/
inductive Place where
  | between
  | round
  | headed
  | content
  | behind
  | begun
  deriving DecidableEq, Repr

/-- A callback is invoked, or the handler does not have it. -/
def Invoked (cb : Callback) (calls : List Act) : Prop := calls = [] ∨ ∃ cgi, calls = [.callback cgi cb]

/-- The moves of the core. Conditions on data, on `_result` and on the network are left out:
a handler may return what it likes. -/
inductive CoreMove : Place × Core → Place × Core → Prop where
  | accept (c : Core) : CoreMove (.between, c) (.between, .fresh [])
  /-- An event runs `HttpRequestProc`. -/
  | enter (c : Core) : CoreMove (.between, c) (.round, c)
  | startRequest (c : Core) (hst : c.state = .idle) :
      CoreMove (.round, c) (.round, { c with state := .headerReceiving })
  | requestLine (c : Core) (line : Bytes) (method : Method) (hst : c.state = .headerReceiving)
      (hfirst : c.requestMethod = .none) (hmethod : method ≠ .none) :
      CoreMove (.round, c) (.round, { c with requestMethod := method }.log [.requestLine line])
  | headerLine (c : Core) (length received : Int) (chunked : Bool) (calls : List Act)
      (hst : c.state = .headerReceiving) (hlater : c.requestMethod ≠ .none)
      (hcalls : Invoked .onHeaderReceived calls) :
      CoreMove (.round, c) (.round, { c with
        contentLength := length, contentReceived := received, chunked := chunked }.log calls)
  | endOfHeaders (c : Core) (hst : c.state = .headerReceiving) :
      CoreMove (.round, c) (.headed, { c with state := .headerDone, sending := false })
  /-- `CGI_HeadersReceived`, the framing already chosen. -/
  | headersEnd (c : Core) (h : Request) (r : Response) (found : Bool) (calls : List Act)
      (hchunked : h.chunked = c.chunked) (hlength : h.contentLength = c.contentLength)
      (hcalls : Invoked .onHeadersReceived calls) :
      CoreMove (.headed, c) (.content, c.framed.log (.headersEnd h r found :: calls))
  /-- The header section was refused. -/
  | drop (c : Core) : CoreMove (.headed, c) (.behind, c)
  | toContent (c : Core) (hst : c.state.receiving)
      (hlater : c.state ≠ .idle ∧ c.state ≠ .headerReceiving) :
      CoreMove (.round, c) (.content, c)
  | refuse (c : Core) : CoreMove (.content, c) (.behind, { c with state := .sendingHeader })
  | chunkLength (c : Core) (length : Int) (hst : c.state = .chunkLenReceiving) :
      CoreMove (.content, c) (.content, { c with
        contentLength := length, contentReceived := 0, state := .chunkReceiving })
  /-- Content is offered, and none taken. -/
  | offerNone (c : Core) (cgi : Cgi) (h : Request) (r : Response) (len size n : Int)
      (hst : c.state = .chunkReceiving ∨ c.state = .bodyReceiving) :
      CoreMove (.content, c) (.content, c.log [.callback cgi .onContentReceived,
        .content h r len size n])
  /-- Content is offered, and some taken. -/
  | offer (c : Core) (cgi : Cgi) (h : Request) (r : Response) (len size n : Int)
      (hst : c.state = .chunkReceiving ∨ c.state = .bodyReceiving)
      (hchunked : h.chunked = c.chunked) (hlength : h.contentLength = c.contentLength)
      (hreceived : h.contentReceived = c.contentReceived) :
      CoreMove (.content, c) (.content, (c.taken n).log [.callback cgi .onContentReceived,
        .content h r len size n])
  | complete (c : Core) (calls : List Act) (hst : c.state = .bodyDone)
      (hcalls : Invoked .onRequestReceived calls) :
      CoreMove (.content, c) (.behind, c.log calls)
  /-- There may be more to read. -/
  | next (c : Core) (hst : c.state ≠ .bodyDone) : CoreMove (.content, c) (.round, c)
  | stop (c : Core) : CoreMove (.round, c) (.behind, c)
  /-- The call returns with the request incomplete. -/
  | leave (c : Core) (hst : c.state.receiving) : CoreMove (.behind, c) (.between, c)
  | startResponse (c : Core) (st : HttpState) (calls : List Act)
      (hst : c.state.receiving = false) (hfirst : c.sending = false)
      (hcalls : Invoked .setResponseHeaders calls)
      (hnext : st = .sendingHeader ∨ st = .sendingBody) :
      CoreMove (.behind, c) (.begun, { c with state := st, sending := true }.log calls)
  /-- The header could not be written. -/
  | startFailed (c : Core) (calls : List Act) (hst : c.state.receiving = false)
      (hfirst : c.sending = false) (hcalls : Invoked .setResponseHeaders calls) :
      CoreMove (.behind, c) (.begun, { c with state := .requestEnd }.log calls)
  | headerAcked (c : Core) (hst : c.state = .sendingHeader) (hsent : c.sending = true) :
      CoreMove (.behind, c) (.begun, { c with state := .sendingBody })
  /-- Nothing happens to the header in this call. -/
  | skip (c : Core) (hst : c.state.receiving = false) : CoreMove (.behind, c) (.begun, c)
  | readContent (c : Core) (calls : List Act) (hst : c.state = .sendingBody)
      (hcalls : Invoked .readContent calls ∨ Invoked .onAllSent calls) :
      CoreMove (.begun, c) (.begun, c.log calls)
  /-- More of the body is under way. -/
  | sent (c : Core) (hst : c.state = .sendingBody) :
      CoreMove (.begun, c) (.begun, { c with sending := true })
  /-- The response is over: all is sent, or a write failed. -/
  | finish (c : Core) : CoreMove (.begun, c) (.begun, { c with state := .requestEnd })
  | leaveSending (c : Core) (hst : c.state ≠ .requestEnd) : CoreMove (.begun, c) (.between, c)
  | reset (c : Core) (h : Request) (r : Response) :
      CoreMove (.begun, c) (.between, .fresh (c.calls ++ [.reset h r]))
  | close (place : Place) (c : Core) (calls : List Act) (hcalls : Invoked .onFinished calls) :
      CoreMove (place, c) (.between, .fresh (c.calls ++ (calls ++ [.freed])))

abbrev CoreMoves : Place × Core → Place × Core → Prop := ReflTransGen CoreMove

/-- What a core can be between two events. -/
def Core.Reached (c : Core) : Prop := CoreMoves (.between, .setup) (.between, c)

/-! ## How far a request has come -/

/-- The calls of the current request are of stages below `k`. -/
def Below (k : Nat) (calls : List Act) : Prop := ∀ a ∈ current calls, ∀ i, a.stage = some i → i < k

/-- The stages a request can have come to, by the fields of its context. -/
def Core.bound (c : Core) : Nat :=
  if c.sending then 7
  else
    match c.state with
    | .idle => 0
    | .headerReceiving => if c.requestMethod = .none then 0 else 2
    | .bodyDone => 5
    | .sendingHeader => 5
    | .sendingBody => 7
    | .requestEnd => 7
    | _ => 4

/-- What holds at a place of the control flow. -/
def Core.Inv : Place → Core → Prop
  | .between, c | .round, c | .behind, c =>
    Follows c.calls ∧ Below c.bound c.calls ∧ (c.state.receiving → c.sending = false) ∧
      (c.state = .sendingBody → c.sending = true) ∧ c.state ≠ .requestEnd
  | .headed, c =>
    Follows c.calls ∧ Below 2 c.calls ∧ c.sending = false ∧ c.state = .headerDone
  | .content, c =>
    Follows c.calls ∧ Below 4 c.calls ∧ c.sending = false ∧
      (c.state.receiving ∧ c.state ≠ .idle ∧ c.state ≠ .headerReceiving ∨
        c.state = .bodyDone ∧ ContentComplete (current c.calls))
  | .begun, c =>
    Follows c.calls ∧ (c.state ≠ .requestEnd → Below c.bound c.calls) ∧
      (c.state.receiving → c.sending = false) ∧ (c.state = .sendingBody → c.sending = true)

theorem Below.mono {k k' : Nat} {calls : List Act} (h : Below k calls) (hk : k ≤ k') :
    Below k' calls := fun a ha i hi => lt_of_lt_of_le (h a ha i hi) hk

theorem below_nil (k : Nat) : Below k [] := fun _ ha => nomatch ha

/-- The end of a request starts a new one. -/
theorem below_end (k : Nat) (calls : List Act) {a : Act} (ha : a.endsRequest = true) :
    Below k (calls ++ [a]) := by
  intro b hb
  rw [current_append_one, if_pos ha] at hb
  cases hb

theorem below_append_one {k : Nat} {calls : List Act} {a : Act} (h : Below k calls)
    (ha : ∀ i, a.stage = some i → i < k) : Below k (calls ++ [a]) := by
  intro b hb i hi
  rw [current_append_one] at hb
  split at hb
  · cases hb
  · rcases List.mem_append.mp hb with hb | hb
    · exact h b hb i hi
    · rw [List.mem_singleton.mp hb] at hi
      exact ha i hi

/-- An entry without a stage may always come. -/
theorem follows_mute {calls : List Act} {a : Act} (h : Follows calls) (ha : a.stage = none) :
    Follows (calls ++ [a]) := by
  refine follows_append_one h ⟨fun b _ i j _ hj => ?_, fun cgi heq => ?_⟩
  · rw [ha] at hj
    cases hj
  · rw [heq] at ha
    cases ha

/-- A call may come if the request has not come to its stage, or the stage repeats. -/
theorem follows_stage {k j : Nat} {calls : List Act} {a : Act} (h : Follows calls)
    (hb : Below k calls) (ha : a.stage = some j) (hk : k ≤ j ∨ (k ≤ j + 1 ∧ repeats j))
    (hcomplete : ∀ cgi, a = .callback cgi .onRequestReceived → ContentComplete (current calls)) :
    Follows (calls ++ [a]) := by
  refine follows_append_one h ⟨fun b hmem i j' hi hj' => ?_, hcomplete⟩
  rw [ha] at hj'
  cases hj'
  have hlt := hb b hmem i hi
  rcases hk with hk | ⟨hk, hrep⟩
  · exact .inl (by omega)
  · by_cases heq : i = j
    · rw [heq]
      exact .inr ⟨rfl, hrep⟩
    · exact .inl (by omega)

/-- A callback, or none. -/
theorem follows_invoked {k : Nat} {calls cs : List Act} {cb : Callback} (h : Follows calls)
    (hb : Below k calls) (hcs : Invoked cb cs)
    (hk : k ≤ cb.stage ∨ (k ≤ cb.stage + 1 ∧ repeats cb.stage))
    (hcomplete : cb = .onRequestReceived → ContentComplete (current calls)) :
    Follows (calls ++ cs) ∧ Below (max k (cb.stage + 1)) (calls ++ cs) := by
  rcases hcs with rfl | ⟨cgi, rfl⟩
  · rw [List.append_nil]
    exact ⟨h, hb.mono (le_max_left _ _)⟩
  · constructor
    · refine follows_stage h hb rfl hk fun cgi' heq => hcomplete ?_
      cases heq
      rfl
    · refine below_append_one (hb.mono (le_max_left _ _)) fun i hi => ?_
      cases hi
      exact lt_of_lt_of_le (Nat.lt_succ_self _) (le_max_right _ _)

/-- A request that ends leaves nothing behind. -/
theorem inv_fresh {calls : List Act} {a : Act} (h : Follows calls) (ha : a.endsRequest = true) :
    Core.Inv .between (.fresh (calls ++ [a])) := by
  have hmute : a.stage = none := by
    cases a <;> first | rfl | cases ha
  exact ⟨follows_mute h hmute, below_end _ _ ha, fun _ => rfl, fun h => (nomatch h),
    fun h => (nomatch h)⟩

/-- Every place keeps the protocol. -/
theorem Core.Inv.follows {place : Place} {c : Core} (h : Core.Inv place c) : Follows c.calls := by
  cases place <;> exact h.1

/-- There are seven stages. -/
theorem below_seven (calls : List Act) : Below 7 calls := by
  intro a _ i hi
  cases a with
  | requestLine line =>
    cases hi
    decide
  | callback cgi cb =>
    cases hi
    cases cb <;> decide
  | _ => cases hi

theorem Core.bound_le (c : Core) : c.bound ≤ 7 := by
  unfold Core.bound
  split
  · exact le_refl _
  · split
    · decide
    · split <;> decide
    · decide
    · decide
    · decide
    · decide
    · decide

theorem bound_sending {c : Core} (h : c.sending = true) : c.bound = 7 := if_pos h

theorem bound_state {c : Core} (h : c.sending = false) :
    c.bound = match c.state with
      | .idle => 0
      | .headerReceiving => if c.requestMethod = .none then 0 else 2
      | .bodyDone => 5
      | .sendingHeader => 5
      | .sendingBody => 7
      | .requestEnd => 7
      | _ => 4 := by
  rw [Core.bound, h]
  rfl

/-- A receiving request that is past its header section has come to its content at most. -/
theorem bound_content {c : Core} (h : c.sending = false) (hrec : c.state.receiving)
    (hlater : c.state ≠ .idle ∧ c.state ≠ .headerReceiving) : c.bound = 4 := by
  rw [bound_state h]
  cases hst : c.state with
  | idle => exact absurd hst hlater.1
  | headerReceiving => exact absurd hst hlater.2
  | bodyDone =>
    rw [hst] at hrec
    cases hrec
  | sendingHeader =>
    rw [hst] at hrec
    cases hrec
  | sendingBody =>
    rw [hst] at hrec
    cases hrec
  | requestEnd =>
    rw [hst] at hrec
    cases hrec
  | _ => rfl

/-- A request that is received and not answered has come to its completion at most. -/
theorem bound_behind {c : Core} (h : c.sending = false) (hrec : c.state.receiving = false)
    (hbody : c.state = .sendingBody → c.sending = true) (hend : c.state ≠ .requestEnd) :
    c.bound = 5 := by
  rw [bound_state h]
  cases hst : c.state with
  | bodyDone => rfl
  | sendingHeader => rfl
  | sendingBody =>
    rw [hbody hst] at h
    cases h
  | requestEnd => exact absurd hst hend
  | _ =>
    rw [hst] at hrec
    cases hrec

/-! ## Every move keeps the protocol -/

theorem framed_state (c : Core) :
    (c.framed.state.receiving ∧ c.framed.state ≠ .idle ∧ c.framed.state ≠ .headerReceiving) ∨
      (c.framed.state = .bodyDone ∧ c.chunked = false ∧ c.contentLength ≤ 0) := by
  unfold Core.framed
  dsimp only
  split
  · exact .inl (by decide)
  · rename_i hchunked
    split
    · exact .inl (by decide)
    · rename_i hlength
      exact .inr ⟨rfl, by simpa using hchunked, by omega⟩

/-- Taking content goes on, or it completes the content. -/
theorem taken_state {c : Core} (n : Int)
    (hst : c.state = .chunkReceiving ∨ c.state = .bodyReceiving) :
    ((c.taken n).state.receiving ∧ (c.taken n).state ≠ .idle ∧
        (c.taken n).state ≠ .headerReceiving) ∨
      ((c.taken n).state = .bodyDone ∧ c.contentLength ≤ c.contentReceived + n ∧
        (c.chunked → c.contentLength = 2)) := by
  unfold Core.taken
  split
  · rename_i hall
    split
    · rename_i hchunked
      by_cases htwo : c.contentLength = 2
      · exact .inr ⟨if_pos htwo, hall, fun _ => htwo⟩
      · refine .inl ?_
        dsimp only
        rw [if_neg htwo]
        decide
    · rename_i hchunked
      exact .inr ⟨rfl, hall, fun h => absurd h hchunked⟩
  · refine .inl ?_
    rcases hst with h | h
    · dsimp only
      rw [h]
      decide
    · dsimp only
      rw [h]
      decide

theorem taken_frame (c : Core) (n : Int) :
    (c.taken n).sending = c.sending ∧ (c.taken n).calls = c.calls := by
  unfold Core.taken
  split
  · split <;> exact ⟨rfl, rfl⟩
  · exact ⟨rfl, rfl⟩

/-- Where nothing but the calls matters: the state is past its header section. -/
theorem inv_round {c : Core} (hf : Follows c.calls) (hb : Below 4 c.calls)
    (hs : c.sending = false) (hrec : c.state.receiving)
    (hlater : c.state ≠ .idle ∧ c.state ≠ .headerReceiving) : Core.Inv .round c := by
  refine ⟨hf, ?_, fun _ => hs, fun h => ?_, fun h => ?_⟩
  · rw [bound_content hs hrec hlater]
    exact hb
  · rw [h] at hrec
    cases hrec
  · rw [h] at hrec
    cases hrec

/-- Content was offered. -/
theorem follows_offer {c : Core} (cgi : Cgi) (h : Request) (r : Response) (len size n : Int)
    (hf : Follows c.calls) (hb : Below 4 c.calls) :
    let calls := c.calls ++ [.callback cgi .onContentReceived, .content h r len size n]
    Follows calls ∧ Below 4 calls := by
  have hcs : Invoked .onContentReceived [.callback cgi .onContentReceived] := .inr ⟨cgi, rfl⟩
  have hcall := follows_invoked hf hb hcs
    (.inr ⟨le_refl _, rfl⟩) (fun h => nomatch h)
  have hsplit : c.calls ++ [Act.callback cgi .onContentReceived, .content h r len size n] =
      c.calls ++ [.callback cgi .onContentReceived] ++ [.content h r len size n] := by
    rw [List.append_assoc]
    rfl
  dsimp only
  rw [hsplit]
  exact ⟨follows_mute hcall.1 rfl, below_append_one hcall.2 fun i hi => nomatch hi⟩

/-- A request whose header section is being read has come to its lines at most. -/
theorem bound_lines {c : Core} (h : c.sending = false) (hst : c.state = .headerReceiving) :
    c.bound = if c.requestMethod = .none then 0 else 2 := by
  rw [bound_state h, hst]

theorem inv_move {place place' : Place} {c c' : Core} (hi : Core.Inv place c)
    (hm : CoreMove (place, c) (place', c')) : Core.Inv place' c' := by
  cases hm with
  | accept _ =>
    exact ⟨follows_nil, below_nil _, fun _ => rfl, fun h => (nomatch h), fun h => (nomatch h)⟩
  | enter _ => exact hi
  | startRequest _ hst =>
    obtain ⟨hf, hb, hs, hbody, hend⟩ := hi
    have hsend := hs (by rw [hst]; rfl)
    rw [bound_state hsend, hst] at hb
    exact ⟨hf, hb.mono (Nat.zero_le _), fun _ => hsend, fun h => (nomatch h), fun h => (nomatch h)⟩
  | requestLine _ line method hst hfirst hmethod =>
    obtain ⟨hf, hb, hs, hbody, hend⟩ := hi
    have hsend := hs (by rw [hst]; rfl)
    rw [bound_lines hsend hst, if_pos hfirst] at hb
    refine ⟨?_, ?_, fun _ => hsend, hbody, hend⟩
    · exact follows_stage hf hb rfl (.inl (le_refl _)) fun cgi h => nomatch h
    · rw [bound_lines (by exact hsend) (by exact hst), if_neg (by exact hmethod)]
      refine below_append_one (hb.mono (Nat.zero_le _)) fun i h => ?_
      cases h
      decide
  | headerLine _ length received chunked calls hst hlater hcalls =>
    obtain ⟨hf, hb, hs, hbody, hend⟩ := hi
    have hsend := hs (by rw [hst]; rfl)
    rw [bound_lines hsend hst, if_neg hlater] at hb
    have hcall := follows_invoked hf hb hcalls (.inr ⟨le_refl _, rfl⟩) fun h => nomatch h
    refine ⟨hcall.1, ?_, fun _ => hsend, hbody, hend⟩
    rw [bound_lines (by exact hsend) (by exact hst), if_neg (by exact hlater)]
    exact hcall.2
  | endOfHeaders _ hst =>
    obtain ⟨hf, hb, hs, hbody, hend⟩ := hi
    have hsend := hs (by rw [hst]; rfl)
    rw [bound_lines hsend hst] at hb
    refine ⟨hf, hb.mono ?_, rfl, rfl⟩
    split <;> decide
  | headersEnd _ h r found calls hchunked hlength hcalls =>
    obtain ⟨hf, hb, hs, hst⟩ := hi
    -- the entry comes first, then the callback
    have hnote := follows_mute hf (a := .headersEnd h r found) rfl
    have hbelow : Below 2 (c.calls ++ [.headersEnd h r found]) :=
      below_append_one hb fun i h => nomatch h
    have hcall := follows_invoked hnote hbelow hcalls (.inl (le_refl _)) fun h => nomatch h
    rw [List.append_assoc, List.singleton_append] at hcall
    refine ⟨hcall.1, hcall.2.mono (by decide), hs, ?_⟩
    rcases framed_state c with hrec | ⟨hdone, hplain, hnone⟩
    · exact .inl hrec
    · refine .inr ⟨hdone, .inl ⟨h, r, found, ?_, by rw [hchunked, hplain], by rw [hlength]; exact hnone⟩⟩
      show _ ∈ current (c.calls ++ .headersEnd h r found :: calls)
      rcases hcalls with rfl | ⟨cgi, rfl⟩
      · rw [current_append_one]
        exact List.mem_append_right _ (List.mem_singleton_self _)
      · rw [show c.calls ++ [.headersEnd h r found, .callback cgi .onHeadersReceived]
          = c.calls ++ [.headersEnd h r found] ++ [.callback cgi .onHeadersReceived] by simp,
          current_append_one, current_append_one]
        exact List.mem_append_left _ (List.mem_append_right _ (List.mem_singleton_self _))
  | drop _ =>
    obtain ⟨hf, hb, hs, hst⟩ := hi
    exact inv_round hf (hb.mono (by decide)) hs (by rw [hst]; rfl) (by rw [hst]; decide)
  | toContent _ hst hlater =>
    obtain ⟨hf, hb, hs, hbody, hend⟩ := hi
    have hsend := hs hst
    rw [bound_content hsend hst hlater] at hb
    exact ⟨hf, hb, hsend, .inl ⟨hst, hlater⟩⟩
  | refuse _ =>
    obtain ⟨hf, hb, hs, hst⟩ := hi
    refine ⟨hf, ?_, fun _ => hs, fun h => (nomatch h), fun h => (nomatch h)⟩
    rw [bound_state (by exact hs)]
    exact hb.mono (show 4 ≤ 5 by decide)
  | chunkLength _ length hst =>
    obtain ⟨hf, hb, hs, -⟩ := hi
    exact ⟨hf, hb, hs, .inl (show HttpState.receiving .chunkReceiving ∧
      HttpState.chunkReceiving ≠ .idle ∧ HttpState.chunkReceiving ≠ .headerReceiving by decide)⟩
  | offerNone _ cgi h r len size n hst =>
    obtain ⟨hf, hb, hs, -⟩ := hi
    have hcall := follows_offer cgi h r len size n hf hb
    refine ⟨hcall.1, hcall.2, hs, .inl ?_⟩
    show c.state.receiving ∧ c.state ≠ .idle ∧ c.state ≠ .headerReceiving
    rcases hst with h | h
    · rw [h]
      decide
    · rw [h]
      decide
  | offer _ cgi h r len size n hst hchunked hlength hreceived =>
    obtain ⟨hf, hb, hs, -⟩ := hi
    obtain ⟨hsame, hcalls⟩ := taken_frame c n
    have hcall := follows_offer cgi h r len size n hf hb
    rw [← hcalls] at hcall
    refine ⟨hcall.1, hcall.2, hsame.trans hs, ?_⟩
    rcases taken_state n hst with hrec | ⟨hdone, hall, hfinal⟩
    · exact .inl hrec
    · refine .inr ⟨hdone, .inr ⟨current c.calls ++ [.callback cgi .onContentReceived], h, r, len,
        size, n, [], ?_, fun a ha => (nomatch ha), ?_, ?_⟩⟩
      · show current ((c.taken n).calls ++ [_, _]) = _
        rw [hcalls, show c.calls ++ [Act.callback cgi .onContentReceived, .content h r len size n]
          = c.calls ++ [.callback cgi .onContentReceived] ++ [.content h r len size n] by simp,
          current_append_one, current_append_one]
        rfl
      · rw [hlength, hreceived]
        exact hall
      · rw [hchunked, hlength]
        exact hfinal
  | complete _ calls hst hcalls =>
    obtain ⟨hf, hb, hs, hdone⟩ := hi
    have hcontent : ContentComplete (current c.calls) := by
      rcases hdone with h | h
      · rw [hst] at h
        exact absurd h.1 (by decide)
      · exact h.2
    have hcall := follows_invoked hf hb hcalls (.inl (le_refl _)) fun _ => hcontent
    refine ⟨hcall.1, ?_, fun _ => hs, ?_, ?_⟩
    · rw [bound_behind (by exact hs)]
      · exact hcall.2
      · show c.state.receiving = false
        rw [hst]
        rfl
      · show c.state = .sendingBody → _
        rw [hst]
        exact fun h => nomatch h
      · show c.state ≠ .requestEnd
        rw [hst]
        decide
    · show c.state = .sendingBody → _
      rw [hst]
      exact fun h => nomatch h
    · show c.state ≠ .requestEnd
      rw [hst]
      decide
  | next _ hst =>
    obtain ⟨hf, hb, hs, hdone⟩ := hi
    rcases hdone with h | h
    · exact inv_round hf hb hs h.1 h.2
    · exact absurd h.1 hst
  | stop _ => exact hi
  | leave _ hst => exact hi
  | startResponse _ st calls hst hfirst hcalls hnext =>
    obtain ⟨hf, hb, hs, hbody, hend⟩ := hi
    rw [bound_behind hfirst hst hbody hend] at hb
    have hcall := follows_invoked hf hb hcalls (.inl (le_refl _)) fun h => nomatch h
    refine ⟨hcall.1, fun _ => ?_, fun hrec => ?_, fun _ => rfl⟩
    · rw [bound_sending (by rfl)]
      exact below_seven _
    · have hrec' : st.receiving = true := hrec
      rcases hnext with h | h
      · rw [h] at hrec'
        cases hrec'
      · rw [h] at hrec'
        cases hrec'
  | startFailed _ calls hst hfirst hcalls =>
    obtain ⟨hf, hb, hs, hbody, hend⟩ := hi
    rw [bound_behind hfirst hst hbody hend] at hb
    have hcall := follows_invoked hf hb hcalls (.inl (le_refl _)) fun h => nomatch h
    exact ⟨hcall.1, fun h => absurd rfl h, fun h => (nomatch h), fun h => (nomatch h)⟩
  | headerAcked _ hst hsent =>
    obtain ⟨hf, hb, hs, hbody, hend⟩ := hi
    refine ⟨hf, fun _ => ?_, fun h => (nomatch h), fun _ => hsent⟩
    rw [bound_sending (by exact hsent)]
    exact below_seven _
  | skip _ hst =>
    obtain ⟨hf, hb, hs, hbody, hend⟩ := hi
    exact ⟨hf, fun _ => hb, hs, hbody⟩
  | readContent _ calls hst hcalls =>
    obtain ⟨hf, hb, hs, hbody⟩ := hi
    have hsend := hbody hst
    have hcall : Follows (c.calls ++ calls) := by
      rcases hcalls with h | h
      · exact (follows_invoked hf (below_seven _) h (.inr ⟨le_refl _, rfl⟩) fun h => nomatch h).1
      · exact (follows_invoked hf (below_seven _) h (.inr ⟨le_refl _, rfl⟩) fun h => nomatch h).1
    refine ⟨hcall, fun _ => ?_, hs, hbody⟩
    rw [bound_sending (by exact hsend)]
    exact below_seven _
  | sent _ hst =>
    obtain ⟨hf, hb, hs, hbody⟩ := hi
    refine ⟨hf, fun _ => below_seven _, fun h => ?_, fun _ => rfl⟩
    have hrec : c.state.receiving = true := h
    rw [hst] at hrec
    cases hrec
  | finish _ =>
    obtain ⟨hf, hb, hs, hbody⟩ := hi
    exact ⟨hf, fun h => absurd rfl h, fun h => (nomatch h), fun h => (nomatch h)⟩
  | leaveSending _ hst =>
    obtain ⟨hf, hb, hs, hbody⟩ := hi
    exact ⟨hf, hb hst, hs, hbody, hst⟩
  | reset _ h r =>
    obtain ⟨hf, hb, hs, hbody⟩ := hi
    exact inv_fresh hf rfl
  | close _ _ calls hcalls =>
    have hcall := follows_invoked hi.follows (below_seven _) hcalls (.inr ⟨le_refl _, rfl⟩)
      fun h => nomatch h
    rw [← List.append_assoc]
    exact inv_fresh hcall.1 rfl

theorem inv_moves {p q : Place × Core} (hm : CoreMoves p q) (hi : Core.Inv p.1 p.2) :
    Core.Inv q.1 q.2 := by
  induction hm with
  | refl => exact hi
  | tail _ hlast ih => exact inv_move ih hlast

/-- Whatever the handlers do, the core calls them in this order. -/
theorem Core.Reached.follows {c : Core} (h : c.Reached) : Follows c.calls := by
  have hsetup : Core.Inv .between .setup :=
    ⟨follows_nil, below_nil _, fun _ => rfl, fun h => (nomatch h), fun h => (nomatch h)⟩
  exact (inv_moves h hsetup).follows

end Httpd

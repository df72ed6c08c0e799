import LambdaIOT.Httpd.Steps

/-!
# Runs of the server

A run starts from four zeroed contexts and any globals, and takes any events with any
answers of the network. `SlotReach` is what such a run can make of one context, in terms
of the actions of `Micro`; the bridge between the two is the table of control blocks: a
live block whose argument is a context is the block of that context.
-/

namespace Httpd

open CMem Lwip Relation

/-! ## The table of control blocks -/

/-- What the actions do to the table: they only take arguments and lives away, and a context
that gives up its block takes the argument away from it. The blocks of others stay, and so does
the table as long as the context keeps its block. -/
structure PcbStep (s s' : Sys) : Prop where
  kept : ∀ (k : Nat) (p : Pcb), s'.net.pcbs[k]? = some p → p.live → p.arg.isSome → s.net.pcbs[k]? = some p
  own : s'.c.pcb = s.c.pcb ∨
    (s'.c.pcb = none ∧
      ∀ (k : Nat) (p : Pcb), s.c.pcb = some k → s'.net.pcbs[k]? = some p → p.live → p.arg = none)
  others : ∀ k, s.c.pcb ≠ some k → s'.net.pcbs[k]? = s.net.pcbs[k]?
  still : s'.c.pcb.isSome → s'.net.pcbs = s.net.pcbs
  length : s'.net.pcbs.length = s.net.pcbs.length

namespace PcbStep

theorem same {s s' : Sys} (hnet : s'.net.pcbs = s.net.pcbs) (hpcb : s'.c.pcb = s.c.pcb) :
    PcbStep s s' where
  kept := fun k p h _ _ => by rwa [hnet] at h
  own := .inl hpcb
  others := fun k _ => by rw [hnet]
  still := fun _ => hnet
  length := by rw [hnet]

theorem trans {s t u : Sys} (h : PcbStep s t) (h' : PcbStep t u) : PcbStep s u where
  kept := fun k p hk hl ha => h.kept k p (h'.kept k p hk hl ha) hl ha
  own := by
    rcases h.own with h1 | ⟨h1, hdead⟩
    · rcases h'.own with h2 | ⟨h2, hdead'⟩
      · exact .inl (h2.trans h1)
      · exact .inr ⟨h2, by rwa [h1] at hdead'⟩
    · refine .inr ⟨?_, fun k p hk hu hl => ?_⟩
      · rcases h'.own with h2 | ⟨h2, -⟩
        · rw [h2]
          exact h1
        · exact h2
      · by_contra hne
        have hsome : p.arg.isSome := Option.isSome_iff_ne_none.mpr hne
        exact hne (hdead k p hk (h'.kept k p hu hl hsome) hl)
  others := fun k hk => by
    refine (h'.others k ?_).trans (h.others k hk)
    rcases h.own with h1 | ⟨h1, -⟩
    · rw [h1]
      exact hk
    · rw [h1]
      exact nofun
  still := fun hu => by
    have ht : t.c.pcb.isSome := by
      rcases h'.own with h2 | ⟨h2, -⟩
      · rwa [h2] at hu
      · rw [h2] at hu
        cases hu
    exact (h'.still hu).trans (h.still ht)
  length := h'.length.trans h.length

theorem callFrame {s s' : Sys} (h : CallFrame s s') : PcbStep s s' := by
  obtain ⟨_, _, _, rfl, _⟩ := h
  exact same rfl rfl

theorem sendFrame {s s' : Sys} (h : SendFrame s s') : PcbStep s s' := by
  obtain ⟨_, _, _, _, _, _, rfl, hnet, _⟩ := h
  exact same hnet rfl

theorem rxFrame {s : Sys} {c : RequestContext} (h : RxFrame s.c c) :
    PcbStep s { s with c := c } := by
  obtain ⟨_, _, _, _, _, _, rfl, _⟩ := h
  exact same rfl rfl

theorem setRequest (s : Sys) (h : Request) : PcbStep s (s.setRequest h) := same rfl rfl

theorem setResponse (s : Sys) (r : Response) : PcbStep s (s.setResponse r) := same rfl rfl

theorem note (s : Sys) (a : Act) : PcbStep s (s.note a) := same rfl rfl

theorem closeFileHandle (s : Sys) : PcbStep s (closeFileHandle s) := by
  unfold Httpd.closeFileHandle
  split
  · exact same rfl rfl
  · exact same rfl rfl

theorem resetHttpContext (s : Sys) : PcbStep s (resetHttpContext s) :=
  (closeFileHandle s).trans (same rfl rfl)

theorem bodyDone (s : Sys) : PcbStep s (bodyDone s) := same rfl rfl

theorem headersEnd (s : Sys) : PcbStep s (headersEnd s) := by
  obtain ⟨_, _, heq, -⟩ :=
    frameContent_spec (s.setResponse (authorize s.w s.c.toRequest s.c.toResponse))
  unfold Httpd.headersEnd
  dsimp only
  rw [heq]
  refine PcbStep.trans ?_ (callFrame (.cgiHeadersReceived _))
  exact same rfl rfl

theorem chunkLength (s : Sys) (size : Int) : PcbStep s (chunkLength s size) := by
  unfold Httpd.chunkLength
  split
  · exact same rfl rfl
  · exact same rfl rfl

theorem takeContent (s : Sys) (consumed : Int) : PcbStep s (takeContent s consumed) := by
  unfold Httpd.takeContent
  dsimp only
  have hshift := (setRequest s { s.c.toRequest with
    contentReceived := s.c.contentReceived + consumed }).trans
      (rxFrame (.shiftOut _ consumed (s.c.httpRequestBuffer.take consumed.toNat)))
  split
  · refine hshift.trans ?_
    unfold contentDone
    split
    · dsimp only
      split <;> exact same rfl rfl
    · exact bodyDone _
  · exact hshift

theorem cgiContentReceived (s : Sys) (buffer : Bytes) (size : Int) :
    PcbStep s (cgiContentReceived s buffer size).1 := by
  rcases cgiContentReceived_cases s buffer size with heq | ⟨_, _, _, _, heq⟩
  · rw [heq]
    exact same rfl rfl
  · rw [heq]
    exact same rfl rfl

theorem offerContent (s : Sys) (size : Int) : PcbStep s (offerContent s size) := by
  unfold Httpd.offerContent
  dsimp only
  split
  · exact cgiContentReceived ..
  · exact (cgiContentReceived ..).trans (takeContent ..)

theorem parseHeader (s : Sys) (size : Int) : PcbStep s (parseHeader s size).1 := by
  obtain ⟨_, _, _, _, _, _, heq, _⟩ := ParseFrame.parseHeader s size
  rw [heq]
  exact same rfl rfl

theorem startResponse (s : Sys) : PcbStep s (startResponse s) := by
  obtain ⟨t, ht, heq⟩ := cgiSetResponseHeaders_spec (beginResponse s) (codeInfoOf s.c.result)
  have h : PcbStep s (beginResponse s) := same rfl rfl
  have hsend : ∀ a, PcbStep s (sendBuffered (t.note a)).1 := fun a =>
    ((h.trans (callFrame ht)).trans (note t a)).trans (sendFrame (.sendBuffered _))
  unfold Httpd.startResponse
  dsimp only
  rw [heq]
  replace hsend := hsend (.headers (beginResponse s).c.toRequest
    { (beginResponse s).c.toResponse with peak := 0 } t.c.toResponse)
  generalize sendBuffered _ = sent at hsend ⊢
  split
  · refine hsend.trans ?_
    split <;> exact same rfl rfl
  · exact hsend.trans (same rfl rfl)

theorem sendBody (s : Sys) (caller : Caller) : PcbStep s (sendBody s caller) := by
  obtain ⟨t, d, ht, -, heq⟩ := cgiLoadContentToSend_spec s caller
  have h : ∀ a, PcbStep s (t.note a) := fun a => (callFrame ht).trans (note t a)
  unfold Httpd.sendBody
  dsimp only
  rw [heq]
  replace h := h (.load s.w s.c.toRequest { s.c.toResponse with peak := 0 } t.c.toResponse d)
  generalize t.note _ = u at h ⊢
  split
  · refine h.trans ((sendFrame (.sendBuffered _)).trans ?_)
    split <;> exact same rfl rfl
  · split
    · exact h.trans (same rfl rfl)
    · exact h

theorem sendRemaining (s : Sys) : PcbStep s (sendRemaining s) := by
  unfold Httpd.sendRemaining
  dsimp only
  split
  · exact sendFrame (.sendBuffered s)
  · exact (sendFrame (.sendBuffered s)).trans (same rfl rfl)

theorem freed_net (s : Sys) : (freeHttpContext s).net = s.net ∧ (freeHttpContext s).c.pcb = none := by
  unfold freeHttpContext
  dsimp only
  obtain ⟨_, _, _, heq, _⟩ := CallFrame.invoke s .onFinished Cgi.onFinished
  unfold cgiFinish
  rw [heq]
  unfold Httpd.closeFileHandle
  split
  · exact ⟨rfl, rfl⟩
  · exact ⟨rfl, rfl⟩

/-- A context that is freed has no control block any more. -/
theorem freed (s : Sys) (hgone : ∀ (k : Nat) (p : Pcb),
      s.c.pcb = some k → s.net.pcbs[k]? = some p → p.live → p.arg = none) :
    PcbStep s (freeHttpContext s) := by
  obtain ⟨hnet, hpcb⟩ := freed_net s
  constructor
  · intro k p hk _ _
    rwa [hnet] at hk
  · refine .inr ⟨hpcb, fun k p hk hp => ?_⟩
    rw [hnet] at hp
    exact hgone k p hk hp
  · exact fun k _ => by rw [hnet]
  · exact fun _ => by rw [hnet]
  · rw [hnet]

theorem close (s : Sys) : PcbStep s (closeHttpContext s) := by
  unfold closeHttpContext detachPcb
  split
  · rename_i hnone
    exact freed s fun k p hk _ _ => by rw [hnone] at hk; cases hk
  · rename_i pcb hpcb
    dsimp only
    generalize hs : ({ s with
      net := { s.net with
        close := s.net.close.tail
        pcbs := closePcb s.net.pcbs pcb (s.net.close.headD true) }
      c := if s.net.close.headD true then { s.c with pcb := none, peerClosing := false } else s.c }
        : Sys) = t
    obtain ⟨hnet, hnone⟩ := freed_net t
    have hlater : (freeHttpContext t).net.pcbs = closePcb s.net.pcbs pcb (s.net.close.headD true) := by
      rw [hnet, ← hs]
    generalize s.net.close.headD true = ok at hlater
    have hentry : ∀ (k : Nat) (p : Pcb), (closePcb s.net.pcbs pcb ok)[k]? = some p →
        p.live → p.arg.isSome → k ≠ pcb ∧ s.net.pcbs[k]? = some p := by
      intro k p hk hl ha
      rw [closePcb, List.getElem?_modify] at hk
      obtain ⟨q, hq, rfl⟩ := Option.map_eq_some_iff.mp hk
      by_cases hkp : pcb = k
      · rw [if_pos hkp] at ha
        cases ha
      · rw [if_neg hkp]
        exact ⟨fun h => hkp h.symm, hq⟩
    constructor
    · intro k p hk hl ha
      rw [hlater] at hk
      exact (hentry k p hk hl ha).2
    · refine .inr ⟨hnone, fun k p hk hp hl => ?_⟩
      rw [hpcb] at hk
      cases hk
      by_contra hne
      rw [hlater] at hp
      exact (hentry pcb p hp hl (Option.isSome_iff_ne_none.mpr hne)).1 rfl
    · intro k hk
      have hne : pcb ≠ k := fun h => hk (by rw [hpcb, h])
      rw [hlater, closePcb, List.getElem?_modify]
      simp [hne]
    · intro h
      rw [hnone] at h
      cases h
    · rw [hlater, closePcb, List.length_modify]

end PcbStep

/-- Every action treats the table so. -/
theorem micro_pcbStep {s s' : Sys} (h : Micro s s') : PcbStep s s' := by
  cases h with
  | environment w net hpcbs => exact .same hpcbs rfl
  | receive p hlive hfit => exact .rxFrame (.receivePbuf ..)
  | peerClosed => exact .setRequest ..
  | touch t => exact .setResponse ..
  | acknowledged len => exact .setRequest ..
  | dequeue hst => exact .rxFrame (.dequeue _)
  | startRequest hst hlen => exact .same rfl rfl
  | parseHeader hst hlen => exact .parseHeader ..
  | tooLarge hst => exact .setResponse ..
  | headersEnd hst hok => exact .headersEnd s
  | refuse hst hbad hsending => exact .setRequest ..
  | chunkLength hst hok => exact .chunkLength ..
  | content size hst hok => exact .offerContent ..
  | complete hst hok => exact .callFrame (.completeRequest s)
  | sendRemaining hst hres hleft => exact .sendRemaining s
  | startResponse hst hres hfirst => exact .startResponse s
  | headerAcked hst hres hsent =>
    unfold headerAcked
    split <;> exact .same rfl rfl
  | sendBody caller hst hres hsent hstage => exact .sendBody ..
  | requestEnd hst =>
    unfold requestEnd
    split
    · exact .close s
    · split
      · exact (PcbStep.same rfl rfl : PcbStep s (s.note _)).trans (.resetHttpContext _)
      · exact .close s
  | peerGone hst hpeer => exact .setResponse ..
  | close => exact .close s
  | free hgone =>
    exact .freed s fun k p hk hp hl => by rw [hgone k p hk hp] at hl; cases hl
  | outOfFuel => exact .setResponse ..

theorem micros_pcbStep {s s' : Sys} (h : Micros s s') : PcbStep s s' := by
  induction h with
  | refl => exact .same rfl rfl
  | tail _ hlast ih => exact ih.trans (micro_pcbStep hlast)

/-! ## Runs -/

/-- The receive window lets the segment through: fewer than `2^16` bytes are queued. -/
def Event.Legal (sv : Server) : Event → Prop
  | .receive pcb (some p) => ∀ c ∈ sv.slots, c.pcb = some pcb →
    (Pbuf.data c.reqBufList).length + p.data.length < 65536
  | _ => True

/-- The states of the server. -/
inductive Server.Reachable : Server → Prop where
  | boot (w : World) : Reachable (.boot w)
  | step {sv : Server} (a : Answers) (e : Event) (h : Reachable sv) (hlegal : e.Legal sv) :
      Reachable (sv.step a e)

/-- The states of a context. -/
inductive SlotReach : RequestContext → Prop where
  | setup : SlotReach setupContext
  | accept {s : Sys} (pcb ipRemote : Nat) (h : SlotReach s.c) (hfree : s.c.pcb = none)
      (hok : s.c.fault = false) : SlotReach (acceptContext s pcb ipRemote).c
  | micro {s s' : Sys} (h : SlotReach s.c) (hstep : Micro s s') : SlotReach s'.c

theorem SlotReach.micros {s s' : Sys} (h : SlotReach s.c) (hs : Micros s s') : SlotReach s'.c := by
  induction hs with
  | refl => exact h
  | tail _ hlast ih => exact ih.micro hlast

/-- What `OnHttpReceive` runs `HttpRequestProc` on. -/
def received (s : Sys) (p : Segment) : Sys :=
  let s := s.setResponse { s.c.toResponse with tLastReceived := s.now }
  { s with c := s.c.receivePbuf p.chain }

theorem SlotReach.received {s : Sys} {p : Segment} (h : SlotReach s.c) (hlive : s.c.pcb.isSome)
    (hfit : (Pbuf.data s.c.reqBufList).length + p.data.length < 65536) :
    SlotReach (received s p).c :=
  (h.micro (.touch s s.now)).micro (.receive (s.setResponse { s.c.toResponse with
    tLastReceived := s.now }) p hlive hfit)

/-- What holds of the server between two events. -/
structure ServerInv (sv : Server) : Prop where
  slots : ∀ c ∈ sv.slots, SlotReach c
  table : ∀ (k : Nat) (p : Pcb) (i : Nat) (c : RequestContext), sv.pcbs[k]? = some p → p.live →
    p.arg = some i → sv.slots[i]? = some c → c.fault = true ∨ c.pcb = some k

theorem serverInv_boot (w : World) : ServerInv (.boot w) where
  slots := fun c hc => by
    rw [List.eq_of_mem_replicate hc]
    exact .setup
  table := fun k p i c hk _ _ _ => nomatch hk

/-- The system an event handler of context `c` starts from. -/
def Server.sys (sv : Server) (a : Answers) (c : RequestContext) : Sys :=
  { w := sv.w, c := c, net := ⟨a.sndbuf, a.write, a.close, sv.pcbs⟩ }

/-- A handler that treats the table well keeps the invariant. -/
theorem serverInv_onSlot {sv : Server} {i : Nat} {a : Answers} {f : Sys → Sys}
    (hi : ServerInv sv)
    (hf : ∀ c, sv.slots[i]? = some c → c.fault = false →
      Micros (sv.sys a c) (f (sv.sys a c))) : ServerInv (sv.onSlot i a f) := by
  unfold Server.onSlot
  split
  · exact hi
  · rename_i c hc
    split
    · exact hi
    · rename_i hok
      have hok' : c.fault = false := by simpa using hok
      have hrun := hf c hc hok'
      have hpcb := micros_pcbStep hrun
      dsimp only
      show ServerInv ⟨(f (sv.sys a c)).w, sv.slots.set i (f (sv.sys a c)).c,
        (f (sv.sys a c)).net.pcbs⟩
      refine ⟨fun d hd => ?_, fun k p j d hk hl ha hd => ?_⟩
      · rcases List.mem_or_eq_of_mem_set hd with h | h
        · exact hi.slots d h
        · rw [h]
          exact SlotReach.micros (hi.slots c (List.mem_of_getElem? hc)) hrun
      · have hold := hpcb.kept k p hk hl (by rw [ha]; rfl)
        by_cases hij : i = j
        · subst hij
          have hd' : (f (sv.sys a c)).c = d := by
            rw [List.getElem?_set_self (List.getElem?_eq_some_iff.mp hc).1] at hd
            exact Option.some.inj hd
          rw [← hd']
          rcases hi.table k p i c hold hl ha hc with h | h
          · rw [hok'] at h
            cases h
          · rcases hpcb.own with h2 | ⟨-, hdead⟩
            · exact .inr (h2.trans h)
            · rw [hdead k p h hk hl] at ha
              cases ha
        · rw [List.getElem?_set_ne hij] at hd
          exact hi.table k p j d hold hl ha hd

/-- Dropping a control block keeps the invariant. -/
theorem serverInv_dropPcb {sv : Server} (pcb : Nat) (hi : ServerInv sv) :
    ServerInv (sv.dropPcb pcb) where
  slots := hi.slots
  table := fun k p i c hk hl ha hc => by
    have hk' : (sv.pcbs.modify pcb fun p => { p with live := false })[k]? = some p := hk
    rw [List.getElem?_modify] at hk'
    obtain ⟨q, hq, rfl⟩ := Option.map_eq_some_iff.mp hk'
    split at hl
    · cases hl
    · rename_i hne
      rw [if_neg hne] at ha
      exact hi.table k q i c hq hl ha hc

/-- An event of a live control block is legal for the context it goes to. -/
theorem serverInv_onPcb {sv : Server} {pcb : Nat} {a : Answers} {e : ConnEvent}
    (hi : ServerInv sv)
    (hlegal : ∀ c ∈ sv.slots, c.pcb = some pcb → e.Legal (sv.sys a c)) :
    ServerInv (sv.onPcb pcb a e) := by
  unfold Server.onPcb
  split
  · exact hi
  · rename_i p hp
    split
    · rename_i hl
      split
      · rename_i i ha
        refine serverInv_onSlot hi fun c hc hok => connStep_micros (hlegal c ?_ ?_)
        · exact List.mem_of_getElem? hc
        · rcases hi.table pcb p i c hp hl ha hc with h | h
          · rw [hok] at h
            cases h
          · exact h
      · unfold Server.retryClose
        split
        · exact serverInv_dropPcb pcb hi
        · exact hi
    · exact hi

theorem serverInv_onError {sv : Server} {pcb : Nat} {a : Answers} (hi : ServerInv sv) :
    ServerInv (sv.onError pcb a) := by
  unfold Server.onError
  split
  · exact hi
  · rename_i p hp
    split
    · rename_i hl
      split
      · rename_i i ha
        refine serverInv_onSlot (serverInv_dropPcb pcb hi) fun c hc hok =>
          connStep_micros (e := .error) ?_
        intro k q hk hq
        have hkp : k = pcb := by
          rcases hi.table pcb p i c hp hl ha hc with h | h
          · rw [hok] at h
            cases h
          · have hk' : c.pcb = some k := hk
            rw [h] at hk'
            exact (Option.some.inj hk').symm
        subst hkp
        have hq' : (sv.pcbs.modify k fun p => { p with live := false })[k]? = some q := hq
        rw [List.getElem?_modify] at hq'
        obtain ⟨r, -, rfl⟩ := Option.map_eq_some_iff.mp hq'
        rw [if_pos rfl]
      · exact serverInv_dropPcb pcb hi
    · exact hi

theorem acceptContext_net (s : Sys) (pcb ipRemote : Nat) :
    (acceptContext s pcb ipRemote).net = s.net := by
  unfold acceptContext resetHttpContext closeFileHandle
  dsimp only
  split <;> rfl

/-- An entry of the table with one more block. -/
theorem getElem?_push {pcbs : List Pcb} {q p : Pcb} {k : Nat} (h : (pcbs ++ [q])[k]? = some p) :
    pcbs[k]? = some p ∨ (k = pcbs.length ∧ p = q) := by
  rw [List.getElem?_append] at h
  split at h
  · exact .inl h
  · rename_i hk
    rw [List.getElem?_singleton] at h
    split at h
    · cases h
      exact .inr ⟨by omega, rfl⟩
    · cases h

theorem serverInv_accept {sv : Server} {ip : Nat} {a : Answers} (hi : ServerInv sv) :
    ServerInv (sv.accept ip a) := by
  unfold Server.accept
  split
  · refine ⟨hi.slots, fun k p i c hk hl ha hc => ?_⟩
    rcases getElem?_push hk with h | ⟨-, rfl⟩
    · exact hi.table k p i c h hl ha hc
    · cases hl
  · rename_i i hfind
    obtain ⟨hlt, hfree, -⟩ := List.findIdx?_eq_some_iff_getElem.mp hfind
    have hc : sv.slots[i]? = some sv.slots[i] := List.getElem?_eq_getElem hlt
    have hpcb : sv.slots[i].pcb = none := by simpa using hfree
    dsimp only
    unfold Server.onSlot
    dsimp only
    rw [hc]
    dsimp only
    split
    · rename_i hbad
      refine ⟨hi.slots, fun k p j c hk hl ha hd => ?_⟩
      rcases getElem?_push hk with h | ⟨-, rfl⟩
      · exact hi.table k p j c h hl ha hd
      · cases ha
        rw [hc] at hd
        cases hd
        exact .inl hbad
    · rename_i hok
      refine ⟨fun d hd => ?_, fun k p j d hk hl ha hd => ?_⟩
      · rcases List.mem_or_eq_of_mem_set hd with h | rfl
        · exact hi.slots d h
        · exact .accept _ _ (hi.slots _ (List.getElem_mem hlt)) hpcb (by simpa using hok)
      · dsimp only [connStep] at hk hd
        rw [acceptContext_net] at hk
        rcases getElem?_push hk with h | ⟨rfl, rfl⟩
        · by_cases hij : i = j
          · subst hij
            rcases hi.table k p i _ h hl ha hc with h | h
            · exact absurd h hok
            · rw [hpcb] at h
              cases h
          · rw [List.getElem?_set_ne hij] at hd
            exact hi.table k p j d h hl ha hd
        · cases ha
          rw [List.getElem?_set_self hlt] at hd
          cases hd
          exact .inr rfl

/-- Every step keeps the invariant. -/
theorem serverInv_step {sv : Server} {a : Answers} {e : Event} (hi : ServerInv sv)
    (hlegal : e.Legal sv) : ServerInv (sv.step a e) := by
  cases e with
  | accept ip => exact serverInv_accept hi
  | receive pcb p =>
    refine serverInv_onPcb hi fun c hc hpcb => ?_
    cases p with
    | none => exact trivial
    | some p => exact ⟨by rw [show (sv.sys a c).c.pcb = some pcb from hpcb]; rfl, hlegal c hc hpcb⟩
  | poll pcb => exact serverInv_onPcb hi fun c hc hpcb => trivial
  | sent pcb len => exact serverInv_onPcb hi fun c hc hpcb => trivial
  | error pcb => exact serverInv_onError hi
  | tick tick clock => exact ⟨hi.slots, hi.table⟩
  | device dev listening443 => exact ⟨hi.slots, hi.table⟩

/-- The contexts of a reachable server are reachable by actions. -/
theorem Server.Reachable.slot {sv : Server} (h : sv.Reachable) {c : RequestContext}
    (hc : c ∈ sv.slots) : SlotReach c := by
  have hinv : ServerInv sv := by
    clear hc
    induction h with
    | boot w => exact serverInv_boot w
    | step a e _ hlegal ih => exact serverInv_step ih hlegal
  exact hinv.slots c hc

/-! ## Runs as lists -/

instance (sv : Server) (e : Event) : Decidable (e.Legal sv) := by
  unfold Event.Legal
  split <;> infer_instance

namespace Server

/-- The state after a list of events. -/
def run (sv : Server) : List (Answers × Event) → Server
  | [] => sv
  | (a, e) :: es => (sv.step a e).run es

/-- Every event of the list fits the window when it happens. -/
def RunLegal (sv : Server) : List (Answers × Event) → Prop
  | [] => True
  | (a, e) :: es => e.Legal sv ∧ (sv.step a e).RunLegal es

def decidableRunLegal (sv : Server) : (es : List (Answers × Event)) → Decidable (sv.RunLegal es)
  | [] => .isTrue trivial
  | (a, e) :: es =>
    have := decidableRunLegal (sv.step a e) es
    inferInstanceAs (Decidable (_ ∧ _))

instance (sv : Server) (es : List (Answers × Event)) : Decidable (sv.RunLegal es) :=
  decidableRunLegal sv es

theorem Reachable.run {sv : Server} (h : sv.Reachable) {es : List (Answers × Event)}
    (hl : sv.RunLegal es) : (sv.run es).Reachable := by
  induction es generalizing sv with
  | nil => exact h
  | cons e es ih => exact ih (h.step e.1 e.2 hl.1) hl.2

end Server

namespace Server

/-- Context `i`. -/
def slot (sv : Server) (i : Nat) : RequestContext := sv.slots.getD i setupContext

theorem slot_getElem? {sv : Server} {i : Nat} (h : i < sv.slots.length) :
    sv.slots[i]? = some (sv.slot i) := by
  rw [slot, List.getD_eq_getElem?_getD, List.getElem?_eq_getElem h]
  rfl

theorem slot_mem {sv : Server} {i : Nat} (h : i < sv.slots.length) : sv.slot i ∈ sv.slots :=
  List.mem_of_getElem? (slot_getElem? h)

end Server

/-! ## A server to look at -/

/-- A server without files and sessions. -/
def plainWorld : World where
  tick := 1000
  clock := ⟨ascii "Mon, 02 Mar 2020 03:04:05 GMT", by decide +kernel, by decide +kernel⟩
  sessions := setupSession
  fs := webFsInit [] []
  dev := initDevInfo [1, 2, 3]
  listening443 := false

/-- A network that takes everything. -/
def openNet : Answers := ⟨List.replicate 16 2144, [], []⟩

/-- The event that brings `s` to connection `pcb`. -/
def receiveText (pcb : Nat) (s : String) : Event :=
  .receive pcb (if h : ascii s = [] then none else some (.ofBytes (ascii s) h))

end Httpd

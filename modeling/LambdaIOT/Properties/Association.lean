import LambdaIOT.Httpd.Reach

/-!
# Connections and contexts

A live control block whose argument is a context is the block of that context. The events of
the connections keep this; a restart of the service does not, because `HttpdStop` frees the
contexts without detaching their control blocks and `tcp_kill_all` aborts only the blocks in
TIME-WAIT.
-/

namespace Httpd

open CMem Lwip

/-! ## Runs with restarts -/

/-- What can happen to the server and to the service. -/
inductive ServiceEvent where
  | event (e : Event)
  | restart

namespace Server

def serviceStep (sv : Server) (a : Answers) : ServiceEvent → Server
  | .event e => sv.step a e
  | .restart => sv.restart a

/-- The state after a list of events. -/
def serviceRun (sv : Server) : List (Answers × ServiceEvent) → Server
  | [] => sv
  | (a, e) :: es => (sv.serviceStep a e).serviceRun es

/-- The receive window lets every segment through. -/
def ServiceLegal (sv : Server) : List (Answers × ServiceEvent) → Prop
  | [] => True
  | (a, .event e) :: es => e.Legal sv ∧ (sv.step a e).ServiceLegal es
  | (a, .restart) :: es => (sv.restart a).ServiceLegal es

/-- The service is restarted only while no context has a connection. -/
def RestartsIdle (sv : Server) : List (Answers × ServiceEvent) → Prop
  | [] => True
  | (a, .event e) :: es => (sv.step a e).RestartsIdle es
  | (a, .restart) :: es => (∀ c ∈ sv.slots, c.pcb = none) ∧ (sv.restart a).RestartsIdle es

/-- Live control blocks and contexts belong together, as long as the context has not left
defined behaviour. -/
structure Associated (sv : Server) : Prop where
  owner : ∀ (k : Nat) (p : Pcb) (i : Nat) (c : RequestContext), sv.pcbs[k]? = some p → p.live →
    p.arg = some i → sv.slots[i]? = some c → c.fault = false → c.pcb = some k
  unshared : ∀ (j k : Nat) (p q : Pcb) (i : Nat) (c : RequestContext), sv.pcbs[j]? = some p →
    sv.pcbs[k]? = some q → p.live → q.live → p.arg = some i → q.arg = some i →
    sv.slots[i]? = some c → c.fault = false → j = k
  chosen : ∀ (i : Nat) (c : RequestContext), (sv.slots.findIdx? fun c => c.pcb.isNone) = some i →
    sv.slots[i]? = some c → c.fault = false →
    ∀ (k : Nat) (p : Pcb), sv.pcbs[k]? = some p → p.live → p.arg ≠ some i

end Server

/-- All of it follows from the table of control blocks. -/
theorem ServerInv.associated {sv : Server} (h : ServerInv sv) : sv.Associated := by
  have howner : ∀ (k : Nat) (p : Pcb) (i : Nat) (c : RequestContext), sv.pcbs[k]? = some p →
      p.live → p.arg = some i → sv.slots[i]? = some c → c.fault = false → c.pcb = some k := by
    intro k p i c hk hl ha hc hok
    rcases h.table k p i c hk hl ha hc with hbad | hpcb
    · rw [hok] at hbad
      cases hbad
    · exact hpcb
  constructor
  · exact howner
  · intro j k p q i c hj hk hp hq hpa hqa hc hok
    have h1 := howner j p i c hj hp hpa hc hok
    have h2 := howner k q i c hk hq hqa hc hok
    exact Option.some.inj (h1.symm.trans h2)
  · intro i c hfind hc hok k p hk hl ha
    obtain ⟨hlt, hfree, -⟩ := List.findIdx?_eq_some_iff_getElem.mp hfind
    rw [List.getElem?_eq_getElem hlt] at hc
    cases hc
    rw [howner k p i _ hk hl ha (List.getElem?_eq_getElem hlt) hok] at hfree
    cases hfree

/-! ## Restarts -/

/-- No context has a connection, and the control blocks are the ones of before. -/
structure Stopped (pcbs : List Pcb) (sv : Server) : Prop where
  idle : ∀ c ∈ sv.slots, c.pcb = none
  blocks : sv.pcbs = pcbs
  inv : ServerInv sv

/-- Freeing a context without a connection. -/
theorem stopped_free {pcbs : List Pcb} {sv : Server} (h : Stopped pcbs sv) (i : Nat)
    (a : Answers) : Stopped pcbs (sv.onSlot i a freeHttpContext) := by
  have hinv : ServerInv (sv.onSlot i a freeHttpContext) := by
    refine serverInv_onSlot h.inv fun c hc _ => micros_one (.free _ fun k p hk => ?_)
    rw [show (sv.sys a c).c.pcb = none from h.idle c (List.mem_of_getElem? hc)] at hk
    cases hk
  have hfreed : ∀ s : Sys, (freeHttpContext s).c.pcb = none ∧
      (freeHttpContext s).net.pcbs = s.net.pcbs := by
    intro s
    obtain ⟨_, _, _, heq, -⟩ := CallFrame.invoke s .onFinished Cgi.onFinished
    unfold freeHttpContext
    dsimp only [cgiFinish]
    rw [heq]
    unfold closeFileHandle
    split
    · exact ⟨rfl, rfl⟩
    · exact ⟨rfl, rfl⟩
  refine ⟨?_, ?_, hinv⟩
  · unfold Server.onSlot
    split
    · exact h.idle
    · split
      · exact h.idle
      · intro c hc
        rcases List.mem_or_eq_of_mem_set hc with hold | rfl
        · exact h.idle c hold
        · exact (hfreed _).1
  · unfold Server.onSlot
    split
    · exact h.blocks
    · split
      · exact h.blocks
      · exact (hfreed _).2.trans h.blocks

theorem stopped_httpdStop {pcbs : List Pcb} {sv : Server} (h : Stopped pcbs sv) (a : Answers) :
    Stopped pcbs (sv.httpdStop a) := by
  have hfold : ∀ (l : List Nat) (sv : Server), Stopped pcbs sv →
      Stopped pcbs (l.foldl (fun sv i => sv.onSlot i a freeHttpContext) sv) := by
    intro l
    induction l with
    | nil => exact fun _ h => h
    | cons i l ih => exact fun sv h => ih _ (stopped_free h i a)
  exact hfold _ sv h

/-- A restart without connections keeps the table. -/
theorem serverInv_restart {sv : Server} (a : Answers) (hi : ServerInv sv)
    (hidle : ∀ c ∈ sv.slots, c.pcb = none) : ServerInv (sv.restart a) := by
  have h1 := stopped_httpdStop ⟨hidle, rfl, hi⟩ a
  have h2 : ServerInv (if (sv.httpdStop a).w.listening443 then (sv.httpdStop a).httpdStop a
      else sv.httpdStop a) := by
    split
    · exact (stopped_httpdStop h1 a).inv
    · exact h1.inv
  exact ⟨h2.slots, h2.table⟩

/-! ## The result -/

theorem serverInv_serviceRun {es : List (Answers × ServiceEvent)} {sv : Server}
    (hi : ServerInv sv) (hlegal : sv.ServiceLegal es) (hidle : sv.RestartsIdle es) :
    ServerInv (sv.serviceRun es) := by
  induction es generalizing sv with
  | nil => exact hi
  | cons e es ih =>
    obtain ⟨a, e⟩ := e
    cases e with
    | event e => exact ih (serverInv_step hi hlegal.1) hlegal.2 hidle
    | restart => exact ih (serverInv_restart a hi hidle.1) hlegal hidle.2

/-- In every run in which the service is restarted only without connections, control blocks
and contexts belong together. -/
theorem connection_association (w : World) {es : List (Answers × ServiceEvent)}
    (hlegal : (Server.boot w).ServiceLegal es) (hidle : (Server.boot w).RestartsIdle es) :
    ((Server.boot w).serviceRun es).Associated :=
  (serverInv_serviceRun (serverInv_boot w) hlegal hidle).associated

/-- A connection is accepted and lost before the service restarts. -/
theorem connection_association_afterError :
    ((Server.boot plainWorld).serviceRun
      [(openNet, .event (.accept 7)), (openNet, .event (.error 0)), (openNet, .restart),
        (openNet, .event (.accept 8))]).Associated :=
  connection_association plainWorld ⟨trivial, trivial, trivial, trivial⟩
    ⟨by decide, trivial⟩

/-- A connection that outlives a restart shares its context with the next one. -/
theorem connection_association_sharedContext :
    ¬ ((Server.boot plainWorld).serviceRun
      [(openNet, .event (.accept 7)), (openNet, .restart),
        (openNet, .event (.accept 8))]).Associated := fun h =>
  absurd (h.unshared 0 1 ⟨some 0, true⟩ ⟨some 0, true⟩ 0 _ (by decide) (by decide)
    rfl rfl rfl rfl rfl (by decide)) (by decide)

end Httpd

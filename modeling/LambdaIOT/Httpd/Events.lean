import LambdaIOT.Httpd.Invariants

/-!
# What a step of the server is

An event comes to one context at most: to the one that accepts a connection, or to the one that
the control block belongs to. `StepKind` lists the cases with everything they come with, and
`Server.step_kind` is the inversion of a step. The rule for events follows from it: what a fresh
connection has and every event of a connection keeps holds of every context between two events.
-/

namespace Httpd

open CMem

/-- The control block that an event is about. -/
def Event.pcb : Event → Option Nat
  | .receive pcb _ => some pcb
  | .poll pcb => some pcb
  | .sent pcb _ => some pcb
  | .error pcb => some pcb
  | _ => none

/-- What the event is to the context of its control block. -/
def Event.conn : Event → Option ConnEvent
  | .receive _ p => some (.receive p)
  | .poll _ => some .poll
  | .sent _ len => some (.sent len)
  | .error _ => some .error
  | _ => none

/-- The data that an event delivers. -/
def Event.data : Event → Bytes
  | .receive _ (some p) => p.data
  | _ => []

def ConnEvent.data : ConnEvent → Bytes
  | .receive (some p) => p.data
  | _ => []

/-- The block of an open context names it, and is live. -/
def Server.Names (sv : Server) (k i : Nat) : Prop := sv.pcbs[k]? = some ⟨some i, true⟩

/-- The cases of a step from `sv` to `sv'`. -/
inductive StepKind (sv : Server) (a : Answers) (e : Event) (sv' : Server) : Prop where
  /-- No context is touched: time passes, the device changes, or nobody is there. -/
  | idle (hslots : sv'.slots = sv.slots)
      (htime : sv'.w.sessions = sv.w.sessions ∧ sv'.w.tick = sv.w.tick ∨
        ∃ tick clock, e = .tick tick clock ∧ sv'.w.tick = tick ∧
          sv'.w.sessions = sessionCheck sv.w.sessions tick sv.w.dev.workConfig.nSessionTimeout)
      (hdev : sv'.w.dev = sv.w.dev ∨ ∃ dev listening443, e = .device dev listening443)
      (hnames : ∀ k i c, sv.Names k i → sv.slots[i]? = some c → c.fault = false →
        sv'.Names k i ∧ e.pcb ≠ some k)
      (hlength : sv.pcbs.length ≤ sv'.pcbs.length)
  /-- A free context accepts a connection. -/
  | accept {i : Nat} {s : Sys} (pcb ip : Nat) (hslot : sv.slots[i]? = some s.c) (hw : s.w = sv.w)
      (hshape : Shape s.c) (hfree : s.c.pcb = none)
      (hslots : sv'.slots = sv.slots.set i (acceptContext s pcb ip).c)
      (hw' : sv'.w = (acceptContext s pcb ip).w)
      (hpcbs : pcb = sv.pcbs.length ∧ sv'.pcbs = sv.pcbs ++ [⟨some i, true⟩])
      (hnobody : e.pcb = none)
  /-- An event of the connection of a context. -/
  | event {i : Nat} {s : Sys} (f : ConnEvent) (hslot : sv.slots[i]? = some s.c) (hw : s.w = sv.w)
      (hreach : SlotReach s.c) (hok : s.c.fault = false) (hpcb : s.c.pcb.isSome)
      (hown : e.pcb = s.c.pcb) (hlegal : f.Legal s)
      (hslots : sv'.slots = sv.slots.set i (connStep s f).c)
      (hw' : sv'.w = (connStep s f).w)
      (hpcbs : (∀ k, s.c.pcb ≠ some k → s.net.pcbs[k]? = sv.pcbs[k]?) ∧
        (f = .error ∨ s.net.pcbs = sv.pcbs) ∧ sv'.pcbs = (connStep s f).net.pcbs)
      (hlength : s.net.pcbs.length = sv.pcbs.length) (hdata : e.data = f.data)
      (hconn : e.conn = some f) (hnet : s.net.sndbuf = a.sndbuf ∧ s.net.write = a.write)

theorem Server.Reachable.inv {sv : Server} (h : sv.Reachable) : ServerInv sv := by
  induction h with
  | boot w => exact serverInv_boot w
  | step a e _ hlegal ih => exact serverInv_step ih hlegal

/-- A handler runs on context `i` of a server, or there is none that may run. -/
theorem onSlot_cases (sv : Server) (i : Nat) (a : Answers) (f : Sys → Sys) :
    (sv.onSlot i a f = sv ∧ ∀ c, sv.slots[i]? = some c → c.fault = true) ∨
    ∃ c, sv.slots[i]? = some c ∧ c.fault = false ∧
      (sv.onSlot i a f).slots = sv.slots.set i (f (sv.sys a c)).c ∧
      (sv.onSlot i a f).w = (f (sv.sys a c)).w ∧
      (sv.onSlot i a f).pcbs = (f (sv.sys a c)).net.pcbs := by
  unfold Server.onSlot
  split
  · rename_i hnone
    exact .inl ⟨rfl, fun c hc => by rw [hnone] at hc; cases hc⟩
  · rename_i c hc
    split
    · rename_i hbad
      exact .inl ⟨rfl, fun d hd => by rw [hc] at hd; cases hd; exact hbad⟩
    · rename_i hok
      exact .inr ⟨c, hc, by simpa using hok, rfl, rfl, rfl⟩

/-- Nothing happens: the event is not that of a connection. -/
theorem StepKind.still {sv : Server} {a : Answers} {e : Event}
    (h : ∀ k i c, sv.Names k i → sv.slots[i]? = some c → c.fault = false → e.pcb ≠ some k) :
    StepKind sv a e sv :=
  .idle rfl (.inl ⟨rfl, rfl⟩) (.inl rfl) (fun k i c hk hc hok => ⟨hk, h k i c hk hc hok⟩) (le_refl _)

/-- A context behind a step that sets context `i` is the one that was there, or the new one. -/
theorem slot_of_set {slots slots' : List RequestContext} {i k : Nat} {c d : RequestContext}
    (hset : slots' = slots.set i d) (h : slots'[k]? = some c) :
    i ≠ k ∧ slots[k]? = some c ∨ k = i ∧ c = d := by
  by_cases hik : i = k
  · subst hik
    have hlt : i < slots.length := by
      have hlen := (List.getElem?_eq_some_iff.mp h).1
      rwa [hset, List.length_set] at hlen
    rw [hset, List.getElem?_set_self hlt] at h
    exact .inr ⟨rfl, (Option.some.inj h).symm⟩
  · rw [hset, List.getElem?_set_ne hik] at h
    exact .inl ⟨hik, h⟩

/-- Dropping one block leaves the others alone. -/
theorem getElem?_drop_ne {pcbs : List Pcb} {k j : Nat} (h : j ≠ k) :
    (pcbs.modify j fun p => { p with live := false })[k]? = pcbs[k]? := by
  rw [List.getElem?_modify]
  simp [h]

theorem getElem?_drop {pcbs : List Pcb} {k : Nat} {p : Pcb} (h : (pcbs.modify k fun p =>
    { p with live := false })[k]? = some p) : p.live = false := by
  rw [List.getElem?_modify] at h
  obtain ⟨q, -, rfl⟩ := Option.map_eq_some_iff.mp h
  rw [if_pos rfl]

/-- The inversion of a step. -/
theorem Server.step_kind {sv : Server} (hinv : ServerInv sv) (a : Answers) {e : Event}
    (hlegal : e.Legal sv) : StepKind sv a e (sv.step a e) := by
  -- the block of context `i` is live, and the context is its own
  have hown : ∀ {k : Nat} {p : Pcb} {i : Nat} {c : RequestContext}, sv.pcbs[k]? = some p →
      p.live → p.arg = some i → sv.slots[i]? = some c → c.fault = false → c.pcb = some k := by
    intro k p i c hp hl ha hc hok
    rcases hinv.table k p i c hp hl ha hc with hbad | hown
    · rw [hok] at hbad
      cases hbad
    · exact hown
  -- a block that names no working context is nobody's
  have hnobody : ∀ {k : Nat}, e.pcb = some k → (∀ p, sv.pcbs[k]? = some p → p.live →
      ∀ i c, p.arg = some i → sv.slots[i]? = some c → c.fault = true) →
      ∀ j i c, sv.Names j i → sv.slots[i]? = some c → c.fault = false → e.pcb ≠ some j := by
    intro k he hno j i c hj hc hok hej
    rw [he] at hej
    cases hej
    have hbad := hno _ hj rfl i c rfl hc
    rw [hok] at hbad
    cases hbad
  -- and may be dropped
  have hdrop : ∀ {k : Nat}, e.pcb = some k → (∀ p, sv.pcbs[k]? = some p → p.live →
      ∀ i c, p.arg = some i → sv.slots[i]? = some c → c.fault = true) →
      StepKind sv a e (sv.dropPcb k) := by
    intro k he hno
    refine .idle rfl (.inl ⟨rfl, rfl⟩) (.inl rfl) (fun j i c hj hc hok => ?_) ?_
    · have hother := hnobody he hno j i c hj hc hok
      have hjk : k ≠ j := fun h => hother (by rw [he, h])
      exact ⟨(getElem?_drop_ne hjk).trans hj, hother⟩
    · exact le_of_eq (List.length_modify ..).symm
  have hevent : ∀ (k : Nat) (f : ConnEvent), e.pcb = some k → e.data = f.data → e.conn = some f →
      (∀ c ∈ sv.slots, c.pcb = some k → f.Legal (sv.sys a c)) →
      StepKind sv a e (sv.onPcb k a f) := by
    intro k f he hdata hconn hf
    unfold Server.onPcb
    split
    · rename_i hp
      exact .still (hnobody he fun p h => by rw [hp] at h; cases h)
    · rename_i p hp
      have hone : ∀ q, sv.pcbs[k]? = some q → q = p := by
        intro q hq
        rw [hp] at hq
        exact (Option.some.inj hq).symm
      split
      · rename_i hl
        split
        · rename_i i ha
          rcases onSlot_cases sv i a fun s => connStep s f with
            ⟨hsame, hbad⟩ | ⟨c, hc, hok, hslots, hw, hpcbs⟩
          · rw [hsame]
            refine .still (hnobody he fun q hq _ j c hj hc => ?_)
            rw [hone q hq, ha] at hj
            cases hj
            exact hbad c hc
          · have hpcb := hown hp hl ha hc hok
            have hmem := List.mem_of_getElem? hc
            have hsys : (sv.sys a c).c.pcb = some k := hpcb
            exact .event f hc rfl (hinv.slots c hmem) hok (by rw [hsys]; rfl) (he.trans hsys.symm)
              (hf c hmem hpcb) hslots hw ⟨fun _ _ => rfl, .inr rfl, hpcbs⟩ rfl hdata hconn ⟨rfl, rfl⟩
        · rename_i hnone
          have hno : ∀ q, sv.pcbs[k]? = some q → q.live →
              ∀ i c, q.arg = some i → sv.slots[i]? = some c → c.fault = true := by
            intro q hq _ i c hi _
            rw [hone q hq, hnone] at hi
            cases hi
          unfold Server.retryClose
          split
          · exact hdrop he hno
          · exact .still (hnobody he hno)
      · rename_i hdead
        exact .still (hnobody he fun q hq hl => absurd (by rw [← hone q hq]; exact hl) hdead)
  cases e with
  | accept ip =>
    show StepKind sv a _ (sv.accept ip a)
    have hpush : ∀ (q : Pcb) (k i : Nat), sv.Names k i →
        ((sv.pcbs ++ [q])[k]? = some ⟨some i, true⟩) := by
      intro q k i hk
      rw [List.getElem?_append_left (List.getElem?_eq_some_iff.mp hk).1]
      exact hk
    have hlonger : ∀ q : Pcb, sv.pcbs.length ≤ (sv.pcbs ++ [q]).length := by
      intro q
      rw [List.length_append]
      exact Nat.le_add_right ..
    unfold Server.accept
    split
    · exact .idle rfl (.inl ⟨rfl, rfl⟩) (.inl rfl) (fun k i c hk _ _ => ⟨hpush _ k i hk, nofun⟩)
        (hlonger _)
    · rename_i i hfind
      obtain ⟨hlt, hfree, -⟩ := List.findIdx?_eq_some_iff_getElem.mp hfind
      have hshape := (hinv.slots _ (List.getElem_mem hlt)).shape
      dsimp only
      generalize hopened : ({ sv with pcbs := sv.pcbs ++ [⟨some i, true⟩] } : Server) = opened
      have hslots' : opened.slots = sv.slots := by rw [← hopened]
      have hw' : opened.w = sv.w := by rw [← hopened]
      have hpcbs' : opened.pcbs = sv.pcbs ++ [⟨some i, true⟩] := by rw [← hopened]
      rcases onSlot_cases opened i a fun s => connStep s (.accept sv.pcbs.length ip) with
        ⟨hsame, -⟩ | ⟨c, hc, -, hslots, hw, hpcbs⟩
      · rw [hsame]
        refine .idle hslots' (.inl (by rw [hw']; exact ⟨rfl, rfl⟩)) (.inl (by rw [hw'])) ?_ ?_
        · intro k j c hk _ _
          refine ⟨?_, nofun⟩
          unfold Server.Names
          rw [hpcbs']
          exact hpush _ k j hk
        · rw [hpcbs']
          exact hlonger _
      · rw [hslots'] at hc hslots
        have hc' := hc
        rw [List.getElem?_eq_getElem hlt] at hc'
        cases hc'
        have hnone : sv.slots[i].pcb = none := by simpa using hfree
        refine .accept sv.pcbs.length ip hc hw' hshape hnone hslots hw ⟨rfl, ?_⟩ rfl
        rw [hpcbs]
        obtain ⟨_, _, _, heq⟩ := acceptContext_spec (opened.sys a sv.slots[i]) sv.pcbs.length ip
        show (acceptContext (opened.sys a sv.slots[i]) sv.pcbs.length ip).net.pcbs = _
        rw [heq]
        exact hpcbs'
  | receive pcb p =>
    refine hevent pcb (.receive p) rfl ?_ rfl fun c hc hpcb => ?_
    · cases p <;> rfl
    · cases p with
      | none => exact trivial
      | some p =>
        exact ⟨by rw [show (sv.sys a c).c.pcb = some pcb from hpcb]; rfl, hlegal c hc hpcb⟩
  | poll pcb => exact hevent pcb .poll rfl rfl rfl fun c hc hpcb => trivial
  | sent pcb len => exact hevent pcb (.sent len) rfl rfl rfl fun c hc hpcb => trivial
  | error pcb =>
    show StepKind sv a _ (sv.onError pcb a)
    unfold Server.onError
    split
    · rename_i hp
      exact .still (hnobody rfl fun p h => by rw [hp] at h; cases h)
    · rename_i p hp
      have hone : ∀ q, sv.pcbs[pcb]? = some q → q = p := by
        intro q hq
        rw [hp] at hq
        exact (Option.some.inj hq).symm
      split
      · rename_i hl
        split
        · rename_i i ha
          rcases onSlot_cases (sv.dropPcb pcb) i a fun s => connStep s .error with
            ⟨hsame, hbad⟩ | ⟨c, hc, hok, hslots, hw, hpcbs⟩
          · rw [hsame]
            refine hdrop rfl fun q hq _ j c hj hc => ?_
            rw [hone q hq, ha] at hj
            cases hj
            exact hbad c hc
          · have hpcb := hown hp hl ha hc hok
            have hsys : ((sv.dropPcb pcb).sys a c).c.pcb = some pcb := hpcb
            refine .event .error hc rfl (hinv.slots c (List.mem_of_getElem? hc)) hok
              (by rw [hsys]; rfl) hsys.symm ?_ hslots hw ⟨?_, .inl rfl, hpcbs⟩ ?_ rfl
              rfl ⟨rfl, rfl⟩
            -- the block was dropped in front of the event
            · intro k q hk hq
              rw [hsys] at hk
              cases hk
              exact getElem?_drop hq
            · intro k hk
              rw [hsys] at hk
              exact getElem?_drop_ne fun h => hk (by rw [h])
            · exact List.length_modify ..
        · rename_i hnone
          refine hdrop rfl fun q hq _ i c hi _ => ?_
          rw [hone q hq, hnone] at hi
          cases hi
      · rename_i hdead
        exact .still (hnobody rfl fun q hq hl => absurd (by rw [← hone q hq]; exact hl) hdead)
  | tick tick clock =>
    exact .idle rfl (.inr ⟨tick, clock, rfl, rfl, rfl⟩) (.inl rfl)
      (fun _ _ _ h _ _ => ⟨h, nofun⟩) (le_refl _)
  | device dev listening443 =>
    exact .idle rfl (.inl ⟨rfl, rfl⟩) (.inr ⟨dev, listening443, rfl⟩)
      (fun _ _ _ h _ _ => ⟨h, nofun⟩) (le_refl _)

/-- What a fresh connection has, and what every event of a connection keeps, holds of every
context between two events. -/
theorem Server.Reachable.byEvents {P : RequestContext → Prop} (hsetup : P setupContext)
    (haccept : ∀ s pcb ipRemote, Shape s.c → FreeCtx s.c → P (acceptContext s pcb ipRemote).c)
    (hstep : ∀ s e, SlotReach s.c → s.c.fault = false → s.c.pcb.isSome → P s.c →
      ConnEvent.Legal s e → P (connStep s e).c) {sv : Server} (h : sv.Reachable) :
    ∀ c ∈ sv.slots, P c := by
  induction h with
  | boot w =>
    intro c hc
    rw [List.eq_of_mem_replicate hc]
    exact hsetup
  | step a e h hlegal ih =>
    intro c hc
    cases Server.step_kind h.inv a hlegal with
    | idle hslots _ _ _ _ =>
      rw [hslots] at hc
      exact ih c hc
    | accept pcb ip _ _ hshape hfree hslots _ _ _ =>
      rw [hslots] at hc
      rcases List.mem_or_eq_of_mem_set hc with hold | hnew
      · exact ih c hold
      · rw [hnew]
        exact haccept _ pcb ip hshape (hshape.free hfree)
    | event f hslot _ hreach hok hpcb _ hlegal' hslots _ _ _ _ =>
      rw [hslots] at hc
      rcases List.mem_or_eq_of_mem_set hc with hold | hnew
      · exact ih c hold
      · rw [hnew]
        exact hstep _ f hreach hok hpcb (ih _ (List.mem_of_getElem? hslot)) hlegal'

end Httpd

import LambdaIOT.Properties.Deeds

/-!
# What the peer of a connection has sent

The log of a context has an entry for every segment that the context took in. Here these entries
are tied to the events of the run: the block of an open context names it (`Linked`), so a receive
event of the block comes to this context and to no other, and one step of the server delivers what
its event brings. In every run the segments in the log of an open connection are those of the
receive events of its control block, from the event on that opened it.
-/

namespace Httpd

open CMem

/-- What the receive events of control block `k` bring in a run from `sv`. There is no such block
until the event that opens it. -/
def Server.sentTo (sv : Server) (k : Nat) : List (Answers × Event) → Bytes
  | [] => []
  | (a, e) :: es =>
    (if k < sv.pcbs.length ∧ e.pcb = some k then e.data else []) ++ (sv.step a e).sentTo k es

/-- The block of every open context names the context. -/
def Server.Linked (sv : Server) : Prop :=
  ∀ i c k, sv.slots[i]? = some c → c.fault = false → c.pcb = some k → sv.Names k i

namespace Server

theorem Names.lt {sv : Server} {k i : Nat} (h : sv.Names k i) : k < sv.pcbs.length :=
  (List.getElem?_eq_some_iff.mp h).1

/-- A block names one context. -/
theorem Names.unique {sv : Server} {k i j : Nat} (hi : sv.Names k i) (hj : sv.Names k j) :
    i = j := by
  cases hi.symm.trans hj
  rfl

theorem linked_boot (w : World) : (boot w).Linked := by
  intro i c k hc _ hk
  rw [List.eq_of_mem_replicate (List.mem_of_getElem? hc)] at hk
  cases hk

/-- A context that has a connection behind an event had it before, and its block is as it was. -/
theorem open_event {s : Sys} {f : ConnEvent} (hlegal : f.Legal s) {k : Nat}
    (hk : (connStep s f).c.pcb = some k) :
    f ≠ .error ∧ s.c.pcb = some k ∧ (connStep s f).net.pcbs = s.net.pcbs := by
  have hpcbs := micros_pcbStep (connStep_micros hlegal)
  refine ⟨?_, ?_, hpcbs.still (by rw [hk]; rfl)⟩
  · rintro rfl
    have hfreed : (connStep s .error).c.pcb = none := by
      obtain ⟨_, _, _, _, _, _, heq, -⟩ := freeHttpContext_frame s
      show (freeHttpContext s).c.pcb = none
      rw [heq]
      rfl
    rw [hfreed] at hk
    cases hk
  · rcases hpcbs.own with hsame | ⟨hnone, -⟩
    · exact hsame.symm.trans hk
    · rw [hnone] at hk
      cases hk

end Server

/-- Where an open context comes from: it was open before the step, with the same block, and took
what the event brought; or the step has opened it with a new block. -/
inductive Origin (sv : Server) (e : Event) (i k : Nat) (d : RequestContext) : Prop where
  | kept {c : RequestContext} (hslot : sv.slots[i]? = some c) (hok : c.fault = false)
      (hpcb : c.pcb = some k)
      (htook : deliveredBytes d.log =
        deliveredBytes c.log ++ if e.pcb = some k then e.data else [])
  | opened (hnew : k = sv.pcbs.length) (hnobody : e.pcb = none) (hempty : d.log = [])

section

variable {sv sv' : Server} {a : Answers} {e : Event} {i k : Nat} {d : RequestContext}

/-- One step: an open context has an origin, and its block names it. -/
theorem StepKind.open (h : StepKind sv a e sv') (hlinked : sv.Linked) (hd : sv'.slots[i]? = some d)
    (hok : d.fault = false) (hk : d.pcb = some k) : Origin sv e i k d ∧ sv'.Names k i := by
  -- a context that the event does not come to
  have hkept : sv.slots[i]? = some d → e.pcb ≠ some k → Origin sv e i k d := by
    intro hslot hother
    refine .kept hslot hok hk ?_
    rw [if_neg hother, List.append_nil]
  cases h with
  | idle hslots _ _ hnames _ =>
    rw [hslots] at hd
    obtain ⟨hnames', hother⟩ := hnames k i d (hlinked i d k hd hok hk) hd hok
    exact ⟨hkept hd hother, hnames'⟩
  | @accept j s pcb ip hslot _ _ _ hslots _ hpcbs hnobody =>
    obtain ⟨hpcb, hpcbs⟩ := hpcbs
    rcases slot_of_set hslots hd with ⟨-, hold⟩ | ⟨rfl, rfl⟩
    · have hnames := hlinked i d k hold hok hk
      refine ⟨hkept hold (by rw [hnobody]; nofun), ?_⟩
      unfold Server.Names
      rw [hpcbs, List.getElem?_append_left hnames.lt]
      exact hnames
    · obtain ⟨_, _, _, heq⟩ := acceptContext_spec s pcb ip
      rw [heq] at hk
      have hnew : k = sv.pcbs.length := (Option.some.inj hk).symm.trans hpcb
      refine ⟨.opened hnew hnobody (by rw [heq]), ?_⟩
      unfold Server.Names
      rw [hpcbs, hnew, List.getElem?_append_right (le_refl _), Nat.sub_self]
      rfl
  | @event j s f hslot _ _ hbefore _ hown hlegal hslots _ hpcbs hlength hdata =>
    obtain ⟨hothers, hnet, hpcbs⟩ := hpcbs
    unfold Server.Names
    rw [hpcbs]
    rcases slot_of_set hslots hd with ⟨hji, hold⟩ | ⟨rfl, rfl⟩
    · have hnames := hlinked i d k hold hok hk
      -- the blocks of two contexts are two blocks
      have hne : s.c.pcb ≠ some k := fun h =>
        hji ((hlinked j s.c k hslot hbefore h).unique hnames)
      refine ⟨hkept hold (by rw [hown]; exact hne), ?_⟩
      rw [(micros_pcbStep (connStep_micros hlegal)).others k hne, hothers k hne]
      exact hnames
    · obtain ⟨hnoerror, hsame, hstill⟩ := Server.open_event hlegal hk
      refine ⟨.kept hslot hbefore hsame ?_, ?_⟩
      · rw [connStep_delivered hlegal, hown, if_pos hsame, hdata]
      · rw [hstill, hnet.resolve_left hnoerror]
        exact hlinked i s.c k hslot hbefore hsame

/-- Blocks are opened, and none is taken back. -/
theorem StepKind.length (h : StepKind sv a e sv') : sv.pcbs.length ≤ sv'.pcbs.length := by
  cases h with
  | idle _ _ _ _ hlength => exact hlength
  | accept _ _ _ _ _ _ _ _ hpcbs _ =>
    rw [hpcbs.2, List.length_append]
    exact Nat.le_add_right ..
  | event _ _ _ _ _ _ _ hlegal _ _ hpcbs hlength _ =>
    rw [hpcbs.2.2, (micros_pcbStep (connStep_micros hlegal)).length, hlength]

end

/-! ## Runs -/

namespace Server

theorem Reachable.linked {sv : Server} (h : sv.Reachable) : sv.Linked := by
  induction h with
  | boot w => exact linked_boot w
  | step a e h hlegal ih =>
    intro i c k hc hok hk
    exact ((step_kind h.inv a hlegal).open ih hc hok hk).2

/-- In a run from `sv`, an open context has taken what its block was sent: all of it, if the run
has opened the block. -/
theorem delivered_run {sv : Server} (hreach : sv.Reachable) {es : List (Answers × Event)}
    (hlegal : sv.RunLegal es) {i k : Nat} {d : RequestContext}
    (hd : (sv.run es).slots[i]? = some d) (hok : d.fault = false) (hk : d.pcb = some k) :
    (k < sv.pcbs.length ∧ ∃ c, sv.slots[i]? = some c ∧ c.fault = false ∧ c.pcb = some k ∧
      deliveredBytes d.log = deliveredBytes c.log ++ sv.sentTo k es) ∨
    sv.pcbs.length ≤ k ∧ deliveredBytes d.log = sv.sentTo k es := by
  induction es generalizing sv with
  | nil =>
    refine .inl ⟨(hreach.linked i d k hd hok hk).lt, d, hd, hok, hk, ?_⟩
    exact (List.append_nil _).symm
  | cons ae es ih =>
    obtain ⟨a, e⟩ := ae
    obtain ⟨he, hes⟩ := hlegal
    have hkind := step_kind hreach.inv a he
    rcases ih (hreach.step a e he) hes hd with ⟨hlt, c, hc, hfine, hpcb, htook⟩ | ⟨hge, htook⟩
    · rw [htook]
      cases (hkind.open hreach.linked hc hfine hpcb).1 with
      | kept hslot hfine' hpcb' hfirst =>
        have hnames := hreach.linked i _ k hslot hfine' hpcb'
        refine .inl ⟨hnames.lt, _, hslot, hfine', hpcb', ?_⟩
        rw [hfirst, List.append_assoc, sentTo]
        simp only [hnames.lt, true_and]
      | opened hnew hnobody hempty =>
        refine .inr ⟨hnew.ge, ?_⟩
        rw [hempty, sentTo, if_neg (fun h => by rw [hnobody] at h; cases h.2)]
        rfl
    -- the block is opened later
    · have hlater : ¬k < sv.pcbs.length := fun h => by
        have hlength := hkind.length
        omega
      refine .inr ⟨Nat.le_of_not_lt hlater, ?_⟩
      rw [htook, sentTo, if_neg fun h => hlater h.1]
      rfl

/-- In every run the segments in the log of an open connection are those that its control block
was sent. -/
theorem delivered_sent {w : World} {es : List (Answers × Event)} (hlegal : (boot w).RunLegal es)
    {i k : Nat} {c : RequestContext} (hc : ((boot w).run es).slots[i]? = some c)
    (hok : c.fault = false) (hk : c.pcb = some k) :
    deliveredBytes c.log = (boot w).sentTo k es := by
  rcases delivered_run (.boot w) hlegal hc hok hk with ⟨hlt, -⟩ | ⟨-, htook⟩
  · exact absurd hlt (Nat.not_lt_zero k)
  · exact htook

end Server

end Httpd

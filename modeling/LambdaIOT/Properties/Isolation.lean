import LambdaIOT.Properties.Accounts

/-!
# Whose session an event may change

A context points to a record of the session table. The pointer is set where a header section
ends, and by a login; no reset, no close and no next connection takes it back. An event changes
the table through the pointer of its own context, unless a login takes a vacant record.

The pointer is one more right: it is issued where it is set, and a change of a record needs it.
-/

namespace Httpd

open Relation Provenance

/-! ## One event -/

/-- The record that the context points to, as a right of the deeds of an event. -/
def pointerRights : Rights Sys Nat Empty where
  step := Deed
  holds s j := s.c.session = some j
  used _ q := q.elim
  issue s t j := LooksUp s t j ∨ OpensSession s t j
  permits _ q := q.elim

theorem pointerRights_sound : pointerRights.Sound where
  holds := fun hst hj => hst.2.pointer _ hj
  used := fun {_ _ q} _ _ => q.elim

/-- A record that changed within an event is one that the context points to on the way. -/
theorem deeds_record {s t : Sys} (h : Deeds s t) (j : Nat) :
    t.w.sessions[j]? = s.w.sessions[j]? ∨ pointerRights.Granted s t j := by
  induction h with
  | refl => exact .inl rfl
  | tail hsu huv ih =>
    rcases ih with hsame | hgranted
    · rcases huv.2.records j with hkept | hpoints | hopens
      · exact .inl (hkept.trans hsame)
      -- the record is changed through the pointer
      · exact .inr ((pointerRights_sound.holds_run hsu j hpoints).later (.single huv))
      · exact .inr (.inr (.last hsu huv (.inr hopens)))
    · exact .inr (hgranted.later (.single huv))

/-! ## The server -/

/-- In the step from `sv` to `sv'` the context `q.1` finds or opens the session in record `q.2`. -/
def Server.Finds (sv sv' : Server) (q : Nat × Nat) : Prop :=
  ∃ s t : Sys, sv.slots[q.1]? = some s.c ∧ s.w = sv.w ∧
    sv'.slots[q.1]? = some t.c ∧ t.w = sv'.w ∧ pointerRights.Issued s t q.2

/-- Context `q.1` points to record `q.2`, as a right of the events of the server. -/
def slotRights : Rights Server (Nat × Nat) Empty where
  step := fun sv sv' => sv.Reachable ∧ Server.Step sv sv'
  holds sv q := ∃ c, sv.slots[q.1]? = some c ∧ c.session = some q.2
  used _ q := q.elim
  issue := Server.Finds
  permits _ q := q.elim

/-- A new connection has the session pointer of the last one. -/
theorem acceptContext_session (s : Sys) (pcb ip : Nat) :
    (acceptContext s pcb ip).c.session = s.c.session := by
  obtain ⟨_, _, _, heq⟩ := acceptContext_spec s pcb ip
  rw [heq]
  rfl

/-- What a context points to within an event it did before, or the event has set. -/
theorem finds_event {sv sv' : Server} {i j : Nat} {s t : Sys} (hslot : sv.slots[i]? = some s.c)
    (hw : s.w = sv.w) (hslot' : sv'.slots[i]? = some t.c) (hw' : t.w = sv'.w)
    (h : pointerRights.Granted s t j) :
    slotRights.holds sv (i, j) ∨ slotRights.issue sv sv' (i, j) := by
  rcases h with hpoints | hissued
  · exact .inl ⟨s.c, hslot, hpoints⟩
  · exact .inr ⟨s, t, hslot, hw, hslot', hw', hissued⟩

theorem slotRights_sound : slotRights.Sound where
  holds := by
    rintro sv sv' ⟨k, j⟩ ⟨hreach, b, e, hlegal, rfl⟩ ⟨c, hc, hj⟩
    cases Server.step_kind hreach.inv b hlegal with
    | idle hslots _ _ _ _ =>
      rw [hslots] at hc
      exact .inl ⟨c, hc, hj⟩
    | accept pcb ip hslot _ _ _ hslots _ _ _ =>
      rcases slot_of_set hslots hc with ⟨-, hold⟩ | ⟨rfl, rfl⟩
      · exact .inl ⟨c, hold, hj⟩
      -- the new connection points where the last one did
      · rw [acceptContext_session] at hj
        exact .inl ⟨_, hslot, hj⟩
    | event f hslot hw _ _ _ _ hlegal' hslots hw' _ _ _ =>
      rcases slot_of_set hslots hc with ⟨-, hold⟩ | ⟨rfl, rfl⟩
      · exact .inl ⟨c, hold, hj⟩
      · exact finds_event hslot hw hc hw'.symm
          (pointerRights_sound.holds_run (connStep_deeds hlegal') j hj)
  used := fun {_ _ q} _ _ => q.elim

/-- One event: only the timer and the events of connections change the table, these through the
pointer of their context. -/
theorem step_record {sv : Server} (hreach : sv.Reachable) {b : Answers} {e : Event}
    (hlegal : e.Legal sv) (hevent : ∀ tick clock, e ≠ .tick tick clock) {j : Nat}
    (hchange : (sv.step b e).w.sessions[j]? ≠ sv.w.sessions[j]?) :
    ∃ i c, sv.slots[i]? = some c ∧ c.pcb.isSome ∧ e.pcb = c.pcb ∧
      (slotRights.holds sv (i, j) ∨ slotRights.issue sv (sv.step b e) (i, j)) := by
  cases Server.step_kind hreach.inv b hlegal with
  | idle _ htime _ _ _ =>
    rcases htime with ⟨hsame, -⟩ | ⟨tick, clock, he, -⟩
    · exact absurd (congrArg (·[j]?) hsame) hchange
    · exact absurd he (hevent tick clock)
  | accept pcb ip _ hw _ _ _ hw' _ _ =>
    refine absurd ?_ hchange
    rw [hw', (acceptContext_fresh _ pcb ip).1, hw]
  | @event i s f hslot hw _ _ hpcb hown hlegal' hslots hw' _ _ _ =>
    refine ⟨i, s.c, hslot, hpcb, hown, ?_⟩
    rcases deeds_record (connStep_deeds hlegal') j with hsame | hgranted
    · refine absurd ?_ hchange
      rw [hw', hsame, hw]
    · exact finds_event hslot hw (slot_set hslot hslots) hw'.symm hgranted

/-! ## Runs -/

/-- No context points to a session at the beginning. -/
theorem boot_points (w : World) (q : Nat × Nat) : ¬slotRights.holds (.boot w) q := by
  rintro ⟨c, hc, hq⟩
  rw [List.eq_of_mem_replicate (List.mem_of_getElem? hc)] at hq
  cases hq

/-- **A session is changed only through the contexts that its cookie came to.** In every run, an
event other than the timer that changes a record of the session table is an event of an open
connection, and on the context of that connection, in this event or earlier in the run, a header
section has ended whose cookie holds the token in the record, or a login took the record. -/
theorem session_isolation {w : World} {sv : Server}
    (hrun : ReflTransGen Server.Step (.boot w) sv) {b : Answers} {e : Event}
    (hlegal : e.Legal sv) (hevent : ∀ tick clock, e ≠ .tick tick clock) {j : Nat}
    (hchange : (sv.step b e).w.sessions[j]? ≠ sv.w.sessions[j]?) :
    ∃ i c, sv.slots[i]? = some c ∧ c.pcb.isSome ∧ e.pcb = c.pcb ∧
      slotRights.Issued (.boot w) (sv.step b e) (i, j) := by
  have hreach := reachable_later (.boot w) hrun
  have hlast : slotRights.step sv (sv.step b e) := ⟨hreach, b, e, hlegal, rfl⟩
  have hruns : ReflTransGen slotRights.step (.boot w) sv := serverRights_run (.boot w) hrun
  obtain ⟨i, c, hslot, hpcb, hown, hnow⟩ := step_record hreach hlegal hevent hchange
  refine ⟨i, c, hslot, hpcb, hown, ?_⟩
  rcases hnow with hpoints | hfinds
  · rcases slotRights_sound.holds_run hruns (i, j) hpoints with hbegin | hissued
    · exact absurd hbegin (boot_points w (i, j))
    · exact hissued.later (.single hlast)
  · exact .last hruns hlast hfinds

/-- The server after the login, a while later. -/
def loginLater : Server :=
  ((Server.boot plainWorld).run loginFirst).step openNet (.tick 1500 plainWorld.clock)

/-- The form on the second connection touches the session, for it has the cookie. -/
theorem formSecond_touches : formSecond.Legal loginLater ∧
    (loginLater.step openNet formSecond).w.sessions[0]? ≠ loginLater.w.sessions[0]? := by
  decide +kernel

theorem session_isolation_form :
    ∃ i c, loginLater.slots[i]? = some c ∧ c.pcb = some 1 ∧
      slotRights.Issued (.boot plainWorld) (loginLater.step openNet formSecond) (i, 0) := by
  have hrun : ReflTransGen Server.Step (.boot plainWorld) loginLater :=
    loginFirst_run.tail ⟨openNet, .tick 1500 plainWorld.clock, trivial, rfl⟩
  have hevent : ∀ tick clock, formSecond ≠ .tick tick clock := by
    intro tick clock h
    cases congrArg Event.pcb h
  obtain ⟨hlegal, hchange⟩ := formSecond_touches
  obtain ⟨i, c, hslot, -, hown, hissued⟩ := session_isolation hrun hlegal hevent hchange
  exact ⟨i, c, hslot, hown.symm, hissued⟩

end Httpd

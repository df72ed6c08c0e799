import LambdaIOT.Httpd.Session

/-!
# The session table

A history of the table is a list of calls with the ticks at which they are made. It keeps,
next to the table, what the table itself forgets: for each slot the tick of the last
activity and the tick of the login. Expiry and uniqueness of the tokens are both judged
against these two.

Expiry fails for a session on which nothing was sent since the login: `_tLastSent = 0`
counts as no time at all, and the smaller of the two times decides. Uniqueness fails when
two logins see the same low 32 bits of the tick.
-/

namespace Httpd

open CMem

/-! ## Histories -/

/-- A call on the session table. -/
inductive SessionOp where
  | create (remoteIP : Nat)
  | received (i : Nat)
  | sent (i : Nat)
  | kill (i : Nat)
  | check (timeout : Int)
  | clearAll

/-- The table with its past: when each slot was last active, and when it was created. -/
structure SessionHistory where
  table : List Session
  active : List Nat
  created : List Nat

def setupHistory : SessionHistory :=
  ⟨setupSession, List.replicate maxSessions 0, List.replicate maxSessions 0⟩

/-- One call at `tick`. -/
def SessionHistory.step (h : SessionHistory) (tick : Nat) : SessionOp → SessionHistory
  | .create remoteIP =>
    match sessionCreate h.table tick remoteIP with
    | (table, some i) => ⟨table, h.active.set i tick, h.created.set i tick⟩
    | (table, none) => { h with table := table }
  | .received i =>
    { h with table := sessionReceived h.table (some i) tick, active := h.active.set i tick }
  | .sent i => { h with table := sessionSent h.table (some i) tick, active := h.active.set i tick }
  | .kill i => { h with table := sessionKill h.table (some i) }
  | .check timeout => { h with table := sessionCheck h.table tick timeout }
  | .clearAll => { h with table := setupSession }

/-- The history after a list of calls. -/
def sessionRun (ops : List (Nat × SessionOp)) : SessionHistory :=
  ops.foldl (fun h op => h.step op.1 op.2) setupHistory

/-- The slot holds a session. -/
def Session.Live (s : Session) : Prop := s.token ≠ []

instance (s : Session) : Decidable s.Live := inferInstanceAs (Decidable (_ ≠ _))

theorem sessionRun_append (ops : List (Nat × SessionOp)) (op : Nat × SessionOp) :
    sessionRun (ops ++ [op]) = (sessionRun ops).step op.1 op.2 := by
  simp [sessionRun]

/-! ## What the calls do to a slot -/

theorem not_live_emptySession : ¬ emptySession.Live := fun h => h rfl

theorem live_iff_isEmpty {s : Session} : s.Live ↔ s.token.isEmpty = false := by
  cases hs : s.token <;> simp [Session.Live, hs]

/-- Creating a session fills the first free slot. -/
theorem sessionCreate_spec (ss : List Session) (tick remoteIP : Nat) :
    (∃ i s, ss[i]? = some s ∧ ¬ s.Live ∧ sessionCreate ss tick remoteIP =
        (ss.set i ⟨cookieOf tick, remoteIP, tickOrOne tick, 0⟩, some i)) ∨
      ((∀ s ∈ ss, s.Live) ∧ sessionCreate ss tick remoteIP = (ss, none)) := by
  cases hfind : ss.findIdx? fun s => s.token.isEmpty with
  | some i =>
    obtain ⟨hi, hfree, -⟩ := List.findIdx?_eq_some_iff_getElem.mp hfind
    refine .inl ⟨i, ss[i], List.getElem?_eq_getElem hi, ?_, ?_⟩
    · rw [live_iff_isEmpty]
      simpa using hfree
    · rw [sessionCreate, hfind]
  | none =>
    refine .inr ⟨fun s hs => ?_, ?_⟩
    · rw [live_iff_isEmpty]
      simpa using List.findIdx?_eq_none_iff.mp hfind s hs
    · rw [sessionCreate, hfind]

/-- Touching a slot changes a live session in it, and nothing else. -/
theorem sessionTouch_getElem? {ss : List Session} {i j : Nat} {f : Session → Session} {s : Session}
    (h : (sessionTouch ss (some i) f)[j]? = some s) :
    ∃ t, ss[j]? = some t ∧ (s = t ∧ (i = j → ¬ t.Live) ∨ i = j ∧ t.Live ∧ s = f t) := by
  unfold sessionTouch at h
  dsimp only at h
  split at h
  · rename_i t ht
    split at h
    · rename_i hempty
      refine ⟨s, h, .inl ⟨rfl, fun hij => ?_⟩⟩
      subst hij
      rw [h] at ht
      cases ht
      rw [live_iff_isEmpty, hempty]
      decide
    · rename_i hlive
      by_cases hij : i = j
      · subst hij
        rw [List.getElem?_set_self (List.getElem?_eq_some_iff.mp ht).1] at h
        cases h
        exact ⟨t, ht, .inr ⟨rfl, by rw [live_iff_isEmpty]; simpa using hlive, rfl⟩⟩
      · rw [List.getElem?_set_ne hij] at h
        exact ⟨s, h, .inl ⟨rfl, fun hc => absurd hc hij⟩⟩
  · rename_i hnone
    refine ⟨s, h, .inl ⟨rfl, fun hij => ?_⟩⟩
    subst hij
    rw [hnone] at h
    cases h

@[simp] theorem length_sessionTouch (ss : List Session) (session : Option Nat)
    (f : Session → Session) : (sessionTouch ss session f).length = ss.length := by
  unfold sessionTouch
  split
  · rfl
  · split
    · split
      · rfl
      · exact List.length_set
    · rfl

theorem sessionKill_getElem? {ss : List Session} {i j : Nat} {s : Session}
    (h : (sessionKill ss (some i))[j]? = some s) (hlive : s.Live) : ss[j]? = some s := by
  change (ss.set i emptySession)[j]? = some s at h
  by_cases hij : i = j
  · subst hij
    rw [List.getElem?_set_self (by
      have := (List.getElem?_eq_some_iff.mp h).1
      rwa [List.length_set] at this)] at h
    cases h
    exact absurd hlive not_live_emptySession
  · rwa [List.getElem?_set_ne hij] at h

/-- The idle time that `SessionCheck` compares with the timeout. -/
def idleTime (s : Session) (tick : Nat) : Nat :=
  min (elapsedSince (tickOrOne tick) s.tLastSent) (elapsedSince (tickOrOne tick) s.tLastReceived)

/-- `SessionCheck` clears a live session whose idle time is over the timeout. -/
def expired (s : Session) (tick : Nat) (timeout : Int) : Prop :=
  s.Live ∧ 0 < timeout ∧ timeout < (idleTime s tick : Int)

theorem sessionCheck_getElem? {ss : List Session} {tick j : Nat} {timeout : Int} {s : Session}
    (h : ss[j]? = some s) :
    (expired s tick timeout → (sessionCheck ss tick timeout)[j]? = some emptySession) ∧
      (¬ expired s tick timeout → (sessionCheck ss tick timeout)[j]? = some s) := by
  have hmap : (sessionCheck ss tick timeout)[j]? =
      some (if !s.token.isEmpty && 0 < timeout && timeout < (idleTime s tick : Int)
        then emptySession else s) := by
    rw [sessionCheck, List.getElem?_map, h]
    rfl
  have hcond : (!s.token.isEmpty && 0 < timeout && timeout < (idleTime s tick : Int)) = true ↔
      expired s tick timeout := by
    simp [expired, live_iff_isEmpty, and_assoc]
  constructor
  · intro he
    rw [hmap, if_pos (hcond.mpr he)]
  · intro he
    rw [hmap, if_neg fun hc => he (hcond.mp hc)]

theorem sessionCheck_live {ss : List Session} {tick j : Nat} {timeout : Int} {s : Session}
    (h : (sessionCheck ss tick timeout)[j]? = some s) (hlive : s.Live) :
    ss[j]? = some s ∧ ¬ expired s tick timeout := by
  cases hj : ss[j]? with
  | none =>
    rw [sessionCheck, List.getElem?_map, hj] at h
    cases h
  | some t =>
    by_cases he : expired t tick timeout
    · rw [(sessionCheck_getElem? hj).1 he] at h
      cases h
      exact absurd hlive not_live_emptySession
    · rw [(sessionCheck_getElem? hj).2 he] at h
      cases h
      exact ⟨rfl, he⟩

theorem getElem?_setupSession_live {j : Nat} {s : Session} (h : setupSession[j]? = some s) :
    ¬ s.Live := by
  rw [List.eq_of_mem_replicate (List.mem_of_getElem? h)]
  exact not_live_emptySession

/-! ## The invariant of a history -/

/-- The two ticks of a live session against its past: the later one is the last activity. -/
structure SlotInv (now : Nat) (s : Session) (active created : Nat) : Prop where
  past : active ≤ now
  token : s.token = cookieOf created
  received : s.tLastReceived ≠ 0
  last : max s.tLastReceived s.tLastSent = tickOrOne active

structure HistoryInv (now : Nat) (h : SessionHistory) : Prop where
  lengthTable : h.table.length = maxSessions
  lengthActive : h.active.length = maxSessions
  lengthCreated : h.created.length = maxSessions
  slot : ∀ i s, h.table[i]? = some s → s.Live →
    SlotInv now s (h.active.getD i 0) (h.created.getD i 0)

theorem tickOrOne_pos (t : Nat) : tickOrOne t ≠ 0 := by
  unfold tickOrOne
  split
  · decide
  · assumption

theorem tickOrOne_mono {a b : Nat} (h : a ≤ b) : tickOrOne a ≤ tickOrOne b := by
  unfold tickOrOne
  split <;> split <;> omega

theorem historyInv_setup (now : Nat) : HistoryInv now setupHistory where
  lengthTable := List.length_replicate ..
  lengthActive := List.length_replicate ..
  lengthCreated := List.length_replicate ..
  slot := fun _ _ h hl => absurd hl (getElem?_setupSession_live h)

theorem HistoryInv.later {now now' : Nat} {h : SessionHistory} (hi : HistoryInv now h)
    (hle : now ≤ now') : HistoryInv now' h where
  lengthTable := hi.lengthTable
  lengthActive := hi.lengthActive
  lengthCreated := hi.lengthCreated
  slot := fun i s h hl =>
    { hi.slot i s h hl with past := (hi.slot i s h hl).past.trans hle }

/-- Activity at `tick` on slot `i`: a touch keeps the token, and sets one of the ticks. -/
theorem historyInv_touch {tick i : Nat} {h : SessionHistory} {f : Session → Session}
    (hi : HistoryInv tick h) (htoken : ∀ s, (f s).token = s.token)
    (hrecv : ∀ s, s.tLastReceived ≠ 0 → (f s).tLastReceived ≠ 0)
    (hlast : ∀ s, s.tLastReceived ≤ tickOrOne tick → s.tLastSent ≤ tickOrOne tick →
      max (f s).tLastReceived (f s).tLastSent = tickOrOne tick) :
    HistoryInv tick
      { h with table := sessionTouch h.table (some i) f, active := h.active.set i tick } where
  lengthTable := by
    rw [length_sessionTouch]
    exact hi.lengthTable
  lengthActive := List.length_set.trans hi.lengthActive
  lengthCreated := hi.lengthCreated
  slot := fun j s hj hl => by
    obtain ⟨t, ht, ⟨rfl, hdead⟩ | ⟨rfl, hlive, rfl⟩⟩ := sessionTouch_getElem? hj
    · have hne : i ≠ j := fun hij => hdead hij hl
      have hslot := hi.slot j s ht hl
      rwa [show (h.active.set i tick).getD j 0 = h.active.getD j 0 by
        rw [List.getD_eq_getElem?_getD, List.getElem?_set_ne hne, ← List.getD_eq_getElem?_getD]]
    · have hslot := hi.slot i t ht hlive
      have hmax := hslot.last
      have hmono := tickOrOne_mono hslot.past
      have hlt : i < h.active.length := by
        rw [hi.lengthActive, ← hi.lengthTable]
        exact (List.getElem?_eq_some_iff.mp ht).1
      rw [show (h.active.set i tick).getD i 0 = tick by
        rw [List.getD_eq_getElem?_getD, List.getElem?_set_self hlt, Option.getD_some]]
      exact ⟨le_refl _, (htoken t).trans hslot.token, hrecv t hslot.received,
        hlast t (by omega) (by omega)⟩

/-- A call at `tick` keeps the invariant. -/
theorem historyInv_step {tick : Nat} {h : SessionHistory} (op : SessionOp)
    (hi : HistoryInv tick h) : HistoryInv tick (h.step tick op) := by
  cases op with
  | create remoteIP =>
    rcases sessionCreate_spec h.table tick remoteIP with ⟨i, s, hs, hdead, heq⟩ | ⟨-, heq⟩
    · have hlt : i < maxSessions := by
        rw [← hi.lengthTable]
        exact (List.getElem?_eq_some_iff.mp hs).1
      simp only [SessionHistory.step, heq]
      refine ⟨List.length_set.trans hi.lengthTable, List.length_set.trans hi.lengthActive,
        List.length_set.trans hi.lengthCreated, fun j t hj hl => ?_⟩
      by_cases hij : i = j
      · subst hij
        rw [List.getElem?_set_self (by rw [hi.lengthTable]; exact hlt)] at hj
        cases hj
        have hget : ∀ l : List Nat, l.length = maxSessions → (l.set i tick).getD i 0 = tick := by
          intro l hlen
          rw [List.getD_eq_getElem?_getD, List.getElem?_set_self (by rw [hlen]; exact hlt),
            Option.getD_some]
        rw [hget _ hi.lengthActive, hget _ hi.lengthCreated]
        exact ⟨le_refl _, rfl, tickOrOne_pos _, Nat.max_eq_left (Nat.zero_le _)⟩
      · have hget : ∀ l : List Nat, (l.set i tick).getD j 0 = l.getD j 0 := by
          intro l
          rw [List.getD_eq_getElem?_getD, List.getElem?_set_ne hij, ← List.getD_eq_getElem?_getD]
        rw [List.getElem?_set_ne hij] at hj
        rw [hget, hget]
        exact hi.slot j t hj hl
    · simp only [SessionHistory.step, heq]
      exact hi
  | received i =>
    refine historyInv_touch hi (fun _ => rfl) (fun _ _ => tickOrOne_pos _) fun s _ h => ?_
    exact Nat.max_eq_left h
  | sent i =>
    refine historyInv_touch hi (fun _ => rfl) (fun _ h => h) fun s h _ => ?_
    exact Nat.max_eq_right h
  | kill i =>
    refine ⟨List.length_set.trans hi.lengthTable, hi.lengthActive, hi.lengthCreated,
      fun j s hj hl => hi.slot j s (sessionKill_getElem? hj hl) hl⟩
  | check timeout =>
    refine ⟨(List.length_map ..).trans hi.lengthTable, hi.lengthActive, hi.lengthCreated,
      fun j s hj hl => hi.slot j s (sessionCheck_live hj hl).1 hl⟩
  | clearAll =>
    refine ⟨List.length_replicate .., hi.lengthActive, hi.lengthCreated,
      fun j s hj hl => absurd hl (getElem?_setupSession_live hj)⟩

/-- The ticks of the calls do not decrease, and `tick` is not before them. -/
def Ordered (ops : List (Nat × SessionOp)) (tick : Nat) : Prop :=
  (ops.map Prod.fst ++ [tick]).Pairwise (· ≤ ·)

instance (ops : List (Nat × SessionOp)) (tick : Nat) : Decidable (Ordered ops tick) :=
  inferInstanceAs (Decidable (List.Pairwise ..))

theorem Ordered.init {ops : List (Nat × SessionOp)} {op : Nat × SessionOp} {tick : Nat}
    (h : Ordered (ops ++ [op]) tick) : Ordered ops op.1 ∧ op.1 ≤ tick := by
  unfold Ordered at h ⊢
  rw [List.map_append, List.pairwise_append] at h
  exact ⟨h.1, h.2.2 op.1 (by simp) tick (by simp)⟩

/-- The invariant holds after every history. -/
theorem historyInv_run {ops : List (Nat × SessionOp)} {tick : Nat} (h : Ordered ops tick) :
    HistoryInv tick (sessionRun ops) := by
  induction ops using List.reverseRecOn generalizing tick with
  | nil => exact historyInv_setup tick
  | append_singleton ops op ih =>
    rw [sessionRun_append]
    exact (historyInv_step op.2 (ih h.init.1)).later h.init.2

/-! ## Expiry -/

/-- `SessionCheck(tick)` removes the live sessions without activity for more than `timeout`,
and no other. -/
structure ExpiresIdle (h : SessionHistory) (tick : Nat) (timeout : Int) : Prop where
  removed : ∀ i s, (sessionCheck h.table tick timeout)[i]? = some s → s.Live →
    (tick : Int) - h.active.getD i 0 ≤ timeout
  kept : ∀ i s, h.table[i]? = some s → s.Live → (tick : Int) - h.active.getD i 0 ≤ timeout →
    (sessionCheck h.table tick timeout)[i]? = some s

/-- Every session idle for too long has been sent something since its login, and was not
last active at tick 0, which the table stores as 1. -/
def IdleWasSent (h : SessionHistory) (tick : Nat) (timeout : Int) : Prop :=
  ∀ i s, h.table[i]? = some s → s.Live → timeout < (tick : Int) - h.active.getD i 0 →
    s.tLastSent ≠ 0 ∧ ¬(h.active.getD i 0 = 0 ∧ (tick : Int) = timeout + 1)

theorem elapsedSince_of_le {now last : Nat} (h : last ≤ now) :
    elapsedSince now last = if last = 0 then 0 else now - last := by
  unfold elapsedSince
  rw [if_pos h]

/-- The idle time is the time since the last activity, unless nothing was ever sent. -/
theorem SlotInv.idleTime {now active created : Nat} {s : Session}
    (h : SlotInv now s active created) :
    idleTime s now = if s.tLastSent = 0 then 0 else tickOrOne now - tickOrOne active := by
  have hlast := h.last
  have hmono := tickOrOne_mono h.past
  have hr := h.received
  rw [Httpd.idleTime, elapsedSince_of_le (by omega), elapsedSince_of_le (by omega), if_neg hr]
  split
  · exact Nat.zero_min _
  · omega

/-- Which sessions `SessionCheck` removes. -/
theorem SlotInv.expired_iff {now active created : Nat} {s : Session} {timeout : Int}
    (h : SlotInv now s active created) (hl : s.Live) (ht : 0 < timeout) :
    expired s now timeout ↔ timeout < (now : Int) - active ∧
      s.tLastSent ≠ 0 ∧ ¬(active = 0 ∧ (now : Int) = timeout + 1) := by
  have hpast := h.past
  rw [expired, h.idleTime]
  unfold tickOrOne
  constructor
  · rintro ⟨-, -, hlt⟩
    split at hlt
    · omega
    · rename_i hsent
      refine ⟨?_, hsent, ?_⟩ <;> split at hlt <;> split at hlt <;> omega
  · rintro ⟨hlt, hsent, hzero⟩
    refine ⟨hl, ht, ?_⟩
    rw [if_neg hsent]
    split <;> split <;> omega

/-- After any calls, `SessionCheck` does its work exactly when the sessions idle for too long
were sent something. -/
theorem session_expiry {ops : List (Nat × SessionOp)} {tick : Nat} {timeout : Int}
    (hordered : Ordered ops tick) (htimeout : 0 < timeout) :
    ExpiresIdle (sessionRun ops) tick timeout ↔ IdleWasSent (sessionRun ops) tick timeout := by
  have hinv := historyInv_run hordered
  constructor
  · intro hok i s hs hl hidle
    by_cases he : expired s tick timeout
    · exact (((hinv.slot i s hs hl).expired_iff hl htimeout).mp he).2
    · have := hok.removed i s ((sessionCheck_getElem? hs).2 he) hl
      omega
  · intro hcond
    constructor
    · intro i s hs hl
      obtain ⟨hold, he⟩ := sessionCheck_live hs hl
      by_contra hidle
      have hidle' : timeout < (tick : Int) - (sessionRun ops).active.getD i 0 := by omega
      exact he (((hinv.slot i s hold hl).expired_iff hl htimeout).mpr
        ⟨hidle', hcond i s hold hl hidle'⟩)
    · intro i s hs hl hactive
      refine (sessionCheck_getElem? hs).2 fun he => ?_
      have := (((hinv.slot i s hs hl).expired_iff hl htimeout).mp he).1
      omega

/-- A login on which something was sent and received, checked just in time and too late. -/
theorem session_expiry_usedSession :
    ExpiresIdle (sessionRun [(1000, .create 7), (1500, .sent 0), (2000, .received 0)]) 302001
      300000 :=
  (session_expiry (by decide) (by decide)).mpr fun i s hs hl _ => by
    have hi : i < 5 := (List.getElem?_eq_some_iff.mp hs).1
    interval_cases i
    · cases hs
      exact ⟨by decide, fun h => absurd h.1 (by decide)⟩
    all_goals
      cases hs
      exact absurd rfl hl

/-- A session that was never sent anything outlives any timeout. -/
theorem session_expiry_neverSent :
    ¬ ExpiresIdle (sessionRun [(1000, .create 7)]) 1000000000 180000 := fun h =>
  absurd (h.removed 0 ⟨cookieOf 1000, 7, 1000, 0⟩ (by decide) (by decide)) (by decide)

/-! ## Tokens -/

/-- The cookies of two ticks agree exactly when their low 32 bits do. -/
theorem cookieOf_eq_iff (a b : Nat) :
    cookieOf a = cookieOf b ↔ a % 4294967296 = b % 4294967296 := by
  constructor
  · intro h
    have hvalue : ∀ n : Nat, positionalValue 16 (zeroPad 8 (hexUpper n)) = n := fun n => by
      rw [positionalValue_zeroPad]
      exact positionalValue_positional n (by decide) (by decide)
    have h' := congrArg (positionalValue 16) (List.append_cancel_left h)
    rwa [hvalue, hvalue] at h'
  · intro h
    rw [cookieOf, cookieOf, h]

/-- The live session that `cookie` names, and no live session with another token. -/
structure NamesSession (ss : List Session) (cookie : Bytes) (s : Session) : Prop where
  named : (strstr cookie s.token).isSome
  only : ∀ t ∈ ss, t.Live → (strstr cookie t.token).isSome → t.token = s.token

/-- Live sessions have different tokens, and each is found by its own. -/
structure TokensUnique (ss : List Session) : Prop where
  distinct : ∀ (i j : Nat) (s t : Session), ss[i]? = some s → ss[j]? = some t → s.Live → t.Live →
    s.token = t.token → i = j
  found : ∀ (i : Nat) (s : Session) (cookie : Bytes), ss[i]? = some s → s.Live → NamesSession ss cookie s →
    getSession ss cookie = some i

/-- Lookup is right as soon as the tokens are different. -/
theorem getSession_of_distinct {ss : List Session}
    (h : ∀ (i j : Nat) (s t : Session), ss[i]? = some s → ss[j]? = some t → s.Live → t.Live →
      s.token = t.token → i = j) : TokensUnique ss where
  distinct := h
  found := fun i s cookie hs hl hnames => by
    have hcookie : (cstr cookie).isEmpty = false := by
      obtain ⟨k, hk⟩ := Option.isSome_iff_exists.mp hnames.named
      have hle := findSub_le hk
      have hpos := List.length_pos_iff.mpr hl
      cases hc : cstr cookie with
      | nil =>
        rw [hc, List.length_nil] at hle
        omega
      | cons => rfl
    have hi := (List.getElem?_eq_some_iff.mp hs)
    rw [getSession, hcookie, if_neg (by decide), List.findIdx?_eq_some_iff_getElem]
    refine ⟨hi.1, ?_, fun j hji => ?_⟩
    · rw [hi.2, live_iff_isEmpty.mp hl, hnames.named]
      rfl
    · -- an earlier match would be another live session with the same token
      intro hmatch
      rw [Bool.and_eq_true, Bool.not_eq_true'] at hmatch
      have hlt : j < ss.length := hji.trans hi.1
      have hlive : ss[j].Live := live_iff_isEmpty.mpr hmatch.1
      have htoken := hnames.only ss[j] (List.getElem_mem hlt) hlive hmatch.2
      have := h j i ss[j] s (List.getElem?_eq_getElem hlt) hs hlive hl htoken
      omega

/-- Logins that find a free slot see a tick whose low 32 bits differ from those of the login
of every live session. -/
def FreshLogins (ops : List (Nat × SessionOp)) : Prop :=
  ∀ before tick remoteIP, before ++ [(tick, .create remoteIP)] <+: ops →
    (∃ s ∈ (sessionRun before).table, ¬ s.Live) →
    ∀ i s, (sessionRun before).table[i]? = some s → s.Live →
      (sessionRun before).created.getD i 0 % 4294967296 ≠ tick % 4294967296

/-- What a call does to the set of live tokens: it grows only by a login. -/
theorem step_live {h : SessionHistory} {tick : Nat} {op : SessionOp} {i : Nat} {s : Session}
    (hs : (h.step tick op).table[i]? = some s) (hl : s.Live) :
    (∃ t, h.table[i]? = some t ∧ t.Live ∧ t.token = s.token) ∨
      (∃ remoteIP, op = .create remoteIP ∧ s.token = cookieOf tick ∧
        ∃ t, h.table[i]? = some t ∧ ¬ t.Live) := by
  cases op with
  | create remoteIP =>
    rcases sessionCreate_spec h.table tick remoteIP with ⟨k, t, ht, hdead, heq⟩ | ⟨-, heq⟩
    · simp only [SessionHistory.step, heq] at hs
      by_cases hki : k = i
      · subst hki
        rw [List.getElem?_set_self (List.getElem?_eq_some_iff.mp ht).1] at hs
        cases hs
        exact .inr ⟨remoteIP, rfl, rfl, t, ht, hdead⟩
      · rw [List.getElem?_set_ne hki] at hs
        exact .inl ⟨s, hs, hl, rfl⟩
    · simp only [SessionHistory.step, heq] at hs
      exact .inl ⟨s, hs, hl, rfl⟩
  | received k =>
    obtain ⟨t, ht, ⟨rfl, -⟩ | ⟨-, hlive, rfl⟩⟩ := sessionTouch_getElem? hs
    · exact .inl ⟨s, ht, hl, rfl⟩
    · exact .inl ⟨t, ht, hlive, rfl⟩
  | sent k =>
    obtain ⟨t, ht, ⟨rfl, -⟩ | ⟨-, hlive, rfl⟩⟩ := sessionTouch_getElem? hs
    · exact .inl ⟨s, ht, hl, rfl⟩
    · exact .inl ⟨t, ht, hlive, rfl⟩
  | kill k => exact .inl ⟨s, sessionKill_getElem? hs hl, hl, rfl⟩
  | check timeout => exact .inl ⟨s, (sessionCheck_live hs hl).1, hl, rfl⟩
  | clearAll => exact absurd hl (getElem?_setupSession_live hs)

/-- One call keeps the tokens different, if a login is fresh. -/
theorem tokensUnique_step {h : SessionHistory} {tick now : Nat} {op : SessionOp}
    (hi : HistoryInv now h) (hu : TokensUnique h.table)
    (hfresh : ∀ remoteIP, op = .create remoteIP → (∃ s ∈ h.table, ¬ s.Live) →
      ∀ i s, h.table[i]? = some s → s.Live →
        h.created.getD i 0 % 4294967296 ≠ tick % 4294967296) :
    TokensUnique (h.step tick op).table := by
  -- a new token differs from every old one
  have hnew : ∀ (i : Nat) (s t : Session), h.table[i]? = some s → s.Live → (∃ remoteIP, op = .create remoteIP) →
      (∃ j : Nat, h.table[j]? = some t ∧ ¬ t.Live) → s.token ≠ cookieOf tick := by
    intro i s t hs hl ⟨remoteIP, hop⟩ ⟨j, hj, hdead⟩ heq
    rw [(hi.slot i s hs hl).token, cookieOf_eq_iff] at heq
    exact hfresh remoteIP hop ⟨t, List.mem_of_getElem? hj, hdead⟩ i s hs hl heq
  refine getSession_of_distinct fun i j s t hs ht hsl htl htoken => ?_
  rcases step_live hs hsl with ⟨s', hs', hsl', hst⟩ | ⟨ip, hop, hst, s', hs', hdead⟩
  · rcases step_live ht htl with ⟨t', ht', htl', htt⟩ | ⟨ip, hop, htt, t', ht', hdead⟩
    · exact hu.distinct i j s' t' hs' ht' hsl' htl' (hst.trans (htoken.trans htt.symm))
    · exact absurd (hst.trans (htoken.trans htt)) (hnew i s' t' hs' hsl' ⟨ip, hop⟩ ⟨j, ht', hdead⟩)
  · rcases step_live ht htl with ⟨t', ht', htl', htt⟩ | ⟨ip', hop', htt, t', ht', hdead'⟩
    · exact absurd (htt.trans (htoken.symm.trans hst))
        (hnew j t' s' ht' htl' ⟨ip, hop⟩ ⟨i, hs', hdead⟩)
    · -- both are the one slot that the login filled
      subst hop
      rcases sessionCreate_spec h.table tick ip with ⟨k, -, -, -, heq⟩ | ⟨hall, -⟩
      · simp only [SessionHistory.step, heq] at hs ht
        have hk : ∀ (n : Nat) (u v : Session), (h.table.set k ⟨cookieOf tick, ip, tickOrOne tick, 0⟩)[n]? = some u →
            u.Live → h.table[n]? = some v → ¬ v.Live → n = k := by
          intro n u v hu' hul hv hvd
          by_contra hne
          rw [List.getElem?_set_ne (Ne.symm hne), hv] at hu'
          cases hu'
          exact hvd hul
        exact (hk i s s' hs hsl hs' hdead).trans (hk j t t' ht htl ht' hdead').symm
      · exact absurd (hall s' (List.mem_of_getElem? hs')) hdead

/-- In a history of calls the tokens stay different exactly as long as the logins are
fresh. -/
theorem session_tokens_unique {ops : List (Nat × SessionOp)} {tick : Nat}
    (hordered : Ordered ops tick) :
    (∀ before, before <+: ops → TokensUnique (sessionRun before).table) ↔ FreshLogins ops := by
  have hsub : ∀ {before : List (Nat × SessionOp)}, before <+: ops → ∃ t, Ordered before t := by
    rintro before ⟨rest, rfl⟩
    refine ⟨tick, ?_⟩
    unfold Ordered at hordered ⊢
    refine hordered.sublist ?_
    rw [List.map_append, List.append_assoc]
    exact (List.Sublist.refl _).append (List.sublist_append_right ..)
  constructor
  · intro hall before now remoteIP hfront ⟨free, hmem, hdead⟩ i s hs hl heq
    obtain ⟨t, ht⟩ := hsub ((List.prefix_append ..).trans hfront)
    have hafter := hall _ hfront
    rw [sessionRun_append] at hafter
    rcases sessionCreate_spec (sessionRun before).table now remoteIP with
      ⟨k, u, hu, hudead, hcreate⟩ | ⟨hfull, -⟩
    · simp only [SessionHistory.step, hcreate] at hafter
      have hki : k ≠ i := fun h => by
        subst h
        rw [hu] at hs
        cases hs
        exact hudead hl
      have hk := hafter.distinct k i ⟨cookieOf now, remoteIP, tickOrOne now, 0⟩ s
        (List.getElem?_set_self (List.getElem?_eq_some_iff.mp hu).1)
        (by rw [List.getElem?_set_ne hki]; exact hs) (List.cons_ne_nil _ _) hl (by
          rw [((historyInv_run ht).slot i s hs hl).token]
          exact (cookieOf_eq_iff _ _).mpr heq.symm)
      exact hki hk
    · exact hdead (hfull free hmem)
  · intro hfresh before hfront
    induction before using List.reverseRecOn with
    | nil =>
      exact getSession_of_distinct fun i j s t hs _ hl _ _ =>
        absurd hl (getElem?_setupSession_live hs)
    | append_singleton before op ih =>
      have hbefore : before <+: ops := (List.prefix_append ..).trans hfront
      obtain ⟨t, ht⟩ := hsub hbefore
      rw [sessionRun_append]
      refine tokensUnique_step (historyInv_run ht) (ih hbefore) fun ip hop => ?_
      exact hfresh before op.1 ip (by rw [← hop]; exact hfront)

/-- Two logins a second apart. -/
theorem session_tokens_unique_twoLogins :
    (∀ before, before <+: [(1000, .create 7), (2000, .create 8)] →
      TokensUnique (sessionRun before).table) ↔
    FreshLogins [(1000, .create 7), (2000, .create 8)] :=
  session_tokens_unique (show Ordered _ 2000 by decide)

/-- Two logins at the same tick share a token. -/
theorem session_tokens_shared :
    ¬ TokensUnique (sessionRun [(1000, .create 7), (1000, .create 8)]).table := fun h =>
  absurd (h.distinct 0 1 ⟨cookieOf 1000, 7, 1000, 0⟩ ⟨cookieOf 1000, 8, 1000, 0⟩ (by decide)
    (by decide) (by decide) (by decide) rfl) (by decide)

end Httpd

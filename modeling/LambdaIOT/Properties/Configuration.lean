import LambdaIOT.Properties.FormPieces

/-!
# Saving the configuration

All connections edit `g_TempConfig`. A GET of the form copies the configuration in work over it,
the setters of a posted form change it while the form arrives, and at the end of the form it is
copied back as a whole. So what a completed POST saves is what the setters did to it since it was
last equal to the configuration in work, and that is what the POST says when all these setters
were its own and the configuration in work stayed as it was (`SavesApart`).

`FormServer` runs the callbacks of the form page on any number of connections, in any order. The
setters of the addresses store zero, where a call of `GetIpAddress` is commented out.
-/

namespace Httpd

open CMem

/-! ## The form page on many connections -/

/-- A form that is posted: the context when its header section is complete, the pairs and what
stands for them in the body. -/
structure FormPost where
  h : Request
  r : Response
  form : List (Bytes × Bytes)
  enc : List (Bytes × Bytes)
  encodes : FormEncodes form enc
  post : h.requestMethod = .post
  contentLength : h.contentLength = (formBody enc).length
  alive : r.killing = false
  mem : r.mem.length = memSize

/-- A connection on which a form is posted: what of the body was not accepted yet, and the run of
`WEB_OnFormReceived`. -/
structure Posting where
  post : FormPost
  rest : Bytes
  run : FormRun

/-- The calls of `TAG_Setter` for the posted form. -/
def Posting.calls (q : Posting) : List (Bytes × Bytes) := q.run.offers.flatMap FormOffer.calls

structure FormServer where
  w : World
  posts : Nat → Option Posting

inductive FormEvent where
  /-- The header section of a GET of the form is complete. -/
  | get (h : Request) (r : Response) (hget : h.requestMethod = .get)
  /-- That of a POST on connection `k`. -/
  | post (k : Nat) (p : FormPost)
  /-- `n` bytes of the body are offered. -/
  | segment (k n : Nat)
  /-- The request is complete if its content is. -/
  | complete (k : Nat)
  /-- The connection is lost. -/
  | abort (k : Nat)
  | setLongIP (addr : Nat)
  | setGateway (addr : Nat)
  | setSubnet (addr : Nat)

namespace FormServer

def setPost (s : FormServer) (k : Nat) (q : Option Posting) : FormServer :=
  { s with posts := Function.update s.posts k q }

def setDev (s : FormServer) (dev : Device) : FormServer :=
  { s with w := { s.w with dev := dev } }

/-- The form that the event completes: all of its content was received. -/
def completed (s : FormServer) : FormEvent → Option Posting
  | .complete k => (s.posts k).filter fun q => decide (q.post.h.contentLength ≤ q.run.received)
  | _ => none

/-- A posted form after bytes were offered, in the world `w`. What was not taken is offered
again. -/
def offered (w : World) (q : Posting) (n : Nat) : Posting :=
  let piece := q.rest.take n
  let run := FormRun.offer q.post.h piece.length piece { q.run with c := ⟨w, q.run.c.r⟩ }
  ⟨q.post, q.rest.drop (run.received - q.run.received).toNat, run⟩

def step (s : FormServer) : FormEvent → FormServer
  | .get h r _ => { s with w := (formOnHeadersReceived h ⟨s.w, r⟩).w }
  | .post k p =>
    let c := formOnHeadersReceived p.h ⟨s.w, p.r⟩
    ({ s with w := c.w } : FormServer).setPost k (some ⟨p, formBody p.enc, ⟨0, c, []⟩⟩)
  | .segment k n =>
    match s.posts k with
    | none => s
    | some q => ({ s with w := (offered s.w q n).run.c.w } : FormServer).setPost k (offered s.w q n)
  | .complete k =>
    match s.completed (.complete k) with
    | none => s
    | some q => ({ s with w := (formOnRequestReceived q.post.h ⟨s.w, q.run.c.r⟩).w } :
        FormServer).setPost k none
  | .abort k => s.setPost k none
  | .setLongIP addr => s.setDev (s.w.dev.setLongIP addr)
  | .setGateway addr => s.setDev (s.w.dev.setGateway addr)
  | .setSubnet addr => s.setDev (s.w.dev.setSubnet addr)

def run (s : FormServer) (events : List FormEvent) : FormServer := events.foldl step s

theorem completed_posts {s : FormServer} {k : Nat} {q : Posting}
    (h : s.completed (.complete k) = some q) :
    s.posts k = some q ∧ q.post.h.contentLength ≤ q.run.received := by
  obtain ⟨hpost, hdone⟩ := Option.filter_eq_some_iff.mp h
  exact ⟨hpost, of_decide_eq_true hdone⟩

theorem posts_post (s : FormServer) (k : Nat) (p : FormPost) :
    (s.step (.post k p)).posts k
      = some ⟨p, formBody p.enc, ⟨0, formOnHeadersReceived p.h ⟨s.w, p.r⟩, []⟩⟩ :=
  Function.update_self ..

theorem posts_segment {s : FormServer} {k : Nat} {q : Posting} (h : s.posts k = some q) (n : Nat) :
    (s.step (.segment k n)).posts k = some (offered s.w q n) := by
  rw [step, h]
  exact Function.update_self ..

end FormServer

/-! ## What a form says -/

/-- What a pair of a form says about the configuration. -/
def namedField (name value : Bytes) (c : DeviceConfig) : DeviceConfig :=
  if strEq (ascii "DEV_IP") name then { c with dwIP := getIpAddress value }
  else if strEq (ascii "DEV_GATEWAY") name then { c with dwGateway := getIpAddress value }
  else if strEq (ascii "DEV_SUBNET") name then { c with dwSubnet := getIpAddress value }
  else if strEq (ascii "VAR_SESSION_TIMEOUT") name then
    { c with nSessionTimeout := 60 * 1000 * atol value }
  else
    match gSetters.find? fun t => strEq t.1 name with
    | some t => t.2 value c
    | none => c

/-- The configuration that a completed form leaves: its fields are set, the others stay. -/
def savedForm (form : List (Bytes × Bytes)) (c : DeviceConfig) : DeviceConfig :=
  form.foldl (fun c f => namedField f.1 f.2 c) c

/-- What an event does to the configuration in work: only a completed form and the network change
it. -/
def FormServer.saves (s : FormServer) (c : DeviceConfig) (e : FormEvent) : DeviceConfig :=
  match e with
  | .complete _ => (s.completed e).elim c fun q => savedForm q.post.form c
  | .setLongIP addr => { c with dwIP := addr }
  | .setGateway addr => { c with dwGateway := addr }
  | .setSubnet addr => { c with dwSubnet := addr }
  | _ => c

/-- The configuration after a run, when every completed form is saved and nothing else. -/
def FormServer.savedBy (s : FormServer) (c : DeviceConfig) : List FormEvent → DeviceConfig
  | [] => c
  | e :: events => (s.step e).savedBy (s.saves c e) events

/-! ## The condition -/

/-- What was done since the two configurations were last equal: the calls of `TAG_Setter`, and
whether the network changed the one in work. -/
structure Scratch where
  calls : List (Bytes × Bytes)
  stale : Bool

def Scratch.step (s : FormServer) (g : Scratch) (e : FormEvent) : Scratch :=
  match e with
  | .get .. => ⟨[], false⟩
  | .segment k n =>
    match s.posts k with
    | none => g
    | some q => { g with calls := g.calls ++ (FormServer.offered s.w q n).calls.drop q.calls.length }
  | .complete _ => (s.completed e).elim g fun _ => ⟨[], false⟩
  | .setLongIP _ | .setGateway _ | .setSubnet _ => { g with stale := true }
  | .post .. | .abort _ => g

/-- The setter of the pair stores what the pair says: an address is zero, the minutes of the
timeout are few enough for a `long` of milliseconds. -/
structure StoredAsNamed (f : Bytes × Bytes) : Prop where
  address : strEq (ascii "DEV_IP") f.1 ∨ strEq (ascii "DEV_GATEWAY") f.1 ∨
    strEq (ascii "DEV_SUBNET") f.1 → getIpAddress f.2 = 0
  timeout : strEq (ascii "VAR_SESSION_TIMEOUT") f.1 →
    longMin ≤ 60 * 1000 * atol f.2 ∧ 60 * 1000 * atol f.2 ≤ longMax

/-- The condition on a form: its pairs fit, no escape stands in its body, its calls found their
bytes ended, and its setters store what it says. -/
structure FormSound (q : Posting) : Prop where
  fits : FormFits q.post.enc
  plain : q.post.enc = q.post.form
  ended : ∀ o ∈ q.run.offers, EndedBehind o
  stored : ∀ f ∈ q.post.form, StoredAsNamed f

/-- The condition on an event: a form that is completed is sound, its calls are those that were
made since the configurations were last equal, and the network was quiet since. -/
def SaveCond (s : FormServer) (g : Scratch) (e : FormEvent) : Prop :=
  ∀ q, s.completed e = some q → FormSound q ∧ g.calls = q.calls ∧ g.stale = false

/-- Only the end of a form is held to it. -/
theorem saveCond_incomplete (s : FormServer) (g : Scratch) {e : FormEvent}
    (he : ∀ k, e ≠ .complete k) : SaveCond s g e := by
  cases e with
  | complete k => exact absurd rfl (he k)
  | _ => exact fun q hq => (by cases hq)

/-- Every event of a run meets the condition. -/
def SavesApart (s : FormServer) (g : Scratch) : List FormEvent → Prop
  | [] => True
  | e :: events => SaveCond s g e ∧ SavesApart (s.step e) (g.step s e) events

/-! ## Setters -/

/-- What `TAG_Setter` does to the configuration that is edited. -/
def setField (name value : Bytes) (c : DeviceConfig) : DeviceConfig :=
  match gSetters.find? fun t => strEq t.1 name with
  | some t => t.2 value c
  | none => c

def editConfig (c : DeviceConfig) (calls : List (Bytes × Bytes)) : DeviceConfig :=
  calls.foldl (fun c call => setField call.1 call.2 c) c

theorem tagSetter_eq (d : Device) (name value : Bytes) :
    tagSetter d name value = { d with tempConfig := setField name value d.tempConfig } := by
  rw [tagSetter, setField]
  generalize (gSetters.find? fun t => strEq t.1 name) = found
  cases found <;> rfl

theorem setTags_eq (d : Device) (calls : List (Bytes × Bytes)) :
    setTags d calls = { d with tempConfig := editConfig d.tempConfig calls } := by
  induction calls generalizing d with
  | nil => rfl
  | cons call calls ih =>
    change setTags (tagSetter d call.1 call.2) calls = _
    rw [ih, tagSetter_eq]
    rfl

theorem editConfig_append (c : DeviceConfig) (calls more : List (Bytes × Bytes)) :
    editConfig c (calls ++ more) = editConfig (editConfig c calls) more := by
  rw [editConfig, List.foldl_append]
  rfl

theorem cstr_cstr (s : Bytes) : cstr (cstr s) = cstr s := cstr_eq_self (noNul_cstr s)

theorem atol_cstr (s : Bytes) : atol (cstr s) = atol s := by rw [atol, atol, cstr_cstr]

/-- A setter reads its arguments as strings. -/
theorem setField_strings (name value : Bytes) (c : DeviceConfig) :
    setField name value c = setField (cstr name) (cstr value) c := by
  have htext : setText (cstr value) = setText value := by
    rw [setText, setText, strncpy, strncpy, cstr_cstr]
  have hvalue : ∀ t ∈ gSetters, t.2 value c = t.2 (cstr value) c := by
    simp [gSetters, atol_cstr, htext]
  have hname : (fun t : Bytes × (Bytes → DeviceConfig → DeviceConfig) => strEq t.1 name)
      = fun t => strEq t.1 (cstr name) := by
    funext t
    rw [strEq, strEq, cstr_cstr]
  rw [setField, setField, ← hname]
  split
  · rename_i t ht
    exact hvalue t (List.mem_of_find?_eq_some ht)
  · rfl

theorem editConfig_strings (c : DeviceConfig) (calls : List (Bytes × Bytes)) :
    editConfig c calls = editConfig c (calls.map callStrings) := by
  induction calls generalizing c with
  | nil => rfl
  | cons call calls ih =>
    change editConfig (setField call.1 call.2 c) calls
      = editConfig (setField (cstr call.1) (cstr call.2) c) (calls.map callStrings)
    rw [setField_strings, ih]

/-- The setter of a pair does what the pair says. -/
theorem setField_named {f : Bytes × Bytes} (hf : StoredAsNamed f) (c : DeviceConfig) :
    setField f.1 f.2 c = namedField f.1 f.2 c := by
  have hname : ∀ {t : Bytes}, strEq t f.1 = true → cstr f.1 = cstr t :=
    fun ht => (eq_of_beq ht).symm
  rw [namedField]
  split
  · rename_i h
    rw [hf.address (.inl h), setField_strings, hname h]
    rfl
  split
  · rename_i h
    rw [hf.address (.inr (.inl h)), setField_strings, hname h]
    rfl
  split
  · rename_i h
    rw [hf.address (.inr (.inr h)), setField_strings, hname h]
    rfl
  split
  · rename_i h
    obtain ⟨hmin, hmax⟩ := hf.timeout h
    rw [setField_strings, hname h]
    change { c with nSessionTimeout := wrapLong (60 * 1000 * atol (cstr f.2)) } = _
    rw [atol_cstr, wrapLong_of_fits hmin hmax]
  · rfl

theorem editConfig_named {form : List (Bytes × Bytes)} (hform : ∀ f ∈ form, StoredAsNamed f)
    (c : DeviceConfig) : editConfig c form = savedForm form c := by
  induction form generalizing c with
  | nil => rfl
  | cons f form ih =>
    change editConfig (setField f.1 f.2 c) form = savedForm form (namedField f.1 f.2 c)
    rw [setField_named (hform f (by simp)), ih fun g hg => hform g (by simp [hg])]

/-! ## Bytes of a posted form -/

/-- The calls of `TAG_Setter` that the device has seen while a piece was offered. -/
theorem offer_dev (h : Request) (rounds : Nat) (piece : Bytes) (run : FormRun) :
    (run.offer h rounds piece).c.w.dev = setTags run.c.w.dev
      (((run.offer h rounds piece).offers.drop run.offers.length).flatMap FormOffer.calls) := by
  induction rounds generalizing piece run with
  | zero =>
    rw [FormRun.offer, List.drop_length]
    rfl
  | succ rounds ih =>
    by_cases hne : piece = []
    · rw [FormRun.offer, if_pos hne, List.drop_length]
      rfl
    · obtain ⟨more, hmore⟩ := offers_initial (h := h) rounds (piece.drop (webOnFormReceived
        (run.next h piece).h (run.next h piece).c piece piece.length).2.toNat) (run.step h piece)
      have hstep : (run.step h piece).offers = run.offers ++ [run.next h piece] := rfl
      rw [offer_succ rounds hne, ih, ← hmore, List.drop_left, hstep, List.append_assoc,
        List.drop_left, List.flatMap_append, List.flatMap_singleton]
      change setTags (webOnFormReceived (run.next h piece).h (run.next h piece).c
        (run.next h piece).piece (run.next h piece).piece.length).1.w.dev _ = _
      rw [webOnFormReceived_calls]
      exact (List.foldl_append ..).symm

/-- Offered bytes: the calls go on, and the device has seen the new ones. -/
theorem offered_calls (w : World) (q : Posting) (n : Nat) :
    ∃ more, (FormServer.offered w q n).calls = q.calls ++ more ∧
      (FormServer.offered w q n).run.c.w.dev = setTags w.dev more := by
  let start : FormRun := { q.run with c := ⟨w, q.run.c.r⟩ }
  obtain ⟨offers, hoffers⟩ := offers_initial (h := q.post.h) (q.rest.take n).length (q.rest.take n)
    start
  refine ⟨offers.flatMap FormOffer.calls, ?_, ?_⟩
  · change (start.offer q.post.h _ _).offers.flatMap FormOffer.calls = _
    rw [← hoffers, List.flatMap_append]
    rfl
  · have hdev := offer_dev q.post.h (q.rest.take n).length (q.rest.take n) start
    rw [← hoffers, List.drop_left] at hdev
    exact hdev

/-- A run has received what is not still to come. -/
theorem Parsed.received {h : Request} {form : List (Bytes × Bytes)} {run : FormRun} {rest : Bytes}
    (hrun : Parsed h form run rest) : run.received + rest.length = h.contentLength := by
  rcases hrun with ⟨done, todo, t, hrun⟩ | hrun
  · exact hrun.received
  · rw [hrun.received, hrun.rest]
    simp

/-- The globals are no part of where a run is. -/
theorem Parsed.world {h : Request} {form : List (Bytes × Bytes)} {run : FormRun} {rest : Bytes}
    (hrun : Parsed h form run rest) (w : World) :
    Parsed h form { run with c := ⟨w, run.c.r⟩ } rest := by
  rcases hrun with ⟨done, todo, t, hrun⟩ | hrun
  · exact .inl ⟨done, todo, t, hrun.pairs, hrun.body, hrun.more, hrun.begun, hrun.received,
      hrun.left, hrun.mem, hrun.length, hrun.alive, hrun.strings⟩
  · exact .inr ⟨hrun.rest, hrun.received, hrun.strings⟩

/-- Where the run of a posted form is, if its calls found their bytes ended. -/
def Posting.Goes (q : Posting) : Prop :=
  FormFits q.post.enc → (∀ o ∈ q.run.offers, EndedBehind o) →
    Parsed q.post.h q.post.enc q.run q.rest

theorem Posting.Goes.start (w : World) (p : FormPost) :
    Posting.Goes ⟨p, formBody p.enc, ⟨0, webOnFormHeaders ⟨w, p.r⟩, []⟩⟩ := by
  intro hfits _
  exact FormStart.parsed ⟨hfits, p.post, p.contentLength, p.alive, p.mem⟩

theorem Posting.Goes.offered {q : Posting} (hq : q.Goes) (w : World) (n : Nat) :
    (FormServer.offered w q n).Goes := by
  intro hfits hended
  have hbefore : ∀ o ∈ q.run.offers, EndedBehind o := fun o ho =>
    hended o ((offers_initial (h := q.post.h) _ _ { q.run with c := ⟨w, q.run.c.r⟩ }).subset ho)
  have hstart := hq hfits hbefore
  have hgo := (hstart.world w).offer (q.rest.take n).length hfits q.post.post
    (List.take_prefix n q.rest) (le_refl _) hended
  have hreceived : (FormServer.offered w q n).run.received
      + (q.rest.drop (q.rest.take n).length).length = q.post.h.contentLength := hgo.received
  have hrest : (FormServer.offered w q n).rest = q.rest.drop (q.rest.take n).length := by
    have hbegun := hstart.received
    have hlen : (q.rest.take n).length ≤ q.rest.length := List.length_take_le' ..
    have hcount : (FormServer.offered w q n).run.received - q.run.received
        = (q.rest.take n).length := by
      rw [List.length_drop] at hreceived
      omega
    change q.rest.drop ((FormServer.offered w q n).run.received - q.run.received).toNat = _
    rw [hcount, Int.toNat_natCast]
  rw [hrest]
  exact hgo

/-- All the content is received: the calls were those of the pairs. -/
theorem Posting.Goes.complete {q : Posting} (hq : q.Goes) (hsound : FormSound q)
    (hdone : q.post.h.contentLength ≤ q.run.received) :
    q.calls.map callStrings = q.post.form := by
  have hstrings : q.post.enc.map formStrings = q.post.form :=
    (FormEncodes.strings q.post.encodes).mpr hsound.plain
  rcases hq hsound.fits hsound.ended with ⟨done, todo, t, hrun⟩ | hrun
  · have hreceived := hrun.received
    have hmore := List.length_pos_iff.mpr hrun.more
    omega
  · exact hrun.strings.trans hstrings

/-! ## The invariant -/

/-- The configuration that is edited is the one in work with the calls since then, and every
posted form is where its bytes are. -/
structure Synced (s : FormServer) (g : Scratch) : Prop where
  edited : g.stale = false → s.w.dev.tempConfig = editConfig s.w.dev.workConfig g.calls
  goes : ∀ k q, s.posts k = some q → q.Goes

/-- A form that was put on a connection. -/
theorem Synced.update {s : FormServer} {g : Scratch} (hs : Synced s g) {k : Nat}
    {q : Option Posting} (hq : ∀ q' ∈ q, q'.Goes) (j : Nat) (p : Posting)
    (hp : Function.update s.posts k q j = some p) : p.Goes := by
  by_cases hj : j = k
  · rw [hj, Function.update_self] at hp
    exact hq p hp
  · rw [Function.update_of_ne hj] at hp
    exact hs.goes j p hp

theorem webFileOpened_dev (h : Request) (c : Call) (x : SSIContext) :
    (webFileOpened h c x).w.dev = c.w.dev := by
  rw [webFileOpened]
  split
  · rfl
  · rename_i fs flag _
    dsimp only
    generalize (if flag.isSome = true then (fs.webFseek x.fp 0).getD fs else fs) = fs'
    split <;> rfl

/-- `Form_OnRequestReceived` copies the edited configuration. -/
theorem formOnRequestReceived_dev {h : Request} (hpost : h.requestMethod = .post) (c : Call) :
    (formOnRequestReceived h c).w.dev = c.w.dev.appyConfig := by
  have hdev : (webRequestReceived h c).w.dev = c.w.dev := by
    rw [webRequestReceived]
    dsimp only
    split
    · exact webFileOpened_dev ..
    · rfl
  rw [formOnRequestReceived]
  dsimp only
  rw [if_pos hpost]
  change (webRequestReceived h c).w.dev.appyConfig = _
  rw [hdev]

/-- A step keeps the invariant and does to the configuration in work what it should. -/
theorem Synced.step {s : FormServer} {g : Scratch} (hs : Synced s g) {e : FormEvent}
    (hcond : SaveCond s g e) : Synced (s.step e) (g.step s e) ∧
      (s.step e).w.dev.workConfig = s.saves s.w.dev.workConfig e := by
  cases e with
  | get h r hget =>
    have hdev : (s.step (.get h r hget)).w.dev = s.w.dev.loadConfig4Edit := by
      change (formOnHeadersReceived h ⟨s.w, r⟩).w.dev = _
      rw [formOnHeadersReceived, if_pos hget]
      rfl
    refine ⟨⟨fun _ => ?_, hs.goes⟩, ?_⟩
    · rw [hdev]
      rfl
    · rw [hdev]
      rfl
  | post k p =>
    have hcall : formOnHeadersReceived p.h ⟨s.w, p.r⟩ = webOnFormHeaders ⟨s.w, p.r⟩ := by
      rw [formOnHeadersReceived, if_neg (by rw [p.post]; decide)]
    constructor
    · constructor
      · rw [FormServer.step, hcall]
        exact hs.edited
      · intro j q hq
        refine hs.update (fun q' hq' => ?_) j q hq
        obtain rfl := Option.some.inj hq'
        rw [hcall]
        exact .start s.w p
    · rw [FormServer.step, hcall]
      rfl
  | segment k n =>
    rw [FormServer.step, Scratch.step]
    cases hq : s.posts k with
    | none => exact ⟨hs, rfl⟩
    | some q =>
      obtain ⟨more, hcalls, hdev⟩ := offered_calls s.w q n
      rw [setTags_eq] at hdev
      constructor
      · constructor
        · intro hstale
          change (FormServer.offered s.w q n).run.c.w.dev.tempConfig
            = editConfig (FormServer.offered s.w q n).run.c.w.dev.workConfig (g.calls ++ _)
          rw [hdev, hcalls, List.drop_left, editConfig_append]
          exact congrArg (editConfig · more) (hs.edited hstale)
        · intro j p hp
          refine hs.update (fun q' hq' => ?_) j p hp
          obtain rfl := Option.some.inj hq'
          exact (hs.goes k q hq).offered s.w n
      · change (FormServer.offered s.w q n).run.c.w.dev.workConfig = _
        rw [hdev]
        rfl
  | complete k =>
    rw [FormServer.step, Scratch.step, FormServer.saves]
    cases hq : s.completed (.complete k) with
    | none => exact ⟨hs, rfl⟩
    | some q =>
      obtain ⟨hsound, hcalls, hstale⟩ := hcond q hq
      obtain ⟨hpost, hdone⟩ := FormServer.completed_posts hq
      have hstrings := (hs.goes k q hpost).complete hsound hdone
      have hdev := formOnRequestReceived_dev q.post.post ⟨s.w, q.run.c.r⟩
      constructor
      · constructor
        · intro _
          change (formOnRequestReceived _ _).w.dev.tempConfig = (formOnRequestReceived _ _).w.dev.workConfig
          rw [hdev]
          rfl
        · exact hs.update (by simp)
      · change (formOnRequestReceived _ _).w.dev.workConfig = savedForm q.post.form _
        rw [hdev]
        change s.w.dev.tempConfig = _
        rw [hs.edited hstale, hcalls, editConfig_strings, hstrings, editConfig_named hsound.stored]
  | abort k => exact ⟨⟨hs.edited, hs.update (by simp)⟩, rfl⟩
  | setLongIP addr => exact ⟨⟨fun hno => (by cases hno), hs.goes⟩, rfl⟩
  | setGateway addr => exact ⟨⟨fun hno => (by cases hno), hs.goes⟩, rfl⟩
  | setSubnet addr => exact ⟨⟨fun hno => (by cases hno), hs.goes⟩, rfl⟩

/-- In a run whose forms are saved apart, the configuration in work is what the completed forms
and the network made of it. -/
theorem configuration_saved (s : FormServer) (events : List FormEvent)
    (hidle : ∀ k, s.posts k = none) (hsync : s.w.dev.tempConfig = s.w.dev.workConfig)
    (hapart : SavesApart s ⟨[], false⟩ events) :
    (s.run events).w.dev.workConfig = s.savedBy s.w.dev.workConfig events := by
  have hall : ∀ (s : FormServer) (g : Scratch), Synced s g → SavesApart s g events →
      (s.run events).w.dev.workConfig = s.savedBy s.w.dev.workConfig events := by
    clear hidle hsync hapart s
    induction events with
    | nil => exact fun _ _ _ _ => rfl
    | cons e events ih =>
      rintro s g hs ⟨hcond, hapart⟩
      obtain ⟨hnext, hwork⟩ := hs.step hcond
      have hrest := ih (s.step e) (g.step s e) hnext hapart
      rw [hwork] at hrest
      exact hrest
  refine hall s ⟨[], false⟩ ⟨fun _ => hsync, fun k q hq => ?_⟩ hapart
  rw [hidle k] at hq
  cases hq

/-! ## Two runs -/

/-- A posted form without escapes. -/
def plainPost (form : List (Bytes × Bytes)) (hform : FormEncodes form form) : FormPost where
  h := postRequest (formBody form).length
  r := setupContext.toResponse
  form := form
  enc := form
  encodes := hform
  post := rfl
  contentLength := rfl
  alive := rfl
  mem := List.length_replicate

def idleServer : FormServer := ⟨plainWorld, fun _ => none⟩

/-- A form with a second field, which is lost behind the first. -/
def lostPost : FormPost := plainPost [(ascii "VAR_LOG", ascii "1"), (ascii "VAR_FONT", ascii "2")]
  (.cons ⟨encodes_plain (by decide), encodes_plain (by decide)⟩
    (.cons ⟨encodes_plain (by decide), encodes_plain (by decide)⟩ .nil))

def colorPost : FormPost := plainPost [(ascii "VAR_COLOR", ascii "3")]
  (.cons ⟨encodes_plain (by decide), encodes_plain (by decide)⟩ .nil)

/-- A form is lost in the middle, the network sets the address, the page is read again, and a
form is posted in two segments on another connection. -/
def colorEvents : List FormEvent :=
  [.post 0 lostPost, .segment 0 10, .abort 0, .setLongIP 0x0A000005,
    .get { postRequest 0 with requestMethod := .get } setupContext.toResponse rfl,
    .post 1 colorPost, .segment 1 5, .segment 1 100, .complete 1]

theorem colorEvents_apart : SavesApart idleServer ⟨[], false⟩ colorEvents := by
  simp only [colorEvents, SavesApart]
  refine ⟨saveCond_incomplete _ _ (by simp), saveCond_incomplete _ _ (by simp),
    saveCond_incomplete _ _ (by simp), saveCond_incomplete _ _ (by simp),
    saveCond_incomplete _ _ (by simp), saveCond_incomplete _ _ (by simp),
    saveCond_incomplete _ _ (by simp), saveCond_incomplete _ _ (by simp), ?_, trivial⟩
  intro q hq
  have hposts := (FormServer.completed_posts hq).1
  rw [FormServer.posts_segment (FormServer.posts_segment (FormServer.posts_post ..) 5) 100]
    at hposts
  obtain rfl := Option.some.inj hposts
  refine ⟨⟨?_, rfl, by decide +kernel, ?_⟩, by decide +kernel, by decide +kernel⟩
  · intro f hf
    obtain rfl := List.mem_singleton.mp hf
    exact ⟨⟨by decide, by decide, by decide, by decide, by decide⟩, by decide⟩
  · intro f hf
    obtain rfl := List.mem_singleton.mp hf
    exact ⟨by decide, by decide⟩

/-- The address and the color are saved, and nothing of the form that was lost. -/
theorem configuration_saved_color :
    let config := (idleServer.run colorEvents).w.dev.workConfig
    config.dwIP = 0x0A000005 ∧ config.szColor = setText (ascii "3") ∧ config.nLog = 0 := by
  dsimp only
  rw [configuration_saved idleServer colorEvents (fun _ => rfl) rfl colorEvents_apart]
  decide +kernel

/-- What the lost form has set is saved by the next one. -/
theorem configuration_leaks :
    let events : List FormEvent := [.post 0 lostPost, .segment 0 10, .abort 0, .post 1 colorPost,
      .segment 1 100, .complete 1]
    (idleServer.run events).w.dev.workConfig.nLog = 1 ∧
      (idleServer.savedBy idleServer.w.dev.workConfig events).nLog = 0 := by
  decide +kernel

end Httpd

import LambdaIOT.Properties.Forms
import LambdaIOT.Httpd.Reach

/-!
# A form that comes in pieces

`WEB_OnFormReceived` collects the posted bytes in the send buffer, passes on the pairs that are
complete, and moves the rest to the front. The buffer is read as a string, and what was moved is
still there behind the rest: the parse goes on into these bytes when no NUL stands in front of
them. A run whose every call finds its accepted bytes ended (`EndedBehind`) passes on the pairs
of the form, however it was cut (`formRun_parsed`).
-/

namespace Httpd

open CMem

/-! ## Runs -/

/-- One call of `WEB_OnFormReceived`: the context at the call, and the bytes offered. -/
structure FormOffer where
  h : Request
  c : Call
  piece : Bytes

/-- How much of the piece the call takes. -/
def FormOffer.taken (o : FormOffer) : Int :=
  min (min (o.h.contentLength - o.h.contentReceived) o.piece.length)
    ((maxSendBufSize : Int) - o.c.r.bytesLeft - 32)

/-- The send buffer with the taken bytes in it. -/
def FormOffer.filled (o : FormOffer) : Bytes :=
  (o.c.r.putSend o.c.r.bytesLeft (o.piece.take o.taken.toNat)).mem

/-- The calls of `TAG_Setter` that `WEB_OnFormReceived` makes. -/
def FormOffer.calls (o : FormOffer) : List (Bytes × Bytes) :=
  if 0 < min (o.h.contentLength - o.h.contentReceived) o.piece.length ∧ o.h.requestMethod = .post ∧
      o.c.r.killing = false ∧ 0 < o.taken then
    formCalls o.filled (o.c.r.bytesLeft + o.taken).toNat
      (o.h.contentLength - o.h.contentReceived - o.taken)
  else []

theorem webOnFormReceived_eq (o : FormOffer) :
    webOnFormReceived o.h o.c o.piece o.piece.length =
      if 0 < min (o.h.contentLength - o.h.contentReceived) (o.piece.length : Int) ∧
          o.h.requestMethod = .post then
        if o.c.r.killing then
          ({ o.c with r := { o.c.r with killing := false, result := -500 } }, 0)
        else if 0 < o.taken then (formAccept o.h o.c o.piece o.taken, o.taken)
        else (o.c, o.taken)
      else (o.c, min (o.h.contentLength - o.h.contentReceived) o.piece.length) := rfl

/-- The device after the call is what its calls of `TAG_Setter` make of it. -/
theorem webOnFormReceived_calls (o : FormOffer) :
    (webOnFormReceived o.h o.c o.piece o.piece.length).1.w.dev = setTags o.c.w.dev o.calls := by
  rw [webOnFormReceived_eq, FormOffer.calls]
  by_cases hmore : 0 < min (o.h.contentLength - o.h.contentReceived) (o.piece.length : Int) ∧
      o.h.requestMethod = .post
  · rw [if_pos hmore]
    by_cases hkill : o.c.r.killing = true
    · rw [if_pos hkill, if_neg (by rw [hkill]; simp)]
      rfl
    · rw [if_neg hkill]
      by_cases htaken : 0 < o.taken
      · rw [if_pos htaken, if_pos ⟨hmore.1, hmore.2, by simpa using hkill, htaken⟩]
        exact extractFormData_calls _ _ _ _
      · rw [if_neg htaken, if_neg (fun h => htaken h.2.2.2)]
        rfl
  · rw [if_neg hmore, if_neg (fun h => hmore ⟨h.1, h.2.1⟩)]
    rfl

/-- A run: `_contentReceived`, the context, and the calls so far. -/
structure FormRun where
  received : Int
  c : Call
  offers : List FormOffer

/-- Offer a piece, and what was not taken of it again, at most `rounds` times. -/
def FormRun.offer (h : Request) : Nat → Bytes → FormRun → FormRun
  | 0, _, s => s
  | rounds + 1, piece, s =>
    if piece = [] then s
    else
      let o : FormOffer := ⟨{ h with contentReceived := s.received }, s.c, piece⟩
      let r := webOnFormReceived o.h o.c piece piece.length
      FormRun.offer h rounds (piece.drop r.2.toNat) ⟨s.received + r.2, r.1, s.offers ++ [o]⟩

/-- A body that comes in pieces, from the context that `WEB_OnFormHeaders` leaves. Each call
takes a byte at least, so there are no more calls for a piece than it has bytes. -/
def formRun (h : Request) (c : Call) (pieces : List Bytes) : FormRun :=
  pieces.foldl (fun s piece => s.offer h piece.length piece) ⟨0, webOnFormHeaders c, []⟩

/-- The names and values that the run has passed to `TAG_Setter`. -/
def FormRun.strings (s : FormRun) : List (Bytes × Bytes) :=
  (s.offers.flatMap FormOffer.calls).map callStrings

/-- What lies behind the accepted bytes is not read: at the end of the body it starts with a NUL,
and before that it has no `&`, unless the accepted bytes end in one. -/
def EndedBehind (o : FormOffer) : Prop :=
  let behind := cstr (o.c.r.mem.drop (o.c.r.bytesLeft + o.taken).toNat)
  if o.h.contentReceived + o.taken = o.h.contentLength then behind = []
  else 38 ∉ behind ∨ (o.piece.take o.taken.toNat).getLast? = some 38

instance : DecidablePred EndedBehind := fun o => by
  unfold EndedBehind
  infer_instance

/-! ## Prefixes of a body -/

theorem formBody_ne_nil {form : List (Bytes × Bytes)} (h : form ≠ []) : formBody form ≠ [] := by
  obtain ⟨f, form, rfl⟩ := List.exists_cons_of_ne_nil h
  cases form with
  | nil => exact List.append_ne_nil_of_right_ne_nil _ (List.cons_ne_nil _ _)
  | cons g form => exact List.append_ne_nil_of_right_ne_nil _ (List.cons_ne_nil _ _)

/-- A beginning of a body is some of its pairs and the beginning of the next one. -/
theorem formBody_prefix {form : List (Bytes × Bytes)} (hform : ∀ f ∈ form, FormPair f)
    {u rest : Bytes} (hrest : rest ≠ []) (hu : u ++ rest = formBody form) :
    ∃ done todo t, form = done ++ todo ∧ u = formText done ++ t ∧ t ++ rest = formBody todo ∧
      ∃ f ∈ form, t <+: pairText f := by
  induction form generalizing u with
  | nil =>
    have hnil := (List.append_eq_nil_iff.mp hu).2
    exact absurd hnil hrest
  | cons f form ih =>
    by_cases hlast : form = []
    · subst hlast
      refine ⟨[], [f], u, rfl, rfl, hu, f, List.mem_singleton_self _, rest, hu⟩
    · rw [formBody_cons f hlast] at hu
      rcases List.append_eq_append_iff.mp hu with ⟨a, ha, hb⟩ | ⟨a, ha, hb⟩
      · -- The beginning ends in the first pair.
        refine ⟨[], f :: form, u, rfl, rfl, ?_, f, List.mem_cons_self .., a, ha.symm⟩
        rw [formBody_cons f hlast]
        exact hu
      · cases a with
        | nil =>
          rw [List.append_nil] at ha
          refine ⟨[], f :: form, u, rfl, rfl, ?_, f, List.mem_cons_self .., ?_⟩
          · rw [formBody_cons f hlast]
            exact hu
          · rw [ha]
        | cons b a =>
          rw [List.cons_append, List.cons.injEq] at hb
          obtain ⟨done, todo, t, hdone, ht, hnext, g, hg, hpre⟩ :=
            ih (fun g hg => hform g (List.mem_cons_of_mem _ hg)) hb.2.symm
          refine ⟨f :: done, todo, t, ?_, ?_, hnext, g, List.mem_cons_of_mem _ hg, hpre⟩
          · rw [hdone, List.cons_append]
          · rw [formText_cons, ha, ← hb.1, ht]

/-! ## One call -/

/-- What `formAccept` leaves: the bytes behind the parsed ones, moved to the front. -/
theorem formAccept_fields (h : Request) (c : Call) (buffer : Bytes) (consumed : Int) :
    let parsed := (extractFormData c.w.dev
      (c.r.putSend c.r.bytesLeft (buffer.take consumed.toNat)).mem
      (c.r.bytesLeft + consumed).toNat (h.contentLength - h.contentReceived - consumed)).2
    let left := c.r.bytesLeft + consumed - (parsed.2 : Int)
    (formAccept h c buffer consumed).r.killing = c.r.killing ∧
      (formAccept h c buffer consumed).r.bytesLeft = left ∧
      (formAccept h c buffer consumed).r.mem =
        if 0 < parsed.2 ∧ 0 < left then
          if Response.sendFits 0 (load parsed.1 parsed.2 left.toNat) then
            store parsed.1 0 (load parsed.1 parsed.2 left.toNat)
          else parsed.1
        else parsed.1 := by
  intro parsed left
  have hr : (formAccept h c buffer consumed).r =
      let r := { c.r.putSend c.r.bytesLeft (buffer.take consumed.toNat) with
        mem := parsed.1, bytesLeft := left, tLastReceived := tickOrOne c.w.tick }
      if 0 < parsed.2 ∧ 0 < left then r.putSend 0 (load r.mem parsed.2 left.toNat) else r := rfl
  dsimp only at hr
  rw [hr]
  by_cases hmove : 0 < parsed.2 ∧ 0 < left
  · rw [if_pos hmove, if_pos hmove]
    exact ⟨rfl, rfl, rfl⟩
  · rw [if_neg hmove, if_neg hmove]
    exact ⟨rfl, rfl, rfl⟩

/-- A call that finds the bytes `t` in the buffer and takes `n` bytes. -/
structure Takes (o : FormOffer) (t : Bytes) (n : Nat) : Prop where
  post : o.h.requestMethod = .post
  alive : o.c.r.killing = false
  length : o.c.r.mem.length = memSize
  mem : o.c.r.mem.take t.length = t
  left : o.c.r.bytesLeft = t.length
  taken : o.taken = n
  pos : 0 < n
  offered : n ≤ o.piece.length
  remains : (n : Int) ≤ o.h.contentLength - o.h.contentReceived
  room : t.length + n ≤ 224

namespace Takes

variable {o : FormOffer} {t : Bytes} {n : Nat}

theorem received (h : Takes o t n) :
    webOnFormReceived o.h o.c o.piece o.piece.length = (formAccept o.h o.c o.piece n, (n : Int)) := by
  have hpos := h.pos
  have hoffered := h.offered
  have hremains := h.remains
  rw [webOnFormReceived_eq, if_pos ⟨by omega, h.post⟩, if_neg (by rw [h.alive]; decide), h.taken,
    if_pos (by omega)]

theorem length_taken (h : Takes o t n) : (o.piece.take n).length = n := by
  rw [List.length_take]
  exact Nat.min_eq_left h.offered

/-- The taken bytes are behind those that were there. -/
theorem filled (h : Takes o t n) :
    o.filled = t ++ o.piece.take n ++ o.c.r.mem.drop (t.length + n) := by
  have hlen := h.length
  have hroom := h.room
  have hsize : memSize = 512 := rfl
  have hn := h.length_taken
  have hfits : Response.sendFits (t.length : Int) (o.piece.take n) :=
    .inr ⟨Int.natCast_nonneg _, by rw [hn]; omega⟩
  have hput : o.filled = store o.c.r.mem t.length (o.piece.take n) := by
    rw [FormOffer.filled, h.left, h.taken, Response.putSend, Int.toNat_natCast, if_pos hfits]
    rfl
  rw [hput, store_eq (by rw [hn]; omega), h.mem, hn, List.append_assoc]

theorem calls (h : Takes o t n) :
    o.calls = formCalls (t ++ o.piece.take n ++ o.c.r.mem.drop (t.length + n)) (t.length + n)
      (o.h.contentLength - o.h.contentReceived - n) := by
  have hpos := h.pos
  have hoffered := h.offered
  have hremains := h.remains
  have hsum : (o.c.r.bytesLeft + o.taken).toNat = t.length + n := by
    rw [h.left, h.taken]
    omega
  rw [FormOffer.calls, if_pos ⟨by omega, h.post, h.alive, by rw [h.taken]; omega⟩, h.filled, hsum,
    h.taken]

/-- The context after the call, when more of the form is to come and its parse stops at `p`. -/
theorem accepted (h : Takes o t n) {calls : List (Bytes × Bytes)} {mem : Bytes} {p : Nat}
    {ne : Option Nat} (hmore : (n : Int) < o.h.contentLength - o.h.contentReceived)
    (htrace : formTrace (t.length + n) (t.length + n)
      (t ++ o.piece.take n ++ o.c.r.mem.drop (t.length + n)) 0 none = ⟨calls, mem, p, ne⟩)
    (hp : p ≤ t.length + n) :
    (formAccept o.h o.c o.piece n).r.killing = false ∧
      (formAccept o.h o.c o.piece n).r.bytesLeft = (t.length + n - p : Nat) ∧
      (formAccept o.h o.c o.piece n).r.mem =
        if 0 < p ∧ p < t.length + n then store mem 0 (load mem p (t.length + n - p)) else mem := by
  have hfilled := h.filled
  have hsize : memSize = 512 := rfl
  have hroom := h.room
  have hsum : (o.c.r.bytesLeft + (n : Int)).toNat = t.length + n := by
    rw [h.left]
    omega
  have hparse : (extractFormData o.c.w.dev (o.c.r.putSend o.c.r.bytesLeft
      (o.piece.take (n : Int).toNat)).mem (o.c.r.bytesLeft + (n : Int)).toNat
      (o.h.contentLength - o.h.contentReceived - n)).2 = (mem, p) := by
    rw [FormOffer.filled, h.taken] at hfilled
    rw [hsum, extractFormData_more _ _ _ (by omega), hfilled, htrace]
  have hleft : o.c.r.bytesLeft + (n : Int) - (p : Int) = (t.length + n - p : Nat) := by
    rw [h.left]
    omega
  obtain ⟨hkill, hbytes, hmem'⟩ := formAccept_fields o.h o.c o.piece n
  rw [hparse, hleft] at hbytes hmem'
  dsimp only at hbytes hmem'
  refine ⟨hkill.trans h.alive, hbytes, ?_⟩
  rw [hmem']
  by_cases hmove : 0 < p ∧ p < t.length + n
  · have hload : (load mem p (t.length + n - p)).length ≤ t.length + n - p :=
      List.length_take_le _ _
    rw [if_pos hmove, if_pos ⟨hmove.1, by omega⟩, Int.toNat_natCast,
      if_pos (.inr ⟨le_refl _, by omega⟩)]
  · rw [if_neg hmove, if_neg (by omega)]

/-- Behind the accepted bytes no `&` is read when a pair is cut off there. -/
theorem clean (h : Takes o t n) (hended : EndedBehind o)
    (hmore : (n : Int) < o.h.contentLength - o.h.contentReceived) {u t' : Bytes}
    (hsplit : t ++ o.piece.take n = u ++ t') (hamp : 38 ∉ t') (hne : t' ≠ []) :
    38 ∉ cstr (o.c.r.mem.drop (t.length + n)) := by
  have hsum : (o.c.r.bytesLeft + o.taken).toNat = t.length + n := by
    rw [h.left, h.taken]
    omega
  unfold EndedBehind at hended
  dsimp only at hended
  rw [hsum, h.taken, if_neg (by omega), Int.toNat_natCast] at hended
  rcases hended with hnone | hlast
  · exact hnone
  · exfalso
    have hlast' : (t ++ o.piece.take n).getLast? = some 38 := by
      rw [List.getLast?_append, hlast]
      rfl
    rw [hsplit, List.getLast?_append] at hlast'
    cases hend : t'.getLast? with
    | none => exact hne (List.getLast?_eq_none_iff.mp hend)
    | some b =>
      rw [hend] at hlast'
      cases hlast'
      exact hamp (List.mem_of_getLast? hend)

/-- A call in the middle of the body: the complete pairs are passed on, and the bytes `t'` of the
next one are at the front of the buffer. -/
theorem more (h : Takes o t n) (hmore : (n : Int) < o.h.contentLength - o.h.contentReceived)
    {done : List (Bytes × Bytes)} {t' : Bytes} (hdone : ∀ f ∈ done, FormPair f) (ht' : NoNul t')
    (hamp : 38 ∉ t') (hsplit : t ++ o.piece.take n = formText done ++ t')
    (hclean : t' ≠ [] → 38 ∉ cstr (o.c.r.mem.drop (t.length + n))) :
    (formAccept o.h o.c o.piece n).r.killing = false ∧
      (formAccept o.h o.c o.piece n).r.bytesLeft = t'.length ∧
      (formAccept o.h o.c o.piece n).r.mem.take t'.length = t' ∧
      (formAccept o.h o.c o.piece n).r.mem.length = memSize ∧
      o.calls.map callStrings = done.map formStrings := by
  have hsize : memSize = 512 := rfl
  have hroom := h.room
  have hlen : t.length + n = (formText done).length + t'.length := by
    have hboth := congrArg List.length hsplit
    rwa [List.length_append, List.length_append, h.length_taken] at hboth
  have hfilled : t ++ o.piece.take n ++ o.c.r.mem.drop (t.length + n) =
      formText done ++ (t' ++ o.c.r.mem.drop (t.length + n)) := by
    rw [hsplit, List.append_assoc]
  have hcalls := formCalls_more hdone ht' hamp hclean
    (show 0 < o.h.contentLength - o.h.contentReceived - n by omega)
  rw [← hfilled, ← hlen, ← h.calls] at hcalls
  have hrounds := length_formText done
  obtain ⟨pre', ne', calls, hpre', hnil, -, -, htrace⟩ :=
    formTrace_stop _ hdone ht' hamp hclean hlen
      (show done.length + t'.length ≤ t.length + n by omega)
  rw [← hfilled] at htrace
  have hmemLen : (pre' ++ (t' ++ o.c.r.mem.drop (t.length + n))).length = memSize := by
    rw [List.length_append, List.length_append, List.length_drop, h.length, hpre']
    omega
  obtain ⟨hkill, hbytes, hmem⟩ := h.accepted hmore htrace (by omega)
  have hleft : t.length + n - (formText done).length = t'.length := by omega
  have hload : load (pre' ++ (t' ++ o.c.r.mem.drop (t.length + n))) (formText done).length t'.length
      = t' := by
    rw [load, ← hpre', List.drop_left, List.take_left]
  rw [hleft, hload] at hmem
  rw [hleft] at hbytes
  refine ⟨hkill, hbytes, ?_, ?_, hcalls⟩
  · rw [hmem]
    by_cases hmove : 0 < (formText done).length ∧ (formText done).length < t.length + n
    · rw [if_pos hmove, store_eq (by rw [hmemLen]; omega), List.take_zero, List.nil_append,
        List.take_left]
    · rw [if_neg hmove]
      -- Nothing was moved: nothing was parsed, or nothing is left.
      by_cases hzero : (formText done).length = 0
      · have hnone : done = [] := by
          rw [← List.length_eq_zero_iff]
          omega
        rw [hnil hnone, List.nil_append, List.take_left]
      · have hempty : t' = [] := List.length_eq_zero_iff.mp (by omega)
        rw [hempty]
        rfl
  · rw [hmem]
    split
    · rw [length_store, hmemLen]
    · exact hmemLen

end Takes

/-! ## Whole runs -/

/-- The run has passed on the pairs `done`, and has the beginning `t` of the others in the
buffer; `rest` is what is still to come. -/
structure Collecting (h : Request) (form : List (Bytes × Bytes)) (s : FormRun) (rest : Bytes)
    (done todo : List (Bytes × Bytes)) (t : Bytes) : Prop where
  pairs : form = done ++ todo
  body : t ++ rest = formBody todo
  more : rest ≠ []
  begun : ∃ f ∈ form, t <+: pairText f
  received : s.received + rest.length = h.contentLength
  left : s.c.r.bytesLeft = t.length
  mem : s.c.r.mem.take t.length = t
  length : s.c.r.mem.length = memSize
  alive : s.c.r.killing = false
  strings : s.strings = done.map formStrings

/-- The run has passed on all the pairs. -/
structure Finished (h : Request) (form : List (Bytes × Bytes)) (s : FormRun) (rest : Bytes) :
    Prop where
  rest : rest = []
  received : s.received = h.contentLength
  strings : s.strings = form.map formStrings

/-- Where a run is. -/
def Parsed (h : Request) (form : List (Bytes × Bytes)) (s : FormRun) (rest : Bytes) : Prop :=
  (∃ done todo t, Collecting h form s rest done todo t) ∨ Finished h form s rest

/-- The offer that the run makes next. -/
def FormRun.next (h : Request) (s : FormRun) (piece : Bytes) : FormOffer :=
  ⟨{ h with contentReceived := s.received }, s.c, piece⟩

/-- The run after it. -/
def FormRun.step (h : Request) (s : FormRun) (piece : Bytes) : FormRun :=
  let o := s.next h piece
  let r := webOnFormReceived o.h o.c piece piece.length
  ⟨s.received + r.2, r.1, s.offers ++ [o]⟩

theorem strings_step (h : Request) (s : FormRun) (piece : Bytes) :
    (s.step h piece).strings = s.strings ++ (s.next h piece).calls.map callStrings := by
  unfold FormRun.strings FormRun.step
  dsimp only
  rw [List.flatMap_append, List.map_append, List.flatMap_singleton]

/-- The pairs of a form, each short enough for the buffer. -/
def FormFits (form : List (Bytes × Bytes)) : Prop :=
  ∀ f ∈ form, FormPair f ∧ (pairText f).length ≤ 223

section Run

variable {h : Request} {form : List (Bytes × Bytes)}

/-- A call in the middle of a body takes some of the piece. -/
theorem Collecting.takes {s : FormRun} {rest piece : Bytes} {done todo : List (Bytes × Bytes)}
    {t : Bytes} (hs : Collecting h form s rest done todo t) (hform : FormFits form)
    (hpost : h.requestMethod = .post) (hpiece : piece <+: rest) (hne : piece ≠ []) :
    Takes (s.next h piece) t (min piece.length (224 - t.length)) := by
  have hbuf : (maxSendBufSize : Int) = 256 := rfl
  obtain ⟨f, hf, hpre⟩ := hs.begun
  have hshort := hpre.length_le.trans (hform f hf).2
  have hpos := List.length_pos_iff.mpr hne
  have hle := hpiece.length_le
  have hreceived := hs.received
  refine ⟨hpost, hs.alive, hs.length, hs.mem, hs.left, ?_, by omega, Nat.min_le_left _ _, ?_, by omega⟩
  · change min (min (h.contentLength - s.received) (piece.length : Int))
      ((maxSendBufSize : Int) - s.c.r.bytesLeft - 32) = _
    rw [hs.left]
    omega
  · change _ ≤ h.contentLength - s.received
    omega

theorem step_takes {s : FormRun} {piece : Bytes} {t : Bytes} {n : Nat}
    (htakes : Takes (s.next h piece) t n) :
    s.step h piece = ⟨s.received + (n : Int),
      formAccept (s.next h piece).h (s.next h piece).c (s.next h piece).piece n,
      s.offers ++ [s.next h piece]⟩ := by
  have hr : webOnFormReceived (s.next h piece).h (s.next h piece).c piece piece.length = _ :=
    htakes.received
  unfold FormRun.step
  dsimp only
  rw [hr]

/-- The part of the pairs that came with this call is passed on, and the rest is at the front. -/
theorem Collecting.step_more {s : FormRun} {rest piece : Bytes} {done todo : List (Bytes × Bytes)}
    {t : Bytes} {n : Nat} (hs : Collecting h form s rest done todo t) (hform : FormFits form)
    (hpiece : piece <+: rest) (htakes : Takes (s.next h piece) t n)
    (hended : EndedBehind (s.next h piece)) (hmore : n < rest.length) :
    ∃ done' todo' t', Collecting h form (s.step h piece) (rest.drop n) done' todo' t' := by
  have hreceived := hs.received
  have hmore' : (n : Int) < (s.next h piece).h.contentLength -
      (s.next h piece).h.contentReceived := by
    change (n : Int) < h.contentLength - s.received
    omega
  have htaken : piece.take n = rest.take n := by
    obtain ⟨b, rfl⟩ := hpiece
    exact (List.take_append_of_le_length htakes.offered).symm
  have hu : (t ++ piece.take n) ++ rest.drop n = formBody todo := by
    rw [htaken, List.append_assoc, List.take_append_drop]
    exact hs.body
  have hrest : rest.drop n ≠ [] := by
    intro hnil
    rw [List.drop_eq_nil_iff] at hnil
    omega
  have htodo : ∀ f ∈ todo, FormPair f := fun f hf =>
    (hform f (by rw [hs.pairs]; exact List.mem_append_right _ hf)).1
  obtain ⟨done', todo', t', hpairs, hsplit, hbody, f, hf, hpre⟩ := formBody_prefix htodo hrest hu
  have hdone : ∀ f ∈ done', FormPair f := fun f hf =>
    htodo f (by rw [hpairs]; exact List.mem_append_left _ hf)
  have ht' : NoNul t' := fun b hb => (htodo f hf).noNul b (hpre.subset hb)
  have hamp : 38 ∉ t' := fun hb => (htodo f hf).noAmp (hpre.subset hb)
  obtain ⟨hkill, hbytes, hmem, hlen, hcalls⟩ := htakes.more hmore' hdone ht' hamp hsplit
    (htakes.clean hended hmore' hsplit hamp)
  have hstep := step_takes htakes
  refine ⟨done ++ done', todo', t', ?_, hbody, hrest, ⟨f, ?_, hpre⟩, ?_, ?_, ?_, ?_, ?_, ?_⟩
  · rw [hs.pairs, hpairs, List.append_assoc]
  · rw [hs.pairs]
    exact List.mem_append_right _ hf
  · rw [hstep]
    dsimp only
    rw [List.length_drop]
    omega
  · rw [hstep]
    exact hbytes
  · rw [hstep]
    exact hmem
  · rw [hstep]
    exact hlen
  · rw [hstep]
    exact hkill
  · rw [strings_step, hs.strings, hcalls, List.map_append]

/-- The call that takes the last bytes passes on all the pairs that are left. -/
theorem Collecting.step_last {s : FormRun} {rest piece : Bytes} {done todo : List (Bytes × Bytes)}
    {t : Bytes} {n : Nat} (hs : Collecting h form s rest done todo t) (hform : FormFits form)
    (hpiece : piece <+: rest) (htakes : Takes (s.next h piece) t n)
    (hended : EndedBehind (s.next h piece)) (hlast : n = rest.length) :
    Finished h form (s.step h piece) (rest.drop n) := by
  have hreceived := hs.received
  have hsize : memSize = 512 := rfl
  have htaken : piece.take n = rest := by
    obtain ⟨b, rfl⟩ := hpiece
    have hoffered : n ≤ piece.length := htakes.offered
    rw [List.length_append] at hlast
    have hnil : b = [] := List.length_eq_zero_iff.mp (by omega)
    rw [hnil, List.append_nil]
    exact List.take_of_length_le (by omega)
  have hall : t ++ (s.next h piece).piece.take n = formBody todo := by
    change t ++ piece.take n = _
    rw [htaken]
    exact hs.body
  have htodo : ∀ f ∈ todo, FormPair f := fun f hf =>
    (hform f (by rw [hs.pairs]; exact List.mem_append_right _ hf)).1
  rcases List.eq_nil_or_concat todo with hnil | ⟨init, last, hconcat⟩
  · exfalso
    have hbody := hs.body
    rw [hnil] at hbody
    exact hs.more (List.append_eq_nil_iff.mp hbody).2
  · rw [List.concat_eq_append] at hconcat
    have hsum : ((s.next h piece).c.r.bytesLeft + (s.next h piece).taken).toNat = t.length + n := by
      rw [htakes.left, htakes.taken]
      omega
    have hzero : (s.next h piece).h.contentLength - (s.next h piece).h.contentReceived - n = 0 := by
      change h.contentLength - s.received - n = 0
      omega
    -- The parsed bytes end in the buffer, with a NUL behind them.
    obtain ⟨behind, hbehind⟩ : ∃ behind, (s.next h piece).c.r.mem.drop (t.length + n) = 0 :: behind := by
      unfold EndedBehind at hended
      dsimp only at hended
      rw [hsum, htakes.taken, if_pos (by omega)] at hended
      have hroom := htakes.room
      have hlen : 0 < ((s.next h piece).c.r.mem.drop (t.length + n)).length := by
        rw [List.length_drop, htakes.length]
        omega
      obtain ⟨behind, hbehind⟩ := cstr_nul (m := (s.next h piece).c.r.mem.drop (t.length + n))
        (by rw [hended]; exact hlen)
      rw [hended, List.nil_append] at hbehind
      exact ⟨behind, hbehind⟩
    have hsplit : t ++ (s.next h piece).piece.take n = formText init ++ pairText last := by
      rw [hall, hconcat, formBody_concat]
    have hlen : t.length + n = (formText init).length + (pairText last).length := by
      have hboth := congrArg List.length hsplit
      rwa [List.length_append, List.length_append, htakes.length_taken] at hboth
    have hcalls := formCalls_last behind
      (fun f hf => htodo f (by rw [hconcat]; exact List.mem_append_left _ hf))
      (htodo last (by rw [hconcat]; exact List.mem_append_right _ (List.mem_singleton_self _)))
      (show ¬ (0 : Int) < 0 by decide)
    rw [← hlen, ← List.append_assoc, ← hsplit, ← hbehind, ← hzero, ← htakes.calls, ← hconcat] at hcalls
    refine ⟨?_, ?_, ?_⟩
    · rw [hlast, List.drop_length]
    · rw [step_takes htakes]
      dsimp only
      omega
    · rw [strings_step, hs.strings, hcalls, hs.pairs, List.map_append]

/-- One call, wherever the body is cut. -/
theorem Parsed.step {s : FormRun} {rest piece : Bytes} (hs : Parsed h form s rest)
    (hform : FormFits form) (hpost : h.requestMethod = .post) (hpiece : piece <+: rest)
    (hne : piece ≠ []) (hended : EndedBehind (s.next h piece)) :
    ∃ n, 0 < n ∧ n ≤ piece.length ∧
      (webOnFormReceived (s.next h piece).h (s.next h piece).c piece piece.length).2 = (n : Int) ∧
      Parsed h form (s.step h piece) (rest.drop n) := by
  rcases hs with ⟨done, todo, t, hs⟩ | hs
  · have htakes := hs.takes hform hpost hpiece hne
    refine ⟨_, htakes.pos, htakes.offered, congrArg Prod.snd htakes.received, ?_⟩
    have hle := hpiece.length_le
    have hoffered : min piece.length (224 - t.length) ≤ piece.length := Nat.min_le_left _ _
    rcases Nat.lt_or_ge (min piece.length (224 - t.length)) rest.length with hmore | hlast
    · exact .inl (hs.step_more hform hpiece htakes hended hmore)
    · exact .inr (hs.step_last hform hpiece htakes hended (by omega))
  · exfalso
    rw [hs.rest] at hpiece
    exact hne (List.prefix_nil.mp hpiece)

theorem offer_succ (rounds : Nat) {piece : Bytes} (hne : piece ≠ []) (s : FormRun) :
    s.offer h (rounds + 1) piece =
      (s.step h piece).offer h rounds (piece.drop
        (webOnFormReceived (s.next h piece).h (s.next h piece).c piece piece.length).2.toNat) := by
  rw [FormRun.offer, if_neg hne]
  rfl

/-- A run keeps its calls. -/
theorem offers_initial (rounds : Nat) (piece : Bytes) (s : FormRun) :
    s.offers <+: (s.offer h rounds piece).offers := by
  induction rounds generalizing piece s with
  | zero => exact List.prefix_rfl
  | succ rounds ih =>
    by_cases hne : piece = []
    · rw [FormRun.offer, if_pos hne]
    · rw [offer_succ rounds hne]
      exact (List.prefix_append _ _).trans (ih _ (s.step h piece))

theorem offers_initial_pieces (pieces : List Bytes) (s : FormRun) :
    s.offers <+: (pieces.foldl (fun s piece => s.offer h piece.length piece) s).offers := by
  induction pieces generalizing s with
  | nil => exact List.prefix_rfl
  | cons piece pieces ih => exact (offers_initial _ piece s).trans (ih _)

/-- A piece is taken whole. -/
theorem Parsed.offer {s : FormRun} {rest piece : Bytes} (rounds : Nat) (hs : Parsed h form s rest)
    (hform : FormFits form) (hpost : h.requestMethod = .post) (hpiece : piece <+: rest)
    (hrounds : piece.length ≤ rounds)
    (hended : ∀ o ∈ (s.offer h rounds piece).offers, EndedBehind o) :
    Parsed h form (s.offer h rounds piece) (rest.drop piece.length) := by
  induction rounds generalizing s rest piece with
  | zero =>
    have hnil : piece = [] := List.length_eq_zero_iff.mp (Nat.le_zero.mp hrounds)
    rw [hnil]
    exact hs
  | succ rounds ih =>
    by_cases hne : piece = []
    · rw [FormRun.offer, if_pos hne, hne]
      exact hs
    · rw [offer_succ rounds hne] at hended ⊢
      have hfirst : EndedBehind (s.next h piece) :=
        hended _ ((offers_initial rounds _ (s.step h piece)).subset
          (List.mem_append_right _ (List.mem_singleton_self _)))
      obtain ⟨n, hpos, hle, htaken, hstep⟩ := hs.step hform hpost hpiece hne hfirst
      rw [htaken, Int.toNat_natCast] at hended ⊢
      have hnext : piece.drop n <+: rest.drop n := hpiece.drop n
      have hpieces := ih hstep hnext (by rw [List.length_drop]; omega) hended
      rw [List.drop_drop, List.length_drop] at hpieces
      have hsum : n + (piece.length - n) = piece.length := by omega
      rwa [hsum] at hpieces

/-- A run that has been through a whole body has passed on its pairs. -/
theorem Parsed.run {s : FormRun} {pieces : List Bytes} (hs : Parsed h form s pieces.flatten)
    (hform : FormFits form) (hpost : h.requestMethod = .post)
    (hended : ∀ o ∈ (pieces.foldl (fun s piece => s.offer h piece.length piece) s).offers,
      EndedBehind o) :
    Finished h form (pieces.foldl (fun s piece => s.offer h piece.length piece) s) [] := by
  induction pieces generalizing s with
  | nil =>
    rcases hs with ⟨done, todo, t, hs⟩ | hs
    · exact absurd rfl hs.more
    · exact hs
  | cons piece pieces ih =>
    rw [List.flatten_cons] at hs
    have hfirst : ∀ o ∈ (s.offer h piece.length piece).offers, EndedBehind o := fun o ho =>
      hended o ((offers_initial_pieces pieces _).subset ho)
    have hpiece := hs.offer piece.length hform hpost (List.prefix_append _ _) (le_refl _) hfirst
    rw [List.drop_left] at hpiece
    exact ih hpiece hended

/-- A posted form at its beginning. -/
structure FormStart (h : Request) (c : Call) (form : List (Bytes × Bytes)) : Prop where
  fits : FormFits form
  post : h.requestMethod = .post
  contentLength : h.contentLength = (formBody form).length
  alive : c.r.killing = false
  mem : c.r.mem.length = memSize

/-- Where a run starts. -/
theorem FormStart.parsed {c : Call} (hstart : FormStart h c form) :
    Parsed h form ⟨0, webOnFormHeaders c, []⟩ (formBody form) := by
  by_cases hnone : form = []
  · right
    refine ⟨by rw [hnone]; rfl, ?_, by rw [hnone]; rfl⟩
    rw [hstart.contentLength, hnone]
    rfl
  · left
    obtain ⟨f, rest, hcons⟩ := List.exists_cons_of_ne_nil hnone
    refine ⟨[], form, [], rfl, rfl, formBody_ne_nil hnone, ⟨f, ?_, List.nil_prefix⟩, ?_, rfl, rfl,
      ?_, hstart.alive, rfl⟩
    · rw [hcons]
      exact List.mem_cons_self ..
    · rw [hstart.contentLength]
      exact Int.zero_add _
    · exact (length_store ..).trans hstart.mem

/-- A run over a form passes on its pairs, when every call finds its bytes ended. -/
theorem formRun_parsed {c : Call} {pieces : List Bytes} (hstart : FormStart h c form)
    (hpieces : pieces.flatten = formBody form)
    (hended : ∀ o ∈ (formRun h c pieces).offers, EndedBehind o) :
    Finished h form (formRun h c pieces) [] := by
  have hbegin := hstart.parsed
  rw [← hpieces] at hbegin
  exact hbegin.run hstart.fits hstart.post hended

end Run

/-- **Two ways of cutting a form into pieces pass on the same names and values, and all of the
body is taken, when every call finds its accepted bytes ended.** -/
theorem form_segmentation (h : Request) (c : Call) (form : List (Bytes × Bytes))
    (hstart : FormStart h c form) (pieces₁ pieces₂ : List Bytes)
    (hpieces₁ : pieces₁.flatten = formBody form) (hpieces₂ : pieces₂.flatten = formBody form)
    (hended₁ : ∀ o ∈ (formRun h c pieces₁).offers, EndedBehind o)
    (hended₂ : ∀ o ∈ (formRun h c pieces₂).offers, EndedBehind o) :
    (formRun h c pieces₁).strings = (formRun h c pieces₂).strings ∧
      (formRun h c pieces₁).received = (formBody form).length ∧
      (formRun h c pieces₂).received = (formBody form).length := by
  have hrun₁ := formRun_parsed hstart hpieces₁ hended₁
  have hrun₂ := formRun_parsed hstart hpieces₂ hended₂
  rw [hrun₁.strings, hrun₂.strings, hrun₁.received, hrun₂.received, hstart.contentLength]
  exact ⟨rfl, rfl, rfl⟩

/-- A POST whose body has `n` bytes. -/
def postRequest (n : Nat) : Request :=
  { setupContext.toRequest with requestMethod := .post, contentLength := n }

/-- A context before the body. -/
def postCall : Call := ⟨plainWorld, setupContext.toResponse⟩

theorem formStart_post {form : List (Bytes × Bytes)} {n : Nat} (hform : FormFits form)
    (hn : (formBody form).length = n) : FormStart (postRequest n) postCall form where
  fits := hform
  post := rfl
  contentLength := by rw [hn]; rfl
  alive := rfl
  mem := List.length_replicate

/-- Two pairs, cut in the second name. -/
theorem form_segmentation_log :
    (formRun (postRequest 9) postCall [ascii "a=1&l", ascii "og=1"]).strings =
        (formRun (postRequest 9) postCall [ascii "a=1&log=1"]).strings ∧
      (formRun (postRequest 9) postCall [ascii "a=1&l", ascii "og=1"]).received = 9 ∧
      (formRun (postRequest 9) postCall [ascii "a=1&log=1"]).received = 9 :=
  form_segmentation (postRequest 9) postCall [(ascii "a", ascii "1"), (ascii "log", ascii "1")]
    (formStart_post (by
      intro f hf
      rw [List.mem_cons, List.mem_singleton] at hf
      rcases hf with rfl | rfl
      · exact ⟨⟨by decide, by decide, by decide, by decide, by decide⟩, by decide⟩
      · exact ⟨⟨by decide, by decide, by decide, by decide, by decide⟩, by decide⟩) (by decide))
    [ascii "a=1&l", ascii "og=1"] [ascii "a=1&log=1"] (by decide) (by decide) (by decide +kernel)
    (by decide +kernel)

/-- Eighteen letters. -/
def longName : Bytes := List.replicate 18 98

/-- A name that is moved to the front leaves its last letters behind the value. -/
theorem form_segmentation_stale :
    ((formRun (postRequest 24) postCall [ascii "a=1&" ++ longName ++ ascii "=2"]).strings =
        [(ascii "a", ascii "1"), (longName, ascii "2")]) ∧
      ((formRun (postRequest 24) postCall [ascii "a=1&" ++ longName, ascii "=2"]).strings =
        [(ascii "a", ascii "1"), (longName, ascii "2bb")]) := by
  decide +kernel

end Httpd

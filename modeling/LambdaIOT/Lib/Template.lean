import Mathlib.Data.List.Infix
import Mathlib.Logic.Relation

/-!
# Texts with tags

A text is copied until the start marker; what follows up to the stop marker is a name,
and the three together are replaced by the value of the name. `expand` is the meaning of
a text. `Step` is one step of a scanner that has read a part of it: any scanner whose
steps are `Step`s produces the expansion, whatever it does between them (buffering,
stopping, starting again), which is `Steps.expand`.

A scanner that has to see a whole marker to know it stops in front of a possible one at
the end of what it can see; `nameEnd` says how much of a name it takes.
-/

namespace Template

variable {α : Type}

/-- The two markers. The stop marker does not overlap with itself, so that the first one
behind a name that holds none is the one written behind it. -/
structure Markers (α : Type) where
  start : List α
  stop : List α
  start_ne : start ≠ []
  stop_ne : stop ≠ []
  unbordered : ∀ k, 0 < k → k < stop.length → ¬ stop.drop k <+: stop

/-- Copying, or inside a tag with a part of its name. -/
inductive Mode (α : Type) where
  | copy
  | name (collected : List α)
  deriving DecidableEq

/-! ## The scanner -/

/-- A scanner at work: its mode, the text it has not taken, what it has put out. -/
structure State (α : Type) where
  mode : Mode α
  rest : List α
  out : List α

/-- One step of a scanner; `value` is what a name stands for. -/
inductive Step (m : Markers α) (value : List α → List α) : State α → State α → Prop where
  | emit {c : α} {rest out : List α} (h : ¬ m.start <+: c :: rest) :
    Step m value ⟨.copy, c :: rest, out⟩ ⟨.copy, rest, out ++ [c]⟩
  | enter {rest out : List α} :
    Step m value ⟨.copy, m.start ++ rest, out⟩ ⟨.name [], rest, out⟩
  | collect {nm : List α} {c : α} {rest out : List α} (h : ¬ m.stop <+: c :: rest) :
    Step m value ⟨.name nm, c :: rest, out⟩ ⟨.name (nm ++ [c]), rest, out⟩
  | replace {nm rest out : List α} :
    Step m value ⟨.name nm, m.stop ++ rest, out⟩ ⟨.copy, rest, out ++ value nm⟩

/-- Any number of steps. -/
abbrev Steps (m : Markers α) (value : List α → List α) : State α → State α → Prop :=
  Relation.ReflTransGen (Step m value)

variable {m : Markers α} {value : List α → List α}

/-- A scanner takes the text from its front. -/
theorem Step.suffix {s t : State α} (h : Step m value s t) : t.rest <:+ s.rest := by
  cases h with
  | emit => exact List.suffix_cons ..
  | enter => exact List.suffix_append ..
  | collect => exact List.suffix_cons ..
  | replace => exact List.suffix_append ..

theorem Steps.suffix {s t : State α} (h : Steps m value s t) : t.rest <:+ s.rest := by
  induction h with
  | refl => exact List.suffix_rfl
  | tail _ hstep ih => exact hstep.suffix.trans ih

/-! ## Texts whose tags are all closed -/

/-- Every start marker opens a tag whose name is at most `limit` long and holds no stop
marker. -/
def Tagged (m : Markers α) (limit : Nat) (text : List α) : Prop :=
  ∀ pre rest, text = pre ++ m.start ++ rest →
    ∃ name rest', rest = name ++ m.stop ++ rest' ∧ ¬ m.stop <:+: name ∧ name.length ≤ limit

theorem Tagged.suffix {limit : Nat} {text text' : List α} (h : Tagged m limit text)
    (hsuffix : text' <:+ text) : Tagged m limit text' := by
  obtain ⟨front, rfl⟩ := hsuffix
  rintro pre rest rfl
  refine h (front ++ pre) rest ?_
  simp only [List.append_assoc]

/-- Where a scanner stands in such a text: inside a tag the stop marker is still to come,
and it is the first one. -/
def Closed (m : Markers α) (limit : Nat) : Mode α → List α → Prop
  | .copy, rest => Tagged m limit rest
  | .name nm, rest => Tagged m limit rest ∧ ∃ more rest', rest = more ++ m.stop ++ rest' ∧
      ¬ m.stop <:+: more ∧ nm.length + more.length ≤ limit

/-- A stop marker in front of `more ++ stop` lies inside `more` or is all of `stop`. -/
theorem not_prefix_of_not_infix {more rest : List α} (hne : more ≠ [])
    (hinner : ¬ m.stop <:+: more) : ¬ m.stop <+: more ++ m.stop ++ rest := by
  intro hp
  rcases Nat.lt_or_ge more.length m.stop.length with hshort | hlong
  · -- The marker would overlap with the one behind `more`.
    have hmore : more <+: m.stop := by
      refine List.prefix_of_prefix_length_le ?_ hp (Nat.le_of_lt hshort)
      rw [List.append_assoc]
      exact List.prefix_append ..
    obtain ⟨tail, htail⟩ := hmore
    refine m.unbordered more.length (List.length_pos_iff.mpr hne) hshort ?_
    have hdrop : m.stop.drop more.length = tail := by rw [← htail, List.drop_left]
    have htail' : tail <+: m.stop ++ rest := by
      have hboth : more ++ tail <+: more ++ (m.stop ++ rest) := by
        rw [htail, ← List.append_assoc]
        exact hp
      exact (List.prefix_append_right_inj more).mp hboth
    rw [hdrop]
    refine List.prefix_of_prefix_length_le htail' (List.prefix_append ..) ?_
    rw [← htail, List.length_append]
    omega
  · refine hinner (List.IsPrefix.isInfix ?_)
    refine List.prefix_of_prefix_length_le hp ?_ hlong
    rw [List.append_assoc]
    exact List.prefix_append ..

/-- What one step preserves. -/
theorem Closed.step {limit : Nat} {s t : State α} (hs : Closed m limit s.mode s.rest)
    (h : Step m value s t) : Closed m limit t.mode t.rest := by
  have hsuffix := h.suffix
  cases h with
  | emit => exact Tagged.suffix hs hsuffix
  | @enter rest out =>
    have htagged : Tagged m limit (m.start ++ rest) := hs
    obtain ⟨name, rest', hrest, hfree, hlen⟩ := htagged [] rest rfl
    refine ⟨htagged.suffix hsuffix, name, rest', hrest, hfree, ?_⟩
    rw [List.length_nil]
    omega
  | @collect nm c rest out hstop =>
    obtain ⟨htagged, more, rest', hrest, hfree, hlen⟩ := hs
    refine ⟨htagged.suffix hsuffix, ?_⟩
    dsimp only at hrest ⊢
    cases more with
    | nil =>
      refine absurd ?_ hstop
      rw [hrest]
      exact List.prefix_append ..
    | cons b more =>
      rw [List.cons_append, List.cons_append] at hrest
      injection hrest with hhead hrest
      refine ⟨more, rest', hrest, fun hin => hfree (hin.trans (List.suffix_cons ..).isInfix), ?_⟩
      rw [List.length_append, List.length_singleton]
      rw [List.length_cons] at hlen
      omega
  | replace =>
    obtain ⟨htagged, -⟩ := hs
    exact htagged.suffix hsuffix

/-- What a whole run preserves. -/
theorem Closed.steps {limit : Nat} {s t : State α} (hs : Closed m limit s.mode s.rest)
    (h : Steps m value s t) : Closed m limit t.mode t.rest := by
  induction h with
  | refl => exact hs
  | tail _ hstep ih => exact ih.step hstep

/-! ## Deciding whether all tags are closed -/

/-- At each start marker, a length within `limit` at which the first stop marker stands. -/
theorem tagged_iff [DecidableEq α] {limit : Nat} {text : List α} :
    Tagged m limit text ↔ ∀ rest ∈ text.tails, m.start <+: rest → ∃ k < limit + 1,
      m.stop <+: (rest.drop m.start.length).drop k ∧
        ¬ m.stop <:+: (rest.drop m.start.length).take k := by
  constructor
  · intro h rest hrest hstart
    obtain ⟨pre, htext⟩ := (List.mem_tails ..).mp hrest
    obtain ⟨behind, rfl⟩ := hstart
    obtain ⟨name, rest', hbehind, hfree, hlen⟩ := h pre behind (by rw [← htext, List.append_assoc])
    refine ⟨name.length, by omega, ?_⟩
    rw [List.drop_left, hbehind, List.append_assoc, List.drop_left, List.take_left]
    exact ⟨List.prefix_append .., hfree⟩
  · rintro h pre rest rfl
    obtain ⟨k, hk, ⟨rest', hstop⟩, hfree⟩ := h (m.start ++ rest)
      ((List.mem_tails ..).mpr ⟨pre, (List.append_assoc ..).symm⟩) (List.prefix_append ..)
    rw [List.drop_left] at hstop hfree
    refine ⟨rest.take k, rest', ?_, hfree, ?_⟩
    · rw [List.append_assoc, hstop, List.take_append_drop]
    · rw [List.length_take]
      omega

instance [DecidableEq α] (limit : Nat) (text : List α) : Decidable (Tagged m limit text) :=
  decidable_of_iff _ tagged_iff.symm

/-! ## The expansion -/

variable [DecidableEq α]

/-- The expansion of a text from a mode on, after `skip` elements are dropped. A tag that
is never closed has no value. -/
def expand (m : Markers α) (value : List α → List α) : Nat → Mode α → List α → List α
  | _, _, [] => []
  | skip + 1, mode, _ :: text => expand m value skip mode text
  | 0, .copy, c :: text =>
    if m.start.isPrefixOf (c :: text) then expand m value (m.start.length - 1) (.name []) text
    else c :: expand m value 0 .copy text
  | 0, .name nm, c :: text =>
    if m.stop.isPrefixOf (c :: text) then
      value nm ++ expand m value (m.stop.length - 1) .copy text
    else expand m value 0 (.name (nm ++ [c])) text

theorem expand_skip (k : Nat) (mode : Mode α) (text : List α) :
    expand m value k mode text = expand m value 0 mode (text.drop k) := by
  induction text generalizing k with
  | nil =>
    rw [List.drop_nil]
    cases k <;> cases mode <;> rfl
  | cons c text ih =>
    cases k with
    | zero => rfl
    | succ k =>
      rw [List.drop_succ_cons, ← ih k]
      cases mode <;> rfl

@[simp] theorem expand_nil (mode : Mode α) : expand m value 0 mode [] = [] := by
  cases mode <;> rfl

/-- Dropping a marker, when the first element is already gone. -/
theorem expand_drop_marker {marker : List α} (hne : marker ≠ []) (mode : Mode α)
    (c : α) (text : List α) :
    expand m value (marker.length - 1) mode text
      = expand m value 0 mode ((c :: text).drop marker.length) := by
  obtain ⟨b, marker, rfl⟩ := List.exists_cons_of_ne_nil hne
  rw [expand_skip, List.length_cons, List.drop_succ_cons]
  rfl

/-- What a scanner has put out and what it has before it make up the same expansion. -/
theorem Step.expand {s t : State α} (h : Step m value s t) :
    s.out ++ Template.expand m value 0 s.mode s.rest
      = t.out ++ Template.expand m value 0 t.mode t.rest := by
  cases h with
  | emit h =>
    have hother : ¬ m.start.isPrefixOf (_ :: _) = true := fun hp => h (List.isPrefixOf_iff_prefix.mp hp)
    rw [Template.expand, if_neg hother, List.append_assoc]
    rfl
  | @enter rest out =>
    obtain ⟨c, marker, hstart⟩ := List.exists_cons_of_ne_nil m.start_ne
    have hhead : m.start ++ rest = c :: (marker ++ rest) := by rw [hstart, List.cons_append]
    have hfront : m.start.isPrefixOf (c :: (marker ++ rest)) = true := by
      rw [List.isPrefixOf_iff_prefix, ← hhead]
      exact List.prefix_append ..
    dsimp only
    rw [hhead, Template.expand, if_pos hfront, expand_drop_marker m.start_ne _ c, ← hhead,
      List.drop_left]
  | collect h =>
    have hother : ¬ m.stop.isPrefixOf (_ :: _) = true := fun hp => h (List.isPrefixOf_iff_prefix.mp hp)
    dsimp only
    rw [Template.expand, if_neg hother]
  | @replace nm rest out =>
    obtain ⟨c, marker, hstop⟩ := List.exists_cons_of_ne_nil m.stop_ne
    have hhead : m.stop ++ rest = c :: (marker ++ rest) := by rw [hstop, List.cons_append]
    have hfront : m.stop.isPrefixOf (c :: (marker ++ rest)) = true := by
      rw [List.isPrefixOf_iff_prefix, ← hhead]
      exact List.prefix_append ..
    dsimp only
    rw [hhead, Template.expand, if_pos hfront, expand_drop_marker m.stop_ne _ c, ← hhead,
      List.drop_left, List.append_assoc]

/-- The same over a run, by induction on it. -/
theorem Steps.expand {s t : State α} (h : Steps m value s t) :
    s.out ++ Template.expand m value 0 s.mode s.rest
      = t.out ++ Template.expand m value 0 t.mode t.rest := by
  induction h with
  | refl => rfl
  | tail _ hstep ih => exact ih.trans hstep.expand

/-! ## The length of names -/

/-- How much of a text a scanner inside a tag collects: up to the stop marker, or up to
where the text ends or a marker may begin that is not all there. -/
def nameEnd (m : Markers α) : List α → Nat
  | [] => 0
  | c :: rest =>
    if m.stop.isPrefixOf (c :: rest) ∨ (rest.length + 1 < m.stop.length ∧ m.stop.head? = some c)
    then 0 else nameEnd m rest + 1

/-- The name a scanner is collecting stays within `limit`. -/
def NameFits (m : Markers α) (limit : Nat) : Mode α → List α → Prop
  | .copy, _ => True
  | .name nm, rest => nm.length + nameEnd m rest ≤ limit

instance (limit : Nat) : (mode : Mode α) → (rest : List α) → Decidable (NameFits m limit mode rest)
  | .copy, _ => inferInstanceAs (Decidable True)
  | .name _, _ => inferInstanceAs (Decidable (_ ≤ _))

/-- The scanner is inside a tag that is closed. -/
def NameCloses (m : Markers α) : Mode α → List α → Prop
  | .copy, _ => False
  | .name _, rest => m.stop <+: rest.drop (nameEnd m rest)

instance : (mode : Mode α) → (rest : List α) → Decidable (NameCloses m mode rest)
  | .copy, _ => inferInstanceAs (Decidable False)
  | .name _, _ => inferInstanceAs (Decidable (_ <+: _))

/-- An element that is no part of a stop marker, as far as one can see, is collected. -/
theorem nameEnd_cons {c : α} {rest : List α} (hstop : ¬ m.stop <+: c :: rest)
    (hmore : m.stop.length ≤ rest.length + 1 ∨ m.stop.head? ≠ some c) :
    nameEnd m (c :: rest) = nameEnd m rest + 1 := by
  have hgo : ¬ (m.stop.isPrefixOf (c :: rest) ∨
      (rest.length + 1 < m.stop.length ∧ m.stop.head? = some c)) := by
    rintro (hp | ⟨hlen, hhead⟩)
    · exact hstop (List.isPrefixOf_iff_prefix.mp hp)
    · rcases hmore with hmore | hmore
      · omega
      · exact hmore hhead
  rw [nameEnd, if_neg hgo]

/-- A whole stop marker ends the name. -/
theorem nameEnd_stop {rest : List α} (hstop : m.stop <+: rest) : nameEnd m rest = 0 := by
  cases rest with
  | nil => rfl
  | cons c rest => rw [nameEnd, if_pos (.inl (List.isPrefixOf_iff_prefix.mpr hstop))]

theorem nameCloses_stop {nm rest : List α} (hstop : m.stop <+: rest) :
    NameCloses m (.name nm) rest := by
  change m.stop <+: rest.drop (nameEnd m rest)
  rw [nameEnd_stop hstop, List.drop_zero]
  exact hstop

/-- Collecting one more element does not decide whether the tag is closed. -/
theorem NameCloses.collect {nm nm' : List α} {c : α} {rest : List α}
    (h : NameCloses m (.name nm') rest) (hstop : ¬ m.stop <+: c :: rest)
    (hmore : m.stop.length ≤ rest.length + 1 ∨ m.stop.head? ≠ some c) :
    NameCloses m (.name nm) (c :: rest) := by
  change m.stop <+: (c :: rest).drop (nameEnd m (c :: rest))
  rw [nameEnd_cons hstop hmore, List.drop_succ_cons]
  exact h

/-- Collecting one more element is part of the fit. -/
theorem NameFits.collect {limit : Nat} {nm : List α} {c : α} {rest : List α}
    (h : NameFits m limit (.name nm) (c :: rest)) (hstop : ¬ m.stop <+: c :: rest)
    (hmore : m.stop.length ≤ rest.length + 1 ∨ m.stop.head? ≠ some c) :
    nm.length < limit ∧ NameFits m limit (.name (nm ++ [c])) rest := by
  have hlimit : nm.length + nameEnd m (c :: rest) ≤ limit := h
  rw [nameEnd_cons hstop hmore] at hlimit
  constructor
  · omega
  · change (nm ++ [c]).length + nameEnd m rest ≤ limit
    rw [List.length_append, List.length_singleton]
    omega

/-- In such a text the name being collected ends at its stop marker, so that it fits. -/
theorem Closed.nameFits {limit : Nat} {mode : Mode α} {rest : List α}
    (h : Closed m limit mode rest) : NameFits m limit mode rest := by
  cases mode with
  | copy => trivial
  | name nm =>
    obtain ⟨-, more, rest', rfl, hfree, hlen⟩ := h
    have hend : nameEnd m (more ++ m.stop ++ rest') = more.length := by
      clear hlen
      induction more with
      | nil => exact nameEnd_stop (List.prefix_append ..)
      | cons b more ih =>
        have hnot : ¬ m.stop <+: b :: (more ++ m.stop ++ rest') :=
          not_prefix_of_not_infix (List.cons_ne_nil b more) hfree
        have hlong : m.stop.length ≤ (more ++ m.stop ++ rest').length + 1 := by
          simp only [List.length_append]
          omega
        have hmore : ¬ m.stop <:+: more := fun hin =>
          hfree (hin.trans (List.suffix_cons ..).isInfix)
        rw [List.cons_append, List.cons_append, nameEnd_cons hnot (.inl hlong), ih hmore,
          List.length_cons]
    change nm.length + nameEnd m (more ++ m.stop ++ rest') ≤ limit
    rw [hend]
    exact hlen

end Template

import Mathlib.Data.List.Basic
import Mathlib.Logic.Relation

/-!
# Scanners that take a stream piece by piece

A scanner looks at the symbols at hand, takes some of them from the front and moves on, or
waits for more. What it takes does not depend on what comes behind, so the state in which it
waits is a function of the stream alone: any two ways of handing over the same symbols end
in the same state, with the same symbols left (`stuck_unique`, `Steps.feed`).
-/

open Relation

/-- A scanner over symbols `α` with states `σ`. A step takes a number of symbols from the
front. -/
structure Scanner (σ α : Type) where
  step : σ → List α → Option (σ × Nat)
  bounded : ∀ {s p t n}, step s p = some (t, n) → n ≤ p.length
  stable : ∀ {s p t n}, step s p = some (t, n) → ∀ q, step s (p ++ q) = some (t, n)

namespace Scanner

variable {σ α : Type} (sc : Scanner σ α)

/-- One step: the symbols taken are gone. -/
def Step (a b : σ × List α) : Prop := ∃ n, sc.step a.1 a.2 = some (b.1, n) ∧ b.2 = a.2.drop n

/-- Any number of steps. -/
abbrev Steps : σ × List α → σ × List α → Prop := ReflTransGen sc.Step

/-- The scanner waits for more symbols, or is done. -/
def Stuck (a : σ × List α) : Prop := sc.step a.1 a.2 = none

variable {sc}

theorem step_deterministic {a b c : σ × List α} (hb : sc.Step a b) (hc : sc.Step a c) : b = c := by
  obtain ⟨n, hn, hbdrop⟩ := hb
  obtain ⟨m, hm, hcdrop⟩ := hc
  obtain ⟨hst, rfl⟩ := Prod.mk.inj (Option.some.inj (hn.symm.trans hm))
  exact Prod.ext hst (hbdrop.trans hcdrop.symm)

theorem Stuck.not_step {a b : σ × List α} (h : sc.Stuck a) : ¬sc.Step a b := by
  rintro ⟨n, hn, -⟩
  rw [Stuck] at h
  rw [h] at hn
  cases hn

/-- From a state in which the scanner is stuck no step leads away. -/
theorem Stuck.steps_eq {a b : σ × List α} (h : sc.Stuck a) (hs : sc.Steps a b) : b = a := by
  cases hs.cases_head with
  | inl heq => exact heq.symm
  | inr hstep =>
    obtain ⟨c, hc, -⟩ := hstep
    exact absurd hc h.not_step

/-- The state in which the scanner is stuck is determined by where it started. -/
theorem stuck_unique {a b c : σ × List α} (hb : sc.Steps a b) (hc : sc.Steps a c)
    (hbs : sc.Stuck b) (hcs : sc.Stuck c) : b = c := by
  have hunique : Relator.RightUnique sc.Step := fun _ _ _ h h' => step_deterministic h h'
  rcases ReflTransGen.total_of_right_unique hunique hb hc with h | h
  · exact (hbs.steps_eq h).symm
  · exact hcs.steps_eq h

theorem Step.append {s t : σ} {p r : List α} (h : sc.Step (s, p) (t, r)) (q : List α) :
    sc.Step (s, p ++ q) (t, r ++ q) := by
  obtain ⟨n, hn, hr⟩ := h
  refine ⟨n, sc.stable hn q, ?_⟩
  show r ++ q = (p ++ q).drop n
  rw [show r = p.drop n from hr, List.drop_append_of_le_length (sc.bounded hn)]

/-- More symbols behind do not change what was done. -/
theorem Steps.append {a b : σ × List α} (h : sc.Steps a b) (q : List α) :
    sc.Steps (a.1, a.2 ++ q) (b.1, b.2 ++ q) := by
  induction h with
  | refl => exact .refl
  | tail _ hstep ih => exact ih.tail (hstep.append q)

/-- Handing over `q` later is handing it over at once. -/
theorem Steps.feed {s t u : σ} {p q r v : List α} (h : sc.Steps (s, p) (t, r))
    (h' : sc.Steps (t, r ++ q) (u, v)) : sc.Steps (s, p ++ q) (u, v) :=
  (h.append q).trans h'

/-- What is left is the end of what was there. -/
theorem Steps.suffix {a b : σ × List α} (h : sc.Steps a b) : b.2 <:+ a.2 := by
  induction h with
  | refl => exact List.suffix_refl _
  | tail _ hstep ih =>
    obtain ⟨n, -, hdrop⟩ := hstep
    rw [hdrop]
    exact (List.drop_suffix n _).trans ih

/-- What every step keeps, the run keeps. -/
theorem Steps.preserves {P : σ → Prop} {a b : σ × List α} (h : sc.Steps a b)
    (hstep : ∀ {s t p n}, P s → sc.step s p = some (t, n) → P t) (ha : P a.1) : P b.1 := by
  induction h with
  | refl => exact ha
  | tail _ hs ih =>
    obtain ⟨n, hn, -⟩ := hs
    exact hstep ih hn

/-- At most `fuel` steps, as long as there is one. -/
def run (sc : Scanner σ α) : Nat → σ → List α → σ × List α
  | 0, s, p => (s, p)
  | fuel + 1, s, p =>
    match sc.step s p with
    | none => (s, p)
    | some (t, n) => run sc fuel t (p.drop n)

theorem steps_run (fuel : Nat) (s : σ) (p : List α) : sc.Steps (s, p) (sc.run fuel s p) := by
  induction fuel generalizing s p with
  | zero => exact .refl
  | succ fuel ih =>
    rw [run]
    split
    · exact .refl
    · rename_i t n hstep
      exact (ih t (p.drop n)).head ⟨n, hstep, rfl⟩

/-- If every step takes a symbol, the scanner runs until it is stuck. -/
theorem stuck_run (hpos : ∀ {s p t n}, sc.step s p = some (t, n) → 0 < n) {fuel : Nat} {s : σ}
    {p : List α} (hfuel : p.length < fuel) : sc.Stuck (sc.run fuel s p) := by
  induction fuel generalizing s p with
  | zero => exact absurd hfuel (Nat.not_lt_zero _)
  | succ fuel ih =>
    rw [run]
    split
    · assumption
    · rename_i t n hstep
      have htaken := hpos hstep
      have hin := sc.bounded hstep
      refine ih ?_
      rw [List.length_drop]
      omega

/-- Where the scanner is stuck is where it runs to. -/
theorem run_eq (hpos : ∀ {s p t n}, sc.step s p = some (t, n) → 0 < n) {fuel : Nat} {s : σ}
    {p : List α} {b : σ × List α} (hfuel : p.length < fuel) (hsteps : sc.Steps (s, p) b)
    (hstuck : sc.Stuck b) : sc.run fuel s p = b :=
  stuck_unique (steps_run fuel s p) hsteps (stuck_run hpos hfuel) hstuck

end Scanner

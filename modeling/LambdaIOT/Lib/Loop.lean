/-!
# Loops that end

A round of a loop goes on in a new state or leaves the loop with a result. `Runs` counts the rounds
of a run that ends. A measure that every further round makes smaller bounds them, and with that
many rounds of fuel the loop function gives the result of the run.
-/

namespace Loop

variable {σ ρ : Type}

/-- The loop from `s` on ends with `r`, after `n` rounds that went on. -/
inductive Runs (round : σ → σ ⊕ ρ) : Nat → σ → ρ → Prop
  | done {s : σ} {r : ρ} (h : round s = .inr r) : Runs round 0 s r
  | next {n : Nat} {s t : σ} {r : ρ} (h : round s = .inl t) (rest : Runs round n t r) :
      Runs round (n + 1) s r

/-- The loop with a bound on its rounds; without any left it gives `out`. -/
def withFuel (round : σ → σ ⊕ ρ) (out : σ → ρ) : Nat → σ → ρ
  | 0, s => out s
  | fuel + 1, s =>
    match round s with
    | .inl t => withFuel round out fuel t
    | .inr r => r

theorem withFuel_next {round : σ → σ ⊕ ρ} {s t : σ} (h : round s = .inl t) (out : σ → ρ)
    (fuel : Nat) : withFuel round out (fuel + 1) s = withFuel round out fuel t := by
  rw [withFuel, h]

theorem withFuel_done {round : σ → σ ⊕ ρ} {s : σ} {r : ρ} (h : round s = .inr r) (out : σ → ρ)
    (fuel : Nat) : withFuel round out (fuel + 1) s = r := by
  rw [withFuel, h]

/-- The run of a loop whose measure goes down: it ends, and the measure is fuel enough. Where the
measure is zero, `out` has to be what the loop leaves with. -/
theorem runs_withFuel {round : σ → σ ⊕ ρ} {out : σ → ρ} (Inv : σ → Prop) (m : σ → Nat)
    (hstep : ∀ s t, Inv s → round s = .inl t → Inv t ∧ m t < m s)
    (hout : ∀ s, Inv s → m s = 0 → round s = .inr (out s)) {fuel : Nat} {s : σ} (hs : Inv s)
    (hm : m s ≤ fuel) : ∃ n ≤ m s, Runs round n s (withFuel round out fuel s) := by
  induction fuel generalizing s with
  | zero => exact ⟨0, Nat.zero_le _, .done (hout s hs (Nat.le_zero.mp hm))⟩
  | succ fuel ih =>
    cases h : round s with
    | inr r =>
      rw [withFuel_done h]
      exact ⟨0, Nat.zero_le _, .done h⟩
    | inl t =>
      obtain ⟨ht, hless⟩ := hstep s t hs h
      obtain ⟨n, hn, hrun⟩ := ih ht (by omega)
      rw [withFuel_next h]
      exact ⟨n + 1, by omega, .next h hrun⟩

end Loop

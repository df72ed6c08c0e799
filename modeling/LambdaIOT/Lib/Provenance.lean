import Mathlib.Logic.Relation

/-!
# Where a right comes from

A system hands out rights, holds them for a while and lets them be used. `holds` says which
rights a state holds, `used` which uses were made so far, `permits` which right a use needs, and
`issue` which rights a step hands out. If every step only keeps rights or issues them, and every
new use is permitted by a right that is held or issued, then the rights behind the uses of a run
were all issued in it, or held at its beginning.
-/

namespace Provenance

open Relation

/-- A system with rights `α` and uses `β`. -/
structure Rights (σ α β : Type) where
  step : σ → σ → Prop
  holds : σ → α → Prop
  used : σ → β → Prop
  issue : σ → σ → α → Prop
  permits : α → β → Prop

namespace Rights

variable {σ α β : Type} {S : Rights σ α β} {s t u : σ} {a : α} {b : β}

/-- A step between `s` and `t` issues `a`. -/
def Issued (S : Rights σ α β) (s t : σ) (a : α) : Prop :=
  ∃ u v, ReflTransGen S.step s u ∧ S.step u v ∧ S.issue u v a ∧ ReflTransGen S.step v t

/-- `a` is held in `s` or issued behind it. -/
def Granted (S : Rights σ α β) (s t : σ) (a : α) : Prop := S.holds s a ∨ S.Issued s t a

/-- Rights do not appear by themselves, and nothing is used without one. -/
structure Sound (S : Rights σ α β) : Prop where
  holds : ∀ {s t a}, S.step s t → S.holds t a → S.holds s a ∨ S.issue s t a
  used : ∀ {s t b}, S.step s t → S.used t b →
    S.used s b ∨ ∃ a, S.permits a b ∧ (S.holds s a ∨ S.issue s t a)

theorem Issued.later (h : S.Issued s t a) (htu : ReflTransGen S.step t u) : S.Issued s u a := by
  obtain ⟨v, w, hsv, hvw, hissue, hwt⟩ := h
  exact ⟨v, w, hsv, hvw, hissue, hwt.trans htu⟩

theorem Issued.last (hst : ReflTransGen S.step s t) (htu : S.step t u) (hissue : S.issue t u a) :
    S.Issued s u a :=
  ⟨t, u, hst, htu, hissue, .refl⟩

theorem Granted.later (h : S.Granted s t a) (htu : ReflTransGen S.step t u) :
    S.Granted s u a := by
  rcases h with h | h
  · exact .inl h
  · exact .inr (h.later htu)

/-- Whatever is held at the end of a run was granted. -/
theorem Sound.holds_run (hS : S.Sound) (hst : ReflTransGen S.step s t) :
    ∀ a, S.holds t a → S.Granted s t a := by
  induction hst with
  | refl =>
    intro a ha
    exact .inl ha
  | tail hsu huv ih =>
    intro a ha
    rcases hS.holds huv ha with hbefore | hissue
    · exact (ih a hbefore).later (.single huv)
    · exact .inr (.last hsu huv hissue)

/-- Whatever was used in a run is permitted by a right that was granted. -/
theorem Sound.used_run (hS : S.Sound) (hst : ReflTransGen S.step s t) :
    ∀ b, S.used t b → S.used s b ∨ ∃ a, S.permits a b ∧ S.Granted s t a := by
  induction hst with
  | refl =>
    intro b hb
    exact .inl hb
  | tail hsu huv ih =>
    intro b hb
    rcases hS.used huv hb with hbefore | ⟨a, hpermits, hnow⟩
    · rcases ih b hbefore with h | ⟨a, hpermits, hgranted⟩
      · exact .inl h
      · exact .inr ⟨a, hpermits, hgranted.later (.single huv)⟩
    · refine .inr ⟨a, hpermits, ?_⟩
      rcases hnow with hheld | hissue
      · exact (hS.holds_run hsu a hheld).later (.single huv)
      · exact .inr (.last hsu huv hissue)

end Rights

end Provenance

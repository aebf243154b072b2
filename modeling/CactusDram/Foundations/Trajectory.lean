import CactusDram.Foundations.Outcome

/-! Machines that go on, stop or fail, and the states that one of them visits. -/
namespace Foundations
open Relation
universe u v

variable {σ : Type u} {ε : Type v} (next : σ → Except ε (Option σ))

def Goes (s t : σ) : Prop := next s = .ok (some t)

def FailsWith (s : σ) (e : ε) : Prop := next s = .error e

/-- The states on the way from `s`. -/
def Visits : σ → σ → Prop := ReflTransGen (Goes next)

variable {next} {s t : σ}

/-- What holds at the start, and is kept by the steps of a machine that meets a condition all along,
holds in every visited state. -/
theorem Visits.induct {P Q : σ → Prop} (hstep : ∀ t u, P t → Q t → next t = .ok (some u) → P u)
    (hmeets : ∀ t, Visits next s t → Q t) (hs : P s) (h : Visits next s t) : P t := by
  induction h with
  | refl => exact hs
  | tail hvisit hgoes ih => exact hstep _ _ ih (hmeets _ hvisit) hgoes

/-- Whether a machine passes a test all along until it stops or meets a goal, within a number of
steps. -/
def passes (next : σ → Except ε (Option σ)) (test goal : σ → Bool) : ℕ → σ → Bool
  | 0, s => goal s
  | n + 1, s => goal s || (test s && match next s with
    | .ok (some t) => passes next test goal n t
    | _ => true)

/-- What the test says, and holds on the way from every goal, holds in every visited state. -/
theorem Visits.of_passes {P : σ → Prop} (test goal : σ → Bool) (htest : ∀ s, test s = true → P s)
    (hgoal : ∀ u, Visits next s u → goal u = true → ∀ t, Visits next u t → P t) {n : ℕ}
    (hpass : passes next test goal n s = true) (h : Visits next s t) : P t := by
  induction n generalizing s with
  | zero => exact hgoal s .refl hpass t h
  | succ n ih =>
    rw [passes, Bool.or_eq_true, Bool.and_eq_true] at hpass
    obtain hmet | ⟨hok, hnext⟩ := hpass
    · exact hgoal s .refl hmet t h
    · obtain rfl | ⟨u, hgoes, hrest⟩ := h.cases_head
      · exact htest s hok
      · rw [show next s = .ok (some u) from hgoes] at hnext
        exact ih (fun v hv => hgoal v (.head hgoes hv)) hnext hrest

end Foundations

import CactusDram.Foundations.Outcome

/-! What a computation that may fail ensures: one property of its result and another of its errors. -/
namespace Foundations
universe u
variable {ε : Type*} {σ α β : Type u} {P Q : α → Prop} {E : ε → Prop} {x : Except ε α}

def Ensures (P : α → Prop) (E : ε → Prop) : Except ε α → Prop
  | .ok a => P a
  | .error e => E e

namespace Ensures

theorem mono (h : Ensures P E x) (hPQ : ∀ a, P a → Q a) : Ensures Q E x := by
  cases x with
  | ok a => exact hPQ a h
  | error e => exact h

theorem and {E' : ε → Prop} (h : Ensures P E x) (h' : Ensures Q E' x) : Ensures (fun a => P a ∧ Q a) E x := by
  cases x with
  | ok a => exact ⟨h, h'⟩
  | error e => exact h

theorem bind {R : β → Prop} {f : α → Except ε β} (h : Ensures P E x)
    (hf : ∀ a, P a → Ensures R E (f a)) : Ensures R E (x >>= f) := by
  cases x with
  | ok a => exact hf a h
  | error e => exact h

theorem of_ok {a : α} (h : Ensures P E x) (hx : x = .ok a) : P a := by
  subst hx
  exact h

theorem of_error {e : ε} (h : Ensures P E x) (hx : x = .error e) : E e := by
  subst hx
  exact h

/-- An invariant of all turns of a loop. -/
theorem foldlM {γ : Type*} {I : σ → Prop} {f : σ → γ → Except ε σ} {l : List γ} {s : σ}
    (step : ∀ s, ∀ b ∈ l, I s → Ensures I E (f s b)) (hs : I s) : Ensures I E (l.foldlM f s) := by
  induction l generalizing s with
  | nil => exact hs
  | cons b l ih =>
    rw [List.foldlM_cons]
    refine (step s b List.mem_cons_self hs).bind fun s' hs' => ?_
    exact ih (fun s c hc => step s c (List.mem_cons_of_mem b hc)) hs'

/-- A loop without repetition keeps what its later turns need, if every turn only uses up its own. -/
theorem foldlM_nodup {γ : Type*} {I : σ → Prop} {Need : σ → γ → Prop} {f : σ → γ → Except ε σ} {l : List γ}
    {s : σ} (hl : l.Nodup) (step : ∀ s b, I s → Need s b →
      Ensures (fun s' => I s' ∧ ∀ c, c ≠ b → Need s c → Need s' c) E (f s b))
    (hs : I s) (hneed : ∀ b ∈ l, Need s b) : Ensures I E (l.foldlM f s) := by
  induction l generalizing s with
  | nil => exact hs
  | cons b l ih =>
    obtain ⟨hb, hl⟩ := List.nodup_cons.mp hl
    rw [List.foldlM_cons]
    refine (step s b hs (hneed b List.mem_cons_self)).bind fun s' ⟨hs', hkeep⟩ => ?_
    refine ih hl hs' fun c hc => hkeep c ?_ (hneed c (List.mem_cons_of_mem b hc))
    rintro rfl
    exact hb hc

end Ensures
end Foundations

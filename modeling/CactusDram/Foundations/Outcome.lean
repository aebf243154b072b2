import Mathlib.Logic.Relation
import Mathlib.Data.List.Nodup

/-! Computations that end in a value or in an error: inversion of binds and folds, and the
step relations such computations realize. -/
namespace Foundations
open Relation
universe u v

section Except
variable {ε : Type v} {α β σ ι : Type u}

theorem bind_ok_iff {x : Except ε α} {f : α → Except ε β} {b : β} :
    x >>= f = .ok b ↔ ∃ a, x = .ok a ∧ f a = .ok b := by
  cases x with
  | ok a => exact ⟨fun h => ⟨a, rfl, h⟩, fun ⟨_, h, hb⟩ => by cases h; exact hb⟩
  | error e => exact ⟨fun h => (nomatch h), fun ⟨_, h, _⟩ => nomatch h⟩

theorem bind_error_iff {x : Except ε α} {f : α → Except ε β} {e : ε} :
    x >>= f = .error e ↔ x = .error e ∨ ∃ a, x = .ok a ∧ f a = .error e := by
  cases x with
  | ok a => exact ⟨fun h => .inr ⟨a, rfl, h⟩, fun h => by
      obtain h | ⟨_, h, hb⟩ := h
      · cases h
      · cases h; exact hb⟩
  | error e' => exact ⟨fun h => by cases h; exact .inl rfl, fun h => by
      obtain h | ⟨_, h, _⟩ := h
      · cases h; rfl
      · cases h⟩

theorem map_ok_iff {x : Except ε α} {f : α → β} {b : β} :
    f <$> x = .ok b ↔ ∃ a, x = .ok a ∧ f a = b := by
  cases x <;> simp [Functor.map, Except.map]

theorem map_error_iff {x : Except ε α} {f : α → β} {e : ε} :
    f <$> x = .error e ↔ x = .error e := by
  cases x <;> simp [Functor.map, Except.map]

/-- A successful check of a computation gives its value. -/
theorem exists_ok_of_any {x : Except ε α} {p : α → Bool} (h : x.toOption.any p) :
    ∃ a, x = .ok a ∧ p a := by
  cases x with
  | ok a => exact ⟨a, rfl, h⟩
  | error e => cases h

def failsAs [DecidableEq ε] (e : ε) : Except ε α → Bool
  | .ok _ => false
  | .error e' => e' = e

theorem eq_error_of_failsAs [DecidableEq ε] {x : Except ε α} {e : ε} (h : failsAs e x = true) :
    x = .error e := by
  cases x with
  | ok a => cases h
  | error e' => exact congrArg _ (of_decide_eq_true h)

/-- What every successful iteration keeps, a successful fold keeps. -/
theorem foldlM_invariant {f : σ → α → Except ε σ} {P : σ → Prop} {l : List α} {s s' : σ}
    (step : ∀ s, ∀ a ∈ l, ∀ s', P s → f s a = .ok s' → P s')
    (h : l.foldlM f s = .ok s') (hs : P s) : P s' := by
  induction l generalizing s with
  | nil => cases h; exact hs
  | cons a l ih =>
    rw [List.foldlM_cons, bind_ok_iff] at h
    obtain ⟨t, ht, h⟩ := h
    exact ih (fun s b hb => step s b (List.mem_cons_of_mem a hb)) h
      (step s a List.mem_cons_self t hs ht)

/-- An error of a fold is the error of one of its iterations. -/
theorem foldlM_error {f : σ → α → Except ε σ} {l : List α} {s : σ} {e : ε}
    (h : l.foldlM f s = .error e) : ∃ t, ∃ a ∈ l, f t a = .error e := by
  induction l generalizing s with
  | nil => cases h
  | cons a l ih =>
    rw [List.foldlM_cons, bind_error_iff] at h
    obtain h | ⟨t, _, h⟩ := h
    · exact ⟨s, a, List.mem_cons_self, h⟩
    · obtain ⟨t, b, hb, h⟩ := ih h
      exact ⟨t, b, List.mem_cons_of_mem a hb, h⟩

variable [DecidableEq ι]

/-- Update the entries of a table in turn, each from its own old value. -/
def updateEach (f : β → Except ε β) (l : List ι) (t : ι → β) : Except ε (ι → β) :=
  l.foldlM (fun t i => do
    let b ← f (t i)
    .ok (Function.update t i b)) t

/-- With no key twice, every listed entry is updated once and the others stay. -/
theorem updateEach_ok_iff {f : β → Except ε β} {l : List ι} (hl : l.Nodup) {t t' : ι → β} :
    updateEach f l t = .ok t' ↔ (∀ i ∈ l, f (t i) = .ok (t' i)) ∧ ∀ i ∉ l, t' i = t i := by
  induction l generalizing t with
  | nil =>
    simp only [updateEach, List.foldlM_nil, List.not_mem_nil, false_imp_iff, implies_true,
      not_false_iff, true_imp_iff, true_and]
    exact ⟨fun h => by cases h; exact fun _ => rfl, fun h => by rw [funext h]; rfl⟩
  | cons a l ih =>
    obtain ⟨ha, hl⟩ := List.nodup_cons.mp hl
    have hcons : updateEach f (a :: l) t = .ok t' ↔
        ∃ b, f (t a) = .ok b ∧ updateEach f l (Function.update t a b) = .ok t' := by
      simp only [updateEach, List.foldlM_cons, bind_ok_iff]
      exact ⟨fun ⟨u, ⟨b, hb, hu⟩, h⟩ => ⟨b, hb, by cases hu; exact h⟩,
        fun ⟨b, hb, h⟩ => ⟨_, ⟨b, hb, rfl⟩, h⟩⟩
    rw [hcons]
    constructor
    · rintro ⟨b, hb, h⟩
      obtain ⟨hin, hout⟩ := (ih hl).mp h
      have hta : t' a = b := by rw [hout a ha, Function.update_self]
      refine ⟨fun i hi => ?_, fun i hi => ?_⟩
      · rcases List.mem_cons.mp hi with rfl | hi
        · rw [hta, hb]
        · have hne : i ≠ a := fun h => ha (h ▸ hi)
          simpa [Function.update_of_ne hne] using hin i hi
      · obtain ⟨hne, hi⟩ := not_or.mp (mt List.mem_cons.mpr hi)
        rw [hout i hi, Function.update_of_ne hne]
    · rintro ⟨hin, hout⟩
      refine ⟨t' a, hin a List.mem_cons_self, (ih hl).mpr ⟨fun i hi => ?_, fun i hi => ?_⟩⟩
      · have hne : i ≠ a := fun h => ha (h ▸ hi)
        simpa [Function.update_of_ne hne] using hin i (List.mem_cons_of_mem a hi)
      · by_cases hia : i = a
        · subst hia; simp
        · rw [Function.update_of_ne hia, hout i (by simp [hia, hi])]

theorem updateEach_error {f : β → Except ε β} {l : List ι} (hl : l.Nodup) {t : ι → β} {e : ε}
    (h : updateEach f l t = .error e) : ∃ i ∈ l, f (t i) = .error e := by
  induction l generalizing t with
  | nil => cases h
  | cons a l ih =>
    obtain ⟨ha, hl⟩ := List.nodup_cons.mp hl
    rw [updateEach, List.foldlM_cons, bind_error_iff] at h
    obtain h | ⟨u, hu, h⟩ := h
    · rcases bind_error_iff.mp h with h | ⟨b, _, h⟩
      · exact ⟨a, List.mem_cons_self, h⟩
      · cases h
    · obtain ⟨b, _, hu⟩ := bind_ok_iff.mp hu
      cases hu
      obtain ⟨i, hi, h⟩ := ih hl h
      have hne : i ≠ a := fun h => ha (h ▸ hi)
      rw [Function.update_of_ne hne] at h
      exact ⟨i, List.mem_cons_of_mem a hi, h⟩

end Except

section Realizes
variable {ε : Type v} {α β σ : Type u} {Step : σ → σ → Prop} {Fails : σ → ε → Prop}

/-- Started in `s`, a computation follows `Step`: a value is reached through steps to its view,
and an error is one that a reached state fails with. -/
def Realizes (Step : σ → σ → Prop) (Fails : σ → ε → Prop) (s : σ) (x : Except ε α)
    (view : α → σ) : Prop :=
  (∀ a, x = .ok a → ReflTransGen Step s (view a)) ∧
    ∀ e, x = .error e → ∃ s', ReflTransGen Step s s' ∧ Fails s' e

namespace Realizes
variable {s t : σ} {view : α → σ}

theorem ok {a : α} (h : ReflTransGen Step s (view a)) :
    Realizes Step Fails s (Except.ok a) view :=
  ⟨fun b hb => by cases hb; exact h, fun e he => nomatch he⟩

theorem error {e : ε} (h : Fails s e) : Realizes Step Fails s (Except.error e : Except ε α) view :=
  ⟨fun a ha => (nomatch ha), fun e' he => by cases he; exact ⟨s, .refl, h⟩⟩

theorem steps {x : Except ε α} (h : ReflTransGen Step s t) (hx : Realizes Step Fails t x view) :
    Realizes Step Fails s x view :=
  ⟨fun a ha => h.trans (hx.1 a ha), fun e he => by
    obtain ⟨s', hs, hf⟩ := hx.2 e he
    exact ⟨s', h.trans hs, hf⟩⟩

theorem step {x : Except ε α} (h : Step s t) (hx : Realizes Step Fails t x view) :
    Realizes Step Fails s x view := steps (.single h) hx

theorem bind {x : Except ε α} {f : α → Except ε β} {view' : β → σ}
    (hx : Realizes Step Fails s x view)
    (hf : ∀ a, x = .ok a → Realizes Step Fails (view a) (f a) view') :
    Realizes Step Fails s (x >>= f) view' := by
  refine ⟨fun b hb => ?_, fun e he => ?_⟩
  · obtain ⟨a, ha, hb⟩ := bind_ok_iff.mp hb
    exact (hx.1 a ha).trans ((hf a ha).1 b hb)
  · rcases bind_error_iff.mp he with he | ⟨a, ha, he⟩
    · exact hx.2 e he
    · exact (steps (hx.1 a ha) (hf a ha)).2 e he

/-- A call that takes no step of its own. -/
theorem call {x : Except ε α} {f : α → Except ε β} {view' : β → σ}
    (herr : ∀ e, x = .error e → Fails s e)
    (hf : ∀ a, x = .ok a → Realizes Step Fails s (f a) view') :
    Realizes Step Fails s (x >>= f) view' :=
  have hx : Realizes Step Fails s x fun _ => s :=
    ⟨fun _ _ => .refl, fun e he => ⟨s, .refl, herr e he⟩⟩
  hx.bind hf

theorem map {x : Except ε α} {f : α → β} {view' : β → σ} (hv : ∀ a, view' (f a) = view a)
    (hx : Realizes Step Fails s x view) : Realizes Step Fails s (f <$> x) view' := by
  refine ⟨fun b hb => ?_, fun e he => hx.2 e (map_error_iff.mp he)⟩
  obtain ⟨a, ha, rfl⟩ := map_ok_iff.mp hb
  rw [hv]
  exact hx.1 a ha

end Realizes

/-- What holds at the start and is kept by every step holds at every reached state. -/
theorem invariant_of_steps {P : σ → Prop} (hstep : ∀ s t, P s → Step s t → P t) {s t : σ}
    (h : ReflTransGen Step s t) (hs : P s) : P t := by
  induction h with
  | refl => exact hs
  | tail _ ht ih => exact hstep _ _ ih ht

/-- A fold realizes the steps of its iterations, which may rely on what the steps keep. -/
theorem Realizes.foldlM {ι : Type u} {I : σ → Prop} (hI : ∀ s t, I s → Step s t → I t) {view : α → σ}
    {f : α → ι → Except ε α} {l : List ι}
    (hf : ∀ a, ∀ x ∈ l, I (view a) → Realizes Step Fails (view a) (f a x) view) {a : α}
    (ha : I (view a)) : Realizes Step Fails (view a) (l.foldlM f a) view := by
  induction l generalizing a with
  | nil => exact .ok .refl
  | cons x l ih =>
    have hx := hf a x List.mem_cons_self ha
    rw [List.foldlM_cons]
    refine hx.bind fun b hb => ih (fun a y hy => hf a y (List.mem_cons_of_mem x hy)) ?_
    exact invariant_of_steps hI (hx.1 b hb) ha

end Realizes
end Foundations

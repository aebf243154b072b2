import Mathlib.Data.List.TakeWhile
import Mathlib.Data.List.Count
import Mathlib.Logic.Function.Basic

/-! Counting in a history that resets divide into epochs. A history lists its newest event first. -/
namespace Foundations

variable {α : Type*} (counts resets : α → Bool)

/-- The counted events since the last reset, or since the start. -/
def current (h : List α) : ℕ := (h.takeWhile fun e => !resets e).countP counts

/-- The counted events between the last two resets; the start counts as a reset. -/
def previous (h : List α) : ℕ := current counts resets (h.dropWhile fun e => !resets e).tail

variable {counts resets} {e : α} {h : List α}

theorem current_cons_of_reset (he : resets e = true) : current counts resets (e :: h) = 0 := by
  simp [current, he]

theorem previous_cons_of_reset (he : resets e = true) :
    previous counts resets (e :: h) = current counts resets h := by
  simp [previous, he]

theorem current_cons_of_not_reset (he : resets e = false) :
    current counts resets (e :: h) = current counts resets h + (counts e).toNat := by
  unfold current
  rw [List.takeWhile_cons_of_pos (by simpa using he), List.countP_cons]
  cases counts e <;> rfl

theorem previous_cons_of_not_reset (he : resets e = false) :
    previous counts resets (e :: h) = previous counts resets h := by
  unfold previous
  rw [List.dropWhile_cons_of_pos (by simpa using he)]

/-- Events that are not counted leave the count as it is, or end the epoch. -/
theorem current_append {es : List α} (hes : ∀ e ∈ es, counts e = false) :
    current counts resets (es ++ h) = if es.any resets then 0 else current counts resets h := by
  induction es with
  | nil => rfl
  | cons e es ih =>
    rw [List.cons_append, List.any_cons]
    cases he : resets e with
    | true => rw [current_cons_of_reset he, Bool.true_or, if_pos rfl]
    | false =>
      rw [current_cons_of_not_reset he, hes e List.mem_cons_self, Bool.false_or,
        ih fun e' he' => hes e' (List.mem_cons_of_mem e he')]
      rfl

section Tables
variable {ι : Type*} {counts resets : ι → α → Bool} {m : ℕ} {cur prev : ι → ℕ}

/-- The two tables hold, modulo `m`, the counts of every index in its current and in its previous
epoch. -/
structure Tracks (counts resets : ι → α → Bool) (m : ℕ) (cur prev : ι → ℕ) (h : List α) : Prop where
  current : ∀ i, cur i = current (counts i) (resets i) h % m
  previous : ∀ i, prev i = previous (counts i) (resets i) h % m

theorem tracks_nil (counts resets : ι → α → Bool) (m : ℕ) :
    Tracks counts resets m (fun _ => 0) (fun _ => 0) [] :=
  ⟨fun _ => rfl, fun _ => rfl⟩

theorem Tracks.ignore (hs : Tracks counts resets m cur prev h) (hcount : ∀ i, counts i e = false)
    (hreset : ∀ i, resets i e = false) : Tracks counts resets m cur prev (e :: h) where
  current i := by
    rw [current_cons_of_not_reset (hreset i), hcount i]
    exact hs.current i
  previous i := by
    rw [previous_cons_of_not_reset (hreset i)]
    exact hs.previous i

theorem Tracks.append (hs : Tracks counts resets m cur prev h) {es : List α}
    (hes : ∀ e ∈ es, ∀ i, counts i e = false ∧ resets i e = false) :
    Tracks counts resets m cur prev (es ++ h) := by
  induction es with
  | nil => exact hs
  | cons e es ih =>
    apply Tracks.ignore
    · exact ih fun e' he' => hes e' (List.mem_cons_of_mem e he')
    · exact fun i => (hes e List.mem_cons_self i).1
    · exact fun i => (hes e List.mem_cons_self i).2

theorem Tracks.count [DecidableEq ι] (hs : Tracks counts resets m cur prev h) {n : ι}
    (hcount : ∀ i, counts i e = decide (i = n)) (hreset : ∀ i, resets i e = false) :
    Tracks counts resets m (Function.update cur n ((cur n + 1) % m)) prev (e :: h) where
  current i := by
    rw [current_cons_of_not_reset (hreset i), hcount i]
    by_cases hi : i = n
    · subst hi
      rw [Function.update_self, hs.current i]
      simp
    · rw [Function.update_of_ne hi, hs.current i]
      simp [hi]
  previous i := by
    rw [previous_cons_of_not_reset (hreset i)]
    exact hs.previous i

theorem Tracks.reset (hs : Tracks counts resets m cur prev h) (p : ι → Prop) [DecidablePred p]
    (hcount : ∀ i, counts i e = false) (hreset : ∀ i, resets i e = decide (p i)) :
    Tracks counts resets m (fun i => if p i then 0 else cur i)
      (fun i => if p i then cur i else prev i) (e :: h) where
  current i := by
    by_cases hi : p i
    · rw [if_pos hi, current_cons_of_reset (by rw [hreset i]; simpa using hi), Nat.zero_mod]
    · rw [if_neg hi, current_cons_of_not_reset (by rw [hreset i]; simpa using hi), hcount i]
      exact hs.current i
  previous i := by
    by_cases hi : p i
    · rw [if_pos hi, previous_cons_of_reset (by rw [hreset i]; simpa using hi)]
      exact hs.current i
    · rw [if_neg hi, previous_cons_of_not_reset (by rw [hreset i]; simpa using hi)]
      exact hs.previous i

theorem Tracks.reset_one [DecidableEq ι] (hs : Tracks counts resets m cur prev h) {n : ι}
    (hcount : ∀ i, counts i e = false) (hreset : ∀ i, resets i e = decide (i = n)) :
    Tracks counts resets m (Function.update cur n 0) (Function.update prev n (cur n)) (e :: h) := by
  have hcur : Function.update cur n 0 = fun i => if i = n then 0 else cur i := by
    funext i
    simp [Function.update_apply]
  have hprev : Function.update prev n (cur n) = fun i => if i = n then cur i else prev i := by
    funext i
    by_cases hi : i = n
    · subst hi
      simp
    · simp [hi]
  rw [hcur, hprev]
  exact hs.reset (· = n) hcount hreset

end Tables
end Foundations

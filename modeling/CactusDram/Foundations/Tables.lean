import Mathlib.Logic.Function.Basic
import Mathlib.Data.List.Basic

/-! Tables filled by a loop of writes. -/
namespace Foundations

variable {ι κ α : Type*} [DecidableEq κ]

/-- Write `val a` at `key a`, for every `a` of the list in turn. -/
def writeAll (key : ι → κ) (val : ι → α) (l : List ι) (t : κ → α) : κ → α :=
  l.foldl (fun t a => Function.update t (key a) (val a)) t

variable {key : ι → κ} {val : ι → α} {l : List ι} {t : κ → α} {x : κ}

theorem writeAll_cons (b : ι) :
    writeAll key val (b :: l) t = writeAll key val l (Function.update t (key b) (val b)) := rfl

theorem writeAll_of_notMem (h : ∀ a ∈ l, key a ≠ x) : writeAll key val l t x = t x := by
  induction l generalizing t with
  | nil => rfl
  | cons b l ih =>
    rw [writeAll_cons, ih fun a ha => h a (List.mem_cons_of_mem b ha)]
    apply Function.update_of_ne
    exact (h b List.mem_cons_self).symm

/-- A place that one element only writes holds the value of that element. -/
theorem writeAll_of_mem {a : ι} (ha : a ∈ l) (hinj : ∀ b ∈ l, key b = key a → b = a) :
    writeAll key val l t (key a) = val a := by
  induction l generalizing t with
  | nil => cases ha
  | cons b l ih =>
    rw [writeAll_cons]
    by_cases hl : a ∈ l
    · exact ih hl fun c hc => hinj c (List.mem_cons_of_mem b hc)
    · have hab : a = b := (List.mem_cons.mp ha).resolve_right hl
      subst hab
      rw [writeAll_of_notMem]
      · apply Function.update_self
      · intro c hc hkey
        exact hl (hinj c (List.mem_cons_of_mem a hc) hkey ▸ hc)

/-- Every value in the table is an old one or one of those written. -/
theorem writeAll_induct {P : α → Prop} (ht : P (t x)) (hval : ∀ a ∈ l, P (val a)) :
    P (writeAll key val l t x) := by
  induction l generalizing t with
  | nil => exact ht
  | cons b l ih =>
    rw [writeAll_cons]
    apply ih
    · by_cases hx : x = key b
      · subst hx
        rw [Function.update_self]
        exact hval b List.mem_cons_self
      · rwa [Function.update_of_ne hx]
    · intro a ha
      exact hval a (List.mem_cons_of_mem b ha)

/-- Taking out a key takes out the one element that has it. -/
theorem perm_cons_filter_ne {f : α → κ} {l : List α} (hl : (l.map f).Nodup) {a : α} (ha : a ∈ l) :
    l.Perm (a :: l.filter fun b => f b ≠ f a) := by
  induction l with
  | nil => cases ha
  | cons b l ih =>
    rw [List.map_cons, List.nodup_cons] at hl
    by_cases hba : f b = f a
    · have heq : a = b := by
        refine (List.mem_cons.mp ha).resolve_right fun hmem => hl.1 ?_
        rw [hba]
        exact List.mem_map_of_mem hmem
      subst heq
      have hothers : l.filter (fun c => f c ≠ f a) = l := by
        refine List.filter_eq_self.mpr fun c hc => ?_
        have hne : f c ≠ f a := fun hkey => hl.1 (hkey ▸ List.mem_map_of_mem hc)
        simpa using hne
      rw [List.filter_cons_of_neg (by simp), hothers]
    · have hmem : a ∈ l := (List.mem_cons.mp ha).resolve_left fun heq => hba (heq ▸ rfl)
      rw [List.filter_cons_of_pos (by simpa using hba)]
      exact ((ih hl.2 hmem).cons b).trans (List.Perm.swap _ _ _)

/-- Erasing the first match takes out nothing else. -/
theorem mem_eraseP_of_find {l : List α} {p : α → Bool} {a : α} (ha : a ∈ l)
    (hne : l.find? p ≠ some a) : a ∈ l.eraseP p := by
  induction l with
  | nil => cases ha
  | cons b l ih =>
    cases hb : p b with
    | true =>
      rw [List.find?_cons_of_pos hb] at hne
      rw [List.eraseP_cons_of_pos hb]
      exact (List.mem_cons.mp ha).resolve_left fun hab => hne (hab ▸ rfl)
    | false =>
      rw [List.find?_cons_of_neg (by simp [hb])] at hne
      rw [List.eraseP_cons_of_neg (by simp [hb])]
      cases ha with
      | head => exact List.mem_cons_self
      | tail _ ha => exact List.mem_cons_of_mem _ (ih ha hne)

end Foundations

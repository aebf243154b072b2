import Mathlib.Data.List.Induction
import Mathlib.Data.List.Perm.Basic

/-! Sorting by insertion, where the test that places an element need not be the order that the list
is meant to have. -/
namespace Foundations
variable {α : Type*}

/-- Put an element before the first one that passes the test. -/
def insertBefore (P : α → Bool) (x : α) : List α → List α
  | [] => [x]
  | a :: l => if P a then x :: a :: l else a :: insertBefore P x l

/-- Insert elements one after another, each with a test of its own. -/
def insertAll (P : α → α → Bool) (l : List α) : List α :=
  l.foldl (fun acc x => insertBefore (P x) x acc) []

variable {P : α → Bool} {x : α} {l : List α}

/-- The element stands between those that fail the test and the first one that passes it. -/
theorem insertBefore_split (P : α → Bool) (x : α) (l : List α) :
    ∃ xs ys, l = xs ++ ys ∧ insertBefore P x l = xs ++ x :: ys ∧ (∀ a ∈ xs, P a = false) ∧
      ∀ a ∈ ys.head?, P a = true := by
  induction l with
  | nil => exact ⟨[], [], rfl, rfl, by simp, by simp⟩
  | cons a l ih =>
    by_cases ha : P a = true
    · exact ⟨[], a :: l, rfl, if_pos ha, by simp, by simpa using ha⟩
    · obtain ⟨xs, ys, hl, hins, hxs, hys⟩ := ih
      refine ⟨a :: xs, ys, congrArg (a :: ·) hl, ?_, ?_, hys⟩
      · rw [insertBefore, if_neg ha, hins, List.cons_append]
      · simpa [ha] using hxs

theorem insertBefore_perm (P : α → Bool) (x : α) (l : List α) : (insertBefore P x l).Perm (x :: l) := by
  obtain ⟨xs, ys, rfl, hins, -, -⟩ := insertBefore_split P x l
  rw [hins]
  exact List.perm_middle

theorem sublist_insertBefore (P : α → Bool) (x : α) (l : List α) : l.Sublist (insertBefore P x l) := by
  obtain ⟨xs, ys, rfl, hins, -, -⟩ := insertBefore_split P x l
  rw [hins]
  exact (List.Sublist.refl xs).append (List.sublist_cons_self x ys)

theorem insertAll_append_singleton (P : α → α → Bool) (l : List α) (x : α) :
    insertAll P (l ++ [x]) = insertBefore (P x) x (insertAll P l) := by
  rw [insertAll, List.foldl_append]
  rfl

theorem insertAll_perm (P : α → α → Bool) (l : List α) : (insertAll P l).Perm l := by
  induction l using List.reverseRecOn with
  | nil => exact .refl _
  | append_singleton l x ih =>
    rw [insertAll_append_singleton]
    calc (insertBefore (P x) x (insertAll P l)).Perm (x :: insertAll P l) := insertBefore_perm _ _ _
      List.Perm _ (x :: l) := ih.cons x
      List.Perm _ (l ++ [x]) := (List.perm_append_singleton x l).symm

/-- The first element that has a property. -/
theorem exists_first {Q : α → Prop} (h : ∃ a ∈ l, Q a) :
    ∃ xs a ys, l = xs ++ a :: ys ∧ Q a ∧ ∀ b ∈ xs, ¬ Q b := by
  classical
  obtain ⟨a, ha⟩ : ∃ a, l.find? (fun a => decide (Q a)) = some a :=
    Option.isSome_iff_exists.mp (List.find?_isSome.mpr (by simpa using h))
  obtain ⟨hQ, xs, ys, hl, hxs⟩ := List.find?_eq_some_iff_append.mp ha
  exact ⟨xs, a, ys, hl, of_decide_eq_true hQ, by simpa using hxs⟩

section Order
variable {R : α → α → Prop} (asymm : ∀ a b, R a b → ¬ R b a) (trans : ∀ a b c, R a b → R b c → R a c)
include asymm trans

/-- Where the list is in order, it stays so if the test fails of all that belong before the element
and passes of the first that belongs after it. -/
theorem pairwise_insertBefore_iff (hl : l.Pairwise R) (hcomp : ∀ a ∈ l, R a x ∨ R x a) :
    (insertBefore P x l).Pairwise R ↔ (∀ a ∈ l, R a x → P a = false) ∧
      ∀ a ∈ l, R x a → (∀ b ∈ l, R x b → b = a ∨ R a b) → P a = true := by
  obtain ⟨xs, ys, rfl, hins, hxs, hys⟩ := insertBefore_split P x l
  obtain ⟨hpx, hpy, hxy⟩ := List.pairwise_append.mp hl
  rw [hins]
  constructor
  · intro hp
    obtain ⟨-, hpy', hxy'⟩ := List.pairwise_append.mp hp
    have hbefore : ∀ a ∈ xs, R a x := fun a ha => hxy' a ha x (by simp)
    have hafter : ∀ a ∈ ys, R x a := (List.pairwise_cons.mp hpy').1
    constructor
    · intro a ha hax
      rcases List.mem_append.mp ha with ha | ha
      · exact hxs a ha
      · exact absurd (hafter a ha) (asymm a x hax)
    · intro a ha hxa hfirst
      rcases List.mem_append.mp ha with ha | ha
      · exact absurd hxa (asymm a x (hbefore a ha))
      · cases ys with
        | nil => simp at ha
        | cons b ys =>
          refine hys a (Option.mem_def.mpr (congrArg some ?_))
          rcases hfirst b (by simp) (hafter b (by simp)) with heq | hab
          · exact heq
          · rcases List.mem_cons.mp ha with heq | ha
            · exact heq.symm
            · exact absurd ((List.pairwise_cons.mp hpy).1 a ha) (asymm a b hab)
  · rintro ⟨hfail, hpass⟩
    have hbefore : ∀ a ∈ xs, R a x := by
      by_contra hne
      push Not at hne
      obtain ⟨us, a, vs, rfl, ha, hus⟩ := exists_first hne
      have hin (b : α) (hb : b ∈ us ++ a :: vs) : b ∈ us ++ a :: vs ++ ys := List.mem_append_left _ hb
      have hxa : R x a := (hcomp a (hin a (by simp))).resolve_left ha
      have htest := hpass a (hin a (by simp)) hxa fun b hb hxb => ?_
      · exact absurd (hxs a (by simp)) (by simp [htest])
      · rcases List.mem_append.mp hb with hb' | hb'
        · rcases List.mem_append.mp hb' with hb' | hb'
          · exact absurd hxb (asymm b x (not_not.mp (hus b hb')))
          · rcases List.mem_cons.mp hb' with heq | hb'
            · exact .inl heq
            · exact .inr ((List.pairwise_cons.mp (List.pairwise_append.mp hpx).2.1).1 b hb')
        · exact .inr (hxy a (by simp) b hb')
    have hafter : ∀ a ∈ ys, R x a := by
      cases ys with
      | nil => simp
      | cons b ys =>
        have hxb : R x b := by
          refine (hcomp b (by simp)).resolve_left fun hbx => ?_
          exact absurd (hfail b (by simp) hbx) (by simp [hys b (by simp)])
        intro a ha
        rcases List.mem_cons.mp ha with rfl | ha
        · exact hxb
        · exact trans x b a hxb ((List.pairwise_cons.mp hpy).1 a ha)
    refine List.pairwise_append.mpr ⟨hpx, List.pairwise_cons.mpr ⟨hafter, hpy⟩, fun a ha b hb => ?_⟩
    rcases List.mem_cons.mp hb with rfl | hb
    · exact hbefore a ha
    · exact hxy a ha b hb

/-- The elements end up in order exactly if each of them is put where it belongs among the ones
before it. -/
theorem pairwise_insertAll_iff {P : α → α → Bool} (hcomp : l.Pairwise fun a x => R a x ∨ R x a) :
    (insertAll P l).Pairwise R ↔ ∀ xs x ys, l = xs ++ x :: ys → (∀ a ∈ xs, R a x → P x a = false) ∧
      ∀ a ∈ xs, R x a → (∀ b ∈ xs, R x b → b = a ∨ R a b) → P x a = true := by
  induction l using List.reverseRecOn with
  | nil => simp [insertAll]
  | append_singleton l x ih =>
    obtain ⟨hcomp', -, hx⟩ := List.pairwise_append.mp hcomp
    have hperm := insertAll_perm P l
    have hlast (hl : (insertAll P l).Pairwise R) := pairwise_insertBefore_iff asymm trans
      (P := P x) hl fun a ha => hx a (hperm.mem_iff.mp ha) x (by simp)
    simp only [hperm.mem_iff] at hlast
    rw [insertAll_append_singleton]
    constructor
    · intro hp xs y ys hsplit
      have hl := hp.sublist (sublist_insertBefore _ _ _)
      rcases List.eq_nil_or_concat ys with rfl | ⟨ys, z, rfl⟩
      · obtain ⟨rfl, heq⟩ := List.append_inj' hsplit rfl
        obtain rfl := List.singleton_inj.mp heq
        exact (hlast hl).mp hp
      · rw [List.concat_eq_append, ← List.cons_append, ← List.append_assoc] at hsplit
        exact (ih hcomp').mp hl xs y ys (List.append_inj' hsplit rfl).1
    · intro hall
      have hl := (ih hcomp').mpr fun xs y ys hsplit => hall xs y (ys ++ [x]) (by simp [hsplit])
      exact (hlast hl).mpr (hall l x [] rfl)

end Order
end Foundations

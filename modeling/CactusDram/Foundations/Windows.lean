import Mathlib.Data.Nat.Count
import Mathlib.Data.Nat.ModEq
import Mathlib.Data.List.Range

/-! Windows of a numbered history, and how often a number of given residue falls into one. -/
namespace Foundations

variable {α : Type*} {f : ℕ → α}

/-- A window of a history that lists its newest entry first. -/
theorem window_eq_range' {window : List α} {n : ℕ} (h : window <:+: ((List.range n).map f).reverse) :
    ∃ a, window = ((List.range' a window.length).map f).reverse := by
  obtain ⟨newer, older, h⟩ := h
  refine ⟨older.length, ?_⟩
  have hrev : older.reverse ++ (window.reverse ++ newer.reverse) = (List.range n).map f := by
    have := congrArg List.reverse h
    simpa only [List.reverse_append, List.reverse_reverse] using this
  have hlen : older.length + window.length ≤ n := by
    have := congrArg List.length hrev
    simp at this
    omega
  have hdrop : window.reverse = (((List.range n).map f).drop older.length).take window.length := by
    rw [← hrev, List.drop_left' (by simp), List.take_left' (by simp)]
  apply List.reverse_injective
  rw [List.reverse_reverse, hdrop, List.range_eq_range', ← List.map_drop, ← List.map_take,
    List.drop_range', List.take_range'_of_length_ge (by omega)]
  simp

/-- A history whose entries are determined by their numbers. -/
theorem eq_reverse_map_range {l : List α}
    (h : ∀ newer a older, l = newer ++ a :: older → a = f older.length) :
    l = ((List.range l.length).map f).reverse := by
  induction l with
  | nil => rfl
  | cons a l ih =>
    have hrest := ih fun newer b older hsplit => h (a :: newer) b older (by rw [hsplit]; rfl)
    rw [List.length_cons, List.range_succ, List.map_append, List.reverse_append, ← hrest,
      h [] a l rfl]
    rfl

theorem eq_of_reverse_map_range {newer older : List α} {a : α} {n : ℕ}
    (h : newer ++ a :: older = ((List.range n).map f).reverse) : a = f older.length := by
  have hrev : older.reverse ++ a :: newer.reverse = (List.range n).map f := by
    have := congrArg List.reverse h
    simpa using this
  have hlen : older.length < n := by
    have := congrArg List.length hrev
    simp at this
    omega
  have hget := congrArg (fun l => l[older.length]?) hrev
  simp only [List.getElem?_map, List.getElem?_range hlen] at hget
  rw [List.getElem?_append_right (by simp)] at hget
  simpa using hget

/-- Counting in blocks that hold at most one counted element each. -/
theorem countP_flatMap_of_indicator {β : Type*} {g : ℕ → List β} {p : β → Bool} {hit : ℕ → Bool}
    {l : List ℕ} (h : ∀ n ∈ l, (g n).countP p = (hit n).toNat) :
    (l.flatMap g).countP p = l.countP hit := by
  induction l with
  | nil => rfl
  | cons n l ih =>
    rw [List.flatMap_cons, List.countP_append, h n List.mem_cons_self,
      ih fun n' hn' => h n' (List.mem_cons_of_mem n hn'), List.countP_cons]
    cases hit n <;> simp [Nat.add_comm]

/-- The numbers of residue `k` modulo `d`, in order. -/
theorem filter_residue_range {d k : ℕ} (hk : k < d) (n : ℕ) :
    ∃ m, (List.range n).filter (fun i => i % d = k) = (List.range m).map fun j => k + j * d := by
  suffices h : ∃ m, (List.range n).filter (fun i => i % d = k) =
      ((List.range m).map fun j => k + j * d) ∧ n ≤ k + m * d ∧ ∀ j < m, k + j * d < n by
    obtain ⟨m, hm, _⟩ := h
    exact ⟨m, hm⟩
  have hmod (j : ℕ) : (k + j * d) % d = k := by
    rw [Nat.add_mul_mod_self_right, Nat.mod_eq_of_lt hk]
  induction n with
  | zero => exact ⟨0, rfl, by omega, by omega⟩
  | succ n ih =>
    obtain ⟨m, hm, hle, hlt⟩ := ih
    rw [List.range_succ, List.filter_append, hm]
    by_cases hn : n % d = k
    · -- the numbers before `n` leave no gap, so `n` is the next one
      have heq : n = k + n / d * d := by
        have := Nat.div_add_mod n d
        rw [hn, Nat.mul_comm] at this
        omega
      have hnext : n = k + m * d := by
        have hge : m ≤ n / d := by
          by_contra hbig
          have := hlt (n / d) (by omega)
          omega
        have := Nat.mul_le_mul_right d hge
        omega
      refine ⟨m + 1, ?_, ?_, fun j hj => ?_⟩
      · rw [List.range_succ, List.map_append]
        simp [hn, ← hnext]
      · rw [Nat.succ_mul]
        omega
      · have := Nat.mul_le_mul_right d (Nat.le_of_lt_succ hj)
        omega
    · refine ⟨m, by simp [hn], ?_, fun j hj => ?_⟩
      · have hne : n ≠ k + m * d := fun heq => hn (heq ▸ hmod m)
        omega
      · have := hlt j hj
        omega

/-- A progression whose step is prime to `q` meets every residue once in a period. -/
theorem count_residue_period {d q r : ℕ} (hd : d.Coprime q) (hr : r < q) (b : ℕ) :
    Nat.count (fun j => (b + j * d) % q = r) q = 1 := by
  have hinj : Set.InjOn (fun j => (b + j * d) % q) (Finset.range q) := by
    intro i hi j hj hij
    have hmod : i * d ≡ j * d [MOD q] := Nat.ModEq.add_left_cancel' b hij
    have hmod' : i ≡ j [MOD q] := Nat.ModEq.cancel_right_of_coprime hd.symm hmod
    exact Nat.ModEq.eq_of_lt_of_lt hmod' (Finset.mem_range.mp hi) (Finset.mem_range.mp hj)
  have himage : (Finset.range q).image (fun j => (b + j * d) % q) = Finset.range q := by
    apply Finset.eq_of_subset_of_card_le
    · intro x hx
      obtain ⟨j, _, rfl⟩ := Finset.mem_image.mp hx
      exact Finset.mem_range.mpr (Nat.mod_lt _ (by omega))
    · rw [Finset.card_image_of_injOn hinj]
  obtain ⟨j, hj, hjr⟩ := Finset.mem_image.mp (himage ▸ Finset.mem_range.mpr hr)
  rw [Nat.count_eq_card_filter_range, Finset.card_eq_one]
  refine ⟨j, Finset.ext fun i => ?_⟩
  rw [Finset.mem_filter, Finset.mem_singleton]
  constructor
  · rintro ⟨hi, hir⟩
    exact hinj hi hj (hir.trans hjr.symm)
  · rintro rfl
    exact ⟨hj, hjr⟩

theorem countP_residue {d q r : ℕ} (hd : d.Coprime q) (hr : r < q) (a b m : ℕ) :
    (List.range' a (m * q)).countP (fun j => (b + j * d) % q = r) = m := by
  induction m with
  | zero => simp
  | succ m ih =>
    have hlast : (List.range' (a + m * q) q).countP (fun j => (b + j * d) % q = r) = 1 := by
      rw [List.range'_eq_map_range, List.countP_map, ← count_residue_period hd hr (b + (a + m * q) * d)]
      unfold Nat.count
      congr 1
      funext j
      simp only [Function.comp_apply, Nat.add_mul, Nat.add_assoc]
    rw [Nat.succ_mul, ← List.range'_append_1, List.countP_append, ih, hlast]

/-- The numbers of one residue in a stretch of whole periods, by their quotients. -/
theorem countP_stride {p r : ℕ} (hr : r < p) (a m : ℕ) (q : ℕ → Bool) :
    ∃ a', (List.range' a (m * p)).countP (fun k => k % p = r ∧ q (k / p) = true) =
      (List.range' a' m).countP q := by
  have hinfix : (List.range' a (m * p)).filter (fun k => k % p = r) <:+:
      (List.range (a + m * p)).filter (fun k => k % p = r) := by
    refine List.IsInfix.filter _ ⟨List.range' 0 a, [], ?_⟩
    have hsplit := List.range'_append_1 (s := 0) (m := a) (n := m * p)
    rw [Nat.zero_add] at hsplit
    rw [List.append_nil, hsplit, List.range_eq_range']
  obtain ⟨n, hn⟩ := filter_residue_range hr (a + m * p)
  rw [hn] at hinfix
  obtain ⟨a', ha'⟩ := window_eq_range' (List.reverse_infix.mpr hinfix)
  have hlen : ((List.range' a (m * p)).filter fun k => k % p = r).length = m := by
    rw [← List.countP_eq_length_filter]
    have hcount := countP_residue (Nat.coprime_one_left p) hr a 0 m
    simpa only [Nat.zero_add, Nat.mul_one] using hcount
  rw [List.length_reverse, hlen] at ha'
  refine ⟨a', ?_⟩
  have hquot : ((fun k => q (k / p)) ∘ fun j => r + j * p) = q := by
    funext j
    rw [Function.comp_apply, Nat.add_mul_div_right _ _ (Nat.zero_lt_of_lt hr), Nat.div_eq_of_lt hr,
      Nat.zero_add]
  have hfilter : (List.range' a (m * p)).countP (fun k => k % p = r ∧ q (k / p) = true) =
      ((List.range' a (m * p)).filter fun k => k % p = r).countP fun k => q (k / p) := by
    rw [List.countP_filter]
    congr 1
    funext k
    rw [Bool.decide_and, Bool.decide_eq_true, Bool.and_comm]
  rw [hfilter, List.reverse_injective ha', List.countP_map, hquot]

/-- The blocks of a table of `q * size` entries, visited along a progression whose step is prime to
`q`: every entry lies in one visited block of a period. -/
theorem countP_block {d q size y : ℕ} (hd : d.Coprime q) (hy : y < q * size) (a b m : ℕ) :
    (List.range' a (m * q)).countP
      (fun j => (b + j * d) % q * size ≤ y ∧ y < (b + j * d) % q * size + size) = m := by
  have hsize : 0 < size := by
    by_contra hzero
    obtain rfl : size = 0 := by omega
    omega
  have hr : y / size < q := Nat.div_lt_of_lt_mul (by rwa [Nat.mul_comm])
  refine Eq.trans ?_ (countP_residue hd hr a b m)
  congr 1
  funext j
  rw [decide_eq_decide]
  constructor
  · rintro ⟨hle, hlt⟩
    symm
    rw [Nat.div_eq_iff hsize]
    omega
  · intro heq
    have hdiv := Nat.div_add_mod y size
    have hmod := Nat.mod_lt y hsize
    rw [← heq, Nat.mul_comm] at hdiv
    omega

end Foundations

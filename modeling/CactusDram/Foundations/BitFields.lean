import Mathlib.Data.Nat.Bitwise
import Mathlib.Data.Nat.Size
import Mathlib.Tactic

/-! Bit fields laid out without gaps, from the lowest bit up. -/
namespace Foundations.BitFields
variable {ι : Type*} [DecidableEq ι] {w : ι → ℕ} {l : List ι}

/-- The field of `width` bits at a position. -/
def extract (line pos width : ℕ) : ℕ := line / 2 ^ pos % 2 ^ width

/-- The position of a field, behind the fields listed before it. -/
def offset (w : ι → ℕ) : List ι → ι → ℕ
  | [], _ => 0
  | a :: l, i => if i = a then 0 else w a + offset w l i

/-- The number of bits of a layout. -/
def total (w : ι → ℕ) (l : List ι) : ℕ := (l.map w).sum

theorem extract_lt (line pos width : ℕ) : extract line pos width < 2 ^ width :=
  Nat.mod_lt _ (Nat.two_pow_pos width)

theorem extract_eq_and (line pos width : ℕ) :
    extract line pos width = (line >>> pos) &&& (2 ^ width - 1) := by
  rw [Nat.and_two_pow_sub_one_eq_mod, Nat.shiftRight_eq_div_pow, extract]

theorem extract_zero_pos (line width : ℕ) : extract line 0 width = line % 2 ^ width := by
  simp [extract]

theorem extract_add (line pos pos' width : ℕ) :
    extract line (pos + pos') width = extract (line / 2 ^ pos) pos' width := by
  rw [extract, extract, pow_add, Nat.div_div_eq_div_mul]

theorem offset_cons_ne {a i : ι} (h : i ≠ a) : offset w (a :: l) i = w a + offset w l i := by
  simp [offset, h]

omit [DecidableEq ι] in
theorem total_cons (a : ι) (l : List ι) : total w (a :: l) = w a + total w l := by
  simp [total]

/-- The fields of a layout determine a number that fits it. -/
theorem eq_of_extract_eq (hl : l.Nodup) {x y : ℕ} (hx : x < 2 ^ total w l) (hy : y < 2 ^ total w l)
    (h : ∀ i ∈ l, extract x (offset w l i) (w i) = extract y (offset w l i) (w i)) : x = y := by
  induction l generalizing x y with
  | nil =>
    simp only [total, List.map_nil, List.sum_nil, pow_zero] at hx hy
    omega
  | cons a l ih =>
    rw [total_cons, pow_add] at hx hy
    have hlow : x % 2 ^ w a = y % 2 ^ w a := by
      have := h a List.mem_cons_self
      simpa [offset, extract_zero_pos] using this
    have hhigh : x / 2 ^ w a = y / 2 ^ w a := by
      refine ih hl.of_cons (Nat.div_lt_of_lt_mul hx) (Nat.div_lt_of_lt_mul hy) fun i hi => ?_
      have hne : i ≠ a := fun heq => (List.nodup_cons.mp hl).1 (heq ▸ hi)
      have := h i (List.mem_cons_of_mem a hi)
      rwa [offset_cons_ne hne, extract_add, extract_add] at this
    rw [← Nat.div_add_mod x (2 ^ w a), ← Nat.div_add_mod y (2 ^ w a), hlow, hhigh]

/-- Two fields of a layout share no bit. -/
theorem offset_apart {i j : ι} (hi : i ∈ l) (hj : j ∈ l) (hne : i ≠ j) :
    offset w l i + w i ≤ offset w l j ∨ offset w l j + w j ≤ offset w l i := by
  induction l with
  | nil => cases hi
  | cons a l ih =>
    by_cases hia : i = a
    · subst hia
      rw [offset_cons_ne (Ne.symm hne)]
      simp [offset]
    by_cases hja : j = a
    · subst hja
      rw [offset_cons_ne hne]
      simp [offset]
    · have := ih ((List.mem_cons.mp hi).resolve_left hia) ((List.mem_cons.mp hj).resolve_left hja)
      rw [offset_cons_ne hia, offset_cons_ne hja]
      omega

/-- Any values that fit their fields are the fields of some number that fits the layout. -/
theorem exists_extract (hl : l.Nodup) {v : ι → ℕ} (hv : ∀ i ∈ l, v i < 2 ^ w i) :
    ∃ x, x < 2 ^ total w l ∧ ∀ i ∈ l, extract x (offset w l i) (w i) = v i := by
  induction l with
  | nil => exact ⟨0, by simp [total], by simp⟩
  | cons a l ih =>
    obtain ⟨x, hx, hfields⟩ := ih hl.of_cons fun i hi => hv i (List.mem_cons_of_mem a hi)
    have ha := hv a List.mem_cons_self
    have hdiv : (v a + 2 ^ w a * x) / 2 ^ w a = x := by
      rw [Nat.add_mul_div_left _ _ (Nat.two_pow_pos _), Nat.div_eq_of_lt ha, Nat.zero_add]
    refine ⟨v a + 2 ^ w a * x, ?_, fun i hi => ?_⟩
    · rw [total_cons, pow_add]
      calc v a + 2 ^ w a * x < 2 ^ w a * (x + 1) := by rw [Nat.mul_succ]; omega
        _ ≤ 2 ^ w a * 2 ^ total w l := Nat.mul_le_mul_left _ hx
    · by_cases hia : i = a
      · subst hia
        simp [offset, extract_zero_pos, Nat.add_mul_mod_self_left, Nat.mod_eq_of_lt ha]
      · rw [offset_cons_ne hia, extract_add, hdiv]
        exact hfields i ((List.mem_cons.mp hi).resolve_left hia)

/-- A table of `size` entries keeps its indices under every mask of its range exactly if its size is
a multiple of the power of two above them. -/
theorem xor_lt_iff {size top : ℕ} (hsize : 0 < size) :
    (∀ g ≤ top, ∀ m < size, g ^^^ m < size) ↔ 2 ^ top.size ∣ size := by
  constructor
  · intro h
    obtain ⟨k, odd, hodd, hk⟩ := Nat.exists_eq_two_pow_mul_odd (Nat.pos_iff_ne_zero.mp hsize)
    by_contra hdvd
    -- the lowest bit of the size is one of the index, and the mask sets all others
    have hlt : k < top.size := by
      by_contra hle
      exact hdvd (hk ▸ Dvd.dvd.mul_right (Nat.pow_dvd_pow 2 (by omega)) odd)
    obtain ⟨half, rfl⟩ := hodd
    have hpos := Nat.two_pow_pos k
    have hmask : 2 ^ k * (2 * half) < size := by
      rw [hk, Nat.mul_add]
      omega
    have hout := h (2 ^ k) (Nat.lt_size.mp hlt) _ hmask
    have hxor : 2 ^ k ^^^ 2 ^ k * (2 * half) = size := by
      have hone : 2 * half ^^^ 1 = 2 * half + 1 := Nat.xor_one_of_even (even_two_mul half)
      rw [hk, ← hone, Nat.xor_comm, Nat.mul_comm _ (2 * half), Nat.mul_comm _ (2 * half ^^^ 1),
        ← Nat.shiftLeft_eq, ← Nat.shiftLeft_eq, Nat.shiftLeft_xor_distrib, Nat.one_shiftLeft]
    omega
  · rintro ⟨q, rfl⟩ g hg m hm
    have hsmall : g / 2 ^ top.size = 0 :=
      Nat.div_eq_of_lt (lt_of_le_of_lt hg (Nat.lt_size_self top))
    rw [Nat.mul_comm]
    apply Nat.lt_mul_of_div_lt _ (Nat.two_pow_pos _)
    rw [Nat.xor_div_two_pow, hsmall, Nat.zero_xor]
    exact Nat.div_lt_of_lt_mul hm

end Foundations.BitFields

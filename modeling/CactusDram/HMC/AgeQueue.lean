import CactusDram.Foundations.Insertion
import Mathlib.Tactic

/-! The order in which the crossbar of the HMC serves links and quads. The oldest is meant to come
first, but its age is compared with the indices that are in the queue and not with their ages. -/
namespace CactusDram.HMC
open Foundations

def age (ageCounter : List ℤ) (pos : ℕ) : ℤ := ageCounter.getD pos 0

/-- The positions in round-robin order, from the one of the logic clock on. -/
def roundRobin (queueLen logicClk : ℕ) : List ℕ :=
  (List.range queueLen).map fun i => (i + logicClk % queueLen) % queueLen

def buildAgeQueue (ageCounter : List ℤ) (logicClk : ℕ) : List ℕ :=
  (roundRobin ageCounter.length logicClk).foldl (fun ageQueue pos =>
    if 0 < age ageCounter pos then
      insertBefore (fun it : ℕ => age ageCounter pos > it) pos ageQueue
    else ageQueue) []

section Distance
variable {queueLen logicClk i p q : ℕ}

/-- How far a position is from the start of the round. -/
def distance (queueLen logicClk p : ℕ) : ℕ := (p + (queueLen - logicClk % queueLen)) % queueLen

theorem distance_turn (hi : i < queueLen) :
    distance queueLen logicClk ((i + logicClk % queueLen) % queueLen) = i := by
  have hlt := Nat.mod_lt logicClk (Nat.zero_lt_of_lt hi)
  have hsum : i + logicClk % queueLen + (queueLen - logicClk % queueLen) = i + queueLen := by omega
  rw [distance, Nat.mod_add_mod, hsum, Nat.add_mod_right, Nat.mod_eq_of_lt hi]

theorem turn_distance (hp : p < queueLen) :
    (distance queueLen logicClk p + logicClk % queueLen) % queueLen = p := by
  have hlt := Nat.mod_lt logicClk (Nat.zero_lt_of_lt hp)
  have hsum : p + (queueLen - logicClk % queueLen) + logicClk % queueLen = p + queueLen := by omega
  rw [distance, Nat.mod_add_mod, hsum, Nat.add_mod_right, Nat.mod_eq_of_lt hp]

theorem mem_roundRobin : p ∈ roundRobin queueLen logicClk ↔ p < queueLen := by
  rw [roundRobin, List.mem_map]
  constructor
  · rintro ⟨i, hi, rfl⟩
    exact Nat.mod_lt _ (Nat.zero_lt_of_lt (List.mem_range.mp hi))
  · intro hp
    exact ⟨_, List.mem_range.mpr (Nat.mod_lt _ (Nat.zero_lt_of_lt hp)), turn_distance hp⟩

/-- A round goes by growing distance. -/
theorem roundRobin_pairwise (queueLen logicClk : ℕ) : (roundRobin queueLen logicClk).Pairwise
    fun p q => distance queueLen logicClk p < distance queueLen logicClk q := by
  refine List.pairwise_map.mpr (List.pairwise_lt_range.imp_of_mem fun hi hj hlt => ?_)
  rwa [distance_turn (List.mem_range.mp hi), distance_turn (List.mem_range.mp hj)]

end Distance

section Order
variable (ageCounter : List ℤ) (logicClk : ℕ)

/-- The order of service: by age, and by distance among equal ages. -/
def Precedes (p q : ℕ) : Prop :=
  age ageCounter q < age ageCounter p ∨ age ageCounter p = age ageCounter q ∧
    distance ageCounter.length logicClk p < distance ageCounter.length logicClk q

/-- The positions of positive age that come before `p` in the round. -/
structure Earlier (q p : ℕ) : Prop where
  lt : q < ageCounter.length
  pos : 0 < age ageCounter q
  before : distance ageCounter.length logicClk q < distance ageCounter.length logicClk p

/-- The comparison with an index comes out as the one with an age would: never below an index whose
age is no smaller, and above that of the oldest one whose age is smaller. -/
structure ComparesAges : Prop where
  notAbove : ∀ p < ageCounter.length, 0 < age ageCounter p → ∀ q, Earlier ageCounter logicClk q p →
    age ageCounter p ≤ age ageCounter q → age ageCounter p ≤ q
  above : ∀ p < ageCounter.length, 0 < age ageCounter p → ∀ q, Earlier ageCounter logicClk q p →
    age ageCounter q < age ageCounter p →
    (∀ r, Earlier ageCounter logicClk r p → age ageCounter r < age ageCounter p →
      r = q ∨ Precedes ageCounter logicClk q r) → q < age ageCounter p

/-- Every position of positive age once, and no other, by age and round-robin distance. -/
structure ArbitrationOrder (queue : List ℕ) : Prop where
  once : ∀ p, queue.count p = if p < ageCounter.length ∧ 0 < age ageCounter p then 1 else 0
  ordered : queue.Pairwise (Precedes ageCounter logicClk)

variable {ageCounter logicClk} {p q : ℕ}

theorem Precedes.asymm (h : Precedes ageCounter logicClk p q) : ¬ Precedes ageCounter logicClk q p := by
  unfold Precedes at *
  omega

theorem Precedes.trans {r : ℕ} (h : Precedes ageCounter logicClk p q)
    (h' : Precedes ageCounter logicClk q r) : Precedes ageCounter logicClk p r := by
  unfold Precedes at *
  omega

/-- The positions that the loop inserts, in its order. -/
def waiting (ageCounter : List ℤ) (logicClk : ℕ) : List ℕ :=
  (roundRobin ageCounter.length logicClk).filter fun p => 0 < age ageCounter p

theorem buildAgeQueue_eq : buildAgeQueue ageCounter logicClk =
    insertAll (fun p it => age ageCounter p > it) (waiting ageCounter logicClk) := by
  rw [buildAgeQueue, insertAll, waiting, List.foldl_filter]
  simp only [decide_eq_true_eq]

theorem mem_waiting : p ∈ waiting ageCounter logicClk ↔ p < ageCounter.length ∧ 0 < age ageCounter p := by
  rw [waiting, List.mem_filter, mem_roundRobin, decide_eq_true_eq]

theorem waiting_pairwise : (waiting ageCounter logicClk).Pairwise fun p q =>
    distance ageCounter.length logicClk p < distance ageCounter.length logicClk q :=
  (roundRobin_pairwise _ _).filter _

/-- What stands before a position in the round. -/
theorem mem_prefix_iff {xs ys : List ℕ} (h : waiting ageCounter logicClk = xs ++ p :: ys) :
    q ∈ xs ↔ Earlier ageCounter logicClk q p := by
  have hsorted := @waiting_pairwise ageCounter logicClk
  rw [h] at hsorted
  obtain ⟨-, hp, hxs⟩ := List.pairwise_append.mp hsorted
  constructor
  · intro hq
    obtain ⟨hlt, hpos⟩ := mem_waiting.mp (h ▸ List.mem_append_left _ hq)
    exact ⟨hlt, hpos, hxs q hq p (by simp)⟩
  · rintro ⟨hlt, hpos, hbefore⟩
    have hmem := (@mem_waiting ageCounter logicClk q).mpr ⟨hlt, hpos⟩
    rw [h, List.mem_append, List.mem_cons] at hmem
    rcases hmem with hq | rfl | hq
    · exact hq
    · exact absurd hbefore (lt_irrefl _)
    · exact absurd hbefore (lt_asymm ((List.pairwise_cons.mp hp).1 q hq))

theorem buildAgeQueue_count (p : ℕ) : (buildAgeQueue ageCounter logicClk).count p =
    if p < ageCounter.length ∧ 0 < age ageCounter p then 1 else 0 := by
  have hnodup : (waiting ageCounter logicClk).Nodup :=
    (@waiting_pairwise ageCounter logicClk).imp fun hlt => by
      rintro rfl
      exact lt_irrefl _ hlt
  rw [buildAgeQueue_eq, (insertAll_perm _ _).count_eq, hnodup.count]
  simp only [mem_waiting]

theorem mem_buildAgeQueue :
    p ∈ buildAgeQueue ageCounter logicClk ↔ p < ageCounter.length ∧ 0 < age ageCounter p := by
  rw [buildAgeQueue_eq, (insertAll_perm _ _).mem_iff, mem_waiting]

theorem buildAgeQueue_nodup (ageCounter : List ℤ) (logicClk : ℕ) :
    (buildAgeQueue ageCounter logicClk).Nodup := by
  refine List.nodup_iff_count_le_one.mpr fun p => ?_
  rw [buildAgeQueue_count]
  split <;> omega

/-- Among the positions before `p` in the round, those that precede it are the ones at least as old. -/
theorem Earlier.precedes_iff (h : Earlier ageCounter logicClk q p) :
    Precedes ageCounter logicClk q p ↔ age ageCounter p ≤ age ageCounter q := by
  have := h.before
  unfold Precedes
  omega

theorem Earlier.preceded_iff (h : Earlier ageCounter logicClk q p) :
    Precedes ageCounter logicClk p q ↔ age ageCounter q < age ageCounter p := by
  have := h.before
  unfold Precedes
  omega

theorem buildAgeQueue_pairwise_iff :
    (buildAgeQueue ageCounter logicClk).Pairwise (Precedes ageCounter logicClk) ↔
      ComparesAges ageCounter logicClk := by
  have hcomp : (waiting ageCounter logicClk).Pairwise fun q p =>
      Precedes ageCounter logicClk q p ∨ Precedes ageCounter logicClk p q :=
    waiting_pairwise.imp fun hlt => by
      unfold Precedes
      omega
  rw [buildAgeQueue_eq, pairwise_insertAll_iff (R := Precedes ageCounter logicClk)
    (fun _ _ => Precedes.asymm) (fun _ _ _ => Precedes.trans) hcomp]
  constructor
  · intro h
    have hat (p : ℕ) (hp : p < ageCounter.length) (hpos : 0 < age ageCounter p) :
        ∃ xs ys, waiting ageCounter logicClk = xs ++ p :: ys :=
      List.append_of_mem (mem_waiting.mpr ⟨hp, hpos⟩)
    constructor
    · intro p hp hpos q hq hle
      obtain ⟨xs, ys, hsplit⟩ := hat p hp hpos
      have hfail := (h xs p ys hsplit).1 q ((mem_prefix_iff hsplit).mpr hq) (hq.precedes_iff.mpr hle)
      simpa using hfail
    · intro p hp hpos q hq hlt hfirst
      obtain ⟨xs, ys, hsplit⟩ := hat p hp hpos
      have hpass := (h xs p ys hsplit).2 q ((mem_prefix_iff hsplit).mpr hq) (hq.preceded_iff.mpr hlt)
        fun r hr hrp => by
          have hr := (mem_prefix_iff hsplit).mp hr
          exact hfirst r hr (hr.preceded_iff.mp hrp)
      simpa using hpass
  · intro h xs p ys hsplit
    obtain ⟨hp, hpos⟩ := mem_waiting.mp (hsplit ▸ (by simp : p ∈ xs ++ p :: ys))
    constructor
    · intro q hq hqp
      have hq := (mem_prefix_iff hsplit).mp hq
      simpa using h.notAbove p hp hpos q hq (hq.precedes_iff.mp hqp)
    · intro q hq hpq hfirst
      have hq := (mem_prefix_iff hsplit).mp hq
      have habove := h.above p hp hpos q hq (hq.preceded_iff.mp hpq) fun r hr hlt =>
        hfirst r ((mem_prefix_iff hsplit).mpr hr) (hr.preceded_iff.mpr hlt)
      simpa using habove

theorem age_queue_arbitration_iff (ageCounter : List ℤ) (logicClk : ℕ) :
    ArbitrationOrder ageCounter logicClk (buildAgeQueue ageCounter logicClk) ↔
      ComparesAges ageCounter logicClk :=
  ⟨fun h => buildAgeQueue_pairwise_iff.mp h.ordered,
    fun h => ⟨buildAgeQueue_count, buildAgeQueue_pairwise_iff.mpr h⟩⟩

/-- Link 0 has waited for five cycles and link 1 for two, which is more than the index of link 0. -/
theorem age_queue_ignores_age : ¬ ∀ (ageCounter : List ℤ) (logicClk : ℕ),
    ArbitrationOrder ageCounter logicClk (buildAgeQueue ageCounter logicClk) := by
  intro h
  have hqueue : buildAgeQueue [5, 2] 0 = [1, 0] := by decide
  have hordered := (h [5, 2] 0).ordered
  rw [hqueue] at hordered
  have := (List.pairwise_cons.mp hordered).1 0 (by simp)
  simp [Precedes, age] at this

end Order
end CactusDram.HMC

import CactusDram.Memsim.CacheSpec
import Mathlib.Logic.Relation

/-! The while loop that looks for an SRRIP victim has no bound of its own. It ends because the
least counter of the set goes down by one in every round and no counter starts above the maximum. -/
namespace CactusDram.Memsim

namespace MCache
variable (c : MCache) {set : ℕ} {entries entries' : ℕ → MCacheEntry}

/-- One pass of decrements over the set, in the 32 bits of the counters. -/
def srripAge (set : ℕ) (entries : ℕ → MCacheEntry) (i : ℕ) : MCacheEntry :=
  if i ∈ c.ways set then { entries i with ripctr := u32 ((entries i).ripctr - 1) } else entries i

/-- What the first loop of a round finds: the first way whose counter is zero. -/
def srripZero (set : ℕ) (entries : ℕ → MCacheEntry) : Option ℕ :=
  (c.ways set).find? fun i => (entries i).ripctr = 0

/-- A round that finds no victim. -/
def SrripRound (set : ℕ) (entries entries' : ℕ → MCacheEntry) : Prop :=
  c.srripZero set entries = none ∧ entries' = c.srripAge set entries

/-- The runs of the loop that end: as many rounds as it takes, and the victim of the last one. -/
inductive SrripSearch (set : ℕ) : (ℕ → MCacheEntry) → ℕ → (ℕ → MCacheEntry) → Prop
  | found {entries victim} (hit : c.srripZero set entries = some victim) :
      SrripSearch set entries victim entries
  | round {entries entries' victim final} (miss : c.SrripRound set entries entries')
      (tail : SrripSearch set entries' victim final) : SrripSearch set entries victim final

/-- The counters of the set are those of `entries`, less `m`. -/
def lowered (set m : ℕ) (entries : ℕ → MCacheEntry) (i : ℕ) : MCacheEntry :=
  if i ∈ c.ways set then { entries i with ripctr := (entries i).ripctr - m } else entries i

/-- The least counter of the set, and the first way that has it. -/
structure FirstLeast (set : ℕ) (entries : ℕ → MCacheEntry) (victim : ℕ) : Prop where
  mem : victim ∈ c.ways set
  least : ∀ i ∈ c.ways set, (entries victim).ripctr ≤ (entries i).ripctr
  first : ∀ i ∈ c.ways set, i < victim → (entries victim).ripctr < (entries i).ripctr

/-- No counter of the cache is above the maximum. -/
def Bounded (entries : ℕ → MCacheEntry) : Prop := ∀ i, (entries i).ripctr ≤ srripMax

/-- The caches that accesses, installations and dirty marks lead to. -/
inductive Reached (sets assocs : ℕ) : MCache → Prop
  | new : Reached sets assocs { sets, assocs, replPolicy := .srrip }
  | access {c : MCache} (addr : ℕ) (h : Reached sets assocs c) : Reached sets assocs (c.access addr).2
  | markDirty {c : MCache} (addr : ℕ) (h : Reached sets assocs c) :
      Reached sets assocs (c.markDirty addr)
  | install {c c' : MCache} {rand rand' : Stream' ℕ} (addr : ℕ) (h : Reached sets assocs c)
      (hi : c.install rand addr = .ok (c', rand')) : Reached sets assocs c'

variable {c}

theorem u32_pred {n : ℕ} (hpos : 0 < n) (hle : n ≤ srripMax) : u32 (n - 1) = n - 1 := by
  unfold u32 srripMax at *
  omega

theorem srripZero_eq_none_iff :
    c.srripZero set entries = none ↔ ∀ i ∈ c.ways set, 0 < (entries i).ripctr := by
  simp [srripZero, Nat.pos_iff_ne_zero]

theorem SrripSearch.unique {v v' : ℕ} {final final' : ℕ → MCacheEntry}
    (h : c.SrripSearch set entries v final) (h' : c.SrripSearch set entries v' final') :
    v = v' ∧ final = final' := by
  induction h with
  | found hit =>
    cases h' with
    | found hit' => exact ⟨Option.some.inj (hit.symm.trans hit'), rfl⟩
    | round miss' _ => simp [miss'.1] at hit
  | round miss _ ih =>
    cases h' with
    | found hit' => simp [miss.1] at hit'
    | round miss' tail' =>
      rw [miss'.2, ← miss.2] at tail'
      exact ih tail'

/-- Every nonempty set has a first way of least counter. -/
theorem exists_firstLeast (h : 0 < c.assocs) (set : ℕ) (entries : ℕ → MCacheEntry) :
    ∃ victim, c.FirstLeast set entries victim := by
  have hne : ((c.ways set).toFinset.image fun i => toLex ((entries i).ripctr, i)).Nonempty :=
    ⟨_, Finset.mem_image_of_mem _ (List.mem_toFinset.mpr (start_mem_ways h set))⟩
  obtain ⟨v, hv, heq⟩ := Finset.mem_image.mp (Finset.min'_mem _ hne)
  have hmin : ∀ i ∈ c.ways set,
      toLex ((entries v).ripctr, v) ≤ toLex ((entries i).ripctr, i) := by
    intro i hi
    rw [heq]
    exact Finset.min'_le _ _ (Finset.mem_image_of_mem _ (List.mem_toFinset.mpr hi))
  refine ⟨v, List.mem_toFinset.mp hv, ?_, ?_⟩
  · intro i hi
    rcases Prod.Lex.le_iff.mp (hmin i hi) with hlt | ⟨heq, _⟩
    · exact hlt.le
    · exact heq.le
  · intro i hi hiv
    rcases Prod.Lex.le_iff.mp (hmin i hi) with hlt | ⟨_, hle⟩
    · exact hlt
    · exact absurd hiv (not_lt.mpr hle)

theorem lowered_zero : c.lowered set 0 entries = entries := by
  funext i
  simp [lowered]

theorem Bounded.lowered (h : Bounded entries) (m : ℕ) : Bounded (c.lowered set m entries) := by
  intro i
  have hi := h i
  by_cases hmem : i ∈ c.ways set
  · simp only [MCache.lowered, if_pos hmem]
    omega
  · simpa only [MCache.lowered, if_neg hmem] using hi

theorem srripAge_lowered {m : ℕ} (h : Bounded entries)
    (hpos : ∀ i ∈ c.ways set, m < (entries i).ripctr) :
    c.srripAge set (c.lowered set m entries) = c.lowered set (m + 1) entries := by
  funext i
  by_cases hi : i ∈ c.ways set
  · have hlt := hpos i hi
    have hle := h i
    have hpred : u32 (((entries i).ripctr - m : ℕ) - 1) = (entries i).ripctr - m - 1 :=
      u32_pred (by omega) (by omega)
    simp only [srripAge, lowered, if_pos hi, hpred, Nat.sub_sub]
  · simp only [srripAge, lowered, if_neg hi]

theorem srripZero_lowered_of_lt {m victim : ℕ} (h : c.FirstLeast set entries victim)
    (hm : m < (entries victim).ripctr) : c.srripZero set (c.lowered set m entries) = none := by
  rw [srripZero_eq_none_iff]
  intro i hi
  have hle := h.least i hi
  simp only [lowered, if_pos hi]
  omega

/-- Of an increasing list, the first element that passes is the one before which none passes. -/
theorem find?_range'_eq_some {p : ℕ → Bool} {start n v : ℕ} (hv : v ∈ List.range' start n)
    (hp : p v = true) (hfirst : ∀ i ∈ List.range' start n, i < v → p i = false) :
    (List.range' start n).find? p = some v := by
  obtain ⟨i, hi⟩ : ∃ i, (List.range' start n).find? p = some i :=
    Option.isSome_iff_exists.mp (List.find?_isSome.mpr ⟨v, hv, hp⟩)
  have hmem := List.mem_of_find?_eq_some hi
  have hpi := List.find?_some hi
  rcases lt_trichotomy i v with hlt | heq | hgt
  · simp [hfirst i hmem hlt] at hpi
  · rw [hi, heq]
  · obtain ⟨_, l₁, l₂, hsplit, hnot⟩ := List.find?_eq_some_iff_append.mp hi
    have hsorted : (List.range' start n).Pairwise (· < ·) := List.pairwise_lt_range'
    rw [hsplit] at hv hsorted
    rcases List.mem_append.mp hv with hv | hv
    · exact absurd hp (by simpa using hnot v hv)
    · rcases List.mem_cons.mp hv with hv | hv
      · exact absurd hv hgt.ne
      · have := (List.pairwise_cons.mp (List.pairwise_append.mp hsorted).2.1).1 v hv
        omega

theorem srripZero_lowered_least {victim : ℕ} (h : c.FirstLeast set entries victim) :
    c.srripZero set (c.lowered set (entries victim).ripctr entries) = some victim := by
  refine find?_range'_eq_some h.mem ?_ ?_
  · simp [lowered, if_pos h.mem]
  · intro i hi hlt
    have hmin := h.first i hi hlt
    have hways : i ∈ c.ways set := hi
    simp only [lowered, if_pos hways, decide_eq_false_iff_not]
    omega

/-- From counters lowered by `m` the loop runs on to counters lowered by the least of them. -/
theorem SrripSearch.of_lowered {m victim : ℕ} (hb : Bounded entries)
    (h : c.FirstLeast set entries victim) (hm : m ≤ (entries victim).ripctr) :
    c.SrripSearch set (c.lowered set m entries) victim
      (c.lowered set (entries victim).ripctr entries) := by
  induction hm using Nat.decreasingInduction with
  | self => exact .found (srripZero_lowered_least h)
  | of_succ m hlt ih =>
    refine .round ⟨srripZero_lowered_of_lt h hlt, ?_⟩ ih
    exact (srripAge_lowered hb fun i hi => hlt.trans_le (h.least i hi)).symm

/-- The states that the loop goes through are the set at a common distance below its start. -/
theorem lowered_of_rounds {victim : ℕ} (hb : Bounded entries) (h : c.FirstLeast set entries victim)
    (hrun : Relation.ReflTransGen (c.SrripRound set) entries entries') :
    ∃ m ≤ (entries victim).ripctr, entries' = c.lowered set m entries := by
  induction hrun with
  | refl => exact ⟨0, Nat.zero_le _, lowered_zero.symm⟩
  | tail _ hround ih =>
    obtain ⟨m, hm, rfl⟩ := ih
    have hne : m ≠ (entries victim).ripctr := by
      rintro rfl
      simp [SrripRound, srripZero_lowered_least h] at hround
    refine ⟨m + 1, by omega, ?_⟩
    rw [hround.2]
    exact srripAge_lowered hb fun i hi => (hm.lt_of_ne hne).trans_le (h.least i hi)

theorem lowered_lowered (m k : ℕ) :
    c.lowered set k (c.lowered set m entries) = c.lowered set (m + k) entries := by
  funext i
  by_cases hi : i ∈ c.ways set
  · simp only [lowered, if_pos hi, Nat.sub_sub]
  · simp only [lowered, if_neg hi]

/-- The bounded loop does the same as long as there are rounds left for every decrement. -/
theorem srripLoop_lowered {victim n rounds m : ℕ} (h : c.FirstLeast set entries victim)
    (hn : m + n = (entries victim).ripctr) (hrounds : n < rounds) :
    c.srripLoop set rounds (c.lowered set m entries) =
      (victim, c.lowered set (entries victim).ripctr entries) := by
  obtain ⟨rounds, rfl⟩ : ∃ k, rounds = k + 1 := ⟨rounds - 1, by omega⟩
  induction n generalizing m rounds with
  | zero =>
    obtain rfl : m = (entries victim).ripctr := hn
    have hzero := srripZero_lowered_least h
    unfold srripZero at hzero
    rw [srripLoop, hzero]
  | succ n ih =>
    have hnone := srripZero_lowered_of_lt h (m := m) (by omega)
    unfold srripZero at hnone
    obtain ⟨k, rfl⟩ : ∃ k, rounds = k + 1 := ⟨rounds - 1, by omega⟩
    have hnext := ih (m := m + 1) (by omega) k (by omega)
    rw [← lowered_lowered m 1] at hnext
    rw [srripLoop, hnone]
    exact hnext

theorem findVictimSrrip_eq {victim : ℕ} (hassocs : 0 < c.assocs)
    (h : c.FirstLeast set c.entries victim) :
    c.findVictimSrrip set = (victim, c.lowered set (c.entries victim).ripctr c.entries) := by
  have hle := h.least _ (start_mem_ways hassocs set)
  have hloop : c.srripLoop set ((c.entries (set * c.assocs)).ripctr + 1)
      (c.lowered set 0 c.entries) = (victim, c.lowered set (c.entries victim).ripctr c.entries) :=
    srripLoop_lowered h (Nat.zero_add _) (by omega)
  rwa [lowered_zero] at hloop

theorem Bounded.update (h : Bounded entries) (i : ℕ) {e : MCacheEntry} (he : e.ripctr ≤ srripMax) :
    Bounded (Function.update entries i e) := by
  intro k
  by_cases hk : k = i
  · subst hk
    rwa [Function.update_self]
  · rw [Function.update_of_ne hk]
    exact h k

theorem Bounded.findVictim (h : Bounded c.entries) (hassocs : 0 < c.assocs) (rand : Stream' ℕ)
    (set : ℕ) : Bounded (c.findVictim rand set).2.1.entries := by
  unfold MCache.findVictim
  split
  · exact h
  · cases c.replPolicy with
    | lru => exact h
    | rnd => exact h
    | srrip =>
      obtain ⟨v, hv⟩ := exists_firstLeast hassocs set c.entries
      dsimp only
      rw [findVictimSrrip_eq hassocs hv]
      exact h.lowered _

theorem Reached.bounded {sets assocs : ℕ} (hassocs : 0 < assocs) (h : Reached sets assocs c) :
    c.assocs = assocs ∧ Bounded c.entries := by
  induction h with
  | new => exact ⟨rfl, fun i => Nat.zero_le _⟩
  | @access c addr h ih =>
    refine ⟨(access_geometry c addr).2.1.trans ih.1, ?_⟩
    unfold MCache.access
    cases c.lookup addr with
    | none => exact ih.2
    | some i => exact ih.2.update i le_rfl
  | @markDirty c addr h ih =>
    unfold MCache.markDirty
    cases c.lookup addr with
    | none => exact ih
    | some i => exact ⟨ih.1, ih.2.update i (ih.2 i)⟩
  | @install c c' rand rand' addr h hi ih =>
    have hpos : 0 < c.assocs := by rwa [ih.1]
    refine ⟨(install_spec hpos hi).assocs.trans ih.1, ?_⟩
    unfold MCache.install at hi
    split_ifs at hi
    simp only [Except.ok.injEq, Prod.mk.injEq] at hi
    obtain ⟨rfl, _⟩ := hi
    exact (ih.2.findVictim hpos rand _).update _
      (show srripInit ≤ srripMax by decide)

/-- What looking for a victim does to a set: the loop ends, every state on the way has its
counters between zero and the maximum and is only counted down when none of them is zero, and the
first way of least counter is found while all others are lowered by that counter. -/
structure VictimSearch (c : MCache) (set : ℕ) : Prop where
  ends : ∀ victim final, c.SrripSearch set c.entries victim final ↔
    c.findVictimSrrip set = (victim, final)
  within : ∀ entries, Relation.ReflTransGen (c.SrripRound set) c.entries entries → Bounded entries
  noWrap : ∀ entries entries', Relation.ReflTransGen (c.SrripRound set) c.entries entries →
    c.SrripRound set entries entries' →
      ∀ i ∈ c.ways set, (entries' i).ripctr + 1 = (entries i).ripctr
  mem : (c.findVictimSrrip set).1 ∈ c.ways set
  least : ∀ i ∈ c.ways set,
    (c.entries (c.findVictimSrrip set).1).ripctr ≤ (c.entries i).ripctr
  lowest : ∀ i ∈ c.ways set, i < (c.findVictimSrrip set).1 →
    (c.entries (c.findVictimSrrip set).1).ripctr < (c.entries i).ripctr
  lowers : ∀ i ∈ c.ways set, (c.findVictimSrrip set).2 i =
    { c.entries i with
      ripctr := (c.entries i).ripctr - (c.entries (c.findVictimSrrip set).1).ripctr }
  others : ∀ i ∉ c.ways set, (c.findVictimSrrip set).2 i = c.entries i

theorem srrip_victim_search {sets assocs : ℕ} (hassocs : 0 < assocs)
    (h : Reached sets assocs c) (set : ℕ) : VictimSearch c set := by
  obtain ⟨rfl, hb⟩ := h.bounded hassocs
  obtain ⟨v, hv⟩ := exists_firstLeast hassocs set c.entries
  have heq := findVictimSrrip_eq hassocs hv
  have hsearch : c.SrripSearch set c.entries v (c.lowered set (c.entries v).ripctr c.entries) := by
    simpa only [lowered_zero] using SrripSearch.of_lowered hb hv (Nat.zero_le _)
  constructor
  case ends =>
    intro victim final
    rw [heq]
    constructor
    · intro hs
      obtain ⟨rfl, rfl⟩ := hsearch.unique hs
      rfl
    · rintro ⟨⟩
      exact hsearch
  case within =>
    intro entries hrun
    obtain ⟨m, _, rfl⟩ := lowered_of_rounds hb hv hrun
    exact hb.lowered m
  case noWrap =>
    intro entries entries' hrun hround i hi
    obtain ⟨m, _, rfl⟩ := lowered_of_rounds hb hv hrun
    have hpos := srripZero_eq_none_iff.mp hround.1 i hi
    rw [hround.2]
    simp only [srripAge, if_pos hi]
    have hpred := u32_pred hpos (hb.lowered m i)
    omega
  case mem =>
    rw [heq]
    exact hv.mem
  case least =>
    rw [heq]
    exact hv.least
  case lowest =>
    rw [heq]
    exact hv.first
  case lowers =>
    intro i hi
    rw [heq]
    exact if_pos hi
  case others =>
    intro i hi
    rw [heq]
    exact if_neg hi

/-- Two lines in one set, the first of them accessed again. -/
def twoLines : MCache :=
  (((({ sets := 1, assocs := 2, replPolicy := .srrip } : MCache).replace 5 0).replace 6 1).access 5).2

theorem reached_twoLines : Reached 1 2 twoLines :=
  .access 5 (@Reached.install 1 2 _ _ (Stream'.const 0) _ 6
    (@Reached.install 1 2 _ _ (Stream'.const 0) _ 5 .new rfl) rfl)

/-- Both counters are positive, so the set ages once before the second line is the victim. -/
theorem srrip_victim_search_two_ways : VictimSearch twoLines 0 ∧
    (twoLines.entries 0).ripctr = 7 ∧ (twoLines.entries 1).ripctr = 1 ∧
    (twoLines.findVictimSrrip 0).1 = 1 ∧ ((twoLines.findVictimSrrip 0).2 0).ripctr = 6 :=
  ⟨srrip_victim_search (by decide) reached_twoLines 0, by decide⟩

end MCache
end CactusDram.Memsim

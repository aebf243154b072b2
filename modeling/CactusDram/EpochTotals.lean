import CactusDram.Statistics
import Mathlib.Algebra.BigOperators.Group.List.Basic
import Mathlib.Algebra.BigOperators.Group.Finset.Basic
import Mathlib.Tactic

/-! The statistics of a run do not depend on where its epochs end: what an epoch has counted is moved
to the counters of the run and cleared, and nothing is counted twice. -/
namespace CactusDram

namespace HistoCount
variable {value v : ℤ} {count c : ℕ} {counts finalCounts epochCounts : HistoCount}

def values (counts : HistoCount) : List ℤ := counts.map Prod.fst

theorem add_add_same (value : ℤ) (count c : ℕ) (counts : HistoCount) :
    (counts.add value count).add value c = counts.add value (count + c) := by
  induction counts with
  | nil => simp [add]
  | cons x counts ih =>
    obtain ⟨w, d⟩ := x
    by_cases hw : w = value
    · simp [add, hw, Nat.add_assoc]
    · simp [add, hw, ih]

/-- Once a value has a count, adding to it and to another value can be done in any order. -/
theorem add_comm_of_mem (h : value ∈ values counts) :
    (counts.add value count).add v c = (counts.add v c).add value count := by
  induction counts with
  | nil => simp [values] at h
  | cons x counts ih =>
    obtain ⟨w, d⟩ := x
    by_cases hw : w = value <;> by_cases hv : w = v
    · simp only [add, if_pos hw, if_pos hv, Nat.add_right_comm]
    · simp only [add, if_pos hw, if_neg hv]
    · simp only [add, if_neg hw, if_pos hv]
    · have hmem : value ∈ values counts := by
        simpa [values, Ne.symm hw] using h
      simp only [add, if_neg hw, if_neg hv, ih hmem]

theorem mem_values_add (value : ℤ) (count : ℕ) (counts : HistoCount) :
    value ∈ (counts.add value count).values := by
  induction counts with
  | nil => simp [add, values]
  | cons x counts ih =>
    obtain ⟨w, d⟩ := x
    by_cases hw : w = value
    · simp [add, hw, values]
    · rw [add, if_neg hw]
      exact List.mem_cons_of_mem _ ih

theorem values_add_of_mem (h : value ∈ counts.values) (v : ℤ) (c : ℕ) :
    value ∈ (counts.add v c).values := by
  induction counts with
  | nil => simp [values] at h
  | cons x counts ih =>
    obtain ⟨w, d⟩ := x
    by_cases hw : w = v
    · simpa [add, hw, values] using h
    · rw [add, if_neg hw]
      rcases List.mem_cons.mp h with h | h
      · exact h ▸ List.mem_cons_self
      · exact List.mem_cons_of_mem _ (ih h)

theorem merge_add_of_mem (h : value ∈ finalCounts.values) :
    (finalCounts.add value count).merge epochCounts = (finalCounts.merge epochCounts).add value count := by
  induction epochCounts generalizing finalCounts with
  | nil => rfl
  | cons x epochCounts ih =>
    change ((finalCounts.add value count).add x.1 x.2).merge epochCounts =
      ((finalCounts.add x.1 x.2).merge epochCounts).add value count
    rw [add_comm_of_mem h]
    exact ih (values_add_of_mem h x.1 x.2)

/-- A value counted in the epoch is counted in what the epoch is merged into. -/
theorem merge_add (finalCounts epochCounts : HistoCount) (value : ℤ) (count : ℕ) :
    finalCounts.merge (epochCounts.add value count) = (finalCounts.merge epochCounts).add value count := by
  induction epochCounts generalizing finalCounts with
  | nil => rfl
  | cons x epochCounts ih =>
    obtain ⟨w, d⟩ := x
    by_cases hw : w = value
    · subst hw
      have hstart : finalCounts.merge (add w count ((w, d) :: epochCounts)) =
          (finalCounts.add w (d + count)).merge epochCounts := by
        rw [add, if_pos rfl]
        rfl
      rw [hstart, ← add_add_same, merge_add_of_mem (mem_values_add w d finalCounts)]
      rfl
    · rw [add, if_neg hw]
      exact ih (finalCounts.add w d)

/-- How many of the counted values have a property. -/
def countWhere (P : ℤ → Bool) (counts : HistoCount) : ℕ :=
  (counts.map fun x => if P x.1 then x.2 else 0).sum

theorem countWhere_add (P : ℤ → Bool) (value : ℤ) (count : ℕ) (counts : HistoCount) :
    (counts.add value count).countWhere P = counts.countWhere P + if P value then count else 0 := by
  induction counts with
  | nil => simp [add, countWhere]
  | cons x counts ih =>
    obtain ⟨w, d⟩ := x
    unfold countWhere at *
    by_cases hw : w = value
    · subst hw
      cases hP : P w <;> simp [add, hP]
      omega
    · simp [add, hw, ih, Nat.add_assoc]

theorem countWhere_merge (P : ℤ → Bool) (finalCounts epochCounts : HistoCount) :
    (finalCounts.merge epochCounts).countWhere P =
      finalCounts.countWhere P + epochCounts.countWhere P := by
  induction epochCounts generalizing finalCounts with
  | nil => rfl
  | cons x epochCounts ih =>
    change ((finalCounts.add x.1 x.2).merge epochCounts).countWhere P = _
    rw [ih, countWhere_add, Nat.add_assoc]
    rfl

/-- The counts of values as they come one after another. -/
def tally (values : List ℤ) : HistoCount := values.foldl (fun counts v => counts.add v 1) []

theorem countWhere_tally (P : ℤ → Bool) (values : List ℤ) :
    (tally values).countWhere P = values.countP P := by
  induction values using List.reverseRecOn with
  | nil => rfl
  | append_singleton values v ih =>
    rw [tally, List.foldl_append, List.countP_append]
    change ((tally values).add v 1).countWhere P = _
    rw [countWhere_add, ih]
    simp [List.countP_cons]

end HistoCount

namespace HistoStat
variable {h : HistoStat}

theorem foldl_bins (h : HistoStat) (counts : HistoCount) (bins : ℤ → ℕ) (pos : ℤ) :
    counts.foldl (fun bins x =>
      Function.update bins (h.binIdx x.1) (bins (h.binIdx x.1) + x.2)) bins pos =
      bins pos + counts.countWhere fun v => h.binIdx v = pos := by
  induction counts generalizing bins with
  | nil => rfl
  | cons x counts ih =>
    rw [List.foldl_cons, ih, HistoCount.countWhere, HistoCount.countWhere, List.map_cons, List.sum_cons]
    by_cases hpos : h.binIdx x.1 = pos
    · subst hpos
      simp [Nat.add_assoc]
    · simp [hpos, Function.update_of_ne (Ne.symm hpos)]

theorem bins_apply (h : HistoStat) (counts : HistoCount) (pos : ℤ) :
    h.bins counts pos = counts.countWhere fun v => h.binIdx v = pos := by
  rw [bins, foldl_bins, Nat.zero_add]

/-- A range that is a positive multiple of the number of bins. -/
structure Regular (h : HistoStat) : Prop where
  numBins : 0 < h.numBins
  range : ∃ width : ℤ, 0 < width ∧ h.endVal - h.startVal = width * h.numBins

/-- The values that the header of a bin names: those below the start, a stretch of as many values as a
bin is wide, and those from the end on. -/
def InHeader (h : HistoStat) (pos value : ℤ) : Prop :=
  if pos = 0 then value < h.startVal
  else if pos = h.numBins + 1 then h.endVal ≤ value
  else h.startVal + (pos - 1) * h.binWidth ≤ value ∧ value ≤ h.startVal + pos * h.binWidth - 1

instance (h : HistoStat) (pos value : ℤ) : Decidable (h.InHeader pos value) := by
  unfold InHeader
  infer_instance

theorem Regular.binWidth (hr : h.Regular) :
    0 < h.binWidth ∧ h.endVal - h.startVal = h.binWidth * h.numBins := by
  obtain ⟨width, hpos, hrange⟩ := hr.range
  have hn : (h.numBins : ℤ) ≠ 0 := by exact_mod_cast hr.numBins.ne'
  have heq : h.binWidth = width := by
    rw [HistoStat.binWidth, hrange]
    exact Int.mul_tdiv_cancel width hn
  rw [heq]
  exact ⟨hpos, hrange⟩

/-- Every value is counted in a bin that exists and whose header names it. -/
theorem Regular.binIdx_spec (hr : h.Regular) (value : ℤ) :
    0 ≤ h.binIdx value ∧ h.binIdx value < h.numBins + 2 ∧ h.InHeader (h.binIdx value) value := by
  obtain ⟨hw, hrange⟩ := hr.binWidth
  have hn : (0 : ℤ) < h.numBins := by exact_mod_cast hr.numBins
  by_cases hlow : value < h.startVal
  · have hidx : h.binIdx value = 0 := if_pos hlow
    rw [hidx, InHeader, if_pos rfl]
    exact ⟨le_rfl, by omega, hlow⟩
  by_cases hhigh : value > h.endVal
  · have hidx : h.binIdx value = h.numBins + 1 := by
      rw [binIdx, if_neg hlow, if_pos hhigh]
    rw [hidx, InHeader, if_neg (by omega), if_pos rfl]
    exact ⟨by omega, by omega, by omega⟩
  have hidx : h.binIdx value = (value - h.startVal) / h.binWidth + 1 := by
    rw [binIdx, if_neg hlow, if_neg hhigh, Int.tdiv_eq_ediv_of_nonneg (by omega)]
  have hpos : 0 ≤ (value - h.startVal) / h.binWidth := Int.ediv_nonneg (by omega) hw.le
  have hle : (value - h.startVal) / h.binWidth ≤ h.numBins := by
    refine Int.ediv_le_of_le_mul hw ?_
    rw [Int.mul_comm, ← hrange]
    omega
  have hlower := Int.ediv_mul_le (value - h.startVal) hw.ne'
  have hupper := Int.lt_ediv_add_one_mul_self (value - h.startVal) hw
  rw [hidx]
  generalize (value - h.startVal) / h.binWidth = q at *
  refine ⟨by omega, by omega, ?_⟩
  rw [InHeader, if_neg (by omega)]
  by_cases hq : q = h.numBins
  · -- the value at the end is counted above it
    subst hq
    rw [if_pos rfl]
    rw [Int.mul_comm, ← hrange] at hlower
    omega
  · rw [if_neg (by omega), Int.add_sub_cancel]
    exact ⟨by omega, by omega⟩

/-- The first value of a bin that is not below the start. -/
def lower (h : HistoStat) (pos : ℤ) : ℤ := h.startVal + (pos - 1) * h.binWidth

theorem Regular.inHeader_bounds (hr : h.Regular) {pos value : ℤ} (hin : h.InHeader pos value) :
    (pos ≠ 0 → h.lower pos ≤ value) ∧ (pos ≠ h.numBins + 1 → value < h.lower (pos + 1)) := by
  have hend : h.lower (h.numBins + 1) = h.endVal := by
    have hrange := hr.binWidth.2
    rw [lower, Int.add_sub_cancel, Int.mul_comm, ← hrange]
    omega
  unfold InHeader at hin
  split_ifs at hin with hzero hlast
  · subst hzero
    refine ⟨fun hne => absurd rfl hne, fun _ => ?_⟩
    simpa [lower] using hin
  · subst hlast
    exact ⟨fun _ => hend ▸ hin, fun hne => absurd rfl hne⟩
  · refine ⟨fun _ => hin.1, fun _ => ?_⟩
    rw [lower, Int.add_sub_cancel]
    omega

/-- A header names the values that are counted in its bin. -/
theorem Regular.inHeader_iff (hr : h.Regular) {pos : ℤ} (hpos : 0 ≤ pos ∧ pos < h.numBins + 2)
    (value : ℤ) : h.InHeader pos value ↔ h.binIdx value = pos := by
  obtain ⟨hnonneg, hlt, hown⟩ := hr.binIdx_spec value
  constructor
  · intro hin
    have hmono {p q : ℤ} (hpq : p ≤ q) : h.lower p ≤ h.lower q :=
      Int.add_le_add_left (Int.mul_le_mul_of_nonneg_right (by omega) hr.binWidth.1.le) _
    have hbounds := hr.inHeader_bounds hin
    have hbounds' := hr.inHeader_bounds hown
    rcases lt_trichotomy (h.binIdx value) pos with hlt' | heq | hgt
    · have hup := hbounds'.2 (by omega)
      have hlow := hbounds.1 (by omega)
      have := hmono (show h.binIdx value + 1 ≤ pos by omega)
      omega
    · exact heq
    · have hup := hbounds.2 (by omega)
      have hlow := hbounds'.1 (by omega)
      have := hmono (show pos + 1 ≤ h.binIdx value by omega)
      omega
  · rintro rfl
    exact hown

end HistoStat

namespace SimpleStats
variable {s : SimpleStats} {e : EnergyIncs} {ops : List Op} {op : Op} {name : String}

/-- The values that the calls add to a histogram. -/
def added (name : String) (ops : List Op) : List ℤ :=
  ops.filterMap fun
    | .addValue n value => if n = name then some value else none
    | _ => none

/-- The four accumulators of a run together with those of its current epoch are what the calls have
added up, whatever epochs have ended. -/
structure Accumulated (ops : List Op) (s : SimpleStats) : Prop where
  counters : ∀ name, s.counters name + s.epochCounters name = ops.count (.increment name)
  vecCounters : ∀ name pos,
    s.vecCounters name pos + s.epochVecCounters name pos = ops.count (.incrementVec name pos)
  histoCounts : ∀ name, (s.histoCounts name).merge (s.epochHistoCounts name) =
    HistoCount.tally (added name ops)
  histoBins : ∀ name h, s.histos name = some h → ∀ pos,
    s.histoBins name pos = (s.histoCounts name).countWhere fun v => h.binIdx v = pos
  uninitialised : ∀ name, s.histos name = none → ∀ pos,
    s.histoBins name pos = 0 ∧ s.epochHistoBins name pos = 0

/-- The energy that the cycles of all ranks take. -/
def rankEnergy (e : EnergyIncs) (vec : String → ℤ → ℕ) : ℚ :=
  ((List.range e.ranks).map fun (i : ℕ) => vec "rank_active_cycles" i * e.actStb +
    vec "all_bank_idle_cycles" i * e.preStb + vec "sref_cycles" i * e.sref).sum

/-- The loop over the ranks adds up their energy, and stores nothing but its parts. -/
theorem backgroundEnergy_eq (s : SimpleStats) (e : EnergyIncs) (vec : String → ℤ → ℕ) :
    ∃ vecDoubles, s.backgroundEnergy e vec = (rankEnergy e vec, { s with vecDoubles }) := by
  unfold backgroundEnergy rankEnergy
  suffices h : ∀ (l : List ℕ) (sum : ℚ) (s : SimpleStats), ∃ vecDoubles, l.foldl _ (sum, s) =
      (sum + (l.map fun (i : ℕ) => vec "rank_active_cycles" i * e.actStb +
        vec "all_bank_idle_cycles" i * e.preStb + vec "sref_cycles" i * e.sref).sum,
        { s with vecDoubles }) by
    simpa using h (List.range e.ranks) 0 s
  intro l
  induction l with
  | nil => exact fun sum s => ⟨s.vecDoubles, by simp⟩
  | cons i l ih =>
    intro sum s
    obtain ⟨v, hv⟩ := ih _ { s with vecDoubles := _ }
    exact ⟨v, hv.trans (by rw [List.map_cons, List.sum_cons, add_assoc])⟩

/-- What ending an epoch does to the accumulators. -/
theorem updateEpochStats_eq (s : SimpleStats) (e : EnergyIncs) :
    ∃ doubles vecDoubles calculated, s.updateEpochStats e =
      { s.updateCounters.updateHistoBins with
        doubles, vecDoubles, calculated
        epochCounters := fun _ => 0
        epochVecCounters := fun _ _ => 0
        epochHistoCounts := fun _ => [] } := by
  unfold updateEpochStats
  dsimp only
  generalize hb : SimpleStats.backgroundEnergy _ _ _ = b
  obtain ⟨v, hv⟩ := backgroundEnergy_eq _ e _
  obtain rfl := hb.symm.trans hv
  exact ⟨_, _, _, rfl⟩

theorem updateFinalStats_eq (s : SimpleStats) (e : EnergyIncs) :
    ∃ doubles vecDoubles calculated, s.updateFinalStats e =
      { s.updateCounters.updateHistoBins with doubles, vecDoubles, calculated } := by
  unfold updateFinalStats
  dsimp only
  generalize hb : SimpleStats.backgroundEnergy _ _ _ = b
  obtain ⟨v, hv⟩ := backgroundEnergy_eq _ e _
  obtain rfl := hb.symm.trans hv
  exact ⟨_, _, _, rfl⟩

theorem added_append (name : String) (ops : List Op) (op : Op) :
    added name (ops ++ [op]) = added name ops ++ added name [op] := List.filterMap_append

theorem tally_append_singleton (values : List ℤ) (value : ℤ) :
    HistoCount.tally (values ++ [value]) = (HistoCount.tally values).add value 1 := by
  rw [HistoCount.tally, List.foldl_append]
  rfl

/-- The bins of an initialised histogram after it was brought up to date. -/
theorem updateHistoBins_bins {h : HistoStat} (hname : s.histos name = some h)
    (hbins : ∀ pos, s.histoBins name pos = (s.histoCounts name).countWhere fun v => h.binIdx v = pos)
    (pos : ℤ) : s.updateHistoBins.histoBins name pos =
      (s.updateHistoBins.histoCounts name).countWhere fun v => h.binIdx v = pos := by
  have hepoch : s.updateHistoBins.epochHistoBins name = h.bins (s.epochHistoCounts name) := by
    dsimp only [updateHistoBins]
    rw [hname]
  change s.histoBins name pos + s.updateHistoBins.epochHistoBins name pos =
    ((s.histoCounts name).merge (s.epochHistoCounts name)).countWhere _
  rw [hepoch, HistoCount.countWhere_merge, hbins, HistoStat.bins_apply]

namespace Accumulated

theorem increment (hs : s.Accumulated ops) (name : String) :
    (s.increment name).Accumulated (ops ++ [.increment name]) where
  counters n := by
    rw [List.count_append, ← hs.counters n]
    by_cases hn : n = name
    · subst hn
      simp [SimpleStats.increment, Nat.add_assoc]
    · simp [SimpleStats.increment, hn, Ne.symm hn]
  vecCounters n pos := by
    rw [List.count_append, ← hs.vecCounters n pos]
    rfl
  histoCounts n := by
    rw [added_append]
    exact (hs.histoCounts n).trans (congrArg HistoCount.tally (List.append_nil _).symm)
  histoBins := hs.histoBins
  uninitialised := hs.uninitialised

theorem incrementVec (hs : s.Accumulated ops) (name : String) (pos : ℤ) :
    (s.incrementVec name pos).Accumulated (ops ++ [.incrementVec name pos]) where
  counters n := by
    rw [List.count_append, ← hs.counters n]
    rfl
  vecCounters n p := by
    rw [List.count_append, ← hs.vecCounters n p]
    by_cases hn : n = name
    · subst hn
      by_cases hp : p = pos
      · subst hp
        simp [SimpleStats.incrementVec, Nat.add_assoc]
      · simp [SimpleStats.incrementVec, hp, Ne.symm hp]
    · simp [SimpleStats.incrementVec, hn, Ne.symm hn]
  histoCounts n := by
    rw [added_append]
    exact (hs.histoCounts n).trans (congrArg HistoCount.tally (List.append_nil _).symm)
  histoBins := hs.histoBins
  uninitialised := hs.uninitialised

theorem addValue (hs : s.Accumulated ops) (name : String) (value : ℤ) :
    (s.addValue name value).Accumulated (ops ++ [.addValue name value]) where
  counters n := by
    rw [List.count_append, ← hs.counters n]
    rfl
  vecCounters n pos := by
    rw [List.count_append, ← hs.vecCounters n pos]
    rfl
  histoCounts n := by
    have hold := hs.histoCounts n
    rw [added_append]
    by_cases hn : n = name
    · subst hn
      simp only [SimpleStats.addValue, Function.update_self, HistoCount.merge_add, hold]
      simp [added, tally_append_singleton]
    · simpa [SimpleStats.addValue, hn, added, Ne.symm hn] using hold
  histoBins := hs.histoBins
  uninitialised := hs.uninitialised

theorem printEpochStats (hs : s.Accumulated ops) (e : EnergyIncs) :
    (s.updateEpochStats e).Accumulated (ops ++ [.printEpochStats]) := by
  obtain ⟨doubles, vecDoubles, calculated, heq⟩ := s.updateEpochStats_eq e
  rw [heq]
  constructor
  case counters =>
    intro n
    rw [List.count_append, ← hs.counters n]
    rfl
  case vecCounters =>
    intro n pos
    rw [List.count_append, ← hs.vecCounters n pos]
    rfl
  case histoCounts =>
    intro n
    rw [added_append]
    exact (hs.histoCounts n).trans (congrArg HistoCount.tally (List.append_nil _).symm)
  case histoBins =>
    intro n h hn pos
    exact updateHistoBins_bins (s := s.updateCounters) hn (hs.histoBins n h hn) pos
  case uninitialised =>
    intro n hn pos
    have hzero := hs.uninitialised n hn pos
    change s.histos n = none at hn
    dsimp only [updateHistoBins, updateCounters]
    rw [hn]
    exact ⟨(congrArg (· + _) hzero.1).trans ((Nat.zero_add _).trans hzero.2), hzero.2⟩

/-- Any calls keep the account. -/
theorem run (histos : String → Option HistoStat) (e : EnergyIncs) (ops : List Op) :
    (SimpleStats.run e { histos } ops).Accumulated ops := by
  induction ops using List.reverseRecOn with
  | nil =>
    refine ⟨fun _ => rfl, fun _ _ => rfl, fun _ => rfl, fun _ _ _ _ => rfl, fun _ _ _ => ⟨rfl, rfl⟩⟩
  | append_singleton ops op ih =>
    rw [SimpleStats.run, List.foldl_append]
    cases op with
    | increment name => exact ih.increment name
    | incrementVec name pos => exact ih.incrementVec name pos
    | addValue name value => exact ih.addValue name value
    | printEpochStats => exact ih.printEpochStats e

end Accumulated

theorem run_histos (histos : String → Option HistoStat) (e : EnergyIncs) (ops : List Op) :
    (run e { histos } ops).histos = histos := by
  induction ops using List.reverseRecOn with
  | nil => rfl
  | append_singleton ops op ih =>
    rw [run, List.foldl_append]
    cases op with
    | printEpochStats =>
      obtain ⟨_, _, _, heq⟩ := (run e { histos } ops).updateEpochStats_eq e
      exact (congrArg SimpleStats.histos heq).trans ih
    | _ => exact ih

/-- The statistics at the end of a run, from the constructor on. -/
def finalStats (histos : String → Option HistoStat) (e : EnergyIncs) (ops : List Op) : SimpleStats :=
  (run e { histos } ops).updateFinalStats e

/-- What the final statistics are, in terms of the calls alone. -/
theorem finalStats_spec (histos : String → Option HistoStat) (e : EnergyIncs) (ops : List Op) :
    (∀ name, (finalStats histos e ops).counters name = ops.count (.increment name)) ∧
      (∀ name pos, (finalStats histos e ops).vecCounters name pos = ops.count (.incrementVec name pos)) ∧
      (∀ name, (finalStats histos e ops).histoCounts name = HistoCount.tally (added name ops)) ∧
      (∀ name pos, (finalStats histos e ops).histoBins name pos = match histos name with
        | some h => (added name ops).countP fun v => h.binIdx v = pos
        | none => 0) := by
  have hs := Accumulated.run histos e ops
  have hhistos := run_histos histos e ops
  obtain ⟨doubles, vecDoubles, calculated, heq⟩ := (run e { histos } ops).updateFinalStats_eq e
  rw [finalStats, heq]
  refine ⟨hs.counters, hs.vecCounters, hs.histoCounts, fun name pos => ?_⟩
  cases hn : histos name with
  | some h =>
    have hname : (run e { histos } ops).updateCounters.histos name = some h := by
      rw [← hn]
      exact congrFun hhistos name
    have hbins := updateHistoBins_bins hname (hs.histoBins name h hname) pos
    have hcounts : (run e { histos } ops).updateCounters.updateHistoBins.histoCounts name = _ :=
      hs.histoCounts name
    rw [hcounts, HistoCount.countWhere_tally] at hbins
    exact hbins
  | none =>
    have hname : (run e { histos } ops).histos name = none := by rw [hhistos, hn]
    have hzero := hs.uninitialised name hname pos
    dsimp only [updateHistoBins, updateCounters]
    rw [hname, hzero.1]
    exact (Nat.zero_add _).trans hzero.2

/-- What the final statistics owe to the calls: nothing to the ends of epochs, and in every histogram
each value to the bin whose header names it. -/
structure EpochFree (histos : String → Option HistoStat) (e : EnergyIncs) (ops : List Op) : Prop where
  counters : (finalStats histos e ops).counters =
    (finalStats histos e (ops.filter (· ≠ .printEpochStats))).counters
  vecCounters : (finalStats histos e ops).vecCounters =
    (finalStats histos e (ops.filter (· ≠ .printEpochStats))).vecCounters
  histoCounts : (finalStats histos e ops).histoCounts =
    (finalStats histos e (ops.filter (· ≠ .printEpochStats))).histoCounts
  histoBins : (finalStats histos e ops).histoBins =
    (finalStats histos e (ops.filter (· ≠ .printEpochStats))).histoBins
  binIdx : ∀ name h, histos name = some h → ∀ value,
    0 ≤ h.binIdx value ∧ h.binIdx value < h.numBins + 2 ∧ h.InHeader (h.binIdx value) value
  headers : ∀ name h, histos name = some h → ∀ pos : ℕ, pos < h.numBins + 2 →
    (finalStats histos e ops).histoBins name pos =
      (added name ops).countP fun value => decide (h.InHeader pos value)
  sums : ∀ name h, histos name = some h →
    ∑ pos ∈ Finset.range (h.numBins + 2), (finalStats histos e ops).histoBins name pos =
      (added name ops).length

theorem added_filter (name : String) (ops : List Op) :
    added name (ops.filter (· ≠ .printEpochStats)) = added name ops := by
  induction ops with
  | nil => rfl
  | cons op ops ih =>
    unfold added at *
    cases op with
    | printEpochStats => simpa using ih
    | _ =>
      rw [List.filter_cons_of_pos (by simp), List.filterMap_cons, List.filterMap_cons, ih]

/-- The values of a list, counted by the number that each is given. -/
theorem sum_countP_eq_length {n : ℕ} {f : ℤ → ℤ} (values : List ℤ) (hf : ∀ v, 0 ≤ f v ∧ f v < n) :
    ∑ pos ∈ Finset.range n, values.countP (fun v => f v = (pos : ℕ)) = values.length := by
  induction values with
  | nil => simp
  | cons v values ih =>
    have hone : ∑ pos ∈ Finset.range n, (if f v = (pos : ℕ) then 1 else 0) = 1 := by
      obtain ⟨k, hk⟩ := Int.eq_ofNat_of_zero_le (hf v).1
      have hlt := (hf v).2
      rw [hk] at hlt ⊢
      have hmem : k ∈ Finset.range n := Finset.mem_range.mpr (by exact_mod_cast hlt)
      simp [Finset.mem_range.mp hmem]
    simp only [List.countP_cons, decide_eq_true_eq, Finset.sum_add_distrib, ih, hone, List.length_cons]

theorem final_stats_epoch_free (histos : String → Option HistoStat) (e : EnergyIncs)
    (hr : ∀ name h, histos name = some h → h.Regular) (ops : List Op) : EpochFree histos e ops := by
  obtain ⟨hcounters, hvec, hcounts, hbins⟩ := finalStats_spec histos e ops
  obtain ⟨hcounters', hvec', hcounts', hbins'⟩ :=
    finalStats_spec histos e (ops.filter (· ≠ .printEpochStats))
  have hkeep (op : Op) (hop : op ≠ .printEpochStats) :
      (ops.filter (· ≠ .printEpochStats)).count op = ops.count op :=
    List.count_filter (by simpa using hop)
  have hbin {name : String} {h : HistoStat} (hname : histos name = some h) (pos : ℤ) :
      (finalStats histos e ops).histoBins name pos =
        (added name ops).countP fun v => h.binIdx v = pos := by
    rw [hbins, hname]
  constructor
  case counters =>
    funext name
    rw [hcounters, hcounters', hkeep (.increment name) (by simp)]
  case vecCounters =>
    funext name pos
    rw [hvec, hvec', hkeep (.incrementVec name pos) (by simp)]
  case histoCounts =>
    funext name
    rw [hcounts, hcounts', added_filter]
  case histoBins =>
    funext name pos
    rw [hbins, hbins', added_filter]
  case binIdx => exact fun name h hname value => (hr name h hname).binIdx_spec value
  case headers =>
    intro name h hname pos hpos
    rw [hbin hname]
    refine List.countP_congr fun value _ => ?_
    rw [decide_eq_true_iff, decide_eq_true_iff]
    exact ((hr name h hname).inHeader_iff ⟨by omega, by omega⟩ value).symm
  case sums =>
    intro name h hname
    simp only [hbin hname]
    refine sum_countP_eq_length (added name ops) fun value => ?_
    have hspec := (hr name h hname).binIdx_spec value
    exact ⟨hspec.1, by exact_mod_cast hspec.2.1⟩

/-- The histogram of read latencies, as the constructor initialises it. -/
def readLatency : HistoStat := ⟨0, 200, 10⟩

/-- Three reads, the first two in an epoch of their own. -/
theorem final_stats_epoch_free_small :
    EpochFree (fun name => if name = "read_latency" then some readLatency else none)
      ⟨1, 1, 1, 1, 1, 1, 1, 1, 1, 1⟩
      [.addValue "read_latency" 25, .addValue "read_latency" 200, .printEpochStats,
        .addValue "read_latency" 25] := by
  refine final_stats_epoch_free _ _ (fun name h hname => ?_) _
  split_ifs at hname
  cases hname
  exact ⟨by decide, 20, by decide, by decide⟩

end SimpleStats
end CactusDram

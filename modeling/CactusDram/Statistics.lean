import CactusDram.Foundations.Outcome
import CactusDram.Config

/-! The statistics of a channel: counters, counters per rank, and histograms, each kept for the
current epoch and for the whole run. Names are looked up in maps, whose missing entries read as zero;
counters are natural numbers, as no run makes 64 bits of them wrap. -/
namespace CactusDram

/-- The bounds of a histogram and the number of bins between them. -/
structure HistoStat where
  startVal : ℤ
  endVal : ℤ
  numBins : ℕ

/-- How often each value occurred, in the order of the first occurrences. -/
abbrev HistoCount := List (ℤ × ℕ)

namespace HistoCount

/-- Add to the count of a value, which is made if it is missing. -/
def add (value : ℤ) (count : ℕ) : HistoCount → HistoCount
  | [] => [(value, count)]
  | (v, c) :: counts => if v = value then (v, c + count) :: counts else (v, c) :: add value count counts

/-- Add all counts of an epoch to those of the run. -/
def merge (finalCounts epochCounts : HistoCount) : HistoCount :=
  epochCounts.foldl (fun counts x => add x.1 x.2 counts) finalCounts

end HistoCount

namespace HistoStat
variable (h : HistoStat)

def binWidth : ℤ := (h.endVal - h.startVal).tdiv h.numBins

/-- The position of a value in the vector of bins, which has one more at either end. -/
def binIdx (value : ℤ) : ℤ :=
  if value < h.startVal then 0
  else if value > h.endVal then h.numBins + 1
  else (value - h.startVal).tdiv h.binWidth + 1

/-- The bins of the values counted in an epoch. -/
def bins (counts : HistoCount) : ℤ → ℕ :=
  counts.foldl (fun bins x => Function.update bins (h.binIdx x.1) (bins (h.binIdx x.1) + x.2)) fun _ => 0

end HistoStat

/-- The energy that a command or a cycle of a rank takes, and the number of ranks. -/
structure EnergyIncs where
  ranks : ℕ
  act : ℚ
  read : ℚ
  write : ℚ
  ref : ℚ
  rfmab : ℚ
  refb : ℚ
  actStb : ℚ
  preStb : ℚ
  sref : ℚ

structure SimpleStats where
  histos : String → Option HistoStat
  counters : String → ℕ := fun _ => 0
  epochCounters : String → ℕ := fun _ => 0
  vecCounters : String → ℤ → ℕ := fun _ _ => 0
  epochVecCounters : String → ℤ → ℕ := fun _ _ => 0
  doubles : String → ℚ := fun _ => 0
  vecDoubles : String → ℤ → ℚ := fun _ _ => 0
  calculated : String → ℚ := fun _ => 0
  histoCounts : String → HistoCount := fun _ => []
  epochHistoCounts : String → HistoCount := fun _ => []
  histoBins : String → ℤ → ℕ := fun _ _ => 0
  epochHistoBins : String → ℤ → ℕ := fun _ _ => 0

namespace SimpleStats
variable (s : SimpleStats)

def increment (name : String) : SimpleStats :=
  { s with epochCounters := Function.update s.epochCounters name (s.epochCounters name + 1) }

def incrementVec (name : String) (pos : ℤ) : SimpleStats :=
  { s with
    epochVecCounters := Function.update s.epochVecCounters name
      (Function.update (s.epochVecCounters name) pos (s.epochVecCounters name pos + 1)) }

def addValue (name : String) (value : ℤ) : SimpleStats :=
  { s with
    epochHistoCounts := Function.update s.epochHistoCounts name
      ((s.epochHistoCounts name).add value 1) }

def updateCounters : SimpleStats :=
  { s with
    counters := fun name => s.counters name + s.epochCounters name
    vecCounters := fun name pos => s.vecCounters name pos + s.epochVecCounters name pos }

/-- The bins of the epoch are filled anew, for the histograms that were initialised, and added to
those of the run like the counts. -/
def updateHistoBins : SimpleStats :=
  let epochHistoBins : String → ℤ → ℕ := fun name => match s.histos name with
    | some h => h.bins (s.epochHistoCounts name)
    | none => s.epochHistoBins name
  { s with
    epochHistoBins
    histoCounts := fun name => (s.histoCounts name).merge (s.epochHistoCounts name)
    histoBins := fun name pos => s.histoBins name pos + epochHistoBins name pos }

def storeDouble (name : String) (x : ℚ) : SimpleStats :=
  { s with doubles := Function.update s.doubles name x }

/-- The loop over the ranks, from the counters of the epoch or of the run: the energies stored, and
their sum. -/
def backgroundEnergy (e : EnergyIncs) (vec : String → ℤ → ℕ) : ℚ × SimpleStats :=
  (List.range e.ranks).foldl (fun (sum, s) (i : ℕ) =>
    let actStb := vec "rank_active_cycles" i * e.actStb
    let preStb := vec "all_bank_idle_cycles" i * e.preStb
    let srefEnergy := vec "sref_cycles" i * e.sref
    let put (name : String) (x : ℚ) (v : String → ℤ → ℚ) :=
      Function.update v name (Function.update (v name) i x)
    (sum + (actStb + preStb + srefEnergy),
      { s with
        vecDoubles := put "sref_energy" srefEnergy
          (put "pre_stb_energy" preStb (put "act_stb_energy" actStb s.vecDoubles)) })) (0, s)

/-- Of the calculated statistics only the total energy is kept here. -/
def updateEpochStats (e : EnergyIncs) : SimpleStats :=
  let s := s.updateCounters
  let s := s.storeDouble "act_energy" (s.epochCounters "num_act_cmds" * e.act)
  let s := s.storeDouble "read_energy" (s.epochCounters "num_read_cmds" * e.read)
  let s := s.storeDouble "write_energy" (s.epochCounters "num_write_cmds" * e.write)
  let s := s.storeDouble "refab_energy" (s.epochCounters "num_refab_cmds" * e.ref)
  let s := s.storeDouble "refb_energy" (s.epochCounters "num_refb_cmds" * e.refb)
  let s := s.storeDouble "rfmab_energy" (s.epochCounters "num_rfmab_cmds" * e.rfmab)
  let (background, s) := s.backgroundEnergy e s.epochVecCounters
  let s := s.updateHistoBins
  let total := s.doubles "act_energy" + s.doubles "read_energy" + s.doubles "write_energy" +
    s.doubles "ref_energy" + s.doubles "refb_energy" + background + s.doubles "rfmab_energy"
  { s with
    calculated := Function.update s.calculated "total_energy" total
    epochCounters := fun _ => 0
    epochVecCounters := fun _ _ => 0
    epochHistoCounts := fun _ => [] }

/-- The same for the whole run, which keeps the counters of its last epoch. -/
def updateFinalStats (e : EnergyIncs) : SimpleStats :=
  let s := s.updateCounters
  let s := s.storeDouble "act_energy" (s.counters "num_act_cmds" * e.act)
  let s := s.storeDouble "read_energy" (s.counters "num_read_cmds" * e.read)
  let s := s.storeDouble "write_energy" (s.counters "num_write_cmds" * e.write)
  let s := s.storeDouble "refab_energy" (s.counters "num_refab_cmds" * e.ref)
  let s := s.storeDouble "refb_energy" (s.counters "num_refb_cmds" * e.refb)
  let (background, s) := s.backgroundEnergy e s.vecCounters
  let s := s.updateHistoBins
  let total := s.doubles "act_energy" + s.doubles "read_energy" + s.doubles "write_energy" +
    s.doubles "ref_energy" + s.doubles "refb_energy" + background
  { s with calculated := Function.update s.calculated "total_energy" total }

/-- The calls that change the statistics of a channel during a run. -/
inductive Op
  | increment (name : String)
  | incrementVec (name : String) (pos : ℤ)
  | addValue (name : String) (value : ℤ)
  | printEpochStats
  deriving DecidableEq

def step (e : EnergyIncs) (s : SimpleStats) : Op → SimpleStats
  | .increment name => s.increment name
  | .incrementVec name pos => s.incrementVec name pos
  | .addValue name value => s.addValue name value
  | .printEpochStats => s.updateEpochStats e

def run (e : EnergyIncs) (s : SimpleStats) (ops : List Op) : SimpleStats := ops.foldl (step e) s

end SimpleStats
end CactusDram

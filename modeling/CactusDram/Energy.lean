import CactusDram.EpochTotals
import CactusDram.Run

/-! The energy of a run. The routines for an epoch and for the whole run store the energy of REFab
under one key and add up another, and only the first of them adds that of RFMab. -/
namespace CactusDram
open Foundations

/-- The voltage and the currents of the power section, and the devices of a rank. -/
structure PowerParams where
  vdd : ℚ := 6 / 5
  idd0 : ℚ := 48
  idd2N : ℚ := 34
  idd3N : ℚ := 43
  idd4W : ℚ := 123
  idd4R : ℚ := 135
  idd5AB : ℚ := 250
  idd5PB : ℚ := 5
  idd6x : ℚ := 31
  devicesPerRank : ℤ

def Config.initPowerParams (cfg : Config) (p : PowerParams) : EnergyIncs :=
  let ref := p.vdd * (p.idd5AB - p.idd3N) * cfg.tRFC * p.devicesPerRank
  { ranks := cfg.ranks
    act := p.vdd * (p.idd0 * cfg.tRC - (p.idd3N * cfg.tRAS + p.idd2N * cfg.tRP)) * p.devicesPerRank
    read := p.vdd * (p.idd4R - p.idd3N) * cfg.burstCycle * p.devicesPerRank
    write := p.vdd * (p.idd4W - p.idd3N) * cfg.burstCycle * p.devicesPerRank
    ref
    rfmab := ref / 4
    refb := p.vdd * (p.idd5PB - p.idd3N) * cfg.tRFCb * p.devicesPerRank
    actStb := p.vdd * p.idd3N * p.devicesPerRank
    preStb := p.vdd * p.idd2N * p.devicesPerRank
    sref := p.vdd * p.idd6x * p.devicesPerRank }

/-- How a rank spends a cycle: the counters of part 1 of the power updates. -/
inductive RankPower
  | selfRefreshing
  | allBankIdle
  | active
  deriving DecidableEq

def RankPower.counter : RankPower → String
  | selfRefreshing => "sref_cycles"
  | allBankIdle => "all_bank_idle_cycles"
  | active => "rank_active_cycles"

/-- The counter of a command, or none for the commands that end the simulation. -/
def CommandType.counter : CommandType → Option String
  | .read | .readPrecharge => some "num_read_cmds"
  | .write | .writePrecharge => some "num_write_cmds"
  | .preAb => some "num_preab_cmds"
  | .preSb => some "num_presb_cmds"
  | .activate => some "num_act_cmds"
  | .rfmAb => some "num_rfmab_cmds"
  | .rfmSb => some "num_rfmsb_cmds"
  | .drfmAb => some "num_drfmab_cmds"
  | .drfmSb => some "num_drfmsb_cmds"
  | .drfmB => some "num_drfmb_cmds"
  | .precharge => some "num_pre_cmds"
  | .refAb => some "num_refab_cmds"
  | .refSb => some "num_refsb_cmds"
  | .refreshBank => some "num_refb_cmds"
  | .srefEnter => some "num_srefe_cmds"
  | .srefExit => some "num_srefx_cmds"
  | .size => none

def CommandType.rowHitCounter : CommandType → Option String
  | .read | .readPrecharge => some "num_read_row_hits"
  | .write | .writePrecharge => some "num_write_row_hits"
  | _ => none

/-- The counters that energy is computed from. -/
def energyCounters : List String :=
  ["num_act_cmds", "num_read_cmds", "num_write_cmds", "num_refab_cmds", "num_refb_cmds",
    "num_rfmab_cmds"]

/-- What a channel reports to its statistics: the commands it issues, the cycles of its ranks, the
counters and values that no energy depends on, and the ends of epochs. -/
inductive Activity
  | issue (cmdType : CommandType) (rowHit : Bool)
  | powerUpdate (power : ℕ → RankPower)
  | count (name : String) (h : name ∉ energyCounters)
  | addValue (name : String) (value : ℤ)
  | printEpochStats

namespace SimpleStats
variable (s : SimpleStats)

/-- The counters of a command that is issued. -/
def updateCommandStats (cmdType : CommandType) (rowHit : Bool) : Except Exit SimpleStats :=
  match cmdType.counter with
  | none => .error (.abruptExit .updateCommandStats)
  | some name =>
    match cmdType.rowHitCounter with
    | some hits => .ok (if rowHit then (s.increment name).increment hits else s.increment name)
    | none => .ok (s.increment name)

def powerUpdate (ranks : ℕ) (power : ℕ → RankPower) : SimpleStats :=
  (List.range ranks).foldl (fun s (i : ℕ) => s.incrementVec (power i).counter i) s

end SimpleStats

/-- The statistics so far, and the total energies of the epochs that have ended. -/
structure EnergyRun where
  stats : SimpleStats
  epochs : List ℚ := []

namespace EnergyRun

def step (e : EnergyIncs) (r : EnergyRun) : Activity → Except Exit EnergyRun
  | .issue cmdType rowHit => (r.stats.updateCommandStats cmdType rowHit).map fun stats => { r with stats }
  | .powerUpdate power => .ok { r with stats := r.stats.powerUpdate e.ranks power }
  | .count name _ => .ok { r with stats := r.stats.increment name }
  | .addValue name value => .ok { r with stats := r.stats.addValue name value }
  | .printEpochStats =>
    let stats := (r.stats.increment "epoch_num").updateEpochStats e
    .ok ⟨stats, r.epochs ++ [stats.calculated "total_energy"]⟩

def run (e : EnergyIncs) (histos : String → Option HistoStat) (acts : List Activity) :
    Except Exit EnergyRun := acts.foldlM (step e) { stats := { histos } }

end EnergyRun

/-- The configured energy of a command. -/
def EnergyIncs.ofCommand (e : EnergyIncs) : CommandType → ℚ
  | .activate => e.act
  | .read | .readPrecharge => e.read
  | .write | .writePrecharge => e.write
  | .refAb => e.ref
  | .refreshBank => e.refb
  | .rfmAb => e.rfmab
  | _ => 0

def EnergyIncs.ofCycle (e : EnergyIncs) : RankPower → ℚ
  | .selfRefreshing => e.sref
  | .allBankIdle => e.preStb
  | .active => e.actStb

/-- What an activity adds to the energy of a run. -/
def EnergyIncs.ofActivity (e : EnergyIncs) : Activity → ℚ
  | .issue cmdType _ => e.ofCommand cmdType
  | .powerUpdate power => ((List.range e.ranks).map fun i => e.ofCycle (power i)).sum
  | _ => 0

/-- The total energy that the final statistics report. -/
def EnergyRun.finalEnergy (e : EnergyIncs) (r : EnergyRun) : ℚ :=
  (r.stats.updateFinalStats e).calculated "total_energy"

/-- The final total is the energy of all commands and cycles, and that of the epochs if the last of
them ends with the run. -/
structure EnergyAccounted (e : EnergyIncs) (acts : List Activity) (r : EnergyRun) : Prop where
  total : r.finalEnergy e = (acts.map e.ofActivity).sum
  additive : (∃ before, acts = before ++ [.printEpochStats]) → r.finalEnergy e = r.epochs.sum

namespace SimpleStats
variable {s : SimpleStats} {e : EnergyIncs}

/-- The energy that counters stand for. -/
def commandEnergy (e : EnergyIncs) (c : String → ℕ) : ℚ :=
  c "num_act_cmds" * e.act + c "num_read_cmds" * e.read + c "num_write_cmds" * e.write +
    c "num_refb_cmds" * e.refb

theorem updateFinalStats_total (s : SimpleStats) (e : EnergyIncs) (href : s.doubles "ref_energy" = 0) :
    (s.updateFinalStats e).calculated "total_energy" =
      commandEnergy e s.updateCounters.counters + rankEnergy e s.updateCounters.vecCounters := by
  unfold updateFinalStats
  dsimp only
  generalize hb : SimpleStats.backgroundEnergy _ _ _ = b
  obtain ⟨v, hv⟩ := backgroundEnergy_eq _ e _
  obtain rfl := hb.symm.trans hv
  simp [storeDouble, updateHistoBins, commandEnergy]
  simp [updateCounters, href]

theorem updateEpochStats_total (s : SimpleStats) (e : EnergyIncs) (href : s.doubles "ref_energy" = 0) :
    (s.updateEpochStats e).calculated "total_energy" =
      commandEnergy e s.epochCounters + rankEnergy e s.epochVecCounters +
        s.epochCounters "num_rfmab_cmds" * e.rfmab := by
  unfold updateEpochStats
  dsimp only
  generalize hb : SimpleStats.backgroundEnergy _ _ _ = b
  obtain ⟨v, hv⟩ := backgroundEnergy_eq _ e _
  obtain rfl := hb.symm.trans hv
  simp [storeDouble, updateHistoBins, commandEnergy]
  simp [updateCounters, href]

theorem updateEpochStats_refEnergy (s : SimpleStats) (e : EnergyIncs) :
    (s.updateEpochStats e).doubles "ref_energy" = s.doubles "ref_energy" := by
  unfold updateEpochStats
  dsimp only
  generalize hb : SimpleStats.backgroundEnergy _ _ _ = b
  obtain ⟨v, hv⟩ := backgroundEnergy_eq _ e _
  obtain rfl := hb.symm.trans hv
  simp [storeDouble, updateHistoBins]
  rfl

/-- A command is counted, and perhaps a row hit, which no energy depends on. -/
theorem updateCommandStats_ok {cmdType : CommandType} {rowHit : Bool} {s' : SimpleStats}
    (h : s.updateCommandStats cmdType rowHit = .ok s') :
    ∃ name, cmdType.counter = some name ∧ (s' = s.increment name ∨
      ∃ hits ∉ energyCounters, s' = (s.increment name).increment hits) := by
  unfold updateCommandStats at h
  cases hc : cmdType.counter with
  | none => simp [hc] at h
  | some name =>
    rw [hc] at h
    refine ⟨name, rfl, ?_⟩
    cases hhits : cmdType.rowHitCounter with
    | none =>
      rw [hhits] at h
      cases h
      exact .inl rfl
    | some hits =>
      rw [hhits] at h
      have hother : hits ∉ energyCounters := by
        cases cmdType <;> simp [CommandType.rowHitCounter] at hhits <;> subst hhits <;> decide
      cases rowHit
      · cases h
        exact .inl rfl
      · cases h
        exact .inr ⟨hits, hother, rfl⟩

/-- A round of the power updates counts one cycle of every rank. -/
theorem powerUpdate_eq (s : SimpleStats) (ranks : ℕ) (power : ℕ → RankPower) :
    ∃ epochVecCounters : String → ℤ → ℕ, s.powerUpdate ranks power = { s with epochVecCounters } ∧
      ∀ name (i : ℕ), epochVecCounters name i =
        s.epochVecCounters name i + if i < ranks ∧ (power i).counter = name then 1 else 0 := by
  induction ranks with
  | zero => exact ⟨s.epochVecCounters, rfl, fun name i => by simp⟩
  | succ ranks ih =>
    obtain ⟨v, hv, hspec⟩ := ih
    have hstep : s.powerUpdate (ranks + 1) power =
        (s.powerUpdate ranks power).incrementVec (power ranks).counter ranks := by
      rw [powerUpdate, List.range_succ, List.foldl_append]
      rfl
    rw [hstep, hv]
    refine ⟨_, rfl, fun name i => ?_⟩
    have hi := hspec name i
    by_cases hname : name = (power ranks).counter
    · subst hname
      by_cases heq : i = ranks
      · subst heq
        simp [hi]
      · have hlt : i < ranks + 1 ↔ i < ranks := by omega
        simp [hi, heq, hlt]
    · have hlt : i < ranks + 1 ∧ (power i).counter = name ↔ i < ranks ∧ (power i).counter = name := by
        constructor
        · rintro ⟨hi, hn⟩
          refine ⟨(Nat.lt_succ_iff_lt_or_eq.mp hi).resolve_right ?_, hn⟩
          rintro rfl
          exact hname hn.symm
        · rintro ⟨hi, hn⟩
          exact ⟨hi.trans (Nat.lt_succ_self _), hn⟩
      rw [if_congr hlt rfl rfl, ← hi]
      exact congrFun (Function.update_of_ne hname _ _) _

/-- The energy of all counted commands, those of REFab and RFMab among them. -/
def fullEnergy (e : EnergyIncs) (c : String → ℕ) : ℚ :=
  commandEnergy e c + c "num_refab_cmds" * e.ref + c "num_rfmab_cmds" * e.rfmab

theorem fullEnergy_issue {cmdType : CommandType} {name : String} (h : cmdType.counter = some name)
    (e : EnergyIncs) (c : String → ℕ) :
    fullEnergy e (Function.update c name (c name + 1)) = fullEnergy e c + e.ofCommand cmdType := by
  cases cmdType <;> simp only [CommandType.counter, Option.some.injEq, reduceCtorEq] at h <;>
    subst h <;> simp [fullEnergy, commandEnergy, EnergyIncs.ofCommand] <;> ring

/-- The counter of a command, and of no other. -/
theorem counter_issue {cmdType : CommandType} {name : String} (h : cmdType.counter = some name)
    (c : String → ℕ) :
    Function.update c name (c name + 1) "num_refab_cmds" =
        c "num_refab_cmds" + (if cmdType = .refAb then 1 else 0) ∧
      Function.update c name (c name + 1) "num_rfmab_cmds" =
        c "num_rfmab_cmds" + (if cmdType = .rfmAb then 1 else 0) := by
  cases cmdType <;> simp only [CommandType.counter, Option.some.injEq, reduceCtorEq] at h <;>
    subst h <;> simp

/-- Counters that no energy depends on. -/
theorem energy_other {name : String} (h : name ∉ energyCounters) (e : EnergyIncs) (c : String → ℕ)
    (n : ℕ) : fullEnergy e (Function.update c name n) = fullEnergy e c ∧
      Function.update c name n "num_refab_cmds" = c "num_refab_cmds" ∧
      Function.update c name n "num_rfmab_cmds" = c "num_rfmab_cmds" := by
  simp only [energyCounters, List.mem_cons, List.not_mem_nil, or_false, not_or] at h
  obtain ⟨hact, hread, hwrite, hrefab, hrefb, hrfmab⟩ := h
  simp [fullEnergy, commandEnergy, Function.update_of_ne (Ne.symm hact),
    Function.update_of_ne (Ne.symm hread), Function.update_of_ne (Ne.symm hwrite),
    Function.update_of_ne (Ne.symm hrefab), Function.update_of_ne (Ne.symm hrefb),
    Function.update_of_ne (Ne.symm hrfmab)]

theorem updateCounters_increment (s : SimpleStats) (name : String) :
    (s.increment name).updateCounters.counters =
      Function.update s.updateCounters.counters name (s.updateCounters.counters name + 1) := by
  funext n
  by_cases hn : n = name
  · subst hn
    simp [updateCounters, increment, Nat.add_assoc]
  · simp [updateCounters, increment, hn]

theorem commandEnergy_updateCounters (s : SimpleStats) (e : EnergyIncs) :
    commandEnergy e s.updateCounters.counters =
      commandEnergy e s.counters + commandEnergy e s.epochCounters := by
  simp only [commandEnergy, updateCounters, Nat.cast_add]
  ring

theorem rankEnergy_updateCounters (s : SimpleStats) (e : EnergyIncs) :
    rankEnergy e s.updateCounters.vecCounters =
      rankEnergy e s.vecCounters + rankEnergy e s.epochVecCounters := by
  rw [rankEnergy, rankEnergy, rankEnergy, ← List.sum_map_add]
  refine congrArg List.sum (List.map_congr_left fun i _ => ?_)
  simp only [updateCounters, Nat.cast_add]
  ring

theorem rankEnergy_powerUpdate (s : SimpleStats) (e : EnergyIncs) (power : ℕ → RankPower) :
    rankEnergy e (s.powerUpdate e.ranks power).updateCounters.vecCounters =
      rankEnergy e s.updateCounters.vecCounters + e.ofActivity (.powerUpdate power) := by
  obtain ⟨v, hv, hspec⟩ := s.powerUpdate_eq e.ranks power
  rw [hv, rankEnergy, rankEnergy, EnergyIncs.ofActivity, ← List.sum_map_add]
  refine congrArg List.sum (List.map_congr_left fun i hi => ?_)
  have hi := List.mem_range.mp hi
  simp only [updateCounters, hspec, hi, true_and]
  cases power i <;> simp [RankPower.counter, EnergyIncs.ofCycle] <;> ring

end SimpleStats

/-- How often a command was issued. -/
def issued (cmdType : CommandType) (acts : List Activity) : ℕ :=
  acts.countP fun
    | .issue ty _ => ty = cmdType
    | _ => false

namespace EnergyRun
open SimpleStats
variable {e : EnergyIncs} {r r' : EnergyRun} {acts : List Activity} {act : Activity}

/-- The counters of a run stand for the energy of its activities, and those moved out of its epochs
for the totals of the epochs. -/
structure Tracked (e : EnergyIncs) (acts : List Activity) (r : EnergyRun) : Prop where
  refEnergy : r.stats.doubles "ref_energy" = 0
  spent : fullEnergy e r.stats.updateCounters.counters +
    rankEnergy e r.stats.updateCounters.vecCounters = (acts.map e.ofActivity).sum
  refab : r.stats.updateCounters.counters "num_refab_cmds" = issued .refAb acts
  rfmab : r.stats.updateCounters.counters "num_rfmab_cmds" = issued .rfmAb acts
  epochs : r.epochs.sum = commandEnergy e r.stats.counters + rankEnergy e r.stats.vecCounters +
    r.stats.counters "num_rfmab_cmds" * e.rfmab
  closed : (∃ before, acts = before ++ [.printEpochStats]) →
    r.stats.updateCounters.counters = r.stats.counters ∧
      r.stats.updateCounters.vecCounters = r.stats.vecCounters

theorem append_singleton_ne {acts : List Activity} (h : act ≠ .printEpochStats) :
    ¬ ∃ before, acts ++ [act] = before ++ [.printEpochStats] := by
  rintro ⟨before, heq⟩
  exact h (List.singleton_inj.mp (List.append_inj' heq rfl).2)

theorem issued_append (cmdType : CommandType) (acts : List Activity) (act : Activity) :
    issued cmdType (acts ++ [act]) = issued cmdType acts + issued cmdType [act] := List.countP_append

theorem issued_other {cmdType : CommandType} (h : issued cmdType [act] = 0) (acts : List Activity) :
    issued cmdType acts = issued cmdType (acts ++ [act]) := by
  rw [issued_append, h, Nat.add_zero]

/-- A counter that goes up with an activity. -/
theorem Tracked.increment (h : r.Tracked e acts) {name : String} (hne : act ≠ .printEpochStats)
    (hfull : ∀ c : String → ℕ,
      fullEnergy e (Function.update c name (c name + 1)) = fullEnergy e c + e.ofActivity act ∧
      Function.update c name (c name + 1) "num_refab_cmds" = c "num_refab_cmds" + issued .refAb [act] ∧
      Function.update c name (c name + 1) "num_rfmab_cmds" = c "num_rfmab_cmds" + issued .rfmAb [act]) :
    Tracked e (acts ++ [act]) { r with stats := r.stats.increment name } where
  refEnergy := h.refEnergy
  spent := by
    have hvec : (r.stats.increment name).updateCounters.vecCounters =
      r.stats.updateCounters.vecCounters := rfl
    rw [updateCounters_increment, (hfull _).1, hvec, List.map_append, List.sum_append, ← h.spent,
      List.map_singleton, List.sum_singleton]
    ring
  refab := by rw [updateCounters_increment, (hfull _).2.1, h.refab, issued_append]
  rfmab := by rw [updateCounters_increment, (hfull _).2.2, h.rfmab, issued_append]
  epochs := h.epochs
  closed hlast := absurd hlast (append_singleton_ne hne)

/-- A counter that goes up as well. -/
theorem Tracked.incrementOther (h : r.Tracked e acts) {name : String} (hother : name ∉ energyCounters)
    (hne : ¬ ∃ before, acts = before ++ [.printEpochStats]) :
    Tracked e acts { r with stats := r.stats.increment name } where
  refEnergy := h.refEnergy
  spent := by
    rw [updateCounters_increment, (energy_other hother e _ _).1]
    exact h.spent
  refab := by rw [updateCounters_increment, (energy_other hother e _ _).2.1, h.refab]
  rfmab := by rw [updateCounters_increment, (energy_other hother e _ _).2.2, h.rfmab]
  epochs := h.epochs
  closed hlast := absurd hlast hne

theorem Tracked.issue (h : r.Tracked e acts) {cmdType : CommandType} {rowHit : Bool} {s : SimpleStats}
    (hs : r.stats.updateCommandStats cmdType rowHit = .ok s) :
    Tracked e (acts ++ [.issue cmdType rowHit]) { r with stats := s } := by
  obtain ⟨name, hname, hs⟩ := updateCommandStats_ok hs
  have hcount : Tracked e (acts ++ [.issue cmdType rowHit])
      { r with stats := r.stats.increment name } := h.increment (by simp) fun c => by
    refine ⟨fullEnergy_issue hname e c, ?_, ?_⟩
    · simpa [issued, List.countP_cons] using (counter_issue hname c).1
    · simpa [issued, List.countP_cons] using (counter_issue hname c).2
  rcases hs with rfl | ⟨hits, hother, rfl⟩
  · exact hcount
  · exact hcount.incrementOther hother (append_singleton_ne (by simp))

theorem Tracked.powerUpdate (h : r.Tracked e acts) (power : ℕ → RankPower) :
    Tracked e (acts ++ [.powerUpdate power]) { r with stats := r.stats.powerUpdate e.ranks power } := by
  have hrank := rankEnergy_powerUpdate r.stats e power
  obtain ⟨v, hv, -⟩ := r.stats.powerUpdate_eq e.ranks power
  rw [hv] at hrank ⊢
  constructor
  case refEnergy => exact h.refEnergy
  case spent =>
    have hcounters : ({ r.stats with epochVecCounters := v } : SimpleStats).updateCounters.counters =
      r.stats.updateCounters.counters := rfl
    rw [hcounters, hrank, List.map_append, List.sum_append, ← h.spent, List.map_singleton,
      List.sum_singleton]
    ring
  case refab => exact h.refab.trans (issued_other rfl acts)
  case rfmab => exact h.rfmab.trans (issued_other rfl acts)
  case epochs => exact h.epochs
  case closed => exact fun hlast => absurd hlast (append_singleton_ne (by simp))

theorem Tracked.addValue (h : r.Tracked e acts) (name : String) (value : ℤ) :
    Tracked e (acts ++ [.addValue name value]) { r with stats := r.stats.addValue name value } where
  refEnergy := h.refEnergy
  spent := by
    rw [List.map_append, List.sum_append, List.map_singleton, List.sum_singleton]
    exact h.spent.trans (add_zero _).symm
  refab := h.refab.trans (issued_other rfl acts)
  rfmab := h.rfmab.trans (issued_other rfl acts)
  epochs := h.epochs
  closed hlast := absurd hlast (append_singleton_ne (by simp))

/-- The end of an epoch reports its energy, except that of REFab. -/
theorem Tracked.printEpochStats (h : r.Tracked e acts) {s : SimpleStats}
    (hs : s = (r.stats.increment "epoch_num").updateEpochStats e) :
    Tracked e (acts ++ [.printEpochStats]) ⟨s, r.epochs ++ [s.calculated "total_energy"]⟩ := by
  have hother : "epoch_num" ∉ energyCounters := by decide
  have htotal := updateEpochStats_total (r.stats.increment "epoch_num") e h.refEnergy
  have href := (updateEpochStats_refEnergy (r.stats.increment "epoch_num") e).trans h.refEnergy
  obtain ⟨doubles, vecDoubles, calculated, heq⟩ :=
    (r.stats.increment "epoch_num").updateEpochStats_eq e
  have hcounters : s.counters = (r.stats.increment "epoch_num").updateCounters.counters := by
    rw [hs, heq]
    rfl
  have hvec : s.vecCounters = r.stats.updateCounters.vecCounters := by
    rw [hs, heq]
    rfl
  have hupdate : s.updateCounters.counters = s.counters ∧ s.updateCounters.vecCounters = s.vecCounters := by
    rw [hs, heq]
    exact ⟨rfl, rfl⟩
  rw [← hs] at htotal href
  have hkept := energy_other hother e r.stats.updateCounters.counters
    (r.stats.updateCounters.counters "epoch_num" + 1)
  constructor
  case refEnergy => exact href
  case spent =>
    rw [hupdate.1, hupdate.2, hcounters, hvec, updateCounters_increment, hkept.1, List.map_append,
      List.sum_append, List.map_singleton, List.sum_singleton]
    exact h.spent.trans (add_zero _).symm
  case refab =>
    rw [hupdate.1, hcounters, updateCounters_increment, hkept.2.1]
    exact h.refab.trans (issued_other rfl acts)
  case rfmab =>
    rw [hupdate.1, hcounters, updateCounters_increment, hkept.2.2]
    exact h.rfmab.trans (issued_other rfl acts)
  case epochs =>
    have hcommand := commandEnergy_updateCounters (r.stats.increment "epoch_num") e
    have hrank := rankEnergy_updateCounters r.stats e
    have hrfmab : ((r.stats.increment "epoch_num").updateCounters.counters "num_rfmab_cmds" : ℚ) =
        r.stats.counters "num_rfmab_cmds" +
          (r.stats.increment "epoch_num").epochCounters "num_rfmab_cmds" := Nat.cast_add _ _
    have hfixed : (r.stats.increment "epoch_num").counters = r.stats.counters := rfl
    have hepoch : (r.stats.increment "epoch_num").epochVecCounters = r.stats.epochVecCounters := rfl
    rw [List.sum_append, List.sum_singleton, h.epochs, htotal, hcounters, hvec, hrank, hcommand, hrfmab,
      hfixed, hepoch]
    ring
  case closed => exact fun _ => hupdate

theorem Tracked.step (h : r.Tracked e acts) (hs : step e r act = .ok r') :
    r'.Tracked e (acts ++ [act]) := by
  cases act with
  | issue cmdType rowHit =>
    obtain ⟨s, hstats, rfl⟩ := map_ok_iff.mp hs
    exact h.issue hstats
  | powerUpdate power =>
    cases hs
    exact h.powerUpdate power
  | count name hother =>
    cases hs
    refine h.increment (by simp) fun c => ?_
    obtain ⟨hfull, hrefab, hrfmab⟩ := energy_other hother e c (c name + 1)
    exact ⟨hfull.trans (add_zero _).symm, hrefab, hrfmab⟩
  | addValue name value =>
    cases hs
    exact h.addValue name value
  | printEpochStats =>
    cases hs
    exact h.printEpochStats rfl

theorem Tracked.run {histos : String → Option HistoStat} (hr : run e histos acts = .ok r) :
    r.Tracked e acts := by
  induction acts using List.reverseRecOn generalizing r with
  | nil =>
    cases hr
    refine ⟨rfl, ?_, rfl, rfl, ?_, ?_⟩
    · simp [fullEnergy, commandEnergy, rankEnergy, updateCounters]
    · simp [commandEnergy, rankEnergy]
    · rintro ⟨before, heq⟩
      simp at heq
  | append_singleton acts act ih =>
    rw [EnergyRun.run, List.foldlM_append] at hr
    obtain ⟨r₁, hr₁, hr⟩ := bind_ok_iff.mp hr
    rw [List.foldlM_cons] at hr
    obtain ⟨r₂, hr₂, hr⟩ := bind_ok_iff.mp hr
    cases hr
    exact (ih hr₁).step hr₂

/-- The final total leaves out both REFab and RFMab. -/
theorem Tracked.finalEnergy (h : r.Tracked e acts) : r.finalEnergy e +
    (issued .refAb acts * e.ref + issued .rfmAb acts * e.rfmab) = (acts.map e.ofActivity).sum := by
  rw [EnergyRun.finalEnergy, updateFinalStats_total _ _ h.refEnergy, ← h.spent, fullEnergy, h.refab, h.rfmab]
  ring

theorem energy_accounted_iff (cfg : Config) (p : PowerParams) (histos : String → Option HistoStat)
    (acts : List Activity) (r : EnergyRun) (hr : run (cfg.initPowerParams p) histos acts = .ok r) :
    EnergyAccounted (cfg.initPowerParams p) acts r ↔ (cfg.initPowerParams p).ref = 0 ∨
      issued .refAb acts = 0 ∧ issued .rfmAb acts = 0 := by
  have h := Tracked.run hr
  have hfinal := h.finalEnergy
  have hquarter : (cfg.initPowerParams p).rfmab = (cfg.initPowerParams p).ref / 4 := rfl
  have hmissing : (issued .refAb acts * (cfg.initPowerParams p).ref +
      issued .rfmAb acts * (cfg.initPowerParams p).rfmab : ℚ) =
      (cfg.initPowerParams p).ref * (issued .refAb acts + issued .rfmAb acts / 4) := by
    rw [hquarter]
    ring
  rw [hmissing] at hfinal
  constructor
  · rintro ⟨htotal, -⟩
    have hzero : (cfg.initPowerParams p).ref * (issued .refAb acts + issued .rfmAb acts / 4 : ℚ) = 0 := by
      rw [htotal] at hfinal
      exact left_eq_add.mp hfinal.symm
    refine (mul_eq_zero.mp hzero).imp_right fun hcount => ?_
    have hrefab : (0 : ℚ) ≤ issued .refAb acts := Nat.cast_nonneg _
    have hrfmab : (0 : ℚ) ≤ issued .rfmAb acts := Nat.cast_nonneg _
    constructor
    · have : (issued .refAb acts : ℚ) = 0 := by linarith
      exact_mod_cast this
    · have : (issued .rfmAb acts : ℚ) = 0 := by linarith
      exact_mod_cast this
  · intro hcond
    have hzero : (cfg.initPowerParams p).ref * (issued .refAb acts + issued .rfmAb acts / 4 : ℚ) = 0 := by
      rcases hcond with href | ⟨hrefab, hrfmab⟩
      · rw [href, zero_mul]
      · rw [hrefab, hrfmab]
        norm_num
    refine ⟨by rw [← hfinal, hzero, add_zero], fun hlast => ?_⟩
    obtain ⟨hcounters, hvec⟩ := h.closed hlast
    have hrfm : (r.stats.counters "num_rfmab_cmds" : ℚ) * (cfg.initPowerParams p).rfmab = 0 := by
      rw [← hcounters, h.rfmab, hquarter]
      rcases hcond with href | ⟨-, hrfmab⟩
      · rw [href]
        norm_num
      · rw [hrfmab]
        norm_num
    rw [h.epochs, hrfm, add_zero, EnergyRun.finalEnergy, updateFinalStats_total _ _ h.refEnergy,
      hcounters, hvec]

/-- A row is opened and read, in an epoch that ends with the run. -/
def smallActivities : List Activity :=
  [.issue .activate false, .powerUpdate fun _ => .active, .issue .read false, .printEpochStats]

theorem energy_accounted_small : ∃ r,
    run (smallConfig.initPowerParams { devicesPerRank := 8 }) (fun _ => none) smallActivities = .ok r ∧
      EnergyAccounted (smallConfig.initPowerParams { devicesPerRank := 8 }) smallActivities r :=
  ⟨_, rfl, (energy_accounted_iff smallConfig { devicesPerRank := 8 } (fun _ => none) smallActivities _
    rfl).mpr (.inr ⟨rfl, rfl⟩)⟩

/-- The energy of a REFab is in no total. -/
theorem refresh_energy_missing : ∃ r,
    run (smallConfig.initPowerParams { devicesPerRank := 8 }) (fun _ => none)
      [.issue .refAb false, .printEpochStats] = .ok r ∧
      ¬ EnergyAccounted (smallConfig.initPowerParams { devicesPerRank := 8 })
        [.issue .refAb false, .printEpochStats] r := by
  obtain ⟨r, hr⟩ : ∃ r, run (smallConfig.initPowerParams { devicesPerRank := 8 }) (fun _ => none)
    [.issue .refAb false, .printEpochStats] = .ok r := ⟨_, rfl⟩
  refine ⟨r, hr, fun h => ?_⟩
  have hfinal := (Tracked.run hr).finalEnergy
  rw [h.total] at hfinal
  have hzero := left_eq_add.mp hfinal.symm
  have hcounts : issued .refAb [.issue .refAb false, .printEpochStats] = 1 ∧
    issued .rfmAb [.issue .refAb false, .printEpochStats] = 0 := ⟨rfl, rfl⟩
  rw [hcounts.1, hcounts.2] at hzero
  norm_num [Config.initPowerParams, smallConfig] at hzero

end EnergyRun
end CactusDram

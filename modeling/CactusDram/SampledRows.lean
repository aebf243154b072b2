import CactusDram.SamplerBound
import Mathlib.Data.List.GetD

/-! The rows that the trackers see, and those that DRFMs take out of the sampler of a bank: none is lost, and
none is taken twice. -/
namespace CactusDram
open Foundations

theorem eq_zero_of_oneIf {mode : ℤ} (h : oneIf mode = 0) : mode = 0 := by
  unfold oneIf at h
  split_ifs at h with hzero
  exact hzero

/-- The row of bank `i` that the trackers have seen. -/
def Event.seenRow (i : BankId) : Event → Option ℕ
  | .hook bank row _ _ _ _ => if bank = i then some (u32 row) else none
  | _ => none

/-- The row of bank `i` that a DRFM has mitigated. -/
def Event.mitigatedRow (cfg : Config) (i : BankId) : Event → Option ℕ
  | .issue cmd _ _ found =>
    if cmd.isDRFM ∧ i ∈ ChannelState.covered cfg cmd then (found i).drfmMitig.1 else none
  | _ => none

def mitigatedRows (cfg : Config) (i : BankId) (log : List Event) : List ℕ :=
  log.filterMap (Event.mitigatedRow cfg i)

/-- Events that are no commands. -/
theorem mitigatedRows_append (cfg : Config) (i : BankId) {extra : List Event} (log : List Event)
    (hextra : ∀ e ∈ extra, Event.mitigatedRow cfg i e = none) :
    mitigatedRows cfg i (extra ++ log) = mitigatedRows cfg i log := by
  unfold mitigatedRows
  rw [List.filterMap_append, List.filterMap_eq_nil_iff.mpr hextra]
  rfl

theorem mitigatedRow_of_crossing (cfg : Config) (i : BankId) {e : Event} (h : e.crossing) :
    e.mitigatedRow cfg i = none := by
  cases e <;> simp_all [Event.crossing, Event.mitigatedRow]

theorem mitigatedRow_of_internal (cfg : Config) (i : BankId) {e : Event} (h : e.internal) :
    e.mitigatedRow cfg i = none := by
  cases e <;> simp_all [Event.internal, Event.mitigatedRow]

namespace BankState

/-- A DRFM takes one row out of the sampler. -/
theorem drfmMitig_rows (b : BankState) :
    b.sampledRows.Perm (b.drfmMitig.1.toList ++ b.drfmMitig.2.sampledRows) := by
  unfold drfmMitig sampledRows
  dsimp only
  generalize maxIdx (b.drfmQ.map (·.ctr)) = n
  cases he : b.drfmQ[n]? with
  | none => exact .rfl
  | some e =>
    obtain ⟨hlt, rfl⟩ := List.getElem?_eq_some_iff.mp he
    exact (List.getElem_cons_eraseIdx_perm hlt).symm.map (·.rowid)

/-- It looks at the sampler only. -/
theorem drfmMitig_lastCmd (b : BankState) (cmd : Command) :
    ({ b with lastCmd := some cmd } : BankState).drfmMitig.2.mintRows = b.mintRows ∧
      ({ b with lastCmd := some cmd } : BankState).drfmMitig.2.drfmQ = b.drfmMitig.2.drfmQ := by
  unfold drfmMitig
  dsimp only
  cases b.drfmQ[maxIdx (b.drfmQ.map (·.ctr))]? <;> exact ⟨rfl, rfl⟩

end BankState

namespace ChannelState
variable {cfg : Config} {cs cs' : ChannelState} {cmd : Command} {clk : ℕ} {origin : Origin}

/-- A DRFM whose only effect on a sampler is to take a row out of it; nothing else that is issued changes
the samplers. -/
theorem updateTimingAndStates_sampled (hmitigated : ∀ b, BankState.mitigated cfg b = b.drfmMitig.2)
    (hcactus : cfg.cactusMode = 0) (h : cs.updateTimingAndStates cfg cmd clk origin = .ok cs')
    (i : BankId) :
    if cmd.isDRFM ∧ i ∈ covered cfg cmd then
      mitigatedRows cfg i cs'.log = (cs.bankStates i).drfmMitig.1.toList ++ mitigatedRows cfg i cs.log ∧
        (cs'.bankStates i).sampledRows = (cs.bankStates i).drfmMitig.2.sampledRows
    else mitigatedRows cfg i cs'.log = mitigatedRows cfg i cs.log ∧
      (cs'.bankStates i).sampledRows = (cs.bankStates i).sampledRows := by
  have hi := updateTimingAndStates_issued h
  obtain ⟨extra, hlog, hextra⟩ := hi.log
  obtain ⟨b, hin, hout, _, hdrfmQ⟩ := hi.tables i
  have hsampled : (cs'.bankStates i).sampledRows = b.sampledRows :=
    congrArg (List.map DRFMQEntry.rowid) (hdrfmQ hcactus)
  have hrows := mitigatedRows_append cfg i (.issue cmd clk origin cs.bankStates :: cs.log) fun e he =>
    mitigatedRow_of_internal cfg i (hextra e he)
  rw [hlog, hrows, hsampled, mitigatedRows, List.filterMap_cons, Event.mitigatedRow]
  split_ifs with hdrfm
  · rcases BankState.updateState_trackers (hin hdrfm.2) with ⟨_, hnot, _⟩ | ⟨href, _⟩ | ⟨_, hb⟩
    · rw [hnot] at hdrfm
      exact absurd hdrfm.1 Bool.false_ne_true
    · rw [not_isRefresh_of_isDRFM hdrfm.1] at href
      exact absurd href Bool.false_ne_true
    · refine ⟨?_, ?_⟩
      · cases (cs.bankStates i).drfmMitig.1 <;> rfl
      · rw [hb, BankState.sampledRows, BankState.rfmAbServed_drfmQ, hmitigated]
        exact congrArg (List.map DRFMQEntry.rowid) (BankState.drfmMitig_lastCmd _ _).2
  · refine ⟨rfl, ?_⟩
    by_cases hcov : i ∈ covered cfg cmd
    · rcases BankState.updateState_trackers (hin hcov) with ⟨_, _, _, hsame⟩ | ⟨_, hq, _⟩ | ⟨h, _⟩
      · exact hsame
      · exact congrArg (List.map DRFMQEntry.rowid) hq
      · exact absurd ⟨h, hcov⟩ hdrfm
    · rw [hout hcov]

/-- The rows that have been mitigated and those that wait are the same before and after a command. -/
theorem updateTimingAndStates_rows (hmitigated : ∀ b, BankState.mitigated cfg b = b.drfmMitig.2)
    (hcactus : cfg.cactusMode = 0) (h : cs.updateTimingAndStates cfg cmd clk origin = .ok cs')
    (i : BankId) :
    (mitigatedRows cfg i cs.log ++ (cs.bankStates i).sampledRows).Perm
      (mitigatedRows cfg i cs'.log ++ (cs'.bankStates i).sampledRows) := by
  have hrows := updateTimingAndStates_sampled hmitigated hcactus h i
  split_ifs at hrows
  · rw [hrows.1, hrows.2]
    refine ((cs.bankStates i).drfmMitig_rows.append_left _).trans ?_
    rw [List.perm_iff_count]
    intro row
    simp only [List.count_append]
    omega
  · rw [hrows.1, hrows.2]

/-- Launching a DRFM leaves the samplers as they are. -/
theorem launchDRFM_sampled (h : cs.launchDRFM cfg cmd = .ok cs') (i : BankId) :
    (cs'.bankStates i).mintRows = (cs.bankStates i).mintRows ∧
      (cs'.bankStates i).sampledRows = (cs.bankStates i).sampledRows := by
  rw [(launchDRFM_exact h).2]
  by_cases hi : i = cmd.bankId
  · subst hi
    simp [launched, modifyBank, BankState.markDRFMIssued, BankState.sampledRows]
  · simp [launched, modifyBank, hi]

end ChannelState
end CactusDram

import CactusDram.Foundations.Draws
import CactusDram.SampledRows

/-! MINT over a whole run: one row of every window of activations is mitigated, or waits for it. -/
namespace CactusDram
open Foundations

/-- MINT is the tracker that samples rows for DRFMs. CACTUS would take rows out of the samplers. -/
structure Config.Mints (cfg : Config) : Prop extends cfg.Samples where
  mint : cfg.mintMode ≠ 0
  cactus : cfg.cactusMode = 0

/-- The other trackers are off. -/
theorem Config.Mints.alone {cfg : Config} (h : cfg.Mints) :
    cfg.paraMode = 0 ∧ cfg.grapheneMode = 0 ∧ cfg.hydraMode = 0 := by
  have hone := h.one
  have hmint : oneIf cfg.mintMode = 1 := if_neg h.mint
  rw [cfg.trackers_eq, hmint] at hone
  exact ⟨eq_zero_of_oneIf (by omega), eq_zero_of_oneIf (by omega), eq_zero_of_oneIf (by omega)⟩

/-- The rows of bank `i` that the trackers have seen, the oldest first. -/
def seenRows (i : BankId) (log : List Event) : List ℕ := (log.filterMap (Event.seenRow i)).reverse

namespace BankState
variable {cfg : Config} {b b' : BankState} {cmd : Command}

theorem preACT_mint (hcfg : cfg.Mints) (b : BankState) (cmd : Command) (draws : List ℕ) (rcc : LRUCache) :
    (b.preACT cfg cmd draws rcc).1 = (b.mintPreact cfg (u32 cmd.row) draws).1 := by
  obtain ⟨hpara, hgraphene, hhydra⟩ := hcfg.alone
  simp only [preACT, paraPreact, graphenePreact, hydraPreact, hpara, hgraphene, hhydra, if_true]

theorem mitigated_mint (hcfg : cfg.Mints) (b : BankState) : mitigated cfg b = b.drfmMitig.2 := by
  obtain ⟨hpara, hgraphene, hhydra⟩ := hcfg.alone
  simp [mitigated, dreamMitig, mintMitig, paraMitig, abacusMitig, samplerMitig, grapheneMitig, hydraMitig,
    hcfg.dream, hcfg.abacus, hpara, hgraphene, hhydra, hcfg.mint]

end BankState

/-- The windows of bank `i` that are complete have sampled one row each. -/
def Minted (cfg : Config) (i : BankId) (cs : ChannelState) : Prop :=
  ∃ picks, Drawn (u32 cfg.mintWindow) (seenRows i cs.log) picks (cs.bankStates i).mintRows ∧
    picks.Perm (mitigatedRows cfg i cs.log ++ (cs.bankStates i).sampledRows)

namespace Minted
variable {cfg : Config} {i : BankId} {cs cs' : ChannelState} {cmd r : Command} {clk : ℕ}

/-- Neither the bank nor its events change. -/
theorem congr (h : Minted cfg i cs) (hrows : (cs'.bankStates i).mintRows = (cs.bankStates i).mintRows)
    (hsampled : (cs'.bankStates i).sampledRows = (cs.bankStates i).sampledRows)
    (hseen : seenRows i cs'.log = seenRows i cs.log)
    (hmitigated : mitigatedRows cfg i cs'.log = mitigatedRows cfg i cs.log) : Minted cfg i cs' := by
  obtain ⟨picks, hdrawn, hpicks⟩ := h
  refine ⟨picks, ?_, ?_⟩
  · rw [hseen, hrows]
    exact hdrawn
  · rw [hmitigated, hsampled]
    exact hpicks

theorem of_eq (h : Minted cfg i cs) (hbanks : cs'.bankStates = cs.bankStates) (hlog : cs'.log = cs.log) :
    Minted cfg i cs' :=
  h.congr (by rw [hbanks]) (by rw [hbanks]) (by rw [hlog]) (by rw [hlog])

/-- The trackers see a row of the bank. -/
theorem sees (hcfg : cfg.Mints) (h : Minted cfg cmd.bankId cs) (draws : List ℕ)
    (hbank : cs'.bankStates cmd.bankId =
      ((cs.bankStates cmd.bankId).mintPreact cfg (u32 cmd.row) draws).1)
    (hseen : seenRows cmd.bankId cs'.log = seenRows cmd.bankId cs.log ++ [u32 cmd.row])
    (hmitigated : mitigatedRows cfg cmd.bankId cs'.log = mitigatedRows cfg cmd.bankId cs.log) :
    Minted cfg cmd.bankId cs' := by
  obtain ⟨picks, hdrawn, hpicks⟩ := h
  generalize cs.bankStates cmd.bankId = b at hbank hdrawn hpicks
  unfold Minted
  rw [hseen, hmitigated, hbank]
  unfold BankState.mintPreact
  rw [if_neg hcfg.mint]
  dsimp only
  by_cases hfull : u32 cfg.mintWindow ≤ (b.mintRows ++ [u32 cmd.row]).length
  · rw [if_pos hfull]
    set rows := b.mintRows ++ [u32 cmd.row] with hrows
    have hlt : draws.headD 0 % rows.length < rows.length := Nat.mod_lt _ (by simp [hrows])
    refine ⟨picks ++ [rows.getD (draws.headD 0 % rows.length) 0], hdrawn.draw (by simpa [hrows] using hfull) ?_,
      ?_⟩
    · rw [List.getD_eq_getElem _ _ hlt]
      exact List.getElem_mem hlt
    · simpa [BankState.sampledRows] using hpicks.append_right _
  · rw [if_neg hfull]
    refine ⟨picks, hdrawn.wait ?_, hpicks⟩
    simpa using hfull

end Minted

/-- Events that are neither hooks nor commands. -/
theorem rows_append (cfg : Config) (i : BankId) {extra : List Event} (log : List Event)
    (hextra : ∀ e ∈ extra, Event.seenRow i e = none ∧ Event.mitigatedRow cfg i e = none) :
    seenRows i (extra ++ log) = seenRows i log ∧
      mitigatedRows cfg i (extra ++ log) = mitigatedRows cfg i log := by
  refine ⟨?_, mitigatedRows_append cfg i log fun e he => (hextra e he).2⟩
  unfold seenRows
  rw [List.filterMap_append, List.filterMap_eq_nil_iff.mpr fun e he => (hextra e he).1]
  rfl

theorem rows_of_crossing (cfg : Config) (i : BankId) {e : Event} (h : e.crossing) :
    e.seenRow i = none ∧ e.mitigatedRow cfg i = none :=
  ⟨by cases e <;> simp_all [Event.crossing, Event.seenRow], mitigatedRow_of_crossing cfg i h⟩

namespace ChannelState
variable {cfg : Config} {i : BankId} {cs cs' : ChannelState} {cmd r : Command} {clk : ℕ}

theorem preactHooks_minted (hcfg : cfg.Mints) (hcs : Minted cfg i cs) {full : Bool}
    (h : cs.preactHooks cfg cmd clk = .ok (full, cs')) : Minted cfg i cs' := by
  obtain ⟨alert, inflight, crossings, hlog, hcross⟩ := preactHooks_log h
  have hbanks := preactHooks_banks hcfg.toSamples h
  obtain ⟨hseen, hmitigated⟩ := rows_append cfg i cs.log fun e he =>
    rows_of_crossing cfg i (hcross e he)
  rw [List.cons_append] at hlog
  by_cases hi : i = cmd.bankId
  · subst hi
    refine hcs.sees hcfg cs.draws ?_ ?_ ?_
    · rw [hbanks, Function.update_self, BankState.preACT_mint hcfg]
    · rw [hlog, ← hseen]
      simp [seenRows, Event.seenRow]
    · rw [hlog]
      exact hmitigated
  · refine hcs.congr ?_ ?_ ?_ ?_
    · rw [hbanks, Function.update_of_ne hi]
    · rw [hbanks, Function.update_of_ne hi]
    · rw [hlog, ← hseen]
      simp [seenRows, Event.seenRow, Ne.symm hi]
    · rw [hlog]
      exact hmitigated

theorem launchDRFM_minted (hcs : Minted cfg i cs) (h : cs.launchDRFM cfg cmd = .ok cs') :
    Minted cfg i cs' := by
  have hlog := launchDRFM_log h
  obtain ⟨hrows, hsampled⟩ := launchDRFM_sampled h i
  exact hcs.congr hrows hsampled (by rw [hlog]) (by rw [hlog])

theorem hydraCheck_minted (hcs : Minted cfg i cs) {ok : Bool} (h : cs.hydraCheck cfg cmd = (ok, cs')) :
    Minted cfg i cs' := by
  obtain ⟨_, _, _, rfl⟩ := hydraCheck_eq h
  exact hcs

theorem Answer.minted (hcfg : cfg.Mints) (hcs : Minted cfg i cs) {r? : Option Command}
    (h : Answer cfg cs cmd clk r? cs') : Minted cfg i cs' := by
  cases h with
  | wait | divert | allReady | single => exact hcs
  | needRFMsb => exact hcs.of_eq (needRFM_bankStates _ _ _) (needRFM_log _ _ _)
  | needRFMab => exact hcs.of_eq (needRFM_bankStates _ _ _) (needRFM_log _ _ _)
  | eager _ _ h => exact launchDRFM_minted hcs h
  | hydraWait h => exact hydraCheck_minted hcs h
  | lazy _ hcheck hhook h =>
    exact launchDRFM_minted (preactHooks_minted hcfg (hydraCheck_minted hcs hcheck) hhook) h
  | activate _ hcheck hhook => exact preactHooks_minted hcfg (hydraCheck_minted hcs hcheck) hhook

/-- Only the hooks of an activation change the open window. -/
theorem updateTimingAndStates_mintRows (hcfg : cfg.Mints) {origin : Origin}
    (h : cs.updateTimingAndStates cfg cmd clk origin = .ok cs') :
    (cs'.bankStates i).mintRows = (cs.bankStates i).mintRows := by
  obtain ⟨b, hin, hout, htables, _⟩ := (updateTimingAndStates_issued h).tables i
  refine (congrArg BankState.Tables.mintRows htables).trans ?_
  by_cases hcov : i ∈ covered cfg cmd
  · rcases BankState.updateState_trackers (hin hcov) with ⟨_, _, htab, _⟩ | ⟨_, _, htab⟩ | ⟨_, hb⟩
    · exact congrArg BankState.Tables.mintRows htab
    · rcases htab with htab | ⟨b₀, hb₀, htab⟩
      · exact congrArg BankState.Tables.mintRows htab
      · obtain ⟨_, hgraphene, hhydra⟩ := hcfg.alone
        rw [BankState.grapheneRefresh, if_pos hgraphene, BankState.hydraRefresh, if_pos hhydra] at htab
        exact congrArg BankState.Tables.mintRows (htab.trans hb₀)
    · rw [BankState.mitigated_mint hcfg] at hb
      have htab := congrArg BankState.Tables.mintRows (congrArg BankState.tables hb)
      rw [BankState.rfmAbServed_tables] at htab
      exact htab.trans (BankState.drfmMitig_lastCmd _ _).1
  · rw [hout hcov]
    rfl

/-- A DRFM mitigates the row that it takes out of the sampler; nothing else changes the rows. -/
theorem updateTimingAndStates_minted (hcfg : cfg.Mints) (hcs : Minted cfg i cs) {origin : Origin}
    (h : cs.updateTimingAndStates cfg cmd clk origin = .ok cs') : Minted cfg i cs' := by
  obtain ⟨extra, hlog, hextra⟩ := (updateTimingAndStates_issued h).log
  have hseen : seenRows i cs'.log = seenRows i cs.log := by
    have hskip : ∀ e ∈ extra, e.seenRow i = none := fun e he => by
      have hinternal := hextra e he
      cases e <;> simp_all [Event.internal, Event.seenRow]
    rw [hlog, seenRows, List.filterMap_append, List.filterMap_eq_nil_iff.mpr hskip]
    rfl
  obtain ⟨picks, hdrawn, hpicks⟩ := hcs
  refine ⟨picks, ?_, hpicks.trans ?_⟩
  · rw [hseen, updateTimingAndStates_mintRows hcfg h]
    exact hdrawn
  · exact updateTimingAndStates_rows (BankState.mitigated_mint hcfg) hcfg.cactus h i

end ChannelState

theorem Chan.minted_step {cfg : Config} (hcfg : cfg.Mints) {i : BankId} {π : Micro.Policy} {v v' : Chan}
    (hv : Minted cfg i v.cs) (h : Chan.Step cfg π v v') : Minted cfg i v'.cs := by
  cases h with
  | environment | drop | tock => exact hv
  | requestRefresh => exact hv.congr rfl rfl rfl rfl
  | tick => exact hv.of_eq ChannelState.clockTick_bankStates ChannelState.clockTick_log
  | query _ h | pick _ _ _ h => exact h.minted hcfg hv
  | hydraQuery h | pickHydra _ h =>
    obtain ⟨⟨_, _, _, rfl⟩, _⟩ := ChannelState.getReadyHydraCommand_eq h
    exact hv
  | issue h => exact ChannelState.updateTimingAndStates_minted hcfg hv h

/-- In every run of MINT the rows that the trackers of a bank have seen form windows of equal length and
an open one. Every window has given exactly one of its rows, and these are the rows that were mitigated
and those that still wait in the sampler. -/
theorem mint_windows_mitigated {cfg : Config} (hcfg : cfg.Mints) {c : Controller} (h : Reachable cfg c)
    (i : BankId) : ∃ (windows : List (List ℕ)) (picks : List ℕ),
      seenRows i c.channelState.log = windows.flatten ++ (c.channelState.bankStates i).mintRows ∧
      (∀ w ∈ windows, w.length = max 1 (u32 cfg.mintWindow)) ∧
      (c.channelState.bankStates i).mintRows.length < max 1 (u32 cfg.mintWindow) ∧
      List.Forall₂ (· ∈ ·) picks windows ∧
      picks.Perm (mitigatedRows cfg i c.channelState.log ++ (c.channelState.bankStates i).sampledRows) := by
  have hr := Micro.reached_of_reachable h
  obtain ⟨picks, hdrawn, hpicks⟩ := hr.chan_induct (P := fun v => Minted cfg i v.cs)
    (fun _ => ⟨[], .nil, .rfl⟩) fun _ _ hv hs => Chan.minted_step hcfg hv hs
  obtain ⟨windows, hall, hlength, hdraws⟩ := hdrawn.windows
  exact ⟨windows, picks, hall, hlength, hdrawn.rest_lt, hdraws, hpicks⟩

/-- Windows of two activations. -/
def mintPairs : Config := { smallConfig with mintMode := 1, mintWindow := 2, drfmMode := 1 }

theorem mintPairs_mints : mintPairs.Mints :=
  ⟨⟨.inl rfl, .inl rfl, by decide, rfl, rfl, rfl⟩, by decide, rfl⟩

/-- Three rows of a bank. -/
def threeRows : List Input := Input.request 0 false 4 ++ Input.request 2 false 4 ++ Input.request 4 false 5

/-- The first two rows are a window, and the first row is mitigated; the third opens a new window. -/
theorem mint_windows_mitigated_small : ∃ c, Reachable mintPairs c ∧
    seenRows ⟨0, 0, 0⟩ c.channelState.log = [0, 1, 2] ∧
    ∃ (windows : List (List ℕ)) (picks : List ℕ), [0, 1, 2] = windows.flatten ++ [2] ∧
      List.Forall₂ (· ∈ ·) picks windows ∧ picks.Perm [0] := by
  obtain ⟨c, hrun, hc⟩ := exists_ok_of_any
    (x := Controller.run mintPairs ({} : Boot mintPairs).controller threeRows)
    (p := fun c => seenRows ⟨0, 0, 0⟩ c.channelState.log = [0, 1, 2] ∧
      (c.channelState.bankStates ⟨0, 0, 0⟩).mintRows = [2] ∧
      mitigatedRows mintPairs ⟨0, 0, 0⟩ c.channelState.log ++
        (c.channelState.bankStates ⟨0, 0, 0⟩).sampledRows = [0]) (by decide +kernel)
  obtain ⟨hseen, hopen, hpicked⟩ := of_decide_eq_true hc
  have hr : Reachable mintPairs c := ⟨{}, _, hrun⟩
  obtain ⟨windows, picks, hall, _, _, hdraws, hpicks⟩ := mint_windows_mitigated mintPairs_mints hr ⟨0, 0, 0⟩
  rw [hopen, hseen] at hall
  rw [hpicked] at hpicks
  exact ⟨c, hr, hseen, windows, picks, hall, hdraws, hpicks⟩

end CactusDram

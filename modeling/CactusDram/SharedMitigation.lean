import CactusDram.Foundations.Histories
import CactusDram.AlertProtocol
import CactusDram.SampledRows
import CactusDram.SharedCounters

/-! Counters that all banks share, over a whole run: what crosses is mitigated in every bank before the
trackers see another row. -/
namespace CactusDram
open Foundations ChannelState

/-- DREAM or ABACUS samples rows for DRFMs of the whole rank, under the eager policy. -/
structure Config.Shares (cfg : Config) : Prop where
  ranks : cfg.ranks = 1
  mode : cfg.drfmMode = 3
  policy : cfg.drfmPolicy = 0
  qsize : cfg.drfmQsize = 1
  alone : cfg.trackers = 0
  one : oneIf cfg.dreamMode + oneIf cfg.abacusMode = 1
  cactus : cfg.cactusMode = 0

namespace Config.Shares
variable {cfg : Config}

theorem off (h : cfg.Shares) :
    cfg.mintMode = 0 ∧ cfg.paraMode = 0 ∧ cfg.grapheneMode = 0 ∧ cfg.hydraMode = 0 := by
  have halone := h.alone
  rw [cfg.trackers_eq] at halone
  exact ⟨eq_zero_of_oneIf (by omega), eq_zero_of_oneIf (by omega), eq_zero_of_oneIf (by omega),
    eq_zero_of_oneIf (by omega)⟩

theorem either (h : cfg.Shares) :
    cfg.dreamMode = 0 ∧ cfg.abacusMode ≠ 0 ∨ cfg.dreamMode ≠ 0 ∧ cfg.abacusMode = 0 := by
  have hone := h.one
  by_cases hd : cfg.dreamMode = 0 <;> by_cases ha : cfg.abacusMode = 0 <;> simp [oneIf, hd, ha] at hone ⊢

end Config.Shares

/-- The history, the samplers and the counters of DREAM stay. -/
structure SamplesKept (cs cs' : ChannelState) : Prop where
  fixed : cs'.fixed = cs.fixed
  log : cs'.log = cs.log
  sampled : ∀ i, (cs'.bankStates i).sampledRows = (cs.bankStates i).sampledRows
  tusc : cs'.tusc = cs.tusc
  tuscQ : cs'.tuscQ = cs.tuscQ

/-- What a step does to the samplers: the hooks of an activation find the sampler of the bank empty, and a
DRFM serves all banks. -/
inductive SharedMove (cfg : Config) (cs cs' : ChannelState) : Prop
  | keep (h : SamplesKept cs cs')
  | request {req : Command} (h : cs' = cs.addRefresh req)
  | hook {cmd : Command} {clk : ℕ} {full : Bool} (h : Nonempty (Hooked cfg cs cmd clk full cs'))
      (hmem : cmd.bankId ∈ cfg.allBanks) (hempty : (cs.bankStates cmd.bankId).sampledRows = [])
  | issue {cmd : Command} {clk : ℕ} {origin : Origin}
      (h : cs.updateTimingAndStates cfg cmd clk origin = .ok cs')
      (hwide : cmd.isDRFM → cmd.isRankCMD ∧ ∀ i ∈ cfg.allBanks, i ∈ covered cfg cmd)

namespace ChannelState
variable {cfg : Config} {cs cs' : ChannelState} {cmd : Command} {clk : ℕ}

theorem samplesKept_needRFM (req : Command) (target : Command → Bool) (need : Bool) :
    SamplesKept cs (cs.needRFM req target need) := by
  unfold needRFM
  split_ifs <;> exact ⟨rfl, rfl, fun _ => rfl, rfl, rfl⟩

theorem samplesKept_launchDRFM (h : cs.launchDRFM cfg cmd = .ok cs') : SamplesKept cs cs' := by
  have hsampled := fun i => (launchDRFM_sampled h i).2
  have hlog := launchDRFM_log h
  obtain ⟨_, rfl⟩ := launchDRFM_exact h
  exact ⟨rfl, hlog, hsampled, rfl, rfl⟩

theorem samplesKept_clockTick : SamplesKept cs (cs.clockTick cfg clk) := by
  refine ⟨Chan.clockTick_fixed, clockTick_log, fun _ => by rw [clockTick_bankStates], ?_, ?_⟩
  · exact clockTick_keeps (·.tusc) (fun _ _ => (samplesKept_needRFM _ _ _).tusc) (fun _ _ => rfl)
      (fun _ => rfl) fun _ _ _ => rfl
  · exact clockTick_keeps (·.tuscQ) (fun _ _ => (samplesKept_needRFM _ _ _).tuscQ) (fun _ _ => rfl)
      (fun _ => rfl) fun _ _ _ => rfl

theorem sampledRows_of_free (hcfg : cfg.Shares) {b : BankState} (h : b.isSamplerFull cfg = false) :
    b.sampledRows = [] := by
  have hlt := BankState.lt_of_isSamplerFull (by rw [hcfg.mode]; decide) (by rw [hcfg.qsize]; decide)
    (by rw [hcfg.qsize]) h
  rw [hcfg.qsize] at hlt
  have hnil : b.drfmQ = [] := List.eq_nil_of_length_eq_zero (by omega)
  rw [BankState.sampledRows, hnil]
  rfl

/-- A query runs the hooks only on an empty sampler. -/
theorem Answer.sharedMove (hcfg : cfg.Shares) (hreg : Regular cfg cs) {origin : Origin}
    (ha : Chan.Asks cfg cs cmd origin) {r? : Option Command} (h : Answer cfg cs cmd clk r? cs') :
    SharedMove cfg cs cs' := by
  have hsame : SamplesKept cs cs := ⟨rfl, rfl, fun _ => rfl, rfl, rfl⟩
  have hhydra : cfg.hydraMode ≠ 1 := by
    rw [hcfg.off.2.2.2]
    decide
  cases h with
  | wait | divert | allReady | single => exact .keep hsame
  | needRFMsb | needRFMab => exact .keep (samplesKept_needRFM _ _ _)
  | eager _ _ h => exact .keep (samplesKept_launchDRFM h)
  | hydraWait h =>
    obtain ⟨_, _, _, rfl⟩ := hydraCheck_eq h
    exact .keep ⟨rfl, rfl, fun _ => rfl, rfl, rfl⟩
  | lazy hpol =>
    rw [hcfg.policy] at hpol
    cases hpol
  | activate _ hcheck hhook hb hfree =>
    rw [hydraCheck_off hhydra] at hcheck
    cases hcheck
    exact .hook (preactHooks_hooked hhook) (inRange_of_activate hreg ha hb).mem_allBanks
      (sampledRows_of_free hcfg (hfree hcfg.policy))

end ChannelState

namespace Chan
variable {cfg : Config} {π : Micro.Policy} {v v' : Chan}

theorem isRFM_of_isDRFM {cmd : Command} (h : cmd.isDRFM) : cmd.isRFM = false := by
  cases hty : cmd.cmdType <;> simp [Command.isDRFM, Command.isRFM, hty] at h ⊢

/-- Every DRFM that waits is for the whole rank. -/
structure Wide (cfg : Config) (v : Chan) : Prop where
  hand : HandReady cfg v
  requests : ∀ r ∈ v.cs.rfmQ, r.isDRFM → r.cmdType = .drfmAb ∧ r.rank = 0

theorem rank_of_mem_allBanks (hcfg : cfg.Shares) {i : BankId} (hi : i ∈ cfg.allBanks) : i.rank = 0 := by
  obtain ⟨⟨r, hr, hrank⟩, _⟩ := cfg.mem_allBanks.mp hi
  rw [hcfg.ranks] at hr
  omega

theorem Wide.step (hcfg : cfg.Shares) (hv : Wide cfg v) (h : Step cfg π v v') : Wide cfg v' := by
  refine ⟨hv.hand.step h, ?_⟩
  refine invariant_of_steps (P := fun s => ∀ r ∈ s.1.rfmQ, r.isDRFM → r.cmdType = .drfmAb ∧ r.rank = 0)
    (fun s s' hs hm => ?_) (h.hand hv.hand) hv.requests
  have hask {d : Desk} {req : Command} (hd : ∀ r ∈ d.rfmQ, r.isDRFM → r.cmdType = .drfmAb ∧ r.rank = 0)
      (hreq : req.isDRFM → req.cmdType = .drfmAb ∧ req.rank = 0) :
      ∀ r ∈ (d.ask req).rfmQ, r.isDRFM → r.cmdType = .drfmAb ∧ r.rank = 0 := by
    intro r hr
    unfold Desk.ask at hr
    split_ifs at hr
    · exact hd r hr
    · obtain hr | hr := List.mem_append.mp hr
      · exact hd r hr
      · rw [List.mem_singleton.mp hr]
        exact hreq
  cases hm with
  | raise | activate => exact hs
  | promote => exact hask hs (by simp [request, Command.isDRFM])
  | ask _ hreq =>
    refine hask hs fun hdrfm => ?_
    rw [isRFM_of_isDRFM hdrfm] at hreq
    cases hreq
  | launch _ hbank =>
    refine hask hs fun _ => ⟨?_, ?_⟩
    · simp [drfmRequest, hcfg.mode, request]
    · have hrank := rank_of_mem_allBanks hcfg hbank
      rw [drfmRequest, hcfg.mode]
      exact hrank
  | serve =>
    intro r hr
    rw [Desk.serve_rfmQ] at hr
    exact hs r (List.mem_of_mem_eraseP hr)
  | absorb => exact fun r hr => hs r (List.mem_of_mem_eraseP hr)

/-- A DRFM that is issued covers every bank. -/
theorem Wide.covers (hcfg : cfg.Shares) (hv : Wide cfg v) {p : Pick} (hp : v.ticket = some p)
    (hdrfm : p.cmd.isDRFM) : p.cmd.isRankCMD ∧ ∀ i ∈ cfg.allBanks, i ∈ covered cfg p.cmd := by
  obtain hfront | ⟨hrfm, _⟩ := hv.hand.front p hp (.inr hdrfm)
  · obtain ⟨hty, hrank⟩ := hv.requests p.cmd (List.mem_of_mem_head? hfront) hdrfm
    have hcmd : p.cmd.isRankCMD := by simp [Command.isRankCMD, hty]
    refine ⟨hcmd, fun i hi => ?_⟩
    have hzero := rank_of_mem_allBanks hcfg hi
    obtain ⟨_, hbanks⟩ := cfg.mem_allBanks.mp hi
    rw [covered, if_pos hcmd, cfg.mem_rankBanks]
    exact ⟨hzero.trans hrank.symm, hbanks⟩
  · rw [isRFM_of_isDRFM hdrfm] at hrfm
    cases hrfm

theorem wide_boot (boot : Boot cfg) : Wide cfg ⟨boot.channelState, 0, none, []⟩ :=
  ⟨handReady_boot boot, fun _ hr => absurd hr List.not_mem_nil⟩

theorem Step.sharedMove (hcfg : cfg.Shares) (hv : Wide cfg v) (h : Step cfg π v v') :
    SharedMove cfg v.cs v'.cs := by
  cases h with
  | environment | drop | tock => exact .keep ⟨rfl, rfl, fun _ => rfl, rfl, rfl⟩
  | requestRefresh => exact .request rfl
  | tick => exact .keep samplesKept_clockTick
  | query hs h | pick _ hs _ h => exact h.sharedMove hcfg hv.hand.ready.regular hs
  | hydraQuery h | pickHydra _ h =>
    obtain ⟨⟨_, _, _, rfl⟩, _⟩ := getReadyHydraCommand_eq h
    exact .keep ⟨rfl, rfl, fun _ => rfl, rfl, rfl⟩
  | issue h => exact .issue h (hv.covers hcfg rfl)

end Chan

/-- The rows of bank `i` that share a DREAM counter. -/
def groupRows (cfg : Config) (cs : ChannelState) (i : BankId) (idx : ℕ) : List ℕ :=
  (List.range cfg.dreamK).filterMap fun l => (cs.getRowIdx cfg i idx l).toOption

namespace Event
variable (cfg : Config) (cs : ChannelState)

/-- The rows of bank `i` that have reached their threshold. -/
def crossed (i : BankId) : Event → List ℕ
  | .dreamCross idx => groupRows cfg cs i idx
  | .abacusCross row => [row]
  | _ => []

def crosses (e : Event) : Bool := e.isDreamCross || e.isAbacusCross

def isHook : Event → Bool
  | .hook .. => true
  | _ => false

end Event

def crossedRows (cfg : Config) (cs : ChannelState) (i : BankId) (log : List Event) : List ℕ :=
  log.flatMap (Event.crossed cfg cs i)

/-- Every row that has crossed has been mitigated, in every bank. -/
def Served (cfg : Config) (cs : ChannelState) (log : List Event) : Prop :=
  ∀ i ∈ cfg.allBanks, (mitigatedRows cfg i log).Perm (crossedRows cfg cs i log)

/-- The trackers see a row only when all is served, a crossing of that row apart. -/
def Event.Heeds (cfg : Config) (cs : ChannelState) (older : List Event) (e : Event) : Prop :=
  e.isHook → ∃ own before, older = own ++ before ∧ own.length ≤ 1 ∧ (∀ x ∈ own, x.crosses) ∧
    Served cfg cs before

/-- The samplers hold what has crossed and has not been mitigated, equally many rows in every bank. -/
structure Balanced (cfg : Config) (cs : ChannelState) : Prop where
  level : ∀ i ∈ cfg.allBanks, ∀ j ∈ cfg.allBanks,
    (cs.bankStates i).sampledRows.length = (cs.bankStates j).sampledRows.length
  rows : ∀ i ∈ cfg.allBanks,
    (mitigatedRows cfg i cs.log ++ (cs.bankStates i).sampledRows).Perm (crossedRows cfg cs i cs.log)
  heeded : AtEvery (Event.Heeds cfg cs) cs.log

section
variable {cfg : Config} {cs cs' : ChannelState} {cmd : Command} {clk : ℕ} {i : BankId}

theorem crossed_congr (h : cs'.fixed = cs.fixed) : Event.crossed cfg cs' = Event.crossed cfg cs := by
  have hmasks : cs'.randomMasks = cs.randomMasks := congrArg (·.1) h
  funext i e
  cases e <;> simp only [Event.crossed, groupRows, getRowIdx, hmasks]

theorem served_congr (h : cs'.fixed = cs.fixed) : Served cfg cs' = Served cfg cs := by
  funext log
  unfold Served crossedRows
  rw [crossed_congr h]

theorem heeds_congr (h : cs'.fixed = cs.fixed) : Event.Heeds cfg cs' = Event.Heeds cfg cs := by
  funext older e
  unfold Event.Heeds
  rw [served_congr h]

theorem Balanced.congr (h : Balanced cfg cs) (hsame : SamplesKept cs cs') : Balanced cfg cs' := by
  refine ⟨fun i hi j hj => ?_, fun i hi => ?_, ?_⟩
  · rw [hsame.sampled, hsame.sampled]
    exact h.level i hi j hj
  · rw [hsame.sampled, hsame.log, crossedRows, crossed_congr hsame.fixed]
    exact h.rows i hi
  · rw [hsame.log, heeds_congr hsame.fixed]
    exact h.heeded

theorem mitigatedRow_of_crosses {e : Event} (h : e.crosses) : e.mitigatedRow cfg i = none := by
  cases e <;> first | rfl | cases h

theorem not_isHook_of_crosses {e : Event} (h : e.crosses) : e.isHook = false := by
  cases e <;> first | rfl | cases h

theorem not_isHook_of_internal {e : Event} (h : e.internal) : e.isHook = false := by
  cases e <;> first | rfl | cases h

theorem crossed_of_internal {e : Event} (h : e.internal) : e.crossed cfg cs i = [] := by
  cases e <;> first | rfl | cases h

theorem mitigated_shares (hcfg : cfg.Shares) (b : BankState) :
    BankState.mitigated cfg b = b.drfmMitig.2 := by
  obtain ⟨hmint, hpara, hgraphene, hhydra⟩ := hcfg.off
  rcases hcfg.either with ⟨hd, ha⟩ | ⟨hd, ha⟩ <;>
    simp [BankState.mitigated, BankState.dreamMitig, BankState.mintMitig, BankState.paraMitig,
      BankState.abacusMitig, BankState.samplerMitig, BankState.grapheneMitig, BankState.hydraMitig, hmint,
      hpara, hgraphene, hhydra, hd, ha]

theorem groupRows_eq {idx : ℕ} {ls rows : List ℕ}
    (h : List.Forall₂ (fun l row => cs.getRowIdx cfg i idx l = .ok row) ls rows) :
    (ls.filterMap fun l => (cs.getRowIdx cfg i idx l).toOption) = rows := by
  induction h with
  | nil => rfl
  | cons hrow _ ih =>
    rw [List.filterMap_cons, hrow, ih]
    rfl

namespace ChannelState.Hooked
variable {full : Bool}

/-- What DREAM queues in a bank is what its crossing stands for. -/
theorem dream_rows (hcfg : cfg.Shares) (h : Hooked cfg cs cmd clk full cs') (hi : i ∈ cfg.allBanks) :
    h.dream.es.flatMap (Event.crossed cfg cs i) = h.dream.rows i := by
  rcases h.hdream with ⟨_, hd⟩ | ⟨_, _, rows, hrows, hd⟩
  · rw [hd]
    rfl
  · rw [hd]
    simp only [List.flatMap_cons, List.flatMap_nil, List.append_nil, Event.crossed, effective, hcfg.mode]
    exact groupRows_eq (hrows.1 i hi)

theorem abacus_rows (hcfg : cfg.Shares) (h : Hooked cfg cs cmd clk full cs') (hi : i ∈ cfg.allBanks) :
    h.abacus.es.flatMap (Event.crossed cfg cs i) = h.abacus.rows i := by
  rcases h.habacus with ⟨_, ha⟩ | ⟨_, _, ha⟩
  · rw [ha]
    rfl
  · rw [ha]
    simp [Event.crossed, effective, hcfg.mode, hi]

theorem rows_length (hcfg : cfg.Shares) (h : Hooked cfg cs cmd clk full cs') :
    ∃ n, ∀ i ∈ cfg.allBanks, (h.dream.rows i ++ h.abacus.rows i).length = n := by
  have hdream : ∃ n, ∀ i ∈ cfg.allBanks, (h.dream.rows i).length = n := by
    rcases h.hdream with ⟨_, hd⟩ | ⟨_, _, rows, hrows, hd⟩
    · exact ⟨0, fun i _ => by rw [hd]; rfl⟩
    · refine ⟨cfg.dreamK, fun i hi => ?_⟩
      rw [hd]
      simpa [effective, hcfg.mode] using (hrows.1 i hi).length_eq.symm
  have habacus : ∃ n, ∀ i ∈ cfg.allBanks, (h.abacus.rows i).length = n := by
    rcases h.habacus with ⟨_, ha⟩ | ⟨_, _, ha⟩
    · exact ⟨0, fun i _ => by rw [ha]; rfl⟩
    · refine ⟨1, fun i hi => ?_⟩
      rw [ha]
      simp [effective, hcfg.mode, hi]
  obtain ⟨n, hn⟩ := hdream
  obtain ⟨m, hm⟩ := habacus
  exact ⟨n + m, fun i hi => by rw [List.length_append, hn i hi, hm i hi]⟩

/-- Only one of the two is on. -/
theorem own_crossing (hcfg : cfg.Shares) (h : Hooked cfg cs cmd clk full cs') :
    (h.abacus.es ++ h.dream.es).length ≤ 1 ∧ ∀ x ∈ h.abacus.es ++ h.dream.es, x.crosses := by
  rcases h.hdream with ⟨_, hd⟩ | ⟨hdream, _, _, _, hd⟩ <;>
    rcases h.habacus with ⟨_, ha⟩ | ⟨habacus, _, ha⟩
  · simp [hd, ha]
  · simp [hd, ha, Event.crosses, Event.isAbacusCross]
  · simp [hd, ha, Event.crosses, Event.isDreamCross]
  · rcases hcfg.either with ⟨hnot, _⟩ | ⟨_, hnot⟩
    · exact absurd hnot hdream
    · exact absurd hnot habacus

theorem log_eq (hcfg : cfg.Shares) (h : Hooked cfg cs cmd clk full cs') : ∃ alert inflight,
    cs'.log = .hook cmd.bankId cmd.row clk full alert inflight ::
      ((h.abacus.es ++ h.dream.es) ++ cs.log) := by
  obtain ⟨alert, inflight, alerts, hraise, hlog⟩ := h.log
  rcases hraise with ⟨_, _, rfl⟩ | ⟨hcactus, _⟩
  · exact ⟨alert, inflight, by rw [hlog, List.nil_append, List.append_assoc]⟩
  · exact absurd hcfg.cactus hcactus

theorem sampled (hcfg : cfg.Shares) (h : Hooked cfg cs cmd clk full cs') (i : BankId) :
    (cs'.bankStates i).sampledRows =
      (cs.bankStates i).sampledRows ++ (h.dream.rows i ++ h.abacus.rows i) := by
  obtain ⟨hmint, hpara, hgraphene, hhydra⟩ := hcfg.off
  have hsame : ((cs.bankStates cmd.bankId).preACT cfg cmd cs.draws cs.rcc).1 = cs.bankStates cmd.bankId := by
    simp only [BankState.preACT, BankState.mintPreact, BankState.paraPreact, BankState.graphenePreact,
      BankState.hydraPreact, hmint, hpara, hgraphene, hhydra, if_true]
  rw [h.banks, hsame, Function.update_eq_self, BankState.sampledRows_sampled]

end ChannelState.Hooked
/-- The hooks of an activation, when the samplers are empty. -/
theorem Balanced.hook (hcfg : cfg.Shares) (h : Balanced cfg cs) {full : Bool}
    (h₂ : Hooked cfg cs cmd clk full cs') (hmem : cmd.bankId ∈ cfg.allBanks)
    (hempty : (cs.bankStates cmd.bankId).sampledRows = []) : Balanced cfg cs' := by
  have hall (j : BankId) (hj : j ∈ cfg.allBanks) : (cs.bankStates j).sampledRows = [] := by
    apply List.eq_nil_of_length_eq_zero
    rw [h.level j hj _ hmem, hempty]
    rfl
  have hserved : Served cfg cs cs.log := fun j hj => by
    have hrows := h.rows j hj
    rwa [hall j hj, List.append_nil] at hrows
  obtain ⟨alert, inflight, hlog⟩ := h₂.log_eq hcfg
  obtain ⟨hlength, hcrosses⟩ := h₂.own_crossing hcfg
  refine ⟨fun j hj k hk => ?_, fun j hj => ?_, ?_⟩
  · obtain ⟨n, hn⟩ := h₂.rows_length hcfg
    rw [h₂.sampled hcfg, h₂.sampled hcfg, hall j hj, hall k hk, List.nil_append, List.nil_append, hn j hj,
      hn k hk]
  · have hown : (h₂.abacus.es ++ h₂.dream.es).flatMap (Event.crossed cfg cs j) =
        h₂.abacus.rows j ++ h₂.dream.rows j := by
      rw [List.flatMap_append, h₂.abacus_rows hcfg hj, h₂.dream_rows hcfg hj]
    have hmitigated : mitigatedRows cfg j cs'.log = mitigatedRows cfg j cs.log := by
      rw [hlog, mitigatedRows, List.filterMap_cons_none rfl]
      exact mitigatedRows_append cfg j cs.log fun x hx => mitigatedRow_of_crosses (hcrosses x hx)
    have hcrossed : crossedRows cfg cs' j cs'.log =
        (h₂.abacus.rows j ++ h₂.dream.rows j) ++ crossedRows cfg cs j cs.log := by
      rw [hlog, crossedRows, crossed_congr h₂.fixed, List.flatMap_cons, List.flatMap_append, hown]
      rfl
    rw [hmitigated, hcrossed, h₂.sampled hcfg, hall j hj, List.nil_append]
    exact List.perm_append_comm.trans (List.perm_append_comm.append (hserved j hj))
  · rw [heeds_congr h₂.fixed, hlog]
    refine (h.heeded.append fun x hx older hhook => ?_).cons fun _ => ?_
    · rw [not_isHook_of_crosses (hcrosses x hx)] at hhook
      cases hhook
    · exact ⟨_, _, rfl, hlength, hcrosses, hserved⟩

/-- A DRFM takes one row out of every sampler. -/
theorem issue_length (hcfg : cfg.Shares) {origin : Origin}
    (hissue : cs.updateTimingAndStates cfg cmd clk origin = .ok cs')
    (hwide : cmd.isDRFM → ∀ i ∈ cfg.allBanks, i ∈ covered cfg cmd) (hi : i ∈ cfg.allBanks) :
    (cs'.bankStates i).sampledRows.length =
      (cs.bankStates i).sampledRows.length - if cmd.isDRFM then 1 else 0 := by
  have hsampled := updateTimingAndStates_sampled (mitigated_shares hcfg) hcfg.cactus hissue i
  by_cases hdrfm : cmd.isDRFM
  · rw [if_pos ⟨hdrfm, hwide hdrfm i hi⟩] at hsampled
    rw [hsampled.2, if_pos hdrfm, BankState.sampledRows, BankState.sampledRows, List.length_map,
      List.length_map, BankState.drfmMitig_sampler]
  · rw [if_neg fun hand => hdrfm hand.1] at hsampled
    rw [hsampled.2, if_neg hdrfm, Nat.sub_zero]

theorem Balanced.issue (hcfg : cfg.Shares) (h : Balanced cfg cs) {origin : Origin}
    (hissue : cs.updateTimingAndStates cfg cmd clk origin = .ok cs')
    (hwide : cmd.isDRFM → ∀ i ∈ cfg.allBanks, i ∈ covered cfg cmd) : Balanced cfg cs' := by
  have hi := updateTimingAndStates_issued hissue
  obtain ⟨extra, hlog, hextra⟩ := hi.log
  refine ⟨fun j hj k hk => ?_, fun j hj => ?_, ?_⟩
  · rw [issue_length hcfg hissue hwide hj, issue_length hcfg hissue hwide hk, h.level j hj k hk]
  · have hcrossed : crossedRows cfg cs' j cs'.log = crossedRows cfg cs j cs.log := by
      have hnone : extra.flatMap (Event.crossed cfg cs j) = [] :=
        List.flatMap_eq_nil_iff.mpr fun e he => crossed_of_internal (hextra e he)
      rw [crossedRows, crossed_congr hi.fixed, hlog, List.flatMap_append, hnone]
      rfl
    rw [hcrossed]
    exact (updateTimingAndStates_rows (mitigated_shares hcfg) hcfg.cactus hissue j).symm.trans (h.rows j hj)
  · rw [heeds_congr hi.fixed, hlog]
    refine (h.heeded.cons fun hhook => ?_).append fun e he older hhook => ?_
    · cases hhook
    · rw [not_isHook_of_internal (hextra e he)] at hhook
      cases hhook

theorem Balanced.move (hcfg : cfg.Shares) (h : Balanced cfg cs) (hm : SharedMove cfg cs cs') :
    Balanced cfg cs' := by
  cases hm with
  | keep hsame => exact h.congr hsame
  | request heq =>
    subst heq
    exact ⟨h.level, h.rows, h.heeded.cons (nofun)⟩
  | hook hh hmem hempty =>
    obtain ⟨hh⟩ := hh
    exact h.hook hcfg hh hmem hempty
  | issue hissue hwide => exact h.issue hcfg hissue fun hdrfm => (hwide hdrfm).2

theorem balanced_boot (boot : Boot cfg) : Balanced cfg boot.channelState :=
  ⟨fun _ _ _ _ => rfl, fun _ _ => .rfl, atEvery_nil _⟩

end

/-- With DREAM or ABACUS, and DRFMs of the whole rank under the eager policy, every row that has crossed in
a bank is mitigated once, or waits in the sampler of that bank; and whenever the trackers see a row, all that
crossed before has been mitigated in every bank. -/
theorem crossings_mitigated {cfg : Config} (hcfg : cfg.Shares) {c : Controller} (h : Reachable cfg c) :
    (∀ i ∈ cfg.allBanks, (mitigatedRows cfg i c.channelState.log ++
        (c.channelState.bankStates i).sampledRows).Perm
          (crossedRows cfg c.channelState i c.channelState.log)) ∧
      AtEvery (Event.Heeds cfg c.channelState) c.channelState.log := by
  have hinv := (Micro.reached_of_reachable h).chan_induct
    (P := fun v => Chan.Wide cfg v ∧ Balanced cfg v.cs)
    (fun boot => ⟨Chan.wide_boot boot, balanced_boot boot⟩)
    fun _ _ hv hs => ⟨hv.1.step hcfg hs, hv.2.move hcfg (hs.sharedMove hcfg hv.1)⟩
  exact ⟨hinv.2.rows, hinv.2.heeded⟩

/-- Every activation brings a counter of two rows a bank to its threshold. -/
def wideDream : Config :=
  { smallConfig with dreamMode := 1, dreamTh := 1, dreamK := 2, drfmMode := 3, drfmQsize := 1 }

theorem wideDream_shares : wideDream.Shares := ⟨rfl, rfl, rfl, rfl, rfl, rfl, rfl⟩

/-- Row 0 of each bank is activated; both crossings queue rows 0 and 1 in both banks. -/
theorem crossings_mitigated_small : ∃ c, Reachable wideDream c ∧
    crossedRows wideDream c.channelState ⟨0, 0, 1⟩ c.channelState.log = [0, 1, 0, 1] ∧
    (mitigatedRows wideDream ⟨0, 0, 1⟩ c.channelState.log ++
      (c.channelState.bankStates ⟨0, 0, 1⟩).sampledRows).Perm [0, 1, 0, 1] ∧
    AtEvery (Event.Heeds wideDream c.channelState) c.channelState.log := by
  obtain ⟨c, hrun, hc⟩ := exists_ok_of_any
    (x := Controller.run wideDream ({} : Boot wideDream).controller
      (Input.request 0 false 6 ++ Input.request 3 false 12))
    (p := fun c => crossedRows wideDream c.channelState ⟨0, 0, 1⟩ c.channelState.log = [0, 1, 0, 1])
    (by decide +kernel)
  have hcrossed := of_decide_eq_true hc
  have hr : Reachable wideDream c := ⟨{}, _, hrun⟩
  obtain ⟨hrows, hheeds⟩ := crossings_mitigated wideDream_shares hr
  have hbank := hrows ⟨0, 0, 1⟩ (by decide)
  rw [hcrossed] at hbank
  exact ⟨c, hr, hcrossed, hbank, hheeds⟩

end CactusDram

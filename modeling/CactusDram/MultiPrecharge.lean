import CactusDram.TimingSoundness

/-! Precharges of several banks. The walk over the banks stops at the first open bank that is ready,
and the precharge it asks for then closes all of them. -/
namespace CactusDram
open Foundations ChannelState

/-- Of the open banks a maintenance request needs closed, one is ready to be precharged and
another one is not. -/
def ChannelState.Straddles (cfg : Config) (cs : ChannelState) (clk : ℕ) (served : Command) : Prop :=
  (served.isRankCMD ∨ served.isSbCMD) ∧
    (∃ i ∈ covered cfg served, (cs.bankStates i).state = .open ∧
      (cs.bankStates i).cmdTiming (BankState.prechargeFor served) ≤ clk) ∧
    ∃ i ∈ covered cfg served, (cs.bankStates i).state = .open ∧
      clk < (cs.bankStates i).cmdTiming (BankState.prechargeFor served)

/-- Runs in which no tick works on a request whose open banks straddle. -/
def Micro.Policy.aligned (cfg : Config) : Policy :=
  ⟨fun _ => True, fun cs clk served => ¬cs.Straddles cfg clk served, fun _ => True⟩

def Origin.isMaintenance : Origin → Bool
  | .refresh _ | .rfm _ => true
  | _ => false

/-- A precharge of several banks, made for a refresh, RFM or DRFM. -/
def MultiPrecharge (cmd : Command) (origin : Origin) : Prop :=
  (cmd.cmdType = .preAb ∨ cmd.cmdType = .preSb) ∧ origin.isMaintenance

instance (cmd : Command) (origin : Origin) : Decidable (MultiPrecharge cmd origin) := by
  unfold MultiPrecharge
  infer_instance

theorem MultiPrecharge.other {cmd : Command} {origin : Origin} (h : MultiPrecharge cmd origin) :
    cmd.isReadWrite = false ∧ ¬(cmd.isRefresh ∨ cmd.isRFM ∨ cmd.isDRFM) ∧
      cmd.cmdType ≠ .activate ∧ cmd.cmdType ≠ .precharge ∧ cmd.cmdType ≠ .srefExit := by
  rcases h.1 with h | h <;> simp [Command.isReadWrite, Command.isRead, Command.isWrite,
    Command.isRefresh, Command.isRFM, Command.isDRFM, h]

/-- A precharge of several banks finds each open one ready. -/
def Event.ClosesReady (cfg : Config) : Event → Prop
  | .issue cmd t origin found => MultiPrecharge cmd origin → ∀ i ∈ covered cfg cmd,
      (found i).state = .open → (found i).cmdTiming cmd.cmdType ≤ t
  | _ => True

instance (cfg : Config) : ∀ e : Event, Decidable (e.ClosesReady cfg)
  | .issue cmd t origin found => inferInstanceAs (Decidable (MultiPrecharge cmd origin →
      ∀ i ∈ covered cfg cmd, (found i).state = .open → (found i).cmdTiming cmd.cmdType ≤ t))
  | .hook _ _ _ _ _ _ | .alert _ _ | .cactusReset _ _ | .cactusMitig _ | .pendingMitig _
  | .actsCleared _ | .requested _ | .abo _ _ _ | .dreamCross _ | .dreamMitig _ | .abacusCross _
  | .abacusMitig _ | .dreamReset _ _ | .abacusReset _ _ => .isTrue trivial

/-- A precharge of several banks comes late enough after the accesses to each open one. -/
def Event.ClosesLate (cfg : Config) (later earlier : Event) : Prop :=
  match later, earlier with
  | .issue cmd t origin found, .issue cmd' s _ _ => MultiPrecharge cmd origin →
      cmd'.bankId ∈ covered cfg cmd → (found cmd'.bankId).state = .open →
      (cmd'.cmdType = .activate → (s : ℤ) + cfg.tRAS ≤ t) ∧
      (cmd'.cmdType = .read → (s : ℤ) + (cfg.AL + cfg.tRTP) ≤ t) ∧
      (cmd'.cmdType = .write → (s : ℤ) + (cfg.WL + cfg.burstCycle + cfg.tWR) ≤ t)
  | _, _ => True

instance (cfg : Config) (cs : ChannelState) (clk : ℕ) (served : Command) :
    Decidable (cs.Straddles cfg clk served) := by
  unfold ChannelState.Straddles
  infer_instance

instance (cfg : Config) (c : Controller) :
    ∀ input, Decidable (Micro.Admits cfg (.aligned cfg) c input)
  | .addTransaction _ _ => .isTrue trivial
  | .clockTick =>
    match h : (Micro.ticked cfg c).inService with
    | some served => decidable_of_iff
        (¬(Micro.ticked cfg c).channelState.Straddles cfg c.clk served)
        (by simp [Micro.Admits, h, Micro.Policy.aligned])
    | none => .isTrue (by simp [Micro.Admits, h])
  | .returnDoneTrans _ => .isTrue trivial
  | .others _ _ => .isTrue trivial

namespace Chan
variable {cfg : Config} {π : Micro.Policy} {v v' : Chan}

theorem covered_precharge {served : Command} {i : BankId} {hex : HexAddr}
    (hm : served.isRankCMD ∨ served.isSbCMD) (hi : i ∈ covered cfg served) :
    covered cfg ⟨BankState.prechargeFor served, ⟨-1, i.rank, i.bankgroup, i.bank, -1, -1⟩, hex⟩ =
      covered cfg served := by
  by_cases hrank : served.isRankCMD
  · have hcov : covered cfg served = cfg.rankBanks served.rank := if_pos hrank
    rw [hcov, Config.mem_rankBanks] at hi
    rw [BankState.prechargeFor, if_pos hrank, hcov, ← hi.1]
    rfl
  · have hsb : served.isSbCMD := hm.resolve_left hrank
    have hcov : covered cfg served = cfg.banksetBanks served.rank served.bank := by
      rw [covered, if_neg hrank, if_pos hsb]
    rw [hcov, Config.mem_banksetBanks] at hi
    rw [BankState.prechargeFor, if_neg hrank, if_pos hsb, hcov, ← hi.1, ← hi.2.2]
    rfl

/-- A chosen precharge of several banks serves a request on the same banks, and one of those that
are open is ready for it. -/
theorem Granted.multiPrecharge {cs : ChannelState} {clk : ℕ} {p : Pick} (h : Granted cfg cs clk p)
    (hp : MultiPrecharge p.cmd p.origin) : ∃ served,
      (p.origin = .refresh served ∨ p.origin = .rfm served) ∧
      (served.isRankCMD ∨ served.isSbCMD) ∧ p.cmd.cmdType = BankState.prechargeFor served ∧
      covered cfg p.cmd = covered cfg served ∧ ∃ i ∈ covered cfg served,
        (cs.cores i).state = .open ∧ (cs.cores i).cmdTiming (BankState.prechargeFor served) ≤ clk := by
  obtain ⟨hrw, hmaint, hact, hpre, hexit⟩ := hp.other
  have ho' := hp.2
  cases h with
  | column h => simp [hrw] at h
  | precharge h => exact absurd h hpre
  | activate h => exact absurd h hact
  | maintain h => exact absurd h hmaint
  | @prechargeAll served i _ _ ho hm hi hopen ht =>
    exact ⟨served, ho, hm, rfl, covered_precharge hm hi, i, hi, hopen, ht⟩
  | sref _ hp =>
    rcases hp with hp | ⟨req, hp⟩
    · exact absurd hp hexit
    · rw [hp] at ho'
      cases ho'
  | hydraRFM => cases ho'

theorem Asks.served {cs : ChannelState} {cmd served : Command} {origin : Origin}
    (h : Asks cfg cs cmd origin) (ho : origin = .refresh served ∨ origin = .rfm served) :
    cmd = served := by
  cases h <;> simp_all

/-- Every open bank of a chosen precharge is ready, and so it was for all that were issued. -/
structure Aligned (cfg : Config) (v : Chan) : Prop where
  ready : Ready cfg v
  registered : Registered cfg v.cs
  ticket : ∀ p, v.ticket = some p → MultiPrecharge p.cmd p.origin → ∀ i ∈ covered cfg p.cmd,
    (v.cs.bankStates i).state = .open → (v.cs.bankStates i).cmdTiming p.cmd.cmdType ≤ v.clk
  closesReady : ∀ e ∈ v.cs.log, e.ClosesReady cfg
  closesLate : v.cs.log.Pairwise (Event.ClosesLate cfg)

theorem Aligned.boot (boot : Boot cfg) : Aligned cfg ⟨boot.channelState, 0, none, []⟩ :=
  ⟨ready_boot boot, fun _ _ _ _ h => (nomatch h), fun _ h => (nomatch h), fun _ h => (nomatch h), .nil⟩

theorem closesReady_of_not_issue {e : Event} (h : e.isIssue = false) : e.ClosesReady cfg := by
  cases e <;> simp_all [Event.isIssue, Event.ClosesReady]

/-- The delays an access registers for the precharges of its own bank. -/
theorem mem_timingUpdates_precharge (cfg : Config) (cmd : Command) {ty : CommandType}
    (hty : ty = .preAb ∨ ty = .preSb) :
    (cmd.cmdType = .activate → (cmd.bankId, ty, cfg.tRAS) ∈ timingUpdates cfg cmd) ∧
    (cmd.cmdType = .read → (cmd.bankId, ty, cfg.AL + cfg.tRTP) ∈ timingUpdates cfg cmd) ∧
    (cmd.cmdType = .write →
      (cmd.bankId, ty, cfg.WL + cfg.burstCycle + cfg.tWR) ∈ timingUpdates cfg cmd) := by
  have hsame {d : ℤ} (h : (ty, d) ∈ cfg.timing.sameBank cmd.cmdType) :
      (cmd.bankId, ty, d) ∈ updateSameBankTiming cmd.addr (cfg.timing.sameBank cmd.cmdType) := by
    simp [updateSameBankTiming, onBanks, Command.bankId, h]
  refine ⟨fun h => ?_, fun h => ?_, fun h => ?_⟩
  all_goals
    rw [timingUpdates, h]
    simp only [List.mem_append]
    refine .inl (.inl (.inl ?_))
    rw [← h]
    apply hsame
    rw [h]
    rcases hty with rfl | rfl <;>
      simp [Config.timing, Config.sameBank, Config.columnDelays, Config.prechargeDelays,
        Config.activateToPrecharge, Config.readToPrecharge, Config.writeToPrecharge]

theorem Aligned.step (hv : Aligned cfg v) (h : Step cfg (.aligned cfg) v v') : Aligned cfg v' := by
  have hready := hv.ready.step h
  have hregistered := hv.registered.step h
  refine ⟨hready, hregistered, fun p hp hmulti i hi hopen => ?_, fun e he => ?_,
    pairwise_step (fun e e' he => ?_) hv.closesLate h fun p cmd s o f hp hmem hmulti hi hopen => ?_⟩
  · cases h with
    | @pick cs clk issued cmd origin r cs' _ hs hg h =>
      cases hp
      obtain ⟨served, ho, hm, hty, hcov, j, hj, hjopen, hjt⟩ :=
        (hready.ticket _ rfl).multiPrecharge hmulti
      obtain rfl : cmd = served := hs.served ho
      by_contra hlate
      refine hg ho ⟨hm, ⟨j, hj, ?_⟩, i, hcov ▸ hi, ?_⟩
      · rw [h.queried.cores] at hjopen hjt
        exact ⟨hjopen, hjt⟩
      · have hcore : (cs'.bankStates i).toBankCore = (cs.bankStates i).toBankCore :=
          h.queried.cores i
        rw [hcore, hty] at hlate
        rw [hcore] at hopen
        exact ⟨hopen, Nat.lt_of_not_le hlate⟩
    | pickHydra =>
      cases hp
      cases hmulti.2
    | _ => cases hp
  · rcases h.log_mem he with he | hquiet | ⟨p, hp, _, rfl⟩
    · exact hv.closesReady e he
    · exact closesReady_of_not_issue hquiet
    · exact hv.ticket p hp
  · cases e <;> cases e' <;> simp_all [Event.isIssue, Event.ClosesLate]
  · have ht := hv.ticket p hp hmulti _ hi hopen
    have hdelay {d : ℤ} (hd : (cmd.bankId, p.cmd.cmdType, d) ∈ timingUpdates cfg cmd) :
        (s : ℤ) + d ≤ v.clk := by
      have hreg := hv.registered cmd s o f hmem _ hd
      have hle := le_addDelay s d
      have : addDelay s d ≤ v.clk := hreg.trans ht
      omega
    obtain ⟨hact, hread, hwrite⟩ := mem_timingUpdates_precharge cfg cmd hmulti.1
    exact ⟨fun h => hdelay (hact h), fun h => hdelay (hread h), fun h => hdelay (hwrite h)⟩

end Chan

/-- In a run that never works on a request whose open banks straddle, every precharge of several
banks finds the open ones ready and leaves their restore times alone. -/
theorem multi_precharge_respects_banks {cfg : Config} {boot : Boot cfg} {inputs : List Input}
    {c : Controller} (hin : Micro.Meets cfg (.aligned cfg) boot.controller inputs)
    (h : Controller.run cfg boot.controller inputs = .ok c) :
    (∀ e ∈ c.channelState.log, e.ClosesReady cfg) ∧
      c.channelState.log.Pairwise (Event.ClosesLate cfg) := by
  have hr := Micro.reached_of_run hin h
  have ha := hr.chan_induct (P := Chan.Aligned cfg) Chan.Aligned.boot fun _ _ hv hs => hv.step hs
  exact ⟨ha.closesReady, ha.closesLate⟩

/-- A refresh every eight cycles, and rows that stay open for at least four. -/
def refreshConfig : Config :=
  { smallConfig with refreshPolicy := .rankLevelSimultaneous, tREFI := 8, tRAS := 4 }

def Event.isPreAb : Event → Bool
  | .issue cmd _ _ _ => cmd.cmdType = .preAb
  | _ => false

/-- The command finds both banks open. -/
def Event.closesBoth : Event → Bool
  | .issue _ _ _ found => (found ⟨0, 0, 0⟩).state = .open && (found ⟨0, 0, 1⟩).state = .open
  | _ => false

/-- Two rows opened in time are closed for the refresh by a precharge of both banks. -/
theorem multi_precharge_respects_banks_small : ∃ c,
    Controller.run refreshConfig ({} : Boot refreshConfig).controller
      (.addTransaction 0 false :: Input.request 1 false 10) = .ok c ∧
    c.channelState.log.any (fun e => e.isPreAb && e.closesBoth) ∧
    (∀ e ∈ c.channelState.log, e.ClosesReady refreshConfig) ∧
      c.channelState.log.Pairwise (Event.ClosesLate refreshConfig) := by
  obtain ⟨c, hrun, hc⟩ := exists_ok_of_any
    (p := fun c => c.channelState.log.any fun e => e.isPreAb && e.closesBoth)
    (x := Controller.run refreshConfig ({} : Boot refreshConfig).controller
      (.addTransaction 0 false :: Input.request 1 false 10)) (by decide +kernel)
  exact ⟨c, hrun, hc, multi_precharge_respects_banks (by decide +kernel) hrun⟩

/-- One row is opened well before the refresh and one right before it: the precharge of both
closes the second row three cycles too early. -/
theorem multi_precharge_closes_early : ∃ c, Reachable refreshConfig c ∧
    ∃ e ∈ c.channelState.log, ¬e.ClosesReady refreshConfig := by
  obtain ⟨c, hrun, hc⟩ := exists_ok_of_any
    (p := fun c => c.channelState.log.any fun e => !decide (e.ClosesReady refreshConfig))
    (x := Controller.run refreshConfig ({} : Boot refreshConfig).controller
      (Input.request 0 false 6 ++ Input.request 1 false 4)) (by decide +kernel)
  exact ⟨c, ⟨{}, _, hrun⟩, by simpa using hc⟩

end CactusDram

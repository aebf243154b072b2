import CactusDram.TimingSoundness

/-! The row cycle before maintenance: a bank is refreshed or managed at the earliest tRAS + tRP cycles
after it was activated, as long as it was precharged late enough. -/
namespace CactusDram
open Foundations ChannelState

/-- Refreshes, RFMs and DRFMs. -/
def Command.isMaintenance (cmd : Command) : Prop := cmd.isRefresh ∨ cmd.isRFM ∨ cmd.isDRFM

namespace Event
variable (cfg : Config) (i : BankId)

/-- Maintenance of bank `i` is a row cycle later than its activations. -/
def RowCycled (later earlier : Event) : Prop :=
  match later, earlier with
  | .issue cmd t _ _, .issue act s _ _ =>
    cmd.isMaintenance → i ∈ covered cfg cmd → act.cmdType = .activate → act.bankId = i →
      (s : ℤ) + (cfg.tRAS + cfg.tRP) ≤ t
  | _, _ => True

/-- The precharge that comes with an access of bank `i` does not start before the row was open for
tRAS cycles. -/
def PrechargedLate (later earlier : Event) : Prop :=
  match later, earlier with
  | .issue cmd t _ _, .issue act s _ _ =>
    cmd.bankId = i → act.cmdType = .activate → act.bankId = i →
      (cmd.cmdType = .readPrecharge → (s : ℤ) + cfg.tRAS ≤ t + (cfg.AL + cfg.tRTP)) ∧
      (cmd.cmdType = .writePrecharge →
        (s : ℤ) + cfg.tRAS ≤ t + (cfg.WL + cfg.burstCycle + cfg.tWR))
  | _, _ => True

/-- No precharge of several banks closes bank `i`. -/
def ClosedAlone : Event → Prop
  | .issue cmd _ _ found => cmd.cmdType = .preAb ∨ cmd.cmdType = .preSb → i ∈ covered cfg cmd →
    (found i).state ≠ .open
  | _ => True

instance : ∀ later earlier : Event, Decidable (later.RowCycled cfg i earlier)
  | .issue cmd t _ _ => fun
    | .issue act s _ _ => inferInstanceAs (Decidable (
        (cmd.isRefresh ∨ cmd.isRFM ∨ cmd.isDRFM) → i ∈ covered cfg cmd → act.cmdType = .activate →
          act.bankId = i → (s : ℤ) + (cfg.tRAS + cfg.tRP) ≤ t))
    | .hook _ _ _ _ _ _ | .alert _ _ | .cactusReset _ _ | .cactusMitig _ | .pendingMitig _
    | .actsCleared _ | .requested _ | .abo _ _ _ | .dreamCross _ | .dreamMitig _ | .abacusCross _
    | .abacusMitig _ | .dreamReset _ _ | .abacusReset _ _ => .isTrue trivial
  | .hook _ _ _ _ _ _ | .alert _ _ | .cactusReset _ _ | .cactusMitig _ | .pendingMitig _
  | .actsCleared _ | .requested _ | .abo _ _ _ | .dreamCross _ | .dreamMitig _ | .abacusCross _
  | .abacusMitig _ | .dreamReset _ _ | .abacusReset _ _ => fun _ => .isTrue trivial

instance : ∀ e : Event, Decidable (e.ClosedAlone cfg i)
  | .issue cmd _ _ found => inferInstanceAs (Decidable (cmd.cmdType = .preAb ∨ cmd.cmdType = .preSb →
      i ∈ covered cfg cmd → (found i).state ≠ .open))
  | .hook _ _ _ _ _ _ | .alert _ _ | .cactusReset _ _ | .cactusMitig _ | .pendingMitig _
  | .actsCleared _ | .requested _ | .abo _ _ _ | .dreamCross _ | .dreamMitig _ | .abacusCross _
  | .abacusMitig _ | .dreamReset _ _ | .abacusReset _ _ => .isTrue trivial

end Event

namespace ChannelState
variable {cfg : Config} {cmd req : Command}

theorem mem_timingUpdates_sameBank {ty : CommandType} {d : ℤ}
    (hcmd : cmd.cmdType = .activate ∨ cmd.cmdType = .readPrecharge ∨ cmd.cmdType = .writePrecharge ∨
      cmd.cmdType = .precharge) (hd : (ty, d) ∈ cfg.sameBank cmd.cmdType) :
    (cmd.bankId, ty, d) ∈ timingUpdates cfg cmd := by
  have hmem : (cmd.bankId, ty, d) ∈ updateSameBankTiming cmd.addr (cfg.timing.sameBank cmd.cmdType) :=
    mem_onBanks (List.mem_singleton_self _) hd
  obtain h | h | h | h := hcmd <;> rw [timingUpdates, h] <;> rw [h] at hmem <;>
    exact List.mem_append_left _ (List.mem_append_left _ (List.mem_append_left _ hmem))

/-- A precharge registers its delay for all maintenance. -/
theorem mem_closedDelays (toActivate delay : ℤ) (hreq : req.isMaintenance) :
    (req.cmdType, delay) ∈ Config.closedDelays toActivate delay := by
  obtain ⟨ty, _, _⟩ := req
  cases ty <;>
    simp_all [Command.isMaintenance, Command.isRefresh, Command.isRFM, Command.isDRFM,
      Config.closedDelays]

end ChannelState

namespace Chan
variable {cfg : Config} {i : BankId} {π : Micro.Policy} {v v' : Chan}

/-- Once bank `i` is closed, every maintenance of it has to wait for the row cycle. -/
def Cycled (cfg : Config) (i : BankId) (cs : ChannelState) : Prop :=
  (cs.bankStates i).state ≠ .open → ∀ (act : Command) (s : ℕ) o f, .issue act s o f ∈ cs.log →
    act.cmdType = .activate → act.bankId = i → ∀ req : Command, req.isMaintenance →
      (s : ℤ) + (cfg.tRAS + cfg.tRP) ≤ (cs.bankStates i).cmdTiming req.cmdType

/-- The history of a bank that is closed alone, and late enough. -/
structure Kept (cfg : Config) (i : BankId) (log : List Event) : Prop where
  alone : ∀ e ∈ log, e.ClosedAlone cfg i
  late : log.Pairwise (Event.PrechargedLate cfg i)

theorem Kept.of_append {extra log : List Event} (h : Kept cfg i (extra ++ log)) : Kept cfg i log :=
  ⟨fun e he => h.alone e (List.mem_append_right _ he), (List.pairwise_append.mp h.late).2.1⟩

section Issued
variable {cs cs' : ChannelState} {clk : ℕ} {p : Pick}

theorem mem_of_issued (hi : Issued cfg cs p.cmd clk p.origin cs') {act : Command} {s : ℕ} {o : Origin}
    {f : BankId → BankState} (hmem : .issue act s o f ∈ cs'.log) (hne : act ≠ p.cmd) :
    .issue act s o f ∈ cs.log := by
  obtain ⟨extra, hlog, hextra⟩ := hi.log
  rw [hlog, List.mem_append, List.mem_cons] at hmem
  obtain hmem | hmem | hmem := hmem
  · cases hextra _ hmem
  · cases hmem
    exact absurd rfl hne
  · exact hmem

theorem bankId_of_covered {cmd : Command} (hrank : cmd.isRankCMD = false) (hsb : cmd.isSbCMD = false)
    (hcov : i ∈ covered cfg cmd) : cmd.bankId = i := by
  rw [covered_single hrank hsb] at hcov
  exact (List.mem_singleton.mp hcov).symm

/-- Issued commands that leave a closed bank closed. -/
theorem Cycled.stays (hcs : Cycled cfg i cs) (hi : Issued cfg cs p.cmd clk p.origin cs')
    (hclosed : (cs.bankStates i).state ≠ .open)
    (hne : p.cmd.cmdType ≠ .activate ∨ p.cmd.bankId ≠ i) : Cycled cfg i cs' := by
  intro _ act s o f hmem hact hbank req hreq
  have hold : .issue act s o f ∈ cs.log := mem_of_issued hi hmem (by
    rintro rfl
    exact hne.elim (absurd hact) (absurd hbank))
  have hle := hcs hclosed act s o f hold hact hbank req hreq
  have hmono := hi.timing_mono i req.cmdType
  omega

/-- A command that closes the bank alone and registers the rest of the row cycle. -/
theorem cycled_of_closes (hi : Issued cfg cs p.cmd clk p.origin cs') (hbank : p.cmd.bankId = i)
    (hty : p.cmd.cmdType = .readPrecharge ∨ p.cmd.cmdType = .writePrecharge ∨
      p.cmd.cmdType = .precharge) {d : ℤ}
    (hd : ∀ req : Command, req.isMaintenance → (req.cmdType, d) ∈ cfg.sameBank p.cmd.cmdType)
    (hlate : ∀ (act : Command) (s : ℕ) o f, .issue act s o f ∈ cs.log → act.cmdType = .activate →
      act.bankId = i → (s : ℤ) + (cfg.tRAS + cfg.tRP) ≤ clk + d) : Cycled cfg i cs' := by
  intro _ act s o f hmem hact hactBank req hreq
  have hold : .issue act s o f ∈ cs.log := mem_of_issued hi hmem (by
    rintro rfl
    simp [hact] at hty)
  have hdelay : (i, req.cmdType, d) ∈ timingUpdates cfg p.cmd := by
    rw [← hbank]
    exact mem_timingUpdates_sameBank (.inr hty) (hd req hreq)
  have hstored : addDelay clk d ≤ (cs'.bankStates i).cmdTiming req.cmdType := hi.timing _ hdelay
  have hadd := le_addDelay clk d
  have hrow := hlate act s o f hold hact hactBank
  omega

/-- The five ways to close a bank: the first two wait for tRAS by assumption, a PRECHARGE by the delay
that the activation registered, and the precharges of several banks do not come. -/
theorem cycled_of_precharge (hen : cfg.enableSelfRefresh = false) (hmode : cfg.hydraMode ≠ 1)
    (hreg : Registered cfg cs) (hg : Granted cfg cs clk p)
    (hi : Issued cfg cs p.cmd clk p.origin cs')
    (hkept : Kept cfg i (.issue p.cmd clk p.origin cs.bankStates :: cs.log))
    (hcov : i ∈ covered cfg p.cmd) (hopen : (cs.bankStates i).state = .open)
    (hty : p.cmd.cmdType = .readPrecharge ∨ p.cmd.cmdType = .writePrecharge ∨
      p.cmd.cmdType = .precharge ∨ p.cmd.cmdType = .preAb ∨ p.cmd.cmdType = .preSb) :
    Cycled cfg i cs' := by
  have hlate := (List.pairwise_cons.mp hkept.late).1
  have hbank {ty : CommandType} (hty : p.cmd.cmdType = ty)
      (hsingle : ty = .readPrecharge ∨ ty = .writePrecharge ∨ ty = .precharge) : p.cmd.bankId = i := by
    rw [← hty] at hsingle
    refine bankId_of_covered ?_ ?_ hcov <;> obtain h | h | h := hsingle <;>
      simp [Command.isRankCMD, Command.isSbCMD, h]
  obtain hty | hty | hty | hty | hty := hty
  · have hbank := hbank hty (.inl rfl)
    refine cycled_of_closes hi hbank (.inl hty) (d := cfg.readToActivate) (fun req hreq => ?_)
      fun act s o f hmem hact hact' => ?_
    · rw [hty]
      exact mem_closedDelays _ _ hreq
    · have hrow := (hlate _ hmem hbank hact hact').1 hty
      unfold Config.readToActivate Config.readToPrecharge Config.prechargeToActivate
      omega
  · have hbank := hbank hty (.inr (.inl rfl))
    refine cycled_of_closes hi hbank (.inr (.inl hty)) (d := cfg.writeToActivate)
      (fun req hreq => ?_) fun act s o f hmem hact hact' => ?_
    · rw [hty]
      exact mem_closedDelays _ _ hreq
    · have hrow := (hlate _ hmem hbank hact hact').2 hty
      unfold Config.writeToActivate Config.writeToPrecharge Config.prechargeToActivate
      omega
  · refine cycled_of_closes hi (hbank hty (.inr (.inr rfl))) (.inr (.inr hty))
      (d := cfg.prechargeToActivate) (fun req hreq => ?_) fun act s o f hmem hact hact' => ?_
    · rw [hty]
      exact List.mem_append_left _ (mem_closedDelays _ _ hreq)
    · have hdelay : (act.bankId, .precharge, cfg.tRAS) ∈ timingUpdates cfg act := by
        refine mem_timingUpdates_sameBank (.inl hact) ?_
        rw [hact]
        exact List.mem_append_right _ List.mem_cons_self
      have hstored := hreg act s o f hmem _ hdelay
      have hready := hg.timing hen hmode (by simp [hty]) (by simp [hty]) hcov
      have hras := le_addDelay s cfg.tRAS
      rw [hact'] at hstored
      rw [hty] at hready
      have hopened := hstored.trans hready
      unfold Config.prechargeToActivate
      dsimp only at hopened
      omega
  · exact absurd hopen (hkept.alone _ List.mem_cons_self (.inl hty) hcov)
  · exact absurd hopen (hkept.alone _ List.mem_cons_self (.inr hty) hcov)

theorem Cycled.issued (hen : cfg.enableSelfRefresh = false) (hmode : cfg.hydraMode ≠ 1)
    (hcs : Cycled cfg i cs) (hreg : Registered cfg cs) (hg : Granted cfg cs clk p)
    (hi : Issued cfg cs p.cmd clk p.origin cs') (hkept : Kept cfg i cs'.log) : Cycled cfg i cs' := by
  obtain ⟨extra, hlog, _⟩ := hi.log
  rw [hlog] at hkept
  have hkept := hkept.of_append
  by_cases hcov : i ∈ covered cfg p.cmd
  · obtain ⟨b, hb, hstate, _⟩ := hi.legal i hcov
    obtain ⟨hface, hs, _⟩ | ⟨_, hs, hty⟩ | ⟨_, hs, hty⟩ | ⟨hface, _⟩ | ⟨_, hs, hty⟩ | ⟨_, hs, hty⟩ :=
      BankState.updateState_face hb
    · intro hopen
      have : b.state = (cs.bankStates i).state := congrArg BankState.Face.state hface
      exact absurd (hstate.trans (this.trans hs)) hopen
    · exact cycled_of_precharge hen hmode hreg hg hi hkept hcov hs hty
    · exact hcs.stays hi (by simp [hs]) (.inl fun h => by
        simp [Command.isRefresh, Command.isRFM, Command.isDRFM, h] at hty)
    · intro hopen
      have : b.state = .open := congrArg BankState.Face.state hface
      exact absurd (hstate.trans this) hopen
    · exact hcs.stays hi (by simp [hs]) (.inl (by simp [hty]))
    · exact hcs.stays hi (by simp [hs]) (.inl (by simp [hty]))
  · intro hopen
    have hclosed : (cs.bankStates i).state ≠ .open := (hi.frame i hcov).1 ▸ hopen
    have hne : p.cmd.cmdType ≠ .activate ∨ p.cmd.bankId ≠ i := by
      by_contra hboth
      push Not at hboth
      apply hcov
      rw [covered_single (by simp [Command.isRankCMD, hboth.1]) (by simp [Command.isSbCMD, hboth.1]),
        hboth.2]
      exact List.mem_singleton_self _
    exact hcs.stays hi hclosed hne hopen

/-- Without self-refresh and Hydra, maintenance is chosen for closed banks. -/
theorem Granted.closed (h : Granted cfg cs clk p) (hen : cfg.enableSelfRefresh = false)
    (hmode : cfg.hydraMode ≠ 1) (hcmd : p.cmd.isMaintenance) (hi : i ∈ covered cfg p.cmd) :
    (cs.bankStates i).state = .closed := by
  cases h with
  | @column cmd _ hrw =>
    obtain ⟨ty, _, _⟩ := cmd
    cases ty <;> simp_all [Command.isMaintenance, Command.isRefresh, Command.isRFM, Command.isDRFM,
      Command.isReadWrite, Command.isRead, Command.isWrite]
  | precharge hty | activate hty =>
    simp [Command.isMaintenance, Command.isRefresh, Command.isRFM, Command.isDRFM, hty] at hcmd
  | maintain _ _ hall => exact (hall i hi).1
  | prechargeAll =>
    unfold BankState.prechargeFor at hcmd
    split_ifs at hcmd <;>
      simp [Command.isMaintenance, Command.isRefresh, Command.isRFM, Command.isDRFM] at hcmd
  | sref h => simp [hen] at h
  | hydraRFM h => exact absurd h hmode

end Issued

/-- As long as bank `i` is closed alone and late enough, its maintenance keeps the row cycle. -/
structure RowSpaced (cfg : Config) (i : BankId) (v : Chan) : Prop where
  ready : Ready cfg v
  registered : Registered cfg v.cs
  cycled : Kept cfg i v.cs.log → Cycled cfg i v.cs ∧ v.cs.log.Pairwise (Event.RowCycled cfg i)

theorem RowSpaced.step (hen : cfg.enableSelfRefresh = false) (hmode : cfg.hydraMode ≠ 1)
    (hv : RowSpaced cfg i v) (h : Step cfg π v v') : RowSpaced cfg i v' := by
  refine ⟨hv.ready.step h, hv.registered.step h, fun hkept => ⟨?_, ?_⟩⟩
  · obtain ⟨hcores, _, extra, hlog, hextra⟩ | ⟨p, hp, _, hi⟩ := h.cores
    · have hold := (hv.cycled (hlog ▸ hkept).of_append).1
      intro hopen act s o f hmem
      have hsame : (v'.cs.bankStates i).state = (v.cs.bankStates i).state :=
        congrArg BankCore.state (hcores i)
      have htiming : (v'.cs.bankStates i).cmdTiming = (v.cs.bankStates i).cmdTiming :=
        congrArg BankCore.cmdTiming (hcores i)
      rw [hlog, List.mem_append] at hmem
      obtain hmem | hmem := hmem
      · cases hextra _ hmem
      · rw [htiming]
        exact hold (hsame ▸ hopen) act s o f hmem
    · obtain ⟨extra, hlog, _⟩ := hi.log
      rw [← List.singleton_append, ← List.append_assoc] at hlog
      have hold := (hv.cycled (hlog ▸ hkept).of_append).1
      exact hold.issued hen hmode hv.registered (hv.ready.ticket p hp) hi hkept
  · obtain ⟨extra, hlog⟩ : ∃ extra, v'.cs.log = extra ++ v.cs.log := by
      obtain ⟨_, _, extra, hlog, _⟩ | ⟨p, _, _, hi⟩ := h.cores
      · exact ⟨extra, hlog⟩
      · obtain ⟨extra, hlog, _⟩ := hi.log
        exact ⟨extra ++ [_], by rw [hlog, List.append_assoc]; rfl⟩
    obtain ⟨hcycled, hpairs⟩ := hv.cycled (hlog ▸ hkept).of_append
    refine pairwise_step (fun e e' he => ?_) hpairs h fun p act s o f hp hmem hcmd hcov hact hbank => ?_
    · cases e <;> cases e' <;> simp_all [Event.isIssue, Event.RowCycled]
    · have hg := hv.ready.ticket p hp
      have hclosed := hg.closed hen hmode hcmd hcov
      have hrow := hcycled (by simp [hclosed]) act s o f hmem hact hbank p.cmd hcmd
      have hsingle : p.cmd.cmdType ≠ .preAb ∧ p.cmd.cmdType ≠ .preSb := by
        constructor <;> intro hty <;>
          simp [Command.isMaintenance, Command.isRefresh, Command.isRFM, Command.isDRFM, hty] at hcmd
      have hready : (v.cs.bankStates i).cmdTiming p.cmd.cmdType ≤ v.clk :=
        hg.timing hen hmode hsingle.1 hsingle.2 hcov
      omega

theorem rowSpaced_boot (i : BankId) (boot : Boot cfg) :
    RowSpaced cfg i ⟨boot.channelState, 0, none, []⟩ :=
  ⟨ready_boot boot, fun _ _ _ _ h => (nomatch h), fun _ => ⟨fun _ _ _ _ _ h => (nomatch h), .nil⟩⟩

end Chan

/-- Even the earliest access with precharge leaves its row open for tRAS cycles. -/
def Config.LongAccess (cfg : Config) : Prop :=
  cfg.tRAS ≤ cfg.activateToRead + (cfg.AL + cfg.tRTP) ∧
    cfg.tRAS ≤ cfg.activateToWrite + (cfg.WL + cfg.burstCycle + cfg.tWR)

theorem Config.LongAccess.prechargedLate {cfg : Config} (h : cfg.LongAccess) (i : BankId)
    {later earlier : Event} (hrespects : later.Respects cfg earlier) :
    later.PrechargedLate cfg i earlier := by
  cases later with
  | issue cmd t o f =>
    cases earlier with
    | issue act s o' f' =>
      intro hbank hact hact'
      have hdelay {ty : CommandType} {d : ℤ} (hty : cmd.cmdType = ty) (hrank : cmd.isRankCMD = false)
          (hsb : cmd.isSbCMD = false) (hab : ty ≠ .preAb) (hpre : ty ≠ .preSb)
          (hd : (ty, d) ∈ cfg.sameBank .activate) : (s : ℤ) + d ≤ t := by
        subst hty
        have hself : i ∈ covered cfg cmd := by
          rw [Chan.covered_single hrank hsb, hbank]
          exact List.mem_singleton_self i
        refine hrespects hab hpre i hself d ?_
        rw [← hact']
        exact mem_timingUpdates_sameBank (.inl hact) (hact ▸ hd)
      constructor
      · intro hty
        have hread := hdelay hty (by simp [Command.isRankCMD, hty]) (by simp [Command.isSbCMD, hty])
          (by decide) (by decide) (d := cfg.activateToRead)
          (by simp [Config.sameBank, Config.columnDelays])
        have := h.1
        omega
      · intro hty
        have hwrite := hdelay hty (by simp [Command.isRankCMD, hty]) (by simp [Command.isSbCMD, hty])
          (by decide) (by decide) (d := cfg.activateToWrite)
          (by simp [Config.sameBank, Config.columnDelays])
        have := h.2
        omega
    | _ => trivial
  | _ => trivial

/-- Maintenance of a bank that no PREab or PREsb closes keeps the row cycle of tRAS + tRP cycles, if
every READ_PRECHARGE and WRITE_PRECHARGE of the bank comes late enough for tRAS. In general they do
not: their delays to maintenance do not know of the activation. -/
theorem maintenance_after_row_cycle (cfg : Config) (hmode : cfg.hydraMode = 0)
    (hen : cfg.enableSelfRefresh = false) (c : Controller) (h : Reachable cfg c) (i : BankId)
    (halone : ∀ e ∈ c.channelState.log, e.ClosedAlone cfg i)
    (hlate : cfg.LongAccess ∨ c.channelState.log.Pairwise (Event.PrechargedLate cfg i)) :
    c.channelState.log.Pairwise (Event.RowCycled cfg i) := by
  have hne : cfg.hydraMode ≠ 1 := by omega
  have hr := Micro.reached_of_reachable h
  have hspaced := hr.chan_induct (P := Chan.RowSpaced cfg i) (Chan.rowSpaced_boot i)
    fun _ _ hv hs => hv.step hen hne hs
  have hrespects := (hr.chan_induct (P := Chan.Timely cfg) Chan.timely_boot fun _ _ hv hs =>
    hv.step hen hne hs).pairwise
  have hlate : c.channelState.log.Pairwise (Event.PrechargedLate cfg i) := by
    obtain hcfg | hlate := hlate
    · exact hrespects.imp fun hpair => hcfg.prechargedLate i hpair
    · exact hlate
  exact (hspaced.cycled ⟨halone, hlate⟩).2

/-- A close-page bank whose accesses are long enough. -/
def longAccess : Config :=
  { smallConfig with
    rowBufPolicy := .closePage, refreshPolicy := .rankLevelStaggered, tREFI := 8, tRAS := 4, tRCD := 3 }

theorem maintenance_after_row_cycle_small : ∃ c,
    Controller.run longAccess ({} : Boot longAccess).controller
      (List.replicate 2 .clockTick ++ Input.request 0 false 7) = .ok c ∧
    c.channelState.log.filterMap Event.issued? =
      [(.refAb, ⟨0, -1, -1⟩, 8), (.readPrecharge, ⟨0, 0, 0⟩, 6), (.activate, ⟨0, 0, 0⟩, 3)] ∧
    c.channelState.log.Pairwise (Event.RowCycled longAccess ⟨0, 0, 0⟩) := by
  obtain ⟨c, hrun, hc⟩ := exists_ok_of_any
    (x := Controller.run longAccess ({} : Boot longAccess).controller
      (List.replicate 2 .clockTick ++ Input.request 0 false 7))
    (p := fun c => c.channelState.log.filterMap Event.issued? =
        [(.refAb, ⟨0, -1, -1⟩, 8), (.readPrecharge, ⟨0, 0, 0⟩, 6), (.activate, ⟨0, 0, 0⟩, 3)] ∧
      ∀ e ∈ c.channelState.log, e.ClosedAlone longAccess ⟨0, 0, 0⟩) (by decide +kernel)
  obtain ⟨hissued, halone⟩ := of_decide_eq_true hc
  exact ⟨c, hrun, hissued, maintenance_after_row_cycle longAccess rfl rfl c ⟨{}, _, hrun⟩ _ halone
    (.inl ⟨by decide, by decide⟩)⟩

/-- A close-page bank whose rows have to stay open for ten cycles. -/
def shortAccess : Config :=
  { smallConfig with
    rowBufPolicy := .closePage, refreshPolicy := .rankLevelStaggered, tREFI := 8, tRAS := 10 }

/-- The row is activated at cycle 6, precharged with the read at cycle 7 and refreshed at cycle 9. -/
theorem refresh_within_row_cycle : ∃ c,
    Controller.run shortAccess ({} : Boot shortAccess).controller
      (List.replicate 5 .clockTick ++ Input.request 0 false 6) = .ok c ∧
    c.channelState.log.filterMap Event.issued? =
      [(.refAb, ⟨0, -1, -1⟩, 9), (.readPrecharge, ⟨0, 0, 0⟩, 7), (.activate, ⟨0, 0, 0⟩, 6)] ∧
    (∀ e ∈ c.channelState.log, e.ClosedAlone shortAccess ⟨0, 0, 0⟩) ∧
    ¬c.channelState.log.Pairwise (Event.RowCycled shortAccess ⟨0, 0, 0⟩) := by
  obtain ⟨c, hrun, hc⟩ := exists_ok_of_any
    (x := Controller.run shortAccess ({} : Boot shortAccess).controller
      (List.replicate 5 .clockTick ++ Input.request 0 false 6))
    (p := fun c => c.channelState.log.filterMap Event.issued? =
        [(.refAb, ⟨0, -1, -1⟩, 9), (.readPrecharge, ⟨0, 0, 0⟩, 7), (.activate, ⟨0, 0, 0⟩, 6)] ∧
      (∀ e ∈ c.channelState.log, e.ClosedAlone shortAccess ⟨0, 0, 0⟩) ∧
      ¬c.channelState.log.Pairwise (Event.RowCycled shortAccess ⟨0, 0, 0⟩)) (by decide +kernel)
  exact ⟨c, hrun, of_decide_eq_true hc⟩

end CactusDram

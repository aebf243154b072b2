import CactusDram.DualIssue
import CactusDram.RowCycle

/-! The data bus of a channel. The delays between commands are registered bank by bank; together they
keep the bursts of all banks and ranks apart. -/
namespace CactusDram
open Foundations ChannelState

/-- READ, with or without precharge. -/
def CommandType.reads : CommandType → Bool
  | .read | .readPrecharge => true
  | _ => false

/-- A column command that closes its row. -/
def CommandType.closes : CommandType → Bool
  | .readPrecharge | .writePrecharge => true
  | _ => false

namespace Config
variable (cfg : Config)

/-- Cycles from a column command to its burst. -/
def dataDelay (ty : CommandType) : ℤ := if ty.reads then cfg.RL else cfg.WL

/-- The gap after a burst. A read is followed by a write, or by a burst of another rank, only after
tRTRS cycles; so is a write by a read of another rank. -/
def turnaround (earlier later : CommandType) (sameRank : Bool) : ℤ :=
  if earlier.reads && !later.reads || !sameRank && (earlier.reads || later.reads) then cfg.tRTRS else 0

/-- From a column command that closes its row to the next activation. -/
def closeDelay (ty : CommandType) : ℤ := if ty.reads then cfg.readpToAct else cfg.writeToActivate

/-- From an activation to a column command. -/
def openDelay (ty : CommandType) : ℤ := if ty.reads then cfg.activateToRead else cfg.activateToWrite

/-- What the delays rely on. The last line is about a row that a read closes: the next write in its
bank must not overtake the data of the read. -/
structure BusTimed : Prop where
  latency : 0 ≤ cfg.AL ∧ 0 ≤ cfg.CL ∧ 0 ≤ cfg.CWL
  turn : 0 ≤ cfg.tRTRS ∧ 0 ≤ cfg.tWTR_L ∧ 0 ≤ cfg.tWTR_S
  close : 0 ≤ cfg.tRTP ∧ 0 ≤ cfg.tWR ∧ 0 ≤ cfg.tRP
  reopen : 0 ≤ cfg.activateToRead ∧ 0 ≤ cfg.activateToWrite
  overtake : cfg.CL + cfg.tRTRS ≤ cfg.AL + cfg.tRTP + cfg.tRP + cfg.activateToWrite + cfg.CWL

end Config

/-- The burst of a column command starts after the bursts of the earlier ones. -/
def Event.BurstsApart (cfg : Config) (later earlier : Event) : Prop :=
  match later, earlier with
  | .issue cmd t _ _, .issue cmd' s _ _ => cmd.isReadWrite → cmd'.isReadWrite →
    (s : ℤ) + cfg.dataDelay cmd'.cmdType + cfg.burstCycle +
      cfg.turnaround cmd'.cmdType cmd.cmdType (cmd'.rank = cmd.rank) ≤ t + cfg.dataDelay cmd.cmdType
  | _, _ => True

namespace Config.BusTimed
variable {cfg : Config} {ty ty' : CommandType} {d : ℤ}

/-- The delay between column commands of one rank. -/
theorem same (h : cfg.BusTimed) (hty : ty.isColumn) (hty' : ty'.isColumn) {table : TimingTable}
    (htable : table ∈ [cfg.timing.sameBank, cfg.timing.otherBanksSameBankgroup,
      cfg.timing.otherBankgroupsSameRank]) (hd : (ty', d) ∈ table ty) :
    cfg.dataDelay ty + cfg.burstCycle + cfg.turnaround ty ty' true ≤ d + cfg.dataDelay ty' := by
  obtain ⟨hAL, hCL, hCWL⟩ := h.latency
  obtain ⟨hRTRS, hWTR_L, hWTR_S⟩ := h.turn
  have hread : cfg.burstCycle ≤ cfg.readToReadL ∧ cfg.burstCycle ≤ cfg.readToReadS := by
    unfold readToReadL readToReadS
    split_ifs <;> exact ⟨le_max_left _ _, le_max_left _ _⟩
  have hwrite : cfg.burstCycle ≤ cfg.writeToWriteL ∧ cfg.burstCycle ≤ cfg.writeToWriteS := hread
  have hturn : cfg.writeDelay ≤ cfg.writeToReadL ∧ cfg.writeDelay ≤ cfg.writeToReadS := by
    unfold writeToReadL writeToReadS
    split_ifs <;> omega
  simp only [List.mem_cons, List.not_mem_nil, or_false] at htable
  rcases htable with rfl | rfl | rfl <;> cases ty <;> try exact absurd hty Bool.false_ne_true
  all_goals
    cases ty' <;> try exact absurd hty' Bool.false_ne_true
  all_goals
    simp [timing, sameBank, otherBanksSameBankgroup, otherBankgroupsSameRank, columnDelays,
      prechargeDelays, closedDelays] at hd
  all_goals
    subst hd
    simp only [dataDelay, turnaround, CommandType.reads, readToWrite, writeDelay, RL, WL] at *
    simp
    omega

/-- The delay between column commands of different ranks. -/
theorem other (hty : ty.isColumn) (hty' : ty'.isColumn) (hd : (ty', d) ∈ cfg.timing.otherRanks ty) :
    cfg.dataDelay ty + cfg.burstCycle + cfg.turnaround ty ty' false ≤ d + cfg.dataDelay ty' := by
  cases ty <;> try exact absurd hty Bool.false_ne_true
  all_goals
    cases ty' <;> try exact absurd hty' Bool.false_ne_true
  all_goals
    simp [timing, otherRanks, columnDelays] at hd
    subst hd
    simp [dataDelay, turnaround, CommandType.reads, readToReadO, readToWriteO, writeToReadO,
      writeToWriteO, readDelay, writeDelay]
  all_goals omega

/-- A row that was closed by a column command and is opened again. -/
theorem reopened (h : cfg.BusTimed) (hty : ty.closes) (hty' : ty'.isColumn) :
    cfg.dataDelay ty + cfg.burstCycle + cfg.turnaround ty ty' true ≤
      cfg.closeDelay ty + cfg.openDelay ty' + cfg.dataDelay ty' := by
  obtain ⟨hAL, hCL, hCWL⟩ := h.latency
  obtain ⟨hRTP, hWR, hRP⟩ := h.close
  obtain ⟨hread, hwrite⟩ := h.reopen
  have hovertake := h.overtake
  cases ty <;> try exact absurd hty Bool.false_ne_true
  all_goals
    cases ty' <;> try exact absurd hty' Bool.false_ne_true
  all_goals
    simp [dataDelay, turnaround, CommandType.reads, closeDelay, openDelay, readpToAct, writeToActivate,
      writeToPrecharge, prechargeToActivate, RL, WL]
    omega

end Config.BusTimed

namespace Chan
variable {cfg : Config} {π : Micro.Policy} {v v' : Chan}

/-- A row that was closed by a column command delays the next one in its bank by the time it takes to
open it again. -/
def Reopens (cfg : Config) (cs : ChannelState) : Prop :=
  ∀ cmd (s : ℕ) o f, .issue cmd s o f ∈ cs.log → cmd.cmdType.closes →
    (cs.cores cmd.bankId).state = .open → ∀ ty : CommandType, ty.isColumn →
      (s : ℤ) + cfg.closeDelay cmd.cmdType + cfg.openDelay ty ≤ (cs.cores cmd.bankId).cmdTiming ty

section Issued
variable {cs cs' : ChannelState} {clk : ℕ} {p : Pick}

theorem CommandType.isColumn_of_closes {ty : CommandType} (h : ty.closes) : ty.isColumn := by
  cases ty <;> first | rfl | exact absurd h Bool.false_ne_true

/-- What closes its row registers the delay to the next activation. -/
theorem mem_closeDelay {cmd : Command} (h : cmd.cmdType.closes) :
    (cmd.bankId, .activate, cfg.closeDelay cmd.cmdType) ∈ timingUpdates cfg cmd := by
  have hty : cmd.cmdType = .readPrecharge ∨ cmd.cmdType = .writePrecharge := by
    generalize cmd.cmdType = ty at h
    cases ty <;> first | exact .inl rfl | exact .inr rfl | cases h
  refine mem_timingUpdates_sameBank (.inr (hty.imp_right .inl)) ?_
  rcases hty with hty | hty <;> rw [hty] <;> exact List.mem_cons_self

/-- An activation registers the delay to column commands. -/
theorem mem_openDelay {cmd : Command} (h : cmd.cmdType = .activate) {ty : CommandType}
    (hty : ty.isColumn) : (cmd.bankId, ty, cfg.openDelay ty) ∈ timingUpdates cfg cmd := by
  refine mem_timingUpdates_sameBank (.inl h) ?_
  rw [h]
  cases ty <;> first | exact absurd hty Bool.false_ne_true | simp [Config.sameBank, Config.columnDelays,
    Config.openDelay, CommandType.reads]

/-- Only an activation opens a bank. -/
theorem activate_of_opens (hi : Issued cfg cs p.cmd clk p.origin cs') {i : BankId}
    (hclosed : (cs.cores i).state ≠ .open) (hopen : (cs'.cores i).state = .open) :
    p.cmd.cmdType = .activate ∧ p.cmd.bankId = i := by
  by_cases hcov : i ∈ covered cfg p.cmd
  · obtain ⟨b, hb, hstate, _⟩ := hi.legal i hcov
    have hnow : b.face.state = .open := hstate.symm.trans hopen
    rcases BankState.updateState_face hb with ⟨_, h, _⟩ | ⟨_, h, _⟩ | ⟨h, hs, _⟩ | ⟨_, _, h⟩ | ⟨h, _⟩ | ⟨h, _⟩
    · exact absurd h hclosed
    · exact absurd h hclosed
    · rw [h] at hnow
      exact absurd hnow hclosed
    · refine ⟨h, ?_⟩
      rw [covered_single (by simp [Command.isRankCMD, h]) (by simp [Command.isSbCMD, h])] at hcov
      exact (List.mem_singleton.mp hcov).symm
    · rw [h] at hnow
      cases hnow
    · rw [h] at hnow
      cases hnow
  · exact absurd ((hi.frame i hcov).1.symm.trans hopen) hclosed

theorem Reopens.issued (hen : cfg.enableSelfRefresh = false) (hmode : cfg.hydraMode ≠ 1)
    (h : Reopens cfg cs) (hreg : Registered cfg cs) (hg : Granted cfg cs clk p)
    (hi : Issued cfg cs p.cmd clk p.origin cs') : Reopens cfg cs' := by
  intro cmd s o f hmem hclose hopen ty hty
  have hold : .issue cmd s o f ∈ cs.log := by
    refine mem_of_issued hi hmem ?_
    rintro rfl
    -- the command has just closed its bank
    rcases stays_open hi (CommandType.isColumn_of_closes hclose) hopen with hty | hty <;>
      rw [hty] at hclose <;> cases hclose
  by_cases hwas : (cs.cores cmd.bankId).state = .open
  · have hle := h cmd s o f hold hclose hwas ty hty
    have hmono : (cs.cores cmd.bankId).cmdTiming ty ≤ (cs'.cores cmd.bankId).cmdTiming ty :=
      hi.timing_mono cmd.bankId ty
    omega
  · obtain ⟨hact, hbank⟩ := activate_of_opens hi hwas hopen
    have hclosed : addDelay s (cfg.closeDelay cmd.cmdType) ≤ (cs.cores cmd.bankId).cmdTiming .activate :=
      hreg cmd s o f hold _ (mem_closeDelay hclose)
    have hready : (cs.cores cmd.bankId).cmdTiming p.cmd.cmdType ≤ clk := by
      refine hg.timing hen hmode (by simp [hact]) (by simp [hact]) ?_
      rw [covered_single (by simp [Command.isRankCMD, hact]) (by simp [Command.isSbCMD, hact]), hbank]
      exact List.mem_singleton_self _
    have hopened : addDelay clk (cfg.openDelay ty) ≤ (cs'.cores p.cmd.bankId).cmdTiming ty :=
      hi.timing _ (mem_openDelay hact hty)
    rw [hact] at hready
    rw [hbank] at hopened
    have hfirst := le_addDelay s (cfg.closeDelay cmd.cmdType)
    have hsecond := le_addDelay clk (cfg.openDelay ty)
    omega

/-- A chosen column command waits for the bursts of all earlier ones. -/
theorem burst_free (hbus : cfg.BusTimed) (hreg : Registered cfg cs) (hre : Reopens cfg cs)
    (hg : Granted cfg cs clk p) (hrange : cfg.InRange p.cmd.addr) (horigin : p.origin = .demand)
    (hrw : p.cmd.isReadWrite) {cmd : Command} {s : ℕ} {o : Origin} {f : BankId → BankState}
    (hmem : .issue cmd s o f ∈ cs.log) (hcmd : cmd.isReadWrite) :
    (s : ℤ) + cfg.dataDelay cmd.cmdType + cfg.burstCycle +
      cfg.turnaround cmd.cmdType p.cmd.cmdType (cmd.rank = p.cmd.rank) ≤
        clk + cfg.dataDelay p.cmd.cmdType := by
  obtain ⟨hopen, hready⟩ := hg.column_ready hrw horigin
  rw [Command.isReadWrite_eq] at hrw hcmd
  by_cases hown : p.cmd.bankId = cmd.bankId ∧ cmd.cmdType.closes
  · obtain ⟨hbank, hclose⟩ := hown
    have hrank : cmd.rank = p.cmd.rank := congrArg BankId.rank hbank.symm
    have hwait := hre cmd s o f hmem hclose (hbank ▸ hopen) p.cmd.cmdType hrw
    have hdist := hbus.reopened hclose hrw
    rw [← hbank] at hwait
    rw [decide_eq_true hrank]
    omega
  · have hstays (hbank : p.cmd.bankId = cmd.bankId) : cmd.cmdType = .read ∨ cmd.cmdType = .write := by
      have hnot : ¬cmd.cmdType.closes := fun hclose => hown ⟨hbank, hclose⟩
      generalize cmd.cmdType = ty at hcmd hnot
      cases ty <;> first | exact .inl rfl | exact .inr rfl | exact absurd rfl hnot | cases hcmd
    obtain ⟨d, hdist, hd⟩ := exists_delay hcmd hrange hrw hstays
      (P := fun d => cfg.dataDelay cmd.cmdType + cfg.burstCycle +
        cfg.turnaround cmd.cmdType p.cmd.cmdType (cmd.rank = p.cmd.rank) ≤
          d + cfg.dataDelay p.cmd.cmdType)
      (fun hrank table htable d hd => by
        have hsame : cmd.rank = p.cmd.rank := hrank.symm
        rw [decide_eq_true hsame]
        exact hbus.same hcmd hrw htable hd)
      (fun hrank d hd => by
        have hother : cmd.rank ≠ p.cmd.rank := Ne.symm hrank
        rw [decide_eq_false hother]
        exact Config.BusTimed.other hcmd hrw hd)
    have hreg : addDelay s d ≤ (cs.cores p.cmd.bankId).cmdTiming p.cmd.cmdType :=
      hreg cmd s o f hmem _ hd
    have hadd := le_addDelay s d
    omega

end Issued

/-- Column commands are only chosen for demands. -/
def Demanded (cfg : Config) (v : Chan) : Prop :=
  ∀ p, v.ticket = some p → p.cmd.isReadWrite → p.origin = .demand ∧ cfg.InRange p.cmd.addr

theorem Demanded.step (hmode : cfg.hydraMode ≠ 1) (hready : Ready cfg v) (hv : Demanded cfg v)
    (h : Step cfg π v v') : Demanded cfg v' := by
  cases h with
  | environment | requestRefresh => exact hv
  | tick | query | hydraQuery | issue | drop | tock => exact fun p hp => nomatch hp
  | pick _ hs _ h =>
    intro p hp hrw
    cases hp
    exact demanded_of_answer hready.regular hs h hrw
  | pickHydra _ h =>
    obtain ⟨h₁, h₂, h₃⟩ := hready.regular.hydraOff hmode
    rw [getReadyHydraCommand_off h₃ h₁ h₂] at h
    cases h

/-- All bursts so far are apart, and the delays that keep the next one apart are in force. -/
structure Bused (cfg : Config) (v : Chan) : Prop where
  ready : Ready cfg v
  registered : Registered cfg v.cs
  reopens : Reopens cfg v.cs
  demanded : Demanded cfg v
  apart : v.cs.log.Pairwise (Event.BurstsApart cfg)

theorem Bused.step (hbus : cfg.BusTimed) (hen : cfg.enableSelfRefresh = false) (hmode : cfg.hydraMode ≠ 1)
    (hv : Bused cfg v) (h : Step cfg π v v') : Bused cfg v' := by
  refine ⟨hv.ready.step h, hv.registered.step h, ?_, hv.demanded.step hmode hv.ready h, ?_⟩
  · obtain ⟨hcores, _, extra, hlog, hextra⟩ | ⟨p, hp, _, hi⟩ := h.cores
    · intro cmd s o f hmem
      rw [hcores]
      rw [hlog, List.mem_append] at hmem
      rcases hmem with hmem | hmem
      · cases hextra _ hmem
      · exact hv.reopens cmd s o f hmem
    · exact hv.reopens.issued hen hmode hv.registered (hv.ready.ticket p hp) hi
  · refine pairwise_step (fun e e' he => ?_) hv.apart h fun p cmd s o f hp hmem hrw hcmd => ?_
    · cases e <;> cases e' <;> simp_all [Event.isIssue, Event.BurstsApart]
    · obtain ⟨horigin, hrange⟩ := hv.demanded p hp hrw
      exact burst_free hbus hv.registered hv.reopens (hv.ready.ticket p hp) hrange horigin hrw hmem hcmd

theorem bused_boot (boot : Boot cfg) : Bused cfg ⟨boot.channelState, 0, none, []⟩ :=
  ⟨ready_boot boot, fun _ _ _ _ h => (nomatch h), fun _ _ _ _ h => (nomatch h), fun _ h => (nomatch h), .nil⟩

end Chan

/-- In every run the data bus carries one burst at a time, whatever banks and ranks the commands address
and whatever maintenance comes between them. -/
theorem bursts_apart {cfg : Config} (hbus : cfg.BusTimed) (hmode : cfg.hydraMode = 0)
    (hen : cfg.enableSelfRefresh = false) {c : Controller} (h : Reachable cfg c) :
    c.channelState.log.Pairwise (Event.BurstsApart cfg) := by
  have hne : cfg.hydraMode ≠ 1 := by omega
  have hr := Micro.reached_of_reachable h
  exact (hr.chan_induct (P := Chan.Bused cfg) Chan.bused_boot fun _ _ hv hs =>
    hv.step hbus hen hne hs).apart

/-- Reads take three cycles to their data, bursts two, and every access closes its row. -/
def slowReads : Config :=
  { smallConfig with CL := 3, burstCycle := 2, rowBufPolicy := .closePage, unifiedQueue := true }

/-- A write in the bank that a read has just closed. -/
def reopenInputs : List Input := Input.request 0 false 4 ++ Input.request 2 true 9

theorem bursts_apart_small : ∃ c,
    Controller.run slowReads ({} : Boot slowReads).controller reopenInputs = .ok c ∧
    c.channelState.log.filterMap Event.issued? =
      [(.writePrecharge, ⟨0, 0, 0⟩, 7), (.activate, ⟨0, 0, 0⟩, 6), (.readPrecharge, ⟨0, 0, 0⟩, 2),
        (.activate, ⟨0, 0, 0⟩, 1)] ∧
    c.channelState.log.Pairwise (Event.BurstsApart slowReads) := by
  obtain ⟨c, hrun, hc⟩ := exists_ok_of_any
    (x := Controller.run slowReads ({} : Boot slowReads).controller reopenInputs)
    (p := fun c => c.channelState.log.filterMap Event.issued? =
      [(.writePrecharge, ⟨0, 0, 0⟩, 7), (.activate, ⟨0, 0, 0⟩, 6), (.readPrecharge, ⟨0, 0, 0⟩, 2),
        (.activate, ⟨0, 0, 0⟩, 1)]) (by decide +kernel)
  exact ⟨c, hrun, of_decide_eq_true hc, bursts_apart ⟨by decide, by decide, by decide, by decide, by decide⟩
    rfl rfl ⟨{}, _, hrun⟩⟩

end CactusDram

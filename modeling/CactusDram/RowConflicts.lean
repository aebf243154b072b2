import CactusDram.Foundations.Epochs
import CactusDram.Channel.Banks
import CactusDram.DataBus

/-! Row conflicts. A row that is still hit gives way to another request of its bank only after four
accesses, and only to the oldest one. -/
namespace CactusDram
open Foundations

namespace Event
variable (i : BankId)

/-- An access to the open row of bank `i`. -/
def hitsRow : Event → Bool
  | .issue cmd _ _ _ => (cmd.cmdType = .read || cmd.cmdType = .write) && cmd.bankId = i
  | _ => false

def opensRow : Event → Bool
  | .issue cmd _ _ _ => cmd.cmdType = .activate && cmd.bankId = i
  | _ => false

end Event

/-- The accesses to bank `i` since it was last activated. -/
def rowHits (i : BankId) : List Event → ℕ := current (Event.hitsRow i) (Event.opensRow i)

theorem rowHits_append {i : BankId} {extra : List Event} (hextra : ∀ e ∈ extra, e.isIssue = false)
    (log : List Event) : rowHits i (extra ++ log) = rowHits i log := by
  induction extra with
  | nil => rfl
  | cons e extra ih =>
    have hnone : e.hitsRow i = false ∧ e.opensRow i = false := by
      have he := hextra e List.mem_cons_self
      cases e <;> first | exact ⟨rfl, rfl⟩ | cases he
    rw [List.cons_append, rowHits, current_cons_of_not_reset hnone.2, hnone.1]
    exact ih fun e' he' => hextra e' (List.mem_cons_of_mem e he')

namespace BankState
variable {cfg : Config} {b b' : BankState} {cmd : Command}

theorem rowHitCount_eq_of_core (h : b'.toBankCore = b.toBankCore) : b'.rowHitCount = b.rowHitCount :=
  congrArg BankCore.rowHitCount h

@[simp] theorem rfmAbServed_rowHitCount : (b.rfmAbServed cfg).rowHitCount = b.rowHitCount := by
  obtain ⟨_, _, _, h⟩ := b.rfmAbServed_eq cfg
  rw [h]

@[simp] theorem drfmServed_rowHitCount : (b.drfmServed cfg).rowHitCount = b.rowHitCount := by
  unfold drfmServed
  dsimp only
  rw [rfmAbServed_rowHitCount]
  exact rowHitCount_eq_of_core trackersMitig_core

@[simp] theorem refreshed_rowHitCount : (b.refreshed cfg).rowHitCount = b.rowHitCount := by
  have hprac (b : BankState) : ((b.moatRefresh cfg).pracRefresh cfg).rowHitCount = b.rowHitCount := by
    unfold pracRefresh moatRefresh
    split_ifs <;> rfl
  unfold refreshed
  dsimp only
  split_ifs
  · rw [hprac, rowHitCount_eq_of_core (hydraRefresh_core ..), rowHitCount_eq_of_core (grapheneRefresh_core ..)]
  · rfl

@[simp] theorem activated_rowHitCount : (b.activated cfg cmd).rowHitCount = b.rowHitCount := by
  unfold activated moatAct drfmPostAct
  dsimp only
  split_ifs <;> dsimp only <;> split <;> rfl

/-- Accesses are counted while the row is open; closing it clears the count. -/
theorem updateState_rowHits (h : b.updateState cfg cmd = .ok b') :
    (cmd.cmdType = .read ∨ cmd.cmdType = .write) ∧ b'.state = .open ∧ b.state = .open ∧
        b'.rowHitCount = b.rowHitCount + 1 ∨
      b.state = .open ∧ b'.state ≠ .open ∧ b'.rowHitCount = 0 ∨
      b.state ≠ .open ∧ b'.rowHitCount = b.rowHitCount := by
  obtain ⟨ty, addr, hex⟩ := cmd
  unfold updateState at h
  dsimp only at h
  cases hs : b.state with
  | «open» =>
    rw [hs] at h
    cases ty <;> cases h <;> simp [closeRow]
  | closed =>
    rw [hs] at h
    refine .inr (.inr ⟨State.noConfusion, ?_⟩)
    cases ty <;> cases h <;> first | rfl | simp
  | sref =>
    rw [hs] at h
    cases ty <;> cases h
    exact .inr (.inr ⟨State.noConfusion, rfl⟩)
  | pd | size =>
    rw [hs] at h
    cases h

end BankState

namespace Chan
open ChannelState
variable {cfg : Config} {i : BankId} {π : Micro.Policy} {v v' : Chan}

/-- The counter of a bank in view of the history. -/
structure HitsCounted (i : BankId) (cs : ChannelState) : Prop where
  opened : (cs.bankStates i).state = .open → (cs.bankStates i).rowHitCount = rowHits i cs.log
  closed : (cs.bankStates i).state ≠ .open → (cs.bankStates i).rowHitCount = 0

theorem HitsCounted.congr {cs cs' : ChannelState} (h : HitsCounted i cs)
    (hcore : (cs'.cores i) = cs.cores i) {extra : List Event} (hlog : cs'.log = extra ++ cs.log)
    (hextra : ∀ e ∈ extra, e.isIssue = false) : HitsCounted i cs' := by
  have hstate : (cs'.bankStates i).state = (cs.bankStates i).state := congrArg BankCore.state hcore
  have hcount : (cs'.bankStates i).rowHitCount = (cs.bankStates i).rowHitCount :=
    congrArg BankCore.rowHitCount hcore
  refine ⟨fun hopen => ?_, fun hclosed => ?_⟩
  · rw [hcount, hlog, rowHits_append hextra]
    exact h.opened (hstate ▸ hopen)
  · rw [hcount]
    exact h.closed (hstate ▸ hclosed)

theorem HitsCounted.issue {cs cs' : ChannelState} {cmd : Command} {clk : ℕ} {origin : Origin}
    (h : HitsCounted i cs) (hissue : cs.updateTimingAndStates cfg cmd clk origin = .ok cs') :
    HitsCounted i cs' := by
  have hi := updateTimingAndStates_issued hissue
  obtain ⟨extra, hlog, hextra⟩ := hi.log
  obtain ⟨b, hin, hout, hleft⟩ := updateTimingAndStates_banks hissue i
  obtain ⟨_, _, _, hleft⟩ := hleft.eq
  have hkept : (cs'.bankStates i).state = b.state ∧ (cs'.bankStates i).rowHitCount = b.rowHitCount := by
    rw [hleft]
    exact ⟨rfl, rfl⟩
  have hrows : rowHits i cs'.log = rowHits i (.issue cmd clk origin cs.bankStates :: cs.log) := by
    rw [hlog, rowHits_append fun e he => Event.isIssue_of_internal (hextra e he)]
  by_cases hcov : i ∈ covered cfg cmd
  · rcases BankState.updateState_rowHits (hin hcov) with ⟨hty, hstays, hopen, hcount⟩ |
      ⟨_, hclosed, hzero⟩ | ⟨hclosed, hcount⟩
    · have hbank : cmd.bankId = i := by
        refine bankId_of_covered ?_ ?_ hcov <;> rcases hty with hty | hty <;>
          simp [Command.isRankCMD, Command.isSbCMD, hty]
      refine ⟨fun _ => ?_, fun hnot => absurd (hkept.1.trans hstays) hnot⟩
      have hevent : Event.hitsRow i (.issue cmd clk origin cs.bankStates) = true ∧
          Event.opensRow i (.issue cmd clk origin cs.bankStates) = false := by
        rcases hty with hty | hty <;> simp [Event.hitsRow, Event.opensRow, hty, hbank]
      rw [hrows, rowHits, current_cons_of_not_reset hevent.2, hevent.1, hkept.2, hcount, h.opened hopen]
      rfl
    · exact ⟨fun hopen => absurd (hkept.1.symm.trans hopen) hclosed, fun _ => hkept.2.trans hzero⟩
    · have hnow : (cs'.bankStates i).rowHitCount = 0 := hkept.2.trans (hcount.trans (h.closed hclosed))
      refine ⟨fun hopen => ?_, fun _ => hnow⟩
      obtain ⟨hact, hbank⟩ := activate_of_opens (p := ⟨cmd, origin⟩) hi hclosed hopen
      have hevent : Event.opensRow i (.issue cmd clk origin cs.bankStates) = true := by
        dsimp only at hact hbank
        simp [Event.opensRow, hact, hbank]
      rw [hnow, hrows, rowHits, current_cons_of_reset hevent]
  · rw [hout hcov] at hkept
    have hother (hty : (cmd.cmdType = .read ∨ cmd.cmdType = .write) ∨ cmd.cmdType = .activate) :
        cmd.bankId ≠ i := by
      rintro rfl
      apply hcov
      rw [covered_single] <;> rcases hty with (hty | hty) | hty <;>
        simp [Command.isRankCMD, Command.isSbCMD, hty]
    have hevent : Event.hitsRow i (.issue cmd clk origin cs.bankStates) = false ∧
        Event.opensRow i (.issue cmd clk origin cs.bankStates) = false := by
      constructor
      · by_contra hhit
        simp only [Event.hitsRow, Bool.not_eq_false, Bool.and_eq_true, Bool.or_eq_true,
          decide_eq_true_eq] at hhit
        exact hother (.inl hhit.1) hhit.2
      · by_contra hopens
        simp only [Event.opensRow, Bool.not_eq_false, Bool.and_eq_true, decide_eq_true_eq] at hopens
        exact hother (.inr hopens.1) hopens.2
    have hsame : rowHits i cs'.log = rowHits i cs.log := by
      rw [hrows, rowHits, current_cons_of_not_reset hevent.2, hevent.1]
      rfl
    refine ⟨fun hopen => ?_, fun hclosed => ?_⟩
    · rw [hkept.2, hsame]
      exact h.opened (hkept.1 ▸ hopen)
    · rw [hkept.2]
      exact h.closed (hkept.1 ▸ hclosed)

theorem hitsCounted_step (hv : HitsCounted i v.cs) (h : Step cfg π v v') : HitsCounted i v'.cs := by
  cases h with
  | environment => exact hv.congr rfl (List.nil_append _).symm fun _ he => absurd he List.not_mem_nil
  | drop | tock => exact hv
  | requestRefresh => exact hv.congr rfl List.singleton_append.symm (by simp [Event.isIssue])
  | tick =>
    obtain ⟨extra, hlog, hextra⟩ := queried_clockTick.log
    exact hv.congr (queried_clockTick.cores i) hlog hextra
  | query _ h | pick _ _ _ h =>
    obtain ⟨extra, hlog, hextra⟩ := h.queried.log
    exact hv.congr (h.queried.cores i) hlog hextra
  | hydraQuery h | pickHydra _ h =>
    have hq := queried_getReadyHydraCommand h
    obtain ⟨extra, hlog, hextra⟩ := hq.log
    exact hv.congr (hq.cores i) hlog hextra
  | issue h => exact hv.issue h

end Chan

/-- The answer to an access is about its bank. -/
theorem bankId_of_answer {cfg : Config} {cs cs' : ChannelState} {cmd r : Command} {clk : ℕ}
    (hrw : cmd.isReadWrite) (h : cs.Answer cfg cmd clk (some r) cs') : cmd.bankId = r.bankId := by
  obtain ⟨hrank, hsb⟩ := Chan.not_multi_of_isReadWrite hrw
  cases h with
  | divert hm | allReady hm => simp [hrank, hsb] at hm
  | single _ h =>
    obtain ⟨_, _, _, rfl⟩ := BankState.getReadyCommand_some_iff.mp h
    rfl
  | activate => rfl

/-- Whenever a PRECHARGE is chosen for a queued request, the request is the oldest of its bank; and either
nothing that is queued hits the open row any more, or the row has been accessed at least four times since
it was opened. -/
theorem conflicts_wait {cfg : Config} {m m' : Micro} (hm : Micro.Reached cfg .free m)
    (hs : Micro.Step cfg .free m m') {p : Pick} (hnone : m.ticket = none) (hp : m'.ticket = some p)
    (horigin : p.origin = .demand) (hpre : p.cmd.cmdType = .precharge) :
    ∃ before cmd after, m.ctl.cmdQueue.queues m.ctl.cmdQueue.queueIdx = before ++ cmd :: after ∧
      cmd.bankId = p.cmd.bankId ∧ (∀ x ∈ before, x.bankId ≠ p.cmd.bankId) ∧
      ((∀ idx, ∀ x ∈ m.ctl.cmdQueue.queues idx, x.bankId = p.cmd.bankId →
          x.row ≠ (m.ctl.channelState.bankStates p.cmd.bankId).openRow) ∨
        4 ≤ rowHits p.cmd.bankId m.ctl.channelState.log) := by
  have hcount : Chan.HitsCounted p.cmd.bankId m.chan.cs :=
    hm.chan_induct (P := fun v => Chan.HitsCounted p.cmd.bankId v.cs)
      (fun _ => ⟨fun _ => rfl, fun _ => rfl⟩) fun _ _ hv hs => Chan.hitsCounted_step hv hs
  have hwell := hm.wellQueued
  cases hs with
  | pickMaintenance _ ho =>
    cases hp
    exact absurd horigin ho
  | @pickQueued c _ _ cs' q' _ hc _ =>
    cases hp
    cases hc with
    | hydra => cases horigin
    | @demand before cmd after r cs' hq _ h hprecharge _ =>
      obtain ⟨_, hrw, _⟩ := hwell _ cmd (hq ▸ List.mem_append_right _ List.mem_cons_self)
      have hans := ChannelState.getReadyCommand_answer h
      have hty : r.cmdType = .precharge := hpre
      obtain rfl : cs' = c.channelState := hans.eq_of_ne_activate (by simp [hty])
      have hbank : cmd.bankId = r.bankId := bankId_of_answer hrw hans
      have harb := hprecharge hpre
      simp only [CommandQueue.arbitratePrecharge, Bool.and_eq_true, Bool.or_eq_true, Bool.not_eq_true',
        decide_eq_true_eq, List.any_eq_false] at harb
      obtain ⟨holdest, hdone⟩ := harb
      refine ⟨before, cmd, after, hq, hbank, fun x hx => hbank ▸ holdest x hx, hdone.imp ?_ ?_⟩
      · -- the requests of the bank are all in the queue in turn, from this one on
        intro hmiss idx x hx hxbank hrow
        obtain ⟨hidx, _⟩ := hwell idx x hx
        obtain ⟨hturn, _⟩ := hwell _ cmd (hq ▸ List.mem_append_right _ List.mem_cons_self)
        have hsame : idx = c.cmdQueue.queueIdx := by
          rw [hidx, hxbank, hturn, hbank]
        change x ∈ c.cmdQueue.queues idx at hx
        rw [hsame, hq, List.mem_append] at hx
        rcases hx with hx | hx
        · exact holdest x hx (hxbank.trans hbank.symm)
        · refine hmiss x hx ⟨?_, hxbank.trans hbank.symm⟩
          rw [hbank]
          exact hrow
      · intro hfour
        rw [hbank] at hfour
        by_cases hopen : (c.channelState.bankStates r.bankId).state = .open
        · exact hfour.trans (hcount.opened hopen).le
        · have hzero : (c.channelState.bankStates r.bankId).rowHitCount = 0 := hcount.closed hopen
          omega
  | issue => cases hnone
  | _ => cases hp

/-- A request for row 0 that is served, and one for row 1 of the bank behind it. -/
def conflicting : List Input := Input.request 0 false 4 ++ Input.request 2 false 1

def rowOne (ty : CommandType) : Command := ⟨ty, ⟨0, 0, 0, 0, 1, 0⟩, 2⟩

/-- Row 0 was read once. It is closed for the only request that is queued. -/
theorem conflicts_wait_small : ∃ c, Reachable smallConfig c ∧
    rowHits ⟨0, 0, 0⟩ c.channelState.log = 1 ∧
    (∃ m', Micro.Step smallConfig .free (.rest c) m' ∧ m'.ticket = some ⟨rowOne .precharge, .demand⟩) ∧
    (∃ before cmd after, c.cmdQueue.queues c.cmdQueue.queueIdx = before ++ cmd :: after ∧
      cmd.bankId = ⟨0, 0, 0⟩ ∧ ∀ x ∈ before, x.bankId ≠ ⟨0, 0, 0⟩) ∧
    ∀ x ∈ c.cmdQueue.queues 0, x.row ≠ (c.channelState.bankStates ⟨0, 0, 0⟩).openRow := by
  obtain ⟨c, hrun, hc⟩ := exists_ok_of_any
    (x := Controller.run smallConfig ({} : Boot smallConfig).controller conflicting)
    (p := fun c => c.cmdQueue.queueIdx = 0 ∧ c.cmdQueue.queues 0 = [rowOne .read] ∧
      c.cmdQueue.blocked = false ∧ rowHits ⟨0, 0, 0⟩ c.channelState.log = 1 ∧
      CommandQueue.arbitratePrecharge c.channelState [] (rowOne .read) [] ∧
      (c.channelState.getReadyCommand smallConfig (rowOne .read) c.clk).toOption.any fun x =>
        x.1 = some (rowOne .precharge)) (by decide +kernel)
  obtain ⟨hidx, hqueue, hblocked, hhits, harb, hready⟩ := of_decide_eq_true hc
  obtain ⟨⟨r, cs'⟩, hget, hr⟩ := exists_ok_of_any hready
  obtain rfl : r = some (rowOne .precharge) := of_decide_eq_true hr
  obtain rfl : cs' = c.channelState :=
    (ChannelState.getReadyCommand_answer hget).eq_of_ne_activate (by simp [rowOne])
  have hreach : Reachable smallConfig c := ⟨{}, _, hrun⟩
  have hq : c.cmdQueue.queues c.cmdQueue.queueIdx = [] ++ rowOne .read :: [] := by rw [hidx, hqueue]; rfl
  have htaken : Controller.Taken smallConfig c.cmdQueue (rowOne .precharge) c.cmdQueue := rfl
  have hs : Micro.Step smallConfig .free (.rest c) _ := .pickQueued (.inl rfl)
    (.demand hq hblocked hget (fun _ => harb) fun h => absurd h (by decide)) htaken
  obtain ⟨before, cmd, after, hqueued, hbank, holdest, hwhy⟩ :=
    conflicts_wait (Micro.reached_of_reachable hreach) hs rfl rfl rfl rfl
  refine ⟨c, hreach, hhits, ⟨_, hs, rfl⟩, ⟨before, cmd, after, hqueued, hbank, holdest⟩, ?_⟩
  rcases hwhy with hmiss | (hmany : 4 ≤ rowHits ⟨0, 0, 0⟩ c.channelState.log)
  · intro x hx
    refine hmiss 0 x hx ?_
    rw [hqueue, List.mem_singleton] at hx
    subst hx
    rfl
  · omega
end CactusDram

import CactusDram.Steps

/-! The part of the atomic steps that concerns the channel: the queues of the controller are
abstracted to the commands they can ask for. -/
namespace CactusDram
open Foundations Relation

namespace CommandQueue
variable {cfg : Config} {q q' : CommandQueue} {cmd : Command}

/-- Every decoded address has its queue. -/
theorem getQueueIndex_lt (cfg : Config) (addr : HexAddr) :
    ∃ n : ℕ, n < numQueues cfg ∧ getQueueIndex cfg (cfg.addressMapping addr).bankId = n := by
  obtain ⟨⟨r, hr, hr'⟩, ⟨g, hg, hg'⟩, ⟨b, hb, hb'⟩, _⟩ := cfg.addressMapping_inRange addr
  unfold getQueueIndex numQueues Address.bankId Config.banks
  simp only [hr', hg', hb']
  cases cfg.queueStructure with
  | perRank => exact ⟨r, hr, rfl⟩
  | perBank =>
    refine ⟨r * (cfg.bankgroups * cfg.banksPerGroup) + g * cfg.banksPerGroup + b, ?_, by push_cast; rfl⟩
    nlinarith [Nat.mul_le_mul_right cfg.banksPerGroup (Nat.succ_le_of_lt hg),
      Nat.mul_le_mul_right (cfg.bankgroups * cfg.banksPerGroup) (Nat.succ_le_of_lt hr)]

/-- Every queued command is a READ or WRITE of its own address, in the queue of its bank. -/
def WellQueued (cfg : Config) (q : CommandQueue) : Prop :=
  ∀ idx, ∀ cmd ∈ q.queues idx, idx = getQueueIndex cfg cmd.bankId ∧ cmd.isReadWrite ∧
    cmd.addr = cfg.addressMapping cmd.hexAddr

theorem WellQueued.of_sublist (h : WellQueued cfg q)
    (hsub : ∀ idx, (q'.queues idx).Sublist (q.queues idx)) : WellQueued cfg q' :=
  fun idx cmd hcmd => h idx cmd ((hsub idx).mem hcmd)

/-- A queued command is found in its own queue. -/
theorem WellQueued.any_same (h : WellQueued cfg q) {idx : ℤ} {before after : List Command}
    (hq : q.queues idx = before ++ cmd :: after) : (q.getQueue cfg cmd.bankId).any (fun c : Command =>
      cmd.hexAddr = c.hexAddr && cmd.cmdType = c.cmdType) := by
  obtain ⟨hidx, _⟩ := h idx cmd (by simp [hq])
  rw [getQueue, ← hidx, hq]
  simp

theorem eraseRWCommand_sublist (h : q.eraseRWCommand cfg cmd = .ok q') (idx : ℤ) :
    (q'.queues idx).Sublist (q.queues idx) := by
  unfold eraseRWCommand setQueue at h
  dsimp only at h
  split_ifs at h <;> cases h
  · by_cases hidx : idx = getQueueIndex cfg cmd.bankId
    · subst hidx
      simpa [getQueue] using List.eraseP_sublist
    · simp [Function.update_of_ne hidx]
  · exact .refl _

theorem mem_addCommand {cmd' : Command} {idx : ℤ} (h : cmd' ∈ (q.addCommand cfg cmd).queues idx) :
    cmd' ∈ q.queues idx ∨ idx = getQueueIndex cfg cmd.bankId ∧ cmd' = cmd := by
  unfold CommandQueue.addCommand setQueue at h
  split_ifs at h
  · by_cases hidx : idx = getQueueIndex cfg cmd.bankId
    · subst hidx
      simp only [Function.update_self, List.mem_append, List.mem_singleton] at h
      exact h.imp_right fun h => ⟨rfl, h⟩
    · simp only [Function.update_of_ne hidx] at h
      exact .inl h
  · exact .inl h

theorem WellQueued.addCommand (h : WellQueued cfg q) (hrw : cmd.isReadWrite)
    (haddr : cmd.addr = cfg.addressMapping cmd.hexAddr) : WellQueued cfg (q.addCommand cfg cmd) := by
  intro idx cmd' hcmd'
  rcases mem_addCommand hcmd' with hold | ⟨rfl, rfl⟩
  · exact h idx cmd' hold
  · exact ⟨rfl, hrw, haddr⟩

end CommandQueue

namespace Micro
open Controller
variable {cfg : Config} {π : Policy} {m m' : Micro}

theorem Step.wellQueued (hm : m.ctl.cmdQueue.WellQueued cfg) (h : Step cfg π m m') :
    m'.ctl.cmdQueue.WellQueued cfg := by
  cases h with
  | others | refreshTick | channelTick | startRefresh | startRFM | rotate | query | hydraQuery
  | drop | endTick => exact hm
  | @accept c addr isWrite =>
    obtain ⟨_, _, _, _, _, _, _, heq⟩ := c.addTransaction_eq cfg addr isWrite
    rw [heq]
    exact hm
  | returnDone c clk =>
    obtain ⟨_, _, heq⟩ := c.returnDoneTrans_eq clk
    rw [heq]
    exact hm
  | pickMaintenance => exact hm.of_sublist fun idx => by rw [withCmdQueue, (settled_frame _ _).1]
  | pickQueued _ _ hq =>
    unfold Taken at hq
    split_ifs at hq
    · exact hm.of_sublist (CommandQueue.eraseRWCommand_sublist hq)
    · subst hq
      exact hm
  | issue h =>
    obtain ⟨_, _, _, _, _, rfl⟩ := issueCommand_frame h
    exact hm
  | powerUpdate c =>
    obtain ⟨f, heq⟩ := c.powerUpdate_eq cfg
    rw [heq]
    exact hm
  | schedule c =>
    obtain ⟨s, heq, hs⟩ := c.scheduleTransaction_eq cfg
    have hset : (c.setLane (c.lane cfg) s).cmdQueue = s.cmdQueue := by
      cases c.lane cfg <;> rfl
    rw [heq]
    dsimp only
    rw [hset]
    cases hs with
    | nothing | conflict => exact hm
    | moved => exact CommandQueue.WellQueued.addCommand hm (by simp [Command.isReadWrite]) rfl

theorem Reached.wellQueued (h : Reached cfg π m) : m.ctl.cmdQueue.WellQueued cfg :=
  h.induct (P := fun m => m.ctl.cmdQueue.WellQueued cfg) (fun _ _ _ h => nomatch h)
    fun _ _ hm h => h.wellQueued hm

end Micro

/-- What of a controller concerns its channel. -/
structure Chan where
  cs : ChannelState
  clk : ℕ
  ticket : Option Pick
  issued : List Command

def Micro.chan (m : Micro) : Chan := ⟨m.ctl.channelState, m.ctl.clk, m.ticket, m.issued⟩

namespace Chan

/-- The requests that a channel is asked to get ready for. -/
inductive Asks (cfg : Config) (cs : ChannelState) : Command → Origin → Prop
  | refresh {ref rest} (hq : cs.refreshQ = ref :: rest) : Asks cfg cs ref (.refresh ref)
  | rfm {rfm rest} (hq : cs.rfmQ = rfm :: rest) : Asks cfg cs rfm (.rfm rfm)
  | demand {cmd} (hrw : cmd.isReadWrite) (haddr : cmd.addr = cfg.addressMapping cmd.hexAddr) :
      Asks cfg cs cmd .demand
  | sref {rank : ℕ} {ty} (hr : rank < cfg.ranks) (hen : cfg.enableSelfRefresh)
      (hty : ty = .srefEnter ∨ ty = .srefExit) :
      Asks cfg cs ⟨ty, { rank := rank }, noAddr⟩ (.sref ⟨ty, { rank := rank }, noAddr⟩)

inductive Step (cfg : Config) (π : Micro.Policy) : Chan → Chan → Prop
  | environment {cs clk issued} (rcc draws idle) : Step cfg π ⟨cs, clk, none, issued⟩
      ⟨{ cs with rcc := rcc, draws := draws, rankIdleCycles := idle }, clk, none, issued⟩
  | requestRefresh {cs clk issued req} (hreq : req.isRefresh) : Step cfg π ⟨cs, clk, none, issued⟩
      ⟨cs.addRefresh req, clk, none, issued⟩
  | tick (cs clk issued) : Step cfg π ⟨cs, clk, none, issued⟩ ⟨cs.clockTick cfg clk, clk, none, issued⟩
  | query {cs clk issued cmd origin cs'} (hs : Asks cfg cs cmd origin)
      (h : cs.Answer cfg cmd clk none cs') :
      Step cfg π ⟨cs, clk, none, issued⟩ ⟨cs', clk, none, issued⟩
  | hydraQuery {cs clk issued cs'} (h : cs.getReadyHydraCommand cfg clk = .ok (none, cs')) :
      Step cfg π ⟨cs, clk, none, issued⟩ ⟨cs', clk, none, issued⟩
  | pick {cs clk issued cmd origin r cs'} (hmay : Micro.MayPick cfg issued)
      (hs : Asks cfg cs cmd origin)
      (hg : origin = .refresh cmd ∨ origin = .rfm cmd → π.grant cs clk cmd)
      (h : cs.Answer cfg cmd clk (some r) cs') :
      Step cfg π ⟨cs, clk, none, issued⟩ ⟨cs', clk, some ⟨r, origin⟩, issued⟩
  | pickHydra {cs clk issued r cs'} (hmay : Micro.MayPick cfg issued)
      (h : cs.getReadyHydraCommand cfg clk = .ok (some r, cs')) :
      Step cfg π ⟨cs, clk, none, issued⟩ ⟨cs', clk, some ⟨r, .hydra⟩, issued⟩
  | issue {cs clk p issued cs'}
      (h : cs.updateTimingAndStates cfg p.cmd clk p.origin = .ok cs') :
      Step cfg π ⟨cs, clk, some p, issued⟩ ⟨cs', clk, none, p.cmd :: issued⟩
  | drop {cs clk p first} (hdual : cfg.enableHbmDualCmd)
      (hsame : p.cmd.isReadWrite = first.isReadWrite) :
      Step cfg π ⟨cs, clk, some p, [first]⟩ ⟨cs, clk, none, [p.cmd, first]⟩
  | tock (cs clk issued) : Step cfg π ⟨cs, clk, none, issued⟩ ⟨cs, clk + 1, none, []⟩

end Chan

namespace Refresh
variable {cfg : Config} {cs : ChannelState}

theorem clockTick_eq (cfg : Config) (cs : ChannelState) (r : Refresh) : (r.clockTick cfg cs).2 = cs ∨
    ∃ req, req.isRefresh ∧ (r.clockTick cfg cs).2 = cs.addRefresh req := by
  have hinsert : (r.insertRefresh cfg cs).2 = cs ∨ ∃ req, req.isRefresh ∧
      (r.insertRefresh cfg cs).2 = cs.addRefresh req := by
    unfold insertRefresh
    split
    · split
      · exact .inr ⟨_, rfl, rfl⟩
      · exact .inl rfl
    · split_ifs
      · exact .inl rfl
      · exact .inr ⟨_, rfl, rfl⟩
    · split_ifs
      · exact .inl rfl
      · exact .inr ⟨_, rfl, rfl⟩
    · split_ifs
      · exact .inl rfl
      · exact .inr ⟨_, rfl, rfl⟩
    · exact .inl rfl
  unfold clockTick
  dsimp only
  split_ifs
  · exact hinsert
  · exact .inl rfl

end Refresh

namespace Controller
variable {cfg : Config}

theorem Source.asks {c : Controller} {cmd : Command} {origin : Origin}
    (hq : c.cmdQueue.WellQueued cfg) (h : c.Source cfg cmd origin) :
    Chan.Asks cfg c.channelState cmd origin := by
  cases h with
  | refresh hq => exact .refresh hq
  | rfm hq => exact .rfm hq
  | @demand before _ after hqueue =>
    have hmem : cmd ∈ c.cmdQueue.queues c.cmdQueue.queueIdx := by simp [hqueue]
    obtain ⟨_, hrw, haddr⟩ := hq _ cmd hmem
    exact .demand hrw haddr
  | @sref rank ty hr hen hreq =>
    refine .sref hr hen ?_
    unfold srefRequest at hreq
    split_ifs at hreq <;> cases hreq <;> simp

end Controller

namespace Micro
open Controller
variable {cfg : Config} {π : Policy} {m m' : Micro}

/-- A step of the controller is a step of its channel, or does not concern it. -/
theorem Step.chan (hq : m.ctl.cmdQueue.WellQueued cfg) (h : Step cfg π m m') :
    Chan.Step cfg π m.chan m'.chan ∨ m'.chan = m.chan := by
  cases h with
  | others c draws => exact .inl (.environment _ draws _)
  | @accept c addr isWrite =>
    obtain ⟨_, _, _, _, _, _, _, heq⟩ := c.addTransaction_eq cfg addr isWrite
    exact .inr (by simp [Micro.chan, heq])
  | returnDone c clk =>
    obtain ⟨_, _, heq⟩ := c.returnDoneTrans_eq clk
    exact .inr (by simp [Micro.chan, heq])
  | refreshTick c =>
    rcases c.refresh.clockTick_eq cfg c.channelState with h | ⟨req, hreq, h⟩
    · exact .inr (by simp [Micro.chan, Controller.refreshTick, h])
    · refine .inl ?_
      simp only [Micro.chan, Controller.refreshTick, h]
      exact .requestRefresh hreq
  | channelTick c => exact .inl (.tick _ _ _)
  | startRefresh | startRFM | rotate => exact .inr rfl
  | query hs h => exact .inl (.query (hs.asks hq) (ChannelState.getReadyCommand_answer h))
  | hydraQuery h => exact .inl (.hydraQuery h)
  | pickMaintenance hs ho hg h =>
    exact .inl (.pick (.inl rfl) (hs.asks hq) hg (ChannelState.getReadyCommand_answer h))
  | pickQueued hmay hc htaken =>
    cases hc with
    | hydra h => exact .inl (.pickHydra hmay h)
    | demand hqueue hb h =>
      exact .inl (.pick hmay (Source.asks hq (.demand hqueue hb)) (by simp)
        (ChannelState.getReadyCommand_answer h))
  | issue h =>
    obtain ⟨_, _, _, cs', hcs, rfl⟩ := issueCommand_frame h
    exact .inl (.issue hcs)
  | drop hdual hsame => exact .inl (.drop hdual hsame)
  | powerUpdate c =>
    obtain ⟨f, heq⟩ := c.powerUpdate_eq cfg
    refine .inl ?_
    simp only [Micro.chan, heq]
    exact .environment _ _ f
  | schedule c =>
    obtain ⟨_, _, _, _, _, _, heq⟩ := c.scheduleTransaction_frame cfg
    exact .inr (by simp [Micro.chan, heq])
  | endTick c => exact .inl (.tock _ _ _)

/-- An invariant of the channel steps holds of the channel in every reached state. -/
theorem Reached.chan_induct {P : Chan → Prop}
    (hboot : ∀ boot : Boot cfg, P ⟨boot.channelState, 0, none, []⟩)
    (hstep : ∀ v v', P v → Chan.Step cfg π v v' → P v') (h : Reached cfg π m) : P m.chan := by
  have : m.ctl.cmdQueue.WellQueued cfg ∧ P m.chan := by
    refine h.induct (P := fun m => m.ctl.cmdQueue.WellQueued cfg ∧ P m.chan)
      (fun boot => ⟨fun _ _ h => (nomatch h), hboot boot⟩) fun m m' hm hs => ⟨hs.wellQueued hm.1, ?_⟩
    rcases hs.chan hm.1 with hc | hc
    · exact hstep _ _ hm.2 hc
    · rw [hc]
      exact hm.2
  exact this.2

end Micro
end CactusDram

import CactusDram.Legality
import CactusDram.RefreshChunks
import CactusDram.Transactions

/-! A channel without trackers, RFMs and alerts: it never ends the process, and while no request is
left in its queues it only refreshes. -/
namespace CactusDram
open Foundations Relation

namespace Config

/-- All tracker, RFM and alert modes are zero. -/
structure Untracked (cfg : Config) : Prop where
  rfm : cfg.rfmMode = 0
  alert : cfg.alertMode = 0
  moat : cfg.moatMode = 0
  drfm : cfg.drfmMode = 0
  dream : cfg.dreamMode = 0
  cactus : cfg.cactusMode = 0
  mint : cfg.mintMode = 0
  para : cfg.paraMode = 0
  graphene : cfg.grapheneMode = 0
  hydra : cfg.hydraMode = 0
  abacus : cfg.abacusMode = 0

/-- Refreshes below rank level need a command queue for every bank. -/
def RefreshFits (cfg : Config) : Prop :=
  cfg.queueStructure = .perBank ∨ cfg.RankLevel ∨ cfg.refreshPolicy = .noRefresh

end Config

namespace CommandQueue
variable {cfg : Config} {q : CommandQueue} {cs cs' : ChannelState} {n : ℕ}

theorem numQueues_pos (cfg : Config) : 0 < numQueues cfg := by
  unfold numQueues Config.banks
  have hbanks : 0 < cfg.bankgroups * cfg.banksPerGroup :=
    Nat.mul_pos cfg.bankgroups_pos cfg.banksPerGroup_pos
  cases cfg.queueStructure with
  | perBank => exact Nat.mul_pos hbanks cfg.ranks_pos
  | perRank => exact cfg.ranks_pos

theorem nextIdx_natCast {j : ℕ} (hj : j < numQueues cfg) :
    nextIdx cfg j = ((j + 1) % numQueues cfg : ℕ) := by
  unfold nextIdx
  split_ifs with h
  · have hlast : j + 1 = numQueues cfg := by exact_mod_cast h
    rw [hlast, Nat.mod_self]
    rfl
  · have hlt : j + 1 < numQueues cfg := by
      have : j + 1 ≠ numQueues cfg := fun heq => h (by exact_mod_cast heq)
      omega
    rw [Nat.mod_eq_of_lt hlt]
    push_cast
    rfl

theorem iterate_nextIdx (n : ℕ) {j : ℕ} (hj : j < numQueues cfg) :
    (nextIdx cfg)^[n] (j : ℤ) = ((j + n) % numQueues cfg : ℕ) := by
  induction n with
  | zero => simp [Nat.mod_eq_of_lt hj]
  | succ n ih =>
    rw [Function.iterate_succ_apply', ih, nextIdx_natCast (Nat.mod_lt _ (numQueues_pos cfg)),
      Nat.mod_add_mod]
    rfl

/-- Every queue comes up in one round. -/
theorem exists_iterate_nextIdx {j k : ℕ} (hj : j < numQueues cfg) (hk : k < numQueues cfg) :
    ∃ m < numQueues cfg, (nextIdx cfg)^[m + 1] (j : ℤ) = k := by
  refine ⟨(k + (numQueues cfg - 1 - j)) % numQueues cfg, Nat.mod_lt _ (numQueues_pos cfg), ?_⟩
  rw [iterate_nextIdx _ hj]
  congr 1
  have hsum : j + ((k + (numQueues cfg - 1 - j)) % numQueues cfg + 1) ≡ k [MOD numQueues cfg] := by
    calc j + ((k + (numQueues cfg - 1 - j)) % numQueues cfg + 1)
        ≡ j + (k + (numQueues cfg - 1 - j) + 1) [MOD numQueues cfg] :=
          ((Nat.mod_modEq _ _).add_right 1).add_left j
      _ = k + numQueues cfg := by omega
      _ ≡ k [MOD numQueues cfg] := Nat.add_mod_right _ _
  rw [Nat.ModEq, Nat.mod_eq_of_lt hk] at hsum
  exact hsum

/-- The queue in turn is one of the queues. -/
def InTurn (cfg : Config) (q : CommandQueue) : Prop := ∃ j < numQueues cfg, q.queueIdx = (j : ℕ)

theorem InTurn.next (h : q.InTurn cfg) :
    ({ q with queueIdx := nextIdx cfg q.queueIdx } : CommandQueue).InTurn cfg := by
  obtain ⟨j, hj, hidx⟩ := h
  refine ⟨(j + 1) % numQueues cfg, Nat.mod_lt _ (numQueues_pos cfg), ?_⟩
  dsimp only
  rw [hidx, nextIdx_natCast hj]

/-- A round through queues in which nothing is ready. -/
theorem getCommandLoop_none (cfg : Config) (h : ∀ idx, getFirstReadyInQueue cfg q.clk [] (q.queues idx) cs =
    .ok (none, cs)) : ∃ idx, getCommandLoop cfg n q cs = .ok (none, { q with queueIdx := idx }, cs) ∧
      (q.InTurn cfg → ({ q with queueIdx := idx } : CommandQueue).InTurn cfg) := by
  induction n generalizing q with
  | zero => exact ⟨q.queueIdx, rfl, id⟩
  | succ n ih =>
    obtain ⟨idx, hloop, hturn⟩ := ih (q := { q with queueIdx := nextIdx cfg q.queueIdx }) h
    refine ⟨idx, ?_, fun hq => hturn hq.next⟩
    rw [getCommandLoop]
    dsimp only
    split_ifs
    · exact hloop
    · rw [h]
      exact hloop

/-- A round through queues one of which has a ready command. -/
theorem getCommandLoop_some (cfg : Config) {k : ℤ} {p : Pick} (hin : q.isInRef = false ∧ q.isInRfm = false)
    (hk : getFirstReadyInQueue cfg q.clk [] (q.queues k) cs = .ok (some p, cs'))
    (hne : ∀ idx, idx ≠ k → getFirstReadyInQueue cfg q.clk [] (q.queues idx) cs = .ok (none, cs))
    (hvisit : ∃ m < n, (nextIdx cfg)^[m + 1] q.queueIdx = k) :
    getCommandLoop cfg n q cs = if p.cmd.isReadWrite then do
        let q ← eraseRWCommand cfg { q with queueIdx := k } p.cmd
        .ok (some p, q, cs')
      else .ok (some p, { q with queueIdx := k }, cs') := by
  induction n generalizing q with
  | zero =>
    obtain ⟨m, hm, _⟩ := hvisit
    omega
  | succ n ih =>
    have hfree : ({ q with queueIdx := nextIdx cfg q.queueIdx } : CommandQueue).blocked = false := by
      simp [blocked, hin]
    rw [getCommandLoop]
    dsimp only
    rw [if_neg (by simp [hfree])]
    by_cases hidx : nextIdx cfg q.queueIdx = k
    · rw [hidx, hk]
      rfl
    · rw [hne _ hidx]
      refine ih (q := { q with queueIdx := nextIdx cfg q.queueIdx }) hin hk hne ?_
      obtain ⟨m, hm, hiter⟩ := hvisit
      cases m with
      | zero => exact absurd hiter hidx
      | succ m => exact ⟨m, by omega, hiter⟩

end CommandQueue

namespace ChannelState
variable {cfg : Config} {cs cs' : ChannelState} {cmd : Command} {clk : ℕ}

/-- No RFM is asked for and no alert is up. -/
def Undemanding (cs : ChannelState) : Prop := cs.rfmQ = [] ∧ cs.alertN = false

theorem clockTick_undemanding (hcactus : cfg.cactusMode = 0) (h : cs.Undemanding) :
    cs.clockTick cfg clk = cs := by
  simp [clockTick, hcactus, h.2]

theorem preactHooks_undemanding {full : Bool} (hcactus : cfg.cactusMode = 0) (h : cs.Undemanding)
    (hhook : cs.preactHooks cfg cmd clk = .ok (full, cs')) : cs'.Undemanding := by
  obtain ⟨s, idx, ds, as, _, _, _, _, rfl⟩ := preactHooks_eq hhook
  rw [cactusCount, if_pos hcactus]
  exact h

theorem Answer.undemanding (hu : cfg.Untracked) (h : cs.Undemanding) {r? : Option Command}
    (ha : Answer cfg cs cmd clk r? cs') : cs'.Undemanding := by
  have hrfm {ty : CommandType} (hty : ty = .rfmSb ∨ ty = .rfmAb)
      (hm : ¬cmd.isRankCMD ∧ ¬cmd.isSbCMD)
      (hb : (cs.bankStates cmd.bankId).getReadyCommand cfg cmd clk =
        .ok (some { cmd with cmdType := ty })) : False := by
    obtain ⟨ty', hreq, _, heq⟩ := BankState.getReadyCommand_some_iff.mp hb
    obtain rfl : ty = ty' := congrArg Command.cmdType heq
    rcases BankState.requiredType_cases hreq with hsame | hpre | ⟨_, hact | ⟨hmode, _⟩ | hsref⟩
    · rw [hsame] at hty
      obtain hty | hty := hty <;> simp [Command.isRankCMD, Command.isSbCMD, hty] at hm
    · obtain rfl | rfl := hty <;> simp at hpre
    · obtain rfl | rfl := hty <;> simp at hact
    · exact hmode hu.rfm
    · obtain rfl | rfl := hty <;> simp at hsref
  have hcheck : cs.hydraCheck cfg cmd = (true, cs) := hydraCheck_off (by rw [hu.hydra]; decide)
  cases ha with
  | wait | divert | allReady | single => exact h
  | needRFMsb hb hm => exact (hrfm (.inl rfl) hm hb).elim
  | needRFMab hb hm => exact (hrfm (.inr rfl) hm hb).elim
  | eager _ hfull => exact absurd hu.drfm (isSamplerFull_mode hfull)
  | hydraWait hwait =>
    rw [hcheck] at hwait
    cases hwait
  | lazy _ _ hhook => exact absurd hu.drfm (preactHooks_full_mode hhook)
  | activate _ hsame hhook =>
    rw [hcheck] at hsame
    cases hsame
    exact preactHooks_undemanding hu.cactus h hhook

theorem Issued.undemanding {origin : Origin} (hu : cfg.Untracked) (h : cs.Undemanding)
    (hi : Issued cfg cs cmd clk origin cs') : cs'.Undemanding := by
  refine ⟨List.sublist_nil.mp (h.1 ▸ hi.rfmQ), ?_⟩
  obtain ⟨_, _, _, halert | ⟨hmoat, _⟩, _⟩ := hi.alert
  · rw [halert.1, h.2]
  · rw [hu.moat] at hmoat
    cases hmoat

end ChannelState

namespace Micro
variable {cfg : Config} {π : Policy} {m : Micro}

theorem Reached.undemanding (hu : cfg.Untracked) (h : Reached cfg π m) :
    m.ctl.channelState.Undemanding := by
  refine h.chan_induct (P := fun v => v.cs.Undemanding) (fun _ => ⟨rfl, rfl⟩) fun v v' hv hs => ?_
  cases hs with
  | environment | requestRefresh | tock | drop => exact hv
  | tick =>
    rw [ChannelState.clockTick_undemanding hu.cactus hv]
    exact hv
  | query _ h => exact h.undemanding hu hv
  | pick _ _ _ h => exact h.undemanding hu hv
  | hydraQuery h | pickHydra _ h =>
    obtain ⟨⟨_, _, _, rfl⟩, _⟩ := ChannelState.getReadyHydraCommand_eq h
    exact hv
  | issue h => exact (ChannelState.updateTimingAndStates_issued h).undemanding hu hv

/-- The queues can take every request of a channel. -/
theorem Reached.maintenanceQIndices (hu : cfg.Untracked) (hfits : cfg.RefreshFits)
    (h : Reached cfg π m) : ∀ req ∈ m.ctl.channelState.refreshQ ++ m.ctl.channelState.rfmQ,
      ∃ idx, CommandQueue.maintenanceQIndices cfg req = .ok idx := by
  intro req hreq
  rw [(h.undemanding hu).1, List.append_nil] at hreq
  obtain ⟨hty, _⟩ := h.refreshQ_asked req hreq
  obtain hqueue | hrank | hnone := hfits
  · exact CommandQueue.maintenanceQIndices_perBank hqueue req
  · refine ⟨CommandQueue.rankQIndices cfg req.rank, if_pos ?_⟩
    simp [Command.isRankCMD, (hrank.of_asked (h.refreshQ_asked req hreq)).1]
  · rw [hnone] at hty
    cases hty

theorem Reached.tick {c : Controller} (h : Reached cfg .free (rest c)) :
    Reached cfg .free (rest (ticked cfg c)) :=
  h.step ((ReflTransGen.single (.refreshTick c)).tail (.channelTick _))

theorem Reached.clockTick {c c' : Controller} (h : Reached cfg .free (rest c))
    (htick : c.clockTick cfg = .ok c') : Reached cfg .free (rest c') :=
  h.step ((clockTick_realizes h.synced fun _ _ => trivial).1 c' htick)

/-- A tick never ends the process. -/
theorem Reached.clockTick_ok {c : Controller} (hu : cfg.Untracked) (hen : cfg.enableSelfRefresh = false)
    (hpol : ChannelState.KnownPolicies cfg) (hfits : cfg.RefreshFits) (h : Reached cfg .free (rest c)) :
    ∃ c', c.clockTick cfg = .ok c' := by
  have hmode : cfg.hydraMode ≠ 1 := by
    rw [hu.hydra]
    decide
  cases htick : c.clockTick cfg with
  | ok c' => exact ⟨c', rfl⟩
  | error e =>
    obtain ⟨m, hsteps, hfail⟩ := (clockTick_realizes (π := .free) h.synced fun _ _ => trivial).2 e htick
    have hm : Reached cfg .free m := h.step hsteps
    obtain ⟨hread, hwrite, herase⟩ := hfail.not_missing hmode hm
    rcases hfail.not_abrupt hen hmode hpol (hm.maintenanceQIndices hu hfits) hm with he | he | he
    · exact absurd he hread
    · exact absurd he hwrite
    · exact absurd he herase

end Micro

namespace Controller
variable {cfg : Config} {c c' : Controller}

/-- No request waits in any queue. -/
structure Idle (c : Controller) : Prop where
  lanes : ∀ l, c.laneQueue l = []
  queues : ∀ idx, c.cmdQueue.queues idx = []

/-- What of a controller its demand traffic consists of. -/
def traffic (c : Controller) : (Lane → List Transaction) × (ℤ → List Command) × List Transaction ×
    List Transaction :=
  (c.laneQueue, c.cmdQueue.queues, c.pendingRdQ, c.returnQueue)

theorem Idle.of_traffic (h : c.Idle) (heq : c'.traffic = c.traffic) : c'.Idle := by
  obtain ⟨hlanes, hqueues, _⟩ := Prod.mk.inj heq |>.imp_right Prod.mk.inj
  exact ⟨fun l => hlanes ▸ h.lanes l, fun idx => hqueues ▸ h.queues idx⟩

/-- A waiting refresh is asked for; the command queues stay. -/
theorem finishRefresh_ok {q q' : CommandQueue} {cs cs' : ChannelState} {pick : Option Pick}
    (h : q.finishRefresh cfg cs = .ok (pick, q', cs')) : q'.queues = q.queues ∧
      ∃ ref rest r?, cs.refreshQ = ref :: rest ∧ cs.getReadyCommand cfg ref q.clk = .ok (r?, cs') ∧
        pick = r?.map (⟨·, .refresh ref⟩) := by
  unfold CommandQueue.finishRefresh at h
  split at h
  · cases h
  · rename_i ref rest hq
    split_ifs at h
    · obtain ⟨q₁, hq₁, h⟩ := bind_ok_iff.mp h
      cases hq₁
      obtain ⟨⟨r?, cs₁⟩, hr, h⟩ := bind_ok_iff.mp h
      cases h
      refine ⟨?_, ref, rest, r?, hq, hr, rfl⟩
      split_ifs <;> rfl
    · obtain ⟨q₁, hq₁, h⟩ := bind_ok_iff.mp h
      obtain ⟨_, _, hq₁⟩ := bind_ok_iff.mp hq₁
      cases hq₁
      obtain ⟨⟨r?, cs₁⟩, hr, h⟩ := bind_ok_iff.mp h
      cases h
      refine ⟨?_, ref, rest, r?, hq, hr, rfl⟩
      split_ifs <;> rfl

/-- Without RFMs the maintenance of a tick is a refresh, and picks no READ or WRITE. -/
theorem maintenance_ok {pick : Option Pick} (hreg : ChannelState.Regular cfg c.channelState)
    (hrfm : c.channelState.rfmQ = [] ∧ c.cmdQueue.isInRfm = false)
    (h : c.maintenance cfg = .ok (pick, c')) :
    c'.traffic = c.traffic ∧ ∀ p ∈ pick, p.cmd.isReadWrite = false := by
  unfold maintenance at h
  rw [hrfm.1, hrfm.2] at h
  simp only [Bool.false_eq_true, if_false, List.isEmpty_nil, Bool.not_true] at h
  split_ifs at h
  · obtain ⟨⟨pick', q, cs⟩, hfinish, hpair⟩ := map_ok_iff.mp h
    cases hpair
    obtain ⟨hqueues, ref, rest, r?, hq, hr, hpick⟩ := finishRefresh_ok hfinish
    refine ⟨?_, fun p hp => ?_⟩
    · change (c.laneQueue, q.queues, c.pendingRdQ, c.returnQueue) = _
      rw [hqueues]
      rfl
    · cases r? with
      | none =>
        rw [hpick] at hp
        cases hp
      | some r =>
        rw [hpick] at hp
        cases hp
        exact Chan.Asks.not_readWrite hreg (.refresh hq) (by simp)
          (ChannelState.getReadyCommand_answer hr)
  · cases h
    exact ⟨rfl, fun p hp => nomatch hp⟩

/-- A round in which nothing is ready only turns. -/
theorem demand_none (cfg : Config) (h : ∀ idx, CommandQueue.getFirstReadyInQueue cfg c.cmdQueue.clk []
    (c.cmdQueue.queues idx) c.channelState = .ok (none, c.channelState)) : ∃ idx, c.demand cfg =
      .ok (none, { c with cmdQueue := { c.cmdQueue with queueIdx := idx } }) ∧
      (c.cmdQueue.InTurn cfg → ({ c.cmdQueue with queueIdx := idx } : CommandQueue).InTurn cfg) := by
  obtain ⟨idx, hloop, hturn⟩ :=
    CommandQueue.getCommandLoop_none cfg (n := CommandQueue.numQueues cfg) h
  refine ⟨idx, ?_, hturn⟩
  unfold Controller.demand CommandQueue.getCommandToIssue
  rw [hloop]
  rfl

theorem Idle.demand (cfg : Config) (h : c.Idle) : ∃ idx, c.demand cfg =
    .ok (none, { c with cmdQueue := { c.cmdQueue with queueIdx := idx } }) := by
  obtain ⟨idx, hdemand, _⟩ := demand_none cfg (c := c) fun idx => by
    rw [h.queues idx]
    rfl
  exact ⟨idx, hdemand⟩

/-- A command that is no READ or WRITE serves no transaction. -/
theorem issueCommand_traffic {p : Pick} (hp : p.cmd.isReadWrite = false)
    (h : c.issueCommand cfg p = .ok c') : c'.traffic = c.traffic := by
  obtain ⟨c₁, cs', hserved, _, rfl⟩ := issueCommand_ok h
  unfold Command.isReadWrite at hp
  rw [Bool.or_eq_false_iff] at hp
  cases hserved with
  | read hcmd => simp [hp.1] at hcmd
  | write hcmd => simp [hp.2] at hcmd
  | other => rfl

theorem Idle.issueSelected {pick : Option Pick} (hidle : c.Idle)
    (hpick : ∀ p ∈ pick, p.cmd.isReadWrite = false) (h : c.issueSelected cfg pick = .ok c') :
    c'.traffic = c.traffic := by
  cases pick with
  | none =>
    cases h
    rfl
  | some p =>
    obtain ⟨c₁, hissue, h⟩ := bind_ok_iff.mp h
    have hfirst : c₁.traffic = c.traffic := issueCommand_traffic (hpick p rfl) hissue
    split_ifs at h
    · obtain ⟨idx, hdemand⟩ := (hidle.of_traffic hfirst).demand cfg
      unfold secondCommand at h
      rw [hdemand] at h
      cases h
      exact hfirst
    · cases h
      exact hfirst

theorem powerUpdate_traffic (cfg : Config) (c : Controller) : (c.powerUpdate cfg).traffic = c.traffic := by
  obtain ⟨_, hpower⟩ := c.powerUpdate_eq cfg
  rw [hpower]
  rfl

theorem scheduleTransaction_traffic (h : ∀ l, c.laneQueue l = []) :
    (c.scheduleTransaction cfg).traffic = c.traffic := by
  obtain ⟨s, hs, hsched⟩ := c.scheduleTransaction_eq cfg
  rw [h] at hsched
  have hnothing : s = ⟨[], c.cmdQueue, s.writeDraining⟩ := by
    cases hsched with
    | nothing => rfl
    | conflict hq | moved hq => simp at hq
  have hlane := Micro.laneQueue_setLane (c := c) (c.lane cfg) s
  have hsame : (c.setLane (c.lane cfg) s).laneQueue = c.laneQueue := by
    rw [hlane, hnothing, Function.update_eq_self_iff]
    exact (h _).symm
  rw [hs]
  unfold traffic
  rw [hsame]
  rw [hnothing]
  cases c.lane cfg <;> rfl

/-- A tick finds nothing to do for an idle controller but refreshes. -/
theorem Idle.clockTick (hu : cfg.Untracked) (hen : cfg.enableSelfRefresh = false)
    (hreached : Micro.Reached cfg .free (Micro.rest c)) (hidle : c.Idle)
    (h : c.clockTick cfg = .ok c') : c'.traffic = c.traffic := by
  have hmode : cfg.hydraMode ≠ 1 := by
    rw [hu.hydra]
    decide
  have hticked := hreached.tick
  have hrfmQ : (Micro.ticked cfg c).channelState.rfmQ = [] := (hticked.undemanding hu).1
  have hrfm : (Micro.ticked cfg c).cmdQueue.isInRfm = false := by
    cases hin : (Micro.ticked cfg c).cmdQueue.isInRfm with
    | false => rfl
    | true => exact absurd hrfmQ ((hticked.serving hen hmode).rfm hin)
  obtain ⟨⟨pick, c₁⟩, hselect, h⟩ := bind_ok_iff.mp h
  obtain ⟨c₂, hissue, h⟩ := bind_ok_iff.mp h
  obtain ⟨c₃, hsref, h⟩ := bind_ok_iff.mp h
  cases h
  have hmaintain {pick : Option Pick} {c₀ : Controller}
      (h : (Micro.ticked cfg c).maintenance cfg = .ok (pick, c₀)) :
      c₀.traffic = (Micro.ticked cfg c).traffic ∧ ∀ p ∈ pick, p.cmd.isReadWrite = false :=
    maintenance_ok hticked.ready.regular ⟨hrfmQ, hrfm⟩ h
  have hfirst : c₁.traffic = c.traffic ∧ ∀ p ∈ pick, p.cmd.isReadWrite = false := by
    obtain ⟨⟨_ | p, c₀⟩, hmaint, hselect⟩ := bind_ok_iff.mp hselect
    · obtain ⟨htraffic, _⟩ := hmaintain hmaint
      obtain ⟨idx, hdemand⟩ := (hidle.of_traffic htraffic).demand cfg
      dsimp only at hselect
      rw [hdemand] at hselect
      cases hselect
      exact ⟨htraffic, fun p hp => nomatch hp⟩
    · cases hselect
      exact hmaintain hmaint
  have hidle₁ : c₁.Idle := hidle.of_traffic hfirst.1
  have hsecond : c₂.traffic = c₁.traffic := hidle₁.issueSelected hfirst.2 hissue
  have hthird : c₃.traffic = c₂.traffic := by
    unfold idleTick at hsref
    rw [hen] at hsref
    cases hsref
    exact powerUpdate_traffic cfg c₂
  have hidle₃ : c₃.Idle := hidle₁.of_traffic (hthird.trans hsecond)
  calc (c₃.scheduleTransaction cfg).endTick.traffic = (c₃.scheduleTransaction cfg).traffic := rfl
    _ = c₃.traffic := scheduleTransaction_traffic hidle₃.lanes
    _ = c.traffic := hthird.trans (hsecond.trans hfirst.1)

end Controller
end CactusDram

import CactusDram.CounterHistory
import CactusDram.Handshake
import CactusDram.RefreshChunks

/-! The runs of the shared counters cover those of the controller: whatever a reachable channel does to its
CACTUS and DREAM counters are calls on them, with arguments that are in range. -/
namespace CactusDram
open Foundations Relation

/-- A register of a rank names one of the counters of the rank, or none. -/
def Names (cfg : Config) (register : ℤ → ℤ) : Prop :=
  ∀ k, 0 ≤ register k → k * cfg.rows ≤ register k ∧ register k < (k + 1) * cfg.rows

namespace Names
variable {cfg : Config} {register : ℤ → ℤ} {k : ℤ}

theorem set (h : Names cfg register) {idx : ℤ}
    (hidx : 0 ≤ idx → k * cfg.rows ≤ idx ∧ idx < (k + 1) * cfg.rows) :
    Names cfg (Function.update register k idx) :=
  (Function.forall_update_iff register
    fun k idx => 0 ≤ idx → k * cfg.rows ≤ idx ∧ idx < (k + 1) * cfg.rows).mpr ⟨hidx, fun j _ => h j⟩

theorem clear (h : Names cfg register) (k : ℤ) : Names cfg (Function.update register k (-1)) :=
  h.set fun hneg => absurd hneg (by decide)

/-- Only the register of a rank that exists names a counter. -/
theorem inRank (h : Names cfg register) (hk : 0 ≤ register k) :
    ∃ rank : ℕ, k = rank ∧ ChannelState.InRank cfg rank (register k).toNat := by
  obtain ⟨hle, hlt⟩ := h k hk
  have hpos : 0 < k + 1 := by
    by_contra hneg
    have hprod : (k + 1) * cfg.rows ≤ 0 :=
      mul_nonpos_of_nonpos_of_nonneg (by omega) (Int.natCast_nonneg _)
    omega
  obtain ⟨rank, rfl⟩ := Int.eq_ofNat_of_zero_le (show 0 ≤ k by omega)
  obtain ⟨idx, hidx⟩ := Int.eq_ofNat_of_zero_le hk
  refine ⟨rank, rfl, ?_⟩
  rw [hidx] at hle hlt ⊢
  exact ⟨by exact_mod_cast hle, by exact_mod_cast hlt⟩

end Names

/-- A move of the protocol leaves the pending counters of the ranks among theirs. -/
theorem Desk.Move.names {cfg : Config} {s s' : Desk × (BankId → Bool)} (h : Names cfg s.1.pending)
    (hm : Desk.Move cfg s s') : Names cfg s'.1.pending := by
  cases hm with
  | raise _ hidx => exact h.set fun _ => hidx
  | promote | ask | launch | activate => exact h
  | serve =>
    unfold Desk.serve
    dsimp only
    split_ifs
    · exact h.clear _
    · exact h
    · exact h
  | absorb => exact h.clear _

theorem Micro.Reached.names {cfg : Config} {π : Micro.Policy} {m : Micro} (h : Micro.Reached cfg π m) :
    Names cfg m.ctl.channelState.cactusPendingCounterIdx :=
  h.hand_induct (P := fun s => Names cfg s.1.pending) (fun _ _ hk => absurd hk (show ¬(0 : ℤ) ≤ -1 by decide))
    fun _ _ hs hm => hm.names hs

namespace ChannelState
variable {cfg : Config} {cs cs' : ChannelState} {cmd : Command} {clk : ℕ} {rank : ℤ}

/-- One of the calls on the counters. -/
def Call (cfg : Config) (cs cs' : ChannelState) : Prop := ∃ op : CounterOp cfg, op.apply cs = .ok cs'

/-- What happens to the counters are calls on them. -/
abbrev Calls (cfg : Config) : ChannelState → ChannelState → Prop := ReflTransGen (Call cfg)

theorem calls_of_eq (h : cs'.counters = cs.counters) : Calls cfg cs cs' :=
  .single ⟨.others cs', by rw [CounterOp.apply, ← h]; rfl⟩

theorem Calls.before {cs₁ : ChannelState} (hc : Calls cfg cs₁ cs') (h : cs₁.counters = cs.counters) :
    Calls cfg cs cs' := (calls_of_eq h).trans hc

theorem Calls.after {cs₁ : ChannelState} (hc : Calls cfg cs cs₁) (h : cs'.counters = cs₁.counters) :
    Calls cfg cs cs' := hc.trans (calls_of_eq h)

/-- The max registers name counters of their ranks, and the tables keep to the rows. -/
structure Pointed (cfg : Config) (cs : ChannelState) : Prop where
  perms : ∀ n, cs.cactusInvRowPerms n < cfg.rows
  register : Names cfg cs.cactusTrefMaxCounterIdx

theorem Pointed.call (h : Pointed cfg cs) (hc : Call cfg cs cs') : Pointed cfg cs' := by
  obtain ⟨op, hop⟩ := hc
  have hperms : cs'.cactusInvRowPerms = cs.cactusInvRowPerms :=
    congrArg (·.2.2) (CounterRun.apply_fixed hop)
  refine ⟨hperms ▸ h.perms, ?_⟩
  have hreg : cs'.cactusTrefMaxCounterIdx = cs'.counters.maxIdx := rfl
  have hold : Names cfg cs.counters.maxIdx := h.register
  cases op with
  | cactusPreact i rowid clk hi hrow =>
    obtain ⟨idx, hidx, hcount⟩ := bind_ok_iff.mp hop
    cases hcount
    obtain ⟨⟨r, _, hrank⟩, _⟩ := cfg.mem_allBanks.mp hi
    have hrange := getCactusIdx_range hrank hrow h.perms hidx
    by_cases hmode : cfg.cactusMode = 0
    · simpa [cactusCount, hmode] using h.register
    · rw [hreg, cactusCount_counters hmode]
      dsimp only [maxAfter, cactusTrackMax]
      split_ifs
      · exact Names.set hold fun _ => hrange
      · exact hold
      · exact hold
  | cactusRefresh r shouldReset hchunks =>
    cases hop
    unfold cactusRefresh
    dsimp only
    split_ifs
    · exact h.register
    · exact h.register.clear _
    · exact h.register
  | cactusMitigCounter r idx hidx =>
    by_cases hmode : cfg.cactusMode = 0
    · rw [CounterOp.apply, cactusMitigCounter, if_pos hmode] at hop
      cases hop
      exact h.register
    · rw [hreg, cactusMitigCounter_counters hmode hop]
      dsimp only
      split_ifs
      · exact h.register.clear _
      · exact h.register
  | dreamPreact i rowid =>
    obtain ⟨idx, q, _, hcounters⟩ := dreamPreact_counters hop
    rw [hreg, hcounters]
    exact hold
  | dreamRefresh shouldReset =>
    cases hop
    unfold dreamRefresh
    dsimp only
    split_ifs <;> exact h.register
  | dreamMitig =>
    cases hop
    unfold dreamMitig
    split_ifs
    · exact h.register
    · split <;> exact h.register
  | others cs =>
    cases hop
    exact h.register

theorem Pointed.calls (h : Pointed cfg cs) (hc : Calls cfg cs cs') : Pointed cfg cs' :=
  invariant_of_steps (fun _ _ hs hc => hs.call hc) hc h

theorem needRFM_counters (req : Command) (target : Command → Bool) (need : Bool) :
    (cs.needRFM req target need).counters = cs.counters := by
  unfold needRFM
  split_ifs <;> rfl

theorem clockTick_counters : (cs.clockTick cfg clk).counters = cs.counters :=
  clockTick_keeps counters (fun _ _ => needRFM_counters _ _ _) (fun _ _ => rfl) (fun _ => rfl)
    fun _ _ _ => rfl

/-- Running the trackers for an access is a call of DREAM and one of CACTUS. -/
theorem preactHooks_calls (ha : cfg.InRange cmd.addr) {full : Bool}
    (h : cs.preactHooks cfg cmd clk = .ok (full, cs')) : Calls cfg cs cs' := by
  have hrow : u32 cmd.row < cfg.rows := by
    obtain ⟨row, hrow, hcmd⟩ := ha.row
    rw [Command.row, hcmd]
    unfold u32
    omega
  unfold preactHooks at h
  dsimp only at h
  generalize (cs.bankStates cmd.bankId).preACT cfg cmd cs.draws cs.rcc = p at h
  obtain ⟨b, draws, rcc⟩ := p
  obtain ⟨cs₁, hdream, h⟩ := bind_ok_iff.mp h
  obtain ⟨cs₂, hcactus, h⟩ := bind_ok_iff.mp h
  cases h
  have hbank : Calls cfg cs { cs with
      bankStates := Function.update cs.bankStates cmd.bankId b, draws := draws, rcc := rcc } :=
    calls_of_eq rfl
  apply ((hbank.tail ⟨.dreamPreact cmd.bankId (u32 cmd.row), hdream⟩).tail
    ⟨.cactusPreact cmd.bankId (u32 cmd.row) clk ha.mem_allBanks hrow, hcactus⟩).trans
  obtain ⟨_, _, _, _, habacus, _⟩ := cs₂.abacusPreact_eq cfg cmd.bankId (u32 cmd.row)
  apply calls_of_eq
  rw [habacus]
  rfl

theorem launchDRFM_counters (h : cs.launchDRFM cfg cmd = .ok cs') : cs'.counters = cs.counters := by
  obtain ⟨_, _, _, rfl, _⟩ := launchDRFM_eq h
  rfl

theorem Answer.calls (hreg : Regular cfg cs) {origin : Origin} (ha : Chan.Asks cfg cs cmd origin)
    {r? : Option Command} (h : Answer cfg cs cmd clk r? cs') : Calls cfg cs cs' := by
  have hhooked {cs₁ cs₂ : ChannelState} {full : Bool} (hcheck : cs.hydraCheck cfg cmd = (true, cs₁))
      (hhook : cs₁.preactHooks cfg cmd clk = .ok (full, cs₂))
      (hb : (cs.bankStates cmd.bankId).getReadyCommand cfg cmd clk = .ok (some (activation cmd))) :
      Calls cfg cs cs₂ := by
    have hsame : cs₁.counters = cs.counters := by
      obtain ⟨_, _, _, rfl⟩ := hydraCheck_eq hcheck
      rfl
    exact (preactHooks_calls (inRange_of_activate hreg ha hb) hhook).before hsame
  cases h with
  | wait | divert | allReady | single => exact .refl
  | needRFMsb | needRFMab => exact calls_of_eq (needRFM_counters _ _ _)
  | eager _ _ h => exact calls_of_eq (launchDRFM_counters h)
  | hydraWait h =>
    obtain ⟨_, _, _, rfl⟩ := hydraCheck_eq h
    exact calls_of_eq rfl
  | lazy _ hcheck hhook h hb =>
    exact (hhooked hcheck hhook hb).after (launchDRFM_counters h)
  | activate _ hcheck hhook hb => exact hhooked hcheck hhook hb

/-- A mitigation of the counter that a register names. -/
theorem cactusMitigCounter_calls {register : ℤ → ℤ} (hn : Names cfg register) (hpos : 0 ≤ register rank)
    (h : cs.cactusMitigCounter cfg rank (register rank).toNat = .ok cs') : Calls cfg cs cs' := by
  obtain ⟨k, rfl, hidx⟩ := hn.inRank hpos
  exact .single ⟨.cactusMitigCounter k _ hidx, h⟩

theorem cactusMitig_calls (hn : Names cfg cs.cactusPendingCounterIdx)
    (h : cs.cactusMitig cfg rank = .ok cs') : Calls cfg cs cs' := by
  unfold cactusMitig at h
  split_ifs at h with hmode hneg
  · cases h; exact .refl
  · cases h; exact .refl
  · obtain ⟨cs₁, h₁, h⟩ := bind_ok_iff.mp h
    cases h
    exact (cactusMitigCounter_calls hn (not_lt.mp hneg) h₁).after rfl

theorem cactusTrefMitig_calls (hn : Names cfg cs.cactusPendingCounterIdx)
    (h : cs.cactusTrefMitig cfg rank = .ok cs') : Calls cfg cs cs' := by
  unfold cactusTrefMitig at h
  split_ifs at h
  · cases h; exact .refl
  · cases h; exact .refl
  · cases h; exact .refl
  · obtain ⟨cs₁, h₁, h⟩ := bind_ok_iff.mp h
    cases h
    exact (cactusMitig_calls hn h₁).after (needRFM_counters _ _ _)

theorem cactusTrefMaxMitig_calls (hp : Pointed cfg cs) (h : cs.cactusTrefMaxMitig cfg rank = .ok cs') :
    Calls cfg cs cs' := by
  unfold cactusTrefMaxMitig at h
  dsimp only at h
  split_ifs at h with _ _ _ hneg
  · cases h; exact .refl
  · cases h; exact .refl
  · cases h; exact calls_of_eq rfl
  · cases h; exact calls_of_eq rfl
  · cases h; exact calls_of_eq rfl
  · obtain ⟨cs₁, h₁, h⟩ := bind_ok_iff.mp h
    have hmitig : Calls cfg cs cs₁ :=
      (cactusMitigCounter_calls hp.register (not_lt.mp hneg) h₁).before rfl
    split_ifs at h
    · cases h
      exact hmitig.after (needRFM_counters _ _ _)
    · cases h
      exact hmitig

/-- The trackers of the channel see a refresh of a rank. -/
theorem refreshTrackers_calls (hchunks : cfg.cactusMode ≠ 0 → 0 < cfg.refchunks / cfg.cactusReset)
    (hrank : ∃ k : ℕ, cmd.rank = k) : Calls cfg cs (cs.refreshTrackers cfg cmd) := by
  obtain ⟨k, hk⟩ := hrank
  unfold refreshTrackers
  dsimp only
  generalize cs.shouldReset cfg cmd = reset
  have hdream : Calls cfg cs (cs.dreamRefresh cfg reset) := .single ⟨.dreamRefresh reset, rfl⟩
  apply hdream.trans
  generalize cs.dreamRefresh cfg reset = cs₁
  have hcactus : Calls cfg cs₁ (cs₁.cactusRefresh cfg cmd.rank reset) := by
    by_cases hmode : cfg.cactusMode = 0
    · simpa [cactusRefresh, hmode] using ReflTransGen.refl
    · rw [hk]
      exact .single ⟨.cactusRefresh k reset (hchunks hmode), rfl⟩
  apply hcactus.trans
  apply calls_of_eq
  unfold abacusRefresh
  dsimp only
  split_ifs <;> rfl

theorem updateREFCounter_counters (h : cs.updateREFCounter cfg cmd = .ok cs') :
    cs'.counters = cs.counters := by
  unfold updateREFCounter at h
  dsimp only at h
  split_ifs at h <;> cases h <;> rfl

/-- A command of a rank: an RFM or a REF mitigates counters that the registers of the rank name. -/
theorem rankServed_calls (hchunks : cfg.cactusMode ≠ 0 → 0 < cfg.refchunks / cfg.cactusReset)
    (hn : Names cfg cs.cactusPendingCounterIdx) (hp : Pointed cfg cs)
    (hrank : cmd.isRefresh → ∃ k : ℕ, cmd.rank = k) (h : cs.rankServed cfg cmd = .ok cs') :
    Calls cfg cs cs' := by
  have hneed (target : Command → Bool) (req : Command) :
      (cs.needRFM req target false).cactusPendingCounterIdx = cs.cactusPendingCounterIdx := by
    unfold needRFM
    split_ifs <;> rfl
  unfold rankServed at h
  dsimp only at h
  split_ifs at h with _ _ href
  · obtain ⟨cs₁, h₁, h⟩ := bind_ok_iff.mp h
    cases h
    have hmitig := cactusMitig_calls (by rw [rankNeedRFM, hneed]; exact hn) h₁
    exact (hmitig.before (needRFM_counters _ _ _)).after rfl
  · cases h
    exact calls_of_eq (needRFM_counters _ _ _)
  · obtain ⟨cs₁, h₁, h⟩ := bind_ok_iff.mp h
    obtain ⟨cs₂, h₂, h⟩ := bind_ok_iff.mp h
    have hreset : Calls cfg cs ((cs.rankNeedRefresh cmd.rank false).refreshTrackers cfg cmd) :=
      (refreshTrackers_calls hchunks (hrank href)).before rfl
    have hpending : Names cfg
        ((cs.rankNeedRefresh cmd.rank false).refreshTrackers cfg cmd).desk.pending := by
      rw [refreshTrackers_desk]
      exact hn
    have htref := hreset.trans (cactusTrefMitig_calls hpending h₁)
    exact htref.trans ((cactusTrefMaxMitig_calls (hp.calls htref) h₂).after
      (updateREFCounter_counters h))
  · cases h
    have hmitig : Calls cfg cs ((cs.rankNeedDRFM cmd.rank false).dreamMitig cfg) :=
      (calls_of_eq (needRFM_counters _ _ _)).tail ⟨.dreamMitig, rfl⟩
    apply hmitig.trans
    apply calls_of_eq
    unfold abacusMitig
    split_ifs
    · rfl
    · split <;> rfl
  all_goals
    cases h
    exact calls_of_eq rfl

theorem updateState_calls (hchunks : cfg.cactusMode ≠ 0 → 0 < cfg.refchunks / cfg.cactusReset)
    (hn : Names cfg cs.cactusPendingCounterIdx) (hp : Pointed cfg cs)
    (hrank : cmd.isRefresh → ∃ k : ℕ, cmd.rank = k) (h : cs.updateState cfg cmd = .ok cs') :
    Calls cfg cs cs' := by
  obtain ⟨bs, _, hserved⟩ := updateState_eq h
  have hbanks : Calls cfg cs { cs with bankStates := bs } := calls_of_eq rfl
  apply hbanks.trans
  rcases hserved with ⟨_, h⟩ | ⟨_, _, h⟩ | ⟨_, _, rfl⟩
  · exact rankServed_calls hchunks hn (hp.calls hbanks) hrank h
  · unfold banksetServed at h
    split_ifs at h with _ _ href
    · cases h
      exact calls_of_eq (needRFM_counters _ _ _)
    · cases h
      exact calls_of_eq (needRFM_counters _ _ _)
    · refine ((refreshTrackers_calls hchunks (hrank href)).before ?_).after (updateREFCounter_counters h)
      rfl
    · cases h
      exact .refl
  · unfold bankServed
    split_ifs
    · exact calls_of_eq rfl
    · exact calls_of_eq (needRFM_counters _ _ _)
    · exact .refl

theorem updateTimingAndStates_calls
    (hchunks : cfg.cactusMode ≠ 0 → 0 < cfg.refchunks / cfg.cactusReset)
    (hn : Names cfg cs.cactusPendingCounterIdx) (hp : Pointed cfg cs)
    (hrank : cmd.isRefresh → ∃ k : ℕ, cmd.rank = k) {origin : Origin}
    (h : cs.updateTimingAndStates cfg cmd clk origin = .ok cs') : Calls cfg cs cs' := by
  obtain ⟨cs₁, h₁, h⟩ := bind_ok_iff.mp h
  obtain ⟨cs₂, h₂, h⟩ := bind_ok_iff.mp h
  cases h
  have hnote : Calls cfg cs (cs.record (.issue cmd clk origin cs.bankStates)) := calls_of_eq rfl
  apply (hnote.trans (updateState_calls hchunks hn (hp.calls hnote) hrank h₁)).trans
  obtain ⟨⟨bs, htiming⟩, _⟩ := applyTiming_eq cs₂ clk (timingUpdates cfg cmd)
  obtain ⟨_, _, _, _, _, _, rfl, _⟩ := countAndAlert_eq h₂
  rw [htiming]
  exact calls_of_eq rfl

end ChannelState

namespace Chan
open ChannelState
variable {cfg : Config} {π : Micro.Policy} {v v' : Chan}

/-- Every step of a channel makes calls on the counters. -/
theorem Step.calls (hchunks : cfg.cactusMode ≠ 0 → 0 < cfg.refchunks / cfg.cactusReset)
    (hreg : Regular cfg v.cs) (hn : Names cfg v.cs.cactusPendingCounterIdx) (hp : Pointed cfg v.cs)
    (hrank : ∀ p, v.ticket = some p → p.cmd.isRefresh → ∃ k : ℕ, p.cmd.rank = k) (h : Step cfg π v v') :
    Calls cfg v.cs v'.cs := by
  cases h with
  | environment | requestRefresh => exact calls_of_eq rfl
  | drop | tock => exact .refl
  | tick => exact calls_of_eq clockTick_counters
  | query ha h => exact h.calls hreg ha
  | pick _ ha _ h => exact h.calls hreg ha
  | hydraQuery h =>
    obtain ⟨⟨_, _, _, rfl⟩, _⟩ := getReadyHydraCommand_eq h
    exact calls_of_eq rfl
  | pickHydra _ h =>
    obtain ⟨⟨_, _, _, rfl⟩, _⟩ := getReadyHydraCommand_eq h
    exact calls_of_eq rfl
  | issue h => exact updateTimingAndStates_calls hchunks hn hp (hrank _ rfl) h

end Chan

/-- The calls that lead to a state are those of a run of the counters. -/
theorem CounterRun.exists_run {cfg : Config} {boot : Boot cfg} {cs : ChannelState}
    (h : ChannelState.Calls cfg boot.channelState cs) : ∃ (ops : List (CounterOp cfg)) (s : CounterRun),
      (CounterRun.start boot).run ops = .ok s ∧ s.cs = cs := by
  induction h with
  | refl => exact ⟨[], _, rfl, rfl⟩
  | @tail _ cs' _ hc ih =>
    obtain ⟨ops, s, hrun, rfl⟩ := ih
    obtain ⟨op, hop⟩ := hc
    have hstep := step_ok_iff.mpr ⟨_, hop, rfl⟩
    refine ⟨ops ++ [op], ⟨cs', CounterOp.cleared cfg s.cs cs' ++ (op.events s.cs ++ s.history)⟩, ?_, rfl⟩
    unfold run at hrun ⊢
    rw [List.foldlM_append, hrun]
    change (s.step op >>= pure) = _
    rw [hstep]
    rfl

/-- In a run of the controller the channel makes calls on the counters only. -/
theorem Micro.Reached.calls {cfg : Config} {π : Micro.Policy} {m : Micro}
    (hchunks : cfg.cactusMode ≠ 0 → 0 < cfg.refchunks / cfg.cactusReset) (h : Micro.Reached cfg π m) :
    ChannelState.Pointed cfg m.ctl.channelState ∧ ∃ boot : Boot cfg,
      ChannelState.Calls cfg boot.channelState m.ctl.channelState := by
  have : Micro.Reached cfg π m ∧ ChannelState.Pointed cfg m.ctl.channelState ∧ ∃ boot : Boot cfg,
      ChannelState.Calls cfg boot.channelState m.ctl.channelState := by
    refine h.induct (P := fun m => Micro.Reached cfg π m ∧
      ChannelState.Pointed cfg m.ctl.channelState ∧ ∃ boot : Boot cfg,
        ChannelState.Calls cfg boot.channelState m.ctl.channelState) (fun boot => ?_) fun m m' hm hs => ?_
    · have hnone : Names cfg boot.channelState.cactusTrefMaxCounterIdx :=
        fun _ hk => absurd hk (show ¬(0 : ℤ) ≤ -1 by decide)
      exact ⟨⟨boot, .refl⟩, ⟨boot.cactusInvRowPerms_lt, hnone⟩, boot, .refl⟩
    · obtain ⟨hr, hp, boot, hcalls⟩ := hm
      refine ⟨hr.step (.single hs), ?_⟩
      rcases hs.chan hr.wellQueued with hc | hc
      · have hrank (p : Pick) (hticket : m.ticket = some p) (href : p.cmd.isRefresh) :
            ∃ k : ℕ, p.cmd.rank = k := by
          have hmem := List.mem_of_mem_head? (hr.ordered.ticket p hticket href)
          obtain ⟨_, k, _, hk⟩ := hr.refreshQ_asked p.cmd hmem
          exact ⟨k, hk⟩
        have hstep := hc.calls hchunks hr.ready.regular hr.names hp hrank
        exact ⟨hp.calls hstep, boot, hcalls.trans hstep⟩
      · have hsame : m'.ctl.channelState = m.ctl.channelState := congrArg Chan.cs hc
        rw [hsame]
        exact ⟨hp, boot, hcalls⟩
  exact this.2

/-- Every state of a channel in a run, also inside a tick, is the state of a run of the counters. -/
theorem Micro.Reached.counterRun {cfg : Config} {π : Micro.Policy} {m : Micro}
    (hchunks : cfg.cactusMode ≠ 0 → 0 < cfg.refchunks / cfg.cactusReset) (h : Micro.Reached cfg π m) :
    ∃ (boot : Boot cfg) (ops : List (CounterOp cfg)) (s : CounterRun),
      (CounterRun.start boot).run ops = .ok s ∧ s.cs = m.ctl.channelState := by
  obtain ⟨_, boot, hcalls⟩ := h.calls hchunks
  exact ⟨boot, CounterRun.exists_run hcalls⟩

theorem Reachable.counterRun {cfg : Config} {c : Controller}
    (hchunks : cfg.cactusMode ≠ 0 → 0 < cfg.refchunks / cfg.cactusReset) (h : Reachable cfg c) :
    ∃ (boot : Boot cfg) (ops : List (CounterOp cfg)) (s : CounterRun),
      (CounterRun.start boot).run ops = .ok s ∧ s.cs = c.channelState :=
  (Micro.reached_of_reachable h).counterRun hchunks

end CactusDram

import CactusDram.Channel.Banks
import CactusDram.Graphene
import CactusDram.Samplers

/-! The samplers of the banks never hold more rows than they have room for. Under the eager policy a
full sampler stops the trackers, under the lazy one it stops the bank. -/
namespace CactusDram
open Foundations

/-- How many trackers feed the sampler of a bank. -/
def Config.trackers (cfg : Config) : ℕ :=
  [cfg.mintMode, cfg.paraMode, cfg.grapheneMode, cfg.hydraMode].countP (· ≠ 0)

/-- One place for a tracker that is on. -/
def oneIf (mode : ℤ) : ℕ := if mode = 0 then 0 else 1

theorem Config.trackers_eq (cfg : Config) : cfg.trackers =
    oneIf cfg.mintMode + oneIf cfg.paraMode + oneIf cfg.grapheneMode + oneIf cfg.hydraMode := by
  simp only [Config.trackers, List.countP_cons, List.countP_nil, oneIf, decide_not]
  split_ifs <;> simp_all

namespace BankState
variable {cfg : Config} {b b' : BankState} {cmd : Command}

theorem mintPreact_sampler (cfg : Config) (b : BankState) (rowid : ℕ) (draws : List ℕ) :
    (b.mintPreact cfg rowid draws).1.drfmQ.length ≤ b.drfmQ.length + oneIf cfg.mintMode := by
  unfold mintPreact oneIf
  dsimp only
  split_ifs <;> simp

theorem paraPreact_sampler (cfg : Config) (b : BankState) (rowid : ℕ) (draws : List ℕ) :
    (b.paraPreact cfg rowid draws).1.drfmQ.length ≤ b.drfmQ.length + oneIf cfg.paraMode := by
  unfold paraPreact oneIf
  split_ifs <;> simp

theorem graphenePreact_sampler (cfg : Config) (b : BankState) (rowid : ℕ) :
    (b.graphenePreact cfg rowid).drfmQ.length ≤ b.drfmQ.length + oneIf cfg.grapheneMode := by
  unfold graphenePreact oneIf
  split_ifs
  · simp
  · dsimp only
    split
    · simp [grapheneCount_drfmQ]
    · simp [grapheneCount_drfmQ]

theorem hydraPreact_sampler (cfg : Config) (b : BankState) (cmd : Command) (rcc : LRUCache) :
    (b.hydraPreact cfg cmd rcc).1.drfmQ.length ≤ b.drfmQ.length + oneIf cfg.hydraMode := by
  unfold hydraPreact oneIf
  dsimp only
  split_ifs <;> simp

/-- An activation inserts at most one row for each tracker. -/
theorem preACT_sampler (cfg : Config) (b : BankState) (cmd : Command) (draws : List ℕ)
    (rcc : LRUCache) :
    (b.preACT cfg cmd draws rcc).1.drfmQ.length ≤ b.drfmQ.length + cfg.trackers := by
  obtain ⟨b₁, draws₁, hb₁⟩ : ∃ b₁ draws₁, b.mintPreact cfg (u32 cmd.row) draws = (b₁, draws₁) :=
    ⟨_, _, rfl⟩
  obtain ⟨b₂, draws₂, hb₂⟩ : ∃ b₂ draws₂, b₁.paraPreact cfg (u32 cmd.row) draws₁ = (b₂, draws₂) :=
    ⟨_, _, rfl⟩
  have hmint : b₁.drfmQ.length ≤ b.drfmQ.length + oneIf cfg.mintMode := by
    simpa [hb₁] using b.mintPreact_sampler cfg (u32 cmd.row) draws
  have hpara : b₂.drfmQ.length ≤ b₁.drfmQ.length + oneIf cfg.paraMode := by
    simpa [hb₂] using b₁.paraPreact_sampler cfg (u32 cmd.row) draws₁
  have hgraphene := b₂.graphenePreact_sampler cfg (u32 cmd.row)
  have hhydra := (b₂.graphenePreact cfg (u32 cmd.row)).hydraPreact_sampler cfg cmd rcc
  have hall : (b.preACT cfg cmd draws rcc).1 =
      ((b₂.graphenePreact cfg (u32 cmd.row)).hydraPreact cfg cmd rcc).1 := by
    simp only [preACT, hb₁, hb₂]
  rw [hall, cfg.trackers_eq]
  omega

theorem drfmMitig_sampler (b : BankState) : b.drfmMitig.2.drfmQ.length = b.drfmQ.length - 1 := by
  unfold drfmMitig
  dsimp only
  split
  · rename_i e he
    have hlt := (List.getElem?_eq_some_iff.mp he).1
    simp [List.length_eraseIdx, hlt]
  · rename_i hnone
    have hle := List.getElem?_eq_none_iff.mp hnone
    have hnil : b.drfmQ = [] := by
      by_contra hne
      have := maxIdx_lt (l := b.drfmQ.map (·.ctr)) (by simpa using hne)
      rw [List.length_map] at this
      omega
    simp [hnil]

theorem samplerMitig_sampler (b : BankState) (mode : ℤ) :
    (b.samplerMitig mode).drfmQ.length = b.drfmQ.length - oneIf mode := by
  unfold samplerMitig oneIf
  split_ifs
  · rfl
  · exact b.drfmMitig_sampler

theorem grapheneMitig_sampler (cfg : Config) (b : BankState) :
    (b.grapheneMitig cfg).drfmQ.length = b.drfmQ.length - oneIf cfg.grapheneMode := by
  unfold grapheneMitig oneIf
  split_ifs
  · rfl
  · exact b.drfmMitig_sampler

theorem hydraMitig_sampler (cfg : Config) (b : BankState) :
    (b.hydraMitig cfg).drfmQ.length = b.drfmQ.length - oneIf cfg.hydraMode := by
  have h := b.drfmMitig_sampler
  unfold hydraMitig oneIf
  split_ifs
  · rfl
  · split <;> rename_i heq <;> rw [heq] at h <;> exact h

/-- A DRFM takes one row out for each tracker. -/
theorem mitigated_sampler (hdream : cfg.dreamMode = 0) (habacus : cfg.abacusMode = 0)
    (b : BankState) : (mitigated cfg b).drfmQ.length = b.drfmQ.length - cfg.trackers := by
  have hoff : oneIf 0 = 0 := rfl
  simp only [mitigated, dreamMitig, mintMitig, paraMitig, abacusMitig, samplerMitig_sampler,
    grapheneMitig_sampler, hydraMitig_sampler, hdream, habacus, hoff, cfg.trackers_eq]
  omega

/-- There is room for every sampled row, and under the lazy policy for one more unless the bank
waits for its DRFM. -/
def Roomy (cfg : Config) (b : BankState) : Prop :=
  (b.drfmQ.length : ℤ) ≤ cfg.drfmQsize ∧
    (cfg.drfmPolicy = 1 → b.drfmIssued = false → (b.drfmQ.length : ℤ) < cfg.drfmQsize)

theorem Roomy.of_le (h : b.Roomy cfg) (hlen : b'.drfmQ.length ≤ b.drfmQ.length)
    (hissued : b'.drfmIssued = b.drfmIssued) : b'.Roomy cfg := by
  refine ⟨?_, fun hpol hfree => ?_⟩
  · have := h.1
    omega
  · rw [hissued] at hfree
    have := h.2 hpol hfree
    omega

theorem Roomy.marked (h : b.Roomy cfg) : b.markDRFMIssued.Roomy cfg :=
  ⟨h.1, fun _ hfree => (nomatch hfree)⟩

/-- A sampler that is not full has room. -/
theorem lt_of_isSamplerFull (hmode : cfg.drfmMode ≠ 0) (hrange : cfg.drfmQsize < 2 ^ 31)
    (hsize : 1 ≤ cfg.drfmQsize) (h : b.isSamplerFull cfg = false) :
    (b.drfmQ.length : ℤ) < cfg.drfmQsize := by
  unfold isSamplerFull at h
  rw [if_neg hmode] at h
  split_ifs at h with hfull
  have hu : u32 cfg.drfmQsize = cfg.drfmQsize.toNat := by
    unfold u32
    rw [Int.emod_eq_of_lt (by omega) (by omega)]
  rw [hu] at hfull
  omega

theorem preACT_le (htrackers : cfg.trackers ≤ 1) (draws : List ℕ) (rcc : LRUCache)
    (hroom : (b.drfmQ.length : ℤ) < cfg.drfmQsize) :
    ((b.preACT cfg cmd draws rcc).1.drfmQ.length : ℤ) ≤ cfg.drfmQsize := by
  have := b.preACT_sampler cfg cmd draws rcc
  omega

theorem Roomy.updateState (hdream : cfg.dreamMode = 0) (habacus : cfg.abacusMode = 0)
    (htrackers : cfg.trackers = 1) (hsize : 1 ≤ cfg.drfmQsize) (hb : b.Roomy cfg)
    (h : b.updateState cfg cmd = .ok b') : b'.Roomy cfg := by
  have hlength (b b' : BankState) (h : b'.sampledRows = b.sampledRows) :
      b'.drfmQ.length = b.drfmQ.length := by
    simpa [sampledRows] using congrArg List.length h
  rcases updateState_trackers h with ⟨_, _, htab, hrows⟩ | ⟨_, hq, htab⟩ | ⟨_, rfl⟩
  · exact hb.of_le (hlength _ _ hrows).le (congrArg Tables.drfmIssued htab)
  · refine hb.of_le (by rw [hq]) ?_
    rcases htab with htab | ⟨b₀, hb₀, htab⟩
    · exact congrArg Tables.drfmIssued htab
    · have hkeep := (trackersRefresh_sampler b₀ cfg).2
      exact (congrArg Tables.drfmIssued htab).trans (hkeep.trans (congrArg Tables.drfmIssued hb₀))
  · have hlen := mitigated_sampler hdream habacus { b with lastCmd := some cmd }
    rw [htrackers] at hlen
    dsimp only at hlen
    have hle := hb.1
    have hlt : ((mitigated cfg { b with lastCmd := some cmd }).drfmQ.length : ℤ) < cfg.drfmQsize := by
      omega
    rw [Roomy, rfmAbServed_drfmQ]
    exact ⟨hlt.le, fun _ _ => hlt⟩

end BankState

/-- One tracker samples rows for DRFMs, under either policy; the counters that the banks share are
off. The size of the sampler is an `int`. -/
structure Config.Samples (cfg : Config) : Prop where
  mode : cfg.drfmMode = 1 ∨ cfg.drfmMode = 2 ∨ cfg.drfmMode = 3
  policy : cfg.drfmPolicy = 0 ∨ cfg.drfmPolicy = 1
  qsize : 1 ≤ cfg.drfmQsize ∧ cfg.drfmQsize < 2 ^ 31
  one : cfg.trackers = 1
  dream : cfg.dreamMode = 0
  abacus : cfg.abacusMode = 0

theorem Config.Samples.on {cfg : Config} (h : cfg.Samples) : cfg.drfmMode ≠ 0 := by
  have := h.mode
  omega

/-- The trackers have run for an activation of the bank. -/
def Event.preacts (i : BankId) : Event → Bool
  | .hook bank _ _ _ _ _ => bank = i
  | _ => false

theorem Event.preacts_of_internal {i : BankId} {e : Event} (h : e.internal) : e.preacts i = false := by
  cases e <;> simp_all [Event.internal, Event.preacts]

theorem Event.preacts_of_crossing {i : BankId} {e : Event} (h : e.crossing) : e.preacts i = false := by
  cases e <;> simp_all [Event.crossing, Event.preacts]

namespace ChannelState
variable {cfg : Config} {cs cs' : ChannelState} {cmd r : Command} {clk : ℕ}

/-- How often the trackers have run for the bank. -/
def preactsOf (cs : ChannelState) (i : BankId) : ℕ := cs.log.countP (Event.preacts i)

theorem preactHooks_full {full : Bool} (h : cs.preactHooks cfg cmd clk = .ok (full, cs')) :
    full = ((cs.bankStates cmd.bankId).preACT cfg cmd cs.draws cs.rcc).1.isSamplerFull cfg := by
  unfold preactHooks at h
  dsimp only at h
  obtain ⟨cs₁, _, h⟩ := bind_ok_iff.mp h
  obtain ⟨cs₂, _, h⟩ := bind_ok_iff.mp h
  cases h
  rfl

/-- Without shared counters the hooks only concern one bank. -/
theorem preactHooks_banks (hcfg : cfg.Samples) {full : Bool}
    (h : cs.preactHooks cfg cmd clk = .ok (full, cs')) : cs'.bankStates =
      Function.update cs.bankStates cmd.bankId
        ((cs.bankStates cmd.bankId).preACT cfg cmd cs.draws cs.rcc).1 := by
  obtain ⟨hh⟩ := preactHooks_hooked h
  have hdream : hh.dream = {} := by
    rcases hh.hdream with ⟨_, hd⟩ | ⟨hmode, _⟩
    · exact hd
    · exact absurd hcfg.dream hmode
  have habacus : hh.abacus = {} := by
    rcases hh.habacus with ⟨_, ha⟩ | ⟨hmode, _⟩
    · exact ha
    · exact absurd hcfg.abacus hmode
  rw [hh.banks, hdream, habacus]
  funext j
  simp

theorem preactHooks_preactsOf {full : Bool} (h : cs.preactHooks cfg cmd clk = .ok (full, cs'))
    {i : BankId} (hi : i ≠ cmd.bankId) : cs'.preactsOf i = cs.preactsOf i := by
  obtain ⟨alert, inflight, crossings, hlog, hcross⟩ := preactHooks_log h
  have hnone : crossings.countP (Event.preacts i) = 0 :=
    List.countP_eq_zero.mpr fun e he => by simp [Event.preacts_of_crossing (hcross e he)]
  unfold preactsOf
  rw [hlog, List.cons_append, List.countP_cons, List.countP_append, hnone]
  simp [Event.preacts, hi.symm]

/-- In front of an activation that a bank asks for, its sampler has room, unless the eager policy
holds the activation back. -/
theorem room_of_activation (hcfg : cfg.Samples) {b : BankState} (hb : b.Roomy cfg)
    (hreq : b.getReadyCommand cfg cmd clk = .ok (some (activation cmd)))
    (hfree : cfg.drfmPolicy = 0 → b.isSamplerFull cfg = false) :
    (b.drfmQ.length : ℤ) < cfg.drfmQsize := by
  obtain ⟨ty, hty, _, heq⟩ := BankState.getReadyCommand_some_iff.mp hreq
  obtain rfl : ty = .activate := (congrArg Command.cmdType heq).symm
  rcases hcfg.policy with hpol | hpol
  · exact BankState.lt_of_isSamplerFull hcfg.on hcfg.qsize.2 hcfg.qsize.1 (hfree hpol)
  · exact hb.2 hpol (BankState.drfmIssued_of_requires_activate hty)

theorem Answer.roomy (hcfg : cfg.Samples) (hcs : ∀ i, (cs.bankStates i).Roomy cfg)
    {r? : Option Command} (h : Answer cfg cs cmd clk r? cs') (i : BankId) :
    (cs'.bankStates i).Roomy cfg := by
  cases h with
  | wait | divert | allReady | single => exact hcs i
  | needRFMsb =>
    rw [banksetNeedRFM, needRFM_bankStates]
    exact hcs i
  | needRFMab =>
    rw [rankNeedRFM, needRFM_bankStates]
    exact hcs i
  | eager _ _ h _ =>
    rw [(launchDRFM_exact h).2]
    by_cases hi : i = cmd.bankId
    · subst hi
      simpa [launched, modifyBank] using (hcs cmd.bankId).marked
    · simpa [launched, modifyBank, hi] using hcs i
  | hydraWait h =>
    obtain ⟨_, _, _, rfl⟩ := hydraCheck_eq h
    exact hcs i
  | lazy hpol hcheck hhook h hb =>
    obtain ⟨rcc, _, _, rfl⟩ := hydraCheck_eq hcheck
    have hroom := room_of_activation hcfg (hcs cmd.bankId) hb fun hzero => by omega
    rw [(launchDRFM_exact h).2]
    by_cases hi : i = cmd.bankId
    · subst hi
      have hle : (((cs.bankStates cmd.bankId).preACT cfg cmd cs.draws rcc).1.drfmQ.length : ℤ) ≤
          cfg.drfmQsize := BankState.preACT_le hcfg.one.le cs.draws rcc hroom
      refine ⟨?_, fun _ hfree => ?_⟩
      · simpa [launched, modifyBank, preactHooks_banks hcfg hhook, BankState.markDRFMIssued] using hle
      · simp [launched, modifyBank, BankState.markDRFMIssued] at hfree
    · simpa [launched, modifyBank, preactHooks_banks hcfg hhook, hi] using hcs i
  | activate hpol hcheck hhook hb hfree =>
    obtain ⟨_, _, _, rfl⟩ := hydraCheck_eq hcheck
    have hroom := room_of_activation hcfg (hcs cmd.bankId) hb hfree
    have hfull := preactHooks_full hhook
    rw [preactHooks_banks hcfg hhook]
    by_cases hi : i = cmd.bankId
    · subst hi
      rw [Function.update_self]
      refine ⟨BankState.preACT_le hcfg.one.le _ _ hroom, fun hone _ => ?_⟩
      exact BankState.lt_of_isSamplerFull hcfg.on hcfg.qsize.2 hcfg.qsize.1
        (hfull.symm.trans (hpol hone))
    · rw [Function.update_of_ne hi]
      exact hcs i

/-- A query runs the trackers of a bank only while its sampler has room. -/
theorem Answer.preactsOf (hcfg : cfg.Samples) (hcs : ∀ i, (cs.bankStates i).Roomy cfg)
    {r? : Option Command} (h : Answer cfg cs cmd clk r? cs') (i : BankId) :
    cs'.preactsOf i = cs.preactsOf i ∨ ((cs.bankStates i).drfmQ.length : ℤ) < cfg.drfmQsize := by
  cases h with
  | wait | divert | allReady | single => exact .inl rfl
  | needRFMsb => exact .inl (congrArg (List.countP _) (needRFM_log _ _ _))
  | needRFMab => exact .inl (congrArg (List.countP _) (needRFM_log _ _ _))
  | eager _ _ h _ => exact .inl (congrArg (List.countP _) (launchDRFM_log h))
  | hydraWait h => exact .inl (congrArg (List.countP _) (hydraCheck_log h))
  | lazy hpol hcheck hhook h hb =>
    by_cases hi : i = cmd.bankId
    · subst hi
      exact .inr (room_of_activation hcfg (hcs cmd.bankId) hb fun hzero => by omega)
    · have hlog := congrArg (List.countP (Event.preacts i)) (launchDRFM_log h)
      exact .inl (hlog.trans ((preactHooks_preactsOf hhook hi).trans
        (congrArg (List.countP _) (hydraCheck_log hcheck))))
  | activate hpol hcheck hhook hb hfree =>
    by_cases hi : i = cmd.bankId
    · subst hi
      exact .inr (room_of_activation hcfg (hcs cmd.bankId) hb hfree)
    · exact .inl ((preactHooks_preactsOf hhook hi).trans
        (congrArg (List.countP _) (hydraCheck_log hcheck)))

end ChannelState

namespace Chan
open ChannelState
variable {cfg : Config} {π : Micro.Policy} {v v' : Chan}

theorem roomy_step (hcfg : cfg.Samples) (hv : ∀ i, (v.cs.bankStates i).Roomy cfg)
    (h : Step cfg π v v') (i : BankId) : (v'.cs.bankStates i).Roomy cfg := by
  cases h with
  | environment | requestRefresh | drop | tock => exact hv i
  | tick =>
    dsimp only
    rw [clockTick_bankStates]
    exact hv i
  | query _ h => exact h.roomy hcfg hv i
  | pick _ _ _ h => exact h.roomy hcfg hv i
  | hydraQuery h =>
    obtain ⟨⟨_, _, _, rfl⟩, _⟩ := getReadyHydraCommand_eq h
    exact hv i
  | pickHydra _ h =>
    obtain ⟨⟨_, _, _, rfl⟩, _⟩ := getReadyHydraCommand_eq h
    exact hv i
  | @issue _ _ p _ _ h =>
    obtain ⟨b, hin, hout, hleft⟩ := updateTimingAndStates_banks h i
    have hb : b.Roomy cfg := by
      by_cases hi : i ∈ covered cfg p.cmd
      · exact (hv i).updateState hcfg.dream hcfg.abacus hcfg.one hcfg.qsize.1 (hin hi)
      · rw [hout hi]
        exact hv i
    refine hb.of_le hleft.sampler.length_le ?_
    obtain ⟨_, _, _, heq⟩ := hleft.eq
    rw [heq]

theorem Step.preactsOf (hcfg : cfg.Samples) (hv : ∀ i, (v.cs.bankStates i).Roomy cfg)
    (h : Step cfg π v v') (i : BankId) : v'.cs.preactsOf i = v.cs.preactsOf i ∨
      ((v.cs.bankStates i).drfmQ.length : ℤ) < cfg.drfmQsize := by
  cases h with
  | environment | requestRefresh | drop | tock => exact .inl rfl
  | tick => exact .inl (congrArg (List.countP _) clockTick_log)
  | query _ h => exact h.preactsOf hcfg hv i
  | pick _ _ _ h => exact h.preactsOf hcfg hv i
  | hydraQuery h => exact .inl (congrArg (List.countP _) (getReadyHydraCommand_log h))
  | pickHydra _ h => exact .inl (congrArg (List.countP _) (getReadyHydraCommand_log h))
  | issue h =>
    obtain ⟨extra, hlog, hextra⟩ := (updateTimingAndStates_issued h).log
    have hnone : extra.countP (Event.preacts i) = 0 :=
      List.countP_eq_zero.mpr fun e he => by simp [Event.preacts_of_internal (hextra e he)]
    refine .inl ?_
    dsimp only
    unfold ChannelState.preactsOf
    rw [hlog, List.countP_append, List.countP_cons, hnone]
    simp [Event.preacts]

end Chan

theorem Micro.Reached.roomy {cfg : Config} (hcfg : cfg.Samples) {π : Micro.Policy} {m : Micro}
    (hm : Micro.Reached cfg π m) (i : BankId) : (m.chan.cs.bankStates i).Roomy cfg := by
  have hboot (boot : Boot cfg) (j : BankId) : (boot.channelState.bankStates j).Roomy cfg := by
    have hsize := hcfg.qsize.1
    constructor
    · change (0 : ℤ) ≤ cfg.drfmQsize
      omega
    · intro _ _
      change (0 : ℤ) < cfg.drfmQsize
      omega
  exact hm.chan_induct (P := fun v => ∀ i, (v.cs.bankStates i).Roomy cfg) hboot
    (fun _ _ hv hs => Chan.roomy_step hcfg hv hs) i

/-- In every run of a channel with one DRFM tracker, no sampler ever holds more rows than its size;
and whenever the trackers of a bank are run, its sampler has room for one more. -/
theorem sampler_queue_bounded (cfg : Config) (hcfg : cfg.Samples) :
    (∀ c i, Reachable cfg c →
      ((c.channelState.bankStates i).drfmQ.length : ℤ) ≤ cfg.drfmQsize) ∧
    ∀ m m' i, Micro.Reached cfg .free m → Micro.Step cfg .free m m' →
      ((m.ctl.channelState.bankStates i).drfmQ.length : ℤ) ≤ cfg.drfmQsize ∧
      (m.ctl.channelState.preactsOf i < m'.ctl.channelState.preactsOf i →
        ((m.ctl.channelState.bankStates i).drfmQ.length : ℤ) < cfg.drfmQsize) := by
  constructor
  · intro c i hc
    exact ((Micro.reached_of_reachable hc).roomy hcfg i).1
  · intro m m' i hm hs
    refine ⟨(hm.roomy hcfg i).1, fun hlt => ?_⟩
    rcases hs.chan hm.wellQueued with hc | hc
    · rcases hc.preactsOf hcfg (hm.roomy hcfg) i with hsame | hroom
      · exact absurd hsame hlt.ne'
      · exact hroom
    · have hsame := congrArg (fun v => v.cs.preactsOf i) hc
      exact absurd hsame hlt.ne'

/-- Every activation is sampled, and a sampler holds one row. -/
def samplerConfig : Config :=
  { smallConfig with mintMode := 1, mintWindow := 1, drfmMode := 1, drfmPolicy := 1, drfmQsize := 1 }

theorem samplerConfig_samples : samplerConfig.Samples :=
  ⟨.inl rfl, .inr rfl, by decide, rfl, rfl, rfl⟩

theorem sampler_queue_bounded_small : samplerConfig.Samples ∧ ∃ c, Reachable samplerConfig c ∧
    c.channelState.preactsOf ⟨0, 0, 0⟩ = 1 ∧
    (c.channelState.bankStates ⟨0, 0, 0⟩).drfmQ.length = 1 ∧
    ((c.channelState.bankStates ⟨0, 0, 0⟩).drfmQ.length : ℤ) ≤ samplerConfig.drfmQsize := by
  obtain ⟨c, hrun, hc⟩ := exists_ok_of_any
    (x := Controller.run samplerConfig ({} : Boot samplerConfig).controller (Input.request 0 false 2))
    (p := fun c => c.channelState.preactsOf ⟨0, 0, 0⟩ = 1 ∧
      (c.channelState.bankStates ⟨0, 0, 0⟩).drfmQ.length = 1) (by decide +kernel)
  obtain ⟨hpreacts, hlen⟩ := of_decide_eq_true hc
  have hr : Reachable samplerConfig c := ⟨{}, _, hrun⟩
  exact ⟨samplerConfig_samples, c, hr, hpreacts, hlen,
    (sampler_queue_bounded samplerConfig samplerConfig_samples).1 c _ hr⟩

end CactusDram

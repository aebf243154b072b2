import CactusDram.Maintenance
import CactusDram.Foundations.Stretches
import CactusDram.Foundations.Windows

/-! The chunks of counters that REFab commands reset, along the history of a channel. -/
namespace CactusDram
open Foundations

def Event.isReset : Event → Bool
  | .cactusReset _ _ | .dreamReset _ _ | .abacusReset _ _ => true
  | _ => false

/-- The rank of an issued REFab. -/
def Event.refab? : Event → Option ℤ
  | .issue cmd _ _ _ => if cmd.cmdType = .refAb then some cmd.rank else none
  | _ => none

namespace BankState
variable {cfg : Config} {b b' : BankState} {cmd : Command}

theorem rfmAbServed_refIdx : (b.rfmAbServed cfg).refIdx = b.refIdx := by
  obtain ⟨_, _, _, h⟩ := b.rfmAbServed_eq cfg
  rw [h]

theorem drfmServed_refIdx : (b.drfmServed cfg).refIdx = b.refIdx := by
  unfold drfmServed
  dsimp only
  rw [rfmAbServed_refIdx]
  dsimp only
  rw [trackersMitig_core]

theorem activated_refIdx : (b.activated cfg cmd).refIdx = b.refIdx := by
  have hdrfm (b : BankState) (row : ℕ) : (b.drfmPostAct row).refIdx = b.refIdx := by
    unfold drfmPostAct
    split <;> rfl
  unfold activated
  dsimp only
  rw [hdrfm]
  unfold moatAct
  split_ifs <;> rfl

/-- Only a refresh moves the refresh pointer of a bank. -/
theorem updateState_refIdx (hcmd : cmd.isRefresh = false) (h : b.updateState cfg cmd = .ok b') :
    b'.refIdx = b.refIdx := by
  obtain ⟨ty, addr, hex⟩ := cmd
  unfold updateState at h
  cases hs : b.state <;> cases ty <;> simp only [hs] at h <;> cases h <;>
    first
    | rfl
    | exact drfmServed_refIdx
    | exact rfmAbServed_refIdx
    | exact activated_refIdx
    | simp [Command.isRefresh] at hcmd

/-- The pointer of a refreshed bank and the counts it leaves. -/
theorem refreshed_eq (hfgr : cfg.fgr = false) (b : BankState) :
    (b.refreshed cfg).refIdx = (b.refIdx + cfg.rowsRefreshed) % cfg.rows ∧
      (b.refreshed cfg).prac = (List.range cfg.rowsRefreshed).foldl
        (fun prac i => Function.update prac ((b.refIdx + i) % cfg.rows) 0) b.prac := by
  have hmoat (b : BankState) :
      ((b.moatRefresh cfg).refIdx, (b.moatRefresh cfg).prac) = (b.refIdx, b.prac) := by
    unfold moatRefresh
    split_ifs <;> rfl
  unfold refreshed
  dsimp only
  rw [if_pos (by simp [hfgr])]
  generalize hb : ({ b with fgrCounter := (b.fgrCounter + 1) % 2
                            raaCtr := b.raaCtr - min b.raaCtr cfg.refRaaDecrement } : BankState) = b₁
  have hsame : (((b₁.grapheneRefresh cfg).hydraRefresh cfg).refIdx,
      ((b₁.grapheneRefresh cfg).hydraRefresh cfg).prac) = (b.refIdx, b.prac) := by
    rw [hydraRefresh_core, grapheneRefresh_core, ← hb]
  obtain ⟨hidx, hprac⟩ := Prod.mk.inj ((hmoat ((b₁.grapheneRefresh cfg).hydraRefresh cfg)).trans hsame)
  unfold pracRefresh
  dsimp only
  rw [hidx, hprac]
  exact ⟨rfl, rfl⟩

theorem updateState_refAb (hcmd : cmd.cmdType = .refAb) (h : b.updateState cfg cmd = .ok b') :
    b' = ({ b with lastCmd := some cmd } : BankState).refreshed cfg := by
  unfold updateState at h
  cases hs : b.state <;> simp only [hs, hcmd] at h <;> cases h
  rfl

theorem updateState_refIdx_refAb (hfgr : cfg.fgr = false) (hcmd : cmd.cmdType = .refAb)
    (h : b.updateState cfg cmd = .ok b') :
    b'.refIdx = (b.refIdx + cfg.rowsRefreshed) % cfg.rows := by
  rw [updateState_refAb hcmd h]
  exact (refreshed_eq hfgr _).1

end BankState

namespace ChannelState
variable {cfg : Config} {cs cs' : ChannelState} {cmd : Command} {clk : ℕ}

/-- Bookkeeping that resets no chunk, issues nothing and moves no refresh pointer. -/
structure Quiet (cs cs' : ChannelState) : Prop where
  log : ∃ extra, cs'.log = extra ++ cs.log ∧ ∀ e ∈ extra, e.isReset = false ∧ e.refab? = none
  refIdx : cs'.refIdx = cs.refIdx
  banks : ∀ i, (cs'.bankStates i).refIdx = (cs.bankStates i).refIdx

namespace Quiet

theorem of_eq (hlog : cs'.log = cs.log) (hidx : cs'.refIdx = cs.refIdx)
    (hbanks : ∀ i, (cs'.bankStates i).refIdx = (cs.bankStates i).refIdx) : Quiet cs cs' :=
  ⟨⟨[], hlog, by simp⟩, hidx, hbanks⟩

theorem refl (cs : ChannelState) : Quiet cs cs := of_eq rfl rfl fun _ => rfl

theorem trans {cs₁ cs₂ cs₃ : ChannelState} (h : Quiet cs₁ cs₂) (h' : Quiet cs₂ cs₃) :
    Quiet cs₁ cs₃ := by
  obtain ⟨ex, hex, hq⟩ := h.log
  obtain ⟨ex', hex', hq'⟩ := h'.log
  refine ⟨⟨ex' ++ ex, by rw [hex', hex, List.append_assoc], fun e he => ?_⟩,
    h'.refIdx.trans h.refIdx, fun i => (h'.banks i).trans (h.banks i)⟩
  obtain he | he := List.mem_append.mp he
  · exact hq' e he
  · exact hq e he

end Quiet

theorem quiet_needRFM (req : Command) (target : Command → Bool) (need : Bool) :
    Quiet cs (cs.needRFM req target need) := by
  unfold needRFM
  split_ifs <;> exact .of_eq rfl rfl fun _ => rfl

theorem quiet_cactusMitigCounter {rank : ℤ} {idx : ℕ}
    (h : cs.cactusMitigCounter cfg rank idx = .ok cs') : Quiet cs cs' := by
  have hmitig (b : BankState) (aggressor : ℕ) :
      (b.cactusMitig cfg aggressor).refIdx = b.refIdx := by
    simp only [BankState.cactusMitig, apply_ite (fun b : BankState => b.refIdx),
      BankState.refreshRow, ite_self]
  unfold cactusMitigCounter at h
  split_ifs at h
  · cases h
    exact .refl cs
  · obtain ⟨cs₁, hfold, h⟩ := bind_ok_iff.mp h
    have hbanks : Quiet cs cs₁ := by
      refine foldlM_invariant (P := Quiet cs) (fun c i _ c' hc hi => hc.trans ?_) hfold (.refl cs)
      obtain ⟨aggressor, _, hi⟩ := bind_ok_iff.mp hi
      cases hi
      refine .of_eq rfl rfl fun j => ?_
      by_cases hj : j = i
      · subst hj
        simp [modifyBank, hmitig]
      · simp [modifyBank, Function.update_of_ne hj]
    refine hbanks.trans ?_
    dsimp only at h
    split_ifs at h <;> cases h <;>
      exact ⟨⟨[_], rfl, by simp [Event.isReset, Event.refab?]⟩, rfl, fun _ => rfl⟩

theorem quiet_clearPending (rank : ℤ) : Quiet cs (cs.clearPending rank) :=
  ⟨⟨[_], rfl, by simp [Event.isReset, Event.refab?]⟩, rfl, fun _ => rfl⟩

theorem quiet_clearInflight (rank : ℤ) : Quiet cs (cs.clearInflight rank) :=
  ⟨⟨[_], rfl, by simp [Event.isReset, Event.refab?]⟩, rfl, fun _ => rfl⟩

theorem quiet_clearAlert (rank : ℤ) : Quiet cs (cs.clearAlert rank) := .of_eq rfl rfl fun _ => rfl

theorem quiet_cactusMitig {rank : ℤ} (h : cs.cactusMitig cfg rank = .ok cs') : Quiet cs cs' := by
  unfold cactusMitig at h
  split_ifs at h
  · cases h
    exact .refl cs
  · cases h
    exact .refl cs
  · obtain ⟨cs₁, h₁, h⟩ := bind_ok_iff.mp h
    cases h
    exact (quiet_cactusMitigCounter h₁).trans (quiet_clearPending rank)

theorem quiet_cactusTrefMitig {rank : ℤ} (h : cs.cactusTrefMitig cfg rank = .ok cs') :
    Quiet cs cs' := by
  unfold cactusTrefMitig at h
  split_ifs at h
  · cases h
    exact .refl cs
  · cases h
    exact .refl cs
  · cases h
    exact .refl cs
  · obtain ⟨cs₁, h₁, h⟩ := bind_ok_iff.mp h
    cases h
    exact (((quiet_cactusMitig h₁).trans (quiet_clearAlert rank)).trans
      (quiet_clearInflight rank)).trans (quiet_needRFM _ _ _)

theorem quiet_cactusTrefMaxMitig {rank : ℤ} (h : cs.cactusTrefMaxMitig cfg rank = .ok cs') :
    Quiet cs cs' := by
  have hcount (f : ℤ → ℤ) : Quiet cs { cs with cactusTrefRefabCount := f } :=
    .of_eq rfl rfl fun _ => rfl
  unfold cactusTrefMaxMitig at h
  dsimp only at h
  split_ifs at h
  · cases h
    exact .refl cs
  · cases h
    exact .refl cs
  · cases h
    exact hcount _
  · cases h
    exact hcount _
  · cases h
    exact hcount _
  · obtain ⟨cs₁, h₁, h⟩ := bind_ok_iff.mp h
    have hs := (hcount _).trans (quiet_cactusMitigCounter h₁)
    split_ifs at h
    · cases h
      exact ((hs.trans (quiet_clearPending rank)).trans (quiet_clearAlert rank)).trans
        ((quiet_clearInflight rank).trans (quiet_needRFM _ _ _))
    · cases h
      exact hs

theorem quiet_dreamMitig : Quiet cs (cs.dreamMitig cfg) := by
  unfold dreamMitig
  split_ifs
  · exact .refl cs
  · split
    · exact .refl cs
    · exact ⟨⟨[_], rfl, by simp [Event.isReset, Event.refab?]⟩, rfl, fun _ => rfl⟩

theorem quiet_abacusMitig : Quiet cs (cs.abacusMitig cfg) := by
  unfold abacusMitig
  split_ifs
  · exact .refl cs
  · split
    · exact .refl cs
    · exact ⟨⟨[_], rfl, by simp [Event.isReset, Event.refab?]⟩, rfl, fun _ => rfl⟩

/-- Commands other than refreshes reset nothing. -/
theorem quiet_rankServed (hcmd : cmd.isRefresh = false) (h : cs.rankServed cfg cmd = .ok cs') :
    Quiet cs cs' := by
  unfold rankServed at h
  simp only [hcmd, Bool.false_eq_true, if_false] at h
  split_ifs at h
  · obtain ⟨cs₁, h₁, h⟩ := bind_ok_iff.mp h
    cases h
    exact ((quiet_needRFM _ _ _).trans (quiet_cactusMitig h₁)).trans (quiet_clearInflight _)
  · cases h
    exact quiet_needRFM _ _ _
  · cases h
    exact ((quiet_needRFM _ _ _).trans quiet_dreamMitig).trans quiet_abacusMitig
  · cases h
    exact .of_eq rfl rfl fun _ => rfl
  · cases h
    exact .of_eq rfl rfl fun _ => rfl
  · cases h
    exact .refl cs

theorem quiet_banksetServed (hcmd : cmd.isRefresh = false) (h : cs.banksetServed cfg cmd = .ok cs') :
    Quiet cs cs' := by
  unfold banksetServed at h
  simp only [hcmd, Bool.false_eq_true, if_false] at h
  split_ifs at h
  · cases h
    exact quiet_needRFM _ _ _
  · cases h
    exact quiet_needRFM _ _ _
  · cases h
    exact .refl cs

theorem quiet_bankServed (hcmd : cmd.isRefresh = false) : Quiet cs (cs.bankServed cmd) := by
  unfold bankServed
  simp only [hcmd, Bool.false_eq_true, if_false]
  split_ifs
  · exact quiet_needRFM _ _ _
  · exact .refl cs

theorem quiet_updateTiming (h : cs.updateTiming cfg cmd clk = .ok cs') : Quiet cs cs' := by
  obtain ⟨cs₁, h₁, h⟩ := bind_ok_iff.mp h
  cases h
  obtain ⟨n, f, t, a, l, es, rfl, hes⟩ := countAndAlert_eq h₁
  have htiming : ∀ (updates : List TimingUpdate) (cs : ChannelState),
      Quiet cs (cs.applyTiming updates clk) := by
    intro updates
    induction updates with
    | nil => exact .refl
    | cons u rest ih =>
      intro cs
      have hone : Quiet cs
          (cs.modifyBank u.1 fun b => b.updateTiming u.2.1 (addDelay clk u.2.2)) := by
        refine .of_eq rfl rfl fun j => ?_
        by_cases hj : j = u.1
        · subst hj
          simp [modifyBank, BankState.updateTiming]
        · simp [modifyBank, Function.update_of_ne hj]
      exact hone.trans (ih _)
  have hcount : Quiet cs { cs with
      numActsAbo := n, cactusActsSinceRfm := actsAfter cfg cs cmd, fourAw := f, thirtyTwoAw := t
      alertN := a, lastAlertClk := l, log := es ++ cs.log } := by
    refine ⟨⟨es, rfl, fun e he => ?_⟩, rfl, fun _ => rfl⟩
    obtain ⟨_, _, rfl⟩ | ⟨_, _, _, _, rfl⟩ := hes
    · cases he
    · obtain rfl := List.mem_singleton.mp he
      exact ⟨rfl, rfl⟩
  exact hcount.trans (htiming _ _)

theorem quiet_clockTick : Quiet cs (cs.clockTick cfg clk) :=
  .of_eq clockTick_log
    (clockTick_keeps (·.refIdx) (fun _ _ => (quiet_needRFM _ _ _).refIdx) (fun _ _ => rfl)
      (fun _ => rfl) fun _ _ _ => rfl)
    fun i => congrArg BankCore.refIdx (queried_clockTick.cores i)

theorem quiet_preactHooks {full : Bool} (h : cs.preactHooks cfg cmd clk = .ok (full, cs')) :
    Quiet cs cs' := by
  obtain ⟨s, idx, ds, as, _, hbanks, hds, has, rfl⟩ := preactHooks_eq h
  have hcross {e : Event} (he : e.crossing) : e.isReset = false ∧ e.refab? = none := by
    cases e <;> first | exact ⟨rfl, rfl⟩ | cases he
  have hcount : Quiet (cs.noted ds) ((cs.noted ds).cactusCount cfg cmd.rank idx clk) := by
    obtain ⟨m, hc | ⟨_, _, _, _, hc⟩⟩ := (cs.noted ds).cactusCount_eq cfg clk cmd.rank idx
    · rw [hc]
      exact .of_eq rfl rfl fun _ => rfl
    · rw [hc]
      exact ⟨⟨[_], rfl, by simp [Event.isReset, Event.refab?]⟩, rfl, fun _ => rfl⟩
  have hnoted : Quiet cs (cs.noted ds) := ⟨⟨ds, rfl, fun e he => hcross (hds e he)⟩, rfl, fun _ => rfl⟩
  have hnotes (cs : ChannelState) (hook : Event) (hhook : hook.isReset = false ∧ hook.refab? = none)
      (hs : ∀ i, (s.bankStates i).refIdx = (cs.bankStates i).refIdx) :
      Quiet cs (((cs.withSide s).noted as).record hook) := by
    refine ⟨⟨hook :: as, rfl, fun e he => ?_⟩, rfl, hs⟩
    obtain rfl | he := List.mem_cons.mp he
    · exact hhook
    · exact hcross (has e he)
  have hrefIdx (i : BankId) : (s.bankStates i).refIdx =
      (((cs.noted ds).cactusCount cfg cmd.rank idx clk).bankStates i).refIdx := by
    rw [(hnoted.trans hcount).banks i]
    exact congrArg BankCore.refIdx (hbanks i)
  exact (hnoted.trans hcount).trans (hnotes _ _ ⟨rfl, rfl⟩ hrefIdx)

theorem quiet_hydraCheck {ok : Bool} (h : cs.hydraCheck cfg cmd = (ok, cs')) : Quiet cs cs' := by
  obtain ⟨_, _, _, rfl⟩ := hydraCheck_eq h
  exact .of_eq rfl rfl fun _ => rfl

theorem quiet_launchDRFM (h : cs.launchDRFM cfg cmd = .ok cs') : Quiet cs cs' := by
  obtain ⟨bs, q, calls, rfl, hbs, _⟩ := launchDRFM_eq h
  exact .of_eq rfl rfl fun i => congrArg BankCore.refIdx (hbs i)

theorem Answer.quiet {r? : Option Command} (h : Answer cfg cs cmd clk r? cs') : Quiet cs cs' := by
  cases h with
  | wait | divert | allReady | single => exact .refl cs
  | needRFMsb | needRFMab => exact quiet_needRFM _ _ _
  | eager _ _ h => exact quiet_launchDRFM h
  | hydraWait h => exact quiet_hydraCheck h
  | lazy _ hcheck hhook h =>
    exact ((quiet_hydraCheck hcheck).trans (quiet_preactHooks hhook)).trans (quiet_launchDRFM h)
  | activate _ hcheck hhook => exact (quiet_hydraCheck hcheck).trans (quiet_preactHooks hhook)

theorem quiet_getReadyHydraCommand {r? : Option Command}
    (h : cs.getReadyHydraCommand cfg clk = .ok (r?, cs')) : Quiet cs cs' := by
  obtain ⟨⟨_, _, _, rfl⟩, _⟩ := getReadyHydraCommand_eq h
  exact .of_eq rfl rfl fun _ => rfl

/-- Banks that all saw a command which is no refresh. -/
theorem refIdx_of_updateEach (hcmd : cmd.isRefresh = false) {bs bs' : BankId → BankState}
    (h : updateEach (fun b => b.updateState cfg cmd) (covered cfg cmd) bs = .ok bs') (i : BankId) :
    (bs' i).refIdx = (bs i).refIdx := by
  obtain ⟨hin, hout⟩ := (updateEach_ok_iff (covered_nodup cfg cmd)).mp h
  by_cases hi : i ∈ covered cfg cmd
  · exact BankState.updateState_refIdx hcmd (hin i hi)
  · rw [hout i hi]

theorem quiet_updateState (hcmd : cmd.isRefresh = false) (h : cs.updateState cfg cmd = .ok cs') :
    Quiet cs cs' := by
  obtain ⟨bs, hbs, h⟩ := updateState_eq h
  have hbanks : Quiet cs { cs with bankStates := bs } :=
    .of_eq rfl rfl (refIdx_of_updateEach hcmd hbs)
  obtain ⟨_, h⟩ | ⟨_, _, h⟩ | ⟨_, _, rfl⟩ := h
  · exact hbanks.trans (quiet_rankServed hcmd h)
  · exact hbanks.trans (quiet_banksetServed hcmd h)
  · exact hbanks.trans (quiet_bankServed hcmd)

/-- Nor does their issue. -/
theorem quiet_updateTimingAndStates {origin : Origin} (hcmd : cmd.isRefresh = false)
    (h : cs.updateTimingAndStates cfg cmd clk origin = .ok cs') : Quiet cs cs' := by
  obtain ⟨cs₁, h₁, h⟩ := bind_ok_iff.mp h
  have hrecord : Quiet cs (cs.record (.issue cmd clk origin cs.bankStates)) := by
    refine ⟨⟨[_], rfl, fun e he => ?_⟩, rfl, fun _ => rfl⟩
    rw [List.mem_singleton.mp he]
    have hne : cmd.cmdType ≠ .refAb := fun hty => by simp [Command.isRefresh, hty] at hcmd
    exact ⟨rfl, by simp [Event.refab?, hne]⟩
  exact (hrecord.trans (quiet_updateState hcmd h₁)).trans (quiet_updateTiming h)

/-- The entries that a REFab resets in the table of each tracker, by the refresh pointer. -/
def abacusChunkAt (cfg : Config) (refIdx : ℕ) : ℕ × ℕ :=
  let perRef := cfg.rows / cfg.refchunks
  (refIdx % cfg.refchunks * perRef, refIdx % cfg.refchunks * perRef + perRef)

def cactusChunkAt (cfg : Config) (rank : ℤ) (refIdx : ℕ) : ℕ × ℕ :=
  let perRef := cfg.cactusReset * (cactusSize cfg / cfg.refchunks)
  let first := rank.toNat * cactusSize cfg + refIdx % (cfg.refchunks / cfg.cactusReset) * perRef
  (first, first + perRef)

def tuscChunkAt (cfg : Config) (refIdx : ℕ) : ℕ × ℕ :=
  let perRef := cfg.dreamReset * (tuscSize cfg / cfg.refchunks)
  let first := refIdx % (cfg.refchunks / cfg.dreamReset) * perRef
  (first, first + perRef)

def abacusResets (cfg : Config) (refIdx : ℕ) : List Event :=
  if cfg.abacusMode = 0 then []
  else [.abacusReset (abacusChunkAt cfg refIdx).1 (abacusChunkAt cfg refIdx).2]

def cactusResets (cfg : Config) (rank : ℤ) (refIdx : ℕ) : List Event :=
  if cfg.cactusMode = 0 then []
  else [.cactusReset (cactusChunkAt cfg rank refIdx).1 (cactusChunkAt cfg rank refIdx).2]

def tuscResets (cfg : Config) (refIdx : ℕ) : List Event :=
  if cfg.dreamMode = 1 then [.dreamReset (tuscChunkAt cfg refIdx).1 (tuscChunkAt cfg refIdx).2]
  else []

/-- The resets of one REFab, the newest first. -/
def chunkResets (cfg : Config) (rank : ℤ) (refIdx : ℕ) : List Event :=
  abacusResets cfg refIdx ++ (cactusResets cfg rank refIdx ++ tuscResets cfg refIdx)

theorem isReset_of_mem_chunkResets {rank : ℤ} {refIdx : ℕ} {e : Event}
    (h : e ∈ chunkResets cfg rank refIdx) : e.isReset = true ∧ e.refab? = none := by
  simp only [chunkResets, List.mem_append] at h
  obtain h | h | h := h
  · unfold abacusResets at h
    split_ifs at h
    · cases h
    · rw [List.mem_singleton.mp h]
      exact ⟨rfl, rfl⟩
  · unfold cactusResets at h
    split_ifs at h
    · cases h
    · rw [List.mem_singleton.mp h]
      exact ⟨rfl, rfl⟩
  · unfold tuscResets at h
    split_ifs at h
    · rw [List.mem_singleton.mp h]
      exact ⟨rfl, rfl⟩
    · cases h

/-- A part of a REFab that adds the given events and moves no pointer. -/
structure Resets (es : List Event) (cs cs' : ChannelState) : Prop where
  log : cs'.log = es ++ cs.log
  refIdx : cs'.refIdx = cs.refIdx
  banks : cs'.bankStates = cs.bankStates

theorem Resets.trans {es es' : List Event} {cs₁ cs₂ cs₃ : ChannelState} (h : Resets es cs₁ cs₂)
    (h' : Resets es' cs₂ cs₃) : Resets (es' ++ es) cs₁ cs₃ :=
  ⟨by rw [h'.log, h.log, List.append_assoc], h'.refIdx.trans h.refIdx, h'.banks.trans h.banks⟩

theorem resets_dreamRefresh (cfg : Config) (cs : ChannelState) :
    Resets (tuscResets cfg cs.refIdx) cs (cs.dreamRefresh cfg true) := by
  unfold tuscResets dreamRefresh
  by_cases hmode : cfg.dreamMode = 1
  · simp only [hmode, one_ne_zero, false_and, if_false, true_and, if_true]
    exact ⟨rfl, rfl, rfl⟩
  · simp only [hmode, false_and, if_false]
    split_ifs <;> exact ⟨rfl, rfl, rfl⟩

theorem resets_cactusRefresh (cfg : Config) (cs : ChannelState) (rank : ℤ) :
    Resets (cactusResets cfg rank cs.refIdx) cs (cs.cactusRefresh cfg rank true) := by
  unfold cactusResets cactusRefresh
  by_cases hmode : cfg.cactusMode = 0
  · simp only [hmode, true_or, if_true]
    exact ⟨rfl, rfl, rfl⟩
  · simp only [hmode, Bool.not_true, Bool.false_eq_true, or_self, if_false]
    split_ifs <;> exact ⟨rfl, rfl, rfl⟩

theorem resets_abacusRefresh (cfg : Config) (cs : ChannelState) :
    Resets (abacusResets cfg cs.refIdx) cs (cs.abacusRefresh cfg true) := by
  unfold abacusResets abacusRefresh
  by_cases hmode : cfg.abacusMode = 0
  · simp only [hmode, true_or, if_true]
    exact ⟨rfl, rfl, rfl⟩
  · simp only [hmode, Bool.not_true, Bool.false_eq_true, or_self, if_false]
    exact ⟨rfl, rfl, rfl⟩

theorem resets_refreshTrackers (cs : ChannelState) (hcmd : cmd.cmdType = .refAb) :
    Resets (chunkResets cfg cmd.rank cs.refIdx) cs (cs.refreshTrackers cfg cmd) := by
  have hreset : cs.shouldReset cfg cmd = true := by simp [shouldReset, hcmd]
  unfold refreshTrackers chunkResets
  rw [hreset]
  have hdream := resets_dreamRefresh cfg cs
  have hcactus := resets_cactusRefresh cfg (cs.dreamRefresh cfg true) cmd.rank
  have habacus := resets_abacusRefresh cfg ((cs.dreamRefresh cfg true).cactusRefresh cfg cmd.rank true)
  rw [hcactus.refIdx, hdream.refIdx] at habacus
  rw [hdream.refIdx] at hcactus
  exact (hdream.trans hcactus).trans habacus

/-- What a REFab does to the chunks: its resets, one step of the channel's pointer, and one of the
pointer of every bank of the rank. -/
structure Refreshes (cfg : Config) (cmd : Command) (cs cs' : ChannelState) : Prop where
  log : ∃ extra, cs'.log = extra ++ (chunkResets cfg cmd.rank cs.refIdx ++ cs.log) ∧
    ∀ e ∈ extra, e.isReset = false ∧ e.refab? = none
  refIdx : cs'.refIdx = (cs.refIdx + 1) % cfg.refchunks
  banks : ∀ i ∈ cfg.rankBanks cmd.rank,
    (cs'.bankStates i).refIdx = ((cs.bankStates i).refIdx + cfg.rowsRefreshed) % cfg.rows

theorem refreshes_updateState (hfgr : cfg.fgr = false) (hcmd : cmd.cmdType = .refAb)
    (h : cs.updateState cfg cmd = .ok cs') : Refreshes cfg cmd cs cs' := by
  have hrank : cmd.isRankCMD := by simp [Command.isRankCMD, hcmd]
  have href : cmd.isRefresh := by simp [Command.isRefresh, hcmd]
  have hrfm : cmd.isRFM = false := by simp [Command.isRFM, hcmd]
  obtain ⟨bs, hbs, ⟨_, h⟩ | ⟨hno, _⟩ | ⟨hno, _⟩⟩ := updateState_eq h
  · have hcov : covered cfg cmd = cfg.rankBanks cmd.rank := if_pos hrank
    obtain ⟨hin, _⟩ := (updateEach_ok_iff (covered_nodup cfg cmd)).mp hbs
    rw [hcov] at hin
    unfold rankServed at h
    simp only [hrfm, href, Bool.false_eq_true, if_false, if_true] at h
    obtain ⟨cs₁, h₁, h⟩ := bind_ok_iff.mp h
    obtain ⟨cs₂, h₂, h⟩ := bind_ok_iff.mp h
    have hresets : Resets (chunkResets cfg cmd.rank _) _ _ :=
      resets_refreshTrackers (rankNeedRefresh { cs with bankStates := bs } cmd.rank false) hcmd
    have hquiet := (quiet_cactusTrefMitig h₁).trans (quiet_cactusTrefMaxMitig h₂)
    have hcount : cs'.log = cs₂.log ∧ cs'.refIdx = (cs₂.refIdx + 1) % cfg.refchunks ∧
        cs'.bankStates = cs₂.bankStates := by
      unfold updateREFCounter at h
      rw [if_neg (by simp [hcmd]), if_pos hcmd] at h
      cases h
      simp [hfgr]
    obtain ⟨extra, hextra, hplain⟩ := hquiet.log
    refine ⟨⟨extra, ?_, hplain⟩, ?_, fun i hi => ?_⟩
    · rw [hcount.1, hextra, hresets.log]
      rfl
    · rw [hcount.2.1, hquiet.refIdx, hresets.refIdx]
      rfl
    · rw [hcount.2.2, hquiet.banks i, hresets.banks]
      exact BankState.updateState_refIdx_refAb hfgr hcmd (hin i hi)
  · simp [hrank] at hno
  · simp [hrank] at hno

end ChannelState

/-- A REFab, with the events from its issue up to the next one, the newest first. -/
structure Refab where
  rank : ℤ
  events : List Event

/-- The REFabs of a history, the newest first. -/
def refabs : List Event → List Refab
  | [] => []
  | e :: older =>
    match e.refab?, refabs older with
    | some rank, rest => ⟨rank, []⟩ :: rest
    | none, [] => []
    | none, r :: rest => { r with events := e :: r.events } :: rest

/-- The resets that a REFab made. -/
def Refab.resets (r : Refab) : List Event := r.events.filter Event.isReset

theorem refabs_eq (log : List Event) :
    refabs log = (stretches Event.refab? log).map fun s => ⟨s.1, s.2⟩ := by
  induction log with
  | nil => rfl
  | cons e log ih =>
    cases he : e.refab? with
    | some rank => simp [refabs, stretches, he, ih]
    | none => cases hs : stretches Event.refab? log <;> simp [refabs, stretches, he, hs, ih]

namespace Chan
open ChannelState
variable {cfg : Config} {π : Micro.Policy} {v v' : Chan}

/-- The REFabs so far, by rank and resets. -/
def served (cs : ChannelState) : List (ℤ × List Event) :=
  (refabs cs.log).map fun r => (r.rank, r.resets)

/-- The channel's pointer counts the REFabs, and each of them reset the chunk of its number. -/
structure Chunked (cfg : Config) (cs : ChannelState) : Prop where
  pointer : cs.refIdx = (served cs).length % cfg.refchunks
  chunks : ∀ newer r older, served cs = newer ++ r :: older →
    r.2 = chunkResets cfg r.1 (older.length % cfg.refchunks)

theorem chunked_boot (boot : Boot cfg) : Chunked cfg boot.channelState :=
  ⟨(Nat.zero_mod _).symm, fun newer r older h => by simp [served, refabs, Boot.channelState] at h⟩

theorem served_eq (cs : ChannelState) : served cs =
    (stretches Event.refab? cs.log).map fun s => (s.1, s.2.filter Event.isReset) := by
  unfold served
  rw [refabs_eq, List.map_map]
  rfl

theorem served_quiet {cs cs' : ChannelState} (h : Quiet cs cs') : served cs' = served cs := by
  obtain ⟨extra, hlog, hextra⟩ := h.log
  rw [served_eq, served_eq, hlog]
  exact stretches_append_filter fun e he => (hextra e he).symm

theorem Chunked.quiet {cs cs' : ChannelState} (hs : Chunked cfg cs) (h : Quiet cs cs') :
    Chunked cfg cs' := by
  refine ⟨?_, ?_⟩
  · rw [h.refIdx, served_quiet h]
    exact hs.pointer
  · rw [served_quiet h]
    exact hs.chunks

/-- A REFab is one more entry with its chunk. -/
theorem served_refreshes {cs cs' : ChannelState} {cmd : Command} {clk : ℕ} {origin : Origin}
    (hcmd : cmd.cmdType = .refAb)
    (h : Refreshes cfg cmd (cs.record (.issue cmd clk origin cs.bankStates)) cs') :
    served cs' = (cmd.rank, chunkResets cfg cmd.rank cs.refIdx) :: served cs := by
  obtain ⟨extra, hlog, hextra⟩ := h.log
  have hmark : Event.refab? (.issue cmd clk origin cs.bankStates) = some cmd.rank := by
    simp [Event.refab?, hcmd]
  have hlog' : cs'.log = extra ++ (chunkResets cfg cmd.rank cs.refIdx ++
      .issue cmd clk origin cs.bankStates :: cs.log) := hlog
  rw [served_eq cs', hlog', stretches_append_mark (fun e he => (hextra e he).symm)
    (fun e he => (isReset_of_mem_chunkResets he).symm) hmark, ← served_eq]

/-- Only issued commands reset chunks. -/
theorem Step.quiet (h : Step cfg π v v') : Quiet v.cs v'.cs ∨ ∃ p, v.ticket = some p ∧
    v.cs.updateTimingAndStates cfg p.cmd v.clk p.origin = .ok v'.cs := by
  cases h with
  | environment | drop | tock => exact .inl (.of_eq rfl rfl fun _ => rfl)
  | requestRefresh => exact .inl ⟨⟨[_], rfl, by simp [Event.isReset, Event.refab?]⟩, rfl, fun _ => rfl⟩
  | tick => exact .inl quiet_clockTick
  | query _ h => exact .inl h.quiet
  | hydraQuery h => exact .inl (quiet_getReadyHydraCommand h)
  | pick _ _ _ h => exact .inl h.quiet
  | pickHydra _ h => exact .inl (quiet_getReadyHydraCommand h)
  | issue h => exact .inr ⟨_, rfl, h⟩

/-- The steps as far as refreshes are concerned. -/
theorem Step.refresh_cases (hfgr : cfg.fgr = false) (hord : Ordered v)
    (href : ∀ r ∈ v.cs.refreshQ, r.cmdType = .refAb) (h : Step cfg π v v') :
    Quiet v.cs v'.cs ∨ ∃ cmd clk origin, cmd ∈ v.cs.refreshQ ∧ cmd.cmdType = .refAb ∧
      Refreshes cfg cmd (v.cs.record (.issue cmd clk origin v.cs.bankStates)) v'.cs := by
  obtain hquiet | ⟨p, hp, hissue⟩ := h.quiet
  · exact .inl hquiet
  · by_cases hcmd : p.cmd.isRefresh
    · have hmem : p.cmd ∈ v.cs.refreshQ := List.mem_of_mem_head? (hord.ticket p hp hcmd)
      have hty := href p.cmd hmem
      obtain ⟨cs₁, h₁, htiming⟩ := bind_ok_iff.mp hissue
      have hone := refreshes_updateState hfgr hty h₁
      obtain ⟨extra, hlog, hextra⟩ := hone.log
      obtain ⟨extra', hlog', hextra'⟩ := (quiet_updateTiming htiming).log
      refine .inr ⟨p.cmd, v.clk, p.origin, hmem, hty, ⟨extra' ++ extra, ?_, fun e he => ?_⟩, ?_, ?_⟩
      · rw [hlog', hlog, List.append_assoc]
      · obtain he | he := List.mem_append.mp he
        · exact hextra' e he
        · exact hextra e he
      · rw [(quiet_updateTiming htiming).refIdx]
        exact hone.refIdx
      · intro i hi
        rw [(quiet_updateTiming htiming).banks i]
        exact hone.banks i hi
    · exact .inl (quiet_updateTimingAndStates (by simpa using hcmd) hissue)

end Chan

namespace Micro
open Controller ChannelState
variable {cfg : Config} {π : Policy} {m m' : Micro}

theorem refreshRequests_append {cs cs' : ChannelState} (extra : List Event)
    (hlog : cs'.log = extra ++ cs.log) (hextra : ∀ e ∈ extra, e.refreshRequest = none) :
    cs'.refreshRequests = cs.refreshRequests := by
  unfold refreshRequests
  rw [hlog]
  exact Chan.filterMap_append_unrelated hextra

theorem Answer.refreshRequests {cs cs' : ChannelState} {cmd : Command} {clk : ℕ}
    {r? : Option Command} (h : Answer cfg cs cmd clk r? cs') :
    cs'.refreshRequests = cs.refreshRequests := by
  obtain ⟨extra, hlog, hextra⟩ := Chan.Answer.unrelated h
  exact refreshRequests_append extra hlog fun e he => (hextra e he).1

/-- Only the refresh timer asks for refreshes. -/
theorem Step.timer (h : Step cfg π m m') :
    (m'.ctl.refresh = m.ctl.refresh ∧
      m'.ctl.channelState.refreshRequests = m.ctl.channelState.refreshRequests) ∨
    m'.ctl = m.ctl.refreshTick cfg := by
  cases h with
  | refreshTick c => exact .inr rfl
  | others | startRefresh | startRFM | rotate | drop | endTick => exact .inl ⟨rfl, rfl⟩
  | @accept c addr isWrite =>
    obtain ⟨_, _, _, _, _, _, _, heq⟩ := c.addTransaction_eq cfg addr isWrite
    rw [heq]
    exact .inl ⟨rfl, rfl⟩
  | returnDone c clk =>
    obtain ⟨_, _, heq⟩ := c.returnDoneTrans_eq clk
    rw [heq]
    exact .inl ⟨rfl, rfl⟩
  | channelTick c => exact .inl ⟨rfl, refreshRequests_append [] clockTick_log (by simp)⟩
  | query _ h => exact .inl ⟨rfl, Answer.refreshRequests (getReadyCommand_answer h)⟩
  | hydraQuery h =>
    exact .inl ⟨rfl, refreshRequests_append [] (getReadyHydraCommand_log h) (by simp)⟩
  | pickMaintenance _ _ _ h => exact .inl ⟨rfl, Answer.refreshRequests (getReadyCommand_answer h)⟩
  | pickQueued _ hc =>
    cases hc with
    | hydra h =>
      exact .inl ⟨rfl, refreshRequests_append [] (getReadyHydraCommand_log h) (by simp)⟩
    | demand _ _ h => exact .inl ⟨rfl, Answer.refreshRequests (getReadyCommand_answer h)⟩
  | @issue c p issued c' h =>
    obtain ⟨_, _, _, cs', hcs, rfl⟩ := issueCommand_frame h
    obtain ⟨extra, hlog, hextra⟩ := (updateTimingAndStates_issued hcs).log
    refine .inl ⟨rfl, refreshRequests_append
      (extra ++ [.issue p.cmd c.clk p.origin c.channelState.bankStates])
      (by rw [List.append_assoc]; exact hlog) fun e he => ?_⟩
    obtain he | he := List.mem_append.mp he
    · exact (Chan.unrelated_of_internal (hextra e he)).1
    · rw [List.mem_singleton.mp he]
      rfl
  | powerUpdate c =>
    obtain ⟨f, heq⟩ := c.powerUpdate_eq cfg
    rw [heq]
    exact .inl ⟨rfl, rfl⟩
  | schedule c =>
    obtain ⟨_, _, _, _, _, _, heq⟩ := c.scheduleTransaction_frame cfg
    rw [heq]
    exact .inl ⟨rfl, rfl⟩

end Micro

/-- A rank-level refresh policy. -/
def Config.RankLevel (cfg : Config) : Prop :=
  cfg.refreshPolicy = .rankLevelSimultaneous ∨ cfg.refreshPolicy = .rankLevelStaggered

theorem Config.RankLevel.fgr {cfg : Config} (h : cfg.RankLevel) : cfg.fgr = false := by
  obtain h | h := h <;> simp [Config.fgr, h]

namespace Refresh
open ChannelState
variable {cfg : Config}

/-- A refresh falls due at this tick. -/
def Due (cfg : Config) (r : Refresh) : Prop := r.clk % u64 (refreshInterval cfg) = 0 ∧ 0 < r.clk

instance (r : Refresh) : Decidable (r.Due cfg) := inferInstanceAs (Decidable (_ ∧ _))

/-- The command that a policy asks for. -/
def asks : RefreshPolicy → Option CommandType
  | .rankLevelSimultaneous | .rankLevelStaggered => some .refAb
  | .banksetLevelStaggered => some .refSb
  | .bankLevelStaggered => some .refreshBank
  | .noRefresh => none

/-- A refresh of one of the ranks, as the policy asks for it. -/
def Asked (cfg : Config) (req : Command) : Prop :=
  asks cfg.refreshPolicy = some req.cmdType ∧ ∃ k : ℕ, k < cfg.ranks ∧ req.rank = k

theorem stepBank_nextRank {r : Refresh} (hr : r.nextRank < cfg.ranks) :
    (r.stepBank cfg).nextRank < cfg.ranks := by
  unfold stepBank
  dsimp only
  split_ifs
  · exact Nat.mod_lt _ cfg.ranks_pos
  · exact hr

theorem stepBg_nextRank {r : Refresh} (hr : r.nextRank < cfg.ranks) :
    (r.stepBg cfg).nextRank < cfg.ranks := by
  unfold stepBg
  dsimp only
  split_ifs
  · exact stepBank_nextRank hr
  · exact hr

theorem iterateNext_nextRank {r : Refresh} (hr : r.nextRank < cfg.ranks) :
    (r.iterateNext cfg).nextRank < cfg.ranks := by
  unfold iterateNext
  split
  · exact Nat.mod_lt _ cfg.ranks_pos
  · exact stepBg_nextRank (stepBank_nextRank hr)
  · exact stepBg_nextRank hr
  · exact hr
  · exact hr

/-- A due tick asks for at most one refresh. -/
theorem insertRefresh_asks {r : Refresh} (hr : r.nextRank < cfg.ranks) (cs : ChannelState) :
    (r.insertRefresh cfg cs).1.nextRank < cfg.ranks ∧ ((r.insertRefresh cfg cs).2 = cs ∨
      ∃ req, Asked cfg req ∧ (r.insertRefresh cfg cs).2 = cs.addRefresh req) := by
  have hnext := iterateNext_nextRank hr
  have hasked {ty : CommandType} (bankgroup bank : ℤ) (hty : asks cfg.refreshPolicy = some ty) {k : ℕ}
      (hk : k < cfg.ranks) : Asked cfg (request ty k bankgroup bank) := ⟨hty, k, hk, rfl⟩
  unfold insertRefresh
  split <;> rename_i hp
  · split
    · rename_i i hfind
      obtain ⟨k, hk, rfl⟩ : ∃ k : ℕ, k < cfg.ranks ∧ (k : ℤ) = i := by
        simpa [eq_comm] using List.mem_of_find?_eq_some hfind
      exact ⟨hr, .inr ⟨_, hasked _ _ (by rw [hp]; rfl) hk, rfl⟩⟩
    · exact ⟨hr, .inl rfl⟩
  · refine ⟨hnext, ?_⟩
    split_ifs
    · exact .inl rfl
    · exact .inr ⟨_, hasked _ _ (by rw [hp]; rfl) hr, rfl⟩
  · refine ⟨hnext, ?_⟩
    split_ifs
    · exact .inl rfl
    · exact .inr ⟨_, hasked _ _ (by rw [hp]; rfl) hr, rfl⟩
  · refine ⟨hnext, ?_⟩
    split_ifs
    · exact .inl rfl
    · exact .inr ⟨_, hasked _ _ (by rw [hp]; rfl) hr, rfl⟩
  · exact ⟨hr, .inl rfl⟩

theorem clockTick_asks {r : Refresh} (hr : r.nextRank < cfg.ranks) (cs : ChannelState) :
    (r.clockTick cfg cs).1.nextRank < cfg.ranks ∧ ((r.clockTick cfg cs).2 = cs ∨
      ∃ req, Asked cfg req ∧ (r.clockTick cfg cs).2 = cs.addRefresh req) := by
  unfold clockTick
  dsimp only
  split_ifs
  · exact insertRefresh_asks hr cs
  · exact ⟨hr, .inl rfl⟩

end Refresh

/-- Under a rank-level policy the requests are REFabs of the ranks. -/
structure Controller.Timed (cfg : Config) (c : Controller) : Prop where
  nextRank : c.refresh.nextRank < cfg.ranks
  requests : ∀ r ∈ c.channelState.refreshRequests,
    r.cmdType = .refAb ∧ ∃ k : ℕ, k < cfg.ranks ∧ r.rank = k

theorem Config.RankLevel.of_asked {cfg : Config} (hpolicy : cfg.RankLevel) {req : Command}
    (h : Refresh.Asked cfg req) : req.cmdType = .refAb ∧ ∃ k : ℕ, k < cfg.ranks ∧ req.rank = k := by
  obtain ⟨hty, hrank⟩ := h
  refine ⟨?_, hrank⟩
  obtain hp | hp := hpolicy <;> rw [hp] at hty <;> exact (Option.some.inj hty).symm

theorem ChannelState.refreshRequests_addRefresh (cs : ChannelState) (req : Command) :
    (cs.addRefresh req).refreshRequests = cs.refreshRequests ++ [req] := by
  simp [refreshRequests, addRefresh, List.filterMap_append, Event.refreshRequest]

theorem Controller.refreshTick_asked {cfg : Config} {c : Controller}
    (hnext : c.refresh.nextRank < cfg.ranks)
    (hasked : ∀ r ∈ c.channelState.refreshRequests, Refresh.Asked cfg r) :
    (c.refreshTick cfg).refresh.nextRank < cfg.ranks ∧
      ∀ r ∈ (c.refreshTick cfg).channelState.refreshRequests, Refresh.Asked cfg r := by
  obtain ⟨hnext', hcs⟩ := Refresh.clockTick_asks hnext c.channelState
  refine ⟨hnext', fun r hr => ?_⟩
  unfold Controller.refreshTick at hr
  dsimp only at hr
  obtain hsame | ⟨req, hreq, hadd⟩ := hcs
  · rw [hsame] at hr
    exact hasked r hr
  · rw [hadd, ChannelState.refreshRequests_addRefresh] at hr
    obtain hr | hr := List.mem_append.mp hr
    · exact hasked r hr
    · rw [List.mem_singleton.mp hr]
      exact hreq

namespace Micro
open ChannelState
variable {cfg : Config} {π : Policy} {m m' : Micro}

/-- The timer is at one of the ranks, and all requests so far are as the policy asks. -/
theorem Reached.asked (h : Reached cfg π m) : m.ctl.refresh.nextRank < cfg.ranks ∧
    ∀ r ∈ m.ctl.channelState.refreshRequests, Refresh.Asked cfg r := by
  refine h.induct (P := fun m => m.ctl.refresh.nextRank < cfg.ranks ∧
    ∀ r ∈ m.ctl.channelState.refreshRequests, Refresh.Asked cfg r)
    (fun boot => ⟨cfg.ranks_pos, fun r hr => ?_⟩) fun m m' hm hs => ?_
  · simp [refreshRequests, rest, Boot.controller, Boot.channelState] at hr
  · obtain ⟨hrefresh, hreq⟩ | htick := hs.timer
    · exact ⟨hrefresh ▸ hm.1, hreq ▸ hm.2⟩
    · rw [htick]
      exact Controller.refreshTick_asked hm.1 hm.2

/-- Waiting refreshes are as the policy asks. -/
theorem Reached.refreshQ_asked (h : Reached cfg π m) :
    ∀ r ∈ m.ctl.channelState.refreshQ, Refresh.Asked cfg r := by
  intro r hr
  apply h.asked.2
  have hord : m.ctl.channelState.refreshRequests = _ := h.ordered.requests
  rw [hord]
  exact List.mem_append_right _ hr

theorem Reached.timed (hpolicy : cfg.RankLevel) (h : Reached cfg π m) : m.ctl.Timed cfg :=
  ⟨h.asked.1, fun r hr => hpolicy.of_asked (h.asked.2 r hr)⟩

/-- Waiting refreshes are REFabs of the ranks. -/
theorem Reached.refreshQ (hpolicy : cfg.RankLevel) (h : Reached cfg π m) :
    ∀ r ∈ m.ctl.channelState.refreshQ,
      r.cmdType = .refAb ∧ ∃ k : ℕ, k < cfg.ranks ∧ r.rank = k :=
  fun r hr => hpolicy.of_asked (h.refreshQ_asked r hr)

/-- What quiet steps and REFabs of the ranks keep holds of the channel in every reached state. -/
theorem Reached.refresh_induct {P : ChannelState → Prop} (hpolicy : cfg.RankLevel)
    (hboot : ∀ boot : Boot cfg, P boot.channelState)
    (hquiet : ∀ cs cs' : ChannelState, P cs → cs.Quiet cs' → P cs')
    (hrefab : ∀ (cs cs' : ChannelState) (cmd : Command) (clk : ℕ) (origin : Origin), P cs →
      cmd.cmdType = .refAb → (∃ k : ℕ, k < cfg.ranks ∧ cmd.rank = k) →
      Refreshes cfg cmd (cs.record (.issue cmd clk origin cs.bankStates)) cs' → P cs')
    (h : Reached cfg π m) : P m.ctl.channelState := by
  have : Reached cfg π m ∧ P m.ctl.channelState := by
    refine h.induct (P := fun m => Reached cfg π m ∧ P m.ctl.channelState)
      (fun boot => ⟨⟨boot, .refl⟩, hboot boot⟩) fun m m' hm hs => ⟨hm.1.step (.single hs), ?_⟩
    have hq := hm.1.refreshQ hpolicy
    obtain hc | hc := hs.chan hm.1.wellQueued
    · obtain hq' | ⟨cmd, clk, origin, hmem, hty, hone⟩ :=
        hc.refresh_cases hpolicy.fgr hm.1.ordered fun r hr => (hq r hr).1
      · exact hquiet _ _ hm.2 hq'
      · exact hrefab _ _ cmd clk origin hm.2 hty (hq cmd hmem).2 hone
    · rw [show m'.ctl.channelState = m.ctl.channelState from congrArg Chan.cs hc]
      exact hm.2
  exact this.2

theorem Reached.chunked (hpolicy : cfg.RankLevel) (h : Reached cfg π m) :
    Chan.Chunked cfg m.ctl.channelState := by
  refine h.refresh_induct hpolicy Chan.chunked_boot (fun cs cs' hs hq => hs.quiet hq) ?_
  intro cs cs' cmd clk origin hs hty _ hone
  have hserved := Chan.served_refreshes hty hone
  refine ⟨?_, fun newer r older hsplit => ?_⟩
  · rw [hone.refIdx, hserved, List.length_cons]
    change (cs.refIdx + 1) % _ = _
    rw [hs.pointer, Nat.mod_add_mod]
  · rw [hserved] at hsplit
    cases newer with
    | nil =>
      obtain ⟨rfl, rfl⟩ := List.cons.inj hsplit
      rw [hs.pointer]
    | cons r' newer =>
      obtain ⟨_, hrest⟩ := List.cons.inj hsplit
      exact hs.chunks newer r older hrest

/-- With one rank the pointer of every bank follows that of the channel. -/
theorem Reached.banks_follow (hpolicy : cfg.RankLevel) (hranks : cfg.ranks = 1)
    (hchunks : cfg.refchunks ∣ cfg.rows) (h : Reached cfg π m) :
    ∀ i ∈ cfg.allBanks, (m.ctl.channelState.bankStates i).refIdx =
      m.ctl.channelState.refIdx * cfg.rowsRefreshed := by
  refine h.refresh_induct (P := fun cs => ∀ i ∈ cfg.allBanks, (cs.bankStates i).refIdx =
    cs.refIdx * cfg.rowsRefreshed) hpolicy (fun boot i _ => ?_) (fun cs cs' hs hq i hi => ?_) ?_
  · simp [Boot.channelState, Boot.bank]
  · rw [hq.banks i, hq.refIdx]
    exact hs i hi
  · intro cs cs' cmd clk origin hs _ hrank hone i hi
    obtain ⟨k, hk, hcmd⟩ := hrank
    obtain ⟨⟨r, hr, hir⟩, hg, hb⟩ := cfg.mem_allBanks.mp hi
    have hin : i ∈ cfg.rankBanks cmd.rank := cfg.mem_rankBanks.mpr ⟨by omega, hg, hb⟩
    rw [hone.banks i hin, hone.refIdx]
    change ((cs.bankStates i).refIdx + _) % _ = (cs.refIdx + 1) % _ * _
    have hrows : cfg.refchunks * cfg.rowsRefreshed = cfg.rows := Nat.mul_div_cancel' hchunks
    rw [hs i hi, ← hrows, ← Nat.succ_mul, Nat.mul_mod_mul_right]

end Micro

end CactusDram

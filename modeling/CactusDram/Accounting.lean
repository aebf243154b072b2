import CactusDram.Legality

/-! How often the trackers see an activation. The hooks run inside a readiness query, before it is
known whether the activation is issued. -/
namespace CactusDram
open Foundations

/-- An activation as the trackers see it. -/
structure Activation where
  bank : BankId
  row : ℤ
  clk : ℕ
  deriving DecidableEq

/-- The events that concern tracker counts: the hooks of an activation, and a demand ACT. -/
inductive Tracked
  | hook (a : Activation)
  | act (a : Activation)
  deriving DecidableEq

def Event.tracked : Event → Option Tracked
  | .hook bank row clk _ _ _ => some (.hook ⟨bank, row, clk⟩)
  | .issue cmd clk .demand _ =>
    if cmd.cmdType = .activate then some (.act ⟨cmd.bankId, cmd.row, clk⟩) else none
  | _ => none

theorem Event.tracked_of_internal {e : Event} (h : e.internal) : e.tracked = none := by
  cases e <;> simp_all [Event.internal, Event.tracked]

theorem Event.tracked_of_crossing {e : Event} (h : e.crossing) : e.tracked = none := by
  cases e <;> simp_all [Event.crossing, Event.tracked]

theorem filterMap_tracked_of_internal {extra : List Event} (h : ∀ e ∈ extra, e.internal) :
    extra.filterMap Event.tracked = [] :=
  List.filterMap_eq_nil_iff.mpr fun e he => Event.tracked_of_internal (h e he)

namespace ChannelState
variable {cfg : Config} {cs cs' : ChannelState} {cmd r : Command} {clk : ℕ}

/-- The tracked events of a channel, the newest first. -/
def trackedLog (cs : ChannelState) : List Tracked := cs.log.filterMap Event.tracked

theorem needRFM_log (req : Command) (target : Command → Bool) (need : Bool) :
    (cs.needRFM req target need).log = cs.log := by
  unfold needRFM
  split_ifs <;> rfl

theorem clockTick_log : (cs.clockTick cfg clk).log = cs.log :=
  clockTick_keeps (·.log) (fun _ _ => needRFM_log _ _ _) (fun _ _ => rfl) (fun _ => rfl)
    fun _ _ _ => rfl

theorem launchDRFM_log (h : cs.launchDRFM cfg cmd = .ok cs') : cs'.log = cs.log := by
  obtain ⟨bs, q, _, rfl, _⟩ := launchDRFM_eq h
  rfl

theorem hydraCheck_log {ok : Bool} (h : cs.hydraCheck cfg cmd = (ok, cs')) : cs'.log = cs.log := by
  obtain ⟨_, _, _, rfl⟩ := hydraCheck_eq h
  rfl

theorem getReadyHydraCommand_log {r? : Option Command}
    (h : cs.getReadyHydraCommand cfg clk = .ok (r?, cs')) : cs'.log = cs.log := by
  obtain ⟨⟨_, _, _, rfl⟩, _⟩ := getReadyHydraCommand_eq h
  rfl

/-- Running the trackers leaves one hook, possibly after the crossings of shared counters. -/
theorem preactHooks_log {full : Bool} (h : cs.preactHooks cfg cmd clk = .ok (full, cs')) :
    ∃ alert inflight crossings, cs'.log =
        .hook cmd.bankId cmd.row clk full alert inflight :: crossings ++ cs.log ∧
      ∀ e ∈ crossings, e.crossing := by
  obtain ⟨s, idx, ds, as, _, _, hds, has, rfl⟩ := preactHooks_eq h
  obtain ⟨es, hlog, hes⟩ := (cs.noted ds).cactusCount_log cfg clk cmd.rank idx
  refine ⟨((cs.noted ds).cactusCount cfg cmd.rank idx clk).cactusAlertPending cmd.rank,
    ((cs.noted ds).cactusCount cfg cmd.rank idx clk).cactusRfmInflight cmd.rank,
    as ++ (es ++ ds), ?_, ?_⟩
  · change hookEvent _ cmd clk full :: (as ++ ((cs.noted ds).cactusCount cfg cmd.rank idx clk).log) = _
    rw [hlog]
    simp only [noted, List.cons_append, List.append_assoc]
    rfl
  · simp only [List.mem_append]
    rintro e (he | he | he)
    · exact has e he
    · exact hes e he
    · exact hds e he

end ChannelState

namespace ChannelState
variable {cfg : Config} {cs cs' : ChannelState} {cmd r : Command} {clk : ℕ}

/-- The event the hooks of an activation leave, with what they did not decide left open. -/
def HookAdded (cs cs' : ChannelState) (cmd : Command) (clk : ℕ) (full : Bool) : Prop :=
  ∃ alert inflight crossings, cs'.log =
      .hook cmd.bankId cmd.row clk full alert inflight :: crossings ++ cs.log ∧
    ∀ e ∈ crossings, e.crossing

/-- A query that answers nothing leaves the history alone, unless it postpones an activation
behind the DRFM its own hooks made necessary. -/
theorem Answer.log_none (h : Answer cfg cs cmd clk none cs') :
    cs'.log = cs.log ∨ cfg.drfmPolicy = 1 ∧ HookAdded cs cs' cmd clk true := by
  cases h with
  | wait => exact .inl rfl
  | needRFMsb => exact .inl (needRFM_log _ _ _)
  | needRFMab => exact .inl (needRFM_log _ _ _)
  | eager _ _ h _ => exact .inl (launchDRFM_log h)
  | hydraWait h => exact .inl (hydraCheck_log h)
  | lazy hpol hcheck hhook h =>
    obtain ⟨alert, inflight, alerts, hlog, hal⟩ := preactHooks_log hhook
    refine .inr ⟨hpol, alert, inflight, alerts, ?_, hal⟩
    rw [launchDRFM_log h, hlog, hydraCheck_log hcheck]

/-- A query that answers runs the hooks exactly when it answers with an activation. -/
theorem Answer.log_some (h : Answer cfg cs cmd clk (some r) cs') :
    (r.cmdType ≠ .activate ∧ cs'.log = cs.log) ∨
      (cmd.isReadWrite ∧ r = activation cmd ∧ ∃ full, (cfg.drfmPolicy = 1 → full = false) ∧
        HookAdded cs cs' cmd clk full) := by
  cases h with
  | divert hm hd =>
    obtain ⟨_, i, _, ty, _, _, hi, hne, rfl⟩ := hd
    refine .inl ⟨fun hact => ?_, rfl⟩
    obtain ⟨ty', hty, _, heq⟩ := BankState.getReadyCommand_some_iff.mp hi
    obtain rfl : ty = ty' := congrArg Command.cmdType heq
    rw [show ty = .activate from hact] at hty
    have := Chan.not_multi_of_isReadWrite (BankState.isReadWrite_of_requires_activate hty)
    simp [this] at hm
  | allReady hm =>
    refine .inl ⟨fun hact => ?_, rfl⟩
    simp [Command.isRankCMD, Command.isSbCMD, hact] at hm
  | single _ _ hact => exact .inl ⟨hact, rfl⟩
  | activate hpol hcheck hhook hb =>
    obtain ⟨alert, inflight, alerts, hlog, hal⟩ := preactHooks_log hhook
    obtain ⟨ty, hty, _, heq⟩ := BankState.getReadyCommand_some_iff.mp hb
    obtain rfl : ty = .activate := (congrArg Command.cmdType heq).symm
    refine .inr ⟨BankState.isReadWrite_of_requires_activate hty, rfl, _, hpol, alert, inflight,
      alerts, ?_, hal⟩
    rw [hlog, hydraCheck_log hcheck]

theorem HookAdded.trackedLog {full : Bool} (h : HookAdded cs cs' cmd clk full) :
    cs'.trackedLog = .hook ⟨cmd.bankId, cmd.row, clk⟩ :: cs.trackedLog := by
  obtain ⟨alert, inflight, alerts, hlog, hal⟩ := h
  have halerts : alerts.filterMap Event.tracked = [] :=
    List.filterMap_eq_nil_iff.mpr fun e he => Event.tracked_of_crossing (hal e he)
  simp [ChannelState.trackedLog, hlog, Event.tracked, List.filterMap_append, halerts]

theorem Issued.trackedLog {origin : Origin} (h : Issued cfg cs cmd clk origin cs') :
    cs'.trackedLog =
      (Event.issue cmd clk origin cs.bankStates).tracked.toList ++ cs.trackedLog := by
  obtain ⟨extra, hlog, hextra⟩ := h.log
  unfold ChannelState.trackedLog
  rw [hlog, List.filterMap_append, filterMap_tracked_of_internal hextra, List.nil_append,
    List.filterMap_cons]
  cases (Event.issue cmd clk origin cs.bankStates).tracked <;> rfl

end ChannelState

namespace Chan
open ChannelState
variable {cfg : Config} {π : Micro.Policy} {v v' : Chan}

/-- The activation whose hooks have run and which is about to be issued. -/
def pending (v : Chan) : List Activation :=
  match v.ticket with
  | some ⟨r, .demand⟩ => if r.cmdType = .activate then [⟨r.bankId, r.row, v.clk⟩] else []
  | _ => []

theorem pending_of_ne_activate {cs : ChannelState} {clk : ℕ} {r : Command} {origin : Origin}
    {issued : List Command} (h : r.cmdType ≠ .activate) :
    pending ⟨cs, clk, some ⟨r, origin⟩, issued⟩ = [] := by
  cases origin with
  | demand => simp [pending, h]
  | _ => rfl

/-- Commands other than activations for queued accesses are not tracked. -/
theorem untracked_of_not_demand {cs : ChannelState} {clk : ℕ} {r : Command} {origin : Origin}
    {issued : List Command} {found : BankId → BankState}
    (h : ¬(r.cmdType = .activate ∧ origin = .demand)) :
    pending ⟨cs, clk, some ⟨r, origin⟩, issued⟩ = [] ∧
      (Event.issue r clk origin found).tracked = none := by
  cases origin with
  | demand =>
    have hne : r.cmdType ≠ .activate := fun hty => h ⟨hty, rfl⟩
    exact ⟨pending_of_ne_activate hne, by simp [Event.tracked, hne]⟩
  | _ => exact ⟨rfl, by simp [Event.tracked]⟩

/-- The tracked history is a sequence of activations, each counted right before it is issued, at
most one in a tick. -/
structure Paired (v : Chan) (acts : List Activation) : Prop where
  log : v.cs.trackedLog =
    v.pending.map Tracked.hook ++ acts.flatMap fun a => [.act a, .hook a]
  ordered : acts.Pairwise fun later earlier => earlier.clk < later.clk
  past : ∀ a ∈ acts, a.clk ≤ v.clk ∧ (v.issued = [] → a.clk < v.clk)
  fresh : v.ticket ≠ none → v.issued = []

theorem Paired.step (hpol : cfg.drfmPolicy = 0) (hdual : cfg.enableHbmDualCmd = false)
    (hready : Ready cfg v) {acts : List Activation} (hv : Paired v acts)
    (h : Step cfg π v v') : ∃ acts', Paired v' acts' := by
  have hsame {cs cs' : ChannelState} {clk clk' : ℕ} {issued issued' : List Command}
      {ticket : Option Pick} (hv : Paired ⟨cs, clk, none, issued⟩ acts) (hlog : cs'.log = cs.log)
      (hpend : pending ⟨cs', clk', ticket, issued'⟩ = [])
      (hclk : ∀ a ∈ acts, a.clk ≤ clk' ∧ (issued' = [] → a.clk < clk'))
      (hfresh : ticket ≠ none → issued' = []) :
      ∃ acts', Paired ⟨cs', clk', ticket, issued'⟩ acts' := by
    refine ⟨acts, ?_, hv.ordered, hclk, hfresh⟩
    have h₁ : trackedLog cs' = trackedLog cs := by simp only [trackedLog, hlog]
    rw [hpend, h₁]
    exact hv.log
  have hmay {issued : List Command} (h : Micro.MayPick cfg issued) : issued = [] := by
    rcases h with h | h
    · exact h
    · simp [hdual] at h
  cases h with
  | environment => exact hsame hv rfl rfl hv.past (absurd rfl)
  | requestRefresh => exact ⟨acts, hv.log, hv.ordered, hv.past, absurd rfl⟩
  | tick => exact hsame hv clockTick_log rfl hv.past (absurd rfl)
  | query _ h =>
    rcases h.log_none with hlog | ⟨hlazy, _⟩
    · exact hsame hv hlog rfl hv.past (absurd rfl)
    · omega
  | hydraQuery h => exact hsame hv (getReadyHydraCommand_log h) rfl hv.past (absurd rfl)
  | @pick cs clk issued cmd origin r cs' hm hs _ h =>
    rcases h.log_some with ⟨hne, hlog⟩ | ⟨hrw, rfl, full, _, hhook⟩
    · exact hsame hv hlog (pending_of_ne_activate hne) hv.past fun _ => hmay hm
    · rw [hs.origin_of_isReadWrite hready.regular hrw]
      refine ⟨acts, ?_, hv.ordered, hv.past, fun _ => hmay hm⟩
      have hlog := hv.log
      simp only [pending, List.map_nil, List.nil_append] at hlog
      rw [hhook.trackedLog, hlog]
      simp [pending, activation, Command.bankId, Command.row]
  | pickHydra hm h =>
    exact hsame hv (getReadyHydraCommand_log h) rfl hv.past fun _ => hmay hm
  | @issue cs clk p issued cs' h =>
    have hi := updateTimingAndStates_issued h
    obtain rfl := hv.fresh (by simp)
    have hlt : ∀ a ∈ acts, a.clk < clk := fun a ha => (hv.past a ha).2 rfl
    obtain ⟨cmd, origin⟩ := p
    by_cases hact : cmd.cmdType = .activate ∧ origin = .demand
    · obtain ⟨hty, rfl⟩ := hact
      refine ⟨⟨cmd.bankId, cmd.row, clk⟩ :: acts, ?_, ?_, fun a ha => ⟨?_, fun h => (nomatch h)⟩,
        fun h => absurd rfl h⟩
      · have hlog := hv.log
        simp only [pending, hty, if_true, List.map_cons, List.map_nil] at hlog
        simp [hi.trackedLog, hlog, Event.tracked, hty, pending]
      · exact List.pairwise_cons.mpr ⟨hlt, hv.ordered⟩
      · rcases List.mem_cons.mp ha with rfl | ha
        · exact le_rfl
        · exact (hlt a ha).le
    · obtain ⟨hpend, htracked⟩ : pending ⟨cs, clk, some ⟨cmd, origin⟩, []⟩ = [] ∧
          (Event.issue cmd clk origin cs.bankStates).tracked = none := untracked_of_not_demand hact
      refine ⟨acts, ?_, hv.ordered, fun a ha => ⟨(hlt a ha).le, fun h => (nomatch h)⟩,
        fun h => absurd rfl h⟩
      rw [hi.trackedLog, htracked, hv.log, hpend]
      rfl
  | drop hd => simp [hdual] at hd
  | tock =>
    refine hsame hv rfl rfl (fun a ha => ?_) (absurd rfl)
    have := (hv.past a ha).1
    exact ⟨Nat.le_succ_of_le this, fun _ => Nat.lt_succ_of_le this⟩

end Chan

/-- How often the trackers were fed a row, and how often a demand ACT opened it. -/
def ChannelState.hookCount (cs : ChannelState) (bank : BankId) (row : ℤ) : ℕ :=
  cs.trackedLog.countP fun
    | .hook a => a.bank = bank && a.row = row
    | .act _ => false

def ChannelState.demandActCount (cs : ChannelState) (bank : BankId) (row : ℤ) : ℕ :=
  cs.trackedLog.countP fun
    | .act a => a.bank = bank && a.row = row
    | .hook _ => false

/-- Under the eager policy, without HBM dual issue, every run of the hooks is followed in its tick
by the activation it was made for, and every demand activation follows exactly one. -/
theorem eager_hooks_match_activations {cfg : Config} (hpol : cfg.drfmPolicy = 0)
    (hdual : cfg.enableHbmDualCmd = false) {c : Controller} (h : Reachable cfg c) :
    (∃ acts : List Activation,
      c.channelState.trackedLog = (acts.flatMap fun a => [.act a, .hook a]) ∧
      acts.Pairwise fun later earlier => earlier.clk < later.clk) ∧
    ∀ bank row, c.channelState.hookCount bank row = c.channelState.demandActCount bank row := by
  have hr := Micro.reached_of_reachable h
  have hpaired : Chan.Ready cfg (Micro.rest c).chan ∧ ∃ acts, Chan.Paired (Micro.rest c).chan acts :=
    hr.chan_induct (P := fun v => Chan.Ready cfg v ∧ ∃ acts, Chan.Paired v acts)
      (fun boot => ⟨Chan.ready_boot boot, [], rfl, .nil, fun _ h => (nomatch h), absurd rfl⟩)
      fun _ _ hv hs => ⟨hv.1.step hs, hv.2.elim fun _ hp => hp.step hpol hdual hv.1 hs⟩
  obtain ⟨_, acts, hp⟩ := hpaired
  have hlog : c.channelState.trackedLog = acts.flatMap fun a => [.act a, .hook a] := by
    simpa [Chan.pending, Micro.chan, Micro.rest] using hp.log
  refine ⟨⟨acts, hlog, hp.ordered⟩, fun bank row => ?_⟩
  unfold ChannelState.hookCount ChannelState.demandActCount
  rw [hlog]
  clear hlog hp
  induction acts with
  | nil => rfl
  | cons a acts ih => simp [List.countP_cons, ih]

theorem eager_hooks_match_activations_small : ∃ c, Reachable smallConfig c ∧
    c.channelState.trackedLog.length = 4 ∧
    (∃ acts : List Activation,
      c.channelState.trackedLog = (acts.flatMap fun a => [.act a, .hook a]) ∧
      acts.Pairwise fun later earlier => earlier.clk < later.clk) ∧
    ∀ bank row, c.channelState.hookCount bank row = c.channelState.demandActCount bank row := by
  obtain ⟨c, hrun, hc⟩ := exists_ok_of_any
    (x := Controller.run smallConfig ({} : Boot smallConfig).controller smallInputs)
    (p := fun c => c.channelState.trackedLog.length = 4) (by decide +kernel)
  have hr : Reachable smallConfig c := ⟨{}, smallInputs, hrun⟩
  exact ⟨c, hr, by simpa using hc, eager_hooks_match_activations rfl rfl hr⟩

end CactusDram

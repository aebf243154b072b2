import CactusDram.ChannelSteps

/-! Invariants of the channel that later results share: what the maintenance and Hydra queues
hold, which row-buffer states occur, and that a chosen command is legal and ready. -/
namespace CactusDram
open Foundations

def Event.isIssue : Event → Bool
  | .issue _ _ _ _ => true
  | _ => false

theorem Event.isIssue_of_internal {e : Event} (h : e.internal) : e.isIssue = false := by
  cases e <;> simp_all [Event.internal, Event.isIssue]

theorem Event.isIssue_of_crossing {e : Event} (h : e.crossing) : e.isIssue = false := by
  cases e <;> simp_all [Event.crossing, Event.isIssue]

namespace ChannelState
variable {cfg : Config} {cs cs' : ChannelState} {cmd r : Command} {clk : ℕ}

/-- The Hydra queues of a channel that does not use them. -/
def HydraOff (cs : ChannelState) : Prop :=
  cs.hydraRdQ = [] ∧ cs.hydraWbQ = [] ∧ cs.hydraWbDraining = false

/-- A query leaves the core of every bank and the refresh queue alone, only adds RFM and DRFM
requests and metadata accesses, and issues nothing. -/
structure Queried (cfg : Config) (cs cs' : ChannelState) : Prop where
  cores : ∀ i, cs'.cores i = cs.cores i
  log : ∃ extra, cs'.log = extra ++ cs.log ∧ ∀ e ∈ extra, e.isIssue = false
  refreshQ : cs'.refreshQ = cs.refreshQ
  rfmQ : ∃ extra, cs'.rfmQ = cs.rfmQ ++ extra ∧ ∀ r ∈ extra, r.isRFM ∨ r.isDRFM
  hydraQ : ∀ r ∈ cs'.hydraRdQ ++ cs'.hydraWbQ, r ∈ cs.hydraRdQ ++ cs.hydraWbQ ∨ r.isReadWrite
  hydraOff : cfg.hydraMode ≠ 1 → HydraOff cs → HydraOff cs'

namespace Queried

theorem refl (cs : ChannelState) : Queried cfg cs cs :=
  ⟨fun _ => rfl, ⟨[], rfl, by simp⟩, rfl, ⟨[], by simp, by simp⟩, fun _ => .inl, fun _ => id⟩

theorem trans {cs₁ cs₂ cs₃ : ChannelState} (h : Queried cfg cs₁ cs₂) (h' : Queried cfg cs₂ cs₃) :
    Queried cfg cs₁ cs₃ := by
  obtain ⟨ex, hex, hi⟩ := h.log
  obtain ⟨ex', hex', hi'⟩ := h'.log
  obtain ⟨rq, hrq, hr⟩ := h.rfmQ
  obtain ⟨rq', hrq', hr'⟩ := h'.rfmQ
  refine ⟨fun i => (h'.cores i).trans (h.cores i), ⟨ex' ++ ex, ?_, ?_⟩, h'.refreshQ.trans h.refreshQ,
    ⟨rq ++ rq', ?_, ?_⟩, fun r hr => ?_, fun hm ho => h'.hydraOff hm (h.hydraOff hm ho)⟩
  · rw [hex', hex, List.append_assoc]
  · simp only [List.mem_append]
    rintro e (he | he)
    · exact hi' e he
    · exact hi e he
  · rw [hrq', hrq, List.append_assoc]
  · simp only [List.mem_append]
    rintro r (hr₁ | hr₁)
    · exact hr r hr₁
    · exact hr' r hr₁
  · rcases h'.hydraQ r hr with hr | hr
    · exact h.hydraQ r hr
    · exact .inr hr

end Queried

theorem queried_needRFM {req : Command} {target : Command → Bool} (hreq : req.isRFM ∨ req.isDRFM) :
    Queried cfg cs (cs.needRFM req target true) := by
  unfold needRFM
  simp only [if_true]
  split_ifs
  · exact .refl cs
  · exact ⟨fun _ => rfl, ⟨[], rfl, by simp⟩, rfl, ⟨[req], rfl, by simpa using hreq⟩, fun _ => .inl,
      fun _ => id⟩

theorem isDRFM_drfmRequest (cfg : Config) (cmd : Command) : (drfmRequest cfg cmd).isDRFM := by
  unfold drfmRequest
  split_ifs <;> rfl

theorem queried_launchDRFM (h : cs.launchDRFM cfg cmd = .ok cs') : Queried cfg cs cs' := by
  obtain ⟨bs, q, _, rfl, hbs, rfl | rfl⟩ := launchDRFM_eq h
  · exact ⟨hbs, ⟨[], rfl, by simp⟩, rfl, ⟨[], by simp, by simp⟩, fun _ => .inl, fun _ => id⟩
  · refine ⟨hbs, ⟨[], rfl, by simp⟩, rfl, ⟨[_], rfl, ?_⟩, fun _ => .inl, fun _ => id⟩
    intro r hr
    rw [List.mem_singleton.mp hr]
    exact .inr (isDRFM_drfmRequest cfg cmd)

theorem hydraRead_mem (i : BankId) (row : ℤ) (hr : r ∈ (cs.hydraRead i row).2.hydraRdQ) :
    r ∈ cs.hydraRdQ ∨ r.isReadWrite := by
  unfold hydraRead at hr
  split_ifs at hr
  · exact .inl hr
  · exact .inl hr
  · rcases List.mem_append.mp hr with hr | hr
    · exact .inl hr
    · rw [List.mem_singleton.mp hr]
      exact .inr rfl

theorem hydraWB_mem (i : BankId) (row : ℤ) (hr : r ∈ (cs.hydraWB i row).hydraWbQ) :
    r ∈ cs.hydraWbQ ∨ r.isReadWrite := by
  unfold hydraWB at hr
  split_ifs at hr
  · exact .inl hr
  · rcases List.mem_append.mp hr with hr | hr
    · exact .inl hr
    · rw [List.mem_singleton.mp hr]
      exact .inr rfl

theorem queried_hydraRead (i : BankId) (row : ℤ) (hmode : cfg.hydraMode = 1) :
    Queried cfg cs (cs.hydraRead i row).2 := by
  obtain ⟨rd, hrd⟩ := cs.hydraRead_eq i row
  have hmem (r : Command) := cs.hydraRead_mem (r := r) i row
  rw [hrd] at hmem ⊢
  refine ⟨fun _ => rfl, ⟨[], rfl, by simp⟩, rfl, ⟨[], by simp, by simp⟩, fun r hr => ?_,
    fun hne => absurd hmode hne⟩
  rw [List.mem_append] at hr ⊢
  rcases hr with hr | hr
  · exact (hmem r hr).imp .inl id
  · exact .inl (.inr hr)

theorem queried_hydraWB (i : BankId) (row : ℤ) (hmode : cfg.hydraMode = 1) :
    Queried cfg cs (cs.hydraWB i row) := by
  obtain ⟨wb, hwb⟩ := cs.hydraWB_eq i row
  have hmem (r : Command) := cs.hydraWB_mem (r := r) i row
  rw [hwb] at hmem ⊢
  refine ⟨fun _ => rfl, ⟨[], rfl, by simp⟩, rfl, ⟨[], by simp, by simp⟩, fun r hr => ?_,
    fun hne => absurd hmode hne⟩
  rw [List.mem_append] at hr ⊢
  rcases hr with hr | hr
  · exact .inl (.inl hr)
  · exact (hmem r hr).imp .inr id

theorem queried_hydraCheck {ok : Bool} (h : cs.hydraCheck cfg cmd = (ok, cs')) :
    Queried cfg cs cs' := by
  by_cases hmode : cfg.hydraMode = 1
  · have hrcc (rcc : LRUCache) : Queried cfg cs { cs with rcc := rcc } :=
      ⟨fun _ => rfl, ⟨[], rfl, by simp⟩, rfl, ⟨[], by simp, by simp⟩, fun _ => .inl, fun _ => id⟩
    unfold hydraCheck at h
    dsimp only at h
    split_ifs at h with hoff hmiss hvictim
    · exact absurd hmode hoff
    · obtain rfl := congrArg Prod.snd h
      exact (hrcc _).trans (queried_hydraRead _ _ hmode)
    · obtain rfl := congrArg Prod.snd h
      exact ((hrcc _).trans (queried_hydraRead _ _ hmode)).trans
        ((queried_hydraRead _ _ hmode).trans (queried_hydraWB _ _ hmode))
    · cases h
      exact hrcc _
  · rw [hydraCheck_off hmode] at h
    cases h
    exact .refl cs

/-- Counting in CACTUS moves the counter, the max register and possibly the alert state. -/
theorem cactusCount_eq (cfg : Config) (cs : ChannelState) (clk : ℕ) (rank : ℤ) (idx : ℕ) : ∃ m,
    cs.cactusCount cfg rank idx clk = { cs with
      cactus := Function.update cs.cactus idx (u32 (cs.cactus idx + 1))
      cactusTrefMaxCounterIdx := m } ∨
    (cfg.cactusMode ≠ 0 ∧ cs.cactusAlertPending rank = false ∧ cs.cactusRfmInflight rank = false ∧
      cfg.aboDelayActs ≤ cs.cactusActsSinceRfm rank ∧
      cs.cactusCount cfg rank idx clk = { cs with
        cactus := Function.update cs.cactus idx (u32 (cs.cactus idx + 1))
        cactusTrefMaxCounterIdx := m
        cactusAlertPending := Function.update cs.cactusAlertPending rank true
        cactusLastAlertClk := Function.update cs.cactusLastAlertClk rank clk
        cactusPendingCounterIdx := Function.update cs.cactusPendingCounterIdx rank idx
        log := .alert rank idx :: cs.log }) := by
  obtain ⟨m, hm⟩ : ∃ m, cactusTrackMax cfg { cs with
      cactus := Function.update cs.cactus idx (u32 (cs.cactus idx + 1)) } rank idx =
      { cs with
        cactus := Function.update cs.cactus idx (u32 (cs.cactus idx + 1))
        cactusTrefMaxCounterIdx := m } := by
    unfold cactusTrackMax
    dsimp only
    split_ifs <;> exact ⟨_, rfl⟩
  unfold cactusCount
  dsimp only
  rw [hm]
  split_ifs with hmode hth
  · exact ⟨cs.cactusTrefMaxCounterIdx, .inl rfl⟩
  · refine ⟨m, ?_⟩
    unfold cactusRaise
    dsimp only
    split_ifs with hsup
    · exact .inl rfl
    · simp only [Bool.or_eq_true, decide_eq_true_eq, not_or, Bool.not_eq_true, not_lt] at hsup
      exact .inr ⟨hmode, hsup.1.1, hsup.1.2, hsup.2, rfl⟩
  · exact ⟨m, .inl rfl⟩

theorem cactusCount_log (cfg : Config) (cs : ChannelState) (clk : ℕ) (rank : ℤ) (idx : ℕ) :
    ∃ es, (cs.cactusCount cfg rank idx clk).log = es ++ cs.log ∧ ∀ e ∈ es, e.crossing := by
  obtain ⟨m, hc | ⟨_, _, _, _, hc⟩⟩ := cs.cactusCount_eq cfg clk rank idx
  · exact ⟨[], by rw [hc]; rfl, by simp⟩
  · exact ⟨[_], by rw [hc]; rfl, by simp [Event.crossing]⟩

theorem queried_preactHooks {full : Bool} (h : cs.preactHooks cfg cmd clk = .ok (full, cs')) :
    Queried cfg cs cs' := by
  obtain ⟨s, idx, ds, as, _, hs, hds, has, rfl⟩ := preactHooks_eq h
  have hhook : (hookEvent ((cs.noted ds).cactusCount cfg cmd.rank idx clk) cmd clk full).isIssue =
      false := rfl
  generalize hookEvent ((cs.noted ds).cactusCount cfg cmd.rank idx clk) cmd clk full = hook at hhook ⊢
  obtain ⟨es, hlog, hes⟩ := (cs.noted ds).cactusCount_log cfg clk cmd.rank idx
  have hextra : ∀ e ∈ hook :: (as ++ (es ++ ds)), e.isIssue = false := by
    simp only [List.mem_cons, List.mem_append]
    rintro e (rfl | he | he | he)
    · exact hhook
    · exact Event.isIssue_of_crossing (has e he)
    · exact Event.isIssue_of_crossing (hes e he)
    · exact Event.isIssue_of_crossing (hds e he)
  refine ⟨hs, ⟨_, ?_, hextra⟩, ?_, ⟨[], ?_, by simp⟩, fun r hr => .inl ?_, fun _ h => ?_⟩
  · change hook :: (as ++ ((cs.noted ds).cactusCount cfg cmd.rank idx clk).log) = _
    rw [hlog]
    simp [noted]
  all_goals obtain ⟨m, hc | ⟨_, _, _, _, hc⟩⟩ := (cs.noted ds).cactusCount_eq cfg clk cmd.rank idx
  all_goals (try rw [hc] at hr)
  all_goals (try rw [hc])
  all_goals (first | exact hr | exact h | simp [withSide, record, noted])

theorem Answer.queried {r? : Option Command} (h : Answer cfg cs cmd clk r? cs') :
    Queried cfg cs cs' := by
  cases h with
  | wait | divert | allReady | single => exact .refl cs
  | needRFMsb => exact queried_needRFM (.inl rfl)
  | needRFMab => exact queried_needRFM (.inl rfl)
  | eager _ _ h _ => exact queried_launchDRFM h
  | hydraWait h => exact queried_hydraCheck h
  | lazy _ hcheck hhook h =>
    exact ((queried_hydraCheck hcheck).trans (queried_preactHooks hhook)).trans (queried_launchDRFM h)
  | activate _ hcheck hhook => exact (queried_hydraCheck hcheck).trans (queried_preactHooks hhook)

theorem queried_getReadyHydraCommand {r? : Option Command}
    (h : cs.getReadyHydraCommand cfg clk = .ok (r?, cs')) : Queried cfg cs cs' := by
  have hoff : HydraOff cs → HydraOff cs' := by
    intro ho
    rw [getReadyHydraCommand_off ho.2.2 ho.1 ho.2.1] at h
    cases h
    exact ho
  obtain ⟨⟨d, rd, wb, rfl⟩, _, hrd, hwb⟩ := getReadyHydraCommand_eq h
  exact ⟨fun _ => rfl, ⟨[], rfl, by simp⟩, rfl, ⟨[], by simp, by simp⟩,
    fun r hr => .inl ((hrd.append hwb).mem hr), fun _ => hoff⟩

/-- The clock of the channel only turns alerts into RFMab requests. -/
theorem queried_cactusTick (rank : ℤ) : Queried cfg cs (cactusTick cfg clk cs rank) := by
  unfold cactusTick
  dsimp only
  split_ifs
  · exact .refl cs
  · exact .refl cs
  · generalize RfmCall.cactus _ _ = call
    have h : Queried cfg (cs.recordRfm call) ((cs.recordRfm call).rankNeedRFM rank true) :=
      queried_needRFM (.inl rfl)
    exact ⟨h.cores, h.log, h.refreshQ, h.rfmQ, h.hydraQ, h.hydraOff⟩

/-- The clock of a channel serves its ABO alert and then the CACTUS alerts, rank by rank. -/
theorem clockTick_rel {R : ChannelState → ChannelState → Prop} (hrefl : ∀ cs, R cs cs)
    (htrans : ∀ {cs₁ cs₂ cs₃}, R cs₁ cs₂ → R cs₂ cs₃ → R cs₁ cs₃)
    (habo : cs.alertN → R cs (cs.rankNeedRFM cs.alertRank true).resetAlert)
    (htick : cfg.cactusMode ≠ 0 → ∀ cs (rank : ℤ), R cs (cactusTick cfg clk cs rank)) :
    R cs (cs.clockTick cfg clk) := by
  have hfold (hmode : cfg.cactusMode ≠ 0) : ∀ (l : List ℕ) (cs : ChannelState),
      R cs (l.foldl (fun cs (rank : ℕ) => cactusTick cfg clk cs rank) cs) := by
    intro l
    induction l with
    | nil => exact hrefl
    | cons rank l ih => exact fun cs => htrans (htick hmode cs rank) (ih _)
  unfold clockTick
  dsimp only
  split_ifs with hmode hdue hdue
  · exact habo hdue.1
  · exact hrefl cs
  · exact htrans (habo hdue.1) (hfold hmode _ _)
  · exact hfold hmode _ _

/-- What neither requests nor alert flags are part of, the clock of a channel keeps. -/
theorem clockTick_keeps {α : Type*} (f : ChannelState → α)
    (hneed : ∀ cs rank, f (rankNeedRFM cs rank true) = f cs)
    (hrecord : ∀ cs call, f (recordRfm cs call) = f cs) (habo : ∀ cs, f (resetAlert cs) = f cs)
    (hflags : ∀ cs alert inflight,
      f { cs with cactusAlertPending := alert, cactusRfmInflight := inflight } = f cs) :
    f (cs.clockTick cfg clk) = f cs := by
  refine clockTick_rel (R := fun cs cs' => f cs' = f cs) (fun _ => rfl) (fun h h' => h'.trans h)
    (fun _ => (habo _).trans (hneed _ _)) fun _ cs rank => ?_
  have hclear (cs : ChannelState) : f (cs.clearAlert rank) = f cs :=
    hflags cs (Function.update cs.cactusAlertPending rank false) cs.cactusRfmInflight
  unfold cactusTick
  dsimp only
  split_ifs
  · rfl
  · rfl
  · exact (hflags _ _ _).trans ((hclear _).trans ((hneed _ _).trans (hrecord _ _)))

theorem queried_clockTick : Queried cfg cs (cs.clockTick cfg clk) := by
  refine clockTick_rel .refl .trans (fun _ => ?_) fun _ _ => queried_cactusTick
  have h : Queried cfg cs (cs.rankNeedRFM cs.alertRank true) := queried_needRFM (.inl rfl)
  exact ⟨h.cores, h.log, h.refreshQ, h.rfmQ, h.hydraQ, h.hydraOff⟩

/-- The maintenance queues hold maintenance requests, the Hydra queues hold metadata accesses, and
without self-refresh every row buffer is open or closed. -/
structure Regular (cfg : Config) (cs : ChannelState) : Prop where
  refreshQ : ∀ r ∈ cs.refreshQ, r.isRefresh
  rfmQ : ∀ r ∈ cs.rfmQ, r.isRFM ∨ r.isDRFM
  hydraQ : ∀ r ∈ cs.hydraRdQ ++ cs.hydraWbQ, r.isReadWrite
  hydraOff : cfg.hydraMode ≠ 1 → HydraOff cs
  rows : cfg.enableSelfRefresh = false →
    ∀ i, (cs.bankStates i).state = .open ∨ (cs.bankStates i).state = .closed

theorem Regular.queried (hr : Regular cfg cs) (h : Queried cfg cs cs') : Regular cfg cs' := by
  refine ⟨fun r hmem => hr.refreshQ r (h.refreshQ ▸ hmem), fun r hmem => ?_, fun r hmem => ?_,
    fun hm => h.hydraOff hm (hr.hydraOff hm), fun hs i => ?_⟩
  · obtain ⟨extra, hextra, hreq⟩ := h.rfmQ
    rw [hextra, List.mem_append] at hmem
    exact hmem.elim (hr.rfmQ r) (hreq r)
  · exact (h.hydraQ r hmem).elim (hr.hydraQ r) id
  · have : (cs'.bankStates i).state = (cs.bankStates i).state := congrArg BankCore.state (h.cores i)
    rw [this]
    exact hr.rows hs i

/-- A legal command other than SREF_ENTER leaves an open or closed bank open or closed. -/
theorem rows_of_updateState {b b' : BankState} (hb : b.state = .open ∨ b.state = .closed)
    (hcmd : cmd.cmdType ≠ .srefEnter) (h : b.updateState cfg cmd = .ok b') :
    b'.state = .open ∨ b'.state = .closed := by
  have hf : b'.face.state = .open ∨ b'.face.state = .closed := by
    rcases BankState.updateState_face h with ⟨h, _⟩ | ⟨h, _⟩ | ⟨h, _⟩ | ⟨h, _⟩ | ⟨_, _, h⟩ | ⟨h, _⟩
    · rw [h]; exact hb
    · rw [h]; exact .inr rfl
    · rw [h]; exact hb
    · rw [h]; exact .inl rfl
    · exact absurd h hcmd
    · rw [h]; exact .inr rfl
  exact hf

theorem Regular.issued {origin : Origin} (hr : Regular cfg cs)
    (hcmd : cfg.enableSelfRefresh = false → cmd.cmdType ≠ .srefEnter)
    (h : Issued cfg cs cmd clk origin cs') : Regular cfg cs' := by
  refine ⟨fun r hmem => hr.refreshQ r (h.refreshQ.mem hmem), fun r hmem => hr.rfmQ r (h.rfmQ.mem hmem),
    ?_, fun hm => ?_, fun hs i => ?_⟩
  · rw [h.hydraRdQ, h.hydraWbQ]
    exact hr.hydraQ
  · unfold HydraOff
    rw [h.hydraRdQ, h.hydraWbQ, h.hydraWbDraining]
    exact hr.hydraOff hm
  · by_cases hi : i ∈ covered cfg cmd
    · obtain ⟨b, hb, hstate, _⟩ := h.legal i hi
      rw [hstate]
      exact rows_of_updateState (hr.rows hs i) (hcmd hs) hb
    · rw [(h.frame i hi).1]
      exact hr.rows hs i

end ChannelState

namespace Chan
open ChannelState
variable {cfg : Config} {cs cs' : ChannelState} {cmd r : Command} {origin : Origin} {clk : ℕ}

/-- A request of a queue is a READ or WRITE, or a maintenance request. -/
theorem Asks.cases_type (hr : Regular cfg cs) (h : Asks cfg cs cmd origin) :
    (cmd.isReadWrite ∧ origin = .demand) ∨
      ((cmd.isRefresh ∨ cmd.isRFM ∨ cmd.isDRFM) ∧ (origin = .refresh cmd ∨ origin = .rfm cmd)) ∨
      (cfg.enableSelfRefresh ∧ (cmd.cmdType = .srefEnter ∨ cmd.cmdType = .srefExit) ∧
        origin = .sref cmd) := by
  cases h with
  | refresh hq => exact .inr (.inl ⟨.inl (hr.refreshQ _ (hq ▸ List.mem_cons_self)), .inl rfl⟩)
  | rfm hq => exact .inr (.inl ⟨.inr (hr.rfmQ _ (hq ▸ List.mem_cons_self)), .inr rfl⟩)
  | demand hrw => exact .inl ⟨hrw, rfl⟩
  | sref _ hen hty => exact .inr (.inr ⟨hen, hty, rfl⟩)

theorem Asks.origin_of_isReadWrite (hreg : Regular cfg cs)
    (h : Asks cfg cs cmd origin) (hrw : cmd.isReadWrite) :
    origin = .demand := by
  rcases h.cases_type hreg with ⟨_, h⟩ | ⟨h, _⟩ | ⟨_, h, _⟩
  · exact h
  all_goals
    obtain ⟨ty, _, _⟩ := cmd
    cases ty <;> simp_all [Command.isReadWrite, Command.isRead, Command.isWrite, Command.isRefresh,
      Command.isRFM, Command.isDRFM]

/-- What is known of a chosen command: the banks it acts on are in the right state and ready.
Nothing is said of self-refresh commands, nor of an RFM that answers a metadata access. -/
inductive Granted (cfg : Config) (cs : ChannelState) (clk : ℕ) : Pick → Prop
  | column {cmd : Command} {o : Origin} (hrw : cmd.isReadWrite)
      (hopen : (cs.cores cmd.bankId).state = .open)
      (hrow : cmd.row = (cs.cores cmd.bankId).openRow)
      (ht : (cs.cores cmd.bankId).cmdTiming cmd.cmdType ≤ clk) : Granted cfg cs clk ⟨cmd, o⟩
  | precharge {cmd : Command} {o : Origin} (hty : cmd.cmdType = .precharge)
      (hopen : (cs.cores cmd.bankId).state = .open)
      (ht : (cs.cores cmd.bankId).cmdTiming cmd.cmdType ≤ clk) : Granted cfg cs clk ⟨cmd, o⟩
  | activate {cmd : Command} {o : Origin} (hty : cmd.cmdType = .activate)
      (hclosed : (cs.cores cmd.bankId).state = .closed)
      (ht : (cs.cores cmd.bankId).cmdTiming cmd.cmdType ≤ clk) : Granted cfg cs clk ⟨cmd, o⟩
  | maintain {cmd : Command} {o : Origin} (hcmd : cmd.isRefresh ∨ cmd.isRFM ∨ cmd.isDRFM)
      (ho : o = .refresh cmd ∨ o = .rfm cmd)
      (hall : ∀ i ∈ covered cfg cmd, (cs.cores i).state = .closed ∧
        (cs.cores i).cmdTiming cmd.cmdType ≤ clk) : Granted cfg cs clk ⟨cmd, o⟩
  | prechargeAll {served : Command} {i : BankId} {o : Origin}
      (hserved : served.isRefresh ∨ served.isRFM ∨ served.isDRFM)
      (ho : o = .refresh served ∨ o = .rfm served) (hm : served.isRankCMD ∨ served.isSbCMD)
      (hi : i ∈ covered cfg served) (hopen : (cs.cores i).state = .open)
      (ht : (cs.cores i).cmdTiming (BankState.prechargeFor served) ≤ clk) :
      Granted cfg cs clk ⟨⟨BankState.prechargeFor served,
        ⟨-1, i.rank, i.bankgroup, i.bank, -1, -1⟩, served.hexAddr⟩, o⟩
  | sref {p : Pick} (hen : cfg.enableSelfRefresh)
      (hp : p.cmd.cmdType = .srefExit ∨ ∃ req, p.origin = .sref req) : Granted cfg cs clk p
  | hydraRFM {cmd : Command} (hmode : cfg.hydraMode = 1) (hcmd : cmd.isRFM) :
      Granted cfg cs clk ⟨cmd, .hydra⟩

theorem Granted.congr {p : Pick} (h : Granted cfg cs clk p) (hc : ∀ i, cs'.cores i = cs.cores i) :
    Granted cfg cs' clk p := by
  cases h with
  | column hrw hopen hrow ht => exact .column hrw (hc _ ▸ hopen) (hc _ ▸ hrow) (hc _ ▸ ht)
  | precharge hty hopen ht => exact .precharge hty (hc _ ▸ hopen) (hc _ ▸ ht)
  | activate hty hclosed ht => exact .activate hty (hc _ ▸ hclosed) (hc _ ▸ ht)
  | maintain hcmd ho hall => exact .maintain hcmd ho fun i hi => hc i ▸ hall i hi
  | prechargeAll hs ho hm hi hopen ht => exact .prechargeAll hs ho hm hi (hc _ ▸ hopen) (hc _ ▸ ht)
  | sref hen hp => exact .sref hen hp
  | hydraRFM hmode hcmd => exact .hydraRFM hmode hcmd

theorem not_multi_of_isReadWrite (h : cmd.isReadWrite) :
    cmd.isRankCMD = false ∧ cmd.isSbCMD = false := by
  obtain ⟨ty, _, _⟩ := cmd
  cases ty <;> simp_all [Command.isReadWrite, Command.isRead, Command.isWrite, Command.isRankCMD,
    Command.isSbCMD]

theorem prechargeFor_ne_of_maintenance (h : cmd.isRefresh ∨ cmd.isRFM ∨ cmd.isDRFM) :
    BankState.prechargeFor cmd ≠ cmd.cmdType := by
  intro hty
  unfold BankState.prechargeFor at hty
  split_ifs at hty <;> simp [Command.isRefresh, Command.isRFM, Command.isDRFM, ← hty] at h

/-- The answer of a bank to a READ or WRITE. -/
theorem granted_of_readWrite (hreg : Regular cfg cs) (hrw : cmd.isReadWrite)
    (h : (cs.bankStates cmd.bankId).getReadyCommand cfg cmd clk = .ok (some r))
    (hrfm : r.isRFM = false) (o : Origin) : Granted cfg cs clk ⟨r, o⟩ := by
  obtain ⟨ty, hty, ht, rfl⟩ := BankState.getReadyCommand_some_iff.mp h
  rcases BankState.requiredType_of_isReadWrite hrw hty with ⟨hs, rfl, hrow⟩ | ⟨hs, rfl, _⟩ |
    ⟨hs, rfl | ⟨_, rfl | rfl⟩⟩ | ⟨hs, rfl⟩
  · exact .column hrw hs hrow ht
  · exact .precharge rfl hs ht
  · exact .activate rfl hs ht
  · cases hrfm
  · cases hrfm
  · refine .sref ?_ (.inl rfl)
    by_contra hen
    have := hreg.rows (by simpa using hen) cmd.bankId
    simp [hs] at this

theorem Granted.of_answer (hreg : Regular cfg cs) (ha : Asks cfg cs cmd origin)
    (h : Answer cfg cs cmd clk (some r) cs') : Granted cfg cs clk ⟨r, origin⟩ := by
  rcases ha.cases_type hreg with ⟨hrw, -⟩ | ⟨hmaint, ho⟩ | ⟨hen, _, ho⟩
  · have hm := not_multi_of_isReadWrite hrw
    cases h with
    | divert hm' | allReady hm' => simp [hm] at hm'
    | single _ hb _ hrfm => exact granted_of_readWrite hreg hrw hb hrfm _
    | activate _ _ _ hb => exact granted_of_readWrite hreg hrw hb rfl _
  · have hmaint' : cmd.isRefresh ∨ cmd.isRFM ∨ cmd.isDRFM ∨ cmd.cmdType = .srefEnter :=
      hmaint.imp_right (Or.imp_right .inl)
    cases h with
    | divert hm hd =>
      obtain ⟨pre, i, post, ty, hcov, _, hi, hne, rfl⟩ := hd
      obtain ⟨ty', hty, ht, heq⟩ := BankState.getReadyCommand_some_iff.mp hi
      cases heq
      rcases BankState.requiredType_of_maintenance hmaint' hty with ⟨_, h⟩ | ⟨hs, rfl⟩
      · exact absurd h hne
      · exact .prechargeAll hmaint ho hm (hcov ▸ by simp) hs ht
    | allReady hm hall =>
      refine .maintain hmaint ho fun i hi => ?_
      obtain ⟨ty, hty, ht, heq⟩ := BankState.getReadyCommand_some_iff.mp (hall i hi)
      obtain rfl : ty = cmd.cmdType := (congrArg Command.cmdType heq).symm
      rcases BankState.requiredType_of_maintenance hmaint' hty with ⟨hs, _⟩ | ⟨_, h⟩
      · exact ⟨hs, ht⟩
      · exact absurd h.symm (prechargeFor_ne_of_maintenance hmaint)
    | single hm hb hact =>
      obtain ⟨ty, hty, ht, rfl⟩ := BankState.getReadyCommand_some_iff.mp hb
      rcases BankState.requiredType_of_maintenance hmaint' hty with ⟨hs, rfl⟩ | ⟨hs, rfl⟩
      · refine .maintain hmaint ho fun i hi => ?_
        obtain rfl : i = cmd.bankId := by simpa [covered, hm.1, hm.2] using hi
        exact ⟨hs, ht⟩
      · have hpre : BankState.prechargeFor cmd = .precharge := by
          simp [BankState.prechargeFor, hm.1, hm.2]
        rw [hpre] at ht ⊢
        exact .precharge rfl hs ht
    | activate _ _ _ hb =>
      obtain ⟨ty, hty, ht, heq⟩ := BankState.getReadyCommand_some_iff.mp hb
      obtain rfl : ty = .activate := (congrArg Command.cmdType heq).symm
      rcases BankState.requiredType_of_maintenance hmaint' hty with ⟨_, h⟩ | ⟨_, h⟩
      · simp [Command.isRefresh, Command.isRFM, Command.isDRFM, ← h] at hmaint
      · unfold BankState.prechargeFor at h
        split_ifs at h
  · exact .sref hen (.inr ⟨_, ho⟩)

theorem Granted.of_hydra (hreg : Regular cfg cs)
    (h : cs.getReadyHydraCommand cfg clk = .ok (some r, cs')) : Granted cfg cs clk ⟨r, .hydra⟩ := by
  obtain ⟨_, hanswer, _⟩ := getReadyHydraCommand_eq h
  obtain ⟨cmd, hmem, hb⟩ := hanswer r rfl
  by_cases hrfm : r.isRFM
  · refine .hydraRFM ?_ hrfm
    by_contra hmode
    obtain ⟨h₁, h₂, _⟩ := hreg.hydraOff hmode
    simp [h₁, h₂] at hmem
  · exact granted_of_readWrite hreg (hreg.hydraQ cmd hmem) hb (by simpa using hrfm) _

/-- The chosen command is granted, and it is not SREF_ENTER unless self-refresh is on. -/
structure Ready (cfg : Config) (v : Chan) : Prop where
  regular : Regular cfg v.cs
  ticket : ∀ p, v.ticket = some p → Granted cfg v.cs v.clk p

theorem Granted.ne_srefEnter {p : Pick} (h : Granted cfg cs clk p)
    (hen : cfg.enableSelfRefresh = false) : p.cmd.cmdType ≠ .srefEnter := by
  intro hty
  cases h with
  | column hrw | maintain hcmd =>
    simp_all [Command.isReadWrite, Command.isRead, Command.isWrite, Command.isRefresh,
      Command.isRFM, Command.isDRFM]
  | precharge h | activate h => simp [h] at hty
  | @prechargeAll served =>
    simp only [BankState.prechargeFor] at hty
    split_ifs at hty
  | sref h => simp [hen] at h
  | hydraRFM _ h => simp_all [Command.isRFM]

theorem Ready.step {π : Micro.Policy} {v v' : Chan} (hv : Ready cfg v) (h : Step cfg π v v') :
    Ready cfg v' := by
  obtain ⟨hreg, hticket⟩ := hv
  have hnone (v : Chan) (hv : v.ticket = none) (p : Pick) (hp : v.ticket = some p) :
      Granted cfg v.cs v.clk p := by rw [hv] at hp; cases hp
  cases h with
  | environment rcc draws idle =>
    exact ⟨⟨hreg.refreshQ, hreg.rfmQ, hreg.hydraQ, hreg.hydraOff, hreg.rows⟩, hnone _ rfl⟩
  | @requestRefresh cs _ _ req hreq =>
    refine ⟨⟨fun r hr => ?_, hreg.rfmQ, hreg.hydraQ, hreg.hydraOff, hreg.rows⟩, hnone _ rfl⟩
    rcases List.mem_append.mp hr with hr | hr
    · exact hreg.refreshQ r hr
    · rw [List.mem_singleton.mp hr]
      exact hreq
  | tick => exact ⟨hreg.queried queried_clockTick, hnone _ rfl⟩
  | query _ h => exact ⟨hreg.queried h.queried, hnone _ rfl⟩
  | hydraQuery h => exact ⟨hreg.queried (queried_getReadyHydraCommand h), hnone _ rfl⟩
  | pick _ hs _ h =>
    refine ⟨hreg.queried h.queried, fun p hp => ?_⟩
    cases hp
    exact (Granted.of_answer hreg hs h).congr h.queried.cores
  | pickHydra _ h =>
    refine ⟨hreg.queried (queried_getReadyHydraCommand h), fun p hp => ?_⟩
    cases hp
    exact (Granted.of_hydra hreg h).congr (queried_getReadyHydraCommand h).cores
  | issue h =>
    have hg := hticket _ rfl
    exact ⟨hreg.issued (fun hen => hg.ne_srefEnter hen) (updateTimingAndStates_issued h), hnone _ rfl⟩
  | drop => exact ⟨hreg, hnone _ rfl⟩
  | tock => exact ⟨hreg, hnone _ rfl⟩

/-- An activation is answered to a request for which the bank asks for it. -/
theorem ready_of_answer_activate (h : Answer cfg cs cmd clk (some r) cs') (hact : r.cmdType = .activate) :
    r = activation cmd ∧
      (cs.bankStates cmd.bankId).getReadyCommand cfg cmd clk = .ok (some (activation cmd)) := by
  cases h with
  | divert hm hd =>
    obtain ⟨_, i, _, ty, _, _, hi, _, rfl⟩ := hd
    dsimp only at hact
    subst hact
    obtain ⟨ty, hty, _, heq⟩ := BankState.getReadyCommand_some_iff.mp hi
    obtain rfl : ty = .activate := (congrArg Command.cmdType heq).symm
    obtain ⟨h₁, h₂⟩ := not_multi_of_isReadWrite (BankState.isReadWrite_of_requires_activate hty)
    simp [h₁, h₂] at hm
  | allReady hm => simp [Command.isRankCMD, Command.isSbCMD, hact] at hm
  | single _ _ hne => exact absurd hact hne
  | activate _ _ _ hb => exact ⟨rfl, hb⟩

/-- An activation is chosen for a request whose bank asks for it. -/
theorem Step.requires_activate {π : Micro.Policy} {v v' : Chan} (h : Step cfg π v v') {p : Pick}
    (hp : v'.ticket = some p) (hact : p.cmd.cmdType = .activate) : ∃ cmd, p.cmd = activation cmd ∧
      (v.cs.bankStates cmd.bankId).requiredType cfg cmd = .ok (some .activate) := by
  have hbank {cs : ChannelState} {cmd r : Command} {clk : ℕ} (hr : r.cmdType = .activate)
      (hb : (cs.bankStates cmd.bankId).getReadyCommand cfg cmd clk = .ok (some r)) :
      r = activation cmd ∧ (cs.bankStates cmd.bankId).requiredType cfg cmd = .ok (some .activate) := by
    obtain ⟨ty, hty, _, rfl⟩ := BankState.getReadyCommand_some_iff.mp hb
    dsimp only at hr
    subst hr
    exact ⟨rfl, hty⟩
  cases h with
  | environment | requestRefresh | tick | query | hydraQuery | issue | drop | tock => cases hp
  | @pick _ _ _ cmd _ _ _ _ _ _ h =>
    cases hp
    obtain ⟨rfl, hb⟩ := ready_of_answer_activate h hact
    exact ⟨cmd, hbank rfl hb⟩
  | pickHydra _ h =>
    cases hp
    obtain ⟨_, hanswer, _⟩ := getReadyHydraCommand_eq h
    obtain ⟨cmd, _, hb⟩ := hanswer _ rfl
    exact ⟨cmd, hbank hact hb⟩

/-- Only an issued command changes the core of a bank, and only it is an issue in the history. -/
theorem Step.cores_or_issue {π : Micro.Policy} {v v' : Chan} (h : Step cfg π v v') :
    ((∀ i, v'.cs.cores i = v.cs.cores i) ∧
        ∃ extra, v'.cs.log = extra ++ v.cs.log ∧ ∀ e ∈ extra, e.isIssue = false) ∨
      ∃ p, v.ticket = some p ∧ v.cs.updateTimingAndStates cfg p.cmd v.clk p.origin = .ok v'.cs := by
  cases h with
  | environment | drop | tock => exact .inl ⟨fun _ => rfl, [], rfl, by simp⟩
  | requestRefresh => exact .inl ⟨fun _ => rfl, [_], rfl, by simp [Event.isIssue]⟩
  | tick => exact .inl ⟨queried_clockTick.cores, queried_clockTick.log⟩
  | query _ h => exact .inl ⟨h.queried.cores, h.queried.log⟩
  | hydraQuery h =>
    have hq := queried_getReadyHydraCommand h
    exact .inl ⟨hq.cores, hq.log⟩
  | pick _ _ _ h => exact .inl ⟨h.queried.cores, h.queried.log⟩
  | pickHydra _ h =>
    have hq := queried_getReadyHydraCommand h
    exact .inl ⟨hq.cores, hq.log⟩
  | issue h => exact .inr ⟨_, rfl, h⟩

/-- A step adds to the history the command it issues, and events that are no issue. -/
theorem Step.log {π : Micro.Policy} {v v' : Chan} (h : Step cfg π v v') :
    (∃ extra, v'.cs.log = extra ++ v.cs.log ∧ ∀ e ∈ extra, e.isIssue = false) ∨
      ∃ p, v.ticket = some p ∧ Issued cfg v.cs p.cmd v.clk p.origin v'.cs := by
  rcases h.cores_or_issue with ⟨_, hlog⟩ | ⟨p, hp, hissue⟩
  · exact .inl hlog
  · exact .inr ⟨p, hp, updateTimingAndStates_issued hissue⟩

theorem Step.log_mem {π : Micro.Policy} {v v' : Chan} (h : Step cfg π v v') {e : Event}
    (he : e ∈ v'.cs.log) : e ∈ v.cs.log ∨ e.isIssue = false ∨
      ∃ p, v.ticket = some p ∧ Issued cfg v.cs p.cmd v.clk p.origin v'.cs ∧
        e = .issue p.cmd v.clk p.origin v.cs.bankStates := by
  rcases h.log with ⟨extra, hlog, hextra⟩ | ⟨p, hp, hi⟩
  · rw [hlog, List.mem_append] at he
    exact he.elim (fun he => .inr (.inl (hextra e he))) .inl
  · obtain ⟨extra, hlog, hextra⟩ := hi.log
    rw [hlog, List.mem_append, List.mem_cons] at he
    rcases he with he | he | he
    · exact .inr (.inl (Event.isIssue_of_internal (hextra e he)))
    · exact .inr (.inr ⟨p, hp, hi, he⟩)
    · exact .inl he

theorem ready_boot (boot : Boot cfg) : Ready cfg ⟨boot.channelState, 0, none, []⟩ :=
  ⟨⟨fun _ h => (nomatch h), fun _ h => (nomatch h), fun _ h => (nomatch h), fun _ => ⟨rfl, rfl, rfl⟩,
    fun _ _ => .inr rfl⟩, fun _ h => nomatch h⟩

end Chan

theorem Micro.Reached.ready {cfg : Config} {π : Micro.Policy} {m : Micro}
    (h : Micro.Reached cfg π m) : Chan.Ready cfg m.chan :=
  h.chan_induct (P := Chan.Ready cfg) Chan.ready_boot fun _ _ hv hs => hv.step hs

end CactusDram

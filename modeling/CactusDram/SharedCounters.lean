import CactusDram.Registers
import CactusDram.SharedQueue

/-! The counters that all banks share. One that reaches its threshold waits in a queue of the channel,
which only a DRFM of a whole rank works off. -/
namespace CactusDram
open Foundations

/-- Counters, the queue of those that wait for a mitigation, and whether a counter has ever reached the
threshold. -/
structure SharedTable where
  count : ℕ → ℕ
  waiting : List ℕ
  crossed : Bool

namespace SharedTable
variable {th : ℕ} {t t' : SharedTable}

/-- The uses of a table, apart from mitigations. -/
inductive Move (th : ℕ) (t : SharedTable) : SharedTable → Prop
  | restart {count : ℕ → ℕ} (h : ∀ n, count n = t.count n ∨ count n = 0) :
      Move th t { t with count := count }
  | count {n v : ℕ} (h : v < th) : Move th t { t with count := Function.update t.count n v }
  | cross {count : ℕ → ℕ} {added : List ℕ} (h : added ≠ []) :
      Move th t ⟨count, t.waiting ++ added, true⟩

theorem Move.refl (t : SharedTable) : Move th t t :=
  (.restart fun _ => .inl rfl : Move th t { t with count := t.count })

/-- The queue is empty exactly until a counter reaches the threshold, and so long all are below it. -/
structure Unserved (th : ℕ) (t : SharedTable) : Prop where
  waiting : t.waiting = [] ↔ t.crossed = false
  low : t.crossed = false → ∀ n, t.count n = 0 ∨ t.count n < th

theorem Unserved.move (h : Unserved th t) (hm : Move th t t') : Unserved th t' := by
  cases hm with
  | restart hcount =>
    refine ⟨h.waiting, fun hcrossed n => ?_⟩
    obtain hn | hn := hcount n
    · dsimp only
      rw [hn]
      exact h.low hcrossed n
    · exact .inl hn
  | @count n v hv =>
    refine ⟨h.waiting, fun hcrossed k => ?_⟩
    by_cases hk : k = n
    · subst hk
      exact .inr (by simpa using hv)
    · dsimp only
      rw [Function.update_of_ne hk]
      exact h.low hcrossed k
  | cross hadded =>
    refine ⟨⟨fun hnil => ?_, fun hcrossed => nomatch hcrossed⟩, fun hcrossed => nomatch hcrossed⟩
    exact absurd (List.append_eq_nil_iff.mp hnil).2 hadded

theorem Unserved.served_iff (h : Unserved th t) (size : ℕ) :
    (t.waiting = [] ∧ ∀ n < size, t.count n < th) ↔ t.crossed = false ∧ (0 < size → 0 < th) := by
  constructor
  · rintro ⟨hnil, hlow⟩
    exact ⟨h.waiting.mp hnil, fun hsize => Nat.zero_lt_of_lt (hlow 0 hsize)⟩
  · rintro ⟨hcrossed, hth⟩
    refine ⟨h.waiting.mpr hcrossed, fun n hn => ?_⟩
    obtain hzero | hlow := h.low hcrossed n
    · rw [hzero]
      exact hth (Nat.zero_lt_of_lt hn)
    · exact hlow

end SharedTable

def Event.isDreamCross : Event → Bool
  | .dreamCross _ => true
  | _ => false

def Event.isAbacusCross : Event → Bool
  | .abacusCross _ => true
  | _ => false

namespace ChannelState
variable {cfg : Config} {cs cs' : ChannelState} {cmd : Command} {clk : ℕ}

def dreamTable (cs : ChannelState) : SharedTable :=
  ⟨cs.tusc, cs.tuscQ, cs.log.any Event.isDreamCross⟩

def abacusRounds (cs : ChannelState) : SharedTable :=
  ⟨fun row => (cs.abacusTable row).rac, cs.abacusQ, cs.log.any Event.isAbacusCross⟩

/-- Both tables are used as one that nobody works off. DREAM compares its counters alone. -/
def TableMoves (cfg : Config) (cs cs' : ChannelState) : Prop :=
  (cfg.dreamMode = 1 ∧ cfg.dreamPrevEnable = false ∧ 0 < cfg.dreamK →
    SharedTable.Move (u32 cfg.dreamTh) cs.dreamTable cs'.dreamTable) ∧
  SharedTable.Move (u32 cfg.abacusTh) cs.abacusRounds cs'.abacusRounds

theorem TableMoves.of_eq (hd : cs'.dreamTable = cs.dreamTable)
    (ha : cs'.abacusRounds = cs.abacusRounds) : TableMoves cfg cs cs' :=
  ⟨fun _ => hd ▸ .refl _, ha ▸ .refl _⟩

/-- The counters stay or restart, and the queues stay. -/
structure Restarts (cs cs' : ChannelState) : Prop where
  tusc : ∀ n, cs'.tusc n = cs.tusc n ∨ cs'.tusc n = 0
  tuscQ : cs'.tuscQ = cs.tuscQ
  abacusTable : ∀ row, cs'.abacusTable row = cs.abacusTable row ∨ cs'.abacusTable row = {}
  abacusQ : cs'.abacusQ = cs.abacusQ

namespace Restarts

theorem refl (cs : ChannelState) : Restarts cs cs := ⟨fun _ => .inl rfl, rfl, fun _ => .inl rfl, rfl⟩

theorem trans {cs₁ cs₂ cs₃ : ChannelState} (h : Restarts cs₁ cs₂) (h' : Restarts cs₂ cs₃) :
    Restarts cs₁ cs₃ := by
  refine ⟨fun n => ?_, h'.tuscQ.trans h.tuscQ, fun row => ?_, h'.abacusQ.trans h.abacusQ⟩
  · obtain hn | hn := h'.tusc n
    · rw [hn]
      exact h.tusc n
    · exact .inr hn
  · obtain hrow | hrow := h'.abacusTable row
    · rw [hrow]
      exact h.abacusTable row
    · exact .inr hrow

theorem of_cactusOnly (h : CactusOnly cs cs') : Restarts cs cs' := by
  unfold CactusOnly at h
  rw [h]
  exact ⟨fun _ => .inl rfl, rfl, fun _ => .inl rfl, rfl⟩

/-- A restart shows in the tables if no crossing is recorded with it. -/
theorem tableMoves (h : Restarts cs cs') {extra : List Event} (hlog : cs'.log = extra ++ cs.log)
    (hextra : ∀ e ∈ extra, e.isDreamCross = false ∧ e.isAbacusCross = false) :
    TableMoves cfg cs cs' := by
  have hdream : extra.any Event.isDreamCross = false :=
    List.any_eq_false.mpr fun e he => by simp [(hextra e he).1]
  have habacus : extra.any Event.isAbacusCross = false :=
    List.any_eq_false.mpr fun e he => by simp [(hextra e he).2]
  constructor
  · intro _
    have heq : cs'.dreamTable = { cs.dreamTable with count := cs'.tusc } := by
      simp [dreamTable, h.tuscQ, hlog, hdream]
    rw [heq]
    exact .restart h.tusc
  · have heq : cs'.abacusRounds =
        { cs.abacusRounds with count := fun row => (cs'.abacusTable row).rac } := by
      simp [abacusRounds, h.abacusQ, hlog, habacus]
    rw [heq]
    refine .restart fun row => ?_
    obtain hrow | hrow := h.abacusTable row
    · exact .inl (congrArg AbacusEntry.rac hrow)
    · exact .inr (congrArg AbacusEntry.rac hrow)

end Restarts

theorem restarts_refreshTrackers (cfg : Config) (cs : ChannelState) (cmd : Command) :
    Restarts cs (cs.refreshTrackers cfg cmd) := by
  have hdream (cs : ChannelState) (reset : Bool) : Restarts cs (cs.dreamRefresh cfg reset) := by
    unfold dreamRefresh
    split_ifs
    · exact ⟨fun _ => .inr rfl, rfl, fun _ => .inl rfl, rfl⟩
    · refine ⟨fun n => ?_, rfl, fun _ => .inl rfl, rfl⟩
      dsimp only
      split_ifs
      · exact .inr rfl
      · exact .inl rfl
    · exact .refl cs
  have hcactus (cs : ChannelState) (reset : Bool) :
      Restarts cs (cs.cactusRefresh cfg cmd.rank reset) := by
    unfold cactusRefresh
    dsimp only
    split_ifs <;> exact ⟨fun _ => .inl rfl, rfl, fun _ => .inl rfl, rfl⟩
  have habacus (cs : ChannelState) (reset : Bool) : Restarts cs (cs.abacusRefresh cfg reset) := by
    unfold abacusRefresh
    split_ifs
    · exact .refl cs
    · refine ⟨fun _ => .inl rfl, rfl, fun row => ?_, rfl⟩
      dsimp only
      split_ifs
      · exact .inr rfl
      · exact .inl rfl
  exact (hdream cs _).trans ((hcactus _ _).trans (habacus _ _))

theorem restarts_updateREFCounter (h : cs.updateREFCounter cfg cmd = .ok cs') : Restarts cs cs' := by
  unfold updateREFCounter at h
  split_ifs at h <;> cases h <;> exact ⟨fun _ => .inl rfl, rfl, fun _ => .inl rfl, rfl⟩

/-- Of the commands of a rank only DRFMab works off the queues. -/
theorem restarts_rankServed (hrank : cmd.isRankCMD) (hcmd : cmd.cmdType ≠ .drfmAb)
    (h : cs.rankServed cfg cmd = .ok cs') : Restarts cs cs' := by
  have hneed (req : Command) (target : Command → Bool) :
      Restarts cs (cs.needRFM req target false) := .of_cactusOnly (cactusOnly_needRFM _ _ _)
  unfold rankServed at h
  dsimp only at h
  split_ifs at h with _ _ _ hdrfm
  · obtain ⟨cs₁, h₁, h⟩ := bind_ok_iff.mp h
    cases h
    have hclear : CactusOnly cs₁ (cs₁.clearInflight cmd.rank) := rfl
    exact (hneed _ _).trans (.of_cactusOnly ((cactusOnly_cactusMitig h₁).trans hclear))
  · cases h
    exact hneed _ _
  · obtain ⟨cs₁, h₁, h⟩ := bind_ok_iff.mp h
    obtain ⟨cs₂, h₂, h⟩ := bind_ok_iff.mp h
    have hmitig := (cactusOnly_cactusTrefMitig h₁).trans (cactusOnly_cactusTrefMaxMitig h₂)
    have hdrop : Restarts cs (cs.rankNeedRefresh cmd.rank false) :=
      ⟨fun _ => .inl rfl, rfl, fun _ => .inl rfl, rfl⟩
    have htrackers := hdrop.trans (restarts_refreshTrackers cfg _ cmd)
    exact (htrackers.trans (.of_cactusOnly hmitig)).trans (restarts_updateREFCounter h)
  · obtain ⟨ty, _, _⟩ := cmd
    cases ty <;> simp_all [Command.isDRFM, Command.isRankCMD]
  all_goals
    cases h
    exact ⟨fun _ => .inl rfl, rfl, fun _ => .inl rfl, rfl⟩

theorem restarts_banksetServed (h : cs.banksetServed cfg cmd = .ok cs') : Restarts cs cs' := by
  have hneed (req : Command) (target : Command → Bool) :
      Restarts cs (cs.needRFM req target false) := .of_cactusOnly (cactusOnly_needRFM _ _ _)
  unfold banksetServed at h
  split_ifs at h
  · cases h
    exact hneed _ _
  · cases h
    exact hneed _ _
  · have hdrop : Restarts cs (cs.banksetNeedRefresh cmd.rank cmd.bank false) :=
      ⟨fun _ => .inl rfl, rfl, fun _ => .inl rfl, rfl⟩
    exact (hdrop.trans (restarts_refreshTrackers cfg _ cmd)).trans (restarts_updateREFCounter h)
  · cases h
    exact .refl _

theorem restarts_bankServed (cs : ChannelState) (cmd : Command) : Restarts cs (cs.bankServed cmd) := by
  unfold bankServed
  split_ifs
  · exact ⟨fun _ => .inl rfl, rfl, fun _ => .inl rfl, rfl⟩
  · exact .of_cactusOnly (cactusOnly_needRFM _ _ _)
  · exact .refl _

theorem restarts_updateTimingAndStates {origin : Origin} (hcmd : cmd.cmdType ≠ .drfmAb)
    (h : cs.updateTimingAndStates cfg cmd clk origin = .ok cs') : Restarts cs cs' := by
  obtain ⟨cs₁, h₁, h⟩ := bind_ok_iff.mp h
  obtain ⟨cs₂, h₂, h⟩ := bind_ok_iff.mp h
  cases h
  have hstate : Restarts cs cs₁ := by
    obtain ⟨bs, _, ⟨hrank, h⟩ | ⟨_, _, h⟩ | ⟨_, _, rfl⟩⟩ := updateState_eq h₁
    · have hserved := restarts_rankServed hrank hcmd h
      exact ⟨hserved.tusc, hserved.tuscQ, hserved.abacusTable, hserved.abacusQ⟩
    · have hserved := restarts_banksetServed h
      exact ⟨hserved.tusc, hserved.tuscQ, hserved.abacusTable, hserved.abacusQ⟩
    · have hserved := restarts_bankServed
        { cs.record (.issue cmd clk origin cs.bankStates) with bankStates := bs } cmd
      exact ⟨hserved.tusc, hserved.tuscQ, hserved.abacusTable, hserved.abacusQ⟩
  have hcount : Restarts cs₁ cs₂ := by
    obtain ⟨_, _, _, _, _, _, rfl, _⟩ := countAndAlert_eq h₂
    exact ⟨fun _ => .inl rfl, rfl, fun _ => .inl rfl, rfl⟩
  have htiming : Restarts cs₂ (cs₂.applyTiming (timingUpdates cfg cmd) clk) := by
    obtain ⟨⟨bs, hbs⟩, _⟩ := applyTiming_eq cs₂ clk (timingUpdates cfg cmd)
    rw [hbs]
    exact ⟨fun _ => .inl rfl, rfl, fun _ => .inl rfl, rfl⟩
  exact hstate.trans (hcount.trans htiming)

/-- The history shows the crossings of both tables. -/
theorem Hooked.any_log {full : Bool} (h : Hooked cfg cs cmd clk full cs') {p : Event → Bool}
    (hhook : ∀ i row t f a b, p (.hook i row t f a b) = false) (halert : ∀ k n, p (.alert k n) = false) :
    cs'.log.any p = (h.abacus.es.any p || (h.dream.es.any p || cs.log.any p)) := by
  obtain ⟨alert, inflight, alerts, hraise, hlog⟩ := h.log
  have hnone : alerts.any p = false := by
    refine List.any_eq_false.mpr fun e he => ?_
    obtain ⟨n, rfl⟩ := hraise.events e he
    simp [halert]
  rw [hlog, List.any_cons, hhook, List.any_append, List.any_append, List.any_append, hnone,
    Bool.false_or, Bool.false_or]

/-- The hooks count once in the table of DREAM. -/
theorem Hooked.dreamMove {full : Bool} (h : Hooked cfg cs cmd clk full cs')
    (hmode : cfg.dreamMode = 1) (hprev : cfg.dreamPrevEnable = false) (hk : 0 < cfg.dreamK) :
    SharedTable.Move (u32 cfg.dreamTh) cs.dreamTable cs'.dreamTable := by
  have hquiet : h.abacus.es.any Event.isDreamCross = false := by
    obtain ⟨_, ha⟩ | ⟨_, _, ha⟩ := h.habacus <;> rw [ha] <;> rfl
  have htable : cs'.dreamTable = ⟨Function.update cs.tusc h.idx (u32 (cs.tusc h.idx + 1)),
      cs.tuscQ ++ h.dream.added,
      h.dream.es.any Event.isDreamCross || cs.log.any Event.isDreamCross⟩ := by
    rw [dreamTable, h.tusc, h.tuscQ, h.any_log (fun _ _ _ _ _ _ => rfl) fun _ _ => rfl, hquiet,
      Bool.false_or]
  rw [htable]
  obtain ⟨hlow, hd⟩ | ⟨_, _, rows, _, hd⟩ := h.hdream
  · have hlow := hlow.resolve_left (by rw [hmode]; decide)
    simp only [tuscVal, tuscThreshold, hprev, Bool.false_eq_true, if_false,
      Function.update_self] at hlow
    rw [hd, List.append_nil]
    exact .count hlow
  · rw [hd]
    exact .cross (by simpa using hk.ne')

/-- The hooks count at most once in the table of ABACUS. -/
theorem Hooked.abacusMove {full : Bool} (h : Hooked cfg cs cmd clk full cs') :
    SharedTable.Move (u32 cfg.abacusTh) cs.abacusRounds cs'.abacusRounds := by
  have hquiet : h.dream.es.any Event.isAbacusCross = false := by
    obtain ⟨_, hd⟩ | ⟨_, _, _, _, hd⟩ := h.hdream <;> rw [hd] <;> rfl
  have htable : cs'.abacusRounds = ⟨fun row => (cs'.abacusTable row).rac,
      cs.abacusQ ++ h.abacus.added,
      h.abacus.es.any Event.isAbacusCross || cs.log.any Event.isAbacusCross⟩ := by
    rw [abacusRounds, h.abacusQ, h.any_log (fun _ _ _ _ _ _ => rfl) fun _ _ => rfl, hquiet,
      Bool.false_or]
  rw [htable]
  obtain ⟨hlow, ha⟩ | ⟨_, _, ha⟩ := h.habacus
  · rw [ha, List.append_nil, h.abacusTable]
    by_cases hmode : cfg.abacusMode = 0
    · rw [if_pos hmode]
      exact .refl _
    · have hcount : (fun row => ((cs.abacusCount cfg cmd.bankId (u32 cmd.row)).abacusTable row).rac) =
          Function.update (fun row => (cs.abacusTable row).rac) (u32 cmd.row)
            ((cs.abacusCount cfg cmd.bankId (u32 cmd.row)).abacusTable (u32 cmd.row)).rac := by
        funext row
        by_cases hrow : row = u32 cmd.row
        · rw [hrow, Function.update_self]
        · rw [Function.update_of_ne hrow, abacusCount_of_ne hrow]
      rw [if_neg hmode, hcount]
      exact .count (hlow.resolve_left hmode)
  · rw [ha]
    exact .cross (by simp)

theorem Hooked.tableMoves {full : Bool} (h : Hooked cfg cs cmd clk full cs') :
    TableMoves cfg cs cs' :=
  ⟨fun ⟨hmode, hprev, hk⟩ => h.dreamMove hmode hprev hk, h.abacusMove⟩

theorem Answer.tableMoves {r? : Option Command} (h : Answer cfg cs cmd clk r? cs') :
    TableMoves cfg cs cs' := by
  have hneed (req : Command) (target : Command → Bool) :
      TableMoves cfg cs (cs.needRFM req target true) := by
    unfold needRFM
    split_ifs <;> exact .of_eq rfl rfl
  have hhooked {cs₁ cs₂ : ChannelState} {full : Bool} (hcheck : cs.hydraCheck cfg cmd = (true, cs₁))
      (hhook : cs₁.preactHooks cfg cmd clk = .ok (full, cs₂)) : TableMoves cfg cs cs₂ := by
    obtain ⟨_, _, _, rfl⟩ := hydraCheck_eq hcheck
    obtain ⟨hh⟩ := preactHooks_hooked hhook
    exact hh.tableMoves
  cases h with
  | wait | divert | allReady | single => exact .of_eq rfl rfl
  | needRFMsb | needRFMab => exact hneed _ _
  | eager _ _ h =>
    obtain ⟨_, rfl⟩ := launchDRFM_exact h
    exact .of_eq rfl rfl
  | hydraWait h =>
    obtain ⟨_, _, _, rfl⟩ := hydraCheck_eq h
    exact .of_eq rfl rfl
  | lazy _ hcheck hhook h =>
    obtain ⟨_, rfl⟩ := launchDRFM_exact h
    have hmoves := hhooked hcheck hhook
    exact hmoves
  | activate _ hcheck hhook => exact hhooked hcheck hhook

end ChannelState

namespace Chan
open ChannelState
variable {cfg : Config} {π : Micro.Policy} {v v' : Chan}

/-- No request is for a DRFM of a whole rank. -/
structure Narrow (cfg : Config) (v : Chan) : Prop where
  hand : HandReady cfg v
  requests : ∀ r ∈ v.cs.rfmQ, r.cmdType ≠ .drfmAb

theorem Narrow.step (hmode : cfg.drfmMode = 1 ∨ cfg.drfmMode = 2) (hv : Narrow cfg v)
    (h : Step cfg π v v') : Narrow cfg v' := by
  refine ⟨hv.hand.step h, ?_⟩
  refine invariant_of_steps (P := fun s => ∀ r ∈ s.1.rfmQ, r.cmdType ≠ .drfmAb) (fun s s' hs hm => ?_)
    (h.hand hv.hand) hv.requests
  have hask {d : Desk} {req r : Command} (hd : ∀ r ∈ d.rfmQ, r.cmdType ≠ .drfmAb)
      (hreq : req.cmdType ≠ .drfmAb) (hr : r ∈ (d.ask req).rfmQ) : r.cmdType ≠ .drfmAb := by
    unfold Desk.ask at hr
    split_ifs at hr
    · exact hd r hr
    · obtain hr | hr := List.mem_append.mp hr
      · exact hd r hr
      · rw [List.mem_singleton.mp hr]
        exact hreq
  have hdrop {d : Desk} {req r : Command} (hd : ∀ r ∈ d.rfmQ, r.cmdType ≠ .drfmAb)
      (hr : r ∈ (d.drop req).rfmQ) : r.cmdType ≠ .drfmAb := hd r (List.mem_of_mem_eraseP hr)
  intro r hr
  cases hm with
  | raise | activate => exact hs r hr
  | promote => exact hask hs (by simp [request]) hr
  | ask _ hreq =>
    refine hask hs (fun hty => ?_) hr
    simp [Command.isRFM, hty] at hreq
  | launch =>
    refine hask hs ?_ hr
    unfold drfmRequest
    obtain hmode | hmode := hmode <;> simp [hmode, request]
  | serve =>
    rw [Desk.serve_rfmQ] at hr
    exact hdrop hs hr
  | absorb => exact hdrop hs hr

/-- With narrow DRFMs every step uses the tables as ones that nobody works off. -/
theorem Step.tableMoves (hv : Narrow cfg v) (h : Step cfg π v v') : TableMoves cfg v.cs v'.cs := by
  cases h with
  | environment | drop | tock | requestRefresh => exact .of_eq rfl rfl
  | tick =>
    refine .of_eq ?_ ?_
    · exact clockTick_keeps dreamTable (fun _ _ => by unfold rankNeedRFM needRFM; split_ifs <;> rfl)
        (fun _ _ => rfl) (fun _ => rfl) fun _ _ _ => rfl
    · exact clockTick_keeps abacusRounds (fun _ _ => by unfold rankNeedRFM needRFM; split_ifs <;> rfl)
        (fun _ _ => rfl) (fun _ => rfl) fun _ _ _ => rfl
  | query _ h => exact h.tableMoves
  | pick _ _ _ h => exact h.tableMoves
  | hydraQuery h =>
    obtain ⟨⟨_, _, _, rfl⟩, _⟩ := getReadyHydraCommand_eq h
    exact .of_eq rfl rfl
  | pickHydra _ h =>
    obtain ⟨⟨_, _, _, rfl⟩, _⟩ := getReadyHydraCommand_eq h
    exact .of_eq rfl rfl
  | @issue cs clk p _ cs' h =>
    have hcmd : p.cmd.cmdType ≠ .drfmAb := by
      intro hty
      obtain hfront | ⟨hrfm, _⟩ := hv.hand.front p rfl (.inr (by simp [Command.isDRFM, hty]))
      · exact hv.requests p.cmd (List.mem_of_mem_head? hfront) hty
      · simp [Command.isRFM, hty] at hrfm
    obtain ⟨extra, hlog, hextra⟩ := (updateTimingAndStates_issued h).log
    have hinternal {e : Event} (he : e.internal) : e.isDreamCross = false ∧ e.isAbacusCross = false := by
      cases e <;> first | exact ⟨rfl, rfl⟩ | cases he
    rw [← List.singleton_append, ← List.append_assoc] at hlog
    refine (restarts_updateTimingAndStates hcmd h).tableMoves hlog fun e he => ?_
    obtain he | he := List.mem_append.mp he
    · exact hinternal (hextra e he)
    · rw [List.mem_singleton.mp he]
      exact ⟨rfl, rfl⟩

theorem unserved_boot (boot : Boot cfg) :
    SharedTable.Unserved (u32 cfg.dreamTh) boot.channelState.dreamTable ∧
      SharedTable.Unserved (u32 cfg.abacusTh) boot.channelState.abacusRounds := by
  refine ⟨⟨?_, fun _ _ => .inl rfl⟩, ⟨?_, fun _ _ => .inl rfl⟩⟩
  · simp [dreamTable, Boot.channelState]
  · simp [abacusRounds, Boot.channelState]

end Chan

/-- Both tables of a reached channel are as if nobody had worked off their queues. -/
theorem Micro.Reached.unserved {cfg : Config} {π : Micro.Policy} {m : Micro}
    (hmode : cfg.drfmMode = 1 ∨ cfg.drfmMode = 2) (h : Micro.Reached cfg π m) :
    (cfg.dreamMode = 1 ∧ cfg.dreamPrevEnable = false ∧ 0 < cfg.dreamK →
      SharedTable.Unserved (u32 cfg.dreamTh) m.ctl.channelState.dreamTable) ∧
    SharedTable.Unserved (u32 cfg.abacusTh) m.ctl.channelState.abacusRounds := by
  have hinv := h.chan_induct
    (P := fun v => Chan.Narrow cfg v ∧
      (cfg.dreamMode = 1 ∧ cfg.dreamPrevEnable = false ∧ 0 < cfg.dreamK →
        SharedTable.Unserved (u32 cfg.dreamTh) v.cs.dreamTable) ∧
      SharedTable.Unserved (u32 cfg.abacusTh) v.cs.abacusRounds)
    (fun boot => ⟨⟨Chan.handReady_boot boot, fun _ hr => (nomatch hr)⟩,
      fun _ => (Chan.unserved_boot boot).1, (Chan.unserved_boot boot).2⟩)
    fun v v' hv hs => ?_
  · exact hinv.2
  · obtain ⟨hnarrow, hdream, habacus⟩ := hv
    have hmoves := hs.tableMoves hnarrow
    exact ⟨hnarrow.step hmode hs, fun hd => (hdream hd).move (hmoves.1 hd), habacus.move hmoves.2⟩

/-- All that crossings have queued in the banks has been served. -/
def ChannelState.SamplersEmpty (cfg : Config) (cs : ChannelState) : Prop :=
  ∀ i ∈ cfg.allBanks, (cs.bankStates i).drfmQ = []

/-- A DRFM of a bank or bankset serves the samplers and leaves the queue of the channel alone. So once
the samplers are empty the counters of DREAM are below their threshold, with nothing left in the queue,
exactly if no activation has brought one to it; and so for ABACUS. -/
theorem shared_counters_reset_iff (cfg : Config) (hmode : cfg.drfmMode = 1 ∨ cfg.drfmMode = 2)
    (c : Controller) (h : Reachable cfg c) :
    (cfg.dreamMode = 1 → cfg.dreamPrevEnable = false → 0 < cfg.dreamK →
      ((c.channelState.SamplersEmpty cfg → c.channelState.tuscQ = [] ∧
          ∀ n < ChannelState.tuscSize cfg, c.channelState.tusc n < u32 cfg.dreamTh) ↔
        (c.channelState.SamplersEmpty cfg → c.channelState.log.any Event.isDreamCross = false ∧
          (0 < ChannelState.tuscSize cfg → 0 < u32 cfg.dreamTh)))) ∧
    (cfg.abacusMode = 1 →
      ((c.channelState.SamplersEmpty cfg → c.channelState.abacusQ = [] ∧
          ∀ row < cfg.rows, (c.channelState.abacusTable row).rac < u32 cfg.abacusTh) ↔
        (c.channelState.SamplersEmpty cfg → c.channelState.log.any Event.isAbacusCross = false ∧
          0 < u32 cfg.abacusTh))) := by
  obtain ⟨hdream, habacus⟩ := (Micro.reached_of_reachable h).unserved hmode
  constructor
  · intro hd hprev hk
    exact imp_congr_right fun _ => (hdream ⟨hd, hprev, hk⟩).served_iff _
  · intro _
    refine imp_congr_right fun _ => (habacus.served_iff cfg.rows).trans ?_
    rw [forall_prop_of_true cfg.rows_pos]
    exact Iff.rfl

/-- DREAM and ABACUS with the lowest thresholds that a second activation reaches, and DRFMs of banks. -/
def narrowDrfm : Config :=
  { smallConfig with
    dreamMode := 1, dreamTh := 2, dreamK := 1, abacusMode := 1, abacusTh := 1, drfmMode := 1,
    drfmQsize := 1 }

theorem shared_counters_reset_iff_small : ∃ c,
    Controller.run narrowDrfm ({} : Boot narrowDrfm).controller (Input.request 0 false 6) = .ok c ∧
    c.channelState.tusc 0 = 1 ∧ c.channelState.tuscQ = [] ∧
    ∀ n < ChannelState.tuscSize narrowDrfm, c.channelState.tusc n < 2 := by
  obtain ⟨c, hrun, hc⟩ := exists_ok_of_any
    (x := Controller.run narrowDrfm ({} : Boot narrowDrfm).controller (Input.request 0 false 6))
    (p := fun c => c.channelState.tusc 0 = 1 ∧
      (∀ i ∈ narrowDrfm.allBanks, (c.channelState.bankStates i).drfmQ = []) ∧
      c.channelState.log.any Event.isDreamCross = false) (by decide +kernel)
  obtain ⟨hone, hempty, hnone⟩ := of_decide_eq_true hc
  have hiff := (shared_counters_reset_iff narrowDrfm (.inl rfl) c ⟨{}, _, hrun⟩).1 rfl rfl (by decide)
  exact ⟨c, hrun, hone, hiff.mpr (fun _ => ⟨hnone, fun _ => by decide⟩) hempty⟩

/-- Row 0 is activated twice, then each bank serves its sampler for another row. -/
theorem shared_counters_stay : ∃ c,
    Controller.run narrowDrfm ({} : Boot narrowDrfm).controller
      (Input.request 0 false 6 ++ Input.request 2 false 6 ++ Input.request 0 false 6 ++
        Input.request 4 false 12 ++ Input.request 7 false 12) = .ok c ∧
    c.channelState.SamplersEmpty narrowDrfm ∧
    c.channelState.tuscQ = [0] ∧ ¬c.channelState.tusc 0 < u32 narrowDrfm.dreamTh ∧
    c.channelState.abacusQ = [0] ∧
    ¬(c.channelState.abacusTable 0).rac < u32 narrowDrfm.abacusTh := by
  obtain ⟨c, hrun, hc⟩ := exists_ok_of_any
    (x := Controller.run narrowDrfm ({} : Boot narrowDrfm).controller
      (Input.request 0 false 6 ++ Input.request 2 false 6 ++ Input.request 0 false 6 ++
        Input.request 4 false 12 ++ Input.request 7 false 12))
    (p := fun c => (∀ i ∈ narrowDrfm.allBanks, (c.channelState.bankStates i).drfmQ = []) ∧
      c.channelState.tuscQ = [0] ∧ ¬c.channelState.tusc 0 < u32 narrowDrfm.dreamTh ∧
      c.channelState.abacusQ = [0] ∧
      ¬(c.channelState.abacusTable 0).rac < u32 narrowDrfm.abacusTh) (by decide +kernel)
  have hstate := of_decide_eq_true hc
  exact ⟨c, hrun, hstate⟩

end CactusDram

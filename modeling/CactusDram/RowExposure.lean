import CactusDram.DreamMapping
import CactusDram.RefreshCoverage
import CactusDram.SharedMitigation

/-! What DREAM guarantees for every row: how often it is activated between its mitigations and the resets of
its counter. -/
namespace CactusDram
open Foundations ChannelState

/-- DREAM samples rows for DRFMs of the whole rank, in groups of a power of two, and compares its counters
alone. -/
structure Config.Dreams (cfg : Config) : Prop extends cfg.Shares where
  dream : cfg.dreamMode = 1
  prev : cfg.dreamPrevEnable = false
  th : 0 < u32 cfg.dreamTh
  rows : ∃ a, cfg.rows = 2 ^ a
  group : ∃ b, cfg.dreamK = 2 ^ b
  group_le : cfg.dreamK ≤ cfg.rows
  grouping : cfg.dreamPolicy = 0 ∨ cfg.dreamPolicy = 1 ∨ cfg.dreamPolicy = 2

namespace Event

/-- The trackers have seen the row. -/
def sees (i : BankId) (row : ℕ) (e : Event) : Bool := e.seenRow i = some row

/-- The row has been mitigated, or a refresh has reset its counter. -/
def spares (cfg : Config) (cs : ChannelState) (i : BankId) (row : ℕ) (e : Event) : Bool :=
  e.mitigatedRow cfg i = some row || (cs.getTuscIdx cfg i row).toOption.any fun idx => e.resetsTusc idx

end Event

/-- How often the trackers have seen a row since it was last spared. -/
def exposure (cfg : Config) (cs : ChannelState) (i : BankId) (row : ℕ) (log : List Event) : ℕ :=
  current (Event.sees i row) (Event.spares cfg cs i row) log

namespace ChannelState
variable {cfg : Config} {cs cs₁ cs' : ChannelState} {cmd : Command} {clk : ℕ}

/-- The counters of DREAM stay, and so does the history so far. -/
structure TuscKept (cs cs' : ChannelState) : Prop where
  tusc : cs'.tusc = cs.tusc
  tuscQ : cs'.tuscQ = cs.tuscQ
  log : ∃ es, cs'.log = es ++ cs.log

/-- A refresh resets counters and records it, and a DRFM takes the counter in front of the queue. -/
structure Worked (cmd : Command) (cs cs' : ChannelState) : Prop where
  tuscQ : cs'.tuscQ = if cmd.isDRFM then cs.tuscQ.tail else cs.tuscQ
  front : cmd.isDRFM → ∀ t ∈ cs.tuscQ.head?, cs'.tusc t = 0
  log : ∃ es, cs'.log = es ++ cs.log ∧ ∀ n, cs'.tusc n = cs.tusc n ∨ cs'.tusc n = 0 ∧
    ((∃ e ∈ es, e.resetsTusc n) ∨ cmd.isDRFM ∧ n ∈ cs.tuscQ.head?)

namespace TuscKept

theorem of_settles (hs : Settles cfg cs cs') (htusc : cs'.tusc = cs.tusc) (hq : cs'.tuscQ = cs.tuscQ) :
    TuscKept cs cs' := by
  obtain ⟨es, hlog, _⟩ := hs.log
  exact ⟨htusc, hq, es, hlog⟩

theorem of_cactusOnly (hs : Settles cfg cs cs') (h : CactusOnly cs cs') : TuscKept cs cs' := by
  unfold CactusOnly at h
  exact of_settles hs (by rw [h]; rfl) (by rw [h]; rfl)

theorem trans (h : TuscKept cs cs₁) (h' : TuscKept cs₁ cs') : TuscKept cs cs' := by
  obtain ⟨es, hlog⟩ := h.log
  obtain ⟨es', hlog'⟩ := h'.log
  exact ⟨h'.tusc.trans h.tusc, h'.tuscQ.trans h.tuscQ, es' ++ es, by rw [hlog', hlog, List.append_assoc]⟩

end TuscKept

namespace Worked

theorem of_kept (hcmd : cmd.isDRFM = false) (h : TuscKept cs cs') : Worked cmd cs cs' := by
  obtain ⟨es, hlog⟩ := h.log
  refine ⟨?_, fun hdrfm => ?_, es, hlog, fun n => .inl (congrFun h.tusc n)⟩
  · rw [h.tuscQ, hcmd, if_neg Bool.false_ne_true]
  · rw [hcmd] at hdrfm
    cases hdrfm

theorem after (h : TuscKept cs cs₁) (h' : Worked cmd cs₁ cs') : Worked cmd cs cs' := by
  obtain ⟨es, hlog⟩ := h.log
  obtain ⟨es', hlog', htusc⟩ := h'.log
  refine ⟨by rw [h'.tuscQ, h.tuscQ], fun hdrfm t ht => h'.front hdrfm t (by rwa [h.tuscQ]),
    es' ++ es, by rw [hlog', hlog, List.append_assoc], fun n => ?_⟩
  rw [← h.tusc, ← h.tuscQ]
  obtain hsame | ⟨hzero, ⟨e, he, hreset⟩ | hfront⟩ := htusc n
  · exact .inl hsame
  · exact .inr ⟨hzero, .inl ⟨e, List.mem_append_left es he, hreset⟩⟩
  · exact .inr ⟨hzero, .inr hfront⟩

theorem before (h : Worked cmd cs cs₁) (h' : TuscKept cs₁ cs') : Worked cmd cs cs' := by
  obtain ⟨es, hlog, htusc⟩ := h.log
  obtain ⟨es', hlog'⟩ := h'.log
  refine ⟨h'.tuscQ.trans h.tuscQ, fun hdrfm t ht => ?_, es' ++ es, by rw [hlog', hlog, List.append_assoc],
    fun n => ?_⟩
  · rw [h'.tusc]
    exact h.front hdrfm t ht
  · rw [h'.tusc]
    obtain hsame | ⟨hzero, ⟨e, he, hreset⟩ | hfront⟩ := htusc n
    · exact .inl hsame
    · exact .inr ⟨hzero, .inl ⟨e, List.mem_append_right es' he, hreset⟩⟩
    · exact .inr ⟨hzero, .inr hfront⟩

end Worked

theorem worked_dreamRefresh (hmode : cfg.dreamMode = 1) (hcmd : cmd.isDRFM = false) (reset : Bool) :
    Worked cmd cs (cs.dreamRefresh cfg reset) := by
  unfold dreamRefresh
  rw [if_neg (by simp [hmode])]
  split_ifs
  · refine ⟨by simp [hcmd], by simp [hcmd], [_], rfl, fun n => ?_⟩
    dsimp only
    split_ifs with hchunk
    · exact .inr ⟨rfl, .inl ⟨_, List.mem_singleton_self _, by simpa [Event.resetsTusc] using hchunk⟩⟩
    · exact .inl rfl
  · exact .of_kept hcmd ⟨rfl, rfl, [], rfl⟩

theorem worked_refreshTrackers (hmode : cfg.dreamMode = 1) (hcmd : cmd.isDRFM = false) :
    Worked cmd cs (cs.refreshTrackers cfg cmd) := by
  have hcactus (cs : ChannelState) (reset : Bool) : TuscKept cs (cs.cactusRefresh cfg cmd.rank reset) := by
    refine .of_settles (settles_cactusRefresh _ _) ?_ ?_ <;> unfold cactusRefresh <;> dsimp only <;>
      split_ifs <;> rfl
  have habacus (cs : ChannelState) (reset : Bool) : TuscKept cs (cs.abacusRefresh cfg reset) := by
    refine .of_settles (settles_abacusRefresh _) ?_ ?_ <;> unfold abacusRefresh <;> split_ifs <;> rfl
  exact (worked_dreamRefresh hmode hcmd _).before ((hcactus _ _).trans (habacus _ _))

theorem kept_needRFM (req : Command) (target : Command → Bool) :
    TuscKept cs (cs.needRFM req target false) := ⟨rfl, rfl, [], rfl⟩

theorem kept_updateREFCounter (h : cs.updateREFCounter cfg cmd = .ok cs') : TuscKept cs cs' := by
  refine .of_settles (settles_updateREFCounter h) ?_ ?_ <;> unfold updateREFCounter at h <;>
    split_ifs at h <;> cases h <;> rfl

theorem kept_abacusMitig : TuscKept cs (cs.abacusMitig cfg) := by
  refine .of_settles settles_abacusMitig ?_ ?_ <;> unfold abacusMitig <;> split_ifs <;>
    first | rfl | (split <;> rfl)

theorem worked_dreamMitig (hmode : cfg.dreamMode = 1) (hcmd : cmd.isDRFM) :
    Worked cmd cs (cs.dreamMitig cfg) := by
  cases hq : cs.tuscQ with
  | nil =>
    rw [dreamMitig_of_nil hq]
    exact ⟨by simp [hq], by simp [hq], [], rfl, fun _ => .inl rfl⟩
  | cons t rest =>
    have hmitig : cs.dreamMitig cfg = { cs with
        tuscPrev := Function.update cs.tuscPrev t (cs.tusc t)
        tusc := Function.update cs.tusc t 0
        tuscQ := rest
        log := .dreamMitig t :: cs.log } := by
      unfold dreamMitig
      rw [if_neg (by simp [hmode]), hq]
    rw [hmitig]
    refine ⟨by simp [hcmd, hq], fun _ n hn => ?_, [_], rfl, fun n => ?_⟩
    · obtain rfl : t = n := by simpa [hq] using hn
      simp
    · by_cases hn : n = t
      · subst hn
        exact .inr ⟨by simp, .inr ⟨hcmd, by simp [hq]⟩⟩
      · exact .inl (Function.update_of_ne hn _ _)

/-- The rank commands: RFMs, REFab, DRFMab and self-refresh. -/
theorem worked_rankServed (hmode : cfg.dreamMode = 1) (h : cs.rankServed cfg cmd = .ok cs') :
    Worked cmd cs cs' := by
  unfold rankServed at h
  dsimp only at h
  split_ifs at h with hrfm _ href hdrfm
  · have hcmd : cmd.isDRFM = false := by
      cases hty : cmd.cmdType <;> simp [Command.isRFM, Command.isDRFM, hty] at hrfm ⊢
    obtain ⟨cs₁, h₁, h⟩ := bind_ok_iff.mp h
    cases h
    have hclear : TuscKept cs₁ (cs₁.clearInflight cmd.rank) := ⟨rfl, rfl, [_], rfl⟩
    exact .of_kept hcmd (((kept_needRFM _ _).trans
      (.of_cactusOnly (settles_cactusMitig h₁) (cactusOnly_cactusMitig h₁))).trans hclear)
  · have hcmd : cmd.isDRFM = false := by
      cases hty : cmd.cmdType <;> simp [Command.isRFM, Command.isDRFM, hty] at hrfm ⊢
    cases h
    exact .of_kept hcmd (kept_needRFM _ _)
  · have hcmd : cmd.isDRFM = false := by
      cases hty : cmd.cmdType <;> simp [Command.isRefresh, Command.isDRFM, hty] at href ⊢
    obtain ⟨cs₁, h₁, h⟩ := bind_ok_iff.mp h
    obtain ⟨cs₂, h₂, h⟩ := bind_ok_iff.mp h
    have hdrop : TuscKept cs (cs.rankNeedRefresh cmd.rank false) := ⟨rfl, rfl, [], rfl⟩
    refine .before (.after hdrop (worked_refreshTrackers hmode hcmd)) (.trans ?_ (kept_updateREFCounter h))
    exact .of_cactusOnly ((settles_cactusTrefMitig h₁).trans (settles_cactusTrefMaxMitig h₂))
      ((cactusOnly_cactusTrefMitig h₁).trans (cactusOnly_cactusTrefMaxMitig h₂))
  · cases h
    exact .after (kept_needRFM _ _) (.before (worked_dreamMitig hmode hdrfm) kept_abacusMitig)
  all_goals
    cases h
    exact .of_kept (by simpa using hdrfm) ⟨rfl, rfl, [], rfl⟩

theorem worked_banksetServed (hmode : cfg.dreamMode = 1) (hcmd : cmd.isDRFM = false)
    (h : cs.banksetServed cfg cmd = .ok cs') : Worked cmd cs cs' := by
  unfold banksetServed at h
  rw [if_neg (by simp [hcmd] : ¬cmd.isDRFM)] at h
  split_ifs at h
  · cases h
    exact .of_kept hcmd (kept_needRFM _ _)
  · have hdrop : TuscKept cs (cs.banksetNeedRefresh cmd.rank cmd.bank false) := ⟨rfl, rfl, [], rfl⟩
    exact .before (.after hdrop (worked_refreshTrackers hmode hcmd)) (kept_updateREFCounter h)
  · cases h
    exact .of_kept hcmd ⟨rfl, rfl, [], rfl⟩

theorem worked_bankServed (hcmd : cmd.isDRFM = false) : Worked cmd cs (cs.bankServed cmd) := by
  unfold bankServed
  rw [if_neg (by simp [hcmd] : ¬cmd.isDRFM)]
  split_ifs <;> exact .of_kept hcmd ⟨rfl, rfl, [], rfl⟩

/-- A whole command, when DRFMs are for ranks. -/
theorem worked_updateTimingAndStates (hmode : cfg.dreamMode = 1) {origin : Origin}
    (hwide : cmd.isDRFM → cmd.isRankCMD) (h : cs.updateTimingAndStates cfg cmd clk origin = .ok cs') :
    Worked cmd cs cs' := by
  obtain ⟨cs₁, h₁, h⟩ := bind_ok_iff.mp h
  have hnarrow (hrank : cmd.isRankCMD = false) : cmd.isDRFM = false := by
    by_contra hdrfm
    rw [hwide (by simpa using hdrfm)] at hrank
    cases hrank
  have hrecord (bs : BankId → BankState) :
      TuscKept cs { cs.record (.issue cmd clk origin cs.bankStates) with bankStates := bs } :=
    ⟨rfl, rfl, [_], rfl⟩
  have htiming : TuscKept cs₁ cs' := by
    obtain ⟨cs₂, h₂, h₃⟩ := bind_ok_iff.mp h
    cases h₃
    obtain ⟨⟨bs, hbs⟩, _⟩ := applyTiming_eq cs₂ clk (timingUpdates cfg cmd)
    obtain ⟨_, _, _, _, _, es, rfl, _⟩ := countAndAlert_eq h₂
    rw [hbs]
    exact ⟨rfl, rfl, es, rfl⟩
  obtain ⟨bs, _, ⟨_, h⟩ | ⟨hrank, _, h⟩ | ⟨hrank, _, rfl⟩⟩ := updateState_eq h₁
  · exact .before (.after (hrecord bs) (worked_rankServed hmode h)) htiming
  · exact .before (.after (hrecord bs) (worked_banksetServed hmode (hnarrow hrank) h)) htiming
  · exact .before (.after (hrecord bs) (worked_bankServed (hnarrow hrank))) htiming

end ChannelState

/-- What the counter of a row says about it. -/
structure Watched (cfg : Config) (cs : ChannelState) (i : BankId) (row idx : ℕ) : Prop where
  le : exposure cfg cs i row cs.log ≤ u32 cfg.dreamTh
  counted : exposure cfg cs i row cs.log ≤ cs.tusc idx ∨ row ∈ (cs.bankStates i).sampledRows
  queued : idx ∈ cs.tuscQ → exposure cfg cs i row cs.log = 0 ∨ row ∈ (cs.bankStates i).sampledRows

/-- The samplers and the queue of the channel are served together; a counter at the threshold waits in that
queue. -/
structure Capped (cfg : Config) (cs : ChannelState) : Prop where
  masks : ∀ n, cs.randomMasks n < tuscSize cfg
  level : ∀ i ∈ cfg.allBanks, (cs.bankStates i).sampledRows.length = cs.tuscQ.length
  low : ∀ n, cs.tusc n < u32 cfg.dreamTh ∨ n ∈ cs.tuscQ
  rows : ∀ i ∈ cfg.allBanks, ∀ row < cfg.rows, ∀ idx, cs.getTuscIdx cfg i row = .ok idx →
    Watched cfg cs i row idx

section
variable {cfg : Config} {cs cs' : ChannelState} {cmd : Command} {clk row idx : ℕ} {i : BankId} {e : Event}

theorem u32_succ {n : ℕ} {x : ℤ} (h : n < u32 x) : u32 (n + 1) = n + 1 := by
  unfold u32 at h ⊢
  omega

theorem spares_of_resetsTusc (hidx : cs.getTuscIdx cfg i row = .ok idx) (he : e.resetsTusc idx) :
    e.spares cfg cs i row := by
  simp [Event.spares, hidx, Except.toOption, he]

theorem spares_eq_false (hmitigated : e.mitigatedRow cfg i = none)
    (hreset : ∀ idx, e.resetsTusc idx = false) : e.spares cfg cs i row = false := by
  cases hidx : cs.getTuscIdx cfg i row <;>
    simp [Event.spares, hmitigated, hreset, hidx, Except.toOption]

theorem sees_of_crosses (h : e.crosses) : e.sees i row = false := by
  cases e <;> first | rfl | cases h

theorem spares_of_crosses (h : e.crosses) : e.spares cfg cs i row = false :=
  spares_eq_false (mitigatedRow_of_crosses h) fun _ => by cases e <;> first | rfl | cases h

theorem exposure_congr (h : cs'.fixed = cs.fixed) : exposure cfg cs' = exposure cfg cs := by
  funext i row log
  have hspares : Event.spares cfg cs' i row = Event.spares cfg cs i row := by
    funext e
    rw [Event.spares, Event.spares, getTuscIdx_congr h]
  rw [exposure, exposure, hspares]

/-- A crossing queues in each bank every row that the counter counts. -/
theorem mem_dreamRows (hcfg : cfg.Dreams) (hmasks : ∀ n, cs.randomMasks n < tuscSize cfg)
    {rows : BankId → List ℕ} (hrows : DreamRows cfg cs idx cfg.allBanks rows) (hi : i ∈ cfg.allBanks)
    (hrow : row < cfg.rows) (hidx : cs.getTuscIdx cfg i row = .ok idx) : row ∈ rows i := by
  obtain ⟨a, ha⟩ := hcfg.rows
  obtain ⟨b, hb⟩ := hcfg.group
  obtain ⟨rowOf, group, hgrouping, hget, hgroup⟩ :=
    exists_grouping ha hb hcfg.group_le hcfg.grouping (fun n _ => hmasks n) hi
  obtain rfl : group row = idx := by simpa [hgroup] using hidx
  obtain ⟨_, l, hl, heq⟩ := hgrouping.exists_offset row hrow
  have hforall := hrows.1 i hi
  have hlen := hforall.length_eq
  rw [List.length_range] at hlen
  have hrow' := hforall.get (i := l) (by simpa using hl) (hlen ▸ hl)
  simp only [List.get_eq_getElem, List.getElem_range, hget, heq, Except.ok.injEq] at hrow'
  rw [hrow']
  exact List.getElem_mem _

theorem Capped.congr (h : Capped cfg cs) (hsame : SamplesKept cs cs') : Capped cfg cs' := by
  have hmasks : cs'.randomMasks = cs.randomMasks := congrArg (·.1) hsame.fixed
  refine ⟨?_, fun i hi => ?_, fun n => ?_, fun i hi row hrow idx hidx => ?_⟩
  · rw [hmasks]
    exact h.masks
  · rw [hsame.sampled, hsame.tuscQ]
    exact h.level i hi
  · rw [hsame.tusc, hsame.tuscQ]
    exact h.low n
  · rw [getTuscIdx_congr hsame.fixed] at hidx
    obtain ⟨hle, hcounted, hqueued⟩ := h.rows i hi row hrow idx hidx
    constructor <;> rw [exposure_congr hsame.fixed, hsame.log]
    · exact hle
    · rw [hsame.tusc, hsame.sampled]
      exact hcounted
    · rw [hsame.tuscQ, hsame.sampled]
      exact hqueued

namespace ChannelState.Hooked
variable {full : Bool}

/-- With ABACUS off the hooks queue the rows of a crossing of DREAM. -/
theorem sampled_dream (hcfg : cfg.Dreams) (h : Hooked cfg cs cmd clk full cs') (i : BankId) :
    (cs'.bankStates i).sampledRows = (cs.bankStates i).sampledRows ++ h.dream.rows i := by
  have habacus : h.abacus.rows i = [] := by
    rcases h.habacus with ⟨_, ha⟩ | ⟨habacus, _⟩
    · rw [ha]
    · rcases hcfg.either with ⟨hnot, _⟩ | ⟨_, hnot⟩
      · rw [hcfg.dream] at hnot
        cases hnot
      · exact absurd hnot habacus
  rw [h.sampled hcfg.toShares, habacus, List.append_nil]

/-- A hook exposes the row that it is for. -/
theorem exposure_eq (hcfg : cfg.Dreams) (h : Hooked cfg cs cmd clk full cs') (i : BankId) (row : ℕ) :
    exposure cfg cs i row cs'.log =
      exposure cfg cs i row cs.log + if cmd.bankId = i ∧ u32 cmd.row = row then 1 else 0 := by
  obtain ⟨alert, inflight, hlog⟩ := h.log_eq hcfg.toShares
  obtain ⟨_, hcrosses⟩ := h.own_crossing hcfg.toShares
  have hspares : (h.abacus.es ++ h.dream.es).any (Event.spares cfg cs i row) = false :=
    List.any_eq_false.mpr fun e he => by simp [spares_of_crosses (hcrosses e he)]
  have hhook : (Event.hook cmd.bankId cmd.row clk full alert inflight).spares cfg cs i row = false :=
    spares_eq_false rfl fun _ => rfl
  rw [hlog, exposure, current_cons_of_not_reset hhook,
    current_append fun e he => sees_of_crosses (hcrosses e he), hspares, if_neg Bool.false_ne_true]
  by_cases hsees : cmd.bankId = i ∧ u32 cmd.row = row
  · rw [if_pos hsees, Event.sees, Event.seenRow, if_pos hsees.1, hsees.2]
    simp [exposure]
  · rw [if_neg hsees]
    have hnot : (Event.hook cmd.bankId cmd.row clk full alert inflight).sees i row = false := by
      by_cases hbank : cmd.bankId = i
      · simpa [Event.sees, Event.seenRow, hbank] using fun hrow => hsees ⟨hbank, hrow⟩
      · simp [Event.sees, Event.seenRow, hbank]
    rw [hnot]
    rfl

end ChannelState.Hooked

/-- When a sampler is empty, nothing waits for a mitigation. -/
theorem Capped.idle (h : Capped cfg cs) (hi : i ∈ cfg.allBanks)
    (hempty : (cs.bankStates i).sampledRows = []) : cs.tuscQ = [] ∧
      (∀ j ∈ cfg.allBanks, (cs.bankStates j).sampledRows = []) ∧ ∀ n, cs.tusc n < u32 cfg.dreamTh := by
  have hq : cs.tuscQ = [] := by
    apply List.eq_nil_of_length_eq_zero
    rw [← h.level i hi, hempty]
    rfl
  refine ⟨hq, fun j hj => ?_, fun n => (h.low n).resolve_right (by simp [hq])⟩
  apply List.eq_nil_of_length_eq_zero
  rw [h.level j hj, hq]
  rfl

theorem hooked_tusc {full : Bool} (h : Hooked cfg cs cmd clk full cs')
    (hlow : ∀ n, cs.tusc n < u32 cfg.dreamTh) (n : ℕ) :
    cs'.tusc n = cs.tusc n + if n = h.idx then 1 else 0 := by
  rw [h.tusc]
  by_cases hn : n = h.idx
  · subst hn
    rw [Function.update_self, if_pos rfl, u32_succ (hlow h.idx)]
  · rw [Function.update_of_ne hn, if_neg hn, Nat.add_zero]

/-- The counter of a row counts all that it is exposed to. -/
theorem Capped.hook_le (hcfg : cfg.Dreams) (h : Capped cfg cs) {full : Bool}
    (h₂ : Hooked cfg cs cmd clk full cs') (hlow : ∀ n, cs.tusc n < u32 cfg.dreamTh) (hi : i ∈ cfg.allBanks)
    (hempty : (cs.bankStates i).sampledRows = []) (hrow : row < cfg.rows)
    (hidx : cs.getTuscIdx cfg i row = .ok idx) :
    exposure cfg cs' i row cs'.log ≤ cs'.tusc idx ∧ cs'.tusc idx ≤ u32 cfg.dreamTh := by
  have hold := (h.rows i hi row hrow idx hidx).counted.resolve_right (by simp [hempty])
  have hth := hlow idx
  rw [exposure_congr h₂.fixed, h₂.exposure_eq hcfg, hooked_tusc h₂ hlow]
  by_cases heq : idx = h₂.idx
  · rw [if_pos heq]
    split_ifs <;> omega
  · have hother : ¬(cmd.bankId = i ∧ u32 cmd.row = row) := by
      rintro ⟨rfl, rfl⟩
      exact heq (Except.ok.inj (hidx.symm.trans h₂.hidx))
    rw [if_neg heq, if_neg hother]
    omega

/-- The hooks of an activation, when nothing waits for a mitigation. -/
theorem Capped.hook (hcfg : cfg.Dreams) (h : Capped cfg cs) {full : Bool}
    (h₂ : Hooked cfg cs cmd clk full cs') (hmem : cmd.bankId ∈ cfg.allBanks)
    (hempty : (cs.bankStates cmd.bankId).sampledRows = []) : Capped cfg cs' := by
  obtain ⟨hq, hall, hlow⟩ := h.idle hmem hempty
  have htusc := hooked_tusc h₂ hlow
  have hmasks : cs'.randomMasks = cs.randomMasks := congrArg (·.1) h₂.fixed
  have hwatched (hqueued : ∀ j ∈ cfg.allBanks, ∀ row < cfg.rows, ∀ n, cs.getTuscIdx cfg j row = .ok n →
      n ∈ cs'.tuscQ → row ∈ (cs'.bankStates j).sampledRows) :
      ∀ j ∈ cfg.allBanks, ∀ row < cfg.rows, ∀ n, cs'.getTuscIdx cfg j row = .ok n →
        Watched cfg cs' j row n := by
    intro j hj row hrow n hn
    rw [getTuscIdx_congr h₂.fixed] at hn
    obtain ⟨hle, hth⟩ := h.hook_le hcfg h₂ hlow hj (hall j hj) hrow hn
    exact ⟨hle.trans hth, .inl hle, fun hmem => .inr (hqueued j hj row hrow n hn hmem)⟩
  rcases h₂.hdream with ⟨hno, hd⟩ | ⟨_, _, rows, hrows, hd⟩
  -- the counter stays below the threshold
  · have hadded : cs'.tuscQ = [] := by rw [h₂.tuscQ, hd, hq]; rfl
    have hno := hno.resolve_left (by rw [hcfg.dream]; decide)
    simp only [tuscVal, tuscThreshold, hcfg.prev, Bool.false_eq_true, if_false,
      Function.update_self] at hno
    refine ⟨by rw [hmasks]; exact h.masks, fun j hj => ?_, fun n => .inl ?_,
      hwatched fun j _ row _ n _ hn => ?_⟩
    · rw [h₂.sampled_dream hcfg, hall j hj, hd, hadded]
      rfl
    · by_cases hn : n = h₂.idx
      · rw [h₂.tusc, hn, Function.update_self]
        exact hno
      · rw [htusc, if_neg hn]
        exact hlow n
    · rw [hadded] at hn
      cases hn
  -- the counter crosses, and its rows are queued in every bank
  · have hadded : cs'.tuscQ = List.replicate cfg.dreamK h₂.idx := by rw [h₂.tuscQ, hd, hq]; rfl
    have hsampled (j : BankId) (hj : j ∈ cfg.allBanks) : (cs'.bankStates j).sampledRows = rows j := by
      rw [h₂.sampled_dream hcfg, hall j hj, hd]
      simp [effective, hcfg.mode]
    refine ⟨by rw [hmasks]; exact h.masks, fun j hj => ?_, fun n => ?_,
      hwatched fun j hj row hrow n hn hmem => ?_⟩
    · rw [hsampled j hj, hadded, List.length_replicate, ← (hrows.1 j hj).length_eq, List.length_range]
    · by_cases hn : n = h₂.idx
      · subst hn
        obtain ⟨b, hb⟩ := hcfg.group
        right
        rw [hadded, List.mem_replicate]
        exact ⟨by rw [hb]; positivity, rfl⟩
      · rw [htusc, if_neg hn]
        exact .inl (hlow n)
    · rw [hadded] at hmem
      obtain rfl := List.eq_of_mem_replicate hmem
      rw [hsampled j hj]
      exact mem_dreamRows hcfg h.masks hrows hj hrow hn

/-- A command exposes no row, and an event that spares a row ends its exposure. -/
theorem exposure_issued {origin : Origin} (hissue : cs.updateTimingAndStates cfg cmd clk origin = .ok cs')
    {es : List Event} (hes : cs'.log = es ++ cs.log) (i : BankId) (row : ℕ) :
    exposure cfg cs' i row cs'.log =
      if es.any (Event.spares cfg cs i row) then 0 else exposure cfg cs i row cs.log := by
  have hi := updateTimingAndStates_issued hissue
  obtain ⟨extra, hlog, hextra⟩ := hi.log
  obtain rfl : es = extra ++ [Event.issue cmd clk origin cs.bankStates] := by
    refine List.append_cancel_right (?_ : _ ++ cs.log = _ ++ cs.log)
    rw [← hes, hlog, List.append_assoc]
    rfl
  rw [exposure_congr hi.fixed, hes]
  refine current_append fun e he => ?_
  rcases List.mem_append.mp he with he | he
  · have hinternal := hextra e he
    cases e <;> first | rfl | cases hinternal
  · rw [List.mem_singleton.mp he]
    rfl

theorem exposure_issued_le {origin : Origin}
    (hissue : cs.updateTimingAndStates cfg cmd clk origin = .ok cs') (i : BankId) (row : ℕ) :
    exposure cfg cs' i row cs'.log ≤ exposure cfg cs i row cs.log := by
  obtain ⟨extra, hlog, _⟩ := (updateTimingAndStates_issued hissue).log
  rw [← List.singleton_append, ← List.append_assoc] at hlog
  rw [exposure_issued hissue hlog]
  split_ifs
  · exact Nat.zero_le _
  · exact le_rfl

/-- What waits in a sampler waits on, or is mitigated. -/
theorem spared_or_sampled (hcfg : cfg.Shares) {origin : Origin}
    (hissue : cs.updateTimingAndStates cfg cmd clk origin = .ok cs')
    (hrow : exposure cfg cs i row cs.log = 0 ∨ row ∈ (cs.bankStates i).sampledRows) :
    exposure cfg cs' i row cs'.log = 0 ∨ row ∈ (cs'.bankStates i).sampledRows := by
  rcases hrow with hzero | hmem
  · exact .inl (Nat.eq_zero_of_le_zero (hzero ▸ exposure_issued_le hissue i row))
  · have hsampled := updateTimingAndStates_sampled (mitigated_shares hcfg) hcfg.cactus hissue i
    split_ifs at hsampled with hdrfm
    · rw [(cs.bankStates i).drfmMitig_rows.mem_iff, List.mem_append, Option.mem_toList] at hmem
      rcases hmem with hmitigated | hmem
      · obtain ⟨extra, hlog, _⟩ := (updateTimingAndStates_issued hissue).log
        rw [← List.singleton_append, ← List.append_assoc] at hlog
        rw [exposure_issued hissue hlog, if_pos]
        · exact .inl rfl
        · refine List.any_eq_true.mpr ⟨_, List.mem_append_right extra (List.mem_singleton_self _), ?_⟩
          rw [Event.spares, Event.mitigatedRow, if_pos hdrfm, hmitigated]
          simp
      · rw [← hsampled.2] at hmem
        exact .inr hmem
    · rw [← hsampled.2] at hmem
      exact .inr hmem

/-- A command: what a refresh resets and what a DRFM mitigates is spared. -/
theorem Capped.issue (hcfg : cfg.Dreams) (h : Capped cfg cs) {origin : Origin}
    (hissue : cs.updateTimingAndStates cfg cmd clk origin = .ok cs')
    (hwide : cmd.isDRFM → cmd.isRankCMD ∧ ∀ i ∈ cfg.allBanks, i ∈ covered cfg cmd) : Capped cfg cs' := by
  have hi := updateTimingAndStates_issued hissue
  have hw := worked_updateTimingAndStates hcfg.dream (fun hdrfm => (hwide hdrfm).1) hissue
  have hmasks : cs'.randomMasks = cs.randomMasks := congrArg (·.1) hi.fixed
  obtain ⟨es, hes, htusc⟩ := hw.log
  have hle := exposure_issued_le hissue
  refine ⟨by rw [hmasks]; exact h.masks, fun j hj => ?_, fun n => ?_, fun j hj row hrow n hn => ?_⟩
  · rw [issue_length hcfg.toShares hissue (fun hdrfm => (hwide hdrfm).2) hj, h.level j hj, hw.tuscQ]
    split_ifs
    · rw [List.length_tail]
    · rfl
  · by_cases hzero : cs'.tusc n = 0
    · rw [hzero]
      exact .inl hcfg.th
    · have hsame := (htusc n).resolve_right fun hreset => hzero hreset.1
      rw [hsame]
      refine (h.low n).imp_right fun hmem => ?_
      rw [hw.tuscQ]
      split_ifs with hdrfm
      · cases hq : cs.tuscQ with
        | nil => simp [hq] at hmem
        | cons t rest =>
          rw [hq] at hmem
          rcases List.mem_cons.mp hmem with rfl | hmem
          · exact absurd (hw.front hdrfm n (by simp [hq])) hzero
          · exact hmem
      · exact hmem
  · rw [getTuscIdx_congr hi.fixed] at hn
    obtain ⟨hth, hcounted, hqueued⟩ := h.rows j hj row hrow n hn
    refine ⟨(hle j row).trans hth, ?_, fun hmem => spared_or_sampled hcfg.toShares hissue (hqueued ?_)⟩
    · rcases hcounted with hcounted | hmem
      · rcases htusc n with hsame | ⟨hzero, ⟨e, he, hreset⟩ | ⟨_, hfront⟩⟩
        · rw [hsame]
          exact .inl ((hle j row).trans hcounted)
        · rw [exposure_issued hissue hes,
            if_pos (List.any_eq_true.mpr ⟨e, he, spares_of_resetsTusc hn hreset⟩)]
          exact .inl (Nat.zero_le _)
        · have hspared := spared_or_sampled hcfg.toShares hissue (hqueued (List.mem_of_mem_head? hfront))
          exact hspared.imp_left fun hzero => hzero.le.trans (Nat.zero_le _)
      · have hspared := spared_or_sampled hcfg.toShares hissue (.inr hmem)
        exact hspared.imp_left fun hzero => hzero.le.trans (Nat.zero_le _)
    · rw [hw.tuscQ] at hmem
      split_ifs at hmem
      · exact List.mem_of_mem_tail hmem
      · exact hmem

theorem Capped.move (hcfg : cfg.Dreams) (h : Capped cfg cs) (hm : SharedMove cfg cs cs') :
    Capped cfg cs' := by
  cases hm with
  | keep hsame => exact h.congr hsame
  | @request req heq =>
    subst heq
    refine ⟨h.masks, h.level, h.low, fun i hi row hrow idx hidx => ?_⟩
    have hsame : exposure cfg (cs.addRefresh req) i row (cs.addRefresh req).log =
        exposure cfg cs i row cs.log := by
      have hfixed : exposure cfg (cs.addRefresh req) = exposure cfg cs := exposure_congr rfl
      rw [hfixed]
      refine (current_cons_of_not_reset (spares_eq_false rfl fun _ => rfl)).trans ?_
      simp [Event.sees, Event.seenRow, exposure]
    obtain ⟨hle, hcounted, hqueued⟩ := h.rows i hi row hrow idx hidx
    constructor <;> rw [hsame]
    · exact hle
    · exact hcounted
    · exact hqueued
  | hook hh hmem hempty =>
    obtain ⟨hh⟩ := hh
    exact h.hook hcfg hh hmem hempty
  | issue hissue hwide => exact h.issue hcfg hissue hwide

theorem capped_boot (hcfg : cfg.Dreams) (boot : Boot cfg) : Capped cfg boot.channelState := by
  have hpos : 0 < tuscSize cfg := by
    obtain ⟨b, hb⟩ := hcfg.group
    exact Nat.div_pos hcfg.group_le (by rw [hb]; positivity)
  refine ⟨fun n => ?_, fun _ _ => rfl, fun _ => .inl hcfg.th, fun i _ row _ idx _ => ?_⟩
  · have hle := boot.randomMasks_le n
    have hmask : boot.channelState.randomMasks n = boot.randomMasks n := rfl
    rw [hmask]
    unfold tuscSize at hpos ⊢
    omega
  · exact ⟨Nat.zero_le _, .inl (Nat.zero_le _), fun hmem => absurd hmem List.not_mem_nil⟩

end

/-- In every state of a run of DREAM, also inside a tick, with DRFMs of the whole rank under the eager policy:
the trackers have seen no row more often than the threshold since it was mitigated, or since a refresh reset
its counter. -/
theorem exposure_le_threshold {cfg : Config} (hcfg : cfg.Dreams) {π : Micro.Policy} {m : Micro}
    (h : Micro.Reached cfg π m) {i : BankId} (hi : i ∈ cfg.allBanks) {row : ℕ} (hrow : row < cfg.rows) :
    exposure cfg m.ctl.channelState i row m.ctl.channelState.log ≤ u32 cfg.dreamTh := by
  have hinv : Chan.Wide cfg m.chan ∧ Capped cfg m.ctl.channelState := by
    refine h.chan_induct (P := fun v => Chan.Wide cfg v ∧ Capped cfg v.cs)
      (fun boot => ⟨Chan.wide_boot boot, capped_boot hcfg boot⟩) fun v v' hv hs => ?_
    exact ⟨hv.1.step hcfg.toShares hs, hv.2.move hcfg (hs.sharedMove hcfg.toShares hv.1)⟩
  obtain ⟨a, ha⟩ := hcfg.rows
  obtain ⟨b, hb⟩ := hcfg.group
  obtain ⟨_, group, _, _, hgroup⟩ :=
    exists_grouping ha hb hcfg.group_le hcfg.grouping (fun n _ => hinv.2.masks n) hi
  exact (hinv.2.rows i hi row hrow _ (hgroup row)).le

/-- Two activations bring a counter of two rows a bank to its threshold. -/
def pairedDream : Config := { wideDream with dreamTh := 2 }

theorem pairedDream_dreams : pairedDream.Dreams :=
  ⟨⟨rfl, rfl, rfl, rfl, rfl, rfl, rfl⟩, rfl, rfl, by decide, ⟨2, rfl⟩, ⟨1, rfl⟩, by decide, .inl rfl⟩

/-- Row 0 is activated, then a row of another counter, and row 0 again: it is at the threshold. -/
theorem exposure_le_threshold_small : ∃ c, Reachable pairedDream c ∧
    exposure pairedDream c.channelState ⟨0, 0, 0⟩ 0 c.channelState.log = 2 ∧
    exposure pairedDream c.channelState ⟨0, 0, 0⟩ 0 c.channelState.log ≤ u32 pairedDream.dreamTh := by
  obtain ⟨c, hrun, hc⟩ := exists_ok_of_any
    (x := Controller.run pairedDream ({} : Boot pairedDream).controller
      (Input.request 0 false 6 ++ Input.request 4 false 6 ++ Input.request 0 false 4))
    (p := fun c => exposure pairedDream c.channelState ⟨0, 0, 0⟩ 0 c.channelState.log = 2)
    (by decide +kernel)
  have hr : Reachable pairedDream c := ⟨{}, _, hrun⟩
  have hle := exposure_le_threshold pairedDream_dreams (Micro.reached_of_reachable hr)
    (by decide : (⟨0, 0, 0⟩ : BankId) ∈ pairedDream.allBanks) (by decide : 0 < pairedDream.rows)
  exact ⟨c, hr, of_decide_eq_true hc, hle⟩

end CactusDram

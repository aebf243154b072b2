import CactusDram.SamplerBound

/-! Which entry a DRFM takes out of the Graphene table of a bank, over whole runs of a channel. -/
namespace CactusDram
open Foundations

/-- A list with one largest element. -/
theorem maxIdx_append_cons {pre post : List ℕ} {x : ℕ} (h : ∀ y ∈ pre ++ post, y < x) :
    maxIdx (pre ++ x :: post) = pre.length := by
  induction pre with
  | nil =>
    have hall : post.all (· ≤ x) = true :=
      List.all_eq_true.mpr fun y hy => by simpa using (h y hy).le
    simp [maxIdx, hall]
  | cons y pre ih =>
    have hy : y < x := h y List.mem_cons_self
    have hnot : (pre ++ x :: post).all (· ≤ y) = false :=
      List.all_eq_false.mpr ⟨x, List.mem_append_right _ List.mem_cons_self, by simpa using hy⟩
    have hrest := ih fun z hz => h z (List.mem_cons_of_mem y hz)
    simp [maxIdx, hnot, hrest]

namespace BankState
variable {cfg : Config} {b b' : BankState} {row : ℕ}

/-- A count changes one entry at most: it moves an entry on by one, or opens a new one. -/
theorem grapheneCount_cases (b : BankState) (row : ℕ) :
    (b.grapheneCount row).grapheneQ = b.grapheneQ ∨
      (∃ pre e e' post, b.grapheneQ = pre ++ e :: post ∧ e'.ctr = u16 (e.ctr + 1) ∧
        (b.grapheneCount row).grapheneQ = pre ++ e' :: post) ∨
      (b.grapheneCount row).grapheneQ = b.grapheneQ ++ [⟨row, 1⟩] := by
  have hcase := b.grapheneCount_counts row
  generalize b.grapheneCount row = b' at hcase
  cases hcase with
  | listed hq _ => exact .inr (.inl ⟨_, _, _, _, hq, rfl, rfl⟩)
  | opened _ _ => exact .inr (.inr rfl)
  | replaced _ _ hq hctr => exact .inr (.inl ⟨_, _, ⟨row, _⟩, _, hq, by rw [hctr], rfl⟩)
  | spilled _ _ _ => exact .inl rfl

/-- What the sampler and the Graphene table of a bank have to do with each other: an empty sampler
leaves no row at the threshold, and a single queued row is the only one there. -/
structure Queued (cfg : Config) (b : BankState) : Prop where
  idle : b.sampledRows = [] → ∀ e ∈ b.grapheneQ, (e.ctr : ℤ) < cfg.grapheneTh
  single : ∀ row, b.sampledRows = [row] → ∃ pre e post, b.grapheneQ = pre ++ e :: post ∧
    e.rowid = row ∧ cfg.grapheneTh ≤ e.ctr ∧ e.ctr + 1 < 2 ^ 16 ∧
    ∀ e' ∈ pre ++ post, (e'.ctr : ℤ) < cfg.grapheneTh

theorem Queued.congr (h : b.Queued cfg) (hq : b'.grapheneQ = b.grapheneQ)
    (hrows : b'.sampledRows = b.sampledRows) : b'.Queued cfg :=
  ⟨by rw [hq, hrows]; exact h.idle, by rw [hq, hrows]; exact h.single⟩

/-- An activation queues a row as long as some entry is at the threshold. -/
theorem graphenePreact_cases (hmode : cfg.grapheneMode ≠ 0) (b : BankState) (row : ℕ) :
    (∀ e ∈ (b.grapheneCount row).grapheneQ, (e.ctr : ℤ) < cfg.grapheneTh) ∧
        (b.graphenePreact cfg row).sampledRows = b.sampledRows ∨
      ∃ e ∈ (b.grapheneCount row).grapheneQ, cfg.grapheneTh ≤ e.ctr ∧
        (b.graphenePreact cfg row).sampledRows = b.sampledRows ++ [e.rowid] := by
  have hcount : (b.grapheneCount row).drfmQ = b.drfmQ := grapheneCount_drfmQ
  unfold graphenePreact sampledRows
  rw [if_neg hmode]
  dsimp only
  cases hfind : (b.grapheneCount row).grapheneQ.find? fun e => decide (cfg.grapheneTh ≤ (e.ctr : ℤ)) with
  | none =>
    refine .inl ⟨fun e he => ?_, congrArg _ hcount⟩
    simpa using List.find?_eq_none.mp hfind e he
  | some e =>
    refine .inr ⟨e, List.mem_of_find?_eq_some hfind, by simpa using List.find?_some hfind, ?_⟩
    simp [hcount]

/-- A row at the threshold stays there. -/
theorem grapheneCount_keeps_hot {e : GrapheneQEntry} (he : e ∈ b.grapheneQ)
    (hhigh : cfg.grapheneTh ≤ e.ctr) (hwrap : e.ctr + 1 < 2 ^ 16) (row : ℕ) :
    ∃ e' ∈ (b.grapheneCount row).grapheneQ, cfg.grapheneTh ≤ e'.ctr := by
  obtain hq | ⟨pre, e₁, e₂, post, hold, hctr, hq⟩ | hq := b.grapheneCount_cases row
  · exact ⟨e, hq ▸ he, hhigh⟩
  · rw [hold, List.mem_append, List.mem_cons] at he
    obtain he | rfl | he := he
    · exact ⟨e, hq ▸ List.mem_append_left _ he, hhigh⟩
    · refine ⟨e₂, hq ▸ List.mem_append_right _ List.mem_cons_self, ?_⟩
      rw [u16] at hctr
      omega
    · exact ⟨e, hq ▸ List.mem_append_right _ (List.mem_cons_of_mem _ he), hhigh⟩
  · exact ⟨e, hq ▸ List.mem_append_left _ he, hhigh⟩

/-- Of rows below the threshold, an activation takes one there at most. -/
theorem grapheneCount_heats (hth : cfg.grapheneTh ≠ 2 ^ 16 - 1)
    (hlow : ∀ e ∈ b.grapheneQ, (e.ctr : ℤ) < cfg.grapheneTh) {e : GrapheneQEntry}
    (he : e ∈ (b.grapheneCount row).grapheneQ) (hhigh : cfg.grapheneTh ≤ e.ctr) :
    e.ctr + 1 < 2 ^ 16 ∧ ∃ pre post, (b.grapheneCount row).grapheneQ = pre ++ e :: post ∧
      ∀ e' ∈ pre ++ post, (e'.ctr : ℤ) < cfg.grapheneTh := by
  have hcold {e' : GrapheneQEntry} (h : e' ∈ b.grapheneQ) : e' ≠ e := by
    rintro rfl
    have := hlow _ h
    omega
  obtain hq | ⟨pre, e₁, e₂, post, hold, hctr, hq⟩ | hq := b.grapheneCount_cases row
  · exact absurd rfl (hcold (hq ▸ he))
  · have hothers : ∀ e' ∈ pre ++ post, e' ∈ b.grapheneQ := by
      intro e' h
      rw [hold, List.mem_append, List.mem_cons]
      obtain h | h := List.mem_append.mp h
      · exact .inl h
      · exact .inr (.inr h)
    have hnew : e = e₂ := by
      rw [hq, List.mem_append, List.mem_cons] at he
      obtain he | he | he := he
      · exact absurd rfl (hcold (hothers e (List.mem_append_left _ he)))
      · exact he
      · exact absurd rfl (hcold (hothers e (List.mem_append_right _ he)))
    subst hnew
    have hbefore := hlow e₁ (by rw [hold]; exact List.mem_append_right _ List.mem_cons_self)
    rw [u16] at hctr
    exact ⟨by omega, pre, post, hq, fun e' h => hlow e' (hothers e' h)⟩
  · have hnew : e = ⟨row, 1⟩ := by
      rw [hq, List.mem_append, List.mem_singleton] at he
      obtain he | he := he
      · exact absurd rfl (hcold he)
      · exact he
    subst hnew
    exact ⟨by norm_num, b.grapheneQ, [], hq, by simpa using hlow⟩

theorem Queued.preact (hmode : cfg.grapheneMode ≠ 0) (hth : cfg.grapheneTh ≠ 2 ^ 16 - 1)
    (h : b.Queued cfg) (row : ℕ) : (b.graphenePreact cfg row).Queued cfg := by
  have htable : (b.graphenePreact cfg row).grapheneQ = _ := (graphenePreact_table b row hmode).1
  obtain ⟨hlow, hrows⟩ | ⟨e, he, hhigh, hrows⟩ := graphenePreact_cases hmode b row
  · refine ⟨fun _ => htable ▸ hlow, fun r hr => ?_⟩
    -- a queued row would be at the threshold still, and be queued once more
    obtain ⟨pre, e, post, hq, _, hhigh, hwrap, _⟩ := h.single r (hrows ▸ hr)
    have hmem : e ∈ b.grapheneQ := hq ▸ List.mem_append_right _ List.mem_cons_self
    obtain ⟨e', he', hhigh'⟩ := grapheneCount_keeps_hot hmem hhigh hwrap row
    have := hlow e' he'
    omega
  · refine ⟨fun hnone => ?_, fun r hr => ?_⟩
    · rw [hrows] at hnone
      simp at hnone
    · rw [hrows] at hr
      obtain ⟨hnone, hrow⟩ : b.sampledRows = [] ∧ e.rowid = r := by
        cases hb : b.sampledRows with
        | nil => simpa [hb] using hr
        | cons r' rest => simp [hb] at hr
      obtain ⟨hwrap, pre, post, hq, hothers⟩ := grapheneCount_heats hth (h.idle hnone) he hhigh
      exact ⟨pre, e, post, htable.trans hq, hrow, hhigh, hwrap, hothers⟩

/-- The row of a sampler that holds one row. -/
theorem drfmMitig_single {d : DRFMQEntry} (h : b.drfmQ = [d]) :
    b.drfmMitig = (some d.rowid, { b with drfmQ := [] }) := by
  simp [drfmMitig, h, maxIdx]

theorem drfmMitig_nil (h : b.drfmQ = []) : b.drfmMitig = (none, b) := by
  simp [drfmMitig, h]

/-- The entry that a mitigation takes out when one row is at the threshold. -/
theorem hottest_eq {pre post : List GrapheneQEntry} {e : GrapheneQEntry}
    (hq : b.grapheneQ = pre ++ e :: post) (hhigh : cfg.grapheneTh ≤ e.ctr)
    (hlow : ∀ e' ∈ pre ++ post, (e'.ctr : ℤ) < cfg.grapheneTh) :
    maxIdx (b.grapheneQ.map (·.ctr)) = pre.length ∧ b.hottest = some e := by
  have hidx : maxIdx (b.grapheneQ.map (·.ctr)) = pre.length := by
    rw [hq, List.map_append, List.map_cons, maxIdx_append_cons, List.length_map]
    intro y hy
    rw [← List.map_append] at hy
    obtain ⟨e', he', rfl⟩ := List.mem_map.mp hy
    have := hlow e' he'
    omega
  refine ⟨hidx, ?_⟩
  rw [hottest, hidx, hq]
  simp

theorem Queued.single_hottest (h : b.Queued cfg) {d : DRFMQEntry} (hd : b.drfmQ = [d]) :
    ∃ pre e post, b.grapheneQ = pre ++ e :: post ∧
      maxIdx (b.grapheneQ.map (·.ctr)) = pre.length ∧ b.hottest = some e ∧ e.rowid = d.rowid ∧
      ∀ e' ∈ pre ++ post, (e'.ctr : ℤ) < cfg.grapheneTh := by
  obtain ⟨pre, e, post, hq, hrow, hhigh, _, hlow⟩ := h.single d.rowid (by simp [sampledRows, hd])
  obtain ⟨hidx, hhot⟩ := hottest_eq hq hhigh hlow
  exact ⟨pre, e, post, hq, hidx, hhot, hrow, hlow⟩

/-- With at most one queued row, a mitigation takes out the entry of the row that it serves exactly
when a row is queued, unless the table is empty. -/
theorem Queued.mitigatesHottest_iff (h : b.Queued cfg) (hlen : b.drfmQ.length ≤ 1) :
    b.MitigatesHottest ↔ (b.grapheneQ ≠ [] → b.drfmQ ≠ []) := by
  constructor
  · intro hhot hne hnone
    have hlt : maxIdx (b.grapheneQ.map (·.ctr)) < b.grapheneQ.length := by
      have := maxIdx_lt (l := b.grapheneQ.map (·.ctr)) (by simpa using hne)
      rwa [List.length_map] at this
    have hserved := hhot _ (List.getElem?_eq_getElem hlt)
    rw [drfmMitig_nil hnone] at hserved
    cases hserved
  · intro hfinds e he
    have hne : b.grapheneQ ≠ [] := by
      intro hnil
      rw [hottest, hnil] at he
      cases he
    obtain ⟨d, hd⟩ : ∃ d, b.drfmQ = [d] :=
      List.length_eq_one_iff.mp (le_antisymm hlen (List.length_pos_of_ne_nil (hfinds hne)))
    obtain ⟨_, e', _, _, _, hhot, hrow, _⟩ := h.single_hottest hd
    obtain rfl : e' = e := Option.some.inj (hhot.symm.trans he)
    rw [drfmMitig_single hd, hrow]

theorem Queued.mitig (hmode : cfg.grapheneMode ≠ 0) (h : b.Queued cfg) (hlen : b.drfmQ.length ≤ 1) :
    (b.grapheneMitig cfg).Queued cfg := by
  unfold grapheneMitig
  rw [if_neg hmode]
  dsimp only
  cases hd : b.drfmQ with
  | nil =>
    rw [drfmMitig_nil hd]
    have hrows : b.sampledRows = [] := by simp [sampledRows, hd]
    refine ⟨fun _ e he => h.idle hrows e (List.mem_of_mem_eraseIdx he), fun r hr => ?_⟩
    cases hrows.symm.trans hr
  | cons d rest =>
    obtain rfl : rest = [] := by
      rw [hd, List.length_cons] at hlen
      exact List.length_eq_zero_iff.mp (by omega)
    obtain ⟨pre, e, post, hq, hidx, _, _, hlow⟩ := h.single_hottest hd
    rw [drfmMitig_single hd]
    refine ⟨fun _ => ?_, fun r hr => ?_⟩
    · dsimp only
      rw [hidx, hq, List.eraseIdx_append_of_length_le le_rfl, Nat.sub_self, List.eraseIdx_cons_zero]
      exact hlow
    · cases hr

end BankState

/-- Graphene is the only tracker that queues rows in the samplers or takes them out. -/
structure Config.GrapheneAlone (cfg : Config) : Prop where
  graphene : cfg.grapheneMode = 1
  mint : cfg.mintMode = 0
  para : cfg.paraMode = 0
  hydra : cfg.hydraMode = 0
  dream : cfg.dreamMode = 0
  abacus : cfg.abacusMode = 0
  cactus : cfg.cactusMode = 0
  threshold : cfg.grapheneTh ≠ 2 ^ 16 - 1

/-- Every sampler is calm: a DRFM finds at most one row in those that it covers, and a refresh finds
none where it clears the table. -/
def Event.Calm (cfg : Config) : Event → Prop
  | .issue cmd _ _ found => ∀ i ∈ ChannelState.covered cfg cmd,
    (cmd.isDRFM → (found i).drfmQ.length ≤ 1) ∧
    (cmd.isRefresh → (found i).drfmQ = [] ∨
      ((found i).refreshed cfg).grapheneQ = (found i).grapheneQ)
  | _ => True

/-- What a DRFM takes out of the table of bank `i` is the entry of the row that it serves there. -/
def Event.TakesServed (cfg : Config) (i : BankId) : Event → Prop
  | .issue cmd _ _ found => cmd.isDRFM → i ∈ ChannelState.covered cfg cmd →
    ((((found i).dreamMitig cfg).mintMitig cfg).paraMitig cfg).MitigatesHottest
  | _ => True

/-- A DRFM finds a queued row in bank `i`, unless the table is empty. -/
def Event.FindsQueued (cfg : Config) (i : BankId) : Event → Prop
  | .issue cmd _ _ found => cmd.isDRFM → i ∈ ChannelState.covered cfg cmd →
    (found i).grapheneQ ≠ [] → (found i).drfmQ ≠ []
  | _ => True

instance (cfg : Config) : ∀ e : Event, Decidable (e.Calm cfg)
  | .issue cmd _ _ found => inferInstanceAs (Decidable (∀ i ∈ ChannelState.covered cfg cmd,
      (cmd.isDRFM → (found i).drfmQ.length ≤ 1) ∧
      (cmd.isRefresh → (found i).drfmQ = [] ∨
        ((found i).refreshed cfg).grapheneQ = (found i).grapheneQ)))
  | .hook _ _ _ _ _ _ | .alert _ _ | .cactusReset _ _ | .cactusMitig _ | .pendingMitig _
  | .actsCleared _ | .requested _ | .abo _ _ _ | .dreamCross _ | .dreamMitig _ | .abacusCross _
  | .abacusMitig _ | .dreamReset _ _ | .abacusReset _ _ => .isTrue trivial

instance (cfg : Config) (i : BankId) : ∀ e : Event, Decidable (e.TakesServed cfg i)
  | .issue cmd _ _ found => inferInstanceAs (Decidable (cmd.isDRFM →
      i ∈ ChannelState.covered cfg cmd →
      ((((found i).dreamMitig cfg).mintMitig cfg).paraMitig cfg).MitigatesHottest))
  | .hook _ _ _ _ _ _ | .alert _ _ | .cactusReset _ _ | .cactusMitig _ | .pendingMitig _
  | .actsCleared _ | .requested _ | .abo _ _ _ | .dreamCross _ | .dreamMitig _ | .abacusCross _
  | .abacusMitig _ | .dreamReset _ _ | .abacusReset _ _ => .isTrue trivial

instance (cfg : Config) (i : BankId) : ∀ e : Event, Decidable (e.FindsQueued cfg i)
  | .issue cmd _ _ found => inferInstanceAs (Decidable (cmd.isDRFM →
      i ∈ ChannelState.covered cfg cmd → (found i).grapheneQ ≠ [] → (found i).drfmQ ≠ []))
  | .hook _ _ _ _ _ _ | .alert _ _ | .cactusReset _ _ | .cactusMitig _ | .pendingMitig _
  | .actsCleared _ | .requested _ | .abo _ _ _ | .dreamCross _ | .dreamMitig _ | .abacusCross _
  | .abacusMitig _ | .dreamReset _ _ | .abacusReset _ _ => .isTrue trivial

namespace BankState
variable {cfg : Config} {b b' : BankState} {cmd : Command}

theorem beforeGraphene_eq (halone : cfg.GrapheneAlone) (b : BankState) :
    ((b.dreamMitig cfg).mintMitig cfg).paraMitig cfg = b := by
  simp [dreamMitig, mintMitig, paraMitig, samplerMitig, halone.dream, halone.mint, halone.para]

theorem mitigated_eq (halone : cfg.GrapheneAlone) (b : BankState) :
    mitigated cfg b = b.grapheneMitig cfg := by
  unfold mitigated
  rw [beforeGraphene_eq halone]
  simp [hydraMitig, abacusMitig, samplerMitig, halone.hydra, halone.abacus]

theorem preACT_eq (halone : cfg.GrapheneAlone) (b : BankState) (draws : List ℕ) (rcc : LRUCache) :
    (b.preACT cfg cmd draws rcc).1 = b.graphenePreact cfg (u32 cmd.row) := by
  simp [preACT, mintPreact, paraPreact, hydraPreact, halone.mint, halone.para, halone.hydra]

/-- The first refresh of a rotation clears the table. -/
theorem refreshed_grapheneQ (b : BankState) : (b.refreshed cfg).grapheneQ =
    if ((cfg.fgr ∧ (b.fgrCounter + 1) % 2 = 0) ∨ ¬cfg.fgr) ∧ cfg.grapheneMode ≠ 0 ∧
      b.refIdx % cfg.rows = 0 then [] else b.grapheneQ := by
  have hprac (b : BankState) :
      (((b.hydraRefresh cfg).moatRefresh cfg).pracRefresh cfg).grapheneQ = b.grapheneQ := by
    unfold pracRefresh moatRefresh hydraRefresh
    split_ifs <;> rfl
  unfold refreshed
  dsimp only
  by_cases hrows : (cfg.fgr ∧ (b.fgrCounter + 1) % 2 = 0) ∨ ¬cfg.fgr
  · rw [if_pos hrows, hprac]
    unfold grapheneRefresh
    dsimp only
    split_ifs <;> simp_all
  · rw [if_neg hrows, if_neg fun h => hrows h.1]

theorem updateState_refresh (hcmd : cmd.isRefresh) (h : b.updateState cfg cmd = .ok b') :
    b'.grapheneQ = (b.refreshed cfg).grapheneQ ∧ b'.drfmQ = b.drfmQ := by
  have hb : b' = ({ b with lastCmd := some cmd } : BankState).refreshed cfg := by
    obtain ⟨ty, addr, hex⟩ := cmd
    unfold updateState at h
    cases hs : b.state <;> cases ty <;> simp only [hs] at h <;> cases h <;>
      first
      | rfl
      | simp [Command.isRefresh] at hcmd
  subst hb
  refine ⟨?_, refreshed_trackers.1⟩
  rw [refreshed_grapheneQ, refreshed_grapheneQ]

/-- What a bank sees of an issued command keeps its sampler and its table in step. -/
theorem Queued.served (halone : cfg.GrapheneAlone) (h : b.Queued cfg)
    (hdrfm : cmd.isDRFM → b.drfmQ.length ≤ 1)
    (hrefresh : cmd.isRefresh → b.drfmQ = [] ∨ (b.refreshed cfg).grapheneQ = b.grapheneQ)
    (hs : b.updateState cfg cmd = .ok b') : b'.Queued cfg := by
  have hmode : cfg.grapheneMode ≠ 0 := by rw [halone.graphene]; decide
  obtain ⟨_, _, htables, hrows⟩ | ⟨hcmd, _, _⟩ | ⟨hcmd, rfl⟩ := updateState_trackers hs
  · exact h.congr (congrArg Tables.grapheneQ htables) hrows
  · obtain ⟨hq, hd⟩ := updateState_refresh hcmd hs
    have hrows : b'.sampledRows = b.sampledRows := congrArg (List.map _) hd
    obtain hnone | hkeep := hrefresh hcmd
    · have hidle : b.sampledRows = [] := by rw [sampledRows, hnone]; rfl
      refine ⟨fun _ e he => ?_, fun r hr => ?_⟩
      · rw [hq, refreshed_grapheneQ] at he
        split_ifs at he
        · cases he
        · exact h.idle hidle e he
      · cases hidle.symm.trans (hrows.symm.trans hr)
    · exact h.congr (hq.trans hkeep) hrows
  · rw [mitigated_eq halone]
    have hlast : ({ b with lastCmd := some cmd } : BankState).Queued cfg := h.congr rfl rfl
    refine (hlast.mitig hmode (hdrfm hcmd)).congr ?_ ?_
    · exact congrArg Tables.grapheneQ rfmAbServed_tables
    · exact congrArg (List.map _) rfmAbServed_drfmQ

end BankState

namespace ChannelState
variable {cfg : Config} {cs cs' : ChannelState} {cmd : Command} {clk : ℕ}

/-- The hooks of an activation run Graphene in its bank. -/
theorem Hooked.queued (halone : cfg.GrapheneAlone) {full : Bool} (h : Hooked cfg cs cmd clk full cs')
    {i : BankId} (hi : (cs.bankStates i).Queued cfg) : (cs'.bankStates i).Queued cfg := by
  have hmode : cfg.grapheneMode ≠ 0 := by rw [halone.graphene]; decide
  have hdream : h.dream = {} := by
    obtain ⟨_, hd⟩ | ⟨hmode, _⟩ := h.hdream
    · exact hd
    · exact absurd halone.dream hmode
  have habacus : h.abacus = {} := by
    obtain ⟨_, ha⟩ | ⟨hmode, _⟩ := h.habacus
    · exact ha
    · exact absurd halone.abacus hmode
  rw [h.banks]
  dsimp only
  rw [hdream, habacus, List.append_nil, BankState.sampled_nil, BankState.preACT_eq halone]
  by_cases hown : i = cmd.bankId
  · subst hown
    rw [Function.update_self]
    exact hi.preact hmode halone.threshold _
  · rw [Function.update_of_ne hown]
    exact hi

theorem queued_launchDRFM (h : cs.launchDRFM cfg cmd = .ok cs') {i : BankId}
    (hi : (cs.bankStates i).Queued cfg) : (cs'.bankStates i).Queued cfg := by
  rw [(launchDRFM_exact h).2, launched]
  by_cases hown : i = cmd.bankId
  · subst hown
    simp only [modifyBank, Function.update_self]
    exact hi.congr rfl rfl
  · simp only [modifyBank, Function.update_of_ne hown]
    exact hi

theorem Answer.graphene_queued (halone : cfg.GrapheneAlone) {r? : Option Command}
    (h : Answer cfg cs cmd clk r? cs') {i : BankId} (hi : (cs.bankStates i).Queued cfg) :
    (cs'.bankStates i).Queued cfg := by
  cases h with
  | wait | divert | allReady | single => exact hi
  | needRFMsb =>
    rw [banksetNeedRFM, needRFM_bankStates]
    exact hi
  | needRFMab =>
    rw [rankNeedRFM, needRFM_bankStates]
    exact hi
  | eager _ _ h => exact queued_launchDRFM h hi
  | hydraWait h =>
    obtain ⟨_, _, _, rfl⟩ := hydraCheck_eq h
    exact hi
  | lazy _ hcheck hhook h =>
    obtain ⟨_, _, _, rfl⟩ := hydraCheck_eq hcheck
    obtain ⟨hh⟩ := preactHooks_hooked hhook
    exact queued_launchDRFM h (hh.queued halone hi)
  | activate _ hcheck hhook =>
    obtain ⟨_, _, _, rfl⟩ := hydraCheck_eq hcheck
    obtain ⟨hh⟩ := preactHooks_hooked hhook
    exact hh.queued halone hi

end ChannelState

namespace Chan
open ChannelState
variable {cfg : Config} {π : Micro.Policy} {v v' : Chan} {i : BankId}

/-- As long as the samplers are calm, those of a bank and its table are in step, and every DRFM so far
took out what it served wherever it found something. -/
structure InStep (cfg : Config) (v : Chan) : Prop where
  queued : ∀ i, (v.cs.bankStates i).Queued cfg
  served : ∀ e ∈ v.cs.log, ∀ i, e.TakesServed cfg i ↔ e.FindsQueued cfg i

theorem inStep_boot (boot : Boot cfg) : InStep cfg ⟨boot.channelState, 0, none, []⟩ := by
  refine ⟨fun i => ⟨fun _ e he => ?_, fun r hr => ?_⟩, fun e he => (nomatch he)⟩
  · cases he
  · cases hr

/-- The events of a step are those before it and its own. -/
theorem Step.log_subset (h : Step cfg π v v') : v.cs.log ⊆ v'.cs.log := by
  intro e he
  obtain ⟨extra, hlog, _⟩ | ⟨p, _, hi⟩ := h.log
  · rw [hlog]
    exact List.mem_append_right _ he
  · obtain ⟨extra, hlog, _⟩ := hi.log
    rw [hlog]
    exact List.mem_append_right _ (List.mem_cons_of_mem _ he)

theorem Step.graphene_queued (halone : cfg.GrapheneAlone) (h : Step cfg π v v')
    (hcalm : ∀ e ∈ v'.cs.log, e.Calm cfg) (hv : (v.cs.bankStates i).Queued cfg) :
    (v'.cs.bankStates i).Queued cfg := by
  cases h with
  | environment | requestRefresh | drop | tock => exact hv
  | tick =>
    dsimp only
    rw [clockTick_bankStates]
    exact hv
  | query _ h => exact h.graphene_queued halone hv
  | pick _ _ _ h => exact h.graphene_queued halone hv
  | hydraQuery h =>
    obtain ⟨⟨_, _, _, rfl⟩, _⟩ := getReadyHydraCommand_eq h
    exact hv
  | pickHydra _ h =>
    obtain ⟨⟨_, _, _, rfl⟩, _⟩ := getReadyHydraCommand_eq h
    exact hv
  | @issue cs clk p _ _ h =>
    have hi := updateTimingAndStates_issued h
    obtain ⟨extra, hlog, _⟩ := hi.log
    obtain ⟨b, hin, hout, htables, hdrfm⟩ := hi.tables i
    have hb : b.Queued cfg := by
      by_cases hcov : i ∈ covered cfg p.cmd
      · have hown := hcalm (.issue p.cmd clk p.origin cs.bankStates)
          (by rw [hlog]; exact List.mem_append_right _ List.mem_cons_self) i hcov
        exact hv.served halone hown.1 hown.2 (hin hcov)
      · rw [hout hcov]
        exact hv
    exact hb.congr (congrArg BankState.Tables.grapheneQ htables)
      (congrArg (List.map _) (hdrfm halone.cactus))

theorem InStep.step (halone : cfg.GrapheneAlone) (hv : InStep cfg v) (h : Step cfg π v v')
    (hcalm : ∀ e ∈ v'.cs.log, e.Calm cfg) : InStep cfg v' := by
  refine ⟨fun i => h.graphene_queued halone hcalm (hv.queued i), fun e he i => ?_⟩
  obtain hold | hissue | ⟨p, _, _, rfl⟩ := h.log_mem he
  · exact hv.served e hold i
  · cases e with
    | issue => cases hissue
    | _ => exact Iff.rfl
  · unfold Event.TakesServed Event.FindsQueued
    dsimp only
    rw [BankState.beforeGraphene_eq halone]
    refine imp_congr_right fun hdrfm => imp_congr_right fun hi => ?_
    exact (hv.queued i).mitigatesHottest_iff ((hcalm _ he i hi).1 hdrfm)

/-- With samplers of one row, the trackers of a bank only see an activation while no row of its table
is at the threshold. -/
theorem InStep.cool (hcfg : cfg.Samples) (hone : cfg.drfmQsize = 1) (hv : InStep cfg v)
    (hroom : ∀ i, (v.cs.bankStates i).Roomy cfg) (h : Step cfg π v v') {i : BankId}
    (hhook : v.cs.preactsOf i < v'.cs.preactsOf i) : (v.cs.bankStates i).Cool cfg := by
  obtain hsame | hroom := h.preactsOf hcfg hroom i
  · exact absurd hsame hhook.ne'
  · have hnil : (v.cs.bankStates i).drfmQ = [] := List.length_eq_zero_iff.mp (by omega)
    exact (hv.queued i).idle (by rw [BankState.sampledRows, hnil]; rfl)

end Chan

theorem Micro.Reached.inStep {cfg : Config} {π : Micro.Policy} {m : Micro} (halone : cfg.GrapheneAlone)
    (hm : Micro.Reached cfg π m) (hcalm : ∀ e ∈ m.chan.cs.log, e.Calm cfg) :
    Chan.InStep cfg m.chan :=
  hm.chan_induct (P := fun v => (∀ e ∈ v.cs.log, e.Calm cfg) → Chan.InStep cfg v)
    (fun boot _ => Chan.inStep_boot boot)
    (fun _ _ hv hs hcalm => (hv fun e he => hcalm e (hs.log_subset he)).step halone hs hcalm) hcalm

/-- With samplers of one row that Graphene has to itself, and as long as the samplers are calm, a
table is cool whenever the trackers of its bank see an activation. -/
theorem graphene_hooks_cool (cfg : Config) (halone : cfg.GrapheneAlone) (hcfg : cfg.Samples)
    (hone : cfg.drfmQsize = 1) {m m' : Micro} (hm : Micro.Reached cfg .free m)
    (hcalm : ∀ e ∈ m.chan.cs.log, e.Calm cfg) (hs : Micro.Step cfg .free m m') (i : BankId)
    (hhook : m.ctl.channelState.preactsOf i < m'.ctl.channelState.preactsOf i) :
    (m.ctl.channelState.bankStates i).Cool cfg := by
  obtain hc | hc := hs.chan hm.wellQueued
  · exact (hm.inStep halone hcalm).cool hcfg hone (hm.roomy hcfg) hc hhook
  · have hsame := congrArg (fun v => v.cs.preactsOf i) hc
    exact absurd hsame hhook.ne'

/-- In every run in which Graphene has the samplers to itself, every DRFM finds at most one row in
those it covers, and no refresh clears the table of a bank with a queued row: a DRFM takes an entry
out of the table of a bank only with its row exactly when it finds a queued row, or an empty table. A
bank that a DRFM for another bank covers has nothing queued and loses its hottest entry. -/
theorem graphene_takes_served_iff (cfg : Config) (halone : cfg.GrapheneAlone) (c : Controller)
    (h : Reachable cfg c) (hcalm : ∀ e ∈ c.channelState.log, e.Calm cfg) :
    ∀ e ∈ c.channelState.log, ∀ i, e.TakesServed cfg i ↔ e.FindsQueued cfg i := by
  exact ((Micro.reached_of_reachable h).inStep halone hcalm).served

/-- One entry, a threshold of two activations and DRFMs of whole ranks. -/
def grapheneRank : Config := { grapheneConfig with drfmMode := 3 }

/-- Two reads of row 0 of bank 0, and one of row 1 in between and after. -/
def hotRow : List Input :=
  Input.request 0 false 4 ++ Input.request 2 false 6 ++ Input.request 0 false 6 ++
    Input.request 2 false 8

theorem graphene_takes_served_iff_small : ∃ c,
    Controller.run grapheneRank ({} : Boot grapheneRank).controller hotRow = .ok c ∧
    c.channelState.log.any (fun e => e matches .issue ⟨.drfmAb, _, _⟩ _ _ _) ∧
    ∀ e ∈ c.channelState.log, ∀ i ∈ grapheneRank.allBanks, e.TakesServed grapheneRank i := by
  obtain ⟨c, hrun, hc⟩ := exists_ok_of_any
    (x := Controller.run grapheneRank ({} : Boot grapheneRank).controller hotRow)
    (p := fun c => c.channelState.log.any (fun e => e matches .issue ⟨.drfmAb, _, _⟩ _ _ _) ∧
      (∀ e ∈ c.channelState.log, e.Calm grapheneRank) ∧
      ∀ e ∈ c.channelState.log, ∀ i ∈ grapheneRank.allBanks, e.FindsQueued grapheneRank i)
    (by decide +kernel)
  obtain ⟨hissued, hcalm, hfinds⟩ := of_decide_eq_true hc
  have halone : grapheneRank.GrapheneAlone := ⟨rfl, rfl, rfl, rfl, rfl, rfl, rfl, by decide⟩
  refine ⟨c, hrun, hissued, fun e he i hi => ?_⟩
  exact (graphene_takes_served_iff grapheneRank halone c ⟨{}, _, hrun⟩ hcalm e he i).mpr
    (hfinds e he i hi)

/-- A read of bank 1 leaves an entry in its table, which the DRFM for bank 0 takes out. -/
theorem graphene_entry_dropped : ∃ c,
    Controller.run grapheneRank ({} : Boot grapheneRank).controller
      (Input.request 1 false 4 ++ hotRow) = .ok c ∧
    (c.channelState.bankStates ⟨0, 0, 1⟩).grapheneQ = [] ∧
    ∃ e ∈ c.channelState.log, ¬e.TakesServed grapheneRank ⟨0, 0, 1⟩ := by
  obtain ⟨c, hrun, hc⟩ := exists_ok_of_any
    (x := Controller.run grapheneRank ({} : Boot grapheneRank).controller
      (Input.request 1 false 4 ++ hotRow))
    (p := fun c => (c.channelState.bankStates ⟨0, 0, 1⟩).grapheneQ = [] ∧
      ∃ e ∈ c.channelState.log, ¬e.TakesServed grapheneRank ⟨0, 0, 1⟩) (by decide +kernel)
  exact ⟨c, hrun, of_decide_eq_true hc⟩

end CactusDram

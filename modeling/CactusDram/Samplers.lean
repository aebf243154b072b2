import CactusDram.Abacus
import CactusDram.Accounting

/-! What the steps of a channel do to its samplers and to the tables of each bank. -/
namespace CactusDram
open Foundations

theorem maxIdx_lt {l : List ℕ} (h : l ≠ []) : maxIdx l < l.length := by
  induction l with
  | nil => exact absurd rfl h
  | cons x xs ih =>
    unfold maxIdx
    split_ifs with hall
    · exact Nat.zero_lt_succ _
    · have hne : xs ≠ [] := by
        rintro rfl
        exact hall rfl
      exact Nat.succ_lt_succ (ih hne)

namespace BankState
variable {cfg : Config} {b b' : BankState} {cmd : Command}

/-- Queue rows in the sampler. -/
def sampled (b : BankState) (rows : List ℕ) : BankState :=
  { b with drfmQ := b.drfmQ ++ rows.map fun row => ⟨row, 0⟩ }

@[simp] theorem sampled_nil (b : BankState) : b.sampled [] = b := by
  simp [sampled]

@[simp] theorem sampled_sampled (b : BankState) (rows rows' : List ℕ) :
    (b.sampled rows).sampled rows' = b.sampled (rows ++ rows') := by
  simp [sampled]

theorem insertDrfm_eq (cfg : Config) (b : BankState) (row : ℕ) :
    b.insertDrfm cfg row = b.sampled (if cfg.drfmMode = 0 then [] else [row]) := by
  unfold insertDrfm
  split_ifs <;> simp [sampled]

@[simp] theorem sampled_tables (rows : List ℕ) : (b.sampled rows).tables = b.tables := rfl

/-- The rows that wait in the sampler. -/
def sampledRows (b : BankState) : List ℕ := b.drfmQ.map (·.rowid)

@[simp] theorem sampledRows_sampled (rows : List ℕ) :
    (b.sampled rows).sampledRows = b.sampledRows ++ rows := by
  simp [sampled, sampledRows, Function.comp_def]

/-- A bank that asks for an activation does not wait for a DRFM. -/
theorem drfmIssued_of_requires_activate (h : b.requiredType cfg cmd = .ok (some .activate)) :
    b.drfmIssued = false := by
  have hrw := isReadWrite_of_requires_activate h
  obtain ⟨ty, addr, hex⟩ := cmd
  by_contra hissued
  unfold requiredType at h
  dsimp only at h
  cases hs : b.state <;> rw [hs] at h <;> cases ty <;>
    simp_all [Command.isReadWrite, Command.isRead, Command.isWrite] <;> grind

/-- What a DRFM makes the trackers of a bank do, in their order. -/
def mitigated (cfg : Config) (b : BankState) : BankState :=
  (((((b.dreamMitig cfg).mintMitig cfg).paraMitig cfg).grapheneMitig cfg).hydraMitig cfg).abacusMitig
    cfg

@[simp] theorem rfmAbServed_tables : (b.rfmAbServed cfg).tables = b.tables := by
  obtain ⟨_, _, _, h⟩ := b.rfmAbServed_eq cfg
  rw [h]
  rfl

@[simp] theorem rfmAbServed_drfmQ : (b.rfmAbServed cfg).drfmQ = b.drfmQ := by
  obtain ⟨_, _, _, h⟩ := b.rfmAbServed_eq cfg
  rw [h]

theorem activated_trackers : (b.activated cfg cmd).tables = b.tables ∧
    (b.activated cfg cmd).sampledRows = b.sampledRows := by
  have hmoat (b : BankState) (row : ℕ) : (b.moatAct cfg row).tables = b.tables ∧
      (b.moatAct cfg row).sampledRows = b.sampledRows := by
    unfold moatAct
    split_ifs <;> exact ⟨rfl, rfl⟩
  have hpost (b : BankState) (row : ℕ) : (b.drfmPostAct row).tables = b.tables ∧
      (b.drfmPostAct row).sampledRows = b.sampledRows := by
    unfold drfmPostAct
    split
    · refine ⟨rfl, ?_⟩
      refine List.ext_getElem? fun n => ?_
      simp only [sampledRows, List.getElem?_map, List.getElem?_modify]
      cases b.drfmQ[n]? with
      | none => rfl
      | some e => split_ifs <;> rfl
    · exact ⟨rfl, rfl⟩
  unfold activated
  dsimp only
  rw [(hpost _ _).1, (hpost _ _).2, (hmoat _ _).1, (hmoat _ _).2]
  exact ⟨rfl, rfl⟩

theorem refreshed_trackers : (b.refreshed cfg).drfmQ = b.drfmQ ∧
    ((b.refreshed cfg).tables = b.tables ∨ ∃ b₀ : BankState, b₀.tables = b.tables ∧
      (b.refreshed cfg).tables = ((b₀.grapheneRefresh cfg).hydraRefresh cfg).tables) := by
  have hprac (b : BankState) : ((b.moatRefresh cfg).pracRefresh cfg).drfmQ = b.drfmQ ∧
      ((b.moatRefresh cfg).pracRefresh cfg).tables = b.tables := by
    unfold pracRefresh moatRefresh
    split_ifs <;> exact ⟨rfl, rfl⟩
  unfold refreshed
  dsimp only
  split_ifs
  · rw [(hprac _).1, (hprac _).2, (trackersRefresh_sampler _ cfg).1]
    exact ⟨rfl, .inr ⟨{ b with
      fgrCounter := (b.fgrCounter + 1) % 2
      raaCtr := b.raaCtr - min b.raaCtr cfg.refRaaDecrement }, rfl, rfl⟩⟩
  · exact ⟨rfl, .inl rfl⟩

/-- What a command does to the trackers of a bank that sees it. -/
theorem updateState_trackers (h : b.updateState cfg cmd = .ok b') :
    cmd.isRefresh = false ∧ cmd.isDRFM = false ∧ b'.tables = b.tables ∧
        b'.sampledRows = b.sampledRows ∨
      cmd.isRefresh ∧ b'.drfmQ = b.drfmQ ∧ (b'.tables = b.tables ∨
        ∃ b₀ : BankState, b₀.tables = b.tables ∧
          b'.tables = ((b₀.grapheneRefresh cfg).hydraRefresh cfg).tables) ∨
      cmd.isDRFM ∧ b' = ({ mitigated cfg { b with lastCmd := some cmd } with
        drfmIssued := false }).rfmAbServed cfg := by
  obtain ⟨ty, addr, hex⟩ := cmd
  unfold updateState at h
  dsimp only at h
  cases hs : b.state with
  | «open» =>
    rw [hs] at h
    cases ty <;> cases h <;> exact .inl ⟨rfl, rfl, rfl, rfl⟩
  | closed =>
    rw [hs] at h
    cases ty with
    | refSb | refreshBank | refAb =>
      cases h
      exact .inr (.inl ⟨rfl, refreshed_trackers⟩)
    | drfmB | drfmSb | drfmAb =>
      cases h
      exact .inr (.inr ⟨rfl, rfl⟩)
    | rfmAb =>
      cases h
      exact .inl ⟨rfl, rfl, rfmAbServed_tables, congrArg (List.map _) rfmAbServed_drfmQ⟩
    | activate =>
      cases h
      exact .inl ⟨rfl, rfl, activated_trackers⟩
    | _ => cases h <;> exact .inl ⟨rfl, rfl, rfl, rfl⟩
  | sref =>
    rw [hs] at h
    cases ty <;> cases h
    exact .inl ⟨rfl, rfl, rfl, rfl⟩
  | pd | size =>
    rw [hs] at h
    cases h

end BankState

namespace ChannelState
variable {cfg : Config} {cs cs' : ChannelState} {cmd r : Command} {clk : ℕ}

/-- Queue rows in every bank. -/
def sampledAll (cs : ChannelState) (rows : BankId → List ℕ) : ChannelState :=
  { cs with bankStates := fun j => (cs.bankStates j).sampled (rows j) }

/-- The rows of a DREAM counter, bank by bank. -/
def DreamRows (cfg : Config) (cs : ChannelState) (idx : ℕ) (banks : List BankId)
    (rows : BankId → List ℕ) : Prop :=
  (∀ i ∈ banks, List.Forall₂ (fun l row => cs.getRowIdx cfg i idx l = .ok row)
    (List.range cfg.dreamK) (rows i)) ∧ ∀ i ∉ banks, rows i = []

/-- The rows are queued, unless the DRFM mode is off. -/
def effective (cfg : Config) (rows : List ℕ) : List ℕ := if cfg.drfmMode = 0 then [] else rows

theorem dreamInsertBank_eq {idx : ℕ} {i : BankId} (h : dreamInsertBank cfg idx cs i = .ok cs') :
    ∃ rows, List.Forall₂ (fun l row => cs.getRowIdx cfg i idx l = .ok row)
        (List.range cfg.dreamK) rows ∧
      cs' = cs.modifyBank i fun b => b.sampled (effective cfg rows) := by
  unfold dreamInsertBank at h
  generalize List.range cfg.dreamK = ls at h ⊢
  induction ls generalizing cs with
  | nil =>
    cases h
    exact ⟨[], .nil, by simp [modifyBank, effective]⟩
  | cons l ls ih =>
    rw [List.foldlM_cons, bind_ok_iff] at h
    obtain ⟨cs₁, h₁, h⟩ := h
    obtain ⟨row, hrow, h₁⟩ := bind_ok_iff.mp h₁
    cases h₁
    obtain ⟨rows, hrows, rfl⟩ := ih h
    refine ⟨row :: rows, .cons hrow hrows, ?_⟩
    simp only [modifyBank, Function.update_self, Function.update_idem, BankState.insertDrfm_eq,
      BankState.sampled_sampled]
    congr 3
    unfold effective
    split_ifs <;> simp

theorem foldlM_dreamInsertBank {idx : ℕ} {banks : List BankId} (hnd : banks.Nodup)
    (h : banks.foldlM (dreamInsertBank cfg idx) cs = .ok cs') :
    ∃ rows, DreamRows cfg cs idx banks rows ∧ cs' = cs.sampledAll fun j => effective cfg (rows j) := by
  induction banks generalizing cs with
  | nil =>
    cases h
    refine ⟨fun _ => [], ⟨by simp, by simp⟩, ?_⟩
    simp [sampledAll, effective]
  | cons i banks ih =>
    obtain ⟨hi, hnd⟩ := List.nodup_cons.mp hnd
    rw [List.foldlM_cons, bind_ok_iff] at h
    obtain ⟨cs₁, h₁, h⟩ := h
    obtain ⟨own, hown, rfl⟩ := dreamInsertBank_eq h₁
    obtain ⟨rows, ⟨hin, hout⟩, rfl⟩ := ih hnd h
    refine ⟨Function.update rows i own, ⟨fun j hj => ?_, fun j hj => ?_⟩, ?_⟩
    · by_cases hji : j = i
      · subst hji
        simpa using hown
      · rw [Function.update_of_ne hji]
        exact hin j ((List.mem_cons.mp hj).resolve_left hji)
    · obtain ⟨hji, hj⟩ := not_or.mp (mt List.mem_cons.mpr hj)
      rw [Function.update_of_ne hji]
      exact hout j hj
    · simp only [sampledAll, modifyBank]
      congr 1
      funext j
      by_cases hji : j = i
      · subst hji
        simp [hout j hi, effective]
      · simp [Function.update_of_ne hji]

/-- A DREAM count stays below the threshold, or queues the rows of its counter in every bank. -/
theorem dreamPreact_cases {i : BankId} {rowid : ℕ} (h : cs.dreamPreact cfg i rowid = .ok cs') :
    ∃ idx, cs.getTuscIdx cfg i rowid = .ok idx ∧
      let counted := { cs with tusc := Function.update cs.tusc idx (u32 (cs.tusc idx + 1)) }
      ((cfg.dreamMode = 0 ∨ counted.tuscVal cfg idx < tuscThreshold cfg) ∧ cs' = counted ∨
        cfg.dreamMode ≠ 0 ∧ tuscThreshold cfg ≤ counted.tuscVal cfg idx ∧
          ∃ rows, DreamRows cfg cs idx cfg.allBanks rows ∧
            cs' = { counted.sampledAll (fun j => effective cfg (rows j)) with
              tuscQ := cs.tuscQ ++ List.replicate cfg.dreamK idx
              log := .dreamCross idx :: cs.log }) := by
  obtain ⟨idx, hidx, h⟩ := bind_ok_iff.mp h
  refine ⟨idx, hidx, ?_⟩
  dsimp only at h ⊢
  split_ifs at h with hmode hth
  · cases h
    exact .inl ⟨.inl hmode, rfl⟩
  · obtain ⟨cs₁, hfold, h⟩ := bind_ok_iff.mp h
    obtain ⟨rows, hrows, rfl⟩ := foldlM_dreamInsertBank cfg.allBanks_nodup hfold
    cases h
    exact .inr ⟨hmode, hth, rows, hrows, rfl⟩
  · cases h
    exact .inl ⟨.inr (Nat.lt_of_not_le hth), rfl⟩

/-- What a counter that the banks share does in front of an activation: what it adds to its own
queue, the rows it queues in each bank, and the events it leaves. -/
structure Crossing where
  added : List ℕ := []
  rows : BankId → List ℕ := fun _ => []
  es : List Event := []

def DreamOutcome (cfg : Config) (cs : ChannelState) (idx : ℕ) (d : Crossing) : Prop :=
  let counted := { cs with tusc := Function.update cs.tusc idx (u32 (cs.tusc idx + 1)) }
  (cfg.dreamMode = 0 ∨ counted.tuscVal cfg idx < tuscThreshold cfg) ∧ d = {} ∨
    cfg.dreamMode ≠ 0 ∧ tuscThreshold cfg ≤ counted.tuscVal cfg idx ∧
      ∃ rows, DreamRows cfg cs idx cfg.allBanks rows ∧
        d = ⟨List.replicate cfg.dreamK idx, fun j => effective cfg (rows j), [.dreamCross idx]⟩

def AbacusOutcome (cfg : Config) (cs : ChannelState) (i : BankId) (row : ℕ) (a : Crossing) : Prop :=
  let rac := ((cs.abacusCount cfg i row).abacusTable row).rac
  (cfg.abacusMode = 0 ∨ rac < u32 cfg.abacusTh) ∧ a = {} ∨
    cfg.abacusMode ≠ 0 ∧ u32 cfg.abacusTh ≤ rac ∧
      a = ⟨[row], fun j => if j ∈ cfg.allBanks then effective cfg [row] else [], [.abacusCross row]⟩

/-- The ABO alert: whether it is set, since when, and for which rank. -/
def abo (cs : ChannelState) : Bool × ℕ × ℤ := (cs.alertN, cs.lastAlertClk, cs.alertRank)

/-- The CACTUS alert of a rank: as before, or just raised for a counter. -/
def Raises (cfg : Config) (cs : ChannelState) (rank : ℤ) (idx : ℕ) (cs' : ChannelState)
    (es : List Event) : Prop :=
  cs'.cactusAlertPending = cs.cactusAlertPending ∧
      cs'.cactusPendingCounterIdx = cs.cactusPendingCounterIdx ∧ es = [] ∨
    cfg.cactusMode ≠ 0 ∧ cs.cactusAlertPending rank = false ∧ cs.cactusRfmInflight rank = false ∧
      cfg.aboDelayActs ≤ cs.cactusActsSinceRfm rank ∧
      cs'.cactusAlertPending = Function.update cs.cactusAlertPending rank true ∧
      cs'.cactusPendingCounterIdx = Function.update cs.cactusPendingCounterIdx rank idx ∧
      es = [.alert rank idx]

theorem Raises.events {rank : ℤ} {idx : ℕ} {es : List Event} (h : Raises cfg cs rank idx cs' es) :
    ∀ e ∈ es, ∃ n, e = .alert rank n := by
  rcases h with ⟨_, _, rfl⟩ | ⟨_, _, _, _, _, _, rfl⟩
  · simp
  · simp

/-- Everything the hooks of an activation do, apart from the CACTUS counters. -/
structure Hooked (cfg : Config) (cs : ChannelState) (cmd : Command) (clk : ℕ) (full : Bool)
    (cs' : ChannelState) where
  dream : Crossing
  abacus : Crossing
  idx : ℕ
  hidx : cs.getTuscIdx cfg cmd.bankId (u32 cmd.row) = .ok idx
  hdream : DreamOutcome cfg cs idx dream
  habacus : AbacusOutcome cfg cs cmd.bankId (u32 cmd.row) abacus
  tusc : cs'.tusc = Function.update cs.tusc idx (u32 (cs.tusc idx + 1))
  tuscQ : cs'.tuscQ = cs.tuscQ ++ dream.added
  abacusTable : cs'.abacusTable = if cfg.abacusMode = 0 then cs.abacusTable
    else (cs.abacusCount cfg cmd.bankId (u32 cmd.row)).abacusTable
  abacusQ : cs'.abacusQ = cs.abacusQ ++ abacus.added
  banks : cs'.bankStates = fun j =>
    (Function.update cs.bankStates cmd.bankId
      ((cs.bankStates cmd.bankId).preACT cfg cmd cs.draws cs.rcc).1 j).sampled
        (dream.rows j ++ abacus.rows j)
  fixed : cs'.fixed = cs.fixed
  rfmQ : cs'.rfmQ = cs.rfmQ
  rfmCalls : cs'.rfmCalls = cs.rfmCalls
  abo : cs'.abo = cs.abo
  cidx : ℕ
  hcidx : cs.getCactusIdx cfg cmd.bankId (u32 cmd.row) = .ok cidx
  inflight : cs'.cactusRfmInflight = cs.cactusRfmInflight
  acts : cs'.cactusActsSinceRfm = cs.cactusActsSinceRfm
  log : ∃ alert inflight alerts, Raises cfg cs cmd.bankId.rank cidx cs' alerts ∧
    cs'.log = .hook cmd.bankId cmd.row clk full alert inflight ::
      (abacus.es ++ (alerts ++ (dream.es ++ cs.log)))

theorem dreamPreact_outcome {i : BankId} {rowid : ℕ} (h : cs.dreamPreact cfg i rowid = .ok cs') :
    ∃ idx d, cs.getTuscIdx cfg i rowid = .ok idx ∧ DreamOutcome cfg cs idx d ∧
      cs' = { cs.sampledAll d.rows with
        tusc := Function.update cs.tusc idx (u32 (cs.tusc idx + 1))
        tuscQ := cs.tuscQ ++ d.added
        log := d.es ++ cs.log } := by
  obtain ⟨idx, hidx, ⟨hlow, rfl⟩ | ⟨hmode, hth, rows, hrows, rfl⟩⟩ := dreamPreact_cases h
  · exact ⟨idx, {}, hidx, .inl ⟨hlow, rfl⟩, by simp [sampledAll]⟩
  · exact ⟨idx, _, hidx, .inr ⟨hmode, hth, rows, hrows, rfl⟩, rfl⟩

theorem abacusPreact_outcome (cfg : Config) (cs : ChannelState) (i : BankId) (row : ℕ) :
    ∃ a, AbacusOutcome cfg cs i row a ∧ cs.abacusPreact cfg i row =
      { cs.sampledAll a.rows with
        abacusTable := if cfg.abacusMode = 0 then cs.abacusTable
          else (cs.abacusCount cfg i row).abacusTable
        abacusQ := cs.abacusQ ++ a.added
        log := a.es ++ cs.log } := by
  by_cases hmode : cfg.abacusMode = 0
  · refine ⟨{}, .inl ⟨.inl hmode, rfl⟩, ?_⟩
    simp [abacusPreact, hmode, sampledAll]
  · rcases cs.abacusPreact_cases hmode i row with ⟨hlt, h⟩ | ⟨hge, h⟩
    · refine ⟨{}, .inl ⟨.inr hlt, rfl⟩, ?_⟩
      rw [h]
      simp [abacusCount, hmode, sampledAll]
    · refine ⟨_, .inr ⟨hmode, hge, rfl⟩, ?_⟩
      rw [h]
      simp only [abacusCount, hmode, if_false, sampledAll, List.singleton_append]
      congr 1
      funext j
      split_ifs
      · rw [BankState.insertDrfm_eq]
        rfl
      · simp

theorem preactHooks_hooked {full : Bool} (h : cs.preactHooks cfg cmd clk = .ok (full, cs')) :
    Nonempty (Hooked cfg cs cmd clk full cs') := by
  unfold preactHooks at h
  dsimp only at h
  obtain ⟨cs₁, hdream, h₁⟩ := bind_ok_iff.mp h
  obtain ⟨cs₂, hcactus, h₂⟩ := bind_ok_iff.mp h₁
  obtain ⟨cidx, hcidx, hcactus⟩ := bind_ok_iff.mp hcactus
  obtain ⟨idx, d, hidx, hd, rfl⟩ := dreamPreact_outcome hdream
  obtain ⟨a, ha, habacus⟩ := abacusPreact_outcome cfg cs₂ cmd.bankId (u32 cmd.row)
  rw [habacus] at h₂
  cases h₂
  have hcs₂ := (Except.ok.inj hcactus).symm
  have hbanks (j : BankId) := BankState.sampled_sampled
    (Function.update cs.bankStates cmd.bankId
      ((cs.bankStates cmd.bankId).preACT cfg cmd cs.draws cs.rcc).1 j) (d.rows j) (a.rows j)
  obtain ⟨m, hc | ⟨hmode, hquiet, hfree, hacts, hc⟩⟩ := cactusCount_eq cfg _ clk cmd.bankId.rank cidx
  all_goals
    rw [hc] at hcs₂
    subst hcs₂
    refine ⟨⟨d, a, idx, hidx, hd, ha, rfl, rfl, rfl, rfl, funext hbanks, rfl, rfl, rfl, rfl, cidx,
      hcidx, rfl, rfl, ?_⟩⟩
  · exact ⟨_, _, [], .inl ⟨rfl, rfl, rfl⟩, rfl⟩
  · exact ⟨_, _, [_], .inr ⟨hmode, hquiet, hfree, hacts, rfl, rfl, rfl⟩, rfl⟩

/-- A channel that has marked a bank and queued its DRFM, unless one for its target waits. -/
def launched (cfg : Config) (cs : ChannelState) (cmd : Command) : ChannelState :=
  { cs.modifyBank cmd.bankId BankState.markDRFMIssued with
    rfmQ := if cs.rfmQ.any (rfmTarget (drfmRequest cfg cmd)) then cs.rfmQ
      else cs.rfmQ ++ [drfmRequest cfg cmd]
    rfmCalls := .launch cmd.bankId (cs.rfmQ.filter (rfmTarget (drfmRequest cfg cmd))) :: cs.rfmCalls }

theorem launchDRFM_exact (h : cs.launchDRFM cfg cmd = .ok cs') :
    (cfg.drfmMode = 1 ∨ cfg.drfmMode = 2 ∨ cfg.drfmMode = 3) ∧ cs' = cs.launched cfg cmd := by
  have hneed {req : Command} {target : Command → Bool} (hreq : drfmRequest cfg cmd = req)
      (htarget : target = rfmTarget req) :
      ((cs.modifyBank cmd.bankId BankState.markDRFMIssued).recordRfm (.launch cmd.bankId
        (cs.rfmQ.filter (rfmTarget (drfmRequest cfg cmd))))).needRFM req target true =
          cs.launched cfg cmd := by
    subst hreq htarget
    cases hany : cs.rfmQ.any (rfmTarget (drfmRequest cfg cmd)) <;>
      simp [needRFM, launched, modifyBank, recordRfm, hany]
  unfold launchDRFM at h
  dsimp only at h
  split_ifs at h with h₁ h₂ h₃ <;> cases h
  · exact ⟨.inl h₁, hneed (by simp [drfmRequest, h₁]) rfl⟩
  · exact ⟨.inr (.inl h₂), hneed (by simp [drfmRequest, h₂]) rfl⟩
  · exact ⟨.inr (.inr h₃), hneed (by simp [drfmRequest, h₁, h₂]) rfl⟩

end ChannelState

/-- What a step can do to the tables of a bank: at most the DRFM mark changes, or the trackers run
for an activation, or the bank sees a command. -/
inductive BankMove (cfg : Config) (b b' : BankState) : Prop
  | keep {issued : Bool} (h : b'.tables = { b.tables with drfmIssued := issued })
  | preact {cmd : Command} {draws : List ℕ} {rcc : LRUCache} {issued : Bool}
      (hrow : ∃ row : ℕ, row < cfg.rows ∧ cmd.row = row)
      (h : b'.tables = { (b.preACT cfg cmd draws rcc).1.tables with drfmIssued := issued })
  | serve {cmd : Command} {b₁ : BankState} (hs : b.updateState cfg cmd = .ok b₁)
      (h : b'.tables = b₁.tables)

theorem BankMove.refl {cfg : Config} (b : BankState) : BankMove cfg b b :=
  .keep (show b.tables = { b.tables with drfmIssued := b.drfmIssued } from rfl)

namespace ChannelState
variable {cfg : Config} {cs cs' cs₁ : ChannelState} {cmd : Command} {clk : ℕ} {origin : Origin}

theorem needRFM_bankStates (req : Command) (target : Command → Bool) (need : Bool) :
    (cs.needRFM req target need).bankStates = cs.bankStates := by
  unfold needRFM
  split_ifs <;> rfl

theorem needRFM_rfmQ (req : Command) (target : Command → Bool) :
    (cs.needRFM req target true).rfmQ =
      if cs.rfmQ.any target then cs.rfmQ else cs.rfmQ ++ [req] := by
  unfold needRFM
  rw [if_pos rfl]
  split_ifs <;> rfl

theorem launchDRFM_tables (h : cs.launchDRFM cfg cmd = .ok cs') (i : BankId) :
    (cs'.bankStates i).tables = { (cs.bankStates i).tables with
      drfmIssued := i = cmd.bankId || (cs.bankStates i).drfmIssued } := by
  rw [(launchDRFM_exact h).2, launched]
  by_cases hi : i = cmd.bankId
  · subst hi
    simp [modifyBank, BankState.markDRFMIssued, BankState.tables]
  · simp [modifyBank, hi, BankState.tables]

/-- The hooks run the trackers of one bank. -/
theorem Hooked.tables {full : Bool} (h : Hooked cfg cs cmd clk full cs') (i : BankId) :
    (cs'.bankStates i).tables = if i = cmd.bankId then
        ((cs.bankStates i).preACT cfg cmd cs.draws cs.rcc).1.tables
      else (cs.bankStates i).tables := by
  rw [h.banks]
  by_cases hi : i = cmd.bankId
  · subst hi
    simp
  · simp [hi]

theorem Hooked.bankMove {full : Bool} (h : Hooked cfg cs cmd clk full cs')
    (hrow : ∃ row : ℕ, row < cfg.rows ∧ cmd.row = row) (i : BankId) {b' : BankState} {issued : Bool}
    (hb : b'.tables = { (cs'.bankStates i).tables with drfmIssued := issued }) :
    BankMove cfg (cs.bankStates i) b' := by
  rw [h.tables i] at hb
  split_ifs at hb
  · exact .preact hrow hb
  · exact .keep hb

/-- Only a queued READ or WRITE makes a bank ask for its activation. -/
theorem inRange_of_activate (hreg : Regular cfg cs) (ha : Chan.Asks cfg cs cmd origin) {clk : ℕ}
    (hb : (cs.bankStates cmd.bankId).getReadyCommand cfg cmd clk = .ok (some (activation cmd))) :
    cfg.InRange cmd.addr := by
  obtain ⟨ty, hty, _, heq⟩ := BankState.getReadyCommand_some_iff.mp hb
  obtain rfl : ty = .activate := (congrArg Command.cmdType heq).symm
  have ho := ha.origin_of_isReadWrite hreg (BankState.isReadWrite_of_requires_activate hty)
  subst ho
  cases ha with
  | demand _ haddr =>
    rw [haddr]
    exact cfg.addressMapping_inRange cmd.hexAddr

theorem Answer.bankMove (hreg : Regular cfg cs) (ha : Chan.Asks cfg cs cmd origin)
    {r? : Option Command} (h : Answer cfg cs cmd clk r? cs') (i : BankId) :
    BankMove cfg (cs.bankStates i) (cs'.bankStates i) := by
  cases h with
  | wait | divert | allReady | single => exact .refl _
  | needRFMsb =>
    rw [banksetNeedRFM, needRFM_bankStates]
    exact .refl _
  | needRFMab =>
    rw [rankNeedRFM, needRFM_bankStates]
    exact .refl _
  | eager _ _ h _ => exact .keep (launchDRFM_tables h i)
  | hydraWait h =>
    obtain ⟨_, _, _, rfl⟩ := hydraCheck_eq h
    exact .refl _
  | lazy _ hcheck hhook h hb =>
    obtain ⟨_, _, _, rfl⟩ := hydraCheck_eq hcheck
    obtain ⟨hh⟩ := preactHooks_hooked hhook
    exact hh.bankMove (inRange_of_activate hreg ha hb).row i (launchDRFM_tables h i)
  | activate _ hcheck hhook hb =>
    obtain ⟨_, _, _, rfl⟩ := hydraCheck_eq hcheck
    obtain ⟨hh⟩ := preactHooks_hooked hhook
    have hkeep : (cs'.bankStates i).tables =
        { (cs'.bankStates i).tables with drfmIssued := (cs'.bankStates i).drfmIssued } := rfl
    exact hh.bankMove (inRange_of_activate hreg ha hb).row i hkeep

theorem clockTick_bankStates : (cs.clockTick cfg clk).bankStates = cs.bankStates :=
  clockTick_keeps (·.bankStates) (fun _ _ => needRFM_bankStates _ _ _) (fun _ _ => rfl) (fun _ => rfl)
    fun _ _ _ => rfl

end ChannelState

namespace Chan
open ChannelState
variable {cfg : Config} {π : Micro.Policy} {v v' : Chan}

theorem Step.bankMove (hv : Ready cfg v) (h : Step cfg π v v') (i : BankId) :
    BankMove cfg (v.cs.bankStates i) (v'.cs.bankStates i) := by
  cases h with
  | environment | requestRefresh | drop | tock => exact .refl _
  | tick =>
    dsimp only
    rw [clockTick_bankStates]
    exact .refl _
  | query hs h => exact h.bankMove hv.regular hs i
  | pick _ hs _ h => exact h.bankMove hv.regular hs i
  | hydraQuery h =>
    obtain ⟨⟨_, _, _, rfl⟩, _⟩ := getReadyHydraCommand_eq h
    exact .refl _
  | pickHydra _ h =>
    obtain ⟨⟨_, _, _, rfl⟩, _⟩ := getReadyHydraCommand_eq h
    exact .refl _
  | @issue _ _ p _ _ h =>
    obtain ⟨b, hin, hout, hb, _⟩ := (updateTimingAndStates_issued h).tables i
    by_cases hi : i ∈ covered cfg p.cmd
    · exact .serve (hin hi) hb
    · obtain rfl := hout hi
      exact .keep hb

end Chan
/-- A hook for the row of the bank. -/
def Event.hooks (i : BankId) (row : ℤ) : Event → Bool
  | .hook j r _ _ _ _ => j = i && r = row
  | _ => false

/-- A command that may reset the table of the bank, or that mitigates the row. -/
def Event.resets (cfg : Config) (i : BankId) (row : ℕ) : Event → Bool
  | .issue cmd _ _ found => i ∈ ChannelState.covered cfg cmd &&
      (cmd.isRefresh || cmd.isDRFM && (found i).drfmMitig.1 = some row)
  | _ => false

end CactusDram

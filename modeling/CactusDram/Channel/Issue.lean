import CactusDram.Channel.Query

/-! What an issued command changes: the row buffer and earliest issue times of each bank, the
maintenance queues, and the history. -/
namespace CactusDram
open Foundations

namespace BankState
variable {cfg : Config} {b b' : BankState} {cmd : Command}

/-- The row buffer of a bank. -/
structure Face where
  state : State
  openRow : ℤ
  cmdTiming : CommandType → ℕ

def face (b : BankState) : Face := ⟨b.state, b.openRow, b.cmdTiming⟩

/-- What the trackers of a bank hold, apart from the sampler. -/
structure Tables where
  drfmIssued : Bool
  mintRows : List ℕ
  grapheneQ : List GrapheneQEntry
  grapheneSpillCounter : ℕ
  grapheneEntries : ℕ
  hydraGct : ℕ → ℕ
  hydraGctValid : ℕ → Bool
  hydraCounts : ℕ → ℕ
  numRowsPerGct : ℕ

def tables (b : BankState) : Tables :=
  ⟨b.drfmIssued, b.mintRows, b.grapheneQ, b.grapheneSpillCounter, b.grapheneEntries, b.hydraGct,
    b.hydraGctValid, b.hydraCounts, b.numRowsPerGct⟩

theorem face_eq_of_core (h : b'.toBankCore = b.toBankCore) : b'.face = b.face := by
  simp [face, h]

@[simp] theorem refreshRow_face (rowid : ℕ) : (b.refreshRow rowid).face = b.face := rfl

@[simp] theorem refreshRow_tables (rowid : ℕ) : (b.refreshRow rowid).tables = b.tables := rfl

@[simp] theorem cactusMitig_face (aggressor : ℕ) : (b.cactusMitig cfg aggressor).face = b.face := by
  simp only [cactusMitig, apply_ite face, refreshRow_face, ite_self]

@[simp] theorem cactusMitig_tables (aggressor : ℕ) :
    (b.cactusMitig cfg aggressor).tables = b.tables := by
  simp only [cactusMitig, apply_ite tables, refreshRow_tables, ite_self]

/-- Serving a sampled row changes the sampler only. -/
theorem drfmMitig_eq (b : BankState) : ∃ q, b.drfmMitig.2 = { b with drfmQ := q } := by
  unfold drfmMitig
  dsimp only
  split <;> exact ⟨_, rfl⟩

@[simp] theorem drfmMitig_core : b.drfmMitig.2.toBankCore = b.toBankCore := by
  obtain ⟨q, hq⟩ := b.drfmMitig_eq
  rw [hq]

@[simp] theorem samplerMitig_core (mode : ℤ) : (b.samplerMitig mode).toBankCore = b.toBankCore := by
  unfold samplerMitig
  split_ifs
  · rfl
  · exact drfmMitig_core

/-- Mitigating the register row changes activation counts and the register only. -/
theorem moatMitig_eq (b : BankState) (cfg : Config) :
    ∃ prac m, b.moatMitig cfg = { b with prac := prac, moatMaxPracIdx := m } := by
  unfold moatMitig
  split
  · exact ⟨_, _, rfl⟩
  · split <;> exact ⟨_, _, rfl⟩

@[simp] theorem grapheneMitig_core : (b.grapheneMitig cfg).toBankCore = b.toBankCore := by
  unfold grapheneMitig
  split_ifs
  · rfl
  · exact drfmMitig_core

@[simp] theorem hydraMitig_core : (b.hydraMitig cfg).toBankCore = b.toBankCore := by
  have h := drfmMitig_core (b := b)
  unfold hydraMitig
  split_ifs
  · rfl
  · split <;> rename_i heq <;> rw [heq] at h <;> exact h

@[simp] theorem rfmSbServed_face : (b.rfmSbServed cfg).face = b.face := rfl

theorem rfmAbServed_eq (b : BankState) (cfg : Config) : ∃ prac m raa,
    b.rfmAbServed cfg = { b with prac := prac, moatMaxPracIdx := m, raaCtr := raa } := by
  obtain ⟨prac, m, h⟩ := b.moatMitig_eq cfg
  exact ⟨prac, m, _, congrArg (rfmSbServed cfg) h⟩

@[simp] theorem rfmAbServed_face : (b.rfmAbServed cfg).face = b.face := by
  obtain ⟨_, _, _, h⟩ := b.rfmAbServed_eq cfg
  rw [h]
  rfl

/-- The mitigations of all trackers leave the bank itself alone. -/
theorem trackersMitig_core : ((((((b.dreamMitig cfg).mintMitig cfg).paraMitig cfg).grapheneMitig
    cfg).hydraMitig cfg).abacusMitig cfg).toBankCore = b.toBankCore := by
  simp [dreamMitig, mintMitig, paraMitig, abacusMitig]

@[simp] theorem drfmServed_face : (b.drfmServed cfg).face = b.face := by
  unfold drfmServed
  dsimp only
  rw [rfmAbServed_face]
  exact face_eq_of_core trackersMitig_core

@[simp] theorem grapheneRefresh_core : (b.grapheneRefresh cfg).toBankCore = b.toBankCore := by
  unfold grapheneRefresh
  split_ifs <;> rfl

@[simp] theorem hydraRefresh_core : (b.hydraRefresh cfg).toBankCore = b.toBankCore := by
  unfold hydraRefresh
  split_ifs <;> rfl

/-- A refresh of the trackers leaves the sampler alone. -/
theorem trackersRefresh_sampler (b : BankState) (cfg : Config) :
    ((b.grapheneRefresh cfg).hydraRefresh cfg).drfmQ = b.drfmQ ∧
      ((b.grapheneRefresh cfg).hydraRefresh cfg).drfmIssued = b.drfmIssued := by
  unfold hydraRefresh grapheneRefresh
  split_ifs <;> exact ⟨rfl, rfl⟩

@[simp] theorem grapheneRefresh_face : (b.grapheneRefresh cfg).face = b.face :=
  face_eq_of_core grapheneRefresh_core

@[simp] theorem hydraRefresh_face : (b.hydraRefresh cfg).face = b.face :=
  face_eq_of_core hydraRefresh_core

@[simp] theorem moatRefresh_face : (b.moatRefresh cfg).face = b.face := by
  unfold moatRefresh
  split_ifs <;> rfl

@[simp] theorem pracRefresh_face : (b.pracRefresh cfg).face = b.face := rfl

@[simp] theorem refreshed_face : (b.refreshed cfg).face = b.face := by
  unfold refreshed
  dsimp only
  split_ifs
  · rw [pracRefresh_face, moatRefresh_face, hydraRefresh_face, grapheneRefresh_face]
    rfl
  · rfl

theorem activated_face : (b.activated cfg cmd).face = ⟨.open, cmd.row, b.cmdTiming⟩ := by
  unfold activated moatAct drfmPostAct
  dsimp only
  split_ifs <;> dsimp only <;> split <;> rfl

/-- The row buffer after a command that is legal in it. -/
theorem updateState_face (h : b.updateState cfg cmd = .ok b') :
    b'.face = b.face ∧ b.state = .open ∧ (cmd.cmdType = .read ∨ cmd.cmdType = .write) ∨
      b'.face = { b.face with state := .closed, openRow := -1 } ∧ b.state = .open ∧
        (cmd.cmdType = .readPrecharge ∨ cmd.cmdType = .writePrecharge ∨ cmd.cmdType = .precharge ∨
          cmd.cmdType = .preAb ∨ cmd.cmdType = .preSb) ∨
      b'.face = b.face ∧ b.state = .closed ∧
        (cmd.isRefresh ∨ cmd.isRFM ∨ cmd.isDRFM ∨ cmd.cmdType = .preAb ∨ cmd.cmdType = .preSb) ∨
      b'.face = { b.face with state := .open, openRow := cmd.row } ∧ b.state = .closed ∧
        cmd.cmdType = .activate ∨
      b'.face = { b.face with state := .sref } ∧ b.state = .closed ∧ cmd.cmdType = .srefEnter ∨
      b'.face = { b.face with state := .closed } ∧ b.state = .sref ∧ cmd.cmdType = .srefExit := by
  obtain ⟨ty, addr, hex⟩ := cmd
  unfold updateState at h
  dsimp only at h
  cases hs : b.state <;> rw [hs] at h <;> cases ty <;> cases h <;>
    simp [Command.isRefresh, Command.isRFM, Command.isDRFM, activated_face] <;>
    first
    | rfl
    | simp [face, hs]

theorem updateState_cmdTiming (h : b.updateState cfg cmd = .ok b') :
    b'.cmdTiming = b.cmdTiming := by
  have hf : b'.face.cmdTiming = b.face.cmdTiming := by
    rcases updateState_face h with ⟨h, _⟩ | ⟨h, _⟩ | ⟨h, _⟩ | ⟨h, _⟩ | ⟨h, _⟩ | ⟨h, _⟩ <;> rw [h]
  exact hf

end BankState

/-- Events an issued command can add after its own. -/
def Event.internal : Event → Bool
  | .cactusReset _ _ | .cactusMitig _ | .pendingMitig _ | .actsCleared _ | .abo _ _ _
  | .dreamMitig _ | .abacusMitig _ | .dreamReset _ _ | .abacusReset _ _ => true
  | _ => false

def Event.isAbo : Event → Bool
  | .abo _ _ _ => true
  | _ => false

namespace ChannelState
variable {cfg : Config} {cs cs' : ChannelState} {cmd : Command} {clk : ℕ} {origin : Origin}

/-- What only the constructor sets. -/
def fixed (cs : ChannelState) : (ℕ → ℕ) × (ℕ → ℕ) × (ℕ → ℕ) :=
  (cs.randomMasks, cs.cactusRowPerms, cs.cactusInvRowPerms)

/-- The bookkeeping behind an issued command keeps row buffers, tracker tables, refresh requests
and Hydra metadata, only drops RFM requests, and only adds internal events. The samplers change for
CACTUS only. -/
structure Settles (cfg : Config) (cs cs' : ChannelState) : Prop where
  face : ∀ j, (cs'.bankStates j).face = (cs.bankStates j).face
  tables : ∀ j, (cs'.bankStates j).tables = (cs.bankStates j).tables
  sampler : cfg.cactusMode = 0 → ∀ j, (cs'.bankStates j).drfmQ = (cs.bankStates j).drfmQ
  log : ∃ extra, cs'.log = extra ++ cs.log ∧ ∀ e ∈ extra, e.internal ∧ e.isAbo = false
  alert : cs'.alertN = cs.alertN ∧ cs'.lastAlertClk = cs.lastAlertClk ∧ cs'.alertRank = cs.alertRank
  refreshQ : cs'.refreshQ = cs.refreshQ
  rfmQ : cs'.rfmQ.Sublist cs.rfmQ
  hydraRdQ : cs'.hydraRdQ = cs.hydraRdQ
  hydraWbQ : cs'.hydraWbQ = cs.hydraWbQ
  hydraWbDraining : cs'.hydraWbDraining = cs.hydraWbDraining
  rankIsSref : cs'.rankIsSref = cs.rankIsSref
  fixed : cs'.fixed = cs.fixed
  shared : cs'.channel = cs.channel ∧ cs'.rcc = cs.rcc

namespace Settles

theorem refl (cs : ChannelState) : Settles cfg cs cs :=
  ⟨fun _ => rfl, fun _ => rfl, fun _ _ => rfl, ⟨[], rfl, by simp⟩,
    ⟨rfl, rfl, rfl⟩, rfl, .refl _, rfl, rfl, rfl, rfl, rfl, ⟨rfl, rfl⟩⟩

theorem trans {cs₁ cs₂ cs₃ : ChannelState} (h : Settles cfg cs₁ cs₂) (h' : Settles cfg cs₂ cs₃) :
    Settles cfg cs₁ cs₃ := by
  obtain ⟨ex, hex, hint⟩ := h.log
  obtain ⟨ex', hex', hint'⟩ := h'.log
  refine ⟨fun j => (h'.face j).trans (h.face j), fun j => (h'.tables j).trans (h.tables j),
    fun hc j => (h'.sampler hc j).trans (h.sampler hc j), ⟨ex' ++ ex, ?_, ?_⟩,
    ⟨h'.alert.1.trans h.alert.1, h'.alert.2.1.trans h.alert.2.1, h'.alert.2.2.trans h.alert.2.2⟩,
    h'.refreshQ.trans h.refreshQ, h'.rfmQ.trans h.rfmQ, h'.hydraRdQ.trans h.hydraRdQ, h'.hydraWbQ.trans h.hydraWbQ,
    h'.hydraWbDraining.trans h.hydraWbDraining, h'.rankIsSref.trans h.rankIsSref,
    h'.fixed.trans h.fixed, h'.shared.1.trans h.shared.1, h'.shared.2.trans h.shared.2⟩
  · rw [hex', hex, List.append_assoc]
  · intro e he
    rcases List.mem_append.mp he with he | he
    · exact hint' e he
    · exact hint e he

end Settles

theorem settles_needRFM (req : Command) (target : Command → Bool) :
    Settles cfg cs (cs.needRFM req target false) :=
  ⟨fun _ => rfl, fun _ => rfl, fun _ _ => rfl, ⟨[], rfl, by simp⟩,
    ⟨rfl, rfl, rfl⟩, rfl, List.eraseP_sublist, rfl, rfl, rfl, rfl, rfl, ⟨rfl, rfl⟩⟩

theorem settles_dreamRefresh (reset : Bool) : Settles cfg cs (cs.dreamRefresh cfg reset) := by
  unfold dreamRefresh
  dsimp only
  split_ifs
  · exact ⟨fun _ => rfl, fun _ => rfl, fun _ _ => rfl, ⟨[], rfl, by simp⟩, ⟨rfl, rfl, rfl⟩, rfl,
      .refl _, rfl, rfl, rfl, rfl, rfl, ⟨rfl, rfl⟩⟩
  · exact ⟨fun _ => rfl, fun _ => rfl, fun _ _ => rfl, ⟨[_], rfl, by simp [Event.internal, Event.isAbo]⟩,
      ⟨rfl, rfl, rfl⟩, rfl, .refl _, rfl, rfl, rfl, rfl, rfl, ⟨rfl, rfl⟩⟩
  · exact .refl cs

theorem settles_cactusRefresh (rank : ℤ) (reset : Bool) :
    Settles cfg cs (cs.cactusRefresh cfg rank reset) := by
  unfold cactusRefresh
  dsimp only
  split_ifs
  · exact .refl cs
  all_goals
    exact ⟨fun _ => rfl, fun _ => rfl, fun _ _ => rfl, ⟨[_], rfl, by simp [Event.internal, Event.isAbo]⟩,
      ⟨rfl, rfl, rfl⟩, rfl, .refl _, rfl, rfl, rfl, rfl, rfl, ⟨rfl, rfl⟩⟩

theorem settles_abacusRefresh (reset : Bool) : Settles cfg cs (cs.abacusRefresh cfg reset) := by
  unfold abacusRefresh
  dsimp only
  split_ifs
  · exact .refl cs
  · exact ⟨fun _ => rfl, fun _ => rfl, fun _ _ => rfl, ⟨[_], rfl, by simp [Event.internal, Event.isAbo]⟩,
      ⟨rfl, rfl, rfl⟩, rfl, .refl _, rfl, rfl, rfl, rfl, rfl, ⟨rfl, rfl⟩⟩

theorem settles_refreshTrackers : Settles cfg cs (cs.refreshTrackers cfg cmd) :=
  ((settles_dreamRefresh _).trans (settles_cactusRefresh _ _)).trans (settles_abacusRefresh _)

/-- Mitigating a counter refreshes rows of the rank and restarts the counter. -/
theorem cactusMitigCounter_eq {rank : ℤ} {idx : ℕ} (hmode : cfg.cactusMode ≠ 0)
    (h : cs.cactusMitigCounter cfg rank idx = .ok cs') :
    ∃ bs m, cs' = { cs with
        bankStates := bs
        cactusPrev := Function.update cs.cactusPrev idx (cs.cactus idx)
        cactus := Function.update cs.cactus idx 0
        cactusTrefMaxCounterIdx := m
        log := .cactusMitig idx :: cs.log } ∧
      ∀ j, (bs j).face = (cs.bankStates j).face ∧ (bs j).tables = (cs.bankStates j).tables := by
  unfold cactusMitigCounter at h
  rw [if_neg hmode] at h
  obtain ⟨cs₁, hfold, h⟩ := bind_ok_iff.mp h
  let P : ChannelState → Prop := fun c => ∃ bs, c = { cs with bankStates := bs } ∧
    ∀ j, (bs j).face = (cs.bankStates j).face ∧ (bs j).tables = (cs.bankStates j).tables
  have hP : P cs₁ := by
    refine foldlM_invariant (P := P) (fun c i _ c' hc hi => ?_) hfold
      ⟨_, rfl, fun _ => ⟨rfl, rfl⟩⟩
    obtain ⟨aggressor, _, hi⟩ := bind_ok_iff.mp hi
    obtain ⟨bs, rfl, hbs⟩ := hc
    cases hi
    refine ⟨_, rfl, fun j => ?_⟩
    by_cases hj : j = i
    · subst hj; simp [hbs j]
    · simp [Function.update_of_ne hj, hbs j]
  obtain ⟨bs, rfl, hbs⟩ := hP
  dsimp only at h
  split_ifs at h <;> cases h
  · exact ⟨bs, _, rfl, hbs⟩
  · exact ⟨bs, _, rfl, hbs⟩

theorem settles_cactusMitigCounter {rank : ℤ} {idx : ℕ}
    (h : cs.cactusMitigCounter cfg rank idx = .ok cs') : Settles cfg cs cs' := by
  by_cases hmode : cfg.cactusMode = 0
  · rw [cactusMitigCounter, if_pos hmode] at h
    cases h
    exact .refl cs
  · obtain ⟨bs, m, rfl, hbs⟩ := cactusMitigCounter_eq hmode h
    exact ⟨fun j => (hbs j).1, fun j => (hbs j).2, fun h => absurd h hmode,
      ⟨[_], rfl, by simp [Event.internal, Event.isAbo]⟩,
      ⟨rfl, rfl, rfl⟩, rfl, .refl _, rfl, rfl, rfl, rfl, rfl, ⟨rfl, rfl⟩⟩

theorem settles_clearPending (rank : ℤ) : Settles cfg cs (cs.clearPending rank) :=
  ⟨fun _ => rfl, fun _ => rfl, fun _ _ => rfl, ⟨[_], rfl, by simp [Event.internal, Event.isAbo]⟩,
      ⟨rfl, rfl, rfl⟩, rfl, .refl _, rfl, rfl, rfl, rfl, rfl, ⟨rfl, rfl⟩⟩

theorem settles_clearInflight (rank : ℤ) : Settles cfg cs (cs.clearInflight rank) :=
  ⟨fun _ => rfl, fun _ => rfl, fun _ _ => rfl, ⟨[_], rfl, by simp [Event.internal, Event.isAbo]⟩,
      ⟨rfl, rfl, rfl⟩, rfl, .refl _, rfl, rfl, rfl, rfl, rfl, ⟨rfl, rfl⟩⟩

theorem settles_clearAlert (rank : ℤ) : Settles cfg cs (cs.clearAlert rank) :=
  ⟨fun _ => rfl, fun _ => rfl, fun _ _ => rfl, ⟨[], rfl, by simp⟩,
    ⟨rfl, rfl, rfl⟩, rfl, .refl _, rfl, rfl, rfl, rfl, rfl, ⟨rfl, rfl⟩⟩

theorem settles_cactusMitig {rank : ℤ} (h : cs.cactusMitig cfg rank = .ok cs') :
    Settles cfg cs cs' := by
  unfold cactusMitig at h
  split_ifs at h
  · cases h; exact .refl cs
  · cases h; exact .refl cs
  · obtain ⟨cs₁, h₁, h⟩ := bind_ok_iff.mp h
    cases h
    exact (settles_cactusMitigCounter h₁).trans (settles_clearPending rank)

theorem settles_cactusTrefMitig {rank : ℤ} (h : cs.cactusTrefMitig cfg rank = .ok cs') :
    Settles cfg cs cs' := by
  unfold cactusTrefMitig at h
  split_ifs at h
  · cases h; exact .refl cs
  · cases h; exact .refl cs
  · cases h; exact .refl cs
  · obtain ⟨cs₁, h₁, h⟩ := bind_ok_iff.mp h
    cases h
    exact (((settles_cactusMitig h₁).trans (settles_clearAlert rank)).trans
      (settles_clearInflight rank)).trans (settles_needRFM _ _)

theorem settles_cactusTrefMaxMitig {rank : ℤ} (h : cs.cactusTrefMaxMitig cfg rank = .ok cs') :
    Settles cfg cs cs' := by
  have hcount (f : ℤ → ℤ) : Settles cfg cs { cs with cactusTrefRefabCount := f } :=
    ⟨fun _ => rfl, fun _ => rfl, fun _ _ => rfl, ⟨[], rfl, by simp⟩,
      ⟨rfl, rfl, rfl⟩, rfl, .refl _, rfl, rfl, rfl, rfl, rfl, ⟨rfl, rfl⟩⟩
  unfold cactusTrefMaxMitig at h
  dsimp only at h
  split_ifs at h
  · cases h; exact .refl cs
  · cases h; exact .refl cs
  · cases h; exact hcount _
  · cases h; exact hcount _
  · cases h; exact hcount _
  · obtain ⟨cs₁, h₁, h⟩ := bind_ok_iff.mp h
    have hs := (hcount _).trans (settles_cactusMitigCounter h₁)
    split_ifs at h
    · cases h
      exact ((hs.trans (settles_clearPending rank)).trans (settles_clearAlert rank)).trans
        ((settles_clearInflight rank).trans (settles_needRFM _ _))
    · cases h; exact hs

theorem settles_updateREFCounter (h : cs.updateREFCounter cfg cmd = .ok cs') : Settles cfg cs cs' := by
  unfold updateREFCounter at h
  dsimp only at h
  split_ifs at h <;> cases h <;>
    exact ⟨fun _ => rfl, fun _ => rfl, fun _ _ => rfl, ⟨[], rfl, by simp⟩,
      ⟨rfl, rfl, rfl⟩, rfl, .refl _, rfl, rfl, rfl, rfl, rfl, ⟨rfl, rfl⟩⟩

theorem settles_dreamMitig : Settles cfg cs (cs.dreamMitig cfg) := by
  unfold dreamMitig
  split_ifs
  · exact .refl cs
  · split
    · exact .refl cs
    · exact ⟨fun _ => rfl, fun _ => rfl, fun _ _ => rfl, ⟨[_], rfl, by simp [Event.internal, Event.isAbo]⟩,
      ⟨rfl, rfl, rfl⟩, rfl, .refl _, rfl, rfl, rfl, rfl, rfl, ⟨rfl, rfl⟩⟩

theorem settles_abacusMitig : Settles cfg cs (cs.abacusMitig cfg) := by
  unfold abacusMitig
  split_ifs
  · exact .refl cs
  · split
    · exact .refl cs
    · exact ⟨fun _ => rfl, fun _ => rfl, fun _ _ => rfl, ⟨[_], rfl, by simp [Event.internal, Event.isAbo]⟩,
      ⟨rfl, rfl, rfl⟩, rfl, .refl _, rfl, rfl, rfl, rfl, rfl, ⟨rfl, rfl⟩⟩

/-- A refresh takes its request out of the queue. -/
def dropRefresh (cs : ChannelState) (cmd : Command) : ChannelState :=
  if cmd.isRefresh then
    if cmd.isRankCMD then cs.rankNeedRefresh cmd.rank false
    else if cmd.isSbCMD then cs.banksetNeedRefresh cmd.rank cmd.bank false
    else cs.bankNeedRefresh cmd.rank cmd.bankgroup cmd.bank false
  else cs

theorem dropRefresh_eq (cs : ChannelState) (cmd : Command) : ∃ q, dropRefresh cs cmd = { cs with refreshQ := q } ∧
    q.Sublist cs.refreshQ ∧ (cmd.isRefresh = false → q = cs.refreshQ) := by
  unfold dropRefresh
  split_ifs with h
  · exact ⟨_, rfl, List.eraseP_sublist, by simp [h]⟩
  · exact ⟨_, rfl, List.eraseP_sublist, by simp [h]⟩
  · exact ⟨_, rfl, List.eraseP_sublist, by simp [h]⟩
  · exact ⟨_, rfl, .refl _, fun _ => rfl⟩

theorem dropRefresh_of_not_isRefresh (h : cmd.isRefresh = false) : dropRefresh cs cmd = cs := by
  simp [dropRefresh, h]

theorem not_isRefresh_of_isRFM (h : cmd.isRFM) : cmd.isRefresh = false := by
  obtain ⟨ty, _, _⟩ := cmd
  cases ty <;> simp_all [Command.isRFM, Command.isRefresh]

theorem not_isRefresh_of_isReadWrite (h : cmd.isReadWrite) : cmd.isRefresh = false := by
  obtain ⟨ty, _, _⟩ := cmd
  cases ty <;> simp_all [Command.isReadWrite, Command.isRead, Command.isWrite, Command.isRefresh]

theorem not_isRefresh_of_isDRFM (h : cmd.isDRFM) : cmd.isRefresh = false := by
  obtain ⟨ty, _, _⟩ := cmd
  cases ty <;> simp_all [Command.isDRFM, Command.isRefresh]

/-- The ranks in self-refresh after a command. -/
def srefAfter (cs : ChannelState) (cmd : Command) : ℤ → Bool :=
  if cmd.cmdType = .srefEnter then Function.update cs.rankIsSref cmd.rank true
  else if cmd.cmdType = .srefExit then Function.update cs.rankIsSref cmd.rank false
  else cs.rankIsSref

/-- What a command does to the channel itself, apart from the bookkeeping. -/
def taken (cs : ChannelState) (cmd : Command) : ChannelState :=
  { dropRefresh cs cmd with rankIsSref := srefAfter cs cmd }

theorem taken_eq (h : cmd.cmdType ≠ .srefEnter ∧ cmd.cmdType ≠ .srefExit) :
    taken cs cmd = dropRefresh cs cmd := by
  obtain ⟨q, hq, _⟩ := dropRefresh_eq cs cmd
  simp [taken, srefAfter, h.1, h.2, hq]

theorem not_sref_of_isRFM (h : cmd.isRFM) : cmd.cmdType ≠ .srefEnter ∧ cmd.cmdType ≠ .srefExit := by
  obtain ⟨ty, _, _⟩ := cmd
  cases ty <;> simp_all [Command.isRFM]

theorem not_sref_of_isRefresh (h : cmd.isRefresh) :
    cmd.cmdType ≠ .srefEnter ∧ cmd.cmdType ≠ .srefExit := by
  obtain ⟨ty, _, _⟩ := cmd
  cases ty <;> simp_all [Command.isRefresh]

theorem not_sref_of_isDRFM (h : cmd.isDRFM) :
    cmd.cmdType ≠ .srefEnter ∧ cmd.cmdType ≠ .srefExit := by
  obtain ⟨ty, _, _⟩ := cmd
  cases ty <;> simp_all [Command.isDRFM]

theorem not_sref_of_not_isRankCMD (h : cmd.isRankCMD = false) :
    cmd.cmdType ≠ .srefEnter ∧ cmd.cmdType ≠ .srefExit := by
  obtain ⟨ty, _, _⟩ := cmd
  cases ty <;> simp_all [Command.isRankCMD]

theorem settles_rankServed (hm : cmd.isRankCMD) (h : cs.rankServed cfg cmd = .ok cs') :
    Settles cfg (taken cs cmd) cs' := by
  unfold rankServed at h
  dsimp only at h
  split_ifs at h with hrfm _ href hdrfm henter hexit
  · rw [taken_eq (not_sref_of_isRFM hrfm), dropRefresh_of_not_isRefresh (not_isRefresh_of_isRFM hrfm)]
    obtain ⟨cs₁, h₁, h⟩ := bind_ok_iff.mp h
    cases h
    exact ((settles_needRFM _ _).trans (settles_cactusMitig h₁)).trans (settles_clearInflight _)
  · rw [taken_eq (not_sref_of_isRFM hrfm), dropRefresh_of_not_isRefresh (not_isRefresh_of_isRFM hrfm)]
    cases h
    exact settles_needRFM _ _
  · have hdrop : dropRefresh cs cmd = cs.rankNeedRefresh cmd.rank false := by
      simp [dropRefresh, href, hm]
    rw [taken_eq (not_sref_of_isRefresh href), hdrop]
    obtain ⟨cs₁, h₁, h⟩ := bind_ok_iff.mp h
    obtain ⟨cs₂, h₂, h⟩ := bind_ok_iff.mp h
    exact (settles_refreshTrackers.trans (settles_cactusTrefMitig h₁)).trans
      ((settles_cactusTrefMaxMitig h₂).trans (settles_updateREFCounter h))
  all_goals have hdrop : dropRefresh cs cmd = cs :=
    dropRefresh_of_not_isRefresh (by simpa using href)
  · rw [taken_eq (not_sref_of_isDRFM hdrfm), hdrop]
    cases h
    exact (settles_needRFM _ _).trans (settles_dreamMitig.trans settles_abacusMitig)
  · cases h
    simp only [taken, hdrop, srefAfter, henter, if_true]
    exact .refl _
  · cases h
    simp only [taken, hdrop, srefAfter, hexit, if_true]
    exact .refl _
  · cases h
    rw [taken_eq ⟨henter, hexit⟩, hdrop]
    exact .refl cs

theorem settles_banksetServed (hm : cmd.isRankCMD = false) (hs : cmd.isSbCMD)
    (h : cs.banksetServed cfg cmd = .ok cs') : Settles cfg (taken cs cmd) cs' := by
  rw [taken_eq (not_sref_of_not_isRankCMD hm)]
  unfold banksetServed at h
  unfold dropRefresh
  obtain ⟨ty, _, _⟩ := cmd
  cases ty <;> simp_all [Command.isRFM, Command.isRefresh, Command.isDRFM, Command.isSbCMD,
    Command.isRankCMD]
  · exact settles_refreshTrackers.trans (settles_updateREFCounter h)
  · cases h; exact settles_needRFM _ _
  · cases h; exact settles_needRFM _ _
  · cases h; exact .refl cs

theorem settles_bankServed (hm : cmd.isRankCMD = false) (hs : cmd.isSbCMD = false) :
    Settles cfg (taken cs cmd) (cs.bankServed cmd) := by
  rw [taken_eq (not_sref_of_not_isRankCMD hm)]
  unfold bankServed
  split_ifs with href
  · simp only [dropRefresh, href, hm, hs]
    exact .refl _
  · rw [dropRefresh_of_not_isRefresh (by simpa using href)]
    exact settles_needRFM _ _
  · rw [dropRefresh_of_not_isRefresh (by simpa using href)]
    exact .refl cs

/-- The banks of a command see it once each; bookkeeping follows. -/
theorem updateState_eq (h : cs.updateState cfg cmd = .ok cs') :
    ∃ bs, updateEach (fun b => b.updateState cfg cmd) (covered cfg cmd) cs.bankStates = .ok bs ∧
      (cmd.isRankCMD ∧ rankServed cfg { cs with bankStates := bs } cmd = .ok cs' ∨
        cmd.isRankCMD = false ∧ cmd.isSbCMD ∧
          banksetServed cfg { cs with bankStates := bs } cmd = .ok cs' ∨
        cmd.isRankCMD = false ∧ cmd.isSbCMD = false ∧
          cs' = bankServed { cs with bankStates := bs } cmd) := by
  unfold updateState at h
  unfold covered
  split_ifs at h ⊢ with hrank hsb <;>
    obtain ⟨cs₁, hbanks, h⟩ := bind_ok_iff.mp h <;>
    obtain ⟨bs, hbs, h₁⟩ := bind_ok_iff.mp hbanks <;>
    cases h₁
  · exact ⟨bs, hbs, .inl ⟨hrank, h⟩⟩
  · exact ⟨bs, hbs, .inr (.inl ⟨by simpa using hrank, hsb, h⟩)⟩
  · exact ⟨bs, hbs, .inr (.inr ⟨by simpa using hrank, by simpa using hsb, (Except.ok.inj h).symm⟩)⟩

theorem updateState_settles (h : cs.updateState cfg cmd = .ok cs') :
    ∃ bs, updateEach (fun b => b.updateState cfg cmd) (covered cfg cmd) cs.bankStates = .ok bs ∧
      Settles cfg (taken { cs with bankStates := bs } cmd) cs' := by
  obtain ⟨bs, hbs, ⟨hm, h⟩ | ⟨hm, hs, h⟩ | ⟨hm, hs, rfl⟩⟩ := updateState_eq h
  · exact ⟨bs, hbs, settles_rankServed hm h⟩
  · exact ⟨bs, hbs, settles_banksetServed hm hs h⟩
  · exact ⟨bs, hbs, settles_bankServed hm hs⟩

theorem covered_nodup (cfg : Config) (cmd : Command) : (covered cfg cmd).Nodup := by
  unfold covered
  split_ifs
  · exact cfg.rankBanks_nodup _
  · exact cfg.banksetBanks_nodup _ _
  · exact List.nodup_singleton _

/-- Earliest issue times change when delays are registered, not before. -/
theorem updateState_cmdTiming (h : cs.updateState cfg cmd = .ok cs') (i : BankId) :
    (cs'.bankStates i).cmdTiming = (cs.bankStates i).cmdTiming := by
  obtain ⟨bs, hbs, hset⟩ := updateState_settles h
  obtain ⟨hin, hout⟩ := (updateEach_ok_iff (covered_nodup cfg cmd)).mp hbs
  have hbank : (bs i).cmdTiming = (cs.bankStates i).cmdTiming := by
    by_cases hi : i ∈ covered cfg cmd
    · exact BankState.updateState_cmdTiming (hin i hi)
    · exact congrArg (·.cmdTiming) (hout i hi)
  obtain ⟨q, hq, _⟩ := dropRefresh_eq { cs with bankStates := bs } cmd
  rw [taken, hq] at hset
  exact (congrArg BankState.Face.cmdTiming (hset.face i)).trans hbank

/-- Commands other than maintenance leave the RFM queue alone. -/
theorem updateState_rfmQ (hcmd : cmd.isRefresh = false ∧ cmd.isRFM = false ∧ cmd.isDRFM = false)
    (h : cs.updateState cfg cmd = .ok cs') : cs'.rfmQ = cs.rfmQ := by
  obtain ⟨bs, _, ⟨_, h⟩ | ⟨_, _, h⟩ | ⟨_, _, rfl⟩⟩ := updateState_eq h
  · simp only [rankServed, hcmd, Bool.false_eq_true, if_false] at h
    split_ifs at h <;> cases h <;> rfl
  · simp only [banksetServed, hcmd, Bool.false_eq_true, if_false] at h
    cases h
    rfl
  · simp [bankServed, hcmd]

theorem cactusMitig_rfmQ {rank : ℤ} (h : cs.cactusMitig cfg rank = .ok cs') :
    cs'.rfmQ = cs.rfmQ := by
  unfold cactusMitig at h
  split_ifs at h with hmode
  · cases h; rfl
  · cases h; rfl
  · obtain ⟨cs₁, h₁, h⟩ := bind_ok_iff.mp h
    obtain ⟨_, _, rfl, _⟩ := cactusMitigCounter_eq hmode h₁
    cases h
    rfl

/-- An RFM or DRFM takes the first request for its target out of the queue. -/
theorem updateState_rfmQ_drop (hcmd : cmd.isRFM ∨ cmd.isDRFM)
    (h : cs.updateState cfg cmd = .ok cs') : cs'.rfmQ = cs.rfmQ.eraseP (rfmTarget cmd) := by
  obtain ⟨bs, _, ⟨hm, h⟩ | ⟨hm, hs, h⟩ | ⟨hm, hs, rfl⟩⟩ := updateState_eq h
  · have ht : rfmTarget cmd = fun c : Command => decide (c.rank = cmd.rank) := by
      funext c
      simp [rfmTarget, hm]
    rw [ht]
    unfold rankServed at h
    dsimp only at h
    split_ifs at h with hrfm _ href
    · obtain ⟨cs₁, h₁, h⟩ := bind_ok_iff.mp h
      cases h
      exact cactusMitig_rfmQ h₁
    · cases h; rfl
    · rcases hcmd with hc | hc
      · simp [not_isRefresh_of_isRFM hc] at href
      · simp [not_isRefresh_of_isDRFM hc] at href
    · cases h
      unfold dreamMitig abacusMitig
      split_ifs <;> (try split) <;> (try split) <;> rfl
    all_goals simp_all
  · have ht : rfmTarget cmd = fun c : Command => c.rank = cmd.rank && c.bank = cmd.bank := by
      funext c
      simp [rfmTarget, hm, hs]
    rw [ht]
    unfold banksetServed at h
    split_ifs at h with hrfm hdrfm
    · cases h; rfl
    · cases h; rfl
    all_goals simp_all
  · have ht : rfmTarget cmd =
        fun c : Command => c.rank = cmd.rank && c.bankgroup = cmd.bankgroup && c.bank = cmd.bank := by
      funext c
      simp [rfmTarget, hm, hs]
    rw [ht]
    have hdrfm : cmd.isDRFM := by
      refine hcmd.resolve_left fun hrfm => ?_
      obtain ⟨ty, _, _⟩ := cmd
      cases ty <;> simp_all [Command.isRFM, Command.isRankCMD, Command.isSbCMD]
    simp [bankServed, not_isRefresh_of_isDRFM hdrfm, hdrfm, bankNeedDRFM, needRFM]

/-- The ABO alert after a command on the rank: it is as before, or has just been raised. -/
def Alerts (cfg : Config) (cs : ChannelState) (rank : ℤ) (clk : ℕ) (alertN : Bool)
    (lastAlertClk : ℕ) (es : List Event) : Prop :=
  alertN = cs.alertN ∧ lastAlertClk = cs.lastAlertClk ∧ es = [] ∨
    cfg.moatMode = 1 ∧ cs.alertN = false ∧ alertN = true ∧ lastAlertClk = clk ∧
      es = [.abo rank clk cs.alertRank]

theorem Alerts.internal {rank : ℤ} {a : Bool} {t : ℕ} {es : List Event}
    (h : Alerts cfg cs rank clk a t es) : ∀ e ∈ es, e.internal := by
  rcases h with ⟨_, _, rfl⟩ | ⟨_, _, _, _, rfl⟩
  · simp
  · simp [Event.internal]

theorem triggerAlert_eq (rank : ℤ) (banks : List BankId) : ∃ a t es,
    cs.triggerAlert cfg rank banks clk =
      { cs with alertN := a, lastAlertClk := t, log := es ++ cs.log } ∧
      Alerts cfg cs rank clk a t es := by
  unfold triggerAlert raiseAlert
  split_ifs with hquiet hraise
  · exact ⟨_, _, [], rfl, .inl ⟨rfl, rfl, rfl⟩⟩
  · simp only [Bool.or_eq_true, not_or, Bool.not_eq_true] at hquiet
    have hmoat : cfg.moatMode = 1 := by
      obtain ⟨i, _, hi⟩ := List.any_eq_true.mp hraise.2
      by_contra hmoat
      simp [BankState.checkAlert, hmoat] at hi
    exact ⟨_, _, [_], rfl, .inr ⟨hmoat, hquiet.1, rfl, rfl, rfl⟩⟩
  · exact ⟨_, _, [], rfl, .inl ⟨rfl, rfl, rfl⟩⟩

theorem updateActivationTimes_eq (cfg : Config) (cs : ChannelState) (rank : ℤ) (clk : ℕ) :
    ∃ f t, cs.updateActivationTimes cfg rank clk =
    { cs with fourAw := f, thirtyTwoAw := t } := by
  unfold updateActivationTimes
  dsimp only
  split_ifs <;> exact ⟨_, _, rfl⟩

/-- The activations counted since the last RFM of each rank, after a command. -/
def actsAfter (cfg : Config) (cs : ChannelState) (cmd : Command) : ℤ → ℤ :=
  if cmd.cmdType = .activate ∧ cfg.cactusMode ≠ 0 then
    Function.update cs.cactusActsSinceRfm cmd.rank (cs.cactusActsSinceRfm cmd.rank + 1)
  else cs.cactusActsSinceRfm

theorem countAndAlert_eq (h : cs.countAndAlert cfg cmd clk = .ok cs') :
    ∃ n f t a l es, cs' = { cs with
      numActsAbo := n
      cactusActsSinceRfm := actsAfter cfg cs cmd
      fourAw := f
      thirtyTwoAw := t
      alertN := a
      lastAlertClk := l
      log := es ++ cs.log } ∧ Alerts cfg cs cmd.rank clk a l es := by
  unfold countAndAlert at h
  have hq (cs : ChannelState) (banks : List BankId) : ∃ a l es,
      cs.triggerAlert cfg cmd.rank banks clk =
        { cs with alertN := a, lastAlertClk := l, log := es ++ cs.log } ∧
        Alerts cfg cs cmd.rank clk a l es := triggerAlert_eq cmd.rank banks
  have hacts (hne : cmd.cmdType ≠ .activate) : actsAfter cfg cs cmd = cs.cactusActsSinceRfm := by
    simp [actsAfter, hne]
  simp only [triggerSameBankAlert, triggerSameRankAlert] at h
  split at h <;> rename_i hty
  · obtain ⟨f, t, hf⟩ := (cs.countActivation cfg cmd.rank).updateActivationTimes_eq cfg cmd.rank clk
    rw [hf] at h
    obtain ⟨a, l, es, ha, hes⟩ := hq _ [cmd.bankId]
    rw [ha] at h
    have hact : actsAfter cfg cs cmd = (cs.countActivation cfg cmd.rank).cactusActsSinceRfm := by
      simp [actsAfter, countActivation, hty]
    rw [hact]
    cases h
    exact ⟨_, f, t, a, l, es, rfl, hes⟩
  all_goals
    have hne : cmd.cmdType ≠ .activate := by simp [hty]
    rw [hacts hne]
    first
      | (cases h; done)
      | (cases h; exact ⟨_, _, _, _, _, [], rfl, .inl ⟨rfl, rfl, rfl⟩⟩)
      | (obtain ⟨a, l, es, ha, hes⟩ := hq _ _
         rw [ha] at h
         cases h
         exact ⟨_, _, _, a, l, es, rfl, hes⟩)

/-- Registering a delay touches neither row buffer nor trackers and lowers no earliest issue
time. -/
structure Delayed (b b' : BankState) : Prop where
  state : b'.state = b.state
  openRow : b'.openRow = b.openRow
  tables : b'.tables = b.tables
  drfmQ : b'.drfmQ = b.drfmQ
  cmdTiming : ∀ ty, b.cmdTiming ty ≤ b'.cmdTiming ty

theorem Delayed.refl (b : BankState) : Delayed b b := ⟨rfl, rfl, rfl, rfl, fun _ => le_rfl⟩

def Postpones (cs cs' : ChannelState) : Prop :=
  ∀ j, Delayed (cs.bankStates j) (cs'.bankStates j)

theorem Postpones.trans {cs₁ cs₂ cs₃ : ChannelState} (h : Postpones cs₁ cs₂)
    (h' : Postpones cs₂ cs₃) : Postpones cs₁ cs₃ := fun j =>
  ⟨(h' j).state.trans (h j).state, (h' j).openRow.trans (h j).openRow,
    (h' j).tables.trans (h j).tables, (h' j).drfmQ.trans (h j).drfmQ,
    fun ty => ((h j).cmdTiming ty).trans ((h' j).cmdTiming ty)⟩

theorem postpones_updateTiming (i : BankId) (ty : CommandType) (time : ℕ) :
    Postpones cs (cs.modifyBank i fun b => b.updateTiming ty time) := by
  intro j
  by_cases hj : j = i
  · subst hj
    have hb : ((cs.modifyBank j fun b => b.updateTiming ty time).bankStates j) =
        (cs.bankStates j).updateTiming ty time := by simp [modifyBank]
    rw [hb]
    refine ⟨rfl, rfl, rfl, rfl, fun ty' => ?_⟩
    by_cases hty : ty' = ty
    · subst hty; simp [BankState.updateTiming]
    · simp [BankState.updateTiming, Function.update_of_ne hty]
  · simpa [modifyBank, Function.update_of_ne hj] using Delayed.refl _

/-- After a list of registrations each registered delay is respected. -/
theorem applyTiming_eq (cs : ChannelState) (clk : ℕ) (updates : List TimingUpdate) :
    (∃ bs, cs.applyTiming updates clk = { cs with bankStates := bs }) ∧
      Postpones cs (cs.applyTiming updates clk) ∧
      ∀ u ∈ updates, addDelay clk u.2.2 ≤
        ((cs.applyTiming updates clk).bankStates u.1).cmdTiming u.2.1 := by
  induction updates generalizing cs with
  | nil => exact ⟨⟨_, rfl⟩, fun _ => .refl _, by simp⟩
  | cons u rest ih =>
    obtain ⟨i, ty, d⟩ := u
    obtain ⟨⟨bs, hbs⟩, hkeep, hreg⟩ :=
      ih (cs.modifyBank i fun b => b.updateTiming ty (addDelay clk d))
    refine ⟨⟨bs, hbs⟩, (postpones_updateTiming i ty _).trans hkeep, fun u hu => ?_⟩
    rcases List.mem_cons.mp hu with rfl | hu
    · refine le_trans ?_ ((hkeep i).cmdTiming ty)
      simp [modifyBank, BankState.updateTiming]
    · exact hreg u hu

/-- No other delay is registered. -/
theorem applyTiming_le {updates : List TimingUpdate} {i : BankId} {ty : CommandType} {limit : ℕ}
    (hold : (cs.bankStates i).cmdTiming ty ≤ limit)
    (hnew : ∀ u ∈ updates, u.1 = i → u.2.1 = ty → addDelay clk u.2.2 ≤ limit) :
    ((cs.applyTiming updates clk).bankStates i).cmdTiming ty ≤ limit := by
  induction updates generalizing cs with
  | nil => exact hold
  | cons u rest ih =>
    apply ih
    · by_cases hi : u.1 = i
      · subst hi
        by_cases hty : u.2.1 = ty
        · subst hty
          simpa [modifyBank, BankState.updateTiming] using
            ⟨hold, hnew u List.mem_cons_self rfl rfl⟩
        · simpa [modifyBank, BankState.updateTiming, Function.update_of_ne (Ne.symm hty)] using hold
      · simpa [modifyBank, Function.update_of_ne (Ne.symm hi)] using hold
    · exact fun u hu => hnew u (List.mem_cons_of_mem _ hu)

/-- What one issued command does to a channel. -/
structure Issued (cfg : Config) (cs : ChannelState) (cmd : Command) (clk : ℕ) (origin : Origin)
    (cs' : ChannelState) : Prop where
  legal : ∀ i ∈ covered cfg cmd, ∃ b, (cs.bankStates i).updateState cfg cmd = .ok b ∧
    (cs'.bankStates i).state = b.state ∧ (cs'.bankStates i).openRow = b.openRow
  frame : ∀ i ∉ covered cfg cmd, (cs'.bankStates i).state = (cs.bankStates i).state ∧
    (cs'.bankStates i).openRow = (cs.bankStates i).openRow
  tables : ∀ i, ∃ b, (i ∈ covered cfg cmd → (cs.bankStates i).updateState cfg cmd = .ok b) ∧
    (i ∉ covered cfg cmd → b = cs.bankStates i) ∧ (cs'.bankStates i).tables = b.tables ∧
    (cfg.cactusMode = 0 → (cs'.bankStates i).drfmQ = b.drfmQ)
  timing_mono : ∀ i ty, (cs.bankStates i).cmdTiming ty ≤ (cs'.bankStates i).cmdTiming ty
  timing : ∀ u ∈ timingUpdates cfg cmd, addDelay clk u.2.2 ≤ (cs'.bankStates u.1).cmdTiming u.2.1
  log : ∃ extra, cs'.log = extra ++ .issue cmd clk origin cs.bankStates :: cs.log ∧
    ∀ e ∈ extra, e.internal
  alert : cs'.alertRank = cs.alertRank ∧ ∃ es extra, Alerts cfg cs cmd.rank clk cs'.alertN
    cs'.lastAlertClk es ∧ (∀ e ∈ extra, e.internal ∧ e.isAbo = false) ∧
    cs'.log = es ++ (extra ++ .issue cmd clk origin cs.bankStates :: cs.log)
  refreshQ : cs'.refreshQ.Sublist cs.refreshQ
  refreshQ_eq : cmd.isRefresh = false → cs'.refreshQ = cs.refreshQ
  refreshQ_drop : cs'.refreshQ = (dropRefresh cs cmd).refreshQ
  rfmQ : cs'.rfmQ.Sublist cs.rfmQ
  rfmQ_drop : cmd.isRFM ∨ cmd.isDRFM → cs'.rfmQ = cs.rfmQ.eraseP (rfmTarget cmd)
  rfmQ_eq : cmd.isRefresh = false ∧ cmd.isRFM = false ∧ cmd.isDRFM = false → cs'.rfmQ = cs.rfmQ
  hydraRdQ : cs'.hydraRdQ = cs.hydraRdQ
  hydraWbQ : cs'.hydraWbQ = cs.hydraWbQ
  hydraWbDraining : cs'.hydraWbDraining = cs.hydraWbDraining
  rankIsSref : cs'.rankIsSref = srefAfter cs cmd
  fixed : cs'.fixed = cs.fixed
  shared : cs'.channel = cs.channel ∧ cs'.rcc = cs.rcc

theorem mem_onBanks {banks : List BankId} {delays : List (CommandType × ℤ)} {i : BankId}
    {ty : CommandType} {d : ℤ} (hi : i ∈ banks) (hd : (ty, d) ∈ delays) :
    (i, ty, d) ∈ onBanks banks delays :=
  List.mem_flatMap.mpr ⟨i, hi, List.mem_map.mpr ⟨(ty, d), hd, rfl⟩⟩

theorem updateTimingAndStates_issued
    (h : cs.updateTimingAndStates cfg cmd clk origin = .ok cs') :
    Issued cfg cs cmd clk origin cs' := by
  obtain ⟨cs₁, h₁, h⟩ := bind_ok_iff.mp h
  obtain ⟨cs₂, h₂, h⟩ := bind_ok_iff.mp h
  cases h
  obtain ⟨bs, hbs, hset⟩ := updateState_settles h₁
  have hrfmQ : cmd.isRefresh = false ∧ cmd.isRFM = false ∧ cmd.isDRFM = false →
      cs₁.rfmQ = (cs.record (.issue cmd clk origin cs.bankStates)).rfmQ :=
    fun hcmd => updateState_rfmQ hcmd h₁
  have hrfmDrop : cmd.isRFM ∨ cmd.isDRFM → cs₁.rfmQ =
      (cs.record (.issue cmd clk origin cs.bankStates)).rfmQ.eraseP (rfmTarget cmd) :=
    fun hcmd => updateState_rfmQ_drop hcmd h₁
  have hdrop : cs₁.refreshQ = (dropRefresh cs cmd).refreshQ := by
    rw [hset.refreshQ]
    unfold taken dropRefresh
    split_ifs <;> rfl
  obtain ⟨q, hq, hsub, hqeq⟩ := dropRefresh_eq
    { cs.record (.issue cmd clk origin cs.bankStates) with bankStates := bs } cmd
  unfold taken at hset
  rw [hq] at hset
  obtain ⟨hin, hout⟩ := (updateEach_ok_iff (covered_nodup cfg cmd)).mp hbs
  obtain ⟨n, f, t, a, l, es, rfl, hes⟩ := countAndAlert_eq h₂
  obtain ⟨⟨bs', hbs'⟩, hkeep, hreg⟩ := applyTiming_eq
    { cs₁ with
      numActsAbo := n
      cactusActsSinceRfm := actsAfter cfg cs₁ cmd
      fourAw := f
      thirtyTwoAw := t
      alertN := a
      lastAlertClk := l
      log := es ++ cs₁.log } clk (timingUpdates cfg cmd)
  rw [hbs'] at hkeep hreg ⊢
  have hface (i : BankId) := hset.face i
  refine ⟨fun i hi => ⟨bs i, hin i hi, ?_, ?_⟩, fun i hi => ⟨?_, ?_⟩,
    fun i => ⟨bs i, hin i, hout i, (hkeep i).tables.trans (hset.tables i),
      fun hc => (hkeep i).drfmQ.trans (hset.sampler hc i)⟩, fun i ty => ?_, hreg, ?_, ?_,
    (by rw [hset.refreshQ]; exact hsub), fun hc => hset.refreshQ.trans (hqeq hc), hdrop,
    hset.rfmQ, hrfmDrop, hrfmQ,
    hset.hydraRdQ, hset.hydraWbQ, hset.hydraWbDraining, hset.rankIsSref, hset.fixed, hset.shared⟩
  · exact (hkeep i).state.trans (congrArg BankState.Face.state (hface i))
  · exact (hkeep i).openRow.trans (congrArg BankState.Face.openRow (hface i))
  · rw [(hkeep i).state.trans (congrArg BankState.Face.state (hface i))]
    exact congrArg (·.state) (hout i hi)
  · rw [(hkeep i).openRow.trans (congrArg BankState.Face.openRow (hface i))]
    exact congrArg (·.openRow) (hout i hi)
  · refine le_trans (le_of_eq ?_) ((hkeep i).cmdTiming ty)
    exact (congrFun (updateState_cmdTiming h₁ i) ty).symm
  · obtain ⟨extra, hextra, hint⟩ := hset.log
    refine ⟨es ++ extra, ?_, fun e he => ?_⟩
    · change es ++ cs₁.log = _
      rw [hextra, List.append_assoc]
      rfl
    · rcases List.mem_append.mp he with he | he
      · exact hes.internal e he
      · exact (hint e he).1
  · obtain ⟨extra, hextra, hint⟩ := hset.log
    refine ⟨hset.alert.2.2, es, extra, ?_, hint, ?_⟩
    · have halert : cs₁.alertN = cs.alertN ∧ cs₁.lastAlertClk = cs.lastAlertClk ∧
          cs₁.alertRank = cs.alertRank := hset.alert
      unfold Alerts at hes ⊢
      rwa [halert.1, halert.2.1, halert.2.2] at hes
    · change es ++ cs₁.log = _
      rw [hextra]
      rfl

/-- An issued command delays no further than it has to. -/
theorem updateTimingAndStates_cmdTiming_le (h : cs.updateTimingAndStates cfg cmd clk origin = .ok cs')
    {i : BankId} {ty : CommandType} {limit : ℕ} (hold : (cs.bankStates i).cmdTiming ty ≤ limit)
    (hnew : ∀ u ∈ timingUpdates cfg cmd, u.1 = i → u.2.1 = ty → addDelay clk u.2.2 ≤ limit) :
    (cs'.bankStates i).cmdTiming ty ≤ limit := by
  obtain ⟨cs₁, h₁, h⟩ := bind_ok_iff.mp h
  obtain ⟨cs₂, h₂, h⟩ := bind_ok_iff.mp h
  cases h
  obtain ⟨_, _, _, _, _, _, rfl, _⟩ := countAndAlert_eq h₂
  refine applyTiming_le ?_ hnew
  change (cs₁.bankStates i).cmdTiming ty ≤ limit
  rw [updateState_cmdTiming h₁ i]
  exact hold

end ChannelState
end CactusDram

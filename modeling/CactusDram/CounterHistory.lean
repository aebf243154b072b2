import CactusDram.CactusMitigation
import CactusDram.Foundations.Epochs
import CactusDram.Samplers

/-! The CACTUS and DREAM counters under any interleaving of the calls on them, against the history
of these calls. -/
namespace CactusDram
open Foundations

/-- The counters that several banks share, and what their calls read. -/
structure Counters where
  cactus : ℕ → ℕ
  cactusPrev : ℕ → ℕ
  maxIdx : ℤ → ℤ
  tusc : ℕ → ℕ
  tuscPrev : ℕ → ℕ
  tuscQ : List ℕ
  fixed : (ℕ → ℕ) × (ℕ → ℕ) × (ℕ → ℕ)

namespace ChannelState
variable {cfg : Config} {cs cs' : ChannelState}

def counters (cs : ChannelState) : Counters where
  cactus := cs.cactus
  cactusPrev := cs.cactusPrev
  maxIdx := cs.cactusTrefMaxCounterIdx
  tusc := cs.tusc
  tuscPrev := cs.tuscPrev
  tuscQ := cs.tuscQ
  fixed := cs.fixed

def withCounters (cs : ChannelState) (n : Counters) : ChannelState :=
  { cs with
    cactus := n.cactus
    cactusPrev := n.cactusPrev
    cactusTrefMaxCounterIdx := n.maxIdx
    tusc := n.tusc
    tuscPrev := n.tuscPrev
    tuscQ := n.tuscQ
    randomMasks := n.fixed.1
    cactusRowPerms := n.fixed.2.1
    cactusInvRowPerms := n.fixed.2.2 }

@[simp] theorem withCounters_counters (cs : ChannelState) (n : Counters) :
    (cs.withCounters n).counters = n := rfl

/-- The mapping of rows to counters is set by the constructor. -/
theorem getCactusIdx_congr (h : cs'.fixed = cs.fixed) (i : BankId) (rowid : ℕ) :
    cs'.getCactusIdx cfg i rowid = cs.getCactusIdx cfg i rowid := by
  have hinv : cs'.cactusInvRowPerms = cs.cactusInvRowPerms := congrArg (·.2.2) h
  simp only [getCactusIdx, hinv]

theorem getTuscIdx_congr (h : cs'.fixed = cs.fixed) (i : BankId) (rowid : ℕ) :
    cs'.getTuscIdx cfg i rowid = cs.getTuscIdx cfg i rowid := by
  have hmasks : cs'.randomMasks = cs.randomMasks := congrArg (·.1) h
  simp only [getTuscIdx, hmasks]

/-- The counter of a rank that the max register holds after a count. -/
def maxAfter (cfg : Config) (cs : ChannelState) (rank : ℤ) (idx : ℕ) : ℤ → ℤ :=
  ((cs.cactusTrackMax cfg rank idx).counters).maxIdx

def cactusCounted (cs : ChannelState) (idx : ℕ) : ChannelState :=
  { cs with cactus := Function.update cs.cactus idx (u32 (cs.cactus idx + 1)) }

theorem cactusCount_counters (hmode : cfg.cactusMode ≠ 0) (rank : ℤ) (idx clk : ℕ) :
    (cs.cactusCount cfg rank idx clk).counters = { cs.counters with
      cactus := Function.update cs.cactus idx (u32 (cs.cactus idx + 1))
      maxIdx := (cs.cactusCounted idx).maxAfter cfg rank idx } := by
  have htrack (cs : ChannelState) : (cs.cactusTrackMax cfg rank idx).counters =
      { cs.counters with maxIdx := cs.maxAfter cfg rank idx } := by
    unfold maxAfter cactusTrackMax
    dsimp only
    split_ifs <;> rfl
  have hraise (cs : ChannelState) : (cs.cactusRaise cfg rank idx clk).counters = cs.counters := by
    unfold cactusRaise
    split_ifs <;> rfl
  unfold cactusCount
  dsimp only
  rw [if_neg hmode]
  split_ifs
  · rw [hraise]
    exact htrack (cs.cactusCounted idx)
  · exact htrack (cs.cactusCounted idx)

theorem cactusMitigCounter_counters (hmode : cfg.cactusMode ≠ 0) {rank : ℤ} {idx : ℕ}
    (h : cs.cactusMitigCounter cfg rank idx = .ok cs') :
    cs'.counters = { cs.counters with
      cactus := Function.update cs.cactus idx 0
      cactusPrev := Function.update cs.cactusPrev idx (cs.cactus idx)
      maxIdx := if cs.cactusTrefMaxCounterIdx rank = idx then
        Function.update cs.cactusTrefMaxCounterIdx rank (-1) else cs.cactusTrefMaxCounterIdx } := by
  unfold cactusMitigCounter at h
  rw [if_neg hmode] at h
  obtain ⟨cs₁, hfold, h⟩ := bind_ok_iff.mp h
  -- the walk over the banks writes banks only
  have hbanks : ∃ bs, cs₁ = { cs with bankStates := bs } := by
    refine foldlM_invariant (P := fun c => ∃ bs, c = { cs with bankStates := bs })
      (fun c i _ c' hc hi => ?_) hfold ⟨_, rfl⟩
    obtain ⟨aggressor, _, hi⟩ := bind_ok_iff.mp hi
    obtain ⟨bs, rfl⟩ := hc
    cases hi
    exact ⟨_, rfl⟩
  obtain ⟨bs, rfl⟩ := hbanks
  cases h
  dsimp only
  split_ifs <;> rfl

/-- The counters from `first` below `last`. -/
def InChunk (chunk : ℕ × ℕ) (idx : ℕ) : Prop := chunk.1 ≤ idx ∧ idx < chunk.2

instance (chunk : ℕ × ℕ) (idx : ℕ) : Decidable (InChunk chunk idx) :=
  inferInstanceAs (Decidable (_ ∧ _))

theorem cactusRefresh_counters (hmode : cfg.cactusMode ≠ 0) (rank : ℤ) :
    (cs.cactusRefresh cfg rank true).counters = { cs.counters with
      cactus := fun i => if InChunk (cs.cactusChunk cfg rank) i then 0 else cs.cactus i
      cactusPrev := fun i =>
        if InChunk (cs.cactusChunk cfg rank) i then cs.cactus i else cs.cactusPrev i
      maxIdx := if 0 ≤ cs.cactusTrefMaxCounterIdx rank ∧
          InChunk (cs.cactusChunk cfg rank) (cs.cactusTrefMaxCounterIdx rank).toNat then
        Function.update cs.cactusTrefMaxCounterIdx rank (-1) else cs.cactusTrefMaxCounterIdx } := by
  unfold cactusRefresh InChunk
  dsimp only
  simp only [hmode, Bool.not_true, Bool.false_eq_true, or_self, if_false]
  split_ifs <;> rfl

/-- The counters of the channel that one REF resets. -/
def tuscChunk (cfg : Config) (cs : ChannelState) : ℕ × ℕ :=
  let perRef := cfg.dreamReset * (tuscSize cfg / cfg.refchunks)
  let first := cs.refIdx % (cfg.refchunks / cfg.dreamReset) * perRef
  (first, first + perRef)

theorem dreamRefresh_counters (hmode : cfg.dreamMode = 1) :
    (cs.dreamRefresh cfg true).counters = { cs.counters with
      tusc := fun i => if InChunk (cs.tuscChunk cfg) i then 0 else cs.tusc i
      tuscPrev := fun i => if InChunk (cs.tuscChunk cfg) i then cs.tusc i else cs.tuscPrev i } := by
  unfold dreamRefresh InChunk tuscChunk
  simp only [hmode, one_ne_zero, false_and, if_false, true_and, if_true]
  rfl

theorem dreamPreact_counters {i : BankId} {rowid : ℕ} (h : cs.dreamPreact cfg i rowid = .ok cs') :
    ∃ idx q, cs.getTuscIdx cfg i rowid = .ok idx ∧ cs'.counters = { cs.counters with
      tusc := Function.update cs.tusc idx (u32 (cs.tusc idx + 1))
      tuscQ := q } := by
  obtain ⟨idx, d, hidx, _, rfl⟩ := dreamPreact_outcome h
  exact ⟨idx, _, hidx, rfl⟩

theorem dreamMitig_of_nil (hq : cs.tuscQ = []) : cs.dreamMitig cfg = cs := by
  unfold dreamMitig
  split_ifs
  · rfl
  · simp [hq]

theorem dreamMitig_counters (hmode : cfg.dreamMode = 1) {t : ℕ} {rest : List ℕ}
    (hq : cs.tuscQ = t :: rest) :
    (cs.dreamMitig cfg).counters = { cs.counters with
      tusc := Function.update cs.tusc t 0
      tuscPrev := Function.update cs.tuscPrev t (cs.tusc t)
      tuscQ := rest } := by
  unfold dreamMitig
  rw [if_neg (by omega)]
  simp only [hq]
  rfl

end ChannelState

/-- The calls on the shared counters, with what their callers ensure: rows and banks of the device,
counters of the rank, and a number of chunks that a refresh can divide by. `others` stands for
everything else that happens to the channel in between, the refresh pointer included. -/
inductive CounterOp (cfg : Config)
  | cactusPreact (i : BankId) (rowid clk : ℕ) (hi : i ∈ cfg.allBanks) (hrow : rowid < cfg.rows)
  | cactusRefresh (rank : ℕ) (shouldReset : Bool) (hchunks : 0 < cfg.refchunks / cfg.cactusReset)
  | cactusMitigCounter (rank idx : ℕ) (hidx : ChannelState.InRank cfg rank idx)
  | dreamPreact (i : BankId) (rowid : ℕ)
  | dreamRefresh (shouldReset : Bool)
  | dreamMitig
  | others (cs : ChannelState)

/-- What happened to the counters: calls with their arguments, the refresh pointer that a refresh
found, the index that a mitigation popped, and the times the max register of a rank was cleared. -/
inductive CounterEvent
  | cactusPreact (i : BankId) (rowid : ℕ)
  | cactusRefresh (rank refIdx : ℕ)
  | cactusMitig (idx : ℕ)
  | dreamPreact (i : BankId) (rowid : ℕ)
  | dreamRefresh (refIdx : ℕ)
  | dreamMitig (idx : ℕ)
  | maxCleared (rank : ℕ)
  deriving DecidableEq

namespace CounterOp
variable {cfg : Config}

def apply (cs : ChannelState) : CounterOp cfg → Except Exit ChannelState
  | .cactusPreact i rowid clk _ _ => cs.cactusPreact cfg i rowid clk
  | .cactusRefresh rank shouldReset _ => .ok (cs.cactusRefresh cfg rank shouldReset)
  | .cactusMitigCounter rank idx _ => cs.cactusMitigCounter cfg rank idx
  | .dreamPreact i rowid => cs.dreamPreact cfg i rowid
  | .dreamRefresh shouldReset => .ok (cs.dreamRefresh cfg shouldReset)
  | .dreamMitig => .ok (cs.dreamMitig cfg)
  | .others cs' => .ok (cs'.withCounters cs.counters)

def events (cs : ChannelState) : CounterOp cfg → List CounterEvent
  | .cactusPreact i rowid _ _ _ => [.cactusPreact i rowid]
  | .cactusRefresh rank shouldReset _ => if shouldReset then [.cactusRefresh rank cs.refIdx] else []
  | .cactusMitigCounter _ idx _ => [.cactusMitig idx]
  | .dreamPreact i rowid => [.dreamPreact i rowid]
  | .dreamRefresh shouldReset => if shouldReset then [.dreamRefresh cs.refIdx] else []
  | .dreamMitig => cs.tuscQ.head?.toList.map .dreamMitig
  | .others _ => []

/-- The max registers that the call has set to `-1`. -/
def cleared (cfg : Config) (cs cs' : ChannelState) : List CounterEvent :=
  ((List.range cfg.ranks).filter fun k : ℕ =>
    0 ≤ cs.cactusTrefMaxCounterIdx k && cs'.cactusTrefMaxCounterIdx k = -1).map .maxCleared

end CounterOp

structure CounterRun where
  cs : ChannelState
  history : List CounterEvent := []

namespace CounterRun
variable {cfg : Config}

def step (s : CounterRun) (op : CounterOp cfg) : Except Exit CounterRun := do
  let cs' ← op.apply s.cs
  .ok ⟨cs', CounterOp.cleared cfg s.cs cs' ++ (op.events s.cs ++ s.history)⟩

def run (s : CounterRun) (ops : List (CounterOp cfg)) : Except Exit CounterRun := ops.foldlM step s

def start (boot : Boot cfg) : CounterRun := { cs := boot.channelState }

end CounterRun

namespace CounterEvent
variable {cfg : Config} (boot : Boot cfg)

/-- The call counts on a CACTUS counter. -/
def countsCactus (idx : ℕ) : CounterEvent → Bool
  | .cactusPreact i rowid =>
    match boot.channelState.getCactusIdx cfg i rowid with
    | .ok n => n = idx
    | .error _ => false
  | _ => false

/-- The call resets a CACTUS counter: the loop of a refresh reaches it, or it is mitigated. -/
def resetsCactus (cfg : Config) (idx : ℕ) : CounterEvent → Bool
  | .cactusRefresh rank refIdx =>
    let rowsPerRef := cfg.cactusReset * (cfg.rows / cfg.refchunks)
    let first := rank * cfg.rows + refIdx % (cfg.refchunks / cfg.cactusReset) * rowsPerRef
    first ≤ idx && idx < first + rowsPerRef
  | .cactusMitig n => n = idx
  | _ => false

def countsDream (idx : ℕ) : CounterEvent → Bool
  | .dreamPreact i rowid =>
    match boot.channelState.getTuscIdx cfg i rowid with
    | .ok n => n = idx
    | .error _ => false
  | _ => false

def resetsDream (cfg : Config) (idx : ℕ) : CounterEvent → Bool
  | .dreamRefresh refIdx =>
    let rowsPerRef := cfg.dreamReset * (cfg.rows / cfg.dreamK / cfg.refchunks)
    let first := refIdx % (cfg.refchunks / cfg.dreamReset) * rowsPerRef
    first ≤ idx && idx < first + rowsPerRef
  | .dreamMitig n => n = idx
  | _ => false

end CounterEvent

namespace Boot
variable {cfg : Config} (boot : Boot cfg)

/-- The calls for the rows of a counter since its last reset, and in the epoch before. -/
def cactusCalls (idx : ℕ) : List CounterEvent → ℕ :=
  current (CounterEvent.countsCactus boot idx) (CounterEvent.resetsCactus cfg idx)

def cactusCallsBefore (idx : ℕ) : List CounterEvent → ℕ :=
  previous (CounterEvent.countsCactus boot idx) (CounterEvent.resetsCactus cfg idx)

def dreamCalls (idx : ℕ) : List CounterEvent → ℕ :=
  current (CounterEvent.countsDream boot idx) (CounterEvent.resetsDream cfg idx)

def dreamCallsBefore (idx : ℕ) : List CounterEvent → ℕ :=
  previous (CounterEvent.countsDream boot idx) (CounterEvent.resetsDream cfg idx)

end Boot

namespace CounterRun
open ChannelState
variable {cfg : Config} {boot : Boot cfg} {s s' : CounterRun} {op : CounterOp cfg}

/-- The tables hold what the history says, modulo the width of their words. -/
structure Recorded (boot : Boot cfg) (s : CounterRun) : Prop where
  fixed : s.cs.fixed = boot.channelState.fixed
  cactus : cfg.cactusMode ≠ 0 → Tracks (CounterEvent.countsCactus boot)
    (CounterEvent.resetsCactus cfg) (2 ^ 32) s.cs.cactus s.cs.cactusPrev s.history
  dream : cfg.dreamMode = 1 → Tracks (CounterEvent.countsDream boot)
    (CounterEvent.resetsDream cfg) (2 ^ 32) s.cs.tusc s.cs.tuscPrev s.history

theorem recorded_start (boot : Boot cfg) : Recorded boot (start boot) :=
  ⟨rfl, fun _ => tracks_nil _ _ _, fun _ => tracks_nil _ _ _⟩

/-- Every call gives the counters a next value and the history its events. -/
theorem step_ok_iff : s.step op = .ok s' ↔ ∃ cs', op.apply s.cs = .ok cs' ∧
    s' = ⟨cs', CounterOp.cleared cfg s.cs cs' ++ (op.events s.cs ++ s.history)⟩ := by
  unfold step
  rw [bind_ok_iff]
  constructor
  · rintro ⟨cs', h, hs⟩
    exact ⟨cs', h, (Except.ok.inj hs).symm⟩
  · rintro ⟨cs', h, rfl⟩
    exact ⟨cs', h, rfl⟩

theorem mem_cleared {cs cs' : ChannelState} {e : CounterEvent} (h : e ∈ CounterOp.cleared cfg cs cs') :
    ∃ k < cfg.ranks, e = .maxCleared k ∧ 0 ≤ cs.cactusTrefMaxCounterIdx k ∧
      cs'.cactusTrefMaxCounterIdx k = -1 := by
  simp only [CounterOp.cleared, List.mem_map, List.mem_filter, List.mem_range, Bool.and_eq_true,
    decide_eq_true_eq] at h
  obtain ⟨k, ⟨hk, hold, hnew⟩, rfl⟩ := h
  exact ⟨k, hk, rfl, hold, hnew⟩

/-- The CACTUS tables after a call, before the cleared registers are noted. -/
theorem Recorded.cactus_apply (hs : Recorded boot s) (hmode : cfg.cactusMode ≠ 0)
    {cs' : ChannelState} (h : op.apply s.cs = .ok cs') :
    Tracks (CounterEvent.countsCactus boot) (CounterEvent.resetsCactus cfg) (2 ^ 32)
      cs'.counters.cactus cs'.counters.cactusPrev (op.events s.cs ++ s.history) := by
  have hold := hs.cactus hmode
  cases op with
  | cactusPreact i rowid clk hi hrow =>
    obtain ⟨idx, hidx, hcount⟩ := bind_ok_iff.mp h
    cases hcount
    rw [cactusCount_counters hmode]
    apply hold.count
    · intro n
      simp only [CounterEvent.countsCactus, ← getCactusIdx_congr hs.fixed, hidx]
      simp [eq_comm]
    · exact fun _ => rfl
  | cactusRefresh rank shouldReset hchunks =>
    cases h
    cases shouldReset with
    | false =>
      have hkeep : s.cs.cactusRefresh cfg rank false = s.cs := by simp [cactusRefresh]
      rw [hkeep]
      exact hold
    | true =>
      rw [cactusRefresh_counters hmode]
      apply hold.reset
      · exact fun _ => rfl
      · exact fun n => (Bool.decide_and _ _).symm
  | cactusMitigCounter rank idx hidx =>
    rw [cactusMitigCounter_counters hmode h]
    apply hold.reset_one
    · exact fun _ => rfl
    · intro n
      simp [CounterEvent.resetsCactus, eq_comm]
  | dreamPreact i rowid =>
    obtain ⟨idx, q, _, hcounters⟩ := dreamPreact_counters h
    rw [hcounters]
    exact hold.ignore (fun _ => rfl) fun _ => rfl
  | dreamRefresh shouldReset =>
    cases h
    have hkeep : (s.cs.dreamRefresh cfg shouldReset).counters.cactus = s.cs.cactus ∧
        (s.cs.dreamRefresh cfg shouldReset).counters.cactusPrev = s.cs.cactusPrev := by
      unfold dreamRefresh
      dsimp only
      split_ifs <;> exact ⟨rfl, rfl⟩
    rw [hkeep.1, hkeep.2]
    cases shouldReset with
    | false => exact hold
    | true => exact hold.ignore (fun _ => rfl) fun _ => rfl
  | dreamMitig =>
    cases h
    have hkeep : (s.cs.dreamMitig cfg).counters.cactus = s.cs.cactus ∧
        (s.cs.dreamMitig cfg).counters.cactusPrev = s.cs.cactusPrev := by
      unfold ChannelState.dreamMitig
      split_ifs
      · exact ⟨rfl, rfl⟩
      · split <;> exact ⟨rfl, rfl⟩
    rw [hkeep.1, hkeep.2]
    apply hold.append
    intro e he n
    simp only [CounterOp.events, List.mem_map] at he
    obtain ⟨t, _, rfl⟩ := he
    exact ⟨rfl, rfl⟩
  | others cs =>
    cases h
    exact hold

/-- The DREAM tables after a call, before the cleared registers are noted. -/
theorem Recorded.dream_apply (hs : Recorded boot s) (hmode : cfg.dreamMode = 1)
    {cs' : ChannelState} (h : op.apply s.cs = .ok cs') :
    Tracks (CounterEvent.countsDream boot) (CounterEvent.resetsDream cfg) (2 ^ 32)
      cs'.counters.tusc cs'.counters.tuscPrev (op.events s.cs ++ s.history) := by
  have hold := hs.dream hmode
  cases op with
  | dreamPreact i rowid =>
    obtain ⟨idx, q, hidx, hcounters⟩ := dreamPreact_counters h
    rw [hcounters]
    apply hold.count
    · intro n
      simp only [CounterEvent.countsDream, ← getTuscIdx_congr hs.fixed, hidx]
      simp [eq_comm]
    · exact fun _ => rfl
  | dreamRefresh shouldReset =>
    cases h
    cases shouldReset with
    | false =>
      have hkeep : s.cs.dreamRefresh cfg false = s.cs := by simp [dreamRefresh]
      rw [hkeep]
      exact hold
    | true =>
      rw [dreamRefresh_counters hmode]
      apply hold.reset
      · exact fun _ => rfl
      · exact fun n => (Bool.decide_and _ _).symm
  | dreamMitig =>
    cases h
    cases hq : s.cs.tuscQ with
    | nil =>
      rw [dreamMitig_of_nil hq]
      simp only [CounterOp.events, hq]
      exact hold
    | cons t rest =>
      rw [dreamMitig_counters hmode hq]
      simp only [CounterOp.events, hq]
      apply hold.reset_one
      · exact fun _ => rfl
      · intro n
        simp [CounterEvent.resetsDream, eq_comm]
  | cactusPreact i rowid clk hi hrow =>
    obtain ⟨idx, _, hcount⟩ := bind_ok_iff.mp h
    cases hcount
    have hkeep : (s.cs.cactusCount cfg i.rank idx clk).counters.tusc = s.cs.tusc ∧
        (s.cs.cactusCount cfg i.rank idx clk).counters.tuscPrev = s.cs.tuscPrev := by
      obtain ⟨m, hc | ⟨_, _, _, _, hc⟩⟩ := s.cs.cactusCount_eq cfg clk i.rank idx <;>
        rw [hc] <;> exact ⟨rfl, rfl⟩
    rw [hkeep.1, hkeep.2]
    exact hold.ignore (fun _ => rfl) fun _ => rfl
  | cactusRefresh rank shouldReset hchunks =>
    cases h
    have hkeep : (s.cs.cactusRefresh cfg rank shouldReset).counters.tusc = s.cs.tusc ∧
        (s.cs.cactusRefresh cfg rank shouldReset).counters.tuscPrev = s.cs.tuscPrev := by
      unfold ChannelState.cactusRefresh
      dsimp only
      split_ifs <;> exact ⟨rfl, rfl⟩
    rw [hkeep.1, hkeep.2]
    cases shouldReset with
    | false => exact hold
    | true => exact hold.ignore (fun _ => rfl) fun _ => rfl
  | cactusMitigCounter rank idx hidx =>
    have hkeep : cs'.counters.tusc = s.cs.tusc ∧ cs'.counters.tuscPrev = s.cs.tuscPrev := by
      by_cases hc : cfg.cactusMode = 0
      · rw [CounterOp.apply, cactusMitigCounter, if_pos hc] at h
        cases h
        exact ⟨rfl, rfl⟩
      · rw [cactusMitigCounter_counters hc h]
        exact ⟨rfl, rfl⟩
    rw [hkeep.1, hkeep.2]
    exact hold.ignore (fun _ => rfl) fun _ => rfl
  | others cs =>
    cases h
    exact hold

theorem apply_fixed {cs cs' : ChannelState} (h : op.apply cs = .ok cs') : cs'.fixed = cs.fixed := by
  cases op with
  | cactusPreact i rowid clk hi hrow =>
    obtain ⟨idx, _, hcount⟩ := bind_ok_iff.mp h
    cases hcount
    obtain ⟨m, hc | ⟨_, _, _, _, hc⟩⟩ := cs.cactusCount_eq cfg clk i.rank idx <;> rw [hc] <;> rfl
  | cactusRefresh rank shouldReset hchunks =>
    cases h
    exact (settles_cactusRefresh _ _).fixed
  | cactusMitigCounter rank idx hidx => exact (settles_cactusMitigCounter h).fixed
  | dreamPreact i rowid =>
    obtain ⟨_, _, _, _, rfl, _⟩ := dreamPreact_eq h
    rfl
  | dreamRefresh shouldReset =>
    cases h
    exact (settles_dreamRefresh _).fixed
  | dreamMitig =>
    cases h
    exact settles_dreamMitig.fixed
  | others cs'' =>
    cases h
    rfl

theorem Recorded.step (hs : Recorded boot s) (h : s.step op = .ok s') : Recorded boot s' := by
  obtain ⟨cs', happly, rfl⟩ := step_ok_iff.mp h
  refine ⟨(apply_fixed happly).trans hs.fixed, fun hmode => ?_, fun hmode => ?_⟩
  · apply (hs.cactus_apply hmode happly).append
    intro e he n
    obtain ⟨k, _, rfl, _⟩ := mem_cleared he
    exact ⟨rfl, rfl⟩
  · apply (hs.dream_apply hmode happly).append
    intro e he n
    obtain ⟨k, _, rfl, _⟩ := mem_cleared he
    exact ⟨rfl, rfl⟩

theorem Recorded.run (hs : Recorded boot s) {ops : List (CounterOp cfg)} (h : s.run ops = .ok s') :
    Recorded boot s' :=
  foldlM_invariant (fun _ _ _ _ hs h => hs.step h) h hs

end CounterRun

/-- Whatever the interleaving of counts, REF resets and mitigations: while they fit their words, a
CACTUS counter holds the calls for its rows since its last reset, and the word next to it those of
the epoch before; and so do the counters of DREAM. -/
theorem counters_match_history (cfg : Config) (boot : Boot cfg) (ops : List (CounterOp cfg))
    (s : CounterRun) (hrun : (CounterRun.start boot).run ops = .ok s) :
    (cfg.cactusMode = 1 → ∀ idx,
      (boot.cactusCalls idx s.history < 2 ^ 32 → s.cs.cactus idx = boot.cactusCalls idx s.history) ∧
      (boot.cactusCallsBefore idx s.history < 2 ^ 32 →
        s.cs.cactusPrev idx = boot.cactusCallsBefore idx s.history)) ∧
    (cfg.dreamMode = 1 → ∀ idx,
      (boot.dreamCalls idx s.history < 2 ^ 32 → s.cs.tusc idx = boot.dreamCalls idx s.history) ∧
      (boot.dreamCallsBefore idx s.history < 2 ^ 32 →
        s.cs.tuscPrev idx = boot.dreamCallsBefore idx s.history)) := by
  have hs := (CounterRun.recorded_start boot).run hrun
  constructor
  · intro hmode idx
    have ht := hs.cactus (by omega)
    exact ⟨fun hlt => (ht.current idx).trans (Nat.mod_eq_of_lt hlt),
      fun hlt => (ht.previous idx).trans (Nat.mod_eq_of_lt hlt)⟩
  · intro hmode idx
    have ht := hs.dream hmode
    exact ⟨fun hlt => (ht.current idx).trans (Nat.mod_eq_of_lt hlt),
      fun hlt => (ht.previous idx).trans (Nat.mod_eq_of_lt hlt)⟩

/-- CACTUS on the small channel, with the greedy register. -/
def cactusConfig : Config := { smallConfig with cactusMode := 1, trefEnable := 1, trefMode := 1 }

/-- Row 1 is activated in both banks and its counter mitigated, then once more in one bank. -/
def cactusOps : List (CounterOp cactusConfig) :=
  [.cactusPreact ⟨0, 0, 0⟩ 1 0 (by decide) (by decide),
    .cactusPreact ⟨0, 0, 1⟩ 1 0 (by decide) (by decide), .cactusMitigCounter 0 1 (by decide),
    .cactusPreact ⟨0, 0, 0⟩ 1 0 (by decide) (by decide)]

theorem counters_match_history_small : ∃ s : CounterRun,
    (CounterRun.start ({} : Boot cactusConfig)).run cactusOps = .ok s ∧
    s.cs.cactus 1 = 1 ∧ s.cs.cactusPrev 1 = 2 := by
  obtain ⟨s, hrun, hs⟩ := exists_ok_of_any
    (x := (CounterRun.start ({} : Boot cactusConfig)).run cactusOps)
    (p := fun s => ({} : Boot cactusConfig).cactusCalls 1 s.history = 1 &&
      ({} : Boot cactusConfig).cactusCallsBefore 1 s.history = 2)
    (by decide +kernel)
  simp only [Bool.and_eq_true, decide_eq_true_eq] at hs
  obtain ⟨hcur, hprev⟩ := (counters_match_history _ _ _ s hrun).1 rfl 1
  rw [hs.1] at hcur
  rw [hs.2] at hprev
  exact ⟨s, hrun, hcur (by decide), hprev (by decide)⟩

end CactusDram

import CactusDram.Foundations.Histories
import CactusDram.CounterHistory
import CactusDram.Handshake

/-! CACTUS against its own history: what the counters of a channel hold, how many activations a rank
has seen since its last mitigation, and which activations went without an alert. -/
namespace CactusDram
open Foundations Relation

namespace Event
variable (cfg : Config) (cs : ChannelState)

/-- The trackers saw a row of the counter. -/
def countsCactus (idx : ℕ) : Event → Bool
  | .hook bank row _ _ _ _ => (cs.getCactusIdx cfg bank (u32 row)).toOption = some idx
  | _ => false

/-- A queued access opened a row of the counter. -/
def opensCactus (idx : ℕ) : Event → Bool
  | .issue cmd _ .demand _ =>
    cmd.cmdType = .activate && (cs.getCactusIdx cfg cmd.bankId (u32 cmd.row)).toOption = some idx
  | _ => false

def zeroesCactus (idx : ℕ) : Event → Bool
  | .cactusReset first last => first ≤ idx && idx < last
  | .cactusMitig n => n = idx
  | _ => false

def activatesRank (rank : ℤ) : Event → Bool
  | .issue cmd _ _ _ => cmd.cmdType = .activate && cmd.rank = rank
  | _ => false

def clearsActs (rank : ℤ) : Event → Bool
  | .actsCleared k => k = rank
  | _ => false

/-- The events that neither count nor clear anything. -/
def plain : Event → Bool
  | .hook _ _ _ _ _ _ | .cactusReset _ _ | .cactusMitig _ | .actsCleared _ => false
  | .issue cmd _ _ _ => cmd.cmdType ≠ .activate
  | _ => true

variable {cfg cs} {e : Event}

theorem plain_of_crossing (h : e.crossing) : e.plain := by
  cases e <;> simp_all [crossing, plain]

theorem countsCactus_of_plain (h : e.plain) (idx : ℕ) : e.countsCactus cfg cs idx = false := by
  cases e <;> simp_all [plain, countsCactus]

theorem zeroesCactus_of_plain (h : e.plain) (idx : ℕ) : e.zeroesCactus idx = false := by
  cases e <;> simp_all [plain, zeroesCactus]

theorem still_of_plain (h : e.plain) (rank : ℤ) :
    e.activatesRank rank = false ∧ e.clearsActs rank = false := by
  cases e <;> simp_all [plain, activatesRank, clearsActs]

end Event

/-- The history is read through tables that only the constructor sets. -/
theorem Event.countsCactus_congr {cfg : Config} {cs cs' : ChannelState} (h : cs'.fixed = cs.fixed) :
    countsCactus cfg cs' = countsCactus cfg cs := by
  funext idx e
  cases e with
  | hook => simp only [countsCactus, ChannelState.getCactusIdx_congr h]
  | _ => rfl

/-- The activations of a rank since CACTUS last cleared their number. -/
def rankActs (rank : ℤ) : List Event → ℕ := current (Event.activatesRank rank) (Event.clearsActs rank)

/-- How often the trackers saw a row of the counter since it was last reset. -/
def cactusHooks (cfg : Config) (cs : ChannelState) (idx : ℕ) : List Event → ℕ :=
  current (Event.countsCactus cfg cs idx) (Event.zeroesCactus idx)

/-- How often a queued access opened a row of the counter since it was last reset. -/
def cactusOpens (cfg : Config) (cs : ChannelState) (idx : ℕ) : List Event → ℕ :=
  current (Event.opensCactus cfg cs idx) (Event.zeroesCactus idx)

/-- The part of a channel that decides whether an activation raises an alert. -/
structure Books where
  cactus : ℕ → ℕ
  cactusPrev : ℕ → ℕ
  acts : ℤ → ℤ
  log : List Event

def ChannelState.books (cs : ChannelState) : Books :=
  ⟨cs.cactus, cs.cactusPrev, cs.cactusActsSinceRfm, cs.log⟩

namespace Books
variable (cfg : Config) (cs : ChannelState)

/-- The changes of the books. Counting an activation tells whether an alert is due. -/
inductive Move : Books → Books → Prop
  | note {b : Books} {e : Event} (he : e.plain) : Move b { b with log := e :: b.log }
  | count {b : Books} {bank : BankId} {row : ℤ} {clk idx : ℕ} {full alert inflight : Bool}
      (hidx : cs.getCactusIdx cfg bank (u32 row) = .ok idx)
      (hdue : u32 cfg.cactusTh ≤ u32 (b.cactus idx + 1) →
        alert ∨ inflight ∨ b.acts bank.rank < cfg.aboDelayActs) :
      Move b { b with
        cactus := Function.update b.cactus idx (u32 (b.cactus idx + 1))
        log := .hook bank row clk full alert inflight :: b.log }
  | activate {b : Books} {cmd : Command} {clk : ℕ} {origin : Origin} {found : BankId → BankState}
      (hact : cmd.cmdType = .activate) : Move b { b with
        acts := Function.update b.acts cmd.rank (b.acts cmd.rank + 1)
        log := .issue cmd clk origin found :: b.log }
  | mitigate {b : Books} (idx : ℕ) : Move b { b with
      cactus := Function.update b.cactus idx 0
      cactusPrev := Function.update b.cactusPrev idx (b.cactus idx)
      log := .cactusMitig idx :: b.log }
  | refresh {b : Books} (first last : ℕ) : Move b { b with
      cactus := fun i => if first ≤ i ∧ i < last then 0 else b.cactus i
      cactusPrev := fun i => if first ≤ i ∧ i < last then b.cactus i else b.cactusPrev i
      log := .cactusReset first last :: b.log }
  | clear {b : Books} (rank : ℤ) : Move b { b with
      acts := Function.update b.acts rank 0
      log := .actsCleared rank :: b.log }

/-- An activation that reached the threshold found an alert, an RFM in flight, or too few
activations of its rank. -/
def Caught (older : List Event) : Event → Prop
  | .hook bank row _ _ alert inflight =>
    ∃ idx, cs.getCactusIdx cfg bank (u32 row) = .ok idx ∧
      (u32 cfg.cactusTh ≤ (cactusHooks cfg cs idx older + 1) % 2 ^ 32 →
        alert ∨ inflight ∨ (rankActs bank.rank older : ℤ) < cfg.aboDelayActs)
  | _ => True

/-- The books agree with their history, in which nothing was missed. -/
structure Kept (b : Books) : Prop where
  counters : Tracks (Event.countsCactus cfg cs) Event.zeroesCactus (2 ^ 32) b.cactus b.cactusPrev b.log
  acts : ∀ rank, b.acts rank = rankActs rank b.log
  caught : AtEvery (Caught cfg cs) b.log

variable {cfg cs} {b b' : Books}

theorem Kept.move (h : Kept cfg cs b) (hm : Move cfg cs b b') : Kept cfg cs b' := by
  cases hm with
  | @note e he =>
    refine ⟨?_, fun rank => ?_, h.caught.cons ?_⟩
    · exact h.counters.ignore (Event.countsCactus_of_plain he) (Event.zeroesCactus_of_plain he)
    · obtain ⟨hact, hclear⟩ := Event.still_of_plain he rank
      rw [rankActs, current_cons_of_not_reset hclear, hact]
      exact h.acts rank
    · cases e with
      | hook => simp [Event.plain] at he
      | _ => trivial
  | @count bank row clk idx full alert inflight hidx hdue =>
    refine ⟨?_, fun rank => ?_, h.caught.cons ⟨idx, hidx, fun hth => ?_⟩⟩
    · apply h.counters.count
      · intro n
        simp [Event.countsCactus, hidx, Except.toOption, eq_comm]
      · exact fun _ => rfl
    · rw [rankActs, current_cons_of_not_reset rfl]
      exact h.acts rank
    · have hval : u32 (b.cactus idx + 1) = (cactusHooks cfg cs idx b.log + 1) % 2 ^ 32 := by
        rw [h.counters.current idx]
        simp [u32, cactusHooks]
        omega
      rw [← h.acts]
      exact hdue (hval ▸ hth)
  | @activate cmd clk origin found hact =>
    refine ⟨h.counters.ignore (fun _ => rfl) fun _ => rfl, fun rank => ?_, h.caught.cons trivial⟩
    have hold := h.acts rank
    rw [rankActs, current_cons_of_not_reset rfl]
    by_cases hrank : rank = cmd.rank
    · subst hrank
      simpa [Event.activatesRank, hact, rankActs] using hold
    · simpa [Event.activatesRank, hact, rankActs, hrank, eq_comm] using hold
  | mitigate idx =>
    refine ⟨?_, fun rank => ?_, h.caught.cons trivial⟩
    · apply h.counters.reset_one
      · exact fun _ => rfl
      · intro n
        simp [Event.zeroesCactus, eq_comm]
    · rw [rankActs, current_cons_of_not_reset rfl]
      exact h.acts rank
  | refresh first last =>
    refine ⟨?_, fun rank => ?_, h.caught.cons trivial⟩
    · apply h.counters.reset
      · exact fun _ => rfl
      · exact fun n => (Bool.decide_and _ _).symm
    · rw [rankActs, current_cons_of_not_reset rfl]
      exact h.acts rank
  | clear k =>
    refine ⟨h.counters.ignore (fun _ => rfl) fun _ => rfl, fun rank => ?_, h.caught.cons trivial⟩
    by_cases hrank : rank = k
    · subst hrank
      rw [rankActs, current_cons_of_reset (by simp [Event.clearsActs])]
      simp
    · rw [rankActs, current_cons_of_not_reset (by simpa [Event.clearsActs] using Ne.symm hrank)]
      simpa [hrank, Event.activatesRank, rankActs] using h.acts rank

theorem Kept.moves (h : Kept cfg cs b) (hm : ReflTransGen (Move cfg cs) b b') : Kept cfg cs b' := by
  induction hm with
  | refl => exact h
  | tail _ hm ih => exact ih.move hm

theorem kept_boot (boot : Boot cfg) : Kept cfg cs boot.channelState.books :=
  ⟨tracks_nil _ _ _, fun _ => rfl, atEvery_nil _⟩

/-- Noting events one by one. -/
theorem notes (cfg : Config) (cs : ChannelState) (b : Books) {es : List Event} (hes : ∀ e ∈ es, e.plain) :
    ReflTransGen (Move cfg cs) b { b with log := es ++ b.log } := by
  induction es with
  | nil => exact .refl
  | cons e es ih =>
    apply (ih fun e' he' => hes e' (List.mem_cons_of_mem e he')).tail
    exact .note (b := { b with log := es ++ b.log }) (hes e List.mem_cons_self)

end Books

namespace ChannelState
variable {cfg : Config} {cs cs' boot : ChannelState} {cmd : Command} {clk : ℕ} {rank : ℤ}

/-- The books change by moves. -/
abbrev Booked (cfg : Config) (boot cs cs' : ChannelState) : Prop :=
  ReflTransGen (Books.Move cfg boot) cs.books cs'.books

theorem needRFM_books (req : Command) (target : Command → Bool) (need : Bool) :
    (cs.needRFM req target need).books = cs.books := by
  unfold needRFM
  split_ifs <;> rfl

theorem clockTick_books : (cs.clockTick cfg clk).books = cs.books :=
  clockTick_keeps books (fun _ _ => needRFM_books _ _ _) (fun _ _ => rfl) (fun _ => rfl)
    fun _ _ _ => rfl

theorem launchDRFM_books (h : cs.launchDRFM cfg cmd = .ok cs') : cs'.books = cs.books := by
  obtain ⟨bs, q, calls, rfl, _⟩ := launchDRFM_eq h
  rfl

theorem hydraCheck_books {ok : Bool} (h : cs.hydraCheck cfg cmd = (ok, cs')) :
    cs'.books = cs.books := by
  obtain ⟨_, _, _, rfl⟩ := hydraCheck_eq h
  rfl

/-- A count notes at most an alert, and whenever it reaches the threshold the rank is alerted, waits
for its RFM, or has seen too few activations. -/
theorem cactusCount_books (hmode : cfg.cactusMode ≠ 0) (hprev : cfg.cactusPrevEnable = false)
    (cs : ChannelState) (rank : ℤ) (clk idx : ℕ) : ∃ es, (∀ e ∈ es, e.plain) ∧
      (cs.cactusCount cfg rank idx clk).books = { cs.books with
        cactus := Function.update cs.cactus idx (u32 (cs.cactus idx + 1))
        log := es ++ cs.log } ∧
      (u32 cfg.cactusTh ≤ u32 (cs.cactus idx + 1) →
        (cs.cactusCount cfg rank idx clk).cactusAlertPending rank ∨
          (cs.cactusCount cfg rank idx clk).cactusRfmInflight rank ∨
          cs.cactusActsSinceRfm rank < cfg.aboDelayActs) := by
  have htrack (cs : ChannelState) : ∃ m, cs.cactusTrackMax cfg rank idx =
      { cs with cactusTrefMaxCounterIdx := m } := by
    unfold cactusTrackMax
    dsimp only
    split_ifs <;> exact ⟨_, rfl⟩
  obtain ⟨m, hm⟩ := htrack { cs with
    cactus := Function.update cs.cactus idx (u32 (cs.cactus idx + 1)) }
  unfold cactusCount
  dsimp only
  rw [if_neg hmode, hm]
  have hval : cactusVal cfg { cs with
      cactus := Function.update cs.cactus idx (u32 (cs.cactus idx + 1))
      cactusTrefMaxCounterIdx := m } idx = u32 (cs.cactus idx + 1) := by
    simp [cactusVal, hprev]
  have hthreshold : cactusThreshold cfg = u32 cfg.cactusTh := by simp [cactusThreshold, hprev]
  rw [hval, hthreshold]
  by_cases hth : u32 cfg.cactusTh ≤ u32 (cs.cactus idx + 1)
  · rw [if_pos hth]
    unfold cactusRaise
    dsimp only
    split_ifs with hsup
    · refine ⟨[], by simp, rfl, fun _ => ?_⟩
      simpa [or_assoc] using hsup
    · refine ⟨[.alert rank idx], by simp [Event.plain], rfl, fun _ => .inl ?_⟩
      simp
  · rw [if_neg hth]
    exact ⟨[], by simp, rfl, fun h => absurd h hth⟩

/-- Running the trackers counts once, and notes crossings before and after. -/
theorem preactHooks_books (hmode : cfg.cactusMode ≠ 0) (hprev : cfg.cactusPrevEnable = false)
    (hfixed : cs.fixed = boot.fixed) {full : Bool}
    (h : cs.preactHooks cfg cmd clk = .ok (full, cs')) : Booked cfg boot cs cs' := by
  obtain ⟨s, idx, ds, as, hidx, _, hds, has, rfl⟩ := preactHooks_eq h
  obtain ⟨es, hes, hbooks, hdue⟩ :=
    cactusCount_books hmode hprev (cs.noted ds) cmd.rank clk idx
  rw [getCactusIdx_congr hfixed] at hidx
  have hcount : ∀ e ∈ as ++ (es ++ ds), e.plain := by
    simp only [List.mem_append]
    rintro e (he | he | he)
    · exact Event.plain_of_crossing (has e he)
    · exact hes e he
    · exact Event.plain_of_crossing (hds e he)
  apply (Books.notes cfg boot cs.books hcount).tail
  generalize (cs.noted ds).cactusCount cfg cmd.rank idx clk = counted at hbooks hdue ⊢
  have hlast : (((counted.withSide s).noted as).record (hookEvent counted cmd clk full)).books =
      { cs.books with
        cactus := Function.update cs.cactus idx (u32 (cs.cactus idx + 1))
        log := hookEvent counted cmd clk full :: (as ++ (es ++ ds) ++ cs.log) } := by
    change Books.mk counted.books.cactus counted.books.cactusPrev counted.books.acts
      (hookEvent counted cmd clk full :: (as ++ counted.books.log)) = _
    rw [hbooks]
    simp [noted, books]
  rw [hlast]
  exact .count hidx hdue

theorem Answer.booked (hmode : cfg.cactusMode ≠ 0) (hprev : cfg.cactusPrevEnable = false)
    (hfixed : cs.fixed = boot.fixed) {r? : Option Command} (h : Answer cfg cs cmd clk r? cs') :
    Booked cfg boot cs cs' := by
  have hhooked {cs₁ cs₂ : ChannelState} {full : Bool} (hcheck : cs.hydraCheck cfg cmd = (true, cs₁))
      (hhook : cs₁.preactHooks cfg cmd clk = .ok (full, cs₂)) : Booked cfg boot cs cs₂ := by
    have hbooks := hydraCheck_books hcheck
    obtain ⟨_, _, _, rfl⟩ := hydraCheck_eq hcheck
    unfold Booked
    rw [← hbooks]
    exact preactHooks_books hmode hprev hfixed hhook
  unfold Booked at hhooked ⊢
  cases h with
  | wait | divert | allReady | single => exact .refl
  | needRFMsb =>
    have hbooks : (cs.banksetNeedRFM cmd.rank cmd.bank true).books = cs.books := needRFM_books _ _ _
    rw [hbooks]
  | needRFMab =>
    have hbooks : (cs.rankNeedRFM cmd.rank true).books = cs.books := needRFM_books _ _ _
    rw [hbooks]
  | eager _ _ h =>
    rw [launchDRFM_books h]
  | hydraWait h =>
    rw [hydraCheck_books h]
  | lazy _ hcheck hhook h =>
    rw [launchDRFM_books h]
    exact hhooked hcheck hhook
  | activate _ hcheck hhook => exact hhooked hcheck hhook

theorem booked_cactusMitigCounter {idx : ℕ} (h : cs.cactusMitigCounter cfg rank idx = .ok cs') :
    Booked cfg boot cs cs' := by
  by_cases hmode : cfg.cactusMode = 0
  · rw [cactusMitigCounter, if_pos hmode] at h
    cases h
    exact .refl
  · obtain ⟨bs, m, rfl, _⟩ := cactusMitigCounter_eq hmode h
    exact .single (.mitigate idx)

theorem booked_clearPending (cs : ChannelState) (rank : ℤ) :
    Booked cfg boot cs (cs.clearPending rank) :=
  .single (.note rfl)

theorem booked_clearInflight (cs : ChannelState) (rank : ℤ) :
    Booked cfg boot cs (cs.clearInflight rank) :=
  .single (.clear rank)

theorem booked_cactusMitig (h : cs.cactusMitig cfg rank = .ok cs') : Booked cfg boot cs cs' := by
  unfold cactusMitig at h
  split_ifs at h
  · cases h; exact .refl
  · cases h; exact .refl
  · obtain ⟨cs₁, h₁, h⟩ := bind_ok_iff.mp h
    cases h
    exact (booked_cactusMitigCounter h₁).trans (booked_clearPending cs₁ rank)

theorem booked_cactusTrefMitig (h : cs.cactusTrefMitig cfg rank = .ok cs') :
    Booked cfg boot cs cs' := by
  unfold cactusTrefMitig at h
  split_ifs at h
  · cases h; exact .refl
  · cases h; exact .refl
  · cases h; exact .refl
  · obtain ⟨cs₁, h₁, h⟩ := bind_ok_iff.mp h
    cases h
    exact (booked_cactusMitig h₁).trans (booked_clearInflight cs₁ rank)

theorem booked_cactusTrefMaxMitig (h : cs.cactusTrefMaxMitig cfg rank = .ok cs') :
    Booked cfg boot cs cs' := by
  unfold cactusTrefMaxMitig at h
  dsimp only at h
  split_ifs at h
  any_goals
    cases h
    exact .refl
  obtain ⟨cs₁, h₁, h⟩ := bind_ok_iff.mp h
  have hmitig : Booked cfg boot _ cs₁ := booked_cactusMitigCounter h₁
  split_ifs at h
  · cases h
    exact (hmitig.trans (booked_clearPending cs₁ rank)).trans
      (booked_clearInflight (cs₁.clearPending rank) rank)
  · cases h
    exact hmitig

theorem booked_refreshTrackers (cs : ChannelState) (cmd : Command) :
    Booked cfg boot cs (cs.refreshTrackers cfg cmd) := by
  have hdream (cs : ChannelState) (reset : Bool) : Booked cfg boot cs (cs.dreamRefresh cfg reset) := by
    unfold dreamRefresh
    dsimp only
    split_ifs
    · exact .refl
    · exact .single (.note rfl)
    · exact .refl
  have hcactus (cs : ChannelState) (rank : ℤ) (reset : Bool) :
      Booked cfg boot cs (cs.cactusRefresh cfg rank reset) := by
    unfold cactusRefresh
    dsimp only
    split_ifs
    · exact .refl
    · exact .single (.refresh _ _)
    · exact .single (.refresh _ _)
  have habacus (cs : ChannelState) (reset : Bool) : Booked cfg boot cs (cs.abacusRefresh cfg reset) := by
    unfold abacusRefresh
    dsimp only
    split_ifs
    · exact .refl
    · exact .single (.note rfl)
  exact ((hdream _ _).trans (hcactus _ _ _)).trans (habacus _ _)

theorem updateREFCounter_books (h : cs.updateREFCounter cfg cmd = .ok cs') :
    cs'.books = cs.books := by
  unfold updateREFCounter at h
  dsimp only at h
  split_ifs at h <;> cases h <;> rfl

theorem booked_channelMitig (cs : ChannelState) :
    Booked cfg boot cs ((cs.dreamMitig cfg).abacusMitig cfg) := by
  have hdream : Booked cfg boot cs (cs.dreamMitig cfg) := by
    unfold dreamMitig
    split_ifs
    · exact .refl
    · split
      · exact .refl
      · exact .single (.note rfl)
  apply hdream.trans
  unfold abacusMitig
  split_ifs
  · exact .refl
  · split
    · exact .refl
    · exact .single (.note rfl)

theorem booked_updateState (h : cs.updateState cfg cmd = .ok cs') : Booked cfg boot cs cs' := by
  obtain ⟨bs, _, hserved⟩ := updateState_eq h
  have hrank (cs : ChannelState) (h : cs.rankServed cfg cmd = .ok cs') : Booked cfg boot cs cs' := by
    unfold rankServed at h
    dsimp only at h
    split_ifs at h
    · obtain ⟨cs₁, h₁, h⟩ := bind_ok_iff.mp h
      cases h
      have hmitig : Booked cfg boot _ cs₁ := booked_cactusMitig h₁
      exact hmitig.trans (booked_clearInflight cs₁ cmd.rank)
    · cases h
      exact .refl
    · obtain ⟨cs₁, h₁, h⟩ := bind_ok_iff.mp h
      obtain ⟨cs₂, h₂, h⟩ := bind_ok_iff.mp h
      unfold Booked
      rw [updateREFCounter_books h]
      have hreset : Booked cfg boot cs
          ((cs.rankNeedRefresh cmd.rank false).refreshTrackers cfg cmd) :=
        booked_refreshTrackers (cs.rankNeedRefresh cmd.rank false) cmd
      exact (hreset.trans (booked_cactusTrefMitig h₁)).trans (booked_cactusTrefMaxMitig h₂)
    · cases h
      exact booked_channelMitig (cs.rankNeedDRFM cmd.rank false)
    all_goals
      cases h
      exact .refl
  have hbankset (cs : ChannelState) (h : cs.banksetServed cfg cmd = .ok cs') :
      Booked cfg boot cs cs' := by
    unfold banksetServed at h
    split_ifs at h
    · cases h
      exact .refl
    · cases h
      exact .refl
    · unfold Booked
      rw [updateREFCounter_books h]
      exact booked_refreshTrackers (cs.banksetNeedRefresh cmd.rank cmd.bank false) cmd
    · cases h
      exact .refl
  have hbank (cs : ChannelState) : (cs.bankServed cmd).books = cs.books := by
    unfold bankServed
    split_ifs <;> rfl
  rcases hserved with ⟨_, h⟩ | ⟨_, _, h⟩ | ⟨_, _, rfl⟩
  · exact hrank { cs with bankStates := bs } h
  · exact hbankset { cs with bankStates := bs } h
  · unfold Booked
    rw [hbank]
    exact .refl

/-- An activation counts for its rank; every other command is noted and settled. -/
theorem booked_updateTimingAndStates (hmode : cfg.cactusMode ≠ 0) {origin : Origin}
    (h : cs.updateTimingAndStates cfg cmd clk origin = .ok cs') : Booked cfg boot cs cs' := by
  obtain ⟨cs₁, h₁, h⟩ := bind_ok_iff.mp h
  obtain ⟨cs₂, h₂, h⟩ := bind_ok_iff.mp h
  cases h
  obtain ⟨⟨bs, htiming⟩, _⟩ := applyTiming_eq cs₂ clk (timingUpdates cfg cmd)
  obtain ⟨n, f, t, a, l, es, rfl, hes⟩ := countAndAlert_eq h₂
  have hplain : ∀ e ∈ es, e.plain := by
    rcases hes with ⟨_, _, rfl⟩ | ⟨_, _, _, _, rfl⟩ <;> simp [Event.plain]
  rw [htiming]
  have hacts : Booked cfg boot cs { cs₁ with cactusActsSinceRfm := actsAfter cfg cs₁ cmd } := by
    by_cases hact : cmd.cmdType = .activate
    · obtain ⟨bs', _, ⟨hm, _⟩ | ⟨_, hs, _⟩ | ⟨_, _, rfl⟩⟩ := updateState_eq h₁
      · simp [Command.isRankCMD, hact] at hm
      · simp [Command.isSbCMD, hact] at hs
      · have hserved (cs : ChannelState) : cs.bankServed cmd = cs := by
          simp [bankServed, Command.isRefresh, Command.isDRFM, hact]
        rw [hserved]
        simp only [actsAfter, hact, hmode, ne_eq, not_false_eq_true, and_self, if_true]
        exact .single (.activate hact)
    · have hsame : actsAfter cfg cs₁ cmd = cs₁.cactusActsSinceRfm := by simp [actsAfter, hact]
      rw [hsame]
      have hnote : Booked cfg boot cs (cs.record (.issue cmd clk origin cs.bankStates)) :=
        .single (.note (by simpa [Event.plain] using hact))
      exact hnote.trans (booked_updateState h₁)
  exact hacts.trans (Books.notes cfg boot _ hplain)

end ChannelState
/-- A history in which every demand activation directly follows the hooks that were run for it. -/
inductive Twinned : List Event → Prop
  | nil : Twinned []
  | other {e : Event} {log : List Event} (h : Twinned log) (he : e.tracked = none) :
      Twinned (e :: log)
  | pair {a : Activation} {act hook : Event} {log : List Event} (h : Twinned log)
      (hact : act.tracked = some (.act a)) (hhook : hook.tracked = some (.hook a)) :
      Twinned (act :: hook :: log)

namespace Twinned
variable {cfg : Config} {cs : ChannelState} {log : List Event}

theorem append (h : Twinned log) {es : List Event} (hes : ∀ e ∈ es, e.tracked = none) :
    Twinned (es ++ log) := by
  induction es with
  | nil => exact h
  | cons e es ih =>
    apply Twinned.other
    · exact ih fun e' he' => hes e' (List.mem_cons_of_mem e he')
    · exact hes e List.mem_cons_self

theorem quiet (cfg : Config) (cs : ChannelState) {e : Event} (he : e.tracked = none) (idx : ℕ) :
    e.countsCactus cfg cs idx = false ∧ e.opensCactus cfg cs idx = false := by
  cases e with
  | hook => simp [Event.tracked] at he
  | issue cmd clk origin found =>
    cases origin <;> simp_all [Event.tracked, Event.countsCactus, Event.opensCactus]
  | _ => exact ⟨rfl, rfl⟩

/-- An activation and its hooks concern the same counter. -/
theorem paired (cfg : Config) (cs : ChannelState) {a : Activation} {act hook : Event}
    (hact : act.tracked = some (.act a))
    (hhook : hook.tracked = some (.hook a)) (idx : ℕ) :
    act.opensCactus cfg cs idx = hook.countsCactus cfg cs idx ∧
      act.countsCactus cfg cs idx = false ∧ hook.opensCactus cfg cs idx = false ∧
      act.zeroesCactus idx = false ∧ hook.zeroesCactus idx = false := by
  cases hook with
  | hook bank row clk full alert inflight =>
    obtain rfl : a = ⟨bank, row, clk⟩ := by simpa [Event.tracked, eq_comm] using hhook
    cases act with
    | issue cmd clk' origin found =>
      cases origin with
      | demand =>
        simp only [Event.tracked] at hact
        split_ifs at hact with hty
        simp only [Option.some.injEq, Tracked.act.injEq, Activation.mk.injEq] at hact
        obtain ⟨rfl, rfl, rfl⟩ := hact
        simp [Event.opensCactus, Event.countsCactus, Event.zeroesCactus, hty]
      | _ => simp [Event.tracked] at hact
    | _ => simp [Event.tracked] at hact
  | issue cmd clk origin found =>
    cases origin <;> simp [Event.tracked] at hhook
  | _ => simp [Event.tracked] at hhook

/-- The hooks of a counter and the activations of its rows are equally many. -/
theorem hooks_eq_opens (h : Twinned log) (idx : ℕ) :
    cactusHooks cfg cs idx log = cactusOpens cfg cs idx log := by
  induction h with
  | nil => rfl
  | @other e log _ he ih =>
    obtain ⟨hcount, hopen⟩ := quiet cfg cs he idx
    unfold cactusHooks cactusOpens at ih ⊢
    cases hreset : e.zeroesCactus idx with
    | true => rw [current_cons_of_reset hreset, current_cons_of_reset hreset]
    | false =>
      rw [current_cons_of_not_reset hreset, current_cons_of_not_reset hreset, hcount, hopen, ih]
  | @pair a act hook log _ hact hhook ih =>
    obtain ⟨hsame, hcount, hopen, hreset, hreset'⟩ := paired cfg cs hact hhook idx
    unfold cactusHooks cactusOpens at ih ⊢
    rw [current_cons_of_not_reset hreset, current_cons_of_not_reset hreset',
      current_cons_of_not_reset hreset, current_cons_of_not_reset hreset', hcount, hopen, hsame, ih]
    rfl

/-- Before an activation its hooks are found, and before them the same holds. -/
theorem before {cmd : Command} {clk : ℕ} {found : BankId → BankState} {newer older : List Event}
    (h : Twinned (newer ++ .issue cmd clk .demand found :: older)) (hact : cmd.cmdType = .activate) :
    ∃ full alert inflight rest,
      older = .hook cmd.bankId cmd.row clk full alert inflight :: rest ∧ Twinned rest := by
  generalize hlog : newer ++ .issue cmd clk .demand found :: older = log at h
  induction h generalizing newer with
  | nil => simp at hlog
  | @other e log _ he ih =>
    cases newer with
    | nil =>
      obtain ⟨rfl, rfl⟩ := List.cons.inj hlog
      simp [Event.tracked, hact] at he
    | cons _ newer => exact ih (List.cons.inj hlog).2
  | @pair a act hook log h hact' hhook ih =>
    cases newer with
    | nil =>
      obtain ⟨rfl, rfl⟩ := List.cons.inj hlog
      obtain rfl : a = ⟨cmd.bankId, cmd.row, clk⟩ := by
        simpa [Event.tracked, hact, eq_comm] using hact'
      cases hook with
      | hook bank row clk' full alert inflight =>
        simp only [Event.tracked, Option.some.injEq, Tracked.hook.injEq, Activation.mk.injEq] at hhook
        obtain ⟨rfl, rfl, rfl⟩ := hhook
        exact ⟨full, alert, inflight, log, rfl, h⟩
      | issue cmd clk origin found => cases origin <;> simp [Event.tracked] at hhook
      | _ => simp [Event.tracked] at hhook
    | cons _ newer =>
      cases newer with
      | nil =>
        obtain ⟨rfl, rfl⟩ := List.cons.inj (List.cons.inj hlog).2
        simp [Event.tracked] at hhook
      | cons _ newer => exact ih (List.cons.inj (List.cons.inj hlog).2).2

end Twinned

namespace Chan
open ChannelState
variable {cfg : Config} {π : Micro.Policy} {v v' : Chan} {boot : ChannelState}

/-- The constructor's tables stay, and the books of a channel are kept. -/
def BooksKept (cfg : Config) (boot : ChannelState) (v : Chan) : Prop :=
  v.cs.fixed = boot.fixed ∧ v.cs.books.Kept cfg boot

theorem BooksKept.step (hmode : cfg.cactusMode ≠ 0) (hprev : cfg.cactusPrevEnable = false)
    (hv : BooksKept cfg boot v) (h : Step cfg π v v') : BooksKept cfg boot v' := by
  obtain ⟨hfixed, hkept⟩ := hv
  cases h with
  | environment => exact ⟨hfixed, hkept⟩
  | requestRefresh => exact ⟨hfixed, hkept.move (.note rfl)⟩
  | tick =>
    refine ⟨clockTick_fixed.trans hfixed, ?_⟩
    change ((ChannelState.clockTick cfg _ _).books).Kept cfg boot
    rw [clockTick_books]
    exact hkept
  | query _ h | pick _ _ _ h =>
    exact ⟨h.aboKept.fixed.trans hfixed, hkept.moves (h.booked hmode hprev hfixed)⟩
  | hydraQuery h | pickHydra _ h =>
    obtain ⟨⟨_, _, _, rfl⟩, _⟩ := getReadyHydraCommand_eq h
    exact ⟨hfixed, hkept⟩
  | issue h =>
    exact ⟨(updateTimingAndStates_issued h).fixed.trans hfixed,
      hkept.moves (booked_updateTimingAndStates hmode h)⟩
  | drop | tock => exact ⟨hfixed, hkept⟩

/-- A chosen activation has its hooks at the end of the history; otherwise the history is paired. -/
def Twinning (v : Chan) : Prop :=
  match v.pending with
  | [] => Twinned v.cs.log
  | a :: _ => ∃ hook rest, v.cs.log = hook :: rest ∧ hook.tracked = some (.hook a) ∧ Twinned rest

theorem Twinning.step (hpol : cfg.drfmPolicy = 0) (hdual : cfg.enableHbmDualCmd = false)
    (hready : Ready cfg v) (hv : Twinning v) (h : Step cfg π v v') : Twinning v' := by
  cases h with
  | environment | tock => exact hv
  | requestRefresh => exact Twinned.other hv rfl
  | tick =>
    change Twinned (ChannelState.clockTick cfg _ _).log
    rw [clockTick_log]
    exact hv
  | query _ h =>
    rcases h.log_none with hlog | ⟨hlazy, _⟩
    · change Twinned _
      rw [hlog]
      exact hv
    · omega
  | hydraQuery h | pickHydra _ h =>
    change Twinned _
    rw [getReadyHydraCommand_log h]
    exact hv
  | pick hm hs _ h =>
    rcases h.log_some with ⟨hne, hlog⟩ | ⟨hrw, rfl, full, _, alert, inflight, crossings, hlog, hcross⟩
    · unfold Twinning
      rw [pending_of_ne_activate hne]
      change Twinned _
      rw [hlog]
      exact hv
    · rw [hs.origin_of_isReadWrite hready.regular hrw]
      refine ⟨_, _, hlog, rfl, ?_⟩
      exact Twinned.append hv fun e he => Event.tracked_of_crossing (hcross e he)
  | @issue cs clk p issued cs' h =>
    obtain ⟨extra, hlog, hextra⟩ := (updateTimingAndStates_issued h).log
    change Twinned cs'.log
    rw [hlog]
    apply Twinned.append _ fun e he => Event.tracked_of_internal (hextra e he)
    obtain ⟨cmd, origin⟩ := p
    by_cases hact : cmd.cmdType = .activate ∧ origin = .demand
    · obtain ⟨hty, rfl⟩ := hact
      simp only [Twinning, pending, hty, if_true] at hv
      obtain ⟨hook, rest, heq, hhook, hrest⟩ := hv
      rw [heq]
      exact hrest.pair (by simp [Event.tracked, hty]) hhook
    · obtain ⟨hpend, htracked⟩ : pending ⟨cs, clk, some ⟨cmd, origin⟩, issued⟩ = [] ∧
          (Event.issue cmd clk origin cs.bankStates).tracked = none := untracked_of_not_demand hact
      unfold Twinning at hv
      rw [hpend] at hv
      exact Twinned.other hv htracked
  | drop hd => simp [hdual] at hd

end Chan

/-- CACTUS misses no aggressor while its counters fit their words: when an access opens a row whose
counter then reaches the threshold, the rank is alerted or waits for its RFM right after the trackers
ran, unless it has seen too few activations since its last mitigation. -/
theorem aggressors_alerted {cfg : Config} (hmode : cfg.cactusMode = 1)
    (hprev : cfg.cactusPrevEnable = false) (hpol : cfg.drfmPolicy = 0)
    (hdual : cfg.enableHbmDualCmd = false) {c : Controller} (hc : Reachable cfg c)
    {newer older : List Event} {cmd : Command} {clk : ℕ} {found : BankId → BankState}
    (hlog : c.channelState.log = newer ++ .issue cmd clk .demand found :: older)
    (hact : cmd.cmdType = .activate) :
    ∃ idx full alert inflight before,
      c.channelState.getCactusIdx cfg cmd.bankId (u32 cmd.row) = .ok idx ∧
      older = .hook cmd.bankId cmd.row clk full alert inflight :: before ∧
      let acts := cactusOpens cfg c.channelState idx (.issue cmd clk .demand found :: older)
      (acts < 2 ^ 32 → u32 cfg.cactusTh ≤ acts →
        alert ∨ inflight ∨ (rankActs cmd.rank before : ℤ) < cfg.aboDelayActs) := by
  have hv : Chan.Ready cfg (Micro.rest c).chan ∧ Chan.Twinning (Micro.rest c).chan ∧
      ∃ boot, Chan.BooksKept cfg boot (Micro.rest c).chan := by
    refine (Micro.reached_of_reachable hc).chan_induct
      (P := fun v => Chan.Ready cfg v ∧ Chan.Twinning v ∧ ∃ boot, Chan.BooksKept cfg boot v)
      (fun boot => ⟨Chan.ready_boot boot, .nil, boot.channelState, rfl, Books.kept_boot boot⟩) ?_
    rintro v v' ⟨hready, htwin, boot, hkept⟩ hs
    exact ⟨hready.step hs, htwin.step hpol hdual hready hs, boot, hkept.step (by omega) hprev hs⟩
  obtain ⟨_, htwin, boot, hfixed, hkept⟩ := hv
  have htwin : Twinned c.channelState.log := htwin
  have hfixed : c.channelState.fixed = boot.fixed := hfixed
  have hcaught := hkept.caught
  change AtEvery (Books.Caught cfg boot) c.channelState.log at hcaught
  rw [hlog] at htwin hcaught
  obtain ⟨full, alert, inflight, before, rfl, hrest⟩ := htwin.before hact
  obtain ⟨idx, hidx, hdue⟩ := hcaught (newer ++ [.issue cmd clk .demand found])
    (.hook cmd.bankId cmd.row clk full alert inflight) before (by simp)
  rw [← ChannelState.getCactusIdx_congr hfixed] at hidx
  refine ⟨idx, full, alert, inflight, before, hidx, rfl, fun hfits hth => hdue ?_⟩
  -- the hooks that the counter has seen are the activations of its rows
  have hacts : cactusOpens cfg c.channelState idx (.issue cmd clk .demand found ::
      .hook cmd.bankId cmd.row clk full alert inflight :: before) =
      cactusHooks cfg boot idx before + 1 := by
    have hboot : cactusHooks cfg boot idx before = cactusHooks cfg c.channelState idx before := by
      unfold cactusHooks
      rw [Event.countsCactus_congr hfixed]
    rw [hboot, hrest.hooks_eq_opens, cactusOpens, current_cons_of_not_reset rfl,
      current_cons_of_not_reset rfl]
    simp [Event.opensCactus, hact, hidx, Except.toOption]
  rw [hacts] at hfits hth
  rwa [Nat.mod_eq_of_lt hfits]

/-- The history from the last demand activation back. -/
def lastOpening (log : List Event) : List Event :=
  log.dropWhile fun e => match e with
    | .issue cmd _ .demand _ => cmd.cmdType ≠ .activate
    | _ => true

/-- Row 0 is opened twice with a row of the same bank in between; the second time its rank is
alerted. -/
theorem aggressors_alerted_small :
    let cfg : Config := { smallConfig with cactusMode := 1, cactusTh := 2 }
    ∃ c, Controller.run cfg ({} : Boot cfg).controller (Input.request 0 false 4 ++
        Input.request 2 false 4 ++ Input.request 0 false 4) = .ok c ∧
      ∃ (newer before : List Event) (cmd : Command) (clk : ℕ) (found : BankId → BankState)
        (full alert inflight : Bool), c.channelState.log =
          newer ++ .issue cmd clk .demand found ::
            .hook cmd.bankId cmd.row clk full alert inflight :: before ∧
        (alert ∨ inflight ∨ (rankActs cmd.rank before : ℤ) < cfg.aboDelayActs) := by
  intro cfg
  obtain ⟨c, hrun, hc⟩ := exists_ok_of_any (p := fun c : Controller =>
      (lastOpening c.channelState.log).head?.any (Event.opensCactus cfg c.channelState 0) &&
        cactusOpens cfg c.channelState 0 (lastOpening c.channelState.log) = 2)
    (x := Controller.run cfg ({} : Boot cfg).controller (Input.request 0 false 4 ++
      Input.request 2 false 4 ++ Input.request 0 false 4)) (by decide +kernel)
  rw [Bool.and_eq_true, decide_eq_true_eq] at hc
  obtain ⟨hfirst, hacts⟩ := hc
  have hlog : c.channelState.log = _ ++ lastOpening c.channelState.log :=
    List.takeWhile_append_dropWhile.symm
  cases hlast : lastOpening c.channelState.log with
  | nil =>
    rw [hlast] at hfirst
    cases hfirst
  | cons e older =>
    rw [hlast] at hlog hfirst hacts
    rw [List.head?_cons, Option.any_some] at hfirst
    cases e with
    | issue cmd clk origin found =>
      cases origin with
      | demand =>
        simp only [Event.opensCactus, Bool.and_eq_true, decide_eq_true_eq] at hfirst
        obtain ⟨hact, hmap⟩ := hfirst
        obtain ⟨idx, full, alert, inflight, before, hidx, rfl, hdue⟩ :=
          aggressors_alerted rfl rfl rfl rfl ⟨{}, _, hrun⟩ hlog hact
        obtain rfl : idx = 0 := by simpa [hidx, Except.toOption] using hmap
        rw [hacts] at hdue
        exact ⟨c, hrun, _, before, cmd, clk, found, full, alert, inflight, hlog,
          hdue (by decide) (by decide)⟩
      | _ => cases hfirst
    | _ => cases hfirst

end CactusDram

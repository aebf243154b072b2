import CactusDram.Run

/-! The ABACUS table under any interleaving of its operations: one counter and one bit per bank
dominate the activations that every single bank has made. -/
namespace CactusDram

namespace ChannelState
variable {cfg : Config} {cs : ChannelState}

/-- A position below `a * n` determines its two coordinates. -/
lemma coordinates_inj {n x x' y y' : ℕ} (hy : y < n) (hy' : y' < n)
    (h : x * n + y = x' * n + y') : x = x' ∧ y = y' := by
  have hx : x = x' := by
    rcases Nat.lt_trichotomy x x' with hlt | heq | hlt
    · have := Nat.mul_le_mul_right n (Nat.succ_le_of_lt hlt)
      rw [Nat.succ_mul] at this
      omega
    · exact heq
    · have := Nat.mul_le_mul_right n (Nat.succ_le_of_lt hlt)
      rw [Nat.succ_mul] at this
      omega
  subst hx
  exact ⟨rfl, by omega⟩

/-- The banks of a channel have different positions. -/
theorem bankIdx_inj {i j : BankId} (hi : i ∈ cfg.allBanks) (hj : j ∈ cfg.allBanks)
    (h : bankIdx cfg i = bankIdx cfg j) : i = j := by
  obtain ⟨⟨r, _, hr⟩, ⟨g, hg, hg'⟩, k, hk, hk'⟩ := cfg.mem_allBanks.mp hi
  obtain ⟨⟨s, _, hs⟩, ⟨d, hd, hd'⟩, l, hl, hl'⟩ := cfg.mem_allBanks.mp hj
  simp only [bankIdx, hr, hg', hk', hs, hd', hl', Int.toNat_natCast, ← Nat.add_mul] at h
  obtain ⟨hgroup, hkl⟩ := coordinates_inj hk hl h
  obtain ⟨hrs, hgd⟩ := coordinates_inj hg hd hgroup
  cases i
  cases j
  simp_all

theorem bankIdx_lt {i : BankId} (hi : i ∈ cfg.allBanks) : bankIdx cfg i < totalBanks cfg := by
  obtain ⟨⟨r, hr, hr'⟩, ⟨g, hg, hg'⟩, k, hk, hk'⟩ := cfg.mem_allBanks.mp hi
  simp only [bankIdx, totalBanks, hr', hg', hk', Int.toNat_natCast, ← Nat.add_mul]
  have hgroup : r * cfg.bankgroups + g < cfg.ranks * cfg.bankgroups := by
    have := Nat.mul_le_mul_right cfg.bankgroups (Nat.succ_le_of_lt hr)
    rw [Nat.succ_mul] at this
    omega
  have := Nat.mul_le_mul_right cfg.banksPerGroup (Nat.succ_le_of_lt hgroup)
  rw [Nat.succ_mul] at this
  omega

/-- Queueing a row in several different banks adds it once to each of them. -/
theorem foldl_insertDrfm {l : List BankId} (hl : l.Nodup) (rowid : ℕ) (cs : ChannelState) :
    l.foldl (fun cs i => cs.modifyBank i fun b => b.insertDrfm cfg rowid) cs =
      { cs with bankStates := fun i =>
          if i ∈ l then (cs.bankStates i).insertDrfm cfg rowid else cs.bankStates i } := by
  induction l generalizing cs with
  | nil => simp
  | cons j l ih =>
    obtain ⟨hj, hl⟩ := List.nodup_cons.mp hl
    rw [List.foldl_cons, ih hl]
    simp only [modifyBank]
    congr 1
    funext i
    by_cases hij : i = j
    · subst hij
      simp [hj]
    · simp [hij]

/-- The two outcomes of an ABACUS count: the row stays below the threshold, or it is queued in
every bank. -/
theorem abacusPreact_cases (hmode : cfg.abacusMode ≠ 0) (i : BankId) (rowid : ℕ) :
    ((cs.abacusCount cfg i rowid).abacusTable rowid).rac < u32 cfg.abacusTh ∧
        cs.abacusPreact cfg i rowid = cs.abacusCount cfg i rowid ∨
      u32 cfg.abacusTh ≤ ((cs.abacusCount cfg i rowid).abacusTable rowid).rac ∧
        cs.abacusPreact cfg i rowid = { cs.abacusCount cfg i rowid with
          bankStates := fun j => if j ∈ cfg.allBanks then (cs.bankStates j).insertDrfm cfg rowid
            else cs.bankStates j
          abacusQ := cs.abacusQ ++ [rowid]
          log := .abacusCross rowid :: cs.log } := by
  unfold abacusPreact
  rw [if_neg hmode]
  dsimp only
  split_ifs with hth
  · refine .inr ⟨hth, ?_⟩
    rw [foldl_insertDrfm cfg.allBanks_nodup]
    rfl
  · exact .inl ⟨by omega, rfl⟩

theorem abacusPreact_table (hmode : cfg.abacusMode ≠ 0) (i : BankId) (rowid : ℕ) :
    (cs.abacusPreact cfg i rowid).abacusTable = (cs.abacusCount cfg i rowid).abacusTable := by
  rcases cs.abacusPreact_cases hmode i rowid with ⟨_, h⟩ | ⟨_, h⟩ <;> rw [h]

end ChannelState

/-- The operations on the ABACUS table. `others` stands for what the rest of the simulator does to
the banks in between. -/
inductive AbacusOp (cfg : Config)
  | preact (i : BankId) (rowid : ℕ) (hi : i ∈ cfg.allBanks)
  | mitig
  | refresh (refIdx : ℕ) (shouldReset : Bool)
  | others (banks : BankId → BankState)

namespace AbacusOp
variable {cfg : Config}

def apply (cs : ChannelState) : AbacusOp cfg → ChannelState
  | .preact i rowid _ => cs.abacusPreact cfg i rowid
  | .mitig => cs.abacusMitig cfg
  | .refresh refIdx shouldReset => { cs with refIdx := refIdx }.abacusRefresh cfg shouldReset
  | .others banks => { cs with bankStates := banks }

/-- The operation clears the entry of the row. -/
def resets (cs : ChannelState) (row : ℕ) : AbacusOp cfg → Bool
  | .mitig => cs.abacusQ.head? = some row
  | .refresh refIdx shouldReset =>
    let perRef := cfg.rows / cfg.refchunks
    shouldReset && refIdx % cfg.refchunks * perRef ≤ row &&
      row < refIdx % cfg.refchunks * perRef + perRef
  | .preact _ _ _ | .others _ => false

/-- The operation is a count of the bank for the row. -/
def countsFor (i : BankId) (row : ℕ) : AbacusOp cfg → Bool
  | .preact j rowid _ => j = i && rowid = row
  | _ => false

/-- The operation finds the bit of its bank set, and so counts a round of the row. -/
def countsRound (cs : ChannelState) (row : ℕ) : AbacusOp cfg → Bool
  | .preact j rowid _ =>
    rowid = row && (cs.abacusTable row).sav.getLsbD (ChannelState.bankIdx cfg j)
  | _ => false

/-- The operation is a count for the row that appends it to the sampler of every bank. -/
def inserts (cs : ChannelState) (row : ℕ) : AbacusOp cfg → Bool
  | .preact j rowid _ => rowid = row && cfg.allBanks.all fun k =>
    ((cs.abacusPreact cfg j rowid).bankStates k).drfmQ = (cs.bankStates k).drfmQ ++ [⟨row, 0⟩]
  | _ => false

end AbacusOp

/-- A run of the table with what happened to each row since its entry was last reset: the counts
of each bank, the increments of the counter, and whether the row was queued in every bank. -/
structure AbacusRun (cfg : Config) where
  cs : ChannelState
  calls : BankId → ℕ → ℕ := fun _ _ => 0
  rounds : ℕ → ℕ := fun _ => 0
  inserted : ℕ → Bool := fun _ => false

namespace AbacusRun
variable {cfg : Config}

def step (s : AbacusRun cfg) (op : AbacusOp cfg) : AbacusRun cfg where
  cs := op.apply s.cs
  calls i row := if op.resets s.cs row then 0 else s.calls i row + (op.countsFor i row).toNat
  rounds row := if op.resets s.cs row then 0 else s.rounds row + (op.countsRound s.cs row).toNat
  inserted row :=
    if op.resets s.cs row then false else s.inserted row || op.inserts s.cs row

def run (s : AbacusRun cfg) (ops : List (AbacusOp cfg)) : AbacusRun cfg := ops.foldl step s

/-- A run starts with the table of a fresh channel. -/
def start (boot : Boot cfg) : AbacusRun cfg := { cs := boot.channelState }

/-- The bit of a bank in the vector of a row. -/
def bit (s : AbacusRun cfg) (i : BankId) (row : ℕ) : Bool :=
  (s.cs.abacusTable row).sav.getLsbD (ChannelState.bankIdx cfg i)

/-- The counter of a row is its number of rounds, and no bank has counted more often than that, or
once more while its bit is set. -/
structure Dominates (s : AbacusRun cfg) : Prop where
  rac : ∀ row, (s.cs.abacusTable row).rac = s.rounds row % 2 ^ 32
  calls : ∀ i ∈ cfg.allBanks, ∀ row, s.calls i row ≤ s.rounds row + (s.bit i row).toNat
  inserted : cfg.drfmMode ≠ 0 → 0 ≤ cfg.abacusTh → ∀ i ∈ cfg.allBanks, ∀ row,
    s.rounds row < 2 ^ 32 → cfg.abacusTh + 1 ≤ s.calls i row → s.inserted row

end AbacusRun

namespace ChannelState
variable {cfg : Config} {cs : ChannelState}

lemma and_mask_eq_zero {sav : BitVec 64} {n : ℕ} (hn : n < 64) :
    sav &&& (1#64 <<< n) = 0 ↔ sav.getLsbD n = false := by
  rw [← BitVec.twoPow_eq, BitVec.and_twoPow]
  cases h : sav.getLsbD n with
  | false => simp
  | true =>
    simp only [if_true, Bool.true_eq_false, iff_false]
    intro h0
    have hbit := congrArg (fun v => BitVec.getLsbD v n) h0
    simp [hn] at hbit

/-- A count by a bank whose bit is clear sets the bit. -/
theorem abacusCount_clear {i : BankId} {rowid : ℕ} (hi : bankIdx cfg i < 64)
    (h : (cs.abacusTable rowid).sav.getLsbD (bankIdx cfg i) = false) :
    (cs.abacusCount cfg i rowid).abacusTable rowid =
      ⟨(cs.abacusTable rowid).rac, (cs.abacusTable rowid).sav ||| (1#64 <<< bankIdx cfg i)⟩ := by
  simp [abacusCount, (and_mask_eq_zero hi).mpr h]

/-- A count by a bank whose bit is set begins a new round. -/
theorem abacusCount_set {i : BankId} {rowid : ℕ} (hi : bankIdx cfg i < 64)
    (h : (cs.abacusTable rowid).sav.getLsbD (bankIdx cfg i) = true) :
    (cs.abacusCount cfg i rowid).abacusTable rowid =
      ⟨u32 ((cs.abacusTable rowid).rac + 1), 1#64 <<< bankIdx cfg i⟩ := by
  have hne : ¬(cs.abacusTable rowid).sav &&& (1#64 <<< bankIdx cfg i) = 0 := by
    rw [and_mask_eq_zero hi, h]
    simp
  simp only [abacusCount, Function.update_self, if_neg hne]

theorem abacusCount_of_ne {i : BankId} {rowid row : ℕ} (h : row ≠ rowid) :
    (cs.abacusCount cfg i rowid).abacusTable row = cs.abacusTable row := by
  simp [abacusCount, Function.update_of_ne h]

/-- A mask has the bit of its own bank only. -/
lemma getLsbD_mask {i j : BankId} (hi : i ∈ cfg.allBanks) (hj : j ∈ cfg.allBanks)
    (hb : totalBanks cfg ≤ 64) :
    (1#64 <<< bankIdx cfg i).getLsbD (bankIdx cfg j) = decide (j = i) := by
  have hlt := bankIdx_lt hj
  rw [← BitVec.twoPow_eq, BitVec.getLsbD_twoPow]
  by_cases hji : j = i
  · subst hji
    simp
    omega
  · have hne : ¬bankIdx cfg i = bankIdx cfg j := fun h => hji (bankIdx_inj hi hj h).symm
    simp [hji, hne]

/-- The crossing of the threshold queues the row in every bank. -/
theorem abacusPreact_inserts (hmode : cfg.abacusMode ≠ 0) (hdrfm : cfg.drfmMode ≠ 0) (i : BankId)
    (rowid : ℕ) (hth : u32 cfg.abacusTh ≤ ((cs.abacusCount cfg i rowid).abacusTable rowid).rac)
    {k : BankId} (hk : k ∈ cfg.allBanks) :
    ((cs.abacusPreact cfg i rowid).bankStates k).drfmQ =
      (cs.bankStates k).drfmQ ++ [⟨rowid, 0⟩] := by
  rcases cs.abacusPreact_cases hmode i rowid with ⟨hlt, _⟩ | ⟨_, h⟩
  · omega
  · rw [h]
    simp [hk, BankState.insertDrfm, hdrfm]

end ChannelState

namespace AbacusRun
open ChannelState
variable {cfg : Config} {s : AbacusRun cfg}

theorem dominates_start (boot : Boot cfg) : (start boot).Dominates where
  rac _ := rfl
  calls _ _ _ := Nat.zero_le _
  inserted _ hth i _ row _ h := by
    have h0 : (start boot).calls i row = 0 := rfl
    rw [h0] at h
    omega

/-- Operations that count nothing and leave the entries they do not clear. -/
theorem Dominates.of_no_count {op : AbacusOp cfg} (hs : s.Dominates)
    (hcount : ∀ i row, op.countsFor i row = false)
    (hround : ∀ row, op.countsRound s.cs row = false)
    (htable : ∀ row, (op.apply s.cs).abacusTable row =
      if op.resets s.cs row then {} else s.cs.abacusTable row) : (s.step op).Dominates where
  rac row := by
    simp only [step, htable, hround]
    split_ifs
    · rfl
    · simpa using hs.rac row
  calls i hi row := by
    simp only [step, bit, htable, hcount, hround]
    split_ifs
    · exact Nat.zero_le _
    · simpa [bit] using hs.calls i hi row
  inserted hdrfm hth i hi row := by
    simp only [step, hcount, hround]
    split_ifs
    · intro _ h
      simp only [Nat.cast_zero] at h
      omega
    · intro hlt h
      simp [hs.inserted hdrfm hth i hi row (by simpa using hlt) (by simpa using h)]

/-- A count of the row itself: either the bit of the bank is set now, or a round is counted and
the bank has the only bit. -/
theorem step_preact_self (hmode : cfg.abacusMode ≠ 0) (hb : totalBanks cfg ≤ 64) {i : BankId}
    (hi : i ∈ cfg.allBanks) (rowid : ℕ) (hrac : (s.cs.abacusTable rowid).rac = s.rounds rowid % 2 ^ 32) :
    ((s.step (.preact i rowid hi)).cs.abacusTable rowid).rac =
        (s.step (.preact i rowid hi)).rounds rowid % 2 ^ 32 ∧
      (s.bit i rowid = false ∧ (s.step (.preact i rowid hi)).rounds rowid = s.rounds rowid ∧
          (∀ j ∈ cfg.allBanks, (s.step (.preact i rowid hi)).bit j rowid =
            (s.bit j rowid || decide (j = i))) ∨
        s.bit i rowid = true ∧ (s.step (.preact i rowid hi)).rounds rowid = s.rounds rowid + 1 ∧
          ∀ j ∈ cfg.allBanks, (s.step (.preact i rowid hi)).bit j rowid = decide (j = i)) := by
  have hlt : bankIdx cfg i < 64 := lt_of_lt_of_le (bankIdx_lt hi) hb
  have htable : (s.step (.preact i rowid hi)).cs.abacusTable rowid =
      (s.cs.abacusCount cfg i rowid).abacusTable rowid :=
    congrFun (s.cs.abacusPreact_table hmode i rowid) rowid
  have hrounds : (s.step (.preact i rowid hi)).rounds rowid =
      s.rounds rowid + (s.bit i rowid).toNat := by
    simp [step, AbacusOp.resets, AbacusOp.countsRound, bit]
  cases hbit : s.bit i rowid with
  | false =>
    rw [abacusCount_clear hlt hbit] at htable
    rw [hrounds, hbit]
    refine ⟨by rw [htable]; exact hrac, .inl ⟨rfl, rfl, fun j hj => ?_⟩⟩
    simp only [bit, htable, BitVec.getLsbD_or, getLsbD_mask hi hj hb]
  | true =>
    rw [abacusCount_set hlt hbit] at htable
    rw [hrounds, hbit]
    refine ⟨?_, .inr ⟨rfl, rfl, fun j hj => ?_⟩⟩
    · rw [htable, hrac]
      simp only [u32, Bool.toNat_true]
      omega
    · simp only [bit, htable, getLsbD_mask hi hj hb]

theorem Dominates.preact (hs : s.Dominates) (hmode : cfg.abacusMode ≠ 0)
    (hb : totalBanks cfg ≤ 64) {i : BankId} (hi : i ∈ cfg.allBanks) (rowid : ℕ) :
    (s.step (.preact i rowid hi)).Dominates := by
  obtain ⟨hrac, hcase⟩ := step_preact_self hmode hb hi rowid (hs.rac rowid)
  have hcalls (j : BankId) : (s.step (.preact i rowid hi)).calls j rowid =
      s.calls j rowid + (decide (i = j)).toNat := by
    simp [step, AbacusOp.resets, AbacusOp.countsFor]
  -- the other rows keep their entry and their history
  have hother {row : ℕ} (hne : row ≠ rowid) :
      (s.step (.preact i rowid hi)).cs.abacusTable row = s.cs.abacusTable row := by
    have h := congrFun (s.cs.abacusPreact_table hmode i rowid) row
    rw [abacusCount_of_ne hne] at h
    exact h
  have hkeep {row : ℕ} (hne : row ≠ rowid) (j : BankId) :
      (s.step (.preact i rowid hi)).calls j row = s.calls j row ∧
        (s.step (.preact i rowid hi)).rounds row = s.rounds row ∧
        (s.step (.preact i rowid hi)).inserted row = s.inserted row := by
    simp [step, AbacusOp.resets, AbacusOp.countsFor, AbacusOp.countsRound, AbacusOp.inserts, hne.symm]
  have hbound (j : BankId) (hj : j ∈ cfg.allBanks) : (s.step (.preact i rowid hi)).calls j rowid ≤
      (s.step (.preact i rowid hi)).rounds rowid +
        ((s.step (.preact i rowid hi)).bit j rowid).toNat := by
    have hold := hs.calls j hj rowid
    rw [hcalls j]
    by_cases hij : i = j
    · subst hij
      rcases hcase with ⟨hbit, hr, hbits⟩ | ⟨hbit, hr, hbits⟩ <;>
        rw [hr, hbits i hj] <;> rw [hbit] at hold <;> simp at hold ⊢ <;> omega
    · rcases hcase with ⟨hbit, hr, hbits⟩ | ⟨hbit, hr, hbits⟩ <;>
        rw [hr, hbits j hj] <;> cases hj' : s.bit j rowid <;> rw [hj'] at hold <;>
        simp [hij, Ne.symm hij] at hold ⊢ <;> omega
  refine ⟨fun row => ?_, fun j hj row => ?_, fun hdrfm hth j hj row hlt hge => ?_⟩
  · by_cases hrow : row = rowid
    · subst hrow
      exact hrac
    · rw [hother hrow, (hkeep hrow i).2.1]
      exact hs.rac row
  · by_cases hrow : row = rowid
    · subst hrow
      exact hbound j hj
    · rw [bit, hother hrow, (hkeep hrow j).1, (hkeep hrow j).2.1]
      exact hs.calls j hj row
  · by_cases hrow : row = rowid
    · subst hrow
      by_cases hij : i = j
      · -- the bank that counts has its bit set, so the counter has reached the threshold
        subst hij
        have hbit : (s.step (.preact i row hi)).bit i row = true := by
          rcases hcase with ⟨_, _, hbits⟩ | ⟨_, _, hbits⟩ <;> rw [hbits i hj] <;> simp
        have hle := hbound i hj
        rw [hbit, Bool.toNat_true] at hle
        have hreach : u32 cfg.abacusTh ≤ ((s.cs.abacusCount cfg i row).abacusTable row).rac := by
          rw [← s.cs.abacusPreact_table hmode i row]
          change _ ≤ ((s.step (.preact i row hi)).cs.abacusTable row).rac
          rw [hrac, Nat.mod_eq_of_lt hlt]
          unfold u32
          omega
        have hins : (AbacusOp.preact i row hi).inserts s.cs row = true := by
          simp only [AbacusOp.inserts, decide_true, Bool.true_and, List.all_eq_true,
            decide_eq_true_eq]
          exact fun k hk => abacusPreact_inserts hmode hdrfm i row hreach hk
        simp [step, AbacusOp.resets, hins]
      · have hold : s.rounds row ≤ (s.step (.preact i row hi)).rounds row := by
          rcases hcase with ⟨_, hr, _⟩ | ⟨_, hr, _⟩ <;> omega
        rw [hcalls j] at hge
        simp only [hij, decide_false, Bool.toNat_false, Nat.add_zero] at hge
        have := hs.inserted hdrfm hth j hj row (by omega) hge
        simp [step, AbacusOp.resets, this]
    · rw [(hkeep hrow j).2.2]
      rw [(hkeep hrow j).2.1] at hlt
      rw [(hkeep hrow j).1] at hge
      exact hs.inserted hdrfm hth j hj row hlt hge

theorem Dominates.step (hs : s.Dominates) (hmode : cfg.abacusMode ≠ 0) (hb : totalBanks cfg ≤ 64)
    (op : AbacusOp cfg) : (s.step op).Dominates := by
  cases op with
  | preact i rowid hi => exact hs.preact hmode hb hi rowid
  | mitig =>
    refine hs.of_no_count (fun _ _ => rfl) (fun _ => rfl) fun row => ?_
    simp only [AbacusOp.apply, AbacusOp.resets, abacusMitig, if_neg hmode]
    split
    · rename_i hq
      simp [hq]
    · rename_i head rest hq
      by_cases hrow : head = row
      · subst hrow
        simp [hq]
      · simp [hq, hrow, Function.update_of_ne (Ne.symm hrow)]
  | refresh refIdx shouldReset =>
    refine hs.of_no_count (fun _ _ => rfl) (fun _ => rfl) fun row => ?_
    cases shouldReset with
    | false => simp [AbacusOp.apply, AbacusOp.resets, abacusRefresh]
    | true => simp [AbacusOp.apply, AbacusOp.resets, abacusRefresh, hmode]
  | others banks => exact hs.of_no_count (fun _ _ => rfl) (fun _ => rfl) fun _ => rfl

theorem Dominates.run (hs : s.Dominates) (hmode : cfg.abacusMode ≠ 0) (hb : totalBanks cfg ≤ 64)
    (ops : List (AbacusOp cfg)) : (s.run ops).Dominates := by
  induction ops generalizing s with
  | nil => exact hs
  | cons op ops ih => exact ih (hs.step hmode hb op)

end AbacusRun

/-- While the counter of a row has not wrapped around, it bounds the counts that every bank made
for the row since its entry was last reset, up to the one count its bit stands for; and a bank that
has counted more often than the threshold has had the row queued in every bank. -/
theorem abacus_counts_bounded (cfg : Config) (hmode : cfg.abacusMode = 1)
    (hbanks : ChannelState.totalBanks cfg ≤ 64) (boot : Boot cfg) (ops : List (AbacusOp cfg))
    (i : BankId) (hi : i ∈ cfg.allBanks) (row : ℕ)
    (hwrap : ((AbacusRun.start boot).run ops).rounds row < 2 ^ 32) :
    let s := (AbacusRun.start boot).run ops
    s.calls i row ≤ (s.cs.abacusTable row).rac + (if s.bit i row then 1 else 0) ∧
      (cfg.drfmMode ≠ 0 → 0 ≤ cfg.abacusTh → cfg.abacusTh + 1 ≤ s.calls i row → s.inserted row) := by
  have hs := (AbacusRun.dominates_start boot).run (by omega) hbanks ops
  refine ⟨?_, fun hdrfm hth hge => hs.inserted hdrfm hth i hi row hwrap hge⟩
  rw [hs.rac row, Nat.mod_eq_of_lt hwrap]
  refine le_trans (hs.calls i hi row) ?_
  cases AbacusRun.bit _ i row <;> simp

/-- Two banks, with ABACUS on and a threshold of one. -/
def abacusConfig (drfmMode : ℤ) : Config :=
  { smallConfig with abacusMode := 1, abacusTh := 1, drfmMode := drfmMode }

/-- A count of row 0 by the first bank. -/
def abacusCall (drfmMode : ℤ) : AbacusOp (abacusConfig drfmMode) :=
  .preact ⟨0, 0, 0⟩ 0 ((Config.mem_allBanks _).mpr ⟨⟨0, Config.ranks_pos _, rfl⟩,
    ⟨0, Config.bankgroups_pos _, rfl⟩, 0, Config.banksPerGroup_pos _, rfl⟩)

theorem abacus_counts_bounded_small :
    let s := (AbacusRun.start ({} : Boot (abacusConfig 1))).run (List.replicate 2 (abacusCall 1))
    s.rounds 0 < 2 ^ 32 ∧ s.calls ⟨0, 0, 0⟩ 0 = 2 ∧
      (s.calls ⟨0, 0, 0⟩ 0 ≤ (s.cs.abacusTable 0).rac + (if s.bit ⟨0, 0, 0⟩ 0 then 1 else 0) ∧
        (1 ≠ (0 : ℤ) → 0 ≤ (1 : ℤ) → (1 : ℤ) + 1 ≤ s.calls ⟨0, 0, 0⟩ 0 → s.inserted 0)) :=
  ⟨by decide, by decide, abacus_counts_bounded (abacusConfig 1) rfl (by decide) {} _ ⟨0, 0, 0⟩
    (by decide) 0 (by decide)⟩

/-- Counting again and again in one bank. -/
theorem abacus_repeat (n : ℕ) :
    let s := (AbacusRun.start ({} : Boot (abacusConfig 0))).run (List.replicate (n + 1) (abacusCall 0))
    s.cs.abacusTable 0 = ⟨n % 2 ^ 32, 1#64⟩ ∧ s.calls ⟨0, 0, 0⟩ 0 = n + 1 := by
  induction n with
  | zero => exact ⟨by decide, by decide⟩
  | succ n ih =>
    dsimp only at ih ⊢
    rw [List.replicate_succ', AbacusRun.run, List.foldl_append]
    rw [AbacusRun.run] at ih
    generalize List.foldl AbacusRun.step _ _ = s at ih ⊢
    obtain ⟨hentry, hcalls⟩ := ih
    have htable : (s.step (abacusCall 0)).cs.abacusTable 0 =
        (s.cs.abacusCount (abacusConfig 0) ⟨0, 0, 0⟩ 0).abacusTable 0 :=
      congrFun (s.cs.abacusPreact_table (by decide) ⟨0, 0, 0⟩ 0) 0
    have hbit : (1#64).getLsbD (ChannelState.bankIdx (abacusConfig 0) ⟨0, 0, 0⟩) = true := by decide
    rw [ChannelState.abacusCount_set (by decide) (by rw [hentry]; exact hbit), hentry] at htable
    refine ⟨?_, ?_⟩
    · refine htable.trans ?_
      congr 1
      simp only [u32]
      omega
    · change s.calls ⟨0, 0, 0⟩ 0 + 1 = n + 1 + 1
      rw [hcalls]

/-- The counter wraps around after `2^32` rounds, and without DRFM nothing is ever queued. -/
theorem abacus_counts_exceed :
    (let s := (AbacusRun.start ({} : Boot (abacusConfig 0))).run
      (List.replicate (2 ^ 32 + 1) (abacusCall 0))
    (s.cs.abacusTable 0).rac + 1 < s.calls ⟨0, 0, 0⟩ 0) ∧
      let s := (AbacusRun.start ({} : Boot (abacusConfig 0))).run (List.replicate 2 (abacusCall 0))
      (abacusConfig 0).abacusTh + 1 ≤ s.calls ⟨0, 0, 0⟩ 0 ∧
        ∀ i ∈ (abacusConfig 0).allBanks, (s.cs.bankStates i).drfmQ = [] := by
  refine ⟨?_, by decide, by decide⟩
  obtain ⟨hentry, hcalls⟩ := abacus_repeat (2 ^ 32)
  dsimp only
  rw [hentry, hcalls]
  decide

end CactusDram

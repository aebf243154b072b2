import CactusDram.CounterHistory
import CactusDram.Foundations.RunningMax

/-! The greedy register of the hottest counter of each rank, against a scan of the counters that
were activated since it was cleared. -/
namespace CactusDram
open Foundations

namespace Boot
variable {cfg : Config} (boot : Boot cfg)

/-- The value that a counter is compared by, without the width of the words. -/
def effective (idx : ℕ) (h : List CounterEvent) : ℕ :=
  if cfg.cactusPrevEnable then boot.cactusCalls idx h + boot.cactusCallsBefore idx h
  else boot.cactusCalls idx h

/-- What happened since the register of a rank was cleared, or since the start. -/
def sinceCleared (rank : ℕ) (h : List CounterEvent) : List CounterEvent :=
  h.takeWhile (· ≠ .maxCleared rank)

/-- A row of the counter was activated in the rank since the register was cleared. -/
def Touched (rank : ℕ) (h : List CounterEvent) (idx : ℕ) : Prop :=
  ∃ (i : BankId) (rowid : ℕ), .cactusPreact i rowid ∈ sinceCleared rank h ∧ i.rank = rank ∧
    boot.channelState.getCactusIdx cfg i rowid = .ok idx

variable {boot} {idx rank : ℕ} {e : CounterEvent} {es h : List CounterEvent}

theorem effective_cons_of_reset (he : CounterEvent.resetsCactus cfg idx e = true) :
    boot.effective idx (e :: h) ≤ boot.effective idx h := by
  have hcur : boot.cactusCalls idx (e :: h) = 0 := current_cons_of_reset he
  have hprev : boot.cactusCallsBefore idx (e :: h) = boot.cactusCalls idx h :=
    previous_cons_of_reset he
  unfold effective
  split_ifs <;> omega

theorem effective_cons_of_not_reset (he : CounterEvent.resetsCactus cfg idx e = false) :
    boot.effective idx (e :: h) =
      boot.effective idx h + (CounterEvent.countsCactus boot idx e).toNat := by
  have hcur : boot.cactusCalls idx (e :: h) = boot.cactusCalls idx h + _ :=
    current_cons_of_not_reset he
  have hprev : boot.cactusCallsBefore idx (e :: h) = boot.cactusCallsBefore idx h :=
    previous_cons_of_not_reset he
  unfold effective
  split_ifs <;> omega

/-- Only a count raises a value. -/
theorem effective_append_le (hes : ∀ e ∈ es, CounterEvent.countsCactus boot idx e = false) :
    boot.effective idx (es ++ h) ≤ boot.effective idx h := by
  induction es with
  | nil => exact le_rfl
  | cons e es ih =>
    have hrest := ih fun e' he' => hes e' (List.mem_cons_of_mem e he')
    cases hreset : CounterEvent.resetsCactus cfg idx e with
    | true => exact (effective_cons_of_reset hreset).trans hrest
    | false =>
      have hval : boot.effective idx (e :: (es ++ h)) = _ := effective_cons_of_not_reset hreset
      rw [hes e List.mem_cons_self] at hval
      exact hval.le.trans hrest

theorem effective_append_eq (hes : ∀ e ∈ es, CounterEvent.countsCactus boot idx e = false ∧
    CounterEvent.resetsCactus cfg idx e = false) :
    boot.effective idx (es ++ h) = boot.effective idx h := by
  induction es with
  | nil => rfl
  | cons e es ih =>
    obtain ⟨hcount, hreset⟩ := hes e List.mem_cons_self
    have hval : boot.effective idx (e :: (es ++ h)) = _ := effective_cons_of_not_reset hreset
    rw [hcount] at hval
    exact hval.trans (ih fun e' he' => hes e' (List.mem_cons_of_mem e he'))

theorem sinceCleared_append_of_notMem (hes : .maxCleared rank ∉ es) :
    sinceCleared rank (es ++ h) = es ++ sinceCleared rank h := by
  apply List.takeWhile_append_of_pos
  intro e he
  simpa using fun heq : e = .maxCleared rank => hes (heq ▸ he)

theorem mem_sinceCleared_append_of_mem (hes : .maxCleared rank ∈ es)
    (he : e ∈ sinceCleared rank (es ++ h)) : e ∈ es := by
  induction es with
  | nil => cases hes
  | cons e' es ih =>
    by_cases heq : e' = .maxCleared rank
    · subst heq
      simp [sinceCleared] at he
    · have hes : .maxCleared rank ∈ es := by simpa [Ne.symm heq] using hes
      have he : e = e' ∨ e ∈ sinceCleared rank (es ++ h) := by
        simpa [sinceCleared, heq] using he
      obtain rfl | he := he
      · exact List.mem_cons_self
      · exact List.mem_cons_of_mem _ (ih hes he)

/-- Between two activations the touched counters stay the same, unless the register is cleared. -/
theorem touched_append_iff (hclear : .maxCleared rank ∉ es)
    (hes : ∀ i rowid, .cactusPreact i rowid ∉ es) :
    boot.Touched rank (es ++ h) idx ↔ boot.Touched rank h idx := by
  unfold Touched
  rw [sinceCleared_append_of_notMem hclear]
  simp only [List.mem_append, hes, false_or]

theorem not_touched_append (hclear : .maxCleared rank ∈ es)
    (hes : ∀ i rowid, .cactusPreact i rowid ∉ es) :
    ¬boot.Touched rank (es ++ h) idx := by
  rintro ⟨i, rowid, hmem, _⟩
  exact hes i rowid (mem_sinceCleared_append_of_mem hclear hmem)

end Boot

namespace CounterRun
open ChannelState
variable {cfg : Config} {boot : Boot cfg} {s s' : CounterRun} {op : CounterOp cfg} {rank : ℕ}

/-- No word of the counters has wrapped so far. -/
def NoWrap (boot : Boot cfg) (h : List CounterEvent) : Prop :=
  ∀ h', h' <:+ h → ∀ idx, boot.effective idx h' < 2 ^ 32

theorem Recorded.cactusVal_eq (hs : Recorded boot s) (hmode : cfg.cactusMode ≠ 0)
    (hwrap : NoWrap boot s.history) (idx : ℕ) :
    s.cs.cactusVal cfg idx = boot.effective idx s.history := by
  have ht := hs.cactus hmode
  have hlt := hwrap s.history List.suffix_rfl idx
  unfold cactusVal
  unfold Boot.effective at hlt ⊢
  rw [ht.current idx, ht.previous idx]
  change (if cfg.cactusPrevEnable then u32 ((boot.cactusCalls idx s.history % 2 ^ 32 +
    boot.cactusCallsBefore idx s.history % 2 ^ 32 : ℕ) : ℤ) else
      boot.cactusCalls idx s.history % 2 ^ 32) = _
  split_ifs at hlt ⊢
  · rw [Nat.mod_eq_of_lt (by omega), Nat.mod_eq_of_lt (by omega)]
    unfold u32
    omega
  · exact Nat.mod_eq_of_lt hlt

/-- The counters that a refresh resets belong to its rank. -/
theorem inRank_of_inChunk {cs : ChannelState} {rank idx : ℕ}
    (hchunks : 0 < cfg.refchunks / cfg.cactusReset) (h : InChunk (cs.cactusChunk cfg rank) idx) :
    InRank cfg rank idx := by
  obtain ⟨hle, hlt⟩ := h
  simp only [cactusChunk, cactusSize] at hle hlt
  have hq := Nat.mod_lt cs.refIdx hchunks
  have hslice := calc
    (cs.refIdx % (cfg.refchunks / cfg.cactusReset) + 1) *
        (cfg.cactusReset * (cfg.rows / cfg.refchunks))
      ≤ cfg.refchunks / cfg.cactusReset * (cfg.cactusReset * (cfg.rows / cfg.refchunks)) :=
        Nat.mul_le_mul_right _ hq
    _ = cfg.refchunks / cfg.cactusReset * cfg.cactusReset * (cfg.rows / cfg.refchunks) :=
        (mul_assoc _ _ _).symm
    _ ≤ cfg.refchunks * (cfg.rows / cfg.refchunks) :=
        Nat.mul_le_mul_right _ (Nat.div_mul_le_self _ _)
    _ ≤ cfg.rows := Nat.mul_div_le _ _
  rw [Nat.add_mul, one_mul] at hslice
  unfold InRank
  rw [Nat.add_mul]
  omega

/-- Any call but an activation of the rank clears the register or keeps it, and then does not reset
the counter it holds. -/
theorem register_apply {cs cs' : ChannelState} (rank : ℕ) (hmode : cfg.cactusMode ≠ 0)
    (hop : ∀ i rowid clk hi hrow, op ≠ .cactusPreact i rowid clk hi hrow)
    (h : op.apply cs = .ok cs') :
    0 ≤ cs.cactusTrefMaxCounterIdx rank ∧ cs'.cactusTrefMaxCounterIdx rank = -1 ∨
      cs'.cactusTrefMaxCounterIdx rank = cs.cactusTrefMaxCounterIdx rank ∧
        ∀ m : ℕ, cs.cactusTrefMaxCounterIdx rank = m → InRank cfg rank m →
          ∀ e ∈ op.events cs, CounterEvent.resetsCactus cfg m e = false := by
  have hreg : cs'.cactusTrefMaxCounterIdx = cs'.counters.maxIdx := rfl
  cases op with
  | cactusPreact i rowid clk hi hrow => exact absurd rfl (hop i rowid clk hi hrow)
  | cactusRefresh r shouldReset hchunks =>
    cases h
    cases shouldReset with
    | false => exact .inr ⟨by simp [cactusRefresh], by simp [CounterOp.events]⟩
    | true =>
      rw [hreg, cactusRefresh_counters hmode]
      have hresets (m : ℕ) (hm : ¬InChunk (cs.cactusChunk cfg r) m) :
          ∀ e ∈ (.cactusRefresh r true hchunks : CounterOp cfg).events cs,
            CounterEvent.resetsCactus cfg m e = false := by
        intro e he
        obtain rfl : e = .cactusRefresh r cs.refIdx := by simpa [CounterOp.events] using he
        exact Bool.eq_false_iff.mpr fun htrue => hm (by
          simpa [CounterEvent.resetsCactus, InChunk, cactusChunk, cactusSize] using htrue)
      by_cases hr : r = rank
      · subst hr
        by_cases hin : 0 ≤ cs.cactusTrefMaxCounterIdx r ∧
            InChunk (cs.cactusChunk cfg r) (cs.cactusTrefMaxCounterIdx r).toNat
        · exact .inl ⟨hin.1, by simp [hin]⟩
        · refine .inr ⟨by simp only [if_neg hin], fun m hm _ => hresets m fun hchunk => hin ?_⟩
          rw [hm]
          exact ⟨Int.natCast_nonneg m, hchunk⟩
      · refine .inr ⟨?_, fun m _ hin => hresets m fun hchunk => hr ?_⟩
        · have hne : (rank : ℤ) ≠ r := by omega
          dsimp only
          split_ifs
          · exact Function.update_of_ne hne _ _
          · rfl
        · simpa using inRank_unique (inRank_of_inChunk hchunks hchunk) hin
  | cactusMitigCounter r idx hidx =>
    rw [hreg, cactusMitigCounter_counters hmode h]
    have hresets (m : ℕ) (hm : idx ≠ m) :
        ∀ e ∈ (CounterOp.cactusMitigCounter r idx hidx).events cs,
          CounterEvent.resetsCactus cfg m e = false := by
      intro e he
      obtain rfl : e = .cactusMitig idx := by simpa [CounterOp.events] using he
      simpa [CounterEvent.resetsCactus] using hm
    by_cases hr : r = rank
    · subst hr
      by_cases hin : cs.cactusTrefMaxCounterIdx r = idx
      · exact .inl ⟨by omega, by simp [hin]⟩
      · refine .inr ⟨by simp only [if_neg hin], fun m hm _ => hresets m ?_⟩
        omega
    · refine .inr ⟨?_, fun m _ hin => hresets m fun heq => hr ?_⟩
      · have hne : (rank : ℤ) ≠ r := by omega
        dsimp only
        split_ifs
        · exact Function.update_of_ne hne _ _
        · rfl
      · subst heq
        simpa using inRank_unique hidx hin
  | dreamPreact i rowid =>
    obtain ⟨idx, q, _, hcounters⟩ := dreamPreact_counters h
    rw [hreg, hcounters]
    exact .inr ⟨rfl, fun m _ _ e he => by simp_all [CounterOp.events, CounterEvent.resetsCactus]⟩
  | dreamRefresh shouldReset =>
    cases h
    refine .inr ⟨?_, fun m _ _ e he => ?_⟩
    · unfold dreamRefresh
      dsimp only
      split_ifs <;> rfl
    · obtain ⟨_, rfl⟩ : _ ∧ e = .dreamRefresh cs.refIdx := by simpa [CounterOp.events] using he
      rfl
  | dreamMitig =>
    cases h
    refine .inr ⟨?_, fun m _ _ e he => ?_⟩
    · unfold ChannelState.dreamMitig
      split_ifs
      · rfl
      · split <;> rfl
    · simp only [CounterOp.events, List.mem_map] at he
      obtain ⟨t, _, rfl⟩ := he
      rfl
  | others cs'' =>
    cases h
    exact .inr ⟨rfl, fun m _ _ e he => by cases he⟩

/-- The register of a rank and the activations it has seen. -/
structure Greedy (boot : Boot cfg) (rank : ℕ) (s : CounterRun) : Prop where
  mapped : ∀ i rowid, .cactusPreact i rowid ∈ s.history →
    ∃ idx, boot.channelState.getCactusIdx cfg i rowid = .ok idx ∧ InRank cfg i.rank idx
  register : -1 ≤ s.cs.cactusTrefMaxCounterIdx rank
  holds : HoldsMax (boot.effective · s.history) (boot.Touched rank s.history)
    (s.cs.cactusTrefMaxCounterIdx rank).toNat?

theorem greedy_start (boot : Boot cfg) (rank : ℕ) : Greedy boot rank (start boot) where
  mapped _ _ h := by cases h
  register := le_rfl
  holds := by
    rintro idx ⟨_, _, hmem, _⟩
    cases hmem

theorem Greedy.inRank_of_touched (hs : Greedy boot rank s) {idx : ℕ}
    (h : boot.Touched rank s.history idx) : InRank cfg rank idx := by
  obtain ⟨i, rowid, hmem, hrank, hidx⟩ := h
  obtain ⟨idx', hidx', hin⟩ := hs.mapped i rowid (List.takeWhile_sublist _ |>.mem hmem)
  rw [hidx] at hidx'
  cases hidx'
  rwa [hrank] at hin

/-- A call that is not an activation. -/
theorem Greedy.step_other (hs : Greedy boot rank s) (hrank : rank < cfg.ranks)
    (hmode : cfg.cactusMode ≠ 0)
    (hop : ∀ i rowid clk hi hrow, op ≠ .cactusPreact i rowid clk hi hrow)
    (h : s.step op = .ok s') : Greedy boot rank s' := by
  obtain ⟨cs', happly, rfl⟩ := step_ok_iff.mp h
  have hevents (i : BankId) (rowid : ℕ) : .cactusPreact i rowid ∉ op.events s.cs := by
    cases op with
    | cactusPreact i rowid clk hi hrow => exact absurd rfl (hop i rowid clk hi hrow)
    | _ => simp [CounterOp.events]
  have hcleared (i : BankId) (rowid : ℕ) :
      .cactusPreact i rowid ∉ CounterOp.cleared cfg s.cs cs' := fun hmem => by
    obtain ⟨k, _, heq, _⟩ := mem_cleared hmem
    cases heq
  have hnew (i : BankId) (rowid : ℕ) :
      .cactusPreact i rowid ∉ CounterOp.cleared cfg s.cs cs' ++ op.events s.cs := by
    simp [hevents, hcleared]
  have hcount (idx : ℕ) : ∀ e ∈ CounterOp.cleared cfg s.cs cs' ++ op.events s.cs,
      CounterEvent.countsCactus boot idx e = false := by
    intro e he
    cases e with
    | cactusPreact i rowid => exact absurd he (hnew i rowid)
    | _ => rfl
  have hmapped : ∀ i rowid, .cactusPreact i rowid ∈
      CounterOp.cleared cfg s.cs cs' ++ (op.events s.cs ++ s.history) →
      ∃ idx, boot.channelState.getCactusIdx cfg i rowid = .ok idx ∧ InRank cfg i.rank idx := by
    intro i rowid hmem
    apply hs.mapped
    simpa [hevents, hcleared] using hmem
  simp only [← List.append_assoc] at hmapped ⊢
  obtain ⟨hold, hclear⟩ | ⟨hkeep, hresets⟩ := register_apply rank hmode hop happly
  · -- the register is cleared and nothing was touched since
    have hmem : .maxCleared rank ∈ CounterOp.cleared cfg s.cs cs' ++ op.events s.cs := by
      apply List.mem_append_left
      simpa [CounterOp.cleared] using ⟨hrank, hold, hclear⟩
    refine ⟨hmapped, hclear.ge, ?_⟩
    rw [hclear]
    exact fun idx => Boot.not_touched_append hmem hnew
  · have hmem : .maxCleared rank ∉ CounterOp.cleared cfg s.cs cs' ++ op.events s.cs := by
      intro hmem
      obtain hmem | hmem := List.mem_append.mp hmem
      · obtain ⟨k, _, heq, hold, hclear⟩ := mem_cleared hmem
        cases heq
        omega
      · cases op <;> simp [CounterOp.events] at hmem
    refine ⟨hmapped, hkeep ▸ hs.register, ?_⟩
    rw [hkeep]
    refine (hs.holds.lower (fun idx _ => Boot.effective_append_le (hcount idx)) ?_).congr
      fun idx => Boot.touched_append_iff hmem hnew
    intro m hm
    have hheld : HoldsMax (boot.effective · s.history) (boot.Touched rank s.history) (some m) :=
      hm ▸ hs.holds
    have hin := hs.inRank_of_touched hheld.1
    apply Boot.effective_append_eq
    intro e he
    refine ⟨hcount m e he, ?_⟩
    obtain he | he := List.mem_append.mp he
    · obtain ⟨k, _, rfl, _⟩ := mem_cleared he
      rfl
    · exact hresets m (Int.mem_toNat?.mp hm) hin e he

theorem cactusVal_congr {cs cs' : ChannelState} {r : ℤ} {n : ℕ}
    (h : cs'.counters = { cs.counters with
      cactus := (cs.cactusCounted n).cactus
      maxIdx := (cs.cactusCounted n).maxAfter cfg r n }) (idx : ℕ) :
    (cs.cactusCounted n).cactusVal cfg idx = cs'.cactusVal cfg idx := by
  have hcactus : cs'.cactus = (cs.cactusCounted n).cactus := congrArg Counters.cactus h
  have hprev : cs'.cactusPrev = cs.cactusPrev := congrArg Counters.cactusPrev h
  unfold cactusVal
  rw [hcactus, hprev]
  rfl

/-- The registers that an activation leaves. -/
theorem maxAfter_eq (htref : cfg.trefEnable = 1 ∧ cfg.trefMode = 1) (cs : ChannelState) (r : ℤ)
    (n : ℕ) : cs.maxAfter cfg r n =
      if cs.cactusTrefMaxCounterIdx r < 0 ∨
        cs.cactusVal cfg (cs.cactusTrefMaxCounterIdx r).toNat < cs.cactusVal cfg n
      then Function.update cs.cactusTrefMaxCounterIdx r n else cs.cactusTrefMaxCounterIdx := by
  unfold maxAfter cactusTrackMax
  rw [if_pos htref]
  dsimp only
  split_ifs <;> rfl

theorem maxAfter_toNat? (htref : cfg.trefEnable = 1 ∧ cfg.trefMode = 1) (cs : ChannelState) (r : ℤ)
    (n : ℕ) : (cs.maxAfter cfg r n r).toNat? =
      if (cs.cactusTrefMaxCounterIdx r).toNat?.all fun m => cs.cactusVal cfg m < cs.cactusVal cfg n
      then some n else (cs.cactusTrefMaxCounterIdx r).toNat? := by
  rw [maxAfter_eq htref]
  cases hreg : cs.cactusTrefMaxCounterIdx r with
  | ofNat m =>
    have hpos : ¬((m : ℤ) < 0) := by omega
    by_cases hless : cs.cactusVal cfg m < cs.cactusVal cfg n
    · simp [hless, Int.toNat?]
    · simp [hless, hpos, Int.toNat?, hreg]
  | negSucc m => simp [Int.toNat?, Int.negSucc_lt_zero]

theorem maxAfter_nonneg_or (htref : cfg.trefEnable = 1 ∧ cfg.trefMode = 1) (cs : ChannelState)
    (r r' : ℤ) (n : ℕ) : 0 ≤ cs.maxAfter cfg r n r' ∨
      cs.maxAfter cfg r n r' = cs.cactusTrefMaxCounterIdx r' := by
  rw [maxAfter_eq htref]
  split_ifs
  · by_cases hr : r' = r
    · subst hr
      simp
    · exact .inr (Function.update_of_ne hr _ _)
  · exact .inr rfl

theorem maxAfter_of_ne (htref : cfg.trefEnable = 1 ∧ cfg.trefMode = 1) {cs : ChannelState}
    {r r' : ℤ} {n : ℕ} (hne : r' ≠ r) :
    cs.maxAfter cfg r n r' = cs.cactusTrefMaxCounterIdx r' := by
  rw [maxAfter_eq htref]
  split_ifs
  · exact Function.update_of_ne hne _ _
  · rfl

/-- An activation, in the rank of the register or in another one. -/
theorem Greedy.step_preact (hs : Greedy boot rank s) (hrec : Recorded boot s)
    (hmode : cfg.cactusMode ≠ 0) (htref : cfg.trefEnable = 1 ∧ cfg.trefMode = 1)
    {i : BankId} {rowid clk : ℕ} {hi : i ∈ cfg.allBanks} {hrow : rowid < cfg.rows}
    (h : s.step (.cactusPreact i rowid clk hi hrow) = .ok s') (hwrap : NoWrap boot s'.history) :
    Greedy boot rank s' := by
  have hval := (hrec.step h).cactusVal_eq hmode hwrap
  obtain ⟨cs', happly, rfl⟩ := step_ok_iff.mp h
  obtain ⟨n, hn, hcount⟩ := bind_ok_iff.mp happly
  cases hcount
  have hboot : boot.channelState.getCactusIdx cfg i rowid = .ok n := by
    rw [← getCactusIdx_congr hrec.fixed]
    exact hn
  have hpolicy : cfg.cactusPolicy = 0 ∨ cfg.cactusPolicy = 1 := by
    unfold getCactusIdx at hn
    split_ifs at hn with h0 h1
    · exact .inl h0
    · exact .inr h1
  have hin : InRank cfg i.rank n := by
    obtain ⟨idx, hidx, hin, _⟩ := getCactusIdx_spec hi hrec.fixed hpolicy hrow
    rw [hn] at hidx
    cases hidx
    exact hin
  have hcounters : (s.cs.cactusCount cfg i.rank n clk).counters = _ :=
    cactusCount_counters hmode i.rank n clk
  have hreg : (s.cs.cactusCount cfg i.rank n clk).cactusTrefMaxCounterIdx =
      (s.cs.cactusCounted n).maxAfter cfg i.rank n := congrArg Counters.maxIdx hcounters
  -- an activation never clears a register
  have hcleared : CounterOp.cleared cfg s.cs (s.cs.cactusCount cfg i.rank n clk) = [] := by
    rw [List.eq_nil_iff_forall_not_mem]
    intro e he
    obtain ⟨k, _, _, hold, hnew⟩ := mem_cleared he
    rw [hreg] at hnew
    obtain hpos | hkeep := maxAfter_nonneg_or htref (s.cs.cactusCounted n) i.rank k n
    · omega
    · have hsame : (s.cs.cactusCounted n).cactusTrefMaxCounterIdx k =
          s.cs.cactusTrefMaxCounterIdx k := rfl
      omega
  rw [hcleared] at hwrap hval ⊢
  have hhist : [] ++ ((CounterOp.cactusPreact i rowid clk hi hrow).events s.cs ++ s.history) =
      .cactusPreact i rowid :: s.history := rfl
  rw [hhist] at hwrap hval ⊢
  have heffective (idx : ℕ) : boot.effective idx (.cactusPreact i rowid :: s.history) =
      boot.effective idx s.history + (decide (n = idx)).toNat := by
    rw [Boot.effective_cons_of_not_reset rfl]
    simp only [CounterEvent.countsCactus, hboot]
  have hmem : .maxCleared rank ∉ [CounterEvent.cactusPreact i rowid] := by simp
  refine ⟨?_, ?_, ?_⟩
  · intro i' rowid' hmem'
    obtain heq | hmem' := List.mem_cons.mp hmem'
    · cases heq
      exact ⟨n, hboot, hin⟩
    · exact hs.mapped i' rowid' hmem'
  · have hold := hs.register
    dsimp only
    rw [hreg]
    obtain hpos | hkeep := maxAfter_nonneg_or htref (s.cs.cactusCounted n) i.rank rank n
    · omega
    · rw [hkeep]
      exact hold
  · dsimp only
    rw [hreg]
    have htouched (idx : ℕ) : boot.Touched rank (.cactusPreact i rowid :: s.history) idx ↔
        (i.rank = rank ∧ idx = n) ∨ boot.Touched rank s.history idx := by
      unfold Boot.Touched
      rw [← List.singleton_append, Boot.sinceCleared_append_of_notMem hmem]
      constructor
      · rintro ⟨i', rowid', hmem', hrank', hidx'⟩
        obtain heq | hmem' := List.mem_append.mp hmem'
        · cases List.mem_singleton.mp heq
          rw [hboot] at hidx'
          cases hidx'
          exact .inl ⟨hrank', rfl⟩
        · exact .inr ⟨i', rowid', hmem', hrank', hidx'⟩
      · rintro (⟨hrank', rfl⟩ | ⟨i', rowid', hmem', hrest⟩)
        · exact ⟨i, rowid, List.mem_append_left _ List.mem_cons_self, hrank', hboot⟩
        · exact ⟨i', rowid', List.mem_append_right _ hmem', hrest⟩
    by_cases hr : i.rank = rank
    · have hvals : (s.cs.cactusCounted n).cactusVal cfg =
          (boot.effective · (.cactusPreact i rowid :: s.history)) := by
        funext idx
        rw [← hval idx]
        exact cactusVal_congr hcounters idx
      rw [hr, maxAfter_toNat? htref, hvals]
      exact hs.holds.count (by simp [heffective]) (fun idx hne => by simp [heffective, hne.symm])
        fun idx => by simp [htouched, hr]
    · rw [maxAfter_of_ne htref (Ne.symm hr)]
      -- the counted index is of another rank than those the register has seen
      have hsame (idx : ℕ) (htouch : boot.Touched rank s.history idx) :
          boot.effective idx (.cactusPreact i rowid :: s.history) = boot.effective idx s.history := by
        have hne : n ≠ idx := fun heq => by
          have hranks := inRank_unique hin (heq ▸ hs.inRank_of_touched htouch)
          obtain ⟨⟨r, _, hr'⟩, _⟩ := cfg.mem_allBanks.mp hi
          omega
        simp [heffective, hne]
      refine (hs.holds.lower (fun idx hidx => (hsame idx hidx).le) fun m hm => ?_).congr
        fun idx => by simp [htouched, hr]
      have hheld : HoldsMax (boot.effective · s.history) (boot.Touched rank s.history) (some m) :=
        hm ▸ hs.holds
      exact hsame m hheld.1

theorem Greedy.step (hs : Greedy boot rank s) (hrec : Recorded boot s) (hrank : rank < cfg.ranks)
    (hmode : cfg.cactusMode ≠ 0) (htref : cfg.trefEnable = 1 ∧ cfg.trefMode = 1)
    (h : s.step op = .ok s') (hwrap : NoWrap boot s'.history) : Greedy boot rank s' := by
  by_cases hop : ∃ i rowid clk hi hrow, op = .cactusPreact i rowid clk hi hrow
  · obtain ⟨i, rowid, clk, hi, hrow, rfl⟩ := hop
    exact hs.step_preact hrec hmode htref h hwrap
  · exact hs.step_other hrank hmode
      (fun i rowid clk hi hrow heq => hop ⟨i, rowid, clk, hi, hrow, heq⟩) h

theorem history_suffix_step (h : s.step op = .ok s') : s.history <:+ s'.history := by
  obtain ⟨cs', _, rfl⟩ := step_ok_iff.mp h
  exact (List.suffix_append _ _).trans (List.suffix_append _ _)

/-- While no word wraps, the register stays greedy along every run. -/
theorem greedy_run (hrank : rank < cfg.ranks) (hmode : cfg.cactusMode ≠ 0)
    (htref : cfg.trefEnable = 1 ∧ cfg.trefMode = 1) {ops : List (CounterOp cfg)}
    (h : (start boot).run ops = .ok s) (hwrap : NoWrap boot s.history) : Greedy boot rank s := by
  have hinv := foldlM_invariant
    (P := fun s => Recorded boot s ∧ (NoWrap boot s.history → Greedy boot rank s))
    (fun s op _ s' hs hstep => by
      refine ⟨hs.1.step hstep, fun hwrap => ?_⟩
      have hold := hs.2 fun h' hsuf => hwrap h' (hsuf.trans (history_suffix_step hstep))
      exact hold.step hs.1 hrank hmode htref hstep hwrap)
    h ⟨recorded_start boot, fun _ => greedy_start boot rank⟩
  exact hinv.2 hwrap

end CounterRun

/-- While no word wraps, the register of a rank is `-1` exactly when no activation of the rank
followed its last clearing. Otherwise it is a counter of the rank with a positive value that no
counter activated since then exceeds, so a mitigation never finds it at zero. -/
theorem max_register_matches_scan (cfg : Config) (hmode : cfg.cactusMode = 1)
    (henable : cfg.trefEnable = 1) (hgreedy : cfg.trefMode = 1) (boot : Boot cfg)
    (ops : List (CounterOp cfg)) (s : CounterRun)
    (hrun : (CounterRun.start boot).run ops = .ok s)
    (hwrap : CounterRun.NoWrap boot s.history) (rank : ℕ) (hrank : rank < cfg.ranks) :
    (s.cs.cactusTrefMaxCounterIdx rank = -1 ↔
      ∀ (i : BankId) (rowid : ℕ), .cactusPreact i rowid ∈ Boot.sinceCleared rank s.history →
        i.rank ≠ rank) ∧
    (s.cs.cactusTrefMaxCounterIdx rank ≠ -1 → ∃ m : ℕ, s.cs.cactusTrefMaxCounterIdx rank = m ∧
      ChannelState.InRank cfg rank m ∧ 1 ≤ s.cs.cactusVal cfg m ∧
      ∀ (i : BankId) (rowid : ℕ), .cactusPreact i rowid ∈ Boot.sinceCleared rank s.history →
        i.rank = rank → ∃ idx, s.cs.getCactusIdx cfg i rowid = .ok idx ∧
          s.cs.cactusVal cfg idx ≤ s.cs.cactusVal cfg m) := by
  have hrec := (CounterRun.recorded_start boot).run hrun
  have hs := CounterRun.greedy_run hrank (by omega) ⟨henable, hgreedy⟩ hrun hwrap
  have hval := hrec.cactusVal_eq (by omega) hwrap
  have hidx (i : BankId) (rowid : ℕ) (hmem : .cactusPreact i rowid ∈ Boot.sinceCleared rank s.history)
      (hi : i.rank = rank) : ∃ idx, boot.channelState.getCactusIdx cfg i rowid = .ok idx ∧
        boot.Touched rank s.history idx := by
    obtain ⟨idx, hidx, _⟩ := hs.mapped i rowid (List.takeWhile_sublist _ |>.mem hmem)
    exact ⟨idx, hidx, i, rowid, hmem, hi, hidx⟩
  have hholds := hs.holds
  have hlow := hs.register
  cases hreg : s.cs.cactusTrefMaxCounterIdx rank with
  | negSucc n =>
    rw [hreg] at hholds hlow
    obtain rfl : n = 0 := by omega
    refine ⟨⟨fun _ i rowid hmem hi => ?_, fun _ => rfl⟩, fun hne => absurd rfl hne⟩
    obtain ⟨idx, _, htouch⟩ := hidx i rowid hmem hi
    exact hholds idx htouch
  | ofNat m =>
    rw [hreg] at hholds
    obtain ⟨htouch, hpos, hmax⟩ := hholds
    refine ⟨⟨fun hneg => absurd hneg (by simp), fun hnone => ?_⟩, fun _ => ⟨m, rfl,
      hs.inRank_of_touched htouch, ?_, fun i rowid hmem hi => ?_⟩⟩
    · obtain ⟨i, rowid, hmem, hi, _⟩ := htouch
      exact absurd hi (hnone i rowid hmem)
    · rw [hval]
      exact hpos
    · obtain ⟨idx, hidx, htouch⟩ := hidx i rowid hmem hi
      rw [ChannelState.getCactusIdx_congr hrec.fixed]
      refine ⟨idx, hidx, ?_⟩
      rw [hval, hval]
      exact hmax idx htouch

theorem max_register_matches_scan_small : ∃ s : CounterRun,
    (CounterRun.start ({} : Boot cactusConfig)).run cactusOps = .ok s ∧
    s.cs.cactusTrefMaxCounterIdx (0 : ℕ) = 1 ∧ 1 ≤ s.cs.cactusVal cactusConfig 1 := by
  obtain ⟨s, hrun, hs⟩ := exists_ok_of_any
    (x := (CounterRun.start ({} : Boot cactusConfig)).run cactusOps)
    (p := fun s => s.history.length = 5 && s.cs.cactusTrefMaxCounterIdx (0 : ℕ) = 1)
    (by decide +kernel)
  simp only [Bool.and_eq_true, decide_eq_true_eq] at hs
  -- a value counts events of the history
  have hwrap : CounterRun.NoWrap ({} : Boot cactusConfig) s.history := by
    intro h' hsuf idx
    have hlen := hsuf.length_le
    have hval : ({} : Boot cactusConfig).effective idx h' ≤ h'.length :=
      List.countP_le_length.trans (List.takeWhile_sublist _).length_le
    omega
  obtain ⟨m, hm, _, hpos, _⟩ := (max_register_matches_scan cactusConfig rfl rfl rfl {} cactusOps s hrun
    hwrap 0 (by decide)).2 (by rw [hs.2]; decide)
  have hone : m = 1 := by
    rw [hs.2] at hm
    omega
  exact ⟨s, hrun, hs.2, hone ▸ hpos⟩

end CactusDram

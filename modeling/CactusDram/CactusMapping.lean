import CactusDram.Abacus
import CactusDram.Channel.Issue
import Mathlib.Data.List.GetD

/-! The CACTUS counters of a rank: every counter stands for one row of every bank, through the
permutations that the constructor lays out in two flat tables. -/
namespace CactusDram
open Foundations

namespace Boot
variable {cfg : Config} (boot : Boot cfg)

theorem rowPerm_perm (b : ℕ) : (boot.rowPerm b).Perm (List.range cfg.rows) := by
  unfold rowPerm
  split_ifs
  · exact boot.shuffle_perm b
  · exact .refl _

theorem rowPerm_length (b : ℕ) : (boot.rowPerm b).length = cfg.rows := by
  simpa using (boot.rowPerm_perm b).length_eq

theorem rowPerm_lt {b k : ℕ} (hk : k < cfg.rows) : (boot.rowPerm b).getD k 0 < cfg.rows := by
  have hlen : k < (boot.rowPerm b).length := by rwa [boot.rowPerm_length b]
  rw [List.getD_eq_getElem _ _ hlen]
  exact List.mem_range.mp ((boot.rowPerm_perm b).mem_iff.mp (List.getElem_mem hlen))

theorem rowPerm_inj {b k l : ℕ} (hk : k < cfg.rows) (hl : l < cfg.rows)
    (h : (boot.rowPerm b).getD k 0 = (boot.rowPerm b).getD l 0) : k = l := by
  have hklen : k < (boot.rowPerm b).length := by rwa [boot.rowPerm_length b]
  have hllen : l < (boot.rowPerm b).length := by rwa [boot.rowPerm_length b]
  have hnodup : (boot.rowPerm b).Nodup := (boot.rowPerm_perm b).nodup_iff.mpr List.nodup_range
  rw [List.getD_eq_getElem _ _ hklen, List.getD_eq_getElem _ _ hllen] at h
  exact hnodup.getElem_inj_iff.mp h

theorem exists_rowPerm_eq (b : ℕ) {row : ℕ} (hrow : row < cfg.rows) :
    ∃ k < cfg.rows, (boot.rowPerm b).getD k 0 = row := by
  have hmem : row ∈ boot.rowPerm b := by
    apply (boot.rowPerm_perm b).mem_iff.mpr
    exact List.mem_range.mpr hrow
  obtain ⟨k, hk, hget⟩ := List.getElem_of_mem hmem
  refine ⟨k, by rwa [boot.rowPerm_length b] at hk, ?_⟩
  rw [List.getD_eq_getElem _ _ hk, hget]

/-- The slices of two banks do not overlap. -/
lemma slice_disjoint {a b k l n : ℕ} (hk : k < n) (hl : l < n) (hab : a ≠ b) :
    a * n + k ≠ b * n + l := by
  intro h
  exact hab (ChannelState.coordinates_inj hk hl h).1

theorem permuteBank_perms {tables : (ℕ → ℕ) × (ℕ → ℕ)} {b k : ℕ} (hk : k < cfg.rows) :
    (boot.permuteBank tables b).1 (b * cfg.rows + k) = (boot.rowPerm b).getD k 0 := by
  simp [permuteBank, hk]

theorem permuteBank_perms_of_ne {tables : (ℕ → ℕ) × (ℕ → ℕ)} {a b k : ℕ} (hk : k < cfg.rows)
    (hab : a ≠ b) : (boot.permuteBank tables b).1 (a * cfg.rows + k) = tables.1 (a * cfg.rows + k) := by
  simp only [permuteBank, ite_eq_right_iff, and_imp]
  intro hle hlt
  have hpos : a * cfg.rows + k - b * cfg.rows < cfg.rows := by omega
  refine absurd ?_ (slice_disjoint hk hpos hab)
  omega

/-- The writes into the slice of the bank invert its row order. -/
theorem permuteBank_inverse {tables : (ℕ → ℕ) × (ℕ → ℕ)} {b k : ℕ} (hk : k < cfg.rows) :
    (boot.permuteBank tables b).2 (b * cfg.rows + (boot.rowPerm b).getD k 0) = k := by
  have hkey : ∀ l < cfg.rows, (boot.permuteBank tables b).1 (b * cfg.rows + l) =
      (boot.rowPerm b).getD l 0 := fun l hl => boot.permuteBank_perms hl
  have hwrite : writeAll (fun l => b * cfg.rows + (boot.permuteBank tables b).1 (b * cfg.rows + l)) id
      (List.range cfg.rows) tables.2
        (b * cfg.rows + (boot.permuteBank tables b).1 (b * cfg.rows + k)) = k := by
    apply writeAll_of_mem (List.mem_range.mpr hk)
    intro l hl h
    have hl := List.mem_range.mp hl
    rw [hkey l hl, hkey k hk] at h
    exact boot.rowPerm_inj hl hk (Nat.add_left_cancel h)
  rw [hkey k hk] at hwrite
  exact hwrite

theorem permuteBank_inverse_of_ne {tables : (ℕ → ℕ) × (ℕ → ℕ)} {a b k : ℕ} (hk : k < cfg.rows)
    (hab : a ≠ b) : (boot.permuteBank tables b).2 (a * cfg.rows + k) = tables.2 (a * cfg.rows + k) := by
  apply writeAll_of_notMem
  intro l hl
  have hl := List.mem_range.mp hl
  change b * cfg.rows + (boot.permuteBank tables b).1 (b * cfg.rows + l) ≠ _
  rw [boot.permuteBank_perms hl]
  exact (slice_disjoint hk (boot.rowPerm_lt hl) hab).symm

/-- After the loop over the first `n` banks, the slices of these banks hold their row orders and
the inverses. -/
theorem cactusTables_slice {n b k : ℕ} (hb : b < n) (hk : k < cfg.rows) :
    let tables := (List.range n).foldl boot.permuteBank (fun _ => 0, fun _ => 0)
    tables.1 (b * cfg.rows + k) = (boot.rowPerm b).getD k 0 ∧
      tables.2 (b * cfg.rows + (boot.rowPerm b).getD k 0) = k := by
  induction n with
  | zero => omega
  | succ n ih =>
    simp only [List.range_succ, List.foldl_append, List.foldl_cons, List.foldl_nil]
    by_cases hbn : b = n
    · subst hbn
      exact ⟨boot.permuteBank_perms hk, boot.permuteBank_inverse hk⟩
    · obtain ⟨hperms, hinv⟩ := ih (by omega)
      rw [boot.permuteBank_perms_of_ne hk hbn,
        boot.permuteBank_inverse_of_ne (boot.rowPerm_lt hk) hbn]
      exact ⟨hperms, hinv⟩

theorem cactusRowPerms_eq {b k : ℕ} (hb : b < ChannelState.totalBanks cfg) (hk : k < cfg.rows) :
    boot.cactusRowPerms (b * cfg.rows + k) = (boot.rowPerm b).getD k 0 :=
  (boot.cactusTables_slice hb hk).1

theorem cactusInvRowPerms_eq {b k : ℕ} (hb : b < ChannelState.totalBanks cfg) (hk : k < cfg.rows) :
    boot.cactusInvRowPerms (b * cfg.rows + (boot.rowPerm b).getD k 0) = k :=
  (boot.cactusTables_slice hb hk).2

end Boot

namespace ChannelState
variable {cfg : Config} {cs : ChannelState} {boot : Boot cfg} {i : BankId}

/-- The counters of a rank. -/
def InRank (cfg : Config) (rank : ℤ) (idx : ℕ) : Prop :=
  rank.toNat * cfg.rows ≤ idx ∧ idx < (rank.toNat + 1) * cfg.rows

instance (cfg : Config) (rank : ℤ) (idx : ℕ) : Decidable (InRank cfg rank idx) :=
  inferInstanceAs (Decidable (_ ∧ _))

theorem inRank_add {rank : ℤ} {k : ℕ} (hk : k < cfg.rows) :
    InRank cfg rank (rank.toNat * cactusSize cfg + k) := by
  unfold InRank cactusSize
  rw [Nat.add_mul]
  omega

theorem inRank_unique {rank rank' : ℤ} {idx : ℕ} (h : InRank cfg rank idx)
    (h' : InRank cfg rank' idx) : rank.toNat = rank'.toNat := by
  obtain ⟨hle, hlt⟩ := h
  obtain ⟨hle', hlt'⟩ := h'
  rw [Nat.add_mul] at hlt hlt'
  have hk : idx - rank.toNat * cfg.rows < cfg.rows := by omega
  have hk' : idx - rank'.toNat * cfg.rows < cfg.rows := by omega
  refine (coordinates_inj hk hk' ?_).1
  omega

/-- The position of a counter among those of its rank. -/
theorem localIdx_eq (hi : i ∈ cfg.allBanks) {k : ℕ} (hk : k < cfg.rows) :
    u32 (((i.rank.toNat * cactusSize cfg + k : ℕ) : ℤ) - i.rank.toNat * cactusSize cfg) = k := by
  have hsize : totalBanks cfg * cfg.rows < 2 ^ 31 := cfg.rows_lt
  have hrows : cfg.rows ≤ totalBanks cfg * cfg.rows :=
    Nat.le_mul_of_pos_left _ (Nat.zero_lt_of_lt (bankIdx_lt hi))
  unfold u32
  push_cast
  omega

theorem getCactusRowIdx_eq (hi : i ∈ cfg.allBanks) (hcs : cs.fixed = boot.channelState.fixed)
    (hpolicy : cfg.cactusPolicy = 0 ∨ cfg.cactusPolicy = 1) {k : ℕ} (hk : k < cfg.rows) :
    cs.getCactusRowIdx cfg i (i.rank.toNat * cactusSize cfg + k) =
      .ok ((boot.rowPerm (bankIdx cfg i)).getD k 0) := by
  have hperms : cs.cactusRowPerms = boot.cactusRowPerms := congrArg (·.2.1) hcs
  unfold getCactusRowIdx
  rw [localIdx_eq hi hk]
  rcases hpolicy with hpol | hpol
  · simp [hpol, Boot.rowPerm, hk]
  · simp only [hpol, if_neg one_ne_zero, if_true, hperms]
    rw [boot.cactusRowPerms_eq (bankIdx_lt hi) hk]

theorem getCactusIdx_rowPerm (hi : i ∈ cfg.allBanks) (hcs : cs.fixed = boot.channelState.fixed)
    (hpolicy : cfg.cactusPolicy = 0 ∨ cfg.cactusPolicy = 1) {k : ℕ} (hk : k < cfg.rows) :
    cs.getCactusIdx cfg i ((boot.rowPerm (bankIdx cfg i)).getD k 0) =
      .ok (i.rank.toNat * cactusSize cfg + k) := by
  have hinv : cs.cactusInvRowPerms = boot.cactusInvRowPerms := congrArg (·.2.2) hcs
  unfold getCactusIdx
  rcases hpolicy with hpol | hpol
  · simp [hpol, Boot.rowPerm, hk]
  · simp only [hpol, if_neg one_ne_zero, if_true, hinv]
    rw [boot.cactusInvRowPerms_eq (bankIdx_lt hi) hk]

/-- The counter of a row is one of its rank, and leads back to the row. -/
theorem getCactusIdx_spec (hi : i ∈ cfg.allBanks) (hcs : cs.fixed = boot.channelState.fixed)
    (hpolicy : cfg.cactusPolicy = 0 ∨ cfg.cactusPolicy = 1) {row : ℕ} (hrow : row < cfg.rows) :
    ∃ idx, cs.getCactusIdx cfg i row = .ok idx ∧ InRank cfg i.rank idx ∧
      cs.getCactusRowIdx cfg i idx = .ok row := by
  obtain ⟨k, hk, rfl⟩ := boot.exists_rowPerm_eq (bankIdx cfg i) hrow
  refine ⟨_, getCactusIdx_rowPerm hi hcs hpolicy hk, inRank_add hk, ?_⟩
  exact getCactusRowIdx_eq hi hcs hpolicy hk

/-- The row of a counter is one of the bank, and leads back to the counter. -/
theorem getCactusRowIdx_spec (hi : i ∈ cfg.allBanks) (hcs : cs.fixed = boot.channelState.fixed)
    (hpolicy : cfg.cactusPolicy = 0 ∨ cfg.cactusPolicy = 1) {idx : ℕ}
    (hidx : InRank cfg i.rank idx) :
    ∃ row, row < cfg.rows ∧ cs.getCactusRowIdx cfg i idx = .ok row ∧
      cs.getCactusIdx cfg i row = .ok idx := by
  obtain ⟨hle, hlt⟩ := hidx
  rw [Nat.add_mul] at hlt
  obtain ⟨k, rfl⟩ := Nat.exists_eq_add_of_le hle
  have hk : k < cfg.rows := by omega
  exact ⟨_, boot.rowPerm_lt hk, getCactusRowIdx_eq hi hcs hpolicy hk,
    getCactusIdx_rowPerm hi hcs hpolicy hk⟩

end ChannelState

/-- Under both policies and for every outcome of the shuffles, the counters of a rank and the rows
of each of its banks correspond one to one, and ranks share no counter. -/
theorem cactus_mapping_round_trip (cfg : Config) (boot : Boot cfg) (cs : ChannelState)
    (hcs : cs.fixed = boot.channelState.fixed)
    (hpolicy : cfg.cactusPolicy = 0 ∨ cfg.cactusPolicy = 1) (i : BankId) (hi : i ∈ cfg.allBanks) :
    (∀ row < cfg.rows, ∃ idx, cs.getCactusIdx cfg i row = .ok idx ∧
        i.rank.toNat * cfg.rows ≤ idx ∧ idx < (i.rank.toNat + 1) * cfg.rows ∧
        cs.getCactusRowIdx cfg i idx = .ok row) ∧
      (∀ idx, i.rank.toNat * cfg.rows ≤ idx → idx < (i.rank.toNat + 1) * cfg.rows →
        (∃ row, cs.getCactusRowIdx cfg i idx = .ok row ∧ cs.getCactusIdx cfg i row = .ok idx) ∧
          ∃! row, row < cfg.rows ∧ cs.getCactusIdx cfg i row = .ok idx) ∧
      ∀ j ∈ cfg.allBanks, j.rank ≠ i.rank → ∀ row < cfg.rows, ∀ row' < cfg.rows,
        cs.getCactusIdx cfg i row ≠ cs.getCactusIdx cfg j row' := by
  refine ⟨fun row hrow => ?_, fun idx hle hlt => ?_, fun j hj hne row hrow row' hrow' heq => ?_⟩
  · obtain ⟨idx, hidx, ⟨hle, hlt⟩, hback⟩ :=
      ChannelState.getCactusIdx_spec hi hcs hpolicy hrow
    exact ⟨idx, hidx, hle, hlt, hback⟩
  · obtain ⟨row, hrow, hget, hback⟩ :=
      ChannelState.getCactusRowIdx_spec hi hcs hpolicy ⟨hle, hlt⟩
    refine ⟨⟨row, hget, hback⟩, row, ⟨hrow, hback⟩, ?_⟩
    rintro row' ⟨hrow', hidx'⟩
    obtain ⟨idx', hidx, _, hget'⟩ := ChannelState.getCactusIdx_spec hi hcs hpolicy hrow'
    have hsame : idx' = idx := Except.ok.inj (hidx.symm.trans hidx')
    rw [hsame, hget] at hget'
    exact (Except.ok.inj hget').symm
  · obtain ⟨idx, hidx, hin, _⟩ := ChannelState.getCactusIdx_spec hi hcs hpolicy hrow
    obtain ⟨idx', hidx', hin', _⟩ := ChannelState.getCactusIdx_spec hj hcs hpolicy hrow'
    have hsame : idx = idx' := Except.ok.inj (hidx.symm.trans (heq.trans hidx'))
    subst hsame
    obtain ⟨⟨r, _, hr⟩, _⟩ := cfg.mem_allBanks.mp hi
    obtain ⟨⟨s, _, hs⟩, _⟩ := cfg.mem_allBanks.mp hj
    have hrank := ChannelState.inRank_unique hin hin'
    omega

/-- The random policy on the small channel, with every bank's rows in reverse order. -/
def reversedBoot : Boot { smallConfig with cactusPolicy := 1 } where
  shuffle _ := (List.range smallConfig.rows).reverse
  shuffle_perm _ := List.reverse_perm _

theorem cactus_mapping_round_trip_small :
    reversedBoot.channelState.getCactusIdx { smallConfig with cactusPolicy := 1 } ⟨0, 0, 1⟩ 3 = .ok 0 ∧
      ∃ idx, reversedBoot.channelState.getCactusIdx { smallConfig with cactusPolicy := 1 }
          ⟨0, 0, 1⟩ 3 = .ok idx ∧ 0 * 4 ≤ idx ∧ idx < (0 + 1) * 4 ∧
        reversedBoot.channelState.getCactusRowIdx { smallConfig with cactusPolicy := 1 }
          ⟨0, 0, 1⟩ idx = .ok 3 :=
  ⟨by decide, (cactus_mapping_round_trip _ reversedBoot _ rfl (.inr rfl) ⟨0, 0, 1⟩
    (by decide)).1 3 (by decide)⟩

end CactusDram

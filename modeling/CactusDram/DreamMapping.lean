import CactusDram.Samplers
import CactusDram.Foundations.Groupings

/-! The rows behind a DREAM counter: each policy splits the rows of a bank into groups of `dream_k`
rows, and counts a row with the counter of its group. -/
namespace CactusDram
open Foundations

theorem u32_mod_of_dvd {n : ℕ} (hn : n ∣ 2 ^ 32) (x : ℤ) : u32 x % n = (x % n).toNat := by
  have hpos : 0 < n := Nat.pos_of_dvd_of_pos hn (by decide)
  have hdvd : (n : ℤ) ∣ 2 ^ 32 := by exact_mod_cast Int.natCast_dvd_natCast.mpr hn
  have hnonneg := Int.emod_nonneg x (b := 2 ^ 32) (by decide)
  have hnonneg' := Int.emod_nonneg x (b := n) (by omega)
  unfold u32
  zify
  rw [Int.toNat_of_nonneg hnonneg, Int.toNat_of_nonneg hnonneg', Int.emod_emod_of_dvd x hdvd]

namespace ChannelState
variable {cfg : Config} {cs : ChannelState} {i : BankId}

/-- With powers of two, the counters times the rows of each are all the rows. -/
theorem tuscSize_mul_dreamK {a b : ℕ} (hrows : cfg.rows = 2 ^ a) (hk : cfg.dreamK = 2 ^ b)
    (hle : cfg.dreamK ≤ cfg.rows) : tuscSize cfg = 2 ^ (a - b) ∧ tuscSize cfg * cfg.dreamK = cfg.rows := by
  have hab : b ≤ a := by
    rw [hrows, hk] at hle
    exact (Nat.pow_le_pow_iff_right (by decide)).mp hle
  have hsize : tuscSize cfg = 2 ^ (a - b) := by
    rw [tuscSize, hrows, hk, Nat.pow_div hab (by decide)]
  refine ⟨hsize, ?_⟩
  rw [hsize, hrows, hk, ← pow_add, Nat.sub_add_cancel hab]

/-- Every policy is a grouping of the rows of the bank. -/
theorem exists_grouping {a b : ℕ} (hrows : cfg.rows = 2 ^ a) (hk : cfg.dreamK = 2 ^ b)
    (hle : cfg.dreamK ≤ cfg.rows)
    (hpolicy : cfg.dreamPolicy = 0 ∨ cfg.dreamPolicy = 1 ∨ cfg.dreamPolicy = 2)
    (hmasks : ∀ n < totalBanks cfg * cfg.dreamK, cs.randomMasks n < tuscSize cfg)
    (hi : i ∈ cfg.allBanks) :
    ∃ row group, Grouping (tuscSize cfg) cfg.dreamK cfg.rows row group ∧
      (∀ t l, cs.getRowIdx cfg i t l = .ok (row t l)) ∧
      ∀ r, cs.getTuscIdx cfg i r = .ok (group r) := by
  obtain ⟨hsize, hmul⟩ := tuscSize_mul_dreamK hrows hk hle
  have hpos : 0 < tuscSize cfg := hsize ▸ Nat.two_pow_pos _
  have hkpos : 0 < cfg.dreamK := hk ▸ Nat.two_pow_pos _
  obtain hp | hp | hp := hpolicy
  · refine ⟨_, _, hmul ▸ grouping_div, fun t l => ?_, fun r => ?_⟩
    · simp [getRowIdx, hp]
    · simp [getTuscIdx, hp]
  · refine ⟨_, _, hmul ▸ grouping_skewed hpos (bankIdx cfg i), fun t l => ?_, fun r => ?_⟩
    · simp [getRowIdx, hp]
    · have hdvd : tuscSize cfg ∣ 2 ^ 32 := by
        rw [hsize]
        apply Nat.pow_dvd_pow 2
        have hlt : 2 ^ a < 2 ^ 31 := by
          rw [← hrows]
          refine lt_of_le_of_lt ?_ cfg.rows_lt
          exact Nat.le_mul_of_pos_left _ (Nat.mul_pos
            (Nat.mul_pos cfg.ranks_pos cfg.bankgroups_pos) cfg.banksPerGroup_pos)
        have := (Nat.pow_lt_pow_iff_right (by decide)).mp hlt
        omega
      have hmod : ((r % tuscSize cfg : ℕ) - (bankIdx cfg i : ℤ) + tuscSize cfg) % tuscSize cfg =
          ((r : ℤ) - bankIdx cfg i) % tuscSize cfg := by
        rw [Int.add_emod_right, Int.sub_emod, Int.natCast_emod, Int.emod_emod_of_dvd _ (dvd_refl _),
          ← Int.sub_emod]
      simp only [getTuscIdx, hp, one_ne_zero, if_false, if_true]
      rw [u32_mod_of_dvd hdvd, hmod]
  · have hmask : ∀ l < cfg.dreamK,
        cs.randomMasks (bankIdx cfg i + l * totalBanks cfg) < 2 ^ (a - b) := by
      intro l hl
      rw [← hsize]
      apply hmasks
      have hlt := bankIdx_lt hi
      have hle := Nat.mul_le_mul_right (totalBanks cfg) (Nat.succ_le_of_lt hl)
      rw [Nat.succ_mul, Nat.mul_comm cfg.dreamK] at hle
      omega
    refine ⟨_, _, hmul ▸ hsize ▸ grouping_xor hkpos hmask, fun t l => ?_, fun r => ?_⟩
    · simp [getRowIdx, hp]
    · simp [getTuscIdx, hp]

end ChannelState

/-- Under all three policies and for every table of masks, the counters and offsets of a bank
correspond one to one to its rows, and the rows that a crossing queues in the bank are those that its
counter counts. -/
theorem dream_mapping_bijective (cfg : Config) (hrows : ∃ a, cfg.rows = 2 ^ a)
    (hk : ∃ b, cfg.dreamK = 2 ^ b) (hle : cfg.dreamK ≤ cfg.rows)
    (hpolicy : cfg.dreamPolicy = 0 ∨ cfg.dreamPolicy = 1 ∨ cfg.dreamPolicy = 2) (cs : ChannelState)
    (hmasks : ∀ n < ChannelState.totalBanks cfg * cfg.dreamK,
      cs.randomMasks n < ChannelState.tuscSize cfg)
    (i : BankId) (hi : i ∈ cfg.allBanks) :
    (∃ row : ℕ → ℕ → ℕ, (∀ t l, cs.getRowIdx cfg i t l = .ok (row t l)) ∧
      Set.BijOn (fun p : ℕ × ℕ => row p.1 p.2)
        (Set.Iio (ChannelState.tuscSize cfg) ×ˢ Set.Iio cfg.dreamK) (Set.Iio cfg.rows)) ∧
      (∀ r < cfg.rows, ∀ t < ChannelState.tuscSize cfg, cs.getTuscIdx cfg i r = .ok t ↔
        ∃ l < cfg.dreamK, cs.getRowIdx cfg i t l = .ok r) ∧
      ∀ t < ChannelState.tuscSize cfg, ∀ queued,
        ChannelState.DreamRows cfg cs t cfg.allBanks queued →
        ∀ r < cfg.rows, r ∈ queued i ↔ cs.getTuscIdx cfg i r = .ok t := by
  obtain ⟨a, hrows⟩ := hrows
  obtain ⟨b, hk⟩ := hk
  obtain ⟨row, group, hgrouping, hrow, hgroup⟩ :=
    ChannelState.exists_grouping hrows hk hle hpolicy hmasks hi
  have hcount : ∀ r < cfg.rows, ∀ t < ChannelState.tuscSize cfg, cs.getTuscIdx cfg i r = .ok t ↔
      ∃ l < cfg.dreamK, cs.getRowIdx cfg i t l = .ok r := by
    intro r hr t ht
    rw [hgroup r, Except.ok.injEq, hgrouping.group_eq_iff hr ht]
    simp only [hrow, Except.ok.injEq, eq_comm]
  refine ⟨⟨row, hrow, hgrouping.bijOn⟩, hcount, fun t ht queued hqueued r hr => ?_⟩
  rw [hcount r hr t ht]
  have hforall := hqueued.1 i hi
  constructor
  · intro hmem
    obtain ⟨n, hn, rfl⟩ := List.getElem_of_mem hmem
    have hlen := hforall.length_eq
    rw [List.length_range] at hlen
    have hget := hforall.get (by simpa using hlen ▸ hn) hn
    exact ⟨n, hlen ▸ hn, by simpa using hget⟩
  · rintro ⟨l, hl, hget⟩
    have hlen := hforall.length_eq
    rw [List.length_range] at hlen
    have hrow' := hforall.get (i := l) (by simpa using hl) (hlen ▸ hl)
    simp only [List.get_eq_getElem, List.getElem_range] at hrow'
    rw [hget, Except.ok.injEq] at hrow'
    rw [hrow']
    exact List.getElem_mem _

/-- Random masks on the small channel, with two rows for each counter. -/
def maskedBoot : Boot { smallConfig with dreamK := 2, dreamPolicy := 2 } where
  randomMasks n := n % 2
  randomMasks_le n := Nat.le_of_lt_succ (Nat.mod_lt n (by decide))

theorem dream_mapping_bijective_small :
    maskedBoot.channelState.getTuscIdx { smallConfig with dreamK := 2, dreamPolicy := 2 } ⟨0, 0, 1⟩ 3 =
        .ok 0 ∧
      ∃ l < 2, maskedBoot.channelState.getRowIdx { smallConfig with dreamK := 2, dreamPolicy := 2 }
        ⟨0, 0, 1⟩ 0 l = .ok 3 := by
  have hidx : maskedBoot.channelState.getTuscIdx
      { smallConfig with dreamK := 2, dreamPolicy := 2 } ⟨0, 0, 1⟩ 3 = .ok 0 := by decide
  refine ⟨hidx, ?_⟩
  exact ((dream_mapping_bijective { smallConfig with dreamK := 2, dreamPolicy := 2 } ⟨2, rfl⟩ ⟨1, rfl⟩
    (by decide) (.inr (.inr rfl)) maskedBoot.channelState (by decide) ⟨0, 0, 1⟩ (by decide)).2.1 3
    (by decide) 0 (by decide)).mp hidx

end CactusDram

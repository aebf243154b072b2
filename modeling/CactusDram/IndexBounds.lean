import CactusDram.CactusMapping
import CactusDram.Foundations.BitFields

/-! The indices that an activation computes from a decoded address, against the sizes of the tables
that the constructors allocate. -/
namespace CactusDram
open Foundations Foundations.BitFields

namespace Config
variable (cfg : Config)

/-- The bits of an address that select the row. -/
def rowBits : ℕ := min (64 - (cfg.shiftBits + cfg.roPos)) (logBase2 cfg.rows)

variable {cfg}

theorem addressMapping_row (addr : HexAddr) : (cfg.addressMapping addr).row =
    ((extract addr.toNat (cfg.shiftBits + cfg.roPos) (logBase2 cfg.rows) : ℕ) : ℤ) := by
  rw [extract_eq_and, Nat.shiftRight_add]
  rfl

theorem row_lt (addr : HexAddr) : (cfg.addressMapping addr).row.toNat < 2 ^ cfg.rowBits := by
  rw [addressMapping_row, Int.toNat_natCast, rowBits]
  have hfield := extract_lt addr.toNat (cfg.shiftBits + cfg.roPos) (logBase2 cfg.rows)
  obtain hle | hle := Nat.le_total (64 - (cfg.shiftBits + cfg.roPos)) (logBase2 cfg.rows)
  · rw [min_eq_left hle]
    refine lt_of_le_of_lt (Nat.mod_le _ _) (Nat.div_lt_of_lt_mul ?_)
    rw [← pow_add]
    exact lt_of_lt_of_le addr.isLt (Nat.pow_le_pow_right (by decide) (by omega))
  · rw [min_eq_right hle]
    exact hfield

/-- Every row that fits the bits is decoded from some address. -/
theorem exists_row {row : ℕ} (hrow : row < 2 ^ cfg.rowBits) :
    ∃ addr : HexAddr, (cfg.addressMapping addr).row = row := by
  unfold rowBits at hrow
  have hwidth : row < 2 ^ logBase2 cfg.rows :=
    lt_of_lt_of_le hrow (Nat.pow_le_pow_right (by decide) (min_le_right _ _))
  have hbits : row * 2 ^ (cfg.shiftBits + cfg.roPos) < 2 ^ 64 := by
    obtain hle | hle := Nat.le_total (cfg.shiftBits + cfg.roPos) 64
    · have hlt : row < 2 ^ (64 - (cfg.shiftBits + cfg.roPos)) :=
        lt_of_lt_of_le hrow (Nat.pow_le_pow_right (by decide) (min_le_left _ _))
      calc row * 2 ^ (cfg.shiftBits + cfg.roPos)
          < 2 ^ (64 - (cfg.shiftBits + cfg.roPos)) * 2 ^ (cfg.shiftBits + cfg.roPos) :=
            Nat.mul_lt_mul_of_pos_right hlt (Nat.two_pow_pos _)
        _ = 2 ^ 64 := by rw [← pow_add, Nat.sub_add_cancel hle]
    · have hzero : row = 0 := by
        rw [Nat.sub_eq_zero_of_le hle, Nat.zero_min, pow_zero] at hrow
        omega
      rw [hzero, Nat.zero_mul]
      exact Nat.two_pow_pos 64
  refine ⟨BitVec.ofNat 64 (row * 2 ^ (cfg.shiftBits + cfg.roPos)), ?_⟩
  rw [addressMapping_row, BitVec.toNat_ofNat, Nat.mod_eq_of_lt hbits, extract,
    Nat.mul_div_cancel _ (Nat.two_pow_pos _), Nat.mod_eq_of_lt hwidth]

end Config

/-- The indices of an activation of a decoded address lie within the tables: the bank, the row in
`prac_` and `abacus_table_`, the DREAM mask and counter, the CACTUS counter and the entry of
`cactus_inv_row_perms_`. -/
structure ActInBounds (cfg : Config) (cs : ChannelState) (a : Address) : Prop where
  bank : a.bankId ∈ cfg.allBanks
  row : 0 ≤ a.row ∧ a.row < cfg.rows
  mask : ChannelState.bankIdx cfg a.bankId + a.row.toNat % cfg.dreamK * ChannelState.totalBanks cfg <
    ChannelState.totalBanks cfg * cfg.dreamK
  tusc : ∃ idx, cs.getTuscIdx cfg a.bankId a.row.toNat = .ok idx ∧ idx < ChannelState.tuscSize cfg
  cactus : ∃ idx, cs.getCactusIdx cfg a.bankId a.row.toNat = .ok idx ∧
    idx < cfg.ranks * ChannelState.cactusSize cfg
  perm : ChannelState.bankIdx cfg a.bankId * cfg.rows + a.row.toNat <
    ChannelState.totalBanks cfg * cfg.rows

/-- The DREAM counters cover the groups of all rows that addresses select: under the first policy
there is a counter for the last group; under the random policy their number is a multiple of the
power of two above it. -/
def TuscFits (cfg : Config) : Prop :=
  let last := (2 ^ cfg.rowBits - 1) / cfg.dreamK
  (cfg.dreamPolicy = 0 → last < cfg.rows / cfg.dreamK) ∧
    (cfg.dreamPolicy = 2 → 2 ^ last.size ∣ cfg.rows / cfg.dreamK)

instance (cfg : Config) : Decidable (TuscFits cfg) := inferInstanceAs (Decidable (_ ∧ _))

namespace ChannelState
variable {cfg : Config} {cs : ChannelState} {boot : Boot cfg}

theorem tuscSize_pos (hk : 1 ≤ cfg.dreamK ∧ cfg.dreamK ≤ cfg.rows) : 0 < tuscSize cfg :=
  Nat.div_pos hk.2 hk.1

/-- The group of a decoded row is at most the last one. -/
theorem group_le (addr : HexAddr) : (cfg.addressMapping addr).row.toNat / cfg.dreamK ≤
    (2 ^ cfg.rowBits - 1) / cfg.dreamK := by
  have : (cfg.addressMapping addr).row.toNat < 2 ^ cfg.rowBits := Config.row_lt addr
  exact Nat.div_le_div_right (by omega)

theorem exists_group (hk : 1 ≤ cfg.dreamK) {g : ℕ} (hg : g ≤ (2 ^ cfg.rowBits - 1) / cfg.dreamK) :
    ∃ addr : HexAddr, (cfg.addressMapping addr).row.toNat = g * cfg.dreamK := by
  have hle := (Nat.le_div_iff_mul_le hk).mp hg
  have hpos := Nat.two_pow_pos cfg.rowBits
  obtain ⟨addr, haddr⟩ := Config.exists_row (show g * cfg.dreamK < 2 ^ cfg.rowBits by omega)
  exact ⟨addr, by rw [haddr, Int.toNat_natCast]⟩

/-- Whatever the counters, all other indices are in bounds. -/
theorem actInBounds_of_tusc (hk : 1 ≤ cfg.dreamK ∧ cfg.dreamK ≤ cfg.rows)
    (hcactus : cfg.cactusPolicy = 0 ∨ cfg.cactusPolicy = 1)
    (hcs : cs.fixed = boot.channelState.fixed) (addr : HexAddr)
    (htusc : ∃ idx, cs.getTuscIdx cfg (cfg.addressMapping addr).bankId
      (cfg.addressMapping addr).row.toNat = .ok idx ∧ idx < tuscSize cfg) :
    ActInBounds cfg cs (cfg.addressMapping addr) := by
  obtain ⟨hrank, hbg, hbank, row, hrow, hrow'⟩ := cfg.addressMapping_inRange addr
  have hi : (cfg.addressMapping addr).bankId ∈ cfg.allBanks := cfg.mem_allBanks.mpr ⟨hrank, hbg, hbank⟩
  have hidx := bankIdx_lt hi
  rw [hrow', Int.toNat_natCast] at htusc
  refine ⟨hi, ?_, ?_, ?_, ?_, ?_⟩ <;> rw [hrow']
  · omega
  · rw [Int.toNat_natCast]
    have hle := Nat.mul_le_mul_right (totalBanks cfg)
      (Nat.succ_le_of_lt (Nat.mod_lt row hk.1))
    rw [Nat.succ_mul, Nat.mul_comm cfg.dreamK] at hle
    omega
  · exact htusc
  · obtain ⟨idx, hget, ⟨_, hlt⟩, _⟩ := getCactusIdx_spec hi hcs hcactus hrow
    refine ⟨idx, hget, lt_of_lt_of_le hlt (Nat.mul_le_mul_right _ ?_)⟩
    obtain ⟨r, hr, hrank⟩ := hrank
    have heq : (cfg.addressMapping addr).bankId.rank = r := hrank
    omega
  · rw [Int.toNat_natCast]
    have hle := Nat.mul_le_mul_right cfg.rows (Nat.succ_le_of_lt hidx)
    rw [Nat.succ_mul] at hle
    omega

/-- The index of the skewed policy is reduced modulo the number of counters. -/
theorem getTuscIdx_skewed (hpolicy : cfg.dreamPolicy = 1) (hpos : 0 < tuscSize cfg) (i : BankId)
    (row : ℕ) : ∃ idx, cs.getTuscIdx cfg i row = .ok idx ∧ idx < tuscSize cfg := by
  unfold getTuscIdx
  rw [if_neg (by omega), if_pos hpolicy]
  exact ⟨_, rfl, Nat.mod_lt _ hpos⟩

end ChannelState

end CactusDram

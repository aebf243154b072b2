import CactusDram.Samplers

/-! The Hydra tables of a bank under any interleaving of their operations: the group counter, and
after its overflow the counter of the row, dominates the activations of every row. -/
namespace CactusDram
open Foundations

namespace BankState
variable {cfg : Config} {b : BankState} {cmd : Command} {rcc : LRUCache} {row : ℕ}

/-- The counters of `n` rows of a group, started at the group threshold. -/
def hydraSpread (cfg : Config) (n g : ℕ) (counts : ℕ → ℕ) : ℕ → ℕ :=
  (List.range n).foldl
    (fun counts i => Function.update counts (i * cfg.hydraGctSize + g) (u32 cfg.hydraGctTh)) counts

theorem foldl_update_stride (size g v n : ℕ) (f : ℕ → ℕ) (x : ℕ) :
    (List.range n).foldl (fun f i => Function.update f (i * size + g) v) f x =
      if ∃ i < n, x = i * size + g then v else f x := by
  induction n with
  | zero => simp
  | succ n ih =>
    rw [List.range_succ, List.foldl_append, List.foldl_cons, List.foldl_nil]
    by_cases hx : x = n * size + g
    · rw [hx, Function.update_self, if_pos ⟨n, by omega, rfl⟩]
    · rw [Function.update_of_ne hx, ih]
      refine if_congr ⟨fun ⟨i, hi, h⟩ => ⟨i, by omega, h⟩, fun ⟨i, hi, h⟩ => ⟨i, ?_, h⟩⟩ rfl rfl
      have : i ≠ n := fun he => hx (he ▸ h)
      omega

/-- The loop over a group meets exactly the rows that are counted in it. -/
theorem hydraSpread_apply (hsize : cfg.hydraGctSize ∣ cfg.rows) (counts : ℕ → ℕ) {g : ℕ}
    (hg : g < cfg.hydraGctSize) (hrow : row < cfg.rows) :
    hydraSpread cfg (cfg.rows / cfg.hydraGctSize) g counts row =
      if row % cfg.hydraGctSize = g then u32 cfg.hydraGctTh else counts row := by
  rw [hydraSpread, foldl_update_stride]
  refine if_congr ⟨?_, fun h => ⟨row / cfg.hydraGctSize, ?_, ?_⟩⟩ rfl rfl
  · rintro ⟨i, _, rfl⟩
    rw [Nat.mul_add_mod_self_right, Nat.mod_eq_of_lt hg]
  · exact Nat.div_lt_div_of_lt_of_dvd hsize hrow
  · rw [← h, Nat.mul_comm, Nat.div_add_mod]

variable (hmode : cfg.hydraMode ≠ 0) (hcmd : u32 cmd.row = row)
include hmode hcmd

/-- A count of a group that stays below its threshold. -/
theorem hydraPreact_group (hv : b.hydraGctValid (row % cfg.hydraGctSize) = true)
    (hlt : u32 (b.hydraGct (row % cfg.hydraGctSize) + 1) < u32 cfg.hydraGctTh) :
    (b.hydraPreact cfg cmd rcc).1 = { b with
      hydraGct := Function.update b.hydraGct (row % cfg.hydraGctSize)
        (u32 (b.hydraGct (row % cfg.hydraGctSize) + 1)) } := by
  simp [hydraPreact, hmode, hcmd, hv, Nat.not_le.mpr hlt]

/-- A count that makes a group overflow. -/
theorem hydraPreact_overflow (hv : b.hydraGctValid (row % cfg.hydraGctSize) = true)
    (hge : u32 cfg.hydraGctTh ≤ u32 (b.hydraGct (row % cfg.hydraGctSize) + 1)) :
    (b.hydraPreact cfg cmd rcc).1 = { b with
      hydraGct := Function.update b.hydraGct (row % cfg.hydraGctSize)
        (u32 (b.hydraGct (row % cfg.hydraGctSize) + 1))
      hydraGctValid := Function.update b.hydraGctValid (row % cfg.hydraGctSize) false
      hydraCounts := hydraSpread cfg b.numRowsPerGct (row % cfg.hydraGctSize) b.hydraCounts
      drfmQ := if u32 cfg.hydraTh ≤
            hydraSpread cfg b.numRowsPerGct (row % cfg.hydraGctSize) b.hydraCounts row then
          b.drfmQ ++ [⟨row, 0⟩] else b.drfmQ } := by
  simp only [hydraPreact, hmode, hcmd, hv, if_true, if_false, Function.update_self, hge, and_self,
    hydraSpread, Bool.false_eq_true]
  split_ifs with hth <;> simp [hth]

/-- A count of a row whose group has overflowed. -/
theorem hydraPreact_row (hv : b.hydraGctValid (row % cfg.hydraGctSize) = false) :
    (b.hydraPreact cfg cmd rcc).1 = { b with
      hydraCounts := Function.update b.hydraCounts row (u32 (b.hydraCounts row + 1))
      drfmQ := if u32 cfg.hydraTh ≤ u32 (b.hydraCounts row + 1) then b.drfmQ ++ [⟨row, 0⟩]
          else b.drfmQ } := by
  simp only [hydraPreact, hmode, hcmd, hv, if_false, Function.update_self, and_false,
    Bool.false_eq_true]
  split_ifs <;> rfl

end BankState

/-- A mitigation restarts the counter of the row it serves. -/
theorem BankState.hydraMitig_eq {cfg : Config} (hmode : cfg.hydraMode ≠ 0) (b : BankState) :
    ∃ q, b.hydraMitig cfg = { b with
      drfmQ := q
      hydraCounts := fun row => if b.drfmMitig.1 = some row then 0 else b.hydraCounts row } := by
  obtain ⟨q, hq⟩ := b.drfmMitig_eq
  refine ⟨q, ?_⟩
  unfold hydraMitig
  rw [if_neg hmode]
  generalize b.drfmMitig = p at hq
  obtain ⟨rowid, b'⟩ := p
  obtain rfl : b' = { b with drfmQ := q } := hq
  cases rowid with
  | none => simp
  | some r =>
    dsimp only
    congr 1
    funext row
    by_cases h : row = r
    · simp [h]
    · simp [Function.update_of_ne h, Ne.symm h]

/-- No tracker whose turn in the constructor of a bank comes before Hydra is on. -/
def Config.HydraFirst (cfg : Config) : Prop :=
  cfg.dreamMode ≠ 1 ∧ cfg.mintMode ≠ 1 ∧ cfg.paraMode ≠ 1 ∧ cfg.grapheneMode ≠ 1

instance (cfg : Config) : Decidable cfg.HydraFirst := inferInstanceAs (Decidable (_ ∧ _ ∧ _ ∧ _))

/-- The operations on the Hydra tables of a bank. `others` stands for everything else that happens
to the bank in between. -/
inductive HydraOp (cfg : Config)
  | preact (cmd : Command) (rcc : LRUCache) (hrow : ∃ row : ℕ, row < cfg.rows ∧ cmd.row = row)
  | refresh
  | mitig
  | others (b : BankState)

namespace HydraOp
variable {cfg : Config}

def apply (b : BankState) : HydraOp cfg → BankState
  | .preact cmd rcc _ => (b.hydraPreact cfg cmd rcc).1
  | .refresh => b.hydraRefresh cfg
  | .mitig => b.hydraMitig cfg
  | .others b' => { b' with
      hydraGct := b.hydraGct, hydraGctValid := b.hydraGctValid, hydraCounts := b.hydraCounts
      numRowsPerGct := b.numRowsPerGct }

/-- The operation resets the tables, or mitigates the row. -/
def resets (b : BankState) (row : ℕ) : HydraOp cfg → Bool
  | .refresh => b.refIdx % cfg.rows = 0
  | .mitig => b.drfmMitig.1 = some row
  | .preact _ _ _ | .others _ => false

def countsFor (row : ℕ) : HydraOp cfg → Bool
  | .preact cmd _ _ => cmd.row = row
  | _ => false

end HydraOp

/-- A run of the tables, with the counts of each row since its last reset or mitigation. -/
structure HydraRun (cfg : Config) where
  b : BankState
  calls : ℕ → ℕ := fun _ => 0

namespace HydraRun
variable {cfg : Config}

def step (s : HydraRun cfg) (op : HydraOp cfg) : HydraRun cfg where
  b := op.apply s.b
  calls row := if op.resets s.b row then 0 else s.calls row + (op.countsFor row).toNat

def run (s : HydraRun cfg) (ops : List (HydraOp cfg)) : HydraRun cfg := ops.foldl step s

def start (boot : Boot cfg) (i : BankId) : HydraRun cfg := { b := boot.bank i }

/-- The group of the row has not overflowed. -/
def valid (s : HydraRun cfg) (row : ℕ) : Bool := s.b.hydraGctValid (row % cfg.hydraGctSize)

/-- A valid group is below its threshold and has counted every activation of its rows. After an
overflow the row counter holds a number, up to a wrap-around, that is at least the activations of
the row and exceeds them by the group threshold at most. A group spreads over its rows. -/
structure Dominates (s : HydraRun cfg) : Prop where
  sized : s.b.numRowsPerGct = cfg.rows / cfg.hydraGctSize
  below : ∀ g, s.b.hydraGctValid g → (s.b.hydraGct g : ℤ) < cfg.hydraGctTh
  group : ∀ row < cfg.rows, s.valid row → s.calls row ≤ s.b.hydraGct (row % cfg.hydraGctSize)
  count : ∀ row < cfg.rows, s.valid row = false → ∃ exact : ℕ,
    s.b.hydraCounts row = exact % 2 ^ 32 ∧ s.calls row ≤ exact ∧
      (exact : ℤ) ≤ cfg.hydraGctTh + s.calls row

theorem dominates_start (hmode : cfg.hydraMode = 1) (hfirst : cfg.HydraFirst)
    (hgct : 1 ≤ cfg.hydraGctTh) (boot : Boot cfg) (i : BankId) : (start boot i).Dominates := by
  obtain ⟨hdream, hmint, hpara, hgraphene⟩ := hfirst
  have hgctZero : (start boot i).b.hydraGct = fun _ => 0 := by
    simp [start, Boot.bank, hdream, hmint, hpara, hgraphene, hmode]
  have hvalid : (start boot i).b.hydraGctValid = fun _ => true := by
    simp [start, Boot.bank, hdream, hmint, hpara, hgraphene, hmode]
  refine ⟨?_, fun g _ => ?_, fun _ _ _ => Nat.zero_le _, fun row _ hv => ?_⟩
  · simp [start, Boot.bank, hdream, hmint, hpara, hgraphene, hmode]
  · rw [hgctZero]
    change ((0 : ℕ) : ℤ) < cfg.hydraGctTh
    omega
  · simp [valid, hvalid] at hv

section Preact
variable {s : HydraRun cfg} {cmd : Command} {rcc : LRUCache} {row : ℕ}

theorem u32_row (hrow : row < cfg.rows) (hcmd : cmd.row = row) : u32 cmd.row = row := by
  have hle : cfg.rows ≤ cfg.ranks * cfg.bankgroups * cfg.banksPerGroup * cfg.rows :=
    Nat.le_mul_of_pos_left _ (Nat.mul_pos (Nat.mul_pos cfg.ranks_pos cfg.bankgroups_pos)
      cfg.banksPerGroup_pos)
  have := cfg.rows_lt
  rw [hcmd]
  unfold u32
  omega

/-- A count raises the number of its own row only. -/
theorem calls_preact (s : HydraRun cfg) (rcc : LRUCache) (hcmd : cmd.row = row)
    (h : ∃ r : ℕ, r < cfg.rows ∧ cmd.row = r) (r : ℕ) :
    (s.step (.preact cmd rcc h)).calls r = if r = row then s.calls r + 1 else s.calls r := by
  simp only [step, HydraOp.resets, HydraOp.countsFor, hcmd, Nat.cast_inj]
  by_cases hr : r = row
  · simp [hr]
  · simp [hr, Ne.symm hr]

variable (hmode : cfg.hydraMode ≠ 0) (hsize : cfg.hydraGctSize ∣ cfg.rows)
variable (hgct : 1 ≤ cfg.hydraGctTh) (hint : cfg.hydraGctTh < 2 ^ 31)

include hmode in
/-- Counting on after the overflow of the group. -/
theorem Dominates.preact_row (hs : s.Dominates) (hrow : row < cfg.rows) (hcmd : cmd.row = row)
    (hv : s.valid row = false) : (s.step (.preact cmd rcc ⟨row, hrow, hcmd⟩)).Dominates := by
  have hcalls (r : ℕ) := calls_preact s rcc hcmd ⟨row, hrow, hcmd⟩ r
  have hb : (s.step (.preact cmd rcc ⟨row, hrow, hcmd⟩)).b = _ :=
    BankState.hydraPreact_row hmode (u32_row hrow hcmd) hv
  refine ⟨by rw [hb]; exact hs.sized, fun g hg => ?_, fun r hr hvr => ?_, fun r hr hvr => ?_⟩
  · rw [hb] at hg ⊢
    exact hs.below g hg
  · simp only [valid, hb] at hvr
    have hne : r ≠ row := fun h => by
      rw [h] at hvr
      simp [show s.b.hydraGctValid (row % cfg.hydraGctSize) = false from hv] at hvr
    rw [hcalls, if_neg hne, hb]
    exact hs.group r hr hvr
  · simp only [valid, hb] at hvr
    obtain ⟨exact, hexact, hle, hge⟩ := hs.count r hr hvr
    rw [hcalls, hb]
    by_cases hne : r = row
    · subst hne
      refine ⟨exact + 1, ?_, by simpa using hle, ?_⟩
      · simp only [Function.update_self, hexact, u32]
        omega
      · simp only [if_true]
        push_cast
        omega
    · refine ⟨exact, ?_, by simpa [hne] using hle, by simpa [hne] using hge⟩
      simpa [Function.update_of_ne hne] using hexact

include hmode hint in
/-- Counting in the group. -/
theorem Dominates.preact_group (hs : s.Dominates) (hrow : row < cfg.rows) (hcmd : cmd.row = row)
    (hv : s.valid row = true)
    (hlt : (s.b.hydraGct (row % cfg.hydraGctSize) : ℤ) + 1 < cfg.hydraGctTh) :
    (s.step (.preact cmd rcc ⟨row, hrow, hcmd⟩)).Dominates := by
  have hcalls (r : ℕ) := calls_preact s rcc hcmd ⟨row, hrow, hcmd⟩ r
  have hb : (s.step (.preact cmd rcc ⟨row, hrow, hcmd⟩)).b = _ :=
    BankState.hydraPreact_group hmode (u32_row hrow hcmd) hv (by unfold u32; omega)
  have hnew : u32 ((s.b.hydraGct (row % cfg.hydraGctSize) : ℤ) + 1) =
      s.b.hydraGct (row % cfg.hydraGctSize) + 1 := by
    unfold u32
    omega
  rw [hnew] at hb
  refine ⟨by rw [hb]; exact hs.sized, fun g hg => ?_, fun r hr hvr => ?_, fun r hr hvr => ?_⟩
  · rw [hb] at hg ⊢
    by_cases hne : g = row % cfg.hydraGctSize
    · subst hne
      simpa using hlt
    · simpa [Function.update_of_ne hne] using hs.below g hg
  · simp only [valid, hb] at hvr
    have hle := hs.group r hr hvr
    rw [hcalls, hb]
    dsimp only
    by_cases hne : r % cfg.hydraGctSize = row % cfg.hydraGctSize
    · rw [hne] at hle ⊢
      rw [Function.update_self]
      split_ifs <;> omega
    · rw [Function.update_of_ne hne, if_neg fun h => hne (by rw [h])]
      exact hle
  · simp only [valid, hb] at hvr
    have hne : r ≠ row := fun h => by
      rw [h] at hvr
      simp [show s.b.hydraGctValid (row % cfg.hydraGctSize) = true from hv] at hvr
    rw [hcalls, if_neg hne, hb]
    exact hs.count r hr hvr

include hmode hsize hgct hint in
/-- The count that makes the group overflow starts the counter of each of its rows at the
threshold, which is what the group has counted. -/
theorem Dominates.preact_overflow (hs : s.Dominates) (hrow : row < cfg.rows) (hcmd : cmd.row = row)
    (hv : s.valid row = true)
    (hge : cfg.hydraGctTh ≤ (s.b.hydraGct (row % cfg.hydraGctSize) : ℤ) + 1) :
    (s.step (.preact cmd rcc ⟨row, hrow, hcmd⟩)).Dominates := by
  have hcalls (r : ℕ) := calls_preact s rcc hcmd ⟨row, hrow, hcmd⟩ r
  have hbelow := hs.below _ hv
  have hb : (s.step (.preact cmd rcc ⟨row, hrow, hcmd⟩)).b = _ :=
    BankState.hydraPreact_overflow hmode (u32_row hrow hcmd) hv (by unfold u32; omega)
  have hpos : 0 < cfg.hydraGctSize := Nat.pos_of_dvd_of_pos hsize cfg.rows_pos
  have hspread {r : ℕ} (hr : r < cfg.rows) := BankState.hydraSpread_apply hsize
    s.b.hydraCounts (Nat.mod_lt row hpos) hr
  rw [hs.sized] at hb
  refine ⟨by rw [hb], fun g hg => ?_, fun r hr hvr => ?_, fun r hr hvr => ?_⟩
  · rw [hb] at hg ⊢
    have hne : g ≠ row % cfg.hydraGctSize := fun h => by simp [h] at hg
    simp only [Function.update_of_ne hne] at hg ⊢
    exact hs.below g hg
  · simp only [valid, hb] at hvr
    have hne : r % cfg.hydraGctSize ≠ row % cfg.hydraGctSize := fun h => by simp [h] at hvr
    rw [Function.update_of_ne hne] at hvr
    rw [hcalls, if_neg fun h => hne (by rw [h]), hb]
    simpa only [Function.update_of_ne hne] using hs.group r hr hvr
  · simp only [valid, hb] at hvr
    rw [hcalls, hb]
    dsimp only
    rw [hspread hr]
    by_cases hne : r % cfg.hydraGctSize = row % cfg.hydraGctSize
    · have hle := hs.group r hr (by rw [valid, hne]; exact hv)
      rw [hne] at hle
      refine ⟨cfg.hydraGctTh.toNat, ?_, ?_, ?_⟩
      · simp only [hne, if_true, u32]
        omega
      · split_ifs <;> omega
      · split_ifs <;> omega
    · rw [Function.update_of_ne hne] at hvr
      rw [if_neg hne, if_neg fun h => hne (by rw [h])]
      exact hs.count r hr hvr

end Preact

variable {s : HydraRun cfg}

theorem Dominates.step (hs : s.Dominates) (hmode : cfg.hydraMode ≠ 0)
    (hsize : cfg.hydraGctSize ∣ cfg.rows) (hgct : 1 ≤ cfg.hydraGctTh) (hint : cfg.hydraGctTh < 2 ^ 31)
    (op : HydraOp cfg) : (s.step op).Dominates := by
  cases op with
  | preact cmd rcc h =>
    obtain ⟨row, hrow, hcmd⟩ := h
    cases hv : s.valid row with
    | false => exact hs.preact_row hmode hrow hcmd hv
    | true =>
      rcases Int.lt_or_le ((s.b.hydraGct (row % cfg.hydraGctSize) : ℤ) + 1) cfg.hydraGctTh with
        hlt | hge
      · exact hs.preact_group hmode hint hrow hcmd hv hlt
      · exact hs.preact_overflow hmode hsize hgct hint hrow hcmd hv hge
  | refresh =>
    by_cases hreset : s.b.refIdx % cfg.rows = 0
    · have hb : (s.step .refresh).b = { s.b with
          hydraGct := fun _ => 0, hydraGctValid := fun _ => true, hydraCounts := fun _ => 0 } := by
        simp [HydraRun.step, HydraOp.apply, BankState.hydraRefresh, hmode, hreset]
      have hcalls (r : ℕ) : (s.step .refresh).calls r = 0 := by
        simp [HydraRun.step, HydraOp.resets, hreset]
      refine ⟨by rw [hb]; exact hs.sized, fun g _ => ?_, fun r _ _ => ?_, fun r _ hv => ?_⟩
      · rw [hb]
        change ((0 : ℕ) : ℤ) < cfg.hydraGctTh
        omega
      · rw [hcalls]
        exact Nat.zero_le _
      · simp [valid, hb] at hv
    · have hstep : s.step .refresh = s := by
        simp [HydraRun.step, HydraOp.apply, HydraOp.resets, HydraOp.countsFor,
          BankState.hydraRefresh, hmode, hreset]
      rw [hstep]
      exact hs
  | mitig =>
    obtain ⟨q, hq⟩ := s.b.hydraMitig_eq hmode
    have hb : (s.step .mitig).b = _ := hq
    have hcalls (r : ℕ) : (s.step .mitig).calls r =
        if s.b.drfmMitig.1 = some r then 0 else s.calls r := by
      simp [HydraRun.step, HydraOp.resets, HydraOp.countsFor]
    refine ⟨by rw [hb]; exact hs.sized, fun g hg => ?_, fun r hr hv => ?_, fun r hr hv => ?_⟩
    · rw [hb] at hg ⊢
      exact hs.below g hg
    · simp only [valid, hb] at hv
      rw [hcalls, hb]
      split_ifs
      · exact Nat.zero_le _
      · exact hs.group r hr hv
    · simp only [valid, hb] at hv
      rw [hcalls, hb]
      dsimp only
      split_ifs
      · exact ⟨0, rfl, le_rfl, by omega⟩
      · exact hs.count r hr hv
  | others b => exact ⟨hs.sized, hs.below, hs.group, hs.count⟩

theorem Dominates.run (hs : s.Dominates) (hmode : cfg.hydraMode ≠ 0)
    (hsize : cfg.hydraGctSize ∣ cfg.rows) (hgct : 1 ≤ cfg.hydraGctTh) (hint : cfg.hydraGctTh < 2 ^ 31)
    (ops : List (HydraOp cfg)) : (s.run ops).Dominates := by
  induction ops generalizing s with
  | nil => exact hs
  | cons op ops ih => exact ih (hs.step hmode hsize hgct hint op)

/-- A count that reaches the threshold queues the row. -/
theorem Dominates.queues (hs : s.Dominates) (hmode : cfg.hydraMode ≠ 0)
    (hsize : cfg.hydraGctSize ∣ cfg.rows) (hth : cfg.hydraGctTh ≤ cfg.hydraTh)
    (hint : cfg.hydraTh < 2 ^ 31) {row : ℕ} (hrow : row < cfg.rows) {cmd : Command}
    (hcmd : cmd.row = row) (rcc : LRUCache) (hreach : cfg.hydraTh ≤ s.calls row + 1)
    (hwrap : cfg.hydraGctTh + (s.calls row + 1) < 2 ^ 32) :
    (s.b.hydraPreact cfg cmd rcc).1.drfmQ = s.b.drfmQ ++ [⟨row, 0⟩] := by
  cases hv : s.valid row with
  | false =>
    obtain ⟨exact, hexact, hle, hge⟩ := hs.count row hrow hv
    have hcount : u32 cfg.hydraTh ≤ u32 ((s.b.hydraCounts row : ℤ) + 1) := by
      rw [hexact]
      unfold u32
      omega
    rw [BankState.hydraPreact_row hmode (u32_row hrow hcmd) hv]
    simp [hcount]
  | true =>
    -- the group has counted the row, so it overflows now and both thresholds are equal
    have hle := hs.group row hrow hv
    have hlt := hs.below _ hv
    have hpos : 0 < cfg.hydraGctSize := Nat.pos_of_dvd_of_pos hsize cfg.rows_pos
    have heq : cfg.hydraTh = cfg.hydraGctTh := by omega
    rw [BankState.hydraPreact_overflow hmode (u32_row hrow hcmd) hv (by unfold u32; omega), hs.sized]
    simp [BankState.hydraSpread_apply hsize _ (Nat.mod_lt row hpos) hrow, heq]

end HydraRun

namespace BankState
variable {cfg : Config} {b b' : BankState} {cmd : Command}

/-- The Hydra tables agree. -/
def SameHydra (b b' : BankState) : Prop :=
  b'.hydraGct = b.hydraGct ∧ b'.hydraGctValid = b.hydraGctValid ∧ b'.hydraCounts = b.hydraCounts ∧
    b'.numRowsPerGct = b.numRowsPerGct

theorem SameHydra.of_tables {issued : Bool} (h : b'.tables = { b.tables with drfmIssued := issued }) :
    SameHydra b b' :=
  ⟨congrArg Tables.hydraGct h, congrArg Tables.hydraGctValid h, congrArg Tables.hydraCounts h,
    congrArg Tables.numRowsPerGct h⟩

theorem SameHydra.trans {b₁ b₂ b₃ : BankState} (h : SameHydra b₁ b₂) (h' : SameHydra b₂ b₃) :
    SameHydra b₁ b₃ :=
  ⟨h'.1.trans h.1, h'.2.1.trans h.2.1, h'.2.2.1.trans h.2.2.1, h'.2.2.2.trans h.2.2.2⟩

theorem sameHydra_mintPreact (cfg : Config) (b : BankState) (rowid : ℕ) (draws : List ℕ) :
    SameHydra b (b.mintPreact cfg rowid draws).1 := by
  unfold mintPreact
  dsimp only
  split_ifs <;> exact ⟨rfl, rfl, rfl, rfl⟩

theorem sameHydra_paraPreact (cfg : Config) (b : BankState) (rowid : ℕ) (draws : List ℕ) :
    SameHydra b (b.paraPreact cfg rowid draws).1 := by
  unfold paraPreact
  split_ifs <;> exact ⟨rfl, rfl, rfl, rfl⟩

theorem sameHydra_graphenePreact (cfg : Config) (b : BankState) (rowid : ℕ) :
    SameHydra b (b.graphenePreact cfg rowid) := by
  have hcount : SameHydra b (b.grapheneCount rowid) := by
    unfold grapheneCount
    split
    · exact ⟨rfl, rfl, rfl, rfl⟩
    · split_ifs
      · exact ⟨rfl, rfl, rfl, rfl⟩
      · split <;> exact ⟨rfl, rfl, rfl, rfl⟩
  unfold graphenePreact
  split_ifs
  · exact ⟨rfl, rfl, rfl, rfl⟩
  · dsimp only
    split <;> exact hcount

theorem sameHydra_samplerMitig (mode : ℤ) : SameHydra b (b.samplerMitig mode) := by
  unfold samplerMitig
  split_ifs
  · exact ⟨rfl, rfl, rfl, rfl⟩
  · obtain ⟨q, hq⟩ := b.drfmMitig_eq
    rw [hq]
    exact ⟨rfl, rfl, rfl, rfl⟩

theorem sameHydra_grapheneMitig : SameHydra b (b.grapheneMitig cfg) := by
  unfold grapheneMitig
  split_ifs
  · exact ⟨rfl, rfl, rfl, rfl⟩
  · obtain ⟨q, hq⟩ := b.drfmMitig_eq
    rw [hq]
    exact ⟨rfl, rfl, rfl, rfl⟩

/-- The trackers that a DRFM serves before Hydra. -/
def beforeHydraMitig (cfg : Config) (b : BankState) : BankState :=
  (((b.dreamMitig cfg).mintMitig cfg).paraMitig cfg).grapheneMitig cfg

theorem sameHydra_beforeHydraMitig : SameHydra b (b.beforeHydraMitig cfg) :=
  (((sameHydra_samplerMitig _).trans (sameHydra_samplerMitig _)).trans
    (sameHydra_samplerMitig _)).trans sameHydra_grapheneMitig

theorem sameHydra_mitigated :
    SameHydra ((b.beforeHydraMitig cfg).hydraMitig cfg) (b.mitigated cfg) :=
  sameHydra_samplerMitig _

theorem sameHydra_grapheneRefresh : SameHydra b (b.grapheneRefresh cfg) := by
  unfold grapheneRefresh
  split_ifs <;> exact ⟨rfl, rfl, rfl, rfl⟩

end BankState

namespace HydraRun
open BankState
variable {cfg : Config} {s : HydraRun cfg} {b b₁ : BankState}

theorem step_others (h : SameHydra s.b b) : (s.step (.others b)).b = b := by
  obtain ⟨h₁, h₂, h₃, h₄⟩ := h
  simp [step, HydraOp.apply, ← h₁, ← h₂, ← h₃, ← h₄]

/-- A table operation with other work on the bank around it. -/
theorem exists_run_op (op : HydraOp cfg) (hbefore : SameHydra s.b b₁)
    (hafter : SameHydra (op.apply b₁) b) : ∃ ops, (s.run ops).b = b := by
  have hmid : ((s.step (.others b₁)).step op).b = op.apply b₁ := by
    rw [step, step_others hbefore]
  exact ⟨[.others b₁, op, .others b], step_others (hmid ▸ hafter)⟩

/-- What a step does to a bank, a run of the table operations does. -/
theorem exists_run (h : BankMove cfg s.b b) : ∃ ops, (s.run ops).b = b := by
  have hothers (h : SameHydra s.b b) : ∃ ops, (s.run ops).b = b := ⟨[.others b], step_others h⟩
  cases h with
  | keep h => exact hothers (.of_tables h)
  | @preact cmd draws rcc issued hrow h =>
    have hmint := sameHydra_mintPreact cfg s.b (u32 cmd.row) draws
    have hpara := hmint.trans (sameHydra_paraPreact cfg _ (u32 cmd.row)
      (s.b.mintPreact cfg (u32 cmd.row) draws).2)
    have hbefore := hpara.trans (sameHydra_graphenePreact cfg _ (u32 cmd.row))
    exact exists_run_op (.preact cmd rcc hrow) hbefore (.of_tables h)
  | @serve cmd b' hs h =>
    rcases updateState_trackers hs with ⟨_, _, ht, _⟩ | ⟨_, _, ht | ⟨b₀, hb₀, ht⟩⟩ | ⟨_, hb'⟩
    · exact hothers (.of_tables (h.trans ht))
    · exact hothers (.of_tables (h.trans ht))
    · have hbefore : SameHydra s.b b₀ := .of_tables hb₀
      exact exists_run_op .refresh (hbefore.trans sameHydra_grapheneRefresh)
        (.of_tables (h.trans ht))
    · have hafter : SameHydra (mitigated cfg { s.b with lastCmd := some cmd }) b := by
        refine @SameHydra.of_tables _ _ false (h.trans ?_)
        rw [hb', rfmAbServed_tables]
        rfl
      have hbefore : SameHydra s.b (beforeHydraMitig cfg { s.b with lastCmd := some cmd }) :=
        SameHydra.trans ⟨rfl, rfl, rfl, rfl⟩ sameHydra_beforeHydraMitig
      exact exists_run_op .mitig hbefore (sameHydra_mitigated.trans hafter)

theorem run_append (ops ops' : List (HydraOp cfg)) : s.run (ops ++ ops') = (s.run ops).run ops' :=
  List.foldl_append

end HydraRun

/-- Every bank of a reached channel has gone through a run of its Hydra tables. -/
theorem Micro.Reached.hydraRun {cfg : Config} {π : Micro.Policy} {m : Micro}
    (h : Micro.Reached cfg π m) : ∃ boot : Boot cfg, ∀ i, ∃ ops,
      ((HydraRun.start boot i).run ops).b = m.ctl.channelState.bankStates i := by
  have hchan := h.chan_induct
    (P := fun v => Chan.Ready cfg v ∧ ∃ boot : Boot cfg, ∀ i, ∃ ops,
      ((HydraRun.start boot i).run ops).b = v.cs.bankStates i)
    (fun boot => ⟨Chan.ready_boot boot, boot, fun i => ⟨[], rfl⟩⟩) fun v v' hv hs => ?_
  · exact hchan.2
  obtain ⟨hready, boot, hboot⟩ := hv
  refine ⟨hready.step hs, boot, fun i => ?_⟩
  obtain ⟨ops, hops⟩ := hboot i
  have hmove := hs.bankMove hready i
  rw [← hops] at hmove
  obtain ⟨ops', hops'⟩ := HydraRun.exists_run hmove
  exact ⟨ops ++ ops', by rw [HydraRun.run_append, hops']⟩

/-- If the constructor of the bank has set up the tables, and while the counter of a row cannot have
wrapped around, the activations of the row since its last reset or mitigation are at most the group
counter, or the row counter once the group has overflowed; and a count that reaches the threshold queues
the row. -/
theorem hydra_counts_bounded (cfg : Config) (hmode : cfg.hydraMode = 1) (hfirst : cfg.HydraFirst)
    (hsize : cfg.hydraGctSize ∣ cfg.rows) (hgct : 1 ≤ cfg.hydraGctTh)
    (hth : cfg.hydraGctTh ≤ cfg.hydraTh) (hint : cfg.hydraTh < 2 ^ 31) (boot : Boot cfg) (i : BankId)
    (ops : List (HydraOp cfg)) (row : ℕ) (hrow : row < cfg.rows) :
    let s := (HydraRun.start boot i).run ops
    (s.valid row → s.calls row ≤ s.b.hydraGct (row % cfg.hydraGctSize)) ∧
      (s.valid row = false → cfg.hydraGctTh + s.calls row < 2 ^ 32 →
        s.calls row ≤ s.b.hydraCounts row) ∧
      ∀ (cmd : Command) (rcc : LRUCache), cmd.row = row → cfg.hydraTh ≤ s.calls row + 1 →
        cfg.hydraGctTh + (s.calls row + 1) < 2 ^ 32 →
          (s.b.hydraPreact cfg cmd rcc).1.drfmQ = s.b.drfmQ ++ [⟨row, 0⟩] := by
  have hmode' : cfg.hydraMode ≠ 0 := by omega
  have hs := (HydraRun.dominates_start hmode hfirst hgct boot i).run hmode' hsize hgct (by omega) ops
  refine ⟨hs.group row hrow, fun hv hwrap => ?_, fun cmd rcc hcmd hreach hwrap =>
    hs.queues hmode' hsize hth hint hrow hcmd rcc hreach hwrap⟩
  obtain ⟨exact, hexact, hle, hge⟩ := hs.count row hrow hv
  rw [hexact, Nat.mod_eq_of_lt (by omega)]
  exact hle

/-- One group of four rows that overflows at once, and no DRFM. -/
def hydraConfig : Config := { smallConfig with hydraMode := 1, hydraTh := 3 }

def hydraRead : Command := ⟨.read, { rank := 0, bankgroup := 0, bank := 0, row := 0 }, 0⟩

theorem hydraRead_row : u32 hydraRead.row = 0 := by decide

/-- A count of row 0. -/
def hydraCall : HydraOp hydraConfig := .preact hydraRead (LRUCache.updateSize 1 1) ⟨0, by decide, rfl⟩

theorem hydra_counts_bounded_small :
    let s := (HydraRun.start ({} : Boot hydraConfig) ⟨0, 0, 0⟩).run (List.replicate 2 hydraCall)
    s.calls 0 = 2 ∧ s.calls 0 ≤ s.b.hydraCounts 0 ∧
      (s.b.hydraPreact hydraConfig hydraRead (LRUCache.updateSize 1 1)).1.drfmQ =
        s.b.drfmQ ++ [⟨0, 0⟩] := by
  obtain ⟨_, hcount, hqueue⟩ := hydra_counts_bounded hydraConfig rfl (by decide) (by decide)
    (by decide) (by decide) (by decide) {} ⟨0, 0, 0⟩ (List.replicate 2 hydraCall) 0 (by decide)
  exact ⟨by decide, hcount (by decide) (by decide), hqueue _ _ rfl (by decide) (by decide)⟩

/-- With MINT on as well, the constructor leaves the number of rows of a group as it finds the memory. -/
def mintedHydra : Config :=
  { hydraConfig with
    mintMode := 1, hydraTh := 2, rowBufPolicy := .closePage, refreshPolicy := .rankLevelStaggered
    tREFI := 20, refchunks := 4 }

/-- The first refresh sets up the tables. The memory held no rows, so the overflow of the group starts no
counter, and the second activation of row 0, which reaches the threshold, is counted as the first. -/
theorem hydra_counts_missed : ∃ c, Reachable mintedHydra c ∧
    (c.channelState.log.takeWhile fun e : Event => !e.resets mintedHydra ⟨0, 0, 0⟩ 0).countP
      (Event.hooks ⟨0, 0, 0⟩ 0) = 2 ∧
    (c.channelState.bankStates ⟨0, 0, 0⟩).hydraGctValid 0 = false ∧
    (c.channelState.bankStates ⟨0, 0, 0⟩).hydraCounts 0 = 1 ∧
    (c.channelState.bankStates ⟨0, 0, 0⟩).drfmQ = [] := by
  obtain ⟨c, hrun, hc⟩ := exists_ok_of_any
    (p := fun c =>
      (c.channelState.log.takeWhile fun e : Event => !e.resets mintedHydra ⟨0, 0, 0⟩ 0).countP
        (Event.hooks ⟨0, 0, 0⟩ 0) = 2 ∧
      (c.channelState.bankStates ⟨0, 0, 0⟩).hydraGctValid 0 = false ∧
      (c.channelState.bankStates ⟨0, 0, 0⟩).hydraCounts 0 = 1 ∧
      (c.channelState.bankStates ⟨0, 0, 0⟩).drfmQ = [])
    (x := Controller.run mintedHydra ({} : Boot mintedHydra).controller
      (List.replicate 20 .clockTick ++ Input.request 0 false 5 ++ Input.request 0 false 6 ++
        Input.request 0 false 6))
    (by decide +kernel)
  exact ⟨c, ⟨{}, _, hrun⟩, of_decide_eq_true hc⟩

/-- Counting one row again and again. -/
theorem hydra_repeat (n : ℕ) :
    let s := (HydraRun.start ({} : Boot hydraConfig) ⟨0, 0, 0⟩).run
      (List.replicate (n + 1) hydraCall)
    s.valid 0 = false ∧ s.b.hydraCounts 0 = (n + 1) % 2 ^ 32 ∧ s.calls 0 = n + 1 := by
  induction n with
  | zero => exact ⟨by decide, by decide, by decide⟩
  | succ n ih =>
    dsimp only at ih ⊢
    rw [List.replicate_succ', HydraRun.run, List.foldl_append]
    rw [HydraRun.run] at ih
    generalize List.foldl HydraRun.step _ _ = s at ih ⊢
    obtain ⟨hv, hcount, hcalls⟩ := ih
    have hb : (s.step hydraCall).b = _ :=
      BankState.hydraPreact_row (by decide) hydraRead_row hv
    refine ⟨?_, ?_, ?_⟩
    · simp only [List.foldl_cons, List.foldl_nil, HydraRun.valid, hb]
      exact hv
    · simp only [List.foldl_cons, List.foldl_nil, hb, Function.update_self, hcount, u32]
      omega
    · change s.calls 0 + 1 = n + 1 + 1
      rw [hcalls]

theorem hydra_repeat_exceeds (n : ℕ) (hn : n = 2 ^ 32) :
    let s := (HydraRun.start ({} : Boot hydraConfig) ⟨0, 0, 0⟩).run
      (List.replicate (n + 1) hydraCall)
    s.valid 0 = false ∧ s.b.hydraCounts 0 < s.calls 0 ∧ hydraConfig.hydraTh ≤ s.calls 0 + 1 ∧
      (s.b.hydraPreact hydraConfig hydraRead (LRUCache.updateSize 1 1)).1.drfmQ = s.b.drfmQ := by
  obtain ⟨hv, hcount, hcalls⟩ := hydra_repeat n
  have hone : (n + 1) % 2 ^ 32 = 1 := by omega
  rw [hone] at hcount
  refine ⟨hv, ?_, ?_, ?_⟩
  · rw [hcount, hcalls]
    omega
  · rw [hcalls]
    change (3 : ℤ) ≤ _
    push_cast
    omega
  · rw [BankState.hydraPreact_row (by decide) hydraRead_row hv]
    dsimp only
    rw [hcount]
    exact if_neg (by decide)

/-- The row counter wraps around after `2^32` counts; the next counts are far above the threshold
and queue nothing. -/
theorem hydra_counts_exceed :
    let s := (HydraRun.start ({} : Boot hydraConfig) ⟨0, 0, 0⟩).run
      (List.replicate (2 ^ 32 + 1) hydraCall)
    s.valid 0 = false ∧ s.b.hydraCounts 0 < s.calls 0 ∧ hydraConfig.hydraTh ≤ s.calls 0 + 1 ∧
      (s.b.hydraPreact hydraConfig hydraRead (LRUCache.updateSize 1 1)).1.drfmQ = s.b.drfmQ :=
  hydra_repeat_exceeds (2 ^ 32) rfl

end CactusDram

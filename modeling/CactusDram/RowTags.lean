import CactusDram.AddressMap
import CactusDram.Run

/-! The tags and the set indices of the row-count cache. `ResetColBits` clears the column fields where
they are, in one piece or in two, and leaves every other field as the decoder reads it. -/
namespace CactusDram
open Foundations Foundations.BitFields

namespace Config
variable {cfg : Config} {a b : HexAddr}

/-- The column fields as `ResetColBits` reads them: a position and a width. -/
def columnFields (cfg : Config) : List (ℕ × ℕ) :=
  if cfg.mopEnabled then
    [(cfg.loPos, logBase2 cfg.mopSize), (cfg.hiPos, cfg.actualColBits - logBase2 cfg.mopSize)]
  else [(cfg.coPos, cfg.actualColBits)]

theorem fieldMask_testBit (width j : ℕ) : (fieldMask width).testBit j = decide (j < width) :=
  Nat.testBit_two_pow_sub_one width j

theorem field_testBit (line pos width j : ℕ) :
    (field line pos (fieldMask width)).testBit j = (line.testBit (pos + j) && decide (j < width)) := by
  rw [field, Nat.testBit_and, Nat.testBit_shiftRight, fieldMask_testBit]

/-- A bit of the mask of a column field. -/
theorem columnMask_getLsbD {pos width k : ℕ} (hk : k < 64) :
    (BitVec.ofNat 64 (fieldMask width) <<< pos).getLsbD k = (decide (pos ≤ k) && decide (k < pos + width)) := by
  rw [BitVec.getLsbD_shiftLeft, BitVec.getLsbD_ofNat, fieldMask_testBit]
  grind

/-- The tag keeps the bits outside the column fields. -/
theorem resetColBits_testBit (k : ℕ) : ((cfg.resetColBits a).toNat >>> cfg.shiftBits).testBit k =
    ((a.toNat >>> cfg.shiftBits).testBit k &&
      cfg.columnFields.all fun f => !(decide (f.1 ≤ k) && decide (k < f.1 + f.2))) := by
  rw [Nat.testBit_shiftRight, Nat.testBit_shiftRight, ← BitVec.getLsbD, ← BitVec.getLsbD]
  by_cases hk : cfg.shiftBits + k < 64
  · have hk' : k < 64 := by omega
    unfold resetColBits columnFields
    dsimp only
    unfold coMask loMask hiMask
    rw [BitVec.getLsbD_shiftLeft, Nat.add_sub_cancel_left]
    split_ifs <;>
      simp only [BitVec.getLsbD_and, BitVec.getLsbD_not, BitVec.getLsbD_ushiftRight,
        columnMask_getLsbD hk', List.all_cons, List.all_nil, hk, hk'] <;> simp [Bool.and_assoc]
  · rw [BitVec.getLsbD_of_ge _ _ (by omega), BitVec.getLsbD_of_ge _ _ (by omega)]
    rfl

/-- A field that shares no bit with the columns is the same in the tag. -/
theorem field_resetColBits {pos width : ℕ}
    (h : ∀ f ∈ cfg.columnFields, pos + width ≤ f.1 ∨ f.1 + f.2 ≤ pos) :
    field ((cfg.resetColBits a).toNat >>> cfg.shiftBits) pos (fieldMask width) =
      field (a.toNat >>> cfg.shiftBits) pos (fieldMask width) := by
  refine Nat.eq_of_testBit_eq fun j => ?_
  rw [field_testBit, field_testBit, resetColBits_testBit]
  by_cases hj : j < width
  · have hall : (cfg.columnFields.all fun f => !(decide (f.1 ≤ pos + j) && decide (pos + j < f.1 + f.2))) =
        true := by
      refine List.all_eq_true.mpr fun f hf => ?_
      have := h f hf
      grind
    rw [hall, Bool.and_true]
  · simp [hj]

/-- The positions and masks were set by `SetAddressMapping`. -/
def Mapped (cfg : Config) : Prop :=
  ∃ (g : Geometry) (mapping : List Char) (m : AddressMap), g.setAddressMapping mapping = .ok m ∧
    m.mopEnabled = cfg.mopEnabled ∧ ∀ f ∈ Geometry.required cfg.mopEnabled,
      cfg.addressMap.pos f = m.pos f ∧ cfg.addressMap.mask f = m.mask f

theorem fieldMask_injective : Function.Injective fieldMask := by
  intro v w h
  have hv := Nat.one_le_two_pow (n := v)
  have hw := Nat.one_le_two_pow (n := w)
  have hpow : 2 ^ v = 2 ^ w := by
    unfold fieldMask at h
    omega
  exact Nat.pow_right_injective (le_refl 2) hpow

/-- The width of a field, as the masks of a configuration have it. -/
def fieldWidth (cfg : Config) : MapField → ℕ
  | .ch => logBase2 cfg.channels
  | .ra => logBase2 cfg.ranks
  | .bg => logBase2 cfg.bankgroups
  | .ba => logBase2 cfg.banksPerGroup
  | .ro => logBase2 cfg.rows
  | .co => cfg.actualColBits
  | .hi => cfg.actualColBits - logBase2 cfg.mopSize
  | .lo => logBase2 cfg.mopSize

theorem addressMap_mask (cfg : Config) (f : MapField) :
    cfg.addressMap.mask f = fieldMask (cfg.fieldWidth f) := by
  cases f <;> rfl

/-- In a map that `SetAddressMapping` made, no two fields share a bit. -/
theorem Mapped.apart (h : cfg.Mapped) {f f' : MapField}
    (hf : f ∈ Geometry.required cfg.mopEnabled) (hf' : f' ∈ Geometry.required cfg.mopEnabled)
    (hne : f ≠ f') :
    cfg.addressMap.pos f + cfg.fieldWidth f ≤ cfg.addressMap.pos f' ∨
      cfg.addressMap.pos f' + cfg.fieldWidth f' ≤ cfg.addressMap.pos f := by
  obtain ⟨g, mapping, m, hm, hmop, hfield⟩ := h
  obtain ⟨fs, hperm, -, -, -, -, hpos⟩ := Geometry.setAddressMapping_ok hm
  rw [hmop] at hperm hpos
  have hplace (f : MapField) (hf : f ∈ Geometry.required cfg.mopEnabled) :
      cfg.addressMap.pos f = offset g.fieldWidths fs.reverse f ∧
        cfg.fieldWidth f = g.fieldWidths f := by
    obtain ⟨hp, hmask⟩ := hpos f hf
    refine ⟨(hfield f hf).1.trans hp, fieldMask_injective ?_⟩
    rw [← addressMap_mask, (hfield f hf).2, hmask]
  have hmem {f : MapField} (hf : f ∈ Geometry.required cfg.mopEnabled) : f ∈ fs.reverse :=
    List.mem_reverse.mpr (hperm.mem_iff.mpr hf)
  rw [(hplace f hf).1, (hplace f hf).2, (hplace f' hf').1, (hplace f' hf').2]
  exact offset_apart (hmem hf) (hmem hf') hne

/-- The fields that are not part of the column. -/
def rowFields : List MapField := [.ch, .ra, .bg, .ba, .ro]

/-- The column is in one field or in two. -/
def columnMapFields (cfg : Config) : List MapField := if cfg.mopEnabled then [.lo, .hi] else [.co]

theorem columnFields_eq (cfg : Config) : cfg.columnFields =
    cfg.columnMapFields.map fun f => (cfg.addressMap.pos f, cfg.fieldWidth f) := by
  unfold columnFields columnMapFields
  split_ifs <;> rfl

theorem columnMapFields_required : ∀ f ∈ cfg.columnMapFields, f ∈ Geometry.required cfg.mopEnabled := by
  unfold columnMapFields
  cases cfg.mopEnabled <;> decide

theorem rowFields_required : ∀ f ∈ rowFields, f ∈ Geometry.required cfg.mopEnabled := by
  cases cfg.mopEnabled <;> decide

theorem columnMapFields_ne : ∀ f ∈ rowFields, ∀ f' ∈ cfg.columnMapFields, f ≠ f' := by
  unfold columnMapFields
  cases cfg.mopEnabled <;> decide

/-- A field outside the column is the same in the tag. -/
theorem Mapped.field_resetColBits (h : cfg.Mapped) (a : HexAddr) {f : MapField} (hf : f ∈ rowFields) :
    cfg.addressMap.field ((cfg.resetColBits a).toNat >>> cfg.shiftBits) f =
      cfg.addressMap.field (a.toNat >>> cfg.shiftBits) f := by
  rw [AddressMap.field, AddressMap.field, addressMap_mask]
  refine Config.field_resetColBits fun x hx => ?_
  rw [columnFields_eq] at hx
  obtain ⟨f', hf', rfl⟩ := List.mem_map.mp hx
  exact h.apart (rowFields_required f hf) (columnMapFields_required f' hf')
    (columnMapFields_ne f hf f' hf')

/-- A field of the column is zero in the tag. -/
theorem column_resetColBits (a : HexAddr) {f : MapField} (hf : f ∈ cfg.columnMapFields) :
    cfg.addressMap.field ((cfg.resetColBits a).toNat >>> cfg.shiftBits) f = 0 := by
  refine Nat.eq_of_testBit_eq fun j => ?_
  rw [AddressMap.field, addressMap_mask, field_testBit, resetColBits_testBit, columnFields_eq,
    Nat.zero_testBit]
  by_cases hj : j < cfg.fieldWidth f
  · have hnot : (cfg.columnMapFields.map fun f => (cfg.addressMap.pos f, cfg.fieldWidth f)).all
        (fun x => !(decide (x.1 ≤ cfg.addressMap.pos f + j) &&
          decide (cfg.addressMap.pos f + j < x.1 + x.2))) = false := by
      refine List.all_eq_false.mpr ⟨_, List.mem_map_of_mem hf, ?_⟩
      simp [hj]
    rw [hnot, Bool.and_false, Bool.false_and]
  · simp [hj]

/-- The tag decodes to the row of its address, at column 0. -/
theorem Mapped.addressMapping_resetColBits (h : cfg.Mapped) (a : HexAddr) :
    cfg.addressMapping (cfg.resetColBits a) = { cfg.addressMapping a with column := 0 } := by
  rw [addressMapping_eq, AddressMap.addressMapping, AddressMap.addressMapping]
  have hshift : cfg.addressMap.shiftBits = cfg.shiftBits := rfl
  have hmop : cfg.addressMap.mopEnabled = cfg.mopEnabled := rfl
  have hrow {f : MapField} (hf : f ∈ rowFields) := h.field_resetColBits a hf
  simp only [AddressMap.decodeLine, hshift, hmop, hrow (f := .ch) (by decide),
    hrow (f := .ra) (by decide), hrow (f := .bg) (by decide), hrow (f := .ba) (by decide),
    hrow (f := .ro) (by decide), Address.mk.injEq, true_and]
  cases hm : cfg.mopEnabled with
  | false =>
    rw [if_neg (by simp), column_resetColBits a (f := .co) (by simp [columnMapFields, hm])]
    rfl
  | true =>
    rw [if_pos rfl, column_resetColBits a (f := .hi) (by simp [columnMapFields, hm]),
      column_resetColBits a (f := .lo) (by simp [columnMapFields, hm])]
    simp

/-- The set is a function of the tag. -/
theorem Mapped.removeColBits_resetColBits (h : cfg.Mapped) (a : HexAddr) :
    cfg.removeColBits (cfg.resetColBits a) = cfg.removeColBits a := by
  have hro := h.field_resetColBits a (f := .ro) (by decide)
  have hba := h.field_resetColBits a (f := .ba) (by decide)
  have hbg := h.field_resetColBits a (f := .bg) (by decide)
  unfold AddressMap.field at hro hba hbg
  unfold removeColBits
  exact congrArg₂ (· ^^^ ·) (congrArg₂ (· ^^^ ·) hro hba) hbg

/-- The bits of an address that hold its column. -/
def ColumnBit (cfg : Config) (k : ℕ) : Prop :=
  ∃ f ∈ cfg.columnFields, cfg.shiftBits + f.1 ≤ k ∧ k < cfg.shiftBits + f.1 + f.2

instance (k : ℕ) : Decidable (cfg.ColumnBit k) := by
  unfold ColumnBit
  infer_instance

theorem resetColBits_getLsbD (a : HexAddr) (k : ℕ) : (cfg.resetColBits a).getLsbD k =
    (decide (cfg.shiftBits ≤ k ∧ ¬ cfg.ColumnBit k) && a.getLsbD k) := by
  by_cases hk : cfg.shiftBits ≤ k
  · obtain ⟨j, rfl⟩ := Nat.exists_eq_add_of_le hk
    have hbit := @resetColBits_testBit cfg a j
    rw [Nat.testBit_shiftRight, Nat.testBit_shiftRight, ← BitVec.getLsbD, ← BitVec.getLsbD] at hbit
    rw [hbit, Bool.and_comm]
    congr 1
    rw [Bool.eq_iff_iff, List.all_eq_true, decide_eq_true_iff, ColumnBit]
    constructor
    · intro hall
      refine ⟨hk, ?_⟩
      rintro ⟨f, hf, hlow, hhigh⟩
      have := hall f hf
      simp only [Bool.not_eq_true', Bool.and_eq_false_iff, decide_eq_false_iff_not] at this
      omega
    · rintro ⟨_, hnot⟩ f hf
      simp only [Bool.not_eq_true', Bool.and_eq_false_iff, decide_eq_false_iff_not]
      by_contra hin
      exact hnot ⟨f, hf, by omega, by omega⟩
  · rw [decide_eq_false (fun h => hk h.1), Bool.false_and, resetColBits, BitVec.getLsbD_shiftLeft]
    simp [hk]

theorem resetColBits_eq_iff : cfg.resetColBits a = cfg.resetColBits b ↔
    ∀ k, cfg.shiftBits ≤ k → ¬ cfg.ColumnBit k → a.getLsbD k = b.getLsbD k := by
  constructor
  · intro heq k hk hcol
    have hbit := congrArg (BitVec.getLsbD · k) heq
    simpa only [resetColBits_getLsbD, hk, hcol, not_false_eq_true, and_self, decide_true,
      Bool.true_and] using hbit
  · intro hagree
    refine BitVec.eq_of_getLsbD_eq fun k _ => ?_
    rw [resetColBits_getLsbD, resetColBits_getLsbD]
    by_cases hk : cfg.shiftBits ≤ k ∧ ¬ cfg.ColumnBit k
    · rw [hagree k hk.1 hk.2]
    · rw [decide_eq_false hk, Bool.false_and, Bool.false_and]

theorem resetColBits_idempotent (a : HexAddr) :
    cfg.resetColBits (cfg.resetColBits a) = cfg.resetColBits a := by
  refine resetColBits_eq_iff.mpr fun k hk hcol => ?_
  rw [resetColBits_getLsbD, decide_eq_true ⟨hk, hcol⟩, Bool.true_and]

/-- What makes a tag stand for a row. -/
structure TagsIdentifyRows (cfg : Config) : Prop where
  decodes : ∀ a, cfg.addressMapping (cfg.resetColBits a) = { cfg.addressMapping a with column := 0 }
  idempotent : ∀ a, cfg.resetColBits (cfg.resetColBits a) = cfg.resetColBits a
  eq_iff : ∀ a b, cfg.resetColBits a = cfg.resetColBits b ↔
    ∀ k, cfg.shiftBits ≤ k → ¬ cfg.ColumnBit k → a.getLsbD k = b.getLsbD k
  sets : ∀ a, cfg.removeColBits (cfg.resetColBits a) = cfg.removeColBits a

theorem rcc_tags_identify_rows (h : cfg.Mapped) : cfg.TagsIdentifyRows where
  decodes := h.addressMapping_resetColBits
  idempotent := resetColBits_idempotent
  eq_iff _ _ := resetColBits_eq_iff
  sets := h.removeColBits_resetColBits

/-- The column in two pieces, with the bank between them and the row above. -/
def splitColumn : Config :=
  { smallConfig with
    BL := 2, mopEnabled := true, mopSize := 2
    loPos := 0, chPos := 1, raPos := 1, bgPos := 1, baPos := 1, hiPos := 2, roPos := 3 }

theorem splitColumn_mapped : splitColumn.Mapped := by
  let g : Geometry := ⟨1, 1, 1, 2, 4, 8, 2, 2, 8⟩
  obtain ⟨m, hm, hp⟩ := exists_ok_of_any (x := g.setAddressMapping "rohibabgrachlo".toList)
    (p := fun m => m.mopEnabled = true ∧ ∀ f ∈ MapField.seven,
      splitColumn.addressMap.pos f = m.pos f ∧ splitColumn.addressMap.mask f = m.mask f)
    (by decide +kernel)
  exact ⟨g, _, m, hm, of_decide_eq_true hp⟩

theorem rcc_tags_identify_rows_split : splitColumn.TagsIdentifyRows ∧
    splitColumn.resetColBits 31 = 26 ∧ splitColumn.resetColBits 26 = 26 :=
  ⟨rcc_tags_identify_rows splitColumn_mapped, by decide +kernel, by decide +kernel⟩

end Config
end CactusDram

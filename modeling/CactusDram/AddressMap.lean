import CactusDram.Config
import CactusDram.Foundations.BitFields
import CactusDram.Foundations.Outcome

/-! `SetAddressMapping`: the mapping string is cut into two-character fields, which are placed from
the lowest bit up, and addresses are decoded by position and mask. -/
namespace CactusDram
open Foundations Foundations.BitFields

/-- The parameters `SetAddressMapping` reads. -/
structure Geometry where
  channels : ℕ
  ranks : ℕ
  bankgroups : ℕ
  banksPerGroup : ℕ
  rows : ℕ
  columns : ℕ
  BL : ℕ
  mopSize : ℕ
  busWidth : ℕ

/-- The keys of `field_widths`. -/
inductive MapField
  | ch
  | ra
  | bg
  | ba
  | ro
  | co
  | hi
  | lo
  deriving DecidableEq, Repr

/-- The ways `SetAddressMapping` fails: two calls of `AbruptExit`, and `map::at` on a field that
was not placed. -/
inductive MappingError
  | unknownMapping
  | unrecognizedField
  | outOfRange
  deriving DecidableEq, Repr

/-- What `SetAddressMapping` writes into the configuration. The positions of `co` or of `hi` and
`lo` that are not read later stay zero here. -/
structure AddressMap where
  shiftBits : ℕ
  mopEnabled : Bool
  mopSize : ℕ
  pos : MapField → ℕ
  mask : MapField → ℕ

namespace MapField

def token : MapField → List Char
  | ch => ['c', 'h']
  | ra => ['r', 'a']
  | bg => ['b', 'g']
  | ba => ['b', 'a']
  | ro => ['r', 'o']
  | co => ['c', 'o']
  | hi => ['h', 'i']
  | lo => ['l', 'o']

def all : List MapField := [ch, ra, bg, ba, ro, co, hi, lo]

def six : List MapField := [ch, ra, bg, ba, ro, co]

def seven : List MapField := [ch, ra, bg, ba, ro, hi, lo]

/-- The lookup of a token in `field_widths`. -/
def find (tok : List Char) : Option MapField := all.find? fun f => f.token = tok

end MapField

namespace Geometry
variable (g : Geometry)

def actualColBits : ℕ := logBase2 g.columns - logBase2 g.BL

def fieldWidths : MapField → ℕ
  | .ch => logBase2 g.channels
  | .ra => logBase2 g.ranks
  | .bg => logBase2 g.bankgroups
  | .ba => logBase2 g.banksPerGroup
  | .ro => logBase2 g.rows
  | .co => g.actualColBits
  | .hi => g.actualColBits - logBase2 g.mopSize
  | .lo => logBase2 g.mopSize

/-- `substr(i, 2)` for every even `i`. -/
def fields : List Char → List (List Char)
  | a :: b :: rest => [a, b] :: fields rest
  | [a] => [[a]]
  | [] => []

/-- Place the fields in the order they are popped from the back. -/
def place : List (List Char) → ℕ → (MapField → Option ℕ) → Except MappingError (MapField → Option ℕ)
  | [], _, fieldPos => .ok fieldPos
  | tok :: rest, pos, fieldPos =>
    match MapField.find tok with
    | none => .error .unrecognizedField
    | some f => place rest (pos + g.fieldWidths f) (Function.update fieldPos f (some pos))

/-- The fields whose positions are read. -/
def required (mop : Bool) : List MapField := if mop then MapField.seven else MapField.six

def setAddressMapping (mapping : List Char) : Except MappingError AddressMap :=
  if mapping.length ≠ 12 ∧ mapping.length ≠ 14 then .error .unknownMapping
  else do
    let mop : Bool := mapping.length = 14
    let fieldPos ← g.place (fields mapping).reverse 0 fun _ => none
    if (required mop).any fun f => (fieldPos f).isNone then .error .outOfRange
    else
      .ok {
        shiftBits := logBase2 (g.busWidth / 8 * g.BL)
        mopEnabled := mop
        mopSize := g.mopSize
        pos := fun f => if f ∈ required mop then (fieldPos f).getD 0 else 0
        mask := fun f => if f ∈ required mop then Config.fieldMask (g.fieldWidths f) else 0 }

end Geometry

namespace AddressMap
variable (m : AddressMap)

def field (line : ℕ) (f : MapField) : ℕ := Config.field line (m.pos f) (m.mask f)

def decodeLine (line : ℕ) : Address where
  channel := m.field line .ch
  rank := m.field line .ra
  bankgroup := m.field line .bg
  bank := m.field line .ba
  row := m.field line .ro
  column :=
    if m.mopEnabled then (m.field line .hi <<< logBase2 m.mopSize) ||| m.field line .lo
    else m.field line .co

def addressMapping (hexAddr : HexAddr) : Address := m.decodeLine (hexAddr.toNat >>> m.shiftBits)

end AddressMap

/-- The map a configuration was set up with. -/
def Config.addressMap (cfg : Config) : AddressMap where
  shiftBits := cfg.shiftBits
  mopEnabled := cfg.mopEnabled
  mopSize := cfg.mopSize
  pos
    | .ch => cfg.chPos
    | .ra => cfg.raPos
    | .bg => cfg.bgPos
    | .ba => cfg.baPos
    | .ro => cfg.roPos
    | .co => cfg.coPos
    | .hi => cfg.hiPos
    | .lo => cfg.loPos
  mask
    | .ch => cfg.chMask
    | .ra => cfg.raMask
    | .bg => cfg.bgMask
    | .ba => cfg.baMask
    | .ro => cfg.roMask
    | .co => cfg.coMask
    | .hi => cfg.hiMask
    | .lo => cfg.loMask

/-- The decoder of the controller is the one of its map. -/
theorem Config.addressMapping_eq (cfg : Config) : cfg.addressMapping = cfg.addressMap.addressMapping := by
  funext hexAddr
  cases hmop : cfg.mopEnabled <;>
    simp [Config.addressMapping, AddressMap.addressMapping, AddressMap.decodeLine, AddressMap.field,
      Config.addressMap, hmop]

namespace MapField

theorem find_eq_some {tok : List Char} {f : MapField} : find tok = some f ↔ tok = f.token := by
  constructor
  · intro h
    have := List.find?_some h
    simpa using Eq.symm (by simpa using this)
  · rintro rfl
    cases f <;> rfl

theorem token_length (f : MapField) : f.token.length = 2 := by
  cases f <;> rfl

theorem token_injective : Function.Injective token := by
  intro f f' h
  exact Option.some.inj ((find_eq_some.mpr rfl).symm.trans (find_eq_some.mpr h))

theorem six_nodup : six.Nodup := by decide

theorem seven_nodup : seven.Nodup := by decide

end MapField

namespace Geometry
variable {g : Geometry} {mapping : List Char} {fs : List MapField} {m : AddressMap}

theorem required_nodup (mop : Bool) : (required mop).Nodup := by
  cases mop
  · exact MapField.six_nodup
  · exact MapField.seven_nodup

/-- A string made of tokens is cut into them again. -/
theorem fields_flatMap (fs : List MapField) :
    fields (fs.flatMap MapField.token) = fs.map MapField.token := by
  induction fs with
  | nil => rfl
  | cons f fs ih => cases f <;> simp [MapField.token, fields, ih]

theorem flatten_fields (mapping : List Char) : (fields mapping).flatten = mapping := by
  induction mapping using fields.induct with
  | case1 a b rest ih => simp [fields, ih]
  | case2 a => rfl
  | case3 => rfl

/-- The positions that result from placing known fields. -/
def placed (g : Geometry) : List MapField → ℕ → (MapField → Option ℕ) → MapField → Option ℕ
  | [], _, fieldPos => fieldPos
  | f :: l, pos, fieldPos => placed g l (pos + g.fieldWidths f) (Function.update fieldPos f (some pos))

theorem place_ok_iff {toks : List (List Char)} {pos : ℕ} {fieldPos fieldPos' : MapField → Option ℕ} :
    g.place toks pos fieldPos = .ok fieldPos' ↔
      ∃ l : List MapField, toks = l.map MapField.token ∧ fieldPos' = placed g l pos fieldPos := by
  induction toks generalizing pos fieldPos with
  | nil =>
    constructor
    · intro h
      cases h
      exact ⟨[], rfl, rfl⟩
    · rintro ⟨l, hl, rfl⟩
      obtain rfl := List.map_eq_nil_iff.mp hl.symm
      rfl
  | cons tok toks ih =>
    rw [place]
    cases hf : MapField.find tok with
    | none =>
      refine ⟨fun h => (nomatch h), ?_⟩
      rintro ⟨l, hl, -⟩
      cases l with
      | nil => cases hl
      | cons f l =>
        rw [List.map_cons, List.cons.injEq] at hl
        rw [MapField.find_eq_some.mpr hl.1] at hf
        cases hf
    | some f =>
      rw [MapField.find_eq_some] at hf
      subst hf
      rw [ih]
      constructor
      · rintro ⟨l, rfl, rfl⟩
        exact ⟨f :: l, rfl, rfl⟩
      · rintro ⟨l, hl, rfl⟩
        cases l with
        | nil => cases hl
        | cons f' l =>
          rw [List.map_cons, List.cons.injEq] at hl
          obtain rfl := MapField.token_injective hl.1
          exact ⟨l, hl.2, rfl⟩

theorem placed_of_not_mem {l : List MapField} {f : MapField} (h : f ∉ l) (pos : ℕ)
    (fieldPos : MapField → Option ℕ) : placed g l pos fieldPos f = fieldPos f := by
  induction l generalizing pos fieldPos with
  | nil => rfl
  | cons a l ih =>
    rw [List.mem_cons, not_or] at h
    rw [placed, ih h.2, Function.update_of_ne h.1]

/-- Distinct fields are placed without gaps. -/
theorem placed_of_mem {l : List MapField} (hl : l.Nodup) {f : MapField} (h : f ∈ l) (pos : ℕ)
    (fieldPos : MapField → Option ℕ) :
    placed g l pos fieldPos f = some (pos + offset g.fieldWidths l f) := by
  induction l generalizing pos fieldPos with
  | nil => simp at h
  | cons a l ih =>
    rw [List.nodup_cons] at hl
    rw [placed]
    by_cases hfa : f = a
    · subst hfa
      simp [placed_of_not_mem hl.1, offset]
    · rw [ih hl.2 ((List.mem_cons.mp h).resolve_left hfa), offset_cons_ne hfa, Nat.add_assoc]

/-- A required field that is present somewhere is present, so a list of the right length is a
permutation of the required ones. -/
theorem perm_required {mop : Bool} (hlen : fs.length = (required mop).length)
    (h : ∀ f ∈ required mop, f ∈ fs) : fs.Perm (required mop) := by
  have hsub : (required mop).Subperm fs := List.subperm_of_subset (required_nodup mop) h
  exact (hsub.perm_of_length_le hlen.le).symm

theorem length_flatMap_token (fs : List MapField) : (fs.flatMap MapField.token).length = 2 * fs.length := by
  induction fs with
  | nil => rfl
  | cons f fs ih =>
    rw [List.flatMap_cons, List.length_append, ih, MapField.token_length, List.length_cons]
    omega

/-- What an accepted string looks like and what is read off it. -/
theorem setAddressMapping_ok (h : g.setAddressMapping mapping = .ok m) :
    ∃ fs : List MapField, fs.Perm (required m.mopEnabled) ∧ mapping = fs.flatMap MapField.token ∧
      m.mopEnabled = decide (mapping.length = 14) ∧ m.mopSize = g.mopSize ∧
      m.shiftBits = logBase2 (g.busWidth / 8 * g.BL) ∧
      ∀ f ∈ required m.mopEnabled, m.pos f = offset g.fieldWidths fs.reverse f ∧
        m.mask f = Config.fieldMask (g.fieldWidths f) := by
  unfold setAddressMapping at h
  split_ifs at h with hlen
  obtain ⟨fieldPos, hplace, h⟩ := bind_ok_iff.mp h
  split_ifs at h with hmissing
  cases h
  obtain ⟨l, hl, rfl⟩ := place_ok_iff.mp hplace
  have htoks : fields mapping = l.reverse.map MapField.token := by
    rw [List.map_reverse, ← hl, List.reverse_reverse]
  have hmap : mapping = l.reverse.flatMap MapField.token := by
    rw [← flatten_fields mapping, htoks, List.flatMap_def]
  have hlength := congrArg List.length hmap
  rw [length_flatMap_token] at hlength
  obtain ⟨mop, hmop⟩ : ∃ mop : Bool, mop = decide (mapping.length = 14) := ⟨_, rfl⟩
  simp only [← hmop] at hmissing ⊢
  have hmem (f : MapField) (hf : f ∈ required mop) : f ∈ l := by
    by_contra hno
    refine hmissing (List.any_eq_true.mpr ⟨f, hf, ?_⟩)
    rw [placed_of_not_mem hno]
    rfl
  have hperm : l.reverse.Perm (required mop) := by
    refine perm_required ?_ fun f hf => List.mem_reverse.mpr (hmem f hf)
    rw [not_and_or, not_not, not_not] at hlen
    rcases hlen with hlen | hlen <;> simp only [hlen] at hmop hlength <;> subst hmop <;>
      simp [required, MapField.six, MapField.seven] <;> simp at hlength <;> omega
  have hnodup : l.Nodup := List.nodup_reverse.mp (hperm.nodup_iff.mpr (required_nodup mop))
  refine ⟨l.reverse, hperm, hmap, trivial, trivial, trivial, fun f hf => ⟨?_, if_pos hf⟩⟩
  rw [if_pos hf, placed_of_mem hnodup (hmem f hf), List.reverse_reverse]
  simp

/-- Every permutation of the required fields is accepted. -/
theorem setAddressMapping_of_perm {mop : Bool} (h : fs.Perm (required mop)) :
    ∃ m, g.setAddressMapping (fs.flatMap MapField.token) = .ok m := by
  have hlen : (fs.flatMap MapField.token).length = if mop then 14 else 12 := by
    rw [length_flatMap_token, h.length_eq]
    cases mop <;> rfl
  have hmop : (decide ((fs.flatMap MapField.token).length = 14)) = mop := by
    rw [hlen]
    cases mop <;> rfl
  unfold setAddressMapping
  rw [if_neg (by rw [hlen]; cases mop <;> simp)]
  have hplace : g.place (fields (fs.flatMap MapField.token)).reverse 0 (fun _ => none) =
      .ok (placed g fs.reverse 0 fun _ => none) := by
    refine place_ok_iff.mpr ⟨fs.reverse, ?_, rfl⟩
    rw [fields_flatMap, List.map_reverse]
  rw [hplace]
  simp only [bind, Except.bind, hmop]
  rw [if_neg]
  · exact ⟨_, rfl⟩
  · rw [List.any_eq_true]
    rintro ⟨f, hf, hnone⟩
    have hnodup : fs.reverse.Nodup := List.nodup_reverse.mpr (h.nodup_iff.mpr (required_nodup mop))
    rw [placed_of_mem hnodup (List.mem_reverse.mpr (h.mem_iff.mpr hf))] at hnone
    cases hnone

theorem setAddressMapping_ok_iff (mop : Bool) (hlen : mapping.length = if mop then 14 else 12) :
    (∃ m, g.setAddressMapping mapping = .ok m) ↔
      ∃ fs : List MapField, fs.Perm (required mop) ∧ mapping = fs.flatMap MapField.token := by
  constructor
  · rintro ⟨m, hm⟩
    obtain ⟨fs, hperm, hmap, hmop, -⟩ := setAddressMapping_ok hm
    refine ⟨fs, ?_, hmap⟩
    rw [hmop, hlen] at hperm
    cases mop <;> simpa using hperm
  · rintro ⟨fs, hperm, rfl⟩
    exact setAddressMapping_of_perm hperm

def PowerOfTwo (n : ℕ) : Prop := ∃ k, n = 2 ^ k

/-- Power-of-two geometry; the MOP size only matters for the form with seven fields. -/
structure Regular (g : Geometry) (mop : Bool) : Prop where
  channels : PowerOfTwo g.channels
  ranks : PowerOfTwo g.ranks
  bankgroups : PowerOfTwo g.bankgroups
  banksPerGroup : PowerOfTwo g.banksPerGroup
  rows : PowerOfTwo g.rows
  columns : PowerOfTwo g.columns
  BL : PowerOfTwo g.BL
  BL_le : g.BL ≤ g.columns
  mopSize : mop → PowerOfTwo g.mopSize
  mopSize_le : mop → g.mopSize ≤ g.columns / g.BL

/-- The addresses of the geometry: channels, ranks, bankgroups, banks, rows and bursts of a row. -/
structure Contains (g : Geometry) (a : Address) : Prop where
  channel : 0 ≤ a.channel ∧ a.channel < g.channels
  rank : 0 ≤ a.rank ∧ a.rank < g.ranks
  bankgroup : 0 ≤ a.bankgroup ∧ a.bankgroup < g.bankgroups
  bank : 0 ≤ a.bank ∧ a.bank < g.banksPerGroup
  row : 0 ≤ a.row ∧ a.row < g.rows
  column : 0 ≤ a.column ∧ a.column < (g.columns / g.BL : ℕ)

/-- The number of bits of a line number. -/
def lineBits (g : Geometry) (mop : Bool) : ℕ := total g.fieldWidths (required mop)

theorem two_pow_logBase2 {n : ℕ} (h : PowerOfTwo n) : 2 ^ logBase2 n = n := by
  obtain ⟨k, rfl⟩ := h
  rw [logBase2, Nat.log2_two_pow]

theorem two_pow_actualColBits {mop : Bool} (hg : g.Regular mop) :
    2 ^ g.actualColBits = g.columns / g.BL := by
  obtain ⟨c, hc⟩ := hg.columns
  obtain ⟨b, hb⟩ := hg.BL
  have hle := hg.BL_le
  rw [hc, hb] at hle ⊢
  have hbc : b ≤ c := (Nat.pow_le_pow_iff_right (by norm_num)).mp hle
  rw [actualColBits, hc, hb, logBase2, logBase2, Nat.log2_two_pow, Nat.log2_two_pow,
    Nat.pow_div hbc (by norm_num)]

/-- The two column fields of the MOP form make up the column. -/
theorem hi_add_lo (hg : g.Regular true) :
    g.fieldWidths .hi + g.fieldWidths .lo = g.actualColBits := by
  have hle := hg.mopSize_le rfl
  rw [← two_pow_logBase2 (hg.mopSize rfl), ← two_pow_actualColBits hg] at hle
  have := (Nat.pow_le_pow_iff_right (a := 2) (by norm_num)).mp hle
  simp only [fieldWidths]
  omega

/-- How many values a field takes. -/
theorem two_pow_fieldWidths {mop : Bool} (hg : g.Regular mop) :
    2 ^ g.fieldWidths .ch = g.channels ∧ 2 ^ g.fieldWidths .ra = g.ranks ∧
      2 ^ g.fieldWidths .bg = g.bankgroups ∧ 2 ^ g.fieldWidths .ba = g.banksPerGroup ∧
      2 ^ g.fieldWidths .ro = g.rows ∧ 2 ^ g.fieldWidths .co = g.columns / g.BL :=
  ⟨two_pow_logBase2 hg.channels, two_pow_logBase2 hg.ranks, two_pow_logBase2 hg.bankgroups,
    two_pow_logBase2 hg.banksPerGroup, two_pow_logBase2 hg.rows, two_pow_actualColBits hg⟩

section Accepted
variable (h : g.setAddressMapping mapping = .ok m)
include h

/-- Every field the decoder reads is a field of a gap-free layout. -/
theorem exists_layout : ∃ l : List MapField, l.Nodup ∧ (∀ f, f ∈ l ↔ f ∈ required m.mopEnabled) ∧
    total g.fieldWidths l = g.lineBits m.mopEnabled ∧
    ∀ line, ∀ f ∈ l, m.field line f = extract line (offset g.fieldWidths l f) (g.fieldWidths f) := by
  obtain ⟨fs, hperm, -, -, -, -, hpos⟩ := setAddressMapping_ok h
  have hrev : fs.reverse.Perm (required m.mopEnabled) := fs.reverse_perm.trans hperm
  refine ⟨fs.reverse, hrev.nodup_iff.mpr (required_nodup _), fun f => hrev.mem_iff,
    (hrev.map g.fieldWidths).sum_eq, fun line f hf => ?_⟩
  obtain ⟨hp, hm⟩ := hpos f (hrev.mem_iff.mp hf)
  rw [AddressMap.field, hp, hm, Config.field, Config.fieldMask, extract_eq_and]

theorem field_lt (line : ℕ) {f : MapField} (hf : f ∈ required m.mopEnabled) :
    m.field line f < 2 ^ g.fieldWidths f := by
  obtain ⟨l, -, hmem, -, hfield⟩ := exists_layout h
  rw [hfield line f ((hmem f).mpr hf)]
  exact extract_lt _ _ _

/-- The column is one field, or the concatenation of two. -/
theorem decodeLine_column (line : ℕ) :
    (m.decodeLine line).column = if m.mopEnabled then
      ((m.field line .hi * 2 ^ g.fieldWidths .lo + m.field line .lo : ℕ) : ℤ)
      else (m.field line .co : ℤ) := by
  obtain ⟨fs, -, -, -, hmop, -⟩ := setAddressMapping_ok h
  simp only [AddressMap.decodeLine]
  split_ifs with hm
  · have hlo := field_lt h line (f := .lo) (by rw [hm]; simp [required, MapField.seven])
    have hwidth : logBase2 m.mopSize = g.fieldWidths .lo := by
      rw [hmop]
      rfl
    rw [hwidth, ← Nat.shiftLeft_add_eq_or_of_lt hlo, Nat.shiftLeft_eq]
  · rfl

theorem column_lt (hg : g.Regular m.mopEnabled) (line : ℕ) :
    0 ≤ (m.decodeLine line).column ∧ (m.decodeLine line).column < (g.columns / g.BL : ℕ) := by
  rw [decodeLine_column h, ← two_pow_actualColBits hg]
  cases hm : m.mopEnabled with
  | false =>
    have hco := field_lt h line (f := .co) (by rw [hm]; simp [required, MapField.six])
    simp only [Bool.false_eq_true, if_false]
    exact ⟨by positivity, by exact_mod_cast hco⟩
  | true =>
    have hhi := field_lt h line (f := .hi) (by rw [hm]; simp [required, MapField.seven])
    have hlo := field_lt h line (f := .lo) (by rw [hm]; simp [required, MapField.seven])
    rw [hm] at hg
    simp only [if_true]
    refine ⟨by positivity, ?_⟩
    rw [← hi_add_lo hg, pow_add]
    have : m.field line .hi * 2 ^ g.fieldWidths .lo + m.field line .lo <
        2 ^ g.fieldWidths .hi * 2 ^ g.fieldWidths .lo := by
      calc _ < (m.field line .hi + 1) * 2 ^ g.fieldWidths .lo := by rw [Nat.succ_mul]; omega
        _ ≤ _ := Nat.mul_le_mul_right _ hhi
    exact_mod_cast this

/-- Every decoded component lies in its range. -/
theorem contains_decodeLine (hg : g.Regular m.mopEnabled) (line : ℕ) :
    g.Contains (m.decodeLine line) := by
  obtain ⟨hch, hra, hbg, hba, hro, -⟩ := two_pow_fieldWidths hg
  have hlt (f : MapField) (hf : f ∈ [MapField.ch, .ra, .bg, .ba, .ro]) {n : ℕ}
      (hn : 2 ^ g.fieldWidths f = n) : 0 ≤ (m.field line f : ℤ) ∧ (m.field line f : ℤ) < n := by
    have hmem : f ∈ required m.mopEnabled := by
      cases m.mopEnabled <;> revert hf <;> simp [required, MapField.six, MapField.seven] <;> tauto
    have := field_lt h line hmem
    rw [hn] at this
    exact ⟨by positivity, by exact_mod_cast this⟩
  exact ⟨hlt .ch (by simp) hch, hlt .ra (by simp) hra, hlt .bg (by simp) hbg, hlt .ba (by simp) hba,
    hlt .ro (by simp) hro, column_lt h hg line⟩

/-- An address determines the fields of its line. -/
theorem field_eq_of_decodeLine_eq {x y : ℕ}
    (heq : m.decodeLine x = m.decodeLine y) {f : MapField}
    (hf : f ∈ required m.mopEnabled) : m.field x f = m.field y f := by
  have hcol := congrArg Address.column heq
  rw [decodeLine_column h, decodeLine_column h] at hcol
  have hch := congrArg Address.channel heq
  have hra := congrArg Address.rank heq
  have hbg := congrArg Address.bankgroup heq
  have hba := congrArg Address.bank heq
  have hro := congrArg Address.row heq
  simp only [AddressMap.decodeLine, Nat.cast_inj] at hch hra hbg hba hro
  cases hm : m.mopEnabled with
  | false =>
    rw [hm] at hcol hf
    simp only [Bool.false_eq_true, if_false, Nat.cast_inj] at hcol
    simp only [required, MapField.six, Bool.false_eq_true, if_false, List.mem_cons,
      List.not_mem_nil, or_false] at hf
    rcases hf with rfl | rfl | rfl | rfl | rfl | rfl <;> assumption
  | true =>
    have hlo (line : ℕ) := field_lt h line (f := .lo) (by rw [hm]; simp [required, MapField.seven])
    rw [hm] at hcol hf
    simp only [if_true, Nat.cast_inj] at hcol
    have hpair : m.field x .hi = m.field y .hi ∧ m.field x .lo = m.field y .lo := by
      have hmod := congrArg (· % 2 ^ g.fieldWidths .lo) hcol
      simp only [Nat.mul_add_mod_self_right, Nat.mod_eq_of_lt (hlo x), Nat.mod_eq_of_lt (hlo y)] at hmod
      rw [hmod, Nat.add_right_cancel_iff] at hcol
      exact ⟨Nat.eq_of_mul_eq_mul_right (Nat.two_pow_pos _) hcol, hmod⟩
    simp only [required, MapField.seven, if_true, List.mem_cons, List.not_mem_nil, or_false] at hf
    rcases hf with rfl | rfl | rfl | rfl | rfl | rfl | rfl <;>
      first | assumption | exact hpair.1 | exact hpair.2

/-- The field values of an address. -/
def fieldValue (g : Geometry) (a : Address) : MapField → ℕ
  | .ch => a.channel.toNat
  | .ra => a.rank.toNat
  | .bg => a.bankgroup.toNat
  | .ba => a.bank.toNat
  | .ro => a.row.toNat
  | .co => a.column.toNat
  | .hi => a.column.toNat / 2 ^ g.fieldWidths .lo
  | .lo => a.column.toNat % 2 ^ g.fieldWidths .lo

omit h in
theorem fieldValue_lt {mop : Bool} (hg : g.Regular mop) {a : Address} (ha : g.Contains a) {f : MapField}
    (hf : f ∈ required mop) : g.fieldValue a f < 2 ^ g.fieldWidths f := by
  obtain ⟨hch, hra, hbg, hba, hro, hco⟩ := two_pow_fieldWidths hg
  obtain ⟨h1, h2, h3, h4, h5, h6⟩ := ha
  cases f with
  | ch => rw [hch]; simp only [fieldValue]; omega
  | ra => rw [hra]; simp only [fieldValue]; omega
  | bg => rw [hbg]; simp only [fieldValue]; omega
  | ba => rw [hba]; simp only [fieldValue]; omega
  | ro => rw [hro]; simp only [fieldValue]; omega
  | co => rw [hco]; simp only [fieldValue]; omega
  | lo => exact Nat.mod_lt _ (Nat.two_pow_pos _)
  | hi =>
    have hmop : mop = true := by
      cases mop
      · simp [required, MapField.six] at hf
      · rfl
    subst hmop
    refine Nat.div_lt_of_lt_mul ?_
    rw [← pow_add, Nat.add_comm, hi_add_lo hg, two_pow_actualColBits hg]
    omega

theorem decodeLine_of_fields {a : Address} (ha : g.Contains a) {x : ℕ}
    (hx : ∀ f ∈ required m.mopEnabled, m.field x f = g.fieldValue a f) : m.decodeLine x = a := by
  have hcol := decodeLine_column h x
  have hcommon (f : MapField) (hf : f ∈ [MapField.ch, .ra, .bg, .ba, .ro]) :
      m.field x f = g.fieldValue a f := by
    refine hx f ?_
    cases m.mopEnabled <;> revert hf <;> simp [required, MapField.six, MapField.seven] <;> tauto
  have hcolumn : (m.decodeLine x).column = a.column := by
    rw [hcol]
    have h6 := ha.column
    cases hm : m.mopEnabled with
    | false =>
      rw [hx .co (by rw [hm]; simp [required, MapField.six])]
      simp only [fieldValue]
      simp [h6.1]
    | true =>
      rw [hx .hi (by rw [hm]; simp [required, MapField.seven]),
        hx .lo (by rw [hm]; simp [required, MapField.seven])]
      simp only [fieldValue, if_true, Nat.div_add_mod']
      exact Int.toNat_of_nonneg h6.1
  obtain ⟨c, r, g', b, ro, co⟩ := a
  have h1 := ha.channel
  have h2 := ha.rank
  have h3 := ha.bankgroup
  have h4 := ha.bank
  have h5 := ha.row
  rw [Address.mk.injEq]
  refine ⟨?_, ?_, ?_, ?_, ?_, hcolumn⟩
  · exact (congrArg Nat.cast (hcommon .ch (by simp))).trans (Int.toNat_of_nonneg h1.1)
  · exact (congrArg Nat.cast (hcommon .ra (by simp))).trans (Int.toNat_of_nonneg h2.1)
  · exact (congrArg Nat.cast (hcommon .bg (by simp))).trans (Int.toNat_of_nonneg h3.1)
  · exact (congrArg Nat.cast (hcommon .ba (by simp))).trans (Int.toNat_of_nonneg h4.1)
  · exact (congrArg Nat.cast (hcommon .ro (by simp))).trans (Int.toNat_of_nonneg h5.1)

theorem bijOn_decodeLine (hg : g.Regular m.mopEnabled) :
    Set.BijOn m.decodeLine (Set.Iio (2 ^ g.lineBits m.mopEnabled)) {a | g.Contains a} := by
  obtain ⟨l, hnodup, hmem, htotal, hfield⟩ := exists_layout h
  rw [← htotal]
  refine ⟨fun x _ => contains_decodeLine h hg x, fun x hx y hy heq => ?_, fun a ha => ?_⟩
  · refine eq_of_extract_eq hnodup hx hy fun f hf => ?_
    rw [← hfield x f hf, ← hfield y f hf]
    exact field_eq_of_decodeLine_eq h heq ((hmem f).mp hf)
  · obtain ⟨x, hx, hvalue⟩ := exists_extract hnodup (v := g.fieldValue a)
      fun f hf => fieldValue_lt hg ha ((hmem f).mp hf)
    refine ⟨x, hx, decodeLine_of_fields h ha fun f hf => ?_⟩
    rw [hfield x f ((hmem f).mpr hf), hvalue f ((hmem f).mpr hf)]

end Accepted
end Geometry

/-- The address of a line. -/
def AddressMap.lineAddr (m : AddressMap) (line : ℕ) : HexAddr := .ofNat 64 (line <<< m.shiftBits)

theorem AddressMap.toNat_lineAddr {m : AddressMap} {line bits : ℕ} (hline : line < 2 ^ bits)
    (hbits : bits + m.shiftBits ≤ 64) : (m.lineAddr line).toNat >>> m.shiftBits = line := by
  have hlt : line <<< m.shiftBits < 2 ^ 64 := by
    rw [Nat.shiftLeft_eq]
    calc line * 2 ^ m.shiftBits < 2 ^ bits * 2 ^ m.shiftBits :=
          Nat.mul_lt_mul_of_pos_right hline (Nat.two_pow_pos _)
      _ = 2 ^ (bits + m.shiftBits) := (pow_add 2 bits m.shiftBits).symm
      _ ≤ 2 ^ 64 := Nat.pow_le_pow_right (by norm_num) hbits
  rw [lineAddr, BitVec.toNat_ofNat, Nat.mod_eq_of_lt hlt, Nat.shiftLeft_shiftRight]

/-- The accepted strings of six or seven fields are the permutations of them, and the decoder they
set up maps the line numbers one-to-one onto the addresses of the geometry. -/
theorem address_mapping_bijective (g : Geometry) (mapping : List Char) :
    (mapping.length = 12 → ((∃ m, g.setAddressMapping mapping = .ok m) ↔
      ∃ fs : List MapField, fs.Perm MapField.six ∧ mapping = fs.flatMap MapField.token)) ∧
    (mapping.length = 14 → ((∃ m, g.setAddressMapping mapping = .ok m) ↔
      ∃ fs : List MapField, fs.Perm MapField.seven ∧ mapping = fs.flatMap MapField.token)) ∧
    ∀ m, g.setAddressMapping mapping = .ok m → g.Regular m.mopEnabled →
      g.lineBits m.mopEnabled + m.shiftBits ≤ 64 →
      (∀ hexAddr, g.Contains (m.addressMapping hexAddr)) ∧
      (∀ hexAddr hexAddr' : HexAddr, hexAddr.toNat >>> m.shiftBits = hexAddr'.toNat >>> m.shiftBits →
        m.addressMapping hexAddr = m.addressMapping hexAddr') ∧
      Set.BijOn (fun line => m.addressMapping (m.lineAddr line))
        (Set.Iio (2 ^ g.lineBits m.mopEnabled)) {a | g.Contains a} := by
  refine ⟨fun hlen => ?_, fun hlen => ?_, fun m hm hg hbits => ⟨fun hexAddr => ?_, ?_, ?_⟩⟩
  · exact Geometry.setAddressMapping_ok_iff false hlen
  · exact Geometry.setAddressMapping_ok_iff true hlen
  · exact Geometry.contains_decodeLine hm hg _
  · intro hexAddr hexAddr' h
    rw [AddressMap.addressMapping, AddressMap.addressMapping, h]
  · refine (Geometry.bijOn_decodeLine hm hg).congr fun line hline => ?_
    rw [AddressMap.addressMapping, AddressMap.toNat_lineAddr hline hbits]

/-- The geometry of HBM1_4Gb_x128. -/
def hbm1 : Geometry where
  channels := 8
  ranks := 1
  bankgroups := 4
  banksPerGroup := 4
  rows := 16384
  columns := 128
  BL := 4
  mopSize := 0
  busWidth := 128

theorem hbm1_regular : hbm1.Regular false where
  channels := ⟨3, rfl⟩
  ranks := ⟨0, rfl⟩
  bankgroups := ⟨2, rfl⟩
  banksPerGroup := ⟨2, rfl⟩
  rows := ⟨14, rfl⟩
  columns := ⟨7, rfl⟩
  BL := ⟨2, rfl⟩
  BL_le := by decide
  mopSize := nofun
  mopSize_le := nofun

theorem address_mapping_bijective_hbm1 : ∃ m, hbm1.setAddressMapping "rorabgbachco".toList = .ok m ∧
    m.pos .ch = 5 ∧ Set.BijOn (fun line => m.addressMapping (m.lineAddr line))
      (Set.Iio (2 ^ 26)) {a | hbm1.Contains a} := by
  obtain ⟨m, hm, hp⟩ := exists_ok_of_any (x := hbm1.setAddressMapping "rorabgbachco".toList)
    (p := fun m => m.pos .ch = 5 ∧ m.mopEnabled = false ∧ m.shiftBits = 6) (by decide +kernel)
  simp only [Bool.decide_and, Bool.and_eq_true, decide_eq_true_eq] at hp
  obtain ⟨hpos, hmop, hshift⟩ := hp
  have hbits : hbm1.lineBits m.mopEnabled = 26 := by
    rw [hmop]
    decide
  refine ⟨m, hm, hpos, ?_⟩
  have h := (address_mapping_bijective hbm1 "rorabgbachco".toList).2.2 m hm (by rw [hmop]; exact hbm1_regular)
    (by rw [hbits, hshift]; decide)
  rw [hbits] at h
  exact h.2.2

end CactusDram

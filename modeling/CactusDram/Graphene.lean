import CactusDram.Samplers
import CactusDram.Foundations.Frequency

/-! The Graphene table of a bank under any interleaving of its operations: when its counters bound
the activations of every row, and when a mitigation makes them miss some. -/
namespace CactusDram
open Foundations

namespace BankState
variable {cfg : Config} {b b' : BankState} {row : ℕ}

def listed (b : BankState) (row : ℕ) : Bool := b.grapheneQ.any (·.rowid = row)

/-- The table bounds the activations of every row. -/
def Bounds (b : BankState) (calls : ℕ → ℕ) : Prop :=
  Frequency.Bounds GrapheneQEntry.rowid GrapheneQEntry.ctr b.grapheneQ b.grapheneSpillCounter calls

/-- An activation that is counted in full: the 16-bit counter of its row does not wrap around, and a
row that takes a free entry finds nothing spilled. -/
def CountsFully (b : BankState) (row : ℕ) : Prop :=
  if b.listed row then ∀ e ∈ b.grapheneQ, e.rowid = row → e.ctr + 1 < 2 ^ 16
  else if b.grapheneQ.length < b.grapheneEntries then b.grapheneSpillCounter = 0
  else ∀ e ∈ b.grapheneQ, e.ctr = b.grapheneSpillCounter → e.ctr + 1 < 2 ^ 16

instance (b : BankState) (row : ℕ) : Decidable (b.CountsFully row) :=
  inferInstanceAs (Decidable (if b.listed row then ∀ e ∈ b.grapheneQ, _ → _
    else if b.grapheneQ.length < b.grapheneEntries then _ else ∀ e ∈ b.grapheneQ, _ → _))

/-- No row of the table has reached the threshold: the row queued last has been mitigated. -/
def Cool (cfg : Config) (b : BankState) : Prop := ∀ e ∈ b.grapheneQ, (e.ctr : ℤ) < cfg.grapheneTh

instance (cfg : Config) (b : BankState) : Decidable (b.Cool cfg) :=
  inferInstanceAs (Decidable (∀ e ∈ b.grapheneQ, _))

/-- The entry with the first largest counter. -/
def hottest (b : BankState) : Option GrapheneQEntry :=
  b.grapheneQ[maxIdx (b.grapheneQ.map (·.ctr))]?

/-- A mitigation whose sampled row is the one it takes out of the table. -/
def MitigatesHottest (b : BankState) : Prop :=
  ∀ e ∈ b.hottest, b.drfmMitig.1 = some e.rowid

instance (b : BankState) : Decidable b.MitigatesHottest :=
  inferInstanceAs (Decidable (∀ e ∈ b.hottest, _))

/-- One more activation of a row. -/
def counted (calls : ℕ → ℕ) (row : ℕ) : ℕ → ℕ := Function.update calls row (calls row + 1)

theorem counted_self (calls : ℕ → ℕ) (row : ℕ) : counted calls row row = calls row + 1 := by
  simp [counted]

theorem counted_of_ne (calls : ℕ → ℕ) {row r : ℕ} (h : r ≠ row) : counted calls row r = calls r := by
  simp [counted, Function.update_of_ne h]

theorem listed_eq_false : b.listed row = false ↔ row ∉ b.grapheneQ.map GrapheneQEntry.rowid := by
  simp [listed]

/-- What an activation does to the table: it moves the entry of its row on, takes a free entry, takes
over the first entry at the spill count, or is spilled. -/
inductive Counts (b : BankState) (row : ℕ) : BankState → Prop
  | listed {pre e post} (hq : b.grapheneQ = pre ++ e :: post) (hrow : e.rowid = row) :
      Counts b row { b with grapheneQ := pre ++ { e with ctr := u16 (e.ctr + 1) } :: post }
  | opened (hnew : b.listed row = false) (hfree : b.grapheneQ.length < b.grapheneEntries) :
      Counts b row { b with grapheneQ := b.grapheneQ ++ [⟨row, 1⟩] }
  | replaced {pre e post} (hnew : b.listed row = false)
      (hfull : b.grapheneEntries ≤ b.grapheneQ.length) (hq : b.grapheneQ = pre ++ e :: post)
      (hctr : e.ctr = b.grapheneSpillCounter) :
      Counts b row
        { b with grapheneQ := pre ++ ⟨row, u16 (b.grapheneSpillCounter + 1)⟩ :: post }
  | spilled (hnew : b.listed row = false) (hfull : b.grapheneEntries ≤ b.grapheneQ.length)
      (hctr : ∀ e ∈ b.grapheneQ, e.ctr ≠ b.grapheneSpillCounter) :
      Counts b row { b with grapheneSpillCounter := b.grapheneSpillCounter + 1 }

theorem grapheneCount_counts (b : BankState) (row : ℕ) : b.Counts row (b.grapheneCount row) := by
  unfold grapheneCount
  cases hfind : b.grapheneQ.findIdx? (·.rowid = row) with
  | some i =>
    obtain ⟨pre, e, post, hq, rfl, he⟩ := split_of_findIdx? hfind
    dsimp only
    rw [hq, modify_append_cons]
    exact .listed hq (by simpa using he)
  | none =>
    have hnew : b.listed row = false := by
      rw [List.findIdx?_eq_none_iff] at hfind
      simpa [listed] using hfind
    dsimp only
    split_ifs with hfree
    · exact .opened hnew hfree
    · cases hlow : b.grapheneQ.findIdx? (·.ctr = b.grapheneSpillCounter) with
      | some i =>
        obtain ⟨pre, e, post, hq, rfl, he⟩ := split_of_findIdx? hlow
        have hset : b.grapheneQ.set pre.length ⟨row, u16 (b.grapheneSpillCounter + 1)⟩ =
            pre ++ ⟨row, u16 (b.grapheneSpillCounter + 1)⟩ :: post := by simp [hq]
        dsimp only
        rw [hset]
        exact .replaced hnew (Nat.not_lt.mp hfree) hq (by simpa using he)
      | none =>
        rw [List.findIdx?_eq_none_iff] at hlow
        exact .spilled hnew (Nat.not_lt.mp hfree) (by simpa using hlow)

theorem CountsFully.listed (h : b.CountsFully row) {e : GrapheneQEntry} (he : e ∈ b.grapheneQ)
    (hrow : e.rowid = row) : e.ctr + 1 < 2 ^ 16 := by
  have hlisted : b.listed row = true := List.any_eq_true.mpr ⟨e, he, by simp [hrow]⟩
  rw [CountsFully, if_pos hlisted] at h
  exact h e he hrow

theorem CountsFully.opened (h : b.CountsFully row) (hnew : b.listed row = false)
    (hfree : b.grapheneQ.length < b.grapheneEntries) : b.grapheneSpillCounter = 0 := by
  rwa [CountsFully, if_neg (by simp [hnew]), if_pos hfree] at h

theorem CountsFully.replaced (h : b.CountsFully row) (hnew : b.listed row = false)
    (hlen : b.grapheneEntries ≤ b.grapheneQ.length) {e : GrapheneQEntry} (he : e ∈ b.grapheneQ)
    (hctr : e.ctr = b.grapheneSpillCounter) : e.ctr + 1 < 2 ^ 16 := by
  rw [CountsFully, if_neg (by simp [hnew]), if_neg (Nat.not_lt.mpr hlen)] at h
  exact h e he hctr

theorem Bounds.count {calls : ℕ → ℕ} (h : b.Bounds calls) (hfull : b.CountsFully row) :
    (b.grapheneCount row).Bounds (counted calls row) := by
  have hne {r : ℕ} (hr : r ≠ row) : counted calls row r ≤ calls r := (counted_of_ne calls hr).le
  have hcase := b.grapheneCount_counts row
  generalize b.grapheneCount row = b' at hcase
  unfold Bounds at *
  cases hcase with
  | @listed pre e post hq hrow =>
    have hctr := hfull.listed (by simp [hq]) hrow
    rw [hq] at h
    refine h.count rfl ?_ fun r hr => hne (hrow ▸ hr)
    have hle := h.listed e (by simp)
    rw [hrow] at hle ⊢
    rw [counted_self]
    simp only [u16]
    omega
  | opened hnew hfree =>
    -- nothing has been spilled, so the row has not been activated yet
    have hmem := listed_eq_false.mp hnew
    have hnone : calls row = 0 := Nat.le_zero.mp (hfull.opened hnew hfree ▸ h.unlisted row hmem)
    rw [← List.append_nil b.grapheneQ] at h hmem
    exact h.insert hmem (by simp [counted_self, hnone]) fun r hr => hne hr
  | @replaced pre e post hnew hlen hq hctr =>
    have hlt := hfull.replaced hnew hlen (by simp [hq]) hctr
    have hmem := listed_eq_false.mp hnew
    rw [hq] at h hmem
    have hdrop := h.erase ((h.listed e (by simp)).trans hctr.le)
    refine hdrop.insert (fun hold => hmem ?_) ?_ fun r hr => hne hr
    · simp only [List.map_append, List.map_cons, List.mem_append, List.mem_cons] at hold ⊢
      tauto
    · have hle := h.unlisted row hmem
      rw [counted_self]
      simp only [u16]
      omega
  | spilled hnew _ _ =>
    exact h.countUnlisted (listed_eq_false.mp hnew) (counted_self calls row).le fun r hr => hne hr

/-- No counter of the table is below the spill count. -/
def Above (b : BankState) : Prop := ∀ e ∈ b.grapheneQ, b.grapheneSpillCounter ≤ e.ctr

theorem Above.count (h : b.Above) (hfull : b.CountsFully row) : (b.grapheneCount row).Above := by
  have hcase := b.grapheneCount_counts row
  generalize b.grapheneCount row = b' at hcase
  unfold Above at h ⊢
  cases hcase with
  | @listed pre e post hq hrow =>
    have hctr := hfull.listed (by simp [hq]) hrow
    rw [hq] at h
    intro e' he'
    obtain hpre | rfl | hpost := by simpa using he'
    · exact h e' (by simp [hpre])
    · have hle := h e (by simp)
      simp only [u16]
      omega
    · exact h e' (by simp [hpost])
  | opened hnew hfree =>
    intro e' _
    exact (hfull.opened hnew hfree).le.trans (Nat.zero_le _)
  | @replaced pre e post hnew hlen hq hctr =>
    have hlt := hfull.replaced hnew hlen (by simp [hq]) hctr
    rw [hq] at h
    intro e' he'
    obtain hpre | rfl | hpost := by simpa using he'
    · exact h e' (by simp [hpre])
    · simp only [u16]
      omega
    · exact h e' (by simp [hpost])
  | spilled hnew hlen hctr =>
    intro e he
    exact Nat.lt_of_le_of_ne (h e he) (hctr e he).symm

/-- A counted row is listed afterwards unless it is spilled, and every other entry is an old one. -/
theorem Counts.entries (h : b.Counts row b') {e : GrapheneQEntry} (he : e ∈ b'.grapheneQ)
    (hrow : e.rowid ≠ row) : e ∈ b.grapheneQ := by
  cases h with
  | @listed pre e₀ post hq hrow₀ =>
    obtain hpre | rfl | hpost := by simpa using he
    · simp [hq, hpre]
    · exact absurd hrow₀ hrow
    · simp [hq, hpost]
  | opened _ _ =>
    obtain hold | rfl := by simpa using he
    · exact hold
    · exact absurd rfl hrow
  | @replaced pre e₀ post _ _ hq _ =>
    obtain hpre | rfl | hpost := by simpa using he
    · simp [hq, hpre]
    · exact absurd rfl hrow
    · simp [hq, hpost]
  | spilled _ _ _ => exact he

/-- Forgetting the activations of a row never hurts. -/
theorem Bounds.forget {calls : ℕ → ℕ} {p : ℕ → Prop} [DecidablePred p] (h : b.Bounds calls) :
    b.Bounds fun r => if p r then 0 else calls r :=
  h.mono fun r => by split_ifs <;> omega

theorem Bounds.mitig (hmode : cfg.grapheneMode ≠ 0) {calls : ℕ → ℕ} (h : b.Bounds calls)
    (hhot : b.MitigatesHottest) :
    (b.grapheneMitig cfg).Bounds fun r => if b.drfmMitig.1 = some r then 0 else calls r := by
  obtain ⟨q, hq⟩ := b.drfmMitig_eq
  unfold grapheneMitig
  rw [if_neg hmode, hq]
  have hforget := h.forget (p := fun r => b.drfmMitig.1 = some r)
  unfold MitigatesHottest hottest at hhot
  unfold Bounds at hforget ⊢
  dsimp only
  generalize maxIdx (b.grapheneQ.map fun e => e.ctr) = i at hhot ⊢
  cases hi : b.grapheneQ[i]? with
  | none =>
    rw [List.eraseIdx_of_length_le (List.getElem?_eq_none_iff.mp hi)]
    exact hforget
  | some e =>
    obtain ⟨hlt, hget⟩ := List.getElem?_eq_some_iff.mp hi
    have hsplit : b.grapheneQ = b.grapheneQ.take i ++ e :: b.grapheneQ.drop (i + 1) := by
      rw [← hget, List.getElem_cons_drop, List.take_append_drop]
    rw [List.eraseIdx_eq_take_drop_succ]
    rw [hsplit] at hforget
    refine hforget.erase ?_
    simp [hhot e hi]

/-- Of a cool table, an activation that reaches the threshold lists its row: as long as every counter
is below the threshold, so is a spill count that grows. -/
theorem Bounds.lists {calls : ℕ → ℕ} (h : b.Bounds calls) (habove : b.Above)
    (hentries : 1 ≤ b.grapheneEntries) (hcool : b.Cool cfg)
    (hreach : cfg.grapheneTh ≤ calls row + 1) :
    ∃ e ∈ (b.grapheneCount row).grapheneQ, e.rowid = row := by
  have hcase := b.grapheneCount_counts row
  generalize b.grapheneCount row = b' at hcase
  cases hcase with
  | listed _ hrow => exact ⟨_, List.mem_append_right _ List.mem_cons_self, hrow⟩
  | opened _ _ => exact ⟨⟨row, 1⟩, List.mem_append_right _ List.mem_cons_self, rfl⟩
  | replaced _ _ _ _ => exact ⟨_, List.mem_append_right _ List.mem_cons_self, rfl⟩
  | spilled hnew hlen hctr =>
    obtain ⟨e, he⟩ := List.exists_mem_of_length_pos (Nat.lt_of_lt_of_le hentries hlen)
    have hspill := Nat.lt_of_le_of_ne (habove e he) (hctr e he).symm
    have hcalls := h.unlisted row (listed_eq_false.mp hnew)
    have hlow := hcool e he
    omega

/-- A fully counted activation that reaches the threshold in a cool table queues its row. -/
theorem Bounds.queues (hmode : cfg.grapheneMode ≠ 0) {calls : ℕ → ℕ} (h : b.Bounds calls)
    (habove : b.Above) (hentries : 1 ≤ b.grapheneEntries) (hfull : b.CountsFully row)
    (hcool : b.Cool cfg) (hreach : cfg.grapheneTh ≤ calls row + 1) :
    (b.graphenePreact cfg row).drfmQ = (b.grapheneCount row).drfmQ ++ [⟨row, 0⟩] := by
  have hcount := h.count hfull
  obtain ⟨e, he, hrow⟩ := h.lists habove hentries hcool hreach
  have hcase := b.grapheneCount_counts row
  unfold graphenePreact
  rw [if_neg hmode]
  dsimp only
  generalize b.grapheneCount row = b' at hcount he hcase ⊢
  have hle := hcount.listed e he
  rw [hrow, counted_self] at hle
  cases hfind : b'.grapheneQ.find? fun e => decide (cfg.grapheneTh ≤ (e.ctr : ℤ)) with
  | none =>
    have := List.find?_eq_none.mp hfind e he
    simp only [decide_eq_true_eq, not_le] at this
    omega
  | some found =>
    have hth : cfg.grapheneTh ≤ found.ctr := by simpa using List.find?_some hfind
    have hfound : found.rowid = row := by
      by_contra hne
      have := hcool found (hcase.entries (List.mem_of_find?_eq_some hfind) hne)
      omega
    simp [hfound]

theorem grapheneCount_drfmQ : (b.grapheneCount row).drfmQ = b.drfmQ := by
  unfold grapheneCount
  split
  · rfl
  · split_ifs
    · rfl
    · split <;> rfl

theorem grapheneCount_entries (b : BankState) (row : ℕ) :
    (b.grapheneCount row).grapheneEntries = b.grapheneEntries := by
  have hcase := b.grapheneCount_counts row
  generalize b.grapheneCount row = b' at hcase
  cases hcase <;> rfl

theorem graphenePreact_table (b : BankState) (row : ℕ) (hmode : cfg.grapheneMode ≠ 0) :
    (b.graphenePreact cfg row).grapheneQ = (b.grapheneCount row).grapheneQ ∧
      (b.graphenePreact cfg row).grapheneSpillCounter =
        (b.grapheneCount row).grapheneSpillCounter ∧
      (b.graphenePreact cfg row).grapheneEntries = b.grapheneEntries := by
  unfold graphenePreact
  rw [if_neg hmode, ← b.grapheneCount_entries row]
  dsimp only
  split <;> exact ⟨rfl, rfl, rfl⟩

end BankState

/-- The operations on the Graphene table of a bank. `others` stands for everything else that
happens to the bank in between. -/
inductive GrapheneOp
  | preact (rowid : ℕ)
  | refresh
  | mitig
  | others (b : BankState)

namespace GrapheneOp
variable (cfg : Config)

def apply (b : BankState) : GrapheneOp → BankState
  | .preact rowid => b.graphenePreact cfg rowid
  | .refresh => b.grapheneRefresh cfg
  | .mitig => b.grapheneMitig cfg
  | .others b' => { b' with
      grapheneQ := b.grapheneQ
      grapheneSpillCounter := b.grapheneSpillCounter
      grapheneEntries := b.grapheneEntries }

/-- The operation resets the table, or mitigates the row. -/
def resets (b : BankState) (row : ℕ) : GrapheneOp → Bool
  | .refresh => b.refIdx % cfg.rows = 0
  | .mitig => b.drfmMitig.1 = some row
  | .preact _ | .others _ => false

def countsFor (row : ℕ) : GrapheneOp → Bool
  | .preact rowid => rowid = row
  | _ => false

/-- The operation loses no activation. -/
def Exact (b : BankState) : GrapheneOp → Prop
  | .preact rowid => b.CountsFully rowid
  | .mitig => b.MitigatesHottest
  | .refresh | .others _ => True

instance (b : BankState) : (op : GrapheneOp) → Decidable (op.Exact b)
  | .preact rowid => inferInstanceAs (Decidable (b.CountsFully rowid))
  | .mitig => inferInstanceAs (Decidable b.MitigatesHottest)
  | .refresh | .others _ => .isTrue trivial

end GrapheneOp

/-- A run of the table, with the activations of each row since its last reset or mitigation. -/
structure GrapheneRun (cfg : Config) where
  b : BankState
  calls : ℕ → ℕ := fun _ => 0

namespace GrapheneRun
variable {cfg : Config} {s : GrapheneRun cfg}

def step (s : GrapheneRun cfg) (op : GrapheneOp) : GrapheneRun cfg where
  b := op.apply cfg s.b
  calls row := if op.resets cfg s.b row then 0 else s.calls row + (op.countsFor row).toNat

def run (s : GrapheneRun cfg) (ops : List GrapheneOp) : GrapheneRun cfg := ops.foldl step s

def start (boot : Boot cfg) (i : BankId) : GrapheneRun cfg := { b := boot.bank i }

/-- No operation of the run loses an activation. -/
def Exact : GrapheneRun cfg → List GrapheneOp → Prop
  | _, [] => True
  | s, op :: ops => op.Exact s.b ∧ Exact (s.step op) ops

instance : (s : GrapheneRun cfg) → (ops : List GrapheneOp) → Decidable (s.Exact ops)
  | _, [] => .isTrue trivial
  | s, op :: ops =>
    have : Decidable ((s.step op).Exact ops) := instDecidableExact (s.step op) ops
    inferInstanceAs (Decidable (op.Exact s.b ∧ (s.step op).Exact ops))

/-- The table bounds the activations so far, and no counter has fallen below the spill count. -/
structure Sound (s : GrapheneRun cfg) : Prop where
  bounds : s.b.Bounds s.calls
  above : s.b.Above

theorem sound_start (boot : Boot cfg) (i : BankId) : (start boot i).Sound where
  bounds := Frequency.bounds_nil fun _ => rfl
  above _ he := nomatch he

theorem Sound.step (hmode : cfg.grapheneMode ≠ 0) (hs : s.Sound) {op : GrapheneOp}
    (hop : op.Exact s.b) : (s.step op).Sound := by
  cases op with
  | preact rowid =>
    have hcalls : (s.step (.preact rowid)).calls = BankState.counted s.calls rowid := by
      funext r
      by_cases hr : r = rowid
      · subst hr
        simp [GrapheneRun.step, GrapheneOp.resets, GrapheneOp.countsFor, BankState.counted]
      · simp [GrapheneRun.step, GrapheneOp.resets, GrapheneOp.countsFor, BankState.counted,
          Function.update_of_ne hr, Ne.symm hr]
    have hcount : (s.b.grapheneCount rowid).Bounds (BankState.counted s.calls rowid) :=
      hs.bounds.count hop
    have habove : (s.b.grapheneCount rowid).Above := hs.above.count hop
    obtain ⟨hq, hspill, _⟩ := BankState.graphenePreact_table s.b rowid hmode
    unfold BankState.Bounds at hcount
    unfold BankState.Above at habove
    rw [← hq, ← hspill] at hcount habove
    exact ⟨by rw [hcalls]; exact hcount, habove⟩
  | refresh =>
    by_cases hreset : s.b.refIdx % cfg.rows = 0
    · have hb : (s.step .refresh).b.grapheneQ = [] := by
        simp [GrapheneRun.step, GrapheneOp.apply, BankState.grapheneRefresh, hmode, hreset]
      constructor
      · unfold BankState.Bounds
        rw [hb]
        exact Frequency.bounds_nil fun r => by simp [GrapheneRun.step, GrapheneOp.resets, hreset]
      · unfold BankState.Above
        rw [hb]
        exact fun e he => nomatch he
    · have hstep : s.step .refresh = s := by
        simp [GrapheneRun.step, GrapheneOp.apply, GrapheneOp.resets, GrapheneOp.countsFor,
          BankState.grapheneRefresh, hmode, hreset]
      rw [hstep]
      exact hs
  | mitig =>
    have hcalls : (s.step .mitig).calls =
        fun r => if s.b.drfmMitig.1 = some r then 0 else s.calls r := by
      funext r
      simp [GrapheneRun.step, GrapheneOp.resets, GrapheneOp.countsFor]
    refine ⟨by rw [hcalls]; exact hs.bounds.mitig hmode hop, ?_⟩
    obtain ⟨q, hq⟩ := s.b.drfmMitig_eq
    change (s.b.grapheneMitig cfg).Above
    unfold BankState.grapheneMitig BankState.Above
    rw [if_neg hmode, hq]
    exact fun e he => hs.above e (List.mem_of_mem_eraseIdx he)
  | others b => exact ⟨hs.bounds, hs.above⟩

theorem Sound.run (hmode : cfg.grapheneMode ≠ 0) (hs : s.Sound) {ops : List GrapheneOp}
    (hops : s.Exact ops) : (s.run ops).Sound := by
  induction ops generalizing s with
  | nil => exact hs
  | cons op ops ih => exact ih (hs.step hmode hops.1) hops.2

theorem entries_step (hmode : cfg.grapheneMode ≠ 0) (s : GrapheneRun cfg) (op : GrapheneOp) :
    (s.step op).b.grapheneEntries = s.b.grapheneEntries := by
  cases op with
  | preact rowid => exact (BankState.graphenePreact_table s.b rowid hmode).2.2
  | refresh =>
    change (s.b.grapheneRefresh cfg).grapheneEntries = _
    unfold BankState.grapheneRefresh
    split_ifs <;> rfl
  | mitig =>
    obtain ⟨q, hq⟩ := s.b.drfmMitig_eq
    change (s.b.grapheneMitig cfg).grapheneEntries = _
    unfold BankState.grapheneMitig
    rw [if_neg hmode, hq]
  | others b => rfl

theorem entries_run (hmode : cfg.grapheneMode ≠ 0) (s : GrapheneRun cfg) (ops : List GrapheneOp) :
    (s.run ops).b.grapheneEntries = s.b.grapheneEntries := by
  induction ops generalizing s with
  | nil => rfl
  | cons op ops ih => exact (ih (s.step op)).trans (entries_step hmode s op)

end GrapheneRun

/-- In a run that loses no activation, the activations of a row since its last reset or mitigation
are at most its counter, or the spill count while the row is not listed; and an activation that
reaches the threshold while no row of the table is there yet queues its row. -/
theorem graphene_counts_bounded (cfg : Config) (hmode : cfg.grapheneMode = 1) (boot : Boot cfg)
    (i : BankId) (hentries : 1 ≤ (boot.bank i).grapheneEntries) (ops : List GrapheneOp)
    (hexact : (GrapheneRun.start boot i).Exact ops) (row : ℕ) :
    let s := (GrapheneRun.start boot i).run ops
    (∀ e ∈ s.b.grapheneQ, e.rowid = row → s.calls row ≤ e.ctr) ∧
      ((∀ e ∈ s.b.grapheneQ, e.rowid ≠ row) → s.calls row ≤ s.b.grapheneSpillCounter) ∧
      (s.b.CountsFully row → s.b.Cool cfg → cfg.grapheneTh ≤ s.calls row + 1 →
        (s.b.graphenePreact cfg row).drfmQ = s.b.drfmQ ++ [⟨row, 0⟩]) := by
  have hmode' : cfg.grapheneMode ≠ 0 := by omega
  have hs := (GrapheneRun.sound_start boot i).run hmode' hexact
  have hkept : ((GrapheneRun.start boot i).run ops).b.grapheneEntries = (boot.bank i).grapheneEntries :=
    GrapheneRun.entries_run hmode' _ ops
  dsimp only
  generalize (GrapheneRun.start boot i).run ops = s at hs hkept ⊢
  refine ⟨fun e he hrow => hrow ▸ hs.bounds.listed e he, fun hnone => ?_, fun hfull hcool hreach => ?_⟩
  · exact hs.bounds.unlisted row (by simpa using hnone)
  · rw [hs.bounds.queues hmode' hs.above (hkept ▸ hentries) hfull hcool hreach,
      BankState.grapheneCount_drfmQ]

/-- One entry and a threshold of two activations. -/
def grapheneConfig : Config :=
  { smallConfig with grapheneMode := 1, grapheneTh := 2, tREFI := 1, drfmMode := 1 }

/-- Row 0 takes the entry and is about to reach the threshold; row 1 is spilled. -/
theorem graphene_counts_bounded_small :
    let s := (GrapheneRun.start ({} : Boot grapheneConfig) ⟨0, 0, 0⟩).run [.preact 0, .preact 1]
    (GrapheneRun.start ({} : Boot grapheneConfig) ⟨0, 0, 0⟩).Exact [.preact 0, .preact 1] ∧
      s.calls 0 = 1 ∧ (∀ e ∈ s.b.grapheneQ, e.rowid = 0 → s.calls 0 ≤ e.ctr) ∧
      (s.b.graphenePreact grapheneConfig 0).drfmQ = s.b.drfmQ ++ [⟨0, 0⟩] := by
  obtain ⟨hlisted, _, hqueue⟩ := graphene_counts_bounded grapheneConfig rfl {} ⟨0, 0, 0⟩ (by decide)
    [.preact 0, .preact 1] (by decide) 0
  exact ⟨by decide, by decide, hlisted, hqueue (by decide) (by decide) (by decide)⟩

/-- Rows 0 and 1 are read in turn, twice. The second activation of row 0 has it mitigated, which
frees the only entry, and the second activation of row 1 takes it with a counter of one. -/
theorem graphene_counts_exceeded :
    (let s := (GrapheneRun.start ({} : Boot grapheneConfig) ⟨0, 0, 0⟩).run
      [.preact 0, .preact 1, .preact 0, .mitig, .preact 1]
    s.calls 1 = 2 ∧ s.b.grapheneQ = [⟨1, 1⟩]) ∧
    ∃ c, Reachable grapheneConfig c ∧
      (c.channelState.bankStates ⟨0, 0, 0⟩).grapheneQ = [⟨1, 1⟩] ∧
      (c.channelState.log.filter (Event.hooks ⟨0, 0, 0⟩ 1)).length = 2 ∧
      ∀ e ∈ c.channelState.log, e.resets grapheneConfig ⟨0, 0, 0⟩ 1 = false := by
  refine ⟨by decide, ?_⟩
  obtain ⟨c, hrun, hc⟩ := exists_ok_of_any
    (p := fun c => (c.channelState.bankStates ⟨0, 0, 0⟩).grapheneQ = [⟨1, 1⟩] &&
      (c.channelState.log.filter (Event.hooks ⟨0, 0, 0⟩ 1)).length = 2 &&
      c.channelState.log.all fun e => !e.resets grapheneConfig ⟨0, 0, 0⟩ 1)
    (x := Controller.run grapheneConfig ({} : Boot grapheneConfig).controller
      (Input.request 0 false 4 ++ Input.request 2 false 6 ++ Input.request 0 false 6 ++
        Input.request 2 false 8)) (by decide +kernel)
  simp only [Bool.and_eq_true, decide_eq_true_eq, List.all_eq_true, Bool.not_eq_true'] at hc
  exact ⟨c, ⟨{}, _, hrun⟩, hc.1.1, hc.1.2, hc.2⟩

end CactusDram

import CactusDram.Channel.Query
import CactusDram.LRURefinement
import CactusDram.Run

/-! The outcome of a lookup in the row-count cache. Hit, clean miss and dirty eviction share one
result: `0`, `-1` and the address of the evicted line. -/
namespace CactusDram
open Foundations

namespace LRUCache
variable {c : LRUCache} {addr : HexAddr} {set : ℕ} {e : CacheEntry}

def Present (c : LRUCache) (set : ℕ) (addr : HexAddr) : Prop := ∃ e ∈ c.lines set, e.addr = addr

/-- A dirty line has left its way. -/
def DirtyEvicted (c c' : LRUCache) (set : ℕ) (e : CacheEntry) : Prop :=
  e.dirty ∧ ∃ i < c.ways, c.slot set i = some e ∧ ∀ e', c'.slot set i = some e' → e'.addr ≠ e.addr

/-- The line in the way that a miss takes. -/
def victim (c : LRUCache) (set : ℕ) : CacheEntry := c.cache (set * c.ways + c.findVictim set)

/-- A miss would evict a dirty line whose address is one of the two codes. -/
def Masked (c : LRUCache) (set : ℕ) (addr : HexAddr) : Prop :=
  c.lookup addr set = none ∧ (c.victim set).valid ∧ (c.victim set).dirty ∧
    ((c.victim set).addr = 0 ∨ (c.victim set).addr = noAddr)

instance (c : LRUCache) (set : ℕ) (addr : HexAddr) : Decidable (c.Present set addr) :=
  inferInstanceAs (Decidable (∃ e ∈ c.lines set, e.addr = addr))

instance (c : LRUCache) (set : ℕ) (addr : HexAddr) : Decidable (c.Masked set addr) :=
  inferInstanceAs (Decidable (_ ∧ _ ∧ _ ∧ (_ ∨ _)))

theorem present_iff : c.Present set addr ↔ c.lookup addr set ≠ none := by
  constructor
  · rintro ⟨e, he, haddr⟩ hlook
    exact lookup_none hlook e he haddr
  · intro hlook
    obtain ⟨i, hi⟩ := Option.ne_none_iff_exists'.mp hlook
    obtain ⟨hlt, e, hslot, haddr, _⟩ := lookup_some hi
    exact ⟨e, mem_held.mpr ⟨i, List.mem_range.mpr hlt, hslot⟩, haddr⟩

/-- Only the line whose way is taken can leave. -/
theorem dirtyEvicted_put {i : ℕ} (hi : i < c.ways) (he : e.valid) (g : CacheEntry) :
    DirtyEvicted c (c.put set i e) set g ↔ g.dirty ∧ c.slot set i = some g ∧ e.addr ≠ g.addr := by
  constructor
  · rintro ⟨hdirty, j, hj, hg, hgone⟩
    simp only [put_slot hi he hj, if_true] at hgone
    by_cases hji : j = i
    · subst hji
      exact ⟨hdirty, hg, hgone e (Function.update_self _ _ _)⟩
    · rw [Function.update_of_ne hji] at hgone
      exact absurd rfl (hgone g hg)
  · rintro ⟨hdirty, hg, hne⟩
    refine ⟨hdirty, i, hi, hg, fun e' he' => ?_⟩
    rw [put_slot hi he hi, if_pos rfl, Function.update_self, Option.some_inj] at he'
    exact he' ▸ hne

/-- What a read does: nothing leaves on a hit, and on a miss the victim. -/
theorem read_spec (hways : 0 < c.ways) (addr : HexAddr) {n : ℕ} (hset : c.getIndex n = set) :
    c.lookup addr set ≠ none ∧ (c.read addr n).1 = 0 ∧
        (∀ e, ¬DirtyEvicted c (c.read addr n).2 set e) ∨
      c.lookup addr set = none ∧ (c.read addr n).1 =
          (if (c.victim set).valid && (c.victim set).dirty then (c.victim set).addr else noAddr) ∧
        ∀ e, DirtyEvicted c (c.read addr n).2 set e ↔ e = c.victim set ∧ e.valid ∧ e.dirty := by
  have hread : c.read addr n = c.call (fun _ => n) ⟨false, addr⟩ := rfl
  rw [hread]
  rcases c.call_eq (fun _ => n) ⟨false, addr⟩ with ⟨i, e, hlook, he, hcall⟩ | ⟨hlook, v, e, hv, he, hcall⟩ <;>
    rw [hcall] <;> simp only [hset] at hlook he ⊢
  · obtain ⟨hi, f, hslot, _, hf⟩ := lookup_some hlook
    rw [← he] at hf
    subst hf
    refine .inl ⟨by simp [hlook], trivial, fun g hg => ?_⟩
    rw [dirtyEvicted_put hi (by exact (CacheEntry.line?_eq_some.mp hslot).2)] at hg
    obtain ⟨_, hg, hne⟩ := hg
    rw [hslot, Option.some_inj] at hg
    subst hg
    exact hne rfl
  · have hlt := (findVictim_spec hways set).1
    rw [hset] at hv
    subst hv
    have hvictim : e = c.victim set := he
    subst hvictim
    refine .inr ⟨hlook, rfl, fun g => ?_⟩
    rw [dirtyEvicted_put hlt rfl]
    constructor
    · rintro ⟨hdirty, hslot, _⟩
      obtain ⟨hg, hvalid⟩ := CacheEntry.line?_eq_some.mp hslot
      exact ⟨hg.symm, hvalid, hdirty⟩
    · rintro ⟨rfl, hvalid, hdirty⟩
      have hslot : c.slot set (c.findVictim set) = some (c.victim set) :=
        CacheEntry.line?_eq_some.mpr ⟨rfl, hvalid⟩
      have hmem : c.victim set ∈ c.lines set := mem_held.mpr ⟨_, List.mem_range.mpr hlt, hslot⟩
      exact ⟨hdirty, hslot, (lookup_none hlook _ hmem).symm⟩

end LRUCache

namespace ChannelState
variable {cfg : Config} {cs : ChannelState} {cmd : Command}

/-- The set of a command in the row-count cache. -/
def rccSet (cfg : Config) (cs : ChannelState) (cmd : Command) : ℕ :=
  cs.rcc.getIndex (cfg.removeColBits cmd.hexAddr)

/-- The lookup before an activation tells hit, clean miss and dirty eviction apart; a miss asks
for the metadata of the row, unless they wait to be written back, and a dirty eviction for the
writeback of those of the victim. -/
structure Reported (cfg : Config) (cs : ChannelState) (cmd : Command) : Prop where
  hit : ((cs.bankStates cmd.bankId).hydraCheckRcc cfg cmd cs.rcc).1 = 0 ↔
    cs.rcc.Present (cs.rccSet cfg cmd) (cfg.resetColBits cmd.hexAddr)
  miss : ((cs.bankStates cmd.bankId).hydraCheckRcc cfg cmd cs.rcc).1 = noAddr ↔
    ¬cs.rcc.Present (cs.rccSet cfg cmd) (cfg.resetColBits cmd.hexAddr) ∧
      ∀ e, ¬cs.rcc.DirtyEvicted (cs.hydraCheck cfg cmd).2.rcc (cs.rccSet cfg cmd) e
  dirty : ∀ e, cs.rcc.DirtyEvicted (cs.hydraCheck cfg cmd).2.rcc (cs.rccSet cfg cmd) e →
    ((cs.bankStates cmd.bankId).hydraCheckRcc cfg cmd cs.rcc).1 = e.addr
  read : ¬cs.rcc.Present (cs.rccSet cfg cmd) (cfg.resetColBits cmd.hexAddr) →
    ((cs.hydraCheck cfg cmd).2.hydraRdQ ++ (cs.hydraCheck cfg cmd).2.hydraWbQ).any
      (sameRow cmd.bankId cmd.row)
  writeback : ∀ e, cs.rcc.DirtyEvicted (cs.hydraCheck cfg cmd).2.rcc (cs.rccSet cfg cmd) e →
    (cs.hydraCheck cfg cmd).2.hydraWbQ.any
      (sameRow (cfg.addressMapping e.addr).bankId (cfg.addressMapping e.addr).row)

theorem hydraRead_any (cs : ChannelState) (i : BankId) (row : ℤ) :
    ((cs.hydraRead i row).2.hydraRdQ ++ (cs.hydraRead i row).2.hydraWbQ).any (sameRow i row) := by
  unfold hydraRead
  split_ifs with hwb hrd
  · simp [hwb]
  · simp [hrd]
  · simp [metadata, sameRow, Command.bankId, Address.bankId, Command.row]

theorem hydraWB_any (i : BankId) (row : ℤ) : (cs.hydraWB i row).hydraWbQ.any (sameRow i row) := by
  unfold hydraWB
  split_ifs with hwb
  · exact hwb
  · simp [metadata, sameRow, Command.bankId, Address.bankId, Command.row]

/-- The lookup of a row whose group is no longer counted as one. -/
theorem hydraCheckRcc_eq (hmode : cfg.hydraMode = 1)
    (hgroup : (cs.bankStates cmd.bankId).hydraGctValid (u32 cmd.row % cfg.hydraGctSize) = false) :
    (cs.bankStates cmd.bankId).hydraCheckRcc cfg cmd cs.rcc =
      cs.rcc.read (cfg.resetColBits cmd.hexAddr) (cfg.removeColBits cmd.hexAddr) := by
  simp [BankState.hydraCheckRcc, hmode, hgroup]

@[simp] theorem hydraRead_rcc (i : BankId) (row : ℤ) : (cs.hydraRead i row).2.rcc = cs.rcc := by
  obtain ⟨_, h⟩ := cs.hydraRead_eq i row
  rw [h]

@[simp] theorem hydraWB_rcc (i : BankId) (row : ℤ) : (cs.hydraWB i row).rcc = cs.rcc := by
  obtain ⟨_, h⟩ := cs.hydraWB_eq i row
  rw [h]

theorem hydraCheck_rcc (hmode : cfg.hydraMode = 1) (cs : ChannelState) (cmd : Command) :
    (cs.hydraCheck cfg cmd).2.rcc = ((cs.bankStates cmd.bankId).hydraCheckRcc cfg cmd cs.rcc).2 := by
  simp only [hydraCheck, hmode, ne_eq, not_true_eq_false, if_false]
  split_ifs
  · rw [hydraRead_rcc]
  · rfl
  · rw [hydraWB_rcc, hydraRead_rcc, hydraRead_rcc]

/-- A clean miss asks for the metadata of the row. -/
theorem hydraCheck_of_miss (hmode : cfg.hydraMode = 1)
    (hcode : ((cs.bankStates cmd.bankId).hydraCheckRcc cfg cmd cs.rcc).1 = noAddr) :
    ((cs.hydraCheck cfg cmd).2.hydraRdQ ++ (cs.hydraCheck cfg cmd).2.hydraWbQ).any
      (sameRow cmd.bankId cmd.row) := by
  simp only [hydraCheck, hmode, ne_eq, not_true_eq_false, if_false, hcode, if_true]
  exact hydraRead_any _ _ _

/-- A dirty eviction asks for the metadata of the row and writes back those of the victim. -/
theorem hydraCheck_of_dirty (hmode : cfg.hydraMode = 1) {a : HexAddr} (hzero : a ≠ 0)
    (hminus : a ≠ noAddr)
    (hcode : ((cs.bankStates cmd.bankId).hydraCheckRcc cfg cmd cs.rcc).1 = a) :
    ((cs.hydraCheck cfg cmd).2.hydraRdQ ++ (cs.hydraCheck cfg cmd).2.hydraWbQ).any
        (sameRow cmd.bankId cmd.row) ∧
      (cs.hydraCheck cfg cmd).2.hydraWbQ.any
        (sameRow (cfg.addressMapping a).bankId (cfg.addressMapping a).row) := by
  simp only [hydraCheck, hmode, ne_eq, not_true_eq_false, if_false, hcode, hzero, hminus,
    not_false_eq_true, if_true]
  refine ⟨?_, hydraWB_any _ _⟩
  have hfirst := hydraRead_any { cs with
    rcc := ((cs.bankStates cmd.bankId).hydraCheckRcc cfg cmd cs.rcc).2 } cmd.bankId cmd.row
  generalize hydraRead _ cmd.bankId cmd.row = r at hfirst ⊢
  obtain ⟨first, cs₁⟩ := r
  -- neither the second read nor the writeback takes anything out
  have hkeeps : cs₁.hydraRdQ ++ cs₁.hydraWbQ ⊆
      ((cs₁.hydraRead (cfg.addressMapping a).bankId (cfg.addressMapping a).row).2.hydraWB
        (cfg.addressMapping a).bankId (cfg.addressMapping a).row).hydraRdQ ++
      ((cs₁.hydraRead (cfg.addressMapping a).bankId (cfg.addressMapping a).row).2.hydraWB
        (cfg.addressMapping a).bankId (cfg.addressMapping a).row).hydraWbQ := by
    unfold hydraWB hydraRead
    split_ifs <;> intro x hx <;> simp only [List.mem_append] at hx ⊢ <;> tauto
  rw [List.any_eq_true] at hfirst ⊢
  obtain ⟨x, hx, hsame⟩ := hfirst
  exact ⟨x, hkeeps hx, hsame⟩

end ChannelState

open ChannelState

/-- The outcome of the lookup is reported faithfully unless it evicts a dirty line whose address is
one of the two codes. -/
theorem rcc_outcome_reported_iff (cfg : Config) (hmode : cfg.hydraMode = 1) (cs : ChannelState)
    (hways : 0 < cs.rcc.ways) (cmd : Command)
    (hgroup : (cs.bankStates cmd.bankId).hydraGctValid (u32 cmd.row % cfg.hydraGctSize) = false) :
    cs.Reported cfg cmd ↔
      ¬cs.rcc.Masked (cs.rccSet cfg cmd) (cfg.resetColBits cmd.hexAddr) := by
  have hcheck := hydraCheckRcc_eq hmode hgroup
  have hrcc := hydraCheck_rcc hmode cs cmd
  rw [hcheck] at hrcc
  have hnoAddr : noAddr ≠ 0 := by decide
  have hset : cs.rcc.getIndex (cfg.removeColBits cmd.hexAddr) = cs.rccSet cfg cmd := rfl
  have hspec := LRUCache.read_spec hways (cfg.resetColBits cmd.hexAddr) hset
  rw [← hrcc, ← hcheck] at hspec
  obtain ⟨hlook, hcode, hnone⟩ | ⟨hlook, hcode, hevicted⟩ := hspec
  · -- a hit
    have hpresent := LRUCache.present_iff.mpr hlook
    refine iff_of_true ⟨?_, ?_, fun e he => absurd he (hnone e), fun h => absurd hpresent h,
      fun e he => absurd he (hnone e)⟩ fun hmask => hlook hmask.1
    · exact ⟨fun _ => hpresent, fun _ => hcode⟩
    · rw [hcode]
      exact ⟨fun h => absurd h.symm hnoAddr, fun h => absurd hpresent h.1⟩
  have habsent : ¬cs.rcc.Present (cs.rccSet cfg cmd) (cfg.resetColBits cmd.hexAddr) :=
    fun h => LRUCache.present_iff.mp h hlook
  by_cases hdirty : (cs.rcc.victim (cs.rccSet cfg cmd)).valid ∧
      (cs.rcc.victim (cs.rccSet cfg cmd)).dirty
  · -- a dirty line is evicted
    have hgone := (hevicted _).mpr ⟨rfl, hdirty⟩
    rw [hdirty.1, hdirty.2, Bool.and_self, if_pos rfl] at hcode
    have hmask : cs.rcc.Masked (cs.rccSet cfg cmd) (cfg.resetColBits cmd.hexAddr) ↔
        (cs.rcc.victim (cs.rccSet cfg cmd)).addr = 0 ∨
          (cs.rcc.victim (cs.rccSet cfg cmd)).addr = noAddr :=
      ⟨fun h => h.2.2.2, fun h => ⟨hlook, hdirty.1, hdirty.2, h⟩⟩
    rw [hmask, not_or]
    constructor
    · intro hrep
      refine ⟨fun hzero => habsent (hrep.hit.mp (hcode.trans hzero)), fun hminus => ?_⟩
      exact (hrep.miss.mp (hcode.trans hminus)).2 _ hgone
    · rintro ⟨hzero, hminus⟩
      obtain ⟨hread, hwriteback⟩ := hydraCheck_of_dirty hmode hzero hminus hcode
      refine ⟨?_, ?_, fun e he => ?_, fun _ => hread, fun e he => ?_⟩
      · exact ⟨fun h => absurd (hcode.symm.trans h) hzero, fun h => absurd h habsent⟩
      · exact ⟨fun h => absurd (hcode.symm.trans h) hminus, fun h => absurd hgone (h.2 _)⟩
      · rw [((hevicted e).mp he).1]
        exact hcode
      · rw [((hevicted e).mp he).1]
        exact hwriteback
  · -- nothing dirty leaves
    have hnone (e : CacheEntry) : ¬cs.rcc.DirtyEvicted (cs.hydraCheck cfg cmd).2.rcc
        (cs.rccSet cfg cmd) e := by
      intro he
      obtain ⟨rfl, hvalid⟩ := (hevicted e).mp he
      exact hdirty hvalid
    rw [if_neg (by simpa using hdirty)] at hcode
    refine iff_of_true ⟨?_, ?_, fun e he => absurd he (hnone e),
      fun _ => hydraCheck_of_miss hmode hcode, fun e he => absurd he (hnone e)⟩ fun hmask =>
        hdirty ⟨hmask.2.1, hmask.2.2.1⟩
    · rw [hcode]
      exact ⟨fun h => absurd h hnoAddr, fun h => absurd h habsent⟩
    · exact ⟨fun _ => ⟨habsent, hnone⟩, fun _ => hcode⟩

/-- Hydra with one group, which its first activation invalidates, and a cache of one line. -/
def rccConfig : Config := { smallConfig with hydraMode := 1, rowBufPolicy := .closePage }

/-- Three activations of one row: the last one leaves a dirty line of its count. -/
def rccInputs (addr : HexAddr) : List Input :=
  Input.request addr false 5 ++ Input.request addr false 6 ++ Input.request addr false 5

/-- The read of another row of the same bank. -/
def rccRead : Command := ⟨.readPrecharge, rccConfig.addressMapping 4, 4⟩

theorem rcc_outcome_reported_iff_small : ∃ c,
    Controller.run rccConfig ({} : Boot rccConfig).controller (rccInputs 2) = .ok c ∧
      c.channelState.Reported rccConfig rccRead ∧
      ((c.channelState.bankStates rccRead.bankId).hydraCheckRcc rccConfig rccRead
        c.channelState.rcc).1 = 2 := by
  obtain ⟨c, hrun, hc⟩ := exists_ok_of_any
    (x := Controller.run rccConfig ({} : Boot rccConfig).controller (rccInputs 2))
    (p := fun c => 0 < c.channelState.rcc.ways ∧
      (c.channelState.bankStates rccRead.bankId).hydraGctValid 0 = false ∧
      ¬c.channelState.rcc.Masked (c.channelState.rccSet rccConfig rccRead)
        (rccConfig.resetColBits rccRead.hexAddr) ∧
      ((c.channelState.bankStates rccRead.bankId).hydraCheckRcc rccConfig rccRead
        c.channelState.rcc).1 = 2) (by decide +kernel)
  obtain ⟨hways, hgroup, hmask, hcode⟩ := of_decide_eq_true hc
  exact ⟨c, hrun, (rcc_outcome_reported_iff rccConfig rfl _ hways _ hgroup).mpr hmask, hcode⟩

/-- The dirty line of row 0 is evicted, and the result says that the other row was found. -/
theorem rcc_eviction_as_hit : ∃ c,
    Controller.run rccConfig ({} : Boot rccConfig).controller (rccInputs 0) = .ok c ∧
      (c.channelState.bankStates rccRead.bankId).hydraGctValid (u32 rccRead.row %
        rccConfig.hydraGctSize) = false ∧
      ((c.channelState.bankStates rccRead.bankId).hydraCheckRcc rccConfig rccRead
        c.channelState.rcc).1 = 0 ∧
      ¬c.channelState.rcc.Present (c.channelState.rccSet rccConfig rccRead)
        (rccConfig.resetColBits rccRead.hexAddr) ∧
      ¬c.channelState.Reported rccConfig rccRead := by
  obtain ⟨c, hrun, hc⟩ := exists_ok_of_any
    (x := Controller.run rccConfig ({} : Boot rccConfig).controller (rccInputs 0))
    (p := fun c => (c.channelState.bankStates rccRead.bankId).hydraGctValid 0 = false ∧
      ((c.channelState.bankStates rccRead.bankId).hydraCheckRcc rccConfig rccRead
        c.channelState.rcc).1 = 0 ∧
      ¬c.channelState.rcc.Present (c.channelState.rccSet rccConfig rccRead)
        (rccConfig.resetColBits rccRead.hexAddr)) (by decide +kernel)
  obtain ⟨hgroup, hcode, habsent⟩ := of_decide_eq_true hc
  exact ⟨c, hrun, hgroup, hcode, habsent, fun hrep => habsent (hrep.hit.mp hcode)⟩

end CactusDram

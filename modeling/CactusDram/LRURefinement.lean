import CactusDram.Foundations.Recency
import CactusDram.LRUCache

/-! The row-count cache against a reference cache that lists the tags of each set by their last
use. -/
namespace CactusDram
open Foundations

/-- What a lookup can find in a way. -/
def CacheEntry.line? (e : CacheEntry) : Option CacheEntry := if e.valid then some e else none

theorem CacheEntry.line?_eq_some {e f : CacheEntry} : e.line? = some f ↔ e = f ∧ f.valid := by
  unfold line?
  split_ifs with h
  · rw [Option.some_inj]
    exact ⟨fun he => ⟨he, he ▸ h⟩, fun he => he.1⟩
  · refine ⟨fun he => (nomatch he), ?_⟩
    rintro ⟨rfl, hv⟩
    exact absurd hv h

theorem CacheEntry.line?_eq_none {e : CacheEntry} : e.line? = none ↔ e.valid = false := by
  unfold line?
  split_ifs with h <;> simp [h]

namespace LRUCache
variable {c : LRUCache} {setOf : HexAddr → ℕ} {addr : HexAddr} {set i : ℕ}

/-- The ways of a set. -/
def slot (c : LRUCache) (set i : ℕ) : Option CacheEntry := (c.cache (set * c.ways + i)).line?

/-- The valid lines of a set. -/
def lines (c : LRUCache) (set : ℕ) : List CacheEntry := held (List.range c.ways) (c.slot set)

theorem lookup_some (h : c.lookup addr set = some i) :
    i < c.ways ∧ ∃ e, c.slot set i = some e ∧ e.addr = addr ∧ e = c.cache (set * c.ways + i) := by
  have hi := List.mem_of_find?_eq_some h
  have hp := List.find?_some h
  simp only [Bool.and_eq_true, decide_eq_true_eq] at hp
  exact ⟨List.mem_range.mp hi, _, CacheEntry.line?_eq_some.mpr ⟨rfl, hp.2⟩, hp.1, rfl⟩

theorem lookup_none (h : c.lookup addr set = none) : ∀ e ∈ c.lines set, e.addr ≠ addr := by
  intro e he haddr
  obtain ⟨i, hi, hslot⟩ := mem_held.mp he
  obtain ⟨rfl, hvalid⟩ := CacheEntry.line?_eq_some.mp hslot
  have hp := List.find?_eq_none.mp h i hi
  simp [haddr, hvalid] at hp

/-- The scan keeps a way of least access time. -/
theorem leastRecent_spec (c : LRUCache) (set : ℕ) (best : ℕ) (l : List ℕ) :
    c.leastRecent set best l ∈ best :: l ∧ ∀ j ∈ best :: l,
      (c.cache (set * c.ways + c.leastRecent set best l)).lastAccess ≤
        (c.cache (set * c.ways + j)).lastAccess := by
  induction l generalizing best with
  | nil => simp [leastRecent]
  | cons i l ih =>
    rw [leastRecent]
    split_ifs with hlt
    · obtain ⟨hmem, hle⟩ := ih i
      refine ⟨List.mem_cons_of_mem best hmem, fun j hj => ?_⟩
      rcases List.mem_cons.mp hj with rfl | hj
      · exact (hle i List.mem_cons_self).trans hlt.le
      · exact hle j hj
    · obtain ⟨hmem, hle⟩ := ih best
      refine ⟨?_, fun j hj => ?_⟩
      · rcases List.mem_cons.mp hmem with h | h
        · rw [h]
          exact List.mem_cons_self
        · exact List.mem_cons_of_mem best (List.mem_cons_of_mem i h)
      · rcases List.mem_cons.mp hj with rfl | hj
        · exact hle j List.mem_cons_self
        rcases List.mem_cons.mp hj with rfl | hj
        · exact (hle best List.mem_cons_self).trans (not_lt.mp hlt)
        · exact hle j (List.mem_cons_of_mem best hj)

/-- The victim is a free way, or the least recently used one of a full set. -/
theorem findVictim_spec (hways : 0 < c.ways) (set : ℕ) : c.findVictim set < c.ways ∧
    (c.slot set (c.findVictim set) = none ∨
      (∀ j < c.ways, (c.slot set j).isSome) ∧ ∀ j < c.ways,
        (c.cache (set * c.ways + c.findVictim set)).lastAccess ≤
          (c.cache (set * c.ways + j)).lastAccess) := by
  unfold findVictim
  split
  next i hfind =>
    refine ⟨List.mem_range.mp (List.mem_of_find?_eq_some hfind), .inl ?_⟩
    exact CacheEntry.line?_eq_none.mpr (by simpa using List.find?_some hfind)
  next hfind =>
    have hrange : List.range c.ways = 0 :: (List.range c.ways).drop 1 := by
      obtain ⟨n, hn⟩ : ∃ n, c.ways = n + 1 := ⟨c.ways - 1, by omega⟩
      rw [hn, List.range_succ_eq_map, List.drop_one, List.tail_cons]
    obtain ⟨hmem, hle⟩ := c.leastRecent_spec set 0 ((List.range c.ways).drop 1)
    rw [← hrange] at hmem hle
    refine ⟨List.mem_range.mp hmem, .inr ⟨fun j hj => ?_, fun j hj => hle j (List.mem_range.mpr hj)⟩⟩
    have hj := List.find?_eq_none.mp hfind j (List.mem_range.mpr hj)
    refine Option.isSome_iff_exists.mpr ⟨_, CacheEntry.line?_eq_some.mpr ⟨rfl, ?_⟩⟩
    simpa using hj

/-- A `read` or `write` of a tag. -/
structure Call where
  isWrite : Bool
  addr : HexAddr
  deriving DecidableEq, Repr

/-- One call; `setOf` gives the set argument that goes with a tag. -/
def call (c : LRUCache) (setOf : HexAddr → ℕ) (x : Call) : HexAddr × LRUCache :=
  if x.isWrite then c.write x.addr (setOf x.addr) else c.read x.addr (setOf x.addr)

/-- The cache after the calls of a history, which is newest first. -/
def after (sets ways : ℕ) (setOf : HexAddr → ℕ) : List Call → LRUCache
  | [] => updateSize sets ways
  | x :: h => ((after sets ways setOf h).call setOf x).2

/-- Put a line into a way and count the access. -/
def put (c : LRUCache) (set i : ℕ) (e : CacheEntry) : LRUCache :=
  { c with
    cache := Function.update c.cache (set * c.ways + i) e
    accessCount := c.accessCount + 1 }

/-- A call renews the line it finds or puts a new one in the place of the victim. -/
theorem call_eq (c : LRUCache) (setOf : HexAddr → ℕ) (x : Call) :
    (∃ i e, c.lookup x.addr (c.getIndex (setOf x.addr)) = some i ∧
      e = c.cache (c.getIndex (setOf x.addr) * c.ways + i) ∧
      c.call setOf x = (0, c.put (c.getIndex (setOf x.addr)) i
        { e with lastAccess := c.accessCount, dirty := e.dirty || x.isWrite })) ∨
    c.lookup x.addr (c.getIndex (setOf x.addr)) = none ∧
      ∃ v e, v = c.findVictim (c.getIndex (setOf x.addr)) ∧
      e = c.cache (c.getIndex (setOf x.addr) * c.ways + v) ∧
      c.call setOf x = (if e.valid && e.dirty then e.addr else noAddr,
        c.put (c.getIndex (setOf x.addr)) v ⟨x.addr, c.accessCount, true, x.isWrite⟩) := by
  obtain ⟨isWrite, addr⟩ := x
  unfold call read write
  cases h : c.lookup addr (c.getIndex (setOf addr)) with
  | some i =>
    refine .inl ⟨i, _, rfl, rfl, ?_⟩
    cases isWrite <;> simp [h, put]
  | none =>
    refine .inr ⟨rfl, _, _, rfl, rfl, ?_⟩
    cases isWrite <;> simp [h, put, fill]

theorem put_slot (hi : i < c.ways) {e : CacheEntry} (he : e.valid) {set' j : ℕ} (hj : j < c.ways) :
    (c.put set i e).slot set' j =
      if set' = set then Function.update (c.slot set) i (some e) j else c.slot set' j := by
  have hindex : set' * c.ways + j = set * c.ways + i ↔ set' = set ∧ j = i := by
    constructor
    · intro h
      have hset : set' = set := by
        have := congrArg (· / c.ways) h
        simpa [Nat.mul_comm _ c.ways, Nat.mul_add_div (Nat.zero_lt_of_lt hi),
          Nat.div_eq_of_lt hi, Nat.div_eq_of_lt hj] using this
      subst hset
      exact ⟨rfl, by omega⟩
    · rintro ⟨rfl, rfl⟩
      rfl
  unfold slot put
  dsimp only
  by_cases hset : set' = set
  · subst hset
    rw [if_pos rfl]
    by_cases hji : j = i
    · subst hji
      rw [Function.update_self, Function.update_self]
      exact CacheEntry.line?_eq_some.mpr ⟨rfl, he⟩
    · rw [Function.update_of_ne hji, Function.update_of_ne (by omega)]
  · rw [if_neg hset, Function.update_of_ne fun h => hset (hindex.mp h).1]

theorem put_lines (hi : i < c.ways) {e : CacheEntry} (he : e.valid) (set' : ℕ) :
    (c.put set i e).lines set' = if set' = set then
      held (List.range c.ways) (Function.update (c.slot set) i (some e)) else c.lines set' := by
  have hslot : (c.put set i e).lines set' = held (List.range c.ways) fun j =>
      if set' = set then Function.update (c.slot set) i (some e) j else c.slot set' j :=
    held_congr fun j hj => put_slot hi he (List.mem_range.mp hj)
  rw [hslot]
  split_ifs <;> rfl

/-- The tags used in a set, newest first. -/
def uses (sets : ℕ) (setOf : HexAddr → ℕ) (set : ℕ) (h : List Call) : List HexAddr :=
  (h.map (·.addr)).filter fun a => setOf a % sets = set

/-- What the reference holds in a set: its most recently used tags, latest first. -/
def kept (sets ways : ℕ) (setOf : HexAddr → ℕ) (set : ℕ) (h : List Call) : List HexAddr :=
  (recent (uses sets setOf set h)).take ways

/-- The tag has been written since it was last brought in: some write of it is followed only by
calls that find it. -/
def WrittenSince (sets ways : ℕ) (setOf : HexAddr → ℕ) (h : List Call) (a : HexAddr) : Prop :=
  ∃ newer older, h = newer ++ ⟨true, a⟩ :: older ∧ ∀ newer' w older', newer = newer' ++ ⟨w, a⟩ :: older' →
    a ∈ kept sets ways setOf (setOf a % sets) (older' ++ ⟨true, a⟩ :: older)

variable {sets ways : ℕ} {h : List Call} {x : Call} {a : HexAddr}

theorem kept_cons (set : ℕ) : kept sets ways setOf set (x :: h) =
    if setOf x.addr % sets = set then touch ways x.addr (kept sets ways setOf set h)
    else kept sets ways setOf set h := by
  unfold kept uses
  rw [List.map_cons]
  split_ifs with hset
  · rw [List.filter_cons_of_pos (by simpa using hset), take_recent_cons]
  · rw [List.filter_cons_of_neg (by simpa using hset)]

theorem writtenSince_cons_of_ne (hne : x.addr ≠ a) :
    WrittenSince sets ways setOf (x :: h) a ↔ WrittenSince sets ways setOf h a := by
  constructor
  · rintro ⟨newer, older, heq, hlater⟩
    cases newer with
    | nil =>
      obtain ⟨rfl, _⟩ := List.cons.inj heq
      exact absurd rfl hne
    | cons y newer =>
      obtain ⟨rfl, rfl⟩ := List.cons.inj heq
      exact ⟨newer, older, rfl, fun newer' w older' hsplit =>
        hlater (_ :: newer') w older' (by rw [hsplit]; rfl)⟩
  · rintro ⟨newer, older, rfl, hlater⟩
    refine ⟨x :: newer, older, rfl, fun newer' w older' hsplit => ?_⟩
    cases newer' with
    | nil =>
      obtain ⟨rfl, _⟩ := List.cons.inj hsplit
      exact absurd rfl hne
    | cons y newer' => exact hlater newer' w older' (List.cons.inj hsplit).2

theorem writtenSince_cons_self : WrittenSince sets ways setOf (x :: h) x.addr ↔ x.isWrite ∨
    x.addr ∈ kept sets ways setOf (setOf x.addr % sets) h ∧
      WrittenSince sets ways setOf h x.addr := by
  constructor
  · rintro ⟨newer, older, heq, hlater⟩
    cases newer with
    | nil =>
      obtain ⟨hx, _⟩ := List.cons.inj heq
      exact .inl (by rw [hx])
    | cons y newer =>
      obtain ⟨rfl, rfl⟩ := List.cons.inj heq
      exact .inr ⟨hlater [] _ newer rfl, newer, older, rfl, fun newer' w older' hsplit =>
        hlater (_ :: newer') w older' (by rw [hsplit]; rfl)⟩
  · rintro (hwrite | ⟨hfound, newer, older, rfl, hlater⟩)
    · refine ⟨[], h, by rw [← hwrite]; rfl, fun newer' w older' hsplit => ?_⟩
      exact absurd hsplit (by simp)
    · refine ⟨x :: newer, older, rfl, fun newer' w older' hsplit => ?_⟩
      cases newer' with
      | nil =>
        obtain ⟨_, rfl⟩ := List.cons.inj hsplit
        exact hfound
      | cons y newer' => exact hlater newer' w older' (List.cons.inj hsplit).2

/-- The cache agrees with the reference in every set, and the clock is ahead of every line. -/
structure Follows (sets ways : ℕ) (setOf : HexAddr → ℕ) (h : List Call) (c : LRUCache) : Prop where
  sets_eq : c.sets = sets
  ways_eq : c.ways = ways
  clock : ∀ set, ∀ e ∈ c.lines set, e.lastAccess < c.accessCount
  ranked : ∀ set, Ranked CacheEntry.addr CacheEntry.lastAccess (c.lines set)
    (kept sets ways setOf set h)
  dirty : ∀ set, ∀ e ∈ c.lines set, e.dirty ↔ WrittenSince sets ways setOf h e.addr

theorem follows_updateSize : Follows sets ways setOf [] (updateSize sets ways) := by
  have hlines (set : ℕ) : (updateSize sets ways).lines set = [] := by
    simp [lines, held, slot, updateSize, CacheEntry.line?]
  refine ⟨rfl, rfl, fun set e he => ?_, fun set => ?_, fun set e he => ?_⟩
  · rw [hlines] at he
    cases he
  · rw [hlines, kept, uses, List.map_nil, List.filter_nil, recent, List.take_nil]
    exact .nil
  · rw [hlines] at he
    cases he

/-- Putting a line of the tag in use keeps the agreement, if the order of its set is right. -/
theorem Follows.put (hf : Follows sets ways setOf h c) (hi : i < c.ways) {e : CacheEntry}
    (hvalid : e.valid) (haddr : e.addr = x.addr) (htime : e.lastAccess = c.accessCount)
    (hrank : Ranked CacheEntry.addr CacheEntry.lastAccess
      (held (List.range c.ways) (Function.update (c.slot (setOf x.addr % sets)) i (some e)))
      (touch ways x.addr (kept sets ways setOf (setOf x.addr % sets) h)))
    (hdirty : e.dirty ↔ WrittenSince sets ways setOf (x :: h) x.addr) :
    Follows sets ways setOf (x :: h) (c.put (setOf x.addr % sets) i e) := by
  have hnew : e ∈ held (List.range c.ways)
      (Function.update (c.slot (setOf x.addr % sets)) i (some e)) :=
    mem_held.mpr ⟨i, List.mem_range.mpr hi, Function.update_self _ _ _⟩
  -- a line of the set is the new one or an old one
  have hmem {g : CacheEntry} (hg : g ∈ held (List.range c.ways)
      (Function.update (c.slot (setOf x.addr % sets)) i (some e))) :
      g = e ∨ g ∈ c.lines (setOf x.addr % sets) := by
    obtain ⟨j, hj, hslot⟩ := mem_held.mp hg
    by_cases hji : j = i
    · subst hji
      rw [Function.update_self, Option.some_inj] at hslot
      exact .inl hslot.symm
    · rw [Function.update_of_ne hji] at hslot
      exact .inr (mem_held.mpr ⟨j, hj, hslot⟩)
  refine ⟨hf.sets_eq, hf.ways_eq, fun set g hg => ?_, fun set => ?_, fun set g hg => ?_⟩
  · rw [put_lines hi hvalid] at hg
    refine Nat.lt_succ_of_le ?_
    split_ifs at hg with hset
    · rcases hmem hg with rfl | hold
      · exact htime.le
      · exact (hf.clock _ g hold).le
    · exact (hf.clock set g hg).le
  · rw [put_lines hi hvalid, kept_cons]
    by_cases hset : set = setOf x.addr % sets
    · subst hset
      rw [if_pos rfl, if_pos rfl]
      exact hrank
    · rw [if_neg hset, if_neg fun h => hset h.symm]
      exact hf.ranked set
  · rw [put_lines hi hvalid] at hg
    by_cases hset : set = setOf x.addr % sets
    · subst hset
      rw [if_pos rfl] at hg
      by_cases hga : g.addr = x.addr
      · obtain rfl := hrank.eq_of_key_eq hg hnew (hga.trans haddr.symm)
        rw [hga]
        exact hdirty
      · have hold := (hmem hg).resolve_left fun hge => hga (hge ▸ haddr)
        rw [writtenSince_cons_of_ne fun heq => hga heq.symm]
        exact hf.dirty _ g hold
    · rw [if_neg hset] at hg
      have hne : x.addr ≠ g.addr := by
        intro heq
        have hin := (hf.ranked set).mem_iff.mpr ⟨g, hg, rfl⟩
        have huse := mem_recent.mp (List.mem_of_mem_take hin)
        rw [uses, List.mem_filter, ← heq] at huse
        exact hset (by simpa using huse.2 : setOf x.addr % sets = set).symm
      rw [writtenSince_cons_of_ne hne]
      exact hf.dirty set g hg

/-- Every call keeps the agreement. -/
theorem Follows.call (hf : Follows sets ways setOf h c) (hways : 0 < ways) (x : Call) :
    Follows sets ways setOf (x :: h) (c.call setOf x).2 := by
  have hindex : c.getIndex (setOf x.addr) = setOf x.addr % sets := by
    rw [getIndex, hf.sets_eq]
  have hrank := hf.ranked (setOf x.addr % sets)
  have hlen : (List.range c.ways).length = ways := by rw [List.length_range, hf.ways_eq]
  rcases c.call_eq setOf x with ⟨i, e, hlook, he, hcall⟩ | ⟨hlook, v, e, hv, he, hcall⟩ <;>
    rw [hindex] at hlook he hcall <;> rw [hcall]
  · -- the line found is renewed
    obtain ⟨hi, f, hslot, haddr, rfl⟩ := lookup_some hlook
    rw [← he] at hslot haddr
    have hvalid := (CacheEntry.line?_eq_some.mp hslot).2
    have hmem : e ∈ c.lines (setOf x.addr % sets) :=
      mem_held.mpr ⟨i, List.mem_range.mpr hi, hslot⟩
    have hkept : x.addr ∈ kept sets ways setOf (setOf x.addr % sets) h :=
      hrank.mem_iff.mpr ⟨e, hmem, haddr⟩
    obtain ⟨rest, hold, hnew⟩ := held_update List.nodup_range (List.mem_range.mpr hi)
      (c.slot (setOf x.addr % sets))
      { e with lastAccess := c.accessCount, dirty := e.dirty || x.isWrite }
    rw [hslot] at hold
    refine hf.put hi hvalid haddr rfl ?_ ?_
    · rw [hrank.touch_of_renew ((length_held_le _ _).trans_eq hlen) hkept]
      simpa only [haddr] using hrank.renew hold hnew rfl (hf.clock _)
    · rw [writtenSince_cons_self, ← haddr, ← hf.dirty _ e hmem, Bool.or_eq_true, haddr]
      tauto
  · -- a new line takes the place of the victim
    have hfresh : x.addr ∉ kept sets ways setOf (setOf x.addr % sets) h := by
      intro hin
      obtain ⟨g, hg, haddr⟩ := hrank.mem_iff.mp hin
      exact lookup_none hlook g hg haddr
    obtain ⟨hlt, hvictim⟩ := findVictim_spec (hf.ways_eq ▸ hways) (setOf x.addr % sets)
    rw [hindex] at hv
    subst hv
    obtain ⟨rest, hold, hnew⟩ := held_update List.nodup_range (List.mem_range.mpr hlt)
      (c.slot (setOf x.addr % sets)) ⟨x.addr, c.accessCount, true, x.isWrite⟩
    refine hf.put hlt rfl rfl rfl ?_ ?_
    · rcases hvictim with hempty | ⟨hfull, holdest⟩
      · rw [hempty] at hold
        have hshort := length_held_lt (List.mem_range.mpr hlt) hempty
        rw [hrank.touch_of_add (hshort.trans_eq hlen) hfresh]
        exact hrank.add (hnew.trans (hold.symm.cons _)) hfresh (hf.clock _)
      · obtain ⟨f, hslot⟩ := Option.isSome_iff_exists.mp (hfull _ hlt)
        rw [hslot] at hold
        have hwhole := length_held_of_full fun j hj => hfull j (List.mem_range.mp hj)
        rw [hrank.touch_of_replace (hwhole.trans hlen) hways hfresh]
        refine hrank.replace hold hnew (fun g hg => ?_) hfresh (hf.clock _)
        obtain ⟨j, hj, hg⟩ := mem_held.mp hg
        obtain ⟨rfl, _⟩ := CacheEntry.line?_eq_some.mp hg
        obtain ⟨rfl, _⟩ := CacheEntry.line?_eq_some.mp hslot
        exact holdest j (List.mem_range.mp hj)
    · rw [writtenSince_cons_self]
      simp [hfresh]

theorem follows_after (hways : 0 < ways) (setOf : HexAddr → ℕ) (h : List Call) :
    Follows sets ways setOf h (after sets ways setOf h) := by
  induction h with
  | nil => exact follows_updateSize
  | cons x h ih => exact ih.call hways x

/-- A line that a call evicts was the least recently used one of a full set, and its address is
the result when it was dirty. -/
theorem Follows.evicted (hf : Follows sets ways setOf h c) (hways : 0 < ways) {e : CacheEntry}
    (he : e ∈ c.lines set) (hgone : e.addr ∉ ((c.call setOf x).2.lines set).map CacheEntry.addr) :
    (∀ i < ways, (c.slot set i).isSome) ∧
      (∃ newer, kept sets ways setOf set h = newer ++ [e.addr]) ∧
      (e.dirty → (c.call setOf x).1 = e.addr) := by
  have hnew := (hf.call hways x).ranked set
  rw [hnew.perm.mem_iff, kept_cons] at hgone
  have hrank := hf.ranked set
  have hin : e.addr ∈ kept sets ways setOf set h := hrank.mem_iff.mpr ⟨e, he, rfl⟩
  have hset : setOf x.addr % sets = set := by
    by_contra hset
    rw [if_neg hset] at hgone
    exact hgone hin
  rw [if_pos hset] at hgone
  have hindex : c.getIndex (setOf x.addr) = set := by rw [getIndex, hf.sets_eq, hset]
  have hlen : (List.range c.ways).length = ways := by rw [List.length_range, hf.ways_eq]
  rcases c.call_eq setOf x with ⟨i, f, hlook, _, _⟩ | ⟨hlook, v, f, hv, hf', hcall⟩
  · -- a hit keeps every line
    rw [hindex] at hlook
    obtain ⟨hi, f, hslot, haddr, _⟩ := lookup_some hlook
    have hkept : x.addr ∈ kept sets ways setOf set h :=
      hrank.mem_iff.mpr ⟨f, mem_held.mpr ⟨i, List.mem_range.mpr hi, hslot⟩, haddr⟩
    rw [hrank.touch_of_renew ((length_held_le _ _).trans_eq hlen) hkept, List.mem_cons,
      hrank.nodup.mem_erase_iff] at hgone
    tauto
  · rw [hindex] at hlook hv hf' hcall
    have hfresh : x.addr ∉ kept sets ways setOf set h := by
      intro hin
      obtain ⟨g, hg, haddr⟩ := hrank.mem_iff.mp hin
      exact lookup_none hlook g hg haddr
    obtain ⟨hlt, hempty | ⟨hfull, holdest⟩⟩ := findVictim_spec (hf.ways_eq ▸ hways) set
    · have hshort := length_held_lt (List.mem_range.mpr hlt) hempty
      rw [hrank.touch_of_add (hshort.trans_eq hlen) hfresh] at hgone
      exact absurd (List.mem_cons_of_mem _ hin) hgone
    · subst hv
      obtain ⟨g, hslot⟩ := Option.isSome_iff_exists.mp (hfull _ hlt)
      obtain ⟨hg, hvalid⟩ := CacheEntry.line?_eq_some.mp hslot
      rw [← hf'] at hg
      subst hg
      have hmem : f ∈ c.lines set := mem_held.mpr ⟨_, List.mem_range.mpr hlt, hslot⟩
      have hleast (g : CacheEntry) (hg : g ∈ c.lines set) : f.lastAccess ≤ g.lastAccess := by
        obtain ⟨j, hj, hg⟩ := mem_held.mp hg
        obtain ⟨rfl, _⟩ := CacheEntry.line?_eq_some.mp hg
        rw [hf']
        exact holdest j (List.mem_range.mp hj)
      obtain ⟨pre, _, _, horder⟩ := hrank.eq_append_of_oldest (List.perm_cons_erase hmem) hleast
      have hwhole := length_held_of_full fun j hj => hfull j (List.mem_range.mp hj)
      rw [hrank.touch_of_replace (hwhole.trans hlen) hways hfresh, horder, List.dropLast_concat,
        List.mem_cons, not_or] at hgone
      have heq : e = f := by
        refine hrank.eq_of_key_eq he hmem ?_
        rw [horder, List.mem_append, List.mem_singleton] at hin
        exact hin.resolve_left hgone.2
      subst heq
      refine ⟨fun i hi => hfull i (hf.ways_eq ▸ hi), ⟨_, horder⟩, fun hdirty => ?_⟩
      rw [hcall]
      simp [hvalid, hdirty]

end LRUCache

open LRUCache

/-- After every history of calls each set holds its most recently used tags, each once; a line is
dirty when it has been written since it was brought in; and only the least recently used line of a
full set is evicted, with its address as the result when it was dirty. -/
theorem lru_cache_refines (sets ways : ℕ) (hways : 0 < ways) (setOf : HexAddr → ℕ)
    (h : List Call) : let c := after sets ways setOf h
    (∀ set, ((c.lines set).map CacheEntry.addr).Perm (kept sets ways setOf set h) ∧
      ((c.lines set).map CacheEntry.addr).Nodup ∧
      (c.lines set).length = min ways (uses sets setOf set h).toFinset.card) ∧
    (∀ set, ∀ e ∈ c.lines set, e.dirty ↔ WrittenSince sets ways setOf h e.addr) ∧
    ∀ x set, ∀ e ∈ c.lines set, e.addr ∉ ((c.call setOf x).2.lines set).map CacheEntry.addr →
      (∀ i < ways, (c.slot set i).isSome) ∧
      (∃ newer, kept sets ways setOf set h = newer ++ [e.addr]) ∧
      (e.dirty → (c.call setOf x).1 = e.addr) := by
  intro c
  have hf : Follows sets ways setOf h c := follows_after hways setOf h
  refine ⟨fun set => ⟨(hf.ranked set).perm, ?_, ?_⟩, hf.dirty, fun x set e he => hf.evicted hways he⟩
  · exact (hf.ranked set).perm.nodup_iff.mpr (hf.ranked set).nodup
  · rw [← (hf.ranked set).length_eq, kept, List.length_take, length_recent]

/-- A full set of two ways: a write of tag 1, then a read of tag 2. -/
def smallHistory : List Call := [⟨false, 2⟩, ⟨true, 1⟩]

theorem lru_cache_refines_small :
    let c := after 1 2 BitVec.toNat smallHistory
    (c.lines 0).map CacheEntry.addr = [1, 2] ∧
      (c.call BitVec.toNat ⟨false, 3⟩).1 = 1 ∧ c.lines 0 ≠ (c.call BitVec.toNat ⟨false, 3⟩).2.lines 0 := by
  obtain ⟨_, _, hevict⟩ := lru_cache_refines 1 2 (by decide) BitVec.toNat smallHistory
  obtain ⟨_, _, hresult⟩ := hevict ⟨false, 3⟩ 0 ⟨1, 0, true, true⟩ (by decide) (by decide)
  exact ⟨by decide, hresult rfl, by decide⟩

end CactusDram

import CactusDram.Foundations.Recency
import CactusDram.Memsim.CacheSpec

/-! The last-level cache against a reference over whole runs: which lines it holds, which of them
are dirty and, under LRU, in which order they leave. -/
namespace CactusDram.Memsim
open Foundations

/-- The uses a core makes of the cache. -/
inductive CacheOp
  | access (addr : ℕ)
  | markDirty (addr : ℕ)

/-- The history of a cache, written by the model and read by no function of it. An installation
comes with the valid line that it evicted. -/
inductive CacheEvent
  | hit (addr : ℕ)
  | install (addr : ℕ) (evicted : Option ℕ)
  | mark (addr : ℕ)
  deriving DecidableEq

structure CacheRun where
  cache : MCache
  rand : Stream' ℕ
  log : List CacheEvent

def MCache.evicted (c : MCache) (rand : Stream' ℕ) (addr : ℕ) : Option ℕ :=
  if (c.victim rand addr).valid then some (c.victim rand addr).tag else none

namespace CacheRun

def start (sets assocs : ℕ) (policy : ReplPolicy) (rand : Stream' ℕ) : CacheRun :=
  ⟨{ sets := sets, assocs := assocs, replPolicy := policy }, rand, []⟩

/-- An access installs its line when it misses. -/
def step (s : CacheRun) : CacheOp → Except Abort CacheRun
  | .access a =>
    let (hit, c) := s.cache.access a
    if hit then .ok { s with cache := c, log := .hit a :: s.log }
    else do
      let (c', rand) ← c.install s.rand a
      .ok ⟨c', rand, .install a (c.evicted s.rand a) :: s.log⟩
  | .markDirty a => .ok { s with cache := s.cache.markDirty a, log := .mark a :: s.log }

def run (s : CacheRun) (ops : List CacheOp) : Except Abort CacheRun := ops.foldlM step s

end CacheRun

/-- The line has been installed and not evicted since. -/
def resident (a : ℕ) : List CacheEvent → Bool
  | [] => false
  | .install b evicted :: log => if b = a then true else if evicted = some a then false else resident a log
  | .hit _ :: log | .mark _ :: log => resident a log

def CacheEvent.installs (a : ℕ) : CacheEvent → Bool
  | .install b _ => b = a
  | _ => false

/-- The line has been marked dirty since its last installation. -/
def markedSince (a : ℕ) (log : List CacheEvent) : Bool :=
  (log.takeWhile fun e => !e.installs a).contains (.mark a)

def CacheEvent.accessed : CacheEvent → Option ℕ
  | .hit a | .install a _ => some a
  | .mark _ => none

/-- The most recently accessed lines of a set, latest first. -/
def latest (sets assocs set : ℕ) (log : List CacheEvent) : List ℕ :=
  (recent ((log.filterMap CacheEvent.accessed).filter fun a => a % sets = set)).take assocs

section Reference
variable {a b sets assocs set : ℕ} {out : Option ℕ} {log : List CacheEvent}

@[simp] theorem markedSince_hit : markedSince a (.hit b :: log) = markedSince a log := by
  simp [markedSince, CacheEvent.installs]

@[simp] theorem markedSince_mark :
    markedSince a (.mark b :: log) = (a = b || markedSince a log) := by
  by_cases hab : a = b <;> simp [markedSince, CacheEvent.installs, hab]

@[simp] theorem markedSince_install :
    markedSince a (.install b out :: log) = (a ≠ b && markedSince a log) := by
  by_cases hab : b = a
  · subst hab
    simp [markedSince, CacheEvent.installs]
  · simp [markedSince, CacheEvent.installs, hab, Ne.symm hab]

theorem latest_mark : latest sets assocs set (.mark b :: log) = latest sets assocs set log := rfl

theorem latest_access {e : CacheEvent} (he : e.accessed = some a) :
    latest sets assocs set (e :: log) = if a % sets = set then
      touch assocs a (latest sets assocs set log) else latest sets assocs set log := by
  unfold latest
  rw [List.filterMap_cons_some he]
  split_ifs with hset
  · rw [List.filter_cons_of_pos (by simpa using hset), take_recent_cons]
  · rw [List.filter_cons_of_neg (by simpa using hset)]

end Reference

namespace MCache
variable {c d : MCache} {rand : Stream' ℕ} {a i j set set' : ℕ}

/-- A valid line with the time of its last access. -/
def slot (c : MCache) (i : ℕ) : Option (ℕ × ℕ) :=
  if (c.entries i).valid then some ((c.entries i).tag, (c.entries i).lastAccess) else none

def lines (c : MCache) (set : ℕ) : List (ℕ × ℕ) := held (c.ways set) c.slot

theorem mem_ways : i ∈ c.ways set ↔ set * c.assocs ≤ i ∧ i < set * c.assocs + c.assocs := by
  rw [ways, List.mem_range'_1]

theorem ways_nodup (c : MCache) (set : ℕ) : (c.ways set).Nodup := List.nodup_range' _

/-- A position belongs to one set. -/
theorem set_eq_of_mem_ways (h : i ∈ c.ways set) (h' : i ∈ c.ways set') : set = set' := by
  rw [mem_ways] at h h'
  by_contra hne
  rcases Nat.lt_or_gt_of_ne hne with hlt | hlt
  · have := Nat.mul_le_mul_right c.assocs (Nat.succ_le_of_lt hlt)
    rw [Nat.succ_mul] at this
    omega
  · have := Nat.mul_le_mul_right c.assocs (Nat.succ_le_of_lt hlt)
    rw [Nat.succ_mul] at this
    omega

theorem access_of_hit (h : c.lookup a = some i) : c.access a = (true, { c with
    sCount := c.sCount + 1
    entries := Function.update c.entries i
      { c.entries i with lastAccess := c.sCount + 1, ripctr := srripMax } }) := by
  simp [access, h]

theorem access_of_miss (h : c.lookup a = none) :
    c.access a = (false, { c with sCount := c.sCount + 1 }) := by
  simp [access, h]

theorem lookup_some_iff (h : c.lookup a = some i) :
    i ∈ c.ways (c.getIndex a) ∧ (c.entries i).valid ∧ (c.entries i).tag = a := by
  have hp := List.find?_some h
  simp only [Bool.and_eq_true, decide_eq_true_eq] at hp
  exact ⟨List.mem_of_find?_eq_some h, hp⟩

theorem lookup_none_iff (h : c.lookup a = none) :
    ∀ i ∈ c.ways (c.getIndex a), (c.entries i).valid → (c.entries i).tag ≠ a := by
  intro i hi hvalid htag
  have hp := List.find?_eq_none.mp h i hi
  simp [hvalid, htag] at hp

/-- The position with the oldest access time. -/
theorem findVictimLru_oldest (c : MCache) (set : ℕ) : ∀ i ∈ c.ways set,
    (c.entries (c.findVictimLru set)).lastAccess ≤ (c.entries i).lastAccess := by
  have hfold : ∀ (l : List ℕ) (lowest : ℕ), ∀ i ∈ lowest :: l,
      (c.entries (l.foldl (fun lowest i =>
        if (c.entries i).lastAccess < (c.entries lowest).lastAccess then i else lowest) lowest)).lastAccess ≤
          (c.entries i).lastAccess := by
    intro l
    induction l with
    | nil => simp
    | cons k l ih =>
      intro lowest i hi
      rw [List.foldl_cons]
      split_ifs with hlt
      · rcases List.mem_cons.mp hi with rfl | hi
        · exact (ih k k List.mem_cons_self).trans hlt.le
        · exact ih k i hi
      · rcases List.mem_cons.mp hi with rfl | hi
        · exact ih i i List.mem_cons_self
        rcases List.mem_cons.mp hi with rfl | hi
        · exact (ih lowest lowest List.mem_cons_self).trans (not_lt.mp hlt)
        · exact ih lowest i (List.mem_cons_of_mem lowest hi)
  exact fun i hi => hfold _ _ i (List.mem_cons_of_mem _ hi)

/-- A line comes to position `v` of its set. Under LRU no other entry changes, and the position was
free or holds the oldest line of a full set. -/
structure Replaces (c : MCache) (a v : ℕ) (c' : MCache) : Prop where
  mem : v ∈ c.ways (c.getIndex a)
  geometry : c'.sets = c.sets ∧ c'.assocs = c.assocs ∧ c'.replPolicy = c.replPolicy ∧
    c'.sCount = c.sCount + 1
  new : c'.entries v = ⟨true, false, a, srripInit, c.sCount + 1⟩
  same : ∀ i ≠ v, (c.entries i).Same (c'.entries i)
  dirty : c'.evictedDirtyLine = ((c.entries v).valid && (c.entries v).dirty)
  line : c'.evictedDirtyLine → c'.evictedLineAddr = (c.entries v).tag
  lru : c.replPolicy = .lru → (∀ i ≠ v, c'.entries i = c.entries i) ∧
    ((c.entries v).valid = false ∨ ∀ i ∈ c.ways (c.getIndex a), (c.entries i).valid ∧
      (c.entries v).lastAccess ≤ (c.entries i).lastAccess)

theorem findVictim_lru (hlru : c.replPolicy = .lru) (rand : Stream' ℕ) (set : ℕ) :
    (c.findVictim rand set).2.1 = c ∧ ((c.entries (c.findVictim rand set).1).valid = false ∨
      ∀ i ∈ c.ways set, (c.entries i).valid ∧
        (c.entries (c.findVictim rand set).1).lastAccess ≤ (c.entries i).lastAccess) := by
  unfold findVictim
  split
  next i hfind => exact ⟨rfl, .inl (by simpa using List.find?_some hfind)⟩
  next hfind =>
    rw [hlru]
    refine ⟨rfl, .inr fun i hi => ⟨?_, c.findVictimLru_oldest set i hi⟩⟩
    simpa using List.find?_eq_none.mp hfind i hi

/-- Looking for a victim keeps the policy and the time. -/
theorem findVictim_clock (c : MCache) (rand : Stream' ℕ) (set : ℕ) :
    (c.findVictim rand set).2.1.replPolicy = c.replPolicy ∧
      (c.findVictim rand set).2.1.sCount = c.sCount := by
  unfold findVictim
  split
  · exact ⟨rfl, rfl⟩
  · split <;> exact ⟨rfl, rfl⟩

/-- A miss is never met by the exit for a line that is already there. -/
theorem install_of_miss (hpos : 0 < c.assocs) (h : c.lookup a = none) (rand : Stream' ℕ) :
    ∃ v c' rand', (c.access a).2.install rand a = .ok (c', rand') ∧ c.Replaces a v c' ∧
      (c.access a).2.evicted rand a =
        if (c.entries v).valid then some (c.entries v).tag else none := by
  rw [access_of_miss h]
  obtain ⟨d, hd⟩ : ∃ d : MCache, d = { c with sCount := c.sCount + 1 } := ⟨_, rfl⟩
  have hposd : 0 < d.assocs := by rw [hd]; exact hpos
  have hentries : d.entries = c.entries := by rw [hd]
  have hprobe : d.probe a = false := by
    rw [hd]
    change (c.lookup a).isSome = false
    rw [h]
    rfl
  obtain ⟨hmem, hsets, hassocs, hsame⟩ := findVictim_spec hposd rand (d.getIndex a)
  obtain ⟨hpolicy, hclock⟩ := d.findVictim_clock rand (d.getIndex a)
  have hlru (hp : d.replPolicy = .lru) := findVictim_lru hp rand (d.getIndex a)
  refine ⟨(d.findVictim rand (d.getIndex a)).1,
    (d.findVictim rand (d.getIndex a)).2.1.replace a (d.findVictim rand (d.getIndex a)).1,
    (d.findVictim rand (d.getIndex a)).2.2, ?_, ?_, ?_⟩
  · rw [← hd, install, hprobe]
    rfl
  · generalize (d.findVictim rand (d.getIndex a)).1 = v at *
    generalize (d.findVictim rand (d.getIndex a)).2.1 = e at *
    subst hd
    constructor
    case mem => exact hmem
    case geometry => exact ⟨hsets, hassocs, hpolicy, hclock⟩
    case new =>
      dsimp only [replace]
      rw [Function.update_self, hclock]
    case same =>
      intro i hi
      dsimp only [replace]
      rw [Function.update_of_ne hi]
      exact hsame i
    case dirty =>
      dsimp only [replace]
      rw [(hsame v).1, (hsame v).2.1]
    case line =>
      intro hdirty
      dsimp only [replace] at hdirty ⊢
      rw [if_pos hdirty]
      exact (hsame v).2.2
    case lru =>
      intro hp
      obtain ⟨rfl, hold⟩ := hlru hp
      refine ⟨fun i hi => ?_, hold⟩
      dsimp only [replace]
      rw [Function.update_of_ne hi]
  · rw [← hd, evicted, victim, hentries]

end MCache

namespace CacheRun
variable {s s' : CacheRun} {a : ℕ}

/-- Whatever the policy: every line is in its set, in one place, and dirty when it was marked. -/
structure Sound (s : CacheRun) : Prop where
  placed : ∀ i, (s.cache.entries i).valid →
    i ∈ s.cache.ways (s.cache.getIndex (s.cache.entries i).tag)
  unique : ∀ i j, (s.cache.entries i).valid → (s.cache.entries j).valid →
    (s.cache.entries i).tag = (s.cache.entries j).tag → i = j
  resident : ∀ a, (∃ i, (s.cache.entries i).valid ∧ (s.cache.entries i).tag = a) ↔
    resident a s.log
  dirty : ∀ i, (s.cache.entries i).valid →
    (s.cache.entries i).dirty = markedSince (s.cache.entries i).tag s.log

theorem sound_start (sets assocs : ℕ) (policy : ReplPolicy) (rand : Stream' ℕ) :
    (start sets assocs policy rand).Sound :=
  ⟨fun _ h => (nomatch h), fun _ _ h => (nomatch h),
    fun _ => ⟨fun ⟨_, h, _⟩ => (nomatch h), fun h => (nomatch h)⟩, fun _ h => (nomatch h)⟩

namespace Sound

theorem lookup_none (hs : s.Sound) (h : s.cache.lookup a = none) {i : ℕ}
    (hvalid : (s.cache.entries i).valid) : (s.cache.entries i).tag ≠ a := by
  intro htag
  refine MCache.lookup_none_iff h i ?_ hvalid htag
  have hplaced := hs.placed i hvalid
  rwa [htag] at hplaced

theorem probe_iff (hs : s.Sound) : s.cache.probe a ↔ Memsim.resident a s.log := by
  rw [← hs.resident a]
  unfold MCache.probe
  cases h : s.cache.lookup a with
  | none =>
    simp only [Option.isSome_none, Bool.false_eq_true, false_iff, not_exists, not_and]
    exact fun i hi => hs.lookup_none h hi
  | some i =>
    simp only [Option.isSome_some, true_iff]
    exact ⟨i, (MCache.lookup_some_iff h).2⟩

/-- A hit leaves the lines alone. -/
theorem hit (hs : s.Sound) {c : MCache} (hc : (s.cache.access a).2 = c) :
    Sound { s with cache := c, log := .hit a :: s.log } := by
  subst hc
  obtain ⟨hsets, hassocs, _⟩ := s.cache.access_geometry a
  have hsame := s.cache.access_same a
  have hways (set : ℕ) : (s.cache.access a).2.ways set = s.cache.ways set := by
    simp only [MCache.ways, hassocs]
  have hindex (b : ℕ) : (s.cache.access a).2.getIndex b = s.cache.getIndex b := by
    simp only [MCache.getIndex, hsets]
  refine ⟨fun i hi => ?_, fun i j hi hj htag => ?_, fun b => ?_, fun i hi => ?_⟩ <;> dsimp only at *
  · rw [(hsame i).1] at hi
    rw [hways, hindex, (hsame i).2.2]
    exact hs.placed i hi
  · rw [(hsame i).1] at hi
    rw [(hsame j).1] at hj
    rw [(hsame i).2.2, (hsame j).2.2] at htag
    exact hs.unique i j hi hj htag
  · simp only [(hsame _).1, (hsame _).2.2]
    exact hs.resident b
  · rw [(hsame i).1] at hi
    rw [(hsame i).2.1, (hsame i).2.2, markedSince_hit]
    exact hs.dirty i hi

theorem markDirty (hs : s.Sound) (a : ℕ) :
    Sound { s with cache := s.cache.markDirty a, log := .mark a :: s.log } := by
  obtain ⟨hsets, hassocs⟩ := s.cache.markDirty_geometry a
  have hlines := s.cache.markDirty_lines a
  have hways (set : ℕ) : (s.cache.markDirty a).ways set = s.cache.ways set := by
    simp only [MCache.ways, hassocs]
  have hindex (b : ℕ) : (s.cache.markDirty a).getIndex b = s.cache.getIndex b := by
    simp only [MCache.getIndex, hsets]
  refine ⟨fun i hi => ?_, fun i j hi hj htag => ?_, fun b => ?_, fun i hi => ?_⟩ <;> dsimp only at *
  · rw [(hlines i).1] at hi
    rw [hways, hindex, (hlines i).2]
    exact hs.placed i hi
  · rw [(hlines i).1] at hi
    rw [(hlines j).1] at hj
    rw [(hlines i).2, (hlines j).2] at htag
    exact hs.unique i j hi hj htag
  · simp only [(hlines _).1, (hlines _).2]
    exact hs.resident b
  · rw [(hlines i).1] at hi
    rw [(hlines i).2, markedSince_mark, ← hs.dirty i hi]
    unfold MCache.markDirty
    cases hlook : s.cache.lookup a with
    | none => simp [hs.lookup_none hlook hi]
    | some k =>
      obtain ⟨_, hk, htag⟩ := MCache.lookup_some_iff hlook
      dsimp only
      by_cases hik : i = k
      · subst hik
        simp [htag]
      · have hne : (s.cache.entries i).tag ≠ a := fun h => hik (hs.unique i k hi hk (h.trans htag.symm))
        simp [Function.update_of_ne hik, hne]

/-- The line of the victim leaves, and the new one comes. -/
theorem install (hs : s.Sound) (h : s.cache.lookup a = none) {v : ℕ} {c : MCache}
    (hr : s.cache.Replaces a v c) (rand : Stream' ℕ) :
    Sound ⟨c, rand, .install a (if (s.cache.entries v).valid then some (s.cache.entries v).tag
      else none) :: s.log⟩ := by
  have hways (set : ℕ) : c.ways set = s.cache.ways set := by
    simp only [MCache.ways, hr.geometry.2.1]
  have hindex (b : ℕ) : c.getIndex b = s.cache.getIndex b := by
    simp only [MCache.getIndex, hr.geometry.1]
  have hold {i : ℕ} (hi : i ≠ v) (hvalid : (c.entries i).valid) :
      (s.cache.entries i).valid ∧ (c.entries i).tag = (s.cache.entries i).tag :=
    ⟨(hr.same i hi).1 ▸ hvalid, (hr.same i hi).2.2⟩
  refine ⟨fun i hi => ?_, fun i j hi hj htag => ?_, fun b => ?_, fun i hi => ?_⟩ <;> dsimp only at *
  · rw [hways, hindex]
    by_cases hiv : i = v
    · subst hiv
      rw [hr.new]
      exact hr.mem
    · obtain ⟨hvalid, htag⟩ := hold hiv hi
      rw [htag]
      exact hs.placed i hvalid
  · by_cases hiv : i = v <;> by_cases hjv : j = v
    · exact hiv.trans hjv.symm
    · subst hiv
      obtain ⟨hvalid, heq⟩ := hold hjv hj
      rw [hr.new, heq] at htag
      exact absurd htag.symm (hs.lookup_none h hvalid)
    · subst hjv
      obtain ⟨hvalid, heq⟩ := hold hiv hi
      rw [hr.new, heq] at htag
      exact absurd htag (hs.lookup_none h hvalid)
    · rw [(hold hiv hi).2, (hold hjv hj).2] at htag
      exact hs.unique i j (hold hiv hi).1 (hold hjv hj).1 htag
  · rw [Memsim.resident]
    by_cases hab : a = b
    · subst hab
      rw [if_pos rfl]
      exact iff_of_true ⟨v, by rw [hr.new]; exact ⟨rfl, rfl⟩⟩ rfl
    rw [if_neg hab]
    constructor
    · rintro ⟨i, hi, htag⟩
      have hiv : i ≠ v := by
        rintro rfl
        rw [hr.new] at htag
        exact hab htag
      obtain ⟨hvalid, heq⟩ := hold hiv hi
      rw [heq] at htag
      rw [if_neg, ← hs.resident b]
      · exact ⟨i, hvalid, htag⟩
      · intro hout
        split_ifs at hout with hv
        exact hiv (hs.unique i v hvalid hv (htag.trans (Option.some.inj hout).symm))
    · intro hres
      split_ifs at hres with hv hout hout
      · obtain ⟨i, hvalid, htag⟩ := (hs.resident b).mpr hres
        have hiv : i ≠ v := fun h => hout (by rw [← h, htag])
        exact ⟨i, by rw [(hr.same i hiv).1]; exact hvalid, by rw [(hr.same i hiv).2.2]; exact htag⟩
      · obtain ⟨i, hvalid, htag⟩ := (hs.resident b).mpr hres
        have hiv : i ≠ v := fun h => hv (h ▸ hvalid)
        exact ⟨i, by rw [(hr.same i hiv).1]; exact hvalid, by rw [(hr.same i hiv).2.2]; exact htag⟩
  · rw [markedSince_install]
    by_cases hiv : i = v
    · subst hiv
      rw [hr.new]
      simp
    · obtain ⟨hvalid, heq⟩ := hold hiv hi
      rw [(hr.same i hiv).2.1, heq, hs.dirty i hvalid]
      simp [hs.lookup_none h hvalid]

end Sound

/-- Under LRU the lines of every set are the latest accessed ones, in the order of their times. -/
structure Ordered (s : CacheRun) : Prop where
  clock : ∀ set, ∀ e ∈ s.cache.lines set, e.2 ≤ s.cache.sCount
  ranked : ∀ set, Ranked Prod.fst Prod.snd (s.cache.lines set)
    (latest s.cache.sets s.cache.assocs set s.log)

theorem ordered_start (sets assocs : ℕ) (policy : ReplPolicy) (rand : Stream' ℕ) :
    (start sets assocs policy rand).Ordered := by
  have hlines (set : ℕ) : (start sets assocs policy rand).cache.lines set = [] := by
    simp [MCache.lines, held, MCache.slot, start]
  refine ⟨fun set e he => ?_, fun set => ?_⟩
  · rw [hlines] at he
    cases he
  · rw [hlines, start, latest, List.filterMap_nil, List.filter_nil, recent, List.take_nil]
    exact .nil

namespace Ordered

theorem markDirty (hs : s.Ordered) (a : ℕ) :
    Ordered { s with cache := s.cache.markDirty a, log := .mark a :: s.log } := by
  obtain ⟨hsets, hassocs⟩ := s.cache.markDirty_geometry a
  have hlines (set : ℕ) : (s.cache.markDirty a).lines set = s.cache.lines set := by
    unfold MCache.lines MCache.ways
    rw [hassocs]
    refine held_congr fun i _ => ?_
    unfold MCache.slot MCache.markDirty
    cases s.cache.lookup a with
    | none => rfl
    | some k =>
      dsimp only
      by_cases hik : i = k
      · subst hik
        simp
      · simp [Function.update_of_ne hik]
  have hclock : (s.cache.markDirty a).sCount = s.cache.sCount := by
    unfold MCache.markDirty
    cases s.cache.lookup a <;> rfl
  refine ⟨fun set e he => ?_, fun set => ?_⟩ <;> dsimp only at *
  · rw [hlines] at he
    rw [hclock]
    exact hs.clock set e he
  · rw [hlines, hsets, hassocs, latest_mark]
    exact hs.ranked set

/-- An access puts its line, with the new time, into a position of its set. -/
theorem access (hs : s.Ordered) {c : MCache} {i : ℕ} (hi : i ∈ s.cache.ways (s.cache.getIndex a))
    (hgeo : c.sets = s.cache.sets ∧ c.assocs = s.cache.assocs ∧ c.sCount = s.cache.sCount + 1)
    (hslot : c.slot = Function.update s.cache.slot i (some (a, s.cache.sCount + 1)))
    (hrank : Ranked Prod.fst Prod.snd (held (s.cache.ways (s.cache.getIndex a)) c.slot)
      (touch s.cache.assocs a (latest s.cache.sets s.cache.assocs (s.cache.getIndex a) s.log)))
    {e : CacheEvent} (he : e.accessed = some a) (rand : Stream' ℕ) :
    Ordered ⟨c, rand, e :: s.log⟩ := by
  have hways (set : ℕ) : c.ways set = s.cache.ways set := by
    simp only [MCache.ways, hgeo.2.1]
  have hother {set : ℕ} (hset : a % s.cache.sets ≠ set) : c.lines set = s.cache.lines set := by
    unfold MCache.lines
    rw [hways, hslot]
    refine held_congr fun j hj => Function.update_of_ne ?_ _ _
    rintro rfl
    exact hset (MCache.set_eq_of_mem_ways hi hj)
  refine ⟨fun set f hf => ?_, fun set => ?_⟩ <;> dsimp only at *
  · rw [hgeo.2.2]
    obtain ⟨j, hj, hf⟩ := mem_held.mp hf
    rw [hslot] at hf
    by_cases hji : j = i
    · subst hji
      rw [Function.update_self, Option.some_inj] at hf
      rw [← hf]
    · rw [Function.update_of_ne hji] at hf
      rw [hways] at hj
      exact (hs.clock set f (mem_held.mpr ⟨j, hj, hf⟩)).trans (Nat.le_succ _)
  · rw [hgeo.1, hgeo.2.1, latest_access he]
    by_cases hset : a % s.cache.sets = set
    · subst hset
      rw [if_pos rfl]
      unfold MCache.lines
      rw [hways]
      exact hrank
    · rw [if_neg hset, hother hset]
      exact hs.ranked set

theorem hit (hs : s.Ordered) {i : ℕ} (h : s.cache.lookup a = some i) :
    Ordered { s with cache := (s.cache.access a).2, log := .hit a :: s.log } := by
  obtain ⟨hi, hvalid, htag⟩ := MCache.lookup_some_iff h
  have hrank := hs.ranked (s.cache.getIndex a)
  have hslot : s.cache.slot i = some (a, (s.cache.entries i).lastAccess) := by
    simp [MCache.slot, hvalid, htag]
  have hslot' : (s.cache.access a).2.slot =
      Function.update s.cache.slot i (some (a, s.cache.sCount + 1)) := by
    rw [MCache.access_of_hit h]
    funext j
    unfold MCache.slot
    dsimp only
    by_cases hji : j = i
    · subst hji
      simp [hvalid, htag]
    · simp [Function.update_of_ne hji]
  have hgeo : (s.cache.access a).2.sets = s.cache.sets ∧
      (s.cache.access a).2.assocs = s.cache.assocs ∧
      (s.cache.access a).2.sCount = s.cache.sCount + 1 := by
    rw [MCache.access_of_hit h]
    exact ⟨rfl, rfl, rfl⟩
  obtain ⟨rest, hold, hnew⟩ := held_update (s.cache.ways_nodup _) hi s.cache.slot
    (a, s.cache.sCount + 1)
  rw [hslot] at hold
  have hlatest : a ∈ latest s.cache.sets s.cache.assocs (s.cache.getIndex a) s.log :=
    hrank.mem_iff.mpr ⟨_, mem_held.mpr ⟨i, hi, hslot⟩, rfl⟩
  refine hs.access hi hgeo hslot' ?_ rfl s.rand
  rw [hslot', hrank.touch_of_renew ((length_held_le _ _).trans_eq (by simp [MCache.ways])) hlatest]
  exact hrank.renew hold hnew rfl fun g hg => Nat.lt_succ_of_le (hs.clock _ g hg)

theorem install (hs : s.Ordered) (hpos : 0 < s.cache.assocs) (hlru : s.cache.replPolicy = .lru)
    (h : s.cache.lookup a = none) {v : ℕ} {c : MCache} (hr : s.cache.Replaces a v c)
    (rand : Stream' ℕ) (out : Option ℕ) : Ordered ⟨c, rand, .install a out :: s.log⟩ := by
  obtain ⟨hothers, hvictim⟩ := hr.lru hlru
  have hrank := hs.ranked (s.cache.getIndex a)
  have hlen : (s.cache.ways (s.cache.getIndex a)).length = s.cache.assocs := by simp [MCache.ways]
  have hslot' : c.slot = Function.update s.cache.slot v (some (a, s.cache.sCount + 1)) := by
    funext j
    unfold MCache.slot
    by_cases hjv : j = v
    · subst hjv
      simp [hr.new]
    · simp [Function.update_of_ne hjv, hothers j hjv]
  have hfresh : a ∉ latest s.cache.sets s.cache.assocs (s.cache.getIndex a) s.log := by
    intro hin
    obtain ⟨g, hg, hga⟩ := hrank.mem_iff.mp hin
    obtain ⟨j, hj, hslot⟩ := mem_held.mp hg
    unfold MCache.slot at hslot
    split_ifs at hslot with hvalid
    refine MCache.lookup_none_iff h j hj hvalid ?_
    rw [← hga, ← Option.some.inj hslot]
  have hlate (g : ℕ × ℕ) (hg : g ∈ s.cache.lines (s.cache.getIndex a)) : g.2 < s.cache.sCount + 1 :=
    Nat.lt_succ_of_le (hs.clock _ g hg)
  obtain ⟨rest, hold, hnew⟩ := held_update (s.cache.ways_nodup _) hr.mem s.cache.slot
    (a, s.cache.sCount + 1)
  refine hs.access hr.mem ⟨hr.geometry.1, hr.geometry.2.1, hr.geometry.2.2.2⟩ hslot' ?_ rfl rand
  rw [hslot']
  rcases hvictim with hfree | hfull
  · have hempty : s.cache.slot v = none := by simp [MCache.slot, hfree]
    rw [hempty] at hold
    rw [hrank.touch_of_add ((length_held_lt hr.mem hempty).trans_eq hlen) hfresh]
    exact hrank.add (hnew.trans (hold.symm.cons _)) hfresh hlate
  · have hslot {j : ℕ} (hj : j ∈ s.cache.ways (s.cache.getIndex a)) : s.cache.slot j =
        some ((s.cache.entries j).tag, (s.cache.entries j).lastAccess) := by
      simp [MCache.slot, (hfull j hj).1]
    have hsome (j : ℕ) (hj : j ∈ s.cache.ways (s.cache.getIndex a)) : (s.cache.slot j).isSome := by
      rw [hslot hj]
      rfl
    have hwhole := length_held_of_full hsome
    rw [hslot hr.mem] at hold
    rw [hrank.touch_of_replace (hwhole.trans hlen) hpos hfresh]
    refine hrank.replace hold hnew (fun g hg => ?_) hfresh hlate
    obtain ⟨j, hj, hg⟩ := mem_held.mp hg
    rw [hslot hj, Option.some_inj] at hg
    rw [← hg]
    exact (hfull j hj).2

end Ordered

/-- An installation reports the evicted line when it has been marked dirty since it was installed
itself. -/
def Reports (s : CacheRun) : Prop :=
  ∀ a out log, s.log = .install a out :: log →
    (s.cache.evictedDirtyLine ↔ ∃ b, out = some b ∧ markedSince b log) ∧
      (s.cache.evictedDirtyLine → out = some s.cache.evictedLineAddr)

/-- What holds after every run. -/
structure Refines (sets assocs : ℕ) (policy : ReplPolicy) (s : CacheRun) : Prop where
  geometry : s.cache.sets = sets ∧ s.cache.assocs = assocs ∧ s.cache.replPolicy = policy
  sound : s.Sound
  ordered : policy = .lru → s.Ordered
  reports : s.Reports

variable {sets assocs : ℕ} {policy : ReplPolicy}

theorem refines_start (sets assocs : ℕ) (policy : ReplPolicy) (rand : Stream' ℕ) :
    (start sets assocs policy rand).Refines sets assocs policy :=
  ⟨⟨rfl, rfl, rfl⟩, sound_start .., fun _ => ordered_start .., fun _ _ _ h => nomatch h⟩

/-- No use of the cache ends the process, and each one keeps the agreement. -/
theorem Refines.step (hs : s.Refines sets assocs policy) (hpos : 0 < assocs) (op : CacheOp) :
    ∃ s', s.step op = .ok s' ∧ s'.Refines sets assocs policy := by
  obtain ⟨hsets, hassocs, hpolicy⟩ := hs.geometry
  cases op with
  | markDirty a =>
    obtain ⟨hsets', hassocs'⟩ := s.cache.markDirty_geometry a
    have hpolicy' : (s.cache.markDirty a).replPolicy = s.cache.replPolicy := by
      unfold MCache.markDirty
      cases s.cache.lookup a <;> rfl
    exact ⟨_, rfl, ⟨hsets'.trans hsets, hassocs'.trans hassocs, hpolicy'.trans hpolicy⟩,
      hs.sound.markDirty a, fun h => (hs.ordered h).markDirty a, fun _ _ _ h => nomatch h⟩
  | access a =>
    cases h : s.cache.lookup a with
    | some i =>
      have hfst : (s.cache.access a).1 = true := by rw [MCache.access_of_hit h]
      obtain ⟨hsets', hassocs', hpolicy'⟩ := s.cache.access_geometry a
      refine ⟨{ s with cache := (s.cache.access a).2, log := .hit a :: s.log }, ?_,
        ⟨hsets'.trans hsets, hassocs'.trans hassocs, hpolicy'.trans hpolicy⟩,
        hs.sound.hit rfl, fun hlru => (hs.ordered hlru).hit h, fun _ _ _ h => nomatch h⟩
      simp [CacheRun.step, hfst]
    | none =>
      have hfst : (s.cache.access a).1 = false := by rw [MCache.access_of_miss h]
      obtain ⟨v, c, rand, hinstall, hr, hevicted⟩ :=
        MCache.install_of_miss (hassocs ▸ hpos) h s.rand
      obtain ⟨hsets', hassocs', hpolicy', _⟩ := hr.geometry
      refine ⟨⟨c, rand, .install a (if (s.cache.entries v).valid then some (s.cache.entries v).tag
        else none) :: s.log⟩, ?_,
        ⟨hsets'.trans hsets, hassocs'.trans hassocs, hpolicy'.trans hpolicy⟩,
        hs.sound.install h hr rand,
        fun hlru => (hs.ordered hlru).install (hassocs ▸ hpos) (hpolicy.trans hlru) h hr rand _, ?_⟩
      · simp only [CacheRun.step, hfst, Bool.false_eq_true, if_false, hinstall, hevicted]
        rfl
      · intro b out log hlog
        obtain ⟨hhead, rfl⟩ := List.cons.inj hlog
        obtain ⟨_, rfl⟩ := CacheEvent.install.inj hhead
        dsimp only
        rw [hr.dirty]
        by_cases hvalid : (s.cache.entries v).valid
        · have hdirty := hs.sound.dirty v hvalid
          have hline := hr.line
          rw [hr.dirty] at hline
          simp only [hvalid, Bool.true_and, if_true, Option.some.injEq, exists_eq_left'] at hline ⊢
          exact ⟨by rw [hdirty], fun h => (hline h).symm⟩
        · simp [hvalid]

theorem Refines.run (hs : s.Refines sets assocs policy) (hpos : 0 < assocs) (ops : List CacheOp) :
    ∃ s', s.run ops = .ok s' ∧ s'.Refines sets assocs policy := by
  induction ops generalizing s with
  | nil => exact ⟨s, rfl, hs⟩
  | cons op ops ih =>
    obtain ⟨t, ht, hrefines⟩ := hs.step hpos op
    obtain ⟨s', hs', hrefines'⟩ := ih hrefines
    refine ⟨s', ?_, hrefines'⟩
    rw [run, List.foldlM_cons, ht]
    exact hs'

end CacheRun

open CacheRun

/-- Every run of the cache ends without an exit. No line is held twice, every line is in its set,
an access hits exactly the lines installed and not evicted since, and an installation reports
exactly the evicted lines marked dirty since they were installed. Under LRU each set holds its
latest accessed lines. -/
theorem l3_cache_refines (sets assocs : ℕ) (hassocs : 0 < assocs) (policy : ReplPolicy)
    (rand : Stream' ℕ) (ops : List CacheOp) : ∃ s,
    (start sets assocs policy rand).run ops = .ok s ∧
    (∀ i j, (s.cache.entries i).valid → (s.cache.entries j).valid →
      (s.cache.entries i).tag = (s.cache.entries j).tag → i = j) ∧
    (∀ i, (s.cache.entries i).valid →
      ∃ way < assocs, i = (s.cache.entries i).tag % sets * assocs + way) ∧
    (∀ a, (s.cache.access a).1 ↔ resident a s.log) ∧
    (∀ a out log, s.log = .install a out :: log →
      (s.cache.evictedDirtyLine ↔ ∃ b, out = some b ∧ markedSince b log) ∧
      (s.cache.evictedDirtyLine → out = some s.cache.evictedLineAddr)) ∧
    (policy = .lru → ∀ set, ((s.cache.lines set).map Prod.fst).Perm (latest sets assocs set s.log)) := by
  obtain ⟨s, hrun, hs⟩ := (refines_start sets assocs policy rand).run hassocs ops
  obtain ⟨hsets, hways, _⟩ := hs.geometry
  refine ⟨s, hrun, hs.sound.unique, fun i hi => ?_, fun a => ?_, hs.reports, fun hlru set => ?_⟩
  · have hplaced := hs.sound.placed i hi
    rw [MCache.mem_ways, MCache.getIndex, hsets, hways] at hplaced
    exact ⟨i - (s.cache.entries i).tag % sets * assocs, by omega, by omega⟩
  · rw [MCache.access_fst]
    exact hs.sound.probe_iff
  · have hrank := (hs.ordered hlru).ranked set
    rw [hsets, hways] at hrank
    exact hrank.perm

/-- One set of two ways under LRU: line 1 is marked dirty, and line 3 comes after line 2. -/
theorem l3_cache_refines_small : ∃ s,
    (start 1 2 .lru (Stream'.const 0)).run
      [.access 1, .markDirty 1, .access 2, .access 3] = .ok s ∧
    s.cache.evictedDirtyLine ∧ s.cache.evictedLineAddr = 1 ∧
    ((s.cache.lines 0).map Prod.fst).Perm [3, 2] := by
  obtain ⟨s, hrun, _, _, _, hreports, hlatest⟩ := l3_cache_refines 1 2 (by decide) .lru
    (Stream'.const 0) [.access 1, .markDirty 1, .access 2, .access 3]
  have hlog : s.log = [.install 3 (some 1), .install 2 none, .mark 1, .install 1 none] := by
    have hlog := congrArg (fun x => x.toOption.map log) hrun
    exact (Option.some.inj ((show _ = some s.log from hlog).symm.trans rfl))
  obtain ⟨hdirty, hline⟩ := hreports 3 (some 1) _ hlog
  have hset := hdirty.mpr ⟨1, rfl, by decide⟩
  refine ⟨s, hrun, hset, (Option.some.inj (hline hset)).symm, ?_⟩
  have hperm := hlatest rfl 0
  rwa [hlog] at hperm

end CactusDram.Memsim

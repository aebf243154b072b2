import CactusDram.System

/-! The ideal memory: an infinite buffer, and a fixed latency. The loop of a tick erases the
transaction it calls back and then steps over the one that takes its place. -/
namespace CactusDram

structure IdealDRAMSystem where
  latency : ℕ
  clk : ℕ := 0
  infiniteBufferQ : List Transaction := []

namespace IdealDRAMSystem

def addTransaction (s : IdealDRAMSystem) (hexAddr : HexAddr) (isWrite : Bool) : IdealDRAMSystem :=
  { s with infiniteBufferQ := s.infiniteBufferQ ++ [⟨hexAddr, s.clk, 0, isWrite⟩] }

/-- The loop over the buffer: the transactions called back in their order, and those that stay. -/
def tickLoop (due : Transaction → Bool) : List Transaction → List Transaction × List Transaction
  | [] => ([], [])
  | [t] => if due t then ([t], []) else ([], [t])
  | t :: next :: rest =>
    if due t then
      let (done, left) := tickLoop due rest
      (t :: done, next :: left)
    else
      let (done, left) := tickLoop due (next :: rest)
      (done, t :: left)

def due (s : IdealDRAMSystem) (t : Transaction) : Bool := s.latency ≤ s.clk - t.addedCycle

/-- The transactions for which the tick makes a callback, and the state after it. -/
def clockTick (s : IdealDRAMSystem) : List Transaction × IdealDRAMSystem :=
  let (done, left) := tickLoop s.due s.infiniteBufferQ
  (done, { s with infiniteBufferQ := left, clk := s.clk + 1 })

/-- A run so far: what was added, and what each tick has called back. -/
structure History where
  system : IdealDRAMSystem
  added : List Transaction := []
  ticks : List (List Transaction) := []

namespace History

def step (h : History) : JedecDRAMSystem.Call → History
  | .addTransaction hexAddr isWrite =>
    { h with
      system := h.system.addTransaction hexAddr isWrite
      added := h.added ++ [⟨hexAddr, h.system.clk, 0, isWrite⟩] }
  | .clockTick => { h with system := h.system.clockTick.2, ticks := h.ticks ++ [h.system.clockTick.1] }

def run (latency : ℕ) (calls : List JedecDRAMSystem.Call) : History :=
  calls.foldl step { system := { latency } }

/-- The transactions whose latency ends with the tick at `clk`. -/
def readyAt (h : History) (clk : ℕ) : List Transaction :=
  h.added.filter fun t => t.addedCycle + h.system.latency = clk

/-- Every tick calls back the transactions whose latency ends with it, in the order in which they
were added. -/
def FixedLatency (h : History) : Prop := ∀ clk (hclk : clk < h.ticks.length), h.ticks[clk] = h.readyAt clk

/-- The latency of no two transactions ends with one tick. -/
def OneReady (h : History) : Prop := ∀ clk < h.ticks.length, (h.readyAt clk).length ≤ 1

end History

section Loop
variable {due : Transaction → Bool} {l : List Transaction}

theorem tickLoop_sublist (due : Transaction → Bool) (l : List Transaction) :
    (tickLoop due l).1.Sublist (l.filter due) := by
  fun_induction tickLoop due l with
  | case1 => exact .slnil
  | case2 t ht => simp [ht]
  | case3 t ht => simp
  | case4 t next rest ht done left heq ih =>
    rw [List.filter_cons_of_pos ht]
    refine List.Sublist.cons_cons t ?_
    rw [heq] at ih
    exact ih.trans (List.Sublist.filter due (List.sublist_cons_self next rest))
  | case5 t next rest ht done left heq ih =>
    rw [List.filter_cons_of_neg ht]
    rw [heq] at ih
    exact ih

/-- With nothing ready the loop changes nothing. -/
theorem tickLoop_of_none (h : ∀ t ∈ l, due t = false) : tickLoop due l = ([], l) := by
  fun_induction tickLoop due l with
  | case1 => rfl
  | case2 t ht => simp [h t (by simp)] at ht
  | case3 t ht => rfl
  | case4 t next rest ht done left heq ih => simp [h t (by simp)] at ht
  | case5 t next rest ht done left heq ih =>
    obtain ⟨rfl, rfl⟩ := Prod.mk.inj (heq.symm.trans (ih fun u hu => h u (List.mem_cons_of_mem _ hu)))
    rfl

/-- With at most one transaction ready the loop takes it out. -/
theorem tickLoop_of_le_one (h : (l.filter due).length ≤ 1) :
    tickLoop due l = (l.filter due, l.filter fun t => !due t) := by
  fun_induction tickLoop due l with
  | case1 => rfl
  | case2 t ht => simp [ht]
  | case3 t ht => simp [Bool.eq_false_iff.mpr ht]
  | case4 t next rest ht done left heq ih =>
    rw [List.filter_cons_of_pos ht, List.length_cons] at h
    have hnil : (next :: rest).filter due = [] := List.length_eq_zero_iff.mp (by omega)
    have hnone : ∀ u ∈ next :: rest, due u = false := by
      simpa using List.filter_eq_nil_iff.mp hnil
    rw [tickLoop_of_none fun u hu => hnone u (List.mem_cons_of_mem _ hu)] at heq
    obtain ⟨rfl, rfl⟩ := Prod.mk.inj heq
    have hkeep : (next :: rest).filter (fun t => !due t) = next :: rest :=
      List.filter_eq_self.mpr fun u hu => by simp [hnone u hu]
    rw [List.filter_cons_of_pos ht, hnil, List.filter_cons_of_neg (by simp [ht]), hkeep]
  | case5 t next rest ht done left heq ih =>
    rw [List.filter_cons_of_neg ht] at h ⊢
    obtain ⟨rfl, rfl⟩ := Prod.mk.inj (heq.symm.trans (ih h))
    rw [List.filter_cons_of_pos (p := fun t => !due t) (a := t) (by simp [ht])]

/-- Of two ready transactions at the front the loop misses the second. -/
theorem tickLoop_of_two {t next : Transaction} (ht : due t = true) (hnext : due next = true) :
    (tickLoop due (t :: next :: l)).1.length < ((t :: next :: l).filter due).length := by
  rw [tickLoop, if_pos ht, List.filter_cons_of_pos ht, List.filter_cons_of_pos hnext]
  have hle := (tickLoop_sublist due l).length_le
  simp only [List.length_cons]
  omega

/-- Where the ready transactions are in front, the loop takes all of them out only if there is at
most one. -/
theorem tickLoop_eq_filter_iff (hfront : l.Pairwise fun t u => due u = true → due t = true) :
    (tickLoop due l).1 = l.filter due ↔ (l.filter due).length ≤ 1 := by
  constructor
  · intro heq
    by_contra hlt
    match l, hfront with
    | [], _ => simp at hlt
    | [t], _ => exact hlt (List.length_filter_le _ _)
    | t :: next :: rest, hfront =>
      obtain ⟨hhead, hrest⟩ := List.pairwise_cons.mp hfront
      have hnext : due next = true := by
        by_contra hno
        have hnone : (next :: rest).filter due = [] := List.filter_eq_nil_iff.mpr fun u hu hu' => by
          rcases List.mem_cons.mp hu with rfl | hu
          · exact hno hu'
          · exact hno ((List.pairwise_cons.mp hrest).1 u hu hu')
        have hle : ((t :: next :: rest).filter due).length ≤ 1 := by
          rw [List.filter_cons, hnone]
          split <;> simp
        exact hlt hle
      have hlen := tickLoop_of_two (l := rest) (hhead next (by simp) hnext) hnext
      rw [heq] at hlen
      exact lt_irrefl _ hlen
  · intro hle
    rw [tickLoop_of_le_one hle]

end Loop

namespace History
variable {latency : ℕ} {calls : List JedecDRAMSystem.Call} {call : JedecDRAMSystem.Call} {h : History}

theorem run_append_singleton : run latency (calls ++ [call]) = (run latency calls).step call := by
  rw [run, List.foldl_append]
  rfl

/-- The clock counts the ticks, and transactions were added in its order. -/
structure Clocked (h : History) : Prop where
  ticks : h.ticks.length = h.system.clk
  past : ∀ t ∈ h.added, t.addedCycle ≤ h.system.clk
  ordered : h.added.Pairwise fun t u => t.addedCycle ≤ u.addedCycle

theorem Clocked.step (hh : h.Clocked) (call : JedecDRAMSystem.Call) : (h.step call).Clocked := by
  cases call with
  | addTransaction hexAddr isWrite =>
    refine ⟨hh.ticks, fun t ht => ?_, ?_⟩
    · rcases List.mem_append.mp ht with ht | ht
      · exact hh.past t ht
      · rw [List.mem_singleton.mp ht]
        exact le_rfl
    · refine List.pairwise_append.mpr ⟨hh.ordered, List.pairwise_singleton _ _, fun t ht u hu => ?_⟩
      rw [List.mem_singleton.mp hu]
      exact hh.past t ht
  | clockTick =>
    refine ⟨?_, fun t ht => (hh.past t ht).trans (Nat.le_succ _), hh.ordered⟩
    exact (List.length_append).trans (congrArg (· + 1) hh.ticks)

/-- What the buffer holds as long as no tick has missed a transaction. -/
def Exact (h : History) : Prop := h.system.infiniteBufferQ =
  h.added.filter fun t => h.system.clk ≤ t.addedCycle + h.system.latency

/-- A new transaction is not yet ready at any tick that was made. -/
theorem Clocked.readyAt_add (hh : h.Clocked) (hexAddr : HexAddr) (isWrite : Bool) {clk : ℕ}
    (hclk : clk < h.ticks.length) :
    (h.step (.addTransaction hexAddr isWrite)).readyAt clk = h.readyAt clk := by
  have hne : ¬ (h.system.clk + h.system.latency = clk) := by
    rw [hh.ticks] at hclk
    omega
  change (h.added ++ [_]).filter (fun t => t.addedCycle + h.system.latency = clk) = h.readyAt clk
  rw [List.filter_append, List.filter_cons_of_neg (by simpa using hne), List.filter_nil, List.append_nil]
  rfl

theorem Clocked.due_iff (hh : h.Clocked) {t : Transaction} (ht : t ∈ h.added) :
    h.system.due t = true ↔ t.addedCycle + h.system.latency ≤ h.system.clk := by
  have := hh.past t ht
  rw [due, decide_eq_true_iff]
  omega

/-- In an exact buffer the transactions that the tick finds due are those whose latency ends. -/
theorem Clocked.filter_due (hh : h.Clocked) (he : h.Exact) :
    h.system.infiniteBufferQ.filter h.system.due = h.readyAt h.system.clk := by
  rw [he, List.filter_filter, readyAt]
  refine List.filter_congr fun t ht => ?_
  rw [Bool.eq_iff_iff, Bool.and_eq_true, hh.due_iff ht, decide_eq_true_iff, decide_eq_true_iff]
  omega

theorem Clocked.filter_not_due (hh : h.Clocked) (he : h.Exact) :
    h.system.infiniteBufferQ.filter (fun t => !h.system.due t) =
      h.added.filter fun t => h.system.clk + 1 ≤ t.addedCycle + h.system.latency := by
  rw [he, List.filter_filter]
  refine List.filter_congr fun t ht => ?_
  rw [Bool.eq_iff_iff, Bool.and_eq_true, Bool.not_eq_true', ← Bool.not_eq_true, hh.due_iff ht,
    decide_eq_true_iff, decide_eq_true_iff]
  omega

/-- The older transactions, which are due first, are in front. -/
theorem Clocked.due_front (hh : h.Clocked) (he : h.Exact) : h.system.infiniteBufferQ.Pairwise
    fun t u => h.system.due u = true → h.system.due t = true := by
  rw [he]
  refine (hh.ordered.filter _).imp fun {t u} hle hu => ?_
  rw [due, decide_eq_true_iff] at *
  omega

theorem forall_getElem_append_singleton {α : Type*} {l : List α} {a : α} {f : ℕ → α} :
    (∀ n (hn : n < (l ++ [a]).length), (l ++ [a])[n] = f n) ↔
      (∀ n (hn : n < l.length), l[n] = f n) ∧ a = f l.length := by
  constructor
  · intro h
    refine ⟨fun n hn => ?_, ?_⟩
    · have := h n (by simp; omega)
      rwa [List.getElem_append_left hn] at this
    · simpa using h l.length (by simp)
  · rintro ⟨h, ha⟩ n hn
    rcases Nat.lt_or_ge n l.length with hlt | hge
    · rw [List.getElem_append_left hlt]
      exact h n hlt
    · obtain rfl : n = l.length := by
        rw [List.length_append, List.length_singleton] at hn
        omega
      simpa using ha

/-- As long as no two transactions become ready in one tick, all ticks are as they should be and the
buffer is exact; the first tick for which two become ready misses the second of them. -/
structure Tracked (h : History) : Prop extends h.Clocked where
  iff : h.FixedLatency ↔ h.OneReady
  exact : h.OneReady → h.Exact

theorem Tracked.step (hh : h.Tracked) (call : JedecDRAMSystem.Call) : (h.step call).Tracked := by
  suffices hboth : ((h.step call).FixedLatency ↔ (h.step call).OneReady) ∧
      ((h.step call).OneReady → (h.step call).Exact) from ⟨hh.toClocked.step call, hboth.1, hboth.2⟩
  cases call with
  | addTransaction hexAddr isWrite =>
    have hready {clk : ℕ} (hclk : clk < h.ticks.length) := hh.readyAt_add hexAddr isWrite hclk
    have hone : (h.step (.addTransaction hexAddr isWrite)).OneReady ↔ h.OneReady := by
      unfold OneReady
      exact forall₂_congr fun clk hclk => by rw [hready hclk]
    have hfixed : (h.step (.addTransaction hexAddr isWrite)).FixedLatency ↔ h.FixedLatency := by
      unfold FixedLatency
      exact forall₂_congr fun clk hclk => by
        rw [hready hclk]
        rfl
    refine ⟨hfixed.trans (hh.iff.trans hone.symm), fun h' => ?_⟩
    change h.system.infiniteBufferQ ++ [_] = (h.added ++ [_]).filter
      fun t => h.system.clk ≤ t.addedCycle + h.system.latency
    rw [List.filter_append, List.filter_cons_of_pos (by simp), List.filter_nil, hh.exact (hone.mp h')]
  | clockTick =>
    have hfixed : (h.step .clockTick).FixedLatency ↔
        h.FixedLatency ∧ h.system.clockTick.1 = h.readyAt h.system.clk := by
      rw [← hh.ticks]
      exact forall_getElem_append_singleton
    have hone : (h.step .clockTick).OneReady ↔
        h.OneReady ∧ (h.readyAt h.system.clk).length ≤ 1 := by
      have hlen : (h.step .clockTick).ticks.length = h.ticks.length + 1 := List.length_append
      unfold OneReady
      rw [hlen, Nat.forall_lt_succ_right, hh.ticks]
      rfl
    constructor
    · rw [hfixed, hone, hh.iff]
      refine and_congr_right fun h' => ?_
      have he := hh.exact h'
      rw [← hh.filter_due he]
      exact tickLoop_eq_filter_iff (hh.due_front he)
    · intro h'
      obtain ⟨hold, hnow⟩ := hone.mp h'
      have he := hh.exact hold
      rw [← hh.filter_due he] at hnow
      have hleft : (tickLoop h.system.due h.system.infiniteBufferQ).2 = _ :=
        congrArg Prod.snd (tickLoop_of_le_one hnow)
      exact hleft.trans (hh.filter_not_due he)

theorem Tracked.run (latency : ℕ) (calls : List JedecDRAMSystem.Call) : (run latency calls).Tracked := by
  induction calls using List.reverseRecOn with
  | nil =>
    refine ⟨⟨rfl, fun t ht => (nomatch ht), List.Pairwise.nil⟩, ?_, fun _ => rfl⟩
    exact ⟨fun _ clk hclk => (Nat.not_lt_zero _ hclk).elim, fun _ clk hclk => (Nat.not_lt_zero _ hclk).elim⟩
  | append_singleton calls call ih =>
    rw [run_append_singleton]
    exact ih.step call

theorem ideal_latency_iff (latency : ℕ) (calls : List JedecDRAMSystem.Call) :
    (run latency calls).FixedLatency ↔ (run latency calls).OneReady := (Tracked.run latency calls).iff

/-- Two reads before the first tick, with no latency: the tick calls back only the first. -/
theorem ideal_latency_skips : ¬ ∀ (latency : ℕ) (calls : List JedecDRAMSystem.Call),
    (run latency calls).FixedLatency := by
  intro h
  have htick := h 0 [.addTransaction 0 false, .addTransaction 64 false, .clockTick] 0 (by decide)
  exact absurd htick (by decide)

end History
end IdealDRAMSystem
end CactusDram

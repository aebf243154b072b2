import CactusDram.CPU
import CactusDram.Foundations.Blocks

/-! The generated request streams: what a CPU draws reaches the memory once and in order, however often
the memory refuses it. -/
namespace CactusDram
open Foundations

namespace RandomCPU
variable {M : Type} {mem : MemorySystem M} {gen : ℕ → HexAddr} {c c' : RandomCPU M}

/-- The request that the `k`-th two results of `gen()` make. -/
def request (gen : ℕ → HexAddr) (k : ℕ) : Callback := ⟨gen (2 * k), (gen (2 * k + 1)).toNat % 3 = 0⟩

/-- The first `k` requests were added, and the next one may wait. -/
structure Kept (gen : ℕ → HexAddr) (c : RandomCPU M) (k : ℕ) : Prop where
  added : InBlocks (fun i => [request gen i]) k c.requests
  drawn : c.drawn = 2 * k + if c.getNext then 0 else 2
  last : c.getNext = false → (⟨c.lastAddr, c.lastWrite⟩ : Callback) = request gen k

theorem Kept.draw {k : ℕ} (h : Kept gen c k) : (c.draw gen).requests = c.requests ∧
    (c.draw gen).drawn = 2 * k + 2 ∧
    (⟨(c.draw gen).lastAddr, (c.draw gen).lastWrite⟩ : Callback) = request gen k := by
  have hdrawn := h.drawn
  unfold RandomCPU.draw
  split_ifs with hnext
  · rw [hnext, if_pos rfl, Nat.add_zero] at hdrawn
    refine ⟨rfl, congrArg (· + 2) hdrawn, ?_⟩
    rw [hdrawn]
    rfl
  · rw [if_neg hnext] at hdrawn
    exact ⟨rfl, hdrawn, h.last (by simpa using hnext)⟩

theorem Kept.clockTick {k : ℕ} (h : Kept gen c k) (hc : c.clockTick mem gen = .ok c') :
    ∃ k', Kept gen c' k' := by
  obtain ⟨m, _, hc⟩ := bind_ok_iff.mp hc
  have hm : Kept gen { c with memorySystem := m } k := ⟨h.added, h.drawn, h.last⟩
  obtain ⟨hrequests, hdrawn, hlast⟩ := hm.draw
  generalize ({ c with memorySystem := m } : RandomCPU M).draw gen = d at hc hrequests hdrawn hlast
  have hadded : InBlocks (fun i => [request gen i]) k d.requests := by
    rw [hrequests]
    exact h.added
  dsimp only at hc
  rcases d.toCPU.offer_cases mem d.lastAddr d.lastWrite with heq | ⟨_, heq⟩
  · rw [heq] at hc
    cases hc
    exact ⟨k, hadded, hdrawn, fun _ => hlast⟩
  · rw [heq] at hc
    cases hc
    refine ⟨k + 1, ?_, hdrawn, fun h => absurd h.symm Bool.false_ne_true⟩
    have hblock := hadded.succ (b := [⟨d.lastAddr, d.lastWrite⟩]) (by rw [hlast])
    simpa only [CPU.requests, List.map_append, List.map_cons, List.map_nil] using hblock

/-- The requests that were drawn so far are those that were added, in the same order, and at most one
more. -/
theorem random_requests_in_order {m : M} {lastAddr : HexAddr} {n : ℕ}
    (hrun : CPU.cycles (clockTick mem gen) n { memorySystem := m, lastAddr } = .ok c) :
    ∃ k, c.requests = (List.range k).map (request gen) ∧ (c.drawn = 2 * k ∨ c.drawn = 2 * (k + 1)) := by
  obtain ⟨k, hk⟩ := CPU.cycles_induct (P := fun c => ∃ k, Kept gen c k)
    (fun _ _ ⟨_, h⟩ hc => h.clockTick hc) hrun ⟨0, .zero, rfl, fun h => absurd h.symm Bool.false_ne_true⟩
  refine ⟨k, hk.added.eq_map, ?_⟩
  have hdrawn := hk.drawn
  split_ifs at hdrawn
  · exact .inl hdrawn
  · exact .inr hdrawn

end RandomCPU

namespace StreamCPU
variable {M : Type} {mem : MemorySystem M} {gen : ℕ → HexAddr} {c c' : StreamCPU M}

def elements : ℕ := arraySize / stride

/-- The reads of two elements and the write of their sum. -/
def triple (gen : ℕ → HexAddr) (e : ℕ) : List Callback :=
  let q := e / elements
  let o := BitVec.ofNat 64 (e % elements * stride)
  [⟨gen (3 * q) + o, false⟩, ⟨gen (3 * q + 1) + o, false⟩, ⟨gen (3 * q + 2) + o, true⟩]

/-- A request, if it was inserted. -/
def once (inserted : Bool) (x : Callback) : List Callback := if inserted then [x] else []

/-- The part of an element that was added. -/
def part (c : StreamCPU M) : List Callback :=
  once c.insertedA ⟨c.addrA + BitVec.ofNat 64 c.offset, false⟩ ++
    (once c.insertedB ⟨c.addrB + BitVec.ofNat 64 c.offset, false⟩ ++
      once c.insertedC ⟨c.addrC + BitVec.ofNat 64 c.offset, true⟩)

/-- The CPU is at element `j` of its set of arrays number `q`. -/
structure Loaded (gen : ℕ → HexAddr) (c : StreamCPU M) (q j : ℕ) : Prop where
  drawn : c.drawn = 3 * q + 3
  addrA : c.addrA = gen (3 * q)
  addrB : c.addrB = gen (3 * q + 1)
  addrC : c.addrC = gen (3 * q + 2)
  offset : c.offset = j * stride

/-- The elements up to `e` were added one after the other, and then a part of the current one. -/
def Streamed (gen : ℕ → HexAddr) (c : StreamCPU M) (e : ℕ) : Prop :=
  ∃ done current, c.requests = done ++ current ∧ InBlocks (triple gen) e done ∧ current.Perm c.part

theorem Loaded.triple_eq {q j : ℕ} (h : Loaded gen c q j) (hj : j < elements) :
    triple gen (q * elements + j) = [⟨c.addrA + BitVec.ofNat 64 c.offset, false⟩,
      ⟨c.addrB + BitVec.ofNat 64 c.offset, false⟩, ⟨c.addrC + BitVec.ofNat 64 c.offset, true⟩] := by
  have hdiv : (q * elements + j) / elements = q := by
    rw [Nat.mul_comm, Nat.mul_add_div (by decide), Nat.div_eq_of_lt hj, Nat.add_zero]
  have hmod : (q * elements + j) % elements = j := by
    rw [Nat.mul_comm, Nat.mul_add_mod, Nat.mod_eq_of_lt hj]
  unfold triple
  dsimp only
  rw [hdiv, hmod, h.addrA, h.addrB, h.addrC, h.offset]

/-- What an insertion adds is what it inserts. -/
theorem insert_added (mem : MemorySystem M) (c : CPU M) (inserted : Bool) (addr : HexAddr) (isWrite : Bool) : ∃ extra,
    (insert mem c inserted addr isWrite).2.requests = c.requests ++ extra ∧
      once (insert mem c inserted addr isWrite).1 ⟨addr, isWrite⟩ = once inserted ⟨addr, isWrite⟩ ++ extra ∧
      (insert mem c inserted addr isWrite).2.clk = c.clk := by
  unfold insert
  cases inserted with
  | true => exact ⟨[], (List.append_nil _).symm, rfl, rfl⟩
  | false =>
    simp only [Bool.false_eq_true, if_false]
    rcases c.offer_cases mem addr isWrite with heq | ⟨_, heq⟩ <;> rw [heq]
    · exact ⟨[], (List.append_nil _).symm, rfl, rfl⟩
    · exact ⟨[⟨addr, isWrite⟩], by simp [CPU.requests], rfl, rfl⟩

/-- The insertions of a tick add to the element what they insert, in their order. -/
theorem insert_all (mem : MemorySystem M) {c c' : StreamCPU M} (hc' : c' = ((c.insertA mem).insertB mem).insertC mem) :
    ∃ a b d cpu, c' = { c with toCPU := cpu, insertedA := a, insertedB := b, insertedC := d } ∧
      cpu.clk = c.clk ∧ ∃ extra, c'.requests = c.requests ++ extra ∧ c'.part.Perm (c.part ++ extra) := by
  subst hc'
  obtain ⟨ea, hreqA, honceA, hclkA⟩ := insert_added mem c.toCPU c.insertedA
    (c.addrA + BitVec.ofNat 64 c.offset) false
  obtain ⟨eb, hreqB, honceB, hclkB⟩ := insert_added mem (c.insertA mem).toCPU c.insertedB
    (c.addrB + BitVec.ofNat 64 c.offset) false
  obtain ⟨ed, hreqC, honceC, hclkC⟩ := insert_added mem ((c.insertA mem).insertB mem).toCPU
    c.insertedC (c.addrC + BitVec.ofNat 64 c.offset) true
  refine ⟨_, _, _, _, rfl, hclkC.trans (hclkB.trans hclkA), ea ++ (eb ++ ed), ?_, ?_⟩
  · have hrequests : (((c.insertA mem).insertB mem).insertC mem).requests =
        c.requests ++ ea ++ eb ++ ed :=
      hreqC.trans (congrArg (· ++ ed) (hreqB.trans (congrArg (· ++ eb) hreqA)))
    rw [hrequests]
    simp
  · have hpart : (((c.insertA mem).insertB mem).insertC mem).part =
        once c.insertedA ⟨c.addrA + BitVec.ofNat 64 c.offset, false⟩ ++ ea ++
          (once c.insertedB ⟨c.addrB + BitVec.ofNat 64 c.offset, false⟩ ++ eb ++
            (once c.insertedC ⟨c.addrC + BitVec.ofNat 64 c.offset, true⟩ ++ ed)) := by
      rw [← honceA, ← honceB, ← honceC]
      rfl
    rw [hpart, List.perm_iff_count]
    intro x
    simp only [part, List.count_append]
    omega

theorem Streamed.insert_all {e : ℕ} (h : Streamed gen c e) {extra : List Callback}
    (hrequests : c'.requests = c.requests ++ extra) (hpart : c'.part.Perm (c.part ++ extra)) :
    Streamed gen c' e := by
  obtain ⟨done, current, heq, hdone, hcurrent⟩ := h
  refine ⟨done, current ++ extra, ?_, hdone, ?_⟩
  · rw [hrequests, heq, List.append_assoc]
  · exact (hcurrent.append_right extra).trans hpart.symm

/-- An element that is inserted completely is done. -/
theorem Streamed.nextElement {q j : ℕ} (h : Streamed gen c (q * elements + j)) (hl : Loaded gen c q j)
    (hj : j < elements) : ∃ j' ≤ elements, Streamed gen c.nextElement (q * elements + j') ∧
      Loaded gen c.nextElement q j' ∧ (j' = elements → c.nextElement.part = []) ∧
      c.nextElement.clk = c.clk := by
  unfold StreamCPU.nextElement
  split_ifs with hall
  · obtain ⟨done, current, heq, hdone, hcurrent⟩ := h
    have htriple : current.Perm (triple gen (q * elements + j)) := by
      rw [hl.triple_eq hj]
      simpa [part, once, hall] using hcurrent
    have hnext : InBlocks (triple gen) (q * elements + (j + 1)) (done ++ current) := by
      rw [← Nat.add_assoc]
      exact hdone.succ htriple
    refine ⟨j + 1, Nat.succ_le_of_lt hj, ⟨done ++ current, [], ?_, hnext, ?_⟩, ?_, fun _ => ?_, rfl⟩
    · simpa using heq
    · simp [part, once]
    · refine ⟨hl.drawn, hl.addrA, hl.addrB, hl.addrC, ?_⟩
      rw [Nat.succ_mul, ← hl.offset]
    · simp [part, once]
  · exact ⟨j, hj.le, h, hl, fun hend => absurd hend hj.ne, rfl⟩

/-- What holds between two ticks: no array is chosen yet, or the CPU is at or behind an element. -/
def Kept (gen : ℕ → HexAddr) (c : StreamCPU M) : Prop :=
  c.clk = 0 ∧ c.drawn = 0 ∧ c.requests = [] ∧ c.part = [] ∨
    0 < c.clk ∧ ∃ q, ∃ j ≤ elements, Streamed gen c (q * elements + j) ∧ Loaded gen c q j ∧
      (j = elements → c.part = [])

theorem part_eq_nil (h : c.part = []) :
    c.insertedA = false ∧ c.insertedB = false ∧ c.insertedC = false := by
  simp only [part, once, List.append_eq_nil_iff] at h
  refine ⟨?_, ?_, ?_⟩ <;> by_contra hne <;> simp_all

/-- Before it inserts, the CPU is at an element. -/
theorem Kept.nextArrays (h : Kept gen c) : ∃ q, ∃ j < elements,
    Streamed gen (c.nextArrays gen) (q * elements + j) ∧ Loaded gen (c.nextArrays gen) q j ∧
      (c.nextArrays gen).clk = c.clk := by
  unfold StreamCPU.nextArrays
  rcases h with ⟨hclk, hdrawn, hrequests, hpart⟩ | ⟨hclk, q, j, hj, hstream, hl, hend⟩
  · rw [if_pos (.inr hclk)]
    obtain ⟨hA, hB, hC⟩ := part_eq_nil hpart
    refine ⟨0, 0, by decide, ⟨[], [], hrequests, .zero, ?_⟩, ?_, rfl⟩
    · simp [part, once, hA, hB, hC]
    · exact ⟨by rw [hdrawn], by rw [hdrawn], by rw [hdrawn], by rw [hdrawn], rfl⟩
  · rcases hj.lt_or_eq with hlt | rfl
    · have hoffset : c.offset < arraySize := by
        rw [hl.offset]
        have := Nat.mul_lt_mul_of_pos_right hlt (show 0 < stride by decide)
        exact this
      rw [if_neg (by omega)]
      exact ⟨q, j, hlt, hstream, hl, rfl⟩
    · have hoffset : arraySize ≤ c.offset := by
        rw [hl.offset]
        exact le_rfl
      rw [if_pos (.inl hoffset)]
      obtain ⟨hA, hB, hC⟩ := part_eq_nil (hend rfl)
      obtain ⟨done, current, heq, hdone, hcurrent⟩ := hstream
      rw [hend rfl] at hcurrent
      refine ⟨q + 1, 0, by decide, ⟨done, current, heq, ?_, ?_⟩, ?_, rfl⟩
      · rw [Nat.succ_mul, Nat.add_zero]
        exact hdone
      · simpa [part, once, hA, hB, hC] using hcurrent
      · have hdrawn := hl.drawn
        exact ⟨by simp only [hdrawn]; ring, by simp only [hdrawn]; rfl, by simp only [hdrawn]; rfl, by
          simp only [hdrawn]; rfl, rfl⟩

theorem Kept.clockTick (h : Kept gen c) (hc : c.clockTick mem gen = .ok c') : Kept gen c' := by
  obtain ⟨m, _, hc⟩ := bind_ok_iff.mp hc
  have hm : Kept gen { c with memorySystem := m } := by
    rcases h with h | ⟨hclk, q, j, hj, hstream, hl, hend⟩
    · exact .inl h
    · exact .inr ⟨hclk, q, j, hj, hstream, ⟨hl.drawn, hl.addrA, hl.addrB, hl.addrC, hl.offset⟩, hend⟩
  obtain ⟨q, j, hj, hstream, hl, hclk⟩ := hm.nextArrays
  dsimp only at hc
  generalize ({ c with memorySystem := m } : StreamCPU M).nextArrays gen = d at hc hstream hl hclk
  obtain ⟨a, b, d', cpu, heq, hclk', extra, hrequests, hpart⟩ := insert_all mem (c := d) rfl
  generalize ((d.insertA mem).insertB mem).insertC mem = s at hc heq hrequests hpart
  have hl' : Loaded gen s q j := by
    rw [heq]
    exact ⟨hl.drawn, hl.addrA, hl.addrB, hl.addrC, hl.offset⟩
  obtain ⟨j', hj', hstream', hl'', hend, _⟩ := (hstream.insert_all hrequests hpart).nextElement hl' hj
  cases hc
  refine .inr ⟨Nat.succ_pos _, q, j', hj', hstream', ⟨hl''.drawn, hl''.addrA, hl''.addrB, hl''.addrC,
    hl''.offset⟩, hend⟩

theorem kept_start (m : M) (addrA addrB addrC : HexAddr) :
    Kept gen ({ memorySystem := m, addrA, addrB, addrC } : StreamCPU M) :=
  .inl ⟨rfl, rfl, rfl, rfl⟩

theorem insert_accounts {P : M → List Callback → Prop} (hP : mem.Accounts P) {c : CPU M}
    (h : P c.memorySystem c.requests) (inserted : Bool) (addr : HexAddr) (isWrite : Bool) :
    P (insert mem c inserted addr isWrite).2.memorySystem
      (insert mem c inserted addr isWrite).2.requests := by
  unfold insert
  split_ifs
  · exact h
  · exact CPU.offer_accounts hP h addr isWrite

theorem accounts_clockTick {P : M → List Callback → Prop} (hP : mem.Accounts P)
    (h : P c.memorySystem c.requests) (hc : c.clockTick mem gen = .ok c') :
    P c'.memorySystem c'.requests := by
  obtain ⟨m, hm, hc⟩ := bind_ok_iff.mp hc
  have hticked : P m c.requests := hP.clockTick h hm
  have harrays : (({ c with memorySystem := m } : StreamCPU M).nextArrays gen).toCPU =
      { c.toCPU with memorySystem := m } := by
    unfold nextArrays
    split_ifs <;> rfl
  dsimp only at hc
  generalize ({ c with memorySystem := m } : StreamCPU M).nextArrays gen = d at hc harrays
  have hd : P d.memorySystem d.requests := by
    rw [harrays]
    exact hticked
  have hA := insert_accounts hP hd d.insertedA (d.addrA + BitVec.ofNat 64 d.offset) false
  have hB := insert_accounts hP hA d.insertedB (d.addrB + BitVec.ofNat 64 d.offset) false
  have hC := insert_accounts hP hB d.insertedC (d.addrC + BitVec.ofNat 64 d.offset) true
  have helement (c : StreamCPU M) : c.nextElement.toCPU = c.toCPU := by
    unfold nextElement
    split_ifs <;> rfl
  cases hc
  change P (((d.insertA mem).insertB mem).insertC mem).nextElement.toCPU.memorySystem
    (((d.insertA mem).insertB mem).insertC mem).nextElement.toCPU.requests
  rw [helement]
  exact hC

theorem part_subperm {q j : ℕ} (hl : Loaded gen c q j) (hj : j < elements) :
    c.part.Subperm (triple gen (q * elements + j)) := by
  have honce (inserted : Bool) (x : Callback) : (once inserted x).Sublist [x] := by
    cases inserted
    · exact List.nil_sublist _
    · exact .refl _
  rw [hl.triple_eq hj]
  exact ((honce _ _).append ((honce _ _).append (honce _ _))).subperm

end StreamCPU

/-- The stream-add kernel on a memory system: for one element after the other, two reads and a write are
added, each once, an element only after the one before it; and the memory calls back every one of
them once, or still holds it. -/
theorem stream_answered {cfg : Config} (boot : SystemBoot cfg) (gen : ℕ → HexAddr)
    {addrA addrB addrC : HexAddr} {n : ℕ} {c : StreamCPU JedecDRAMSystem}
    (hrun : CPU.cycles (StreamCPU.clockTick (JedecDRAMSystem.memorySystem cfg) gen) n
      { memorySystem := boot.system, addrA, addrB, addrC } = .ok c) :
    ∃ e done current, c.requests = done ++ current ∧ InBlocks (StreamCPU.triple gen) e done ∧
      current.Subperm (StreamCPU.triple gen e) ∧
      ∀ x : Callback, (done ++ current).count x = c.memorySystem.callbacks.count x +
        (c.memorySystem.ctrls (cfg.getChannel x.addr)).held x := by
  have howes : c.memorySystem.Owes cfg c.requests :=
    CPU.cycles_induct (P := fun c : StreamCPU _ => c.memorySystem.Owes cfg c.requests)
      (fun _ _ h hc => StreamCPU.accounts_clockTick (JedecDRAMSystem.accounts_owes cfg) h hc) hrun
      (JedecDRAMSystem.owes_boot boot)
  have hkept : StreamCPU.Kept gen c :=
    CPU.cycles_induct (P := StreamCPU.Kept gen) (fun _ _ h hc => h.clockTick hc) hrun
      (StreamCPU.kept_start _ _ _ _)
  rcases hkept with ⟨_, _, hnone, _⟩ | ⟨_, q, j, hj, ⟨done, current, heq, hdone, hcurrent⟩, hl, hend⟩
  · refine ⟨0, [], [], hnone, .zero, List.nil_subperm, fun x => ?_⟩
    rw [List.append_nil, ← hnone]
    exact (howes x).1
  · refine ⟨q * StreamCPU.elements + j, done, current, heq, hdone, ?_, fun x => ?_⟩
    · rcases hj.lt_or_eq with hlt | heq
      · exact hcurrent.subperm.trans (StreamCPU.part_subperm hl hlt)
      · rw [hend heq] at hcurrent
        rw [List.perm_nil.mp hcurrent]
        exact List.nil_subperm
    · rw [← heq]
      exact (howes x).1

theorem stream_answered_small : ∃ c : StreamCPU JedecDRAMSystem,
    CPU.cycles (StreamCPU.clockTick (JedecDRAMSystem.memorySystem smallConfig)
      fun n => BitVec.ofNat 64 (2 * n)) 6
      { memorySystem := ({} : SystemBoot smallConfig).system, addrA := 0, addrB := 0, addrC := 0 } = .ok c ∧
    ∃ e done current, c.requests = done ++ current ∧
      InBlocks (StreamCPU.triple fun n => BitVec.ofNat 64 (2 * n)) e done ∧
      (done ++ current).count ⟨4, true⟩ = 1 := by
  obtain ⟨c, hrun, hc⟩ := exists_ok_of_any
    (x := CPU.cycles (StreamCPU.clockTick (JedecDRAMSystem.memorySystem smallConfig)
      fun n => BitVec.ofNat 64 (2 * n)) 6
      { memorySystem := ({} : SystemBoot smallConfig).system, addrA := 0, addrB := 0, addrC := 0 })
    (p := fun c : StreamCPU JedecDRAMSystem => c.memorySystem.callbacks.count ⟨4, true⟩ = 1 &&
      (c.memorySystem.ctrls 0).held ⟨4, true⟩ = 0) (by decide +kernel)
  simp only [Bool.and_eq_true, decide_eq_true_eq] at hc
  obtain ⟨e, done, current, heq, hdone, _, hcount⟩ := stream_answered {} _ hrun
  have hfirst := hcount ⟨4, true⟩
  have hchannel : smallConfig.getChannel 4 = 0 := by decide +kernel
  rw [hchannel, hc.1, hc.2] at hfirst
  exact ⟨c, hrun, e, done, current, heq, hdone, hfirst⟩

end CactusDram

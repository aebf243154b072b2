import CactusDram.Memsim.Points
import CactusDram.Memsim.DRAMSystem
import Mathlib.Logic.Function.Iterate

/-! The instructions of a core, whatever its cache, the other cores and the memory do: the core replays its
trace. -/
namespace CactusDram.Memsim
open Foundations

structure TraceRecord where
  instNum : ℕ
  wb : ℕ
  va : ℕ
  deriving DecidableEq

def TraceRecord.decode (bytes : List UInt8) : TraceRecord where
  instNum := littleEndian (bytes.take 5)
  wb := littleEndian ((bytes.drop 5).take 1)
  va := littleEndian ((bytes.drop 6).take 4)

/-- The records of a trace file. A part of a record at its end is no record. -/
def traceRecords (bytes : List UInt8) : List TraceRecord :=
  (List.range (bytes.length / 10)).map fun k => .decode (bytes.drop (10 * k))

theorem traceRecords_nil {bytes : List UInt8} (h : bytes.length < 10) : traceRecords bytes = [] := by
  rw [traceRecords, Nat.div_eq_of_lt h]
  rfl

theorem traceRecords_cons {bytes : List UInt8} (h : 10 ≤ bytes.length) :
    traceRecords bytes = .decode bytes :: traceRecords (bytes.drop 10) := by
  have hlen : bytes.length / 10 = (bytes.drop 10).length / 10 + 1 := by
    rw [List.length_drop]
    omega
  rw [traceRecords, hlen, List.range_succ_eq_map, List.map_cons, List.map_map, traceRecords]
  congr 1
  refine List.map_congr_left fun k _ => ?_
  rw [Function.comp_apply, List.drop_drop]
  congr 2
  omega

/-- The records that are left of a pass, whether the core has been through, and the instructions of the
pass. -/
structure Replay where
  left : List TraceRecord
  done : Bool
  instNum : ℕ := 0

namespace Replay
variable (limit : ℕ) (all : List TraceRecord) (r : Replay)

/-- The next record. Behind the last one, or when the core has run all it should, a pass begins. -/
def advance : Replay :=
  if r.left.tail = [] ∨ r.done = false ∧ limit ≤ r.instNum then ⟨all, true, 0⟩
  else { r with left := r.left.tail }

def count : Replay :=
  let r := { r with instNum := r.instNum + 1 }
  if r.done = false ∧ limit < r.instNum then r.advance limit all else r

/-- One instruction: it accesses the record in front once its number has come. -/
def step : Replay :=
  let r := r.count limit all
  if ∃ x ∈ r.left.head?, x.instNum ≤ r.instNum then r.advance limit all else r

def start : Replay := ⟨all, limit = 0, 0⟩

/-- After so many instructions. -/
def after (n : ℕ) : Replay := (step limit all)^[n] (start limit all)

theorem after_succ (n : ℕ) : after limit all (n + 1) = (after limit all n).step limit all :=
  Function.iterate_succ_apply' _ _ _

end Replay

namespace MCore
variable {gz : Zlib} {contents : String → List UInt8} {rest : gz.File → List UInt8}
variable {p : Params} {c c' : MCore gz} {name : String} {r : Replay}

/-- The core is at this position of the trace with this name. -/
structure Shows (rest : gz.File → List UInt8) (name : String) (c : MCore gz) (r : Replay) : Prop where
  name : c.addrTraceFname = name
  eof : gz.gzeof c.addrTrace = false
  left : r.left = ⟨c.traceInstNum, c.traceWb, c.traceVa⟩ :: traceRecords (rest c.addrTrace)
  done : r.done = c.done
  instNum : r.instNum = c.instNum

/-- Reading a record, or past the end. -/
theorem freadTrace_cases (hgz : gz.Documented contents rest) (heof : gz.gzeof c.addrTrace = false) :
    traceRecords (rest c.addrTrace) = [] ∧ gz.gzeof c.freadTrace.addrTrace = true ∨
      gz.gzeof c.freadTrace.addrTrace = false ∧ traceRecords (rest c.addrTrace) =
        ⟨c.freadTrace.traceInstNum, c.freadTrace.traceWb, c.freadTrace.traceVa⟩ ::
          traceRecords (rest c.freadTrace.addrTrace) := by
  by_cases hlen : (rest c.addrTrace).length < 10
  · refine .inl ⟨traceRecords_nil hlen, ?_⟩
    simp only [freadTrace, hgz.gzread_eof, hgz.gzread_rest, heof, List.length_drop, Bool.false_or, Bool.or_eq_true,
      decide_eq_true_eq]
    omega
  · refine .inr ⟨?_, ?_⟩
    · simp only [freadTrace, hgz.gzread_eof, hgz.gzread_rest, heof, List.length_drop, Bool.false_or,
        Bool.or_eq_false_iff, decide_eq_false_iff_not]
      omega
    · rw [traceRecords_cons (Nat.not_lt.mp hlen)]
      simp [freadTrace, hgz.gzread_bytes, hgz.gzread_rest, TraceRecord.decode, List.drop_drop]

theorem shows_freadTrace (hgz : gz.Documented contents rest) (hname : c.addrTraceFname = name)
    (heof : gz.gzeof c.addrTrace = false) (hleft : traceRecords (rest c.addrTrace) ≠ []) :
    c.freadTrace.Shows rest name ⟨traceRecords (rest c.addrTrace), c.done, c.instNum⟩ := by
  obtain ⟨hnil, _⟩ | ⟨heof', hcons⟩ := freadTrace_cases hgz heof
  · exact absurd hnil hleft
  · exact ⟨hname, heof', hcons, rfl, rfl⟩

/-- From the top again. -/
theorem shows_restart (hgz : gz.Documented contents rest) (hall : traceRecords (contents name) ≠ [])
    (hname : c.addrTraceFname = name) :
    { ({ c with done := true } : MCore gz).initTrace.freadTrace with instNum := 0 }.Shows rest name
      ⟨traceRecords (contents name), true, 0⟩ := by
  subst hname
  have hopened : rest ({ c with done := true } : MCore gz).initTrace.addrTrace =
      contents c.addrTraceFname := hgz.gzopen_rest _
  have h := shows_freadTrace (c := ({ c with done := true } : MCore gz).initTrace) hgz rfl
    (hgz.gzopen_eof _) (by rw [hopened]; exact hall)
  rw [hopened] at h
  exact ⟨h.name, h.eof, h.left, h.done, rfl⟩

theorem Shows.readTrace (hgz : gz.Documented contents rest) (hall : traceRecords (contents name) ≠ [])
    (h : c.Shows rest name r) :
    (c.readTrace p).Shows rest name (r.advance p.instLimit (traceRecords (contents name))) := by
  have htail : r.left.tail = traceRecords (rest c.addrTrace) := by rw [h.left, List.tail_cons]
  have hname : c.freadTrace.addrTraceFname = name := h.name
  have hdone : c.freadTrace.done = r.done := h.done.symm
  have hinst : c.freadTrace.instNum = r.instNum := h.instNum.symm
  unfold MCore.readTrace Replay.advance
  dsimp only
  rw [htail, hdone, hinst]
  obtain ⟨hnil, heof⟩ | ⟨heof, hcons⟩ := freadTrace_cases hgz h.eof
  · rw [if_pos (by simp [heof]), if_pos (.inl hnil)]
    exact shows_restart hgz hall hname
  · by_cases hlimit : r.done = false ∧ p.instLimit ≤ r.instNum
    · rw [if_pos (by simp [hlimit]), if_pos (.inr hlimit)]
      exact shows_restart hgz hall hname
    · rw [if_neg (by simpa [heof] using hlimit), if_neg (by simpa [hcons] using hlimit)]
      exact ⟨hname, heof, hcons, hdone.symm, hinst.symm⟩

theorem shows_new (hgz : gz.Documented contents rest) (hall : traceRecords (contents name) ≠ []) :
    (MCore.new p name).Shows rest name (.start p.instLimit (traceRecords (contents name))) := by
  let c : MCore gz := { addrTraceFname := name, addrTrace := gz.gzopen name }
  have hopened : rest c.addrTrace = contents name := hgz.gzopen_rest name
  have h := shows_freadTrace (c := c) hgz rfl (hgz.gzopen_eof name) (by rw [hopened]; exact hall)
  rw [hopened] at h
  change (MCore.readTrace p c).Shows rest name _
  unfold MCore.readTrace Replay.start
  dsimp only
  have hdone : c.freadTrace.done = false := rfl
  have hinst : c.freadTrace.instNum = 0 := rfl
  rw [hdone, hinst]
  by_cases hlimit : p.instLimit = 0
  · rw [if_pos (by simp [hlimit]), decide_eq_true hlimit]
    exact shows_restart (c := c.freadTrace) hgz hall rfl
  · rw [if_neg (by simp [h.eof, hlimit]), decide_eq_false hlimit]
    exact h

def countInst (p : Params) (c : MCore gz) : MCore gz :=
  let c := { c with instNum := c.instNum + 1 }
  if !c.done && p.instLimit < c.instNum then c.readTrace p else c

def passRecord (p : Params) (c : MCore gz) : MCore gz :=
  if c.traceInstNum ≤ c.instNum then c.readTrace p else c

/-- What the core reads and counts, apart from its requests. -/
structure SameFront (c c' : MCore gz) : Prop where
  name : c'.addrTraceFname = c.addrTraceFname
  addrTrace : c'.addrTrace = c.addrTrace
  record : c'.traceInstNum = c.traceInstNum ∧ c'.traceWb = c.traceWb ∧ c'.traceVa = c.traceVa
  done : c'.done = c.done
  instNum : c'.instNum = c.instNum

theorem Shows.congr (h : c.Shows rest name r) (hsame : SameFront c c') : c'.Shows rest name r := by
  obtain ⟨hinst, hwb, hva⟩ := hsame.record
  refine ⟨?_, ?_, ?_, ?_, ?_⟩
  · rw [hsame.name]
    exact h.name
  · rw [hsame.addrTrace]
    exact h.eof
  · rw [hsame.addrTrace, hinst, hwb, hva]
    exact h.left
  · rw [hsame.done]
    exact h.done
  · rw [hsame.instNum]
    exact h.instNum

theorem Shows.step (hgz : gz.Documented contents rest) (hall : traceRecords (contents name) ≠ [])
    (h : c.Shows rest name r) :
    ((c.countInst p).passRecord p).Shows rest name (r.step p.instLimit (traceRecords (contents name))) := by
  have hcount : (c.countInst p).Shows rest name (r.count p.instLimit (traceRecords (contents name))) := by
    have hnext : ({ c with instNum := c.instNum + 1 } : MCore gz).Shows rest name
        { r with instNum := r.instNum + 1 } :=
      ⟨h.name, h.eof, h.left, h.done, congrArg (· + 1) h.instNum⟩
    unfold countInst Replay.count
    dsimp only
    by_cases hlimit : r.done = false ∧ p.instLimit < r.instNum + 1
    · rw [if_pos hlimit, if_pos (by rw [← h.done, ← h.instNum]; simpa using hlimit)]
      exact hnext.readTrace hgz hall
    · rw [if_neg hlimit, if_neg (by rw [← h.done, ← h.instNum]; simpa using hlimit)]
      exact hnext
  unfold passRecord Replay.step
  dsimp only
  rw [hcount.left, hcount.instNum]
  by_cases hdue : (c.countInst p).traceInstNum ≤ (c.countInst p).instNum
  · rw [if_pos hdue, if_pos (by simpa using hdue)]
    exact hcount.readTrace hgz hall
  · rw [if_neg hdue, if_neg (by simpa using hdue)]
    exact hcount

end MCore

namespace Sys
variable {gz : Zlib} {mem : MainMemory} {p : Params} {s s' : Sys gz mem} {i : ℕ} {goesOn : Bool}

/-- An instruction: its core counts it and passes the record that it accesses, and its number goes into the
reorder buffer. -/
theorem issue_core (h : s.issue p i = .ok (goesOn, s')) :
    MCore.SameFront (((s.mcore i).countInst p).passRecord p) (s'.mcore i) ∧
      (s'.mcore i).rob.inserted.map (·.2) =
        (s.mcore i).rob.inserted.map (·.2) ++ [(s'.mcore i).instNum] ∧
      ∀ j, j ≠ i → s'.mcore j = s.mcore j := by
  obtain ⟨lineaddr, s₁, a, s₂, hnext, haccess, hdispatch⟩ := issue_ok h
  have h₁ : s₁.mcore i = (s.mcore i).countInst p ∧ ∀ j, j ≠ i → s₁.mcore j = s.mcore j := by
    obtain ⟨⟨addr, os, rand⟩, _, hnext⟩ := bind_ok_iff.mp hnext
    cases hnext
    exact ⟨mcore_setCore _ _ _, fun j hj => mcore_setCore_of_ne _ hj _⟩
  have h₂ : s₂.mcore i = (s₁.mcore i).passRecord p ∧ ∀ j, j ≠ i → s₂.mcore j = s₁.mcore j := by
    unfold access at haccess
    unfold MCore.passRecord
    split_ifs at haccess with hdue hwb
    · obtain ⟨_, hmark, haccess⟩ := bind_ok_iff.mp haccess
      cases hmark
      cases haccess
      rw [if_pos (of_decide_eq_true hdue)]
      exact ⟨mcore_setCore _ _ _, fun j hj => mcore_setCore_of_ne _ hj _⟩
    · obtain ⟨⟨a₁, s₃⟩, hread, haccess⟩ := bind_ok_iff.mp haccess
      cases haccess
      have hcores : s₃.mcore = s₁.mcore := by
        unfold readL3 at hread
        dsimp only at hread
        split_ifs at hread
        · obtain ⟨⟨llc, rand⟩, _, hread⟩ := bind_ok_iff.mp hread
          simp only [Except.ok.injEq, Prod.mk.injEq] at hread
          rw [← hread.2]
        · simp only [Except.ok.injEq, Prod.mk.injEq] at hread
          rw [← hread.2]
      rw [if_pos (of_decide_eq_true hdue), ← hcores]
      exact ⟨mcore_setCore _ _ _, fun j hj => mcore_setCore_of_ne _ hj _⟩
    · cases haccess
      rw [if_neg fun hle => hdue (decide_eq_true hle)]
      exact ⟨rfl, fun _ _ => rfl⟩
  have hflight : (s₂.mcore i).rob = (s.mcore i).rob := by
    rw [h₂.1, h₁.1]
    unfold MCore.passRecord MCore.countInst
    have hrob (c : MCore gz) : (c.readTrace p).rob = c.rob := congrArg Flight.rob (MCore.flight_readTrace p c)
    dsimp only
    split_ifs <;> simp only [hrob]
  have h₃ : MCore.SameFront (s₂.mcore i) (s'.mcore i) ∧
      (s'.mcore i).rob.inserted.map (·.2) =
        (s₂.mcore i).rob.inserted.map (·.2) ++ [(s'.mcore i).instNum] ∧
      ∀ j, j ≠ i → s'.mcore j = s₂.mcore j := by
    obtain ⟨_, ⟨_, _, rfl⟩ | ⟨_, m, w, ⟨_, _, rfl⟩ | ⟨_, rfl⟩⟩⟩ := dispatch_cases hdispatch <;>
      refine ⟨⟨?_, ?_, ⟨?_, ?_, ?_⟩, ?_, ?_⟩, ?_, fun j hj => ?_⟩ <;>
      simp [inserted, fallAsleep, setCore, *]
  rw [← h₁.1, ← h₂.1]
  refine ⟨h₃.1, ?_, fun j hj => ?_⟩
  · rw [h₃.2.1, hflight]
  · rw [h₃.2.2 j hj, h₂.2 j hj, h₁.2 j hj]

end Sys

namespace Replay
variable {limit n : ℕ} {all : List TraceRecord} {last : TraceRecord}

/-- The next instruction passes the record in front if it is the one with its number. -/
theorem filter_pass (hsorted : all.Pairwise (·.instNum < ·.instNum)) {x : TraceRecord} {l : List TraceRecord}
    (hleft : all.filter (n < ·.instNum) = x :: l) :
    all.filter (n + 1 < ·.instNum) = if x.instNum ≤ n + 1 then l else x :: l := by
  have hfront : n < x.instNum := by
    have hx : x ∈ all.filter (n < ·.instNum) := by rw [hleft]; exact List.mem_cons_self
    simpa using (List.mem_filter.mp hx).2
  have hrest : ∀ y ∈ l, x.instNum < y.instNum := by
    have hpairs := hsorted.filter (n < ·.instNum)
    rw [hleft] at hpairs
    exact (List.pairwise_cons.mp hpairs).1
  have hfilter : all.filter (n + 1 < ·.instNum) = (x :: l).filter (n + 1 < ·.instNum) := by
    rw [← hleft, List.filter_filter]
    refine List.filter_congr fun y _ => ?_
    rw [← Bool.decide_and, decide_eq_decide]
    omega
  rw [hfilter]
  split_ifs with hdue
  · rw [List.filter_cons_of_neg (by simpa using hdue), List.filter_eq_self]
    intro y hy
    have hlt := hrest y hy
    simp only [decide_eq_true_eq]
    omega
  · rw [List.filter_eq_self]
    intro y hy
    simp only [decide_eq_true_eq]
    rcases List.mem_cons.mp hy with rfl | hy
    · omega
    · have hlt := hrest y hy
      omega

/-- The largest number of a record. -/
def lastNum (all : List TraceRecord) : ℕ := (all.map (·.instNum)).foldr max 0

theorem lt_lastNum : n < lastNum all ↔ ∃ x ∈ all, n < x.instNum := by
  induction all with
  | nil => simp [lastNum]
  | cons x l ih =>
    have hmax : lastNum (x :: l) = max x.instNum (lastNum l) := rfl
    rw [hmax, lt_max_iff, ih]
    simp

theorem lastNum_le_iff : lastNum all ≤ n ↔ all.filter (n < ·.instNum) = [] := by
  rw [← not_lt, lt_lastNum]
  simp

/-- The length of the first pass. It ends with the last record or behind the instruction limit, and a record
whose number is the limit ends it there. -/
def firstPass (limit : ℕ) (all : List TraceRecord) : ℕ :=
  if limit = 0 then 0
  else if lastNum all ≤ limit then lastNum all
  else if ∃ x ∈ all, x.instNum = limit then limit
  else limit + 1

theorem firstPass_le : firstPass limit all ≤ lastNum all := by
  unfold firstPass
  split_ifs <;> omega

/-- How far the pass has come after `n` instructions: the passes behind the first one have no limit. -/
def inPass (limit : ℕ) (all : List TraceRecord) (n : ℕ) : ℕ :=
  if n < firstPass limit all then n else (n - firstPass limit all) % lastNum all

/-- The instruction that ends a pass. -/
def EndsPass (limit : ℕ) (all : List TraceRecord) (done : Bool) (n : ℕ) : Prop :=
  lastNum all ≤ n ∨ done = false ∧ (limit < n ∨ limit ≤ n ∧ ∃ x ∈ all, x.instNum = n)

theorem endsPass_first (hn : n < firstPass limit all) :
    EndsPass limit all false (n + 1) ↔ firstPass limit all = n + 1 := by
  unfold EndsPass
  unfold firstPass at hn ⊢
  split_ifs at hn ⊢ with hzero hlast hmem
  · omega
  · have hnone : n + 1 < lastNum all → ¬limit ≤ n + 1 := by omega
    omega
  · constructor
    · rintro (h | ⟨_, h | ⟨h, _⟩⟩) <;> omega
    · rintro rfl
      exact .inr ⟨rfl, .inr ⟨le_rfl, hmem⟩⟩
  · constructor
    · rintro (h | ⟨_, h | ⟨h, hx⟩⟩)
      · omega
      · omega
      · by_cases heq : limit = n + 1
        · exact absurd (by rw [heq]; exact hx) hmem
        · omega
    · intro h
      exact .inr ⟨rfl, .inl (by omega)⟩

theorem endsPass_later : EndsPass limit all true (n + 1) ↔ lastNum all ≤ n + 1 := by
  simp [EndsPass]

theorem filter_zero (hpos : ∀ x ∈ all, 0 < x.instNum) : all.filter (0 < ·.instNum) = all := by
  rw [List.filter_eq_self]
  exact fun x hx => by simpa using hpos x hx

/-- A new pass does not start with a record that is due. -/
theorem step_restart (hpos : ∀ x ∈ all, 0 < x.instNum) {r : Replay}
    (h : r.count limit all = ⟨all, true, 0⟩) : r.step limit all = ⟨all, true, 0⟩ := by
  unfold step
  rw [h]
  refine if_neg ?_
  rintro ⟨x, hx, hdue⟩
  have := hpos x (List.mem_of_mem_head? hx)
  dsimp only at hdue
  omega

/-- One instruction of a pass. -/
theorem step_pass (hsorted : all.Pairwise (·.instNum < ·.instNum)) (hpos : ∀ x ∈ all, 0 < x.instNum)
    (done : Bool) (hn : n < lastNum all) [Decidable (EndsPass limit all done (n + 1))] :
    step limit all ⟨all.filter (n < ·.instNum), done, n⟩ =
      if EndsPass limit all done (n + 1) then ⟨all, true, 0⟩
      else ⟨all.filter (n + 1 < ·.instNum), done, n + 1⟩ := by
  by_cases hover : done = false ∧ limit < n + 1
  · have hcount : count limit all ⟨all.filter (n < ·.instNum), done, n⟩ = ⟨all, true, 0⟩ := by
      unfold count
      dsimp only
      rw [if_pos hover, advance, if_pos (.inr ⟨hover.1, hover.2.le⟩)]
    rw [step_restart hpos hcount, if_pos (.inr ⟨hover.1, .inl hover.2⟩)]
  have hcount : count limit all ⟨all.filter (n < ·.instNum), done, n⟩ =
      ⟨all.filter (n < ·.instNum), done, n + 1⟩ := by
    unfold count
    dsimp only
    rw [if_neg hover]
  unfold step
  rw [hcount]
  dsimp only
  cases hleft : all.filter (n < ·.instNum) with
  | nil => exact absurd (lastNum_le_iff.mpr hleft) (Nat.not_le.mpr hn)
  | cons x l =>
    have hnext := filter_pass hsorted hleft
    have hx : x ∈ all.filter (n < ·.instNum) := by rw [hleft]; exact List.mem_cons_self
    obtain ⟨hmem, hahead⟩ := List.mem_filter.mp hx
    have hahead : n < x.instNum := by simpa using hahead
    by_cases hdue : x.instNum ≤ n + 1
    · have hnum : x.instNum = n + 1 := by omega
      rw [if_pos hdue] at hnext
      rw [if_pos (by simpa using hdue), advance, List.tail_cons, hnext]
      refine if_congr ?_ rfl rfl
      unfold EndsPass
      rw [lastNum_le_iff, hnext]
      have hrecord : ∃ x ∈ all, x.instNum = n + 1 := ⟨x, hmem, hnum⟩
      simp only [hrecord, and_true]
      tauto
    · rw [if_neg hdue] at hnext
      rw [if_neg (by simpa using hdue), if_neg, hnext]
      rintro (hlast | ⟨hd, hlimit | ⟨_, y, hy, hynum⟩⟩)
      · rw [lastNum_le_iff, hnext] at hlast
        cases hlast
      · exact hover ⟨hd, hlimit⟩
      · -- a record with this number would be in front
        have hy' : y ∈ all.filter (n < ·.instNum) := by
          rw [List.mem_filter]
          exact ⟨hy, by simp only [decide_eq_true_eq]; omega⟩
        rw [hleft, ← hnext, List.mem_filter] at hy'
        simp only [decide_eq_true_eq] at hy'
        omega

/-- Over ascending records, the instructions of a pass are numbered from 1, and the records passed are those
with the numbers so far. -/
theorem after_eq (hall : all ≠ []) (hsorted : all.Pairwise (·.instNum < ·.instNum))
    (hpos : ∀ x ∈ all, 0 < x.instNum) (n : ℕ) :
    after limit all n = ⟨all.filter (inPass limit all n < ·.instNum), decide (firstPass limit all ≤ n),
      inPass limit all n⟩ := by
  have hlast : 0 < lastNum all := by
    obtain ⟨x, hx⟩ := List.exists_mem_of_ne_nil all hall
    exact lt_lastNum.mpr ⟨x, hx, hpos x hx⟩
  have hle : firstPass limit all ≤ lastNum all := firstPass_le
  induction n with
  | zero =>
    have hzero : inPass limit all 0 = 0 := by
      unfold inPass
      split_ifs <;> simp
    have hstart : firstPass limit all ≤ 0 ↔ limit = 0 := by
      unfold firstPass
      split_ifs <;> omega
    rw [hzero, filter_zero hpos, decide_eq_decide.mpr hstart]
    rfl
  | succ n ih =>
    classical
    rw [after_succ, ih]
    by_cases hfirst : n < firstPass limit all
    · have hn : inPass limit all n = n := if_pos hfirst
      rw [hn, decide_eq_false (Nat.not_le.mpr hfirst), step_pass hsorted hpos false (by omega)]
      by_cases hend : firstPass limit all = n + 1
      · have hzero : inPass limit all (n + 1) = 0 := by
          unfold inPass
          rw [if_neg (by omega), hend, Nat.sub_self, Nat.zero_mod]
        rw [if_pos ((endsPass_first hfirst).mpr hend), hzero, filter_zero hpos,
          decide_eq_true hend.le]
      · have hnext : inPass limit all (n + 1) = n + 1 := if_pos (by omega)
        rw [if_neg fun h => hend ((endsPass_first hfirst).mp h), hnext,
          decide_eq_false (by omega : ¬firstPass limit all ≤ n + 1)]
    · have hn : inPass limit all n = (n - firstPass limit all) % lastNum all := if_neg hfirst
      have hlt : inPass limit all n < lastNum all := by
        rw [hn]
        exact Nat.mod_lt _ hlast
      have hmod : inPass limit all (n + 1) = (inPass limit all n + 1) % lastNum all := by
        rw [hn, Nat.mod_add_mod]
        unfold inPass
        rw [if_neg (by omega), show n + 1 - firstPass limit all = n - firstPass limit all + 1 by omega]
      rw [decide_eq_true (Nat.not_lt.mp hfirst), step_pass hsorted hpos true hlt,
        decide_eq_true (by omega : firstPass limit all ≤ n + 1), hmod]
      by_cases hend : lastNum all ≤ inPass limit all n + 1
      · have hself : inPass limit all n + 1 = lastNum all := by omega
        rw [if_pos (endsPass_later.mpr hend), hself, Nat.mod_self, filter_zero hpos]
      · rw [if_neg fun h => hend (endsPass_later.mp h), Nat.mod_eq_of_lt (by omega)]

end Replay

/-- The core has executed its trace up to the instructions in its history. -/
structure MCore.Replays {gz : Zlib} (p : Params) (contents : String → List UInt8)
    (rest : gz.File → List UInt8) (name : String) (c : MCore gz) : Prop where
  shows : c.Shows rest name (.after p.instLimit (traceRecords (contents name)) c.rob.inserted.length)
  numbers : c.rob.inserted.map (·.2) = (List.range c.rob.inserted.length).map fun k =>
    (Replay.after p.instLimit (traceRecords (contents name)) (k + 1)).instNum

namespace MCore.Replays
variable {gz : Zlib} {contents : String → List UInt8} {rest : gz.File → List UInt8}
variable {p : Params} {c c' : MCore gz} {name : String}

theorem congr (h : c.Replays p contents rest name) (hsame : SameFront c c')
    (hinserted : c'.rob.inserted = c.rob.inserted) : c'.Replays p contents rest name := by
  refine ⟨?_, ?_⟩
  · rw [hinserted]
    exact h.shows.congr hsame
  · rw [hinserted]
    exact h.numbers

theorem step (hgz : gz.Documented contents rest) (hall : traceRecords (contents name) ≠ [])
    (h : c.Replays p contents rest name) (hfront : SameFront ((c.countInst p).passRecord p) c')
    (hinserted : c'.rob.inserted.map (·.2) = c.rob.inserted.map (·.2) ++ [c'.instNum]) :
    c'.Replays p contents rest name := by
  have hlength : c'.rob.inserted.length = c.rob.inserted.length + 1 := by
    simpa using congrArg List.length hinserted
  have hshows : c'.Shows rest name
      (.after p.instLimit (traceRecords (contents name)) (c.rob.inserted.length + 1)) := by
    rw [Replay.after_succ]
    exact (h.shows.step hgz hall).congr hfront
  refine ⟨?_, ?_⟩
  · rw [hlength]
    exact hshows
  · rw [hinserted, hlength, List.range_succ, List.map_append, h.numbers, ← hshows.instNum]
    rfl

end MCore.Replays

theorem MCore.replays_new {gz : Zlib} {contents : String → List UInt8} {rest : gz.File → List UInt8}
    {p : Params} {name : String} (hgz : gz.Documented contents rest)
    (hall : traceRecords (contents name) ≠ []) :
    (MCore.new p name : MCore gz).Replays p contents rest name := by
  have hempty : (MCore.new p name : MCore gz).rob.inserted = [] :=
    congrArg (·.rob.inserted)
      (MCore.flight_readTrace p ⟨name, gz.gzopen name, _, _, _, _, _, _, _, _, _, _, _, _⟩)
  refine ⟨?_, ?_⟩
  · rw [hempty]
    exact MCore.shows_new hgz hall
  · rw [hempty]
    rfl

namespace Point
variable {gz : Zlib} {mem : MainMemory} {p : Params} {pt pt' : Point gz mem} {s' : Sys gz mem} {i : ℕ}
variable {contents : String → List UInt8} {rest : gz.File → List UInt8} {name : String}

/-- Only its own instructions move a core in its trace. -/
theorem Change.replays (hgz : gz.Documented contents rest) (hall : traceRecords (contents name) ≠ [])
    (hpt : (pt.sys.mcore i).Replays p contents rest name) (h : pt.Change p s') :
    (s'.mcore i).Replays p contents rest name := by
  have hset (j : ℕ) {c : MCore gz} (hsame : MCore.SameFront (pt.sys.mcore j) c)
      (hinserted : c.rob.inserted = (pt.sys.mcore j).rob.inserted) :
      ((pt.sys.setCore j c).mcore i).Replays p contents rest name := by
    by_cases hj : i = j
    · subst hj
      rw [Sys.mcore_setCore]
      exact hpt.congr hsame hinserted
    · rw [Sys.mcore_setCore_of_ne _ hj]
      exact hpt
  cases h with
  | stay => exact hpt
  | startCycle j => exact hset j ⟨rfl, rfl, ⟨rfl, rfl, rfl⟩, rfl, rfl⟩ rfl
  | retire j => exact hset j ⟨rfl, rfl, ⟨rfl, rfl, rfl⟩, rfl, rfl⟩ rfl
  | retry j _ h =>
    obtain ⟨m, w, ⟨_, _, rfl⟩ | ⟨_, rfl⟩⟩ := Sys.retry_cases h
    · exact hset j ⟨rfl, rfl, ⟨rfl, rfl, rfl⟩, rfl, rfl⟩ rfl
    · exact hpt
  | issue j _ h =>
    obtain ⟨hfront, hinserted, hother⟩ := Sys.issue_core h
    by_cases hj : i = j
    · subst hj
      exact hpt.step hgz hall hfront hinserted
    · rw [hother i hj]
      exact hpt
  | callback addr h =>
    obtain ⟨e, _, _, c, hwake, rfl⟩ := Sys.memsysCallback_ok h
    unfold MCore.robWakeup at hwake
    split_ifs at hwake
    cases hwake
    exact hset e.coreid ⟨rfl, rfl, ⟨rfl, rfl, rfl⟩, rfl, rfl⟩ rfl
  | mainmem => exact hpt

end Point

/-- At every point of every run a core stands in its trace where its own instructions have brought it,
whatever the memory, the cache and the other cores do, and these instructions are those of the trace, pass
after pass. Over ascending records they are numbered from 1 within each pass, up to the instruction that
ends it, and the records of the pass that have been accessed are those with the numbers so far. -/
theorem core_replays_trace {gz : Zlib} {contents : String → List UInt8} {rest : gz.File → List UInt8}
    (hgz : gz.Documented contents rest) {mem : MainMemory} (b : Setup gz mem) (turns : List Turn)
    {pt : Point gz mem} (h : Visits (Point.next b.params) ⟨b.sys, .rest, turns⟩ pt) (i : ℕ)
    (hall : traceRecords (contents (b.traces i)) ≠ []) :
    (pt.sys.mcore i).Replays b.params contents rest (b.traces i) ∧
      ((traceRecords (contents (b.traces i))).Pairwise (·.instNum < ·.instNum) →
        (∀ x ∈ traceRecords (contents (b.traces i)), 0 < x.instNum) →
        let c := pt.sys.mcore i
        let n := c.rob.inserted.length
        let inPass := Replay.inPass b.params.instLimit (traceRecords (contents (b.traces i)))
        c.rob.inserted.map (·.2) = (List.range n).map (fun k => inPass (k + 1)) ∧
          ⟨c.traceInstNum, c.traceWb, c.traceVa⟩ :: traceRecords (rest c.addrTrace) =
            (traceRecords (contents (b.traces i))).filter (inPass n < ·.instNum)) := by
  have hreplays : (pt.sys.mcore i).Replays b.params contents rest (b.traces i) := by
    refine invariant_of_steps
      (P := fun pt => (pt.sys.mcore i).Replays b.params contents rest (b.traces i))
      (fun _ _ hpt hn => (Point.next_change hn).replays hgz hall hpt) h (MCore.replays_new hgz hall)
  refine ⟨hreplays, fun hsorted hpos => ?_⟩
  intro c n inPass
  refine ⟨?_, ?_⟩
  · rw [hreplays.numbers]
    refine List.map_congr_left fun k _ => ?_
    rw [Replay.after_eq hall hsorted hpos]
  · have hleft := hreplays.shows.left
    rw [Replay.after_eq hall hsorted hpos] at hleft
    exact hleft.symm

/-- Reads at the instructions 1, 3 and 9. -/
def threeReads :=
  directMapped smallConfig (read 1 0 ++ read 3 2 ++ read 9 4)

/-- One pass and a part of the next one. -/
theorem core_replays_trace_small : ∃ s,
    threeReads.sys.run threeReads.params [.core 0, .memory, .core 0, .memory, .core 0] = .ok s ∧
    (s.mcore 0).rob.inserted.map (·.2) = [1, 2, 3, 4, 5, 6, 7, 8, 0, 1, 2, 3] ∧
    (⟨(s.mcore 0).traceInstNum, (s.mcore 0).traceWb, (s.mcore 0).traceVa⟩ : TraceRecord) ::
      traceRecords (s.mcore 0).addrTrace.rest = [⟨9, 0, 4⟩] := by
  obtain ⟨s, hrun, hs⟩ := exists_ok_of_any
    (x := threeReads.sys.run threeReads.params [.core 0, .memory, .core 0, .memory, .core 0])
    (p := fun s => (s.mcore 0).rob.inserted.length = 12) (by decide +kernel)
  have hlength : (s.mcore 0).rob.inserted.length = 12 := of_decide_eq_true hs
  obtain ⟨_, hpass⟩ := core_replays_trace (plainFiles_documented _) threeReads
    [.core 0, .memory, .core 0, .memory, .core 0] ((Point.run_realizes _ threeReads.sys).1 s hrun) 0
    (by decide +kernel)
  obtain ⟨hnumbers, hleft⟩ := hpass (by decide +kernel) (by decide +kernel)
  rw [hlength] at hnumbers hleft
  exact ⟨s, hrun, hnumbers.trans (by decide +kernel), hleft.trans (by decide +kernel)⟩

end CactusDram.Memsim

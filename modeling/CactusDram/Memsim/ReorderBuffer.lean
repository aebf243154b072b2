import CactusDram.Memsim.MCore
import CactusDram.Foundations.Rings

/-! The reorder buffer as a ring that holds the requests of its core. -/
namespace CactusDram.Memsim
open Foundations

theorem u32_of_lt {n : ℕ} (h : n < 2 ^ 32) : u32 n = n := by
  unfold u32
  omega

/-- A request that waits for memory: its slot, its instruction, and the cycle since when. -/
structure Request where
  robid : ℕ
  instNum : ℕ
  since : ℕ
  deriving DecidableEq

/-- An entry that memory has no part in any more. -/
def ROBEntry.Settled (e : ROBEntry) : Prop :=
  e.birthTime ≤ e.readyTime ∧ e.readyTime < e.birthTime + defaultMemDelay

theorem ROBEntry.Settled.delta_lt {e : ROBEntry} (h : e.Settled) :
    u64 (e.readyTime - e.birthTime) < defaultMemDelay := by
  unfold ROBEntry.Settled defaultMemDelay at h
  unfold u64 defaultMemDelay
  omega

namespace ROB

/-- The slots in use, the oldest first. -/
def live (n : ℕ) (rob : ROB) : List ℕ := ringSlots n rob.ptr rob.size

/-- The slot of a waiting request is not ready before its time is up, and it is not up yet. -/
structure Holds (n : ℕ) (rob : ROB) (cycle : ℕ) (r : Request) : Prop where
  live : r.robid ∈ rob.live n
  instNum : (rob.entries r.robid).instNum = r.instNum
  ready : r.since + defaultMemDelay ≤ (rob.entries r.robid).readyTime
  birth : (rob.entries r.robid).birthTime = r.since
  since_le : r.since ≤ cycle
  patient : cycle < r.since + defaultMemDelay

/-- A buffer of `n` slots that holds the given requests, each in a slot of its own, and settled
instructions besides, and that retires in the order of insertion. -/
structure Sound (n : ℕ) (rob : ROB) (cycle : ℕ) (reqs : List Request) : Prop where
  ptr_lt : rob.ptr < n
  size_le : rob.size ≤ n
  holds : ∀ r ∈ reqs, rob.Holds n cycle r
  nodup : (reqs.map Request.robid).Nodup
  settled : ∀ slot ∈ rob.live n, slot ∉ reqs.map Request.robid → (rob.entries slot).Settled
  order : rob.inserted = rob.retired ++ (rob.live n).map fun slot => (slot, (rob.entries slot).instNum)

variable {n cycle : ℕ} {rob : ROB} {reqs reqs' : List Request} {r : Request}

theorem sound_empty (hn : 0 < n) : Sound n {} 0 [] where
  ptr_lt := hn
  size_le := Nat.zero_le n
  holds _ hr := nomatch hr
  nodup := List.nodup_nil
  settled _ hslot := nomatch hslot
  order := rfl

/-- A request is held as long as its slot is in use and keeps its entry. -/
theorem Holds.keep {rob' : ROB} (hr : rob.Holds n cycle r) (hlive : r.robid ∈ rob'.live n)
    (hkeep : rob'.entries r.robid = rob.entries r.robid) : rob'.Holds n cycle r where
  live := hlive
  instNum := hkeep ▸ hr.instNum
  ready := hkeep ▸ hr.ready
  birth := hkeep ▸ hr.birth
  since_le := hr.since_le
  patient := hr.patient

namespace Sound

theorem perm (h : rob.Sound n cycle reqs) (hperm : reqs.Perm reqs') : rob.Sound n cycle reqs' where
  ptr_lt := h.ptr_lt
  size_le := h.size_le
  holds r hr := h.holds r (hperm.mem_iff.mpr hr)
  nodup := (hperm.map _).nodup_iff.mp h.nodup
  settled slot hslot hnot := h.settled slot hslot fun hmem => hnot ((hperm.map _).mem_iff.mp hmem)
  order := h.order

theorem tick (h : rob.Sound n cycle reqs) (hpatient : ∀ r ∈ reqs, cycle + 1 < r.since + defaultMemDelay) :
    rob.Sound n (cycle + 1) reqs where
  ptr_lt := h.ptr_lt
  size_le := h.size_le
  holds r hr :=
    have hr' := h.holds r hr
    { hr' with since_le := hr'.since_le.trans (Nat.le_succ _), patient := hpatient r hr }
  nodup := h.nodup
  settled := h.settled
  order := h.order

theorem live_eq (h : rob.Sound n cycle reqs) (hsize : 0 < rob.size) :
    rob.live n = rob.ptr :: ringSlots n ((rob.ptr + 1) % n) (rob.size - 1) := by
  unfold live
  obtain ⟨m, hm⟩ := Nat.exists_eq_add_of_lt hsize
  rw [show rob.size = m + 1 by omega, ringSlots_pop h.ptr_lt]
  rfl

theorem not_waiting_of_ready (h : rob.Sound n cycle reqs) {slot : ℕ}
    (hready : (rob.entries slot).readyTime ≤ cycle) : slot ∉ reqs.map Request.robid := by
  intro hmem
  obtain ⟨r, hr, rfl⟩ := List.mem_map.mp hmem
  have hlow := (h.holds r hr).ready
  have hhigh := (h.holds r hr).patient
  omega

theorem head_settled (h : rob.Sound n cycle reqs) (hsize : 0 < rob.size)
    (hready : (rob.entries rob.ptr).readyTime ≤ cycle) : (rob.entries rob.ptr).Settled := by
  refine h.settled rob.ptr ?_ (h.not_waiting_of_ready hready)
  rw [h.live_eq hsize]
  exact List.mem_cons_self

/-- A ready head leaves. No request is in its slot, so all of them stay. -/
theorem pop (h : rob.Sound n cycle reqs) (hsize : 0 < rob.size)
    (hready : (rob.entries rob.ptr).readyTime ≤ cycle) :
    { rob with
      ptr := (rob.ptr + 1) % n
      size := rob.size - 1
      retired := rob.retired ++ [(rob.ptr, (rob.entries rob.ptr).instNum)] }.Sound n cycle reqs := by
  have hlive := h.live_eq hsize
  have hsub : ∀ slot ∈ ringSlots n ((rob.ptr + 1) % n) (rob.size - 1), slot ∈ rob.live n := by
    intro slot hslot
    rw [hlive]
    exact List.mem_cons_of_mem _ hslot
  refine ⟨Nat.mod_lt _ (Nat.zero_lt_of_lt h.ptr_lt), ?_, fun r hr => ?_, h.nodup,
    fun slot hslot hnot => h.settled slot (hsub slot hslot) hnot, ?_⟩
  · have hle := h.size_le
    dsimp only
    omega
  · have hholds := h.holds r hr
    refine { hholds with live := ?_ }
    have hmem := hholds.live
    rw [hlive, List.mem_cons] at hmem
    refine hmem.resolve_left fun heq => ?_
    exact h.not_waiting_of_ready hready (List.mem_map.mpr ⟨r, hr, heq⟩)
  · have horder := h.order
    rw [hlive, List.map_cons] at horder
    rw [List.append_assoc]
    exact horder

/-- The buffer with an entry put behind its last one. -/
def pushed (n : ℕ) (rob : ROB) (e : ROBEntry) : ROB :=
  { rob with
    entries := Function.update rob.entries ((rob.ptr + rob.size) % n) e
    size := rob.size + 1
    inserted := rob.inserted ++ [((rob.ptr + rob.size) % n, e.instNum)] }

theorem live_pushed (n : ℕ) (rob : ROB) (e : ROBEntry) :
    (pushed n rob e).live n = rob.live n ++ [(rob.ptr + rob.size) % n] :=
  ringSlots_push n rob.ptr rob.size

theorem pushed_of_live (hsize : rob.size < n) {slot : ℕ} (hslot : slot ∈ rob.live n) (e : ROBEntry) :
    (pushed n rob e).entries slot = rob.entries slot := by
  refine Function.update_of_ne (fun heq => ?_) _ _
  exact next_not_mem_ringSlots rob.ptr hsize (heq ▸ hslot)

theorem pushed_holds (hsize : rob.size < n) (hr : rob.Holds n cycle r) (e : ROBEntry) :
    (pushed n rob e).Holds n cycle r := by
  refine hr.keep ?_ (pushed_of_live hsize hr.live e)
  rw [live_pushed]
  exact List.mem_append_left _ hr.live

theorem order_pushed (h : rob.Sound n cycle reqs) (hsize : rob.size < n) (e : ROBEntry) :
    (pushed n rob e).inserted = (pushed n rob e).retired ++
      ((pushed n rob e).live n).map fun slot => (slot, ((pushed n rob e).entries slot).instNum) := by
  have hkeep : (rob.live n).map (fun slot => (slot, ((pushed n rob e).entries slot).instNum)) =
      (rob.live n).map fun slot => (slot, (rob.entries slot).instNum) :=
    List.map_congr_left fun slot hslot => by rw [pushed_of_live hsize hslot e]
  have hnew : ((pushed n rob e).entries ((rob.ptr + rob.size) % n)).instNum = e.instNum :=
    congrArg ROBEntry.instNum (Function.update_self _ _ _)
  rw [live_pushed, List.map_append, hkeep, List.map_cons, hnew, ← List.append_assoc]
  exact congrArg (· ++ _) h.order

theorem push (h : rob.Sound n cycle reqs) (hsize : rob.size < n) {e : ROBEntry} (he : e.Settled) :
    (pushed n rob e).Sound n cycle reqs := by
  refine ⟨h.ptr_lt, hsize, fun r hr => pushed_holds hsize (h.holds r hr) e, h.nodup,
    fun slot hslot hnot => ?_, h.order_pushed hsize e⟩
  rw [live_pushed, List.mem_append, List.mem_singleton] at hslot
  obtain hold | rfl := hslot
  · rw [pushed_of_live hsize hold]
    exact h.settled slot hold hnot
  · rw [show (pushed n rob e).entries ((rob.ptr + rob.size) % n) = e from Function.update_self _ _ _]
    exact he

/-- An instruction that goes to memory is a request from the start. -/
theorem push_request (h : rob.Sound n cycle reqs) (hsize : rob.size < n) {e : ROBEntry}
    (hbirth : e.birthTime = cycle) (hready : cycle + defaultMemDelay ≤ e.readyTime) :
    (pushed n rob e).Sound n cycle (⟨(rob.ptr + rob.size) % n, e.instNum, cycle⟩ :: reqs) := by
  have hnew : (pushed n rob e).entries ((rob.ptr + rob.size) % n) = e := Function.update_self _ _ _
  have hfresh := next_not_mem_ringSlots rob.ptr hsize
  refine ⟨h.ptr_lt, hsize, fun r hr => ?_, ?_, fun slot hslot hnot => ?_, h.order_pushed hsize e⟩
  · rw [List.mem_cons] at hr
    obtain rfl | hr := hr
    · refine ⟨?_, ?_, ?_, ?_, le_rfl, Nat.lt_add_of_pos_right (by decide)⟩
      · rw [live_pushed]
        exact List.mem_append_right _ List.mem_cons_self
      · rw [hnew]
      · rw [hnew]
        exact hready
      · rw [hnew]
        exact hbirth
    · exact pushed_holds hsize (h.holds r hr) e
  · rw [List.map_cons, List.nodup_cons]
    refine ⟨fun hmem => ?_, h.nodup⟩
    obtain ⟨r, hr, heq⟩ := List.mem_map.mp hmem
    have hlive := (h.holds r hr).live
    rw [heq] at hlive
    exact hfresh hlive
  · rw [List.map_cons, List.mem_cons, not_or] at hnot
    rw [live_pushed, List.mem_append, List.mem_singleton] at hslot
    have hold := hslot.resolve_right hnot.1
    rw [pushed_of_live hsize hold]
    exact h.settled slot hold hnot.2

theorem order_update (h : rob.Sound n cycle reqs) {slot : ℕ} {e : ROBEntry}
    (he : e.instNum = (rob.entries slot).instNum) :
    rob.inserted = rob.retired ++
      (rob.live n).map fun k => (k, (Function.update rob.entries slot e k).instNum) := by
  rw [h.order]
  congr 1
  refine List.map_congr_left fun k _ => ?_
  by_cases hk : k = slot
  · subst hk
    rw [Function.update_self, he]
  · rw [Function.update_of_ne hk]

theorem holds_update (h : rob.Sound n cycle (r :: reqs)) {r' : Request} (hr' : r' ∈ reqs)
    (e : ROBEntry) :
    { rob with entries := Function.update rob.entries r.robid e }.Holds n cycle r' := by
  have hholds := h.holds r' (List.mem_cons_of_mem _ hr')
  have hne : r'.robid ≠ r.robid := by
    intro heq
    have hnodup := h.nodup
    rw [List.map_cons, List.nodup_cons] at hnodup
    exact hnodup.1 (heq ▸ List.mem_map_of_mem hr')
  exact hholds.keep hholds.live (Function.update_of_ne hne _ _)

theorem settled_update (h : rob.Sound n cycle (r :: reqs)) {slot : ℕ} (hslot : slot ∈ rob.live n)
    (hne : slot ≠ r.robid) (hnot : slot ∉ reqs.map Request.robid) (e : ROBEntry) :
    (Function.update rob.entries r.robid e slot).Settled := by
  rw [Function.update_of_ne hne]
  refine h.settled slot hslot ?_
  rw [List.map_cons, List.mem_cons, not_or]
  exact ⟨hne, hnot⟩

/-- A callback settles the request that it answers. -/
theorem wake (h : rob.Sound n cycle (r :: reqs)) :
    { rob with
      entries := Function.update rob.entries r.robid { rob.entries r.robid with readyTime := cycle }
    }.Sound n cycle reqs := by
  have hr := h.holds r List.mem_cons_self
  refine ⟨h.ptr_lt, h.size_le, fun r' hr' => h.holds_update hr' _, ?_, fun slot hslot hnot => ?_,
    h.order_update rfl⟩
  · have hnodup := h.nodup
    rw [List.map_cons, List.nodup_cons] at hnodup
    exact hnodup.2
  · by_cases hslotr : slot = r.robid
    · subst hslotr
      have hbirth := hr.birth
      have hsince := hr.since_le
      have hpatient := hr.patient
      dsimp only
      rw [Function.update_self]
      exact ⟨by dsimp only; omega, by dsimp only; omega⟩
    · exact h.settled_update hslot hslotr hnot _

/-- A request that is sent again waits from then on. -/
theorem resend (h : rob.Sound n cycle (r :: reqs)) (lineaddr : ℕ) :
    { rob with
      entries := Function.update rob.entries r.robid
        ⟨cycle, cycle + defaultMemDelay, r.instNum, lineaddr⟩
    }.Sound n cycle (⟨r.robid, r.instNum, cycle⟩ :: reqs) := by
  have hr := h.holds r List.mem_cons_self
  refine ⟨h.ptr_lt, h.size_le, fun r' hr' => ?_, h.nodup, fun slot hslot hnot => ?_,
    h.order_update hr.instNum.symm⟩
  · rw [List.mem_cons] at hr'
    obtain rfl | hr' := hr'
    · have hnew : Function.update rob.entries r.robid
          ⟨cycle, cycle + defaultMemDelay, r.instNum, lineaddr⟩ r.robid =
          ⟨cycle, cycle + defaultMemDelay, r.instNum, lineaddr⟩ := Function.update_self _ _ _
      refine ⟨hr.live, ?_, ?_, ?_, le_rfl, Nat.lt_add_of_pos_right (by decide)⟩ <;>
        (dsimp only; rw [hnew])
    · exact h.holds_update hr' _
  · rw [List.map_cons, List.mem_cons, not_or] at hnot
    exact h.settled_update hslot hnot.1 hnot.2 _

end Sound
end ROB
end CactusDram.Memsim

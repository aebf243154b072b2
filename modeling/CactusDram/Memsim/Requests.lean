import CactusDram.Memsim.ReorderBuffer
import CactusDram.Memsim.SimulationSpec
import CactusDram.Foundations.Tables

/-! The requests that the cores wait for, in the reorder buffers and in the table of reads in flight. -/
namespace CactusDram.Memsim
open Foundations

def MSHREntry.request (e : MSHREntry) : Request := ⟨e.robid, e.instNum, e.since⟩

/-- The reads of a core that memory has taken and not answered. -/
def inflight (mshr : List MSHREntry) (i : ℕ) : List Request :=
  (mshr.filter fun e => e.coreid = i).map MSHREntry.request

theorem inflight_cons_self {mshr : List MSHREntry} {e : MSHREntry} {i : ℕ} (h : e.coreid = i) :
    inflight (e :: mshr) i = e.request :: inflight mshr i := by
  simp [inflight, h]

theorem inflight_cons_of_ne {mshr : List MSHREntry} {e : MSHREntry} {i : ℕ} (h : e.coreid ≠ i) :
    inflight (e :: mshr) i = inflight mshr i := by
  simp [inflight, h]

theorem inflight_perm {mshr mshr' : List MSHREntry} (h : mshr.Perm mshr') (i : ℕ) :
    (inflight mshr i).Perm (inflight mshr' i) :=
  (h.filter _).map _

namespace Flight

/-- The request that its core sleeps over. -/
def sleeping (f : Flight) : List Request :=
  if f.sleep then [⟨f.sleepRobid, f.sleepInstNum, f.sleepSince⟩] else []

/-- A core whose buffer holds its requests in flight and the one it sleeps over, which is the
newest entry. -/
structure Sound (p : Params) (f : Flight) (waiting : List Request) : Prop where
  rob : f.rob.Sound p.robSize f.cycle (waiting ++ f.sleeping)
  newest : f.sleep = true → (f.rob.live p.robSize).getLast? = some f.sleepRobid

/-- Between its turns a core is empty, holds the instructions of a whole cycle, or sleeps. -/
def Rested (p : Params) (f : Flight) : Prop :=
  f.rob.size = 0 ∨ p.coreWidth ≤ f.rob.size ∨ f.sleep = true

variable {p : Params} {f : Flight} {waiting waiting' : List Request}

theorem sleeping_of_awake (h : f.sleep = false) : f.sleeping = [] := by simp [sleeping, h]

theorem sleeping_of_asleep (h : f.sleep = true) :
    f.sleeping = [⟨f.sleepRobid, f.sleepInstNum, f.sleepSince⟩] := by simp [sleeping, h]

namespace Sound

theorem perm (h : f.Sound p waiting) (hperm : waiting.Perm waiting') : f.Sound p waiting' :=
  ⟨h.rob.perm (hperm.append_right _), h.newest⟩

theorem tick (h : f.Sound p waiting)
    (hpatient : ∀ r ∈ waiting ++ f.sleeping, f.cycle + 1 < r.since + defaultMemDelay) :
    { f with cycle := f.cycle + 1 }.Sound p waiting :=
  ⟨h.rob.tick hpatient, h.newest⟩

/-- A core that sleeps has something in its buffer. -/
theorem size_pos (h : f.Sound p waiting) (hsleep : f.sleep = true) : 0 < f.rob.size := by
  have hlast := h.newest hsleep
  by_contra hzero
  rw [ROB.live, Nat.eq_zero_of_not_pos hzero] at hlast
  cases hlast

theorem pop (h : f.Sound p waiting) (hsize : 0 < f.rob.size)
    (hready : (f.rob.entries f.rob.ptr).readyTime ≤ f.cycle) :
    { f with rob := { f.rob with
      ptr := (f.rob.ptr + 1) % p.robSize
      size := f.rob.size - 1
      retired := f.rob.retired ++ [(f.rob.ptr, (f.rob.entries f.rob.ptr).instNum)] } }.Sound
        p waiting := by
  refine ⟨h.rob.pop hsize hready, fun hasleep => ?_⟩
  have hsleep : f.sleep = true := hasleep
  have hlast := h.newest hsleep
  have hnot := h.rob.not_waiting_of_ready hready
  rw [h.rob.live_eq hsize] at hlast
  -- the head is ready and the sleeping entry is not, so the latter is not the last one to leave
  change (ringSlots p.robSize ((f.rob.ptr + 1) % p.robSize) (f.rob.size - 1)).getLast? = _
  cases htail : ringSlots p.robSize ((f.rob.ptr + 1) % p.robSize) (f.rob.size - 1) with
  | nil =>
    rw [htail, List.getLast?_singleton, Option.some_inj] at hlast
    refine absurd ?_ hnot
    rw [sleeping_of_asleep hsleep, List.map_append, hlast]
    exact List.mem_append_right _ List.mem_cons_self
  | cons slot rest =>
    rw [htail, List.getLast?_cons_cons] at hlast
    exact hlast

theorem push (h : f.Sound p waiting) (hawake : f.sleep = false) (hsize : f.rob.size < p.robSize)
    {e : ROBEntry} (he : e.Settled) :
    { f with rob := ROB.Sound.pushed p.robSize f.rob e }.Sound p waiting :=
  ⟨h.rob.push hsize he, fun hsleep => absurd (hawake.symm.trans hsleep) (by decide)⟩

theorem push_request (h : f.Sound p waiting) (hawake : f.sleep = false)
    (hsize : f.rob.size < p.robSize) {e : ROBEntry} (hbirth : e.birthTime = f.cycle)
    (hready : f.cycle + defaultMemDelay ≤ e.readyTime) :
    { f with rob := ROB.Sound.pushed p.robSize f.rob e }.Sound p
      (⟨(f.rob.ptr + f.rob.size) % p.robSize, e.instNum, f.cycle⟩ :: waiting) :=
  ⟨h.rob.push_request hsize hbirth hready, fun hsleep => absurd (hawake.symm.trans hsleep) (by decide)⟩

/-- The refused request is the newest entry of the buffer. -/
theorem push_asleep (h : f.Sound p waiting) (hawake : f.sleep = false)
    (hsize : f.rob.size < p.robSize) {e : ROBEntry} (hbirth : e.birthTime = f.cycle)
    (hready : f.cycle + defaultMemDelay ≤ e.readyTime) (lineaddr : ℕ) :
    { f with
      rob := ROB.Sound.pushed p.robSize f.rob e
      sleep := true
      sleepLineaddr := lineaddr
      sleepRobid := (f.rob.ptr + f.rob.size) % p.robSize
      sleepInstNum := e.instNum
      sleepSince := f.cycle }.Sound p waiting := by
  have hrob := h.rob.push_request hsize hbirth hready
  rw [sleeping_of_awake hawake, List.append_nil] at hrob
  refine ⟨hrob.perm (List.perm_append_singleton _ _).symm, fun _ => ?_⟩
  rw [ROB.Sound.live_pushed, List.getLast?_append]
  rfl

theorem resend (h : f.Sound p waiting) (hsleep : f.sleep = true) (lineaddr : ℕ) :
    { f with
      rob := { f.rob with
        entries := Function.update f.rob.entries f.sleepRobid
          ⟨f.cycle, f.cycle + defaultMemDelay, f.sleepInstNum, lineaddr⟩ }
      sleep := false }.Sound p (⟨f.sleepRobid, f.sleepInstNum, f.cycle⟩ :: waiting) := by
  have hrob := h.rob
  rw [sleeping_of_asleep hsleep] at hrob
  have hsent := (hrob.perm (List.perm_append_singleton _ _)).resend lineaddr
  refine ⟨?_, fun hawake => nomatch hawake⟩
  rw [sleeping_of_awake rfl, List.append_nil]
  exact hsent

theorem wake {r : Request} (h : f.Sound p (r :: waiting)) :
    { f with rob := { f.rob with
      entries := Function.update f.rob.entries r.robid
        { f.rob.entries r.robid with readyTime := f.cycle } } }.Sound p waiting :=
  ⟨h.rob.wake, h.newest⟩

end Sound
end Flight

namespace Sys
variable {gz : Zlib} {mem : MainMemory}

/-- Everything that a core waits for. -/
def requests (s : Sys gz mem) (i : ℕ) : List Request :=
  inflight s.mshr i ++ (s.mcore i).flight.sleeping

/-- Every core is sound, and every line is in flight once. -/
structure Sound (p : Params) (s : Sys gz mem) : Prop where
  cores : ∀ j, (s.mcore j).flight.Sound p (inflight s.mshr j)
  lines : (s.mshr.map MSHREntry.lineaddr).Nodup

variable {p : Params} {s s' : Sys gz mem} {i lineaddr : ℕ} {a : Access} {accepted goesOn : Bool}

/-- A change of one core and of its reads in flight. -/
theorem Sound.of_core (h : s.Sound p) (hcore : ∀ j ≠ i, s'.mcore j = s.mcore j)
    (hmshr : ∀ j ≠ i, inflight s'.mshr j = inflight s.mshr j)
    (hlines : (s'.mshr.map MSHREntry.lineaddr).Nodup)
    (hi : (s'.mcore i).flight.Sound p (inflight s'.mshr i)) : s'.Sound p := by
  refine ⟨fun j => ?_, hlines⟩
  by_cases hj : j = i
  · subst hj
    exact hi
  · rw [hcore j hj, hmshr j hj]
    exact h.cores j

/-- The parts of the system that the reorder buffers and the requests do not depend on. -/
theorem Sound.congr (h : s.Sound p) (hcore : ∀ j, (s'.mcore j).flight = (s.mcore j).flight)
    (hmshr : s'.mshr = s.mshr) : s'.Sound p :=
  ⟨fun j => by rw [hcore j, hmshr]; exact h.cores j, hmshr ▸ h.lines⟩

theorem flight_setCore {c : MCore gz} (hc : c.flight = (s.mcore i).flight) (j : ℕ) :
    ((s.setCore i c).mcore j).flight = (s.mcore j).flight := by
  by_cases hj : j = i
  · subst hj
    rw [mcore_setCore, hc]
  · rw [mcore_setCore_of_ne s hj]

theorem nextInst_flight (h : s.nextInst p i = .ok (lineaddr, s')) :
    (∀ j, (s'.mcore j).flight = (s.mcore j).flight) ∧ s'.mshr = s.mshr := by
  obtain ⟨c, os, rand, _, hflight, rfl⟩ := nextInst_ok h
  exact ⟨flight_setCore hflight, rfl⟩

theorem access_flight (h : s.access p i lineaddr = .ok (a, s')) :
    (∀ j, (s'.mcore j).flight = (s.mcore j).flight) ∧ s'.mshr = s.mshr := by
  obtain ⟨c, hflight, ⟨_, _, rfl | rfl⟩ | ⟨_, _, rfl⟩ | ⟨_, _, _, _, _, rfl⟩⟩ := access_cases h <;>
    exact ⟨flight_setCore hflight, rfl⟩

/-- Where the latency of the cache is below the delay that a miss is given, the delays tell the
instructions that go to memory from the others. -/
theorem access_delay (hl3 : p.l3Latency < defaultMemDelay) (h : s.access p i lineaddr = .ok (a, s')) :
    (a.memAccess = false ∧ a.delay < defaultMemDelay) ∨
      (a.memAccess = true ∧ defaultMemDelay ≤ a.delay) := by
  have hlatency : u32 (p.l3Latency : ℤ) = p.l3Latency := by
    unfold defaultMemDelay at hl3
    exact u32_of_lt (by omega)
  obtain ⟨_, _, ⟨_, rfl, _⟩ | ⟨_, rfl, _⟩ | ⟨_, _, _, _, rfl, _⟩⟩ := access_cases h
  · exact .inl ⟨rfl, by decide⟩
  · refine .inl ⟨rfl, ?_⟩
    dsimp only
    rw [hlatency]
    exact hl3
  · refine .inr ⟨rfl, ?_⟩
    dsimp only
    rw [hlatency]
    unfold defaultMemDelay at hl3 ⊢
    rw [← Nat.cast_add, u32_of_lt (by omega)]
    omega

theorem inserted_rob (hmax : p.robSize ≤ maxRobEntries) {c : MCore gz} (hptr : c.rob.ptr < p.robSize)
    (hsize : c.rob.size < p.robSize) (lineaddr delay : ℕ) :
    (inserted p c lineaddr delay).rob =
        ROB.Sound.pushed p.robSize c.rob ⟨c.cycle, c.cycle + delay, c.instNum, lineaddr⟩ ∧
      nextSlot p c = (c.rob.ptr + c.rob.size) % p.robSize := by
  unfold maxRobEntries at hmax
  have hslot : u32 (c.rob.ptr + c.rob.size : ℤ) = c.rob.ptr + c.rob.size := by
    rw [← Nat.cast_add]
    exact u32_of_lt (by omega)
  have hnext : u32 (c.rob.size + 1 : ℤ) = c.rob.size + 1 := by
    rw [← Nat.cast_succ]
    exact u32_of_lt (by omega)
  unfold inserted nextSlot ROB.Sound.pushed
  rw [hslot, hnext]
  exact ⟨rfl, rfl⟩

/-- The core that dispatches an instruction stays sound, and either goes on with one entry more or
sleeps. -/
theorem Sound.dispatch (h : s.Sound p) (hmax : p.robSize ≤ maxRobEntries)
    (hawake : (s.mcore i).sleep = false)
    (hdelay : (a.memAccess = false ∧ a.delay < defaultMemDelay) ∨
      (a.memAccess = true ∧ defaultMemDelay ≤ a.delay))
    (hd : s.dispatch p i lineaddr a = .ok (goesOn, s')) :
    s'.Sound p ∧ (∀ j ≠ i, s'.mcore j = s.mcore j) ∧
      (if goesOn then (s'.mcore i).sleep = false ∧ (s'.mcore i).rob.size = (s.mcore i).rob.size + 1
        else (s'.mcore i).sleep = true) := by
  have hi := h.cores i
  obtain ⟨hsize, hcases⟩ := dispatch_cases hd
  obtain ⟨hrob, hslot⟩ := inserted_rob hmax hi.rob.ptr_lt hsize lineaddr a.delay
  have hcount : (inserted p (s.mcore i) lineaddr a.delay).rob.size = (s.mcore i).rob.size + 1 := by
    rw [hrob]
    rfl
  obtain ⟨hmem, rfl, rfl⟩ | ⟨hmem, m, w, ⟨rfl, hnew, rfl⟩ | ⟨rfl, rfl⟩⟩ := hcases
  · have hshort : a.delay < defaultMemDelay :=
      (hdelay.resolve_right fun hlong => by simp [hmem] at hlong).2
    refine ⟨h.of_core (fun j hj => mcore_setCore_of_ne s hj _) (fun _ _ => rfl) h.lines ?_,
      fun j hj => mcore_setCore_of_ne s hj _, ?_⟩
    · rw [mcore_setCore, MCore.flight, hrob]
      exact hi.push hawake hsize ⟨Nat.le_add_right _ _, Nat.add_lt_add_left hshort _⟩
    · rw [if_pos rfl, mcore_setCore]
      exact ⟨hawake, hcount⟩
  · have hlong : defaultMemDelay ≤ a.delay :=
      (hdelay.resolve_left fun hshort => by simp [hmem] at hshort).2
    refine ⟨h.of_core (fun j hj => mcore_setCore_of_ne s hj _)
      (fun j hj => inflight_cons_of_ne hj.symm) ?_ ?_, fun j hj => mcore_setCore_of_ne s hj _, ?_⟩
    · refine List.nodup_cons.mpr ⟨fun hmem => ?_, h.lines⟩
      obtain ⟨e, he, heq⟩ := List.mem_map.mp hmem
      exact hnew e he heq
    · change ((s.setCore i _).mcore i).flight.Sound p
        (inflight (s.mshrEntry lineaddr i _ _ :: s.mshr) i)
      rw [inflight_cons_self (i := i) rfl, mcore_setCore, MCore.flight, hrob, mshrEntry, hslot]
      exact hi.push_request hawake hsize rfl (Nat.add_le_add_left hlong _)
    · rw [if_pos rfl]
      change ((s.setCore i _).mcore i).sleep = false ∧ ((s.setCore i _).mcore i).rob.size = _
      rw [mcore_setCore]
      exact ⟨hawake, hcount⟩
  · have hlong : defaultMemDelay ≤ a.delay :=
      (hdelay.resolve_left fun hshort => by simp [hmem] at hshort).2
    have hothers (j : ℕ) (hj : j ≠ i) (c c' : MCore gz) :
        ((s.setCore i c).setCore i c').mcore j = s.mcore j := by
      rw [mcore_setCore_of_ne _ hj, mcore_setCore_of_ne _ hj]
    refine ⟨h.of_core (fun j hj => hothers j hj _ _) (fun _ _ => rfl) h.lines ?_,
      fun j hj => hothers j hj _ _, ?_⟩
    · unfold fallAsleep
      dsimp only
      rw [mcore_setCore, mcore_setCore, MCore.flight, hrob, hslot]
      exact hi.push_asleep hawake hsize rfl (Nat.add_le_add_left hlong _) lineaddr
    · unfold fallAsleep
      dsimp only
      change (((s.setCore i _).setCore i _).mcore i).sleep = true
      rw [mcore_setCore]

/-- An instruction that finds room in the buffer of its core. -/
theorem Sound.issue (h : s.Sound p) (hmax : p.robSize ≤ maxRobEntries)
    (hl3 : p.l3Latency < defaultMemDelay) (hawake : (s.mcore i).sleep = false)
    (hd : s.issue p i = .ok (goesOn, s')) :
    s'.Sound p ∧ (∀ j ≠ i, (s'.mcore j).flight = (s.mcore j).flight) ∧
      (if goesOn then (s'.mcore i).sleep = false ∧ (s'.mcore i).rob.size = (s.mcore i).rob.size + 1
        else (s'.mcore i).sleep = true) := by
  obtain ⟨lineaddr, s₁, a, s₂, hnext, haccess, hd⟩ := issue_ok hd
  obtain ⟨hflight₁, hmshr₁⟩ := nextInst_flight hnext
  obtain ⟨hflight₂, hmshr₂⟩ := access_flight haccess
  have hflight (j : ℕ) : (s₂.mcore j).flight = (s.mcore j).flight := (hflight₂ j).trans (hflight₁ j)
  have hs₂ : s₂.Sound p := h.congr hflight (hmshr₂.trans hmshr₁)
  have hawake₂ : (s₂.mcore i).sleep = false := (congrArg Flight.sleep (hflight i)).trans hawake
  obtain ⟨hs', hothers, hcount⟩ := hs₂.dispatch hmax hawake₂ (access_delay hl3 haccess) hd
  refine ⟨hs', fun j hj => (congrArg MCore.flight (hothers j hj)).trans (hflight j), ?_⟩
  have hrob : (s₂.mcore i).rob = (s.mcore i).rob := congrArg Flight.rob (hflight i)
  rw [← hrob]
  exact hcount

theorem Sound.startCycle (h : s.Sound p)
    (hpatient : ∀ r ∈ s.requests i, (s.mcore i).cycle + 1 < r.since + defaultMemDelay) :
    (s.startCycle i).Sound p := by
  refine h.of_core (fun j hj => mcore_setCore_of_ne s hj _) (fun _ _ => rfl) h.lines ?_
  rw [Sys.startCycle, mcore_setCore]
  exact (h.cores i).tick hpatient

theorem popHead_flight (hmax : p.robSize ≤ maxRobEntries) {c : MCore gz} (hptr : c.rob.ptr < p.robSize)
    (hle : c.rob.size ≤ p.robSize) (hsize : 0 < c.rob.size) :
    (c.popHead p).flight = { c.flight with rob := { c.rob with
      ptr := (c.rob.ptr + 1) % p.robSize
      size := c.rob.size - 1
      retired := c.rob.retired ++ [(c.rob.ptr, (c.rob.entries c.rob.ptr).instNum)] } } := by
  unfold maxRobEntries at hmax
  have hptr' : u32 (c.rob.ptr + 1 : ℤ) = c.rob.ptr + 1 := by
    rw [← Nat.cast_succ]
    exact u32_of_lt (by omega)
  have hsize' : u32 (c.rob.size - 1 : ℤ) = c.rob.size - 1 := by
    rw [← Nat.cast_pred hsize]
    exact u32_of_lt (by omega)
  unfold MCore.popHead MCore.flight
  dsimp only
  rw [hptr', hsize']
  rfl

theorem Sound.retire (h : s.Sound p) (hmax : p.robSize ≤ maxRobEntries)
    (hsize : 0 < (s.mcore i).rob.size) (hready : (s.mcore i).head.readyTime ≤ (s.mcore i).cycle) :
    (s.setCore i ((s.mcore i).popHead p)).Sound p := by
  have hi := h.cores i
  refine h.of_core (fun j hj => mcore_setCore_of_ne s hj _) (fun _ _ => rfl) h.lines ?_
  rw [mcore_setCore, popHead_flight hmax hi.rob.ptr_lt hi.rob.size_le hsize]
  exact hi.pop hsize hready

/-- The head of a buffer that is not empty is no lost packet. -/
theorem Sound.retireHead_ne_error (h : s.Sound p) (hsize : 0 < (s.mcore i).rob.size) (e : Abort) :
    (s.mcore i).retireHead p ≠ .error e := by
  unfold MCore.retireHead
  split_ifs with hready hlost
  · have hsettled := (h.cores i).rob.head_settled hsize hready
    exact absurd hlost.1 (Nat.not_le.mpr hsettled.delta_lt)
  · exact fun h => nomatch h
  · exact fun h => nomatch h

theorem Sound.retry (h : s.Sound p) (hsleep : (s.mcore i).sleep = true)
    (hr : s.retrySleepingRequest i = .ok (accepted, s')) :
    s'.Sound p ∧ (∀ j ≠ i, s'.mcore j = s.mcore j) ∧ (s'.mcore i).sleep = !accepted := by
  obtain ⟨m, w, ⟨rfl, hnew, rfl⟩ | ⟨rfl, rfl⟩⟩ := retry_cases hr
  · refine ⟨h.of_core (fun j hj => mcore_setCore_of_ne s hj _)
      (fun j hj => inflight_cons_of_ne hj.symm) ?_ ?_, fun j hj => mcore_setCore_of_ne s hj _, ?_⟩
    · refine List.nodup_cons.mpr ⟨fun hmem => ?_, h.lines⟩
      obtain ⟨e, he, heq⟩ := List.mem_map.mp hmem
      exact hnew e he heq
    · change ((s.setCore i _).mcore i).flight.Sound p (inflight (s.mshrEntry _ i _ _ :: s.mshr) i)
      rw [inflight_cons_self (i := i) rfl, mcore_setCore]
      exact (h.cores i).resend hsleep _
    · change ((s.setCore i _).mcore i).sleep = false
      rw [mcore_setCore]
  · exact ⟨⟨h.cores, h.lines⟩, fun _ _ => rfl, hsleep⟩

/-- The slot that a callback is for still holds the instruction that waits there. -/
theorem Sound.holds (h : s.Sound p) {e : MSHREntry} (he : e ∈ s.mshr) :
    (s.mcore e.coreid).rob.Holds p.robSize (s.mcore e.coreid).cycle e.request := by
  refine (h.cores e.coreid).rob.holds _ (List.mem_append_left _ ?_)
  exact List.mem_map_of_mem (List.mem_filter.mpr ⟨he, by simp⟩)

theorem Sound.callback (h : s.Sound p) {addr : HexAddr} (hc : s.memsysCallback addr = .ok s') :
    s'.Sound p ∧ ∀ j, (s'.mcore j).rob.size = (s.mcore j).rob.size ∧
      (s'.mcore j).sleep = (s.mcore j).sleep := by
  obtain ⟨e, he, hline, c, hwake, rfl⟩ := memsysCallback_ok hc
  have hperm : s.mshr.Perm (e :: s.mshr.filter fun b => b.lineaddr ≠ addr.toNat / lineSize) := by
    rw [← hline]
    exact perm_cons_filter_ne h.lines he
  unfold MCore.robWakeup at hwake
  split_ifs at hwake with hinst
  cases hwake
  refine ⟨h.of_core (i := e.coreid) (fun j hj => mcore_setCore_of_ne s hj _) (fun j hj => ?_) ?_ ?_,
    fun j => ?_⟩
  · change inflight (s.mshr.filter _) j = _
    unfold inflight
    rw [List.filter_filter]
    congr 1
    refine List.filter_congr fun b hb => ?_
    -- a line is in flight once, so an entry of another core is for another line
    have hne : b.coreid = j → b.lineaddr ≠ addr.toNat / lineSize := by
      rintro rfl heq
      exact hj (congrArg MSHREntry.coreid
        (List.inj_on_of_nodup_map h.lines hb he (heq.trans hline.symm)))
    by_cases hcore : b.coreid = j
    · simp [hcore, hne hcore]
    · simp [hcore]
  · exact ((List.filter_sublist).map _).nodup h.lines
  · change ((s.setCore e.coreid _).mcore e.coreid).flight.Sound p (inflight (s.mshr.filter _) e.coreid)
    have hsound := (h.cores e.coreid).perm (inflight_perm hperm e.coreid)
    rw [inflight_cons_self rfl] at hsound
    rw [mcore_setCore]
    exact hsound.wake
  · by_cases hj : j = e.coreid
    · subst hj
      change ((s.setCore _ _).mcore _).rob.size = _ ∧ ((s.setCore _ _).mcore _).sleep = _
      rw [mcore_setCore]
      exact ⟨rfl, rfl⟩
    · change ((s.setCore _ _).mcore _).rob.size = _ ∧ ((s.setCore _ _).mcore _).sleep = _
      rw [mcore_setCore_of_ne s hj]
      exact ⟨rfl, rfl⟩

end Sys

end CactusDram.Memsim

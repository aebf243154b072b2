import CactusDram.Memsim.Simulation
import CactusDram.Foundations.Outcome

/-! What the functions of the simulator change. -/
namespace CactusDram.Memsim
open Foundations

/-- The part of a core that does not depend on how its trace is read. -/
structure Flight where
  rob : ROB
  cycle : ℕ
  sleep : Bool
  sleepLineaddr : ℕ
  sleepRobid : ℕ
  sleepInstNum : ℕ
  sleepSince : ℕ

def MCore.flight {gz : Zlib} (c : MCore gz) : Flight :=
  ⟨c.rob, c.cycle, c.sleep, c.sleepLineaddr, c.sleepRobid, c.sleepInstNum, c.sleepSince⟩

@[simp]
theorem MCore.flight_readTrace {gz : Zlib} (p : Params) (c : MCore gz) : (c.readTrace p).flight = c.flight := by
  unfold readTrace
  dsimp only
  split_ifs <;> rfl

theorem MCore.robInsert_ok {gz : Zlib} {p : Params} {c c' : MCore gz} {instNum cycle readyTime lineaddr robid : ℕ}
    (h : c.robInsert p instNum cycle readyTime lineaddr = .ok (robid, c')) :
    c.rob.size < p.robSize ∧ robid = u32 (c.rob.ptr + c.rob.size) % p.robSize ∧
      c' = { c with rob := { c.rob with
        entries := Function.update c.rob.entries robid ⟨cycle, readyTime, instNum, lineaddr⟩
        size := u32 (c.rob.size + 1)
        inserted := c.rob.inserted ++ [(robid, instNum)] } } := by
  unfold robInsert at h
  split_ifs at h with hsize
  cases h
  exact ⟨hsize, rfl, rfl⟩

namespace OS
variable {os os' : OS} {rand rand' : Stream' ℕ} {e : Abort}

theorem tryVictims_error {tries : ℕ} (h : os.tryVictims tries rand = .error e) : e = .noInvalidPage := by
  induction tries generalizing rand with
  | zero =>
    cases h
    rfl
  | succ tries ih =>
    unfold tryVictims at h
    dsimp only at h
    split_ifs at h
    exact ih h

theorem v2pLineaddr_error {lineaddr tid : ℕ} (h : os.v2pLineaddr rand lineaddr tid = .error e) :
    e = .noInvalidPage ∨ e = .outOfPages ∨ e = .wideVpn := by
  obtain h | ⟨_, _, h⟩ := bind_error_iff.mp h
  · unfold vpnToPfn at h
    split_ifs at h
    · dsimp only at h
      split at h
      · cases h
      · obtain h | ⟨_, _, h⟩ := bind_error_iff.mp h
        · unfold getVictimFromIpt at h
          split_ifs at h
          · obtain h | ⟨_, _, h⟩ := bind_error_iff.mp h
            · exact .inl (tryVictims_error h)
            · cases h
          · cases h
            exact .inr (.inl rfl)
        · cases h
    · cases h
      exact .inr (.inr rfl)
  · cases h

end OS

namespace Sys
variable {gz : Zlib} {mem : MainMemory} {p : Params} {s s' : Sys gz mem} {i lineaddr coreid robid instNum wb : ℕ}
  {accepted goesOn : Bool} {a : Access}

@[simp]
theorem mcore_setCore (s : Sys gz mem) (i : ℕ) (c : MCore gz) : (s.setCore i c).mcore i = c := by
  simp [setCore]

theorem mcore_setCore_of_ne (s : Sys gz mem) {i j : ℕ} (h : j ≠ i) (c : MCore gz) :
    (s.setCore i c).mcore j = s.mcore j := by
  simp [setCore, h]

def mshrEntry (s : Sys gz mem) (lineaddr coreid robid instNum : ℕ) : MSHREntry :=
  ⟨lineaddr, coreid, robid, instNum, (s.mcore coreid).cycle⟩

theorem sendRead_cases (h : s.sendRead lineaddr coreid robid instNum = .ok (accepted, s')) :
    (accepted = true ∧ s.acceptsRead lineaddr = true ∧ (∀ e ∈ s.mshr, e.lineaddr ≠ lineaddr) ∧
      s' = { s with
        mainmem := mem.addTransaction s.mainmem (byteaddress lineaddr) false
        mshr := s.mshrEntry lineaddr coreid robid instNum :: s.mshr }) ∨
    (accepted = false ∧ s.acceptsRead lineaddr = false ∧ s' = s) := by
  unfold sendRead at h
  split_ifs at h with haccept
  · obtain ⟨s₁, hinsert, h⟩ := bind_ok_iff.mp h
    cases h
    unfold mshrInsert at hinsert
    split_ifs at hinsert with hany
    cases hinsert
    refine .inl ⟨rfl, haccept, fun e he heq => hany ?_, rfl⟩
    exact List.any_eq_true.mpr ⟨e, he, by simpa using heq⟩
  · cases h
    exact .inr ⟨rfl, by simpa using haccept, rfl⟩

theorem sendRead_error {e : Abort} (h : s.sendRead lineaddr coreid robid instNum = .error e) :
    e = .mshrPresent ∧ s.acceptsRead lineaddr = true ∧ ∃ e ∈ s.mshr, e.lineaddr = lineaddr := by
  unfold sendRead at h
  split_ifs at h with haccept
  obtain h | ⟨_, _, h⟩ := bind_error_iff.mp h
  · unfold mshrInsert at h
    split_ifs at h with hany
    cases h
    obtain ⟨e, he, heq⟩ := List.any_eq_true.mp hany
    exact ⟨rfl, haccept, e, he, by simpa using heq⟩
  · cases h

theorem sendWrite_eq (s : Sys gz mem) (wb : ℕ) :
    ∃ m w, s.sendWrite wb = { s with mainmem := m, written := w } := by
  unfold sendWrite
  split_ifs <;> exact ⟨_, _, rfl⟩

theorem memsysAccess_cases (h : s.memsysAccess lineaddr coreid robid instNum wb = .ok (accepted, s')) :
    ∃ m w, (accepted = true ∧ (∀ e ∈ s.mshr, e.lineaddr ≠ lineaddr) ∧
      s' = { s with
        mainmem := m, written := w
        mshr := s.mshrEntry lineaddr coreid robid instNum :: s.mshr }) ∨
    (accepted = false ∧ s' = { s with mainmem := m, written := w }) := by
  obtain ⟨⟨b, s₁⟩, hread, h⟩ := bind_ok_iff.mp h
  cases h
  obtain ⟨m, w, hwrite⟩ := s₁.sendWrite_eq wb
  refine ⟨m, w, ?_⟩
  rw [hwrite]
  obtain ⟨rfl, _, hnew, rfl⟩ | ⟨rfl, _, rfl⟩ := sendRead_cases hread
  · exact .inl ⟨rfl, hnew, rfl⟩
  · exact .inr ⟨rfl, rfl⟩

theorem memsysAccess_error {e : Abort}
    (h : s.memsysAccess lineaddr coreid robid instNum wb = .error e) :
    e = .mshrPresent ∧ s.acceptsRead lineaddr = true ∧ ∃ e ∈ s.mshr, e.lineaddr = lineaddr := by
  obtain h | ⟨_, _, h⟩ := bind_error_iff.mp h
  · exact sendRead_error h
  · cases h

theorem retry_cases (h : s.retrySleepingRequest i = .ok (accepted, s')) :
    ∃ m w, (accepted = true ∧ (∀ e ∈ s.mshr, e.lineaddr ≠ (s.mcore i).sleepLineaddr) ∧
      s' = { s.setCore i { (s.mcore i).setEntry (s.mcore i).sleepRobid
          ⟨(s.mcore i).cycle, (s.mcore i).cycle + defaultMemDelay, (s.mcore i).sleepInstNum,
            ((s.mcore i).rob.entries (s.mcore i).sleepRobid).lineaddr⟩ with sleep := false } with
        mainmem := m, written := w
        mshr := s.mshrEntry (s.mcore i).sleepLineaddr i (s.mcore i).sleepRobid
          (s.mcore i).sleepInstNum :: s.mshr }) ∨
    (accepted = false ∧ s' = { s with mainmem := m, written := w }) := by
  obtain ⟨⟨b, s₁⟩, haccess, h⟩ := bind_ok_iff.mp h
  obtain ⟨m, w, ⟨rfl, hnew, rfl⟩ | ⟨rfl, rfl⟩⟩ := memsysAccess_cases haccess
  · cases h
    exact ⟨m, w, .inl ⟨rfl, hnew, rfl⟩⟩
  · cases h
    exact ⟨m, w, .inr ⟨rfl, rfl⟩⟩

theorem retry_error {e : Abort} (h : s.retrySleepingRequest i = .error e) :
    e = .mshrPresent ∧ ∃ e ∈ s.mshr, e.lineaddr = (s.mcore i).sleepLineaddr := by
  obtain h | ⟨⟨b, s₁⟩, _, h⟩ := bind_error_iff.mp h
  · obtain ⟨rfl, _, hmem⟩ := memsysAccess_error h
    exact ⟨rfl, hmem⟩
  · cases b <;> cases h

theorem nextInst_ok (h : s.nextInst p i = .ok (lineaddr, s')) :
    ∃ c os rand, s.os.v2pLineaddr s.rand c.traceVa i = .ok (lineaddr, os, rand) ∧
      c.flight = (s.mcore i).flight ∧ s' = { s.setCore i c with os := os, rand := rand } := by
  obtain ⟨⟨addr, os, rand⟩, hos, h⟩ := bind_ok_iff.mp h
  cases h
  refine ⟨_, os, rand, hos, ?_, rfl⟩
  split_ifs
  · exact MCore.flight_readTrace p _
  · rfl

/-- Whether an instruction misses in the cache. -/
def misses (p : Params) (s : Sys gz mem) (i lineaddr : ℕ) : Bool :=
  s.atTrace i && (s.mcore i).traceWb = 0 && !p.l3Perfect && !(s.llc.access lineaddr).1

/-- The cases of an instruction in the cache: a write or an instruction without access, a hit,
and a miss. -/
theorem access_cases (h : s.access p i lineaddr = .ok (a, s')) :
    ∃ c, c.flight = (s.mcore i).flight ∧
      ((s.misses p i lineaddr = false ∧ a = {} ∧ (s' = s.setCore i c ∨
          s' = { s.setCore i c with llc := s.llc.markDirty lineaddr })) ∨
        (s.misses p i lineaddr = false ∧ a = { delay := u32 p.l3Latency } ∧
          s' = { s.setCore i c with llc := (s.llc.access lineaddr).2 }) ∨
        s.misses p i lineaddr = true ∧ ∃ llc rand,
          (s.llc.access lineaddr).2.install s.rand lineaddr = .ok (llc, rand) ∧
          a = { delay := u32 (u32 p.l3Latency + defaultMemDelay), memAccess := true
                wbLineaddr := if llc.evictedDirtyLine then llc.evictedLineAddr else 0 } ∧
          s' = { s.setCore i c with
            llc := llc
            rand := rand
            evicted :=
              if llc.evictedDirtyLine then s.evicted ++ [llc.evictedLineAddr] else s.evicted }) := by
  unfold access at h
  split_ifs at h with htrace hwb
  · obtain ⟨⟨a₁, s₁⟩, hmark, h⟩ := bind_ok_iff.mp h
    cases hmark
    cases h
    exact ⟨_, MCore.flight_readTrace p _, .inl ⟨by simp [misses, hwb], rfl, .inr rfl⟩⟩
  · obtain ⟨⟨a₁, s₁⟩, hread, h⟩ := bind_ok_iff.mp h
    cases h
    refine ⟨((s.mcore i).readTrace p), MCore.flight_readTrace p _, .inr ?_⟩
    have hmisses : s.misses p i lineaddr = (!p.l3Perfect && !(s.llc.access lineaddr).1) := by
      simp [misses, htrace, not_not.mp hwb]
    unfold readL3 at hread
    dsimp only at hread
    split_ifs at hread with hmiss
    · obtain ⟨⟨llc, rand⟩, hinstall, hread⟩ := bind_ok_iff.mp hread
      simp only [Except.ok.injEq, Prod.mk.injEq] at hread
      obtain ⟨rfl, rfl⟩ := hread
      exact .inr ⟨hmisses.trans hmiss, llc, rand, hinstall, rfl, rfl⟩
    · cases hread
      exact .inl ⟨hmisses.trans (Bool.eq_false_iff.mpr hmiss), rfl, rfl⟩
  · cases h
    refine ⟨s.mcore i, rfl, .inl ⟨by simp [misses, htrace], rfl, .inl ?_⟩⟩
    simp [setCore]

theorem access_error {e : Abort} (h : s.access p i lineaddr = .error e) : e = .alreadyInstalled := by
  unfold access at h
  split_ifs at h with htrace hwb
  · obtain h | ⟨_, _, h⟩ := bind_error_iff.mp h <;> cases h
  · obtain h | ⟨_, _, h⟩ := bind_error_iff.mp h
    · unfold readL3 at h
      dsimp only at h
      split_ifs at h
      obtain h | ⟨_, _, h⟩ := bind_error_iff.mp h
      · unfold MCache.install at h
        split_ifs at h
        cases h
        rfl
      · cases h
    · cases h

/-- The core with its instruction in the reorder buffer. -/
def inserted (p : Params) (c : MCore gz) (lineaddr delay : ℕ) : MCore gz :=
  { c with rob := { c.rob with
    entries := Function.update c.rob.entries (u32 (c.rob.ptr + c.rob.size) % p.robSize)
      ⟨c.cycle, c.cycle + delay, c.instNum, lineaddr⟩
    size := u32 (c.rob.size + 1)
    inserted := c.rob.inserted ++ [(u32 (c.rob.ptr + c.rob.size) % p.robSize, c.instNum)] } }

def nextSlot (p : Params) (c : MCore gz) : ℕ := u32 (c.rob.ptr + c.rob.size) % p.robSize

theorem dispatch_cases (h : s.dispatch p i lineaddr a = .ok (goesOn, s')) :
    (s.mcore i).rob.size < p.robSize ∧
    ((a.memAccess = false ∧ goesOn = true ∧
        s' = s.setCore i (inserted p (s.mcore i) lineaddr a.delay)) ∨
      a.memAccess = true ∧ ∃ m w,
        (goesOn = true ∧ (∀ e ∈ s.mshr, e.lineaddr ≠ lineaddr) ∧
          s' = { s.setCore i (inserted p (s.mcore i) lineaddr a.delay) with
            mainmem := m, written := w
            mshr := s.mshrEntry lineaddr i (nextSlot p (s.mcore i)) (s.mcore i).instNum :: s.mshr }) ∨
        (goesOn = false ∧
          s' = { (s.setCore i (inserted p (s.mcore i) lineaddr a.delay)).fallAsleep i lineaddr
            (nextSlot p (s.mcore i)) with mainmem := m, written := w })) := by
  obtain ⟨⟨robid, c⟩, hinsert, h⟩ := bind_ok_iff.mp h
  obtain ⟨hsize, rfl, rfl⟩ := MCore.robInsert_ok hinsert
  refine ⟨hsize, ?_⟩
  dsimp only at h
  split_ifs at h with hmem
  · obtain ⟨⟨b, s₁⟩, haccess, h⟩ := bind_ok_iff.mp h
    refine .inr ⟨hmem, ?_⟩
    obtain ⟨m, w, ⟨rfl, hnew, rfl⟩ | ⟨rfl, rfl⟩⟩ := memsysAccess_cases haccess
    · cases h
      refine ⟨m, w, .inl ⟨rfl, hnew, ?_⟩⟩
      simp [mshrEntry, inserted, nextSlot, setCore]
    · cases h
      exact ⟨m, w, .inr ⟨rfl, rfl⟩⟩
  · cases h
    exact .inl ⟨by simpa using hmem, rfl, rfl⟩

theorem dispatch_error {e : Abort} (h : s.dispatch p i lineaddr a = .error e) :
    e = .robFull ∧ p.robSize ≤ (s.mcore i).rob.size ∨
      e = .mshrPresent ∧ a.memAccess = true ∧ ∃ e ∈ s.mshr, e.lineaddr = lineaddr := by
  obtain h | ⟨⟨robid, c⟩, hinsert, h⟩ := bind_error_iff.mp h
  · unfold MCore.robInsert at h
    split_ifs at h with hsize
    cases h
    exact .inl ⟨rfl, Nat.not_lt.mp hsize⟩
  · dsimp only at h
    split_ifs at h with hmem
    obtain h | ⟨⟨b, s₁⟩, _, h⟩ := bind_error_iff.mp h
    · obtain ⟨rfl, _, hin⟩ := memsysAccess_error h
      exact .inr ⟨rfl, hmem, hin⟩
    · cases b <;> cases h

/-- An instruction is counted, looked up and dispatched. -/
theorem issue_ok (h : s.issue p i = .ok (goesOn, s')) :
    ∃ lineaddr s₁ a s₂, s.nextInst p i = .ok (lineaddr, s₁) ∧ s₁.access p i lineaddr = .ok (a, s₂) ∧
      s₂.dispatch p i lineaddr a = .ok (goesOn, s') := by
  obtain ⟨⟨lineaddr, s₁⟩, hnext, h⟩ := bind_ok_iff.mp h
  obtain ⟨⟨a, s₂⟩, haccess, h⟩ := bind_ok_iff.mp h
  exact ⟨lineaddr, s₁, a, s₂, hnext, haccess, h⟩

theorem issue_error {e : Abort} (h : s.issue p i = .error e) :
    s.nextInst p i = .error e ∨ (∃ lineaddr s₁, s.nextInst p i = .ok (lineaddr, s₁) ∧
      (s₁.access p i lineaddr = .error e ∨ ∃ a s₂, s₁.access p i lineaddr = .ok (a, s₂) ∧
        s₂.dispatch p i lineaddr a = .error e)) := by
  obtain h | ⟨⟨lineaddr, s₁⟩, hnext, h⟩ := bind_error_iff.mp h
  · exact .inl h
  · refine .inr ⟨lineaddr, s₁, hnext, ?_⟩
    obtain h | ⟨⟨a, s₂⟩, haccess, h⟩ := bind_error_iff.mp h
    · exact .inl h
    · exact .inr ⟨a, s₂, haccess, h⟩

theorem memsysCallback_ok {addr : HexAddr} (h : s.memsysCallback addr = .ok s') :
    ∃ e ∈ s.mshr, e.lineaddr = addr.toNat / lineSize ∧ ∃ c,
      (s.mcore e.coreid).robWakeup e.robid e.instNum = .ok c ∧
      s' = { s.setCore e.coreid c with
        mshr := s.mshr.filter fun e => e.lineaddr ≠ addr.toNat / lineSize } := by
  unfold memsysCallback at h
  split at h
  next e hfind =>
    obtain ⟨c, hwake, h⟩ := bind_ok_iff.mp h
    cases h
    have hline := List.find?_some hfind
    exact ⟨e, List.mem_of_find?_eq_some hfind, by simpa using hline, c, hwake, rfl⟩
  next => cases h

theorem memsysCallback_error {addr : HexAddr} {e : Abort} (h : s.memsysCallback addr = .error e) :
    e = .mshrMissing ∨ e = .zombieWakeup ∧
      ∃ m ∈ s.mshr, ((s.mcore m.coreid).rob.entries m.robid).instNum ≠ m.instNum := by
  unfold memsysCallback at h
  split at h
  next m hfind =>
    obtain h | ⟨_, _, h⟩ := bind_error_iff.mp h
    · unfold MCore.robWakeup at h
      split_ifs at h with hinst
      cases h
      exact .inr ⟨rfl, m, List.mem_of_find?_eq_some hfind, hinst⟩
    · cases h
  next =>
    cases h
    exact .inl rfl

theorem tickMemory_ok (h : s.tickMemory = .ok s') : ∃ m, s' = { s with mainmem := m } := by
  unfold tickMemory at h
  split at h
  · cases h
    exact ⟨_, rfl⟩
  · cases h

theorem tickMemory_error {e : Abort} (h : s.tickMemory = .error e) : ∃ x, e = .mainmem x := by
  unfold tickMemory at h
  split at h
  · cases h
  · cases h
    exact ⟨_, rfl⟩

end Sys
end CactusDram.Memsim

import CactusDram.Memsim.MshrUniqueness

/-! The dirty lines that the cache gives up, and the writes that the memory takes. -/
namespace CactusDram.Memsim
open Foundations

/-- The frame that is never given out, and lines that are not in it. -/
structure OS.Reserved (os : OS) : Prop where
  ipt : os.ipt 0 = true
  pt : ∀ k pfn, os.pt k = some pfn → pfn ≠ 0
  lines : 0 < os.linesInPage

namespace OS
variable {os os' : OS} {rand rand' : Stream' ℕ} {pfn : ℕ}

theorem tryVictims_free {tries : ℕ} (h : os.tryVictims tries rand = .ok (pfn, rand')) :
    os.ipt pfn = false := by
  induction tries generalizing rand with
  | zero => cases h
  | succ tries ih =>
    unfold tryVictims at h
    dsimp only at h
    split_ifs at h with hfree
    · cases h
      exact hfree
    · exact ih h

namespace Reserved

theorem new (p : Params) (numPages : ℕ) : (OS.new p numPages).Reserved where
  ipt := rfl
  pt _ _ h := nomatch h
  lines := Nat.div_pos p.lineSize_le (by decide)

theorem getVictimFromIpt (h : os.Reserved) (hv : os.getVictimFromIpt rand = .ok (pfn, os', rand')) :
    pfn ≠ 0 ∧ os'.Reserved := by
  unfold OS.getVictimFromIpt at hv
  split_ifs at hv
  obtain ⟨⟨victim, rand₁⟩, htry, hv⟩ := bind_ok_iff.mp hv
  cases hv
  have hne : pfn ≠ 0 := by
    rintro rfl
    exact absurd (h.ipt.symm.trans (tryVictims_free htry)) (by decide)
  refine ⟨hne, ?_, h.pt, h.lines⟩
  exact (Function.update_of_ne hne.symm _ _).trans h.ipt

theorem vpnToPfn (h : os.Reserved) {vpn tid : ℕ} (hv : os.vpnToPfn rand vpn tid = .ok (pfn, os', rand')) :
    pfn ≠ 0 ∧ os'.Reserved := by
  unfold OS.vpnToPfn at hv
  split_ifs at hv
  dsimp only at hv
  split at hv
  next pfn' hpt =>
    cases hv
    exact ⟨h.pt _ _ hpt, h⟩
  next =>
    obtain ⟨⟨victim, os₁, rand₁⟩, hvictim, hv⟩ := bind_ok_iff.mp hv
    cases hv
    obtain ⟨hne, hos₁⟩ := h.getVictimFromIpt hvictim
    refine ⟨hne, hos₁.ipt, fun k q hq => ?_, hos₁.lines⟩
    dsimp only at hq
    by_cases hk : k = tid * 2 ^ 36 + vpn
    · subst hk
      rw [Function.update_self] at hq
      cases hq
      exact hne
    · rw [Function.update_of_ne hk] at hq
      exact hos₁.pt k q hq

theorem v2pLineaddr (h : os.Reserved) {va tid lineaddr : ℕ}
    (hv : os.v2pLineaddr rand va tid = .ok (lineaddr, os', rand')) :
    lineaddr ≠ 0 ∧ os'.Reserved := by
  obtain ⟨⟨pfn, os₁, rand₁⟩, hpfn, hv⟩ := bind_ok_iff.mp hv
  cases hv
  obtain ⟨hne, hos'⟩ := h.vpnToPfn hpfn
  refine ⟨?_, hos'⟩
  have hpos := Nat.mul_pos (Nat.pos_of_ne_zero hne) h.lines
  omega

end Reserved
end OS

namespace Sys
variable {gz : Zlib} {mem : MainMemory} {p : Params} {s s' : Sys gz mem} {i line wb : ℕ} {a : Access}
  {accepted goesOn : Bool}

/-- No valid line of the cache is line 0, which stands for no writeback. -/
structure Addressed (s : Sys gz mem) : Prop where
  os : s.os.Reserved
  assocs : 0 < s.llc.assocs
  tags : ∀ k, (s.llc.entries k).valid = true → (s.llc.entries k).tag ≠ 0

theorem Addressed.nextInst (h : s.Addressed) (hn : s.nextInst p i = .ok (line, s')) :
    s'.Addressed ∧ line ≠ 0 := by
  obtain ⟨c, os, rand, hos, _, rfl⟩ := nextInst_ok hn
  obtain ⟨hne, hos'⟩ := h.os.v2pLineaddr hos
  exact ⟨⟨hos', h.assocs, h.tags⟩, hne⟩

theorem Addressed.access (h : s.Addressed) (hline : line ≠ 0) (ha : s.access p i line = .ok (a, s')) :
    s'.Addressed := by
  obtain ⟨c, _, ⟨_, _, hs⟩ | ⟨_, _, rfl⟩ | ⟨_, llc, rand, hinstall, _, rfl⟩⟩ := access_cases ha
  · obtain rfl | rfl := hs
    · exact ⟨h.os, h.assocs, h.tags⟩
    · refine ⟨h.os, h.assocs.trans_eq (MCache.markDirty_geometry _ _).2.symm, fun k hvalid => ?_⟩
      obtain ⟨hv, ht⟩ := MCache.markDirty_lines s.llc line k
      exact ht ▸ h.tags k (hv ▸ hvalid)
  · refine ⟨h.os, h.assocs.trans_eq (MCache.access_geometry _ _).2.1.symm, fun k hvalid => ?_⟩
    obtain ⟨hv, _, ht⟩ := MCache.access_same s.llc line k
    exact ht ▸ h.tags k (hv ▸ hvalid)
  · have hgeometry := MCache.access_geometry s.llc line
    have hinstalled := MCache.install_spec (hgeometry.2.1 ▸ h.assocs) hinstall
    refine ⟨h.os, h.assocs.trans_eq (hinstalled.assocs.trans hgeometry.2.1).symm, fun k hvalid => ?_⟩
    · obtain htag | ⟨hold, htag⟩ := hinstalled.tags k hvalid
      · exact htag ▸ hline
      · obtain ⟨hv, _, ht⟩ := MCache.access_same s.llc line k
        exact htag ▸ ht ▸ h.tags k (hv ▸ hold)

/-- The memory once it was offered the demand read. -/
def afterRead (s : Sys gz mem) (line : ℕ) : mem.State :=
  if s.acceptsRead line then mem.addTransaction s.mainmem (byteaddress line) false else s.mainmem

/-- Whether the memory then takes the writeback. -/
def room (s : Sys gz mem) (line wb : ℕ) : Bool :=
  mem.willAcceptTransaction (s.afterRead line) (byteaddress wb) true

theorem memsysAccess_history {coreid robid instNum : ℕ}
    (h : s.memsysAccess line coreid robid instNum wb = .ok (accepted, s')) :
    s'.evicted = s.evicted ∧
      s'.written = if wb ≠ 0 ∧ s.room line wb then s.written ++ [byteaddress wb] else s.written := by
  obtain ⟨⟨b, s₁⟩, hread, h⟩ := bind_ok_iff.mp h
  cases h
  have hs₁ : s₁.evicted = s.evicted ∧ s₁.written = s.written ∧ s₁.mainmem = s.afterRead line := by
    obtain ⟨_, haccepts, _, rfl⟩ | ⟨_, haccepts, rfl⟩ := sendRead_cases hread
    · exact ⟨rfl, rfl, by rw [afterRead, if_pos haccepts]⟩
    · exact ⟨rfl, rfl, by rw [afterRead, if_neg (by simp [haccepts])]⟩
  have hroom : s₁.acceptsWrite wb = s.room line wb := by
    rw [acceptsWrite, hs₁.2.2]
    rfl
  unfold sendWrite
  rw [hroom]
  split_ifs
  · exact ⟨hs₁.1, congrArg (· ++ _) hs₁.2.1⟩
  · exact ⟨hs₁.1, hs₁.2.1⟩

/-- A retry carries no writeback. -/
theorem retry_history (h : s.retrySleepingRequest i = .ok (accepted, s')) :
    s'.evicted = s.evicted ∧ s'.written = s.written := by
  obtain ⟨⟨b, s₁⟩, haccess, h⟩ := bind_ok_iff.mp h
  have hs₁ := memsysAccess_history haccess
  rw [if_neg (by simp)] at hs₁
  cases b <;> cases h <;> exact hs₁

theorem dispatch_history (h : s.dispatch p i line a = .ok (goesOn, s')) :
    s'.evicted = s.evicted ∧
      s'.written = if a.memAccess = true ∧ a.wbLineaddr ≠ 0 ∧ s.room line a.wbLineaddr = true then
        s.written ++ [byteaddress a.wbLineaddr] else s.written := by
  obtain ⟨⟨robid, c⟩, _, h⟩ := bind_ok_iff.mp h
  dsimp only at h
  split_ifs at h with hmem
  · obtain ⟨⟨b, s₁⟩, haccess, h⟩ := bind_ok_iff.mp h
    have hs₁ := memsysAccess_history haccess
    have hs' : s'.evicted = s₁.evicted ∧ s'.written = s₁.written := by
      cases b <;> cases h <;> exact ⟨rfl, rfl⟩
    rw [hs'.1, hs'.2]
    simp only [hmem, true_and]
    exact hs₁
  · cases h
    rw [if_neg (by simp [hmem])]
    exact ⟨rfl, rfl⟩

/-- The dirty line that an instruction drives out of the cache. -/
def outgoing (p : Params) (s : Sys gz mem) (i line : ℕ) : Option ℕ :=
  let victim := (s.llc.access line).2.victim s.rand line
  if s.misses p i line && victim.valid && victim.dirty then some victim.tag else none

/-- The line that the next instruction of a core brings in, and the dirty line that leaves for it. -/
def dirtyVictim (p : Params) (s : Sys gz mem) (i : ℕ) : Option (ℕ × ℕ) :=
  match s.nextInst p i with
  | .ok (line, s) => (s.outgoing p i line).map fun tag => (line, tag)
  | .error _ => none

theorem nextInst_history (h : s.nextInst p i = .ok (line, s')) :
    s'.evicted = s.evicted ∧ s'.written = s.written ∧ s'.mainmem = s.mainmem := by
  obtain ⟨c, os, rand, _, _, rfl⟩ := nextInst_ok h
  exact ⟨rfl, rfl, rfl⟩

/-- A victim of the cache is one of its lines. -/
theorem Addressed.victim_ne (h : s.Addressed) {rand : Stream' ℕ}
    (hvalid : ((s.llc.access line).2.victim rand line).valid = true) :
    ((s.llc.access line).2.victim rand line).tag ≠ 0 := by
  unfold MCache.victim at hvalid ⊢
  obtain ⟨hv, _, ht⟩ := MCache.access_same s.llc line
    ((s.llc.access line).2.findVictim rand ((s.llc.access line).2.getIndex line)).1
  exact ht ▸ h.tags _ (hv ▸ hvalid)

/-- The instruction reports the line it drives out, and passes it on with its request. -/
theorem access_history (h : s.Addressed) (ha : s.access p i line = .ok (a, s')) :
    s'.written = s.written ∧ s'.mainmem = s.mainmem ∧
      match s.outgoing p i line with
      | none => s'.evicted = s.evicted ∧ (a.memAccess = true → a.wbLineaddr = 0)
      | some tag => s'.evicted = s.evicted ++ [tag] ∧ a.memAccess = true ∧ a.wbLineaddr = tag ∧
          tag ≠ 0 := by
  unfold outgoing
  obtain ⟨c, _, ⟨hmiss, rfl, hs'⟩ | ⟨hmiss, rfl, rfl⟩ | ⟨hmiss, llc, rand, hinstall, rfl, rfl⟩⟩ :=
    access_cases ha
  · rw [hmiss]
    obtain rfl | rfl := hs' <;> exact ⟨rfl, rfl, rfl, fun _ => rfl⟩
  · rw [hmiss]
    exact ⟨rfl, rfl, rfl, fun _ => rfl⟩
  · have hassocs := h.assocs.trans_eq (MCache.access_geometry s.llc line).2.1.symm
    have hinstalled := MCache.install_spec hassocs hinstall
    refine ⟨rfl, rfl, ?_⟩
    dsimp only
    rw [hmiss, Bool.true_and, ← hinstalled.dirty]
    by_cases hvictim : llc.evictedDirtyLine = true
    · rw [if_pos hvictim, if_pos hvictim, if_pos hvictim, hinstalled.line hvictim]
      refine ⟨rfl, rfl, rfl, h.victim_ne ?_⟩
      rw [hinstalled.dirty] at hvictim
      exact (Bool.and_eq_true_iff.mp hvictim).1
    · rw [if_neg hvictim, if_neg hvictim, if_neg hvictim]
      exact ⟨rfl, fun _ => rfl⟩

/-- The histories after an instruction: a dirty victim is reported, and written where there is
room. -/
def Wrote (s s' : Sys gz mem) : Option (ℕ × ℕ) → Prop
  | none => s'.evicted = s.evicted ∧ s'.written = s.written
  | some (line, tag) => s'.evicted = s.evicted ++ [tag] ∧
    s'.written = if s.room line tag then s.written ++ [byteaddress tag] else s.written

theorem issue_history (h : s.Addressed) (hi : s.issue p i = .ok (goesOn, s')) :
    s'.Addressed ∧ Wrote s s' (s.dirtyVictim p i) := by
  obtain ⟨line, s₁, a, s₂, hn, ha, hd⟩ := issue_ok hi
  obtain ⟨hs₁, hline⟩ := h.nextInst hn
  have hs₂ := hs₁.access hline ha
  have hs' : s'.Addressed := by
    obtain ⟨_, ⟨_, _, rfl⟩ | ⟨_, m, w, ⟨_, _, rfl⟩ | ⟨_, rfl⟩⟩⟩ := dispatch_cases hd <;>
      exact ⟨hs₂.os, hs₂.assocs, hs₂.tags⟩
  refine ⟨hs', ?_⟩
  obtain ⟨hevicted₁, hwritten₁, hmem₁⟩ := nextInst_history hn
  obtain ⟨hwritten₂, hmem₂, hout⟩ := access_history hs₁ ha
  obtain ⟨hevicted, hwritten⟩ := dispatch_history hd
  have hroom (wb : ℕ) : s₂.room line wb = s.room line wb := by
    rw [room, afterRead, acceptsRead, hmem₂, hmem₁]
    rfl
  rw [dirtyVictim, hn]
  dsimp only
  rw [hwritten₂, hwritten₁] at hwritten
  cases hcase : s₁.outgoing p i line with
  | none =>
    rw [hcase] at hout
    rw [if_neg fun hwb => hwb.2.1 (hout.2 hwb.1)] at hwritten
    exact ⟨hevicted.trans (hout.1.trans hevicted₁), hwritten⟩
  | some tag =>
    rw [hcase] at hout
    obtain ⟨hevicted₂, hmem, rfl, hne⟩ := hout
    refine ⟨hevicted.trans (hevicted₂.trans (by rw [hevicted₁])), hwritten.trans ?_⟩
    simp only [hmem, hne, hroom, true_and, ne_eq, not_false_eq_true]

/-- The memory has room for what the next instruction of a core writes back. -/
def HasRoom (p : Params) (s : Sys gz mem) (i : ℕ) : Prop :=
  ∀ line tag, s.dirtyVictim p i = some (line, tag) → s.room line tag = true

end Sys

namespace Point
variable {gz : Zlib} {mem : MainMemory} {p : Params} {pt pt' : Point gz mem}

/-- Each dirty victim of the next instruction finds room in the memory. -/
def HasRoom (p : Params) (pt : Point gz mem) : Prop := ∀ i, pt.Issues p i → pt.sys.HasRoom p i

/-- All dirty lines that were reported so far were written, each once and in order. -/
def AllWritten (pt : Point gz mem) : Prop :=
  pt.sys.written = pt.sys.evicted.map Sys.byteaddress

theorem addressed_start (b : Setup gz mem) (hassocs : 0 < b.assocs) : b.sys.Addressed :=
  ⟨.new _ _, hassocs, fun _ hvalid => nomatch hvalid⟩

/-- A step leaves the histories alone, or adds to them what an instruction drives out. -/
theorem next_history (h : pt.sys.Addressed) (hn : pt.next p = .ok (some pt')) :
    pt'.sys.Addressed ∧
      (Sys.Wrote pt.sys pt'.sys none ∨
        ∃ i, pt.Issues p i ∧ Sys.Wrote pt.sys pt'.sys (pt.sys.dirtyVictim p i)) := by
  generalize hs : pt'.sys = s'
  cases hs ▸ next_change hn with
  | stay | startCycle i | retire i | mainmem m => exact ⟨⟨h.os, h.assocs, h.tags⟩, .inl ⟨rfl, rfl⟩⟩
  | retry i hsleep hretry =>
    refine ⟨?_, .inl (Sys.retry_history hretry)⟩
    obtain ⟨m, w, ⟨_, _, rfl⟩ | ⟨_, rfl⟩⟩ := Sys.retry_cases hretry <;>
      exact ⟨h.os, h.assocs, h.tags⟩
  | issue i hissues hissue =>
    obtain ⟨hs', hwrote⟩ := Sys.issue_history h hissue
    exact ⟨hs', .inr ⟨i, hissues, hwrote⟩⟩
  | callback addr hcallback =>
    obtain ⟨e, _, _, c, _, rfl⟩ := Sys.memsysCallback_ok hcallback
    exact ⟨⟨h.os, h.assocs, h.tags⟩, .inl ⟨rfl, rfl⟩⟩

theorem allWritten_next (h : pt.sys.Addressed) (hall : pt.AllWritten) (hroom : pt.HasRoom p)
    (hn : pt.next p = .ok (some pt')) : pt'.AllWritten := by
  unfold AllWritten at hall ⊢
  obtain ⟨_, ⟨hevicted, hwritten⟩ | ⟨i, hissues, hwrote⟩⟩ := next_history h hn
  · rw [hevicted, hwritten, hall]
  · have hroom := hroom i hissues
    cases hcase : pt.sys.dirtyVictim p i with
    | none =>
      rw [hcase] at hwrote
      rw [hwrote.1, hwrote.2, hall]
    | some victim =>
      obtain ⟨line, tag⟩ := victim
      rw [hcase] at hwrote
      rw [hwrote.1, hwrote.2, if_pos (hroom line tag hcase), hall, List.map_append]
      rfl

/-- A dirty victim that finds no room is missing from the writes for good. -/
theorem hasRoom_of_allWritten (h : pt.sys.Addressed) (hall : pt.AllWritten) (hall' : pt'.AllWritten)
    (hn : pt.next p = .ok (some pt')) : pt.HasRoom p := by
  intro i hissues line tag hvictim
  obtain ⟨goesOn, hissue⟩ := next_of_issues hissues hn
  have hwrote := (Sys.issue_history h hissue).2
  rw [hvictim] at hwrote
  by_contra hfull
  have hlength := congrArg List.length hall'
  have hbefore := congrArg List.length hall
  rw [hwrote.1, hwrote.2, if_neg hfull] at hlength
  simp only [List.length_map, List.length_append, List.length_cons, List.length_nil] at hlength hbefore
  omega

/-- The test of a point for room, as the memory answers it. -/
def hasRoom (p : Params) (pt : Point gz mem) : Bool :=
  match pt.phase with
  | .issuing i (_ + 1) => (pt.sys.dirtyVictim p i).all fun r => pt.sys.room r.1 r.2
  | _ => true

theorem hasRoom_of_test (h : pt.hasRoom p = true) : pt.HasRoom p := by
  rintro i ⟨⟨n, hphase⟩, _⟩ line tag hvictim
  rw [hasRoom, hphase] at h
  simpa [hvictim] using h

end Point

/-- Every dirty line that the cache reports is written to the memory, each once and in order, exactly
if at each such eviction the memory has room for the write after it was offered the demand read. -/
theorem dirty_lines_written_iff {gz : Zlib} {mem : MainMemory} (b : Setup gz mem) (hassocs : 0 < b.assocs)
    (turns : List Turn) :
    (∀ pt, Visits (Point.next b.params) ⟨b.sys, .rest, turns⟩ pt →
      pt.sys.written = pt.sys.evicted.map Sys.byteaddress) ↔
    ∀ pt pt', Visits (Point.next b.params) ⟨b.sys, .rest, turns⟩ pt →
      pt.next b.params = .ok (some pt') → pt.HasRoom b.params := by
  have haddressed : ∀ pt, Visits (Point.next b.params) ⟨b.sys, .rest, turns⟩ pt →
      pt.sys.Addressed := by
    intro pt hvisit
    exact hvisit.induct (P := fun pt => pt.sys.Addressed)
      (fun _ _ h _ hn => (Point.next_history h hn).1) (fun _ _ => trivial)
      (Point.addressed_start b hassocs)
  constructor
  · intro hall pt pt' hvisit hn
    exact Point.hasRoom_of_allWritten (haddressed pt hvisit) (hall pt hvisit)
      (hall pt' (hvisit.tail hn)) hn
  · intro hroom pt hvisit
    have hboth : pt.sys.Addressed ∧ pt.AllWritten := by
      refine hvisit.induct (P := fun pt => pt.sys.Addressed ∧ pt.AllWritten) (fun t u h hq hn => ?_)
        (fun t ht => fun u hn => hroom t u ht hn) ⟨Point.addressed_start b hassocs, rfl⟩
      exact ⟨(Point.next_history h.1 hn).1, Point.allWritten_next h.1 h.2 (hq u hn) hn⟩
    exact hboth.2

/-- One channel whose queues hold two transactions each. -/
def shortQueues : Config := { smallConfig with transQueueSize := 2 }

/-- Lines of one set, each read and then written. -/
def streaming :=
  directMapped shortQueues (read 1 0 ++ write 2 0 ++ read 3 16 ++ write 4 16 ++ read 5 32 ++
    write 6 32 ++ read 7 48)

theorem dirty_lines_written_iff_streaming :
    ∃ s, streaming.sys.run streaming.params [.core 0] = .ok s ∧ s.evicted = [64] ∧
      s.written = s.evicted.map Sys.byteaddress := by
  obtain ⟨s, hrun, hs⟩ := exists_ok_of_any (x := streaming.sys.run streaming.params [.core 0])
    (p := fun s => s.evicted = [64]) (by decide +kernel)
  refine ⟨s, hrun, of_decide_eq_true hs, ?_⟩
  refine (dirty_lines_written_iff streaming (by decide) [.core 0]).mpr (fun pt pt' hvisit _ => ?_)
    ⟨s, .rest, []⟩ ((Point.run_realizes [.core 0] streaming.sys).1 s hrun)
  exact hvisit.of_passes (n := 40) (Point.hasRoom {}) (fun _ => false)
    (fun _ h => Point.hasRoom_of_test h) (fun _ _ h => nomatch h) (by decide +kernel)

/-- In its second cycle the core drives out two dirty lines. The write buffer takes the first of them
and is full for the other, which is lost, while the demand read is put to sleep. -/
theorem dirty_line_lost :
    ∃ s, streaming.sys.run streaming.params [.core 0, .memory, .core 0] = .ok s ∧
      s.evicted = [64, 80, 96] ∧ s.written = [64, 80].map Sys.byteaddress ∧
      (s.mcore 0).sleep = true := by
  obtain ⟨s, hrun, hs⟩ := exists_ok_of_any
    (x := streaming.sys.run streaming.params [.core 0, .memory, .core 0])
    (p := fun s => s.evicted = [64, 80, 96] ∧ s.written = [64, 80].map Sys.byteaddress ∧
      (s.mcore 0).sleep = true) (by decide +kernel)
  exact ⟨s, hrun, of_decide_eq_true hs⟩

end CactusDram.Memsim

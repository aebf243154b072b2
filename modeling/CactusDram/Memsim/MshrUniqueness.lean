import CactusDram.Memsim.Requests
import CactusDram.Memsim.CacheSpec
import CactusDram.Memsim.Points
import CactusDram.Memsim.DRAMSystem

/-! A line is in flight once, as long as the cache keeps the lines that memory has yet to answer. -/
namespace CactusDram.Memsim
open Foundations

namespace Sys
variable {gz : Zlib} {mem : MainMemory}

/-- The line that a core sleeps over. -/
def sleepLine (s : Sys gz mem) (j : ℕ) : Option ℕ :=
  if (s.mcore j).sleep then some (s.mcore j).sleepLineaddr else none

/-- The lines that memory has yet to answer, or yet to take. -/
def Busy (s : Sys gz mem) (line : ℕ) : Prop :=
  (∃ e ∈ s.mshr, e.lineaddr = line) ∨ ∃ j, s.sleepLine j = some line

/-- The line that the next instruction of a core brings in, and the entry whose place it takes. -/
def replaced (p : Params) (s : Sys gz mem) (i : ℕ) : Option (ℕ × MCacheEntry) :=
  match s.nextInst p i with
  | .ok (lineaddr, s) =>
    if s.misses p i lineaddr then some (lineaddr, (s.llc.access lineaddr).2.victim s.rand lineaddr)
    else none
  | .error _ => none

/-- Every busy line is in the cache, and busy in one way only. -/
structure Tracked (s : Sys gz mem) : Prop where
  assocs : 0 < s.llc.assocs
  held : ∀ line, s.Busy line → s.llc.probe line = true
  lines : (s.mshr.map MSHREntry.lineaddr).Nodup
  apart : ∀ j line, s.sleepLine j = some line → ∀ e ∈ s.mshr, e.lineaddr ≠ line
  sleepers : ∀ j k line, s.sleepLine j = some line → s.sleepLine k = some line → j = k

variable {p : Params} {s s' : Sys gz mem} {i line : ℕ} {e : MSHREntry} {accepted goesOn : Bool}
  {a : Access}

theorem sleepLine_setCore (s : Sys gz mem) {c : MCore gz} (hsleep : c.sleep = (s.mcore i).sleep)
    (hline : c.sleepLineaddr = (s.mcore i).sleepLineaddr) (j : ℕ) :
    (s.setCore i c).sleepLine j = s.sleepLine j := by
  by_cases hj : j = i
  · subst hj
    rw [sleepLine, mcore_setCore, hsleep, hline]
    rfl
  · rw [sleepLine, mcore_setCore_of_ne s hj]
    rfl

namespace Tracked

/-- Fewer reads in flight, in a cache that keeps the busy lines. -/
theorem keep (h : s.Tracked) (hassocs : s'.llc.assocs = s.llc.assocs)
    (hmshr : s'.mshr.Sublist s.mshr) (hsleep : ∀ j, s'.sleepLine j = s.sleepLine j)
    (hheld : ∀ line, s.Busy line → s'.llc.probe line = true) : s'.Tracked where
  assocs := hassocs ▸ h.assocs
  held line hbusy := by
    refine hheld line (hbusy.imp ?_ ?_)
    · rintro ⟨e, he, heq⟩
      exact ⟨e, hmshr.subset he, heq⟩
    · rintro ⟨j, hj⟩
      exact ⟨j, hsleep j ▸ hj⟩
  lines := (hmshr.map _).nodup h.lines
  apart j line hj e he := h.apart j line (hsleep j ▸ hj) e (hmshr.subset he)
  sleepers j k line hj hk := h.sleepers j k line (hsleep j ▸ hj) (hsleep k ▸ hk)

theorem keep_cache (h : s.Tracked) (hllc : s'.llc = s.llc) (hmshr : s'.mshr.Sublist s.mshr)
    (hsleep : ∀ j, s'.sleepLine j = s.sleepLine j) : s'.Tracked :=
  h.keep (congrArg MCache.assocs hllc) hmshr hsleep fun line hbusy => hllc ▸ h.held line hbusy

/-- A line of the cache that is not busy goes to memory. -/
theorem send (h : s.Tracked) (hnew : ¬s.Busy e.lineaddr) (hin : s.llc.probe e.lineaddr = true)
    (hllc : s'.llc = s.llc) (hmshr : s'.mshr = e :: s.mshr)
    (hsleep : ∀ j, s'.sleepLine j = s.sleepLine j) : s'.Tracked where
  assocs := hllc ▸ h.assocs
  held line hbusy := by
    rw [hllc]
    obtain ⟨e', he', rfl⟩ | ⟨j, hj⟩ := hbusy
    · rw [hmshr] at he'
      obtain rfl | he' := List.mem_cons.mp he'
      · exact hin
      · exact h.held _ (.inl ⟨e', he', rfl⟩)
    · exact h.held line (.inr ⟨j, hsleep j ▸ hj⟩)
  lines := by
    rw [hmshr, List.map_cons, List.nodup_cons]
    refine ⟨fun hmem => hnew ?_, h.lines⟩
    obtain ⟨e', he', heq⟩ := List.mem_map.mp hmem
    exact .inl ⟨e', he', heq⟩
  apart j line hj e' he' := by
    rw [hsleep j] at hj
    rw [hmshr] at he'
    obtain rfl | he' := List.mem_cons.mp he'
    · rintro rfl
      exact hnew (.inr ⟨j, hj⟩)
    · exact h.apart j line hj e' he'
  sleepers j k line hj hk := h.sleepers j k line (hsleep j ▸ hj) (hsleep k ▸ hk)

/-- A core falls asleep over a line of the cache that is not busy. -/
theorem sleep (h : s.Tracked) (hnew : ¬s.Busy line) (hin : s.llc.probe line = true)
    (hllc : s'.llc = s.llc) (hmshr : s'.mshr = s.mshr)
    (hsleep : ∀ j ≠ i, s'.sleepLine j = s.sleepLine j) (hi : s'.sleepLine i = some line) :
    s'.Tracked := by
  have hcases : ∀ j l, s'.sleepLine j = some l → (j = i ∧ l = line) ∨ s.sleepLine j = some l := by
    intro j l hj
    by_cases hji : j = i
    · subst hji
      exact .inl ⟨rfl, Option.some_inj.mp (hj.symm.trans hi)⟩
    · exact .inr (hsleep j hji ▸ hj)
  refine ⟨hllc ▸ h.assocs, fun l hbusy => ?_, hmshr ▸ h.lines, fun j l hj e he => ?_,
    fun j k l hj hk => ?_⟩
  · rw [hllc]
    obtain ⟨e, he, rfl⟩ | ⟨j, hj⟩ := hbusy
    · exact h.held _ (.inl ⟨e, hmshr ▸ he, rfl⟩)
    · obtain ⟨_, rfl⟩ | hj := hcases j l hj
      · exact hin
      · exact h.held l (.inr ⟨j, hj⟩)
  · rw [hmshr] at he
    obtain ⟨_, rfl⟩ | hj := hcases j l hj
    · rintro rfl
      exact hnew (.inl ⟨e, he, rfl⟩)
    · exact h.apart j l hj e he
  · obtain ⟨rfl, rfl⟩ | hj := hcases j l hj
    · obtain ⟨rfl, _⟩ | hk := hcases k l hk
      · rfl
      · exact absurd (.inr ⟨k, hk⟩) hnew
    · obtain ⟨rfl, rfl⟩ | hk := hcases k l hk
      · exact absurd (.inr ⟨j, hj⟩) hnew
      · exact h.sleepers j k l hj hk

/-- A core wakes up, its line being taken by memory. -/
theorem wake (h : s.Tracked) (hi : s.sleepLine i = some e.lineaddr) (hllc : s'.llc = s.llc)
    (hmshr : s'.mshr = e :: s.mshr) (hsleep : ∀ j ≠ i, s'.sleepLine j = s.sleepLine j)
    (hi' : s'.sleepLine i = none) : s'.Tracked := by
  have hcases : ∀ j l, s'.sleepLine j = some l → j ≠ i ∧ s.sleepLine j = some l := by
    intro j l hj
    have hji : j ≠ i := by
      rintro rfl
      rw [hi'] at hj
      cases hj
    exact ⟨hji, hsleep j hji ▸ hj⟩
  refine ⟨hllc ▸ h.assocs, fun l hbusy => ?_, ?_, fun j l hj e' he' => ?_, fun j k l hj hk => ?_⟩
  · rw [hllc]
    obtain ⟨e', he', rfl⟩ | ⟨j, hj⟩ := hbusy
    · rw [hmshr] at he'
      obtain rfl | he' := List.mem_cons.mp he'
      · exact h.held _ (.inr ⟨i, hi⟩)
      · exact h.held _ (.inl ⟨e', he', rfl⟩)
    · exact h.held l (.inr ⟨j, (hcases j l hj).2⟩)
  · rw [hmshr, List.map_cons, List.nodup_cons]
    refine ⟨fun hmem => ?_, h.lines⟩
    obtain ⟨e', he', heq⟩ := List.mem_map.mp hmem
    exact h.apart i _ hi e' he' heq
  · obtain ⟨hji, hj⟩ := hcases j l hj
    rw [hmshr] at he'
    obtain rfl | he' := List.mem_cons.mp he'
    · rintro rfl
      exact hji (h.sleepers j i _ hj hi)
    · exact h.apart j l hj e' he'
  · exact h.sleepers j k l (hcases j l hj).2 (hcases k l hk).2

theorem not_busy_of_miss (h : s.Tracked) (hmiss : s.misses p i line = true) : ¬s.Busy line := by
  intro hbusy
  have hprobe := h.held line hbusy
  rw [misses, MCache.access_fst, hprobe] at hmiss
  simp at hmiss

/-- Where no busy line has to leave the cache, the lines stay tracked, and one that misses is in the
cache afterwards but not busy. -/
theorem access (h : s.Tracked)
    (hspare : s.misses p i line = true → ((s.llc.access line).2.victim s.rand line).valid = true →
      ¬s.Busy ((s.llc.access line).2.victim s.rand line).tag)
    (ha : s.access p i line = .ok (a, s')) :
    s'.Tracked ∧ (a.memAccess = true → ¬s'.Busy line ∧ s'.llc.probe line = true) := by
  obtain ⟨c, hflight, ⟨_, rfl, hs⟩ | ⟨_, rfl, rfl⟩ | ⟨hmiss, llc, rand, hinstall, rfl, rfl⟩⟩ :=
    access_cases ha
  · have hsleep (j : ℕ) := s.sleepLine_setCore (i := i) (congrArg Flight.sleep hflight)
      (congrArg Flight.sleepLineaddr hflight) j
    refine ⟨?_, fun hmem => nomatch hmem⟩
    obtain rfl | rfl := hs
    · exact h.keep_cache rfl (List.Sublist.refl _) hsleep
    · refine h.keep (MCache.markDirty_geometry _ _).2 (List.Sublist.refl _) hsleep fun l hl => ?_
      exact (MCache.probe_markDirty _ _ l).trans (h.held l hl)
  · have hsleep (j : ℕ) := s.sleepLine_setCore (i := i) (congrArg Flight.sleep hflight)
      (congrArg Flight.sleepLineaddr hflight) j
    refine ⟨?_, fun hmem => nomatch hmem⟩
    refine h.keep (MCache.access_geometry _ _).2.1 (List.Sublist.refl _) hsleep fun l hl => ?_
    exact (MCache.probe_access _ _ l).trans (h.held l hl)
  · have hsleep (j : ℕ) := s.sleepLine_setCore (i := i) (congrArg Flight.sleep hflight)
      (congrArg Flight.sleepLineaddr hflight) j
    have hgeometry := MCache.access_geometry s.llc line
    have hinstalled := MCache.install_spec (hgeometry.2.1 ▸ h.assocs) hinstall
    refine ⟨h.keep (hinstalled.assocs.trans hgeometry.2.1) (List.Sublist.refl _) hsleep fun l hl => ?_,
      fun _ => ⟨fun hbusy => h.not_busy_of_miss hmiss ?_, hinstalled.held⟩⟩
    · refine hinstalled.kept l ((MCache.probe_access _ _ l).trans (h.held l hl)) fun hvalid htag => ?_
      exact hspare hmiss hvalid (htag ▸ hl)
    · refine hbusy.imp id ?_
      rintro ⟨j, hj⟩
      exact ⟨j, hsleep j ▸ hj⟩

/-- With the line of a miss in the cache and not busy, dispatching it succeeds. -/
theorem dispatch (h : s.Tracked)
    (hmiss : a.memAccess = true → ¬s.Busy line ∧ s.llc.probe line = true)
    (hd : s.dispatch p i line a = .ok (goesOn, s')) : s'.Tracked := by
  obtain ⟨_, ⟨_, _, rfl⟩ | ⟨hmem, m, w, ⟨_, _, rfl⟩ | ⟨_, rfl⟩⟩⟩ := dispatch_cases hd
  · exact h.keep_cache rfl (List.Sublist.refl _) (s.sleepLine_setCore rfl rfl)
  · obtain ⟨hnew, hin⟩ := hmiss hmem
    exact h.send (e := s.mshrEntry line i _ _) hnew hin rfl rfl (s.sleepLine_setCore rfl rfl)
  · obtain ⟨hnew, hin⟩ := hmiss hmem
    refine h.sleep (i := i) hnew hin rfl rfl (fun j hj => ?_) ?_
    · change ((s.setCore i _).setCore i _).sleepLine j = _
      rw [sleepLine, mcore_setCore_of_ne _ hj, mcore_setCore_of_ne _ hj]
      rfl
    · change ((s.setCore i _).setCore i _).sleepLine i = _
      rw [sleepLine, mcore_setCore]
      rfl

theorem retry (h : s.Tracked) (hsleep : (s.mcore i).sleep = true)
    (hr : s.retrySleepingRequest i = .ok (accepted, s')) : s'.Tracked := by
  have hi : s.sleepLine i = some (s.mcore i).sleepLineaddr := by rw [sleepLine, if_pos hsleep]
  obtain ⟨m, w, ⟨_, _, rfl⟩ | ⟨_, rfl⟩⟩ := retry_cases hr
  · refine h.wake (e := s.mshrEntry _ i _ _) hi rfl rfl (fun j hj => ?_) ?_
    · change (s.setCore i _).sleepLine j = _
      rw [sleepLine, mcore_setCore_of_ne s hj]
      rfl
    · change (s.setCore i _).sleepLine i = _
      rw [sleepLine, mcore_setCore]
      rfl
  · exact h.keep_cache rfl (List.Sublist.refl _) fun _ => rfl

theorem callback (h : s.Tracked) {addr : HexAddr} (hc : s.memsysCallback addr = .ok s') :
    s'.Tracked := by
  obtain ⟨e, _, _, c, hwake, rfl⟩ := memsysCallback_ok hc
  unfold MCore.robWakeup at hwake
  split_ifs at hwake
  cases hwake
  exact h.keep_cache rfl List.filter_sublist (s.sleepLine_setCore rfl rfl)

/-- What the next instruction replaces, after it was counted and translated. -/
theorem replaced_of_nextInst (h : s.nextInst p i = .ok (line, s')) :
    s.replaced p i = if s'.misses p i line then
      some (line, (s'.llc.access line).2.victim s'.rand line) else none := by
  rw [replaced, h]

theorem nextInst (h : s.Tracked) (hn : s.nextInst p i = .ok (line, s')) :
    s'.Tracked ∧ ∀ l, s'.Busy l → s.Busy l := by
  obtain ⟨c, os, rand, _, hflight, rfl⟩ := nextInst_ok hn
  have hsleep (j : ℕ) := s.sleepLine_setCore (i := i) (congrArg Flight.sleep hflight)
    (congrArg Flight.sleepLineaddr hflight) j
  refine ⟨h.keep_cache rfl (List.Sublist.refl _) hsleep, fun l hbusy => hbusy.imp id ?_⟩
  rintro ⟨j, hj⟩
  exact ⟨j, hsleep j ▸ hj⟩

end Tracked

/-- An instruction leaves the other cores awake or asleep as they are. -/
theorem sleepLine_issue (hi : s.issue p i = .ok (goesOn, s')) {j : ℕ} (hj : j ≠ i) :
    s'.sleepLine j = s.sleepLine j := by
  obtain ⟨line, s₁, a, s₂, hn, ha, hd⟩ := issue_ok hi
  have hflight : (s₂.mcore j).flight = (s.mcore j).flight :=
    ((access_flight ha).1 j).trans ((nextInst_flight hn).1 j)
  have hsame : s₂.sleepLine j = s.sleepLine j := by
    have hsleep : (s₂.mcore j).sleep = (s.mcore j).sleep := congrArg Flight.sleep hflight
    have hline : (s₂.mcore j).sleepLineaddr = (s.mcore j).sleepLineaddr :=
      congrArg Flight.sleepLineaddr hflight
    rw [sleepLine, sleepLine, hsleep, hline]
  rw [← hsame]
  obtain ⟨_, ⟨_, _, rfl⟩ | ⟨_, m, w, ⟨_, _, rfl⟩ | ⟨_, rfl⟩⟩⟩ := dispatch_cases hd
  · exact s₂.sleepLine_setCore (by rfl) (by rfl) j
  · exact s₂.sleepLine_setCore (by rfl) (by rfl) j
  · change ((s₂.setCore i _).setCore i _).sleepLine j = _
    rw [sleepLine, mcore_setCore_of_ne _ hj, mcore_setCore_of_ne _ hj]
    rfl

/-- The next instruction of a core evicts no busy line. -/
def SparesBusy (p : Params) (s : Sys gz mem) (i : ℕ) : Prop :=
  ∀ line e, s.replaced p i = some (line, e) → e.valid = true → ¬s.Busy e.tag

namespace Tracked

theorem replaced_spares (h : s.Tracked) (hspare : s.SparesBusy p i)
    (hn : s.nextInst p i = .ok (line, s')) (hmiss : s'.misses p i line = true)
    (hvalid : ((s'.llc.access line).2.victim s'.rand line).valid = true) :
    ¬s'.Busy ((s'.llc.access line).2.victim s'.rand line).tag := by
  intro hbusy
  refine hspare line _ ?_ hvalid ((h.nextInst hn).2 _ hbusy)
  rw [replaced_of_nextInst hn, if_pos hmiss]

theorem issue (h : s.Tracked) (hspare : s.SparesBusy p i) (hi : s.issue p i = .ok (goesOn, s')) :
    s'.Tracked := by
  obtain ⟨line, s₁, a, s₂, hn, ha, hd⟩ := issue_ok hi
  obtain ⟨hs₂, hmiss⟩ := (h.nextInst hn).1.access (h.replaced_spares hspare hn) ha
  exact hs₂.dispatch hmiss hd

theorem issue_error (h : s.Tracked) (hspare : s.SparesBusy p i) {e : Abort}
    (hi : s.issue p i = .error e) : e ≠ .mshrPresent := by
  obtain hi | ⟨line, s₁, hn, hi | ⟨a, s₂, ha, hi⟩⟩ := Sys.issue_error hi
  · obtain hi | ⟨_, _, hi⟩ := bind_error_iff.mp hi
    · obtain rfl | rfl | rfl := OS.v2pLineaddr_error hi <;> decide
    · cases hi
  · rw [access_error hi]
    decide
  · obtain ⟨_, hmiss⟩ := (h.nextInst hn).1.access (h.replaced_spares hspare hn) ha
    obtain ⟨rfl, _⟩ | ⟨_, hmem, hpresent⟩ := dispatch_error hi
    · decide
    · exact absurd (.inl hpresent) (hmiss hmem).1

end Tracked
end Sys
namespace Point
variable {gz : Zlib} {mem : MainMemory} {p : Params} {pt pt' : Point gz mem}

/-- No line is evicted that memory has yet to answer or to take. -/
def SparesBusy (p : Params) (pt : Point gz mem) : Prop :=
  ∀ i, pt.Issues p i → pt.sys.SparesBusy p i

theorem sleepLine_start (b : Setup gz mem) (j : ℕ) : b.sys.sleepLine j = none := by
  have hflight : (b.sys.mcore j).flight = ⟨{}, 0, false, 0, 0, 0, 0⟩ := MCore.flight_readTrace b.params _
  rw [Sys.sleepLine, if_neg (by simp [show (b.sys.mcore j).sleep = false from
    congrArg Flight.sleep hflight])]

theorem tracked_start (b : Setup gz mem) (hassocs : 0 < b.assocs) : b.sys.Tracked := by
  have hsleep := sleepLine_start b
  refine ⟨hassocs, fun line hbusy => ?_, List.nodup_nil, fun j line hj => ?_, fun j k line hj => ?_⟩
  · obtain ⟨e, he, _⟩ | ⟨j, hj⟩ := hbusy
    · cases he
    · rw [hsleep j] at hj
      cases hj
  · rw [hsleep j] at hj
    cases hj
  · rw [hsleep j] at hj
    cases hj

theorem tracked_next (h : pt.sys.Tracked) (hspare : pt.SparesBusy p)
    (hn : pt.next p = .ok (some pt')) : pt'.sys.Tracked := by
  generalize hs : pt'.sys = s'
  cases hs ▸ next_change hn with
  | stay => exact h
  | startCycle i => exact h.keep_cache rfl (List.Sublist.refl _) (pt.sys.sleepLine_setCore rfl rfl)
  | retire i => exact h.keep_cache rfl (List.Sublist.refl _) (pt.sys.sleepLine_setCore rfl rfl)
  | retry i hsleep hretry => exact h.retry hsleep hretry
  | issue i hissues hissue => exact h.issue (hspare i hissues) hissue
  | callback addr hcallback => exact h.callback hcallback
  | mainmem m => exact h.keep_cache rfl (List.Sublist.refl _) fun _ => rfl

theorem not_present (h : pt.sys.Tracked) (hspare : pt.SparesBusy p) :
    pt.next p ≠ .error .mshrPresent := by
  intro hn
  obtain ⟨i, n, _, hr⟩ | ⟨i, hsleep, hr⟩ | ⟨i, hissues, hi⟩ | ⟨addr, hc⟩ | ⟨x, hx⟩ := next_error hn
  · unfold MCore.retireHead at hr
    split_ifs at hr
    cases hr
  · obtain ⟨_, e, he, heq⟩ := Sys.retry_error hr
    exact h.apart i _ (by rw [Sys.sleepLine, if_pos hsleep]) e he heq
  · exact h.issue_error (hspare i hissues) hi rfl
  · obtain heq | ⟨heq, _⟩ := Sys.memsysCallback_error hc <;> cases heq
  · cases hx

end Point

/-- As long as the cache evicts no line that is in flight or that a core sleeps over, no line is in
flight twice, and a read that the memory accepts is never for a line in flight. -/
theorem mshr_unique {gz : Zlib} {mem : MainMemory} (b : Setup gz mem) (hassocs : 0 < b.assocs) (turns : List Turn)
    (hspare : ∀ pt, Visits (Point.next b.params) ⟨b.sys, .rest, turns⟩ pt → pt.SparesBusy b.params) :
    (∀ pt, Visits (Point.next b.params) ⟨b.sys, .rest, turns⟩ pt →
      (pt.sys.mshr.map MSHREntry.lineaddr).Nodup ∧ pt.next b.params ≠ .error .mshrPresent) ∧
    b.sys.run b.params turns ≠ .error .mshrPresent := by
  have htracked : ∀ pt, Visits (Point.next b.params) ⟨b.sys, .rest, turns⟩ pt → pt.sys.Tracked := by
    intro pt hvisit
    exact hvisit.induct (P := fun pt => pt.sys.Tracked) (fun _ _ h hs hn => Point.tracked_next h hs hn)
      hspare (Point.tracked_start b hassocs)
  refine ⟨fun pt hvisit => ?_, fun herror => ?_⟩
  · exact ⟨(htracked pt hvisit).lines, Point.not_present (htracked pt hvisit) (hspare pt hvisit)⟩
  · obtain ⟨pt, hvisit, hfail⟩ := (Point.run_realizes turns b.sys).2 _ herror
    exact Point.not_present (htracked pt hvisit) (hspare pt hvisit) hfail

/-- Only core `i` takes turns, and no other core sleeps. -/
structure Point.Only {gz : Zlib} {mem : MainMemory} (i : ℕ) (pt : Point gz mem) : Prop where
  turns : ∀ j, .core j ∈ pt.turns → j = i
  phase : ∀ j n, pt.phase = .retiring j n ∨ pt.phase = .issuing j n → j = i
  awake : ∀ j ≠ i, pt.sys.sleepLine j = none

namespace Point
variable {gz : Zlib} {mem : MainMemory} {p : Params} {pt pt' : Point gz mem} {i : ℕ}

theorem Only.awake_next (h : pt.Only i) (hn : pt.next p = .ok (some pt')) {j : ℕ} (hj : j ≠ i) :
    pt'.sys.sleepLine j = none := by
  rw [← h.awake j hj]
  generalize hs : pt'.sys = s'
  cases hs ▸ next_change hn with
  | stay => rfl
  | startCycle k => exact pt.sys.sleepLine_setCore (by rfl) (by rfl) j
  | retire k => exact pt.sys.sleepLine_setCore (by rfl) (by rfl) j
  | retry k hsleep hretry =>
    -- a core that wakes up is the only one
    obtain rfl : k = i := by
      by_contra hne
      have hnone := h.awake k hne
      simp [Sys.sleepLine, hsleep] at hnone
    obtain ⟨m, w, ⟨_, _, rfl⟩ | ⟨_, rfl⟩⟩ := Sys.retry_cases hretry
    · change (pt.sys.setCore k _).sleepLine j = _
      rw [Sys.sleepLine, Sys.mcore_setCore_of_ne _ hj]
      rfl
    · rfl
  | issue k hissues hissue =>
    obtain ⟨⟨n, hphase⟩, _⟩ := hissues
    obtain rfl := h.phase k (n + 1) (.inr hphase)
    exact Sys.sleepLine_issue hissue hj
  | callback addr hc =>
    obtain ⟨e, _, _, c, hwake, rfl⟩ := Sys.memsysCallback_ok hc
    unfold MCore.robWakeup at hwake
    split_ifs at hwake
    cases hwake
    exact pt.sys.sleepLine_setCore (by rfl) (by rfl) j
  | mainmem m => rfl

theorem Only.next (h : pt.Only i) (hn : pt.next p = .ok (some pt')) : pt'.Only i := by
  have hawake : ∀ j ≠ i, pt'.sys.sleepLine j = none := fun j hj => h.awake_next hn hj
  obtain ⟨s, phase, turns⟩ := pt
  have hturns := h.turns
  have hphase := h.phase
  cases phase with
  | rest =>
    cases turns with
    | nil => cases hn
    | cons turn turns =>
      cases turn with
      | core k =>
        cases hn
        refine ⟨fun j hj => hturns j (List.mem_cons_of_mem _ hj), fun j n hp => ?_, hawake⟩
        obtain hp | hp := hp <;> cases hp
        exact hturns k List.mem_cons_self
      | memory =>
        cases hn
        exact ⟨fun j hj => hturns j (List.mem_cons_of_mem _ hj), fun j n hp => by simp at hp, hawake⟩
  | retiring k n =>
    have hk : k = i := hphase k n (.inl rfl)
    cases n with
    | zero =>
      obtain ⟨_, hw, hsome⟩ := map_ok_iff.mp hn
      cases hsome
      obtain ⟨_, rfl⟩ | ⟨_, accepted, _, _, rfl⟩ := wake_cases hw
      · exact ⟨hturns, fun j n hp => by simp_all, hawake⟩
      · exact ⟨hturns, fun j n hp => by cases accepted <;> simp_all, hawake⟩
    | succ n =>
      obtain ⟨_, hr, hsome⟩ := map_ok_iff.mp hn
      cases hsome
      obtain ⟨_, _, rfl⟩ | ⟨_, rfl⟩ := retire_cases hr <;>
        exact ⟨hturns, fun j n hp => by simp_all, hawake⟩
  | issuing k n =>
    have hk : k = i := hphase k n (.inr rfl)
    cases n with
    | zero =>
      cases hn
      exact ⟨hturns, fun j n hp => by simp at hp, hawake⟩
    | succ n =>
      obtain ⟨_, hi, hsome⟩ := map_ok_iff.mp hn
      cases hsome
      obtain ⟨_, rfl⟩ | ⟨_, goesOn, _, _, rfl⟩ := issue_cases hi
      · exact ⟨hturns, fun j n hp => by simp at hp, hawake⟩
      · exact ⟨hturns, fun j n hp => by cases goesOn <;> simp_all, hawake⟩
  | calling addrs =>
    cases addrs with
    | nil =>
      obtain ⟨_, _, hsome⟩ := map_ok_iff.mp hn
      cases hsome
      exact ⟨hturns, fun j n hp => by simp at hp, hawake⟩
    | cons addr addrs =>
      obtain ⟨_, _, hsome⟩ := map_ok_iff.mp hn
      cases hsome
      exact ⟨hturns, fun j n hp => by simp at hp, hawake⟩

/-- The next instruction of the core, if any, evicts nothing, or a line that has been answered. -/
def evictsAnswered (p : Params) (i : ℕ) (pt : Point gz mem) : Bool :=
  match pt.phase with
  | .issuing k (_ + 1) => (pt.sys.replaced p k).all fun r =>
      !r.2.valid || (pt.sys.mshr.all fun e => e.lineaddr ≠ r.2.tag) && pt.sys.sleepLine i ≠ some r.2.tag
  | _ => true

theorem Only.sparesBusy (h : pt.Only i) (ht : pt.evictsAnswered p i = true) : pt.SparesBusy p := by
  rintro k ⟨⟨n, hphase⟩, _⟩ line e hreplaced hvalid hbusy
  rw [evictsAnswered, hphase] at ht
  simp only [hreplaced, Option.all_some, hvalid, Bool.not_true, Bool.false_or, Bool.and_eq_true,
    List.all_eq_true, decide_eq_true_eq] at ht
  obtain ⟨e', he', heq⟩ | ⟨j, hj⟩ := hbusy
  · exact ht.1 e' he' heq
  · by_cases hji : j = i
    · exact ht.2 (hji ▸ hj)
    · rw [h.awake j hji] at hj
      cases hj

end Point

/-- Lines of three sets, and another line of the first set once that has been answered. -/
def threeSets :=
  directMapped smallConfig (read 1 0 ++ read 2 1 ++ read 3 2 ++ read 5 16 ++ read 30 0)

/-- Two cycles of the core around as many of the memory as it takes to answer. -/
def answeredTurns : List Turn := .core 0 :: List.replicate 8 .memory ++ [.core 0]

/-- The line in the way of the last read is evicted, which is in flight no longer. -/
theorem mshr_unique_three_sets :
    threeSets.sys.run threeSets.params answeredTurns ≠ .error .mshrPresent ∧
      (threeSets.sys.run threeSets.params answeredTurns).toOption.any (fun s =>
        !s.llc.probe 64 && s.llc.probe 80 && s.mshr.map MSHREntry.lineaddr = [80]) := by
  refine ⟨(mshr_unique threeSets (by decide) answeredTurns fun pt hvisit => ?_).2, by decide +kernel⟩
  have hstart : Point.Only 0 ⟨threeSets.sys, .rest, answeredTurns⟩ := by
    refine ⟨fun j hj => ?_, fun j n hp => by simp at hp, fun j _ => Point.sleepLine_start threeSets j⟩
    simpa [answeredTurns, List.replicate] using hj
  have honly : pt.Only 0 := invariant_of_steps (P := Point.Only 0) (fun _ _ h hn => h.next hn) hvisit hstart
  exact honly.sparesBusy (hvisit.of_passes (P := fun pt => pt.evictsAnswered threeSets.params 0 = true)
    (n := 80) (Point.evictsAnswered threeSets.params 0) (fun _ => false) (fun _ h => h)
    (fun _ _ h => nomatch h) (by decide +kernel))

/-- Two lines of one set, read in turn. -/
def pingPong :=
  directMapped smallConfig (read 1 0 ++ read 2 16 ++ read 3 0)

/-- The second line evicts the first one while that is in flight. The third read misses again, and the
memory accepts it. -/
theorem evicted_line_in_flight_twice :
    pingPong.sys.run pingPong.params [.core 0] = .error .mshrPresent :=
  eq_error_of_failsAs (by decide +kernel)

end CactusDram.Memsim

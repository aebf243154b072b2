import CactusDram.ChannelSteps

/-! The flags that tell which ranks have no queued command. A command lowers the flag of its rank
when it is queued; nothing raises it again. -/
namespace CactusDram
open Foundations

namespace CommandQueue
variable {cfg : Config} {q q' : CommandQueue} {rank : ℤ}

/-- The calls on a command queue. `maintain` stands for what refresh, RFM and the clock change. -/
inductive QueueCall
  | addCommand (cmd : Command)
  | getCommandToIssue (cs : ChannelState)
  | maintain (refQIndices : List ℤ) (isInRef : Bool) (rfmQIndices : List ℤ) (isInRfm : Bool) (clk : ℕ)

def call (cfg : Config) (q : CommandQueue) : QueueCall → Except Exit CommandQueue
  | .addCommand cmd => .ok (q.addCommand cfg cmd)
  | .getCommandToIssue cs => (fun r => r.2.1) <$> q.getCommandToIssue cfg cs
  | .maintain refs inRef rfms inRfm clk =>
    .ok { q with refQIndices := refs, isInRef := inRef, rfmQIndices := rfms, isInRfm := inRfm, clk := clk }

def calls (cfg : Config) (q : CommandQueue) (l : List QueueCall) : Except Exit CommandQueue :=
  l.foldlM (call cfg) q

/-- Some command of the rank waits in a queue. -/
def Queued (q : CommandQueue) (rank : ℤ) : Prop := ∃ idx, ∃ cmd ∈ q.queues idx, cmd.rank = rank

def Truthful (q : CommandQueue) (rank : ℤ) : Prop := q.rankQEmpty rank ↔ ¬q.Queued rank

/-- The queue entry `EraseRWCommand` looks for. -/
def same (cmd c : Command) : Bool := cmd.hexAddr = c.hexAddr && cmd.cmdType = c.cmdType

/-- Erasing `cmd` meets a command of the rank, and no other command of the rank is queued. -/
def LastQueued (cfg : Config) (q : CommandQueue) (rank : ℤ) (cmd : Command) : Prop :=
  (∃ c, (q.getQueue cfg cmd.bankId).find? (same cmd) = some c ∧ c.rank = rank) ∧
    (q.getQueue cfg cmd.bankId).countP (·.rank = rank) = 1 ∧
    ∀ idx, idx ≠ getQueueIndex cfg cmd.bankId → ∀ c ∈ q.queues idx, c.rank ≠ rank

/-- The call erases the read or write it chooses, and that is the last queued command of the rank. -/
def Drains (cfg : Config) (q : CommandQueue) (rank : ℤ) : QueueCall → Prop
  | .getCommandToIssue cs => ∃ p q' cs', q.getCommandToIssue cfg cs = .ok (some p, q', cs') ∧
      p.cmd.isReadWrite ∧ q.LastQueued cfg rank p.cmd
  | _ => False

theorem eraseRWCommand_exact {cmd : Command} (h : q.eraseRWCommand cfg cmd = .ok q') :
    q'.rankQEmpty = q.rankQEmpty ∧ q'.queues = Function.update q.queues (getQueueIndex cfg cmd.bankId)
      ((q.getQueue cfg cmd.bankId).eraseP (same cmd)) := by
  unfold eraseRWCommand at h
  dsimp only at h
  split_ifs at h with hany
  · cases h
    exact ⟨rfl, rfl⟩
  · cases h
    refine ⟨rfl, ?_⟩
    have hnone : ∀ c ∈ q.getQueue cfg cmd.bankId, ¬same cmd c := by simpa [same] using hany
    rw [List.eraseP_of_forall_not hnone, getQueue, Function.update_eq_self]

/-- Choosing a command leaves the flags alone; what is chosen to be read or written is erased. -/
theorem getCommandLoop_exact {n : ℕ} {cs : ChannelState} {r : Option Pick × CommandQueue × ChannelState}
    (h : getCommandLoop cfg n q cs = .ok r) :
    r.2.1.rankQEmpty = q.rankQEmpty ∧
      (r.2.1.queues = q.queues ∧ (∀ p, r.1 = some p → ¬p.cmd.isReadWrite) ∨
        ∃ p, r.1 = some p ∧ p.cmd.isReadWrite ∧
          r.2.1.queues = Function.update q.queues (getQueueIndex cfg p.cmd.bankId)
            ((q.getQueue cfg p.cmd.bankId).eraseP (same p.cmd))) := by
  induction n generalizing q cs with
  | zero =>
    cases h
    exact ⟨rfl, .inl ⟨rfl, fun _ hp => (nomatch hp)⟩⟩
  | succ n ih =>
    rw [getCommandLoop] at h
    dsimp only at h
    split_ifs at h
    · have hnext := ih h
      exact hnext
    obtain ⟨⟨pick, cs'⟩, _, h⟩ := bind_ok_iff.mp h
    cases pick with
    | none =>
      dsimp only at h
      have hnext := ih h
      exact hnext
    | some p =>
      dsimp only at h
      split_ifs at h with hrw
      · obtain ⟨q₁, herase, h⟩ := bind_ok_iff.mp h
        obtain ⟨hflag, hqueues⟩ := eraseRWCommand_exact herase
        cases h
        exact ⟨hflag, .inr ⟨p, rfl, hrw, hqueues⟩⟩
      · cases h
        refine ⟨rfl, .inl ⟨rfl, fun p' hp => ?_⟩⟩
        cases hp
        exact hrw

/-- Erasing takes the last queued command of a rank exactly when it meets it and it is the only one. -/
theorem queued_erase_iff {cmd : Command} (hq : q.Queued rank)
    (h : q'.queues = Function.update q.queues (getQueueIndex cfg cmd.bankId)
      ((q.getQueue cfg cmd.bankId).eraseP (same cmd))) :
    q'.Queued rank ↔ ¬q.LastQueued cfg rank cmd := by
  have hhere : q'.queues (getQueueIndex cfg cmd.bankId) =
      (q.getQueue cfg cmd.bankId).eraseP (same cmd) := by
    rw [h, Function.update_self]
  have hthere : ∀ idx, idx ≠ getQueueIndex cfg cmd.bankId → q'.queues idx = q.queues idx := by
    intro idx hidx
    rw [h, Function.update_of_ne hidx]
  constructor
  · rintro ⟨idx, c, hc, hrank⟩ ⟨⟨a, hfind, ha⟩, hone, hothers⟩
    by_cases hidx : idx = getQueueIndex cfg cmd.bankId
    · subst hidx
      rw [hhere] at hc
      obtain ⟨hsame, l₁, l₂, hl, hl₁⟩ := List.find?_eq_some_iff_append.mp hfind
      rw [hl, List.eraseP_append_right _ (fun b hb => by simpa using hl₁ b hb),
        List.eraseP_cons_of_pos hsame] at hc
      rw [hl, List.countP_append, List.countP_cons_of_pos (by simpa using ha)] at hone
      have hnone : (l₁ ++ l₂).countP (·.rank = rank) = 0 := by
        rw [List.countP_append]
        omega
      exact List.countP_eq_zero.mp hnone c hc (by simpa using hrank)
    · rw [hthere idx hidx] at hc
      exact hothers idx hidx c hc hrank
  · intro hnot
    by_contra hgone
    have hothers : ∀ idx, idx ≠ getQueueIndex cfg cmd.bankId → ∀ c ∈ q.queues idx, c.rank ≠ rank :=
      fun idx hidx c hc hr => hgone ⟨idx, c, by rwa [hthere idx hidx], hr⟩
    have hrest : ∀ c ∈ (q.getQueue cfg cmd.bankId).eraseP (same cmd), c.rank ≠ rank :=
      fun c hc hr => hgone ⟨_, c, by rwa [hhere], hr⟩
    obtain ⟨idx, c, hc, hr⟩ := hq
    obtain rfl : idx = getQueueIndex cfg cmd.bankId := by
      by_contra hidx
      exact hothers idx hidx c hc hr
    rcases List.exists_or_eq_self_of_eraseP (same cmd) (q.getQueue cfg cmd.bankId) with
      hself | ⟨a, l₁, l₂, hl₁, hsame, hl, herased⟩
    · rw [hself] at hrest
      exact hrest c hc hr
    · rw [herased] at hrest
      have hne : ∀ b ∈ l₁ ++ l₂, b.rank ≠ rank := hrest
      have hca : c = a := by
        change c ∈ q.getQueue cfg cmd.bankId at hc
        rw [hl, List.mem_append, List.mem_cons] at hc
        rcases hc with hc | hc | hc
        · exact absurd hr (hne c (List.mem_append_left _ hc))
        · exact hc
        · exact absurd hr (hne c (List.mem_append_right _ hc))
      subst hca
      refine hnot ⟨⟨c, ?_, hr⟩, ?_, hothers⟩
      · rw [hl]
        exact List.find?_eq_some_iff_append.mpr ⟨hsame, l₁, l₂, rfl, fun b hb => by simpa using hl₁ b hb⟩
      · have hnone : (l₁ ++ l₂).countP (·.rank = rank) = 0 :=
          List.countP_eq_zero.mpr fun b hb => by simpa using hne b hb
        rw [List.countP_append] at hnone
        rw [hl, List.countP_append, List.countP_cons_of_pos (by simpa using hr)]
        omega

/-- Queueing a command lowers the flag of its rank. -/
theorem addCommand_cases (cfg : Config) (q : CommandQueue) (cmd : Command) :
    q.addCommand cfg cmd = q ∨
      (∀ r, (q.addCommand cfg cmd).Queued r ↔ q.Queued r ∨ r = cmd.rank) ∧
        (q.addCommand cfg cmd).rankQEmpty = Function.update q.rankQEmpty cmd.rank false := by
  unfold addCommand
  split_ifs
  · refine .inr ⟨fun r => ⟨?_, ?_⟩, rfl⟩
    · rintro ⟨idx, c, hc, hr⟩
      simp only [setQueue, Function.update_apply] at hc
      split_ifs at hc with hidx
      · rcases List.mem_append.mp hc with hc | hc
        · exact .inl ⟨_, c, hc, hr⟩
        · rw [List.mem_singleton.mp hc] at hr
          exact .inr hr.symm
      · exact .inl ⟨idx, c, hc, hr⟩
    · rintro (⟨idx, c, hc, hr⟩ | rfl)
      · refine ⟨idx, c, ?_, hr⟩
        simp only [setQueue, Function.update_apply]
        split_ifs with hidx
        · subst hidx
          exact List.mem_append_left _ hc
        · exact hc
      · exact ⟨getQueueIndex cfg cmd.bankId, cmd, by simp [setQueue], rfl⟩
  · exact .inl rfl

theorem Drains.queued {x : QueueCall} (h : q.Drains cfg rank x) : q.Queued rank := by
  rcases x with _ | _ | _
  · exact h.elim
  · obtain ⟨p, _, _, _, _, ⟨c, hfind, hr⟩, _⟩ := h
    exact ⟨_, c, List.mem_of_find?_eq_some hfind, hr⟩
  · exact h.elim

/-- From a truthful flag, a call leads to a truthful flag exactly when it does not drain the rank. -/
theorem Truthful.call_iff {x : QueueCall} (ht : q.Truthful rank) (h : q.call cfg x = .ok q') :
    q'.Truthful rank ↔ ¬q.Drains cfg rank x := by
  unfold Truthful at ht ⊢
  rcases x with cmd | cs | _
  · cases h
    refine iff_of_true ?_ id
    rcases addCommand_cases cfg q cmd with hsame | ⟨hqueued, hflag⟩
    · rw [hsame, ht]
    · rw [hflag, hqueued rank, Function.update_apply]
      split_ifs with hr
      · simp [hr]
      · rw [ht]
        simp [hr]
  · obtain ⟨⟨pick, q₁, cs'⟩, hr, rfl⟩ := map_ok_iff.mp h
    obtain ⟨hflag, hqueues⟩ := getCommandLoop_exact hr
    dsimp only at hflag hqueues ⊢
    rw [hflag, ht]
    rcases hqueues with ⟨hqueues, hpick⟩ | ⟨p, rfl, hrw, hqueues⟩
    · refine iff_of_true ?_ ?_
      · rw [Queued, Queued, hqueues]
      · rintro ⟨p, q₂, cs₂, hr₂, hrw, _⟩
        cases hr.symm.trans hr₂
        exact hpick p rfl hrw
    · have hdrain : q.Drains cfg rank (.getCommandToIssue cs) ↔ q.LastQueued cfg rank p.cmd := by
        refine ⟨?_, fun hlast => ⟨p, q₁, cs', hr, hrw, hlast⟩⟩
        rintro ⟨p₂, q₂, cs₂, hr₂, _, hlast⟩
        cases hr.symm.trans hr₂
        exact hlast
      rw [hdrain]
      by_cases hq : q.Queued rank
      · rw [← queued_erase_iff hq hqueues]
        simp [hq]
      · refine iff_of_true (not_congr (iff_of_false hq ?_)) fun hlast => hq (hdrain.mpr hlast).queued
        rintro ⟨idx, c, hc, hrank⟩
        rw [hqueues, Function.update_apply] at hc
        split_ifs at hc
        · exact hq ⟨_, c, List.mem_of_mem_eraseP hc, hrank⟩
        · exact hq ⟨idx, c, hc, hrank⟩
  · cases h
    exact iff_of_true ht id

end CommandQueue

open CommandQueue

/-- Along a sequence of calls the flag of a rank tells the truth in every state if and only if no
call erases the last queued command of the rank. -/
theorem rank_q_empty_truthful_iff (cfg : Config) (l : List QueueCall) (rank : ℤ) :
    (∀ pre post q, l = pre ++ post → calls cfg {} pre = .ok q → q.Truthful rank) ↔
      ∀ pre x post q q', l = pre ++ x :: post → calls cfg {} pre = .ok q → q.call cfg x = .ok q' →
        ¬q.Drains cfg rank x := by
  have hsnoc {pre : List QueueCall} {x : QueueCall} {q q' : CommandQueue}
      (hpre : calls cfg {} pre = .ok q) (hx : q.call cfg x = .ok q') :
      calls cfg {} (pre ++ [x]) = .ok q' := by
    rw [calls, List.foldlM_append, bind_ok_iff]
    exact ⟨q, hpre, by rw [List.foldlM_cons, hx]; rfl⟩
  constructor
  · intro htrue pre x post q q' hl hpre hx
    have ht : q.Truthful rank := htrue pre (x :: post) q hl hpre
    exact (ht.call_iff hx).mp (htrue (pre ++ [x]) post q' (by rw [hl]; simp) (hsnoc hpre hx))
  · intro hkeep pre
    induction pre using List.reverseRecOn with
    | nil =>
      intro post q _ hq
      cases hq
      exact ⟨fun _ ⟨_, _, h, _⟩ => (nomatch h), fun _ => rfl⟩
    | append_singleton pre x ih =>
      intro post q' hl hq'
      rw [calls, List.foldlM_append, bind_ok_iff] at hq'
      obtain ⟨q, hq, hx⟩ := hq'
      rw [List.foldlM_cons, bind_ok_iff] at hx
      obtain ⟨q₁, hx, hq₁⟩ := hx
      cases hq₁
      have hl' : l = pre ++ x :: post := by rw [hl]; simp
      have ht : q.Truthful rank := ih (x :: post) q hl' hq
      exact (ht.call_iff hx).mpr (hkeep pre x post q q' hl' hq hx)

/-- A reachable controller with empty queues has nothing queued for any rank. -/
theorem not_queued_of_queueEmpty {cfg : Config} {c : Controller} (hc : Reachable cfg c)
    (hempty : c.cmdQueue.queueEmpty cfg) (rank : ℤ) : ¬c.cmdQueue.Queued rank := by
  rintro ⟨idx, cmd, hcmd, _⟩
  obtain ⟨hidx, _, haddr⟩ := (Micro.reached_of_reachable hc).wellQueued idx cmd hcmd
  obtain ⟨n, hn, hidx'⟩ := getQueueIndex_lt cfg cmd.hexAddr
  have hnil : c.cmdQueue.queues n = [] := by
    simpa using List.all_eq_true.mp hempty n (List.mem_range.mpr hn)
  rw [Command.bankId, haddr, hidx'] at hidx
  rw [hidx] at hcmd
  change cmd ∈ c.cmdQueue.queues n at hcmd
  rw [hnil] at hcmd
  cases hcmd

/-- A channel that has served its only request: nothing is queued any more, and the flag of the rank
still says that something is. -/
theorem rank_q_empty_not_raised : ∃ c,
    Controller.run smallConfig ({} : Boot smallConfig).controller (Input.request 0 false 5) = .ok c ∧
      ¬c.cmdQueue.Queued 0 ∧ c.cmdQueue.rankQEmpty 0 = false ∧ ¬c.cmdQueue.Truthful 0 := by
  obtain ⟨c, hrun, hc⟩ := exists_ok_of_any
    (x := Controller.run smallConfig ({} : Boot smallConfig).controller (Input.request 0 false 5))
    (p := fun c => c.cmdQueue.queueEmpty smallConfig ∧ c.cmdQueue.rankQEmpty 0 = false)
    (by decide +kernel)
  obtain ⟨hempty, hflag⟩ := of_decide_eq_true hc
  have hnone := not_queued_of_queueEmpty ⟨_, _, hrun⟩ hempty 0
  refine ⟨c, hrun, hnone, hflag, fun ht => ?_⟩
  rw [ht.mpr hnone] at hflag
  cases hflag

end CactusDram

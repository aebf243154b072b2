import CactusDram.Controller

/-! What each operation of the controller changes. -/
namespace CactusDram
open Foundations

namespace CommandQueue
variable {cfg : Config} {q q' : CommandQueue} {cmd : Command}

theorem addCommand_eq : ∃ es qs, q.addCommand cfg cmd = { q with rankQEmpty := es, queues := qs } := by
  unfold addCommand setQueue
  split_ifs <;> exact ⟨_, _, rfl⟩

theorem eraseRWCommand_eq (h : q.eraseRWCommand cfg cmd = .ok q') :
    ∃ qs, q' = { q with queues := qs } := by
  unfold eraseRWCommand at h
  dsimp only at h
  split_ifs at h <;> cases h <;> exact ⟨_, rfl⟩

end CommandQueue

namespace Controller
variable {cfg : Config} {c c' : Controller}

theorem enqueue_eq (cfg : Config) (c : Controller) (t : Transaction) : ∃ u r w, c.enqueue cfg t =
    { c with unifiedQueue := u, readQueue := r, writeBuffer := w } := by
  unfold enqueue
  split_ifs <;> exact ⟨_, _, _, rfl⟩

theorem addTransaction_eq (cfg : Config) (c : Controller) (addr : HexAddr) (isWrite : Bool) :
    ∃ u r w prd pwr ret forwarded, c.addTransaction cfg addr isWrite = { c with
      unifiedQueue := u
      readQueue := r
      writeBuffer := w
      pendingRdQ := prd
      pendingWrQ := pwr
      returnQueue := ret
      log := .accepted { addr := addr, addedCycle := c.clk, isWrite := isWrite } forwarded ::
        c.log } := by
  unfold addTransaction complete record enqueue
  dsimp only
  split_ifs <;> exact ⟨_, _, _, _, _, _, _, rfl⟩

/-- The five ways a transaction is accepted. -/
inductive Accepted (cfg : Config) (c : Controller) (t : Transaction) : Controller → Prop
  | mergeWrite (hw : t.isWrite) (hp : hasAddr c.pendingWrQ t.addr) :
      Accepted cfg c t { c with
        returnQueue := c.returnQueue ++ [{ t with completeCycle := c.clk + 1 }]
        log := .accepted t false :: c.log }
  | newWrite (hw : t.isWrite) (hp : hasAddr c.pendingWrQ t.addr = false) :
      Accepted cfg c t ({ c with
        pendingWrQ := c.pendingWrQ ++ [t]
        returnQueue := c.returnQueue ++ [{ t with completeCycle := c.clk + 1 }]
        log := .accepted t false :: c.log }.enqueue cfg t)
  | forward (hw : t.isWrite = false) (hp : hasAddr c.pendingWrQ t.addr) :
      Accepted cfg c t { c with
        returnQueue := c.returnQueue ++ [{ t with completeCycle := c.clk + 1 }]
        log := .accepted t true :: c.log }
  | mergeRead (hw : t.isWrite = false) (hp : hasAddr c.pendingWrQ t.addr = false)
      (hr : hasAddr c.pendingRdQ t.addr) :
      Accepted cfg c t { c with
        pendingRdQ := c.pendingRdQ ++ [t]
        log := .accepted t false :: c.log }
  | newRead (hw : t.isWrite = false) (hp : hasAddr c.pendingWrQ t.addr = false)
      (hr : hasAddr c.pendingRdQ t.addr = false) :
      Accepted cfg c t ({ c with
        pendingRdQ := c.pendingRdQ ++ [t]
        log := .accepted t false :: c.log }.enqueue cfg t)

theorem complete_enqueue (t : Transaction) : (c.enqueue cfg t).complete t = (c.complete t).enqueue cfg t := by
  unfold enqueue
  split_ifs <;> rfl

theorem addTransaction_accepted (addr : HexAddr) (isWrite : Bool) :
    Accepted cfg c { addr := addr, addedCycle := c.clk, isWrite := isWrite }
      (c.addTransaction cfg addr isWrite) := by
  unfold addTransaction record
  dsimp only
  cases isWrite with
  | true =>
    simp only [if_true, Bool.not_true, Bool.false_and]
    split_ifs with hp
    · exact .mergeWrite rfl hp
    · rw [complete_enqueue]
      exact .newWrite rfl (by simpa using hp)
  | false =>
    simp only [Bool.not_false, Bool.true_and, Bool.false_eq_true, if_false]
    split_ifs with hp hr
    · rw [hp]
      exact .forward rfl hp
    · rw [Bool.not_eq_true] at hp
      rw [hp]
      exact .mergeRead rfl hp hr
    · rw [Bool.not_eq_true] at hp hr
      rw [hp]
      exact .newRead rfl hp hr

theorem returnDoneTrans_eq (clk : ℕ) : ∃ ret, ∃ done : List (HexAddr × Bool),
    c.returnDoneTrans clk =
      { c with returnQueue := ret, log := done.map (fun d => .returned d.1 d.2) ++ c.log } := by
  unfold returnDoneTrans record
  split
  · exact ⟨_, [(_, _)], rfl⟩
  · exact ⟨_, [], rfl⟩

/-- The scheduling loop moves one transaction into the command queues, stops a drain, or does
nothing. -/
inductive Scheduled (cfg : Config) (c : Controller) (q : CommandQueue) (draining : ℤ)
    (queue : List Transaction) : Schedule → Prop
  | nothing (h : ∀ pre t post, queue = pre ++ t :: post →
      q.willAcceptCommand cfg (transToCommand cfg t post).bankId = false) :
      Scheduled cfg c q draining queue ⟨queue, q, draining⟩
  | conflict {pre t post} (hq : queue = pre ++ t :: post) (huni : cfg.unifiedQueue = false)
      (hw : t.isWrite) (hacc : q.willAcceptCommand cfg (transToCommand cfg t post).bankId)
      (hpre : ∀ pre' t' post', queue = pre' ++ t' :: post' → pre'.length < pre.length →
        q.willAcceptCommand cfg (transToCommand cfg t' post').bankId = false)
      (hdep : hasAddr c.pendingRdQ t.addr) : Scheduled cfg c q draining queue ⟨queue, q, 0⟩
  | moved {pre t post} (hq : queue = pre ++ t :: post)
      (hacc : q.willAcceptCommand cfg (transToCommand cfg t post).bankId)
      (hpre : ∀ pre' t' post', queue = pre' ++ t' :: post' → pre'.length < pre.length →
        q.willAcceptCommand cfg (transToCommand cfg t' post').bankId = false)
      (hdep : cfg.unifiedQueue = false → t.isWrite → hasAddr c.pendingRdQ t.addr = false) :
      Scheduled cfg c q draining queue ⟨pre ++ post, q.addCommand cfg (transToCommand cfg t post),
        if !cfg.unifiedQueue && t.isWrite then draining - 1 else draining⟩

@[simp] theorem transToCommand_isWrite (t : Transaction) (later : List Transaction) :
    (transToCommand cfg t later).isWrite = t.isWrite := by
  unfold transToCommand Command.isWrite
  cases keepOpen cfg t later <;> cases t.isWrite <;> rfl

@[simp] theorem transToCommand_isRead (t : Transaction) (later : List Transaction) :
    (transToCommand cfg t later).isRead = !t.isWrite := by
  unfold transToCommand Command.isRead
  cases keepOpen cfg t later <;> cases t.isWrite <;> rfl

@[simp] theorem transToCommand_hexAddr (t : Transaction) (later : List Transaction) :
    (transToCommand cfg t later).hexAddr = t.addr := rfl

@[simp] theorem transToCommand_addr (t : Transaction) (later : List Transaction) :
    (transToCommand cfg t later).addr = cfg.addressMapping t.addr := rfl

theorem scheduleLoop_scheduled {q : CommandQueue} {draining : ℤ} {queue before after : List Transaction}
    (hq : queue = before ++ after)
    (hbefore : ∀ pre t post, queue = pre ++ t :: post → pre.length < before.length →
      q.willAcceptCommand cfg (transToCommand cfg t post).bankId = false) :
    Scheduled cfg c q draining queue (c.scheduleLoop cfg q draining before after) := by
  induction after generalizing before with
  | nil =>
    simp only [scheduleLoop]
    rw [List.append_nil] at hq
    subst hq
    exact .nothing fun pre t post h => hbefore pre t post h (by simp [h])
  | cons t later ih =>
    rw [scheduleLoop]
    split_ifs with hacc hw hdep
    · rw [← hq]
      rw [transToCommand_isWrite, Bool.and_eq_true] at hw
      exact .conflict hq (by simpa using hw.1) hw.2 hacc hbefore hdep
    · rw [transToCommand_isWrite] at hw
      have : Scheduled cfg c q draining queue _ := .moved hq hacc hbefore
        (fun _ _ => by simpa using hdep)
      simpa [hw] using this
    · rw [transToCommand_isWrite] at hw
      have : Scheduled cfg c q draining queue _ := .moved hq hacc hbefore
        (fun huni hwr => by simp [huni, hwr] at hw)
      simpa [hw] using this
    · refine ih (by simpa using hq) fun pre t' post h hlen => ?_
      rw [List.length_append, List.length_singleton] at hlen
      rcases Nat.lt_succ_iff_lt_or_eq.mp hlen with hlt | heq
      · exact hbefore pre t' post h hlt
      · obtain ⟨rfl, hrest⟩ := List.append_inj (h.symm.trans hq) heq
        cases hrest
        simpa using hacc

/-- The request that `maintenance` works on. -/
def inService (c : Controller) : Option Command :=
  if c.cmdQueue.isInRfm then c.channelState.rfmQ.head?
  else if c.cmdQueue.isInRef || !c.channelState.refreshQ.isEmpty then c.channelState.refreshQ.head?
  else c.channelState.rfmQ.head?

/-- The queue `ScheduleTransaction` walks over. -/
inductive Lane
  | unified
  | write
  | read
  deriving DecidableEq

def lane (cfg : Config) (c : Controller) : Lane :=
  if cfg.unifiedQueue then .unified else if 0 < c.startDraining cfg then .write else .read

def laneQueue (c : Controller) : Lane → List Transaction
  | .unified => c.unifiedQueue
  | .write => c.writeBuffer
  | .read => c.readQueue

def setLane (c : Controller) (l : Lane) (s : Schedule) : Controller :=
  match l with
  | .unified =>
    { c with unifiedQueue := s.queue, cmdQueue := s.cmdQueue, writeDraining := s.writeDraining }
  | .write =>
    { c with writeBuffer := s.queue, cmdQueue := s.cmdQueue, writeDraining := s.writeDraining }
  | .read =>
    { c with readQueue := s.queue, cmdQueue := s.cmdQueue, writeDraining := s.writeDraining }

theorem scheduleTransaction_eq (cfg : Config) (c : Controller) :
    ∃ s, c.scheduleTransaction cfg = c.setLane (c.lane cfg) s ∧
    Scheduled cfg c c.cmdQueue (c.startDraining cfg) (c.laneQueue (c.lane cfg)) s := by
  refine ⟨c.scheduleLoop cfg c.cmdQueue (c.startDraining cfg) [] (c.laneQueue (c.lane cfg)), ?_,
    scheduleLoop_scheduled rfl fun _ _ _ _ h => absurd h (by simp)⟩
  unfold scheduleTransaction lane
  dsimp only
  split_ifs <;> rfl

theorem Scheduled.cmdQueue_eq {q : CommandQueue} {draining : ℤ} {queue : List Transaction}
    {s : Schedule} (h : Scheduled cfg c q draining queue s) :
    ∃ es qs, s.cmdQueue = { q with rankQEmpty := es, queues := qs } := by
  cases h with
  | nothing | conflict => exact ⟨_, _, rfl⟩
  | moved => exact CommandQueue.addCommand_eq

theorem scheduleTransaction_frame (cfg : Config) (c : Controller) :
    ∃ u r w d es qs, c.scheduleTransaction cfg = { c with
    unifiedQueue := u
    readQueue := r
    writeBuffer := w
    writeDraining := d
    cmdQueue := { c.cmdQueue with rankQEmpty := es, queues := qs } } := by
  obtain ⟨s, hs, hsched⟩ := c.scheduleTransaction_eq cfg
  obtain ⟨es, qs, hq⟩ := hsched.cmdQueue_eq
  rw [hs]
  cases c.lane cfg <;> simp only [setLane, hq] <;> exact ⟨_, _, _, _, _, _, rfl⟩

theorem powerUpdate_eq (cfg : Config) (c : Controller) : ∃ f, c.powerUpdate cfg =
    { c with channelState := { c.channelState with rankIdleCycles := f } } := by
  unfold powerUpdate
  have h : ∀ (l : List ℕ) (c : Controller), ∃ f, l.foldl (countIdle cfg) c =
      { c with channelState := { c.channelState with rankIdleCycles := f } } := by
    intro l
    induction l with
    | nil => exact fun c => ⟨_, rfl⟩
    | cons rank l ih =>
      intro c
      have hstep : ∃ f, countIdle cfg c rank =
          { c with channelState := { c.channelState with rankIdleCycles := f } } := by
        unfold countIdle
        dsimp only
        split_ifs <;> exact ⟨_, rfl⟩
      obtain ⟨f, hf⟩ := hstep
      obtain ⟨g, hg⟩ := ih (countIdle cfg c rank)
      rw [List.foldl_cons, hg, hf]
      exact ⟨g, rfl⟩
  exact h _ c

/-- The transactions a command completes or retires. -/
inductive Served (cfg : Config) (c : Controller) (cmd : Command) : Controller → Prop
  | read (hcmd : cmd.isRead) (hne : cmd.hexAddr ≠ noAddr) (h : hasAddr c.pendingRdQ cmd.hexAddr) :
      Served cfg c cmd { c with
        returnQueue := c.returnQueue ++ (c.pendingRdQ.filter fun t => t.addr = cmd.hexAddr).map
          fun t => { t with completeCycle := addDelay c.clk cfg.readDelay }
        pendingRdQ := c.pendingRdQ.filter fun t => t.addr ≠ cmd.hexAddr }
  | write (hcmd : cmd.isWrite) (hne : cmd.hexAddr ≠ noAddr)
      (h : hasAddr c.pendingWrQ cmd.hexAddr) :
      Served cfg c cmd { c with
        pendingWrQ := c.pendingWrQ.eraseP fun t => t.addr = cmd.hexAddr }
  | other (hcmd : cmd.isReadWrite = false ∨ cmd.hexAddr = noAddr) : Served cfg c cmd c

theorem isWrite_of_isRead {cmd : Command} (h : cmd.isRead) : cmd.isWrite = false := by
  obtain ⟨ty, _, _⟩ := cmd
  cases ty <;> simp_all [Command.isRead, Command.isWrite]

theorem serve_ok {cmd : Command} (h : c.serve cfg cmd = .ok c') : Served cfg c cmd c' := by
  unfold serve serveRead serveWrite at h
  split_ifs at h with hr ha hw ha
  · cases h; exact .read hr.1 hr.2 ha
  · cases h; exact .write hw.1 hw.2 ha
  · cases h
    refine .other ?_
    by_cases hne : cmd.hexAddr = noAddr
    · exact .inr hne
    · left
      simp_all [Command.isReadWrite]

theorem serve_error {cmd : Command} {e : Exit} (h : c.serve cfg cmd = .error e) :
    (cmd.isRead ∧ cmd.hexAddr ≠ noAddr ∧ hasAddr c.pendingRdQ cmd.hexAddr = false ∧
        e = .notInReadQueue) ∨
      (cmd.isWrite ∧ cmd.hexAddr ≠ noAddr ∧ hasAddr c.pendingWrQ cmd.hexAddr = false ∧
        e = .notInWriteQueue) := by
  unfold serve serveRead serveWrite at h
  split_ifs at h with hr ha hw ha
  · cases h; exact .inl ⟨hr.1, hr.2, by simpa using ha, rfl⟩
  · cases h; exact .inr ⟨hw.1, hw.2, by simpa using ha, rfl⟩

theorem Served.frame {cmd : Command} (h : Served cfg c cmd c') : ∃ ret prd pwr, c' = { c with
    returnQueue := ret
    pendingRdQ := prd
    pendingWrQ := pwr } := by
  cases h <;> exact ⟨_, _, _, rfl⟩

theorem issueCommand_ok {p : Pick} (h : c.issueCommand cfg p = .ok c') :
    ∃ c₁ cs', Served cfg (c.record (.issued p.cmd)) p.cmd c₁ ∧
      c.channelState.updateTimingAndStates cfg p.cmd c.clk p.origin = .ok cs' ∧
      c' = { c₁ with channelState := cs' } := by
  unfold issueCommand at h
  obtain ⟨c₁, hserve, h⟩ := bind_ok_iff.mp h
  obtain ⟨_, _, h⟩ := bind_ok_iff.mp h
  obtain ⟨cs', hcs, h⟩ := bind_ok_iff.mp h
  have hserved := serve_ok hserve
  obtain ⟨ret, prd, pwr, rfl⟩ := hserved.frame
  cases h
  exact ⟨_, cs', hserved, hcs, rfl⟩

theorem issueCommand_frame {p : Pick} (h : c.issueCommand cfg p = .ok c') :
    ∃ ret prd pwr cs', c.channelState.updateTimingAndStates cfg p.cmd c.clk p.origin = .ok cs' ∧
      c' = { c with
        returnQueue := ret
        pendingRdQ := prd
        pendingWrQ := pwr
        channelState := cs'
        log := .issued p.cmd :: c.log } := by
  obtain ⟨c₁, cs', hserved, hcs, rfl⟩ := issueCommand_ok h
  obtain ⟨ret, prd, pwr, rfl⟩ := hserved.frame
  exact ⟨ret, prd, pwr, cs', hcs, rfl⟩

/-- The ways an issue can end the process. -/
theorem issueCommand_error {p : Pick} {e : Exit} (h : c.issueCommand cfg p = .error e) :
    (p.cmd.isRead ∧ p.cmd.hexAddr ≠ noAddr ∧ hasAddr c.pendingRdQ p.cmd.hexAddr = false ∧
        e = .notInReadQueue) ∨
      (p.cmd.isWrite ∧ p.cmd.hexAddr ≠ noAddr ∧ hasAddr c.pendingWrQ p.cmd.hexAddr = false ∧
        e = .notInWriteQueue) ∨
      (p.cmd.cmdType = .size ∧ e = .abruptExit .updateCommandStats) ∨
      c.channelState.updateTimingAndStates cfg p.cmd c.clk p.origin = .error e := by
  unfold issueCommand at h
  rcases bind_error_iff.mp h with hserve | ⟨c₁, hserve, h⟩
  · rcases serve_error hserve with h | h
    · exact .inl h
    · exact .inr (.inl h)
  · obtain ⟨ret, prd, pwr, rfl⟩ := (serve_ok hserve).frame
    rcases bind_error_iff.mp h with hstats | ⟨_, _, h⟩
    · unfold updateCommandStats at hstats
      split_ifs at hstats with hty
      cases hstats
      exact .inr (.inr (.inl ⟨hty, rfl⟩))
    · rcases bind_error_iff.mp h with h | ⟨_, _, h⟩
      · exact .inr (.inr (.inr h))
      · cases h

/-- A view of controllers that choosing and issuing commands leave alone. -/
structure IssueInvariant {τ : Type*} (cfg : Config) (V : Controller → τ) : Prop where
  choose : ∀ c q cs, V { c with cmdQueue := q, channelState := cs } = V c
  issue : ∀ c c' p, issueCommand cfg c p = .ok c' → V c' = V c
  leave : ∀ c p, V (c.record (.dropped p)) = V c

namespace IssueInvariant
variable {τ : Type*} {V : Controller → τ} {pick : Option Pick}

theorem withQueue (hV : IssueInvariant cfg V) {x : Except Exit (Option Pick × CommandQueue × ChannelState)}
    (h : c.withQueue <$> x = .ok (pick, c')) : V c' = V c := by
  obtain ⟨r, _, h⟩ := map_ok_iff.mp h
  exact (congrArg (fun r : Option Pick × Controller => V r.2) h).symm.trans (hV.choose c _ _)

theorem maintenance (hV : IssueInvariant cfg V) (h : c.maintenance cfg = .ok (pick, c')) : V c' = V c := by
  unfold Controller.maintenance at h
  split_ifs at h
  · exact hV.withQueue h
  · exact hV.withQueue h
  · exact hV.withQueue h
  · cases h; rfl

theorem demand (hV : IssueInvariant cfg V) (h : c.demand cfg = .ok (pick, c')) : V c' = V c := hV.withQueue h

theorem selectCommand (hV : IssueInvariant cfg V) (h : c.selectCommand cfg = .ok (pick, c')) :
    V c' = V c := by
  obtain ⟨⟨_ | p, c₁⟩, h₁, h⟩ := bind_ok_iff.mp h
  · exact (hV.demand h).trans (hV.maintenance h₁)
  · cases h
    exact hV.maintenance h₁

theorem issueSelected (hV : IssueInvariant cfg V) (h : c.issueSelected cfg pick = .ok c') : V c' = V c := by
  cases pick with
  | none =>
    cases h
    rfl
  | some p =>
    obtain ⟨c₁, h₁, h⟩ := bind_ok_iff.mp h
    have hfirst := hV.issue _ _ _ h₁
    split_ifs at h
    · obtain ⟨⟨_ | p', c₂⟩, h₂, h⟩ := bind_ok_iff.mp h
      · cases h
        exact (hV.demand h₂).trans hfirst
      · have hsecond := (hV.demand h₂).trans hfirst
        dsimp only at h
        split_ifs at h
        · exact (hV.issue _ _ _ h).trans hsecond
        · cases h
          exact (hV.leave c₂ p').trans hsecond
    · cases h
      exact hfirst

theorem selfRefresh (hV : IssueInvariant cfg V) {ranks : List ℕ} (h : selfRefresh cfg ranks c = .ok c') :
    V c' = V c := by
  induction ranks generalizing c with
  | nil =>
    cases h
    rfl
  | cons rank ranks ih =>
    rw [Controller.selfRefresh] at h
    split at h
    · exact ih h
    · obtain ⟨⟨_ | r, cs⟩, _, h⟩ := bind_ok_iff.mp h
      · exact (ih (c := { c with channelState := cs }) h).trans (hV.choose c c.cmdQueue cs)
      · exact (hV.issue { c with channelState := cs } _ _ h).trans (hV.choose c c.cmdQueue cs)

theorem idleTick (hV : IssueInvariant cfg V) (h : c.idleTick cfg pick = .ok c') : V c' = V c := by
  unfold Controller.idleTick at h
  split_ifs at h
  · exact hV.selfRefresh h
  · cases h
    rfl

/-- In a tick only the refresh timer before the choice, and scheduling and the clock after it, change
such a view. -/
theorem clockTick (hV : IssueInvariant cfg V) (h : c.clockTick cfg = .ok c') :
    ∃ c₁, V c₁ = V (c.refreshTick cfg) ∧ c' = (c₁.scheduleTransaction cfg).endTick := by
  obtain ⟨⟨pick, c₁⟩, h₁, h⟩ := bind_ok_iff.mp h
  obtain ⟨c₂, h₂, h⟩ := bind_ok_iff.mp h
  obtain ⟨c₃, h₃, h⟩ := bind_ok_iff.mp h
  cases h
  obtain ⟨f, hpower⟩ := c₂.powerUpdate_eq cfg
  have hchannel : V ((c.refreshTick cfg).channelTick cfg) = V (c.refreshTick cfg) := hV.choose _ _ _
  have hselect : V c₁ = V ((c.refreshTick cfg).channelTick cfg) := hV.selectCommand h₁
  have hissue : V c₂ = V c₁ := hV.issueSelected h₂
  have hidle : V c₃ = V c₂ := by
    refine (hV.idleTick h₃).trans ?_
    rw [hpower]
    exact hV.choose c₂ c₂.cmdQueue _
  exact ⟨c₃, hidle.trans (hissue.trans (hselect.trans hchannel)), rfl⟩

end IssueInvariant

/-- The clock of a controller and its refresh timer. -/
def timers (c : Controller) : ℕ × Refresh := (c.clk, c.refresh)

theorem timers_issueInvariant (cfg : Config) : IssueInvariant cfg timers where
  choose _ _ _ := rfl
  issue _ _ _ h := by
    obtain ⟨_, _, _, _, _, rfl⟩ := issueCommand_frame h
    rfl
  leave _ _ := rfl

/-- The two timers tick first, and nothing else moves them but the end of the tick. -/
theorem clockTick_timers (h : c.clockTick cfg = .ok c') :
    c'.timers = (c.clk + 1, (c.refreshTick cfg).refresh) := by
  obtain ⟨c₁, htimers, rfl⟩ := (timers_issueInvariant cfg).clockTick h
  obtain ⟨_, _, _, _, _, _, hsched⟩ := c₁.scheduleTransaction_frame cfg
  have hend : (c₁.scheduleTransaction cfg).endTick.timers = (c₁.clk + 1, c₁.refresh) := by
    rw [hsched]
    rfl
  obtain ⟨hclk, hrefresh⟩ := Prod.mk.inj htimers
  rw [hend, hclk, hrefresh]
  rfl

theorem clockTick_clk (h : c.clockTick cfg = .ok c') : c'.clk = c.clk + 1 :=
  congrArg Prod.fst (clockTick_timers h)

end Controller
end CactusDram

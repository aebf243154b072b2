import CactusDram.RefreshChunks
import CactusDram.CounterHistory

/-! How often each counter is reset in a window of REFab commands. -/
namespace CactusDram
open Foundations

namespace Event

def resetsCactus (idx : ℕ) : Event → Bool
  | .cactusReset first last => first ≤ idx ∧ idx < last
  | _ => false

def resetsTusc (idx : ℕ) : Event → Bool
  | .dreamReset first last => first ≤ idx ∧ idx < last
  | _ => false

def resetsAbacus (idx : ℕ) : Event → Bool
  | .abacusReset first last => first ≤ idx ∧ idx < last
  | _ => false

end Event

theorem Refab.countP_events {p : Event → Bool} (hp : ∀ e, p e = true → e.isReset = true) (r : Refab) :
    r.events.countP p = r.resets.countP p := by
  unfold Refab.resets
  rw [List.countP_filter]
  congr 1
  funext e
  cases hpe : p e with
  | false => rfl
  | true => rw [hp e hpe]; rfl

/-- In a history of numbered REFabs the counted resets of a window are those of its numbers. -/
theorem countP_window {l window : List Refab} {f : ℕ → ℤ × List Event} {n : ℕ}
    (hl : l.map (fun r => (r.rank, r.resets)) = ((List.range n).map f).reverse)
    (hw : window <:+: l) {p : Event → Bool} (hp : ∀ e, p e = true → e.isReset = true)
    {hit : ℕ → Bool} (hhit : ∀ n, (f n).2.countP p = (hit n).toNat) :
    ∃ a, (window.flatMap Refab.events).countP p = (List.range' a window.length).countP hit := by
  have hinfix : window.map (fun r => (r.rank, r.resets)) <:+: ((List.range n).map f).reverse := by
    rw [← hl]
    exact hw.map _
  obtain ⟨a, ha⟩ := window_eq_range' hinfix
  rw [List.length_map] at ha
  refine ⟨a, ?_⟩
  have hevents : (window.flatMap Refab.events).countP p =
      ((window.map fun r => (r.rank, r.resets)).flatMap (·.2)).countP p := by
    rw [List.countP_flatMap, List.countP_flatMap, List.map_map]
    congr 1
    exact List.map_congr_left fun r _ => r.countP_events hp
  rw [hevents, ha, ← List.map_reverse, List.flatMap_map, ← List.countP_reverse (l := List.range' _ _)]
  exact countP_flatMap_of_indicator fun n _ => hhit n

theorem refabs_ranks (log : List Event) : (refabs log).map (·.rank) = log.filterMap Event.refab? := by
  rw [refabs_eq, List.map_map, ← map_fst_stretches]
  rfl

/-- When all refreshes are REFabs, the ranks of the REFabs are those of the refreshes. -/
theorem refabs_ranks_eq (cs : ChannelState) (h : ∀ r ∈ cs.refreshesIssued, r.cmdType = .refAb) :
    (refabs cs.log).map (·.rank) = (cs.refreshesIssued.map (·.rank)).reverse := by
  rw [refabs_ranks]
  unfold ChannelState.refreshesIssued at h ⊢
  rw [← List.map_reverse, ← List.filterMap_reverse, List.reverse_reverse, List.map_filterMap]
  apply List.filterMap_congr
  intro e he
  cases e with
  | issue cmd clk origin found =>
    by_cases hcmd : cmd.isRefresh
    · have hty := h cmd (List.mem_filterMap.mpr ⟨_, List.mem_reverse.mpr he, by
        simp [Event.refreshIssue, hcmd]⟩)
      simp [Event.refab?, Event.refreshIssue, hcmd, hty]
    · have hne : cmd.cmdType ≠ .refAb := fun hty => hcmd (by simp [Command.isRefresh, hty])
      simp [Event.refab?, Event.refreshIssue, hcmd, hne]
  | _ => rfl

namespace Micro
open ChannelState
variable {cfg : Config} {π : Policy} {m : Micro}

/-- Numbered from the start, the REFabs of a reached state by rank and resets. -/
theorem Reached.refabs_eq (hpolicy : cfg.RankLevel) (h : Reached cfg π m) {rankOf : ℕ → ℤ}
    (hranks : m.ctl.channelState.refreshesIssued.map (·.rank) =
      (List.range m.ctl.channelState.refreshesIssued.length).map rankOf) :
    ∃ n, (refabs m.ctl.channelState.log).map (fun r => (r.rank, r.resets)) =
      ((List.range n).map fun n => (rankOf n, chunkResets cfg (rankOf n) (n % cfg.refchunks))).reverse := by
  have hchunks := (h.chunked hpolicy).chunks
  have hall := refabs_ranks_eq m.ctl.channelState fun r hr => by
    refine ((h.timed hpolicy).requests r ?_).1
    have hord : m.ctl.channelState.refreshRequests = _ := h.ordered.requests
    rw [hord]
    exact List.mem_append_left _ hr
  refine ⟨_, eq_reverse_map_range fun newer r older hsplit => ?_⟩
  have hrank : r.1 = rankOf older.length := by
    have hmap : newer.map Prod.fst ++ r.1 :: older.map Prod.fst = 
        ((List.range m.ctl.channelState.refreshesIssued.length).map rankOf).reverse := by
      rw [← hranks, ← hall, ← List.map_cons, ← List.map_append, ← hsplit, List.map_map]
      rfl
    rw [eq_of_reverse_map_range hmap, List.length_map]
  exact Prod.ext hrank (hrank ▸ hchunks newer r older hsplit)

/-- With one rank every REFab is for rank 0. -/
theorem Reached.refabs_single (hpolicy : cfg.RankLevel) (hone : cfg.ranks = 1) (h : Reached cfg π m) :
    ∃ n, (refabs m.ctl.channelState.log).map (fun r => (r.rank, r.resets)) =
      ((List.range n).map fun n => (0, chunkResets cfg 0 (n % cfg.refchunks))).reverse := by
  apply h.refabs_eq hpolicy
  have hzero : ∀ r ∈ m.ctl.channelState.refreshesIssued, r.rank = 0 := by
    intro r hr
    have hord : m.ctl.channelState.refreshRequests = _ := h.ordered.requests
    obtain ⟨_, k, hk, hrank⟩ := (h.timed hpolicy).requests r (hord ▸ List.mem_append_left _ hr)
    omega
  rw [List.map_congr_left hzero]
  simp

end Micro

namespace ChannelState
variable {cfg : Config}

theorem countP_single {α : Type*} (p : α → Bool) (a : α) : [a].countP p = (p a).toNat := by
  cases h : p a <;> simp [h]

theorem countP_resetsCactus (hmode : cfg.cactusMode = 1) (rank : ℤ) (refIdx idx : ℕ) :
    (chunkResets cfg rank refIdx).countP (Event.resetsCactus idx) =
      (decide ((cactusChunkAt cfg rank refIdx).1 ≤ idx ∧
        idx < (cactusChunkAt cfg rank refIdx).2)).toNat := by
  have habacus : (abacusResets cfg refIdx).countP (Event.resetsCactus idx) = 0 := by
    unfold abacusResets
    split_ifs <;> rfl
  have htusc : (tuscResets cfg refIdx).countP (Event.resetsCactus idx) = 0 := by
    unfold tuscResets
    split_ifs <;> rfl
  rw [chunkResets, List.countP_append, List.countP_append, habacus, htusc, cactusResets,
    if_neg (by omega), countP_single, Nat.zero_add, Nat.add_zero]
  rfl

theorem countP_resetsTusc (hmode : cfg.dreamMode = 1) (rank : ℤ) (refIdx idx : ℕ) :
    (chunkResets cfg rank refIdx).countP (Event.resetsTusc idx) =
      (decide ((tuscChunkAt cfg refIdx).1 ≤ idx ∧ idx < (tuscChunkAt cfg refIdx).2)).toNat := by
  have habacus : (abacusResets cfg refIdx).countP (Event.resetsTusc idx) = 0 := by
    unfold abacusResets
    split_ifs <;> rfl
  have hcactus : (cactusResets cfg rank refIdx).countP (Event.resetsTusc idx) = 0 := by
    unfold cactusResets
    split_ifs <;> rfl
  rw [chunkResets, List.countP_append, List.countP_append, habacus, hcactus, tuscResets, if_pos hmode,
    countP_single, Nat.zero_add, Nat.zero_add]
  rfl

theorem countP_resetsAbacus (hmode : cfg.abacusMode = 1) (rank : ℤ) (refIdx row : ℕ) :
    (chunkResets cfg rank refIdx).countP (Event.resetsAbacus row) =
      (decide ((abacusChunkAt cfg refIdx).1 ≤ row ∧ row < (abacusChunkAt cfg refIdx).2)).toNat := by
  have hcactus : (cactusResets cfg rank refIdx).countP (Event.resetsAbacus row) = 0 := by
    unfold cactusResets
    split_ifs <;> rfl
  have htusc : (tuscResets cfg refIdx).countP (Event.resetsAbacus row) = 0 := by
    unfold tuscResets
    split_ifs <;> rfl
  rw [chunkResets, List.countP_append, List.countP_append, hcactus, htusc, abacusResets,
    if_neg (by omega), countP_single, Nat.add_zero]
  rfl

end ChannelState

/-- A table whose size is a multiple of the chunks is the blocks that REFabs reset. -/
theorem Config.blocks_eq {chunks reset size : ℕ} (hsize : chunks ∣ size) (hreset : reset ∣ chunks) :
    chunks / reset * (reset * (size / chunks)) = size := by
  rw [← mul_assoc, Nat.div_mul_cancel hreset, Nat.mul_div_cancel' hsize]

/-- Each entry of a table is met `reset` times by the blocks of `chunks` numbers in a progression. -/
theorem countP_chunks {chunks reset size y d : ℕ} (hsize : chunks ∣ size) (hreset : reset ∣ chunks)
    (hd : d.Coprime (chunks / reset)) (hy : y < size) (a b base : ℕ) :
    (List.range' a chunks).countP (fun j =>
      base + (b + j * d) % chunks % (chunks / reset) * (reset * (size / chunks)) ≤ base + y ∧
      base + y < base + (b + j * d) % chunks % (chunks / reset) * (reset * (size / chunks)) +
        reset * (size / chunks)) = reset := by
  have hmul : reset * (chunks / reset) = chunks := Nat.mul_div_cancel' hreset
  have hmod (n : ℕ) : n % chunks % (chunks / reset) = n % (chunks / reset) :=
    Nat.mod_mod_of_dvd n (Nat.div_dvd_of_dvd hreset)
  have hblock : y < chunks / reset * (reset * (size / chunks)) := by
    rw [Config.blocks_eq hsize hreset]
    exact hy
  refine Eq.trans ?_ (countP_block hd hblock a b reset)
  rw [hmul]
  congr 1
  funext j
  rw [decide_eq_decide, hmod]
  omega

namespace BankState
variable {cfg : Config} {b b' : BankState} {cmd : Command}

theorem foldl_clear (r rows n : ℕ) (prac : ℕ → ℕ) (row : ℕ) :
    (List.range n).foldl (fun prac i => Function.update prac ((r + i) % rows) 0) prac row =
      if ∃ i < n, (r + i) % rows = row then 0 else prac row := by
  induction n with
  | zero => simp
  | succ n ih =>
    rw [List.range_succ, List.foldl_append, List.foldl_cons, List.foldl_nil]
    by_cases hrow : row = (r + n) % rows
    · subst hrow
      rw [Function.update_self, if_pos ⟨n, by omega, rfl⟩]
    · rw [Function.update_of_ne hrow, ih]
      congr 1
      rw [eq_iff_iff]
      constructor
      · rintro ⟨i, hi, heq⟩
        exact ⟨i, by omega, heq⟩
      · rintro ⟨i, hi, heq⟩
        refine ⟨i, ?_, heq⟩
        by_contra hlast
        obtain rfl : i = n := by omega
        exact hrow heq.symm

/-- A REFab clears the counts of the rows that the pointer of the bank is at. -/
theorem updateState_prac_refAb (hfgr : cfg.fgr = false) (hcmd : cmd.cmdType = .refAb)
    (h : b.updateState cfg cmd = .ok b') (row : ℕ) : b'.prac row =
      if ∃ i < cfg.rowsRefreshed, (b.refIdx + i) % cfg.rows = row then 0 else b.prac row := by
  rw [updateState_refAb hcmd h, (refreshed_eq hfgr _).2]
  exact foldl_clear _ _ _ _ _

end BankState

/-- One rank, refreshed in two chunks, with every counter table in use. -/
def oneRank : Config :=
  { smallConfig with
    cactusMode := 1, dreamMode := 1, abacusMode := 1, refchunks := 2, tREFI := 8
    refreshPolicy := .rankLevelStaggered }

/-- The refreshes that fell due before a time. -/
def Refresh.dues (cfg : Config) (n : ℕ) : ℕ :=
  (List.range n).countP fun t => t % u64 (refreshInterval cfg) = 0 ∧ 0 < t

/-- No more refreshes were requested than fell due. If as many, the ranks took turns. -/
structure Controller.InTurn (cfg : Config) (c : Controller) : Prop where
  count : c.channelState.refreshRequests.length ≤ Refresh.dues cfg c.refresh.clk
  turn : c.channelState.refreshRequests.length = Refresh.dues cfg c.refresh.clk →
    c.channelState.refreshRequests.map (·.rank) = (List.range c.channelState.refreshRequests.length).map
      (fun n => ((n % cfg.ranks : ℕ) : ℤ)) ∧
    c.refresh.nextRank = c.channelState.refreshRequests.length % cfg.ranks

namespace Controller
open ChannelState
variable {cfg : Config} {c : Controller}

/-- A tick of the staggered timer. -/
theorem refreshTick_cases (hpolicy : cfg.refreshPolicy = .rankLevelStaggered) (c : Controller) :
    (c.refreshTick cfg).refresh.clk = c.refresh.clk + 1 ∧
    (Refresh.dues cfg (c.refresh.clk + 1) = Refresh.dues cfg c.refresh.clk ∧ ¬c.refresh.Due cfg ∧
        (c.refreshTick cfg).refresh.nextRank = c.refresh.nextRank ∧
        (c.refreshTick cfg).channelState = c.channelState ∨
      Refresh.dues cfg (c.refresh.clk + 1) = Refresh.dues cfg c.refresh.clk + 1 ∧ c.refresh.Due cfg ∧
        (c.refreshTick cfg).refresh.nextRank = (c.refresh.nextRank + 1) % cfg.ranks ∧
        (c.refreshTick cfg).channelState = if c.channelState.rankIsSref c.refresh.nextRank then
          c.channelState else c.channelState.addRefresh (request .refAb c.refresh.nextRank (-1) (-1))) := by
  have hdues : Refresh.dues cfg (c.refresh.clk + 1) =
      Refresh.dues cfg c.refresh.clk + if c.refresh.Due cfg then 1 else 0 := by
    unfold Refresh.dues
    rw [List.range_succ, List.countP_append, countP_single]
    by_cases hdue : c.refresh.Due cfg
    · rw [if_pos hdue, decide_eq_true (show _ ∧ _ from hdue)]
      rfl
    · rw [if_neg hdue, decide_eq_false (show ¬(_ ∧ _) from hdue)]
      rfl
  unfold refreshTick Refresh.clockTick
  dsimp only
  by_cases hdue : c.refresh.Due cfg
  · rw [if_pos hdue] at hdues
    rw [if_pos (show _ ∧ _ from hdue)]
    refine ⟨rfl, .inr ⟨hdues, hdue, ?_, ?_⟩⟩ <;>
      simp only [Refresh.insertRefresh, hpolicy, Refresh.iterateNext]
    rfl
  · rw [if_neg hdue] at hdues
    rw [if_neg (show ¬(_ ∧ _) from hdue)]
    exact ⟨rfl, .inl ⟨hdues, hdue, rfl, rfl⟩⟩

theorem InTurn.refreshTick (hpolicy : cfg.refreshPolicy = .rankLevelStaggered) (hc : c.InTurn cfg) :
    (c.refreshTick cfg).InTurn cfg := by
  obtain ⟨hclk, ⟨hdues, _, hnext, hcs⟩ | ⟨hdues, _, hnext, hcs⟩⟩ := refreshTick_cases hpolicy c
  · refine ⟨?_, ?_⟩
    · rw [hcs, hclk, hdues]
      exact hc.count
    · rw [hcs, hclk, hdues, hnext]
      exact hc.turn
  · have hcount := hc.count
    by_cases hsref : c.channelState.rankIsSref c.refresh.nextRank
    · rw [if_pos hsref] at hcs
      refine ⟨?_, ?_⟩ <;> rw [hcs, hclk, hdues]
      · omega
      · intro heq
        omega
    · rw [if_neg hsref] at hcs
      have hreq : (c.refreshTick cfg).channelState.refreshRequests = _ :=
        hcs ▸ refreshRequests_addRefresh _ _
      have hlen : (c.refreshTick cfg).channelState.refreshRequests.length =
          c.channelState.refreshRequests.length + 1 := by
        rw [hreq, List.length_append]
        rfl
      refine ⟨?_, ?_⟩ <;> rw [hlen, hclk, hdues]
      · omega
      · intro heq
        obtain ⟨hranks, hturn⟩ := hc.turn (by omega)
        rw [hreq, List.map_append, hranks, List.range_succ, List.map_append, hnext, hturn,
          Nat.mod_add_mod]
        exact ⟨rfl, rfl⟩

end Controller

namespace Micro
open Controller ChannelState
variable {cfg : Config} {π : Policy} {m m' : Micro}

theorem Reached.inTurn (hpolicy : cfg.refreshPolicy = .rankLevelStaggered) (h : Reached cfg π m) :
    m.ctl.InTurn cfg := by
  refine h.induct (P := fun m => m.ctl.InTurn cfg) (fun boot => ⟨Nat.zero_le _, fun _ => ⟨rfl, ?_⟩⟩)
    fun m m' hm hs => ?_
  · exact (Nat.zero_mod _).symm
  · obtain ⟨hrefresh, hreq⟩ | htick := hs.timer
    · refine ⟨?_, ?_⟩ <;> rw [hrefresh, hreq]
      · exact hm.count
      · exact hm.turn
    · rw [htick]
      exact hm.refreshTick hpolicy

/-- Steps that leave the timer where it is ask for no refresh. -/
theorem requests_of_steps (h : Relation.ReflTransGen (Step cfg π) m m')
    (hclk : m'.ctl.refresh.clk = m.ctl.refresh.clk) :
    m'.ctl.channelState.refreshRequests = m.ctl.channelState.refreshRequests := by
  have hinv := invariant_of_steps
    (P := fun n => m.ctl.refresh.clk < n.ctl.refresh.clk ∨
      n.ctl.refresh.clk = m.ctl.refresh.clk ∧
        n.ctl.channelState.refreshRequests = m.ctl.channelState.refreshRequests)
    (fun n n' hn hs => by
      obtain ⟨hrefresh, hreq⟩ | htick := hs.timer
      · rw [hrefresh, hreq]
        exact hn
      · left
        have hnext : n'.ctl.refresh.clk = n.ctl.refresh.clk + 1 := by rw [htick]; rfl
        omega)
    h (.inr ⟨rfl, rfl⟩)
  obtain hlt | ⟨_, hreq⟩ := hinv
  · omega
  · exact hreq

end Micro

/-- In every tick of a run, a refresh that falls due finds its rank out of self-refresh. -/
def Controller.Awake (cfg : Config) : Controller → List Input → Prop
  | _, [] => True
  | c, input :: inputs =>
    (input = .clockTick → c.refresh.Due cfg →
      c.channelState.rankIsSref c.refresh.nextRank = false) ∧
    ∀ c', c.step cfg input = .ok c' → Awake cfg c' inputs

instance Controller.decidableAwake (cfg : Config) : ∀ c inputs, Decidable (Controller.Awake cfg c inputs)
  | _, [] => .isTrue trivial
  | c, input :: inputs =>
    have : Decidable (input = .clockTick → c.refresh.Due cfg →
        c.channelState.rankIsSref c.refresh.nextRank = false) :=
      match input with
      | .clockTick => decidable_of_iff (c.refresh.Due cfg →
          c.channelState.rankIsSref c.refresh.nextRank = false) (by simp)
      | .addTransaction _ _ | .returnDoneTrans _ | .others _ _ => .isTrue (by simp)
    match h : c.step cfg input with
    | .ok c' =>
      have := decidableAwake cfg c' inputs
      decidable_of_iff ((input = .clockTick → c.refresh.Due cfg →
          c.channelState.rankIsSref c.refresh.nextRank = false) ∧ Controller.Awake cfg c' inputs)
        (by simp [Controller.Awake, h])
    | .error _ => decidable_of_iff (input = .clockTick → c.refresh.Due cfg →
        c.channelState.rankIsSref c.refresh.nextRank = false) (by simp [Controller.Awake, h])

namespace Controller
open ChannelState Micro
variable {cfg : Config} {c c' : Controller}

theorem clockTick_requests (hr : Reached cfg .free (rest c)) (h : c.clockTick cfg = .ok c') :
    c'.refresh = (c.refreshTick cfg).refresh ∧
      c'.channelState.refreshRequests = (c.refreshTick cfg).channelState.refreshRequests := by
  have hrefresh : c'.refresh = (c.refreshTick cfg).refresh :=
    congrArg Prod.snd (clockTick_timers h)
  refine ⟨hrefresh, ?_⟩
  have hsteps := (ticked_realizes (π := .free) hr.synced (by simp [Admits, Policy.free])).1 c' h
  have hreq := requests_of_steps hsteps (congrArg Refresh.clk hrefresh)
  exact hreq.trans (refreshRequests_append [] clockTick_log (by simp))

/-- Only a tick moves the timer, and only its own turn asks for refreshes. -/
theorem step_requests {input : Input} (hr : Reached cfg .free (rest c))
    (h : c.step cfg input = .ok c') :
    input = .clockTick ∧ c'.refresh = (c.refreshTick cfg).refresh ∧
        c'.channelState.refreshRequests = (c.refreshTick cfg).channelState.refreshRequests ∨
      c'.refresh = c.refresh ∧ c'.channelState.refreshRequests = c.channelState.refreshRequests := by
  cases input with
  | addTransaction addr isWrite =>
    cases h
    right
    split_ifs
    · obtain ⟨_, _, _, _, _, _, _, heq⟩ := c.addTransaction_eq cfg addr isWrite
      rw [heq]
      exact ⟨rfl, rfl⟩
    · exact ⟨rfl, rfl⟩
  | returnDoneTrans clk =>
    cases h
    obtain ⟨_, _, heq⟩ := c.returnDoneTrans_eq clk
    rw [heq]
    exact .inr ⟨rfl, rfl⟩
  | others rcc draws =>
    cases h
    exact .inr ⟨rfl, rfl⟩
  | clockTick => exact .inl ⟨rfl, clockTick_requests hr h⟩

theorem reached_step {input : Input} (hr : Reached cfg .free (rest c))
    (h : c.step cfg input = .ok c') : Reached cfg .free (rest c') := by
  have hadmits : Admits cfg .free c input := by cases input <;> simp [Admits, Policy.free]
  exact hr.step ((step_realizes hr.synced hadmits).1 c' h)

/-- What the timer keeps while the due ranks are awake holds of the timer and the requests at the end
of the run. -/
theorem awake_run_induct {P : Refresh → List Command → Prop}
    (htick : ∀ c : Controller, P c.refresh c.channelState.refreshRequests →
      (c.refresh.Due cfg → c.channelState.rankIsSref c.refresh.nextRank = false) →
      P (c.refreshTick cfg).refresh (c.refreshTick cfg).channelState.refreshRequests)
    {inputs : List Input} (hr : Reached cfg .free (rest c))
    (hc : P c.refresh c.channelState.refreshRequests) (hawake : c.Awake cfg inputs)
    (h : c.run cfg inputs = .ok c') : P c'.refresh c'.channelState.refreshRequests := by
  induction inputs generalizing c with
  | nil =>
    cases h
    exact hc
  | cons input inputs ih =>
    rw [run, List.foldlM_cons, bind_ok_iff] at h
    obtain ⟨c₁, h₁, h⟩ := h
    refine ih (reached_step hr h₁) ?_ (hawake.2 c₁ h₁) h
    obtain ⟨rfl, hrefresh, hreq⟩ | ⟨hrefresh, hreq⟩ := step_requests hr h₁
    · rw [hrefresh, hreq]
      exact htick c hc (hawake.1 rfl)
    · rw [hrefresh, hreq]
      exact hc

/-- While the due ranks are awake, every refresh that falls due is requested. -/
theorem all_requested_run (hpolicy : cfg.refreshPolicy = .rankLevelStaggered) {inputs : List Input}
    (hr : Reached cfg .free (rest c))
    (hall : c.channelState.refreshRequests.length = Refresh.dues cfg c.refresh.clk)
    (hawake : c.Awake cfg inputs) (h : c.run cfg inputs = .ok c') :
    c'.channelState.refreshRequests.length = Refresh.dues cfg c'.refresh.clk := by
  refine awake_run_induct (P := fun r reqs => reqs.length = Refresh.dues cfg r.clk)
    (fun c hall hawake => ?_) hr hall hawake h
  obtain ⟨hclk, ⟨hdues, _, _, hcs⟩ | ⟨hdues, hdue, _, hcs⟩⟩ := refreshTick_cases hpolicy c
  · rw [hcs, hclk, hdues]
    exact hall
  · rw [if_neg (by simp [hawake hdue])] at hcs
    rw [hcs, hclk, hdues, refreshRequests_addRefresh, List.length_append, hall]
    rfl

end Controller

def Refab.ofRank (k : ℕ) (r : Refab) : Bool := r.rank = (k : ℤ)

/-- The REFabs of one rank, when the ranks take turns. -/
theorem Micro.Reached.refabs_rank {cfg : Config} {m : Micro}
    (hpolicy : cfg.refreshPolicy = .rankLevelStaggered) (h : Micro.Reached cfg .free m)
    (hall : m.ctl.channelState.refreshRequests.length = Refresh.dues cfg m.ctl.refresh.clk) {k : ℕ}
    (hk : k < cfg.ranks) :
    ∃ n, ((refabs m.ctl.channelState.log).filter (Refab.ofRank k)).map (fun r => (r.rank, r.resets)) =
      ((List.range n).map fun j => ((k : ℤ),
        ChannelState.chunkResets cfg k ((k + j * cfg.ranks) % cfg.refchunks))).reverse := by
  have hord : m.ctl.channelState.refreshRequests = _ := h.ordered.requests
  have hranks : m.ctl.channelState.refreshesIssued.map (·.rank) =
      (List.range m.ctl.channelState.refreshesIssued.length).map
        fun n => ((n % cfg.ranks : ℕ) : ℤ) := by
    -- the issued refreshes are the first of the requests
    have hturn := ((h.inTurn hpolicy).turn hall).1
    rw [hord, List.map_append, List.length_append, List.range_eq_range', ← List.range'_append_1,
      List.map_append, ← List.range_eq_range'] at hturn
    exact (List.append_inj hturn (by simp)).1
  obtain ⟨n, hn⟩ := h.refabs_eq (.inr hpolicy) hranks
  obtain ⟨n', hn'⟩ := filter_residue_range hk n
  refine ⟨n', ?_⟩
  have hfilter : ((refabs m.ctl.channelState.log).filter (Refab.ofRank k)).map
      (fun r => (r.rank, r.resets)) = ((refabs m.ctl.channelState.log).map
        fun r => (r.rank, r.resets)).filter (fun p => p.1 = (k : ℤ)) := by
    rw [List.filter_map]
    rfl
  have hmod (j : ℕ) : (k + j * cfg.ranks) % cfg.ranks = k := by
    rw [Nat.add_mul_mod_self_right, Nat.mod_eq_of_lt hk]
  have hpred : ((fun p : ℤ × List Event => decide (p.1 = (k : ℤ))) ∘ fun n =>
      (((n % cfg.ranks : ℕ) : ℤ), ChannelState.chunkResets cfg ((n % cfg.ranks : ℕ) : ℤ)
        (n % cfg.refchunks))) = fun n => decide (n % cfg.ranks = k) := by
    funext n
    rw [Function.comp_apply, decide_eq_decide]
    exact Int.natCast_inj
  rw [hfilter, hn, List.filter_reverse, List.filter_map, hpred, hn', List.map_map]
  congr 1
  apply List.map_congr_left
  intro j _
  simp only [Function.comp_apply, hmod]

/-- Two ranks, refreshed in turn, in two chunks. -/
def twoRanks : Config :=
  { smallConfig with
    ranks := 2, ranks_pos := smallConfig.banksPerGroup_pos, rows_lt := twice_smallConfig_rows_lt
    cactusMode := 1, refchunks := 2, tREFI := 16, refreshPolicy := .rankLevelStaggered }

def threeRanks : Config :=
  { twoRanks with ranks := 3, ranks_pos := by decide, rows_lt := by decide, tREFI := 24 }

end CactusDram

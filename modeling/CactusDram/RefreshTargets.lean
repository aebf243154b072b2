import CactusDram.RefreshCoverage
import CactusDram.Foundations.Turns

/-! Which banks the refresh timer asks for: the order of the banksets under the bankset policy, and
the ranks of a due tick under the simultaneous policy. -/
namespace CactusDram
open Foundations

/-- The banksets of a channel. -/
def Config.banksets (cfg : Config) : ℕ := cfg.ranks * cfg.banksPerGroup

theorem Config.banksets_pos (cfg : Config) : 0 < cfg.banksets :=
  Nat.mul_pos cfg.ranks_pos cfg.banksPerGroup_pos

namespace Refresh
open ChannelState
variable {cfg : Config} {r : Refresh}

/-- The bankset that the timer is at, among those of the channel. -/
def place (cfg : Config) (r : Refresh) : ℕ := r.nextRank * cfg.banksPerGroup + r.nextBank

theorem place_stepBank (hrank : r.nextRank < cfg.ranks) (hbank : r.nextBank < cfg.banksPerGroup) :
    (r.stepBank cfg).place cfg = (r.place cfg + 1) % cfg.banksets ∧
      (r.stepBank cfg).nextRank < cfg.ranks ∧ (r.stepBank cfg).nextBank < cfg.banksPerGroup := by
  unfold stepBank place Config.banksets
  dsimp only
  by_cases hlast : r.nextBank + 1 = cfg.banksPerGroup
  · have hcarry : r.nextRank * cfg.banksPerGroup + r.nextBank + 1 =
        (r.nextRank + 1) * cfg.banksPerGroup := by
      rw [Nat.succ_mul]
      omega
    rw [hlast, Nat.mod_self, if_pos rfl, hcarry, Nat.mul_mod_mul_right]
    exact ⟨rfl, Nat.mod_lt _ cfg.ranks_pos, cfg.banksPerGroup_pos⟩
  · rw [Nat.mod_eq_of_lt (show r.nextBank + 1 < cfg.banksPerGroup by omega),
      if_neg (Nat.succ_ne_zero _)]
    refine ⟨?_, hrank, by omega⟩
    have hle := Nat.mul_le_mul_right cfg.banksPerGroup (Nat.succ_le_of_lt hrank)
    rw [Nat.succ_mul] at hle
    rw [Nat.mod_eq_of_lt (by omega), Nat.add_assoc]

/-- The timer after `n` insertions under the bankset policy: its bankgroup counts the turns up to a
skip. -/
structure AtTurn (cfg : Config) (n : ℕ) (r : Refresh) : Prop where
  rank : r.nextRank < cfg.ranks
  bank : r.nextBank < cfg.banksPerGroup
  bg : r.nextBg = n % cfg.bankgroups
  place : r.place cfg = skippingTurn cfg.bankgroups cfg.banksets n

theorem AtTurn.iterateNext (hpolicy : cfg.refreshPolicy = .banksetLevelStaggered) {n : ℕ}
    (h : r.AtTurn cfg n) : (r.iterateNext cfg).AtTurn cfg (n + 1) := by
  obtain ⟨hplace, hrank, hbank⟩ := place_stepBank h.rank h.bank
  have hbg : (r.stepBank cfg).nextBg = n % cfg.bankgroups := h.bg
  have hdiv := Nat.succ_div (a := n) (b := cfg.bankgroups)
  rw [h.place, skippingTurn, Nat.mod_add_mod] at hplace
  unfold Refresh.iterateNext
  simp only [hpolicy, stepBg, hbg, Nat.mod_add_mod, ← Nat.dvd_iff_mod_eq_zero]
  split_ifs with hskip
  · rw [if_pos hskip] at hdiv
    obtain ⟨hplace', hrank', hbank'⟩ := place_stepBank
      (r := { r.stepBank cfg with nextBg := (n + 1) % cfg.bankgroups }) hrank hbank
    refine ⟨hrank', hbank', rfl, ?_⟩
    rw [hplace']
    change ((r.stepBank cfg).place cfg + 1) % _ = _
    rw [hplace, Nat.mod_add_mod, skippingTurn, hdiv]
    congr 1
    omega
  · rw [if_neg hskip] at hdiv
    refine ⟨hrank, hbank, rfl, ?_⟩
    change (r.stepBank cfg).place cfg = _
    rw [hplace, skippingTurn, hdiv]
    congr 1
    omega

end Refresh

/-- The refresh request of a bankset. -/
def banksetRequest (cfg : Config) (place : ℕ) : Command :=
  ChannelState.request .refSb ((place / cfg.banksPerGroup : ℕ) : ℤ) (-1)
    ((place % cfg.banksPerGroup : ℕ) : ℤ)

theorem banksetRequest_iff {cfg : Config} {place rank bank : ℕ} (hbank : bank < cfg.banksPerGroup) :
    ((banksetRequest cfg place).rank = rank ∧ (banksetRequest cfg place).bank = bank) ↔
      place = rank * cfg.banksPerGroup + bank := by
  have hdiv := Nat.div_add_mod place cfg.banksPerGroup
  unfold banksetRequest ChannelState.request Command.rank Command.bank
  dsimp only
  rw [Nat.cast_inj, Nat.cast_inj]
  constructor
  · rintro ⟨rfl, rfl⟩
    rw [Nat.mul_comm]
    exact hdiv.symm
  · rintro rfl
    rw [Nat.add_comm, Nat.mul_comm, Nat.add_mul_div_left _ _ cfg.banksPerGroup_pos,
      Nat.div_eq_of_lt hbank, Nat.add_mul_mod_self_left, Nat.mod_eq_of_lt hbank, Nat.zero_add]
    exact ⟨rfl, rfl⟩

namespace Controller
open ChannelState Micro
variable {cfg : Config} {c c' : Controller}

/-- While the due ranks are awake, the requests are those of the turns taken. -/
theorem banksets_run (hpolicy : cfg.refreshPolicy = .banksetLevelStaggered) {boot : Boot cfg}
    {inputs : List Input} (hawake : boot.controller.Awake cfg inputs)
    (h : boot.controller.run cfg inputs = .ok c) :
    c.channelState.refreshRequests = (List.range c.channelState.refreshRequests.length).map fun n =>
      banksetRequest cfg (skippingTurn cfg.bankgroups cfg.banksets n) := by
  have hboot : Reached cfg .free (rest boot.controller) := ⟨boot, .refl⟩
  refine (awake_run_induct (P := fun r reqs => r.AtTurn cfg reqs.length ∧
    reqs = (List.range reqs.length).map fun n =>
      banksetRequest cfg (skippingTurn cfg.bankgroups cfg.banksets n))
    (fun c hc hawake => ?_) hboot ⟨⟨cfg.ranks_pos, cfg.banksPerGroup_pos, ?_, ?_⟩, rfl⟩ hawake h).2
  · obtain ⟨hturn, hreqs⟩ := hc
    unfold refreshTick Refresh.clockTick
    dsimp only
    by_cases hdue : c.refresh.Due cfg
    · have hsref := hawake hdue
      rw [if_pos (show _ ∧ _ from hdue)]
      simp only [Refresh.insertRefresh, hpolicy, hsref, Bool.false_eq_true, if_false,
        banksetNeedRefresh, if_true, refreshRequests_addRefresh, List.length_append,
        List.length_singleton]
      have hnext := hturn.iterateNext hpolicy
      refine ⟨⟨hnext.rank, hnext.bank, hnext.bg, hnext.place⟩, ?_⟩
      rw [List.range_succ, List.map_append, ← hreqs, List.map_singleton, ← hturn.place]
      congr 2
      unfold banksetRequest Refresh.place
      rw [Nat.add_comm, Nat.mul_comm, Nat.add_mul_div_left _ _ cfg.banksPerGroup_pos,
        Nat.div_eq_of_lt hturn.bank, Nat.add_mul_mod_self_left, Nat.mod_eq_of_lt hturn.bank,
        Nat.zero_add]
    · rw [if_neg (show ¬(_ ∧ _) from hdue)]
      exact ⟨⟨hturn.rank, hturn.bank, hturn.bg, hturn.place⟩, hreqs⟩
  · exact (Nat.zero_mod _).symm
  · simp [Refresh.place, skippingTurn, Boot.controller, refreshRequests, Boot.channelState]

end Controller

/-- The rank and the bank index of a request. -/
def Command.bankset (req : Command) : ℤ × ℤ := (req.rank, req.bank)

/-- In every window of as many requests as there are banksets, each rank and bank index occurs once,
and so two successive requests of a bankset are that many requests apart. -/
structure RoundRobin (cfg : Config) (reqs : List Command) : Prop where
  once : ∀ window, window <:+: reqs → window.length = cfg.ranks * cfg.banksPerGroup →
    ∀ rank < cfg.ranks, ∀ bank < cfg.banksPerGroup,
      window.countP (fun req => req.cmdType = .refSb ∧ req.bankset = (↑rank, ↑bank)) = 1
  gap : ∀ i j, i < j → j < reqs.length →
    (reqs.map Command.bankset)[j]? = (reqs.map Command.bankset)[i]? →
    (∀ k, i < k → k < j → (reqs.map Command.bankset)[k]? ≠ (reqs.map Command.bankset)[i]?) →
    j = i + cfg.ranks * cfg.banksPerGroup

section Turns
variable {cfg : Config} {len : ℕ}

/-- The requests of the first turns. -/
def turnRequests (cfg : Config) (len : ℕ) : List Command :=
  (List.range len).map fun n => banksetRequest cfg (skippingTurn cfg.bankgroups cfg.banksets n)

theorem countP_turns {rank bank : ℕ} (hbank : bank < cfg.banksPerGroup) (l : List ℕ) :
    (l.map fun n => banksetRequest cfg (skippingTurn cfg.bankgroups cfg.banksets n)).countP
        (fun req => req.cmdType = .refSb ∧ req.bankset = (↑rank, ↑bank)) =
      l.countP fun n => skippingTurn cfg.bankgroups cfg.banksets n = rank * cfg.banksPerGroup + bank := by
  rw [List.countP_map]
  congr 1
  funext n
  rw [Function.comp_apply, decide_eq_decide, ← banksetRequest_iff hbank]
  unfold Command.bankset
  rw [Prod.mk.injEq]
  exact and_iff_right rfl

theorem bankset_inj {p q : ℕ} (h : (banksetRequest cfg p).bankset = (banksetRequest cfg q).bankset) :
    p = q := by
  unfold Command.bankset banksetRequest ChannelState.request Command.rank Command.bank at h
  dsimp only at h
  rw [Prod.mk.injEq, Nat.cast_inj, Nat.cast_inj] at h
  rw [← Nat.div_add_mod p cfg.banksPerGroup, ← Nat.div_add_mod q cfg.banksPerGroup, h.1, h.2]

theorem roundRobin_of_condition (h : cfg.banksets = 1 ∨ cfg.bankgroups = 1 ∧ Odd cfg.banksets) :
    RoundRobin cfg (turnRequests cfg len) := by
  obtain ⟨d, hd, hturn⟩ := exists_coprime_turn h
  refine ⟨fun window hwindow hlen rank hrank bank hbank => ?_, fun i j hij hj hsame hbetween => ?_⟩
  · have hrev : window.reverse <:+: ((List.range len).map fun n =>
        banksetRequest cfg (skippingTurn cfg.bankgroups cfg.banksets n)).reverse :=
      List.reverse_infix.mpr hwindow
    obtain ⟨a, ha⟩ := window_eq_range' hrev
    have hplace : rank * cfg.banksPerGroup + bank < cfg.banksets := by
      have := Nat.mul_le_mul_right cfg.banksPerGroup (Nat.succ_le_of_lt hrank)
      rw [Nat.succ_mul] at this
      unfold Config.banksets
      omega
    rw [List.reverse_injective ha, List.length_reverse, hlen, countP_turns hbank]
    simp only [hturn]
    have hcount := countP_residue hd hplace a 0 1
    rwa [Nat.one_mul] at hcount
  · have hget (k : ℕ) (hk : k < len) : ((turnRequests cfg len).map Command.bankset)[k]? =
        some (banksetRequest cfg (skippingTurn cfg.bankgroups cfg.banksets k)).bankset := by
      simp [turnRequests, hk]
    have hlen : j < len := by simpa [turnRequests] using hj
    rw [hget j hlen, hget i (by omega), Option.some_inj] at hsame
    have hmod : j * d ≡ i * d [MOD cfg.banksets] := by
      have := bankset_inj hsame
      rwa [hturn, hturn, Nat.zero_add, Nat.zero_add] at this
    have hmod' : i ≡ j [MOD cfg.banksets] := (Nat.ModEq.cancel_right_of_coprime hd.symm hmod).symm
    obtain ⟨m, hm⟩ := (Nat.modEq_iff_dvd' hij.le).mp hmod'
    have hpos := cfg.banksets_pos
    -- a bankset further on than one round has come up in between
    have hone : m = 1 := by
      by_contra hne
      have hm2 : 2 ≤ m := by
        obtain rfl | hm2 := Nat.eq_zero_or_pos m
        · omega
        · omega
      have hle := Nat.mul_le_mul_left cfg.banksets hm2
      apply hbetween (i + cfg.banksets) (by omega) (by omega)
      rw [hget _ (by omega), hget _ (by omega), hturn, hturn, Nat.add_mul, ← Nat.add_assoc,
        Nat.add_mul_mod_self_left]
    rw [hone, Nat.mul_one] at hm
    unfold Config.banksets at hm
    omega

theorem condition_of_roundRobin (h : RoundRobin cfg (turnRequests cfg len))
    (hlen : cfg.bankgroups + cfg.banksets ≤ len) :
    cfg.banksets = 1 ∨ cfg.bankgroups = 1 ∧ Odd cfg.banksets := by
  refine turn_condition cfg.bankgroups_pos cfg.banksets_pos fun a ha r hr => ?_
  have hbank : r % cfg.banksPerGroup < cfg.banksPerGroup := Nat.mod_lt _ cfg.banksPerGroup_pos
  have hrank : r / cfg.banksPerGroup < cfg.ranks :=
    Nat.div_lt_of_lt_mul (by rw [Nat.mul_comm]; exact hr)
  have hplace : r / cfg.banksPerGroup * cfg.banksPerGroup + r % cfg.banksPerGroup = r := by
    rw [Nat.mul_comm]
    exact Nat.div_add_mod r _
  have hinfix : (List.range' a cfg.banksets).map (fun n =>
      banksetRequest cfg (skippingTurn cfg.bankgroups cfg.banksets n)) <:+: turnRequests cfg len := by
    unfold turnRequests
    rw [List.range_eq_range']
    refine List.IsInfix.map _ ⟨List.range' 0 a, List.range' (a + cfg.banksets)
      (len - (a + cfg.banksets)), ?_⟩
    have hfirst := List.range'_append_1 (s := 0) (m := a) (n := cfg.banksets)
    rw [Nat.zero_add] at hfirst
    have hall := List.range'_append_1 (s := 0) (m := a + cfg.banksets)
      (n := len - (a + cfg.banksets))
    rw [Nat.zero_add] at hall
    rw [hfirst, hall]
    congr 1
    omega
  have hcount := h.once _ hinfix (by simp [Config.banksets]) _ hrank _ hbank
  rwa [countP_turns hbank, hplace] at hcount

end Turns

/-- While the due ranks are awake, the bankset policy asks for the banksets in turn when there is one
bankset, or one bankgroup and an odd number of them. Otherwise the first requests break the turn. -/
theorem bankset_refresh_turns (cfg : Config) (hpolicy : cfg.refreshPolicy = .banksetLevelStaggered)
    (boot : Boot cfg) (inputs : List Input) (c : Controller)
    (hrun : Controller.run cfg boot.controller inputs = .ok c)
    (hawake : boot.controller.Awake cfg inputs) :
    (cfg.ranks * cfg.banksPerGroup = 1 ∨ cfg.bankgroups = 1 ∧ Odd (cfg.ranks * cfg.banksPerGroup) →
      RoundRobin cfg c.channelState.refreshRequests) ∧
    (RoundRobin cfg c.channelState.refreshRequests →
      cfg.bankgroups + cfg.ranks * cfg.banksPerGroup ≤ c.channelState.refreshRequests.length →
      cfg.ranks * cfg.banksPerGroup = 1 ∨ cfg.bankgroups = 1 ∧ Odd (cfg.ranks * cfg.banksPerGroup)) := by
  have hturns : c.channelState.refreshRequests =
      turnRequests cfg c.channelState.refreshRequests.length :=
    Controller.banksets_run hpolicy hawake hrun
  constructor
  · intro hcond
    rw [hturns]
    exact roundRobin_of_condition hcond
  · intro hround hlen
    rw [hturns] at hround
    exact condition_of_roundRobin hround hlen

/-- Three banksets of one bankgroup. -/
def threeBanksets : Config :=
  { smallConfig with
    banksPerGroup := 3, banksPerGroup_pos := threeRanks.ranks_pos, rows_lt := by decide
    refreshPolicy := .banksetLevelStaggered, tREFIsb := 12 }

theorem bankset_refresh_turns_small : ∃ c,
    Controller.run threeBanksets ({} : Boot threeBanksets).controller
      (List.replicate 30 .clockTick) = .ok c ∧
    6 ≤ c.channelState.refreshRequests.length ∧
      RoundRobin threeBanksets c.channelState.refreshRequests := by
  obtain ⟨c, hrun, hc⟩ := exists_ok_of_any
    (x := Controller.run threeBanksets ({} : Boot threeBanksets).controller
      (List.replicate 30 .clockTick))
    (p := fun c => 6 ≤ c.channelState.refreshRequests.length) (by decide +kernel)
  exact ⟨c, hrun, of_decide_eq_true hc, (bankset_refresh_turns threeBanksets rfl _ _ c hrun
    (by decide +kernel)).1 (.inr ⟨rfl, by decide⟩)⟩

/-- Two banksets: the second is never asked for. -/
def twoBanksets : Config :=
  { smallConfig with refreshPolicy := .banksetLevelStaggered, tREFIsb := 8 }

theorem bankset_never_refreshed : ∃ c,
    Controller.run twoBanksets ({} : Boot twoBanksets).controller
      (List.replicate 30 .clockTick) = .ok c ∧
    ({} : Boot twoBanksets).controller.Awake twoBanksets (List.replicate 30 .clockTick) ∧
    c.channelState.refreshRequests.length = 7 ∧
    (∀ req ∈ c.channelState.refreshRequests, req.rank = 0 ∧ req.bank = 0) ∧
    ¬RoundRobin twoBanksets c.channelState.refreshRequests := by
  obtain ⟨c, hrun, hc⟩ := exists_ok_of_any
    (x := Controller.run twoBanksets ({} : Boot twoBanksets).controller
      (List.replicate 30 .clockTick))
    (p := fun c => c.channelState.refreshRequests.length = 7 ∧
      ∀ req ∈ c.channelState.refreshRequests, req.rank = 0 ∧ req.bank = 0) (by decide +kernel)
  obtain ⟨hlen, hzero⟩ := of_decide_eq_true hc
  refine ⟨c, hrun, by decide +kernel, hlen, hzero, fun hround => ?_⟩
  have hcount := hround.once (c.channelState.refreshRequests.take 2)
    (List.take_prefix 2 _).isInfix (by simp [hlen]; rfl) 0 (by decide) 1 (by decide)
  have hnone : (c.channelState.refreshRequests.take 2).countP
      (fun req => req.cmdType = .refSb ∧ req.bankset = (((0 : ℕ) : ℤ), ((1 : ℕ) : ℤ))) = 0 := by
    rw [List.countP_eq_zero]
    intro req hreq
    have := hzero req (List.mem_of_mem_take hreq)
    simp [Command.bankset, this.2]
  omega

/-- The ranks that are not in self-refresh, in order. -/
def ChannelState.awakeRanks (cfg : Config) (cs : ChannelState) : List ℕ :=
  (List.range cfg.ranks).filter fun k => !cs.rankIsSref (k : ℤ)

namespace Controller
open ChannelState Micro
variable {cfg : Config} {c c' : Controller}

/-- The ticks of a run, as the states before and after. -/
def ticks (cfg : Config) : Controller → List Input → List (Controller × Controller)
  | _, [] => []
  | c, input :: inputs =>
    match c.step cfg input, input with
    | .ok c', .clockTick => (c, c') :: ticks cfg c' inputs
    | .ok c', _ => ticks cfg c' inputs
    | .error _, _ => []

theorem ticks_spec {inputs : List Input} (hr : Reached cfg .free (rest c)) :
    ∀ t ∈ ticks cfg c inputs, Reached cfg .free (rest t.1) ∧ t.1.clockTick cfg = .ok t.2 := by
  induction inputs generalizing c with
  | nil => simp [ticks]
  | cons input inputs ih =>
    intro t ht
    unfold ticks at ht
    split at ht
    · rename_i c' hstep
      obtain rfl | ht := List.mem_cons.mp ht
      · exact ⟨hr, hstep⟩
      · exact ih (reached_step hr hstep) t ht
    · rename_i hstep
      exact ih (reached_step hr hstep) t ht
    · simp at ht

/-- A due tick asks for the first awake rank only. -/
theorem clockTick_simultaneous (hpolicy : cfg.refreshPolicy = .rankLevelSimultaneous)
    (hr : Reached cfg .free (rest c)) (h : c.clockTick cfg = .ok c') :
    c'.channelState.refreshRequests = c.channelState.refreshRequests ++
      if c.refresh.Due cfg then ((c.channelState.awakeRanks cfg).take 1).map fun k : ℕ =>
        request .refAb k (-1) (-1) else [] := by
  rw [(clockTick_requests hr h).2]
  unfold refreshTick Refresh.clockTick
  dsimp only
  by_cases hdue : c.refresh.Due cfg
  · rw [if_pos (show _ ∧ _ from hdue), if_pos hdue]
    simp only [Refresh.insertRefresh, hpolicy]
    have hcast : (do let k ← List.range cfg.ranks; pure (k : ℤ)) =
        (List.range cfg.ranks).map fun k : ℕ => (k : ℤ) := by
      simp only [List.pure_def, List.bind_eq_flatMap, List.map_eq_flatMap]
    have hawake : (List.range cfg.ranks).filter ((fun i => !c.channelState.rankIsSref i) ∘
        fun k : ℕ => (k : ℤ)) = c.channelState.awakeRanks cfg := rfl
    rw [hcast, ← List.head?_filter, List.filter_map, List.head?_map, hawake]
    cases c.channelState.awakeRanks cfg with
    | nil => simp
    | cons k rest => simp [rankNeedRefresh, refreshRequests_addRefresh]
  · rw [if_neg (show ¬(_ ∧ _) from hdue), if_neg hdue, List.append_nil]

end Controller

/-- A tick asks for one REFab of every awake rank, in rank order, if a refresh falls due, and for
nothing otherwise. -/
def RefreshesAwake (cfg : Config) (before after : Controller) : Prop :=
  after.channelState.refreshRequests = before.channelState.refreshRequests ++
    if before.refresh.Due cfg then (before.channelState.awakeRanks cfg).map fun k : ℕ =>
      ChannelState.request .refAb k (-1) (-1) else []

instance (cfg : Config) (before after : Controller) : Decidable (RefreshesAwake cfg before after) :=
  inferInstanceAs (Decidable (_ = _))

/-- The simultaneous policy serves all awake ranks in every tick of a run exactly if each due tick
finds at most one rank awake. -/
theorem simultaneous_refresh_reaches (cfg : Config)
    (hpolicy : cfg.refreshPolicy = .rankLevelSimultaneous) (boot : Boot cfg) (inputs : List Input) :
    (∀ t ∈ Controller.ticks cfg boot.controller inputs, RefreshesAwake cfg t.1 t.2) ↔
      ∀ t ∈ Controller.ticks cfg boot.controller inputs, t.1.refresh.Due cfg →
        (t.1.channelState.awakeRanks cfg).length ≤ 1 := by
  have hboot : Micro.Reached cfg .free (Micro.rest boot.controller) := ⟨boot, .refl⟩
  refine forall₂_congr fun t ht => ?_
  obtain ⟨hr, htick⟩ := Controller.ticks_spec hboot t ht
  rw [RefreshesAwake, Controller.clockTick_simultaneous hpolicy hr htick, List.append_right_inj]
  by_cases hdue : t.1.refresh.Due cfg
  · rw [if_pos hdue, if_pos hdue, forall_prop_of_true hdue]
    constructor
    · intro heq
      have hlen := congrArg List.length heq
      rw [List.length_map, List.length_map, List.length_take] at hlen
      omega
    · intro hlen
      rw [List.take_of_length_le hlen]
  · rw [if_neg hdue, if_neg hdue]
    simp [hdue]

/-- A single rank under the simultaneous policy. -/
def oneTogether : Config :=
  { smallConfig with tREFI := 8, refreshPolicy := .rankLevelSimultaneous }

theorem simultaneous_refresh_reaches_small :
    ((Controller.ticks oneTogether ({} : Boot oneTogether).controller
      (List.replicate 20 .clockTick)).any fun t => t.1.refresh.Due oneTogether) = true ∧
    ∀ t ∈ Controller.ticks oneTogether ({} : Boot oneTogether).controller
      (List.replicate 20 .clockTick), RefreshesAwake oneTogether t.1 t.2 := by
  refine ⟨by decide +kernel, (simultaneous_refresh_reaches oneTogether rfl {} _).mpr ?_⟩
  intro t _ _
  exact (List.length_filter_le _ _).trans (by simp [oneTogether, smallConfig])

/-- Two ranks, refreshed together. -/
def twoTogether : Config :=
  { smallConfig with
    ranks := 2, ranks_pos := smallConfig.banksPerGroup_pos, rows_lt := twice_smallConfig_rows_lt
    tREFI := 8, refreshPolicy := .rankLevelSimultaneous }

/-- The refreshes that fall due in a run of two ranks all go to rank 0. -/
theorem simultaneous_refresh_starves : ∃ c,
    Controller.run twoTogether ({} : Boot twoTogether).controller
      (List.replicate 30 .clockTick) = .ok c ∧
    c.channelState.awakeRanks twoTogether = [0, 1] ∧
    c.channelState.refreshRequests = List.replicate 3 (ChannelState.request .refAb 0 (-1) (-1)) ∧
    ∃ t ∈ Controller.ticks twoTogether ({} : Boot twoTogether).controller
      (List.replicate 30 .clockTick), ¬RefreshesAwake twoTogether t.1 t.2 := by
  obtain ⟨c, hrun, hc⟩ := exists_ok_of_any
    (x := Controller.run twoTogether ({} : Boot twoTogether).controller
      (List.replicate 30 .clockTick))
    (p := fun c => c.channelState.awakeRanks twoTogether = [0, 1] ∧
      c.channelState.refreshRequests = List.replicate 3 (ChannelState.request .refAb 0 (-1) (-1)))
    (by decide +kernel)
  obtain ⟨hawake, hreqs⟩ := of_decide_eq_true hc
  refine ⟨c, hrun, hawake, hreqs, ?_⟩
  have hany : (Controller.ticks twoTogether ({} : Boot twoTogether).controller
      (List.replicate 30 .clockTick)).any (fun t => ¬RefreshesAwake twoTogether t.1 t.2) := by
    decide +kernel
  obtain ⟨t, ht, hnot⟩ := List.any_eq_true.mp hany
  exact ⟨t, ht, of_decide_eq_true hnot⟩

end CactusDram

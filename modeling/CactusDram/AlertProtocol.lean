import CactusDram.Handshake

/-! The handshake of CACTUS alone: an alert, the RFMab that it asks for, and the mitigation. Each
rank is followed by itself; what the ranks share is the queue of their requests. -/
namespace CactusDram
open Foundations ChannelState

/-- Activations after the last mitigation, in the history of a rank with the newest event first. -/
def actsSince : List DeskEvent → ℕ
  | [] => 0
  | .mitigated _ :: _ => 0
  | .activated _ :: trail => actsSince trail + 1
  | .raised _ :: trail => actsSince trail

/-- Every alert finds enough activations after the last mitigation. -/
def Spaced (delay : ℤ) : List DeskEvent → Prop
  | [] => True
  | .raised _ :: trail => delay ≤ actsSince trail ∧ Spaced delay trail
  | .mitigated _ :: trail => Spaced delay trail
  | .activated _ :: trail => Spaced delay trail

variable {delay k : ℤ}

/-- What was activated after a mitigation bounds what was activated after the last one. -/
theorem actsSince_le (mid older : List DeskEvent) (hmid : ∀ j, .activated j ∈ mid → j = k) :
    actsSince (mid ++ .mitigated k :: older) ≤ mid.count (.activated k) := by
  induction mid with
  | nil => exact Nat.zero_le _
  | cons e mid ih =>
    have htail := ih fun j hj => hmid j (List.mem_cons_of_mem _ hj)
    rw [List.cons_append]
    cases e with
    | raised j => simpa [actsSince] using htail
    | mitigated j => exact Nat.zero_le _
    | activated j =>
      obtain rfl := hmid j List.mem_cons_self
      rw [List.count_cons_self]
      exact Nat.succ_le_succ htail

theorem Spaced.of_append {newer older : List DeskEvent}
    (h : Spaced delay (newer ++ .raised k :: older)) : delay ≤ actsSince older := by
  induction newer with
  | nil => exact h.1
  | cons e newer ih =>
    apply ih
    cases e with
    | raised j => exact h.2
    | mitigated j => exact h
    | activated j => exact h

def DeskEvent.rank : DeskEvent → ℤ
  | raised k => k
  | mitigated k => k
  | activated k => k

/-- The part of the protocol state that belongs to one rank. -/
structure Post where
  alert : Bool
  inflight : Bool
  pending : ℤ
  acts : ℤ
  trail : List DeskEvent

namespace Post

/-- An outstanding alert, whether or not its RFMab is requested yet. -/
def outstanding (p : Post) : Bool := p.alert || p.inflight

/-- What holds of every rank at all times. -/
structure Kept (cfg : Config) (k : ℤ) (p : Post) : Prop where
  exclusive : ¬(p.alert ∧ p.inflight)
  pending : 0 ≤ p.pending ↔ p.outstanding
  range : 0 ≤ p.pending → k * cfg.rows ≤ p.pending ∧ p.pending < (k + 1) * cfg.rows
  counts : p.trail.count (.raised k) = p.trail.count (.mitigated k) + p.outstanding.toNat
  acts : p.acts = actsSince p.trail
  spaced : Spaced cfg.aboDelayActs p.trail

variable {cfg : Config} {p : Post}

theorem Kept.boot : Kept cfg k ⟨false, false, -1, 0, []⟩ := by
  constructor <;> simp [outstanding, actsSince, Spaced]

/-- A rank that is neither alerted nor waiting may raise an alert. -/
theorem Kept.raise (h : Kept cfg k p) {idx : ℕ} (ha : p.alert = false) (hi : p.inflight = false)
    (hidx : k * cfg.rows ≤ idx ∧ (idx : ℤ) < (k + 1) * cfg.rows)
    (hacts : cfg.aboDelayActs ≤ p.acts) :
    Kept cfg k ⟨true, p.inflight, idx, p.acts, .raised k :: p.trail⟩ where
  exclusive := by simp [hi]
  pending := by simp [outstanding]
  range _ := hidx
  counts := by simpa [outstanding, ha, hi] using h.counts
  acts := h.acts
  spaced := ⟨h.acts ▸ hacts, h.spaced⟩

theorem Kept.promote (h : Kept cfg k p) (ha : p.alert = true) :
    Kept cfg k { p with alert := false, inflight := true } where
  exclusive := by simp
  pending := by simpa [outstanding, ha] using h.pending
  range := h.range
  counts := by simpa [outstanding, ha] using h.counts
  acts := h.acts
  spaced := h.spaced

theorem Kept.activate (h : Kept cfg k p) :
    Kept cfg k { p with acts := p.acts + 1, trail := .activated k :: p.trail } where
  exclusive := h.exclusive
  pending := h.pending
  range := h.range
  counts := by simpa [outstanding] using h.counts
  acts := by simp [actsSince, h.acts]
  spaced := h.spaced

/-- A mitigation of an outstanding alert leaves the rank as it was at the start. -/
theorem Kept.mitigate (h : Kept cfg k p) (hout : p.outstanding = true) :
    Kept cfg k ⟨false, false, -1, 0, .mitigated k :: p.trail⟩ where
  exclusive := by simp
  pending := by simp [outstanding]
  range hp := by simp at hp
  counts := by
    have hcounts := h.counts
    rw [hout] at hcounts
    simpa [outstanding] using hcounts
  acts := rfl
  spaced := h.spaced

end Post

namespace Desk
variable {cfg : Config} {d : Desk} {j : ℤ}

def rankPost (d : Desk) (k : ℤ) : Post where
  alert := d.alert k
  inflight := d.inflight k
  pending := d.pending k
  acts := d.acts k
  trail := d.trail.filter (·.rank = k)

/-- The requests of CACTUS for the given ranks. -/
def requests (ks : List ℤ) : List Command := ks.map fun k => request .rfmAb k (-1) (-1)

/-- Every rank keeps the protocol, and the queue holds the requests of the waiting ranks. -/
structure Kept (cfg : Config) (d : Desk) : Prop where
  ranks : ∀ k, (d.rankPost k).Kept cfg k
  queue : ∃ ks : List ℤ, ks.Nodup ∧ d.rfmQ = requests ks ∧ ∀ k, d.inflight k = true ↔ k ∈ ks

theorem any_requests (ks : List ℤ) (k : ℤ) :
    (requests ks).any (rfmTarget (request .rfmAb k (-1) (-1))) = decide (k ∈ ks) := by
  induction ks with
  | nil => rfl
  | cons i ks ih =>
    have htarget : rfmTarget (request .rfmAb k (-1) (-1)) (request .rfmAb i (-1) (-1)) =
        decide (i = k) := rfl
    rw [requests, List.map_cons, List.any_cons, htarget, ← requests, ih]
    simp [eq_comm]

theorem eraseP_requests (ks : List ℤ) (k : ℤ) :
    (requests ks).eraseP (rfmTarget (request .rfmAb k (-1) (-1))) = requests (ks.erase k) := by
  induction ks with
  | nil => rfl
  | cons i ks ih =>
    have htarget : rfmTarget (request .rfmAb k (-1) (-1)) (request .rfmAb i (-1) (-1)) =
        decide (i = k) := rfl
    rw [requests, List.map_cons]
    by_cases hi : i = k
    · subst hi
      rw [List.eraseP_cons_of_pos (by simp [htarget]), List.erase_cons_head, ← requests]
    · rw [List.eraseP_cons_of_neg (by simp [htarget, hi]),
        List.erase_cons_tail (by simpa using hi), ← requests, ih]
      rfl

theorem kept_boot (boot : Boot cfg) : Kept cfg boot.channelState.desk where
  ranks _ := Post.Kept.boot
  queue := ⟨[], List.nodup_nil, rfl, by simp [ChannelState.desk, Boot.channelState]⟩

/-- What a move does to a rank decides whether the ranks stay good: the others do not change. -/
theorem Kept.of_rank {d' : Desk} (h : d.Kept cfg) (hk : (d'.rankPost k).Kept cfg k)
    (hother : ∀ j, j ≠ k → d'.rankPost j = d.rankPost j) : ∀ j, (d'.rankPost j).Kept cfg j := by
  intro j
  by_cases hj : j = k
  · exact hj ▸ hk
  · rw [hother j hj]
    exact h.ranks j

theorem Kept.raise (h : d.Kept cfg) {idx : ℕ}
    (hidx : k * cfg.rows ≤ idx ∧ (idx : ℤ) < (k + 1) * cfg.rows) (ha : d.alert k = false)
    (hi : d.inflight k = false) (hacts : cfg.aboDelayActs ≤ d.acts k) : (d.raise k idx).Kept cfg := by
  refine ⟨h.of_rank (k := k) ?_ fun j hj => ?_, h.queue⟩
  · have hpost : (d.raise k idx).rankPost k = ⟨true, (d.rankPost k).inflight, idx,
        (d.rankPost k).acts, .raised k :: (d.rankPost k).trail⟩ := by
      simp [rankPost, Desk.raise, DeskEvent.rank]
    rw [hpost]
    exact (h.ranks k).raise ha hi hidx hacts
  · simp [rankPost, Desk.raise, DeskEvent.rank, hj, hj.symm]

theorem Kept.promote (h : d.Kept cfg) (ha : d.alert k = true) (hi : d.inflight k = false) :
    (d.promote k).Kept cfg := by
  obtain ⟨ks, hnodup, hq, hks⟩ := h.queue
  have hnew : k ∉ ks := by
    rw [← hks, hi]
    exact Bool.false_ne_true
  refine ⟨h.of_rank (k := k) ?_ fun j hj => ?_, ⟨ks ++ [k], ?_, ?_, fun j => ?_⟩⟩
  · have hpost : (d.promote k).rankPost k =
        { d.rankPost k with alert := false, inflight := true } := by
      simp [rankPost, Desk.promote, ask]
    rw [hpost]
    exact (h.ranks k).promote ha
  · simp [rankPost, Desk.promote, ask, hj]
  · exact List.nodup_append.mpr ⟨hnodup, List.nodup_singleton k, by
      rintro i hi j hj rfl
      exact hnew (List.mem_singleton.mp hj ▸ hi)⟩
  · simp only [Desk.promote, ask]
    rw [hq, any_requests, if_neg (by simpa using hnew)]
    simp [requests]
  · by_cases hj : j = k
    · simp [Desk.promote, hj]
    · simp [Desk.promote, hj, hks]

theorem Kept.activate (hmode : cfg.cactusMode ≠ 0) (h : d.Kept cfg) (k : ℤ) :
    (d.activate cfg k).Kept cfg := by
  refine ⟨h.of_rank (k := k) ?_ fun j hj => ?_, h.queue⟩
  · have hpost : (d.activate cfg k).rankPost k = { d.rankPost k with
        acts := (d.rankPost k).acts + 1, trail := .activated k :: (d.rankPost k).trail } := by
      simp [rankPost, Desk.activate, DeskEvent.rank, hmode]
    rw [hpost]
    exact (h.ranks k).activate
  · simp [rankPost, Desk.activate, DeskEvent.rank, hmode, hj, hj.symm]

/-- The pending counter of a rank is mitigated, and its request and its alert are dropped. -/
theorem Kept.absorb (h : d.Kept cfg) (hp : 0 ≤ d.pending k) : (d.absorb k).Kept cfg := by
  obtain ⟨ks, hnodup, hq, hks⟩ := h.queue
  refine ⟨h.of_rank (k := k) ?_ fun j hj => ?_, ⟨ks.erase k, hnodup.erase k, ?_, fun j => ?_⟩⟩
  · have hpost : (d.absorb k).rankPost k =
        ⟨false, false, -1, 0, .mitigated k :: (d.rankPost k).trail⟩ := by
      simp [rankPost, Desk.absorb, mitigate, release, drop, DeskEvent.rank]
    rw [hpost]
    exact (h.ranks k).mitigate ((h.ranks k).pending.mp hp)
  · simp [rankPost, Desk.absorb, mitigate, release, drop, DeskEvent.rank, hj, hj.symm]
  · simp only [Desk.absorb, mitigate, release, drop]
    rw [hq, eraseP_requests]
  · rw [hnodup.mem_erase_iff]
    by_cases hj : j = k
    · simp [Desk.absorb, release, drop, hj]
    · simp [Desk.absorb, mitigate, release, drop, hj, hks]

/-- The RFMab of a rank does what absorbing it would do. -/
theorem serve_eq_absorb {cmd : Command} (hmode : cfg.cactusMode ≠ 0) (h : d.Kept cfg)
    (hcmd : d.rfmQ.head? = some cmd) : 0 ≤ d.pending cmd.rank ∧
      d.serve cfg cmd = d.absorb cmd.rank := by
  obtain ⟨ks, _, hq, hks⟩ := h.queue
  obtain ⟨k, hk, rfl⟩ : ∃ k ∈ ks, request .rfmAb k (-1) (-1) = cmd := by
    have hmem := List.mem_of_mem_head? hcmd
    rw [hq] at hmem
    exact List.mem_map.mp hmem
  have hin : d.inflight k = true := (hks k).mpr hk
  have hpost := h.ranks k
  have hpos : 0 ≤ d.pending k := hpost.pending.mpr (by simp [Post.outstanding, rankPost, hin])
  have halert : d.alert k = false := by
    have hexcl := hpost.exclusive
    simpa [rankPost, hin] using hexcl
  have hrank : (request .rfmAb k (-1) (-1)).rank = k := rfl
  refine ⟨hpos, ?_⟩
  unfold serve
  dsimp only
  rw [hrank, if_pos ⟨rfl, hin⟩, if_pos ⟨hmode, hpos⟩]
  have hsame : Function.update d.alert k false = d.alert := by
    rw [← halert, Function.update_eq_self]
  unfold Desk.absorb
  rw [hsame]
  rfl

/-- Without the other mechanisms, the moves keep the protocol. -/
theorem Kept.move {b b' : BankId → Bool} {d' : Desk} (hmode : cfg.cactusMode ≠ 0)
    (hrfm : cfg.rfmMode = 0) (hdrfm : cfg.drfmMode = 0) (hmoat : cfg.moatMode = 0)
    (h : d.Kept cfg) (hm : Move cfg (d, b) (d', b')) : d'.Kept cfg := by
  cases hm with
  | raise _ hidx ha hi hacts => exact h.raise hidx ha hi hacts
  | promote _ ha hi => exact h.promote ha hi
  | ask hreq => omega
  | launch hlaunch => omega
  | activate k => exact h.activate hmode k
  | serve _ hfront =>
    have hhead := hfront.resolve_right fun hno => hno.2 hrfm
    obtain ⟨hpos, heq⟩ := serve_eq_absorb hmode h hhead
    rw [heq]
    exact h.absorb hpos
  | absorb _ hp => exact h.absorb hp

/-- A rank waits exactly if its RFMab is in the queue, and it is there once. -/
theorem Kept.count_request (h : d.Kept cfg) (k : ℤ) :
    (d.inflight k = true ↔ ∃ r ∈ d.rfmQ, r.cmdType = .rfmAb ∧ r.rank = k) ∧
      d.rfmQ.countP (fun r => r.cmdType = .rfmAb ∧ r.rank = k) ≤ 1 := by
  obtain ⟨ks, hnodup, hq, hks⟩ := h.queue
  constructor
  · rw [hks, hq, requests]
    simp [request, Command.rank]
  · have hcount : d.rfmQ.countP (fun r => r.cmdType = .rfmAb ∧ r.rank = k) = ks.count k := by
      rw [hq, requests, List.countP_map, List.count]
      apply List.countP_congr
      intro i _
      simp [request, Command.rank]
    rw [hcount]
    exact List.nodup_iff_count_le_one.mp hnodup k

/-- Counting the events of a rank in the whole history or in its own part is the same. -/
theorem count_rankPost (d : Desk) (k : ℤ) {e : DeskEvent} (he : e.rank = k) :
    (d.rankPost k).trail.count e = d.trail.count e :=
  List.count_filter (by simpa using he)

theorem Kept.spaced (h : d.Kept cfg) {newer mid older : List DeskEvent}
    (htrail : d.trail = newer ++ .raised k :: (mid ++ .mitigated k :: older)) :
    cfg.aboDelayActs ≤ mid.count (.activated k) := by
  have hown : (d.rankPost k).trail = newer.filter (·.rank = k) ++
      .raised k :: (mid.filter (·.rank = k) ++ .mitigated k :: older.filter (·.rank = k)) := by
    simp [rankPost, htrail, DeskEvent.rank]
  have hspaced := (h.ranks k).spaced
  rw [hown] at hspaced
  have hle := actsSince_le (k := k) (mid.filter (·.rank = k)) (older.filter (·.rank = k))
    fun j hj => of_decide_eq_true (List.mem_filter.mp hj).2
  rw [List.count_filter (by simp [DeskEvent.rank])] at hle
  have hdelay := hspaced.of_append
  omega

end Desk

theorem Micro.Reached.kept {cfg : Config} {π : Micro.Policy} {m : Micro} (hmode : cfg.cactusMode ≠ 0)
    (hrfm : cfg.rfmMode = 0) (hdrfm : cfg.drfmMode = 0) (hmoat : cfg.moatMode = 0)
    (h : Micro.Reached cfg π m) : m.ctl.channelState.desk.Kept cfg :=
  h.hand_induct (P := fun s => s.1.Kept cfg) Desk.kept_boot
    fun _ _ hs hm => hs.move hmode hrfm hdrfm hmoat hm

/-- When only CACTUS uses the queue: an alert and its request exclude each other, a pending counter
belongs to one of them, a waiting rank has one RFMab in the queue, every alert is mitigated once, and
enough activations pass between a mitigation and the next alert. -/
theorem alert_handshake (cfg : Config) (hmode : cfg.cactusMode = 1) (hrfm : cfg.rfmMode = 0)
    (hdrfm : cfg.drfmMode = 0) (hmoat : cfg.moatMode = 0) (c : Controller)
    (hc : Reachable cfg c) (k : ℤ) :
    let cs := c.channelState
    let alert := cs.cactusAlertPending k
    let inflight := cs.cactusRfmInflight k
    let pending := cs.cactusPendingCounterIdx k
    ¬(alert ∧ inflight) ∧
      ((0 ≤ pending ↔ alert ∨ inflight) ∧
        (0 ≤ pending → k * cfg.rows ≤ pending ∧ pending < (k + 1) * cfg.rows)) ∧
      ((inflight ↔ ∃ r ∈ cs.rfmQ, r.cmdType = .rfmAb ∧ r.rank = k) ∧
        cs.rfmQ.countP (fun r => r.cmdType = .rfmAb ∧ r.rank = k) ≤ 1) ∧
      cs.desk.trail.count (.raised k) =
        cs.desk.trail.count (.mitigated k) + (if alert ∨ inflight then 1 else 0) ∧
      ∀ newer mid older, cs.desk.trail = newer ++ .raised k :: (mid ++ .mitigated k :: older) →
        cfg.aboDelayActs ≤ mid.count (.activated k) := by
  have hmode' : cfg.cactusMode ≠ 0 := by omega
  have hkept : c.channelState.desk.Kept cfg :=
    (Micro.reached_of_reachable hc).kept hmode' hrfm hdrfm hmoat
  have hpost := hkept.ranks k
  have hout : (c.channelState.desk.rankPost k).outstanding =
      (c.channelState.cactusAlertPending k || c.channelState.cactusRfmInflight k) := rfl
  refine ⟨hpost.exclusive, ⟨?_, hpost.range⟩, hkept.count_request k, ?_,
    fun _ _ _ htrail => hkept.spaced htrail⟩
  · have hpending := hpost.pending
    rw [hout, Bool.or_eq_true] at hpending
    exact hpending
  · have hcounts := hpost.counts
    rw [Desk.count_rankPost _ k rfl, Desk.count_rankPost _ k rfl, hout] at hcounts
    rw [hcounts]
    cases c.channelState.cactusAlertPending k <;> cases c.channelState.cactusRfmInflight k <;> rfl

/-- Rows 0 and 1 of one bank in turn: the second alert waits for its RFMab. -/
theorem alert_handshake_small :
    let cfg : Config := { smallConfig with cactusMode := 1, cactusTh := 2 }
    ∃ c, Controller.run cfg ({} : Boot cfg).controller (Input.request 0 false 4 ++
        Input.request 2 false 4 ++ Input.request 0 false 4 ++ Input.request 2 false 4 ++
        Input.request 0 false 2) = .ok c ∧
      c.channelState.cactusRfmInflight 0 ∧ ¬c.channelState.cactusAlertPending 0 ∧
      (∃ r ∈ c.channelState.rfmQ, r.cmdType = .rfmAb ∧ r.rank = 0) ∧
      c.channelState.desk.trail.count (.raised 0) =
        c.channelState.desk.trail.count (.mitigated 0) + 1 := by
  intro cfg
  obtain ⟨c, hrun, hc⟩ := exists_ok_of_any (p := fun c : Controller => c.channelState.cactusRfmInflight 0)
    (x := Controller.run cfg ({} : Boot cfg).controller (Input.request 0 false 4 ++
      Input.request 2 false 4 ++ Input.request 0 false 4 ++ Input.request 2 false 4 ++
      Input.request 0 false 2)) (by decide +kernel)
  obtain ⟨hexcl, _, ⟨hqueue, _⟩, hcounts, _⟩ :=
    alert_handshake cfg rfl rfl rfl rfl c ⟨{}, _, hrun⟩ 0
  rw [if_pos (.inr hc)] at hcounts
  exact ⟨c, hrun, hc, fun ha => hexcl ⟨ha, hc⟩, hqueue.mp hc, hcounts⟩

end CactusDram

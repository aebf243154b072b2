import CactusDram.Channel.Banks
import CactusDram.Foundations.RunningMax
import CactusDram.RefreshCoverage
import CactusDram.Samplers

/-! The MOAT register of a bank against a scan of the rows that were activated since the register was
last cleared. -/
namespace CactusDram
open Foundations ChannelState

namespace BankState
variable {cfg : Config} {b b' : BankState} {cmd : Command} {rows : List ℕ}

/-- The register as the source stores it. -/
def encodeReg : Option ℕ → ℤ
  | none => -1
  | some row => row

/-- The next REF of the bank refreshes rows: under FGR only every second one does. -/
def refreshesNext (cfg : Config) (b : BankState) : Bool := !cfg.fgr || (b.fgrCounter + 1) % 2 = 0

/-- The register points into the rows that the next refreshing REF refreshes. -/
def pointsIntoChunk (cfg : Config) (b : BankState) : Bool :=
  (List.range cfg.rowsRefreshed).any fun k => b.moatMaxPracIdx = ((b.refIdx + k) % cfg.rows : ℕ)

/-- The command clears the register: a REF that refreshes its row, an RFMab or a DRFM. -/
def clearsRegister (cfg : Config) (b : BankState) (cmd : Command) : Bool :=
  if cmd.isRefresh then b.refreshesNext cfg && b.pointsIntoChunk cfg
  else cmd.cmdType = .rfmAb || cmd.isDRFM

/-- The activated rows after a command that finds the bank as `b`. -/
def rowsAfter (cfg : Config) (b : BankState) (cmd : Command) (rows : List ℕ) : List ℕ :=
  if cmd.cmdType = .activate then cmd.row.toNat :: rows
  else if b.clearsRegister cfg cmd then [] else rows

/-- The register holds the hottest of the rows. The other facts are what the comparisons of the source
rely on. -/
structure Scanned (cfg : Config) (b : BankState) (rows : List ℕ) : Prop where
  reg : ∃ reg, b.moatMaxPracIdx = encodeReg reg ∧ HoldsMax b.prac (· ∈ rows) reg
  inRange : ∀ r ∈ rows, r < cfg.rows
  word : ∀ r, b.prac r < 2 ^ 32
  chunk : b.refIdx < cfg.rows ∧ cfg.rowsRefreshed ∣ b.refIdx

/-- Only the register, the counts and the pointer matter. -/
theorem Scanned.congr (h : b.Scanned cfg rows) (hreg : b'.moatMaxPracIdx = b.moatMaxPracIdx)
    (hprac : b'.prac = b.prac) (hidx : b'.refIdx = b.refIdx) : b'.Scanned cfg rows := by
  obtain ⟨reg, henc, hmax⟩ := h.reg
  refine ⟨⟨reg, hreg.trans henc, ?_⟩, h.inRange, ?_, ?_⟩
  · rwa [hprac]
  · rw [hprac]
    exact h.word
  · rw [hidx]
    exact h.chunk

/-- The rows of a chunk end within the bank. -/
theorem chunk_le (hdvd : cfg.rowsRefreshed ∣ cfg.rows) (hchunk : b.refIdx < cfg.rows ∧
    cfg.rowsRefreshed ∣ b.refIdx) : b.refIdx + cfg.rowsRefreshed ≤ cfg.rows := by
  obtain ⟨m, hm⟩ := hdvd
  obtain ⟨n, hn⟩ := hchunk.2
  have hlt : n < m := by
    have hmul : cfg.rowsRefreshed * n < cfg.rowsRefreshed * m := by
      rw [← hn, ← hm]
      exact hchunk.1
    exact Nat.lt_of_mul_lt_mul_left hmul
  calc b.refIdx + cfg.rowsRefreshed = cfg.rowsRefreshed * (n + 1) := by rw [hn, Nat.mul_succ]
    _ ≤ cfg.rowsRefreshed * m := Nat.mul_le_mul_left _ hlt
    _ = cfg.rows := hm.symm

theorem rows_lt_int (cfg : Config) : cfg.rows < 2 ^ 31 := by
  have hbanks : 0 < cfg.ranks * cfg.bankgroups * cfg.banksPerGroup :=
    Nat.mul_pos (Nat.mul_pos cfg.ranks_pos cfg.bankgroups_pos) cfg.banksPerGroup_pos
  exact (Nat.le_mul_of_pos_left cfg.rows hbanks).trans_lt cfg.rows_lt

theorem u32_of_lt {n : ℕ} (h : n < 2 ^ 32) : u32 n = n := by
  unfold u32
  omega

/-- The comparisons of `moat_refresh`, in which the cleared register is the largest word, clear the
register exactly when it points into the rows that are being refreshed. -/
theorem Scanned.moatRefresh_eq (hmoat : cfg.moatMode = 1) (hdvd : cfg.rowsRefreshed ∣ cfg.rows)
    (h : b.Scanned cfg rows) :
    b.moatRefresh cfg = if b.pointsIntoChunk cfg then { b with moatMaxPracIdx := -1 } else b := by
  have hle := chunk_le hdvd h.chunk
  have hrows := rows_lt_int cfg
  obtain ⟨reg, henc, hmax⟩ := h.reg
  have hcond : (b.refIdx ≤ u32 b.moatMaxPracIdx ∧
      u32 b.moatMaxPracIdx < u32 (b.refIdx + cfg.rowsRefreshed)) ↔ b.pointsIntoChunk cfg := by
    have hend : u32 ((b.refIdx : ℤ) + cfg.rowsRefreshed) = b.refIdx + cfg.rowsRefreshed := by
      have := u32_of_lt (n := b.refIdx + cfg.rowsRefreshed) (by omega)
      push_cast at this
      exact this
    rw [hend, henc]
    unfold pointsIntoChunk
    rw [henc, List.any_eq_true]
    cases reg with
    | none =>
      refine iff_of_false ?_ ?_
      · have hminus : u32 (encodeReg none) = 2 ^ 32 - 1 := by decide
        rw [hminus]
        omega
      · rintro ⟨k, _, hk⟩
        have := of_decide_eq_true hk
        simp only [encodeReg] at this
        omega
    | some row =>
      have hrow := h.inRange row hmax.1
      have hword : u32 (encodeReg (some row)) = row := u32_of_lt (by omega)
      rw [hword]
      constructor
      · rintro ⟨hlow, hhigh⟩
        refine ⟨row - b.refIdx, List.mem_range.mpr (by omega), decide_eq_true ?_⟩
        rw [Nat.add_sub_cancel' hlow, Nat.mod_eq_of_lt hrow]
        rfl
      · rintro ⟨k, hk, heq⟩
        have hk := List.mem_range.mp hk
        have heq := of_decide_eq_true heq
        rw [Nat.mod_eq_of_lt (by omega)] at heq
        simp only [encodeReg] at heq
        omega
  unfold moatRefresh
  rw [if_neg (by omega)]
  simp only [hcond]

theorem pracRefresh_prac (row : ℕ) : (b.pracRefresh cfg).prac row =
    if ∃ k < cfg.rowsRefreshed, (b.refIdx + k) % cfg.rows = row then 0 else b.prac row :=
  foldl_clear _ _ _ _ _

/-- A refresh of rows, after the register has been cleared if it points into them. -/
theorem Scanned.refreshRows (hmoat : cfg.moatMode = 1) (hdvd : cfg.rowsRefreshed ∣ cfg.rows)
    (h : b.Scanned cfg rows) :
    ((b.moatRefresh cfg).pracRefresh cfg).Scanned cfg (if b.pointsIntoChunk cfg then [] else rows) := by
  obtain ⟨reg, henc, hmax⟩ := h.reg
  have hprac : (b.moatRefresh cfg).prac = b.prac := by
    rw [h.moatRefresh_eq hmoat hdvd]
    split_ifs <;> rfl
  have hidx : (b.moatRefresh cfg).refIdx = b.refIdx := by
    rw [h.moatRefresh_eq hmoat hdvd]
    split_ifs <;> rfl
  have hfall (row : ℕ) : ((b.moatRefresh cfg).pracRefresh cfg).prac row ≤ b.prac row := by
    rw [pracRefresh_prac, hprac]
    split_ifs
    · exact Nat.zero_le _
    · exact le_rfl
  have hword (row : ℕ) : ((b.moatRefresh cfg).pracRefresh cfg).prac row < 2 ^ 32 :=
    (hfall row).trans_lt (h.word row)
  have hchunk : ((b.moatRefresh cfg).pracRefresh cfg).refIdx < cfg.rows ∧
      cfg.rowsRefreshed ∣ ((b.moatRefresh cfg).pracRefresh cfg).refIdx := by
    change ((b.moatRefresh cfg).refIdx + cfg.rowsRefreshed) % cfg.rows < cfg.rows ∧
      cfg.rowsRefreshed ∣ ((b.moatRefresh cfg).refIdx + cfg.rowsRefreshed) % cfg.rows
    rw [hidx]
    exact ⟨Nat.mod_lt _ cfg.rows_pos,
      (Nat.dvd_mod_iff hdvd).mpr ((Nat.dvd_add_self_right).mpr h.chunk.2)⟩
  have hreg : ((b.moatRefresh cfg).pracRefresh cfg).moatMaxPracIdx =
      if b.pointsIntoChunk cfg then -1 else b.moatMaxPracIdx := by
    change (b.moatRefresh cfg).moatMaxPracIdx = _
    rw [h.moatRefresh_eq hmoat hdvd]
    split_ifs <;> rfl
  split_ifs at hreg ⊢ with hpoint
  · exact ⟨⟨none, hreg, fun _ hr => (nomatch hr)⟩, fun _ hr => (nomatch hr), hword, hchunk⟩
  · refine ⟨⟨reg, hreg.trans henc, hmax.lower (fun r _ => hfall r) fun m hm => ?_⟩, h.inRange, hword,
      hchunk⟩
    -- the row in the register is not refreshed
    rw [pracRefresh_prac, hprac, hidx, if_neg]
    rintro ⟨k, hk, heq⟩
    refine hpoint (List.any_eq_true.mpr ⟨k, List.mem_range.mpr hk, decide_eq_true ?_⟩)
    rw [henc, hm, heq]
    rfl

theorem Scanned.refreshed (hmoat : cfg.moatMode = 1) (hdvd : cfg.rowsRefreshed ∣ cfg.rows)
    (h : b.Scanned cfg rows) : (b.refreshed cfg).Scanned cfg
      (if b.refreshesNext cfg && b.pointsIntoChunk cfg then [] else rows) := by
  have hnext : ((cfg.fgr ∧ (b.fgrCounter + 1) % 2 = 0) ∨ ¬cfg.fgr) ↔ b.refreshesNext cfg := by
    unfold refreshesNext
    cases cfg.fgr <;> simp
  unfold BankState.refreshed
  dsimp only
  by_cases hrefresh : b.refreshesNext cfg
  · rw [if_pos (hnext.mpr hrefresh), hrefresh, Bool.true_and]
    generalize hb₁ : ({ b with
      fgrCounter := (b.fgrCounter + 1) % 2
      raaCtr := b.raaCtr - min b.raaCtr cfg.refRaaDecrement } : BankState) = b₁
    have hb₂ : ((b₁.grapheneRefresh cfg).hydraRefresh cfg).toBankCore = b₁.toBankCore := by simp
    have hpoint : ((b₁.grapheneRefresh cfg).hydraRefresh cfg).pointsIntoChunk cfg =
        b.pointsIntoChunk cfg := by
      unfold pointsIntoChunk
      rw [hb₂, ← hb₁]
    have hscan : ((b₁.grapheneRefresh cfg).hydraRefresh cfg).Scanned cfg rows := by
      refine h.congr ?_ ?_ ?_ <;> rw [hb₂, ← hb₁]
    rw [← hpoint]
    exact hscan.refreshRows hmoat hdvd
  · rw [if_neg (mt hnext.mp hrefresh), if_neg (by simp [hrefresh])]
    exact h.congr rfl rfl rfl

theorem bumpPrac_lt {prac : ℕ → ℕ} (h : ∀ r, prac r < 2 ^ 32) (row : ℤ) (r : ℕ) :
    bumpPrac prac row r < 2 ^ 32 := by
  unfold bumpPrac
  rw [Function.update_apply]
  split_ifs
  · unfold u32
    omega
  · exact h r

theorem Scanned.moatMitig (hmoat : cfg.moatMode = 1) (h : b.Scanned cfg rows) :
    (b.moatMitig cfg).Scanned cfg [] := by
  unfold BankState.moatMitig
  rw [if_neg (by omega)]
  split_ifs with hclear
  · exact ⟨⟨none, hclear, fun _ hr => (nomatch hr)⟩, fun _ hr => (nomatch hr), h.word, h.chunk⟩
  · refine ⟨⟨none, rfl, fun _ hr => (nomatch hr)⟩, fun _ hr => (nomatch hr), ?_, h.chunk⟩
    have hbump (p : Prop) [Decidable p] (prac : ℕ → ℕ) (row : ℤ) (hprac : ∀ r, prac r < 2 ^ 32) :
        ∀ r, (if p then bumpPrac prac row else prac) r < 2 ^ 32 := by
      intro r
      split_ifs
      · exact bumpPrac_lt hprac row r
      · exact hprac r
    refine hbump _ _ _ (hbump _ _ _ (hbump _ _ _ (hbump _ _ _ fun r => ?_)))
    rw [Function.update_apply]
    split_ifs
    · decide
    · exact h.word r

theorem Scanned.activated (hmoat : cfg.moatMode = 1) (h : b.Scanned cfg rows) {row : ℕ}
    (hrow : row < cfg.rows) (hcmd : cmd.row = row) (hcount : b.prac row ≠ 2 ^ 32 - 1) :
    (b.activated cfg cmd).Scanned cfg (row :: rows) := by
  obtain ⟨reg, henc, hmax⟩ := h.reg
  have hword := h.word row
  have hrise : u32 ((b.prac row : ℤ) + 1) = b.prac row + 1 := by
    unfold u32
    omega
  let prac := Function.update b.prac row (b.prac row + 1)
  have hheld : HoldsMax prac (· ∈ row :: rows)
      (if reg.all fun m => prac m < prac row then some row else reg) :=
    hmax.count (by simp [prac]) (fun i hi => by simp [prac, hi]) fun i => List.mem_cons
  have hpost (b : BankState) (row : ℕ) : (b.drfmPostAct row).toBankCore = b.toBankCore := by
    unfold drfmPostAct
    split <;> rfl
  have hopen : b.activated cfg cmd = (({ b with
      state := .open
      openRow := cmd.row
      raaCtr := b.raaCtr + 1
      prac := prac } : BankState).moatAct cfg row).drfmPostAct row := by
    unfold BankState.activated
    dsimp only
    rw [hcmd, Int.toNat_natCast, hrise]
  generalize hb₁ : ({ b with
    state := .open
    openRow := cmd.row
    raaCtr := b.raaCtr + 1
    prac := prac } : BankState) = b₁ at hopen
  have hreg₁ : b₁.moatMaxPracIdx = encodeReg reg := by
    rw [← hb₁]
    exact henc
  have hprac₁ : b₁.prac = prac := by rw [← hb₁]
  have hidx₁ : b₁.refIdx = b.refIdx := by rw [← hb₁]
  have hact : (b₁.moatAct cfg row).moatMaxPracIdx =
      encodeReg (if reg.all fun m => prac m < prac row then some row else reg) := by
    unfold moatAct
    rw [if_neg (by omega)]
    cases reg with
    | none =>
      have hm : b₁.moatMaxPracIdx = -1 := hreg₁
      rw [if_pos hm]
      rfl
    | some m =>
      have hm : b₁.moatMaxPracIdx = m := hreg₁
      rw [if_neg (by omega)]
      have hless : b₁.prac b₁.moatMaxPracIdx.toNat < b₁.prac row ↔ prac m < prac row := by
        rw [hm, Int.toNat_natCast, hprac₁]
      simp only [hless, Option.all_some, decide_eq_true_eq]
      split_ifs
      · rfl
      · exact hreg₁
  have hkeep : (b₁.moatAct cfg row).prac = prac ∧ (b₁.moatAct cfg row).refIdx = b.refIdx := by
    unfold moatAct
    split_ifs <;> exact ⟨hprac₁, hidx₁⟩
  rw [hopen]
  refine Scanned.congr (b := b₁.moatAct cfg row) ⟨⟨_, hact, ?_⟩, ?_, ?_, ?_⟩ ?_ ?_ ?_
  · rw [hkeep.1]
    exact hheld
  · intro r hr
    rcases List.mem_cons.mp hr with rfl | hr
    · exact hrow
    · exact h.inRange r hr
  · intro r
    rw [hkeep.1]
    by_cases hr : r = row
    · subst hr
      simp only [prac, Function.update_self]
      omega
    · simp only [prac, Function.update_of_ne hr]
      exact h.word r
  · rw [hkeep.2]
    exact h.chunk
  all_goals rw [hpost]

theorem Scanned.rfmAbServed (hmoat : cfg.moatMode = 1) (h : b.Scanned cfg rows) :
    (b.rfmAbServed cfg).Scanned cfg [] := (h.moatMitig hmoat).congr rfl rfl rfl

theorem Scanned.drfmServed (hmoat : cfg.moatMode = 1) (h : b.Scanned cfg rows) :
    (b.drfmServed cfg).Scanned cfg [] := by
  unfold BankState.drfmServed
  refine Scanned.rfmAbServed hmoat (h.congr ?_ ?_ ?_) <;> dsimp only <;> rw [trackersMitig_core]

/-- A legal command keeps the register on the hottest of the rows activated since it was cleared, if
no activation makes a count wrap around. -/
theorem Scanned.updateState (hmoat : cfg.moatMode = 1) (hdvd : cfg.rowsRefreshed ∣ cfg.rows)
    (hb : b.Scanned cfg rows)
    (hact : cmd.cmdType = .activate → ∃ row : ℕ, row < cfg.rows ∧ cmd.row = row ∧
      b.prac row ≠ 2 ^ 32 - 1)
    (h : b.updateState cfg cmd = .ok b') : b'.Scanned cfg (b.rowsAfter cfg cmd rows) := by
  have hnote (s : State) : ({ b with state := s, lastCmd := some cmd } : BankState).Scanned cfg rows :=
    hb.congr rfl rfl rfl
  obtain ⟨ty, addr, hex⟩ := cmd
  unfold BankState.updateState at h
  dsimp only at h
  cases hs : b.state with
  | «open» =>
    rw [hs] at h
    cases ty <;> cases h <;> exact hb.congr rfl rfl rfl
  | closed =>
    rw [hs] at h
    cases ty with
    | refSb | refreshBank | refAb =>
      cases h
      exact (hnote .closed).refreshed hmoat hdvd
    | drfmB | drfmSb | drfmAb =>
      cases h
      exact (hnote .closed).drfmServed hmoat
    | rfmAb =>
      cases h
      exact (hnote .closed).rfmAbServed hmoat
    | activate =>
      cases h
      obtain ⟨row, hrow, hcmd, hcount⟩ := hact rfl
      have hafter := (hnote .closed).activated hmoat hrow hcmd hcount
      have hlist : b.rowsAfter cfg ⟨.activate, addr, hex⟩ rows = row :: rows := by
        simp [rowsAfter, hcmd]
      rw [hlist]
      exact hafter
    | _ => cases h <;> exact hb.congr rfl rfl rfl
  | sref =>
    rw [hs] at h
    cases ty <;> cases h
    exact hb.congr rfl rfl rfl
  | pd | size =>
    rw [hs] at h
    cases h

end BankState

/-- The rows of a bank that were activated since its register was last cleared, read off the history
of the channel. -/
def activatedRows (cfg : Config) (i : BankId) : List Event → List ℕ
  | [] => []
  | .issue cmd _ _ found :: older =>
    if i ∈ covered cfg cmd then (found i).rowsAfter cfg cmd (activatedRows cfg i older)
    else activatedRows cfg i older
  | _ :: older => activatedRows cfg i older

theorem activatedRows_append {cfg : Config} {i : BankId} {extra older : List Event}
    (h : ∀ e ∈ extra, e.isIssue = false) :
    activatedRows cfg i (extra ++ older) = activatedRows cfg i older := by
  induction extra with
  | nil => rfl
  | cons e extra ih =>
    have hrest := ih fun e' he' => h e' (List.mem_cons_of_mem _ he')
    have he := h e List.mem_cons_self
    cases e with
    | issue => cases he
    | _ => exact hrest

/-- An activation does not find the count of its row at its largest value. -/
def Event.counts : Event → Bool
  | .issue cmd _ _ found =>
    cmd.cmdType ≠ .activate || (found cmd.bankId).prac cmd.row.toNat ≠ 2 ^ 32 - 1
  | _ => true

/-- No tracker whose members the constructor sets before those of MOAT is on. -/
def Config.MoatFirst (cfg : Config) : Prop :=
  cfg.dreamMode ≠ 1 ∧ cfg.mintMode ≠ 1 ∧ cfg.paraMode ≠ 1 ∧ cfg.grapheneMode ≠ 1 ∧ cfg.hydraMode ≠ 1

namespace Chan
variable {cfg : Config} {π : Micro.Policy} {v v' : Chan}

/-- Without Hydra, a chosen activation is for a row of the bank. -/
theorem Step.activation_row (hhydra : cfg.hydraMode ≠ 1) (hv : Ready cfg v) (h : Step cfg π v v')
    (p : Pick) (hp : v'.ticket = some p) (hact : p.cmd.cmdType = .activate) :
    ∃ row : ℕ, row < cfg.rows ∧ p.cmd.row = row := by
  cases h with
  | environment | requestRefresh | tick | query | hydraQuery | issue | drop | tock => cases hp
  | pick _ hs _ h =>
    cases hp
    obtain ⟨rfl, hb⟩ := ready_of_answer_activate h hact
    exact (inRange_of_activate hv.regular hs hb).row
  | pickHydra _ h =>
    obtain ⟨hrd, hwb, hdrain⟩ := hv.regular.hydraOff hhydra
    rw [getReadyHydraCommand_off hdrain hrd hwb] at h
    cases h

/-- The register of every bank is scanned, as long as no count wraps around. -/
structure MoatScanned (cfg : Config) (v : Chan) : Prop where
  ready : Ready cfg v
  row : ∀ p, v.ticket = some p → p.cmd.cmdType = .activate →
    ∃ row : ℕ, row < cfg.rows ∧ p.cmd.row = row
  scanned : (∀ e ∈ v.cs.log, e.counts) →
    ∀ i, (v.cs.bankStates i).Scanned cfg (activatedRows cfg i v.cs.log)

theorem MoatScanned.issue (hmoat : cfg.moatMode = 1) (hcactus : cfg.cactusMode = 0)
    (hdvd : cfg.rowsRefreshed ∣ cfg.rows) (hv : MoatScanned cfg v)
    {p : Pick} (hp : v.ticket = some p) {cs' : ChannelState}
    (h : v.cs.updateTimingAndStates cfg p.cmd v.clk p.origin = .ok cs')
    (hcount : ∀ e ∈ cs'.log, e.counts) (i : BankId) :
    (cs'.bankStates i).Scanned cfg (activatedRows cfg i cs'.log) := by
  obtain ⟨extra, hlog, hextra⟩ := (updateTimingAndStates_issued h).log
  have hissue : ∀ e ∈ extra, e.isIssue = false := fun e he => Event.isIssue_of_internal (hextra e he)
  have hold := hv.scanned (fun e he => hcount e (by rw [hlog]; simp [he])) i
  have hown : (Event.issue p.cmd v.clk p.origin v.cs.bankStates).counts :=
    hcount _ (by rw [hlog]; simp)
  rw [hlog, activatedRows_append hissue]
  obtain ⟨b, hin, hout, hleft⟩ := updateTimingAndStates_banks h i
  obtain ⟨_, _, _, heq⟩ := hleft.eq
  have hprac := (hleft.off hcactus).1
  refine BankState.Scanned.congr (b := b) ?_ (by rw [heq]) hprac (by rw [heq])
  by_cases hi : i ∈ covered cfg p.cmd
  · simp only [activatedRows, hi, if_true]
    refine hold.updateState hmoat hdvd (fun hact => ?_) (hin hi)
    obtain ⟨row, hrow, hcmd⟩ := hv.row p hp hact
    have hcov : covered cfg p.cmd = [p.cmd.bankId] :=
      covered_single (by simp [Command.isRankCMD, hact]) (by simp [Command.isSbCMD, hact])
    rw [hcov, List.mem_singleton] at hi
    subst hi
    refine ⟨row, hrow, hcmd, ?_⟩
    simpa [Event.counts, hact, hcmd] using hown
  · simp only [activatedRows, hi, if_false]
    rw [hout hi]
    exact hold

theorem MoatScanned.step (hmoat : cfg.moatMode = 1) (hcactus : cfg.cactusMode = 0)
    (hhydra : cfg.hydraMode ≠ 1) (hdvd : cfg.rowsRefreshed ∣ cfg.rows)
    (hv : MoatScanned cfg v) (h : Step cfg π v v') : MoatScanned cfg v' := by
  refine ⟨hv.ready.step h, h.activation_row hhydra hv.ready, fun hcount i => ?_⟩
  rcases h.cores_or_issue with ⟨hcores, extra, hlog, hextra⟩ | ⟨p, hp, hissue⟩
  · have hold := hv.scanned (fun e he => hcount e (by rw [hlog]; simp [he])) i
    rw [hlog, activatedRows_append hextra]
    exact hold.congr (congrArg BankCore.moatMaxPracIdx (hcores i)) (congrArg BankCore.prac (hcores i))
      (congrArg BankCore.refIdx (hcores i))
  · exact hv.issue hmoat hcactus hdvd hp hissue hcount i

/-- The constructor clears the register if MOAT is the first tracker that is on. -/
theorem moatScanned_boot (hmoat : cfg.moatMode = 1) (hfirst : cfg.MoatFirst) (boot : Boot cfg) :
    MoatScanned cfg ⟨boot.channelState, 0, none, []⟩ := by
  refine ⟨ready_boot boot, fun p hp => (by cases hp), fun _ i => ?_⟩
  obtain ⟨hdream, hmint, hpara, hgraphene, hhydra⟩ := hfirst
  have hreg : (boot.bank i).moatMaxPracIdx = -1 := by
    simp [Boot.bank, hdream, hmint, hpara, hgraphene, hhydra, hmoat]
  refine ⟨⟨none, hreg, fun _ hr => (by cases hr)⟩, fun _ hr => (by cases hr), fun _ => ?_, ?_⟩
  · exact Nat.two_pow_pos 32
  · exact ⟨cfg.rows_pos, dvd_zero _⟩

end Chan

/-- What a scan of the rows says about the register, the alert and the next refresh. -/
structure BankState.MoatScans (cfg : Config) (b : BankState) (rows : List ℕ) : Prop where
  cleared : b.moatMaxPracIdx = -1 ↔ rows = []
  hottest : b.moatMaxPracIdx ≠ -1 →
    ∃ row ∈ rows, b.moatMaxPracIdx = row ∧ ∀ r ∈ rows, b.prac r ≤ b.prac row
  alert : b.checkAlert cfg ↔ ∃ r ∈ rows, cfg.moatth < b.prac r
  refresh : b.moatRefresh cfg =
    if b.pointsIntoChunk cfg then { b with moatMaxPracIdx := -1 } else b

theorem BankState.Scanned.moatScans {cfg : Config} {b : BankState} {rows : List ℕ}
    (hmoat : cfg.moatMode = 1) (hdvd : cfg.rowsRefreshed ∣ cfg.rows)
    (hth : 0 ≤ cfg.moatth ∧ cfg.moatth < 2 ^ 31) (h : b.Scanned cfg rows) : b.MoatScans cfg rows := by
  have hword : u32 cfg.moatth = cfg.moatth.toNat := by
    unfold u32
    omega
  obtain ⟨reg, henc, hmax⟩ := h.reg
  cases reg with
  | none =>
    have hnil : rows = [] := List.eq_nil_iff_forall_not_mem.mpr hmax
    have hreg : b.moatMaxPracIdx = -1 := henc
    refine ⟨iff_of_true hreg hnil, absurd hreg, ?_, h.moatRefresh_eq hmoat hdvd⟩
    simp [BankState.checkAlert, hmoat, hreg, hnil]
  | some row =>
    obtain ⟨hrow, _, hle⟩ := hmax
    have hreg : b.moatMaxPracIdx = row := henc
    have hne : b.moatMaxPracIdx ≠ -1 := by omega
    refine ⟨iff_of_false hne (List.ne_nil_of_mem hrow), fun _ => ⟨row, hrow, hreg, hle⟩, ?_,
      h.moatRefresh_eq hmoat hdvd⟩
    have halert : b.checkAlert cfg ↔ cfg.moatth < b.prac row := by
      unfold BankState.checkAlert
      rw [if_pos hmoat, Bool.and_eq_true, decide_eq_true_eq, decide_eq_true_eq, hreg,
        Int.toNat_natCast, hword]
      omega
    rw [halert]
    constructor
    · exact fun hover => ⟨row, hrow, hover⟩
    · rintro ⟨r, hr, hover⟩
      have := hle r hr
      omega

/-- In every run in which MOAT is the only tracker with a register to set up and no activation makes
a count wrap around, the register of every bank says what a scan of the rows activated since it was
last cleared says. -/
theorem moat_register_scans (cfg : Config) (hmoat : cfg.moatMode = 1) (hcactus : cfg.cactusMode = 0)
    (hdvd : cfg.rowsRefreshed ∣ cfg.rows) (hfirst : cfg.MoatFirst)
    (hth : 0 ≤ cfg.moatth ∧ cfg.moatth < 2 ^ 31) (c : Controller) (hc : Reachable cfg c)
    (hcount : ∀ e ∈ c.channelState.log, e.counts) (i : BankId) :
    (c.channelState.bankStates i).MoatScans cfg (activatedRows cfg i c.channelState.log) := by
  have hv : Chan.MoatScanned cfg (Micro.rest c).chan :=
    (Micro.reached_of_reachable hc).chan_induct (P := Chan.MoatScanned cfg)
      (Chan.moatScanned_boot hmoat hfirst) fun _ _ hv hs =>
        hv.step hmoat hcactus hfirst.2.2.2.2 hdvd hs
  exact (hv.scanned hcount i).moatScans hmoat hdvd hth

/-- One row of a bank of four is refreshed at a time. -/
def scanConfig : Config :=
  { smallConfig with
    moatMode := 1, moatth := 1, refchunks := 4, refreshPolicy := .rankLevelSimultaneous, tREFI := 16 }

/-- Row 0 is activated twice and row 1 once before the refresh of row 0 clears the register, and row 1 once
more behind it. -/
theorem moat_register_scans_small : ∃ c, Reachable scanConfig c ∧
    activatedRows scanConfig ⟨0, 0, 0⟩ c.channelState.log = [1] ∧
    (c.channelState.log.filterMap Event.issued?).countP (fun x => x.1 = .activate) = 4 ∧
    (c.channelState.bankStates ⟨0, 0, 0⟩).moatMaxPracIdx = 1 ∧
    (c.channelState.bankStates ⟨0, 0, 0⟩).MoatScans scanConfig [1] := by
  obtain ⟨c, hrun, hc⟩ := exists_ok_of_any
    (x := Controller.run scanConfig ({} : Boot scanConfig).controller
      (Input.request 0 false 5 ++ Input.request 2 false 5 ++ Input.request 0 false 8 ++
        Input.request 2 false 4))
    (p := fun c => c.channelState.log.all Event.counts ∧
      activatedRows scanConfig ⟨0, 0, 0⟩ c.channelState.log = [1] ∧
        (c.channelState.log.filterMap Event.issued?).countP (fun x => x.1 = .activate) = 4 ∧
          (c.channelState.bankStates ⟨0, 0, 0⟩).moatMaxPracIdx = 1) (by decide +kernel)
  obtain ⟨hcount, hrows, hacts, hreg⟩ := of_decide_eq_true hc
  have hr : Reachable scanConfig c := ⟨{}, _, hrun⟩
  refine ⟨c, hr, hrows, hacts, hreg, ?_⟩
  rw [← hrows]
  exact moat_register_scans scanConfig rfl rfl (by decide)
    ⟨by decide, by decide, by decide, by decide, by decide⟩ (by decide) c hr
    (List.all_eq_true.mp hcount) _

/-- With MINT on, the constructor leaves the register as it finds the memory. -/
def mintedConfig : Config := { scanConfig with mintMode := 1 }

/-- A register whose memory held zero claims row 0 before any activation. -/
theorem moat_register_not_cleared : ∃ c, Reachable mintedConfig c ∧
    activatedRows mintedConfig ⟨0, 0, 0⟩ c.channelState.log = [] ∧
    (c.channelState.bankStates ⟨0, 0, 0⟩).moatMaxPracIdx = 0 ∧
    ¬(c.channelState.bankStates ⟨0, 0, 0⟩).MoatScans mintedConfig
      (activatedRows mintedConfig ⟨0, 0, 0⟩ c.channelState.log) := by
  refine ⟨({} : Boot mintedConfig).controller, ⟨{}, [], rfl⟩, rfl, rfl, fun h => ?_⟩
  have hreg : (({} : Boot mintedConfig).bank ⟨0, 0, 0⟩).moatMaxPracIdx = -1 := h.cleared.mpr rfl
  exact absurd hreg (by decide)

end CactusDram

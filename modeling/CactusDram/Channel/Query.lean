import CactusDram.Channel.Update

/-! What a readiness query can answer and what it can change: the answer of one bank, the walk
over the banks of a rank or bankset, and the trackers that run behind an activation. -/
namespace CactusDram
open Foundations

namespace BankState
variable {cfg : Config} {b : BankState} {cmd r : Command} {clk : ℕ}

theorem getReadyCommand_some_iff : b.getReadyCommand cfg cmd clk = .ok (some r) ↔
    ∃ ty, b.requiredType cfg cmd = .ok (some ty) ∧ b.cmdTiming ty ≤ clk ∧
      r = { cmd with cmdType := ty } := by
  unfold getReadyCommand
  rw [bind_ok_iff]
  constructor
  · rintro ⟨ty?, hty, h⟩
    cases ty? with
    | none => cases h
    | some ty =>
      simp only at h
      split at h
      · cases h; exact ⟨ty, hty, ‹_›, rfl⟩
      · cases h
  · rintro ⟨ty, hty, hle, rfl⟩
    exact ⟨some ty, hty, by simp [hle]⟩

theorem getReadyCommand_error_iff {e : Exit} :
    b.getReadyCommand cfg cmd clk = .error e ↔ b.requiredType cfg cmd = .error e := by
  unfold getReadyCommand
  rw [bind_error_iff]
  constructor
  · rintro (h | ⟨ty?, _, h⟩)
    · exact h
    · cases ty? with
      | none => cases h
      | some ty => simp only at h; split at h <;> cases h
  · exact .inl

theorem requiredType_error {e : Exit} (h : b.requiredType cfg cmd = .error e) :
    e = .abruptExit .bankGetReadyCommand := by
  unfold requiredType at h
  grind

/-- The requests a bank answers while its row buffer is open or closed. -/
def Serves (cmd : Command) : Prop :=
  cmd.isReadWrite ∨ cmd.isRefresh ∨ cmd.isRFM ∨ cmd.isDRFM ∨ cmd.cmdType = .srefEnter

theorem requiredType_ne_error (hs : b.state = .open ∨ b.state = .closed) (hcmd : Serves cmd)
    (e : Exit) : b.requiredType cfg cmd ≠ .error e := by
  obtain ⟨ty, addr, hex⟩ := cmd
  unfold requiredType
  rcases hs with hs | hs <;> rw [hs] <;>
    cases ty <;>
    simp_all [Serves, Command.isReadWrite, Command.isRead, Command.isWrite, Command.isRefresh,
      Command.isRFM, Command.isDRFM] <;>
    split_ifs <;> simp

/-- What a bank asks for before a READ or WRITE. -/
theorem requiredType_of_isReadWrite {ty : CommandType} (hcmd : cmd.isReadWrite)
    (h : b.requiredType cfg cmd = .ok (some ty)) :
    (b.state = .open ∧ ty = cmd.cmdType ∧ cmd.row = b.openRow) ∨
      (b.state = .open ∧ ty = .precharge ∧ cmd.row ≠ b.openRow) ∨
      (b.state = .closed ∧ (ty = .activate ∨ cfg.rfmMode ≠ 0 ∧ (ty = .rfmSb ∨ ty = .rfmAb))) ∨
      (b.state = .sref ∧ ty = .srefExit) := by
  unfold requiredType at h
  obtain ⟨cty, addr, hex⟩ := cmd
  cases hs : b.state <;> rw [hs] at h <;> cases cty <;>
    simp_all [Command.isReadWrite, Command.isRead, Command.isWrite] <;>
    grind

/-- The precharge that prepares a bank for a maintenance command. -/
def prechargeFor (cmd : Command) : CommandType :=
  if cmd.isRankCMD then .preAb else if cmd.isSbCMD then .preSb else .precharge

theorem prechargeFor_cases (cmd : Command) :
    prechargeFor cmd = .preAb ∨ prechargeFor cmd = .preSb ∨ prechargeFor cmd = .precharge := by
  unfold prechargeFor
  split_ifs <;> simp

theorem requiredType_of_maintenance {ty : CommandType}
    (hcmd : cmd.isRefresh ∨ cmd.isRFM ∨ cmd.isDRFM ∨ cmd.cmdType = .srefEnter)
    (h : b.requiredType cfg cmd = .ok (some ty)) :
    (b.state = .closed ∧ ty = cmd.cmdType) ∨ (b.state = .open ∧ ty = prechargeFor cmd) := by
  unfold requiredType at h
  obtain ⟨cty, addr, hex⟩ := cmd
  cases hs : b.state <;> rw [hs] at h <;> cases cty <;>
    simp_all [prechargeFor, Command.isRefresh, Command.isRFM, Command.isDRFM, Command.isRankCMD,
      Command.isSbCMD]

theorem serves_of_requiredType {ty? : Option CommandType} (h : b.requiredType cfg cmd = .ok ty?) :
    Serves cmd := by
  unfold requiredType at h
  obtain ⟨cty, addr, hex⟩ := cmd
  cases cty <;>
    first
    | exact .inl rfl
    | exact .inr (.inl rfl)
    | exact .inr (.inr (.inl rfl))
    | exact .inr (.inr (.inr (.inl rfl)))
    | exact .inr (.inr (.inr (.inr rfl)))
    | cases hs : b.state <;> rw [hs] at h <;> cases h

/-- What a bank asks for: the request itself, a precharge, or what a READ or WRITE of a closed or
sleeping bank has to wait for. -/
theorem requiredType_cases {ty : CommandType} (h : b.requiredType cfg cmd = .ok (some ty)) :
    ty = cmd.cmdType ∨ (ty = .preAb ∨ ty = .preSb ∨ ty = .precharge) ∨ cmd.isReadWrite ∧
      (ty = .activate ∨ cfg.rfmMode ≠ 0 ∧ (ty = .rfmSb ∨ ty = .rfmAb) ∨ ty = .srefExit) := by
  rcases serves_of_requiredType h with hrw | hmaint
  · rcases requiredType_of_isReadWrite hrw h with ⟨_, hty, _⟩ | ⟨_, hty, _⟩ | ⟨_, hty⟩ | ⟨_, hty⟩
    · exact .inl hty
    · exact .inr (.inl (.inr (.inr hty)))
    · exact .inr (.inr ⟨hrw, hty.imp_right .inl⟩)
    · exact .inr (.inr ⟨hrw, .inr (.inr hty)⟩)
  · rcases requiredType_of_maintenance hmaint h with ⟨_, hty⟩ | ⟨_, hty⟩
    · exact .inl hty
    · exact .inr (.inl (hty ▸ prechargeFor_cases cmd))

theorem isReadWrite_of_requires_activate (h : b.requiredType cfg cmd = .ok (some .activate)) :
    cmd.isReadWrite := by
  rcases requiredType_cases h with hty | hty | ⟨hrw, _⟩
  · have hserves := serves_of_requiredType h
    simpa [Serves, Command.isRefresh, Command.isRFM, Command.isDRFM, ← hty] using hserves
  · simp at hty
  · exact hrw

@[simp] theorem mintPreact_core (rowid : ℕ) (draws : List ℕ) :
    (b.mintPreact cfg rowid draws).1.toBankCore = b.toBankCore := by
  unfold mintPreact
  dsimp only
  split_ifs <;> rfl

@[simp] theorem paraPreact_core (rowid : ℕ) (draws : List ℕ) :
    (b.paraPreact cfg rowid draws).1.toBankCore = b.toBankCore := by
  unfold paraPreact
  split_ifs <;> rfl

@[simp] theorem grapheneCount_core (rowid : ℕ) :
    (b.grapheneCount rowid).toBankCore = b.toBankCore := by
  unfold grapheneCount
  split
  · rfl
  · split_ifs
    · rfl
    · split <;> rfl

@[simp] theorem graphenePreact_core (rowid : ℕ) :
    (b.graphenePreact cfg rowid).toBankCore = b.toBankCore := by
  unfold graphenePreact
  split_ifs
  · rfl
  · dsimp only
    split
    · exact grapheneCount_core rowid
    · exact grapheneCount_core rowid

@[simp] theorem hydraPreact_core (cmd : Command) (rcc : LRUCache) :
    (b.hydraPreact cfg cmd rcc).1.toBankCore = b.toBankCore := by
  unfold hydraPreact
  split_ifs
  · rfl
  · dsimp only
    split_ifs <;> rfl

@[simp] theorem preACT_core (cfg : Config) (b : BankState) (cmd : Command) (draws : List ℕ)
    (rcc : LRUCache) :
    (b.preACT cfg cmd draws rcc).1.toBankCore = b.toBankCore := by
  simp [preACT]

@[simp] theorem insertDrfm_core (rowid : ℕ) :
    (b.insertDrfm cfg rowid).toBankCore = b.toBankCore := by
  unfold insertDrfm
  split_ifs <;> rfl

@[simp] theorem markDRFMIssued_core : b.markDRFMIssued.toBankCore = b.toBankCore := rfl

end BankState

/-- A counter that several banks share has reached its threshold. -/
def Event.crossing : Event → Bool
  | .alert _ _ | .dreamCross _ | .abacusCross _ => true
  | _ => false

namespace ChannelState
variable {cfg : Config} {cs cs' : ChannelState} {cmd r : Command} {clk : ℕ}

/-- The core of a bank decides how it answers, except for the DRFM it may wait for. -/
def cores (cs : ChannelState) (i : BankId) : BankCore := (cs.bankStates i).toBankCore

/-- Some bank needs another command first: the answer is that command, for that bank. -/
def Diverts (cfg : Config) (cs : ChannelState) (cmd : Command) (clk : ℕ) (banks : List BankId)
    (r : Command) : Prop :=
  ∃ pre i post ty, banks = pre ++ i :: post ∧
    (∀ j ∈ pre, ∀ r', (cs.bankStates j).getReadyCommand cfg cmd clk = .ok (some r') → r' = cmd) ∧
    (cs.bankStates i).getReadyCommand cfg cmd clk = .ok (some { cmd with cmdType := ty }) ∧
    ty ≠ cmd.cmdType ∧
    r = ⟨ty, ⟨-1, i.rank, i.bankgroup, i.bank, -1, -1⟩, cmd.hexAddr⟩

/-- Every bank is ready for the command itself. -/
def AllReady (cfg : Config) (cs : ChannelState) (cmd : Command) (clk : ℕ) (banks : List BankId) :
    Prop :=
  ∀ i ∈ banks, (cs.bankStates i).getReadyCommand cfg cmd clk = .ok (some cmd)

theorem Diverts.cons {i : BankId} {rest : List BankId}
    (hi : ∀ r', (cs.bankStates i).getReadyCommand cfg cmd clk = .ok (some r') → r' = cmd)
    (h : Diverts cfg cs cmd clk rest r) : Diverts cfg cs cmd clk (i :: rest) r := by
  obtain ⟨pre, j, post, ty, rfl, hpre, hj, hne, rfl⟩ := h
  refine ⟨i :: pre, j, post, ty, rfl, ?_, hj, hne, rfl⟩
  intro k hk
  rcases List.mem_cons.mp hk with rfl | hk
  · exact hi
  · exact hpre k hk

theorem scanReady_some {banks : List BankId} {n need : ℕ} {last : Option Command}
    (hn : n + banks.length ≤ need)
    (h : cs.scanReady cfg cmd clk need banks n last = .ok (some r)) :
    Diverts cfg cs cmd clk banks r ∨
      (n + banks.length = need ∧ AllReady cfg cs cmd clk banks ∧
        (banks = [] → last = some r) ∧ (banks ≠ [] → r = cmd)) := by
  induction banks generalizing n last with
  | nil =>
    simp only [scanReady] at h
    split_ifs at h with hneed
    · refine .inr ⟨by simpa using hneed, by simp [AllReady], fun _ => ?_, fun h => (h rfl).elim⟩
      cases h; rfl
    · cases h
  | cons i rest ih =>
    rw [scanReady, bind_ok_iff] at h
    obtain ⟨ready?, hi, h⟩ := h
    simp only [List.length_cons] at hn
    cases ready? with
    | none =>
      rcases ih (by omega) h with hd | ⟨hn', _⟩
      · exact .inl (hd.cons fun r' hr' => by rw [hi] at hr'; cases hr')
      · omega
    | some ready =>
      obtain ⟨ty, hty, hle, rfl⟩ := BankState.getReadyCommand_some_iff.mp hi
      simp only at h
      split_ifs at h with hne
      · cases h
        exact .inl ⟨[], i, rest, ty, rfl, by simp, hi, hne, rfl⟩
      · have hsame : ({ cmd with cmdType := ty } : Command) = cmd := by
          rw [not_not.mp hne]
        rw [hsame] at h hi
        rcases ih (by omega) h with hd | ⟨hn', hall, hnil, hcons⟩
        · exact .inl (hd.cons fun r' hr' => by rw [hi] at hr'; cases hr'; rfl)
        · refine .inr ⟨by simp only [List.length_cons]; omega, ?_, fun h => (nomatch h), fun _ => ?_⟩
          · intro j hj
            rcases List.mem_cons.mp hj with rfl | hj
            · exact hi
            · exact hall j hj
          · by_cases hr : rest = []
            · have := hnil hr
              cases this; rfl
            · exact hcons hr

theorem scanReady_error {banks : List BankId} {n need : ℕ} {last : Option Command} {e : Exit}
    (h : cs.scanReady cfg cmd clk need banks n last = .error e) :
    ∃ i ∈ banks, (cs.bankStates i).requiredType cfg cmd = .error e := by
  induction banks generalizing n last with
  | nil => cases h
  | cons i rest ih =>
    rw [scanReady, bind_error_iff] at h
    obtain h | ⟨ready?, _, h⟩ := h
    · exact ⟨i, List.mem_cons_self, BankState.getReadyCommand_error_iff.mp h⟩
    · have hrest : ∃ j ∈ rest, (cs.bankStates j).requiredType cfg cmd = .error e := by
        cases ready? with
        | none => exact ih h
        | some ready =>
          simp only at h
          split_ifs at h
          exact ih h
      obtain ⟨j, hj, h⟩ := hrest
      exact ⟨j, List.mem_cons_of_mem i hj, h⟩

/-- The fields the trackers other than CACTUS write. -/
structure Side where
  bankStates : BankId → BankState
  draws : List ℕ
  rcc : LRUCache
  tusc : ℕ → ℕ
  tuscQ : List ℕ
  abacusTable : ℕ → AbacusEntry
  abacusQ : List ℕ

def withSide (cs : ChannelState) (s : Side) : ChannelState :=
  { cs with
    bankStates := s.bankStates
    draws := s.draws
    rcc := s.rcc
    tusc := s.tusc
    tuscQ := s.tuscQ
    abacusTable := s.abacusTable
    abacusQ := s.abacusQ }

/-- Only bank trackers differ. -/
def TrackersOnly (cs cs' : ChannelState) : Prop :=
  ∃ bs, cs' = { cs with bankStates := bs } ∧ ∀ j, (bs j).toBankCore = cs.cores j

theorem TrackersOnly.refl (cs : ChannelState) : TrackersOnly cs cs := ⟨_, rfl, fun _ => rfl⟩

theorem TrackersOnly.trans {cs₁ cs₂ cs₃ : ChannelState} (h : TrackersOnly cs₁ cs₂)
    (h' : TrackersOnly cs₂ cs₃) : TrackersOnly cs₁ cs₃ := by
  obtain ⟨bs, rfl, hbs⟩ := h
  obtain ⟨bs', rfl, hbs'⟩ := h'
  exact ⟨bs', rfl, fun j => (hbs' j).trans (hbs j)⟩

theorem trackersOnly_modifyBank {i : BankId} {f : BankState → BankState}
    (hf : ∀ b, (f b).toBankCore = b.toBankCore) : TrackersOnly cs (cs.modifyBank i f) := by
  refine ⟨_, rfl, fun j => ?_⟩
  by_cases hj : j = i
  · subst hj; simp [cores, hf]
  · simp [cores, Function.update_of_ne hj]

theorem dreamInsertBank_trackersOnly {idx : ℕ} {i : BankId}
    (h : dreamInsertBank cfg idx cs i = .ok cs') : TrackersOnly cs cs' := by
  refine foldlM_invariant (P := TrackersOnly cs) (fun c l _ c' hc hl => ?_) h (.refl cs)
  obtain ⟨row, _, hl⟩ := bind_ok_iff.mp hl
  cases hl
  exact hc.trans (trackersOnly_modifyBank fun b => BankState.insertDrfm_core row)

theorem dreamPreact_eq {i : BankId} {rowid : ℕ} (h : cs.dreamPreact cfg i rowid = .ok cs') :
    ∃ bs t q es, cs' = { cs with bankStates := bs, tusc := t, tuscQ := q, log := es ++ cs.log } ∧
      (∀ j, (bs j).toBankCore = cs.cores j) ∧ ∀ e ∈ es, e.crossing := by
  obtain ⟨idx, _, h⟩ := bind_ok_iff.mp h
  dsimp only at h
  split_ifs at h
  · cases h; exact ⟨_, _, _, [], rfl, fun _ => rfl, by simp⟩
  · obtain ⟨cs₁, hfold, h⟩ := bind_ok_iff.mp h
    have hP := foldlM_invariant (P := TrackersOnly _)
      (fun c j _ c' hc hj => hc.trans (dreamInsertBank_trackersOnly hj)) hfold (.refl _)
    obtain ⟨bs, rfl, hbs⟩ := hP
    cases h
    exact ⟨bs, _, _, [_], rfl, hbs, by simp [Event.crossing]⟩
  · cases h; exact ⟨_, _, _, [], rfl, fun _ => rfl, by simp⟩

theorem abacusPreact_eq (cfg : Config) (cs : ChannelState) (i : BankId) (rowid : ℕ) :
    ∃ bs t q es, cs.abacusPreact cfg i rowid =
        { cs with bankStates := bs, abacusTable := t, abacusQ := q, log := es ++ cs.log } ∧
      (∀ j, (bs j).toBankCore = cs.cores j) ∧ ∀ e ∈ es, e.crossing := by
  unfold abacusPreact
  dsimp only
  split_ifs
  · exact ⟨_, _, _, [], rfl, fun _ => rfl, by simp⟩
  · have hP : ∀ (l : List BankId) (c : ChannelState),
        TrackersOnly c (l.foldl (fun cs i => cs.modifyBank i fun b => b.insertDrfm cfg rowid) c) := by
      intro l
      induction l with
      | nil => exact .refl
      | cons j l ih =>
        exact fun c => (trackersOnly_modifyBank fun b => BankState.insertDrfm_core rowid).trans (ih _)
    obtain ⟨bs, hbs, hcore⟩ := hP cfg.allBanks (cs.abacusCount cfg i rowid)
    rw [hbs]
    exact ⟨bs, _, _, [_], rfl, hcore, by simp [Event.crossing]⟩
  · exact ⟨_, _, _, [], rfl, fun _ => rfl, by simp⟩

theorem withSide_cactusTrackMax (s : Side) (rank : ℤ) (idx : ℕ) :
    (cs.withSide s).cactusTrackMax cfg rank idx = (cs.cactusTrackMax cfg rank idx).withSide s := by
  simp only [cactusTrackMax, apply_ite (withSide · s)]
  rfl

theorem withSide_cactusRaise (s : Side) (rank : ℤ) (idx : ℕ) :
    (cs.withSide s).cactusRaise cfg rank idx clk = (cs.cactusRaise cfg rank idx clk).withSide s := by
  simp only [cactusRaise, apply_ite (withSide · s)]
  rfl

theorem withSide_cactusCount (s : Side) (rank : ℤ) (idx : ℕ) :
    (cs.withSide s).cactusCount cfg rank idx clk = (cs.cactusCount cfg rank idx clk).withSide s := by
  have halert (x : ChannelState) : (if cactusThreshold cfg ≤ x.cactusVal cfg idx then
      x.cactusRaise cfg rank idx clk else x).withSide s =
      if cactusThreshold cfg ≤ (x.withSide s).cactusVal cfg idx then
        (x.withSide s).cactusRaise cfg rank idx clk else x.withSide s := by
    rw [withSide_cactusRaise]
    exact apply_ite (withSide · s) _ _ _
  unfold cactusCount
  split_ifs with hmode
  · rfl
  · simp only [halert, ← withSide_cactusTrackMax]
    rfl

def noted (cs : ChannelState) (es : List Event) : ChannelState := { cs with log := es ++ cs.log }

/-- The event `preactHooks` records, read off the state after CACTUS has counted. -/
def hookEvent (cs : ChannelState) (cmd : Command) (clk : ℕ) (full : Bool) : Event :=
  .hook cmd.bankId cmd.row clk full (cs.cactusAlertPending cmd.rank) (cs.cactusRfmInflight cmd.rank)

/-- Running the trackers counts once in CACTUS, writes the fields of the other trackers and
leaves a hook in the history, after the crossings of DREAM and ABACUS. -/
theorem preactHooks_eq {full : Bool} (h : cs.preactHooks cfg cmd clk = .ok (full, cs')) :
    ∃ s idx ds as, cs.getCactusIdx cfg cmd.bankId (u32 cmd.row) = .ok idx ∧
      (∀ j, (s.bankStates j).toBankCore = cs.cores j) ∧
      (∀ e ∈ ds, e.crossing) ∧ (∀ e ∈ as, e.crossing) ∧
      cs' = ((((cs.noted ds).cactusCount cfg cmd.rank idx clk).withSide s).noted as).record
        (hookEvent ((cs.noted ds).cactusCount cfg cmd.rank idx clk) cmd clk full) := by
  unfold preactHooks at h
  dsimp only at h
  have hb := (cs.bankStates cmd.bankId).preACT_core cfg cmd cs.draws cs.rcc
  generalize (cs.bankStates cmd.bankId).preACT cfg cmd cs.draws cs.rcc = p at h hb
  obtain ⟨b, draws, rcc⟩ := p
  obtain ⟨cs₁, hdream, h₁⟩ := bind_ok_iff.mp h
  obtain ⟨bs, t, q, ds, rfl, hbs, hds⟩ := dreamPreact_eq hdream
  obtain ⟨cs₂, hcactus, h₂⟩ := bind_ok_iff.mp h₁
  obtain ⟨idx, hidx, hcactus⟩ := bind_ok_iff.mp hcactus
  let s : Side := ⟨bs, draws, rcc, t, q, cs.abacusTable, cs.abacusQ⟩
  have hcs₂ : cs₂ = ((cs.noted ds).cactusCount cfg cmd.rank idx clk).withSide s := by
    rw [← withSide_cactusCount]
    exact (Except.ok.inj hcactus).symm
  obtain ⟨bs', t', q', as, habacus, hbs', has⟩ :=
    cs₂.abacusPreact_eq cfg cmd.bankId (u32 cmd.row)
  refine ⟨{ s with bankStates := bs', abacusTable := t', abacusQ := q' }, idx, ds, as, hidx, ?_,
    hds, has, ?_⟩
  · intro j
    have hj : (bs' j).toBankCore = (bs j).toBankCore := by
      rw [hbs' j, hcs₂]
      rfl
    rw [hj, hbs j]
    by_cases hj : j = cmd.bankId
    · subst hj
      simpa [cores] using hb
    · simp [cores, Function.update_of_ne hj]
  · rw [habacus, hcs₂] at h₂
    cases h₂
    rfl

theorem launchDRFM_eq (h : cs.launchDRFM cfg cmd = .ok cs') :
    ∃ bs q calls, cs' = { cs with bankStates := bs, rfmQ := q, rfmCalls := calls } ∧
      (∀ j, (bs j).toBankCore = cs.cores j) ∧
      (q = cs.rfmQ ∨ q = cs.rfmQ ++ [drfmRequest cfg cmd]) := by
  obtain ⟨bs, hbs, hcore⟩ : TrackersOnly cs (cs.modifyBank cmd.bankId BankState.markDRFMIssued) :=
    trackersOnly_modifyBank fun _ => rfl
  simp only [launchDRFM, hbs, recordRfm, bankNeedDRFM, banksetNeedDRFM, rankNeedDRFM, needRFM,
    if_true] at h
  generalize RfmCall.launch _ _ = call at h
  unfold drfmRequest
  split_ifs at h ⊢ <;> cases h
  all_goals first
    | exact ⟨bs, _, _, rfl, hcore, .inl rfl⟩
    | exact ⟨bs, _, _, rfl, hcore, .inr rfl⟩

theorem hydraRead_eq (cs : ChannelState) (i : BankId) (row : ℤ) :
    ∃ rd, (cs.hydraRead i row).2 = { cs with hydraRdQ := rd } := by
  unfold hydraRead
  split_ifs <;> exact ⟨_, rfl⟩

theorem hydraWB_eq (cs : ChannelState) (i : BankId) (row : ℤ) :
    ∃ wb, cs.hydraWB i row = { cs with hydraWbQ := wb } := by
  unfold hydraWB
  split_ifs <;> exact ⟨_, rfl⟩

theorem hydraCheck_eq {ok : Bool} (h : cs.hydraCheck cfg cmd = (ok, cs')) :
    ∃ rcc rd wb, cs' = { cs with rcc := rcc, hydraRdQ := rd, hydraWbQ := wb } := by
  unfold hydraCheck at h
  dsimp only at h
  split_ifs at h
  · cases h; exact ⟨_, _, _, rfl⟩
  · obtain ⟨rd, hrd⟩ := hydraRead_eq { cs with
      rcc := ((cs.bankStates cmd.bankId).hydraCheckRcc cfg cmd cs.rcc).2 } cmd.bankId cmd.row
    have h2 := congrArg Prod.snd h
    rw [hrd] at h2
    exact ⟨_, rd, _, h2.symm⟩
  · have h2 := congrArg Prod.snd h
    obtain ⟨rd, hrd⟩ := hydraRead_eq { cs with
      rcc := ((cs.bankStates cmd.bankId).hydraCheckRcc cfg cmd cs.rcc).2 } cmd.bankId cmd.row
    simp only [hrd] at h2
    obtain ⟨rd', hrd'⟩ := hydraRead_eq { cs with
      rcc := ((cs.bankStates cmd.bankId).hydraCheckRcc cfg cmd cs.rcc).2, hydraRdQ := rd }
      (cfg.addressMapping ((cs.bankStates cmd.bankId).hydraCheckRcc cfg cmd cs.rcc).1).bankId
      (cfg.addressMapping ((cs.bankStates cmd.bankId).hydraCheckRcc cfg cmd cs.rcc).1).row
    rw [hrd'] at h2
    obtain ⟨wb, hwb⟩ := hydraWB_eq { cs with
      rcc := ((cs.bankStates cmd.bankId).hydraCheckRcc cfg cmd cs.rcc).2, hydraRdQ := rd' }
      (cfg.addressMapping ((cs.bankStates cmd.bankId).hydraCheckRcc cfg cmd cs.rcc).1).bankId
      (cfg.addressMapping ((cs.bankStates cmd.bankId).hydraCheckRcc cfg cmd cs.rcc).1).row
    rw [hwb] at h2
    exact ⟨_, rd', wb, h2.symm⟩
  · cases h; exact ⟨_, _, _, rfl⟩

theorem hydraCheck_off (h : cfg.hydraMode ≠ 1) : cs.hydraCheck cfg cmd = (true, cs) := by
  simp [hydraCheck, h]

/-- A Hydra query only takes metadata accesses out, and its answer is a bank's answer to one. -/
theorem getReadyHydraCommand_eq {r? : Option Command}
    (h : cs.getReadyHydraCommand cfg clk = .ok (r?, cs')) :
    (∃ d rd wb, cs' = { cs with hydraWbDraining := d, hydraRdQ := rd, hydraWbQ := wb }) ∧
      (∀ r, r? = some r → ∃ cmd ∈ cs.hydraRdQ ++ cs.hydraWbQ,
        (cs.bankStates cmd.bankId).getReadyCommand cfg cmd clk = .ok (some r)) ∧
      cs'.hydraRdQ.Sublist cs.hydraRdQ ∧ cs'.hydraWbQ.Sublist cs.hydraWbQ := by
  unfold getReadyHydraCommand at h
  dsimp only at h
  split at h
  · cases h
    exact ⟨⟨_, _, _, rfl⟩, fun r hr => (nomatch hr), .refl _, .refl _⟩
  · rename_i cmd rest hq
    obtain ⟨ready?, hready, h⟩ := bind_ok_iff.mp h
    have hmem : cmd ∈ cs.hydraRdQ ++ cs.hydraWbQ := by
      have : cmd ∈ (cs.hydraDrain cfg).hydraQueue := hq ▸ List.mem_cons_self
      unfold hydraQueue at this
      split_ifs at this
      · exact List.mem_append_right _ this
      · exact List.mem_append_left _ this
    cases ready? with
    | none => cases h; exact ⟨⟨_, _, _, rfl⟩, fun r hr => (nomatch hr), .refl _, .refl _⟩
    | some ready =>
      have hanswer : ∀ r, some ready = some r → ∃ cmd ∈ cs.hydraRdQ ++ cs.hydraWbQ,
          (cs.bankStates cmd.bankId).getReadyCommand cfg cmd clk = .ok (some r) := by
        rintro r ⟨⟩
        exact ⟨cmd, hmem, hready⟩
      simp only at h
      unfold popHydra at h
      split_ifs at h <;> cases h
      · exact ⟨⟨_, _, _, rfl⟩, fun r hr => (nomatch hr), .refl _, .refl _⟩
      · exact ⟨⟨_, _, _, rfl⟩, hanswer, .refl _, List.tail_sublist _⟩
      · exact ⟨⟨_, _, _, rfl⟩, hanswer, List.tail_sublist _, .refl _⟩
      · exact ⟨⟨_, _, _, rfl⟩, hanswer, .refl _, .refl _⟩

theorem getReadyHydraCommand_off (hd : cs.hydraWbDraining = false) (hrd : cs.hydraRdQ = [])
    (hwb : cs.hydraWbQ = []) : cs.getReadyHydraCommand cfg clk = .ok (none, cs) := by
  have hdrain : cs.hydraDrain cfg = cs := by
    cases cs
    simp_all [hydraDrain]
  simp [getReadyHydraCommand, hdrain, hydraQueue, hd, hrd]

/-- The banks a command acts on. -/
def covered (cfg : Config) (cmd : Command) : List BankId :=
  if cmd.isRankCMD then cfg.rankBanks cmd.rank
  else if cmd.isSbCMD then cfg.banksetBanks cmd.rank cmd.bank
  else [cmd.bankId]

def activation (cmd : Command) : Command := { cmd with cmdType := .activate }

/-- Everything a query can answer, with the state it leaves behind. -/
inductive Answer (cfg : Config) (cs : ChannelState) (cmd : Command) (clk : ℕ) :
    Option Command → ChannelState → Prop
  | wait : Answer cfg cs cmd clk none cs
  | divert {r : Command} (hm : cmd.isRankCMD ∨ cmd.isSbCMD)
      (h : Diverts cfg cs cmd clk (covered cfg cmd) r) : Answer cfg cs cmd clk (some r) cs
  | allReady (hm : cmd.isRankCMD ∨ cmd.isSbCMD)
      (h : AllReady cfg cs cmd clk (covered cfg cmd)) : Answer cfg cs cmd clk (some cmd) cs
  | single {r : Command} (hm : ¬cmd.isRankCMD ∧ ¬cmd.isSbCMD)
      (h : (cs.bankStates cmd.bankId).getReadyCommand cfg cmd clk = .ok (some r))
      (hact : r.cmdType ≠ .activate) (hrfm : r.isRFM = false) : Answer cfg cs cmd clk (some r) cs
  | needRFMsb (h : (cs.bankStates cmd.bankId).getReadyCommand cfg cmd clk =
      .ok (some { cmd with cmdType := .rfmSb })) (hm : ¬cmd.isRankCMD ∧ ¬cmd.isSbCMD) :
      Answer cfg cs cmd clk none (cs.banksetNeedRFM cmd.rank cmd.bank true)
  | needRFMab (h : (cs.bankStates cmd.bankId).getReadyCommand cfg cmd clk =
      .ok (some { cmd with cmdType := .rfmAb })) (hm : ¬cmd.isRankCMD ∧ ¬cmd.isSbCMD) :
      Answer cfg cs cmd clk none (cs.rankNeedRFM cmd.rank true)
  | eager {cs' : ChannelState} (hpol : cfg.drfmPolicy = 0)
      (hfull : (cs.bankStates cmd.bankId).isSamplerFull cfg = true)
      (h : cs.launchDRFM cfg cmd = .ok cs')
      (hb : (cs.bankStates cmd.bankId).getReadyCommand cfg cmd clk = .ok (some (activation cmd))) :
      Answer cfg cs cmd clk none cs'
  | hydraWait {cs' : ChannelState} (h : cs.hydraCheck cfg cmd = (false, cs'))
      (hb : (cs.bankStates cmd.bankId).getReadyCommand cfg cmd clk = .ok (some (activation cmd))) :
      Answer cfg cs cmd clk none cs'
  | lazy {cs₁ cs₂ cs' : ChannelState} (hpol : cfg.drfmPolicy = 1)
      (hcheck : cs.hydraCheck cfg cmd = (true, cs₁))
      (hhook : cs₁.preactHooks cfg cmd clk = .ok (true, cs₂))
      (h : cs₂.launchDRFM cfg cmd = .ok cs')
      (hb : (cs.bankStates cmd.bankId).getReadyCommand cfg cmd clk = .ok (some (activation cmd))) :
      Answer cfg cs cmd clk none cs'
  | activate {cs₁ cs' : ChannelState} {full : Bool} (hpol : cfg.drfmPolicy = 1 → full = false)
      (hcheck : cs.hydraCheck cfg cmd = (true, cs₁))
      (hhook : cs₁.preactHooks cfg cmd clk = .ok (full, cs'))
      (hb : (cs.bankStates cmd.bankId).getReadyCommand cfg cmd clk = .ok (some (activation cmd)))
      (hfree : cfg.drfmPolicy = 0 → (cs.bankStates cmd.bankId).isSamplerFull cfg = false) :
      Answer cfg cs cmd clk (some (activation cmd)) cs'

/-- Only an activation changes the channel when it is answered. -/
theorem Answer.eq_of_ne_activate (h : Answer cfg cs cmd clk (some r) cs')
    (hr : r.cmdType ≠ .activate) : cs' = cs := by
  cases h with
  | divert | allReady | single => rfl
  | activate => exact absurd rfl hr

theorem readyActivate_answer {r? : Option Command}
    (hb : (cs.bankStates cmd.bankId).getReadyCommand cfg cmd clk = .ok (some (activation cmd)))
    (h : cs.readyActivate cfg cmd (activation cmd) clk = .ok (r?, cs')) :
    Answer cfg cs cmd clk r? cs' := by
  unfold readyActivate at h
  dsimp only at h
  split_ifs at h with hwin hpol hcheck
  · cases h; exact .wait
  · obtain ⟨cs₁, hl, h⟩ := bind_ok_iff.mp h
    cases h
    exact .eager hpol.1 hpol.2 hl hb
  · cases h
    exact .hydraWait (Prod.ext (by simpa using hcheck) rfl) hb
  · obtain ⟨⟨full, cs₂⟩, hhook, h⟩ := bind_ok_iff.mp h
    have hc : cs.hydraCheck cfg cmd = (true, (cs.hydraCheck cfg cmd).2) :=
      Prod.ext (by simpa using hcheck) rfl
    simp only at h
    split_ifs at h with hlazy
    · obtain ⟨cs₃, hl, h⟩ := bind_ok_iff.mp h
      cases h
      obtain ⟨hpol, rfl⟩ := hlazy
      exact .lazy hpol hc hhook hl hb
    · cases h
      refine .activate (fun hpol => ?_) hc hhook hb fun hzero => ?_
      · simpa [hpol] using hlazy
      · simpa [hzero] using hpol

theorem getReadyCommand_answer {r? : Option Command}
    (h : cs.getReadyCommand cfg cmd clk = .ok (r?, cs')) : Answer cfg cs cmd clk r? cs' := by
  unfold getReadyCommand at h
  split_ifs at h with hrank hsb hhydra
  · obtain ⟨ready?, hscan, h⟩ := bind_ok_iff.mp h
    cases h
    cases r? with
    | none => exact .wait
    | some r =>
      have hlen := cfg.rankBanks_length cmd.rank
      rcases scanReady_some (by rw [hlen]; omega) hscan with hd | ⟨_, hall, _, hr⟩
      · exact .divert (.inl hrank) (by simpa [covered, hrank] using hd)
      · rw [hr (cfg.rankBanks_ne_nil _)]
        exact .allReady (.inl hrank) (by simpa [covered, hrank] using hall)
  · obtain ⟨ready?, hscan, h⟩ := bind_ok_iff.mp h
    cases h
    cases r? with
    | none => exact .wait
    | some r =>
      have hlen := cfg.banksetBanks_length cmd.rank cmd.bank
      rcases scanReady_some (by rw [hlen]; omega) hscan with hd | ⟨_, hall, _, hr⟩
      · exact .divert (.inr hsb) (by simpa [covered, hrank, hsb] using hd)
      · rw [hr (cfg.banksetBanks_ne_nil _ _)]
        exact .allReady (.inr hsb) (by simpa [covered, hrank, hsb] using hall)
  · cases h; exact .wait
  · obtain ⟨ready?, hb, h⟩ := bind_ok_iff.mp h
    cases ready? with
    | none => cases h; exact .wait
    | some r =>
      obtain ⟨ty, hty, hle, rfl⟩ := BankState.getReadyCommand_some_iff.mp hb
      simp only at h
      split at h
      · cases h
        exact .needRFMsb (by simpa using hb) ⟨hrank, hsb⟩
      · cases h
        exact .needRFMab (by simpa using hb) ⟨hrank, hsb⟩
      · exact readyActivate_answer hb h
      · cases h
        refine .single ⟨hrank, hsb⟩ hb ‹_› ?_
        simp_all [Command.isRFM]

end ChannelState
end CactusDram

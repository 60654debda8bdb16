import Chimera.Oplog.Prune

/-!
# What pruning keeps

A pass samples the head, the time and the row that the row count keeps last, each in a statement of
its own, and deletes behind them later.  Rows are committed meanwhile.  What it deletes is still in
excess of a limit when it is deleted: too old for the age limit at the sampled time, or not among
the newest rows that the row count keeps.  When nothing is committed meanwhile, all that is in
excess goes, except the newest row.
-/

namespace Chimera

open SequencedLog StepSystem

/-- The action commits rows. -/
def ServerAction.commits : ServerAction → Bool
  | .commit _ => true
  | _ => false

/-- The row is in excess of one of the limits: it was too old at the sampled time, or it is not
among the newest rows. -/
def InExcess (maxRows maxAge : ℕ) (sampled : Option ℕ) (rows : List OplogRow) (r : OplogRow) :
    Prop :=
  (0 < maxAge ∧ ∃ now ∈ sampled, r.ts.t + maxAge < now) ∨ (0 < maxRows ∧ r ∉ newest maxRows rows)

/-- The age cutoff of a pass, when the time has been sampled. -/
def CutoffAt (maxAge : ℕ) (sampled : Option ℕ) (cutoff : Option ℕ) : Prop :=
  (sampled ≠ none → 0 < maxAge) ∧ cutoff = sampled.bind fun now => ageCutoff now maxAge

/-! ## What a condition selects -/

variable {maxRows maxAge head now : ℕ} {sampled cutoff : Option ℕ} {rows new : List OplogRow}
  {r : OplogRow} {w : PruneWhere}

/-- A row is before the cutoff when it was too old at the sampled time. -/
lemma CutoffAt.any_iff (h : CutoffAt maxAge sampled cutoff) :
    (cutoff.any fun c => decide (r.ts.t < c)) = true ↔
      0 < maxAge ∧ ∃ now ∈ sampled, r.ts.t + maxAge < now := by
  obtain ⟨hpos, rfl⟩ := h
  cases sampled with
  | none => simp
  | some now =>
    have hmaxAge : 0 < maxAge := hpos nofun
    simp only [Option.bind_some, ageCutoff, Option.mem_def, Option.some.injEq, exists_eq_left',
      hmaxAge, true_and]
    split
    · simp only [Option.any_some, decide_eq_true_eq]
      omega
    · simp only [Option.any_none, Bool.false_eq_true, false_iff]
      omega

/-- A row is before the cut when it is not among the newest rows. -/
lemma rowCut_any_iff (hseq : Sequenced OplogRow.seq rows) (hpos : 0 < maxRows) (hr : r ∈ rows) :
    ((rowCut rows maxRows).any fun c => decide (r.seq < c)) = true ↔ r ∉ newest maxRows rows := by
  unfold rowCut
  cases hy : rows.reverse[maxRows - 1]? with
  | none => simp [newest_eq_self hpos hy, hr]
  | some y =>
    simp only [Option.map_some, Option.any_some, decide_eq_true_eq,
      mem_newest_iff hseq hpos hy hr, not_le]

/-- What is in excess of the limits stays it when rows are appended. -/
lemma InExcess.append (h : InExcess maxRows maxAge sampled rows r) (hr : r ∉ new) :
    InExcess maxRows maxAge sampled (rows ++ new) r :=
  h.imp_right fun ⟨hpos, hnot⟩ => ⟨hpos, fun hmem => (mem_newest_append hmem).elim hnot hr⟩

namespace OplogServer

/-- The time that the action samples. -/
def sample (s : OplogServer) : ServerAction → Option ℕ
  | .pruneStep now =>
    match s.pruning with
    | .age _ _ _ => some now
    | _ => none
  | _ => none

/-- The time that the first pass among the actions samples, if it samples the time. -/
def sampledTime (s : OplogServer) : List ServerAction → Option ℕ
  | [] => none
  | a :: as => (s.sample a).or ((s.step a).bind fun s' => sampledTime s' as)

/-! ## The invariant of a pass -/

/-- The condition selects only what is in excess of the limits, and all of that when nobody has
committed since the pass found the rows `start`. -/
structure Chooses (maxRows maxAge : ℕ) (sampled : Option ℕ) (start : List OplogRow) (alone : Prop)
    (rows : List OplogRow) (w : PruneWhere) : Prop where
  /-- What it selects is in excess. -/
  sound : ∀ r ∈ rows, w.selects r = true → InExcess maxRows maxAge sampled rows r
  /-- What is in excess, it selects. -/
  complete : alone → ∀ r ∈ start, InExcess maxRows maxAge sampled start r →
    r.seq < oplogHead start → w.selects r = true

/-- The survivors are without rows that are in excess of the limits only, and without all of these
when nobody has committed since the pass found the rows `start`. -/
structure Spares (maxRows maxAge : ℕ) (sampled : Option ℕ) (start : List OplogRow) (alone : Prop)
    (rows survivors : List OplogRow) : Prop where
  /-- What goes is in excess. -/
  sound : ∀ r ∈ rows, r ∉ survivors → InExcess maxRows maxAge sampled rows r
  /-- What is in excess goes. -/
  complete : alone → ∀ r ∈ start, InExcess maxRows maxAge sampled start r →
    r.seq < oplogHead start → r ∉ survivors

/-- What holds of a pass with these limits that found the rows `start`. -/
def PassPhase (maxRows maxAge : ℕ) (sampled : Option ℕ) (start : List OplogRow) (alone : Prop)
    (rows : List OplogRow) : PrunePhase → Prop
  | .idle => alone → rows.Sublist start ∧ Spares maxRows maxAge sampled start alone start rows
  | .rollback => ¬ alone
  | .head n age => n = maxRows ∧ age = maxAge ∧ sampled = none
  | .age n age head => n = maxRows ∧ age = maxAge ∧ 0 < maxAge ∧ sampled = none ∧
      (alone → head = oplogHead start)
  | .cut n head cutoff => n = maxRows ∧ 0 < maxRows ∧ CutoffAt maxAge sampled cutoff ∧
      (alone → head = oplogHead start)
  | .newest w => Chooses maxRows maxAge sampled start alone rows w
  | .timestamp w newest => Chooses maxRows maxAge sampled start alone rows w ∧
      (alone → newestSelected w start = some newest)
  | .begin plan | .lockClock plan | .lockHistory plan | .verify plan | .delete plan =>
    Chooses maxRows maxAge sampled start alone rows plan.condition ∧
      (alone → newestSelected plan.condition start = some plan.newest)
  | .publish _ survivors _ | .commit survivors _ _ =>
    Spares maxRows maxAge sampled start alone rows survivors

/-- The invariant of a pass with these limits that found the rows `start`. -/
structure PassInv (maxRows maxAge : ℕ) (sampled : Option ℕ) (start : List OplogRow) (alone : Prop)
    (s : OplogServer) : Prop where
  /-- When nobody commits, the rows are those that the pass found. -/
  rows : alone → s.pruning ≠ .idle → s.rows = start
  /-- What the pass carries from one statement to the next. -/
  phase : PassPhase maxRows maxAge sampled start alone s.rows s.pruning

variable {s s' : OplogServer} {a : ServerAction} {as : List ServerAction} {start : List OplogRow}
  {alone : Prop} {plan : PrunePlan}

/-! ## The statements of a pass -/

/-- The condition of a pass selects what is behind the head and in excess of the limits. -/
lemma selects_iff_inExcess (hseq : Sequenced OplogRow.seq rows)
    (hcutoff : CutoffAt maxAge sampled w.cutoff)
    (hcut : w.cut = if 0 < maxRows then rowCut rows maxRows else none) (hr : r ∈ rows) :
    w.selects r = true ↔ r.seq < w.head ∧ InExcess maxRows maxAge sampled rows r := by
  have hrows : (w.cut.any fun c => decide (r.seq < c)) = true ↔
      0 < maxRows ∧ r ∉ newest maxRows rows := by
    rw [hcut]
    split
    · next hpos => simp only [rowCut_any_iff hseq hpos hr, hpos, true_and]
    · next hoff => simp [hoff]
  simp only [PruneWhere.selects, Bool.and_eq_true, Bool.or_eq_true, decide_eq_true_eq,
    hcutoff.any_iff, hrows, InExcess]

/-- Nothing goes. -/
lemma spares_self (h : alone → ∀ r ∈ rows, InExcess maxRows maxAge sampled rows r →
    ¬ r.seq < oplogHead rows) : Spares maxRows maxAge sampled rows alone rows rows :=
  ⟨fun _ hr hnot => absurd hr hnot, fun halone r hr hexcess hlt =>
    absurd hlt (h halone r hr hexcess)⟩

/-- With its limits known, the pass has a sound condition, or ends. -/
lemma passPhase_planned (hseq : Sequenced OplogRow.seq rows)
    (hcutoff : CutoffAt maxAge sampled w.cutoff)
    (hcut : w.cut = if 0 < maxRows then rowCut rows maxRows else none)
    (hhead : alone → w.head = oplogHead start) (hrows : alone → rows = start) :
    PassPhase maxRows maxAge sampled start alone rows (.planned w) := by
  unfold PrunePhase.planned
  split
  · next hnone =>
    intro halone
    obtain rfl := hrows halone
    refine ⟨List.Sublist.refl _, spares_self fun _ r hr hexcess hlt => ?_⟩
    have hsel := (selects_iff_inExcess hseq hcutoff hcut hr).2 ⟨hhead halone ▸ hlt, hexcess⟩
    simp [PruneWhere.selects, hnone.1, hnone.2] at hsel
  · refine ⟨fun r hr hsel => ((selects_iff_inExcess hseq hcutoff hcut hr).1 hsel).2, ?_⟩
    intro halone r hr hexcess hlt
    obtain rfl := hrows halone
    exact (selects_iff_inExcess hseq hcutoff hcut hr).2 ⟨hhead halone ▸ hlt, hexcess⟩

/-- With the age limit known, the pass goes on to the row count. -/
lemma passPhase_counted (hseq : Sequenced OplogRow.seq rows)
    (hcutoff : CutoffAt maxAge sampled cutoff) (hhead : alone → head = oplogHead start)
    (hrows : alone → rows = start) :
    PassPhase maxRows maxAge sampled start alone rows (.counted maxRows head cutoff) := by
  unfold PrunePhase.counted
  split
  · next hpos => exact ⟨rfl, hpos, hcutoff, hhead⟩
  · next hoff => exact passPhase_planned hseq hcutoff (if_neg hoff).symm hhead hrows

/-- What the condition selects is not beyond the last row that it selects. -/
lemma le_of_newestSelected {last : ℕ} (hseq : Sequenced OplogRow.seq rows)
    (hlast : newestSelected w rows = some last) (hr : r ∈ rows) (hsel : w.selects r = true) :
    r.seq ≤ last := by
  obtain ⟨y, hy, rfl⟩ := Option.map_eq_some_iff.1 hlast
  exact (hseq.filter _).le_of_getLast? hy (List.mem_filter.2 ⟨hr, hsel⟩)

/-- The last row that the condition selects. -/
lemma exists_of_newestSelected {last : ℕ} (hlast : newestSelected w rows = some last) :
    ∃ r ∈ rows, r.seq = last ∧ w.selects r = true := by
  obtain ⟨y, hy, rfl⟩ := Option.map_eq_some_iff.1 hlast
  obtain ⟨hmem, hsel⟩ := List.mem_filter.1 (List.mem_of_getLast? hy)
  exact ⟨y, hmem, rfl, hsel⟩

/-- The `DELETE` takes what the condition selects. -/
lemma Chooses.spares (hseq : Sequenced OplogRow.seq rows) (hrows : alone → rows = start)
    (h : Chooses maxRows maxAge sampled start alone rows plan.condition)
    (hlast : alone → newestSelected plan.condition start = some plan.newest) :
    Spares maxRows maxAge sampled start alone rows (rows.filter fun r => !plan.dooms r) := by
  refine ⟨fun r hr hnot => h.sound r hr ?_, fun halone r hr hexcess hlt hmem => ?_⟩
  · by_contra hsel
    refine hnot (List.mem_filter.2 ⟨hr, ?_⟩)
    have hkept : plan.dooms r = false :=
      Bool.eq_false_iff.2 fun hdooms => hsel (PrunePlan.dooms_iff.1 hdooms).2
    simp [hkept]
  · have hsel := h.complete halone r hr hexcess hlt
    obtain rfl := hrows halone
    have hdooms : plan.dooms r = true :=
      PrunePlan.dooms_iff.2 ⟨le_of_newestSelected hseq (hlast halone) hr hsel, hsel⟩
    simp [hdooms] at hmem

/-- With the last row that is selected known, the pass goes on, unless there is none. -/
lemma passPhase_newest (h : Chooses maxRows maxAge sampled start alone rows w)
    (hrows : alone → rows = start) :
    PassPhase maxRows maxAge sampled start alone rows
      (match newestSelected w rows with
      | none => .idle
      | some newest => .timestamp w newest) := by
  cases hlast : newestSelected w rows with
  | none =>
    intro halone
    obtain rfl := hrows halone
    refine ⟨List.Sublist.refl _, spares_self fun _ r hr hexcess hlt => ?_⟩
    have hsel := h.complete halone r hr hexcess hlt
    have hnone := List.getLast?_eq_none_iff.1 (Option.map_eq_none_iff.1 hlast)
    exact absurd hsel (List.filter_eq_nil_iff.1 hnone r hr)
  | some last => exact ⟨h, fun halone => by rw [← hrows halone, hlast]⟩

/-- With its timestamp known, the pass has its plan. -/
lemma passPhase_timestamp {last : ℕ} (h : Chooses maxRows maxAge sampled start alone rows w)
    (hlast : alone → newestSelected w start = some last) (hrows : alone → rows = start) :
    PassPhase maxRows maxAge sampled start alone rows
      (match latestSelected w rows with
      | none => .idle
      | some timestamp => .begin ⟨w, last, timestamp⟩) := by
  cases hstamp : latestSelected w rows with
  | none =>
    intro halone
    obtain ⟨r, hr, -, hsel⟩ := exists_of_newestSelected (hlast halone)
    have hmem : r.ts ∈ (rows.filter w.selects).map OplogRow.ts :=
      List.mem_map_of_mem (List.mem_filter.2 ⟨(hrows halone).symm ▸ hr, hsel⟩)
    rw [List.max?_eq_none_iff.1 hstamp] at hmem
    exact absurd hmem List.not_mem_nil
  | some stamp => exact ⟨h, hlast⟩

/-- A plan whose last row is gone deletes nothing, and somebody has committed. -/
lemma passPhase_verify (h : Chooses maxRows maxAge sampled start alone rows plan.condition)
    (hlast : alone → newestSelected plan.condition start = some plan.newest)
    (hrows : alone → rows = start) {history : History} :
    PassPhase maxRows maxAge sampled start alone rows
      (if rows.any fun r => decide (r.seq = plan.newest) && plan.condition.selects r then
        .delete plan
      else .commit rows [] history) := by
  split
  · exact ⟨h, hlast⟩
  · next hnone =>
    refine ⟨fun _ hr hnot => absurd hr hnot, fun halone => ?_⟩
    obtain ⟨r, hr, hseq, hsel⟩ := exists_of_newestSelected (hlast halone)
    refine absurd (List.any_eq_true.2 ⟨r, (hrows halone).symm ▸ hr, ?_⟩) hnone
    simp [hseq, hsel]

/-- The pass goes on. -/
lemma PassInv.setPhase {sampled' : Option ℕ} {p : PrunePhase}
    (hP : s.PassInv maxRows maxAge sampled start alone) (hne : s.pruning ≠ .idle)
    (hp : PassPhase maxRows maxAge sampled' start alone s.rows p) :
    ({ s with pruning := p } : OplogServer).PassInv maxRows maxAge sampled' start alone :=
  ⟨fun halone _ => hP.rows halone hne, hp⟩

/-- A statement of the pass keeps what holds of it. -/
lemma PassInv.pruneStatement (hI : s.Inv) (hP : s.PassInv maxRows maxAge sampled start alone)
    (h : s.pruneStatement now = some s') :
    s'.PassInv maxRows maxAge (sampled.or (s.sample (.pruneStep now))) start alone := by
  have hseq : Sequenced OplogRow.seq s.rows :=
    (Sequenced.append_iff.1 hI.sequenced).1.sublist hI.rows_sublist
  have hphase := hP.phase
  have hrows := hP.rows
  have hsplits := hI.phase
  cases hp : s.pruning with
  | idle => simp [OplogServer.pruneStatement, hp] at h
  | head n age =>
    have hne : s.pruning ≠ .idle := by simp [hp]
    rw [hp] at hphase
    obtain ⟨rfl, rfl, rfl⟩ := hphase
    simp only [OplogServer.pruneStatement, hp] at h
    cases h
    simp only [sample, hp, Option.or_none]
    refine hP.setPhase hne ?_
    split
    · next hzero =>
      intro halone
      obtain rfl := hrows halone hne
      exact ⟨List.Sublist.refl _, spares_self fun _ r _ _ => by omega⟩
    · split
      · next hage => exact ⟨rfl, rfl, hage, rfl, fun halone => by rw [hrows halone hne]⟩
      · exact passPhase_counted hseq ⟨fun hsome => absurd rfl hsome, rfl⟩
          (fun halone => by rw [hrows halone hne]) fun halone => hrows halone hne
  | age n age head =>
    have hne : s.pruning ≠ .idle := by simp [hp]
    rw [hp] at hphase
    obtain ⟨rfl, rfl, hage, rfl, hhead⟩ := hphase
    simp only [OplogServer.pruneStatement, hp] at h
    cases h
    simp only [sample, hp, Option.none_or]
    exact hP.setPhase hne (passPhase_counted hseq ⟨fun _ => hage, rfl⟩ hhead
      fun halone => hrows halone hne)
  | cut n head cutoff =>
    have hne : s.pruning ≠ .idle := by simp [hp]
    rw [hp] at hphase
    obtain ⟨rfl, hpos, hcutoff, hhead⟩ := hphase
    simp only [OplogServer.pruneStatement, hp] at h
    cases h
    simp only [sample, hp, Option.or_none]
    exact hP.setPhase hne (passPhase_planned hseq hcutoff (if_pos hpos).symm hhead
      fun halone => hrows halone hne)
  | newest w =>
    have hne : s.pruning ≠ .idle := by simp [hp]
    rw [hp] at hphase
    simp only [OplogServer.pruneStatement, hp] at h
    cases h
    simp only [sample, hp, Option.or_none]
    exact hP.setPhase hne (passPhase_newest hphase fun halone => hrows halone hne)
  | timestamp w last =>
    have hne : s.pruning ≠ .idle := by simp [hp]
    rw [hp] at hphase
    obtain ⟨hchooses, hlast⟩ := hphase
    simp only [OplogServer.pruneStatement, hp] at h
    cases h
    simp only [sample, hp, Option.or_none]
    exact hP.setPhase hne (passPhase_timestamp hchooses hlast fun halone => hrows halone hne)
  | begin plan | lockHistory plan =>
    rw [hp] at hphase
    simp only [OplogServer.pruneStatement, hp] at h
    cases h
    simp only [sample, hp, Option.or_none]
    exact hP.setPhase (by simp [hp]) hphase
  | lockClock plan =>
    rw [hp] at hphase
    simp only [OplogServer.pruneStatement, hp] at h
    split at h <;> cases h
    simp only [sample, hp, Option.or_none]
    exact ⟨fun halone _ => hrows halone (by simp [hp]), hphase⟩
  | verify plan =>
    have hne : s.pruning ≠ .idle := by simp [hp]
    rw [hp] at hphase
    obtain ⟨hchooses, hlast⟩ := hphase
    simp only [OplogServer.pruneStatement, hp] at h
    cases h
    simp only [sample, hp, Option.or_none]
    exact hP.setPhase hne (passPhase_verify hchooses hlast fun halone => hrows halone hne)
  | delete plan =>
    have hne : s.pruning ≠ .idle := by simp [hp]
    rw [hp] at hphase
    obtain ⟨hchooses, hlast⟩ := hphase
    have hspares := hchooses.spares hseq (fun halone => hrows halone hne) hlast
    simp only [OplogServer.pruneStatement, hp] at h
    cases h
    simp only [sample, hp, Option.or_none]
    refine hP.setPhase hne ?_
    split
    · exact hspares
    · exact hspares
  | publish plan survivors removed =>
    rw [hp] at hphase
    simp only [OplogServer.pruneStatement, hp] at h
    cases h
    simp only [sample, hp, Option.or_none]
    exact hP.setPhase (by simp [hp]) hphase
  | commit survivors removed history =>
    have hne : s.pruning ≠ .idle := by simp [hp]
    rw [hp] at hphase hsplits
    simp only [OplogServer.pruneStatement, hp] at h
    cases h
    simp only [sample, hp, Option.or_none]
    refine ⟨fun _ hidle => absurd rfl hidle, fun halone => ?_⟩
    obtain rfl := hrows halone hne
    exact ⟨hsplits.2.1.survivors_sublist, hphase⟩
  | rollback =>
    rw [hp] at hphase
    simp only [OplogServer.pruneStatement, hp] at h
    cases h
    simp only [sample, hp, Option.or_none]
    exact ⟨fun halone => absurd halone hphase, fun halone => absurd halone hphase⟩

/-! ## Whole passes -/

/-- A commit appends rows that lie beyond the head of the pass. -/
lemma PassInv.commit {conn : ℕ} (hI : s.Inv) (hP : s.PassInv maxRows maxAge sampled start alone)
    (halone : ¬ alone) (h : s.step (.commit conn) = some s') :
    s'.PassInv maxRows maxAge sampled start alone := by
  obtain ⟨pending, clock, hlock, rfl⟩ := step_commit h
  have hseq := hI.sequenced
  rw [hlock] at hseq
  obtain ⟨-, -, hbeyond⟩ := Sequenced.append_iff.1 hseq
  have hphase := hP.phase
  have hserver := hI.phase
  have happend : ∀ w : PruneWhere, Reached s.committed w.head →
      Chooses maxRows maxAge sampled start alone s.rows w →
      Chooses maxRows maxAge sampled start alone (s.rows ++ pending) w := by
    rintro w ⟨r', hr', hhead⟩ hchooses
    refine ⟨fun r hr hsel => ?_, fun h => absurd h halone⟩
    have hnew : r ∉ pending := fun hmem =>
      absurd (PruneWhere.lt_head hsel) (hhead.trans (hbeyond r' hr' r hmem).le).not_gt
    have hold : r ∈ s.rows := (List.mem_append.1 hr).resolve_right hnew
    exact (hchooses.sound r hold hsel).append hnew
  refine ⟨fun h => absurd h halone, ?_⟩
  change PassPhase maxRows maxAge sampled start alone (s.rows ++ pending) s.pruning
  cases hp : s.pruning with
  | idle => exact fun h => absurd h halone
  | rollback => exact halone
  | head n age | age n age head | cut n head cutoff =>
    rw [hp] at hphase
    exact hphase
  | newest w =>
    rw [hp] at hphase hserver
    exact happend w hserver hphase
  | timestamp w last =>
    rw [hp] at hphase hserver
    exact ⟨happend w hserver hphase.1, hphase.2⟩
  | begin plan | lockClock plan =>
    rw [hp] at hphase hserver
    exact ⟨happend _ hserver.reached hphase.1, hphase.2⟩
  | lockHistory plan | verify plan | delete plan | publish plan survivors removed
  | commit survivors removed history =>
    rw [hp, PhaseInv, hlock] at hserver
    exact nomatch hserver.1

/-- **One step.**  An action keeps what holds of the pass. -/
lemma PassInv.step (hI : s.Inv) (hP : s.PassInv maxRows maxAge sampled start alone)
    (hstart : a.startsPass = false) (halone : alone → a.commits = false ∧ a ≠ .pruneFail)
    (h : s.step a = some s') :
    s'.PassInv maxRows maxAge (sampled.or (s.sample a)) start alone := by
  cases a with
  | append conn call =>
    obtain ⟨-, clock, row, -, rfl⟩ := step_append h
    simp only [sample, Option.or_none]
    exact ⟨hP.rows, hP.phase⟩
  | commit conn =>
    simp only [sample, Option.or_none]
    exact hP.commit hI (fun h => nomatch (halone h).1) h
  | rollback conn =>
    obtain ⟨-, rfl⟩ := step_rollback h
    simp only [sample, Option.or_none]
    exact ⟨hP.rows, hP.phase⟩
  | pruneStart n age => exact nomatch hstart
  | pruneStep now => exact hP.pruneStatement hI h
  | pruneFail =>
    have hnot : ¬ alone := fun h => (halone h).2 rfl
    simp only [OplogServer.step] at h
    split at h <;> cases h
    refine ⟨fun h => absurd h hnot, ?_⟩
    change PassPhase maxRows maxAge _ start alone s.rows (failedPhase s.pruning)
    cases s.pruning with
    | lockClock _ | lockHistory _ | verify _ | delete _ | publish _ _ _ | commit _ _ _
    | rollback => exact hnot
    | idle | head _ _ | age _ _ _ | cut _ _ _ | newest _ | timestamp _ _ | begin _ =>
      exact fun h => absurd h hnot

/-- A run of a pass keeps what holds of it. -/
lemma PassInv.run {t : OplogServer} (hI : s.Inv)
    (hP : s.PassInv maxRows maxAge sampled start alone) (hstart : ∀ a ∈ as, a.startsPass = false)
    (halone : alone → ∀ a ∈ as, a.commits = false ∧ a ≠ .pruneFail)
    (h : Steps OplogServer.step s as t) :
    t.Inv ∧ t.PassInv maxRows maxAge (sampled.or (s.sampledTime as)) start alone := by
  induction h generalizing sampled with
  | nil s =>
    rw [sampledTime, Option.or_none]
    exact ⟨hI, hP⟩
  | @cons s s' t a as _ hstep _ ih =>
    have hP' := hP.step hI (hstart a List.mem_cons_self)
      (fun h => halone h a List.mem_cons_self) hstep
    have hrun := ih (hI.step hstep) hP' (fun a ha => hstart a (List.mem_cons_of_mem _ ha))
      fun h a ha => halone h a (List.mem_cons_of_mem _ ha)
    rwa [sampledTime, hstep, Option.bind_some, ← Option.or_assoc]

/-- The server comes to `t` in a pass with these limits, which begins in `s`. -/
structure InPass (s : OplogServer) (maxRows maxAge : ℕ) (rest : List ServerAction)
    (t : OplogServer) : Prop where
  /-- The pass begins, and the other actions follow. -/
  run : Steps OplogServer.step s (.pruneStart maxRows maxAge :: rest) t
  /-- No other pass begins. -/
  single : ∀ a ∈ rest, a.startsPass = false

/-- No writer commits, and no statement of the pass fails. -/
def Uncontested (rest : List ServerAction) : Prop :=
  ∀ a ∈ rest, a.commits = false ∧ a ≠ .pruneFail

instance (rest : List ServerAction) : Decidable (Uncontested rest) :=
  inferInstanceAs (Decidable (∀ a ∈ rest, a.commits = false ∧ a ≠ .pruneFail))

variable {rest : List ServerAction} {t t' : OplogServer}

/-- What holds in a pass. -/
lemma InPass.passInv (h : s.InPass maxRows maxAge rest t) (hI : s.Inv)
    (halone : alone → Uncontested rest) :
    t.PassInv maxRows maxAge (s.sampledTime (.pruneStart maxRows maxAge :: rest)) s.rows alone := by
  obtain ⟨hrun, hsingle⟩ := h
  cases hrun with
  | @cons _ s' _ _ _ _ hstep hrest =>
    have hI' := hI.step hstep
    have hstart : s'.PassInv maxRows maxAge none s.rows alone := by
      simp only [OplogServer.step] at hstep
      split at hstep <;> cases hstep
      exact ⟨fun _ _ => rfl, rfl, rfl, rfl⟩
    obtain ⟨-, hP⟩ := hstart.run hI' hsingle halone hrest
    rw [sampledTime, hstep, Option.bind_some]
    exact hP

/-- A pass has a limit. -/
lemma InPass.limited (h : s.InPass maxRows maxAge rest t) : 0 < maxRows ∨ 0 < maxAge := by
  cases h.run with
  | cons _ hstep _ =>
    simp only [OplogServer.step] at hstep
    split at hstep
    · next hlimits => omega
    · cases hstep

/-- A row that goes in a step of the pass is in excess of its limits. -/
lemma PassInv.inExcess (hP : s.PassInv maxRows maxAge sampled start alone)
    (h : s.step a = some s') (hr : r ∈ s.rows) (hgone : r ∉ s'.rows) :
    InExcess maxRows maxAge sampled s.rows r := by
  rcases step_effect h with ⟨new, hE⟩ | ⟨survivors, removed, history, hR⟩
  · rw [hE.rows_eq] at hgone
    exact absurd (List.mem_append_left _ hr) hgone
  · have hphase := hP.phase
    rw [hR.pruning_eq] at hphase
    rw [hR.rows_eq] at hgone
    exact hphase.sound r hr hgone

/-- What nothing lies behind is the newest row. -/
lemma le_of_not_lt_oplogHead (h : ¬ r.seq < oplogHead rows) : ∀ r' ∈ rows, r'.seq ≤ r.seq :=
  fun _ hr' => (le_oplogHead hr').trans (not_lt.1 h)

/-- **The retention policy.**  From an oplog of any content, after any run of writers and passes:

With the age limit off, a pass never deletes one of the `maxRows` newest rows of the table, whatever
is committed meanwhile; and when nothing is committed meanwhile, a pass that ends without a failure
leaves exactly these rows.

With the row limit off, a pass never deletes a row that is not older than the age limit at the time
that the pass sampled; and when nothing is committed meanwhile, a pass that ends without a failure
leaves no older row but the newest row. -/
theorem retention_policy {s₀ s : OplogServer} {as : List ServerAction} (hs₀ : s₀.Quiescent)
    (h : Steps OplogServer.step s₀ as s) :
    (∀ maxRows rest t, s.InPass maxRows 0 rest t →
      (∀ a t', t.step a = some t' → newest maxRows t.rows ⊆ t'.rows) ∧
      (t.pruning = .idle → Uncontested rest →
        t.rows = newest maxRows s.rows ∧ t.rows.length = min maxRows s.rows.length)) ∧
    (∀ maxAge rest t, s.InPass 0 maxAge rest t →
      (∀ a t', t.step a = some t' → ∀ r ∈ t.rows, r ∉ t'.rows →
        ∃ now, s.sampledTime (.pruneStart 0 maxAge :: rest) = some now ∧ r.ts.t + maxAge < now) ∧
      (t.pruning = .idle → Uncontested rest →
        ∀ now, s.sampledTime (.pruneStart 0 maxAge :: rest) = some now →
          ∀ r ∈ t.rows, r.ts.t + maxAge < now → ∀ r' ∈ t.rows, r'.seq ≤ r.seq)) := by
  have hI : s.Inv := hs₀.inv.run h
  have hseq : Sequenced OplogRow.seq s.rows :=
    (Sequenced.append_iff.1 hI.sequenced).1.sublist hI.rows_sublist
  refine ⟨fun maxRows rest t hpass => ⟨fun a t' hstep r hr => ?_, fun hidle halone => ?_⟩,
    fun maxAge rest t hpass => ⟨fun a t' hstep r hr hgone => ?_,
      fun hidle halone now hnow r hr hold r' hr' => ?_⟩⟩
  · have hP := hpass.passInv hI False.elim
    by_contra hgone
    rcases hP.inExcess hstep (newest_subset hr) hgone with ⟨hage, -⟩ | ⟨-, hnot⟩
    · exact absurd hage (lt_irrefl 0)
    · exact hnot hr
  · have hpos : 0 < maxRows := hpass.limited.resolve_right (lt_irrefl 0)
    have hphase := (hpass.passInv hI fun _ : True => halone).phase
    rw [hidle] at hphase
    obtain ⟨hsub, hspares⟩ := hphase trivial
    have hrows : t.rows = newest maxRows s.rows := by
      refine Sequenced.ext (hseq.sublist hsub) (hseq.sublist (List.drop_sublist _ _)) fun r => ?_
      constructor
      · intro hr
        by_contra hnot
        have hmem := hsub.subset hr
        by_cases hhead : r.seq < oplogHead s.rows
        · exact hspares.complete trivial r hmem (.inr ⟨hpos, hnot⟩) hhead hr
        · exact hnot (mem_newest_of_max hseq hpos hmem (le_of_not_lt_oplogHead hhead))
      · intro hr
        by_contra hgone
        rcases hspares.sound r (newest_subset hr) hgone with ⟨hage, -⟩ | ⟨-, hnot⟩
        · exact absurd hage (lt_irrefl 0)
        · exact hnot hr
    exact ⟨hrows, by rw [hrows, length_newest]⟩
  · have hP := hpass.passInv hI False.elim
    rcases hP.inExcess hstep hr hgone with ⟨-, now, hnow, hold⟩ | ⟨hoff, -⟩
    · exact ⟨now, hnow, hold⟩
    · exact absurd hoff (lt_irrefl 0)
  · have hpos : 0 < maxAge := hpass.limited.resolve_left (lt_irrefl 0)
    have hphase := (hpass.passInv hI fun _ : True => halone).phase
    rw [hidle] at hphase
    obtain ⟨hsub, hspares⟩ := hphase trivial
    have hhead : ¬ r.seq < oplogHead s.rows := fun hlt =>
      hspares.complete trivial r (hsub.subset hr) (.inl ⟨hpos, now, hnow, hold⟩) hlt hr
    exact le_of_not_lt_oplogHead hhead r' (hsub.subset hr')

/-- A pass over the two rows that keeps one of them, while a writer appends an event and rolls it
back. -/
def keepNewest : List ServerAction :=
  [.append 3 (plainAppend 9), .rollback 3] ++ List.replicate 11 (.pruneStep 9)

/-- A pass over the two rows that keeps what is at most one second old; the time is 20. -/
def keepRecent : List ServerAction := List.replicate 11 (.pruneStep 20)

/-- The first pass leaves the newer row.  The second one leaves it too, although it is too old. -/
theorem retention_policy_twoRows :
    (∃ t, twoRows.InPass 1 0 keepNewest t ∧ t.pruning = .idle ∧ t.rows.map OplogRow.seq = [4] ∧
      t.rows = newest 1 twoRows.rows) ∧
    ∃ t, twoRows.InPass 0 1 keepRecent t ∧ t.pruning = .idle ∧ t.rows.map OplogRow.seq = [4] ∧
      ∀ r ∈ t.rows, r.ts.t + 1 < 20 → ∀ r' ∈ t.rows, r'.seq ≤ r.seq := by
  have hquiet : twoRows.Quiescent :=
    ⟨rfl, rfl, rfl, by simp [twoRows, Sequenced], by decide, by decide, rfl⟩
  obtain ⟨hcount, hage⟩ := retention_policy hquiet (Run.nil twoRows)
  obtain ⟨t, hpass, hidle, hrows⟩ : ∃ t, twoRows.InPass 1 0 keepNewest t ∧ t.pruning = .idle ∧
      t.rows.map OplogRow.seq = [4] := ⟨_, ⟨steps_of_runActions rfl, by decide⟩, rfl, rfl⟩
  obtain ⟨u, hpass', hidle', hsampled, hrows'⟩ : ∃ u, twoRows.InPass 0 1 keepRecent u ∧
      u.pruning = .idle ∧ twoRows.sampledTime (.pruneStart 0 1 :: keepRecent) = some 20 ∧
      u.rows.map OplogRow.seq = [4] := ⟨_, ⟨steps_of_runActions rfl, by decide⟩, rfl, rfl, rfl⟩
  refine ⟨⟨t, hpass, hidle, hrows, ?_⟩, u, hpass', hidle', hrows', ?_⟩
  · exact ((hcount 1 _ t hpass).2 hidle (by decide)).1
  · exact (hage 1 _ u hpass').2 hidle' (by decide) 20 hsampled

end OplogServer

end Chimera

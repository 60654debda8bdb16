import Chimera.Oplog.Invariant

/-!
# Retained history

A change stream starts after a sequence number.  `resolve_change_stream_start` finds the number
for an operation time, and `require_change_stream_history` refuses a number that is before what
pruning has deleted, or before the unknown prefix of an oplog older than its history row.  Both
read the history row, whose watermark names a deleted event (equality is unsafe) and whose
baseline names a retained one (equality is safe).

Operation times are compared with what is stored when the stream is opened.  So the start is
exact for the events committed by then, and it stays exact if and only if no event that is
committed later is stamped before the operation time
(`startAtOperationTime_exact_iff`).
-/

namespace Chimera

open SequencedLog StepSystem

/-! ## The history row, the start and the check -/

/-- The history row that `install_oplog_schema` seeds.  `legacy` says that the oplog table was
there already. -/
def installHistory (legacy : Bool) (clock : Stamp) (rows : List OplogRow) :
    Except TranslatorError History :=
  let oldest := rows.head?
  if legacy && (decide (clock.t ≠ 0) || decide (clock.i ≠ 0)) && oldest.isNone then
    .error (internalError
      "cannot establish history for an empty legacy oplog with a nonzero clock".toList)
  else
    .ok {
      prunedSeq := 0
      prunedTs := ⟨0, 0⟩
      legacyBaseline := legacy && decide ((oldest.map OplogRow.seq).getD 0 > 1)
      baselineSeq := if legacy then (oldest.map fun r => r.seq - 1).getD 0 else 0
      baselineTs := if legacy then (oldest.map OplogRow.ts).getD ⟨0, 0⟩ else ⟨0, 0⟩ }

/-- Where a change stream begins. -/
inductive ChangeStreamStart where
  /-- Only what happens next. -/
  | head
  /-- Strictly after the sequence number of a resume token. -/
  | token (afterSeq : ℕ)
  /-- At or after an operation time. -/
  | operationTime (ts : Stamp)
deriving DecidableEq

/-- `ts_t < t OR (ts_t = t AND ts_i < i)`. -/
def stampedBefore (ts : Stamp) (r : OplogRow) : Bool :=
  decide (r.ts.t < ts.t) || (decide (r.ts.t = ts.t) && decide (r.ts.i < ts.i))

/-- The operation time is at or before a deleted event. -/
def History.deletedAt (h : History) (ts : Stamp) : Bool :=
  decide (h.prunedSeq ≠ 0) &&
    (decide (ts.t < h.prunedTs.t) ||
      (decide (ts.t = h.prunedTs.t) && decide (ts.i ≤ h.prunedTs.i)))

/-- The operation time is within the unknown prefix of an older oplog. -/
def History.unknownAt (h : History) (ts : Stamp) : Bool :=
  h.legacyBaseline &&
    (decide (ts.t < h.baselineTs.t) ||
      (decide (ts.t = h.baselineTs.t) && decide (ts.i < h.baselineTs.i)))

/-- `resolve_change_stream_start`: the sequence number to read strictly after. -/
def resolveChangeStreamStart (s : OplogServer) : ChangeStreamStart → Except TranslatorError ℕ
  | .token afterSeq => .ok afterSeq
  | .operationTime ts =>
    let before := oplogHead (s.rows.filter (stampedBefore ts))
    if s.history.deletedAt ts || s.history.unknownAt ts then
      .error (changeStreamHistoryLost
        ("the requested operation time is older than the retained oplog; resync " ++
          "(see changestream-plan.md)").toList)
    else .ok (max (max before s.history.prunedSeq) s.history.baselineSeq)
  | .head => .ok (oplogHead s.rows)

/-- `require_change_stream_history`: nothing after the sequence number is missing. -/
def requireChangeStreamHistory (s : OplogServer) (afterSeq : ℕ) : Except TranslatorError Unit :=
  let floor := max s.history.prunedSeq s.history.baselineSeq
  if afterSeq ≥ floor ∧ (afterSeq = 0 ∨ s.rows ≠ []) then .ok ()
  else .error (changeStreamHistoryLost
    ("the resume point is no longer in the oplog; resume from a later point or resync " ++
      "(see changestream-plan.md)").toList)

/-- The query's condition is the order of stamps. -/
lemma stampedBefore_iff {ts : Stamp} {r : OplogRow} : stampedBefore ts r = true ↔ r.ts < ts := by
  simp [stampedBefore, Stamp.lt_iff]

/-- A time is refused by the watermark when something is deleted and the time is not beyond the
watermark. -/
lemma History.deletedAt_iff {h : History} {ts : Stamp} :
    h.deletedAt ts = true ↔ h.prunedSeq ≠ 0 ∧ ts ≤ h.prunedTs := by
  simp [History.deletedAt, Stamp.le_iff]

/-- A time is refused by the baseline when there is one and the time is before it. -/
lemma History.unknownAt_iff {h : History} {ts : Stamp} :
    h.unknownAt ts = true ↔ h.legacyBaseline = true ∧ ts < h.baselineTs := by
  simp [History.unknownAt, Stamp.lt_iff]

/-- When a time is accepted, and what the start then is. -/
lemma resolveChangeStreamStart_operationTime {s : OplogServer} {ts : Stamp} {p : ℕ}
    (h : resolveChangeStreamStart s (.operationTime ts) = .ok p) :
    s.history.deletedAt ts = false ∧ s.history.unknownAt ts = false ∧
      p = max (max (oplogHead (s.rows.filter (stampedBefore ts))) s.history.prunedSeq)
        s.history.baselineSeq := by
  simp only [resolveChangeStreamStart] at h
  split at h
  · exact absurd h (by simp)
  · next hno =>
    simp only [Bool.or_eq_true, not_or, Bool.not_eq_true] at hno
    exact ⟨hno.1, hno.2, (Except.ok.inj h).symm⟩

/-- A refused time is refused as lost history. -/
lemma resolveChangeStreamStart_error {s : OplogServer} {ts : Stamp} {e : TranslatorError}
    (h : resolveChangeStreamStart s (.operationTime ts) = .error e) :
    e.code = 286 ∧ e.codeName = "ChangeStreamHistoryLost".toList := by
  simp only [resolveChangeStreamStart] at h
  split at h
  · cases h
    exact ⟨rfl, rfl⟩
  · exact absurd h (by simp)

/-- A position that is accepted is at or beyond the watermark and the baseline. -/
lemma requireChangeStreamHistory_ok {s : OplogServer} {p : ℕ}
    (h : requireChangeStreamHistory s p = .ok ()) :
    s.history.prunedSeq ≤ p ∧ s.history.baselineSeq ≤ p := by
  simp only [requireChangeStreamHistory] at h
  split at h
  · next hok => exact max_le_iff.mp hok.1
  · exact absurd h (by simp)

/-- A refused position is refused as lost history. -/
lemma requireChangeStreamHistory_error {s : OplogServer} {p : ℕ} {e : TranslatorError}
    (h : requireChangeStreamHistory s p = .error e) :
    e.code = 286 ∧ e.codeName = "ChangeStreamHistoryLost".toList := by
  simp only [requireChangeStreamHistory] at h
  split at h
  · exact absurd h (by simp)
  · cases h
    exact ⟨rfl, rfl⟩

namespace OplogServer

/-! ## The baseline -/

/-- The history row was just installed, on a new oplog or on an older one. -/
structure Installed (s : OplogServer) : Prop where
  /-- Nobody is at work on the oplog. -/
  quiescent : s.Quiescent
  /-- Sequence numbers start at one. -/
  positive : 0 < s.autoIncrement ∧ ∀ r ∈ s.lost ++ s.rows, 0 < r.seq
  /-- The history row is the seeded one; a new oplog holds nothing. -/
  seeded : ∃ legacy, installHistory legacy s.clock s.rows = .ok s.history ∧
    (legacy = false → s.lost = [] ∧ s.rows = [])

/-- How the rows lie around the baseline, and what the watermark is. -/
structure Anchored (s : OplogServer) : Prop where
  /-- `AUTO_INCREMENT` is beyond the baseline. -/
  baseline_lt : s.history.baselineSeq < s.autoIncrement
  /-- Every row that is not lost is beyond the baseline. -/
  beyond : ∀ r ∈ s.committed ++ s.lock.pending, r ∈ s.lost ∨ s.history.baselineSeq < r.seq
  /-- A lost row is at or before the baseline, which is then marked, and is followed by a
  committed row that carries the stamp of the baseline. -/
  lost_before : ∀ r ∈ s.lost, r.seq ≤ s.history.baselineSeq ∧ s.history.legacyBaseline = true ∧
    ∃ r' ∈ s.committed, r'.ts = s.history.baselineTs ∧ r.seq < r'.seq
  /-- The watermark is zero or belongs to a deleted row. -/
  attained : s.history.prunedSeq = 0 ∨ ∃ r ∈ s.deleted, r.seq = s.history.prunedSeq

/-- A freshly installed history row anchors the rows. -/
lemma Installed.anchored {s : OplogServer} (h : s.Installed) : s.Anchored := by
  obtain ⟨legacy, hseed, hnew⟩ := h.seeded
  have hpend : s.lock.pending = [] := by rw [h.quiescent.lock_free]; rfl
  simp only [installHistory] at hseed
  split at hseed
  · exact absurd hseed (by simp)
  have hhist := (Except.ok.inj hseed).symm
  cases hrows : s.rows with
  | nil =>
    have hlost : s.lost = [] := by
      by_contra hne
      exact h.quiescent.newest_kept hne hrows
    have hbase : s.history.baselineSeq = 0 := by rw [hhist]; simp [hrows]
    refine ⟨hbase ▸ h.positive.1, fun r hr => ?_, fun r hr => ?_, Or.inl (by rw [hhist])⟩
    · rw [hpend, List.append_nil, h.quiescent.committed_eq, hlost, hrows] at hr
      exact absurd hr List.not_mem_nil
    · rw [hlost] at hr
      exact absurd hr List.not_mem_nil
  | cons oldest rest =>
    have hlegacy : legacy = true := by
      cases legacy with
      | true => rfl
      | false => exact absurd ((hnew rfl).2.symm.trans hrows) (by simp)
    subst hlegacy
    have hbase : s.history.baselineSeq = oldest.seq - 1 := by rw [hhist]; simp [hrows]
    have hmark : s.history.legacyBaseline = decide (oldest.seq > 1) := by rw [hhist]; simp [hrows]
    have hstamp : s.history.baselineTs = oldest.ts := by rw [hhist]; simp [hrows]
    have hmem : oldest ∈ s.rows := by rw [hrows]; exact List.mem_cons_self
    have hpos := h.positive.2 oldest (List.mem_append_right _ hmem)
    have hsplit := Sequenced.append_iff.mp h.quiescent.sequenced
    have hfresh := h.quiescent.fresh oldest (List.mem_append_right _ hmem)
    refine ⟨by omega, fun r hr => ?_, fun r hr => ?_, Or.inl (by rw [hhist])⟩
    · rw [hpend, List.append_nil, h.quiescent.committed_eq] at hr
      refine (List.mem_append.mp hr).imp_right fun hr => ?_
      have hle : oldest.seq ≤ r.seq := by
        have hseq := hsplit.2.1
        rw [hrows] at hr hseq
        rcases List.mem_cons.mp hr with rfl | hr
        · exact le_rfl
        · exact ((List.pairwise_cons.mp hseq).1 r hr).le
      omega
    · have hlt := hsplit.2.2 r hr oldest hmem
      have hrpos := h.positive.2 r (List.mem_append_left _ hr)
      refine ⟨by omega, by rw [hmark]; simp; omega, oldest, ?_, hstamp.symm, hlt⟩
      rw [h.quiescent.committed_eq]
      exact List.mem_append_right _ hmem

/-- A statement of the pass keeps the rows anchored. -/
lemma Anchored.pruneStatement {s s' : OplogServer} {now : ℕ} (hI : s.Inv) (hA : s.Anchored)
    (h : s.pruneStatement now = some s') : s'.Anchored := by
  obtain ⟨hauto, hcom, hlost, hpend⟩ := pruneStatement_frame h
  obtain ⟨hadv, hatt⟩ : s.history.Advances s'.history ∧
      (s'.history.prunedSeq = 0 ∨ ∃ r ∈ s'.deleted, r.seq = s'.history.prunedSeq) := by
    rcases pruneStatement_effect h with hE | ⟨survivors, removed, history, hR⟩
    · rw [hE.history_eq, hE.deleted_eq]
      exact ⟨.refl _, hA.attained⟩
    · have hphase := hI.phase
      rw [hR.pruning_eq] at hphase
      have hpub := hphase.2.2
      rw [hR.history_eq, hR.deleted_eq]
      refine ⟨hpub.advances, ?_⟩
      rcases hpub.attained with heq | ⟨r, hr, hseq⟩
      · rw [heq]
        exact hA.attained.imp_right fun ⟨r, hr, hseq⟩ => ⟨r, List.mem_append_left _ hr, hseq⟩
      · exact Or.inr ⟨r, List.mem_append_right _ hr, hseq⟩
  refine ⟨?_, fun r hr => ?_, fun r hr => ?_, hatt⟩
  · rw [hauto, hadv.baselineSeq_eq]
    exact hA.baseline_lt
  · rw [hlost, hadv.baselineSeq_eq]
    rw [hcom] at hr
    exact hA.beyond r (((List.Sublist.refl _).append hpend).mem hr)
  · rw [hlost] at hr
    rw [hadv.baselineSeq_eq, hadv.legacyBaseline_eq, hadv.baselineTs_eq, hcom]
    exact hA.lost_before r hr

/-- Every action keeps the rows anchored. -/
lemma Anchored.step {s s' : OplogServer} {a : ServerAction} (hI : s.Inv) (hA : s.Anchored)
    (h : s.step a = some s') : s'.Anchored := by
  cases a with
  | append conn call =>
    obtain ⟨-, clock, row, hseq, rfl⟩ := step_append h
    have hbase := hA.baseline_lt
    refine ⟨show s.history.baselineSeq < row.seq + 1 by omega, fun r hr => ?_, hA.lost_before,
      hA.attained⟩
    rcases List.mem_append.mp hr with hr | hr
    · exact hA.beyond r (List.mem_append_left _ hr)
    · rcases List.mem_append.mp hr with hr | hr
      · exact hA.beyond r (List.mem_append_right _ hr)
      · rw [List.mem_singleton.mp hr]
        exact Or.inr (show s.history.baselineSeq < row.seq by omega)
  | commit conn =>
    obtain ⟨pending, clock, hlock, rfl⟩ := step_commit h
    have hbeyond := hA.beyond
    rw [hlock] at hbeyond
    refine ⟨hA.baseline_lt, fun r hr => hbeyond r (by simpa [ClockLock.pending] using hr),
      fun r hr => ?_, hA.attained⟩
    obtain ⟨hle, hmark, r', hr', hts, hlt⟩ := hA.lost_before r hr
    exact ⟨hle, hmark, r', List.mem_append_left _ hr', hts, hlt⟩
  | rollback conn =>
    obtain ⟨-, rfl⟩ := step_rollback h
    refine ⟨hA.baseline_lt, fun r hr => hA.beyond r (List.mem_append_left _ ?_), hA.lost_before,
      hA.attained⟩
    simpa [ClockLock.pending] using hr
  | pruneStart maxRows maxAge =>
    simp only [OplogServer.step] at h
    split at h
    · cases h; exact ⟨hA.baseline_lt, hA.beyond, hA.lost_before, hA.attained⟩
    · exact absurd h (by simp)
  | pruneStep now => exact hA.pruneStatement hI h
  | pruneFail =>
    simp only [OplogServer.step] at h
    split at h
    · exact absurd h (by simp)
    · cases h; exact ⟨hA.baseline_lt, hA.beyond, hA.lost_before, hA.attained⟩

/-- After any run from a freshly installed history row the invariant holds and the rows are
anchored. -/
lemma Installed.reachable {s t : OplogServer} {as : List ServerAction} (h : s.Installed)
    (hrun : Steps OplogServer.step s as t) : t.Inv ∧ t.Anchored :=
  hrun.invariant (P := fun s => s.Inv ∧ s.Anchored)
    (fun _ _ _ hP _ hs => ⟨hP.1.step hs, hP.2.step hP.1 hs⟩) ⟨h.quiescent.inv, h.anchored⟩

/-- Over a run the committed rows are only appended to, and nothing becomes lost. -/
lemma committed_prefix {s t : OplogServer} {as : List ServerAction}
    (hrun : Steps OplogServer.step s as t) :
    t.lost = s.lost ∧ ∃ new, t.committed = s.committed ++ new := by
  induction hrun with
  | nil s => exact ⟨rfl, [], (List.append_nil _).symm⟩
  | cons _ hs _ ih =>
    obtain ⟨hlost, new', hnew'⟩ := ih
    rcases step_effect hs with ⟨new, hE⟩ | ⟨survivors, removed, history, hR⟩
    · exact ⟨hlost.trans hE.lost_eq, new ++ new',
        by rw [hnew', hE.committed_eq, List.append_assoc]⟩
    · exact ⟨hlost.trans hR.lost_eq, new', by rw [hnew', hR.committed_eq]⟩

/-! ## Operation times -/

/-- Everything that is gone lies at or before the larger of watermark and baseline. -/
lemma Anchored.gone_le {s : OplogServer} (hI : s.Inv) (hA : s.Anchored) {r : OplogRow}
    (hr : r ∈ s.deleted ∨ r ∈ s.lost) : r.seq ≤ max s.history.prunedSeq s.history.baselineSeq := by
  rcases hr with hr | hr
  · exact (hI.watermark r hr).1.trans (le_max_left _ _)
  · exact (hA.lost_before r hr).1.trans (le_max_right _ _)

/-- With increasing stamps, an event stamped before another one precedes it. -/
lemma Inv.seq_lt_of_ts_lt {s : OplogServer} (hI : s.Inv)
    (hts : s.committed.Pairwise fun a b => a.ts < b.ts) {r r' : OplogRow} (hr : r ∈ s.committed)
    (hr' : r' ∈ s.committed) (h : r.ts < r'.ts) : r.seq < r'.seq := by
  have hseq : Sequenced OplogRow.seq s.committed := (Sequenced.append_iff.mp hI.sequenced).1
  rcases lt_trichotomy r.seq r'.seq with hlt | heq | hgt
  · exact hlt
  · rw [hseq.eq_of_seq_eq hr hr' heq] at h
    exact absurd h (lt_irrefl _)
  · exact absurd (hseq.rel_of_seq_lt hts hr' hr hgt) h.not_gt

/-- **An accepted operation time splits what is committed.**  With increasing stamps, the events
committed by the time the start is resolved are stamped at or after the operation time exactly
when they lie after the start. -/
theorem resolve_splits_committed {s : OplogServer} (hI : s.Inv) (hA : s.Anchored)
    (hts : s.committed.Pairwise fun a b => a.ts < b.ts) {ts : Stamp} {p : ℕ}
    (h : resolveChangeStreamStart s (.operationTime ts) = .ok p) {r : OplogRow}
    (hr : r ∈ s.committed) : ts ≤ r.ts ↔ p < r.seq := by
  obtain ⟨hdel, hunk, rfl⟩ := resolveChangeStreamStart_operationTime h
  have hseq : Sequenced OplogRow.seq s.committed := (Sequenced.append_iff.mp hI.sequenced).1
  have hpruned : s.history.prunedSeq ≠ 0 → s.history.prunedTs < ts := fun hne => by
    by_contra hle
    exact absurd (History.deletedAt_iff.mpr ⟨hne, not_lt.mp hle⟩) (by simp [hdel])
  rw [max_lt_iff, max_lt_iff]
  by_cases hlost : r ∈ s.lost
  · -- a lost event is stamped before the baseline, and the time is not
    obtain ⟨hle, hmark, r', hr', hts', hlt⟩ := hA.lost_before r hlost
    have hbase : s.history.baselineTs ≤ ts := by
      by_contra hlt
      exact absurd (History.unknownAt_iff.mpr ⟨hmark, not_le.mp hlt⟩) (by simp [hunk])
    have hbefore : r.ts < s.history.baselineTs := hts' ▸ hseq.rel_of_seq_lt hts hr hr' hlt
    exact iff_of_false (hbefore.trans_le hbase).not_ge fun hp => absurd hp.2 hle.not_gt
  · have hbase : s.history.baselineSeq < r.seq :=
      (hA.beyond r (List.mem_append_left _ hr)).resolve_left hlost
    rcases hI.accounted r hr with hrow | hgone | hgone
    · constructor
      · intro hle
        refine ⟨⟨?_, ?_⟩, hbase⟩
        · by_cases hzero : oplogHead (s.rows.filter (stampedBefore ts)) = 0
          · omega
          · obtain ⟨r', hr', heq⟩ := exists_seq_eq_oplogHead hzero
            obtain ⟨hrow', hbefore⟩ := List.mem_filter.mp hr'
            rw [← heq]
            exact hI.seq_lt_of_ts_lt hts (hI.rows_sublist.mem hrow') hr
              ((stampedBefore_iff.mp hbefore).trans_le hle)
        · rcases hA.attained with hzero | ⟨d, hd, heq⟩
          · omega
          · by_cases hzero : s.history.prunedSeq = 0
            · omega
            · rw [← heq]
              refine hI.seq_lt_of_ts_lt hts (hI.gone d (Or.inl hd)).1 hr ?_
              exact ((hI.watermark d hd).2.trans_lt (hpruned hzero)).trans_le hle
      · rintro ⟨⟨hbefore, -⟩, -⟩
        by_contra hlt
        refine absurd hbefore (le_oplogHead (List.mem_filter.mpr ⟨hrow, ?_⟩)).not_gt
        exact stampedBefore_iff.mpr (not_le.mp hlt)
    · -- a deleted event is covered by the watermark, and the time is beyond it
      obtain ⟨hle, hle'⟩ := hI.watermark r hgone
      have hlt : r.ts < ts := hle'.trans_lt (hpruned (by omega))
      exact iff_of_false hlt.not_ge fun hp => absurd hp.1.2 hle.not_gt
    · exact absurd hgone hlost

/-- The start that an accepted operation time is resolved to lies before everything committed
later. -/
lemma resolve_lt_later {s t : OplogServer} {as : List ServerAction} (hI : s.Inv)
    (hA : s.Anchored) (hrun : Steps OplogServer.step s as t) (hIt : t.Inv) (hAt : t.Anchored)
    {ts : Stamp} {p : ℕ} (h : resolveChangeStreamStart s (.operationTime ts) = .ok p)
    {r : OplogRow} (hr : r ∈ t.committed) (hlater : r ∉ s.committed) : p < r.seq := by
  obtain ⟨-, -, rfl⟩ := resolveChangeStreamStart_operationTime h
  obtain ⟨hlost, new, hnew⟩ := committed_prefix hrun
  have hseq := (Sequenced.append_iff.mp hIt.sequenced).1
  rw [hnew] at hseq
  have hbeyond : ∀ r' ∈ s.committed, r'.seq < r.seq := fun r' hr' => by
    refine (Sequenced.append_iff.mp hseq).2.2 r' hr' r ?_
    rw [hnew] at hr
    exact (List.mem_append.mp hr).resolve_left hlater
  have hbase : s.history.baselineSeq < r.seq := by
    rw [← (hI.advances_run hrun).baselineSeq_eq]
    refine (hAt.beyond r (List.mem_append_left _ hr)).resolve_left fun hmem => ?_
    rw [hlost] at hmem
    exact hlater (hI.gone r (Or.inr hmem)).1
  refine max_lt (max_lt ?_ ?_) hbase
  · by_cases hzero : oplogHead (s.rows.filter (stampedBefore ts)) = 0
    · omega
    · obtain ⟨r', hr', heq⟩ := exists_seq_eq_oplogHead hzero
      rw [← heq]
      exact hbeyond r' (hI.rows_sublist.mem (List.mem_filter.mp hr').1)
  · rcases hA.attained with hzero | ⟨d, hd, heq⟩
    · omega
    · rw [← heq]
      exact hbeyond d (hI.gone d (Or.inl hd)).1

/-- **Opening at an operation time is exact, up to later events before the time.**  In a run of
commits, rollbacks and prune passes from a new or a migrated oplog, with increasing stamps, let
an operation time be resolved to a start, and the start be accepted later in the run.  Then the
events stamped at or after the time are exactly the events after the start, and none of these is
gone, if and only if no event committed in between is stamped before the time.  Otherwise the
open fails with lost history. -/
theorem startAtOperationTime_exact_iff {s₀ s₁ s₂ : OplogServer} {as bs : List ServerAction}
    {ts : Stamp} (hs₀ : s₀.Installed) (h₁ : Steps OplogServer.step s₀ as s₁)
    (h₂ : Steps OplogServer.step s₁ bs s₂)
    (hts : s₂.committed.Pairwise fun a b => a.ts < b.ts) :
    (∀ p, resolveChangeStreamStart s₁ (.operationTime ts) = .ok p →
      requireChangeStreamHistory s₂ p = .ok () →
      (((∀ r ∈ s₂.committed, ts ≤ r.ts ↔ p < r.seq) ∧
          ∀ r, r ∈ s₂.deleted ∨ r ∈ s₂.lost → ¬ p < r.seq) ↔
        ∀ r ∈ s₂.committed, r ∉ s₁.committed → ts ≤ r.ts)) ∧
    (∀ e, resolveChangeStreamStart s₁ (.operationTime ts) = .error e →
      e.code = 286 ∧ e.codeName = "ChangeStreamHistoryLost".toList) ∧
    (∀ p e, requireChangeStreamHistory s₂ p = .error e →
      e.code = 286 ∧ e.codeName = "ChangeStreamHistoryLost".toList) := by
  obtain ⟨hI₁, hA₁⟩ := hs₀.reachable h₁
  obtain ⟨hI₂, hA₂⟩ := hs₀.reachable (h₁.append h₂)
  obtain ⟨-, new, hnew⟩ := committed_prefix h₂
  have hts₁ : s₁.committed.Pairwise fun a b => a.ts < b.ts := by
    rw [hnew] at hts
    exact (List.pairwise_append.mp hts).1
  refine ⟨fun p hp hreq => ⟨fun hexact r hr hlater => ?_, fun hlater => ⟨fun r hr => ?_,
    fun r hr => ?_⟩⟩, fun e => resolveChangeStreamStart_error,
    fun p e => requireChangeStreamHistory_error⟩
  · exact (hexact.1 r hr).mpr (resolve_lt_later hI₁ hA₁ h₂ hI₂ hA₂ hp hr hlater)
  · by_cases hmem : r ∈ s₁.committed
    · exact resolve_splits_committed hI₁ hA₁ hts₁ hp hmem
    · exact iff_of_true (hlater r hr hmem) (resolve_lt_later hI₁ hA₁ h₂ hI₂ hA₂ hp hr hmem)
  · obtain ⟨hpruned, hbase⟩ := requireChangeStreamHistory_ok hreq
    exact (hA₂.gone_le hI₂ hr).trans (max_le hpruned hbase) |>.not_gt

/-- A new oplog. -/
def newOplog : OplogServer :=
  { rows := [], clock := ⟨0, 0⟩, history := ⟨0, ⟨0, 0⟩, false, 0, ⟨0, 0⟩⟩, autoIncrement := 1,
    lock := .free, pruning := .idle, committed := [], lost := [], deleted := [] }

/-- A new oplog is freshly installed. -/
lemma newOplog_installed : newOplog.Installed :=
  ⟨⟨rfl, rfl, rfl, List.Pairwise.nil, by decide, by decide, rfl⟩, by decide,
    ⟨false, rfl, fun _ => ⟨rfl, rfl⟩⟩⟩

/-- The only event of its second. -/
def eventAt (seq t : ℕ) : OplogRow := ⟨seq, ⟨t, 1⟩, .i, "a.b".toList, .obj [], none⟩

/-- A new oplog after one commit. -/
def oneEvent : OplogServer :=
  { newOplog with
    rows := [eventAt 1 10], clock := ⟨10, 1⟩, autoIncrement := 2, committed := [eventAt 1 10] }

/-- A new oplog after two commits. -/
def twoEvents : OplogServer :=
  { newOplog with
    rows := [eventAt 1 10, eventAt 2 11], clock := ⟨11, 1⟩, autoIncrement := 3,
    committed := [eventAt 1 10, eventAt 2 11] }

/-- The first commit is a run. -/
lemma steps_oneEvent :
    Steps OplogServer.step newOplog [.append 1 (plainAppend 10), .commit 1] oneEvent :=
  steps_of_runActions rfl

/-- The second commit is a run. -/
lemma steps_twoEvents :
    Steps OplogServer.step oneEvent [.append 2 (plainAppend 11), .commit 2] twoEvents :=
  steps_of_runActions rfl

/-- A stream opened at the stamp of the first event, with a commit between the two queries, is
exact. -/
theorem startAtOperationTime_exact_iff_twoEvents :
    (∀ r ∈ twoEvents.committed, (⟨10, 1⟩ : Stamp) ≤ r.ts ↔ 0 < r.seq) ∧
      ∀ r, r ∈ twoEvents.deleted ∨ r ∈ twoEvents.lost → ¬ 0 < r.seq :=
  ((startAtOperationTime_exact_iff newOplog_installed steps_oneEvent steps_twoEvents
    (by simp [twoEvents, eventAt, Stamp.lt_iff])).1 0 rfl rfl).mpr (by decide)

/-- A stream opened at a time ahead of the clock: the event committed next is stamped before the
time and lies after the start. -/
theorem startAtOperationTime_not_exact_ahead_of_clock :
    Steps OplogServer.step newOplog [.append 1 (plainAppend 10), .commit 1] oneEvent ∧
      Steps OplogServer.step oneEvent [.append 2 (plainAppend 11), .commit 2] twoEvents ∧
      (twoEvents.committed.Pairwise fun a b => a.ts < b.ts) ∧
      resolveChangeStreamStart oneEvent (.operationTime ⟨100, 0⟩) = .ok 1 ∧
      requireChangeStreamHistory twoEvents 1 = .ok () ∧
      ¬ ∀ r ∈ twoEvents.committed, (⟨100, 0⟩ : Stamp) ≤ r.ts ↔ 1 < r.seq :=
  ⟨steps_oneEvent, steps_twoEvents, by simp [twoEvents, eventAt, Stamp.lt_iff], rfl, rfl,
    by decide⟩

end OplogServer

end Chimera

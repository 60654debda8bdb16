import Chimera.Oplog.Server
import Mathlib.Order.MinMax

/-!
# The invariant of the oplog server

What holds of the oplog under every interleaving of writers with the statements of pruning
passes, failures included.  `step_effect` says once what an action can do to the committed
tables; `Inv` says how the stored rows, the rows that are gone and the watermark of the history
row hang together, and what a pass knows between two of its statements.
-/

namespace Chimera

open SequencedLog StepSystem

/-! ## Head and watermark -/

/-- Nothing stored is beyond the head. -/
lemma le_oplogHead {rows : List OplogRow} {r : OplogRow} (h : r ∈ rows) :
    r.seq ≤ oplogHead rows := by
  induction rows with
  | nil => exact absurd h List.not_mem_nil
  | cons x rows ih =>
    rcases List.mem_cons.mp h with rfl | h
    · exact le_max_left _ _
    · exact (ih h).trans (le_max_right _ _)

/-- A head other than zero is the sequence number of a stored row. -/
lemma exists_seq_eq_oplogHead {rows : List OplogRow} (h : oplogHead rows ≠ 0) :
    ∃ r ∈ rows, r.seq = oplogHead rows := by
  induction rows with
  | nil => exact absurd rfl h
  | cons x rows ih =>
    have hcons : oplogHead (x :: rows) = max x.seq (oplogHead rows) := rfl
    rcases le_total x.seq (oplogHead rows) with hle | hle
    · rw [hcons, max_eq_right hle] at h ⊢
      obtain ⟨r, hr, hseq⟩ := ih h
      exact ⟨r, List.mem_cons_of_mem x hr, hseq⟩
    · rw [hcons, max_eq_left hle]
      exact ⟨x, List.mem_cons_self, rfl⟩

namespace History

/-- The watermark of the history row covers a row. -/
def Covers (h : History) (r : OplogRow) : Prop := r.seq ≤ h.prunedSeq ∧ r.ts ≤ h.prunedTs

/-- The watermark has not gone back, and the baseline is the same. -/
structure Advances (h h' : History) : Prop where
  /-- The sequence watermark has not gone back. -/
  prunedSeq_le : h.prunedSeq ≤ h'.prunedSeq
  /-- The stamp watermark has not gone back. -/
  prunedTs_le : h.prunedTs ≤ h'.prunedTs
  /-- The mark of an older oplog is the same. -/
  legacyBaseline_eq : h'.legacyBaseline = h.legacyBaseline
  /-- The baseline is the same. -/
  baselineSeq_eq : h'.baselineSeq = h.baselineSeq
  /-- The stamp of the baseline is the same. -/
  baselineTs_eq : h'.baselineTs = h.baselineTs

/-- A history row has not gone back from itself. -/
lemma Advances.refl (h : History) : h.Advances h := ⟨le_rfl, le_rfl, rfl, rfl, rfl⟩

/-- Not going back is transitive. -/
lemma Advances.trans {h h' h'' : History} (h₁ : h.Advances h') (h₂ : h'.Advances h'') :
    h.Advances h'' :=
  ⟨h₁.1.trans h₂.1, h₁.2.trans h₂.2, h₂.3.trans h₁.3, h₂.4.trans h₁.4, h₂.5.trans h₁.5⟩

/-- A row that is covered stays covered. -/
lemma Covers.mono {h h' : History} {r : OplogRow} (hr : h.Covers r) (ha : h.Advances h') :
    h'.Covers r :=
  ⟨hr.1.trans ha.prunedSeq_le, hr.2.trans ha.prunedTs_le⟩

end History

/-- The three assignments leave the larger of the two stamps. -/
lemma publish_prunedTs (h : History) (newest : ℕ) (ts : Stamp) :
    (publish h newest ts).prunedTs = max h.prunedTs ts := by
  rcases lt_trichotomy h.prunedTs.t ts.t with hlt | heq | hgt
  · have : h.prunedTs ≤ ts := Stamp.le_iff.mpr (Or.inl hlt)
    simp [publish, hlt, this, hlt.le]
  · rcases le_total h.prunedTs.i ts.i with hi | hi
    · have : h.prunedTs ≤ ts := Stamp.le_iff.mpr (Or.inr ⟨heq, hi⟩)
      simp [publish, heq, this, hi]
    · have : ts ≤ h.prunedTs := Stamp.le_iff.mpr (Or.inr ⟨heq.symm, hi⟩)
      rw [max_eq_left this]
      simp [publish, ← heq, hi]
  · have : ts ≤ h.prunedTs := Stamp.le_iff.mpr (Or.inl hgt)
    rw [max_eq_left this]
    simp [publish, hgt.not_gt, hgt.ne', hgt.le]

/-- Publishing does not move the watermark back. -/
lemma publish_advances (h : History) (newest : ℕ) (ts : Stamp) :
    h.Advances (publish h newest ts) :=
  ⟨le_max_left _ _, publish_prunedTs h newest ts ▸ le_max_left _ _, rfl, rfl, rfl⟩

/-- Publishing covers the rows up to the published boundary. -/
lemma publish_covers {h : History} {newest : ℕ} {ts : Stamp} {r : OplogRow}
    (hseq : r.seq ≤ newest) (hts : r.ts ≤ ts) : (publish h newest ts).Covers r :=
  ⟨hseq.trans (le_max_right _ _), publish_prunedTs h newest ts ▸ hts.trans (le_max_right _ _)⟩

/-- Every selected row is stamped at most with the largest selected stamp. -/
lemma le_of_latestSelected {w : PruneWhere} {rows : List OplogRow} {ts : Stamp}
    (h : latestSelected w rows = some ts) {r : OplogRow} (hr : r ∈ rows)
    (hsel : w.selects r = true) : r.ts ≤ ts := by
  refine (List.max?_le_iff h).mp le_rfl r.ts ?_
  exact List.mem_map_of_mem (List.mem_filter.mpr ⟨hr, hsel⟩)

/-- A selected row is before the sampled head. -/
lemma PruneWhere.lt_head {w : PruneWhere} {r : OplogRow} (h : w.selects r = true) :
    r.seq < w.head := by
  simp only [PruneWhere.selects, Bool.and_eq_true, decide_eq_true_eq] at h
  exact h.1

/-- A doomed row is selected, and not beyond the last selected row. -/
lemma PrunePlan.dooms_iff {plan : PrunePlan} {r : OplogRow} :
    plan.dooms r = true ↔ r.seq ≤ plan.newest ∧ plan.condition.selects r = true := by
  simp [PrunePlan.dooms]

namespace OplogServer

/-! ## The invariant -/

/-- A sampled head is not beyond what was committed. -/
def Reached (committed : List OplogRow) (head : ℕ) : Prop := ∃ r ∈ committed, head ≤ r.seq

/-- The plan of a pass is sound: its head was reached, and no selected row is stamped beyond the
planned stamp. -/
structure Planned (committed rows : List OplogRow) (plan : PrunePlan) : Prop where
  /-- The head was reached. -/
  reached : Reached committed plan.condition.head
  /-- The planned stamp bounds the selected rows. -/
  stamped : ∀ r ∈ rows, plan.condition.selects r = true → r.ts ≤ plan.timestamp

/-- The pass is about to replace the rows by `survivors`, having removed `removed`. -/
structure Splits (committed rows survivors removed : List OplogRow) : Prop where
  /-- The survivors are rows of the table, in order. -/
  survivors_sublist : survivors.Sublist rows
  /-- Every row survives or is removed. -/
  mem_or_mem : ∀ r ∈ rows, r ∈ survivors ∨ r ∈ removed
  /-- What is removed was there and does not survive. -/
  removed_mem : ∀ r ∈ removed, r ∈ rows ∧ r ∉ survivors
  /-- Something beyond each removed row is committed. -/
  removed_lt : ∀ r ∈ removed, ∃ r' ∈ committed, r.seq < r'.seq

/-- The pass is about to replace the history row `h` by `h'`, having removed `removed`. -/
structure Publishes (h : History) (removed : List OplogRow) (h' : History) : Prop where
  /-- The new watermark covers what is removed. -/
  covers : ∀ r ∈ removed, h'.Covers r
  /-- The watermark does not go back. -/
  advances : h.Advances h'
  /-- Without a removal nothing changes. -/
  eq_of_nil : removed = [] → h' = h
  /-- The sequence watermark is the old one, or belongs to a removed row. -/
  attained : h'.prunedSeq = h.prunedSeq ∨ ∃ r ∈ removed, r.seq = h'.prunedSeq

/-- What holds of the data a pass carries from one statement to the next. -/
def PhaseInv (s : OplogServer) : PrunePhase → Prop
  | .idle | .head _ _ | .rollback => True
  | .age _ _ head | .cut _ head _ => Reached s.committed head
  | .newest w | .timestamp w _ => Reached s.committed w.head
  | .begin plan | .lockClock plan => Planned s.committed s.rows plan
  | .lockHistory plan | .verify plan => s.lock = .pruner ∧ Planned s.committed s.rows plan
  | .delete plan =>
    s.lock = .pruner ∧ Planned s.committed s.rows plan ∧
      ∃ r ∈ s.rows, r.seq = plan.newest ∧ plan.dooms r = true
  | .publish plan survivors removed =>
    s.lock = .pruner ∧ Planned s.committed s.rows plan ∧
      survivors = s.rows.filter (fun r => !plan.dooms r) ∧ removed = s.rows.filter plan.dooms ∧
      ∃ r ∈ removed, r.seq = plan.newest
  | .commit survivors removed history =>
    s.lock = .pruner ∧ Splits s.committed s.rows survivors removed ∧
      Publishes s.history removed history

/-- The invariant of the oplog server. -/
structure Inv (s : OplogServer) : Prop where
  /-- Rows are committed and appended in sequence order. -/
  sequenced : Sequenced OplogRow.seq (s.committed ++ s.lock.pending)
  /-- `AUTO_INCREMENT` is beyond every row. -/
  fresh : ∀ r ∈ s.committed ++ s.lock.pending, r.seq < s.autoIncrement
  /-- The stored rows are committed rows, in order. -/
  rows_sublist : s.rows.Sublist s.committed
  /-- A committed row is stored, or deleted, or was lost before. -/
  accounted : ∀ r ∈ s.committed, r ∈ s.rows ∨ r ∈ s.deleted ∨ r ∈ s.lost
  /-- What is deleted or lost was committed and is not stored. -/
  gone : ∀ r, r ∈ s.deleted ∨ r ∈ s.lost → r ∈ s.committed ∧ r ∉ s.rows
  /-- The last committed row is stored. -/
  newest_kept : ∀ r ∈ s.committed, (∀ r' ∈ s.committed, r'.seq ≤ r.seq) → r ∈ s.rows
  /-- The watermark covers what pruning deleted. -/
  watermark : ∀ r ∈ s.deleted, s.history.Covers r
  /-- The data of the pass is sound. -/
  phase : s.PhaseInv s.pruning

/-- A state that differs in the pass alone keeps the invariant when the new data is sound. -/
lemma Inv.setPhase {s : OplogServer} (h : s.Inv) {p : PrunePhase} (hp : s.PhaseInv p) :
    ({ s with pruning := p } : OplogServer).Inv :=
  { sequenced := h.sequenced, fresh := h.fresh, rows_sublist := h.rows_sublist
    accounted := h.accounted, gone := h.gone, newest_kept := h.newest_kept
    watermark := h.watermark
    phase := by cases p <;> exact hp }

/-! ## What one action does -/

/-- The committed tables of `s'` are those of `s` with the rows `new` appended. -/
structure Extends (s s' : OplogServer) (new : List OplogRow) : Prop where
  /-- The rows are appended to the table. -/
  rows_eq : s'.rows = s.rows ++ new
  /-- They are what was committed. -/
  committed_eq : s'.committed = s.committed ++ new
  /-- The history row is untouched. -/
  history_eq : s'.history = s.history
  /-- Nothing is deleted. -/
  deleted_eq : s'.deleted = s.deleted
  /-- Nothing is lost. -/
  lost_eq : s'.lost = s.lost

/-- A pass that was about to commit has replaced the rows and the history row. -/
structure Replaces (s s' : OplogServer) (survivors removed : List OplogRow) (history : History) :
    Prop where
  /-- The pass was about to commit. -/
  pruning_eq : s.pruning = .commit survivors removed history
  /-- The pass is over. -/
  idle : s'.pruning = .idle
  /-- The survivors are the table. -/
  rows_eq : s'.rows = survivors
  /-- Nothing is committed by a writer. -/
  committed_eq : s'.committed = s.committed
  /-- The history row is the published one. -/
  history_eq : s'.history = history
  /-- The removed rows are deleted. -/
  deleted_eq : s'.deleted = s.deleted ++ removed
  /-- Nothing is lost. -/
  lost_eq : s'.lost = s.lost

/-- Nothing happened to the tables. -/
lemma Extends.of_tables_eq {s s' : OplogServer} (hr : s'.rows = s.rows)
    (hc : s'.committed = s.committed) (hh : s'.history = s.history)
    (hd : s'.deleted = s.deleted) (hl : s'.lost = s.lost) : s.Extends s' [] :=
  ⟨by simp [hr], by simp [hc], hh, hd, hl⟩

/-- Appending twice is appending. -/
lemma Extends.trans {s s' s'' : OplogServer} {new new' : List OplogRow} (h : s.Extends s' new)
    (h' : s'.Extends s'' new') : s.Extends s'' (new ++ new') :=
  ⟨by rw [h'.rows_eq, h.rows_eq, List.append_assoc],
    by rw [h'.committed_eq, h.committed_eq, List.append_assoc],
    h'.history_eq.trans h.history_eq, h'.deleted_eq.trans h.deleted_eq,
    h'.lost_eq.trans h.lost_eq⟩

/-- An append adds a row, beyond all others, to the pending rows of the lock's holder. -/
lemma step_append {s s' : OplogServer} {conn : ℕ} {call : AppendCall}
    (h : s.step (.append conn call) = some s') :
    s.lock ≠ .pruner ∧ ∃ clock row, row.seq = s.autoIncrement + call.gap ∧
      s' = { s with
        autoIncrement := row.seq + 1, lock := .writer conn (s.lock.pending ++ [row]) clock } := by
  cases hlock : s.lock with
  | free =>
    simp only [step, hlock, Option.map_eq_some_iff, Prod.exists] at h
    obtain ⟨clock, row, happend, rfl⟩ := h
    exact ⟨by simp, clock, row, (oplogAppend_eq_some happend).2.2, rfl⟩
  | writer owner pending clock₀ =>
    simp only [step, hlock] at h
    split at h
    · simp only [Option.map_eq_some_iff, Prod.exists] at h
      obtain ⟨clock, row, happend, rfl⟩ := h
      exact ⟨by simp, clock, row, (oplogAppend_eq_some happend).2.2, rfl⟩
    · exact absurd h (by simp)
  | pruner => simp [step, hlock] at h

/-- A commit moves the pending rows into the table and frees the lock. -/
lemma step_commit {s s' : OplogServer} {conn : ℕ} (h : s.step (.commit conn) = some s') :
    ∃ pending clock, s.lock = .writer conn pending clock ∧
      s' = { s with
        rows := s.rows ++ pending, clock := clock, committed := s.committed ++ pending,
        lock := .free } := by
  cases hlock : s.lock with
  | free => simp [step, hlock] at h
  | writer owner pending clock =>
    simp only [step, hlock] at h
    split at h
    · next howner =>
      subst howner
      exact ⟨pending, clock, rfl, (Option.some.inj h).symm⟩
    · exact absurd h (by simp)
  | pruner => simp [step, hlock] at h

/-- A rollback drops the pending rows and frees the lock. -/
lemma step_rollback {s s' : OplogServer} {conn : ℕ} (h : s.step (.rollback conn) = some s') :
    s.lock ≠ .pruner ∧ s' = { s with lock := .free } := by
  cases hlock : s.lock with
  | free => simp [step, hlock] at h
  | writer owner pending clock =>
    simp only [step, hlock] at h
    split at h
    · exact ⟨by simp, (Option.some.inj h).symm⟩
    · exact absurd h (by simp)
  | pruner => simp [step, hlock] at h

/-- A statement of the pass leaves the tables alone, unless it is the `COMMIT`. -/
lemma pruneStatement_effect {s s' : OplogServer} {now : ℕ} (h : s.pruneStatement now = some s') :
    s.Extends s' [] ∨
      ∃ survivors removed history, s.Replaces s' survivors removed history := by
  cases hp : s.pruning with
  | idle => simp [pruneStatement, hp] at h
  | lockClock plan =>
    simp only [pruneStatement, hp] at h
    split at h
    · cases h; exact Or.inl (.of_tables_eq rfl rfl rfl rfl rfl)
    · exact absurd h (by simp)
  | commit survivors removed history =>
    simp only [pruneStatement, hp] at h
    cases h
    exact Or.inr ⟨survivors, removed, history, hp, rfl, rfl, rfl, rfl, rfl, rfl⟩
  | _ =>
    simp only [pruneStatement, hp] at h
    cases h
    exact Or.inl (.of_tables_eq rfl rfl rfl rfl rfl)

/-- A statement of the pass commits no row and leaves no row pending that was not. -/
lemma pruneStatement_frame {s s' : OplogServer} {now : ℕ} (h : s.pruneStatement now = some s') :
    s'.autoIncrement = s.autoIncrement ∧ s'.committed = s.committed ∧ s'.lost = s.lost ∧
      s'.lock.pending.Sublist s.lock.pending := by
  cases hp : s.pruning with
  | idle => simp [pruneStatement, hp] at h
  | lockClock plan =>
    simp only [pruneStatement, hp] at h
    split at h
    · cases h; exact ⟨rfl, rfl, rfl, List.nil_sublist _⟩
    · exact absurd h (by simp)
  | commit survivors removed history =>
    simp only [pruneStatement, hp] at h
    cases h
    exact ⟨rfl, rfl, rfl, List.nil_sublist _⟩
  | rollback =>
    simp only [pruneStatement, hp] at h
    cases h
    refine ⟨rfl, rfl, rfl, ?_⟩
    show (if s.lock = .pruner then ClockLock.free else s.lock).pending.Sublist _
    split
    · exact List.nil_sublist _
    · exact List.Sublist.refl _
  | _ =>
    simp only [pruneStatement, hp] at h
    cases h
    exact ⟨rfl, rfl, rfl, List.Sublist.refl _⟩

/-- **What one action does to the tables.**  It appends committed rows, possibly none, or it is
the `COMMIT` of a pass. -/
theorem step_effect {s s' : OplogServer} {a : ServerAction} (h : s.step a = some s') :
    (∃ new, s.Extends s' new) ∨
      ∃ survivors removed history, s.Replaces s' survivors removed history := by
  cases a with
  | append conn call =>
    obtain ⟨-, clock, row, -, rfl⟩ := step_append h
    exact Or.inl ⟨[], .of_tables_eq rfl rfl rfl rfl rfl⟩
  | commit conn =>
    obtain ⟨pending, clock, -, rfl⟩ := step_commit h
    exact Or.inl ⟨pending, rfl, rfl, rfl, rfl, rfl⟩
  | rollback conn =>
    obtain ⟨-, rfl⟩ := step_rollback h
    exact Or.inl ⟨[], .of_tables_eq rfl rfl rfl rfl rfl⟩
  | pruneStart maxRows maxAge =>
    simp only [step] at h
    split at h
    · cases h; exact Or.inl ⟨[], .of_tables_eq rfl rfl rfl rfl rfl⟩
    · exact absurd h (by simp)
  | pruneStep now => exact (pruneStatement_effect h).imp (fun h => ⟨[], h⟩) id
  | pruneFail =>
    simp only [step] at h
    split at h
    · exact absurd h (by simp)
    · cases h; exact Or.inl ⟨[], .of_tables_eq rfl rfl rfl rfl rfl⟩

/-! ## The invariant is kept -/

/-- Whoever does not hold the lock for the pruner leaves the data of the pass sound. -/
lemma PhaseInv.of_lock_ne {s : OplogServer} {p : PrunePhase} (h : s.PhaseInv p)
    (hlock : s.lock ≠ .pruner) (lock : ClockLock) (n : ℕ) :
    ({ s with autoIncrement := n, lock := lock } : OplogServer).PhaseInv p := by
  cases p with
  | lockHistory _ | verify _ | delete _ | publish _ _ _ | commit _ _ _ => exact absurd h.1 hlock
  | _ => exact h

/-- Rows committed beyond all others leave a plan sound. -/
lemma Planned.append {committed rows new : List OplogRow} {plan : PrunePlan}
    (h : Planned committed rows plan)
    (hnew : ∀ r ∈ committed, ∀ r' ∈ new, r.seq < r'.seq) :
    Planned (committed ++ new) (rows ++ new) plan := by
  obtain ⟨r₀, hr₀, hhead⟩ := h.reached
  refine ⟨⟨r₀, List.mem_append_left new hr₀, hhead⟩, fun r hr hsel => ?_⟩
  rcases List.mem_append.mp hr with hr | hr
  · exact h.stamped r hr hsel
  · have hbefore := PruneWhere.lt_head hsel
    have hafter := hnew r₀ hr₀ r hr
    omega

/-- An append keeps the invariant. -/
lemma Inv.append {s s' : OplogServer} {conn : ℕ} {call : AppendCall} (hI : s.Inv)
    (h : s.step (.append conn call) = some s') : s'.Inv := by
  obtain ⟨hlock, clock, row, hseq, rfl⟩ := step_append h
  have hlt : ∀ r ∈ s.committed ++ s.lock.pending, r.seq < row.seq := fun r hr => by
    have := hI.fresh r hr
    omega
  have hpending : s.committed ++ (s.lock.pending ++ [row]) =
      (s.committed ++ s.lock.pending) ++ [row] := (List.append_assoc _ _ _).symm
  refine ⟨?_, ?_, hI.rows_sublist, hI.accounted, hI.gone, hI.newest_kept, hI.watermark,
    hI.phase.of_lock_ne hlock _ _⟩
  · show Sequenced OplogRow.seq (s.committed ++ (s.lock.pending ++ [row]))
    rw [hpending]
    refine Sequenced.append_iff.mpr ⟨hI.sequenced, List.pairwise_singleton _ _, ?_⟩
    intro r hr r' hr'
    rw [List.mem_singleton.mp hr']
    exact hlt r hr
  · show ∀ r ∈ s.committed ++ (s.lock.pending ++ [row]), r.seq < row.seq + 1
    rw [hpending]
    intro r hr
    rcases List.mem_append.mp hr with hr | hr
    · exact (hlt r hr).trans (Nat.lt_succ_self _)
    · rw [List.mem_singleton.mp hr]
      exact Nat.lt_succ_self _

/-- A commit keeps the invariant. -/
lemma Inv.commit {s s' : OplogServer} {conn : ℕ} (hI : s.Inv)
    (h : s.step (.commit conn) = some s') : s'.Inv := by
  obtain ⟨pending, clock, hlock, rfl⟩ := step_commit h
  have hpend : s.lock.pending = pending := by rw [hlock]; rfl
  have hseq : Sequenced OplogRow.seq (s.committed ++ pending) := hpend ▸ hI.sequenced
  have hfresh : ∀ r ∈ s.committed ++ pending, r.seq < s.autoIncrement := hpend ▸ hI.fresh
  have hnew := (Sequenced.append_iff.mp hseq).2.2
  refine ⟨by simpa [ClockLock.pending] using hseq, by simpa [ClockLock.pending] using hfresh,
    hI.rows_sublist.append (List.Sublist.refl pending), ?_, ?_, ?_, hI.watermark, ?_⟩
  · intro r hr
    rcases List.mem_append.mp hr with hr | hr
    · exact (hI.accounted r hr).imp_left (List.mem_append_left pending)
    · exact Or.inl (List.mem_append_right s.rows hr)
  · intro r hr
    obtain ⟨hcom, hrows⟩ := hI.gone r hr
    refine ⟨List.mem_append_left pending hcom, fun hmem => ?_⟩
    rcases List.mem_append.mp hmem with hmem | hmem
    · exact hrows hmem
    · exact absurd (hnew r hcom r hmem) (lt_irrefl _)
  · intro r hr hmax
    rcases List.mem_append.mp hr with hr | hr
    · have hle : ∀ r' ∈ s.committed, r'.seq ≤ r.seq := fun r' hr' =>
        hmax r' (List.mem_append_left pending hr')
      exact List.mem_append_left pending (hI.newest_kept r hr hle)
    · exact List.mem_append_right s.rows hr
  · have hlock' : s.lock ≠ .pruner := by simp [hlock]
    have hreached : ∀ head, Reached s.committed head → Reached (s.committed ++ pending) head :=
      fun head ⟨r, hr, hle⟩ => ⟨r, List.mem_append_left pending hr, hle⟩
    have hphase := hI.phase
    show PhaseInv _ s.pruning
    cases hp : s.pruning with
    | idle | head _ _ | rollback => trivial
    | age _ _ _ | cut _ _ _ | newest _ | timestamp _ _ => rw [hp] at hphase; exact hreached _ hphase
    | begin _ | lockClock _ => rw [hp] at hphase; exact Planned.append hphase hnew
    | lockHistory _ | verify _ | delete _ | publish _ _ _ | commit _ _ _ =>
      rw [hp] at hphase
      exact absurd hphase.1 hlock'

/-- A rollback keeps the invariant. -/
lemma Inv.rollback {s s' : OplogServer} {conn : ℕ} (hI : s.Inv)
    (h : s.step (.rollback conn) = some s') : s'.Inv := by
  obtain ⟨hlock, rfl⟩ := step_rollback h
  have hsub : (s.committed ++ ClockLock.free.pending).Sublist (s.committed ++ s.lock.pending) :=
    (List.Sublist.refl _).append (List.nil_sublist _)
  exact ⟨hI.sequenced.sublist hsub, fun r hr => hI.fresh r (hsub.mem hr), hI.rows_sublist,
    hI.accounted, hI.gone, hI.newest_kept, hI.watermark, hI.phase.of_lock_ne hlock _ _⟩

/-- The head of the table was reached. -/
lemma Inv.reached_oplogHead {s : OplogServer} (hI : s.Inv) (h : oplogHead s.rows ≠ 0) :
    Reached s.committed (oplogHead s.rows) := by
  obtain ⟨r, hr, hseq⟩ := exists_seq_eq_oplogHead h
  exact ⟨r, hI.rows_sublist.mem hr, hseq.ge⟩

/-- After the limits are known the data of the pass is sound. -/
lemma phaseInv_planned {s : OplogServer} {w : PruneWhere} (h : Reached s.committed w.head) :
    s.PhaseInv (.planned w) := by
  unfold PrunePhase.planned
  split
  · trivial
  · exact h

/-- After the age limit is known the data of the pass is sound. -/
lemma phaseInv_counted {s : OplogServer} {maxRows head : ℕ} {cutoff : Option ℕ}
    (h : Reached s.committed head) : s.PhaseInv (.counted maxRows head cutoff) := by
  unfold PrunePhase.counted
  split
  · exact h
  · exact phaseInv_planned h

/-- The `DELETE` splits the table, and keeps the last committed row. -/
lemma splits_delete {s : OplogServer} {plan : PrunePlan}
    (h : Reached s.committed plan.condition.head) :
    Splits s.committed s.rows (s.rows.filter fun r => !plan.dooms r)
      (s.rows.filter plan.dooms) := by
  refine ⟨List.filter_sublist, fun r hr => ?_, fun r hr => ?_, fun r hr => ?_⟩
  · cases hd : plan.dooms r
    · exact Or.inl (by simp [hr, hd])
    · exact Or.inr (by simp [hr, hd])
  · obtain ⟨hmem, hd⟩ := List.mem_filter.mp hr
    exact ⟨hmem, by simp [hd]⟩
  · obtain ⟨r₀, hr₀, hhead⟩ := h
    have hdoom := PrunePlan.dooms_iff.mp (List.mem_filter.mp hr).2
    exact ⟨r₀, hr₀, (PruneWhere.lt_head hdoom.2).trans_le hhead⟩

/-- A transaction that removed nothing splits the table into itself and nothing. -/
lemma splits_nil {committed rows : List OplogRow} : Splits committed rows rows [] :=
  ⟨List.Sublist.refl _, fun _ h => Or.inl h, fun _ h => absurd h List.not_mem_nil,
    fun _ h => absurd h List.not_mem_nil⟩

/-- A transaction that removed nothing publishes the history row as it is. -/
lemma publishes_nil {h : History} : Publishes h [] h :=
  ⟨fun _ hr => absurd hr List.not_mem_nil, .refl h, fun _ => rfl, Or.inl rfl⟩

/-- The `COMMIT` of a pass keeps the invariant. -/
lemma Inv.pruneCommit {s : OplogServer} {survivors removed : List OplogRow} {history : History}
    (hI : s.Inv) (hp : s.pruning = .commit survivors removed history) :
    ({ s with
      rows := survivors, history := history, deleted := s.deleted ++ removed,
      lock := .free, pruning := .idle } : OplogServer).Inv := by
  have hphase := hI.phase
  rw [hp] at hphase
  obtain ⟨hlock, hsplit, hpub⟩ := hphase
  have hpend : s.lock.pending = [] := by rw [hlock]; rfl
  have hseq := hI.sequenced
  have hfresh := hI.fresh
  rw [hpend] at hseq hfresh
  refine ⟨hseq, hfresh, hsplit.survivors_sublist.trans hI.rows_sublist, ?_, ?_, ?_, ?_, trivial⟩
  · intro r hr
    rcases hI.accounted r hr with hr | hr | hr
    · exact (hsplit.mem_or_mem r hr).imp_right fun h => Or.inl (List.mem_append_right _ h)
    · exact Or.inr (Or.inl (List.mem_append_left _ hr))
    · exact Or.inr (Or.inr hr)
  · have hstay : ∀ r, r ∉ s.rows → r ∉ survivors := fun r hr h =>
      hr (hsplit.survivors_sublist.mem h)
    rintro r (hr | hr)
    · rcases List.mem_append.mp hr with hr | hr
      · exact ⟨(hI.gone r (Or.inl hr)).1, hstay r (hI.gone r (Or.inl hr)).2⟩
      · obtain ⟨hmem, hnot⟩ := hsplit.removed_mem r hr
        exact ⟨hI.rows_sublist.mem hmem, hnot⟩
    · exact ⟨(hI.gone r (Or.inr hr)).1, hstay r (hI.gone r (Or.inr hr)).2⟩
  · intro r hr hmax
    refine (hsplit.mem_or_mem r (hI.newest_kept r hr hmax)).resolve_right fun hrem => ?_
    obtain ⟨r', hr', hlt⟩ := hsplit.removed_lt r hrem
    exact absurd (hmax r' hr') hlt.not_ge
  · intro r hr
    rcases List.mem_append.mp hr with hr | hr
    · exact (hI.watermark r hr).mono hpub.advances
    · exact hpub.covers r hr

/-- Taking the clock lock for the pruner keeps the invariant. -/
lemma Inv.lockClock {s : OplogServer} {plan : PrunePlan} (hI : s.Inv)
    (hp : s.pruning = .lockClock plan) (hlock : s.lock = .free) :
    ({ s with lock := .pruner, pruning := .lockHistory plan } : OplogServer).Inv := by
  have hphase := hI.phase
  rw [hp] at hphase
  have hseq := hI.sequenced
  have hfresh := hI.fresh
  rw [hlock] at hseq hfresh
  exact ⟨hseq, hfresh, hI.rows_sublist, hI.accounted, hI.gone, hI.newest_kept, hI.watermark,
    rfl, hphase⟩

/-- Releasing the pruner's lock after a `ROLLBACK` keeps the invariant. -/
lemma Inv.pruneRollback {s : OplogServer} (hI : s.Inv) :
    ({ s with
      lock := if s.lock = .pruner then .free else s.lock, pruning := .idle } :
        OplogServer).Inv := by
  by_cases hlock : s.lock = .pruner
  · have hseq := hI.sequenced
    have hfresh := hI.fresh
    rw [hlock] at hseq hfresh
    simp only [hlock, if_true]
    exact ⟨hseq, hfresh, hI.rows_sublist, hI.accounted, hI.gone, hI.newest_kept, hI.watermark,
      trivial⟩
  · simp only [hlock, if_false]
    exact hI.setPhase trivial

/-- A statement of the pass keeps the invariant. -/
lemma Inv.pruneStatement {s s' : OplogServer} {now : ℕ} (hI : s.Inv)
    (h : s.pruneStatement now = some s') : s'.Inv := by
  have hphase := hI.phase
  cases hp : s.pruning with
  | idle => simp [OplogServer.pruneStatement, hp] at h
  | head maxRows maxAge =>
    simp only [OplogServer.pruneStatement, hp] at h
    cases h
    refine hI.setPhase ?_
    split
    · trivial
    · next hhead =>
      split
      · exact hI.reached_oplogHead hhead
      · exact phaseInv_counted (hI.reached_oplogHead hhead)
  | age maxRows maxAge head =>
    simp only [OplogServer.pruneStatement, hp] at h
    cases h
    rw [hp] at hphase
    exact hI.setPhase (phaseInv_counted hphase)
  | cut maxRows head cutoff =>
    simp only [OplogServer.pruneStatement, hp] at h
    cases h
    rw [hp] at hphase
    exact hI.setPhase (phaseInv_planned hphase)
  | newest w =>
    simp only [OplogServer.pruneStatement, hp] at h
    cases h
    rw [hp] at hphase
    refine hI.setPhase ?_
    split
    · trivial
    · exact hphase
  | timestamp w newest =>
    simp only [OplogServer.pruneStatement, hp] at h
    cases h
    rw [hp] at hphase
    refine hI.setPhase ?_
    split
    · trivial
    · next ts hts => exact ⟨hphase, fun r hr hsel => le_of_latestSelected hts hr hsel⟩
  | begin plan =>
    simp only [OplogServer.pruneStatement, hp] at h
    cases h
    rw [hp] at hphase
    refine hI.setPhase ?_
    exact hphase
  | lockClock plan =>
    simp only [OplogServer.pruneStatement, hp] at h
    split at h
    · next hlock => cases h; exact hI.lockClock hp hlock
    · exact absurd h (by simp)
  | lockHistory plan =>
    simp only [OplogServer.pruneStatement, hp] at h
    cases h
    rw [hp] at hphase
    refine hI.setPhase ?_
    exact hphase
  | verify plan =>
    simp only [OplogServer.pruneStatement, hp] at h
    cases h
    rw [hp] at hphase
    refine hI.setPhase ?_
    split
    · next hany =>
      obtain ⟨r, hr, hboth⟩ := List.any_eq_true.mp hany
      obtain ⟨hseq, hsel⟩ : r.seq = plan.newest ∧ plan.condition.selects r = true := by
        simpa using hboth
      exact ⟨hphase.1, hphase.2, r, hr, hseq, PrunePlan.dooms_iff.mpr ⟨hseq.le, hsel⟩⟩
    · exact ⟨hphase.1, splits_nil, publishes_nil⟩
  | delete plan =>
    simp only [OplogServer.pruneStatement, hp] at h
    cases h
    rw [hp] at hphase
    obtain ⟨hlock, hplan, r, hr, hseq, hdoom⟩ := hphase
    have hmem : r ∈ s.rows.filter plan.dooms := List.mem_filter.mpr ⟨hr, hdoom⟩
    refine hI.setPhase ?_
    rw [if_pos (List.length_pos_of_mem hmem)]
    exact ⟨hlock, hplan, rfl, rfl, r, hmem, hseq⟩
  | publish plan survivors removed =>
    simp only [OplogServer.pruneStatement, hp] at h
    cases h
    rw [hp] at hphase
    obtain ⟨hlock, hplan, rfl, rfl, r, hr, hseq⟩ := hphase
    refine hI.setPhase ⟨hlock, splits_delete hplan.reached, ⟨fun r hr => ?_,
      publish_advances _ _ _, fun hnil => absurd hr (hnil ▸ List.not_mem_nil), ?_⟩⟩
    · obtain ⟨hmem, hd⟩ := List.mem_filter.mp hr
      obtain ⟨hle, hsel⟩ := PrunePlan.dooms_iff.mp hd
      exact publish_covers hle (hplan.stamped r hmem hsel)
    · have hmax : (publish s.history plan.newest plan.timestamp).prunedSeq =
          max s.history.prunedSeq plan.newest := rfl
      rcases le_total s.history.prunedSeq plan.newest with hle | hle
      · exact Or.inr ⟨r, hr, by rw [hseq, hmax, max_eq_right hle]⟩
      · exact Or.inl (by rw [hmax, max_eq_left hle])
  | commit survivors removed history =>
    simp only [OplogServer.pruneStatement, hp] at h
    cases h
    exact hI.pruneCommit hp
  | rollback =>
    simp only [OplogServer.pruneStatement, hp] at h
    cases h
    exact hI.pruneRollback

/-- **Every action keeps the invariant.** -/
theorem Inv.step {s s' : OplogServer} {a : ServerAction} (hI : s.Inv)
    (h : s.step a = some s') : s'.Inv := by
  cases a with
  | append conn call => exact hI.append h
  | commit conn => exact hI.commit h
  | rollback conn => exact hI.rollback h
  | pruneStart maxRows maxAge =>
    simp only [OplogServer.step] at h
    split at h
    · cases h
      refine hI.setPhase ?_
      trivial
    · exact absurd h (by simp)
  | pruneStep now => exact hI.pruneStatement h
  | pruneFail =>
    simp only [OplogServer.step] at h
    split at h
    · exact absurd h (by simp)
    · cases h
      refine hI.setPhase ?_
      cases s.pruning <;> trivial

/-- **The invariant holds along every run.** -/
theorem Inv.run {s t : OplogServer} {as : List ServerAction} (hI : s.Inv)
    (h : Steps OplogServer.step s as t) : t.Inv :=
  h.invariant (fun _ _ _ hI _ hs => hI.step hs) hI

/-- An oplog of any content, with nobody at work on it.  The rows in `lost` were removed before
the history row existed, by a pruner that kept the last row. -/
structure Quiescent (s : OplogServer) : Prop where
  /-- Nobody holds the clock. -/
  lock_free : s.lock = .free
  /-- No pass is under way. -/
  idle : s.pruning = .idle
  /-- The committed rows are the lost ones and the stored ones. -/
  committed_eq : s.committed = s.lost ++ s.rows
  /-- They are in sequence order. -/
  sequenced : Sequenced OplogRow.seq (s.lost ++ s.rows)
  /-- `AUTO_INCREMENT` is beyond them. -/
  fresh : ∀ r ∈ s.lost ++ s.rows, r.seq < s.autoIncrement
  /-- The last row was kept. -/
  newest_kept : s.lost ≠ [] → s.rows ≠ []
  /-- Pruning has deleted nothing. -/
  deleted_eq : s.deleted = []

/-- A quiescent oplog meets the invariant. -/
lemma Quiescent.inv {s : OplogServer} (h : s.Quiescent) : s.Inv := by
  have hsplit := Sequenced.append_iff.mp h.sequenced
  have hpend : s.lock.pending = [] := by rw [h.lock_free]; rfl
  refine ⟨?_, ?_, ?_, ?_, ?_, ?_, ?_, ?_⟩
  · rw [hpend, List.append_nil, h.committed_eq]
    exact h.sequenced
  · rw [hpend, List.append_nil, h.committed_eq]
    exact h.fresh
  · rw [h.committed_eq]
    exact List.sublist_append_right _ _
  · intro r hr
    rw [h.committed_eq] at hr
    exact (List.mem_append.mp hr).symm.imp_right Or.inr
  · rintro r (hr | hr)
    · rw [h.deleted_eq] at hr
      exact absurd hr List.not_mem_nil
    · refine ⟨by rw [h.committed_eq]; exact List.mem_append_left _ hr, fun hmem => ?_⟩
      exact absurd (hsplit.2.2 r hr r hmem) (lt_irrefl _)
  · intro r hr hmax
    rw [h.committed_eq] at hr hmax
    refine (List.mem_append.mp hr).resolve_left fun hlost => ?_
    obtain ⟨x, hx⟩ := List.exists_mem_of_ne_nil _ (h.newest_kept (List.ne_nil_of_mem hlost))
    have hlt := hsplit.2.2 r hlost x hx
    have hle := hmax x (List.mem_append_right _ hx)
    omega
  · rw [h.deleted_eq]
    exact fun r hr => absurd hr List.not_mem_nil
  · rw [h.idle]
    trivial

/-! ## The history row over a run -/

/-- One action does not move the watermark back. -/
lemma Inv.advances_step {s s' : OplogServer} {a : ServerAction} (hI : s.Inv)
    (h : s.step a = some s') : s.history.Advances s'.history := by
  rcases step_effect h with ⟨new, hE⟩ | ⟨survivors, removed, history, hR⟩
  · rw [hE.history_eq]
    exact .refl _
  · have hphase := hI.phase
    rw [hR.pruning_eq] at hphase
    rw [hR.history_eq]
    exact hphase.2.2.advances

/-- The watermark does not go back over a run. -/
lemma Inv.advances_run {s t : OplogServer} {as : List ServerAction} (hI : s.Inv)
    (h : Steps OplogServer.step s as t) : s.history.Advances t.history :=
  h.relate (fun s t => s.history.Advances t.history) (fun _ => .refl _) (fun _ _ _ => .trans)
    (fun _ _ _ hI _ hs => ⟨hI.step hs, hI.advances_step hs⟩) hI

end OplogServer

end Chimera

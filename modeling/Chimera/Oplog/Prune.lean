import Chimera.Oplog.Invariant

/-!
# The pruning watermark

The history row names the last sequence number and the largest stamp that pruning deleted.
Readers trust it: a resume point at or after the watermark is complete.  So the watermark has to
cover every row pruning deleted, must never go back, and must move with the deletion or not at
all, wherever a pass fails.
-/

namespace Chimera

open SequencedLog StepSystem

namespace OplogServer

/-! ## One pass -/

/-- No transaction of the pass is left that could change the tables. -/
def Over (s : OplogServer) : Prop := s.pruning = .idle ∨ s.pruning = .rollback

/-- While no new pass begins, a pass that is over stays over and only appends happen. -/
lemma Over.step {s s' : OplogServer} {a : ServerAction} (ho : s.Over)
    (ha : a.startsPass = false) (h : s.step a = some s') :
    s'.Over ∧ ∃ new, s.Extends s' new := by
  refine ⟨?_, (step_effect h).resolve_right ?_⟩
  · cases a with
    | append conn call => obtain ⟨-, clock, row, -, rfl⟩ := step_append h; exact ho
    | commit conn => obtain ⟨pending, clock, -, rfl⟩ := step_commit h; exact ho
    | rollback conn => obtain ⟨-, rfl⟩ := step_rollback h; exact ho
    | pruneStart maxRows maxAge => exact absurd ha (by simp [ServerAction.startsPass])
    | pruneStep now =>
      rcases ho with hp | hp <;> simp only [OplogServer.step, pruneStatement, hp] at h
      · exact absurd h (by simp)
      · cases h; exact Or.inl rfl
    | pruneFail =>
      rcases ho with hp | hp <;> simp only [OplogServer.step, hp] at h
      · exact absurd h (by simp)
      · cases h; exact Or.inr rfl
  · rintro ⟨survivors, removed, history, hR⟩
    rcases ho with hp | hp <;> exact absurd (hR.pruning_eq.symm.trans hp) (by simp)

/-- While no new pass begins, only appends happen after a pass is over. -/
lemma Over.run {s t : OplogServer} {as : List ServerAction} (ho : s.Over)
    (has : ∀ a ∈ as, a.startsPass = false) (h : Steps OplogServer.step s as t) :
    ∃ new, s.Extends t new := by
  induction h with
  | nil s => exact ⟨[], .of_tables_eq rfl rfl rfl rfl rfl⟩
  | cons _ hs _ ih =>
    obtain ⟨ho', new, hE⟩ := ho.step (has _ List.mem_cons_self) hs
    obtain ⟨new', hE'⟩ := ih ho' fun a ha => has a (List.mem_cons_of_mem _ ha)
    exact ⟨new ++ new', hE.trans hE'⟩

/-- While no new pass begins, nothing fails after a pass has ended. -/
lemma not_fail_of_idle {s t : OplogServer} {as : List ServerAction} (hidle : s.pruning = .idle)
    (has : ∀ a ∈ as, a.startsPass = false) (h : Steps OplogServer.step s as t) :
    ServerAction.pruneFail ∉ as := by
  induction h with
  | nil s => exact List.not_mem_nil
  | @cons s s' t a as _ hs _ ih =>
    have hrest : ServerAction.pruneFail ∉ as := by
      refine ih ?_ fun a ha => has a (List.mem_cons_of_mem _ ha)
      cases a with
      | append conn call => obtain ⟨-, clock, row, -, rfl⟩ := step_append hs; exact hidle
      | commit conn => obtain ⟨pending, clock, -, rfl⟩ := step_commit hs; exact hidle
      | rollback conn => obtain ⟨-, rfl⟩ := step_rollback hs; exact hidle
      | pruneStart maxRows maxAge =>
        exact absurd (has _ List.mem_cons_self) (by simp [ServerAction.startsPass])
      | pruneStep now => simp [OplogServer.step, pruneStatement, hidle] at hs
      | pruneFail => simp [OplogServer.step, hidle] at hs
    refine fun hmem => (List.mem_cons.mp hmem).elim (fun hfail => ?_) hrest
    subst hfail
    simp [OplogServer.step, hidle] at hs

/-- A failing statement ends the part of the pass that could change the tables. -/
lemma over_of_fail {s s' : OplogServer} (h : s.step .pruneFail = some s') : s'.Over := by
  simp only [OplogServer.step] at h
  split at h
  · exact absurd h (by simp)
  · cases h
    show failedPhase s.pruning = .idle ∨ failedPhase s.pruning = .rollback
    cases s.pruning <;> simp [failedPhase]

/-- From a point within a pass at which the tables had only grown since `s`: if no row is
deleted by the end then the history row is unchanged, and if a statement fails then the tables
have only grown. -/
lemma pass_run {s x t : OplogServer} {as : List ServerAction} {new : List OplogRow} (hI : x.Inv)
    (hE : s.Extends x new) (has : ∀ a ∈ as, a.startsPass = false)
    (h : Steps OplogServer.step x as t) :
    (t.deleted = s.deleted → t.history = s.history) ∧
      (ServerAction.pruneFail ∈ as → ∃ new, s.Extends t new) := by
  induction as generalizing x new with
  | nil =>
    cases h
    exact ⟨fun _ => hE.history_eq, fun hfail => absurd hfail List.not_mem_nil⟩
  | cons a as ih =>
    cases h with
    | @cons _ x' _ _ _ _ hs hrest =>
      have has' : ∀ a ∈ as, a.startsPass = false := fun a ha => has a (List.mem_cons_of_mem _ ha)
      rcases step_effect hs with ⟨new', hE'⟩ | ⟨survivors, removed, history, hR⟩
      · by_cases hfail : a = .pruneFail
        · subst hfail
          obtain ⟨new'', hE''⟩ := (over_of_fail hs).run has' hrest
          have hall := (hE.trans hE').trans hE''
          exact ⟨fun _ => hall.history_eq, fun _ => ⟨_, hall⟩⟩
        · obtain ⟨hkeep, hrest'⟩ := ih (hI.step hs) (hE.trans hE') has' hrest
          refine ⟨hkeep, fun hmem => hrest' ?_⟩
          exact (List.mem_cons.mp hmem).resolve_left (Ne.symm hfail)
      · obtain ⟨new'', hE''⟩ := Over.run (Or.inl hR.idle) has' hrest
        have hphase := hI.phase
        rw [hR.pruning_eq] at hphase
        refine ⟨fun hdel => ?_, fun hmem => ?_⟩
        · rw [hE''.deleted_eq, hR.deleted_eq, hE.deleted_eq] at hdel
          have hnil : removed = [] := List.append_right_eq_self.mp hdel
          rw [hE''.history_eq, hR.history_eq, hphase.2.2.eq_of_nil hnil, hE.history_eq]
        · rcases List.mem_cons.mp hmem with rfl | hmem
          · have := hR.idle
            simp only [OplogServer.step, hR.pruning_eq] at hs
            cases hs
            simp [failedPhase] at this
          · exact absurd hmem (not_fail_of_idle hR.idle has' hrest)

/-- The actions of one whole pass, between whose statements other connections may act. -/
structure OnePass (s : OplogServer) (as : List ServerAction) (t : OplogServer) : Prop where
  /-- The first action begins the pass. -/
  starts : ∃ maxRows maxAge rest, as = .pruneStart maxRows maxAge :: rest ∧
    ∀ a ∈ rest, a.startsPass = false
  /-- The actions are a run. -/
  run : Steps OplogServer.step s as t
  /-- The pass has ended. -/
  ended : t.pruning = .idle

/-- A pass that deletes nothing leaves the history row alone, and a pass one of whose statements
fails leaves the tables alone. -/
lemma OnePass.spec {s t : OplogServer} {as : List ServerAction} (hI : s.Inv)
    (h : s.OnePass as t) :
    (t.deleted = s.deleted → t.history = s.history) ∧
      (ServerAction.pruneFail ∈ as → ∃ new, s.Extends t new) := by
  obtain ⟨maxRows, maxAge, rest, rfl, hrest⟩ := h.starts
  cases h.run with
  | @cons _ s' _ _ _ _ hs hrun =>
    have hE : s.Extends s' [] := by
      have hs' := hs
      simp only [OplogServer.step] at hs'
      split at hs'
      · cases hs'; exact .of_tables_eq rfl rfl rfl rfl rfl
      · exact absurd hs' (by simp)
    obtain ⟨hkeep, hfail⟩ := pass_run (hI.step hs) hE hrest hrun
    exact ⟨hkeep, fun hmem => hfail ((List.mem_cons.mp hmem).resolve_left (by simp))⟩

/-- **The pruning watermark is durable.**  Over every run of writers and pruning passes from an
oplog of any content: the watermark covers every row pruning deleted, in sequence and in stamp;
the last committed row is stored; the watermark does not go back; a pass that deletes nothing
leaves it unchanged; and a pass that fails leaves the rows and the watermark as they were, up
to what writers committed meanwhile. -/
theorem prune_watermark_durable {s₀ s : OplogServer} {as : List ServerAction}
    (hs₀ : s₀.Quiescent) (h : Steps OplogServer.step s₀ as s) :
    (∀ r ∈ s.deleted, r.seq ≤ s.history.prunedSeq ∧ r.ts ≤ s.history.prunedTs) ∧
    (∀ r ∈ s.committed, (∀ r' ∈ s.committed, r'.seq ≤ r.seq) → r ∈ s.rows ∧ r ∉ s.deleted) ∧
    (∀ bs t, Steps OplogServer.step s bs t →
      s.history.prunedSeq ≤ t.history.prunedSeq ∧ s.history.prunedTs ≤ t.history.prunedTs) ∧
    (∀ pass t, s.OnePass pass t → t.deleted = s.deleted → t.history = s.history) ∧
    (∀ pass t, s.OnePass pass t → ServerAction.pruneFail ∈ pass →
      t.deleted = s.deleted ∧ t.history = s.history ∧
        ∃ new, t.rows = s.rows ++ new ∧ t.committed = s.committed ++ new) := by
  have hI : s.Inv := hs₀.inv.run h
  refine ⟨hI.watermark, fun r hr hmax => ?_, fun bs t hrun => ?_, fun pass t hpass => ?_,
    fun pass t hpass hfail => ?_⟩
  · have hrow := hI.newest_kept r hr hmax
    exact ⟨hrow, fun hdel => (hI.gone r (Or.inl hdel)).2 hrow⟩
  · have hadv := hI.advances_run hrun
    exact ⟨hadv.prunedSeq_le, hadv.prunedTs_le⟩
  · exact (hpass.spec hI).1
  · obtain ⟨new, hE⟩ := (hpass.spec hI).2 hfail
    exact ⟨hE.deleted_eq, hE.history_eq, new, hE.rows_eq, hE.committed_eq⟩

/-- An oplog of two rows, stamped out of order. -/
def twoRows : OplogServer :=
  let rows := [⟨1, ⟨9, 1⟩, .i, "a.b".toList, .obj [], none⟩,
    ⟨4, ⟨7, 1⟩, .d, "a.b".toList, .obj [], none⟩]
  { rows := rows, clock := ⟨7, 1⟩, history := ⟨0, ⟨0, 0⟩, false, 0, ⟨0, 0⟩⟩, autoIncrement := 5,
    lock := .free, pruning := .idle, committed := rows, lost := [], deleted := [] }

/-- A pass that keeps one row, with a writer committing between its start and its first
statement. -/
def keepOne : List ServerAction :=
  [.pruneStart 1 0, .append 3 (plainAppend 9), .commit 3] ++ List.replicate 11 (.pruneStep 9)

/-- The watermark after that pass covers the two rows it deleted. -/
theorem prune_watermark_durable_keepOne :
    ∃ s, Steps OplogServer.step twoRows keepOne s ∧ s.deleted.map OplogRow.seq = [1, 4] ∧
      ∀ r ∈ s.deleted, r.seq ≤ s.history.prunedSeq ∧ r.ts ≤ s.history.prunedTs := by
  have hquiet : twoRows.Quiescent :=
    ⟨rfl, rfl, rfl, by simp [twoRows, Sequenced], by decide, by decide, rfl⟩
  obtain ⟨s, hs, hdeleted⟩ : ∃ s, runActions OplogServer.step twoRows keepOne = some s ∧
      s.deleted.map OplogRow.seq = [1, 4] := ⟨_, rfl, rfl⟩
  have hrun := steps_of_runActions hs
  exact ⟨s, hrun, hdeleted, (prune_watermark_durable hquiet hrun).1⟩

end OplogServer

end Chimera

import Chimera.Oplog.History

/-!
# The oplog before and after its history row

Until the history row is seeded, the oplog has writers and no pruner.  What they did is
`Unseeded`; when the oplog did not exist before, it is `FreshlyWritten`: a run of writers from an
oplog without rows.  Writers do not look at the history row, so a row that is seeded late may as
well have been there from the start (`FreshlyWritten.seededFrom`).  From then on the oplog is
`SeededFrom` a freshly installed one, in spite of crashes.
-/

namespace Chimera

open SequencedLog StepSystem

/-- The row that `INSERT IGNORE` puts into `oplog_history`. -/
def seededHistory (legacy : Bool) (rows : List OplogRow) : History :=
  let oldest := rows.head?
  { prunedSeq := 0
    prunedTs := ⟨0, 0⟩
    legacyBaseline := legacy && decide ((oldest.map OplogRow.seq).getD 0 > 1)
    baselineSeq := if legacy then (oldest.map fun r => r.seq - 1).getD 0 else 0
    baselineTs := if legacy then (oldest.map OplogRow.ts).getD ⟨0, 0⟩ else ⟨0, 0⟩ }

/-- An older oplog is refused when its clock says that rows are missing. -/
lemma installHistory_eq_ok {legacy : Bool} {clock : Stamp} {rows : List OplogRow}
    (h : legacy = true → clock = ⟨0, 0⟩ ∨ rows ≠ []) :
    installHistory legacy clock rows = .ok (seededHistory legacy rows) := by
  rw [installHistory]
  refine if_neg fun hmissing => ?_
  simp only [Bool.and_eq_true, Bool.or_eq_true, decide_eq_true_eq] at hmissing
  obtain ⟨⟨hlegacy, hclock⟩, hnone⟩ := hmissing
  rcases h hlegacy with rfl | hrows
  · simp at hclock
  · cases rows with
    | nil => exact hrows rfl
    | cons r rows => simp at hnone

/-- The pass may hold the clock row. -/
def PrunePhase.holdsClock : PrunePhase → Bool
  | .lockHistory _ | .verify _ | .delete _ | .publish _ _ _ | .commit _ _ _ | .rollback => true
  | _ => false

namespace OplogServer

/-! ## Before the history row -/

/-- An oplog with writers and no pruner. -/
structure Unseeded (s : OplogServer) : Prop where
  /-- The invariant of the oplog. -/
  inv : s.Inv
  /-- No pass is under way. -/
  idle : s.pruning = .idle
  /-- The pruner has not locked the clock row. -/
  unpruned : s.lock ≠ .pruner
  /-- Pruning has deleted nothing. -/
  deleted_eq : s.deleted = []
  /-- The committed rows are the lost ones and the stored ones. -/
  committed_eq : s.committed = s.lost ++ s.rows
  /-- Sequence numbers start at one. -/
  positive : 0 < s.autoIncrement ∧ ∀ r ∈ s.committed ++ s.lock.pending, 0 < r.seq

/-- An oplog that nobody has written to. -/
structure Fresh (s : OplogServer) : Prop where
  /-- Nobody is at work. -/
  quiescent : s.Quiescent
  /-- Sequence numbers start at one. -/
  positive : 0 < s.autoIncrement
  /-- There are no rows, and there were none. -/
  empty : s.lost = [] ∧ s.rows = []

/-- An oplog that writers have made out of one without rows. -/
def FreshlyWritten (s : OplogServer) : Prop :=
  ∃ s₀ as, s₀.Fresh ∧ (∀ a ∈ as, a.writer.isSome = true) ∧ Steps OplogServer.step s₀ as s

/-- An oplog that was freshly installed once. -/
def SeededFrom (s : OplogServer) : Prop :=
  ∃ s₀ as, s₀.Installed ∧ Steps OplogServer.step s₀ as s

/-- An oplog at rest. -/
lemma Quiescent.unseeded {s : OplogServer} (h : s.Quiescent)
    (hpos : 0 < s.autoIncrement ∧ ∀ r ∈ s.lost ++ s.rows, 0 < r.seq) : s.Unseeded := by
  refine ⟨h.inv, h.idle, ?_, h.deleted_eq, h.committed_eq, hpos.1, fun r hr => ?_⟩
  · simp [h.lock_free]
  · rw [h.lock_free, h.committed_eq] at hr
    exact hpos.2 r (by simpa [ClockLock.pending] using hr)

/-- Without writers the oplog is at rest. -/
lemma Unseeded.quiescent {s : OplogServer} (h : s.Unseeded) (hlock : s.lock = .free) :
    s.Quiescent := by
  have hseq := h.inv.sequenced
  have hfresh := h.inv.fresh
  rw [hlock, h.committed_eq] at hseq hfresh
  simp only [ClockLock.pending, List.append_nil] at hseq hfresh
  refine ⟨hlock, h.idle, h.committed_eq, hseq, hfresh, fun hlost hrows => ?_, h.deleted_eq⟩
  obtain ⟨r, hr⟩ := List.exists_mem_of_ne_nil _ hlost
  have hne : s.committed ≠ [] := List.ne_nil_of_mem (h.committed_eq ▸ List.mem_append_left _ hr)
  have hcommitted : Sequenced OplogRow.seq s.committed := by
    rw [h.committed_eq]
    exact hseq
  have hlast := h.inv.newest_kept _ (List.getLast_mem hne) fun r' hr' =>
    Sequenced.le_of_getLast? hcommitted (List.getLast?_eq_some_getLast hne) hr'
  rw [hrows] at hlast
  exact List.not_mem_nil hlast

/-- Writers keep an oplog without a history row what it is. -/
lemma Unseeded.writer {s s' : OplogServer} {a : ServerAction} (h : s.Unseeded)
    (ha : a.writer.isSome = true) (hst : s.step a = some s') : s'.Unseeded := by
  have hinv := h.inv.step hst
  cases a with
  | append conn call =>
    obtain ⟨-, clock, row, hseq, rfl⟩ := step_append hst
    refine ⟨hinv, h.idle, by simp, h.deleted_eq, h.committed_eq, Nat.succ_pos _, fun r hr => ?_⟩
    rcases List.mem_append.mp hr with hr | hr
    · exact h.positive.2 r (List.mem_append_left _ hr)
    · rcases List.mem_append.mp hr with hr | hr
      · exact h.positive.2 r (List.mem_append_right _ hr)
      · obtain rfl := List.mem_singleton.mp hr
        have := h.positive.1
        omega
  | commit conn =>
    obtain ⟨pending, clock, hlock, rfl⟩ := step_commit hst
    have hpos := h.positive.2
    rw [hlock] at hpos
    refine ⟨hinv, h.idle, by simp, h.deleted_eq, ?_, h.positive.1, fun r hr => hpos r ?_⟩
    · change s.committed ++ pending = s.lost ++ (s.rows ++ pending)
      rw [h.committed_eq, List.append_assoc]
    · simpa [ClockLock.pending] using hr
  | rollback conn =>
    obtain ⟨-, rfl⟩ := step_rollback hst
    refine ⟨hinv, h.idle, by simp, h.deleted_eq, h.committed_eq, h.positive.1, fun r hr => ?_⟩
    exact h.positive.2 r (List.mem_append_left _ (by simpa [ClockLock.pending] using hr))
  | pruneStart maxRows maxAge => cases ha
  | pruneStep now => cases ha
  | pruneFail => cases ha

/-- The clock row that is seeded says nothing about the rows. -/
lemma Unseeded.setClock {s : OplogServer} (h : s.Unseeded) (clock : Stamp) :
    ({ s with clock := clock } : OplogServer).Unseeded :=
  ⟨⟨h.inv.1, h.inv.2, h.inv.3, h.inv.4, h.inv.5, h.inv.6, h.inv.7, by
      change PhaseInv _ s.pruning
      rw [h.idle]
      trivial⟩,
    h.idle, h.unpruned, h.deleted_eq, h.committed_eq, h.positive⟩

/-- An oplog that nobody has written to is one without a history row. -/
lemma Fresh.unseeded {s : OplogServer} (h : s.Fresh) : s.Unseeded :=
  h.quiescent.unseeded ⟨h.positive, by simp [h.empty.1, h.empty.2]⟩

/-- The clock row that is seeded leaves such an oplog as it is. -/
lemma Fresh.setClock {s : OplogServer} (h : s.Fresh) (clock : Stamp) :
    ({ s with clock := clock } : OplogServer).Fresh :=
  ⟨⟨h.quiescent.1, h.quiescent.2, h.quiescent.3, h.quiescent.4, h.quiescent.5, h.quiescent.6,
    h.quiescent.7⟩, h.positive, h.empty⟩

/-- It is written by nobody. -/
lemma Fresh.freshlyWritten {s : OplogServer} (h : s.Fresh) : s.FreshlyWritten :=
  ⟨s, [], h, fun _ ha => absurd ha List.not_mem_nil, .nil s⟩

/-- Another writer may write. -/
lemma FreshlyWritten.writer {s s' : OplogServer} {a : ServerAction} (h : s.FreshlyWritten)
    (ha : a.writer.isSome = true) (hst : s.step a = some s') : s'.FreshlyWritten := by
  obtain ⟨s₀, as, hs₀, has, hrun⟩ := h
  refine ⟨s₀, as ++ [a], hs₀, fun b hb => ?_, hrun.append (.single trivial hst)⟩
  rcases List.mem_append.mp hb with hb | hb
  · exact has b hb
  · obtain rfl := List.mem_singleton.mp hb
    exact ha

/-! ## From the history row on -/

/-- A writer does the same whatever the history row says. -/
lemma step_setHistory {s s' : OplogServer} {a : ServerAction} (ha : a.writer.isSome = true)
    (hst : s.step a = some s') (history : History) :
    ({ s with history := history } : OplogServer).step a =
      some { s' with history := history } := by
  cases a with
  | append conn call =>
    cases hlock : s.lock with
    | free =>
      simp only [step, hlock, Option.map_eq_some_iff, Prod.exists] at hst ⊢
      obtain ⟨clock, row, happend, rfl⟩ := hst
      exact ⟨clock, row, happend, rfl⟩
    | writer owner pending clock₀ =>
      simp only [step, hlock] at hst ⊢
      split at hst
      · next howner =>
        rw [if_pos howner]
        simp only [Option.map_eq_some_iff, Prod.exists] at hst ⊢
        obtain ⟨clock, row, happend, rfl⟩ := hst
        exact ⟨clock, row, happend, rfl⟩
      · cases hst
    | pruner =>
      simp only [step, hlock] at hst
      cases hst
  | commit conn =>
    obtain ⟨pending, clock, hlock, rfl⟩ := step_commit hst
    simp only [step, hlock] at hst ⊢
    split at hst
    · next howner => rw [if_pos howner]
    · cases hst
  | rollback conn =>
    cases hlock : s.lock with
    | free =>
      simp only [step, hlock] at hst
      cases hst
    | writer owner pending clock₀ =>
      simp only [step, hlock] at hst ⊢
      split at hst
      · next howner =>
        rw [if_pos howner]
        obtain rfl := Option.some.inj hst
        rfl
      · cases hst
    | pruner =>
      simp only [step, hlock] at hst
      cases hst
  | pruneStart maxRows maxAge => cases ha
  | pruneStep now => cases ha
  | pruneFail => cases ha

/-- A run of writers is the same whatever the history row says. -/
lemma steps_setHistory {s s' : OplogServer} {as : List ServerAction}
    (has : ∀ a ∈ as, a.writer.isSome = true) (hrun : Steps OplogServer.step s as s')
    (history : History) :
    Steps OplogServer.step { s with history := history } as { s' with history := history } := by
  induction hrun with
  | nil s => exact .nil _
  | @cons s s' t a as _ hst _ ih =>
    exact .cons trivial (step_setHistory (has a List.mem_cons_self) hst history)
      (ih fun b hb => has b (List.mem_cons_of_mem _ hb))

/-- Where writers started without rows, a history row without a baseline may be seeded late. -/
lemma FreshlyWritten.seededFrom {s : OplogServer} (h : s.FreshlyWritten) :
    ({ s with history := seededHistory false s.rows } : OplogServer).SeededFrom := by
  obtain ⟨s₀, as, hs₀, has, hrun⟩ := h
  refine ⟨{ s₀ with history := seededHistory false s₀.rows }, as, ?_, steps_setHistory has hrun _⟩
  refine ⟨⟨hs₀.quiescent.1, hs₀.quiescent.2, hs₀.quiescent.3, hs₀.quiescent.4, hs₀.quiescent.5,
    hs₀.quiescent.6, hs₀.quiescent.7⟩, ⟨hs₀.positive, ?_⟩, false, ?_, fun _ => hs₀.empty⟩
  · simp [hs₀.empty.1, hs₀.empty.2]
  · exact installHistory_eq_ok fun hlegacy => by cases hlegacy

/-- Where no writer is at work, the history row of an older oplog may be seeded. -/
lemma Unseeded.seededFrom {s : OplogServer} (h : s.Unseeded) (hlock : s.lock = .free)
    (hrows : s.clock = ⟨0, 0⟩ ∨ s.rows ≠ []) :
    ({ s with history := seededHistory true s.rows } : OplogServer).SeededFrom := by
  have hq := h.quiescent hlock
  have hpos := h.positive.2
  rw [hlock, h.committed_eq] at hpos
  have hinstalled :
      ({ s with history := seededHistory true s.rows } : OplogServer).Installed := by
    refine ⟨⟨hq.1, hq.2, hq.3, hq.4, hq.5, hq.6, hq.7⟩, ⟨h.positive.1, fun r hr => ?_⟩, true,
      installHistory_eq_ok fun _ => hrows, fun hfalse => by cases hfalse⟩
    exact hpos r (by simpa [ClockLock.pending] using hr)
  exact ⟨_, [], hinstalled, .nil _⟩

/-- It goes on as the oplog does. -/
lemma SeededFrom.step {s s' : OplogServer} {a : ServerAction} (h : s.SeededFrom)
    (hst : s.step a = some s') : s'.SeededFrom := by
  obtain ⟨s₀, as, hs₀, hrun⟩ := h
  exact ⟨s₀, as ++ [a], hs₀, hrun.append (.single trivial hst)⟩

/-- The invariant of the oplog holds. -/
lemma SeededFrom.inv {s : OplogServer} (h : s.SeededFrom) : s.Inv := by
  obtain ⟨s₀, as, hs₀, hrun⟩ := h
  exact (hs₀.reachable hrun).1

/-- Only a pass that is in its transaction holds the clock row. -/
def PassHolds (s : OplogServer) : Prop := s.lock = .pruner → s.pruning.holdsClock = true

/-- Every action keeps it so. -/
lemma PassHolds.step {s s' : OplogServer} {a : ServerAction} (h : s.PassHolds)
    (hst : s.step a = some s') : s'.PassHolds := by
  intro hlock
  cases a with
  | append conn call =>
    obtain ⟨-, clock, row, -, rfl⟩ := step_append hst
    cases hlock
  | commit conn =>
    obtain ⟨pending, clock, -, rfl⟩ := step_commit hst
    cases hlock
  | rollback conn =>
    obtain ⟨-, rfl⟩ := step_rollback hst
    cases hlock
  | pruneStart maxRows maxAge =>
    simp only [OplogServer.step] at hst
    split at hst
    · next hidle =>
      obtain rfl := Option.some.inj hst
      have hpass := h hlock
      rw [hidle.1] at hpass
      cases hpass
    · cases hst
  | pruneStep now =>
    simp only [OplogServer.step] at hst
    have hpass := h
    unfold PassHolds at hpass
    cases hp : s.pruning with
    | lockClock plan =>
      simp only [pruneStatement, hp] at hst
      split at hst
      · obtain rfl := Option.some.inj hst
        rfl
      · cases hst
    | rollback =>
      simp only [pruneStatement, hp, Option.some.injEq] at hst
      subst hst
      by_cases hpruner : s.lock = .pruner
      · simp [hpruner] at hlock
      · exact absurd hlock (by simp [hpruner])
    | verify plan =>
      simp only [pruneStatement, hp, Option.some.injEq] at hst
      subst hst
      dsimp only
      split <;> rfl
    | delete plan =>
      simp only [pruneStatement, hp, Option.some.injEq] at hst
      subst hst
      dsimp only
      split <;> rfl
    | lockHistory plan | publish plan survivors removed =>
      simp only [pruneStatement, hp, Option.some.injEq] at hst
      subst hst
      rfl
    | commit survivors removed history =>
      simp only [pruneStatement, hp, Option.some.injEq] at hst
      subst hst
      cases hlock
    | idle => simp [pruneStatement, hp] at hst
    | head _ _ | age _ _ _ | cut _ _ _ | newest _ | timestamp _ _ | begin _ =>
      simp only [pruneStatement, hp, Option.some.injEq] at hst
      subst hst
      rw [hp] at hpass
      cases hpass hlock
  | pruneFail =>
    simp only [OplogServer.step] at hst
    split at hst
    · cases hst
    · obtain rfl := Option.some.inj hst
      have hpass : s.pruning.holdsClock = true := h hlock
      dsimp only
      cases hp : s.pruning <;> rw [hp] at hpass <;> first | rfl | cases hpass

/-- A freshly installed oplog has no pass. -/
lemma SeededFrom.passHolds {s : OplogServer} (h : s.SeededFrom) : s.PassHolds := by
  obtain ⟨s₀, as, hs₀, hrun⟩ := h
  refine hrun.invariant (fun _ _ _ h _ hst => h.step hst) fun hlock => ?_
  rw [hs₀.quiescent.lock_free] at hlock
  cases hlock

/-! ## Crashes -/

/-- Without a pass, what a crash does a rollback does. -/
lemma crash_eq_rollback {s : OplogServer} (hlock : s.lock ≠ .pruner) :
    ({ s with lock := .free } : OplogServer) = s ∨
      ∃ conn, s.step (.rollback conn) = some { s with lock := .free } := by
  cases hs : s.lock with
  | free =>
    left
    rw [← hs]
  | writer owner pending clock =>
    refine .inr ⟨owner, ?_⟩
    simp [step, hs]
  | pruner => exact absurd hs hlock

/-- A crash keeps an oplog without a history row what it is. -/
lemma Unseeded.crash {s : OplogServer} (h : s.Unseeded) :
    ({ s with lock := .free, pruning := .idle } : OplogServer).Unseeded := by
  have heq : ({ s with lock := .free, pruning := .idle } : OplogServer) =
      { s with lock := .free } := by rw [← h.idle]
  rw [heq]
  rcases crash_eq_rollback h.unpruned with hsame | ⟨conn, hst⟩
  · rwa [hsame]
  · exact h.writer rfl hst

/-- A failure is rolled back where the pass may hold the clock row. -/
lemma failedPhase_cases (phase : PrunePhase) :
    failedPhase phase = .rollback ∨ failedPhase phase = .idle ∧ phase.holdsClock = false := by
  cases phase <;> simp [failedPhase, PrunePhase.holdsClock]

/-- A failure ends the pass, and frees the clock row where the pass holds it. -/
lemma SeededFrom.endPass {s : OplogServer} (h : s.SeededFrom) :
    ∃ t : OplogServer, t.SeededFrom ∧ t.lock ≠ .pruner ∧
      ({ t with lock := .free } : OplogServer) = { s with lock := .free, pruning := .idle } := by
  have hpass := h.passHolds
  by_cases hidle : s.pruning = .idle
  · refine ⟨s, h, fun hlock => ?_, by rw [← hidle]⟩
    have hwithin := hpass hlock
    rw [hidle] at hwithin
    cases hwithin
  · have hfail : s.step .pruneFail = some { s with pruning := failedPhase s.pruning } :=
      if_neg hidle
    have hfailed := h.step hfail
    rcases failedPhase_cases s.pruning with heq | ⟨heq, hwithin⟩
    · rw [heq] at hfailed
      refine ⟨_, hfailed.step (a := .pruneStep 0) rfl, ?_, rfl⟩
      by_cases hlock : s.lock = .pruner
      · simp [hlock]
      · simp [hlock]
    · rw [heq] at hfailed
      exact ⟨_, hfailed, fun hlock => by simp [hpass hlock] at hwithin, rfl⟩

/-- A crash is a failure of the pass and a rollback. -/
lemma SeededFrom.crash {s : OplogServer} (h : s.SeededFrom) :
    ({ s with lock := .free, pruning := .idle } : OplogServer).SeededFrom := by
  obtain ⟨t, ht, hlock, heq⟩ := h.endPass
  rw [← heq]
  rcases crash_eq_rollback hlock with hsame | ⟨conn, hst⟩
  · rwa [hsame]
  · exact ht.step hst

end OplogServer

end Chimera

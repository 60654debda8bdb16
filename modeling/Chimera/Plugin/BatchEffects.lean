import Chimera.Plugin.Batches
import Mathlib.Algebra.GroupWithZero.Nat

/-!
# What a batch does

Each element of a batch is a transaction of its own.  Whichever of its statements fails, a failing
element leaves the documents and the oplog as they were, and an element that does not fail has all
of its effect.  An ordered batch ends with its first failing element; an unordered one goes on.  The
reply counts what the other elements did, and lists the errors of the failing ones.
-/

namespace Chimera

open Interaction

/-! ## A server with transactions -/

/-- The data that the elements of a batch work on, as one: a trigger appends to the oplog within the
statement that fires it. -/
structure StoredData where
  /-- The rows of the collections. -/
  documents : List Row
  /-- The rows of the oplog. -/
  oplog : List OplogRow
deriving DecidableEq

/-- The session of a connection. -/
structure ServerSession where
  /-- What is committed. -/
  committed : StoredData
  /-- What the transaction under way has made of it. -/
  working : Option StoredData
  /-- How many questions have been asked. -/
  asked : ℕ

/-- What the statements of the session work on. -/
def ServerSession.current (s : ServerSession) : StoredData := s.working.getD s.committed

/-- The session after a statement that makes this of the tables.  Outside a transaction it is
committed at once. -/
def ServerSession.put (s : ServerSession) (tables : StoredData) : ServerSession :=
  match s.working with
  | some _ => { s with working := some tables, asked := s.asked + 1 }
  | none => { s with committed := tables, asked := s.asked + 1 }

/-- MariaDB, as one connection meets it. -/
structure Engine where
  /-- What a statement on a collection does, together with its triggers. -/
  perform : Handler TranslatorError Request Request.Answer StoredData
  /-- The clock row. -/
  clock : StoredData → Option Stamp
  /-- The error that a question fails with, if it fails. -/
  fault : ℕ → Option TranslatorError
  /-- What a statement that fails leaves in its transaction, of which the server may have undone
  the statement or everything. -/
  debris : ℕ → StoredData → StoredData
  /-- Whatever else the plugin asks. -/
  other : (q : Question) → ServerSession → q.Answer × ServerSession

/-- The server.  `START TRANSACTION` commits a transaction that is still open; a `COMMIT` that fails
aborts the transaction; and a `ROLLBACK` ends it also when it reports an error. -/
def Engine.server (E : Engine) : WireServer ServerSession
  | .sql .connection .startTransaction, s =>
    match E.fault s.asked with
    | some e => (.error e, { s with asked := s.asked + 1 })
    | none => (.ok (), ⟨s.current, some s.current, s.asked + 1⟩)
  | .sql .connection .commit, s =>
    match E.fault s.asked with
    | some e => (.error e, ⟨s.committed, none, s.asked + 1⟩)
    | none => (.ok (), ⟨s.current, none, s.asked + 1⟩)
  | .sql .connection .rollback, s =>
    match E.fault s.asked with
    | some e => (.error e, ⟨s.committed, none, s.asked + 1⟩)
    | none => (.ok (), ⟨s.committed, none, s.asked + 1⟩)
  | .sql .connection (.table q), s =>
    match E.fault s.asked with
    | some e => (.error e, s.put (E.debris s.asked s.current))
    | none =>
      match E.perform q s.current with
      | .ok (answer, tables) => (.ok answer, s.put tables)
      | .error e => (.error e, { s with asked := s.asked + 1 })
  | .sql .connection .clock, s =>
    match E.fault s.asked with
    | some e => (.error e, s.put (E.debris s.asked s.current))
    | none => (.ok (E.clock s.current), { s with asked := s.asked + 1 })
  | q, s => E.other q s

/-- One of the questions from the `m`-th up to the `n`-th fails. -/
def Engine.Faults (E : Engine) (m n : ℕ) : Prop := ∃ k, m ≤ k ∧ k < n ∧ E.fault k ≠ none

variable {E : Engine} {L : Libbson} {ns : Namespace} {s t u : ServerSession}

/-- The questions in two stretches. -/
lemma Engine.Faults.mono {m n m' n' : ℕ} (h : E.Faults m n) (hm : m' ≤ m) (hn : n ≤ n') :
    E.Faults m' n' := by
  obtain ⟨k, hk, hk', hfault⟩ := h
  exact ⟨k, hm.trans hk, hk'.trans_le hn, hfault⟩

/-- Two stretches without a fault are one. -/
lemma Engine.faults_append {m n k : ℕ} (h : ¬ E.Faults m n) (h' : ¬ E.Faults n k) :
    ¬ E.Faults m k := by
  rintro ⟨i, hm, hk, hfault⟩
  rcases lt_or_ge i n with hlt | hge
  · exact h ⟨i, hm, hlt, hfault⟩
  · exact h' ⟨i, hge, hk, hfault⟩

/-! ## One element -/

/-- What an element of a batch makes of the session: it is malformed, and asks nothing; or none of
its questions fails and its statements succeed, and all that they do is committed; or it fails, and
the tables are as before. -/
inductive Takes (E : Engine) (L : Libbson) (ns : Namespace) :
    Except TranslatorError WriteCommand → ServerSession → Except TranslatorError WriteOutcome →
      ServerSession → Prop
  /-- The entry cannot be read. -/
  | malformed {e : TranslatorError} {s : ServerSession} : Takes E L ns (.error e) s (.error e) s
  /-- The element takes effect. -/
  | effect {c : WriteCommand} {s t : ServerSession} {outcome : WriteOutcome}
      (hfaults : ¬ E.Faults s.asked t.asked)
      (hbody : (c.body L ns).run E.perform s.current = .ok (outcome, t.committed))
      (hdone : t.working = none) : Takes E L ns (.ok c) s (.ok outcome) t
  /-- The element fails. -/
  | aborts {c : WriteCommand} {s t : ServerSession} {e : TranslatorError}
      (hcause : E.Faults s.asked t.asked ∨ ∃ e', (c.body L ns).run E.perform s.current = .error e')
      (hsame : t.current = s.current) : Takes E L ns (.ok c) s (.error e) t

/-- How a program that was answered from the `m`-th question up to the `n`-th has ended: as it runs
by itself, or with an error that has a cause. -/
def Served {α : Type} (E : Engine) (m n : ℕ) (ran : Except TranslatorError (α × StoredData))
    (tables : StoredData) : Except TranslatorError α → Prop
  | .ok a => ¬ E.Faults m n ∧ ran = .ok (a, tables)
  | .error _ => E.Faults m n ∨ ∃ e, ran = .error e

/-- No question fails before the next one is asked. -/
lemma Engine.not_faults_self (m : ℕ) : ¬ E.Faults m m := by
  rintro ⟨k, hk, hk', -⟩
  omega

/-- A question that fails. -/
lemma Engine.faults_of_some {m n k : ℕ} {e : TranslatorError} (h : E.fault k = some e) (hm : m ≤ k)
    (hn : k < n) : E.Faults m n :=
  ⟨k, hm, hn, by simp [h]⟩

/-- A question that does not fail. -/
lemma Engine.not_faults_of_none {m : ℕ} (h : E.fault m = none) : ¬ E.Faults m (m + 1) := by
  rintro ⟨k, hk, hk', hfault⟩
  obtain rfl : k = m := by omega
  exact hfault h

/-- The operations on a collection, within a transaction. -/
lemma serve_onCollection {α : Type} (x : SqlProgram α) (base tables : StoredData) (m : ℕ) :
    ∃ result tables' n, (onCollection x).serve E.server ⟨base, some tables, m⟩ =
      (result, ⟨base, some tables', n⟩) ∧ m ≤ n ∧
        Served E m n (x.run E.perform tables) tables' result := by
  induction x generalizing tables m with
  | done a => exact ⟨.ok a, tables, m, rfl, le_rfl, E.not_faults_self m, rfl⟩
  | fail e => exact ⟨.error e, tables, m, rfl, le_rfl, .inr ⟨e, rfl⟩⟩
  | ask q next ih =>
    have hserve : (onCollection (.ask q next)).serve E.server ⟨base, some tables, m⟩ =
        ((sql (.table q)) >>= fun r => onCollection (next r)).serve E.server
          ⟨base, some tables, m⟩ := rfl
    rw [hserve, serve_bind]
    cases hfault : E.fault m with
    | some e =>
      have hsql : (sql (.table q)).serve E.server ⟨base, some tables, m⟩ =
          (.error e, ⟨base, some (E.debris m tables), m + 1⟩) := by
        simp [sql, statement, serve, Engine.server, hfault, ServerSession.put,
          ServerSession.current]
      rw [hsql]
      exact ⟨.error e, _, m + 1, rfl, Nat.le_succ m,
        .inl (E.faults_of_some hfault le_rfl (Nat.lt_succ_self m))⟩
    | none =>
      rw [run_ask]
      cases hq : E.perform q tables with
      | error e =>
        have hsql : (sql (.table q)).serve E.server ⟨base, some tables, m⟩ =
            (.error e, ⟨base, some tables, m + 1⟩) := by
          simp [sql, statement, serve, Engine.server, hfault, hq, ServerSession.current]
        rw [hsql]
        exact ⟨.error e, _, m + 1, rfl, Nat.le_succ m, .inr ⟨e, rfl⟩⟩
      | ok answer =>
        have hsql : (sql (.table q)).serve E.server ⟨base, some tables, m⟩ =
            (.ok answer.1, ⟨base, some answer.2, m + 1⟩) := by
          simp [sql, statement, serve, Engine.server, hfault, hq, ServerSession.current,
            ServerSession.put]
        rw [hsql]
        obtain ⟨result, tables', n, hrest, hle, hserved⟩ := @ih answer.1 answer.2 (m + 1)
        refine ⟨result, tables', n, hrest, (Nat.le_succ m).trans hle, ?_⟩
        cases result with
        | ok a =>
          exact ⟨E.faults_append (E.not_faults_of_none hfault) hserved.1, hserved.2⟩
        | error e => exact hserved.imp_left fun h => h.mono (Nat.le_succ m) le_rfl

/-- After an error a `ROLLBACK` ends the transaction, whatever it reports. -/
lemma serve_rollback (base : StoredData) (working : Option StoredData) (m : ℕ) :
    ∃ result, (sql .rollback).serve E.server ⟨base, working, m⟩ =
      (result, ⟨base, none, m + 1⟩) := by
  cases hfault : E.fault m with
  | some e => exact ⟨.error e, by simp [sql, statement, serve, Engine.server, hfault]⟩
  | none => exact ⟨.ok (), by simp [sql, statement, serve, Engine.server, hfault]⟩

/-- Reading the clock changes nothing, unless it fails. -/
lemma serve_clock (base tables : StoredData) (m : ℕ) :
    ∃ result tables', currentOperationTime.serve E.server ⟨base, some tables, m⟩ =
      (result, ⟨base, some tables', m + 1⟩) ∧
        match result with
        | .ok _ => E.fault m = none ∧ tables' = tables
        | .error _ => ∃ e, E.fault m = some e := by
  cases hfault : E.fault m with
  | some e =>
    refine ⟨.error e, E.debris m tables, ?_, e, rfl⟩
    simp [currentOperationTime, sql, statement, serve_bind, serve, Engine.server, hfault,
      ServerSession.put, ServerSession.current]
  | none =>
    refine ⟨.ok ((E.clock tables).getD ⟨0, 0⟩), tables, ?_, rfl, rfl⟩
    cases hclock : E.clock tables with
    | none =>
      simp [currentOperationTime, sql, statement, serve_bind, serve, Engine.server, hfault,
        ServerSession.current, hclock]
    | some now =>
      simp [currentOperationTime, sql, statement, serve_bind, serve, Engine.server, hfault,
        ServerSession.current, hclock]

/-- The part of a transaction between `START TRANSACTION` and its end. -/
lemma serve_body {α : Type} (x : SqlProgram α) (base tables : StoredData) (m : ℕ) :
    ∃ result tables' n, (do return (← onCollection x, ← currentOperationTime) :
        WireProgram (α × Stamp)).serve E.server ⟨base, some tables, m⟩ =
      (result, ⟨base, some tables', n⟩) ∧ m ≤ n ∧
        match result with
        | .ok (a, _) => ¬ E.Faults m n ∧ x.run E.perform tables = .ok (a, tables')
        | .error _ => E.Faults m n ∨ ∃ e, x.run E.perform tables = .error e := by
  obtain ⟨result, tables', n, hserve, hle, hserved⟩ :=
    serve_onCollection (E := E) x base tables m
  have hbody : (onCollection x >>= fun a => currentOperationTime >>= fun now =>
      (pure (a, now) : WireProgram (α × Stamp))).serve E.server ⟨base, some tables, m⟩ = _ :=
    serve_bind _ _
  rw [hserve] at hbody
  cases result with
  | error e => exact ⟨.error e, tables', n, hbody, hle, hserved⟩
  | ok a =>
    obtain ⟨read, tables'', hclock, hread⟩ :=
      serve_clock (E := E) base tables' n
    have hrest : (currentOperationTime >>= fun now =>
        (pure (a, now) : WireProgram (α × Stamp))).serve E.server ⟨base, some tables', n⟩ = _ :=
      serve_bind _ _
    rw [hclock] at hrest
    cases read with
    | error e =>
      obtain ⟨e', hfault⟩ := hread
      exact ⟨.error e, tables'', n + 1, hbody.trans hrest, hle.trans (Nat.le_succ n),
        .inl (E.faults_of_some hfault hle (Nat.lt_succ_self n))⟩
    | ok now =>
      obtain ⟨hfaults, hrun⟩ := hserved
      obtain ⟨hfault, rfl⟩ := hread
      exact ⟨.ok (a, now), tables'', n + 1, hbody.trans hrest, hle.trans (Nat.le_succ n),
        E.faults_append hfaults (E.not_faults_of_none hfault), hrun⟩

/-- **One element.**  It takes effect as a whole, or not at all. -/
theorem serve_element (ns : Namespace) (c : WriteCommand) (s : ServerSession)
    (stamp : Option Stamp) :
    ∃ result stamp' t, (runAtomically (onCollection (c.body L ns)) stamp).serve E.server s =
        (.ok (result, stamp'), t) ∧ Takes E L ns (.ok c) s result t ∧
      ((stamp ≠ none ∨ ∃ outcome, result = .ok outcome) → stamp' ≠ none) := by
  unfold runAtomically
  simp only [serve_attempt_bind]
  cases hbegin : E.fault s.asked with
  | some e =>
    have hsql : (sql .startTransaction).serve E.server s =
        (.error e, { s with asked := s.asked + 1 }) := by
      simp [sql, statement, serve, Engine.server, hbegin]
    rw [hsql]
    refine ⟨.error e, stamp, _, rfl, .aborts (.inl ?_) rfl, fun h => h.resolve_right nofun⟩
    exact E.faults_of_some hbegin le_rfl (Nat.lt_succ_self _)
  | none =>
    have hsql : (sql .startTransaction).serve E.server s =
        (.ok (), ⟨s.current, some s.current, s.asked + 1⟩) := by
      simp [sql, statement, serve, Engine.server, hbegin]
    rw [hsql]
    obtain ⟨result, tables, n, hserve, hle, hserved⟩ := serve_body (E := E) (c.body L ns)
      s.current s.current (s.asked + 1)
    simp only [serve_attempt_bind]
    rw [hserve]
    have hasked : s.asked ≤ n := (Nat.le_succ _).trans hle
    match result with
    | .error e =>
      obtain ⟨ended, hrollback⟩ := serve_rollback (E := E) s.current (some tables) n
      simp only [serve_attempt_bind]
      rw [hrollback]
      have htakes : ∀ e', Takes E L ns (.ok c) s (.error e') ⟨s.current, none, n + 1⟩ := fun _ =>
        .aborts (hserved.imp_left fun h => h.mono (Nat.le_succ _) (Nat.le_succ n)) rfl
      cases ended with
      | ok _ => exact ⟨.error e, stamp, _, rfl, htakes e, fun h => h.resolve_right nofun⟩
      | error e' => exact ⟨.error e', stamp, _, rfl, htakes e', fun h => h.resolve_right nofun⟩
    | .ok (a, now) =>
      obtain ⟨hfaults, hrun⟩ := hserved
      simp only [serve_attempt_bind]
      cases hcommit : E.fault n with
      | some e =>
        have hsql : (sql .commit).serve E.server ⟨s.current, some tables, n⟩ =
            (.error e, ⟨s.current, none, n + 1⟩) := by
          simp [sql, statement, serve, Engine.server, hcommit]
        rw [hsql]
        refine ⟨.error e, some now, _, rfl, .aborts (.inl ?_) rfl, fun _ => nofun⟩
        exact E.faults_of_some hcommit hasked (Nat.lt_succ_self n)
      | none =>
        have hsql : (sql .commit).serve E.server ⟨s.current, some tables, n⟩ =
            (.ok (), ⟨tables, none, n + 1⟩) := by
          simp [sql, statement, serve, Engine.server, hcommit, ServerSession.current]
        rw [hsql]
        have hnone : ¬ E.Faults s.asked (n + 1) :=
          E.faults_append (E.not_faults_of_none hbegin)
            (E.faults_append hfaults (E.not_faults_of_none hcommit))
        exact ⟨.ok a, some now, _, rfl, .effect hnone hrun rfl, fun _ => nofun⟩

/-! ## The elements of a batch -/

/-- Elements that are attempted one after the other, and their results. -/
inductive Attempts (E : Engine) (L : Libbson) (ns : Namespace) :
    List (ℕ × Except TranslatorError WriteCommand) → ServerSession →
      List (ℕ × Except TranslatorError WriteOutcome) → ServerSession → Prop
  /-- No element. -/
  | nil (s : ServerSession) : Attempts E L ns [] s [] s
  /-- One more element. -/
  | cons {i : ℕ} {element : Except TranslatorError WriteCommand}
      {elements : List (ℕ × Except TranslatorError WriteCommand)} {s t u : ServerSession}
      {result : Except TranslatorError WriteOutcome}
      {results : List (ℕ × Except TranslatorError WriteOutcome)}
      (htakes : Takes E L ns element s result t) (hrest : Attempts E L ns elements t results u) :
      Attempts E L ns ((i, element) :: elements) s ((i, result) :: results) u

/-- The elements that took effect. -/
def succeeded : List (ℕ × Except TranslatorError WriteOutcome) → List (ℕ × WriteOutcome)
  | [] => []
  | (i, .ok outcome) :: results => (i, outcome) :: succeeded results
  | (_, .error _) :: results => succeeded results

/-- The elements that failed. -/
def failed : List (ℕ × Except TranslatorError WriteOutcome) → List (ℕ × TranslatorError)
  | [] => []
  | (_, .ok _) :: results => failed results
  | (i, .error e) :: results => (i, e) :: failed results

/-- How far a batch goes. -/
inductive Reaches (ordered : Bool) (elements : List (ℕ × Except TranslatorError WriteCommand)) :
    List (ℕ × Except TranslatorError WriteOutcome) → Prop
  /-- All elements are attempted; when they are ordered, none of them fails. -/
  | all {results : List (ℕ × Except TranslatorError WriteOutcome)}
      (hlength : results.length = elements.length) (hnone : ordered = true → failed results = []) :
      Reaches ordered elements results
  /-- Ordered elements are attempted up to the first one that fails. -/
  | stops {results : List (ℕ × Except TranslatorError WriteOutcome)} {i : ℕ} {e : TranslatorError}
      (hordered : ordered = true) (hnone : failed results = []) :
      Reaches ordered elements (results ++ [(i, .error e)])

variable {ordered : Bool} {elements : List (ℕ × Except TranslatorError WriteCommand)}
  {results : List (ℕ × Except TranslatorError WriteOutcome)} {i : ℕ}

/-- One more element before, which does not end the batch. -/
lemma Reaches.cons {element : Except TranslatorError WriteCommand}
    {result : Except TranslatorError WriteOutcome} (h : Reaches ordered elements results)
    (hresult : ordered = true → ∃ outcome, result = .ok outcome) :
    Reaches ordered ((i, element) :: elements) ((i, result) :: results) := by
  cases h with
  | all hlength hnone =>
    refine .all (congrArg (· + 1) hlength) fun hordered => ?_
    obtain ⟨outcome, rfl⟩ := hresult hordered
    exact hnone hordered
  | stops hordered hnone =>
    obtain ⟨outcome, rfl⟩ := hresult hordered
    exact @Reaches.stops _ _ ((i, .ok outcome) :: _) _ _ hordered hnone

/-- **A batch.**  It attempts its elements as far as it goes, and notes which of them took effect
and which failed. -/
theorem serve_batch (ns : Namespace) (ordered : Bool)
    (elements : List (ℕ × Except TranslatorError WriteCommand))
    (b : Batch) (s : ServerSession) :
    ∃ results b' t, (runBatch L ns ordered elements b).serve E.server s = (.ok b', t) ∧
      Attempts E L ns (elements.take results.length) s results t ∧
      Reaches ordered elements results ∧ b'.outcomes = b.outcomes ++ succeeded results ∧
      b'.errors = b.errors ++ failed results ∧
      ((b.stamp ≠ none ∨ succeeded results ≠ []) → b'.stamp ≠ none) := by
  induction elements generalizing b s with
  | nil =>
    exact ⟨[], b, s, rfl, .nil s, .all rfl fun _ => rfl, (List.append_nil _).symm,
      (List.append_nil _).symm, fun h => h.resolve_right fun hne => hne rfl⟩
  | cons element elements ih =>
    obtain ⟨i, e | c⟩ := element
    · cases ordered with
      | true =>
        exact ⟨[(i, .error e)], b.failed i e, s, rfl, .cons .malformed (.nil s),
          @Reaches.stops _ _ [] _ _ rfl rfl, (List.append_nil _).symm, rfl,
          fun h => h.resolve_right fun hne => hne rfl⟩
      | false =>
        obtain ⟨results, b', t, hserve, hattempts, hreaches, houtcomes, herrors, hstamp⟩ :=
          ih (b.failed i e) s
        refine ⟨(i, .error e) :: results, b', t, hserve, .cons .malformed hattempts,
          hreaches.cons nofun, houtcomes, ?_, hstamp⟩
        rw [herrors]
        exact List.append_assoc _ _ _
    · obtain ⟨result, stamp, t, helement, htakes, hcaptured⟩ :=
        serve_element (E := E) (L := L) ns c s b.stamp
      cases result with
      | ok outcome =>
        rw [serve_runBatch_ok ordered i elements helement]
        obtain ⟨results, b', u, hserve, hattempts, hreaches, houtcomes, herrors, hstamp⟩ :=
          ih { b with outcomes := b.outcomes ++ [(i, outcome)], stamp := stamp } t
        refine ⟨(i, .ok outcome) :: results, b', u, hserve, .cons htakes hattempts,
          hreaches.cons fun _ => ⟨outcome, rfl⟩, ?_, herrors, fun _ => ?_⟩
        · rw [houtcomes]
          exact List.append_assoc _ _ _
        · exact hstamp (.inl (hcaptured (.inr ⟨outcome, rfl⟩)))
      | error e =>
        rw [serve_runBatch_error ordered i elements helement]
        cases ordered with
        | true =>
          exact ⟨[(i, .error e)], _, t, rfl, .cons htakes (.nil t),
            @Reaches.stops _ _ [] _ _ rfl rfl, (List.append_nil _).symm, rfl,
            fun h => hcaptured (.inl (h.resolve_right fun hne => hne rfl))⟩
        | false =>
          obtain ⟨results, b', u, hserve, hattempts, hreaches, houtcomes, herrors, hstamp⟩ :=
            ih { b.failed i e with stamp := stamp } t
          refine ⟨(i, .error e) :: results, b', u, hserve, .cons htakes hattempts,
            hreaches.cons nofun, houtcomes, ?_,
            fun h => hstamp (h.imp_left fun hb => hcaptured (.inl hb))⟩
          rw [herrors]
          exact List.append_assoc _ _ _

/-! ## The reply -/

/-- What an element that took effect adds to `n`. -/
def BatchKind.effect : BatchKind → WriteOutcome → ℕ
  | .insert, _ => 1
  | .update, outcome => outcome.matched + if outcome.upserted.isSome then 1 else 0
  | .delete, outcome => outcome.removedCount

/-- The documents that elements inserted because nothing matched. -/
def upserts (outcomes : List (ℕ × WriteOutcome)) : List (ℕ × Value) :=
  outcomes.filterMap fun (i, outcome) => outcome.upserted.map fun id => (i, id)

/-- The reply lists the errors and counts the effects. -/
structure BatchKind.Reports (kind : BatchKind)
    (results : List (ℕ × Except TranslatorError WriteOutcome)) (reply : Doc) : Prop where
  /-- The errors, in the order of the elements, when there are any. -/
  errors : findField reply "writeErrors".toList = if failed results = [] then none
    else some (.array (makeArray ((failed results).map fun (i, e) => writeError i e)))
  /-- The sum of the effects. -/
  n : findField reply "n".toList =
    some (int32Field ((succeeded results).map fun (_, outcome) => kind.effect outcome).sum)
  /-- The sum of the documents that were modified. -/
  nModified : kind = .update → findField reply "nModified".toList =
    some (int32Field ((succeeded results).map fun (_, outcome) => outcome.modifiedCount).sum)
  /-- The documents that were upserted, when there are any. -/
  upserted : kind = .update → findField reply "upserted".toList =
    if upserts (succeeded results) = [] then none
    else some (.array (makeArray ((upserts (succeeded results)).map fun (i, id) =>
      .document [("index".toList, int32Field i), (idName, id)])))

/-- The upserted documents count. -/
lemma sum_effect_update (outcomes : List (ℕ × WriteOutcome)) :
    (outcomes.map fun (_, outcome) => BatchKind.update.effect outcome).sum =
      (outcomes.map fun (_, outcome) => outcome.matched).sum + (upserts outcomes).length := by
  induction outcomes with
  | nil => rfl
  | cons outcome outcomes ih =>
    obtain ⟨i, outcome⟩ := outcome
    have hlength : (upserts ((i, outcome) :: outcomes)).length =
        (if outcome.upserted.isSome then 1 else 0) + (upserts outcomes).length := by
      cases hupserted : outcome.upserted with
      | none => simp [upserts, hupserted]
      | some id => simp [upserts, hupserted, Nat.add_comm]
    rw [List.map_cons, List.sum_cons, List.map_cons, List.sum_cons, ih, hlength]
    change outcome.matched + (if outcome.upserted.isSome then 1 else 0) + _ =
      outcome.matched + _ + _
    omega

/-- The errors of a reply. -/
lemma findField_writeErrors (errors : List (ℕ × TranslatorError)) :
    findField (writeErrorsField errors) "writeErrors".toList = if errors = [] then none
      else some (.array (makeArray (errors.map fun (i, e) => writeError i e))) := by
  cases errors with
  | nil => rfl
  | cons error errors => rfl

/-- The upserted documents of a reply. -/
lemma findField_upserted (outcomes : List (ℕ × Value)) :
    findField (upsertedField outcomes) "upserted".toList = if outcomes = [] then none
      else some (.array (makeArray (outcomes.map fun (i, id) =>
        .document [("index".toList, int32Field i), (idName, id)]))) := by
  cases outcomes with
  | nil => rfl
  | cons outcome outcomes => rfl

/-- A reply whose time is in a field of its own. -/
lemma reports_reply (kind : BatchKind) {b : Batch} {time : Doc} (houtcomes : b.outcomes =
    succeeded results) (herrors : b.errors = failed results)
    (htime : ∀ name, name ≠ "operationTime".toList → findField time name = none) :
    kind.Reports results (kind.reply b time) := by
  have hbefore : ∀ name, "writeErrors".toList ≠ name → name ≠ "operationTime".toList →
      findField (kind.reply b time) name = findField (kind.counts b) name := by
    intro name hname hother
    simp only [BatchKind.reply, findField_append, findField_writeErrorsField hname,
      htime name hother, Option.none_or, Option.or_none]
  refine ⟨?_, ?_, ?_, ?_⟩
  · simp only [BatchKind.reply, findField_append, (kind.findField_counts b).2,
      htime _ (show "writeErrors".toList ≠ "operationTime".toList by decide), Option.or_none,
      findField_writeErrors, herrors]
  · rw [hbefore _ (by decide) (by decide)]
    cases kind with
    | insert =>
      simp only [BatchKind.counts, BatchKind.effect, houtcomes]
      simp [findField]
    | delete =>
      simp only [BatchKind.counts, BatchKind.effect, houtcomes]
      rfl
    | update =>
      rw [← houtcomes, sum_effect_update]
      rfl
  · rintro rfl
    rw [hbefore _ (by decide) (by decide), ← houtcomes]
    rfl
  · rintro rfl
    rw [hbefore _ (by decide) (by decide), ← houtcomes]
    simp only [BatchKind.counts, findField_append]
    have hupserted := findField_upserted (upserts b.outcomes)
    unfold upserts at hupserted ⊢
    rw [hupserted]
    split
    · rfl
    · rfl

/-! ## Batch commands -/

/-- Attempted elements keep their indices. -/
lemma Attempts.indices (h : Attempts E L ns elements s results t) :
    results.map Prod.fst = elements.map Prod.fst := by
  induction h with
  | nil s => rfl
  | cons htakes hrest ih => exact congrArg (_ :: ·) ih

/-- The elements of an array are numbered from zero on. -/
lemma elementsOf_indices (f : ℕ → Value → Except TranslatorError WriteCommand) (fields : Doc) :
    (elementsOf f fields).map Prod.fst = List.range fields.length := by
  unfold elementsOf
  rw [List.map_map]
  change fields.zipIdx.map Prod.snd = _
  rw [List.zipIdx_map_snd, List.range_eq_range']

/-- The part of a batch that was attempted is numbered from zero on. -/
lemma Attempts.numbered {n : ℕ} (h : Attempts E L ns (elements.take results.length) s results t)
    (helements : elements.map Prod.fst = List.range n) :
    results.map Prod.fst = List.range results.length := by
  have hindices := h.indices
  rw [List.map_take, helements, List.take_range] at hindices
  have hlength := congrArg List.length hindices
  rw [List.length_map, List.length_range] at hlength
  rw [hindices, ← hlength]

/-- The time of a reply is one field. -/
lemma serve_operationTimeField {stamp : Option Stamp} {time : Doc}
    (h : (operationTimeField stamp).serve E.server s = (.ok time, u)) {name : Text}
    (hname : name ≠ "operationTime".toList) : findField time name = none := by
  have hfield : ∃ v, time = [("operationTime".toList, v)] := by
    cases stamp with
    | some ts =>
      cases h
      exact ⟨_, rfl⟩
    | none =>
      change (currentOperationTimeOrInitialize >>= _ : WireProgram Doc).serve E.server s = _ at h
      rw [serve_bind] at h
      split at h
      · cases h
        exact ⟨_, rfl⟩
      · cases h
  obtain ⟨v, rfl⟩ := hfield
  rw [findField_cons, if_neg hname.symm]
  rfl

/-- Only a delete looks whether the collection is there. -/
lemma serve_opening {kind : BatchKind} {there : Bool}
    (h : (kind.opening ns).serve E.server s = (.ok there, t)) (hmissing : there = false) :
    kind = .delete := by
  have hcreates : ∀ kind : BatchKind, kind.opening ns = (do
      createCollection ns false
      return true) → (kind.opening ns).serve E.server s = (.ok there, t) → False := by
    intro kind hkind h
    rw [hkind, serve_bind] at h
    split at h
    · cases h
      cases hmissing
    · cases h
  cases kind with
  | insert => exact (hcreates .insert rfl h).elim
  | update => exact (hcreates .update rfl h).elim
  | delete => rfl

/-- **What a batch command does.**  Once the collection is open, whichever questions fail: the
elements are attempted in their order, an ordered batch only up to the first one that fails.  An
element whose statements all succeed has its whole effect on the documents and the oplog; every
other element leaves both as they were.  A reply is sent whenever an element took effect; it lists
the errors under the indices of the failing elements and counts the effects of the others.  Where a
delete finds no collection, it attempts no element. -/
theorem batch_semantics (E : Engine) (kind : BatchKind) {ctx : Ctx} {fields : Doc} {ns : Namespace}
    (hfield : findField ctx.body kind.field = some (.array fields)) (hns : ctx.ns = .ok ns)
    {s s₁ : ServerSession} {there : Bool}
    (hopen : (kind.opening ns).serve E.server s = (.ok there, s₁)) :
    (there = false → kind = .delete) ∧
    ∃ results t,
      Attempts E ctx.L ns ((if there then kind.elements ctx fields else []).take results.length) s₁
        results t ∧
      Reaches (flag ctx.body "ordered".toList true)
        (if there then kind.elements ctx fields else []) results ∧
      results.map Prod.fst = List.range results.length ∧
      (succeeded results ≠ [] →
        ∃ reply, (kind.handler ctx).serve E.server s = (.ok reply, t)) ∧
      ∀ reply u, (kind.handler ctx).serve E.server s = (.ok reply, u) →
        kind.Reports results reply := by
  refine ⟨serve_opening hopen, ?_⟩
  have hbatch : kind.batch ctx ns fields there = runBatch ctx.L ns
      (flag ctx.body "ordered".toList true) (if there then kind.elements ctx fields else [])
      .empty := by
    cases there with
    | true => rfl
    | false => rfl
  obtain ⟨results, b, t, hserve, hattempts, hreaches, houtcomes, herrors, hstamp⟩ :=
    serve_batch (E := E) (L := ctx.L) ns (flag ctx.body "ordered".toList true)
      (if there then kind.elements ctx fields else []) .empty s₁
  have hhandler : (kind.handler ctx).serve E.server s = (do
      let time ← operationTimeField b.stamp
      return kind.reply b time : WireProgram Doc).serve E.server t := by
    rw [kind.handler_eq hfield, hns]
    change (kind.opening ns >>= _ : WireProgram Doc).serve E.server s = _
    rw [serve_bind, hopen]
    dsimp only
    rw [serve_bind, hbatch, hserve]
  have hindices : (if there then kind.elements ctx fields else []).map Prod.fst =
      List.range (if there then fields.length else 0) := by
    cases there with
    | true => exact elementsOf_indices _ _
    | false => rfl
  refine ⟨results, t, hattempts, hreaches, hattempts.numbered hindices, fun hne => ?_,
    fun reply u hreply => ?_⟩
  · obtain ⟨now, hnow⟩ := Option.ne_none_iff_exists'.1 (hstamp (.inr hne))
    rw [hhandler, hnow]
    exact ⟨_, rfl⟩
  · rw [hhandler, serve_bind] at hreply
    split at hreply
    · next time v htime =>
      cases hreply
      exact reports_reply kind houtcomes herrors fun name hname =>
        serve_operationTimeField htime hname
    · cases hreply

/-! ## Two batches -/

/-- The row that a trigger appends. -/
def mirrorRow (op : OplogOp) (row : Row) (log : List OplogRow) : OplogRow :=
  ⟨log.length + 1, ⟨9, log.length + 1⟩, op, row.ns.text, row.doc, none⟩

/-- A server that mirrors what is inserted, on which nothing fails but what has to; the collections
are those that are named. -/
def mirrorEngine (present : Namespace → Bool) : Engine where
  perform q tables :=
    match SqlServer.handler ⟨.ofStrings, present, fun _ => []⟩ q tables.documents with
    | .error e => .error e
    | .ok (answer, documents) => .ok (answer, ⟨documents, match q with
      | .insert row => tables.oplog ++ [mirrorRow .i row tables.oplog]
      | _ => tables.oplog⟩)
  clock tables := some ⟨9, tables.oplog.length⟩
  fault _ := none
  debris _ tables := tables
  other q s := (q.agree, s)

/-- No documents and no oplog rows. -/
def emptySession : ServerSession := ⟨⟨[], []⟩, none, 0⟩

/-- A document whose `_id` is this string. -/
def named (id : String) : Value := .document [(idName, .utf8 id.toList)]

/-- An unordered insert of four entries, of which the second is malformed and the third repeats the
first. -/
def insertFour : Ctx where
  body := [("insert".toList, .utf8 "items".toList),
    ("documents".toList, .array [("0".toList, named "a"), ("1".toList, .int32 5),
      ("2".toList, named "a"), ("3".toList, named "b")]),
    ("ordered".toList, .bool false)]
  db := "app".toList
  argument := "items".toList
  L := .ofStrings
  oids _ := 0

/-- Two documents are inserted, each with its oplog row, and two errors are reported. -/
theorem batch_semantics_insertFour : ∃ results reply t,
    (cmdInsert insertFour).serve (mirrorEngine fun _ => true).server emptySession =
      (.ok reply, t) ∧
    t.committed.documents.length = 2 ∧ t.committed.oplog.length = 2 ∧
    findField reply "n".toList = some (int32Field 2) ∧ BatchKind.insert.Reports results reply := by
  obtain ⟨reply, t, hserve, hdocuments, hoplog, hn⟩ : ∃ reply t,
      (cmdInsert insertFour).serve (mirrorEngine fun _ => true).server emptySession =
        (.ok reply, t) ∧
      t.committed.documents.length = 2 ∧ t.committed.oplog.length = 2 ∧
      findField reply "n".toList = some (int32Field 2) := ⟨_, _, rfl, rfl, rfl, rfl⟩
  obtain ⟨-, results, -, -, -, -, -, hreports⟩ :=
    @batch_semantics (mirrorEngine fun _ => true) .insert insertFour _ _ rfl rfl emptySession
      ⟨⟨[], []⟩, none, 1⟩ true rfl
  exact ⟨results, reply, t, hserve, hdocuments, hoplog, hn, hreports reply t hserve⟩

/-- A delete of one entry, which is malformed. -/
def deleteMalformed : Ctx where
  body := [("delete".toList, .utf8 "items".toList),
    ("deletes".toList, .array [("0".toList, .int32 5)])]
  db := "app".toList
  argument := "items".toList
  L := .ofStrings
  oids _ := 0

/-- Where there is no collection, a delete does not report that its entry is malformed. -/
theorem malformed_delete_not_reported :
    ¬ ∀ (E : Engine) (kind : BatchKind) (ctx : Ctx) (fields : Doc) (s t : ServerSession)
      (reply : Doc), findField ctx.body kind.field = some (.array fields) →
      (kind.handler ctx).serve E.server s = (.ok reply, t) →
      (∃ i e, (i, .error e) ∈ kind.elements ctx fields) →
      findField reply "writeErrors".toList ≠ none := by
  intro h
  have hserve : ∃ reply t, (BatchKind.delete.handler deleteMalformed).serve
      (mirrorEngine fun _ => false).server emptySession = (.ok reply, t) ∧
      findField reply "writeErrors".toList = none := ⟨_, _, rfl, rfl⟩
  obtain ⟨reply, t, hserve, hnone⟩ := hserve
  exact h _ .delete deleteMalformed _ emptySession t reply rfl hserve
    ⟨0, _, List.mem_cons_self⟩ hnone

end Chimera

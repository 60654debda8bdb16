import Chimera.Foundations.Run
import Chimera.Foundations.SequencedLog
import Chimera.Oplog.Stamp

/-!
# The oplog on the server: writers and the pruner

The state of `chimera_meta` as the server keeps it, and everything that changes it: writer
transactions, which append rows under the clock row lock and commit or roll back, and the
pruning pass, one SQL statement at a time.  Passes are serialized by a mutex.  A pass plans in
autocommit, between other connections' statements, and then deletes and publishes its watermark
in one transaction that holds the clock lock.
-/

namespace Chimera

/-! ## Tables -/

/-- The row of `chimera_meta.oplog_history`. -/
structure History where
  /-- The columns `pruned_seq`: the last sequence number a pass deleted. -/
  prunedSeq : ℕ
  /-- The columns `pruned_ts_t` and `pruned_ts_i`: the largest stamp a pass deleted. -/
  prunedTs : Stamp
  /-- The column `legacy_baseline`: the oplog is older than this table. -/
  legacyBaseline : Bool
  /-- The column `baseline_seq`: the end of the unknown prefix of an older oplog. -/
  baselineSeq : ℕ
  /-- The columns `baseline_ts_t` and `baseline_ts_i`: the stamp of the oldest survivor. -/
  baselineTs : Stamp
deriving DecidableEq

/-- `oplog_head`: `COALESCE(MAX(seq), 0)`. -/
def oplogHead (rows : List OplogRow) : ℕ := (rows.map OplogRow.seq).foldr max 0

/-! ## The pruning pass -/

/-- The condition of a pass: `seq < head AND (ts_t < cutoff OR seq < cut)`, where a limit that
is off leaves its disjunct out. -/
structure PruneWhere where
  /-- The head sampled when the pass began. -/
  head : ℕ
  /-- The second before which a row is too old. -/
  cutoff : Option ℕ
  /-- The oldest sequence number the row count keeps. -/
  cut : Option ℕ
deriving DecidableEq

/-- The rows the condition selects. -/
def PruneWhere.selects (w : PruneWhere) (r : OplogRow) : Bool :=
  decide (r.seq < w.head) &&
    (w.cutoff.any (fun c => decide (r.ts.t < c)) || w.cut.any fun c => decide (r.seq < c))

/-- The age cutoff: nothing is too old while the clock is within the age limit. -/
def ageCutoff (now maxAge : ℕ) : Option ℕ := if now > maxAge then some (now - maxAge) else none

/-- `SELECT seq … ORDER BY seq DESC LIMIT 1 OFFSET max_rows - 1`, on rows in key order. -/
def rowCut (rows : List OplogRow) (maxRows : ℕ) : Option ℕ :=
  (rows.reverse[maxRows - 1]?).map OplogRow.seq

/-- `SELECT seq … WHERE … ORDER BY seq DESC LIMIT 1`, on rows in key order. -/
def newestSelected (w : PruneWhere) (rows : List OplogRow) : Option ℕ :=
  ((rows.filter w.selects).getLast?).map OplogRow.seq

/-- `SELECT ts_t, ts_i … WHERE … ORDER BY ts_t DESC, ts_i DESC LIMIT 1`. -/
def latestSelected (w : PruneWhere) (rows : List OplogRow) : Option Stamp :=
  ((rows.filter w.selects).map OplogRow.ts).max?

/-- What a pass has settled before it locks the writers out. -/
structure PrunePlan where
  /-- The condition. -/
  condition : PruneWhere
  /-- The last sequence number the condition selected. -/
  newest : ℕ
  /-- The largest stamp the condition selected. -/
  timestamp : Stamp
deriving DecidableEq

/-- The rows the `DELETE` removes: it is bounded by the last selected row too. -/
def PrunePlan.dooms (plan : PrunePlan) (r : OplogRow) : Bool :=
  decide (r.seq ≤ plan.newest) && plan.condition.selects r

/-- The `UPDATE` of the history row.  MariaDB assigns from left to right, so each assignment
sees the ones before it. -/
def publish (h : History) (newest : ℕ) (ts : Stamp) : History :=
  let h := { h with prunedSeq := max h.prunedSeq newest }
  let h := { h with prunedTs.i :=
    if h.prunedTs.t < ts.t then ts.i
    else if h.prunedTs.t = ts.t then max h.prunedTs.i ts.i
    else h.prunedTs.i }
  { h with prunedTs.t := max h.prunedTs.t ts.t }

/-- Where a pass stands: the statement it performs next, and what it has read so far. -/
inductive PrunePhase where
  /-- No pass is under way. -/
  | idle
  /-- Sample the head. -/
  | head (maxRows maxAge : ℕ)
  /-- Sample the time. -/
  | age (maxRows maxAge head : ℕ)
  /-- Find the row count's cut. -/
  | cut (maxRows head : ℕ) (cutoff : Option ℕ)
  /-- Find the last selected row. -/
  | newest (condition : PruneWhere)
  /-- Find the largest selected stamp. -/
  | timestamp (condition : PruneWhere) (newest : ℕ)
  /-- `START TRANSACTION`. -/
  | begin (plan : PrunePlan)
  /-- Lock the clock row. -/
  | lockClock (plan : PrunePlan)
  /-- Lock the history row. -/
  | lockHistory (plan : PrunePlan)
  /-- Check that the planned boundary is still there. -/
  | verify (plan : PrunePlan)
  /-- `DELETE`. -/
  | delete (plan : PrunePlan)
  /-- `UPDATE` the watermark. -/
  | publish (plan : PrunePlan) (survivors removed : List OplogRow)
  /-- `COMMIT`. -/
  | commit (survivors removed : List OplogRow) (history : History)
  /-- `ROLLBACK`, after a statement of the transaction failed. -/
  | rollback
deriving DecidableEq

/-- After the condition is known: with no limit in force the pass ends. -/
def PrunePhase.planned (w : PruneWhere) : PrunePhase :=
  if w.cutoff = none ∧ w.cut = none then .idle else .newest w

/-- After the age limit: the row count is consulted only when it is on. -/
def PrunePhase.counted (maxRows head : ℕ) (cutoff : Option ℕ) : PrunePhase :=
  if maxRows > 0 then .cut maxRows head cutoff else .planned ⟨head, cutoff, none⟩

/-! ## The server -/

/-- Who holds the lock on the clock row. -/
inductive ClockLock where
  /-- Nobody. -/
  | free
  /-- A writer's transaction, with the rows it has appended and the clock it has set. -/
  | writer (conn : ℕ) (pending : List OplogRow) (clock : Stamp)
  /-- The pruner's transaction. -/
  | pruner
deriving DecidableEq

/-- The rows that are appended and not committed. -/
def ClockLock.pending : ClockLock → List OplogRow
  | .writer _ pending _ => pending
  | _ => []

/-- The rows that the connection has appended and not committed. -/
def ClockLock.pendingOf (lock : ClockLock) (conn : ℕ) : List OplogRow :=
  match lock with
  | .writer owner pending _ => if owner = conn then pending else []
  | _ => []

/-- The clock that the connection has set and not committed. -/
def ClockLock.clockOf (lock : ClockLock) (conn : ℕ) : Option Stamp :=
  match lock with
  | .writer owner _ clock => if owner = conn then some clock else none
  | _ => none

/-- The oplog on the server.  The last three fields record what happened and are not read by
any statement. -/
structure OplogServer where
  /-- The committed rows of `chimera_meta.oplog`, in key order. -/
  rows : List OplogRow
  /-- The committed clock row. -/
  clock : Stamp
  /-- The committed history row. -/
  history : History
  /-- The next `AUTO_INCREMENT` value. -/
  autoIncrement : ℕ
  /-- Who holds the clock row. -/
  lock : ClockLock
  /-- The pruning pass. -/
  pruning : PrunePhase
  /-- Every row ever committed. -/
  committed : List OplogRow
  /-- The committed rows that were gone before the history row existed. -/
  lost : List OplogRow
  /-- The rows that pruning deleted. -/
  deleted : List OplogRow
deriving DecidableEq

/-- What can happen to the oplog on the server. -/
inductive ServerAction where
  /-- A statement of the connection's transaction calls `oplog_append`. -/
  | append (conn : ℕ) (call : AppendCall)
  /-- The writer commits. -/
  | commit (conn : ℕ)
  /-- The writer rolls back. -/
  | rollback (conn : ℕ)
  /-- `prune_oplog` is called and gets the mutex. -/
  | pruneStart (maxRows maxAge : ℕ)
  /-- The pass performs its next statement, at this time. -/
  | pruneStep (now : ℕ)
  /-- The next statement of the pass fails. -/
  | pruneFail
deriving DecidableEq

/-- The connection whose transaction the action is part of. -/
def ServerAction.writer : ServerAction → Option ℕ
  | .append conn _ | .commit conn | .rollback conn => some conn
  | _ => none

/-- The actions that begin a pass. -/
def ServerAction.startsPass : ServerAction → Bool
  | .pruneStart _ _ => true
  | _ => false

namespace OplogServer

/-- The next statement of the pruning pass. -/
def pruneStatement (s : OplogServer) (now : ℕ) : Option OplogServer :=
  match s.pruning with
  | .idle => none
  | .head maxRows maxAge =>
    let head := oplogHead s.rows
    some { s with pruning :=
      if head = 0 then .idle
      else if maxAge > 0 then .age maxRows maxAge head
      else .counted maxRows head none }
  | .age maxRows maxAge head =>
    some { s with pruning := .counted maxRows head (ageCutoff now maxAge) }
  | .cut maxRows head cutoff =>
    some { s with pruning := .planned ⟨head, cutoff, rowCut s.rows maxRows⟩ }
  | .newest w =>
    some { s with pruning :=
      match newestSelected w s.rows with
      | none => .idle
      | some newest => .timestamp w newest }
  | .timestamp w newest =>
    some { s with pruning :=
      match latestSelected w s.rows with
      | none => .idle
      | some timestamp => .begin ⟨w, newest, timestamp⟩ }
  | .begin plan => some { s with pruning := .lockClock plan }
  | .lockClock plan =>
    if s.lock = .free then some { s with lock := .pruner, pruning := .lockHistory plan } else none
  | .lockHistory plan => some { s with pruning := .verify plan }
  | .verify plan =>
    some { s with pruning :=
      if s.rows.any fun r => decide (r.seq = plan.newest) && plan.condition.selects r
      then .delete plan
      else .commit s.rows [] s.history }
  | .delete plan =>
    let survivors := s.rows.filter fun r => !plan.dooms r
    let removed := s.rows.filter plan.dooms
    some { s with pruning :=
      if removed.length > 0 then .publish plan survivors removed
      else .commit survivors removed s.history }
  | .publish plan survivors removed =>
    let history := Chimera.publish s.history plan.newest plan.timestamp
    some { s with pruning := .commit survivors removed history }
  | .commit survivors removed history =>
    some { s with
      rows := survivors, history := history, deleted := s.deleted ++ removed,
      lock := .free, pruning := .idle }
  | .rollback =>
    some { s with lock := if s.lock = .pruner then .free else s.lock, pruning := .idle }

/-- Where the pass goes when its next statement fails: an error inside the transaction is
followed by a `ROLLBACK`, any other one ends the pass. -/
def failedPhase : PrunePhase → PrunePhase
  | .lockClock _ | .lockHistory _ | .verify _ | .delete _ | .publish _ _ _ | .commit _ _ _ =>
    .rollback
  | .rollback => .rollback
  | _ => .idle

/-- One action on the server. -/
def step (s : OplogServer) : ServerAction → Option OplogServer
  | .append conn call =>
    match s.lock with
    | .free =>
      (oplogAppend s.clock s.autoIncrement call).map fun (clock, row) =>
        { s with autoIncrement := row.seq + 1, lock := .writer conn [row] clock }
    | .writer owner pending clock =>
      if owner = conn then
        (oplogAppend clock s.autoIncrement call).map fun (clock, row) =>
          { s with autoIncrement := row.seq + 1, lock := .writer conn (pending ++ [row]) clock }
      else none
    | .pruner => none
  | .commit conn =>
    match s.lock with
    | .writer owner pending clock =>
      if owner = conn then
        some { s with
          rows := s.rows ++ pending, clock := clock, committed := s.committed ++ pending,
          lock := .free }
      else none
    | _ => none
  | .rollback conn =>
    match s.lock with
    | .writer owner _ _ => if owner = conn then some { s with lock := .free } else none
    | _ => none
  | .pruneStart maxRows maxAge =>
    if s.pruning = .idle ∧ ¬ (maxRows = 0 ∧ maxAge = 0) then
      some { s with pruning := .head maxRows maxAge }
    else none
  | .pruneStep now => s.pruneStatement now
  | .pruneFail =>
    if s.pruning = .idle then none else some { s with pruning := failedPhase s.pruning }

end OplogServer

end Chimera

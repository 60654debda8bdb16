import Chimera.Oplog.Server
import Chimera.Plugin.Collection

/-!
# What a command asks of the server

Every command is a program of questions: statements on the connection's own session, statements
on a session of the plugin's own, and calls of the cursor registry.  A statement can fail, and a
command may catch the error.  What the answers are is left open here.
-/

namespace Chimera

open Interaction

/-! ## Statements -/

/-- The tables of `chimera_meta`. -/
inductive MetaTable where
  | collections
  | indexes
  | projections
  | oplogClock
  | oplog
  | oplogHistory
deriving DecidableEq

/-- The procedures of `chimera_meta`. -/
inductive MetaProcedure where
  | addProjection
  | oplogAppend
  | adoptTable
deriving DecidableEq

/-- Statements that define something.  They commit the transaction of the session they run on. -/
inductive Definition where
  /-- `CREATE DATABASE IF NOT EXISTS`. -/
  | createDatabase (db : Text)
  /-- `CREATE TABLE IF NOT EXISTS` of a table of `chimera_meta`. -/
  | createMetaTable (table : MetaTable)
  /-- `CREATE OR REPLACE PROCEDURE`. -/
  | createProcedure (procedure : MetaProcedure)
  /-- `CREATE USER IF NOT EXISTS` of the oplog's owner. -/
  | createOwner
  /-- `GRANT SELECT, TRIGGER ON *.*` to the owner. -/
  | grantTriggers
  /-- `GRANT … ON chimera_meta.*` to the owner. -/
  | grantMeta
  /-- `CREATE TABLE IF NOT EXISTS` of a collection. -/
  | createTable (ns : Namespace)
deriving DecidableEq

/-- The statements of the commands. -/
inductive Sql where
  | startTransaction
  | commit
  | rollback
  | define (definition : Definition)
  /-- `CALL chimera_meta.chimera_adopt_table`. -/
  | adopt (ns : Namespace)
  /-- A statement on a collection. -/
  | table (q : Request)
  /-- `SELECT COUNT(*)` of a collection. -/
  | countRows (ns : Namespace) (cond : Cond)
  /-- `SELECT ts_t, ts_i` of the clock row. -/
  | clock
  /-- The same, `FOR UPDATE`. -/
  | lockClock
  /-- A look for the row of `oplog_history`. -/
  | historyRow
  /-- A count of the tables named `oplog`. -/
  | oplogTables
  /-- A look for a row of the oplog. -/
  | oldestRow
  /-- `INSERT IGNORE` of the clock row. -/
  | seedClock
  /-- `INSERT IGNORE` of the row of `oplog_history`. -/
  | seedHistory (legacy : Bool)
  /-- `SELECT COALESCE(MAX(seq), 0)`. -/
  | oplogHead
  /-- The `SELECT` of `read_oplog`. -/
  | readOplog (cond : Cond) (afterSeq limit : ℕ) (newestFirst : Bool)
  /-- The `SELECT` of `read_changestream`. -/
  | readChangestream (ns : Namespace) (afterSeq limit : ℕ)
  /-- The `SELECT` of `require_change_stream_history`. -/
  | historyFloor
  /-- The `SELECT` of `resolve_change_stream_start` for an operation time. -/
  | beforeTime (ts : Stamp)
  /-- The `SELECT` of `list_databases`. -/
  | databases
  /-- The `SELECT` of `list_collections`. -/
  | tables (db : Text)
  /-- The `SELECT` of `list_indexes`. -/
  | indexes (ns : Namespace)
  /-- `START TRANSACTION READ ONLY`. -/
  | startReadOnly
  /-- A statement that the client wrote. -/
  | raw (statement : Text)

/-- `SqlGatewayResult`. -/
structure GatewayResult where
  /-- The rows, as documents. -/
  documents : List Doc
  /-- The statement returned rows. -/
  hadResultSet : Bool
  /-- How many rows it changed. -/
  affectedRows : ℕ

/-- What the plugin reads back from a statement. -/
def Sql.Result : Sql → Type
  | .table q => q.Answer
  | .countRows _ _ => ℕ
  | .clock | .lockClock => Option Stamp
  | .historyRow | .oldestRow => Bool
  | .oplogTables => Option ℕ
  | .oplogHead => ℕ
  | .readOplog _ _ _ _ => List (ℕ × Json)
  | .readChangestream _ _ _ => List (Option (ℕ × Json))
  | .historyFloor => Option (ℕ × Bool)
  | .beforeTime _ => Option (ℕ × History)
  | .databases | .tables _ => List Text
  | .indexes _ => List (Text × Json × Bool)
  | .raw _ => GatewayResult
  | _ => Unit

/-- The session a statement runs on. -/
inductive SessionKind where
  /-- The session of the client's connection. -/
  | connection
  /-- A session that the plugin opened for itself. -/
  | own
deriving DecidableEq

/-! ## Questions -/

/-- What the registry keeps of a tailing cursor. -/
structure TailEntry where
  /-- The filter. -/
  filter : Doc
  /-- The position. -/
  afterSeq : ℕ
  /-- An empty `getMore` waits for a write. -/
  awaitData : Bool
  /-- The cursor is a change stream. -/
  changeStream : Bool

/-- The calls of the cursor registry. -/
inductive RegistryCall where
  | openCursor (ns : Text) (remaining : List Doc)
  | openTail (ns : Text) (tail : TailEntry)
  | tailState (id : ℤ) (ns : Text)
  | advanceTail (id : ℤ) (afterSeq : ℕ)
  | nextBatch (id : ℤ) (ns : Text) (batchSize : ℤ)
  | kill (id : ℤ)

/-- What the registry answers. -/
def RegistryCall.Result : RegistryCall → Type
  | .openCursor _ _ | .openTail _ _ => ℤ
  | .tailState _ _ => Option TailEntry
  | .advanceTail _ _ => Unit
  | .nextBatch _ _ _ => Except TranslatorError (List Doc × Bool)
  | .kill _ => Bool

/-- What a command asks. -/
inductive Question where
  /-- Open a session of the plugin's own. -/
  | connect
  /-- A statement. -/
  | sql (session : SessionKind) (statement : Sql)
  /-- `SqlSession::in_transaction` of the connection's session. -/
  | inTransaction
  /-- A call of the cursor registry. -/
  | registry (call : RegistryCall)

/-- The answers. -/
def Question.Answer : Question → Type
  | .connect => Except TranslatorError Unit
  | .sql _ statement => Except TranslatorError statement.Result
  | .inTransaction => Bool
  | .registry call => call.Result

/-- A part of a command. -/
abbrev WireProgram := Interaction TranslatorError Question Question.Answer

/-- A statement, whose failure is an error. -/
def statement (session : SessionKind) (q : Sql) : WireProgram q.Result :=
  .ask (.sql session q) fun
    | .ok result => .done result
    | .error e => .fail e

/-- A statement on the connection's session. -/
abbrev sql (q : Sql) : WireProgram q.Result := statement .connection q

/-- A call of the registry. -/
def registry (call : RegistryCall) : WireProgram call.Result := question (Question.registry call)

/-- `SqlSession::in_transaction` of the connection's session. -/
def inTransaction : WireProgram Bool := question Question.inTransaction

/-- The operations of a collection, as part of a command. -/
def onCollection {α : Type} (x : SqlProgram α) : WireProgram α :=
  x.substitute fun q => sql (.table q)

/-! ## Answers of a server that has everything -/

/-- The table is there and its rows are not looked for. -/
def Request.agree : (q : Request) → q.Answer
  | .tableExists _ => true
  | .select _ _ _ => []
  | .insert _ | .replace _ => ()
  | .delete _ _ | .deleteWhere _ _ => (0 : ℕ)

/-- The statement succeeds. -/
def Sql.agree : (q : Sql) → q.Result
  | .table q => q.agree
  | .countRows _ _ | .oplogHead => (0 : ℕ)
  | .clock | .lockClock => some (⟨0, 0⟩ : Stamp)
  | .historyRow | .oldestRow => true
  | .oplogTables => some (1 : ℕ)
  | .readOplog _ _ _ _ | .readChangestream _ _ _ | .databases | .tables _ | .indexes _ => []
  | .historyFloor => some ((0 : ℕ), true)
  | .beforeTime _ => none
  | .startTransaction | .startReadOnly | .commit | .rollback | .define _ | .adopt _
  | .seedClock | .seedHistory _ => ()
  | .raw _ => ⟨[], false, 0⟩

/-- The registry knows no cursor. -/
def RegistryCall.agree : (call : RegistryCall) → call.Result
  | .openCursor _ _ | .openTail _ _ => (1 : ℤ)
  | .tailState _ _ => none
  | .advanceTail _ _ => ()
  | .nextBatch _ _ _ => .ok ([], true)
  | .kill _ => false

/-- Every statement succeeds. -/
def Question.agree : (q : Question) → q.Answer
  | .connect => .ok ()
  | .sql _ q => .ok q.agree
  | .inTransaction => false
  | .registry call => call.agree

/-! ## The schema of the oplog -/

/-- `ready` of `install_oplog_schema`. -/
def oplogReady : WireProgram Bool := do
  match ← (statement .own .historyRow).attempt with
  | .ok there => return there
  | .error e => if e.code ≠ 26 then .fail e else return false

/-- The transaction of `install_oplog_schema`. -/
def seedHistory (legacy : Bool) : WireProgram Unit := do
  match ← statement .own .lockClock with
  | none => .fail (internalError "oplog clock metadata is missing".toList)
  | some clock =>
    if legacy && decide (clock ≠ ⟨0, 0⟩) then
      if !(← statement .own .oldestRow) then
        .fail (internalError
          "cannot establish history for an empty legacy oplog with a nonzero clock".toList)
    statement .own (.seedHistory legacy)
    statement .own .commit

/-- The definitions of `install_oplog_schema`, in their order. -/
def schemaDefinitions : List Sql :=
  [.define .createOwner, .define .grantTriggers, .define .grantMeta,
    .define (.createDatabase "chimera_meta".toList), .define (.createMetaTable .oplogClock),
    .define (.createMetaTable .oplog), .define (.createMetaTable .oplogHistory), .seedClock,
    .define (.createProcedure .oplogAppend), .define (.createProcedure .adoptTable)]

/-- Statements one after the other, whose results nobody reads. -/
def statements (session : SessionKind) : List Sql → WireProgram Unit
  | [] => return ()
  | q :: rest => do
    let _ ← statement session q
    statements session rest

/-- `install_oplog_schema`: everything it defines, it defines on a session of its own. -/
def installOplogSchema : WireProgram Unit :=
  .ask .connect fun
  | .error e => .fail e
  | .ok () => do
    if ← oplogReady then return ()
    if ← inTransaction then
      .fail (badValue ("oplog history initialization is required; commit or roll back " ++
        "the current SQL transaction, then retry").toList)
    if ← oplogReady then return ()
    match ← statement .own .oplogTables with
    | none =>
      .fail (internalError "could not determine whether the oplog already exists".toList)
    | some count =>
      let legacy := decide (count ≠ 0)
      statements .own schemaDefinitions
      statement .own .startTransaction
      match ← (seedHistory legacy).attempt with
      | .ok () => return ()
      | .error e => do
        statement .own .rollback
        .fail e

/-- `current_operation_time`: zero when the clock row is missing. -/
def currentOperationTime : WireProgram Stamp := do
  match ← sql .clock with
  | some now => return now
  | none => return ⟨0, 0⟩

/-- `current_operation_time_or_initialize`. -/
def currentOperationTimeOrInitialize : WireProgram Stamp := do
  match ← currentOperationTime.attempt with
  | .ok now => return now
  | .error e =>
    if e.code ≠ 26 then .fail e
    else do
      installOplogSchema
      currentOperationTime

/-! ## Creating a collection -/

/-- `Collection::bootstrap`, with `install_projection_support`. -/
def bootstrap : WireProgram Unit :=
  statements .connection
    [.define (.createDatabase "chimera_meta".toList), .define (.createMetaTable .collections),
      .define (.createMetaTable .indexes), .define (.createDatabase "chimera_meta".toList),
      .define (.createMetaTable .projections), .define (.createProcedure .addProjection)]

/-- `install_oplog_triggers`. -/
def installOplogTriggers (ns : Namespace) : WireProgram Unit := do
  installOplogSchema
  sql (.adopt ns)

/-- `Collection::create`. -/
def createCollection (ns : Namespace) (errorIfExists : Bool) : WireProgram Unit := do
  if ← onCollection (askExists ns) then
    if errorIfExists then
      .fail (namespaceExists ("collection already exists: ".toList ++ ns.text))
    else return ()
  else do
    bootstrap
    sql (.define (.createDatabase ns.db))
    sql (.define (.createTable ns))
    installOplogTriggers ns

/-! ## Which statements run on the connection -/

/-- The statement on the connection's session, when the question is one. -/
def Question.onConnection : Question → Option Sql
  | .sql .connection q => some q
  | _ => none

/-- The statement only reads. -/
def Sql.reads : Sql → Bool
  | .table q => q.isRead
  | .countRows _ _ | .clock | .historyRow | .oplogTables | .oldestRow | .oplogHead
  | .readOplog _ _ _ _ | .readChangestream _ _ _ | .historyFloor | .beforeTime _ | .databases
  | .tables _ | .indexes _ => true
  | _ => false

/-- Nothing happens on the connection's session. -/
def Question.Elsewhere (q : Question) : Prop := q.onConnection = none

/-- Whatever happens on the connection's session reads. -/
def Question.Reads (q : Question) : Prop := ∀ s ∈ q.onConnection, s.reads = true

/-- No transaction of the connection is committed. -/
def Question.NoCommit (q : Question) : Prop := q.onConnection ≠ some .commit

/-- What happens elsewhere does not even read. -/
lemma Question.Elsewhere.reads {q : Question} (h : q.Elsewhere) : q.Reads := by
  intro s hs
  rw [h] at hs
  cases hs

/-- What reads does not commit. -/
lemma Question.Reads.noCommit {q : Question} (h : q.Reads) : q.NoCommit := by
  intro hcommit
  have hreads := h _ hcommit
  cases hreads

section Asks

variable {P : Question → Prop}

/-- A statement asks one question. -/
lemma asks_statement {session : SessionKind} {q : Sql} (h : P (.sql session q)) :
    (statement session q).Asks P := by
  refine ⟨h, fun r => ?_⟩
  cases r with
  | ok result => trivial
  | error e => trivial

/-- Statements one after the other. -/
lemma asks_statements {session : SessionKind} {qs : List Sql}
    (h : ∀ q ∈ qs, P (.sql session q)) : (statements session qs).Asks P := by
  induction qs with
  | nil => trivial
  | cons q qs ih =>
    refine Asks.bind (asks_statement (h q (List.mem_cons_self ..))) fun _ => ?_
    exact ih fun q' hq' => h q' (List.mem_cons_of_mem _ hq')

/-- The operations of a collection ask about tables. -/
lemma asks_onCollection {α : Type} {P₀ : Request → Prop} {x : SqlProgram α} (hx : x.Asks P₀)
    (h : ∀ q, P₀ q → P (.sql .connection (.table q))) : (onCollection x).Asks P :=
  Asks.substitute hx fun q hq => asks_statement (h q hq)

/-- A statement on a session of the plugin's own happens elsewhere. -/
lemma asks_own (q : Sql) : (statement .own q).Asks Question.Elsewhere :=
  asks_statement rfl

/-- The look for the history row happens elsewhere. -/
lemma asks_oplogReady : oplogReady.Asks Question.Elsewhere := by
  refine Asks.bind (asks_own _).attempt fun result => ?_
  cases result with
  | ok there => trivial
  | error e => exact Asks.ite trivial trivial

/-- So does the transaction that seeds the history. -/
lemma asks_seedHistory (legacy : Bool) : (seedHistory legacy).Asks Question.Elsewhere := by
  refine Asks.bind (asks_own _) fun clock => ?_
  cases clock with
  | none => trivial
  | some clock =>
    have hend : (do
        statement .own (.seedHistory legacy)
        statement .own .commit : WireProgram Unit).Asks Question.Elsewhere :=
      Asks.bind (asks_own _) fun _ => asks_own _
    exact Asks.ite (Asks.bind (asks_own _) fun there => Asks.ite trivial hend) hend

/-- **The schema is installed elsewhere.**  `install_oplog_schema` runs no statement on the
connection's session. -/
theorem asks_installOplogSchema : installOplogSchema.Asks Question.Elsewhere := by
  refine ⟨rfl, fun connected => ?_⟩
  cases connected with
  | error e => trivial
  | ok _ =>
    refine Asks.bind asks_oplogReady fun there => Asks.ite trivial ?_
    refine Asks.bind ⟨rfl, fun _ => trivial⟩ fun busy => Asks.ite trivial ?_
    refine Asks.bind asks_oplogReady fun there => Asks.ite trivial ?_
    refine Asks.bind (asks_own _) fun count => ?_
    cases count with
    | none => trivial
    | some count =>
      refine Asks.bind (asks_statements fun q _ => rfl) fun _ => ?_
      refine Asks.bind (asks_own _) fun _ => ?_
      refine Asks.bind (asks_seedHistory _).attempt fun result => ?_
      cases result with
      | ok _ => trivial
      | error e => exact Asks.bind (asks_own _) fun _ => trivial

/-- Reading the clock reads. -/
lemma asks_currentOperationTime : currentOperationTime.Asks Question.Reads := by
  refine Asks.bind (asks_statement ?_) fun now => ?_
  · intro s hs
    cases hs
    rfl
  · cases now with
    | some now => trivial
    | none => trivial

/-- Reading the clock reads, also when the schema has to be installed first. -/
lemma asks_currentOperationTimeOrInitialize :
    currentOperationTimeOrInitialize.Asks Question.Reads := by
  refine Asks.bind asks_currentOperationTime.attempt fun result => ?_
  cases result with
  | ok now => trivial
  | error e =>
    refine Asks.ite trivial ?_
    refine Asks.bind (asks_installOplogSchema.mono fun q hq => hq.reads) fun _ => ?_
    exact asks_currentOperationTime

end Asks

end Chimera

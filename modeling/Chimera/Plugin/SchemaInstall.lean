import Chimera.Oplog.Seeding
import Chimera.Plugin.Statement

/-!
# Installing the oplog while other connections are at work

`install_oplog_schema` is called by every command that needs the oplog and by the pruner, from any
number of connections at once.  It looks for the history row, refuses a caller that is in a
transaction, takes `g_schema_mutex`, looks again, defines the schema, and seeds the history row
in one transaction that holds the clock row.  Statements of other connections come in between
any two of its own.

`installUnderMutex` is the program with its mutex; without the mutex it is the program that the
commands run (`installUnderMutex_forget`).  `InstallServer` is what the calls and the writers share:
the tables and procedures that are defined, the rows of the clock and the history, and who holds
the mutex and the clock row.
-/

namespace Chimera

open Interaction

/-! ## The program, with its mutex -/

/-- What `install_oplog_schema` asks, the schema mutex included. -/
inductive InstallQuestion where
  /-- A question of a command. -/
  | wire (q : Question)
  /-- `g_schema_mutex` is locked. -/
  | lock
  /-- `g_schema_mutex` is unlocked. -/
  | unlock
  /-- The session that the call has opened is closed. -/
  | close

/-- The answers. -/
def InstallQuestion.Answer : InstallQuestion → Type
  | .wire q => q.Answer
  | .lock | .unlock | .close => Unit

/-- A part of `install_oplog_schema`. -/
abbrev InstallProgram := Interaction TranslatorError InstallQuestion InstallQuestion.Answer

/-- A part that leaves the mutex alone. -/
def besideMutex {α : Type} (x : WireProgram α) : InstallProgram α :=
  x.substitute fun q => question (InstallQuestion.wire q)

/-- What a destructor asks at the end of a scope is asked also where the scope is left by an
error. -/
def atScopeEnd (x : InstallProgram Unit) (last : InstallProgram Unit) : InstallProgram Unit := do
  match ← x.attempt with
  | .ok () => last
  | .error e => do
    last
    .fail e

/-- The transaction that seeds the history row, once it is open: any error is followed by a
`ROLLBACK`. -/
def orRollback (x : WireProgram Unit) : WireProgram Unit := do
  match ← x.attempt with
  | .ok () => return ()
  | .error e => do
    statement .own .rollback
    .fail e

/-- The schema is defined and the history row is seeded. -/
def defineSchema : WireProgram Unit := do
  match ← statement .own .oplogTables with
  | none => .fail (internalError "could not determine whether the oplog already exists".toList)
  | some count => do
    let legacy := decide (count ≠ 0)
    statements .own schemaDefinitions
    statement .own .startTransaction
    orRollback (seedHistory legacy)

/-- The scope of the `lock_guard`. -/
def installLocked : WireProgram Unit := do
  if ← oplogReady then return ()
  defineSchema

/-- `install_oplog_schema`, with its mutex and the end of its session. -/
def installUnderMutex : InstallProgram Unit :=
  .ask (.wire .connect) fun
  | .error e => .fail e
  | .ok () => atScopeEnd (do
      if ← besideMutex oplogReady then return ()
      if ← besideMutex inTransaction then
        .fail (badValue ("oplog history initialization is required; commit or roll back " ++
          "the current SQL transaction, then retry").toList)
      question InstallQuestion.lock
      atScopeEnd (besideMutex installLocked) (question InstallQuestion.unlock))
    (question InstallQuestion.close)

/-- Only the questions of a command are left. -/
def forgetMutex : (q : InstallQuestion) → WireProgram q.Answer
  | .wire q => question q
  | .lock | .unlock | .close => .done ()

/-! ## What the calls and the writers share -/

/-- The connection has appended to the oplog in a transaction that is still open. -/
def ClockLock.heldBy (lock : ClockLock) (conn : ℕ) : Bool :=
  match lock with
  | .writer owner _ _ => decide (owner = conn)
  | _ => false

/-- A program that has not ended. -/
def InstallProgram.underWay : InstallProgram Unit → Bool
  | .ask _ _ => true
  | _ => false

/-- A program that has returned. -/
def InstallProgram.returned : InstallProgram Unit → Bool
  | .done _ => true
  | _ => false

/-- The server while `chimera_meta` is being installed.  The rows of a table that is not there are
none. -/
structure InstallServer where
  /-- The rows of the oplog, the clock and the history. -/
  server : OplogServer
  /-- The tables of `chimera_meta` that exist. -/
  tables : MetaTable → Bool
  /-- The procedures that exist. -/
  procedures : MetaProcedure → Bool
  /-- The clock table has its row. -/
  clockRow : Bool
  /-- The history table has its row. -/
  historyRow : Bool
  /-- Some collection has the triggers that call `oplog_append`. -/
  mirrored : Bool
  /-- The connections with an open transaction of their own. -/
  inTransaction : ℕ → Bool
  /-- The call that holds `g_schema_mutex`. -/
  mutex : Option ℕ
  /-- The call whose transaction has locked the clock row, and the history row it has inserted. -/
  seeding : Option (ℕ × Option History)
  /-- The calls, by the connection whose command makes them: what is left of the program. -/
  calls : ℕ → Option (InstallProgram Unit)

/-- What can happen. -/
inductive InstallAction where
  /-- A command of the connection calls `install_oplog_schema`. -/
  | call (conn : ℕ)
  /-- The next question of the connection's call is answered. -/
  | next (conn : ℕ)
  /-- The next statement of the call fails, for another reason than that its table is not there. -/
  | fail (conn : ℕ) (e : TranslatorError)
  /-- The client opens a transaction. -/
  | begin (conn : ℕ)
  /-- `chimera_adopt_table` creates triggers: a command calls it, or somebody by hand. -/
  | adopt
  /-- A statement of the connection makes a trigger call `oplog_append`. -/
  | append (conn : ℕ) (call : AppendCall)
  /-- The connection's transaction is committed or rolled back. -/
  | endTransaction (conn : ℕ) (keep : Bool)
  /-- The pruner, whose call has returned, begins a pass. -/
  | prune (conn maxRows maxAge : ℕ)
  /-- The pass performs its next statement, at this time. -/
  | pruneStep (now : ℕ)
  /-- The next statement of the pass fails. -/
  | pruneFail
  /-- The server crashes and comes up again. -/
  | crash

namespace InstallServer

/-- The connection waits for its call to end. -/
def underWay (s : InstallServer) (conn : ℕ) : Bool := (s.calls conn).any InstallProgram.underWay

/-- No other transaction holds the clock row. -/
def clockFree (s : InstallServer) (conn : ℕ) : Bool :=
  decide (s.server.lock = .free) && s.seeding.all fun seeding => decide (seeding.1 = conn)

/-- A definition takes effect. -/
def define (s : InstallServer) : Definition → InstallServer
  | .createMetaTable table => { s with tables := Function.update s.tables table true }
  | .createProcedure procedure =>
    { s with procedures := Function.update s.procedures procedure true }
  | _ => s

/-- The transaction on the session of the connection's call has ended. -/
def release (s : InstallServer) (conn : ℕ) : InstallServer :=
  { s with seeding := s.seeding.filter fun seeding => decide (seeding.1 ≠ conn) }

/-- A statement that reads a table, or fails because it is not there. -/
def reading {α : Type} (s : InstallServer) (table : MetaTable)
    (answer : Option (Except TranslatorError α × InstallServer)) :
    Option (Except TranslatorError α × InstallServer) :=
  if s.tables table then answer
  else some (.error (namespaceNotFound "Table doesn't exist".toList), s)

/-- A statement on the session of the connection's call.  It is `none` while the statement waits for
a lock. -/
def statement (s : InstallServer) (conn : ℕ) :
    (q : Sql) → Option (Except TranslatorError q.Result × InstallServer)
  | .historyRow => s.reading .oplogHistory (some (.ok s.historyRow, s))
  | .oplogTables => some (.ok (some (if s.tables .oplog then (1 : ℕ) else (0 : ℕ))), s)
  | .define (.createProcedure .oplogAppend) =>
    -- A transaction that has called the procedure holds its metadata lock.
    if s.server.lock = .free then some (.ok (), s.define (.createProcedure .oplogAppend)) else none
  | .define definition => some (.ok (), s.define definition)
  | .seedClock => s.reading .oplogClock
      (if s.clockRow then if s.clockFree conn then some (.ok (), s) else none
      else some (.ok (), { s with clockRow := true, server.clock := ⟨0, 0⟩ }))
  | .startTransaction => some (.ok (), s)
  | .lockClock => s.reading .oplogClock
      (if s.clockRow then
        if s.clockFree conn then
          some (.ok (some s.server.clock), { s with seeding := some (conn, none) })
        else none
      else some (.ok none, s))
  | .oldestRow => s.reading .oplog (some (.ok (!s.server.rows.isEmpty), s))
  | .seedHistory legacy => s.reading .oplogHistory
      (some (.ok (), { s with
        seeding := s.seeding.map fun (owner, history) =>
          if owner = conn ∧ !s.historyRow then
            (owner, some (seededHistory legacy s.server.rows))
          else (owner, history) }))
  | .commit =>
    some (.ok (), match s.seeding with
      | some (owner, some history) =>
        if owner = conn then
          { s with historyRow := true, server.history := history, seeding := none }
        else s
      | _ => s.release conn)
  | .rollback => some (.ok (), s.release conn)
  | _ => none

/-- The answer to a question of the connection's call, if it need not wait. -/
def answer (s : InstallServer) (conn : ℕ) :
    (q : InstallQuestion) → Option (q.Answer × InstallServer)
  | .lock => if s.mutex = none then some ((), { s with mutex := some conn }) else none
  | .unlock => some ((), { s with mutex := none })
  | .close =>
    -- The server rolls back a transaction whose session is gone.
    some ((), s.release conn)
  | .wire .connect => some (.ok (), s)
  | .wire .inTransaction => some (s.inTransaction conn, s)
  | .wire (.sql .own q) => s.statement conn q
  | .wire (.sql .connection _) | .wire (.registry _) => none

/-- The call goes on with the rest of its program. -/
def goOn (s : InstallServer) (conn : ℕ) (rest : InstallProgram Unit) : InstallServer :=
  { s with calls := Function.update s.calls conn (some rest) }

/-- The next question is answered. -/
def nextAnswer (s : InstallServer) (conn : ℕ) : Option InstallServer :=
  match s.calls conn with
  | some (.ask q next) => (s.answer conn q).map fun (r, s') => s'.goOn conn (next r)
  | _ => none

/-- The next statement fails. -/
def nextFailure (s : InstallServer) (conn : ℕ) (e : TranslatorError) : Option InstallServer :=
  match s.calls conn with
  | some (.ask (.wire .connect) next) => some (s.goOn conn (next (.error e)))
  | some (.ask (.wire (.sql _ _)) next) => some (s.goOn conn (next (.error e)))
  | _ => none

/-- Everything that `oplog_append` needs is there, and no call has locked the clock row. -/
def canAppend (s : InstallServer) : Bool :=
  s.mirrored && s.procedures .oplogAppend && s.tables .oplog && s.clockRow && s.seeding.isNone

/-- What happens. -/
def step (s : InstallServer) : InstallAction → Option InstallServer
  | .call conn =>
    -- A connection that is in the middle of a statement does not begin another command.
    if s.underWay conn || (s.server.lock.heldBy conn && !s.inTransaction conn) then none
    else some (s.goOn conn installUnderMutex)
  | .next conn => s.nextAnswer conn
  | .fail conn e => if e.code = 26 then none else s.nextFailure conn e
  | .begin conn =>
    if s.underWay conn || s.server.lock.heldBy conn then none
    else some { s with inTransaction := Function.update s.inTransaction conn true }
  | .adopt => if s.procedures .adoptTable then some { s with mirrored := true } else none
  | .append conn call =>
    if s.underWay conn || !s.canAppend then none
    else (s.server.step (.append conn call)).map fun server => { s with server := server }
  | .endTransaction conn keep =>
    if s.underWay conn then none
    else
      some { s with
        inTransaction := Function.update s.inTransaction conn false
        server :=
          (s.server.step (if keep then .commit conn else .rollback conn)).getD s.server }
  | .prune conn maxRows maxAge =>
    if (s.calls conn).any InstallProgram.returned then
      (s.server.step (.pruneStart maxRows maxAge)).map fun server => { s with server := server }
    else none
  | .pruneStep now =>
    if s.seeding.isNone then
      (s.server.step (.pruneStep now)).map fun server => { s with server := server }
    else none
  | .pruneFail => (s.server.step .pruneFail).map fun server => { s with server := server }
  | .crash =>
    some { s with
      server.lock := .free, server.pruning := .idle, inTransaction := fun _ => false
      mutex := none, seeding := none, calls := fun _ => none }

/-- A server that has just come up: an oplog of any content that is older than the history row, or
none yet. -/
structure Initial (s : InstallServer) : Prop where
  /-- Nobody is at work on the oplog. -/
  quiescent : s.server.Quiescent
  /-- Sequence numbers start at one. -/
  positive : 0 < s.server.autoIncrement ∧ ∀ r ∈ s.server.lost ++ s.server.rows, 0 < r.seq
  /-- There is no history row. -/
  unseeded : s.historyRow = false
  /-- A table that is not there has no rows. -/
  empty : s.tables .oplog = false → s.server.lost = [] ∧ s.server.rows = []
  /-- The clock row is in the clock table. -/
  clock : s.clockRow = true → s.tables .oplogClock = true
  /-- Without a clock row nothing was ever appended. -/
  unstamped : s.clockRow = false → s.server.lost = [] ∧ s.server.rows = []
  /-- No call is under way, and no transaction is open. -/
  quiet : s.mutex = none ∧ s.seeding = none ∧ (∀ conn, s.calls conn = none) ∧
    ∀ conn, s.inTransaction conn = false

end InstallServer

end Chimera

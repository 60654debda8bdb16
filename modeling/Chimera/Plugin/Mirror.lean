import Chimera.Foundations.Run
import Chimera.Plugin.Batches
import Chimera.Plugin.ReadFrame

/-!
# Mirrored tables

A collection is mirrored when its table has three triggers, which append a row to the oplog for
every document row that is inserted, updated or deleted.  `Collection::create` makes the table with
one statement and has the triggers installed by a procedure, with other statements in between; each
of them takes effect by itself, and any of them can fail.  What guards against a second create is
only that the table is there.
-/

namespace Chimera

open Interaction StepSystem

/-! ## Tables and triggers -/

/-- The table of a collection. -/
structure CollectionTable where
  /-- A `CREATE TABLE` of `Collection::create` made it. -/
  made : Bool
  /-- The triggers it has. -/
  triggers : OplogOp → Bool

/-- The three triggers are installed. -/
def CollectionTable.mirrored (t : CollectionTable) : Bool :=
  t.triggers .i && t.triggers .u && t.triggers .d

/-- The oplog rows that are appended for a changed row: the operation and the namespace. -/
def CollectionTable.append (t : CollectionTable) (op : OplogOp) (ns : Namespace) :
    List (OplogOp × Text) :=
  if t.triggers op then [(op, ns.text)] else []

/-- `CREATE OR REPLACE TRIGGER`. -/
def CollectionTable.install (t : CollectionTable) (op : OplogOp) : CollectionTable :=
  { t with triggers := Function.update t.triggers op true }

/-- A document row that a transaction has changed.  The metadata lock of the table is held to the
end of the transaction, so its triggers stay what they are. -/
structure RowChange where
  /-- The namespace. -/
  ns : Namespace
  /-- The operation. -/
  op : OplogOp
  /-- The table. -/
  table : CollectionTable
  /-- The oplog rows that the triggers have appended, in the same transaction. -/
  appended : List (OplogOp × Text)

/-- A changed row of a table that `Collection::create` made: the table has its three triggers, and
exactly one row was appended to the oplog. -/
def RowChange.Mirrored (c : RowChange) : Prop :=
  c.table.made = true → c.table.mirrored = true ∧ c.appended = [(c.op, c.ns.text)]

/-- What a statement does to the rows of a collection, if it changes them. -/
def Request.op : Request → Option OplogOp
  | .tableExists _ | .select _ _ _ => none
  | .insert _ => some .i
  | .replace _ => some .u
  | .delete _ _ | .deleteWhere _ _ => some .d

/-- The table whose rows a statement changes. -/
def Question.written : Question → Option Namespace
  | .sql .connection (.table q) => q.op.map fun _ => q.ns
  | _ => none

/-- The characters of `[A-Za-z0-9_$.-]`. -/
def adoptableChar (c : Char) : Bool :=
  c.isAlphanum || c = '_' || c = '$' || c = '.' || c = '-'

/-- What `chimera_adopt_table` does not refuse. -/
def adoptable (ns : Namespace) : Bool :=
  !ns.db.isEmpty && ns.db.all adoptableChar &&
    !ns.collection.isEmpty && ns.collection.all adoptableChar

/-- The triggers that `chimera_adopt_table` installs, in its order. -/
def adoptTriggers : List OplogOp := [.i, .u, .d]

/-! ## The system -/

/-- `cmd_create`. -/
def cmdCreate (ctx : Ctx) : WireProgram Doc := do
  let ns ← ofExcept ctx.ns
  createCollection ns false
  return [("ok".toList, .double okDouble)]

/-- `cmd_create_indexes`, up to where the collection is there.  What it does with the indexes is
left open. -/
def cmdCreateIndexes (ctx : Ctx) (rest : Namespace → Bool → WireProgram Doc) : WireProgram Doc :=
  match findField ctx.body "indexes".toList with
  | some (.array _) => do
    let ns ← ofExcept ctx.ns
    let there ← onCollection (askExists ns)
    createCollection ns false
    rest ns (!there)
  | _ => .fail (failedToParse "createIndexes requires an 'indexes' array".toList)

/-- No table of a collection is created. -/
def Question.NoTable (q : Question) : Prop :=
  ∀ ns, q ≠ .sql .connection (.define (.createTable ns))

/-- The commands.  Only the ones that are named here call `Collection::create`. -/
inductive MirrorCommand where
  | write (kind : WriteKind) (ctx : Ctx)
  | create (ctx : Ctx)
  | createIndexes (ctx : Ctx)
      (rest : Namespace → Bool → {x : WireProgram Doc // x.Asks Question.NoTable})
  | other (x : {x : WireProgram Doc // x.Asks Question.NoTable})

/-- The handler. -/
def MirrorCommand.program : MirrorCommand → WireProgram Doc
  | .write kind ctx => kind.program ctx
  | .create ctx => cmdCreate ctx
  | .createIndexes ctx rest => cmdCreateIndexes ctx fun ns created => (rest ns created).1
  | .other x => x.1

/-- The program has not ended. -/
def goesOn : WireProgram Doc → Bool
  | .ask _ _ => true
  | _ => false

/-- A connection. -/
structure MirrorConnection where
  /-- What its command has still to do. -/
  program : WireProgram Doc
  /-- The rows that its transaction has changed, if one is open. -/
  transaction : Option (List RowChange)
  /-- The triggers that its call of `chimera_adopt_table` has still to install. -/
  adopting : Option (List OplogOp)
  /-- The namespace whose table its command has made, until the third trigger is installed or the
  table is dropped.  Nobody reads this. -/
  making : Option Namespace

/-- The server and its connections. -/
structure MirrorSystem (ι : Type) where
  /-- The tables of the collections. -/
  tables : Namespace → Option CollectionTable
  /-- The connections. -/
  connections : ι → MirrorConnection
  /-- The transactions that were committed. -/
  committed : List (List RowChange)

/-- What can happen. -/
inductive MirrorAction (ι : Type) where
  /-- A connection begins a command. -/
  | start (i : ι) (command : MirrorCommand)
  /-- The command's question is answered; a statement that changes documents changes so many. -/
  | answer (i : ι) (reply : (q : Question) → q.Answer) (n : ℕ)
  /-- `chimera_adopt_table` is called, and looks at the names. -/
  | call (i : ι)
  /-- It installs its next trigger. -/
  | trigger (i : ι)
  /-- One of its statements fails. -/
  | fails (i : ι) (e : TranslatorError)
  /-- The connection is lost. -/
  | lose (i : ι)
  /-- `DROP TABLE`. -/
  | drop (i : ι) (ns : Namespace)
  /-- `DROP DATABASE`. -/
  | dropDatabase (i : ι) (db : Text)
  /-- The client opens a transaction with a statement of its own. -/
  | openTransaction (i : ι)
  /-- It changes so many rows with a statement of its own. -/
  | raw (i : ι) (ns : Namespace) (op : OplogOp) (n : ℕ)
  /-- It ends its transaction. -/
  | endTransaction (i : ι) (keep : Bool)

namespace MirrorSystem

variable {ι : Type} [DecidableEq ι]

/-- The connection is in the middle of a command. -/
def busy (s : MirrorSystem ι) (i : ι) : Bool := goesOn (s.connections i).program

/-- Change a connection. -/
def set (s : MirrorSystem ι) (i : ι) (c : MirrorConnection) : MirrorSystem ι :=
  { s with connections := Function.update s.connections i c }

/-- `COMMIT`, also an implicit one. -/
def commit (s : MirrorSystem ι) (i : ι) : MirrorSystem ι :=
  { s.set i { s.connections i with transaction := none } with
    committed := s.committed ++ (s.connections i).transaction.toList }

/-- `ROLLBACK`. -/
def rollback (s : MirrorSystem ι) (i : ι) : MirrorSystem ι :=
  s.set i { s.connections i with transaction := none }

/-- `START TRANSACTION` commits first. -/
def begin (s : MirrorSystem ι) (i : ι) : MirrorSystem ι :=
  (s.commit i).set i { s.connections i with transaction := some [] }

/-- A statement changes rows of a table; outside a transaction, it commits them. -/
def change (s : MirrorSystem ι) (i : ι) (ns : Namespace) (op : OplogOp) (n : ℕ) :
    Option (MirrorSystem ι) :=
  match s.tables ns with
  | none => none
  | some t =>
    let rows := List.replicate n ⟨ns, op, t, t.append op ns⟩
    match (s.connections i).transaction with
    | none => some { s with committed := s.committed ++ [rows] }
    | some before => some (s.set i { s.connections i with transaction := some (before ++ rows) })

/-- `CREATE TABLE IF NOT EXISTS`. -/
def createTable (s : MirrorSystem ι) (i : ι) (ns : Namespace) : MirrorSystem ι :=
  match s.tables ns with
  | some _ => s
  | none => { s.set i { s.connections i with making := some ns } with
      tables := Function.update s.tables ns (some ⟨true, fun _ => false⟩) }

/-- `CREATE OR REPLACE TRIGGER` on a table, which commits first. -/
def installTrigger (s : MirrorSystem ι) (i : ι) (ns : Namespace) (t : CollectionTable)
    (op : OplogOp) : MirrorSystem ι :=
  { s.commit i with tables := Function.update s.tables ns (some (t.install op)) }

/-- Tables are dropped. -/
def remove (s : MirrorSystem ι) (p : Namespace → Bool) : MirrorSystem ι :=
  { s with
    tables := fun ns => if p ns then none else s.tables ns
    connections := fun j =>
      { s.connections j with making := (s.connections j).making.filter fun ns => !p ns } }

/-- The command goes on; when it has ended, it makes no table any more. -/
def resume (s : MirrorSystem ι) (i : ι) (program : WireProgram Doc) : MirrorSystem ι :=
  s.set i { s.connections i with
    program := program
    adopting := none
    making := if goesOn program then (s.connections i).making else none }

/-- The answer to a question: a look into `information_schema.TABLES` finds the tables that are
there, and the session knows whether it is in a transaction. -/
def answer (s : MirrorSystem ι) (i : ι) (reply : (q : Question) → q.Answer) :
    (q : Question) → q.Answer
  | .sql .connection (.table (.tableExists ns)) =>
    match (reply (.sql .connection (.table (.tableExists ns))) : Except TranslatorError Bool) with
    | .error e => .error e
    | .ok _ => .ok (s.tables ns).isSome
  | .inTransaction => (s.connections i).transaction.isSome
  | q => reply q

/-- What a statement with this answer does.  A definition commits first.  The call of
`chimera_adopt_table` is not one step. -/
def effect (s : MirrorSystem ι) (i : ι) (n : ℕ) :
    (q : Question) → q.Answer → Option (MirrorSystem ι)
  | .sql .connection .startTransaction, .ok _ => some (s.begin i)
  | .sql .connection .commit, .ok _ => some (s.commit i)
  | .sql .connection .commit, .error _ => some (s.rollback i)
  | .sql .connection .rollback, _ => some (s.rollback i)
  | .sql .connection (.define (.createTable ns)), .ok _ => some ((s.commit i).createTable i ns)
  | .sql .connection (.define _), _ => some (s.commit i)
  | .sql .connection (.adopt _), _ => none
  | .sql .connection (.table q), .ok _ => q.op.elim (some s) fun op => s.change i q.ns op n
  | _, _ => some s

/-- One action. -/
def step (s : MirrorSystem ι) : MirrorAction ι → Option (MirrorSystem ι)
  | .start i command =>
    if s.busy i then none else some (s.resume i command.program)
  | .answer i reply n =>
    match (s.connections i).program with
    | .ask q next =>
      (s.effect i n q (s.answer i reply q)).map fun s' => s'.resume i (next (s.answer i reply q))
    | _ => none
  | .call i =>
    match (s.connections i).program with
    | .ask (.sql .connection (.adopt ns)) next =>
      if (s.connections i).adopting.isSome then none
      else if adoptable ns then
        some (s.set i { s.connections i with adopting := some adoptTriggers })
      else some (s.resume i (next (.error
        (internalError "chimera_adopt_table: unsupported identifier".toList))))
    | _ => none
  | .trigger i =>
    match (s.connections i).program, (s.connections i).adopting with
    | .ask (.sql .connection (.adopt ns)) next, some (op :: ops) =>
      match s.tables ns with
      | none => none
      | some t =>
        let s' := s.installTrigger i ns t op
        if ops = [] then
          some ((s'.set i { s'.connections i with making := none }).resume i (next (.ok ())))
        else some (s'.set i { s'.connections i with adopting := some ops })
    | _, _ => none
  | .fails i e =>
    match (s.connections i).program with
    | .ask (.sql .connection (.adopt _)) next => some (s.resume i (next (.error e)))
    | _ => none
  | .lose i => some ((s.rollback i).resume i
      (.fail (internalError "the connection was lost".toList)))
  | .drop i ns => if s.busy i then none else some ((s.commit i).remove fun ns' => ns' = ns)
  | .dropDatabase i db => if s.busy i then none else some ((s.commit i).remove fun ns => ns.db = db)
  | .openTransaction i => if s.busy i then none else some (s.begin i)
  | .raw i ns op n => if s.busy i then none else s.change i ns op n
  | .endTransaction i keep =>
    if s.busy i then none else some (if keep then s.commit i else s.rollback i)

/-! ## The condition and the property -/

/-- The connection's command has made the table of this namespace, and the table is not mirrored
yet. -/
def HalfMade (s : MirrorSystem ι) (i : ι) (ns : Namespace) : Prop :=
  (s.connections i).making = some ns ∧ ∃ t ∈ s.tables ns, t.mirrored = false

instance (s : MirrorSystem ι) (i : ι) (ns : Namespace) : Decidable (s.HalfMade i ns) :=
  inferInstanceAs (Decidable (_ ∧ ∃ t ∈ s.tables ns, t.mirrored = false))

/-- The connection's command has made a table that is not mirrored yet. -/
def Unfinished (s : MirrorSystem ι) (i : ι) : Prop :=
  ∃ ns ∈ (s.connections i).making, s.HalfMade i ns

instance (s : MirrorSystem ι) (i : ι) : Decidable (s.Unfinished i) :=
  inferInstanceAs (Decidable (∃ ns ∈ (s.connections i).making, s.HalfMade i ns))

/-- The condition on an action: no command stops between its `CREATE TABLE` and its third trigger
while the table is there, and no statement changes rows of a table while another command is between
the two. -/
def Undivided (s : MirrorSystem ι) : MirrorAction ι → Prop
  | .answer i reply n =>
    match (s.connections i).program with
    | .ask q next =>
      (goesOn (next (s.answer i reply q)) = false →
        ∀ s' ∈ s.effect i n q (s.answer i reply q), ¬ s'.Unfinished i) ∧
          ∀ ns ∈ q.written, ∀ j, j ≠ i → ¬ s.HalfMade j ns
    | _ => True
  | .call i =>
    match (s.connections i).program with
    | .ask (.sql .connection (.adopt ns)) _ => adoptable ns = false → ¬ s.Unfinished i
    | _ => True
  | .fails i _ | .lose i => ¬ s.Unfinished i
  | .raw i ns _ _ => ∀ j, j ≠ i → ¬ s.HalfMade j ns
  | _ => True

/-- Every row that was committed is mirrored. -/
def Mirrors (s : MirrorSystem ι) : Prop := ∀ tx ∈ s.committed, ∀ c ∈ tx, c.Mirrored

/-- No command has begun, no transaction is open, and the plugin has made no table. -/
structure Initial (s : MirrorSystem ι) : Prop where
  /-- The connections are idle. -/
  connections : ∀ i, s.connections i = ⟨.done [], none, none, none⟩
  /-- Tables that are there were made by somebody else. -/
  tables : ∀ ns t, s.tables ns = some t → t.made = false
  /-- Nothing has been committed. -/
  committed : s.committed = []

end MirrorSystem

/-! ## Programs that adopt what they create -/

/-- What a command may ask when it has created a table: on its connection, only to adopt it. -/
def mayAsk : Option Namespace → Question → Prop
  | none, _ => True
  | some ns, q => q = .sql .connection (.adopt ns) ∨ q.Elsewhere

/-- The table that a command has created and not adopted. -/
def noteTable : (q : Question) → q.Answer → Option Namespace → Option Namespace
  | .sql .connection (.define (.createTable ns)), .ok _, _ => some ns
  | .sql .connection (.adopt _), .ok _, _ => none
  | _, _, g => g

/-- The program adopts every table that it creates, unless it fails. -/
abbrev Adopts {α : Type} (x : WireProgram α) (g : Option Namespace) : Prop :=
  x.Obeys mayAsk noteTable g fun result g' => ∀ a, result = .ok a → g' = none

section Adopts

variable {α β : Type}

/-- Elsewhere nothing is noted. -/
lemma noteTable_of_elsewhere {q : Question} (h : q.Elsewhere) (r : q.Answer)
    (g : Option Namespace) : noteTable q r g = g := by
  match q with
  | .connect | .inTransaction | .registry _ | .sql .own _ => rfl
  | .sql .connection q => cases h

/-- Without a table, nothing is noted. -/
lemma noteTable_of_noTable {q : Question} (h : q.NoTable) (r : q.Answer) :
    noteTable q r none = none := by
  unfold noteTable
  split
  · exact absurd rfl (h _)
  · rfl
  · rfl

/-- What reads creates no table. -/
lemma Question.Reads.noTable {q : Question} (h : q.Reads) : q.NoTable := by
  rintro ns rfl
  have hreads := h _ rfl
  cases hreads

/-- A failure adopts nothing, and need not. -/
lemma adopts_fail (e : TranslatorError) (g : Option Namespace) :
    Adopts (.fail e : WireProgram α) g := by
  rintro a ⟨⟩

/-- A program that creates no table. -/
lemma adopts_of_noTable {x : WireProgram α} (hx : x.Asks Question.NoTable) : Adopts x none :=
  (hx.obeys (fun _ _ => trivial) fun _ r hq => noteTable_of_noTable hq r).weaken
    fun _ _ hg _ _ => hg

/-- A part that adopts what it creates, and the rest. -/
lemma adopts_bind {x : WireProgram α} {f : α → WireProgram β} {g : Option Namespace}
    (hx : Adopts x g) (hf : ∀ a, Adopts (f a) none) : Adopts (x >>= f) g := by
  refine Obeys.bind (hx.weaken fun result g' hg => ?_)
  cases result with
  | ok a =>
    obtain rfl := hg a rfl
    exact hf a
  | error e => rintro a ⟨⟩

/-- Two ways to go on. -/
lemma adopts_ite {c : Prop} [Decidable c] {x y : WireProgram α} {g : Option Namespace}
    (hx : Adopts x g) (hy : Adopts y g) : Adopts (if c then x else y) g := by
  by_cases hc : c
  · rwa [if_pos hc]
  · rwa [if_neg hc]

/-- A statement of the connection that creates no table. -/
lemma asks_noTable {q : Sql} (h : ∀ ns, q ≠ .define (.createTable ns)) :
    (sql q).Asks Question.NoTable :=
  asks_statement fun ns heq => by
    cases heq
    exact h ns rfl

/-- The operations of a collection create no table. -/
lemma asks_noTable_onCollection (x : SqlProgram α) : (onCollection x).Asks Question.NoTable :=
  asks_onCollection (asks_true x) fun _ _ _ => nofun

/-- Nor does an element of a batch. -/
lemma asks_noTable_runAtomically {body : WireProgram α} (hbody : body.Asks Question.NoTable)
    (stamp : Option Stamp) : (runAtomically body stamp).Asks Question.NoTable := by
  refine Asks.bind (asks_noTable fun _ h => by cases h).attempt fun begun => ?_
  cases begun with
  | error e => trivial
  | ok _ =>
    have hclock : currentOperationTime.Asks Question.NoTable :=
      asks_currentOperationTime.mono fun _ hq => hq.noTable
    have hpair : (do return (← body, ← currentOperationTime) : WireProgram (α × Stamp)).Asks
        Question.NoTable := Asks.bind hbody fun _ => Asks.bind hclock fun _ => trivial
    refine Asks.bind hpair.attempt fun result => ?_
    cases result with
    | error e =>
      refine Asks.bind (asks_noTable fun _ h => by cases h).attempt fun back => ?_
      cases back with
      | ok _ => trivial
      | error e' => trivial
    | ok a =>
      refine Asks.bind (asks_noTable fun _ h => by cases h).attempt fun done => ?_
      cases done with
      | ok _ => trivial
      | error e => trivial

/-- Nor do the elements together. -/
lemma asks_noTable_runBatch (L : Libbson) (ns : Namespace) (ordered : Bool)
    (elements : List (ℕ × Except TranslatorError WriteCommand)) (b : Batch) :
    (runBatch L ns ordered elements b).Asks Question.NoTable := by
  induction elements generalizing b with
  | nil => trivial
  | cons element elements ih =>
    obtain ⟨i, e | c⟩ := element
    · exact Asks.ite trivial (ih _)
    · refine Asks.bind (asks_noTable_runAtomically (asks_noTable_onCollection _) _) fun ended => ?_
      obtain ⟨e | outcome, stamp⟩ := ended
      · exact Asks.ite trivial (ih _)
      · exact ih _

/-- Nor does the time of the reply. -/
lemma asks_noTable_operationTimeField (stamp : Option Stamp) :
    (operationTimeField stamp).Asks Question.NoTable :=
  (asks_operationTimeField stamp).mono fun _ hq => hq.noTable

/-- **Creating a collection** adopts its table. -/
theorem adopts_createCollection (ns : Namespace) (errorIfExists : Bool) :
    Adopts (createCollection ns errorIfExists) none := by
  refine adopts_bind (adopts_of_noTable (asks_noTable_onCollection _)) fun there => ?_
  refine adopts_ite (adopts_ite (adopts_fail _ _) fun _ _ => rfl) ?_
  have hbootstrap : bootstrap.Asks Question.NoTable := asks_statements fun q hq ns heq => by
    cases heq
    simp at hq
  refine adopts_bind (adopts_of_noTable hbootstrap) fun _ => ?_
  refine adopts_bind (adopts_of_noTable (asks_noTable fun _ => nofun)) fun _ => ?_
  refine ⟨trivial, fun r => ?_⟩
  cases r with
  | error e => exact adopts_fail e _
  | ok _ =>
    -- The table is there; what is asked until it is adopted is asked elsewhere.
    have hschema : Obeys mayAsk noteTable installOplogSchema (some ns) fun _ g' => g' = some ns :=
      asks_installOplogSchema.obeys (fun _ hq => .inr hq) fun _ r hq =>
        noteTable_of_elsewhere hq r _
    change Adopts (installOplogTriggers ns) (some ns)
    refine Obeys.bind (hschema.weaken fun result g' hg => ?_)
    subst hg
    cases result with
    | error e => rintro a ⟨⟩
    | ok _ =>
      refine ⟨.inl rfl, fun r => ?_⟩
      cases r with
      | ok _ => exact fun _ _ => rfl
      | error e => exact adopts_fail e _

/-- What opens a batch command. -/
lemma adopts_opening (kind : BatchKind) (ns : Namespace) : Adopts (kind.opening ns) none := by
  have hcreate := adopts_bind (adopts_createCollection ns false) (f := fun _ => pure true)
    fun _ _ _ => rfl
  cases kind with
  | insert => exact hcreate
  | update => exact hcreate
  | delete => exact adopts_of_noTable (asks_noTable_onCollection _)

/-- `insert`, `update` and `delete`. -/
lemma adopts_handler (kind : BatchKind) (ctx : Ctx) : Adopts (kind.handler ctx) none := by
  by_cases hfields : ∃ fields, findField ctx.body kind.field = some (.array fields)
  · obtain ⟨fields, hfields⟩ := hfields
    rw [kind.handler_eq hfields]
    refine adopts_bind (adopts_of_noTable (Asks.ofExcept _)) fun ns => ?_
    refine adopts_bind (adopts_opening kind ns) fun there => adopts_of_noTable ?_
    refine Asks.bind (Asks.ite (asks_noTable_runBatch ..) trivial) fun b => ?_
    exact Asks.bind (asks_noTable_operationTimeField _) fun _ => trivial
  · obtain ⟨e, he⟩ := kind.handler_eq_fail fun fields h => hfields ⟨fields, h⟩
    rw [he]
    exact adopts_fail e _

/-- `findAndModify`. -/
lemma adopts_cmdFindAndModify (ctx : Ctx) : Adopts (cmdFindAndModify ctx) none := by
  have hclock : currentOperationTimeOrInitialize.Asks Question.NoTable :=
    asks_currentOperationTimeOrInitialize.mono fun _ hq => hq.noTable
  unfold cmdFindAndModify
  refine adopts_ite (adopts_fail _ _) ?_
  refine adopts_bind (adopts_of_noTable (Asks.ofExcept _)) fun ns => ?_
  refine adopts_ite (adopts_bind (adopts_createCollection ns false) fun _ => ?_) ?_
  -- whether the collection is created or not, and whether the clock is asked for or not
  all_goals
    refine adopts_of_noTable (Asks.ite (Asks.bind hclock fun _ => ?_) ?_)
    all_goals
      refine Asks.bind (asks_noTable_runAtomically (asks_noTable_onCollection _) _) fun ended => ?_
      refine Asks.bind (Asks.ofExcept _) fun outcome => ?_
      refine Asks.bind (Asks.ofExcept _) fun shaped => ?_
      exact Asks.bind (asks_noTable_operationTimeField _) fun _ => trivial

/-- `createIndexes`. -/
lemma adopts_cmdCreateIndexes (ctx : Ctx) {rest : Namespace → Bool → WireProgram Doc}
    (hrest : ∀ ns created, (rest ns created).Asks Question.NoTable) :
    Adopts (cmdCreateIndexes ctx rest) none := by
  unfold cmdCreateIndexes
  split
  · refine adopts_bind (adopts_of_noTable (Asks.ofExcept _)) fun ns => ?_
    refine adopts_bind (adopts_of_noTable (asks_noTable_onCollection _)) fun there => ?_
    exact adopts_bind (adopts_createCollection ns false) fun _ => adopts_of_noTable (hrest ..)
  · exact adopts_fail _ _

/-- **Every command** adopts the table that it creates, unless it fails. -/
theorem adopts_program (command : MirrorCommand) : Adopts command.program none := by
  cases command with
  | write kind ctx =>
    cases kind with
    | insert => exact adopts_handler .insert ctx
    | update => exact adopts_handler .update ctx
    | delete => exact adopts_handler .delete ctx
    | findAndModify => exact adopts_cmdFindAndModify ctx
  | create ctx =>
    refine adopts_bind (adopts_of_noTable (Asks.ofExcept _)) fun ns => ?_
    exact adopts_bind (adopts_createCollection ns false) fun _ _ _ => rfl
  | createIndexes ctx rest =>
    exact adopts_cmdCreateIndexes ctx fun ns created => (rest ns created).2
  | other x => exact adopts_of_noTable x.2

end Adopts

end Chimera

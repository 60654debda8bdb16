import Chimera.Plugin.ReadCommands

/-!
# Reading leaves the transaction alone

A client may have opened a transaction with `chimeraSql` and then send commands that read, on the
same connection and therefore on the same session.  Whatever the server answers, the transaction
is afterwards as it was, except after `listDatabases` and `listCollections`: these two define the
catalog's tables on the client's session, and a definition commits.
-/

namespace Chimera

open Interaction

/-! ## The transaction of a session -/

/-- What a session has committed and what it has not. -/
structure SessionTransaction where
  /-- The statements of the open transaction that have changed something. -/
  pending : Option (List Sql)
  /-- The statements that are committed. -/
  committed : List Sql

namespace SessionTransaction

/-- The open transaction is committed, if there is one. -/
def commitPending (t : SessionTransaction) : SessionTransaction :=
  ⟨none, t.committed ++ t.pending.getD []⟩

/-- Run a statement.  A definition commits first, and so does `START TRANSACTION`. -/
def after (t : SessionTransaction) (q : Sql) : SessionTransaction :=
  match q with
  | .startTransaction | .startReadOnly => { t.commitPending with pending := some [] }
  | .commit => t.commitPending
  | .rollback => { t with pending := none }
  | .define _ | .adopt _ => { t.commitPending with committed := t.commitPending.committed ++ [q] }
  | q =>
    if q.reads then t
    else match t.pending with
      | some changes => { t with pending := some (changes ++ [q]) }
      | none => { t with committed := t.committed ++ [q] }

/-- Note a question, whatever its answer. -/
def note (q : Question) (_ : q.Answer) (t : SessionTransaction) : SessionTransaction :=
  match q.onConnection with
  | some s => t.after s
  | none => t

end SessionTransaction

/-- The programs of this module, observed.  There is no condition on the answers. -/
abbrev Leaves {α : Type} (x : WireProgram α) (t : SessionTransaction)
    (Post : SessionTransaction → Prop) : Prop :=
  x.Ensures (fun _ _ => True) SessionTransaction.note t fun _ t' => Post t'

/-- A statement that reads leaves the transaction as it is. -/
lemma SessionTransaction.after_of_reads {q : Sql} (hq : q.reads = true) (t : SessionTransaction) :
    t.after q = t := by
  cases q with
  | table q => exact if_pos hq
  | startTransaction | startReadOnly | commit | rollback | define _ | adopt _ | seedClock
  | seedHistory _ | lockClock | raw _ => cases hq
  | _ => rfl

/-- What reads leaves the transaction as it is. -/
lemma SessionTransaction.note_of_reads {q : Question} (hq : q.Reads) (r : q.Answer)
    (t : SessionTransaction) : note q r t = t := by
  unfold note
  cases hs : q.onConnection with
  | none => rfl
  | some s => exact after_of_reads (hq s hs) t

/-- A program that reads leaves the transaction as it is. -/
lemma leaves_of_reads {α : Type} {x : WireProgram α} (hx : x.Asks Question.Reads)
    (t : SessionTransaction) : Leaves x t fun t' => t' = t :=
  hx.ensures (fun _ r t' hq _ heq => (SessionTransaction.note_of_reads hq r t').trans heq) rfl

/-! ## The commands that only read -/

/-- A statement that reads. -/
lemma asks_read {q : Sql} (hq : q.reads = true) : (sql q).Asks Question.Reads := by
  refine asks_statement fun s hs => ?_
  cases hs
  exact hq

/-- A call of the registry is no statement. -/
lemma asks_registry (call : RegistryCall) : (registry call).Asks Question.Reads :=
  ⟨by rintro _ ⟨⟩, fun _ => trivial⟩

/-- Looking for a table. -/
lemma asks_askExists (ns : Namespace) : (askExists ns).Asks fun q => q.isRead = true :=
  ⟨rfl, fun _ => trivial⟩

/-- Insisting on a table. -/
lemma asks_requireExists (ns : Namespace) :
    (requireExists ns).Asks fun q => q.isRead = true :=
  Asks.bind (asks_askExists ns) fun _ => Asks.ite trivial trivial

/-- Loading documents. -/
lemma asks_load (L : Libbson) (ns : Namespace) (filter : Doc) :
    (load L ns filter).Asks fun q => q.isRead = true := by
  refine Asks.bind (asks_requireExists ns) fun _ => ?_
  refine Asks.bind (Asks.ofExcept _) fun cond => ?_
  exact Asks.bind ⟨rfl, fun _ => trivial⟩ fun rows => Asks.ofExcept _

/-- A program that reads a collection. -/
lemma reads_onCollection {α : Type} {x : SqlProgram α} (hx : x.Asks fun q => q.isRead = true) :
    (onCollection x).Asks Question.Reads := by
  refine asks_onCollection hx fun q hq s hs => ?_
  cases hs
  exact hq

/-- The time of a reply. -/
lemma asks_operationTimeField (stamp : Option Stamp) :
    (operationTimeField stamp).Asks Question.Reads := by
  cases stamp with
  | some ts => trivial
  | none => exact Asks.bind asks_currentOperationTimeOrInitialize fun now => trivial

/-- The first batch and the cursor of `find`. -/
lemma asks_findReply {single : Prop} [Decidable single] {ns : Text} {rest : List Doc}
    {reply : ℤ → Doc} :
    (do
      let id ← if single then pure (0 : ℤ) else registry (.openCursor ns rest)
      return reply id : WireProgram Doc).Asks Question.Reads :=
  Asks.ite trivial (Asks.bind (asks_registry _) fun _ => trivial)

/-- `find` on a collection. -/
lemma asks_findCollection (ctx : Ctx) (ns : Namespace) :
    (findCollection ctx ns).Asks Question.Reads := by
  refine Asks.bind (reads_onCollection (asks_askExists ns)) fun there => Asks.ite ?_ ?_
  · refine Asks.bind (reads_onCollection (asks_load _ ns _)) fun found => ?_
    exact Asks.bind (Asks.ofExcept _) fun documents => asks_findReply
  · exact asks_findReply

/-- `count`. -/
lemma asks_cmdCount (ctx : Ctx) : (cmdCount ctx).Asks Question.Reads := by
  refine Asks.bind (Asks.ofExcept _) fun ns => ?_
  refine Asks.bind (reads_onCollection (asks_askExists ns)) fun there => Asks.ite ?_ trivial
  refine Asks.bind (Asks.ofExcept _) fun cond => ?_
  exact Asks.bind (asks_read rfl) fun found => trivial

/-- `distinct`. -/
lemma asks_cmdDistinct (ctx : Ctx) : (cmdDistinct ctx).Asks Question.Reads := by
  refine Asks.ite trivial (Asks.bind (Asks.ofExcept _) fun ns => ?_)
  refine Asks.bind (reads_onCollection (asks_askExists ns)) fun there => Asks.ite ?_ trivial
  refine Asks.bind (Asks.ofExcept _) fun path => ?_
  exact Asks.bind (reads_onCollection (asks_load _ ns _)) fun documents => trivial

/-- Reading the oplog. -/
lemma asks_readOplog (L : Libbson) (filter : Doc) (afterSeq limit : ℕ) (newestFirst : Bool) :
    (Wire.readOplog L filter afterSeq limit newestFirst).Asks Question.Reads := by
  refine Asks.bind (Asks.ofExcept _) fun cond => ?_
  exact Asks.bind (asks_read rfl) fun rows => Asks.bind (Asks.ofExcept _) fun _ => trivial

/-- Checking the retained history. -/
lemma asks_requireChangeStreamHistory (afterSeq : ℕ) :
    (Wire.requireChangeStreamHistory afterSeq).Asks Question.Reads := by
  refine Asks.bind (asks_read rfl) fun floor => ?_
  match floor with
  | none => trivial
  | some (floor, written) => exact Asks.ite trivial trivial

/-- Reading events. -/
lemma asks_readChangestream (L : Libbson) (ns : Namespace) (afterSeq limit : ℕ) :
    (Wire.readChangestream L ns afterSeq limit).Asks Question.Reads := by
  refine Asks.bind (asks_read rfl) fun rows => Asks.bind (Asks.ofExcept _) fun events => ?_
  exact Asks.bind (asks_requireChangeStreamHistory afterSeq) fun _ => trivial

/-- Resolving where a change stream begins. -/
lemma asks_resolveChangeStreamStart (start : ChangeStreamStart) :
    (Wire.resolveChangeStreamStart start).Asks Question.Reads := by
  cases start with
  | token afterSeq => trivial
  | head => exact asks_read rfl
  | operationTime ts =>
    refine Asks.bind (asks_read rfl) fun found => ?_
    match found with
    | none => trivial
    | some (before, history) => exact Asks.ite trivial trivial

/-- Installing the schema happens elsewhere. -/
lemma reads_installOplogSchema : installOplogSchema.Asks Question.Reads :=
  asks_installOplogSchema.mono fun _ hq => hq.reads

/-- `find` on the oplog. -/
lemma asks_findOplog (ctx : Ctx) (ns : Namespace) : (findOplog ctx ns).Asks Question.Reads := by
  refine Asks.bind reads_installOplogSchema fun _ => ?_
  refine Asks.bind (asks_read rfl) fun head => ?_
  refine Asks.bind (asks_readOplog _ _ _ _ _) fun found => Asks.ite trivial ?_
  exact Asks.bind (asks_registry _) fun id => trivial

/-- One look of a tailing `getMore`. -/
lemma asks_pollTail (L : Libbson) (ns : Namespace) (tail : TailEntry) (wanted : ℕ) :
    (pollTail L ns tail wanted).Asks Question.Reads := by
  refine Asks.bind (asks_read rfl) fun head => Asks.ite ?_ ?_
  · exact Asks.bind (asks_readChangestream L ns _ _) fun found => trivial
  · exact Asks.bind (asks_readOplog L _ _ _ _) fun found => trivial

/-- All its looks. -/
lemma asks_pollLoop (L : Libbson) (ns : Namespace) (tail : TailEntry) (wanted polls : ℕ) :
    (pollLoop L ns tail wanted polls).Asks Question.Reads := by
  induction polls with
  | zero => exact asks_pollTail L ns tail wanted
  | succ polls ih =>
    exact Asks.bind (asks_pollTail L ns tail wanted) fun found => Asks.ite trivial ih

/-- `getMore`. -/
lemma asks_cmdGetMore (ctx : ReadCtx) : (cmdGetMore ctx).Asks Question.Reads := by
  unfold cmdGetMore
  split
  · trivial
  refine Asks.ite trivial (Asks.bind (Asks.ofExcept _) fun ns => ?_)
  refine Asks.bind (asks_registry _) fun tail => ?_
  match tail with
  | some tail =>
    refine Asks.bind (asks_pollLoop _ ns tail _ _) fun found => ?_
    refine Asks.bind (asks_registry _) fun _ => Asks.ite trivial ?_
    exact Asks.bind (asks_operationTimeField none) fun time => trivial
  | none =>
    refine Asks.bind (asks_registry _) fun batch => ?_
    match batch with
    | .error e => trivial
    | .ok (batch, exhausted) => trivial

/-- `killCursors`. -/
lemma asks_killAll (cursors : List Value) : (killAll cursors).Asks Question.Reads := by
  induction cursors with
  | nil => trivial
  | cons v cursors ih =>
    refine Asks.ite ih (Asks.bind (asks_registry _) fun killed => ?_)
    exact Asks.bind ih fun rest => trivial

/-- Opening a change stream. -/
lemma asks_openChangeStream (ctx : ReadCtx) (stages : List Doc) :
    (openChangeStream ctx stages).Asks Question.Reads := by
  refine Asks.ite trivial (Asks.ite trivial (Asks.bind (Asks.ofExcept _) fun ns => ?_))
  refine Asks.ite trivial (Asks.bind (Asks.ofExcept _) fun stage => ?_)
  obtain ⟨name, body⟩ := stage
  cases body with
  | document options =>
    refine Asks.bind (Asks.ofExcept _) fun start => ?_
    refine Asks.bind reads_installOplogSchema fun _ => ?_
    refine Asks.bind (asks_resolveChangeStreamStart start) fun afterSeq => ?_
    refine Asks.bind (asks_requireChangeStreamHistory afterSeq) fun _ => ?_
    refine Asks.bind (asks_registry _) fun id => ?_
    exact Asks.bind (asks_operationTimeField none) fun time => trivial
  | _ => trivial

/-- The pipeline of the command begins with `$sql`. -/
def ReadCtx.ReadsSql (ctx : ReadCtx) : Prop :=
  ∃ stages, pipelineStages (ctx.subDocument "pipeline".toList) = .ok stages ∧
    firstStage stages = .ok "$sql".toList

/-- The documents of a pipeline that does not begin with `$sql`. -/
lemma asks_aggregateDocuments {ctx : ReadCtx} {stages : List Doc}
    (hsql : firstStage stages ≠ .ok "$sql".toList) :
    (aggregateDocuments ctx stages).Asks Question.Reads := by
  refine Asks.ofExcept_bind fun name hname => ?_
  have hother : name ≠ "$sql".toList := by
    rintro rfl
    exact hsql hname
  rw [if_neg hother]
  refine Asks.bind (Asks.ofExcept _) fun plan => Asks.bind (Asks.ofExcept _) fun ns => ?_
  refine Asks.bind (reads_onCollection (asks_askExists ns)) fun there => Asks.ite ?_ ?_
  · refine Asks.bind (reads_onCollection (asks_load _ ns _)) fun found => ?_
    exact Asks.bind (Asks.ofExcept _) fun documents => trivial
  · have hnone : (pure [] : WireProgram (List Doc)).Asks Question.Reads := trivial
    exact Asks.bind hnone fun found => Asks.bind (Asks.ofExcept _) fun documents => trivial

/-- `aggregate`, without `$sql`. -/
lemma asks_cmdAggregate {ctx : ReadCtx} (hsql : ¬ ctx.ReadsSql) :
    (cmdAggregate ctx).Asks Question.Reads := by
  refine Asks.ofExcept_bind fun stages hstages => Asks.bind (Asks.ofExcept _) fun name => ?_
  refine Asks.ite (asks_openChangeStream ctx stages) (Asks.bind (Asks.ofExcept _) fun _ => ?_)
  have hfirst : firstStage stages ≠ .ok "$sql".toList := fun h => hsql ⟨stages, hstages, h⟩
  exact Asks.bind (asks_aggregateDocuments hfirst) fun found => asks_findReply

/-! ## The commands that define the catalog -/

/-- The command defines the tables of the catalog before it reads them. -/
def ReadKind.bootstraps : ReadKind → Bool
  | .listDatabases | .listCollections => true
  | _ => false

/-- Every command but these two only reads. -/
theorem asks_readKind {ctx : ReadCtx} {kind : ReadKind} (hkind : kind.bootstraps = false)
    (hsql : kind = .aggregate → ¬ ctx.ReadsSql) : (kind.program ctx).Asks Question.Reads := by
  cases kind with
  | hello => trivial
  | ping => exact Asks.bind (asks_operationTimeField none) fun time => trivial
  | find =>
    refine Asks.bind (Asks.ofExcept _) fun ns => ?_
    exact Asks.ite (asks_findOplog _ ns) (asks_findCollection _ ns)
  | getMore => exact asks_cmdGetMore ctx
  | killCursors => exact Asks.bind (asks_killAll _) fun results => trivial
  | count => exact asks_cmdCount _
  | aggregate => exact asks_cmdAggregate (hsql rfl)
  | distinct => exact asks_cmdDistinct _
  | listDatabases => cases hkind
  | listCollections => cases hkind
  | listIndexes =>
    refine Asks.bind (Asks.ofExcept _) fun ns => Asks.bind ?_ fun specs => trivial
    refine Asks.bind (reads_onCollection (asks_requireExists ns)) fun _ => ?_
    exact Asks.bind (asks_read rfl) fun rows => Asks.bind (Asks.ofExcept _) fun specs => trivial

/-- The question is a definition on the connection, or it only reads. -/
def Question.DefinesOrReads (q : Question) : Prop :=
  q.Reads ∨ ∃ d, q.onConnection = some (.define d)

/-- Definitions and reads leave no transaction open where there is none. -/
lemma leaves_closed {α : Type} {x : WireProgram α} (hx : x.Asks Question.DefinesOrReads)
    {t : SessionTransaction} (ht : t.pending = none) : Leaves x t fun t' => t'.pending = none := by
  refine hx.ensures (fun q r t' hq _ ht' => ?_) ht
  obtain hreads | ⟨d, hd⟩ := hq
  · rw [SessionTransaction.note_of_reads hreads]
    exact ht'
  · unfold SessionTransaction.note
    rw [hd]
    rfl

/-- What follows `bootstrap` in a command that only reads afterwards. -/
lemma leaves_bootstrap {k : WireProgram Doc} (hk : k.Asks Question.Reads)
    (t : SessionTransaction) :
    Leaves (bootstrap >>= fun _ => k) t fun t' => t'.pending = none := by
  have hrest : (statements .connection
      [.define (.createMetaTable .collections), .define (.createMetaTable .indexes),
        .define (.createDatabase "chimera_meta".toList), .define (.createMetaTable .projections),
        .define (.createProcedure .addProjection)] >>= fun _ => k).Asks
      Question.DefinesOrReads := by
    refine Asks.bind (asks_statements fun q hq => ?_) fun _ => hk.mono fun q hq => .inl hq
    have hdefine : ∃ d, q = .define d := by
      simp only [List.mem_cons, List.not_mem_nil, or_false] at hq
      rcases hq with rfl | rfl | rfl | rfl | rfl <;> exact ⟨_, rfl⟩
    obtain ⟨d, rfl⟩ := hdefine
    exact .inr ⟨d, rfl⟩
  -- The first definition closes the transaction, whatever its answer.
  intro r _
  cases r with
  | ok u => exact leaves_closed hrest rfl
  | error e => rfl

/-- `listDatabases` and `listCollections` close the transaction. -/
lemma leaves_of_bootstraps {ctx : ReadCtx} {kind : ReadKind} (hkind : kind.bootstraps = true)
    (t : SessionTransaction) :
    Leaves (kind.program ctx) t fun t' => t'.pending = none := by
  cases kind with
  | listDatabases | listCollections =>
    refine leaves_bootstrap ?_ t
    exact Asks.bind (asks_read rfl) fun names => trivial
  | _ => cases hkind

/-- **Which commands leave the transaction alone.**  A transaction is open on the connection, and
a command that does not write is sent on it.  Whatever the server answers, when the command has
been answered the transaction is what it was if and only if the command is neither
`listDatabases` nor `listCollections`. -/
theorem leaves_transaction_iff {ctx : ReadCtx} {kind : ReadKind}
    (hsql : kind = .aggregate → ¬ ctx.ReadsSql) {t : SessionTransaction}
    (hopen : t.pending.isSome = true) :
    Leaves (dispatched (kind.program ctx)) t fun t' =>
      t' = t ↔ kind ≠ .listDatabases ∧ kind ≠ .listCollections := by
  have hiff : kind ≠ .listDatabases ∧ kind ≠ .listCollections ↔ kind.bootstraps = false := by
    cases kind <;> simp [ReadKind.bootstraps]
  have hprogram : Leaves (kind.program ctx) t fun t' => t' = t ↔ kind.bootstraps = false := by
    cases hkind : kind.bootstraps with
    | false =>
      refine (leaves_of_reads (asks_readKind hkind hsql) t).weaken fun _ t' heq => ?_
      exact iff_of_true heq rfl
    | true =>
      refine (leaves_of_bootstraps hkind t).weaken fun _ t' hnone => ?_
      refine iff_of_false (fun heq => ?_) (by simp)
      rw [← heq, hnone] at hopen
      cases hopen
  refine Ensures.bind (Ensures.attempt (hprogram.weaken fun result t' h => ?_))
  cases result with
  | ok reply => exact h.trans hiff.symm
  | error e => exact h.trans hiff.symm

/-- A command with the given first field, on a connection that may write through `chimeraSql`. -/
def plainRead (name : String) (argument : Value) : ReadCtx where
  body := [(name.toList, argument)]
  db := "app".toList
  argument := "items".toList
  L := .ofStrings
  oids _ := 0
  identity := ⟨"localhost:27017".toList, 0⟩
  connectionId := 1
  now := 0
  polls := 0
  runStages documents _ := .ok documents
  gateway := ⟨false, true⟩

/-- The insert of a client's open transaction. -/
def plainInsert : Sql := .raw "INSERT INTO app.items VALUES ('sa', '\x7b\x7d')".toList

/-- Counting leaves an open transaction with one insert as it is. -/
theorem leaves_transaction_iff_count :
    Leaves (dispatched (ReadKind.count.program (plainRead "count" (.utf8 "items".toList))))
      ⟨some [plainInsert], []⟩ fun t' => t' = ⟨some [plainInsert], []⟩ := by
  have hkind : ReadKind.count ≠ .listDatabases ∧ ReadKind.count ≠ .listCollections := by decide
  have hiff : Leaves
      (dispatched (ReadKind.count.program (plainRead "count" (.utf8 "items".toList))))
      ⟨some [plainInsert], []⟩ fun t' => t' = ⟨some [plainInsert], []⟩ ↔
        ReadKind.count ≠ .listDatabases ∧ ReadKind.count ≠ .listCollections :=
    leaves_transaction_iff (by rintro ⟨⟩) rfl
  exact hiff.weaken fun _ _ h => h.2 hkind

/-- A server on which every statement succeeds, and what a session's transaction becomes. -/
def agreeingServer : Handler TranslatorError Question Question.Answer SessionTransaction :=
  fun q t => .ok (q.agree, t.note q q.agree)

/-- Listing the databases commits the insert of the client's transaction and closes it. -/
theorem listDatabases_commits :
    ∃ reply t', (dispatched (ReadKind.listDatabases.program
        (plainRead "listDatabases" (.int32 1)))).run agreeingServer ⟨some [plainInsert], []⟩ =
        .ok (reply, t') ∧
      t'.pending = none ∧ plainInsert ∈ t'.committed :=
  ⟨_, _, rfl, rfl, List.mem_cons_self⟩

end Chimera

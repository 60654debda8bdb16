import Chimera.Plugin.Batches
import Chimera.Plugin.ReadCommands
import Chimera.Translator.ExtendedJson
import Chimera.Translator.Mongosh

/-!
# The shell gateway

`mongo('<database>', '<statement>')` reads a shell statement, dispatches the command it becomes,
and makes an error of a reply that is not `ok`.  A write whose elements fail has a reply that is
`ok`, with the errors in `writeErrors`.
-/

namespace Chimera

open Interaction

/-! ## Dispatch -/

/-- The commands whose handlers are modelled. -/
inductive ServedCommand where
  | read (kind : ReadKind)
  | write (kind : WriteKind)

/-- The names of the commands. -/
def ServedCommand.named : List (Text × ServedCommand) :=
  [("hello".toList, .read .hello), ("isMaster".toList, .read .hello),
    ("ismaster".toList, .read .hello), ("ping".toList, .read .ping), ("find".toList, .read .find),
    ("getMore".toList, .read .getMore), ("killCursors".toList, .read .killCursors),
    ("count".toList, .read .count), ("aggregate".toList, .read .aggregate),
    ("distinct".toList, .read .distinct), ("insert".toList, .write .insert),
    ("update".toList, .write .update), ("delete".toList, .write .delete),
    ("findAndModify".toList, .write .findAndModify),
    ("findandmodify".toList, .write .findAndModify),
    ("listDatabases".toList, .read .listDatabases),
    ("listCollections".toList, .read .listCollections),
    ("listIndexes".toList, .read .listIndexes)]

/-- What `dispatch_command` works with.  The handlers of the commands that have no name here are
left open. -/
structure Dispatcher where
  /-- What the handlers need, for any command. -/
  env : ReadCtx
  /-- The handlers of the other commands. -/
  others : Text → ReadCtx → WireProgram Doc

/-- The context of a command. -/
def Dispatcher.context (D : Dispatcher) (body : Doc) (db : Text) : ReadCtx where
  toCtx := {
    body := body
    db := db
    argument := match body with
      | (_, .utf8 s) :: _ => s
      | _ => []
    L := D.env.L
    oids := D.env.oids }
  identity := D.env.identity
  connectionId := D.env.connectionId
  now := D.env.now
  polls := D.env.polls
  runStages := D.env.runStages
  gateway := D.env.gateway

/-- The handler of a command. -/
def Dispatcher.handler (D : Dispatcher) (command : Text) (ctx : ReadCtx) : WireProgram Doc :=
  match (ServedCommand.named.find? fun entry => entry.1 = command).map Prod.snd with
  | some (.read kind) => kind.program ctx
  | some (.write kind) => kind.program ctx.toCtx
  | none => D.others command ctx

/-- `dispatch_command`: the first field names the command. -/
def Dispatcher.dispatch (D : Dispatcher) (body : Doc) (db : Text) : WireProgram Doc :=
  match body with
  | [] => return errorReply (failedToParse "command document is empty".toList)
  | (command, _) :: _ => dispatched (D.handler command (D.context body db))

/-! ## The gateway -/

/-- The error that a reply which is not `ok` carries. -/
def replyError (reply : Doc) : TranslatorError where
  code := match findField reply "code".toList with
    | none => 1
    | some (.int32 n) => n.toInt.toNat
    | some _ => 0
  codeName := match findField reply "codeName".toList with
    | some (.utf8 s) => s
    | _ => "InternalError".toList
  message := match findField reply "errmsg".toList with
    | some (.utf8 s) => s
    | _ => "the command failed".toList

/-- The reply has the field `ok`, and it is one. -/
def isOk (reply : Doc) : Except TranslatorError Bool :=
  match findField reply "ok".toList with
  | some v => do return (← valueAsDouble v).numEq okDouble
  | none => return false

/-- `run_command`. -/
def Dispatcher.runCommand (D : Dispatcher) (command : Doc) (db : Text) : WireProgram Doc := do
  let reply ← D.dispatch command db
  if ← ofExcept (isOk reply) then return reply
  else .fail (replyError reply)

/-- The documents of a batch of a cursor. -/
def cursorBatch (cursor : Doc) (batchName : Text) : List Doc :=
  ((viewField cursor batchName).getD []).map fun (_, element) => element.subdocument.getD []

/-- The command that asks for the next batch of a cursor. -/
def getMoreCommand (cursor : Doc) (id : Int64) : Doc :=
  let ns := textField cursor "ns".toList
  let collection := match ns.dropWhile fun c => c ≠ '.' with
    | [] => ns
    | _ :: rest => rest
  [("getMore".toList, .int64 id), ("collection".toList, .utf8 collection)]

/-- The documents of a reply, and the command that asks for more when the cursor is open. -/
def cursorPage (batchName : Text) (reply : Doc) : List Doc × Option Doc :=
  match viewField reply "cursor".toList with
  | none => ([], none)
  | some cursor =>
    let more := match findField cursor "id".toList with
      | some (.int64 id) => if id = 0 then none else some (getMoreCommand cursor id)
      | _ => none
    (cursorBatch cursor batchName, more)

/-- `collect_cursor`, for at most the given number of further batches. -/
def Dispatcher.collectCursor (D : Dispatcher) (db : Text) :
    ℕ → Text → Doc → WireProgram (List Doc)
  | 0, batchName, reply => return (cursorPage batchName reply).1
  | rounds + 1, batchName, reply =>
    match cursorPage batchName reply with
    | (documents, none) => return documents
    | (documents, some command) => do
      let more ← D.runCommand command db
      return documents ++ (← D.collectCursor db rounds "nextBatch".toList more)

/-- `to_extjson`. -/
def Dispatcher.render (D : Dispatcher) (document : Doc) : WireProgram Json :=
  ofExcept (D.env.L.toExtjson document)

/-- What the caller is given: `ShellResult`. -/
def Dispatcher.present (D : Dispatcher) (db : Text) (rounds : ℕ) (reply : Doc) :
    ShellResult → WireProgram Json
  | .documents => do
    let documents ← D.collectCursor db rounds "firstBatch".toList reply
    return .arr (← documents.mapM D.render)
  | .firstDocument => do
    match ← D.collectCursor db rounds "firstBatch".toList reply with
    | [] => return .null
    | document :: _ => D.render document
  | .count =>
    match findField reply "n".toList with
    | none => return .int 0
    | some v => do return .int (← ofExcept (valueAsDouble v)).truncate
  | .reply => D.render reply

/-- `run_mongo_gateway`. -/
def Dispatcher.runMongoGateway (D : Dispatcher) (rounds : ℕ) (db statement : Text) :
    WireProgram Json := do
  if db.isEmpty then
    .fail (badValue ("mongo() needs a database: USE one first, or call " ++
      "mongo('<database>', '<statement>')").toList)
  let call ← ofExcept (parseShellCall statement)
  let command ← ofExcept (buildShellCommand call)
  let reply ← D.runCommand command.command db
  D.present db rounds reply command.result

/-! ## Writes through the gateway -/

/-- The verb writes. -/
def ShellCall.Writes (call : ShellCall) : Prop :=
  (call.verb = "insertOne".toList ∨ call.verb = "insertMany".toList) ∨
    (call.verb = "updateOne".toList ∨ call.verb = "updateMany".toList ∨
      call.verb = "replaceOne".toList) ∨
    (call.verb = "deleteOne".toList ∨ call.verb = "deleteMany".toList)

/-- A verb that writes is not one that finds. -/
lemma ShellCall.Writes.not_find {call : ShellCall} (hwrite : call.Writes) :
    ¬ (call.verb = "find".toList ∨ call.verb = "findOne".toList) := by
  unfold ShellCall.Writes at hwrite
  rintro (h | h)
  · rw [h] at hwrite
    revert hwrite
    decide
  · rw [h] at hwrite
    revert hwrite
    decide

/-- The command of a batch, as the shell spells it. -/
def BatchKind.command (kind : BatchKind) (collection : Text) (fields : Doc) : Doc :=
  [(kind.name, .utf8 collection), (kind.field, .array fields)]

/-- What an insert inserts is an array. -/
lemma insertedDocuments_eq_ok {call : ShellCall} {v : Value}
    (h : insertedDocuments call = .ok v) : ∃ fields, v = .array fields := by
  unfold insertedDocuments at h
  split at h
  · split at h
    · exact ⟨_, (Except.ok.inj h).symm⟩
    · cases h
  · split at h
    · exact ⟨_, (Except.ok.inj h).symm⟩
    · cases h

/-- A verb that writes becomes a batch command, whose reply is given to the caller. -/
theorem buildShellCommand_write {call : ShellCall} {command : ShellCommand}
    (hbuild : buildShellCommand call = .ok command) (hwrite : call.Writes) :
    ∃ kind fields, command = ⟨BatchKind.command kind call.collection fields, .reply⟩ := by
  unfold buildShellCommand at hbuild
  rw [if_neg hwrite.not_find] at hbuild
  by_cases hinsert : call.verb = "insertOne".toList ∨ call.verb = "insertMany".toList
  · rw [if_pos hinsert] at hbuild
    simp only [except_bind_eq_ok, except_pure_eq_ok] at hbuild
    obtain ⟨-, -, v, hv, rfl⟩ := hbuild
    obtain ⟨fields, rfl⟩ := insertedDocuments_eq_ok hv
    exact ⟨.insert, fields, rfl⟩
  rw [if_neg hinsert] at hbuild
  by_cases hupdate : call.verb = "updateOne".toList ∨ call.verb = "updateMany".toList ∨
      call.verb = "replaceOne".toList
  · rw [if_pos hupdate] at hbuild
    simp only [except_bind_eq_ok, except_pure_eq_ok] at hbuild
    obtain ⟨-, -, statement, -, rfl⟩ := hbuild
    exact ⟨.update, [("0".toList, .document statement)], rfl⟩
  rw [if_neg hupdate] at hbuild
  by_cases hdelete : call.verb = "deleteOne".toList ∨ call.verb = "deleteMany".toList
  · rw [if_pos hdelete] at hbuild
    simp only [except_bind_eq_ok, except_pure_eq_ok] at hbuild
    obtain ⟨-, -, statement, -, rfl⟩ := hbuild
    exact ⟨.delete, [("0".toList, .document statement)], rfl⟩
  · exact absurd hwrite fun h => h.elim hinsert fun h => h.elim hupdate hdelete

/-- A command that the shell spells is dispatched to the handler of its batch. -/
lemma dispatch_command (D : Dispatcher) (kind : BatchKind) (collection : Text) (fields : Doc)
    (db : Text) :
    D.dispatch (kind.command collection fields) db =
      dispatched (kind.handler (D.context (kind.command collection fields) db).toCtx) := by
  cases kind with
  | insert => rfl
  | update => rfl
  | delete => rfl

/-- Its array of elements is found. -/
lemma ofCommand_command (kind : BatchKind) (collection : Text) (fields : Doc) :
    BatchKind.ofCommand (kind.command collection fields) = some (kind, fields) := by
  cases kind with
  | insert => rfl
  | update => rfl
  | delete => rfl

/-! ## What a reply says -/

/-- The reply carries errors of elements. -/
def HasWriteErrors (reply : Doc) : Prop :=
  ∃ errors, findField reply "writeErrors".toList = some (.array errors) ∧ errors ≠ []

/-- The reply says that the command, or a part of it, has failed. -/
def SaysFailed (reply : Doc) : Prop := isOk reply ≠ .ok true ∨ HasWriteErrors reply

/-- An error reply is not `ok`. -/
lemma isOk_errorReply (e : TranslatorError) : isOk (errorReply e) = .ok false := by
  have hzero : (⟨0#64⟩ : Binary64).numEq okDouble = false := by decide +kernel
  change Except.ok ((⟨0#64⟩ : Binary64).numEq okDouble) = _
  rw [hzero]

/-- The time of a reply is one field. -/
lemma operationTimeField_eq {S : Type} {server : WireServer S} {stamp : Option Stamp} {s t : S}
    {time : Doc} (h : (operationTimeField stamp).serve server s = (.ok time, t)) :
    ∃ v, time = [("operationTime".toList, v)] := by
  cases stamp with
  | some ts =>
    obtain ⟨hok, -⟩ := Prod.mk.inj h
    exact ⟨_, (Except.ok.inj hok).symm⟩
  | none =>
    have hbind : (operationTimeField none).serve server s =
        (currentOperationTimeOrInitialize >>= fun now => pure [("operationTime".toList,
          Value.timestamp (UInt32.ofNat now.t) (UInt32.ofNat now.i))]).serve server s := rfl
    rw [hbind, serve_bind] at h
    split at h
    · obtain ⟨hok, -⟩ := Prod.mk.inj h
      exact ⟨_, (Except.ok.inj hok).symm⟩
    · cases (Prod.mk.inj h).1

namespace BatchKind

/-- The reply of a batch is `ok`. -/
lemma isOk_reply (kind : BatchKind) (b : Batch) (time : Doc) :
    isOk (kind.reply b time) = .ok true := by
  have hok : findField (kind.reply b time) "ok".toList = some (.double okDouble) := by
    unfold reply
    rw [findField_append, findField_append, findField_writeErrorsField (by decide),
      (findField_counts kind b).1]
    rfl
  have hone : okDouble.numEq okDouble = true := by decide +kernel
  unfold isOk
  rw [hok]
  change Except.ok (okDouble.numEq okDouble) = _
  rw [hone]

/-- The reply carries errors exactly when elements failed. -/
lemma hasWriteErrors_reply (kind : BatchKind) (b : Batch) (v : Value) :
    HasWriteErrors (kind.reply b [("operationTime".toList, v)]) ↔ b.errors ≠ [] := by
  have htime : findField [("operationTime".toList, v)] "writeErrors".toList = none := rfl
  have herrors : findField (kind.reply b [("operationTime".toList, v)]) "writeErrors".toList =
      findField (writeErrorsField b.errors) "writeErrors".toList := by
    unfold reply
    rw [findField_append, findField_append, (findField_counts kind b).2, htime]
    simp
  unfold HasWriteErrors
  rw [herrors]
  cases b.errors with
  | nil => simp [writeErrorsField]
  | cons error errors =>
    refine iff_of_true ⟨_, rfl, ?_⟩ (by simp)
    simp [makeArray]

end BatchKind

/-! ## When the gateway reports a failed write -/

section Reports

variable {S : Type}

/-- After the batch no reply can be given: none of its elements has captured the clock and it
cannot be read, or the reply cannot be written as Extended JSON. -/
def BatchKind.ReplyFails (server : WireServer S) (kind : BatchKind) (ctx : Ctx) (ns : Namespace)
    (fields : Doc) (s : S) : Prop :=
  match (kind.batch ctx ns fields true).serve server s with
  | (.ok b, t) =>
    match (operationTimeField b.stamp).serve server t with
    | (.ok time, _) => ∀ json, ctx.L.toExtjson (kind.reply b time) ≠ .ok json
    | (.error _, _) => True
  | (.error _, _) => True

/-- The command is refused before its first element, or each of its elements succeeds in its
turn, or no reply can be given. -/
def BatchKind.GoesThrough (server : WireServer S) (kind : BatchKind) (ctx : Ctx) (fields : Doc)
    (s : S) : Prop :=
  match ctx.ns with
  | .error _ => True
  | .ok ns =>
    match (kind.opening ns).serve server s with
    | (.ok true, t) =>
      EverySucceeds server ctx.L ns (kind.elements ctx fields) t ∨
        kind.ReplyFails server ctx ns fields t
    | _ => True

/-- The condition, for a command document. -/
def Dispatcher.WriteGoesThrough (D : Dispatcher) (server : WireServer S) (body : Doc) (db : Text)
    (s : S) : Prop :=
  ∀ kind fields, BatchKind.ofCommand body = some (kind, fields) →
    kind.GoesThrough server (D.context body db).toCtx fields s

/-- Whenever the reply to the command that a statement becomes says that something failed, the
gateway throws. -/
def Dispatcher.ReportsFailure (D : Dispatcher) (server : WireServer S) (rounds : ℕ)
    (db statement : Text) (s : S) : Prop :=
  ∀ call command reply t, parseShellCall statement = .ok call →
    buildShellCommand call = .ok command →
    (D.dispatch command.command db).serve server s = (.ok reply, t) → SaysFailed reply →
    ∃ e u, (D.runMongoGateway rounds db statement).serve server s = (.error e, u)

/-- Dispatching always ends with a reply. -/
lemma serve_dispatched (server : WireServer S) (x : WireProgram Doc) (s : S) :
    (dispatched x).serve server s =
      match x.serve server s with
      | (.ok reply, t) => (.ok reply, t)
      | (.error e, t) => (.ok (errorReply e), t) := by
  unfold dispatched
  rw [serve_attempt_bind]
  rcases x.serve server s with ⟨e | reply, t⟩
  · rfl
  · rfl

/-- The gateway goes on with the reply. -/
lemma serve_runMongoGateway (D : Dispatcher) {server : WireServer S} (rounds : ℕ)
    {db statement : Text} {call : ShellCall} {body reply : Doc} {s t : S} (hdb : db ≠ [])
    (hparse : parseShellCall statement = .ok call)
    (hbuild : buildShellCommand call = .ok ⟨body, .reply⟩)
    (hreply : (D.dispatch body db).serve server s = (.ok reply, t)) :
    (D.runMongoGateway rounds db statement).serve server s =
      match isOk reply with
      | .ok true => (D.env.L.toExtjson reply, t)
      | .ok false => (.error (replyError reply), t)
      | .error e => (.error e, t) := by
  have hempty : db.isEmpty = false := by simpa using hdb
  unfold Dispatcher.runMongoGateway Dispatcher.runCommand
  simp only [hempty, hparse, Bool.false_eq_true, if_false, serve_bind, serve_ofExcept, hbuild,
    hreply]
  rcases isOk reply with e | ok
  · rfl
  cases ok with
  | true =>
    change (D.render reply).serve server t = _
    exact serve_ofExcept _
  | false => rfl

/-- The gateway reports a failure unless it has a reply to give that is `ok` and carries
errors. -/
lemma reportsFailure_iff_reply (D : Dispatcher) {server : WireServer S} (rounds : ℕ)
    {db statement : Text} {call : ShellCall} {body reply : Doc} {s t : S} (hdb : db ≠ [])
    (hparse : parseShellCall statement = .ok call)
    (hbuild : buildShellCommand call = .ok ⟨body, .reply⟩)
    (hreply : (D.dispatch body db).serve server s = (.ok reply, t)) :
    D.ReportsFailure server rounds db statement s ↔
      (isOk reply = .ok true → HasWriteErrors reply →
        ∀ json, D.env.L.toExtjson reply ≠ .ok json) := by
  have hserve := serve_runMongoGateway D rounds hdb hparse hbuild hreply
  constructor
  · intro hreports hok herrors json hjson
    obtain ⟨e, u, he⟩ := hreports call _ reply t hparse hbuild hreply (.inr herrors)
    rw [hserve, hok] at he
    rw [hjson] at he
    cases (Prod.mk.inj he).1
  · intro hcond call' command' reply' t' hparse' hbuild' hreply' hfailed
    obtain rfl := Except.ok.inj (hparse.symm.trans hparse')
    obtain rfl := Except.ok.inj (hbuild.symm.trans hbuild')
    obtain ⟨heq, -⟩ := Prod.mk.inj (hreply.symm.trans hreply')
    obtain rfl := Except.ok.inj heq
    rw [hserve]
    rcases hok : isOk reply with e | ok
    · exact ⟨e, t, rfl⟩
    cases ok with
    | false => exact ⟨_, t, rfl⟩
    | true =>
      have herrors : HasWriteErrors reply := hfailed.resolve_left fun h => h hok
      cases hjson : D.env.L.toExtjson reply with
      | ok json => exact absurd hjson (hcond hok herrors json)
      | error e => exact ⟨e, t, rfl⟩

/-- Nothing is asked of an error reply, which is not `ok`. -/
lemma of_errorReply {reply : Doc} {e : TranslatorError} {P : Prop} (h : errorReply e = reply)
    (hok : isOk reply = .ok true) : P := by
  rw [← h, isOk_errorReply] at hok
  cases hok

/-- A batch command, part by part. -/
lemma serve_handler {kind : BatchKind} {ctx : Ctx} {fields : Doc} {ns : Namespace}
    (server : WireServer S) (hfields : findField ctx.body kind.field = some (.array fields))
    (hns : ctx.ns = .ok ns) (s : S) :
    (kind.handler ctx).serve server s =
      match (kind.opening ns).serve server s with
      | (.error e, t) => (.error e, t)
      | (.ok there, t) =>
        match (kind.batch ctx ns fields there).serve server t with
        | (.error e, u) => (.error e, u)
        | (.ok b, u) =>
          match (operationTimeField b.stamp).serve server u with
          | (.error e, v) => (.error e, v)
          | (.ok time, v) => (.ok (kind.reply b time), v) := by
  rw [kind.handler_eq hfields, hns]
  simp only [serve_bind, serve_ofExcept]
  rcases (kind.opening ns).serve server s with ⟨e | there, t⟩
  · rfl
  rcases hbatch : (kind.batch ctx ns fields there).serve server t with ⟨e | b, u⟩
  · simp only [hbatch]
  rcases htime : (operationTimeField b.stamp).serve server u with ⟨e | time, v⟩
  · simp only [hbatch, htime]
  · simp only [hbatch, htime, serve_pure]

/-- The condition for a reply, and the condition for the batch, of one command. -/
lemma goesThrough_iff {kind : BatchKind} {ctx : Ctx} {fields reply : Doc}
    {server : WireServer S} {s t : S}
    (hfields : findField ctx.body kind.field = some (.array fields))
    (hreply : (dispatched (kind.handler ctx)).serve server s = (.ok reply, t)) :
    (isOk reply = .ok true → HasWriteErrors reply → ∀ json, ctx.L.toExtjson reply ≠ .ok json) ↔
      kind.GoesThrough server ctx fields s := by
  rw [serve_dispatched] at hreply
  unfold BatchKind.GoesThrough
  cases hns : ctx.ns with
  | error e =>
    rw [kind.handler_eq hfields, hns, serve_bind, serve_ofExcept] at hreply
    obtain ⟨heq, -⟩ := Prod.mk.inj hreply
    exact iff_of_true (fun hok => of_errorReply (Except.ok.inj heq) hok) trivial
  | ok ns =>
    rw [serve_handler server hfields hns] at hreply
    rcases hopening : (kind.opening ns).serve server s with ⟨e | there, t₁⟩
    · simp only [hopening] at hreply ⊢
      obtain ⟨heq, -⟩ := Prod.mk.inj hreply
      exact iff_of_true (fun hok => of_errorReply (Except.ok.inj heq) hok) trivial
    simp only [hopening] at hreply ⊢
    have hbatch : ∃ b u, (kind.batch ctx ns fields there).serve server t₁ = (.ok b, u) ∧
        (b.errors = [] ↔ there = true →
          EverySucceeds server ctx.L ns (kind.elements ctx fields) t₁) := by
      cases there with
      | true =>
        obtain ⟨b, u, hb, hiff⟩ := serve_runBatch server ctx.L ns
          (flag ctx.body "ordered".toList true) (kind.elements ctx fields) .empty t₁
        refine ⟨b, u, hb, hiff.trans ?_⟩
        simp [Batch.empty]
      | false => exact ⟨.empty, t₁, rfl, by simp [Batch.empty]⟩
    obtain ⟨b, u, hb, hevery⟩ := hbatch
    simp only [hb] at hreply
    rcases htime : (operationTimeField b.stamp).serve server u with ⟨e | time, v⟩
    · simp only [htime] at hreply
      obtain ⟨heq, -⟩ := Prod.mk.inj hreply
      refine iff_of_true (fun hok => of_errorReply (Except.ok.inj heq) hok) ?_
      cases there with
      | false => trivial
      | true =>
        refine .inr ?_
        unfold BatchKind.ReplyFails
        rw [hb]
        simp only [htime]
    · simp only [htime] at hreply
      obtain ⟨heq, -⟩ := Prod.mk.inj hreply
      obtain rfl := Except.ok.inj heq
      obtain ⟨value, rfl⟩ := operationTimeField_eq htime
      simp only [kind.isOk_reply, kind.hasWriteErrors_reply, forall_const]
      cases there with
      | false =>
        refine iff_of_true (fun herrors => absurd (hevery.2 fun h => by cases h) herrors) trivial
      | true =>
        have hfails : kind.ReplyFails server ctx ns fields t₁ ↔ ∀ json,
            ctx.L.toExtjson (kind.reply b [("operationTime".toList, value)]) ≠ .ok json := by
          unfold BatchKind.ReplyFails
          rw [hb]
          simp only [htime]
        have herrors : b.errors = [] ↔
            EverySucceeds server ctx.L ns (kind.elements ctx fields) t₁ := by simpa using hevery
        change _ ↔ EverySucceeds server ctx.L ns (kind.elements ctx fields) t₁ ∨ _
        rw [hfails, ← herrors]
        exact Decidable.or_iff_not_imp_left.symm

/-- **When the gateway reports a failed write.**  A shell statement with a verb that writes is
given to the gateway, whatever the server and its state.  The gateway throws whenever the reply to
the command that the statement becomes says that something failed, if and only if the command is
refused before its first element, or every element succeeds in its turn, or no reply can be
given. -/
theorem reportsFailure_iff (D : Dispatcher) (server : WireServer S) {rounds : ℕ}
    {db statement : Text} {call : ShellCall} {command : ShellCommand} (hdb : db ≠ [])
    (hparse : parseShellCall statement = .ok call) (hwrite : call.Writes)
    (hbuild : buildShellCommand call = .ok command) (s : S) :
    D.ReportsFailure server rounds db statement s ↔
      D.WriteGoesThrough server command.command db s := by
  obtain ⟨kind, fields, rfl⟩ := buildShellCommand_write hbuild hwrite
  have hcondition : D.WriteGoesThrough server (kind.command call.collection fields) db s ↔
      kind.GoesThrough server (D.context (kind.command call.collection fields) db).toCtx
        fields s := by
    constructor
    · intro h
      exact h kind fields (ofCommand_command kind call.collection fields)
    · intro h kind' fields' hcommand
      rw [ofCommand_command] at hcommand
      cases hcommand
      exact h
  have hfound : findField (kind.command call.collection fields) kind.field =
      some (.array fields) := by
    cases kind <;> rfl
  rcases hreply : (D.dispatch (kind.command call.collection fields) db).serve server s with
    ⟨e | reply, t⟩
  · rw [dispatch_command, serve_dispatched] at hreply
    split at hreply
    · cases (Prod.mk.inj hreply).1
    · cases (Prod.mk.inj hreply).1
  · rw [reportsFailure_iff_reply D rounds hdb hparse hbuild hreply, hcondition]
    rw [dispatch_command] at hreply
    exact goesThrough_iff hfound hreply

end Reports

/-- A server with collection tables on which everything else is in order. -/
def rowServer (S : SqlServer) : WireServer (List Row)
  | .sql .connection (.table q), rows =>
    match S.handler q rows with
    | .ok (answer, rows') => (.ok answer, rows')
    | .error e => (.error e, rows)
  | q, rows => (q.agree, rows)

/-- A dispatcher over a BSON library. -/
def plainDispatcher (L : Libbson) : Dispatcher where
  env := {
    body := []
    db := []
    argument := []
    L := L
    oids := fun _ => 0
    identity := ⟨"chimera-sql-gateway".toList, 0⟩
    connectionId := 0
    now := 0
    polls := 0
    runStages := fun documents _ => .ok documents
    gateway := ⟨false, false⟩ }
  others := fun _ _ => .fail (notImplemented [])

/-- Two documents with one `_id`. -/
def insertTwice : Text := "db.items.insertMany([\x7b_id: 'a'\x7d, \x7b_id: 'a'\x7d])".toList

/-- The array of the two documents. -/
def twice : Doc :=
  [("0".toList, .document [(idName, .utf8 "a".toList)]),
    ("1".toList, .document [(idName, .utf8 "a".toList)])]

/-- The call that the statement spells. -/
lemma parse_insertTwice : parseShellCall insertTwice =
    .ok ⟨"items".toList, "insertMany".toList, [.array twice]⟩ := by
  decide +kernel

/-- The second element of the insert fails, and the gateway returns a document all the same. -/
theorem insertTwice_not_reported :
    ¬ (plainDispatcher ExtendedJson.byTypeKey.libbson).ReportsFailure (rowServer .ofStrings) 0
      "app".toList insertTwice [] := by
  intro h
  have hreply : ∃ reply t, ((plainDispatcher ExtendedJson.byTypeKey.libbson).dispatch
      (BatchKind.insert.command "items".toList twice) "app".toList).serve (rowServer .ofStrings) []
        = (.ok reply, t) ∧ isOk reply = .ok true ∧ HasWriteErrors reply := by
    refine ⟨BatchKind.insert.reply _ _, _, rfl, BatchKind.insert.isOk_reply _ _, ?_⟩
    refine (BatchKind.insert.hasWriteErrors_reply _ _).2 ?_
    exact List.cons_ne_nil _ _
  obtain ⟨reply, t, hreply, hok, herrors⟩ := hreply
  have hiff := reportsFailure_iff_reply (plainDispatcher ExtendedJson.byTypeKey.libbson)
    0 (by decide) parse_insertTwice rfl hreply
  exact hiff.1 h hok herrors _ rfl

/-- Two documents inserted into an empty collection: whatever the reply says, the gateway reports
it. -/
theorem reportsFailure_iff_insertMany :
    (plainDispatcher ExtendedJson.byTypeKey.libbson).ReportsFailure (rowServer .ofStrings) 0
      "app".toList "db.items.insertMany([\x7b_id: 'a'\x7d, \x7b_id: 'b'\x7d])".toList [] := by
  have hparse : parseShellCall
      "db.items.insertMany([\x7b_id: 'a'\x7d, \x7b_id: 'b'\x7d])".toList =
      .ok ⟨"items".toList, "insertMany".toList, [.array
        [("0".toList, .document [(idName, .utf8 "a".toList)]),
          ("1".toList, .document [(idName, .utf8 "b".toList)])]]⟩ := by
    decide +kernel
  refine (reportsFailure_iff (plainDispatcher ExtendedJson.byTypeKey.libbson) (rowServer .ofStrings)
    (by decide) hparse (.inl (.inr rfl)) rfl []).2 ?_
  rintro kind fields hcommand
  cases hcommand
  exact .inl trivial

end Chimera

import Chimera.Plugin.CursorRegistry
import Chimera.Plugin.WriteCommands
import Chimera.Translator.Pipeline
import Chimera.Translator.SqlGuard

/-!
# Commands that read

`hello`, `ping`, the commands that read a collection, the cursors over the oplog, and the
catalog.  The stages of a pipeline that reshape documents compute with floating-point numbers,
so what they make of documents is a parameter here.
-/

namespace Chimera

open Interaction

/-! ## Replies -/

/-- `ServerIdentity`. -/
structure ServerIdentity where
  /-- The host that the server says it is. -/
  host : Text
  /-- The identifier of the process. -/
  processId : BitVec 96

/-- The settings of the SQL gateway. -/
structure GatewaySettings where
  /-- The listener can be reached from other hosts. -/
  networkExposed : Bool
  /-- The gateway may write. -/
  writesAllowed : Bool

/-- What the handlers of reading commands need besides. -/
structure ReadCtx extends Ctx where
  /-- Who the server is. -/
  identity : ServerIdentity
  /-- The number of the connection. -/
  connectionId : ℤ
  /-- The time, in milliseconds. -/
  now : Int64
  /-- How often a waiting `getMore` looks again before its time is over. -/
  polls : ℕ
  /-- `run_stages`. -/
  runStages : List Doc → List Doc → Except TranslatorError (List Doc)
  /-- The settings of the SQL gateway. -/
  gateway : GatewaySettings

/-- The documents of an array. -/
def documentArray (documents : List Doc) : Value :=
  .array (makeArray (documents.map .document))

/-- `cursor_reply`. -/
def cursorReply (id : ℤ) (ns : Text) (batchName : String) (batch : List Doc)
    (resumeSeq : Option ℕ) : Doc :=
  [("cursor".toList, .document ([("id".toList, .int64 (Int64.ofInt id)), ("ns".toList, .utf8 ns),
      (batchName.toList, documentArray batch)] ++
    match resumeSeq with
    | some seq => [("postBatchResumeToken".toList,
        .document [("_data".toList, .utf8 (paddedHex seq))])]
    | none => [])),
    ("ok".toList, .double okDouble)]

/-- `hello_reply`. -/
def helloReply (identity : ServerIdentity) (connectionId : ℤ) (now : Int64) : Doc :=
  [("helloOk".toList, .bool true), ("ismaster".toList, .bool true),
    ("isWritablePrimary".toList, .bool true), ("setName".toList, .utf8 "chimera".toList),
    ("setVersion".toList, int32Field 1), ("secondary".toList, .bool false),
    ("hosts".toList, .array [("0".toList, .utf8 identity.host)]),
    ("primary".toList, .utf8 identity.host), ("me".toList, .utf8 identity.host),
    ("topologyVersion".toList, .document [("processId".toList, .oid identity.processId),
      ("counter".toList, .int64 0)]),
    ("maxBsonObjectSize".toList, int32Field 16777216),
    ("maxMessageSizeBytes".toList, int32Field 48000000),
    ("maxWriteBatchSize".toList, int32Field 100000), ("localTime".toList, .dateTime now),
    ("logicalSessionTimeoutMinutes".toList, int32Field 30),
    ("connectionId".toList, .int32 (Int32.ofInt connectionId)),
    ("minWireVersion".toList, int32Field 0), ("maxWireVersion".toList, int32Field 17),
    ("readOnly".toList, .bool false), ("ok".toList, .double okDouble)]

/-! ## Collections -/

/-- `shape_results`: sort, skip, cut off and project. -/
def shapeResults (documents : List Doc) (sort projection : Doc) (skip limit : ℤ) :
    Except TranslatorError (List Doc) := do
  let sorted ← if sort.isEmpty then pure documents else sortDocuments documents sort
  let kept := sorted.drop skip.toNat
  let capped := if limit = 0 then kept else kept.take limit.natAbs
  if projection.isEmpty then return capped
  else capped.mapM fun document => project document projection

/-- The first batch of a reply: how many documents it takes. -/
def firstBatchSize (documents : List Doc) (batchSize : ℤ) : ℕ :=
  min documents.length batchSize.toNat

/-- `cmd_find` on a collection. -/
def findCollection (ctx : Ctx) (ns : Namespace) : WireProgram Doc := do
  let there ← onCollection (askExists ns)
  let documents ← if there then do
      let found ← onCollection (load ctx.L ns (ctx.subDocument "filter".toList))
      ofExcept (shapeResults found (ctx.subDocument "sort".toList)
        (ctx.subDocument "projection".toList) (numberField ctx.body "skip".toList 0)
        (numberField ctx.body "limit".toList 0))
    else pure []
  let singleBatch := flag ctx.body "singleBatch".toList false ||
    decide (numberField ctx.body "limit".toList 0 < 0)
  let take := firstBatchSize documents (numberField ctx.body "batchSize".toList defaultBatchSize)
  let id ← if singleBatch then pure (0 : ℤ)
    else registry (.openCursor ns.text (documents.drop take))
  return cursorReply id ns.text "firstBatch" (documents.take take) none

/-- `cmd_count`. -/
def cmdCount (ctx : Ctx) : WireProgram Doc := do
  let ns ← ofExcept ctx.ns
  let there ← onCollection (askExists ns)
  let found ← if there then do
      let cond ← ofExcept (compileDocument ctx.L (ctx.subDocument "query".toList))
      sql (.countRows ns cond)
    else pure (0 : ℕ)
  let rest := max 0 ((found : ℕ) - numberField ctx.body "skip".toList 0)
  let limit := numberField ctx.body "limit".toList 0
  let n := if limit > 0 then min rest limit else rest
  return [("n".toList, .int32 (Int32.ofInt n)), ("ok".toList, .double okDouble)]

/-- The values without those that equal an earlier one. -/
def distinctValues (seen : List Value) : List Value → List Value
  | [] => seen
  | v :: rest =>
    if seen.any fun w => valueEqual w v then distinctValues seen rest
    else distinctValues (seen ++ [v]) rest

/-- The values of a document at a path: of an array, its elements. -/
def valuesAt (path : Path) (document : Doc) : List Value :=
  match pathGet document path with
  | none => []
  | some (.array fields) => fields.map Prod.snd
  | some v => [v]

/-- `cmd_distinct`. -/
def cmdDistinct (ctx : Ctx) : WireProgram Doc := do
  let key := textField ctx.body "key".toList
  if key.isEmpty then
    .fail (missingCommandField
      "BSON field 'distinct.key' is missing but a required field".toList)
  let ns ← ofExcept ctx.ns
  let there ← onCollection (askExists ns)
  let values ← if there then do
      let path ← ofExcept (splitPath key)
      let documents ← onCollection (load ctx.L ns (ctx.subDocument "query".toList))
      pure (distinctValues [] (documents.flatMap (valuesAt path)))
    else pure []
  return [("values".toList, .array (makeArray values)), ("ok".toList, .double okDouble)]

/-! ## The oplog -/

/-- `is_oplog_namespace`. -/
def isOplogNamespace (ns : Namespace) : Bool :=
  decide (ns.db = "local".toList) && decide (ns.collection = "oplog.rs".toList)

namespace Wire

/-- `read_oplog`: the entries, and the sequence number of the last. -/
def readOplog (L : Libbson) (filter : Doc) (afterSeq limit : ℕ) (newestFirst : Bool) :
    WireProgram (List Doc × ℕ) := do
  let cond ← ofExcept (compileDocument L filter)
  let rows ← sql (.readOplog cond afterSeq limit newestFirst)
  let documents ← ofExcept ((rows : List (ℕ × Json)).mapM fun row => L.fromExtjson row.2)
  return (documents, ((rows : List (ℕ × Json)).getLast?.map Prod.fst).getD afterSeq)

/-- `require_change_stream_history`. -/
def requireChangeStreamHistory (afterSeq : ℕ) : WireProgram Unit := do
  match ← sql .historyFloor with
  | none => .fail (internalError "oplog history metadata is missing".toList)
  | some (floor, written) =>
    if afterSeq ≥ floor ∧ (afterSeq = 0 ∨ written = true) then return ()
    else .fail (changeStreamHistoryLost
      ("the resume point is no longer in the oplog; resume from a later point or resync " ++
        "(see changestream-plan.md)").toList)

/-- A row as a change event. -/
def decodeEvent (L : Libbson) : Option (ℕ × Json) → Except TranslatorError (Doc × ℕ)
  | none => .error (internalError "oplog row rendered NULL — kEventExpr regression".toList)
  | some (seq, event) => return (← L.fromExtjson event, seq)

/-- `read_changestream`: the events, and the sequence number of the last. -/
def readChangestream (L : Libbson) (ns : Namespace) (afterSeq limit : ℕ) :
    WireProgram (List Doc × ℕ) := do
  let rows ← sql (.readChangestream ns afterSeq limit)
  let events ← ofExcept ((rows : List (Option (ℕ × Json))).mapM (decodeEvent L))
  requireChangeStreamHistory afterSeq
  return (events.map Prod.fst, (events.getLast?.map Prod.snd).getD afterSeq)

/-- `resolve_change_stream_start`. -/
def resolveChangeStreamStart : ChangeStreamStart → WireProgram ℕ
  | .token afterSeq => return afterSeq
  | .operationTime ts => do
    match ← sql (.beforeTime ts) with
    | none =>
      .fail (internalError "could not resolve the change-stream operation time".toList)
    | some (before, history) =>
      if history.deletedAt ts || history.unknownAt ts then
        .fail (changeStreamHistoryLost
          ("the requested operation time is older than the retained oplog; resync " ++
            "(see changestream-plan.md)").toList)
      else return max (max before history.prunedSeq) history.baselineSeq
  | .head => sql .oplogHead

end Wire

/-- `find_oplog`. -/
def findOplog (ctx : Ctx) (ns : Namespace) : WireProgram Doc := do
  installOplogSchema
  let filter := ctx.subDocument "filter".toList
  let newestFirst := decide (numberField (ctx.subDocument "sort".toList) "$natural".toList 1 < 0)
  let limit := numberField ctx.body "limit".toList 0
  let batchSize := numberField ctx.body "batchSize".toList defaultBatchSize
  let wanted := if limit > 0 then limit.toNat else (max batchSize 1).toNat
  let head ← sql .oplogHead
  let (documents, lastSeq) ← Wire.readOplog ctx.L filter 0 wanted newestFirst
  if !flag ctx.body "tailable".toList false then
    return cursorReply 0 ns.text "firstBatch" documents none
  let afterSeq := if !newestFirst && decide (documents.length ≥ wanted) then lastSeq else head
  let id ← registry (.openTail ns.text
    ⟨filter, afterSeq, flag ctx.body "awaitData".toList false, false⟩)
  return cursorReply id ns.text "firstBatch" documents none

/-- `cmd_find`. -/
def cmdFind (ctx : Ctx) : WireProgram Doc := do
  let ns ← ofExcept ctx.ns
  if isOplogNamespace ns then findOplog ctx ns else findCollection ctx ns

/-- One look of a tailing `getMore`: what it found, and where the cursor goes. -/
def pollTail (L : Libbson) (ns : Namespace) (tail : TailEntry) (wanted : ℕ) :
    WireProgram (List Doc × ℕ) := do
  let head ← sql .oplogHead
  let (documents, lastSeq) ← if tail.changeStream
    then Wire.readChangestream L ns tail.afterSeq wanted
    else Wire.readOplog L tail.filter tail.afterSeq wanted false
  return (documents, if documents.length ≥ wanted then lastSeq else max head lastSeq)

/-- The loop of `tail_batch`: it ends with the first look that finds something, or at once on a
cursor that does not wait, or when its time is over. -/
def pollLoop (L : Libbson) (ns : Namespace) (tail : TailEntry) (wanted : ℕ) :
    ℕ → WireProgram (List Doc × ℕ)
  | 0 => pollTail L ns tail wanted
  | polls + 1 => do
    let (documents, nextAfter) ← pollTail L ns tail wanted
    if !documents.isEmpty || !tail.awaitData then return (documents, nextAfter)
    else pollLoop L ns tail wanted polls

/-- `tail_batch`. -/
def tailBatch (ctx : ReadCtx) (id : ℤ) (ns : Namespace) (tail : TailEntry) (batchSize : ℤ) :
    WireProgram Doc := do
  let (documents, nextAfter) ←
    pollLoop ctx.L ns tail (max batchSize 1).toNat ctx.polls
  registry (.advanceTail id nextAfter)
  if !tail.changeStream then return cursorReply id ns.text "nextBatch" documents none
  else return cursorReply id ns.text "nextBatch" documents (some nextAfter) ++
    (← operationTimeField none)

/-- `cmd_get_more`. -/
def cmdGetMore (ctx : ReadCtx) : WireProgram Doc :=
  match findField ctx.body "getMore".toList with
  | none => .fail (typeMismatch "getMore requires the cursor id as a 64-bit integer".toList)
  | some v =>
    if !valueIsNumeric v then
      .fail (typeMismatch "getMore requires the cursor id as a 64-bit integer".toList)
    else do
      let id := v.toDouble.truncate
      let ns ← ofExcept (parseNamespace ctx.db (textField ctx.body "collection".toList))
      let batchSize :=
        (Int32.ofInt (numberField ctx.body "batchSize".toList defaultBatchSize)).toInt
      match ← registry (.tailState id ns.text) with
      | some tail => tailBatch ctx id ns tail batchSize
      | none =>
        match ← registry (.nextBatch id ns.text batchSize) with
        | .error e => .fail e
        | .ok (batch, exhausted) =>
          return cursorReply (if exhausted then 0 else id) ns.text "nextBatch" batch none

/-- The cursors that `killCursors` names, and whether there were such. -/
def killAll : List Value → WireProgram (List (ℤ × Bool))
  | [] => return []
  | v :: rest =>
    if !valueIsNumeric v then killAll rest
    else do
      let id := v.toDouble.truncate
      let killed ← registry (.kill id)
      return (id, killed) :: (← killAll rest)

/-- An array of cursor numbers. -/
def cursorIds (ids : List ℤ) : Value :=
  .array (makeArray (ids.map fun id => .int64 (Int64.ofInt id)))

/-- `cmd_kill_cursors`. -/
def cmdKillCursors (ctx : Ctx) : WireProgram Doc := do
  let cursors := match findField ctx.body "cursors".toList with
    | some (.array fields) => fields.map Prod.snd
    | _ => []
  let results ← killAll cursors
  return [
    ("cursorsKilled".toList, cursorIds ((results.filter fun r => r.2).map Prod.fst)),
    ("cursorsNotFound".toList, cursorIds ((results.filter fun r => !r.2).map Prod.fst)),
    ("cursorsAlive".toList, .array []), ("cursorsUnknown".toList, .array []),
    ("ok".toList, .double okDouble)]

/-! ## Aggregation -/

/-- `run_sql_gateway`. -/
def runSqlGateway (settings : GatewaySettings) (statement : Text) : WireProgram GatewayResult :=
  if settings.networkExposed then
    .fail (unauthorized ("chimeraSql and $sql are disabled: the listener accepts non-loopback " ++
      "connections and has no authentication yet " ++
      "(https://github.com/mieweb/chimeraDB/issues/5)").toList)
  else if statement.isEmpty then .fail (failedToParse "chimeraSql needs a statement".toList)
  else if !settings.writesAllowed && !isReadOnlyStatement statement then
    .fail (unauthorized ("the SQL gateway is read-only; '".toList ++ leadingKeyword statement ++
      "' needs SET GLOBAL chimera_mongo_sql_writes = ON".toList))
  else do
    if !settings.writesAllowed then sql .startReadOnly
    match ← (sql (.raw statement)).attempt with
    | .error e =>
      if !settings.writesAllowed then sql .rollback
      .fail e
    | .ok result =>
      if !settings.writesAllowed then sql .commit
      return result

/-- `open_change_stream`. -/
def openChangeStream (ctx : ReadCtx) (stages : List Doc) : WireProgram Doc := do
  if stages.length > 1 then
    .fail (notImplemented ("$changeStream must be the only stage in the pipeline".toList ++
      planNote))
  if ctx.argument.isEmpty then
    .fail (notImplemented ("database-level watch (aggregate: 1) is not supported".toList ++
      planNote))
  let ns ← ofExcept ctx.ns
  if isOplogNamespace ns then
    .fail (notImplemented ("$changeStream on local.oplog.rs: tail it directly instead".toList ++
      planNote))
  let (_, body) ← ofExcept (stageOperator (stages.headD []))
  match body with
  | .document options => do
    let start ← ofExcept (parseChangeStream .head options)
    installOplogSchema
    let afterSeq ← Wire.resolveChangeStreamStart start
    Wire.requireChangeStreamHistory afterSeq
    let id ← registry (.openTail ns.text ⟨[], afterSeq, true, true⟩)
    return cursorReply id ns.text "firstBatch" [] (some afterSeq) ++ (← operationTimeField none)
  | _ => .fail (typeMismatch "$changeStream takes a document of options".toList)

/-- The name of the first stage. -/
def firstStage (stages : List Doc) : Except TranslatorError Text :=
  match stages with
  | [] => .ok []
  | stage :: _ => return (← stageOperator stage).1

/-- A `$changeStream` stage is nowhere but at the front. -/
def rejectLaterStreams (stages : List Doc) : Except TranslatorError Unit :=
  stages.forM fun stage => do
    if (← stageOperator stage).1 = "$changeStream".toList then
      throw (notImplemented ("$changeStream is only valid as the first pipeline stage".toList ++
        planNote))

/-- The documents of a pipeline, and what its cursor is named after. -/
def aggregateDocuments (ctx : ReadCtx) (stages : List Doc) :
    WireProgram (List Doc × Text) := do
  if (← ofExcept (firstStage stages)) = "$sql".toList then
    let (_, body) ← ofExcept (stageOperator (stages.headD []))
    match body with
    | .utf8 statement =>
      let result ← runSqlGateway ctx.gateway statement
      let documents ← ofExcept (ctx.runStages result.documents stages.tail)
      return (documents, ctx.db ++ ".$cmd.aggregate".toList)
    | _ => .fail (typeMismatch "$sql takes a statement string".toList)
  else
    let (prefilter, rest) ← ofExcept (splitPipeline stages)
    let ns ← ofExcept ctx.ns
    let there ← onCollection (askExists ns)
    let found ← if there then onCollection (load ctx.L ns prefilter) else pure []
    let documents ← ofExcept (ctx.runStages found rest)
    return (documents, ns.text)

/-- `cmd_aggregate`. -/
def cmdAggregate (ctx : ReadCtx) : WireProgram Doc := do
  let stages ← ofExcept (pipelineStages (ctx.subDocument "pipeline".toList))
  if (← ofExcept (firstStage stages)) = "$changeStream".toList then openChangeStream ctx stages
  else
    ofExcept (rejectLaterStreams stages)
    let (documents, ns) ← aggregateDocuments ctx stages
    let take := firstBatchSize documents (numberField ctx.body "batchSize".toList defaultBatchSize)
    let id ← if (documents.drop take).isEmpty then pure (0 : ℤ)
      else registry (.openCursor ns (documents.drop take))
    return cursorReply id ns "firstBatch" (documents.take take) none

/-! ## The catalog -/

/-- `cmd_list_databases`. -/
def cmdListDatabases : WireProgram Doc := do
  bootstrap
  let names ← sql .databases
  return [("databases".toList, documentArray ((names : List Text).map fun name =>
      [("name".toList, .utf8 (cString name)), ("sizeOnDisk".toList, .int64 0),
        ("empty".toList, .bool false)])),
    ("totalSize".toList, .int64 0), ("ok".toList, .double okDouble)]

/-- `cmd_list_collections`. -/
def cmdListCollections (ctx : Ctx) : WireProgram Doc := do
  bootstrap
  let nameOnly := flag ctx.body "nameOnly".toList false
  let names ← sql (.tables ctx.db)
  let entry (name : Text) : Doc :=
    [("name".toList, .utf8 (cString name)), ("type".toList, .utf8 "collection".toList)] ++
      if nameOnly then []
      else [("options".toList, .document []),
        ("info".toList, .document [("readOnly".toList, .bool false)])]
  return cursorReply 0 (ctx.db ++ ".$cmd.listCollections".toList) "firstBatch"
    ((names : List Text).map entry) none

/-- `IndexSpec`. -/
structure IndexSpec where
  /-- The name. -/
  name : Text
  /-- The keys, with their directions. -/
  keys : List (Text × ℤ)
  /-- No two documents may have the same keys. -/
  unique : Bool

/-- An index, from its row in the catalog. -/
def decodeIndex (L : Libbson) (row : Text × Json × Bool) : Except TranslatorError IndexSpec := do
  let keys ← L.fromExtjson row.2.1
  let direction (v : Value) : ℤ :=
    if valueIsNumeric v && v.toDouble.numLt (Binary64.ofInt 0) then -1 else 1
  return ⟨row.1, keys.map fun (name, v) => (name, direction v), row.2.2⟩

/-- `Collection::list_indexes`. -/
def listIndexes (L : Libbson) (ns : Namespace) : WireProgram (List IndexSpec) := do
  onCollection (requireExists ns)
  let rows ← sql (.indexes ns)
  let specs ← ofExcept ((rows : List (Text × Json × Bool)).mapM (decodeIndex L))
  return ⟨"_id_".toList, [(idName, 1)], false⟩ :: specs

/-- `index_document`. -/
def indexDocument (spec : IndexSpec) : Doc :=
  [("v".toList, int32Field 2),
    ("key".toList, .document (spec.keys.map fun (name, d) => (name, .int32 (Int32.ofInt d)))),
    ("name".toList, .utf8 (cString spec.name))] ++
  if spec.unique then [("unique".toList, .bool true)] else []

/-- `cmd_list_indexes`. -/
def cmdListIndexes (ctx : Ctx) : WireProgram Doc := do
  let ns ← ofExcept ctx.ns
  let specs ← listIndexes ctx.L ns
  return cursorReply 0 ns.text "firstBatch" (specs.map indexDocument) none

/-! ## Which command -/

/-- The commands that do not write. -/
inductive ReadKind where
  | hello
  | ping
  | find
  | getMore
  | killCursors
  | count
  | aggregate
  | distinct
  | listDatabases
  | listCollections
  | listIndexes
deriving DecidableEq

/-- The handler of a command. -/
def ReadKind.program (ctx : ReadCtx) : ReadKind → WireProgram Doc
  | .hello => return helloReply ctx.identity ctx.connectionId ctx.now
  | .ping => return [("ok".toList, .double okDouble)] ++ (← operationTimeField none)
  | .find => cmdFind ctx.toCtx
  | .getMore => cmdGetMore ctx
  | .killCursors => cmdKillCursors ctx.toCtx
  | .count => cmdCount ctx.toCtx
  | .aggregate => cmdAggregate ctx
  | .distinct => cmdDistinct ctx.toCtx
  | .listDatabases => cmdListDatabases
  | .listCollections => cmdListCollections ctx.toCtx
  | .listIndexes => cmdListIndexes ctx.toCtx

/-- `dispatch_command` turns every error into a reply. -/
def dispatched (x : WireProgram Doc) : WireProgram Doc := do
  match ← x.attempt with
  | .ok reply => return reply
  | .error e => return errorReply e

end Chimera

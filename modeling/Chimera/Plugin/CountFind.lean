import Chimera.Plugin.CursorRuns
import Chimera.Plugin.KeyAgreement
import Chimera.Plugin.MongoGateway
import Chimera.Plugin.ReadFrame
import Chimera.Plugin.RoundTrip
import Chimera.Translator.SetUpdates

/-!
# Counting what a find returns

`count` subtracts the skip from a number that SQL counted, and cuts off at the limit; `find` drops
documents from a list and cuts the rest off.  The two commands agree on positive arguments.  A
negative limit means one batch to a find and nothing to a count, and a negative skip is nothing to
a find, but a count adds it.
-/

namespace Chimera

open Interaction

/-! ## The tables -/

/-- `SELECT COUNT(*)`. -/
def SqlServer.counted (S : SqlServer) (ns : Namespace) (cond : Cond) (rows : List Row) :
    Except TranslatorError ℕ :=
  if S.misses (.select ns cond none) then
    .error (namespaceNotFound (S.detail (.select ns cond none)))
  else if cond.wellFormed then .ok (rows.countP (S.matches ns cond))
  else .error (internalError (S.detail (.select ns cond none)))

/-- The server, for the statements of a count and of a find. -/
def SqlServer.tables (S : SqlServer) : WireServer (List Row)
  | .sql _ (.table q), rows =>
    match S.handler q rows with
    | .ok (answer, rows') => (.ok answer, rows')
    | .error e => (.error e, rows)
  | .sql _ (.countRows ns cond), rows => (S.counted ns cond rows, rows)
  | q, rows => (q.agree, rows)

/-- The rows that a query selects.  A collection that is not there has none. -/
def SqlServer.matching (S : SqlServer) (L : Libbson) (ns : Namespace) (query : Doc)
    (rows : List Row) : Except TranslatorError (List Row) :=
  if S.present ns then
    compileDocument L query >>= fun cond =>
      if cond.wellFormed then .ok (rows.filter (S.matches ns cond))
      else .error (internalError (S.detail (.select ns cond none)))
  else .ok []

/-! ## A client that wants all batches -/

/-- The command that asks for the next batch of a find's cursor. -/
def ReadCtx.more (ctx : ReadCtx) (id : Int64) : ReadCtx :=
  { ctx with
    body := [("getMore".toList, .int64 id), ("collection".toList, .utf8 ctx.argument)] }

/-- The documents of a reply and of the batches after it, for a client that asks until a reply
names no cursor, if that takes fewer than the given number of replies. -/
def allBatches (ctx : ReadCtx) : ℕ → String → Doc → WireProgram (Option (List Doc))
  | 0, _, _ => return none
  | rounds + 1, batchName, reply => do
    let cursor := (viewField reply "cursor".toList).getD []
    let batch := cursorBatch cursor batchName.toList
    match findField cursor "id".toList with
    | some (.int64 id) =>
      if id = 0 then return some batch
      else do
        let next ← cmdGetMore (ctx.more id)
        let rest ← allBatches ctx rounds "nextBatch" next
        return rest.map (batch ++ ·)
    | _ => return some batch

/-- A find, with all its batches. -/
def findAll (ctx : ReadCtx) (rounds : ℕ) : WireProgram (Option (List Doc)) := do
  let reply ← cmdFind ctx.toCtx
  allBatches ctx rounds "firstBatch" reply

/-- What the registry guarantees for the next cursor: its number is positive, new, and survives the
double that a `getMore` reads it through. -/
structure CursorTable.Ready (T : CursorTable) : Prop where
  /-- The number is positive. -/
  positive : 1 ≤ T.buffered.nextId
  /-- It is a double. -/
  exact : T.buffered.nextId < 2 ^ 53
  /-- No tailing cursor has it. -/
  free : T.tailing T.buffered.nextId = none

/-- A count and a find with the same query, skip and limit, and nothing else but a batch size. -/
structure SameQuestion (count : Ctx) (find : ReadCtx) (ns : Namespace) : Prop where
  /-- The count is about the collection. -/
  count_ns : count.ns = .ok ns
  /-- So is the find. -/
  find_ns : find.ns = .ok ns
  /-- It is a collection, and not the oplog. -/
  collection : isOplogNamespace ns = false
  /-- The library is the same. -/
  library : find.L = count.L
  /-- The query is the same. -/
  query : find.subDocument "filter".toList = count.subDocument "query".toList
  /-- The skip is the same. -/
  skip : numberField find.body "skip".toList 0 = numberField count.body "skip".toList 0
  /-- The limit is the same. -/
  limit : numberField find.body "limit".toList 0 = numberField count.body "limit".toList 0
  /-- The order does not matter. -/
  sort : find.subDocument "sort".toList = []
  /-- The documents are returned whole. -/
  projection : find.subDocument "projection".toList = []
  /-- All batches are wanted. -/
  batches : flag find.body "singleBatch".toList false = false

/-! ## The property -/

section Property

variable (S : SqlServer) (now : ℤ) (T : CursorTable) (rows : List Row)

/-- The count reports a number. -/
def CountReports (ctx : Ctx) (n : ℤ) : Prop :=
  ∃ reply v, ((cmdCount ctx).serve (registryServer now S.tables) (T, rows)).1 = .ok reply ∧
    findField reply "n".toList = some (.int32 v) ∧ v.toInt = n

/-- The find returns so many documents over all its batches. -/
def FindReturns (ctx : ReadCtx) (n : ℤ) : Prop :=
  ∃ rounds documents, ((findAll ctx rounds).serve (registryServer now S.tables) (T, rows)).1 =
    .ok (some documents) ∧ (documents.length : ℤ) = n

/-- The number that the count reports is the number of documents that the find returns. -/
def CountAgrees (count : Ctx) (find : ReadCtx) : Prop :=
  ∀ n, CountReports S now T rows count n ↔ FindReturns S now T rows find n

/-- The arguments are counted as they are cut off: the skip is not negative, and a negative limit
cuts nothing off that is not cut off by the size of the batch too; or a positive limit covers up
for a negative skip. -/
def PagedAlike (n : ℕ) (skip limit batchSize : ℤ) : Prop :=
  0 ≤ skip ∧ (0 ≤ limit ∨ n - skip ≤ min (max 0 batchSize) |limit|) ∨
    skip < 0 ∧ 0 < limit ∧ limit ≤ n

end Property

/-! ## Serving the statements -/

variable {S : SqlServer} {now : ℤ} {T : CursorTable} {rows : List Row} {L : Libbson}
  {ns : Namespace} {query : Doc}

/-- A statement is answered once. -/
lemma serve_statement {S : Type} (server : WireServer S) (session : SessionKind) (q : Sql) (s : S) :
    (statement session q).serve server s = server (.sql session q) s := by
  unfold statement serve
  cases hanswer : server (.sql session q) s with
  | mk answer t =>
    cases answer with
    | ok result => rfl
    | error e => rfl

/-- A program that ends with the answer to a statement. -/
lemma serve_bind_pure {S α : Type} (server : WireServer S) (x : WireProgram α) (s : S) :
    (x >>= pure).serve server s = x.serve server s := by
  rw [serve_bind]
  cases x.serve server s with
  | mk result t =>
    cases result with
    | ok a => rfl
    | error e => rfl

/-- A look for the table. -/
lemma serve_askExists :
    (onCollection (askExists ns)).serve (registryServer now S.tables) (T, rows) =
    (.ok (S.present ns), (T, rows)) := rfl

/-- A count of the rows of a table that is there. -/
lemma serve_countRows_bind {β : Type} (hthere : S.present ns = true) (cond : Cond)
    (f : ℕ → WireProgram β) :
    (sql (.countRows ns cond) >>= f).serve (registryServer now S.tables) (T, rows) =
      if cond.wellFormed then
        (f (rows.countP (S.matches ns cond))).serve (registryServer now S.tables) (T, rows)
      else (.error (internalError (S.detail (.select ns cond none))), (T, rows)) := by
  have hcounted : (sql (.countRows ns cond)).serve (registryServer now S.tables) (T, rows) =
      (S.counted ns cond rows, (T, rows)) := serve_statement _ _ _ _
  have hthere' : S.misses (.select ns cond none) = false := by
    simp [SqlServer.misses, Request.ns, hthere]
  refine (serve_bind _ _).trans ?_
  rw [hcounted]
  by_cases hcond : cond.wellFormed = true
  · simp only [SqlServer.counted, hthere', hcond, if_true]
    rfl
  · simp only [SqlServer.counted, hthere', hcond]
    rfl

/-- A `SELECT` without limit, on a table that is there. -/
lemma serve_askSelect (hthere : S.present ns = true) (cond : Cond) :
    (onCollection (askSelect ns cond none)).serve (registryServer now S.tables) (T, rows) =
      (if cond.wellFormed then .ok (rows.filter (S.matches ns cond))
        else .error (internalError (S.detail (.select ns cond none))), (T, rows)) := by
  have hthere' : S.misses (.select ns cond none) = false := by
    simp [SqlServer.misses, Request.ns, hthere]
  have hstatement : (sql (.table (.select ns cond none))).serve (registryServer now S.tables)
      (T, rows) = (if cond.wellFormed then .ok (rows.filter (S.matches ns cond))
        else .error (internalError (S.detail (.select ns cond none))), (T, rows)) := by
    rw [serve_statement]
    by_cases hcond : cond.wellFormed = true
    · simp only [registryServer, SqlServer.tables, SqlServer.handler, hthere', SqlServer.perform,
        hcond, if_true]
      rfl
    · simp only [registryServer, SqlServer.tables, SqlServer.handler, hthere', SqlServer.perform,
        hcond]
      rfl
  exact (serve_bind_pure _ (sql (.table (.select ns cond none))) _).trans hstatement

/-- The operations of a collection, one after the other. -/
lemma onCollection_bind {α β : Type} (x : SqlProgram α) (f : α → SqlProgram β) :
    onCollection (x >>= f) = onCollection x >>= fun a => onCollection (f a) := by
  induction x with
  | done a => rfl
  | fail e => rfl
  | ask q next ih =>
    change (sql (.table q)) >>= (fun r => onCollection (next r >>= f)) =
      ((sql (.table q)) >>= fun r => onCollection (next r)) >>= fun a => onCollection (f a)
    rw [bind_bind]
    exact bind_congr fun r => ih r

/-- A computation without statements. -/
lemma onCollection_ofExcept {α : Type} (x : Except TranslatorError α) :
    onCollection (ofExcept x) = ofExcept x := by
  cases x with
  | ok a => rfl
  | error e => rfl

/-- What a find loads before it shapes the results. -/
lemma serve_load (hthere : S.present ns = true) (L : Libbson) (query : Doc) :
    (onCollection (load L ns query)).serve (registryServer now S.tables) (T, rows) =
      (S.matching L ns query rows >>= fun found => found.mapM fun row => L.fromExtjson row.doc,
        (T, rows)) := by
  have hexists : (onCollection (requireExists ns)).serve (registryServer now S.tables) (T, rows) =
      (.ok (), (T, rows)) := by
    rw [requireExists, onCollection_bind, serve_bind, serve_askExists, hthere]
    rfl
  rw [load, onCollection_bind, serve_bind, hexists, SqlServer.matching, if_pos hthere]
  dsimp only
  rw [onCollection_bind, onCollection_ofExcept, serve_bind, serve_ofExcept]
  cases compileDocument L query with
  | error e => rfl
  | ok cond =>
    dsimp only
    rw [onCollection_bind, serve_bind, serve_askSelect hthere]
    change _ = ((if cond.wellFormed then Except.ok (rows.filter (S.matches ns cond))
        else .error (internalError (S.detail (.select ns cond none)))) >>= fun found =>
      found.mapM fun row => L.fromExtjson row.doc, (T, rows))
    by_cases hcond : cond.wellFormed = true
    · rw [if_pos hcond]
      dsimp only
      rw [onCollection_ofExcept, serve_ofExcept]
      rfl
    · rw [if_neg hcond]
      rfl

/-- What a count makes of the number that SQL counted: less the skip, and cut off at the limit. -/
def countNumber (found : ℕ) (skip limit : ℤ) : ℤ :=
  let rest := max 0 (found - skip)
  if limit > 0 then min rest limit else rest

/-- The reply of a count.  The number becomes a 32-bit integer. -/
def countReply (found : ℕ) (skip limit : ℤ) : Doc :=
  [("n".toList, .int32 (Int32.ofInt (countNumber found skip limit))),
    ("ok".toList, .double okDouble)]

/-- **The count.**  It counts the matching rows. -/
theorem serve_cmdCount {ctx : Ctx} (hns : ctx.ns = .ok ns) :
    (cmdCount ctx).serve (registryServer now S.tables) (T, rows) =
      ((S.matching ctx.L ns (ctx.subDocument "query".toList) rows).map fun found =>
        countReply found.length (numberField ctx.body "skip".toList 0)
          (numberField ctx.body "limit".toList 0), (T, rows)) := by
  rw [cmdCount, hns, serve_bind, serve_ofExcept]
  dsimp only
  rw [serve_bind, serve_askExists]
  dsimp only
  unfold SqlServer.matching
  cases hthere : S.present ns with
  | false => rfl
  | true =>
    rw [if_pos rfl, if_pos rfl]
    cases compileDocument ctx.L (ctx.subDocument "query".toList) with
    | error e => rfl
    | ok cond =>
      refine (serve_countRows_bind hthere cond _).trans ?_
      change _ = ((if cond.wellFormed then Except.ok (rows.filter (S.matches ns cond))
        else .error (internalError (S.detail (.select ns cond none)))).map _, (T, rows))
      by_cases hcond : cond.wellFormed = true
      · rw [if_pos hcond, if_pos hcond, List.countP_eq_length_filter]
        rfl
      · rw [if_neg hcond, if_neg hcond]
        rfl

/-- The documents of a find without order and projection. -/
def page (documents : List Doc) (skip limit : ℤ) : List Doc :=
  let kept := documents.drop skip.toNat
  if limit = 0 then kept else kept.take limit.natAbs

/-- Without order and projection only skip and limit are left. -/
lemma shapeResults_plain (documents : List Doc) (skip limit : ℤ) :
    shapeResults documents [] [] skip limit = .ok (page documents skip limit) := rfl

/-- **The documents of a find.**  It loads all matching documents, and cuts out a page. -/
theorem serve_foundDocuments {ctx : Ctx} (hsort : ctx.subDocument "sort".toList = [])
    (hprojection : ctx.subDocument "projection".toList = []) :
    (foundDocuments ctx ns).serve (registryServer now S.tables) (T, rows) =
      (((S.matching ctx.L ns (ctx.subDocument "filter".toList) rows) >>= fun found =>
        found.mapM fun row => ctx.L.fromExtjson row.doc).map fun documents =>
          page documents (numberField ctx.body "skip".toList 0)
            (numberField ctx.body "limit".toList 0), (T, rows)) := by
  rw [foundDocuments, serve_bind, serve_askExists]
  dsimp only
  cases hthere : S.present ns with
  | false =>
    have hpage (skip limit : ℤ) : page [] skip limit = [] := by simp [page]
    have hnone : S.matching ctx.L ns (ctx.subDocument "filter".toList) rows = .ok [] := by
      rw [SqlServer.matching, hthere]
      rfl
    rw [hnone]
    change _ = (Except.ok (page [] _ _), (T, rows))
    rw [hpage]
    rfl
  | true =>
    rw [if_pos rfl, serve_bind, serve_load hthere]
    simp only [hsort, hprojection, shapeResults_plain, serve_ofExcept]
    cases (S.matching ctx.L ns (ctx.subDocument "filter".toList) rows) >>= fun found =>
        found.mapM fun row => ctx.L.fromExtjson row.doc with
    | error e => rfl
    | ok documents => rfl

/-! ## Batches -/

/-- A call of the registry. -/
lemma serve_registry {S : Type} (rest : WireServer S) (call : RegistryCall) (s : S) :
    (registry call).serve (registryServer now rest) (T, s) =
      (.ok (T.answer now call).1, ((T.answer now call).2, s)) := rfl

/-- The request for the next batch, as it is read. -/
lemma moreRequest_more {ctx : ReadCtx} (hns : ctx.ns = .ok ns) (id : Int64) :
    moreRequest (ctx.more id).db (ctx.more id).body =
      .ok ⟨id.toInt, (Value.int64 id).toDouble.truncate, ns, defaultBatchSize⟩ := by
  have hparse : parseNamespace ctx.db ctx.argument = .ok ns := hns
  change (parseNamespace ctx.db ctx.argument >>= fun ns => Except.ok
    (MoreRequest.mk id.toInt (Value.int64 id).toDouble.truncate ns
      (Int32.ofInt defaultBatchSize).toInt)) = _
  rw [hparse]
  rfl

/-- A `getMore` takes a batch from a cursor that is there. -/
lemma serve_cmdGetMore {S : Type} (rest : WireServer S) (s : S) {ctx : ReadCtx}
    (hns : ctx.ns = .ok ns) {id : ℤ} (h₁ : 1 ≤ id) (h₂ : id < 2 ^ 53)
    (htail : T.tailing id = none) {entry : CursorEntry}
    (hentry : T.buffered.cursors id = some entry) (hentryns : entry.ns = ns.text) :
    ∃ T' : CursorTable, (cmdGetMore (ctx.more (Int64.ofInt id))).serve
        (registryServer now rest) (T, s) =
          (.ok (cursorReply (if (entry.remaining.drop 101).isEmpty then 0 else id) ns.text
            "nextBatch" (entry.remaining.take 101) none), (T', s)) ∧
      T'.tailing = T.tailing ∧ (¬ (entry.remaining.drop 101).isEmpty →
        T'.buffered.cursors id =
          some { entry with remaining := entry.remaining.drop 101, lastUsed := now }) := by
  obtain ⟨R', hbatch, hleft⟩ :=
    nextBatch_of_entry now (show 0 < defaultBatchSize by decide) hentry hentryns
  have htailing : T.answer now (.tailState id ns.text) = (none, T) := by
    change T.tailState now id ns.text = _
    rw [CursorTable.tailState, htail]
  have hnext : T.answer now (.nextBatch id ns.text defaultBatchSize) =
      (.ok (entry.remaining.take 101, (entry.remaining.drop 101).isEmpty),
        { T with buffered := R' }) := by
    have hbatch' : T.nextBatch now id ns.text defaultBatchSize =
        .ok (entry.remaining.take 101, (entry.remaining.drop 101).isEmpty,
          { T with buffered := R' }) := by
      rw [CursorTable.nextBatch, htail]
      dsimp only
      rw [hbatch]
      rfl
    simp only [CursorTable.answer, hbatch']
  refine ⟨{ T with buffered := R' }, ?_, rfl, hleft⟩
  rw [cmdGetMore_eq, moreRequest_more hns, toDouble_truncate_cursorId h₁ h₂, serve_bind,
    serve_ofExcept]
  dsimp only
  refine (serve_bind _ _).trans ?_
  rw [serve_registry, htailing]
  refine (serve_bind _ _).trans ?_
  rw [serve_registry, hnext]
  rfl

/-- The documents of a batch are read back. -/
lemma cursorBatch_documentArray {cursor : Doc} {batchName : Text} {batch : List Doc}
    (h : findField cursor batchName = some (documentArray batch)) :
    cursorBatch cursor batchName = batch := by
  have hview : viewField cursor batchName = some (makeArray (batch.map .document)) := by
    rw [viewField, h]
    rfl
  rw [cursorBatch, hview, Option.getD_some]
  change (makeArray (batch.map .document)).map
    ((fun element => element.subdocument.getD []) ∘ Prod.snd) = batch
  rw [← List.map_map, map_snd_makeArray, List.map_map]
  exact List.map_id batch

/-- What a client makes of a reply. -/
lemma allBatches_cursorReply (ctx : ReadCtx) (rounds : ℕ) (id : ℤ) (ns : Text) {batchName : String}
    (hname : batchName = "firstBatch" ∨ batchName = "nextBatch") (batch : List Doc) :
    allBatches ctx (rounds + 1) batchName (cursorReply id ns batchName batch none) =
      if Int64.ofInt id = 0 then pure (some batch)
      else do
        let next ← cmdGetMore (ctx.more (Int64.ofInt id))
        let rest ← allBatches ctx rounds "nextBatch" next
        return rest.map (batch ++ ·) := by
  obtain ⟨cursor, hcursor⟩ : ∃ cursor : Doc, cursor = [("id".toList, .int64 (Int64.ofInt id)),
      ("ns".toList, .utf8 ns), (batchName.toList, documentArray batch)] := ⟨_, rfl⟩
  have hview : (viewField (cursorReply id ns batchName batch none) "cursor".toList).getD [] =
      cursor := by
    rw [hcursor]
    rfl
  have hbatch : cursorBatch cursor batchName.toList = batch := by
    refine cursorBatch_documentArray ?_
    rw [hcursor]
    rcases hname with rfl | rfl
    · rfl
    · rfl
  have hid : findField cursor "id".toList = some (.int64 (Int64.ofInt id)) := by
    rw [hcursor]
    rfl
  rw [allBatches, hview]
  simp only [hbatch, hid]

/-- A reply without a cursor is the last. -/
lemma allBatches_last (ctx : ReadCtx) (rounds : ℕ) (ns : Text) {batchName : String}
    (hname : batchName = "firstBatch" ∨ batchName = "nextBatch") (batch : List Doc) :
    allBatches ctx (rounds + 1) batchName (cursorReply 0 ns batchName batch none) =
      pure (some batch) := by
  rw [allBatches_cursorReply ctx rounds 0 ns hname]
  rfl

/-- The number of a cursor is not zero. -/
lemma ofInt_cursorId_ne_zero {id : ℤ} (h₁ : 1 ≤ id) (h₂ : id < 2 ^ 53) :
    Int64.ofInt id ≠ 0 := by
  intro hzero
  have hid : (Int64.ofInt id).toInt = id := Int64.toInt_ofInt_of_le (by omega) (by omega)
  rw [hzero, Int64.toInt_zero] at hid
  omega

/-- **Draining.**  A client that asks often enough gets what is left of a cursor. -/
theorem serve_allBatches {S : Type} (rest : WireServer S) (s : S) {ctx : ReadCtx}
    (hns : ctx.ns = .ok ns) {id : ℤ} (h₁ : 1 ≤ id) (h₂ : id < 2 ^ 53) {T : CursorTable}
    (htail : T.tailing id = none) {entry : CursorEntry}
    (hentry : T.buffered.cursors id = some entry) (hentryns : entry.ns = ns.text)
    {batchName : String} (hname : batchName = "firstBatch" ∨ batchName = "nextBatch")
    (batch : List Doc) :
    ∃ enough, ∀ rounds, ((allBatches ctx rounds batchName
        (cursorReply id ns.text batchName batch none)).serve (registryServer now rest) (T, s)).1 =
      .ok (if enough ≤ rounds then some (batch ++ entry.remaining) else none) := by
  -- every round takes a batch from the cursor
  induction hlength : entry.remaining.length using Nat.strongRecOn
    generalizing T batchName batch entry with
  | ind length ih =>
    obtain ⟨T', hmore, htail', hleft⟩ :=
      serve_cmdGetMore rest s hns h₁ h₂ htail hentry hentryns
    obtain ⟨reply, hreply⟩ : ∃ reply, reply = cursorReply
        (if (entry.remaining.drop 101).isEmpty then 0 else id) ns.text "nextBatch"
        (entry.remaining.take 101) none := ⟨_, rfl⟩
    rw [← hreply] at hmore
    have hstep (rounds : ℕ) : ((allBatches ctx (rounds + 1) batchName
        (cursorReply id ns.text batchName batch none)).serve (registryServer now rest) (T, s)).1 =
        ((allBatches ctx rounds "nextBatch" reply).serve (registryServer now rest) (T', s)).1.map
          (Option.map (batch ++ ·)) := by
      rw [allBatches_cursorReply ctx rounds id ns.text hname,
        if_neg (ofInt_cursorId_ne_zero h₁ h₂), serve_bind, hmore]
      dsimp only
      rw [serve_bind]
      cases (allBatches ctx rounds "nextBatch" reply).serve (registryServer now rest) (T', s) with
      | mk result t =>
        cases result with
        | ok documents => rfl
        | error e => rfl
    by_cases hempty : (entry.remaining.drop 101).isEmpty = true
    · rw [if_pos hempty] at hreply
      have hall : entry.remaining.take 101 = entry.remaining :=
        List.take_of_length_le (List.drop_eq_nil_iff.1 (List.isEmpty_iff.1 hempty))
      refine ⟨2, fun rounds => ?_⟩
      rcases rounds with _ | _ | rounds
      · rfl
      · rw [hstep]
        rfl
      · rw [hstep, hreply, allBatches_last ctx rounds ns.text (.inr rfl), hall,
          if_pos (by omega)]
        rfl
    · rw [if_neg hempty] at hreply
      have hshort : (entry.remaining.drop 101).length < length := by
        have hpos : 0 < (entry.remaining.drop 101).length :=
          List.length_pos_iff.2 fun h => hempty (List.isEmpty_iff.2 h)
        rw [List.length_drop] at hpos ⊢
        omega
      have htail'' : T'.tailing id = none := by rw [htail', htail]
      obtain ⟨enough, henough⟩ := ih _ hshort htail'' (hleft hempty) hentryns (.inr rfl)
        (entry.remaining.take 101) rfl
      refine ⟨enough + 1, fun rounds => ?_⟩
      cases rounds with
      | zero => rfl
      | succ rounds =>
        rw [hstep, hreply, henough rounds, List.take_append_drop]
        by_cases hle : enough ≤ rounds
        · rw [if_pos hle, if_pos (by omega)]
          rfl
        · rw [if_neg hle, if_neg (by omega)]
          rfl

/-- The documents that a find delivers of those it found: all of them, or only the first batch. -/
def delivered (documents : List Doc) (limit batchSize : ℤ) : List Doc :=
  if limit < 0 then documents.take (firstBatchSize documents batchSize) else documents

/-- A find with all its batches: its documents, the first reply, and what comes after it. -/
lemma findAll_eq {ctx : ReadCtx} (hns : ctx.ns = .ok ns)
    (hcollection : isOplogNamespace ns = false)
    (hbatches : flag ctx.body "singleBatch".toList false = false) (rounds : ℕ) :
    findAll ctx rounds = foundDocuments ctx.toCtx ns >>= fun documents =>
      replyFirst ctx.toCtx ns.text documents
        (decide (numberField ctx.body "limit".toList 0 < 0)) >>= fun reply =>
          allBatches ctx rounds "firstBatch" reply := by
  have hcmd : cmdFind ctx.toCtx = findCollection ctx.toCtx ns := by
    rw [cmdFind, hns]
    change (if isOplogNamespace ns = true then _ else _) = _
    rw [hcollection]
    rfl
  rw [findAll, hcmd, findCollection_eq, hbatches, bind_bind]
  rfl

/-- **The batches of a find.**  A client that asks often enough gets what the find found, or, with
a negative limit, the first batch of it. -/
theorem serve_findAll {S : Type} {rest : WireServer S} {s : S} {ctx : ReadCtx}
    (hns : ctx.ns = .ok ns) (hcollection : isOplogNamespace ns = false) (hT : T.Ready)
    (hbatches : flag ctx.body "singleBatch".toList false = false) {documents : List Doc}
    (hfound : (foundDocuments ctx.toCtx ns).serve (registryServer now rest) (T, s) =
      (.ok documents, (T, s))) :
    ∃ enough, ∀ rounds, ((findAll ctx rounds).serve (registryServer now rest) (T, s)).1 =
      .ok (if enough ≤ rounds then some (delivered documents
        (numberField ctx.body "limit".toList 0)
        (numberField ctx.body "batchSize".toList defaultBatchSize)) else none) := by
  obtain ⟨limit, hlimit⟩ : ∃ limit, limit = numberField ctx.body "limit".toList 0 := ⟨_, rfl⟩
  obtain ⟨take, htake⟩ : ∃ take, take = firstBatchSize documents
      (numberField ctx.body "batchSize".toList defaultBatchSize) := ⟨_, rfl⟩
  have hserve (rounds : ℕ) : (findAll ctx rounds).serve (registryServer now rest) (T, s) =
      ((replyFirst ctx.toCtx ns.text documents (decide (limit < 0))) >>= fun reply =>
        allBatches ctx rounds "firstBatch" reply).serve (registryServer now rest) (T, s) := by
    rw [findAll_eq hns hcollection hbatches, serve_bind, hfound, hlimit]
  -- the reply names no cursor, and is the only one
  have hlast (batch : List Doc)
      (h : (replyFirst ctx.toCtx ns.text documents (decide (limit < 0))).serve
        (registryServer now rest) (T, s) = (.ok (cursorReply 0 ns.text "firstBatch" batch none),
          (T, s))) :
      ∃ enough, ∀ rounds, ((findAll ctx rounds).serve (registryServer now rest) (T, s)).1 =
        .ok (if enough ≤ rounds then some batch else none) := by
    refine ⟨1, fun rounds => ?_⟩
    rw [hserve, serve_bind, h]
    cases rounds with
    | zero => rfl
    | succ rounds =>
      dsimp only
      rw [allBatches_last ctx rounds ns.text (.inl rfl), if_pos (by omega)]
      rfl
  rw [← hlimit, delivered, ← htake]
  by_cases hneg : limit < 0
  · rw [if_pos hneg]
    refine hlast _ ?_
    rw [decide_eq_true hneg, htake]
    rfl
  · rw [if_neg hneg]
    have hopen := serve_replyFirst now rest ctx.toCtx ns.text documents T s
      (fun h : false = true => nomatch h)
    rw [decide_eq_false hneg] at hlast hserve
    rw [← htake] at hopen
    by_cases hempty : (documents.drop take).isEmpty = true
    · have hnone : T.openCursor now ns.text (documents.drop take) = (0, T) := if_pos hempty
      have hall : documents.take take = documents :=
        List.take_of_length_le (List.drop_eq_nil_iff.1 (List.isEmpty_iff.1 hempty))
      rw [hnone, hall] at hopen
      exact hlast documents hopen
    · obtain ⟨opened, hopened⟩ : ∃ opened : CursorTable,
          opened = { T.expireIdle now with
            buffered := (T.expireIdle now).buffered.register
              ⟨ns.text, documents.drop take, now⟩ } := ⟨_, rfl⟩
      have hsome : T.openCursor now ns.text (documents.drop take) =
          (T.buffered.nextId, opened) := by
        rw [hopened]
        exact if_neg hempty
      have htail : opened.tailing T.buffered.nextId = none := by
        simp [hopened, CursorTable.expireIdle, hT.free]
      have hentry : opened.buffered.cursors T.buffered.nextId =
          some ⟨ns.text, documents.drop take, now⟩ := by
        rw [hopened]
        exact Function.update_self _ _ _
      rw [hsome] at hopen
      obtain ⟨enough, henough⟩ := serve_allBatches rest s hns hT.positive hT.exact
        htail hentry rfl (.inl rfl) (documents.take take)
      refine ⟨enough, fun rounds => ?_⟩
      rw [hserve, serve_bind, hopen]
      dsimp only
      rw [henough rounds, List.take_append_drop]

/-! ## The numbers -/

/-- How many documents a find delivers. -/
lemma length_delivered (documents : List Doc) (skip limit batchSize : ℤ) :
    ((delivered (page documents skip limit) limit batchSize).length : ℤ) =
      let kept : ℤ := max 0 (documents.length - max 0 skip)
      let capped : ℤ := if limit = 0 then kept else min kept |limit|
      if limit < 0 then min capped (max 0 batchSize) else capped := by
  have hkept : ((documents.drop skip.toNat).length : ℤ) =
      max 0 (documents.length - max 0 skip) := by
    rw [List.length_drop]
    omega
  have hpage : ((page documents skip limit).length : ℤ) =
      if limit = 0 then max 0 (documents.length - max 0 skip)
      else min (max 0 (documents.length - max 0 skip)) |limit| := by
    unfold page
    by_cases hzero : limit = 0
    · rw [if_pos hzero, if_pos hzero, hkept]
    · rw [if_neg hzero, if_neg hzero, List.length_take, Nat.cast_min, hkept, Int.natCast_natAbs,
        min_comm]
  dsimp only
  rw [← hpage, delivered]
  by_cases hneg : limit < 0
  · rw [if_pos hneg, if_pos hneg, List.length_take, firstBatchSize]
    omega
  · rw [if_neg hneg, if_neg hneg]

/-- A 32-bit integer is a number below `2 ^ 31` exactly where it was that number before. -/
lemma toInt_ofInt_eq_iff {c n : ℤ} (hc : 0 ≤ c) (hc' : c < 2 ^ 32) (hn : 0 ≤ n) :
    (Int32.ofInt c).toInt = n ↔ c = n ∧ n < 2 ^ 31 := by
  rw [Int32.toInt_ofInt, Int32.size, Int.bmod_def]
  omega

/-- **The arithmetic.**  The two numbers are the same for arguments that are paged alike. -/
lemma countNumber_eq_iff {n : ℕ} {skip limit batchSize : ℤ} (hn : n < 2 ^ 31)
    (hskip : |skip| < 2 ^ 31) {documents : List Doc} (hlength : documents.length = n) :
    (Int32.ofInt (countNumber n skip limit)).toInt =
        ((delivered (page documents skip limit) limit batchSize).length : ℤ) ↔
      PagedAlike n skip limit batchSize := by
  have hskip' : -2 ^ 31 < skip ∧ skip < 2 ^ 31 := abs_lt.1 hskip
  have hnumber : 0 ≤ countNumber n skip limit ∧ countNumber n skip limit < 2 ^ 32 := by
    unfold countNumber
    dsimp only
    split_ifs
    · omega
    · omega
  rw [toInt_ofInt_eq_iff hnumber.1 hnumber.2 (Int.natCast_nonneg _), length_delivered, hlength,
    PagedAlike, countNumber]
  dsimp only
  obtain hneg | rfl | hpos := lt_trichotomy limit 0
  · rw [if_neg (show ¬ limit > 0 by omega), if_pos hneg, if_neg hneg.ne, abs_of_neg hneg]
    omega
  · simp
    omega
  · rw [if_pos hpos, if_neg hpos.not_gt, if_neg hpos.ne', abs_of_pos hpos]
    omega

/-- What the count reports. -/
lemma countReports_iff {ctx : Ctx} (hns : ctx.ns = .ok ns) {n : ℤ} :
    CountReports S now T rows ctx n ↔
      ∃ found, S.matching ctx.L ns (ctx.subDocument "query".toList) rows = .ok found ∧
        (Int32.ofInt (countNumber found.length (numberField ctx.body "skip".toList 0)
          (numberField ctx.body "limit".toList 0))).toInt = n := by
  unfold CountReports
  rw [serve_cmdCount hns]
  cases S.matching ctx.L ns (ctx.subDocument "query".toList) rows with
  | error e => simp [Except.map]
  | ok found =>
    constructor
    · rintro ⟨reply, v, hreply, hv, hn⟩
      obtain rfl := Except.ok.inj hreply
      obtain rfl := Value.int32.inj (Option.some.inj hv)
      exact ⟨found, rfl, hn⟩
    · rintro ⟨found', hfound, hn⟩
      obtain rfl := Except.ok.inj hfound
      exact ⟨_, _, rfl, rfl, hn⟩

/-- What the find returns. -/
lemma findReturns_iff {count : Ctx} {find : ReadCtx} (h : SameQuestion count find ns)
    (hT : T.Ready) {n : ℤ} :
    FindReturns S now T rows find n ↔
      ∃ found documents, S.matching count.L ns (count.subDocument "query".toList) rows = .ok found ∧
        (found.mapM fun row => count.L.fromExtjson row.doc) = .ok documents ∧
        ((delivered (page documents (numberField count.body "skip".toList 0)
          (numberField count.body "limit".toList 0)) (numberField count.body "limit".toList 0)
          (numberField find.body "batchSize".toList defaultBatchSize)).length : ℤ) = n := by
  obtain ⟨skip, hskip⟩ : ∃ skip, skip = numberField count.body "skip".toList 0 := ⟨_, rfl⟩
  obtain ⟨limit, hlimit⟩ : ∃ limit, limit = numberField count.body "limit".toList 0 := ⟨_, rfl⟩
  obtain ⟨loaded, hloaded⟩ : ∃ loaded, loaded =
      (S.matching count.L ns (count.subDocument "query".toList) rows) >>= fun found =>
        found.mapM fun row => count.L.fromExtjson row.doc := ⟨_, rfl⟩
  rw [← hskip, ← hlimit]
  have hdocuments : (foundDocuments find.toCtx ns).serve (registryServer now S.tables) (T, rows) =
      (loaded.map fun documents => page documents skip limit, (T, rows)) := by
    rw [hloaded, hskip, hlimit, ← h.library, ← h.query, ← h.skip, ← h.limit]
    exact serve_foundDocuments h.sort h.projection
  unfold FindReturns
  cases loaded with
  | error e =>
    constructor
    · rintro ⟨rounds, documents, hserve, -⟩
      rw [findAll_eq h.find_ns h.collection h.batches, serve_bind, hdocuments] at hserve
      cases hserve
    · rintro ⟨found, documents, hfound, hread, -⟩
      rw [hfound] at hloaded
      cases hloaded.trans hread
  | ok documents =>
    obtain ⟨enough, henough⟩ :=
      serve_findAll h.find_ns h.collection hT h.batches hdocuments
    rw [h.limit, ← hlimit] at henough
    constructor
    · rintro ⟨rounds, batches, hserve, hn⟩
      rw [henough rounds] at hserve
      obtain ⟨found, hfound, hread⟩ := except_bind_eq_ok.1 hloaded.symm
      refine ⟨found, documents, hfound, hread, ?_⟩
      by_cases hle : enough ≤ rounds
      · rw [if_pos hle] at hserve
        rw [Option.some.inj (Except.ok.inj hserve)]
        exact hn
      · rw [if_neg hle] at hserve
        cases hserve
    · rintro ⟨found, documents', hfound, hread, hn⟩
      rw [hfound] at hloaded
      obtain rfl := Except.ok.inj (hloaded.trans hread)
      have hserve := henough enough
      rw [if_pos le_rfl] at hserve
      exact ⟨enough, _, hserve, hn⟩

/-- A query selects no more documents than there are. -/
lemma length_matching_le {found : List Row} (h : S.matching L ns query rows = .ok found) :
    found.length ≤ (rows.filter fun row => row.ns = ns).length := by
  unfold SqlServer.matching at h
  by_cases hthere : S.present ns = true
  · rw [if_pos hthere] at h
    obtain ⟨cond, -, hfound⟩ := except_bind_eq_ok.1 h
    by_cases hcond : cond.wellFormed = true
    · rw [if_pos hcond] at hfound
      obtain rfl := Except.ok.inj hfound
      refine (List.monotone_filter_right rows fun row hrow => ?_).length_le
      rw [SqlServer.matches, Bool.and_eq_true] at hrow
      exact hrow.1
    · rw [if_neg hcond] at hfound
      cases hfound
  · rw [if_neg hthere] at h
    obtain rfl := Except.ok.inj h
    exact Nat.zero_le _

/-- Rows that decode together decode one by one. -/
lemma Readable.of_mapM {found : List Row} {documents : List Doc}
    (h : (found.mapM fun row => L.fromExtjson row.doc) = .ok documents) : Readable L found := by
  intro row hrow
  obtain ⟨document, -, hread⟩ := exists_right_of_forall₂ (mapM_eq_ok_iff.1 h) hrow
  exact ⟨document, hread⟩

/-- **Counting what a find returns.**  The number that a count reports is the number of documents
that a find with the same query, skip and limit returns over all its batches exactly when the
query is refused, or every matching document can be read and the arguments are paged alike. -/
theorem count_agrees_iff {count : Ctx} {find : ReadCtx} (h : SameQuestion count find ns)
    (hT : T.Ready) (hrows : (rows.filter fun row => row.ns = ns).length < 2 ^ 31)
    (hskip : |numberField count.body "skip".toList 0| < 2 ^ 31) :
    CountAgrees S now T rows count find ↔
      ∀ found, S.matching count.L ns (count.subDocument "query".toList) rows = .ok found →
        Readable count.L found ∧ PagedAlike found.length (numberField count.body "skip".toList 0)
          (numberField count.body "limit".toList 0)
          (numberField find.body "batchSize".toList defaultBatchSize) := by
  constructor
  · intro hagree found hfound
    obtain ⟨found', documents, hfound', hread, hn⟩ := (findReturns_iff h hT).1
      ((hagree _).1 ((countReports_iff h.count_ns).2 ⟨found, hfound, rfl⟩))
    obtain rfl := Except.ok.inj (hfound'.symm.trans hfound)
    refine ⟨.of_mapM hread, ?_⟩
    exact (countNumber_eq_iff ((length_matching_le hfound).trans_lt hrows) hskip
      (mapM_eq_ok_iff.1 hread).length_eq.symm).1 hn.symm
  · intro hcondition n
    rw [countReports_iff h.count_ns, findReturns_iff h hT]
    -- a query that selects rows makes both numbers
    have hboth : ∀ found documents,
        S.matching count.L ns (count.subDocument "query".toList) rows = .ok found →
        (found.mapM fun row => count.L.fromExtjson row.doc) = .ok documents →
        (Int32.ofInt (countNumber found.length (numberField count.body "skip".toList 0)
          (numberField count.body "limit".toList 0))).toInt =
        ((delivered (page documents (numberField count.body "skip".toList 0)
          (numberField count.body "limit".toList 0)) (numberField count.body "limit".toList 0)
          (numberField find.body "batchSize".toList defaultBatchSize)).length : ℤ) :=
      fun found documents hfound hread =>
        (countNumber_eq_iff ((length_matching_le hfound).trans_lt hrows) hskip
          (mapM_eq_ok_iff.1 hread).length_eq.symm).2 (hcondition found hfound).2
    constructor
    · rintro ⟨found, hfound, hn⟩
      obtain ⟨documents, hread⟩ := (hcondition found hfound).1.mapM
      exact ⟨found, documents, hfound, hread, (hboth found documents hfound hread).symm.trans hn⟩
    · rintro ⟨found, documents, hfound, hread, hn⟩
      exact ⟨found, hfound, (hboth found documents hfound hread).trans hn⟩

/-- A count of a collection, with one option. -/
def countItems (name : String) (v : Value) : Ctx :=
  { (plainRead "count" (.utf8 "items".toList)).toCtx with
    body := [("count".toList, .utf8 "items".toList), (name.toList, v)] }

/-- A find on the collection, with the same option. -/
def findItems (name : String) (v : Value) : ReadCtx :=
  { plainRead "find" (.utf8 "items".toList) with
    body := [("find".toList, .utf8 "items".toList), (name.toList, v)] }

/-- Two documents. -/
def twoItems : List Row :=
  [⟨⟨"app".toList, "items".toList⟩, tagString :: "a".toList, .obj [(idName, .str "a".toList)]⟩,
    ⟨⟨"app".toList, "items".toList⟩, tagString :: "b".toList, .obj [(idName, .str "b".toList)]⟩]

/-- The two commands ask for the same. -/
lemma sameQuestion_items {name : String} (hname : name = "skip" ∨ name = "limit") (v : Value) :
    SameQuestion (countItems name v) (findItems name v) ⟨"app".toList, "items".toList⟩ := by
  rcases hname with rfl | rfl
  · exact ⟨rfl, rfl, rfl, rfl, rfl, rfl, rfl, rfl, rfl, rfl⟩
  · exact ⟨rfl, rfl, rfl, rfl, rfl, rfl, rfl, rfl, rfl, rfl⟩

/-- The first cursor of a registry. -/
lemma ready_start : CursorSystem.start.table.Ready :=
  ⟨le_rfl, by decide, rfl⟩

/-- One of two documents is skipped by both. -/
theorem count_agrees_iff_skip :
    CountAgrees .ofStrings 0 CursorSystem.start.table twoItems (countItems "skip" (.int32 1))
      (findItems "skip" (.int32 1)) := by
  refine (count_agrees_iff (sameQuestion_items (.inl rfl) _) ready_start (by decide)
    (by decide +kernel)).2 ?_
  intro found hfound
  obtain rfl : twoItems = found := Except.ok.inj hfound
  refine ⟨?_, ?_⟩
  · rintro row (_ | ⟨_, _ | ⟨_, ⟨⟩⟩⟩)
    · exact ⟨[(idName, .utf8 "a".toList)], rfl⟩
    · exact ⟨[(idName, .utf8 "b".toList)], rfl⟩
  · have hskip : numberField (countItems "skip" (.int32 1)).body "skip".toList 0 = 1 := by
      decide +kernel
    rw [hskip]
    exact .inl ⟨by decide, .inl le_rfl⟩

/-- A negative limit: the find returns one of two documents, in one batch, and the count counts
both. -/
theorem count_ignores_negative_limit :
    CountReports .ofStrings 0 CursorSystem.start.table twoItems (countItems "limit" (.int32 (-1)))
        2 ∧
      FindReturns .ofStrings 0 CursorSystem.start.table twoItems (findItems "limit" (.int32 (-1)))
        1 ∧
      ¬ CountAgrees .ofStrings 0 CursorSystem.start.table twoItems
        (countItems "limit" (.int32 (-1))) (findItems "limit" (.int32 (-1))) := by
  have hcounts (n : ℤ) : CountReports .ofStrings 0 CursorSystem.start.table twoItems
      (countItems "limit" (.int32 (-1))) n ↔ n = 2 := by
    have hns : (countItems "limit" (.int32 (-1))).ns = .ok ⟨"app".toList, "items".toList⟩ := rfl
    rw [countReports_iff hns]
    have hnumber : (Int32.ofInt (countNumber twoItems.length
        (numberField (countItems "limit" (.int32 (-1))).body "skip".toList 0)
        (numberField (countItems "limit" (.int32 (-1))).body "limit".toList 0))).toInt = 2 := by
      decide +kernel
    constructor
    · rintro ⟨found, hfound, hn⟩
      obtain rfl : twoItems = found := Except.ok.inj hfound
      exact hn.symm.trans hnumber
    · rintro rfl
      exact ⟨twoItems, rfl, hnumber⟩
  have hfind : FindReturns .ofStrings 0 CursorSystem.start.table twoItems
      (findItems "limit" (.int32 (-1))) 1 := by
    refine (findReturns_iff (sameQuestion_items (.inr rfl) _) ready_start).2
      ⟨twoItems, [[(idName, .utf8 "a".toList)], [(idName, .utf8 "b".toList)]], rfl, rfl, ?_⟩
    decide +kernel
  refine ⟨(hcounts 2).2 rfl, hfind, fun hagree => ?_⟩
  have hone := (hcounts 1).1 ((hagree 1).2 hfind)
  omega

end Chimera

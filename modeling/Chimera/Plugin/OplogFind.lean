import Chimera.Oplog.Tail
import Chimera.Plugin.CountFind
import Chimera.Plugin.Reselection

/-!
# A find on the oplog that does not tail

`find_oplog` reads one page of the oplog and replies with the cursor id zero, whether or not the
page holds everything.  The page takes as many entries as the limit says, and without a limit as
many as the first batch may hold.
-/

namespace Chimera

open Interaction SequencedLog

/-- The table of the oplog, in the order of its key.  The first number of `AUTO_INCREMENT` is
one. -/
structure OplogTable where
  /-- The rows. -/
  rows : List OplogRow
  /-- They are in the order of their numbers. -/
  sequenced : Sequenced OplogRow.seq rows
  /-- No row has the number zero. -/
  positive : ∀ r ∈ rows, 0 < r.seq

namespace OplogTable

variable (table : OplogTable) (M : MariaDB)

/-- The rows whose entries meet a condition, in the order of a read. -/
def ordered (newestFirst : Bool) : List OplogRow :=
  if newestFirst then table.rows.reverse else table.rows

/-- The entry of a row meets a condition. -/
def meets (cond : Cond) (r : OplogRow) : Bool := decide (cond.eval M (entryExpr r) = some true)

/-- The server, for the statements of a find on the oplog. -/
def server : WireServer Unit
  | .sql _ .oplogHead, s => (.ok (oplogHead table.rows), s)
  | .sql _ (.readOplog cond afterSeq limit newestFirst), s =>
    (if cond.wellFormed then
      .ok ((pageAfter OplogRow.seq (meets M cond) afterSeq limit (table.ordered newestFirst)).map
        fun r => (r.seq, entryExpr r))
    else .error (internalError "syntax".toList), s)
  | q, s => (q.agree, s)

end OplogTable

/-! ## The property -/

/-- The arguments of a find on the oplog. -/
def Ctx.findRequest (ctx : Ctx) (ns : Namespace) (filter : Json → Bool) : FindRequest where
  ns := ns.text
  filter := filter
  newestFirst :=
    decide (numberField (ctx.subDocument "sort".toList) "$natural".toList 1 < 0)
  limit := numberField ctx.body "limit".toList 0
  batchSize := numberField ctx.body "batchSize".toList defaultBatchSize
  tailable := flag ctx.body "tailable".toList false
  awaitData := flag ctx.body "awaitData".toList false

section Property

variable (table : OplogTable) (M : MariaDB) (now : ℤ) (T : CursorTable)

/-- All entries that the request selects, in the order it asks for. -/
def FindRequest.selected (req : FindRequest) : List OplogRow :=
  (table.ordered req.newestFirst).filter req.selects

/-- The entries that a find asks for: all it selects, or as many as the limit says. -/
def FindRequest.requested (req : FindRequest) : List OplogRow :=
  if req.limit > 0 then (req.selected table).take req.limit.toNat else req.selected table

/-- These documents are what a find asks for: its filter is compiled, and the entries are read. -/
def Requested (ctx : Ctx) (documents : List Doc) : Prop :=
  ∃ ns cond, ctx.ns = .ok ns ∧ isOplogNamespace ns = true ∧
    compileDocument ctx.L (ctx.subDocument "filter".toList) = .ok cond ∧ cond.wellFormed = true ∧
    (((ctx.findRequest ns fun entry => decide (cond.eval M entry = some true)).requested
      table).mapM fun r => ctx.L.fromExtjson (entryExpr r)) = .ok documents

/-- A client that follows the cursor until its id is zero gets these documents. -/
def PlainFindReturns (ctx : ReadCtx) (documents : List Doc) : Prop :=
  ∃ enough, ∀ rounds, enough ≤ rounds →
    ((findAll ctx rounds).serve (registryServer now (table.server M)) (T, ())).1 =
      .ok (some documents)

end Property

variable {table : OplogTable} {M : MariaDB} {now : ℤ} {T : CursorTable} {ctx : ReadCtx}
  {ns : Namespace} {cond : Cond}

/-! ## One page -/

/-- A read from the beginning passes over no row. -/
lemma FindRequest.page_eq (req : FindRequest) :
    req.page table.rows = (req.selected table).take req.wanted := by
  have hpositive : ∀ r ∈ table.ordered req.newestFirst, 0 < r.seq := by
    intro r hr
    refine table.positive r ?_
    unfold OplogTable.ordered at hr
    split at hr
    · exact List.mem_reverse.1 hr
    · exact hr
  have hpage : req.page table.rows =
      pageAfter OplogRow.seq req.selects 0 req.wanted (table.ordered req.newestFirst) := by
    unfold FindRequest.page OplogTable.ordered
    split <;> rfl
  rw [hpage, pageAfter, FindRequest.selected]
  congr 1
  refine List.filter_congr fun r hr => ?_
  rw [decide_eq_true (hpositive r hr), Bool.true_and]

/-- The schema of the oplog is there. -/
lemma serve_installOplogSchema :
    installOplogSchema.serve (registryServer now (table.server M)) (T, ()) =
      (.ok (), (T, ())) := rfl

variable (table M now T) in
/-- The statement of a read, and its documents. -/
lemma serve_readOplog {L : Libbson} {filter : Doc} (hcond : compileDocument L filter = .ok cond)
    (hformed : cond.wellFormed = true) (limit : ℕ) (newestFirst : Bool) :
    ∃ lastSeq, (Wire.readOplog L filter 0 limit newestFirst).serve
        (registryServer now (table.server M)) (T, ()) =
      (((pageAfter OplogRow.seq (OplogTable.meets M cond) 0 limit
        (table.ordered newestFirst)).mapM fun r => L.fromExtjson (entryExpr r)).map
          fun documents => (documents, lastSeq), (T, ())) := by
  obtain ⟨page, hpage⟩ : ∃ page, page = pageAfter OplogRow.seq (OplogTable.meets M cond) 0 limit
      (table.ordered newestFirst) := ⟨_, rfl⟩
  have hanswer : registryServer now (table.server M)
      (.sql .connection (.readOplog cond 0 limit newestFirst)) (T, ()) =
      (.ok (page.map fun r => (r.seq, entryExpr r)), (T, ())) := by
    rw [hpage]
    exact congrArg (·, (T, ())) (if_pos hformed)
  have hdocuments : (page.map fun r => (r.seq, entryExpr r)).mapM
      (fun row => L.fromExtjson row.2) = page.mapM fun r => L.fromExtjson (entryExpr r) :=
    List.mapM_map ..
  rw [← hpage]
  refine ⟨((page.map fun r => (r.seq, entryExpr r)).getLast?.map Prod.fst).getD 0, ?_⟩
  rw [Wire.readOplog, hcond, serve_bind, serve_ofExcept]
  dsimp only
  rw [serve_bind, serve_statement, hanswer]
  dsimp only
  rw [serve_bind, serve_ofExcept, hdocuments]
  cases page.mapM fun r => L.fromExtjson (entryExpr r) with
  | error e => rfl
  | ok documents => rfl

/-- **The reply.**  A find that does not tail replies with the documents of its page, and no
cursor. -/
theorem serve_findOplog (hplain : flag ctx.body "tailable".toList false = false)
    (hcond : compileDocument ctx.L (ctx.subDocument "filter".toList) = .ok cond)
    (hformed : cond.wellFormed = true) :
    (findOplog ctx.toCtx ns).serve (registryServer now (table.server M)) (T, ()) =
      ((((ctx.findRequest ns fun entry => decide (cond.eval M entry = some true)).page
        table.rows).mapM fun r => ctx.L.fromExtjson (entryExpr r)).map
          fun documents => cursorReply 0 ns.text "firstBatch" documents none, (T, ())) := by
  obtain ⟨req, hreq⟩ : ∃ req, req =
      ctx.findRequest ns fun entry => decide (cond.eval M entry = some true) := ⟨_, rfl⟩
  have hpage : pageAfter OplogRow.seq (OplogTable.meets M cond) 0 req.wanted
      (table.ordered req.newestFirst) = req.page table.rows := by
    have hselects : req.selects = OplogTable.meets M cond := by
      rw [hreq]
      rfl
    unfold FindRequest.page OplogTable.ordered
    rw [hselects]
    split <;> rfl
  obtain ⟨lastSeq, hread⟩ :=
    serve_readOplog table M now T hcond hformed req.wanted req.newestFirst
  have hhead : (sql .oplogHead).serve (registryServer now (table.server M)) (T, ()) =
      (.ok (oplogHead table.rows), (T, ())) := rfl
  rw [← hreq]
  generalize req.page table.rows = page at hpage ⊢
  rw [hpage] at hread
  simp only [hreq, Ctx.findRequest, FindRequest.wanted] at hread
  unfold findOplog
  rw [serve_bind, serve_installOplogSchema]
  dsimp only
  rw [serve_bind, hhead]
  dsimp only
  rw [serve_bind, hread]
  cases page.mapM fun r => ctx.L.fromExtjson (entryExpr r) with
  | error e => rfl
  | ok documents =>
    dsimp only [Except.map]
    rw [hplain]
    rfl

/-- A client gets the documents of the page and no others. -/
lemma plainFindReturns_iff (hns : ctx.ns = .ok ns) (hoplog : isOplogNamespace ns = true)
    (hplain : flag ctx.body "tailable".toList false = false)
    (hcond : compileDocument ctx.L (ctx.subDocument "filter".toList) = .ok cond)
    (hformed : cond.wellFormed = true) {documents : List Doc} :
    PlainFindReturns table M now T ctx documents ↔
      (((ctx.findRequest ns fun entry => decide (cond.eval M entry = some true)).page
        table.rows).mapM fun r => ctx.L.fromExtjson (entryExpr r)) = .ok documents := by
  have hcmd : cmdFind ctx.toCtx = findOplog ctx.toCtx ns := by
    rw [cmdFind, hns]
    change (if isOplogNamespace ns = true then _ else _) = _
    rw [if_pos hoplog]
  have hserve (rounds : ℕ) : ((findAll ctx (rounds + 1)).serve
      (registryServer now (table.server M)) (T, ())).1 =
      (((ctx.findRequest ns fun entry => decide (cond.eval M entry = some true)).page
        table.rows).mapM fun r => ctx.L.fromExtjson (entryExpr r)).map some := by
    rw [findAll, hcmd, serve_bind, serve_findOplog hplain hcond hformed]
    cases ((ctx.findRequest ns fun entry => decide (cond.eval M entry = some true)).page
        table.rows).mapM fun r => ctx.L.fromExtjson (entryExpr r) with
    | error e => rfl
    | ok page =>
      dsimp only [Except.map]
      rw [allBatches_last ctx rounds ns.text (.inl rfl)]
      rfl
  constructor
  · rintro ⟨enough, henough⟩
    have hall := henough (enough + 1) (Nat.le_succ enough)
    rw [hserve] at hall
    cases hpage : ((ctx.findRequest ns fun entry =>
        decide (cond.eval M entry = some true)).page table.rows).mapM
          fun r => ctx.L.fromExtjson (entryExpr r) with
    | error e =>
      rw [hpage] at hall
      cases hall
    | ok page =>
      rw [hpage] at hall
      rw [Option.some.inj (Except.ok.inj hall)]
  · intro hpage
    refine ⟨1, fun rounds hrounds => ?_⟩
    obtain ⟨rounds, rfl⟩ := Nat.exists_eq_add_of_le' hrounds
    rw [hserve, hpage]
    rfl

/-- A page is the beginning of what is asked for. -/
lemma FindRequest.page_prefix (req : FindRequest) :
    req.page table.rows <+: req.requested table := by
  rw [req.page_eq, requested, wanted]
  split
  · exact List.prefix_rfl
  · exact List.take_prefix _ _

/-- A page is all that is asked for when there is a limit, or no more entries than it may take. -/
lemma FindRequest.page_eq_requested_iff (req : FindRequest) :
    req.page table.rows = req.requested table ↔
      0 < req.limit ∨ ((req.requested table).length : ℤ) ≤ max req.batchSize 1 := by
  rw [req.page_eq, requested, wanted]
  by_cases h : 0 < req.limit
  · rw [if_pos h, if_pos h]
    exact iff_of_true rfl (.inl h)
  · rw [if_neg h, if_neg h, List.take_eq_self_iff]
    have hone : 1 ≤ max req.batchSize 1 := le_max_right _ _
    omega

/-- **A find that does not tail is complete** exactly when it has a limit, or no more entries match
than one batch may hold. -/
theorem plain_find_complete_iff (hplain : flag ctx.body "tailable".toList false = false)
    {documents : List Doc} (hrequested : Requested table M ctx.toCtx documents) :
    PlainFindReturns table M now T ctx documents ↔
      0 < numberField ctx.body "limit".toList 0 ∨ (documents.length : ℤ) ≤
        max (numberField ctx.body "batchSize".toList defaultBatchSize) 1 := by
  obtain ⟨ns, cond, hns, hoplog, hcond, hformed, hdocuments⟩ := hrequested
  rw [plainFindReturns_iff hns hoplog hplain hcond hformed]
  obtain ⟨req, hreq⟩ : ∃ req, req =
      ctx.findRequest ns fun entry => decide (cond.eval M entry = some true) := ⟨_, rfl⟩
  have hlimit : req.limit = numberField ctx.body "limit".toList 0 := congrArg _ hreq
  have hbatch : req.batchSize = numberField ctx.body "batchSize".toList defaultBatchSize :=
    congrArg _ hreq
  rw [← hreq] at hdocuments
  have hlength : (req.requested table).length = documents.length :=
    (mapM_eq_ok_iff.1 hdocuments).length_eq
  rw [← hreq, ← hlimit, ← hbatch, ← hlength, ← req.page_eq_requested_iff]
  constructor
  · intro hpage
    refine req.page_prefix.eq_of_length ?_
    rw [hlength, (mapM_eq_ok_iff.1 hpage).length_eq]
  · intro hall
    rw [hall]
    exact hdocuments

/-! ## Two entries -/

/-- A field of an entry whose document holds strings. -/
def entryField : Text × Json → Except TranslatorError (Text × Value)
  | (name, .str s) => .ok (name, .utf8 s)
  | (name, .obj [(key, .str s)]) =>
    if key = "$numberInt".toList then .ok (name, .int32 (Int32.ofInt (readInteger s)))
    else return (name, .document [← stringFromExtjson (key, .str s)])
  | (name, .obj [(_, .obj [(_, .int t), (_, .int i)])]) =>
    .ok (name, .timestamp (UInt32.ofInt t) (UInt32.ofInt i))
  | (name, .obj [(_, .obj [(_, .str s)])]) =>
    .ok (name, .dateTime (Int64.ofInt (readInteger s)))
  | _ => .error (internalError "not an entry".toList)

/-- What libbson does to such entries. -/
def Libbson.ofEntries : Libbson where
  toExtjson := Libbson.ofStrings.toExtjson
  fromExtjson
    | .obj fields => fields.mapM entryField
    | _ => .error (internalError "not a document".toList)

/-- The insert of an item. -/
def itemInserted (seq : ℕ) (id : String) : OplogRow where
  seq := seq
  ts := ⟨7, seq⟩
  op := .i
  ns := "app.items".toList
  o := .obj [(idName, .str id.toList)]
  o2 := none

/-- Two items were inserted. -/
def twoInserted : OplogTable where
  rows := [itemInserted 1 "a", itemInserted 2 "b"]
  sequenced := List.pairwise_pair.2 (by decide)
  positive := by decide

/-- A find on the oplog with the given batch size. -/
def findEntries (batchSize : Int32) : ReadCtx :=
  { plainRead "find" (.utf8 "oplog.rs".toList) with
    body := [("find".toList, .utf8 "oplog.rs".toList), ("batchSize".toList, .int32 batchSize)]
    db := "local".toList
    argument := "oplog.rs".toList
    L := .ofEntries }

/-- The entry of an insert, as a document. -/
def entryInserted (seq : ℕ) (id : String) : Doc :=
  [("ts".toList, .timestamp 7 (UInt32.ofNat seq)), ("op".toList, .utf8 "i".toList),
    ("ns".toList, .utf8 "app.items".toList), ("o".toList, .document [(idName, .utf8 id.toList)]),
    ("v".toList, .int32 2), ("wall".toList, .dateTime 7000)]

set_option maxRecDepth 4000 in
/-- The entries of the two inserts are read. -/
lemma fromExtjson_entries : Libbson.ofEntries.fromExtjson (entryExpr (itemInserted 1 "a")) =
      .ok (entryInserted 1 "a") ∧
    Libbson.ofEntries.fromExtjson (entryExpr (itemInserted 2 "b")) = .ok (entryInserted 2 "b") :=
  ⟨rfl, rfl⟩

/-- Both entries are asked for. -/
lemma requested_twoInserted (batchSize : Int32) :
    Requested twoInserted .ofStrings (findEntries batchSize).toCtx
      [entryInserted 1 "a", entryInserted 2 "b"] := by
  refine ⟨⟨"local".toList, "oplog.rs".toList⟩, _, rfl, rfl, rfl, rfl, ?_⟩
  exact mapM_eq_ok_iff.2 (.cons fromExtjson_entries.1 (.cons fromExtjson_entries.2 .nil))

/-- Two entries fit into a batch of two. -/
theorem plain_find_complete_iff_two :
    PlainFindReturns twoInserted .ofStrings 0 CursorSystem.start.table (findEntries 2)
      [entryInserted 1 "a", entryInserted 2 "b"] := by
  refine (plain_find_complete_iff rfl (requested_twoInserted 2)).2 (.inr ?_)
  have hbatch : numberField (findEntries 2).body "batchSize".toList defaultBatchSize = 2 := by
    decide +kernel
  rw [hbatch]
  decide

/-- A batch of one ends with the first of two entries, and the cursor id is zero. -/
theorem plain_find_truncates :
    Requested twoInserted .ofStrings (findEntries 1).toCtx
        [entryInserted 1 "a", entryInserted 2 "b"] ∧
      PlainFindReturns twoInserted .ofStrings 0 CursorSystem.start.table (findEntries 1)
        [entryInserted 1 "a"] ∧
      ¬ PlainFindReturns twoInserted .ofStrings 0 CursorSystem.start.table (findEntries 1)
        [entryInserted 1 "a", entryInserted 2 "b"] := by
  have hreturns : PlainFindReturns twoInserted .ofStrings 0 CursorSystem.start.table
      (findEntries 1) [entryInserted 1 "a"] := by
    have hcond : compileDocument (findEntries 1).L ((findEntries 1).subDocument "filter".toList) =
        .ok (conjoinFields []) := rfl
    have hns : (findEntries 1).ns = .ok ⟨"local".toList, "oplog.rs".toList⟩ := rfl
    refine (plainFindReturns_iff hns rfl rfl hcond rfl).2 ?_
    have hpage : ((findEntries 1).findRequest ⟨"local".toList, "oplog.rs".toList⟩ fun entry =>
        decide ((conjoinFields []).eval .ofStrings entry = some true)).page twoInserted.rows =
        [itemInserted 1 "a"] := by
      decide +kernel
    rw [hpage]
    exact mapM_eq_ok_iff.2 (.cons fromExtjson_entries.1 .nil)
  refine ⟨requested_twoInserted 1, hreturns, ?_⟩
  rintro ⟨enough, henough⟩
  obtain ⟨enough', henough'⟩ := hreturns
  have hboth := (henough (max enough enough') (le_max_left _ _)).symm.trans
    (henough' (max enough enough') (le_max_right _ _))
  cases hboth

end Chimera

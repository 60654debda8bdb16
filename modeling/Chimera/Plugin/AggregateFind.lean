import Chimera.Plugin.CountFind
import Chimera.Translator.Prefilter

/-!
# Searching with find and with aggregate

A find sorts, pages and projects its documents in one function; an aggregate runs the stages of its
pipeline, one after the other.  A pipeline of `$match`, `$sort`, `$skip`, `$limit` and `$project`
says what a find says.  The two commands then ask a server the same questions, send the same reply
and leave the same cursor (`find_is_aggregate`).  They part in one place: a find does not look at
the order it is given when the collection is not there.
-/

namespace Chimera

open Interaction

/-! ## Pipelines that say what a find says -/

/-- The parts of a search. -/
structure Search where
  /-- The filters. -/
  queries : List Doc
  /-- The order. -/
  sort : Option Doc
  /-- How many documents to skip. -/
  skip : Option Value
  /-- How many documents to keep. -/
  limit : Option Value
  /-- The projection. -/
  projection : Option Doc

/-- The stages behind the leading `$match` stages. -/
def Search.laterStages (search : Search) : List Doc :=
  (search.sort.toList.map fun spec => [("$sort".toList, .document spec)]) ++
    ((search.skip.toList.map fun count => [("$skip".toList, count)]) ++
      ((search.limit.toList.map fun count => [("$limit".toList, count)]) ++
        search.projection.toList.map fun spec => [("$project".toList, .document spec)]))

/-- The pipeline of a search. -/
def Search.stages (search : Search) : List Doc :=
  search.queries.map matchStage ++ search.laterStages

/-- The number that a find takes from an option. -/
def countOf (count : Option Value) : ℤ := (count.map fun v => v.toDouble.truncate).getD 0

/-- A number that is neither negative nor beyond an `int64_t`. -/
structure Value.IsCount (v : Value) : Prop where
  /-- It is a number. -/
  numeric : valueIsNumeric v = true
  /-- It is finite. -/
  finite : v.toDouble.isFinite = true
  /-- It is not negative. -/
  nonneg : v.toDouble.numLt (Binary64.ofInt 0) = false
  /-- It fits. -/
  fits : v.toDouble.truncate < 9223372036854775808

/-- The command runs its stages as `run_stages` does, where that is defined. -/
def ReadCtx.RunsStages (ctx : ReadCtx) : Prop :=
  ∀ documents stages, Chimera.runStages documents stages ≠ .error .undefined →
    raising (ctx.runStages documents stages) = Chimera.runStages documents stages

/-- A find and an aggregate that ask for one search on one collection. -/
structure SameSearch (find aggregate : ReadCtx) (search : Search) (ns : Namespace) : Prop where
  /-- The find is about the collection. -/
  find_ns : find.ns = .ok ns
  /-- So is the aggregate. -/
  aggregate_ns : aggregate.ns = .ok ns
  /-- It is a collection, and not the oplog. -/
  collection : isOplogNamespace ns = false
  /-- The library is the same. -/
  library : aggregate.L = find.L
  /-- The filter of the find is that of the `$match` stages. -/
  filter : find.subDocument "filter".toList = mergedFilter search.queries
  /-- The order is the same, if any. -/
  sort : find.subDocument "sort".toList = search.sort.getD []
  /-- The projection is the same, if any. -/
  projection : find.subDocument "projection".toList = search.projection.getD []
  /-- As many documents are skipped. -/
  skip : numberField find.body "skip".toList 0 = countOf search.skip
  /-- As many documents are kept. -/
  limit : numberField find.body "limit".toList 0 = countOf search.limit
  /-- What is skipped is a number of documents. -/
  skip_count : ∀ v ∈ search.skip, v.IsCount
  /-- What is kept is a number of documents, and not zero, which is no limit to a find. -/
  limit_count : ∀ v ∈ search.limit, v.IsCount ∧ v.toDouble.truncate ≠ 0
  /-- The find wants all batches. -/
  batches : flag find.body "singleBatch".toList false = false
  /-- The first batches are of one size. -/
  batchSize : numberField aggregate.body "batchSize".toList defaultBatchSize =
    numberField find.body "batchSize".toList defaultBatchSize
  /-- The pipeline is that of the search. -/
  pipeline : pipelineStages (aggregate.subDocument "pipeline".toList) = .ok search.stages
  /-- The stages are run. -/
  runs : aggregate.RunsStages

/-! ## The stages -/

/-- What only raises errors is told by what it does. -/
lemma raising_inj {α : Type} {x y : Except TranslatorError α} (h : raising x = raising y) :
    x = y := by
  cases x with
  | ok a =>
    cases y with
    | ok b => exact congrArg Except.ok (Except.ok.inj h)
    | error e => cases h
  | error e =>
    cases y with
    | ok b => cases h
    | error e' => exact congrArg Except.error (Failure.raised.inj (Except.error.inj h))

/-- A computation that raises errors, and then another one. -/
lemma raising_bind {α β : Type} (x : Except TranslatorError α) (f : α → Except TranslatorError β) :
    raising (x >>= f) = raising x >>= fun a => raising (f a) := by
  cases x with
  | error e => rfl
  | ok a => rfl

/-- Stages are run one after the other. -/
lemma runStages_append (documents stages later : List Doc) :
    runStages documents (stages ++ later) =
      runStages documents stages >>= fun out => runStages out later := by
  induction stages generalizing documents with
  | nil => rfl
  | cons stage stages ih =>
    rw [List.cons_append, runStages, runStages]
    cases runStage documents stage with
    | error e => rfl
    | ok out => exact ih out

/-- One stage. -/
lemma runStages_one (documents : List Doc) (name : Text) (body : Value) :
    runStages documents [[(name, body)]] = runOperator documents name body := by
  change (runOperator documents name body >>= fun out => .ok out) = _
  cases runOperator documents name body with
  | error e => rfl
  | ok out => rfl

/-- Sorting by no key. -/
lemma sortDocuments_nil (documents : List Doc) : sortDocuments documents [] = .ok documents := by
  have hsorted : (documents.mergeSort fun _ _ => true) = documents :=
    List.mergeSort_of_pairwise (List.pairwise_of_forall fun _ _ => rfl)
  have hnone : comparisonError [] documents = none :=
    comparisonError_eq_none_iff.2 (List.pairwise_of_forall fun _ _ => ⟨false, rfl⟩)
  simpa [sortDocuments, sortKeys, sortsBefore, Bind.bind, Except.bind, Except.toOption, hnone,
    except_pure_eq_ok] using hsorted

/-- Projecting to everything. -/
lemma mapM_project_nil (documents : List Doc) :
    (documents.mapM fun document => project document []) = .ok documents := by
  refine mapM_eq_ok_iff.2 (List.forall₂_same.2 fun document _ => rfl)

/-- The order of a search. -/
lemma runStages_sort (documents : List Doc) (sort : Option Doc) :
    runStages documents (sort.toList.map fun spec => [("$sort".toList, .document spec)]) =
      raising (if (sort.getD []).isEmpty then .ok documents
        else sortDocuments documents (sort.getD [])) := by
  cases sort with
  | none => rfl
  | some spec =>
    have hstage : runStages documents [[("$sort".toList, .document spec)]] =
        raising (sortDocuments documents spec) := runStages_one documents _ _
    refine hstage.trans ?_
    cases spec with
    | nil => rw [sortDocuments_nil]; rfl
    | cons field spec => rfl

/-- A number of documents, as a pipeline reads it. -/
lemma positiveCount_of_isCount {v : Value} (hv : v.IsCount) (stage : Text) :
    positiveCount v stage = .ok v.toDouble.truncate.toNat ∧ 0 ≤ v.toDouble.truncate := by
  have hunits : (0 : ℤ) ≤ v.toDouble.units := by
    have hnot := hv.nonneg
    have hzero : (Binary64.ofInt 0).units = 0 := by decide +kernel
    rw [Binary64.numLt, Binary64.isNaN_of_isFinite hv.finite, Binary64.isNaN_ofInt, hzero] at hnot
    simpa using hnot
  have htruncate : 0 ≤ v.toDouble.truncate := Int.tdiv_nonneg hunits (by positivity)
  refine ⟨?_, htruncate⟩
  have hcast : castInt64 v.toDouble = Int64.ofInt v.toDouble.truncate :=
    if_pos ⟨hv.finite, by omega, hv.fits⟩
  have htoInt : (Int64.ofInt v.toDouble.truncate).toInt = v.toDouble.truncate :=
    Int64.toInt_ofInt_of_le (by omega) (by have := hv.fits; omega)
  have hnonneg : 0 ≤ Int64.ofInt v.toDouble.truncate := by
    rw [Int64.le_iff_toInt_le, htoInt]
    exact htruncate
  rw [positiveCount, hv.numeric, hv.nonneg, hcast, Int64.toNat_toUInt64_of_le hnonneg,
    Int64.toNatClampNeg, htoInt]
  rfl

/-- The documents that a search skips. -/
lemma runStages_skip (documents : List Doc) {skip : Option Value} (h : ∀ v ∈ skip, v.IsCount) :
    runStages documents (skip.toList.map fun count => [("$skip".toList, count)]) =
      .ok (documents.drop (countOf skip).toNat) := by
  cases skip with
  | none => rfl
  | some v =>
    have hstage : runStages documents [[("$skip".toList, v)]] =
        raising ((positiveCount v "$skip".toList).map documents.drop) := runStages_one documents _ _
    refine hstage.trans ?_
    rw [(positiveCount_of_isCount (h v rfl) _).1]
    rfl

/-- The documents that a search keeps. -/
lemma runStages_limit (documents : List Doc) {limit : Option Value}
    (h : ∀ v ∈ limit, v.IsCount ∧ v.toDouble.truncate ≠ 0) :
    runStages documents (limit.toList.map fun count => [("$limit".toList, count)]) =
      .ok (if countOf limit = 0 then documents else documents.take (countOf limit).natAbs) := by
  cases limit with
  | none => rfl
  | some v =>
    obtain ⟨hv, hne⟩ := h v rfl
    obtain ⟨hcount, hnonneg⟩ := positiveCount_of_isCount hv "$limit".toList
    have hstage : runStages documents [[("$limit".toList, v)]] =
        raising ((positiveCount v "$limit".toList).map documents.take) :=
      runStages_one documents _ _
    have hcountOf : countOf (some v) = v.toDouble.truncate := rfl
    have hnat : v.toDouble.truncate.toNat = v.toDouble.truncate.natAbs := by omega
    refine hstage.trans ?_
    rw [hcount, hcountOf, if_neg hne, hnat]
    rfl

/-- The projection of a search. -/
lemma runStages_project (documents : List Doc) (projection : Option Doc) :
    runStages documents
        (projection.toList.map fun spec => [("$project".toList, .document spec)]) =
      raising (if (projection.getD []).isEmpty then .ok documents
        else documents.mapM fun document => project document (projection.getD [])) := by
  cases projection with
  | none => rfl
  | some spec =>
    have hstage : runStages documents [[("$project".toList, .document spec)]] =
        raising (documents.mapM fun document => project document spec) :=
      runStages_one documents _ _
    refine hstage.trans ?_
    cases spec with
    | nil => rw [mapM_project_nil]; rfl
    | cons field spec => rfl

/-- A find sorts first. -/
lemma shapeResults_eq (documents : List Doc) (sort projection : Doc) (skip limit : ℤ) :
    shapeResults documents sort projection skip limit =
      (if sort.isEmpty then .ok documents else sortDocuments documents sort) >>= fun sorted =>
        if projection.isEmpty then .ok (page sorted skip limit)
        else (page sorted skip limit).mapM fun document => project document projection := by
  unfold shapeResults
  cases sort with
  | nil => rfl
  | cons field sort => rfl

/-- Of no documents a find makes none, unless it refuses the order. -/
lemma shapeResults_empty (sort projection : Doc) (skip limit : ℤ) :
    shapeResults [] sort projection skip limit = (sortKeys sort).map fun _ => [] := by
  have hpage : page [] skip limit = [] := by simp [page]
  have hsorted : (if sort.isEmpty then .ok [] else sortDocuments [] sort) =
      (sortKeys sort).map fun _ => ([] : List Doc) := by
    cases sort with
    | nil => rfl
    | cons field sort =>
      rw [if_neg (by simp), sortDocuments]
      cases sortKeys (field :: sort) with
      | ok keys => exact congrArg Except.ok List.mergeSort_nil
      | error e => rfl
  rw [shapeResults_eq, hsorted]
  cases sortKeys sort with
  | error e => rfl
  | ok keys =>
    change (if projection.isEmpty then Except.ok (page [] skip limit) else _) = _
    rw [hpage]
    split
    · rfl
    · rfl

/-- **The stages of a search** make of documents what a find makes of them. -/
theorem runStages_search {search : Search} (hskip : ∀ v ∈ search.skip, v.IsCount)
    (hlimit : ∀ v ∈ search.limit, v.IsCount ∧ v.toDouble.truncate ≠ 0) (documents : List Doc) :
    runStages documents search.laterStages = raising (shapeResults documents (search.sort.getD [])
      (search.projection.getD []) (countOf search.skip) (countOf search.limit)) := by
  rw [Search.laterStages, runStages_append, runStages_sort, shapeResults_eq, raising_bind]
  refine bind_congr fun sorted => ?_
  rw [runStages_append, runStages_skip sorted hskip]
  change runStages (sorted.drop _) _ = _
  rw [runStages_append, runStages_limit _ hlimit]
  exact runStages_project _ _

/-! ## The commands -/

/-- What an aggregate makes of the documents of a collection, all in all. -/
def aggregated (ctx : ReadCtx) (ns : Namespace) (prefilter : Doc) (stages : List Doc) :
    WireProgram (List Doc) := do
  let there ← onCollection (askExists ns)
  let found ← if there then onCollection (load ctx.L ns prefilter) else pure []
  ofExcept (ctx.runStages found stages)

/-- The end of an aggregate: the first batch, and a cursor for the rest if there is any. -/
def replyRest (ctx : Ctx) (ns : Text) (documents : List Doc) : WireProgram Doc := do
  let take := firstBatchSize documents (numberField ctx.body "batchSize".toList defaultBatchSize)
  let id ← if (documents.drop take).isEmpty then pure (0 : ℤ)
    else registry (.openCursor ns (documents.drop take))
  return cursorReply id ns "firstBatch" (documents.take take) none

/-- The stages have one operator each, and read nothing but a collection. -/
def ReadsCollection (stages : List Doc) : Prop :=
  ∀ stage ∈ stages, ∃ name body, stage = [(name, body)] ∧ name ≠ "$changeStream".toList ∧
    name ≠ "$sql".toList

/-- The first stage neither opens a stream nor runs SQL. -/
lemma ReadsCollection.firstStage {stages : List Doc} (h : ReadsCollection stages) :
    ∃ name, firstStage stages = .ok name ∧ name ≠ "$changeStream".toList ∧
      name ≠ "$sql".toList := by
  cases stages with
  | nil => exact ⟨[], rfl, by decide, by decide⟩
  | cons stage stages =>
    obtain ⟨name, body, rfl, hstream, hsql⟩ := h stage List.mem_cons_self
    exact ⟨name, rfl, hstream, hsql⟩

/-- No later stage opens a stream. -/
lemma ReadsCollection.rejectLaterStreams {stages : List Doc} (h : ReadsCollection stages) :
    rejectLaterStreams stages = .ok () := by
  induction stages with
  | nil => rfl
  | cons stage stages ih =>
    obtain ⟨⟨name, body, rfl, hstream, -⟩, hstages⟩ := List.forall_mem_cons.1 h
    have hcons : Chimera.rejectLaterStreams ([(name, body)] :: stages) =
        (if name = "$changeStream".toList then
          throw (notImplemented
            ("$changeStream is only valid as the first pipeline stage".toList ++ planNote))
        else pure PUnit.unit) >>= fun _ => Chimera.rejectLaterStreams stages := rfl
    rw [hcons, if_neg hstream]
    exact ih hstages

/-- **An aggregate** loads what its leading `$match` stages select, runs the other stages, and
replies. -/
theorem cmdAggregate_eq {ctx : ReadCtx} {ns : Namespace} {stages later : List Doc} {prefilter : Doc}
    (hns : ctx.ns = .ok ns)
    (hpipeline : pipelineStages (ctx.subDocument "pipeline".toList) = .ok stages)
    (hreads : ReadsCollection stages) (hsplit : splitPipeline stages = .ok (prefilter, later)) :
    cmdAggregate ctx = aggregated ctx ns prefilter later >>= replyRest ctx.toCtx ns.text := by
  obtain ⟨name, hname, hstream, hsql⟩ := hreads.firstStage
  have hdocuments : aggregateDocuments ctx stages =
      aggregated ctx ns prefilter later >>= fun documents => pure (documents, ns.text) := by
    unfold aggregateDocuments aggregated
    rw [hname]
    change (if name = "$sql".toList then _ else _) = _
    rw [if_neg hsql, hsplit, hns, bind_bind]
    change (onCollection (askExists ns) >>= _) = _
    refine bind_congr fun there => ?_
    cases there with
    | false => rfl
    | true =>
      simp only [if_true, bind_bind]
  unfold cmdAggregate
  rw [hpipeline]
  change (Interaction.ofExcept (Chimera.firstStage stages) >>= _) = _
  rw [hname]
  change (if name = "$changeStream".toList then _ else _) = _
  rw [if_neg hstream, hreads.rejectLaterStreams]
  change (aggregateDocuments ctx stages >>= _) = _
  rw [hdocuments, bind_bind]
  rfl

/-- A find does not open a cursor for nothing either. -/
lemma serve_replyRest {S : Type} (now : ℤ) (rest : WireServer S) {find aggregate : Ctx}
    (h : numberField aggregate.body "batchSize".toList defaultBatchSize =
      numberField find.body "batchSize".toList defaultBatchSize) (ns : Text) (documents : List Doc)
    (state : CursorTable × S) :
    (replyRest aggregate ns documents).serve (registryServer now rest) state =
      (replyFirst find ns documents false).serve (registryServer now rest) state := by
  obtain ⟨T, s⟩ := state
  rw [serve_replyFirst now rest find ns documents T s fun hsingle => absurd hsingle (by decide)]
  obtain ⟨take, htake⟩ : ∃ take, take = firstBatchSize documents
      (numberField find.body "batchSize".toList defaultBatchSize) := ⟨_, rfl⟩
  rw [replyRest, h, ← htake]
  dsimp only
  by_cases hempty : (documents.drop take).isEmpty = true
  · have hnone : T.openCursor now ns (documents.drop take) = (0, T) := if_pos hempty
    rw [if_pos hempty, hnone]
    rfl
  · rw [if_neg hempty]
    rfl

/-- The stages of a search read nothing but a collection. -/
lemma Search.readsCollection (search : Search) : ReadsCollection search.stages := by
  have hplain {name : Text} (body : Value) (h₁ : name ≠ "$changeStream".toList)
      (h₂ : name ≠ "$sql".toList) {stage : Doc} (hstage : stage = [(name, body)]) :
      ∃ name body, stage = [(name, body)] ∧ name ≠ "$changeStream".toList ∧
        name ≠ "$sql".toList := ⟨name, body, hstage, h₁, h₂⟩
  intro stage hstage
  simp only [Search.stages, Search.laterStages, List.mem_append, List.mem_map] at hstage
  rcases hstage with ⟨query, -, rfl⟩ | ⟨spec, -, rfl⟩ | ⟨v, -, rfl⟩ | ⟨v, -, rfl⟩ | ⟨spec, -, rfl⟩
  · exact hplain (.document query) (by decide) (by decide) rfl
  · exact hplain (.document spec) (by decide) (by decide) rfl
  · exact hplain v (by decide) (by decide) rfl
  · exact hplain v (by decide) (by decide) rfl
  · exact hplain (.document spec) (by decide) (by decide) rfl

/-- The pipeline of a search is split into its filter and its other stages. -/
lemma Search.splitPipeline_stages (search : Search) :
    splitPipeline search.stages = .ok (mergedFilter search.queries, search.laterStages) := by
  have hlater : leadingMatches search.laterStages = .ok ([], search.laterStages) := by
    obtain ⟨queries, sort, skip, limit, projection⟩ := search
    cases sort with
    | some spec => exact leadingMatches_other (by decide) _ _
    | none =>
      cases skip with
      | some v => exact leadingMatches_other (by decide) _ _
      | none =>
        cases limit with
        | some v => exact leadingMatches_other (by decide) _ _
        | none =>
          cases projection with
          | some spec => exact leadingMatches_other (by decide) _ _
          | none => rfl
  refine splitPipeline_eq_ok.2 ⟨search.queries, ?_, rfl⟩
  rw [Search.stages]
  induction search.queries with
  | nil => exact hlater
  | cons query queries ih =>
    rw [List.map_cons, List.cons_append, leadingMatches_matchStage, ih]
    rfl

/-- **A find is an aggregate.**  Whatever the server answers, the two commands of one search have
the same reply and leave the server and the cursors alike.  Only when the collection is not there,
and the order is refused, the find returns no documents and the aggregate the refusal. -/
theorem find_is_aggregate {S : Type} {find aggregate : ReadCtx} {search : Search} {ns : Namespace}
    (h : SameSearch find aggregate search ns) (now : ℤ) (rest : WireServer S)
    (state : CursorTable × S) :
    (cmdAggregate aggregate).serve (registryServer now rest) state =
        (cmdFind find.toCtx).serve (registryServer now rest) state ∨
      ∃ e state', sortKeys (find.subDocument "sort".toList) = .error e ∧
        (onCollection (askExists ns)).serve (registryServer now rest) state = (.ok false, state') ∧
        (cmdAggregate aggregate).serve (registryServer now rest) state = (.error e, state') ∧
        (cmdFind find.toCtx).serve (registryServer now rest) state =
          (.ok (cursorReply 0 ns.text "firstBatch" [] none), state') := by
  have hlimit : ¬ numberField find.body "limit".toList 0 < 0 := by
    rw [h.limit]
    cases hsome : search.limit with
    | none => decide
    | some v => exact not_lt.2 (positiveCount_of_isCount (h.limit_count v hsome).1 []).2
  have hfind : cmdFind find.toCtx = foundDocuments find.toCtx ns >>= fun documents =>
      replyFirst find.toCtx ns.text documents false := by
    have hcmd : cmdFind find.toCtx = findCollection find.toCtx ns := by
      rw [cmdFind, h.find_ns]
      change (if isOplogNamespace ns = true then _ else _) = _
      rw [h.collection]
      rfl
    rw [hcmd, findCollection_eq, h.batches, decide_eq_false hlimit]
    rfl
  have hstages (documents : List Doc) : aggregate.runStages documents search.laterStages =
      shapeResults documents (find.subDocument "sort".toList)
        (find.subDocument "projection".toList) (numberField find.body "skip".toList 0)
        (numberField find.body "limit".toList 0) := by
    have hrun := runStages_search h.skip_count h.limit_count documents
    rw [← h.sort, ← h.projection, ← h.skip, ← h.limit] at hrun
    have hruns := h.runs documents search.laterStages (hrun ▸ raising_ne_undefined _)
    rw [hrun] at hruns
    exact raising_inj hruns
  have hreply (documents : List Doc) (state : CursorTable × S) :
      (replyRest aggregate.toCtx ns.text documents).serve (registryServer now rest) state =
        (replyFirst find.toCtx ns.text documents false).serve (registryServer now rest) state :=
    serve_replyRest now rest h.batchSize ns.text documents state
  rw [hfind, cmdAggregate_eq h.aggregate_ns h.pipeline search.readsCollection
    search.splitPipeline_stages, foundDocuments, aggregated, bind_bind, bind_bind, serve_bind,
    serve_bind]
  cases (onCollection (askExists ns)).serve (registryServer now rest) state with
  | mk result state' =>
    cases result with
    | error e => exact .inl rfl
    | ok there =>
      cases there with
      | true =>
        left
        change ((onCollection (load aggregate.L ns (mergedFilter search.queries)) >>= fun found =>
            Interaction.ofExcept (aggregate.runStages found search.laterStages)) >>=
            replyRest aggregate.toCtx ns.text).serve (registryServer now rest) state' =
          ((onCollection (load find.L ns (find.subDocument "filter".toList)) >>= fun found =>
            Interaction.ofExcept (shapeResults found _ _ _ _)) >>= fun documents =>
              replyFirst find.toCtx ns.text documents false).serve (registryServer now rest) state'
        rw [← h.filter, h.library]
        simp only [hstages]
        exact serve_bind_congr hreply
      | false =>
        change ((Interaction.ofExcept (aggregate.runStages [] search.laterStages)) >>=
            replyRest aggregate.toCtx ns.text).serve (registryServer now rest) state' =
          (replyFirst find.toCtx ns.text [] false).serve (registryServer now rest) state' ∨ _
        cases hkeys : sortKeys (find.subDocument "sort".toList) with
        | ok keys =>
          left
          rw [hstages, shapeResults_empty, hkeys]
          exact hreply [] state'
        | error e =>
          right
          refine ⟨e, state', rfl, rfl, ?_, ?_⟩
          · change ((Interaction.ofExcept (aggregate.runStages [] search.laterStages)) >>=
              replyRest aggregate.toCtx ns.text).serve (registryServer now rest) state' = _
            rw [hstages, shapeResults_empty, hkeys]
            rfl
          · change (replyFirst find.toCtx ns.text [] false).serve (registryServer now rest)
              state' = _
            obtain ⟨T, s⟩ := state'
            rw [serve_replyFirst now rest find.toCtx ns.text [] T s
              fun hsingle => absurd hsingle (by decide), List.drop_nil, List.take_nil]
            rfl

/-- A pipeline that is run as `run_stages` runs it. -/
def definedStages (documents stages : List Doc) : Except TranslatorError (List Doc) :=
  match runStages documents stages with
  | .ok out => .ok out
  | .error (.raised e) => .error e
  | .error .undefined => .error (internalError "undefined".toList)

/-- It is run where that is defined. -/
lemma runsStages_defined {ctx : ReadCtx} (h : ctx.runStages = definedStages) :
    ctx.RunsStages := by
  intro documents stages hdefined
  rw [h, definedStages]
  cases hrun : runStages documents stages with
  | ok out => rfl
  | error failure =>
    cases failure with
    | raised e => rfl
    | undefined => exact absurd hrun hdefined

/-- The last but one, without its identifier: as a find and as an aggregate. -/
def lastButOne : Search where
  queries := []
  sort := some [(idName, .int32 (-1))]
  skip := some (.int32 1)
  limit := some (.int64 1)
  projection := some [(idName, .bool false)]

/-- The find. -/
def findLast : ReadCtx :=
  { plainRead "find" (.utf8 "items".toList) with
    body := [("find".toList, .utf8 "items".toList),
      ("sort".toList, .document [(idName, .int32 (-1))]), ("skip".toList, .int32 1),
      ("limit".toList, .int64 1),
      ("projection".toList, .document [(idName, .bool false)])] }

/-- The aggregate. -/
def aggregateLast : ReadCtx :=
  { plainRead "aggregate" (.utf8 "items".toList) with
    body := [("aggregate".toList, .utf8 "items".toList),
      ("pipeline".toList, .array (makeArray (lastButOne.stages.map .document)))]
    runStages := definedStages }

/-- They ask for the same search. -/
lemma sameSearch_lastButOne :
    SameSearch findLast aggregateLast lastButOne ⟨"app".toList, "items".toList⟩ where
  find_ns := rfl
  aggregate_ns := rfl
  collection := rfl
  library := rfl
  filter := rfl
  sort := rfl
  projection := rfl
  skip := by decide +kernel
  limit := by decide +kernel
  skip_count v hv := by
    obtain rfl := Option.some.inj hv
    exact ⟨by decide +kernel, by decide +kernel, by decide +kernel, by decide +kernel⟩
  limit_count v hv := by
    obtain rfl := Option.some.inj hv
    exact ⟨⟨by decide +kernel, by decide +kernel, by decide +kernel, by decide +kernel⟩,
      by decide +kernel⟩
  batches := rfl
  batchSize := rfl
  pipeline := rfl
  runs := runsStages_defined rfl

/-- Both reply alike over two documents. -/
theorem find_is_aggregate_lastButOne :
    (cmdAggregate aggregateLast).serve (registryServer 0 SqlServer.ofStrings.tables)
        (CursorSystem.start.table, twoItems) =
      (cmdFind findLast.toCtx).serve (registryServer 0 SqlServer.ofStrings.tables)
        (CursorSystem.start.table, twoItems) := by
  refine (find_is_aggregate sameSearch_lastButOne 0 _ _).resolve_right ?_
  rintro ⟨e, state', hsort, -⟩
  have hkeys : (sortKeys (findLast.subDocument "sort".toList)).toOption.isSome = true := by
    decide +kernel
  rw [hsort] at hkeys
  cases hkeys

end Chimera

import Chimera.Plugin.AggregateFind
import Chimera.Translator.GroupStage

/-!
# Counting with count and with aggregate

Drivers count in three ways: with a count, with a pipeline that ends with `$count`, and with one
that ends with a `$group` of all documents and a sum of ones.  They report the same number, each in
its own type (`counts_agree`).  A count does not read the documents, so it also counts those that
the aggregates cannot read.
-/

namespace Chimera

open Interaction

variable {S : SqlServer} {now : ℤ} {T : CursorTable} {rows : List Row} {ns : Namespace}

/-- A `$count` stage. -/
def countStage (field : Text) : Doc := [("$count".toList, .utf8 field)]

/-- A `$group` stage that adds up one for each document. -/
def sumStage (field : Text) : Doc :=
  [("$group".toList, .document [("_id".toList, .null),
    (field, .document [("$sum".toList, .int32 1)])])]

/-- What a `$group` stage for all documents returns: nothing for none, and their number else. -/
def summed (field : Text) (documents : List Doc) : List Doc :=
  if documents = [] then []
  else [groupRow [(field, .int32 1)] (.null, documents)]

/-- They are at most one document. -/
lemma length_summed_le {field : Text} {documents : List Doc} :
    (summed field documents).length ≤ 1 := by
  unfold summed
  split
  · exact Nat.zero_le 1
  · exact le_rfl

/-- A count, and two aggregates that count in their own ways what the same query selects. -/
structure CountsAlike (count : Ctx) (counting summing : ReadCtx) (ns : Namespace)
    (field : Text) : Prop where
  /-- The count is about the collection. -/
  count_ns : count.ns = .ok ns
  /-- So is the first aggregate. -/
  counting_ns : counting.ns = .ok ns
  /-- So is the second. -/
  summing_ns : summing.ns = .ok ns
  /-- The library is the same. -/
  counting_library : counting.L = count.L
  /-- It is the same for the second aggregate. -/
  summing_library : summing.L = count.L
  /-- The first aggregate ends with a `$count` stage. -/
  counting_pipeline : pipelineStages (counting.subDocument "pipeline".toList) =
    .ok [matchStage (count.subDocument "query".toList), countStage field]
  /-- The second ends with a `$group` stage. -/
  summing_pipeline : pipelineStages (summing.subDocument "pipeline".toList) =
    .ok [matchStage (count.subDocument "query".toList), sumStage field]
  /-- The count skips nothing. -/
  skip : numberField count.body "skip".toList 0 = 0
  /-- The count has no limit. -/
  limit : numberField count.body "limit".toList 0 = 0
  /-- The first batch of the first aggregate is not empty. -/
  counting_batch : 1 ≤ numberField counting.body "batchSize".toList defaultBatchSize
  /-- That of the second is not either. -/
  summing_batch : 1 ≤ numberField summing.body "batchSize".toList defaultBatchSize
  /-- The stages of the first are run. -/
  counting_runs : counting.RunsStages
  /-- So are those of the second. -/
  summing_runs : summing.RunsStages

/-- Counting in a pipeline. -/
lemma runStages_countStage (documents : List Doc) (field : Text) :
    runStages documents [countStage field] =
      .ok [[(cString field, .int64 (Int64.ofNat documents.length))]] := rfl

/-- A one is added, whatever the document. -/
lemma sumOperand_one (document : Doc) :
    sumOperand document (.int32 1) = .ok (Binary64.ofInt 1) := by
  have hint : (1 : Int32).toInt = 1 := by decide
  have hdouble : sumOperand document (.int32 1) = .ok (Value.toDouble (.int32 1)) := rfl
  have hvalue : valueAsDouble (.int32 1) = .ok (Binary64.ofInt (1 : Int32).toInt) := rfl
  rw [hdouble, Value.toDouble, hvalue, hint]
  simp only [Except.toOption, Option.getD_some]

/-- A one is added for each document. -/
lemma groupDocuments_ones_cons (field : Text) (groups : List (Value × List Doc)) (document : Doc)
    (documents : List Doc) :
    groupDocuments .null [(field, .int32 1)] (groups.map (Tallied [(field, .int32 1)]))
        (document :: documents) =
      groupDocuments .null [(field, .int32 1)]
        ((Grouping.put valueEqual .null document groups).map (Tallied [(field, .int32 1)]))
        documents := by
  have hkey : groupKey document .null = .ok .null := rfl
  have hsummands : ([(field, .int32 1)].mapM fun sum => sumOperand document sum.2) =
      .ok ([(field, .int32 1)].map fun sum => summand sum.2 document) := by
    rw [List.mapM_cons, sumOperand_one, List.map_singleton, summand_of_ok (sumOperand_one document)]
    rfl
  rw [← addToGroup_tallied, groupDocuments, hkey, hsummands]
  rfl

/-- One group for all documents goes on as one group. -/
lemma groupDocuments_ones (field : Text) (members documents : List Doc) :
    groupDocuments .null [(field, .int32 1)] ([(.null, members)].map (Tallied [(field, .int32 1)]))
        documents = .ok ([(.null, members ++ documents)].map (Tallied [(field, .int32 1)])) := by
  induction documents generalizing members with
  | nil =>
    rw [List.append_nil]
    rfl
  | cons document documents ih =>
    have hself : valueEqual .null .null = true := by decide
    have hput : Grouping.put valueEqual .null document [(.null, members)] =
        [(.null, members ++ [document])] := if_pos hself
    rw [groupDocuments_ones_cons, hput, ih, List.append_assoc, List.singleton_append]

/-- Adding up in a pipeline. -/
lemma runStages_sumStage (documents : List Doc) (field : Text) :
    runStages documents [sumStage field] = .ok (summed field documents) := by
  have hstage : runStages documents [sumStage field] =
      (raising (groupDocuments .null [(field, .int32 1)]
        (([] : List (Value × List Doc)).map (Tallied [(field, .int32 1)])) documents) >>=
          fun groups => .ok (groupedDocuments [(field, .int32 1)] groups)) :=
    (runStages_one documents _ _).trans rfl
  rw [hstage]
  cases documents with
  | nil => rfl
  | cons document documents =>
    rw [groupDocuments_ones_cons, Grouping.put, groupDocuments_ones, summed,
      if_neg (List.cons_ne_nil _ _)]
    exact congrArg Except.ok (groupedDocuments_tallied _)

/-- As many ones add up to the number of documents. -/
lemma totalOf_one {documents : List Doc} (h : documents.length ≤ 2 ^ 53) :
    Binary64.IsInteger (totalOf (.int32 1) documents) documents.length := by
  have hzero : Binary64.IsInteger (Binary64.ofInt 0) 0 := Binary64.isInteger_ofInt (by decide)
  have hone : ∀ document ∈ documents, Binary64.IsInteger (summand (.int32 1) document) 1 := by
    intro document _
    rw [summand_of_ok (sumOperand_one document)]
    exact Binary64.isInteger_ofInt (by decide)
  have hfold := hzero.foldl_add hone (by simpa using h)
  unfold totalOf
  simpa using hfold

/-- What an aggregate makes of the rows of its collection. -/
lemma serve_aggregated {ctx : ReadCtx} (prefilter : Doc) (stages : List Doc) :
    (aggregated ctx ns prefilter stages).serve (registryServer now S.tables) (T, rows) =
      ((S.matching ctx.L ns prefilter rows >>= fun found =>
        found.mapM fun row => ctx.L.fromExtjson row.doc) >>= fun documents =>
          ctx.runStages documents stages, (T, rows)) := by
  rw [aggregated, serve_bind, serve_askExists]
  dsimp only
  cases hthere : S.present ns with
  | false =>
    have hnone : S.matching ctx.L ns prefilter rows = .ok [] := by
      rw [SqlServer.matching, hthere]
      rfl
    rw [hnone]
    change (Interaction.ofExcept (ctx.runStages [] stages)).serve _ _ = _
    rw [serve_ofExcept]
    rfl
  | true =>
    rw [if_pos rfl, serve_bind, serve_load hthere]
    cases S.matching ctx.L ns prefilter rows >>= fun found =>
        found.mapM fun row => ctx.L.fromExtjson row.doc with
    | error e => rfl
    | ok documents => exact serve_ofExcept ..

/-- A batch that is not empty holds what is at most one document. -/
lemma replyRest_one {ctx : Ctx} {documents : List Doc} (ns : Text) (hone : documents.length ≤ 1)
    (hbatch : 1 ≤ numberField ctx.body "batchSize".toList defaultBatchSize) :
    replyRest ctx ns documents = pure (cursorReply 0 ns "firstBatch" documents none) := by
  have htake : firstBatchSize documents
      (numberField ctx.body "batchSize".toList defaultBatchSize) = documents.length := by
    unfold firstBatchSize
    omega
  unfold replyRest
  rw [htake]
  dsimp only
  rw [List.drop_length, List.take_length]
  rfl

/-- An aggregate of a `$match` stage and one that leaves at most one document. -/
lemma serve_cmdAggregate_one {ctx : ReadCtx} {query stage : Doc} {out : List Doc → List Doc}
    (hns : ctx.ns = .ok ns)
    (hpipeline : pipelineStages (ctx.subDocument "pipeline".toList) =
      .ok [matchStage query, stage])
    (hreads : ReadsCollection [stage]) (hmatch : leadingMatches [stage] = .ok ([], [stage]))
    (hbatch : 1 ≤ numberField ctx.body "batchSize".toList defaultBatchSize)
    (hruns : ctx.RunsStages)
    (hout : ∀ documents, runStages documents [stage] = .ok (out documents) ∧
      (out documents).length ≤ 1) :
    (cmdAggregate ctx).serve (registryServer now S.tables) (T, rows) =
      ((S.matching ctx.L ns query rows >>= fun found =>
        found.mapM fun row => ctx.L.fromExtjson row.doc).map fun documents =>
          cursorReply 0 ns.text "firstBatch" (out documents) none, (T, rows)) := by
  have hsplit : splitPipeline [matchStage query, stage] = .ok (query, [stage]) := by
    refine splitPipeline_eq_ok.2 ⟨[query], ?_, rfl⟩
    rw [leadingMatches_matchStage, hmatch]
    rfl
  have hreads' : ReadsCollection [matchStage query, stage] :=
    List.forall_mem_cons.2 ⟨⟨_, _, rfl, by decide, by decide⟩, hreads⟩
  have hstages (documents : List Doc) : ctx.runStages documents [stage] = .ok (out documents) := by
    have hrun := hruns documents [stage] (by rw [(hout documents).1]; exact nofun)
    rw [(hout documents).1] at hrun
    exact raising_inj hrun
  rw [cmdAggregate_eq hns hpipeline hreads' hsplit, serve_bind, serve_aggregated]
  cases S.matching ctx.L ns query rows >>= fun found =>
      found.mapM fun row => ctx.L.fromExtjson row.doc with
  | error e => rfl
  | ok documents =>
    have hrun : (Except.ok documents >>= fun documents => ctx.runStages documents [stage]) =
        .ok (out documents) := hstages documents
    rw [hrun]
    change (replyRest ctx.toCtx ns.text (out documents)).serve (registryServer now S.tables)
      (T, rows) = _
    rw [replyRest_one ns.text (hout documents).2 hbatch]
    rfl

/-- **Three ways to count.**  When the query is refused, the count and the two aggregates are
refused alike.  Otherwise the count reports how many documents were found, in an `int32` as long as
there are fewer than `2 ^ 31`.  It does not read them; the aggregates do, and fail where that fails.
When all can be read, the `$count` stage has their number in an `int64`, and the `$group` stage in a
double, which is exact up to `2 ^ 53`; of no documents it makes no group. -/
theorem counts_agree {count : Ctx} {counting summing : ReadCtx} {field : Text}
    (h : CountsAlike count counting summing ns field) (S : SqlServer) (now : ℤ) (T : CursorTable)
    (rows : List Row) :
    (∀ e, S.matching count.L ns (count.subDocument "query".toList) rows = .error e →
      (cmdCount count).serve (registryServer now S.tables) (T, rows) = (.error e, (T, rows)) ∧
      (cmdAggregate counting).serve (registryServer now S.tables) (T, rows) =
        (.error e, (T, rows)) ∧
      (cmdAggregate summing).serve (registryServer now S.tables) (T, rows) =
        (.error e, (T, rows))) ∧
    ∀ found, S.matching count.L ns (count.subDocument "query".toList) rows = .ok found →
      (found.length < 2 ^ 31 → CountReports S now T rows count found.length) ∧
      (∀ e, (found.mapM fun row => count.L.fromExtjson row.doc) = .error e →
        (cmdAggregate counting).serve (registryServer now S.tables) (T, rows) =
          (.error e, (T, rows)) ∧
        (cmdAggregate summing).serve (registryServer now S.tables) (T, rows) =
          (.error e, (T, rows))) ∧
      ∀ documents, (found.mapM fun row => count.L.fromExtjson row.doc) = .ok documents →
        (cmdAggregate counting).serve (registryServer now S.tables) (T, rows) =
          (.ok (cursorReply 0 ns.text "firstBatch"
            [[(cString field, .int64 (Int64.ofNat found.length))]] none), (T, rows)) ∧
        (cmdAggregate summing).serve (registryServer now S.tables) (T, rows) =
          (.ok (cursorReply 0 ns.text "firstBatch" (summed field documents) none), (T, rows)) ∧
        (found.length ≤ 2 ^ 53 →
          Binary64.IsInteger (totalOf (.int32 1) documents) found.length) := by
  have hcount : (cmdCount count).serve (registryServer now S.tables) (T, rows) = _ :=
    serve_cmdCount h.count_ns
  have hcounting : (cmdAggregate counting).serve (registryServer now S.tables) (T, rows) = _ :=
    serve_cmdAggregate_one h.counting_ns h.counting_pipeline
      (List.forall_mem_singleton.2 ⟨_, _, rfl, by decide, by decide⟩)
      (leadingMatches_other (by decide) _ _) h.counting_batch h.counting_runs
      fun documents => ⟨runStages_countStage documents field, le_rfl⟩
  have hsumming : (cmdAggregate summing).serve (registryServer now S.tables) (T, rows) = _ :=
    serve_cmdAggregate_one h.summing_ns h.summing_pipeline
      (List.forall_mem_singleton.2 ⟨_, _, rfl, by decide, by decide⟩)
      (leadingMatches_other (by decide) _ _) h.summing_batch h.summing_runs
      fun documents => ⟨runStages_sumStage documents field, length_summed_le⟩
  rw [h.skip, h.limit] at hcount
  rw [h.counting_library] at hcounting
  rw [h.summing_library] at hsumming
  refine ⟨fun e he => ?_, fun found hfound => ⟨fun hsmall => ?_, fun e he => ?_,
    fun documents hread => ?_⟩⟩
  · rw [hcount, hcounting, hsumming, he]
    exact ⟨rfl, rfl, rfl⟩
  · have hnumber : countNumber found.length 0 0 = found.length := by simp [countNumber]
    refine (countReports_iff h.count_ns).2 ⟨found, hfound, ?_⟩
    rw [h.skip, h.limit, hnumber]
    exact (toInt_ofInt_eq_iff (by omega) (by omega) (by omega)).2 ⟨rfl, by omega⟩
  · have hread : (S.matching count.L ns (count.subDocument "query".toList) rows >>= fun found =>
        found.mapM fun row => count.L.fromExtjson row.doc) = .error e := by
      rw [hfound]
      exact he
    rw [hcounting, hsumming, hread]
    exact ⟨rfl, rfl⟩
  · have hlength : documents.length = found.length := (mapM_eq_ok_iff.1 hread).length_eq.symm
    have hdocuments : (S.matching count.L ns (count.subDocument "query".toList) rows >>=
        fun found => found.mapM fun row => count.L.fromExtjson row.doc) = .ok documents := by
      rw [hfound]
      exact hread
    rw [hcounting, hsumming, hdocuments, ← hlength]
    exact ⟨rfl, rfl, totalOf_one⟩

/-- A count of all items. -/
def countAll : Ctx := (plainRead "count" (.utf8 "items".toList)).toCtx

/-- An aggregate that ends with a stage. -/
def aggregateAll (stage : Doc) : ReadCtx :=
  { plainRead "aggregate" (.utf8 "items".toList) with
    body := [("aggregate".toList, .utf8 "items".toList),
      ("pipeline".toList, .array (makeArray [.document (matchStage []), .document stage]))]
    runStages := definedStages }

/-- They count the same. -/
lemma countsAlike_all : CountsAlike countAll (aggregateAll (countStage "n".toList))
    (aggregateAll (sumStage "n".toList)) ⟨"app".toList, "items".toList⟩ "n".toList where
  count_ns := rfl
  counting_ns := rfl
  summing_ns := rfl
  counting_library := rfl
  summing_library := rfl
  counting_pipeline := rfl
  summing_pipeline := rfl
  skip := by decide +kernel
  limit := by decide +kernel
  counting_batch := by decide +kernel
  summing_batch := by decide +kernel
  counting_runs := runsStages_defined rfl
  summing_runs := runsStages_defined rfl

/-- Two items are counted, three times. -/
theorem counts_agree_all :
    CountReports .ofStrings 0 CursorSystem.start.table twoItems countAll 2 ∧
      (cmdAggregate (aggregateAll (countStage "n".toList))).serve
          (registryServer 0 SqlServer.ofStrings.tables) (CursorSystem.start.table, twoItems) =
        (.ok (cursorReply 0 "app.items".toList "firstBatch" [[("n".toList, .int64 2)]] none),
          (CursorSystem.start.table, twoItems)) ∧
      Binary64.IsInteger (totalOf (.int32 1)
        [[(idName, .utf8 "a".toList)], [(idName, .utf8 "b".toList)]]) 2 := by
  have hall := (counts_agree countsAlike_all .ofStrings 0 CursorSystem.start.table twoItems).2
    twoItems rfl
  obtain ⟨hcounting, -, htotal⟩ := hall.2.2 _ rfl
  exact ⟨hall.1 (by decide), hcounting, htotal (by decide)⟩

end Chimera

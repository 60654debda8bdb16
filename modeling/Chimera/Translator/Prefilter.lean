import Chimera.Translator.Meaning
import Chimera.Translator.Stages

/-!
# Leading `$match` stages as one filter

`split_pipeline` takes the leading `$match` stages off a pipeline and makes one filter of them: the
empty one, the filter of a single stage, or the `$and` of theirs.  The filter compiles to the
conjunction of what they compile to, with their parameters one after the other.  Where no name has a
quote the joined text means the conjunction of their texts, so that loading what it selects and
running the other stages is the same as filtering stage by stage.  A name with a quote may end its
string and regroup what the texts are joined to.
-/

namespace Chimera

open SqlGrammar

/-! ## The stages -/

/-- A `$match` stage. -/
def matchStage (query : Doc) : Doc := [("$match".toList, .document query)]

/-- The filter of leading `$match` stages. -/
def mergedFilter : List Doc → Doc
  | [] => []
  | [query] => query
  | queries => [("$and".toList, .array (makeArray (queries.map .document)))]

/-- The pipeline begins with no `$match` stage. -/
def NoLeadingMatch (stages : List Doc) : Prop :=
  ∀ stage rest body, stages = stage :: rest → stage ≠ [("$match".toList, body)]

/-- A `$match` stage is taken off. -/
lemma leadingMatches_matchStage (query : Doc) (stages : List Doc) :
    leadingMatches (matchStage query :: stages) = (do
      let (found, rest) ← leadingMatches stages
      return (query :: found, rest)) := rfl

/-- No other stage is taken off. -/
lemma leadingMatches_other {name : Text} (hname : name ≠ "$match".toList) (body : Value)
    (stages : List Doc) :
    leadingMatches ([(name, body)] :: stages) = .ok ([], [(name, body)] :: stages) := by
  rw [leadingMatches, stageOperator]
  simp only [bind, Except.bind]
  rw [if_pos hname]
  rfl

/-- The leading `$match` stages are taken off in order. -/
lemma leadingMatches_eq_ok {stages found rest : List Doc}
    (h : leadingMatches stages = .ok (found, rest)) :
    stages = found.map matchStage ++ rest ∧ NoLeadingMatch rest := by
  induction stages generalizing found with
  | nil =>
    obtain ⟨rfl, rfl⟩ := Prod.mk.inj (Except.ok.inj h)
    exact ⟨rfl, nofun⟩
  | cons stage stages ih =>
    rcases stage with _ | ⟨⟨name, body⟩, _ | ⟨field, stage⟩⟩
    · cases h
    · by_cases hname : name = "$match".toList
      · obtain rfl := hname
        cases body with
        | document query =>
          rw [show [("$match".toList, Value.document query)] = matchStage query from rfl,
            leadingMatches_matchStage] at h
          obtain ⟨⟨found', rest'⟩, hfound, h⟩ := except_bind_eq_ok.1 h
          obtain ⟨rfl, rfl⟩ := Prod.mk.inj (Except.ok.inj h)
          obtain ⟨rfl, hno⟩ := ih hfound
          exact ⟨rfl, hno⟩
        | _ => cases h
      · rw [leadingMatches_other hname] at h
        obtain ⟨rfl, rfl⟩ := Prod.mk.inj (Except.ok.inj h)
        refine ⟨rfl, fun stage rest body heq hstage => hname ?_⟩
        rw [← (List.cons.inj heq).1] at hstage
        exact (Prod.mk.inj (List.cons.inj hstage).1).1
    · cases h

/-- A pipeline of stages of one operator, the `$match` stages of documents, can be taken apart. -/
lemma exists_leadingMatches {stages : List Doc} (h : ∀ stage ∈ stages, ∃ name body,
    stage = [(name, body)] ∧ (name = "$match".toList → body.isDocument = true)) :
    ∃ found rest, leadingMatches stages = .ok (found, rest) := by
  induction stages with
  | nil => exact ⟨[], [], rfl⟩
  | cons stage stages ih =>
    obtain ⟨⟨name, body, rfl, hbody⟩, hstages⟩ := List.forall_mem_cons.1 h
    by_cases hname : name = "$match".toList
    · obtain rfl := hname
      cases body with
      | document query =>
        obtain ⟨found, rest, hfound⟩ := ih hstages
        refine ⟨query :: found, rest, ?_⟩
        change leadingMatches (matchStage query :: stages) = _
        rw [leadingMatches_matchStage, hfound]
        rfl
      | _ => cases hbody rfl
    · exact ⟨[], [(name, body)] :: stages, leadingMatches_other hname body stages⟩

/-- A pipeline is split into the filter of its leading `$match` stages and the other stages. -/
lemma splitPipeline_eq_ok {stages rest : List Doc} {prefilter : Doc} :
    splitPipeline stages = .ok (prefilter, rest) ↔
      ∃ found, leadingMatches stages = .ok (found, rest) ∧ prefilter = mergedFilter found := by
  unfold splitPipeline
  rw [except_bind_eq_ok]
  constructor
  · rintro ⟨⟨found, rest'⟩, hfound, h⟩
    rcases found with _ | ⟨query, _ | ⟨query', found⟩⟩ <;>
      obtain ⟨rfl, rfl⟩ := Prod.mk.inj (Except.ok.inj h) <;>
      exact ⟨_, hfound, rfl⟩
  · rintro ⟨found, hfound, rfl⟩
    refine ⟨(found, rest), hfound, ?_⟩
    rcases found with _ | ⟨query, _ | ⟨query', found⟩⟩ <;> rfl

/-! ## The filter -/

section Filter

variable {L : Libbson}

/-- The branches of `$and` compile one by one. -/
lemma compileBranches_documents (L : Libbson) (queries : List Doc) (k : ℕ) :
    compileBranches L (((queries.map Value.document).zipIdx k).map
      fun (v, i) => (decimal i, v)) = queries.mapM (compileDocument L) := by
  induction queries generalizing k with
  | nil => rfl
  | cons query queries ih =>
    simp only [List.map_cons, List.zipIdx_cons, compileBranches, compileBranch, List.mapM_cons,
      ih (k + 1), compileDocument]

/-- **One condition.**  The filter of leading `$match` stages compiles to the conjunction of what
they compile to. -/
theorem compileDocument_mergedFilter (L : Libbson) (queries : List Doc) :
    compileDocument L (mergedFilter queries) =
      conjoinFields <$> queries.mapM (compileDocument L) := by
  rcases queries with _ | ⟨query, _ | ⟨query', queries⟩⟩
  · rfl
  · change compileDocument L query = conjoinFields <$> [query].mapM (compileDocument L)
    rw [List.mapM_cons]
    cases compileDocument L query <;> rfl
  · have hbranches := compileBranches_documents L (query :: query' :: queries) 0
    have hfield : compileField L ("$and".toList,
        .array (makeArray ((query :: query' :: queries).map .document))) =
        (return conjoin .and (← (query :: query' :: queries).mapM (compileDocument L))) := by
      rw [← hbranches]
      rfl
    change (return conjoinFields (← (return (← compileField L ("$and".toList,
      .array (makeArray ((query :: query' :: queries).map .document)))) :: (← .ok [])))) = _
    rw [hfield]
    cases hconds : (query :: query' :: queries).mapM (compileDocument L) with
    | error e => rfl
    | ok conds =>
      rw [List.mapM_cons] at hconds
      obtain ⟨cond, -, hconds⟩ := except_bind_eq_ok.1 hconds
      obtain ⟨conds', -, hconds⟩ := except_bind_eq_ok.1 hconds
      obtain rfl := Except.ok.inj hconds
      rfl

/-- The emitted form of a condition. -/
def Cond.emitted (col : DocColumn) (cond : Cond) : SqlFilter := ⟨cond.text col, cond.params⟩

/-- What filters are emitted as, by their conditions. -/
lemma exists_conds_of_emitFilter {col : DocColumn} {queries : List Doc} {outs : List SqlFilter}
    (h : List.Forall₂ (fun query out => emitFilter L col query = .ok out) queries outs) :
    ∃ conds, queries.mapM (compileDocument L) = .ok conds ∧
      outs = conds.map (Cond.emitted col) := by
  induction h with
  | nil => exact ⟨[], rfl, rfl⟩
  | cons hout _ ih =>
    obtain ⟨conds, hconds, rfl⟩ := ih
    rw [emitFilter_eq] at hout
    obtain ⟨cond, hcond, hout⟩ := except_bind_eq_ok.1 hout
    obtain rfl := Except.ok.inj hout
    refine ⟨cond :: conds, ?_, rfl⟩
    rw [List.mapM_cons, hcond, hconds]
    rfl

/-- What the filter of leading `$match` stages is emitted as. -/
lemma emitFilter_of_conds {col : DocColumn} {queries : List Doc} {conds : List Cond}
    (h : queries.mapM (compileDocument L) = .ok conds) :
    emitFilter L col (mergedFilter queries) = .ok ((conjoinFields conds).emitted col) := by
  rw [emitFilter_eq, compileFilter, compileDocument_mergedFilter, h]
  rfl

/-- The text and the parameters of the filter of leading `$match` stages: those of the stages,
joined and one after the other. -/
lemma emitFilter_mergedFilter {col : DocColumn} {queries : List Doc} {outs : List SqlFilter}
    (h : List.Forall₂ (fun query out => emitFilter L col query = .ok out) queries outs) :
    emitFilter L col (mergedFilter queries) =
      .ok ⟨conjoinFieldsText (outs.map SqlFilter.sql), outs.flatMap SqlFilter.params⟩ := by
  obtain ⟨conds, hconds, rfl⟩ := exists_conds_of_emitFilter h
  rw [emitFilter_of_conds hconds, Cond.emitted, text_conjoinFields, params_conjoinFields,
    List.map_map, List.flatMap_map]
  rfl

end Filter

/-! ## What the joined texts mean -/

mutual

/-- A condition has a parameter for each placeholder of its tree. -/
lemma holes_tree : ∀ cond : Cond, cond.tree.holes = cond.params.length
  | .one | .zero | .isNull _ | .regexp _ _ | .contains _ _ => rfl
  | .compare operand _ _ => by cases operand <;> rfl
  | .jsonExists _ negated => by cases negated <;> rfl
  | .inList path negated members => by
    have hholes : (Cond.inList path negated members).tree.holes =
        0 + Expr.holesAll (members.map fun _ => .param) := rfl
    have hmembers : Expr.holesAll (members.map fun _ => .param) = members.length := by
      induction members with
      | nil => rfl
      | cons member members ih => rw [List.map_cons, Expr.holesAll, ih rfl, List.length_cons,
          Expr.holes, Nat.add_comm]
    rw [hholes, hmembers, Nat.zero_add]
    rfl
  | .junction joiner parts => by
    have hjoin : ∀ es : List Expr, (joiner.connective.join es).holes = Expr.holesAll es := by
      intro es
      cases joiner <;> match es with
        | [] => rfl
        | [_] => rfl
        | _ :: _ :: _ => rfl
    rw [Cond.tree, hjoin, holesAll_treeAll parts]
    rfl
  | .not cond => holes_tree cond
termination_by structural cond => cond

/-- So do several conditions. -/
lemma holesAll_treeAll : ∀ parts : List Cond,
    Expr.holesAll (Cond.treeAll parts) = (Cond.paramsAll parts).length
  | [] => rfl
  | part :: parts => by
    rw [Cond.treeAll, Expr.holesAll, Cond.paramsAll, List.length_append, holes_tree part,
      holesAll_treeAll parts]
termination_by structural parts => parts

end

section Joined

variable {conds : List Cond}

/-- Joined conditions have no empty parentheses when none of them has. -/
lemma full_conjoinFields (conds : List Cond) :
    (conjoinFields conds).full = conds.all Cond.full := by
  match conds with
  | [] => rfl
  | [cond] => exact (Bool.and_true _).symm
  | cond :: cond' :: conds =>
    have hfull : (conjoinFields (cond :: cond' :: conds)).full =
        Cond.allFull (cond :: cond' :: conds) := rfl
    rw [hfull, allFull_eq_all]

/-- Joined conditions have the paths of all of them. -/
lemma unquoted_conjoinFields (h : ∀ cond ∈ conds, ∀ path ∈ cond.paths, Unquoted path) :
    ∀ path ∈ (conjoinFields conds).paths, Unquoted path := by
  have hall : ∀ path ∈ Cond.pathsAll conds, Unquoted path := by
    induction conds with
    | nil => exact fun path hpath => absurd hpath List.not_mem_nil
    | cons cond conds ih =>
      obtain ⟨hcond, hconds⟩ := List.forall_mem_cons.1 h
      exact List.forall_mem_append.2 ⟨hcond, ih hconds⟩
  cases conds with
  | nil => exact fun path hpath => absurd hpath List.not_mem_nil
  | cons cond conds =>
    have hpaths : (conjoinFields (cond :: conds)).paths =
        (conjoin .and (cond :: conds)).paths := rfl
    rwa [hpaths, paths_conjoin]

/-- **Joined texts.**  Where no name has a quote, the joined text of conditions is true of a
document when the text of each of them is. -/
theorem truth_conjoinFields (M : MariaDB) (json : Json)
    (h : ∀ cond ∈ conds, ∀ path ∈ cond.paths, Unquoted path) :
    ((conjoinFields conds).emitted .doc).truth M json = some (some true) ↔
      ∀ cond ∈ conds, (cond.emitted .doc).truth M json = some (some true) := by
  match conds, h with
  | [], _ =>
    have htruth := @truth_text M json .one nofun
    exact iff_of_true htruth nofun
  | [cond], _ =>
    have hjoined : conjoinFields [cond] = cond := rfl
    rw [hjoined, List.forall_mem_singleton]
  | cond :: cond' :: conds, h =>
    generalize hparts : cond :: cond' :: conds = parts at *
    have htree : (conjoinFields parts).tree = .and (parts.map Cond.tree) := by
      subst hparts
      exact congrArg Expr.and (treeAll_eq_map (cond :: cond' :: conds))
    have hlength : ∀ part ∈ parts.map fun part => (part.tree, part.params.map Param.term),
        part.2.length = part.1.holes := by
      rw [List.forall_mem_map]
      intro part _
      rw [List.length_map, holes_tree]
    have hand := condition_and (S := M.server json) (fun _ => rfl) hlength
    rw [List.map_map, List.flatMap_map] at hand
    have hcondition : (conjoinFields parts).tree.condition (M.server json)
        ((conjoinFields parts).params.map Param.term) = some (some true) ↔
          ∀ part ∈ parts, part.tree.condition (M.server json) (part.params.map Param.term) =
            some (some true) := by
      rw [htree, params_conjoinFields, List.map_flatMap]
      refine Iff.trans (Eq.congr hand rfl) ?_
      rw [conditions_true_iff, List.forall_mem_map]
    have hemitted : ∀ part : Cond, part.emitted .doc = ⟨part.text .doc, part.params⟩ := fun _ => rfl
    rw [hemitted, truth_of_unquoted M json (unquoted_conjoinFields h), full_conjoinFields]
    have hparts : (∀ part ∈ parts, (part.emitted .doc).truth M json = some (some true)) ↔
        ∀ part ∈ parts, part.full = true ∧ part.tree.condition (M.server json)
          (part.params.map Param.term) = some (some true) := by
      refine forall₂_congr fun part hpart => ?_
      rw [hemitted, truth_of_unquoted M json (h part hpart)]
      cases part.full <;> simp
    rw [hparts, forall₂_and, ← hcondition, ← List.all_eq_true]
    cases parts.all Cond.full <;> simp

end Joined

/-! ## Filtering stage by stage -/

/-- What a filter keeps of the documents that are stored: those of which its text is true.  Nothing
is kept when the compiler refuses the filter, or the server its text. -/
def matching (M : MariaDB) (L : Libbson) (filter : Doc) (stored : List Json) :
    Option (List Json) :=
  (emitFilter L .doc filter).toOption.bind fun out =>
    if out.params.all Param.spelled && (parse out.sql).isSome then
      some (stored.filter fun json => decide (out.truth M json = some (some true)))
    else none

/-- Load what is kept, and run stages on it. -/
def loadAndRun (L : Libbson) (stages : List Doc) (kept : List Json) : Option (List Doc) :=
  (kept.mapM fun json => (L.fromExtjson json).toOption).bind fun documents =>
    (runStages documents stages).toOption

/-- What the code does: split the pipeline, load what the prefilter keeps and run the rest. -/
def runSplit (M : MariaDB) (L : Libbson) (stages : List Doc) (stored : List Json) :
    Option (List Doc) :=
  (splitPipeline stages).toOption.bind fun split =>
    (matching M L split.1 stored).bind (loadAndRun L split.2)

/-- What a pipeline means: each leading `$match` stage filters what the one before it kept. -/
def stagewise (M : MariaDB) (L : Libbson) : List Doc → List Json → Option (List Doc)
  | [], stored => loadAndRun L [] stored
  | stage :: stages, stored =>
    match stage with
    | [(name, .document query)] =>
      if name = "$match".toList then (matching M L query stored).bind (stagewise M L stages)
      else loadAndRun L (stage :: stages) stored
    | _ => loadAndRun L (stage :: stages) stored

/-- The text of a filter can be joined with others: no name that it tests has a quote, which ends
the string that the path is put in, or a question mark, which is taken for a placeholder. -/
def Joins (filter : Doc) : Prop :=
  ∀ path ∈ (filterQuery filter).paths, Unquoted path ∧ ∀ name ∈ path, '?' ∉ name

/-- The filters of leading `$match` stages can be made one: there is none or one, or the texts of
all of them can be joined. -/
def Joinable (queries : List Doc) : Prop := queries.length ≤ 1 ∨ ∀ query ∈ queries, Joins query

section Stagewise

variable {M : MariaDB} {L : Libbson}

/-- The condition of a filter whose text can be joined has no quotes in its names. -/
lemma Joins.unquoted {filter : Doc} {cond : Cond} (h : Joins filter)
    (hcond : compileDocument L filter = .ok cond) : ∀ path ∈ cond.paths, Unquoted path :=
  fun path hpath => (h path ((((outlines_compileRelation L).document hcond).paths path).1 hpath)).1

/-- So have the conditions of several filters. -/
lemma unquoted_of_joins {queries : List Doc} {conds : List Cond}
    (hconds : List.Forall₂ (fun query cond => compileDocument L query = .ok cond) queries conds)
    (h : ∀ query ∈ queries, Joins query) :
    ∀ cond ∈ conds, ∀ path ∈ cond.paths, Unquoted path := by
  induction hconds with
  | nil => exact fun cond hcond => absurd hcond List.not_mem_nil
  | cons hcond _ ih =>
    obtain ⟨hquery, hqueries⟩ := List.forall_mem_cons.1 h
    exact List.forall_mem_cons.2 ⟨hquery.unquoted hcond, ih hqueries⟩

/-- What the server accepts of a condition. -/
def Cond.runs (cond : Cond) : Bool := cond.params.all Param.spelled && cond.full

/-- What a condition whose names have no quotes keeps. -/
lemma matching_of_unquoted {filter : Doc} {cond : Cond}
    (hcond : compileDocument L filter = .ok cond) (h : ∀ path ∈ cond.paths, Unquoted path)
    (stored : List Json) :
    matching M L filter stored =
      if cond.runs then some (stored.filter fun json =>
        decide ((cond.emitted .doc).truth M json = some (some true))) else none := by
  have hemitted : emitFilter L .doc filter = .ok (cond.emitted .doc) := by
    rw [emitFilter_eq, compileFilter, hcond]
    rfl
  have hparse : (parse (cond.emitted .doc).sql).isSome = cond.full := by
    change (parse (cond.text .doc)).isSome = cond.full
    rw [parse_text h]
    cases cond.full <;> rfl
  rw [matching, hemitted]
  change (if cond.params.all Param.spelled &&
    (parse (cond.emitted .doc).sql).isSome then _ else _) = _
  rw [hparse]
  rfl

/-- Joined conditions are accepted when all of them are. -/
lemma runs_conjoinFields (conds : List Cond) :
    (conjoinFields conds).runs = true ↔ ∀ cond ∈ conds, cond.runs = true := by
  simp only [Cond.runs, params_conjoinFields, full_conjoinFields, Bool.and_eq_true,
    List.all_eq_true, List.mem_flatMap, forall₂_and]
  refine and_congr_left fun _ =>
    ⟨fun h cond hcond param hparam => h param ⟨cond, hcond, hparam⟩, ?_⟩
  rintro h param ⟨cond, hcond, hparam⟩
  exact h cond hcond param hparam

/-- What filters whose texts can be joined keep together. -/
lemma matching_joined {queries : List Doc} (h : ∀ query ∈ queries, Joins query)
    (stored : List Json) :
    matching M L (mergedFilter queries) stored =
      (queries.mapM (compileDocument L)).toOption.bind fun conds =>
        if ∀ cond ∈ conds, cond.runs = true then
          some (stored.filter fun json =>
            decide (∀ cond ∈ conds, (cond.emitted .doc).truth M json = some (some true)))
        else none := by
  cases hconds : queries.mapM (compileDocument L) with
  | error e =>
    rw [matching, emitFilter_eq, compileFilter, compileDocument_mergedFilter, hconds]
    rfl
  | ok conds =>
    have hcond : compileDocument L (mergedFilter queries) = .ok (conjoinFields conds) := by
      rw [compileDocument_mergedFilter, hconds]
      rfl
    have hunquoted := unquoted_of_joins (mapM_eq_ok_iff.1 hconds) h
    rw [matching_of_unquoted hcond (unquoted_conjoinFields hunquoted)]
    simp only [truth_conjoinFields M _ hunquoted, runs_conjoinFields]
    rfl

/-- The filter of leading `$match` stages keeps what they keep one after the other. -/
lemma matching_mergedFilter {queries : List Doc} (h : Joinable queries) (stored : List Json) :
    matching M L (mergedFilter queries) stored =
      queries.foldlM (fun kept query => matching M L query kept) stored := by
  rcases h with hlength | hjoins
  · match queries, hlength with
    | [], _ =>
      rw [matching_joined (fun query hquery => absurd hquery List.not_mem_nil)]
      simp [Except.toOption, pure, Except.pure]
    | [query], _ =>
      rw [List.foldlM_cons]
      cases hkept : matching M L query stored with
      | none => exact hkept
      | some kept => exact hkept
  · rw [matching_joined hjoins]
    induction queries generalizing stored with
    | nil => simp [Except.toOption, pure, Except.pure]
    | cons query queries ih =>
      obtain ⟨hquery, hqueries⟩ := List.forall_mem_cons.1 hjoins
      rw [List.mapM_cons, List.foldlM_cons]
      simp only [← fun kept => ih kept hqueries]
      cases hcond : compileDocument L query with
      | error e =>
        rw [matching, emitFilter_eq, compileFilter, hcond]
        rfl
      | ok cond =>
        rw [matching_of_unquoted hcond (hquery.unquoted hcond)]
        cases hconds : queries.mapM (compileDocument L) with
        | error e =>
          cases cond.runs <;> rfl
        | ok conds =>
          by_cases hruns : cond.runs = true
          · simp [hruns, Except.toOption, bind, Except.bind, pure, Except.pure,
              List.filter_filter, Bool.and_comm]
          · simp [hruns, Except.toOption, bind, Except.bind, pure, Except.pure]

/-- A leading `$match` stage filters. -/
lemma stagewise_matchStage (query : Doc) (stages : List Doc) (stored : List Json) :
    stagewise M L (matchStage query :: stages) stored =
      (matching M L query stored).bind (stagewise M L stages) := rfl

/-- A `$match` stage is not run. -/
lemma runStage_match (documents : List Doc) (body : Value) :
    (runStage documents [("$match".toList, body)]).toOption = none := by
  change (runOperator documents "$match".toList body).toOption = none
  unfold runOperator
  rw [if_pos rfl]
  rfl

/-- Stages of which the first fails yield nothing. -/
lemma loadAndRun_eq_none {stage : Doc} {stages : List Doc} {kept : List Json}
    (h : ∀ documents, (runStage documents stage).toOption = none) :
    loadAndRun L (stage :: stages) kept = none := by
  refine Option.bind_eq_none_iff.2 fun documents _ => ?_
  have hstage := h documents
  rw [runStages]
  cases hrun : runStage documents stage with
  | error e => rfl
  | ok out => simp [hrun, Except.toOption] at hstage

/-- Stages that do not begin with a `$match` are run on what was kept. -/
lemma stagewise_of_noLeadingMatch {stages : List Doc} (h : NoLeadingMatch stages) :
    stagewise M L stages = loadAndRun L stages := by
  funext stored
  cases stages with
  | nil => rfl
  | cons stage stages =>
    unfold stagewise
    split
    · next name query =>
      refine if_neg fun hname => h _ _ (.document query) rfl ?_
      rw [hname]
    · rfl

/-- Filtering by leading `$match` stages, one after the other. -/
lemma stagewise_append (queries : List Doc) (rest : List Doc) (stored : List Json) :
    stagewise M L (queries.map matchStage ++ rest) stored =
      (queries.foldlM (fun kept query => matching M L query kept) stored).bind
        (stagewise M L rest) := by
  induction queries generalizing stored with
  | nil => rfl
  | cons query queries ih =>
    rw [List.map_cons, List.cons_append, stagewise_matchStage, List.foldlM_cons,
      show stagewise M L (queries.map matchStage ++ rest) = fun kept => _ from funext ih]
    exact (Option.bind_assoc _ _ _).symm

/-- A pipeline that cannot be taken apart yields nothing. -/
lemma stagewise_of_error {stages : List Doc} {e : TranslatorError}
    (h : leadingMatches stages = .error e) (stored : List Json) :
    stagewise M L stages stored = none := by
  induction stages generalizing stored with
  | nil => cases h
  | cons stage stages ih =>
    rcases stage with _ | ⟨⟨name, body⟩, _ | ⟨field, stage⟩⟩
    · exact loadAndRun_eq_none fun _ => rfl
    · by_cases hname : name = "$match".toList
      · obtain rfl := hname
        cases body with
        | document query =>
          have hstages : leadingMatches stages = .error e := by
            change leadingMatches (matchStage query :: stages) = _ at h
            rw [leadingMatches_matchStage] at h
            cases hrest : leadingMatches stages with
            | error e' =>
              rw [hrest] at h
              exact h
            | ok split =>
              rw [hrest] at h
              cases h
          exact Option.bind_eq_none_iff.2 fun kept _ => ih hstages kept
        | _ => exact loadAndRun_eq_none fun documents => runStage_match documents _
      · rw [leadingMatches_other hname] at h
        cases h
    · have hrun : stagewise M L (((name, body) :: field :: stage) :: stages) stored =
          loadAndRun L (((name, body) :: field :: stage) :: stages) stored := by
        unfold stagewise
        split
        · next heq => exact absurd (List.cons.inj heq).2 (List.cons_ne_nil _ _)
        · rfl
      rw [hrun]
      exact loadAndRun_eq_none fun _ => rfl

/-- **Stage by stage.**  Where the filters of the leading `$match` stages can be made one, loading
what the prefilter keeps and running the rest is filtering stage by stage and running the rest. -/
theorem runSplit_eq_stagewise {stages : List Doc}
    (h : ∀ queries rest, stages = queries.map matchStage ++ rest → NoLeadingMatch rest →
      Joinable queries) (stored : List Json) :
    runSplit M L stages stored = stagewise M L stages stored := by
  unfold runSplit
  cases hfound : leadingMatches stages with
  | error e =>
    rw [stagewise_of_error hfound, splitPipeline, hfound]
    rfl
  | ok split =>
    obtain ⟨queries, rest⟩ := split
    obtain ⟨rfl, hrest⟩ := leadingMatches_eq_ok hfound
    rw [splitPipeline_eq_ok.2 ⟨queries, hfound, rfl⟩, stagewise_append,
      stagewise_of_noLeadingMatch hrest, ← matching_mergedFilter (h queries rest rfl hrest)]
    rfl

/-- The merged filter is emitted where those of the stages are, and true where they are true. -/
lemma truth_mergedFilter {queries : List Doc} {outs : List SqlFilter} (hjoinable : Joinable queries)
    (h : List.Forall₂ (fun query out => emitFilter L .doc query = .ok out) queries outs) :
    ∃ out, emitFilter L .doc (mergedFilter queries) = .ok out ∧
      ∀ json, out.truth M json = some (some true) ↔
        ∀ o ∈ outs, o.truth M json = some (some true) := by
  obtain ⟨conds, hconds, rfl⟩ := exists_conds_of_emitFilter h
  refine ⟨_, emitFilter_of_conds hconds, fun json => ?_⟩
  rw [List.forall_mem_map]
  rcases hjoinable with hlength | hjoins
  · match conds, (mapM_eq_ok_iff.1 hconds).length_eq with
    | [], _ => exact truth_conjoinFields M json nofun
    | [cond], _ =>
      have hjoined : conjoinFields [cond] = cond := rfl
      rw [hjoined, List.forall_mem_singleton]
    | _ :: _ :: _, hlong =>
      rw [hlong] at hlength
      exact absurd hlength (by simp)
  · exact truth_conjoinFields M json (unquoted_of_joins (mapM_eq_ok_iff.1 hconds) hjoins)

/-- **Leading `$match` stages in SQL.**  A pipeline of stages that are well formed is split.  Then
every stage is kept, the maximal leading run of `$match` stages as one filter and the others in
their order; and the filter has the texts of the stages' filters joined and their parameters one
after the other.  Where there is at most one such stage, or no name that they test has a quote or a
question mark, the text is true of a document exactly when each of theirs is, and loading what it
keeps and running the rest is filtering stage by stage and running the rest. -/
theorem leading_matches_pushed (M : MariaDB) (L : Libbson) (stages : List Doc) :
    ((∀ stage ∈ stages, ∃ name body, stage = [(name, body)] ∧
      (name = "$match".toList → body.isDocument = true)) →
      ∃ prefilter rest, splitPipeline stages = .ok (prefilter, rest)) ∧
    (∀ prefilter rest, splitPipeline stages = .ok (prefilter, rest) → ∃ queries,
      stages = queries.map matchStage ++ rest ∧ NoLeadingMatch rest ∧
      prefilter = mergedFilter queries ∧
      (∀ col outs, List.Forall₂ (fun query out => emitFilter L col query = .ok out) queries outs →
        emitFilter L col prefilter =
          .ok ⟨conjoinFieldsText (outs.map SqlFilter.sql), outs.flatMap SqlFilter.params⟩) ∧
      (Joinable queries → ∀ outs,
        List.Forall₂ (fun query out => emitFilter L .doc query = .ok out) queries outs →
        ∃ out, emitFilter L .doc prefilter = .ok out ∧
          ∀ json, out.truth M json = some (some true) ↔
            ∀ o ∈ outs, o.truth M json = some (some true))) ∧
    ((∀ queries rest, stages = queries.map matchStage ++ rest → NoLeadingMatch rest →
      Joinable queries) → ∀ stored, runSplit M L stages stored = stagewise M L stages stored) := by
  refine ⟨fun hstages => ?_, fun prefilter rest hsplit => ?_, runSplit_eq_stagewise⟩
  · obtain ⟨found, rest, hfound⟩ := exists_leadingMatches hstages
    exact ⟨_, rest, splitPipeline_eq_ok.2 ⟨found, hfound, rfl⟩⟩
  · obtain ⟨queries, hfound, rfl⟩ := splitPipeline_eq_ok.1 hsplit
    obtain ⟨hstages, hrest⟩ := leadingMatches_eq_ok hfound
    exact ⟨queries, hstages, hrest, rfl, fun col outs => emitFilter_mergedFilter,
      fun hjoinable outs => truth_mergedFilter hjoinable⟩

end Stagewise

/-- Two leading `$match` stages, of a document that the first drops. -/
theorem leading_matches_pushed_two :
    let first := [("a".toList, Value.utf8 "x".toList)]
    let second := [("b".toList, Value.document [("$exists".toList, .bool true)])]
    let stored := [Json.obj [("a".toList, .str "y".toList), ("b".toList, .str "z".toList)]]
    runSplit .ofStrings .ofStrings [matchStage first, matchStage second] stored = some [] := by
  intro first second stored
  obtain ⟨-, -, hstages⟩ :=
    leading_matches_pushed .ofStrings .ofStrings [matchStage first, matchStage second]
  have hjoins : ∀ query, query = first ∨ query = second → Joins query := by
    unfold Joins Unquoted
    rintro query (rfl | rfl) <;> decide
  rw [hstages]
  · decide +kernel
  · intro queries rest heq _
    refine .inr fun query hquery => hjoins query ?_
    have hmem : matchStage query ∈ [matchStage first, matchStage second] := by
      rw [heq]
      exact List.mem_append_left _ (List.mem_map_of_mem hquery)
    simpa [matchStage] using hmem

/-- A name that closes its string and joins a disjunct of its own: the joined text is true of a
document that the first stage drops. -/
theorem quoted_match_overrules :
    let first := [("a".toList, Value.document [("$exists".toList, .bool true)])]
    let second :=
      [("') OR 1 OR JSON_EXISTS(doc,'$".toList, Value.document [("$exists".toList, .bool true)])]
    let stored := Json.obj [("b".toList, .str "z".toList)]
    ∃ prefilter out outFirst,
      splitPipeline [matchStage first, matchStage second] = .ok (prefilter, []) ∧
      emitFilter .ofStrings .doc first = .ok outFirst ∧
      emitFilter .ofStrings .doc prefilter = .ok out ∧
      outFirst.truth .ofStrings stored = some (some false) ∧
      out.truth .ofStrings stored = some (some true) := by
  intro first second stored
  refine ⟨_, _, _, rfl, rfl, rfl, ?_, ?_⟩
  · decide +kernel
  · decide +kernel

end Chimera

import Chimera.Translator.FilterSemantics

/-!
# The query language

A filter read as a query: tests on paths, joined by conjunction, disjunction and negation.  The
rules of `Query.Forced` say when a document settles a query as true or as false, without
reference to SQL.  The compiled condition of an accepted filter has a truth value exactly when
the document settles the query as that value.
-/

namespace Chimera

/-- A test on the member at a path. -/
inductive Test where
  /-- The member is the value, or an array that contains it. -/
  | equals (v : Value)
  /-- The member compares with the value. -/
  | compares (op : CompareOp) (v : Value)
  /-- The member is one of the values, or is none of them. -/
  | oneOf (negated : Bool) (vs : List Value)
  /-- The member is there, or is not. -/
  | present (wanted : Bool)
  /-- The member matches a regular expression. -/
  | matches (pattern : Text)
  /-- The member contains a document. -/
  | holds (fields : Doc)

/-- A query. -/
inductive Query where
  | everything
  | conj (queries : List Query)
  | disj (queries : List Query)
  | neg (query : Query)
  | test (path : Path) (t : Test)
deriving Inhabited

/-! ## When a document settles a query -/

section Forced

variable (M : MariaDB) (L : Libbson) (doc : Json)

/-- The document holds a scalar at the path, and comparing it with the value yields `b`. -/
def ComparesAs (path : Path) (op : CompareOp) (v : Value) (b : Bool) : Prop :=
  ∃ param x, bindValue v = .ok param ∧ param ≠ .null ∧
    (comparable path v).read M doc = some x ∧ M.compare x op param = b

/-- As `ComparesAs`, with the scalar compared as text whatever the value is. -/
def ListedAs (path : Path) (v : Value) (b : Bool) : Prop :=
  ∃ param s, bindValue v = .ok param ∧ param ≠ .null ∧
    M.scalarExpr doc path = some s ∧ M.compare (.text s) .eq param = b

/-- The document holds something at the path, and searching it for a JSON tree yields `b`. -/
def ContainsAs (path : Path) (candidate : Except TranslatorError Json) (b : Bool) : Prop :=
  ∃ literal json, candidate = .ok literal ∧ jsonAt doc path = some json ∧
    M.contains json literal = b

/-- The document holds a scalar at the path, and matching it with the pattern yields `b`. -/
def MatchesAs (path : Path) (pattern : Text) (b : Bool) : Prop :=
  ∃ s, M.scalarExpr doc path = some s ∧ M.regexp s pattern = some b

/-- The document settles a test as `b`.  Equality holds as soon as one of its two readings does,
and fails only where both can be read. -/
def Test.Forced (path : Path) : Test → Bool → Prop
  | .equals .null, b => (M.scalarExpr doc path).isNone = b
  | .equals (.regex pattern _), b => MatchesAs M doc path pattern b
  | .equals v, true =>
    ComparesAs M doc path .eq v true ∨ ContainsAs M doc path (canonicalLiteral L v) true
  | .equals v, false =>
    ComparesAs M doc path .eq v false ∧ ContainsAs M doc path (canonicalLiteral L v) false
  | .compares op v, b => ComparesAs M doc path op v b
  | .oneOf negated vs, b =>
    if b != negated then ∃ v ∈ vs, ListedAs M doc path v true
    else ∀ v ∈ vs, ListedAs M doc path v false
  | .present wanted, b => ((jsonAt doc path).isSome == wanted) = b
  | .matches pattern, b => MatchesAs M doc path pattern b
  | .holds fields, b => ContainsAs M doc path (L.toExtjson fields) b

/-- The document settles a query as `b`. -/
inductive Query.Forced : Query → Bool → Prop
  | everything : Query.Forced .everything true
  | conj_true {queries : List Query} (h : ∀ q ∈ queries, Query.Forced q true) :
      Query.Forced (.conj queries) true
  | conj_false {queries : List Query} {q : Query} (hq : q ∈ queries)
      (h : Query.Forced q false) : Query.Forced (.conj queries) false
  | disj_true {queries : List Query} {q : Query} (hq : q ∈ queries)
      (h : Query.Forced q true) : Query.Forced (.disj queries) true
  | disj_false {queries : List Query} (h : ∀ q ∈ queries, Query.Forced q false) :
      Query.Forced (.disj queries) false
  | neg {q : Query} {b : Bool} (h : Query.Forced q !b) : Query.Forced (.neg q) b
  | test {path : Path} {t : Test} {b : Bool} (h : t.Forced M L doc path b) :
      Query.Forced (.test path t) b

end Forced

/-! ## What can be said in SQL -/

/-- The value has a spelling in SQL: infinities and NaN do not. -/
def Value.spelled : Value → Bool
  | .double d => d.isFinite
  | _ => true

/-- The values of a test have spellings in SQL. -/
def Test.sayable : Test → Bool
  | .equals v | .compares _ v => v.spelled
  | .oneOf _ vs => vs.all Value.spelled
  | _ => true

mutual

/-- The query can be said in SQL: its values have spellings, and it joins nothing empty. -/
def Query.sayable : Query → Bool
  | .everything => true
  | .conj queries | .disj queries => !queries.isEmpty && Query.allSayable queries
  | .neg query => query.sayable
  | .test _ t => t.sayable
termination_by structural query => query

/-- All queries can be said in SQL. -/
def Query.allSayable : List Query → Bool
  | [] => true
  | query :: queries => query.sayable && Query.allSayable queries
termination_by structural queries => queries

end

/-- All queries can be said when each of them can. -/
@[simp] lemma Query.allSayable_eq_all (queries : List Query) :
    Query.allSayable queries = queries.all Query.sayable := by
  induction queries with
  | nil => rfl
  | cons query queries ih => simp [Query.allSayable, ih]

/-! ## The query of a filter -/

/-- The values of an array. -/
def Value.members (v : Value) : List Value := (arrayValues v).toOption.getD []

/-- The query of `$regex`. -/
def regexQuery (path : Path) : Value → Query
  | .utf8 pattern | .regex pattern _ => .test path (.matches pattern)
  | _ => .everything

mutual

/-- The query of one operator on a path. -/
def operatorQuery (path : Path) : Text × Value → Query
  | (op, v) =>
    if op = "$eq".toList then .test path (.equals v)
    else if op = "$ne".toList then .neg (.test path (.equals v))
    else if op = "$gt".toList then .test path (.compares .gt v)
    else if op = "$gte".toList then .test path (.compares .ge v)
    else if op = "$lt".toList then .test path (.compares .lt v)
    else if op = "$lte".toList then .test path (.compares .le v)
    else if op = "$in".toList then .test path (.oneOf false v.members)
    else if op = "$nin".toList then .test path (.oneOf true v.members)
    else if op = "$exists".toList then .test path (.present (wantsPresence v))
    else if op = "$regex".toList then regexQuery path v
    else if op = "$not".toList then notQuery path v
    else .test path (.holds (v.subdocument.getD []))
termination_by structural field => field

/-- The query of `$not`. -/
def notQuery (path : Path) : Value → Query
  | .document ops => .neg (.conj (operatorQueries path ops))
  | _ => .everything
termination_by structural v => v

/-- The queries of several operators on a path. -/
def operatorQueries (path : Path) : Doc → List Query
  | [] => []
  | op :: ops => operatorQuery path op :: operatorQueries path ops
termination_by structural ops => ops

end

/-- The query of a field that is not a logical operator. -/
def pathQuery (key : Text) (v : Value) : Query :=
  let path := splitDots key
  match operatorDocument v with
  | some ops => .conj (operatorQueries path ops)
  | none => .test path (.equals v)

/-- The query of a whole document. -/
def joinQueries : List Query → Query
  | [] => .everything
  | queries => .conj queries

mutual

/-- The query of a field. -/
def fieldQuery : Text × Value → Query
  | (key, v) =>
    if key = "$and".toList then .conj (logicalQueries v)
    else if key = "$or".toList then .disj (logicalQueries v)
    else if key = "$nor".toList then .neg (.disj (logicalQueries v))
    else pathQuery key v
termination_by structural field => field

/-- The queries a logical operator joins. -/
def logicalQueries : Value → List Query
  | .array branches => branchQueries branches
  | _ => []
termination_by structural v => v

/-- The queries of the branches of a logical operator. -/
def branchQueries : Doc → List Query
  | [] => []
  | branch :: branches => branchQuery branch :: branchQueries branches
termination_by structural branches => branches

/-- The query of one branch. -/
def branchQuery : Text × Value → Query
  | (_, .document filter) => joinQueries (fieldQueries filter)
  | _ => .everything
termination_by structural branch => branch

/-- The queries of the fields of a filter. -/
def fieldQueries : Doc → List Query
  | [] => []
  | field :: fields => fieldQuery field :: fieldQueries fields
termination_by structural fields => fields

end

/-- The query of a filter. -/
def filterQuery (filter : Doc) : Query := joinQueries (fieldQueries filter)

/-! ## The cases of the compiler -/

/-- Binding a list binds its members one by one. -/
lemma mapM_bindValue {vs : List Value} {params : List Param}
    (h : vs.mapM bindValue = .ok params) :
    List.Forall₂ (fun v param => bindValue v = .ok param) vs params := by
  induction vs generalizing params with
  | nil =>
    obtain rfl : [] = params := by simpa [pure, Except.pure] using h
    exact .nil
  | cons v vs ih =>
    simp only [List.mapM_cons, except_bind_eq_ok, except_pure_eq_ok] at h
    obtain ⟨param, hp, rest, hps, rfl⟩ := h
    exact .cons hp (ih hps)

/-- What `$in` compiles to: a constant for the empty list, or the list of its parameters. -/
lemma compileIn_cases {path : Path} {cond : Cond} {v : Value} {negated : Bool}
    (h : compileIn path v negated = .ok cond) :
    (v.members = [] ∧ cond = if negated then .one else .zero) ∨
      ∃ params, v.members ≠ [] ∧
        List.Forall₂ (fun v param => bindValue v = .ok param) v.members params ∧
        cond = .inList path negated params := by
  simp only [compileIn, except_bind_eq_ok] at h
  obtain ⟨members, hm, h⟩ := h
  have hv : v.members = members := by simp [Value.members, hm, Except.toOption]
  rw [hv]
  split at h
  · rename_i hempty
    exact .inl ⟨List.isEmpty_iff.1 hempty, (Except.ok.inj h).symm⟩
  · simp only [except_bind_eq_ok, except_pure_eq_ok] at h
    obtain ⟨params, hps, rfl⟩ := h
    exact .inr ⟨params, fun hnil => ‹¬ _› (List.isEmpty_iff.2 hnil), mapM_bindValue hps, rfl⟩

/-- A relation between conditions and queries that holds for what the compiler makes of each
operator, and that carries over to what it joins. -/
structure CompileRelation (L : Libbson) (R : Cond → Query → Prop) : Prop where
  eq : ∀ {path v cond}, compileEq L path v = .ok cond → R cond (.test path (.equals v))
  compare : ∀ {path op v cond}, compileCompare path op v = .ok cond →
    R cond (.test path (.compares op v))
  inList : ∀ {path v negated cond}, compileIn path v negated = .ok cond →
    R cond (.test path (.oneOf negated v.members))
  presence : ∀ {path wanted}, R (.jsonExists path !wanted) (.test path (.present wanted))
  regex : ∀ {path v cond}, compileRegex path v = .ok cond → R cond (regexQuery path v)
  elemMatch : ∀ {path v cond}, compileElemMatch L path v = .ok cond →
    R cond (.test path (.holds (v.subdocument.getD [])))
  not : ∀ {cond query}, R cond query → R (.not cond) (.neg query)
  conj : ∀ {conds queries}, List.Forall₂ R conds queries →
    R (conjoin .and conds) (.conj queries)
  disj : ∀ {conds queries}, List.Forall₂ R conds queries →
    R (conjoin .or conds) (.disj queries)
  fields : ∀ {conds queries}, List.Forall₂ R conds queries →
    R (conjoinFields conds) (joinQueries queries)

section CompileRelation

variable {L : Libbson} {R : Cond → Query → Prop} {path : Path} {cond : Cond}

mutual

/-- An operator is related to its query. -/
lemma CompileRelation.operator (hR : CompileRelation L R) :
    ∀ (field : Text × Value) {cond : Cond},
      compileOperator L path field = .ok cond → R cond (operatorQuery path field)
  | (op, v), cond, h => by
    unfold compileOperator at h
    unfold operatorQuery
    by_cases hEq : op = "$eq".toList
    · rw [if_pos hEq] at h ⊢
      exact hR.eq h
    rw [if_neg hEq] at h ⊢
    by_cases hNe : op = "$ne".toList
    · rw [if_pos hNe] at h ⊢
      simp only [except_bind_eq_ok, except_pure_eq_ok] at h
      obtain ⟨part, hpart, rfl⟩ := h
      exact hR.not (hR.eq hpart)
    rw [if_neg hNe] at h ⊢
    by_cases hGt : op = "$gt".toList
    · rw [if_pos hGt] at h ⊢
      exact hR.compare h
    rw [if_neg hGt] at h ⊢
    by_cases hGte : op = "$gte".toList
    · rw [if_pos hGte] at h ⊢
      exact hR.compare h
    rw [if_neg hGte] at h ⊢
    by_cases hLt : op = "$lt".toList
    · rw [if_pos hLt] at h ⊢
      exact hR.compare h
    rw [if_neg hLt] at h ⊢
    by_cases hLte : op = "$lte".toList
    · rw [if_pos hLte] at h ⊢
      exact hR.compare h
    rw [if_neg hLte] at h ⊢
    by_cases hIn : op = "$in".toList
    · rw [if_pos hIn] at h ⊢
      exact hR.inList h
    rw [if_neg hIn] at h ⊢
    by_cases hNin : op = "$nin".toList
    · rw [if_pos hNin] at h ⊢
      exact hR.inList h
    rw [if_neg hNin] at h ⊢
    by_cases hExists : op = "$exists".toList
    · rw [if_pos hExists] at h ⊢
      obtain rfl := Except.ok.inj h
      exact hR.presence
    rw [if_neg hExists] at h ⊢
    by_cases hRegex : op = "$regex".toList
    · rw [if_pos hRegex] at h ⊢
      exact hR.regex h
    rw [if_neg hRegex] at h ⊢
    by_cases hNot : op = "$not".toList
    · rw [if_pos hNot] at h ⊢
      exact hR.notOperator v h
    rw [if_neg hNot] at h ⊢
    split at h
    · exact hR.elemMatch h
    · cases h
termination_by structural field => field

/-- `$not` is related to its query. -/
lemma CompileRelation.notOperator (hR : CompileRelation L R) :
    ∀ (v : Value) {cond : Cond},
      compileNot L path v = .ok cond → R cond (notQuery path v)
  | .document ops, cond, h => by
    simp only [compileNot, except_bind_eq_ok, except_pure_eq_ok] at h
    obtain ⟨parts, hparts, rfl⟩ := h
    exact hR.not (hR.conj (hR.operators ops hparts))
termination_by structural v => v

/-- The operators on a path are related to their queries. -/
lemma CompileRelation.operators (hR : CompileRelation L R) :
    ∀ (ops : Doc) {conds : List Cond},
      compileOperators L path ops = .ok conds →
        List.Forall₂ R conds (operatorQueries path ops)
  | [], conds, h => by
    obtain rfl := Except.ok.inj h
    exact .nil
  | op :: ops, conds, h => by
    simp only [compileOperators, except_bind_eq_ok, except_pure_eq_ok] at h
    obtain ⟨part, hpart, parts, hparts, rfl⟩ := h
    exact .cons (hR.operator op hpart) (hR.operators ops hparts)
termination_by structural ops => ops

end

/-- A field that is not a logical operator is related to its query. -/
lemma CompileRelation.onPath (hR : CompileRelation L R) {key : Text} {v : Value}
    (h : compilePath L key v = .ok cond) : R cond (pathQuery key v) := by
  simp only [compilePath] at h
  split at h
  · cases h
  · simp only [except_bind_eq_ok] at h
    obtain ⟨path, hpath, h⟩ := h
    obtain rfl := splitPath_eq_ok hpath
    cases hops : operatorDocument v with
    | some ops =>
      simp only [hops, except_bind_eq_ok, except_pure_eq_ok] at h
      obtain ⟨parts, hparts, rfl⟩ := h
      have hquery : pathQuery key v = .conj (operatorQueries (splitDots key) ops) := by
        simp only [pathQuery, hops]
      rw [hquery]
      exact hR.conj (hR.operators ops hparts)
    | none =>
      simp only [hops] at h
      have hquery : pathQuery key v = .test (splitDots key) (.equals v) := by
        simp only [pathQuery, hops]
      rw [hquery]
      exact hR.eq h

mutual

/-- A field is related to its query. -/
lemma CompileRelation.field (hR : CompileRelation L R) :
    ∀ (field : Text × Value) {cond : Cond},
      compileField L field = .ok cond → R cond (fieldQuery field)
  | (key, v), cond, h => by
    unfold compileField at h
    unfold fieldQuery
    by_cases hAnd : key = "$and".toList
    · rw [if_pos hAnd] at h ⊢
      obtain ⟨parts, hparts, rfl⟩ := hR.logical v h
      exact hR.conj hparts
    rw [if_neg hAnd] at h ⊢
    by_cases hOr : key = "$or".toList
    · rw [if_pos hOr] at h ⊢
      obtain ⟨parts, hparts, rfl⟩ := hR.logical v h
      exact hR.disj hparts
    rw [if_neg hOr] at h ⊢
    by_cases hNor : key = "$nor".toList
    · rw [if_pos hNor] at h ⊢
      simp only [except_bind_eq_ok, except_pure_eq_ok] at h
      obtain ⟨part, hpart, rfl⟩ := h
      obtain ⟨parts, hparts, rfl⟩ := hR.logical v hpart
      exact hR.not (hR.disj hparts)
    rw [if_neg hNor] at h ⊢
    exact hR.onPath h
termination_by structural field => field

/-- A logical operator joins branches that are related to their queries. -/
lemma CompileRelation.logical (hR : CompileRelation L R) :
    ∀ (v : Value) {joiner : Joiner} {cond : Cond},
      compileLogical L joiner v = .ok cond →
        ∃ parts, List.Forall₂ R parts (logicalQueries v) ∧ conjoin joiner parts = cond
  | .array branches, joiner, cond, h => by
    simp only [compileLogical] at h
    split at h
    · cases h
    · simp only [except_bind_eq_ok, except_pure_eq_ok] at h
      obtain ⟨parts, hparts, rfl⟩ := h
      exact ⟨parts, hR.branches branches hparts, rfl⟩
termination_by structural v => v

/-- The branches of a logical operator are related to their queries. -/
lemma CompileRelation.branches (hR : CompileRelation L R) :
    ∀ (branches : Doc) {conds : List Cond},
      compileBranches L branches = .ok conds →
        List.Forall₂ R conds (branchQueries branches)
  | [], conds, h => by
    obtain rfl := Except.ok.inj h
    exact .nil
  | branch :: branches, conds, h => by
    simp only [compileBranches, except_bind_eq_ok, except_pure_eq_ok] at h
    obtain ⟨part, hpart, parts, hparts, rfl⟩ := h
    exact .cons (hR.branch branch hpart) (hR.branches branches hparts)
termination_by structural branches => branches

/-- A branch is related to its query. -/
lemma CompileRelation.branch (hR : CompileRelation L R) :
    ∀ (branch : Text × Value) {cond : Cond},
      compileBranch L branch = .ok cond → R cond (branchQuery branch)
  | (_, .document filter), cond, h => by
    simp only [compileBranch, except_bind_eq_ok, except_pure_eq_ok] at h
    obtain ⟨parts, hparts, rfl⟩ := h
    exact hR.fields (hR.fieldList filter hparts)
termination_by structural branch => branch

/-- The fields of a document are related to their queries. -/
lemma CompileRelation.fieldList (hR : CompileRelation L R) :
    ∀ (fields : Doc) {conds : List Cond},
      compileFields L fields = .ok conds →
        List.Forall₂ R conds (fieldQueries fields)
  | [], conds, h => by
    obtain rfl := Except.ok.inj h
    exact .nil
  | field :: fields, conds, h => by
    simp only [compileFields, except_bind_eq_ok, except_pure_eq_ok] at h
    obtain ⟨part, hpart, parts, hparts, rfl⟩ := h
    exact .cons (hR.field field hpart) (hR.fieldList fields hparts)
termination_by structural fields => fields

end

/-- **Induction over the compiler.**  Such a relation holds between the condition of every
accepted filter and its query. -/
theorem CompileRelation.document (hR : CompileRelation L R) {filter : Doc}
    (h : compileDocument L filter = .ok cond) : R cond (filterQuery filter) := by
  simp only [compileDocument, except_bind_eq_ok, except_pure_eq_ok] at h
  obtain ⟨parts, hparts, rfl⟩ := h
  exact hR.fields (hR.fieldList filter hparts)

end CompileRelation

/-! ## Agreement -/

/-- The document settles the filter: the filter can be said in SQL, and the document makes its
query true or makes it false. -/
def Decided (M : MariaDB) (L : Libbson) (filter : Doc) (doc : Json) : Prop :=
  (filterQuery filter).sayable = true ∧
    ((filterQuery filter).Forced M L doc true ∨ (filterQuery filter).Forced M L doc false)

/-- A condition agrees with a query: it is SQL when the query can be said, and it has the truth
values that the document forces. -/
structure Agrees (M : MariaDB) (L : Libbson) (doc : Json) (cond : Cond) (query : Query) :
    Prop where
  /-- The two are sayable together. -/
  sayable : cond.wellFormed = query.sayable
  /-- The two have the same truth values. -/
  value : ∀ b, cond.eval M doc = some b ↔ query.Forced M L doc b

section Agreement

variable {M : MariaDB} {L : Libbson} {doc : Json} {path : Path} {cond : Cond} {query : Query}

/-- A negation is forced when what it negates is forced to the opposite. -/
lemma Query.forced_neg {b : Bool} :
    (Query.neg query).Forced M L doc b ↔ query.Forced M L doc !b :=
  ⟨fun h => by cases h with | neg h => exact h, .neg⟩

/-- A test is forced by its own rule. -/
lemma Query.forced_test {t : Test} {b : Bool} :
    (Query.test path t).Forced M L doc b ↔ t.Forced M L doc path b :=
  ⟨fun h => by cases h with | test h => exact h, .test⟩

/-- Agreement carries over to negations. -/
lemma Agrees.not (h : Agrees M L doc cond query) : Agrees M L doc (.not cond) (.neg query) where
  sayable := by simp [Cond.wellFormed, Query.sayable, h.sayable]
  value b := by simp [Cond.eval, Query.forced_neg, h.value]

/-- Lists that agree part by part are sayable together. -/
lemma all_sayable_of_agrees {conds : List Cond} {queries : List Query}
    (h : List.Forall₂ (Agrees M L doc) conds queries) :
    conds.all Cond.wellFormed = queries.all Query.sayable ∧
      conds.isEmpty = queries.isEmpty := by
  induction h with
  | nil => simp
  | cons h _ ih => simp [h.sayable, ih.1]

/-- Some condition of a list has a value when some query is forced to it. -/
lemma mem_eval_of_agrees {conds : List Cond} {queries : List Query} {b : Bool}
    (h : List.Forall₂ (Agrees M L doc) conds queries) :
    some b ∈ conds.map (Cond.eval M doc) ↔ ∃ q ∈ queries, q.Forced M L doc b := by
  induction h with
  | nil => simp
  | cons h _ ih =>
    simp only [List.map_cons, List.mem_cons, exists_eq_or_imp, ih, ← h.value]
    exact or_congr_left eq_comm

/-- All conditions of a list have a value when all queries are forced to it. -/
lemma forall_eval_of_agrees {conds : List Cond} {queries : List Query} {b : Bool}
    (h : List.Forall₂ (Agrees M L doc) conds queries) :
    (∀ x ∈ conds.map (Cond.eval M doc), x = some b) ↔ ∀ q ∈ queries, q.Forced M L doc b := by
  induction h with
  | nil => simp
  | cons h _ ih => simp only [List.map_cons, List.forall_mem_cons, ih, h.value]

/-- Agreement carries over to conjunctions. -/
lemma Agrees.conj {conds : List Cond} {queries : List Query}
    (h : List.Forall₂ (Agrees M L doc) conds queries) :
    Agrees M L doc (conjoin .and conds) (.conj queries) where
  sayable := by
    obtain ⟨hall, hempty⟩ := all_sayable_of_agrees h
    simp [Query.sayable, hall, hempty]
  value b := by
    rw [eval_conjoin_and]
    cases b with
    | true =>
      rw [Kleene.conj_eq_true, forall_eval_of_agrees h]
      exact ⟨.conj_true, fun hf => by cases hf with | conj_true hf => exact hf⟩
    | false =>
      rw [Kleene.conj_eq_false, mem_eval_of_agrees h]
      refine ⟨fun ⟨q, hq, hf⟩ => .conj_false hq hf, fun hf => ?_⟩
      cases hf with
      | conj_false hq hf => exact ⟨_, hq, hf⟩

/-- Agreement carries over to disjunctions. -/
lemma Agrees.disj {conds : List Cond} {queries : List Query}
    (h : List.Forall₂ (Agrees M L doc) conds queries) :
    Agrees M L doc (conjoin .or conds) (.disj queries) where
  sayable := by
    obtain ⟨hall, hempty⟩ := all_sayable_of_agrees h
    simp [Query.sayable, hall, hempty]
  value b := by
    rw [eval_conjoin_or]
    cases b with
    | true =>
      rw [Kleene.disj_eq_true, mem_eval_of_agrees h]
      refine ⟨fun ⟨q, hq, hf⟩ => .disj_true hq hf, fun hf => ?_⟩
      cases hf with
      | disj_true hq hf => exact ⟨_, hq, hf⟩
    | false =>
      rw [Kleene.disj_eq_false, forall_eval_of_agrees h]
      exact ⟨.disj_false, fun hf => by cases hf with | disj_false hf => exact hf⟩

/-- Agreement carries over to the fields of a document. -/
lemma Agrees.fields {conds : List Cond} {queries : List Query}
    (h : List.Forall₂ (Agrees M L doc) conds queries) :
    Agrees M L doc (conjoinFields conds) (joinQueries queries) := by
  cases h with
  | nil =>
    refine ⟨rfl, fun b => ?_⟩
    cases b with
    | true => exact ⟨fun _ => .everything, fun _ => rfl⟩
    | false => exact ⟨fun h => by simp [conjoinFields, Cond.eval] at h, fun h => by cases h⟩
  | cons h hs => exact Agrees.conj (.cons h hs)

end Agreement

end Chimera

import Chimera.Translator.Query

/-!
# The compiler and the query language

The condition that the compiler makes of a filter agrees with the query of the filter: it can be
said in SQL exactly when the query can, and has a truth value on a document exactly when the rules
of `Query.Forced` settle the query as that value.  This is proved test by test, and then for every
filter by `CompileRelation`.
-/

namespace Chimera

variable {M : MariaDB} {L : Libbson} {doc : Json} {path : Path} {cond : Cond}

/-! ## Leaves -/

/-- A parameter is spelled when the value it binds is. -/
lemma bindValue_spelled {v : Value} {param : Param} (h : bindValue v = .ok param) :
    param.spelled = v.spelled := by
  cases v <;> simp [bindValue] at h <;> subst h <;> rfl

/-- A comparison is known when both sides are there. -/
lemma comparison_eq_some {x : Option SqlValue} {op : CompareOp} {param : Param} {b : Bool} :
    M.comparison x op param = some b ↔
      param ≠ .null ∧ ∃ y, x = some y ∧ M.compare y op param = b := by
  unfold MariaDB.comparison
  split <;> simp_all

/-- The rule for comparisons is their evaluation. -/
lemma comparesAs_iff {op : CompareOp} {v : Value} {param : Param} {b : Bool}
    (hp : bindValue v = .ok param) :
    M.comparison ((comparable path v).read M doc) op param = some b ↔
      ComparesAs M doc path op v b := by
  simp [comparison_eq_some, ComparesAs, hp]

/-- The rule for list members is their evaluation. -/
lemma listedAs_iff {v : Value} {param : Param} {b : Bool} (hp : bindValue v = .ok param) :
    M.comparison ((Operand.scalar path).read M doc) .eq param = some b ↔
      ListedAs M doc path v b := by
  simp [comparison_eq_some, ListedAs, hp, Operand.read]

/-- The rule for containment is its evaluation. -/
lemma containsAs_iff {candidate : Except TranslatorError Json} {literal : Json} {b : Bool}
    (hc : candidate = .ok literal) :
    (Cond.contains path literal).eval M doc = some b ↔ ContainsAs M doc path candidate b := by
  simp [Cond.eval, ContainsAs, hc]

/-- The rule for patterns is their evaluation. -/
lemma matchesAs_iff {pattern : Text} {b : Bool} :
    (Cond.regexp path pattern).eval M doc = some b ↔ MatchesAs M doc path pattern b := by
  simp [Cond.eval, MatchesAs, Option.bind_eq_some_iff]

/-- Equality with a value that is bound holds in either reading, and fails in both. -/
lemma equals_forced {v : Value} {param : Param} {b : Bool} (hp : bindValue v = .ok param)
    (hnull : v ≠ .null) :
    (Test.equals v).Forced M L doc path b ↔
      if b then ComparesAs M doc path .eq v true ∨ ContainsAs M doc path (canonicalLiteral L v) true
      else ComparesAs M doc path .eq v false ∧
        ContainsAs M doc path (canonicalLiteral L v) false := by
  have hregex : ∀ p o, v ≠ .regex p o := by
    rintro p o rfl
    cases hp
  cases b
  · rw [Test.Forced.eq_4]
    · rfl
    · exact hnull
    · exact hregex
  · rw [Test.Forced.eq_3]
    · rfl
    · exact hnull
    · exact hregex

/-- A comparison agrees with its test. -/
lemma compileCompare_agrees {op : CompareOp} {v : Value}
    (h : compileCompare path op v = .ok cond) :
    Agrees M L doc cond (.test path (.compares op v)) := by
  simp only [compileCompare, except_bind_eq_ok, except_pure_eq_ok] at h
  obtain ⟨param, hp, rfl⟩ := h
  refine ⟨bindValue_spelled hp, fun b => ?_⟩
  rw [Query.forced_test]
  exact comparesAs_iff hp

/-- Equality with a scalar agrees with its test. -/
lemma compileEq_scalar_agrees {v : Value} {param : Param} {literal : Json}
    (hp : bindValue v = .ok param) (hl : canonicalLiteral L v = .ok literal) (hnull : v ≠ .null) :
    Agrees M L doc
      (.junction .or [.compare (comparable path v) .eq param, .contains path literal])
      (.test path (.equals v)) where
  sayable := by
    simp [Cond.wellFormed, Query.sayable, Test.sayable, bindValue_spelled hp]
  value b := by
    rw [Query.forced_test, equals_forced hp hnull, ← comparesAs_iff hp, ← comparesAs_iff hp,
      ← containsAs_iff hl, ← containsAs_iff hl]
    cases b with
    | true => exact Kleene.disj_pair_eq_true
    | false => exact Kleene.disj_pair_eq_false

/-- Equality agrees with its test. -/
lemma compileEq_agrees {v : Value} (h : compileEq L path v = .ok cond) :
    Agrees M L doc cond (.test path (.equals v)) := by
  unfold compileEq at h
  split at h
  · obtain rfl := Except.ok.inj h
    exact ⟨rfl, fun b => by rw [Query.forced_test]; exact Option.some_inj⟩
  · obtain rfl := Except.ok.inj h
    exact ⟨rfl, fun b => by rw [Query.forced_test]; exact matchesAs_iff⟩
  · cases h
  · cases h
  · rename_i hnull _ _ _
    simp only [except_bind_eq_ok, except_pure_eq_ok] at h
    obtain ⟨param, hp, literal, hl, rfl⟩ := h
    exact compileEq_scalar_agrees hp hl hnull

/-- The parameters of a list are spelled when its members are. -/
lemma all_spelled_of_bound {vs : List Value} {params : List Param}
    (h : List.Forall₂ (fun v param => bindValue v = .ok param) vs params) :
    params.all Param.spelled = vs.all Value.spelled := by
  induction h with
  | nil => rfl
  | cons hp _ ih => simp [bindValue_spelled hp, ih]

/-- Some parameter of a list is found when some member is listed. -/
lemma mem_listed_iff {vs : List Value} {params : List Param}
    (h : List.Forall₂ (fun v param => bindValue v = .ok param) vs params) :
    some true ∈ params.map (M.comparison ((Operand.scalar path).read M doc) .eq) ↔
      ∃ v ∈ vs, ListedAs M doc path v true := by
  simp only [List.mem_map]
  induction h with
  | nil => simp
  | cons hp _ ih =>
    simp only [List.mem_cons, exists_eq_or_imp, ih]
    rw [listedAs_iff hp]

/-- No parameter of a list is found when no member is listed. -/
lemma forall_listed_iff {vs : List Value} {params : List Param}
    (h : List.Forall₂ (fun v param => bindValue v = .ok param) vs params) :
    (∀ x ∈ params.map (M.comparison ((Operand.scalar path).read M doc) .eq), x = some false) ↔
      ∀ v ∈ vs, ListedAs M doc path v false := by
  simp only [List.forall_mem_map]
  induction h with
  | nil => simp
  | cons hp _ ih =>
    simp only [List.forall_mem_cons, ih]
    rw [listedAs_iff hp]

/-- The truth value of a list test. -/
lemma inList_eq_some {vs : List Value} {params : List Param} {negated b : Bool}
    (h : List.Forall₂ (fun v param => bindValue v = .ok param) vs params) :
    (Cond.inList path negated params).eval M doc = some b ↔
      (Test.oneOf negated vs).Forced M L doc path b := by
  have hfound (b : Bool) :
      Kleene.disj (params.map (M.comparison ((Operand.scalar path).read M doc) .eq)) = some b ↔
        if b then ∃ v ∈ vs, ListedAs M doc path v true
        else ∀ v ∈ vs, ListedAs M doc path v false := by
    cases b with
    | true => rw [Kleene.disj_eq_true, mem_listed_iff h, if_pos rfl]
    | false => rw [Kleene.disj_eq_false, forall_listed_iff h, if_neg Bool.false_ne_true]
  simp only [Cond.eval, Test.Forced]
  cases negated with
  | true =>
    rw [if_pos rfl, Kleene.not_eq_some, hfound]
    cases b <;> rfl
  | false =>
    rw [if_neg Bool.false_ne_true, hfound]
    cases b <;> rfl

/-- A list test agrees with its query. -/
lemma compileIn_agrees {v : Value} {negated : Bool} (h : compileIn path v negated = .ok cond) :
    Agrees M L doc cond (.test path (.oneOf negated v.members)) := by
  obtain ⟨hv, rfl⟩ | ⟨params, -, hps, rfl⟩ := compileIn_cases h
  · rw [hv]
    cases negated with
    | true => exact ⟨rfl, fun b => by cases b <;> simp [Cond.eval, Query.forced_test, Test.Forced]⟩
    | false => exact ⟨rfl, fun b => by cases b <;> simp [Cond.eval, Query.forced_test, Test.Forced]⟩
  · exact ⟨all_spelled_of_bound hps, fun b => by rw [Query.forced_test]; exact inList_eq_some hps⟩

/-- A presence test agrees with its query. -/
lemma jsonExists_agrees {wanted : Bool} :
    Agrees M L doc (.jsonExists path !wanted) (.test path (.present wanted)) := by
  refine ⟨rfl, fun b => ?_⟩
  simp only [Cond.eval, Query.forced_test, Test.Forced, Option.some.injEq]
  cases (jsonAt doc path).isSome <;> cases wanted <;> rfl

/-- A containment test agrees with its query. -/
lemma compileElemMatch_agrees {v : Value} (h : compileElemMatch L path v = .ok cond) :
    Agrees M L doc cond (.test path (.holds (v.subdocument.getD []))) := by
  cases v with
  | document fields =>
    simp only [compileElemMatch] at h
    split at h
    · cases h
    · simp only [except_bind_eq_ok, except_pure_eq_ok] at h
      obtain ⟨json, hj, rfl⟩ := h
      exact ⟨rfl, fun b => by rw [Query.forced_test]; exact containsAs_iff hj⟩
  | _ => simp [compileElemMatch] at h

/-- `$regex` agrees with its query. -/
lemma compileRegex_agrees {v : Value} (h : compileRegex path v = .ok cond) :
    Agrees M L doc cond (regexQuery path v) := by
  have regexp_agrees (pattern : Text) :
      Agrees M L doc (.regexp path pattern) (.test path (.matches pattern)) :=
    ⟨rfl, fun b => by rw [Query.forced_test]; exact matchesAs_iff⟩
  unfold compileRegex at h
  split at h
  · obtain rfl := Except.ok.inj h
    exact regexp_agrees _
  · obtain rfl := Except.ok.inj h
    exact regexp_agrees _
  · cases h

/-- Agreement holds for every case of the compiler. -/
lemma agrees_compileRelation (M : MariaDB) (L : Libbson) (doc : Json) :
    CompileRelation L (Agrees M L doc) where
  eq := compileEq_agrees
  compare := compileCompare_agrees
  inList := compileIn_agrees
  presence := jsonExists_agrees
  regex := compileRegex_agrees
  elemMatch := compileElemMatch_agrees
  not := Agrees.not
  conj := Agrees.conj
  disj := Agrees.disj
  fields := Agrees.fields

/-- **The compiler agrees with the query language.**  The condition of an accepted filter is SQL
exactly when the query can be said, and is true or false of a document exactly when the document
forces the query to be. -/
theorem compileDocument_agrees {filter : Doc} (h : compileDocument L filter = .ok cond) :
    Agrees M L doc cond (filterQuery filter) :=
  (agrees_compileRelation M L doc).document h

end Chimera

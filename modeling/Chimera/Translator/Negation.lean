import Chimera.Translator.Meaning

/-!
# Negation and complement

`NOT`, `NOT IN` and `$nor` compile to the negation of three-valued logic.  A negated filter
selects exactly the documents that the filter drops when the document settles the filter, and
only then: a missing path, a container where a scalar is compared, or a comparison with null
leaves the filter unknown, and both it and its negation drop the document.  This is about filters
whose names get into the SQL as they are.
-/

namespace Chimera

variable {M : MariaDB} {L : Libbson} {doc : Json} {path : Path} {cond : Cond}

/-! ## Negated filters -/

/-- The condition of a filter of one field is the condition of the field. -/
lemma compileDocument_singleton (field : Text × Value) :
    compileDocument L [field] = compileField L field := by
  simp only [compileDocument, compileFields]
  cases compileField L field <;> rfl

/-- A name without a dollar sign in front is a path. -/
lemma compileField_of_path {key : Text} {v : Value} (hkey : isOperatorName key = false) :
    compileField L (key, v) = compilePath L key v := by
  have hne (op : String) (hop : isOperatorName op.toList = true) : key ≠ op.toList := by
    rintro rfl
    simp [hop] at hkey
  unfold compileField
  rw [if_neg (hne "$and" rfl), if_neg (hne "$or" rfl), if_neg (hne "$nor" rfl)]

/-- A path that splits compiles the operators on it, or equality. -/
lemma compilePath_of_split {key : Text} (hkey : isOperatorName key = false)
    (hpath : splitPath key = .ok path) (v : Value) :
    compilePath L key v =
      match operatorDocument v with
      | some ops => return conjoin .and (← compileOperators L path ops)
      | none => compileEq L path v := by
  unfold compilePath
  rw [hkey, if_neg Bool.false_ne_true, hpath]
  rfl

/-- A logical operator takes an array. -/
lemma compileLogical_document (joiner : Joiner) (fields : Doc) :
    compileLogical L joiner (.document fields) ≠ .ok cond := nofun

/-- A field that holds an operator is a path, with the operator's condition. -/
lemma compileField_operator {key op : Text} {v : Value} (hop : isOperatorName op = true)
    (h : compileField L (key, .document [(op, v)]) = .ok cond) :
    isOperatorName key = false ∧
      ∃ path, splitPath key = .ok path ∧ compileOperator L path (op, v) = .ok cond := by
  have hkey : isOperatorName key = false := by
    by_contra hkey
    rw [Bool.not_eq_false] at hkey
    unfold compileField at h
    split_ifs at h
    · exact compileLogical_document _ _ h
    · exact compileLogical_document _ _ h
    · obtain ⟨_, h, _⟩ := except_bind_eq_ok.1 h
      exact compileLogical_document _ _ h
    · rw [compilePath, if_pos hkey] at h
      cases h
  rw [compileField_of_path hkey] at h
  have hsplit : ∃ path, splitPath key = .ok path := by
    rw [compilePath, if_neg (by simp [hkey]), except_bind_eq_ok] at h
    exact h.imp fun _ => And.left
  obtain ⟨path, hpath⟩ := hsplit
  rw [compilePath_of_split hkey hpath, operatorDocument, if_pos hop] at h
  simp only [compileOperators, except_bind_eq_ok, except_pure_eq_ok] at h
  obtain ⟨parts, ⟨part, hpart, rest, hrest, rfl⟩, rfl⟩ := h
  obtain rfl := Except.ok.inj hrest
  exact ⟨hkey, path, hpath, hpart⟩

/-- A field that holds a value compiles to equality. -/
lemma compileField_of_eq {key : Text} {v : Value} (hkey : isOperatorName key = false)
    (hpath : splitPath key = .ok path) (h : compileEq L path v = .ok cond) :
    compileField L (key, v) = .ok cond := by
  have hv : operatorDocument v = none := by
    cases v with
    | document ops => cases h
    | _ => rfl
  rw [compileField_of_path hkey, compilePath_of_split hkey hpath, hv]
  exact h

/-- `$nor` of one filter compiles to the negation of its condition. -/
lemma compileDocument_nor {f : Doc} (h : compileDocument L f = .ok cond) :
    compileDocument L [("$nor".toList, .array (makeArray [.document f]))] = .ok (.not cond) := by
  simp only [compileDocument, except_bind_eq_ok, except_pure_eq_ok] at h
  obtain ⟨parts, hparts, rfl⟩ := h
  rw [compileDocument_singleton]
  unfold compileField
  rw [if_neg (by decide), if_neg (by decide), if_pos rfl]
  simp [makeArray, compileLogical, compileBranches, compileBranch, hparts, conjoin, bind,
    Except.bind, pure, Except.pure]

/-- A field with one operator compiles to the operator's condition. -/
lemma compileDocument_operator {key op : Text} {v : Value} (hkey : isOperatorName key = false)
    (hpath : splitPath key = .ok path) (hop : isOperatorName op = true)
    (h : compileOperator L path (op, v) = .ok cond) :
    compileDocument L [(key, .document [(op, v)])] = .ok cond := by
  rw [compileDocument_singleton, compileField_of_path hkey, compilePath_of_split hkey hpath,
    operatorDocument, if_pos hop]
  simp only [compileOperators, h]
  rfl

/-- `$nin` compiles where `$in` does, to a condition that negates it. -/
lemma compileIn_negated {v : Value} (h : compileIn path v false = .ok cond) :
    ∃ negated, compileIn path v true = .ok negated ∧ negated.paths = cond.paths ∧
      negated.wellFormed = cond.wellFormed ∧
      negated.eval M doc = Kleene.not (cond.eval M doc) := by
  simp only [compileIn, except_bind_eq_ok] at h ⊢
  obtain ⟨members, hm, h⟩ := h
  split at h
  · obtain rfl := Except.ok.inj h
    exact ⟨.one, ⟨members, hm, by rw [if_pos ‹_›]; rfl⟩, rfl, rfl, rfl⟩
  · obtain ⟨params, hparams, h⟩ := except_bind_eq_ok.1 h
    obtain rfl := Except.ok.inj h
    refine ⟨.inList path true params, ⟨members, hm, ?_⟩, rfl, rfl, rfl⟩
    rw [if_neg ‹_›, hparams]
    rfl

/-- What `$in` compiles to, on a path. -/
lemma compileOperator_in (path : Path) (l : Value) :
    compileOperator L path ("$in".toList, l) = compileIn path l false := by
  unfold compileOperator
  iterate 6 rw [if_neg (by decide)]
  rw [if_pos rfl]

/-- What `$nin` compiles to, on a path. -/
lemma compileOperator_nin (path : Path) (l : Value) :
    compileOperator L path ("$nin".toList, l) = compileIn path l true := by
  unfold compileOperator
  iterate 7 rw [if_neg (by decide)]
  rw [if_pos rfl]

/-- `$ne` compiles to the negation of the condition of the value. -/
lemma compileDocument_ne {key : Text} {v : Value}
    (h : Accepted L [(key, .document [("$ne".toList, v)])]) :
    ∃ cond, compileDocument L [(key, v)] = .ok cond ∧
      compileDocument L [(key, .document [("$ne".toList, v)])] = .ok (.not cond) := by
  obtain ⟨negated, h⟩ := h
  rw [compileDocument_singleton] at h
  obtain ⟨hkey, path, hpath, hop⟩ := compileField_operator rfl h
  unfold compileOperator at hop
  rw [if_neg (by decide), if_pos rfl] at hop
  simp only [except_bind_eq_ok, except_pure_eq_ok] at hop
  obtain ⟨cond, hcond, rfl⟩ := hop
  exact ⟨cond, by rw [compileDocument_singleton]; exact compileField_of_eq hkey hpath hcond,
    by rw [compileDocument_singleton]; exact h⟩

/-- `$nin` compiles to a condition that negates that of `$in`. -/
lemma compileDocument_nin {key : Text} {l : Value}
    (h : Accepted L [(key, .document [("$in".toList, l)])]) :
    ∃ cond negated, compileDocument L [(key, .document [("$in".toList, l)])] = .ok cond ∧
      compileDocument L [(key, .document [("$nin".toList, l)])] = .ok negated ∧
      negated.paths = cond.paths ∧ negated.wellFormed = cond.wellFormed ∧
      negated.eval M doc = Kleene.not (cond.eval M doc) := by
  obtain ⟨cond, h⟩ := h
  have hin := h
  rw [compileDocument_singleton] at hin
  obtain ⟨hkey, path, hpath, hop⟩ := compileField_operator rfl hin
  rw [compileOperator_in] at hop
  obtain ⟨negated, hnegated, hpaths, hwf, heval⟩ := @compileIn_negated M doc _ _ _ hop
  have hnin : compileOperator L path ("$nin".toList, l) = .ok negated := by
    rw [compileOperator_nin, hnegated]
  exact ⟨cond, negated, h, compileDocument_operator hkey hpath rfl hnin, hpaths, hwf, heval⟩

/-- `$not` compiles to the negation of the operators it holds. -/
lemma compileDocument_not {key : Text} {o : Value} (ho : Accepted L [(key, o)])
    (h : Accepted L [(key, .document [("$not".toList, o)])]) :
    ∃ cond, compileDocument L [(key, o)] = .ok cond ∧
      compileDocument L [(key, .document [("$not".toList, o)])] = .ok (.not cond) := by
  obtain ⟨negated, h⟩ := h
  rw [compileDocument_singleton] at h
  obtain ⟨hkey, path, hpath, hop⟩ := compileField_operator rfl h
  unfold compileOperator at hop
  iterate 10 rw [if_neg (by decide)] at hop
  rw [if_pos rfl] at hop
  obtain ⟨cond, ho⟩ := ho
  refine ⟨cond, ho, ?_⟩
  rw [compileDocument_singleton, compileField_of_path hkey, compilePath_of_split hkey hpath]
    at ho
  cases o with
  | document ops =>
    simp only [compileNot, except_bind_eq_ok, except_pure_eq_ok] at hop
    obtain ⟨parts, hparts, rfl⟩ := hop
    split at ho
    · rename_i ops' hops
      obtain rfl : ops' = ops := by
        cases ops with
        | nil => cases hops
        | cons field fields =>
          simp only [operatorDocument] at hops
          split at hops
          · exact (Option.some.inj hops).symm
          · cases hops
      simp only [hparts, except_bind_eq_ok, except_pure_eq_ok, Except.ok.injEq,
        exists_eq_left'] at ho
      rw [compileDocument_singleton, h, ho]
    · cases ho
  | _ => cases hop

/-- The documents that one filter selects are those that the other drops. -/
def Complementary (M : MariaDB) (L : Libbson) (doc : Json) (f g : Doc) : Prop :=
  Selects M L g doc ↔ ¬ Selects M L f doc

/-- A filter whose condition negates another's is its complement where the other is decided. -/
lemma complementary_iff {f g : Doc} {negated : Cond} (hf : compileDocument L f = .ok cond)
    (hg : compileDocument L g = .ok negated) (hplain : PlainNames f)
    (hpaths : negated.paths = cond.paths) (hwf : negated.wellFormed = cond.wellFormed)
    (heval : negated.eval M doc = Kleene.not (cond.eval M doc)) :
    Complementary M L doc f g ↔ Decided M L f doc := by
  have hagrees : Agrees M L doc cond (filterQuery f) := compileDocument_agrees hf
  have hclean := hplain.clean hf
  have hselects : Selects M L f doc ↔ cond.wellFormed = true ∧ cond.eval M doc = some true :=
    selects_iff_of_clean hf hclean
  have hnegated : Selects M L g doc ↔
      cond.wellFormed = true ∧ Kleene.not (cond.eval M doc) = some true := by
    rw [← hwf, ← heval]
    exact selects_iff_of_clean hg fun path hpath => hclean path (hpaths ▸ hpath)
  simp only [Decided, ← hagrees.sayable, ← hagrees.value, ← Kleene.complement_iff]
  rw [Complementary, hselects, hnegated]
  by_cases hw : cond.wellFormed = true <;> simp [hw]

/-- A document settles a filter whose condition it gives a truth value. -/
lemma decided_of_eval {f : Doc} {b : Bool} (hf : compileDocument L f = .ok cond)
    (hwf : cond.wellFormed = true) (heval : cond.eval M doc = some b) : Decided M L f doc := by
  have hagrees : Agrees M L doc cond (filterQuery f) := compileDocument_agrees hf
  refine ⟨hagrees.sayable ▸ hwf, ?_⟩
  cases b with
  | true => exact .inl ((hagrees.value true).1 heval)
  | false => exact .inr ((hagrees.value false).1 heval)

/-- **Negation and complement.**  For filters of plain names, a negated filter selects exactly the
documents that the filter drops if and only if the document settles the filter: `$nor`, `$ne`,
`$nin` and `$not` alike. -/
theorem negation_complementary_iff (M : MariaDB) (L : Libbson) (doc : Json) :
    (∀ f, Accepted L f → PlainNames f →
      (Complementary M L doc f [("$nor".toList, .array (makeArray [.document f]))] ↔
        Decided M L f doc)) ∧
    (∀ k v, Accepted L [(k, .document [("$ne".toList, v)])] → PlainNames [(k, v)] →
      (Complementary M L doc [(k, v)] [(k, .document [("$ne".toList, v)])] ↔
        Decided M L [(k, v)] doc)) ∧
    (∀ k l, Accepted L [(k, .document [("$in".toList, l)])] →
      PlainNames [(k, .document [("$in".toList, l)])] →
      (Complementary M L doc [(k, .document [("$in".toList, l)])]
          [(k, .document [("$nin".toList, l)])] ↔
        Decided M L [(k, .document [("$in".toList, l)])] doc)) ∧
    (∀ k o, Accepted L [(k, o)] → Accepted L [(k, .document [("$not".toList, o)])] →
      PlainNames [(k, o)] →
      (Complementary M L doc [(k, o)] [(k, .document [("$not".toList, o)])] ↔
        Decided M L [(k, o)] doc)) := by
  refine ⟨fun f hf hplain => ?_, fun k v h hplain => ?_, fun k l h hplain => ?_,
    fun k o ho h hplain => ?_⟩
  · obtain ⟨cond, hf⟩ := hf
    exact complementary_iff hf (compileDocument_nor hf) hplain rfl rfl rfl
  · obtain ⟨cond, hf, hg⟩ := compileDocument_ne h
    exact complementary_iff hf hg hplain rfl rfl rfl
  · obtain ⟨cond, negated, hf, hg, hpaths, hwf, heval⟩ := @compileDocument_nin M L doc _ _ h
    exact complementary_iff hf hg hplain hpaths hwf heval
  · obtain ⟨cond, hf, hg⟩ := compileDocument_not ho h
    exact complementary_iff hf hg hplain rfl rfl rfl

/-- Where a document holds the string that is compared, every negated filter is a complement. -/
theorem negation_complementary_iff_present :
    let k := "a".toList
    let v : Value := .utf8 "x".toList
    let doc : Json := .obj [("_id".toList, .str "d".toList), (k, .str "x".toList)]
    let complementary := Complementary .ofStrings .ofStrings doc
    complementary [(k, v)] [("$nor".toList, .array (makeArray [.document [(k, v)]]))] ∧
      complementary [(k, v)] [(k, .document [("$ne".toList, v)])] ∧
      complementary [(k, .document [("$in".toList, .array (makeArray [v]))])]
        [(k, .document [("$nin".toList, .array (makeArray [v]))])] ∧
      complementary [(k, .document [("$eq".toList, v)])]
        [(k, .document [("$not".toList, .document [("$eq".toList, v)])])] := by
  intro k v doc complementary
  obtain ⟨hnor, hne, hnin, hnot⟩ := negation_complementary_iff .ofStrings .ofStrings doc
  refine ⟨(hnor _ ⟨_, rfl⟩ (by decide)).2 ?_, (hne k v ⟨_, rfl⟩ (by decide)).2 ?_,
    (hnin k _ ⟨_, rfl⟩ (by decide)).2 ?_, (hnot k _ ⟨_, rfl⟩ ⟨_, rfl⟩ (by decide)).2 ?_⟩
  · exact decided_of_eval rfl rfl rfl
  · exact decided_of_eval rfl rfl rfl
  · exact decided_of_eval rfl rfl rfl
  · exact decided_of_eval rfl rfl rfl

/-- A document without the field is dropped by the filter and by its negation. -/
theorem negation_drops_missing_field :
    ¬ Complementary .ofStrings .ofStrings (.obj [("_id".toList, .str "d".toList)])
      [("a".toList, .utf8 "x".toList)]
      [("a".toList, .document [("$ne".toList, .utf8 "x".toList)])] := by
  rw [Complementary, selects_iff_selected (by decide), selects_iff_selected (by decide)]
  intro h
  have hne : ¬ Selected .ofStrings .ofStrings
      [("a".toList, .document [("$ne".toList, .utf8 "x".toList)])]
      (.obj [("_id".toList, .str "d".toList)]) := by
    rintro ⟨cond, hcond, -, heval⟩
    obtain rfl := Except.ok.inj hcond
    exact absurd heval (by decide)
  refine hne (h.2 ?_)
  rintro ⟨cond, hcond, -, heval⟩
  obtain rfl := Except.ok.inj hcond
  exact absurd heval (by decide)

end Chimera

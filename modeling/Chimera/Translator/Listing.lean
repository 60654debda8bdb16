import Chimera.Translator.Equality

/-!
# Lists and disjunctions

`{p: {$in: L}}` compares the text at the path with each member of the list, and
`{$or: [{p: l}, …]}` asks for equality with each.  The two agree where a text is read and the
members are of the types that equality compares as the list does.  They part over null, which no
list finds, over timestamps, which a list compares as numbers, and over arrays and other values
that no text is read of, in which equality looks for the spelling of a member.
-/

namespace Chimera

/-- How the server compares a text with a bound number: as numbers. -/
structure MariaDB.ListsNumbers (M : MariaDB) : Prop where
  /-- With an integer. -/
  compare_text_int : ∀ s n,
    M.compare (.text s) .eq (.int n) = (M.castDouble s).numEq (Binary64.ofInt n.toInt)
  /-- With a double. -/
  compare_text_double : ∀ s, ∀ d : Binary64, d.isFinite = true →
    M.compare (.text s) .eq (.double d) = (M.castDouble s).numEq d

/-- The members of a list can be written, apart from null, which equality does not write.  A text
that is not UTF-8 cannot. -/
def Libbson.WritesMembers (L : Libbson) (vs : List Value) : Prop :=
  ∀ v ∈ vs, v ≠ .null → ∃ json, L.toExtjson [("v".toList, v)] = .ok json

/-- The value is a timestamp. -/
def Value.isTimestamp : Value → Bool
  | .timestamp _ _ => true
  | _ => false

/-- The number that a member of a list is compared as: that of equality, and the ordinal of a
timestamp. -/
def Value.listedNumber : Value → Option Binary64
  | .timestamp t i => some (Binary64.ofInt (timestampOrdinal t i).toInt)
  | v => v.comparedNumber

/-- The text is equal to the member of a list: it has the number or the text of the member. -/
def MariaDB.Lists (M : MariaDB) (s : Text) (v : Value) : Prop :=
  (∃ b, v.listedNumber = some b ∧ (M.castDouble s).numEq b = true) ∨
    ∃ t, v.comparedText = some t ∧ M.compare (.text s) .eq (.text t) = true

/-- Equality finds the member without comparing a text: what is stored at the path contains its
spelling, or is a timestamp of its ordinal. -/
def MariaDB.FindsStored (M : MariaDB) (S : Spelling) (stored : Json) (path : Path) (v : Value) :
    Prop :=
  v ≠ .null ∧ ((∃ inner, jsonAt stored path = some inner ∧
      (S.write v).containedIn inner = true) ∨
    ∃ t i o, v = .timestamp t i ∧ M.ordinalAt stored path = some o ∧
      (o : ℤ) = (timestampOrdinal t i).toInt)

/-- A list and a disjunction agree about what is stored at a path.

Where no text is read, equality finds no member either, and the members are not all timestamps
other than one that is stored.  Where a text is read, it equals a member other than a timestamp; or
it equals a timestamp as a number, and equality finds a member all the same; or neither finds a
member, and null is among them exactly when a timestamp is that nothing stored compares with. -/
def MariaDB.ListsAlike (M : MariaDB) (S : Spelling) (stored : Json) (path : Path)
    (vs : List Value) : Prop :=
  match M.scalarExpr stored path with
  | none => .null ∉ vs ∧ (∀ v ∈ vs, ¬ M.FindsStored S stored path v) ∧
      ¬ ((∀ v ∈ vs, v.isTimestamp = true) ∧ (M.ordinalAt stored path).isSome = true)
  | some s => (∃ v ∈ vs, v.isTimestamp = false ∧ M.Lists s v) ∨
      ((∃ v ∈ vs, M.Lists s v) ∧ ∃ v ∈ vs, M.FindsStored S stored path v) ∨
      ((∀ v ∈ vs, ¬ M.Lists s v) ∧ (∀ v ∈ vs, ¬ M.FindsStored S stored path v) ∧
        (.null ∈ vs ↔ (∃ v ∈ vs, v.isTimestamp = true) ∧ M.ordinalAt stored path = none))

/-- Neither a list nor its negation selects what is stored at a path: no text is read there, or
null is a member and the text equals none. -/
def MariaDB.ListsNothing (M : MariaDB) (stored : Json) (path : Path) (vs : List Value) : Prop :=
  ∀ s, M.scalarExpr stored path = some s → .null ∈ vs ∧ ∀ v ∈ vs, ¬ M.Lists s v

/-- The disjunction of the equalities with the values, under a logical operator. -/
def equalities (op : String) (key : Text) (vs : List Value) : Doc :=
  [(op.toList, .array (makeArray (vs.map fun v => .document [(key, v)])))]

section Lists

variable {M : MariaDB} {S : Spelling} {L : Libbson} {stored : Json} {key : Text} {path : Path}
  {v : Value} {vs : List Value}

/-! ## One member -/

/-- How a member of a list is compared with a text. -/
lemma compare_listed (hM : M.Documented S) (hN : M.ListsNumbers) {param : Param}
    (hspelled : v.spelled = true) (hp : bindValue v = .ok param) (hnull : param ≠ .null)
    (s : Text) :
    M.compare (.text s) .eq param = true ↔ M.Lists s v := by
  unfold MariaDB.Lists
  cases v with
  | null => exact absurd (Except.ok.inj hp).symm hnull
  | bool b =>
    obtain rfl := Except.ok.inj hp
    rw [hM.compare_bool]
    simp [Value.listedNumber, Value.comparedNumber, Value.comparedText]
  | int32 n =>
    obtain rfl := Except.ok.inj hp
    rw [hN.compare_text_int, Int32.toInt_toInt64]
    simp [Value.listedNumber, Value.comparedNumber, Value.comparedText]
  | int64 n =>
    obtain rfl := Except.ok.inj hp
    rw [hN.compare_text_int]
    simp [Value.listedNumber, Value.comparedNumber, Value.comparedText]
  | dateTime n =>
    obtain rfl := Except.ok.inj hp
    rw [hN.compare_text_int]
    simp [Value.listedNumber, Value.comparedNumber, Value.comparedText]
  | timestamp t i =>
    obtain rfl := Except.ok.inj hp
    rw [hN.compare_text_int]
    simp [Value.listedNumber, Value.comparedText]
  | double d =>
    obtain rfl := Except.ok.inj hp
    rw [hN.compare_text_double s d hspelled]
    simp [Value.listedNumber, Value.comparedNumber, Value.comparedText]
  | utf8 t =>
    obtain rfl := Except.ok.inj hp
    simp [Value.listedNumber, Value.comparedNumber, Value.comparedText]
  | oid bytes =>
    obtain rfl := Except.ok.inj hp
    simp [Value.listedNumber, Value.comparedNumber, Value.comparedText]
  | _ => cases hp

/-- Null is bound to null, and nothing else is. -/
lemma bindValue_null_iff {param : Param} (hp : bindValue v = .ok param) :
    param = .null ↔ v = .null := by
  cases v <;> cases hp <;> simp

/-- When a member of a list is found or missed. -/
lemma listedAs_iff_lists (hM : M.Documented S) (hN : M.ListsNumbers) {param : Param}
    (hspelled : v.spelled = true) (hp : bindValue v = .ok param) (b : Bool) :
    ListedAs M stored path v b ↔
      v ≠ .null ∧ ∃ s, M.scalarExpr stored path = some s ∧ (M.Lists s v ↔ b = true) := by
  have hnull := bindValue_null_iff hp
  constructor
  · rintro ⟨param', s, hp', hne, hread, hcompare⟩
    obtain rfl := Except.ok.inj (hp.symm.trans hp')
    refine ⟨mt hnull.2 hne, s, hread, ?_⟩
    rw [← compare_listed hM hN hspelled hp hne, hcompare]
  · rintro ⟨hne, s, hread, hiff⟩
    refine ⟨param, s, hp, mt hnull.1 hne, hread, ?_⟩
    rw [Bool.eq_iff_iff, compare_listed hM hN hspelled hp (mt hnull.1 hne), hiff]

/-- A value other than a timestamp is compared as a member of a list is. -/
lemma comparesAs_iff_listedAs (hM : M.Documented S) (hN : M.ListsNumbers)
    (hspelled : v.spelled = true) (ht : v.isTimestamp = false) (b : Bool) :
    ComparesAs M stored path .eq v b ↔ ListedAs M stored path v b := by
  unfold ComparesAs ListedAs
  cases v with
  | timestamp t i => cases ht
  | int32 n =>
    simp [bindValue, comparable, Operand.read, hM.compare_int, hM.castDouble_finite,
      hN.compare_text_int]
  | int64 n =>
    simp [bindValue, comparable, Operand.read, hM.compare_int, hM.castDouble_finite,
      hN.compare_text_int]
  | dateTime n =>
    simp [bindValue, comparable, Operand.read, hM.compare_int, hM.castDouble_finite,
      hN.compare_text_int]
  | double d =>
    have hfinite : d.isFinite = true := hspelled
    simp [bindValue, comparable, Operand.read, hM.compare_double, hM.castDouble_finite,
      hN.compare_text_double, hfinite]
  | _ => simp [bindValue, comparable, Operand.read]

/-- Null equals no text. -/
lemma not_lists_null (s : Text) : ¬ M.Lists s .null := by
  rintro (⟨b, hb, -⟩ | ⟨t, ht, -⟩)
  · cases hb
  · cases ht

/-- Where a text or an ordinal is read, something is stored. -/
lemma exists_jsonAt_of_read (h : M.scalarExpr stored path ≠ none ∨ M.ordinalAt stored path ≠ none) :
    ∃ inner, jsonAt stored path = some inner := by
  refine Option.ne_none_iff_exists'.1 fun hnone => ?_
  rcases h with htext | hordinal
  · refine htext ?_
    rw [M.scalarExpr_at, hnone]
    rfl
  · refine hordinal ?_
    rw [MariaDB.ordinalAt, M.jsonValue_append, hnone]
    rfl

/-- The search for a member that is written is a search for its spelling. -/
lemma containsAs_iff_containedIn (hM : M.Documented S) (hL : L.Spells S)
    (hwrites : ∃ json, L.toExtjson [("v".toList, v)] = .ok json) (b : Bool) :
    ContainsAs M stored path (canonicalLiteral L v) b ↔
      ∃ inner, jsonAt stored path = some inner ∧ (S.write v).containedIn inner = b := by
  obtain ⟨json, hjson⟩ := hwrites
  obtain rfl := hL _ _ hjson
  have hliteral : canonicalLiteral L v = .ok (S.write v) := by
    rw [canonicalLiteral, hjson]
    rfl
  simp [ContainsAs, hliteral, hM.contains]

/-- When equality finds a bound member. -/
lemma equals_forced_true (hM : M.Documented S) (hN : M.ListsNumbers) (hL : L.Spells S)
    (hW : L.WritesMembers vs) (hv : v ∈ vs) (hspelled : v.spelled = true) {param : Param}
    (hp : bindValue v = .ok param) :
    (Test.equals v).Forced M L stored path true ↔
      M.FindsStored S stored path v ∨ (v.isTimestamp = false ∧
        ((v = .null ∧ M.scalarExpr stored path = none) ∨
          ∃ s, M.scalarExpr stored path = some s ∧ M.Lists s v)) := by
  by_cases hnull : v = .null
  · subst hnull
    have hforced : (Test.equals .null).Forced M L stored path true ↔
        M.scalarExpr stored path = none := Option.isNone_iff_eq_none
    rw [hforced]
    simp [MariaDB.FindsStored, Value.isTimestamp, not_lists_null]
  have hcontains : ContainsAs M stored path (canonicalLiteral L v) true ↔
      ∃ inner, jsonAt stored path = some inner ∧ (S.write v).containedIn inner = true :=
    containsAs_iff_containedIn hM hL (hW v hv hnull) true
  rw [equals_forced hp hnull, if_pos rfl, hcontains]
  cases htime : v.isTimestamp with
  | false =>
    have hnot : ∀ t i o, ¬ (v = .timestamp t i ∧ M.ordinalAt stored path = some o ∧
        (o : ℤ) = (timestampOrdinal t i).toInt) := by
      rintro t i o ⟨rfl, -⟩
      cases htime
    rw [comparesAs_iff_listedAs hM hN hspelled htime, listedAs_iff_lists hM hN hspelled hp,
      MariaDB.FindsStored]
    simp only [hnull, hnot, not_false_eq_true, ne_eq, true_and, exists_false, or_false, false_and,
      false_or, iff_true]
    exact or_comm
  | true =>
    cases v with
    | timestamp t i =>
      rw [comparesAs_timestamp hM, MariaDB.FindsStored]
      simp only [ne_eq, reduceCtorEq, not_false_eq_true, true_and, Bool.true_eq_false, false_and,
        or_false, iff_true, Value.timestamp.injEq]
      rw [or_comm]
      refine or_congr_right ⟨fun ⟨o, ho, heq⟩ => ⟨t, i, o, ⟨rfl, rfl⟩, ho, heq⟩, ?_⟩
      rintro ⟨_, _, o, ⟨rfl, rfl⟩, ho, heq⟩
      exact ⟨o, ho, heq⟩
    | _ => cases htime

/-- When equality rules a bound member out. -/
lemma equals_forced_false (hM : M.Documented S) (hN : M.ListsNumbers) (hL : L.Spells S)
    (hW : L.WritesMembers vs) (hv : v ∈ vs) (hspelled : v.spelled = true) {param : Param}
    (hp : bindValue v = .ok param) :
    (Test.equals v).Forced M L stored path false ↔
      ¬ M.FindsStored S stored path v ∧
        (v.isTimestamp = true → M.ordinalAt stored path ≠ none) ∧
        (v.isTimestamp = false → ∃ s, M.scalarExpr stored path = some s ∧ ¬ M.Lists s v) := by
  by_cases hnull : v = .null
  · subst hnull
    have hforced : (Test.equals .null).Forced M L stored path false ↔
        M.scalarExpr stored path ≠ none := by
      change (M.scalarExpr stored path).isNone = false ↔ _
      cases M.scalarExpr stored path <;> simp
    rw [hforced, Option.ne_none_iff_exists']
    simp [MariaDB.FindsStored, Value.isTimestamp, not_lists_null]
  have hcontains : ContainsAs M stored path (canonicalLiteral L v) false ↔
      ∃ inner, jsonAt stored path = some inner ∧ (S.write v).containedIn inner = false :=
    containsAs_iff_containedIn hM hL (hW v hv hnull) false
  rw [equals_forced hp hnull, if_neg Bool.false_ne_true, hcontains]
  cases htime : v.isTimestamp with
  | false =>
    have hnot : ∀ t i o, ¬ (v = .timestamp t i ∧ M.ordinalAt stored path = some o ∧
        (o : ℤ) = (timestampOrdinal t i).toInt) := by
      rintro t i o ⟨rfl, -⟩
      cases htime
    rw [comparesAs_iff_listedAs hM hN hspelled htime, listedAs_iff_lists hM hN hspelled hp,
      MariaDB.FindsStored]
    simp only [hnull, hnot, not_false_eq_true, ne_eq, true_and, exists_false, or_false,
      Bool.false_eq_true, iff_false, false_implies, true_implies]
    constructor
    · rintro ⟨⟨s, hs, hlists⟩, inner, hinner, hcontained⟩
      refine ⟨?_, s, hs, hlists⟩
      rintro ⟨inner', hinner', hcontained'⟩
      rw [hinner, Option.some.injEq] at hinner'
      rw [← hinner', hcontained] at hcontained'
      cases hcontained'
    · rintro ⟨hmissing, s, hs, hlists⟩
      obtain ⟨inner, hinner⟩ : ∃ inner, jsonAt stored path = some inner :=
        exists_jsonAt_of_read (M := M) (.inl (by simp [hs]))
      refine ⟨⟨s, hs, hlists⟩, inner, hinner, ?_⟩
      rw [← Bool.not_eq_true]
      exact fun hcontained => hmissing ⟨inner, hinner, hcontained⟩
  | true =>
    cases v with
    | timestamp t i =>
      rw [comparesAs_timestamp hM]
      constructor
      · rintro ⟨⟨o, ho, hne⟩, inner, hinner, hcontained⟩
        refine ⟨?_, by simp [ho], by simp⟩
        rintro ⟨-, ⟨inner', hinner', hcontained'⟩ | ⟨t', i', o', heq, ho', hord⟩⟩
        · rw [hinner, Option.some.injEq] at hinner'
          rw [← hinner', hcontained] at hcontained'
          cases hcontained'
        · obtain ⟨rfl, rfl⟩ := Value.timestamp.inj heq
          obtain rfl := Option.some.inj (ho.symm.trans ho')
          exact absurd (hne.1 hord) Bool.false_ne_true
      · rintro ⟨hmissing, hordinal, -⟩
        obtain ⟨o, ho⟩ := Option.ne_none_iff_exists'.1 (hordinal rfl)
        obtain ⟨inner, hinner⟩ := exists_jsonAt_of_read (.inr (hordinal rfl))
        refine ⟨⟨o, ho, ?_⟩, inner, hinner, ?_⟩
        · exact iff_of_false (fun hord => hmissing ⟨nofun, .inr ⟨t, i, o, rfl, ho, hord⟩⟩)
            Bool.false_ne_true
        · rw [← Bool.not_eq_true]
          exact fun hcontained => hmissing ⟨nofun, .inl ⟨inner, hinner, hcontained⟩⟩
    | _ => cases htime

/-! ## The two filters -/

/-- A filter of clean paths selects when its query can be said and is settled as true. -/
lemma selects_of_agrees {f : Doc} {cond : Cond} {query : Query}
    (hf : compileDocument L f = .ok cond) (houtlines : Outlines cond query)
    (hclean : ∀ path ∈ query.paths, CleanPath path) (h : Agrees M L stored cond query) :
    Selects M L f stored ↔ query.sayable = true ∧ query.Forced M L stored true := by
  rw [← h.sayable, ← h.value]
  exact selects_iff_of_clean hf fun path hpath => hclean path ((houtlines.paths path).1 hpath)

/-- The branches of equalities compile one by one. -/
lemma compileBranches_equalities (hkey : isOperatorName key = false)
    (hpath : splitPath key = .ok path) {conds : List Cond}
    (h : List.Forall₂ (fun v cond => compileEq L path v = .ok cond) vs conds) (k : ℕ) :
    compileBranches L (((vs.map fun v => Value.document [(key, v)]).zipIdx k).map
      fun (v, i) => (decimal i, v)) = .ok conds := by
  induction h generalizing k with
  | nil => rfl
  | cons hcond _ ih =>
    have hfield := compileField_of_eq hkey hpath hcond
    simp only [List.map_cons, List.zipIdx_cons, compileBranches, compileBranch, compileFields,
      hfield, ih (k + 1)]
    rfl

/-- What a disjunction of equalities compiles to. -/
lemma compileLogical_equalities (hkey : isOperatorName key = false)
    (hpath : splitPath key = .ok path) (hvs : vs ≠ []) {conds : List Cond}
    (h : List.Forall₂ (fun v cond => compileEq L path v = .ok cond) vs conds) :
    compileLogical L .or (.array (makeArray (vs.map fun v => .document [(key, v)]))) =
      .ok (conjoin .or conds) := by
  have hempty : (makeArray (vs.map fun v => Value.document [(key, v)])).isEmpty = false := by
    cases vs with
    | nil => exact absurd rfl hvs
    | cons v vs => rfl
  have hbranches := compileBranches_equalities (L := L) hkey hpath h 0
  rw [compileLogical, if_neg (by simp [hempty]), makeArray, hbranches]
  rfl

/-- Equality agrees with its test, value by value. -/
lemma forall₂_equals_agrees {conds : List Cond}
    (h : List.Forall₂ (fun v cond => compileEq L path v = .ok cond) vs conds) :
    List.Forall₂ (Agrees M L stored) conds (vs.map fun v => .test path (.equals v)) := by
  induction h with
  | nil => exact .nil
  | cons hcond _ ih => exact .cons (compileEq_agrees hcond) ih

/-- Equality outlines its test, value by value. -/
lemma forall₂_equals_outlines {conds : List Cond}
    (h : List.Forall₂ (fun v cond => compileEq L path v = .ok cond) vs conds) :
    List.Forall₂ Outlines conds (vs.map fun v => .test path (.equals v)) := by
  induction h with
  | nil => exact .nil
  | cons hcond _ ih => exact .cons (compileEq_outlines hcond) ih

/-- The equalities test one path. -/
lemma clean_equalities (hclean : CleanPath path) (vs : List Value) :
    ∀ p ∈ Query.pathsAll (vs.map fun v => .test path (.equals v)), CleanPath p := by
  induction vs with
  | nil => exact fun p hp => absurd hp List.not_mem_nil
  | cons v vs ih => exact List.forall_mem_cons.2 ⟨hclean, ih⟩

/-- What a list is made of that is accepted. -/
lemma accepted_in {fields : Doc}
    (h : Accepted L [(key, .document [("$in".toList, .array fields)])]) :
    isOperatorName key = false ∧ ∃ path, splitPath key = .ok path ∧
      ∃ cond negated params, compileIn path (.array fields) false = .ok cond ∧
        compileIn path (.array fields) true = .ok negated ∧
        List.Forall₂ (fun v param => bindValue v = .ok param) (fields.map Prod.snd) params := by
  obtain ⟨cond, h⟩ := h
  rw [compileDocument_singleton] at h
  obtain ⟨hkey, path, hpath, hop⟩ := compileField_operator rfl h
  rw [compileOperator_in] at hop
  obtain ⟨negated, hnegated, -⟩ := @compileIn_negated .ofStrings .null _ _ _ hop
  refine ⟨hkey, path, hpath, cond, negated, ?_⟩
  rcases compileIn_cases hop with ⟨hnil, -⟩ | ⟨params, -, hparams, -⟩
  · have hfields : fields.map Prod.snd = [] := hnil
    exact ⟨[], hop, hnegated, by rw [hfields]; exact .nil⟩
  · exact ⟨params, hop, hnegated, hparams⟩

/-- Each member of a list that is bound has a parameter. -/
lemma exists_bindValue {params : List Param}
    (h : List.Forall₂ (fun v param => bindValue v = .ok param) vs params) :
    ∀ v ∈ vs, ∃ param, bindValue v = .ok param := by
  induction h with
  | nil => exact fun _ hv => absurd hv List.not_mem_nil
  | cons hp _ ih => exact List.forall_mem_cons.2 ⟨⟨_, hp⟩, ih⟩

/-- Equality with a bound member compiles. -/
lemma exists_compileEq (hW : L.WritesMembers vs) {params : List Param}
    (h : List.Forall₂ (fun v param => bindValue v = .ok param) vs params) (path : Path) :
    ∃ conds, List.Forall₂ (fun v cond => compileEq L path v = .ok cond) vs conds := by
  induction h with
  | nil => exact ⟨[], .nil⟩
  | @cons v param vs params hp _ ih =>
    obtain ⟨hv, hvs⟩ := List.forall_mem_cons.1 hW
    obtain ⟨conds, hconds⟩ := ih hvs
    have hcond : ∃ cond, compileEq L path v = .ok cond := by
      by_cases hnull : v = .null
      · rw [hnull]
        exact ⟨_, rfl⟩
      obtain ⟨json, hjson⟩ := hv hnull
      obtain ⟨literal, hliteral⟩ := exists_canonicalLiteral hjson
      unfold compileEq
      cases v with
      | document _ | array _ | regex _ _ => cases hp
      | null => exact absurd rfl hnull
      | _ =>
        simp only [hp, hliteral]
        exact ⟨_, rfl⟩
    obtain ⟨cond, hcond⟩ := hcond
    exact ⟨cond :: conds, .cons hcond hconds⟩

/-- A literal is of a value that is written. -/
lemma writes_of_canonicalLiteral {literal : Json} (h : canonicalLiteral L v = .ok literal) :
    ∃ json, L.toExtjson [("v".toList, v)] = .ok json := by
  simp only [canonicalLiteral, except_bind_eq_ok] at h
  obtain ⟨json, hjson, -⟩ := h
  exact ⟨json, hjson⟩

/-- The value of an equality that compiles can be written, unless it is null. -/
lemma writes_of_compileEq {param : Param} (hp : bindValue v = .ok param) {cond : Cond}
    (h : compileEq L path v = .ok cond) (hnull : v ≠ .null) :
    ∃ json, L.toExtjson [("v".toList, v)] = .ok json := by
  unfold compileEq at h
  cases v with
  | document _ | array _ | regex _ _ => cases hp
  | null => exact absurd rfl hnull
  | _ =>
    simp only [except_bind_eq_ok] at h
    obtain ⟨-, -, literal, hliteral, -⟩ := h
    exact writes_of_canonicalLiteral hliteral

/-- The values of equalities that compile, branch by branch, can be written. -/
lemma writesMembers_of_branches (hkey : isOperatorName key = false)
    (hpath : splitPath key = .ok path) (hbound : ∀ v ∈ vs, ∃ param, bindValue v = .ok param)
    {conds : List Cond} {k : ℕ}
    (h : compileBranches L (((vs.map fun v => Value.document [(key, v)]).zipIdx k).map
      fun (v, i) => (decimal i, v)) = .ok conds) : L.WritesMembers vs := by
  induction vs generalizing k conds with
  | nil => exact fun v hv => absurd hv List.not_mem_nil
  | cons v vs ih =>
    obtain ⟨⟨param, hp⟩, hrest⟩ := List.forall_mem_cons.1 hbound
    simp only [List.map_cons, List.zipIdx_cons, compileBranches, compileBranch, compileFields,
      compileField_of_path hkey, compilePath_of_split hkey hpath, except_bind_eq_ok] at h
    obtain ⟨-, ⟨-, ⟨cond, hcond, -⟩, -⟩, conds, hconds, -⟩ := h
    refine List.forall_mem_cons.2 ⟨fun hnull => ?_, ih hrest hconds⟩
    have hoperator : operatorDocument v = none := by
      cases v with
      | document _ => cases hp
      | _ => rfl
    rw [hoperator] at hcond
    exact writes_of_compileEq hp hcond hnull

/-- The values of a disjunction that is accepted can be written. -/
lemma writesMembers_of_accepted (hkey : isOperatorName key = false)
    (hpath : splitPath key = .ok path) (hbound : ∀ v ∈ vs, ∃ param, bindValue v = .ok param)
    {op : String} (hop : op = "$or" ∨ op = "$nor") (h : Accepted L (equalities op key vs)) :
    L.WritesMembers vs := by
  obtain ⟨cond, h⟩ := h
  rw [equalities, compileDocument_singleton, compileField] at h
  have hlogical : ∃ joined, compileLogical L .or
      (.array (makeArray (vs.map fun v => .document [(key, v)]))) = .ok joined := by
    rcases hop with rfl | rfl
    · rw [if_neg (by decide), if_pos rfl] at h
      exact ⟨cond, h⟩
    · rw [if_neg (by decide), if_neg (by decide), if_pos rfl, except_bind_eq_ok] at h
      obtain ⟨joined, hjoined, -⟩ := h
      exact ⟨joined, hjoined⟩
  obtain ⟨joined, hlogical⟩ := hlogical
  rw [compileLogical] at hlogical
  split at hlogical
  · cases hlogical
  · obtain ⟨conds, hconds, -⟩ := except_bind_eq_ok.1 hlogical
    exact writesMembers_of_branches hkey hpath hbound hconds

/-- What a list selects. -/
lemma selects_list_iff (hkey : isOperatorName key = false) (hpath : splitPath key = .ok path)
    (hclean : CleanPath path) {fields : Doc} {op : Text} (hop : isOperatorName op = true)
    {negated : Bool} {cond : Cond} (hcond : compileOperator L path (op, .array fields) = .ok cond)
    (hin : compileIn path (.array fields) negated = .ok cond) :
    Selects M L [(key, .document [(op, .array fields)])] stored ↔
      (fields.map Prod.snd).all Value.spelled = true ∧
        (Test.oneOf negated (fields.map Prod.snd)).Forced M L stored path true := by
  have hpaths : ∀ vs : List Value, ∀ p ∈ (Query.test path (.oneOf negated vs)).paths,
      CleanPath p := by
    intro vs p hp
    rw [Query.paths] at hp
    split at hp
    · obtain rfl := List.mem_singleton.1 hp
      exact hclean
    · cases hp
  rw [selects_of_agrees (compileDocument_operator hkey hpath hop hcond)
    ((outlines_compileRelation L).inList hin) (hpaths _) (compileIn_agrees hin),
    Query.forced_test]
  rfl

/-- What a disjunction of equalities selects. -/
lemma selects_or_iff (hkey : isOperatorName key = false) (hpath : splitPath key = .ok path)
    (hclean : CleanPath path) (hvs : vs ≠ []) {conds : List Cond}
    (h : List.Forall₂ (fun v cond => compileEq L path v = .ok cond) vs conds) :
    Selects M L (equalities "$or" key vs) stored ↔
      vs.all Value.spelled = true ∧ ∃ v ∈ vs, (Test.equals v).Forced M L stored path true := by
  have hcond : compileDocument L (equalities "$or" key vs) = .ok (conjoin .or conds) := by
    rw [equalities, compileDocument_singleton, compileField, if_neg (by decide), if_pos rfl,
      compileLogical_equalities hkey hpath hvs h]
  rw [selects_of_agrees hcond ((outlines_compileRelation L).disj (forall₂_equals_outlines h))
    (clean_equalities hclean vs) (.disj (forall₂_equals_agrees h))]
  have hforced : (Query.disj (vs.map fun v => .test path (.equals v))).Forced M L stored true ↔
      ∃ v ∈ vs, (Test.equals v).Forced M L stored path true := by
    constructor
    · intro hf
      cases hf with
      | disj_true hq hf =>
        obtain ⟨v, hv, rfl⟩ := List.mem_map.1 hq
        exact ⟨v, hv, Query.forced_test.1 hf⟩
    · rintro ⟨v, hv, hf⟩
      exact .disj_true (List.mem_map_of_mem hv) (.test hf)
  rw [hforced]
  simp [Query.sayable, List.all_map, hvs, Test.sayable, Function.comp_def]

/-- What the negation of a disjunction of equalities selects. -/
lemma selects_nor_iff (hkey : isOperatorName key = false) (hpath : splitPath key = .ok path)
    (hclean : CleanPath path) (hvs : vs ≠ []) {conds : List Cond}
    (h : List.Forall₂ (fun v cond => compileEq L path v = .ok cond) vs conds) :
    Selects M L (equalities "$nor" key vs) stored ↔
      vs.all Value.spelled = true ∧ ∀ v ∈ vs, (Test.equals v).Forced M L stored path false := by
  have hcond : compileDocument L (equalities "$nor" key vs) = .ok (.not (conjoin .or conds)) := by
    rw [equalities, compileDocument_singleton, compileField, if_neg (by decide),
      if_neg (by decide), if_pos rfl, compileLogical_equalities hkey hpath hvs h]
    rfl
  have hagrees : Agrees M L stored _ _ := Agrees.not (Agrees.disj (forall₂_equals_agrees h))
  have houtlines : Outlines (.not (conjoin .or conds)) _ := (outlines_compileRelation L).not
    ((outlines_compileRelation L).disj (forall₂_equals_outlines h))
  rw [selects_of_agrees hcond houtlines (clean_equalities hclean vs) hagrees]
  have hforced : (Query.neg (.disj (vs.map fun v => .test path (.equals v)))).Forced M L stored
      true ↔ ∀ v ∈ vs, (Test.equals v).Forced M L stored path false := by
    rw [Query.forced_neg]
    constructor
    · intro hf v hv
      cases hf with
      | disj_false hf => exact Query.forced_test.1 (hf _ (List.mem_map_of_mem hv))
    · intro hf
      refine .disj_false fun q hq => ?_
      obtain ⟨v, hv, rfl⟩ := List.mem_map.1 hq
      exact .test (hf v hv)
  rw [hforced]
  simp [Query.sayable, List.all_map, hvs, Test.sayable, Function.comp_def]

/-- An empty disjunction is rejected. -/
lemma not_selects_empty (op : String) (hop : op = "$or" ∨ op = "$nor") :
    ¬ Selects M L (equalities op key []) stored := by
  intro h
  obtain ⟨cond, hcond⟩ := accepted_of_selects h
  rw [equalities, compileDocument_singleton] at hcond
  rcases hop with rfl | rfl <;> cases hcond

/-- A list selects where the text equals a member. -/
lemma listed_iff (hM : M.Documented S) (hN : M.ListsNumbers)
    (hspelled : ∀ v ∈ vs, v.spelled = true) (hbound : ∀ v ∈ vs, ∃ param, bindValue v = .ok param)
    {s : Text} (hread : M.scalarExpr stored path = some s) :
    (Test.oneOf false vs).Forced M L stored path true ↔ ∃ v ∈ vs, M.Lists s v := by
  refine exists_congr fun v => and_congr_right fun hv => ?_
  obtain ⟨param, hp⟩ := hbound v hv
  rw [listedAs_iff_lists hM hN (hspelled v hv) hp]
  simp only [hread, Option.some.injEq, exists_eq_left', iff_true]
  refine and_iff_right_of_imp fun hlists => ?_
  rintro rfl
  exact not_lists_null s hlists

/-- A negated list selects where null is no member and the text equals none. -/
lemma unlisted_iff (hM : M.Documented S) (hN : M.ListsNumbers)
    (hspelled : ∀ v ∈ vs, v.spelled = true) (hbound : ∀ v ∈ vs, ∃ param, bindValue v = .ok param)
    {s : Text} (hread : M.scalarExpr stored path = some s) :
    (Test.oneOf true vs).Forced M L stored path true ↔ .null ∉ vs ∧ ∀ v ∈ vs, ¬ M.Lists s v := by
  have hlisted : ∀ v ∈ vs, ListedAs M stored path v false ↔ v ≠ .null ∧ ¬ M.Lists s v := by
    intro v hv
    obtain ⟨param, hp⟩ := hbound v hv
    rw [listedAs_iff_lists hM hN (hspelled v hv) hp]
    simp [hread]
  constructor
  · intro hall
    exact ⟨fun hnull => ((hlisted _ hnull).1 (hall _ hnull)).1 rfl,
      fun v hv => ((hlisted v hv).1 (hall v hv)).2⟩
  · rintro ⟨hnull, hlists⟩ v hv
    refine (hlisted v hv).2 ⟨?_, hlists v hv⟩
    rintro rfl
    exact hnull hv

/-- Where no text is read, neither a list nor its negation selects. -/
lemma not_listed_of_none (hvs : vs ≠ []) (hread : M.scalarExpr stored path = none) :
    ¬ (Test.oneOf false vs).Forced M L stored path true ∧
      ¬ (Test.oneOf true vs).Forced M L stored path true := by
  have hlisted : ∀ v ∈ vs, ∀ b, ¬ ListedAs M stored path v b := by
    rintro v hv b ⟨param, s, -, -, hs, -⟩
    rw [hread] at hs
    cases hs
  refine ⟨fun ⟨v, hv, hlist⟩ => hlisted v hv true hlist, fun hall => ?_⟩
  obtain ⟨v, hv⟩ := List.exists_mem_of_ne_nil vs hvs
  exact hlisted v hv false (hall v hv)

/-- When neither a list nor its negation selects. -/
lemma not_listed_iff (hM : M.Documented S) (hN : M.ListsNumbers) (hvs : vs ≠ [])
    (hspelled : ∀ v ∈ vs, v.spelled = true)
    (hbound : ∀ v ∈ vs, ∃ param, bindValue v = .ok param) :
    (¬ (Test.oneOf false vs).Forced M L stored path true ∧
      ¬ (Test.oneOf true vs).Forced M L stored path true) ↔ M.ListsNothing stored path vs := by
  unfold MariaDB.ListsNothing
  cases hread : M.scalarExpr stored path with
  | none => exact iff_of_true (not_listed_of_none hvs hread) nofun
  | some s =>
    rw [listed_iff hM hN hspelled hbound hread, unlisted_iff hM hN hspelled hbound hread]
    simp only [Option.some.injEq, forall_eq']
    push Not
    tauto

/-- Where no text is read, a list finds no member and rules none out. -/
lemma alike_of_scalarExpr_none (hM : M.Documented S) (hN : M.ListsNumbers) (hL : L.Spells S)
    (hW : L.WritesMembers vs) (hvs : vs ≠ []) (hspelled : ∀ v ∈ vs, v.spelled = true)
    (hbound : ∀ v ∈ vs, ∃ param, bindValue v = .ok param)
    (hread : M.scalarExpr stored path = none) :
    (((Test.oneOf false vs).Forced M L stored path true ↔
        ∃ v ∈ vs, (Test.equals v).Forced M L stored path true) ∧
      ((Test.oneOf true vs).Forced M L stored path true ↔
        ∀ v ∈ vs, (Test.equals v).Forced M L stored path false)) ↔
      M.ListsAlike S stored path vs := by
  obtain ⟨hin, hnin⟩ := not_listed_of_none (M := M) (L := L) hvs hread
  have hor : (∃ v ∈ vs, (Test.equals v).Forced M L stored path true) ↔
      (∃ v ∈ vs, M.FindsStored S stored path v) ∨ .null ∈ vs := by
    constructor
    · rintro ⟨v, hv, hforced⟩
      obtain ⟨param, hp⟩ := hbound v hv
      rcases (equals_forced_true hM hN hL hW hv (hspelled v hv) hp).1 hforced with
        hfound | ⟨-, ⟨rfl, -⟩ | ⟨s, hs, -⟩⟩
      · exact .inl ⟨v, hv, hfound⟩
      · exact .inr hv
      · rw [hread] at hs
        cases hs
    · rintro (⟨v, hv, hfound⟩ | hnull)
      · obtain ⟨param, hp⟩ := hbound v hv
        exact ⟨v, hv, (equals_forced_true hM hN hL hW hv (hspelled v hv) hp).2 (.inl hfound)⟩
      · exact ⟨.null, hnull, (equals_forced_true hM hN hL hW hnull rfl rfl).2
          (.inr ⟨rfl, .inl ⟨rfl, hread⟩⟩)⟩
  have hnor : (∀ v ∈ vs, (Test.equals v).Forced M L stored path false) ↔
      (∀ v ∈ vs, ¬ M.FindsStored S stored path v) ∧
        (∀ v ∈ vs, v.isTimestamp = true) ∧ (M.ordinalAt stored path).isSome = true := by
    constructor
    · intro hall
      have hmember : ∀ v ∈ vs, ¬ M.FindsStored S stored path v ∧ v.isTimestamp = true ∧
          M.ordinalAt stored path ≠ none := by
        intro v hv
        obtain ⟨param, hp⟩ := hbound v hv
        obtain ⟨hfound, htime, htext⟩ :=
          (equals_forced_false hM hN hL hW hv (hspelled v hv) hp).1 (hall v hv)
        cases hstamp : v.isTimestamp with
        | true => exact ⟨hfound, rfl, htime hstamp⟩
        | false =>
          obtain ⟨s, hs, -⟩ := htext hstamp
          rw [hread] at hs
          cases hs
      obtain ⟨v, hv⟩ := List.exists_mem_of_ne_nil vs hvs
      exact ⟨fun v hv => (hmember v hv).1, fun v hv => (hmember v hv).2.1,
        Option.isSome_iff_ne_none.2 (hmember v hv).2.2⟩
    · rintro ⟨hfound, htime, hordinal⟩ v hv
      obtain ⟨param, hp⟩ := hbound v hv
      refine (equals_forced_false hM hN hL hW hv (hspelled v hv) hp).2 ⟨hfound v hv, fun _ =>
        Option.isSome_iff_ne_none.1 hordinal, fun hfalse => ?_⟩
      rw [htime v hv] at hfalse
      cases hfalse
  rw [iff_false_left hin, iff_false_left hnin, hor, hnor]
  simp only [MariaDB.ListsAlike, hread]
  push Not
  tauto

/-- Where a text is read, a list and equality part over null, timestamps and containment. -/
lemma alike_of_scalarExpr_some (hM : M.Documented S) (hN : M.ListsNumbers) (hL : L.Spells S)
    (hW : L.WritesMembers vs) (hspelled : ∀ v ∈ vs, v.spelled = true)
    (hbound : ∀ v ∈ vs, ∃ param, bindValue v = .ok param) {s : Text}
    (hread : M.scalarExpr stored path = some s) :
    (((Test.oneOf false vs).Forced M L stored path true ↔
        ∃ v ∈ vs, (Test.equals v).Forced M L stored path true) ∧
      ((Test.oneOf true vs).Forced M L stored path true ↔
        ∀ v ∈ vs, (Test.equals v).Forced M L stored path false)) ↔
      M.ListsAlike S stored path vs := by
  have hin := listed_iff (L := L) hM hN hspelled hbound hread
  have hnin := unlisted_iff (L := L) hM hN hspelled hbound hread
  have hor : (∃ v ∈ vs, (Test.equals v).Forced M L stored path true) ↔
      (∃ v ∈ vs, M.FindsStored S stored path v) ∨
        ∃ v ∈ vs, v.isTimestamp = false ∧ M.Lists s v := by
    rw [← exists_or]
    refine exists_congr fun v => ?_
    rw [← and_or_left]
    refine and_congr_right fun hv => ?_
    obtain ⟨param, hp⟩ := hbound v hv
    rw [equals_forced_true hM hN hL hW hv (hspelled v hv) hp]
    simp [hread]
  have hnor : (∀ v ∈ vs, (Test.equals v).Forced M L stored path false) ↔
      (∀ v ∈ vs, ¬ M.FindsStored S stored path v) ∧
        (∀ v ∈ vs, v.isTimestamp = true → M.ordinalAt stored path ≠ none) ∧
          ∀ v ∈ vs, v.isTimestamp = false → ¬ M.Lists s v := by
    rw [← forall₂_and, ← forall₂_and]
    refine forall₂_congr fun v hv => ?_
    obtain ⟨param, hp⟩ := hbound v hv
    rw [equals_forced_false hM hN hL hW hv (hspelled v hv) hp]
    simp [hread]
  have hother : (∀ v ∈ vs, v.isTimestamp = true → M.ordinalAt stored path ≠ none) ↔
      ¬ ((∃ v ∈ vs, v.isTimestamp = true) ∧ M.ordinalAt stored path = none) := by
    push Not
    constructor
    · rintro hall ⟨v, hv, htime⟩
      exact hall v hv htime
    · exact fun hall v hv htime => hall ⟨v, hv, htime⟩
  have hlists : (∃ v ∈ vs, v.isTimestamp = false ∧ M.Lists s v) → ∃ v ∈ vs, M.Lists s v :=
    fun ⟨v, hv, _, hlist⟩ => ⟨v, hv, hlist⟩
  have hnone : ∀ p : Value → Prop, (∀ v ∈ vs, ¬ p v) ↔ ¬ ∃ v ∈ vs, p v := fun p => by simp
  have hnone' : (∀ v ∈ vs, v.isTimestamp = false → ¬ M.Lists s v) ↔
      ¬ ∃ v ∈ vs, v.isTimestamp = false ∧ M.Lists s v := by simp
  rw [hin, hnin, hor, hnor, hother, hnone', hnone, hnone]
  simp only [MariaDB.ListsAlike, hread, hnone]
  generalize (∃ v ∈ vs, v.isTimestamp = false ∧ M.Lists s v) = other at *
  generalize (∃ v ∈ vs, M.Lists s v) = listed at *
  generalize (∃ v ∈ vs, M.FindsStored S stored path v) = found at *
  generalize ((∃ v ∈ vs, v.isTimestamp = true) ∧ M.ordinalAt stored path = none) = unread at *
  clear hin hnin hor hnor hother hnone hnone' hbound
  by_cases hother : other
  · simp [hother, hlists hother]
  · by_cases hlisted : listed <;> by_cases hfound : found <;> simp [hother, hlisted, hfound]
    tauto

/-- **A list is the disjunction of equalities exactly where it is alike.**  A list of scalars that
is accepted, at a plain name, selects what the disjunction of the equalities with its members
selects, and its negation what the negation of the disjunction does, if and only if a member cannot
be said in SQL; or the list is not empty and its members can be written, and it is alike on what is
stored at the path; or a member cannot be written, so that the disjunctions are refused, and the
list and its negation select nothing. -/
theorem in_iff_or (hM : M.Documented S) (hN : M.ListsNumbers) (hL : L.Spells S) {fields : Doc}
    (hname : PlainPath (splitDots key))
    (h : Accepted L [(key, .document [("$in".toList, .array fields)])]) :
    ((Selects M L [(key, .document [("$in".toList, .array fields)])] stored ↔
        Selects M L (equalities "$or" key (fields.map Prod.snd)) stored) ∧
      (Selects M L [(key, .document [("$nin".toList, .array fields)])] stored ↔
        Selects M L (equalities "$nor" key (fields.map Prod.snd)) stored)) ↔
      (∃ v ∈ fields.map Prod.snd, v.spelled = false) ∨ fields.map Prod.snd ≠ [] ∧
        (L.WritesMembers (fields.map Prod.snd) ∧
            M.ListsAlike S stored (splitDots key) (fields.map Prod.snd) ∨
          ¬ L.WritesMembers (fields.map Prod.snd) ∧
            M.ListsNothing stored (splitDots key) (fields.map Prod.snd)) := by
  obtain ⟨hkey, path, hpath, cond, negated, params, hin, hnin, hparams⟩ := accepted_in h
  obtain rfl := splitPath_eq_ok hpath
  have hclean := hname.clean
  have hbound := exists_bindValue hparams
  rw [selects_list_iff hkey hpath hclean rfl ((compileOperator_in _ _).trans hin) hin,
    selects_list_iff hkey hpath hclean rfl ((compileOperator_nin _ _).trans hnin) hnin]
  generalize fields.map Prod.snd = vs at *
  by_cases hvs : vs = []
  · subst hvs
    simp [not_selects_empty, Test.Forced]
  by_cases hW : L.WritesMembers vs
  · obtain ⟨conds, hconds⟩ := exists_compileEq hW hparams (splitDots key)
    rw [selects_or_iff hkey hpath hclean hvs hconds, selects_nor_iff hkey hpath hclean hvs hconds]
    by_cases hspelled : vs.all Value.spelled = true
    · have hall : ¬ ∃ v ∈ vs, v.spelled = false := by simpa using hspelled
      have hmembers : ∀ v ∈ vs, v.spelled = true := List.all_eq_true.1 hspelled
      simp only [hspelled, true_and, or_iff_right hall, ne_eq, hvs, not_false_eq_true, hW,
        not_true_eq_false, false_and, or_false]
      cases hread : M.scalarExpr stored (splitDots key) with
      | none => exact alike_of_scalarExpr_none hM hN hL hW hvs hmembers hbound hread
      | some s => exact alike_of_scalarExpr_some hM hN hL hW hmembers hbound hread
    · have hexists : ∃ v ∈ vs, v.spelled = false := by simpa using hspelled
      simp [hspelled, hexists]
  · have hrefused : ∀ op, op = "$or" ∨ op = "$nor" → ¬ Selects M L (equalities op key vs) stored :=
      fun op hop hselects =>
        hW (writesMembers_of_accepted hkey hpath hbound hop (accepted_of_selects hselects))
    simp only [hrefused "$or" (.inl rfl), hrefused "$nor" (.inr rfl), iff_false]
    by_cases hspelled : vs.all Value.spelled = true
    · have hall : ¬ ∃ v ∈ vs, v.spelled = false := by simpa using hspelled
      simp only [hspelled, true_and, or_iff_right hall, ne_eq, hvs, not_false_eq_true, hW,
        false_and, false_or]
      exact not_listed_iff hM hN hvs (List.all_eq_true.1 hspelled) hbound
    · have hexists : ∃ v ∈ vs, v.spelled = false := by simpa using hspelled
      simp [hspelled, hexists]

end Lists

/-! ## A server -/

/-- A text is compared with a number as a number. -/
lemma MariaDB.ofIntegers_listsNumbers : MariaDB.ofIntegers.ListsNumbers where
  compare_text_int s n := by
    rw [MariaDB.ofIntegers_castDouble, MariaDB.ofIntegers_compare, comparesIntegers]
  compare_text_double s d _ := by
    rw [MariaDB.ofIntegers_castDouble, MariaDB.ofIntegers_compare, comparesIntegers]

/-- A string, sought among a string and an integer. -/
theorem in_iff_or_string :
    let stored := Json.obj [("a".toList, .str "x".toList)]
    let fields := makeArray [.int32 1, .utf8 "x".toList]
    let vs := fields.map Prod.snd
    (Selects .ofIntegers Spelling.plain.libbson
        [("a".toList, .document [("$in".toList, .array fields)])] stored ↔
      Selects .ofIntegers Spelling.plain.libbson (equalities "$or" "a".toList vs) stored) ∧
    (Selects .ofIntegers Spelling.plain.libbson
        [("a".toList, .document [("$nin".toList, .array fields)])] stored ↔
      Selects .ofIntegers Spelling.plain.libbson (equalities "$nor" "a".toList vs) stored) := by
  intro stored fields vs
  have haccepted : Accepted Spelling.plain.libbson
      [("a".toList, .document [("$in".toList, .array fields)])] := ⟨_, rfl⟩
  have hiff : (Selects .ofIntegers Spelling.plain.libbson _ stored ↔ _) ∧ _ ↔ _ :=
    in_iff_or MariaDB.ofIntegers_documented MariaDB.ofIntegers_listsNumbers
      Spelling.plain.libbson_spells (by decide) haccepted
  have hwrites : Spelling.plain.libbson.WritesMembers vs := fun _ _ _ => ⟨_, rfl⟩
  refine hiff.2 (.inr ⟨nofun, .inl ⟨hwrites, .inl ⟨.utf8 "x".toList, ?_, rfl, .inr ⟨_, rfl, ?_⟩⟩⟩⟩)
  · exact List.mem_cons_of_mem _ List.mem_cons_self
  · decide

/-- An array of a string, sought by the string: equality selects the document, and the list drops
it. -/
theorem in_misses_element :
    let stored := Json.obj [("tags".toList, .arr [.str "a".toList])]
    let fields := makeArray [.utf8 "a".toList]
    MariaDB.ofIntegers.Documented .plain ∧ MariaDB.ofIntegers.ListsNumbers ∧
      Spelling.plain.libbson.Spells .plain ∧
      Accepted Spelling.plain.libbson
        [("tags".toList, .document [("$in".toList, .array fields)])] ∧
      Selects .ofIntegers Spelling.plain.libbson
        (equalities "$or" "tags".toList (fields.map Prod.snd)) stored ∧
      ¬ Selects .ofIntegers Spelling.plain.libbson
        [("tags".toList, .document [("$in".toList, .array fields)])] stored := by
  intro stored fields
  refine ⟨MariaDB.ofIntegers_documented, MariaDB.ofIntegers_listsNumbers,
    Spelling.plain.libbson_spells, ⟨_, rfl⟩, ?_, ?_⟩
  · rw [selects_iff_selected (by decide)]
    exact ⟨_, rfl, rfl, by decide⟩
  · rw [selects_iff_selected (by decide)]
    rintro ⟨cond, hcond, -, heval⟩
    obtain rfl := Except.ok.inj hcond
    exact absurd heval (by decide)

end Chimera

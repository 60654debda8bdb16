import Chimera.Translator.Equality

/-!
# Null, missing and present

`{p: null}` asks whether the server reads a text at the path, and `{p: {$exists: true}}` whether
anything is there.  The server reads a text of the scalars that it can compare.  So null, missing
and present are told apart exactly where the value at the path is one of these, or null, or missing.
-/

namespace Chimera

/-- The scalars that the server reads a text of: their wrappers are among those that a condition
looks through. -/
def Value.isRead : Value → Bool
  | .utf8 _ | .bool _ | .int32 _ | .int64 _ | .double _ | .dateTime _ | .oid _ => true
  | _ => false

/-- The value at a path of a stored document is told apart from null.  A missing value leaves
nothing at the path, not even a part of the spelling of a scalar.  A document is told apart only
when the server reads a text in a member that is named like a wrapper, and an array is not. -/
def MariaDB.TellsNull (M : MariaDB) (S : Spelling) (stored : Json) (path : Path) :
    Option Value → Prop
  | none => jsonAt stored path = none
  | some (.document fields) => (M.scalarExpr (S.write (.document fields)) []).isSome = true
  | some x => x = .null ∨ x.isRead = true

/-- The three filters: equality with null, its negation, and presence. -/
def TellsPresence (M : MariaDB) (L : Libbson) (stored : Json) (key : Text) (x : Option Value) :
    Prop :=
  (Selects M L [(key, .null)] stored ↔ x = none ∨ x = some .null) ∧
    (Selects M L [(key, .document [("$ne".toList, .null)])] stored ↔
      ∃ y, x = some y ∧ y ≠ .null) ∧
    (Selects M L [(key, .document [("$exists".toList, .bool true)])] stored ↔ ∃ y, x = some y)

section Presence

variable {M : MariaDB} {S : Spelling} {L : Libbson} {stored : Json} {key : Text} {path : Path}

/-- Equality with null selects where no text is read. -/
lemma selects_null_iff (hkey : isOperatorName key = false) (hpath : splitPath key = .ok path)
    (hname : PlainPath path) :
    Selects M L [(key, .null)] stored ↔ M.scalarExpr stored path = none := by
  have hcond : compileDocument L [(key, .null)] = .ok (.isNull path) := by
    rw [compileDocument_singleton, compileField_of_eq hkey hpath rfl]
  rw [selects_iff_of_clean hcond (List.forall_mem_singleton.2 hname.clean)]
  simp [Cond.wellFormed, Cond.eval]

/-- Inequality with null selects where a text is read. -/
lemma selects_ne_null_iff (hkey : isOperatorName key = false) (hpath : splitPath key = .ok path)
    (hname : PlainPath path) :
    Selects M L [(key, .document [("$ne".toList, .null)])] stored ↔
      M.scalarExpr stored path ≠ none := by
  have hcond : compileDocument L [(key, .document [("$ne".toList, .null)])] =
      .ok (.not (.isNull path)) := compileDocument_operator hkey hpath rfl rfl
  rw [selects_iff_of_clean hcond (List.forall_mem_singleton.2 hname.clean)]
  simp only [Cond.wellFormed, Cond.eval, true_and]
  cases M.scalarExpr stored path <;> simp [Kleene.not]

/-- A test for presence selects where something is stored. -/
lemma selects_exists_iff (hkey : isOperatorName key = false) (hpath : splitPath key = .ok path)
    (hname : PlainPath path) :
    Selects M L [(key, .document [("$exists".toList, .bool true)])] stored ↔
      jsonAt stored path ≠ none := by
  have hcond : compileDocument L [(key, .document [("$exists".toList, .bool true)])] =
      .ok (.jsonExists path false) := compileDocument_operator hkey hpath rfl rfl
  rw [selects_iff_of_clean hcond (List.forall_mem_singleton.2 hname.clean)]
  simp only [Cond.wellFormed, Cond.eval, true_and]
  cases jsonAt stored path <;> simp

/-- A text is read of a scalar other than null exactly when it is of a type that is read. -/
lemma isSome_scalarExpr_write (hnull : M.nullText = none) {x : Value} (hx : x.isContainer = false) :
    (M.scalarExpr (S.write x) []).isSome = x.isRead := by
  rw [scalarExpr_write hx]
  cases x with
  | document fields => cases hx
  | array fields => cases hx
  | null => simp [MariaDB.textOf, hnull, Value.isRead]
  | _ => rfl

/-- **Null, missing and present are told apart exactly where the server can tell.**  On a server
that reads no text of a JSON null, the filters `{key: null}`, `{key: {$ne: null}}` and
`{key: {$exists: true}}` of a plain name select a stored document as its value at the path demands,
if and only if this value is told apart from null. -/
theorem presence_iff (hnull : M.nullText = none) (hL : L.Spells S) {d : Doc}
    (hd : L.toExtjson d = .ok stored) (hkey : isOperatorName key = false)
    (hpath : splitPath key = .ok path) (hname : PlainPath path) :
    TellsPresence M L stored key ((Value.document d).at path) ↔
      M.TellsNull S stored path ((Value.document d).at path) := by
  unfold TellsPresence
  rw [selects_null_iff hkey hpath hname, selects_ne_null_iff hkey hpath hname,
    selects_exists_iff hkey hpath hname, M.scalarExpr_at]
  cases hat : (Value.document d).at path with
  | none =>
    cases hstored : jsonAt stored path with
    | none => simp [MariaDB.TellsNull, hstored]
    | some inner => simp [MariaDB.TellsNull, hstored]
  | some x =>
    have hstored : jsonAt stored path = some (S.write x) := by
      rw [hL d stored hd]
      exact jsonAt_write (v := .document d) hat
    have hread : ∀ c : Option Text, (c = none ↔ x = .null) → (c ≠ none ↔ x ≠ .null) := fun c h =>
      not_congr h
    have hiff : M.TellsNull S stored path (some x) ↔
        (M.scalarExpr (S.write x) [] = none ↔ x = .null) := by
      cases hcontainer : x.isContainer with
      | false =>
        have hsome := isSome_scalarExpr_write (S := S) hnull hcontainer
        rw [← Option.not_isSome_iff_eq_none, hsome]
        cases x with
        | document fields => cases hcontainer
        | array fields => cases hcontainer
        | _ => simp [MariaDB.TellsNull, Value.isRead]
      | true =>
        cases x with
        | document fields => simp [MariaDB.TellsNull, Option.isSome_iff_ne_none]
        | array fields =>
          have harray : M.scalarExpr (S.write (.array fields)) [] = none := scalarExpr_arr _
          simp [MariaDB.TellsNull, Value.isRead, harray]
        | _ => cases hcontainer
    rw [hiff]
    simp only [hstored, Option.bind_some, reduceCtorEq, Option.some.injEq, false_or,
      exists_eq_left',
      not_false_eq_true, ne_eq, exists_eq', and_true]
    exact ⟨And.left, fun h => ⟨h, hread _ h⟩⟩

end Presence

/-- A date, a null and a missing value are told apart. -/
theorem presence_iff_date :
    let d := [("at".toList, Value.dateTime 0), ("gone".toList, .null)]
    let stored := Json.obj (Spelling.plain.writeFields d)
    TellsPresence .ofIntegers Spelling.plain.libbson stored "at".toList (some (.dateTime 0)) ∧
      TellsPresence .ofIntegers Spelling.plain.libbson stored "gone".toList (some .null) ∧
      TellsPresence .ofIntegers Spelling.plain.libbson stored "none".toList none := by
  intro d stored
  have hiff : ∀ key path, isOperatorName key = false → splitPath key = .ok path →
      PlainPath path →
      MariaDB.ofIntegers.TellsNull .plain stored path ((Value.document d).at path) →
      TellsPresence .ofIntegers Spelling.plain.libbson stored key ((Value.document d).at path) :=
    fun key path hkey hpath hname =>
      (presence_iff rfl Spelling.plain.libbson_spells rfl hkey hpath hname).2
  exact ⟨hiff _ ["at".toList] rfl rfl (by decide) (Or.inr rfl),
    hiff _ ["gone".toList] rfl rfl (by decide) (Or.inl rfl),
    hiff _ ["none".toList] rfl rfl (by decide) rfl⟩

/-- A sub-document, which is there and is not null: the filter for null selects it, and the filter
for what is not null drops it. -/
theorem null_selects_document :
    let d := [("a".toList, Value.document [("b".toList, .int32 1)])]
    let stored := Json.obj (Spelling.plain.writeFields d)
    MariaDB.ofIntegers.nullText = none ∧ Spelling.plain.libbson.toExtjson d = .ok stored ∧
      (Value.document d).at ["a".toList] = some (.document [("b".toList, .int32 1)]) ∧
      Selects .ofIntegers Spelling.plain.libbson [("a".toList, .null)] stored ∧
      ¬ Selects .ofIntegers Spelling.plain.libbson
        [("a".toList, .document [("$ne".toList, .null)])] stored := by
  intro d stored
  refine ⟨rfl, rfl, rfl, ?_, ?_⟩
  · exact (selects_null_iff rfl rfl (by decide)).2 (by decide)
  · rw [selects_ne_null_iff rfl rfl (by decide)]
    exact fun h => h (by decide)

end Chimera

import Chimera.Foundations.Template
import Chimera.Translator.Emit
import Chimera.Translator.Injection

/-!
# Placeholders and parameters

`SqlSession::render` replaces every `?` of the compiled text by the next parameter, wherever the
character stands.  The compiled text of a condition is a template whose slots are the operands.
The parameters line up with the placeholders exactly when no path that gets into the text brings a
`?` of its own.
-/

namespace Chimera

open QuotedText Template

/-! ## Rendering -/

/-- How a session prints values: the parts that the C library and the client library do. -/
structure SqlSession where
  /-- `%.17g` of a double. -/
  number : Binary64 → Text
  /-- `quote`. -/
  quote : Text → Text
  /-- The text of a JSON tree. -/
  jsonText : Json → Text

/-- The print of a parameter. -/
def SqlSession.literal (session : SqlSession) : Param → Text
  | .null => "NULL".toList
  | .bool b => if b then "TRUE".toList else "FALSE".toList
  | .int n => integerText n.toInt
  | .double d => session.number d
  | .text s => session.quote s
  | .json j => session.quote (session.jsonText j)

/-- `render`. -/
def SqlSession.render (session : SqlSession) (sql : Text) (params : List Param) :
    Except TranslatorError Text :=
  fill '?' session.literal (internalError "more placeholders than parameters".toList)
    (internalError "more parameters than placeholders".toList) sql params

/-! ## The template of a condition -/

/-- Slots with a separator between them. -/
def separatedSlots (separator : Text) : List (List (Slot Param)) → List (Slot Param)
  | [] => []
  | [part] => part
  | part :: parts => part ++ .text separator :: separatedSlots separator parts

mutual

/-- The text of a condition with every operand's value in its place. -/
def Cond.template (col : DocColumn) : Cond → List (Slot Param)
  | .one => [.text "1".toList]
  | .zero => [.text "0".toList]
  | .compare operand op param => [.text (textOf (operand.pieces col) ++ op.text), .value param]
  | .isNull path => [.text (valueText col path ++ " IS NULL".toList)]
  | .regexp path pattern =>
    [.text (valueText col path ++ " REGEXP ".toList), .value (.text pattern)]
  | .contains path candidate =>
    [.text ("JSON_CONTAINS(".toList ++ extractText col path ++ ", ".toList),
      .value (.json candidate), .text ")".toList]
  | .jsonExists path negated => [.text ((Cond.jsonExists path negated).text col)]
  | .inList path negated members =>
    .text (valueText col path ++ (if negated then " NOT IN (".toList else " IN (".toList)) ::
      separatedSlots ", ".toList (members.map fun param => [.value param]) ++ [.text ")".toList]
  | .junction joiner parts =>
    .text "(".toList :: separatedSlots joiner.text (Cond.templateAll col parts) ++
      [.text ")".toList]
  | .not cond => .text "NOT (".toList :: cond.template col ++ [.text ")".toList]
termination_by structural cond => cond

/-- The templates of several conditions. -/
def Cond.templateAll (col : DocColumn) : List Cond → List (List (Slot Param))
  | [] => []
  | part :: parts => part.template col :: Cond.templateAll col parts
termination_by structural parts => parts

end

/-- The path brings no `?` into the text, and neither does the column beside it. -/
def Unasked (col : DocColumn) (path : Path) : Prop :=
  '?' ∉ col.text ∧ ∀ name ∈ path, '?' ∉ name

variable {col : DocColumn} {path : Path}

/-! ## The marked template is the text -/

/-- The marked text of a text in front. -/
@[simp] lemma marked_text (t : Text) (slots : List (Slot Param)) :
    marked '?' (.text t :: slots) = t ++ marked '?' slots := rfl

/-- The marked text of a value in front. -/
@[simp] lemma marked_value (param : Param) (slots : List (Slot Param)) :
    marked '?' (.value param :: slots) = "?".toList ++ marked '?' slots := rfl

/-- The values behind a text. -/
@[simp] lemma values_text (t : Text) (slots : List (Slot Param)) :
    values (.text t :: slots) = values slots := rfl

/-- The values behind a value. -/
@[simp] lemma values_value (param : Param) (slots : List (Slot Param)) :
    values (.value param :: slots) = param :: values slots := rfl

/-- Nothing is marked in no slots. -/
@[simp] lemma marked_nil : marked '?' ([] : List (Slot Param)) = [] := rfl

/-- No slots have no values. -/
@[simp] lemma values_nil : values ([] : List (Slot Param)) = [] := rfl

/-- Separated slots are marked part by part. -/
lemma marked_separatedSlots (separator : Text) (parts : List (List (Slot Param))) :
    marked '?' (separatedSlots separator parts) =
      separator.intercalate (parts.map (marked '?')) := by
  induction parts with
  | nil => rfl
  | cons part parts ih =>
    match parts with
    | [] => simp [separatedSlots, List.intercalate]
    | next :: rest =>
      have hsplit : separatedSlots separator (part :: next :: rest) =
          part ++ .text separator :: separatedSlots separator (next :: rest) := rfl
      rw [hsplit, marked_append, marked_text, ih]
      simp [List.intercalate]

/-- Separators have no values. -/
lemma values_separatedSlots (separator : Text) (parts : List (List (Slot Param))) :
    values (separatedSlots separator parts) = parts.flatMap values := by
  induction parts with
  | nil => rfl
  | cons part parts ih =>
    match parts with
    | [] => simp [separatedSlots]
    | next :: rest =>
      have hsplit : separatedSlots separator (part :: next :: rest) =
          part ++ .text separator :: separatedSlots separator (next :: rest) := rfl
      rw [hsplit, values_append, values_text, ih, ← List.flatMap_cons]

mutual

/-- The template, marked, is the text of the condition. -/
lemma marked_template : ∀ cond : Cond, marked '?' (cond.template col) = cond.text col
  | .one | .zero => rfl
  | .compare operand op param => by
    simp only [Cond.template, marked_text, marked_value, marked_nil, Cond.text, Cond.pieces,
      textOf_append, textOf_code, textOf_nil, List.append_nil, List.append_assoc]
  | .isNull path => by
    rw [text_isNull, Cond.template, marked_text, marked_nil, List.append_nil]
  | .regexp path pattern => by
    rw [text_regexp, Cond.template, marked_text, marked_value, marked_nil, List.append_nil]
  | .contains path candidate => by
    rw [text_contains, Cond.template, marked_text, marked_value, marked_text, marked_nil,
      List.append_nil, List.append_assoc _ "?".toList]
  | .jsonExists path negated => by rw [Cond.template, marked_text, marked_nil, List.append_nil]
  | .inList path negated members => by
    simp only [text_inList, Cond.template, List.cons_append, marked_text, marked_append,
      marked_separatedSlots, List.map_map, marked_nil, List.append_nil, List.append_assoc]
    rfl
  | .junction joiner parts => by
    simp only [Cond.template, List.cons_append, marked_text, marked_append, marked_separatedSlots,
      marked_nil, List.append_nil, marked_templateAll parts, Cond.text, Cond.pieces, textOf_code,
      textOf_append, textOf_nil, textOf_separated, piecesAll_eq_map, List.map_map]
    rfl
  | .not cond => by
    rw [text_not, Cond.template, List.cons_append, marked_text, marked_append, marked_text,
      marked_nil, List.append_nil, marked_template cond, List.append_assoc]
termination_by structural cond => cond

/-- The marked templates of several conditions. -/
lemma marked_templateAll : ∀ conds : List Cond,
    (Cond.templateAll col conds).map (marked '?') = conds.map (Cond.text col)
  | [] => rfl
  | cond :: conds => by
    rw [Cond.templateAll, List.map_cons, marked_template cond, marked_templateAll conds,
      List.map_cons]
termination_by structural conds => conds

end

mutual

/-- The values of the template are the parameters. -/
lemma values_template : ∀ cond : Cond, values (cond.template col) = cond.params
  | .one | .zero | .compare _ _ _ | .isNull _ | .regexp _ _ | .contains _ _ | .jsonExists _ _ => rfl
  | .inList path negated members => by
    have hmembers : (members.map fun param => [Slot.value param]).flatMap values = members := by
      rw [List.flatMap_map]
      exact List.flatMap_singleton' members
    simp only [Cond.template, List.cons_append, values_text, values_append, values_separatedSlots,
      hmembers, values_nil, List.append_nil, Cond.params]
  | .junction joiner parts => by
    simp only [Cond.template, List.cons_append, values_text, values_append, values_separatedSlots,
      values_nil, List.append_nil, Cond.params, values_templateAll parts]
  | .not cond => by
    simp only [Cond.template, List.cons_append, values_text, values_append, values_nil,
      List.append_nil, Cond.params, values_template cond]
termination_by structural cond => cond

/-- The values of several templates. -/
lemma values_templateAll : ∀ conds : List Cond,
    (Cond.templateAll col conds).flatMap values = Cond.paramsAll conds
  | [] => rfl
  | cond :: conds => by
    rw [Cond.templateAll, List.flatMap_cons, values_template cond, values_templateAll conds,
      Cond.paramsAll]
termination_by structural conds => conds

end

/-! ## Question marks -/

/-- A character of joined parts that is not in the separator is in one of the parts. -/
lemma mem_intercalate_iff {c : Char} {separator : Text} (hc : c ∉ separator) {parts : List Text} :
    c ∈ separator.intercalate parts ↔ ∃ part ∈ parts, c ∈ part := by
  induction parts with
  | nil => simp [List.intercalate]
  | cons part parts ih =>
    match parts with
    | [] => simp [List.intercalate]
    | next :: rest =>
      rw [List.intercalate_cons_cons, List.mem_append, List.mem_append, ih]
      simp [hc]

/-- Escaping adds no question mark. -/
lemma mem_escapeMember_iff {name : Text} : '?' ∈ escapeMember name ↔ '?' ∈ name := by
  simp only [escapeMember, List.mem_flatMap]
  constructor
  · rintro ⟨c, hc, hmem⟩
    by_cases hescape : c = '"' ∨ c = '\\'
    · rw [if_pos hescape] at hmem
      rcases hescape with rfl | rfl <;> simp at hmem
    · rw [if_neg hescape, List.mem_singleton] at hmem
      exact hmem ▸ hc
  · intro hmem
    exact ⟨'?', hmem, by decide⟩

/-- The text of a path has a question mark when one of its names has. -/
lemma mem_toJsonPath_iff : '?' ∈ toJsonPath path ↔ ∃ name ∈ path, '?' ∈ name := by
  simp [toJsonPath, mem_escapeMember_iff]

/-- The names of the wrappers have no question mark. -/
lemma not_mem_of_wrapper {wrapper : Path} (h : wrapper ∈ scalarWrappers) :
    ∀ name ∈ wrapper, '?' ∉ name := by
  revert wrapper
  decide

/-- A column and a JSON path bring no question mark. -/
lemma unasked_iff : Unasked col path ↔ '?' ∉ col.text ∧ '?' ∉ toJsonPath path := by
  rw [mem_toJsonPath_iff, Unasked]
  push Not
  rfl

/-- Names that bring no question mark do not matter. -/
lemma unasked_append {wrapper : Path} (h : ∀ name ∈ wrapper, '?' ∉ name) :
    Unasked col (path ++ wrapper) ↔ Unasked col path := by
  rw [Unasked, Unasked, List.forall_mem_append]
  exact and_congr_right' (and_iff_left h)

/-- `JSON_VALUE` of a path. -/
lemma not_mem_jsonValuePieces_iff {t : Text} :
    '?' ∉ textOf (jsonValuePieces col t) ↔ '?' ∉ col.text ∧ '?' ∉ t := by
  simp [jsonValuePieces]

/-- `scalar_expr` has no question mark when the path brings none. -/
lemma not_mem_valueText_iff : '?' ∉ valueText col path ↔ Unasked col path := by
  have hjoined : '?' ∉ ",".toList.intercalate ((scalarWrappers.map fun wrapper =>
      jsonValuePieces col (toJsonPath (path ++ wrapper))).map textOf) ↔ Unasked col path := by
    rw [mem_intercalate_iff (by decide), List.map_map]
    push Not
    rw [List.forall_mem_map]
    constructor
    · intro h
      have hfirst := not_mem_jsonValuePieces_iff.1 (h [] (by decide))
      rwa [List.append_nil, ← unasked_iff] at hfirst
    · intro h wrapper hwrapper
      have happend := (unasked_append (not_mem_of_wrapper hwrapper)).2 h
      exact not_mem_jsonValuePieces_iff.2 (unasked_iff.1 happend)
  rw [← hjoined, valueText, scalarPieces, List.cons_append, textOf_code, textOf_append,
    textOf_separated]
  simp

/-- One half of a timestamp. -/
lemma not_mem_ordinalPart_iff {name : Text} (hname : '?' ∉ name) :
    '?' ∉ textOf (ordinalPart col path name) ↔ Unasked col path := by
  have hpath : Unasked col (path ++ ["$timestamp".toList]) ↔ Unasked col path :=
    unasked_append (by decide)
  rw [← hpath, unasked_iff]
  simp [ordinalPart, jsonValuePieces, hname]

/-- An operand has no question mark when its path brings none. -/
lemma not_mem_operand_iff (operand : Operand) :
    '?' ∉ textOf (operand.pieces col) ↔ Unasked col operand.path := by
  cases operand with
  | scalar path => exact not_mem_valueText_iff
  | double path =>
    rw [Operand.path, ← not_mem_valueText_iff]
    simp [Operand.pieces, valueText]
  | ordinal path =>
    have ht : '?' ∉ textOf (ordinalPart col path "t".toList) ↔ Unasked col path :=
      not_mem_ordinalPart_iff (by decide)
    have hi : '?' ∉ textOf (ordinalPart col path "i".toList) ↔ Unasked col path :=
      not_mem_ordinalPart_iff (by decide)
    have hsplit : '?' ∉ textOf ((Operand.ordinal path).pieces col) ↔
        '?' ∉ textOf (ordinalPart col path "t".toList) ∧
          '?' ∉ textOf (ordinalPart col path "i".toList) := by
      simp [Operand.pieces]
    rw [hsplit, ht, hi, and_self_iff]
    rfl

/-! ## Texts without question marks -/

/-- A text in front is free of question marks when it has none. -/
@[simp] lemma unmarked_text (t : Text) (slots : List (Slot Param)) :
    Unmarked '?' (.text t :: slots) ↔ '?' ∉ t ∧ Unmarked '?' slots := by
  simp [Unmarked]

/-- A value in front is no text. -/
@[simp] lemma unmarked_value (param : Param) (slots : List (Slot Param)) :
    Unmarked '?' (.value param :: slots) ↔ Unmarked '?' slots := by
  simp [Unmarked]

/-- No slots are free of question marks. -/
@[simp] lemma unmarked_nil : Unmarked '?' ([] : List (Slot Param)) := nofun

/-- Separated slots are free of question marks when every part is. -/
lemma unmarked_separatedSlots {separator : Text} (hseparator : '?' ∉ separator)
    {parts : List (List (Slot Param))} :
    Unmarked '?' (separatedSlots separator parts) ↔ ∀ part ∈ parts, Unmarked '?' part := by
  induction parts with
  | nil => simp [separatedSlots]
  | cons part parts ih =>
    match parts with
    | [] => simp [separatedSlots]
    | next :: rest =>
      have hsplit : separatedSlots separator (part :: next :: rest) =
          part ++ .text separator :: separatedSlots separator (next :: rest) := rfl
      rw [hsplit, unmarked_append, unmarked_text, ih, List.forall_mem_cons]
      simp [hseparator]

/-- Operators have no question mark. -/
lemma not_mem_op (op : CompareOp) : '?' ∉ op.text := by cases op <;> decide

/-- Joiners have no question mark. -/
lemma not_mem_joiner (joiner : Joiner) : '?' ∉ joiner.text := by cases joiner <;> decide

mutual

/-- The template of a condition is free of question marks exactly when the paths it reads bring
none. -/
lemma unmarked_template : ∀ cond : Cond,
    Unmarked '?' (cond.template col) ↔ ∀ path ∈ cond.paths, Unasked col path
  | .one | .zero => by simp [Cond.template, Cond.paths]
  | .compare operand op param => by
    rw [Cond.template, unmarked_text, List.mem_append, not_or, not_mem_operand_iff]
    simp [Cond.paths, not_mem_op]
  | .isNull path => by
    rw [Cond.template, unmarked_text, List.mem_append, not_or, not_mem_valueText_iff]
    simp [Cond.paths]
  | .regexp path pattern => by
    rw [Cond.template, unmarked_text, List.mem_append, not_or, not_mem_valueText_iff]
    simp [Cond.paths]
  | .contains path candidate => by
    have hextract : '?' ∉ extractText col path ↔ Unasked col path := by
      rw [unasked_iff]
      simp [extractText]
    rw [Cond.template, unmarked_text, unmarked_value, unmarked_text, List.mem_append,
      List.mem_append, not_or, not_or, hextract]
    simp [Cond.paths]
  | .jsonExists path negated => by
    have htest : '?' ∉ (Cond.jsonExists path negated).text col ↔ Unasked col path := by
      rw [unasked_iff]
      cases negated <;> simp [Cond.text, Cond.pieces]
    rw [Cond.template, unmarked_text, htest]
    simp [Cond.paths]
  | .inList path negated members => by
    have hmembers : ∀ part ∈ members.map fun param => [Slot.value param], Unmarked '?' part := by
      simp
    rw [Cond.template, List.cons_append, unmarked_text, unmarked_append,
      unmarked_separatedSlots (by decide), List.mem_append, not_or, not_mem_valueText_iff]
    cases negated <;> simp [Cond.paths]
  | .junction joiner parts => by
    rw [Cond.template, List.cons_append, unmarked_text, unmarked_append,
      unmarked_separatedSlots (not_mem_joiner joiner), unmarked_templateAll parts]
    simp [Cond.paths]
  | .not cond => by
    rw [Cond.template, List.cons_append, unmarked_text, unmarked_append, unmarked_template cond]
    simp [Cond.paths]
termination_by structural cond => cond

/-- The templates of several conditions. -/
lemma unmarked_templateAll : ∀ conds : List Cond,
    (∀ part ∈ Cond.templateAll col conds, Unmarked '?' part) ↔
      ∀ path ∈ Cond.pathsAll conds, Unasked col path
  | [] => by simp [Cond.templateAll, Cond.pathsAll]
  | cond :: conds => by
    rw [Cond.templateAll, List.forall_mem_cons, Cond.pathsAll, List.forall_mem_append,
      unmarked_template cond, unmarked_templateAll conds]
termination_by structural conds => conds

end

/-- **Placeholders and parameters line up exactly when no tested path has a question mark.**  For
every accepted filter, the emitted text has one `?` for each parameter, and rendering it puts the
print of every operand's value into its place and changes nothing else, if and only if no path that
the filter tests, nor the column when there is such a path, has a `?`. -/
theorem placeholders_align_iff (session : SqlSession) {L : Libbson} {filter : Doc} {cond : Cond}
    {out : SqlFilter} (hcond : compileDocument L filter = .ok cond)
    (hout : emitFilter L col filter = .ok out) :
    (out.sql.count '?' = out.params.length ∧
        session.render out.sql out.params = .ok (filled session.literal (cond.template col))) ↔
      ∀ path ∈ (filterQuery filter).paths, Unasked col path := by
  have hpaths : (∀ path ∈ (filterQuery filter).paths, Unasked col path) ↔
      Unmarked '?' (cond.template col) := by
    rw [unmarked_template]
    simp only [((outlines_compileRelation L).document hcond).paths]
  have hemitted : out = { sql := cond.text col, params := cond.params } := by
    rw [emitFilter_eq, compileFilter, hcond] at hout
    exact (Except.ok.inj hout).symm
  subst hemitted
  rw [hpaths, SqlSession.render, ← marked_template cond, ← values_template cond,
    fill_marked_iff]
  exact and_iff_right_of_imp (count_marked (cond.template col)).2.2

/-- How a session that prints no escapes prints values. -/
def SqlSession.plain : SqlSession where
  number d := decimal d.bits.toNat
  quote s := '\'' :: s ++ ['\'']
  jsonText _ := []

/-- A list of two members, one of them a text with a question mark. -/
theorem placeholders_align_iff_list :
    let filter := [("n".toList, Value.document
      [("$in".toList, .array (makeArray [.utf8 "x?".toList, .int32 7]))])]
    ∃ out, emitFilter .ofStrings .doc filter = .ok out ∧
      out.params = [.text "x?".toList, .int 7] ∧ out.sql.count '?' = 2 := by
  intro filter
  have hcond : compileDocument .ofStrings filter =
      .ok (.inList ["n".toList] false [.text "x?".toList, .int 7]) := rfl
  obtain ⟨out, hout, hparams⟩ : ∃ out, emitFilter .ofStrings .doc filter = .ok out ∧
      out.params = [.text "x?".toList, .int 7] := ⟨_, rfl, rfl⟩
  have hpaths : ∀ path ∈ (filterQuery filter).paths, Unasked .doc path := by
    have hquery : (filterQuery filter).paths = [["n".toList]] := rfl
    rw [hquery]
    unfold Unasked
    decide
  have hcount := ((placeholders_align_iff .plain hcond hout).2 hpaths).1
  rw [hparams] at hcount
  exact ⟨out, hout, hparams, hcount⟩

/-- A question mark in a field name is taken for a placeholder: the test for presence has no
parameter, and rendering it raises an error. -/
theorem placeholder_in_name :
    ∃ out, emitFilter .ofStrings .doc
        [("a?".toList, .document [("$exists".toList, .bool true)])] = .ok out ∧
      out.sql.count '?' = 1 ∧ out.params = [] ∧
      SqlSession.plain.render out.sql out.params =
        .error (internalError "more placeholders than parameters".toList) :=
  ⟨⟨"JSON_EXISTS(doc,'$.\"a?\"')".toList, []⟩, rfl, by decide, rfl, rfl⟩

end Chimera

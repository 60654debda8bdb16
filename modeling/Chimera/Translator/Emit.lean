import Chimera.Translator.FilterText

/-!
# Emitting SQL

The compiler of the source concatenates texts, and pushes a parameter to the side whenever it
writes a placeholder.  Here it is as it stands there, with the list of parameters as a state.  Its
text is that of the condition's tree, and its parameters are those of the tree in order, so that
what is proved about the trees is true of what is emitted.
-/

namespace Chimera

open QuotedText

/-- A part of the compiler that pushes parameters, and may raise an error. -/
abbrev Emit := StateT (List Param) (Except TranslatorError)

/-! ## The compiler -/

/-- Push a parameter, and write its placeholder. -/
def push (param : Param) : Emit Text := do
  modify (· ++ [param])
  return "?".toList

/-- `bind`. -/
def emitBind (v : Value) : Emit Text := do push (← bindValue v)

/-- `conjoin`. -/
def conjoinText (joiner : Text) : List Text → Text
  | [part] => part
  | parts => "(".toList ++ joiner.intercalate parts ++ ")".toList

/-- `value_expr`. -/
def valueText (col : DocColumn) (path : Path) : Text := textOf (scalarPieces col path)

/-- `extract_expr`. -/
def extractText (col : DocColumn) (path : Path) : Text :=
  textOf [.code ("JSON_EXTRACT(".toList ++ col.text), .code ",".toList, .literal (toJsonPath path),
    .code ")".toList]

/-- `comparable`, as text. -/
def comparableText (col : DocColumn) (path : Path) (v : Value) : Text :=
  textOf ((comparable path v).pieces col)

/-- `JSON_CONTAINS` of a candidate. -/
def emitContains (col : DocColumn) (path : Path) (candidate : Json) : Emit Text :=
  return "JSON_CONTAINS(".toList ++ extractText col path ++ ", ".toList ++
    (← push (.json candidate)) ++ ")".toList

section Compiler

variable (L : Libbson) (col : DocColumn)

/-- `compile_eq`, as the source emits it. -/
def emitEq (path : Path) (v : Value) : Emit Text :=
  match v with
  | .null => return valueText col path ++ " IS NULL".toList
  | .regex pattern _ =>
    return valueText col path ++ " REGEXP ".toList ++ (← push (.text pattern))
  | .document _ | .array _ =>
    throw (notImplemented "equality against a document or array is not supported".toList)
  | v => do
    let eq := comparableText col path v ++ " = ".toList ++ (← emitBind v)
    let contains ← emitContains col path (← canonicalLiteral L v)
    return "(".toList ++ eq ++ " OR ".toList ++ contains ++ ")".toList

/-- A comparison, as the source emits it. -/
def emitCompare (path : Path) (op : CompareOp) (v : Value) : Emit Text :=
  return comparableText col path v ++ op.text ++ (← emitBind v)

/-- `compile_in`, as the source emits it. -/
def emitIn (path : Path) (v : Value) (negated : Bool) : Emit Text := do
  let members ← arrayValues v
  if members.isEmpty then return if negated then "1".toList else "0".toList
  let list ← members.mapM emitBind
  return valueText col path ++ (if negated then " NOT IN (".toList else " IN (".toList) ++
    ", ".toList.intercalate list ++ ")".toList

/-- `$exists`, as the source emits it. -/
def existsText (path : Path) (v : Value) : Text :=
  let test := "JSON_EXISTS(".toList ++ col.text ++ ",'".toList ++ toJsonPath path ++ "')".toList
  if wantsPresence v then test else "NOT ".toList ++ test

/-- `$regex`, as the source emits it. -/
def emitRegex (path : Path) : Value → Emit Text
  | .utf8 pattern | .regex pattern _ =>
    return valueText col path ++ " REGEXP ".toList ++ (← push (.text pattern))
  | _ => throw (failedToParse "$regex expects a string or regex".toList)

/-- `$elemMatch`, as the source emits it. -/
def emitElemMatch (path : Path) : Value → Emit Text
  | .document fields =>
    if fields.any fun field => isOperatorName field.1 then
      throw (notImplemented "$elemMatch with operators is not supported yet".toList)
    else do emitContains col path (← L.toExtjson fields)
  | _ => throw (failedToParse "$elemMatch expects a document".toList)

mutual

/-- `compile_operator`, as the source emits it. -/
def emitOperator (path : Path) : Text × Value → Emit Text
  | (op, v) =>
    if op = "$eq".toList then emitEq L col path v
    else if op = "$ne".toList then return "NOT (".toList ++ (← emitEq L col path v) ++ ")".toList
    else if op = "$gt".toList then emitCompare col path .gt v
    else if op = "$gte".toList then emitCompare col path .ge v
    else if op = "$lt".toList then emitCompare col path .lt v
    else if op = "$lte".toList then emitCompare col path .le v
    else if op = "$in".toList then emitIn col path v false
    else if op = "$nin".toList then emitIn col path v true
    else if op = "$exists".toList then return existsText col path v
    else if op = "$regex".toList then emitRegex col path v
    else if op = "$not".toList then emitNot path v
    else if op = "$elemMatch".toList then emitElemMatch L col path v
    else throw (badValue ("unknown operator: ".toList ++ op))
termination_by structural field => field

/-- `$not`, as the source emits it. -/
def emitNot (path : Path) : Value → Emit Text
  | .document ops =>
    return "NOT (".toList ++ conjoinText " AND ".toList (← emitOperators path ops) ++ ")".toList
  | _ => throw (failedToParse "$not expects an operator document".toList)
termination_by structural v => v

/-- The parts of `compile_operators`. -/
def emitOperators (path : Path) : Doc → Emit (List Text)
  | [] => return []
  | op :: ops => return (← emitOperator path op) :: (← emitOperators path ops)
termination_by structural ops => ops

end

/-- `compile_field`, for a name that is not a logical operator, as the source emits it. -/
def emitPath (key : Text) (v : Value) : Emit Text :=
  if isOperatorName key then
    throw (notImplemented ("unsupported top-level operator '".toList ++ key ++ "'".toList))
  else do
    let path ← splitPath key
    match operatorDocument v with
    | some ops => return conjoinText " AND ".toList (← emitOperators L col path ops)
    | none => emitEq L col path v

/-- The end of `compile_document`: no field, no condition. -/
def conjoinFieldsText : List Text → Text
  | [] => "1".toList
  | parts => conjoinText " AND ".toList parts

mutual

/-- `compile_field`, as the source emits it. -/
def emitField : Text × Value → Emit Text
  | (key, v) =>
    if key = "$and".toList then emitLogical " AND ".toList v
    else if key = "$or".toList then emitLogical " OR ".toList v
    else if key = "$nor".toList then
      return "NOT (".toList ++ (← emitLogical " OR ".toList v) ++ ")".toList
    else emitPath L col key v
termination_by structural field => field

/-- `compile_logical`, as the source emits it. -/
def emitLogical (joiner : Text) : Value → Emit Text
  | .array branches =>
    if branches.isEmpty then
      throw (failedToParse "logical operator requires a non-empty array".toList)
    else return conjoinText joiner (← emitBranches branches)
  | _ => throw (typeMismatch "expected an array".toList)
termination_by structural v => v

/-- The parts of `compile_logical`. -/
def emitBranches : Doc → Emit (List Text)
  | [] => return []
  | branch :: branches => return (← emitBranch branch) :: (← emitBranches branches)
termination_by structural branches => branches

/-- One branch of `compile_logical`. -/
def emitBranch : Text × Value → Emit Text
  | (_, .document filter) => return conjoinFieldsText (← emitFields filter)
  | _ => throw (failedToParse "logical operator branches must be documents".toList)
termination_by structural branch => branch

/-- The parts of `compile_document`. -/
def emitFields : Doc → Emit (List Text)
  | [] => return []
  | field :: fields => return (← emitField field) :: (← emitFields fields)
termination_by structural fields => fields

end

/-- `compile_document`, as the source emits it. -/
def emitDocument (filter : Doc) : Emit Text := return conjoinFieldsText (← emitFields L col filter)

/-- `compile_filter`, as the source emits it: the text, and the parameters that were pushed. -/
def emitFilter (filter : Doc) : Except TranslatorError SqlFilter := do
  let (sql, params) ← (emitDocument L col filter).run []
  return { sql, params }

end Compiler

/-! ## Emitting a tree -/

/-- The emitter writes what the tree is written as, and pushes the tree's parameters. -/
def Emits {α β : Type} (text : β → α) (params : β → List Param) (emit : Emit α)
    (compiled : Except TranslatorError β) : Prop :=
  ∀ pushed, emit.run pushed = compiled.map fun b => (text b, pushed ++ params b)

section Emits

variable {α β α' β' : Type} {text : β → α} {text' : β' → α'} {params : β → List Param}
  {params' : β' → List Param} {emit emit' : Emit α} {compiled compiled' : Except TranslatorError β}

/-- An error is raised by both. -/
lemma Emits.throw (e : TranslatorError) : Emits text params (throw e) (.error e) := fun _ => rfl

/-- A text without a placeholder. -/
lemma Emits.pure (b : β) (hparams : params b = []) : Emits text params (pure (text b)) (.ok b) := by
  intro pushed
  change Except.ok (text b, pushed) = Except.ok (text b, pushed ++ params b)
  rw [hparams, List.append_nil]

/-- More text around what was emitted. -/
lemma Emits.map (h : Emits text params emit compiled) {f : α → α'} {g : β → β'}
    (htext : ∀ b, text' (g b) = f (text b)) (hparams : ∀ b, params' (g b) = params b) :
    Emits text' params' (do return f (← emit)) (do return g (← compiled)) := by
  intro pushed
  rw [StateT.run_bind, h pushed]
  cases compiled with
  | error e => rfl
  | ok b =>
    change Except.ok (f (text b), pushed ++ params b) =
      Except.ok (text' (g b), pushed ++ params' (g b))
    rw [htext, hparams]

/-- Both take the same branch. -/
lemma Emits.ite {p : Prop} [Decidable p] (h : Emits text params emit compiled)
    (h' : Emits text params emit' compiled') :
    Emits text params (if p then emit else emit') (if p then compiled else compiled') := by
  by_cases hp : p
  · rwa [if_pos hp, if_pos hp]
  · rwa [if_neg hp, if_neg hp]

/-- One more part, in front. -/
lemma Emits.cons {emits : Emit (List α)} {all : Except TranslatorError (List β)}
    {paramsAll : List β → List Param} (h : Emits text params emit compiled)
    (hs : Emits (List.map text) paramsAll emits all)
    (hcons : ∀ b bs, paramsAll (b :: bs) = params b ++ paramsAll bs) :
    Emits (List.map text) paramsAll (do return (← emit) :: (← emits))
      (do return (← compiled) :: (← all)) := by
  intro pushed
  rw [StateT.run_bind, h pushed]
  cases compiled with
  | error e => rfl
  | ok b =>
    change (do return text b :: (← emits) : Emit (List α)).run (pushed ++ params b) = _
    rw [StateT.run_bind, hs]
    cases all with
    | error e => rfl
    | ok bs =>
      change Except.ok (text b :: bs.map text, pushed ++ params b ++ paramsAll bs) =
        Except.ok ((b :: bs).map text, pushed ++ paramsAll (b :: bs))
      rw [hcons, List.map_cons, List.append_assoc]

/-- What follows a computation that pushes nothing. -/
lemma Emits.bind {γ : Type} {x : Except TranslatorError γ} {emit : γ → Emit α}
    {compiled : γ → Except TranslatorError β} (h : ∀ c, Emits text params (emit c) (compiled c)) :
    Emits text params (do emit (← x)) (do compiled (← x)) := by
  intro pushed
  cases x with
  | error e => rfl
  | ok c => exact h c pushed

end Emits

/-! ## The text of a tree -/

variable {L : Libbson} {col : DocColumn} {path : Path}

/-- The text of a condition. -/
def Cond.text (col : DocColumn) (cond : Cond) : Text := textOf (cond.pieces col)

/-- The text of one piece of code in front of others. -/
@[simp] lemma textOf_code (t : Text) (pieces : List Piece) :
    textOf (.code t :: pieces) = t ++ textOf pieces := rfl

/-- The text of a literal in front of others. -/
@[simp] lemma textOf_literal (t : Text) (pieces : List Piece) :
    textOf (.literal t :: pieces) = '\'' :: t ++ ['\''] ++ textOf pieces := rfl

/-- The text of no pieces. -/
@[simp] lemma textOf_nil : textOf [] = [] := rfl

/-- The text of pieces that follow one another. -/
@[simp] lemma textOf_append (p q : List Piece) : textOf (p ++ q) = textOf p ++ textOf q :=
  List.flatMap_append

/-- The text of separated parts. -/
lemma textOf_separated (separator : Text) (parts : List (List Piece)) :
    textOf (separated separator parts) = separator.intercalate (parts.map textOf) := by
  induction parts with
  | nil => rfl
  | cons part parts ih =>
    match parts with
    | [] => simp [separated, List.intercalate]
    | next :: rest =>
      have hsplit : separated separator (part :: next :: rest) =
          part ++ .code separator :: separated separator (next :: rest) := rfl
      rw [hsplit, textOf_append, textOf_code, ih]
      simp [List.intercalate]

/-- The pieces of several conditions. -/
lemma piecesAll_eq_map (conds : List Cond) :
    Cond.piecesAll col conds = conds.map (Cond.pieces col) := by
  induction conds with
  | nil => rfl
  | cons cond conds ih => rw [Cond.piecesAll, ih, List.map_cons]

/-- The parameters of several conditions. -/
lemma paramsAll_eq_flatMap (conds : List Cond) :
    Cond.paramsAll conds = conds.flatMap Cond.params := by
  induction conds with
  | nil => rfl
  | cons cond conds ih => rw [Cond.paramsAll, ih, List.flatMap_cons]

/-- Two parts are joined between parentheses. -/
lemma conjoinText_pair (joiner first second : Text) :
    conjoinText joiner [first, second] =
      "(".toList ++ first ++ joiner ++ second ++ ")".toList := by
  simp [conjoinText, List.intercalate]

/-- The text of a junction. -/
lemma text_junction (joiner : Joiner) (conds : List Cond) :
    (Cond.junction joiner conds).text col =
      "(".toList ++ joiner.text.intercalate (conds.map (Cond.text col)) ++ ")".toList := by
  rw [Cond.text, Cond.pieces, piecesAll_eq_map, List.cons_append, textOf_code, textOf_append,
    textOf_separated, List.map_map]
  rfl

/-- The text of what is joined. -/
lemma text_conjoin (joiner : Joiner) (conds : List Cond) :
    (conjoin joiner conds).text col = conjoinText joiner.text (conds.map (Cond.text col)) := by
  match conds with
  | [] => exact text_junction joiner []
  | [cond] => rfl
  | _ :: _ :: _ => exact text_junction joiner _

/-- The parameters of a junction. -/
lemma params_conjoin (joiner : Joiner) (conds : List Cond) :
    (conjoin joiner conds).params = conds.flatMap Cond.params := by
  match conds with
  | [] => rfl
  | [cond] => simp [conjoin]
  | _ :: _ :: _ => exact paramsAll_eq_flatMap _

/-- The text of a document's condition. -/
lemma text_conjoinFields (conds : List Cond) :
    (conjoinFields conds).text col = conjoinFieldsText (conds.map (Cond.text col)) := by
  match conds with
  | [] => rfl
  | cond :: conds => exact text_conjoin .and (cond :: conds)

/-- The parameters of a document's condition. -/
lemma params_conjoinFields (conds : List Cond) :
    (conjoinFields conds).params = conds.flatMap Cond.params := by
  match conds with
  | [] => rfl
  | cond :: conds => exact params_conjoin .and (cond :: conds)

/-! ## The emitter writes the tree -/

/-- The emitter writes the condition's text and pushes its parameters. -/
abbrev EmitsCond (col : DocColumn) (emit : Emit Text) (compiled : Except TranslatorError Cond) :
    Prop := Emits (Cond.text col) Cond.params emit compiled

/-- The emitter writes the texts of several conditions. -/
abbrev EmitsConds (col : DocColumn) (emits : Emit (List Text))
    (compiled : Except TranslatorError (List Cond)) : Prop :=
  Emits (List.map (Cond.text col)) (List.flatMap Cond.params) emits compiled

/-- A bound value is one placeholder and one parameter. -/
lemma emits_bind (v : Value) :
    Emits (fun _ => "?".toList) (fun param => [param]) (emitBind v) (bindValue v) := by
  intro pushed
  unfold emitBind
  cases bindValue v <;> rfl

/-- A list of bound values. -/
lemma emits_mapM_bind (vs : List Value) :
    Emits (List.map fun _ => "?".toList) id (vs.mapM emitBind) (vs.mapM bindValue) := by
  induction vs with
  | nil => exact .pure [] rfl
  | cons v vs ih =>
    rw [List.mapM_cons, List.mapM_cons]
    exact (emits_bind v).cons ih fun _ _ => rfl

/-- The text of a comparison. -/
lemma text_compare (op : CompareOp) (v : Value) (param : Param) :
    (Cond.compare (comparable path v) op param).text col =
      comparableText col path v ++ op.text ++ "?".toList := by
  simp only [Cond.text, Cond.pieces, textOf_append, textOf_code, textOf_nil, List.append_nil,
    comparableText, List.append_assoc]

/-- A comparison. -/
lemma emits_compare (op : CompareOp) (v : Value) :
    EmitsCond col (emitCompare col path op v) (compileCompare path op v) := by
  exact (emits_bind v).map (fun param => text_compare op v param) fun param => rfl

/-- The text of a test for null. -/
lemma text_isNull : (Cond.isNull path).text col = valueText col path ++ " IS NULL".toList := by
  simp only [Cond.text, Cond.pieces, textOf_append, textOf_code, textOf_nil, List.append_nil,
    valueText]

/-- The text of a match. -/
lemma text_regexp (pattern : Text) : (Cond.regexp path pattern).text col =
    valueText col path ++ " REGEXP ".toList ++ "?".toList := by
  have hsplit : " REGEXP ?".toList = " REGEXP ".toList ++ "?".toList := rfl
  simp only [Cond.text, Cond.pieces, textOf_append, textOf_code, textOf_nil, List.append_nil,
    valueText, hsplit, List.append_assoc]

/-- The text of a containment. -/
lemma text_contains (candidate : Json) : (Cond.contains path candidate).text col =
    "JSON_CONTAINS(".toList ++ extractText col path ++ ", ".toList ++ "?".toList ++
      ")".toList := by
  have hfront : "JSON_CONTAINS(JSON_EXTRACT(".toList =
      "JSON_CONTAINS(".toList ++ "JSON_EXTRACT(".toList := rfl
  have hback : "), ?)".toList = ")".toList ++ ", ".toList ++ "?".toList ++ ")".toList := rfl
  simp only [Cond.text, Cond.pieces, textOf_code, textOf_literal, textOf_nil, List.append_nil,
    extractText, hfront, hback, List.append_assoc, List.cons_append, List.nil_append]

/-- The text of a test for presence. -/
lemma text_jsonExists (v : Value) :
    (Cond.jsonExists path !wantsPresence v).text col = existsText col path v := by
  have hfront : "NOT JSON_EXISTS(".toList = "NOT ".toList ++ "JSON_EXISTS(".toList := rfl
  have hquote : ",'".toList = ",".toList ++ ['\''] := rfl
  have hback : "')".toList = ['\''] ++ ")".toList := rfl
  cases hwants : wantsPresence v <;>
    simp only [Cond.text, Cond.pieces, textOf_code, textOf_literal, textOf_nil, List.append_nil,
      existsText, hwants, hfront, hquote, hback, Bool.not_true, Bool.not_false, if_true, if_false,
      Bool.false_eq_true, List.append_assoc, List.cons_append, List.nil_append]

/-- The text of a list test. -/
lemma text_inList (negated : Bool) (members : List Param) :
    (Cond.inList path negated members).text col =
      valueText col path ++ (if negated then " NOT IN (".toList else " IN (".toList) ++
        ", ".toList.intercalate (members.map fun _ => "?".toList) ++ ")".toList := by
  simp only [Cond.text, Cond.pieces, textOf_append, textOf_code, textOf_nil, List.append_nil,
    valueText, textOf_separated, List.map_map, List.append_assoc, List.cons_append]
  rfl

/-- The text of a negation. -/
lemma text_not (cond : Cond) :
    cond.not.text col = "NOT (".toList ++ cond.text col ++ ")".toList := by
  simp only [Cond.text, Cond.pieces, List.cons_append, textOf_code, textOf_append, textOf_nil,
    List.append_nil, List.append_assoc]

/-- The negation of what was emitted. -/
lemma Emits.negated {emit : Emit Text} {compiled : Except TranslatorError Cond}
    (h : EmitsCond col emit compiled) :
    EmitsCond col (do return "NOT (".toList ++ (← emit) ++ ")".toList)
      (do return .not (← compiled)) :=
  h.map (fun cond => text_not cond) fun _ => rfl

/-- A parameter that is pushed is one placeholder. -/
lemma emits_push {β : Type} (param : β → Param) (b : β) :
    Emits (fun _ => "?".toList) (fun b => [param b]) (push (param b)) (.ok b) := fun _ => rfl

/-- A match of a pattern. -/
lemma emits_regexp (pattern : Text) :
    EmitsCond col (do return valueText col path ++ " REGEXP ".toList ++ (← push (.text pattern)))
      (do return .regexp path (← .ok pattern)) :=
  (emits_push Param.text pattern).map text_regexp fun _ => rfl

/-- A containment of a candidate. -/
lemma emits_candidate (candidate : Json) :
    EmitsCond col (emitContains col path candidate) (do return .contains path (← .ok candidate)) :=
  (emits_push Param.json candidate).map text_contains fun _ => rfl

/-- Containment. -/
lemma emits_contains (candidate : Except TranslatorError Json) :
    EmitsCond col (do emitContains col path (← candidate))
      (do return .contains path (← candidate)) :=
  .bind emits_candidate

/-- Equality with a scalar: the two readings of it, one after the other. -/
lemma emits_scalar (v : Value) :
    EmitsCond col
      (do
        let eq := comparableText col path v ++ " = ".toList ++ (← emitBind v)
        let contains ← emitContains col path (← canonicalLiteral L v)
        return "(".toList ++ eq ++ " OR ".toList ++ contains ++ ")".toList)
      (do
        let param ← bindValue v
        let literal ← canonicalLiteral L v
        return .junction .or [.compare (comparable path v) .eq param, .contains path literal]) := by
  intro pushed
  have hbind := emits_bind v pushed
  rw [StateT.run_bind, hbind]
  cases bindValue v with
  | error e => rfl
  | ok param =>
    cases hliteral : canonicalLiteral L v with
    | error e => rfl
    | ok literal =>
      have htext : (Cond.junction .or [.compare (comparable path v) .eq param,
          .contains path literal]).text col = "(".toList ++ (comparableText col path v ++
            " = ".toList ++ "?".toList) ++ " OR ".toList ++ ("JSON_CONTAINS(".toList ++
              extractText col path ++ ", ".toList ++ "?".toList ++ ")".toList) ++ ")".toList := by
        have hjunction := @text_conjoin col .or
          [.compare (comparable path v) .eq param, .contains path literal]
        rw [List.map_cons, List.map_cons, List.map_nil, text_contains, text_compare,
          conjoinText_pair] at hjunction
        exact hjunction
      change Except.ok (_, pushed ++ [param] ++ [.json literal]) = Except.ok
        ((Cond.junction .or [.compare (comparable path v) .eq param, .contains path literal]).text
          col, pushed ++ [param, .json literal])
      have hpushed : pushed ++ [param] ++ [Param.json literal] =
          pushed ++ [param, .json literal] := List.append_assoc pushed [param] _
      rw [htext, hpushed]

/-- Equality. -/
lemma emits_eq (v : Value) : EmitsCond col (emitEq L col path v) (compileEq L path v) := by
  intro pushed
  cases v with
  | null =>
    have hpure : EmitsCond col (pure ((Cond.isNull path).text col)) (.ok (.isNull path)) :=
      .pure _ rfl
    rw [text_isNull] at hpure
    exact hpure pushed
  | regex pattern options => exact emits_regexp pattern pushed
  | document fields => rfl
  | array fields => rfl
  | _ => exact emits_scalar _ pushed

/-- A list test. -/
lemma emits_in (v : Value) (negated : Bool) :
    EmitsCond col (emitIn col path v negated) (compileIn path v negated) := by
  refine .bind fun members => .ite ?_ ?_
  · cases negated with
    | false => exact Emits.pure Cond.zero rfl
    | true => exact Emits.pure Cond.one rfl
  · exact (emits_mapM_bind members).map (fun params => text_inList negated params) fun _ => rfl

/-- `$regex`. -/
lemma emits_regex (v : Value) : EmitsCond col (emitRegex col path v) (compileRegex path v) := by
  cases v with
  | utf8 pattern => exact emits_regexp pattern
  | regex pattern options => exact emits_regexp pattern
  | _ => exact .throw _

/-- `$elemMatch`. -/
lemma emits_elemMatch (v : Value) :
    EmitsCond col (emitElemMatch L col path v) (compileElemMatch L path v) := by
  cases v with
  | document fields =>
    unfold emitElemMatch compileElemMatch
    exact .ite (.throw _) (emits_contains (L.toExtjson fields))
  | _ => exact .throw _

mutual

/-- One operator on a path. -/
lemma emits_operator : ∀ field : Text × Value,
    EmitsCond col (emitOperator L col path field) (compileOperator L path field)
  | (op, v) => by
    unfold emitOperator compileOperator
    refine .ite (emits_eq v) (.ite ?ne (.ite (emits_compare .gt v) (.ite (emits_compare .ge v)
      (.ite (emits_compare .lt v) (.ite (emits_compare .le v) (.ite (emits_in v false)
        (.ite (emits_in v true) (.ite ?presence (.ite (emits_regex v) (.ite (emits_not v)
          (.ite (emits_elemMatch v) (.throw _))))))))))))
    case ne => exact (emits_eq v).negated
    case presence =>
      have hpure : EmitsCond col (pure ((Cond.jsonExists path !wantsPresence v).text col))
          (.ok (.jsonExists path !wantsPresence v)) := .pure _ rfl
      rw [text_jsonExists] at hpure
      exact hpure
termination_by structural field => field

/-- `$not`. -/
lemma emits_not : ∀ v : Value, EmitsCond col (emitNot L col path v) (compileNot L path v)
  | .document ops => by
    refine (emits_operators ops).map (fun conds => ?_) fun conds => params_conjoin .and conds
    rw [text_not, text_conjoin]
    rfl
  | .double _ | .utf8 _ | .array _ | .binary _ _ | .undefined | .oid _ | .bool _ | .dateTime _
  | .null | .regex _ _ | .dbPointer _ _ | .code _ | .symbol _ | .codeWScope _ _ | .int32 _
  | .timestamp _ _ | .int64 _ | .decimal128 _ | .minKey | .maxKey => .throw _
termination_by structural v => v

/-- The operators on a path. -/
lemma emits_operators : ∀ ops : Doc,
    EmitsConds col (emitOperators L col path ops) (compileOperators L path ops)
  | [] => .pure [] rfl
  | op :: ops => (emits_operator op).cons (emits_operators ops) fun _ _ => rfl
termination_by structural ops => ops

end

/-- A field that is not a logical operator. -/
lemma emits_path (key : Text) (v : Value) :
    EmitsCond col (emitPath L col key v) (compilePath L key v) := by
  unfold emitPath compilePath
  refine .ite (.throw _) (.bind fun path => ?_)
  cases operatorDocument v with
  | some ops =>
    exact (emits_operators ops).map (fun conds => text_conjoin .and conds)
      fun conds => params_conjoin .and conds
  | none => exact emits_eq v

/-- The parts of a document. -/
lemma Emits.fields {emits : Emit (List Text)} {compiled : Except TranslatorError (List Cond)}
    (h : EmitsConds col emits compiled) :
    EmitsCond col (do return conjoinFieldsText (← emits)) (do return conjoinFields (← compiled)) :=
  h.map (fun conds => text_conjoinFields conds) fun conds => params_conjoinFields conds

mutual

/-- A field. -/
lemma emits_field : ∀ field : Text × Value,
    EmitsCond col (emitField L col field) (compileField L field)
  | (key, v) => by
    unfold emitField compileField
    exact .ite (emits_logical v .and) (.ite (emits_logical v .or)
      (.ite (emits_logical v .or).negated (emits_path key v)))
termination_by structural field => field

/-- A logical operator. -/
lemma emits_logical : ∀ (v : Value) (joiner : Joiner),
    EmitsCond col (emitLogical L col joiner.text v) (compileLogical L joiner v)
  | .array branches, joiner => by
    unfold emitLogical compileLogical
    refine .ite (.throw _) ?_
    exact (emits_branches branches).map (fun conds => text_conjoin joiner conds)
      fun conds => params_conjoin joiner conds
  | .double _, _ | .utf8 _, _ | .document _, _ | .binary _ _, _ | .undefined, _ | .oid _, _
  | .bool _, _ | .dateTime _, _ | .null, _ | .regex _ _, _ | .dbPointer _ _, _ | .code _, _
  | .symbol _, _ | .codeWScope _ _, _ | .int32 _, _ | .timestamp _ _, _ | .int64 _, _
  | .decimal128 _, _ | .minKey, _ | .maxKey, _ => .throw _
termination_by structural v => v

/-- The branches of a logical operator. -/
lemma emits_branches : ∀ branches : Doc,
    EmitsConds col (emitBranches L col branches) (compileBranches L branches)
  | [] => .pure [] rfl
  | branch :: branches => (emits_branch branch).cons (emits_branches branches) fun _ _ => rfl
termination_by structural branches => branches

/-- One branch. -/
lemma emits_branch : ∀ branch : Text × Value,
    EmitsCond col (emitBranch L col branch) (compileBranch L branch)
  | (_, .document filter) => (emits_fieldList filter).fields
  | (_, .double _) | (_, .utf8 _) | (_, .array _) | (_, .binary _ _) | (_, .undefined) | (_, .oid _)
  | (_, .bool _) | (_, .dateTime _) | (_, .null) | (_, .regex _ _) | (_, .dbPointer _ _)
  | (_, .code _) | (_, .symbol _) | (_, .codeWScope _ _) | (_, .int32 _) | (_, .timestamp _ _)
  | (_, .int64 _) | (_, .decimal128 _) | (_, .minKey) | (_, .maxKey) => .throw _
termination_by structural branch => branch

/-- The fields of a document. -/
lemma emits_fieldList : ∀ fields : Doc,
    EmitsConds col (emitFields L col fields) (compileFields L fields)
  | [] => .pure [] rfl
  | field :: fields => (emits_field field).cons (emits_fieldList fields) fun _ _ => rfl
termination_by structural fields => fields

end

/-- **The emitter writes the tree.**  What the compiler of the source emits, text and parameters,
is the text of the compiled condition and its parameters in the order of their placeholders. -/
theorem emitFilter_eq (L : Libbson) (col : DocColumn) (filter : Doc) :
    emitFilter L col filter = compileFilter L filter col := by
  have hdocument : EmitsCond col (emitDocument L col filter) (compileDocument L filter) :=
    (emits_fieldList filter).fields
  unfold emitFilter compileFilter
  rw [hdocument []]
  cases compileDocument L filter <;> rfl

end Chimera

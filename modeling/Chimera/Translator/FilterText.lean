import Chimera.Foundations.QuotedText
import Chimera.Translator.Query

/-!
# The text of a filter

The SQL that `compile_filter` emits and the SQL that `create_index` splices into its
`ALTER TABLE`.  JSON paths are put between single quotes as they are: `to_json_path` escapes
what means something inside a JSON path, and nothing escapes what means something inside an SQL
literal.
-/

namespace Chimera

open QuotedText

/-- The expression that holds the stored document.  It leaves SQL's lexer outside literals. -/
structure DocColumn where
  /-- The text of the expression. -/
  text : Text
  /-- Its literals are closed. -/
  closed : (scan .outside text).1 = .outside

/-- The column of a collection's table. -/
def DocColumn.doc : DocColumn := ⟨"doc".toList, by decide⟩

/-! ## Emitting SQL -/

/-- `JSON_VALUE` of a path. -/
def jsonValuePieces (col : DocColumn) (jsonPath : Text) : List Piece :=
  [.code ("JSON_VALUE(".toList ++ col.text), .code ",".toList, .literal jsonPath,
    .code ")".toList]

/-- Pieces with a separator between them. -/
def separated (separator : Text) : List (List Piece) → List Piece
  | [] => []
  | [part] => part
  | part :: parts => part ++ .code separator :: separated separator parts

/-- `scalar_expr`. -/
def scalarPieces (col : DocColumn) (path : Path) : List Piece :=
  .code "COALESCE(".toList ::
    separated ",".toList (scalarWrappers.map fun wrapper =>
      jsonValuePieces col (toJsonPath (path ++ wrapper))) ++ [.code ")".toList]

/-- One half of a timestamp. -/
def ordinalPart (col : DocColumn) (path : Path) (name : Text) : List Piece :=
  .code "CAST(".toList ::
    jsonValuePieces col (toJsonPath (path ++ ["$timestamp".toList]) ++ '.' :: name) ++
      [.code " AS UNSIGNED)".toList]

/-- `comparable`, as text. -/
def Operand.pieces (col : DocColumn) : Operand → List Piece
  | .scalar path => scalarPieces col path
  | .double path => .code "CAST(".toList :: scalarPieces col path ++ [.code " AS DOUBLE)".toList]
  | .ordinal path =>
    .code "(".toList :: ordinalPart col path "t".toList ++ .code " * 4294967296 + ".toList ::
      ordinalPart col path "i".toList ++ [.code ")".toList]

/-- An operator of SQL, as text. -/
def CompareOp.text : CompareOp → Text
  | .eq => " = ".toList
  | .gt => " > ".toList
  | .ge => " >= ".toList
  | .lt => " < ".toList
  | .le => " <= ".toList

/-- A joiner, as text. -/
def Joiner.text : Joiner → Text
  | .and => " AND ".toList
  | .or => " OR ".toList

mutual

/-- The SQL of a condition. -/
def Cond.pieces (col : DocColumn) : Cond → List Piece
  | .one => [.code "1".toList]
  | .zero => [.code "0".toList]
  | .compare operand op _ => operand.pieces col ++ [.code op.text, .code "?".toList]
  | .isNull path => scalarPieces col path ++ [.code " IS NULL".toList]
  | .regexp path _ => scalarPieces col path ++ [.code " REGEXP ?".toList]
  | .contains path _ =>
    [.code ("JSON_CONTAINS(JSON_EXTRACT(".toList ++ col.text), .code ",".toList,
      .literal (toJsonPath path), .code "), ?)".toList]
  | .jsonExists path negated =>
    [.code ((if negated then "NOT JSON_EXISTS(".toList else "JSON_EXISTS(".toList) ++ col.text),
      .code ",".toList, .literal (toJsonPath path), .code ")".toList]
  | .inList path negated members =>
    scalarPieces col path ++ .code (if negated then " NOT IN (".toList else " IN (".toList) ::
      separated ", ".toList (members.map fun _ => [.code "?".toList]) ++ [.code ")".toList]
  | .junction joiner parts =>
    .code "(".toList :: separated joiner.text (Cond.piecesAll col parts) ++ [.code ")".toList]
  | .not cond => .code "NOT (".toList :: cond.pieces col ++ [.code ")".toList]
termination_by structural cond => cond

/-- The SQL of several conditions. -/
def Cond.piecesAll (col : DocColumn) : List Cond → List (List Piece)
  | [] => []
  | part :: parts => part.pieces col :: Cond.piecesAll col parts
termination_by structural parts => parts

end

mutual

/-- The parameters of a condition, in the order of their placeholders. -/
def Cond.params : Cond → List Param
  | .compare _ _ param => [param]
  | .regexp _ pattern => [.text pattern]
  | .contains _ candidate => [.json candidate]
  | .inList _ _ members => members
  | .junction _ parts => Cond.paramsAll parts
  | .not cond => cond.params
  | _ => []
termination_by structural cond => cond

/-- The parameters of several conditions. -/
def Cond.paramsAll : List Cond → List Param
  | [] => []
  | part :: parts => part.params ++ Cond.paramsAll parts
termination_by structural parts => parts

end

/-- `SqlFilter`. -/
structure SqlFilter where
  /-- A boolean expression over the stored document. -/
  sql : Text
  /-- One value for each placeholder. -/
  params : List Param

/-- `compile_filter`. -/
def compileFilter (L : Libbson) (filter : Doc) (col : DocColumn) :
    Except TranslatorError SqlFilter := do
  let cond ← compileDocument L filter
  return { sql := textOf (cond.pieces col), params := cond.params }

/-! ## Path texts -/

/-- The path has no quote, double quote or backslash in any of its names. -/
def CleanPath (path : Path) : Prop := ∀ name ∈ path, ∀ c ∈ name, c ≠ '\'' ∧ c ≠ '"' ∧ c ≠ '\\'

/-- Member by member and character by character. -/
instance (path : Path) : Decidable (CleanPath path) :=
  @List.decidableBAll _ _ (fun name => List.decidableBAll _ name) path

/-- A member is escaped as the lexer expects. -/
lemma escaped_escapeMember (member : Text) : Escaped (escapeMember member) := by
  induction member with
  | nil => exact .nil
  | cons c member ih =>
    have hcons : escapeMember (c :: member) =
        (if c = '"' ∨ c = '\\' then ['\\', c] else [c]) ++ escapeMember member := rfl
    rw [hcons]
    split
    · rename_i hc
      exact .pair hc ih
    · rename_i hc
      exact .char (fun h => hc (.inr h)) ih

/-- The text of a path is escaped as the lexer expects. -/
lemma escaped_toJsonPath (path : Path) : Escaped (toJsonPath path) := by
  refine .char (by decide) ?_
  induction path with
  | nil => exact .nil
  | cons member path ih =>
    rw [List.flatMap_cons]
    refine Escaped.append ?_ ih
    exact .char (by decide) (.char (by decide)
      ((escaped_escapeMember member).append (.char (by decide) .nil)))

/-- Plain texts follow one another. -/
lemma plain_append {t u : Text} : Plain (t ++ u) ↔ Plain t ∧ Plain u := List.forall_mem_append

/-- A member stays plain when it has nothing to escape and no quote. -/
lemma plain_escapeMember {member : Text} :
    Plain (escapeMember member) ↔ ∀ c ∈ member, c ≠ '\'' ∧ c ≠ '"' ∧ c ≠ '\\' := by
  induction member with
  | nil => simp [Plain, escapeMember]
  | cons c member ih =>
    have hcons : escapeMember (c :: member) =
        (if c = '"' ∨ c = '\\' then ['\\', c] else [c]) ++ escapeMember member := rfl
    rw [hcons, plain_append, ih, List.forall_mem_cons]
    by_cases hc : c = '"' ∨ c = '\\'
    · rw [if_pos hc]
      have hnot : ¬ Plain ['\\', c] := fun h => (h '\\' (by simp)).2 rfl
      rcases hc with rfl | rfl <;> simp [hnot]
    · rw [if_neg hc]
      simp only [not_or] at hc
      simp [Plain, hc]

/-- The text of a path is plain when its names are clean. -/
lemma plain_toJsonPath {path : Path} : Plain (toJsonPath path) ↔ CleanPath path := by
  have hcons (t : Text) : Plain ('$' :: t) ↔ Plain t := by
    simp [Plain]
  rw [toJsonPath, hcons]
  induction path with
  | nil => simp [Plain, CleanPath]
  | cons member path ih =>
    have hmember : Plain ('.' :: '"' :: escapeMember member ++ ['"']) ↔
        Plain (escapeMember member) := by
      simp [Plain, or_imp, forall_and]
    rw [List.flatMap_cons, plain_append, hmember, plain_escapeMember, CleanPath,
      List.forall_mem_cons]
    exact and_congr_right' ih

/-- Names that are clean themselves do not matter. -/
lemma cleanPath_append {path suffix : Path} (h : CleanPath suffix) :
    CleanPath (path ++ suffix) ↔ CleanPath path :=
  List.forall_mem_append.trans (and_iff_left h)

/-- **Quoting a path.**  The text of a path is read back from between quotes exactly when no name
in it has a quote, a double quote or a backslash. -/
theorem readsBack_toJsonPath {path : Path} : ReadsBack (toJsonPath path) ↔ CleanPath path := by
  rw [readsBack_iff (escaped_toJsonPath path), plain_toJsonPath]

end Chimera

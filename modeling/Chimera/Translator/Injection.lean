import Chimera.Translator.FilterText
import Mathlib.Data.List.Forall2

/-!
# Field names and the text of a filter

What is outside literals in the SQL of a filter, and whether its JSON paths stay inside their
literals.  Two filters with the same operators get the same SQL outside literals, with every
path confined, exactly when no name that either of them tests has a quote, a double quote or a
backslash.
-/

namespace Chimera

open QuotedText

/-! ## The paths and the shape of a condition -/

/-- The path of an operand. -/
def Operand.path : Operand → Path
  | .scalar path | .double path | .ordinal path => path

/-- An operand without its path. -/
def Operand.shape : Operand → Operand
  | .scalar _ => .scalar []
  | .double _ => .double []
  | .ordinal _ => .ordinal []

mutual

/-- The paths a condition reads. -/
def Cond.paths : Cond → List Path
  | .one | .zero => []
  | .compare operand _ _ => [operand.path]
  | .isNull path | .regexp path _ | .contains path _ | .jsonExists path _ | .inList path _ _ =>
    [path]
  | .junction _ parts => Cond.pathsAll parts
  | .not cond => cond.paths
termination_by structural cond => cond

/-- The paths that several conditions read. -/
def Cond.pathsAll : List Cond → List Path
  | [] => []
  | part :: parts => part.paths ++ Cond.pathsAll parts
termination_by structural parts => parts

end

mutual

/-- A condition without its paths and parameters. -/
def Cond.shape : Cond → Cond
  | .one => .one
  | .zero => .zero
  | .compare operand op _ => .compare operand.shape op .null
  | .isNull _ => .isNull []
  | .regexp _ _ => .regexp [] []
  | .contains _ _ => .contains [] .null
  | .jsonExists _ negated => .jsonExists [] negated
  | .inList _ negated members => .inList [] negated (members.map fun _ => .null)
  | .junction joiner parts => .junction joiner (Cond.shapeAll parts)
  | .not cond => .not cond.shape
termination_by structural cond => cond

/-- Several conditions without their paths and parameters. -/
def Cond.shapeAll : List Cond → List Cond
  | [] => []
  | part :: parts => part.shape :: Cond.shapeAll parts
termination_by structural parts => parts

end

variable {col : DocColumn} {path : Path}

/-! ## Frames -/

/-- An expression that begins with fixed code and ends with the document is closed. -/
lemma closed_col {t : Text} (ht : Closed t) : Closed (t ++ col.text) := ht.append col.closed

/-- Separated parts are framed when every part is. -/
lemma framed_separated {separator : Text} (hs : Closed separator) {parts : List (List Piece)}
    (h : ∀ part ∈ parts, Framed part) : Framed (separated separator parts) := by
  induction parts with
  | nil => exact .nil
  | cons part parts ih =>
    match parts with
    | [] => exact h part (by simp)
    | next :: rest =>
      have htail := ih fun p hp => h p (by simp [hp])
      exact (h part (by simp)).append (.code hs htail.spaced)

/-- A single piece of closed code. -/
lemma framed_code {t : Text} (h : Closed t) : Framed [.code t] := .code h trivial

/-- `JSON_VALUE` of a path is framed. -/
lemma framed_jsonValuePieces (t : Text) : Framed (jsonValuePieces col t) :=
  ⟨⟨closed_col (by decide), by decide, trivial, by decide, trivial⟩, trivial⟩

/-- `scalar_expr` is framed. -/
lemma framed_scalarPieces : Framed (scalarPieces col path) := by
  refine .code (by decide) (Spaced.append ?_ (framed_code (by decide)))
  refine (framed_separated (by decide) fun part hpart => ?_).spaced
  obtain ⟨wrapper, -, rfl⟩ := List.mem_map.1 hpart
  exact framed_jsonValuePieces _

/-- One half of a timestamp is framed. -/
lemma framed_ordinalPart (name : Text) : Framed (ordinalPart col path name) :=
  .code (by decide) ((framed_jsonValuePieces _).spaced.append (framed_code (by decide)))

/-- An operand is framed. -/
lemma framed_operand (operand : Operand) : Framed (operand.pieces col) := by
  cases operand with
  | scalar path => exact framed_scalarPieces
  | double path =>
    exact .code (by decide) (framed_scalarPieces.spaced.append (framed_code (by decide)))
  | ordinal path =>
    refine .code (by decide) ((framed_ordinalPart _).spaced.append (.code (by decide) ?_))
    exact (framed_ordinalPart _).spaced.append (framed_code (by decide))

/-- Operators are closed. -/
lemma closed_op (op : CompareOp) : Closed op.text := by cases op <;> decide

/-- Joiners are closed. -/
lemma closed_joiner (joiner : Joiner) : Closed joiner.text := by cases joiner <;> decide

mutual

/-- The SQL of a condition is framed. -/
lemma framed_pieces : ∀ cond : Cond, Framed (cond.pieces col)
  | .one | .zero => framed_code (by decide)
  | .compare operand op _ =>
    (framed_operand operand).append (.code (closed_op op) ⟨by decide, trivial⟩)
  | .isNull _ | .regexp _ _ => framed_scalarPieces.append (framed_code (by decide))
  | .contains _ _ =>
    ⟨⟨closed_col (by decide), by decide, trivial, by decide, trivial⟩, trivial⟩
  | .jsonExists _ negated =>
    ⟨⟨closed_col (by cases negated <;> decide), by decide, trivial, by decide, trivial⟩, trivial⟩
  | .inList _ negated members => by
    refine framed_scalarPieces.append (.code (by cases negated <;> decide) ?_)
    refine (framed_separated (by decide) fun part hpart => ?_).spaced.append
      (framed_code (by decide))
    obtain ⟨_, -, rfl⟩ := List.mem_map.1 hpart
    exact framed_code (by decide)
  | .junction joiner parts =>
    .code (by decide) ((framed_separated (closed_joiner joiner)
      (framed_piecesAll parts)).spaced.append (framed_code (by decide)))
  | .not cond => .code (by decide) ((framed_pieces cond).spaced.append (framed_code (by decide)))
termination_by structural cond => cond

/-- The SQL of several conditions is framed. -/
lemma framed_piecesAll : ∀ conds : List Cond, ∀ part ∈ Cond.piecesAll col conds, Framed part
  | [], _, hpart => nomatch hpart
  | cond :: conds, part, hpart =>
    (List.mem_cons.1 hpart).elim (fun h => h ▸ framed_pieces cond)
      (framed_piecesAll conds part)
termination_by structural conds => conds

end

/-! ## Literals -/

/-- Separators are no literals. -/
lemma literals_separated (separator : Text) (parts : List (List Piece)) :
    literals (separated separator parts) = parts.flatMap literals := by
  induction parts with
  | nil => rfl
  | cons part parts ih =>
    match parts with
    | [] => simp [separated]
    | next :: rest => simp [separated, ih]

/-- `scalar_expr` reads the path in each of its encodings. -/
lemma literals_scalarPieces :
    literals (scalarPieces col path) =
      scalarWrappers.map fun wrapper => toJsonPath (path ++ wrapper) := by
  have hpart (t : Text) : literals (jsonValuePieces col t) = [t] := rfl
  simp only [scalarPieces, List.cons_append, literals_code, literals_append, literals_nil,
    List.append_nil, literals_separated, List.flatMap_map, hpart]
  rfl

/-- The encodings have clean names. -/
lemma clean_of_mem_scalarWrappers {wrapper : Path} (h : wrapper ∈ scalarWrappers) :
    CleanPath wrapper := by
  revert wrapper
  decide

/-- `scalar_expr` is read back exactly when its path is clean. -/
lemma readsBack_scalarPieces :
    (∀ t ∈ literals (scalarPieces col path), ReadsBack t) ↔ CleanPath path := by
  rw [literals_scalarPieces, List.forall_mem_map]
  constructor
  · intro h
    have hfirst := h [] (by decide)
    rwa [List.append_nil, readsBack_toJsonPath] at hfirst
  · intro h wrapper hwrapper
    rw [readsBack_toJsonPath, cleanPath_append (clean_of_mem_scalarWrappers hwrapper)]
    exact h

/-- One half of a timestamp is read back exactly when its path is clean. -/
lemma readsBack_ordinalPart {name : Text} (hname : Plain name) (hescaped : Escaped name) :
    (∀ t ∈ literals (ordinalPart col path name), ReadsBack t) ↔ CleanPath path := by
  have hliterals : literals (ordinalPart col path name) =
      [toJsonPath (path ++ ["$timestamp".toList]) ++ '.' :: name] := rfl
  have hplain : Plain ('.' :: name) := by
    intro c hc
    rcases List.mem_cons.1 hc with rfl | hc
    · decide
    · exact hname c hc
  rw [hliterals, List.forall_mem_singleton,
    readsBack_iff ((escaped_toJsonPath _).append (.char (by decide) hescaped)), plain_append,
    plain_toJsonPath, cleanPath_append (by decide), and_iff_left hplain]

/-- An operand is read back exactly when its path is clean. -/
lemma readsBack_operand (operand : Operand) :
    (∀ t ∈ literals (operand.pieces col), ReadsBack t) ↔ CleanPath operand.path := by
  cases operand with
  | scalar path => exact readsBack_scalarPieces
  | double path =>
    have hliterals : literals ((Operand.double path).pieces col) =
        literals (scalarPieces col path) := by
      simp only [Operand.pieces, List.cons_append, literals_code, literals_append, literals_nil,
        List.append_nil]
    rw [hliterals]
    exact readsBack_scalarPieces
  | ordinal path =>
    have hliterals : literals ((Operand.ordinal path).pieces col) =
        literals (ordinalPart col path "t".toList) ++
          literals (ordinalPart col path "i".toList) := rfl
    have hpart {c : Char} (hc : c ≠ '\'' ∧ c ≠ '\\') :
        (∀ t ∈ literals (ordinalPart col path [c]), ReadsBack t) ↔ CleanPath path :=
      readsBack_ordinalPart (by simpa [Plain] using hc) (.char hc.2 .nil)
    rw [hliterals, List.forall_mem_append]
    exact (and_congr (hpart (by decide)) (hpart (by decide))).trans (and_self_iff)

mutual

/-- The literals of a condition are read back exactly when its paths are clean. -/
lemma readsBack_pieces : ∀ cond : Cond,
    (∀ t ∈ literals (cond.pieces col), ReadsBack t) ↔ ∀ path ∈ cond.paths, CleanPath path
  | .one | .zero => by simp [Cond.pieces, Cond.paths]
  | .compare operand op param => by
    have hliterals : literals ((Cond.compare operand op param).pieces col) =
        literals (operand.pieces col) := by
      simp only [Cond.pieces, literals_append, literals_code, literals_nil, List.append_nil]
    rw [hliterals, readsBack_operand, Cond.paths, List.forall_mem_singleton]
  | .isNull path | .regexp path _ => by
    simp only [Cond.pieces, literals_append, literals_code, literals_nil, List.append_nil,
      Cond.paths, List.forall_mem_singleton, readsBack_scalarPieces]
  | .contains path _ | .jsonExists path _ => by
    simp only [Cond.pieces, literals_code, literals_literal, literals_nil, Cond.paths,
      List.forall_mem_singleton, readsBack_toJsonPath]
  | .inList path negated members => by
    have hmembers : literals (separated ", ".toList
        (members.map fun _ => [Piece.code "?".toList])) = [] := by
      rw [literals_separated, List.flatMap_map]
      exact List.flatMap_eq_nil_iff.2 fun _ _ => rfl
    rw [Cond.pieces, literals_append, literals_append, literals_code, hmembers]
    simp only [literals_code, literals_nil, List.append_nil, Cond.paths,
      List.forall_mem_singleton, readsBack_scalarPieces]
  | .junction joiner parts => by
    simp only [Cond.pieces, List.cons_append, literals_append, literals_code, literals_nil,
      List.append_nil, literals_separated, Cond.paths, readsBack_piecesAll parts]
  | .not cond => by
    simp only [Cond.pieces, List.cons_append, literals_append, literals_code, literals_nil,
      List.append_nil, Cond.paths, readsBack_pieces cond]
termination_by structural cond => cond

/-- The literals of several conditions are read back exactly when their paths are clean. -/
lemma readsBack_piecesAll : ∀ conds : List Cond,
    (∀ t ∈ (Cond.piecesAll col conds).flatMap literals, ReadsBack t) ↔
      ∀ path ∈ Cond.pathsAll conds, CleanPath path
  | [] => by simp [Cond.piecesAll, Cond.pathsAll]
  | cond :: conds => by
    simp only [Cond.piecesAll, List.flatMap_cons, List.forall_mem_append, Cond.pathsAll,
      readsBack_pieces cond, readsBack_piecesAll conds]
termination_by structural conds => conds

end

/-! ## Skeletons -/

/-- Separated parts have the same skeleton when the parts do. -/
lemma skeleton_separated {separator : Text} {ps qs : List (List Piece)}
    (h : ps.map skeleton = qs.map skeleton) :
    skeleton (separated separator ps) = skeleton (separated separator qs) := by
  induction ps generalizing qs with
  | nil =>
    obtain rfl : qs = [] := by simpa using h.symm
    rfl
  | cons p ps ih =>
    match qs with
    | q :: qs =>
      obtain ⟨hpart, hparts⟩ : skeleton p = skeleton q ∧ ps.map skeleton = qs.map skeleton := by
        simpa using h
      have htail := ih hparts
      match ps, qs, hparts with
      | [], [], _ => exact hpart
      | p' :: ps, q' :: qs, _ =>
        simp only [separated, skeleton_append, skeleton_code] at htail ⊢
        rw [hpart, htail]

/-- The skeleton of `scalar_expr` does not depend on its path. -/
lemma skeleton_scalarPieces (path path' : Path) :
    skeleton (scalarPieces col path) = skeleton (scalarPieces col path') := by
  simp only [scalarPieces, List.cons_append, skeleton_code, skeleton_append]
  congr 2

/-- The skeleton of an operand does not depend on its path. -/
lemma skeleton_operand (operand : Operand) :
    skeleton (operand.pieces col) = skeleton (operand.shape.pieces col) := by
  cases operand with
  | scalar path => exact skeleton_scalarPieces _ _
  | double path =>
    simp only [Operand.pieces, Operand.shape, List.cons_append, skeleton_code, skeleton_append,
      skeleton_scalarPieces path []]
  | ordinal path => rfl

mutual

/-- The skeleton of a condition is that of its shape. -/
lemma skeleton_pieces : ∀ cond : Cond,
    skeleton (cond.pieces col) = skeleton (cond.shape.pieces col)
  | .one | .zero | .contains _ _ | .jsonExists _ _ => rfl
  | .compare operand op _ => by
    simp only [Cond.pieces, Cond.shape, skeleton_append, skeleton_operand operand]
  | .isNull path | .regexp path _ => by
    simp only [Cond.pieces, Cond.shape, skeleton_append, skeleton_scalarPieces path []]
  | .inList path _ members => by
    simp only [Cond.pieces, Cond.shape, skeleton_append, skeleton_scalarPieces path [],
      List.map_map]
    rfl
  | .junction joiner parts => by
    simp only [Cond.pieces, Cond.shape, List.cons_append, skeleton_code, skeleton_append,
      skeleton_separated (skeleton_piecesAll parts)]
  | .not cond => by
    simp only [Cond.pieces, Cond.shape, List.cons_append, skeleton_code, skeleton_append,
      skeleton_pieces cond]
termination_by structural cond => cond

/-- The skeletons of several conditions are those of their shapes. -/
lemma skeleton_piecesAll : ∀ conds : List Cond,
    (Cond.piecesAll col conds).map skeleton =
      (Cond.piecesAll col (Cond.shapeAll conds)).map skeleton
  | [] => rfl
  | cond :: conds => by
    simp only [Cond.piecesAll, Cond.shapeAll, List.map_cons, skeleton_pieces cond,
      skeleton_piecesAll conds]
termination_by structural conds => conds

end

/-! ## The operators of a filter -/

/-- A value of the same type. -/
def Value.kind : Value → Value
  | .double _ => .double ⟨0⟩
  | .utf8 _ => .utf8 []
  | .document _ => .document []
  | .array _ => .array []
  | .binary _ _ => .binary 0 []
  | .oid _ => .oid 0
  | .bool _ => .bool false
  | .dateTime _ => .dateTime 0
  | .regex _ _ => .regex [] []
  | .dbPointer _ _ => .dbPointer [] 0
  | .code _ => .code []
  | .symbol _ => .symbol []
  | .codeWScope _ _ => .codeWScope [] []
  | .int32 _ => .int32 0
  | .timestamp _ _ => .timestamp 0 0
  | .int64 _ => .int64 0
  | .decimal128 _ => .decimal128 0
  | v => v

/-- A test of the same sort, on values of the same types. -/
def Test.shape : Test → Test
  | .equals v => .equals v.kind
  | .compares op v => .compares op v.kind
  | .oneOf negated vs => .oneOf negated (vs.map Value.kind)
  | .present wanted => .present wanted
  | .matches _ => .matches []
  | .holds _ => .holds []

mutual

/-- A query without its paths, with its operators and the types of its values. -/
def Query.shape : Query → Query
  | .everything => .everything
  | .conj queries => .conj (Query.shapeAll queries)
  | .disj queries => .disj (Query.shapeAll queries)
  | .neg query => .neg query.shape
  | .test _ t => .test [] t.shape
termination_by structural query => query

/-- Several queries without their paths. -/
def Query.shapeAll : List Query → List Query
  | [] => []
  | query :: queries => query.shape :: Query.shapeAll queries
termination_by structural queries => queries

end

/-- The filters have the same operators, joined alike, over values of the same types. -/
def SameOperators (f g : Doc) : Prop := (filterQuery f).shape = (filterQuery g).shape

/-- The test reads its path: membership in an empty list does not. -/
def Test.reads : Test → Bool
  | .oneOf _ vs => !vs.isEmpty
  | _ => true

mutual

/-- The paths that a query tests. -/
def Query.paths : Query → List Path
  | .everything => []
  | .conj queries | .disj queries => Query.pathsAll queries
  | .neg query => query.paths
  | .test path t => if t.reads then [path] else []
termination_by structural query => query

/-- The paths that several queries test. -/
def Query.pathsAll : List Query → List Path
  | [] => []
  | query :: queries => query.paths ++ Query.pathsAll queries
termination_by structural queries => queries

end

/-- No name that the filter tests has a quote, a double quote or a backslash. -/
def CleanFilter (filter : Doc) : Prop := ∀ path ∈ (filterQuery filter).paths, CleanPath path

/-! ## The shape of the condition of a query -/

/-- The shape of the condition of a test. -/
def Test.condShape : Test → Cond
  | .equals .null => .isNull []
  | .equals (.regex _ _) => .regexp [] []
  | .equals v => .junction .or [.compare (comparable [] v) .eq .null, .contains [] .null]
  | .compares op v => .compare (comparable [] v) op .null
  | .oneOf negated [] => if negated then .one else .zero
  | .oneOf negated vs => .inList [] negated (vs.map fun _ => .null)
  | .present wanted => .jsonExists [] !wanted
  | .matches _ => .regexp [] []
  | .holds _ => .contains [] .null

mutual

/-- The shape of the condition of a query. -/
def Query.condShape : Query → Cond
  | .everything => .one
  | .conj queries => conjoin .and (Query.condShapeAll queries)
  | .disj queries => conjoin .or (Query.condShapeAll queries)
  | .neg query => .not query.condShape
  | .test _ t => t.condShape
termination_by structural query => query

/-- The shapes of the conditions of several queries. -/
def Query.condShapeAll : List Query → List Cond
  | [] => []
  | query :: queries => query.condShape :: Query.condShapeAll queries
termination_by structural queries => queries

end

/-- The shape of the condition of a test depends on the shape of the test only. -/
lemma Test.condShape_shape (t : Test) : t.shape.condShape = t.condShape := by
  cases t with
  | equals v => cases v <;> rfl
  | compares op v => cases v <;> rfl
  | oneOf negated vs =>
    cases vs with
    | nil => rfl
    | cons v vs =>
      have hmap : (vs.map Value.kind).map (fun _ => Param.null) = vs.map fun _ => .null := by
        rw [List.map_map]
        rfl
      simp only [Test.shape, List.map_cons, Test.condShape, hmap]
  | present wanted => rfl
  | «matches» pattern => rfl
  | holds fields => rfl

mutual

/-- The shape of the condition of a query depends on the shape of the query only. -/
lemma Query.condShape_shape : ∀ query : Query, query.shape.condShape = query.condShape
  | .everything => rfl
  | .conj queries => by
    simp only [Query.shape, Query.condShape, Query.condShapeAll_shapeAll queries]
  | .disj queries => by
    simp only [Query.shape, Query.condShape, Query.condShapeAll_shapeAll queries]
  | .neg query => by simp only [Query.shape, Query.condShape, Query.condShape_shape query]
  | .test _ t => t.condShape_shape
termination_by structural query => query

/-- The shapes of the conditions of several queries depend on the shapes of the queries only. -/
lemma Query.condShapeAll_shapeAll : ∀ queries : List Query,
    Query.condShapeAll (Query.shapeAll queries) = Query.condShapeAll queries
  | [] => rfl
  | query :: queries => by
    simp only [Query.shapeAll, Query.condShapeAll, Query.condShape_shape query,
      Query.condShapeAll_shapeAll queries]
termination_by structural queries => queries

end

/-! ## The condition has the shape of the query -/

/-- A condition reads the paths its query tests, and has the shape the query gives it. -/
structure Outlines (cond : Cond) (query : Query) : Prop where
  /-- The two read the same paths. -/
  paths : ∀ path, path ∈ cond.paths ↔ path ∈ query.paths
  /-- The condition has the shape of the query. -/
  shape : cond.shape = query.condShape

/-- The paths of several conditions. -/
lemma mem_paths_of_outlines {conds : List Cond} {queries : List Query}
    (h : List.Forall₂ Outlines conds queries) (path : Path) :
    path ∈ Cond.pathsAll conds ↔ path ∈ Query.pathsAll queries := by
  induction h with
  | nil => rfl
  | cons h _ ih => simp only [Cond.pathsAll, Query.pathsAll, List.mem_append, h.paths path, ih]

/-- The shapes of several conditions. -/
lemma shapeAll_of_outlines {conds : List Cond} {queries : List Query}
    (h : List.Forall₂ Outlines conds queries) :
    Cond.shapeAll conds = Query.condShapeAll queries := by
  induction h with
  | nil => rfl
  | cons h _ ih => simp only [Cond.shapeAll, Query.condShapeAll, h.shape, ih]

/-- The paths of a junction are those of its parts. -/
lemma paths_conjoin (joiner : Joiner) (conds : List Cond) :
    (conjoin joiner conds).paths = Cond.pathsAll conds := by
  match conds with
  | [] => rfl
  | [cond] => simp [conjoin, Cond.pathsAll]
  | _ :: _ :: _ => rfl

/-- The shape of a junction joins the shapes of its parts. -/
lemma shape_conjoin (joiner : Joiner) (conds : List Cond) :
    (conjoin joiner conds).shape = conjoin joiner (Cond.shapeAll conds) := by
  match conds with
  | [] => rfl
  | [cond] => rfl
  | _ :: _ :: _ => rfl

/-- What is compared with a value is read at the path. -/
lemma comparable_path (path : Path) (v : Value) : (comparable path v).path = path := by
  cases v <;> rfl

/-- What is compared with a value depends on its type only. -/
lemma comparable_shape (path : Path) (v : Value) :
    (comparable path v).shape = comparable [] v := by
  cases v <;> rfl

/-- Equality outlines its test. -/
lemma compileEq_outlines {L : Libbson} {v : Value} {cond : Cond}
    (h : compileEq L path v = .ok cond) : Outlines cond (.test path (.equals v)) := by
  unfold compileEq at h
  split at h
  · obtain rfl := Except.ok.inj h
    exact ⟨fun _ => Iff.rfl, rfl⟩
  · obtain rfl := Except.ok.inj h
    exact ⟨fun _ => Iff.rfl, rfl⟩
  · cases h
  · cases h
  · rename_i hnull hregex _ _
    simp only [except_bind_eq_ok, except_pure_eq_ok] at h
    obtain ⟨param, -, literal, -, rfl⟩ := h
    refine ⟨fun p => ?_, ?_⟩
    · simp [Cond.paths, Cond.pathsAll, Query.paths, Test.reads, comparable_path]
    · rw [Query.condShape, Test.condShape]
      · simp only [Cond.shape, Cond.shapeAll, comparable_shape]
      · exact hnull
      · exact hregex

/-- A comparison outlines its test. -/
lemma compileCompare_outlines {op : CompareOp} {v : Value} {cond : Cond}
    (h : compileCompare path op v = .ok cond) : Outlines cond (.test path (.compares op v)) := by
  simp only [compileCompare, except_bind_eq_ok, except_pure_eq_ok] at h
  obtain ⟨param, -, rfl⟩ := h
  refine ⟨fun p => ?_, ?_⟩
  · simp [Cond.paths, Query.paths, Test.reads, comparable_path]
  · simp only [Cond.shape, Query.condShape, Test.condShape, comparable_shape]

/-- A list test outlines its query. -/
lemma compileIn_outlines {v : Value} {negated : Bool} {cond : Cond}
    (h : compileIn path v negated = .ok cond) :
    Outlines cond (.test path (.oneOf negated v.members)) := by
  obtain ⟨hv, rfl⟩ | ⟨params, hne, hps, rfl⟩ := compileIn_cases h
  · rw [hv]
    cases negated <;> exact ⟨fun _ => Iff.rfl, rfl⟩
  · have hnull : (params.map fun _ => Param.null) = v.members.map fun _ => .null := by
      simp only [List.map_const', hps.length_eq]
    have hempty : v.members.isEmpty = false := by simpa using hne
    refine ⟨fun p => ?_, ?_⟩
    · simp only [Cond.paths, Query.paths, Test.reads, hempty, Bool.not_false, ↓reduceIte]
    · rw [Query.condShape, Test.condShape, Cond.shape, hnull]
      exact hne

/-- `$regex` outlines its query. -/
lemma compileRegex_outlines {v : Value} {cond : Cond} (h : compileRegex path v = .ok cond) :
    Outlines cond (regexQuery path v) := by
  unfold compileRegex at h
  split at h
  · obtain rfl := Except.ok.inj h
    exact ⟨fun _ => Iff.rfl, rfl⟩
  · obtain rfl := Except.ok.inj h
    exact ⟨fun _ => Iff.rfl, rfl⟩
  · cases h

/-- `$elemMatch` outlines its query. -/
lemma compileElemMatch_outlines {L : Libbson} {v : Value} {cond : Cond}
    (h : compileElemMatch L path v = .ok cond) :
    Outlines cond (.test path (.holds (v.subdocument.getD []))) := by
  cases v with
  | document fields =>
    simp only [compileElemMatch] at h
    split at h
    · cases h
    · obtain ⟨json, -, h⟩ := except_bind_eq_ok.1 h
      obtain rfl := Except.ok.inj h
      exact ⟨fun _ => Iff.rfl, rfl⟩
  | _ => cases h

/-- A junction of outlines outlines the joined queries. -/
lemma outlines_conjoin {joiner : Joiner} {conds : List Cond} {queries : List Query} {query : Query}
    (h : List.Forall₂ Outlines conds queries) (hpaths : query.paths = Query.pathsAll queries)
    (hshape : query.condShape = conjoin joiner (Query.condShapeAll queries)) :
    Outlines (conjoin joiner conds) query where
  paths path := by
    rw [paths_conjoin, hpaths]
    exact mem_paths_of_outlines h path
  shape := by rw [shape_conjoin, shapeAll_of_outlines h, hshape]

/-- The compiler outlines every query. -/
lemma outlines_compileRelation (L : Libbson) : CompileRelation L Outlines where
  eq := compileEq_outlines
  compare := compileCompare_outlines
  inList := compileIn_outlines
  presence := ⟨fun _ => Iff.rfl, rfl⟩
  regex := compileRegex_outlines
  elemMatch := compileElemMatch_outlines
  not h := ⟨h.paths, by simp only [Cond.shape, Query.condShape, h.shape]⟩
  conj h := outlines_conjoin h rfl rfl
  disj h := outlines_conjoin h rfl rfl
  fields h := by
    cases h with
    | nil => exact ⟨fun _ => Iff.rfl, rfl⟩
    | cons h hs => exact outlines_conjoin (.cons h hs) rfl rfl

/-! ## Field names cannot reach the SQL outside literals -/

/-- What a text looks like to SQL outside its literals, and where the literals stand. -/
def sqlOutline (sql : Text) : List Event := outline (scan .outside sql).2

/-- The SQL of two conditions agrees outside literals, and every JSON path in either of them is
the content of one literal. -/
def SafeTogether (p q : List Piece) : Prop :=
  sqlOutline (textOf p) = sqlOutline (textOf q) ∧ Confined .outside p ∧ Confined .outside q

/-- Framed pieces with one skeleton are safe together when their literals are read back. -/
lemma safeTogether_iff {p q : List Piece} (hp : Framed p) (hq : Framed q)
    (hskeleton : skeleton p = skeleton q) :
    SafeTogether p q ↔
      (∀ t ∈ literals p, ReadsBack t) ∧ ∀ t ∈ literals q, ReadsBack t := by
  rw [← confined_iff (.inl rfl) hp.spaced (.inl rfl),
    ← confined_iff (.inl rfl) hq.spaced (.inl rfl)]
  refine ⟨And.right, fun h => ⟨?_, h⟩⟩
  rw [sqlOutline, sqlOutline, outline_textOf (.inl rfl) hp.spaced h.1,
    outline_textOf (.inl rfl) hq.spaced h.2, hskeleton]

/-- The condition of an accepted filter is read back when the filter is clean. -/
lemma readsBack_filter {L : Libbson} {f : Doc} {cond : Cond}
    (h : compileDocument L f = .ok cond) :
    (∀ t ∈ literals (cond.pieces col), ReadsBack t) ↔ CleanFilter f := by
  rw [readsBack_pieces, CleanFilter]
  simp only [((outlines_compileRelation L).document h).paths]

/-- **Field names and injection.**  Two accepted filters with the same operators get the same
SQL outside literals, with every JSON path confined to one literal, if and only if no name that
either of them tests has a quote, a double quote or a backslash.  The same holds for the
expression that an index computes. -/
theorem injection_safe_iff (L : Libbson) (col : DocColumn) :
    (∀ f g c d, compileDocument L f = .ok c → compileDocument L g = .ok d → SameOperators f g →
      (SafeTogether (c.pieces col) (d.pieces col) ↔ CleanFilter f ∧ CleanFilter g)) ∧
    (∀ p q : Path, SafeTogether (scalarPieces col p) (scalarPieces col q) ↔
      CleanPath p ∧ CleanPath q) := by
  refine ⟨fun f g c d hf hg hsame => ?_, fun p q => ?_⟩
  · have hshape : c.shape = d.shape := by
      rw [((outlines_compileRelation L).document hf).shape,
        ((outlines_compileRelation L).document hg).shape, ← Query.condShape_shape, hsame,
        Query.condShape_shape]
    have hskeleton : skeleton (c.pieces col) = skeleton (d.pieces col) := by
      rw [skeleton_pieces c, hshape, ← skeleton_pieces d]
    rw [safeTogether_iff (framed_pieces c) (framed_pieces d) hskeleton, readsBack_filter hf,
      readsBack_filter hg]
  · rw [safeTogether_iff framed_scalarPieces framed_scalarPieces (skeleton_scalarPieces p q),
      readsBack_scalarPieces, readsBack_scalarPieces]

/-- Names of letters are safe, in values compared as text and in presence tests. -/
theorem injection_safe_iff_letters :
    let f := [("name".toList, Value.utf8 "x".toList)]
    let g := [("a.b".toList, Value.utf8 "y".toList)]
    ∃ c d, compileDocument .ofStrings f = .ok c ∧ compileDocument .ofStrings g = .ok d ∧
      SafeTogether (c.pieces .doc) (d.pieces .doc) := by
  intro f g
  refine ⟨_, _, rfl, rfl, ?_⟩
  refine ((injection_safe_iff .ofStrings .doc).1 f g _ _ rfl rfl rfl).2 ⟨?_, ?_⟩
  · have hpaths : (filterQuery f).paths = [["name".toList]] := rfl
    rw [CleanFilter, hpaths]
    decide
  · have hpaths : (filterQuery g).paths = [["a".toList, "b".toList]] := rfl
    rw [CleanFilter, hpaths]
    decide

/-- A quote in a field name ends the literal: two filters that only test for presence, and differ
in the name, get different SQL outside literals. -/
theorem injection_by_quoted_name :
    let presence : Value := .document [("$exists".toList, .bool true)]
    let f := [("a'b".toList, presence)]
    let g := [("c".toList, presence)]
    ∃ c d, compileDocument .ofStrings f = .ok c ∧ compileDocument .ofStrings g = .ok d ∧
      SameOperators f g ∧
      sqlOutline (textOf (c.pieces .doc)) ≠ sqlOutline (textOf (d.pieces .doc)) ∧
      ¬ Confined .outside (c.pieces .doc) := by
  intro presence f g
  refine ⟨.jsonExists ["a'b".toList] false, .jsonExists ["c".toList] false, rfl, rfl, rfl,
    by decide, ?_⟩
  rintro ⟨-, hback, -⟩
  exact absurd hback (by unfold ReadsBack; decide)

end Chimera

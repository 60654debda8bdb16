import Chimera.Foundations.SqlMeaning
import Chimera.Translator.Agreement
import Chimera.Translator.FilterGrammar

/-!
# What the emitted text means

The server lexes and parses the text that the compiler emits, and evaluates what it has parsed on
the stored document: JSON paths are read from the literals that hold them, connectives are grouped
as the grammar groups them, and placeholders take their parameters from the left.  For names without
quotes, double quotes and backslashes this is the value of the condition's tree (`truth_text`), so
that a filter selects by its text what it selects by its tree.  Other names make other SQL.
-/

namespace Chimera

open QuotedText SqlGrammar

/-! ## Reading a JSON path -/

/-- Where the reader of a JSON path stands. -/
inductive Leg where
  /-- Between members. -/
  | between
  /-- Behind the dot in front of a member. -/
  | opened
  /-- In a member between double quotes, of which some characters were read. -/
  | quoted (name : Text)
  /-- In a member without double quotes. -/
  | bare (name : Text)

/-- The members of a JSON path from a place in it on. -/
def readLegs : Leg → Text → Option Path
  | .between, [] => some []
  | .between, c :: rest => if c = '.' then readLegs .opened rest else none
  | .opened, [] => none
  | .opened, c :: rest =>
    if c = '"' then readLegs (.quoted []) rest
    else if isWordChar c then readLegs (.bare [c]) rest
    else none
  | .quoted name, '"' :: rest => (readLegs .between rest).map (name :: ·)
  | .quoted name, '\\' :: c :: rest => readLegs (.quoted (name ++ [c])) rest
  | .quoted name, c :: rest => readLegs (.quoted (name ++ [c])) rest
  | .quoted _, [] => none
  | .bare name, [] => some [name]
  | .bare name, c :: rest =>
    if c = '.' then (readLegs .opened rest).map (name :: ·)
    else if isWordChar c then readLegs (.bare (name ++ [c])) rest
    else none

/-- A JSON path whose legs are members. -/
def readJsonPath : Text → Option Path
  | '$' :: legs => readLegs .between legs
  | _ => none

/-- `JSON_EXTRACT` of a JSON path whose legs are members: each of them selects a key of an object,
and no element of an array. -/
def jsonExtract (json : Json) (jsonPath : Text) : Option Json :=
  (readJsonPath jsonPath).bind (jsonAt json)

/-- An escaped name is read back. -/
lemma readLegs_escapeMember (read name rest : Text) :
    readLegs (.quoted read) (escapeMember name ++ '"' :: rest) =
      (readLegs .between rest).map ((read ++ name) :: ·) := by
  induction name generalizing read with
  | nil =>
    rw [List.append_nil]
    rfl
  | cons c name ih =>
    have hname : read ++ c :: name = (read ++ [c]) ++ name := by simp
    rw [hname, ← ih]
    by_cases hquote : c = '"'
    · subst hquote
      rfl
    · by_cases hslash : c = '\\'
      · subst hslash
        rfl
      · have hstep : escapeMember (c :: name) = c :: escapeMember name := by
          simp [escapeMember, hquote, hslash]
        rw [hstep, List.cons_append]
        rw [readLegs]
        · exact hquote
        · intro c' rest' heq
          exact absurd heq hslash

/-- The members that are written are read, and what follows them. -/
lemma readLegs_members (path : Path) (rest : Text) :
    readLegs .between
      (path.flatMap (fun name => '.' :: '"' :: escapeMember name ++ ['"']) ++ rest) =
        (readLegs .between rest).map (path ++ ·) := by
  induction path with
  | nil =>
    cases h : readLegs .between rest <;> simp [h]
  | cons name path ih =>
    rw [List.flatMap_cons, List.append_assoc, List.append_assoc]
    change readLegs (.quoted []) (escapeMember name ++ '"' ::
      (path.flatMap (fun name => '.' :: '"' :: escapeMember name ++ ['"']) ++ rest)) = _
    rw [readLegs_escapeMember, ih, Option.map_map]
    rfl

/-- The path that is written is read. -/
lemma readJsonPath_toJsonPath (path : Path) : readJsonPath (toJsonPath path) = some path := by
  have hlegs := readLegs_members path []
  rw [List.append_nil, readLegs, Option.map_some, List.append_nil] at hlegs
  exact hlegs

/-! ## The server -/

/-- What an expression of SQL stands for. -/
inductive SqlTerm where
  /-- JSON: the stored document, or a part of it. -/
  | json (j : Json)
  /-- A value that was read out of it. -/
  | value (v : SqlValue)
  /-- A parameter. -/
  | param (p : Param)
  /-- A truth value. -/
  | truth (b : Bool)
  /-- A string literal. -/
  | literal (t : Text)
  /-- A number. -/
  | number (n : ℕ)

/-- The operators that the compiler emits. -/
def comparisonOf (op : Text) : Option CompareOp :=
  if op = "=".toList then some .eq
  else if op = ">".toList then some .gt
  else if op = ">=".toList then some .ge
  else if op = "<".toList then some .lt
  else if op = "<=".toList then some .le
  else none

/-- A number of 64 bits.  An overflow is an error of the statement, which selects nothing: here it
is null. -/
def unsignedTerm (n : ℕ) : Option SqlTerm :=
  if n < 2 ^ 64 then some (.value (.unsigned n)) else none

/-- The columns and numbers of a condition. -/
def sqlWord (doc : Json) (t : Text) : Option (Option SqlTerm) :=
  if t = "doc".toList then some (some (.json doc))
  else if t.all Char.isDigit then some (some (.number (Nat.ofDigitChars 10 t 0)))
  else none

/-- The functions of a condition. -/
def MariaDB.call (M : MariaDB) (name : Text) (args : List (Option SqlTerm)) :
    Option (Option SqlTerm) :=
  if name = "JSON_VALUE".toList then
    match args with
    | [some (.json j), some (.literal t)] =>
      some (((readJsonPath t).bind (M.jsonValue j)).map fun s => .value (.text s))
    | _ => none
  else if name = "JSON_EXTRACT".toList then
    match args with
    | [some (.json j), some (.literal t)] => some ((jsonExtract j t).map .json)
    | _ => none
  else if name = "JSON_EXISTS".toList then
    match args with
    | [some (.json j), some (.literal t)] =>
      some ((readJsonPath t).map fun path => .truth (jsonAt j path).isSome)
    | _ => none
  else if name = "JSON_CONTAINS".toList then
    match args with
    | [some (.json j), some (.param (.json candidate))] =>
      some (some (.truth (M.contains j candidate)))
    | [none, some (.param _)] => some none
    | _ => none
  else if name = "COALESCE".toList then some (args.findSome? id)
  else none

/-- The casts of a condition. -/
def MariaDB.castTerm (M : MariaDB) (type : Text) : SqlTerm → Option (Option SqlTerm)
  | .value (.text s) =>
    if type = "DOUBLE".toList then some (some (.value (.double (M.castDouble s))))
    else if type = "UNSIGNED".toList then some (unsignedTerm (M.castUnsigned s))
    else none
  | _ => none

/-- The arithmetic of a condition. -/
def arithTerm (op : Char) : SqlTerm → SqlTerm → Option (Option SqlTerm)
  | .value (.unsigned m), .number n => if op = '*' then some (unsignedTerm (m * n)) else none
  | .value (.unsigned m), .value (.unsigned n) =>
    if op = '+' then some (unsignedTerm (m + n)) else none
  | _, _ => none

/-- The comparisons of a condition. -/
def MariaDB.compareTerms (M : MariaDB) (op : Text) : SqlTerm → SqlTerm → Option Bool
  | .value v, .param p => (comparisonOf op).map fun op => M.compare v op p
  | _, _ => none

/-- The matches of a condition. -/
def MariaDB.regexpTerms (M : MariaDB) : SqlTerm → SqlTerm → Option Kleene
  | .value (.text s), .param (.text pattern) => some (M.regexp s pattern)
  | _, _ => none

/-- The conditions of a condition. -/
def SqlTerm.holds : SqlTerm → Option Bool
  | .truth b => some b
  | .number n => some (n != 0)
  | _ => none

/-- The server, as far as conditions on a stored document go. -/
def MariaDB.server (M : MariaDB) (doc : Json) : Server SqlTerm where
  word := sqlWord doc
  text := .literal
  call := M.call
  cast := M.castTerm
  arith := arithTerm
  compare := M.compareTerms
  regexp := M.regexpTerms
  ofBool := .truth
  holds := SqlTerm.holds

/-- A parameter as a value. -/
def Param.term : Param → Option SqlTerm
  | .null => none
  | p => some (.param p)

/-- The truth value of the emitted text on a stored document.  There is none where the text is no
condition of the grammar. -/
def SqlFilter.truth (M : MariaDB) (doc : Json) (out : SqlFilter) : Option Kleene :=
  (parse out.sql).bind fun e => e.condition (M.server doc) (out.params.map Param.term)

/-- The filter selects the stored document: it is accepted, its parameters are spelled, and the text
that is emitted is true of the document. -/
def Selects (M : MariaDB) (L : Libbson) (filter : Doc) (doc : Json) : Prop :=
  ∃ out, emitFilter L .doc filter = .ok out ∧ out.params.all Param.spelled = true ∧
    out.truth M doc = some (some true)

/-! ## The text and the tree -/

section Tree

variable {M : MariaDB} {doc : Json} {path : Path}

/-- Nothing is escaped in a name without double quotes and backslashes. -/
lemma escapeMember_of_clean {name : Text} (h : ∀ c ∈ name, c ≠ '\'' ∧ c ≠ '"' ∧ c ≠ '\\') :
    escapeMember name = name := by
  induction name with
  | nil => rfl
  | cons c name ih =>
    obtain ⟨-, hquote, hslash⟩ := h c List.mem_cons_self
    have htail := ih fun d hd => h d (List.mem_cons_of_mem c hd)
    have hcons : escapeMember (c :: name) =
        (if c = '"' ∨ c = '\\' then ['\\', c] else [c]) ++ escapeMember name := rfl
    rw [hcons, if_neg (by simp [hquote, hslash]), htail]
    rfl

/-- Nothing is escaped in a path of such names. -/
lemma plainPath_eq (h : CleanPath path) : plainPath path = toJsonPath path := by
  rw [plainPath, toJsonPath]
  refine congrArg _ (List.flatMap_congr fun name hname => ?_)
  rw [escapeMember_of_clean (h name hname)]

/-- The path is read from its literal. -/
lemma readJsonPath_plainPath (h : CleanPath path) : readJsonPath (plainPath path) = some path := by
  rw [plainPath_eq h, readJsonPath_toJsonPath]

/-- A path and a member without double quotes. -/
lemma readJsonPath_bare (h : CleanPath path) {c : Char} (hc : isWordChar c = true) :
    readJsonPath (plainPath path ++ ['.', c]) = some (path ++ [[c]]) := by
  have hne : c ≠ '"' := by
    rintro rfl
    exact absurd hc (by decide)
  have hlegs := readLegs_members path ['.', c]
  have hlast : readLegs .between ['.', c] = some [[c]] := by
    rw [readLegs, if_pos rfl, readLegs, if_neg hne, if_pos hc]
    rfl
  rw [hlast, Option.map_some] at hlegs
  rw [plainPath_eq h]
  exact hlegs

/-- The wrappers of scalars have clean names. -/
lemma cleanPath_wrapper {wrapper : Path} (h : CleanPath path)
    (hwrapper : wrapper ∈ scalarWrappers) :
    CleanPath (path ++ wrapper) :=
  (cleanPath_append (clean_of_mem_scalarWrappers hwrapper)).2 h

/-- A function of the document and a path. -/
lemma consumes_pathCall {name : String} {content : Text} {r : Option SqlTerm}
    (h : M.call name.toList [some (.json doc), some (.literal content)] = some r) :
    Consumes ((pathCall name content).eval (M.server doc)) [] r :=
  have hdoc : (M.server doc).word "doc".toList = some (some (.json doc)) := rfl
  consumes_call
    (consumes_cons (consumes_word hdoc) (consumes_cons (consumes_text content) consumes_nil)) h

/-- `JSON_VALUE`. -/
lemma consumes_jsonValue {content : Text} (h : readJsonPath content = some path) :
    Consumes ((pathCall "JSON_VALUE" content).eval (M.server doc)) []
      ((M.jsonValue doc path).map fun s => .value (.text s)) := by
  refine consumes_pathCall ?_
  have hcall : M.call "JSON_VALUE".toList [some (.json doc), some (.literal content)] =
      some (((readJsonPath content).bind (M.jsonValue doc)).map fun s => .value (.text s)) := rfl
  rw [hcall, h, Option.bind_some]

/-- `scalar_expr`. -/
lemma consumes_scalarTree (h : CleanPath path) :
    Consumes ((scalarTree path).eval (M.server doc)) []
      ((M.scalarExpr doc path).map fun s => .value (.text s)) := by
  have hall : ∀ wrappers : List Path, (∀ wrapper ∈ wrappers, wrapper ∈ scalarWrappers) →
      Consumes (Expr.evalAll (M.server doc) (wrappers.map fun wrapper =>
        pathCall "JSON_VALUE" (plainPath (path ++ wrapper)))) []
        (wrappers.map fun wrapper =>
          (M.jsonValue doc (path ++ wrapper)).map fun s => .value (.text s)) := by
    intro wrappers hwrappers
    induction wrappers with
    | nil => exact consumes_nil
    | cons wrapper wrappers ih =>
      obtain ⟨hwrapper, hrest⟩ := List.forall_mem_cons.1 hwrappers
      exact consumes_cons
        (consumes_jsonValue (readJsonPath_plainPath (cleanPath_wrapper h hwrapper))) (ih hrest)
  refine consumes_call (hall scalarWrappers fun _ hwrapper => hwrapper) ?_
  have hcoalesce : ∀ args, M.call "COALESCE".toList args = some (args.findSome? id) := by
    intro args
    unfold MariaDB.call
    iterate 4 rw [if_neg (by decide)]
    rw [if_pos rfl]
  change M.call "COALESCE".toList _ = _
  rw [hcoalesce, MariaDB.scalarExpr, List.findSome?_map, List.map_findSome?]
  rfl

/-- One half of a timestamp. -/
lemma consumes_ordinalTree (h : CleanPath path) {c : Char} (hc : isWordChar c = true) :
    Consumes ((ordinalTree path [c]).eval (M.server doc)) []
      ((M.jsonValue doc (path ++ ["$timestamp".toList, [c]])).bind fun s =>
        unsignedTerm (M.castUnsigned s)) := by
  have hstamp : CleanPath (path ++ ["$timestamp".toList]) :=
    (cleanPath_append (by decide)).2 h
  have hread := readJsonPath_bare hstamp hc
  rw [List.append_assoc] at hread
  have hvalue := @consumes_jsonValue M doc _ _ hread
  refine consumes_cast hvalue ?_
  change onValue (M.castTerm "UNSIGNED".toList)
    ((M.jsonValue doc (path ++ ["$timestamp".toList, [c]])).map fun s => .value (.text s)) = _
  cases M.jsonValue doc (path ++ ["$timestamp".toList, [c]]) <;> rfl

/-- A number of 64 bits. -/
lemma unsignedTerm_of_lt {n : ℕ} (h : n < 2 ^ 64) :
    unsignedTerm n = some (.value (.unsigned n)) := by
  rw [unsignedTerm, if_pos h]

/-- An overflow. -/
lemma unsignedTerm_of_not_lt {n : ℕ} (h : ¬ n < 2 ^ 64) : unsignedTerm n = none := by
  rw [unsignedTerm, if_neg h]

/-- Two halves that overflow. -/
lemma packedOrdinal_of_not_lt {t i : ℕ} (h : ¬ t * 4294967296 + i < 2 ^ 64) :
    packedOrdinal t i = none := by
  rw [packedOrdinal, if_neg h]

/-- The server's arithmetic packs the two halves. -/
lemma arith_packed (t i : ℕ) : ∃ y,
    onValues (arithTerm '*') (unsignedTerm t) (some (.number 4294967296)) = some y ∧
      onValues (arithTerm '+') y (unsignedTerm i) =
        some ((packedOrdinal t i).map fun n => .value (.unsigned n)) := by
  have hproduct : onValues (arithTerm '*') (some (.value (.unsigned t)))
      (some (.number 4294967296)) = some (unsignedTerm (t * 4294967296)) := rfl
  have hsum (m : ℕ) : onValues (arithTerm '+') (some (.value (.unsigned m)))
      (some (.value (.unsigned i))) = some (unsignedTerm (m + i)) := rfl
  by_cases ht : t < 2 ^ 64
  · refine ⟨_, by rw [unsignedTerm_of_lt ht, hproduct], ?_⟩
    by_cases hshift : t * 4294967296 < 2 ^ 64
    · rw [unsignedTerm_of_lt hshift]
      by_cases hi : i < 2 ^ 64
      · rw [unsignedTerm_of_lt hi, hsum, unsignedTerm, packedOrdinal]
        split
        · rfl
        · rfl
      · have hover : ¬ t * 4294967296 + i < 2 ^ 64 := by omega
        rw [unsignedTerm_of_not_lt hi, packedOrdinal_of_not_lt hover, onValues_some_none,
          Option.map_none]
    · have hover : ¬ t * 4294967296 + i < 2 ^ 64 := fun h =>
        hshift ((Nat.le_add_right _ _).trans_lt h)
      rw [unsignedTerm_of_not_lt hshift, packedOrdinal_of_not_lt hover, onValues_none,
        Option.map_none]
  · have hover : ¬ t * 4294967296 + i < 2 ^ 64 := by omega
    refine ⟨none, by rw [unsignedTerm_of_not_lt ht, onValues_none], ?_⟩
    rw [packedOrdinal_of_not_lt hover, onValues_none, Option.map_none]

/-- The server's words. -/
lemma server_word : (M.server doc).word = sqlWord doc := rfl

/-- The server's arithmetic. -/
lemma server_arith : (M.server doc).arith = arithTerm := rfl

/-- The number that shifts the seconds. -/
lemma sqlWord_shift (doc : Json) :
    sqlWord doc "4294967296".toList = some (some (.number 4294967296)) := by
  have hname : "4294967296".toList ≠ "doc".toList := by decide
  have hdigits : "4294967296".toList.all Char.isDigit = true := by decide
  have hnumber : Nat.ofDigitChars 10 "4294967296".toList 0 = 4294967296 := by
    simp [Nat.ofDigitChars]
  rw [sqlWord, if_neg hname, if_pos hdigits, hnumber]

/-- The two halves of a timestamp. -/
lemma consumes_ordinal (h : CleanPath path) :
    Consumes ((Operand.ordinal path).tree.eval (M.server doc)) []
      ((M.ordinalAt doc path).map fun n => .value (.unsigned n)) := by
  have hnumber : Consumes ((Expr.word "4294967296".toList).eval (M.server doc)) []
      (some (.number 4294967296)) := consumes_word (by rw [server_word, sqlWord_shift])
  have ht := @consumes_ordinalTree M doc _ h 't' (by decide)
  have hi := @consumes_ordinalTree M doc _ h 'i' (by decide)
  have htree : (Operand.ordinal path).tree = .arith '+' (.arith '*' (ordinalTree path ['t'])
    (.word "4294967296".toList)) (ordinalTree path ['i']) := rfl
  have hordinal : M.ordinalAt doc path =
      (M.jsonValue doc (path ++ ["$timestamp".toList, ['t']])).bind fun t =>
        (M.jsonValue doc (path ++ ["$timestamp".toList, ['i']])).bind fun i =>
          packedOrdinal (M.castUnsigned t) (M.castUnsigned i) := rfl
  rw [htree, hordinal]
  cases hseconds : M.jsonValue doc (path ++ ["$timestamp".toList, ['t']]) with
  | none =>
    rw [hseconds, Option.bind_none] at ht
    rw [Option.bind_none, Option.map_none]
    exact consumes_arith (consumes_arith ht hnumber (onValues_none _ _)) hi (onValues_none _ _)
  | some seconds =>
    rw [hseconds, Option.bind_some] at ht
    rw [Option.bind_some]
    cases hincrement : M.jsonValue doc (path ++ ["$timestamp".toList, ['i']]) with
    | none =>
      rw [hincrement, Option.bind_none] at hi
      rw [Option.bind_none, Option.map_none]
      obtain ⟨y, hy, -⟩ := arith_packed (M.castUnsigned seconds) 0
      rw [← @server_arith M doc] at hy
      refine consumes_arith (consumes_arith ht hnumber hy) hi ?_
      cases y with
      | none => exact onValues_none _ _
      | some a => exact onValues_some_none _ a
    | some increment =>
      rw [hincrement, Option.bind_some] at hi
      rw [Option.bind_some]
      obtain ⟨y, hy, hsum⟩ := arith_packed (M.castUnsigned seconds) (M.castUnsigned increment)
      rw [← @server_arith M doc] at hy hsum
      exact consumes_arith (consumes_arith ht hnumber hy) hi hsum

/-- An operand. -/
lemma consumes_operand (operand : Operand) (h : CleanPath operand.path) :
    Consumes (operand.tree.eval (M.server doc)) [] ((operand.read M doc).map .value) := by
  cases operand with
  | scalar path =>
    have hscalar := @consumes_scalarTree M doc _ h
    rwa [Operand.read, Option.map_map]
  | double path =>
    refine consumes_cast (consumes_scalarTree h) ?_
    rw [Operand.read]
    cases M.scalarExpr doc path <;> rfl
  | ordinal path =>
    have hordinal := @consumes_ordinal M doc _ h
    rwa [Operand.read, Option.map_map]

/-- A comparison with a parameter. -/
lemma compares_term (x : Option SqlValue) (op : CompareOp) (param : Param) :
    (M.server doc).compares op.symbol (x.map .value) param.term =
      some (M.comparison x op param) := by
  have hop : comparisonOf op.symbol = some op := by cases op <;> decide
  cases x with
  | none =>
    rw [MariaDB.comparison, Option.map_none, Option.map_none, ite_self]
    rfl
  | some v =>
    by_cases hnull : param = .null
    · rw [hnull, MariaDB.comparison, if_pos rfl]
      rfl
    · have hterm : param.term = some (.param param) := by
        cases param <;> first | rfl | exact absurd rfl hnull
      have hcompare : (M.server doc).compares op.symbol (some (.value v)) (some (.param param)) =
          ((comparisonOf op.symbol).map fun op => M.compare v op param).map some := rfl
      rw [hterm, Option.map_some, hcompare, hop, MariaDB.comparison, if_neg hnull]
      rfl

/-- The server holds truth values to be what they are. -/
lemma truth_ofTruth_server (t : Kleene) :
    (M.server doc).truth ((M.server doc).ofTruth t) = some t := truth_ofTruth (fun _ => rfl) t

/-- The expression takes the condition's parameters, and has its truth value. -/
def Means (M : MariaDB) (doc : Json) (e : Expr) (params : List Param) (t : Kleene) : Prop :=
  ∃ x, Consumes (e.eval (M.server doc)) (params.map Param.term) x ∧
    (M.server doc).truth x = some t

/-- An expression that takes its parameters for a truth value. -/
lemma Means.of_consumes {e : Expr} {params : List Param} {t : Kleene}
    (h : Consumes (e.eval (M.server doc)) (params.map Param.term) ((M.server doc).ofTruth t)) :
    Means M doc e params t := ⟨_, h, truth_ofTruth_server t⟩

/-- A word that is a number. -/
lemma means_word {t : Text} {n : ℕ} (h : sqlWord doc t = some (some (.number n))) :
    Means M doc (.word t) [] (some (n != 0)) :=
  ⟨_, consumes_word (by rw [server_word, h]), rfl⟩

/-- A comparison. -/
lemma means_compare {operand : Operand} (h : CleanPath operand.path) (op : CompareOp)
    (param : Param) : Means M doc (compareTree operand op) [param]
      (M.comparison (operand.read M doc) op param) :=
  .of_consumes (consumes_compare (consumes_operand operand h) (consumes_param param.term)
    (compares_term _ op param))

/-- A test for null. -/
lemma means_isNull (h : CleanPath path) :
    Means M doc (.isNull (scalarTree path)) [] (some (M.scalarExpr doc path).isNone) := by
  refine .of_consumes ?_
  have hnull := consumes_isNull (@consumes_scalarTree M doc _ h)
  rwa [Option.isNone_map] at hnull

/-- A match. -/
lemma means_regexp (h : CleanPath path) (pattern : Text) :
    Means M doc (.regexp (scalarTree path) .param) [.text pattern]
      ((M.scalarExpr doc path).bind fun s => M.regexp s pattern) := by
  refine .of_consumes (consumes_regexp (consumes_scalarTree h) (consumes_param _) ?_)
  cases M.scalarExpr doc path <;> rfl

/-- A search. -/
lemma means_contains (h : CleanPath path) (candidate : Json) :
    Means M doc (containsTree path) [.json candidate]
      ((jsonAt doc path).map fun json => M.contains json candidate) := by
  have hextract : Consumes ((pathCall "JSON_EXTRACT" (plainPath path)).eval (M.server doc)) []
      ((jsonAt doc path).map .json) := by
    refine consumes_pathCall ?_
    have hcall : M.call "JSON_EXTRACT".toList [some (.json doc), some (.literal (plainPath path))] =
        some ((jsonExtract doc (plainPath path)).map .json) := rfl
    rw [hcall, jsonExtract, readJsonPath_plainPath h, Option.bind_some]
  refine .of_consumes
    (consumes_call (consumes_cons hextract (consumes_cons (consumes_param _) consumes_nil)) ?_)
  cases jsonAt doc path <;> rfl

/-- A test for presence. -/
lemma means_exists (h : CleanPath path) (negated : Bool) :
    Means M doc (existsTree path negated) [] (some ((jsonAt doc path).isSome != negated)) := by
  have hexists : Consumes ((pathCall "JSON_EXISTS" (plainPath path)).eval (M.server doc)) []
      ((M.server doc).ofTruth (some (jsonAt doc path).isSome)) := by
    refine consumes_pathCall ?_
    have hcall : M.call "JSON_EXISTS".toList [some (.json doc), some (.literal (plainPath path))] =
        some ((readJsonPath (plainPath path)).map fun path => .truth (jsonAt doc path).isSome) :=
      rfl
    rw [hcall, readJsonPath_plainPath h]
    rfl
  cases negated with
  | false =>
    rw [Bool.bne_false]
    exact .of_consumes hexists
  | true =>
    rw [Bool.bne_true]
    exact .of_consumes (consumes_not hexists (truth_ofTruth_server _))

/-- A list test. -/
lemma means_inList (h : CleanPath path) (negated : Bool) (members : List Param) :
    Means M doc (.inList (scalarTree path) negated (members.map fun _ => .param)) members
      (let found := Kleene.disj <| members.map fun param =>
        M.comparison ((Operand.scalar path).read M doc) .eq param
      if negated then Kleene.not found else found) := by
  have hmembers : Consumes (Expr.evalAll (M.server doc) (members.map fun _ => .param))
      (members.map Param.term) (members.map Param.term) := by
    induction members with
    | nil => exact consumes_nil
    | cons param members ih => exact consumes_cons (consumes_param param.term) ih
  have hoperand := @consumes_operand M doc (.scalar path) h
  have hfound : (members.map Param.term).mapM ((M.server doc).compares "=".toList
      (((Operand.scalar path).read M doc).map .value)) =
        some (members.map fun param =>
          M.comparison ((Operand.scalar path).read M doc) .eq param) := by
    clear hmembers
    induction members with
    | nil => rfl
    | cons param members ih =>
      have hparam := @compares_term M doc ((Operand.scalar path).read M doc) .eq
        param
      rw [List.map_cons, List.mapM_cons, ih]
      change ((M.server doc).compares CompareOp.eq.symbol _ param.term).bind _ = _
      rw [hparam]
      rfl
  exact .of_consumes (consumes_inList hoperand hmembers hfound)

/-- Several conditions, one after the other. -/
lemma consumes_trees {parts : List Cond}
    (h : ∀ part ∈ parts, Means M doc part.tree part.params (part.eval M doc)) :
    ∃ xs, Consumes (Expr.evalAll (M.server doc) (parts.map Cond.tree))
      ((parts.flatMap Cond.params).map Param.term) xs ∧
        xs.mapM (M.server doc).truth = some (parts.map (Cond.eval M doc)) := by
  induction parts with
  | nil => exact ⟨[], consumes_nil, rfl⟩
  | cons part parts ih =>
    obtain ⟨⟨x, hx, ht⟩, hparts⟩ := List.forall_mem_cons.1 h
    obtain ⟨xs, hxs, hts⟩ := ih hparts
    refine ⟨x :: xs, ?_, ?_⟩
    · rw [List.map_cons, List.flatMap_cons, List.map_append]
      exact consumes_cons hx hxs
    · rw [List.mapM_cons, ht, hts]
      rfl

/-- Conditions that are joined. -/
lemma means_junction (joiner : Joiner) {parts : List Cond}
    (h : ∀ part ∈ parts, Means M doc part.tree part.params (part.eval M doc)) :
    Means M doc (Cond.junction joiner parts).tree (Cond.junction joiner parts).params
      ((Cond.junction joiner parts).eval M doc) := by
  obtain ⟨xs, hxs, hts⟩ := consumes_trees h
  have hparams : (Cond.junction joiner parts).params = parts.flatMap Cond.params :=
    paramsAll_eq_flatMap parts
  rw [hparams, Cond.tree, treeAll_eq_map]
  match parts, h, hxs, hts with
  | [part], h, _, _ =>
    have hpart := h part List.mem_cons_self
    rw [List.flatMap_singleton]
    cases joiner with
    | and =>
      rw [Cond.eval, Cond.evalAll_eq_map, List.map_singleton, List.map_singleton,
        Kleene.conj_singleton]
      exact hpart
    | or =>
      rw [Cond.eval, Cond.evalAll_eq_map, List.map_singleton, List.map_singleton,
        Kleene.disj_singleton]
      exact hpart
  | [], _, hxs, hts =>
    cases joiner with
    | and => exact .of_consumes (consumes_and hxs hts)
    | or => exact .of_consumes (consumes_or hxs hts)
  | first :: second :: parts, _, hxs, hts =>
    rw [← Cond.evalAll_eq_map] at hts
    cases joiner with
    | and => exact .of_consumes (consumes_and hxs hts)
    | or => exact .of_consumes (consumes_or hxs hts)

mutual

/-- The tree of a condition means what the condition is evaluated to. -/
lemma means_tree : ∀ cond : Cond, (∀ path ∈ cond.paths, CleanPath path) →
    Means M doc cond.tree cond.params (cond.eval M doc)
  | .one, _ => means_word (n := 1) rfl
  | .zero, _ => means_word (n := 0) rfl
  | .compare operand op param, h => means_compare (h _ List.mem_cons_self) op param
  | .isNull path, h => means_isNull (h _ List.mem_cons_self)
  | .regexp path pattern, h => means_regexp (h _ List.mem_cons_self) pattern
  | .contains path candidate, h => means_contains (h _ List.mem_cons_self) candidate
  | .jsonExists path negated, h => means_exists (h _ List.mem_cons_self) negated
  | .inList path negated members, h => means_inList (h _ List.mem_cons_self) negated members
  | .junction joiner parts, h => means_junction joiner (means_trees parts h)
  | .not cond, h => by
    obtain ⟨x, hx, ht⟩ := means_tree cond h
    exact .of_consumes (consumes_not hx ht)
termination_by structural cond => cond

/-- So does the tree of each of several conditions. -/
lemma means_trees : ∀ parts : List Cond, (∀ path ∈ Cond.pathsAll parts, CleanPath path) →
    ∀ part ∈ parts, Means M doc part.tree part.params (part.eval M doc)
  | [], _, _, hpart => absurd hpart List.not_mem_nil
  | first :: parts, h, part, hpart => by
    obtain ⟨hfirst, hrest⟩ := List.forall_mem_append.1 h
    by_cases heq : part = first
    · rw [heq]
      exact means_tree first hfirst
    · exact means_trees parts hrest part ((List.mem_cons.1 hpart).resolve_left heq)
termination_by structural parts => parts

end

/-- The text of a condition whose names have no quotes is read as its tree, if it has no empty
parentheses. -/
lemma truth_of_unquoted (M : MariaDB) (doc : Json) {cond : Cond}
    (h : ∀ path ∈ cond.paths, Unquoted path) :
    SqlFilter.truth M doc ⟨cond.text .doc, cond.params⟩ =
      if cond.full then cond.tree.condition (M.server doc) (cond.params.map Param.term)
      else none := by
  rw [SqlFilter.truth]
  dsimp only
  rw [parse_text h]
  split <;> rfl

/-- Clean names have no quotes. -/
lemma CleanPath.unquoted (h : CleanPath path) : Unquoted path :=
  fun name hname hquote => (h name hname _ hquote).1 rfl

/-- **What the emitted text means.**  When no name in its paths has a quote, a double quote or a
backslash, the text of a condition without empty parentheses is read as the condition, and has its
truth value on every stored document. -/
theorem truth_text (M : MariaDB) (doc : Json) {cond : Cond}
    (h : ∀ path ∈ cond.paths, CleanPath path) :
    SqlFilter.truth M doc ⟨cond.text .doc, cond.params⟩ =
      if cond.full then some (cond.eval M doc) else none := by
  have hunquoted : ∀ path ∈ cond.paths, Unquoted path := fun path hpath => (h path hpath).unquoted
  obtain ⟨x, hx, ht⟩ := @means_tree M doc cond h
  rw [truth_of_unquoted M doc hunquoted, condition_eq hx ht]

end Tree

/-! ## What a filter selects -/

mutual

/-- Without empty parentheses, the text is SQL when the parameters are spelled. -/
lemma wellFormed_eq_spelled : ∀ cond : Cond, cond.full = true →
    cond.wellFormed = cond.params.all Param.spelled
  | .one, _ | .zero, _ | .isNull _, _ | .jsonExists _ _, _ => rfl
  | .compare _ _ param, _ => (Bool.and_true _).symm
  | .regexp _ _, _ | .contains _ _, _ | .inList _ _ _, _ => rfl
  | .junction joiner parts, h => by
    obtain ⟨hne, hfull⟩ := Bool.and_eq_true_iff.1 h
    rw [Cond.wellFormed, hne, Bool.true_and]
    exact allWellFormed_eq_spelled parts hfull
  | .not cond, h => wellFormed_eq_spelled cond h
termination_by structural cond => cond

/-- So are the texts of several conditions. -/
lemma allWellFormed_eq_spelled : ∀ parts : List Cond, Cond.allFull parts = true →
    Cond.allWellFormed parts = (Cond.paramsAll parts).all Param.spelled
  | [], _ => rfl
  | part :: parts, h => by
    obtain ⟨hpart, hparts⟩ := Bool.and_eq_true_iff.1 h
    rw [Cond.allWellFormed, Cond.paramsAll, List.all_append, wellFormed_eq_spelled part hpart,
      allWellFormed_eq_spelled parts hparts]
termination_by structural parts => parts

end

mutual

/-- What can be said joins nothing empty. -/
lemma Query.full_of_sayable : ∀ query : Query, query.sayable = true → query.full = true
  | .everything, _ | .test _ _, _ => rfl
  | .conj queries, h => by
    obtain ⟨hne, hall⟩ := Bool.and_eq_true_iff.1 h
    exact Bool.and_eq_true_iff.2 ⟨hne, Query.allFull_of_allSayable queries hall⟩
  | .disj queries, h => by
    obtain ⟨hne, hall⟩ := Bool.and_eq_true_iff.1 h
    exact Bool.and_eq_true_iff.2 ⟨hne, Query.allFull_of_allSayable queries hall⟩
  | .neg query, h => Query.full_of_sayable query h
termination_by structural query => query

/-- So do several queries. -/
lemma Query.allFull_of_allSayable : ∀ queries : List Query, Query.allSayable queries = true →
    Query.allFull queries = true
  | [], _ => rfl
  | query :: queries, h => by
    obtain ⟨hquery, hqueries⟩ := Bool.and_eq_true_iff.1 h
    exact Bool.and_eq_true_iff.2
      ⟨Query.full_of_sayable query hquery, Query.allFull_of_allSayable queries hqueries⟩
termination_by structural queries => queries

end

/-- The path is put into the SQL as it is: no name in it has a quote, a double quote or a backslash,
which the server lexes, nor a question mark, which is taken for a placeholder. -/
structure PlainPath (path : Path) : Prop where
  /-- Nothing in it is lexed. -/
  clean : CleanPath path
  /-- Nothing in it is rendered. -/
  unasked : ∀ name ∈ path, '?' ∉ name

instance (path : Path) : Decidable (PlainPath path) :=
  decidable_of_iff (CleanPath path ∧ ∀ name ∈ path, '?' ∉ name)
    ⟨fun h => ⟨h.1, h.2⟩, fun h => ⟨h.clean, h.unasked⟩⟩

/-- The paths that the filter tests are put into the SQL as they are. -/
def PlainNames (filter : Doc) : Prop := ∀ path ∈ (filterQuery filter).paths, PlainPath path

instance (filter : Doc) : Decidable (PlainNames filter) :=
  inferInstanceAs (Decidable (∀ path ∈ (filterQuery filter).paths, PlainPath path))

section Selects

variable {M : MariaDB} {L : Libbson} {doc : Json} {filter : Doc} {cond : Cond}

/-- The paths of a filter of plain names are clean in its condition. -/
lemma PlainNames.clean (h : PlainNames filter) (hcond : compileDocument L filter = .ok cond) :
    ∀ path ∈ cond.paths, CleanPath path := fun path hpath =>
  (h path ((((outlines_compileRelation L).document hcond).paths path).1 hpath)).clean

/-- A filter that selects is accepted. -/
lemma accepted_of_selects (h : Selects M L filter doc) : Accepted L filter := by
  obtain ⟨out, hout, -⟩ := h
  rw [emitFilter_eq, compileFilter, except_bind_eq_ok] at hout
  obtain ⟨cond, hcond, -⟩ := hout
  exact ⟨cond, hcond⟩

/-- A filter that compiles selects by its text what it selects by its tree. -/
lemma selects_iff_of_clean (hcond : compileDocument L filter = .ok cond)
    (hclean : ∀ path ∈ cond.paths, CleanPath path) :
    Selects M L filter doc ↔ cond.wellFormed = true ∧ cond.eval M doc = some true := by
  have hemitted : emitFilter L .doc filter = .ok ⟨cond.text .doc, cond.params⟩ := by
    rw [emitFilter_eq, compileFilter, hcond]
    rfl
  have htree := (sameTree_compileRelation L).document hcond
  have hagrees : Agrees M L doc cond (filterQuery filter) := compileDocument_agrees hcond
  simp only [Selects, hemitted, Except.ok.injEq, exists_eq_left', truth_text M doc hclean]
  constructor
  · rintro ⟨hspelled, htruth⟩
    split at htruth
    · next hfull =>
      rw [wellFormed_eq_spelled cond hfull]
      exact ⟨hspelled, Option.some.inj htruth⟩
    · cases htruth
  · rintro ⟨hformed, heval⟩
    have hfull : cond.full = true := by
      rw [htree.full]
      exact Query.full_of_sayable _ (hagrees.sayable ▸ hformed)
    rw [← wellFormed_eq_spelled cond hfull, if_pos hfull, heval]
    exact ⟨hformed, rfl⟩

/-- So it selects what the tree is true of. -/
lemma selects_iff_selected_of_clean (hcond : compileDocument L filter = .ok cond)
    (hclean : ∀ path ∈ cond.paths, CleanPath path) :
    Selects M L filter doc ↔ Selected M L filter doc := by
  rw [selects_iff_of_clean hcond hclean]
  simp [Selected, hcond]

/-- **Selection by the text is selection by the tree**, for a filter of plain names. -/
theorem selects_iff_selected (h : PlainNames filter) :
    Selects M L filter doc ↔ Selected M L filter doc := by
  cases hcond : compileDocument L filter with
  | error e =>
    have hrefused : ¬ Accepted L filter := by simp [Accepted, hcond]
    exact iff_of_false (mt accepted_of_selects hrefused) (by simp [Selected, hcond])
  | ok cond => exact selects_iff_selected_of_clean hcond (h.clean hcond)

end Selects

end Chimera

import Chimera.Foundations.Kleene
import Chimera.Translator.Filter

/-!
# What a condition selects

The server evaluates the compiled condition on the stored JSON text in three-valued logic.
`Cond.eval` is that evaluation, as far as the logic of SQL and the reading of paths go; how the
server compares two values that are there is a parameter.
-/

namespace Chimera

/-- A value that SQL read out of a document. -/
inductive SqlValue where
  | text (s : Text)
  | double (d : Binary64)
  | unsigned (n : ℕ)
deriving DecidableEq

/-- What the server does with values that are present. -/
structure MariaDB where
  /-- `JSON_VALUE` of a boolean. -/
  boolText : Bool → Text
  /-- `JSON_VALUE` of a JSON null, which differs between server versions. -/
  nullText : Option Text
  /-- `CAST(… AS DOUBLE)`. -/
  castDouble : Text → Binary64
  /-- `CAST(… AS UNSIGNED)`. -/
  castUnsigned : Text → ℕ
  /-- Comparison of a value with a parameter, neither of them null. -/
  compare : SqlValue → CompareOp → Param → Bool
  /-- `REGEXP` of a text with a pattern. -/
  regexp : Text → Text → Kleene
  /-- `JSON_CONTAINS` of a document with a candidate. -/
  contains : Json → Json → Bool

/-- What the server does with strings of one case.  Numbers do not occur. -/
def MariaDB.ofStrings : MariaDB where
  boolText b := if b then "1".toList else "0".toList
  nullText := none
  castDouble _ := Binary64.ofInt 0
  castUnsigned _ := 0
  compare value op param :=
    match value, op, param with
    | .text s, .eq, .text t => decide (s = t)
    | _, _, _ => false
  regexp _ _ := none
  contains
    | .arr xs, candidate => decide (candidate ∈ xs)
    | json, candidate => decide (json = candidate)

/-! ## Reading paths -/

/-- `JSON_EXTRACT` of a path of member names. -/
def jsonAt : Json → Path → Option Json
  | json, [] => some json
  | .obj fields, name :: rest =>
    match fields.find? fun field => decide (field.1 = name) with
    | some field => jsonAt field.2 rest
    | none => none
  | _, _ :: _ => none

/-- The text of a JSON integer. -/
def integerText (n : ℤ) : Text := if n < 0 then '-' :: decimal n.natAbs else decimal n.natAbs

/-- `JSON_VALUE`: the text of a scalar, null for a container and where nothing is. -/
def MariaDB.jsonValue (M : MariaDB) (doc : Json) (path : Path) : Option Text :=
  match jsonAt doc path with
  | some (.str s) => some s
  | some (.int n) => some (integerText n)
  | some (.bool b) => some (M.boolText b)
  | some .null => M.nullText
  | _ => none

/-- `kWrappers`: the members that canonical Extended JSON wraps a scalar in. -/
def scalarWrappers : List Path :=
  [[], ["$numberInt".toList], ["$numberLong".toList], ["$numberDouble".toList],
    ["$date".toList, "$numberLong".toList], ["$oid".toList]]

/-- `scalar_expr`: the first encoding of a scalar that is there. -/
def MariaDB.scalarExpr (M : MariaDB) (doc : Json) (path : Path) : Option Text :=
  scalarWrappers.findSome? fun wrapper => M.jsonValue doc (path ++ wrapper)

/-- The two halves of a timestamp as one unsigned integer of 64 bits.  An overflow is an error of
the statement, which then selects nothing: here it is null. -/
def packedOrdinal (t i : ℕ) : Option ℕ :=
  if t * 4294967296 + i < 2 ^ 64 then some (t * 4294967296 + i) else none

/-- `comparable` of a timestamp: the pair at a path as one integer. -/
def MariaDB.ordinalAt (M : MariaDB) (doc : Json) (path : Path) : Option ℕ := do
  let t ← M.jsonValue doc (path ++ ["$timestamp".toList, "t".toList])
  let i ← M.jsonValue doc (path ++ ["$timestamp".toList, "i".toList])
  packedOrdinal (M.castUnsigned t) (M.castUnsigned i)

/-- The value of an operand. -/
def Operand.read (M : MariaDB) (doc : Json) : Operand → Option SqlValue
  | .scalar path => (M.scalarExpr doc path).map .text
  | .double path => (M.scalarExpr doc path).map fun s => .double (M.castDouble s)
  | .ordinal path => (M.ordinalAt doc path).map .unsigned

/-! ## Evaluation -/

/-- A comparison; with a null on either side it is unknown. -/
def MariaDB.comparison (M : MariaDB) (value : Option SqlValue) (op : CompareOp) (param : Param) :
    Kleene :=
  if param = .null then none else value.map fun x => M.compare x op param

mutual

/-- The truth value of a condition on a stored document. -/
def Cond.eval (M : MariaDB) (doc : Json) : Cond → Kleene
  | .one => some true
  | .zero => some false
  | .compare operand op param => M.comparison (operand.read M doc) op param
  | .isNull path => some (M.scalarExpr doc path).isNone
  | .regexp path pattern => (M.scalarExpr doc path).bind fun s => M.regexp s pattern
  | .contains path candidate => (jsonAt doc path).map fun json => M.contains json candidate
  | .jsonExists path negated => some ((jsonAt doc path).isSome != negated)
  | .inList path negated members =>
    let found := Kleene.disj <| members.map fun param =>
      M.comparison ((Operand.scalar path).read M doc) .eq param
    if negated then Kleene.not found else found
  | .junction .and parts => Kleene.conj (Cond.evalAll M doc parts)
  | .junction .or parts => Kleene.disj (Cond.evalAll M doc parts)
  | .not cond => Kleene.not (cond.eval M doc)
termination_by structural cond => cond

/-- The truth values of several conditions. -/
def Cond.evalAll (M : MariaDB) (doc : Json) : List Cond → List Kleene
  | [] => []
  | part :: parts => part.eval M doc :: Cond.evalAll M doc parts
termination_by structural parts => parts

end

/-- The parameter has a spelling in SQL: `%.17g` prints the infinities and NaN as words. -/
def Param.spelled : Param → Bool
  | .double d => d.isFinite
  | _ => true

mutual

/-- The text of the condition is SQL: no empty parentheses, and every parameter is spelled. -/
def Cond.wellFormed : Cond → Bool
  | .compare _ _ param => param.spelled
  | .inList _ _ members => members.all Param.spelled
  | .junction _ parts => !parts.isEmpty && Cond.allWellFormed parts
  | .not cond => cond.wellFormed
  | _ => true
termination_by structural cond => cond

/-- All conditions are well formed. -/
def Cond.allWellFormed : List Cond → Bool
  | [] => true
  | part :: parts => part.wellFormed && Cond.allWellFormed parts
termination_by structural parts => parts

end

/-- The filter is accepted by the compiler. -/
def Accepted (L : Libbson) (filter : Doc) : Prop := ∃ cond, compileDocument L filter = .ok cond

/-- The document is selected: the statement runs, and its condition is true of the document. -/
def Selected (M : MariaDB) (L : Libbson) (filter : Doc) (doc : Json) : Prop :=
  ∃ cond, compileDocument L filter = .ok cond ∧ cond.wellFormed = true ∧
    cond.eval M doc = some true

/-! ## Rules for lists -/

/-- The truth values of several conditions, one by one. -/
@[simp] lemma Cond.evalAll_eq_map (M : MariaDB) (doc : Json) (parts : List Cond) :
    Cond.evalAll M doc parts = parts.map (Cond.eval M doc) := by
  induction parts with
  | nil => rfl
  | cons part parts ih => simp [Cond.evalAll, ih]

/-- All conditions are well formed when each of them is. -/
@[simp] lemma Cond.allWellFormed_eq_all (parts : List Cond) :
    Cond.allWellFormed parts = parts.all Cond.wellFormed := by
  induction parts with
  | nil => rfl
  | cons part parts ih => simp [Cond.allWellFormed, ih]

/-- `conjoin` drops parentheses only where they change nothing. -/
@[simp] lemma eval_conjoin_and (M : MariaDB) (doc : Json) (parts : List Cond) :
    (conjoin .and parts).eval M doc = Kleene.conj (parts.map (Cond.eval M doc)) := by
  match parts with
  | [] => simp [conjoin, Cond.eval]
  | [part] => simp [conjoin]
  | _ :: _ :: _ => simp [conjoin, Cond.eval]

/-- `conjoin` drops parentheses only where they change nothing. -/
@[simp] lemma eval_conjoin_or (M : MariaDB) (doc : Json) (parts : List Cond) :
    (conjoin .or parts).eval M doc = Kleene.disj (parts.map (Cond.eval M doc)) := by
  match parts with
  | [] => simp [conjoin, Cond.eval]
  | [part] => simp [conjoin]
  | _ :: _ :: _ => simp [conjoin, Cond.eval]

/-- A junction is well formed when it has parts and each of them is. -/
@[simp] lemma wellFormed_conjoin (joiner : Joiner) (parts : List Cond) :
    (conjoin joiner parts).wellFormed = (!parts.isEmpty && parts.all Cond.wellFormed) := by
  match parts with
  | [] => rfl
  | [part] => simp [conjoin]
  | _ :: _ :: _ => simp [conjoin, Cond.wellFormed]

/-- Joined conditions are SQL when each of them is. -/
lemma wellFormed_conjoinFields (conds : List Cond) :
    (conjoinFields conds).wellFormed = true ↔ ∀ cond ∈ conds, cond.wellFormed = true := by
  cases conds with
  | nil => simp [conjoinFields, Cond.wellFormed]
  | cons cond conds =>
    have hjoin : conjoinFields (cond :: conds) = conjoin .and (cond :: conds) := rfl
    rw [hjoin, wellFormed_conjoin]
    simp

/-- Joined conditions are true when each of them is. -/
lemma eval_conjoinFields {M : MariaDB} {json : Json} (conds : List Cond) :
    (conjoinFields conds).eval M json = some true ↔
      ∀ cond ∈ conds, cond.eval M json = some true := by
  cases conds with
  | nil => simp [conjoinFields, Cond.eval]
  | cons cond conds =>
    have hjoin : conjoinFields (cond :: conds) = conjoin .and (cond :: conds) := rfl
    rw [hjoin, eval_conjoin_and, Kleene.conj_eq_true, List.forall_mem_map]

end Chimera

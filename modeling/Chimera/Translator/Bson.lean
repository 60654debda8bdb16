import Chimera.Foundations.Binary64
import Chimera.Translator.Error
import Mathlib.Data.Int.Basic

/-!
# BSON values and document paths

A BSON document is the list of its fields in order; an array is a document whose keys are
`"0"`, `"1"`, and so on.  Field names are C strings, which may repeat.  The path functions read,
replace and remove one member of a document, given the names that lead to it.
-/

namespace Chimera

/-- A BSON value. -/
inductive Value where
  | double (d : Binary64)
  | utf8 (s : Text)
  | document (fields : List (Text × Value))
  | array (fields : List (Text × Value))
  | binary (subtype : ℕ) (data : Text)
  | undefined
  | oid (bytes : BitVec 96)
  | bool (b : Bool)
  | dateTime (ms : Int64)
  | null
  | regex (pattern options : Text)
  | dbPointer (collection : Text) (bytes : BitVec 96)
  | code (s : Text)
  | symbol (s : Text)
  | codeWScope (s : Text) (scope : List (Text × Value))
  | int32 (n : Int32)
  | timestamp (t i : UInt32)
  | int64 (n : Int64)
  | decimal128 (bits : BitVec 128)
  | minKey
  | maxKey
deriving Inhabited

/-- A BSON document: its fields, in order. -/
abbrev Doc := List (Text × Value)

mutual

/-- Equality of values as a computation. -/
def Value.beq : Value → Value → Bool
  | .double a, .double b => a == b
  | .utf8 a, .utf8 b => a == b
  | .document a, .document b => Value.beqFields a b
  | .array a, .array b => Value.beqFields a b
  | .binary s a, .binary t b => s == t && a == b
  | .undefined, .undefined => true
  | .oid a, .oid b => a == b
  | .bool a, .bool b => a == b
  | .dateTime a, .dateTime b => a == b
  | .null, .null => true
  | .regex a o, .regex b p => a == b && o == p
  | .dbPointer c a, .dbPointer d b => c == d && a == b
  | .code a, .code b => a == b
  | .symbol a, .symbol b => a == b
  | .codeWScope a s, .codeWScope b t => a == b && Value.beqFields s t
  | .int32 a, .int32 b => a == b
  | .timestamp t i, .timestamp u j => t == u && i == j
  | .int64 a, .int64 b => a == b
  | .decimal128 a, .decimal128 b => a == b
  | .minKey, .minKey => true
  | .maxKey, .maxKey => true
  | _, _ => false
termination_by structural a => a

/-- Equality of the fields of two documents. -/
def Value.beqFields : List (Text × Value) → List (Text × Value) → Bool
  | [], [] => true
  | (k, v) :: as, (k', v') :: bs => k == k' && v.beq v' && Value.beqFields as bs
  | _, _ => false
termination_by structural a => a

end

mutual

/-- The computed equality is equality. -/
lemma Value.beq_iff : ∀ a b : Value, a.beq b = true ↔ a = b
  | .double a, b => by cases b <;> simp [Value.beq]
  | .utf8 a, b => by cases b <;> simp [Value.beq]
  | .document a, b => by cases b <;> simp [Value.beq, Value.beqFields_iff a]
  | .array a, b => by cases b <;> simp [Value.beq, Value.beqFields_iff a]
  | .binary s a, b => by cases b <;> simp [Value.beq]
  | .undefined, b => by cases b <;> simp [Value.beq]
  | .oid a, b => by cases b <;> simp [Value.beq]
  | .bool a, b => by cases b <;> simp [Value.beq]
  | .dateTime a, b => by cases b <;> simp [Value.beq]
  | .null, b => by cases b <;> simp [Value.beq]
  | .regex a o, b => by cases b <;> simp [Value.beq]
  | .dbPointer c a, b => by cases b <;> simp [Value.beq]
  | .code a, b => by cases b <;> simp [Value.beq]
  | .symbol a, b => by cases b <;> simp [Value.beq]
  | .codeWScope a s, b => by cases b <;> simp [Value.beq, Value.beqFields_iff s]
  | .int32 a, b => by cases b <;> simp [Value.beq]
  | .timestamp t i, b => by cases b <;> simp [Value.beq]
  | .int64 a, b => by cases b <;> simp [Value.beq]
  | .decimal128 a, b => by cases b <;> simp [Value.beq]
  | .minKey, b => by cases b <;> simp [Value.beq]
  | .maxKey, b => by cases b <;> simp [Value.beq]

/-- The computed equality of fields is equality. -/
lemma Value.beqFields_iff : ∀ a b : List (Text × Value), Value.beqFields a b = true ↔ a = b
  | [], b => by cases b <;> simp [Value.beqFields]
  | (k, v) :: as, b => by
    rcases b with _ | ⟨⟨k', v'⟩, bs⟩
    · simp [Value.beqFields]
    · simp [Value.beqFields, Value.beq_iff v, Value.beqFields_iff as]

end

instance : DecidableEq Value := fun a b => decidable_of_iff _ (Value.beq_iff a b)

/-! ## Numbers and equality -/

/-- `value_is_numeric`. -/
def valueIsNumeric : Value → Bool
  | .int32 _ | .int64 _ | .double _ => true
  | _ => false

/-- `value_as_double`. -/
def valueAsDouble : Value → Except TranslatorError Binary64
  | .int32 n => .ok (Binary64.ofInt n.toInt)
  | .int64 n => .ok (Binary64.ofInt n.toInt)
  | .double d => .ok d
  | _ => .error (typeMismatch "expected a numeric value".toList)

/-- The double a number converts to; zero for what is not a number. -/
def Value.toDouble (v : Value) : Binary64 := (valueAsDouble v).toOption.getD (Binary64.ofInt 0)

/-- The double of a value that has one. -/
lemma toDouble_of_ok {v : Value} {d : Binary64} (h : valueAsDouble v = .ok d) :
    v.toDouble = d := by
  rw [Value.toDouble, h]
  rfl

/-- `value_equal`: numbers compare as doubles, documents byte by byte, and types without a case
of their own are never equal. -/
def valueEqual (a b : Value) : Bool :=
  if valueIsNumeric a && valueIsNumeric b then a.toDouble.numEq b.toDouble
  else
    match a, b with
    | .utf8 a, .utf8 b => a == b
    | .bool a, .bool b => a == b
    | .null, .null | .undefined, .undefined | .minKey, .minKey | .maxKey, .maxKey => true
    | .oid a, .oid b => a == b
    | .dateTime a, .dateTime b => a == b
    | .timestamp t i, .timestamp u j => t == u && i == j
    | .binary _ a, .binary _ b => a == b
    | .document a, .document b => Value.beqFields a b
    | .array a, .array b => Value.beqFields a b
    | _, _ => false

/-! ## Paths -/

/-- A document path, as the names of its members. -/
abbrev Path := List Text

/-- The parts between the dots of a text. -/
def splitDots : Text → List Text
  | [] => [[]]
  | '.' :: rest => [] :: splitDots rest
  | c :: rest =>
    match splitDots rest with
    | [] => [[c]]
    | part :: parts => (c :: part) :: parts

/-- `split_path`. -/
def splitPath (dotted : Text) : Except TranslatorError Path :=
  let parts := splitDots dotted
  if parts.any List.isEmpty then
    .error (failedToParse ("empty path member in '".toList ++ dotted ++ "'".toList))
  else .ok parts

/-- A text has a part. -/
lemma splitDots_ne_nil (dotted : Text) : splitDots dotted ≠ [] := by
  fun_cases splitDots dotted <;> simp_all

/-- A path that splits splits at its dots. -/
lemma splitPath_eq_ok {dotted : Text} {path : Path} (h : splitPath dotted = .ok path) :
    path = splitDots dotted := by
  simp only [splitPath] at h
  split at h
  · cases h
  · exact (Except.ok.inj h).symm

/-- Backslash-escape the quote and the backslash. -/
def escapeMember (member : Text) : Text :=
  member.flatMap fun c => if c = '"' ∨ c = '\\' then ['\\', c] else [c]

/-- `to_json_path`: every member is quoted. -/
def toJsonPath (path : Path) : Text :=
  '$' :: path.flatMap fun member => '.' :: '"' :: escapeMember member ++ ['"']

/-- The first field of a name. -/
def findField (doc : Doc) (name : Text) : Option Value :=
  (doc.find? fun f => decide (f.1 = name)).map Prod.snd

/-- The fields of a document or of an array. -/
def Value.subdocument : Value → Option Doc
  | .document fields | .array fields => some fields
  | _ => none

/-- The value is a document. -/
def Value.isDocument : Value → Bool
  | .document _ => true
  | _ => false

/-- `path_get`. -/
def pathGet (doc : Doc) : Path → Option Value
  | [] => none
  | [name] => findField doc name
  | name :: rest => do
    let child ← (← findField doc name).subdocument
    pathGet child rest

/-- Replace the fields of a name by `f` of their values, or append `f` of nothing. -/
def setField (doc : Doc) (name : Text) (f : Option Value → Value) : Doc :=
  if doc.any fun field => decide (field.1 = name) then
    doc.map fun field => if field.1 = name then (field.1, f (some field.2)) else field
  else doc ++ [(name, f none)]

/-- `path_set`: missing levels, and levels that are scalars, become documents. -/
def pathSet (doc : Doc) : Path → Value → Doc
  | [], _ => doc
  | [name], value => setField doc name fun _ => value
  | name :: rest, value => setField doc name fun
    | some (.array fields) => .array (pathSet fields rest value)
    | some (.document fields) => .document (pathSet fields rest value)
    | _ => .document (pathSet [] rest value)

/-- `path_unset`. -/
def pathUnset (doc : Doc) : Path → Doc
  | [] => doc
  | [name] => doc.filter fun field => !decide (field.1 = name)
  | name :: rest => doc.map fun field =>
    if field.1 = name then
      match field.2 with
      | .array fields => (field.1, .array (pathUnset fields rest))
      | .document fields => (field.1, .document (pathUnset fields rest))
      | _ => field
    else field

/-- `array_values`. -/
def arrayValues : Value → Except TranslatorError (List Value)
  | .array fields => .ok (fields.map Prod.snd)
  | _ => .error (typeMismatch "expected an array".toList)

/-- `make_array`. -/
def makeArray (elements : List Value) : Doc :=
  elements.zipIdx.map fun (v, i) => (decimal i, v)

/-! ## Reading what was written -/

/-- The first field of a document. -/
@[simp] lemma findField_cons (k : Text) (v : Value) (doc : Doc) (name : Text) :
    findField ((k, v) :: doc) name = if k = name then some v else findField doc name := by
  by_cases h : k = name <;> simp [findField, h]

/-- An empty document has no field. -/
@[simp] lemma findField_nil (name : Text) : findField [] name = none := rfl

/-- A field is found in the first part of a document or else in the second. -/
lemma findField_append (doc doc' : Doc) (name : Text) :
    findField (doc ++ doc') name = (findField doc name).or (findField doc' name) := by
  induction doc with
  | nil => rfl
  | cons field doc ih =>
    obtain ⟨k, v⟩ := field
    by_cases hk : k = name
    · simp [hk]
    · simp [hk, ih]

/-- Replacing the fields of one name leaves the fields of another alone. -/
lemma findField_setField_of_ne {doc : Doc} {name other : Text} {f : Option Value → Value}
    (h : other ≠ name) : findField (setField doc name f) other = findField doc other := by
  unfold setField
  split
  · clear * - h
    induction doc with
    | nil => rfl
    | cons field doc ih =>
      obtain ⟨k, v⟩ := field
      by_cases hk : k = name
      · subst hk
        simp [h.symm, ih]
      · by_cases ho : k = other
        · subst ho
          simp [hk]
        · simp [hk, ho, ih]
  · clear * - h
    induction doc with
    | nil => simp [h.symm]
    | cons field doc ih =>
      obtain ⟨k, v⟩ := field
      by_cases ho : k = other <;> simp [ho, ih]

/-- Setting a path leaves the fields outside it alone. -/
lemma findField_pathSet_of_ne {doc : Doc} {path : Path} {value : Value} {name : Text}
    (h : path.head? ≠ some name) :
    findField (pathSet doc path value) name = findField doc name := by
  match path with
  | [] => rfl
  | [k] => exact findField_setField_of_ne fun hk => h (by simp [hk])
  | k :: _ :: _ => exact findField_setField_of_ne fun hk => h (by simp [hk])

/-- Removing the fields of one name leaves the fields of another alone. -/
lemma findField_filter_of_ne {doc : Doc} {name other : Text} (h : other ≠ name) :
    findField (doc.filter fun field => !decide (field.1 = name)) other = findField doc other := by
  induction doc with
  | nil => rfl
  | cons field doc ih =>
    obtain ⟨k, v⟩ := field
    by_cases hk : k = name
    · subst hk
      simp [h.symm, ih]
    · by_cases ho : k = other
      · subst ho
        simp [hk]
      · simp [hk, ho, ih]

/-- Unsetting a path leaves the fields outside it alone. -/
lemma findField_pathUnset_of_ne {doc : Doc} {path : Path} {name : Text}
    (h : path.head? ≠ some name) : findField (pathUnset doc path) name = findField doc name := by
  match path with
  | [] => rfl
  | [k] => exact findField_filter_of_ne fun hk => h (by simp [hk])
  | k :: k' :: rest =>
    have hk : k ≠ name := fun hk => h (by simp [hk])
    simp only [pathUnset]
    induction doc with
    | nil => rfl
    | cons field doc ih =>
      obtain ⟨k₀, v⟩ := field
      by_cases h₀ : k₀ = k
      · subst h₀
        cases v <;> simp [hk, ih]
      · by_cases ho : k₀ = name
        · subst ho
          simp [h₀]
        · simp [h₀, ho, ih]

end Chimera

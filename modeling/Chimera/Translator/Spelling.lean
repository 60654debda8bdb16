import Chimera.Foundations.Binary64Exact
import Chimera.Foundations.Positional
import Chimera.Translator.FilterSemantics

/-!
# How values are spelled and read

Canonical Extended JSON spells a scalar in one way for its type, most of them as an object with one
reserved key.  MariaDB reads a spelled scalar as a text, and compares and searches texts.  This
module states both as they are documented, and proves what the two make of each other.
-/

namespace Chimera

/-! ## Canonical Extended JSON -/

/-- The spellings that take an algorithm of their own. -/
structure Spelling where
  /-- The text of a double, to twenty digits. -/
  double : Binary64 → Text
  /-- The text of a decimal. -/
  decimal128 : BitVec 128 → Text
  /-- The text of binary data. -/
  base64 : Text → Text
  /-- The text of a subtype. -/
  subtype : ℕ → Text

/-- An object with one member. -/
def wrapper (key : String) (json : Json) : Json := .obj [(key.toList, json)]

namespace Spelling

variable (S : Spelling)

mutual

/-- A value in canonical Extended JSON. -/
def write : Value → Json
  | .double d => wrapper "$numberDouble" (.str (S.double d))
  | .utf8 s => .str s
  | .document fields => .obj (writeFields fields)
  | .array fields => .arr (writeElements fields)
  | .binary subtype data => wrapper "$binary"
    (.obj [("base64".toList, .str (S.base64 data)), ("subType".toList, .str (S.subtype subtype))])
  | .undefined => wrapper "$undefined" (.bool true)
  | .oid bytes => wrapper "$oid" (.str (oidString bytes))
  | .bool b => .bool b
  | .dateTime ms => wrapper "$date" (wrapper "$numberLong" (.str (integerText ms.toInt)))
  | .null => .null
  | .regex pattern options => wrapper "$regularExpression"
    (.obj [("pattern".toList, .str pattern), ("options".toList, .str options)])
  | .dbPointer collection bytes => wrapper "$dbPointer"
    (.obj [("$ref".toList, .str collection),
      ("$id".toList, wrapper "$oid" (.str (oidString bytes)))])
  | .code s => wrapper "$code" (.str s)
  | .symbol s => wrapper "$symbol" (.str s)
  | .codeWScope s scope =>
    .obj [("$code".toList, .str s), ("$scope".toList, .obj (writeFields scope))]
  | .int32 n => wrapper "$numberInt" (.str (integerText n.toInt))
  | .timestamp t i =>
    wrapper "$timestamp" (.obj [("t".toList, .int t.toNat), ("i".toList, .int i.toNat)])
  | .int64 n => wrapper "$numberLong" (.str (integerText n.toInt))
  | .decimal128 bits => wrapper "$numberDecimal" (.str (S.decimal128 bits))
  | .minKey => wrapper "$minKey" (.int 1)
  | .maxKey => wrapper "$maxKey" (.int 1)
termination_by structural v => v

/-- The fields of a document. -/
def writeFields : Doc → List (Text × Json)
  | [] => []
  | (name, v) :: fields => (name, write v) :: writeFields fields
termination_by structural fields => fields

/-- The elements of an array. -/
def writeElements : Doc → List Json
  | [] => []
  | (_, v) :: fields => write v :: writeElements fields
termination_by structural fields => fields

end

end Spelling

/-- Documents are written in canonical Extended JSON. -/
def Libbson.Spells (L : Libbson) (S : Spelling) : Prop :=
  ∀ doc json, L.toExtjson doc = .ok json → json = .obj (S.writeFields doc)

/-! ## Reading members -/

/-- A path through another one. -/
lemma jsonAt_append (json : Json) (p q : Path) :
    jsonAt json (p ++ q) = (jsonAt json p).bind fun inner => jsonAt inner q := by
  induction p generalizing json with
  | nil => simp [jsonAt]
  | cons name rest ih =>
    cases json with
    | obj fields =>
      simp only [List.cons_append, jsonAt]
      cases fields.find? fun field => decide (field.1 = name) with
      | some field => exact ih field.2
      | none => rfl
    | _ => rfl

/-- The scalar under a path. -/
lemma MariaDB.jsonValue_append (M : MariaDB) (json : Json) (p q : Path) :
    M.jsonValue json (p ++ q) = (jsonAt json p).bind fun inner => M.jsonValue inner q := by
  unfold MariaDB.jsonValue
  rw [jsonAt_append]
  cases jsonAt json p <;> rfl

/-- The scalar at a path is that of what is at the path. -/
lemma MariaDB.scalarExpr_at (M : MariaDB) (json : Json) (path : Path) :
    M.scalarExpr json path = (jsonAt json path).bind fun inner => M.scalarExpr inner [] := by
  unfold MariaDB.scalarExpr
  simp only [M.jsonValue_append json path, List.nil_append]
  cases jsonAt json path with
  | none => simp [scalarWrappers]
  | some inner => rfl

/-- The ordinal at a path is that of what is at the path. -/
lemma MariaDB.ordinalAt_at (M : MariaDB) (json : Json) (path : Path) :
    M.ordinalAt json path = (jsonAt json path).bind fun inner => M.ordinalAt inner [] := by
  simp only [MariaDB.ordinalAt, M.jsonValue_append json path, List.nil_append]
  cases jsonAt json path <;> rfl

/-- What a comparison reads at a path is what it reads of what is at the path. -/
lemma read_comparable (M : MariaDB) (json : Json) (path : Path) (v : Value) :
    (comparable path v).read M json =
      (jsonAt json path).bind fun inner => (comparable [] v).read M inner := by
  have hscalar := M.scalarExpr_at json path
  cases v with
  | timestamp t i =>
    simp only [comparable, Operand.read, M.ordinalAt_at json path]
    cases jsonAt json path <;> rfl
  | dateTime _ | int32 _ | int64 _ | double _ =>
    simp only [comparable, Operand.read, hscalar]
    cases jsonAt json path <;> rfl
  | _ =>
    simp only [comparable, Operand.read, hscalar]
    cases jsonAt json path <;> rfl

/-! ## MariaDB -/

mutual

/-- Some value that is no array meets the condition, through arrays in arrays. -/
def Json.anyLeaf (p : Json → Bool) : Json → Bool
  | .arr xs => anyLeafOf p xs
  | json => p json
termination_by structural json => json

/-- As `Json.anyLeaf`, in the elements of an array. -/
def Json.anyLeafOf (p : Json → Bool) : List Json → Bool
  | [] => false
  | x :: xs => x.anyLeaf p || Json.anyLeafOf p xs
termination_by structural xs => xs

end

/-- The first member of a name. -/
def member (fields : List (Text × Json)) (name : Text) : Option Json :=
  (fields.find? fun field => decide (field.1 = name)).map Prod.snd

mutual

/-- `JSON_CONTAINS`, the candidate first: a candidate that is no array is contained in an array
that has an element it is contained in, and an object in an object that has all its members. -/
def Json.containedIn : Json → Json → Bool
  | .arr cs, target =>
    match target with
    | .arr xs => Json.allContained cs xs
    | _ => false
  | .obj cs, target => target.anyLeaf fun
    | .obj fields => Json.membersContained cs fields
    | _ => false
  | .str s, target => target.anyLeaf fun
    | .str t => decide (t = s)
    | _ => false
  | .int n, target => target.anyLeaf fun
    | .int m => decide (m = n)
    | _ => false
  | .bool b, target => target.anyLeaf fun
    | .bool c => decide (c = b)
    | _ => false
  | .null, target => target.anyLeaf fun
    | .null => true
    | _ => false
termination_by structural c => c

/-- Each of the candidates is contained in one of the elements. -/
def Json.allContained : List Json → List Json → Bool
  | [], _ => true
  | c :: cs, xs => xs.any (fun x => c.containedIn x) && Json.allContained cs xs
termination_by structural cs => cs

/-- Each of the members is contained in the member of its name. -/
def Json.membersContained : List (Text × Json) → List (Text × Json) → Bool
  | [], _ => true
  | (name, c) :: cs, fields =>
    (match member fields name with
      | some json => c.containedIn json
      | none => false) && Json.membersContained cs fields
termination_by structural cs => cs

end

/-- The server compares and searches as its documentation says, with integers of 64 bits and finite
doubles.  Texts compare by a collation, of which nothing is said. -/
structure MariaDB.Documented (M : MariaDB) (S : Spelling) : Prop where
  /-- A boolean is read as one or zero. -/
  boolText : ∀ b, M.boolText b = integerText (if b then 1 else 0)
  /-- The number of an integer's text is the double nearest to it. -/
  castDouble_integer : ∀ n : Int64, M.castDouble (integerText n.toInt) = Binary64.ofInt n.toInt
  /-- The text of a double is read back. -/
  castDouble_double : ∀ d : Binary64, d.isFinite = true → M.castDouble (S.double d) = d
  /-- The number of a text is finite. -/
  castDouble_finite : ∀ s, (M.castDouble s).isFinite = true
  /-- The text of a double tells it from every other one. -/
  double_inj : ∀ d e : Binary64, d.isFinite = true → S.double e = S.double d → e = d
  /-- The number of a natural number's text. -/
  castUnsigned_decimal : ∀ n < 2 ^ 64, M.castUnsigned (decimal n) = n
  /-- A text compares with a boolean as numbers do. -/
  compare_bool : ∀ s b,
    M.compare (.text s) .eq (.bool b) = (M.castDouble s).numEq (Binary64.ofInt (if b then 1 else 0))
  /-- A double compares with an integer as doubles do. -/
  compare_int : ∀ d : Binary64, d.isFinite = true → ∀ n : Int64,
    M.compare (.double d) .eq (.int n) = d.numEq (Binary64.ofInt n.toInt)
  /-- Two doubles. -/
  compare_double : ∀ d e : Binary64, d.isFinite = true → e.isFinite = true →
    M.compare (.double d) .eq (.double e) = d.numEq e
  /-- An unsigned integer compares with a signed one exactly. -/
  compare_unsigned : ∀ m < 2 ^ 64, ∀ n : Int64,
    M.compare (.unsigned m) .eq (.int n) = decide ((m : ℤ) = n.toInt)
  /-- `JSON_CONTAINS`. -/
  contains : ∀ target candidate, M.contains target candidate = candidate.containedIn target

/-! ## Texts of numbers -/

/-- A number is told by its digits. -/
lemma decimal_inj {m n : ℕ} (h : decimal m = decimal n) : m = n := by
  have hdigits := congrArg (Nat.ofDigitChars 10 · 0) h
  simpa [decimal, Nat.ofDigitChars_ten_toDigits] using hdigits

/-- A minus sign is no digit. -/
lemma decimal_ne_minus {n : ℕ} {s : Text} : decimal n ≠ '-' :: s := by
  intro h
  have hmem : '-' ∈ decimal n := by
    rw [h]
    exact List.mem_cons_self
  exact absurd (isDigit_of_mem_decimal hmem) (by decide)

/-- An integer is told by its text. -/
lemma integerText_inj {m n : ℤ} (h : integerText m = integerText n) : m = n := by
  unfold integerText at h
  split at h
  · split at h
    · have habs := decimal_inj (List.cons.inj h).2
      omega
    · exact absurd h.symm decimal_ne_minus
  · split at h
    · exact absurd h decimal_ne_minus
    · have habs := decimal_inj h
      omega

/-- A hexadecimal digit is told by its character. -/
lemma hexDigit_inj : ∀ m < 16, ∀ n < 16, hexDigit m = hexDigit n → m = n := by decide

/-- The text of an ObjectId is made of its digits. -/
lemma oidString_eq (bytes : BitVec 96) :
    oidString bytes = (Positional.digits 16 24 bytes.toNat).map hexDigit := by
  rw [Positional.digits, List.map_map]
  rfl

/-- An ObjectId is told by its text. -/
lemma oidString_inj {a b : BitVec 96} (h : oidString a = oidString b) : a = b := by
  have hbound : ∀ c : BitVec 96, c.toNat < 16 ^ 24 := fun c => c.isLt
  rw [oidString_eq, oidString_eq] at h
  exact BitVec.eq_of_toNat_eq
    (Positional.map_digits_inj hexDigit_inj (by omega) (hbound a) (hbound b) h)

/-! ## Values and what is read of them -/

/-- The value is a document or an array. -/
def Value.isContainer : Value → Bool
  | .document _ | .array _ => true
  | _ => false

/-- The value at a path, through documents. -/
def Value.at : Value → Path → Option Value
  | v, [] => some v
  | .document fields, name :: rest => (findField fields name).bind fun v => v.at rest
  | _, _ :: _ => none

/-- A scalar that equality compares with: of a type that `bind` accepts, and neither null nor an
infinite number. -/
def Value.matchable : Value → Bool
  | .bool _ | .int32 _ | .int64 _ | .dateTime _ | .timestamp _ _ | .oid _ | .utf8 _ => true
  | .double d => d.isFinite
  | _ => false

/-- The text that the server reads of a scalar. -/
def MariaDB.textOf (M : MariaDB) (S : Spelling) : Value → Option Text
  | .utf8 s => some s
  | .bool b => some (M.boolText b)
  | .null => M.nullText
  | .int32 n => some (integerText n.toInt)
  | .int64 n | .dateTime n => some (integerText n.toInt)
  | .double d => some (S.double d)
  | .oid bytes => some (oidString bytes)
  | _ => none

section Reading

variable {M : MariaDB} {S : Spelling}

/-- The first member of a written document. -/
lemma find_writeFields (fields : Doc) (name : Text) :
    ((S.writeFields fields).find? fun field => decide (field.1 = name)).map Prod.snd =
      (findField fields name).map S.write := by
  induction fields with
  | nil => rfl
  | cons field fields ih =>
    obtain ⟨k, v⟩ := field
    rw [Spelling.writeFields, findField_cons, List.find?_cons]
    by_cases hk : k = name
    · simp [hk]
    · simp [hk, ih]

/-- A path into a written document. -/
lemma jsonAt_writeFields (fields : Doc) (name : Text) (rest : Path) :
    jsonAt (.obj (S.writeFields fields)) (name :: rest) =
      (findField fields name).bind fun x => jsonAt (S.write x) rest := by
  have hfind := find_writeFields (S := S) fields name
  rw [jsonAt]
  cases hmember : (S.writeFields fields).find? fun field => decide (field.1 = name) with
  | none =>
    rw [hmember, Option.map_none, eq_comm, Option.map_eq_none_iff] at hfind
    rw [hfind]
    rfl
  | some field =>
    rw [hmember, Option.map_some, eq_comm, Option.map_eq_some_iff] at hfind
    obtain ⟨x, hx, hwrite⟩ := hfind
    rw [hx, Option.bind_some, hwrite]

/-- A value at a path is written at the path. -/
lemma jsonAt_write {v x : Value} {path : Path} (h : v.at path = some x) :
    jsonAt (S.write v) path = some (S.write x) := by
  induction path generalizing v with
  | nil =>
    obtain rfl : v = x := by cases v <;> exact Option.some.inj h
    cases h' : S.write v <;> rfl
  | cons name rest ih =>
    cases v with
    | document fields =>
      obtain ⟨inner, hinner, hrest⟩ := Option.bind_eq_some_iff.1 h
      rw [Spelling.write, jsonAt_writeFields, hinner, Option.bind_some]
      exact ih hrest
    | _ => cases h

/-- What the server reads of a written scalar. -/
lemma scalarExpr_write {x : Value} (hx : x.isContainer = false) :
    M.scalarExpr (S.write x) [] = M.textOf S x := by
  cases x with
  | document fields => cases hx
  | array fields => cases hx
  | null =>
    cases hnull : M.nullText with
    | none => simp [MariaDB.scalarExpr, scalarWrappers, MariaDB.jsonValue, jsonAt, Spelling.write,
        MariaDB.textOf, hnull, List.findSome?_cons]
    | some s => simp [MariaDB.scalarExpr, scalarWrappers, MariaDB.jsonValue, jsonAt, Spelling.write,
        MariaDB.textOf, hnull, List.findSome?_cons]
  | _ => rfl

/-- The packed pair that the server computes is below `2 ^ 64`. -/
lemma packed_lt (t i : UInt32) : t.toNat * 4294967296 + i.toNat < 2 ^ 64 := by
  have ht := t.toNat_lt
  have hi := i.toNat_lt
  omega

/-- The ordinal of a stored timestamp. -/
lemma ordinalAt_write (hcast : ∀ n < 2 ^ 64, M.castUnsigned (decimal n) = n) (t i : UInt32) :
    M.ordinalAt (S.write (.timestamp t i)) [] = some (t.toNat * 4294967296 + i.toNat) := by
  have hnumber (n : UInt32) : M.castUnsigned (integerText n.toNat) = n.toNat := by
    have hlt := n.toNat_lt
    have hpos : ¬ (n.toNat : ℤ) < 0 := by omega
    rw [integerText, if_neg hpos, Int.natAbs_natCast, hcast _ (by omega)]
  have hseconds : M.jsonValue (S.write (.timestamp t i)) ["$timestamp".toList, "t".toList] =
      some (integerText t.toNat) := rfl
  have hincrement : M.jsonValue (S.write (.timestamp t i)) ["$timestamp".toList, "i".toList] =
      some (integerText i.toNat) := rfl
  rw [MariaDB.ordinalAt, List.nil_append, List.nil_append, hseconds, hincrement,
    Option.bind_eq_bind, Option.bind_some, Option.bind_some, hnumber, hnumber, packedOrdinal,
    if_pos (packed_lt t i)]

/-- The server reads nothing of an array. -/
lemma scalarExpr_arr (xs : List Json) : M.scalarExpr (.arr xs) [] = none := by
  rfl

/-- A scalar is contained in what it was written as, and in no other scalar. -/
lemma containedIn_write_iff (hM : M.Documented S) {x v : Value} (hv : v.matchable = true)
    (hx : x.isContainer = false) :
    (S.write v).containedIn (S.write x) = true ↔ x = v := by
  have hinteger : ∀ m n : ℤ, integerText m = integerText n ↔ m = n := fun m n =>
    ⟨integerText_inj, congrArg _⟩
  have hoid : ∀ a b : BitVec 96, oidString a = oidString b ↔ a = b := fun a b =>
    ⟨oidString_inj, congrArg _⟩
  cases v with
  | double d =>
    have hdouble : ∀ e, S.double e = S.double d ↔ e = d := fun e =>
      ⟨hM.double_inj d e hv, congrArg _⟩
    cases x <;> simp [Spelling.write, wrapper, Json.containedIn, Json.anyLeaf,
      Json.membersContained, member, hdouble, Value.isContainer] at hx ⊢
  | bool _ | int32 _ | int64 _ | dateTime _ | timestamp _ _ | oid _ | utf8 _ =>
    cases x <;> simp [Spelling.write, wrapper, Json.containedIn, Json.anyLeaf,
      Json.membersContained, member, hinteger, hoid, Int32.toInt_inj, Int64.toInt_inj,
      UInt32.toNat_inj, Value.isContainer] at hx ⊢
  | _ => cases hv

/-- A scalar is contained in an array when it is contained in an element. -/
lemma containedIn_arr {v : Value} (hv : v.matchable = true) (xs : List Json) :
    (S.write v).containedIn (.arr xs) = xs.any fun x => (S.write v).containedIn x := by
  have hany : ∀ p : Json → Bool, Json.anyLeafOf p xs = xs.any fun x => x.anyLeaf p := by
    intro p
    induction xs with
    | nil => rfl
    | cons x xs ih => rw [Json.anyLeafOf, ih, List.any_cons]
  cases v with
  | bool _ | int32 _ | int64 _ | dateTime _ | timestamp _ _ | oid _ | utf8 _ | double _ =>
    exact hany _
  | _ => cases hv

/-- The elements of an array are written one by one. -/
lemma writeElements_eq_map (fields : Doc) :
    S.writeElements fields = fields.map fun field => S.write field.2 := by
  induction fields with
  | nil => rfl
  | cons field fields ih =>
    obtain ⟨name, v⟩ := field
    rw [Spelling.writeElements, ih, List.map_cons]

end Reading

end Chimera

import Chimera.Translator.Codec

/-!
# Canonical Extended JSON

What libbson's documentation says of canonical Extended JSON, as far as the plugin depends on it.
The writer spells a scalar in one way for each type, often as an object with a reserved key, and
writes documents and arrays member by member.  The reader takes every object with such members for
the type they stand for, and numbers the elements of an array itself.  So a document is read back
as it was written exactly when none of its sub-documents looks like a scalar and its arrays have
their indices as keys.
-/

namespace Chimera

/-- The parts of libbson that know the types. -/
structure ExtendedJson where
  /-- The spelling of a scalar. -/
  scalar : Value → Json
  /-- The reader takes an object with these members for the scalar of some type. -/
  wrapped : List (Text × Json) → Bool
  /-- That scalar, unless the members spell none. -/
  unwrap : List (Text × Json) → Except TranslatorError Value
  /-- The texts of the document can be written. -/
  serializes : Doc → Bool

namespace ExtendedJson

variable (E : ExtendedJson)

/-! ## Writing and reading -/

mutual

/-- Write a value. -/
def write : Value → Json
  | .document fields => .obj (writeFields fields)
  | .array fields => .arr (writeElements fields)
  | v => E.scalar v
termination_by structural v => v

/-- Write the fields of a document. -/
def writeFields : Doc → List (Text × Json)
  | [] => []
  | (name, v) :: fields => (name, write v) :: writeFields fields
termination_by structural fields => fields

/-- Write the elements of an array. -/
def writeElements : Doc → List Json
  | [] => []
  | (_, v) :: fields => write v :: writeElements fields
termination_by structural fields => fields

end

/-- A bare number is an `int32` when it fits. -/
def bareNumber (n : ℤ) : Value :=
  if -2147483648 ≤ n ∧ n ≤ 2147483647 then .int32 (Int32.ofInt n) else .int64 (Int64.ofInt n)

mutual

/-- Read a value. -/
def read : Json → Except TranslatorError Value
  | .null => .ok .null
  | .bool b => .ok (.bool b)
  | .int n => .ok (bareNumber n)
  | .str s => .ok (.utf8 s)
  | .arr xs => return .array (← readElements 0 xs)
  | .obj fields =>
    if E.wrapped fields then E.unwrap fields
    else return .document (← readFields fields)
termination_by structural json => json

/-- Read the elements of an array, from an index on. -/
def readElements : ℕ → List Json → Except TranslatorError Doc
  | _, [] => .ok []
  | i, x :: xs => return (decimal i, ← read x) :: (← readElements (i + 1) xs)
termination_by structural _ xs => xs

/-- Read the fields of a document. -/
def readFields : List (Text × Json) → Except TranslatorError Doc
  | [] => .ok []
  | (name, json) :: fields => return (name, ← read json) :: (← readFields fields)
termination_by structural fields => fields

end

/-- The two calls of libbson.  A whole document is never taken for a scalar. -/
def libbson : Libbson where
  toExtjson doc :=
    if E.serializes doc then .ok (.obj (E.writeFields doc))
    else .error (badValue "document cannot be serialized as extended JSON".toList)
  fromExtjson
    | .obj fields => E.readFields fields
    | _ => .error (failedToParse "not a document".toList)

end ExtendedJson

/-! ## Values that are stored -/

/-- The scalars of the types that are stored. -/
def Value.storableScalar : Value → Bool
  | .null | .bool _ | .int32 _ | .int64 _ | .utf8 _ | .oid _ | .dateTime _ | .timestamp _ _ => true
  | .double d => d.isFinite
  | _ => false

mutual

/-- The value consists of such scalars, of documents and of arrays. -/
def Value.storable : Value → Bool
  | .document fields | .array fields => storableFields fields
  | v => v.storableScalar
termination_by structural v => v

/-- The members of a document or of an array. -/
def storableFields : Doc → Bool
  | [] => true
  | (_, v) :: fields => v.storable && storableFields fields
termination_by structural fields => fields

end

namespace ExtendedJson

variable (E : ExtendedJson)

mutual

/-- No document inside the value looks like a scalar, and the keys of the arrays are indices. -/
def plain : Value → Bool
  | .document fields => !E.wrapped (E.writeFields fields) && plainFields fields
  | .array fields => plainElements 0 fields
  | _ => true
termination_by structural v => v

/-- The fields of a document. -/
def plainFields : Doc → Bool
  | [] => true
  | (_, v) :: fields => plain v && plainFields fields
termination_by structural fields => fields

/-- The elements of an array, from an index on. -/
def plainElements : ℕ → Doc → Bool
  | _, [] => true
  | i, (name, v) :: fields => decide (name = decimal i) && plain v && plainElements (i + 1) fields
termination_by structural _ fields => fields

end

/-- What the documentation promises: a scalar is read back as it was written, and the objects that
stand for a type stand for scalars. -/
structure Lawful : Prop where
  /-- A scalar is read back. -/
  read_scalar : ∀ v, v.storableScalar = true → E.read (E.scalar v) = .ok v
  /-- No type is a document or an array. -/
  unwrap_scalar : ∀ fields v, E.unwrap fields = .ok v → v.subdocument = none

variable {E}

/-! ## Reading back -/

/-- A scalar is written as such and is plain. -/
lemma write_of_storableScalar {v : Value} (hv : v.storableScalar = true) :
    E.write v = E.scalar v ∧ E.plain v = true := by
  cases v with
  | document fields => cases hv
  | array fields => cases hv
  | _ => exact ⟨rfl, rfl⟩

/-- A scalar is read back. -/
lemma read_write_scalar_iff (hE : E.Lawful) {v : Value} (hv : v.storableScalar = true) :
    E.read (E.write v) = .ok v ↔ E.plain v = true := by
  obtain ⟨hwrite, hplain⟩ := write_of_storableScalar (E := E) hv
  rw [hwrite, hE.read_scalar v hv, hplain]
  exact iff_of_true rfl rfl

mutual

/-- **Reading back a value.**  A value that can be stored is read back exactly when it is plain. -/
theorem read_write_iff (hE : E.Lawful) :
    ∀ v : Value, v.storable = true → (E.read (E.write v) = .ok v ↔ E.plain v = true)
  | .document fields, h => by
    have hfields := readFields_write_iff hE fields h
    simp only [write, read, plain]
    by_cases hwrapped : E.wrapped (E.writeFields fields) = true
    · rw [if_pos hwrapped, hwrapped]
      constructor
      · intro hread
        have hnone := hE.unwrap_scalar _ _ hread
        cases hnone
      · intro hplain
        cases hplain
    · rw [if_neg hwrapped, Bool.eq_false_iff.2 hwrapped, Bool.not_false, Bool.true_and, ← hfields]
      simp only [except_bind_eq_ok, except_pure_eq_ok]
      constructor
      · rintro ⟨_, hread, heq⟩
        cases heq
        exact hread
      · intro hread
        exact ⟨fields, hread, rfl⟩
  | .array fields, h => by
    have helements := readElements_write_iff hE fields 0 h
    simp only [write, read, plain, except_bind_eq_ok, except_pure_eq_ok, ← helements]
    constructor
    · rintro ⟨_, hread, heq⟩
      cases heq
      exact hread
    · intro hread
      exact ⟨fields, hread, rfl⟩
  | .null, h => read_write_scalar_iff hE h
  | .bool _, h => read_write_scalar_iff hE h
  | .int32 _, h => read_write_scalar_iff hE h
  | .int64 _, h => read_write_scalar_iff hE h
  | .double _, h => read_write_scalar_iff hE h
  | .utf8 _, h => read_write_scalar_iff hE h
  | .oid _, h => read_write_scalar_iff hE h
  | .dateTime _, h => read_write_scalar_iff hE h
  | .timestamp _ _, h => read_write_scalar_iff hE h
  | .binary _ _, h | .undefined, h | .regex _ _, h | .dbPointer _ _, h | .code _, h | .symbol _, h
  | .codeWScope _ _, h | .decimal128 _, h | .minKey, h | .maxKey, h => by cases h

/-- The fields of a document are read back. -/
theorem readFields_write_iff (hE : E.Lawful) : ∀ fields : Doc, storableFields fields = true →
    (E.readFields (E.writeFields fields) = .ok fields ↔ E.plainFields fields = true)
  | [], _ => by simp [writeFields, readFields, plainFields]
  | (name, v) :: fields, h => by
    rw [storableFields, Bool.and_eq_true] at h
    have hv := read_write_iff hE v h.1
    have hfields := readFields_write_iff hE fields h.2
    simp only [writeFields, readFields, plainFields, except_bind_eq_ok, except_pure_eq_ok,
      Bool.and_eq_true, ← hv, ← hfields]
    constructor
    · rintro ⟨_, hread, _, hrest, heq⟩
      obtain ⟨hhead, rfl⟩ := List.cons.inj heq
      obtain ⟨-, rfl⟩ := Prod.mk.inj hhead
      exact ⟨hread, hrest⟩
    · rintro ⟨hread, hrest⟩
      exact ⟨v, hread, fields, hrest, rfl⟩

/-- The elements of an array are read back. -/
theorem readElements_write_iff (hE : E.Lawful) : ∀ (fields : Doc) (i : ℕ),
    storableFields fields = true →
      (E.readElements i (E.writeElements fields) = .ok fields ↔ E.plainElements i fields = true)
  | [], i, _ => by simp [writeElements, readElements, plainElements]
  | (name, v) :: fields, i, h => by
    rw [storableFields, Bool.and_eq_true] at h
    have hv := read_write_iff hE v h.1
    have hfields := readElements_write_iff hE fields (i + 1) h.2
    simp only [writeElements, readElements, plainElements, except_bind_eq_ok, except_pure_eq_ok,
      Bool.and_eq_true, decide_eq_true_eq, ← hv, ← hfields]
    constructor
    · rintro ⟨_, hread, _, hrest, heq⟩
      obtain ⟨hhead, rfl⟩ := List.cons.inj heq
      obtain ⟨rfl, rfl⟩ := Prod.mk.inj hhead
      exact ⟨⟨rfl, hread⟩, hrest⟩
    · rintro ⟨⟨rfl, hread⟩, hrest⟩
      exact ⟨v, hread, fields, hrest, rfl⟩

end

/-! ## Types told apart by one key -/

/-- An object with one member. -/
def typed (key : String) (n : ℤ) : Json := .obj [(key.toList, .int n)]

/-- The keys that stand for a type. -/
def typeKeys : List Text :=
  ["$oid", "$numberInt", "$numberLong", "$numberDouble", "$date", "$timestamp"].map String.toList

/-- The scalar of a type key and a number. -/
def ofTypeKey (key : Text) (n : ℤ) : Value :=
  if key = "$oid".toList then .oid (BitVec.ofInt 96 n)
  else if key = "$numberInt".toList then .int32 (Int32.ofInt n)
  else if key = "$numberLong".toList then .int64 (Int64.ofInt n)
  else if key = "$numberDouble".toList then .double ⟨BitVec.ofInt 64 n⟩
  else if key = "$date".toList then .dateTime (Int64.ofInt n)
  else .timestamp (UInt32.ofInt (n / 4294967296)) (UInt32.ofInt n)

/-- Texts are compared character by character. -/
local instance lawfulText : LawfulBEq Text := inferInstance

/-- Extended JSON that spells every type with one reserved key and a number: strings, booleans
and null are as libbson has them, and so is what a reserved key does to an object. -/
def byTypeKey : ExtendedJson where
  scalar
    | .bool b => .bool b
    | .utf8 s => .str s
    | .oid bytes => typed "$oid" bytes.toNat
    | .int32 n => typed "$numberInt" n.toInt
    | .int64 n => typed "$numberLong" n.toInt
    | .double d => typed "$numberDouble" d.bits.toNat
    | .dateTime ms => typed "$date" ms.toInt
    | .timestamp t i => typed "$timestamp" (t.toNat * 4294967296 + i.toNat)
    | _ => .null
  wrapped
    | (key, _) :: _ => decide (key ∈ typeKeys)
    | [] => false
  unwrap
    | [(key, .int n)] => .ok (ofTypeKey key n)
    | _ => .error (badValue "malformed extended JSON".toList)
  serializes _ := true

/-- A type key is read as its type. -/
lemma read_typed {key : String} {n : ℤ} (hkey : key.toList ∈ typeKeys) :
    byTypeKey.read (typed key n) = .ok (ofTypeKey key.toList n) := by
  simp only [typed, read, byTypeKey, hkey, decide_true, if_true]

/-- A number is read as its remainder. -/
lemma ofInt_of_emod {n : ℤ} {i : UInt32} (h : n % 4294967296 = i.toNat) : UInt32.ofInt n = i := by
  have hnat : (n % 2 ^ 32).toNat = i.toNat := by omega
  change UInt32.ofNat (n % 2 ^ 32).toNat = i
  rw [hnat]
  exact UInt32.ofNat_toNat

/-- It keeps the promise. -/
lemma byTypeKey_lawful : byTypeKey.Lawful where
  read_scalar v hv := by
    cases v with
    | null => rfl
    | bool b => rfl
    | utf8 s => rfl
    | oid bytes =>
      have hbytes : BitVec.ofInt 96 bytes.toNat = bytes := by simp
      exact (read_typed (by decide)).trans (congrArg (Except.ok ∘ Value.oid) hbytes)
    | int32 n =>
      have hn : Int32.ofInt n.toInt = n := by simp
      exact (read_typed (by decide)).trans (congrArg (Except.ok ∘ Value.int32) hn)
    | int64 n =>
      have hn : Int64.ofInt n.toInt = n := by simp
      exact (read_typed (by decide)).trans (congrArg (Except.ok ∘ Value.int64) hn)
    | double d =>
      have hd : (⟨BitVec.ofInt 64 d.bits.toNat⟩ : Binary64) = d := by simp
      exact (read_typed (by decide)).trans (congrArg (Except.ok ∘ Value.double) hd)
    | dateTime ms =>
      have hms : Int64.ofInt ms.toInt = ms := by simp
      exact (read_typed (by decide)).trans (congrArg (Except.ok ∘ Value.dateTime) hms)
    | timestamp t i =>
      have htlt : t.toNat < 4294967296 := t.toNat_lt
      have hilt : i.toNat < 4294967296 := i.toNat_lt
      have ht := ofInt_of_emod (n := (t.toNat * 4294967296 + i.toNat) / 4294967296) (i := t)
        (by omega)
      have hi := ofInt_of_emod (n := t.toNat * 4294967296 + i.toNat) (i := i) (by omega)
      exact (read_typed (by decide)).trans (congrArg Except.ok (congrArg₂ Value.timestamp ht hi))
    | _ => cases hv
  unwrap_scalar fields v h := by
    unfold byTypeKey at h
    simp only at h
    split at h
    · obtain rfl := Except.ok.inj h
      unfold ofTypeKey
      split_ifs <;> rfl
    · cases h

end ExtendedJson

end Chimera

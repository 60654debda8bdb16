import Chimera.Translator.Bson
import Chimera.Translator.Json

/-!
# Crossing to Extended JSON

Documents are stored as canonical Extended JSON.  `to_extjson` and `from_extjson` are calls of
libbson, which is not part of this repository, so they are a parameter here.  What the plugin
relies on is stated as a property of the parameter: canonical Extended JSON keeps the type and
the value of a scalar field.
-/

namespace Chimera

/-- The two calls of libbson that cross the boundary. -/
structure Libbson where
  /-- `to_extjson`, over `bson_as_canonical_extended_json`. -/
  toExtjson : Doc → Except TranslatorError Json
  /-- `from_extjson`, over `bson_new_from_json`. -/
  fromExtjson : Json → Except TranslatorError Doc

/-- The scalars whose canonical Extended JSON spells their type and value exactly.  Every NaN is
spelled alike, whatever its bits. -/
def Value.exactScalar : Value → Bool
  | .oid _ | .utf8 _ | .int32 _ | .int64 _ => true
  | .double d => !d.isNaN
  | _ => false

/-- A top-level scalar field survives being written and read back. -/
def Libbson.KeepsScalars (L : Libbson) : Prop :=
  ∀ doc json doc' name v, L.toExtjson doc = .ok json → L.fromExtjson json = .ok doc' →
    findField doc name = some v → v.exactScalar = true → findField doc' name = some v

/-- A field that holds a string, in Extended JSON. -/
def stringToExtjson : Text × Value → Except TranslatorError (Text × Json)
  | (name, .utf8 s) => .ok (name, .str s)
  | _ => .error (internalError "not a string".toList)

/-- A member that is a string, in BSON. -/
def stringFromExtjson : Text × Json → Except TranslatorError (Text × Value)
  | (name, .str s) => .ok (name, .utf8 s)
  | _ => .error (internalError "not a string".toList)

/-- What libbson does to documents that hold strings only. -/
def Libbson.ofStrings : Libbson where
  toExtjson doc := return .obj (← doc.mapM stringToExtjson)
  fromExtjson
    | .obj fields => fields.mapM stringFromExtjson
    | _ => .error (internalError "not a document".toList)

/-- A document of strings is read back as it was written. -/
lemma Libbson.ofStrings_roundTrip {doc : Doc} {json : Json}
    (h : Libbson.ofStrings.toExtjson doc = .ok json) :
    Libbson.ofStrings.fromExtjson json = .ok doc := by
  simp only [Libbson.ofStrings, except_bind_eq_ok, except_pure_eq_ok] at h
  obtain ⟨fields, hfields, rfl⟩ := h
  change fields.mapM stringFromExtjson = .ok doc
  induction doc generalizing fields with
  | nil =>
    obtain rfl : [] = fields := by simpa [pure, Except.pure] using hfields
    rfl
  | cons field doc ih =>
    simp only [List.mapM_cons, except_bind_eq_ok, except_pure_eq_ok] at hfields
    obtain ⟨member, hmember, members, hmembers, rfl⟩ := hfields
    have hfield : stringFromExtjson member = .ok field := by
      obtain ⟨name, v⟩ := field
      cases v with
      | utf8 s =>
        obtain rfl := Except.ok.inj hmember
        rfl
      | _ => cases hmember
    simp only [List.mapM_cons, except_bind_eq_ok, except_pure_eq_ok]
    exact ⟨field, hfield, doc, ih members hmembers, rfl⟩

/-- Documents of strings keep their fields. -/
lemma Libbson.ofStrings_keepsScalars : Libbson.ofStrings.KeepsScalars := by
  intro doc json doc' name v hto hfrom hv _
  obtain rfl : doc = doc' := Except.ok.inj ((ofStrings_roundTrip hto).symm.trans hfrom)
  exact hv

end Chimera

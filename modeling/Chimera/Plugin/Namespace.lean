import Chimera.Translator.Error

/-!
# Namespaces

A collection is a table in a database of the same name.  A namespace is accepted when both of its
names can be table names.
-/

namespace Chimera

/-- A qualified table name. -/
structure Namespace where
  /-- The database. -/
  db : Text
  /-- The collection. -/
  collection : Text
deriving DecidableEq, Inhabited

/-- `Namespace::text`: the namespace as the wire protocol spells it. -/
def Namespace.text (ns : Namespace) : Text := ns.db ++ '.' :: ns.collection

/-- The characters that a table name cannot have. -/
def unnameable (c : Char) : Bool :=
  c = Char.ofNat 96 || c = Char.ofNat 0 || c = '\n' || c = '/' || c = '\\'

/-- `validate_identifier`. -/
def validateIdentifier (name what : Text) : Except TranslatorError Unit :=
  if name.isEmpty then .error (badValue (what ++ " may not be empty".toList))
  else if 64 < name.length then .error (badValue (what ++ " is longer than 64 characters".toList))
  else if name.any unnameable then
    .error (badValue (what ++ " contains a character MariaDB cannot name: ".toList ++ name))
  else .ok ()

/-- `parse_namespace`. -/
def parseNamespace (db collection : Text) : Except TranslatorError Namespace := do
  validateIdentifier db "database name".toList
  validateIdentifier collection "collection name".toList
  return ⟨db, collection⟩

end Chimera

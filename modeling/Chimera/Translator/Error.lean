import Mathlib.Data.List.Basic
import Mathlib.Data.List.Forall2
import Mathlib.Tactic.Common

/-!
# Texts and translator errors

A C++ `std::string` is a string of bytes.  Here it is a list of characters, one for each byte.
Errors carry MongoDB's numeric code and code name, so that the wire layer hands them straight
back to a driver.
-/

namespace Chimera

/-- A C++ byte string, each byte as one character. -/
abbrev Text := List Char

/-- The decimal digits of a number. -/
def decimal (n : ℕ) : Text := Nat.toDigits 10 n

/-- They are digits. -/
lemma isDigit_of_mem_decimal {n : ℕ} {c : Char} (h : c ∈ decimal n) : c.isDigit = true :=
  Nat.isDigit_of_mem_toDigits (by omega) (by omega) h

/-- An error with MongoDB's code and code name. -/
structure TranslatorError where
  /-- MongoDB's numeric error code. -/
  code : ℕ
  /-- MongoDB's name for the code. -/
  codeName : Text
  /-- The text of the error. -/
  message : Text
deriving DecidableEq, Repr

/-- A value the operation cannot take. -/
def badValue (message : Text) : TranslatorError := ⟨2, "BadValue".toList, message⟩

/-- A document that does not have the shape its reader expects. -/
def failedToParse (message : Text) : TranslatorError := ⟨9, "FailedToParse".toList, message⟩

/-- A value of the wrong BSON type. -/
def typeMismatch (message : Text) : TranslatorError := ⟨14, "TypeMismatch".toList, message⟩

/-- A required field of a command is missing. -/
def missingCommandField (message : Text) : TranslatorError :=
  ⟨40414, "IDLFailedToParse".toList, message⟩

/-- A request that the server's settings forbid. -/
def unauthorized (message : Text) : TranslatorError := ⟨13, "Unauthorized".toList, message⟩

/-- Two options that exclude each other. -/
def changeStreamOptionsConflict (message : Text) : TranslatorError :=
  ⟨40674, "Location40674".toList, message⟩

/-- A request that is understood and not served. -/
def notImplemented (message : Text) : TranslatorError :=
  ⟨238, "NotImplemented".toList, message⟩

/-- A collection that does not exist. -/
def namespaceNotFound (message : Text) : TranslatorError :=
  ⟨26, "NamespaceNotFound".toList, message⟩

/-- A collection that exists already. -/
def namespaceExists (message : Text) : TranslatorError :=
  ⟨48, "NamespaceExists".toList, message⟩

/-- A second row for a unique key. -/
def duplicateKey (message : Text) : TranslatorError := ⟨11000, "DuplicateKey".toList, message⟩

/-- The resume point has been pruned away. -/
def changeStreamHistoryLost (message : Text) : TranslatorError :=
  ⟨286, "ChangeStreamHistoryLost".toList, message⟩

/-- Everything the server reports that has no MongoDB counterpart. -/
def internalError (message : Text) : TranslatorError := ⟨1, "InternalError".toList, message⟩

/-- A sequence of two computations succeeds when both do. -/
lemma except_bind_eq_ok {ε α β : Type} {x : Except ε α} {f : α → Except ε β} {b : β} :
    (x >>= f) = .ok b ↔ ∃ a, x = .ok a ∧ f a = .ok b := by
  cases x <;> simp [bind, Except.bind]

/-- A computation that only returns succeeds with what it returns. -/
lemma except_pure_eq_ok {ε α : Type} {a b : α} :
    (pure a : Except ε α) = .ok b ↔ a = b := by
  simp [pure, Except.pure]

/-- A list of computations succeeds when each of them does. -/
lemma mapM_eq_ok_iff {ε α β : Type} {f : α → Except ε β} {l : List α} {r : List β} :
    l.mapM f = .ok r ↔ List.Forall₂ (fun a b => f a = .ok b) l r := by
  induction l generalizing r with
  | nil =>
    rw [List.mapM_nil, List.forall₂_nil_left_iff, except_pure_eq_ok]
    exact eq_comm
  | cons a l ih =>
    rw [List.mapM_cons, List.forall₂_cons_left_iff]
    constructor
    · intro h
      obtain ⟨b, hb, h⟩ := except_bind_eq_ok.1 h
      obtain ⟨bs, hbs, h⟩ := except_bind_eq_ok.1 h
      exact ⟨b, bs, hb, ih.1 hbs, (except_pure_eq_ok.1 h).symm⟩
    · rintro ⟨b, bs, hb, hbs, rfl⟩
      rw [hb, ih.2 hbs]
      rfl

end Chimera

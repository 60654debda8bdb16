import Chimera.Translator.Error
import Mathlib.Data.Int.Basic
import Mathlib.Tactic.Common

/-!
# JSON documents

MariaDB's `JSON` columns hold text.  The texts the plugin stores are the ones it serialized
itself, so a stored document is represented by the JSON tree its text spells, and two texts are
equal exactly when their trees are.
-/

namespace Chimera

/-- A JSON tree.  Canonical Extended JSON spells every non-integer number as a string, so the
only bare numbers are integers. -/
inductive Json where
  | null
  | bool (b : Bool)
  | int (n : ℤ)
  | str (s : Text)
  | arr (xs : List Json)
  | obj (fields : List (Text × Json))
deriving Inhabited

mutual

/-- Equality of trees as a computation. -/
def Json.beq : Json → Json → Bool
  | .null, .null => true
  | .bool a, .bool b => a == b
  | .int a, .int b => a == b
  | .str a, .str b => a == b
  | .arr a, .arr b => Json.beqList a b
  | .obj a, .obj b => Json.beqFields a b
  | _, _ => false
termination_by structural a => a

/-- Equality of the elements of two arrays. -/
def Json.beqList : List Json → List Json → Bool
  | [], [] => true
  | a :: as, b :: bs => a.beq b && Json.beqList as bs
  | _, _ => false
termination_by structural a => a

/-- Equality of the members of two objects. -/
def Json.beqFields : List (Text × Json) → List (Text × Json) → Bool
  | [], [] => true
  | (k, v) :: as, (k', v') :: bs => k == k' && v.beq v' && Json.beqFields as bs
  | _, _ => false
termination_by structural a => a

end

mutual

/-- The computed equality is equality. -/
lemma Json.beq_iff : ∀ a b : Json, a.beq b = true ↔ a = b
  | .null, b => by cases b <;> simp [Json.beq]
  | .bool a, b => by cases b <;> simp [Json.beq]
  | .int a, b => by cases b <;> simp [Json.beq]
  | .str a, b => by cases b <;> simp [Json.beq]
  | .arr a, b => by cases b <;> simp [Json.beq, Json.beqList_iff a]
  | .obj a, b => by cases b <;> simp [Json.beq, Json.beqFields_iff a]

/-- The computed equality of arrays is equality. -/
lemma Json.beqList_iff : ∀ a b : List Json, Json.beqList a b = true ↔ a = b
  | [], b => by cases b <;> simp [Json.beqList]
  | a :: as, b => by cases b <;> simp [Json.beqList, Json.beq_iff a, Json.beqList_iff as]

/-- The computed equality of members is equality. -/
lemma Json.beqFields_iff : ∀ a b : List (Text × Json), Json.beqFields a b = true ↔ a = b
  | [], b => by cases b <;> simp [Json.beqFields]
  | (k, v) :: as, b => by
    rcases b with _ | ⟨⟨k', v'⟩, bs⟩
    · simp [Json.beqFields]
    · simp [Json.beqFields, Json.beq_iff v, Json.beqFields_iff as]

end

instance : DecidableEq Json := fun a b => decidable_of_iff _ (Json.beq_iff a b)

end Chimera

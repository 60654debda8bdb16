import Chimera.Translator.Equality
import Chimera.Translator.Paths

/-!
# One path, two evaluators

Sorting, projecting and updating follow a path through the BSON document with `path_get`.  A filter
or an index writes the path as a JSON path and has the server follow it through the stored text.
The two meet in documents.  In memory an array is a document of its indices, which the quoted
members of a JSON path never select; and in the stored text a scalar is an object with members, of
which `path_get` knows nothing.
-/

namespace Chimera

/-! ## What the stored text has below a value -/

/-- The paths to a member of an object, and through it along the paths below. -/
def membersUnder (key : String) (below : List Path) : List Path :=
  ([] :: below).map (key.toList :: ·)

/-- The paths below a scalar that lead into the object it is written as. -/
def Value.wrapperPaths : Value → List Path
  | .double _ => membersUnder "$numberDouble" []
  | .binary _ _ => membersUnder "$binary" (membersUnder "base64" [] ++ membersUnder "subType" [])
  | .undefined => membersUnder "$undefined" []
  | .oid _ => membersUnder "$oid" []
  | .dateTime _ => membersUnder "$date" (membersUnder "$numberLong" [])
  | .regex _ _ => membersUnder "$regularExpression"
    (membersUnder "pattern" [] ++ membersUnder "options" [])
  | .dbPointer _ _ => membersUnder "$dbPointer"
    (membersUnder "$ref" [] ++ membersUnder "$id" (membersUnder "$oid" []))
  | .code _ => membersUnder "$code" []
  | .symbol _ => membersUnder "$symbol" []
  | .int32 _ => membersUnder "$numberInt" []
  | .timestamp _ _ => membersUnder "$timestamp" (membersUnder "t" [] ++ membersUnder "i" [])
  | .int64 _ => membersUnder "$numberLong" []
  | .decimal128 _ => membersUnder "$numberDecimal" []
  | .minKey => membersUnder "$minKey" []
  | .maxKey => membersUnder "$maxKey" []
  | _ => []

/-- The value has no values inside: it is no document, no array, and no code with a scope. -/
def Value.isLeaf : Value → Bool
  | .document _ | .array _ | .codeWScope _ _ => false
  | _ => true

/-- The text of a value has something at the path: a field through documents, or a member of the
object that a scalar is written as. -/
def Value.Written : Value → Path → Prop
  | _, [] => True
  | .document fields, name :: rest => ∃ x, findField fields name = some x ∧ x.Written rest
  | .array _, _ :: _ => False
  | .codeWScope _ scope, name :: rest =>
    name = "$code".toList ∧ rest = [] ∨
      name = "$scope".toList ∧ (Value.document scope).Written rest
  | x, name :: rest => name :: rest ∈ x.wrapperPaths

/-- In memory the path leads from the value to a value that it holds: documents and arrays alike
are entered by the first field of a name. -/
inductive Value.Reaches : Value → Path → Prop
  | here (x : Value) : x.Reaches []
  | field {x y : Value} {fields : Doc} {name : Text} {rest : Path} :
    x.subdocument = some fields → findField fields name = some y → y.Reaches rest →
      x.Reaches (name :: rest)

/-- Both evaluators read the same at a path.  Through documents they go together.  At an array the
path must lead to none of the elements, and at a scalar it must not lead into the object that the
scalar is written as. -/
def Value.ReadAlike : Value → Path → Prop
  | _, [] => True
  | .document fields, name :: rest => ∀ x, findField fields name = some x → x.ReadAlike rest
  | .array fields, name :: rest => ¬ (Value.array fields).Reaches (name :: rest)
  | x, name :: rest => ¬ x.Written (name :: rest)

/-! ## Where the two agree -/

/-- In memory a path leads to the value that is read at it. -/
lemma reaches_iff {x : Value} {path : Path} : x.Reaches path ↔ x.getUnder path ≠ none := by
  induction path generalizing x with
  | nil => exact iff_of_true (.here x) (Option.some_ne_none x)
  | cons name rest ih =>
    rw [Value.getUnder]
    constructor
    · rintro (_ | ⟨hfields, hy, hrest⟩)
      rw [hfields, Option.bind_some, pathGet_cons, hy, Option.bind_some]
      exact ih.1 hrest
    · intro hne
      obtain ⟨z, hz⟩ := Option.ne_none_iff_exists'.1 hne
      obtain ⟨fields, hfields, hz⟩ := Option.bind_eq_some_iff.1 hz
      rw [pathGet_cons] at hz
      obtain ⟨y, hy, hz⟩ := Option.bind_eq_some_iff.1 hz
      have hrest : y.getUnder rest ≠ none := by
        rw [hz]
        exact Option.some_ne_none z
      exact .field hfields hy (ih.2 hrest)

variable {S : Spelling}

/-- A path into an object. -/
lemma jsonAt_obj (fields : List (Text × Json)) (name : Text) (rest : Path) :
    jsonAt (.obj fields) (name :: rest) =
      (member fields name).bind fun inner => jsonAt inner rest := by
  rw [jsonAt, member]
  cases fields.find? fun field => decide (field.1 = name) <;> rfl

/-- The paths lead to something in the text, and no others below its root. -/
def Lists (json : Json) (paths : List Path) : Prop :=
  ∀ path, jsonAt json path ≠ none ↔ path = [] ∨ path ∈ paths

/-- Nothing is below a text that is no object. -/
lemma Lists.leaf {json : Json} (hleaf : ∀ fields, json ≠ .obj fields) : Lists json [] := by
  intro path
  match path with
  | [] => cases json <;> simp [jsonAt]
  | name :: rest =>
    cases json with
    | obj fields => exact absurd rfl (hleaf fields)
    | _ => simp [jsonAt]

/-- A member of an object and what is below it. -/
lemma mem_membersUnder {key : String} {below : List Path} {name : Text} {rest : Path} :
    name :: rest ∈ membersUnder key below ↔ name = key.toList ∧ (rest = [] ∨ rest ∈ below) := by
  simp only [membersUnder, List.mem_map, List.mem_cons, List.cons.injEq]
  constructor
  · rintro ⟨path, hpath, hname, rfl⟩
    exact ⟨hname.symm, hpath⟩
  · rintro ⟨hname, hrest⟩
    exact ⟨rest, hrest, hname.symm, rfl⟩

/-- A path into an object with one member. -/
lemma jsonAt_wrapper_ne_none_iff {key : String} {inner : Json} {name : Text} {rest : Path} :
    jsonAt (wrapper key inner) (name :: rest) ≠ none ↔
      name = key.toList ∧ jsonAt inner rest ≠ none := by
  rw [wrapper, jsonAt_obj, member, List.find?_cons]
  by_cases hname : name = key.toList
  · simp [hname]
  · simp [hname, Ne.symm hname]

/-- A path into an object with two members. -/
lemma jsonAt_pair_ne_none_iff {key key' : String} (hkey : key.toList ≠ key'.toList)
    {first second : Json} {name : Text} {rest : Path} :
    jsonAt (.obj [(key.toList, first), (key'.toList, second)]) (name :: rest) ≠ none ↔
      name = key.toList ∧ jsonAt first rest ≠ none ∨
        name = key'.toList ∧ jsonAt second rest ≠ none := by
  rw [jsonAt_obj, member, List.find?_cons, List.find?_cons]
  by_cases hname : name = key.toList
  · have hother : ¬ name = key'.toList := fun heq => hkey (hname.symm.trans heq)
    simp only [hname, decide_true, Option.map_some, Option.bind_some, true_and, hkey, false_and,
      or_false]
  · by_cases hname' : name = key'.toList
    · simp only [hname', Ne.symm hkey, hkey, decide_true, decide_false, Option.map_some,
        Option.bind_some, true_and, false_and, false_or]
    · simp only [hname, hname', Ne.symm hname, Ne.symm hname', decide_false, List.find?_nil,
        Option.map_none, Option.bind_none, false_and, or_self, ne_eq, not_true_eq_false]

/-- An object with one member. -/
lemma Lists.wrapper {inner : Json} {below : List Path} (h : Lists inner below) (key : String) :
    Lists (wrapper key inner) (membersUnder key below) := by
  intro path
  match path with
  | [] => exact iff_of_true (Option.some_ne_none _) (Or.inl rfl)
  | name :: rest =>
    rw [jsonAt_wrapper_ne_none_iff, mem_membersUnder, ← h rest]
    exact (or_iff_right (List.cons_ne_nil name rest)).symm

/-- An object with two members. -/
lemma Lists.pair {first second : Json} {below below' : List Path} (h : Lists first below)
    (h' : Lists second below') {key key' : String} (hkey : key.toList ≠ key'.toList) :
    Lists (.obj [(key.toList, first), (key'.toList, second)])
      (membersUnder key below ++ membersUnder key' below') := by
  intro path
  match path with
  | [] => exact iff_of_true (Option.some_ne_none _) (Or.inl rfl)
  | name :: rest =>
    rw [jsonAt_pair_ne_none_iff hkey, List.mem_append, mem_membersUnder, mem_membersUnder,
      ← h rest, ← h' rest]
    exact (or_iff_right (List.cons_ne_nil name rest)).symm

/-- A text is no object. -/
lemma Lists.str (s : Text) : Lists (.str s) [] := .leaf fun _ h => Json.noConfusion h

/-- A number is no object. -/
lemma Lists.int (n : ℤ) : Lists (.int n) [] := .leaf fun _ h => Json.noConfusion h

/-- A boolean is no object. -/
lemma Lists.bool (b : Bool) : Lists (.bool b) [] := .leaf fun _ h => Json.noConfusion h

/-- The paths into the object that a scalar is written as. -/
lemma lists_write {x : Value} (hx : x.isLeaf = true) : Lists (S.write x) x.wrapperPaths := by
  cases x with
  | document _ | array _ | codeWScope _ _ => cases hx
  | null => exact .leaf fun _ h => Json.noConfusion h
  | bool b => exact .bool b
  | utf8 s => exact .str s
  | undefined => exact .wrapper (.bool true) _
  | minKey | maxKey => exact .wrapper (.int 1) _
  | dateTime ms => exact .wrapper (.wrapper (.str _) _) _
  | binary subtype data => exact .wrapper (.pair (.str _) (.str _) (by decide)) _
  | regex pattern options => exact .wrapper (.pair (.str _) (.str _) (by decide)) _
  | timestamp t i => exact .wrapper (.pair (.int _) (.int _) (by decide)) _
  | dbPointer collection bytes =>
    exact .wrapper (.pair (.str _) (.wrapper (.str _) _) (by decide)) _
  | _ => exact .wrapper (.str _) _

/-- What the text of a scalar has below it. -/
lemma written_leaf_iff {x : Value} (hx : x.isLeaf = true) {name : Text} {rest : Path} :
    x.Written (name :: rest) ↔ name :: rest ∈ x.wrapperPaths := by
  cases x with
  | document _ | array _ | codeWScope _ _ => cases hx
  | _ => exact Iff.rfl

/-- Where the text of a value has something. -/
lemma written_iff {x : Value} {path : Path} : x.Written path ↔ jsonAt (S.write x) path ≠ none := by
  induction path generalizing x with
  | nil =>
    have hhere : jsonAt (S.write x) [] = some (S.write x) := by
      cases S.write x <;> rfl
    rw [hhere]
    exact iff_of_true (by cases x <;> trivial) (Option.some_ne_none _)
  | cons name rest ih =>
    by_cases hx : x.isLeaf = true
    · rw [written_leaf_iff hx, lists_write hx (name :: rest)]
      simp
    · cases x with
      | document fields =>
        rw [Spelling.write, jsonAt_writeFields, Value.Written]
        cases findField fields name with
        | none => simp
        | some y => simpa using ih
      | array fields => simp [Value.Written, Spelling.write, jsonAt]
      | codeWScope s scope =>
        have hcode := Lists.str s rest
        have hscope := ih (x := .document scope)
        simp only [List.not_mem_nil, or_false] at hcode
        rw [Value.Written, ← hcode, hscope]
        exact (jsonAt_pair_ne_none_iff (by decide)).symm
      | _ => exact absurd rfl hx

/-- Both read the same inside a value exactly where they are said to. -/
lemma jsonAt_write_eq_iff {x : Value} {path : Path} :
    jsonAt (S.write x) path = (x.getUnder path).map S.write ↔ x.ReadAlike path := by
  induction path generalizing x with
  | nil =>
    have hhere : jsonAt (S.write x) [] = some (S.write x) := by
      cases S.write x <;> rfl
    exact iff_of_true hhere (by cases x <;> trivial)
  | cons name rest ih =>
    cases hx : x.subdocument with
    | none =>
      -- A scalar: `path_get` finds nothing below it.
      have hnone : x.getUnder (name :: rest) = none := by rw [Value.getUnder, hx, Option.bind_none]
      have halike : x.ReadAlike (name :: rest) ↔ ¬ x.Written (name :: rest) := by
        cases x with
        | document _ | array _ => cases hx
        | _ => exact Iff.rfl
      rw [hnone, halike, written_iff (S := S), not_not, Option.map_none]
    | some fields =>
      cases x with
      | document fields' =>
        have hget : (Value.document fields').getUnder (name :: rest) =
            (findField fields' name).bind fun y => y.getUnder rest := by
          rw [Value.getUnder, Value.subdocument, Option.bind_some, pathGet_cons]
        rw [hget, Spelling.write, jsonAt_writeFields, Value.ReadAlike]
        cases findField fields' name with
        | none => simp
        | some y => simpa using ih
      | array elements =>
        have hnone : jsonAt (S.write (.array elements)) (name :: rest) = none := rfl
        rw [hnone, Value.ReadAlike, reaches_iff, not_not, eq_comm, Option.map_eq_none_iff]
      | _ => cases hx

/-- **The two paths address one value exactly where both evaluators read alike.**  For every
document and every dotted path, the JSON path of the path, evaluated on the document's canonical
JSON, addresses the value that `path_get` finds there, and nothing when it finds none, if and only
if the path, going down through documents, neither comes to an array and leads to one of its
elements nor comes to a scalar and leads into the object that the scalar is written as. -/
theorem path_agreement_iff {L : Libbson} (hL : L.Spells S) {d : Doc} {json : Json} {dotted : Text}
    {path : Path} (hd : L.toExtjson d = .ok json) (hpath : splitPath dotted = .ok path) :
    jsonExtract json (toJsonPath path) = (pathGet d path).map S.write ↔
      (Value.document d).ReadAlike path := by
  obtain ⟨name, rest, rfl⟩ : ∃ name rest, path = name :: rest := by
    rw [splitPath_eq_ok hpath]
    exact List.exists_cons_of_ne_nil (splitDots_ne_nil dotted)
  rw [← jsonAt_write_eq_iff (S := S), jsonExtract, readJsonPath_toJsonPath, Option.bind_some,
    hL d json hd]
  rfl

/-- A field of a sub-document is read alike. -/
theorem path_agreement_iff_field :
    let d := [("a".toList, Value.document [("b".toList, .int32 1)])]
    jsonExtract (.obj (Spelling.plain.writeFields d)) (toJsonPath ["a".toList, "b".toList]) =
      some (Spelling.plain.write (.int32 1)) := by
  intro d
  have halike : (Value.document d).ReadAlike ["a".toList, "b".toList] := by
    rintro x hx
    obtain rfl := Option.some.inj hx
    rintro y hy
    trivial
  have hpath : splitPath "a.b".toList = .ok ["a".toList, "b".toList] := rfl
  exact (path_agreement_iff Spelling.plain.libbson_spells (d := d) rfl hpath).2 halike

/-- The first element of an array: `path_get` finds it, and the JSON path selects nothing. -/
theorem path_misses_element :
    let d := [("a".toList, Value.array [("0".toList, .utf8 "x".toList)])]
    let path := ["a".toList, "0".toList]
    splitPath "a.0".toList = .ok path ∧
      Spelling.plain.libbson.toExtjson d = .ok (.obj (Spelling.plain.writeFields d)) ∧
      pathGet d path = some (.utf8 "x".toList) ∧
      jsonExtract (.obj (Spelling.plain.writeFields d)) (toJsonPath path) = none := by
  exact ⟨rfl, rfl, rfl, by decide⟩

end Chimera

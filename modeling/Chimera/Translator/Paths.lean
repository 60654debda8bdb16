import Chimera.Translator.Bson
import Mathlib.Data.List.Infix

/-!
# The laws of paths

`path_get`, `path_set` and `path_unset` read, write and remove the value at a path.  A document may
repeat a name, and then reading takes the first field of the name while writing and removing touch
all of them.  Together they still obey the laws of a place that can be read and written: what is
written is read, a second write hides the first, and other places are left alone.

A document and a value inside it take turns along a path, so the three functions are unfolded into
a step by name and a step into a value.
-/

namespace Chimera

/-! ## One name -/

/-- The document has a field of the name. -/
lemma any_name_iff {doc : Doc} {name : Text} :
    (doc.any fun field => decide (field.1 = name)) = true ↔ ∃ field ∈ doc, field.1 = name := by
  simp only [List.any_eq_true, decide_eq_true_eq]

/-- No field is found where no field has the name. -/
lemma findField_eq_none_iff {doc : Doc} {name : Text} :
    findField doc name = none ↔ ∀ field ∈ doc, field.1 ≠ name := by
  simp only [findField, Option.map_eq_none_iff, List.find?_eq_none, decide_eq_true_eq, ne_eq]

/-- A field that is found is one of the fields. -/
lemma mem_of_findField {doc : Doc} {name : Text} {v : Value} (h : findField doc name = some v) :
    (name, v) ∈ doc := by
  obtain ⟨field, hfield, rfl⟩ := Option.map_eq_some_iff.1 h
  have hname : field.1 = name := by simpa using List.find?_some hfield
  exact hname ▸ List.mem_of_find?_eq_some hfield

/-- A change of one name that finds no field of the name changes nothing. -/
lemma map_name_eq_self {doc : Doc} {name : Text} {f : Text × Value → Text × Value}
    (h : ∀ field ∈ doc, field.1 ≠ name) :
    (doc.map fun field => if field.1 = name then f field else field) = doc := by
  calc (doc.map fun field => if field.1 = name then f field else field)
      = doc.map id := List.map_congr_left fun field hfield => if_neg (h field hfield)
    _ = doc := List.map_id doc

/-- The field of a name after it was set. -/
@[simp] lemma findField_setField (doc : Doc) (name : Text) (f : Option Value → Value) :
    findField (setField doc name f) name = some (f (findField doc name)) := by
  unfold setField
  split
  · next hany =>
    induction doc with
    | nil => simp at hany
    | cons field doc ih =>
      obtain ⟨k, v⟩ := field
      by_cases hk : k = name
      · simp [hk]
      · have hrest : (doc.any fun field => decide (field.1 = name)) = true := by
          simpa [hk] using hany
        simpa [hk] using ih hrest
  · next hany =>
    have hnone : findField doc name = none := by
      rw [findField_eq_none_iff]
      intro field hfield hname
      exact hany (any_name_iff.2 ⟨field, hfield, hname⟩)
    rw [findField_append, hnone, findField_cons, if_pos rfl, Option.none_or]

/-- Setting a field twice. -/
lemma setField_setField (doc : Doc) (name : Text) (f g : Option Value → Value) :
    setField (setField doc name f) name g = setField doc name fun v => g (some (f v)) := by
  have hthere : ∃ field ∈ setField doc name f, field.1 = name :=
    ⟨_, mem_of_findField (findField_setField doc name f), rfl⟩
  rw [setField, if_pos (any_name_iff.2 hthere)]
  unfold setField
  split
  · rw [List.map_map]
    refine List.map_congr_left fun field _ => ?_
    by_cases hk : field.1 = name <;> simp [hk]
  · next hany =>
    have hother : ∀ field ∈ doc, field.1 ≠ name := fun field hfield hname =>
      hany (any_name_iff.2 ⟨field, hfield, hname⟩)
    rw [List.map_append, map_name_eq_self hother]
    simp

/-- Setting a field to what it holds, where its name is not repeated. -/
lemma setField_self {doc : Doc} {name : Text} {v : Value} {f : Option Value → Value}
    (hunique : (doc.map Prod.fst).Nodup) (hv : findField doc name = some v)
    (hf : f (some v) = v) : setField doc name f = doc := by
  rw [setField, if_pos (any_name_iff.2 ⟨_, mem_of_findField hv, rfl⟩)]
  induction doc with
  | nil => rfl
  | cons field doc ih =>
    obtain ⟨k, x⟩ := field
    obtain ⟨hk, hdoc⟩ := List.nodup_cons.1 hunique
    rw [findField_cons] at hv
    by_cases hname : k = name
    · obtain rfl : x = v := by simpa [hname] using hv
      have hother : ∀ field ∈ doc, field.1 ≠ name := by
        rintro ⟨k', y⟩ hfield heq
        exact hk (List.mem_map.2 ⟨_, hfield, heq.trans hname.symm⟩)
      rw [List.map_cons, map_name_eq_self hother]
      simp [hname, hf]
    · rw [if_neg hname] at hv
      rw [List.map_cons, ih hdoc hv]
      simp [hname]

/-! ## One step of a path -/

/-- The value at a path inside a value; the empty path leads to the value itself. -/
def Value.getUnder (x : Value) : Path → Option Value
  | [] => some x
  | name :: rest => x.subdocument.bind fun fields => pathGet fields (name :: rest)

/-- Write a value at a path inside what is there. -/
def setUnder (existing : Option Value) (path : Path) (value : Value) : Value :=
  match path, existing with
  | [], _ => value
  | name :: rest, some (.array fields) => .array (pathSet fields (name :: rest) value)
  | name :: rest, some (.document fields) => .document (pathSet fields (name :: rest) value)
  | name :: rest, _ => .document (pathSet [] (name :: rest) value)

/-- Remove the value at a path inside a value; the empty path removes the value itself. -/
def Value.unsetUnder (x : Value) : Path → Option Value
  | [] => none
  | name :: rest =>
    match x with
    | .array fields => some (.array (pathUnset fields (name :: rest)))
    | .document fields => some (.document (pathUnset fields (name :: rest)))
    | x => some x

/-- Reading takes the first field of a name. -/
lemma pathGet_cons (doc : Doc) (name : Text) (rest : Path) :
    pathGet doc (name :: rest) = (findField doc name).bind fun x => x.getUnder rest := by
  match rest with
  | [] => simp [pathGet, Value.getUnder]
  | _ :: _ => rfl

/-- Writing changes every field of a name. -/
lemma pathSet_cons (doc : Doc) (name : Text) (rest : Path) (value : Value) :
    pathSet doc (name :: rest) value =
      setField doc name fun existing => setUnder existing rest value := by
  match rest with
  | [] => rfl
  | k :: rest =>
    simp only [pathSet]
    refine congrArg (setField doc name) (funext fun existing => ?_)
    rcases existing with _ | x
    · rfl
    · cases x <;> rfl

/-- Removing passes over every field of a name. -/
lemma pathUnset_cons (doc : Doc) (name : Text) (rest : Path) :
    pathUnset doc (name :: rest) = doc.filterMap fun field =>
      if field.1 = name then (field.2.unsetUnder rest).map (Prod.mk field.1) else some field := by
  match rest with
  | [] =>
    rw [pathUnset, ← List.filterMap_eq_filter]
    refine List.filterMap_congr fun field _ => ?_
    by_cases hk : field.1 = name <;> simp [hk, Option.guard, Value.unsetUnder]
  | k :: rest =>
    simp only [pathUnset]
    rw [← List.filterMap_eq_map]
    refine List.filterMap_congr fun field _ => ?_
    obtain ⟨k', x⟩ := field
    by_cases hk : k' = name
    · cases x <;> simp [hk, Value.unsetUnder]
    · simp [hk]

/-! ## The laws -/

/-- Neither path is a prefix of the other. -/
def Beside (p q : Path) : Prop := ¬ p <+: q ∧ ¬ q <+: p

instance (p q : Path) : Decidable (Beside p q) :=
  inferInstanceAs (Decidable (¬ p <+: q ∧ ¬ q <+: p))

/-- Paths beside each other part at their first names or later. -/
lemma beside_cons_iff {name name' : Text} {p q : Path} :
    Beside (name :: p) (name' :: q) ↔ name ≠ name' ∨ Beside p q := by
  simp only [Beside, List.cons_prefix_cons]
  by_cases hname : name = name'
  · simp [hname]
  · simp [hname, Ne.symm hname]

/-- No path is beside the empty one. -/
lemma not_beside_nil {q : Path} : ¬ Beside [] q := fun h => h.1 List.nil_prefix

/-- Paths beside each other have a first name. -/
lemma Beside.exists_cons {p q : Path} (h : Beside p q) :
    ∃ name rest name' rest', p = name :: rest ∧ q = name' :: rest' ∧
      (name ≠ name' ∨ Beside rest rest') := by
  match p, q with
  | [], _ => exact absurd h not_beside_nil
  | _ :: _, [] => exact absurd List.nil_prefix h.2
  | name :: rest, name' :: rest' =>
    exact ⟨name, rest, name', rest', rfl, rfl, beside_cons_iff.1 h⟩

/-- Reading nothing leads nowhere. -/
@[simp] lemma pathGet_nil (p : Path) : pathGet [] p = none := by
  match p with
  | [] => rfl
  | name :: rest => rw [pathGet_cons, findField_nil, Option.bind_none]

/-- What was there, as far as a path can lead into it. -/
def Value.fieldsOf (existing : Option Value) : Doc := (existing.bind Value.subdocument).getD []

/-- Writing below a value writes into its fields. -/
lemma subdocument_setUnder (existing : Option Value) (name : Text) (rest : Path) (v : Value) :
    (setUnder existing (name :: rest) v).subdocument =
      some (pathSet (Value.fieldsOf existing) (name :: rest) v) := by
  rcases existing with _ | x
  · rfl
  · cases x <;> rfl

/-- Reading below a value reads its fields. -/
lemma getUnder_eq (existing : Option Value) (name : Text) (rest : Path) :
    (existing.bind fun x => x.getUnder (name :: rest)) =
      pathGet (Value.fieldsOf existing) (name :: rest) := by
  rcases existing with _ | x
  · exact (pathGet_nil _).symm
  · simp only [Option.bind_some, Value.getUnder, Value.fieldsOf]
    cases x.subdocument with
    | none => exact (pathGet_nil _).symm
    | some fields => rfl

/-- What is written below a value is read there. -/
lemma getUnder_setUnder_cons (existing : Option Value) (name : Text) (rest q : Path) (v : Value) :
    (setUnder existing (name :: rest) v).getUnder q = match q with
      | [] => some (setUnder existing (name :: rest) v)
      | k :: q => pathGet (pathSet (Value.fieldsOf existing) (name :: rest) v) (k :: q) := by
  match q with
  | [] => rfl
  | k :: q => rw [Value.getUnder, subdocument_setUnder, Option.bind_some]

/-- What is written is read. -/
lemma pathGet_pathSet (doc : Doc) {p : Path} (hp : p ≠ []) (v : Value) :
    pathGet (pathSet doc p v) p = some v := by
  induction p generalizing doc with
  | nil => exact absurd rfl hp
  | cons name rest ih =>
    rw [pathSet_cons, pathGet_cons, findField_setField, Option.bind_some]
    match rest with
    | [] => rfl
    | k :: rest =>
      rw [getUnder_setUnder_cons]
      exact ih _ (List.cons_ne_nil k rest)

/-- Writing leaves the paths beside alone. -/
lemma pathGet_pathSet_of_beside (doc : Doc) {p q : Path} (h : Beside p q) (v : Value) :
    pathGet (pathSet doc p v) q = pathGet doc q := by
  induction p generalizing doc q with
  | nil => exact absurd h not_beside_nil
  | cons name rest ih =>
    obtain ⟨_, _, name', rest', heq, rfl, hrest⟩ := h.exists_cons
    obtain ⟨rfl, rfl⟩ := List.cons.inj heq
    rw [pathSet_cons, pathGet_cons, pathGet_cons]
    by_cases hname : name = name'
    · subst hname
      have hbeside : Beside rest rest' := hrest.resolve_left fun hne => hne rfl
      obtain ⟨k, rest, k', rest', rfl, rfl, -⟩ := hbeside.exists_cons
      rw [findField_setField, Option.bind_some, getUnder_setUnder_cons, getUnder_eq]
      exact ih _ hbeside
    · rw [findField_setField_of_ne (Ne.symm hname)]

/-- A second write hides the first. -/
lemma pathSet_pathSet (doc : Doc) (p : Path) (v w : Value) :
    pathSet (pathSet doc p v) p w = pathSet doc p w := by
  induction p generalizing doc with
  | nil => rfl
  | cons name rest ih =>
    rw [pathSet_cons, pathSet_cons, pathSet_cons, setField_setField]
    refine congrArg (setField doc name) (funext fun existing => ?_)
    match rest with
    | [] => rfl
    | k :: rest =>
      rcases existing with _ | x
      · exact congrArg Value.document (ih [])
      · cases x with
        | array fields => exact congrArg Value.array (ih fields)
        | document fields => exact congrArg Value.document (ih fields)
        | _ => exact congrArg Value.document (ih [])

/-- The fields of a name after a path through it was removed. -/
lemma findField_pathUnset (doc : Doc) (name k : Text) (rest : Path) :
    findField (pathUnset doc (name :: k :: rest)) name =
      (findField doc name).bind fun x => x.unsetUnder (k :: rest) := by
  have hsome (x : Value) : ∃ y, x.unsetUnder (k :: rest) = some y := by
    cases x <;> exact ⟨_, rfl⟩
  rw [pathUnset_cons]
  induction doc with
  | nil => rfl
  | cons field doc ih =>
    obtain ⟨n, x⟩ := field
    by_cases hn : n = name
    · obtain ⟨y, hy⟩ := hsome x
      simp [hn, hy]
    · simpa [hn] using ih

/-- Removing below a value removes from its fields. -/
lemma getUnder_unsetUnder (x : Value) (k k' : Text) (rest rest' : Path) :
    ((x.unsetUnder (k :: rest)).bind fun y => y.getUnder (k' :: rest')) =
      pathGet (pathUnset (Value.fieldsOf (some x)) (k :: rest)) (k' :: rest') := by
  have hnil : pathUnset [] (k :: rest) = [] := by rw [pathUnset_cons]; rfl
  cases x with
  | array fields => rfl
  | document fields => rfl
  | _ => exact ((congrArg (pathGet · (k' :: rest')) hnil).trans (pathGet_nil _)).symm

/-- What is removed is gone. -/
lemma pathGet_pathUnset (doc : Doc) {p : Path} (hp : p ≠ []) :
    pathGet (pathUnset doc p) p = none := by
  induction p generalizing doc with
  | nil => exact absurd rfl hp
  | cons name rest ih =>
    match rest with
    | [] =>
      refine findField_eq_none_iff.2 fun field hfield => ?_
      simpa using (List.mem_filter.1 hfield).2
    | k :: rest =>
      rw [pathGet_cons, findField_pathUnset]
      cases findField doc name with
      | none => rfl
      | some x =>
        rw [Option.bind_some, getUnder_unsetUnder]
        exact ih _ (List.cons_ne_nil k rest)

/-- Removing leaves the paths beside alone. -/
lemma pathGet_pathUnset_of_beside (doc : Doc) {p q : Path} (h : Beside p q) :
    pathGet (pathUnset doc p) q = pathGet doc q := by
  induction p generalizing doc q with
  | nil => exact absurd h not_beside_nil
  | cons name rest ih =>
    obtain ⟨_, _, name', rest', heq, rfl, hrest⟩ := h.exists_cons
    obtain ⟨rfl, rfl⟩ := List.cons.inj heq
    by_cases hname : name = name'
    · subst hname
      have hbeside : Beside rest rest' := hrest.resolve_left fun hne => hne rfl
      obtain ⟨k, rest, k', rest', rfl, rfl, -⟩ := hbeside.exists_cons
      rw [pathGet_cons, pathGet_cons, findField_pathUnset]
      cases findField doc name with
      | none => rfl
      | some x =>
        rw [Option.bind_some, getUnder_unsetUnder, ih _ hbeside, getUnder_eq]
    · rw [pathGet_cons, pathGet_cons,
        findField_pathUnset_of_ne fun heq => hname (by simpa using heq)]

/-! ## Names that are not repeated -/

mutual

/-- No document in the value repeats a name. -/
def Value.uniqueKeys : Value → Bool
  | .document fields | .array fields | .codeWScope _ fields => uniqueKeysIn fields
  | _ => true
termination_by structural v => v

/-- Neither the document nor one inside it repeats a name. -/
def uniqueKeysIn : Doc → Bool
  | [] => true
  | (name, v) :: doc =>
    (doc.all fun field => !decide (field.1 = name)) && v.uniqueKeys && uniqueKeysIn doc
termination_by structural doc => doc

end

/-- The names of such a document. -/
lemma nodup_of_uniqueKeysIn {doc : Doc} (h : uniqueKeysIn doc = true) :
    (doc.map Prod.fst).Nodup := by
  induction doc with
  | nil => exact List.nodup_nil
  | cons field doc ih =>
    obtain ⟨name, v⟩ := field
    simp only [uniqueKeysIn, Bool.and_eq_true, List.all_eq_true] at h
    obtain ⟨⟨hname, -⟩, hdoc⟩ := h
    rw [List.map_cons, List.nodup_cons]
    refine ⟨fun hmem => ?_, ih hdoc⟩
    obtain ⟨field, hfield, heq⟩ := List.mem_map.1 hmem
    simpa [heq] using hname field hfield

/-- The values of such a document. -/
lemma uniqueKeys_of_mem {doc : Doc} (h : uniqueKeysIn doc = true) {field : Text × Value}
    (hfield : field ∈ doc) : field.2.uniqueKeys = true := by
  induction doc with
  | nil => cases hfield
  | cons head doc ih =>
    obtain ⟨name, v⟩ := head
    simp only [uniqueKeysIn, Bool.and_eq_true] at h
    rcases List.mem_cons.1 hfield with rfl | hfield
    · exact h.1.2
    · exact ih h.2 hfield

/-- Writing what is there changes nothing. -/
lemma pathSet_self {doc : Doc} {p : Path} {v : Value} (hunique : uniqueKeysIn doc = true)
    (h : pathGet doc p = some v) : pathSet doc p v = doc := by
  induction p generalizing doc with
  | nil => rfl
  | cons name rest ih =>
    rw [pathGet_cons] at h
    obtain ⟨x, hx, hv⟩ := Option.bind_eq_some_iff.1 h
    rw [pathSet_cons]
    refine setField_self (nodup_of_uniqueKeysIn hunique) hx ?_
    have hkeys := uniqueKeys_of_mem hunique (mem_of_findField hx)
    match rest with
    | [] => exact (Option.some.inj hv).symm
    | k :: rest =>
      cases x with
      | array fields => exact congrArg Value.array (ih hkeys hv)
      | document fields => exact congrArg Value.document (ih hkeys hv)
      | _ => cases hv

/-- **Lens laws.**  In every document, also one that repeats names, the value written at a path is
read there, a second write hides the first, and what is removed is gone.  Writing and removing leave
what every path beside reads.  Where no name is repeated, writing what is there changes nothing. -/
theorem path_lens_laws (d : Doc) {p : Path} (hp : p ≠ []) (v w : Value) :
    pathGet (pathSet d p v) p = some v ∧
      pathSet (pathSet d p v) p w = pathSet d p w ∧
      pathGet (pathUnset d p) p = none ∧
      (∀ q, ¬ p <+: q → ¬ q <+: p →
        pathGet (pathSet d p v) q = pathGet d q ∧ pathGet (pathUnset d p) q = pathGet d q) ∧
      (uniqueKeysIn d = true → pathGet d p = some v → pathSet d p v = d) := by
  refine ⟨pathGet_pathSet d hp v, pathSet_pathSet d p v w, pathGet_pathUnset d hp, ?_,
    fun hunique hv => pathSet_self hunique hv⟩
  intro q hpq hqp
  have hbeside : Beside p q := ⟨hpq, hqp⟩
  exact ⟨pathGet_pathSet_of_beside d hbeside v, pathGet_pathUnset_of_beside d hbeside⟩

/-- The laws where the paths part at their second names. -/
theorem path_lens_laws_twoMembers :
    pathGet (pathSet [("a".toList, .document [("b".toList, .int32 1), ("c".toList, .int32 2)])]
        ["a".toList, "b".toList] (.bool true)) ["a".toList, "c".toList] = some (.int32 2) ∧
      pathSet [("a".toList, .document [("b".toList, .int32 1), ("c".toList, .int32 2)])]
          ["a".toList, "b".toList] (.int32 1) =
        [("a".toList, .document [("b".toList, .int32 1), ("c".toList, .int32 2)])] := by
  have hbool := path_lens_laws
    [("a".toList, .document [("b".toList, .int32 1), ("c".toList, .int32 2)])]
    (p := ["a".toList, "b".toList]) (by decide) (.bool true) .null
  have hint := path_lens_laws
    [("a".toList, .document [("b".toList, .int32 1), ("c".toList, .int32 2)])]
    (p := ["a".toList, "b".toList]) (by decide) (.int32 1) .null
  obtain ⟨-, -, -, hbeside, -⟩ := hbool
  obtain ⟨-, -, -, -, hself⟩ := hint
  constructor
  · rw [(hbeside ["a".toList, "c".toList] (by decide) (by decide)).1]
    decide
  · exact hself (by decide) (by decide)

end Chimera

import Chimera.Foundations.Run
import Chimera.Translator.ExtendedJson
import Chimera.Translator.Spelling
import Chimera.Translator.Writes

/-!
# The keys of arrays

A BSON array is a document whose keys are its indices.  The path functions rebuild an array as they
rebuild a document: a new member goes to the end under the name that the path gives it, and a
member that is removed leaves a gap.  An update keeps the arrays arrays exactly when none of its
operators does the one or the other.
-/

namespace Chimera

open StepSystem

/-! ## Documents with proper arrays -/

mutual

/-- The keys of every array in the value are its indices. -/
def Value.indexed : Value → Bool
  | .document fields | .codeWScope _ fields => indexedFields fields
  | .array fields => indexedElements 0 fields
  | _ => true
termination_by structural v => v

/-- The keys of every array in the document are its indices. -/
def indexedFields : Doc → Bool
  | [] => true
  | (_, v) :: fields => v.indexed && indexedFields fields
termination_by structural fields => fields

/-- The keys are indices from a first one on, and so are those of the arrays inside. -/
def indexedElements : ℕ → Doc → Bool
  | _, [] => true
  | i, (name, v) :: fields =>
    decide (name = decimal i) && v.indexed && indexedElements (i + 1) fields
termination_by structural _ fields => fields

end

/-- The keys are the indices. -/
def HasIndices (fields : Doc) : Prop :=
  fields.map Prod.fst = (List.range fields.length).map decimal

/-- A document has proper arrays when its values have. -/
lemma indexedFields_iff {fields : Doc} :
    indexedFields fields = true ↔ ∀ field ∈ fields, field.2.indexed = true := by
  induction fields with
  | nil => simp [indexedFields]
  | cons field fields ih => simp [indexedFields, ih]

/-- The keys of an array from an index on. -/
lemma indexedElements_iff {i : ℕ} {fields : Doc} :
    indexedElements i fields = true ↔
      fields.map Prod.fst = (List.range' i fields.length).map decimal ∧
        indexedFields fields = true := by
  induction fields generalizing i with
  | nil => simp [indexedElements, indexedFields]
  | cons field fields ih =>
    obtain ⟨name, v⟩ := field
    simp only [indexedElements, indexedFields, Bool.and_eq_true, decide_eq_true_eq, ih,
      List.map_cons, List.length_cons, List.range'_succ, List.cons.injEq]
    tauto

/-- An array is proper when its keys are its indices and its values are proper. -/
lemma indexed_array_iff {fields : Doc} :
    (Value.array fields).indexed = true ↔ HasIndices fields ∧ indexedFields fields = true := by
  rw [HasIndices, List.range_eq_range']
  exact indexedElements_iff

/-- What is read in a document with proper arrays is proper. -/
lemma indexed_of_pathGet {d : Doc} {p : Path} {x : Value} (hd : indexedFields d = true)
    (hx : pathGet d p = some x) : x.indexed = true := by
  induction p generalizing d with
  | nil => cases hx
  | cons name rest ih =>
    rw [pathGet_cons] at hx
    obtain ⟨y, hy, hx⟩ := Option.bind_eq_some_iff.1 hx
    have hindexed := indexedFields_iff.1 hd _ (mem_of_findField hy)
    match rest with
    | [] => exact Option.some.inj hx ▸ hindexed
    | k :: rest =>
      obtain ⟨fields, hfields, hx⟩ := Option.bind_eq_some_iff.1 hx
      refine ih ?_ hx
      cases y with
      | document inner =>
        obtain rfl := Option.some.inj hfields
        exact hindexed
      | array inner =>
        obtain rfl := Option.some.inj hfields
        exact (indexed_array_iff.1 hindexed).2
      | _ => cases hfields

/-! ## Where a path may write and remove -/

/-- The document has a field of the name. -/
def hasName (fields : Doc) (name : Text) : Bool := fields.any fun field => decide (field.1 = name)

/-- Writing at the path adds to an array at most the element after its last one. -/
def Value.fitsWrite (v : Value) : Path → Bool
  | [] => true
  | name :: rest =>
    match v with
    | .document fields =>
      fields.all fun field => !decide (field.1 = name) || field.2.fitsWrite rest
    | .array fields => (hasName fields name || decide (name = decimal fields.length)) &&
        fields.all fun field => !decide (field.1 = name) || field.2.fitsWrite rest
    | _ => true
termination_by structural path => path

/-- Removing at the path takes from an array at most its last element. -/
def Value.fitsRemoval (v : Value) : Path → Bool
  | [] => true
  | name :: rest =>
    match v with
    | .document fields =>
      fields.all fun field => !decide (field.1 = name) || field.2.fitsRemoval rest
    | .array fields =>
      (!rest.isEmpty || !hasName fields name || decide (name = decimal (fields.length - 1))) &&
        fields.all fun field => !decide (field.1 = name) || field.2.fitsRemoval rest
    | _ => true
termination_by structural path => path

/-- The condition on the fields of a name. -/
lemma all_name_iff (fields : Doc) (name : Text) (q : Value → Bool) :
    (fields.all fun field => !decide (field.1 = name) || q field.2) = true ↔
      ∀ y, (name, y) ∈ fields → q y = true := by
  simp only [List.all_eq_true, Bool.or_eq_true, Bool.not_eq_true', decide_eq_false_iff_not]
  constructor
  · intro h y hy
    exact (h _ hy).resolve_left fun hne => hne rfl
  · rintro h ⟨k, y⟩ hy
    by_cases hk : k = name
    · subst hk
      exact .inr (h y hy)
    · exact .inl hk

/-- A name that the document has. -/
lemma hasName_iff {fields : Doc} {name : Text} :
    hasName fields name = true ↔ ∃ y, (name, y) ∈ fields := by
  rw [hasName, any_name_iff]
  constructor
  · rintro ⟨⟨k, y⟩, hy, rfl⟩
    exact ⟨y, hy⟩
  · rintro ⟨y, hy⟩
    exact ⟨_, hy, rfl⟩

/-- A name is an index of the array when its number is. -/
lemma hasName_decimal_iff {fields : Doc} (h : HasIndices fields) {i : ℕ} :
    hasName fields (decimal i) = true ↔ i < fields.length := by
  have hmem : hasName fields (decimal i) = true ↔ decimal i ∈ fields.map Prod.fst := by
    rw [hasName, any_name_iff, List.mem_map]
  rw [hmem, show fields.map Prod.fst = _ from h, List.mem_map]
  constructor
  · rintro ⟨j, hj, heq⟩
    obtain rfl := decimal_inj heq
    exact List.mem_range.1 hj
  · intro hi
    exact ⟨i, List.mem_range.2 hi, rfl⟩

/-! ## Writing -/

/-- A property of all values after a field was set. -/
lemma forall_mem_setField {doc : Doc} {name : Text} {f : Option Value → Value} {P : Value → Prop}
    (hdoc : ∀ field ∈ doc, P field.2) :
    (∀ field ∈ setField doc name f, P field.2) ↔
      (∀ y, (name, y) ∈ doc → P (f (some y))) ∧ (hasName doc name = false → P (f none)) := by
  constructor
  · intro hall
    refine ⟨fun y hy => hall _ (mem_setField f hy), fun habsent => ?_⟩
    have hnew : (name, f none) ∈ setField doc name f := by
      have habsent' : (doc.any fun field => decide (field.1 = name)) = false := habsent
      rw [setField, habsent', if_neg Bool.false_ne_true]
      exact List.mem_append_right _ List.mem_cons_self
    exact hall _ hnew
  · rintro ⟨hthere, habsent⟩ field hfield
    unfold setField at hfield
    split at hfield
    · obtain ⟨⟨k, y⟩, hy, rfl⟩ := List.mem_map.1 hfield
      by_cases hk : k = name
      · subst hk
        rw [if_pos rfl]
        exact hthere y hy
      · rw [if_neg hk]
        exact hdoc _ hy
    · next hany =>
      rcases List.mem_append.1 hfield with hmem | hmem
      · exact hdoc _ hmem
      · obtain rfl := List.mem_singleton.1 hmem
        exact habsent (Bool.eq_false_iff.2 hany)

/-- The keys of an array after a member was set. -/
lemma hasIndices_setField {fields : Doc} (h : HasIndices fields) (name : Text)
    (f : Option Value → Value) :
    HasIndices (setField fields name f) ↔
      hasName fields name = true ∨ name = decimal fields.length := by
  unfold setField
  split
  · next hany =>
    refine iff_of_true ?_ (.inl hany)
    have hnames : (fields.map fun field =>
        if field.1 = name then (field.1, f (some field.2)) else field).map Prod.fst =
          fields.map Prod.fst := by
      rw [List.map_map]
      refine List.map_congr_left fun field _ => ?_
      by_cases hk : field.1 = name <;> simp [hk]
    rw [HasIndices, hnames, List.length_map]
    exact h
  · next hany =>
    have hname : hasName fields name = false := Bool.eq_false_iff.2 hany
    rw [HasIndices, List.map_append, List.length_append, show fields.map Prod.fst = _ from h,
      hname]
    simp [List.range_succ]

/-- Below nothing a value is written into documents. -/
lemma indexed_setUnder_none (p : Path) (w : Value) :
    (setUnder none p w).indexed = w.indexed := by
  induction p with
  | nil => rfl
  | cons name rest ih =>
    have hset : setUnder none (name :: rest) w = .document [(name, setUnder none rest w)] :=
      congrArg Value.document (pathSet_cons [] name rest w)
    rw [hset, Value.indexed, indexedFields, ih, indexedFields, Bool.and_true]

/-- Writing below a scalar is writing below nothing. -/
lemma setUnder_scalar {v : Value} (hv : v.subdocument = none) (p : Path) (w : Value) :
    setUnder (some v) p w = setUnder none p w := by
  match p with
  | [] => rfl
  | _ :: _ => cases v <;> first | rfl | cases hv

/-- The values of a document after a path was written. -/
lemma indexedFields_pathSet {fields : Doc} (hfields : indexedFields fields = true) (name : Text)
    (rest : Path) (w : Value)
    (hbelow : ∀ y, (name, y) ∈ fields →
      ((setUnder (some y) rest w).indexed = true ↔ y.fitsWrite rest = true ∧ w.indexed = true)) :
    indexedFields (pathSet fields (name :: rest) w) = true ↔
      (∀ y, (name, y) ∈ fields → y.fitsWrite rest = true) ∧ w.indexed = true := by
  rw [indexedFields_iff, pathSet_cons,
    forall_mem_setField (P := fun v => v.indexed = true) (indexedFields_iff.1 hfields),
    indexed_setUnder_none]
  constructor
  · rintro ⟨hthere, habsent⟩
    refine ⟨fun y hy => ((hbelow y hy).1 (hthere y hy)).1, ?_⟩
    cases hname : hasName fields name with
    | false => exact habsent hname
    | true =>
      obtain ⟨y, hy⟩ := hasName_iff.1 hname
      exact ((hbelow y hy).1 (hthere y hy)).2
  · rintro ⟨hfits, hw⟩
    exact ⟨fun y hy => (hbelow y hy).2 ⟨hfits y hy, hw⟩, fun _ => hw⟩

/-- **Writing.**  Arrays stay proper when the value that is written is and the path fits. -/
lemma indexed_setUnder_iff {v : Value} (hv : v.indexed = true) (p : Path) (w : Value) :
    (setUnder (some v) p w).indexed = true ↔ v.fitsWrite p = true ∧ w.indexed = true := by
  induction p generalizing v with
  | nil => exact ⟨fun h => ⟨rfl, h⟩, And.right⟩
  | cons name rest ih =>
    cases v with
    | document fields =>
      have hvalues := indexedFields_pathSet hv name rest w fun y hy =>
        ih (indexedFields_iff.1 hv _ hy)
      simp only [setUnder, Value.indexed, Value.fitsWrite]
      rw [hvalues, all_name_iff fields name fun y => y.fitsWrite rest]
    | array fields =>
      obtain ⟨hindices, hfields⟩ := indexed_array_iff.1 hv
      have hvalues := indexedFields_pathSet hfields name rest w fun y hy =>
        ih (indexedFields_iff.1 hfields _ hy)
      have hkeys : HasIndices (pathSet fields (name :: rest) w) ↔
          hasName fields name = true ∨ name = decimal fields.length := by
        rw [pathSet_cons]
        exact hasIndices_setField hindices name _
      simp only [setUnder, indexed_array_iff, Value.fitsWrite, Bool.and_eq_true, Bool.or_eq_true,
        decide_eq_true_eq, hvalues, hkeys, and_assoc]
      rw [all_name_iff fields name fun y => y.fitsWrite rest]
    | _ =>
      rw [setUnder_scalar rfl, indexed_setUnder_none]
      exact ⟨fun h => ⟨rfl, h⟩, And.right⟩

/-- Writing into a document. -/
lemma indexedFields_pathSet_iff {d : Doc} (hd : indexedFields d = true) {p : Path} (hp : p ≠ [])
    (w : Value) : indexedFields (pathSet d p w) = true ↔
      (Value.document d).fitsWrite p = true ∧ w.indexed = true := by
  obtain ⟨name, rest, rfl⟩ := List.exists_cons_of_ne_nil hp
  exact indexed_setUnder_iff (v := .document d) hd (name :: rest) w

/-! ## Removing -/

/-- Without its member `i` an array of `n` elements keeps proper keys when `i` is the last. -/
lemma hasIndices_filter {fields : Doc} (h : HasIndices fields) (name : Text) :
    HasIndices (fields.filter fun field => !decide (field.1 = name)) ↔
      hasName fields name = false ∨ name = decimal (fields.length - 1) := by
  obtain ⟨rest, hrest⟩ :
      ∃ rest, rest = fields.filter fun field => !decide (field.1 = name) := ⟨_, rfl⟩
  have hnames (k : Text) : hasName rest k = true ↔ hasName fields k = true ∧ k ≠ name := by
    rw [hasName_iff, hasName_iff, hrest]
    simp only [List.mem_filter, Bool.not_eq_true', decide_eq_false_iff_not, exists_and_right]
  rw [← hrest]
  cases hname : hasName fields name with
  | false =>
    have hall : ∀ field ∈ fields, (!decide (field.1 = name)) = true := by
      rintro ⟨k, y⟩ hy
      have hk : k ≠ name := by
        rintro rfl
        rw [hasName_iff.2 ⟨y, hy⟩] at hname
        cases hname
      simpa using hk
    rw [hrest, List.filter_eq_self.2 hall]
    exact iff_of_true h (.inl rfl)
  | true =>
    have hmem : name ∈ (List.range fields.length).map decimal := by
      rw [← show fields.map Prod.fst = _ from h]
      obtain ⟨y, hy⟩ := hasName_iff.1 hname
      exact List.mem_map.2 ⟨_, hy, rfl⟩
    obtain ⟨i, hi, rfl⟩ := List.mem_map.1 hmem
    rw [List.mem_range] at hi
    have hlast : decimal i = decimal (fields.length - 1) ↔ i = fields.length - 1 :=
      ⟨decimal_inj, congrArg decimal⟩
    simp only [Bool.true_eq_false, false_or, hlast]
    constructor
    · -- the last index is still there, so the array is longer than it, and `i` is there as well
      intro hindices
      by_contra hne
      have hthere := (hnames (decimal (fields.length - 1))).2
        ⟨(hasName_decimal_iff h).2 (by omega), fun heq => hne (hlast.1 heq.symm)⟩
      have hlong := (hasName_decimal_iff hindices).1 hthere
      have hgone := (hnames (decimal i)).1 ((hasName_decimal_iff hindices).2 (by omega))
      exact hgone.2 rfl
    · intro hi'
      obtain ⟨n, hn⟩ : ∃ n, fields.length = n + 1 := ⟨fields.length - 1, by omega⟩
      obtain rfl : i = n := by omega
      have hmap : rest.map Prod.fst = (List.range i).map decimal := by
        have hfilter : rest.map Prod.fst =
            (fields.map Prod.fst).filter fun k => !decide (k = decimal i) := by
          rw [hrest, List.filter_map]
          rfl
        rw [hfilter, show fields.map Prod.fst = _ from h, hn, List.range_succ, List.map_append,
          List.filter_append, List.map_cons, List.map_nil, List.filter_cons_of_neg (by simp),
          List.filter_nil, List.append_nil, List.filter_eq_self]
        intro k hk
        obtain ⟨j, hj, rfl⟩ := List.mem_map.1 hk
        have hne : decimal j ≠ decimal i := fun heq =>
          (List.mem_range.1 hj).ne (decimal_inj heq)
        simpa using hne
      have hlength : rest.length = i := by
        rw [← List.length_map Prod.fst, hmap, List.length_map, List.length_range]
      rw [HasIndices, hmap, hlength]

/-- Removing through a name changes the values of the name. -/
lemma pathUnset_below (doc : Doc) (name k : Text) (rest : Path) :
    pathUnset doc (name :: k :: rest) = doc.map fun field =>
      if field.1 = name then (field.1, (field.2.unsetUnder (k :: rest)).getD field.2)
      else field := by
  rw [pathUnset_cons, ← List.filterMap_eq_map]
  refine List.filterMap_congr fun field _ => ?_
  obtain ⟨k', x⟩ := field
  by_cases hk : k' = name
  · cases x <;> simp [hk, Value.unsetUnder]
  · simp [hk]

/-- A change of values keeps the keys. -/
lemma hasIndices_map (fields : Doc) (name : Text) (f : Value → Value) :
    HasIndices (fields.map fun field => if field.1 = name then (field.1, f field.2) else field) ↔
      HasIndices fields := by
  have hnames : (fields.map fun field =>
      if field.1 = name then (field.1, f field.2) else field).map Prod.fst =
        fields.map Prod.fst := by
    rw [List.map_map]
    refine List.map_congr_left fun field _ => ?_
    by_cases hk : field.1 = name <;> simp [hk]
  rw [HasIndices, hnames, List.length_map, HasIndices]

/-- The values of a document after a path through a name was removed. -/
lemma indexedFields_pathUnset {fields : Doc} (hfields : indexedFields fields = true)
    (name k : Text) (rest : Path) :
    indexedFields (pathUnset fields (name :: k :: rest)) = true ↔
      ∀ y, (name, y) ∈ fields → ((y.unsetUnder (k :: rest)).getD y).indexed = true := by
  rw [indexedFields_iff, pathUnset_below]
  constructor
  · intro hall y hy
    exact hall _ (List.mem_map.2 ⟨_, hy, if_pos rfl⟩)
  · rintro hname _ hmem
    obtain ⟨⟨k', y⟩, hy, rfl⟩ := List.mem_map.1 hmem
    by_cases hk : k' = name
    · subst hk
      rw [if_pos rfl]
      exact hname y hy
    · rw [if_neg hk]
      exact indexedFields_iff.1 hfields _ hy

/-- **Removing.**  Arrays stay proper when the path fits. -/
lemma indexed_unsetUnder_iff {v : Value} (hv : v.indexed = true) {p : Path} (hp : p ≠ []) :
    ((v.unsetUnder p).getD v).indexed = true ↔ v.fitsRemoval p = true := by
  induction p generalizing v with
  | nil => exact absurd rfl hp
  | cons name rest ih =>
    have hvalues {fields : Doc} (hfields : indexedFields fields = true) :
        indexedFields (pathUnset fields (name :: rest)) = true ↔
          ∀ y, (name, y) ∈ fields → y.fitsRemoval rest = true := by
      cases rest with
      | nil =>
        refine iff_of_true (indexedFields_iff.2 fun field hfield => ?_) fun y _ => rfl
        exact indexedFields_iff.1 hfields _ (List.mem_filter.1 hfield).1
      | cons k rest =>
        rw [indexedFields_pathUnset hfields]
        exact forall₂_congr fun y hy =>
          ih (indexedFields_iff.1 hfields _ hy) (List.cons_ne_nil k rest)
    cases v with
    | document fields =>
      simp only [Value.unsetUnder, Option.getD_some, Value.indexed, Value.fitsRemoval]
      rw [hvalues hv, all_name_iff fields name fun y => y.fitsRemoval rest]
    | array fields =>
      obtain ⟨hindices, hfields⟩ := indexed_array_iff.1 hv
      have hkeys : HasIndices (pathUnset fields (name :: rest)) ↔
          (!rest.isEmpty || !hasName fields name ||
            decide (name = decimal (fields.length - 1))) = true := by
        cases rest with
        | nil =>
          simp only [pathUnset, hasIndices_filter hindices, List.isEmpty_nil, Bool.not_true,
            Bool.false_or, Bool.or_eq_true, Bool.not_eq_true', decide_eq_true_eq]
        | cons k rest =>
          rw [pathUnset_below,
            hasIndices_map fields name fun x => (x.unsetUnder (k :: rest)).getD x]
          exact iff_of_true hindices rfl
      simp only [Value.unsetUnder, Option.getD_some, indexed_array_iff, Value.fitsRemoval,
        Bool.and_eq_true, hkeys, hvalues hfields]
      rw [all_name_iff fields name fun y => y.fitsRemoval rest]
    | _ => exact iff_of_true hv rfl

/-- Removing from a document. -/
lemma indexedFields_pathUnset_iff {d : Doc} (hd : indexedFields d = true) {p : Path} (hp : p ≠ []) :
    indexedFields (pathUnset d p) = true ↔ (Value.document d).fitsRemoval p = true := by
  obtain ⟨name, rest, rfl⟩ := List.exists_cons_of_ne_nil hp
  exact indexed_unsetUnder_iff (v := .document d) hd (List.cons_ne_nil name rest)

/-! ## One operator -/

/-- `make_array` numbers its elements. -/
lemma indexed_makeArray (elements : List Value) :
    (Value.array (makeArray elements)).indexed = elements.all Value.indexed := by
  have hfrom (i : ℕ) : indexedElements i ((elements.zipIdx i).map fun p => (decimal p.2, p.1)) =
      elements.all Value.indexed := by
    induction elements generalizing i with
    | nil => rfl
    | cons v elements ih => simp [indexedElements, ih]
  exact hfrom 0

/-- A number has no arrays in it. -/
lemma indexed_of_numeric {v : Value} (h : valueIsNumeric v = true) : v.indexed = true := by
  cases v with
  | int32 _ | int64 _ | double _ => rfl
  | _ => cases h

/-- The result of `$inc` is a number. -/
lemma valueIsNumeric_incremented (existing : Option Value) (arg : Value) :
    valueIsNumeric (incremented existing arg) = true := by
  unfold incremented
  extract_lets sum isDouble
  split <;> rfl

/-- Values are equal to containers only when they are the same. -/
lemma indexed_of_valueEqual {e c : Value} (h : valueEqual e c = true) :
    e.indexed = c.indexed := by
  unfold valueEqual at h
  split at h
  · next hnumeric =>
    rw [Bool.and_eq_true] at hnumeric
    rw [indexed_of_numeric hnumeric.1, indexed_of_numeric hnumeric.2]
  · cases e with
    | document fields =>
      cases c with
      | document fields' =>
        obtain rfl := (Value.beqFields_iff fields fields').1 h
        rfl
      | _ => cases h
    | array fields =>
      cases c with
      | array fields' =>
        obtain rfl := (Value.beqFields_iff fields fields').1 h
        rfl
      | _ => cases h
    | _ => cases c <;> first | rfl | cases h

/-- The elements of a set are proper when those that were there and the candidates are. -/
lemma all_indexed_addToSet (elements candidates : List Value) :
    (addToSet elements candidates).all Value.indexed =
      (elements.all Value.indexed && candidates.all Value.indexed) := by
  unfold addToSet
  induction candidates generalizing elements with
  | nil => simp
  | cons c candidates ih =>
    rw [List.foldl_cons, ih]
    split
    · next hpresent =>
      obtain ⟨e, he, heq⟩ := List.any_eq_true.1 hpresent
      rw [List.all_cons]
      cases hall : elements.all Value.indexed with
      | false => rfl
      | true =>
        rw [← indexed_of_valueEqual heq, List.all_eq_true.1 hall e he, Bool.true_and,
          Bool.true_and]
    · rw [List.all_append, List.all_cons, List.all_cons, List.all_nil, Bool.and_true,
        Bool.and_assoc]

/-- The values that an operator takes out of its argument are proper. -/
def argumentIndexed (op : Text) (arg : Value) : Bool :=
  if op = "$set".toList then arg.indexed
  else if op = "$push".toList ∨ op = "$addToSet".toList then
    ((eachValues arg).toOption.getD []).all Value.indexed
  else true

/-- The elements that are read are proper. -/
lemma all_indexed_of_arrayElements {existing : Option Value} {elements : List Value}
    (hexisting : ∀ x, existing = some x → x.indexed = true)
    (h : arrayElements existing = some elements) : ∀ e ∈ elements, e.indexed = true := by
  match existing with
  | none =>
    obtain rfl := Option.some.inj h
    exact fun e he => absurd he List.not_mem_nil
  | some (.array fields) =>
    obtain rfl := Option.some.inj h
    intro e he
    obtain ⟨field, hfield, rfl⟩ := List.mem_map.1 he
    exact indexedFields_iff.1 (indexed_array_iff.1 (hexisting _ rfl)).2 field hfield

/-- The value that an operator writes is proper when the argument is. -/
lemma indexed_written_iff {op : Text} {existing : Option Value} {arg v : Value}
    (hexisting : ∀ x, existing = some x → x.indexed = true)
    (h : operatorEffect op existing arg = some (.set v)) :
    v.indexed = true ↔ argumentIndexed op arg = true := by
  have hsub {elements kept : List Value} (helements : arrayElements existing = some elements)
      (hkept : kept.Sublist elements) :
      (Value.array (makeArray kept)).indexed = true := by
    rw [indexed_makeArray, List.all_eq_true]
    exact fun e he => all_indexed_of_arrayElements hexisting helements e (hkept.subset he)
  have hall {elements : List Value} (helements : arrayElements existing = some elements) :
      elements.all Value.indexed = true :=
    List.all_eq_true.2 (all_indexed_of_arrayElements hexisting helements)
  unfold operatorEffect at h
  unfold argumentIndexed
  by_cases hset : op = "$set".toList
  · rw [if_pos hset] at h ⊢
    obtain rfl := PathEffect.set.inj (Option.some.inj h)
    exact Iff.rfl
  rw [if_neg hset] at h ⊢
  by_cases hunset : op = "$unset".toList
  · rw [if_pos hunset] at h
    cases h
  rw [if_neg hunset] at h
  by_cases hinc : op = "$inc".toList
  · rw [if_pos hinc] at h
    rw [if_neg (by rw [hinc]; decide)]
    split at h
    · obtain rfl := PathEffect.set.inj (Option.some.inj h)
      exact iff_of_true (indexed_of_numeric (valueIsNumeric_incremented existing arg)) rfl
    · cases h
  rw [if_neg hinc] at h
  by_cases hpush : op = "$push".toList
  · rw [if_pos hpush] at h
    rw [if_pos (.inl hpush)]
    obtain ⟨elements, helements, h⟩ := Option.bind_eq_some_iff.1 h
    obtain ⟨values, hvalues, h⟩ := Option.bind_eq_some_iff.1 h
    obtain rfl := PathEffect.set.inj (Option.some.inj h)
    rw [indexed_makeArray, List.all_append, hall helements, Bool.true_and, hvalues,
      Option.getD_some]
  rw [if_neg hpush] at h
  by_cases hadd : op = "$addToSet".toList
  · rw [if_pos hadd] at h
    rw [if_pos (.inr hadd)]
    obtain ⟨elements, helements, h⟩ := Option.bind_eq_some_iff.1 h
    obtain ⟨candidates, hcandidates, h⟩ := Option.bind_eq_some_iff.1 h
    obtain rfl := PathEffect.set.inj (Option.some.inj h)
    rw [indexed_makeArray, all_indexed_addToSet, hall helements, Bool.true_and, hcandidates,
      Option.getD_some]
  rw [if_neg hadd] at h
  rw [if_neg (not_or.2 ⟨hpush, hadd⟩)]
  refine iff_of_true ?_ rfl
  by_cases hpull : op = "$pull".toList
  · rw [if_pos hpull] at h
    split at h
    · cases h
    · obtain ⟨elements, helements, h⟩ := Option.bind_eq_some_iff.1 h
      obtain rfl := PathEffect.set.inj (Option.some.inj h)
      exact hsub helements List.filter_sublist
  rw [if_neg hpull] at h
  by_cases hpop : op = "$pop".toList
  · rw [if_pos hpop] at h
    obtain ⟨elements, helements, h⟩ := Option.bind_eq_some_iff.1 h
    split at h
    · cases h
    split at h
    · obtain rfl := PathEffect.set.inj (Option.some.inj h)
      exact hsub helements (List.tail_sublist _)
    · obtain rfl := PathEffect.set.inj (Option.some.inj h)
      exact hsub helements (List.dropLast_sublist _)
  rw [if_neg hpop] at h
  cases h

/-! ## Whole updates -/

/-- One operator on one path, as a step of an update. -/
structure UpdateStep where
  /-- The operator. -/
  op : Text
  /-- Its path. -/
  path : Path
  /-- A path has a member. -/
  path_ne_nil : path ≠ []
  /-- Its argument. -/
  arg : Value

/-- The steps of an update of operators, in order. -/
def updateSteps (update : Doc) : List UpdateStep :=
  update.flatMap fun op =>
    match op.2 with
    | .document spec =>
      spec.map fun field => ⟨op.1, splitDots field.1, splitDots_ne_nil field.1, field.2⟩
    | _ => []

/-- Take a step. -/
def takeStep (d : Doc) (s : UpdateStep) : Option Doc := (applyOne s.op d s.path s.arg).toOption

/-- The step keeps the arrays of the document: it removes at most the last element of an array; or
it writes at most the element after the last one, and what it writes is proper.  A `$pop` that finds
no element writes nothing. -/
def UpdateStep.fits (d : Doc) (s : UpdateStep) : Bool :=
  if s.op = "$unset".toList then (Value.document d).fitsRemoval s.path
  else if s.op = "$pop".toList ∧ arrayElements (pathGet d s.path) = some [] then true
  else (Value.document d).fitsWrite s.path && argumentIndexed s.op s.arg

/-- The steps of an update lead to its result. -/
lemma steps_of_applyOperators {d d' u : Doc} (h : applyOperators d u = .ok d') :
    Steps takeStep d (updateSteps u) d' := by
  have htake {d next : Doc} {s : UpdateStep} (hone : applyOne s.op d s.path s.arg = .ok next) :
      takeStep d s = some next := by rw [takeStep, hone]; rfl
  have hspec {op : Text} {d next spec : Doc} (hop : applyOperator op d spec = .ok next) :
      Steps takeStep d (spec.map fun field =>
        ⟨op, splitDots field.1, splitDots_ne_nil field.1, field.2⟩) next := by
    induction spec generalizing d with
    | nil =>
      obtain rfl := Except.ok.inj hop
      exact Run.nil d
    | cons field spec ih =>
      obtain ⟨path, hpath, -, after, hone, hrest⟩ := applyOperator_cons.1 hop
      obtain rfl := splitPath_eq_ok hpath
      exact Run.cons trivial (htake hone) (ih hrest)
  induction u generalizing d with
  | nil =>
    obtain rfl := Except.ok.inj h
    exact Run.nil d
  | cons op rest ih =>
    obtain ⟨spec, hop, next, hnext, hrest⟩ := applyOperators_cons.1 h
    have hsteps : updateSteps (op :: rest) =
        (spec.map fun field =>
          ⟨op.1, splitDots field.1, splitDots_ne_nil field.1, field.2⟩) ++ updateSteps rest := by
      rw [updateSteps, List.flatMap_cons, hop]
      rfl
    rw [hsteps]
    exact (hspec hnext).append (ih hrest)

/-- **One step.**  A step keeps the arrays exactly when it fits. -/
lemma indexedFields_takeStep {d d' : Doc} {s : UpdateStep} (hd : indexedFields d = true)
    (h : takeStep d s = some d') : indexedFields d' = true ↔ s.fits d = true := by
  rw [takeStep, applyOne_toOption, Option.map_eq_some_iff] at h
  obtain ⟨e, he, rfl⟩ := h
  rcases effect_cases he with ⟨v, rfl⟩ | ⟨rfl, hop⟩ | ⟨rfl, hop, hempty⟩
  · have hunset : s.op ≠ "$unset".toList := by
      intro hop
      rw [hop] at he
      cases he
    have hpop : ¬ (s.op = "$pop".toList ∧ arrayElements (pathGet d s.path) = some []) := by
      rintro ⟨hop, hempty⟩
      have hkeep : operatorEffect "$pop".toList (pathGet d s.path) s.arg = some .keep := by
        change (arrayElements (pathGet d s.path)).bind _ = _
        rw [hempty]
        rfl
      rw [hop, hkeep] at he
      cases he
    rw [UpdateStep.fits, if_neg hunset, if_neg hpop, Bool.and_eq_true, PathEffect.apply,
      indexedFields_pathSet_iff hd s.path_ne_nil,
      indexed_written_iff (fun x hx => indexed_of_pathGet hd hx) he]
  · rw [UpdateStep.fits, if_pos hop, PathEffect.apply, indexedFields_pathUnset_iff hd
      s.path_ne_nil]
  · rw [UpdateStep.fits, if_neg (by rw [hop]; decide), if_pos ⟨hop, hempty⟩]
    exact iff_of_true hd rfl

/-- The fields that a replacement takes over are proper; the `_id` of the document stays. -/
def replacementIndexed (d u : Doc) : Bool :=
  u.all fun field => ((findField d "_id".toList).isSome && decide (field.1 = "_id".toList)) ||
    field.2.indexed

/-- **A replacement.**  It keeps the arrays exactly when it brings proper ones. -/
lemma indexedFields_replacement {d u : Doc} (hd : indexedFields d = true) :
    indexedFields (replacement d u) = true ↔ replacementIndexed d u = true := by
  unfold replacement replacementIndexed
  cases hid : findField d "_id".toList with
  | none => simp [indexedFields_iff]
  | some id =>
    have hkept : id.indexed = true := indexedFields_iff.1 hd _ (mem_of_findField hid)
    simp only [indexedFields, hkept, Bool.true_and, indexedFields_iff, List.mem_filter,
      Bool.not_eq_true', decide_eq_false_iff_not, List.all_eq_true, Option.isSome_some,
      Bool.or_eq_true, decide_eq_true_eq]
    refine forall_congr' fun field => ?_
    tauto

/-! ## Written and read back -/

namespace ExtendedJson

variable (E : ExtendedJson)

mutual

/-- No document inside the value looks like a scalar. -/
def unwrapped : Value → Bool
  | .document fields => !E.wrapped (E.writeFields fields) && unwrappedFields fields
  | .array fields => unwrappedFields fields
  | _ => true
termination_by structural v => v

/-- No document inside a document looks like a scalar. -/
def unwrappedFields : Doc → Bool
  | [] => true
  | (_, v) :: fields => unwrapped v && unwrappedFields fields
termination_by structural fields => fields

end

variable {E}

mutual

/-- A value that is stored is plain when no document looks like a scalar and its arrays are
proper. -/
lemma plain_eq : ∀ v : Value, v.storable = true → E.plain v = (E.unwrapped v && v.indexed)
  | .document fields, h => by
    rw [plain, unwrapped, Value.indexed, plainFields_eq fields h, Bool.and_assoc]
  | .array fields, h => by
    rw [plain, unwrapped, Value.indexed, plainElements_eq fields 0 h]
  | .codeWScope _ _, h => by cases h
  | .double _, _ | .utf8 _, _ | .binary _ _, _ | .undefined, _ | .oid _, _ | .bool _, _
  | .dateTime _, _ | .null, _ | .regex _ _, _ | .dbPointer _ _, _ | .code _, _ | .symbol _, _
  | .int32 _, _ | .timestamp _ _, _ | .int64 _, _ | .decimal128 _, _ | .minKey, _
  | .maxKey, _ => rfl

/-- The fields of a document. -/
lemma plainFields_eq : ∀ fields : Doc, storableFields fields = true →
    E.plainFields fields = (E.unwrappedFields fields && indexedFields fields)
  | [], _ => rfl
  | (name, v) :: fields, h => by
    rw [storableFields, Bool.and_eq_true] at h
    rw [plainFields, unwrappedFields, indexedFields, plain_eq v h.1, plainFields_eq fields h.2,
      Bool.and_assoc, Bool.and_assoc, Bool.and_left_comm v.indexed]

/-- The elements of an array. -/
lemma plainElements_eq : ∀ (fields : Doc) (i : ℕ), storableFields fields = true →
    E.plainElements i fields = (E.unwrappedFields fields && indexedElements i fields)
  | [], _, _ => rfl
  | (name, v) :: fields, i, h => by
    rw [storableFields, Bool.and_eq_true] at h
    rw [plainElements, unwrappedFields, indexedElements, plain_eq v h.1,
      plainElements_eq fields (i + 1) h.2]
    cases decide (name = decimal i) <;> cases E.unwrapped v <;> cases v.indexed <;>
      cases E.unwrappedFields fields <;> rfl

end

end ExtendedJson

/-- **Arrays stay arrays.**  A replacement of a document with proper arrays has proper arrays
exactly when it brings proper ones.  In an update of operators the arrays are proper after every
step exactly when every step fits the document that it meets.  A result that can be stored, and in
which no document looks like a scalar, is read back as it was written exactly when its arrays are
proper. -/
theorem arrays_stay_arrays_iff {d d' u : Doc} (hd : indexedFields d = true)
    (h : applyUpdate d u = .ok d') :
    (hasOperators u = false → (indexedFields d' = true ↔ replacementIndexed d u = true)) ∧
      (hasOperators u = true → Steps takeStep d (updateSteps u) d' ∧
        ((∀ part mid, part <+: updateSteps u → Steps takeStep d part mid →
            indexedFields mid = true) ↔
          Run takeStep (fun mid s => s.fits mid = true) d (updateSteps u) d')) ∧
      ∀ E : ExtendedJson, E.Lawful → storableFields d' = true → E.unwrappedFields d' = true →
        (E.readFields (E.writeFields d') = .ok d' ↔ indexedFields d' = true) := by
  unfold applyUpdate at h
  split at h
  · cases h
  refine ⟨fun hops => ?_, fun hops => ?_, fun E hE hstorable hunwrapped => ?_⟩
  · rw [hops, Bool.not_false, if_pos rfl] at h
    obtain rfl := Except.ok.inj h
    exact indexedFields_replacement hd
  · rw [hops, Bool.not_true, if_neg Bool.false_ne_true] at h
    have hsteps := steps_of_applyOperators h
    exact ⟨hsteps, Run.invariant_iff (P := fun mid => indexedFields mid = true)
      (fun _ _ _ hmid hnext => indexedFields_takeStep hmid hnext) hsteps hd⟩
  · rw [ExtendedJson.readFields_write_iff hE d' hstorable,
      ExtendedJson.plainFields_eq d' hstorable, hunwrapped, Bool.true_and]

/-- Pushing onto an array. -/
theorem arrays_stay_arrays_iff_push :
    ExtendedJson.byTypeKey.readFields (ExtendedJson.byTypeKey.writeFields
        [("a".toList, .array [("0".toList, .int32 1), ("1".toList, .int32 2)])]) =
      .ok [("a".toList, .array [("0".toList, .int32 1), ("1".toList, .int32 2)])] := by
  have hupdate : applyUpdate [("a".toList, .array [("0".toList, .int32 1)])]
      (singleUpdate "$push".toList "a".toList (.int32 2)) =
        .ok [("a".toList, .array [("0".toList, .int32 1), ("1".toList, .int32 2)])] := by decide
  obtain ⟨-, hrun, hread⟩ := arrays_stay_arrays_iff (by decide) hupdate
  obtain ⟨hsteps, hiff⟩ := hrun (by decide)
  have hfits : Run takeStep (fun mid s => s.fits mid = true)
      [("a".toList, .array [("0".toList, .int32 1)])]
      (updateSteps (singleUpdate "$push".toList "a".toList (.int32 2)))
      [("a".toList, .array [("0".toList, .int32 1), ("1".toList, .int32 2)])] :=
    run_of_runActions (by decide)
  have hindexed := hiff.2 hfits _ _ (List.prefix_refl _) hsteps
  exact (hread _ ExtendedJson.byTypeKey_lawful (by decide) (by decide)).2 hindexed

/-- A member past the end takes its name along, and a removed member leaves a gap. -/
theorem arrays_lose_indices :
    indexedFields [("a".toList, .array [("0".toList, .int32 1), ("1".toList, .int32 2)])] = true ∧
      applyUpdate [("a".toList, .array [("0".toList, .int32 1), ("1".toList, .int32 2)])]
          (singleUpdate "$set".toList "a.5".toList (.int32 9)) =
        .ok [("a".toList, .array [("0".toList, .int32 1), ("1".toList, .int32 2),
          ("5".toList, .int32 9)])] ∧
      indexedFields [("a".toList, .array [("0".toList, .int32 1), ("1".toList, .int32 2),
        ("5".toList, .int32 9)])] = false ∧
      applyUpdate [("a".toList, .array [("0".toList, .int32 1), ("1".toList, .int32 2)])]
          (singleUpdate "$unset".toList "a.0".toList (.int32 1)) =
        .ok [("a".toList, .array [("1".toList, .int32 2)])] ∧
      indexedFields [("a".toList, .array [("1".toList, .int32 2)])] = false := by
  decide

end Chimera

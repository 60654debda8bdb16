import Chimera.Translator.PathAgreement

/-!
# Merge patches

`JSON_REMOVE` of one member and `JSON_MERGE_PATCH` as RFC 7396 has it: a patch that is an object is
merged member by member into an object, a null in it removes the member of its name, and any other
patch replaces what it is applied to.
-/

namespace Chimera

/-! ## Members -/

/-- The members of an object; anything else has none. -/
def Json.members : Json → List (Text × Json)
  | .obj members => members
  | _ => []

/-- The members of other names. -/
def dropMember (members : List (Text × Json)) (name : Text) : List (Text × Json) :=
  members.filter fun field => !decide (field.1 = name)

/-- A member, in place of those of its name. -/
def setMember (members : List (Text × Json)) (name : Text) (value : Json) : List (Text × Json) :=
  if members.any fun field => decide (field.1 = name) then
    members.map fun field => if field.1 = name then (name, value) else field
  else members ++ [(name, value)]

/-- `JSON_REMOVE` of a member of an object. -/
def jsonRemove (json : Json) (name : Text) : Json :=
  match json with
  | .obj members => .obj (dropMember members name)
  | json => json

mutual

/-- `JSON_MERGE_PATCH`, of what is there if anything is. -/
def mergePatch (target : Option Json) : Json → Json
  | .obj patch => .obj (mergeMembers ((target.map Json.members).getD []) patch)
  | patch => patch
termination_by structural patch => patch

/-- A patch that is an object, member by member. -/
def mergeMembers (members : List (Text × Json)) : List (Text × Json) → List (Text × Json)
  | [] => members
  | (name, .null) :: patch => mergeMembers (dropMember members name) patch
  | (name, value) :: patch =>
    mergeMembers (setMember members name (mergePatch (member members name) value)) patch
termination_by structural patch => patch

end

/-! ## What is read afterwards -/

variable {members : List (Text × Json)} {name other : Text} {value : Json}

/-- The first member. -/
@[simp] lemma member_cons (k : Text) (v : Json) (members : List (Text × Json)) (name : Text) :
    member ((k, v) :: members) name = if k = name then some v else member members name := by
  by_cases h : k = name <;> simp [member, h]

/-- No members. -/
@[simp] lemma member_nil (name : Text) : member [] name = none := rfl

/-- A dropped member is not there. -/
lemma member_dropMember (members : List (Text × Json)) (name : Text) :
    member (dropMember members name) name = none := by
  simp [member, dropMember, List.find?_filter]

/-- Dropping a member leaves the others alone. -/
lemma member_dropMember_of_ne (h : other ≠ name) :
    member (dropMember members name) other = member members other := by
  induction members with
  | nil => rfl
  | cons field members ih =>
    obtain ⟨k, v⟩ := field
    by_cases hk : k = name
    · have hdrop : dropMember ((k, v) :: members) name = dropMember members name := by
        simp [dropMember, hk]
      rw [hdrop, ih, member_cons, if_neg fun hother => h (hother.symm.trans hk)]
    · have hdrop : dropMember ((k, v) :: members) name = (k, v) :: dropMember members name := by
        simp [dropMember, hk]
      rw [hdrop, member_cons, member_cons, ih]

/-- A member that was set is read. -/
lemma member_setMember (members : List (Text × Json)) (name : Text) (value : Json) :
    member (setMember members name value) name = some value := by
  unfold setMember
  split
  · next hany =>
    induction members with
    | nil => simp at hany
    | cons field members ih =>
      obtain ⟨k, v⟩ := field
      by_cases hk : k = name
      · simp [hk]
      · simp only [List.any_cons, hk, decide_false, Bool.false_or] at hany
        simpa [hk] using ih hany
  · next hany =>
    induction members with
    | nil => simp
    | cons field members ih =>
      obtain ⟨k, v⟩ := field
      simp only [List.any_cons, Bool.or_eq_true, decide_eq_true_eq, not_or] at hany
      rw [List.cons_append, member_cons, if_neg hany.1]
      exact ih hany.2

/-- Setting a member leaves the others alone. -/
lemma member_setMember_of_ne (h : other ≠ name) :
    member (setMember members name value) other = member members other := by
  unfold setMember
  split
  · clear * - h
    induction members with
    | nil => rfl
    | cons field members ih =>
      obtain ⟨k, v⟩ := field
      by_cases hk : k = name
      · simp [hk, h.symm, ih]
      · simp [hk, ih]
  · clear * - h
    induction members with
    | nil => simp [h.symm]
    | cons field members ih =>
      obtain ⟨k, v⟩ := field
      simp [ih]

/-- A patch of one member that is not null. -/
lemma mergeMembers_single (hvalue : value ≠ .null) (members : List (Text × Json)) :
    mergeMembers members [(name, value)] =
      setMember members name (mergePatch (member members name) value) := by
  cases value with
  | null => exact absurd rfl hvalue
  | _ => rfl

/-- The member of a name, at the root. -/
lemma jsonAt_root (json : Json) (name : Text) : jsonAt json [name] = member json.members name := by
  cases json with
  | obj members =>
    rw [jsonAt_obj, Json.members]
    cases member members name <;> rfl
  | _ => rfl

/-- What is left when a member is removed. -/
lemma members_jsonRemove (json : Json) (name : Text) :
    (jsonRemove json name).members = dropMember json.members name := by
  cases json <;> rfl

/-- A member that is removed and then patched is what the patch says. -/
lemma jsonAt_replaced (json : Json) (name : Text) (value : Json) :
    jsonAt (mergePatch (some (jsonRemove json name)) (.obj [(name, value)])) [name] =
      if value = .null then none else some (mergePatch none value) := by
  rw [jsonAt_root, mergePatch, Json.members, Option.map_some, Option.getD_some, members_jsonRemove]
  by_cases hvalue : value = .null
  · subst hvalue
    rw [if_pos rfl, mergeMembers, mergeMembers, member_dropMember]
  · rw [if_neg hvalue, mergeMembers_single hvalue, member_setMember, member_dropMember]

/-- Removing and patching one member leaves the others alone. -/
lemma jsonAt_replaced_of_ne (json : Json) (value : Json) (h : other ≠ name) :
    jsonAt (mergePatch (some (jsonRemove json name)) (.obj [(name, value)])) [other] =
      jsonAt json [other] := by
  rw [jsonAt_root, mergePatch, Json.members, Option.map_some, Option.getD_some, members_jsonRemove,
    jsonAt_root]
  by_cases hvalue : value = .null
  · subst hvalue
    rw [mergeMembers, mergeMembers, member_dropMember_of_ne h, member_dropMember_of_ne h]
  · rw [mergeMembers_single hvalue, member_setMember_of_ne h, member_dropMember_of_ne h]

end Chimera

import Chimera.Translator.Paths
import Chimera.Translator.Project
import Mathlib.Data.List.Nodup
import Mathlib.Data.List.Pairwise

/-!
# What a projection shows

An inclusion shows the paths that a specification names, and nothing else, and an exclusion all but
those.  `project` tells the two apart by the paths other than `_id`, so that `_id: 1` alone shows
the whole document; and it rebuilds what it includes with documents where the original has arrays.
The contract holds exactly when neither comes to bear.
-/

namespace Chimera

/-- The value is an array. -/
def Value.isArray : Value → Bool
  | .array _ => true
  | _ => false

/-! ## Paths above and below one another -/

section Above

variable {d : Doc} {p q r s t rest : Path} {v x y : Value}

/-- Reading a path is reading the rest of it in what its beginning leads to. -/
lemma pathGet_append (d : Doc) (hp : p ≠ []) (t : Path) :
    pathGet d (p ++ t) = (pathGet d p).bind fun v => v.getUnder t := by
  induction p generalizing d with
  | nil => exact absurd rfl hp
  | cons name p ih =>
    rw [List.cons_append, pathGet_cons, pathGet_cons]
    cases findField d name with
    | none => rfl
    | some x =>
      cases p with
      | nil => rfl
      | cons k p =>
        rw [Option.bind_some, Option.bind_some, List.cons_append, Value.getUnder, Value.getUnder]
        cases x.subdocument with
        | none => rfl
        | some fields => exact ih fields (List.cons_ne_nil k p)

/-- Above a path that is written stands what is written there. -/
lemma pathGet_pathSet_above (d : Doc) (hr : r ≠ []) (rest : Path) (v : Value) :
    pathGet (pathSet d (r ++ rest) v) r = some (setUnder (pathGet d r) rest v) := by
  induction r generalizing d with
  | nil => exact absurd rfl hr
  | cons name r ih =>
    rw [List.cons_append, pathSet_cons, pathGet_cons, pathGet_cons, findField_setField,
      Option.bind_some]
    cases r with
    | nil =>
      cases findField d name <;> rfl
    | cons k r =>
      rw [List.cons_append, getUnder_setUnder_cons, getUnder_eq]
      exact ih _ (List.cons_ne_nil k r)

/-- Above a path that is removed stands what is left there. -/
lemma pathGet_pathUnset_above (d : Doc) (hr : r ≠ []) (rest : Path) :
    pathGet (pathUnset d (r ++ rest)) r = (pathGet d r).bind fun x => x.unsetUnder rest := by
  cases rest with
  | nil =>
    rw [List.append_nil, pathGet_pathUnset d hr]
    exact (Option.bind_eq_none_iff.2 fun _ _ => rfl).symm
  | cons k' rest =>
    induction r generalizing d with
    | nil => exact absurd rfl hr
    | cons name r ih =>
      cases r with
      | nil =>
        rw [List.cons_append, List.nil_append, pathGet_cons, findField_pathUnset, pathGet_cons]
        cases findField d name with
        | none => rfl
        | some x => cases x <;> rfl
      | cons k r =>
        rw [List.cons_append, List.cons_append, pathGet_cons, findField_pathUnset, pathGet_cons]
        cases hx : findField d name with
        | none => rfl
        | some x =>
          rw [Option.bind_some, getUnder_unsetUnder, Option.bind_some, ← List.cons_append,
            ih _ (List.cons_ne_nil k r)]
          exact congrArg (Option.bind · _) (getUnder_eq (some x) k r).symm

/-- A path beside another, below it, or above it. -/
lemma beside_or_prefix (p q : Path) : Beside p q ∨ p <+: q ∨ q <+: p := by
  by_cases h : p <+: q
  · exact .inr (.inl h)
  · by_cases h' : q <+: p
    · exact .inr (.inr h')
    · exact .inl ⟨h, h'⟩

/-- What is left of a value is an array when the value is, and of a scalar it is the scalar. -/
def Trimmed (x y : Value) : Prop := x.isArray = y.isArray ∧ (x.subdocument = none → x = y)

/-- Removing a path trims what is left. -/
lemma exists_trimmed (d : Doc) (p : Path) (hx : pathGet (pathUnset d p) q = some x) :
    ∃ y, pathGet d q = some y ∧ Trimmed x y := by
  cases p with
  | nil => exact ⟨x, hx, rfl, fun _ => rfl⟩
  | cons name p =>
    rcases beside_or_prefix (name :: p) q with hbeside | ⟨t, rfl⟩ | ⟨rest, hrest⟩
    · rw [pathGet_pathUnset_of_beside d hbeside] at hx
      exact ⟨x, hx, rfl, fun _ => rfl⟩
    · rw [pathGet_append _ (List.cons_ne_nil name p),
        pathGet_pathUnset d (List.cons_ne_nil name p)] at hx
      cases hx
    · cases q with
      | nil => cases hx
      | cons k q =>
        rw [← hrest, pathGet_pathUnset_above d (List.cons_ne_nil k q)] at hx
        obtain ⟨y, hy, hx⟩ := Option.bind_eq_some_iff.1 hx
        refine ⟨y, hy, ?_⟩
        cases rest with
        | nil => cases hx
        | cons k' rest =>
          cases y with
          | document _ | array _ =>
            obtain rfl := Option.some.inj hx
            exact ⟨rfl, nofun⟩
          | _ =>
            obtain rfl := Option.some.inj hx
            exact ⟨rfl, fun _ => rfl⟩

/-- Removing paths trims what is left. -/
lemma exists_trimmed_foldl (ps : List Path) (d : Doc)
    (hx : pathGet (ps.foldl pathUnset d) q = some x) :
    ∃ y, pathGet d q = some y ∧ Trimmed x y := by
  induction ps generalizing d with
  | nil => exact ⟨x, hx, rfl, fun _ => rfl⟩
  | cons p ps ih =>
    obtain ⟨y, hy, hkind, hscalar⟩ := ih (pathUnset d p) hx
    obtain ⟨z, hz, hkind', hscalar'⟩ := exists_trimmed d p hy
    refine ⟨z, hz, hkind.trans hkind', fun hnone => ?_⟩
    obtain rfl := hscalar hnone
    exact hscalar' hnone

end Above

/-! ## Names that are not repeated -/

section Unique

variable {d : Doc} {p q : Path} {v : Value}

/-- A document repeats no name when its fields have different names and repeat none themselves. -/
lemma uniqueKeysIn_iff {doc : Doc} : uniqueKeysIn doc = true ↔
    (doc.map Prod.fst).Nodup ∧ ∀ field ∈ doc, field.2.uniqueKeys = true := by
  refine ⟨fun h => ⟨nodup_of_uniqueKeysIn h, fun _ hfield => uniqueKeys_of_mem h hfield⟩, ?_⟩
  induction doc with
  | nil => exact fun _ => rfl
  | cons field doc ih =>
    rintro ⟨hnames, hvalues⟩
    obtain ⟨name, v⟩ := field
    obtain ⟨hname, hnames⟩ := List.nodup_cons.1 hnames
    obtain ⟨hv, hvalues⟩ := List.forall_mem_cons.1 hvalues
    simp only [uniqueKeysIn, Bool.and_eq_true, List.all_eq_true, Bool.not_eq_true',
      decide_eq_false_iff_not]
    refine ⟨⟨fun field hfield heq => hname ?_, hv⟩, ih ⟨hnames, hvalues⟩⟩
    exact List.mem_map.2 ⟨field, hfield, heq⟩

/-- What is read in a document that repeats no name repeats none. -/
lemma uniqueKeys_of_pathGet (hd : uniqueKeysIn d = true) (hv : pathGet d p = some v) :
    v.uniqueKeys = true := by
  induction p generalizing d with
  | nil => cases hv
  | cons name p ih =>
    rw [pathGet_cons] at hv
    obtain ⟨x, hx, hv⟩ := Option.bind_eq_some_iff.1 hv
    have hkeys := uniqueKeys_of_mem hd (mem_of_findField hx)
    cases p with
    | nil => exact Option.some.inj hv ▸ hkeys
    | cons k p =>
      cases x with
      | document fields | array fields => exact ih hkeys hv
      | _ => cases hv

/-- Writing what repeats no name makes a document repeat none. -/
lemma uniqueKeysIn_pathSet (hd : uniqueKeysIn d = true) (hv : v.uniqueKeys = true) :
    uniqueKeysIn (pathSet d p v) = true := by
  induction p generalizing d with
  | nil => exact hd
  | cons name p ih =>
    obtain ⟨hnames, hvalues⟩ := uniqueKeysIn_iff.1 hd
    -- what is written under the name repeats no name
    have hset (existing : Option Value) (h : ∀ x, existing = some x → x.uniqueKeys = true) :
        (setUnder existing p v).uniqueKeys = true := by
      cases p with
      | nil => exact hv
      | cons k p =>
        rcases existing with _ | x
        · exact ih rfl
        · have hx := h x rfl
          cases x with
          | document fields | array fields => exact ih hx
          | _ => exact ih (d := []) rfl
    rw [pathSet_cons, uniqueKeysIn_iff, setField]
    split
    · refine ⟨?_, fun field hfield => ?_⟩
      · rw [List.map_map]
        refine (List.map_congr_left fun field _ => ?_) ▸ hnames
        by_cases hname : field.1 = name <;> simp [hname]
      · obtain ⟨field', hfield', rfl⟩ := List.mem_map.1 hfield
        split
        · exact hset _ fun x hx => Option.some.inj hx ▸ hvalues field' hfield'
        · exact hvalues field' hfield'
    · next hany =>
      refine ⟨?_, fun field hfield => ?_⟩
      · rw [List.map_append, List.nodup_append]
        refine ⟨hnames, by simp, fun k hk k' hk' heq => hany ?_⟩
        obtain ⟨field, hfield, rfl⟩ := List.mem_map.1 hk
        rw [List.mem_singleton.1 hk'] at heq
        exact any_name_iff.2 ⟨field, hfield, heq⟩
      · rcases List.mem_append.1 hfield with hfield | hfield
        · exact hvalues field hfield
        · rw [List.mem_singleton.1 hfield]
          exact hset none fun x h => absurd h.symm (Option.some_ne_none x)

/-- Removing a path makes a document repeat no name. -/
lemma uniqueKeysIn_pathUnset (hd : uniqueKeysIn d = true) (p : Path) :
    uniqueKeysIn (pathUnset d p) = true := by
  induction p generalizing d with
  | nil => exact hd
  | cons name p ih =>
    obtain ⟨hnames, hvalues⟩ := uniqueKeysIn_iff.1 hd
    have hunset (x y : Value) (hx : x.uniqueKeys = true) (hy : x.unsetUnder p = some y) :
        y.uniqueKeys = true := by
      cases p with
      | nil => cases hy
      | cons k p =>
        cases x with
        | document fields | array fields =>
          obtain rfl := Option.some.inj hy
          exact ih hx
        | _ =>
          obtain rfl := Option.some.inj hy
          exact hx
    rw [pathUnset_cons, uniqueKeysIn_iff]
    refine ⟨hnames.sublist ?_, fun field hfield => ?_⟩
    · clear hnames hvalues hd
      induction d with
      | nil => exact List.Sublist.slnil
      | cons field d ih' =>
        obtain ⟨k, x⟩ := field
        by_cases hk : k = name
        · cases hx : x.unsetUnder p with
          | none => simpa [hk, hx] using ih'.cons k
          | some y => simpa [hk, hx] using ih'.cons_cons k
        · simpa [hk] using ih'.cons_cons k
    · obtain ⟨field', hfield', heq⟩ := List.mem_filterMap.1 hfield
      split at heq
      · obtain ⟨y, hy, rfl⟩ := Option.map_eq_some_iff.1 heq
        exact hunset _ y (hvalues field' hfield') hy
      · exact Option.some.inj heq ▸ hvalues field' hfield'

/-- The only field of a name is found. -/
lemma findField_of_mem (hd : uniqueKeysIn d = true) {field : Text × Value} (hfield : field ∈ d) :
    findField d field.1 = some field.2 := by
  cases hx : findField d field.1 with
  | none => exact absurd rfl (findField_eq_none_iff.1 hx field hfield)
  | some x =>
    have heq := List.inj_on_of_nodup_map (nodup_of_uniqueKeysIn hd) (mem_of_findField hx) hfield rfl
    rw [← heq]

/-- Removing what is not there changes nothing. -/
lemma pathUnset_of_none (hd : uniqueKeysIn d = true) (h : pathGet d p = none) :
    pathUnset d p = d := by
  induction p generalizing d with
  | nil => rfl
  | cons name p ih =>
    rw [pathUnset_cons]
    refine (List.filterMap_congr fun field hfield => ?_).trans List.filterMap_some
    split
    · next hname =>
      have hkeys := uniqueKeys_of_mem hd hfield
      rw [pathGet_cons, ← hname, findField_of_mem hd hfield, Option.bind_some] at h
      obtain ⟨k, x⟩ := field
      cases p with
      | nil => cases h
      | cons k' p =>
        cases x with
        | document fields => exact congrArg (fun fs => some (k, Value.document fs)) (ih hkeys h)
        | array fields => exact congrArg (fun fs => some (k, Value.array fs)) (ih hkeys h)
        | _ => rfl
    · rfl

end Unique

/-! ## The specification -/

/-- The paths that a specification keeps, or drops, apart from `_id`. -/
def fieldPaths (keep : Bool) : Doc → List Path
  | [] => []
  | (name, value) :: spec =>
    if name ≠ "_id".toList ∧ (isTruthy value).toOption = some keep then
      (splitPath name).toOption.toList ++ fieldPaths keep spec
    else fieldPaths keep spec

/-- The specification switches `_id` off: the last field `_id`, if there is one, is not truthy. -/
def dropsId (off : Bool) : Doc → Bool
  | [] => off
  | (name, value) :: spec =>
    dropsId (if name = "_id".toList then decide ((isTruthy value).toOption = some false) else off)
      spec

/-- Some field of the specification is truthy. -/
def KeepsSome (spec : Doc) : Prop := ∃ field ∈ spec, isTruthy field.2 = .ok true

/-- What is read of a specification. -/
lemma readProjection_eq_ok {plan plan' : Projection} {spec : Doc}
    (h : readProjection plan spec = .ok plan') :
    plan'.included = plan.included ++ fieldPaths true spec ∧
      plan'.excluded = plan.excluded ++ fieldPaths false spec ∧
      plan'.idExcluded = dropsId plan.idExcluded spec := by
  induction spec generalizing plan with
  | nil =>
    obtain rfl := Except.ok.inj h
    exact ⟨(List.append_nil _).symm, (List.append_nil _).symm, rfl⟩
  | cons field spec ih =>
    obtain ⟨name, value⟩ := field
    obtain ⟨keep, hkeep, h⟩ := except_bind_eq_ok.1 h
    by_cases hname : name = "_id".toList
    · rw [if_pos hname] at h
      obtain ⟨hincluded, hexcluded, hid⟩ := ih h
      refine ⟨?_, ?_, ?_⟩
      · rw [hincluded, fieldPaths, if_neg fun h => h.1 hname]
      · rw [hexcluded, fieldPaths, if_neg fun h => h.1 hname]
      · rw [hid, dropsId, if_pos hname, hkeep]
        cases keep <;> rfl
    · rw [if_neg hname] at h
      obtain ⟨path, hpath, h⟩ := except_bind_eq_ok.1 h
      cases keep with
      | true =>
        obtain ⟨hincluded, hexcluded, hid⟩ := ih h
        refine ⟨?_, ?_, ?_⟩
        · rw [hincluded, fieldPaths, if_pos ⟨hname, by rw [hkeep]; rfl⟩, hpath, List.append_assoc]
          rfl
        · rw [hexcluded, fieldPaths, if_neg fun h => by rw [hkeep] at h; cases h.2]
        · rw [hid, dropsId, if_neg hname]
      | false =>
        obtain ⟨hincluded, hexcluded, hid⟩ := ih h
        refine ⟨?_, ?_, ?_⟩
        · rw [hincluded, fieldPaths, if_neg fun h => by rw [hkeep] at h; cases h.2]
        · rw [hexcluded, fieldPaths, if_pos ⟨hname, by rw [hkeep]; rfl⟩, hpath, List.append_assoc]
          rfl
        · rw [hid, dropsId, if_neg hname]

/-- A specification that includes a path keeps some field. -/
lemma keepsSome_of_fieldPaths {spec : Doc} (h : fieldPaths true spec ≠ []) : KeepsSome spec := by
  induction spec with
  | nil => exact absurd rfl h
  | cons field spec ih =>
    obtain ⟨name, value⟩ := field
    rw [fieldPaths] at h
    split at h
    · next hkeep =>
      refine ⟨(name, value), List.mem_cons_self, ?_⟩
      cases htruthy : isTruthy value with
      | error e =>
        rw [htruthy] at hkeep
        cases hkeep.2
      | ok keep =>
        rw [htruthy] at hkeep
        rw [Option.some.inj hkeep.2]
    · obtain ⟨field, hfield, hkeep⟩ := ih h
      exact ⟨field, List.mem_cons_of_mem _ hfield, hkeep⟩

/-! ## Including paths -/

section Including

variable {d out : Doc} {p q r : Path} {ps qs : List Path} {v x y : Value} {off : Bool}

/-- Include a path: write what is there. -/
def includePath (d out : Doc) (p : Path) : Doc :=
  match pathGet d p with
  | some value => pathSet out p value
  | none => out

/-- What an inclusion starts with: `_id`, unless it is switched off. -/
def includeStart (d : Doc) (off : Bool) : Doc :=
  match off, findField d "_id".toList with
  | false, some id => [("_id".toList, id)]
  | _, _ => []

/-- What is read at the start of an inclusion. -/
lemma pathGet_includeStart (d : Doc) (off : Bool) (p : Path) :
    pathGet (includeStart d off) p =
      if p.head? = some "_id".toList ∧ off = false then pathGet d p else none := by
  unfold includeStart
  cases p with
  | nil => exact (ite_self _).symm
  | cons name p =>
    split
    · next id hid =>
      rw [pathGet_cons, pathGet_cons, findField_cons]
      by_cases hname : name = "_id".toList
      · rw [if_pos hname.symm, if_pos ⟨congrArg some hname, rfl⟩, hname, hid]
      · rw [if_neg (Ne.symm hname), if_neg fun h => hname (Option.some.inj h.1), findField_nil]
        rfl
    · next hno =>
      rw [pathGet_nil]
      split
      · next h =>
        obtain ⟨hname, rfl⟩ := h
        rw [pathGet_cons, Option.some.inj hname]
        cases hid : findField d "_id".toList with
        | none => rfl
        | some id => exact absurd hid (hno id rfl)
      · rfl

/-- Including a path leaves the paths beside alone. -/
lemma pathGet_includePath_of_beside (h : Beside p q) :
    pathGet (includePath d out p) q = pathGet out q := by
  unfold includePath
  split
  · exact pathGet_pathSet_of_beside out h _
  · rfl

/-- Including paths leaves the paths beside them all alone. -/
lemma pathGet_foldl_of_beside (h : ∀ p ∈ ps, Beside p q) (out : Doc) :
    pathGet (ps.foldl (includePath d) out) q = pathGet out q := by
  induction ps generalizing out with
  | nil => rfl
  | cons p ps ih =>
    obtain ⟨hp, hps⟩ := List.forall_mem_cons.1 h
    exact (ih hps _).trans (pathGet_includePath_of_beside hp)

/-- What is included is read as it was. -/
lemma pathGet_included (hps : ps.Pairwise Beside) (hp : p ∈ ps) (off : Bool) :
    pathGet (ps.foldl (includePath d) (includeStart d off)) p = pathGet d p := by
  have hfold (out : Doc) (hout : pathGet d p = none → pathGet out p = none) :
      pathGet (ps.foldl (includePath d) out) p = pathGet d p := by
    induction ps generalizing out with
    | nil => cases hp
    | cons q ps ih =>
      obtain ⟨hbeside, hps⟩ := List.pairwise_cons.1 hps
      by_cases hpq : p = q
      · obtain rfl := hpq
        have hsymm : ∀ r ∈ ps, Beside r p := fun r hr => ⟨(hbeside r hr).2, (hbeside r hr).1⟩
        refine (pathGet_foldl_of_beside hsymm _).trans ?_
        unfold includePath
        cases hv : pathGet d p with
        | none => exact hout hv
        | some v =>
          refine pathGet_pathSet out ?_ v
          rintro rfl
          cases hv
      · have hmem := (List.mem_cons.1 hp).resolve_left hpq
        refine ih hps hmem _ fun hnone => ?_
        rw [pathGet_includePath_of_beside (hbeside p hmem)]
        exact hout hnone
  refine hfold _ fun hnone => ?_
  rw [pathGet_includeStart, hnone, ite_self]

/-- What a document built of included paths holds above them are documents. -/
def OnlyDocumentsAbove (out : Doc) (qs : List Path) : Prop :=
  ∀ r y, pathGet out r = some y → r.head? = some "_id".toList ∨ (∃ q ∈ qs, q <+: r) ∨
    ∃ fields, y = .document fields

/-- Including one more path leaves only documents above. -/
lemma OnlyDocumentsAbove.includePath (h : OnlyDocumentsAbove out qs) (d : Doc)
    (hp : ∀ q ∈ qs, Beside q p) : OnlyDocumentsAbove (Chimera.includePath d out p) (qs ++ [p]) := by
  have hmono (q r : Path) : (∃ q ∈ qs, q <+: r) → ∃ q ∈ qs ++ [p], q <+: r :=
    fun ⟨q, hq, hqr⟩ => ⟨q, List.mem_append_left _ hq, hqr⟩
  intro r y hy
  unfold Chimera.includePath at hy
  split at hy
  · next v hv =>
    rcases beside_or_prefix p r with hbeside | hpr | ⟨rest, rfl⟩
    · rw [pathGet_pathSet_of_beside out hbeside] at hy
      exact (h r y hy).imp_right (Or.imp_left (hmono r r))
    · exact .inr (.inl ⟨p, List.mem_append_right _ (List.mem_singleton_self p), hpr⟩)
    · by_cases hr : r = []
      · obtain rfl := hr
        cases hy
      rw [pathGet_pathSet_above out hr] at hy
      obtain rfl := Option.some.inj hy
      cases rest with
      | nil =>
        refine .inr (.inl ⟨r ++ [], List.mem_append_right _ (List.mem_singleton_self _), ?_⟩)
        rw [List.append_nil]
      | cons k rest =>
        cases hexisting : pathGet out r with
        | none => exact .inr (.inr ⟨_, rfl⟩)
        | some x =>
          cases x with
          | array fields =>
            -- an array is at or below a path that was included before, which this one is not
            rcases h r _ hexisting with hid | ⟨q, hq, hqr⟩ | ⟨fields', hfields⟩
            · exact .inl hid
            · exact absurd (hqr.trans (List.prefix_append r (k :: rest))) (hp q hq).1
            · cases hfields
          | _ => exact .inr (.inr ⟨_, rfl⟩)
  · exact (h r y hy).imp_right (Or.imp_left (hmono r r))

/-- Above the paths of an inclusion there are only documents. -/
lemma onlyDocumentsAbove_foldl (hps : ps.Pairwise Beside) (d : Doc) (off : Bool) :
    OnlyDocumentsAbove (ps.foldl (Chimera.includePath d) (includeStart d off)) ps := by
  have hfold (qs : List Path) (out : Doc) (hall : (qs ++ ps).Pairwise Beside)
      (h : OnlyDocumentsAbove out qs) :
      OnlyDocumentsAbove (ps.foldl (Chimera.includePath d) out) (qs ++ ps) := by
    induction ps generalizing qs out with
    | nil => simpa using h
    | cons p ps ih =>
      have hp : ∀ q ∈ qs, Beside q p := fun q hq =>
        (List.pairwise_append.1 hall).2.2 q hq p List.mem_cons_self
      have hsplit : qs ++ p :: ps = (qs ++ [p]) ++ ps := by simp
      rw [hsplit] at hall ⊢
      exact ih (List.pairwise_cons.1 hps).2 _ _ hall (h.includePath d hp)
  refine hfold [] _ hps fun r y hy => .inl ?_
  rw [pathGet_includeStart] at hy
  split at hy
  · next h => exact h.1
  · cases hy

/-- Including paths adds only their first names. -/
lemma name_of_mem_foldl {field : Text × Value}
    (h : field ∈ ps.foldl (Chimera.includePath d) out) :
    (∃ f ∈ out, f.1 = field.1) ∨ ∃ p ∈ ps, p.head? = some field.1 := by
  induction ps generalizing out with
  | nil => exact .inl ⟨field, h, rfl⟩
  | cons p ps ih =>
    rcases ih h with ⟨f, hf, hname⟩ | ⟨q, hq, hname⟩
    · unfold Chimera.includePath at hf
      split at hf
      · next v hv =>
        cases p with
        | nil => exact .inl ⟨f, hf, hname⟩
        | cons k p =>
          rw [pathSet_cons, setField] at hf
          split at hf
          · obtain ⟨f', hf', rfl⟩ := List.mem_map.1 hf
            refine .inl ⟨f', hf', ?_⟩
            rw [← hname]
            split <;> rfl
          · rcases List.mem_append.1 hf with hf | hf
            · exact .inl ⟨f, hf, hname⟩
            · rw [List.mem_singleton.1 hf] at hname
              exact .inr ⟨k :: p, List.mem_cons_self, congrArg some hname⟩
      · exact .inl ⟨f, hf, hname⟩
    · exact .inr ⟨q, List.mem_cons_of_mem p hq, hname⟩

/-- The names of an inclusion are `_id` and the first names of the paths. -/
lemma named_foldl {field : Text × Value}
    (h : field ∈ ps.foldl (Chimera.includePath d) (includeStart d off)) :
    field.1 = "_id".toList ∨ ∃ p ∈ ps, p.head? = some field.1 := by
  refine (name_of_mem_foldl h).imp_left fun ⟨f, hf, hname⟩ => ?_
  unfold includeStart at hf
  split at hf
  · rw [List.mem_singleton.1 hf] at hname
    exact hname.symm
  · cases hf

/-- An inclusion repeats no name. -/
lemma uniqueKeysIn_foldl (hd : uniqueKeysIn d = true) (hout : uniqueKeysIn out = true) :
    uniqueKeysIn (ps.foldl (Chimera.includePath d) out) = true := by
  induction ps generalizing out with
  | nil => exact hout
  | cons p ps ih =>
    refine ih ?_
    unfold Chimera.includePath
    split
    · next v hv => exact uniqueKeysIn_pathSet hout (uniqueKeys_of_pathGet hd hv)
    · exact hout

/-- What an inclusion starts with repeats no name. -/
lemma uniqueKeysIn_includeStart (hd : uniqueKeysIn d = true) :
    uniqueKeysIn (includeStart d off) = true := by
  unfold includeStart
  split
  · next id hid =>
    refine uniqueKeysIn_iff.2 ⟨List.nodup_singleton _, fun field hfield => ?_⟩
    rw [List.mem_singleton.1 hfield]
    exact uniqueKeys_of_mem hd (mem_of_findField hid)
  · rfl

/-- Paths that begin with `_id` are read in `_id`. -/
lemma pathGet_of_findField {name : Text} (h : findField out name = findField d name)
    (hp : p.head? = some name) : pathGet out p = pathGet d p := by
  cases p with
  | nil => cases hp
  | cons k p =>
    obtain rfl := Option.some.inj hp
    rw [pathGet_cons, pathGet_cons, h]

/-- An inclusion that keeps `_id` keeps it as it was. -/
lemma findField_id_kept (hd : uniqueKeysIn d = true) :
    findField (ps.foldl (Chimera.includePath d) (includeStart d false)) "_id".toList =
      findField d "_id".toList := by
  have hfold (out : Doc) (hunique : uniqueKeysIn out = true)
      (hid : findField out "_id".toList = findField d "_id".toList) :
      findField (ps.foldl (Chimera.includePath d) out) "_id".toList =
        findField d "_id".toList := by
    induction ps generalizing out with
    | nil => exact hid
    | cons p ps ih =>
      have hstep : Chimera.includePath d out p = out ∨ p.head? ≠ some "_id".toList := by
        by_cases hhead : p.head? = some "_id".toList
        · refine .inl ?_
          unfold Chimera.includePath
          split
          · next v hv => exact pathSet_self hunique ((pathGet_of_findField hid hhead).trans hv)
          · rfl
        · exact .inr hhead
      rw [List.foldl_cons]
      rcases hstep with hsame | hhead
      · rw [hsame]
        exact ih out hunique hid
      · have hunique' : uniqueKeysIn ([p].foldl (Chimera.includePath d) out) = true :=
          uniqueKeysIn_foldl hd hunique
        refine ih _ hunique' ?_
        rw [← hid]
        unfold Chimera.includePath
        split
        · cases p with
          | nil => rfl
          | cons k p =>
            rw [pathSet_cons]
            exact findField_setField_of_ne fun heq => hhead (congrArg some heq.symm)
        · rfl
  refine hfold _ (uniqueKeysIn_includeStart hd) ?_
  have hstart := pathGet_includeStart d false ["_id".toList]
  rw [if_pos ⟨rfl, rfl⟩] at hstart
  exact hstart

/-- An inclusion that does not keep `_id` has none, unless it includes a path below it. -/
lemma findField_id_dropped
    (h : ∀ p ∈ ps, p.head? = some "_id".toList → pathGet d p = none) :
    findField (ps.foldl (Chimera.includePath d) (includeStart d true)) "_id".toList = none := by
  have hfold (out : Doc) (hid : findField out "_id".toList = none) :
      findField (ps.foldl (Chimera.includePath d) out) "_id".toList = none := by
    induction ps generalizing out with
    | nil => exact hid
    | cons p ps ih =>
      obtain ⟨hp, hps⟩ := List.forall_mem_cons.1 h
      refine ih hps _ ?_
      unfold Chimera.includePath
      split
      · next v hv =>
        cases p with
        | nil => exact hid
        | cons k p =>
          rw [pathSet_cons, findField_setField_of_ne, hid]
          intro heq
          rw [hp (congrArg some heq.symm)] at hv
          cases hv
      · exact hid
  exact hfold _ rfl

end Including

/-! ## The contract -/

/-- The value has a scalar in it, or is one. -/
def Value.HasLeaf (v : Value) : Prop := ∃ t x, v.getUnder t = some x ∧ x.subdocument = none

/-- The output shows the included paths and nothing else. -/
structure Inclusion (d out : Doc) (included : List Path) (off : Bool) : Prop where
  /-- Every included path is read as it was. -/
  agrees : ∀ p ∈ included, pathGet out p = pathGet d p
  /-- Every field is `_id` or the first name of an included path. -/
  named : ∀ field ∈ out, field.1 = "_id".toList ∨ ∃ p ∈ included, p.head? = some field.1
  /-- Every scalar of the output is one of the document, in documents and arrays as there. -/
  leaves : ∀ p x, pathGet out p = some x → x.subdocument = none → pathGet d p = some x ∧
    ∀ s y, s <+: p → pathGet out s = some y → ∃ z, pathGet d s = some z ∧ y.isArray = z.isArray
  /-- No name is repeated. -/
  unique : uniqueKeysIn out = true
  /-- `_id` is as it was, unless it is switched off. -/
  id : findField out "_id".toList = if off then none else findField d "_id".toList

/-- The output shows everything but the excluded paths. -/
structure Exclusion (d out : Doc) (excluded : List Path) : Prop where
  /-- The excluded paths are gone. -/
  gone : ∀ p ∈ excluded, pathGet out p = none
  /-- What is neither above nor at nor below an excluded path is as it was. -/
  kept : ∀ q, (∀ p ∈ excluded, Beside p q) → pathGet out q = pathGet d q

/-- The excluded paths, `_id` among them when it is switched off. -/
def excludedPaths (spec : Doc) : List Path :=
  fieldPaths false spec ++ if dropsId false spec then [["_id".toList]] else []

/-- The contract of a projection: an inclusion where some field of the specification is truthy, and
an exclusion otherwise. -/
def Contract (d spec out : Doc) : Prop :=
  (KeepsSome spec → Inclusion d out (fieldPaths true spec) (dropsId false spec)) ∧
    (¬ KeepsSome spec → Exclusion d out (excludedPaths spec))

/-- The specification includes paths, and writing them shows what is there: no scalar is reached
through an array, other than one below an `_id` that is kept, and nothing is below an `_id` that is
switched off. -/
structure Showable (d : Doc) (included : List Path) (off : Bool) : Prop where
  /-- Arrays are above no scalar that is included. -/
  arrays : ∀ p ∈ included, ∀ v, pathGet d p = some v → v.HasLeaf →
    (p.head? = some "_id".toList ∧ off = false) ∨
      ∀ s y, s <+: p → s ≠ p → pathGet d s = some y → y.isArray = false
  /-- Nothing is included below an `_id` that is switched off. -/
  below : off = true → ∀ p ∈ included, p.head? = some "_id".toList → pathGet d p = none

/-- Everything but `_id` is excluded, and nothing of an `_id` that is kept. -/
structure OnlyId (d : Doc) (excluded : List Path) (off : Bool) : Prop where
  /-- Every other field is excluded. -/
  others : ∀ field ∈ d, field.1 ≠ "_id".toList → [field.1] ∈ excluded
  /-- Nothing is excluded below an `_id` that is kept. -/
  whole : off = false → ∀ p ∈ excluded, p.head? = some "_id".toList → pathGet d p = none

section Contract

variable {d spec out : Doc} {ps : List Path} {off : Bool}

/-- What is read at a path is read in what its beginning leads to. -/
lemma exists_of_prefix {p q : Path} {x : Value} (h : pathGet d q = some x) (hp : p ≠ [])
    (hpq : p <+: q) : ∃ v t, q = p ++ t ∧ pathGet d p = some v ∧ v.getUnder t = some x := by
  obtain ⟨t, rfl⟩ := hpq
  rw [pathGet_append d hp] at h
  obtain ⟨v, hv, hx⟩ := Option.bind_eq_some_iff.1 h
  exact ⟨v, t, rfl, hv, hx⟩

/-- Two included paths of which one is above the other are one. -/
lemma eq_of_prefix {p q : Path} (hps : ps.Pairwise Beside) (hp : p ∈ ps) (hq : q ∈ ps)
    (h : p <+: q) : p = q := by
  by_contra hne
  have hsymm : Std.Symm Beside := ⟨fun _ _ hbeside => ⟨hbeside.2, hbeside.1⟩⟩
  exact (hps.forall hp hq hne).1 h

/-- Above an included path, other than one below `_id`, there is a document. -/
lemma document_above {p s : Path} {y : Value} (hps : ps.Pairwise Beside) (hp : p ∈ ps)
    (hid : p.head? ≠ some "_id".toList) (hs : s <+: p) (hne : s ≠ p)
    (hy : pathGet (ps.foldl (includePath d) (includeStart d off)) s = some y) :
    ∃ fields, y = .document fields := by
  rcases onlyDocumentsAbove_foldl hps d off s y hy with h | ⟨q, hq, hqs⟩ | h
  · obtain ⟨t, rfl⟩ := hs
    cases s with
    | nil => cases hy
    | cons k s => exact absurd h hid
  · obtain rfl := eq_of_prefix hps hq hp (hqs.trans hs)
    exact absurd (hs.eq_of_length_le hqs.length_le) hne
  · exact h

/-- Where the paths can be shown, including them shows scalars as they are. -/
lemma leaves_of_showable (hps : ps.Pairwise Beside) (hne : ∀ p ∈ ps, p ≠ [])
    (hd : uniqueKeysIn d = true)
    (h : Showable d ps off) {r : Path} {x : Value}
    (hx : pathGet (ps.foldl (includePath d) (includeStart d off)) r = some x)
    (hleaf : x.subdocument = none) : pathGet d r = some x ∧
      ∀ s y, s <+: r → pathGet (ps.foldl (includePath d) (includeStart d off)) s = some y →
        ∃ z, pathGet d s = some z ∧ y.isArray = z.isArray := by
  have habove := onlyDocumentsAbove_foldl hps d off
  by_cases hid : r.head? = some "_id".toList
  -- below `_id` everything is as it was, or nothing is there
  · cases off with
    | true =>
      have hnone := findField_id_dropped (h.below rfl)
      cases r with
      | nil => cases hx
      | cons k r =>
        rw [pathGet_cons, Option.some.inj hid, hnone] at hx
        cases hx
    | false =>
      have hsame : findField (ps.foldl (Chimera.includePath d) (includeStart d false))
          "_id".toList = findField d "_id".toList := findField_id_kept hd
      refine ⟨(pathGet_of_findField hsame hid).symm.trans hx, fun s y hs hy => ⟨y, ?_, rfl⟩⟩
      cases s with
      | nil => cases hy
      | cons k s =>
        cases r with
        | nil => cases hx
        | cons k' r =>
          obtain ⟨rfl, -⟩ := List.cons_prefix_cons.1 hs
          exact (pathGet_of_findField (p := k :: s) hsame hid).symm.trans hy
  -- elsewhere a scalar is at or below an included path
  · obtain ⟨q, hq, hqr⟩ : ∃ q ∈ ps, q <+: r := by
      rcases habove r x hx with h | h | ⟨fields, rfl⟩
      · exact absurd h hid
      · exact h
      · cases hleaf
    have hq₀ := hne q hq
    obtain ⟨v, t, rfl, hv, hvx⟩ := exists_of_prefix hx hq₀ hqr
    rw [pathGet_included hps hq] at hv
    have hdx : pathGet d (q ++ t) = some x := by
      rw [pathGet_append d hq₀, hv]
      exact hvx
    refine ⟨hdx, fun s y hs hy => ?_⟩
    rcases List.prefix_or_prefix_of_prefix hs hqr with hsq | hqs
    · by_cases heq : s = q
      · obtain rfl := heq
        exact ⟨y, (pathGet_included hps hq off).symm.trans hy, rfl⟩
      · have hs₀ : s ≠ [] := by
          rintro rfl
          cases hy
        have hqid : q.head? ≠ some "_id".toList := by
          cases q with
          | nil => exact absurd rfl hq₀
          | cons k q => exact hid
        obtain ⟨fields, rfl⟩ := document_above hps hq hqid hsq heq hy
        obtain ⟨z, -, -, hz, -⟩ := exists_of_prefix hdx hs₀ hs
        have hkind := (h.arrays q hq v hv ⟨t, x, hvx, hleaf⟩).resolve_left fun h => hqid h.1
        exact ⟨z, hz, (hkind s z hsq heq hz).symm⟩
    · obtain ⟨w, t', rfl, hw, hy⟩ := exists_of_prefix hy hq₀ hqs
      rw [pathGet_included hps hq] at hw
      refine ⟨y, ?_, rfl⟩
      rw [pathGet_append d hq₀, hw]
      exact hy

/-- Including paths is an inclusion exactly when they can be shown. -/
lemma inclusion_iff_showable (hps : ps.Pairwise Beside) (hne : ∀ p ∈ ps, p ≠ [])
    (hd : uniqueKeysIn d = true) :
    Inclusion d (ps.foldl (includePath d) (includeStart d off)) ps off ↔ Showable d ps off := by
  constructor
  · intro h
    have hbelow : off = true → ∀ p ∈ ps, p.head? = some "_id".toList → pathGet d p = none := by
      intro hoff p hp hid
      have hnone := h.id
      rw [if_pos hoff] at hnone
      rw [← h.agrees p hp]
      cases p with
      | nil => rfl
      | cons k p => rw [pathGet_cons, Option.some.inj hid, hnone, Option.bind_none]
    refine ⟨fun p hp v hv ⟨t, x, hvx, hleaf⟩ => ?_, hbelow⟩
    by_cases hid : p.head? = some "_id".toList
    · refine .inl ⟨hid, ?_⟩
      rw [← Bool.not_eq_true]
      intro hoff
      rw [hbelow hoff p hp hid] at hv
      cases hv
    · refine .inr fun s z hs hsp hz => ?_
      have hs₀ : s ≠ [] := by
        rintro rfl
        cases hz
      have hout : pathGet (ps.foldl (includePath d) (includeStart d off)) (p ++ t) = some x := by
        rw [pathGet_append _ (hne p hp), pathGet_included hps hp, hv]
        exact hvx
      have hst := hs.trans (List.prefix_append p t)
      obtain ⟨y, -, -, hy, -⟩ := exists_of_prefix hout hs₀ hst
      obtain ⟨z', hz', hkind⟩ := (h.leaves _ x hout hleaf).2 s y hst hy
      obtain ⟨fields, rfl⟩ := document_above hps hp hid hs hsp hy
      obtain rfl := Option.some.inj (hz.symm.trans hz')
      exact hkind.symm
  · intro h
    refine ⟨fun p hp => pathGet_included hps hp off, fun field hfield => named_foldl hfield,
      fun r x hx hleaf => leaves_of_showable hps hne hd h hx hleaf,
      uniqueKeysIn_foldl hd (uniqueKeysIn_includeStart hd), ?_⟩
    cases off with
    | true => exact findField_id_dropped (h.below rfl)
    | false => exact findField_id_kept hd

/-- Removing paths is an exclusion of them. -/
lemma exclusion_foldl (hne : ∀ p ∈ ps, p ≠ []) (d : Doc) :
    Exclusion d (ps.foldl pathUnset d) ps := by
  constructor
  · intro p hp
    induction ps generalizing d with
    | nil => cases hp
    | cons q ps ih =>
      rcases List.mem_cons.1 hp with rfl | hmem
      · cases hx : pathGet (ps.foldl pathUnset (pathUnset d p)) p with
        | none => exact hx
        | some x =>
          obtain ⟨y, hy, -⟩ := exists_trimmed_foldl ps _ hx
          rw [pathGet_pathUnset d (hne p List.mem_cons_self)] at hy
          cases hy
      · exact ih (fun p hp => hne p (List.mem_cons_of_mem q hp)) _ hmem
  · intro q hq
    induction ps generalizing d with
    | nil => rfl
    | cons p ps ih =>
      obtain ⟨hp, hps⟩ := List.forall_mem_cons.1 hq
      exact (ih (fun p hp => hne p (List.mem_cons_of_mem _ hp)) _ hps).trans
        (pathGet_pathUnset_of_beside d hp)

/-- Removing paths leaves the fields that are not among them. -/
lemma isSome_findField_foldl {name : Text} (hname : [name] ∉ ps)
    (h : (findField d name).isSome = true) :
    (findField (ps.foldl pathUnset d) name).isSome = true := by
  induction ps generalizing d with
  | nil => exact h
  | cons p ps ih =>
    rw [List.mem_cons, not_or] at hname
    refine ih hname.2 ?_
    by_cases hhead : p.head? = some name
    · rcases p with _ | ⟨k, _ | ⟨k', rest⟩⟩
      · exact h
      · exact absurd (congrArg (fun n => [n]) (Option.some.inj hhead).symm) hname.1
      · rw [Option.some.inj hhead, findField_pathUnset]
        obtain ⟨x, hx⟩ := Option.isSome_iff_exists.1 h
        rw [hx]
        cases x <;> rfl
    · rw [findField_pathUnset_of_ne hhead]
      exact h

/-- Removing paths that are not there below `_id` leaves it as it was. -/
lemma findField_id_foldl (hd : uniqueKeysIn d = true)
    (h : ∀ p ∈ ps, p.head? = some "_id".toList → pathGet d p = none) :
    findField (ps.foldl pathUnset d) "_id".toList = findField d "_id".toList := by
  have hfold (out : Doc) (hunique : uniqueKeysIn out = true)
      (hid : findField out "_id".toList = findField d "_id".toList) :
      findField (ps.foldl pathUnset out) "_id".toList = findField d "_id".toList := by
    induction ps generalizing out with
    | nil => exact hid
    | cons p ps ih =>
      obtain ⟨hp, hps⟩ := List.forall_mem_cons.1 h
      refine ih hps _ (uniqueKeysIn_pathUnset hunique p) ?_
      by_cases hhead : p.head? = some "_id".toList
      · rw [pathUnset_of_none hunique ((pathGet_of_findField hid hhead).trans (hp hhead)), hid]
      · rw [findField_pathUnset_of_ne hhead, hid]
  exact hfold d hd rfl

/-- Removing paths makes a document repeat no name. -/
lemma uniqueKeysIn_foldl_pathUnset (hd : uniqueKeysIn d = true) (ps : List Path) :
    uniqueKeysIn (ps.foldl pathUnset d) = true := by
  induction ps generalizing d with
  | nil => exact hd
  | cons p ps ih => exact ih (uniqueKeysIn_pathUnset hd p)

/-- Removing paths includes `_id` only exactly when every other field is removed, and nothing of an
`_id` that is kept. -/
lemma inclusion_iff_onlyId (hne : ∀ p ∈ ps, p ≠ []) (hd : uniqueKeysIn d = true) :
    Inclusion d ((ps ++ if off then [["_id".toList]] else []).foldl pathUnset d) [] off ↔
      OnlyId d ps off := by
  have hne' : ∀ p ∈ ps ++ if off then [["_id".toList]] else [], p ≠ [] := by
    intro p hp
    rcases List.mem_append.1 hp with hp | hp
    · exact hne p hp
    · split at hp
      · rw [List.mem_singleton.1 hp]
        exact List.cons_ne_nil _ _
      · cases hp
  have hexclusion := exclusion_foldl hne' d
  have hunique := uniqueKeysIn_foldl_pathUnset hd (ps ++ if off then [["_id".toList]] else [])
  constructor
  · intro h
    refine ⟨fun field hfield hid => ?_, fun hoff p hp hhead => ?_⟩
    · by_contra hnot
      have hmem : [field.1] ∉ ps ++ if off then [["_id".toList]] else [] := by
        rw [List.mem_append, not_or]
        refine ⟨hnot, ?_⟩
        split
        · exact fun hmem => hid (List.cons.inj (List.mem_singleton.1 hmem)).1
        · exact List.not_mem_nil
      obtain ⟨x, hx⟩ := Option.isSome_iff_exists.1
        (isSome_findField_foldl hmem (by rw [findField_of_mem hd hfield]; rfl))
      rcases h.named _ (mem_of_findField hx) with hname | ⟨p, hp, -⟩
      · exact hid hname
      · cases hp
    · have hid := h.id.trans (if_neg (by simp [hoff]))
      rw [← pathGet_of_findField hid hhead]
      exact hexclusion.gone p (List.mem_append_left _ hp)
  · intro h
    refine ⟨nofun, fun field hfield => ?_, fun p x hx hleaf => ?_, hunique, ?_⟩
    · by_contra hnot
      have hid : field.1 ≠ "_id".toList := fun hname => hnot (.inl hname)
      have hx : pathGet _ [field.1] = some field.2 := findField_of_mem hunique hfield
      obtain ⟨y, hy, -⟩ := exists_trimmed_foldl _ _ hx
      have hmem := h.others _ (mem_of_findField hy) hid
      rw [hexclusion.gone _ (List.mem_append_left _ hmem)] at hx
      cases hx
    · obtain ⟨y, hy, -, hscalar⟩ := exists_trimmed_foldl _ _ hx
      refine ⟨hscalar hleaf ▸ hy, fun s w _ hw => ?_⟩
      obtain ⟨z, hz, hkind, -⟩ := exists_trimmed_foldl _ _ hw
      exact ⟨z, hz, hkind⟩
    · cases off with
      | true => exact hexclusion.gone ["_id".toList] (List.mem_append_right _ List.mem_cons_self)
      | false =>
        rw [if_neg Bool.false_ne_true, if_neg Bool.false_ne_true, List.append_nil]
        exact findField_id_foldl hd (h.whole rfl)

/-- The paths of a specification are not empty. -/
lemma fieldPaths_ne_nil {keep : Bool} : ∀ p ∈ fieldPaths keep spec, p ≠ [] := by
  intro p hp
  induction spec with
  | nil => cases hp
  | cons field spec ih =>
    obtain ⟨name, value⟩ := field
    rw [fieldPaths] at hp
    split at hp
    · rcases List.mem_append.1 hp with hp | hp
      · cases hpath : splitPath name with
        | error e =>
          rw [hpath] at hp
          cases hp
        | ok path =>
          rw [hpath] at hp
          rw [List.mem_singleton.1 hp, splitPath_eq_ok hpath]
          exact splitDots_ne_nil name
      · exact ih hp
    · exact ih hp

/-- What `project` computes. -/
lemma project_eq_ok (h : project d spec = .ok out) :
    out = if fieldPaths true spec = [] then (excludedPaths spec).foldl pathUnset d
      else (fieldPaths true spec).foldl (includePath d) (includeStart d (dropsId false spec)) := by
  unfold project at h
  split at h
  · next hempty =>
    rw [List.isEmpty_iff.1 hempty]
    exact (Except.ok.inj h).symm
  · obtain ⟨plan, hplan, h⟩ := except_bind_eq_ok.1 h
    obtain ⟨hincluded, hexcluded, hid⟩ := readProjection_eq_ok hplan
    rw [List.nil_append] at hincluded hexcluded
    rw [hincluded, hexcluded, hid] at h
    dsimp only at h
    by_cases hmixed : (!(fieldPaths true spec).isEmpty && !(fieldPaths false spec).isEmpty) = true
    · rw [if_pos hmixed] at h
      cases h
    rw [if_neg hmixed] at h
    by_cases hempty : fieldPaths true spec = []
    · rw [if_pos (List.isEmpty_iff.2 hempty)] at h
      rw [if_pos hempty, excludedPaths, List.foldl_append, ← Except.ok.inj h]
      cases dropsId false spec <;> rfl
    · rw [if_neg fun h => hempty (List.isEmpty_iff.1 h)] at h
      rw [if_neg hempty]
      exact (Except.ok.inj h).symm

/-- **The projection contract.**  For a document that repeats no name and a specification whose
paths are beside one another, the output keeps the contract exactly when the paths that are included
can be shown, and, where only `_id` is truthy, every other field is excluded. -/
theorem projection_contract_iff (hd : uniqueKeysIn d = true)
    (hbeside : (fieldPaths true spec ++ fieldPaths false spec).Pairwise Beside)
    (hout : project d spec = .ok out) :
    Contract d spec out ↔
      (fieldPaths true spec ≠ [] → Showable d (fieldPaths true spec) (dropsId false spec)) ∧
      (fieldPaths true spec = [] → KeepsSome spec →
        OnlyId d (fieldPaths false spec) (dropsId false spec)) := by
  obtain ⟨hincluded, hexcluded, -⟩ := List.pairwise_append.1 hbeside
  rw [Contract, project_eq_ok hout]
  by_cases hempty : fieldPaths true spec = []
  · rw [if_pos hempty, hempty, excludedPaths, inclusion_iff_onlyId fieldPaths_ne_nil hd]
    refine ⟨fun h => ⟨fun hne => absurd rfl hne, fun _ => h.1⟩, fun h => ⟨h.2 rfl, fun _ => ?_⟩⟩
    refine exclusion_foldl (fun p hp => ?_) d
    rcases List.mem_append.1 hp with hp | hp
    · exact fieldPaths_ne_nil p hp
    · split at hp
      · rw [List.mem_singleton.1 hp]
        exact List.cons_ne_nil _ _
      · cases hp
  · rw [if_neg hempty, inclusion_iff_showable hincluded fieldPaths_ne_nil hd]
    have hkeeps := keepsSome_of_fieldPaths hempty
    exact ⟨fun h => ⟨fun _ => h.1 hkeeps, fun h => absurd h hempty⟩,
      fun h => ⟨fun _ => h.1 hempty, absurd hkeeps⟩⟩

end Contract

/-- A field that is included, with `_id`. -/
theorem projection_contract_iff_name :
    Contract [("_id".toList, .utf8 "u".toList), ("name".toList, .utf8 "Doug".toList),
        ("age".toList, .int32 30)] [("name".toList, .int32 1)]
      [("_id".toList, .utf8 "u".toList), ("name".toList, .utf8 "Doug".toList)] := by
  have hpaths : fieldPaths true [("name".toList, .int32 1)] = [["name".toList]] := by decide
  refine (projection_contract_iff (by decide) (by decide) (by decide)).2 ⟨fun _ => ?_, ?_⟩
  · rw [hpaths]
    refine ⟨fun p hp v _ _ => .inr fun s y hs hne hy => ?_, fun hoff => absurd hoff (by decide)⟩
    rw [List.mem_singleton.1 hp] at hs hne
    cases s with
    | nil => cases hy
    | cons k s =>
      obtain ⟨rfl, hnil⟩ := List.cons_prefix_cons.1 hs
      exact absurd (congrArg (List.cons _) (List.prefix_nil.1 hnil)) hne
  · rw [hpaths]
    exact nofun

/-- `_id: 1` alone shows the whole document, and an element of an array is shown in a document. -/
theorem projection_shows_more :
    project [("_id".toList, .int32 7), ("secret".toList, .int32 1)] [("_id".toList, .int32 1)] =
        .ok [("_id".toList, .int32 7), ("secret".toList, .int32 1)] ∧
      ¬ Contract [("_id".toList, .int32 7), ("secret".toList, .int32 1)] [("_id".toList, .int32 1)]
        [("_id".toList, .int32 7), ("secret".toList, .int32 1)] ∧
      project [("t".toList, .array [("0".toList, .int32 5)])] [("t.0".toList, .int32 1)] =
        .ok [("t".toList, .document [("0".toList, .int32 5)])] := by
  refine ⟨by decide, fun h => ?_, by decide⟩
  have hinclusion := h.1 ⟨_, List.mem_singleton_self _, rfl⟩
  have hnamed := hinclusion.named ("secret".toList, .int32 1) (by simp)
  rcases hnamed with h | ⟨p, hp, -⟩
  · exact absurd h (by decide)
  · have hpaths : fieldPaths true [("_id".toList, .int32 1)] = [] := by decide
    rw [hpaths] at hp
    cases hp

end Chimera

import Chimera.Plugin.Reselection
import Chimera.Translator.ArrayKeys
import Chimera.Translator.PathAgreement

/-!
# Repeated upserts

An upsert that finds nothing inserts a document of its own: the fields of the filter, with the
update applied to them.  The filter finds its values by their paths, and the seed keeps the fields
under the names they have in the filter, dots included.  What is inserted is selected by the filter,
so that the same upsert finds it the next time, exactly when no name has a dot.
-/

namespace Chimera

open Interaction StepSystem

/-- The value is a string, a number, a boolean or an ObjectId. -/
def Value.isPlain : Value → Bool
  | .utf8 _ | .int32 _ | .int64 _ | .double _ | .decimal128 _ | .bool _ | .oid _ => true
  | _ => false

/-- A filter of equalities with plain values, none of whose paths is equal to, above or below
another. -/
structure PlainFilter (filter : Doc) : Prop where
  /-- The values are plain. -/
  plain : ∀ field ∈ filter, field.2.isPlain = true
  /-- The paths are beside one another. -/
  beside : filter.Pairwise fun f g => Beside (splitDots f.1) (splitDots g.1)

/-- An update of operators that writes no path equal to, above or below a path of the filter. -/
structure UpdatesBeside (filter u : Doc) : Prop where
  /-- It has operators. -/
  operators : hasOperators u = true
  /-- Its paths are beside those of the filter. -/
  beside : ∀ s ∈ updateSteps u, ∀ field ∈ filter, Beside (splitDots field.1) s.path

/-- The upsert that inserted the row into these rows can be repeated: its filter selects the row,
and the same upsert matches one document and inserts none. -/
def SqlServer.Repeats (S : SqlServer) (L : Libbson) (filter u : Doc) (multi : Bool) (row : Row)
    (rows : List Row) : Prop :=
  Selects S.M L filter row.doc ∧ ∀ oid outcome rows',
    (updateDocuments L row.ns filter u multi true oid).run S.handler rows = .ok (outcome, rows') →
      outcome.matched = 1 ∧ outcome.upsertedId = none ∧ slots rows' = slots rows

/-- The path of a field leads to the value that the seed has under its name.  One path with a dot
leads to another value that may pass for it: into the `_id` that is generated. -/
def MariaDB.Reaches (M : MariaDB) (W : Spelling) (oid : BitVec 96) (field : Text × Value) : Prop :=
  '.' ∉ field.1 ∨
    splitDots field.1 = [idName, "$oid".toList] ∧ M.Passes W (.str (oidString oid)) field.2

/-! ## Names and dots -/

/-- A name without dots is a path of its own. -/
lemma splitDots_of_dotless {t : Text} (h : '.' ∉ t) : splitDots t = [t] := by
  induction t with
  | nil => rfl
  | cons c t ih =>
    have hc : c ≠ '.' := fun heq => h (heq ▸ List.mem_cons_self)
    have htail := ih fun hmem => h (List.mem_cons_of_mem c hmem)
    rw [splitDots, htail]
    exact fun heq => hc heq

/-- The parts of a name have no dots. -/
lemma dotless_of_mem_splitDots {t part : Text} (h : part ∈ splitDots t) : '.' ∉ part := by
  induction t generalizing part with
  | nil =>
    obtain rfl := List.mem_singleton.1 h
    exact List.not_mem_nil
  | cons c t ih =>
    by_cases hc : c = '.'
    · subst hc
      rcases List.mem_cons.1 h with rfl | hmem
      · exact List.not_mem_nil
      · exact ih hmem
    · obtain ⟨first, rest, hsplit⟩ := List.exists_cons_of_ne_nil (splitDots_ne_nil t)
      rw [splitDots, hsplit] at h
      · rcases List.mem_cons.1 h with rfl | hmem
        · intro hdot
          rcases List.mem_cons.1 hdot with heq | hdot
          · exact hc heq.symm
          · exact ih (hsplit ▸ List.mem_cons_self) hdot
        · exact ih (hsplit ▸ List.mem_cons_of_mem _ hmem)
      · exact fun heq => hc heq

/-- A name with a dot has two parts or more. -/
lemma exists_parts_of_dot {t : Text} (h : '.' ∈ t) :
    ∃ name k rest, splitDots t = name :: k :: rest := by
  induction t with
  | nil => cases h
  | cons c t ih =>
    obtain ⟨first, rest, hsplit⟩ := List.exists_cons_of_ne_nil (splitDots_ne_nil t)
    by_cases hc : c = '.'
    · subst hc
      exact ⟨[], first, rest, by rw [splitDots, hsplit]⟩
    · obtain ⟨name, k, rest', hparts⟩ := ih ((List.mem_cons.1 h).resolve_left (Ne.symm hc))
      refine ⟨c :: name, k, rest', ?_⟩
      rw [splitDots, hparts]
      exact fun heq => hc heq

/-! ## Filters of several fields -/

section Fields

variable {M : MariaDB} {W : Spelling} {L : Libbson} {filter : Doc} {json : Json}

/-- The fields are compiled one by one. -/
lemma forall₂_of_compileFields {conds : List Cond} (h : compileFields L filter = .ok conds) :
    List.Forall₂ (fun field cond => compileDocument L [field] = .ok cond) filter conds := by
  induction filter generalizing conds with
  | nil =>
    obtain rfl := Except.ok.inj h
    exact .nil
  | cons field filter ih =>
    simp only [compileFields, except_bind_eq_ok, except_pure_eq_ok] at h
    obtain ⟨cond, hcond, conds, hconds, rfl⟩ := h
    exact .cons (by rw [compileDocument_singleton, hcond]) (ih hconds)

/-- An accepted filter joins the conditions of its fields. -/
lemma exists_conds {cond : Cond} (h : compileDocument L filter = .ok cond) :
    ∃ conds, List.Forall₂ (fun field cond => compileDocument L [field] = .ok cond) filter conds ∧
      cond = conjoinFields conds := by
  simp only [compileDocument, except_bind_eq_ok, except_pure_eq_ok] at h
  obtain ⟨conds, hconds, rfl⟩ := h
  exact ⟨conds, forall₂_of_compileFields hconds, rfl⟩

/-- What holds of the condition of every field holds of each condition. -/
lemma forall_conds_iff {P : Cond → Prop} {conds : List Cond}
    (h : List.Forall₂ (fun field cond => compileDocument L [field] = .ok cond) filter conds) :
    (∀ cond ∈ conds, P cond) ↔
      ∀ field ∈ filter, ∃ cond, compileDocument L [field] = .ok cond ∧ P cond := by
  induction h with
  | nil => simp
  | cons hfield _ ih =>
    rw [List.forall_mem_cons, List.forall_mem_cons]
    refine and_congr ?_ ih
    simp [hfield]

/-- A document is selected by an accepted filter when each field selects it. -/
lemma selected_iff_forall (h : Accepted L filter) :
    Selected M L filter json ↔ ∀ field ∈ filter, Selected M L [field] json := by
  obtain ⟨cond, hcond⟩ := h
  obtain ⟨conds, hconds, rfl⟩ := exists_conds hcond
  have hselected : Selected M L filter json ↔ (conjoinFields conds).wellFormed = true ∧
      (conjoinFields conds).eval M json = some true := by
    simp [Selected, hcond]
  rw [hselected, wellFormed_conjoinFields, eval_conjoinFields, ← forall₂_and,
    forall_conds_iff hconds]
  rfl

/-- A plain value is sought. -/
lemma isSought_of_plain {v : Value} (hv : v.isPlain = true) : v.isSought = true := by
  cases v <;> first | rfl | cases hv

/-- A plain value that is accepted and printed is one that equality compares with. -/
lemma matchable_of_plain {key : Text} {v : Value} {cond : Cond} (hv : v.isPlain = true)
    (h : compileDocument L [(key, v)] = .ok cond) (hformed : cond.wellFormed = true) :
    v.matchable = true := by
  obtain ⟨param, literal, hparam, -, rfl⟩ := compileDocument_equals (isSought_of_plain hv) h
  have hspelled : param.spelled = true := by simpa [Cond.wellFormed] using hformed
  rw [bindValue_spelled hparam] at hspelled
  cases v with
  | double d => exact hspelled
  | decimal128 bits => cases hparam
  | utf8 _ | int32 _ | int64 _ | bool _ | oid _ => rfl
  | _ => cases hv

end Fields

/-! ## What an update beside a path leaves alone -/

section Beside

variable {W : Spelling} {d d' u : Doc} {p q : Path}

/-- Where nothing is written, nothing is after a write beside it. -/
lemma jsonAt_pathSet_of_beside (h : Beside p q) (v : Value)
    (hnone : jsonAt (.obj (W.writeFields d)) p = none) :
    jsonAt (.obj (W.writeFields (pathSet d q v))) p = none := by
  induction p generalizing d q with
  | nil => exact absurd h not_beside_nil
  | cons name rest ih =>
    obtain ⟨_, _, name', rest', heq, rfl, hrest⟩ := h.exists_cons
    obtain ⟨rfl, rfl⟩ := List.cons.inj heq
    rw [jsonAt_writeFields] at hnone ⊢
    rw [pathSet_cons]
    by_cases hname : name = name'
    · subst hname
      have hbeside : Beside rest rest' := hrest.resolve_left fun hne => hne rfl
      obtain ⟨k, rest, k', rest', rfl, rfl, -⟩ := hbeside.exists_cons
      rw [findField_setField, Option.bind_some]
      cases hfield : findField d name with
      | none => exact ih hbeside rfl
      | some x =>
        rw [hfield, Option.bind_some] at hnone
        cases x with
        | document fields => exact ih hbeside hnone
        | array fields => rfl
        | _ => exact ih hbeside rfl
    · rw [findField_setField_of_ne hname]
      exact hnone

/-- Where nothing is written, nothing is after a removal beside it. -/
lemma jsonAt_pathUnset_of_beside (h : Beside p q)
    (hnone : jsonAt (.obj (W.writeFields d)) p = none) :
    jsonAt (.obj (W.writeFields (pathUnset d q))) p = none := by
  induction p generalizing d q with
  | nil => exact absurd h not_beside_nil
  | cons name rest ih =>
    obtain ⟨_, _, name', rest', heq, rfl, hrest⟩ := h.exists_cons
    obtain ⟨rfl, rfl⟩ := List.cons.inj heq
    rw [jsonAt_writeFields] at hnone ⊢
    by_cases hname : name = name'
    · subst hname
      have hbeside : Beside rest rest' := hrest.resolve_left fun hne => hne rfl
      obtain ⟨k, rest, k', rest', rfl, rfl, -⟩ := hbeside.exists_cons
      rw [findField_pathUnset]
      cases hfield : findField d name with
      | none => rfl
      | some x =>
        rw [hfield, Option.bind_some] at hnone
        rw [Option.bind_some]
        cases x with
        | document fields => exact ih hbeside hnone
        | array fields => rfl
        | _ => exact hnone
    · rw [findField_pathUnset_of_ne fun heq => hname (by simpa using heq.symm)]
      exact hnone

/-- What the writes and removals of an update keep is kept by the update. -/
lemma applyUpdate_keeps {P : Doc → Prop} {Q : Path → Prop}
    (hset : ∀ {d q} v, Q q → P d → P (pathSet d q v))
    (hunset : ∀ {d q}, Q q → P d → P (pathUnset d q)) (hops : hasOperators u = true)
    (hu : ∀ s ∈ updateSteps u, Q s.path) (h : applyUpdate d u = .ok d') (hd : P d) : P d' := by
  have happlied : applyOperators d u = .ok d' := by
    unfold applyUpdate at h
    split at h
    · cases h
    · rwa [if_neg (by simp [hops])] at h
  refine ((steps_of_applyOperators happlied).of_forall_mem hu).invariant ?_ hd
  intro d s d' hd hs hstep
  rw [takeStep, applyOne_toOption, Option.map_eq_some_iff] at hstep
  obtain ⟨e, -, rfl⟩ := hstep
  cases e with
  | keep => exact hd
  | set v => exact hset v hs hd
  | unset => exact hunset hs hd

/-- Nothing comes to a path that all paths of the update are beside. -/
lemma jsonAt_applyUpdate (hops : hasOperators u = true) (hu : ∀ s ∈ updateSteps u, Beside p s.path)
    (h : applyUpdate d u = .ok d') (hnone : jsonAt (.obj (W.writeFields d)) p = none) :
    jsonAt (.obj (W.writeFields d')) p = none :=
  applyUpdate_keeps (P := fun d => jsonAt (.obj (W.writeFields d)) p = none)
    (fun v hq hd => jsonAt_pathSet_of_beside hq v hd)
    (fun hq hd => jsonAt_pathUnset_of_beside hq hd) hops hu h hnone

/-- A field is left alone by an update whose paths are beside it. -/
lemma findField_applyUpdate {name : Text} (hops : hasOperators u = true)
    (hu : ∀ s ∈ updateSteps u, Beside [name] s.path) (h : applyUpdate d u = .ok d') :
    findField d' name = findField d name := by
  have hhead {q : Path} (hq : Beside [name] q) : q.head? ≠ some name := by
    intro heq
    match q with
    | name' :: rest =>
      obtain rfl : name' = name := Option.some.inj heq
      exact hq.1 (List.prefix_append [name'] rest)
  exact applyUpdate_keeps (P := fun d₁ => findField d₁ name = findField d name)
    (fun v hq hd => (findField_pathSet_of_ne (hhead hq)).trans hd)
    (fun hq hd => (findField_pathUnset_of_ne (hhead hq)).trans hd) hops hu h rfl

/-- A field that only paths below it write has fields of its own. -/
lemma subdocument_applyUpdate {name k : Text} {rest : Path} (hops : hasOperators u = true)
    (hu : ∀ s ∈ updateSteps u, Beside (name :: k :: rest) s.path) (h : applyUpdate d u = .ok d')
    (hd : findField d name = none) {x : Value} (hx : findField d' name = some x) :
    x.subdocument ≠ none := by
  have hbelow {q : Path} (hq : Beside (name :: k :: rest) q) :
      q.head? ≠ some name ∨ ∃ k' rest', q = name :: k' :: rest' := by
    match q with
    | [] => exact .inl nofun
    | name' :: q =>
      by_cases heq : name' = name
      · subst heq
        match q with
        | [] => exact absurd (List.prefix_append [name'] (k :: rest)) hq.2
        | k' :: rest' => exact .inr ⟨k', rest', rfl⟩
      · exact .inl (by simpa using heq)
  refine applyUpdate_keeps (Q := Beside (name :: k :: rest))
    (P := fun d => ∀ x, findField d name = some x → x.subdocument ≠ none) ?_ ?_ hops hu h
    (by simp [hd]) x hx
  · intro d q v hq hd x hx
    rcases hbelow hq with hne | ⟨k', rest', rfl⟩
    · exact hd x (by rwa [findField_pathSet_of_ne hne] at hx)
    · rw [pathSet_cons, findField_setField] at hx
      rw [← Option.some.inj hx, subdocument_setUnder]
      exact Option.some_ne_none _
  · intro d q hq hd x hx
    rcases hbelow hq with hne | ⟨k', rest', rfl⟩
    · exact hd x (by rwa [findField_pathUnset_of_ne hne] at hx)
    · rw [findField_pathUnset] at hx
      obtain ⟨y, hy, hx⟩ := Option.bind_eq_some_iff.1 hx
      have hsub := hd y hy
      cases y with
      | document fields | array fields =>
        rw [← Option.some.inj hx]
        exact Option.some_ne_none _
      | _ => exact absurd rfl hsub

end Beside

/-! ## The seed and what is inserted -/

section Seed

variable {M : MariaDB} {W : Spelling} {L : Libbson} {filter u result : Doc} {oid : BitVec 96}
  {key : Text} {v : Value}

/-- The only field of a name is found. -/
lemma findField_eq_some_of_unique {d : Doc} (hmem : (key, v) ∈ d)
    (hunique : ∀ field ∈ d, field.1 = key → field = (key, v)) : findField d key = some v := by
  cases hfield : findField d key with
  | none => exact absurd rfl (findField_eq_none_iff.1 hfield _ hmem)
  | some x =>
    have heq := hunique _ (mem_of_findField hfield) rfl
    rw [(Prod.mk.inj heq).2]

/-- Two fields of the filter whose paths are not beside each other are the same field. -/
lemma PlainFilter.eq_of_not_beside (h : PlainFilter filter) {f g : Text × Value}
    (hf : f ∈ filter) (hg : g ∈ filter) (hnot : ¬ Beside (splitDots f.1) (splitDots g.1)) :
    f = g := by
  by_contra hne
  have hsymm : Std.Symm fun f g : Text × Value => Beside (splitDots f.1) (splitDots g.1) :=
    ⟨fun _ _ hbeside => ⟨hbeside.2, hbeside.1⟩⟩
  exact hnot (h.beside.forall hf hg hne)

/-- A field of the filter is in the seed. -/
lemma PlainFilter.findField_seed (h : PlainFilter filter) (hfield : (key, v) ∈ filter)
    (hkey : isOperatorName key = false) : findField (upsertSeed filter) key = some v := by
  have hdocument : v.isDocument = false := by
    have hplain := h.plain _ hfield
    cases v with
    | document fields => cases hplain
    | _ => rfl
  refine findField_eq_some_of_unique (List.mem_filter.2 ⟨hfield, by simp [hkey, hdocument]⟩) ?_
  intro field hmem hname
  refine h.eq_of_not_beside (List.mem_of_mem_filter hmem) hfield ?_
  rw [hname]
  exact fun hbeside => hbeside.1 List.prefix_rfl

/-- The seed has no field where a dotted path of the filter begins. -/
lemma PlainFilter.findField_seed_dotted (h : PlainFilter filter) (hfield : (key, v) ∈ filter)
    {name k : Text} {rest : Path} (hsplit : splitDots key = name :: k :: rest) :
    findField (upsertSeed filter) name = none := by
  have hname : splitDots name = [name] :=
    splitDots_of_dotless (dotless_of_mem_splitDots (hsplit ▸ List.mem_cons_self))
  refine findField_eq_none_iff.2 fun field hmem heq => ?_
  have hfirst : splitDots field.1 = [name] := by rw [heq, hname]
  have hsame : field = (key, v) := by
    refine h.eq_of_not_beside (List.mem_of_mem_filter hmem) hfield ?_
    rw [hfirst, hsplit]
    exact fun hbeside => hbeside.1 (List.prefix_append [name] (k :: rest))
  rw [hsame, hsplit] at hfirst
  cases hfirst

/-- A container is no `_id`. -/
lemma subdocument_of_encodeId {id : Value} {bytes : Text} (h : encodeId id = .ok bytes) :
    id.subdocument = none := by
  cases id with
  | document fields | array fields => cases h
  | _ => rfl

/-- What is inside a generated `_id`. -/
lemma jsonAt_write_oid (k : Text) (rest : Path) :
    jsonAt (W.write (.oid oid)) (k :: rest) =
      if k = "$oid".toList ∧ rest = [] then some (.str (oidString oid)) else none := by
  have hwrite : W.write (.oid oid) = .obj [("$oid".toList, .str (oidString oid))] := rfl
  rw [hwrite, jsonAt, List.find?_cons]
  by_cases hk : k = "$oid".toList
  · subst hk
    cases rest with
    | nil => simp [jsonAt]
    | cons k rest => simp [jsonAt]
  · have hother : decide ("$oid".toList = k) = false := decide_eq_false (Ne.symm hk)
    rw [if_neg fun h => hk h.1]
    dsimp only
    rw [hother]
    rfl

/-- A field selects what the upsert inserted exactly when its path leads to its value. -/
lemma selected_inserted_iff (hM : M.Documented W) (hL : L.Spells W) (hfilter : PlainFilter filter)
    (hu : UpdatesBeside filter u) (hfield : (key, v) ∈ filter) (haccepted : Accepted L [(key, v)])
    (hv : v.matchable = true) (hresult : applyUpdate (upsertSeed filter) u = .ok result)
    {bytes : Text} (hid : encodeId (withId oid result).1 = .ok bytes) {json : Json}
    (hjson : L.toExtjson (withId oid result).2 = .ok json) :
    Selected M L [(key, v)] json ↔ M.Reaches W oid (key, v) := by
  have hkey : isOperatorName key = false :=
    isOperatorName_of_accepted (isSought_of_matchable hv) haccepted
  have hbeside : ∀ s ∈ updateSteps u, Beside (splitDots key) s.path := fun s hs =>
    hu.beside s hs _ hfield
  obtain rfl := hL _ _ hjson
  rw [selected_equals_iff hM hL hv haccepted, MariaDB.Reaches]
  by_cases hdot : '.' ∈ key
  · obtain ⟨name, k, rest, hsplit⟩ := exists_parts_of_dot hdot
    rw [hsplit] at hbeside ⊢
    have hseed := hfilter.findField_seed_dotted hfield hsplit
    have hnone : jsonAt (.obj (W.writeFields result)) (name :: k :: rest) = none := by
      refine jsonAt_applyUpdate hu.operators hbeside hresult ?_
      rw [jsonAt_writeFields, hseed, Option.bind_none]
    rw [or_iff_right (not_not_intro hdot)]
    cases hown : findField result idName with
    | some id =>
      have hstored : withId oid result = (id, result) := by rw [withId, hown]
      rw [hstored] at hid ⊢
      rw [hnone]
      refine iff_of_false (by simp) ?_
      rintro ⟨hpath, -⟩
      obtain ⟨rfl, -⟩ := List.cons.inj hpath
      exact subdocument_applyUpdate hu.operators hbeside hresult hseed hown
        (subdocument_of_encodeId hid)
    | none =>
      have hstored : withId oid result = (.oid oid, (idName, .oid oid) :: result) := by
        rw [withId, hown]
      rw [hstored, jsonAt_writeFields, findField_cons]
      by_cases hname : idName = name
      · subst hname
        rw [if_pos rfl, Option.bind_some, jsonAt_write_oid]
        by_cases hpath : k = "$oid".toList ∧ rest = []
        · obtain ⟨rfl, rfl⟩ := hpath
          simp
        · rw [if_neg hpath]
          refine iff_of_false (by simp) ?_
          rintro ⟨heq, -⟩
          obtain ⟨-, heq⟩ := List.cons.inj heq
          exact hpath (List.cons.inj heq)
      · rw [if_neg hname, ← jsonAt_writeFields, hnone]
        refine iff_of_false (by simp) ?_
        rintro ⟨heq, -⟩
        exact hname (List.cons.inj heq).1.symm
  · rw [splitDots_of_dotless hdot] at hbeside ⊢
    have hfound : findField result key = some v := by
      rw [findField_applyUpdate hu.operators hbeside hresult]
      exact hfilter.findField_seed hfield hkey
    have hstored : findField (withId oid result).2 key = some v := by
      unfold withId
      split
      · exact hfound
      · next hown =>
        rw [findField_cons, if_neg, hfound]
        rintro rfl
        rw [hown] at hfound
        cases hfound
    have hscalar : v.isContainer = false := by
      cases v with
      | document fields | array fields => cases hv
      | _ => rfl
    refine iff_of_true ⟨W.write v, ?_, (passes_scalar_iff hM hscalar hv).2 (.inr rfl)⟩ (.inl hdot)
    rw [jsonAt_writeFields, hstored, Option.bind_some]
    simp [jsonAt]

end Seed

/-! ## Runs of an upsert -/

section Runs

variable {S : SqlServer} {W : Spelling} {L : Libbson} {ns : Namespace} {filter u : Doc}
  {multi : Bool} {oid : BitVec 96} {rows rows' : List Row} {outcome : UpdateOutcome}

/-- The updates of the documents that were found: each of them counts, and no row is added. -/
lemma run_updateMatches {documents : List Doc} {start : UpdateOutcome}
    (hrun : (updateMatches L ns u documents start).run S.handler rows = .ok (outcome, rows')) :
    outcome.matched = start.matched + documents.length ∧
      outcome.upsertedId = start.upsertedId ∧ slots rows' = slots rows ∧
        (documents = [] → rows' = rows) := by
  induction documents generalizing start rows with
  | nil =>
    obtain ⟨rfl, rfl⟩ := run_pure_eq_ok.1 hrun
    exact ⟨rfl, rfl, rfl, fun _ => rfl⟩
  | cons document documents ih =>
    rw [updateMatches] at hrun
    cases hid : findField document idName with
    | none =>
      rw [hid] at hrun
      cases hrun
    | some id =>
      rw [hid] at hrun
      simp only [run_bind_eq_ok, run_ofExcept_eq_ok] at hrun
      obtain ⟨result, _, ⟨-, rfl⟩, after, _, ⟨-, rfl⟩, before, _, ⟨-, rfl⟩, hrun⟩ := hrun
      split at hrun
      · obtain ⟨hmatched, hupserted, hslots, -⟩ := ih hrun
        refine ⟨?_, hupserted, hslots, fun h => absurd h (List.cons_ne_nil _ _)⟩
        rw [hmatched, List.length_cons]
        dsimp only
        omega
      · simp only [run_bind_eq_ok, run_ofExcept_eq_ok] at hrun
        obtain ⟨key, _, ⟨-, rfl⟩, _, rows₁, hreplace, hrun⟩ := hrun
        have hperform := handler_eq_ok (run_question_eq_ok.1 hreplace)
        obtain ⟨-, rfl⟩ := Prod.mk.inj (Except.ok.inj hperform)
        obtain ⟨hmatched, hupserted, hslots, -⟩ := ih hrun
        refine ⟨?_, hupserted, hslots.trans (slots_replaceRow _ _),
          fun h => absurd h (List.cons_ne_nil _ _)⟩
        rw [hmatched, List.length_cons]
        dsimp only
        omega

/-- What an upsert does: it inserts one document when the filter selects none, and counts the
documents it updates when the filter selects some. -/
lemma run_upsert
    (hrun : (updateDocuments L ns filter u multi true oid).run S.handler rows =
      .ok (outcome, rows')) :
    ∃ cond, compileDocument L filter = .ok cond ∧ cond.wellFormed = true ∧
      (rows.filter (S.matches ns cond) = [] ∧ (∃ result id,
          applyUpdate (upsertSeed filter) u = .ok result ∧
          (insertDocument L ns oid result).run S.handler rows = .ok (id, rows')) ∨
        rows.filter (S.matches ns cond) ≠ [] ∧ outcome.upsertedId = none ∧
          slots rows' = slots rows ∧
          outcome.matched =
            if multi then (rows.filter (S.matches ns cond)).length else 1) := by
  unfold updateDocuments at hrun
  simp only [run_bind_eq_ok, run_requireExists_iff] at hrun
  obtain ⟨-, _, ⟨-, rfl⟩, documents, rows₁, hload, updated, rows₂, hupdates, hrest⟩ := hrun
  obtain ⟨-, rfl, cond, hcond, hformed, hread⟩ := run_load_iff.1 hload
  have hlength := (mapM_eq_ok_iff.1 hread).length_eq
  obtain ⟨hmatched, hupserted, hslots, hnothing⟩ := run_updateMatches hupdates
  refine ⟨cond, hcond, hformed, ?_⟩
  cases hfound : rows₁.filter (S.matches ns cond) with
  | nil =>
    rw [hfound] at hlength
    obtain rfl : documents = [] := List.length_eq_zero_iff.1 hlength.symm
    have hnone : (if multi then ([] : List Doc) else List.take 1 []) = [] := by
      cases multi <;> rfl
    rw [hnone] at hmatched hnothing
    obtain rfl := hnothing rfl
    rw [if_pos (by simp [hmatched])] at hrest
    simp only [run_bind_eq_ok, run_ofExcept_eq_ok] at hrest
    obtain ⟨result, _, ⟨hresult, rfl⟩, id, rows₃, hinsert, hdone⟩ := hrest
    obtain ⟨-, rfl⟩ := run_pure_eq_ok.1 hdone
    exact .inl ⟨rfl, result, id, hresult, hinsert⟩
  | cons row found =>
    rw [hfound, List.length_cons] at hlength
    have hcount : (if multi then documents else documents.take 1).length =
        if multi then (row :: found).length else 1 := by
      cases multi with
      | true => exact hlength.symm
      | false =>
        simp only [Bool.false_eq_true, if_false, List.length_take]
        omega
    rw [hcount] at hmatched
    have hsome : updated.matched ≠ 0 := by
      rw [hmatched]
      cases multi <;> simp
    rw [if_neg (by simp [hsome])] at hrest
    obtain ⟨rfl, rfl⟩ := run_pure_eq_ok.1 hrest
    exact .inr ⟨List.cons_ne_nil row found, hupserted, hslots, by rw [hmatched, Nat.zero_add]⟩

/-- An inserted row that is selected is the one row that the filter finds afterwards. -/
lemma filter_insertRow {p : Row → Bool} {row : Row} (hrows : rows.filter p = [])
    (hrow : p row = true) : (insertRow row rows).filter p = [row] := by
  have hperm := (insertRow_perm row rows).filter p
  rw [List.filter_cons_of_pos hrow, hrows] at hperm
  exact List.perm_singleton.1 hperm

/-- **Upserts can be repeated exactly when no name has a dot.**  For every filter of equalities with
strings, numbers, booleans and ObjectIds, at plain names, and every update of operators beside its
paths: when the upsert matches nothing and inserts a document, the filter selects this document, and
the same upsert matches it and inserts nothing, if and only if no name in the filter has a dot.  The
one exception is the path into the `_id` that is generated, when its text passes for the value. -/
theorem upsert_repeats_iff (hM : S.M.Documented W) (hL : L.Spells W) (hfilter : PlainFilter filter)
    (hnames : PlainNames filter) (hu : UpdatesBeside filter u) {id : Value}
    (hrun : (updateDocuments L ns filter u multi true oid).run S.handler rows =
      .ok (outcome, rows')) (hinserted : outcome.upsertedId = some id) :
    ∃ row, row.ns = ns ∧ row.slot ∉ slots rows ∧ rows' = insertRow row rows ∧
      (S.Repeats L filter u multi row rows' ↔
        ∀ field ∈ filter, S.M.Reaches W oid field) := by
  obtain ⟨cond, hcond, hformed, ⟨hnothing, result, id', hresult, hinsert⟩ | ⟨-, hnone, -⟩⟩ :=
    run_upsert hrun
  swap
  · rw [hnone] at hinserted
    cases hinserted
  obtain ⟨key, json, rfl, hkey, hjson, hfree, rfl⟩ := insertDocument_run hinsert
  have haccepted : Accepted L filter := ⟨cond, hcond⟩
  have hfields : ∀ field ∈ filter,
      (Selected S.M L [field] json ↔ S.M.Reaches W oid field) := by
    rintro ⟨name, v⟩ hfield
    obtain ⟨conds, hconds, rfl⟩ := exists_conds hcond
    obtain ⟨part, hpart, hpartFormed⟩ := (forall_conds_iff hconds).1
      ((wellFormed_conjoinFields conds).1 hformed) _ hfield
    exact selected_inserted_iff hM hL hfilter hu hfield ⟨part, hpart⟩
      (matchable_of_plain (hfilter.plain _ hfield) hpart hpartFormed) hresult hkey hjson
  have hselected : Selected S.M L filter json ↔ ∀ field ∈ filter, S.M.Reaches W oid field := by
    rw [selected_iff_forall haccepted]
    exact forall₂_congr hfields
  have hselects : Selects S.M L filter json ↔ ∀ field ∈ filter, S.M.Reaches W oid field :=
    (selects_iff_selected hnames).trans hselected
  refine ⟨⟨ns, key, json⟩, rfl, hfree, rfl, fun hrepeats => hselects.1 hrepeats.1, fun hreaches =>
    ⟨hselects.2 hreaches, fun oid' outcome' rows'' hagain => ?_⟩⟩
  obtain ⟨cond', hcond', -, hfound⟩ := run_upsert hagain
  obtain rfl := Except.ok.inj (hcond.symm.trans hcond')
  have hmatches : S.matches ns cond ⟨ns, key, json⟩ = true :=
    (matches_iff hcond hformed).2 ⟨rfl, hselected.2 hreaches⟩
  rw [filter_insertRow hnothing hmatches] at hfound
  obtain ⟨hnil, -⟩ | ⟨-, hnone, hslots, hmatched⟩ := hfound
  · cases hnil
  · refine ⟨?_, hnone, hslots⟩
    rw [hmatched]
    cases multi <;> rfl

end Runs

/-- An upsert by a field and an `_id`, which sets another field. -/
theorem upsert_repeats_iff_set :
    let ns : Namespace := ⟨"app".toList, "items".toList⟩
    let filter := [("k".toList, Value.utf8 "a".toList), (idName, .int32 5)]
    let u := [("$set".toList, Value.document [("n".toList, .int32 1)])]
    let row := rowOf ns (tagInt :: encodeInt 5) (filter ++ [("n".toList, .int32 1)])
    (updateDocuments .ofIntegers ns filter u false true 0).run (SqlServer.handler .ofIntegers) [] =
        .ok (⟨0, 0, some (.int32 5)⟩, [row]) ∧
      SqlServer.ofIntegers.Repeats .ofIntegers filter u false row [row] := by
  intro ns filter u row
  have hrun : (updateDocuments .ofIntegers ns filter u false true 0).run
      (SqlServer.handler .ofIntegers) [] = .ok (⟨0, 0, some (.int32 5)⟩, [row]) := rfl
  have hfilter : PlainFilter filter := ⟨by decide, by decide⟩
  have hu : UpdatesBeside filter u := by
    refine ⟨by decide, fun s hs => ?_⟩
    obtain rfl := List.mem_singleton.1 hs
    decide
  obtain ⟨row', -, -, hrows, hiff⟩ := upsert_repeats_iff (S := .ofIntegers)
    MariaDB.ofIntegers_documented Libbson.ofIntegers_spells hfilter (by decide) hu hrun rfl
  obtain rfl : row = row' := List.head_eq_of_cons_eq hrows
  have hdots : ∀ field ∈ filter, '.' ∉ field.1 := by decide
  exact ⟨hrun, hiff.2 fun field hfield => .inl (hdots field hfield)⟩

/-- A dotted name: the same upsert inserts a second document. -/
theorem dotted_upsert_inserts_again :
    let ns : Namespace := ⟨"app".toList, "items".toList⟩
    let L := Spelling.plain.libbson
    let filter := [("a.b".toList, Value.utf8 "x".toList)]
    let u := [("$set".toList, Value.document [("y".toList, .int32 1)])]
    MariaDB.ofIntegers.Documented .plain ∧ L.Spells .plain ∧ PlainFilter filter ∧
      UpdatesBeside filter u ∧ ∃ row row',
        (updateDocuments L ns filter u false true 1).run (SqlServer.handler .ofIntegers) [] =
          .ok (⟨0, 0, some (.oid 1)⟩, [row]) ∧
        ¬ Selects .ofIntegers L filter row.doc ∧
        (updateDocuments L ns filter u false true 2).run (SqlServer.handler .ofIntegers) [row] =
          .ok (⟨0, 0, some (.oid 2)⟩, [row, row']) := by
  intro ns L filter u
  have hu : UpdatesBeside filter u := by
    refine ⟨by decide, fun s hs => ?_⟩
    obtain rfl := List.mem_singleton.1 hs
    decide
  refine ⟨MariaDB.ofIntegers_documented, Spelling.plain.libbson_spells, ⟨by decide, by decide⟩, hu,
    _, _, rfl, ?_, rfl⟩
  rw [selects_iff_selected (by decide)]
  rintro ⟨cond, hcond, -, heval⟩
  obtain rfl := Except.ok.inj hcond
  exact absurd heval (by decide)

end Chimera

import Chimera.Translator.Paths
import Chimera.Translator.Update

/-!
# What an operator touches

An operator of an update is meant for one path.  The operators that write go through `path_set`,
which makes a document of every level it cannot descend into: a scalar above the path is replaced.
The operators that remove read an absent array as an empty one, and `$pull` writes it back.
-/

namespace Chimera

/-! ## Values a document holds -/

/-- A value holds another at a path, through any of the fields of a name. -/
def Value.Holds : Value → Path → Value → Prop
  | v, [], x => v = x
  | v, name :: rest, x =>
    ∃ fields, v.subdocument = some fields ∧ ∃ y, (name, y) ∈ fields ∧ y.Holds rest x

/-- A document holds a value at a path. -/
def HoldsAt (d : Doc) (path : Path) (x : Value) : Prop := (Value.document d).Holds path x

/-- A document holds a scalar at a path. -/
def Leaf (d : Doc) (path : Path) (x : Value) : Prop := HoldsAt d path x ∧ x.subdocument = none

/-- Above the path the document holds a scalar: its path is a strict prefix. -/
def ScalarAbove (d : Doc) (path : Path) : Prop :=
  ∃ q x, q <+: path ∧ q ≠ path ∧ Leaf d q x

/-- What a document holds below a name. -/
lemma holdsAt_cons {d : Doc} {name : Text} {rest : Path} {x : Value} :
    HoldsAt d (name :: rest) x ↔ ∃ y, (name, y) ∈ d ∧ y.Holds rest x := by
  constructor
  · rintro ⟨fields, hfields, y, hy, hx⟩
    obtain rfl := Option.some.inj hfields
    exact ⟨y, hy, hx⟩
  · rintro ⟨y, hy, hx⟩
    exact ⟨d, rfl, y, hy, hx⟩

/-- What a value holds below a name is held by its fields. -/
lemma holds_cons {v : Value} {fields : Doc} (hv : v.subdocument = some fields) {name : Text}
    {rest : Path} {x : Value} : v.Holds (name :: rest) x ↔ HoldsAt fields (name :: rest) x := by
  rw [holdsAt_cons, Value.Holds, hv]
  constructor
  · rintro ⟨_, heq, hy⟩
    obtain rfl := Option.some.inj heq
    exact hy
  · rintro hy
    exact ⟨fields, rfl, hy⟩

/-! ## The fields of one name -/

/-- The fields of the name that was set come from fields of that name, or from none. -/
lemma of_mem_setField {doc : Doc} {name : Text} {f : Option Value → Value} {y : Value}
    (h : (name, y) ∈ setField doc name f) : ∃ existing, y = f existing := by
  unfold setField at h
  split at h
  · obtain ⟨⟨k, z⟩, -, heq⟩ := List.mem_map.1 h
    by_cases hk : k = name
    · rw [if_pos hk] at heq
      exact ⟨some z, (Prod.mk.inj heq).2.symm⟩
    · rw [if_neg hk] at heq
      exact absurd (Prod.mk.inj heq).1 hk
  · next hany =>
    rcases List.mem_append.1 h with hmem | hmem
    · exact absurd (any_name_iff.2 ⟨_, hmem, rfl⟩) hany
    · exact ⟨none, (Prod.mk.inj (List.mem_singleton.1 hmem)).2⟩

/-- A field of the name that is set is set. -/
lemma mem_setField {doc : Doc} {name : Text} (f : Option Value → Value) {y : Value}
    (h : (name, y) ∈ doc) : (name, f (some y)) ∈ setField doc name f := by
  rw [setField, if_pos (any_name_iff.2 ⟨_, h, rfl⟩)]
  exact List.mem_map.2 ⟨_, h, if_pos rfl⟩

/-- The fields of another name stay. -/
lemma mem_setField_of_ne {doc : Doc} {name k : Text} (f : Option Value → Value) {y : Value}
    (hk : k ≠ name) (h : (k, y) ∈ doc) : (k, y) ∈ setField doc name f := by
  unfold setField
  split
  · exact List.mem_map.2 ⟨_, h, if_neg hk⟩
  · exact List.mem_append_left _ h

/-! ## Writing -/

/-- Above the path that was written there are only documents and arrays. -/
lemma not_scalar_above_written {d : Doc} {p q : Path} {v x : Value}
    (h : HoldsAt (pathSet d p v) q x) (hleads : q <+: p) (hne : q ≠ p) :
    x.subdocument ≠ none := by
  induction q generalizing d p with
  | nil =>
    obtain rfl : Value.document (pathSet d p v) = x := h
    exact Option.some_ne_none _
  | cons name q ih =>
    obtain ⟨rest, rfl⟩ : ∃ rest, p = name :: rest := by
      obtain ⟨t, rfl⟩ := hleads
      exact ⟨q ++ t, rfl⟩
    have hrest : q <+: rest := (List.cons_prefix_cons.1 hleads).2
    have hnerest : q ≠ rest := fun heq => hne (by rw [heq])
    rw [pathSet_cons, holdsAt_cons] at h
    obtain ⟨y, hy, hx⟩ := h
    obtain ⟨existing, rfl⟩ := of_mem_setField hy
    match rest with
    | [] => exact absurd (List.prefix_nil.1 hrest) hnerest
    | k :: rest =>
      have hfields := subdocument_setUnder existing k rest v
      match q with
      | [] =>
        obtain rfl : setUnder existing (k :: rest) v = x := hx
        rw [hfields]
        exact Option.some_ne_none _
      | k' :: q => exact ih ((holds_cons hfields).1 hx) hrest hnerest

/-- Where no scalar is above the path, the leaves that are neither there nor below it stay. -/
lemma leaf_pathSet {d : Doc} {p q : Path} {v x : Value} (habove : ¬ ScalarAbove d p)
    (hx : Leaf d q x) (hbelow : ¬ p <+: q) : Leaf (pathSet d p v) q x := by
  refine ⟨?_, hx.2⟩
  induction p generalizing d q with
  | nil => exact absurd List.nil_prefix hbelow
  | cons name rest ih =>
    obtain ⟨hheld, hscalar⟩ := hx
    cases q with
    | nil =>
      obtain rfl : Value.document d = x := hheld
      cases hscalar
    | cons name' q =>
      obtain ⟨y, hy, hyx⟩ := holdsAt_cons.1 hheld
      rw [pathSet_cons, holdsAt_cons]
      by_cases hname : name' = name
      · subst hname
        refine ⟨_, mem_setField _ hy, ?_⟩
        cases rest with
        | nil => exact absurd (List.cons_prefix_cons.2 ⟨rfl, List.nil_prefix⟩) hbelow
        | cons k rest =>
          cases hfields : y.subdocument with
          | none =>
            -- the scalar stands at the first name of the path
            exact absurd ⟨[name'], y, List.cons_prefix_cons.2 ⟨rfl, List.nil_prefix⟩, by simp,
              holdsAt_cons.2 ⟨y, hy, rfl⟩, hfields⟩ habove
          | some fields =>
            have hset := subdocument_setUnder (some y) k rest v
            have hof : Value.fieldsOf (some y) = fields := by
              rw [Value.fieldsOf, Option.bind_some, hfields, Option.getD_some]
            rw [hof] at hset
            cases q with
            | nil =>
              obtain rfl : y = x := hyx
              rw [hscalar] at hfields
              cases hfields
            | cons k' q =>
              refine (holds_cons hset).2 (ih ?_ ⟨(holds_cons hfields).1 hyx, hscalar⟩ ?_)
              · rintro ⟨r, z, hr, hne, hz, hzscalar⟩
                refine habove ⟨name' :: r, z, List.cons_prefix_cons.2 ⟨rfl, hr⟩,
                  fun heq => hne (List.cons.inj heq).2, holdsAt_cons.2 ⟨y, hy, ?_⟩, hzscalar⟩
                cases r with
                | nil =>
                  obtain rfl : Value.document fields = z := hz
                  cases hzscalar
                | cons _ _ => exact (holds_cons hfields).2 hz
              · exact fun hp => hbelow (List.cons_prefix_cons.2 ⟨rfl, hp⟩)
      · exact ⟨y, mem_setField_of_ne _ hname hy, hyx⟩

/-- **Frame.**  Writing at a path keeps every leaf that is neither there nor below it exactly when
no scalar is above it. -/
theorem pathSet_keeps_iff {d : Doc} {p : Path} {v : Value} :
    (∀ q x, Leaf d q x → ¬ p <+: q → Leaf (pathSet d p v) q x) ↔ ¬ ScalarAbove d p := by
  constructor
  · rintro hkeeps ⟨q, x, hleads, hne, hx⟩
    have hbelow : ¬ p <+: q := fun hpq =>
      hne (hleads.eq_of_length (Nat.le_antisymm hleads.length_le hpq.length_le))
    obtain ⟨hheld, hscalar⟩ := hkeeps q x hx hbelow
    exact not_scalar_above_written hheld hleads hne hscalar
  · exact fun habove q x hx hbelow => leaf_pathSet habove hx hbelow

/-! ## Removing -/

/-- After a removal nothing is held at the path. -/
lemma not_holdsAt_pathUnset {d : Doc} {p : Path} (hp : p ≠ []) (x : Value) :
    ¬ HoldsAt (pathUnset d p) p x := by
  induction p generalizing d with
  | nil => exact absurd rfl hp
  | cons name rest ih =>
    rw [pathUnset_cons, holdsAt_cons]
    rintro ⟨y, hy, hx⟩
    obtain ⟨⟨k, z⟩, -, heq⟩ := List.mem_filterMap.1 hy
    by_cases hk : k = name
    · rw [if_pos hk] at heq
      obtain ⟨y', hy', hpair⟩ := Option.map_eq_some_iff.1 heq
      obtain ⟨-, rfl⟩ := Prod.mk.inj hpair
      match rest with
      | [] => cases hy'
      | k' :: rest =>
        cases z with
        | array fields =>
          obtain rfl := Option.some.inj hy'
          exact ih (List.cons_ne_nil k' rest) ((holds_cons rfl).1 hx)
        | document fields =>
          obtain rfl := Option.some.inj hy'
          exact ih (List.cons_ne_nil k' rest) ((holds_cons rfl).1 hx)
        | _ =>
          obtain rfl := Option.some.inj hy'
          obtain ⟨fields, hfields, -⟩ := hx
          cases hfields
    · rw [if_neg hk] at heq
      exact hk (Prod.mk.inj (Option.some.inj heq)).1

/-- A removal changes nothing exactly when nothing is held at the path. -/
lemma pathUnset_eq_self_iff {d : Doc} {p : Path} (hp : p ≠ []) :
    pathUnset d p = d ↔ ∀ x, ¬ HoldsAt d p x := by
  constructor
  · intro heq x hx
    rw [← heq] at hx
    exact not_holdsAt_pathUnset hp x hx
  · intro hnone
    induction p generalizing d with
    | nil => exact absurd rfl hp
    | cons name rest ih =>
      have hkeep : ∀ field ∈ d, (if field.1 = name then
          (field.2.unsetUnder rest).map (Prod.mk field.1) else some field) = some field := by
        rintro ⟨k, y⟩ hy
        by_cases hk : k = name
        · subst hk
          rw [if_pos rfl]
          match rest with
          | [] =>
            have hheld : HoldsAt d [k] y := holdsAt_cons.2 ⟨y, hy, rfl⟩
            exact absurd hheld (hnone y)
          | k' :: rest =>
            have hbelow {fields : Doc} (hfields : y.subdocument = some fields) :
                pathUnset fields (k' :: rest) = fields :=
              ih (List.cons_ne_nil k' rest) fun x hx =>
                hnone x (holdsAt_cons.2 ⟨y, hy, (holds_cons hfields).2 hx⟩)
            cases y with
            | array fields => simp [Value.unsetUnder, hbelow rfl]
            | document fields => simp [Value.unsetUnder, hbelow rfl]
            | _ => rfl
        · exact if_neg hk
      rw [pathUnset_cons, List.filterMap_congr hkeep, List.filterMap_some]

/-! ## One operator on one path -/

/-- An update of one operator on one path. -/
def singleUpdate (op name : Text) (arg : Value) : Doc := [(op, .document [(name, arg)])]

/-- The checks that an operator makes of its argument and of what is at its path. -/
def operatorChecks (op : Text) (existing : Option Value) (arg : Value) : Bool :=
  if op = "$set".toList then true
  else if op = "$unset".toList then true
  else if op = "$inc".toList then valueIsNumeric arg && !existing.any fun v => !valueIsNumeric v
  else if op = "$push".toList then
    (arrayElements existing).isSome && (eachValues arg).toOption.isSome
  else if op = "$addToSet".toList then
    (arrayElements existing).isSome && (eachValues arg).toOption.isSome
  else if op = "$pull".toList then
    match arg with
    | .document _ => false
    | _ => (arrayElements existing).isSome
  else if op = "$pop".toList then (arrayElements existing).isSome
  else false

/-- An operator does something when its checks pass. -/
lemma isSome_operatorEffect (op : Text) (existing : Option Value) (arg : Value) :
    (operatorEffect op existing arg).isSome = operatorChecks op existing arg := by
  unfold operatorEffect operatorChecks
  by_cases hset : op = "$set".toList
  · rw [if_pos hset, if_pos hset]
    rfl
  rw [if_neg hset, if_neg hset]
  by_cases hunset : op = "$unset".toList
  · rw [if_pos hunset, if_pos hunset]
    rfl
  rw [if_neg hunset, if_neg hunset]
  by_cases hinc : op = "$inc".toList
  · rw [if_pos hinc, if_pos hinc]
    split
    · next hchecks => exact hchecks.symm
    · next hchecks => exact (Bool.eq_false_iff.2 hchecks).symm
  rw [if_neg hinc, if_neg hinc]
  by_cases hpush : op = "$push".toList
  · rw [if_pos hpush, if_pos hpush]
    cases arrayElements existing <;> cases (eachValues arg).toOption <;> rfl
  rw [if_neg hpush, if_neg hpush]
  by_cases hadd : op = "$addToSet".toList
  · rw [if_pos hadd, if_pos hadd]
    cases arrayElements existing <;> cases (eachValues arg).toOption <;> rfl
  rw [if_neg hadd, if_neg hadd]
  by_cases hpull : op = "$pull".toList
  · rw [if_pos hpull, if_pos hpull]
    cases arg <;> first | rfl | (cases arrayElements existing <;> rfl)
  rw [if_neg hpull, if_neg hpull]
  by_cases hpop : op = "$pop".toList
  · rw [if_pos hpop, if_pos hpop]
    cases arrayElements existing with
    | none => rfl
    | some elements =>
      change (ite _ _ _ : Option PathEffect).isSome = true
      split
      · rfl
      · split <;> rfl
  rw [if_neg hpop, if_neg hpop]
  rfl

/-- An update of one operator on one path, when it succeeds. -/
lemma applyUpdate_single {op name : Text} {path : Path} (hop : isOperatorName op = true)
    (hpath : splitPath name = .ok path) {d d' : Doc} {arg : Value} :
    applyUpdate d (singleUpdate op name arg) = .ok d' ↔
      "$".toList ∉ path ∧
        ∃ e, operatorEffect op (pathGet d path) arg = some e ∧ e.apply d path = d' := by
  have hmixes : mixesOperators (singleUpdate op name arg) = false := rfl
  have hops : hasOperators (singleUpdate op name arg) = true := hop
  rw [applyUpdate, hmixes, hops, if_neg Bool.false_ne_true, Bool.not_true,
    if_neg Bool.false_ne_true, singleUpdate, applyOperators_cons, ← applyOne_eq_ok]
  constructor
  · rintro ⟨_, heq, next, hnext, hrest⟩
    obtain rfl := Value.document.inj heq
    obtain rfl := Except.ok.inj hrest
    obtain ⟨_, hsplit, hdollar, last, hone, hlast⟩ := applyOperator_cons.1 hnext
    obtain rfl := Except.ok.inj (hpath.symm.trans hsplit)
    obtain rfl := Except.ok.inj hlast
    exact ⟨hdollar, hone⟩
  · rintro ⟨hdollar, hone⟩
    exact ⟨_, rfl, d', applyOperator_cons.2 ⟨path, hpath, hdollar, d', hone, rfl⟩, rfl⟩

/-- An update of one operator on one path succeeds when the path is not positional and the checks
pass. -/
lemma applyUpdate_single_succeeds {op name : Text} {path : Path} (hop : isOperatorName op = true)
    (hpath : splitPath name = .ok path) {d : Doc} {arg : Value} :
    (∃ d', applyUpdate d (singleUpdate op name arg) = .ok d') ↔
      "$".toList ∉ path ∧ operatorChecks op (pathGet d path) arg = true := by
  rw [← isSome_operatorEffect, Option.isSome_iff_exists]
  constructor
  · rintro ⟨d', h⟩
    obtain ⟨hdollar, e, he, -⟩ := (applyUpdate_single hop hpath).1 h
    exact ⟨hdollar, e, he⟩
  · rintro ⟨hdollar, e, he⟩
    exact ⟨_, (applyUpdate_single hop hpath).2 ⟨hdollar, e, he, rfl⟩⟩

/-- The operators that write a value at their path. -/
def writingOperators : List Text :=
  ["$set", "$inc", "$push", "$addToSet", "$pull"].map String.toList

/-- What such an operator does is a write. -/
lemma effect_of_writing {op : Text} (hop : op ∈ writingOperators) {existing : Option Value}
    {arg : Value} {e : PathEffect} (he : operatorEffect op existing arg = some e) :
    ∃ v, e = .set v := by
  rcases effect_cases he with hset | ⟨-, rfl⟩ | ⟨-, rfl, -⟩
  · exact hset
  · exact absurd hop (by decide)
  · exact absurd hop (by decide)

/-- A writing operator is one. -/
lemma isOperatorName_of_writing {op : Text} (hop : op ∈ writingOperators) :
    isOperatorName op = true := by
  revert hop op
  decide

/-- **Writing below a scalar.**  A writing operator leaves every leaf that is neither at its path
nor below it, and fails where a scalar is above its path, unless there is such a scalar and the
operator does not refuse the path, its argument or what is at the path. -/
theorem writes_below_iff {op name : Text} {path : Path} (hop : op ∈ writingOperators)
    (hpath : splitPath name = .ok path) (d : Doc) (arg : Value) :
    ((∀ d', applyUpdate d (singleUpdate op name arg) = .ok d' →
        ∀ q x, Leaf d q x → ¬ path <+: q → Leaf d' q x) ∧
      (ScalarAbove d path → ∃ e, applyUpdate d (singleUpdate op name arg) = .error e)) ↔
    ¬ (ScalarAbove d path ∧ "$".toList ∉ path ∧
      operatorChecks op (pathGet d path) arg = true) := by
  have hname := isOperatorName_of_writing hop
  rw [← applyUpdate_single_succeeds hname hpath]
  constructor
  · rintro ⟨-, hfails⟩ ⟨habove, d', hd'⟩
    obtain ⟨e, he⟩ := hfails habove
    rw [hd'] at he
    cases he
  · intro hnot
    have hfails (habove : ScalarAbove d path) :
        ∃ e, applyUpdate d (singleUpdate op name arg) = .error e := by
      cases hupdate : applyUpdate d (singleUpdate op name arg) with
      | ok d' => exact absurd ⟨habove, d', hupdate⟩ hnot
      | error e => exact ⟨e, rfl⟩
    refine ⟨fun d' hd' => ?_, hfails⟩
    obtain ⟨-, e, he, rfl⟩ := (applyUpdate_single hname hpath).1 hd'
    obtain ⟨v, rfl⟩ := effect_of_writing hop he
    exact pathSet_keeps_iff.2 fun habove => hnot ⟨habove, _, hd'⟩

/-- A path that stays among documents. -/
theorem writes_below_iff_document :
    Leaf [("a".toList, .document [("c".toList, .int32 7), ("b".toList, .int32 1)])]
      ["a".toList, "c".toList] (.int32 7) := by
  have hsplit : splitPath "a.b".toList = .ok ["a".toList, "b".toList] := by decide
  have hwriting : "$set".toList ∈ writingOperators := by decide
  have hiff := writes_below_iff hwriting hsplit
    [("a".toList, .document [("c".toList, .int32 7)])] (.int32 1)
  have hleaf : Leaf [("a".toList, .document [("c".toList, .int32 7)])] ["a".toList, "c".toList]
      (.int32 7) :=
    ⟨holdsAt_cons.2 ⟨_, List.mem_singleton_self _, (holds_cons rfl).2
      (holdsAt_cons.2 ⟨_, List.mem_singleton_self _, rfl⟩)⟩, rfl⟩
  refine (hiff.2 ?_).1 _ (by decide) _ _ hleaf (by decide)
  rintro ⟨⟨q, x, hleads, hne, hheld, hscalar⟩, -⟩
  have hinits : q ∈ ["a".toList, "b".toList].inits := (List.mem_inits _ _).2 hleads
  simp only [List.inits, List.map_cons, List.map_nil, List.mem_cons, List.not_mem_nil,
    or_false] at hinits
  rcases hinits with rfl | rfl | rfl
  · obtain rfl : Value.document _ = x := hheld
    cases hscalar
  · obtain ⟨y, hy, rfl⟩ := holdsAt_cons.1 hheld
    obtain rfl := (Prod.mk.inj (List.mem_singleton.1 hy)).2
    cases hscalar
  · exact hne rfl

/-- A scalar above the path is lost. -/
theorem write_replaces_scalar :
    Leaf [("a".toList, .int32 5)] ["a".toList] (.int32 5) ∧
      ¬ ["a".toList, "b".toList] <+: ["a".toList] ∧
      applyUpdate [("a".toList, .int32 5)] (singleUpdate "$set".toList "a.b".toList (.int32 1)) =
        .ok [("a".toList, .document [("b".toList, .int32 1)])] ∧
      ¬ Leaf [("a".toList, .document [("b".toList, .int32 1)])] ["a".toList] (.int32 5) := by
  refine ⟨⟨holdsAt_cons.2 ⟨.int32 5, by decide, rfl⟩, rfl⟩, by decide, by decide, ?_⟩
  rintro ⟨hheld, -⟩
  obtain ⟨y, hy, rfl⟩ := holdsAt_cons.1 hheld
  exact absurd hy (by decide)

/-! ## Removing what is not there -/

/-- The operators that remove. -/
def removingOperators : List Text := ["$unset", "$pull", "$pop"].map String.toList

/-- A removing operator is one. -/
lemma isOperatorName_of_removing {op : Text} (hop : op ∈ removingOperators) :
    isOperatorName op = true := by
  revert hop op
  decide

/-- **Removing what is not there.**  A removing operator on a path where nothing is read leaves the
document as it is exactly when it is not `$pull`, which writes an empty array there, and not an
`$unset` of a value that is held there behind a repeated name. -/
theorem removal_of_absent_iff {op name : Text} {path : Path} (hop : op ∈ removingOperators)
    (hpath : splitPath name = .ok path) {d d' : Doc} {arg : Value} (habsent : pathGet d path = none)
    (h : applyUpdate d (singleUpdate op name arg) = .ok d') :
    d' = d ↔ op ≠ "$pull".toList ∧ (op = "$unset".toList → ∀ x, ¬ HoldsAt d path x) := by
  have hpos : path ≠ [] := by
    rw [splitPath_eq_ok hpath]
    exact splitDots_ne_nil name
  obtain ⟨-, e, he, rfl⟩ := (applyUpdate_single (isOperatorName_of_removing hop) hpath).1 h
  rw [habsent] at he
  simp only [removingOperators, List.map_cons, List.map_nil, List.mem_cons, List.not_mem_nil,
    or_false] at hop
  rcases hop with rfl | rfl | rfl
  · obtain rfl := Option.some.inj he
    have hne : "$unset".toList ≠ "$pull".toList := by decide
    simp only [PathEffect.apply, pathUnset_eq_self_iff hpos, hne, ne_eq, not_false_eq_true,
      true_and, forall_const]
  · obtain ⟨v, rfl⟩ := effect_of_writing (by decide) he
    refine iff_of_false (fun heq => ?_) fun hnot => hnot.1 rfl
    have hget := pathGet_pathSet d hpos v
    rw [show pathSet d path v = d from heq, habsent] at hget
    cases hget
  · obtain rfl := Option.some.inj he
    refine iff_of_true rfl ⟨by decide, fun heq => ?_⟩
    exact absurd heq (by decide)

/-- Popping from a path through a scalar. -/
theorem removal_of_absent_iff_pop :
    applyUpdate [("a".toList, .int32 5)] (singleUpdate "$pop".toList "a.b".toList (.int32 1)) =
      .ok [("a".toList, .int32 5)] := by
  have hsplit : splitPath "a.b".toList = .ok ["a".toList, "b".toList] := by decide
  have hupdate : ∃ d', applyUpdate [("a".toList, .int32 5)]
      (singleUpdate "$pop".toList "a.b".toList (.int32 1)) = .ok d' := ⟨_, rfl⟩
  obtain ⟨d', hd'⟩ := hupdate
  have hsame := (removal_of_absent_iff (by decide) hsplit (by decide) hd').2
    ⟨by decide, fun heq => absurd heq (by decide)⟩
  rw [hd', hsame]

/-- Pulling from a field that is not there creates it. -/
theorem pull_creates_field :
    pathGet [("_id".toList, .int32 1)] ["tags".toList] = none ∧
      applyUpdate [("_id".toList, .int32 1)]
          (singleUpdate "$pull".toList "tags".toList (.utf8 "x".toList)) =
        .ok [("_id".toList, .int32 1), ("tags".toList, .array [])] ∧
      [("_id".toList, .int32 1), ("tags".toList, .array [])] ≠
        [("_id".toList, Value.int32 1)] := by
  decide

end Chimera

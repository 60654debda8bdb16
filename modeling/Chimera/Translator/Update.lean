import Chimera.Translator.Bson

/-!
# Update documents

`apply_update` rewrites a document in memory.  An update is either a document of operators, each
with the paths it applies to, or a replacement.
-/

namespace Chimera

/-- The name starts with a dollar sign. -/
def isOperatorName (name : Text) : Bool := name.head? = some '$'

/-- `current_array`: the elements at a path, none where nothing is there. -/
def currentArray (doc : Doc) (path : Path) (op : Text) : Except TranslatorError (List Value) :=
  match pathGet doc path with
  | none => .ok []
  | some (.array fields) => .ok (fields.map Prod.snd)
  | some _ => .error (typeMismatch
    (op ++ " requires an array at '".toList ++ toJsonPath path ++ "'".toList))

/-- `each_values`: a bare value, or the elements of `{$each: […]}`. -/
def eachValues : Value → Except TranslatorError (List Value)
  | .document fields =>
    match findField fields "$each".toList with
    | some each => arrayValues each
    | none =>
      match fields.find? fun field => isOperatorName field.1 with
      | some field => .error (failedToParse ("Unknown modifier: ".toList ++ field.1))
      | none => .ok [.document fields]
  | spec => .ok [spec]

/-- `set_array`. -/
def setArray (doc : Doc) (path : Path) (elements : List Value) : Doc :=
  pathSet doc path (.array (makeArray elements))

/-- `static_cast<int64_t>` of a double; out of range the x86-64 conversion yields the smallest
integer. -/
def castInt64 (d : Binary64) : Int64 :=
  if d.isFinite ∧ -9223372036854775808 ≤ d.truncate ∧ d.truncate < 9223372036854775808 then
    Int64.ofInt d.truncate
  else Int64.minValue

/-- What `$inc` makes of the value at its path: integers are summed as doubles and cast back. -/
def incremented (existing : Option Value) (arg : Value) : Value :=
  let sum := Binary64.add ((existing.map Value.toDouble).getD (Binary64.ofInt 0)) arg.toDouble
  let isDouble : Value → Bool
    | .double _ => true
    | _ => false
  if !(existing.any isDouble) && !isDouble arg then .int64 (castInt64 sum) else .double sum

/-- Add the candidates that are not present, one after the other. -/
def addToSet (elements candidates : List Value) : List Value :=
  candidates.foldl (fun elements candidate =>
    if elements.any fun e => valueEqual e candidate then elements else elements ++ [candidate])
    elements

/-- `apply_one`: one operator on one path. -/
def applyOne (op : Text) (doc : Doc) (path : Path) (arg : Value) : Except TranslatorError Doc :=
  if op = "$set".toList then .ok (pathSet doc path arg)
  else if op = "$unset".toList then .ok (pathUnset doc path)
  else if op = "$inc".toList then
    if !valueIsNumeric arg then
      .error (typeMismatch "$inc requires a numeric argument".toList)
    else
      let existing := pathGet doc path
      if existing.any fun v => !valueIsNumeric v then
        .error (typeMismatch
          ("$inc target '".toList ++ toJsonPath path ++ "' is not a number".toList))
      else .ok (pathSet doc path (incremented existing arg))
  else if op = "$push".toList then do
    let elements ← currentArray doc path "$push".toList
    let values ← eachValues arg
    return setArray doc path (elements ++ values)
  else if op = "$addToSet".toList then do
    let elements ← currentArray doc path "$addToSet".toList
    let candidates ← eachValues arg
    return setArray doc path (addToSet elements candidates)
  else if op = "$pull".toList then
    match arg with
    | .document _ =>
      .error (notImplemented "$pull with a condition document is not supported yet".toList)
    | arg => do
      let elements ← currentArray doc path "$pull".toList
      return setArray doc path (elements.filter fun e => !valueEqual e arg)
  else if op = "$pop".toList then do
    let elements ← currentArray doc path "$pop".toList
    if elements.isEmpty then return doc
    else if valueIsNumeric arg && arg.toDouble.numLt (Binary64.ofInt 0) then
      return setArray doc path elements.tail
    else return setArray doc path elements.dropLast
  else .error (failedToParse ("Unknown modifier: ".toList ++ op))

/-- `apply_operator`: one operator, path after path. -/
def applyOperator (op : Text) (doc : Doc) : Doc → Except TranslatorError Doc
  | [] => .ok doc
  | (name, arg) :: spec => do
    let path ← splitPath name
    if path.contains "$".toList then
      throw (notImplemented "the positional '$' operator is not supported yet".toList)
    let doc ← applyOne op doc path arg
    applyOperator op doc spec

/-- All operators of an update document, one after the other. -/
def applyOperators (doc : Doc) : Doc → Except TranslatorError Doc
  | [] => .ok doc
  | (op, .document spec) :: rest => do
    let doc ← applyOperator op doc spec
    applyOperators doc rest
  | (op, _) :: _ => .error (failedToParse
    ("update operator '".toList ++ op ++ "' expects a document".toList))

/-- The field mixes operators with replacement fields: it differs from the one before it. -/
def mixesOperators : Doc → Bool
  | first :: second :: rest =>
    isOperatorName first.1 != isOperatorName second.1 || mixesOperators (second :: rest)
  | _ => false

/-- The update is a document of operators. -/
def hasOperators (update : Doc) : Bool :=
  (update.getLast?.map fun f => isOperatorName f.1).getD false

/-- A replacement: the new fields, with the old `_id` in front when there is one. -/
def replacement (doc update : Doc) : Doc :=
  match findField doc "_id".toList with
  | some id => ("_id".toList, id) :: update.filter fun field => !decide (field.1 = "_id".toList)
  | none => update

/-- `apply_update`. -/
def applyUpdate (doc update : Doc) : Except TranslatorError Doc :=
  if mixesOperators update then
    .error (failedToParse "update document mixes operators with replacement fields".toList)
  else if !hasOperators update then .ok (replacement doc update)
  else applyOperators doc update

/-! ## What one operator does -/

/-- What an operator does to the document at its path. -/
inductive PathEffect where
  | keep
  | set (value : Value)
  | unset
deriving DecidableEq

/-- The document afterwards. -/
def PathEffect.apply (doc : Doc) (path : Path) : PathEffect → Doc
  | .keep => doc
  | .set value => pathSet doc path value
  | .unset => pathUnset doc path

/-- The elements of the array that the operators for arrays find, if they accept what is there. -/
def arrayElements : Option Value → Option (List Value)
  | none => some []
  | some (.array fields) => some (fields.map Prod.snd)
  | some _ => none

/-- What an operator does, given what is at its path; nothing when it refuses its argument or what
is there. -/
def operatorEffect (op : Text) (existing : Option Value) (arg : Value) : Option PathEffect :=
  if op = "$set".toList then some (.set arg)
  else if op = "$unset".toList then some .unset
  else if op = "$inc".toList then
    if valueIsNumeric arg && !existing.any fun v => !valueIsNumeric v then
      some (.set (incremented existing arg))
    else none
  else if op = "$push".toList then do
    let elements ← arrayElements existing
    let values ← (eachValues arg).toOption
    return .set (.array (makeArray (elements ++ values)))
  else if op = "$addToSet".toList then do
    let elements ← arrayElements existing
    let candidates ← (eachValues arg).toOption
    return .set (.array (makeArray (addToSet elements candidates)))
  else if op = "$pull".toList then
    match arg with
    | .document _ => none
    | arg => do
      let elements ← arrayElements existing
      return .set (.array (makeArray (elements.filter fun e => !valueEqual e arg)))
  else if op = "$pop".toList then do
    let elements ← arrayElements existing
    if elements.isEmpty then return .keep
    else if valueIsNumeric arg && arg.toDouble.numLt (Binary64.ofInt 0) then
      return .set (.array (makeArray elements.tail))
    else return .set (.array (makeArray elements.dropLast))
  else none

/-- What an operator can do: write, remove or, with nothing to pop, leave everything. -/
lemma effect_cases {op : Text} {existing : Option Value} {arg : Value} {e : PathEffect}
    (h : operatorEffect op existing arg = some e) :
    (∃ v, e = .set v) ∨ (e = .unset ∧ op = "$unset".toList) ∨
      (e = .keep ∧ op = "$pop".toList ∧ arrayElements existing = some []) := by
  unfold operatorEffect at h
  by_cases hset : op = "$set".toList
  · rw [if_pos hset] at h
    exact .inl ⟨arg, (Option.some.inj h).symm⟩
  rw [if_neg hset] at h
  by_cases hunset : op = "$unset".toList
  · rw [if_pos hunset] at h
    exact .inr (.inl ⟨(Option.some.inj h).symm, hunset⟩)
  rw [if_neg hunset] at h
  by_cases hinc : op = "$inc".toList
  · rw [if_pos hinc] at h
    split at h
    · exact .inl ⟨_, (Option.some.inj h).symm⟩
    · cases h
  rw [if_neg hinc] at h
  by_cases hpush : op = "$push".toList
  · rw [if_pos hpush] at h
    obtain ⟨elements, -, h⟩ := Option.bind_eq_some_iff.1 h
    obtain ⟨values, -, h⟩ := Option.bind_eq_some_iff.1 h
    exact .inl ⟨_, (Option.some.inj h).symm⟩
  rw [if_neg hpush] at h
  by_cases hadd : op = "$addToSet".toList
  · rw [if_pos hadd] at h
    obtain ⟨elements, -, h⟩ := Option.bind_eq_some_iff.1 h
    obtain ⟨values, -, h⟩ := Option.bind_eq_some_iff.1 h
    exact .inl ⟨_, (Option.some.inj h).symm⟩
  rw [if_neg hadd] at h
  by_cases hpull : op = "$pull".toList
  · rw [if_pos hpull] at h
    split at h
    · cases h
    · obtain ⟨elements, -, h⟩ := Option.bind_eq_some_iff.1 h
      exact .inl ⟨_, (Option.some.inj h).symm⟩
  rw [if_neg hpull] at h
  by_cases hpop : op = "$pop".toList
  · rw [if_pos hpop] at h
    obtain ⟨elements, helements, h⟩ := Option.bind_eq_some_iff.1 h
    split at h
    · next hempty =>
      obtain rfl := List.isEmpty_iff.1 hempty
      exact .inr (.inr ⟨(Option.some.inj h).symm, hpop, helements⟩)
    · split at h <;> exact .inl ⟨_, (Option.some.inj h).symm⟩
  rw [if_neg hpop] at h
  cases h

/-- What a computation that reads the elements at a path makes of them. -/
lemma currentArray_bind (doc : Doc) (path : Path) (op : Text)
    (f : List Value → Except TranslatorError Doc) :
    (currentArray doc path op >>= f).toOption =
      (arrayElements (pathGet doc path)).bind fun elements => (f elements).toOption := by
  unfold currentArray
  cases pathGet doc path with
  | none => rfl
  | some v => cases v <;> rfl

/-- What a computation that reads the values of `$each` makes of them. -/
lemma eachValues_bind (arg : Value) (f : List Value → Except TranslatorError Doc) :
    (eachValues arg >>= f).toOption = (eachValues arg).toOption.bind fun vs => (f vs).toOption := by
  cases eachValues arg <;> rfl

/-- **One operator.**  An operator depends on the document only through what is at its path, and
changes it only there. -/
theorem applyOne_toOption (op : Text) (doc : Doc) (path : Path) (arg : Value) :
    (applyOne op doc path arg).toOption =
      (operatorEffect op (pathGet doc path) arg).map (PathEffect.apply doc path) := by
  unfold applyOne operatorEffect
  by_cases hset : op = "$set".toList
  · rw [if_pos hset, if_pos hset]
    rfl
  rw [if_neg hset, if_neg hset]
  by_cases hunset : op = "$unset".toList
  · rw [if_pos hunset, if_pos hunset]
    rfl
  rw [if_neg hunset, if_neg hunset]
  by_cases hinc : op = "$inc".toList
  · rw [if_pos hinc, if_pos hinc]
    cases hnumeric : valueIsNumeric arg with
    | false => rfl
    | true =>
      dsimp only
      cases hany : (pathGet doc path).any fun v => !valueIsNumeric v <;> rfl
  rw [if_neg hinc, if_neg hinc]
  by_cases hpush : op = "$push".toList
  · rw [if_pos hpush, if_pos hpush, currentArray_bind]
    cases arrayElements (pathGet doc path) with
    | none => rfl
    | some elements =>
      rw [Option.bind_some, eachValues_bind]
      cases (eachValues arg).toOption <;> rfl
  rw [if_neg hpush, if_neg hpush]
  by_cases hadd : op = "$addToSet".toList
  · rw [if_pos hadd, if_pos hadd, currentArray_bind]
    cases arrayElements (pathGet doc path) with
    | none => rfl
    | some elements =>
      rw [Option.bind_some, eachValues_bind]
      cases (eachValues arg).toOption <;> rfl
  rw [if_neg hadd, if_neg hadd]
  by_cases hpull : op = "$pull".toList
  · rw [if_pos hpull, if_pos hpull]
    split
    · rfl
    · rw [currentArray_bind]
      cases arrayElements (pathGet doc path) <;> rfl
  rw [if_neg hpull, if_neg hpull]
  by_cases hpop : op = "$pop".toList
  · rw [if_pos hpop, if_pos hpop, currentArray_bind]
    cases arrayElements (pathGet doc path) with
    | none => rfl
    | some elements =>
      rw [Option.bind_some]
      change _ = (ite _ _ _ : Option PathEffect).map _
      split
      · rfl
      · split <;> rfl
  rw [if_neg hpop, if_neg hpop]
  rfl

/-- An operator that succeeds. -/
lemma applyOne_eq_ok {op : Text} {doc doc' : Doc} {path : Path} {arg : Value} :
    applyOne op doc path arg = .ok doc' ↔
      ∃ e, operatorEffect op (pathGet doc path) arg = some e ∧ e.apply doc path = doc' := by
  have hoption : applyOne op doc path arg = .ok doc' ↔
      (applyOne op doc path arg).toOption = some doc' := by
    cases applyOne op doc path arg <;> simp [Except.toOption]
  rw [hoption, applyOne_toOption, Option.map_eq_some_iff]

/-- An operator goes on to the next path when it succeeds on the first. -/
lemma applyOperator_cons {op name : Text} {arg : Value} {doc doc' spec : Doc} :
    applyOperator op doc ((name, arg) :: spec) = .ok doc' ↔
      ∃ path, splitPath name = .ok path ∧ "$".toList ∉ path ∧
        ∃ next, applyOne op doc path arg = .ok next ∧ applyOperator op next spec = .ok doc' := by
  rw [applyOperator, except_bind_eq_ok]
  refine exists_congr fun path => and_congr_right fun _ => ?_
  by_cases hdollar : "$".toList ∈ path
  · rw [if_pos (List.contains_iff_mem.2 hdollar)]
    constructor
    · intro h
      cases h
    · rintro ⟨hnot, -⟩
      exact absurd hdollar hnot
  · rw [if_neg fun h => hdollar (List.contains_iff_mem.1 h), except_bind_eq_ok]
    exact ⟨fun h => ⟨hdollar, h⟩, And.right⟩

/-- The next operator goes on where the first leaves the document. -/
lemma applyOperators_cons {op : Text × Value} {doc doc' rest : Doc} :
    applyOperators doc (op :: rest) = .ok doc' ↔
      ∃ spec, op.2 = .document spec ∧
        ∃ next, applyOperator op.1 doc spec = .ok next ∧ applyOperators next rest = .ok doc' := by
  obtain ⟨name, v⟩ := op
  cases v with
  | document spec =>
    rw [applyOperators, except_bind_eq_ok]
    constructor
    · rintro ⟨next, hnext, hrest⟩
      exact ⟨spec, rfl, next, hnext, hrest⟩
    · rintro ⟨_, heq, next, hnext, hrest⟩
      obtain rfl := Value.document.inj heq
      exact ⟨next, hnext, hrest⟩
  | _ =>
    constructor
    · intro h
      cases h
    · rintro ⟨_, heq, -⟩
      cases heq

/-! ## What an update leaves alone -/

/-- No operator of the update has a path that begins with the name. -/
def updateAvoids (name : Text) (update : Doc) : Bool :=
  !hasOperators update || update.all fun op =>
    match op.2 with
    | .document spec => spec.all fun field => !decide ((splitDots field.1).head? = some name)
    | _ => true

/-- An operator leaves the fields outside its path alone. -/
lemma findField_applyOne {op : Text} {doc doc' : Doc} {path : Path} {arg : Value} {name : Text}
    (hpath : path.head? ≠ some name) (h : applyOne op doc path arg = .ok doc') :
    findField doc' name = findField doc name := by
  obtain ⟨e, -, rfl⟩ := applyOne_eq_ok.1 h
  cases e with
  | keep => rfl
  | set value => exact findField_pathSet_of_ne hpath
  | unset => exact findField_pathUnset_of_ne hpath

/-- An operator leaves the fields outside all its paths alone. -/
lemma findField_applyOperator {op : Text} {doc doc' : Doc} {name : Text} {spec : Doc}
    (hspec : ∀ field ∈ spec, (splitDots field.1).head? ≠ some name)
    (h : applyOperator op doc spec = .ok doc') : findField doc' name = findField doc name := by
  induction spec generalizing doc with
  | nil =>
    obtain rfl := Except.ok.inj h
    rfl
  | cons field spec ih =>
    obtain ⟨path, hpath, -, next, hone, hrest⟩ := applyOperator_cons.1 h
    obtain rfl := splitPath_eq_ok hpath
    rw [ih (fun f hf => hspec f (List.mem_cons_of_mem _ hf)) hrest]
    exact findField_applyOne (hspec field List.mem_cons_self) hone

/-- An update document leaves the fields outside all its paths alone. -/
lemma findField_applyOperators {doc doc' : Doc} {name : Text} {update : Doc}
    (hupdate : ∀ op ∈ update, ∀ spec, op.2 = .document spec →
      ∀ field ∈ spec, (splitDots field.1).head? ≠ some name)
    (h : applyOperators doc update = .ok doc') : findField doc' name = findField doc name := by
  induction update generalizing doc with
  | nil =>
    obtain rfl := Except.ok.inj h
    rfl
  | cons op rest ih =>
    obtain ⟨spec, hspec, next, hop, hrest⟩ := applyOperators_cons.1 h
    rw [ih (fun o ho => hupdate o (List.mem_cons_of_mem _ ho)) hrest]
    exact findField_applyOperator (hupdate op List.mem_cons_self spec hspec) hop

/-- The paths of an update that avoids a name. -/
lemma paths_of_updateAvoids {name : Text} {update : Doc} (h : updateAvoids name update = true)
    (hops : hasOperators update = true) :
    ∀ op ∈ update, ∀ spec, op.2 = .document spec →
      ∀ field ∈ spec, (splitDots field.1).head? ≠ some name := by
  intro op hop spec hspec field hfield
  simp only [updateAvoids, hops, Bool.not_true, Bool.false_or, List.all_eq_true] at h
  have hall := h op hop
  rw [hspec] at hall
  simpa using List.all_eq_true.1 hall field hfield

/-- A replacement takes the old `_id` along. -/
lemma findField_replacement {doc update : Doc} {id : Value}
    (hid : findField doc "_id".toList = some id) :
    findField (replacement doc update) "_id".toList = some id := by
  rw [replacement, hid]
  exact (findField_cons _ _ _ _).trans (if_pos rfl)

/-- **The `_id` is kept.**  An update whose operators avoid `_id` leaves the `_id` as it is. -/
theorem findField_id_applyUpdate {doc doc' update : Doc} {id : Value}
    (havoids : updateAvoids "_id".toList update = true)
    (hid : findField doc "_id".toList = some id) (h : applyUpdate doc update = .ok doc') :
    findField doc' "_id".toList = some id := by
  unfold applyUpdate at h
  split at h
  · cases h
  split at h
  · obtain rfl := Except.ok.inj h
    exact findField_replacement hid
  · rename_i hops
    rw [findField_applyOperators (paths_of_updateAvoids havoids (by simpa using hops)) h]
    exact hid

end Chimera

import Chimera.Plugin.ReadCommands
import Chimera.Translator.SortOrder
import Chimera.Translator.Stages

/-!
# Equal values and tied values

`value_equal`, by which `distinct` and `$group` tell values apart, and `compare_values`, by which
they are sorted, agree on the values built of certain scalars exactly when no two of these values
that tie differ.  For `value_equal` looks at the bytes of documents and arrays, where two numbers of
one double, binary data of two subtypes, null and undefined, and the keys of arrays are different;
and values of some types, and NaN, are not equal to themselves.
-/

namespace Chimera

open Comparison Representatives

variable {P : Value → Prop} {K : List Text → Prop}

/-! ## Values that tie only with themselves -/

/-- The value is of a type that `value_equal` has a case for, and not NaN. -/
def Value.isComparable : Value → Bool
  | .double d => !d.isNaN
  | .decimal128 _ | .regex _ _ | .code _ | .codeWScope _ _ | .dbPointer _ _ | .symbol _ => false
  | _ => true

/-- `value_equal` looks at something in the values that are comparable. -/
lemma compared_isSome_iff {v : Value} : v.compared.isSome = v.isComparable := by
  cases v with
  | int32 n | int64 n =>
    rw [compared_of_isNumeric rfl, toDouble_of_ok rfl, Binary64.isNaN_ofInt]
    rfl
  | double d =>
    rw [compared_of_isNumeric rfl, toDouble_of_ok rfl]
    cases h : d.isNaN <;> simp [Value.isComparable, h]
  | _ => rfl

/-- No two values that are built of scalars of a class tie and differ. -/
structure OneForm (P : Value → Prop) (K : List Text → Prop) : Prop where
  /-- There is no NaN, and no value of a type that is not compared. -/
  comparable : ∀ v, P v → v.subdocument = none → v.isComparable = true
  /-- There is one number of each double. -/
  number : ∀ a b, P a → P b → valueIsNumeric a = true → valueIsNumeric b = true →
    a.toDouble.units = b.toDouble.units → a = b
  /-- There are no binary data of the same bytes and two subtypes. -/
  subtype : ∀ s t data, P (.binary s data) → P (.binary t data) → s = t
  /-- There are not both null and undefined. -/
  null : ¬ (P .null ∧ P .undefined)
  /-- Arrays of the same length have the same keys. -/
  keys : ∀ ks ls, K ks → K ls → ks.length = ls.length → ks = ls

/-- Numbers that can be compared are numbers. -/
lemma isNaN_of_comparable {v : Value} (hn : valueIsNumeric v = true) (h : v.isComparable = true) :
    v.toDouble.isNaN = false := by
  cases v with
  | int32 n | int64 n => rw [toDouble_of_ok rfl, Binary64.isNaN_ofInt]
  | double d => simpa [toDouble_of_ok (v := .double d) rfl, Value.isComparable] using h
  | _ => cases hn

/-- Numbers that can be compared tie when they have one double. -/
lemma tie_number {a b : Value} (ha : valueIsNumeric a = true) (hb : valueIsNumeric b = true)
    (hca : a.isComparable = true) (hcb : b.isComparable = true) :
    compareValues a b = .ok 0 ↔ a.toDouble.units = b.toDouble.units := by
  rw [compareValues_number ha hb, Except.ok.injEq]
  simp only [Binary64.numLt, isNaN_of_comparable ha hca, isNaN_of_comparable hb hcb,
    orderSign_decide, Bool.not_false, Bool.true_and]
  rcases lt_trichotomy a.toDouble.units b.toDouble.units with h | h | h
  · simp [h, h.ne]
  · simp [h]
  · simp [h, h.not_gt, h.ne']

/-- A key tells two values apart that it orders. -/
lemma byKey_tie {α β : Type} [LinearOrder β] {key : α → β} {a b : α} :
    (byKey key a b : Except TranslatorError ℤ) = .ok 0 ↔ key a = key b := by
  unfold byKey
  rcases lt_trichotomy (key a) (key b) with h | h | h
  · simp [h, h.ne]
  · simp [h]
  · simp [h, h.not_gt, h.ne']

/-- Dates tie when they are the same. -/
lemma tie_date {a b : Int64} : compareValues (.dateTime a) (.dateTime b) = .ok 0 ↔ a = b := by
  have ha := a.le_toInt
  have hb := b.le_toInt
  have ha' := a.toInt_lt
  have hb' := b.toInt_lt
  rw [compareValues_date, Except.ok.injEq, ← Int64.toInt_inj, circleSign]
  constructor
  · intro h
    split_ifs at h <;> omega
  · intro h
    split_ifs <;> omega

/-- Ids, and timestamps, have different ordinals. -/
lemma tie_ordinal {a b : Value} (h : typeRank a = typeRank b)
    (hrank : typeRank a = 7 ∨ typeRank a = 8 ∨ typeRank a = 10) :
    compareValues a b = .ok 0 ↔ a = b := by
  have hmem : typeRank a ∈ [0, 1, 7, 8, 10, 12] := by
    rcases hrank with h | h | h <;> rw [h] <;> decide
  rw [compareValues_ordinal h hmem, byKey_tie]
  refine ⟨fun heq => ?_, fun heq => heq ▸ rfl⟩
  cases a with
  | oid x =>
    cases b with
    | oid y => exact congrArg Value.oid (BitVec.toNat_inj.1 heq)
    | _ => cases h
  | bool x =>
    cases b with
    | bool y => cases x <;> cases y <;> first | rfl | cases heq
    | _ => cases h
  | timestamp t i =>
    cases b with
    | timestamp u j =>
      have hi := i.toNat_lt
      have hj := j.toNat_lt
      simp only [Value.ordinal] at heq
      rw [Value.timestamp.injEq, ← UInt32.toNat_inj, ← UInt32.toNat_inj]
      omega
    | _ => cases h
  | _ => rcases hrank with h | h | h <;> cases h

/-- Scalars that are not numbers are the same when they tie. -/
lemma tie_not_number (h : OneForm P K) {a b : Value} (ha : P a) (hb : P b)
    (hna : a.subdocument = none) (hnb : b.subdocument = none) (hrank : typeRank a = typeRank b)
    (hnumeric : valueIsNumeric a = false) : compareValues a b = .ok 0 ↔ a = b := by
  have hca := h.comparable a ha hna
  have hcb := h.comparable b hb hnb
  cases a with
  | int32 _ | int64 _ | double _ => cases hnumeric
  | decimal128 _ | regex _ _ | code _ | codeWScope _ _ | dbPointer _ _ | symbol _ => cases hca
  | document _ | array _ => cases hna
  | minKey | maxKey =>
    cases b with
    | minKey | maxKey => first | exact iff_of_true rfl rfl | cases hrank
    | _ => cases hrank
  | null =>
    cases b with
    | null => exact iff_of_true rfl rfl
    | undefined => exact absurd ⟨ha, hb⟩ h.null
    | _ => cases hrank
  | undefined =>
    cases b with
    | undefined => exact iff_of_true rfl rfl
    | null => exact absurd ⟨hb, ha⟩ h.null
    | _ => cases hrank
  | utf8 s =>
    cases b with
    | utf8 t =>
      change Except.ok (compareBytes s t) = _ ↔ _
      rw [Except.ok.injEq, compareBytes_eq_zero_iff, Value.utf8.injEq]
    | symbol _ => cases hcb
    | _ => cases hrank
  | binary s x =>
    cases b with
    | binary t y =>
      change Except.ok (compareBytes x y) = _ ↔ _
      rw [Except.ok.injEq, compareBytes_eq_zero_iff, Value.binary.injEq]
      refine ⟨?_, And.right⟩
      rintro rfl
      exact ⟨h.subtype s t x ha hb, rfl⟩
    | _ => cases hrank
  | dateTime a =>
    cases b with
    | dateTime b => rw [tie_date, Value.dateTime.injEq]
    | _ => cases hrank
  | oid _ => exact tie_ordinal hrank (.inl rfl)
  | bool _ => exact tie_ordinal hrank (.inr (.inl rfl))
  | timestamp _ _ => exact tie_ordinal hrank (.inr (.inr rfl))

/-- Scalars that tie are the same. -/
lemma tie_scalar (h : OneForm P K) {a b : Value} (ha : P a) (hb : P b)
    (hna : a.subdocument = none) (hnb : b.subdocument = none) :
    compareValues a b = .ok 0 ↔ a = b := by
  by_cases hrank : typeRank a = typeRank b
  · cases hnumeric : valueIsNumeric a with
    | false => exact tie_not_number h ha hb hna hnb hrank hnumeric
    | true =>
      have hca := h.comparable a ha hna
      have hcb := h.comparable b hb hnb
      have hnumeric' : valueIsNumeric b = true := by
        cases a with
        | int32 _ | int64 _ | double _ =>
          cases b with
          | int32 _ | int64 _ | double _ => rfl
          | decimal128 _ => cases hcb
          | _ => cases hrank
        | _ => cases hnumeric
      rw [tie_number hnumeric hnumeric' hca hcb]
      exact ⟨h.number a b ha hb hnumeric hnumeric', fun heq => heq ▸ rfl⟩
  · rw [compareValues_of_rank_ne hrank, byKey_tie]
    exact ⟨fun heq => absurd heq hrank, fun heq => heq ▸ rfl⟩

/-- Only documents are ranked with the documents, and arrays with the arrays. -/
lemma rank_of_scalar (h : OneForm P K) {v : Value} (hv : P v) (hnone : v.subdocument = none) :
    typeRank v ≠ 4 ∧ typeRank v ≠ 5 := by
  have hc := h.comparable v hv hnone
  cases v with
  | document _ | array _ => cases hnone
  | code _ | codeWScope _ _ | dbPointer _ _ => cases hc
  | _ => exact ⟨Nat.ne_of_beq_eq_false rfl, Nat.ne_of_beq_eq_false rfl⟩

/-- Values of different ranks differ and do not tie. -/
lemma tie_of_rank {a b : Value}
    (h : typeRank a = typeRank b → (compareValues a b = .ok 0 ↔ a = b)) :
    compareValues a b = .ok 0 ↔ a = b := by
  by_cases hrank : typeRank a = typeRank b
  · exact h hrank
  · rw [compareValues_of_rank_ne hrank, byKey_tie]
    exact ⟨fun heq => absurd heq hrank, fun heq => heq ▸ rfl⟩

/-- **Ties.**  Of values with one form each, only the same ones tie. -/
theorem tie_iff_eq (h : OneForm P K) {a b : Value} (ha : a.Over P K) (hb : b.Over P K) :
    compareValues a b = .ok 0 ↔ a = b := by
  induction ha generalizing b with
  | scalar hna hPa =>
    have hne := rank_of_scalar h hPa hna
    refine tie_of_rank fun hrank => ?_
    cases hb with
    | scalar hnb hPb => exact tie_scalar h hPa hPb hna hnb
    | document _ => exact absurd hrank hne.1
    | array _ _ => exact absurd hrank hne.2
  | @document as has ih =>
    refine tie_of_rank fun hrank => ?_
    cases hb with
    | scalar hnb hPb => exact absurd hrank.symm (rank_of_scalar h hPb hnb).1
    | array _ _ => cases hrank
    | @document bs hbs =>
      have hfields (f : Text × Value) (hf : f ∈ as) (g : Text × Value) (hg : g ∈ bs) :
          compareField false f g = .ok 0 ↔ id f = id g := by
        rw [compareField, andThen_tie_iff, byKey_tie, byteNumbers_inj, ih f hf (hbs g hg)]
        exact Prod.ext_iff.symm
      change compareFields as bs false = _ ↔ _
      rw [compareFields_eq_lex, lex_tie_iff hfields, List.map_id, List.map_id,
        Value.document.injEq]
  | @array as hkeys has ih =>
    refine tie_of_rank fun hrank => ?_
    cases hb with
    | scalar hnb hPb => exact absurd hrank.symm (rank_of_scalar h hPb hnb).2
    | document _ => cases hrank
    | @array bs hkeys' hbs =>
      have hfields (f : Text × Value) (hf : f ∈ as) (g : Text × Value) (hg : g ∈ bs) :
          compareField true f g = .ok 0 ↔ f.2 = g.2 := ih f hf (hbs g hg)
      change compareFields as bs true = _ ↔ _
      rw [compareFields_eq_lex, lex_tie_iff hfields, Value.array.injEq]
      refine ⟨fun heq => ?_, fun heq => heq ▸ rfl⟩
      have hlength : as.length = bs.length := by simpa using congrArg List.length heq
      have hnames := h.keys _ _ hkeys hkeys' (by rw [List.length_map, List.length_map, hlength])
      exact (List.zip_of_prod hnames heq).trans (List.zip_of_prod rfl rfl).symm

/-- A number that is built of scalars is one of them. -/
lemma of_isNumeric {v : Value} (hv : v.Over P K) (hn : valueIsNumeric v = true) :
    P v ∧ v.subdocument = none := by
  cases hv with
  | scalar hnone hP => exact ⟨hP, hnone⟩
  | document _ | array _ _ => cases hn

/-- **Equality.**  Of values with one form each, only the same ones are equal. -/
theorem valueEqual_iff_eq (h : OneForm P K) {a b : Value} (ha : a.Over P K) (hb : b.Over P K) :
    valueEqual a b = true ↔ a = b := by
  constructor
  · intro heq
    obtain ⟨hsome, hcompared⟩ := valueEqual_iff.1 heq
    cases hnumeric : valueIsNumeric a with
    | true =>
      have hnumeric' : valueIsNumeric b = true := by
        rw [← Bool.not_eq_false]
        exact fun hb => compared_ne_of_isNumeric hnumeric hb hsome hcompared
      rw [valueEqual_of_isNumeric hnumeric hnumeric', numEq_iff] at heq
      exact h.number a b (of_isNumeric ha hnumeric).1 (of_isNumeric hb hnumeric').1 hnumeric
        hnumeric' heq.2.2
    | false =>
      refine eq_of_compared_eq hnumeric hsome hcompared fun hsub => ?_
      cases ha with
      | @scalar a hna hPa =>
        cases hb with
        | @scalar b hnb hPb =>
          unfold differInSubtype at hsub
          split at hsub
          · obtain ⟨rfl, hne⟩ := hsub
            exact hne (h.subtype _ _ _ hPa hPb)
          · exact hsub
        | document _ | array _ _ => cases a <;> cases hsub
      | document _ | array _ _ => cases hsub
  · rintro rfl
    refine valueEqual_iff.2 ⟨?_, rfl⟩
    cases ha with
    | scalar hnone hP => rw [compared_isSome_iff, h.comparable a hP hnone]
    | document _ | array _ _ => rfl

/-! ## One representative of each tie -/

/-- Of the values exactly one of each tie is kept. -/
structure OnePerTie (kept values : List Value) : Prop where
  /-- What is kept is taken from the values, in their order. -/
  sublist : kept.Sublist values
  /-- No two values that are kept tie. -/
  apart : kept.Pairwise fun v w => compareValues v w ≠ .ok 0
  /-- Every value ties with one that is kept. -/
  represented : ∀ v ∈ values, ∃ w ∈ kept, compareValues w v = .ok 0

/-- Collecting values by `value_equal`, where it agrees with ties, keeps one of each tie. -/
lemma onePerTie_collect {S : Value → Prop}
    (hagree : ∀ a b, S a → S b → (valueEqual a b = true ↔ compareValues a b = .ok 0))
    (hrefl : ∀ a, S a → valueEqual a a = true) {values : List Value} (hvalues : ∀ v ∈ values, S v) :
    OnePerTie (collect valueEqual [] values) values := by
  have hsublist := added_sublist (r := valueEqual) [] values
  refine ⟨hsublist, ?_, fun v hv => ?_⟩
  · refine (added_apart [] values).2.imp_of_mem fun ha hb hne htie => hne ?_
    exact (hagree _ _ (hvalues _ (hsublist.subset ha)) (hvalues _ (hsublist.subset hb))).2 htie
  · obtain ⟨pre, post, rfl⟩ := List.append_of_mem hv
    rcases turn (r := valueEqual) [] pre post v with hkept | ⟨x, hx, hxv⟩
    · exact ⟨v, hkept, (hagree v v (hvalues v hv) (hvalues v hv)).1 (hrefl v (hvalues v hv))⟩
    · refine ⟨x, collect_subset_append hx, (hagree x v ?_ (hvalues v hv)).1 hxv⟩
      exact hvalues x (List.mem_append_left _ ((mem_of_mem_collect hx).resolve_left nofun))

/-- `distinct` collects values. -/
lemma distinctValues_eq (seen values : List Value) :
    distinctValues seen values = collect valueEqual seen values := by
  induction values generalizing seen with
  | nil => simp [distinctValues, collect, added]
  | cons v values ih =>
    rw [distinctValues, collect_cons]
    split <;> exact ih _

/-- The keys of the groups after a document was put into its group. -/
lemma keys_addToGroup (key : Value) (summands : List Binary64) (groups : List DocumentGroup) :
    (addToGroup key summands groups).map DocumentGroup.key =
      if (groups.map DocumentGroup.key).any fun k => valueEqual k key
      then groups.map DocumentGroup.key else groups.map DocumentGroup.key ++ [key] := by
  induction groups with
  | nil => rfl
  | cons group groups ih =>
    rw [addToGroup]
    by_cases h : valueEqual group.key key = true
    · simp [h]
    · rw [if_neg h, List.map_cons, ih]
      simp only [List.map_cons, List.any_cons, Bool.not_eq_true] at h ⊢
      rw [h, Bool.false_or]
      split <;> simp

/-- The keys of groups are collected. -/
lemma keys_groupDocuments {idSpec : Value} {sums : List (Text × Value)}
    {groups out : List DocumentGroup} {documents : List Doc}
    (h : groupDocuments idSpec sums groups documents = .ok out) :
    ∃ keys, (documents.mapM fun document => groupKey document idSpec) = .ok keys ∧
      out.map DocumentGroup.key = collect valueEqual (groups.map DocumentGroup.key) keys := by
  induction documents generalizing groups with
  | nil =>
    obtain rfl := Except.ok.inj h
    exact ⟨[], rfl, by simp [collect, added]⟩
  | cons document documents ih =>
    obtain ⟨key, hkey, h⟩ := except_bind_eq_ok.1 h
    obtain ⟨summands, -, h⟩ := except_bind_eq_ok.1 h
    obtain ⟨keys, hkeys, hout⟩ := ih h
    refine ⟨key :: keys, ?_, ?_⟩
    · rw [List.mapM_cons, hkey, hkeys]
      rfl
    · rw [hout, keys_addToGroup, collect_cons]

/-- `value_equal` and `compare_values` agree on the values built of certain scalars. -/
structure EqualitiesAgree (P : Value → Prop) (K : List Text → Prop) : Prop where
  /-- Everything is equal to itself. -/
  refl : ∀ a, a.Over P K → valueEqual a a = true
  /-- Equality is symmetric. -/
  symm : ∀ a b, a.Over P K → b.Over P K → valueEqual a b = true → valueEqual b a = true
  /-- Equality is transitive. -/
  trans : ∀ a b c, a.Over P K → b.Over P K → c.Over P K → valueEqual a b = true →
    valueEqual b c = true → valueEqual a c = true
  /-- Values are equal when they tie. -/
  agree : ∀ a b, a.Over P K → b.Over P K → (valueEqual a b = true ↔ compareValues a b = .ok 0)
  /-- `distinct` keeps one value of each tie. -/
  distinct : ∀ (documents : List Doc) path, (∀ v ∈ documents.flatMap (valuesAt path), v.Over P K) →
    OnePerTie (distinctValues [] (documents.flatMap (valuesAt path)))
      (documents.flatMap (valuesAt path))
  /-- `$group` makes one group of each tie. -/
  group : ∀ (documents : List Doc) idSpec fields keys out,
    (documents.mapM fun document => groupKey document idSpec) = .ok keys →
    (∀ key ∈ keys, key.Over P K) →
    applyGroup documents (("_id".toList, idSpec) :: fields) = .ok out →
    ∃ ids, (out.map fun document => findField document "_id".toList) = ids.map some ∧
      OnePerTie ids keys

/-- The documents of a `$group` begin with the keys of the groups. -/
lemma ids_applyGroup {documents out : List Doc} {idSpec : Value} {fields : Doc}
    (h : applyGroup documents (("_id".toList, idSpec) :: fields) = .ok out) :
    ∃ sums groups, groupDocuments idSpec sums [] documents = .ok groups ∧
      (out.map fun document => findField document "_id".toList) =
        (groups.map DocumentGroup.key).map some := by
  rw [applyGroup, if_pos rfl] at h
  cases hsums : accumulators fields with
  | error e =>
    rw [hsums] at h
    cases h
  | ok sums =>
    rw [hsums] at h
    cases hgroups : groupDocuments idSpec sums [] documents with
    | error e =>
      simp only [hgroups, raising, bind, Except.bind] at h
      cases h
    | ok groups =>
      simp only [hgroups, raising, bind, Except.bind] at h
      obtain rfl := Except.ok.inj h
      refine ⟨sums, groups, hgroups, ?_⟩
      rw [groupedDocuments, List.map_map, List.map_map]
      exact List.map_congr_left fun group _ => by simp [findField]

/-- Where values have one form each, the equalities agree. -/
lemma OneForm.equalitiesAgree (h : OneForm P K) : EqualitiesAgree P K := by
  have hrefl (a : Value) (ha : a.Over P K) : valueEqual a a = true :=
    (valueEqual_iff_eq h ha ha).2 rfl
  have hagree (a b : Value) (ha : a.Over P K) (hb : b.Over P K) :
      valueEqual a b = true ↔ compareValues a b = .ok 0 := by
    rw [valueEqual_iff_eq h ha hb, tie_iff_eq h ha hb]
  refine ⟨hrefl, fun a b _ _ => valueEqual_symm, fun a b c _ _ _ => valueEqual_trans, hagree,
    fun documents path hvalues => ?_, fun documents idSpec fields keys out hkeys hover hout => ?_⟩
  · rw [distinctValues_eq]
    exact onePerTie_collect hagree hrefl hvalues
  · obtain ⟨sums, groups, hgroups, hids⟩ := ids_applyGroup hout
    obtain ⟨keys', hkeys', hcollect⟩ := keys_groupDocuments hgroups
    obtain rfl := Except.ok.inj (hkeys.symm.trans hkeys')
    refine ⟨_, hids, ?_⟩
    rw [hcollect]
    exact onePerTie_collect hagree hrefl hover

/-! ## What makes the equalities differ -/

/-- The document of one value is built of what the value is built of. -/
lemma over_document {v : Value} (hv : v.Over P K) : (Value.document [([], v)]).Over P K := by
  refine .document fun field hfield => ?_
  rw [List.mem_singleton.1 hfield]
  exact hv

/-- Where the equalities agree, values that tie are the same: their documents tie too, which are
only equal when they are the same. -/
lemma eq_of_tie (h : EqualitiesAgree P K) {a b : Value} (ha : a.Over P K) (hb : b.Over P K)
    (htie : compareValues a b = .ok 0) : a = b := by
  have hdocuments : compareValues (.document [([], a)]) (.document [([], b)]) = .ok 0 := by
    change compareFields [([], a)] [([], b)] false = _
    rw [compareFields_eq_lex]
    refine (lex_of_tie ?_).trans rfl
    rw [compareField, andThen_tie_iff, byKey_tie]
    exact ⟨rfl, htie⟩
  have heq := (h.agree _ _ (over_document ha) (over_document hb)).2 hdocuments
  have hcompared := (valueEqual_iff.1 heq).2
  rw [compared_of_not_isNumeric rfl, compared_of_not_isNumeric rfl] at hcompared
  simpa [Value.comparedWhole] using hcompared

/-- The array of empty documents under keys. -/
def emptyUnder (keys : List Text) : Doc := keys.map fun key => (key, .document [])

/-- The arrays of as many empty documents tie. -/
lemma tie_emptyUnder {ks ls : List Text} (h : ks.length = ls.length) :
    compareValues (.array (emptyUnder ks)) (.array (emptyUnder ls)) = .ok 0 := by
  change compareFields _ _ true = _
  rw [compareFields_eq_lex, lex_tie_iff (f := Prod.snd)]
  · rw [emptyUnder, emptyUnder, List.map_map, List.map_map]
    change ks.map (fun _ => Value.document []) = ls.map fun _ => Value.document []
    rw [List.map_const', List.map_const', h]
  · intro f hf g hg
    obtain ⟨k, -, rfl⟩ := List.mem_map.1 hf
    obtain ⟨l, -, rfl⟩ := List.mem_map.1 hg
    exact iff_of_true rfl rfl

/-- Where the equalities agree, values have one form each. -/
lemma oneForm_of_agree (h : EqualitiesAgree P K) : OneForm P K := by
  have hcomparable (v : Value) (hv : P v) (hnone : v.subdocument = none) :
      v.isComparable = true := by
    rw [← compared_isSome_iff]
    exact (valueEqual_iff.1 (h.refl v (.scalar hnone hv))).1
  have hnumeric {v : Value} (hn : valueIsNumeric v = true) : v.subdocument = none := by
    cases v with
    | document _ | array _ => cases hn
    | _ => rfl
  refine ⟨hcomparable, fun a b ha hb hna hnb hunits => ?_, fun s t data hs ht => ?_, ?_,
    fun ks ls hks hls hlength => ?_⟩
  · refine eq_of_tie h (.scalar (hnumeric hna) ha) (.scalar (hnumeric hnb) hb) ?_
    exact (tie_number hna hnb (hcomparable a ha (hnumeric hna))
      (hcomparable b hb (hnumeric hnb))).2 hunits
  · have htie : compareValues (.binary s data) (.binary t data) = .ok 0 :=
      congrArg Except.ok (compareBytes_eq_zero_iff.2 rfl)
    exact (Value.binary.inj (eq_of_tie h (.scalar rfl hs) (.scalar rfl ht) htie)).1
  · rintro ⟨hnull, hundefined⟩
    cases eq_of_tie h (.scalar rfl hnull) (.scalar rfl hundefined) rfl
  · have hover {keys : List Text} (hkeys : K keys) : (Value.array (emptyUnder keys)).Over P K := by
      refine .array ?_ fun field hfield => ?_
      · rw [emptyUnder, List.map_map]
        exact (List.map_id keys).symm ▸ hkeys
      · obtain ⟨key, -, rfl⟩ := List.mem_map.1 hfield
        exact .document nofun
    have heq := eq_of_tie h (hover hks) (hover hls) (tie_emptyUnder hlength)
    have hnames := congrArg (List.map Prod.fst) (Value.array.inj heq)
    rwa [emptyUnder, emptyUnder, List.map_map, List.map_map,
      show (Prod.fst ∘ fun key : Text => (key, Value.document [])) = id from rfl, List.map_id,
      List.map_id] at hnames

/-- **The two equalities.**  `value_equal` and `compare_values` agree on the values built of certain
scalars, and `distinct` and `$group` keep one of each tie, exactly when these values have one form
each. -/
theorem equalitiesAgree_iff (P : Value → Prop) (K : List Text → Prop) :
    EqualitiesAgree P K ↔ OneForm P K :=
  ⟨oneForm_of_agree, OneForm.equalitiesAgree⟩

/-- Two documents that differ in the width of an integer tie and are both distinct. -/
theorem distinct_keeps_tied :
    compareValues (.document [("a".toList, .int32 1)]) (.document [("a".toList, .int64 1)]) =
      .ok 0 ∧
    distinctValues [] [.document [("a".toList, .int32 1)], .document [("a".toList, .int64 1)]] =
      [.document [("a".toList, .int32 1)], .document [("a".toList, .int64 1)]] := by
  decide +kernel

end Chimera

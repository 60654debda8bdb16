import Chimera.Foundations.Binary64Exact
import Chimera.Foundations.Grouping
import Chimera.Translator.SetUpdates
import Chimera.Translator.Stages

/-!
# What a `$group` stage computes

`apply_group` keeps one total for each group and accumulator, and adds to them in one pass.  Read
group by group it is a partition of the documents: every document is in one group, once, and the
totals of a group are the sums over its documents in their order.  Sums are computed with
floating-point numbers, but sums of integers are exact as long as they stay within `2 ^ 53`, and
then the totals of the groups add up to the total of all documents.
-/

namespace Binary64

/-- A number that is finite and an integer. -/
def IsInteger (d : Binary64) (n : ℤ) : Prop :=
  d.isFinite = true ∧ d.units = n * 2 ^ 1074

instance (d : Binary64) (n : ℤ) : Decidable (IsInteger d n) :=
  inferInstanceAs (Decidable (_ ∧ _))

/-- Integers of fifty-three bits need no rounding. -/
lemma nearestInt_of_le {n : ℤ} (h : n.natAbs ≤ 2 ^ 53) : nearestInt n = n := by
  have hnearest : nearest n.natAbs = n.natAbs := by
    rcases h.lt_or_eq with hlt | heq
    · exact if_pos hlt
    · rw [heq]
      decide +kernel
  unfold nearestInt
  rw [hnearest]
  split <;> omega

/-- The number of an integer. -/
lemma isInteger_ofInt {n : ℤ} (h : n.natAbs ≤ 2 ^ 53) : IsInteger (ofInt n) n := by
  obtain ⟨hunits, hfinite⟩ := units_ofInt_nearest (show n.natAbs < 2 ^ 64 by omega)
  rw [nearestInt_of_le h] at hunits
  exact ⟨hfinite, hunits⟩

/-- **Sums of integers** of fifty-three bits are exact. -/
lemma IsInteger.add {a b : Binary64} {m n : ℤ} (ha : IsInteger a m) (hb : IsInteger b n)
    (h : (m + n).natAbs ≤ 2 ^ 53) : IsInteger (add a b) (m + n) := by
  obtain ⟨hafinite, haunits⟩ := ha
  obtain ⟨hbfinite, hbunits⟩ := hb
  obtain ⟨p, hp⟩ : ∃ p, p = 1074 := ⟨_, rfl⟩
  have hsum : a.units + b.units = (m + n) * 2 ^ p := by rw [haunits, hbunits, hp, Int.add_mul]
  have hpow : (0 : ℤ) < 2 ^ p := pow_pos (by decide) p
  unfold Binary64.add
  rw [isNaN_of_isFinite hafinite, isNaN_of_isFinite hbfinite, hafinite, hbfinite, Bool.or_false,
    Bool.not_true]
  simp only [Bool.false_eq_true, if_false, hsum]
  by_cases hzero : m + n = 0
  · rw [if_pos (by rw [hzero, Int.zero_mul]), hzero]
    obtain ⟨hunits, hfinite⟩ := units_pack_zero (a.negative && b.negative)
    exact ⟨hfinite, by rw [hunits, Int.zero_mul]⟩
  · rw [if_neg (mul_ne_zero hzero hpow.ne')]
    have hsign : decide ((m + n) * 2 ^ p < 0) = decide (m + n < 0) := by
      rw [decide_eq_decide]
      exact ⟨fun hneg => by_contra fun hnot => absurd hneg
        (not_lt.2 (Int.mul_nonneg (not_lt.1 hnot) hpow.le)),
        fun hneg => Int.mul_neg_of_neg_of_pos hneg hpow⟩
    have habs : ((m + n) * 2 ^ p).natAbs = (m + n).natAbs * 2 ^ p := by
      rw [Int.natAbs_mul, Int.natAbs_pow]
      rfl
    rw [hsign, habs]
    subst hp
    obtain ⟨hunits, hfinite⟩ := units_round_int (show (m + n).natAbs < 2 ^ 68 by omega) rfl
    rw [nearestInt_of_le h] at hunits
    exact ⟨hfinite, hunits⟩

/-- A sum of integers is exact when their absolute values add up to at most `2 ^ 53`. -/
lemma IsInteger.foldl_add {α : Type*} {f : α → Binary64} {n : α → ℤ} {start : Binary64} {s : ℤ}
    (hstart : IsInteger start s) {xs : List α} (hxs : ∀ x ∈ xs, IsInteger (f x) (n x))
    (h : s.natAbs + (xs.map fun x => (n x).natAbs).sum ≤ 2 ^ 53) :
    IsInteger (xs.foldl (fun total x => Binary64.add total (f x)) start)
      (s + (xs.map n).sum) := by
  induction xs generalizing start s with
  | nil =>
    rw [List.map_nil, List.sum_nil, Int.add_zero]
    exact hstart
  | cons x xs ih =>
    obtain ⟨hx, hxs⟩ := List.forall_mem_cons.1 hxs
    rw [List.map_cons, List.sum_cons] at h ⊢
    have hle : (s + n x).natAbs ≤ s.natAbs + (n x).natAbs := Int.natAbs_add_le _ _
    rw [List.foldl_cons, ← Int.add_assoc]
    exact ih (hstart.add hx (by omega)) hxs (by omega)

end Binary64

namespace Chimera

open Grouping Representatives Binary64

/-! ## Groups and their members -/

/-- What an accumulator adds for a document. -/
def summand (operand : Value) (document : Doc) : Binary64 :=
  (sumOperand document operand).toOption.getD (Binary64.ofInt 0)

/-- The total of an accumulator over documents. -/
def totalOf (operand : Value) (documents : List Doc) : Binary64 :=
  documents.foldl (fun total document => Binary64.add total (summand operand document))
    (Binary64.ofInt 0)

/-- The document of a group: the key, and a total for each accumulator. -/
def groupRow (sums : List (Text × Value)) (members : Value × List Doc) : Doc :=
  ("_id".toList, members.1) ::
    sums.map fun sum => (sum.1, .double (totalOf sum.2 members.2))

/-- The documents in their groups, for the key of a `$group` stage. -/
structure Partitioned (idSpec : Value) (documents : List Doc)
    (groups : List (Value × List Doc)) : Prop where
  /-- Every document is in one group, once. -/
  perm : (groups.flatMap Prod.snd).Perm documents
  /-- The keys are the first ones of their kind among the keys of the documents. -/
  keys : ∃ keys, (documents.mapM fun document => groupKey document idSpec) = .ok keys ∧
    groups.map Prod.fst = collect valueEqual [] keys
  /-- The key of a group is the key of its first document. -/
  key : ∀ group ∈ groups, ∃ document members, group.2 = document :: members ∧
    groupKey document idSpec = .ok group.1
  /-- A group has exactly the documents whose keys equal its own, in their order. -/
  members : ∀ group ∈ groups, valueEqual group.1 group.1 = true →
    group.2 = documents.filter fun document =>
      (groupKey document idSpec).toOption.any fun key => valueEqual group.1 key
  /-- A document whose key does not equal itself is alone. -/
  alone : ∀ group ∈ groups, valueEqual group.1 group.1 = false → group.2.length = 1
  /-- The keys of two groups are not equal. -/
  apart : groups.Pairwise fun group group' => valueEqual group.1 group'.1 = false

/-- A group with the totals of its members. -/
def Tallied (sums : List (Text × Value)) (members : Value × List Doc) : DocumentGroup :=
  ⟨members.1, sums.map fun sum => totalOf sum.2 members.2⟩

variable {idSpec : Value} {sums : List (Text × Value)} {documents : List Doc}

/-- What is added where the operand can be read. -/
lemma summand_of_ok {operand : Value} {document : Doc} {x : Binary64}
    (h : sumOperand document operand = .ok x) : summand operand document = x := by
  rw [summand, h]
  rfl

/-- The documents of groups with their totals. -/
lemma groupedDocuments_tallied (groups : List (Value × List Doc)) :
    groupedDocuments sums (groups.map (Tallied sums)) = groups.map (groupRow sums) := by
  rw [groupedDocuments, List.map_map]
  refine List.map_congr_left fun group _ => ?_
  rw [Function.comp_apply, Tallied, List.map_map, List.zip_map', groupRow]
  rfl

/-- The total after one more document. -/
lemma totalOf_concat (operand : Value) (documents : List Doc) (document : Doc) :
    totalOf operand (documents ++ [document]) =
      Binary64.add (totalOf operand documents) (summand operand document) :=
  List.foldl_concat ..

/-- The total of nothing. -/
lemma totalOf_nil (operand : Value) : totalOf operand [] = Binary64.ofInt 0 := List.foldl_nil

/-- One more document in its group. -/
lemma addToGroup_tallied (key : Value) (document : Doc) (groups : List (Value × List Doc)) :
    addToGroup key (sums.map fun sum => summand sum.2 document) (groups.map (Tallied sums)) =
      (put valueEqual key document groups).map (Tallied sums) := by
  induction groups with
  | nil =>
    have htotals : (sums.map fun sum => summand sum.2 document).map
        (Binary64.add (Binary64.ofInt 0)) = sums.map fun sum => totalOf sum.2 [document] := by
      rw [List.map_map]
      refine List.map_congr_left fun sum _ => ?_
      rw [Function.comp_apply, ← totalOf_nil sum.2, ← totalOf_concat, List.nil_append]
    rw [List.map_nil, addToGroup, put, htotals, List.map_singleton, Tallied]
  | cons group groups ih =>
    rw [List.map_cons, addToGroup, put, ih]
    by_cases hfound : valueEqual group.1 key = true
    · rw [if_pos (show valueEqual (Tallied sums group).key key = true from hfound), if_pos hfound]
      have htotals : (Tallied sums group).totals.zipWith Binary64.add
          (sums.map fun sum => summand sum.2 document) =
          sums.map fun sum => totalOf sum.2 (group.2 ++ [document]) := by
        rw [Tallied, List.zipWith_map, List.zipWith_self]
        refine List.map_congr_left fun sum _ => ?_
        rw [totalOf_concat]
      rw [htotals]
      rfl
    · rw [if_neg (show ¬ valueEqual (Tallied sums group).key key = true from hfound),
        if_neg hfound]
      rfl

/-- **One pass.**  The documents are gathered under their keys. -/
theorem groupDocuments_eq_gather {groups : List (Value × List Doc)} {out : List DocumentGroup}
    (h : groupDocuments idSpec sums (groups.map (Tallied sums)) documents = .ok out) :
    ∃ keys, (documents.mapM fun document => groupKey document idSpec) = .ok keys ∧
      out = (gather valueEqual groups (keys.zip documents)).map (Tallied sums) := by
  induction documents generalizing groups with
  | nil =>
    obtain rfl := Except.ok.inj h
    exact ⟨[], rfl, rfl⟩
  | cons document documents ih =>
    obtain ⟨key, hkey, h⟩ := except_bind_eq_ok.1 h
    obtain ⟨summands, hsummands, h⟩ := except_bind_eq_ok.1 h
    have hsums : summands = sums.map fun sum => summand sum.2 document := by
      have hall : List.Forall₂ Eq (sums.map fun sum => summand sum.2 document) summands := by
        exact List.forall₂_map_left_iff.2
          ((mapM_eq_ok_iff.1 hsummands).imp fun sum x hx => summand_of_ok hx)
      exact (List.forall₂_eq_eq_eq ▸ hall).symm
    rw [hsums, addToGroup_tallied] at h
    obtain ⟨keys, hkeys, hout⟩ := ih h
    refine ⟨key :: keys, ?_, ?_⟩
    · rw [List.mapM_cons, hkey, hkeys]
      rfl
    · rw [hout, List.zip_cons_cons, gather_cons]

/-- Gathering documents under their keys puts them where they belong. -/
lemma partitioned_gather {keys : List Value}
    (hkeys : (documents.mapM fun document => groupKey document idSpec) = .ok keys) :
    Partitioned idSpec documents (gather valueEqual [] (keys.zip documents)) := by
  have hall : List.Forall₂ (fun document key => groupKey document idSpec = .ok key)
      documents keys := mapM_eq_ok_iff.1 hkeys
  have hdocuments : (keys.zip documents).map Prod.snd = documents :=
    List.map_snd_zip hall.length_eq.le
  have hkey (item : Value × Doc) (hitem : item ∈ keys.zip documents) :
      groupKey item.2 idSpec = .ok item.1 := (List.forall₂_iff_zip.1 hall.flip).2 hitem
  have hsorted := sorted_gather (r := valueEqual) (fun _ _ => valueEqual_symm)
    (fun _ _ _ => valueEqual_trans) (keys.zip documents)
  refine ⟨?_, ⟨keys, hkeys, ?_⟩, fun group hgroup => ?_, fun group hgroup hself => ?_,
    fun group hgroup hself => ?_, hsorted.apart.imp fun hne => Bool.eq_false_iff.2 hne⟩
  · have hperm : ((gather valueEqual [] (keys.zip documents)).flatMap Prod.snd).Perm
        ((keys.zip documents).map Prod.snd) := gather_nil_perm
    rwa [hdocuments] at hperm
  · rw [keys_gather, List.map_fst_zip hall.length_eq.ge]
    rfl
  · obtain ⟨document, members, hitem, hmembers⟩ := hsorted.first group hgroup
    exact ⟨document, members, hmembers, hkey _ hitem⟩
  · rw [hsorted.members group hgroup hself]
    conv_rhs => rw [← hdocuments]
    rw [List.filter_map]
    refine congrArg (List.map Prod.snd) (List.filter_congr fun item hitem => ?_)
    rw [Function.comp_apply, hkey item hitem]
    rfl
  · obtain ⟨document, -, hmembers⟩ := hsorted.alone group hgroup (by rw [hself]; decide)
    rw [hmembers]
    rfl

/-- **Grouping partitions.**  The documents of a `$group` stage are the groups of a partition of
the documents, each with its totals.  Where an accumulator sums integers whose absolute values add
up to at most `2 ^ 53`, its totals are the exact sums over the groups, and they add up to the sum
over all documents. -/
theorem group_partitions {out : List Doc} {fields : Doc}
    (h : applyGroup documents (("_id".toList, idSpec) :: fields) = .ok out) :
    ∃ sums groups, accumulators fields = .ok sums ∧ Partitioned idSpec documents groups ∧
      out = groups.map (groupRow sums) ∧
      ∀ sum ∈ sums, ∀ n : Doc → ℤ,
        (∀ document ∈ documents, IsInteger (summand sum.2 document) (n document)) →
        (documents.map fun document => (n document).natAbs).sum ≤ 2 ^ 53 →
        (∀ group ∈ groups, IsInteger (totalOf sum.2 group.2) (group.2.map n).sum) ∧
          (groups.map fun group => (group.2.map n).sum).sum = (documents.map n).sum := by
  rw [applyGroup, if_pos rfl] at h
  cases hsums : accumulators fields with
  | error e =>
    rw [hsums] at h
    cases h
  | ok sums =>
    rw [hsums] at h
    cases hgroups : groupDocuments idSpec sums [] documents with
    | error e =>
      simp only [hgroups, raising, bind, Except.bind] at h
      cases h
    | ok groups =>
      simp only [hgroups, raising, bind, Except.bind] at h
      obtain rfl := Except.ok.inj h
      have hpass : groupDocuments idSpec sums (([] : List (Value × List Doc)).map (Tallied sums))
          documents = .ok groups := hgroups
      obtain ⟨keys, hkeys, rfl⟩ := groupDocuments_eq_gather hpass
      have hpartition := partitioned_gather hkeys
      refine ⟨sums, _, rfl, hpartition, groupedDocuments_tallied _,
        fun sum _ n hn hsmall => ⟨fun group hgroup => ?_, ?_⟩⟩
      · -- the documents of a group are among all documents
        have hsub : (group.2.map fun document => (n document).natAbs).sum ≤
            (documents.map fun document => (n document).natAbs).sum := by
          rw [← sum_of_perm hpartition.perm]
          refine List.single_le_sum (fun _ _ => Nat.zero_le _) _ ?_
          exact List.mem_map_of_mem hgroup
        have hmember (document : Doc) (hdocument : document ∈ group.2) : document ∈ documents :=
          hpartition.perm.subset (List.mem_flatMap.2 ⟨group, hgroup, hdocument⟩)
        have hzero : IsInteger (Binary64.ofInt 0) 0 := isInteger_ofInt (by decide)
        have hfold := hzero.foldl_add (fun document hdocument =>
          hn document (hmember document hdocument)) (by rw [Int.natAbs_zero]; omega)
        rwa [Int.zero_add] at hfold
      · exact sum_of_perm hpartition.perm n

/-- Three sales of two things. -/
def sales : List Doc :=
  [[("k".toList, .utf8 "a".toList), ("n".toList, .int32 2)],
    [("k".toList, .utf8 "b".toList), ("n".toList, .int32 3)],
    [("k".toList, .utf8 "a".toList), ("n".toList, .int32 4)]]

/-- How many were sold. -/
def sold (document : Doc) : ℤ := ((findField document "n".toList).bind Value.integer?).getD 0

/-- Sales by thing, with the number sold of each. -/
theorem group_partitions_sales :
    let fields : Doc := [("n".toList, .document [("$sum".toList, .utf8 "$n".toList)])]
    ∃ out groups, applyGroup sales (("_id".toList, .utf8 "$k".toList) :: fields) = .ok out ∧
      Partitioned (.utf8 "$k".toList) sales groups ∧ out.length = groups.length ∧
      (∀ group ∈ groups, IsInteger (totalOf (.utf8 "$n".toList) group.2) (group.2.map sold).sum) ∧
      (groups.map fun group => (group.2.map sold).sum).sum = 9 := by
  intro fields
  have hsome : (applyGroup sales (("_id".toList, .utf8 "$k".toList) :: fields)).toOption.isSome =
      true := by
    decide +kernel
  obtain ⟨out, hout⟩ := Option.isSome_iff_exists.1 hsome
  have hok : applyGroup sales (("_id".toList, .utf8 "$k".toList) :: fields) = .ok out := by
    cases h : applyGroup sales (("_id".toList, .utf8 "$k".toList) :: fields) with
    | error e =>
      rw [h] at hout
      cases hout
    | ok out' =>
      rw [h] at hout
      exact congrArg Except.ok (Option.some.inj hout)
  obtain ⟨sums, groups, hsums, hpartition, hrows, hexact⟩ := group_partitions hok
  obtain rfl := Except.ok.inj hsums
  have hintegers : ∀ document ∈ sales,
      IsInteger (summand (.utf8 "$n".toList) document) (sold document) := by
    decide +kernel
  obtain ⟨htotals, hall⟩ := hexact ("n".toList, .utf8 "$n".toList) (List.mem_singleton_self _) sold
    hintegers (by decide)
  exact ⟨out, groups, hok, hpartition, by rw [hrows, List.length_map], htotals, hall⟩

end Chimera

import Chimera.Foundations.Representatives
import Mathlib.Algebra.BigOperators.Group.List.Basic
import Mathlib.Data.List.Induction

/-!
# Grouping

Items with keys are put into groups one after the other: each goes to the first group whose key a
test finds for the item's, or to a new group under its own key.  The keys of the groups are the
representatives that are collected (`keys_gather`), and every item is in one group, once
(`gather_perm`).  A symmetric and transitive test puts into the group of a key exactly the items
that it finds for this key, unless it does not even find the key for itself; then the group has one
item (`sorted_gather`).
-/

namespace Grouping

open Representatives

variable {κ α : Type*} (r : κ → κ → Bool)

/-- Put an item into the first group whose key the test finds, or into a new group. -/
def put (k : κ) (a : α) : List (κ × List α) → List (κ × List α)
  | [] => [(k, [a])]
  | group :: groups =>
    if r group.1 k then (group.1, group.2 ++ [a]) :: groups else group :: put k a groups

/-- Put items into groups, one after the other. -/
def gather (groups : List (κ × List α)) (items : List (κ × α)) : List (κ × List α) :=
  items.foldl (fun groups item => put r item.1 item.2 groups) groups

variable {r} {groups : List (κ × List α)} {items : List (κ × α)} {k : κ} {a : α}

@[simp] lemma gather_nil : gather r groups [] = groups := rfl

@[simp] lemma gather_cons (item : κ × α) :
    gather r groups (item :: items) = gather r (put r item.1 item.2 groups) items := rfl

/-- The last item is put into what the others were gathered to. -/
lemma gather_concat (item : κ × α) :
    gather r groups (items ++ [item]) = put r item.1 item.2 (gather r groups items) :=
  List.foldl_concat ..

/-- Where the item goes: to a group that the test finds, and to none before it, or to the end. -/
lemma put_cases (k : κ) (a : α) (groups : List (κ × List α)) :
    (∃ before group after, groups = before ++ group :: after ∧
      (∀ g ∈ before, ¬ r g.1 k = true) ∧ r group.1 k = true ∧
      put r k a groups = before ++ (group.1, group.2 ++ [a]) :: after) ∨
    ((∀ g ∈ groups, ¬ r g.1 k = true) ∧ put r k a groups = groups ++ [(k, [a])]) := by
  induction groups with
  | nil => exact .inr ⟨fun g hg => absurd hg List.not_mem_nil, rfl⟩
  | cons group groups ih =>
    by_cases hfound : r group.1 k = true
    · refine .inl ⟨[], group, groups, rfl, fun g hg => absurd hg List.not_mem_nil, hfound, ?_⟩
      rw [put, if_pos hfound]
      rfl
    · rw [put, if_neg hfound]
      rcases ih with ⟨before, group', after, rfl, hbefore, hfound', hput⟩ | ⟨hall, hput⟩
      · refine .inl ⟨group :: before, group', after, rfl, ?_, hfound', ?_⟩
        · exact List.forall_mem_cons.2 ⟨hfound, hbefore⟩
        · rw [hput, List.cons_append]
      · refine .inr ⟨List.forall_mem_cons.2 ⟨hfound, hall⟩, ?_⟩
        rw [hput, List.cons_append]

/-- The keys after an item was put into its group. -/
lemma keys_put : (put r k a groups).map Prod.fst =
    if (groups.map Prod.fst).any fun x => r x k then groups.map Prod.fst
    else groups.map Prod.fst ++ [k] := by
  rcases put_cases (r := r) k a groups with
    ⟨before, group, after, rfl, -, hfound, hput⟩ | ⟨hall, hput⟩
  · rw [hput, if_pos]
    · simp
    · simp [hfound]
  · rw [hput, if_neg]
    · simp
    · simpa using hall

/-- **The keys** are the representatives of the items' keys. -/
theorem keys_gather : (gather r groups items).map Prod.fst =
    collect r (groups.map Prod.fst) (items.map Prod.fst) := by
  induction items generalizing groups with
  | nil => simp [collect, added]
  | cons item items ih => rw [gather_cons, ih, keys_put, List.map_cons, collect_cons]

/-- An item is put somewhere, once. -/
lemma put_perm :
    ((put r k a groups).flatMap Prod.snd).Perm (groups.flatMap Prod.snd ++ [a]) := by
  rcases put_cases (r := r) k a groups with ⟨before, group, after, rfl, -, -, hput⟩ | ⟨-, hput⟩
  · rw [hput]
    simp only [List.flatMap_append, List.flatMap_cons, List.append_assoc]
    refine List.Perm.append_left _ (List.Perm.append_left _ ?_)
    exact List.perm_append_comm
  · rw [hput, List.flatMap_append, List.flatMap_singleton]

/-- **Nothing is lost.**  Every item is in one group, once. -/
theorem gather_perm : ((gather r groups items).flatMap Prod.snd).Perm
    (groups.flatMap Prod.snd ++ items.map Prod.snd) := by
  induction items generalizing groups with
  | nil => simp
  | cons item items ih =>
    rw [gather_cons, List.map_cons]
    refine ih.trans ((put_perm.append_right _).trans ?_)
    rw [List.append_assoc, List.singleton_append]

/-- Every item is in one of the groups that the items are gathered to, once. -/
lemma gather_nil_perm : ((gather r [] items).flatMap Prod.snd).Perm (items.map Prod.snd) :=
  gather_perm

/-- What is added up group by group is the sum over everything in the groups. -/
lemma sum_of_perm {M : Type*} [AddCommMonoid M] {xs : List α}
    (h : (groups.flatMap Prod.snd).Perm xs) (f : α → M) :
    (groups.map fun group => (group.2.map f).sum).sum = (xs.map f).sum := by
  have hsum := (h.map f).sum_eq
  rwa [List.map_flatMap, List.flatMap_def, List.sum_flatten, List.map_map] at hsum

/-- The groups have the items that belong to them. -/
structure Sorted (r : κ → κ → Bool) (items : List (κ × α)) (groups : List (κ × List α)) : Prop where
  /-- A group has the items that the test finds for its key. -/
  members : ∀ g ∈ groups, r g.1 g.1 = true →
    g.2 = (items.filter fun item => r g.1 item.1).map Prod.snd
  /-- An item whose key is not even found for itself is alone. -/
  alone : ∀ g ∈ groups, ¬ r g.1 g.1 = true → ∃ a, (g.1, a) ∈ items ∧ g.2 = [a]
  /-- A group has its first item under its own key. -/
  first : ∀ g ∈ groups, ∃ a more, (g.1, a) ∈ items ∧ g.2 = a :: more
  /-- The test does not find a key for another group's. -/
  apart : groups.Pairwise fun g h => ¬ r g.1 h.1 = true
  /-- Every item is found or has a group of its own key. -/
  found : ∀ item ∈ items, ∃ g ∈ groups, g.1 = item.1 ∨ r g.1 item.1 = true

/-- What the test finds among the items and one more. -/
lemma found_concat (x k : κ) (a : α) (items : List (κ × α)) :
    ((items ++ [(k, a)]).filter fun item => r x item.1).map Prod.snd =
      (items.filter fun item => r x item.1).map Prod.snd ++ if r x k then [a] else [] := by
  rw [List.filter_append, List.map_append]
  by_cases hfound : r x k = true
  · simp [hfound]
  · simp [hfound]

/-- A test that is symmetric and transitive sorts one more item. -/
lemma Sorted.snoc (hsymm : ∀ x y, r x y = true → r y x = true)
    (htrans : ∀ x y z, r x y = true → r y z = true → r x z = true) (h : Sorted r items groups)
    (item : κ × α) : Sorted r (items ++ [item]) (put r item.1 item.2 groups) := by
  obtain ⟨k, a⟩ := item
  -- the groups that the test does not find stay as they are
  have hother (g : κ × List α) (hg : g ∈ groups) (hnot : ¬ r g.1 k = true) :
      (r g.1 g.1 = true →
        g.2 = ((items ++ [(k, a)]).filter fun item => r g.1 item.1).map Prod.snd) ∧
      (¬ r g.1 g.1 = true → ∃ b, (g.1, b) ∈ items ++ [(k, a)] ∧ g.2 = [b]) := by
    refine ⟨fun hself => ?_, fun hself => ?_⟩
    · rw [found_concat, if_neg hnot, List.append_nil]
      exact h.members g hg hself
    · obtain ⟨b, hb, hmembers⟩ := h.alone g hg hself
      exact ⟨b, List.mem_append_left _ hb, hmembers⟩
  have hfirst (g : κ × List α) (hg : g ∈ groups) :
      ∃ b more, (g.1, b) ∈ items ++ [(k, a)] ∧ g.2 = b :: more := by
    obtain ⟨b, more, hb, hmembers⟩ := h.first g hg
    exact ⟨b, more, List.mem_append_left _ hb, hmembers⟩
  rcases put_cases (r := r) k a groups with
    ⟨before, group, after, rfl, hbefore, hfound, hput⟩ | ⟨hall, hput⟩
  · have hmem : group ∈ before ++ group :: after := List.mem_append_right _ List.mem_cons_self
    have hself : r group.1 group.1 = true := htrans _ _ _ hfound (hsymm _ _ hfound)
    have hafter (g : κ × List α) (hg : g ∈ after) : ¬ r g.1 k = true := by
      intro hgk
      have hpairs := (List.pairwise_cons.1 (List.pairwise_append.1 h.apart).2.1).1 g hg
      exact hpairs (htrans _ _ _ hfound (hsymm _ _ hgk))
    have hrest (g : κ × List α) (hg : g ∈ before ∨ g ∈ after) :
        g ∈ before ++ group :: after ∧ ¬ r g.1 k = true := by
      rcases hg with hg | hg
      · exact ⟨List.mem_append_left _ hg, hbefore g hg⟩
      · exact ⟨List.mem_append_right _ (List.mem_cons_of_mem _ hg), hafter g hg⟩
    have hcases (g : κ × List α) (hg : g ∈ before ++ (group.1, group.2 ++ [a]) :: after) :
        g = (group.1, group.2 ++ [a]) ∨ g ∈ before ++ group :: after ∧ ¬ r g.1 k = true := by
      rcases List.mem_append.1 hg with hg | hg
      · exact .inr (hrest g (.inl hg))
      · rcases List.mem_cons.1 hg with hg | hg
        · exact .inl hg
        · exact .inr (hrest g (.inr hg))
    rw [hput]
    refine ⟨fun g hg hgself => ?_, fun g hg hgself => ?_, fun g hg => ?_, ?_, fun item hitem => ?_⟩
    · rcases hcases g hg with rfl | ⟨hg, hnot⟩
      · rw [found_concat, if_pos hfound, ← h.members group hmem hself]
      · exact (hother g hg hnot).1 hgself
    · rcases hcases g hg with rfl | ⟨hg, hnot⟩
      · exact absurd hself hgself
      · exact (hother g hg hnot).2 hgself
    · rcases hcases g hg with rfl | ⟨hg, hnot⟩
      · obtain ⟨b, more, hb, hmembers⟩ := hfirst group hmem
        exact ⟨b, more ++ [a], hb, by rw [hmembers, List.cons_append]⟩
      · exact hfirst g hg
    · have happart := h.apart
      simp only [List.pairwise_append, List.pairwise_cons, List.forall_mem_cons] at happart ⊢
      exact happart
    · have hkeys : ∃ g ∈ before ++ group :: after, g.1 = item.1 ∨ r g.1 item.1 = true := by
        rcases List.mem_append.1 hitem with hitem | hitem
        · exact h.found item hitem
        · obtain rfl := List.mem_singleton.1 hitem
          exact ⟨group, hmem, .inr hfound⟩
      obtain ⟨g, hg, hgitem⟩ := hkeys
      rcases List.mem_append.1 hg with hg | hg
      · exact ⟨g, List.mem_append_left _ hg, hgitem⟩
      · rcases List.mem_cons.1 hg with rfl | hg
        · exact ⟨_, List.mem_append_right _ List.mem_cons_self, hgitem⟩
        · exact ⟨g, List.mem_append_right _ (List.mem_cons_of_mem _ hg), hgitem⟩
  · have hcases (g : κ × List α) (hg : g ∈ groups ++ [(k, [a])]) :
        g = (k, [a]) ∨ g ∈ groups := by
      rcases List.mem_append.1 hg with hg | hg
      · exact .inr hg
      · exact .inl (List.mem_singleton.1 hg)
    have hlast : (k, a) ∈ items ++ [(k, a)] :=
      List.mem_append_right _ (List.mem_singleton_self _)
    rw [hput]
    refine ⟨fun g hg hgself => ?_, fun g hg hgself => ?_, fun g hg => ?_, ?_, fun item hitem => ?_⟩
    · rcases hcases g hg with rfl | hg
      · -- an earlier item that is found for the new key would have found a group for it
        have hnone : items.filter (fun item => r k item.1) = [] := by
          refine List.filter_eq_nil_iff.2 fun item hitem hr => ?_
          obtain ⟨g, hg, hkey | hr'⟩ := h.found item hitem
          · exact hall g hg (hkey ▸ hsymm _ _ hr)
          · exact hall g hg (htrans _ _ _ hr' (hsymm _ _ hr))
        rw [found_concat, hnone, if_pos hgself]
        rfl
      · exact (hother g hg (hall g hg)).1 hgself
    · rcases hcases g hg with rfl | hg
      · exact ⟨a, hlast, rfl⟩
      · exact (hother g hg (hall g hg)).2 hgself
    · rcases hcases g hg with rfl | hg
      · exact ⟨a, [], hlast, rfl⟩
      · exact hfirst g hg
    · refine List.pairwise_append.2 ⟨h.apart, List.pairwise_singleton _ _, fun g hg g' hg' => ?_⟩
      rw [List.mem_singleton.1 hg']
      exact hall g hg
    · rcases List.mem_append.1 hitem with hitem | hitem
      · obtain ⟨g, hg, hgitem⟩ := h.found item hitem
        exact ⟨g, List.mem_append_left _ hg, hgitem⟩
      · obtain rfl := List.mem_singleton.1 hitem
        exact ⟨_, List.mem_append_right _ (List.mem_singleton_self _), .inl rfl⟩

/-- **The groups.**  A test that is symmetric and transitive puts every item where it belongs. -/
theorem sorted_gather (hsymm : ∀ x y, r x y = true → r y x = true)
    (htrans : ∀ x y z, r x y = true → r y z = true → r x z = true) (items : List (κ × α)) :
    Sorted r items (gather r [] items) := by
  induction items using List.reverseRecOn with
  | nil =>
    exact ⟨fun g hg => absurd hg List.not_mem_nil, fun g hg => absurd hg List.not_mem_nil,
      fun g hg => absurd hg List.not_mem_nil, List.Pairwise.nil,
      fun item hitem => absurd hitem List.not_mem_nil⟩
  | append_singleton items item ih =>
    rw [gather_concat]
    exact ih.snoc hsymm htrans item

end Grouping

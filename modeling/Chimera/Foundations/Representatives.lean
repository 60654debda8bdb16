import Mathlib.Data.List.Basic
import Mathlib.Data.List.Pairwise
import Mathlib.Tactic.Common

/-!
# Collecting representatives

Candidates are taken one after the other, and one is kept unless a test finds it among those
already there.  When the test is an equivalence this keeps one of each class.  The test need not be
one: it may miss a candidate that is there, or find one that is not.  What is kept is described here
for any test, together with the exact condition under which every candidate is the same, in another
sense of the word, as something that was kept.
-/

namespace Representatives

variable {α : Type*} (r : α → α → Bool)

/-- The candidates that are kept, given what is already there. -/
def added (seen : List α) : List α → List α
  | [] => []
  | c :: cs => if seen.any fun x => r x c then added seen cs else c :: added (seen ++ [c]) cs

/-- What was there, and the candidates that are kept. -/
def collect (seen cs : List α) : List α := seen ++ added r seen cs

variable {r} {seen cs : List α} {c : α}

/-- A candidate that the test finds is passed over. -/
lemma added_cons_of_found (h : ∃ x ∈ seen, r x c = true) :
    added r seen (c :: cs) = added r seen cs :=
  if_pos (List.any_eq_true.2 h)

/-- A candidate that the test does not find is kept. -/
lemma added_cons_of_not_found (h : ¬ ∃ x ∈ seen, r x c = true) :
    added r seen (c :: cs) = c :: added r (seen ++ [c]) cs :=
  if_neg fun hany => h (List.any_eq_true.1 hany)

/-- The rest of the candidates are collected on top of the first. -/
lemma collect_cons : collect r seen (c :: cs) =
    collect r (if seen.any fun x => r x c then seen else seen ++ [c]) cs := by
  rw [collect, added]
  split <;> simp [collect]

/-- Collecting is a fold. -/
lemma foldl_eq_collect (seen cs : List α) :
    cs.foldl (fun seen c => if seen.any fun x => r x c then seen else seen ++ [c]) seen =
      collect r seen cs := by
  induction cs generalizing seen with
  | nil => simp [collect, added]
  | cons c cs ih => rw [List.foldl_cons, ih, collect_cons]

/-- What was there matters by the candidates that the test finds in it. -/
lemma added_append_eq_filter (seen more cs : List α) :
    added r (seen ++ more) cs = added r more (cs.filter fun c => !seen.any fun x => r x c) := by
  induction cs generalizing more with
  | nil => rfl
  | cons c cs ih =>
    by_cases hseen : ∃ x ∈ seen, r x c = true
    · have hfilter : ((c :: cs).filter fun c => !seen.any fun x => r x c) =
          cs.filter fun c => !seen.any fun x => r x c :=
        List.filter_cons_of_neg (by simpa using hseen)
      obtain ⟨x, hx, hr⟩ := hseen
      rw [added_cons_of_found ⟨x, List.mem_append_left _ hx, hr⟩, ih, hfilter]
    · have hfilter : ((c :: cs).filter fun c => !seen.any fun x => r x c) =
          c :: cs.filter fun c => !seen.any fun x => r x c :=
        List.filter_cons_of_pos (by simpa using hseen)
      rw [hfilter]
      by_cases hmore : ∃ x ∈ more, r x c = true
      · rw [added_cons_of_found hmore]
        obtain ⟨x, hx, hr⟩ := hmore
        rw [added_cons_of_found ⟨x, List.mem_append_right _ hx, hr⟩, ih]
      · have happend : ¬ ∃ x ∈ seen ++ more, r x c = true := by
          rintro ⟨x, hx, hr⟩
          rcases List.mem_append.1 hx with hx | hx
          · exact hseen ⟨x, hx, hr⟩
          · exact hmore ⟨x, hx, hr⟩
        rw [added_cons_of_not_found hmore, added_cons_of_not_found happend, List.append_assoc, ih]

/-- What is kept are candidates, in their order. -/
lemma added_sublist (seen cs : List α) : (added r seen cs).Sublist cs := by
  induction cs generalizing seen with
  | nil => exact List.Sublist.slnil
  | cons c cs ih =>
    by_cases h : ∃ x ∈ seen, r x c = true
    · rw [added_cons_of_found h]
      exact (ih seen).cons c
    · rw [added_cons_of_not_found h]
      exact (ih _).cons_cons c

/-- The test does not find what is kept, neither among what was there nor among what was kept
before. -/
lemma added_apart (seen cs : List α) : (∀ x ∈ seen, ∀ y ∈ added r seen cs, ¬ r x y = true) ∧
    (added r seen cs).Pairwise fun x y => ¬ r x y = true := by
  induction cs generalizing seen with
  | nil => simp [added]
  | cons c cs ih =>
    by_cases h : ∃ x ∈ seen, r x c = true
    · rw [added_cons_of_found h]
      exact ih seen
    · rw [added_cons_of_not_found h]
      obtain ⟨hseen, hpairwise⟩ := ih (seen ++ [c])
      refine ⟨fun x hx y hy => ?_, List.pairwise_cons.2 ⟨fun y hy => ?_, hpairwise⟩⟩
      · rcases List.mem_cons.1 hy with rfl | hy
        · exact fun hr => h ⟨x, hx, hr⟩
        · exact hseen x (List.mem_append_left _ hx) y hy
      · exact hseen c (List.mem_append_right _ (List.mem_singleton_self c)) y hy

/-- What was there stays. -/
lemma mem_collect_of_seen {x : α} (h : x ∈ seen) : x ∈ collect r seen cs :=
  List.mem_append_left _ h

/-- Everything collected was there or is a candidate. -/
lemma mem_of_mem_collect {x : α} (h : x ∈ collect r seen cs) : x ∈ seen ∨ x ∈ cs :=
  (List.mem_append.1 h).imp_right fun hx => (added_sublist seen cs).subset hx

/-- The candidates are collected in two portions. -/
lemma collect_append (seen cs ds : List α) :
    collect r seen (cs ++ ds) = collect r (collect r seen cs) ds := by
  rw [← foldl_eq_collect, List.foldl_append, foldl_eq_collect, foldl_eq_collect]

/-- A candidate is either kept or found among what is there when it is its turn. -/
lemma turn (seen pre post : List α) (c : α) : c ∈ collect r seen (pre ++ c :: post) ∨
    ∃ x ∈ collect r seen pre, r x c = true := by
  by_cases h : ∃ x ∈ collect r seen pre, r x c = true
  · exact .inr h
  · refine .inl ?_
    rw [collect_append, collect, added_cons_of_not_found h]
    exact List.mem_append_right _ List.mem_cons_self

/-- What is collected first stays. -/
lemma collect_subset_append {x : α} {ds : List α} (h : x ∈ collect r seen cs) :
    x ∈ collect r seen (cs ++ ds) := by
  rw [collect_append]
  exact mem_collect_of_seen h

/-- Nothing is kept exactly when every candidate is found. -/
lemma added_eq_nil_iff : added r seen cs = [] ↔ ∀ c ∈ cs, ∃ x ∈ seen, r x c = true := by
  induction cs with
  | nil => simp [added]
  | cons c cs ih =>
    by_cases h : ∃ x ∈ seen, r x c = true
    · rw [added_cons_of_found h, ih, List.forall_mem_cons]
      exact ⟨fun hcs => ⟨h, hcs⟩, And.right⟩
    · rw [added_cons_of_not_found h]
      refine iff_of_false (List.cons_ne_nil _ _) fun hall => h (hall c List.mem_cons_self)

/-- **Collecting again.**  A second pass over the same candidates keeps nothing exactly when every
candidate passes the test with itself, for a test that finds nothing else. -/
theorem added_collect_eq_nil_iff (hself : ∀ x c, r x c = true → r c c = true) (seen cs : List α) :
    added r (collect r seen cs) cs = [] ↔ ∀ c ∈ cs, r c c = true := by
  rw [added_eq_nil_iff]
  refine forall₂_congr fun c hc => ⟨fun ⟨x, _, hx⟩ => hself x c hx, fun hr => ?_⟩
  obtain ⟨pre, post, rfl⟩ := List.append_of_mem hc
  rcases turn seen pre post c with hkept | ⟨x, hx, hxc⟩
  · exact ⟨c, hkept, hr⟩
  · exact ⟨x, collect_subset_append hx, hxc⟩

/-- Two of the elements that are kept are one where the test, if it is symmetric, says so. -/
lemma eq_of_added (hsymm : ∀ x y, r x y = true → r y x = true) {x y : α}
    (hx : x ∈ added r seen cs) (hy : y ∈ added r seen cs) (h : r x y = true) : x = y := by
  by_contra hne
  have : Std.Symm fun x y => ¬ r x y = true := ⟨fun x y hxy hyx => hxy (hsymm y x hyx)⟩
  exact (added_apart seen cs).2.forall hx hy hne h

/-- **Everything has a representative.**  For a test that is symmetric and transitive and finds
whatever is the same, every candidate is the same as something collected exactly when each one is
either the same as something that was there, or the same as all that the test takes for it among
what was there and the candidates before it. -/
theorem represented_iff {same : α → α → Prop} (hrefl : ∀ x, same x x)
    (hsymm : ∀ x y, same x y → same y x) (htrans : ∀ x y z, same x y → same y z → same x z)
    (hrsymm : ∀ x y, r x y = true → r y x = true)
    (hrtrans : ∀ x y z, r x y = true → r y z = true → r x z = true)
    (hr : ∀ x, ∀ c ∈ cs, same x c → r x c = true) :
    (∀ c ∈ cs, ∃ x ∈ collect r seen cs, same x c) ↔
      ∀ pre c post, cs = pre ++ c :: post →
        (∃ x ∈ seen, same x c) ∨ ∀ x ∈ seen ++ pre, r x c = true → same x c := by
  constructor
  · intro hall pre c post hcs
    have hc : c ∈ cs := hcs ▸ List.mem_append_right _ List.mem_cons_self
    by_contra hnot
    obtain ⟨hseen, hmistaken⟩ := not_or.1 hnot
    obtain ⟨y, hy, hyc⟩ := hall c hc
    have hyadded : y ∈ added r seen cs :=
      (List.mem_append.1 hy).resolve_left fun hy => hseen ⟨y, hy, hyc⟩
    refine hmistaken fun x hx hxc => ?_
    have hxy : r x y = true := hrtrans x c y hxc (hrsymm y c (hr y c hc hyc))
    rcases List.mem_append.1 hx with hxseen | hxpre
    · exact absurd hxy ((added_apart seen cs).1 x hxseen y hyadded)
    -- the representative of an earlier candidate is the one of this candidate
    · have hxcs : x ∈ cs := hcs ▸ List.mem_append_left _ hxpre
      obtain ⟨z, hz, hzx⟩ := hall x hxcs
      have hzy : r z y = true := hrtrans z x y (hr z x hxcs hzx) hxy
      rcases List.mem_append.1 hz with hzseen | hzadded
      · exact absurd hzy ((added_apart seen cs).1 z hzseen y hyadded)
      · obtain rfl := eq_of_added hrsymm hzadded hyadded hzy
        exact htrans x z c (hsymm z x hzx) hyc
  · intro hall c hc
    obtain ⟨pre, post, hcs⟩ := List.append_of_mem hc
    rcases hall pre c post hcs with ⟨x, hx, hsame⟩ | hfound
    · exact ⟨x, mem_collect_of_seen hx, hsame⟩
    rcases turn (r := r) seen pre post c with hkept | ⟨x, hx, hxc⟩
    · exact ⟨c, hcs ▸ hkept, hrefl c⟩
    · refine ⟨x, hcs ▸ collect_subset_append hx, hfound x ?_ hxc⟩
      exact List.mem_append.2 (mem_of_mem_collect hx)

end Representatives

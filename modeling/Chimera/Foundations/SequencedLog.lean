import Mathlib.Data.List.Sort
import Mathlib.Data.Nat.Basic
import Mathlib.Tactic.Common

/-!
# Sequenced logs, their windows and their pages

A log is a list whose entries carry strictly increasing sequence numbers.  A reader of the log
keeps a position and asks for the entries after it: `window p a b` is what lies strictly after
`a` and at most at `b`, `pageAfter p a n` is the first `n` entries after `a`, both restricted to
the entries that satisfy `p`.

The two facts a reader relies on are `pageAfter_eq_window_lastSeq` (a page is the window that ends
at its last entry) and `pageAfter_eq_window_of_short` (a page that came back short is the window up
to any bound the log had not passed).  `window_append_of_lt` says that entries appended later do not
disturb a window that has been read.
-/

namespace SequencedLog

variable {α : Type*} (seq : α → ℕ)

/-- The entries of the list carry strictly increasing sequence numbers. -/
def Sequenced (l : List α) : Prop :=
  l.Pairwise fun x y => seq x < seq y

/-- The entries that satisfy `p`, strictly after `a` and at most at `b`. -/
def window (p : α → Bool) (a b : ℕ) (l : List α) : List α :=
  l.filter fun x => decide (a < seq x) && decide (seq x ≤ b) && p x

/-- The entries strictly after `a` that satisfy `p`. -/
def after (p : α → Bool) (a : ℕ) (l : List α) : List α :=
  l.filter fun x => decide (a < seq x) && p x

/-- The first `n` entries strictly after `a` that satisfy `p`. -/
def pageAfter (p : α → Bool) (a n : ℕ) (l : List α) : List α :=
  (l.filter fun x => decide (a < seq x) && p x).take n

/-- The sequence number of the last entry of a page, and `a` when the page is empty. -/
def lastSeq (a : ℕ) (page : List α) : ℕ :=
  (page.getLast?.map seq).getD a

/-- The last `n` entries. -/
def newest (n : ℕ) (l : List α) : List α := l.drop (l.length - n)

variable {seq} {p : α → Bool} {a b c n : ℕ} {l l' : List α} {x y : α}

/-- An entry is in a window when it is in the log, in the range, and satisfies the predicate. -/
@[simp] lemma mem_window : x ∈ window seq p a b l ↔ x ∈ l ∧ a < seq x ∧ seq x ≤ b ∧ p x = true := by
  simp [window, and_assoc]

/-- Everything on a page is in the log, after the position, and satisfies the predicate. -/
lemma mem_of_mem_pageAfter (h : x ∈ pageAfter seq p a n l) : x ∈ l ∧ a < seq x ∧ p x = true := by
  simpa using List.mem_filter.mp (List.mem_of_mem_take h)

namespace Sequenced

/-- A sublist of a sequenced log is sequenced. -/
lemma sublist (h : Sequenced seq l) (hs : l'.Sublist l) : Sequenced seq l' :=
  List.Pairwise.sublist hs h

/-- A filtered sequenced log is sequenced. -/
lemma filter (h : Sequenced seq l) (q : α → Bool) : Sequenced seq (l.filter q) :=
  h.sublist List.filter_sublist

/-- A window of a sequenced log is sequenced. -/
lemma window (h : Sequenced seq l) : Sequenced seq (window seq p a b l) :=
  h.filter _

/-- A page of a sequenced log is sequenced. -/
lemma pageAfter (h : Sequenced seq l) : Sequenced seq (pageAfter seq p a n l) :=
  (h.filter _).sublist (List.take_sublist _ _)

/-- Two logs glue to a sequenced one when every entry of the first precedes every entry of the
second. -/
lemma append_iff : Sequenced seq (l ++ l') ↔
    Sequenced seq l ∧ Sequenced seq l' ∧ ∀ x ∈ l, ∀ y ∈ l', seq x < seq y :=
  List.pairwise_append

/-- A sequenced log is determined by its entries. -/
lemma ext (h : Sequenced seq l) (h' : Sequenced seq l') (hmem : ∀ x, x ∈ l ↔ x ∈ l') : l = l' := by
  have hasym : ∀ x y : α, seq x < seq y → seq y < seq x → x = y :=
    fun x y hxy hyx => absurd hyx (by omega)
  have hnd : ∀ {m : List α}, Sequenced seq m → m.Nodup := fun {m} hm =>
    List.Pairwise.imp (fun {x y} (hxy : seq x < seq y) (e : x = y) => by
      subst e; exact absurd hxy (lt_irrefl _)) hm
  refine List.Perm.eq_of_pairwise (fun x y _ _ => hasym x y) h h' ?_
  exact (List.perm_ext_iff_of_nodup (hnd h) (hnd h')).mpr hmem

/-- Distinct entries of a sequenced log have distinct sequence numbers. -/
lemma eq_of_seq_eq (h : Sequenced seq l) (hx : x ∈ l) (hy : y ∈ l) (hxy : seq x = seq y) :
    x = y := by
  by_contra hne
  have hp := List.pairwise_iff_getElem.mp h
  obtain ⟨i, hi, rfl⟩ := List.getElem_of_mem hx
  obtain ⟨j, hj, rfl⟩ := List.getElem_of_mem hy
  rcases lt_trichotomy i j with hij | hij | hij
  · exact absurd (hp i j hi hj hij) (by omega)
  · subst hij; exact hne rfl
  · exact absurd (hp j i hj hi hij) (by omega)

/-- In a sequenced log whose entries are in another order too, the sequence numbers decide that
order. -/
lemma rel_of_seq_lt {R : α → α → Prop} (h : Sequenced seq l) (hR : l.Pairwise R) (hx : x ∈ l)
    (hy : y ∈ l) (hxy : seq x < seq y) : R x y := by
  obtain ⟨i, hi, rfl⟩ := List.getElem_of_mem hx
  obtain ⟨j, hj, rfl⟩ := List.getElem_of_mem hy
  rcases lt_trichotomy i j with hij | rfl | hij
  · exact List.pairwise_iff_getElem.mp hR i j hi hj hij
  · exact absurd hxy (lt_irrefl _)
  · exact absurd (List.pairwise_iff_getElem.mp h j i hj hi hij) hxy.not_gt

/-- The last entry of a sequenced log carries the largest sequence number. -/
lemma le_of_getLast? (h : Sequenced seq l) (hy : l.getLast? = some y) (hx : x ∈ l) :
    seq x ≤ seq y := by
  obtain ⟨m, rfl⟩ := List.getLast?_eq_some_iff.mp hy
  rcases List.mem_append.mp hx with hm | hm
  · exact ((append_iff.mp h).2.2 x hm y (List.mem_singleton_self y)).le
  · rw [List.mem_singleton.mp hm]

end Sequenced

/-! ## Windows -/

/-- The window from a position to itself is empty. -/
@[simp] lemma window_self : window seq p a a l = [] := by
  refine List.filter_eq_nil_iff.mpr fun x _ => ?_
  simp only [Bool.and_eq_true, decide_eq_true_eq, not_and]
  omega

/-- Entries appended beyond a window do not change it. -/
lemma window_append_of_lt (h : ∀ x ∈ l', b < seq x) :
    window seq p a b (l ++ l') = window seq p a b l := by
  have : window seq p a b l' = [] := by
    refine List.filter_eq_nil_iff.mpr fun x hx => ?_
    have := h x hx
    simp only [Bool.and_eq_true, decide_eq_true_eq, not_and]
    omega
  rw [window, List.filter_append, ← window, ← window, this, List.append_nil]

/-! ## Everything after a position -/

/-- An entry is after a position when it is in the log, beyond the position, and satisfies the
predicate. -/
@[simp] lemma mem_after : x ∈ after seq p a l ↔ x ∈ l ∧ a < seq x ∧ p x = true := by
  simp [after]

/-- What is after a position in two logs. -/
lemma after_append : after seq p a (l ++ l') = after seq p a l ++ after seq p a l' :=
  List.filter_append ..

/-- What is after a position is a tail of the log. -/
lemma after_suffix (h : Sequenced seq l) : after seq p a l <:+ l.filter p := by
  refine ⟨l.filter fun x => decide (seq x ≤ a) && p x, ?_⟩
  refine Sequenced.ext (Sequenced.append_iff.mpr ⟨h.filter _, h.filter _, fun x hx y hy => ?_⟩)
    (h.filter _) fun x => ?_
  · have hle : seq x ≤ a := by simpa using (Bool.and_eq_true_iff.1 (List.mem_filter.1 hx).2).1
    exact hle.trans_lt (mem_after.1 hy).2.1
  · simp only [List.mem_append, List.mem_filter, mem_after, Bool.and_eq_true, decide_eq_true_eq]
    constructor
    · rintro (⟨hx, -, hp⟩ | ⟨hx, -, hp⟩) <;> exact ⟨hx, hp⟩
    · rintro ⟨hx, hp⟩
      rcases le_or_gt (seq x) a with hle | hlt
      · exact Or.inl ⟨hx, hle, hp⟩
      · exact Or.inr ⟨hx, hlt, hp⟩

/-- What is after a later position. -/
lemma after_of_le (hab : a ≤ b) :
    after seq p b l = after seq (fun _ => true) b (after seq p a l) := by
  rw [after, after, after, List.filter_filter]
  refine List.filter_congr fun x _ => ?_
  by_cases hb : b < seq x
  · simp [hb, hab.trans_lt hb]
  · simp [hb]

/-- Where the beginning of what is after a position holds an entry, what is after that entry is an
end of this beginning, and the rest. -/
lemma after_eq_append {m m' : List α} (h : Sequenced seq l) (hm : after seq p a l = m ++ m')
    (hx : x ∈ m) : ∃ m₀, m₀ <:+ m ∧ after seq p (seq x) l = m₀ ++ m' := by
  have hseq : Sequenced seq (m ++ m') := hm ▸ h.filter _
  obtain ⟨hseqm, -, hbeyond⟩ := Sequenced.append_iff.1 hseq
  have hax : a < seq x := (mem_after.1 (hm ▸ List.mem_append_left m' hx)).2.1
  refine ⟨after seq (fun _ => true) (seq x) m, ?_, ?_⟩
  · simpa using after_suffix (p := fun _ => true) hseqm
  · rw [after_of_le hax.le, hm, after_append]
    refine congrArg _ (List.filter_eq_self.2 fun y hy => ?_)
    simpa using hbeyond x hx y hy

/-- A window is the beginning of what is after the position it starts from. -/
lemma window_append_after (h : Sequenced seq l) (hab : a ≤ b) :
    window seq p a b l ++ after seq p b l = after seq p a l := by
  refine Sequenced.ext (Sequenced.append_iff.mpr ⟨h.window, h.filter _, fun x hx y hy => ?_⟩)
    (h.filter _) fun x => ?_
  · exact (mem_window.1 hx).2.2.1.trans_lt (mem_after.1 hy).2.1
  · rw [List.mem_append, mem_window, mem_after, mem_after]
    constructor
    · rintro (⟨hx, hlt, -, hp⟩ | ⟨hx, hlt, hp⟩)
      · exact ⟨hx, hlt, hp⟩
      · exact ⟨hx, hab.trans_lt hlt, hp⟩
    · rintro ⟨hx, hlt, hp⟩
      rcases le_or_gt (seq x) b with hle | hbeyond
      · exact Or.inl ⟨hx, hlt, hle, hp⟩
      · exact Or.inr ⟨hx, hbeyond, hp⟩

/-! ## Pages -/

/-- The last sequence number of a page is not before the position the page was read from. -/
lemma le_lastSeq_pageAfter : a ≤ lastSeq seq a (pageAfter seq p a n l) := by
  unfold lastSeq
  cases hlast : (pageAfter seq p a n l).getLast? with
  | none => exact le_rfl
  | some y =>
    have hy := (mem_of_mem_pageAfter (List.mem_of_getLast? hlast)).2.1
    exact hy.le

/-- Nothing on a page lies beyond its last sequence number. -/
lemma seq_le_lastSeq (h : Sequenced seq l) (hx : x ∈ l) : seq x ≤ lastSeq seq a l := by
  unfold lastSeq
  cases hlast : l.getLast? with
  | none =>
    rw [List.getLast?_eq_none_iff.mp hlast] at hx
    exact absurd hx List.not_mem_nil
  | some y => exact h.le_of_getLast? hlast hx

/-- The last sequence number of a nonempty page belongs to an entry of the page. -/
lemma exists_seq_eq_lastSeq (hne : l ≠ []) : ∃ y ∈ l, seq y = lastSeq seq a l := by
  obtain ⟨y, hy⟩ := List.getLast?_isSome.mpr hne |> Option.isSome_iff_exists.mp
  exact ⟨y, List.mem_of_getLast? hy, by simp [lastSeq, hy]⟩

/-- What the page leaves out comes after everything on the page. -/
lemma lastSeq_lt_of_not_mem_pageAfter (h : Sequenced seq l) (hx : x ∈ l) (hax : a < seq x)
    (hpx : p x = true) (hnot : x ∉ pageAfter seq p a n l) :
    lastSeq seq a (pageAfter seq p a n l) < seq x := by
  set f := l.filter fun x => decide (a < seq x) && p x with hf
  have hxf : x ∈ f := by simp [hf, hx, hax, hpx]
  have hsplit : f.take n ++ f.drop n = f := List.take_append_drop n f
  have hfs : Sequenced seq (f.take n ++ f.drop n) := by rw [hsplit]; exact h.filter _
  have hdrop : x ∈ f.drop n := by
    rw [← hsplit] at hxf
    exact (List.mem_append.mp hxf).resolve_left hnot
  unfold lastSeq
  cases hlast : (pageAfter seq p a n l).getLast? with
  | none => simpa using hax
  | some y =>
    have hy : y ∈ f.take n := List.mem_of_getLast? hlast
    exact (Sequenced.append_iff.mp hfs).2.2 y hy x hdrop

/-- A page is the window that ends at its last entry. -/
lemma pageAfter_eq_window_lastSeq (h : Sequenced seq l) :
    pageAfter seq p a n l = window seq p a (lastSeq seq a (pageAfter seq p a n l)) l := by
  refine Sequenced.ext h.pageAfter h.window fun x => ?_
  rw [mem_window]
  constructor
  · intro hx
    obtain ⟨hl, hax, hp⟩ := mem_of_mem_pageAfter hx
    exact ⟨hl, hax, seq_le_lastSeq h.pageAfter hx, hp⟩
  · rintro ⟨hl, hax, hle, hp⟩
    by_contra hnot
    exact absurd (lastSeq_lt_of_not_mem_pageAfter h hl hax hp hnot) (by omega)

/-- A page shorter than asked for holds every matching entry after the position. -/
lemma mem_pageAfter_of_short (hlen : (pageAfter seq p a n l).length < n) (hx : x ∈ l)
    (hax : a < seq x) (hpx : p x = true) : x ∈ pageAfter seq p a n l := by
  have hxf : x ∈ l.filter fun x => decide (a < seq x) && p x := by simp [hx, hax, hpx]
  unfold pageAfter at hlen ⊢
  rw [List.length_take] at hlen
  rwa [List.take_of_length_le (by omega)]

/-- **A short page is the whole rest of the log.**  A page shorter than asked for is the window
up to any bound at or beyond its last entry. -/
lemma pageAfter_eq_window_of_short (h : Sequenced seq l)
    (hlen : (pageAfter seq p a n l).length < n)
    (hb : lastSeq seq a (pageAfter seq p a n l) ≤ b) :
    pageAfter seq p a n l = window seq p a b l := by
  refine Sequenced.ext h.pageAfter h.window fun x => ?_
  rw [mem_window]
  constructor
  · intro hx
    obtain ⟨hl, hax, hp⟩ := mem_of_mem_pageAfter hx
    exact ⟨hl, hax, (seq_le_lastSeq h.pageAfter hx).trans hb, hp⟩
  · rintro ⟨hl, hax, _, hp⟩
    exact mem_pageAfter_of_short hlen hl hax hp

/-- Two logs with the same entries after the position have the same pages. -/
lemma pageAfter_congr (h : Sequenced seq l) (h' : Sequenced seq l')
    (hmem : ∀ x, a < seq x → (x ∈ l ↔ x ∈ l')) :
    pageAfter seq p a n l = pageAfter seq p a n l' := by
  unfold pageAfter
  congr 1
  refine Sequenced.ext (h.filter _) (h'.filter _) fun x => ?_
  simp only [List.mem_filter, Bool.and_eq_true, decide_eq_true_eq]
  constructor <;> rintro ⟨hx, hax, hp⟩
  · exact ⟨(hmem x hax).mp hx, hax, hp⟩
  · exact ⟨(hmem x hax).mpr hx, hax, hp⟩

/-! ## The newest entries -/

/-- There are `n` newest entries, or as many as the log has. -/
@[simp] lemma length_newest : (newest n l).length = min n l.length := by
  unfold newest
  rw [List.length_drop]
  omega

/-- The newest entries are entries. -/
lemma newest_subset : newest n l ⊆ l := List.drop_subset _ _

/-- After an append the newest entries are newest entries from before, or appended ones. -/
lemma mem_newest_append (h : x ∈ newest n (l ++ l')) : x ∈ newest n l ∨ x ∈ l' := by
  unfold newest at h ⊢
  rw [List.length_append, List.drop_append] at h
  rcases List.mem_append.1 h with h | h
  · exact .inl (List.drop_subset_drop_left _ (by omega) h)
  · exact .inr (List.drop_subset _ _ h)

/-- With the `n`-th entry from the end, the newest entries are those from that one on. -/
lemma mem_newest_iff (h : Sequenced seq l) (hn : 0 < n) (hy : l.reverse[n - 1]? = some y)
    (hx : x ∈ l) : x ∈ newest n l ↔ seq y ≤ seq x := by
  obtain ⟨hlt, hget⟩ := List.getElem?_eq_some_iff.1 hy
  rw [List.length_reverse] at hlt
  have hy' : l.drop (l.length - n) = y :: l.drop (l.length - n + 1) := by
    rw [List.drop_eq_getElem_cons (by omega), ← hget, List.getElem_reverse]
    congr 2
    omega
  have hsplit : l.take (l.length - n) ++ newest n l = l := List.take_append_drop _ _
  have hseq : Sequenced seq (l.take (l.length - n) ++ newest n l) := by rwa [hsplit]
  obtain ⟨-, hnewest, hbefore⟩ := Sequenced.append_iff.1 hseq
  have hmem : y ∈ newest n l := by
    unfold newest
    rw [hy']
    exact List.mem_cons_self
  constructor
  · intro hx
    unfold newest at hx hnewest
    rw [hy'] at hx hnewest
    rcases List.mem_cons.1 hx with rfl | hx
    · exact le_rfl
    · exact (List.rel_of_pairwise_cons hnewest hx).le
  · intro hle
    rw [← hsplit] at hx
    refine (List.mem_append.1 hx).resolve_left fun hx => ?_
    exact absurd hle (hbefore x hx y hmem).not_ge

/-- Without an `n`-th entry from the end, all entries are newest ones. -/
lemma newest_eq_self (hn : 0 < n) (h : l.reverse[n - 1]? = none) : newest n l = l := by
  rw [List.getElem?_eq_none_iff, List.length_reverse] at h
  unfold newest
  rw [show l.length - n = 0 by omega, List.drop_zero]

/-- The last entry is among the newest ones. -/
lemma mem_newest_of_max (h : Sequenced seq l) (hn : 0 < n) (hx : x ∈ l)
    (hmax : ∀ y ∈ l, seq y ≤ seq x) : x ∈ newest n l := by
  cases hy : l.reverse[n - 1]? with
  | none => rwa [newest_eq_self hn hy]
  | some y =>
    have hmem : y ∈ l := List.mem_reverse.1 (List.mem_of_getElem? hy)
    exact (mem_newest_iff h hn hy hx).2 (hmax y hmem)

end SequencedLog

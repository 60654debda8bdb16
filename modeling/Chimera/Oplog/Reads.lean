import Chimera.Oplog.Tail

/-!
# What is known of a page

The oplog moves on between the statements of a `getMore`: rows are committed, and rows are pruned.
What it has read is nevertheless the window of the log up to the position it moves to, when nothing
that was gone lay beyond the position it read from.
-/

namespace Chimera

open SequencedLog

namespace OplogServer

/-- What a later state of the server has in common with an earlier one. -/
structure Later (s s' : OplogServer) : Prop where
  /-- Rows are only committed beyond the committed ones. -/
  committed : ∃ new, s'.committed = s.committed ++ new ∧
    ∀ r ∈ s.committed, ∀ r' ∈ new, r.seq < r'.seq
  /-- What is gone stays gone. -/
  gone : ∀ r, r ∈ s.deleted ∨ r ∈ s.lost → r ∈ s'.deleted ∨ r ∈ s'.lost

/-- One action leads to a later state. -/
lemma Inv.later {s s' : OplogServer} {a : ServerAction} (hI : s.Inv) (h : s.step a = some s') :
    s.Later s' := by
  have hseq := (Sequenced.append_iff.mp (hI.step h).sequenced).1
  rcases step_effect h with ⟨new, hE⟩ | ⟨survivors, removed, history, hR⟩
  · rw [hE.committed_eq] at hseq
    refine ⟨⟨new, hE.committed_eq, (Sequenced.append_iff.mp hseq).2.2⟩, fun r hr => ?_⟩
    rwa [hE.deleted_eq, hE.lost_eq]
  · refine ⟨⟨[], by rw [hR.committed_eq, List.append_nil], by simp⟩, fun r hr => ?_⟩
    rw [hR.deleted_eq, hR.lost_eq]
    exact hr.imp_left (List.mem_append_left _)

/-- A head that was reached stays reached. -/
lemma Later.reached {s s' : OplogServer} (h : s.Later s') {head : ℕ}
    (hr : Reached s.committed head) : Reached s'.committed head := by
  obtain ⟨new, hnew, -⟩ := h.committed
  obtain ⟨r, hr, hle⟩ := hr
  exact ⟨r, hnew ▸ List.mem_append_left new hr, hle⟩

end OplogServer

open OplogServer

/-! ## Pages -/

/-- A state of the committed log at which a page was read: the log as it was, now a prefix. -/
structure ReadFrom (s : OplogServer) (committed : List OplogRow) (head : ℕ) : Prop where
  /-- What was committed then is a prefix of what is committed now. -/
  isPrefix : committed <+: s.committed
  /-- The head that was sampled before the read was reached then. -/
  reached : head = 0 ∨ Reached committed head

/-- A page that was read stays read. -/
lemma ReadFrom.later {s s' : OplogServer} {committed : List OplogRow} {head : ℕ}
    (h : ReadFrom s committed head) (hl : s.Later s') : ReadFrom s' committed head := by
  obtain ⟨new, hnew, -⟩ := hl.committed
  exact ⟨hnew ▸ h.isPrefix.trans (List.prefix_append _ _), h.reached⟩

/-- A page of the rows that were stored: `committed`, up to what was gone. -/
def ReadPage (tables : OplogServer) (p : OplogRow → Bool) (a wanted head : ℕ)
    (page : List OplogRow) : Prop :=
  ∃ committed rows : List OplogRow, ReadFrom tables committed head ∧ rows.Sublist committed ∧
    (∀ r ∈ committed, r ∈ rows ∨ r ∈ tables.deleted ∨ r ∈ tables.lost) ∧
    page = pageAfter OplogRow.seq p a wanted rows

/-- A page of everything that was committed. -/
def WholePage (tables : OplogServer) (p : OplogRow → Bool) (a wanted head : ℕ)
    (page : List OplogRow) : Prop :=
  ∃ committed, ReadFrom tables committed head ∧
    page = pageAfter OplogRow.seq p a wanted committed

section Pages

variable {s s' : OplogServer} {p : OplogRow → Bool} {a wanted head : ℕ} {page : List OplogRow}

/-- A page that was read stays one. -/
lemma ReadPage.later (h : ReadPage s p a wanted head page) (hl : s.Later s') :
    ReadPage s' p a wanted head page := by
  obtain ⟨committed, rows, hread, hsub, hacc, hpage⟩ := h
  exact ⟨committed, rows, hread.later hl, hsub, fun r hr => (hacc r hr).imp_right (hl.gone r),
    hpage⟩

/-- A page of everything stays one. -/
lemma WholePage.later (h : WholePage s p a wanted head page) (hl : s.Later s') :
    WholePage s' p a wanted head page := by
  obtain ⟨committed, hread, hpage⟩ := h
  exact ⟨committed, hread.later hl, hpage⟩

/-- A page is one of everything when nothing beyond its position is gone, also if this is known
only later. -/
lemma ReadPage.whole (hseq : Sequenced OplogRow.seq s.committed)
    (h : ReadPage s p a wanted head page)
    (hgone : ∀ r, r ∈ s.deleted ∨ r ∈ s.lost → r.seq ≤ a) : WholePage s p a wanted head page := by
  obtain ⟨committed, rows, hread, hsub, hacc, hpage⟩ := h
  have hcom : Sequenced OplogRow.seq committed := hseq.sublist hread.isPrefix.sublist
  refine ⟨committed, hread, hpage.trans ?_⟩
  -- nothing beyond the position was gone when the page was read, since it is not gone now
  refine pageAfter_congr (hcom.sublist hsub) hcom fun x hx => ⟨fun h => hsub.mem h, fun h => ?_⟩
  refine (hacc x h).resolve_right fun hx' => ?_
  exact absurd hx (hgone x hx').not_gt

/-- The last sequence number of a page read from the committed rows was reached. -/
lemma reached_lastSeq {committed : List OplogRow} {p : OplogRow → Bool} {a n : ℕ} :
    lastSeq OplogRow.seq a (pageAfter OplogRow.seq p a n committed) = a ∨
      Reached committed (lastSeq OplogRow.seq a (pageAfter OplogRow.seq p a n committed)) := by
  by_cases hnil : pageAfter OplogRow.seq p a n committed = []
  · exact Or.inl (by rw [hnil]; rfl)
  · obtain ⟨y, hy, hseq⟩ : ∃ y ∈ pageAfter OplogRow.seq p a n committed,
        y.seq = lastSeq OplogRow.seq a (pageAfter OplogRow.seq p a n committed) :=
      exists_seq_eq_lastSeq hnil
    exact Or.inr ⟨y, (mem_of_mem_pageAfter hy).1, hseq.ge⟩

/-- **A page is the window up to the next position.**  The page a `getMore` read is everything
selected between the cursor's position and its next position. -/
lemma page_eq_window {tail : TailState} (hseq : Sequenced OplogRow.seq s.committed)
    (h : WholePage s p tail.afterSeq wanted head page) :
    page = window OplogRow.seq p tail.afterSeq (tail.nextAfter wanted head page) s.committed ∧
      tail.afterSeq ≤ tail.nextAfter wanted head page ∧
      (tail.nextAfter wanted head page = tail.afterSeq ∨
        Reached s.committed (tail.nextAfter wanted head page)) := by
  obtain ⟨committed, hread, hpage⟩ := h
  obtain ⟨new, hnew⟩ := hread.isPrefix
  have hseq : Sequenced OplogRow.seq (committed ++ new) := hnew ▸ hseq
  obtain ⟨hcom, -, hbeyond⟩ := Sequenced.append_iff.mp hseq
  have hlast : tail.afterSeq ≤ lastSeq OplogRow.seq tail.afterSeq page :=
    hpage ▸ le_lastSeq_pageAfter
  -- the next position ends the page within the log as it was read
  have hwindow : page = window OplogRow.seq p tail.afterSeq (tail.nextAfter wanted head page)
      committed := by
    unfold TailState.nextAfter
    split
    · rw [hpage]
      exact pageAfter_eq_window_lastSeq hcom
    · next hshort =>
      rw [hpage] at hshort ⊢
      exact pageAfter_eq_window_of_short hcom (not_le.mp hshort) (le_max_right _ _)
  have hnext : tail.afterSeq ≤ tail.nextAfter wanted head page := by
    unfold TailState.nextAfter
    split
    · exact hlast
    · exact hlast.trans (le_max_right _ _)
  have hreached : tail.nextAfter wanted head page = tail.afterSeq ∨
      Reached committed (tail.nextAfter wanted head page) := by
    have hpageReached : lastSeq OplogRow.seq tail.afterSeq page = tail.afterSeq ∨
        Reached committed (lastSeq OplogRow.seq tail.afterSeq page) := hpage ▸ reached_lastSeq
    unfold TailState.nextAfter
    split
    · exact hpageReached
    · rcases le_total head (lastSeq OplogRow.seq tail.afterSeq page) with hle | hle
      · rw [max_eq_right hle]
        exact hpageReached
      · rw [max_eq_left hle]
        rcases hread.reached with rfl | hhead
        · exact Or.inl (by omega)
        · exact Or.inr hhead
  refine ⟨?_, hnext, hreached.imp_right fun ⟨r, hr, hle⟩ =>
    ⟨r, hnew ▸ List.mem_append_left new hr, hle⟩⟩
  rw [← hnew]
  rcases hreached with heq | ⟨r, hr, hle⟩
  · rw [heq, window_self]
    rwa [heq, window_self] at hwindow
  · rw [window_append_of_lt fun r' hr' => hle.trans_lt (hbeyond r hr r' hr')]
    exact hwindow

/-- **A settled first batch is the window up to the position of its cursor.** -/
lemma firstBatch_eq_window {req : FindRequest} (hseq : Sequenced OplogRow.seq s.committed)
    (hrows : s.rows = s.committed) (hhead : head = 0 ∨ Reached s.committed head)
    (hnatural : req.newestFirst = false)
    (hsettled : req.wanted ≤
        (s.rows.filter fun r => decide (0 < r.seq) && req.selects r).length ∨
      ∀ r ∈ s.rows, req.selects r = true → r.seq ≤ head) :
    req.page s.rows = window OplogRow.seq req.selects 0 (req.afterSeq head (req.page s.rows))
        s.committed ∧
      (req.afterSeq head (req.page s.rows) = 0 ∨
        Reached s.committed (req.afterSeq head (req.page s.rows))) := by
  have hpage : req.page s.rows = pageAfter OplogRow.seq req.selects 0 req.wanted s.committed := by
    simp [FindRequest.page, hnatural, hrows]
  rw [hpage]
  by_cases hfull : (pageAfter OplogRow.seq req.selects 0 req.wanted s.committed).length ≥ req.wanted
  · simp only [FindRequest.afterSeq, hnatural, hfull, decide_true, Bool.not_false, Bool.and_self,
      if_true]
    exact ⟨pageAfter_eq_window_lastSeq hseq, reached_lastSeq⟩
  · simp only [FindRequest.afterSeq, hnatural, hfull, decide_false, Bool.not_false, Bool.and_false,
      Bool.false_eq_true, if_false]
    refine ⟨pageAfter_eq_window_of_short hseq (not_le.mp hfull) ?_, hhead⟩
    rcases hsettled with hfill | hbelow
    · refine absurd ?_ hfull
      rw [hrows] at hfill
      rw [pageAfter, List.length_take]
      exact (min_eq_left hfill).ge
    · by_cases hnil : pageAfter OplogRow.seq req.selects 0 req.wanted s.committed = []
      · rw [hnil]
        exact Nat.zero_le _
      · obtain ⟨y, hy, hlast⟩ : ∃ y ∈ pageAfter OplogRow.seq req.selects 0 req.wanted s.committed,
            y.seq = lastSeq OplogRow.seq 0
              (pageAfter OplogRow.seq req.selects 0 req.wanted s.committed) :=
          exists_seq_eq_lastSeq hnil
        obtain ⟨hmem, -, hsel⟩ := mem_of_mem_pageAfter hy
        rw [← hlast]
        exact hbelow y (hrows ▸ hmem) hsel

end Pages

end Chimera

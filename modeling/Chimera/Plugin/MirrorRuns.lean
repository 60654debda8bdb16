import Chimera.Plugin.Mirror
import Mathlib.Data.Fintype.Basic

/-!
# Mirror completeness

A table that a command has made and that is not mirrored yet is being made: its command is still
under way, and has to install what the table lacks before it does anything else on its connection.
As long as no such command stops half way, and nobody else writes to its table in between, every
row that is committed is mirrored.
-/

namespace Chimera

open Interaction StepSystem

/-! ## The invariant -/

/-- The connection's command is making the table, and has still to install what the table lacks. -/
def MirrorConnection.Tends (c : MirrorConnection) (ns : Namespace) (t : CollectionTable) : Prop :=
  c.making = some ns ∧ ∀ ops ∈ c.adopting, ∀ op, op ∈ ops ∨ t.triggers op = true

/-- The table that a command makes is the one that it has created and not adopted. -/
structure MirrorConnection.Sound (c : MirrorConnection) : Prop where
  /-- The command adopts what it creates. -/
  adopts : ∃ g, Adopts c.program g ∧ ∀ ns ∈ c.making, g = some ns
  /-- An idle connection makes no table. -/
  idle : goesOn c.program = false → c.making = none
  /-- Triggers are installed by a call. -/
  calls : c.adopting ≠ none → ∃ ns next, c.program = .ask (.sql .connection (.adopt ns)) next

namespace MirrorSystem

section Inv

variable {ι : Type} {s s' : MirrorSystem ι} {i : ι}

/-- What holds of the tables and the changes. -/
structure Keeps (s : MirrorSystem ι) : Prop where
  /-- A table that is not mirrored is being made. -/
  watched : ∀ ns, ∀ t ∈ s.tables ns, t.made = true → t.mirrored = false →
    ∃ i, (s.connections i).Tends ns t
  /-- The changes of open transactions are mirrored. -/
  pending : ∀ i, ∀ rows ∈ (s.connections i).transaction, ∀ c ∈ rows, c.Mirrored
  /-- So are the ones that were committed. -/
  committed : s.Mirrors

/-- The invariant. -/
structure Inv (s : MirrorSystem ι) : Prop where
  /-- The tables and the changes. -/
  keeps : s.Keeps
  /-- The commands. -/
  sound : ∀ i, (s.connections i).Sound

/-! ### Tables -/

/-- A table that has its triggers appends one row for a change. -/
lemma mirrored_of_table {t : CollectionTable} (op : OplogOp) (ns : Namespace)
    (h : t.made = true → t.mirrored = true) : RowChange.Mirrored ⟨ns, op, t, t.append op ns⟩ := by
  intro hmade
  have hmirrored := h hmade
  refine ⟨hmirrored, ?_⟩
  have hop : t.triggers op = true := by
    unfold CollectionTable.mirrored at hmirrored
    cases op <;> simp_all
  exact if_pos hop

/-- A table is mirrored when it has every trigger. -/
lemma mirrored_of_triggers {t : CollectionTable} (h : ∀ op, t.triggers op = true) :
    t.mirrored = true := by
  unfold CollectionTable.mirrored
  rw [h, h, h]
  rfl

/-- A trigger that is installed is there. -/
lemma install_self (t : CollectionTable) (op : OplogOp) : (t.install op).triggers op = true :=
  Function.update_self ..

/-- The triggers that are there stay. -/
lemma install_of_triggers {t : CollectionTable} {op op' : OplogOp} (h : t.triggers op' = true) :
    (t.install op).triggers op' = true := by
  by_cases hop : op' = op
  · rw [hop]
    exact install_self t op
  · exact (Function.update_of_ne hop ..).trans h

/-- A mirrored table stays mirrored. -/
lemma mirrored_install {t : CollectionTable} (op : OplogOp) (h : t.mirrored = true) :
    (t.install op).mirrored = true := by
  unfold CollectionTable.mirrored at h ⊢
  simp only [Bool.and_eq_true] at h ⊢
  exact ⟨⟨install_of_triggers h.1.1, install_of_triggers h.1.2⟩, install_of_triggers h.2⟩

/-- Dropping tables. -/
lemma Keeps.remove (h : s.Keeps) (p : Namespace → Bool) : (s.remove p).Keeps := by
  refine ⟨fun ns t ht hmade hnot => ?_, h.pending, h.committed⟩
  by_cases hp : p ns
  · have hnone : (s.remove p).tables ns = none := if_pos hp
    rw [hnone] at ht
    cases ht
  · have htables : (s.remove p).tables ns = s.tables ns := if_neg hp
    rw [htables] at ht
    obtain ⟨i, hmaking, hops⟩ := h.watched ns t ht hmade hnot
    exact ⟨i, Option.filter_eq_some_iff.2 ⟨hmaking, by simpa using hp⟩, hops⟩

/-- Installing a trigger. -/
lemma Keeps.install (h : s.Keeps) {ns : Namespace} {t : CollectionTable} (ht : s.tables ns = some t)
    (op : OplogOp) :
    Keeps { s with tables := Function.update s.tables ns (some (t.install op)) } := by
  refine ⟨fun ns' t' ht' hmade hnot => ?_, h.pending, h.committed⟩
  by_cases hns : ns' = ns
  · subst hns
    obtain rfl : t.install op = t' := by
      simpa using ht'
    have hbefore : t.mirrored = false := by
      by_contra hyes
      have hafter := mirrored_install op (Bool.eq_true_of_not_eq_false hyes)
      rw [hafter] at hnot
      cases hnot
    obtain ⟨i, hmaking, hops⟩ := h.watched ns' t ht hmade hbefore
    exact ⟨i, hmaking, fun ops hmem op' => (hops ops hmem op').imp_right install_of_triggers⟩
  · have htables : s.tables ns' = some t' := by
      simpa [Function.update_of_ne hns] using ht'
    exact h.watched ns' t' htables hmade hnot

/-- Dropping tables. -/
lemma Inv.remove (h : s.Inv) (p : Namespace → Bool) : (s.remove p).Inv := by
  refine ⟨h.keeps.remove p, fun j => ⟨?_, fun hidle => ?_, (h.sound j).calls⟩⟩
  · obtain ⟨g, hprogram, hmaking⟩ := (h.sound j).adopts
    exact ⟨g, hprogram, fun ns hns => hmaking ns (Option.filter_eq_some_iff.1 hns).1⟩
  · have hnone := (h.sound j).idle hidle
    change (s.connections j).making.filter _ = none
    rw [hnone]
    rfl

/-- A statement of one connection leaves the other connections alone, and of its own everything
but the transaction. -/
structure Leaves (s : MirrorSystem ι) (i : ι) (s' : MirrorSystem ι) : Prop where
  /-- The other connections. -/
  others : ∀ j, j ≠ i → s'.connections j = s.connections j
  /-- What the command has still to do. -/
  program : (s'.connections i).program = (s.connections i).program
  /-- What its call has still to install. -/
  adopting : (s'.connections i).adopting = (s.connections i).adopting
  /-- What it makes. -/
  making : (s'.connections i).making = (s.connections i).making

/-- A statement that does nothing. -/
lemma Leaves.refl (s : MirrorSystem ι) (i : ι) : s.Leaves i s :=
  ⟨fun _ _ => rfl, rfl, rfl, rfl⟩

/-- One after the other. -/
lemma Leaves.trans {u : MirrorSystem ι} (h : s.Leaves i s') (h' : s'.Leaves i u) : s.Leaves i u :=
  ⟨fun j hj => (h'.others j hj).trans (h.others j hj), h'.program.trans h.program,
    h'.adopting.trans h.adopting, h'.making.trans h.making⟩

/-- In the beginning nothing is being made. -/
lemma Initial.inv (h : s.Initial) : s.Inv := by
  refine ⟨⟨fun ns t ht hmade => ?_, fun i => ?_, fun tx htx => ?_⟩, fun i => ?_⟩
  · have hnot := h.tables ns t ht
    rw [hmade] at hnot
    cases hnot
  · rw [h.connections i]
    nofun
  · rw [h.committed] at htx
    cases htx
  · rw [h.connections i]
    exact ⟨⟨none, fun _ _ => rfl, nofun⟩, fun _ => rfl, fun hcall => absurd rfl hcall⟩

/-! ### What a command still has to do -/

/-- A command that makes a table asks, on its connection, only to adopt it. -/
lemma eq_of_mayAsk {g : Option Namespace} {ns ns' : Namespace} (hg : g = some ns')
    (h : mayAsk g (.sql .connection (.adopt ns))) : ns' = ns := by
  subst hg
  rcases h with heq | helsewhere
  · cases heq
    rfl
  · cases helsewhere

/-- A command that makes a table asks for nothing else. -/
lemma eq_none_of_mayAsk {g : Option Namespace} {q : Sql} (hq : ∀ ns, q ≠ .adopt ns)
    (h : mayAsk g (.sql .connection q)) : g = none := by
  cases g with
  | none => rfl
  | some ns =>
    rcases h with heq | helsewhere
    · cases heq
      exact absurd rfl (hq ns)
    · cases helsewhere

/-- A command that asks for anything but the adoption makes no table. -/
lemma Inv.making_eq_none (h : s.Inv) {q : Sql}
    {next : (Question.sql .connection q).Answer → WireProgram Doc}
    (hprogram : (s.connections i).program = .ask (.sql .connection q) next)
    (hq : ∀ ns, q ≠ .adopt ns) : (s.connections i).making = none := by
  obtain ⟨g, hadopts, hmaking⟩ := (h.sound i).adopts
  rw [hprogram] at hadopts
  have hnone := eq_none_of_mayAsk hq hadopts.1
  cases hmade : (s.connections i).making with
  | none => rfl
  | some ns =>
    have hsome := hnone.symm.trans (hmaking ns hmade)
    cases hsome

/-- Nor has it triggers to install. -/
lemma Inv.adopting_eq_none (h : s.Inv) {q : Sql}
    {next : (Question.sql .connection q).Answer → WireProgram Doc}
    (hprogram : (s.connections i).program = .ask (.sql .connection q) next)
    (hq : ∀ ns, q ≠ .adopt ns) : (s.connections i).adopting = none := by
  by_contra hcall
  obtain ⟨ns, next', hask⟩ := (h.sound i).calls hcall
  rw [hprogram] at hask
  cases hask
  exact hq ns rfl

/-- The rest of a command adopts what it makes, when nothing was noted and nothing made. -/
lemma Inv.adopts_next (h : s.Inv) {q : Question} {next : q.Answer → WireProgram Doc}
    {r : q.Answer} (hprogram : (s.connections i).program = .ask q next)
    (hleaves : s.Leaves i s') (hnote : ∀ g, noteTable q r g = g) :
    ∃ g, Adopts (next r) g ∧ ∀ ns ∈ (s'.connections i).making, g = some ns := by
  obtain ⟨g, hadopts, hmaking⟩ := (h.sound i).adopts
  rw [hprogram] at hadopts
  have hrest := hadopts.2 r
  rw [hnote] at hrest
  exact ⟨g, hrest, fun ns hns => hmaking ns (hleaves.making.symm.trans hns)⟩

/-- What holds between a statement of a command and what the command does next: the tables and the
changes are in order, the other connections were left alone, and the rest of the command adopts
what is being made. -/
def Between (s : MirrorSystem ι) (i : ι) (rest : WireProgram Doc) (s' : MirrorSystem ι) : Prop :=
  s'.Keeps ∧ (∀ j, j ≠ i → s'.connections j = s.connections j) ∧
    ∃ g, Adopts rest g ∧ ∀ ns ∈ (s'.connections i).making, g = some ns

/-! ### Steps on the tables and the changes -/

variable [DecidableEq ι]

/-- A changed connection. -/
@[simp] lemma set_connections_self (s : MirrorSystem ι) (i : ι) (c : MirrorConnection) :
    (s.set i c).connections i = c :=
  Function.update_self ..

/-- The others. -/
lemma set_connections_of_ne (s : MirrorSystem ι) {i j : ι} (h : j ≠ i) (c : MirrorConnection) :
    (s.set i c).connections j = s.connections j :=
  Function.update_of_ne h ..

/-- A connection may change if it still tends to the table that it makes. -/
lemma Keeps.set (h : s.Keeps) {c : MirrorConnection}
    (hpending : ∀ rows ∈ c.transaction, ∀ r ∈ rows, r.Mirrored)
    (hkeep : ∀ ns, ∀ t ∈ s.tables ns, t.mirrored = false →
      (s.connections i).Tends ns t → c.Tends ns t) :
    (s.set i c).Keeps := by
  refine ⟨fun ns t ht hmade hnot => ?_, fun j => ?_, h.committed⟩
  · obtain ⟨j, hj⟩ := h.watched ns t ht hmade hnot
    by_cases hji : j = i
    · subst hji
      refine ⟨j, ?_⟩
      rw [set_connections_self]
      exact hkeep ns t ht hnot hj
    · refine ⟨j, ?_⟩
      rwa [set_connections_of_ne s hji]
  · by_cases hji : j = i
    · subst hji
      rwa [set_connections_self]
    · rw [set_connections_of_ne s hji]
      exact h.pending j

/-- What is committed was pending. -/
lemma Keeps.commit (h : s.Keeps) (i : ι) : (s.commit i).Keeps := by
  have hset : (s.set i { s.connections i with transaction := none }).Keeps :=
    h.set nofun fun _ _ _ _ ht => ht
  refine ⟨hset.watched, hset.pending, fun tx htx => ?_⟩
  rcases List.mem_append.1 htx with htx | htx
  · exact h.committed tx htx
  · exact h.pending i tx (Option.mem_toList.1 htx)

/-- What is rolled back is gone. -/
lemma Keeps.rollback (h : s.Keeps) (i : ι) : (s.rollback i).Keeps :=
  h.set nofun fun _ _ _ _ ht => ht

/-- A transaction begins without changes. -/
lemma Keeps.begin (h : s.Keeps) (i : ι) : (s.begin i).Keeps := by
  refine (h.commit i).set (fun rows hrows => ?_) fun ns t _ _ ht => ?_
  · obtain rfl := Option.mem_some_iff.1 hrows
    nofun
  · unfold MirrorSystem.commit at ht
    rwa [set_connections_self] at ht

/-- Rows of a mirrored table are mirrored. -/
lemma Keeps.change (h : s.Keeps) {ns : Namespace} {op : OplogOp} {n : ℕ}
    (htable : ∀ t ∈ s.tables ns, t.made = true → t.mirrored = true)
    (hs : s.change i ns op n = some s') : s'.Keeps := by
  unfold MirrorSystem.change at hs
  split at hs
  · cases hs
  · next t ht =>
    have hrows : ∀ c ∈ List.replicate n (⟨ns, op, t, t.append op ns⟩ : RowChange),
        c.Mirrored := by
      intro c hc
      rw [List.eq_of_mem_replicate hc]
      exact mirrored_of_table op ns (htable t ht)
    split at hs
    · obtain rfl := Option.some.inj hs
      refine ⟨h.watched, h.pending, fun tx htx => ?_⟩
      rcases List.mem_append.1 htx with htx | htx
      · exact h.committed tx htx
      · rw [List.mem_singleton.1 htx]
        exact hrows
    · next before hbefore =>
      obtain rfl := Option.some.inj hs
      refine h.set (fun rows hmem c hc => ?_) fun _ _ _ _ ht => ht
      obtain rfl := Option.mem_some_iff.1 hmem
      rcases List.mem_append.1 hc with hc | hc
      · exact h.pending i before hbefore c hc
      · exact hrows c hc

/-- Creating a table. -/
lemma Keeps.createTable (h : s.Keeps) (ns : Namespace) (hmaking : (s.connections i).making = none)
    (hadopting : (s.connections i).adopting = none) : (s.createTable i ns).Keeps := by
  unfold MirrorSystem.createTable
  split
  · exact h
  · have hset : (s.set i { s.connections i with making := some ns }).Keeps := by
      refine h.set (h.pending i) fun ns' t _ _ ht => ?_
      have hnone := hmaking.symm.trans ht.1
      cases hnone
    refine ⟨fun ns' t ht hmade hnot => ?_, hset.pending, hset.committed⟩
    by_cases hns : ns' = ns
    · subst hns
      refine ⟨i, ?_⟩
      rw [set_connections_self]
      refine ⟨rfl, fun ops hops => ?_⟩
      have hnone := hadopting.symm.trans hops
      cases hnone
    · have htables : s.tables ns' = some t := by
        simpa [Function.update_of_ne hns] using ht
      exact hset.watched ns' t htables hmade hnot

/-- The command goes on, unless it ends and leaves a table that is not mirrored. -/
lemma Keeps.resume (h : s.Keeps) {program : WireProgram Doc}
    (hends : goesOn program = false → ¬ s.Unfinished i) : (s.resume i program).Keeps := by
  refine h.set (h.pending i) fun ns t ht hnot htends => ⟨?_, nofun⟩
  cases hgo : goesOn program with
  | true => exact htends.1
  | false => exact absurd ⟨ns, htends.1, htends.1, t, ht, hnot⟩ (hends hgo)

/-! ### What a statement leaves alone -/

/-- Changing the transaction. -/
lemma leaves_set (s : MirrorSystem ι) (i : ι) {c : MirrorConnection}
    (hprogram : c.program = (s.connections i).program)
    (hadopting : c.adopting = (s.connections i).adopting)
    (hmaking : c.making = (s.connections i).making) : s.Leaves i (s.set i c) := by
  refine ⟨fun _ hj => set_connections_of_ne s hj c, ?_, ?_, ?_⟩
  · rw [set_connections_self, hprogram]
  · rw [set_connections_self, hadopting]
  · rw [set_connections_self, hmaking]

/-- Committing. -/
lemma leaves_commit (s : MirrorSystem ι) (i : ι) : s.Leaves i (s.commit i) := by
  have hset : s.Leaves i (s.set i { s.connections i with transaction := none }) :=
    leaves_set s i rfl rfl rfl
  exact ⟨hset.others, hset.program, hset.adopting, hset.making⟩

/-- Rolling back. -/
lemma leaves_rollback (s : MirrorSystem ι) (i : ι) : s.Leaves i (s.rollback i) :=
  leaves_set s i rfl rfl rfl

/-- Beginning a transaction. -/
lemma leaves_begin (s : MirrorSystem ι) (i : ι) : s.Leaves i (s.begin i) := by
  have hcommit := leaves_commit s i
  exact hcommit.trans
    (leaves_set _ i hcommit.program.symm hcommit.adopting.symm hcommit.making.symm)

/-- Changing rows. -/
lemma leaves_change {ns : Namespace} {op : OplogOp} {n : ℕ} (hs : s.change i ns op n = some s') :
    s.Leaves i s' := by
  unfold change at hs
  split at hs
  · cases hs
  · split at hs
    · obtain rfl := Option.some.inj hs
      exact ⟨fun _ _ => rfl, rfl, rfl, rfl⟩
    · obtain rfl := Option.some.inj hs
      exact leaves_set s i rfl rfl rfl

/-- Creating a table, which is being made from then on. -/
lemma createTable_connections (s : MirrorSystem ι) (i : ι) (ns : Namespace) :
    (∀ j, j ≠ i → (s.createTable i ns).connections j = s.connections j) ∧
      ∀ ns' ∈ ((s.createTable i ns).connections i).making,
        ns' = ns ∨ (s.connections i).making = some ns' := by
  unfold createTable
  split
  · exact ⟨fun _ _ => rfl, fun ns' hns' => .inr hns'⟩
  · refine ⟨fun j hj => set_connections_of_ne s hj _, fun ns' hns' => .inl ?_⟩
    rw [set_connections_self] at hns'
    exact (Option.mem_some_iff.1 hns').symm

/-! ### Steps -/

/-- When a statement changes rows, no command is making the table. -/
lemma Inv.mirrored_of_written (h : s.Inv) {ns : Namespace}
    (hmaking : (s.connections i).making = none) (hguard : ∀ j, j ≠ i → ¬ s.HalfMade j ns) :
    ∀ t ∈ s.tables ns, t.made = true → t.mirrored = true := by
  intro t ht hmade
  by_contra hnot
  have hfalse := Bool.eq_false_of_not_eq_true hnot
  obtain ⟨j, hj, -⟩ := h.keeps.watched ns t ht hmade hfalse
  by_cases hji : j = i
  · subst hji
    have hnone := hmaking.symm.trans hj
    cases hnone
  · exact hguard j hji ⟨hj, t, ht, hfalse⟩

/-- A table is created. -/
lemma Inv.create (h : s.Inv) {ns : Namespace}
    {next : Except TranslatorError Unit → WireProgram Doc}
    (hprogram : (s.connections i).program =
      .ask (.sql .connection (.define (.createTable ns))) next) :
    s.Between i (next (.ok ())) ((s.commit i).createTable i ns) := by
  have hmaking := h.making_eq_none hprogram fun _ heq => by cases heq
  have hadopting := h.adopting_eq_none hprogram fun _ heq => by cases heq
  have hcommit := leaves_commit s i
  obtain ⟨hothers, hmade⟩ := createTable_connections (s.commit i) i ns
  obtain ⟨g, hadopts, -⟩ := (h.sound i).adopts
  rw [hprogram] at hadopts
  refine ⟨(h.keeps.commit i).createTable ns (hcommit.making.trans hmaking)
      (hcommit.adopting.trans hadopting),
    fun j hj => (hothers j hj).trans (hcommit.others j hj), some ns, hadopts.2 (.ok ()), ?_⟩
  intro ns' hns'
  rcases hmade ns' hns' with rfl | hbefore
  · rfl
  · have hsome := (hcommit.making.trans hmaking).symm.trans hbefore
    cases hsome

/-- Rows are changed. -/
lemma Inv.write (h : s.Inv) {q : Request} {op : OplogOp} {r : q.Answer} {n : ℕ}
    {next : Except TranslatorError q.Answer → WireProgram Doc}
    (hprogram : (s.connections i).program = .ask (.sql .connection (.table q)) next)
    (hguard : ∀ j, j ≠ i → ¬ s.HalfMade j q.ns) (hs : s.change i q.ns op n = some s') :
    s.Between i (next (.ok r)) s' := by
  have hmaking := h.making_eq_none hprogram fun _ heq => by cases heq
  have htable := h.mirrored_of_written hmaking hguard
  have hleaves := leaves_change hs
  exact ⟨h.keeps.change htable hs, hleaves.others, h.adopts_next hprogram hleaves fun _ => rfl⟩

/-- **A statement of a command.** -/
theorem Inv.effect (h : s.Inv) {q : Question} {next : q.Answer → WireProgram Doc} {r : q.Answer}
    {n : ℕ} (hprogram : (s.connections i).program = .ask q next)
    (hguard : ∀ ns ∈ q.written, ∀ j, j ≠ i → ¬ s.HalfMade j ns)
    (hs : s.effect i n q r = some s') : s.Between i (next r) s' := by
  -- Nothing is noted, and nothing new is made.
  have hleaves : s'.Keeps → s.Leaves i s' → (∀ g, noteTable q r g = g) → s.Between i (next r) s' :=
    fun hkeeps hleaves hnote => ⟨hkeeps, hleaves.others, h.adopts_next hprogram hleaves hnote⟩
  unfold MirrorSystem.effect at hs
  split at hs
  · obtain rfl := Option.some.inj hs
    exact hleaves (h.keeps.begin i) (leaves_begin s i) fun _ => rfl
  · obtain rfl := Option.some.inj hs
    exact hleaves (h.keeps.commit i) (leaves_commit s i) fun _ => rfl
  · obtain rfl := Option.some.inj hs
    exact hleaves (h.keeps.rollback i) (leaves_rollback s i) fun _ => rfl
  · obtain rfl := Option.some.inj hs
    exact hleaves (h.keeps.rollback i) (leaves_rollback s i) fun _ => rfl
  · obtain rfl := Option.some.inj hs
    exact h.create hprogram
  · next definition _ hother =>
    obtain rfl := Option.some.inj hs
    refine hleaves (h.keeps.commit i) (leaves_commit s i) fun g => ?_
    unfold noteTable
    split
    · next heq =>
      cases heq
      exact (hother _ _ rfl rfl).elim
    · next heq => cases heq
    · rfl
  · cases hs
  · next q _ =>
    cases hop : q.op with
    | none =>
      rw [hop] at hs
      obtain rfl := Option.some.inj hs
      exact hleaves h.keeps (Leaves.refl s i) fun _ => rfl
    | some op =>
      rw [hop] at hs
      have hwritten : q.ns ∈ Question.written (.sql .connection (.table q)) := by
        simp [Question.written, hop]
      exact h.write hprogram (hguard q.ns hwritten) hs
  · next hdefine hadopt _ =>
    obtain rfl := Option.some.inj hs
    refine hleaves h.keeps (Leaves.refl s i) fun g => ?_
    unfold noteTable
    split
    · exact (hdefine _ _ rfl HEq.rfl).elim
    · exact (hadopt _ _ rfl HEq.rfl).elim
    · rfl

/-- Another connection is as it was. -/
lemma Inv.of_others (h : s.Inv) (hkeeps : s'.Keeps)
    (hothers : ∀ j, j ≠ i → s'.connections j = s.connections j) (hi : (s'.connections i).Sound) :
    s'.Inv := by
  refine ⟨hkeeps, fun j => ?_⟩
  by_cases hji : j = i
  · rwa [hji]
  · rw [hothers j hji]
    exact h.sound j

/-- A statement that leaves the command alone. -/
lemma Inv.of_leaves (h : s.Inv) (hkeeps : s'.Keeps) (hleaves : s.Leaves i s') : s'.Inv := by
  have hsound := h.sound i
  refine h.of_others hkeeps hleaves.others ⟨?_, ?_, ?_⟩
  · rw [hleaves.program, hleaves.making]
    exact hsound.adopts
  · rw [hleaves.program, hleaves.making]
    exact hsound.idle
  · rw [hleaves.program, hleaves.adopting]
    exact hsound.calls

/-- The command goes on after a statement. -/
lemma Inv.resume (h : s.Inv) (hkeeps : s'.Keeps)
    (hothers : ∀ j, j ≠ i → s'.connections j = s.connections j) {program : WireProgram Doc}
    (hadopts : ∃ g, Adopts program g ∧ ∀ ns ∈ (s'.connections i).making, g = some ns)
    (hends : goesOn program = false → ¬ s'.Unfinished i) : (s'.resume i program).Inv := by
  obtain ⟨g, hprogram, hmaking⟩ := hadopts
  refine h.of_others (hkeeps.resume hends)
    (fun j hj => (set_connections_of_ne s' hj _).trans (hothers j hj)) ?_
  unfold MirrorSystem.resume
  rw [set_connections_self]
  refine ⟨⟨g, hprogram, fun ns hns => ?_⟩, fun hended => ?_, fun hcall => absurd rfl hcall⟩
  · cases hgo : goesOn program with
    | true =>
      simp only [hgo, if_true] at hns
      exact hmaking ns hns
    | false => simp [hgo] at hns
  · exact if_neg (by simpa using hended)

/-- A command begins. -/
lemma Inv.start (h : s.Inv) (command : MirrorCommand) (hidle : s.busy i = false) :
    (s.resume i command.program).Inv := by
  have hmaking := (h.sound i).idle hidle
  refine h.resume h.keeps (fun _ _ => rfl) ⟨none, adopts_program command, fun ns hns => ?_⟩ ?_
  · have hnone := hmaking.symm.trans hns
    cases hnone
  · rintro - ⟨ns, hns, -⟩
    have hnone := hmaking.symm.trans hns
    cases hnone

/-- The call of `chimera_adopt_table` begins. -/
lemma Inv.call (h : s.Inv) {ns : Namespace}
    {next : Except TranslatorError Unit → WireProgram Doc}
    (hprogram : (s.connections i).program = .ask (.sql .connection (.adopt ns)) next) :
    (s.set i { s.connections i with adopting := some adoptTriggers }).Inv := by
  have hall : ∀ op : OplogOp, op ∈ adoptTriggers := fun op => by
    cases op <;> decide
  have hkeeps : (s.set i { s.connections i with adopting := some adoptTriggers }).Keeps := by
    refine h.keeps.set (h.keeps.pending i) fun ns' t _ _ htends => ⟨htends.1, fun ops hops => ?_⟩
    obtain rfl := Option.mem_some_iff.1 hops
    exact fun op => .inl (hall op)
  refine h.of_others hkeeps (fun j hj => set_connections_of_ne s hj _) ?_
  rw [set_connections_self]
  exact ⟨(h.sound i).adopts, (h.sound i).idle, fun _ => ⟨ns, next, hprogram⟩⟩

/-- The call ends with an error. -/
lemma Inv.refuse (h : s.Inv) {ns : Namespace}
    {next : Except TranslatorError Unit → WireProgram Doc} (e : TranslatorError)
    (hprogram : (s.connections i).program = .ask (.sql .connection (.adopt ns)) next)
    (hends : ¬ s.Unfinished i) : (s.resume i (next (.error e))).Inv := by
  obtain ⟨g, hadopts, hmaking⟩ := (h.sound i).adopts
  rw [hprogram] at hadopts
  exact h.resume h.keeps (fun _ _ => rfl) ⟨g, hadopts.2 (.error e), hmaking⟩ fun _ => hends

/-- Installing a trigger leaves the connection alone. -/
lemma leaves_installTrigger (s : MirrorSystem ι) (i : ι) (ns : Namespace) (t : CollectionTable)
    (op : OplogOp) : s.Leaves i (s.installTrigger i ns t op) := by
  have hcommit := leaves_commit s i
  exact ⟨hcommit.others, hcommit.program, hcommit.adopting, hcommit.making⟩

/-- When a trigger is installed, the table that the command makes has it, and lacks only those that
are still to be installed. -/
lemma Inv.tends_installed (h : s.Inv) {ns : Namespace}
    {next : Except TranslatorError Unit → WireProgram Doc} {op : OplogOp} {ops : List OplogOp}
    {t : CollectionTable}
    (hprogram : (s.connections i).program = .ask (.sql .connection (.adopt ns)) next)
    (hadopting : (s.connections i).adopting = some (op :: ops)) :
    ∀ ns', ∀ t' ∈ (s.installTrigger i ns t op).tables ns',
      ((s.installTrigger i ns t op).connections i).Tends ns' t' →
        ∀ op', op' ∈ ops ∨ t'.triggers op' = true := by
  have hleaves := leaves_installTrigger s i ns t op
  obtain ⟨g, hadopts, hmaking⟩ := (h.sound i).adopts
  rw [hprogram] at hadopts
  intro ns' t' ht' htends op'
  -- The table that the command makes is the one whose trigger this is.
  have hmade := hleaves.making.symm.trans htends.1
  obtain rfl := eq_of_mayAsk (hmaking ns' hmade) hadopts.1
  obtain rfl : t.install op = t' := by
    simpa [installTrigger] using ht'
  rcases htends.2 _ (hleaves.adopting.trans hadopting) op' with hmem | hthere
  · rcases List.mem_cons.1 hmem with rfl | hmem
    · exact .inr (install_self t op')
    · exact .inl hmem
  · exact .inr hthere

/-- The last trigger is installed, and the call ends. -/
lemma Inv.trigger_last (h : s.Inv) {ns : Namespace}
    {next : Except TranslatorError Unit → WireProgram Doc} {op : OplogOp} {t : CollectionTable}
    (ht : s.tables ns = some t)
    (hprogram : (s.connections i).program = .ask (.sql .connection (.adopt ns)) next)
    (hadopting : (s.connections i).adopting = some [op]) :
    (((s.installTrigger i ns t op).set i
      { (s.installTrigger i ns t op).connections i with making := none }).resume i
        (next (.ok ()))).Inv := by
  have hleaves := leaves_installTrigger s i ns t op
  have hkeeps : (s.installTrigger i ns t op).Keeps := (h.keeps.commit i).install ht op
  obtain ⟨g, hadopts, -⟩ := (h.sound i).adopts
  rw [hprogram] at hadopts
  have hset : ((s.installTrigger i ns t op).set i
      { (s.installTrigger i ns t op).connections i with making := none }).Keeps := by
    refine hkeeps.set (hkeeps.pending i) fun ns' t' ht' hnot htends => ?_
    have hall := h.tends_installed hprogram hadopting ns' t' ht' htends
    have hmirrored : t'.mirrored = true :=
      mirrored_of_triggers fun op' => (hall op').resolve_left List.not_mem_nil
    rw [hmirrored] at hnot
    cases hnot
  refine h.resume hset (fun j hj => ?_) ⟨none, hadopts.2 (.ok ()), fun ns' hns' => ?_⟩ ?_
  · exact (set_connections_of_ne _ hj _).trans (hleaves.others j hj)
  · rw [set_connections_self] at hns'
    cases hns'
  · rintro - ⟨ns', hns', -⟩
    rw [set_connections_self] at hns'
    cases hns'

/-- A trigger is installed, and others are still to be installed. -/
lemma Inv.trigger_next (h : s.Inv) {ns : Namespace}
    {next : Except TranslatorError Unit → WireProgram Doc} {op : OplogOp} {ops : List OplogOp}
    {t : CollectionTable} (ht : s.tables ns = some t)
    (hprogram : (s.connections i).program = .ask (.sql .connection (.adopt ns)) next)
    (hadopting : (s.connections i).adopting = some (op :: ops)) :
    ((s.installTrigger i ns t op).set i
      { (s.installTrigger i ns t op).connections i with adopting := some ops }).Inv := by
  have hleaves := leaves_installTrigger s i ns t op
  have hkeeps : (s.installTrigger i ns t op).Keeps := (h.keeps.commit i).install ht op
  have hprogram' := hleaves.program.trans hprogram
  have hset : ((s.installTrigger i ns t op).set i
      { (s.installTrigger i ns t op).connections i with adopting := some ops }).Keeps := by
    refine hkeeps.set (hkeeps.pending i) fun ns' t' ht' _ htends => ?_
    refine ⟨htends.1, fun ops' hops' => ?_⟩
    obtain rfl := Option.mem_some_iff.1 hops'
    exact h.tends_installed hprogram hadopting ns' t' ht' htends
  obtain ⟨g, hadopts, hmaking⟩ := (h.sound i).adopts
  refine h.of_others hset
    (fun j hj => (set_connections_of_ne _ hj _).trans (hleaves.others j hj)) ?_
  rw [set_connections_self]
  refine ⟨⟨g, ?_, fun ns' hns' => hmaking ns' (hleaves.making.symm.trans hns')⟩, ?_, ?_⟩
  · change Adopts ((s.installTrigger i ns t op).connections i).program g
    rwa [hleaves.program]
  · intro hended
    change goesOn ((s.installTrigger i ns t op).connections i).program = false at hended
    rw [hprogram'] at hended
    cases hended
  · exact fun _ => ⟨ns, next, hprogram'⟩

/-- The connection is lost. -/
lemma Inv.lose (h : s.Inv) (e : TranslatorError) (hends : ¬ s.Unfinished i) :
    ((s.rollback i).resume i (.fail e)).Inv := by
  have hleaves := leaves_rollback s i
  refine h.resume (h.keeps.rollback i) hleaves.others
    ⟨_, adopts_fail e _, fun ns hns => hns⟩ fun _ hunfinished => hends ?_
  obtain ⟨ns, hns, hmade, ht⟩ := hunfinished
  exact ⟨ns, hleaves.making.symm.trans hns, hleaves.making.symm.trans hmade, ht⟩

/-- **The step lemma.** -/
theorem Inv.step (h : s.Inv) {a : MirrorAction ι} (hguard : s.Undivided a)
    (hs : MirrorSystem.step s a = some s') : s'.Inv := by
  unfold MirrorSystem.Undivided at hguard
  unfold MirrorSystem.step at hs
  cases a with
  | start i command =>
    obtain ⟨hidle, hresumed⟩ := Option.ite_none_left_eq_some.1 hs
    obtain rfl := Option.some.inj hresumed
    exact h.start command (by simpa using hidle)
  | answer i reply n =>
    simp only at hs hguard
    split at hs
    · next q next hprogram =>
      simp only [hprogram] at hguard
      obtain ⟨s₁, heffect, rfl⟩ := Option.map_eq_some_iff.1 hs
      obtain ⟨hkeeps, hothers, hadopts⟩ := h.effect hprogram hguard.2 heffect
      exact h.resume hkeeps hothers hadopts fun hended => hguard.1 hended s₁ heffect
    · cases hs
  | call i =>
    simp only at hs hguard
    split at hs
    · next ns next hprogram =>
      simp only [hprogram] at hguard
      split at hs
      · cases hs
      · split at hs
        · obtain rfl := Option.some.inj hs
          exact h.call hprogram
        · next hnot =>
          obtain rfl := Option.some.inj hs
          exact h.refuse _ hprogram (hguard (by simpa using hnot))
    · cases hs
  | trigger i =>
    simp only at hs
    split at hs
    · next ns next op ops hprogram hadopting =>
      split at hs
      · cases hs
      · next t ht =>
        split at hs
        · next hops =>
          subst hops
          obtain rfl := Option.some.inj hs
          exact h.trigger_last ht hprogram hadopting
        · obtain rfl := Option.some.inj hs
          exact h.trigger_next ht hprogram hadopting
    · cases hs
  | fails i e =>
    simp only at hs hguard
    split at hs
    · next ns next hprogram =>
      obtain rfl := Option.some.inj hs
      exact h.refuse e hprogram hguard
    · cases hs
  | lose i =>
    obtain rfl := Option.some.inj hs
    exact h.lose _ hguard
  | drop i ns =>
    obtain ⟨-, hended⟩ := Option.ite_none_left_eq_some.1 hs
    obtain rfl := Option.some.inj hended
    exact (h.of_leaves (h.keeps.commit i) (leaves_commit s i)).remove _
  | dropDatabase i db =>
    obtain ⟨-, hended⟩ := Option.ite_none_left_eq_some.1 hs
    obtain rfl := Option.some.inj hended
    exact (h.of_leaves (h.keeps.commit i) (leaves_commit s i)).remove _
  | openTransaction i =>
    obtain ⟨-, hended⟩ := Option.ite_none_left_eq_some.1 hs
    obtain rfl := Option.some.inj hended
    exact h.of_leaves (h.keeps.begin i) (leaves_begin s i)
  | raw i ns op n =>
    obtain ⟨hidle, hchange⟩ := Option.ite_none_left_eq_some.1 hs
    have hmaking := (h.sound i).idle (Bool.eq_false_of_not_eq_true hidle)
    exact h.of_leaves (h.keeps.change (h.mirrored_of_written hmaking hguard) hchange)
      (leaves_change hchange)
  | endTransaction i keep =>
    obtain ⟨-, hended⟩ := Option.ite_none_left_eq_some.1 hs
    obtain rfl := Option.some.inj hended
    cases keep with
    | true => exact h.of_leaves (h.keeps.commit i) (leaves_commit s i)
    | false => exact h.of_leaves (h.keeps.rollback i) (leaves_rollback s i)

/-- The invariant holds along a run. -/
lemma Inv.run (h : s.Inv) {as : List (MirrorAction ι)}
    (hrun : Run MirrorSystem.step Undivided s as s') : s'.Inv :=
  hrun.invariant (fun _ _ _ hinv hguard hstep => hinv.step hguard hstep) h

end Inv

/-! ## Runs -/

instance {ι : Type} [DecidableEq ι] [Fintype ι] (s : MirrorSystem ι) (i : ι)
    (reply : (q : Question) → q.Answer) (n : ℕ) : Decidable (s.Undivided (.answer i reply n)) := by
  unfold Undivided
  dsimp only
  split <;> infer_instance

instance {ι : Type} [DecidableEq ι] [Fintype ι] (s : MirrorSystem ι) :
    (a : MirrorAction ι) → Decidable (s.Undivided a)
  | .answer i reply n => inferInstance
  | .call i => by
    unfold Undivided
    dsimp only
    split <;> infer_instance
  | .fails i _ | .lose i => inferInstanceAs (Decidable (¬ s.Unfinished i))
  | .raw i ns _ _ => inferInstanceAs (Decidable (∀ j, j ≠ i → ¬ s.HalfMade j ns))
  | .start _ _ | .trigger _ | .drop _ _ | .dropDatabase _ _ | .openTransaction _
  | .endTransaction _ _ => .isTrue trivial

/-- **Mirror completeness.**  In every run in which no command stops between its `CREATE TABLE` and
its third trigger while the table is there, and no statement changes rows of a table while another
command is between the two, every row that is committed to a table which `Collection::create` made
has changed under all three triggers, and exactly one row was appended for it to the oplog, in its
own transaction. -/
theorem mirror_complete {ι : Type} [DecidableEq ι] {s s' : MirrorSystem ι}
    {as : List (MirrorAction ι)} (hinitial : s.Initial)
    (hrun : Run MirrorSystem.step Undivided s as s') : s'.Mirrors :=
  (hinitial.inv.run hrun).keeps.committed

/-- Two connections, and nothing is there yet. -/
def empty : MirrorSystem (Fin 2) := ⟨fun _ => none, fun _ => ⟨.done [], none, none, none⟩, []⟩

/-- Nothing is there in the beginning. -/
lemma empty_initial : empty.Initial := ⟨fun _ => rfl, nofun, rfl⟩

/-- An insert of one document. -/
def insertOne (ns : Namespace) : MirrorCommand :=
  .write .insert ⟨[("insert".toList, .utf8 ns.collection), ("documents".toList,
    .array [("0".toList, .document [("_id".toList, .utf8 "a".toList)])])],
    ns.db, ns.collection, .ofStrings, fun _ => 0⟩

/-- So many statements of a command, which all succeed. -/
def succeed (i : Fin 2) (k : ℕ) : List (MirrorAction (Fin 2)) :=
  List.replicate k (.answer i Question.agree 1)

/-- Two clients find no table, and both create it and insert a document. -/
def bothCreate : List (MirrorAction (Fin 2)) :=
  let ns : Namespace := ⟨"app".toList, "items".toList⟩
  let adopted i : List (MirrorAction (Fin 2)) := [.call i, .trigger i, .trigger i, .trigger i]
  [.start 0 (insertOne ns), .start 1 (insertOne ns)] ++ succeed 0 1 ++ succeed 1 1 ++
    succeed 0 10 ++ adopted 0 ++ succeed 0 4 ++ succeed 1 10 ++ adopted 1 ++ succeed 1 4

/-- Both rows are in the oplog. -/
theorem mirror_complete_bothCreate : ∃ s, Run MirrorSystem.step Undivided empty bothCreate s ∧
    s.Mirrors ∧ s.committed.map (fun tx => tx.map fun c => (c.table.made, c.appended.length)) =
      [[(true, 1)], [(true, 1)]] := by
  have h : (runActions (fun s a => if Undivided s a then MirrorSystem.step s a else none) empty
      bothCreate).any (fun s => decide
        (s.committed.map (fun tx => tx.map fun c => (c.table.made, c.appended.length)) =
          [[(true, 1)], [(true, 1)]])) = true := by
    decide +kernel
  obtain ⟨s, hs, hrows⟩ := Option.any_eq_true _ _ |>.1 h
  have hrun := run_of_runActions hs
  exact ⟨s, hrun, mirror_complete empty_initial hrun, of_decide_eq_true hrows⟩

/-- A name with a blank is accepted; `chimera_adopt_table` refuses it when the table is there. -/
def refusedName : Namespace := ⟨"app".toList, "my items".toList⟩

/-- A client creates the table and is refused, and another one inserts. -/
def refusedThenInsert : List (MirrorAction (Fin 2)) :=
  [.start 0 (insertOne refusedName)] ++ succeed 0 11 ++ [.call 0] ++
    [.start 1 (insertOne refusedName)] ++ succeed 1 5

/-- Its document is committed, and not in the oplog. -/
theorem mirror_incomplete_refused :
    parseNamespace refusedName.db refusedName.collection = .ok refusedName ∧ empty.Initial ∧
      ∃ s, Steps MirrorSystem.step empty refusedThenInsert s ∧
        (∃ tx ∈ s.committed, ∃ c ∈ tx, c.ns = refusedName ∧ c.op = .i ∧ c.table.made = true ∧
          c.table.mirrored = false ∧ c.appended = []) ∧ ¬ s.Mirrors := by
  refine ⟨rfl, empty_initial, ?_⟩
  have h : (runActions MirrorSystem.step empty refusedThenInsert).any (fun s =>
      s.committed.any fun tx => tx.any fun c => decide (c.ns = refusedName ∧ c.op = .i ∧
        c.table.made = true ∧ c.table.mirrored = false ∧ c.appended = [])) = true := by
    decide +kernel
  obtain ⟨s, hs, hsome⟩ := Option.any_eq_true _ _ |>.1 h
  obtain ⟨tx, htx, hrow⟩ := List.any_eq_true.1 hsome
  obtain ⟨c, hc, hlost⟩ := List.any_eq_true.1 hrow
  have hunmirrored := of_decide_eq_true hlost
  refine ⟨s, steps_of_runActions hs, ⟨tx, htx, c, hc, hunmirrored⟩, fun hmirrors => ?_⟩
  have hmirrored := (hmirrors tx htx c hc hunmirrored.2.2.1).1
  rw [hunmirrored.2.2.2.1] at hmirrored
  cases hmirrored

end MirrorSystem

end Chimera

import Mathlib.Data.List.Basic
import Mathlib.Tactic.Common

/-!
# Guarded runs of a partial step function

A system is a partial function `step : σ → α → Option σ`: the state after an action, or `none`
where the action is not enabled.  `Run step guard s as t` says that performing the actions `as`
from `s` is possible, ends in `t`, and that every action met `guard` in the state it was taken
in.  The guard is how a result about *some* runs is stated without touching the system: the
unguarded runs are the runs of the guard that always holds.

The rules proved here are the ones every invariant argument uses: a property kept by each step
holds along a run (`Run.invariant`), a preorder respected by each step relates the two ends
of a run (`Run.relate`), and a concrete run is obtained by evaluating `runActions`.
-/

namespace StepSystem

variable {σ α : Type*}

/-- A run of `step` in which every action meets `guard` in the state it is taken in. -/
inductive Run (step : σ → α → Option σ) (guard : σ → α → Prop) : σ → List α → σ → Prop
  /-- The empty run. -/
  | nil (s : σ) : Run step guard s [] s
  /-- One enabled action that meets the guard, then a run. -/
  | cons {s s' t : σ} {a : α} {as : List α} :
      guard s a → step s a = some s' → Run step guard s' as t → Run step guard s (a :: as) t

/-- The runs of a system, with no condition on the actions. -/
abbrev Steps (step : σ → α → Option σ) : σ → List α → σ → Prop :=
  Run step fun _ _ => True

/-- Perform the actions one after the other, stopping where one is not enabled. -/
def runActions (step : σ → α → Option σ) : σ → List α → Option σ
  | s, [] => some s
  | s, a :: as => (step s a).bind fun s' => runActions step s' as

variable {step : σ → α → Option σ} {guard : σ → α → Prop}

/-- Evaluating a list of actions yields a run. -/
lemma steps_of_runActions {as : List α} {s t : σ} (h : runActions step s as = some t) :
    Steps step s as t := by
  induction as generalizing s with
  | nil =>
    obtain rfl : s = t := by simpa [runActions] using h
    exact Run.nil s
  | cons a as ih =>
    obtain ⟨s', hs', ht⟩ := Option.bind_eq_some_iff.mp h
    exact Run.cons trivial hs' (ih ht)

/-- A run whose actions all meet a decidable guard is obtained by evaluation too. -/
lemma run_of_runActions [∀ s a, Decidable (guard s a)] {as : List α} {s t : σ}
    (h : runActions (fun s a => if guard s a then step s a else none) s as = some t) :
    Run step guard s as t := by
  induction as generalizing s with
  | nil =>
    obtain rfl : s = t := by simpa [runActions] using h
    exact Run.nil s
  | cons a as ih =>
    obtain ⟨s', hs', ht⟩ := Option.bind_eq_some_iff.mp h
    by_cases hg : guard s a
    · exact Run.cons hg (by simpa [hg] using hs') (ih ht)
    · simp [hg] at hs'

namespace Run

/-- One action is a run. -/
lemma single {s t : σ} {a : α} (hg : guard s a) (h : step s a = some t) :
    Run step guard s [a] t :=
  Run.cons hg h (Run.nil t)

/-- Runs compose. -/
lemma append {s t u : σ} {as bs : List α} (h : Run step guard s as t)
    (h' : Run step guard t bs u) : Run step guard s (as ++ bs) u := by
  induction h with
  | nil => exact h'
  | cons hg hs _ ih => exact Run.cons hg hs (ih h')

/-- A run of an appended list of actions splits. -/
lemma split {s u : σ} {as bs : List α} (h : Run step guard s (as ++ bs) u) :
    ∃ t, Run step guard s as t ∧ Run step guard t bs u := by
  induction as generalizing s with
  | nil => exact ⟨s, Run.nil s, h⟩
  | cons a as ih =>
    cases h with
    | cons hg hs hrest =>
      obtain ⟨t, h₁, h₂⟩ := ih hrest
      exact ⟨t, Run.cons hg hs h₁, h₂⟩

/-- A run that meets a guard meets every weaker one. -/
lemma mono {guard' : σ → α → Prop} (hg : ∀ s a, guard s a → guard' s a) {s t : σ}
    {as : List α} (h : Run step guard s as t) : Run step guard' s as t := by
  induction h with
  | nil s => exact Run.nil s
  | cons hga hs _ ih => exact Run.cons (hg _ _ hga) hs ih

/-- Where all actions of a run meet a condition, the run is guarded by it, too. -/
lemma and_forall_mem {G : α → Prop} {s t : σ} {as : List α} (h : Run step guard s as t)
    (hG : ∀ a ∈ as, G a) : Run step (fun s a => G a ∧ guard s a) s as t := by
  induction h with
  | nil s => exact Run.nil s
  | cons hg hs _ ih =>
    exact Run.cons ⟨hG _ List.mem_cons_self, hg⟩ hs
      (ih fun a ha => hG a (List.mem_cons_of_mem _ ha))

/-- A run without a guard is guarded by what all its actions meet. -/
lemma of_forall_mem {G : α → Prop} {s t : σ} {as : List α} (h : Steps step s as t)
    (hG : ∀ a ∈ as, G a) : Run step (fun _ a => G a) s as t :=
  (h.and_forall_mem hG).mono fun _ _ hg => hg.1

/-- **The strengthening rule.**  Where an invariant gives a further condition on the actions that
are taken, the run is guarded by it, too. -/
theorem strengthen {P : σ → Prop} {G : σ → α → Prop}
    (hstep : ∀ s a s', P s → guard s a → step s a = some s' → P s' ∧ G s a)
    {s t : σ} {as : List α} (h : Run step guard s as t) (hs : P s) :
    Run step (fun s a => guard s a ∧ G s a) s as t := by
  induction h with
  | nil s => exact Run.nil s
  | cons hg hst _ ih =>
    obtain ⟨hP, hguard⟩ := hstep _ _ _ hs hg hst
    exact Run.cons ⟨hg, hguard⟩ hst (ih hP)

/-- **The invariant rule.**  A property kept by every action that meets the guard holds at the
end of a run it holds at the start of. -/
theorem invariant {P : σ → Prop}
    (hstep : ∀ s a s', P s → guard s a → step s a = some s' → P s')
    {s t : σ} {as : List α} (h : Run step guard s as t) (hs : P s) : P t := by
  induction h with
  | nil => exact hs
  | cons hg hst _ ih => exact ih (hstep _ _ _ hs hg hst)

/-- Two runs of the same actions from one state end in one state. -/
lemma unique {guard' : σ → α → Prop} {s t t' : σ} {as : List α} (h : Run step guard s as t)
    (h' : Run step guard' s as t') : t = t' := by
  induction h with
  | nil => cases h' with
    | nil => rfl
  | cons _ hs _ ih => cases h' with
    | cons _ hs' hrest =>
      obtain rfl := Option.some.inj (hs.symm.trans hs')
      exact ih hrest

/-- **The exact invariant rule.**  Where an enabled action keeps a property exactly when it meets
the guard, the property holds all along a run exactly when the run meets the guard. -/
theorem invariant_iff {P : σ → Prop}
    (hstep : ∀ s a s', P s → step s a = some s' → (P s' ↔ guard s a))
    {s t : σ} {as : List α} (h : Steps step s as t) (hs : P s) :
    (∀ as' s', as' <+: as → Steps step s as' s' → P s') ↔ Run step guard s as t := by
  constructor
  · intro hall
    induction h with
    | nil s => exact Run.nil s
    | @cons s s' t a as _ hst hrest ih =>
      have hs' : P s' := hall [a] s' (List.prefix_append [a] as) (Run.single trivial hst)
      refine Run.cons ((hstep s a s' hs hst).1 hs') hst (ih hs' fun as' u hleads hu => ?_)
      exact hall (a :: as') u (List.cons_prefix_cons.2 ⟨rfl, hleads⟩) (Run.cons trivial hst hu)
  · rintro hrun as' s' ⟨bs, rfl⟩ hs'
    obtain ⟨u, hu, -⟩ := hrun.split
    obtain rfl := hu.unique hs'
    exact hu.invariant (fun s a s' hs hg hst => (hstep s a s' hs hst).2 hg) hs

/-- **The preorder rule.**  A reflexive and transitive relation that every action respects, from
the states where an invariant holds, relates the start of a run to its end. -/
theorem relate {P : σ → Prop} (R : σ → σ → Prop) (hrefl : ∀ s, R s s)
    (htrans : ∀ s t u, R s t → R t u → R s u)
    (hstep : ∀ s a s', P s → guard s a → step s a = some s' → P s' ∧ R s s')
    {s t : σ} {as : List α} (h : Run step guard s as t) (hs : P s) : R s t := by
  induction h with
  | nil s => exact hrefl s
  | cons hg hst _ ih =>
    obtain ⟨hP, hR⟩ := hstep _ _ _ hs hg hst
    exact htrans _ _ _ hR (ih hP)

/-- **The measure rule.**  Where every action keeps an invariant and lets a measure grow by nothing,
and the actions that count let it fall, a run has at most as many of them as the measure says. -/
theorem countP_le {P : σ → Prop} {μ : σ → ℕ} {counts : α → Bool}
    (hstep : ∀ s a s', P s → guard s a → step s a = some s' →
      P s' ∧ μ s' + (if counts a then 1 else 0) ≤ μ s)
    {s t : σ} {as : List α} (h : Run step guard s as t) (hs : P s) :
    as.countP counts + μ t ≤ μ s := by
  induction h with
  | nil => simp
  | @cons s s' t a as hg hst _ ih =>
    obtain ⟨hP, hle⟩ := hstep _ _ _ hs hg hst
    have hrest := ih hP
    rw [List.countP_cons]
    omega

end Run

/-- **The progress rule.**  Where some action that meets the guard is enabled as long as the goal is
not reached, and leads closer to it, a run leads to the goal.  How close a state is may depend on
what is only known to exist. -/
theorem exists_run_within {P : σ → ℕ → Prop} {goal : σ → Prop}
    (hprogress : ∀ s n, P s n → ¬ goal s →
      ∃ a s' m, guard s a ∧ step s a = some s' ∧ P s' m ∧ m < n)
    {s : σ} {n : ℕ} (hs : P s n) : ∃ as t, Run step guard s as t ∧ goal t := by
  induction n using Nat.strongRecOn generalizing s with
  | ind n ih =>
    by_cases hgoal : goal s
    · exact ⟨[], s, .nil s, hgoal⟩
    · obtain ⟨a, s', m, hg, hst, hs', hlt⟩ := hprogress s n hs hgoal
      obtain ⟨as, t, hrun, ht⟩ := ih m hlt hs'
      exact ⟨a :: as, t, .cons hg hst hrun, ht⟩

/-- The progress rule, for a measure of the state. -/
theorem exists_run {P goal : σ → Prop} {μ : σ → ℕ}
    (hprogress : ∀ s, P s → ¬ goal s → ∃ a s', guard s a ∧ step s a = some s' ∧ P s' ∧ μ s' < μ s)
    {s : σ} (hs : P s) : ∃ as t, Run step guard s as t ∧ goal t := by
  refine exists_run_within (P := fun s n => P s ∧ μ s = n) (fun s n ⟨hP, hn⟩ hgoal => ?_) ⟨hs, rfl⟩
  obtain ⟨a, s', hg, hst, hs', hlt⟩ := hprogress s hP hgoal
  exact ⟨a, s', μ s', hg, hst, ⟨hs', rfl⟩, hn ▸ hlt⟩

end StepSystem

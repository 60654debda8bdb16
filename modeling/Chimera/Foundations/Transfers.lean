import Chimera.Foundations.Peers

/-!
# Transfers

A transfer moves a list over a port in rounds.  In a round the surroundings take some of what is
left to write, or bring in some of what is missing; they may do neither, or say that the line is of
no use any more.  The two rules here say how a transfer ends, whatever the surroundings do.  What
one round of a program does is a hypothesis of theirs, so that they hold of every program that goes
on with what is left.
-/

namespace Interaction

namespace Port

variable {ε Q β : Type} {R : Q → Type}

/-- How a transfer ends that writes: everything is written and the line is of use, or it is not and
some of it is written, or the rounds are used up. -/
def WriteEnds (P : Port Q R β) (Alive Lost : Record Q R → Prop) (stop : ε) (rounds : ℕ)
    (items : List β) (g : Record Q R) : Except ε Bool → Record Q R → Prop
  | .ok true, g' => Alive g' ∧ P.Moves g [] items g'
  | .ok false, g' => Lost g' ∧ ∃ before, before <+: items ∧ P.Moves g [] before g'
  | .error e, g' =>
    e = stop ∧ g.length + rounds ≤ g'.length ∧ ∃ before, before <+: items ∧ P.Moves g [] before g'

/-- How a transfer ends that reads, when this was there already: as much as is wanted is read, or
the line is of no use before, or the rounds are used up. -/
def ReadEnds (P : Port Q R β) (Alive Lost : Record Q R → Prop) (stop : ε) (rounds want : ℕ)
    (got : List β) (g : Record Q R) : Except ε (Option (List β)) → Record Q R → Prop
  | .ok (some all), g' =>
    Alive g' ∧ all.length = want ∧ ∃ items, all = got ++ items ∧ P.Moves g items [] g'
  | .ok none, g' => Lost g' ∧ ∃ items, (got ++ items).length < want ∧ P.Moves g items [] g'
  | .error e, g' => e = stop ∧ g.length + rounds ≤ g'.length ∧ ∃ items, P.Moves g items [] g'

variable {P : Port Q R β} {Alive Lost : Record Q R → Prop} {stop : ε} {rounds want : ℕ}
  {items got : List β} {g : Record Q R} {may : Record Q R → Q → Prop}

/-- **Transfers that write.**  A program that goes on with what is left, round by round, and only
while something is left and the line is of use, has written it all in the end, unless the line is
lost or its rounds are used up. -/
theorem writes {f : ℕ → List β → Interaction ε Q R Bool} (hzero : ∀ items, f 0 items = .fail stop)
    (hdone : ∀ rounds, f (rounds + 1) [] = .done true)
    (hround : ∀ rounds before rest g' Post, before ++ rest = items → 0 < rest.length →
      P.Moves g [] before g' → Alive g' →
      (∀ n g'', Alive g'' → g'.length + 1 ≤ g''.length → P.Moves g' [] (rest.take n) g'' →
        (f rounds (rest.drop n)).Obeys may keep g'' Post) →
      (∀ g'', Lost g'' → P.Moves g' [] [] g'' → Post (.ok false) g'') →
      (f (rounds + 1) rest).Obeys may keep g' Post) (halive : Alive g) :
    (f rounds items).Obeys may keep g (P.WriteEnds Alive Lost stop rounds items g) := by
  -- the rounds that are left, and those that were made, each of at least one question
  have hall : ∀ left before rest g', before ++ rest = items → P.Moves g [] before g' → Alive g' →
      g.length + rounds ≤ g'.length + left →
      (f left rest).Obeys may keep g' (P.WriteEnds Alive Lost stop rounds items g) := by
    intro left
    induction left with
    | zero =>
      intro before rest g' hitems hmoves _ hrounds
      rw [hzero]
      exact ⟨rfl, hrounds, before, ⟨rest, hitems⟩, hmoves⟩
    | succ left ih =>
      intro before rest g' hitems hmoves halive' hrounds
      by_cases hrest : rest = []
      · rw [hrest, List.append_nil] at hitems
        rw [hrest, hdone]
        exact ⟨halive', hitems ▸ hmoves⟩
      · refine hround left before rest g' _ hitems (List.length_pos_iff.2 hrest) hmoves halive'
          (fun n g'' halive'' hlater hmore => ?_) fun g'' hlost hmore => ?_
        · refine ih (before ++ rest.take n) (rest.drop n) g'' ?_ (hmoves.trans hmore) halive''
            (by omega)
          rw [List.append_assoc, List.take_append_drop, hitems]
        · have hmoved : P.Moves g [] before g'' := by simpa using hmoves.trans hmore
          exact ⟨hlost, before, ⟨rest, hitems⟩, hmoved⟩
  exact hall rounds [] items g rfl (Moves.refl g) halive (Nat.le_refl _)

/-- **Transfers that read.**  A program that goes on asking for what is missing, round by round, and
only while something is missing and the line is of use, has read it all in the end, unless the line
is lost or its rounds are used up. -/
theorem reads {f : ℕ → List β → Interaction ε Q R (Option (List β))}
    (hzero : ∀ got, f 0 got = .fail stop)
    (hdone : ∀ rounds got, got.length = want → f (rounds + 1) got = .done (some got))
    (hround : ∀ rounds before g' Post, (got ++ before).length < want → P.Moves g before [] g' →
      Alive g' →
      (∀ more g'', more.length ≤ want - (got ++ before).length → Alive g'' →
        g'.length + 1 ≤ g''.length → P.Moves g' more [] g'' →
        (f rounds (got ++ before ++ more)).Obeys may keep g'' Post) →
      (∀ g'', Lost g'' → P.Moves g' [] [] g'' → Post (.ok none) g'') →
      (f (rounds + 1) (got ++ before)).Obeys may keep g' Post) (halive : Alive g)
    (hgot : got.length ≤ want) :
    (f rounds got).Obeys may keep g (P.ReadEnds Alive Lost stop rounds want got g) := by
  have hall : ∀ left before g', (got ++ before).length ≤ want → P.Moves g before [] g' →
      Alive g' → g.length + rounds ≤ g'.length + left →
      (f left (got ++ before)).Obeys may keep g'
        (P.ReadEnds Alive Lost stop rounds want got g) := by
    intro left
    induction left with
    | zero =>
      intro before g' _ hmoves _ hrounds
      rw [hzero]
      exact ⟨rfl, hrounds, before, hmoves⟩
    | succ left ih =>
      intro before g' hlength hmoves halive' hrounds
      rcases Nat.lt_or_eq_of_le hlength with hshort | hwhole
      · refine hround left before g' _ hshort hmoves halive'
          (fun more g'' hroom halive'' hlater hmore => ?_) fun g'' hlost hmore => ?_
        · rw [List.append_assoc]
          refine ih (before ++ more) g'' ?_ (hmoves.trans hmore) halive'' (by omega)
          rw [← List.append_assoc, List.length_append]
          omega
        · have hmoved : P.Moves g before [] g'' := by simpa using hmoves.trans hmore
          exact ⟨hlost, before, hshort, hmoved⟩
      · rw [hdone _ _ hwhole]
        exact ⟨halive', hwhole, before, rfl, hmoves⟩
  have hstart := hall rounds [] g (by rwa [List.append_nil]) (Moves.refl g) halive (Nat.le_refl _)
  rwa [List.append_nil] at hstart

end Port

end Interaction

import Chimera.Foundations.Interaction

/-!
# Two programs on a line

Two programs that ask questions, with a channel in each direction.  An answer can take from the
front of one channel and add to the end of the other; everything else about an answer is left to
the surroundings.  A run keeps what each of the programs was answered.
-/

namespace Interaction

/-- What an answer takes from the channel that comes in, and what it adds to the one that goes
out. -/
structure Port (Q : Type) (R : Q → Type) (β : Type) where
  taken : (q : Q) × R q → List β
  given : (q : Q) × R q → List β

namespace Port

variable {Q β : Type} {R : Q → Type} (P : Port Q R β)

/-- Everything that a record takes. -/
def takes (record : Record Q R) : List β := record.flatMap P.taken

/-- Everything that a record adds. -/
def gives (record : Record Q R) : List β := record.flatMap P.given

/-- From one record to a later one this was taken and this was added. -/
structure Moves (g : Record Q R) (ins outs : List β) (g' : Record Q R) : Prop where
  takes : P.takes g' = P.takes g ++ ins
  gives : P.gives g' = P.gives g ++ outs
  length : g.length ≤ g'.length

/-- One answer more is taken. -/
@[simp] lemma takes_snoc (record : Record Q R) (entry : (q : Q) × R q) :
    P.takes (record ++ [entry]) = P.takes record ++ P.taken entry := by
  simp [takes]

/-- One answer more is added. -/
@[simp] lemma gives_snoc (record : Record Q R) (entry : (q : Q) × R q) :
    P.gives (record ++ [entry]) = P.gives record ++ P.given entry := by
  simp [gives]

variable {P} {g g' g'' : Record Q R} {ins outs ins' outs' : List β}

/-- No time has passed. -/
lemma Moves.refl (g : Record Q R) : P.Moves g [] [] g :=
  ⟨(List.append_nil _).symm, (List.append_nil _).symm, Nat.le_refl _⟩

/-- One stretch after the other. -/
lemma Moves.trans (h : P.Moves g ins outs g') (h' : P.Moves g' ins' outs' g'') :
    P.Moves g (ins ++ ins') (outs ++ outs') g'' where
  takes := by rw [h'.takes, h.takes, List.append_assoc]
  gives := by rw [h'.gives, h.gives, List.append_assoc]
  length := Nat.le_trans h.length h'.length

/-- One answer. -/
lemma Moves.keep (g : Record Q R) (q : Q) (r : R q) :
    P.Moves g (P.taken ⟨q, r⟩) (P.given ⟨q, r⟩) (keep q r g) where
  takes := P.takes_snoc g _
  gives := P.gives_snoc g _
  length := by simp [Interaction.keep]

end Port

/-- An observer that keeps the record keeps one answer more. -/
@[simp] lemma length_keep {Q : Type} {R : Q → Type} (q : Q) (r : R q) (g : Record Q R) :
    (keep q r g).length = g.length + 1 := by
  simp [keep]

section Peers

variable {ε₁ ε₂ Q₁ Q₂ α₁ α₂ β : Type} {R₁ : Q₁ → Type} {R₂ : Q₂ → Type}

/-- Two programs, and what is on its way between them. -/
structure Peers (ε₁ ε₂ Q₁ Q₂ : Type) (R₁ : Q₁ → Type) (R₂ : Q₂ → Type) (α₁ α₂ β : Type) where
  /-- The first program. -/
  first : Interaction ε₁ Q₁ R₁ α₁
  /-- The second program. -/
  second : Interaction ε₂ Q₂ R₂ α₂
  /-- On its way to the first program. -/
  toFirst : List β
  /-- On its way to the second program. -/
  toSecond : List β

/-- The runs of two programs from where nothing is on its way, with what each was answered. -/
inductive Peers.Run (P₁ : Port Q₁ R₁ β) (P₂ : Port Q₂ R₂ β) (x : Interaction ε₁ Q₁ R₁ α₁)
    (y : Interaction ε₂ Q₂ R₂ α₂) :
    Record Q₁ R₁ → Record Q₂ R₂ → Peers ε₁ ε₂ Q₁ Q₂ R₁ R₂ α₁ α₂ β → Prop
  | start : Peers.Run P₁ P₂ x y [] [] ⟨x, y, [], []⟩
  | first {record₁ : Record Q₁ R₁} {record₂ : Record Q₂ R₂} {q : Q₁}
      {next : R₁ q → Interaction ε₁ Q₁ R₁ α₁} {y' : Interaction ε₂ Q₂ R₂ α₂}
      {rest toSecond : List β} (r : R₁ q)
      (h : Peers.Run P₁ P₂ x y record₁ record₂
        ⟨.ask q next, y', P₁.taken ⟨q, r⟩ ++ rest, toSecond⟩) :
      Peers.Run P₁ P₂ x y (record₁ ++ [⟨q, r⟩]) record₂
        ⟨next r, y', rest, toSecond ++ P₁.given ⟨q, r⟩⟩
  | second {record₁ : Record Q₁ R₁} {record₂ : Record Q₂ R₂} {q : Q₂}
      {next : R₂ q → Interaction ε₂ Q₂ R₂ α₂} {x' : Interaction ε₁ Q₁ R₁ α₁}
      {rest toFirst : List β} (r : R₂ q)
      (h : Peers.Run P₁ P₂ x y record₁ record₂
        ⟨x', .ask q next, toFirst, P₂.taken ⟨q, r⟩ ++ rest⟩) :
      Peers.Run P₁ P₂ x y record₁ (record₂ ++ [⟨q, r⟩])
        ⟨x', next r, toFirst ++ P₂.given ⟨q, r⟩, rest⟩

variable {P₁ : Port Q₁ R₁ β} {P₂ : Port Q₂ R₂ β} {x : Interaction ε₁ Q₁ R₁ α₁}
  {y : Interaction ε₂ Q₂ R₂ α₂} {record₁ : Record Q₁ R₁} {record₂ : Record Q₂ R₂}
  {s : Peers ε₁ ε₂ Q₁ Q₂ R₁ R₂ α₁ α₂ β}

/-- Each program is where its answers lead it. -/
theorem Peers.Run.follows (h : Peers.Run P₁ P₂ x y record₁ record₂ s) :
    Follows x record₁ s.first ∧ Follows y record₂ s.second := by
  induction h with
  | start => exact ⟨.nil x, .nil y⟩
  | first r _ ih => exact ⟨ih.1.snoc r, ih.2⟩
  | second r _ ih => exact ⟨ih.1, ih.2.snoc r⟩

/-- **Nothing is lost on the line**: what one program has added, the other has taken, but for what
is on its way. -/
theorem Peers.Run.conserves (h : Peers.Run P₁ P₂ x y record₁ record₂ s) :
    P₂.gives record₂ = P₁.takes record₁ ++ s.toFirst ∧
      P₁.gives record₁ = P₂.takes record₂ ++ s.toSecond := by
  induction h with
  | start => exact ⟨rfl, rfl⟩
  | first r _ ih =>
    obtain ⟨hfirst, hsecond⟩ := ih
    constructor
    · rw [hfirst, P₁.takes_snoc, List.append_assoc]
    · rw [P₁.gives_snoc, hsecond, List.append_assoc]
  | second r _ ih =>
    obtain ⟨hfirst, hsecond⟩ := ih
    constructor
    · rw [P₂.gives_snoc, hfirst, List.append_assoc]
    · rw [hsecond, P₂.takes_snoc, List.append_assoc]

end Peers

end Interaction

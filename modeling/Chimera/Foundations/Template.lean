import Mathlib.Data.List.Basic
import Mathlib.Tactic.Common

/-!
# Templates with placeholders

A template is a text with slots for values.  It is written down as a text in which a mark stands
for every slot, beside the list of the values; filling replaces the marks, one after another, by
what the values are printed as.  Filling knows the marks by the character only, so the template
comes back exactly when its texts are free of the mark.
-/

namespace Template

/-- A part of a template. -/
inductive Slot (α : Type*) where
  | text (t : List Char)
  | value (a : α)
deriving DecidableEq

section Writing

variable {α : Type*}

/-- The template with a mark in every slot. -/
def marked (mark : Char) (slots : List (Slot α)) : List Char :=
  slots.flatMap fun
    | .text t => t
    | .value _ => [mark]

/-- The values of the slots, in order. -/
def values (slots : List (Slot α)) : List α :=
  slots.flatMap fun
    | .text _ => []
    | .value a => [a]

/-- The template with the print of its value in every slot. -/
def filled (print : α → List Char) (slots : List (Slot α)) : List Char :=
  slots.flatMap fun
    | .text t => t
    | .value a => print a

/-- No text of the template has the mark. -/
def Unmarked (mark : Char) (slots : List (Slot α)) : Prop := ∀ t, .text t ∈ slots → mark ∉ t

/-- Replace the marks of a text by the prints of values; an error when the values run out, and
another one when some are left over. -/
def fill {ε : Type*} (mark : Char) (print : α → List Char) (few many : ε) :
    List Char → List α → Except ε (List Char)
  | [], [] => .ok []
  | [], _ :: _ => .error many
  | c :: rest, values =>
    if c = mark then
      match values with
      | [] => .error few
      | a :: values => (fill mark print few many rest values).map (print a ++ ·)
    else (fill mark print few many rest values).map (c :: ·)

end Writing

section Filling

variable {α ε : Type*} {mark : Char} {print : α → List Char} {few many : ε}

/-- The mark of two templates after one another. -/
@[simp] lemma marked_append (p q : List (Slot α)) :
    marked mark (p ++ q) = marked mark p ++ marked mark q := List.flatMap_append

/-- The values of two templates after one another. -/
@[simp] lemma values_append (p q : List (Slot α)) : values (p ++ q) = values p ++ values q :=
  List.flatMap_append

/-- A template after another one is free of marks when both are. -/
@[simp] lemma unmarked_append (p q : List (Slot α)) :
    Unmarked mark (p ++ q) ↔ Unmarked mark p ∧ Unmarked mark q := by
  simp only [Unmarked, List.mem_append, or_imp, forall_and]

/-- A mark takes a value. -/
lemma fill_mark (rest : List Char) (a : α) (as : List α) :
    fill mark print few many (mark :: rest) (a :: as) =
      (fill mark print few many rest as).map (print a ++ ·) := by
  simp only [fill, if_true]

/-- A mark without a value is an error. -/
lemma fill_mark_nil (rest : List Char) :
    fill mark print few many (mark :: rest) ([] : List α) = .error few := by
  simp only [fill, if_true]

/-- Another character stays. -/
lemma fill_char {c : Char} (hc : c ≠ mark) (rest : List Char) (as : List α) :
    fill mark print few many (c :: rest) as =
      (fill mark print few many rest as).map (c :: ·) := by
  cases as <;> simp only [fill, hc, if_false]

/-- What is mapped comes from what was there. -/
lemma exists_of_map_eq_ok {β γ : Type*} {x : Except ε β} {f : β → γ} {c : γ}
    (h : x.map f = .ok c) : ∃ b, x = .ok b := by
  cases x with
  | error e => cases h
  | ok b => exact ⟨b, rfl⟩

/-- A text that is free of marks is kept. -/
lemma fill_text {t : List Char} (ht : mark ∉ t) (rest : List Char) (as : List α) :
    fill mark print few many (t ++ rest) as = (fill mark print few many rest as).map (t ++ ·) := by
  induction t with
  | nil =>
    rw [List.nil_append]
    cases fill mark print few many rest as <;> rfl
  | cons c t ih =>
    obtain ⟨hc, ht⟩ := List.ne_and_not_mem_of_not_mem_cons ht
    rw [List.cons_append, fill_char (Ne.symm hc), ih ht]
    cases fill mark print few many rest as <;> rfl

/-- A template whose texts are free of the mark is filled slot by slot. -/
lemma fill_marked {slots : List (Slot α)} (h : Unmarked mark slots) :
    fill mark print few many (marked mark slots) (values slots) = .ok (filled print slots) := by
  induction slots with
  | nil => rfl
  | cons slot slots ih =>
    have hrest := ih fun t ht => h t (List.mem_cons_of_mem _ ht)
    cases slot with
    | text t =>
      have ht := h t List.mem_cons_self
      change fill mark print few many (t ++ marked mark slots) (values slots) = _
      rw [fill_text ht, hrest]
      rfl
    | value a =>
      change fill mark print few many (mark :: marked mark slots) (a :: values slots) = _
      rw [fill_mark, hrest]
      rfl

/-- Filling uses up one value for each mark. -/
lemma count_of_fill {text : List Char} {as : List α} {out : List Char}
    (h : fill mark print few many text as = .ok out) : text.count mark = as.length := by
  induction text generalizing as out with
  | nil =>
    cases as with
    | nil => rfl
    | cons a as => cases h
  | cons c rest ih =>
    by_cases hc : c = mark
    · subst hc
      cases as with
      | nil =>
        rw [fill_mark_nil] at h
        cases h
      | cons a as =>
        rw [fill_mark] at h
        obtain ⟨_, hrest⟩ := exists_of_map_eq_ok h
        rw [List.count_cons_self, ih hrest, List.length_cons]
    · rw [fill_char hc] at h
      obtain ⟨_, hrest⟩ := exists_of_map_eq_ok h
      rw [List.count_cons_of_ne hc, ih hrest]

/-- There are at least as many marks as values, and exactly as many when the texts are free of the
mark. -/
lemma count_marked (slots : List (Slot α)) :
    (values slots).length ≤ (marked mark slots).count mark ∧
      ((marked mark slots).count mark = (values slots).length ↔ Unmarked mark slots) := by
  induction slots with
  | nil => simp [marked, values, Unmarked]
  | cons slot slots ih =>
    obtain ⟨hle, hiff⟩ := ih
    cases slot with
    | text t =>
      have hmarked : marked mark (Slot.text t :: slots) = t ++ marked mark slots := rfl
      have hvalues : values (Slot.text t :: slots) = values slots := rfl
      have hunmarked : Unmarked mark (Slot.text t :: slots) ↔ mark ∉ t ∧ Unmarked mark slots := by
        simp [Unmarked]
      rw [hmarked, hvalues, hunmarked, List.count_append, ← hiff, ← List.count_eq_zero]
      omega
    | value a =>
      have hmarked : marked mark (Slot.value a :: slots) = mark :: marked mark slots := rfl
      have hvalues : values (Slot.value a :: slots) = a :: values slots := rfl
      have hunmarked : Unmarked mark (Slot.value a :: slots) ↔ Unmarked mark slots := by
        simp [Unmarked]
      rw [hmarked, hvalues, hunmarked, List.count_cons_self, List.length_cons, ← hiff]
      omega

/-- **Filling a template.**  Filling the marked text puts the print of every value into its slot
exactly when the texts of the template are free of the mark.  Otherwise the values run out. -/
theorem fill_marked_iff (slots : List (Slot α)) :
    fill mark print few many (marked mark slots) (values slots) = .ok (filled print slots) ↔
      Unmarked mark slots := by
  constructor
  · intro h
    exact (count_marked slots).2.1 (count_of_fill h)
  · exact fill_marked

end Filling

end Template

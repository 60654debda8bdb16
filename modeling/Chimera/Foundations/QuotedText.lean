import Mathlib.Data.List.Basic
import Mathlib.Tactic.Common

/-!
# Texts with quoted literals

A lexer for texts that contain string literals in single quotes, where a backslash escapes the
next character and a doubled quote stands for one.  A text is put together from pieces: code,
and literals written without any escaping.  The literals of a text are confined when the lexer
reads each of them back as one literal with the same content.
-/

namespace QuotedText

/-- Where the lexer stands. -/
inductive State where
  | outside
  | inside
  /-- After a backslash inside a literal. -/
  | escape
  /-- After a quote inside a literal, which ends it unless another quote follows. -/
  | quoted
deriving DecidableEq

/-- What the lexer reports. -/
inductive Event where
  /-- A character outside literals. -/
  | code (c : Char)
  /-- A literal begins. -/
  | opened
  /-- A character of the content of a literal. -/
  | content (c : Char)
deriving DecidableEq

/-- The meaning of an escaped character.  The two wildcards keep their backslash. -/
def unescape (c : Char) : List Char :=
  if c = '0' then [Char.ofNat 0]
  else if c = 'b' then [Char.ofNat 8]
  else if c = 't' then ['\t']
  else if c = 'n' then ['\n']
  else if c = 'r' then ['\r']
  else if c = 'Z' then [Char.ofNat 26]
  else if c = '%' ∨ c = '_' then ['\\', c]
  else [c]

/-- One character of the lexer's input. -/
def step : State → Char → State × List Event
  | .outside, c => if c = '\'' then (.inside, [.opened]) else (.outside, [.code c])
  | .inside, c =>
    if c = '\'' then (.quoted, [])
    else if c = '\\' then (.escape, [])
    else (.inside, [.content c])
  | .escape, c => (.inside, (unescape c).map .content)
  | .quoted, c => if c = '\'' then (.inside, [.content c]) else (.outside, [.code c])

/-- The lexer. -/
def scan : State → List Char → State × List Event
  | s, [] => (s, [])
  | s, c :: rest => ((scan (step s c).1 rest).1, (step s c).2 ++ (scan (step s c).1 rest).2)

/-- The events outside literals: the code, and where the literals stand. -/
def outline (events : List Event) : List Event :=
  events.filter fun
    | .content _ => false
    | _ => true

/-- A piece of a text. -/
inductive Piece where
  | code (t : List Char)
  | literal (t : List Char)
deriving DecidableEq

/-- The text of a piece: a literal is put between quotes as it is. -/
def Piece.text : Piece → List Char
  | .code t => t
  | .literal t => '\'' :: t ++ ['\'']

/-- The text of a list of pieces. -/
def textOf (pieces : List Piece) : List Char := pieces.flatMap Piece.text

/-- The lexer reads the quoted text as one literal with the text as its content. -/
def ReadsBack (t : List Char) : Prop :=
  scan .outside (Piece.literal t).text = (.quoted, .opened :: t.map .content)

/-- From the given state of the lexer on, every literal begins outside literals, is read back,
and ends where it is meant to. -/
def Confined : State → List Piece → Prop
  | _, [] => True
  | s, .code t :: rest => Confined (scan s t).1 rest
  | s, .literal t :: rest =>
    s = .outside ∧ ReadsBack t ∧ (textOf rest).head? ≠ some '\'' ∧ Confined .quoted rest

/-- The text is free of the characters that mean something inside a literal. -/
def Plain (t : List Char) : Prop := ∀ c ∈ t, c ≠ '\'' ∧ c ≠ '\\'

/-! ## Runs of the lexer -/

/-- The lexer reads two texts one after the other. -/
lemma scan_append (s : State) (t u : List Char) :
    scan s (t ++ u) = ((scan (scan s t).1 u).1, (scan s t).2 ++ (scan (scan s t).1 u).2) := by
  induction t generalizing s with
  | nil => rfl
  | cons c t ih => simp [scan, ih]

/-- An outline is taken part by part. -/
lemma outline_append (es fs : List Event) : outline (es ++ fs) = outline es ++ outline fs :=
  List.filter_append ..

/-- The content of a literal leaves no trace in the outline. -/
@[simp] lemma outline_map_content (t : List Char) : outline (t.map .content) = [] := by
  simp [outline]

/-- After a closing quote the lexer stands outside, as long as no other quote follows. -/
lemma scan_quoted {t : List Char} (hne : t ≠ []) (hhead : t.head? ≠ some '\'') :
    scan .quoted t = scan .outside t := by
  match t with
  | c :: rest =>
    have hc : c ≠ '\'' := fun hc => hhead (by simp [hc])
    simp [scan, step, hc]

/-- Plain text inside a literal is its own content. -/
lemma scan_inside_plain {t : List Char} (h : Plain t) :
    scan .inside t = (.inside, t.map .content) := by
  induction t with
  | nil => rfl
  | cons c t ih =>
    obtain ⟨hquote, hback⟩ := h c (by simp)
    have ht : Plain t := fun x hx => h x (by simp [hx])
    simp [scan, step, hquote, hback, ih ht]

/-- Plain text is read back. -/
lemma ReadsBack.of_plain {t : List Char} (h : Plain t) : ReadsBack t := by
  simp [ReadsBack, Piece.text, scan, step, scan_append, scan_inside_plain h]

/-! ## Texts that are not read back -/

/-- How many characters the lexer has read without reporting them. -/
def State.pending : State → ℕ
  | .outside | .inside => 0
  | .escape | .quoted => 1

/-- The lexer reports at most as much as it has read. -/
lemma length_scan_le (s : State) (t : List Char) :
    (scan s t).2.length + (scan s t).1.pending ≤ t.length + s.pending := by
  induction t generalizing s with
  | nil => simp [scan]
  | cons c t ih =>
    have hstep : (step s c).2.length + (step s c).1.pending ≤ 1 + s.pending := by
      cases s with
      | outside => by_cases h : c = '\'' <;> simp [step, h, State.pending]
      | inside =>
        by_cases h : c = '\''
        · simp [step, h, State.pending]
        · by_cases h' : c = '\\' <;> simp [step, h, h', State.pending]
      | escape =>
        simp only [step, unescape, State.pending]
        split_ifs <;> simp
      | quoted => by_cases h : c = '\'' <;> simp [step, h, State.pending]
    have := ih (step s c).1
    simp only [scan, List.length_append, List.length_cons]
    omega

/-- Texts in which a backslash only escapes a double quote or a backslash. -/
inductive Escaped : List Char → Prop
  | nil : Escaped []
  | char {c : Char} {t : List Char} (hc : c ≠ '\\') (ht : Escaped t) : Escaped (c :: t)
  | pair {c : Char} {t : List Char} (hc : c = '"' ∨ c = '\\') (ht : Escaped t) :
      Escaped ('\\' :: c :: t)

/-- Escaped texts follow one another. -/
lemma Escaped.append {t u : List Char} (ht : Escaped t) (hu : Escaped u) : Escaped (t ++ u) := by
  induction ht with
  | nil => exact hu
  | char hc _ ih => exact .char hc ih
  | pair hc _ ih => exact .pair hc ih

/-- An escaped text that is its own content inside a literal is plain.  A backslash or a quote in
it would be read without being reported, and the lexer cannot catch up. -/
lemma plain_of_scan_inside {t : List Char} (ht : Escaped t)
    (h : scan .inside (t ++ ['\'']) = (.quoted, t.map .content)) : Plain t := by
  induction ht with
  | nil => simp [Plain]
  | @char c t hc ht ih =>
    by_cases hquote : c = '\''
    · subst hquote
      exfalso
      match t, h with
      | [], h => simp [scan, step] at h
      | d :: t, h =>
        by_cases hd : d = '\''
        · have hscan : scan .inside (t ++ ['\'']) = (.quoted, (d :: t).map .content) := by
            simpa [scan, step, hd, Prod.ext_iff] using h
          have := length_scan_le .inside (t ++ ['\''])
          simp only [hscan, State.pending, List.length_map, List.length_cons, List.length_append,
            List.length_nil] at this
          omega
        · simp [scan, step, hd] at h
    · have hrest : Plain t := ih (by simpa [scan, step, hquote, hc, Prod.ext_iff] using h)
      intro x hx
      rcases List.mem_cons.1 hx with rfl | hx
      · exact ⟨hquote, hc⟩
      · exact hrest x hx
  | @pair c t hc ht ih =>
    exfalso
    rcases hc with rfl | rfl
    · simp [scan, step, unescape] at h
    · have hscan : scan .inside (t ++ ['\'']) = (.quoted, ('\\' :: t).map .content) := by
        simpa [scan, step, unescape, Prod.ext_iff] using h
      have := length_scan_le .inside (t ++ ['\''])
      simp only [hscan, State.pending, List.length_map, List.length_cons, List.length_append,
        List.length_nil] at this
      omega

/-- **Reading back.**  An escaped text is read back from between quotes exactly when it is
plain. -/
theorem readsBack_iff {t : List Char} (ht : Escaped t) : ReadsBack t ↔ Plain t := by
  refine ⟨fun h => plain_of_scan_inside ht ?_, .of_plain⟩
  simpa [ReadsBack, Piece.text, scan, step, Prod.ext_iff] using h

/-! ## Texts of pieces -/

/-- Code that leaves the lexer outside, and does not begin with a quote. -/
def Closed (t : List Char) : Prop :=
  t ≠ [] ∧ t.head? ≠ some '\'' ∧ (scan .outside t).1 = .outside

/-- The pieces do not begin with a literal. -/
def LeadsWithCode : List Piece → Prop
  | .literal _ :: _ => False
  | _ => True

instance (t : List Char) : Decidable (Closed t) :=
  inferInstanceAs (Decidable (t ≠ [] ∧ t.head? ≠ some '\'' ∧ (scan .outside t).1 = .outside))

/-- Code that stays outside can follow closed code. -/
lemma Closed.append {t u : List Char} (ht : Closed t) (hu : (scan .outside u).1 = .outside) :
    Closed (t ++ u) := by
  obtain ⟨hne, hhead, hclosed⟩ := ht
  refine ⟨by simp [hne], by rwa [List.head?_append_of_ne_nil _ hne], ?_⟩
  rw [scan_append, hclosed]
  exact hu

/-- Code is closed, and stands between any two literals. -/
def Spaced : List Piece → Prop
  | [] => True
  | .code t :: rest => Closed t ∧ Spaced rest
  | .literal _ :: rest => LeadsWithCode rest ∧ Spaced rest

/-- Pieces that can follow each other: spaced, with code in front. -/
structure Framed (pieces : List Piece) : Prop where
  spaced : Spaced pieces
  leads : LeadsWithCode pieces

/-- Spaced pieces followed by framed pieces. -/
lemma Spaced.append {ps qs : List Piece} (hp : Spaced ps) (hq : Framed qs) :
    Spaced (ps ++ qs) := by
  induction ps with
  | nil => exact hq.spaced
  | cons p ps ih =>
    cases p with
    | code t => exact ⟨hp.1, ih hp.2⟩
    | literal t =>
      refine ⟨?_, ih hp.2⟩
      match ps, hp.1 with
      | [], _ => exact hq.leads
      | .code _ :: _, _ => trivial

/-- Framed pieces follow one another. -/
lemma Framed.append {ps qs : List Piece} (hp : Framed ps) (hq : Framed qs) :
    Framed (ps ++ qs) := by
  refine ⟨hp.spaced.append hq, ?_⟩
  match ps, hp.leads with
  | [], _ => exact hq.leads
  | .code _ :: _, _ => trivial

/-- Closed code in front of spaced pieces. -/
lemma Framed.code {t : List Char} {ps : List Piece} (ht : Closed t) (hp : Spaced ps) :
    Framed (.code t :: ps) := ⟨⟨ht, hp⟩, trivial⟩

/-- No pieces. -/
lemma Framed.nil : Framed [] := ⟨trivial, trivial⟩

/-- The texts of the literals among the pieces. -/
def literals (pieces : List Piece) : List (List Char) :=
  pieces.filterMap fun
    | .code _ => none
    | .literal t => some t

/-- No pieces, no literals. -/
@[simp] lemma literals_nil : literals [] = [] := rfl

/-- The literals of pieces that follow one another. -/
@[simp] lemma literals_append (ps qs : List Piece) :
    literals (ps ++ qs) = literals ps ++ literals qs := List.filterMap_append

/-- Code is no literal. -/
@[simp] lemma literals_code (t : List Char) (ps : List Piece) :
    literals (.code t :: ps) = literals ps := rfl

/-- A literal is one. -/
@[simp] lemma literals_literal (t : List Char) (ps : List Piece) :
    literals (.literal t :: ps) = t :: literals ps := rfl

/-- The outline of a text in which every literal is confined. -/
def skeleton (pieces : List Piece) : List Event :=
  pieces.flatMap fun
    | .code t => outline (scan .outside t).2
    | .literal _ => [.opened]

/-- The skeleton of pieces that follow one another. -/
@[simp] lemma skeleton_append (ps qs : List Piece) :
    skeleton (ps ++ qs) = skeleton ps ++ skeleton qs := List.flatMap_append

/-- The skeleton of code in front. -/
lemma skeleton_code (t : List Char) (ps : List Piece) :
    skeleton (.code t :: ps) = outline (scan .outside t).2 ++ skeleton ps := rfl

/-- Pieces that begin with closed code begin with no quote. -/
lemma head_textOf_ne {ps : List Piece} (h : Spaced ps) (hl : LeadsWithCode ps) :
    (textOf ps).head? ≠ some '\'' := by
  match ps, h, hl with
  | [], _, _ => simp [textOf]
  | .code [] :: _, h, _ => exact absurd rfl h.1.1
  | .code (c :: t) :: rest, h, _ => simpa [textOf, Piece.text] using h.1.2.1

/-- Closed code leaves the lexer outside from the end of a literal as well. -/
lemma scan_closed {s : State} {t : List Char} (hs : s = .outside ∨ s = .quoted) (h : Closed t) :
    scan s t = (.outside, (scan .outside t).2) := by
  obtain ⟨hne, hhead, hclosed⟩ := h
  rcases hs with rfl | rfl
  · exact Prod.ext hclosed rfl
  · rw [scan_quoted hne hhead]
    exact Prod.ext hclosed rfl

/-- **Confinement.**  The literals of spaced pieces are confined when each of them is read
back. -/
theorem confined_iff {s : State} {ps : List Piece} (hs : s = .outside ∨ s = .quoted)
    (h : Spaced ps) (hlead : s = .outside ∨ LeadsWithCode ps) :
    Confined s ps ↔ ∀ t ∈ literals ps, ReadsBack t := by
  induction ps generalizing s with
  | nil => simp [Confined, literals]
  | cons p ps ih =>
    cases p with
    | code t =>
      simp only [Confined, scan_closed hs h.1, literals_code]
      exact ih (.inl rfl) h.2 (.inl rfl)
    | literal t =>
      obtain rfl : s = .outside := hlead.resolve_right id
      have hrest := ih (.inr rfl) h.2 (.inr h.1)
      have hhead := head_textOf_ne h.2 h.1
      simp only [Confined, hhead, ne_eq, not_false_eq_true, true_and, literals_literal,
        List.forall_mem_cons, hrest]

/-- The outline of a text with confined literals is the skeleton of its pieces. -/
lemma outline_textOf {s : State} {ps : List Piece} (hs : s = .outside ∨ s = .quoted)
    (h : Spaced ps) (hc : Confined s ps) :
    outline (scan s (textOf ps)).2 = skeleton ps := by
  induction ps generalizing s with
  | nil => rfl
  | cons p ps ih =>
    have htext : textOf (p :: ps) = p.text ++ textOf ps := rfl
    rw [htext, scan_append, outline_append]
    cases p with
    | code t =>
      have hscan := scan_closed hs h.1
      simp only [Confined, hscan] at hc
      simp only [Piece.text, hscan, ih (.inl rfl) h.2 hc]
      rfl
    | literal t =>
      obtain ⟨rfl, hback, -, hc⟩ := hc
      simp only [show scan .outside (Piece.literal t).text = _ from hback,
        ih (.inr rfl) h.2 hc]
      simp [outline, skeleton]

end QuotedText

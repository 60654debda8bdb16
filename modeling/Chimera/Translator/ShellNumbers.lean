import Chimera.Translator.ShellAcceptance

/-!
# The numbers of shell statements

`number` collects the characters that can stand in a number, and leaves it to `strtoll` and
`strtod` to make something of them.  Each of the two reads as far as it can, and neither tells
whether it came to the end.  A number means what it says exactly when they do.
-/

namespace Chimera

namespace Mongosh

/-! ## Literals -/

/-- Digits. -/
structure Digits where
  /-- The characters. -/
  text : Text
  /-- There is one. -/
  nonempty : text ≠ []
  /-- They are digits. -/
  digits : text.all Char.isDigit = true

/-- The exponent of a literal. -/
structure Exponent where
  /-- The letter. -/
  marker : Char
  /-- The sign, if there is one. -/
  sign : Option Char
  /-- The digits. -/
  digits : Digits
  /-- The letter is one of two. -/
  marker_eq : marker = 'e' ∨ marker = 'E'
  /-- The sign is one of two. -/
  sign_eq : ∀ c ∈ sign, c = '-' ∨ c = '+'

/-- A complete literal: `-?digits`, with an optional fraction and an optional exponent. -/
structure Numeral where
  /-- There is a minus. -/
  negative : Bool
  /-- The digits. -/
  whole : Digits
  /-- The digits behind a point. -/
  fraction : Option Digits
  /-- The exponent. -/
  exponent : Option Exponent

/-- An exponent as it is written. -/
def Exponent.text (x : Exponent) : Text := x.marker :: (x.sign.toList ++ x.digits.text)

/-- An exponent, if there is one, as it is written. -/
def Exponent.textOf : Option Exponent → Text
  | none => []
  | some x => x.text

namespace Numeral

variable (n : Numeral)

/-- The minus as it is written. -/
def sign : Text := if n.negative then ['-'] else []

/-- The fraction as it is written. -/
def fractionText : Text :=
  match n.fraction with
  | none => []
  | some digits => '.' :: digits.text

/-- The exponent as it is written. -/
def exponentText : Text := Exponent.textOf n.exponent

/-- A literal as it is written. -/
def text : Text := n.sign ++ (n.whole.text ++ (n.fractionText ++ n.exponentText))

/-- There is neither a fraction nor an exponent. -/
def IsInteger : Prop := n.fraction = none ∧ n.exponent = none

/-- The value of an integer. -/
def integer : ℤ := if n.negative then -ofDigits n.whole.text else ofDigits n.whole.text

end Numeral

/-! ## Where the C library stops -/

/-- What `strtoll` leaves: everything, when there is no number. -/
def strtollEnd (s : Text) : Text :=
  if ((readSign s).2.takeWhile Char.isDigit).isEmpty then s
  else (readSign s).2.dropWhile Char.isDigit

/-- What is left after an exponent: everything, when it has no digits. -/
def exponentEnd : Text → Text
  | c :: rest =>
    if (c = 'e' ∨ c = 'E') ∧ !((readSign rest).2.takeWhile Char.isDigit).isEmpty then
      (readSign rest).2.dropWhile Char.isDigit
    else c :: rest
  | [] => []

/-- What `strtod` leaves: everything, when there is no number. -/
def strtodEnd (s : Text) : Text :=
  let whole := (readSign s).2.takeWhile Char.isDigit
  let (fraction, rest) := readFraction ((readSign s).2.dropWhile Char.isDigit)
  if whole.isEmpty && fraction.isEmpty then s else exponentEnd rest

/-- The integer that `strtoll` reads, before it is held within 64 bits. -/
def longInteger (s : Text) : ℤ :=
  if (readSign s).1 then -ofDigits ((readSign s).2.takeWhile Char.isDigit)
  else ofDigits ((readSign s).2.takeWhile Char.isDigit)

/-! ## The property -/

/-- A number means what it says: it is a literal, and an integer is that 64-bit integer. -/
def Run.Exact (r : Run) : Prop :=
  ∃ n : Numeral, n.text = r.text ∧
    (n.IsInteger → ∃ k : Int64, r.value = .int64 k ∧ k.toInt = n.integer)

/-- The C library reads a number to its end: an integer that fits into 64 bits, or a decimal number
whose point stands between digits. -/
def Run.ReadWhole (r : Run) : Prop :=
  if r.text.any isRealChar then
    strtodEnd r.text = [] ∧ ∀ before after, r.text = before ++ '.' :: after →
      (∀ c ∈ before.getLast?, c.isDigit = true) ∧ ∃ c ∈ after.head?, c.isDigit = true
  else strtollEnd r.text = [] ∧ -(2 ^ 63) ≤ longInteger r.text ∧ longInteger r.text < 2 ^ 63

/-! ## Literals are read to their end -/

/-- A digit is neither a point nor the letter of an exponent. -/
lemma isRealChar_of_isDigit {c : Char} (h : c.isDigit = true) : isRealChar c = false := by
  by_contra hc
  simp only [isRealChar, Bool.not_eq_false, Bool.or_eq_true, decide_eq_true_eq] at hc
  rcases hc with (rfl | rfl) | rfl <;> cases h

/-- Digits make no number real. -/
lemma Digits.any_isRealChar (d : Digits) : d.text.any isRealChar = false := by
  rw [List.any_eq_false]
  intro c hc
  rw [isRealChar_of_isDigit (List.all_eq_true.1 d.digits c hc)]
  exact Bool.false_ne_true

/-- Digits begin with a digit. -/
lemma Digits.text_eq_cons (d : Digits) : ∃ c rest, d.text = c :: rest ∧ c.isDigit = true := by
  cases htext : d.text with
  | nil => exact absurd htext d.nonempty
  | cons c rest =>
    exact ⟨c, rest, rfl, List.all_eq_true.1 d.digits c (htext ▸ List.mem_cons_self)⟩

/-- No sign stands in front of a digit. -/
lemma readSign_of_isDigit {c : Char} (h : c.isDigit = true) (rest : Text) :
    readSign (c :: rest) = (false, c :: rest) := by
  unfold readSign
  split
  · next heq =>
    rw [(List.cons.inj heq).1] at h
    cases h
  · next heq =>
    rw [(List.cons.inj heq).1] at h
    cases h
  · rfl

namespace Numeral

variable (n : Numeral)

/-- What stands behind the sign and the digits. -/
def behind : Text := n.fractionText ++ n.exponentText

/-- Neither a fraction nor an exponent begins with a digit. -/
lemma stops_exponentText : Stops Char.isDigit n.exponentText := by
  intro c hc
  unfold exponentText Exponent.textOf at hc
  split at hc
  · cases hc
  · next x _ =>
    obtain rfl : x.marker = c := Option.some.inj hc
    rcases x.marker_eq with h | h <;> rw [h] <;> rfl

/-- What stands behind the digits is no digit. -/
lemma stops_behind : Stops Char.isDigit n.behind := by
  intro c hc
  unfold behind fractionText at hc
  split at hc
  · exact n.stops_exponentText c hc
  · rw [← Option.some.inj hc]
    rfl

/-- The sign is read, and the rest is left. -/
lemma readSign_text : readSign n.text = (n.negative, n.whole.text ++ n.behind) := by
  obtain ⟨c, rest, hwhole, hc⟩ := n.whole.text_eq_cons
  have htext : n.text = n.sign ++ (n.whole.text ++ n.behind) := rfl
  rw [htext, sign]
  cases n.negative with
  | true => rfl
  | false =>
    rw [hwhole]
    exact readSign_of_isDigit hc _

/-- The digits are taken, and the rest is left. -/
lemma takeWhile_whole : (n.whole.text ++ n.behind).takeWhile Char.isDigit = n.whole.text ∧
    (n.whole.text ++ n.behind).dropWhile Char.isDigit = n.behind :=
  takeWhile_stops n.whole.digits n.stops_behind

/-- The fraction is read, and the exponent is left. -/
lemma readFraction_behind : readFraction n.behind =
    ((n.fraction.map Digits.text).getD [], n.exponentText) := by
  unfold behind fractionText
  cases n.fraction with
  | none =>
    change readFraction n.exponentText = ([], n.exponentText)
    unfold exponentText Exponent.textOf
    cases n.exponent with
    | none => rfl
    | some x =>
      rw [readFraction.eq_def]
      dsimp only [Exponent.text]
      split
      · next heq =>
        rcases x.marker_eq with h | h <;> rw [h] at heq <;> cases heq
      · rfl
  | some d =>
    obtain ⟨htake, hdrop⟩ := takeWhile_stops d.digits n.stops_exponentText
    change ((d.text ++ n.exponentText).takeWhile Char.isDigit,
      (d.text ++ n.exponentText).dropWhile Char.isDigit) = (d.text, n.exponentText)
    rw [htake, hdrop]

/-- The exponent is read to its end. -/
lemma exponentEnd_exponentText : exponentEnd n.exponentText = [] := by
  unfold exponentText Exponent.textOf
  cases n.exponent with
  | none => rfl
  | some x =>
    obtain ⟨c, rest, hdigits, hc⟩ := x.digits.text_eq_cons
    have hsign : (readSign (x.sign.toList ++ x.digits.text)).2 = x.digits.text := by
      cases hx : x.sign with
      | none =>
        rw [hdigits]
        exact congrArg Prod.snd (readSign_of_isDigit hc rest)
      | some s => rcases x.sign_eq s hx with rfl | rfl <;> rfl
    have hstops : Stops Char.isDigit [] := by
      intro d hd
      cases hd
    obtain ⟨htake, hdrop⟩ := takeWhile_stops x.digits.digits hstops
    rw [List.append_nil] at htake hdrop
    change exponentEnd (x.marker :: (x.sign.toList ++ x.digits.text)) = []
    rw [exponentEnd, hsign, htake, hdrop]
    refine if_pos ⟨x.marker_eq, ?_⟩
    rw [hdigits]
    rfl

/-- **`strtod` reads a literal to its end.** -/
lemma strtodEnd_text : strtodEnd n.text = [] := by
  obtain ⟨htake, hdrop⟩ := n.takeWhile_whole
  obtain ⟨c, rest, hwhole, -⟩ := n.whole.text_eq_cons
  rw [strtodEnd, n.readSign_text]
  dsimp only
  rw [htake, hdrop, n.readFraction_behind]
  dsimp only
  rw [n.exponentEnd_exponentText, hwhole]
  rfl

/-- `strtoll` reads a literal up to its fraction and exponent. -/
lemma strtollEnd_text : strtollEnd n.text = n.behind := by
  obtain ⟨htake, hdrop⟩ := n.takeWhile_whole
  rw [strtollEnd, n.readSign_text, htake, hdrop]
  refine if_neg fun h => n.whole.nonempty (List.isEmpty_iff.1 h)

/-- The integer of a literal is the one that `strtoll` reads. -/
lemma longInteger_text : longInteger n.text = n.integer := by
  rw [longInteger, n.readSign_text, n.takeWhile_whole.1]
  rfl

/-- Only a fraction or an exponent makes a number real. -/
lemma any_isRealChar_text : n.text.any isRealChar = true ↔ ¬ n.IsInteger := by
  have htext : n.text.any isRealChar =
      (n.fractionText.any isRealChar || n.exponentText.any isRealChar) := by
    have hsign : n.sign.any isRealChar = false := by
      rw [sign]
      split <;> rfl
    rw [text, List.any_append, List.any_append, List.any_append, hsign, n.whole.any_isRealChar,
      Bool.false_or, Bool.false_or]
  have hfraction : n.fractionText.any isRealChar = true ↔ n.fraction ≠ none := by
    unfold fractionText
    cases n.fraction with
    | none => simp
    | some d => simp [isRealChar]
  have hexponent : n.exponentText.any isRealChar = true ↔ n.exponent ≠ none := by
    unfold exponentText Exponent.textOf
    cases n.exponent with
    | none => simp
    | some x =>
      have hmarker : isRealChar x.marker = true := by
        rcases x.marker_eq with h | h <;> rw [h] <;> rfl
      simp [Exponent.text, hmarker]
  rw [htext, Bool.or_eq_true, hfraction, hexponent, IsInteger]
  exact not_and_or.symm

/-- There is no point before the fraction. -/
lemma point_not_mem_front : '.' ∉ n.sign ++ n.whole.text := by
  intro h
  rcases List.mem_append.1 h with h | h
  · unfold sign at h
    split at h
    · cases List.mem_singleton.1 h
    · cases h
  · exact absurd (List.all_eq_true.1 n.whole.digits _ h) Bool.false_ne_true

/-- There is no point in the exponent. -/
lemma point_not_mem_exponentText : '.' ∉ n.exponentText := by
  intro h
  unfold exponentText Exponent.textOf at h
  split at h
  · cases h
  · next x _ =>
    rcases List.mem_cons.1 h with h | h
    · rcases x.marker_eq with hx | hx <;> rw [hx] at h <;> cases h
    · rcases List.mem_append.1 h with h | h
      · rcases x.sign_eq _ (Option.mem_toList.1 h) with hx | hx <;> cases hx
      · exact absurd (List.all_eq_true.1 x.digits.digits _ h) Bool.false_ne_true

/-- The only point of a literal stands between digits. -/
lemma point_between {before after : Text} (h : n.text = before ++ '.' :: after) :
    (∀ c ∈ before.getLast?, c.isDigit = true) ∧ ∃ c ∈ after.head?, c.isDigit = true := by
  have htext : n.text = (n.sign ++ n.whole.text) ++ n.behind := (List.append_assoc ..).symm
  rw [htext, behind, fractionText] at h
  cases hfraction : n.fraction with
  | none =>
    rw [hfraction] at h
    have hmem : '.' ∈ (n.sign ++ n.whole.text) ++ n.exponentText := by
      refine (congrArg ('.' ∈ ·) h).mpr ?_
      exact List.mem_append_right _ List.mem_cons_self
    rcases List.mem_append.1 hmem with hmem | hmem
    · exact absurd hmem n.point_not_mem_front
    · exact absurd hmem n.point_not_mem_exponentText
  | some d =>
    rw [hfraction] at h
    have hnot : '.' ∉ d.text ++ n.exponentText := by
      intro hmem
      rcases List.mem_append.1 hmem with hmem | hmem
      · exact absurd (List.all_eq_true.1 d.digits _ hmem) Bool.false_ne_true
      · exact n.point_not_mem_exponentText hmem
    obtain ⟨rfl, -, rfl⟩ := (List.append_cons_inj_of_notMem n.point_not_mem_front hnot).1 h
    refine ⟨fun c hc => ?_, ?_⟩
    · rw [List.getLast?_append_of_ne_nil _ n.whole.nonempty] at hc
      exact List.all_eq_true.1 n.whole.digits c (List.mem_of_getLast? hc)
    · obtain ⟨c, rest, hdigits, hc⟩ := d.text_eq_cons
      rw [hdigits]
      exact ⟨c, rfl, hc⟩

end Numeral

/-! ## What is read to its end is a literal -/

/-- A sign stands in front of what is left of it. -/
lemma exists_sign (s : Text) : ∃ sign : Option Char, (∀ c ∈ sign, c = '-' ∨ c = '+') ∧
    s = sign.toList ++ (readSign s).2 := by
  unfold readSign
  split
  · refine ⟨some '-', fun c hc => .inl (Option.some.inj hc).symm, rfl⟩
  · refine ⟨some '+', fun c hc => .inr (Option.some.inj hc).symm, rfl⟩
  · refine ⟨none, fun c hc => ?_, rfl⟩
    cases hc

/-- A number has no plus in front. -/
lemma Run.sign_append (r : Run) :
    r.text = (if (readSign r.text).1 then ['-'] else []) ++ (readSign r.text).2 := by
  rcases r.opens with h | h
  · rw [Run.text, h]
    rfl
  · rw [Run.text, readSign_of_isDigit h]
    rfl

/-- Digits to the end, of which there is one. -/
lemma exists_digits {s : Text} (hne : s.takeWhile Char.isDigit ≠ [])
    (h : s.dropWhile Char.isDigit = []) : ∃ d : Digits, s = d.text := by
  refine ⟨⟨s.takeWhile Char.isDigit, hne, List.all_takeWhile⟩, ?_⟩
  have hsplit : s.takeWhile Char.isDigit ++ s.dropWhile Char.isDigit = s :=
    List.takeWhile_append_dropWhile
  rw [h, List.append_nil] at hsplit
  exact hsplit.symm

/-- An exponent that is read to its end is one, or there is none. -/
lemma exists_exponent {s : Text} (h : exponentEnd s = []) :
    ∃ x : Option Exponent, s = Exponent.textOf x := by
  cases s with
  | nil => exact ⟨none, rfl⟩
  | cons c rest =>
    rw [exponentEnd] at h
    split at h
    · next hmarker =>
      obtain ⟨hc, hne⟩ := hmarker
      obtain ⟨sign, hsign, hrest⟩ := exists_sign rest
      have hne' : (readSign rest).2.takeWhile Char.isDigit ≠ [] := by
        intro heq
        rw [heq] at hne
        cases hne
      obtain ⟨d, hd⟩ := exists_digits hne' h
      refine ⟨some ⟨c, sign, d, hc, hsign⟩, ?_⟩
      rw [hd] at hrest
      exact congrArg (c :: ·) hrest
    · cases h

/-- A number is a literal when what follows its sign is written like one. -/
lemma Run.text_of_parts (r : Run) (d : Digits) (fraction : Option Digits)
    (exponent : Option Exponent)
    (h : (readSign r.text).2 =
      d.text ++ (Numeral.mk (readSign r.text).1 d fraction exponent).behind) :
    (Numeral.mk (readSign r.text).1 d fraction exponent).text = r.text :=
  ((congrArg (_ ++ ·) h).symm.trans r.sign_append.symm)

/-- An integer that `strtoll` reads to its end is a literal. -/
lemma Run.exists_integer (r : Run) (h : strtollEnd r.text = []) :
    ∃ n : Numeral, n.text = r.text ∧ n.IsInteger := by
  rw [strtollEnd] at h
  split at h
  · cases h
  · next hne =>
    obtain ⟨d, hd⟩ := exists_digits (fun heq => hne (List.isEmpty_iff.2 heq)) h
    exact ⟨⟨(readSign r.text).1, d, none, none⟩,
      r.text_of_parts d none none (hd.trans (List.append_nil _).symm), rfl, rfl⟩

/-- A fraction begins with a point. -/
lemma readFraction_cases (s : Text) :
    (∃ rest, s = '.' :: rest) ∨ readFraction s = ([], s) := by
  unfold readFraction
  split
  · exact .inl ⟨_, rfl⟩
  · exact .inr rfl

/-- A number does not begin with a point. -/
lemma Run.first_ne_point (r : Run) : r.first ≠ '.' := by
  intro hfirst
  rcases r.opens with h | h
  · rw [hfirst] at h
    cases h
  · rw [hfirst] at h
    cases h

/-- A decimal number that `strtod` reads to its end is a literal, when its point stands between
digits. -/
lemma Run.exists_decimal (r : Run) (h : strtodEnd r.text = [])
    (hpoint : ∀ before after, r.text = before ++ '.' :: after →
      (∀ c ∈ before.getLast?, c.isDigit = true) ∧ ∃ c ∈ after.head?, c.isDigit = true) :
    ∃ n : Numeral, n.text = r.text := by
  obtain ⟨whole, hwhole⟩ : ∃ whole, whole = (readSign r.text).2.takeWhile Char.isDigit := ⟨_, rfl⟩
  obtain ⟨behind, hbehind⟩ : ∃ behind, behind = (readSign r.text).2.dropWhile Char.isDigit :=
    ⟨_, rfl⟩
  have hsplit : (readSign r.text).2 = whole ++ behind := by
    rw [hwhole, hbehind, List.takeWhile_append_dropWhile]
  have hdigits : whole.all Char.isDigit = true := by
    rw [hwhole]
    exact List.all_takeWhile
  rw [strtodEnd, ← hwhole, ← hbehind] at h
  rcases readFraction_cases behind with ⟨after, rfl⟩ | hfraction
  · -- the point has a digit on either side
    have htext := r.sign_append
    rw [hsplit, ← List.append_assoc] at htext
    obtain ⟨hbefore, c, hc, hdigit⟩ := hpoint _ _ htext
    have hne : whole ≠ [] := by
      rintro rfl
      rw [List.append_nil] at htext hbefore
      split at htext
      · next hnegative =>
        rw [if_pos hnegative] at hbefore
        exact absurd (hbefore '-' rfl) Bool.false_ne_true
      · exact r.first_ne_point (List.cons.inj htext).1
    have hfraction : after.takeWhile Char.isDigit ≠ [] := by
      cases after with
      | nil => cases hc
      | cons d after =>
        obtain rfl : d = c := Option.some.inj hc
        rw [List.takeWhile_cons_of_pos hdigit]
        exact List.cons_ne_nil _ _
    have hend : exponentEnd (after.dropWhile Char.isDigit) = [] := by
      have hnot : ¬ (whole.isEmpty && (after.takeWhile Char.isDigit).isEmpty) = true := by
        rw [Bool.and_eq_true, List.isEmpty_iff]
        exact fun h => hne h.1
      change (if (whole.isEmpty && (after.takeWhile Char.isDigit).isEmpty) = true then r.text
        else exponentEnd (after.dropWhile Char.isDigit)) = [] at h
      rwa [if_neg hnot] at h
    obtain ⟨x, hx⟩ := exists_exponent hend
    refine ⟨_, r.text_of_parts ⟨whole, hne, hdigits⟩
      (some ⟨after.takeWhile Char.isDigit, hfraction, List.all_takeWhile⟩) x ?_⟩
    rw [hsplit, Numeral.behind, Numeral.exponentText, ← hx]
    exact congrArg (whole ++ '.' :: ·) List.takeWhile_append_dropWhile.symm
  · rw [hfraction] at h
    change (if (whole.isEmpty && true) = true then r.text else exponentEnd behind) = [] at h
    rw [Bool.and_true] at h
    split at h
    · cases h
    · next hne =>
      obtain ⟨x, hx⟩ := exists_exponent h
      refine ⟨_, r.text_of_parts ⟨whole, fun heq => hne (List.isEmpty_iff.2 heq), hdigits⟩
        none x ?_⟩
      rw [hsplit, Numeral.behind, Numeral.exponentText, ← hx]
      rfl

/-- An integer that fits into 64 bits is what `strtoll` makes of it. -/
lemma toInt_strtoll {s : Text} (hlow : -(2 ^ 63) ≤ longInteger s) (hhigh : longInteger s < 2 ^ 63) :
    (strtoll s).toInt = longInteger s := by
  have hclamped : strtoll s =
      Int64.ofInt (max (-(2 ^ 63)) (min (2 ^ 63 - 1) (longInteger s))) := rfl
  rw [hclamped, min_eq_right (by omega), max_eq_right hlow]
  exact Int64.toInt_ofInt_of_le hlow hhigh

/-- **A number means what it says** exactly when the C library reads it to its end. -/
theorem exact_iff (r : Run) : r.Exact ↔ r.ReadWhole := by
  constructor
  · rintro ⟨n, htext, hinteger⟩
    rw [Run.ReadWhole, ← htext]
    split
    · exact ⟨n.strtodEnd_text, fun before after h => n.point_between h⟩
    · next hreal =>
      have hn : n.IsInteger := by
        by_contra hn
        exact hreal (n.any_isRealChar_text.2 hn)
      obtain ⟨k, -, hk⟩ := hinteger hn
      rw [n.strtollEnd_text, n.longInteger_text, ← hk]
      refine ⟨?_, Int64.le_toInt k, Int64.toInt_lt k⟩
      rw [Numeral.behind, Numeral.fractionText, Numeral.exponentText, hn.1, hn.2]
      rfl
  · intro h
    rw [Run.ReadWhole] at h
    split at h
    · next hreal =>
      obtain ⟨n, htext⟩ := r.exists_decimal h.1 h.2
      refine ⟨n, htext, fun hn => ?_⟩
      rw [← htext] at hreal
      exact absurd hn (n.any_isRealChar_text.1 hreal)
    · next hreal =>
      obtain ⟨n, htext, hn⟩ := r.exists_integer h.1
      refine ⟨n, htext, fun _ => ⟨strtoll r.text, if_neg hreal, ?_⟩⟩
      rw [toInt_strtoll h.2.1 h.2.2, ← htext, n.longInteger_text]

/-! ## The numbers of a statement -/

mutual

/-- The numbers of a value. -/
def Expr.runs : Expr → List Run
  | .number run => [run]
  | .object fields => fields.runs
  | .array elements => elements.runs
  | _ => []
termination_by structural e => e

/-- The numbers of fields. -/
def Fields.runs : Fields → List Run
  | .last _ _ _ _ v _ => v.runs
  | .cons _ _ _ _ v _ rest => v.runs ++ rest.runs
termination_by structural fields => fields

/-- The numbers of elements. -/
def Elements.runs : Elements → List Run
  | .last _ v _ => v.runs
  | .cons _ v _ rest => v.runs ++ rest.runs
termination_by structural elements => elements

end

/-- The numbers of a statement, at any depth. -/
def Statement.runs (c : Statement) : List Run :=
  match c.args with
  | .none _ => []
  | .some elements => elements.runs

/-- When a statement is accepted, it is one of the grammar, its tree is the call, and its numbers
mean what they say. -/
def NumbersExact (s : Text) : Prop :=
  ∀ call, parseShellCall s = .ok call → (∃ c : Statement, c.text = s) ∧
    ∀ c : Statement, c.text = s → c.call = call ∧ ∀ r ∈ c.runs, r.Exact

/-- **Shell numbers mean what they say** exactly when the C library reads all of them to their end,
within 64 bits and with digits on both sides of a point. -/
theorem numbers_exact_iff (s : Text) :
    NumbersExact s ↔ ∀ c : Statement, c.text = s → ∀ r ∈ c.runs, r.ReadWhole := by
  constructor
  · rintro h c rfl r hr
    obtain ⟨-, hc⟩ := h c.call (parseShellCall_text c)
    exact (exact_iff r).1 ((hc c rfl).2 r hr)
  · intro h call hcall
    obtain ⟨c, htext, -⟩ := exists_statement hcall
    refine ⟨⟨c, htext⟩, fun c' htext' => ⟨?_, fun r hr => (exact_iff r).2 (h c' htext' r hr)⟩⟩
    rw [← htext', parseShellCall_text] at hcall
    exact Except.ok.inj hcall

/-- A collection. -/
def collectionC : Name := ⟨['c'], List.cons_ne_nil _ _, rfl⟩

/-- A key. -/
def keyA : Name := ⟨['a'], List.cons_ne_nil _ _, rfl⟩

/-- The verb of a find. -/
def findVerb : Name := ⟨"find".toList, by decide, by decide⟩

/-- A find whose filter has one field. -/
def findWith (e : Expr) : Statement where
  start := .empty
  dot := .empty
  space := .empty
  collection := collectionC
  dot' := .empty
  space' := .empty
  verb := findVerb
  opening := .empty
  args := .some (.last .empty
    (.object (.last .empty (.bare keyA) .empty ⟨[' '], rfl⟩ e .empty)) .empty)
  semicolon := none
  finish := .empty

/-- The field is a number. -/
def findNumber (r : Run) : Statement := findWith (.number r)

/-- A number that does not mean what it says. -/
lemma not_numbersExact {r : Run} (h : ¬ r.ReadWhole) : ¬ NumbersExact (findNumber r).text := by
  intro hexact
  obtain ⟨-, hc⟩ := hexact _ (parseShellCall_text (findNumber r))
  exact h ((exact_iff r).1 ((hc _ rfl).2 r (List.mem_singleton_self r)))

/-- `5-3` is read as five, and `9223372036854775808` as one less. -/
theorem number_read_as_prefix :
    parseShellCall "db.c.find(\x7ba: 5-3\x7d)".toList =
        .ok ⟨['c'], "find".toList, [.document [(['a'], .int64 5)]]⟩ ∧
      ¬ NumbersExact "db.c.find(\x7ba: 5-3\x7d)".toList ∧
      parseShellCall "db.c.find(\x7ba: 9223372036854775808\x7d)".toList =
        .ok ⟨['c'], "find".toList, [.document [(['a'], .int64 9223372036854775807)]]⟩ ∧
      ¬ NumbersExact "db.c.find(\x7ba: 9223372036854775808\x7d)".toList := by
  obtain ⟨difference, hdifference⟩ : ∃ r : Run, r = ⟨'5', "-3".toList, .inr rfl, by decide⟩ :=
    ⟨_, rfl⟩
  obtain ⟨beyond, hbeyond⟩ : ∃ r : Run, r =
    ⟨'9', "223372036854775808".toList, .inr rfl, by decide⟩ := ⟨_, rfl⟩
  have hfirst : (findNumber difference).text = "db.c.find(\x7ba: 5-3\x7d)".toList := by
    rw [hdifference]
    decide
  have hsecond :
      (findNumber beyond).text = "db.c.find(\x7ba: 9223372036854775808\x7d)".toList := by
    rw [hbeyond]
    decide
  have hreal (r : Run) (h : r.text.any isRealChar = false) (hwhole : r.ReadWhole) :
      strtollEnd r.text = [] ∧ longInteger r.text < 2 ^ 63 := by
    rw [Run.ReadWhole, if_neg (by rw [h]; exact Bool.false_ne_true)] at hwhole
    exact ⟨hwhole.1, hwhole.2.2⟩
  refine ⟨by decide +kernel, ?_, by decide +kernel, ?_⟩
  · rw [← hfirst]
    refine not_numbersExact fun h => ?_
    rw [hdifference] at h
    exact absurd (hreal _ (by decide) h).1 (by decide)
  · rw [← hsecond]
    refine not_numbersExact fun h => ?_
    rw [hbeyond] at h
    exact absurd (hreal _ (by decide) h).2 (by decide +kernel)

end Mongosh

end Chimera

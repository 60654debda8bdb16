import Chimera.Translator.ShellNumbers
import Mathlib.Algebra.Order.BigOperators.Group.List
import Mathlib.Algebra.Order.Group.Nat

/-!
# The strings of shell statements

A JSON string literal writes a character as itself, by a short escape, or by one or two `\u` escapes
of four hexadecimal digits.  The reader knows three escapes and takes any other for the character
behind the backslash.  That is right for quotes, the backslash and the slash, and for no others.
-/

namespace Chimera

namespace Mongosh

/-! ## Bytes -/

/-- A byte as a character of a text. -/
def byteChar (b : UInt8) : Char := Char.ofNat b.toNat

/-- The bytes of a character in UTF-8. -/
def utf8Char (c : Char) : Text := (String.utf8EncodeChar c).map byteChar

/-- The bytes of a string in UTF-8. -/
def utf8 (s : List Char) : Text := s.flatMap utf8Char

/-- The number of a byte is that of its character. -/
lemma toNat_byteChar (b : UInt8) : (byteChar b).toNat = b.toNat := by
  have hb : b.toNat < 256 := b.toNat_lt
  rw [byteChar, Char.ofNat, dif_pos (Or.inl (by omega))]
  rfl

/-- A character of ASCII is one byte. -/
lemma utf8Char_of_ascii {c : Char} (h : c.toNat < 128) : utf8Char c = [c] := by
  have hencode : String.utf8EncodeChar c = [UInt8.ofNat c.toNat] :=
    if_pos (show c.val.toNat ≤ 127 from Nat.le_of_lt_succ h)
  have hbyte : (UInt8.ofNat c.toNat).toNat = c.toNat := by
    rw [UInt8.toNat_ofNat']
    omega
  rw [utf8Char, hencode, List.map_singleton, byteChar, hbyte, Char.ofNat_toNat]

/-- The bytes of any other character are no characters of ASCII. -/
lemma le_of_mem_utf8Char {c d : Char} (h : 128 ≤ c.toNat) (hd : d ∈ utf8Char c) :
    128 ≤ d.toNat := by
  obtain ⟨b, hb, rfl⟩ := List.mem_map.1 hd
  rw [toNat_byteChar]
  have hlarge : ¬ c.val.toNat ≤ 127 := by
    change ¬ c.toNat ≤ 127
    omega
  rw [String.utf8EncodeChar, if_neg hlarge] at hb
  split_ifs at hb
  all_goals
    simp only [List.mem_cons, List.not_mem_nil, or_false] at hb
    rcases hb with rfl | rfl | rfl | rfl
  all_goals
    rw [UInt8.toNat_ofNat']
    omega

/-- A character is at most four bytes. -/
lemma length_utf8Char_le (c : Char) : (utf8Char c).length ≤ 4 := by
  rw [utf8Char, List.length_map, String.length_utf8EncodeChar]
  exact c.utf8Size_le_four

/-! ## JSON literals -/

/-- The short escapes of JSON. -/
inductive ShortEscape where
  | quote
  | backslash
  | slash
  | b
  | f
  | n
  | r
  | t

/-- The letter of a short escape. -/
def ShortEscape.letter : ShortEscape → Char
  | .quote => '"'
  | .backslash => '\\'
  | .slash => '/'
  | .b => 'b'
  | .f => 'f'
  | .n => 'n'
  | .r => 'r'
  | .t => 't'

/-- What a short escape stands for. -/
def ShortEscape.meaning : ShortEscape → Char
  | .quote => '"'
  | .backslash => '\\'
  | .slash => '/'
  | .b => '\x08'
  | .f => '\x0c'
  | .n => '\n'
  | .r => '\r'
  | .t => '\t'

/-- Four hexadecimal digits. -/
structure HexQuad where
  /-- The digits. -/
  text : Text
  /-- There are four. -/
  length : text.length = 4
  /-- They are hexadecimal. -/
  digits : text.all isHexDigit = true

/-- The number that the digits spell. -/
def HexQuad.value (q : HexQuad) : ℕ := q.text.foldl (fun n c => 16 * n + hexValue c) 0

/-- A character of a JSON string literal. -/
inductive JsonChar where
  | raw (c : Char)
  | short (e : ShortEscape)
  | unicode (q : HexQuad)
  | pair (high low : HexQuad)

namespace JsonChar

/-- What is allowed: no quote, backslash or control character as itself, and surrogates in pairs
only. -/
def Valid : JsonChar → Prop
  | raw c => c ≠ '"' ∧ c ≠ '\\' ∧ 32 ≤ c.toNat
  | short _ => True
  | unicode q => q.value < 0xD800 ∨ 0xE000 ≤ q.value
  | pair high low => 0xD800 ≤ high.value ∧ high.value < 0xDC00 ∧
      0xDC00 ≤ low.value ∧ low.value < 0xE000

/-- How the character is written, in bytes. -/
def text : JsonChar → Text
  | raw c => utf8Char c
  | short e => ['\\', e.letter]
  | unicode q => '\\' :: 'u' :: q.text
  | pair high low => '\\' :: 'u' :: (high.text ++ '\\' :: 'u' :: low.text)

/-- The character. -/
def meaning : JsonChar → Char
  | raw c => c
  | short e => e.meaning
  | unicode q => Char.ofNat q.value
  | pair high low => Char.ofNat (0x10000 + (high.value - 0xD800) * 0x400 + (low.value - 0xDC00))

/-- What the reader makes of it. -/
def pieces : JsonChar → List Piece
  | raw c => (utf8Char c).map .plain
  | short e => [.escape e.letter]
  | unicode q => .escape 'u' :: q.text.map .plain
  | pair high low => .escape 'u' :: (high.text.map .plain ++ .escape 'u' :: low.text.map .plain)

end JsonChar

/-- A JSON string literal. -/
structure JsonLiteral where
  /-- The characters. -/
  chars : List JsonChar
  /-- They are allowed. -/
  valid : ∀ c ∈ chars, c.Valid

/-- A literal as it is written. -/
def JsonLiteral.text (l : JsonLiteral) : Text := '"' :: (l.chars.flatMap JsonChar.text ++ ['"'])

/-- The string that a literal stands for. -/
def JsonLiteral.meaning (l : JsonLiteral) : List Char := l.chars.map JsonChar.meaning

/-- The bytes of a character other than the quote and the backslash are neither. -/
lemma plain_of_mem_utf8Char {c d : Char} (h : c ≠ '"' ∧ c ≠ '\\') (hd : d ∈ utf8Char c) :
    d ≠ '"' ∧ d ≠ '\\' := by
  rcases Nat.lt_or_ge c.toNat 128 with hc | hc
  · rw [utf8Char_of_ascii hc, List.mem_singleton] at hd
    rw [hd]
    exact h
  · have hlarge := le_of_mem_utf8Char hc hd
    constructor
    · rintro rfl
      exact absurd hlarge (by decide)
    · rintro rfl
      exact absurd hlarge (by decide)

/-- A hexadecimal digit is neither a quote nor a backslash. -/
lemma HexQuad.plain (q : HexQuad) {c : Char} (h : c ∈ q.text) : c ≠ '"' ∧ c ≠ '\\' := by
  have hdigit : isHexDigit c = true := List.all_eq_true.1 q.digits c h
  constructor
  · rintro rfl
    cases hdigit
  · rintro rfl
    cases hdigit

namespace JsonChar

/-- A character is written as the reader takes it apart. -/
lemma flatMap_pieces (c : JsonChar) : c.pieces.flatMap Piece.text = c.text := by
  have hplain (s : Text) : (s.map Piece.plain).flatMap Piece.text = s := by
    induction s with
    | nil => rfl
    | cons c s ih => exact congrArg (c :: ·) ih
  cases c with
  | raw c => exact hplain _
  | short e => rfl
  | unicode q => exact congrArg ('\\' :: 'u' :: ·) (hplain q.text)
  | pair high low =>
    change '\\' :: 'u' :: (high.text.map Piece.plain ++
      .escape 'u' :: low.text.map Piece.plain).flatMap Piece.text = _
    rw [List.flatMap_append, hplain, List.flatMap_cons, hplain]
    rfl

/-- No character ends the string or begins an escape that is none. -/
lemma plain_pieces {c : JsonChar} (h : c.Valid) {d : Char} (hd : .plain d ∈ c.pieces) :
    d ≠ '"' ∧ d ≠ '\\' := by
  have hmap {s : Text} (hs : Piece.plain d ∈ s.map Piece.plain) : d ∈ s := by
    obtain ⟨d', hd', heq⟩ := List.mem_map.1 hs
    rwa [← Piece.plain.inj heq]
  cases c with
  | raw c => exact plain_of_mem_utf8Char ⟨h.1, h.2.1⟩ (hmap hd)
  | short e => cases List.mem_singleton.1 hd
  | unicode q =>
    rcases List.mem_cons.1 hd with heq | hd
    · cases heq
    · exact q.plain (hmap hd)
  | pair high low =>
    rcases List.mem_cons.1 hd with heq | hd
    · cases heq
    · rcases List.mem_append.1 hd with hd | hd
      · exact high.plain (hmap hd)
      · rcases List.mem_cons.1 hd with heq | hd
        · cases heq
        · exact low.plain (hmap hd)

end JsonChar

/-- A literal as a string of a statement. -/
def JsonLiteral.quoted (l : JsonLiteral) : Quoted where
  quote := '"'
  pieces := l.chars.flatMap JsonChar.pieces
  isQuote := rfl
  plain := by
    intro d hd
    obtain ⟨c, hc, hd⟩ := List.mem_flatMap.1 hd
    exact JsonChar.plain_pieces (l.valid c hc) hd

/-- A literal is written as a string of a statement is. -/
lemma JsonLiteral.text_quoted (l : JsonLiteral) : l.quoted.text = l.text := by
  have hpieces : (l.chars.flatMap JsonChar.pieces).flatMap Piece.text =
      l.chars.flatMap JsonChar.text := by
    rw [List.flatMap_assoc]
    exact congrArg l.chars.flatMap (funext JsonChar.flatMap_pieces)
  rw [Quoted.text, JsonLiteral.text, JsonLiteral.quoted, hpieces]

/-- Two ways to take a string apart are one. -/
lemma pieces_inj {quote : Char} (hquote : quote ≠ '\\') {pieces pieces' : List Piece}
    (h : ∀ c, .plain c ∈ pieces → c ≠ quote ∧ c ≠ '\\')
    (h' : ∀ c, .plain c ∈ pieces' → c ≠ quote ∧ c ≠ '\\')
    (heq : pieces.flatMap Piece.text ++ [quote] = pieces'.flatMap Piece.text ++ [quote]) :
    pieces = pieces' := by
  induction pieces generalizing pieces' with
  | nil =>
    cases pieces' with
    | nil => rfl
    | cons piece' pieces' =>
      cases piece' with
      | plain c => exact absurd (List.cons.inj heq).1.symm (h' c List.mem_cons_self).1
      | escape c => exact absurd (List.cons.inj heq).1 hquote
  | cons piece pieces ih =>
    have hrest := fun c hc => h c (List.mem_cons_of_mem _ hc)
    cases pieces' with
    | nil =>
      cases piece with
      | plain c => exact absurd (List.cons.inj heq).1 (h c List.mem_cons_self).1
      | escape c => exact absurd (List.cons.inj heq).1.symm hquote
    | cons piece' pieces' =>
      have hrest' := fun c hc => h' c (List.mem_cons_of_mem _ hc)
      cases piece with
      | plain c =>
        cases piece' with
        | plain d =>
          obtain ⟨rfl, htail⟩ := List.cons.inj heq
          rw [ih hrest hrest' htail]
        | escape d => exact absurd (List.cons.inj heq).1 (h c List.mem_cons_self).2
      | escape c =>
        cases piece' with
        | plain d => exact absurd (List.cons.inj heq).1.symm (h' d List.mem_cons_self).2
        | escape d =>
          obtain ⟨rfl, htail⟩ := List.cons.inj (List.cons.inj heq).2
          rw [ih hrest hrest' htail]

/-- A string that is written as a literal is read as that literal is. -/
lemma pieces_eq_of_text {s : Quoted} {l : JsonLiteral} (h : l.text = s.text) :
    s.pieces = l.quoted.pieces := by
  rw [← l.text_quoted] at h
  obtain ⟨hquote, htext⟩ := List.cons.inj h
  have hplain := s.plain
  rw [← hquote] at htext hplain
  exact pieces_inj (show '"' ≠ '\\' by decide) hplain l.quoted.plain htext.symm

/-! ## What is read -/

/-- A character that is written as itself, or by an escape that the reader gets right. -/
def JsonChar.Known : JsonChar → Prop
  | .raw _ => True
  | .short e => e.letter ≠ 'b' ∧ e.letter ≠ 'f'
  | .unicode _ | .pair _ _ => False

/-- The reader gets as many bytes as the character has, or more; and just these bytes when it knows
how it is written. -/
lemma JsonChar.read_pieces {c : JsonChar} (h : c.Valid) :
    (utf8Char c.meaning).length ≤ (c.pieces.map Piece.read).length ∧
      (c.pieces.map Piece.read = utf8Char c.meaning ↔ c.Known) := by
  have hplain (s : Text) : (s.map Piece.plain).map Piece.read = s := by
    rw [List.map_map]
    exact List.map_id s
  cases c with
  | raw c =>
    have hread : (JsonChar.raw c).pieces.map Piece.read = utf8Char c := hplain _
    rw [hread]
    exact ⟨le_rfl, iff_of_true rfl trivial⟩
  | short e =>
    have hascii : utf8Char (JsonChar.short e).meaning = [e.meaning] := by
      cases e <;> exact utf8Char_of_ascii (by decide)
    rw [hascii]
    refine ⟨le_rfl, ?_⟩
    change [unescape e.letter] = [e.meaning] ↔ e.letter ≠ 'b' ∧ e.letter ≠ 'f'
    cases e <;> decide
  | unicode q =>
    have hlength : ((JsonChar.unicode q).pieces.map Piece.read).length = 5 := by
      simp [pieces, q.length]
    have hle := length_utf8Char_le (JsonChar.unicode q).meaning
    refine ⟨by omega, iff_of_false (fun heq => ?_) id⟩
    rw [heq] at hlength
    omega
  | pair high low =>
    have hlength : ((JsonChar.pair high low).pieces.map Piece.read).length = 10 := by
      simp [pieces, high.length, low.length]
    have hle := length_utf8Char_le (JsonChar.pair high low).meaning
    refine ⟨by omega, iff_of_false (fun heq => ?_) id⟩
    rw [heq] at hlength
    omega

/-- What is at least as long part by part, and the same, is the same part by part. -/
lemma flatMap_eq_iff {α β : Type} {f g : α → List β} {s : List α}
    (h : ∀ a ∈ s, (g a).length ≤ (f a).length) :
    s.flatMap f = s.flatMap g ↔ ∀ a ∈ s, f a = g a := by
  constructor
  · intro heq
    induction s with
    | nil => exact fun a ha => absurd ha List.not_mem_nil
    | cons a s ih =>
      have hrest : ∀ a ∈ s, (g a).length ≤ (f a).length := fun b hb =>
        h b (List.mem_cons_of_mem a hb)
      have hle : (s.flatMap g).length ≤ (s.flatMap f).length := by
        rw [List.length_flatMap, List.length_flatMap]
        exact List.sum_le_sum hrest
      rw [List.flatMap_cons, List.flatMap_cons] at heq
      have hlength := congrArg List.length heq
      have hfirst := h a List.mem_cons_self
      rw [List.length_append, List.length_append] at hlength
      obtain ⟨ha, htail⟩ := List.append_inj heq (by omega)
      intro b hb
      rcases List.mem_cons.1 hb with rfl | hb
      · exact ha
      · exact ih hrest htail b hb
  · intro heq
    exact List.flatMap_congr heq

/-- **A JSON literal is read faithfully** exactly when it uses neither `\b`, `\f` nor `\u`. -/
theorem JsonLiteral.value_eq_iff (l : JsonLiteral) :
    l.quoted.value = utf8 l.meaning ↔ ∀ c ∈ l.chars, c.Known := by
  obtain ⟨chars, hvalid⟩ := l
  have hvalue : (JsonLiteral.mk chars hvalid).quoted.value =
      chars.flatMap fun c => c.pieces.map Piece.read := List.map_flatMap ..
  have hmeaning : utf8 (JsonLiteral.mk chars hvalid).meaning =
      chars.flatMap fun c => utf8Char c.meaning := List.flatMap_map ..
  rw [hvalue, hmeaning, flatMap_eq_iff fun c hc => (JsonChar.read_pieces (hvalid c hc)).1]
  exact forall₂_congr fun c hc => (JsonChar.read_pieces (hvalid c hc)).2

/-! ## The strings of a statement -/

/-- The string of a key in quotes. -/
def Key.strings : Key → List Quoted
  | .bare _ => []
  | .quoted s => [s]

mutual

/-- The strings and keys of a value. -/
def Expr.strings : Expr → List Quoted
  | .string s => [s]
  | .object fields => fields.strings
  | .array elements => elements.strings
  | _ => []
termination_by structural e => e

/-- The strings and keys of fields. -/
def Fields.strings : Fields → List Quoted
  | .last _ key _ _ v _ => key.strings ++ v.strings
  | .cons _ key _ _ v _ rest => key.strings ++ v.strings ++ rest.strings
termination_by structural fields => fields

/-- The strings and keys of elements. -/
def Elements.strings : Elements → List Quoted
  | .last _ v _ => v.strings
  | .cons _ v _ rest => v.strings ++ rest.strings
termination_by structural elements => elements

end

/-- The strings of a statement that are values or keys, at any depth. -/
def Statement.strings (c : Statement) : List Quoted :=
  match c.args with
  | .none _ => []
  | .some elements => elements.strings

/-- An escaped character that stands for itself. -/
def StandsForItself (c : Char) : Prop := c = '"' ∨ c = '\'' ∨ c = '\\' ∨ c = '/'

instance (c : Char) : Decidable (StandsForItself c) :=
  inferInstanceAs (Decidable (c = '"' ∨ c = '\'' ∨ c = '\\' ∨ c = '/'))

/-- A string is read faithfully: if it is a JSON literal of a string without NUL, as that string;
and no escape as its bare letter, unless it stands for that. -/
def Quoted.Faithful (s : Quoted) : Prop :=
  (∀ l : JsonLiteral, l.text = s.text → Char.ofNat 0 ∉ l.meaning → s.value = utf8 l.meaning) ∧
    ∀ c, .escape c ∈ s.pieces → Piece.read (.escape c) = c → StandsForItself c

/-- The statement is accepted, and its strings are read faithfully. -/
def Statement.StringsFaithful (c : Statement) : Prop :=
  parseShellCall c.text = .ok c.call ∧ ∀ s ∈ c.strings, s.Faithful

/-- The escapes are those of quotes, of the backslash and the slash, and `\n`, `\t`, `\r`. -/
def Quoted.KnownEscapes (s : Quoted) : Prop :=
  ∀ c, .escape c ∈ s.pieces → StandsForItself c ∨ c = 'n' ∨ c = 't' ∨ c = 'r'

/-- A letter that is not read as itself. -/
lemma unescape_ne_self {c : Char} (h : unescape c ≠ c) : c = 'n' ∨ c = 't' ∨ c = 'r' := by
  unfold unescape at h
  split at h
  · exact .inl rfl
  · exact .inr (.inl rfl)
  · exact .inr (.inr rfl)
  · exact absurd rfl h

/-- A literal without other escapes is known to the reader. -/
lemma known_of_knownEscapes {s : Quoted} {l : JsonLiteral} (h : s.KnownEscapes)
    (htext : l.text = s.text) : ∀ c ∈ l.chars, c.Known := by
  have hescape (c : JsonChar) (hc : c ∈ l.chars) (d : Char) (hd : .escape d ∈ c.pieces) :
      StandsForItself d ∨ d = 'n' ∨ d = 't' ∨ d = 'r' := by
    refine h d ?_
    rw [pieces_eq_of_text htext]
    exact List.mem_flatMap.2 ⟨c, hc, hd⟩
  intro c hc
  cases c with
  | raw c => trivial
  | short e =>
    have hletter := hescape _ hc e.letter (List.mem_singleton_self _)
    cases e with
    | b => exact absurd hletter (by decide)
    | f => exact absurd hletter (by decide)
    | quote => exact ⟨by decide, by decide⟩
    | backslash => exact ⟨by decide, by decide⟩
    | slash => exact ⟨by decide, by decide⟩
    | n => exact ⟨by decide, by decide⟩
    | r => exact ⟨by decide, by decide⟩
    | t => exact ⟨by decide, by decide⟩
  | unicode q => exact absurd (hescape _ hc 'u' List.mem_cons_self) (by decide)
  | pair high low => exact absurd (hescape _ hc 'u' List.mem_cons_self) (by decide)

/-- A string is read faithfully exactly when all its escapes are known. -/
lemma faithful_iff (s : Quoted) : s.Faithful ↔ s.KnownEscapes := by
  constructor
  · intro h c hc
    by_cases hself : Piece.read (.escape c) = c
    · exact .inl (h.2 c hc hself)
    · exact .inr (unescape_ne_self hself)
  · intro h
    refine ⟨fun l htext _ => ?_, fun c hc hself => ?_⟩
    · have hvalue : s.value = l.quoted.value := by
        rw [Quoted.value, pieces_eq_of_text htext]
        rfl
      rw [hvalue]
      exact l.value_eq_iff.2 (known_of_knownEscapes h htext)
    · rcases h c hc with h | rfl | rfl | rfl
      · exact h
      all_goals exact absurd hself (by decide)

/-- **JSON string literals are read faithfully** exactly when a statement's strings use no other
escapes than those of quotes, of the backslash and the slash, and `\n`, `\t`, `\r`. -/
theorem strings_faithful_iff (c : Statement) :
    c.StringsFaithful ↔ ∀ s ∈ c.strings, s.KnownEscapes := by
  rw [Statement.StringsFaithful, and_iff_right (parseShellCall_text c)]
  exact forall₂_congr fun s _ => faithful_iff s

/-- The literal `"\b\u0041"`, a backspace and an `A`. -/
def backspaceLiteral : JsonLiteral where
  chars := [.short .b, .unicode ⟨"0041".toList, rfl, rfl⟩]
  valid := by
    simp only [List.mem_cons, List.not_mem_nil, or_false]
    rintro c (rfl | rfl)
    · trivial
    · exact .inl (by decide)

/-- A find whose filter has one field, that literal. -/
def findBackspace : Statement := findWith (.string backspaceLiteral.quoted)

/-- A backspace and an `A` are read as `bu0041`. -/
theorem escapes_read_as_letters :
    findBackspace.text = "db.c.find(\x7ba: \"\\b\\u0041\"\x7d)".toList ∧
      backspaceLiteral.meaning = ['\x08', 'A'] ∧
      parseShellCall findBackspace.text =
        .ok ⟨['c'], "find".toList, [.document [(['a'], .utf8 "bu0041".toList)]]⟩ ∧
      ¬ findBackspace.StringsFaithful := by
  refine ⟨by decide, by decide, by decide +kernel, fun h => ?_⟩
  have hfaithful := h.2 backspaceLiteral.quoted (List.mem_singleton_self _)
  have hvalue := hfaithful.1 backspaceLiteral backspaceLiteral.text_quoted.symm (by decide)
  exact (backspaceLiteral.value_eq_iff.1 hvalue _ List.mem_cons_self).1 rfl

end Mongosh

end Chimera

import Chimera.Translator.ShellNumbers
import Chimera.Translator.Spelling

/-!
# Shell statements are read back

A call of plain values is a list of tokens, and a token has one or more spellings: a key may stand
in quotes, a string in either of the two.  The spellings with white space between them are the
renderings of the call.  The reader makes the call of every rendering, and of nothing that goes on
behind it (`CallTree.parse_rendering`).
-/

namespace Chimera

namespace Mongosh

/-! ## Calls -/

/-- The key of a field, which is a C string. -/
structure FieldName where
  /-- The characters. -/
  text : Text
  /-- None of them is NUL. -/
  noNul : Char.ofNat 0 ∉ text

/-- A value of a call. -/
inductive Tree where
  | document (fields : List (FieldName × Tree))
  | array (elements : List Tree)
  | string (s : Text)
  | integer (n : Int64)
  | bool (b : Bool)
  | null
  | objectId (id : BitVec 96)

mutual

/-- The BSON value. -/
def Tree.value : Tree → Value
  | .document fields => .document (Tree.doc fields)
  | .array elements => .array (makeArray (Tree.values elements))
  | .string s => .utf8 s
  | .integer n => .int64 n
  | .bool b => .bool b
  | .null => .null
  | .objectId id => .oid id
termination_by structural t => t

/-- The BSON document of fields. -/
def Tree.doc : List (FieldName × Tree) → Doc
  | [] => []
  | (key, t) :: rest => (key.text, t.value) :: Tree.doc rest
termination_by structural fields => fields

/-- The BSON values of elements. -/
def Tree.values : List Tree → List Value
  | [] => []
  | t :: rest => t.value :: Tree.values rest
termination_by structural elements => elements

end

/-- A call of plain values. -/
structure CallTree where
  /-- The collection. -/
  collection : Name
  /-- The verb. -/
  verb : Name
  /-- The arguments. -/
  args : List Tree

/-- The call. -/
def CallTree.call (c : CallTree) : ShellCall where
  collection := c.collection.text
  verb := c.verb.text
  args := Tree.values c.args

/-! ## Tokens and their spellings -/

/-- A token. -/
inductive Token where
  | mark (c : Char)
  | word (w : Text)
  | key (k : Text)
  | string (s : Text)
  | integer (n : Int64)
  | hex (id : BitVec 96)

/-- A comma, if more follows. -/
def comma {α : Type} (rest : List α) : List Token := if rest.isEmpty then [] else [.mark ',']

mutual

/-- The tokens of a value. -/
def Tree.tokens : Tree → List Token
  | .document fields => .mark '{' :: (Tree.fieldTokens fields ++ [.mark '}'])
  | .array elements => .mark '[' :: (Tree.elementTokens elements ++ [.mark ']'])
  | .string s => [.string s]
  | .integer n => [.integer n]
  | .bool b => [.word (Literal.bool b).text]
  | .null => [.word Literal.null.text]
  | .objectId id => [.word objectIdWord, .mark '(', .hex id, .mark ')']
termination_by structural t => t

/-- The tokens of fields. -/
def Tree.fieldTokens : List (FieldName × Tree) → List Token
  | [] => []
  | (key, t) :: rest =>
    .key key.text :: .mark ':' :: (t.tokens ++ (comma rest ++ Tree.fieldTokens rest))
termination_by structural fields => fields

/-- The tokens of elements or of arguments. -/
def Tree.elementTokens : List Tree → List Token
  | [] => []
  | t :: rest => t.tokens ++ (comma rest ++ Tree.elementTokens rest)
termination_by structural elements => elements

end

/-- The tokens of a call. -/
def CallTree.tokens (c : CallTree) : List Token :=
  .word dbWord :: .mark '.' :: .word c.collection.text :: .mark '.' :: .word c.verb.text ::
    .mark '(' :: (Tree.elementTokens c.args ++ [.mark ')'])

/-- A string in quotes, with the quote and the backslash escaped. -/
def quoteText (quote : Char) (s : Text) : Text :=
  quote :: (s.flatMap (fun c => if c = quote ∨ c = '\\' then ['\\', c] else [c]) ++ [quote])

/-- The text spells the token. -/
def Token.Spelled (text : Text) : Token → Prop
  | .mark c => text = [c]
  | .word w => text = w
  | .key k => k ≠ [] ∧ k.all isNameChar = true ∧ text = k ∨
      ∃ quote, isQuote quote = true ∧ text = quoteText quote k
  | .string s => ∃ quote, isQuote quote = true ∧ text = quoteText quote s
  | .integer n => text = integerText n.toInt
  | .hex id => ∃ digits quote, digits.map Char.toLower = oidString id ∧ isQuote quote = true ∧
      text = quoteText quote digits

/-- The text spells the tokens, with white space in front of each. -/
inductive Spells : List Token → Text → Prop where
  | nil : Spells [] []
  | cons (b : Blank) {t : Token} {ts : List Token} {text rest : Text} (h : t.Spelled text)
      (hrest : Spells ts rest) : Spells (t :: ts) (b.text ++ (text ++ rest))

/-- The text is a rendering of the call, with a semicolon or without. -/
def CallTree.Renders (c : CallTree) (semicolon : Bool) (text : Text) : Prop :=
  ∃ (body : Text) (finish : Blank), text = body ++ finish.text ∧
    Spells (c.tokens ++ if semicolon then [.mark ';'] else []) body

/-! ## Spellings of one token -/

/-- A string in quotes is a string of the grammar. -/
lemma exists_quoted {quote : Char} (hquote : isQuote quote = true) (s : Text) :
    ∃ q : Quoted, q.text = quoteText quote s ∧ q.value = s := by
  have hplain (c : Char) (h : Piece.plain c ∈ s.map fun c =>
      if c = quote ∨ c = '\\' then Piece.escape c else Piece.plain c) : c ≠ quote ∧ c ≠ '\\' := by
    obtain ⟨d, -, hd⟩ := List.mem_map.1 h
    split at hd
    · cases hd
    · next hne =>
      obtain rfl := Piece.plain.inj hd
      exact not_or.1 hne
  have hread (c : Char) (h : c = quote ∨ c = '\\') : unescape c = c := by
    rcases h with rfl | rfl
    · rcases isQuote_iff.1 hquote with rfl | rfl <;> rfl
    · rfl
  refine ⟨⟨quote, s.map fun c => if c = quote ∨ c = '\\' then .escape c else .plain c,
    hquote, hplain⟩, ?_, ?_⟩
  · rw [Quoted.text, quoteText, List.flatMap_map]
    refine congrArg (fun body => quote :: (body ++ [quote])) (List.flatMap_congr fun c _ => ?_)
    split <;> rfl
  · rw [Quoted.value, List.map_map]
    refine (List.map_congr_left fun c _ => ?_).trans (List.map_id s)
    rw [Function.comp_apply]
    split
    · next h => exact hread c h
    · rfl

/-- A key is a key of the grammar. -/
lemma exists_key {k text : Text} (h : (Token.key k).Spelled text) :
    ∃ key : Key, key.text = text ∧ key.value = k := by
  rcases h with ⟨hne, hall, rfl⟩ | ⟨quote, hquote, rfl⟩
  · exact ⟨.bare ⟨text, hne, hall⟩, rfl, rfl⟩
  · obtain ⟨q, htext, hvalue⟩ := exists_quoted hquote k
    exact ⟨.quoted q, htext, hvalue⟩

/-- The digits of a number make the number. -/
lemma ofDigits_decimal (n : ℕ) : ofDigits (decimal n) = n := Nat.ofDigitChars_ten_toDigits

/-- The text of a number is made of digits. -/
lemma all_isDigit_decimal (n : ℕ) : (decimal n).all Char.isDigit = true :=
  List.all_eq_true.2 fun _ => isDigit_of_mem_decimal

/-- An integer is a literal of the grammar. -/
lemma exists_numeral (n : ℤ) :
    ∃ m : Numeral, m.text = integerText n ∧ m.IsInteger ∧ m.integer = n := by
  have hne : decimal n.natAbs ≠ [] := Nat.toDigits_ne_nil
  refine ⟨⟨decide (n < 0), ⟨decimal n.natAbs, hne, all_isDigit_decimal _⟩, none, none⟩, ?_,
    ⟨rfl, rfl⟩, ?_⟩
  · have htext : decimal n.natAbs ++ ([] ++ []) = decimal n.natAbs := by
      rw [List.append_nil, List.append_nil]
    by_cases hn : n < 0
    · rw [integerText, if_pos hn, Numeral.text, Numeral.sign, if_pos (decide_eq_true hn)]
      exact congrArg (List.cons '-') htext
    · rw [integerText, if_neg hn, Numeral.text, Numeral.sign,
        if_neg (by rw [decide_eq_true_eq]; exact hn)]
      exact htext
  · by_cases hn : n < 0
    · rw [Numeral.integer, if_pos (decide_eq_true hn), ofDigits_decimal]
      omega
    · rw [Numeral.integer, if_neg (by rw [decide_eq_true_eq]; exact hn), ofDigits_decimal]
      omega

/-- An integer begins as a number does, and goes on as one. -/
lemma exists_runText (n : ℤ) : ∃ r : Run, r.text = integerText n := by
  have hchars {digits : Text} (h : digits.all Char.isDigit = true) :
      digits.all isNumberChar = true := by
    refine List.all_eq_true.2 fun c hc => ?_
    rw [isNumberChar, List.all_eq_true.1 h c hc]
    rfl
  have hall := all_isDigit_decimal n.natAbs
  by_cases hn : n < 0
  · exact ⟨⟨'-', decimal n.natAbs, .inl rfl, hchars hall⟩, (if_pos hn).symm⟩
  · cases htext : decimal n.natAbs with
    | nil => exact absurd htext Nat.toDigits_ne_nil
    | cons c rest =>
      rw [htext, List.all_cons, Bool.and_eq_true] at hall
      refine ⟨⟨c, rest, .inr hall.1, hchars hall.2⟩, ?_⟩
      rw [integerText, if_neg hn, htext]
      rfl

/-- An integer is a number of the grammar, and the reader makes the integer of it. -/
lemma exists_integerRun (n : Int64) :
    ∃ r : Run, r.text = integerText n.toInt ∧ r.value = .int64 n := by
  obtain ⟨m, htext, hinteger, hvalue⟩ := exists_numeral n.toInt
  obtain ⟨r, hr⟩ := exists_runText n.toInt
  rw [← htext] at hr
  have hreal : ¬ r.text.any isRealChar = true := by
    rw [hr, m.any_isRealChar_text]
    exact not_not.2 hinteger
  have hlong : longInteger r.text = n.toInt := by rw [hr, m.longInteger_text, hvalue]
  have hn : (strtoll r.text).toInt = n.toInt := by
    rw [toInt_strtoll (hlong ▸ n.le_toInt) (hlong ▸ n.toInt_lt), hlong]
  refine ⟨r, hr.trans htext, ?_⟩
  rw [Run.value, if_neg hreal, Int64.toInt_inj.1 hn]

/-- A letter and its lower case are the same hexadecimal digit, or none. -/
lemma hex_toLower (c : Char) :
    hexValue c.toLower = hexValue c ∧ isHexDigit c.toLower = isHexDigit c := by
  by_cases hupper : c.val ≥ 'A'.val ∧ c.val ≤ 'Z'.val
  · have hletters : ∀ k < 26,
        hexValue (Char.ofNat (65 + k)).toLower = hexValue (Char.ofNat (65 + k)) ∧
        isHexDigit (Char.ofNat (65 + k)).toLower = isHexDigit (Char.ofNat (65 + k)) := by decide
    have hlow : 65 ≤ c.toNat := UInt32.le_iff_toNat_le.1 hupper.1
    have hhigh : c.toNat ≤ 90 := UInt32.le_iff_toNat_le.1 hupper.2
    obtain ⟨k, hk⟩ := Nat.exists_eq_add_of_le hlow
    have hc := hletters k (by omega)
    rwa [← hk, Char.ofNat_toNat] at hc
  · have hsame : c.toLower = c := dif_neg hupper
    rw [hsame]
    exact ⟨rfl, rfl⟩

/-- The digits of an ObjectId make the ObjectId. -/
lemma oid_of_digits {id : BitVec 96} {digits : Text} (h : digits.map Char.toLower = oidString id) :
    oidIsValid digits = true ∧ oidOfString digits = id := by
  have hlength : digits.length = 24 := by
    rw [← List.length_map Char.toLower, h, oidString_eq, List.length_map, Positional.length_digits]
  have htake : digits.take 24 = digits := List.take_of_length_le hlength.le
  have hfits : id.toNat < 16 ^ 24 := id.isLt
  have hdigit : ∀ d < 16, hexValue (hexDigit d) = d ∧ isHexDigit (hexDigit d) = true := by decide
  have hbound {d : ℕ} (hd : d ∈ Positional.digits 16 24 id.toNat) : d < 16 :=
    Positional.lt_of_mem_digits (by omega) hd
  constructor
  · have hall : digits.all isHexDigit = true := by
      refine List.all_eq_true.2 fun c hc => ?_
      have hmem : c.toLower ∈ oidString id := h ▸ List.mem_map_of_mem hc
      rw [oidString_eq] at hmem
      obtain ⟨d, hd, heq⟩ := List.mem_map.1 hmem
      rw [← (hex_toLower c).2, ← heq]
      exact (hdigit d (hbound hd)).2
    rw [oidIsValid, htake, hall, hlength]
    rfl
  · have hvalue : digits.foldl (fun n c => 16 * n + hexValue c) 0 = id.toNat := by
      calc digits.foldl (fun n c => 16 * n + hexValue c) 0
          = (digits.map Char.toLower).foldl (fun n c => 16 * n + hexValue c) 0 := by
            rw [List.foldl_map]
            simp only [(hex_toLower _).1]
        _ = (Positional.digits 16 24 id.toNat).foldl
            (fun n d => 16 * n + hexValue (hexDigit d)) 0 := by
            rw [h, oidString_eq, List.foldl_map]
        _ = Positional.value 16 (Positional.digits 16 24 id.toNat) 0 := by
            refine List.foldl_ext _ _ _ fun n d hd => ?_
            rw [(hdigit d (hbound hd)).1, Nat.mul_comm]
        _ = id.toNat := by
            rw [Positional.value_digits (by omega) hfits, Nat.zero_mul, Nat.zero_add]
    rw [oidOfString, htake, hvalue, BitVec.ofNat_toNat, BitVec.setWidth_eq]

/-! ## Renderings are statements of the grammar -/

namespace Spells

variable {t : Token} {ts us : List Token} {text : Text}

/-- The first token, and the others. -/
lemma of_cons (h : Spells (t :: ts) text) :
    ∃ (b : Blank) (first rest : Text), t.Spelled first ∧ Spells ts rest ∧
      text = b.text ++ (first ++ rest) := by
  cases h with
  | cons b h hrest => exact ⟨b, _, _, h, hrest, rfl⟩

/-- A mark has one spelling. -/
lemma of_mark {c : Char} (h : Spells (.mark c :: ts) text) :
    ∃ (b : Blank) (rest : Text), Spells ts rest ∧ text = b.text ++ c :: rest := by
  obtain ⟨b, first, rest, rfl, hrest, rfl⟩ := h.of_cons
  exact ⟨b, rest, hrest, rfl⟩

/-- A word has one spelling. -/
lemma of_word {w : Text} (h : Spells (.word w :: ts) text) :
    ∃ (b : Blank) (rest : Text), Spells ts rest ∧ text = b.text ++ (w ++ rest) := by
  obtain ⟨b, first, rest, rfl, hrest, rfl⟩ := h.of_cons
  exact ⟨b, rest, hrest, rfl⟩

/-- Nothing spells no tokens. -/
lemma of_nil (h : Spells [] text) : text = [] := by
  cases h with
  | nil => rfl

/-- Some tokens, and those behind them. -/
lemma of_append (h : Spells (ts ++ us) text) :
    ∃ front back, Spells ts front ∧ Spells us back ∧ text = front ++ back := by
  induction ts generalizing text with
  | nil => exact ⟨[], text, .nil, h, rfl⟩
  | cons t ts ih =>
    obtain ⟨b, first, rest, hfirst, hrest, rfl⟩ := h.of_cons
    obtain ⟨front, back, hfront, hback, rfl⟩ := ih hrest
    refine ⟨b.text ++ (first ++ front), back, .cons b hfirst hfront, hback, ?_⟩
    simp only [List.append_assoc]

end Spells

mutual

/-- A value is a value of the grammar. -/
lemma Tree.exists_expr (t : Tree) {text : Text} (h : Spells t.tokens text) :
    ∃ (b : Blank) (e : Expr), text = b.text ++ e.text ∧ e.value = t.value := by
  cases t with
  | document fields =>
    obtain ⟨b, rest, hrest, rfl⟩ := h.of_mark
    cases fields with
    | nil =>
      obtain ⟨closing, rest, hnil, rfl⟩ := hrest.of_mark
      obtain rfl := hnil.of_nil
      exact ⟨b, .emptyObject closing, rfl, rfl⟩
    | cons field fields =>
      obtain ⟨f, rfl, hvalue⟩ := Tree.exists_fields (field :: fields) (List.cons_ne_nil _ _) hrest
      exact ⟨b, .object f, rfl, congrArg Value.document hvalue⟩
  | array elements =>
    obtain ⟨b, rest, hrest, rfl⟩ := h.of_mark
    cases elements with
    | nil =>
      obtain ⟨closing, rest, hnil, rfl⟩ := hrest.of_mark
      obtain rfl := hnil.of_nil
      exact ⟨b, .emptyArray closing, rfl, rfl⟩
    | cons t elements =>
      obtain ⟨f, rfl, hvalue⟩ :=
        Tree.exists_elements (t :: elements) ']' (List.cons_ne_nil _ _) hrest
      exact ⟨b, .array f, rfl, congrArg (fun vs => Value.array (makeArray vs)) hvalue⟩
  | string s =>
    obtain ⟨b, first, rest, ⟨quote, hquote, rfl⟩, hnil, rfl⟩ := h.of_cons
    obtain rfl := hnil.of_nil
    obtain ⟨q, htext, hvalue⟩ := exists_quoted hquote s
    refine ⟨b, .string q, ?_, congrArg Value.utf8 hvalue⟩
    rw [List.append_nil, ← htext]
    rfl
  | integer n =>
    obtain ⟨b, first, rest, rfl, hnil, rfl⟩ := h.of_cons
    obtain rfl := hnil.of_nil
    obtain ⟨r, htext, hvalue⟩ := exists_integerRun n
    refine ⟨b, .number r, ?_, hvalue⟩
    rw [List.append_nil, ← htext]
    rfl
  | bool truth =>
    obtain ⟨b, rest, hnil, rfl⟩ := h.of_word
    obtain rfl := hnil.of_nil
    refine ⟨b, .literal (.bool truth), ?_, rfl⟩
    rw [List.append_nil]
    rfl
  | null =>
    obtain ⟨b, rest, hnil, rfl⟩ := h.of_word
    obtain rfl := hnil.of_nil
    exact ⟨b, .literal .null, rfl, rfl⟩
  | objectId id =>
    obtain ⟨b, rest, hopening, rfl⟩ := h.of_word
    obtain ⟨opening, rest, hhex, rfl⟩ := hopening.of_mark
    obtain ⟨before, first, rest, ⟨digits, quote, hdigits, hquote, rfl⟩, hclosing, rfl⟩ :=
      hhex.of_cons
    obtain ⟨closing, rest, hnil, rfl⟩ := hclosing.of_mark
    obtain rfl := hnil.of_nil
    obtain ⟨q, htext, hvalue⟩ := exists_quoted hquote digits
    obtain ⟨hvalid, hoid⟩ := oid_of_digits hdigits
    refine ⟨b, .objectId opening before q closing (hvalue ▸ hvalid), ?_, ?_⟩
    · rw [← htext]
      rfl
    · exact congrArg Value.oid (hvalue ▸ hoid)
termination_by structural t

/-- The fields of a document are fields of the grammar. -/
lemma Tree.exists_fields (fields : List (FieldName × Tree)) (hne : fields ≠ []) {text : Text}
    (h : Spells (Tree.fieldTokens fields ++ [.mark '}']) text) :
    ∃ f : Fields, text = f.text ∧ f.value = Tree.doc fields := by
  cases fields with
  | nil => exact absurd rfl hne
  | cons field rest =>
    cases field with
    | mk name t =>
      rw [Tree.fieldTokens, List.cons_append, List.cons_append, List.append_assoc,
        List.append_assoc] at h
      obtain ⟨before, first, behind, hkey, hcolon, rfl⟩ := h.of_cons
      obtain ⟨key, htext, hkeyvalue⟩ := exists_key hkey
      obtain ⟨colon, behind, hvalue, rfl⟩ := hcolon.of_mark
      obtain ⟨front, behind, ht, hrest, rfl⟩ := hvalue.of_append
      obtain ⟨space, e, rfl, he⟩ := Tree.exists_expr t ht
      cases rest with
      | nil =>
        obtain ⟨closing, behind, hnil, rfl⟩ := hrest.of_mark
        obtain rfl := hnil.of_nil
        refine ⟨.last before key colon space e closing, ?_, ?_⟩
        · rw [Fields.text, htext, List.append_assoc]
        · rw [Fields.value, hkeyvalue, he]
          rfl
      | cons next rest =>
        obtain ⟨comma, behind, hfields, rfl⟩ := hrest.of_mark
        obtain ⟨f, rfl, hf⟩ := Tree.exists_fields (next :: rest) (List.cons_ne_nil _ _) hfields
        refine ⟨.cons before key colon space e comma f, ?_, ?_⟩
        · rw [Fields.text, htext, List.append_assoc]
        · rw [Fields.value, hkeyvalue, he, hf]
          rfl
termination_by structural fields

/-- The elements of an array are elements of the grammar. -/
lemma Tree.exists_elements (elements : List Tree) (close : Char) (hne : elements ≠ []) {text : Text}
    (h : Spells (Tree.elementTokens elements ++ [.mark close]) text) :
    ∃ f : Elements, text = f.text close ∧ f.values = Tree.values elements := by
  cases elements with
  | nil => exact absurd rfl hne
  | cons t rest =>
    rw [Tree.elementTokens, List.append_assoc, List.append_assoc] at h
    obtain ⟨front, behind, ht, hrest, rfl⟩ := h.of_append
    obtain ⟨space, e, rfl, he⟩ := Tree.exists_expr t ht
    cases rest with
    | nil =>
      obtain ⟨closing, behind, hnil, rfl⟩ := hrest.of_mark
      obtain rfl := hnil.of_nil
      refine ⟨.last space e closing, ?_, ?_⟩
      · rw [Elements.text, List.append_assoc]
      · rw [Elements.values, he]
        rfl
    | cons next rest =>
      obtain ⟨comma, behind, helements, rfl⟩ := hrest.of_mark
      obtain ⟨f, rfl, hf⟩ :=
        Tree.exists_elements (next :: rest) close (List.cons_ne_nil _ _) helements
      refine ⟨.cons space e comma f, ?_, ?_⟩
      · rw [Elements.text, List.append_assoc]
      · rw [Elements.values, he, hf]
        rfl
termination_by structural elements

end

/-- A call is a call of the grammar, and what follows it is spelled by what follows that. -/
lemma CallTree.exists_invocation (c : CallTree) {ts : List Token} {text : Text}
    (h : Spells (c.tokens ++ ts) text) :
    ∃ (i : Invocation) (rest : Text), Spells ts rest ∧ text = i.text ++ rest ∧
      i.call = c.call := by
  have htokens : c.tokens ++ ts = .word dbWord :: .mark '.' :: .word c.collection.text ::
      .mark '.' :: .word c.verb.text :: .mark '(' ::
        ((Tree.elementTokens c.args ++ [.mark ')']) ++ ts) := rfl
  rw [htokens] at h
  obtain ⟨start, _, hdot, rfl⟩ := h.of_word
  obtain ⟨dot, _, hcollection, rfl⟩ := hdot.of_mark
  obtain ⟨space, _, hdot', rfl⟩ := hcollection.of_word
  obtain ⟨dot', _, hverb, rfl⟩ := hdot'.of_mark
  obtain ⟨space', _, hopening, rfl⟩ := hverb.of_word
  obtain ⟨opening, _, hbehind, rfl⟩ := hopening.of_mark
  obtain ⟨front, rest, hargs, hrest, rfl⟩ := hbehind.of_append
  obtain ⟨args, rfl, hvalues⟩ : ∃ args : Arguments, front = args.text ∧
      args.values = Tree.values c.args := by
    cases hc : c.args with
    | nil =>
      rw [hc] at hargs
      obtain ⟨closing, _, hnil, rfl⟩ := hargs.of_mark
      obtain rfl := hnil.of_nil
      exact ⟨.none closing, rfl, rfl⟩
    | cons t trees =>
      rw [hc] at hargs
      obtain ⟨f, rfl, hf⟩ := Tree.exists_elements (t :: trees) ')' (List.cons_ne_nil _ _) hargs
      exact ⟨.some f, rfl, hf⟩
  refine ⟨⟨start, dot, space, c.collection, dot', space', c.verb, opening, args⟩, rest, hrest, ?_,
    ?_⟩
  · simp only [Invocation.text, List.append_assoc, List.cons_append]
  · rw [Invocation.call, hvalues]
    rfl

/-! ## What may follow -/

/-- The text is one semicolon among white space. -/
def LoneSemicolon (u : Text) : Prop := ∃ b b' : Blank, u = b.text ++ ';' :: b'.text

/-- White space is skipped. -/
lemma skipSpace_append (b : Blank) (s : Text) : skipSpace (b.text ++ s) = skipSpace s :=
  List.dropWhile_append_of_pos (List.all_eq_true.1 b.blank)

/-- The statement ends before a text of white space. -/
lemma eof_iff (s : Text) : eof s = true ↔ s.all isSpace = true := by
  rw [eof, List.isEmpty_iff, skipSpace, List.dropWhile_eq_nil_iff, List.all_eq_true]

/-- A statement may end behind a call, and behind one semicolon. -/
lemma eof_consume_iff (u : Text) :
    eof (consume ';' u).2 = true ↔ u.all isSpace = true ∨ LoneSemicolon u := by
  constructor
  · intro h
    obtain ⟨b, hb⟩ := exists_skipSpace u
    rw [consume] at h
    cases hskip : skipSpace u with
    | nil =>
      rw [hskip, List.append_nil] at hb
      exact .inl (hb ▸ b.blank)
    | cons d rest =>
      rw [hskip] at h hb
      dsimp only at h
      by_cases hd : d = ';'
      · rw [if_pos hd, eof_iff] at h
        exact .inr ⟨b, ⟨rest, h⟩, hd ▸ hb⟩
      · rw [if_neg hd, eof_iff] at h
        refine .inl ?_
        rw [hb, List.all_append, b.blank, h, Bool.and_self]
  · rintro (h | ⟨b, b', rfl⟩)
    · rw [← eof_iff, eof, List.isEmpty_iff] at h
      rw [consume, h]
      rfl
    · rw [consume_blank b (by decide), eof_iff]
      exact b'.blank

/-- What follows a call, and then more, ends the statement only if it is white space, or if it is
the first semicolon. -/
lemma eof_append_iff {semicolon : Bool} {rest : Text} (finish : Blank)
    (h : Spells (if semicolon then [.mark ';'] else []) rest) (u : Text) :
    eof (consume ';' (rest ++ (finish.text ++ u))).2 = true ↔
      u.all isSpace = true ∨ semicolon = false ∧ LoneSemicolon u := by
  cases semicolon with
  | false =>
    obtain rfl := h.of_nil
    have hconsume : consume ';' (finish.text ++ u) = consume ';' u := by
      rw [consume, consume, skipSpace_append]
    rw [List.nil_append, hconsume, eof_consume_iff, and_iff_right rfl]
  | true =>
    obtain ⟨b, _, hnil, rfl⟩ := h.of_mark
    obtain rfl := hnil.of_nil
    rw [List.append_assoc, List.cons_append, List.nil_append, consume_blank b (by decide), eof_iff,
      List.all_append, finish.blank, Bool.true_and, or_iff_left fun h => Bool.noConfusion h.1]

/-- **The shell grammar is read back exactly**: the reader makes the call of every rendering, and
when more than white space is appended it fails, unless that is the semicolon which was left
out. -/
theorem CallTree.parse_rendering (c : CallTree) (semicolon : Bool) {text : Text}
    (h : c.Renders semicolon text) :
    parseShellCall text = .ok c.call ∧ ∀ u : Text, u.all isSpace = false →
      ((∃ e, parseShellCall (text ++ u) = .error e) ↔
        ¬ (semicolon = false ∧ LoneSemicolon u)) := by
  obtain ⟨body, finish, rfl, hbody⟩ := h
  obtain ⟨i, rest, hrest, rfl, hcall⟩ := c.exists_invocation hbody
  have hend := eof_append_iff finish hrest
  constructor
  · have heof := (hend []).2 (.inl rfl)
    rw [List.append_nil] at heof
    rw [List.append_assoc, parseShellCall_invocation, if_pos heof, hcall]
  · intro u hu
    have hiff : eof (consume ';' (rest ++ (finish.text ++ u))).2 = true ↔
        semicolon = false ∧ LoneSemicolon u := by
      rw [hend, hu, or_iff_right Bool.false_ne_true]
    rw [List.append_assoc, List.append_assoc, parseShellCall_invocation, ← hiff]
    by_cases heof : eof (consume ';' (rest ++ (finish.text ++ u))).2 = true
    · rw [if_pos heof]
      refine iff_of_false (fun h => ?_) (not_not.2 heof)
      obtain ⟨e, he⟩ := h
      cases he
    · rw [if_neg heof]
      exact iff_of_true ⟨_, rfl⟩ heof

/-! ## A rendering of every call -/

/-- One spelling of a token. -/
def Token.text : Token → Text
  | .mark c => [c]
  | .word w => w
  | .key k => quoteText '"' k
  | .string s => quoteText '"' s
  | .integer n => integerText n.toInt
  | .hex id => quoteText '"' (oidString id)

/-- It is one. -/
lemma Token.spelled_text (t : Token) : t.Spelled t.text := by
  cases t with
  | mark c => exact rfl
  | word w => exact rfl
  | key k => exact .inr ⟨'"', rfl, rfl⟩
  | string s => exact ⟨'"', rfl, rfl⟩
  | integer n => exact rfl
  | hex id =>
    refine ⟨oidString id, '"', ?_, rfl, rfl⟩
    have hlower : ∀ d < 16, (hexDigit d).toLower = hexDigit d := by decide
    rw [oidString_eq, List.map_map]
    exact List.map_congr_left fun d hd => hlower d (Positional.lt_of_mem_digits (by omega) hd)

/-- Tokens are spelled one by one. -/
lemma spells_texts (ts : List Token) : Spells ts (ts.flatMap Token.text) := by
  induction ts with
  | nil => exact .nil
  | cons t ts ih => exact .cons .empty t.spelled_text ih

/-- A call as it is printed. -/
def CallTree.text (c : CallTree) (semicolon : Bool) : Text :=
  List.flatMap Token.text (c.tokens ++ if semicolon then [.mark ';'] else [])

/-- Every call has a rendering. -/
theorem CallTree.renders_text (c : CallTree) (semicolon : Bool) :
    c.Renders semicolon (c.text semicolon) :=
  ⟨c.text semicolon, .empty, (List.append_nil _).symm, spells_texts _⟩

/-- A field may be called `a`. -/
lemma nul_not_mem_a : Char.ofNat 0 ∉ ['a'] := by decide

/-- `db.c.find({"a":-1})`. -/
def findTree : CallTree where
  collection := collectionC
  verb := findVerb
  args := [.document [(⟨['a'], nul_not_mem_a⟩, .integer (-1))]]

/-- The reader makes the find of the printed find, and of nothing longer. -/
theorem findTree_parse_rendering :
    parseShellCall "db.c.find(\x7b\"a\":-1\x7d);".toList = .ok findTree.call ∧
      ∃ e, parseShellCall ("db.c.find(\x7b\"a\":-1\x7d);".toList ++ "2".toList) = .error e := by
  have htext : findTree.text true = "db.c.find(\x7b\"a\":-1\x7d);".toList := by decide +kernel
  obtain ⟨hparse, hmore⟩ := findTree.parse_rendering true (htext ▸ findTree.renders_text true)
  exact ⟨hparse, (hmore "2".toList rfl).2 fun h => Bool.noConfusion h.1⟩

/-- A semicolon behind a rendering that has none is not refused. -/
theorem semicolon_not_refused :
    findTree.Renders false "db.c.find(\x7b\"a\":-1\x7d)".toList ∧ ";".toList.all isSpace = false ∧
      ¬ ∃ e, parseShellCall ("db.c.find(\x7b\"a\":-1\x7d)".toList ++ ";".toList) = .error e := by
  have htext : findTree.text false = "db.c.find(\x7b\"a\":-1\x7d)".toList := by decide +kernel
  have hparse : parseShellCall ("db.c.find(\x7b\"a\":-1\x7d)".toList ++ ";".toList) =
      .ok findTree.call := by decide +kernel
  refine ⟨htext ▸ findTree.renders_text false, rfl, fun h => ?_⟩
  obtain ⟨e, he⟩ := h
  rw [hparse] at he
  cases he

end Mongosh

end Chimera

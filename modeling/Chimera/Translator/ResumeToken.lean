import Chimera.Foundations.Positional
import Chimera.Oplog.Event
import Chimera.Translator.FilterSemantics
import Chimera.Translator.Pipeline
import Mathlib.Data.Char

/-!
# Resume tokens

The sequence number of an oplog row is handed out as a text of sixteen hexadecimal digits: by
`encode_resume_token` where a batch ends, and by an SQL expression in each event.  A client hands it
in again, and `decode_resume_token` reads it.
-/

namespace Chimera

/-! ## The three codecs -/

/-- `%0<width>llx`: hexadecimal digits in lower case, behind zeros when there are fewer than
`width`. -/
def printHex (width n : ℕ) : Text :=
  List.replicate (width - (Nat.toDigits 16 n).length) '0' ++ Nat.toDigits 16 n

/-- `encode_resume_token`: of what is printed, the buffer holds sixteen characters and a NUL. -/
def encodeResumeToken (seq : UInt64) : Text := (printHex 16 seq.toNat).take 16

/-- `HEX` of a number, in upper case. -/
def sqlHex (n : ℕ) : Text := (Nat.toDigits 16 n).map Char.toUpper

/-- `LOWER`. -/
def sqlLower (s : Text) : Text := s.map Char.toLower

/-- `LPAD`: a text that is too long is cut off. -/
def sqlLpad (s : Text) (length : ℕ) (c : Char) : Text :=
  (List.replicate (length - s.length) c ++ s).take length

/-! ## Sixteen digits -/

/-- What is printed is the digits of the number. -/
lemma encodeResumeToken_eq (seq : UInt64) :
    encodeResumeToken seq = (Positional.digits 16 16 seq.toNat).map Nat.digitChar := by
  have hfits : seq.toNat < 16 ^ (15 + 1) := seq.toNat_lt
  rw [encodeResumeToken, printHex, Positional.replicate_append_toDigits (by omega) hfits]
  refine List.take_of_length_le ?_
  rw [List.length_map, Positional.length_digits]

/-- A hexadecimal digit in lower case. -/
lemma isLowerHex_digitChar : ∀ d < 16, isLowerHex [Nat.digitChar d] = true := by decide

/-- The characters of a number are hexadecimal digits. -/
lemma exists_digitChar {n : ℕ} {c : Char} (h : c ∈ Nat.toDigits 16 n) :
    ∃ d < 16, c = Nat.digitChar d := by
  have hfits : n < 16 ^ (n + 1) :=
    (Nat.lt_pow_self (by omega)).trans (Nat.pow_lt_pow_succ (by omega))
  have hmem : c ∈ (Positional.digits 16 (n + 1) n).map Nat.digitChar := by
    rw [← Positional.replicate_append_toDigits (by omega) hfits]
    exact List.mem_append_right _ h
  obtain ⟨d, hd, rfl⟩ := List.mem_map.1 hmem
  exact ⟨d, Positional.lt_of_mem_digits (by omega) hd, rfl⟩

/-- The lower case of the upper case of a number is the number as it is printed. -/
lemma sqlLower_sqlHex (n : ℕ) : sqlLower (sqlHex n) = Nat.toDigits 16 n := by
  have hcase : ∀ d < 16, (Nat.digitChar d).toUpper.toLower = Nat.digitChar d := by decide
  rw [sqlLower, sqlHex, List.map_map]
  refine (List.map_congr_left fun c hc => ?_).trans (List.map_id _)
  obtain ⟨d, hd, rfl⟩ := exists_digitChar hc
  exact hcase d hd

/-- The database pads a number as it is printed. -/
lemma sqlLpad_eq (n : ℕ) : sqlLpad (sqlLower (sqlHex n)) 16 '0' = paddedHex n := by
  rw [sqlLower_sqlHex]
  rfl

/-- The database and `encode_resume_token` make the same token. -/
lemma paddedHex_eq (seq : UInt64) : paddedHex seq.toNat = encodeResumeToken seq := rfl

/-! ## Reading a token -/

/-- The value of a hexadecimal digit. -/
lemma hexValue_digits {ds : List ℕ} (h : ∀ d ∈ ds, d < 16) :
    hexValue (ds.map Nat.digitChar) = Positional.value 16 ds 0 := by
  have hdigit : ∀ d < 16, (if Nat.digitChar d ≤ '9' then (Nat.digitChar d).toNat - 48
      else (Nat.digitChar d).toNat - 87) = d := by decide
  rw [hexValue, List.foldl_map, Positional.value]
  refine List.foldl_ext _ _ _ fun n d hd => ?_
  rw [hdigit d (h d hd), Nat.mul_comm]

/-- A text of hexadecimal digits in lower case. -/
lemma exists_digits_of_isLowerHex {s : Text} (h : isLowerHex s = true) :
    ∃ ds : List ℕ, (∀ d ∈ ds, d < 16) ∧ s = ds.map Nat.digitChar := by
  have hnumber : ∀ k < 10, Nat.digitChar k = Char.ofNat (48 + k) := by decide
  have hletter : ∀ k < 6, Nat.digitChar (10 + k) = Char.ofNat (97 + k) := by decide
  have hchar (c : Char) (hc : isLowerHex [c] = true) : ∃ d < 16, c = Nat.digitChar d := by
    have hrange : '0'.toNat ≤ c.toNat ∧ c.toNat ≤ '9'.toNat ∨
        'a'.toNat ≤ c.toNat ∧ c.toNat ≤ 'f'.toNat := by
      simpa [isLowerHex, Char.le_def, UInt32.le_iff_toNat_le] using hc
    rcases hrange with ⟨hlow, hhigh⟩ | ⟨hlow, hhigh⟩
    · obtain ⟨k, hk⟩ := Nat.exists_eq_add_of_le hlow
      have hk10 : k < 10 := by
        have hnine : '9'.toNat = 57 := rfl
        have hzero : '0'.toNat = 48 := rfl
        omega
      refine ⟨k, by omega, ?_⟩
      rw [hnumber k hk10, ← Char.ofNat_toNat c, hk]
      rfl
    · obtain ⟨k, hk⟩ := Nat.exists_eq_add_of_le hlow
      have hk6 : k < 6 := by
        have hf : 'f'.toNat = 102 := rfl
        have ha : 'a'.toNat = 97 := rfl
        omega
      refine ⟨10 + k, by omega, ?_⟩
      rw [hletter k hk6, ← Char.ofNat_toNat c, hk]
      rfl
  induction s with
  | nil => exact ⟨[], List.forall_mem_nil _, rfl⟩
  | cons c s ih =>
    rw [isLowerHex, List.all_cons, Bool.and_eq_true] at h
    obtain ⟨d, hd, rfl⟩ := hchar c (by rw [isLowerHex, List.all_cons, h.1]; rfl)
    obtain ⟨ds, hds, rfl⟩ := ih h.2
    exact ⟨d :: ds, List.forall_mem_cons.2 ⟨hd, hds⟩, rfl⟩

/-- A token has sixteen characters, which are digits of its number. -/
lemma encodeResumeToken_spec (seq : UInt64) : (encodeResumeToken seq).length = 16 ∧
    isLowerHex (encodeResumeToken seq) = true ∧ hexValue (encodeResumeToken seq) = seq.toNat := by
  have hfits : seq.toNat < 16 ^ 16 := seq.toNat_lt
  have hdigits (d : ℕ) (hd : d ∈ Positional.digits 16 16 seq.toNat) : d < 16 :=
    Positional.lt_of_mem_digits (by omega) hd
  rw [encodeResumeToken_eq]
  refine ⟨by rw [List.length_map, Positional.length_digits], ?_, ?_⟩
  · refine List.all_eq_true.2 fun c hc => ?_
    obtain ⟨d, hd, rfl⟩ := List.mem_map.1 hc
    have hlower := isLowerHex_digitChar d (hdigits d hd)
    rwa [isLowerHex, List.all_cons, List.all_nil, Bool.and_true] at hlower
  · rw [hexValue_digits hdigits, Positional.value_digits (by omega) hfits, Nat.zero_mul,
      Nat.zero_add]

/-- Sixteen digits are a token. -/
lemma exists_token {s : Text} (hlength : s.length = 16) (h : isLowerHex s = true) :
    ∃ seq : UInt64, s = encodeResumeToken seq := by
  obtain ⟨ds, hds, rfl⟩ := exists_digits_of_isLowerHex h
  rw [List.length_map] at hlength
  obtain ⟨hlt, hdigits⟩ := Positional.digits_value (by omega) hds
  rw [hlength] at hlt hdigits
  have hseq : (UInt64.ofNat (Positional.value 16 ds 0)).toNat = Positional.value 16 ds 0 :=
    UInt64.toNat_ofNat_of_lt' hlt
  exact ⟨_, by rw [encodeResumeToken_eq, hseq, hdigits]⟩

/-- A token is read as its number, and what is not a token is refused. -/
lemma decodeResumeToken_cases (token : Doc) :
    (∃ seq : UInt64, findField token "_data".toList = some (.utf8 (encodeResumeToken seq)) ∧
      decodeResumeToken token = .ok seq.toNat) ∨
    (¬ ∃ seq : UInt64, findField token "_data".toList = some (.utf8 (encodeResumeToken seq))) ∧
      ∃ why, decodeResumeToken token = .error (badValue why) := by
  cases hfield : findField token "_data".toList with
  | none =>
    refine .inr ⟨fun h => ?_, ?_⟩
    · obtain ⟨seq, hseq⟩ := h
      cases hseq
    · rw [decodeResumeToken, hfield]
      exact ⟨_, rfl⟩
  | some v =>
    by_cases hv : ∃ seq : UInt64, v = .utf8 (encodeResumeToken seq)
    · obtain ⟨seq, rfl⟩ := hv
      obtain ⟨hlength, hlower, hvalue⟩ := encodeResumeToken_spec seq
      refine .inl ⟨seq, rfl, ?_⟩
      rw [decodeResumeToken, hfield]
      dsimp only
      rw [if_neg (not_not.2 hlength), hlower, hvalue]
      rfl
    · refine .inr ⟨fun h => ?_, ?_⟩
      · obtain ⟨seq, hseq⟩ := h
        exact hv ⟨seq, Option.some.inj hseq⟩
      · rw [decodeResumeToken, hfield]
        cases v with
        | utf8 hex =>
          dsimp only
          by_cases hlength : hex.length ≠ 16
          · rw [if_pos hlength]
            exact ⟨_, rfl⟩
          · rw [if_neg hlength]
            cases hlower : isLowerHex hex with
            | false => exact ⟨_, rfl⟩
            | true =>
              obtain ⟨seq, rfl⟩ := exists_token (not_not.1 hlength) hlower
              exact absurd ⟨seq, rfl⟩ hv
        | _ => exact ⟨_, rfl⟩

/-- Tokens are ordered as their numbers are. -/
lemma encodeResumeToken_lt_iff (m n : UInt64) :
    encodeResumeToken m < encodeResumeToken n ↔ m < n := by
  have hdigit : ∀ i < 16, ∀ j < 16, (Nat.digitChar i < Nat.digitChar j ↔ i < j) := by decide
  have hm : m.toNat < 16 ^ 16 := m.toNat_lt
  have hn : n.toNat < 16 ^ 16 := n.toNat_lt
  rw [encodeResumeToken_eq, encodeResumeToken_eq, UInt64.lt_iff_toNat_lt]
  exact Positional.map_digits_lt_iff (f := Nat.digitChar) (by omega)
    (fun i j hi hj => hdigit i hi j hj) hm hn

/-- **Resume tokens: three codecs, one meaning.**  The token that `encode_resume_token` makes is the
one in the row's event, it is read as its number, and tokens are ordered as their numbers; every
other document is refused as a bad value. -/
theorem resume_token_codecs :
    (∀ seq : UInt64, encodeResumeToken seq = sqlLpad (sqlLower (sqlHex seq.toNat)) 16 '0' ∧
      ∀ r : OplogRow, r.seq = seq.toNat →
        jsonAt (eventExpr r) ["_id".toList, "_data".toList] = some (.str (encodeResumeToken seq))) ∧
    (∀ (seq : UInt64) (token : Doc),
      findField token "_data".toList = some (.utf8 (encodeResumeToken seq)) →
        decodeResumeToken token = .ok seq.toNat) ∧
    (∀ m n : UInt64, encodeResumeToken m < encodeResumeToken n ↔ m < n) ∧
    ∀ token : Doc,
      ((∃ n, decodeResumeToken token = .ok n) ↔
        ∃ seq : UInt64, findField token "_data".toList = some (.utf8 (encodeResumeToken seq))) ∧
      ((¬ ∃ n, decodeResumeToken token = .ok n) →
        ∃ why, decodeResumeToken token = .error (badValue why)) := by
  refine ⟨fun seq => ⟨?_, fun r hr => ?_⟩, fun seq token h => ?_, encodeResumeToken_lt_iff,
    fun token => ?_⟩
  · rw [sqlLpad_eq, paddedHex_eq]
  · rw [← paddedHex_eq, ← hr]
    rfl
  · rcases decodeResumeToken_cases token with ⟨seq', hfield, hdecode⟩ | ⟨hno, -⟩
    · rw [h] at hfield
      have hvalue := congrArg hexValue (Value.utf8.inj (Option.some.inj hfield))
      rw [(encodeResumeToken_spec seq).2.2, (encodeResumeToken_spec seq').2.2] at hvalue
      rw [hdecode, hvalue]
    · exact absurd ⟨seq, h⟩ hno
  · rcases decodeResumeToken_cases token with ⟨seq, hfield, hdecode⟩ | ⟨hno, why, hwhy⟩
    · exact ⟨iff_of_true ⟨_, hdecode⟩ ⟨seq, hfield⟩, fun h => absurd ⟨_, hdecode⟩ h⟩
    · refine ⟨iff_of_false (fun h => ?_) hno, fun _ => ⟨why, hwhy⟩⟩
      obtain ⟨n, hn⟩ := h
      rw [hwhy] at hn
      cases hn

/-- The token of row 42. -/
theorem resume_token_codecs_42 :
    decodeResumeToken [("_data".toList, .utf8 "000000000000002a".toList)] = .ok 42 :=
  resume_token_codecs.2.1 42 [("_data".toList, .utf8 "000000000000002a".toList)]
    (by decide +kernel)

end Chimera

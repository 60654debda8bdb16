import Chimera.Foundations.Binary64Order
import Chimera.Foundations.Positional
import Chimera.Translator.Codec
import Chimera.Translator.Id
import Mathlib.Data.Char

/-!
# Primary keys tell ids

Two ids have one key exactly when they are one id, numbers of different types being one when they
are the same number.  Keys of numbers order as the numbers do, and a key is decoded to the id it was
made of.
-/

namespace Chimera

/-! ## What an id is -/

/-- The number that an id denotes, in units of `2 ^ (-1074)`; the infinities lie beyond all finite
numbers. -/
def Value.idNumber : Value → Option ℤ
  | .int32 n => some (n.toInt * 2 ^ 1074)
  | .int64 n => some (n.toInt * 2 ^ 1074)
  | .double d => some d.units
  | _ => none

/-- The two are one id: the same number, or the same value of another type. -/
def SameId (a b : Value) : Prop :=
  match a.idNumber with
  | some u => b.idNumber = some u
  | none => a = b

/-- The id as it is decoded: an integer of sixty-four bits of any type is an `int64`, and every
other id is what it was. -/
def DecodesAs (a v : Value) : Prop :=
  (∃ n : Int64, a.idNumber = some (n.toInt * 2 ^ 1074) ∧ v = .int64 n) ∨
    (∀ n : Int64, a.idNumber ≠ some (n.toInt * 2 ^ 1074)) ∧ v = a

/-! ## Words and their bytes -/

/-- A byte is read back from its character. -/
lemma toNat_byte {k : ℕ} (hk : k < 256) : (Char.ofNat k).toNat = k := by
  have hvalid : k.isValidChar := .inl (by omega)
  rw [Char.ofNat, dif_pos hvalid]
  rfl

/-- Bytes are characters in their order. -/
lemma byte_lt_iff (i j : ℕ) (hi : i < 256) (hj : j < 256) :
    Char.ofNat i < Char.ofNat j ↔ i < j := by
  have hi' := toNat_byte hi
  have hj' := toNat_byte hj
  rw [Char.lt_def, UInt32.lt_iff_toNat_lt]
  change (Char.ofNat i).toNat < (Char.ofNat j).toNat ↔ i < j
  rw [hi', hj']

/-- The bytes of a number are its digits. -/
lemma bigEndianBytes_eq (count n : ℕ) :
    bigEndianBytes count n = (Positional.digits 256 count n).map Char.ofNat := by
  rw [bigEndianBytes, Positional.digits, List.map_map]
  rfl

/-- As many bytes as asked for. -/
lemma length_bigEndianBytes (count n : ℕ) : (bigEndianBytes count n).length = count := by
  rw [bigEndianBytes_eq, List.length_map, Positional.length_digits]

/-- Words order as their bytes do. -/
lemma bigEndian_lt_iff (v w : BitVec 64) : bigEndian v < bigEndian w ↔ v.toNat < w.toNat := by
  have hv : v.toNat < 256 ^ 8 := v.isLt
  have hw : w.toNat < 256 ^ 8 := w.isLt
  rw [bigEndian, bigEndian, bigEndianBytes_eq, bigEndianBytes_eq]
  exact Positional.map_digits_lt_iff (by omega) byte_lt_iff hv hw

/-- One more byte. -/
lemma toNat_shift_or {w k : ℕ} (bits : BitVec w) (hk : k < 256) :
    (bits <<< 8 ||| BitVec.ofNat w k).toNat = (bits.toNat * 256 + k) % 2 ^ w := by
  have hdisjoint : bits <<< 8 &&& BitVec.ofNat w k = 0#w := by
    ext i hi
    by_cases hlow : i < 8
    · simp [hlow]
    · have hpow : 2 ^ 8 ≤ 2 ^ i := Nat.pow_le_pow_right (by omega) (by omega)
      have hbit : k.testBit i = false := Nat.testBit_lt_two_pow (by omega)
      have hget : (BitVec.ofNat w k)[i] = false := by
        rw [← BitVec.getLsbD_eq_getElem, BitVec.getLsbD_ofNat, hbit, Bool.and_false]
      simp [hget]
  rw [← BitVec.add_eq_or_of_and_eq_zero _ _ hdisjoint, BitVec.toNat_add, BitVec.toNat_shiftLeft,
    BitVec.toNat_ofNat, ← Nat.add_mod, Nat.shiftLeft_eq]

/-- The word that bytes spell after others. -/
lemma toNat_foldl_bytes {w : ℕ} {ds : List ℕ} (hds : ∀ d ∈ ds, d < 256) {bits : BitVec w} {acc : ℕ}
    (h : bits.toNat = acc % 2 ^ w) :
    ((ds.map Char.ofNat).foldl (fun (bits : BitVec w) c => bits <<< 8 ||| BitVec.ofNat w c.toNat)
      bits).toNat =
      Positional.value 256 ds acc % 2 ^ w := by
  induction ds generalizing bits acc with
  | nil => exact h
  | cons d ds ih =>
    have hd := hds d List.mem_cons_self
    refine ih (fun d' hd' => hds d' (List.mem_cons_of_mem _ hd')) ?_
    change (bits <<< 8 ||| BitVec.ofNat w (Char.ofNat d).toNat).toNat = (acc * 256 + d) % 2 ^ w
    rw [toNat_byte hd, toNat_shift_or bits hd, h, Nat.add_mod, Nat.mul_mod, Nat.mod_mod,
      ← Nat.mul_mod, ← Nat.add_mod]

/-- A number that fits is read back from its bytes. -/
lemma foldl_bigEndianBytes {w count n : ℕ} (hn : n < 256 ^ count) :
    (bigEndianBytes count n).foldl
      (fun (bits : BitVec w) c => bits <<< 8 ||| BitVec.ofNat w c.toNat)
      0#w = BitVec.ofNat w n := by
  refine BitVec.eq_of_toNat_eq ?_
  have hzero : (0#w).toNat = 0 % 2 ^ w := by simp
  rw [bigEndianBytes_eq, toNat_foldl_bytes (fun d hd => Positional.lt_of_mem_digits (by omega) hd)
    hzero, Positional.value_digits (by omega) hn, zero_mul, zero_add, BitVec.toNat_ofNat]

/-- A word is read back from its bytes. -/
lemma fromBigEndian_bigEndian (v : BitVec 64) : fromBigEndian (bigEndian v) = v := by
  have htake : (bigEndian v).take 8 = bigEndian v :=
    List.take_of_length_le (length_bigEndianBytes 8 v.toNat).le
  rw [fromBigEndian, htake, bigEndian]
  exact (foldl_bigEndianBytes (show v.toNat < 256 ^ 8 from v.isLt)).trans (by simp)

/-! ## Integers -/

/-- The sign bit, as a number. -/
lemma toNat_signBit : signBit.toNat = 2 ^ 63 := by decide

/-- With the sign bit flipped, an integer is its distance from the least one. -/
lemma toNat_flip (n : Int64) : ((n.toBitVec ^^^ signBit).toNat : ℤ) = n.toInt + 2 ^ 63 := by
  have hn := n.toBitVec.isLt
  have hdiv : (n.toBitVec.toNat ^^^ 2 ^ 63) / 2 ^ 63 = n.toBitVec.toNat / 2 ^ 63 ^^^ 1 := by
    rw [Nat.xor_div_two_pow, Nat.div_self (by omega)]
  have hmod : (n.toBitVec.toNat ^^^ 2 ^ 63) % 2 ^ 63 = n.toBitVec.toNat % 2 ^ 63 := by
    rw [Nat.xor_mod_two_pow, Nat.mod_self, Nat.xor_zero]
  rw [BitVec.toNat_xor, toNat_signBit, ← Int64.toInt_toBitVec, BitVec.toInt_eq_toNat_cond]
  rcases Nat.lt_or_ge n.toBitVec.toNat (2 ^ 63) with hlow | hhigh
  · have hzero : n.toBitVec.toNat / 2 ^ 63 = 0 := by omega
    rw [hzero, Nat.zero_xor] at hdiv
    rw [if_pos (by omega)]
    omega
  · have hone : n.toBitVec.toNat / 2 ^ 63 = 1 := by omega
    rw [hone, Nat.xor_self] at hdiv
    rw [if_neg (by omega)]
    omega

/-- Keys of integers order as the integers do. -/
lemma encodeInt_lt_iff (m n : Int64) : encodeInt m < encodeInt n ↔ m.toInt < n.toInt := by
  have hm := toNat_flip m
  have hn := toNat_flip n
  rw [encodeInt, encodeInt, bigEndian_lt_iff]
  omega

/-- An integer is read back from its key. -/
lemma decodeInt_encodeInt (n : Int64) : decodeInt (encodeInt n) = n := by
  have hword : fromBigEndian (encodeInt n) ^^^ signBit = n.toBitVec := by
    rw [encodeInt, fromBigEndian_bigEndian, BitVec.xor_assoc, BitVec.xor_self, BitVec.xor_zero]
  exact congrArg (fun v => (⟨⟨v⟩⟩ : Int64)) hword

/-! ## Doubles -/

/-- The word of a double is its place in the order. -/
lemma toNat_doubleWord (d : Binary64) :
    (if d.bits.msb then ~~~d.bits else d.bits ||| signBit).toNat = d.orderWord := by
  unfold Binary64.orderWord
  by_cases h : d.negative = true
  · have hmsb : d.bits.msb = true := h
    rw [if_pos hmsb, if_pos h, BitVec.toNat_not]
  · have hmsb : ¬ d.bits.msb = true := h
    have hlow := mt Binary64.negative_iff.2 h
    have hor := Nat.two_pow_add_eq_or_of_lt (not_le.1 hlow) 1
    rw [mul_one] at hor
    rw [if_neg hmsb, if_neg h, BitVec.toNat_or, toNat_signBit, Nat.or_comm, ← hor, Nat.add_comm]

/-- Keys of doubles order as the doubles do. -/
lemma encodeDouble_lt_iff {d e : Binary64} (h : d.units ≠ 0) :
    encodeDouble d < encodeDouble e ↔ d.units < e.units := by
  rw [encodeDouble, encodeDouble, bigEndian_lt_iff, toNat_doubleWord, toNat_doubleWord,
    Binary64.orderWord_lt_iff h]

/-- A double is read back from its key. -/
lemma decodeDouble_encodeDouble (d : Binary64) : decodeDouble (encodeDouble d) = d := by
  rw [decodeDouble, encodeDouble, fromBigEndian_bigEndian]
  cases d with
  | mk bits =>
    refine congrArg Binary64.mk ?_
    dsimp only
    by_cases h : bits.msb = true
    · rw [if_pos h]
      simp [h]
    · rw [if_neg h]
      have hmsb : (bits ||| signBit).msb = true := by
        rw [BitVec.msb_or]
        have hsign : signBit.msb = true := by decide
        rw [hsign, Bool.or_true]
      rw [if_pos hmsb]
      have hclear : bits &&& ~~~signBit = bits := by
        have hlast : bits[63] = false := by simpa [BitVec.msb_eq_getLsbD_last] using h
        have hbits : ∀ i : Fin 64, signBit[i] = decide (i = 63) := by decide
        ext i hi
        have hsign : signBit[i] = decide (i = 63) := by
          rw [show signBit[i] = signBit[(⟨i, hi⟩ : Fin 64)] from rfl, hbits ⟨i, hi⟩]
          simp [Fin.ext_iff]
        by_cases hi63 : i = 63
        · subst hi63
          simp [hsign, hlast]
        · simp [hsign, hi63]
      have hsign : signBit &&& ~~~signBit = 0#64 := by decide
      rw [BitVec.and_or_distrib_right, hclear, hsign, BitVec.or_zero]

/-- The double is an integer of sixty-four bits. -/
lemma integralDouble_eq_some_iff {d : Binary64} {n : Int64} :
    integralDouble d = some n ↔ d.units = n.toInt * 2 ^ 1074 := by
  obtain ⟨c, hc⟩ : ∃ c, c = 1074 := ⟨_, rfl⟩
  have hpow : (2 : ℤ) ^ c ≠ 0 := pow_ne_zero c (by decide)
  have hlow := n.le_toInt
  have hhigh := n.toInt_lt
  unfold integralDouble Binary64.isIntegral Binary64.truncate
  rw [← hc]
  constructor
  · intro h
    split at h
    · next hcond =>
      obtain ⟨hintegral, hle, hlt⟩ := hcond
      rw [Bool.and_eq_true, decide_eq_true_eq] at hintegral
      have hdvd : (2 : ℤ) ^ c ∣ d.units := by
        have hmagnitude : ((2 ^ c : ℕ) : ℤ) ∣ d.magnitude :=
          Int.natCast_dvd_natCast.2 (Nat.dvd_of_mod_eq_zero hintegral.2)
        rw [Nat.cast_pow, Nat.cast_ofNat] at hmagnitude
        unfold Binary64.units
        split
        · exact (dvd_neg).2 hmagnitude
        · exact hmagnitude
      rw [← Option.some.inj h, Int64.toInt_ofInt_of_le hle hlt, Int.tdiv_mul_cancel hdvd]
    · cases h
  · intro h
    have hmagnitude := Binary64.magnitude_of_units h
    have htruncate : d.units.tdiv (2 ^ c) = n.toInt := by rw [h, Int.mul_tdiv_cancel _ hpow]
    have hfinite : d.isFinite = true := by
      by_contra hinfinite
      have hexponent : d.exponentField = 2047 := by simpa [Binary64.isFinite] using hinfinite
      obtain ⟨m, hm, -, hmag⟩ := Binary64.exists_magnitude_eq (d := d) (by omega)
      have hlarge : 2 ^ 52 * 2 ^ (d.exponentField - 1) ≤ n.toInt.natAbs * 2 ^ c := by
        rw [← hmagnitude, hmag]
        exact Nat.mul_le_mul_right _ hm
      have hsmall : n.toInt.natAbs * 2 ^ c < 2 ^ 64 * 2 ^ c :=
        Nat.mul_lt_mul_of_pos_right (by omega) (by positivity)
      rw [← pow_add] at hlarge hsmall
      exact absurd (hlarge.trans_lt hsmall)
        (not_lt.2 (Nat.pow_le_pow_right (by omega) (by omega)))
    have hintegral : d.magnitude % 2 ^ c = 0 := by rw [hmagnitude, Nat.mul_mod_left]
    rw [htruncate, if_pos ⟨by simp [hfinite, hintegral], hlow, hhigh⟩, Int64.ofInt_toInt]

/-! ## Keys -/

/-- An ObjectId is read back from its key. -/
lemma oidFromData_bigEndianBytes (bytes : BitVec 96) :
    oidFromData (bigEndianBytes 12 bytes.toNat) = bytes := by
  have hlt : bytes.toNat < 256 ^ 12 := bytes.isLt
  exact (foldl_bigEndianBytes hlt).trans (by simp)

/-- What the key of an id is: that of an ObjectId, of a string, of an integer, or of a double that
is no integer of sixty-four bits. -/
lemma encodeId_cases {a : Value} (ha : a.exactScalar = true) :
    (∃ bytes, a = .oid bytes ∧ encodeId a = .ok (tagOid :: bigEndianBytes 12 bytes.toNat)) ∨
    (∃ s, a = .utf8 s ∧ encodeId a = .ok (tagString :: s)) ∨
    (∃ n : Int64, a.idNumber = some (n.toInt * 2 ^ 1074) ∧
      encodeId a = .ok (tagInt :: encodeInt n)) ∨
    ∃ d : Binary64, a = .double d ∧ (∀ n : Int64, d.units ≠ n.toInt * 2 ^ 1074) ∧
      encodeId a = .ok (tagDouble :: encodeDouble d) := by
  cases a with
  | oid bytes => exact .inl ⟨bytes, rfl, rfl⟩
  | utf8 s => exact .inr (.inl ⟨s, rfl, rfl⟩)
  | int32 n =>
    refine .inr (.inr (.inl ⟨n.toInt64, ?_, rfl⟩))
    rw [Int32.toInt_toInt64]
    rfl
  | int64 n => exact .inr (.inr (.inl ⟨n, rfl, rfl⟩))
  | double d =>
    cases hintegral : integralDouble d with
    | some n =>
      refine .inr (.inr (.inl ⟨n, congrArg some (integralDouble_eq_some_iff.1 hintegral), ?_⟩))
      simp [encodeId, hintegral]
    | none =>
      refine .inr (.inr (.inr ⟨d, rfl, fun n hn => ?_, ?_⟩))
      · rw [integralDouble_eq_some_iff.2 hn] at hintegral
        cases hintegral
      · simp [encodeId, hintegral]
  | _ => cases ha

/-- A double that is no integer of sixty-four bits is not zero. -/
lemma units_ne_zero {d : Binary64} (h : ∀ n : Int64, d.units ≠ n.toInt * 2 ^ 1074) :
    d.units ≠ 0 := fun hzero => h 0 (hzero.trans (zero_mul _).symm)

/-- An integer is told by its multiple. -/
lemma int64_of_mul {m n : Int64} (h : m.toInt * 2 ^ 1074 = n.toInt * 2 ^ 1074) : m = n := by
  obtain ⟨c, hc⟩ : ∃ c, c = 1074 := ⟨_, rfl⟩
  rw [← hc] at h
  exact Int64.toInt_inj.1 (mul_right_cancel₀ (pow_ne_zero c (by decide)) h)

/-- Ids that denote one number have one key. -/
lemma encodeId_eq_of_idNumber {a b : Value} (ha : a.exactScalar = true) (hb : b.exactScalar = true)
    {u : ℤ} (hau : a.idNumber = some u) (hbu : b.idNumber = some u) : encodeId a = encodeId b := by
  rcases encodeId_cases ha with ⟨bytes, rfl, -⟩ | ⟨s, rfl, -⟩ | ⟨m, hm, hka⟩ | ⟨d, rfl, hd, hka⟩
  · cases hau
  · cases hau
  · have hmu : m.toInt * 2 ^ 1074 = u := Option.some.inj (hm.symm.trans hau)
    rcases encodeId_cases hb with ⟨bytes, rfl, -⟩ | ⟨s, rfl, -⟩ | ⟨n, hn, hkb⟩ | ⟨e, rfl, he, -⟩
    · cases hbu
    · cases hbu
    · have hnu : n.toInt * 2 ^ 1074 = u := Option.some.inj (hn.symm.trans hbu)
      rw [hka, hkb, int64_of_mul (hmu.trans hnu.symm)]
    · exact absurd ((Option.some.inj hbu).trans hmu.symm) (he m)
  · have hdu : d.units = u := Option.some.inj hau
    rcases encodeId_cases hb with ⟨bytes, rfl, -⟩ | ⟨s, rfl, -⟩ | ⟨n, hn, -⟩ | ⟨e, rfl, -, -⟩
    · cases hbu
    · cases hbu
    · have hnu : n.toInt * 2 ^ 1074 = u := Option.some.inj (hn.symm.trans hbu)
      exact absurd (hdu.trans hnu.symm) (hd n)
    · have heu : e.units = u := Option.some.inj hbu
      rw [Binary64.eq_of_units_eq (units_ne_zero hd) (hdu.trans heu.symm)]

/-- A key of the integer tag is decoded to the integer. -/
lemma decodeId_int (n : Int64) : decodeId (tagInt :: encodeInt n) = .ok (.int64 n) := by
  have hlength : (encodeInt n).length = 8 := length_bigEndianBytes 8 _
  rw [decodeId, if_neg (by decide), if_neg (by decide), if_pos rfl, if_pos hlength,
    decodeInt_encodeInt]

/-- A key of the double tag is decoded to the double. -/
lemma decodeId_double (d : Binary64) :
    decodeId (tagDouble :: encodeDouble d) = .ok (.double d) := by
  have hlength : (encodeDouble d).length = 8 := length_bigEndianBytes 8 _
  rw [decodeId, if_neg (by decide), if_neg (by decide), if_neg (by decide), if_pos rfl,
    if_pos hlength, decodeDouble_encodeDouble]

/-- A key is decoded to the id that it was made of, and this id has the key. -/
lemma decodeId_encodeId {a : Value} (ha : a.exactScalar = true) :
    ∃ key v, encodeId a = .ok key ∧ decodeId key = .ok v ∧ DecodesAs a v ∧
      encodeId v = .ok key := by
  rcases encodeId_cases ha with
    ⟨bytes, rfl, hkey⟩ | ⟨s, rfl, hkey⟩ | ⟨n, hn, hkey⟩ | ⟨d, rfl, hd, hkey⟩
  · have hlength : (bigEndianBytes 12 bytes.toNat).length = 12 := length_bigEndianBytes 12 _
    refine ⟨_, .oid bytes, hkey, ?_, .inr ⟨nofun, rfl⟩, hkey⟩
    rw [decodeId, if_pos rfl, if_pos hlength, oidFromData_bigEndianBytes]
  · refine ⟨_, .utf8 s, hkey, ?_, .inr ⟨nofun, rfl⟩, hkey⟩
    rw [decodeId, if_neg (by decide), if_pos rfl]
  · exact ⟨_, .int64 n, hkey, decodeId_int n, .inl ⟨n, hn, rfl⟩, rfl⟩
  · exact ⟨_, .double d, hkey, decodeId_double d,
      .inr ⟨fun n hn => hd n (Option.some.inj hn), rfl⟩, hkey⟩

/-- Ids of one key are one id. -/
lemma sameId_of_encodeId_eq {a b : Value} (ha : a.exactScalar = true) (hb : b.exactScalar = true)
    (h : encodeId a = encodeId b) : SameId a b := by
  obtain ⟨key, v, hka, hv, hav, -⟩ := decodeId_encodeId ha
  obtain ⟨key', v', hkb, hv', hbv, -⟩ := decodeId_encodeId hb
  obtain rfl : key = key' := Except.ok.inj (hka.symm.trans (h.trans hkb))
  obtain rfl : v = v' := Except.ok.inj (hv.symm.trans hv')
  unfold SameId
  rcases hav with ⟨n, hn, rfl⟩ | ⟨hna, rfl⟩
  · rcases hbv with ⟨m, hm, heq⟩ | ⟨-, rfl⟩
    · obtain rfl := Value.int64.inj heq
      rw [hn]
      exact hm
    · rw [hn]
      rfl
  · rcases hbv with ⟨m, -, rfl⟩ | ⟨-, rfl⟩
    · exact absurd rfl (hna m)
    · cases v.idNumber <;> rfl

/-- Keys of one numeric tag order as the numbers do. -/
lemma encodeId_lt_iff {a b : Value} (ha : a.exactScalar = true) (hb : b.exactScalar = true)
    {tag : Char} (htag : tag = tagInt ∨ tag = tagDouble) {s t : Text}
    (hka : encodeId a = .ok (tag :: s)) (hkb : encodeId b = .ok (tag :: t)) :
    ∃ u v, a.idNumber = some u ∧ b.idNumber = some v ∧ (tag :: s < tag :: t ↔ u < v) := by
  obtain ⟨c, hc⟩ : ∃ c, c = 1074 := ⟨_, rfl⟩
  have hpow : (0 : ℤ) < 2 ^ c := by positivity
  have hcons : tag :: s < tag :: t ↔ s < t := by
    rw [List.cons_lt_cons_iff]
    simp
  rw [hcons]
  rcases encodeId_cases ha with ⟨bytes, -, hka'⟩ | ⟨r, -, hka'⟩ | ⟨m, hm, hka'⟩ | ⟨d, rfl, hd, hka'⟩
  all_goals obtain ⟨rfl, rfl⟩ := List.cons.inj (Except.ok.inj (hka'.symm.trans hka))
  · exact absurd htag (by decide)
  · exact absurd htag (by decide)
  · rcases encodeId_cases hb with ⟨bytes, -, hkb'⟩ | ⟨r, -, hkb'⟩ | ⟨n, hn, hkb'⟩ | ⟨e, -, -, hkb'⟩
    all_goals obtain ⟨heq, rfl⟩ := List.cons.inj (Except.ok.inj (hkb'.symm.trans hkb))
    · exact absurd heq (by decide)
    · exact absurd heq (by decide)
    · refine ⟨_, _, hm, hn, ?_⟩
      rw [encodeInt_lt_iff, ← hc]
      exact (mul_lt_mul_iff_of_pos_right hpow).symm
    · exact absurd heq (by decide)
  · rcases encodeId_cases hb with ⟨bytes, -, hkb'⟩ | ⟨r, -, hkb'⟩ | ⟨n, -, hkb'⟩ | ⟨e, rfl, -, hkb'⟩
    all_goals obtain ⟨heq, rfl⟩ := List.cons.inj (Except.ok.inj (hkb'.symm.trans hkb))
    · exact absurd heq (by decide)
    · exact absurd heq (by decide)
    · exact absurd heq (by decide)
    · exact ⟨_, _, rfl, rfl, encodeDouble_lt_iff (units_ne_zero hd)⟩

/-- **Keys tell ids.**  Of ObjectIds, strings, integers and doubles other than NaN, two have one key
exactly when they are one id.  Keys of integers, and keys of other doubles, order as the numbers do.
The key of an id is decoded to the id, an integral number as an `int64`, and this id has the key. -/
theorem id_keys_faithful {a b : Value} (ha : a.exactScalar = true) (hb : b.exactScalar = true) :
    (encodeId a = encodeId b ↔ SameId a b) ∧
    (∀ tag s t, tag = tagInt ∨ tag = tagDouble → encodeId a = .ok (tag :: s) →
      encodeId b = .ok (tag :: t) →
        ∃ u v, a.idNumber = some u ∧ b.idNumber = some v ∧ (tag :: s < tag :: t ↔ u < v)) ∧
    ∃ key v, encodeId a = .ok key ∧ decodeId key = .ok v ∧ DecodesAs a v ∧
      encodeId v = .ok key := by
  refine ⟨⟨sameId_of_encodeId_eq ha hb, fun h => ?_⟩, fun tag s t htag hka hkb =>
    encodeId_lt_iff ha hb htag hka hkb, decodeId_encodeId ha⟩
  unfold SameId at h
  cases hnumber : a.idNumber with
  | some u =>
    rw [hnumber] at h
    exact encodeId_eq_of_idNumber ha hb hnumber h
  | none =>
    rw [hnumber] at h
    rw [h]

/-- Minus two and one have two keys, and minus two is read back from its key. -/
theorem id_keys_faithful_negative :
    ¬ SameId (.int64 (-2)) (.int32 1) ∧
      ∃ key v, encodeId (.int64 (-2)) = .ok key ∧ decodeId key = .ok v ∧
        DecodesAs (.int64 (-2)) v ∧ encodeId v = .ok key := by
  obtain ⟨hkeys, -, hdecode⟩ := id_keys_faithful (a := .int64 (-2)) (b := .int32 1) rfl rfl
  exact ⟨fun h => absurd (hkeys.2 h) (by decide), hdecode⟩

end Chimera

import Chimera.Translator.Bson

/-!
# Primary keys

The primary key of a stored document is one byte string: a tag for the type of the `_id`, and a
payload.  Integral numbers of all three types share one tag, so that `1`, `NumberLong(1)` and
`1.0` are one key.
-/

namespace Chimera

/-- The tag of doubles. -/
def tagDouble : Char := Char.ofNat 0x01

/-- The tag of strings. -/
def tagString : Char := Char.ofNat 0x02

/-- The tag of ObjectIds. -/
def tagOid : Char := Char.ofNat 0x07

/-- The tag of integers. -/
def tagInt : Char := Char.ofNat 0x12

/-- The bytes of a number, the most significant one first. -/
def bigEndianBytes (count : ℕ) (bits : ℕ) : Text :=
  (List.range count).map fun i => Char.ofNat (bits / 256 ^ (count - 1 - i) % 256)

/-- `big_endian`. -/
def bigEndian (bits : BitVec 64) : Text := bigEndianBytes 8 bits.toNat

/-- The sign bit of a 64-bit word. -/
def signBit : BitVec 64 := 1#64 <<< 63

/-- `encode_int`: with the sign bit flipped, byte order is numeric order. -/
def encodeInt (n : Int64) : Text := bigEndian (n.toBitVec ^^^ signBit)

/-- `encode_double`: positive numbers get the sign bit, negative ones are inverted. -/
def encodeDouble (d : Binary64) : Text :=
  bigEndian (if d.bits.msb then ~~~d.bits else d.bits ||| signBit)

/-- A double that is an integer of 64 bits, and which. -/
def integralDouble (d : Binary64) : Option Int64 :=
  if d.isIntegral ∧ -9223372036854775808 ≤ d.truncate ∧ d.truncate < 9223372036854775808 then
    some (Int64.ofInt d.truncate)
  else none

/-- `from_big_endian`. -/
def fromBigEndian (bytes : Text) : BitVec 64 :=
  (bytes.take 8).foldl (fun bits c => bits <<< 8 ||| BitVec.ofNat 64 c.toNat) 0

/-- `decode_int`. -/
def decodeInt (bytes : Text) : Int64 := ⟨⟨fromBigEndian bytes ^^^ signBit⟩⟩

/-- `decode_double`. -/
def decodeDouble (bytes : Text) : Binary64 :=
  let bits := fromBigEndian bytes
  ⟨if bits.msb then bits &&& ~~~signBit else ~~~bits⟩

/-- `encode_id`. -/
def encodeId : Value → Except TranslatorError Text
  | .oid bytes => .ok (tagOid :: bigEndianBytes 12 bytes.toNat)
  | .utf8 s => .ok (tagString :: s)
  | .int32 n => .ok (tagInt :: encodeInt n.toInt64)
  | .int64 n => .ok (tagInt :: encodeInt n)
  | .double d =>
    match integralDouble d with
    | some n => .ok (tagInt :: encodeInt n)
    | none => .ok (tagDouble :: encodeDouble d)
  | _ => .error (typeMismatch
    "unsupported _id type — expected ObjectId, string, or number".toList)

/-- `bson_oid_init_from_data`. -/
def oidFromData (bytes : Text) : BitVec 96 :=
  bytes.foldl (fun bits c => bits <<< 8 ||| BitVec.ofNat 96 c.toNat) 0

/-- `decode_id`. -/
def decodeId : Text → Except TranslatorError Value
  | [] => .error (badValue "empty _id key".toList)
  | tag :: payload =>
    if tag = tagOid then
      if payload.length = 12 then .ok (.oid (oidFromData payload))
      else .error (badValue "malformed ObjectId _id key".toList)
    else if tag = tagString then .ok (.utf8 payload)
    else if tag = tagInt then
      if payload.length = 8 then .ok (.int64 (decodeInt payload))
      else .error (badValue "malformed integer _id key".toList)
    else if tag = tagDouble then
      if payload.length = 8 then .ok (.double (decodeDouble payload))
      else .error (badValue "malformed double _id key".toList)
    else .error (badValue "unknown _id key tag".toList)

end Chimera

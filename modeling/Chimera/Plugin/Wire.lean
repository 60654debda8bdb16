import Chimera.Foundations.ByteReader
import Chimera.Translator.Bson
import Chimera.Translator.FilterSemantics
import Mathlib.Tactic.IntervalCases

/-!
# The wire protocol

A message is a header of sixteen bytes and a body.  The body of an `OP_MSG` is a word of flags and a
sequence of sections: the command document, and document sequences that drivers lift out of it.  The
parser folds the sequences back in, so that a command handler sees one document.

Its lengths come from a peer that is not trusted, and nest.  The parser is proved to stay within the
message, to terminate, and to accept exactly the messages that are made of sections.
-/

namespace Chimera

open ByteReader

/-! ## Numbers -/

/-- `read_int32`. -/
def readInt32 (p : List UInt8) : Int32 :=
  ((p.getD 0 0).toUInt32 ||| (p.getD 1 0).toUInt32 <<< 8 ||| (p.getD 2 0).toUInt32 <<< 16 |||
    (p.getD 3 0).toUInt32 <<< 24).toInt32

/-- `append_int32`: the bytes it appends. -/
def appendInt32 (v : Int32) : List UInt8 :=
  let u := v.toUInt32
  [u.toUInt8, (u >>> 8).toUInt8, (u >>> 16).toUInt8, (u >>> 24).toUInt8]

/-- `append_int64`: the bytes it appends. -/
def appendInt64 (v : Int64) : List UInt8 :=
  appendInt32 v.toInt32 ++ appendInt32 (v >>> 32).toInt32

/-- A string of bytes. -/
def textOfBytes (bytes : List UInt8) : Text := bytes.map fun b => Char.ofNat b.toNat

/-! ## The parser -/

/-- `kOpReply`. -/
def opReply : Int32 := 1

/-- `kOpQuery`. -/
def opQuery : Int32 := 2004

/-- `kOpMsg`. -/
def opMsg : Int32 := 2013

/-- `kHeaderBytes`. -/
def headerBytes : ℕ := 16

/-- `kMaxMessageBytes`. -/
def maxMessageBytes : ℕ := 48000000

/-- `wire::Header`. -/
structure Header where
  /-- The length of the message, header included. -/
  messageLength : Int32
  /-- The number of the message. -/
  requestId : Int32
  /-- The number of the message it answers. -/
  responseTo : Int32
  /-- The kind of message. -/
  opCode : Int32
deriving DecidableEq

/-- `wire::Request`. -/
structure WireRequest where
  /-- The header. -/
  header : Header
  /-- The command document. -/
  body : Doc
  /-- The database. -/
  database : Text
  /-- It arrived as `OP_QUERY`. -/
  legacyQuery : Bool

/-- A reader of the plugin. -/
abbrev WireReader := Reader TranslatorError

/-- `parse_header`. -/
def parseHeader : WireReader Header := do
  let messageLength ← bytesAt 0 4
  let requestId ← bytesAt 4 4
  let responseTo ← bytesAt 8 4
  let opCode ← bytesAt 12 4
  return ⟨readInt32 messageLength, readInt32 requestId, readInt32 responseTo, readInt32 opCode⟩

/-- The error of `Cursor::require`. -/
def truncated : TranslatorError := failedToParse "wire message truncated".toList

/-- `Cursor::int32_at_cursor`. -/
def int32AtCursor : WireReader Int32 := do
  require truncated 4
  let offset ← position
  let p ← bytesAt offset 4
  skip 4
  return readInt32 p

/-- `Cursor::byte`. -/
def byte : WireReader UInt8 := do
  require truncated 1
  let offset ← position
  let b ← byteAt offset
  skip 1
  return b

/-- `Cursor::cstring`.  The argument bounds the rounds of its loop. -/
def cstring (rounds : ℕ) : WireReader Text := do
  let offset ← position
  let stop ← scanTo 0 rounds offset
  let size ← bound
  if stop ≥ size then fail (failedToParse "unterminated string in wire message".toList)
  else
    let s ← bytesAt offset (stop - offset)
    skip (stop + 1 - offset)
    return textOfBytes s

/-- `Cursor::document`, over `bson_new_from_data`. -/
def document (newFromData : List UInt8 → Option Doc) : WireReader Doc := do
  require truncated 4
  let offset ← position
  let p ← bytesAt offset 4
  let length := (readInt32 p).toInt
  if length < 5 then fail (failedToParse "BSON document length is impossible".toList)
  else
    require truncated length.toNat
    let data ← bytesAt offset length.toNat
    match newFromData data with
    | none => fail (failedToParse "malformed BSON document in wire message".toList)
    | some doc =>
      skip length.toNat
      return doc

/-- `Cursor::trim`. -/
def trim (count : ℕ) : WireReader Unit := do
  let left ← remaining
  if left < count then fail (failedToParse "wire message is shorter than it claims".toList)
  else fun c => .ok ((), { c with size := c.size - count })

/-- A section of an `OP_MSG`. -/
inductive WireSection where
  /-- Kind 0: the command document. -/
  | body (doc : Doc)
  /-- Kind 1: a document sequence. -/
  | sequence (identifier : Text) (documents : List Doc)

/-- The document of a section of kind 0. -/
def WireSection.body? : WireSection → Option Doc
  | .body doc => some doc
  | .sequence _ _ => none

/-- The array field that a section of kind 1 stands for. -/
def WireSection.field? : WireSection → Option (Text × Value)
  | .body _ => none
  | .sequence identifier documents =>
    some (identifier, .array (makeArray (documents.map .document)))

section Parser

variable (newFromData : List UInt8 → Option Doc)

/-- One section: a round of the loop of `parse_request`. -/
def readSection (haveBody : Bool) (rounds : ℕ) : WireReader WireSection := do
  let kind ← byte
  if kind = 0 then
    if haveBody = true then
      fail (failedToParse "OP_MSG carries more than one body section".toList)
    else
      let doc ← document newFromData
      return .body doc
  else if kind ≠ 1 then
    fail (notImplemented ("OP_MSG section kind ".toList ++ decimal kind.toNat ++
      " is unknown".toList))
  else
    let sectionStart ← position
    let sectionSize ← int32AtCursor
    if sectionSize.toInt < 5 then
      fail (failedToParse "OP_MSG sequence length is impossible".toList)
    else
      let sectionEnd := sectionStart + sectionSize.toInt.toNat
      let identifier ← cstring rounds
      let documents ← readUpTo
        (failedToParse "OP_MSG sequence overruns its declared length".toList)
        (document newFromData) sectionEnd rounds
      return .sequence identifier documents

/-- The loop of `parse_request`, with the body and the sequences it has found.  The last argument
counts its rounds, and the first bounds those of the loops in it. -/
def readSections (limit : ℕ) (body : Option Doc) (sequences : List WireSection) :
    ℕ → WireReader (Option Doc × List WireSection)
  | 0 => throw .unfinished
  | rounds + 1 => do
    let left ← remaining
    if left = 0 then return (body, sequences)
    else
      match ← readSection newFromData body.isSome limit with
      | .body doc => readSections limit (some doc) sequences rounds
      | .sequence identifier documents =>
        readSections limit body (sequences ++ [.sequence identifier documents]) rounds

/-- `fold_in_sequences`. -/
def foldInSequences (body : Doc) (sequences : List WireSection) : Doc :=
  body ++ sequences.filterMap WireSection.field?

/-- The database that a command names. -/
def databaseOfBody (body : Doc) : Text :=
  match pathGet body ["$db".toList] with
  | some (.utf8 s) => s.takeWhile (· ≠ Char.ofNat 0)
  | _ => []

/-- `parse_request`, of an `OP_MSG` whose flags have been read. -/
def parseSections (header : Header) (rounds : ℕ) : WireReader WireRequest := do
  match ← readSections newFromData rounds none [] rounds with
  | (none, _) => fail (failedToParse "OP_MSG has no body section".toList)
  | (some doc, sequences) =>
    let body := if sequences.isEmpty then doc else foldInSequences doc sequences
    return ⟨header, body, databaseOfBody body, false⟩

/-- `parse_request`, of an `OP_MSG`. -/
def parseOpMsg (header : Header) (rounds : ℕ) : WireReader WireRequest := do
  let flags ← int32AtCursor
  if flags &&& 0xFFFF &&& ~~~0x3 ≠ 0 then
    fail (failedToParse "OP_MSG sets flag bits this server does not implement".toList)
  else
    (if flags &&& 0x1 ≠ 0 then trim 4 else pure ())
    parseSections newFromData header rounds

/-- `parse_request`, of an `OP_QUERY`. -/
def parseOpQuery (header : Header) (rounds : ℕ) : WireReader WireRequest := do
  let _flags ← int32AtCursor
  let ns ← cstring rounds
  let _numberToSkip ← int32AtCursor
  let _numberToReturn ← int32AtCursor
  let body ← document newFromData
  return ⟨header, body, ns.takeWhile (· ≠ '.'), true⟩

/-- `parse_request`.  The number bounds the rounds of each loop. -/
def parseRequest (rounds : ℕ) (raw : List UInt8) : Except (Stop TranslatorError) WireRequest := do
  let (header, _) ← parseHeader ⟨raw, raw.length, 0⟩
  let cursor : ByteCursor := ⟨raw.drop headerBytes, raw.length - headerBytes, 0⟩
  if header.opCode = opMsg then
    let (req, _) ← parseOpMsg newFromData header rounds cursor
    return req
  else if header.opCode = opQuery then
    let (req, _) ← parseOpQuery newFromData header rounds cursor
    return req
  else
    .error (.thrown (notImplemented ("opcode ".toList ++ integerText header.opCode.toInt ++
      " is not supported".toList)))

end Parser

/-! ## The grammar -/

/-- Documents are accepted at their own length only, and none is shorter than five bytes. -/
def MeasuresDocuments (newFromData : List UInt8 → Option Doc) : Prop :=
  ∀ bytes doc, newFromData bytes = some doc →
    5 ≤ bytes.length ∧ (readInt32 bytes).toInt = bytes.length

/-- The bytes of a section. -/
inductive IsSection (newFromData : List UInt8 → Option Doc) : List UInt8 → WireSection → Prop
  /-- A section of kind 0 is a document. -/
  | body {bytes : List UInt8} {doc : Doc} (h : newFromData bytes = some doc) :
      IsSection newFromData (0 :: bytes) (.body doc)
  /-- A section of kind 1 is its size, the size itself included, an identifier that ends with a
  zero, and documents. -/
  | sequence {size identifier : List UInt8} {parts : List (List UInt8)} {documents : List Doc}
      (hsize : size.length = 4) (hidentifier : 0 ∉ identifier)
      (hparts : List.Forall₂ (fun part doc => newFromData part = some doc) parts documents)
      (hlength : (readInt32 size).toInt =
        (size ++ (identifier ++ [0]) ++ parts.flatten).length) :
      IsSection newFromData (1 :: (size ++ (identifier ++ [0]) ++ parts.flatten))
        (.sequence (textOfBytes identifier) documents)

/-- The flags of an `OP_MSG` set none of the bits that have to be understood, but for the checksum
and for more to come. -/
def FlagsUnderstood (flags : Int32) : Prop :=
  ∀ i, 2 ≤ i → i ≤ 15 → flags.toUInt32.toNat.testBit i = false

/-- There is a checksum behind the sections. -/
def checksumPresent (flags : Int32) : Bool := flags.toUInt32.toNat.testBit 0

/-- How many bytes of checksum the flags announce. -/
def checksumBytes (flags : Int32) : ℕ := if checksumPresent flags then 4 else 0

/-- More messages follow, and no reply is expected. -/
def moreToCome (flags : Int32) : Bool := flags.toUInt32.toNat.testBit 1

/-- The message is an `OP_MSG` of these sections: flags, the sections one after the other, of which
one has the command document, and a checksum where the flags announce one. -/
def IsOpMsg (newFromData : List UInt8 → Option Doc) (raw : List UInt8)
    (sections : List WireSection) : Prop :=
  ∃ flags checksum words, raw.drop headerBytes = flags ++ List.flatten words ++ checksum ∧
    flags.length = 4 ∧ FlagsUnderstood (readInt32 flags) ∧
    checksum.length = checksumBytes (readInt32 flags) ∧
    List.Forall₂ (IsSection newFromData) words sections ∧
    (sections.filterMap WireSection.body?).length = 1

/-! ## The readers recognize their words -/

section Recognition

variable {newFromData : List UInt8 → Option Doc} {n : ℕ}

/-- The first of a number of bytes that there are. -/
lemma take_of_append {w rest : List UInt8} {count : ℕ} (h : w.length = count) :
    (w ++ rest).take count = w := by
  rw [← h, List.take_left]

/-- A byte is any byte. -/
lemma recognizes_byte : Recognizes n byte fun _ w b => w = [b] := by
  refine .of_run (g := fun bytes => match bytes with
    | [] => .error truncated
    | b :: _ => .ok (b, 1)) (fun c hc hn => ?_) fun bytes b count => ?_
  · have hrequire := require_run hc truncated 1
    cases hleft : c.left with
    | nil =>
      rw [hleft] at hrequire
      exact bind_of_error hrequire
    | cons b rest =>
      rw [hleft, if_neg (by simp)] at hrequire
      have hbyte : (byteAt c.offset c : Except (Stop TranslatorError) _) = .ok (b, c) := by
        have hget : c.data[c.offset]? = some b := ByteCursor.getElem?_data (w := []) hleft
        rw [byteAt, hget]
      have hposition : (position c : Except (Stop TranslatorError) _) = .ok (c.offset, c) := rfl
      rw [byte, bind_of_ok hrequire, bind_of_ok hposition, bind_of_ok hbyte]
      rfl
  · constructor
    · intro h
      cases bytes with
      | nil => cases h
      | cons b' rest =>
        obtain ⟨rfl, rfl⟩ := Prod.mk.inj (Except.ok.inj h)
        exact ⟨[b'], rest, rfl, rfl, rfl⟩
    · rintro ⟨_, rest, rfl, rfl, rfl⟩
      rfl

/-- A number is any four bytes. -/
lemma recognizes_int32 : Recognizes n int32AtCursor fun _ w v =>
    w.length = 4 ∧ v = readInt32 w := by
  refine .of_run (g := fun bytes => if bytes.length < 4 then .error truncated
    else .ok (readInt32 (bytes.take 4), 4)) (fun c hc hn => ?_) fun bytes v count => ?_
  · have hrequire := require_run hc truncated 4
    by_cases hlt : c.left.length < 4
    · rw [if_pos hlt] at hrequire ⊢
      exact bind_of_error hrequire
    · rw [if_neg hlt] at hrequire ⊢
      have hbytes := bytesAt_run (ε := TranslatorError) hc (Nat.le_of_not_lt hlt)
      have hposition : (position c : Except (Stop TranslatorError) _) = .ok (c.offset, c) := rfl
      rw [int32AtCursor, bind_of_ok hrequire, bind_of_ok hposition, bind_of_ok hbytes]
      rfl
  · constructor
    · intro h
      by_cases hlt : bytes.length < 4
      · rw [if_pos hlt] at h
        cases h
      · rw [if_neg hlt] at h
        obtain ⟨rfl, rfl⟩ := Prod.mk.inj (Except.ok.inj h)
        have hlength : (bytes.take 4).length = 4 := by
          rw [List.length_take]
          omega
        exact ⟨bytes.take 4, bytes.drop 4, (List.take_append_drop 4 bytes).symm, ⟨hlength, rfl⟩,
          hlength.symm⟩
    · rintro ⟨w, rest, rfl, ⟨hlength, rfl⟩, rfl⟩
      rw [if_neg (by rw [List.length_append]; omega), take_of_append hlength, hlength]

/-- What stands before the first zero. -/
lemma takeWhile_eq_iff {bytes s : List UInt8} :
    (∃ rest, bytes = s ++ 0 :: rest) ∧ 0 ∉ s ↔
      bytes.takeWhile (· ≠ 0) = s ∧ s.length < bytes.length := by
  constructor
  · rintro ⟨⟨rest, rfl⟩, hs⟩
    refine ⟨?_, by simp⟩
    rw [List.takeWhile_append_of_pos, List.takeWhile_cons_of_neg (by simp), List.append_nil]
    intro b hb
    simpa using fun h0 : b = 0 => hs (h0 ▸ hb)
  · rintro ⟨rfl, hlt⟩
    have hdrop := List.takeWhile_append_dropWhile (p := (· ≠ (0 : UInt8))) (l := bytes)
    constructor
    · cases hrest : bytes.dropWhile (· ≠ (0 : UInt8)) with
      | nil =>
        rw [hrest, List.append_nil] at hdrop
        rw [hdrop] at hlt
        exact absurd hlt (Nat.lt_irrefl _)
      | cons b rest =>
        have hb := List.head?_dropWhile_not (· ≠ (0 : UInt8)) bytes
        rw [hrest] at hb hdrop
        obtain rfl : b = 0 := by simpa using hb
        exact ⟨rest, hdrop.symm⟩
    · intro hmem
      have hall := List.all_takeWhile (l := bytes) (p := (· ≠ (0 : UInt8)))
      simpa using List.all_eq_true.1 hall 0 hmem

/-- A string ends with the first zero. -/
lemma recognizes_cstring : Recognizes n (cstring n) fun _ w s =>
    ∃ bytes, 0 ∉ bytes ∧ w = bytes ++ [0] ∧ s = textOfBytes bytes := by
  refine .of_run (g := fun bytes =>
    if bytes.length ≤ (bytes.takeWhile (· ≠ 0)).length then
      .error (failedToParse "unterminated string in wire message".toList)
    else .ok (textOfBytes (bytes.takeWhile (· ≠ 0)), (bytes.takeWhile (· ≠ 0)).length + 1))
    (fun c hc hn => ?_) fun bytes s count => ?_
  · have hlength := hc.length_left
    have hoffset := hc.offset_le
    have hposition : (position c : Except (Stop TranslatorError) _) = .ok (c.offset, c) := rfl
    have hbound : (bound c : Except (Stop TranslatorError) _) = .ok (c.size, c) := rfl
    have hscan := scanTo_run (ε := TranslatorError) hc 0 (hlength ▸ hn)
    have hword : (c.data.take c.size).drop c.offset = c.left := rfl
    rw [hword] at hscan
    rw [cstring, bind_of_ok hposition, bind_of_ok hscan, bind_of_ok hbound]
    generalize hs : c.left.takeWhile (· ≠ 0) = s
    have hleads : s <+: c.left := hs ▸ List.takeWhile_prefix _
    have hle := hleads.length_le
    by_cases hend : c.left.length ≤ s.length
    · rw [if_pos hend, if_pos (by omega)]
      rfl
    · have hbytes := bytesAt_run (ε := TranslatorError) hc hle
      rw [← List.prefix_iff_eq_take.1 hleads] at hbytes
      rw [if_neg hend, if_neg (by omega), Nat.add_sub_cancel_left, Nat.add_assoc,
        Nat.add_sub_cancel_left, bind_of_ok hbytes]
      rfl
  · have hfirst := @takeWhile_eq_iff bytes
    constructor
    · intro h
      by_cases hend : bytes.length ≤ (bytes.takeWhile (· ≠ 0)).length
      · rw [if_pos hend] at h
        cases h
      · rw [if_neg hend] at h
        obtain ⟨rfl, rfl⟩ := Prod.mk.inj (Except.ok.inj h)
        obtain ⟨⟨rest, hbytes⟩, hmem⟩ := hfirst.2 ⟨rfl, Nat.lt_of_not_le hend⟩
        generalize bytes.takeWhile (· ≠ 0) = s at *
        exact ⟨s ++ [0], rest, by simp [hbytes], ⟨s, hmem, rfl, rfl⟩, by simp⟩
    · rintro ⟨_, rest, hbytes, ⟨s, hmem, rfl, rfl⟩, rfl⟩
      rw [List.append_assoc, List.singleton_append] at hbytes
      obtain ⟨hs, hlt⟩ := hfirst.1 ⟨⟨rest, hbytes⟩, hmem⟩
      rw [hs, if_neg (Nat.not_le_of_lt hlt), List.length_append]
      rfl

/-- A document is what is accepted as one. -/
lemma recognizes_document (hM : MeasuresDocuments newFromData) :
    Recognizes n (document newFromData) fun _ w doc => newFromData w = some doc := by
  refine .of_run (g := fun bytes =>
    if bytes.length < 4 then .error truncated
    else if (readInt32 (bytes.take 4)).toInt < 5 then
      .error (failedToParse "BSON document length is impossible".toList)
    else if bytes.length < (readInt32 (bytes.take 4)).toInt.toNat then .error truncated
    else match newFromData (bytes.take (readInt32 (bytes.take 4)).toInt.toNat) with
    | none => .error (failedToParse "malformed BSON document in wire message".toList)
    | some doc => .ok (doc, (readInt32 (bytes.take 4)).toInt.toNat))
    (fun c hc hn => ?_) fun bytes doc count => ?_
  · have hposition : (position c : Except (Stop TranslatorError) _) = .ok (c.offset, c) := rfl
    have hrequire := require_run hc truncated 4
    by_cases hfour : c.left.length < 4
    · rw [if_pos hfour] at hrequire ⊢
      exact bind_of_error hrequire
    rw [if_neg hfour] at hrequire ⊢
    have hleads := bytesAt_run (ε := TranslatorError) hc (Nat.le_of_not_lt hfour)
    rw [document, bind_of_ok hrequire, bind_of_ok hposition, bind_of_ok hleads]
    by_cases hfive : (readInt32 (c.left.take 4)).toInt < 5
    · rw [if_pos hfive, if_pos hfive]
      rfl
    rw [if_neg hfive, if_neg hfive]
    generalize (readInt32 (c.left.take 4)).toInt.toNat = length
    have hrequire := require_run hc truncated length
    by_cases hlt : c.left.length < length
    · rw [if_pos hlt] at hrequire ⊢
      exact bind_of_error hrequire
    · rw [if_neg hlt] at hrequire ⊢
      have hdata := bytesAt_run (ε := TranslatorError) hc (Nat.le_of_not_lt hlt)
      rw [bind_of_ok hrequire, bind_of_ok hdata]
      cases newFromData (c.left.take length) <;> rfl
  · constructor
    · intro h
      split at h
      · cases h
      split at h
      · cases h
      split at h
      · cases h
      · rename_i hlt
        generalize (readInt32 (bytes.take 4)).toInt.toNat = length at *
        cases hdata : newFromData (bytes.take length) with
        | none =>
          rw [hdata] at h
          cases h
        | some doc' =>
          rw [hdata] at h
          obtain ⟨rfl, rfl⟩ := Prod.mk.inj (Except.ok.inj h)
          refine ⟨bytes.take length, bytes.drop length, (List.take_append_drop _ _).symm, hdata, ?_⟩
          rw [List.length_take]
          omega
    · rintro ⟨w, rest, rfl, hdoc, rfl⟩
      obtain ⟨hfive, hlength⟩ := hM w doc hdoc
      have hfour : (w ++ rest).take 4 = w.take 4 := by
        rw [List.take_append_of_le_length (by omega)]
      have hread : readInt32 ((w ++ rest).take 4) = readInt32 w := by
        rw [hfour]
        simp [readInt32, List.getD_eq_getElem?_getD]
      rw [hread, hlength, List.length_append, if_neg (by omega), if_neg (by omega),
        Int.toNat_natCast,
        if_neg (by omega), List.take_left, hdoc]

/-- The documents of a sequence. -/
lemma recognizes_documents (hM : MeasuresDocuments newFromData) (e : TranslatorError) (stop : ℕ) :
    Recognizes n (readUpTo e (document newFromData) stop n) fun offset w docs =>
      (∃ parts, List.Forall₂ (fun part doc => newFromData part = some doc) parts docs ∧
        w = parts.flatten) ∧ offset + w.length = stop := by
  have hprogress : ∀ (offset : ℕ) w doc, newFromData w = some doc → w ≠ [] := by
    rintro - w doc hdoc rfl
    exact absurd (hM [] doc hdoc).1 (by decide)
  have hpieces := (recognizes_document (n := n) hM).readUpTo e hprogress stop n
  rw [Nat.min_self] at hpieces
  exact hpieces.congr fun offset w docs => by rw [pieces_iff]

/-- One section, of kind 0 only where there is no body yet. -/
lemma recognizes_section (hM : MeasuresDocuments newFromData) (haveBody : Bool) :
    Recognizes n (readSection newFromData haveBody n) fun _ w s =>
      IsSection newFromData w s ∧ (haveBody = true → s.body? = none) := by
  have hbody := Recognizes.guard (P := haveBody = true)
    (failedToParse "OP_MSG carries more than one body section".toList)
    fun _ => (recognizes_document (n := n) hM).map WireSection.body
  have hsequence := Recognizes.bind_position fun start => (recognizes_int32 (n := n)).bind
    fun size => Recognizes.guard (P := size.toInt < 5)
      (failedToParse "OP_MSG sequence length is impossible".toList) fun _ =>
        (recognizes_cstring (n := n)).bind fun identifier => (recognizes_documents (n := n) hM
          (failedToParse "OP_MSG sequence overruns its declared length".toList)
          (start + size.toInt.toNat)).map (WireSection.sequence identifier)
  have hsection := (recognizes_byte (n := n)).bind fun kind => hbody.ite (P := kind = 0)
    fun _ => Recognizes.guard (P := kind ≠ 1) (notImplemented ("OP_MSG section kind ".toList ++
      decimal kind.toNat ++ " is unknown".toList)) fun _ => hsequence
  refine hsection.congr fun offset w s => ?_
  constructor
  · rintro ⟨_, v, kind, rfl, rfl, h⟩
    by_cases hkind : kind = 0
    · rw [if_pos hkind] at h
      obtain ⟨hhave, doc, hdoc, rfl⟩ := h
      subst hkind
      exact ⟨.body hdoc, fun h => absurd h hhave⟩
    · rw [if_neg hkind] at h
      obtain ⟨hone, size, _, v, rfl, ⟨hsize, rfl⟩, hfive, _, w, _, rfl,
        ⟨identifier, hmem, rfl, rfl⟩,
        documents, ⟨⟨parts, hparts, rfl⟩, hstop⟩, rfl⟩ := h
      obtain rfl := not_not.1 hone
      have hlength : (readInt32 size).toInt =
          (size ++ (identifier ++ [0]) ++ parts.flatten).length := by
        simp only [List.length_append, List.length_singleton] at hstop ⊢
        omega
      have hsection := IsSection.sequence hsize hmem hparts hlength
      rw [List.append_assoc] at hsection
      exact ⟨hsection, fun _ => rfl⟩
  · rintro ⟨hsection, hhave⟩
    cases hsection with
    | @body bytes doc hdoc =>
      refine ⟨[0], bytes, 0, rfl, rfl, ?_⟩
      rw [if_pos rfl]
      refine ⟨fun h => ?_, doc, hdoc, rfl⟩
      cases hhave h
    | @sequence size identifier parts documents hsize hmem hparts hlength =>
      refine ⟨[1], size ++ (identifier ++ [0]) ++ parts.flatten, 1, rfl, rfl, ?_⟩
      rw [if_neg (by decide), List.append_assoc]
      refine ⟨fun h => h rfl, size, _, readInt32 size, rfl, ⟨hsize, rfl⟩, ?_, _, _, _, rfl,
        ⟨identifier, hmem, rfl, rfl⟩, documents, ⟨⟨parts, hparts, rfl⟩, ?_⟩, rfl⟩
      · simp only [List.length_append, List.length_singleton] at hlength
        omega
      · simp only [List.length_append, List.length_singleton] at hlength ⊢
        omega

/-- No section is empty. -/
lemma IsSection.ne_nil {w : List UInt8} {s : WireSection} (h : IsSection newFromData w s) :
    w ≠ [] := by
  cases h <;> exact List.cons_ne_nil _ _

/-- A body that is found where there is none yet. -/
lemma toList_or {body new : Option Doc} (h : body.isSome = true → new = none) :
    (new.or body).toList = body.toList ++ new.toList := by
  cases body with
  | none => simp
  | some doc => simp [h rfl]

/-- Where nothing is left, nothing more is read. -/
lemma readSections_nil {limit rounds : ℕ} {body : Option Doc} {sequences : List WireSection}
    {c : ByteCursor} (hc : c.Valid) (hempty : c.left.length = 0) :
    readSections newFromData limit body sequences (rounds + 1) c = .ok ((body, sequences), c) := by
  have hoffset := hc.offset_le
  have hremaining : (remaining c : Except (Stop TranslatorError) _) = .ok (c.left.length, c) := by
    rw [remaining, if_neg (by omega), hc.length_left]
  rw [readSections, bind_of_ok hremaining, if_pos hempty]
  rfl

/-- Where something is left, a section is read and the others follow. -/
lemma readSections_cons {limit rounds : ℕ} {body : Option Doc} {sequences : List WireSection}
    {c : ByteCursor} (hc : c.Valid) (hleft : c.left.length ≠ 0) :
    readSections newFromData limit body sequences (rounds + 1) c =
      (readSection newFromData body.isSome limit >>= fun s =>
        readSections newFromData limit (s.body?.or body)
          (sequences ++ [s].filter fun s => s.body?.isNone) rounds) c := by
  have hoffset := hc.offset_le
  have hremaining : (remaining c : Except (Stop TranslatorError) _) = .ok (c.left.length, c) := by
    rw [remaining, if_neg (by omega), hc.length_left]
  rw [readSections, bind_of_ok hremaining, if_neg hleft]
  cases hrun : readSection newFromData body.isSome limit c with
  | error stop => rw [bind_of_error hrun, bind_of_error hrun]
  | ok r =>
    rw [bind_of_ok hrun, bind_of_ok hrun]
    cases r.1 with
    | body doc => simp [WireSection.body?]
    | sequence identifier documents => simp [WireSection.body?]

/-- No section is made of no bytes. -/
lemma eq_nil_of_flatten {words : List (List UInt8)} {sections : List WireSection}
    (h : List.Forall₂ (IsSection newFromData) words sections) (hnil : words.flatten = []) :
    words = [] := by
  cases h with
  | nil => rfl
  | cons hsection _ => exact absurd (List.append_eq_nil_iff.1 hnil).1 hsection.ne_nil

/-- The sections fill what is left. -/
lemma readSections_run (hM : MeasuresDocuments newFromData) {limit rounds : ℕ} {body : Option Doc}
    {sequences : List WireSection} {c : ByteCursor} (hc : c.Valid)
    (hrounds : c.left.length < rounds)
    (hlimit : c.left.length < limit) :
    (∀ stop, readSections newFromData limit body sequences rounds c = .error stop →
      ∃ e, stop = .thrown e) ∧
    ∀ found others c', readSections newFromData limit body sequences rounds c =
        .ok ((found, others), c') ↔
      c' = c.advance c.left.length ∧ ∃ words sections,
        List.Forall₂ (IsSection newFromData) words sections ∧ c.left = words.flatten ∧
        found.toList = body.toList ++ sections.filterMap WireSection.body? ∧
        others = sequences ++ sections.filter fun s => s.body?.isNone := by
  induction rounds generalizing body sequences c with
  | zero => exact absurd hrounds (Nat.not_lt_zero _)
  | succ rounds ih =>
    by_cases hempty : c.left.length = 0
    · rw [readSections_nil hc hempty, hempty, ByteCursor.advance_zero]
      have hnil : c.left = [] := List.length_eq_zero_iff.1 hempty
      refine ⟨nofun, fun found others c' => ?_⟩
      constructor
      · intro h
        obtain ⟨hr, rfl⟩ := Prod.mk.inj (Except.ok.inj h)
        obtain ⟨rfl, rfl⟩ := Prod.mk.inj hr
        exact ⟨rfl, [], [], .nil, hnil, (List.append_nil _).symm, (List.append_nil _).symm⟩
      · rintro ⟨rfl, words, sections, hsections, hleft, hfound, hothers⟩
        obtain rfl := eq_nil_of_flatten hsections (hleft.symm.trans hnil)
        cases hsections
        obtain rfl : found = body := by
          rw [List.filterMap_nil, List.append_nil] at hfound
          cases found <;> cases body <;> simp_all
        obtain rfl : others = sequences := by simpa using hothers
        rfl
    rw [readSections_cons hc hempty]
    have hsection := recognizes_section (n := limit) hM body.isSome
    have hshorter : ∀ w rest s, c.left = w ++ rest → IsSection newFromData w s →
        (c.advance w.length).left.length < rounds ∧ (c.advance w.length).left.length < limit := by
      intro w rest s hleft hw
      have hpos := List.length_pos_of_ne_nil hw.ne_nil
      rw [ByteCursor.left_advance hleft]
      rw [hleft, List.length_append] at hrounds hlimit
      omega
    constructor
    · intro stop h
      cases hrun : readSection newFromData body.isSome limit c with
      | error stop' =>
        rw [bind_of_error hrun] at h
        exact Except.error.inj h ▸ hsection.safe c hc hlimit stop' hrun
      | ok r =>
        obtain ⟨w, rest, hleft, ⟨hw, -⟩, hr⟩ := (hsection.ok_iff c hc hlimit r.1 r.2).1 hrun
        rw [bind_of_ok hrun, hr] at h
        obtain ⟨hr', hl'⟩ := hshorter w rest r.1 hleft hw
        exact (ih (hc.advance hleft) hr' hl').1 stop h
    · intro found others c'
      constructor
      · intro h
        cases hrun : readSection newFromData body.isSome limit c with
        | error stop =>
          rw [bind_of_error hrun] at h
          cases h
        | ok r =>
          obtain ⟨s, c₁⟩ := r
          rw [bind_of_ok hrun] at h
          obtain ⟨w, rest, hleft, ⟨hw, hhave⟩, rfl⟩ := (hsection.ok_iff c hc hlimit s c₁).1 hrun
          obtain ⟨hr', hl'⟩ := hshorter w rest s hleft hw
          obtain ⟨rfl, words, sections, hsections, hrest, hfound, hothers⟩ :=
            ((ih (hc.advance hleft) hr' hl').2 found others c').1 h
          rw [ByteCursor.left_advance hleft] at hrest ⊢
          refine ⟨?_, w :: words, s :: sections, .cons hw hsections, ?_, ?_, ?_⟩
          · rw [ByteCursor.advance_advance, hleft, List.length_append]
          · rw [hleft, hrest, List.flatten_cons]
          · rw [hfound, toList_or hhave, List.filterMap_cons]
            cases s.body? <;> simp
          · rw [hothers, List.append_assoc, ← List.filter_append, List.singleton_append]
      · rintro ⟨rfl, words, sections, hsections, hleft, hfound, hothers⟩
        cases hsections with
        | nil =>
          rw [hleft] at hempty
          exact absurd rfl hempty
        | @cons w s words sections hw hsections =>
          rw [List.flatten_cons] at hleft
          have hhave : body.isSome = true → s.body? = none := by
            intro hsome
            cases hbody : s.body? with
            | none => rfl
            | some doc =>
              obtain ⟨doc', rfl⟩ := Option.isSome_iff_exists.1 hsome
              have hlength := congrArg List.length hfound
              cases found <;> simp [hbody] at hlength
          have hrun := (hsection.ok_iff c hc hlimit s _).2 ⟨w, _, hleft, ⟨hw, hhave⟩, rfl⟩
          obtain ⟨hr', hl'⟩ := hshorter w _ s hleft hw
          rw [bind_of_ok hrun]
          refine ((ih (hc.advance hleft) hr' hl').2 found others _).2
            ⟨?_, words, sections, hsections, ByteCursor.left_advance hleft, ?_, ?_⟩
          · rw [ByteCursor.advance_advance, ByteCursor.left_advance hleft,
              ← List.length_append, ← hleft]
          · rw [hfound, toList_or hhave, List.filterMap_cons]
            cases s.body? <;> simp
          · rw [hothers, List.append_assoc, ← List.filter_append, List.singleton_append]

/-- The bits that have to be understood. -/
lemma mask_eq_zero_iff (b : BitVec 32) : b &&& 0xFFFF#32 &&& ~~~0x3#32 = 0#32 ↔
    ∀ i, 2 ≤ i → i ≤ 15 → b.getLsbD i = false := by
  constructor
  · intro h i hlow hhigh
    have hbit := congrArg (fun x => BitVec.getLsbD x i) h
    simp only [BitVec.getLsbD_and] at hbit
    interval_cases i <;> simpa using hbit
  · intro h
    ext i hi
    simp only [← BitVec.getLsbD_eq_getElem]
    by_cases hlow : 2 ≤ i
    · by_cases hhigh : i ≤ 15
      · simp [h i hlow hhigh]
      · have hmask : (0xFFFF#32).getLsbD i = false := by
          interval_cases i <;> decide
        simp [hmask]
    · interval_cases i <;> simp

/-- The test of the flags. -/
lemma flagsUnderstood_iff (flags : Int32) :
    flags &&& 0xFFFF &&& ~~~0x3 = 0 ↔ FlagsUnderstood flags := by
  have hmask : flags &&& 0xFFFF &&& ~~~0x3 = 0 ↔
      flags.toBitVec &&& 0xFFFF#32 &&& ~~~0x3#32 = 0#32 := by
    rw [← Int32.toBitVec_inj]
    rfl
  rw [hmask, mask_eq_zero_iff]
  rfl

/-- The test of the checksum bit. -/
lemma checksumPresent_iff (flags : Int32) :
    flags &&& 0x1 ≠ 0 ↔ checksumPresent flags = true := by
  have hmask : flags &&& 0x1 = 0 ↔ flags.toBitVec &&& 0x1#32 = 0#32 := by
    rw [← Int32.toBitVec_inj]
    rfl
  have hbit : flags.toBitVec &&& 0x1#32 = 0#32 ↔ flags.toBitVec.getLsbD 0 = false := by
    constructor
    · intro h
      have hbit := congrArg (fun x => BitVec.getLsbD x 0) h
      simpa using hbit
    · intro h
      ext i hi
      simp only [← BitVec.getLsbD_eq_getElem]
      by_cases hzero : i = 0
      · subst hzero
        rw [BitVec.getLsbD_and, h, Bool.false_and]
        rfl
      · have hmask : (1#32).getLsbD i = false := by
          interval_cases i <;> first | decide | contradiction
        simp [hmask]
  have hpresent : checksumPresent flags = flags.toBitVec.getLsbD 0 := rfl
  rw [ne_eq, hmask, hbit, hpresent, Bool.not_eq_false]

/-! ## Messages -/

/-- The header of a message. -/
def headerOf (raw : List UInt8) : Header where
  messageLength := readInt32 (raw.take 4)
  requestId := readInt32 ((raw.drop 4).take 4)
  responseTo := readInt32 ((raw.drop 8).take 4)
  opCode := readInt32 ((raw.drop 12).take 4)

/-- The cursor behind the header. -/
def bodyCursor (raw : List UInt8) : ByteCursor :=
  ⟨raw.drop headerBytes, raw.length - headerBytes, 0⟩

/-- A message has room for a header. -/
lemma parseHeader_run {raw : List UInt8} (h : headerBytes ≤ raw.length) :
    parseHeader ⟨raw, raw.length, 0⟩ = .ok (headerOf raw, ⟨raw, raw.length, 0⟩) := by
  have hread : ∀ i, i + 4 ≤ headerBytes →
      (bytesAt i 4 ⟨raw, raw.length, 0⟩ : Except (Stop TranslatorError) _) =
        .ok ((raw.drop i).take 4, ⟨raw, raw.length, 0⟩) := by
    intro i hi
    rw [bytesAt, if_neg (Nat.not_lt.2 (hi.trans h))]
  rw [parseHeader, bind_of_ok (hread 0 (by decide)), bind_of_ok (hread 4 (by decide)),
    bind_of_ok (hread 8 (by decide)), bind_of_ok (hread 12 (by decide))]
  rfl

/-- The cursor behind the header is valid. -/
lemma bodyCursor_valid (raw : List UInt8) : (bodyCursor raw).Valid :=
  ⟨Nat.zero_le _, by simp [bodyCursor]⟩

/-- What is left behind the header. -/
lemma bodyCursor_left (raw : List UInt8) : (bodyCursor raw).left = raw.drop headerBytes := by
  simp [bodyCursor, ByteCursor.left, List.take_of_length_le]

/-- The checksum is trimmed off. -/
lemma trim_run {c : ByteCursor} (hc : c.Valid) (count : ℕ) :
    trim count c = if c.left.length < count then
        .error (.thrown (failedToParse "wire message is shorter than it claims".toList))
      else .ok ((), { c with size := c.size - count }) := by
  have hoffset := hc.offset_le
  have hremaining : (remaining c : Except (Stop TranslatorError) _) = .ok (c.left.length, c) := by
    rw [remaining, if_neg (by omega), hc.length_left]
  rw [trim, bind_of_ok hremaining]
  by_cases hlt : c.left.length < count
  · rw [if_pos hlt, if_pos hlt]
    rfl
  · rw [if_neg hlt, if_neg hlt]

/-- What is left when the checksum is trimmed off. -/
lemma trimmed_left {c : ByteCursor} (hc : c.Valid) {count : ℕ} (h : count ≤ c.left.length) :
    ({ c with size := c.size - count } : ByteCursor).Valid ∧
      ({ c with size := c.size - count } : ByteCursor).left =
        c.left.take (c.left.length - count) := by
  have hoffset := hc.offset_le
  have hsize := hc.size_le
  have hlength := hc.length_left
  refine ⟨⟨show c.offset ≤ c.size - count by omega,
    show c.size - count ≤ c.data.length by omega⟩, ?_⟩
  rw [ByteCursor.left, ByteCursor.left, List.take_drop, List.take_take]
  congr 2
  change c.size - count = _
  rw [show ((c.data.take c.size).drop c.offset).length = c.left.length from rfl]
  omega

/-- The request of an `OP_MSG` of these sections, of which the document is the command. -/
def requestOf (header : Header) (doc : Doc) (sections : List WireSection) : WireRequest :=
  ⟨header, doc ++ sections.filterMap WireSection.field?,
    databaseOfBody (doc ++ sections.filterMap WireSection.field?), false⟩

/-- The sequences are folded in, where there are any. -/
lemma folded_eq (doc : Doc) (sections : List WireSection) :
    (if (sections.filter fun s => s.body?.isNone).isEmpty = true then doc
      else foldInSequences doc (sections.filter fun s => s.body?.isNone)) =
      doc ++ sections.filterMap WireSection.field? := by
  have hfields : (sections.filter fun s => s.body?.isNone).filterMap WireSection.field? =
      sections.filterMap WireSection.field? := by
    rw [List.filterMap_filter]
    refine List.filterMap_congr fun s _ => ?_
    cases s <;> rfl
  by_cases hempty : (sections.filter fun s => s.body?.isNone).isEmpty = true
  · rw [if_pos hempty, ← hfields, List.isEmpty_iff.1 hempty]
    exact (List.append_nil doc).symm
  · rw [if_neg hempty, foldInSequences, hfields]

/-- The sections of a message, where the flags have been read. -/
lemma parseSections_run (hM : MeasuresDocuments newFromData) {rounds : ℕ} {c : ByteCursor}
    (hc : c.Valid) (hrounds : c.left.length < rounds) (header : Header) :
    (∀ stop, parseSections newFromData header rounds c = .error stop → ∃ e, stop = .thrown e) ∧
    ∀ req, (∃ c', parseSections newFromData header rounds c = .ok (req, c')) ↔
      ∃ words sections doc, c.left = List.flatten words ∧
        List.Forall₂ (IsSection newFromData) words sections ∧
        sections.filterMap WireSection.body? = [doc] ∧ req = requestOf header doc sections := by
  obtain ⟨hsafe, hiff⟩ := @readSections_run _ hM _ _ none [] _ hc hrounds hrounds
  constructor
  · intro stop h
    cases hrun : readSections newFromData rounds none [] rounds c with
    | error stop' =>
      rw [parseSections, bind_of_error hrun] at h
      exact Except.error.inj h ▸ hsafe stop' hrun
    | ok r =>
      rw [parseSections, bind_of_ok hrun] at h
      obtain ⟨⟨_ | doc, others⟩, c'⟩ := r
      · exact ⟨_, (Except.error.inj h).symm⟩
      · cases h
  · intro req
    constructor
    · rintro ⟨c', h⟩
      cases hrun : readSections newFromData rounds none [] rounds c with
      | error stop =>
        rw [parseSections, bind_of_error hrun] at h
        cases h
      | ok r =>
        rw [parseSections, bind_of_ok hrun] at h
        obtain ⟨⟨_ | doc, others⟩, c'⟩ := r
        · cases h
        · obtain ⟨-, words, sections, hsections, hleft, hbody, rfl⟩ := (hiff _ _ _).1 hrun
          obtain ⟨rfl, -⟩ := Prod.mk.inj (Except.ok.inj h)
          refine ⟨words, sections, doc, hleft, hsections, hbody.symm, ?_⟩
          rw [List.nil_append, folded_eq]
          rfl
    · rintro ⟨words, sections, doc, hleft, hsections, hbody, rfl⟩
      have hrun := (hiff (some doc) _ _).2 ⟨rfl, words, sections, hsections, hleft, hbody.symm, rfl⟩
      refine ⟨c.advance c.left.length, ?_⟩
      rw [parseSections, bind_of_ok hrun]
      simp only [List.nil_append, folded_eq]
      rfl

/-- The checksum is trimmed off where there is one. -/
lemma trimChecksum_run {c : ByteCursor} (hc : c.Valid) (flags : Int32) :
    (if flags &&& 0x1 ≠ 0 then trim 4 else pure () : WireReader Unit) c =
      if c.left.length < checksumBytes flags then
        .error (.thrown (failedToParse "wire message is shorter than it claims".toList))
      else .ok ((), { c with size := c.size - checksumBytes flags }) := by
  unfold checksumBytes
  by_cases hpresent : checksumPresent flags = true
  · rw [if_pos ((checksumPresent_iff flags).2 hpresent), trim_run hc, if_pos hpresent]
  · rw [if_neg (mt (checksumPresent_iff flags).1 hpresent), if_neg hpresent,
      if_neg (Nat.not_lt_zero _)]
    rfl

/-- What is done when the flags have been read and understood. -/
lemma parseOpMsg_understood {header : Header} {rounds : ℕ} {c : ByteCursor} (hc : c.Valid)
    {flags rest : List UInt8} (hleft : c.left = flags ++ rest)
    (hrun : int32AtCursor c = .ok (readInt32 flags, c.advance flags.length))
    (hunderstood : FlagsUnderstood (readInt32 flags)) :
    parseOpMsg newFromData header rounds c =
      if rest.length < checksumBytes (readInt32 flags) then
        .error (.thrown (failedToParse "wire message is shorter than it claims".toList))
      else parseSections newFromData header rounds
        { c.advance flags.length with
          size := (c.advance flags.length).size - checksumBytes (readInt32 flags) } := by
  have htrim := trimChecksum_run (hc.advance hleft) (readInt32 flags)
  rw [ByteCursor.left_advance hleft] at htrim
  rw [parseOpMsg, bind_of_ok hrun, if_neg (not_not.2 ((flagsUnderstood_iff _).2 hunderstood))]
  by_cases hlt : rest.length < checksumBytes (readInt32 flags)
  · rw [if_pos hlt] at htrim ⊢
    exact bind_of_error htrim
  · rw [if_neg hlt] at htrim ⊢
    exact bind_of_ok htrim

/-- Flags that are not understood are refused. -/
lemma parseOpMsg_rejected {header : Header} {rounds : ℕ} {c : ByteCursor} {flags : List UInt8}
    (hrun : int32AtCursor c = .ok (readInt32 flags, c.advance flags.length))
    (hnot : ¬ FlagsUnderstood (readInt32 flags)) :
    parseOpMsg newFromData header rounds c = .error (.thrown
      (failedToParse "OP_MSG sets flag bits this server does not implement".toList)) := by
  rw [parseOpMsg, bind_of_ok hrun, if_pos (mt (flagsUnderstood_iff _).1 hnot)]
  rfl

/-- The sections of a message, where some bytes at the end have been trimmed off. -/
lemma parseSections_trimmed (hM : MeasuresDocuments newFromData) {rounds : ℕ} {c : ByteCursor}
    (hc : c.Valid) (hrounds : c.left.length < rounds) (header : Header) {flags rest : List UInt8}
    (hleft : c.left = flags ++ rest) {count : ℕ} (hcount : count ≤ rest.length) :
    (∀ stop, parseSections newFromData header rounds
        { c.advance flags.length with size := (c.advance flags.length).size - count } =
          .error stop → ∃ e, stop = .thrown e) ∧
    ∀ req, (∃ c', parseSections newFromData header rounds
        { c.advance flags.length with size := (c.advance flags.length).size - count } =
          .ok (req, c')) ↔
      ∃ words sections doc, rest.take (rest.length - count) = List.flatten words ∧
        List.Forall₂ (IsSection newFromData) words sections ∧
        sections.filterMap WireSection.body? = [doc] ∧ req = requestOf header doc sections := by
  have hcut : count ≤ (c.advance flags.length).left.length := by
    rwa [ByteCursor.left_advance hleft]
  obtain ⟨hvalid, htrimmed⟩ := trimmed_left (hc.advance hleft) hcut
  rw [ByteCursor.left_advance hleft] at htrimmed
  have hlength := congrArg List.length hleft
  rw [List.length_append] at hlength
  have hshort : ({ c.advance flags.length with
      size := (c.advance flags.length).size - count } : ByteCursor).left.length < rounds := by
    rw [htrimmed, List.length_take]
    omega
  have hrun := parseSections_run hM hvalid hshort header
  rwa [htrimmed] at hrun

/-- The sections of a message, from the flags on. -/
lemma parseOpMsg_run (hM : MeasuresDocuments newFromData) {rounds : ℕ} {c : ByteCursor}
    (hc : c.Valid) (hrounds : c.left.length < rounds) (header : Header) :
    (∀ stop, parseOpMsg newFromData header rounds c = .error stop → ∃ e, stop = .thrown e) ∧
    ∀ req, (∃ c', parseOpMsg newFromData header rounds c = .ok (req, c')) ↔
      ∃ flags checksum words sections doc, c.left = flags ++ List.flatten words ++ checksum ∧
        flags.length = 4 ∧ FlagsUnderstood (readInt32 flags) ∧
        checksum.length = checksumBytes (readInt32 flags) ∧
        List.Forall₂ (IsSection newFromData) words sections ∧
        sections.filterMap WireSection.body? = [doc] ∧ req = requestOf header doc sections := by
  have hflags := recognizes_int32 (n := rounds)
  constructor
  · intro stop h
    cases hrun : int32AtCursor c with
    | error stop' =>
      rw [parseOpMsg, bind_of_error hrun] at h
      exact Except.error.inj h ▸ hflags.safe c hc hrounds stop' hrun
    | ok r =>
      obtain ⟨v, c'⟩ := r
      obtain ⟨flags, rest, hleft, ⟨-, rfl⟩, rfl⟩ := (hflags.ok_iff c hc hrounds v c').1 hrun
      by_cases hunderstood : FlagsUnderstood (readInt32 flags)
      · rw [parseOpMsg_understood hc hleft hrun hunderstood] at h
        by_cases hlt : rest.length < checksumBytes (readInt32 flags)
        · rw [if_pos hlt] at h
          exact ⟨_, (Except.error.inj h).symm⟩
        · rw [if_neg hlt] at h
          have hle := Nat.le_of_not_lt hlt
          exact (parseSections_trimmed hM hc hrounds header hleft hle).1 stop h
      · rw [parseOpMsg_rejected hrun hunderstood] at h
        exact ⟨_, (Except.error.inj h).symm⟩
  · intro req
    constructor
    · rintro ⟨c', h⟩
      cases hrun : int32AtCursor c with
      | error stop =>
        rw [parseOpMsg, bind_of_error hrun] at h
        cases h
      | ok r =>
        obtain ⟨v, c''⟩ := r
        obtain ⟨flags, rest, hleft, ⟨hfour, rfl⟩, rfl⟩ := (hflags.ok_iff c hc hrounds v c'').1 hrun
        by_cases hunderstood : FlagsUnderstood (readInt32 flags)
        · rw [parseOpMsg_understood hc hleft hrun hunderstood] at h
          by_cases hlt : rest.length < checksumBytes (readInt32 flags)
          · rw [if_pos hlt] at h
            cases h
          · rw [if_neg hlt] at h
            have hle := Nat.le_of_not_lt hlt
            obtain ⟨words, sections, doc, htake, hsections, hbody, hreq⟩ :=
              ((parseSections_trimmed hM hc hrounds header hleft hle).2 req).1 ⟨c', h⟩
            refine ⟨flags, rest.drop (rest.length - checksumBytes (readInt32 flags)), words,
              sections, doc, ?_, hfour, hunderstood, ?_, hsections, hbody, hreq⟩
            · rw [← htake, List.append_assoc, List.take_append_drop, hleft]
            · rw [List.length_drop]
              omega
        · rw [parseOpMsg_rejected hrun hunderstood] at h
          cases h
    · rintro ⟨flags, checksum, words, sections, doc, hleft, hfour, hunderstood, hchecksum,
        hsections, hbody, hreq⟩
      rw [List.append_assoc] at hleft
      have hrun := (hflags.ok_iff c hc hrounds _ _).2 ⟨flags, _, hleft, ⟨hfour, rfl⟩, rfl⟩
      have hle : checksumBytes (readInt32 flags) ≤ (List.flatten words ++ checksum).length := by
        rw [List.length_append]
        omega
      rw [parseOpMsg_understood hc hleft hrun hunderstood, if_neg (Nat.not_lt.2 hle)]
      refine ((parseSections_trimmed hM hc hrounds header hleft hle).2 req).2
        ⟨words, sections, doc, ?_, hsections, hbody, hreq⟩
      rw [List.length_append, ← hchecksum, Nat.add_sub_cancel, List.take_left]

/-- An `OP_QUERY` is read from front to back. -/
lemma parseOpQuery_run (hM : MeasuresDocuments newFromData) {rounds : ℕ} {c : ByteCursor}
    (hc : c.Valid) (hrounds : c.left.length < rounds) (header : Header) :
    (∀ stop, parseOpQuery newFromData header rounds c = .error stop → ∃ e, stop = .thrown e) ∧
    ∀ req c', parseOpQuery newFromData header rounds c = .ok (req, c') → req.header = header := by
  have hdocument := fun ns : Text => (recognizes_document (n := rounds) hM).map
    fun body => (⟨header, body, ns.takeWhile (· ≠ '.'), true⟩ : WireRequest)
  have hquery := (recognizes_int32 (n := rounds)).bind fun _ =>
    (recognizes_cstring (n := rounds)).bind fun ns => (recognizes_int32 (n := rounds)).bind
      fun _ => (recognizes_int32 (n := rounds)).bind fun _ => hdocument ns
  refine ⟨hquery.safe c hc hrounds, fun req c' h => ?_⟩
  obtain ⟨_, _, -, ⟨_, _, _, -, -, _, _, _, -, -, _, _, _, -, -, _, _, _, -, -, body, -, rfl⟩, -⟩ :=
    (hquery.ok_iff c hc hrounds req c').1 h
  rfl

/-- What `parse_request` does behind the header. -/
lemma parseRequest_eq (rounds : ℕ) {raw : List UInt8} (hraw : headerBytes ≤ raw.length) :
    parseRequest newFromData rounds raw =
      if (headerOf raw).opCode = opMsg then
        (parseOpMsg newFromData (headerOf raw) rounds (bodyCursor raw)).map Prod.fst
      else if (headerOf raw).opCode = opQuery then
        (parseOpQuery newFromData (headerOf raw) rounds (bodyCursor raw)).map Prod.fst
      else .error (.thrown (notImplemented ("opcode ".toList ++
        integerText (headerOf raw).opCode.toInt ++ " is not supported".toList))) := by
  unfold parseRequest
  rw [parseHeader_run hraw]
  change (if (headerOf raw).opCode = opMsg then
      parseOpMsg newFromData (headerOf raw) rounds (bodyCursor raw) >>= _
    else if (headerOf raw).opCode = opQuery then
      parseOpQuery newFromData (headerOf raw) rounds (bodyCursor raw) >>= _ else _) = _
  cases parseOpMsg newFromData (headerOf raw) rounds (bodyCursor raw) <;>
    cases parseOpQuery newFromData (headerOf raw) rounds (bodyCursor raw) <;> rfl

/-- A message of any kind is parsed or refused, and the request has its header. -/
lemma parseRequest_run (hM : MeasuresDocuments newFromData) {rounds : ℕ} {raw : List UInt8}
    (hraw : headerBytes ≤ raw.length) (hrounds : raw.length ≤ rounds) :
    (∀ stop, parseRequest newFromData rounds raw = .error stop → ∃ e, stop = .thrown e) ∧
      ∀ req, parseRequest newFromData rounds raw = .ok req → req.header = headerOf raw := by
  have hshort : (bodyCursor raw).left.length < rounds := by
    rw [bodyCursor_left, List.length_drop]
    simp only [headerBytes] at hraw ⊢
    omega
  have hmsg := parseOpMsg_run hM (bodyCursor_valid raw) hshort (headerOf raw)
  have hquery := parseOpQuery_run hM (bodyCursor_valid raw) hshort (headerOf raw)
  have hmap : ∀ x : Except (Stop TranslatorError) (WireRequest × ByteCursor),
      (∀ stop, x = .error stop → ∃ e, stop = .thrown e) →
      (∀ req c', x = .ok (req, c') → req.header = headerOf raw) →
      (∀ stop, x.map Prod.fst = .error stop → ∃ e, stop = .thrown e) ∧
        ∀ req, x.map Prod.fst = .ok req → req.header = headerOf raw := by
    intro x hsafe hheader
    cases x with
    | error stop => exact ⟨fun _ h => Except.error.inj h ▸ hsafe stop rfl, nofun⟩
    | ok r => exact ⟨nofun, fun _ h => Except.ok.inj h ▸ hheader r.1 r.2 rfl⟩
  rw [parseRequest_eq rounds hraw]
  split
  · refine hmap _ hmsg.1 fun req c' h => ?_
    obtain ⟨_, _, _, _, _, -, -, -, -, -, -, rfl⟩ := (hmsg.2 req).1 ⟨c', h⟩
    rfl
  split
  · exact hmap _ hquery.1 hquery.2
  · exact ⟨fun _ h => ⟨_, (Except.error.inj h).symm⟩, nofun⟩

/-- What an `OP_MSG` is parsed to. -/
lemma parseRequest_ok_iff (hM : MeasuresDocuments newFromData) {rounds : ℕ} {raw : List UInt8}
    (hraw : headerBytes ≤ raw.length) (hop : (headerOf raw).opCode = opMsg)
    (hrounds : raw.length ≤ rounds) (req : WireRequest) :
    parseRequest newFromData rounds raw = .ok req ↔
      ∃ sections doc, IsOpMsg newFromData raw sections ∧
        sections.filterMap WireSection.body? = [doc] ∧
        req = requestOf (headerOf raw) doc sections := by
  have hshort : (bodyCursor raw).left.length < rounds := by
    rw [bodyCursor_left, List.length_drop]
    simp only [headerBytes] at hraw ⊢
    omega
  obtain ⟨-, hiff⟩ := parseOpMsg_run hM (bodyCursor_valid raw) hshort (headerOf raw)
  have hparse := @parseRequest_eq newFromData rounds raw hraw
  rw [if_pos hop] at hparse
  have hmap : parseRequest newFromData rounds raw = .ok req ↔
      ∃ c', parseOpMsg newFromData (headerOf raw) rounds (bodyCursor raw) = .ok (req, c') := by
    rw [hparse]
    cases parseOpMsg newFromData (headerOf raw) rounds (bodyCursor raw) <;>
      simp [Except.map, Prod.ext_iff]
  rw [hmap, hiff, bodyCursor_left]
  constructor
  · rintro ⟨flags, checksum, words, sections, doc, hleft, hfour, hunderstood, hchecksum,
      hsections, hbody, hreq⟩
    exact ⟨sections, doc, ⟨flags, checksum, words, hleft, hfour, hunderstood, hchecksum,
      hsections,
      by rw [hbody]; rfl⟩, hbody, hreq⟩
  · rintro ⟨sections, doc, ⟨flags, checksum, words, hleft, hfour, hunderstood, hchecksum,
      hsections, -⟩, hbody, hreq⟩
    exact ⟨flags, checksum, words, sections, doc, hleft, hfour, hunderstood, hchecksum, hsections,
      hbody, hreq⟩

/-- **An `OP_MSG` is parsed exactly when it is made of sections.**  The parser stays within the
message and terminates; it succeeds if and only if the message is flags, sections and a checksum;
and then the request's document is the one of kind 0, followed by an array for each sequence, in the
order of the message. -/
theorem parseRequest_opMsg (hM : MeasuresDocuments newFromData) {rounds : ℕ} {raw : List UInt8}
    (hraw : headerBytes ≤ raw.length) (hop : (headerOf raw).opCode = opMsg)
    (hrounds : raw.length ≤ rounds) :
    (∀ stop, parseRequest newFromData rounds raw = .error stop → ∃ e, stop = .thrown e) ∧
      ((∃ req, parseRequest newFromData rounds raw = .ok req) ↔
        ∃ sections, IsOpMsg newFromData raw sections) ∧
      ∀ req sections doc, parseRequest newFromData rounds raw = .ok req →
        IsOpMsg newFromData raw sections → doc ∈ sections.filterMap WireSection.body? →
          req.body = doc ++ sections.filterMap WireSection.field? := by
  have hok := parseRequest_ok_iff hM hraw hop hrounds
  refine ⟨(parseRequest_run hM hraw hrounds).1, ?_, fun req sections doc hreq hsections hdoc => ?_⟩
  · constructor
    · rintro ⟨req, h⟩
      obtain ⟨sections, doc, hsections, -⟩ := (hok req).1 h
      exact ⟨sections, hsections⟩
    · rintro ⟨sections, hsections⟩
      obtain ⟨flags, checksum, words, -, -, -, -, -, hone⟩ := id hsections
      obtain ⟨doc, hbody⟩ := List.length_eq_one_iff.1 hone
      exact ⟨_, (hok _).2 ⟨sections, doc, hsections, hbody, rfl⟩⟩
  · obtain ⟨flags, checksum, words, -, -, -, -, -, hone⟩ := id hsections
    obtain ⟨doc', hbody⟩ := List.length_eq_one_iff.1 hone
    rw [hbody] at hdoc
    obtain rfl := List.mem_singleton.1 hdoc
    have hsame := hreq.symm.trans ((hok _).2 ⟨sections, doc, hsections, hbody, rfl⟩)
    rw [Except.ok.inj hsame]
    rfl

end Recognition

/-- A reader of empty documents only. -/
def emptyDocuments : List UInt8 → Option Doc
  | [5, 0, 0, 0, 0] => some []
  | _ => none

/-- An empty document has its own length. -/
lemma emptyDocuments_measures : MeasuresDocuments emptyDocuments := by
  intro bytes doc h
  unfold emptyDocuments at h
  split at h
  · decide
  · cases h

/-- A message of a sequence and, behind it, the document that it is folded into, with a
checksum. -/
theorem parseRequest_opMsg_sequence :
    let raw : List UInt8 := [47, 0, 0, 0, 7, 0, 0, 0, 0, 0, 0, 0, 221, 7, 0, 0, 1, 0, 0, 0,
      1, 16, 0, 0, 0, 97, 0, 5, 0, 0, 0, 0, 5, 0, 0, 0, 0, 0, 5, 0, 0, 0, 0, 1, 2, 3, 4]
    (∀ stop, parseRequest emptyDocuments 47 raw = .error stop → ∃ e, stop = .thrown e) ∧
      ∃ req, parseRequest emptyDocuments 47 raw = .ok req ∧
        req.body = [("a".toList, .array (makeArray [.document [], .document []]))] := by
  intro raw
  obtain ⟨hsafe, hiff, hbody⟩ := @parseRequest_opMsg _ emptyDocuments_measures 47 raw
    (by decide) (by decide) (by decide)
  have hfirst : IsSection emptyDocuments (1 :: ([16, 0, 0, 0] ++ ([97] ++ [0]) ++
      [[5, 0, 0, 0, 0], [5, 0, 0, 0, 0]].flatten)) (.sequence (textOfBytes [97]) [[], []]) :=
    .sequence rfl (by decide) (.cons rfl (.cons rfl .nil)) (by decide)
  have hsecond : IsSection emptyDocuments (0 :: [5, 0, 0, 0, 0]) (.body []) := .body rfl
  have hsections : IsOpMsg emptyDocuments raw
      [.sequence (textOfBytes [97]) [[], []], .body []] := by
    refine ⟨[1, 0, 0, 0], [1, 2, 3, 4], _, rfl, rfl, ?_, rfl, .cons hfirst (.cons hsecond .nil),
      rfl⟩
    intro i hlow hhigh
    interval_cases i <;> decide
  obtain ⟨req, hreq⟩ := hiff.2 ⟨_, hsections⟩
  exact ⟨hsafe, req, hreq, hbody req _ [] hreq hsections List.mem_cons_self⟩

end Chimera

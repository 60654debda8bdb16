import Chimera.Translator.Bson
import Chimera.Translator.SqlGuard

/-!
# Shell statements

One statement of a mongo shell, `db.<collection>.<verb>(<args>)`, is read into a call, and the
call becomes the command document that a driver would have sent.  The reader keeps what is left of
the statement; with the length of the statement that gives the offsets of its errors.
-/

namespace Chimera

/-! ## Numbers of the C library -/

/-- A sign, and what follows it. -/
def readSign : Text → Bool × Text
  | '-' :: rest => (true, rest)
  | '+' :: rest => (false, rest)
  | rest => (false, rest)

/-- The number that digits spell. -/
def ofDigits (digits : Text) : ℕ :=
  digits.foldl (fun n c => 10 * n + (c.toNat - '0'.toNat)) 0

/-- `strtoll` to base ten: the longest prefix that is a number, held within 64 bits. -/
def strtoll (s : Text) : Int64 :=
  let (negative, rest) := readSign s
  let n := (ofDigits (rest.takeWhile Char.isDigit) : ℤ)
  Int64.ofInt (max (-(2 ^ 63)) (min (2 ^ 63 - 1) (if negative then -n else n)))

/-- The exponent that follows the digits of a number. -/
def readExponent : Text → ℤ
  | c :: rest =>
    if c = 'e' ∨ c = 'E' then
      let (negative, digits) := readSign rest
      let n := (ofDigits (digits.takeWhile Char.isDigit) : ℤ)
      if negative then -n else n
    else 0
  | [] => 0

/-- The digits after a decimal point, and what follows them. -/
def readFraction : Text → Text × Text
  | '.' :: rest => (rest.takeWhile Char.isDigit, rest.dropWhile Char.isDigit)
  | rest => ([], rest)

/-- `strtod`: the double nearest to the longest prefix that is a decimal number, and zero when
there is none. -/
def strtod (s : Text) : Binary64 :=
  let (negative, s) := readSign s
  let whole := s.takeWhile Char.isDigit
  let (fraction, s) := readFraction (s.dropWhile Char.isDigit)
  if whole.isEmpty && fraction.isEmpty then Binary64.ofRatio false 0 1
  else
    let exponent := readExponent s - fraction.length
    Binary64.ofRatio negative (ofDigits (whole ++ fraction) * 10 ^ exponent.toNat)
      (10 ^ (-exponent).toNat)

example : strtod "-12.5e1".toList = ⟨0xC05F400000000000⟩ := by decide +kernel

/-! ## The reader -/

namespace Mongosh

/-- `Reader::skip_space`. -/
def skipSpace (rest : Text) : Text := rest.dropWhile isSpace

/-- `Reader::fail`, in a statement of the given length. -/
def failure (size : ℕ) (what : String) (rest : Text) : TranslatorError :=
  failedToParse ((what ++ " at offset ").toList ++ decimal (size - rest.length))

/-- `Reader::eof`. -/
def eof (rest : Text) : Bool := (skipSpace rest).isEmpty

/-- `Reader::peek`: the next character, and the statement from that character on. -/
def peek (size : ℕ) (rest : Text) : Except TranslatorError (Char × Text) :=
  match skipSpace rest with
  | [] => .error (failure size "unexpected end of statement" [])
  | c :: rest => .ok (c, c :: rest)

/-- `Reader::expect`. -/
def expect (size : ℕ) (c : Char) (rest : Text) : Except TranslatorError Text := do
  let (d, rest) ← peek size rest
  if d ≠ c then .error (failure size ("expected '" ++ c.toString ++ "'") rest)
  else return rest.tail

/-- `Reader::consume`. -/
def consume (c : Char) (rest : Text) : Bool × Text :=
  match skipSpace rest with
  | [] => (false, [])
  | d :: rest => if d = c then (true, rest) else (false, d :: rest)

/-- A character of a JavaScript identifier. -/
def isNameChar (c : Char) : Bool := c.isAlphanum || c = '_' || c = '$'

/-- `Reader::identifier`. -/
def identifier (size : ℕ) (rest : Text) : Except TranslatorError (Text × Text) :=
  let rest := skipSpace rest
  let name := rest.takeWhile isNameChar
  if name.isEmpty then .error (failure size "expected a name" rest)
  else .ok (name, rest.dropWhile isNameChar)

/-- What an escaped character stands for. -/
def unescape : Char → Char
  | 'n' => '\n'
  | 't' => '\t'
  | 'r' => '\r'
  | c => c

/-- The loop of `Reader::quoted_string`. -/
def quotedBody (size : ℕ) (quote : Char) : Text → Except TranslatorError (Text × Text)
  | [] => .error (failure size "unterminated string" [])
  | c :: rest =>
    if c = quote then .ok ([], rest)
    else if c ≠ '\\' then do
      let (out, rest) ← quotedBody size quote rest
      return (c :: out, rest)
    else match rest with
      | [] => .error (failure size "unterminated escape" [])
      | escaped :: rest => do
        let (out, rest) ← quotedBody size quote rest
        return (unescape escaped :: out, rest)

/-- A character that quotes. -/
def isQuote (c : Char) : Bool := c = '\'' || c = '"'

/-- `Reader::quoted_string`. -/
def quotedString (size : ℕ) (rest : Text) : Except TranslatorError (Text × Text) := do
  let (quote, rest) ← peek size rest
  if !isQuote quote then .error (failure size "expected a quoted string" rest)
  else quotedBody size quote rest.tail

/-- A character that the loop of `Reader::number` takes. -/
def isNumberChar (c : Char) : Bool :=
  c.isDigit || c = '.' || c = 'e' || c = 'E' || c = '+' || c = '-'

/-- The characters that make a number a double. -/
def isRealChar (c : Char) : Bool := c = '.' || c = 'e' || c = 'E'

/-- `Reader::number`: an integer stays an integer. -/
def number (rest : Text) : Value × Text :=
  let rest := skipSpace rest
  let sign := rest.take (if rest.head? = some '-' ∨ rest.head? = some '+' then 1 else 0)
  let body := (rest.drop sign.length).takeWhile isNumberChar
  let literal := sign ++ body
  let v := if body.any isRealChar then Value.double (strtod literal)
    else Value.int64 (strtoll literal)
  (v, rest.drop literal.length)

/-- A hexadecimal digit. -/
def isHexDigit (c : Char) : Bool :=
  c.isDigit || ('a' ≤ c && c ≤ 'f') || ('A' ≤ c && c ≤ 'F')

/-- The value of a hexadecimal digit. -/
def hexValue (c : Char) : ℕ :=
  if c.isDigit then c.toNat - '0'.toNat
  else if 'a' ≤ c then c.toNat - 'a'.toNat + 10
  else c.toNat - 'A'.toNat + 10

/-- `bson_oid_is_valid`: a trailing NUL is allowed. -/
def oidIsValid (hex : Text) : Bool :=
  (hex.length = 24 || (hex.length = 25 && hex.getLast? = some (Char.ofNat 0))) &&
    (hex.take 24).all isHexDigit

/-- `bson_oid_init_from_string`. -/
def oidOfString (hex : Text) : BitVec 96 :=
  BitVec.ofNat 96 ((hex.take 24).foldl (fun n c => 16 * n + hexValue c) 0)

/-- `Reader::word`: the JSON literals, and the constructor of ObjectIds. -/
def word (size : ℕ) (rest : Text) : Except TranslatorError (Value × Text) := do
  let (name, rest) ← identifier size rest
  if name = "true".toList ∨ name = "false".toList then
    return (.bool (decide (name = "true".toList)), rest)
  else if name = "null".toList then return (.null, rest)
  else if name = "ObjectId".toList then
    let rest ← expect size '(' rest
    let (hex, rest) ← quotedString size rest
    let rest ← expect size ')' rest
    if !oidIsValid hex then
      .error (badValue ("'".toList ++ hex ++ "' is not a valid ObjectId".toList))
    else return (.oid (oidOfString hex), rest)
  else .error (notImplemented ("unsupported value '".toList ++ name ++ "'".toList))

/-- The key of a field of an object. -/
def key (size : ℕ) (rest : Text) : Except TranslatorError (Text × Text) := do
  let (c, rest) ← peek size (skipSpace rest)
  if isQuote c then quotedString size rest else identifier size rest

/-- The calls are nested deeper than the statement is long.  A statement has fuel for two nested
calls at every character, and of two nested calls one takes a character. -/
def tooDeep (size : ℕ) (rest : Text) : TranslatorError :=
  failure size "unexpected end of statement" rest

mutual

/-- `Reader::value`. -/
def value (size : ℕ) : ℕ → Text → Except TranslatorError (Value × Text)
  | 0, rest => .error (tooDeep size rest)
  | fuel + 1, rest => do
    let (c, rest) ← peek size rest
    if c = '{' then
      let rest ← expect size '{' rest
      let (closed, rest) := consume '}' rest
      if closed then return (.document [], rest)
      else
        let (fields, rest) ← fieldsOf size fuel rest
        return (.document fields, rest)
    else if c = '[' then
      let rest ← expect size '[' rest
      let (closed, rest) := consume ']' rest
      if closed then return (.array [], rest)
      else
        let (elements, rest) ← elementsOf size fuel ']' rest
        return (.array (makeArray elements), rest)
    else if isQuote c then
      let (s, rest) ← quotedString size rest
      return (.utf8 s, rest)
    else if c = '-' || c.isDigit then return number rest
    else word size rest

/-- The loop of `Reader::object`. -/
def fieldsOf (size : ℕ) : ℕ → Text → Except TranslatorError (Doc × Text)
  | 0, rest => .error (tooDeep size rest)
  | fuel + 1, rest => do
    let (name, rest) ← key size rest
    let rest ← expect size ':' rest
    let (v, rest) ← value size fuel rest
    let (more, rest) := consume ',' rest
    if more then
      let (fields, rest) ← fieldsOf size fuel rest
      return ((name, v) :: fields, rest)
    else return ([(name, v)], ← expect size '}' rest)

/-- The loop of `Reader::array`, and that over the arguments of a call. -/
def elementsOf (size : ℕ) : ℕ → Char → Text → Except TranslatorError (List Value × Text)
  | 0, _, rest => .error (tooDeep size rest)
  | fuel + 1, close, rest => do
    let (v, rest) ← value size fuel rest
    let (more, rest) := consume ',' rest
    if more then
      let (elements, rest) ← elementsOf size fuel close rest
      return (v :: elements, rest)
    else return ([v], ← expect size close rest)

end

end Mongosh

/-! ## Calls and commands -/

/-- `ShellCall`. -/
structure ShellCall where
  /-- The collection. -/
  collection : Text
  /-- The verb. -/
  verb : Text
  /-- The arguments. -/
  args : List Value
deriving DecidableEq

open Mongosh in
/-- `parse_shell_call`. -/
def parseShellCall (statement : Text) : Except TranslatorError ShellCall := do
  let size := statement.length
  let (db, rest) ← identifier size statement
  if db ≠ "db".toList then .error (failure size "a statement must start with 'db.'" rest)
  let rest ← expect size '.' rest
  let (collection, rest) ← identifier size rest
  let rest ← expect size '.' rest
  let (verb, rest) ← identifier size rest
  let rest ← expect size '(' rest
  let (closed, rest) := consume ')' rest
  let (args, rest) ← if closed then pure ([], rest)
    else elementsOf size (2 * size + 2) ')' rest
  let (_, rest) := consume ';' rest
  if !eof rest then .error (failure size "trailing input after the statement" (skipSpace rest))
  return ⟨collection, verb, args⟩

/-- `ShellResult`: what the caller makes of the reply. -/
inductive ShellResult where
  | documents
  | firstDocument
  | count
  | reply
deriving DecidableEq

/-- `ShellCommand`. -/
structure ShellCommand where
  /-- The command document. -/
  command : Doc
  /-- What the caller makes of the reply. -/
  result : ShellResult

/-- `argument`. -/
def ShellCall.argument (call : ShellCall) (index : ℕ) : Option Value := call.args[index]?

/-- `append_document_argument`: an omitted argument is an empty document. -/
def documentArgument (call : ShellCall) (name : String) (index : ℕ) :
    Except TranslatorError (Text × Value) :=
  match call.argument index with
  | none => .ok (name.toList, .document [])
  | some (.document fields) => .ok (name.toList, .document fields)
  | some _ => .error (typeMismatch ("argument ".toList ++ decimal (index + 1) ++ " of ".toList ++
      call.verb ++ "() must be a document".toList))

/-- `append_singleton_array`. -/
def singletonArray (element : Doc) : Value := .array [("0".toList, .document element)]

/-- `write_statement`. -/
def writeStatement (call : ShellCall) (multi : Bool) : Except TranslatorError Doc := do
  let q ← documentArgument call "q" 0
  match call.argument 1 with
  | some (.document u) => return [q, ("u".toList, .document u), ("multi".toList, .bool multi)]
  | _ => .error (typeMismatch (call.verb ++ "() needs an update document".toList))

/-- `delete_statement`. -/
def deleteStatement (call : ShellCall) (limit : Int32) : Except TranslatorError Doc := do
  return [← documentArgument call "q" 0, ("limit".toList, .int32 limit)]

/-- `append_projection`. -/
def projectionArgument (call : ShellCall) : Except TranslatorError Doc :=
  match call.argument 1 with
  | none => .ok []
  | some (.document fields) => .ok [("projection".toList, .document fields)]
  | some _ => .error (typeMismatch ("the second argument of ".toList ++ call.verb ++
      "() must be a projection document".toList))

/-- `reject_extra_arguments`. -/
def rejectExtraArguments (call : ShellCall) (allowed : ℕ) : Except TranslatorError Unit :=
  if allowed < call.args.length then
    .error (notImplemented (call.verb ++ "() takes at most ".toList ++ decimal allowed ++
      " argument(s) here".toList))
  else .ok ()

/-- The field `documents` of an insert. -/
def insertedDocuments (call : ShellCall) : Except TranslatorError Value :=
  if call.verb = "insertOne".toList then
    match call.argument 0 with
    | some (.document fields) => .ok (singletonArray fields)
    | _ => .error (typeMismatch "insertOne() needs a document".toList)
  else
    match call.argument 0 with
    | some (.array elements) => .ok (.array elements)
    | _ => .error (typeMismatch "insertMany() needs an array of documents".toList)

/-- `build_shell_command`. -/
def buildShellCommand (call : ShellCall) : Except TranslatorError ShellCommand := do
  let collection : Value := .utf8 call.collection
  if call.verb = "find".toList ∨ call.verb = "findOne".toList then
    rejectExtraArguments call 2
    let filter ← documentArgument call "filter" 0
    let projection ← projectionArgument call
    let command := [("find".toList, collection), filter] ++ projection
    if call.verb = "findOne".toList then
      return ⟨command ++ [("limit".toList, .int64 1)], .firstDocument⟩
    else return ⟨command, .documents⟩
  else if call.verb = "insertOne".toList ∨ call.verb = "insertMany".toList then
    rejectExtraArguments call 1
    let documents ← insertedDocuments call
    return ⟨[("insert".toList, collection), ("documents".toList, documents)], .reply⟩
  else if call.verb = "updateOne".toList ∨ call.verb = "updateMany".toList ∨
      call.verb = "replaceOne".toList then
    rejectExtraArguments call 2
    let statement ← writeStatement call (decide (call.verb = "updateMany".toList))
    return ⟨[("update".toList, collection), ("updates".toList, singletonArray statement)], .reply⟩
  else if call.verb = "deleteOne".toList ∨ call.verb = "deleteMany".toList then
    rejectExtraArguments call 1
    let statement ← deleteStatement call (if call.verb = "deleteOne".toList then 1 else 0)
    return ⟨[("delete".toList, collection), ("deletes".toList, singletonArray statement)], .reply⟩
  else if call.verb = "countDocuments".toList ∨ call.verb = "count".toList then
    rejectExtraArguments call 1
    let query ← documentArgument call "query" 0
    return ⟨[("count".toList, collection), query], .count⟩
  else if call.verb = "aggregate".toList then
    rejectExtraArguments call 1
    match call.argument 0 with
    | some (.array stages) =>
      return ⟨[("aggregate".toList, collection), ("pipeline".toList, .array stages),
        ("cursor".toList, .document [])], .documents⟩
    | _ => .error (typeMismatch "aggregate() needs a pipeline array".toList)
  else .error (notImplemented ("unsupported verb '".toList ++ call.verb ++ "()'".toList))

example : parseShellCall "db.items.insertOne(\x7b_id: 'a', qty: [1, -2.5]\x7d);".toList =
    .ok ⟨"items".toList, "insertOne".toList, [.document [("_id".toList, .utf8 "a".toList),
      ("qty".toList,
        .array [("0".toList, .int64 1), ("1".toList, .double ⟨0xC004000000000000⟩)])]]⟩ := by
  decide +kernel

end Chimera

import Chimera.Oplog.History
import Chimera.Translator.Bson

/-!
# Aggregation pipelines

How a pipeline is taken apart: its stages, the leading `$match` stages that become one condition,
and the options of a `$changeStream` stage.
-/

namespace Chimera

/-! ## Stages -/

/-- `stage_operator`. -/
def stageOperator : Doc → Except TranslatorError (Text × Value)
  | [field] => .ok field
  | _ => .error (failedToParse
    "a pipeline stage specification object must contain exactly one field".toList)

/-- `pipeline_stages`. -/
def pipelineStages : Doc → Except TranslatorError (List Doc)
  | [] => .ok []
  | (_, .document stage) :: rest => return stage :: (← pipelineStages rest)
  | _ => .error (typeMismatch "each element of the aggregate pipeline must be a document".toList)

/-- The leading `$match` stages, and the stages after them. -/
def leadingMatches : List Doc → Except TranslatorError (List Doc × List Doc)
  | [] => .ok ([], [])
  | stage :: stages => do
    let (name, body) ← stageOperator stage
    if name ≠ "$match".toList then return ([], stage :: stages)
    match body with
    | .document query =>
      let (found, rest) ← leadingMatches stages
      return (query :: found, rest)
    | _ => throw (typeMismatch "$match takes a query document".toList)

/-- `split_pipeline`: the condition of the leading `$match` stages, and the stages after them. -/
def splitPipeline (stages : List Doc) : Except TranslatorError (Doc × List Doc) := do
  let (found, rest) ← leadingMatches stages
  match found with
  | [] => return ([], rest)
  | [query] => return (query, rest)
  | queries => return ([("$and".toList, .array (makeArray (queries.map .document)))], rest)

/-! ## Change streams -/

/-- Where every refusal points. -/
def planNote : Text := " (see changestream-plan.md)".toList

/-- A resume token that is refused. -/
def rejectToken (why : Text) : TranslatorError :=
  badValue ("resume token is not valid: ".toList ++ why ++ planNote)

/-- `is_lower_hex`. -/
def isLowerHex (s : Text) : Bool :=
  s.all fun c => ('0' ≤ c && c ≤ '9') || ('a' ≤ c && c ≤ 'f')

/-- The value of a text of hexadecimal digits. -/
def hexValue (s : Text) : ℕ :=
  s.foldl (fun n c => 16 * n + if c ≤ '9' then c.toNat - 48 else c.toNat - 87) 0

/-- `decode_resume_token`. -/
def decodeResumeToken (token : Doc) : Except TranslatorError ℕ :=
  match findField token "_data".toList with
  | none => .error (rejectToken "no '_data' field".toList)
  | some (.utf8 hex) =>
    if hex.length ≠ 16 then .error (rejectToken "'_data' must be 16 hex digits".toList)
    else if !isLowerHex hex then .error (rejectToken "'_data' must be lowercase hex".toList)
    else .ok (hexValue hex)
  | some _ => .error (rejectToken "'_data' is not a string".toList)

/-- The name of an option, in a message. -/
def optionText (field : Text) (rest : String) : Text :=
  "$changeStream option '".toList ++ field ++ "'".toList ++ rest.toList

/-- `reject_if_requested`. -/
def rejectIfRequested (field : Text) : Value → Except TranslatorError Unit
  | .bool false => .ok ()
  | .bool true => .error (notImplemented (optionText field " is not supported" ++ planNote))
  | _ => .error (typeMismatch (optionText field " must be a boolean"))

/-- The modes of `fullDocument`. -/
def fullDocumentModes : List Text :=
  ["default", "updateLookup", "whenAvailable", "required"].map String.toList

/-- The option `fullDocument`. -/
def readFullDocument : Value → Except TranslatorError Unit
  | .utf8 mode =>
    if fullDocumentModes.contains mode then .ok ()
    else .error (badValue
      ("unknown $changeStream fullDocument mode '".toList ++ mode ++ "'".toList))
  | _ => .error (typeMismatch (optionText "fullDocument".toList " must be a string"))

/-- The option `fullDocumentBeforeChange`. -/
def readBeforeChange : Value → Except TranslatorError Unit
  | .utf8 mode =>
    if mode = "off".toList ∨ mode = "whenAvailable".toList then .ok ()
    else if mode = "required".toList then
      .error (notImplemented
        ("$changeStream fullDocumentBeforeChange 'required': pre-images are not stored".toList ++
          planNote))
    else .error (badValue
      ("unknown $changeStream fullDocumentBeforeChange mode '".toList ++ mode ++ "'".toList))
  | _ => .error (typeMismatch (optionText "fullDocumentBeforeChange".toList " must be a string"))

/-- `reject_second_origin`. -/
def rejectSecondOrigin (start : ChangeStreamStart) (field : Text) : Except TranslatorError Unit :=
  if start = .head then .ok ()
  else .error (changeStreamOptionsConflict
    (("$changeStream options 'resumeAfter', 'startAfter' and 'startAtOperationTime' " ++
      "are mutually exclusive; '").toList ++ field ++ "' was given as well".toList))

/-- `parse_change_stream`: where the stream begins, given what the options so far say. -/
def parseChangeStream (start : ChangeStreamStart) : Doc → Except TranslatorError ChangeStreamStart
  | [] => .ok start
  | (key, value) :: rest => do
    if key = "fullDocument".toList then
      readFullDocument value
      parseChangeStream start rest
    else if key = "fullDocumentBeforeChange".toList then
      readBeforeChange value
      parseChangeStream start rest
    else if key = "resumeAfter".toList ∨ key = "startAfter".toList then
      rejectSecondOrigin start key
      match value with
      | .document token => parseChangeStream (.token (← decodeResumeToken token)) rest
      | _ => throw (rejectToken ("'".toList ++ key ++ "' must be a document".toList))
    else if key = "startAtOperationTime".toList then
      rejectSecondOrigin start key
      match value with
      | .timestamp t i => parseChangeStream (.operationTime ⟨t.toNat, i.toNat⟩) rest
      | _ => throw (typeMismatch
        "$changeStream option 'startAtOperationTime' must be a Timestamp".toList)
    else if key = "allChangesForCluster".toList ∨ key = "showExpandedEvents".toList then
      rejectIfRequested key value
      parseChangeStream start rest
    else throw (notImplemented
      ("unsupported $changeStream option '".toList ++ key ++ "'".toList ++ planNote))

end Chimera

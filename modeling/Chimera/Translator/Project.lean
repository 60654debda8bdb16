import Chimera.Translator.Bson

/-!
# Projections

`project` keeps or drops the fields a specification names.  The two forms cannot be mixed, but
`_id` may be dropped from either.
-/

namespace Chimera

/-- `is_truthy`. -/
def isTruthy : Value → Except TranslatorError Bool
  | .bool b => .ok b
  | .int32 n => .ok (decide (n.toInt ≠ 0))
  | .int64 n => .ok (decide (n.toInt ≠ 0))
  | .double d => .ok (!d.numEq (Binary64.ofInt 0))
  | _ => .error (notImplemented
    "only inclusion/exclusion projections are supported".toList)

/-- What a specification asks for. -/
structure Projection where
  /-- The paths to keep. -/
  included : List Path
  /-- The paths to drop. -/
  excluded : List Path
  /-- Whether `_id` is dropped. -/
  idExcluded : Bool

/-- Read a specification, field after field. -/
def readProjection (plan : Projection) : Doc → Except TranslatorError Projection
  | [] => .ok plan
  | (name, value) :: spec => do
    let keep ← isTruthy value
    if name = "_id".toList then readProjection { plan with idExcluded := !keep } spec
    else
      let path ← splitPath name
      if keep then readProjection { plan with included := plan.included ++ [path] } spec
      else readProjection { plan with excluded := plan.excluded ++ [path] } spec

/-- `project`. -/
def project (document spec : Doc) : Except TranslatorError Doc :=
  if spec.isEmpty then .ok document
  else do
    let plan ← readProjection ⟨[], [], false⟩ spec
    if !plan.included.isEmpty && !plan.excluded.isEmpty then
      throw (failedToParse "a projection cannot mix inclusion and exclusion".toList)
    if plan.included.isEmpty then
      let out := plan.excluded.foldl pathUnset document
      return if plan.idExcluded then pathUnset out ["_id".toList] else out
    else
      let start : Doc :=
        match plan.idExcluded, findField document "_id".toList with
        | false, some id => [("_id".toList, id)]
        | _, _ => []
      return plan.included.foldl (fun out path =>
        match pathGet document path with
        | some value => pathSet out path value
        | none => out) start

end Chimera

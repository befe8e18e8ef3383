import Nauro.Core.Questions
import Nauro.Core.Store

/-!
# Flagging, resolving and migrating questions
-/

namespace Nauro
namespace Core
namespace Questions

open Foundation

variable {E : Type}

def openQuestionsDefaultBody : Text := "# Open Questions\n".toList

/-- `store.read_file(OPEN_QUESTIONS_MD) or OPEN_QUESTIONS_DEFAULT_BODY`. -/
def openQuestionsText (rt : Runtime E) (store : Store) : Text :=
  match store.readQuestions rt with
  | some content => if content = [] then openQuestionsDefaultBody else content
  | none => openQuestionsDefaultBody

/-! ## Rejections -/

/-- Why a flag or a resolution is rejected. -/
inductive FlagRejection where
  | bothActions
  | neitherAction
  | ambiguousAppend (targets : List Text)
  | alreadyResolved (target : Text) (ref : ResolvedRef)
  | notADecision (resolvedBy : Text)
  | missingDecision (num : Nat)
  | duplicateDecision (num : Nat)
  | notUtf8Decision (num : Nat)
  | malformedDecision (num : Nat)
  | misnumberedDecision (stem : Text) (num : Nat)
  | inactiveDecision (num : Nat)
  | noTargets
  | ambiguousTargets (targets : List Text)
  | missingTargets (targets : List Text)
deriving DecidableEq

/-- `D<num>`. -/
def decisionLabel (num : Nat) : Text :=
  'D' :: Nat.toDigits 10 num

/-- The `reason` of a rejection; one that echoes values through `repr` has none here. -/
def FlagRejection.reason : FlagRejection → Option Text
  | .bothActions => some ("Pass either question (to append a new flag) or resolved_by ".toList ++
      "(to resolve existing entries), not both.".toList)
  | .neitherAction => some ("Pass either question (to append a new flag) or resolved_by ".toList ++
      "(to resolve existing entries).".toList)
  | .alreadyResolved target ref => some (target ++ " is already resolved by ".toList ++
      decisionLabel ref.decisionNum ++ " on ".toList ++ ref.date.isoformat ++
      ". The flag was not appended. ".toList ++
      "Working-copy freshness is bounded by the most recent pull; ".toList ++
      "if a newer flag is intended despite the existing resolution, ".toList ++
      "resend without targets.".toList)
  | .missingDecision num => some ("resolved_by names decision ".toList ++ decisionLabel num ++
      ", which does not exist in the captured decision set.".toList)
  | .duplicateDecision num => some ("resolved_by names decision ".toList ++ decisionLabel num ++
      ", but the captured decision set contains duplicate-number artifacts.".toList)
  | .notUtf8Decision num => some ("Decision ".toList ++ decisionLabel num ++
      " is not valid UTF-8.".toList)
  | .malformedDecision num => some ("Decision ".toList ++ decisionLabel num ++
      " is malformed.".toList)
  | .inactiveDecision num => some ("Decision ".toList ++ decisionLabel num ++
      " is not active.".toList)
  | .noTargets => some "resolved_by requires at least one id in targets to resolve.".toList
  | .ambiguousAppend _ | .notADecision _ | .misnumberedDecision _ _ | .ambiguousTargets _
  | .missingTargets _ => none

/-! ## Resolving against captured documents -/

/-- An exact decision artifact captured by the caller; its bytes as they decode, `none` when
they are not UTF-8. -/
structure ResolutionDecisionDocument where
  stem : Text
  content : Option Text
deriving DecidableEq

/-- `QuestionResolutionOutcome`. -/
inductive ResolutionOutcome where
  | rejected (rejection : FlagRejection)
  | resolved (content : Text) (relocatedIds skippedProseIds resolvedQuestionIds : List Text)

/-- The captured documents with a number; `none` when `int` refuses a stem. -/
def matchingDocuments (rt : Runtime E) (documents : List ResolutionDecisionDocument) (num : Nat) :
    Option (List ResolutionDecisionDocument) :=
  if documents.any fun d => refusesDigits rt.tables d.stem then none
  else some (documents.filter fun d => extractDecisionNumber rt.tables d.stem == some num)

/-- The active decision with number `num` in one document; a parse that fails with anything but a
`ValueError` raises. -/
def activeDecision (rt : Runtime E) (document : ResolutionDecisionDocument) (num : Nat) :
    Option (Except FlagRejection Nat) :=
  match document.content with
  | none => some (.error (.notUtf8Decision num))
  | some content =>
      match parseDecision rt.tables rt.yaml content (decisionFilename document.stem) with
      | .error e => if e.isValueError then some (.error (.malformedDecision num)) else none
      | .ok d =>
          if d.num ≠ num then some (.error (.misnumberedDecision document.stem num))
          else if d.status ≠ .active then some (.error (.inactiveDecision num))
          else some (.ok num)

/-- The number of the active decision that `resolved_by` names; `none` when an exception
escapes. -/
def resolvingDecision (rt : Runtime E) (documents : List ResolutionDecisionDocument)
    (resolvedBy : Text) : Option (Except FlagRejection Nat) :=
  if refusesDigits rt.tables resolvedBy then none
  else
    match extractDecisionNumber rt.tables resolvedBy with
    | none => some (.error (.notADecision resolvedBy))
    | some num =>
        (matchingDocuments rt documents num).bind fun
        | [] => some (.error (.missingDecision num))
        | [document] => activeDecision rt document num
        | _ => some (.error (.duplicateDecision num))

/-- `resolve_question_document`. -/
def resolveQuestionDocument (rt : Runtime E) (content : Text)
    (documents : List ResolutionDecisionDocument) (targets : List Text) (resolvedBy : Text)
    (resolutionDate : Date) : Option ResolutionOutcome :=
  match resolvingDecision rt documents resolvedBy with
  | none => none
  | some (.error rejection) => some (.rejected rejection)
  | some (.ok num) =>
      let requested := uniqueInOrder (targets.map canonicalizeQuestionReference)
      let parsed := OpenQuestionsFile.parse rt.tables content
      let ambiguous := requested.filter parsed.isAmbiguous
      let missing := requested.filter fun id => !(parsed.entries.map QuestionEntry.id).contains id
      if requested = [] then some (.rejected .noTargets)
      else if ambiguous ≠ [] then some (.rejected (.ambiguousTargets ambiguous))
      else if missing ≠ [] then some (.rejected (.missingTargets missing))
      else
        (parsed.resolve requested num resolutionDate).map fun resolved =>
          let normalized := resolved.file.normalize
          .resolved normalized.file.format normalized.relocatedIds normalized.skippedProseIds
            (requested.filter fun id =>
              (parsed.entries.find? fun e => e.id == id).any fun e => e.resolvedBy.isNone)

/-! ## Flagging -/

inductive FlagResult where
  | appended (num : Nat)
  | resolved (relocatedIds skippedProseIds : List Text)
  | rejected (rejection : FlagRejection)

/-- `_short_circuit_if_resolved`: the first target, in the caller's order, that is resolved. -/
def shortCircuitIfResolved (parsed : OpenQuestionsFile) (targets : List Text) :
    Option FlagRejection :=
  let ambiguous := targets.filter parsed.isAmbiguous
  if ambiguous ≠ [] then some (.ambiguousAppend (uniqueInOrder ambiguous))
  else
    targets.findSome? fun target =>
      (parsed.entries.find? fun e => e.id == target).bind fun e =>
        e.resolvedBy.map fun ref => .alreadyResolved target ref

/-- The append of `flag_question`. -/
def appendQuestion (rt : Runtime E) (store : Store) (question : Text) (targets : List Text) :
    Option (FlagResult × Store) :=
  let content := openQuestionsText rt store
  let parsed := OpenQuestionsFile.parse rt.tables content
  match shortCircuitIfResolved parsed targets with
  | some rejection => some (.rejected rejection, store)
  | none =>
      let nextNum := allocateQuestionNumber parsed
      (composeQuestionEntry nextNum question).map fun entry =>
        (.appended nextNum, store.writeQuestions (insertQuestionEntry content entry))

/-- `_resolve`: capture the store's inputs, resolve, and persist the changed text. -/
def resolveFlagged (rt : Runtime E) (store : Store) (targets : List Text) (resolvedBy : Text)
    (today : Date) : Option (FlagResult × Store) :=
  let documents := store.listDecisions.filterMap fun stem =>
    (store.readDecision rt stem).map fun content => ⟨stem, some content⟩
  (resolveQuestionDocument rt (openQuestionsText rt store) documents targets resolvedBy today).map
    fun
    | .rejected rejection => (.rejected rejection, store)
    | .resolved content relocatedIds skippedProseIds _ =>
        (.resolved relocatedIds skippedProseIds, store.writeQuestions content)

/-- `flag_question`. -/
def flagQuestion (rt : Runtime E) (store : Store) (question : Option Text) (targets : List Text)
    (resolvedBy : Option Text) (today : Date) : Option (FlagResult × Store) :=
  let canonicalTargets := targets.map canonicalizeQuestionReference
  let asked := question.filter fun q => strip q ≠ []
  match resolvedBy, asked with
  | some _, some _ => some (.rejected .bothActions, store)
  | some ref, none => resolveFlagged rt store canonicalTargets ref today
  | none, none => some (.rejected .neitherAction, store)
  | none, some q => appendQuestion rt store q canonicalTargets

/-! ## Migrating -/

/-- The `questions migrate` command; a dry run prints the renames and writes nothing. -/
def migrateQuestions (rt : Runtime E) (store : Store) (dryRun : Bool) :
    Option (List MigrationRename × Store) :=
  (OpenQuestionsFile.parse rt.tables (openQuestionsText rt store)).migrate.map fun result =>
    if result.renames = [] || dryRun then (result.renames, store)
    else (result.renames, store.writeQuestions result.file.format)

end Questions
end Core
end Nauro

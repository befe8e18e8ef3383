import Nauro.Core.Frontmatter
import Nauro.Core.Parsing
import Nauro.Core.RejectedSection

/-!
# Decisions: the model, its validators, the parser and the formatter
-/

namespace Nauro
namespace Core

open Foundation

/-! ## Enumerations -/

/-- A string-valued enumeration. -/
class Token (α : Type) where
  members : List α
  value : α → Text
  mem_members : ∀ a, a ∈ members
  value_injective : Function.Injective value

/-- The member with a given value. -/
def Token.ofText? (α : Type) [Token α] (text : Text) : Option α :=
  (Token.members : List α).find? fun a => Token.value a == text

theorem Token.ofText?_value {α : Type} [Token α] (a : α) :
    Token.ofText? α (Token.value a) = some a := by
  cases hfind : Token.ofText? α (Token.value a) with
  | none =>
      have hnone := List.find?_eq_none.mp hfind a (Token.mem_members a)
      simp at hnone
  | some b =>
      have hvalue := List.find?_some hfind
      rw [Token.value_injective (beq_iff_eq.mp hvalue)]

inductive DecisionStatus where
  | active
  | superseded
deriving DecidableEq

instance : Token DecisionStatus where
  members := [.active, .superseded]
  value
    | .active => "active".toList
    | .superseded => "superseded".toList
  mem_members a := by cases a <;> simp
  value_injective a b := by cases a <;> cases b <;> decide

inductive DecisionConfidence where
  | high
  | medium
  | low
deriving DecidableEq

instance : Token DecisionConfidence where
  members := [.high, .medium, .low]
  value
    | .high => "high".toList
    | .medium => "medium".toList
    | .low => "low".toList
  mem_members a := by cases a <;> simp
  value_injective a b := by cases a <;> cases b <;> decide

inductive DecisionType where
  | architecture
  | apiDesign
  | infrastructure
  | pattern
  | refactor
  | dataModel
deriving DecidableEq

instance : Token DecisionType where
  members := [.architecture, .apiDesign, .infrastructure, .pattern, .refactor, .dataModel]
  value
    | .architecture => "architecture".toList
    | .apiDesign => "api_design".toList
    | .infrastructure => "infrastructure".toList
    | .pattern => "pattern".toList
    | .refactor => "refactor".toList
    | .dataModel => "data_model".toList
  mem_members a := by cases a <;> simp
  value_injective a b := by cases a <;> cases b <;> decide

inductive Reversibility where
  | easy
  | moderate
  | hard
deriving DecidableEq

instance : Token Reversibility where
  members := [.easy, .moderate, .hard]
  value
    | .easy => "easy".toList
    | .moderate => "moderate".toList
    | .hard => "hard".toList
  mem_members a := by cases a <;> simp
  value_injective a b := by cases a <;> cases b <;> decide

inductive DecisionSource where
  | mcp
  | commit
  | compaction
  | manual
  | import_
deriving DecidableEq

instance : Token DecisionSource where
  members := [.mcp, .commit, .compaction, .manual, .import_]
  value
    | .mcp => "mcp".toList
    | .commit => "commit".toList
    | .compaction => "compaction".toList
    | .manual => "manual".toList
    | .import_ => "import".toList
  mem_members a := by cases a <;> simp
  value_injective a b := by cases a <;> cases b <;> decide

/-! ## The model -/

/-- The fields the model declares; any other frontmatter key is an extra. -/
def fieldNames : List Text :=
  ["date", "confidence", "version", "status", "decision_type", "reversibility", "source",
    "files_affected", "supersedes", "superseded_by", "proposed_by", "approved_by", "approved_at",
    "proposal_id", "proposed_base_commit", "rejected", "num", "title", "rationale", "body",
    "content"].map String.toList

/-- `model_extra`: the unknown frontmatter keys in first-seen order. -/
@[ext] structure ExtraFields (E : Type) where
  entries : List (Text × YamlValue E)
  distinct : (entries.map Prod.fst).Nodup
  unknown : ∀ key ∈ entries.map Prod.fst, key ∉ fieldNames
deriving DecidableEq

/-- A decision file in memory. -/
structure Decision (E : Type) where
  date : Date
  confidence : DecisionConfidence
  version : Nat
  status : DecisionStatus
  decisionType : Option DecisionType
  reversibility : Option Reversibility
  source : Option DecisionSource
  filesAffected : List Text
  supersedes : Option Text
  supersededBy : Option Text
  proposedBy : Option Text
  approvedBy : Option Text
  approvedAt : Option Text
  proposalId : Option Text
  proposedBaseCommit : Option Text
  rejected : List RejectedAlternative
  num : Nat
  title : Text
  rationale : Text
  body : Text
  content : Text
  extra : ExtraFields E
deriving DecidableEq

variable {E : Type}

/-! ## Validators -/

/-- A plain integer string: `70`, not `070` or `070-slug` or `D70`. -/
def isSupersessionRef (v : Text) : Bool :=
  isAsciiDecimal v && (number? v).any fun n => Nat.toDigits 10 n == v

/-- `_PROVENANCE_FIELDS` with their values. -/
def Decision.provenanceFields (d : Decision E) : List (Text × Option Text) :=
  [("proposed_by".toList, d.proposedBy), ("approved_by".toList, d.approvedBy),
    ("approved_at".toList, d.approvedAt), ("proposal_id".toList, d.proposalId),
    ("proposed_base_commit".toList, d.proposedBaseCommit)]

/-- `require_complete_approval_provenance`: the approval fields that are missing. -/
def Decision.missingProvenance (d : Decision E) : List Text :=
  if d.provenanceFields.any fun field => field.2.isSome then
    ((d.provenanceFields.take 4).filter fun field => field.2.isNone).map Prod.fst
  else []

/-- `require_reasons_on_active`: the names of alternatives without a reason. -/
def Decision.reasonless (d : Decision E) : List Text :=
  if d.status = .active then
    (d.rejected.filter fun r => r.reason.isNone).map RejectedAlternative.name
  else []

/-- `superseded_requires_ref`. -/
def Decision.lacksRef (d : Decision E) : Bool :=
  d.status == .superseded && (d.supersededBy.getD []).isEmpty

inductive ValidationError where
  /-- The first field, in declaration order, whose value is refused. -/
  | field (name : Text)
  | partialProvenance (missing : List Text)
  | reasonless (names : List Text)
  | lacksRef
deriving DecidableEq

/-- The field validators on a constructed decision, in declaration order. -/
def Decision.invalidField? (d : Decision E) : Option Text :=
  if d.version = 0 then some "version".toList
  else if !d.supersedes.all isSupersessionRef then some "supersedes".toList
  else if !d.supersededBy.all isSupersessionRef then some "superseded_by".toList
  else if !d.proposedBy.all isUlid then some "proposed_by".toList
  else if !d.approvedBy.all isUlid then some "approved_by".toList
  else if !d.approvedAt.all isUtcTimestamp then some "approved_at".toList
  else if !d.proposalId.all isUlid then some "proposal_id".toList
  else if !d.proposedBaseCommit.all isCommitSha then some "proposed_base_commit".toList
  else none

/-- The validators of the model, in the order they run. -/
def Decision.validate (d : Decision E) : Except ValidationError (Decision E) :=
  match d.invalidField? with
  | some name => .error (.field name)
  | none =>
      if d.missingProvenance ≠ [] then .error (.partialProvenance d.missingProvenance)
      else if d.reasonless ≠ [] then .error (.reasonless d.reasonless)
      else if d.lacksRef then .error .lacksRef
      else .ok d

/-- What a constructed decision satisfies. -/
def Decision.Valid (d : Decision E) : Prop :=
  d.invalidField? = none ∧ d.missingProvenance = [] ∧ d.reasonless = [] ∧ d.lacksRef = false

instance (d : Decision E) : Decidable d.Valid :=
  inferInstanceAs (Decidable (_ ∧ _ ∧ _ ∧ _))

theorem Decision.validate_eq_ok_iff {d d' : Decision E} :
    d.validate = .ok d' ↔ d' = d ∧ d.Valid := by
  unfold Decision.validate Decision.Valid
  cases d.invalidField? with
  | some name => simp
  | none =>
      by_cases hprovenance : d.missingProvenance = []
      · by_cases hreasons : d.reasonless = []
        · by_cases href : d.lacksRef = true
          · simp [hprovenance, hreasons, href]
          · simp [hprovenance, hreasons, href, eq_comm]
        · simp [hprovenance, hreasons]
      · simp [hprovenance]

/-! ## Frontmatter -/

def optionalText (value : Option Text) : YamlValue E :=
  value.elim .null .text

def optionalToken {α : Type} [Token α] (value : Option α) : YamlValue E :=
  optionalText (value.map Token.value)

/-- The entries of the fields that are set. -/
def setEntries (fields : List (Text × Option Text)) : List (Text × YamlValue E) :=
  fields.filterMap fun field => field.2.map fun value => (field.1, .text value)

/-- The known keys in canonical order; an unset provenance key is left out. -/
def Decision.knownEntries (d : Decision E) : List (Text × YamlValue E) :=
  [("date".toList, .date d.date),
    ("version".toList, .int d.version),
    ("status".toList, .text (Token.value d.status)),
    ("confidence".toList, .text (Token.value d.confidence)),
    ("decision_type".toList, optionalToken d.decisionType),
    ("reversibility".toList, optionalToken d.reversibility),
    ("source".toList, optionalToken d.source),
    ("files_affected".toList, .texts d.filesAffected),
    ("supersedes".toList, optionalText d.supersedes),
    ("superseded_by".toList, optionalText d.supersededBy)] ++ setEntries d.provenanceFields

/-- `_FRONTMATTER_ORDER`. -/
def frontmatterOrder : List Text :=
  ["date", "version", "status", "confidence", "decision_type", "reversibility", "source",
    "files_affected", "supersedes", "superseded_by", "proposed_by", "approved_by", "approved_at",
    "proposal_id", "proposed_base_commit"].map String.toList

theorem setEntries_sublist (fields : List (Text × Option Text)) :
    ((setEntries fields : List (Text × YamlValue E)).map Prod.fst).Sublist
      (fields.map Prod.fst) := by
  induction fields with
  | nil => exact List.Sublist.slnil
  | cons field fields ih =>
      rcases field with ⟨key, value⟩
      cases value with
      | none => exact ih.cons _
      | some value => exact ih.cons_cons _

theorem Decision.knownEntries_sublist (d : Decision E) :
    (d.knownEntries.map Prod.fst).Sublist frontmatterOrder := by
  rw [Decision.knownEntries, List.map_append]
  exact (List.Sublist.refl _).append (setEntries_sublist _)

theorem frontmatterOrder_nodup : frontmatterOrder.Nodup := by decide

theorem mem_fieldNames_of_frontmatterOrder {key : Text} (h : key ∈ frontmatterOrder) :
    key ∈ fieldNames := by
  revert key
  decide

/-- The mapping that `format_decision` dumps. -/
def Decision.frontmatter (d : Decision E) : Frontmatter E where
  entries := d.knownEntries ++ d.extra.entries
  distinct := by
    rw [List.map_append, List.nodup_append]
    refine ⟨frontmatterOrder_nodup.sublist d.knownEntries_sublist, d.extra.distinct, ?_⟩
    intro key hknown other hextra heq
    subst heq
    exact d.extra.unknown key hextra
      (mem_fieldNames_of_frontmatterOrder (d.knownEntries_sublist.subset hknown))

/-! ## The parser -/

inductive ParseError where
  | frontmatter (error : FrontmatterError)
  | invalidYaml
  | yamlRaised (isValueError : Bool)
  | notMapping
  | oddKeys
  | missingH1
  | missingDecision
  /-- A frontmatter key that names a derived field. -/
  | keywordClash (key : Text)
  | validation (error : ValidationError)
deriving DecidableEq

/-- The message a parse error carries, where the parser itself words it. -/
def ParseError.message (filename : Text) : ParseError → Option Text
  | .frontmatter .missing => some (filename ++
      ": missing YAML frontmatter (decisions v2 requires a leading `---` fence)".toList)
  | .frontmatter .unterminated => some (filename ++ ": unterminated YAML frontmatter".toList)
  | .frontmatter .tooLong => some (filename ++
      ": YAML frontmatter exceeds 65536 characters".toList)
  | .missingH1 => some (filename ++ ": missing or malformed H1 ".toList ++
      "(expected `# NNN — Title` with em-dash separator)".toList)
  | .missingDecision => some (filename ++ ": missing `## Decision` section ".toList ++
      "(the parser requires a `## Decision` heading and does not accept ".toList ++
      "the legacy `## Rationale` heading)".toList)
  | _ => none

/-- Whether the exception is a `ValueError`; keyword arguments that cannot be passed are a
`TypeError`. -/
def ParseError.isValueError : ParseError → Bool
  | .yamlRaised isValueError => isValueError
  | .oddKeys | .keywordClash _ => false
  | _ => true

/-- The keyword arguments that the parser passes itself. -/
def derivedFields : List Text :=
  ["rejected", "num", "title", "rationale", "body", "content"].map String.toList

/-- A field that may be absent or null. -/
def readOptional {α : Type} (m : Frontmatter E) (key : Text) (read : YamlValue E → Option α) :
    Option (Option α) :=
  match m.get? key with
  | none => some none
  | some .null => some none
  | some value => (read value).map some

/-- A field with a default for an absent key. -/
def readDefault {α : Type} (m : Frontmatter E) (key : Text) (default : α)
    (read : YamlValue E → Option α) : Option α :=
  match m.get? key with
  | none => some default
  | some value => read value

def asToken {α : Type} [Token α] : YamlValue E → Option α
  | .text t => Token.ofText? α t
  | _ => none

/-- `version: int = Field(default=1, ge=1)`. -/
def asVersion (yaml : Yaml E) (value : YamlValue E) : Option Nat :=
  (yaml.asInt value).bind fun n => if 1 ≤ n then some n.toNat else none

def Frontmatter.extraFields (m : Frontmatter E) : ExtraFields E where
  entries := m.entries.filter fun entry => entry.1 ∉ fieldNames
  distinct := m.distinct.sublist ((List.filter_sublist ..).map Prod.fst)
  unknown := by
    intro key hkey
    obtain ⟨entry, hentry, rfl⟩ := List.mem_map.mp hkey
    simpa using (List.mem_filter.mp hentry).2

/-- A required outcome of one field. -/
def requireField {α : Type} (name : String) (value : Option α) : Except ValidationError α :=
  match value with
  | some a => .ok a
  | none => .error (.field name.toList)

/-- `Decision(**metadata, rejected=..., num=..., title=..., rationale=..., body=..., content=...)`. -/
def Decision.fromMapping (yaml : Yaml E) (m : Frontmatter E)
    (rejected : List RejectedAlternative) (num : Nat) (title rationale body content : Text) :
    Except ValidationError (Decision E) := do
  let date ← requireField "date" ((m.get? "date".toList).bind yaml.asDate)
  let confidence ← requireField "confidence" ((m.get? "confidence".toList).bind asToken)
  let version ← requireField "version" (readDefault m "version".toList 1 (asVersion yaml))
  let status ← requireField "status" (readDefault m "status".toList .active asToken)
  let decisionType ← requireField "decision_type" (readOptional m "decision_type".toList asToken)
  let reversibility ← requireField "reversibility" (readOptional m "reversibility".toList asToken)
  let source ← requireField "source" (readOptional m "source".toList asToken)
  let filesAffected ← requireField "files_affected"
    (readDefault m "files_affected".toList [] yaml.asTexts)
  let supersedes ← requireField "supersedes" (readOptional m "supersedes".toList yaml.asText)
  let supersededBy ← requireField "superseded_by"
    (readOptional m "superseded_by".toList yaml.asText)
  let proposedBy ← requireField "proposed_by" (readOptional m "proposed_by".toList yaml.asText)
  let approvedBy ← requireField "approved_by" (readOptional m "approved_by".toList yaml.asText)
  let approvedAt ← requireField "approved_at" (readOptional m "approved_at".toList yaml.asText)
  let proposalId ← requireField "proposal_id" (readOptional m "proposal_id".toList yaml.asText)
  let proposedBaseCommit ← requireField "proposed_base_commit"
    (readOptional m "proposed_base_commit".toList yaml.asText)
  Decision.validate
    { date, confidence, version, status, decisionType, reversibility, source, filesAffected,
      supersedes, supersededBy, proposedBy, approvedBy, approvedAt, proposalId,
      proposedBaseCommit, rejected, num, title, rationale, body, content,
      extra := m.extraFields }

/-- `metadata`, the loaded block; `none` when it cannot be passed as keyword arguments. -/
def loadMetadata (yaml : Yaml E) (block : Text) : Except ParseError (Option (Frontmatter E)) :=
  match loadFrontmatterMapping yaml block with
  | .invalid => .error .invalidYaml
  | .raised isValueError => .error (.yamlRaised isValueError)
  | .empty => .ok (some ⟨[], List.nodup_nil⟩)
  | .notMapping => .error .notMapping
  | .oddKeys => .ok none
  | .mapping m => .ok (some m)

/-- The rejected section read next to a title and a rationale. -/
def readSections (title : Text) (sections : Text × Option Text) :
    Except ParseError (Text × Text × List RejectedAlternative) :=
  match parseRejectedSubsections (sections.2.getD []) with
  | none => .error (.validation (.field "name".toList))
  | some rejected => .ok (title, sections.1, rejected)

/-- The body read into title, rationale and rejected alternatives. -/
def parseBody (body : Text) : Except ParseError (Text × Text × List RejectedAlternative) :=
  match searchH1 body with
  | none => .error .missingH1
  | some title =>
      match splitDecisionBody body with
      | none => .error .missingDecision
      | some sections => readSections title sections

/-- `parse_decision`. -/
def parseDecision (tables : UnicodeTables) (yaml : Yaml E) (text filename : Text) :
    Except ParseError (Decision E) := do
  let (block, body) ← (splitFrontmatter text).mapError ParseError.frontmatter
  let metadata ← loadMetadata yaml block
  let (title, rationale, rejected) ← parseBody body
  match metadata with
  | none => .error .oddKeys
  | some m =>
      match derivedFields.find? fun key => (m.get? key).isSome with
      | some key => .error (.keywordClash key)
      | none =>
          (Decision.fromMapping yaml m rejected ((extractDecisionNumber tables filename).getD 0)
            title rationale body text).mapError ParseError.validation

/-! ## The formatter -/

/-- The `## Rejected Alternatives` section, when there is an alternative. -/
def formatRejected (rejected : List RejectedAlternative) : List Text :=
  if rejected = [] then []
  else ["\n\n".toList.intercalate (rejectedAnchor :: rejected.flatMap alternativeParts)]

/-- `format_decision`; `none` when a passed-through value cannot be dumped. -/
def formatDecision (yaml : Yaml E) (d : Decision E) : Option Text :=
  if d.extra.entries.all fun entry =>
      match entry.2 with
      | .other e => yaml.serialises e
      | _ => true then
    let sections :=
      [openFence ++ yaml.dump d.frontmatter ++ fence,
        "# ".toList ++ padNumber 3 d.num ++ " — ".toList ++ d.title,
        decisionAnchor ++ "\n\n".toList ++ strip d.rationale] ++ formatRejected d.rejected
    some ("\n\n".toList.intercalate sections ++ ['\n'])
  else none

end Core
end Nauro

import Nauro.Core.Frontmatter
import Nauro.Core.Provenance

/-!
# The generated guidance file

`AGENTS.md` is generated at the root of every repository of a project. Two of its sections belong
to the user; they are found again by their header lines and written back.
-/

namespace Nauro
namespace Client
namespace AgentsMd

open Foundation Nauro.Core

/-! ## Texts -/

def manualSectionHeader : Text := "# Manual".toList
def skillsSectionHeader : Text := "## Skills".toList
def footerMarker : Text := "*Generated by [Nauro](".toList
def headerMarker : Text := "<!-- Auto-generated by Nauro (".toList

/-- `_PROPOSAL_ADMISSION`. -/
def proposalAdmission : Text :=
  ("Use `propose_decision` for a consequential future choice another task could " ++
    "get wrong without this judgment, or material evidence about an existing decision. " ++
    "State when it matters again and the consequence. Apply existing judgment without " ++
    "filing routine execution. Easy reversibility or code coverage does not disqualify " ++
    "a rule; honor explicit owner requests.").toList

def approvalBeforePropose : Text :=
  ("Present the complete add, update, or supersede draft as readable " ++
    "Markdown with related decisions, end the turn, and get explicit user " ++
    "approval from the user's next reply; the call commits immediately after " ++
    "validation.").toList

def approvalBeforeStateWrite : Text :=
  ("Show the exact replacement text, end the turn, and get explicit user " ++
    "approval from the user's next reply. If no user can reply, write no " ++
    "state; return the proposed text instead.").toList

def protocolDigest : Text :=
  ("Nauro carries human-ratified project judgment across agent sessions: " ++
    "surface relevant prior judgment before choosing an approach, and record " ++
    "only decisions the user approves.\n" ++
    "\n" ++
    "Before responding to any technical change request - architecture, " ++
    "library choice, API design, data model, infrastructure, a vendor swap - " ++
    "call `check_decision` with the proposal, even when you intend to push " ++
    "back or refuse. It surfaces related decisions with their triage headers " ++
    "inline, without judging conflicts; before proposing, read the ones you " ++
    "reason about in full with `get_decision`.\n" ++
    "\n").toList ++
  proposalAdmission ++ "\n\n".toList ++
  "Before `propose_decision` (or `nauro propose-decision`): ".toList ++ approvalBeforePropose ++
  "\n\n".toList ++
  "Before `update_state` (or `nauro update-state`): ".toList ++ approvalBeforeStateWrite ++
  "\n".toList

/-- What a session without the tools is told. -/
def noToolsNotice : Text :=
  ("If you have no Nauro MCP tools in this session (no `mcp__nauro__*` tools " ++
    "available), tell the user this repository uses Nauro to share project decisions " ++
    "across agents and suggest they run 'nauro status'. If the 'nauro' command is not " ++
    "installed, install it with 'uv tool install nauro'.\n").toList

def evidenceRiderSection : Text :=
  ("## When to record outcome evidence\n" ++
    "\n" ++
    "When the world tests an existing decision, propose an update rider on it: " ++
    "an exception is approved against it, an incident traces back to it, it " ++
    "survives a real test, or it stops mattering. Open the rider with a dated " ++
    "evidence marker, `*Evidence (<type>, <date>):*`, with types exception, " ++
    "held, pain, and obsolete. The rider goes through the same draft-and-approve " ++
    "flow as any proposal.\n").toList

/-- The notice above the payload when no generation provides another. -/
def payloadNotice : Text :=
  ("This file embeds the project's L0 context payload, byte-identical to " ++
    "`get_context` at L0: when AGENTS.md is already in context, skip the " ++
    "L0 call and use L1/L2 or `diff_since_last_session` for deeper or " ++
    "fresher context.\n").toList

/-- The tool pointer above the user's sections. -/
def toolsSection : Text :=
  ("## Nauro MCP Tools\n\n" ++
    "Nauro's tools are available over MCP; without MCP, the same tools " ++
    "work as `nauro <tool-name>` shell commands (underscores become " ++
    "hyphens, e.g. `nauro check-decision`). Run `nauro --help` for the " ++
    "full list.\n\n" ++
    "**Keep public-facing artifacts public.** Paraphrase Nauro rationale instead of\n" ++
    "citing raw decision or question ids. Internal planning and review may cite ids.\n").toList

def footer : Text :=
  ("---\n" ++
    "*Generated by [Nauro](https://nauro.ai) from human-ratified project " ++
    "judgment shared with every connected AI agent.*\n").toList

/-! ## Generating -/

/-- The time of a regeneration. -/
structure Moment where
  date : Date
  hour : Fin 24
  minute : Fin 60
  second : Fin 60
deriving DecidableEq

/-- `strftime("%Y-%m-%dT%H:%M:%SZ")`. -/
def Moment.stamp (now : Moment) : Text :=
  now.date.isoformat ++ 'T' :: padNumber 2 now.hour ++ ':' :: padNumber 2 now.minute ++
    ':' :: padNumber 2 now.second ++ ['Z']

/-- What a project contributes to the file. -/
structure Guidance where
  projectName : Text
  l0Payload : Text
  projectId : Option Text
  generationContext : Option Text
deriving DecidableEq

inductive UserSection where
  | skills
  | manual
deriving DecidableEq

/-- The user's sections of a file; `order` has those that are present. -/
structure PreservedSections where
  skills : Option Text
  manual : Option Text
  order : List UserSection
deriving DecidableEq

def titlePart (now : Moment) : Text :=
  "# AGENTS.md\n<!-- Auto-generated by Nauro (".toList ++ now.stamp ++
    ("). -->\n<!-- Do not edit above the Manual section -" ++
      " changes will be overwritten on next `nauro sync`. -->\n").toList

def projectPart (g : Guidance) : Text :=
  "## Project: ".toList ++ g.projectName ++ "\n\n".toList ++ g.l0Payload ++ ['\n']

/-- `project_id_line`. -/
def projectIdLine (g : Guidance) : Text :=
  match g.projectId with
  | some id => if id = [] then [] else
      "Pass `project_id: ".toList ++ id ++ "` on calls that accept it. ".toList
  | none => []

def storePart (g : Guidance) : Text :=
  ("## Nauro store for this repo\n\n" ++
    "This repo's Nauro store is served locally. Use the `mcp__nauro__*` tools " ++
    "(the local stdio server). ").toList ++
  projectIdLine g ++
  ("If a cloud Nauro connector (e.g. `mcp__claude_ai_Nauro__*`) is also mounted, " ++
    "prefer the local `mcp__nauro__*` tools for this repo - they read the working " ++
    "copy on this machine.\n\n" ++
    "Connector naming: if you use the bundled `@nauro-*` Claude Code subagents, " ++
    "name the cloud connector exactly `Nauro`, because those subagents reference " ++
    "the `mcp__claude_ai_Nauro__*` tools by that name and a different name leaves " ++
    "them unresolved. Other tools (Codex, Cursor) can use any connector name, as " ++
    "long as it differs from a local stdio `nauro` entry.\n").toList

/-- `generation_context or ...`. -/
def contextPart (g : Guidance) : Text :=
  match g.generationContext with
  | some notice => if notice = [] then payloadNotice else notice
  | none => payloadNotice

/-- The parts above the user's sections. -/
def generatedParts (now : Moment) (g : Guidance) : List Text :=
  [titlePart now, protocolDigest, noToolsNotice, evidenceRiderSection, contextPart g,
    projectPart g, storePart g, toolsSection]

/-- `text.rstrip("\n")`. -/
def rstripNewlines (text : Text) : Text :=
  text.rdropWhile (· == '\n')

/-- The part of one user section; the skills are left out when there are none. -/
def sectionPart (manual skills : Option Text) : UserSection → Option Text
  | .skills => skills.map fun s => skillsSectionHeader ++ "\n\n".toList ++ rstripNewlines s ++ ['\n']
  | .manual =>
      some (manualSectionHeader ++ ['\n'] ++
        match manual with
        | some m => if m = [] then [] else '\n' :: rstripNewlines m ++ ['\n']
        | none => [])

/-- `_default_section_order`. -/
def defaultSectionOrder (hasSkills : Bool) : List UserSection :=
  (if hasSkills then [.skills] else []) ++ [.manual]

/-- `generate_agents_md`. -/
def generateAgentsMd (now : Moment) (g : Guidance) (manual skills : Option Text)
    (order : Option (List UserSection)) : Text :=
  joinLines (generatedParts now g ++
    (order.getD (defaultSectionOrder skills.isSome)).filterMap (sectionPart manual skills) ++
    [footer])

/-! ## Parsing -/

/-- `text.find(needle)`. -/
def textFind (needle text : Text) : Option Nat :=
  (partitionAt? needle text).map fun (front, _) => front.length

/-- `_find_header`. -/
def findHeader (content header : Text) : Option Nat :=
  if (header ++ ['\n']).isPrefixOf content then some 0
  else (textFind ('\n' :: (header ++ ['\n'])) content).map (· + 1)

/-- The loop that drops separators from the end; every pass shortens the text. -/
def dropSeparators : Nat → Text → Text
  | 0, text => text
  | fuel + 1, text =>
      if "---".toList.isSuffixOf text then dropSeparators fuel (rstrip (text.take (text.length - 3)))
      else text

/-- `_extract_section_body`. -/
def extractSectionBody (content : Text) (headerIdx : Nat) (header otherHeader : Text) :
    Option Text :=
  let rest := content.drop (headerIdx + (header.length + 1))
  let candidates := (textFind ('\n' :: (otherHeader ++ ['\n'])) rest).toList ++
    (textFind footerMarker rest).toList
  let section_ := rstrip (rest.take (candidates.min?.getD rest.length))
  let body := strip (dropSeparators section_.length section_)
  if body = [] then none else some body

/-- The sections that are present, in the order of their positions. -/
def sectionOrder (skills manual : Option Nat) : List UserSection :=
  match skills, manual with
  | none, none => []
  | some _, none => [.skills]
  | none, some _ => [.manual]
  | some i, some j => if j < i then [.manual, .skills] else [.skills, .manual]

/-- `parse_preserved_sections` of the text that is read, if there is a file. -/
def parsePreservedSections (file : Option Text) : PreservedSections :=
  match file with
  | none => ⟨none, none, []⟩
  | some content =>
      let skillsIdx := findHeader content skillsSectionHeader
      let manualIdx := findHeader content manualSectionHeader
      let skills := skillsIdx.bind fun i =>
        extractSectionBody content i skillsSectionHeader manualSectionHeader
      let manual := manualIdx.bind fun i =>
        extractSectionBody content i manualSectionHeader skillsSectionHeader
      ⟨skills, manual, sectionOrder (skills.bind fun _ => skillsIdx) (manual.bind fun _ => manualIdx)⟩

/-! ## Regenerating -/

/-- `_mask_header_timestamp`. -/
def maskHeaderTimestamp (content : Text) : Text :=
  joinLines ((splitLines content).map fun line =>
    if headerMarker.isPrefixOf line then [] else line)

/-- Whether a file's text is taken for a generated one. -/
def isManaged (content : Text) : Bool :=
  containsText headerMarker content && containsText footerMarker content

/-- The file that is generated next to the sections of another. -/
def regenerated (now : Moment) (g : Guidance) (preserved : PreservedSections) : Text :=
  generateAgentsMd now g preserved.manual preserved.skills
    (if preserved.order = [] then none else some preserved.order)

/-- What one regeneration does to one file: its text after, and whether it was written. An
existing file is read in text mode; an unmanaged one is kept unless told otherwise. -/
def regenerate (overwriteUnmanaged : Bool) (now : Moment) (g : Guidance) (file : Option Text) :
    Option Text × Bool :=
  let existing := file.map universalNewlines
  if !overwriteUnmanaged && !existing.all isManaged then (file, false)
  else
    let content := regenerated now g (parsePreservedSections existing)
    if existing.any fun e => containsText headerMarker e &&
        maskHeaderTimestamp e == maskHeaderTimestamp content then (file, false)
    else (some content, true)

end AgentsMd
end Client
end Nauro

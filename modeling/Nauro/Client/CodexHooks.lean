import Nauro.Core.Text
import Nauro.Foundation.Json
import Nauro.Foundation.ShellWords

/-!
# The hooks of a Codex configuration

Nauro owns one hook entry for each of two events. It adds the entries to the configuration of a
repository, takes them away again, and reads them back to tell which command they record.
-/

namespace Nauro
namespace Client
namespace CodexHooks

open Foundation Foundation.Json Nauro.Core

/-! ## Strings -/

/-- A text as a string of JSON. -/
def str (text : String) : Str :=
  ofText text.toList

/-- `needle in text`. -/
def containsStr (needle text : Str) : Bool :=
  text.tails.any fun rest => needle.isPrefixOf rest

def isSpacePoint : CodePoint → Bool
  | .scalar c => isSpace c
  | .surrogate _ => false

/-- `text.rstrip()`. -/
def rstripStr (text : Str) : Str :=
  text.rdropWhile isSpacePoint

/-- `text.rfind(needle)`; none when it is not there. -/
def rfind? (needle : Str) : Str → Option Nat
  | [] => if needle = [] then some 0 else none
  | p :: rest =>
      match rfind? needle rest with
      | some index => some (index + 1)
      | none => if needle.isPrefixOf (p :: rest) then some 0 else none

/-- `text.replace(quote, quote + quote)`. -/
def double (quote : CodePoint) (text : Str) : Str :=
  text.flatMap fun p => if p = quote then [quote, quote] else [p]

/-- `text.replace(quote + quote, quote)`. -/
def halve (quote : CodePoint) : Str → Str
  | p :: p' :: rest =>
      if p = quote ∧ p' = quote then quote :: halve quote rest else p :: halve quote (p' :: rest)
  | text => text

def singleQuote : CodePoint := .scalar '\''
def doubleQuote : CodePoint := .scalar '"'

/-- The characters `shlex` sets apart, and those it leaves without quotes. -/
def shellAlphabet : ShellWords.Alphabet CodePoint where
  blank p := [.scalar ' ', .scalar '\t', .scalar '\r', .scalar '\n'].contains p
  single := singleQuote
  double := doubleQuote
  escape := .scalar '\\'
  safe p :=
    match p with
    | .scalar c => c.isAlphanum || "_@%+=:,./-".toList.contains c
    | .surrogate _ => false
  single_ne_double := by decide
  single_ne_escape := by decide
  double_ne_escape := by decide
  blank_mark := by decide
  safe_plain p hp := by
    refine ⟨?_, ?_, ?_, ?_⟩
    · rw [Bool.eq_false_iff]
      intro hblank
      have hall : ∀ p ∈ ([.scalar ' ', .scalar '\t', .scalar '\r', .scalar '\n'] : List CodePoint),
          ∃ c, p = .scalar c ∧ (c.isAlphanum || "_@%+=:,./-".toList.contains c) = false :=
        List.forall_mem_cons.mpr ⟨⟨_, rfl, by decide⟩, List.forall_mem_cons.mpr ⟨⟨_, rfl, by decide⟩,
          List.forall_mem_cons.mpr ⟨⟨_, rfl, by decide⟩, List.forall_mem_cons.mpr
            ⟨⟨_, rfl, by decide⟩, List.forall_mem_nil _⟩⟩⟩⟩
      obtain ⟨c, rfl, hc⟩ := hall p (List.contains_iff_mem.mp hblank)
      rw [show (c.isAlphanum || "_@%+=:,./-".toList.contains c) = true from hp] at hc
      cases hc
    · rintro rfl
      exact absurd hp (by decide)
    · rintro rfl
      exact absurd hp (by decide)
    · rintro rfl
      exact absurd hp (by decide)

/-! ## Objects -/

abbrev Members := List (Str × Value)

/-- `members[key] = value`: in its place, or at the end. -/
def setMember (key : Str) (value : Value) : Members → Members
  | [] => [(key, value)]
  | (other, old) :: rest =>
      if other = key then (other, value) :: rest else (other, old) :: setMember key value rest

/-- `members.pop(key)`. -/
def popMember (key : Str) (members : Members) : Members :=
  members.filter fun member => member.1 ≠ key

def hooksKey : Str := str "hooks"
def commandKey : Str := str "command"
def commandWindowsKey : Str := str "commandWindows"

/-! ## The entry for a command -/

def codexHookEvents : List Str := [str "SessionStart", str "SubagentStart"]
def codexHookSubcommand : Str := str "hook codex-bootstrap"

/-- `_powershell_quote`. -/
def powershellQuote (value : Str) : Str :=
  singleQuote :: double singleQuote value ++ [singleQuote]

/-- `_render_nauro_hook`; `absolute` tells whether the command is an absolute path here. -/
def renderNauroHook (absolute : Str → Bool) (command : Str) : Value :=
  let posixCommand := ShellWords.quote shellAlphabet command
  let windowsCommand := powershellQuote command
  let posixGuard :=
    if absolute command then str "test -x " ++ posixCommand
    else str "command -v " ++ posixCommand ++ str " >/dev/null 2>&1"
  let windowsGuard :=
    if absolute command then
      str "if (Test-Path -LiteralPath " ++ windowsCommand ++ str " -PathType Leaf) "
    else str "if (Get-Command " ++ windowsCommand ++ str " -ErrorAction SilentlyContinue) "
  let windowsScript :=
    windowsGuard ++ str "\x7b & " ++ windowsCommand ++ str " " ++ codexHookSubcommand ++
      str " \x7d; exit 0"
  .object
    [(str "type", .string (str "command")),
      (commandKey, .string
        (posixGuard ++ str " || exit 0; exec " ++ posixCommand ++ str " " ++ codexHookSubcommand)),
      (commandWindowsKey, .string
        (str "powershell.exe -NoLogo -NoProfile -NonInteractive -Command \"" ++ windowsScript ++
          str "\"")),
      (str "timeout", .int 10),
      (str "statusMessage", .string (str "Loading Nauro project context"))]

/-! ## Reading a line back -/

/-- The word before the subcommand. -/
def beforeSubcommand : Option Str → List Str → Option Str
  | _, [] => none
  | previous, token :: rest =>
      if token = str "hook" ∧ rest.head? = some (str "codex-bootstrap") then previous
      else beforeSubcommand (some token) rest

/-- `_extract_posix_executable`. -/
def extractPosixExecutable (command : Str) : Option Str :=
  match ShellWords.split shellAlphabet command with
  | none => none
  | some tokens => beforeSubcommand none tokens

/-- The loop of `_quoted_token_start`, from the index below the given number on. -/
def quotedTokenStartBelow (value : Str) (quote : CodePoint) : Nat → Option Nat
  | 0 => none
  | 1 => if value[0]? = some quote then some 0 else none
  | index + 2 =>
      if value[index + 1]? ≠ some quote then quotedTokenStartBelow value quote (index + 1)
      else if value[index]? = some quote then quotedTokenStartBelow value quote index
      else some (index + 1)

/-- `_quoted_token_start`. -/
def quotedTokenStart (value : Str) (quote : CodePoint) : Option Nat :=
  quotedTokenStartBelow value quote (value.length - 1)

/-- `_last_windows_token`: what stands before the last token, and the token. -/
def lastWindowsToken (front : Str) : Option (Str × Str) :=
  let stripped := rstripStr front
  match stripped.getLast? with
  | none => none
  | some last =>
      if last = singleQuote ∨ last = doubleQuote then
        (quotedTokenStart stripped last).map fun start =>
          (rstripStr (stripped.take start), stripped.drop start)
      else
        let token := (stripped.reverse.takeWhile fun p => !isSpacePoint p).reverse
        some (rstripStr (stripped.take (stripped.length - token.length)), token)

/-- Whether a token stands between two marks of a kind. -/
def isBetween (quote : CodePoint) (token : Str) : Bool :=
  2 ≤ token.length && token.head? = some quote && token.getLast? = some quote

/-- `_extract_windows_executable`. -/
def extractWindowsExecutable (command : Str) : Option Str :=
  match rfind? (str " " ++ codexHookSubcommand) command with
  | none => none
  | some markerIndex =>
      match lastWindowsToken (command.take markerIndex) with
      | none => none
      | some (leading, token) =>
          if leading ≠ [] ∧ leading.getLast? ≠ some (.scalar '&') then none
          else if leading ≠ [] ∧ isBetween singleQuote token then
            some (halve singleQuote (token.drop 1).dropLast)
          else if isBetween doubleQuote token then
            some (halve doubleQuote (token.drop 1).dropLast)
          else
            let invalid := if leading ≠ [] then str ";\x7b\x7d" else [doubleQuote]
            if token ≠ [] ∧ ¬ token.any fun p => isSpacePoint p || invalid.contains p then some token
            else none

/-! ## Inspection -/

/-- `_command_for_platform`. -/
def commandForPlatform (windows : Bool) : Value → Option Str
  | .object members =>
      match windows, members.lookup commandWindowsKey with
      | true, some (.string command) => some command
      | _, _ =>
          match members.lookup commandKey with
          | some (.string command) => if command ≠ [] then some command else none
          | _ => none
  | _ => none

/-- Whether an entry has a line of its own for Windows. -/
def hasWindowsCommand : Value → Bool
  | .object members =>
      match members.lookup commandWindowsKey with
      | some (.string _) => true
      | _ => false
  | _ => false

/-- `_inspect_nauro_hook`: the command that an entry records, when it is one of Nauro. -/
def inspectNauroHook (windows : Bool) (entry : Value) : Option (Option Str) :=
  match commandForPlatform windows entry with
  | none => none
  | some command =>
      if containsStr codexHookSubcommand command then
        some (if windows && hasWindowsCommand entry then extractWindowsExecutable command
          else extractPosixExecutable command)
      else none

/-- `_matcher_entries`. -/
def matcherEntries : Value → List Value
  | .object members =>
      match members.lookup hooksKey with
      | some (.array entries) => entries
      | _ => []
  | _ => []

/-- `_inspect_event_hooks`. -/
def inspectEventHooks (windows : Bool) : Option Value → List (Option Str)
  | some (.array matchers) =>
      (matchers.flatMap matcherEntries).filterMap (inspectNauroHook windows)
  | _ => []

structure CodexHookState where
  isPresent : Bool
  complete : Bool
  recordedCommands : List (Option Str)
deriving DecidableEq

/-- `_inspect_codex_hooks` of an object. -/
def inspectCodexHooks (windows : Bool) (config : Members) : CodexHookState :=
  match config.lookup hooksKey with
  | some (.object hooks) =>
      let eventHooks := codexHookEvents.map fun event =>
        inspectEventHooks windows (hooks.lookup event)
      { isPresent := eventHooks.any fun found => !found.isEmpty
        complete := eventHooks.all fun found => !found.isEmpty
        recordedCommands := eventHooks.flatten }
  | _ => { isPresent := false, complete := false, recordedCommands := [] }

/-! ## The transform -/

inductive TransformError where
  | config (message : Str)
  /-- An attribute error: something is added to what is no list. -/
  | attribute

/-- `_validate_codex_hooks`. -/
def validateCodexHooks (config : Members) : Except TransformError Unit :=
  match config.lookup hooksKey with
  | none | some .null => .ok ()
  | some (.object hooks) =>
      let offShape := codexHookEvents.find? fun event =>
        match hooks.lookup event with
        | none | some .null | some (.array _) => false
        | _ => true
      match offShape with
      | some event => .error (.config (str "hooks." ++ event ++ str " is not a JSON array, skipped"))
      | none => .ok ()
  | _ => .error (.config (str "hooks key in .codex/hooks.json is not a JSON object, skipped"))

/-- `_is_nauro_hook`. -/
def isNauroHook : Value → Bool
  | .object members =>
      [commandKey, commandWindowsKey].any fun field =>
        match members.lookup field with
        | some (.string command) => containsStr codexHookSubcommand command
        | _ => false
  | _ => false

/-- What is left of one matcher, and the number of its entries that are dropped. -/
def stripMatcher (isOwned : Value → Bool) : Value → Option Value × Nat
  | .object members =>
      match members.lookup hooksKey with
      | some (.array entries) =>
          let kept := entries.filter fun entry => !isOwned entry
          let removedHere := entries.length - kept.length
          if removedHere = 0 then (some (.object members), removedHere)
          else if kept ≠ [] then (some (.object (setMember hooksKey (.array kept) members)), removedHere)
          else if members.any fun member => member.1 ≠ hooksKey then
            (some (.object (setMember hooksKey (.array []) members)), removedHere)
          else (none, removedHere)
      | _ => (some (.object members), 0)
  | matcher => (some matcher, 0)

/-- `strip_owned_hook_entries`. -/
def stripOwnedHookEntries (eventMatchers : List Value) (isOwned : Value → Bool) :
    List Value × Nat :=
  ((eventMatchers.map (stripMatcher isOwned)).filterMap Prod.fst,
    ((eventMatchers.map (stripMatcher isOwned)).map Prod.snd).sum)

/-- The step of `_strip_nauro_events` for one event. -/
def stripNauroEvent (event : Str) (hooks : Members) : Members × Nat :=
  match hooks.lookup event with
  | some (.array eventMatchers) =>
      let (surviving, removed) := stripOwnedHookEntries eventMatchers isNauroHook
      if surviving = [] then (popMember event hooks, removed)
      else (setMember event (.array surviving) hooks, removed)
  | _ => (hooks, 0)

/-- `_strip_nauro_events`. -/
def stripNauroEvents (hooks : Members) : Members × Nat :=
  codexHookEvents.foldl
    (fun state event =>
      let (stripped, removed) := stripNauroEvent event state.1
      (stripped, state.2 + removed))
    (hooks, 0)

/-- `hooks.setdefault(event, []).append(matcher)`. -/
def addMatcher (matcher : Value) (event : Str) (hooks : Members) : Except TransformError Members :=
  match hooks.lookup event with
  | none => .ok (setMember event (.array [matcher]) hooks)
  | some (.array matchers) => .ok (setMember event (.array (matchers ++ [matcher])) hooks)
  | some _ => .error .attribute

structure CodexHookTransform where
  config : Members
  removed : Nat

/-- `_transform_codex_hooks`: install the entries for a command, or remove the owned ones. -/
def transformCodexHooks (absolute : Str → Bool) (config : Members) (command : Option Str) :
    Except TransformError CodexHookTransform := do
  validateCodexHooks config
  let hooks :=
    match config.lookup hooksKey with
    | some (.object hooks) => some hooks
    | _ => none
  match hooks, command with
  | none, none => .ok { config, removed := 0 }
  | some hooks, none =>
      let (stripped, removed) := stripNauroEvents hooks
      .ok
        { config :=
            if stripped = [] then popMember hooksKey config
            else setMember hooksKey (.object stripped) config
          removed }
  | hooks, some command =>
      let (stripped, removed) := stripNauroEvents (hooks.getD [])
      let matcher : Value := .object [(hooksKey, .array [renderNauroHook absolute command])]
      let added ← codexHookEvents.foldlM (fun hooks event => addMatcher matcher event hooks) stripped
      .ok { config := setMember hooksKey (.object added) config, removed }

end CodexHooks
end Client
end Nauro

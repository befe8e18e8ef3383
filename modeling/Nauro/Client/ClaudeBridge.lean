import Nauro.Foundation.EscapedUtf8
import Nauro.Foundation.Fences
import Nauro.Foundation.LineCuts
import Nauro.Foundation.LossyUtf8
import Nauro.Sync.Headings

/-!
# The bridge of a `CLAUDE.md`

A generated `CLAUDE.md` holds one marker line and the import of `AGENTS.md`. The file is Nauro's when
the marker stands on a line of its own outside fenced code; the bridge is removed with the lines
between the marker and its import, and what users wrote around it is kept byte by byte.
-/

namespace Nauro
namespace Client
namespace ClaudeBridge

open Foundation Foundation.EscapedUtf8
open Nauro.Core Nauro.Sync

abbrev Bytes := List UInt8

/-- A text as it is decoded with escapes for the bytes that are not UTF-8. -/
abbrev PointText := List Point

def ofChars (chars : Text) : PointText :=
  chars.map .scalar

def claudeBridgeMarker : Text := "nauro-claude-bridge".toList

def bridgeImport : PointText := ofChars "@AGENTS.md".toList

def bridgeMarkerLine : PointText :=
  ofChars ("<!-- ".toList ++ claudeBridgeMarker ++
    (": auto-generated by Nauro. Imports AGENTS.md so " ++
      "Claude Code loads the shared project context (Claude Code does not read " ++
      "AGENTS.md natively). Managed by nauro; remove with 'nauro adopt --remove'. -->").toList)

def newline : Point := .scalar '\n'
def carriageReturn : Point := .scalar '\r'
def bom : Point := .scalar '\uFEFF'

def bridgeContent : PointText :=
  bridgeMarkerLine ++ [newline] ++ bridgeImport ++ [newline]

/-! ## Texts with escapes -/

def isSpacePoint : Point → Bool
  | .scalar c => isSpace c
  | .escaped _ => false

def stripPoints (text : PointText) : PointText :=
  Trim.trim isSpacePoint text

def isBlankPoints (text : PointText) : Bool :=
  (stripPoints text).isEmpty

def isBreakPoint : Point → Bool
  | .scalar c => isLineBreak c
  | .escaped _ => false

/-- A carriage return before a newline leaves the line to the newline. -/
def endsPointLine (p : Point) (next : Option Point) : Bool :=
  isBreakPoint p && !(p == carriageReturn && next == some newline)

/-- `content.splitlines(keepends=True)`. -/
def segmentsOf (content : PointText) : List PointText :=
  LineCuts.cutAfter endsPointLine content

def lineOf (segment : PointText) : PointText :=
  segment.takeWhile fun p => !isBreakPoint p

/-- `content.splitlines()`. -/
def linesOf (content : PointText) : List PointText :=
  (segmentsOf content).map lineOf

def isFeed (p : Point) : Bool :=
  p == carriageReturn || p == newline

/-- `_body`. -/
def bodyOf (segment : PointText) : PointText :=
  segment.rdropWhile isFeed

/-- `_strip_bom`. -/
def stripBom : PointText → PointText
  | [] => []
  | p :: rest => if p = bom then rest else p :: rest

/-! ## Lines outside fenced code -/

/-- A fence, by its character and the length of its run. -/
structure Fence where
  char : Char
  length : Nat
deriving DecidableEq

/-- A fence line, with whether it closes only. -/
structure FenceMarker where
  fence : Fence
  closesOnly : Bool
deriving DecidableEq

def backtick : Char := '\x60'

/-- What `_fence_marker` makes of a line behind its indent. -/
def fenceRun (char : Char) (rest : PointText) : Option FenceMarker :=
  let run := (rest.takeWhile fun p => p == .scalar char).length
  let info := rest.drop run
  if char = backtick ∧ .scalar backtick ∈ info then none
  else some ⟨⟨char, run⟩, isBlankPoints info⟩

/-- `_fence_marker`. -/
def fenceMarker (line : PointText) : Option FenceMarker :=
  let indent := (line.takeWhile fun p => p == .scalar ' ').length
  let rest := line.drop indent
  if 3 < indent then none
  else if (List.replicate 3 (.scalar backtick)).isPrefixOf rest then fenceRun backtick rest
  else if (List.replicate 3 (.scalar '~')).isPrefixOf rest then fenceRun '~' rest
  else none

def opensFence (line : PointText) : Option Fence :=
  (fenceMarker line).map FenceMarker.fence

/-- A fence is closed by a run of its own character that is as long at least, and nothing else. -/
def closesFence (fence : Fence) (line : PointText) : Bool :=
  (fenceMarker line).any fun marker =>
    marker.fence.char == fence.char && decide (fence.length ≤ marker.fence.length) &&
      marker.closesOnly

/-- The first line outside fenced code that is the marker line. -/
def markerIndex (lines : List PointText) : Option Nat :=
  (lines.zip (Fences.activeFlags opensFence closesFence none lines)).findIdx? fun entry =>
    entry.2 && entry.1 == bridgeMarkerLine

/-- `_is_owned`. -/
def isOwned (content : PointText) : Bool :=
  (markerIndex (linesOf content)).isSome

/-! ## The import -/

/-- A text cut into its runs of backticks and its other points. -/
def backtickRuns : PointText → List (Nat ⊕ Point)
  | [] => []
  | p :: rest =>
      if p = .scalar backtick then
        match backtickRuns rest with
        | .inl n :: more => .inl (n + 1) :: more
        | more => .inl 1 :: more
      else .inr p :: backtickRuns rest

/-- `_strip_inline_code` of the runs of a line: a run is closed by the next one of its length. -/
def withoutSpans : Nat → List (Nat ⊕ Point) → PointText
  | 0, _ => []
  | _ + 1, [] => []
  | fuel + 1, .inr p :: rest => p :: withoutSpans fuel rest
  | fuel + 1, .inl n :: rest =>
      match rest.dropWhile fun token => token != .inl n with
      | [] => List.replicate n (.scalar backtick) ++ withoutSpans fuel rest
      | _ :: more => withoutSpans fuel more

/-- `_strip_inline_code`. -/
def stripInlineCode (line : PointText) : PointText :=
  withoutSpans (backtickRuns line).length (backtickRuns line)

/-- `line.split()`. -/
def wordsOf (line : PointText) : List PointText :=
  (line.splitOnP isSpacePoint).filter fun word => !word.isEmpty

/-- The lines outside fenced code. -/
def activeLines (lines : List PointText) : List PointText :=
  Fences.activeLines opensFence closesFence none lines

/-- `_has_live_import`. -/
def hasLiveImport (content : PointText) : Bool :=
  (activeLines (linesOf content)).any fun line => (wordsOf (stripInlineCode line)).contains bridgeImport

inductive BridgeState where
  | absent
  | owned
  | foreignBridged
  | foreignUnbridged
  | symlink
deriving DecidableEq

/-- `_classify`. -/
def classify (content : PointText) : BridgeState :=
  if isOwned content then .owned
  else if hasLiveImport content then .foreignBridged
  else .foreignUnbridged

/-- `_read_for_scan`: undecodable bytes are replaced, and line ends translated. -/
def readForScan (bytes : Bytes) : PointText :=
  stripBom (ofChars (universalNewlines (LossyUtf8.decode bytes)))

/-! ## The operations -/

/-- The index behind the bridge whose marker has an index: the import is part of it, with the blank
lines in front of it. -/
def bridgeEnd (bodies : List PointText) (markerIdx : Nat) : Nat :=
  let probe := markerIdx + 1 + ((bodies.drop (markerIdx + 1)).takeWhile isBlankPoints).length
  if bodies[probe]?.any fun body => stripPoints body == bridgeImport then probe + 1
  else markerIdx + 1

/-- `_strip_bridge_region`. -/
def stripBridgeRegion (content : PointText) : PointText :=
  let segments := segmentsOf content
  let bodies := segments.map bodyOf
  match markerIndex bodies with
  | none => content
  | some markerIdx =>
      (segments.take markerIdx ++ segments.drop (bridgeEnd bodies markerIdx)).flatten

inductive BridgeKind where
  | wrote
  | kept
  | foreignPresent
  | advisory
  | removed
  | stripped
  | nothingToRemove
  | refusedSymlink
  | failed
deriving DecidableEq

/-- What stands at the path of the file. -/
inductive Entry where
  | absent
  | symlink
  | irregular
  | file (bytes : Bytes)
deriving DecidableEq

/-- `detect_bridge_state`; what is no regular file cannot be read. -/
def detectBridgeState : Entry → Option BridgeState
  | .symlink => some .symlink
  | .absent => some .absent
  | .irregular => none
  | .file bytes => some (classify (readForScan bytes))

/-- `ensure_claude_bridge`, where the file is written if the system does not refuse. -/
def ensureClaudeBridge (writable : Bool) : Entry → BridgeKind × Entry
  | .symlink => (.refusedSymlink, .symlink)
  | .absent => if writable then (.wrote, .file (encode bridgeContent)) else (.failed, .absent)
  | .irregular => (.failed, .irregular)
  | .file bytes =>
      match classify (readForScan bytes) with
      | .owned => (.kept, .file bytes)
      | .foreignBridged => (.foreignPresent, .file bytes)
      | _ => (.advisory, .file bytes)

/-- `remove_claude_bridge`, where the file is written or removed if the system does not refuse. -/
def removeClaudeBridge (writable : Bool) : Entry → BridgeKind × Entry
  | .symlink => (.refusedSymlink, .symlink)
  | .absent => (.nothingToRemove, .absent)
  | .irregular => (.failed, .irregular)
  | .file bytes =>
      let content := stripBom (decode bytes)
      if !isOwned content then (.nothingToRemove, .file bytes)
      else if !writable then (.failed, .file bytes)
      else
        let remaining := stripBridgeRegion content
        if isBlankPoints remaining then (.removed, .absent)
        else (.stripped, .file (encode remaining))

end ClaudeBridge
end Client
end Nauro

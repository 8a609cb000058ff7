import Mathlib.Data.List.Infix
import Mux.Lib.Lines

/-!
# Screen regions

A rule of the state engine reads one region of the screen, named by a string. The regions
are found among the lines of the screen, which have lost their ends, and cut out of it by
byte: the start of a line is taken to be the sum of the lengths of the lines before it and
one more for each. Slicing inside a character or beyond the end panics; a function that
panics returns none.
-/

namespace Mux.Agents

open Lib

structure DetectionInput where
  screen : Text
  oscTitle : Text
  oscProgress : Text
deriving Repr, DecidableEq

def usizeMax : Nat := 2 ^ 64 - 1

/-- `str::parse::<usize>`. -/
def parseUsize (t : Text) : Option Nat :=
  let digits := if t.head? = some '+' then t.tail else t
  if digits.isEmpty || !digits.all Char.isDigit then none
  else
    let n := digits.foldl (fun n c => n * 10 + (c.toNat - '0'.toNat)) 0
    if n ≤ usizeMax then some n else none

/-- `str::strip_prefix`. -/
def afterHead (head t : Text) : Option Text := if head.isPrefixOf t then some (t.drop head.length) else none

/-- `str::strip_suffix` of a character. -/
def beforeLast (c : Char) (t : Text) : Option Text := if t.getLast? = some c then some t.dropLast else none

/-- What stands between the parentheses after a name. -/
def between (spec name : Text) : Option Text := ((afterHead name spec).bind (afterHead ['('])).bind (beforeLast ')')

def regionCount (spec name : Text) : Option Nat := (between spec name).bind parseUsize

def topNonEmptyLinesEngineVersion : Nat := 3

def maxTopRegionLineCount : Nat := 65535

def topRegionCount (spec : Text) : Option Nat :=
  (between spec "top_non_empty_lines".toList).bind fun count =>
    if count.head? = some '0' || !count.all Char.isDigit then none
    else (parseUsize count).filter fun n => decide (n ≤ maxTopRegionLineCount)

def regionNames : List Text :=
  ["whole_recent", "after_last_prompt_marker", "before_current_prompt_marker",
    "whole_recent_without_current_prompt_marker", "current_prompt_block_marker", "after_current_prompt_block_marker",
    "prompt_box_body", "above_prompt_box", "last_non_empty_above_prompt_box", "after_last_horizontal_rule",
    "osc_title", "osc_progress"].map String.toList

def validateRegionName (spec : Text) : Except Text Unit :=
  let trimmed := trim spec
  if regionNames.contains trimmed then .ok ()
  else if (regionCount trimmed "bottom_lines".toList).isSome ||
      (regionCount trimmed "bottom_non_empty_lines".toList).isSome || (topRegionCount trimmed).isSome then .ok ()
  else .error trimmed

/-! ## Slices -/

/-- `&content[n..]`. -/
def sliceFrom (content : Text) (n : Nat) : Option Text := (splitAtByte content n).map fun s => s.2

/-- `&content[..n]`. -/
def sliceTo (content : Text) (n : Nat) : Option Text := (splitAtByte content n).map fun s => s.1

/-- `&content[start..stop]`. -/
def slice (content : Text) (start stop : Nat) : Option Text :=
  if start ≤ stop then (sliceTo content stop).bind fun t => sliceFrom t start else none

def lineStartOffset (content : Text) (lines : List Text) (index : Nat) : Nat :=
  min ((lines.take (min index lines.length)).map fun line => byteLength line + 1).sum (byteLength content)

def sliceFromLineIndex (content : Text) (lines : List Text) (index : Nat) : Option Text :=
  sliceFrom content (min (lineStartOffset content lines index) (byteLength content))

/-! ## Kinds of lines -/

def nonEmpty (line : Text) : Bool := !(trim line).isEmpty

def codexPromptLine (line : Text) : Bool := line == ['›'] || ['›', ' '].isPrefixOf line

def codexBlockMarkerLine (line : Text) : Bool :=
  line.head? == some '•' || line.head? == some '■' || line.head? == some '✗' || line.head? == some '✓'

def isHorizontalRule (line : Text) : Bool :=
  let trimmed := trim line
  let ruleChars := (trimmed.takeWhile (· == '─')).length
  if trimmed.isEmpty then false
  else if ruleChars = 0 then false
  else
    let suffix := (trimmed.drop ruleChars).dropWhile isWhitespace
    suffix.isEmpty || decide (ruleChars ≥ 3)

/-- `Iterator::rposition`. -/
def rposition {α : Type} (p : α → Bool) (l : List α) : Option Nat :=
  (l.reverse.findIdx? p).map fun i => l.length - 1 - i

/-! ## Regions of the screen -/

def bottomLines (content : Text) (count : Nat) : Option Text :=
  sliceFromLineIndex content (lines content) ((lines content).length - count)

def bottomNonEmptyLines (content : Text) (count : Nat) : Option Text :=
  match ((((lines content).zipIdx.reverse).filter fun e => nonEmpty e.1).take count).getLast? with
  | none => some []
  | some e => sliceFromLineIndex content (lines content) e.2

def topNonEmptyLines (content : Text) (count : Nat) : Option Text :=
  match (((lines content).zipIdx.filter fun e => nonEmpty e.1).take count).getLast? with
  | none => some []
  | some e => sliceTo content (lineStartOffset content (lines content) (e.2 + 1))

def afterLastPromptMarker (content : Text) : Option Text :=
  match rposition codexPromptLine (lines content) with
  | none => some content
  | some index => sliceFromLineIndex content (lines content) (index + 1)

def currentCodexPromptIndex (lines : List Text) : Option Nat :=
  (rposition codexPromptLine lines).filter fun index => !(lines.drop (index + 1)).any codexBlockMarkerLine

def beforeCurrentPromptMarker (content : Text) : Option Text :=
  match currentCodexPromptIndex (lines content) with
  | none => some content
  | some index =>
    sliceTo content (min (((lines content).take index).map fun line => byteLength line + 1).sum (byteLength content))

def wholeRecentWithoutCurrentPromptMarker (content : Text) : Text :=
  if (currentCodexPromptIndex (lines content)).isSome then [] else content

def currentPromptBlockMarker (content : Text) : Option Text :=
  (currentCodexPromptIndex (lines content)).bind fun promptIndex =>
    ((lines content).take promptIndex).reverse.find? codexBlockMarkerLine

/-- None outside when there is no such block, none inside when it panics. -/
def afterCurrentPromptBlockMarker (content : Text) : Option (Option Text) :=
  (currentCodexPromptIndex (lines content)).bind fun promptIndex =>
    (rposition codexBlockMarkerLine ((lines content).take promptIndex)).map fun blockIndex =>
      sliceFromLineIndex content (lines content) blockIndex

/-- The loop from the last line back to the second rule. -/
def borderScan (borderCount : Nat) : List (Text × Nat) → Option Nat
  | [] => none
  | (line, index) :: rest =>
    if isHorizontalRule line then
      if borderCount + 1 = 2 then some index else borderScan (borderCount + 1) rest
    else borderScan borderCount rest

def promptBoxTopBorderIndex (lines : List Text) : Option Nat := borderScan 0 lines.zipIdx.reverse

def promptBoxBody (content : Text) : Option (Option Text) :=
  (promptBoxTopBorderIndex (lines content)).map fun top =>
    let start := lineStartOffset content (lines content) (top + 1)
    let endIndex := match ((lines content).drop (top + 1)).findIdx? isHorizontalRule with
      | none => (lines content).length
      | some relative => top + 1 + relative
    let stop := lineStartOffset content (lines content) endIndex
    slice content (min start (byteLength content)) (min stop (byteLength content))

def abovePromptBox (content : Text) : Option Text :=
  match promptBoxTopBorderIndex (lines content) with
  | none => some content
  | some top =>
    sliceTo content (min (lineStartOffset content (lines content) top) (byteLength content))

/-- The loop's state: where the last rule's line ends, and where the line begins. -/
def afterLastHorizontalRule (content : Text) : Option Text :=
  let scanned := (lines content).foldl (fun (s : Nat × Nat) line =>
    let nextOffset := s.2 + byteLength line + 1
    (if isHorizontalRule line then min nextOffset (byteLength content) else s.1, nextOffset)) (0, 0)
  sliceFrom content scanned.1

def lastNonEmptyLine (content : Text) : Text := ((lines content).reverse.find? nonEmpty).getD []

/-- The arm of `region` for names with a count, and for names that are none. -/
def countedRegion (content trimmed : Text) : Option Text :=
  match regionCount trimmed "bottom_lines".toList with
  | some count => bottomLines content count
  | none =>
    match regionCount trimmed "bottom_non_empty_lines".toList with
    | some count => bottomNonEmptyLines content count
    | none =>
      match topRegionCount trimmed with
      | some count => topNonEmptyLines content count
      | none => some []

def region (input : DetectionInput) (spec : Text) : Option Text :=
  let trimmed := trim spec
  -- osc regions come from their own fields, not from the screen
  if trimmed = "osc_title".toList then some input.oscTitle
  else if trimmed = "osc_progress".toList then some input.oscProgress
  else
    let content := input.screen
    if trimmed = "whole_recent".toList then some content
    else if trimmed = "after_last_prompt_marker".toList then afterLastPromptMarker content
    else if trimmed = "before_current_prompt_marker".toList then beforeCurrentPromptMarker content
    else if trimmed = "whole_recent_without_current_prompt_marker".toList then
      some (wholeRecentWithoutCurrentPromptMarker content)
    else if trimmed = "current_prompt_block_marker".toList then some ((currentPromptBlockMarker content).getD [])
    else if trimmed = "after_current_prompt_block_marker".toList then
      (afterCurrentPromptBlockMarker content).getD (some [])
    else if trimmed = "prompt_box_body".toList then (promptBoxBody content).getD (some [])
    else if trimmed = "above_prompt_box".toList then abovePromptBox content
    else if trimmed = "last_non_empty_above_prompt_box".toList then (abovePromptBox content).map lastNonEmptyLine
    else if trimmed = "after_last_horizontal_rule".toList then afterLastHorizontalRule content
    else countedRegion content trimmed

end Mux.Agents

import AionisCore.AionisDoc.Payload

/-!
# From source text to directives

`parseAst` walks over the lines of a document: fences, headings, directives and paragraphs. The
payload of a directive runs over as many lines as its braces take. Offsets and columns count
UTF-16 code units.
-/

namespace AionisCore.AionisDoc

open Lib Lib.JsString

/-! ## Scanning -/

/-- The length in code units. -/
def units (cs : List Char) : Nat := (cs.map width).sum

def lineStartsFrom : Nat → List Char → List Nat
  | _, [] => []
  | i, c :: cs => if c = '\n' then (i + 1) :: lineStartsFrom (i + 1) cs
    else lineStartsFrom (i + width c) cs

structure ScanResult where
  source : List Char
  lineStarts : List Nat

def scanSource (source : String) : ScanResult where
  source := source.toList
  lineStarts := 0 :: lineStartsFrom 0 source.toList

namespace ScanResult

variable (scan : ScanResult)

def length : Nat := units scan.source

/-- `scan.lineStarts[i] ?? scan.source.length` -/
def lineStart (i : Nat) : Nat := scan.lineStarts[i]?.getD scan.length

/-- The binary search of `findLineIndexAtOffset`. -/
def searchLine (offset : Nat) : Nat → Int → Int → Nat
  | 0, _, _ => scan.lineStarts.length - 1
  | fuel + 1, low, high =>
    if low ≤ high then
      let mid := ((low + high) / 2).toNat
      if offset < scan.lineStart mid then searchLine offset fuel low (mid - 1)
      else if (if mid + 1 < scan.lineStarts.length then scan.lineStart (mid + 1)
          else scan.length + 1) ≤ offset then
        searchLine offset fuel (mid + 1) high
      else mid
    else scan.lineStarts.length - 1

def findLineIndexAtOffset (offset : Nat) : Nat :=
  scan.searchLine offset (scan.lineStarts.length + 1) 0 (scan.lineStarts.length - 1)

def offsetToSourcePos (offset : Nat) : SourcePos :=
  let safeOffset := min offset scan.length
  let lineIndex := scan.findLineIndexAtOffset safeOffset
  { line := lineIndex + 1
    column := safeOffset - scan.lineStart lineIndex + 1
    offset := safeOffset }

def rangeFromOffsets (start stop : Nat) : SourceRange :=
  { start := scan.offsetToSourcePos start, stop := scan.offsetToSourcePos stop }

end ScanResult

/-! ## Nodes -/

structure HeadingNode where
  depth : Nat
  text : String
  raw : String
  loc : SourceRange

structure ParagraphNode where
  text : String
  raw : String
  loc : SourceRange

structure CodeFenceNode where
  info : Option String
  content : String
  raw : String
  loc : SourceRange

structure DirectiveNode where
  name : String
  payload : Option AionisValue
  raw : String
  loc : SourceRange
  diagnostics : List Diagnostic

inductive AstNode where
  | heading (node : HeadingNode)
  | paragraph (node : ParagraphNode)
  | fence (node : CodeFenceNode)
  | directive (node : DirectiveNode)

structure DocumentNode where
  children : List AstNode
  diagnostics : List Diagnostic
  loc : SourceRange

/-! ## Lines -/

abbrev Line := List Char

/-- `text.split(sep)` -/
def splitOn (sep : Char) : List Char → List (List Char)
  | [] => [[]]
  | c :: cs =>
    if c = sep then [] :: splitOn sep cs
    else match splitOn sep cs with
      | [] => [[c]]
      | part :: parts => (c :: part) :: parts

/-- `source.split("\n")` -/
def splitLines (cs : List Char) : List Line := splitOn '\n' cs

/-- `lines.join("\n")` -/
def joinLines (lines : List Line) : List Char := List.intercalate ['\n'] lines

def isBlankLine (line : Line) : Bool := line.all isWhite

/-- `/^\s*```/` -/
def isFenceLine (line : Line) : Bool := ['`', '`', '`'].isPrefixOf (skipWhitespace line)

/-- The number of `#` at the front. -/
def hashes (line : Line) : Nat := (line.takeWhile (· == '#')).length

/-- `/^#{1,6}\s+/` -/
def isHeadingLine (line : Line) : Bool :=
  1 ≤ hashes line && hashes line ≤ 6 && ((line.drop (hashes line)).head?.map isWhite).getD false

/-- What `.` does not match. -/
def isLineTerminator (c : Char) : Bool :=
  c.toNat ∈ [0xA, 0xD, 0x2028, 0x2029]

/-- `/^(#{1,6})\s+(.*)$/` -/
def headingMatch (line : Line) : Option (Nat × List Char) :=
  let text := skipWhitespace (line.drop (hashes line))
  if isHeadingLine line && text.all (!isLineTerminator ·) then some (hashes line, text) else none

structure DirectiveHead where
  indent : List Char
  name : List Char
  after : List Char

/-- `/^(\s*)@([A-Za-z][A-Za-z0-9_.-]*)/`, and what follows the name. -/
def directiveHead (line : Line) : Option DirectiveHead :=
  match skipWhitespace line with
  | '@' :: c :: cs =>
    if c.isAlpha then
      some {
        indent := line.takeWhile isWhite
        name := c :: cs.takeWhile isIdentifierPart
        after := cs.dropWhile isIdentifierPart }
    else none
  | _ => none

def isDirectiveLine (line : Line) : Bool := (directiveHead line).isSome

/-! ## The end of a directive -/

structure BlockState where
  depth : Int := 0
  quote : Option Char := none
  escaped : Bool := false
  deriving DecidableEq

/-- One character of the block; the block ends where the depth comes back to zero. -/
def BlockState.step (s : BlockState) (c : Char) : Option BlockState :=
  match s.quote with
  | some quote =>
    if s.escaped then some { s with escaped := false }
    else if c = '\\' then some { s with escaped := true }
    else if c = quote then some { s with quote := none }
    else some s
  | none =>
    if c = '"' ∨ c = '\'' then some { s with quote := some c }
    else if c = '{' then some { s with depth := s.depth + 1 }
    else if c = '}' then
      if s.depth - 1 = 0 then none else some { s with depth := s.depth - 1 }
    else some s

/-- The block at the front of the text, and what follows it. -/
def findDirectiveBlockEnd : BlockState → List Char → Option (List Char × List Char)
  | _, [] => none
  | s, c :: cs =>
    match s.step c with
    | none => some ([c], cs)
    | some s' => (findDirectiveBlockEnd s' cs).map fun p => (c :: p.1, p.2)

/-! ## The walk over the lines -/

section Walk

variable (scan : ScanResult)

def makeInvalidDirectiveDiagnostic (start stop : Nat) (message : String) : Diagnostic where
  severity := .error
  code := "INVALID_PAYLOAD"
  message
  loc := scan.rangeFromOffsets start stop
  hint := some "Directives must be followed by a balanced { ... } payload."

/-- What one turn of the loop adds to the document, and the number of further lines it takes;
`none` leaves the loop. -/
structure WalkStep where
  children : List AstNode := []
  diagnostics : List Diagnostic := []
  taken : Option Nat := some 0

/-- The lines after the fence up to the closing one, and whether there is one. -/
def fenceBody : List Line → List Line × Bool
  | [] => ([], false)
  | line :: lines =>
    if isFenceLine line then ([], true) else (line :: (fenceBody lines).1, (fenceBody lines).2)

/-- `raw` runs to the start of the line after the last one taken. -/
def endOfLine (lineIndex : Nat) : Nat := scan.lineStart (lineIndex + 1)

def walkFence (lineIndex : Nat) (line : Line) (more : List Line) : WalkStep :=
  let (body, closed) := fenceBody more
  let taken := if closed then body.length + 1 else body.length
  let info := String.ofList (trimChars ((trimChars line).drop 3))
  let loc := scan.rangeFromOffsets (scan.lineStart lineIndex) (endOfLine scan (lineIndex + taken))
  { children := [.fence {
      info := if info = "" then none else some info
      content := String.ofList (joinLines body)
      raw := String.ofList (joinLines (line :: more.take taken) ++
        if taken < more.length then ['\n'] else [])
      loc }]
    diagnostics := if closed then [] else [{
      severity := .warning
      code := "UNCLOSED_FENCE"
      message := "Code fence reaches end of file without a closing delimiter."
      loc }]
    taken := some taken }

def walkHeading (lineIndex : Nat) (line : Line) (depth : Nat) (text : List Char) : WalkStep where
  children := [.heading {
    depth
    text := String.ofList text
    raw := String.ofList line
    loc := scan.rangeFromOffsets (scan.lineStart lineIndex)
      (scan.lineStart lineIndex + units line) }]

/-- A directive whose payload is missing or not closed. -/
def refusedDirective (name : List Char) (raw : List Char) (start stop : Nat) (message : String)
    (taken : Option Nat) : WalkStep :=
  let diagnostics := [makeInvalidDirectiveDiagnostic scan start stop message]
  { children := [.directive {
      name := String.ofList name
      payload := none
      raw := String.ofList raw
      loc := scan.rangeFromOffsets start stop
      diagnostics }]
    diagnostics
    taken }

/-- The text from the end of the directive's name to the end of the document. -/
def afterName (head : DirectiveHead) (more : List Line) : List Char :=
  joinLines (head.after :: more)

def walkDirective (lineIndex : Nat) (line : Line) (head : DirectiveHead) (more : List Line) :
    WalkStep :=
  let start := scan.lineStart lineIndex + units head.indent
  let text := afterName head more
  let gap := text.takeWhile isWhite
  let payloadStart := start + 1 + units head.name + units gap
  if (skipWhitespace text).head? ≠ some '{' then
    refusedDirective scan head.name (line.drop head.indent.length) start
      (scan.lineStart lineIndex + units line) "Directive is missing an object payload." (some 0)
  else match findDirectiveBlockEnd {} (skipWhitespace text) with
    | none =>
      refusedDirective scan head.name ('@' :: head.name ++ text) start scan.length
        "Directive payload ends before its closing brace." none
    | some (block, _) =>
      let loc := scan.rangeFromOffsets start (payloadStart + units block)
      let payload := parseAionisPayload block loc
      { children := [.directive {
          name := String.ofList head.name
          payload := payload.1
          raw := String.ofList ('@' :: head.name ++ gap ++ block)
          loc
          diagnostics := payload.2 }]
        diagnostics := payload.2
        taken := some ((gap ++ block).count '\n') }

/-- The lines that continue a paragraph. -/
def paragraphBody (more : List Line) : List Line :=
  more.takeWhile fun line =>
    !(isBlankLine line || isFenceLine line || isHeadingLine line || isDirectiveLine line)

def walkParagraph (lineIndex : Nat) (line : Line) (more : List Line) : WalkStep :=
  let body := paragraphBody more
  { children := [.paragraph {
      text := String.ofList (trimChars (joinLines (line :: body)))
      raw := String.ofList (joinLines (line :: body) ++
        if body.length < more.length then ['\n'] else [])
      loc := scan.rangeFromOffsets (scan.lineStart lineIndex)
        (endOfLine scan (lineIndex + body.length)) }]
    taken := some body.length }

/-- One turn of the loop of `parseAst`. -/
def walkLine (lineIndex : Nat) (line : Line) (more : List Line) : WalkStep :=
  if isBlankLine line then {}
  else if isFenceLine line then walkFence scan lineIndex line more
  else match headingMatch line with
    | some (depth, text) => walkHeading scan lineIndex line depth text
    | none =>
      match directiveHead line with
      | some head => walkDirective scan lineIndex line head more
      | none => walkParagraph scan lineIndex line more

/-- The loop of `parseAst`; every turn takes a line, so the fuel is the number of lines. -/
def walkLines : Nat → Nat → List Line → List AstNode × List Diagnostic
  | fuel + 1, lineIndex, line :: more =>
    let step := walkLine scan lineIndex line more
    match step.taken with
    | none => (step.children, step.diagnostics)
    | some taken =>
      let rest := walkLines fuel (lineIndex + taken + 1) (more.drop taken)
      (step.children ++ rest.1, step.diagnostics ++ rest.2)
  | _, _, _ => ([], [])

def parseAst : DocumentNode :=
  let lines := splitLines scan.source
  let walked := walkLines scan lines.length 0 lines
  { children := walked.1
    diagnostics := walked.2
    loc := scan.rangeFromOffsets 0 scan.length }

end Walk

end AionisCore.AionisDoc

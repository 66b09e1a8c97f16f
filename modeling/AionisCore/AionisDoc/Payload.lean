import AionisCore.Lib.JsString
import AionisCore.AionisDoc.Value

/-!
# Directive payloads

`PayloadParser` reads a value from the characters of a payload. Commas between the fields of an
object are optional; a bare word other than `true`, `false` and `null` is refused. The fuel
bounds the number of values and fields read one inside or after another, and a payload has
fewer of them than characters.
-/

namespace AionisCore.AionisDoc

open Lib Lib.JsString

/-! ## Diagnostics -/

structure SourcePos where
  line : Nat
  column : Int
  offset : Nat
  deriving DecidableEq, Repr

structure SourceRange where
  start : SourcePos
  stop : SourcePos
  deriving DecidableEq, Repr

inductive DiagnosticSeverity where
  | error
  | warning
  | info
  deriving DecidableEq, Repr

structure Diagnostic where
  severity : DiagnosticSeverity
  code : String
  message : String
  loc : SourceRange
  hint : Option String := none
  deriving DecidableEq, Repr

/-! ## Characters -/

def isIdentifierStart (c : Char) : Bool := c.isAlpha || c == '_'

def isIdentifierPart (c : Char) : Bool :=
  c.isAlphanum || c == '_' || c == '.' || c == '-'

theorem isWhite_of_identifierPart {c : Char} (h : isIdentifierPart c = true) :
    isWhite c = false := by
  simp only [isIdentifierPart, Bool.or_eq_true, beq_iff_eq] at h
  obtain ((h | rfl) | rfl) | rfl := h
  · exact isWhite_of_isAlphanum h
  all_goals decide

def skipWhitespace (cs : List Char) : List Char := cs.dropWhile isWhite

/-- `peek() ?? "EOF"` -/
def peekText (cs : List Char) : String := (cs.head?.map Char.toString).getD "EOF"

namespace PayloadParser

/-- The characters that an escape stands for. -/
def unescape (c : Char) : Char :=
  if c = 'n' then '\n' else if c = 'r' then '\r' else if c = 't' then '\t' else c

/-- The characters up to the closing quote, and what follows it. -/
def stringBody (quote : Char) : List Char → Except String (List Char × List Char)
  | [] => .error "Expected closing quote for string."
  | ['\\'] => .error "String ends with a dangling escape."
  | '\\' :: next :: cs => (stringBody quote cs).map fun p => (unescape next :: p.1, p.2)
  | c :: cs =>
    if c = quote then .ok ([], cs) else (stringBody quote cs).map fun p => (c :: p.1, p.2)

def parseString : List Char → Except String (String × List Char)
  | c :: cs =>
    if c = '"' ∨ c = '\'' then (stringBody c cs).map fun p => (String.ofList p.1, p.2)
    else .error "Expected a quoted string."
  | [] => .error "Expected a quoted string."

def parseKey : List Char → Except String (String × List Char)
  | c :: cs =>
    if c = '"' ∨ c = '\'' then parseString (c :: cs)
    else if isIdentifierStart c then
      .ok (String.ofList (c :: cs.takeWhile isIdentifierPart), cs.dropWhile isIdentifierPart)
    else .error "Expected an object key."
  | [] => .error "Expected an object key."

def parseNumber (cs : List Char) : Except String (AionisValue × List Char) :=
  match scanNumber cs with
  | some (literal, rest) => .ok (.num literal.value, rest)
  | none => .error "Invalid numeric literal."

def parseLiteral (c : Char) (cs : List Char) : Except String (AionisValue × List Char) :=
  let literal := String.ofList (c :: cs.takeWhile isIdentifierPart)
  let rest := cs.dropWhile isIdentifierPart
  if literal = "true" then .ok (.bool true, rest)
  else if literal = "false" then .ok (.bool false, rest)
  else if literal = "null" then .ok (.null, rest)
  else .error s!"Unsupported bare literal '{literal}'. Use quoted strings for stability."

def expect (c : Char) (cs : List Char) : Except String (List Char) :=
  if cs.head? = some c then .ok (cs.drop 1)
  else .error s!"Expected '{c}' but found '{peekText cs}'."

/-- The optional comma after a field. -/
def skipComma : List Char → List Char
  | ',' :: cs => skipWhitespace cs
  | cs => cs

def outOfFuel : String := "out of fuel"

mutual

def parseValue : Nat → List Char → Except String (AionisValue × List Char)
  | 0, _ => .error outOfFuel
  | fuel + 1, cs =>
    match cs with
    | '{' :: cs =>
      match skipWhitespace cs with
      | '}' :: cs => .ok (.ofObject {}, cs)
      | cs => parseFields fuel {} cs
    | '[' :: cs =>
      match skipWhitespace cs with
      | ']' :: cs => .ok (.arr [], cs)
      | cs => parseItems fuel [] cs
    | c :: cs =>
      if c = '"' ∨ c = '\'' then (parseString (c :: cs)).map fun p => (.str p.1, p.2)
      else if c = '-' ∨ isDigit c then parseNumber (c :: cs)
      else if isIdentifierStart c then parseLiteral c cs
      else .error s!"Unexpected token '{peekText (c :: cs)}' in payload."
    | [] => .error s!"Unexpected token '{peekText []}' in payload."
termination_by structural fuel => fuel

/-- The loop over the fields of an object. -/
def parseFields : Nat → AionisObject → List Char → Except String (AionisValue × List Char)
  | 0, _, _ => .error outOfFuel
  | fuel + 1, out, cs =>
    if cs = [] then .error "Expected closing brace for object payload."
    else do
      let key ← parseKey cs
      let cs ← expect ':' (skipWhitespace key.2)
      let value ← parseValue fuel (skipWhitespace cs)
      match skipComma (skipWhitespace value.2) with
      | '}' :: cs => .ok (.ofObject (out.set key.1 value.1), cs)
      | cs => parseFields fuel (out.set key.1 value.1) cs
termination_by structural fuel => fuel

/-- The loop over the items of an array. -/
def parseItems : Nat → List AionisValue → List Char → Except String (AionisValue × List Char)
  | 0, _, _ => .error outOfFuel
  | fuel + 1, out, cs =>
    if cs = [] then .error "Expected closing bracket for array payload."
    else do
      let value ← parseValue fuel cs
      match skipWhitespace value.2 with
      | ',' :: cs => parseItems fuel (out ++ [value.1]) (skipWhitespace cs)
      | ']' :: cs => .ok (.arr (out ++ [value.1]), cs)
      | _ => .error "Expected ',' or ']' inside array payload."
termination_by structural fuel => fuel

end

/-- `parse()` -/
def parse (raw : List Char) : Except String AionisValue := do
  let value ← parseValue (raw.length + 1) (skipWhitespace raw)
  if skipWhitespace value.2 = [] then .ok value.1
  else .error "Unexpected trailing content in directive payload."

end PayloadParser

def parseAionisPayload (raw : List Char) (loc : SourceRange) :
    Option AionisValue × List Diagnostic :=
  match PayloadParser.parse raw with
  | .ok value => (some value, [])
  | .error message =>
    (none, [{
      severity := .error
      code := "INVALID_PAYLOAD"
      message
      loc
      hint := some "Check directive braces, quoted strings, and array separators." }])

end AionisCore.AionisDoc

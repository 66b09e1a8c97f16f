import AionisCore.Lib.JsNumber

/-!
# The text of JSON data

`stringify gap indent v` is what `JSON.stringify(v, null, gap)` prints at an indentation: on one
line when the gap is empty, else with every member on a line of its own. Control characters in
strings are printed as escapes.
-/

namespace Lib

inductive JsonData where
  | null
  | bool (b : Bool)
  | num (d : Decimal) (inRange : d.InRange)
  | str (s : String)
  | arr (items : List JsonData)
  | obj (fields : List (String × JsonData))

/-! ## Strings -/

def hexDigit (n : Nat) : Char := if n < 10 then digitChar n else Char.ofNat (87 + n)

/-- `QuoteJSONString` on one character. -/
def escapeChar (c : Char) : List Char :=
  if c = '"' then ['\\', '"']
  else if c = '\\' then ['\\', '\\']
  else if c = '\n' then ['\\', 'n']
  else if c = '\r' then ['\\', 'r']
  else if c = '\t' then ['\\', 't']
  else if c.toNat = 8 then ['\\', 'b']
  else if c.toNat = 12 then ['\\', 'f']
  else if c.toNat < 32 then ['\\', 'u', '0', '0', hexDigit (c.toNat / 16), hexDigit (c.toNat % 16)]
  else [c]

def quoteText (s : String) : List Char := '"' :: s.toList.flatMap escapeChar ++ ['"']

namespace JsonData

/-! ## Values -/

section Stringify

variable (gap : List Char)

def newline (indent : List Char) : List Char := if gap = [] then [] else '\n' :: indent

/-- Between a key and its value. -/
def colon : List Char := if gap = [] then [':'] else [':', ' ']

mutual

def stringify (indent : List Char) : JsonData → List Char
  | .null => ['n', 'u', 'l', 'l']
  | .bool true => ['t', 'r', 'u', 'e']
  | .bool false => ['f', 'a', 'l', 's', 'e']
  | .num d _ => d.text
  | .str s => quoteText s
  | .arr items =>
    '[' :: openItems indent items ++ [']']
  | .obj fields =>
    '{' :: openFields indent fields ++ ['}']

/-- What stands between the brackets of an array at the indentation. -/
def openItems (indent : List Char) : List JsonData → List Char
  | [] => []
  | x :: xs =>
    newline gap (indent ++ gap) ++ stringify (indent ++ gap) x ++ moreItems indent xs

/-- The items after one. -/
def moreItems (indent : List Char) : List JsonData → List Char
  | [] => newline gap indent
  | x :: xs =>
    ',' :: newline gap (indent ++ gap) ++ stringify (indent ++ gap) x ++ moreItems indent xs

def openFields (indent : List Char) : List (String × JsonData) → List Char
  | [] => []
  | f :: fs => newline gap (indent ++ gap) ++ stringifyField indent f ++ moreFields indent fs

def moreFields (indent : List Char) : List (String × JsonData) → List Char
  | [] => newline gap indent
  | f :: fs =>
    ',' :: newline gap (indent ++ gap) ++ stringifyField indent f ++ moreFields indent fs

def stringifyField (indent : List Char) : String × JsonData → List Char
  | (k, v) => quoteText k ++ colon gap ++ stringify (indent ++ gap) v

end

end Stringify

end JsonData

end Lib

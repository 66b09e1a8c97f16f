import AionisCore.Lib.JsString
import AionisCore.Lib.Json
import Mathlib.Algebra.Order.Ring.Rat

/-!
# Rule conditions

`ruleMatchesContext` decides whether the condition of a rule holds in a context and none of
its exceptions does. An undefined value is `none`; values and patterns are JSON, so that a
property that an object inherits from its prototype is not among them.
-/

namespace AionisCore.Memory

open Lib Lib.JsString

/-- What `Number` returns. -/
inductive JsNumber where
  | nan
  | finite (q : ℚ)
  | infinity (positive : Bool)

/-- `value > n`. -/
def JsNumber.isBelow (n : JsNumber) (value : ℚ) : Bool :=
  match n with
  | .nan => false
  | .finite q => q < value
  | .infinity positive => !positive

/-- `value >= n`. -/
def JsNumber.isAtMost (n : JsNumber) (value : ℚ) : Bool :=
  match n with
  | .nan => false
  | .finite q => q ≤ value
  | .infinity positive => !positive

/-- `value <= n`. -/
def JsNumber.isAtLeast (n : JsNumber) (value : ℚ) : Bool :=
  match n with
  | .nan => false
  | .finite q => value ≤ q
  | .infinity positive => positive

/-- `value < n`. -/
def JsNumber.isAbove (n : JsNumber) (value : ℚ) : Bool :=
  match n with
  | .nan => false
  | .finite q => value < q
  | .infinity positive => positive

/-- What the rule engine takes from the language. -/
structure RuleHost where
  /-- `new RegExp(pattern).test(value)`, and `none` where the pattern is no regular expression. -/
  regexTest : String → String → Option Bool
  /-- `String(v)` of a value that is no string. -/
  printed : Json → String
  /-- `Number(v)` of a value that is no number. -/
  toNumber : Json → JsNumber

def sampleRuleHost : RuleHost where
  regexTest _ _ := none
  printed _ := ""
  toNumber _ := .nan

/-! ## Regular expressions -/

def MAX_REGEX_PATTERN_CHARS : Nat := 256

def MAX_REGEX_GROUPS : Nat := 32

def MAX_REGEX_QUANTIFIERS : Nat := 24

inductive ScrubMode where
  | plain
  | escaped
  | inClass
  /-- Behind a backslash in a class. -/
  | escapedInClass

/-- `scrubRegexPattern`: escapes and classes are blotted out. -/
def scrubChars : ScrubMode → List Char → List Char
  | _, [] => []
  | .escaped, _ :: cs => '_' :: scrubChars .plain cs
  | .escapedInClass, _ :: cs => '_' :: scrubChars .inClass cs
  | .plain, c :: cs =>
    if c = '\\' then '_' :: scrubChars .escaped cs
    else if c = '[' then '_' :: scrubChars .inClass cs
    else c :: scrubChars .plain cs
  | .inClass, c :: cs =>
    if c = '\\' then '_' :: scrubChars .escapedInClass cs
    else '_' :: scrubChars (if c = ']' then .plain else .inClass) cs

def isQuantifierStart (c : Char) : Bool := c = '*' || c = '+' || c = '?' || c = '{'

/-- The groups that are open, innermost first, each with whether a quantifier is in it. After a
brace the scan goes on behind the next closing one, as `skip` says. -/
def nestedQuantifier : (skip : Bool) → (groups : List Bool) → List Char → Bool
  | true, _, [] => true
  | false, _, [] => false
  | true, groups, c :: cs => nestedQuantifier (c ≠ '}') groups cs
  | false, groups, c :: cs =>
    if c = '(' then nestedQuantifier false (false :: groups) cs
    else if c = ')' then
      (groups.headD false && cs.head?.any isQuantifierStart) ||
        nestedQuantifier false groups.tail cs
    else if isQuantifierStart c then
      nestedQuantifier (c = '{') (groups.modifyHead fun _ => true) cs
    else nestedQuantifier false groups cs

def hasNestedQuantifier (scrubbed : List Char) : Bool := nestedQuantifier false [] scrubbed

/-- `\\(?:[1-9][0-9]*|k<[^>]+>)` somewhere. -/
def hasBackreference (pattern : List Char) : Bool :=
  pattern.tails.any fun
    | '\\' :: 'k' :: '<' :: rest =>
      !(rest.takeWhile (· ≠ '>')).isEmpty && '>' ∈ rest
    | '\\' :: c :: _ => '1' ≤ c && c ≤ '9'
    | _ => false

/-- `\(\?(?:=|!|<=|<!)` somewhere. -/
def hasLookaround (pattern : List Char) : Bool :=
  pattern.tails.any fun
    | '(' :: '?' :: '=' :: _ => true
    | '(' :: '?' :: '!' :: _ => true
    | '(' :: '?' :: '<' :: '=' :: _ => true
    | '(' :: '?' :: '<' :: '!' :: _ => true
    | _ => false

/-- The matches of `[*+?]|\{[^}]*\}`. In a brace the scan is for its end, and without one the
brace is no match. -/
def quantifierCount : List Char → Nat
  | [] => 0
  | c :: cs =>
    if c = '*' ∨ c = '+' ∨ c = '?' then quantifierCount cs + 1
    else if c = '{' ∧ '}' ∈ cs then inBraces cs
    else quantifierCount cs
where
  inBraces : List Char → Nat
    | [] => 0
    | c :: cs => if c = '}' then quantifierCount cs + 1 else inBraces cs

/-- `\([^)]*\|[^)]*\)[*+{]` somewhere. -/
def hasQuantifiedAlternation (scrubbed : List Char) : Bool :=
  scrubbed.tails.any fun
    | '(' :: rest =>
      '|' ∈ rest.takeWhile (· ≠ ')') &&
        (match rest.dropWhile (· ≠ ')') with
          | ')' :: c :: _ => c = '*' || c = '+' || c = '{'
          | _ => false)
    | _ => false

def endsLine (c : Char) : Bool :=
  c = '\n' || c = '\r' || c.toNat = 0x2028 || c.toNat = 0x2029

def startsBroadWildcard : List Char → Bool
  | '.' :: c :: _ => c = '*' || c = '+'
  | _ => false

/-- `(\.\*|\.\+).*(\.\*|\.\+)` somewhere. -/
def hasRepeatedWildcard (scrubbed : List Char) : Bool :=
  scrubbed.tails.any fun l =>
    startsBroadWildcard l &&
      ((l.drop 2).takeWhile (!endsLine ·)).tails.any startsBroadWildcard

def isSafeRegexPattern (pattern : String) : Bool :=
  let chars := pattern.toList
  let scrubbed := scrubChars .plain chars
  pattern ≠ "" && length pattern ≤ MAX_REGEX_PATTERN_CHARS && !hasBackreference chars &&
    !hasLookaround chars && scrubbed.count '(' ≤ MAX_REGEX_GROUPS &&
    quantifierCount scrubbed ≤ MAX_REGEX_QUANTIFIERS && !hasNestedQuantifier scrubbed &&
    !hasQuantifiedAlternation scrubbed && !hasRepeatedWildcard scrubbed

/-! ## Values -/

/-- The own property of a value. A string is indexed by its characters. -/
def property (v : Json) (k : String) : Option Json :=
  match v with
  | .obj fields => Json.get fields k
  | .arr xs =>
    if k = "length" then some (.num xs.length)
    else k.toNat?.bind fun i => if toString i = k then xs[i]? else none
  | .str s =>
    if k = "length" then some (.num (length s))
    else k.toNat?.bind fun i =>
      if toString i = k then s.toList[i]?.map fun c => .str (String.singleton c) else none
  | _ => none

/-- `path.split(".")`. -/
def splitDots (path : String) : List String :=
  (path.toList.splitOn '.').map String.ofList

/-- Only objects and arrays are descended into. -/
def pathStep (cur : Option Json) (k : String) : Option Json :=
  match cur with
  | some (.obj fields) => property (.obj fields) k
  | some (.arr xs) => property (.arr xs) k
  | _ => none

def getByPath (ctx : Option Json) (path : String) : Option Json :=
  if path = "" then none else (splitDots path).foldl pathStep ctx

mutual

def deepEqual : Json → Json → Bool
  | .null, .null => true
  | .bool a, .bool b => a == b
  | .num a, .num b => a == b
  | .str a, .str b => a == b
  | .arr xs, .arr ys => deepEqualEntries xs ys
  | .obj fields, .obj fields' =>
    fields.length == fields'.length && deepEqualFields fields fields'
  | _, _ => false

def deepEqualEntries : List Json → List Json → Bool
  | [], [] => true
  | x :: xs, y :: ys => deepEqual x y && deepEqualEntries xs ys
  | _, _ => false

/-- The keys of an object are distinct, so that with as many fields the keys are the same. -/
def deepEqualFields : List (String × Json) → List (String × Json) → Bool
  | [], _ => true
  | field :: fields, fields' => deepEqualField field fields' && deepEqualFields fields fields'

def deepEqualField : String × Json → List (String × Json) → Bool
  | (k, v), fields' =>
    match Json.get fields' k with
    | some w => deepEqual v w
    | none => false

end

/-- `deepEqual` of a possibly undefined value and a pattern. -/
def deepEqualTo (value : Option Json) (pattern : Json) : Bool :=
  value.any fun v => deepEqual v pattern

/-! ## Patterns -/

section Match

variable (host : RuleHost)

/-- `Number(v)`. -/
def RuleHost.number : Json → JsNumber
  | .num q => .finite q
  | v => host.toNumber v

/-- `String(v ?? "")`. -/
def RuleHost.text : Json → String
  | .str s => s
  | .null => ""
  | v => host.printed v

/-- `typeof value === "number" && test(value)`. -/
def numberTest (value : Option Json) (test : ℚ → Bool) : Bool :=
  match value with
  | some (.num q) => test q
  | _ => false

/-- `needle` is a substring: the search of `includes`. -/
def includesText (s needle : String) : Bool :=
  s.toList.tails.any fun l => needle.toList.isPrefixOf l

def containsOp (value : Option Json) (needle : Json) : Bool :=
  match value, needle with
  | some (.str s), .str needle => includesText s needle
  | some (.arr xs), needle => xs.any (deepEqual · needle)
  | _, _ => false

def regexOp (value : Option Json) (pattern : Json) : Bool :=
  match value with
  | some (.str s) =>
    let pat := host.text pattern
    isSafeRegexPattern pat && (host.regexTest pat s).getD false
  | _ => false

/-- `opEval` of an object with a single field. -/
def opEval (op : String) (arg : Json) (value : Option Json) : Bool :=
  if op = "$eq" then deepEqualTo value arg
  else if op = "$ne" then !deepEqualTo value arg
  else if op = "$exists" then (if Json.truthy (some arg) then value.isSome else value.isNone)
  else if op = "$in" then (Json.asArray (some arg)).any fun xs => xs.any (deepEqualTo value)
  else if op = "$nin" then (Json.asArray (some arg)).any fun xs => !xs.any (deepEqualTo value)
  else if op = "$gt" then numberTest value (host.number arg).isBelow
  else if op = "$gte" then numberTest value (host.number arg).isAtMost
  else if op = "$lt" then numberTest value (host.number arg).isAbove
  else if op = "$lte" then numberTest value (host.number arg).isAtLeast
  else if op = "$contains" then containsOp value arg
  else if op = "$regex" then regexOp host value arg
  else false

/-- `keys.length === 1 && keys[0].startsWith("$")`. -/
def leafOperator : Json.Fields → Option (String × Json)
  | [field] => if "$".toList.isPrefixOf field.1.toList then some field else none
  | _ => none

/-- `"$and" in pattern || "$or" in pattern || "$not" in pattern`, the first of them. -/
def logicOperator (fields : Json.Fields) : Option String :=
  ["$and", "$or", "$not"].find? fun op => (Json.get fields op).isSome

/-- The part of a context that an entry of an object pattern is about. -/
def entryValue (ctx : Option Json) (k : String) : Option Json :=
  if '.' ∈ k.toList then getByPath ctx k
  else if Json.truthy ctx then ctx.bind (property · k) else none

/-- All elements of the pattern are in the context array. -/
def subsetMatch (pattern : List Json) (ctx : Option Json) : Bool :=
  (Json.asArray ctx).any fun xs => pattern.all fun p => xs.any (deepEqual · p)

mutual

def matchPattern : Json → Option Json → Bool
  | .obj fields, ctx =>
    match logicOperator fields with
    | some op => matchLogic op fields ctx
    | none =>
      match leafOperator fields with
      | some (op, arg) => opEval host op arg ctx
      | none => matchEntries fields ctx
  | .arr pattern, ctx => subsetMatch pattern ctx
  | .null, ctx => deepEqualTo ctx .null
  | .bool b, ctx => deepEqualTo ctx (.bool b)
  | .num q, ctx => deepEqualTo ctx (.num q)
  | .str s, ctx => deepEqualTo ctx (.str s)

/-- The entry of a logic operator. -/
def matchLogic : String → List (String × Json) → Option Json → Bool
  | _, [], _ => false
  | op, field :: fields, ctx =>
    if field.1 = op then matchOperand op field ctx else matchLogic op fields ctx

def matchOperand : String → String × Json → Option Json → Bool
  | op, (_, arg), ctx => if op = "$not" then !matchPattern arg ctx else matchOperands op arg ctx

/-- `every` for `$and`, and `some` for `$or`. -/
def matchOperands : String → Json → Option Json → Bool
  | op, .arr patterns, ctx => if op = "$and" then matchAll patterns ctx else matchAny patterns ctx
  | _, _, _ => false

def matchAll : List Json → Option Json → Bool
  | [], _ => true
  | p :: ps, ctx => matchPattern p ctx && matchAll ps ctx

def matchAny : List Json → Option Json → Bool
  | [], _ => false
  | p :: ps, ctx => matchPattern p ctx || matchAny ps ctx

def matchEntries : List (String × Json) → Option Json → Bool
  | [], _ => true
  | field :: fields, ctx => matchEntry field ctx && matchEntries fields ctx

def matchEntry : String × Json → Option Json → Bool
  | (k, v), ctx => matchPattern v (entryValue ctx k)

end

/-- `!ifJson || (isPlainObject(ifJson) && Object.keys(ifJson).length === 0)`. -/
def unconditional (ifJson : Json) : Bool :=
  match ifJson with
  | .obj [] => true
  | v => !Json.truthy (some v)

def ruleMatchesContext (ifJson exceptionsJson : Json) (ctx : Option Json) : Bool :=
  (unconditional ifJson || matchPattern host ifJson ctx) &&
    ((Json.asArray (some exceptionsJson)).getD []).all fun ex => !matchPattern host ex ctx

end Match

end AionisCore.Memory

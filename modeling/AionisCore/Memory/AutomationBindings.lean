import AionisCore.Memory.AutomationGraph

/-!
# Bindings of automation nodes

A string `$params.a.b` or `$nodes.n.a` in the inputs of a node, in a condition or among
required artifacts stands for a value of the parameters or of an earlier node's output.
-/

namespace AionisCore.Memory

open Lib Lib.JsString

structure BindingContext where
  params : Json.Fields
  /-- The map `nodeOutputs`. -/
  nodeOutputs : Json.Fields
  /-- `Number(part)` where it is finite. -/
  number : String → Option ℚ

/-- The place in an array that a part of a path names. -/
def indexOf (number : String → Option ℚ) (length : Nat) (part : String) : Option Nat :=
  (number part).bind fun q =>
    if q.den = 1 ∧ 0 ≤ q.num ∧ q.num < length then some q.num.toNat else none

/-- `getPathValue`, on the properties that objects have themselves. -/
def getPathValue (number : String → Option ℚ) : Option Json → List String → Option Json
  | cur, [] => cur
  | cur, part :: path =>
    if part = "" then getPathValue number cur path
    else
      let next := match cur with
        | some (.arr items) => (indexOf number items.length part).bind (items[·]?)
        | some (.obj fields) => Json.get fields part
        | _ => none
      match next with
      | some value => getPathValue number (some value) path
      | none => some .null

/-- A record some of whose values may be undefined. -/
abbrev ResolvedFields := List (String × Option Json)

/-- A record as `JSON.stringify` writes it. -/
def definedFields (fields : ResolvedFields) : Json.Fields :=
  fields.filterMap fun field => field.2.map (field.1, ·)

def resolvedFields (fields : Json.Fields) : ResolvedFields :=
  fields.map fun field => (field.1, some field.2)

/-- `{ ...base, ...patch }`. -/
def ResolvedFields.spread (base patch : ResolvedFields) : ResolvedFields :=
  base.map (fun field => (field.1, (patch.lookup field.1).getD field.2)) ++
    patch.filter fun field => (base.lookup field.1).isNone

mutual

def resolveBindingValue (ctx : BindingContext) : Json → Option Json
  | .str s =>
    match bindingPath "$params." s with
    | some path => getPathValue ctx.number (some (.obj ctx.params)) path
    | none =>
      match bindingPath "$nodes." s with
      | some (nodeId :: path) =>
        if trim nodeId = "" then some .null
        else getPathValue ctx.number (Json.get ctx.nodeOutputs (trim nodeId)) path
      | _ => some (.str s)
  | .arr items => some (.arr (resolveItems ctx items))
  | .obj fields => some (.obj (definedFields (resolveFields ctx fields)))
  | value => some value

/-- In an array what is undefined is written as `null`. -/
def resolveItems (ctx : BindingContext) : List Json → List Json
  | [] => []
  | item :: items => (resolveBindingValue ctx item).getD .null :: resolveItems ctx items

def resolveFields (ctx : BindingContext) : List (String × Json) → ResolvedFields
  | [] => []
  | field :: fields => resolveField ctx field :: resolveFields ctx fields

def resolveField (ctx : BindingContext) : String × Json → String × Option Json
  | (k, value) => (k, resolveBindingValue ctx value)

end

/-- `a === b`, where the surroundings say whether two objects are one. -/
def strictEqual (identical : Bool) : Json → Json → Bool
  | .obj _, .obj _ | .arr _, .arr _ => identical
  | a, b => a == b

/-- `evaluateConditionExpression` on the resolved object. -/
def evaluateCondition (ctx : BindingContext) (identical : Bool)
    (obj : ResolvedFields) : Bool :=
  let has := fun k => (obj.lookup k).isSome
  let read := fun k => (obj.lookup k).join
  let same := fun k =>
    strictEqual identical ((read "left").getD .null) ((read k).getD .null)
  if has "equals" then same "equals"
  else if has "not_equals" then !same "not_equals"
  else if has "exists" then
    match (read "exists").bind (resolveBindingValue ctx) with
    | none | some .null => false
    | some _ => true
  else Json.truthy (Json.orElse (read "value") (Json.orElse (read "result") (some (.bool false))))

def evaluateConditionExpression (expr : Option Json) (ctx : BindingContext) (identical : Bool) :
    Bool :=
  match expr with
  | some (.bool b) => b
  | some (.obj fields) => evaluateCondition ctx identical (resolveFields ctx fields)
  | expr =>
    match expr.bind (resolveBindingValue ctx) with
    | some (.obj fields) =>
      evaluateCondition ctx identical (resolvedFields fields)
    | _ => Json.truthy expr

end AionisCore.Memory

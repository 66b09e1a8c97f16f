import AionisCore.Lib.JsNumber
import AionisCore.Lib.OrderedMap

/-!
# Values of Aionis Doc

A payload value is plain data, but an object also has a prototype: the parser assigns the
fields of a payload one by one, and assigning `__proto__` replaces the prototype of the object
it is assigned to. `k in o` and `o[k]` therefore see what is inherited, the methods of
`Object.prototype` among it.
-/

namespace AionisCore.AionisDoc

open Lib

inductive AionisValue where
  | null
  | bool (b : Bool)
  | num (n : JsNumber)
  | str (s : String)
  | arr (items : List AionisValue)
  | obj (own : List (String × AionisValue)) (proto : AionisValue)
  | objectPrototype
  | method (name : String)

/-- The fields in the order of their first assignment, and the prototype. -/
@[ext]
structure AionisObject where
  own : List (String × AionisValue) := []
  proto : AionisValue := .objectPrototype

namespace AionisValue

def ofObject (o : AionisObject) : AionisValue := .obj o.own o.proto

def objectMethods : List String :=
  ["constructor", "__defineGetter__", "__defineSetter__", "hasOwnProperty", "__lookupGetter__",
    "__lookupSetter__", "isPrototypeOf", "propertyIsEnumerable", "toString", "valueOf",
    "toLocaleString"]

def arrayMethods : List String :=
  ["at", "concat", "copyWithin", "fill", "find", "findIndex", "findLast", "findLastIndex",
    "lastIndexOf", "pop", "push", "reverse", "shift", "unshift", "slice", "sort", "splice",
    "includes", "indexOf", "join", "keys", "entries", "values", "forEach", "filter", "flat",
    "flatMap", "map", "every", "some", "reduce", "reduceRight", "toReversed", "toSorted",
    "toSpliced", "with"]

/-- `!!v && typeof v === "object" && !Array.isArray(v)`, with the object's fields. -/
def asObject : AionisValue → Option AionisObject
  | .obj own proto => some ⟨own, proto⟩
  | .objectPrototype =>
    some ⟨("__proto__", .null) :: objectMethods.map fun k => (k, .method k), .null⟩
  | _ => none

/-- What an assignment to `__proto__` takes for a prototype. -/
def isPrototype : AionisValue → Bool
  | .bool _ | .num _ | .str _ => false
  | _ => true

def natural (n : Nat) : AionisValue := .num (.ofDecimal (.ofScaled false n 0))

/-- The properties of an array other than `__proto__`. -/
def arrayEntry (items : List AionisValue) (k : String) : Option AionisValue :=
  if k = "length" then some (natural items.length)
  else if k ∈ arrayMethods ∨ k ∈ objectMethods then some (.method k)
  else (List.range items.length).find? (fun i => toString i = k) >>= fun i => items[i]?

/-- The data property that the prototype chain has under a name. -/
def chainEntry : AionisValue → String → Option AionisValue
  | .obj own proto, k => (OrderedMap.getEntry k own).or (chainEntry proto k)
  | .arr items, k => arrayEntry items k
  | .objectPrototype, k => if k ∈ objectMethods then some (.method k) else none
  | _, _ => none

/-- The chain leads to the accessor `__proto__` of `Object.prototype`. -/
def reachesAccessor : AionisValue → Bool
  | .obj own proto => (OrderedMap.getEntry "__proto__" own).isNone && reachesAccessor proto
  | .arr _ | .objectPrototype | .method _ => true
  | _ => false

end AionisValue

namespace AionisObject

open AionisValue

variable (o : AionisObject)

/-- `o[k]`, absent where it is `undefined`. -/
def get (k : String) : Option AionisValue :=
  match OrderedMap.getEntry k o.own with
  | some v => some v
  | none => if k = "__proto__" ∧ reachesAccessor o.proto then some o.proto else chainEntry o.proto k

/-- `k in o` -/
def has (k : String) : Bool := (o.get k).isSome

/-- `o[k] = v` -/
def set (k : String) (v : AionisValue) : AionisObject :=
  if k = "__proto__" ∧ OrderedMap.getEntry k o.own = none ∧ reachesAccessor o.proto then
    if isPrototype v then { o with proto := v } else o
  else { o with own := OrderedMap.setEntry k v o.own }

variable {o} {k : String} {v : AionisValue}

theorem set_of_ne (hk : k ≠ "__proto__") :
    o.set k v = { o with own := OrderedMap.setEntry k v o.own } :=
  if_neg fun h => hk h.1

end AionisObject

end AionisCore.AionisDoc

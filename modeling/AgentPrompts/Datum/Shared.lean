/-! # Shared objects

Some objects are there from the start. Each family of values has a prototype, whose
members all values of the family inherit, and a maker, the function that makes such
values. The methods of prototypes and makers are functions as well.
-/

namespace AgentPrompts

inductive Family where
  | object
  | function
  | list
  | text
  | number
  | truth
  deriving DecidableEq, Repr

namespace Family

def name : Family → String
  | object => "Object"
  | function => "Function"
  | list => "Array"
  | text => "String"
  | number => "Number"
  | truth => "Boolean"

def methods : Family → List String
  | object =>
    ["__defineGetter__", "__defineSetter__", "hasOwnProperty", "__lookupGetter__",
      "__lookupSetter__", "isPrototypeOf", "propertyIsEnumerable", "toString", "valueOf",
      "toLocaleString"]
  | function => ["apply", "bind", "call", "toString"]
  | list =>
    ["at", "concat", "copyWithin", "fill", "find", "findIndex", "findLast", "findLastIndex",
      "lastIndexOf", "pop", "push", "reverse", "shift", "unshift", "slice", "sort", "splice",
      "includes", "indexOf", "join", "keys", "entries", "values", "forEach", "filter", "flat",
      "flatMap", "map", "every", "some", "reduce", "reduceRight", "toReversed", "toSorted",
      "toSpliced", "toLocaleString", "toString", "with"]
  | text =>
    ["anchor", "at", "big", "blink", "bold", "charAt", "charCodeAt", "codePointAt", "concat",
      "endsWith", "fontcolor", "fontsize", "fixed", "includes", "indexOf", "italics",
      "lastIndexOf", "link", "localeCompare", "match", "matchAll", "normalize", "padEnd",
      "padStart", "repeat", "replace", "replaceAll", "search", "slice", "small", "split",
      "strike", "sub", "substr", "substring", "sup", "startsWith", "toString", "trim",
      "trimStart", "trimLeft", "trimEnd", "trimRight", "toLocaleLowerCase",
      "toLocaleUpperCase", "toLowerCase", "toUpperCase", "valueOf", "isWellFormed",
      "toWellFormed"]
  | number => ["toExponential", "toFixed", "toPrecision", "toString", "valueOf", "toLocaleString"]
  | truth => ["toString", "valueOf"]

def makerMethods : Family → List String
  | object =>
    ["assign", "getOwnPropertyDescriptor", "getOwnPropertyDescriptors", "getOwnPropertyNames",
      "getOwnPropertySymbols", "hasOwn", "is", "preventExtensions", "seal", "create",
      "defineProperties", "defineProperty", "freeze", "getPrototypeOf", "setPrototypeOf",
      "isExtensible", "isFrozen", "isSealed", "keys", "entries", "fromEntries", "values",
      "groupBy"]
  | list => ["isArray", "from", "fromAsync", "of"]
  | text => ["fromCharCode", "fromCodePoint", "raw"]
  | number => ["isFinite", "isInteger", "isNaN", "isSafeInteger", "parseFloat", "parseInt"]
  | function | truth => []

def constants : Family → List String
  | number =>
    ["MAX_VALUE", "MIN_VALUE", "NaN", "NEGATIVE_INFINITY", "POSITIVE_INFINITY",
      "MAX_SAFE_INTEGER", "MIN_SAFE_INTEGER", "EPSILON"]
  | _ => []

end Family

inductive Shared where
  | prototype (family : Family)
  | maker (family : Family)
  | method (family : Family) (name : String)
  | makerMethod (family : Family) (name : String)
  deriving DecidableEq, Repr

namespace Shared

def isFunction : Shared → Bool
  | prototype f => f = .function
  | _ => true

/-- An object and those from which it inherits, the nearest first. -/
def line : Shared → List Shared
  | prototype .object => [prototype .object]
  | prototype f => [prototype f, prototype .object]
  | b => [b, prototype .function, prototype .object]

def parent? (b : Shared) : Option Shared := b.line.tail.head?

/-- The first name of a method that has two. -/
def firstName (name : String) : String :=
  if name = "trimLeft" then "trimStart" else if name = "trimRight" then "trimEnd" else name

def own? (name : String) : Shared → Option Shared
  | prototype f =>
    if name = "constructor" then some (maker f)
    else if name ∈ f.methods then some (method f (firstName name))
    else none
  | maker f =>
    if name = "prototype" then some (prototype f)
    else if name ∈ f.makerMethods then some (makerMethod f name)
    else none
  | _ => none

def isFixed (name : String) : Shared → Bool
  | prototype .function => name = "length" || name = "name"
  | prototype .text => name = "length"
  | prototype _ => false
  | maker f => name = "length" || name = "name" || name = "prototype" || f.constants.contains name
  | _ => name = "length" || name = "name"

/-- Whether a member can be neither read nor set. -/
def isClosed (name : String) (b : Shared) : Bool :=
  b.isFunction && (name = "caller" || name = "arguments")

def functionText (name : String) : String := "function " ++ name ++ "() \x7b [native code] \x7d"

def shown : Shared → String
  | prototype .function => functionText ""
  | prototype f => "[object " ++ f.name ++ "]"
  | maker f => functionText f.name
  | method _ name => functionText name
  | makerMethod _ name => functionText name

def text : Shared → String
  | prototype .list => ""
  | prototype .text => ""
  | prototype .number => "0"
  | prototype .truth => "false"
  | b => b.shown

end Shared

end AgentPrompts

/-!
# JSON documents

The values a JSON document is made of. A number is its digits without the point
and the count of digits after the point. Reading goes through `Record`: the
fields of a structure are given by name in an object, or by place in a list.
-/

namespace GoAtlas

/-- A JSON value. -/
inductive Json where
  | null
  | bool (value : Bool)
  | number (mantissa : Int) (places : Nat)
  | string (text : String)
  | array (items : List Json)
  | object (members : List (String × Json))
deriving Inhabited

namespace Json

/-- A whole number. -/
def nat (n : Nat) : Json :=
  .number n 0

/-- A list of texts. -/
def strings (texts : List String) : Json :=
  .array (texts.map .string)

/-- An absent value is `null`. -/
def ofOption (write : α → Json) : Option α → Json
  | none => .null
  | some value => write value

/-- The text, when the value is one. -/
def string? : Json → Option String
  | .string text => some text
  | _ => none

/-- The truth value, when the value is one. -/
def bool? : Json → Option Bool
  | .bool value => some value
  | _ => none

/-- The whole number below `bound`, when the value is one. -/
def natBelow? (bound : Nat) : Json → Option Nat
  | .number (.ofNat n) 0 => if n < bound then some n else none
  | _ => none

/-- The list whose items all read. -/
def listOf? (read : Json → Option α) : Json → Option (List α)
  | .array items => items.mapM read
  | _ => none

/-- The members of an object whose values all read. -/
def membersOf? (read : Json → Option α) : Json → Option (List (String × α))
  | .object members => members.mapM fun (key, value) => (read value).map (key, ·)
  | _ => none

/-- The value or its absence, which is written `null`. -/
def optionOf? (read : Json → Option α) : Json → Option (Option α)
  | .null => some none
  | value => (read value).map some

/-- The fields of a structure: by name, or by place. -/
inductive Record where
  | named (members : List (String × Json))
  | placed (items : List Json)

namespace Record

/-- The value of a field, by its name or its place. -/
def field? (record : Record) (name : String) (place : Nat) : Option Json :=
  match record with
  | .named members => members.lookup name
  | .placed items => items[place]?

/-- A field that has to be there. -/
def required (record : Record) (name : String) (place : Nat) (read : Json → Option α) :
    Option α :=
  (record.field? name place).bind read

/-- A field that may be absent. -/
def optional (record : Record) (name : String) (place : Nat) (default : α)
    (read : Json → Option α) : Option α :=
  match record.field? name place with
  | some value => read value
  | none => some default

/-- A field that may be `null`, and may be left out of an object but not out of
a list. -/
def nullable (record : Record) (name : String) (place : Nat) (read : Json → Option α) :
    Option (Option α) :=
  match record.field? name place, record with
  | some value, _ => optionOf? read value
  | none, .named _ => some none
  | none, .placed _ => none

end Record

/-- The fields of a structure that has `count` of them. -/
def record? (count : Nat) : Json → Option Record
  | .object members => some (.named members)
  | .array items => if items.length ≤ count then some (.placed items) else none
  | _ => none

end Json

end GoAtlas

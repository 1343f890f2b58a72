import GoAtlas.Atlas
import GoAtlas.Json

/-!
# An atlas from a JSON document

Reading takes every document that says enough: fields that hold nothing may be
left out, unknown fields are passed over, and a structure may be given as the
list of its fields in order. A field of the wrong sort, a missing field, an
unknown kind or a place that does not fit 32 bits is refused.
-/

namespace GoAtlas

namespace Json

/-- The place of a node: a whole number of 32 bits. -/
def place? (json : Json) : Option NodeId :=
  json.natBelow? UInt32.size

/-- A list of texts. -/
def strings? (json : Json) : Option (List String) :=
  json.listOf? string?

/-- A table of places by name. -/
def places? (json : Json) : Option (Table NodeId) :=
  (json.membersOf? place?).map Table.ofList

end Json

open Json

def Name.ofJson? (json : Json) : Option Name := do
  let fields ← json.record? 3
  let package ← fields.required "package" 0 string?
  let name ← fields.required "name" 1 string?
  let path ← fields.optional "path" 2 none (optionOf? string?)
  return { package, name, path }

def Member.ofJson? (json : Json) : Option Member := do
  let fields ← json.record? 5
  let name ← fields.required "name" 0 string?
  let embedded ← fields.required "embedded" 1 bool?
  let tag ← fields.optional "tags" 2 "" string?
  let comments ← fields.optional "comment_lines" 3 [] strings?
  let type ← fields.required "type" 4 place?
  return { name, embedded, tag, comments, type }

def Signature.ofJson? (json : Json) : Option Signature := do
  let fields ← json.record? 5
  let receiver ← fields.nullable "receiver" 0 place?
  let parameters ← fields.required "parameters" 1 (listOf? place?)
  let results ← fields.required "results" 2 (listOf? place?)
  let variadic ← fields.required "variadic" 3 bool?
  let comments ← fields.optional "comment_lines" 4 [] strings?
  return { receiver, parameters, results, variadic, comments }

/-- The number of fields of the kind of a given word. -/
def Kind.fieldCount? : String → Option Nat
  | "Unknown" | "Builtin" | "Interface" | "Unsupported" => some 0
  | "Struct" | "Slice" | "Array" | "Pointer" | "Chan" | "Func" | "Alias" | "DeclarationOf" => some 1
  | "Map" => some 2
  | _ => none

/-- The kind of a given word, from its fields. -/
def Kind.ofWord? (fields : Record) : String → Option Kind
  | "Unknown" => some .unknown
  | "Builtin" => some .primitive
  | "Interface" => some .interface
  | "Unsupported" => some .unsupported
  | "Struct" => .struct <$> fields.required "members" 0 (listOf? Member.ofJson?)
  | "Map" => do
    let key ← fields.required "key" 0 place?
    let elem ← fields.required "elem" 1 place?
    return .map key elem
  | "Slice" => .slice <$> fields.required "elem" 0 place?
  | "Array" => .array <$> fields.required "elem" 0 place?
  | "Pointer" => .pointer <$> fields.required "elem" 0 place?
  | "Chan" => .chan <$> fields.required "elem" 0 place?
  | "Func" => .func <$> fields.required "signature" 0 Signature.ofJson?
  | "Alias" => .aliasOf <$> fields.required "underlying" 0 place?
  | "DeclarationOf" => .declaration <$> fields.nullable "underlying" 0 place?
  | _ => none

/-- A kind is an object with its word under `kind`, or a list that starts with
its word. -/
def Kind.ofJson? : Json → Option Kind
  | .object members => do
    let word ← (← members.lookup "kind").string?
    Kind.ofWord? (.named members) word
  | .array (word :: items) => do
    let word ← word.string?
    if items.length ≤ (← Kind.fieldCount? word) then Kind.ofWord? (.placed items) word else none
  | _ => none

def Node.ofJson? (json : Json) : Option Node := do
  let fields ← json.record? 5
  let name ← fields.required "name" 0 Name.ofJson?
  let kind ← fields.required "kind" 1 Kind.ofJson?
  let comments ← fields.optional "comment_lines" 2 [] strings?
  let earlierComments ← fields.optional "second_closest_comment_lines" 3 [] strings?
  let methods ← fields.optional "methods" 4 ∅ places?
  return { name, kind, comments, earlierComments, methods }

def Package.ofJson? (json : Json) : Option Package := do
  let fields ← json.record? 10
  let path ← fields.required "path" 0 string?
  let sourcePath ← fields.optional "source_path" 1 none (optionOf? string?)
  let name ← fields.optional "name" 2 "" string?
  let docComments ← fields.optional "doc_comments" 3 [] strings?
  let comments ← fields.optional "comments" 4 [] strings?
  let types ← fields.optional "types" 5 ∅ places?
  let functions ← fields.optional "functions" 6 ∅ places?
  let vars ← fields.optional "variables" 7 ∅ places?
  let consts ← fields.optional "constants" 8 ∅ places?
  let imports ← fields.optional "imports" 9 [] strings?
  return {
    path, sourcePath := sourcePath.map .mk, name, docComments, comments, types, functions,
    vars, consts, imports := NameSet.ofNames imports }

/-- The atlas a document describes. -/
def Atlas.ofJson? (json : Json) : Option Atlas := do
  let fields ← json.record? 2
  let packages ← fields.required "packages" 0 (membersOf? Package.ofJson?)
  let nodes ← fields.required "nodes" 1 (listOf? Node.ofJson?)
  return { packages := Table.ofList packages, nodes := nodes.toArray }

end GoAtlas

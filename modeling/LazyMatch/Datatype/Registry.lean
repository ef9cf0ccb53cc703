import LazyMatch.Datatype.Spec
import LazyMatch.Table

/-!
# Datatypes

The registry records, per datatype, the shape and the laziness of each constructor. It is filled by
declarations and read when the identifiers of phrases are resolved.

* `Registry.declare` declares a datatype: every check comes before the first change, so a failing
  declaration has no effect;
* `Registry.resolve?` resolves a tag: the bare name of a constructor, or a name qualified by its
  datatype.
-/

namespace LazyMatch

/-- A datatype: its constructors under their names, in order of declaration. -/
structure Datatype where
  name : String
  constructors : Table Constructor

/-- A datatype, written out. -/
def Datatype.quoted (d : Datatype) : String := "<datatype " ++ d.name ++ ">"

/-- The constructors of a datatype, in order of declaration. -/
def Datatype.variants (d : Datatype) : List Constructor := d.constructors.map (·.2)

/-- All datatypes under their names, and all constructors under their bare names. -/
structure Registry where
  datatypes : Table Datatype := []
  constructors : Table Constructor := []

/-- The two parts of a text around the last occurrence of a character. -/
def cutLast (sep : Char) : List Char → Option (List Char × List Char)
  | [] => none
  | c :: rest =>
    match cutLast sep rest with
    | some (head, tail) => some (c :: head, tail)
    | none => if c = sep then some ([], rest) else none

namespace Registry

/-- The registry before any declaration. -/
def empty : Registry := {}

/-- The datatype of a name. -/
def datatype? (r : Registry) (name : String) : Option Datatype := r.datatypes.get? name

/-- The constructor of an unmarked description. -/
def unmarked (datatype : String) (lazy : Bool) (spec : Spec) :
    Except DeclarationFault Constructor :=
  match spec.constructor? with
  | some (name, shape) => .ok ⟨datatype, name, lazy, shape⟩
  | none => .error (.notAConstructor spec)

/-- The constructor that a description declares in a datatype. One mark is taken off. -/
def constructorOf (datatype : String) (mode : Mode) : Spec → Except DeclarationFault Constructor
  | .marked inner =>
    if mode = .strict then .error (.markedStrict inner) else unmarked datatype true inner
  | spec => unmarked datatype (mode = .all) spec

/-- The constructors that descriptions declare, in order. A name must be new: neither registered nor
among those already `taken` by this declaration. -/
def constructorsOf (r : Registry) (datatype : String) (mode : Mode) :
    List Spec → List String → Except DeclarationFault (List Constructor)
  | [], _ => pure []
  | spec :: rest, taken => do
    let c ← constructorOf datatype mode spec
    if c.name ∈ taken || r.constructors.contains c.name then throw (.alreadyDefined c.name)
    return c :: (← constructorsOf r datatype mode rest (c.name :: taken))

/-- Enter a datatype and its constructors. -/
def enter (r : Registry) (d : Datatype) : Registry where
  datatypes := r.datatypes.put d.name d
  constructors := d.variants.foldl (fun t c => t.put c.name c) r.constructors

/-- Declare a datatype. The mode is checked first, then the name, then the descriptions in order. -/
def declare (r : Registry) (name : String) (specs : List Spec) (mode : Datum) :
    Except DeclarationFault (Datatype × Registry) := do
  let some mode := Mode.ofDatum? mode | throw (.unknownMode mode)
  if r.datatypes.contains name then throw (.alreadyDefined name)
  let constructors ← r.constructorsOf name mode specs []
  let datatype : Datatype := ⟨name, constructors.map fun c => (c.name, c)⟩
  return (datatype, r.enter datatype)

/-- The datatype and the constructor that a qualified tag names: what stands around its last dot. -/
def qualified? (tag : String) : Option (String × String) :=
  (cutLast '.' tag.toList).map fun (head, tail) => (String.ofList head, String.ofList tail)

/-- Resolve a tag: a bare name first, else a datatype and one of its constructors. -/
def resolve? (r : Registry) (tag : String) : Option Constructor :=
  match r.constructors.get? tag with
  | some c => some c
  | none =>
    match qualified? tag with
    | some (datatype, name) => (r.datatype? datatype).bind (·.constructors.get? name)
    | none => none

/-- Whether a tag resolves. -/
def contains (r : Registry) (tag : String) : Bool := (r.resolve? tag).isSome

end Registry

end LazyMatch

import Sppc.Bindings.Names
import Sppc.RecordLayout

/-!
# The classes of the bindings (`tools/main.py`)

What `map_type` makes of the type of a field, and the classes that `_record` renders on the way.  Pointers are not
followed where they are fields, so the types are trees.  No closure types are named to the generator.
-/

namespace Sppc.Bindings

/-- What the declaration of a record says of it: `tag` is empty where there is none or it is not a name. -/
structure RecordHead where
  usr : Nat
  tag : Name
  isUnion : Bool
  deriving DecidableEq, Repr

/-- What the declaration of a field says of it, and where it lies. -/
structure FieldHead where
  spelling : Name
  isBitfield : Bool
  isAnonymous : Bool
  offset : Nat
  deriving DecidableEq, Repr

mutual

/-- The types of fields, by their kinds.  An enumeration is as its integer type. -/
inductive CType
  | bool | char
  | int (unsigned : Bool) (size : Nat)
  | enum (unsigned : Bool) (size : Nat)
  | float | double
  | pointer (toFunction : Bool)
  | array (element : CType) (n : Nat)
  | incompleteArray (element : CType)
  | record (head : RecordHead) (fields : CFields)
  | other (spelling : Name) (layout : Layout)
  | typedef (name : Name) (named : CType)

inductive CFields
  | nil
  | cons (head : FieldHead) (type : CType) (rest : CFields)

end

/-- The types of `std::cffi` that a field may have. -/
inductive SppPrim
  | CBool | CUChar | CChar | CShort | CUShort | CInt | CUInt | CInt64 | CUInt64 | CFloat | CDouble | CVoidPtr
    | CSizeT | CSSizeT
  deriving DecidableEq, Repr

/-- The types of S++ that a field may have. -/
inductive SppType
  | prim (p : SppPrim)
  | array (element : SppType) (n : Nat)
  | cls (name : Name)
  deriving DecidableEq, Repr

/-- `opts`, the parts that the names of records depend on. -/
structure Options where
  prefixes : List Name
  keepPrefix : Bool
  deriving DecidableEq, Repr

/-- A class that has been rendered, and the record it was rendered for. -/
structure BoundClass where
  name : Name
  head : RecordHead
  fields : CFields
  body : ClsBody SppType

/-- `_record_names`, `_records` with the last first, `_records_in_progress`, and the names that `warnings` has for two
records. -/
structure GenState where
  names : List (Nat × Name)
  records : List BoundClass
  inProgress : List Name
  clashes : List Name

def GenState.init : GenState := ⟨[], [], [], []⟩

/-! ### Names of records -/

/-- `snake_to_pascal`. -/
def snakeToPascal [Unicode] (name : Name) : Name :=
  (name.splitOn '_').flatMap fun
    | [] => []
    | c :: word => Unicode.upper c ++ word

/-- `_matching_prefix(name) or ""`. -/
def matchingPrefix (o : Options) (name : Name) : Name := (o.prefixes.find? (·.isPrefixOf name)).getD []

/-- `_record_c_name`, the type being spelt through the typedefs `spelt`. -/
def recordCName (spelt : List Name) (r : RecordHead) : Except Unsupported Name :=
  if r.tag ≠ [] ∧ ¬isReserved r.tag then .ok r.tag
  else
    match spelt.find? fun name => !isReserved name with
    | some name => .ok name
    | none => if r.tag ≠ [] then .ok r.tag else .error "anonymous record has no name to bind it by"

/-- The name of the class of a record. -/
def recordSppName [Unicode] (o : Options) (cName : Name) : Name :=
  let stripped := if o.keepPrefix then cName else orElse (cName.drop (matchingPrefix o cName).length) cName
  'C' :: snakeToPascal (stripLeadingUnderscores stripped)

/-! ### Types -/

/-- `_integer`: `SIGNED_BY_SIZE` and `UNSIGNED_BY_SIZE`. -/
def mapInteger (unsigned : Bool) (size : Nat) : Except Unsupported SppType :=
  match unsigned, size with
  | false, 1 => .ok (.prim .CChar)
  | false, 2 => .ok (.prim .CShort)
  | false, 4 => .ok (.prim .CInt)
  | false, 8 => .ok (.prim .CInt64)
  | true, 1 => .ok (.prim .CUChar)
  | true, 2 => .ok (.prim .CUShort)
  | true, 4 => .ok (.prim .CUInt)
  | true, 8 => .ok (.prim .CUInt64)
  | _, _ => .error "no S++ integer of its size"

/-- `NAMED_TYPEDEFS`. -/
def namedTypedef (name : Name) : Option SppPrim :=
  if name = "size_t".toList then some .CSizeT else if name = "ssize_t".toList then some .CSSizeT else none

/-- `field "..." is a bitfield` and the like. -/
def fieldReason (spelling : Name) (what : String) : String := "field \"" ++ String.ofList spelling ++ "\"" ++ what

mutual

/-- `map_type` of a field's type, spelt through the typedefs `spelt`, where `abi` are the size and the alignment of
each record.  The element of an array is `canon`: its typedefs are gone. -/
def mapType [Unicode] (o : Options) (abi : Nat → Layout) (canon : Bool) (spelt : List Name) :
    CType → GenState → Except Unsupported SppType × GenState
  | .bool, g => (.ok (.prim .CBool), g)
  | .char, g => (.ok (.prim .CUChar), g)
  | .int unsigned size, g => (mapInteger unsigned size, g)
  | .enum unsigned size, g => (mapInteger unsigned size, g)
  | .float, g => (.ok (.prim .CFloat), g)
  | .double, g => (.ok (.prim .CDouble), g)
  | .pointer _, g => (.ok (.prim .CVoidPtr), g)
  | .array element n, g =>
    match mapType o abi true [] element g with
    | (.ok e, g) => (.ok (.array e n), g)
    | (.error e, g) => (.error e, g)
  | .incompleteArray _, g => (.error "variable or flexible array", g)
  | .other _ _, g => (.error "no S++ type for it", g)
  | .typedef name named, g =>
    if canon then mapType o abi true [] named g
    else
      match namedTypedef name with
      | some p => (.ok (.prim p), g)
      | none => mapType o abi false (spelt ++ [name]) named g
  | .record head fields, g =>
    match g.names.lookup head.usr with
    | some name => (.ok (.cls name), g)
    | none =>
      match recordCName spelt head with
      | .error e => (.error e, g)
      | .ok cName =>
        let name := recordSppName o cName
        let names := (head.usr, name) :: g.names
        if name ∈ g.records.map (·.name) ∨ name ∈ g.inProgress then
          (.ok (.cls name), { g with names := names, clashes := name :: g.clashes })
        else
          let g' := { g with names := names, inProgress := name :: g.inProgress }
          let mapped := if head.isUnion then ([], g') else mapFields o abi fields g'
          let body := renderRecord head.isUnion (abi head.usr).size (abi head.usr).align mapped.1
          (.ok (.cls name), { mapped.2 with
            records := ⟨name, head, fields, body⟩ :: mapped.2.records
            inProgress := g.inProgress })

/-- The types of the fields of a record, as far as the loop of `_render_record` gets. -/
def mapFields [Unicode] (o : Options) (abi : Nat → Layout) :
    CFields → GenState → List (Name × Except String SppType) × GenState
  | .nil, g => ([], g)
  | .cons f type rest, g =>
    if f.isBitfield then ([(f.spelling, .error (fieldReason f.spelling " is a bitfield"))], g)
    else if f.isAnonymous ∨ f.spelling = [] then ([(f.spelling, .error "it has an anonymous member")], g)
    else
      match mapType o abi false [] type g with
      | (.error e, g) => ([(f.spelling, .error (fieldReason f.spelling (": " ++ e)))], g)
      | (.ok t, g) =>
        let mapped := mapFields o abi rest g
        ((f.spelling, .ok t) :: mapped.1, mapped.2)

end

/-- The generator after the types `ts`: those with which `map_type` gets to `_record`, one after the other. -/
def bindTypes [Unicode] (o : Options) (abi : Nat → Layout) (ts : List CType) : GenState :=
  ts.foldl (fun g t => (mapType o abi false [] t g).2) .init

/-! ### Layouts -/

/-- How the platform lays its types out: integers by their sizes. -/
structure Target where
  intAlign : Nat → Nat
  intAlign_pos : ∀ n, 0 < intAlign n
  float : Layout
  double : Layout
  pointer : Layout
  sizeT : Layout

/-- An integer of so many bytes. -/
def Target.int (t : Target) (size : Nat) : Layout := ⟨size, t.intAlign size⟩

def SppPrim.layout (t : Target) : SppPrim → Layout
  | .CBool | .CUChar | .CChar => t.int 1
  | .CShort | .CUShort => t.int 2
  | .CInt | .CUInt => t.int 4
  | .CInt64 | .CUInt64 => t.int 8
  | .CFloat => t.float
  | .CDouble => t.double
  | .CVoidPtr => t.pointer
  | .CSizeT | .CSSizeT => t.sizeT

/-- The layout of a type of S++, where `env` are those of the classes. -/
def SppType.layout (t : Target) (env : Name → Option Layout) : SppType → Option Layout
  | .prim p => some (p.layout t)
  | .array element n => (element.layout t env).map (.array n)
  | .cls name => env name

/-- The layout of a class by the rules of C: the offsets of its fields, and its own.  A stand-in has an array of
unsigned integers. -/
def ClsBody.layout (t : Target) (env : Name → Option Layout) : ClsBody SppType → Option (List Nat × Layout)
  | .listed fields => ((fields.map SppField.type).mapM (SppType.layout t env)).map Layout.ofFields
  | .standIn _ unit count => some (Layout.ofFields [.array count (t.int unit)])

/-- The layout of the class of a name. -/
def classLayout (t : Target) : List BoundClass → Name → Option Layout
  | [], _ => none
  | c :: older, name =>
    if c.name = name then (c.body.layout t (classLayout t older)).map (·.2) else classLayout t older name

/-- The layout of a type of C, apart from what attributes change: a record's is the compiler's. -/
def CType.layout (t : Target) (abi : Nat → Layout) (canon : Bool) : CType → Layout
  | .bool | .char => t.int 1
  | .int _ size | .enum _ size => t.int size
  | .float => t.float
  | .double => t.double
  | .pointer _ => t.pointer
  | .array element n => .array n (element.layout t abi true)
  | .incompleteArray element => .array 0 (element.layout t abi true)
  | .record head _ => abi head.usr
  | .other _ layout => layout
  | .typedef name named =>
    if canon = false ∧ (namedTypedef name).isSome then t.sizeT else named.layout t abi canon

def CFields.layouts (t : Target) (abi : Nat → Layout) : CFields → List Layout
  | .nil => []
  | .cons _ type rest => type.layout t abi false :: rest.layouts t abi

def CFields.offsets : CFields → List Nat
  | .nil => []
  | .cons f _ rest => f.offset :: rest.offsets

end Sppc.Bindings

set_option autoImplicit false

/-!
What a TOML text holds, and the rules by which its lines build up one tree of tables. A table remembers
where it comes from, because that decides who may still add to it.
-/
namespace EventHub.Toml

/-- Tables of a header of their own, tables that only lie on the way to one, tables of dotted keys, and
tables written as values, to which nothing can be added. -/
inductive Origin where
  | header
  | implied
  | dotted
  | closed
  deriving DecidableEq, Repr

/-- Floats and moments are kept as they are written. -/
inductive Item where
  | string (s : String)
  | bool (b : Bool)
  | integer (n : Int)
  | float (text : List Char)
  | moment (text : List Char)
  | array (items : List Item)
  | table (origin : Origin) (fields : List (String × Item))
  | tables (elements : List (List (String × Item)))

abbrev Fields := List (String × Item)

namespace Fields

def put (key : String) (item : Item) : Fields → Fields
  | [] => [(key, item)]
  | (k, i) :: fields => if k = key then (key, item) :: fields else (k, i) :: put key item fields

/-- Changes the table at a path, making the tables that are missing on the way. Dotted keys do not lead
into tables that have a header, and nothing leads into a closed one. In an array of tables the way
goes on in the last of them. -/
def alter (dotted : Bool) (change : Origin → Fields → Option Fields) :
    List String → Origin → Fields → Option Fields
  | [], origin, fields => change origin fields
  | key :: path, _, fields =>
    match fields.lookup key with
    | none =>
      let origin : Origin := if dotted then .dotted else .implied
      (alter dotted change path origin []).map fun inner => put key (.table origin inner) fields
    | some (.table origin inner) =>
      if origin = .closed ∨ (dotted = true ∧ origin = .header) then none
      else (alter dotted change path origin inner).map fun inner => put key (.table origin inner) fields
    | some (.tables elements) =>
      elements.getLast?.bind fun last =>
        (alter dotted change path .header last).map fun last =>
          put key (.tables (elements.dropLast ++ [last])) fields
    | some _ => none

/-- A new key in a table. Plain keys do not go into dotted tables, and dotted keys end in dotted ones. -/
def addKey (plain : Bool) (key : String) (item : Item) (origin : Origin) (fields : Fields) :
    Option Fields :=
  if (origin = .dotted ∧ plain = true) ∨ (origin ≠ .dotted ∧ plain = false) then none
  else match fields.lookup key with
    | some _ => none
    | none => some (put key item fields)

def addPair (path : List String) (item : Item) (origin : Origin) (fields : Fields) : Option Fields :=
  match path.getLast? with
  | none => none
  | some key => alter true (addKey path.dropLast.isEmpty key item) path.dropLast origin fields

/-- A header gives a table that was only implied before its own place. -/
def openTable (key : String) (_ : Origin) (fields : Fields) : Option Fields :=
  match fields.lookup key with
  | none => some (put key (.table .header []) fields)
  | some (.table .implied inner) => some (put key (.table .header inner) fields)
  | some _ => none

def openElement (key : String) (_ : Origin) (fields : Fields) : Option Fields :=
  match fields.lookup key with
  | none => some (put key (.tables [[]]) fields)
  | some (.tables elements) => some (put key (.tables (elements ++ [[]])) fields)
  | some _ => none

end Fields

inductive Statement where
  | table (path : List String)
  | element (path : List String)
  | pair (path : List String) (item : Item)

structure Draft where
  fields : Fields
  current : List String

namespace Draft

def empty : Draft := ⟨[], []⟩

def add (d : Draft) : Statement → Option Draft
  | .table path =>
    path.getLast?.bind fun key =>
      (Fields.alter false (Fields.openTable key) path.dropLast .header d.fields).map fun fields =>
        ⟨fields, path⟩
  | .element path =>
    path.getLast?.bind fun key =>
      (Fields.alter false (Fields.openElement key) path.dropLast .header d.fields).map fun fields =>
        ⟨fields, path⟩
  | .pair path item =>
    (Fields.alter false (Fields.addPair path item) d.current .header d.fields).map fun fields =>
      { d with fields := fields }

end Draft

def fieldsOf? (statements : List Statement) : Option Fields :=
  (statements.foldlM Draft.add .empty).map Draft.fields

def inlineTable? (pairs : List (List String × Item)) : Option Item :=
  (pairs.foldlM (fun fields p => Fields.addPair p.1 p.2 .header fields) []).map (.table .closed)

end EventHub.Toml

import EventHub.Json.Value
set_option autoImplicit false

namespace EventHub.Json

class Form (α : Type) where
  read? : Nat → Tree → Option α
  value : α → Value

namespace Form

def ofText? {α : Type} [Form α] (s : String) : Option α :=
  (Tree.ofText? s.toList).bind (read? nestingLimit)

def print {α : Type} [Form α] (a : α) : String := (value a).print

instance : Form Value := ⟨Value.ofTree?, id⟩

instance : Form Bool where
  read?
    | _, .bool b => some b
    | _, _ => none
  value := .bool

instance : Form String where
  read?
    | _, .string s => s
    | _, _ => none
  value := .string

/-- Absence is written as null, so a null that stands for itself is read as absence. -/
instance {α : Type} [Form α] : Form (Option α) where
  read?
    | _, .null => some none
    | depth, t => (read? depth t).map some
  value
    | none => .null
    | some a => value a

@[reducible] def ofStrings {α : Type} (parse? : String → Option α) (text : α → String) : Form α where
  read?
    | _, .string s => s.bind parse?
    | _, _ => none
  value a := .string (text a)

end Form

def uniqueField? (name : String) (fields : List (Option String × Tree)) : Option (Option Tree) :=
  match fields.filter fun f => f.1 == some name with
  | [] => some none
  | [(_, t)] => some (some t)
  | _ => none

/-- The fields of the given names, in their order; inside, none stands for a missing field. Fields of
other names are passed over, but every key has to be a text. An array gives the fields by position, and
it holds every one of them unless it may end early. -/
def fieldTrees? (names : List String) (mayEndEarly : Bool) : Tree → Option (List (Option Tree))
  | .object fields =>
    if fields.all fun f => f.1.isSome then names.mapM (uniqueField? · fields) else none
  | .array items =>
    if items.length = names.length || (mayEndEarly && items.length < names.length) then
      some (items.map some ++ List.replicate (names.length - items.length) none)
    else none
  | _ => none

def required? {α : Type} [Form α] (depth : Nat) (t : Option Tree) : Option α := t.bind (Form.read? depth)

def optional? {α : Type} [Form α] (depth : Nat) : Option Tree → Option (Option α)
  | none => some none
  | some t => Form.read? depth t

def defaulted? {α : Type} [Form α] (depth : Nat) (default : α) : Option Tree → Option α
  | none => some default
  | some t => Form.read? depth t

/-- One of several names: alone, or as the key of an object that holds nothing but a null. -/
def nameOf? : Tree → Option String
  | .string s => s
  | .object [(key, .null)] => key
  | _ => none

end EventHub.Json

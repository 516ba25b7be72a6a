import EventHub.Mask
import EventHub.Query
set_option autoImplicit false

namespace EventHub

instance : Json.Form Path := Json.Form.ofStrings (fun s => (Path.parse s).toOption) Path.text
instance : Json.Form Mask := Json.Form.ofStrings (fun s => (Mask.parse s).toOption) Mask.text

inductive Category where
  | lifecycle
  | control
  | data
  | extension (space kind : String)
  deriving DecidableEq, Repr

namespace Category

instance : Inhabited Category := ⟨.data⟩

def name : Category → String
  | .lifecycle => "Lifecycle"
  | .control => "Control"
  | .data => "Data"
  | .extension space kind => s!"{space}:{kind}"

instance : ToString Category := ⟨name⟩

def isExtension : Category → Bool
  | .extension _ _ => true
  | _ => false

def plain : List Category := [.lifecycle, .control, .data]

def ofName? (s : String) : Option Category := plain.find? fun c => c.name == s

def extensionOf? (depth : Nat) (t : Json.Tree) : Option Category :=
  match Json.fieldTrees? ["namespace", "kind"] false t with
  | some [space, kind] =>
    match Json.required? depth space, Json.required? depth kind with
    | some space, some kind => some (.extension space kind)
    | _, _ => none
  | _ => none

instance : Json.Form Category where
  read? depth t :=
    match t with
    | .object [(some "Extension", fields)] => extensionOf? depth fields
    | t => (Json.nameOf? t).bind ofName?
  value
    | .extension space kind =>
      .object [("Extension", .object [("namespace", .string space), ("kind", .string kind)])]
    | c => .string c.name

end Category

structure Event where
  id : Path
  payload : Option Json.Value
  category : Category
  address : Option Path
  deriving BEq

namespace Event

def named (id : Path) : Event := ⟨id, none, .data, none⟩

def fieldNames : List String := ["id", "payload", "category", "address"]

instance : Json.Form Event where
  read? depth t :=
    match depth, Json.fieldTrees? fieldNames false t with
    | depth + 1, some [id, payload, category, address] => do
      some
        { id := ← Json.required? depth id
          payload := ← Json.optional? depth payload
          category := ← Json.required? depth category
          address := ← Json.optional? depth address }
    | _, _ => none
  value e := .object
    [("id", Json.Form.value e.id), ("payload", Json.Form.value e.payload),
     ("category", Json.Form.value e.category), ("address", Json.Form.value e.address)]

end Event

inductive Fetch where
  | delivered (event : Event)
  | pending (status : Status)
  deriving BEq

namespace Fetch

def status : Fetch → Status
  | .delivered _ => .success
  | .pending s => s

def event? : Fetch → Option Event
  | .delivered e => some e
  | .pending _ => none

end Fetch
end EventHub

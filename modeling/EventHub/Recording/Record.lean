import EventHub.Event
import EventHub.Text.Utf8
set_option autoImplicit false

namespace EventHub

structure Record where
  id : Path
  address : Option Path
  category : Category
  payload : Option Json.Value
  deriving BEq

namespace Record

def ofEvent (e : Event) : Record := ⟨e.id, e.address, e.category, e.payload⟩

def event (r : Record) : Event := ⟨r.id, r.payload, r.category, r.address⟩

theorem event_ofEvent (e : Event) : (ofEvent e).event = e := rfl

theorem ofEvent_event (r : Record) : ofEvent r.event = r := rfl

def fieldNames : List String := ["id", "address", "category", "payload"]

instance : Json.Form Record where
  read? depth t :=
    match depth, Json.fieldTrees? fieldNames false t with
    | depth + 1, some [id, address, category, payload] => do
      some
        { id := ← Json.required? depth id
          address := ← Json.optional? depth address
          category := ← Json.required? depth category
          payload := ← Json.optional? depth payload }
    | _, _ => none
  value r := .object
    [("id", Json.Form.value r.id), ("address", Json.Form.value r.address),
     ("category", Json.Form.value r.category), ("payload", Json.Form.value r.payload)]

def line (r : Record) : String := Json.Form.print r

def ofLine? (s : String) : Option Record := Json.Form.ofText? s

end Record
end EventHub

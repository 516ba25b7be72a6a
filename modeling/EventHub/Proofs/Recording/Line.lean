import EventHub.Proofs.Json.Kept
import EventHub.Proofs.Path
import EventHub.Recording.Record
set_option autoImplicit false

namespace EventHub

namespace Record

/-- Its payload nests no deeper than the line of a record leaves room for, and its numbers are integers of
sixty-four bits. Its objects are maps, so their keys are in order as in all that is read. -/
def Plain (r : Record) : Prop := ∀ v, r.payload = some v → v.Plain 126 ∧ v.Ordered

def kept (r : Record) : Record :=
  { r with
    payload := match r.payload with
      | some .null => none
      | p => p }

theorem read?_path (depth : Nat) (p : Path) :
    Json.required? depth (some (Json.Form.value p).tree) = some p := by
  simp [Json.required?, Json.Form.read?, Json.Form.value, Json.Value.tree, Path.parse_text, Except.toOption]

theorem read?_address (depth : Nat) (p : Option Path) :
    Json.optional? depth (some (Json.Form.value p).tree) = some p := by
  cases p with
  | none => simp [Json.optional?, Json.Form.read?, Json.Form.value, Json.Value.tree]
  | some p =>
    simp [Json.optional?, Json.Form.read?, Json.Form.value, Json.Value.tree, Path.parse_text,
      Except.toOption]

theorem read?_category (depth : Nat) (c : Category) :
    Json.required? depth (some (Json.Form.value c).tree) = some c := by
  cases c with
  | lifecycle => rfl
  | control => rfl
  | data => rfl
  | extension space kind => rfl

/-- What is left of a payload when its record is read back; none if the record leaves no room for it. -/
def reread? (payload : Option Json.Value) : Option (Option Json.Value) :=
  Json.optional? 126 (some (Json.Form.value payload).tree)

theorem reread?_some (v : Json.Value) : reread? (some v) =
    match v with
    | .null => some none
    | v => (Json.Value.ofTree? 126 v.tree).map some := by
  cases v <;> rfl

theorem fieldTrees?_tree (r : Record) :
    Json.fieldTrees? fieldNames false (Json.Form.value r).tree =
      some [some (Json.Form.value r.id).tree, some (Json.Form.value r.address).tree,
        some (Json.Form.value r.category).tree, some (Json.Form.value r.payload).tree] := by
  rfl

theorem reread?_of_kept {v : Json.Value} (h : Json.Value.ofTree? 126 v.tree = some v) :
    reread? (some v) = some (match some v with
      | some .null => none
      | p => p) := by
  rw [reread?_some]
  cases v with
  | null => rfl
  | bool b => rfl
  | string s => rfl
  | int n => exact congrArg (Option.map some) h
  | float x => exact congrArg (Option.map some) h
  | array items => exact congrArg (Option.map some) h
  | object fields => exact congrArg (Option.map some) h

theorem ofLine?_line (r : Record) : ofLine? r.line = (reread? r.payload).map fun p => { r with payload := p } := by
  have ht : Json.Tree.ofText? r.line.toList = some (Json.Form.value r).tree := by
    rw [line, Json.Form.print, Json.Value.print, String.toList_ofList]
    exact Json.ofText?_text _
  have hd : Json.nestingLimit = 126 + 1 := rfl
  rw [ofLine?, Json.Form.ofText?, ht, Option.bind_some]
  simp only [Json.Form.read?, hd]
  rw [fieldTrees?_tree]
  simp only [read?_path, read?_address, read?_category, Option.bind_eq_bind, Option.bind_some]
  rw [Option.map_eq_bind]
  rfl

/-- Its payload is read back as it was written, an attached null apart. -/
def Returns (r : Record) : Prop := ∀ v, r.payload = some v → v.Fits Json.Value.Kept 126 ∧ v.Ordered

theorem Plain.returns {r : Record} (h : r.Plain) : r.Returns :=
  fun v hv => ⟨Json.Value.Plain.fits v (h v hv).1, (h v hv).2⟩

theorem Returns.ofLine?_line {r : Record} (h : r.Returns) : ofLine? r.line = some r.kept := by
  rw [Record.ofLine?_line, kept]
  unfold Returns at h
  cases hp : r.payload with
  | none => rfl
  | some v =>
    obtain ⟨hf, ho⟩ := h v hp
    rw [reread?_of_kept (Json.ofTree?_tree v hf ho)]
    rfl

/-- What a reader accepted is read back from a record if it is nested one level less than a reader allows. -/
theorem isSome_reread? {p : Option Json.Value} {depth : Nat}
    (h : ∀ v, p = some v → v.Fits Json.Value.IsNumber depth) :
    (reread? p).isSome = true ↔ ∀ v, p = some v → v.nesting ≤ 126 := by
  cases p with
  | none => exact iff_of_true rfl (by simp)
  | some v =>
    have hv := (h v rfl).isSome_iff 126
    simp only [Option.some.injEq, forall_eq']
    rw [← hv, reread?_some]
    cases v <;> simp [Json.Value.tree, Json.Value.ofTree?]

end Record
end EventHub

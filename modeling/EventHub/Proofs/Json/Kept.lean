import EventHub.Proofs.Json.Exact
import EventHub.Proofs.Json.Nested
set_option autoImplicit false

namespace EventHub.Json

mutual

def Value.Plain (depth : Nat) : Value → Prop
  | .null => True
  | .bool _ => True
  | .int n => IsWord n
  | .float _ => False
  | .string _ => True
  | .array items =>
    match depth with
    | 0 => False
    | depth + 1 => ItemsPlain depth items
  | .object fields =>
    match depth with
    | 0 => False
    | depth + 1 => FieldsPlain depth fields

def ItemsPlain (depth : Nat) : List Value → Prop
  | [] => True
  | v :: vs => v.Plain depth ∧ ItemsPlain depth vs

def FieldsPlain (depth : Nat) : List (String × Value) → Prop
  | [] => True
  | (_, v) :: fs => v.Plain depth ∧ FieldsPlain depth fs

end

mutual

def Value.nesting : Value → Nat
  | .array items => itemsNesting items + 1
  | .object fields => fieldsNesting fields + 1
  | _ => 0

def itemsNesting : List Value → Nat
  | [] => 0
  | v :: vs => max v.nesting (itemsNesting vs)

def fieldsNesting : List (String × Value) → Nat
  | [] => 0
  | (_, v) :: fs => max v.nesting (fieldsNesting fs)

end

mutual

def Value.numbers : Value → List Value
  | .int n => [.int n]
  | .float x => [.float x]
  | .array items => itemsNumbers items
  | .object fields => fieldsNumbers fields
  | _ => []

def itemsNumbers : List Value → List Value
  | [] => []
  | v :: vs => v.numbers ++ itemsNumbers vs

def fieldsNumbers : List (String × Value) → List Value
  | [] => []
  | (_, v) :: fs => v.numbers ++ fieldsNumbers fs

end

/-- Nested at most so deeply, with such numbers. -/
structure Value.Fits (number : Value → Prop) (depth : Nat) (v : Value) : Prop where
  nesting : v.nesting ≤ depth
  numbers : ∀ n ∈ v.numbers, number n

def Value.IsNumber : Value → Prop
  | .int n => IsWord n
  | .float x => x.magnitude.Finite
  | _ => False

/-- Written and read again, it is what it was. -/
def Value.Kept (n : Value) : Prop := Value.ofTree? 0 n.tree = some n

mutual

def Value.Ordered : Value → Prop
  | .array items => ItemsOrdered items
  | .object fields => (fields.map Prod.fst).Pairwise (fun j k => compare j k = .lt) ∧ FieldsOrdered fields
  | _ => True

def ItemsOrdered : List Value → Prop
  | [] => True
  | v :: vs => v.Ordered ∧ ItemsOrdered vs

def FieldsOrdered : List (String × Value) → Prop
  | [] => True
  | (_, v) :: fs => v.Ordered ∧ FieldsOrdered fs

end

section
variable {number : Value → Prop} {depth : Nat}

theorem itemsNesting_le_iff {items : List Value} : itemsNesting items ≤ depth ↔ ∀ v ∈ items, v.nesting ≤ depth := by
  induction items with
  | nil => simp [itemsNesting]
  | cons v vs ih => simp [itemsNesting, ih]

theorem fieldsNesting_le_iff {fields : List (String × Value)} :
    fieldsNesting fields ≤ depth ↔ ∀ f ∈ fields, f.2.nesting ≤ depth := by
  induction fields with
  | nil => simp [fieldsNesting]
  | cons f fs ih => simp [fieldsNesting, ih]

theorem mem_itemsNumbers {n : Value} {items : List Value} : n ∈ itemsNumbers items ↔ ∃ v ∈ items, n ∈ v.numbers := by
  induction items with
  | nil => simp [itemsNumbers]
  | cons v vs ih => simp [itemsNumbers, ih]

theorem mem_fieldsNumbers {n : Value} {fields : List (String × Value)} :
    n ∈ fieldsNumbers fields ↔ ∃ f ∈ fields, n ∈ f.2.numbers := by
  induction fields with
  | nil => simp [fieldsNumbers]
  | cons f fs ih => simp [fieldsNumbers, ih]

theorem fits_array {items : List Value} :
    (Value.array items).Fits number (depth + 1) ↔ ∀ v ∈ items, v.Fits number depth := by
  constructor
  · intro h v hv
    exact ⟨itemsNesting_le_iff.1 (Nat.le_of_succ_le_succ h.nesting) v hv,
      fun n hn => h.numbers n (mem_itemsNumbers.2 ⟨v, hv, hn⟩)⟩
  · intro h
    refine ⟨Nat.succ_le_succ (itemsNesting_le_iff.2 fun v hv => (h v hv).nesting), fun n hn => ?_⟩
    obtain ⟨v, hv, hn⟩ := mem_itemsNumbers.1 hn
    exact (h v hv).numbers n hn

theorem fits_object {fields : List (String × Value)} :
    (Value.object fields).Fits number (depth + 1) ↔ ∀ f ∈ fields, f.2.Fits number depth := by
  constructor
  · intro h f hf
    exact ⟨fieldsNesting_le_iff.1 (Nat.le_of_succ_le_succ h.nesting) f hf,
      fun n hn => h.numbers n (mem_fieldsNumbers.2 ⟨f, hf, hn⟩)⟩
  · intro h
    refine ⟨Nat.succ_le_succ (fieldsNesting_le_iff.2 fun f hf => (h f hf).nesting), fun n hn => ?_⟩
    obtain ⟨f, hf, hn⟩ := mem_fieldsNumbers.1 hn
    exact (h f hf).numbers n hn

theorem not_fits_array {items : List Value} : ¬(Value.array items).Fits number 0 :=
  fun h => Nat.not_succ_le_zero _ h.nesting

theorem not_fits_object {fields : List (String × Value)} : ¬(Value.object fields).Fits number 0 :=
  fun h => Nat.not_succ_le_zero _ h.nesting

theorem fits_scalar {v : Value} (hd : v.nesting = 0) (hn : v.numbers = []) : v.Fits number depth :=
  ⟨hd ▸ Nat.zero_le _, by simp [hn]⟩

theorem fits_int {n : Int} : (Value.int n).Fits number depth ↔ number (.int n) :=
  ⟨fun h => h.numbers _ (by simp [Value.numbers]), fun h => ⟨Nat.zero_le _, by simpa [Value.numbers] using h⟩⟩

theorem fits_float {x : Binary64} : (Value.float x).Fits number depth ↔ number (.float x) :=
  ⟨fun h => h.numbers _ (by simp [Value.numbers]), fun h => ⟨Nat.zero_le _, by simpa [Value.numbers] using h⟩⟩

end

theorem kept_int {n : Int} (h : IsWord n) : (Value.int n).Kept := value?_numeralOf h

mutual

theorem Value.Plain.fits (v : Value) {depth : Nat} (h : v.Plain depth) : v.Fits Value.Kept depth := by
  match v, h with
  | .null, _ => exact fits_scalar rfl rfl
  | .bool _, _ => exact fits_scalar rfl rfl
  | .int n, h => exact fits_int.2 (kept_int h)
  | .string _, _ => exact fits_scalar rfl rfl
  | .array items, h =>
    cases depth with
    | zero => exact absurd h (by simp [Value.Plain])
    | succ depth => exact fits_array.2 (fits_of_itemsPlain items h)
  | .object fields, h =>
    cases depth with
    | zero => exact absurd h (by simp [Value.Plain])
    | succ depth => exact fits_object.2 (fits_of_fieldsPlain fields h)

theorem fits_of_itemsPlain (items : List Value) {depth : Nat} (h : ItemsPlain depth items) :
    ∀ v ∈ items, v.Fits Value.Kept depth := by
  match items, h with
  | [], _ => simp
  | v :: vs, ⟨hv, hvs⟩ =>
    exact List.forall_mem_cons.2 ⟨Value.Plain.fits v hv, fits_of_itemsPlain vs hvs⟩

theorem fits_of_fieldsPlain (fields : List (String × Value)) {depth : Nat} (h : FieldsPlain depth fields) :
    ∀ f ∈ fields, f.2.Fits Value.Kept depth := by
  match fields, h with
  | [], _ => simp
  | (k, v) :: fs, ⟨hv, hfs⟩ =>
    exact List.forall_mem_cons.2 ⟨Value.Plain.fits v hv, fits_of_fieldsPlain fs hfs⟩

end

theorem putField_of_gt {α : Type} (k : String) (v : α) (done : List (String × α))
    (h : ∀ f ∈ done, compare f.1 k = .lt) : putField k v done = done ++ [(k, v)] := by
  induction done with
  | nil => rfl
  | cons f fs ih =>
    obtain ⟨j, w⟩ := f
    have hgt : compare k j = .gt := Std.OrientedCmp.gt_iff_lt.2 (h (j, w) List.mem_cons_self)
    rw [putField, hgt, ih fun g hg => h g (List.mem_cons_of_mem _ hg)]
    rfl

theorem lt_of_mem_concat {α : Type} {done fields : List (String × α)} {f : String × α}
    (hd : ∀ d ∈ done, ∀ g ∈ f :: fields, compare d.1 g.1 = .lt)
    (hf : ∀ k ∈ fields.map Prod.fst, compare f.1 k = .lt) :
    ∀ d ∈ done ++ [f], ∀ g ∈ fields, compare d.1 g.1 = .lt := by
  intro d hmem g hg
  rcases List.mem_append.1 hmem with hmem | hmem
  · exact hd d hmem g (List.mem_cons_of_mem f hg)
  · rw [List.mem_singleton.1 hmem]
    exact hf g.1 (List.mem_map_of_mem hg)

mutual

/-- A value is read back from its tree as far as its numbers are. -/
theorem ofTree?_tree (v : Value) {depth : Nat} (h : v.Fits Value.Kept depth) (ho : v.Ordered) :
    Value.ofTree? depth v.tree = some v := by
  match v, h, ho with
  | .null, _, _ => simp [Value.tree, Value.ofTree?]
  | .bool b, _, _ => simp [Value.tree, Value.ofTree?]
  | .int n, h, _ => exact fits_int.1 h
  | .float x, h, _ => exact fits_float.1 h
  | .string s, _, _ => simp [Value.tree, Value.ofTree?]
  | .array items, h, ho =>
    cases depth with
    | zero => exact absurd h not_fits_array
    | succ depth => simp [Value.tree, Value.ofTree?, valuesOfTrees?_trees items (fits_array.1 h) ho]
  | .object fields, h, ho =>
    cases depth with
    | zero => exact absurd h not_fits_object
    | succ depth =>
      have hf := fieldsOfTrees?_trees fields [] (fits_object.1 h) ho.1 ho.2 (by simp)
      simp [Value.tree, Value.ofTree?, hf]

theorem valuesOfTrees?_trees (items : List Value) {depth : Nat} (h : ∀ v ∈ items, v.Fits Value.Kept depth)
    (ho : ItemsOrdered items) : valuesOfTrees? depth (treesOfItems items) = some items := by
  match items, h, ho with
  | [], _, _ => rfl
  | v :: vs, h, ⟨hov, hovs⟩ =>
    obtain ⟨hv, hvs⟩ := List.forall_mem_cons.1 h
    simp [treesOfItems, valuesOfTrees?, ofTree?_tree v hv hov, valuesOfTrees?_trees vs hvs hovs]

theorem fieldsOfTrees?_trees (fields done : List (String × Value)) {depth : Nat}
    (h : ∀ f ∈ fields, f.2.Fits Value.Kept depth)
    (hk : (fields.map Prod.fst).Pairwise (fun j k => compare j k = .lt))
    (ho : FieldsOrdered fields) (hd : ∀ f ∈ done, ∀ g ∈ fields, compare f.1 g.1 = .lt) :
    fieldsOfTrees? depth (treesOfFields fields) done = some (done ++ fields) := by
  match fields, h, hk, ho, hd with
  | [], _, _, _, _ => simp [treesOfFields, fieldsOfTrees?]
  | (k, v) :: fs, h, hk, ⟨hov, hofs⟩, hd =>
    obtain ⟨hv, hfs⟩ := List.forall_mem_cons.1 h
    rw [List.map_cons, List.pairwise_cons] at hk
    have hput := putField_of_gt k v done fun f hf => hd f hf (k, v) List.mem_cons_self
    have hnext := fieldsOfTrees?_trees fs (done ++ [(k, v)]) hfs hk.2 hofs (lt_of_mem_concat hd hk.1)
    simp [treesOfFields, fieldsOfTrees?, ofTree?_tree v hv hov, hput, hnext]

end

theorem ofText?_of_fits {v : Value} (h : v.Fits Value.Kept nestingLimit) (ho : v.Ordered) :
    Value.ofText? v.text = some v := by
  rw [Value.ofText?, ofText?_text, Option.bind_some, ofTree?_tree v h ho]

mutual

/-- Something is read from the tree of a value if it is not nested too deeply and something is read from each
number. -/
theorem isSome_ofTree?_tree (v : Value) {depth : Nat} : (Value.ofTree? depth v.tree).isSome = true ↔
    v.Fits (fun n => (Value.ofTree? 0 n.tree).isSome = true) depth := by
  match v with
  | .null => exact iff_of_true rfl (fits_scalar rfl rfl)
  | .bool b => exact iff_of_true rfl (fits_scalar rfl rfl)
  | .int n =>
    rw [fits_int]
    rfl
  | .float x =>
    rw [fits_float]
    rfl
  | .string s => exact iff_of_true rfl (fits_scalar rfl rfl)
  | .array items =>
    cases depth with
    | zero => exact iff_of_false (by simp [Value.tree, Value.ofTree?]) not_fits_array
    | succ depth =>
      rw [fits_array, ← isSome_valuesOfTrees?_trees items, Value.tree, Value.ofTree?, Option.isSome_map]
  | .object fields =>
    cases depth with
    | zero => exact iff_of_false (by simp [Value.tree, Value.ofTree?]) not_fits_object
    | succ depth =>
      rw [fits_object, ← isSome_fieldsOfTrees?_trees fields [], Value.tree, Value.ofTree?, Option.isSome_map]

theorem isSome_valuesOfTrees?_trees (items : List Value) {depth : Nat} :
    (valuesOfTrees? depth (treesOfItems items)).isSome = true ↔
      ∀ v ∈ items, v.Fits (fun n => (Value.ofTree? 0 n.tree).isSome = true) depth := by
  match items with
  | [] => exact iff_of_true rfl (by simp)
  | v :: vs =>
    rw [List.forall_mem_cons, ← isSome_ofTree?_tree v, ← isSome_valuesOfTrees?_trees vs, treesOfItems, valuesOfTrees?]
    cases Value.ofTree? depth v.tree <;> simp

theorem isSome_fieldsOfTrees?_trees (fields done : List (String × Value)) {depth : Nat} :
    (fieldsOfTrees? depth (treesOfFields fields) done).isSome = true ↔
      ∀ f ∈ fields, f.2.Fits (fun n => (Value.ofTree? 0 n.tree).isSome = true) depth := by
  match fields with
  | [] => exact iff_of_true rfl (by simp)
  | (k, v) :: fs =>
    rw [List.forall_mem_cons, ← isSome_ofTree?_tree v, treesOfFields, fieldsOfTrees?, Option.bind_some]
    cases h : Value.ofTree? depth v.tree with
    | none => simp
    | some w => simpa using isSome_fieldsOfTrees?_trees fs (putField k w done)

end

theorem Value.IsNumber.isSome {n : Value} (h : n.IsNumber) : (Value.ofTree? 0 n.tree).isSome = true := by
  cases n with
  | int n => exact Option.isSome_of_eq_some (kept_int h)
  | float x => exact value?_floatNumeral h
  | null => cases h
  | bool b => cases h
  | string s => cases h
  | array items => cases h
  | object fields => cases h

theorem Value.Fits.isSome_iff {v : Value} {depth : Nat} (h : v.Fits Value.IsNumber depth) (room : Nat) :
    (Value.ofTree? room v.tree).isSome = true ↔ v.nesting ≤ room := by
  rw [isSome_ofTree?_tree]
  exact ⟨fun hf => hf.nesting, fun hn => ⟨hn, fun n hm => (h.numbers n hm).isSome⟩⟩

theorem mem_putField {α : Type} {key : String} {value : α} {f : String × α} {fields : List (String × α)}
    (h : f ∈ putField key value fields) : f = (key, value) ∨ f ∈ fields := by
  induction fields with
  | nil => exact .inl (List.mem_singleton.1 h)
  | cons g fs ih =>
    obtain ⟨k, v⟩ := g
    rw [putField] at h
    split at h
    · exact List.mem_cons.1 h
    · rcases List.mem_cons.1 h with h | h
      · exact .inl h
      · exact .inr (List.mem_cons_of_mem _ h)
    · rcases List.mem_cons.1 h with rfl | h
      · exact .inr List.mem_cons_self
      · rcases ih h with h | h
        · exact .inl h
        · exact .inr (List.mem_cons_of_mem _ h)

theorem pairwise_putField {α : Type} (key : String) (value : α) {fields : List (String × α)}
    (h : (fields.map Prod.fst).Pairwise (fun j k => compare j k = .lt)) :
    ((putField key value fields).map Prod.fst).Pairwise (fun j k => compare j k = .lt) := by
  induction fields with
  | nil => exact List.pairwise_singleton _ _
  | cons g fs ih =>
    obtain ⟨k, v⟩ := g
    rw [List.map_cons, List.pairwise_cons] at h
    rw [putField]
    split
    · rename_i hlt
      rw [List.map_cons, List.map_cons, List.pairwise_cons]
      refine ⟨fun j hj => ?_, List.pairwise_cons.2 h⟩
      rcases List.mem_cons.1 hj with rfl | hj
      · exact hlt
      · exact Std.TransCmp.lt_trans hlt (h.1 j hj)
    · -- the later value takes the place of the earlier one
      rename_i heq
      obtain rfl : key = k := Std.LawfulEqCmp.eq_of_compare heq
      exact List.pairwise_cons.2 h
    · rename_i hgt
      rw [List.map_cons, List.pairwise_cons]
      refine ⟨fun j hj => ?_, ih h.2⟩
      obtain ⟨f, hf, rfl⟩ := List.mem_map.1 hj
      rcases mem_putField hf with rfl | hf
      · exact Std.OrientedCmp.gt_iff_lt.1 hgt
      · exact h.1 f.1 (List.mem_map_of_mem hf)

theorem fieldsOrdered_iff {fields : List (String × Value)} :
    FieldsOrdered fields ↔ ∀ f ∈ fields, f.2.Ordered := by
  induction fields with
  | nil => simp [FieldsOrdered]
  | cons f fs ih => simp [FieldsOrdered, ih]

theorem fieldsOrdered_putField {key : String} {value : Value} {fields : List (String × Value)}
    (hv : value.Ordered) (h : FieldsOrdered fields) : FieldsOrdered (putField key value fields) := by
  rw [fieldsOrdered_iff] at h ⊢
  intro f hf
  rcases mem_putField hf with rfl | hf
  · exact hv
  · exact h f hf

theorem ordered_of_value? {n : Numeral} {v : Value} (h : n.value? = some v) : v.Ordered := by
  rw [Numeral.value?] at h
  split at h
  · cases h
    trivial
  · obtain ⟨m, -, rfl⟩ := Option.map_eq_some_iff.1 h
    trivial

mutual

/-- Whatever is read is in order, however the fields stood in the text. -/
theorem ordered_of_ofTree? (t : Tree) {depth : Nat} {v : Value} (h : Value.ofTree? depth t = some v) :
    v.Ordered := by
  match t, h with
  | .null, h =>
    cases h
    trivial
  | .bool b, h =>
    cases h
    trivial
  | .number n, h => exact ordered_of_value? h
  | .string s, h =>
    obtain ⟨s', -, rfl⟩ := Option.map_eq_some_iff.1 h
    trivial
  | .array items, h =>
    cases depth with
    | zero => cases h
    | succ depth =>
      obtain ⟨vs, hvs, rfl⟩ := Option.map_eq_some_iff.1 h
      exact ordered_of_valuesOfTrees? items hvs
  | .object fields, h =>
    cases depth with
    | zero => cases h
    | succ depth =>
      obtain ⟨fs, hfs, rfl⟩ := Option.map_eq_some_iff.1 h
      exact ordered_of_fieldsOfTrees? fields hfs .nil trivial

theorem ordered_of_valuesOfTrees? (items : List Tree) {depth : Nat} {vs : List Value}
    (h : valuesOfTrees? depth items = some vs) : ItemsOrdered vs := by
  match items, h with
  | [], h =>
    cases h
    trivial
  | t :: ts, h =>
    obtain ⟨v, hv, h⟩ := Option.bind_eq_some_iff.1 h
    obtain ⟨ws, hws, rfl⟩ := Option.map_eq_some_iff.1 h
    exact ⟨ordered_of_ofTree? t hv, ordered_of_valuesOfTrees? ts hws⟩

theorem ordered_of_fieldsOfTrees? (fields : List (Option String × Tree)) {depth : Nat}
    {done fs : List (String × Value)} (h : fieldsOfTrees? depth fields done = some fs)
    (hk : (done.map Prod.fst).Pairwise (fun j k => compare j k = .lt)) (ho : FieldsOrdered done) :
    (Value.object fs).Ordered := by
  match fields, h with
  | [], h =>
    cases h
    exact ⟨hk, ho⟩
  | (key, t) :: rest, h =>
    obtain ⟨k, hkey, h⟩ := Option.bind_eq_some_iff.1 h
    obtain ⟨v, hv, h⟩ := Option.bind_eq_some_iff.1 h
    exact ordered_of_fieldsOfTrees? rest h (pairwise_putField k v hk)
      (fieldsOrdered_putField (ordered_of_ofTree? t hv) ho)

end

theorem Numeral.fits_of_value? {n : Numeral} {v : Value} {depth : Nat} (h : n.value? = some v) :
    v.Fits Value.IsNumber depth := by
  rw [Numeral.value?] at h
  split at h
  · rename_i i hi
    cases h
    exact fits_int.2 (isWord_of_int? hi)
  · obtain ⟨m, hm, rfl⟩ := Option.map_eq_some_iff.1 h
    exact fits_float.2 (Magnitude.finite_of_ofDecimal? hm)

mutual

theorem fits_of_ofTree? (t : Tree) {depth : Nat} {v : Value} (h : Value.ofTree? depth t = some v) :
    v.Fits Value.IsNumber depth := by
  match t, h with
  | .null, h =>
    cases h
    exact fits_scalar rfl rfl
  | .bool b, h =>
    cases h
    exact fits_scalar rfl rfl
  | .number n, h => exact Numeral.fits_of_value? h
  | .string s, h =>
    obtain ⟨s', -, rfl⟩ := Option.map_eq_some_iff.1 h
    exact fits_scalar rfl rfl
  | .array items, h =>
    cases depth with
    | zero => cases h
    | succ depth =>
      obtain ⟨vs, hvs, rfl⟩ := Option.map_eq_some_iff.1 h
      exact fits_array.2 (fits_of_valuesOfTrees? items hvs)
  | .object fields, h =>
    cases depth with
    | zero => cases h
    | succ depth =>
      obtain ⟨fs, hfs, rfl⟩ := Option.map_eq_some_iff.1 h
      exact fits_object.2 (fits_of_fieldsOfTrees? fields hfs (by simp))

theorem fits_of_valuesOfTrees? (items : List Tree) {depth : Nat} {vs : List Value}
    (h : valuesOfTrees? depth items = some vs) : ∀ v ∈ vs, v.Fits Value.IsNumber depth := by
  match items, h with
  | [], h =>
    cases h
    simp
  | t :: ts, h =>
    obtain ⟨v, hv, h⟩ := Option.bind_eq_some_iff.1 h
    obtain ⟨ws, hws, rfl⟩ := Option.map_eq_some_iff.1 h
    exact List.forall_mem_cons.2 ⟨fits_of_ofTree? t hv, fits_of_valuesOfTrees? ts hws⟩

theorem fits_of_fieldsOfTrees? (fields : List (Option String × Tree)) {depth : Nat}
    {done fs : List (String × Value)} (h : fieldsOfTrees? depth fields done = some fs)
    (hd : ∀ f ∈ done, f.2.Fits Value.IsNumber depth) : ∀ f ∈ fs, f.2.Fits Value.IsNumber depth := by
  match fields, h with
  | [], h =>
    cases h
    exact hd
  | (key, t) :: rest, h =>
    obtain ⟨k, hkey, h⟩ := Option.bind_eq_some_iff.1 h
    obtain ⟨v, hv, h⟩ := Option.bind_eq_some_iff.1 h
    refine fits_of_fieldsOfTrees? rest h fun f hf => ?_
    rcases mem_putField hf with rfl | hf
    · exact fits_of_ofTree? t hv
    · exact hd f hf

end

end EventHub.Json

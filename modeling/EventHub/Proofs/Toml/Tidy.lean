import EventHub.Proofs.Toml.Document
set_option autoImplicit false

namespace EventHub.Toml

inductive Item.Tidy : Item → Prop where
  | string (s : String) : Tidy (.string s)
  | bool (b : Bool) : Tidy (.bool b)
  | integer (n : Int) : Tidy (.integer n)
  | float (text : List Char) : Tidy (.float text)
  | moment (text : List Char) : Tidy (.moment text)
  | array {items : List Item} (inside : ∀ i ∈ items, Tidy i) : Tidy (.array items)
  | table (origin : Origin) {fields : Fields} (keys : (fields.map Prod.fst).Nodup)
      (inside : ∀ p ∈ fields, Tidy p.2) : Tidy (.table origin fields)
  | tables {elements : List Fields} (keys : ∀ fields ∈ elements, (fields.map Prod.fst).Nodup)
      (inside : ∀ fields ∈ elements, ∀ p ∈ fields, Tidy p.2) : Tidy (.tables elements)

namespace Fields

structure Tidy (fields : Fields) : Prop where
  keys : (fields.map Prod.fst).Nodup
  inside : ∀ p ∈ fields, p.2.Tidy

theorem tidy_nil : Tidy [] := ⟨List.nodup_nil, fun _ hp => nomatch hp⟩

theorem tidy_table_iff (origin : Origin) (fields : Fields) : (Item.table origin fields).Tidy ↔ fields.Tidy := by
  constructor
  · rintro (_ | _ | _ | _ | _ | _ | ⟨_, keys, inside⟩ | _)
    exact ⟨keys, inside⟩
  · exact fun h => .table origin h.keys h.inside

theorem tidy_tables_iff (elements : List Fields) :
    (Item.tables elements).Tidy ↔ ∀ fields ∈ elements, fields.Tidy := by
  constructor
  · rintro (_ | _ | _ | _ | _ | _ | _ | ⟨keys, inside⟩) fields hf
    exact ⟨keys fields hf, inside fields hf⟩
  · exact fun h => .tables (fun fields hf => (h fields hf).keys) fun fields hf => (h fields hf).inside

theorem Tidy.lookup {fields : Fields} (h : fields.Tidy) {key : String} {item : Item}
    (hl : fields.lookup key = some item) : item.Tidy := by
  obtain ⟨front, back, rfl, -⟩ := List.lookup_eq_some_iff.1 hl
  exact h.inside (key, item) (List.mem_append_right front List.mem_cons_self)

theorem mem_put {key : String} {item : Item} {fields : Fields} {p : String × Item}
    (h : p ∈ put key item fields) : p = (key, item) ∨ p ∈ fields := by
  induction fields with
  | nil => exact .inl (List.mem_singleton.1 h)
  | cons f fs ih =>
    obtain ⟨k, i⟩ := f
    rw [put] at h
    split at h
    · exact (List.mem_cons.1 h).imp_right (List.mem_cons_of_mem _)
    · rcases List.mem_cons.1 h with rfl | h
      · exact .inr List.mem_cons_self
      · exact (ih h).imp_right (List.mem_cons_of_mem _)

theorem keys_put (key : String) (item : Item) {fields : Fields} (h : (fields.map Prod.fst).Nodup) :
    ((put key item fields).map Prod.fst).Nodup := by
  induction fields with
  | nil => exact List.nodup_cons.2 ⟨List.not_mem_nil, List.nodup_nil⟩
  | cons f fs ih =>
    obtain ⟨k, i⟩ := f
    rw [List.map_cons, List.nodup_cons] at h
    rw [put]
    split
    · rename_i hk
      rw [List.map_cons, List.nodup_cons]
      exact ⟨hk ▸ h.1, h.2⟩
    · rename_i hk
      rw [List.map_cons, List.nodup_cons]
      refine ⟨fun hmem => ?_, ih h.2⟩
      obtain ⟨p, hp, hpk⟩ := List.mem_map.1 hmem
      rcases mem_put hp with rfl | hp
      · exact hk hpk.symm
      · exact h.1 (hpk ▸ List.mem_map_of_mem hp)

theorem Tidy.put {fields : Fields} (h : fields.Tidy) (key : String) {item : Item} (hi : item.Tidy) :
    (Fields.put key item fields).Tidy where
  keys := keys_put key item h.keys
  inside p hp := by
    rcases mem_put hp with rfl | hp
    · exact hi
    · exact h.inside p hp

/-- A change that gives a tidy table for a tidy one, if it gives any. -/
def KeepsTidy (change : Origin → Fields → Option Fields) : Prop :=
  ∀ origin fields, fields.Tidy → ∀ changed ∈ change origin fields, changed.Tidy

theorem keepsTidy_alter (dotted : Bool) {change : Origin → Fields → Option Fields} (hc : KeepsTidy change)
    (path : List String) : KeepsTidy (alter dotted change path) := by
  induction path with
  | nil => exact hc
  | cons key path ih =>
    intro origin fields h changed hm
    rw [alter] at hm
    split at hm
    · obtain ⟨inner, hinner, rfl⟩ := Option.map_eq_some_iff.1 hm
      exact h.put key ((tidy_table_iff _ inner).2 (ih _ [] tidy_nil inner hinner))
    · rename_i o inner hl
      split at hm
      · cases hm
      · obtain ⟨inner', hinner, rfl⟩ := Option.map_eq_some_iff.1 hm
        have hin := (tidy_table_iff o inner).1 (h.lookup hl)
        exact h.put key ((tidy_table_iff o inner').2 (ih o inner hin inner' hinner))
    · rename_i elements hl
      obtain ⟨last, hlast, hm⟩ := Option.bind_eq_some_iff.1 hm
      obtain ⟨last', hlast', rfl⟩ := Option.map_eq_some_iff.1 hm
      have hin := (tidy_tables_iff elements).1 (h.lookup hl)
      have hnew := ih .header last (hin last (List.mem_of_getLast? hlast)) last' hlast'
      refine h.put key ((tidy_tables_iff _).2 fun e he => ?_)
      rcases List.mem_append.1 he with he | he
      · exact hin e (List.dropLast_subset elements he)
      · exact List.mem_singleton.1 he ▸ hnew
    · cases hm

theorem keepsTidy_addKey (plain : Bool) (key : String) {item : Item} (hi : item.Tidy) :
    KeepsTidy (addKey plain key item) := by
  intro origin fields h changed hm
  rw [addKey] at hm
  split at hm
  · cases hm
  · split at hm
    · cases hm
    · cases hm
      exact h.put key hi

theorem keepsTidy_addPair (path : List String) {item : Item} (hi : item.Tidy) : KeepsTidy (addPair path item) := by
  intro origin fields h changed hm
  rw [addPair] at hm
  split at hm
  · cases hm
  · exact keepsTidy_alter true (keepsTidy_addKey _ _ hi) _ origin fields h changed hm

theorem keepsTidy_openTable (key : String) : KeepsTidy (openTable key) := by
  intro origin fields h changed hm
  rw [openTable] at hm
  split at hm
  · cases hm
    exact h.put key ((tidy_table_iff _ _).2 tidy_nil)
  · rename_i inner hl
    cases hm
    exact h.put key ((tidy_table_iff _ inner).2 ((tidy_table_iff _ inner).1 (h.lookup hl)))
  · cases hm

theorem keepsTidy_openElement (key : String) : KeepsTidy (openElement key) := by
  intro origin fields h changed hm
  rw [openElement] at hm
  split at hm
  · cases hm
    exact h.put key ((tidy_tables_iff _).2 fun e he => List.mem_singleton.1 he ▸ tidy_nil)
  · rename_i elements hl
    cases hm
    have hin := (tidy_tables_iff elements).1 (h.lookup hl)
    refine h.put key ((tidy_tables_iff _).2 fun e he => ?_)
    rcases List.mem_append.1 he with he | he
    · exact hin e he
    · exact List.mem_singleton.1 he ▸ tidy_nil
  · cases hm

end Fields

def Statement.Tidy : Statement → Prop
  | .pair _ item => item.Tidy
  | _ => True

theorem Draft.tidy_add {d changed : Draft} {statement : Statement} (h : d.fields.Tidy) (hs : statement.Tidy)
    (hadd : d.add statement = some changed) : changed.fields.Tidy := by
  cases statement with
  | table path =>
    obtain ⟨key, -, hadd⟩ := Option.bind_eq_some_iff.1 hadd
    obtain ⟨fields, hf, rfl⟩ := Option.map_eq_some_iff.1 hadd
    exact Fields.keepsTidy_alter false (Fields.keepsTidy_openTable key) _ _ _ h fields hf
  | element path =>
    obtain ⟨key, -, hadd⟩ := Option.bind_eq_some_iff.1 hadd
    obtain ⟨fields, hf, rfl⟩ := Option.map_eq_some_iff.1 hadd
    exact Fields.keepsTidy_alter false (Fields.keepsTidy_openElement key) _ _ _ h fields hf
  | pair path item =>
    obtain ⟨fields, hf, rfl⟩ := Option.map_eq_some_iff.1 hadd
    exact Fields.keepsTidy_alter false (Fields.keepsTidy_addPair path hs) _ _ _ h fields hf

theorem holds_foldlM {σ α : Type} {step : σ → α → Option σ} (P : σ → Prop) {items : List α}
    (hstep : ∀ a ∈ items, ∀ s, P s → ∀ next ∈ step s a, P next) {s last : σ} (hs : P s)
    (h : items.foldlM step s = some last) : P last := by
  induction items generalizing s with
  | nil =>
    cases h
    exact hs
  | cons a as ih =>
    rw [List.foldlM_cons] at h
    obtain ⟨next, hnext, h⟩ := Option.bind_eq_some_iff.1 h
    have hn := hstep a List.mem_cons_self s hs next hnext
    exact ih (fun b hb => hstep b (List.mem_cons_of_mem a hb)) hn h

theorem tidy_fieldsOf? {statements : List Statement} (hs : ∀ s ∈ statements, s.Tidy) {fields : Fields}
    (h : fieldsOf? statements = some fields) : fields.Tidy := by
  obtain ⟨last, hlast, rfl⟩ := Option.map_eq_some_iff.1 h
  exact holds_foldlM (fun d : Draft => d.fields.Tidy) (fun s hm _ hd _ hadd => Draft.tidy_add hd (hs s hm) hadd)
    Fields.tidy_nil hlast

theorem tidy_inlineTable? {pairs : List (List String × Item)} (hp : ∀ p ∈ pairs, p.2.Tidy) {item : Item}
    (h : inlineTable? pairs = some item) : item.Tidy := by
  obtain ⟨fields, hf, rfl⟩ := Option.map_eq_some_iff.1 h
  have hfields := holds_foldlM Fields.Tidy
    (fun p hm fields hd => Fields.keepsTidy_addPair p.1 (hp p hm) .header fields hd) Fields.tidy_nil hf
  exact (Fields.tidy_table_iff .closed fields).2 hfields

theorem tidy_integer? {n : Int} {item : Item} (h : integer? n = some item) : item.Tidy := by
  rw [integer?] at h
  split at h
  · cases h
    exact .integer n
  · cases h

theorem tidy_readRadix {base : Nat} {cs rest : List Char} {item : Item}
    (h : readRadix base cs = some (item, rest)) : item.Tidy := by
  obtain ⟨_, -, h⟩ := Option.bind_eq_some_iff.1 h
  obtain ⟨i, hi, he⟩ := Option.map_eq_some_iff.1 h
  cases he
  exact tidy_integer? hi

theorem tidy_readNamedFloat {cs rest : List Char} {item : Item}
    (h : readNamedFloat cs = some (item, rest)) : item.Tidy := by
  rw [readNamedFloat] at h
  split at h
  · cases h
    exact .float _
  · cases h
    exact .float _
  · cases h

theorem tidy_readDecimal {cs rest : List Char} {item : Item} (h : readDecimal cs = some (item, rest)) :
    item.Tidy := by
  unfold readDecimal at h
  generalize readSign cs = sign at h
  obtain ⟨negative, unsigned⟩ := sign
  obtain ⟨⟨whole, _⟩, -, h⟩ := Option.bind_eq_some_iff.1 h
  obtain ⟨⟨fraction, _⟩, -, h⟩ := Option.bind_eq_some_iff.1 h
  obtain ⟨⟨exponent, _⟩, -, h⟩ := Option.bind_eq_some_iff.1 h
  dsimp only at h
  split at h
  · obtain ⟨i, hi, he⟩ := Option.bind_eq_some_iff.1 h
    cases he
    exact tidy_integer? hi
  · split at h
    · cases h
    · cases h
      exact .float _

theorem tidy_readNumber {cs rest : List Char} {item : Item} (h : readNumber cs = some (item, rest)) :
    item.Tidy := by
  unfold readNumber at h
  split at h
  · exact tidy_readRadix h
  · exact tidy_readRadix h
  · exact tidy_readRadix h
  · split at h
    · rename_i hf
      cases h
      exact tidy_readNamedFloat hf
    · exact tidy_readDecimal h

theorem tidy_readMoment {cs rest : List Char} {item : Item} (h : readMoment cs = some (item, rest)) :
    item.Tidy := by
  rw [readMoment] at h
  split at h
  · cases h
    exact .moment _
  · obtain ⟨_, -, he⟩ := Option.map_eq_some_iff.1 h
    cases he
    exact .moment _

mutual

theorem tidy_readItem {fuel depth : Nat} {cs rest : List Char} {item : Item}
    (h : readItem fuel depth cs = some (item, rest)) : item.Tidy := by
  cases fuel with
  | zero => cases h
  | succ fuel =>
    unfold readItem at h
    split at h
    · cases h
      exact .bool true
    · cases h
      exact .bool false
    · split at h
      · cases h
      · split at h
        · cases h
        · cases h
          exact .array (fun _ hi => nomatch hi)
        · obtain ⟨r, hr, he⟩ := Option.map_eq_some_iff.1 h
          cases he
          exact .array (tidy_readItems hr)
    · split at h
      · cases h
      · split at h
        · cases h
          exact (Fields.tidy_table_iff .closed []).2 Fields.tidy_nil
        · obtain ⟨r, hr, h⟩ := Option.bind_eq_some_iff.1 h
          obtain ⟨i, hi, he⟩ := Option.map_eq_some_iff.1 h
          cases he
          exact tidy_inlineTable? (tidy_readPairs hr) hi
    · split at h
      · cases h
        exact .string _
      · split at h
        · rename_i hm
          cases h
          exact tidy_readMoment hm
        · exact tidy_readNumber h

theorem tidy_readItems {fuel depth : Nat} {cs rest : List Char} {items : List Item}
    (h : readItems fuel depth cs = some (items, rest)) : ∀ i ∈ items, i.Tidy := by
  cases fuel with
  | zero => cases h
  | succ fuel =>
    unfold readItems at h
    obtain ⟨⟨item, cs⟩, hitem, h⟩ := Option.bind_eq_some_iff.1 h
    have htidy := tidy_readItem hitem
    have hone : ∀ i ∈ [item], i.Tidy := fun i hi => List.mem_singleton.1 hi ▸ htidy
    dsimp only at h
    split at h
    · cases h
      exact hone
    · split at h
      · cases h
        exact hone
      · obtain ⟨⟨items, rest⟩, hr, he⟩ := Option.map_eq_some_iff.1 h
        cases he
        exact List.forall_mem_cons.2 ⟨htidy, tidy_readItems hr⟩
      · cases h
    · cases h

theorem tidy_readPairs {fuel depth : Nat} {cs rest : List Char} {pairs : List (List String × Item)}
    (h : readPairs fuel depth cs = some (pairs, rest)) : ∀ p ∈ pairs, p.2.Tidy := by
  cases fuel with
  | zero => cases h
  | succ fuel =>
    unfold readPairs at h
    obtain ⟨⟨key, cs⟩, -, h⟩ := Option.bind_eq_some_iff.1 h
    dsimp only at h
    split at h
    · obtain ⟨⟨item, cs⟩, hitem, h⟩ := Option.bind_eq_some_iff.1 h
      have htidy := tidy_readItem hitem
      dsimp only at h
      split at h
      · obtain ⟨⟨pairs, rest⟩, hr, he⟩ := Option.map_eq_some_iff.1 h
        cases he
        exact List.forall_mem_cons.2 ⟨htidy, tidy_readPairs hr⟩
      · cases h
        exact fun p hp => List.mem_singleton.1 hp ▸ htidy
      · cases h
    · cases h

end

theorem tidy_readLine {cs rest : List Char} {statement : Option Statement}
    (h : readLine cs = some (statement, rest)) : ∀ s ∈ statement, s.Tidy := by
  unfold readLine at h
  split at h
  · cases h
    exact fun s hs => nomatch hs
  · obtain ⟨_, -, h⟩ := Option.bind_eq_some_iff.1 h
    dsimp only at h
    split at h
    · obtain ⟨_, -, he⟩ := Option.map_eq_some_iff.1 h
      cases he
      rintro _ ⟨⟩
      trivial
    · cases h
  · obtain ⟨_, -, h⟩ := Option.bind_eq_some_iff.1 h
    dsimp only at h
    split at h
    · obtain ⟨_, -, he⟩ := Option.map_eq_some_iff.1 h
      cases he
      rintro _ ⟨⟩
      trivial
    · cases h
  · split at h
    · cases h
      exact fun s hs => nomatch hs
    · obtain ⟨_, -, h⟩ := Option.bind_eq_some_iff.1 h
      dsimp only at h
      split at h
      · obtain ⟨⟨item, cs⟩, hitem, h⟩ := Option.bind_eq_some_iff.1 h
        obtain ⟨_, -, he⟩ := Option.map_eq_some_iff.1 h
        cases he
        rintro _ ⟨⟩
        exact tidy_readItem hitem
      · cases h

theorem tidy_readLines {fuel : Nat} {cs : List Char} {statements : List Statement}
    (h : readLines fuel cs = some statements) : ∀ s ∈ statements, s.Tidy := by
  induction fuel generalizing cs statements with
  | zero => cases h
  | succ fuel ih =>
    rw [readLines] at h
    split at h
    · cases h
      intro s hs
      cases hs
    · obtain ⟨⟨statement, rest⟩, hline, h⟩ := Option.bind_eq_some_iff.1 h
      obtain ⟨below, hbelow, rfl⟩ := Option.map_eq_some_iff.1 h
      intro s hs
      rcases List.mem_append.1 hs with hs | hs
      · exact tidy_readLine hline s (Option.mem_toList.1 hs)
      · exact ih hbelow s hs

theorem tidy_ofText? {text : String} {fields : Fields} (h : ofText? text = some fields) : fields.Tidy := by
  obtain ⟨statements, hs, h⟩ := Option.bind_eq_some_iff.1 h
  exact tidy_fieldsOf? (tidy_readLines hs) h

end EventHub.Toml

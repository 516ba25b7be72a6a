import EventHub.Proofs.Json.Double
set_option autoImplicit false

namespace EventHub.Json

mutual

def Value.tree : Value → Tree
  | .null => .null
  | .bool b => .bool b
  | .int n => .number (numeralOf n)
  | .float x => .number (floatNumeral x)
  | .string s => .string (some s)
  | .array items => .array (treesOfItems items)
  | .object fields => .object (treesOfFields fields)

def treesOfItems : List Value → List Tree
  | [] => []
  | v :: vs => v.tree :: treesOfItems vs

def treesOfFields : List (String × Value) → List (Option String × Tree)
  | [] => []
  | (k, v) :: fs => (some k, v.tree) :: treesOfFields fs

end

theorem skipGaps_cons {c : Char} (h : isGap c = false) (cs : List Char) : skipGaps (c :: cs) = c :: cs := by
  simp [skipGaps, h]

structure BeginsNumber (c : Char) : Prop where
  gap : isGap c = false
  letters : c ≠ 'n' ∧ c ≠ 't' ∧ c ≠ 'f'
  marks : c ≠ '"' ∧ c ≠ '[' ∧ c ≠ '\x7b' ∧ c ≠ ']'

theorem beginsNumber_of_isDigit {c : Char} (h : c.isDigit = true) : BeginsNumber c := by
  have hne : ∀ d : Char, d.isDigit = false → c ≠ d := by
    rintro d hd rfl
    rw [h] at hd
    cases hd
  refine ⟨?_, ⟨hne _ (by decide), hne _ (by decide), hne _ (by decide)⟩,
    hne _ (by decide), hne _ (by decide), hne _ (by decide), hne _ (by decide)⟩
  simp [isGap, hne ' ' (by decide), hne '\t' (by decide), hne '\n' (by decide), hne '\r' (by decide)]

theorem intText_eq_cons (n : Int) : ∃ c cs, intText n = c :: cs ∧ BeginsNumber c := by
  unfold intText
  split
  · exact ⟨'-', _, rfl, by decide, by decide, by decide⟩
  · obtain ⟨d, ds, hds, hd⟩ := exists_toDigits n.natAbs
    exact ⟨d, ds, hds, beginsNumber_of_isDigit hd⟩

theorem floatText_eq_cons (x : Binary64) : ∃ c cs, Decimal.text floatLayout x = c :: cs ∧ BeginsNumber c := by
  unfold Decimal.text
  split
  · exact ⟨'-', _, rfl, by decide, by decide, by decide⟩
  · obtain ⟨d, ds, hds, hd⟩ := magnitudeText_eq_cons x.magnitude
    exact ⟨d, ds, hds, beginsNumber_of_isDigit hd⟩

/-- A value begins with something visible that does not end an array. -/
theorem text_eq_cons (v : Value) : ∃ c cs, v.text = c :: cs ∧ isGap c = false ∧ c ≠ ']' := by
  cases v with
  | null => exact ⟨'n', ['u', 'l', 'l'], rfl, by decide, by decide⟩
  | bool b =>
    cases b with
    | true => exact ⟨'t', ['r', 'u', 'e'], rfl, by decide, by decide⟩
    | false => exact ⟨'f', ['a', 'l', 's', 'e'], rfl, by decide, by decide⟩
  | int n =>
    obtain ⟨c, cs, hc, hb⟩ := intText_eq_cons n
    exact ⟨c, cs, hc, hb.gap, hb.marks.2.2.2⟩
  | float x =>
    obtain ⟨c, cs, hc, hb⟩ := floatText_eq_cons x
    exact ⟨c, cs, hc, hb.gap, hb.marks.2.2.2⟩
  | string s => exact ⟨'"', _, rfl, by decide, by decide⟩
  | array items => exact ⟨'[', _, by rw [Value.text], by decide, by decide⟩
  | object fields => exact ⟨'\x7b', _, by rw [Value.text], by decide, by decide⟩

theorem read_number {cs : List Char} {n : Numeral} (hc : ∃ c ds, cs = c :: ds ∧ BeginsNumber c) (fuel : Nat)
    {rest : List Char} (hread : Numeral.read (cs ++ rest) = some (n, rest)) :
    Tree.read (fuel + 1) (cs ++ rest) = some (.number n, rest) := by
  obtain ⟨c, ds, rfl, hb⟩ := hc
  obtain ⟨hn, ht, hf⟩ := hb.letters
  obtain ⟨hq, ha, ho, -⟩ := hb.marks
  rw [List.cons_append] at hread ⊢
  rw [Tree.read, skipGaps_cons hb.gap]
  simp [hn, ht, hf, hq, ha, ho, hread]

theorem length_text_pos (v : Value) : 0 < v.text.length := by
  obtain ⟨c, cs, hc, -⟩ := text_eq_cons v
  simp [hc]

theorem itemsText_eq_cons (v : Value) (vs : List Value) :
    ∃ c cs, itemsText (v :: vs) = c :: cs ∧ isGap c = false ∧ c ≠ ']' := by
  obtain ⟨c, cs, hc, hg, hn⟩ := text_eq_cons v
  cases vs with
  | nil => exact ⟨c, cs, by rw [itemsText, hc], hg, hn⟩
  | cons w vs => exact ⟨c, _, by rw [itemsText, hc, List.cons_append], hg, hn⟩

theorem fieldsText_eq_cons (f : String × Value) (fs : List (String × Value)) :
    ∃ cs, fieldsText (f :: fs) = '"' :: cs := by
  obtain ⟨k, v⟩ := f
  cases fs with
  | nil => exact ⟨_, by rw [fieldsText, quote, List.cons_append]⟩
  | cons g fs => exact ⟨_, by rw [fieldsText, quote, List.cons_append]⟩

theorem length_text_array (items : List Value) :
    (Value.array items).text.length = (itemsText items).length + 2 := by simp [Value.text]

theorem length_text_object (fields : List (String × Value)) :
    (Value.object fields).text.length = (fieldsText fields).length + 2 := by simp [Value.text]

mutual

theorem read_text (v : Value) (rest : List Char) {fuel : Nat} (hf : 2 * v.text.length ≤ fuel + 1)
    (hr : EndsNumber rest) : Tree.read fuel (v.text ++ rest) = some (v.tree, rest) := by
  -- the length bounds the steps: a bracket costs two of them and is a character, and so is a comma
  have hpos := length_text_pos v
  cases fuel with
  | zero => omega
  | succ fuel =>
    match v with
    | .null => simp [Value.text, Tree.read, skipGaps, isGap, Value.tree]
    | .bool true => simp [Value.text, Tree.read, skipGaps, isGap, Value.tree]
    | .bool false => simp [Value.text, Tree.read, skipGaps, isGap, Value.tree]
    | .int n =>
      rw [Value.text, Value.tree]
      exact read_number (intText_eq_cons n) fuel (read_intText n hr)
    | .float x =>
      rw [Value.text, Value.tree]
      exact read_number (floatText_eq_cons x) fuel (read_floatText x hr)
    | .string s =>
      rw [Value.text, Value.tree, quote, List.cons_append, List.append_assoc, Tree.read,
        skipGaps_cons (by decide)]
      simp [readText_flatMap]
    | .array [] => simp [Value.text, itemsText, Tree.read, skipGaps, isGap, Value.tree, treesOfItems]
    | .array (w :: ws) =>
      rw [length_text_array] at hf
      have hi := read_itemsText (w :: ws) rest (by simp) (by omega : _ ≤ fuel)
      obtain ⟨c, cs, hc, hg, hn⟩ := itemsText_eq_cons w ws
      rw [hc, List.cons_append] at hi
      rw [Value.text, Value.tree, List.cons_append, List.append_assoc, Tree.read,
        skipGaps_cons (by decide), hc, List.cons_append, List.singleton_append]
      simp [skipGaps_cons hg, hn, hi]
    | .object [] => simp [Value.text, fieldsText, Tree.read, skipGaps, isGap, Value.tree, treesOfFields]
    | .object (f :: fs) =>
      rw [length_text_object] at hf
      have hi := read_fieldsText (f :: fs) rest (by simp) (by omega : _ ≤ fuel)
      obtain ⟨cs, hc⟩ := fieldsText_eq_cons f fs
      rw [hc, List.cons_append] at hi
      rw [Value.text, Value.tree, List.cons_append, List.append_assoc, Tree.read,
        skipGaps_cons (by decide), hc, List.cons_append, List.singleton_append]
      simp [skipGaps_cons (show isGap '"' = false by decide), hi]

theorem read_itemsText (items : List Value) (rest : List Char) {fuel : Nat} (hne : items ≠ [])
    (hf : 2 * (itemsText items).length ≤ fuel) :
    readItems fuel (itemsText items ++ ']' :: rest) = some (treesOfItems items, rest) := by
  match items, hne with
  | [v], _ =>
    have hpos := length_text_pos v
    rw [itemsText] at hf ⊢
    cases fuel with
    | zero => omega
    | succ fuel =>
      have h := read_text v (']' :: rest) (by omega : _ ≤ fuel + 1) (endsNumber_cons (by simp))
      simp [readItems, h, skipGaps, isGap, treesOfItems]
  | v :: w :: ws, _ =>
    have hpos := length_text_pos v
    rw [itemsText] at hf ⊢
    rw [List.length_append, List.length_cons] at hf
    cases fuel with
    | zero => omega
    | succ fuel =>
      have h := read_text v (',' :: (itemsText (w :: ws) ++ ']' :: rest)) (by omega : _ ≤ fuel + 1)
        (endsNumber_cons (by simp))
      have hi := read_itemsText (w :: ws) rest (by simp) (by omega : _ ≤ fuel)
      rw [List.append_assoc, List.cons_append]
      simp [readItems, h, skipGaps, isGap, hi, treesOfItems]

theorem read_fieldsText (fields : List (String × Value)) (rest : List Char) {fuel : Nat} (hne : fields ≠ [])
    (hf : 2 * (fieldsText fields).length ≤ fuel) :
    readFields fuel (fieldsText fields ++ '\x7d' :: rest) = some (treesOfFields fields, rest) := by
  match fields, hne with
  | [(k, v)], _ =>
    have hpos := length_text_pos v
    rw [fieldsText, List.length_append, List.length_cons] at hf
    cases fuel with
    | zero => omega
    | succ fuel =>
      have h := read_text v ('\x7d' :: rest) (by omega : _ ≤ fuel + 1) (endsNumber_cons (by simp))
      simp [fieldsText, quote, readFields, h, skipGaps, isGap, readText_flatMap, treesOfFields]
  | (k, v) :: g :: fs, _ =>
    have hpos := length_text_pos v
    rw [fieldsText, List.length_append, List.length_cons, List.length_append, List.length_cons] at hf
    cases fuel with
    | zero => omega
    | succ fuel =>
      have h := read_text v (',' :: (fieldsText (g :: fs) ++ '\x7d' :: rest))
        (by omega : _ ≤ fuel + 1) (endsNumber_cons (by simp))
      have hi := read_fieldsText (g :: fs) rest (by simp) (by omega : _ ≤ fuel)
      simp [fieldsText, quote, readFields, h, skipGaps, isGap, readText_flatMap, hi, treesOfFields]

end

theorem ofText?_text (v : Value) : Tree.ofText? v.text = some v.tree := by
  have hf : 2 * v.text.length ≤ readBound v.text + 1 := by
    rw [readBound]
    omega
  have h := read_text v [] hf endsNumber_nil
  rw [List.append_nil] at h
  rw [Tree.ofText?, h]
  rfl

theorem hexDigit_ne_newline : ∀ n < 0x20, '\n' ≠ hexDigit (n / 16) ∧ '\n' ≠ hexDigit n := by decide

theorem newline_notMem_escapeChar (c : Char) : '\n' ∉ escapeChar c := by
  unfold escapeChar
  split
  · decide
  split
  · decide
  split
  · decide
  split
  · decide
  split
  · decide
  split
  · decide
  split
  · decide
  split
  · rename_i h
    simp [hexDigit_ne_newline c.toNat h]
  · rename_i hn _ _ _
    simpa using Ne.symm hn

theorem newline_notMem_quote (s : String) : '\n' ∉ quote s := by
  simp [quote, newline_notMem_escapeChar]

theorem newline_notMem_intText (n : Int) : '\n' ∉ intText n := by
  unfold intText
  split
  · simp [newline_notMem_toDigits]
  · exact newline_notMem_toDigits _

mutual

/-- A value is written on one line, whatever its strings hold. -/
theorem newline_notMem_text (v : Value) : '\n' ∉ v.text := by
  match v with
  | .null => simp [Value.text]
  | .bool true => simp [Value.text]
  | .bool false => simp [Value.text]
  | .int n =>
    rw [Value.text]
    exact newline_notMem_intText n
  | .float x =>
    rw [Value.text]
    exact newline_notMem_floatText x
  | .string s =>
    rw [Value.text]
    exact newline_notMem_quote s
  | .array items => simp [Value.text, newline_notMem_itemsText items]
  | .object fields => simp [Value.text, newline_notMem_fieldsText fields]

theorem newline_notMem_itemsText (items : List Value) : '\n' ∉ itemsText items := by
  match items with
  | [] => simp [itemsText]
  | [v] =>
    rw [itemsText]
    exact newline_notMem_text v
  | v :: w :: ws => simp [itemsText, newline_notMem_text v, newline_notMem_itemsText (w :: ws)]

theorem newline_notMem_fieldsText (fields : List (String × Value)) : '\n' ∉ fieldsText fields := by
  match fields with
  | [] => simp [fieldsText]
  | [(k, v)] => simp [fieldsText, newline_notMem_quote k, newline_notMem_text v]
  | (k, v) :: g :: fs =>
    simp [fieldsText, newline_notMem_quote k, newline_notMem_text v, newline_notMem_fieldsText (g :: fs)]

end

end EventHub.Json

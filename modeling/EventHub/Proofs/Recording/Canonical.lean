import EventHub.Proofs.Recording.Line
set_option autoImplicit false

namespace EventHub

namespace Json.Value

/-- An integer of sixty-four bits. Zero may also be a double, as it is when it was written with a sign. -/
def IsWhole : Value → Prop
  | .int n => IsWord n
  | .float x => x.magnitude = ⟨0, Magnitude.leastExponent⟩
  | _ => False

theorem IsWhole.kept {n : Value} (h : n.IsWhole) : n.Kept := by
  cases n with
  | int n => exact kept_int h
  | float x =>
    obtain ⟨negative, magnitude⟩ := x
    obtain rfl : magnitude = ⟨0, Magnitude.leastExponent⟩ := h
    exact value?_zero negative
  | null => cases h
  | bool b => cases h
  | string s => cases h
  | array items => cases h
  | object fields => cases h

theorem eq_null_of_ofTree? {depth : Nat} {t : Tree} (h : ofTree? depth t = some .null) : t = .null := by
  cases t with
  | null => rfl
  | bool b => cases h
  | number n =>
    have hv : n.value? = some .null := h
    rw [Numeral.value?] at hv
    split at hv
    · cases hv
    · obtain ⟨m, -, he⟩ := Option.map_eq_some_iff.1 hv
      cases he
  | string s =>
    obtain ⟨s', -, he⟩ := Option.map_eq_some_iff.1 h
    cases he
  | array items =>
    cases depth with
    | zero => cases h
    | succ depth =>
      obtain ⟨vs, -, he⟩ := Option.map_eq_some_iff.1 h
      cases he
  | object fields =>
    cases depth with
    | zero => cases h
    | succ depth =>
      obtain ⟨fs, -, he⟩ := Option.map_eq_some_iff.1 h
      cases he

end Json.Value

namespace Record

theorem payload_of_optional? {depth : Nat} {t : Option Json.Tree} {v : Json.Value}
    (h : Json.optional? depth t = some (some v)) :
    v ≠ .null ∧ v.Fits Json.Value.IsNumber depth ∧ v.Ordered := by
  cases t with
  | none => cases h
  | some t =>
    by_cases ht : t = .null
    · rw [ht] at h
      cases h
    · have hread : (Json.Value.ofTree? depth t).map some = some (some v) := by
        cases t with
        | null => exact absurd rfl ht
        | bool b => exact h
        | number n => exact h
        | string s => exact h
        | array items => exact h
        | object fields => exact h
      obtain ⟨w, hw, he⟩ := Option.map_eq_some_iff.1 hread
      cases he
      exact ⟨fun hn => ht (Json.Value.eq_null_of_ofTree? (hn ▸ hw)), Json.fits_of_ofTree? t hw,
        Json.ordered_of_ofTree? t hw⟩

/-- A record that was read had room for its payload, and the payload is no null that stands for itself. -/
theorem payload_of_ofLine? {s : String} {r : Record} (h : ofLine? s = some r) {v : Json.Value}
    (hv : r.payload = some v) : v ≠ .null ∧ v.Fits Json.Value.IsNumber 126 ∧ v.Ordered := by
  obtain ⟨t, -, h⟩ := Option.bind_eq_some_iff.1 h
  simp only [Json.Form.read?] at h
  split at h
  · rename_i depth id address category field hdepth _
    obtain rfl : 126 = depth := Nat.succ.inj hdepth
    obtain ⟨_, -, h⟩ := Option.bind_eq_some_iff.1 h
    obtain ⟨_, -, h⟩ := Option.bind_eq_some_iff.1 h
    obtain ⟨_, -, h⟩ := Option.bind_eq_some_iff.1 h
    obtain ⟨payload, hpayload, h⟩ := Option.bind_eq_some_iff.1 h
    cases h
    cases hv
    exact payload_of_optional? hpayload
  · cases h

theorem kept_of_ne_null {r : Record} (h : r.payload ≠ some .null) : r.kept = r := by
  obtain ⟨id, address, category, payload⟩ := r
  rw [kept]
  split
  · rename_i hn
    exact absurd hn h
  · rfl

theorem ofLine?_line_of_ofLine? {s : String} {r : Record} (h : ofLine? s = some r)
    (whole : ∀ v, r.payload = some v → ∀ n ∈ v.numbers, n.IsWhole) : ofLine? r.line = some r := by
  have hreturns : r.Returns := by
    intro v hv
    obtain ⟨-, hfits, hordered⟩ := payload_of_ofLine? h hv
    exact ⟨⟨hfits.nesting, fun n hn => (whole v hv n hn).kept⟩, hordered⟩
  rw [hreturns.ofLine?_line, kept_of_ne_null fun hn => (payload_of_ofLine? h hn).1 rfl]

end Record
end EventHub

import EventHub.Text.Utf8
set_option autoImplicit false

namespace EventHub.Text

theorem le_toNat_ofNat {n : Nat} (hl : 0x80 ≤ n) (hu : n < 0x100) : 0x80 ≤ (UInt8.ofNat n).toNat := by
  rw [UInt8.toNat_ofNat_of_lt' hu]
  exact hl

/-- A character is written as one byte of its own value, or as bytes from `0x80` upwards. -/
theorem utf8EncodeChar_cases (c : Char) : (String.utf8EncodeChar c).map UInt8.toNat = [c.toNat] ∨
    (0x80 ≤ c.toNat ∧ ∀ b ∈ String.utf8EncodeChar c, 0x80 ≤ b.toNat) := by
  unfold String.utf8EncodeChar
  dsimp only
  by_cases h : c.val.toNat ≤ 127
  · left
    rw [if_pos h, List.map_singleton, UInt8.toNat_ofNat_of_lt' (Nat.lt_of_le_of_lt h (by decide))]
    rfl
  · have hc : 0x80 ≤ c.toNat := Nat.lt_of_not_le h
    rw [if_neg h]
    refine .inr ⟨hc, ?_⟩
    split
    · simp only [List.forall_mem_cons, List.not_mem_nil, false_implies, implies_true, and_true]
      exact ⟨le_toNat_ofNat (by omega) (by omega), le_toNat_ofNat (by omega) (by omega)⟩
    split
    · simp only [List.forall_mem_cons, List.not_mem_nil, false_implies, implies_true, and_true]
      exact ⟨le_toNat_ofNat (by omega) (by omega), le_toNat_ofNat (by omega) (by omega),
        le_toNat_ofNat (by omega) (by omega)⟩
    · simp only [List.forall_mem_cons, List.not_mem_nil, false_implies, implies_true, and_true]
      exact ⟨le_toNat_ofNat (by omega) (by omega), le_toNat_ofNat (by omega) (by omega),
        le_toNat_ofNat (by omega) (by omega), le_toNat_ofNat (by omega) (by omega)⟩

theorem eq_newline_of_mem_utf8EncodeChar {c : Char} (h : 0x0A ∈ String.utf8EncodeChar c) : c = '\n' := by
  rcases utf8EncodeChar_cases c with hone | ⟨-, hmany⟩
  · have hn := hone ▸ List.mem_map_of_mem (f := UInt8.toNat) h
    exact Char.toNat_inj.1 (List.mem_singleton.1 hn).symm
  · exact absurd (hmany _ h) (by decide)

theorem toUtf8_ofList (cs : List Char) : toUtf8 (.ofList cs) = cs.flatMap String.utf8EncodeChar := by
  simp [toUtf8, List.utf8Encode]

theorem toUtf8_append (s t : String) : toUtf8 (s ++ t) = toUtf8 s ++ toUtf8 t := by
  simp [toUtf8, String.toUTF8, String.toByteArray_append]

theorem length_le_toUtf8 (cs : List Char) : cs.length ≤ (toUtf8 (.ofList cs)).length := by
  rw [toUtf8_ofList]
  induction cs with
  | nil => exact Nat.le_refl 0
  | cons c cs ih =>
    have hpos : 0 < (String.utf8EncodeChar c).length := List.length_pos_iff.2 (by simp)
    rw [List.flatMap_cons, List.length_append, List.length_cons]
    omega

theorem toUtf8_of_ofUtf8? {bytes : List UInt8} {s : String} (h : ofUtf8? bytes = some s) : toUtf8 s = bytes := by
  rw [ofUtf8?, String.fromUTF8?] at h
  split at h
  · cases h
    rfl
  · cases h

end EventHub.Text

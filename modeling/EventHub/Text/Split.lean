set_option autoImplicit false

namespace EventHub.Text

variable {α : Type} [DecidableEq α]

/-- The pieces between the occurrences of `sep`: always one more than there are occurrences. -/
def splitOn (sep : α) : List α → List (List α)
  | [] => [[]]
  | c :: cs =>
    if c = sep then [] :: splitOn sep cs
    else match splitOn sep cs with
      | [] => [[c]]
      | p :: ps => (c :: p) :: ps

def join (sep : α) : List (List α) → List α
  | [] => []
  | [p] => p
  | p :: q :: ps => p ++ sep :: join sep (q :: ps)

theorem splitOn_ne_nil (sep : α) (cs : List α) : splitOn sep cs ≠ [] := by
  cases cs with
  | nil => simp [splitOn]
  | cons c cs =>
    by_cases h : c = sep
    · simp [splitOn, h]
    · simp only [splitOn, h, if_false]
      split <;> simp

theorem splitOn_cons_sep (sep : α) (cs : List α) :
    splitOn sep (sep :: cs) = [] :: splitOn sep cs := by simp [splitOn]

theorem splitOn_cons_ne {sep c : α} (h : c ≠ sep) (cs : List α) :
    splitOn sep (c :: cs) =
      (c :: (splitOn sep cs).head (splitOn_ne_nil sep cs)) :: (splitOn sep cs).tail := by
  rw [splitOn, if_neg h]
  split
  · rename_i hs; exact absurd hs (splitOn_ne_nil sep cs)
  · rename_i p ps hs; simp [hs]

omit [DecidableEq α] in
theorem join_cons_cons (sep : α) (p q : List α) (ps : List (List α)) :
    join sep (p :: q :: ps) = p ++ sep :: join sep (q :: ps) := rfl

omit [DecidableEq α] in
theorem join_append {sep : α} {ps qs : List (List α)} (hp : ps ≠ []) (hq : qs ≠ []) :
    join sep (ps ++ qs) = join sep ps ++ sep :: join sep qs := by
  induction ps with
  | nil => exact absurd rfl hp
  | cons p ps ih =>
    cases ps with
    | nil =>
      obtain ⟨q, qs, rfl⟩ := List.exists_cons_of_ne_nil hq
      rfl
    | cons r rs =>
      rw [List.cons_append, List.cons_append, join_cons_cons, ← List.cons_append, ih (by simp),
        join_cons_cons]
      simp

theorem join_splitOn (sep : α) (cs : List α) : join sep (splitOn sep cs) = cs := by
  induction cs with
  | nil => rfl
  | cons c cs ih =>
    obtain ⟨p, ps, hp⟩ := List.exists_cons_of_ne_nil (splitOn_ne_nil sep cs)
    by_cases h : c = sep
    · subst h
      rw [splitOn_cons_sep, hp, join_cons_cons, ← hp, ih]; rfl
    · rw [splitOn_cons_ne h]
      simp only [hp, List.head_cons, List.tail_cons] at ih ⊢
      cases ps with
      | nil => simpa [join] using ih
      | cons q qs =>
        rw [join_cons_cons] at ih ⊢
        rw [List.cons_append, ih]

theorem notMem_of_mem_splitOn {sep : α} {cs p : List α} (hp : p ∈ splitOn sep cs) : sep ∉ p := by
  induction cs generalizing p with
  | nil => simp_all [splitOn]
  | cons c cs ih =>
    by_cases h : c = sep
    · subst h
      rw [splitOn_cons_sep] at hp
      rcases List.mem_cons.1 hp with rfl | hp
      · simp
      · exact ih hp
    · rw [splitOn_cons_ne h] at hp
      rcases List.mem_cons.1 hp with rfl | hp
      · have := ih (List.head_mem (splitOn_ne_nil sep cs))
        simp only [List.mem_cons, not_or]
        exact ⟨fun e => h e.symm, this⟩
      · exact ih (List.mem_of_mem_tail hp)

theorem splitOn_of_notMem {sep : α} {cs : List α} (h : sep ∉ cs) : splitOn sep cs = [cs] := by
  induction cs with
  | nil => rfl
  | cons c cs ih =>
    simp only [List.mem_cons, not_or] at h
    rw [splitOn_cons_ne (fun e => h.1 e.symm)]
    simp [ih h.2]

theorem splitOn_append_sep (sep : α) (a b : List α) :
    splitOn sep (a ++ sep :: b) = splitOn sep a ++ splitOn sep b := by
  induction a with
  | nil => simp [splitOn]
  | cons c a ih =>
    by_cases h : c = sep
    · subst h
      rw [List.cons_append, splitOn_cons_sep, splitOn_cons_sep, ih]; rfl
    · obtain ⟨p, ps, hp⟩ := List.exists_cons_of_ne_nil (splitOn_ne_nil sep a)
      rw [List.cons_append, splitOn_cons_ne h, splitOn_cons_ne h]
      simp [ih, hp]

theorem splitOn_join {sep : α} {ps : List (List α)} (hne : ps ≠ [])
    (h : ∀ p ∈ ps, sep ∉ p) : splitOn sep (join sep ps) = ps := by
  induction ps with
  | nil => exact absurd rfl hne
  | cons p ps ih =>
    cases ps with
    | nil => simpa [join] using splitOn_of_notMem (h p (by simp))
    | cons q qs =>
      rw [join_cons_cons, splitOn_append_sep, splitOn_of_notMem (h p (by simp)),
        ih (by simp) (fun r hr => h r (List.mem_cons_of_mem p hr))]
      rfl

end EventHub.Text

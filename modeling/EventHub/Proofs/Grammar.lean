import EventHub.Proofs.Path
set_option autoImplicit false

/-!
The texts of paths and masks. Both are segments with dots between them: those of a path stand for themselves, and a
mask may have wildcards as well. Just these texts are read, and of any other the leftmost segment that does not belong
there is named.
-/
namespace EventHub

structure Segment.IsLiteral (s : Segment) : Prop where
  nonempty : s ≠ []
  undotted : '.' ∉ s
  unstarred : '*' ∉ s
  unblank : ∀ c ∈ s, Text.isBlank c = false

namespace MaskSegment

def written : MaskSegment → Segment
  | .literal s => s
  | .one => ['*']
  | .many => ['*', '*']

def IsProper : MaskSegment → Prop
  | .literal s => s.IsLiteral
  | .one | .many => True

end MaskSegment

section

variable {α β : Type}

structure IsCut (text : String) (ss : List Segment) : Prop where
  nonempty : ss ≠ []
  undotted : ∀ s ∈ ss, '.' ∉ s
  joined : text = .ofList (Text.join '.' ss)

/-- A text in which proper segments are written with dots between them. -/
structure Spells (write : β → Segment) (proper : β → Prop) (bs : List β) (text : String) : Prop where
  nonempty : bs ≠ []
  proper : ∀ b ∈ bs, proper b
  joined : text = .ofList (Text.join '.' (bs.map write))

/-- What is wrong with a text: nothing is there, or its leftmost segment that is not good is empty or something
else. -/
inductive LeftmostFault (good : Segment → Prop) (text : String) : PathError → Prop where
  | empty (nothing : text = "") : LeftmostFault good text .empty
  | emptySegment (something : text ≠ "") (before after : List Segment) (cut : IsCut text (before ++ [] :: after))
      (leftmost : ∀ s ∈ before, good s) : LeftmostFault good text (.emptySegment text)
  | invalidSegment (before after : List Segment) (s : Segment) (cut : IsCut text (before ++ s :: after))
      (leftmost : ∀ s ∈ before, good s) (nonempty : s ≠ []) (bad : ¬good s) :
      LeftmostFault good text (.invalidSegment text (.ofList s))

/-- A reader that accepts the texts that can be spelt, keeps the text and its segments, and names the leftmost
fault of any other. -/
structure ReadsSpelt (parse : String → Except PathError α) (text : α → String) (segments : α → List β)
    (write : β → Segment) (proper : β → Prop) : Prop where
  accepted : ∀ s, (∃ a, parse s = .ok a) ↔ ∃ bs, Spells write proper bs s
  kept : ∀ s a, parse s = .ok a → text a = s ∧ ∀ bs, Spells write proper bs s ↔ bs = segments a
  refused : ∀ s e, parse s = .error e ↔ LeftmostFault (fun x => ∃ b, proper b ∧ write b = x) s e

theorem isCut_iff {text : String} {ss : List Segment} : IsCut text ss ↔ ss = segmentsOf text := by
  constructor
  · rintro ⟨hne, hdot, rfl⟩
    rw [segmentsOf, String.toList_ofList, Text.splitOn_join hne hdot]
  · rintro rfl
    refine ⟨Text.splitOn_ne_nil _ _, fun s hs => Text.notMem_of_mem_splitOn hs, ?_⟩
    rw [segmentsOf, Text.join_splitOn, String.ofList_toList]

def textFault? (ok : Segment → Bool) (text : String) : Option PathError :=
  if text.isEmpty then some .empty else segmentFault ok text (segmentsOf text)

variable {ok : Segment → Bool} {good : Segment → Prop} {input : String} {ss : List Segment} {e : PathError}

theorem segmentFault_append {before : List Segment} (clean : ∀ s ∈ before, s ≠ [] ∧ ok s = true) :
    segmentFault ok input (before ++ ss) = segmentFault ok input ss := by
  induction before with
  | nil => rfl
  | cons s before ih =>
    obtain ⟨hne, hok⟩ := clean s List.mem_cons_self
    rw [List.cons_append, segmentFault, if_neg (by simpa using hne), if_neg (by simp [hok])]
    exact ih fun t ht => clean t (List.mem_cons_of_mem s ht)

inductive Refused (ok : Segment → Bool) (input : String) (s : Segment) : PathError → Prop where
  | empty (nothing : s = []) : Refused ok input s (.emptySegment input)
  | invalid (nonempty : s ≠ []) (bad : ok s = false) : Refused ok input s (.invalidSegment input (.ofList s))

theorem segmentFault_cons_of_refused {s : Segment} (h : Refused ok input s e) :
    segmentFault ok input (s :: ss) = some e := by
  rw [segmentFault]
  cases h with
  | empty nothing => rw [if_pos (by simp [nothing])]
  | invalid nonempty bad => rw [if_neg (by simpa using nonempty), if_pos (by simp [bad])]

theorem segmentFault_eq_some_iff : segmentFault ok input ss = some e ↔
    ∃ before s after, ss = before ++ s :: after ∧ (∀ t ∈ before, t ≠ [] ∧ ok t = true) ∧ Refused ok input s e := by
  constructor
  · intro h
    induction ss with
    | nil => cases h
    | cons s ss ih =>
      by_cases hne : s = []
      · rw [segmentFault_cons_of_refused (.empty hne)] at h
        cases h
        exact ⟨[], s, ss, rfl, nofun, .empty hne⟩
      · cases hok : ok s with
        | false =>
          rw [segmentFault_cons_of_refused (.invalid hne hok)] at h
          cases h
          exact ⟨[], s, ss, rfl, nofun, .invalid hne hok⟩
        | true =>
          have hs : ∀ t ∈ [s], t ≠ [] ∧ ok t = true := by simp [hne, hok]
          rw [← List.singleton_append, segmentFault_append hs] at h
          obtain ⟨before, bad, after, rfl, clean, hbad⟩ := ih h
          exact ⟨s :: before, bad, after, rfl, List.forall_mem_cons.2 ⟨⟨hne, hok⟩, clean⟩, hbad⟩
  · rintro ⟨before, s, after, rfl, clean, h⟩
    rw [segmentFault_append clean]
    exact segmentFault_cons_of_refused h

theorem textFault?_of_nonempty (something : input ≠ "") :
    textFault? ok input = segmentFault ok input (segmentsOf input) := by
  rw [textFault?, if_neg (by simpa using something)]

theorem textFault?_eq_some_iff (hgood : ∀ s, '.' ∉ s → (good s ↔ s ≠ [] ∧ ok s = true)) :
    textFault? ok input = some e ↔ LeftmostFault good input e := by
  have hclean {before after : List Segment} (cut : segmentsOf input = before ++ after) :
      (∀ s ∈ before, good s) ↔ ∀ s ∈ before, s ≠ [] ∧ ok s = true :=
    forall₂_congr fun s hs => hgood s <| (isCut_iff.2 rfl).undotted s <| cut ▸ List.mem_append_left after hs
  constructor
  · intro h
    by_cases hempty : input = ""
    · subst hempty
      cases h
      exact .empty rfl
    · rw [textFault?_of_nonempty hempty, segmentFault_eq_some_iff] at h
      obtain ⟨before, s, after, cut, clean, hs⟩ := h
      have hcut := isCut_iff.2 cut.symm
      have hbefore := (hclean cut).2 clean
      cases hs with
      | empty nothing =>
        subst nothing
        exact .emptySegment hempty before after hcut hbefore
      | invalid nonempty bad =>
        refine .invalidSegment before after s hcut hbefore nonempty ?_
        rw [hgood s (hcut.undotted s (by simp)), bad]
        simp
  · intro h
    cases h with
    | empty nothing => rw [nothing]; rfl
    | emptySegment something before after cut leftmost =>
      have hcut := isCut_iff.1 cut
      rw [textFault?_of_nonempty something, segmentFault_eq_some_iff]
      exact ⟨before, [], after, hcut.symm, (hclean hcut.symm).1 leftmost, .empty rfl⟩
    | invalidSegment before after s cut leftmost nonempty bad =>
      have hcut := isCut_iff.1 cut
      have something : input ≠ "" := by
        rintro rfl
        have hs : s ∈ segmentsOf "" := hcut ▸ List.mem_append_right before List.mem_cons_self
        exact nonempty (List.mem_singleton.1 hs)
      rw [textFault?_of_nonempty something, segmentFault_eq_some_iff]
      refine ⟨before, s, after, hcut.symm, (hclean hcut.symm).1 leftmost, .invalid nonempty ?_⟩
      rw [hgood s (cut.undotted s (by simp))] at bad
      simpa [nonempty] using bad

theorem textFault?_eq_none_iff : textFault? ok input = none ↔ ∀ s ∈ segmentsOf input, s ≠ [] ∧ ok s = true := by
  by_cases hempty : input = ""
  · subst hempty
    refine iff_of_false (Option.some_ne_none _) fun h => ?_
    exact (h [] (.head _)).1 rfl
  · rw [textFault?_of_nonempty hempty, segmentFault_eq_none_iff]

/-- How segments are read one by one, and what a proper one is written as. -/
structure Spelling (ok : Segment → Bool) (read : Segment → β) (write : β → Segment) (proper : β → Prop) : Prop where
  read_proper : ∀ s, '.' ∉ s → (proper (read s) ↔ s ≠ [] ∧ ok s = true)
  write_read : ∀ s, write (read s) = s
  read_write : ∀ b, proper b → read (write b) = b
  undotted : ∀ b, proper b → '.' ∉ write b

inductive Parsed (text : α → String) (segments : α → List β) (ok : Segment → Bool) (read : Segment → β) (s : String) :
    Except PathError α → Prop where
  | fault (e : PathError) (faulty : textFault? ok s = some e) : Parsed text segments ok read s (.error e)
  | whole (a : α) (clean : textFault? ok s = none) (kept : text a = s) (parts : segments a = (segmentsOf s).map read) :
      Parsed text segments ok read s (.ok a)

variable {read : Segment → β} {write : β → Segment} {proper : β → Prop} {bs : List β} {text : String}

theorem Spelling.written_iff (h : Spelling ok read write proper) {s : Segment} (hdot : '.' ∉ s) :
    (∃ b, proper b ∧ write b = s) ↔ s ≠ [] ∧ ok s = true := by
  rw [← h.read_proper s hdot]
  constructor
  · rintro ⟨b, hb, rfl⟩
    rw [h.read_write b hb]
    exact hb
  · exact fun hs => ⟨read s, hs, h.write_read s⟩

/-- A text can be spelt in one way, if at all. -/
theorem Spelling.spells_iff (h : Spelling ok read write proper) :
    Spells write proper bs text ↔ bs = (segmentsOf text).map read ∧ ∀ s ∈ segmentsOf text, s ≠ [] ∧ ok s = true := by
  constructor
  · rintro ⟨hne, hproper, hjoined⟩
    have hdot : ∀ s ∈ bs.map write, '.' ∉ s := by
      intro s hs
      obtain ⟨b, hb, rfl⟩ := List.mem_map.1 hs
      exact h.undotted b (hproper b hb)
    have hcut : bs.map write = segmentsOf text := isCut_iff.1 ⟨by simpa using hne, hdot, hjoined⟩
    rw [← hcut, List.map_map]
    constructor
    · have hid : bs.map (read ∘ write) = bs.map id := List.map_congr_left fun b hb => h.read_write b (hproper b hb)
      exact (hid.trans (List.map_id bs)).symm
    · intro s hs
      obtain ⟨b, hb, rfl⟩ := List.mem_map.1 hs
      exact (h.written_iff (hdot _ hs)).1 ⟨b, hproper b hb, rfl⟩
  · rintro ⟨rfl, hok⟩
    have hcut : IsCut text (segmentsOf text) := isCut_iff.2 rfl
    have hwrite : ((segmentsOf text).map read).map write = segmentsOf text := by
      rw [List.map_map]
      exact (List.map_congr_left fun s _ => h.write_read s).trans (List.map_id _)
    refine ⟨by simpa using hcut.nonempty, fun b hb => ?_, hwrite.symm ▸ hcut.joined⟩
    obtain ⟨s, hs, rfl⟩ := List.mem_map.1 hb
    exact (h.read_proper s (hcut.undotted s hs)).2 (hok s hs)

variable {textOf : α → String} {segments : α → List β} {s : String} {r : Except PathError α}

theorem Parsed.error_iff (h : Parsed textOf segments ok read s r) : r = .error e ↔ textFault? ok s = some e := by
  cases h with
  | fault e' faulty => rw [faulty, Except.error.injEq, Option.some.injEq]
  | whole a clean => simp [clean]

theorem Parsed.ok_iff (h : Parsed textOf segments ok read s r) :
    (∃ a, r = .ok a) ↔ ∀ x ∈ segmentsOf s, x ≠ [] ∧ ok x = true := by
  rw [← textFault?_eq_none_iff]
  cases h with
  | fault e faulty => simp [faulty]
  | whole a clean => exact iff_of_true ⟨a, rfl⟩ clean

theorem Parsed.parts {a : α} (h : Parsed textOf segments ok read s (.ok a)) :
    textOf a = s ∧ segments a = (segmentsOf s).map read := by
  cases h with
  | whole a clean kept parts => exact ⟨kept, parts⟩

theorem readsSpelt_of_parsed {parse : String → Except PathError α}
    (h : ∀ s, Parsed textOf segments ok read s (parse s)) (hs : Spelling ok read write proper) :
    ReadsSpelt parse textOf segments write proper := by
  refine ⟨fun s => ?_, fun s a ha => ?_, fun s e => ?_⟩
  · rw [(h s).ok_iff]
    exact ⟨fun hx => ⟨_, hs.spells_iff.2 ⟨rfl, hx⟩⟩, fun ⟨_, hb⟩ => (hs.spells_iff.1 hb).2⟩
  · obtain ⟨ht, hsegments⟩ := (ha ▸ h s).parts
    refine ⟨ht, fun bs => ?_⟩
    rw [hs.spells_iff, hsegments]
    exact and_iff_left ((h s).ok_iff.1 ⟨a, ha⟩)
  · rw [(h s).error_iff, textFault?_eq_some_iff]
    exact fun x hx => hs.written_iff hx

end

theorem Segment.isLiteral_iff {s : Segment} (hdot : '.' ∉ s) : s.IsLiteral ↔ s ≠ [] ∧ s.isPlain = true := by
  rw [isPlain, List.all_eq_true]
  simp only [Bool.and_eq_true, Bool.not_eq_true', bne_iff_ne]
  constructor
  · intro h
    refine ⟨h.nonempty, fun c hc => ⟨h.unblank c hc, ?_⟩⟩
    rintro rfl
    exact h.unstarred hc
  · rintro ⟨hne, hall⟩
    exact ⟨hne, hdot, fun hs => (hall '*' hs).2 rfl, fun c hc => (hall c hc).1⟩

theorem Path.spelling : Spelling Segment.isPlain id id Segment.IsLiteral where
  read_proper _ hdot := Segment.isLiteral_iff hdot
  write_read _ := rfl
  read_write _ _ := rfl
  undotted _ h := h.undotted

theorem Path.parsed (s : String) : Parsed text segments Segment.isPlain id s (parse s) := by
  rw [parse]
  split
  · rename_i h
    exact .fault _ (if_pos h)
  · rename_i h
    split
    · rename_i hf
      exact .fault _ ((if_neg h).trans hf)
    · rename_i hf
      exact .whole _ ((if_neg h).trans hf) rfl (List.map_id _).symm

namespace MaskSegment

theorem written_ofSegment (s : Segment) : (ofSegment s).written = s := by
  rw [ofSegment]
  split
  · rename_i h; exact h.symm
  · split
    · rename_i h; exact h.symm
    · rfl

theorem ofSegment_of_isLiteral {s : Segment} (h : s.IsLiteral) : ofSegment s = .literal s := by
  rw [ofSegment, if_neg, if_neg]
  · rintro rfl
    exact h.unstarred (by simp)
  · rintro rfl
    exact h.unstarred (by simp)

theorem ofSegment_written {m : MaskSegment} (h : m.IsProper) : ofSegment m.written = m := by
  cases m with
  | literal s => exact ofSegment_of_isLiteral h
  | one => rfl
  | many => rfl

theorem undotted_written {m : MaskSegment} (h : m.IsProper) : '.' ∉ m.written := by
  cases m with
  | literal s => exact Segment.IsLiteral.undotted h
  | one => decide
  | many => decide

theorem isProper_ofSegment_iff {s : Segment} (hdot : '.' ∉ s) :
    (ofSegment s).IsProper ↔ s ≠ [] ∧ isProper s = true := by
  by_cases h1 : s = ['*']
  · subst h1
    exact iff_of_true trivial (by decide)
  by_cases h2 : s = ['*', '*']
  · subst h2
    exact iff_of_true trivial (by decide)
  · rw [ofSegment, if_neg h1, if_neg h2]
    -- no star can be the whole segment, so none may be in it
    have hstar : isProper s = s.isPlain := by
      rw [Bool.eq_iff_iff]
      simp only [isProper, Segment.isPlain, beq_eq_false_iff_ne.2 h1, beq_eq_false_iff_ne.2 h2, Bool.or_false,
        Bool.and_eq_true, List.all_eq_true, Bool.not_eq_true', List.contains_eq_mem, decide_eq_false_iff_not,
        bne_iff_ne]
      constructor
      · rintro ⟨hblank, hfree⟩ c hc
        exact ⟨hblank c hc, fun he => hfree (he ▸ hc)⟩
      · intro h
        exact ⟨fun c hc => (h c hc).1, fun hc => (h '*' hc).2 rfl⟩
    rw [hstar]
    exact Segment.isLiteral_iff hdot

theorem spelling : Spelling isProper ofSegment written IsProper where
  read_proper _ hdot := isProper_ofSegment_iff hdot
  write_read := written_ofSegment
  read_write _ := ofSegment_written
  undotted _ := undotted_written

end MaskSegment

theorem Mask.parsed (s : String) : Parsed text segments MaskSegment.isProper MaskSegment.ofSegment s (parse s) := by
  rw [parse]
  split
  · rename_i h
    exact .fault _ (if_pos h)
  · rename_i h
    split
    · rename_i hf
      exact .fault _ ((if_neg h).trans hf)
    · rename_i hf
      exact .whole _ ((if_neg h).trans hf) rfl rfl

theorem Path.isLiteral_of_mem {p : Path} {s : Segment} (hs : s ∈ p.segments) : s.IsLiteral := by
  rw [Segment.isLiteral_iff (Text.notMem_of_mem_splitOn hs)]
  exact p.proper s hs

theorem Mask.parse_path (p : Path) : parse p.text = .ok (exact p) := by
  have hsegments : (segmentsOf p.text).map MaskSegment.ofSegment = p.segments.map .literal :=
    List.map_congr_left fun s hs => MaskSegment.ofSegment_of_isLiteral (Path.isLiteral_of_mem hs)
  have hproper : ∀ s ∈ segmentsOf p.text, s ≠ [] ∧ MaskSegment.isProper s = true := by
    intro s hs
    have hdot := Text.notMem_of_mem_splitOn hs
    rw [← MaskSegment.isProper_ofSegment_iff hdot, MaskSegment.ofSegment_of_isLiteral (Path.isLiteral_of_mem hs)]
    exact Path.isLiteral_of_mem hs
  obtain ⟨⟨text, segments⟩, hm⟩ := (parsed p.text).ok_iff.2 hproper
  obtain ⟨rfl, rfl⟩ := (hm ▸ parsed p.text).parts
  rw [hm, hsegments]
  rfl

/-- Paths and masks are read just from the texts that can be spelt with their segments, and come out as what was
spelt; any other text is refused for its leftmost fault. What is a path is a mask as well. -/
theorem paths_and_masks_as_spelt :
    ReadsSpelt Path.parse Path.text Path.segments id Segment.IsLiteral ∧
      ReadsSpelt Mask.parse Mask.text Mask.segments MaskSegment.written MaskSegment.IsProper ∧
      ∀ s p, Path.parse s = .ok p → Mask.parse s = .ok (.exact p) := by
  refine ⟨readsSpelt_of_parsed Path.parsed Path.spelling, readsSpelt_of_parsed Mask.parsed MaskSegment.spelling, ?_⟩
  intro s p h
  obtain ⟨rfl, -⟩ := (h ▸ Path.parsed s).parts
  exact Mask.parse_path p

/-- Several faults in one text. To a path the `**` is the first, to a mask the empty segment. -/
def faulty : String := "é.**..a*\u2003b"

theorem paths_and_masks_as_spelt_faulty :
    Path.parse faulty = .error (.invalidSegment faulty "**") ∧ Mask.parse faulty = .error (.emptySegment faulty) := by
  obtain ⟨hpaths, hmasks, -⟩ := paths_and_masks_as_spelt
  have hplain : Segment.IsLiteral ['é'] := ⟨by decide, by decide, by decide, List.forall_mem_singleton.2 rfl⟩
  have hcut : IsCut faulty [['é'], ['*', '*'], [], ['a', '*', '\u2003', 'b']] := isCut_iff.2 (by decide)
  constructor
  · refine (hpaths.refused faulty _).2 ?_
    refine .invalidSegment [['é']] [[], ['a', '*', '\u2003', 'b']] ['*', '*'] hcut ?_ (by decide) ?_
    · exact List.forall_mem_singleton.2 ⟨_, hplain, rfl⟩
    · rintro ⟨s, hs, rfl⟩
      exact hs.unstarred (by decide)
  · refine (hmasks.refused faulty _).2 ?_
    refine .emptySegment (by decide) [['é'], ['*', '*']] [['a', '*', '\u2003', 'b']] hcut ?_
    exact List.forall_mem_cons.2 ⟨⟨.literal ['é'], hplain, rfl⟩, List.forall_mem_singleton.2 ⟨.many, trivial, rfl⟩⟩

end EventHub

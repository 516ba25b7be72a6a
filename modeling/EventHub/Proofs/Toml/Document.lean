import EventHub.Proofs.Toml.Quoted
import EventHub.Text.Split
import EventHub.Toml.Document
set_option autoImplicit false

namespace EventHub.Toml

theorem skipGaps_cons {c : Char} (h : isGap c = false) (cs : List Char) : skipGaps (c :: cs) = c :: cs := by
  simp [skipGaps, h]

theorem skipGaps_quotedKey (cs rest : List Char) :
    skipGaps (quotedKey cs ++ rest) = quotedKey cs ++ rest := by
  obtain ⟨c, t, hc, hb⟩ := quotedKey_eq_cons cs
  rw [hc, List.cons_append, skipGaps_cons hb.gap]

def dottedKey (parts : List String) : List Char := Text.join '.' (parts.map fun p => quotedKey p.toList)

theorem readKeyParts_dottedKey {parts : List String} (hne : parts ≠ []) {rest : List Char}
    (hr : EndsKey rest) (hdot : (skipGaps rest).head? ≠ some '.') {fuel : Nat} (hf : parts.length ≤ fuel) :
    readKeyParts fuel (dottedKey parts ++ rest) = some (parts, skipGaps rest) := by
  induction parts generalizing fuel with
  | nil => exact absurd rfl hne
  | cons part parts ih =>
    obtain ⟨fuel, rfl⟩ : ∃ n, fuel = n + 1 := ⟨fuel - 1, by rw [List.length_cons] at hf; omega⟩
    cases parts with
    | nil =>
      have hpart := readKeyPart_quotedKey part.toList hr
      simp only [dottedKey, List.map_cons, List.map_nil, Text.join]
      rw [readKeyParts, skipGaps_quotedKey, hpart, Option.bind_some]
      dsimp only
      split
      · rename_i heq
        exact absurd (by rw [heq]; rfl) hdot
      · rw [String.ofList_toList]
    | cons next parts =>
      have hend : EndsKey ('.' :: (dottedKey (next :: parts) ++ rest)) := by
        intro c hc
        cases hc
        rfl
      have hpart := readKeyPart_quotedKey part.toList hend
      have hlen : (next :: parts).length ≤ fuel := by
        rw [List.length_cons] at hf
        omega
      have hnext := ih (by simp) hlen
      have hsplit : dottedKey (part :: next :: parts) ++ rest =
          quotedKey part.toList ++ '.' :: (dottedKey (next :: parts) ++ rest) := by
        simp [dottedKey, Text.join]
      have hgap (cs : List Char) : skipGaps ('.' :: cs) = '.' :: cs := skipGaps_cons rfl cs
      rw [hsplit, readKeyParts, skipGaps_quotedKey, hpart, Option.bind_some]
      simp [hgap, hnext]

theorem dottedKey_singleton (part : String) : dottedKey [part] = quotedKey part.toList := rfl

theorem dottedKey_cons_cons (part next : String) (parts : List String) :
    dottedKey (part :: next :: parts) = quotedKey part.toList ++ '.' :: dottedKey (next :: parts) := rfl

theorem length_le_dottedKey (parts : List String) : parts.length ≤ (dottedKey parts).length + 1 := by
  induction parts with
  | nil => exact Nat.zero_le _
  | cons part parts ih =>
    cases parts with
    | nil => simp
    | cons next parts =>
      simp only [dottedKey_cons_cons, List.length_append, List.length_cons] at ih ⊢
      omega

theorem readKey_dottedKey {parts : List String} (hne : parts ≠ []) (hl : parts.length < depthLimit)
    (rest : List Char) (hr : EndsKey rest) (hdot : (skipGaps rest).head? ≠ some '.') :
    readKey (dottedKey parts ++ rest) = some (parts, skipGaps rest) := by
  have hf : parts.length ≤ (dottedKey parts ++ rest).length + 1 := by
    have := length_le_dottedKey parts
    rw [List.length_append]
    omega
  rw [readKey, readKeyParts_dottedKey hne hr hdot hf, Option.bind_some]
  simp [hl]

theorem dottedKey_eq_cons {parts : List String} (hne : parts ≠ []) :
    ∃ c t, dottedKey parts = c :: t ∧ Begins c := by
  match parts, hne with
  | [part], _ => exact quotedKey_eq_cons part.toList
  | part :: next :: parts, _ =>
    obtain ⟨c, t, hc, hb⟩ := quotedKey_eq_cons part.toList
    exact ⟨c, _, by rw [dottedKey_cons_cons, hc, List.cons_append], hb⟩

theorem readValue_quoted (cs : List Char) {rest : List Char} (hr : Unquoted rest) :
    readValue (quoted cs ++ rest) = some (.string (String.ofList cs), rest) := by
  have hread := readString_quoted cs hr
  obtain ⟨c, t, hc, hq⟩ := quoted_eq_cons cs
  rw [hc, List.cons_append] at hread ⊢
  rcases hq with rfl | rfl
  · simp [readValue, readItem, hread]
  · simp [readValue, readItem, hread]

theorem lineEnd?_newline (rest : List Char) : lineEnd? ('\n' :: rest) = some rest := by
  simp [lineEnd?, skipGaps, isGap, newline?]

theorem readLine_newline (rest : List Char) : readLine ('\n' :: rest) = some (none, rest) := by
  have hgap : skipGaps ('\n' :: rest) = '\n' :: rest := skipGaps_cons rfl rest
  simp [readLine, hgap, lineEnd?_newline]

theorem readLine_header {parts : List String} (hne : parts ≠ []) (hl : parts.length < depthLimit)
    (rest : List Char) :
    readLine ('[' :: (dottedKey parts ++ ']' :: '\n' :: rest)) =
      some (some (.table parts), rest) := by
  have hgap (cs : List Char) : skipGaps (']' :: cs) = ']' :: cs := skipGaps_cons rfl cs
  have hkey := readKey_dottedKey hne hl (']' :: '\n' :: rest) (fun c hc => by cases hc; rfl) (by simp [hgap])
  obtain ⟨c, t, hc, hb⟩ := dottedKey_eq_cons hne
  rw [hgap] at hkey
  rw [hc, List.cons_append] at hkey ⊢
  have hopen : skipGaps ('[' :: c :: (t ++ ']' :: '\n' :: rest)) = '[' :: c :: (t ++ ']' :: '\n' :: rest) :=
    skipGaps_cons rfl _
  simp [readLine, hopen, hb.marks, hkey, lineEnd?_newline]

theorem readLine_pair (key : String) {value rest : List Char} {item : Item}
    (hgap : skipGaps (value ++ '\n' :: rest) = value ++ '\n' :: rest)
    (hv : readValue (value ++ '\n' :: rest) = some (item, '\n' :: rest)) :
    readLine (quotedKey key.toList ++ ' ' :: '=' :: ' ' :: (value ++ '\n' :: rest)) =
      some (some (.pair [key] item), rest) := by
  have hmark : skipGaps (' ' :: '=' :: ' ' :: (value ++ '\n' :: rest)) = '=' :: ' ' :: (value ++ '\n' :: rest) := by
    simp [skipGaps, isGap]
  have hvalue : skipGaps (' ' :: (value ++ '\n' :: rest)) = value ++ '\n' :: rest := by
    simpa [skipGaps, isGap] using hgap
  have hlen : [key].length < depthLimit := Nat.lt_of_succ_le (Nat.le_add_left 2 78)
  have hkey := readKey_dottedKey (List.cons_ne_nil key []) hlen (' ' :: '=' :: ' ' :: (value ++ '\n' :: rest))
    (fun c hc => by cases hc; rfl) (by simp [hmark])
  obtain ⟨c, t, hc, hb⟩ := quotedKey_eq_cons key.toList
  obtain ⟨hcomment, hopen, -⟩ := hb.marks
  obtain ⟨hn, hr⟩ := hb.newline
  rw [dottedKey_singleton, hmark] at hkey
  rw [hc, List.cons_append] at hkey ⊢
  have hend : lineEnd? (c :: (t ++ ' ' :: '=' :: ' ' :: (value ++ '\n' :: rest))) = none := by
    simp [lineEnd?, skipGaps_cons hb.gap, hcomment, newline?, hn, hr]
  simp [readLine, skipGaps_cons hb.gap, hopen, hend, hkey, hvalue, hv, lineEnd?_newline]

/-- All lines of a text together, whatever number of steps is allowed for, if it is enough. -/
def Reads (cs : List Char) (statements : List Statement) : Prop :=
  ∀ fuel, cs.length < fuel → readLines fuel cs = some statements

theorem reads_nil : Reads [] [] := by
  intro fuel hf
  obtain ⟨n, rfl⟩ : ∃ n, fuel = n + 1 := ⟨fuel - 1, by rw [List.length_nil] at hf; omega⟩
  rfl

theorem Reads.cons {cs rest : List Char} {statement : Option Statement} {statements : List Statement}
    (hl : readLine cs = some (statement, rest)) (hlt : rest.length < cs.length) (hr : Reads rest statements) :
    Reads cs (statement.toList ++ statements) := by
  intro fuel hf
  obtain ⟨n, rfl⟩ : ∃ n, fuel = n + 1 := ⟨fuel - 1, by omega⟩
  have hne : cs.isEmpty = false := by
    cases cs with
    | nil => exact absurd hlt (Nat.not_lt_zero _)
    | cons c cs => rfl
  have hrest := hr n (by omega)
  simp [readLines, hne, hl, hrest]

theorem Reads.newline {rest : List Char} {statements : List Statement} (h : Reads rest statements) :
    Reads ('\n' :: rest) statements :=
  h.cons (readLine_newline rest) (Nat.lt_succ_self _)

theorem Reads.header {rest : List Char} {statements : List Statement} (h : Reads rest statements)
    {parts : List String} (hne : parts ≠ []) (hl : parts.length < depthLimit) :
    Reads ('[' :: (dottedKey parts ++ ']' :: '\n' :: rest)) (.table parts :: statements) :=
  h.cons (readLine_header hne hl rest) (by simp; omega)

structure Written (value : List Char) (item : Item) : Prop where
  gap : ∀ rest, skipGaps (value ++ '\n' :: rest) = value ++ '\n' :: rest
  read : ∀ rest, readValue (value ++ '\n' :: rest) = some (item, '\n' :: rest)

theorem written_quoted (s : String) : Written (quoted s.toList) (.string s) where
  gap rest := by
    obtain ⟨c, t, hc, rfl | rfl⟩ := quoted_eq_cons s.toList
    · rw [hc, List.cons_append, skipGaps_cons (by decide)]
    · rw [hc, List.cons_append, skipGaps_cons (by decide)]
  read rest := by
    have hend : Unquoted ('\n' :: rest) := ⟨by simp, by simp⟩
    have h := readValue_quoted s.toList hend
    rwa [String.ofList_toList] at h

theorem Reads.pair {rest value : List Char} {item : Item} {statements : List Statement}
    (h : Reads rest statements) (hv : Written value item) {key : String} (hk : isBareKey key.toList = true) :
    Reads (key.toList ++ ' ' :: '=' :: ' ' :: (value ++ '\n' :: rest)) (.pair [key] item :: statements) := by
  have hline := readLine_pair key (hv.gap rest) (hv.read rest)
  rw [quotedKey_of_isBareKey hk] at hline
  exact h.cons hline (by simp; omega)

namespace Fields

theorem put_append (key : String) (x y : Item) {fields : Fields} (h : key ∉ fields.map Prod.fst) :
    put key y (fields ++ [(key, x)]) = fields ++ [(key, y)] := by
  induction fields with
  | nil => simp [put]
  | cons f fs ih =>
    obtain ⟨k, i⟩ := f
    simp only [List.map_cons, List.mem_cons, not_or] at h
    simp [put, Ne.symm h.1, ih h.2]

theorem put_of_notMem (key : String) (x : Item) {fields : Fields} (h : key ∉ fields.map Prod.fst) :
    put key x fields = fields ++ [(key, x)] := by
  induction fields with
  | nil => rfl
  | cons f fs ih =>
    obtain ⟨k, i⟩ := f
    simp only [List.map_cons, List.mem_cons, not_or] at h
    simp [put, Ne.symm h.1, ih h.2]

theorem lookup_of_notMem {key : String} {fields : Fields} (h : key ∉ fields.map Prod.fst) :
    fields.lookup key = none := by
  rw [List.lookup_eq_none_iff]
  intro p hp
  have hne : key ≠ p.1 := fun he => h (he ▸ List.mem_map_of_mem hp)
  simpa using hne

theorem lookup_append (key : String) (x : Item) {fields : Fields} (h : key ∉ fields.map Prod.fst) :
    (fields ++ [(key, x)]).lookup key = some x := by
  simp [List.lookup_append, lookup_of_notMem h]

/-- The way leads into the last of the tables. -/
theorem alter_last {key : String} {fields : Fields} (h : key ∉ fields.map Prod.fst)
    (change : Origin → Fields → Option Fields) (path : List String) (o : Origin) {origin : Origin}
    (ho : origin ≠ .closed) (inner : Fields) :
    alter false change (key :: path) o (fields ++ [(key, .table origin inner)]) =
      (alter false change path origin inner).map fun i => fields ++ [(key, .table origin i)] := by
  rw [alter, lookup_append key _ h]
  simp [ho, put_append key _ _ h]

end Fields

namespace Draft

/-- Lines of single keys go into the table at this path, which has a header of its own. -/
def Focus (path : List String) (tree : Fields → Fields) : Prop :=
  ∀ change inner, Fields.alter false change path .header (tree inner) = (change .header inner).map tree

theorem focus_top : Focus [] id := by
  intro change inner
  simp [Fields.alter]

theorem focus_table {key : String} {fields : Fields} (h : key ∉ fields.map Prod.fst) :
    Focus [key] fun inner => fields ++ [(key, .table .header inner)] := by
  intro change inner
  rw [Fields.alter_last h change [] .header (by decide) inner, Fields.alter]

theorem focus_section {outer name : String} {fields done : Fields} (ho : outer ∉ fields.map Prod.fst)
    (hn : name ∉ done.map Prod.fst) :
    Focus [outer, name] fun inner =>
      fields ++ [(outer, .table .implied (done ++ [(name, .table .header inner)]))] := by
  intro change inner
  rw [Fields.alter_last ho change [name] .header (by decide), Fields.alter_last hn change [] _ (by decide) inner,
    Fields.alter, Option.map_map]
  rfl

def pairLines (pairs : Fields) : List Statement := pairs.map fun p => .pair [p.1] p.2

theorem add_pairLines {path : List String} {tree : Fields → Fields} (h : Focus path tree) {inner pairs : Fields}
    (hk : ((inner ++ pairs).map Prod.fst).Nodup) :
    (pairLines pairs).foldlM add ⟨tree inner, path⟩ = some ⟨tree (inner ++ pairs), path⟩ := by
  induction pairs generalizing inner with
  | nil => simp [pairLines]
  | cons p pairs ih =>
    obtain ⟨key, item⟩ := p
    have hkey : key ∉ inner.map Prod.fst := by
      intro hmem
      simp only [List.map_append, List.map_cons, List.nodup_append] at hk
      exact hk.2.2 key hmem key List.mem_cons_self rfl
    have hput : Fields.addPair [key] item .header inner = some (inner ++ [(key, item)]) := by
      simp [Fields.addPair, Fields.alter, Fields.addKey, Fields.lookup_of_notMem hkey,
        Fields.put_of_notMem key item hkey]
    have hadd : add ⟨tree inner, path⟩ (.pair [key] item) = some ⟨tree (inner ++ [(key, item)]), path⟩ := by
      rw [add, h (Fields.addPair [key] item) inner, hput]
      rfl
    have hnext := @ih (inner ++ [(key, item)]) (by simpa using hk)
    rw [List.append_assoc, List.singleton_append] at hnext
    rw [pairLines, List.map_cons, List.foldlM_cons, hadd]
    exact hnext

theorem add_header {key : String} {fields : Fields} (h : key ∉ fields.map Prod.fst) (path : List String) :
    add ⟨fields, path⟩ (.table [key]) = some ⟨fields ++ [(key, .table .header [])], [key]⟩ := by
  simp [add, Fields.alter, Fields.openTable, Fields.lookup_of_notMem h, Fields.put_of_notMem _ _ h]

def sectionLines (outer : String) (sections : List (String × Fields)) : List Statement :=
  sections.flatMap fun s => .table [outer, s.1] :: pairLines s.2

def tablesOf (sections : List (String × Fields)) : Fields := sections.map fun s => (s.1, .table .header s.2)

/-- The table of the sections, which comes to be with the first of them. -/
def withSections (fields : Fields) (outer : String) (sections : List (String × Fields)) : Fields :=
  if sections.isEmpty then fields else fields ++ [(outer, .table .implied (tablesOf sections))]

theorem map_fst_tablesOf (sections : List (String × Fields)) :
    (tablesOf sections).map Prod.fst = sections.map Prod.fst := by
  simp [tablesOf]

theorem add_table {fields : Fields} {outer name : String} {done : List (String × Fields)}
    (ho : outer ∉ fields.map Prod.fst) (hn : name ∉ done.map Prod.fst) (path : List String) :
    add ⟨withSections fields outer done, path⟩ (.table [outer, name]) =
      some ⟨fields ++ [(outer, .table .implied (tablesOf done ++ [(name, .table .header [])]))],
        [outer, name]⟩ := by
  have hn' : name ∉ (tablesOf done).map Prod.fst := by rwa [map_fst_tablesOf]
  cases done with
  | nil =>
    simp [add, withSections, Fields.alter, Fields.lookup_of_notMem ho, Fields.openTable, tablesOf,
      Fields.put, Fields.put_of_notMem _ _ ho]
  | cons s done =>
    have hopen : Fields.openTable name .implied (tablesOf (s :: done)) =
        some (tablesOf (s :: done) ++ [(name, .table .header [])]) := by
      simp [Fields.openTable, Fields.lookup_of_notMem hn', Fields.put_of_notMem _ _ hn']
    have halter := Fields.alter_last ho (Fields.openTable name) [] .header
      (show Origin.implied ≠ .closed by decide) (tablesOf (s :: done))
    rw [Fields.alter, hopen] at halter
    simp [add, withSections, halter]

theorem add_sectionLines {fields : Fields} {outer : String} (ho : outer ∉ fields.map Prod.fst)
    {done sections : List (String × Fields)} (hn : ((done ++ sections).map Prod.fst).Nodup)
    (hs : ∀ s ∈ sections, (s.2.map Prod.fst).Nodup) (path : List String) :
    ((sectionLines outer sections).foldlM add ⟨withSections fields outer done, path⟩).map Draft.fields =
      some (withSections fields outer (done ++ sections)) := by
  induction sections generalizing done path with
  | nil => simp [sectionLines]
  | cons s sections ih =>
    obtain ⟨name, pairs⟩ := s
    have hname : name ∉ done.map Prod.fst := by
      intro hmem
      simp only [List.map_append, List.map_cons, List.nodup_append] at hn
      exact hn.2.2 name hmem name List.mem_cons_self rfl
    have hname' : name ∉ (tablesOf done).map Prod.fst := by rwa [map_fst_tablesOf]
    have hpairs := @add_pairLines _ _ (focus_section ho hname') [] pairs (hs (name, pairs) List.mem_cons_self)
    have hnext := @ih (done ++ [(name, pairs)]) (by simpa using hn)
      (fun s hmem => hs s (List.mem_cons_of_mem _ hmem)) [outer, name]
    have hplace : withSections fields outer (done ++ [(name, pairs)]) =
        fields ++ [(outer, .table .implied (tablesOf done ++ [(name, .table .header pairs)]))] := by
      simp [withSections, tablesOf]
    rw [hplace, List.append_assoc, List.singleton_append] at hnext
    rw [sectionLines, List.flatMap_cons, List.cons_append, List.foldlM_cons, add_table ho hname path,
      Option.bind_eq_bind, Option.bind_some, List.foldlM_append, hpairs]
    exact hnext

end Draft

end EventHub.Toml

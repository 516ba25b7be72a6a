import EventHub.Proofs.FileSystem
set_option autoImplicit false

/-!
How far a change of the files reaches. Opening, writing, renaming and removing change one file and what stands
at one or two places. Whose places lie apart from these, with other files at them, finds everything as it was.
-/
namespace EventHub.FileSystem

theorem SameDirectories.trans {fs fs' fs'' : FileSystem} (h : SameDirectories fs fs')
    (k : SameDirectories fs' fs'') : SameDirectories fs fs'' :=
  ⟨k.workplace.trans h.workplace, fun p => (k.directory p).trans (h.directory p)⟩

theorem SameBut.sameDirectories {id : Nat} {fs fs' : FileSystem} (h : SameBut id fs fs') :
    SameDirectories fs fs' :=
  ⟨h.workplace, fun p => by rw [h.nodeAt? p]⟩

theorem isInside_self (p : Place) : isInside p p = false := by simp [isInside]

def Leads (fs : FileSystem) (f : FileName) (p : Place) : Prop :=
  ∃ directory name, fs.target? f = some (.entry directory name false) ∧ directory ++ [name] = p

theorem Leads.congr {fs fs' : FileSystem} {f : FileName} {p : Place} (h : fs.Leads f p)
    (ht : fs'.target? f = fs.target? f) : fs'.Leads f p := by
  rw [Leads, ht]
  exact h

theorem Leads.placeOf? {fs : FileSystem} {f : FileName} {p : Place} (h : fs.Leads f p) :
    fs.placeOf? f = some p := by
  obtain ⟨directory, name, ht, rfl⟩ := h
  rw [FileSystem.placeOf?, ht]
  rfl

theorem Leads.target? {fs fs' : FileSystem} {f : FileName} {p : Place} (h : fs.Leads f p)
    (h' : fs'.Leads f p) : fs'.target? f = fs.target? f := by
  obtain ⟨directory, name, ht, rfl⟩ := h
  obtain ⟨directory', name', ht', hp⟩ := h'
  obtain ⟨rfl, hname⟩ := List.append_inj' hp rfl
  cases hname
  exact ht'.trans ht.symm

theorem Leads.isEmpty {fs : FileSystem} {f : FileName} {p : Place} (h : fs.Leads f p) : f.isEmpty = false := by
  obtain ⟨directory, name, ht, -⟩ := h
  cases he : f.isEmpty with
  | false => rfl
  | true =>
    have hfault : textFault? f ≠ none := by
      rw [textFault?, he]
      split <;> simp
    rw [target?_eq] at ht
    split at ht
    · cases ht
    · rename_i hnone
      exact absurd hnone hfault

structure SameAt (p : Place) (fs fs' : FileSystem) : Prop where
  node : fs'.nodeAt? p = fs.nodeAt? p
  bottom : fs.hasEntries p = false → fs'.hasEntries p = false
  content : ∀ id, fs.nodeAt? p = some (.file id) → fs'.contents[id]? = fs.contents[id]?

theorem Leads.find {fs fs' : FileSystem} {f : FileName} {p : Place} (h : fs.Leads f p) (h' : fs'.Leads f p)
    (hn : fs'.nodeAt? p = fs.nodeAt? p) : fs'.find f = fs.find f := by
  have htarget := h.target? h'
  obtain ⟨directory, name, ht, rfl⟩ := h
  rw [FileSystem.find, FileSystem.find, locate_of_target? ht, locate_of_target? (htarget.trans ht)]
  simp only [bind, Except.bind, entryNode, hn]

/-- Reading a name only depends on what stands at the place where it leads. -/
theorem Leads.read {fs fs' : FileSystem} {f : FileName} {p : Place} (h : fs.Leads f p) (h' : fs'.Leads f p)
    (hs : SameAt p fs fs') : fs'.read f = fs.read f := by
  have hfind := h.find h' hs.node
  obtain ⟨directory, name, ht, rfl⟩ := h
  rw [FileSystem.read, FileSystem.read, hfind]
  cases hf : fs.find f with
  | error e => rfl
  | ok node =>
    cases node with
    | directory => rfl
    | device full => rfl
    | file id =>
      have hnode : fs.nodeAt? (directory ++ [name]) = some (.file id) := by
        rw [FileSystem.find, locate_of_target? ht] at hf
        simp only [bind, Except.bind, entryNode] at hf
        split at hf
        · cases hf
        · rename_i node? hentry
          split at hentry
          · cases hentry
          · cases hentry
            split at hf
            · cases hf
            · cases hf
            · rename_i hnode
              cases hf
              exact hnode
      simp only [bind, Except.bind, content, hs.content id hnode]

theorem Leads.isThere {fs : FileSystem} {f : FileName} {p : Place} (h : fs.Leads f p)
    (hn : fs.nodeAt? p = none) : fs.isThere f = false := by
  obtain ⟨directory, name, ht, rfl⟩ := h
  rw [FileSystem.isThere, FileSystem.find, locate_of_target? ht]
  simp only [bind, Except.bind, entryNode]
  split
  · rfl
  · rename_i node? hentry
    split at hentry
    · cases hentry
    · cases hentry
      rw [hn]
      rfl

structure Untouched (f : FileName) (fs fs' : FileSystem) : Prop where
  target : fs'.target? f = fs.target? f
  place : ∀ p, fs.placeOf? f = some p → SameAt p fs fs'

/-- Nothing but one file is different and what stands at some places, and no other file was put there. -/
structure Reach (fs : FileSystem) (id : Nat) (places : List Place) (fs' : FileSystem) : Prop where
  directories : SameDirectories fs fs'
  length : fs.contents.length ≤ fs'.contents.length
  content : ∀ other, other ≠ id → fs'.contents[other]? = fs.contents[other]?
  node : ∀ p, p ∉ places → fs'.nodeAt? p = fs.nodeAt? p
  file : ∀ p ∈ places, ∀ other, fs'.nodeAt? p = some (.file other) → other = id
  entries : ∀ p, (∀ q ∈ places, isInside p q = false) → fs.hasEntries p = false → fs'.hasEntries p = false

theorem Reach.sameAt {fs fs' : FileSystem} {id : Nat} {places : List Place} (h : Reach fs id places fs')
    {p : Place} (ha : ∀ q ∈ places, Apart p q) (hid : fs.nodeAt? p ≠ some (.file id)) : SameAt p fs fs' where
  node := h.node p fun hp => (ha p hp).ne rfl
  bottom := h.entries p fun q hq => (ha q hq).isInside
  content other hn := h.content other fun ho => hid (ho ▸ hn)

theorem SameBut.reach {fs fs' : FileSystem} {id : Nat} (h : SameBut id fs fs') {p : Place}
    (hp : fs.nodeAt? p = some (.file id)) : Reach fs id [p] fs' where
  directories := h.sameDirectories
  length := Nat.le_of_eq h.length.symm
  content := h.content
  node q _ := h.nodeAt? q
  file q hq other hn := by
    rw [List.mem_singleton.1 hq, h.nodeAt? p, hp] at hn
    cases hn
    rfl
  entries q _ he := (h.hasEntries q).trans he

theorem Reach.afterWrite {fs gs fs' : FileSystem} {id : Nat} {places : List Place} (h : SameBut id fs gs)
    (k : Reach gs id places fs') : Reach fs id places fs' where
  directories := h.sameDirectories.trans k.directories
  length := h.length ▸ k.length
  content other ho := (k.content other ho).trans (h.content other ho)
  node p hp := (k.node p hp).trans (h.nodeAt? p)
  file := k.file
  entries p hp he := k.entries p hp ((h.hasEntries p).trans he)

theorem Renamed.reach {fs fs' : FileSystem} {id : Nat} {p q : Place} (h : Renamed fs id p q fs')
    (hp : fs.nodeAt? p = some (.file id)) (hne : p ≠ q) : Reach fs id [p, q] fs' where
  directories := h.sameDirectories hp
  length := Nat.le_of_eq (congrArg List.length h.contents.symm)
  content other _ := congrArg (·[other]?) h.contents
  node r hr := by
    rw [List.mem_cons, List.mem_singleton, not_or] at hr
    exact h.others r hr.1 hr.2
  file r hr other hn := by
    rcases List.mem_cons.1 hr with rfl | hr
    · rw [h.source hne] at hn
      cases hn
    · rw [List.mem_singleton.1 hr, h.node] at hn
      cases hn
      rfl
  entries r hr he := h.entries r (hr q (by simp)) he

structure SameFiles (fs fs' : FileSystem) : Prop where
  nodes : fs'.nodes = fs.nodes
  workplace : fs'.workplace = fs.workplace
  contents : fs'.contents = fs.contents

theorem sameFiles_nextRefusal (fs : FileSystem) : SameFiles fs fs.nextRefusal.2 := by
  unfold nextRefusal
  split <;> exact ⟨rfl, rfl, rfl⟩

theorem SameFiles.sameBut {fs fs' : FileSystem} (h : SameFiles fs fs') (id : Nat) : SameBut id fs fs' :=
  ⟨h.nodes, h.workplace, congrArg List.length h.contents, fun other _ => congrArg (·[other]?) h.contents⟩

theorem SameFiles.sameAt {fs fs' : FileSystem} (h : SameFiles fs fs') (p : Place) : SameAt p fs fs' where
  node := (h.sameBut 0).nodeAt? p
  bottom he := ((h.sameBut 0).hasEntries p).trans he
  content id _ := congrArg (·[id]?) h.contents

/-- A change of names that was not made has changed nothing. -/
theorem sameFiles_of_attempt {fs fs' : FileSystem} {change : FileSystem → Except OsError FileSystem}
    {e : OsError} (h : fs.attempt change = (.error e, fs')) : SameFiles fs fs' := by
  have hs := sameFiles_nextRefusal fs
  rw [attempt] at h
  generalize fs.nextRefusal = next at h hs
  obtain ⟨r, gs⟩ := next
  cases r with
  | some r =>
    cases h
    exact hs
  | none =>
    dsimp only at h hs
    split at h
    · cases h
      exact hs
    · cases h

theorem lookup_filter_ne (ns : List (Place × Node)) (p q : Place) :
    (ns.filter fun n => n.1 != p).lookup q = if q = p then none else ns.lookup q := by
  induction ns with
  | nil => simp
  | cons n ns ih =>
    obtain ⟨r, node⟩ := n
    by_cases hr : r = p
    · subst hr
      rw [List.filter_cons_of_neg (by simp), ih]
      split
      · rfl
      · rename_i hq
        rw [List.lookup_cons, beq_eq_false_iff_ne.2 hq]
    · rw [List.filter_cons_of_pos (by simpa using hr), List.lookup_cons, List.lookup_cons, ih]
      by_cases hq : q = r
      · subst hq
        simp [hr]
      · rw [beq_eq_false_iff_ne.2 hq]

theorem nodeAt?_dropNode (fs : FileSystem) (p q : Place) :
    (fs.dropNode p).nodeAt? q = if q = p then none else fs.nodeAt? q := lookup_filter_ne fs.nodes p q

theorem reach_dropNode {fs : FileSystem} {id : Nat} {p : Place} (hp : fs.nodeAt? p = some (.file id)) :
    Reach fs id [p] (fs.dropNode p) where
  directories := by
    refine ⟨rfl, fun q => ?_⟩
    rw [nodeAt?_dropNode]
    split
    · rename_i hq
      simp [hq, hp]
    · rfl
  length := Nat.le_refl _
  content _ _ := rfl
  node q hq := by rw [nodeAt?_dropNode, if_neg (by simpa using hq)]
  file q hq other hn := by
    rw [nodeAt?_dropNode, if_pos (List.mem_singleton.1 hq)] at hn
    cases hn
  entries q _ he := by
    rw [hasEntries, List.any_eq_false] at he ⊢
    exact fun n hn => he n (List.mem_filter.1 hn).1

theorem dropped_of_checkedRemove {fs fs' : FileSystem} {f : FileName} {p : Place} {id : Nat}
    (hf : fs.IsFile f p id) (h : fs.checkedRemove f = .ok fs') : fs' = fs.dropNode p := by
  obtain ⟨⟨directory, name, ht, rfl, hn⟩, hnode⟩ := hf
  rw [checkedRemove, locate_of_target? ht] at h
  simp [bind, Except.bind, entryNode, Nat.not_lt.2 hn, hnode] at h
  exact h.symm

theorem reach_of_remove {fs fs' : FileSystem} {f : FileName} {p : Place} {id : Nat} (hf : fs.IsFile f p id)
    (h : fs.remove f = (.ok (), fs')) : Reach fs id [p] fs' ∧ fs'.nodeAt? p = none := by
  have hs := sameBut_nextRefusal id fs
  rw [remove, attempt] at h
  generalize fs.nextRefusal = next at h hs
  obtain ⟨r, gs⟩ := next
  cases r with
  | some r => cases h
  | none =>
    dsimp only at h hs
    cases hr : gs.checkedRemove f with
    | error e => simp [hr] at h
    | ok gs' =>
      rw [hr] at h
      cases h
      have hg := hf.congr (hs.target? f) (hs.nodeAt? p)
      obtain rfl := dropped_of_checkedRemove hg hr
      exact ⟨.afterWrite hs (reach_dropNode hg.node), by rw [nodeAt?_dropNode, if_pos rfl]⟩

def Free (fs : FileSystem) (p : Place) : Prop := ∀ node, fs.nodeAt? p = some node → ∃ id, node = .file id

/-- A file that was opened for writing: the one that the name had before, or a new one. -/
structure Opened (fs : FileSystem) (f : FileName) (p : Place) (h : Handle) (id : Nat) (fs' : FileSystem) :
    Prop where
  handle : h = ⟨.file id, 0⟩
  file : fs'.IsFile f p id
  known : id < fs'.contents.length
  empty : fs'.content id = []
  origin : fs.nodeAt? p = some (.file id) ∨ id = fs.contents.length
  reach : Reach fs id [p] fs'

theorem nodeAt?_setNode (fs : FileSystem) (p : Place) (node : Node) (q : Place) :
    (fs.setNode p node).nodeAt? q = if q = p then some node else fs.nodeAt? q := by
  rw [nodeAt?, setNode, List.lookup_cons]
  by_cases hq : q = p
  · simp [hq]
  · rw [beq_eq_false_iff_ne.2 hq, lookup_filter_ne, if_neg hq, if_neg hq, nodeAt?]

theorem hasEntries_setNode {fs : FileSystem} {p q : Place} {node : Node} (hi : isInside q p = false)
    (he : fs.hasEntries q = false) : (fs.setNode p node).hasEntries q = false := by
  rw [hasEntries, List.any_eq_false] at he ⊢
  intro n hn
  rcases List.mem_cons.1 hn with rfl | hn
  · simp [hi]
  · exact he n (List.mem_filter.1 hn).1

theorem reach_addFile {fs : FileSystem} {p : Place} (hp : fs.nodeAt? p = none) :
    Reach fs fs.contents.length [p]
      { fs.setNode p (.file fs.contents.length) with contents := fs.contents ++ [[]] } where
  directories := by
    refine ⟨rfl, fun q => ?_⟩
    have hn := nodeAt?_setNode fs p (.file fs.contents.length) q
    rw [show nodeAt? { fs.setNode p (.file fs.contents.length) with contents := fs.contents ++ [[]] } q =
      (fs.setNode p (.file fs.contents.length)).nodeAt? q from rfl, hn]
    split
    · rename_i hq
      simp [hq, hp]
    · rfl
  length := by simp
  content other ho := by
    rcases Nat.lt_or_gt_of_ne ho with hl | hl
    · exact List.getElem?_append_left hl
    · rw [List.getElem?_eq_none (Nat.le_of_lt hl), List.getElem?_eq_none]
      simp only [List.length_append, List.length_singleton]
      exact hl
  node q hq := (nodeAt?_setNode fs p _ q).trans (if_neg (by simpa using hq))
  file q hq other hn := by
    have hn := (nodeAt?_setNode fs p (.file fs.contents.length) q).symm.trans hn
    rw [if_pos (List.mem_singleton.1 hq)] at hn
    cases hn
    rfl
  entries q hq he := hasEntries_setNode (hq p (by simp)) he

theorem opened_of_create {fs fs' : FileSystem} {f : FileName} {p : Place} {h : Handle} (hl : fs.Leads f p)
    (hfree : fs.Free p) (known : ∀ id, fs.nodeAt? p = some (.file id) → id < fs.contents.length)
    (hc : fs.create f = (.ok h, fs')) : ∃ id, Opened fs f p h id fs' := by
  have hs := sameFiles_nextRefusal fs
  rw [create] at hc
  generalize fs.nextRefusal = next at hc hs
  obtain ⟨r, gs⟩ := next
  cases r with
  | some r => cases hc
  | none =>
    dsimp only at hc hs
    obtain ⟨directory, name, ht, hp⟩ := hl.congr ((hs.sameBut 0).target? f)
    have hnode : gs.nodeAt? p = fs.nodeAt? p := (hs.sameBut 0).nodeAt? p
    rw [locate_of_target? ht] at hc
    simp only [Bool.false_eq_true, if_false, entryNode, hp] at hc
    by_cases hn : nameLimit < name.utf8ByteSize
    · simp [hn] at hc
    · rw [if_neg hn] at hc
      have hle := Nat.le_of_not_lt hn
      cases hg : gs.nodeAt? p with
      | none =>
        simp only [hg] at hc
        cases hc
        refine ⟨gs.contents.length, rfl, ⟨⟨directory, name, ?_, hp, hle⟩, ?_⟩, by simp, ?_, ?_, ?_⟩
        · exact ((reach_addFile hg).directories.target? f).trans ht
        · exact (nodeAt?_setNode gs p _ p).trans (if_pos rfl)
        · simp [content]
        · exact .inr (congrArg List.length hs.contents)
        · exact .afterWrite (hs.sameBut _) (reach_addFile hg)
      | some node =>
        obtain ⟨id, rfl⟩ := hfree node (hnode ▸ hg)
        simp only [hg] at hc
        cases hc
        have hid := known id (hnode ▸ hg)
        have hset := sameBut_setContent gs id []
        have hlen : id < gs.contents.length := hs.contents ▸ hid
        refine ⟨id, rfl, ⟨⟨directory, name, (hset.target? f).trans ht, hp, hle⟩, hg⟩, ?_, ?_, ?_, ?_⟩
        · rw [hset.length]
          exact hlen
        · exact content_setContent hlen []
        · exact .inl (hnode ▸ hg)
        · exact .afterWrite (hs.sameBut id) (hset.reach hg)

theorem sameFiles_of_create {fs fs' : FileSystem} {f : FileName} {e : OsError}
    (h : fs.create f = (.error e, fs')) : SameFiles fs fs' := by
  have hs := sameFiles_nextRefusal fs
  rw [create] at h
  generalize fs.nextRefusal = next at h hs
  obtain ⟨r, gs⟩ := next
  cases r with
  | some r =>
    cases h
    exact hs
  | none =>
    dsimp only at h hs
    split at h
    · cases h
      exact hs
    · cases h
      exact hs
    · split at h
      · cases h
        exact hs
      split at h
      · cases h
        exact hs
      · cases h
      · cases h
        exact hs
      · cases h
      · cases h

section

variable {fs gs fs' : FileSystem} {touched : Nat → Prop} {id : Nat}

/-- Nothing is different but what is in some files, and what is said of the changes to come. -/
structure SameBeside (touched : Nat → Prop) (fs fs' : FileSystem) : Prop where
  nodes : fs'.nodes = fs.nodes
  workplace : fs'.workplace = fs.workplace
  length : fs'.contents.length = fs.contents.length
  content : ∀ id, ¬touched id → fs'.content id = fs.content id

theorem SameBeside.refl (touched : Nat → Prop) (fs : FileSystem) : SameBeside touched fs fs :=
  ⟨rfl, rfl, rfl, fun _ _ => rfl⟩

theorem SameBeside.trans (h : SameBeside touched fs gs) (k : SameBeside touched gs fs') :
    SameBeside touched fs fs' :=
  ⟨k.nodes.trans h.nodes, k.workplace.trans h.workplace, k.length.trans h.length,
    fun id hid => (k.content id hid).trans (h.content id hid)⟩

theorem SameBut.beside (h : SameBut id fs fs') (ht : touched id) : SameBeside touched fs fs' where
  nodes := h.nodes
  workplace := h.workplace
  length := h.length
  content other ho := by rw [FileSystem.content, FileSystem.content, h.content other fun he => ho (he ▸ ht)]

theorem SameBeside.sameDirectories (h : SameBeside touched fs fs') : SameDirectories fs fs' :=
  ⟨h.workplace, fun p => by rw [nodeAt?, nodeAt?, h.nodes]⟩

theorem sameBeside_nextRefusal (touched : Nat → Prop) (fs : FileSystem) : SameBeside touched fs fs.nextRefusal.2 := by
  unfold nextRefusal
  split
  · exact .refl touched fs
  · exact ⟨rfl, rfl, rfl, fun _ _ => rfl⟩

theorem sameBeside_write (fs : FileSystem) (h : Handle) (bytes : Bytes)
    (ht : ∀ id, bytes ≠ [] → h.node = .file id → touched id) : SameBeside touched fs (fs.write h bytes).2.2 := by
  have hs := sameBeside_nextRefusal touched fs
  cases bytes with
  | nil => exact .refl touched fs
  | cons byte bytes =>
    have hput : ∀ (gs : FileSystem) (part : Bytes), SameBeside touched gs (gs.put h part).2 := by
      intro gs part
      rw [put]
      split
      · rename_i id hnode
        exact (sameBut_setContent gs id _).beside (ht id (List.cons_ne_nil _ _) hnode)
      · exact .refl touched gs
    rw [write, if_neg (by simp)]
    generalize fs.nextRefusal = next at hs ⊢
    obtain ⟨r, gs⟩ := next
    cases r with
    | some r => exact hs.trans (hput gs _)
    | none =>
      dsimp only
      split
      · exact hs
      · exact hs.trans (hput gs _)

theorem refusals_write (fs : FileSystem) (h : Handle) (bytes : Bytes) (quiet : fs.refusals = []) :
    (fs.write h bytes).2.2.refusals = [] := by
  have hput : (fs.put h bytes).2.refusals = [] := by
    rw [put]
    split <;> exact quiet
  rw [write, nextRefusal, quiet]
  split
  · exact quiet
  · dsimp only
    split
    · exact quiet
    · exact hput

theorem length_overwrite (old : Bytes) (offset : Nat) (bytes : Bytes) :
    old.length ≤ (overwrite old offset bytes).length ∧ bytes.length ≤ (overwrite old offset bytes).length := by
  simp only [overwrite, List.length_append, List.length_take, List.length_replicate, List.length_drop]
  omega

theorem content_write_ne_nil (h : Handle) (bytes : Bytes) (hc : fs.content id ≠ []) :
    (fs.write h bytes).2.2.content id ≠ [] := by
  have hput : ∀ (gs : FileSystem) (part : Bytes), gs.content id ≠ [] → (gs.put h part).2.content id ≠ [] := by
    intro gs part hc
    rw [put]
    split
    · rename_i other _
      by_cases ho : id = other
      · subst ho
        have hl := (length_overwrite (gs.content id) h.offset part).1
        have hknown : id < gs.contents.length :=
          Nat.lt_of_not_le fun hn => hc (by rw [content, List.getElem?_eq_none hn]; rfl)
        rw [content_setContent hknown]
        exact List.length_pos_iff.1 (Nat.lt_of_lt_of_le (List.length_pos_iff.2 hc) hl)
      · rw [content, (sameBut_setContent gs other _).content id ho]
        exact hc
    · exact hc
  have hnext : fs.nextRefusal.2.content id ≠ [] := by rwa [content, contents_nextRefusal]
  rw [write]
  split
  · exact hc
  · generalize fs.nextRefusal = next at hnext
    obtain ⟨r, gs⟩ := next
    cases r with
    | some r => exact hput gs _ hnext
    | none =>
      dsimp only
      split
      · exact hnext
      · exact hput gs bytes hnext

theorem content_write_of_quiet {h : Handle} {bytes : Bytes} (quiet : fs.refusals = [])
    (known : id < fs.contents.length) (hn : h.node = .file id) (hb : bytes ≠ []) :
    (fs.write h bytes).2.2.content id ≠ [] := by
  have hl := (length_overwrite (fs.content id) h.offset bytes).2
  have hnext : fs.nextRefusal = (none, fs) := by rw [nextRefusal, quiet]
  rw [write, if_neg (by simpa using hb), hnext]
  dsimp only
  rw [if_neg (by simp [hn]), put, hn]
  dsimp only
  rw [content_setContent known]
  exact List.length_pos_iff.1 (Nat.lt_of_lt_of_le (List.length_pos_iff.2 hb) hl)

end

end EventHub.FileSystem

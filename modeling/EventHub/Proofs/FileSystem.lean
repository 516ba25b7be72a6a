import EventHub.FileSystem
set_option autoImplicit false

namespace EventHub.FileSystem

def target? (fs : FileSystem) (f : FileName) : Option Target := (fs.locate f).toOption

def placeOf? (fs : FileSystem) (f : FileName) : Option Place := (fs.target? f).map Target.place

/-- Neither of two places is the other one or lies inside it. -/
def Apart (p q : Place) : Prop := p.isPrefixOf q = false ∧ q.isPrefixOf p = false

theorem Apart.symm {p q : Place} (h : Apart p q) : Apart q p := And.symm h

theorem Apart.ne {p q : Place} (h : Apart p q) : p ≠ q := by
  rintro rfl
  exact absurd h.1 (by simp)

theorem Apart.isInside {p q : Place} (h : Apart p q) : isInside p q = false := by
  rw [FileSystem.isInside, h.1, Bool.false_and]

/-- Two names do not lead to one place, nor one of them into the place of the other. -/
def Separate (fs : FileSystem) (f g : FileName) : Prop :=
  ∀ p q, fs.placeOf? f = some p → fs.placeOf? g = some q → Apart p q

structure SameDirectories (fs fs' : FileSystem) : Prop where
  workplace : fs'.workplace = fs.workplace
  directory : ∀ p, fs'.nodeAt? p = some .directory ↔ fs.nodeAt? p = some .directory

theorem enter_toOption_eq_none {fs : FileSystem} {start : Place} {name : String}
    {names : List String} (hstay : ¬(name = "" ∨ name = ".")) (hup : name ≠ "..")
    (hnode : fs.nodeAt? (start ++ [name]) ≠ some .directory) :
    (fs.enter start (name :: names)).toOption = none := by
  rw [FileSystem.enter, if_neg hstay, if_neg hup]
  split
  · rfl
  split
  · rename_i hdir
    exact absurd hdir hnode
  · rfl
  · rfl

theorem SameDirectories.enter {fs fs' : FileSystem} (h : SameDirectories fs fs') (names : List String)
    (start : Place) : (fs'.enter start names).toOption = (fs.enter start names).toOption := by
  induction names generalizing start with
  | nil => rfl
  | cons name names ih =>
    by_cases hstay : name = "" ∨ name = "."
    · rw [FileSystem.enter, FileSystem.enter, if_pos hstay, if_pos hstay]
      exact ih start
    by_cases hup : name = ".."
    · rw [FileSystem.enter, FileSystem.enter, if_neg hstay, if_neg hstay, if_pos hup, if_pos hup]
      exact ih start.dropLast
    have hd := h.directory (start ++ [name])
    by_cases hnode : fs.nodeAt? (start ++ [name]) = some .directory
    · rw [FileSystem.enter, FileSystem.enter, if_neg hstay, if_neg hstay, if_neg hup, if_neg hup,
        hnode, hd.2 hnode]
      split
      · rfl
      · exact ih (start ++ [name])
    · -- where no directory is the errors may differ, but neither walk comes anywhere
      rw [enter_toOption_eq_none hstay hup hnode,
        enter_toOption_eq_none hstay hup (mt hd.1 hnode)]

def textFault? (f : FileName) : Option OsError :=
  if f.text.toList.contains '\x00' then some .holdsNul
  else if f.isEmpty then some .notFound
  else if textLimit ≤ f.text.utf8ByteSize then some .nameTooLong
  else none

def targetIn (place : Place) : Option (String × Bool) → Target
  | none => .passed place
  | some (last, slash) => .entry place last slash

theorem target?_eq (fs : FileSystem) (f : FileName) :
    fs.target? f =
      match textFault? f with
      | some _ => none
      | none => (fs.enter (fs.startOf f) (reading f).1).toOption.map fun p => targetIn p (reading f).2 := by
  unfold target? locate textFault?
  by_cases hz : f.text.toList.contains '\x00' = true
  · simp only [hz, if_true]
    rfl
  by_cases he : f.isEmpty = true
  · simp only [hz, he, if_true]
    rfl
  by_cases hl : textLimit ≤ f.text.utf8ByteSize
  · simp only [hz, he, hl, if_true]
    rfl
  simp only [hz, he, hl, if_false]
  cases fs.enter (fs.startOf f) (reading f).1 with
  | error e => rfl
  | ok place =>
    cases (reading f).2 with
    | none => rfl
    | some last => rfl

theorem SameDirectories.target? {fs fs' : FileSystem} (h : SameDirectories fs fs') (f : FileName) :
    fs'.target? f = fs.target? f := by
  have hs : fs'.startOf f = fs.startOf f := by rw [startOf, startOf, h.workplace]
  rw [target?_eq, target?_eq, hs]
  simp only [h.enter]

theorem placeOf?_congr {fs fs' : FileSystem} {f : FileName} (h : fs'.target? f = fs.target? f) :
    fs'.placeOf? f = fs.placeOf? f := by
  rw [placeOf?, placeOf?, h]

theorem Separate.congr {fs fs' : FileSystem} {f g : FileName} (h : fs.Separate f g)
    (hf : fs'.target? f = fs.target? f) (hg : fs'.target? g = fs.target? g) : fs'.Separate f g := by
  intro p q hp hq
  rw [placeOf?_congr hf] at hp
  rw [placeOf?_congr hg] at hq
  exact h p q hp hq

theorem separate_of_places {fs : FileSystem} {f g : FileName} {p q : Place} (hf : fs.placeOf? f = some p)
    (hg : fs.placeOf? g = some q) (h : Apart p q) : fs.Separate f g := by
  intro p' q' hp hq
  rw [hf] at hp
  rw [hg] at hq
  cases hp
  cases hq
  exact h

structure IsFile (fs : FileSystem) (f : FileName) (place : Place) (id : Nat) : Prop where
  target : ∃ directory name, fs.target? f = some (.entry directory name false) ∧
    directory ++ [name] = place ∧ name.utf8ByteSize ≤ nameLimit
  node : fs.nodeAt? place = some (.file id)

theorem locate_of_target? {fs : FileSystem} {f : FileName} {t : Target} (h : fs.target? f = some t) :
    fs.locate f = .ok t := by
  unfold target? at h
  cases hl : fs.locate f with
  | error e =>
    rw [hl] at h
    cases h
  | ok u =>
    rw [hl] at h
    cases h
    rfl

theorem IsFile.placeOf? {fs : FileSystem} {f : FileName} {place : Place} {id : Nat}
    (h : fs.IsFile f place id) : fs.placeOf? f = some place := by
  obtain ⟨directory, name, ht, hp, -⟩ := h.target
  rw [FileSystem.placeOf?, ht, ← hp]
  rfl

theorem IsFile.find {fs : FileSystem} {f : FileName} {place : Place} {id : Nat}
    (h : fs.IsFile f place id) : fs.find f = .ok (.file id) := by
  obtain ⟨⟨directory, name, ht, rfl, hn⟩, hnode⟩ := h
  rw [FileSystem.find, locate_of_target? ht]
  simp [bind, Except.bind, entryNode, Nat.not_lt.2 hn, hnode]

theorem IsFile.read {fs : FileSystem} {f : FileName} {place : Place} {id : Nat}
    (h : fs.IsFile f place id) : fs.read f = .ok (fs.content id) := by
  rw [FileSystem.read, h.find]
  rfl

theorem IsFile.congr {fs fs' : FileSystem} {f : FileName} {place : Place} {id : Nat}
    (h : fs.IsFile f place id) (ht : fs'.target? f = fs.target? f)
    (hn : fs'.nodeAt? place = fs.nodeAt? place) : fs'.IsFile f place id :=
  ⟨ht ▸ h.target, hn ▸ h.node⟩

/-- Nothing but the content of one file is different, and what is said of the changes to come. -/
structure SameBut (id : Nat) (fs fs' : FileSystem) : Prop where
  nodes : fs'.nodes = fs.nodes
  workplace : fs'.workplace = fs.workplace
  length : fs'.contents.length = fs.contents.length
  content : ∀ other, other ≠ id → fs'.contents[other]? = fs.contents[other]?

theorem SameBut.refl (id : Nat) (fs : FileSystem) : SameBut id fs fs := ⟨rfl, rfl, rfl, fun _ _ => rfl⟩

theorem SameBut.trans {id : Nat} {fs fs' fs'' : FileSystem} (h : SameBut id fs fs')
    (k : SameBut id fs' fs'') : SameBut id fs fs'' :=
  ⟨k.nodes.trans h.nodes, k.workplace.trans h.workplace, k.length.trans h.length,
    fun other ho => (k.content other ho).trans (h.content other ho)⟩

theorem SameBut.nodeAt? {id : Nat} {fs fs' : FileSystem} (h : SameBut id fs fs') (p : Place) :
    fs'.nodeAt? p = fs.nodeAt? p := by
  rw [FileSystem.nodeAt?, FileSystem.nodeAt?, h.nodes]

theorem SameBut.hasEntries {id : Nat} {fs fs' : FileSystem} (h : SameBut id fs fs') (p : Place) :
    fs'.hasEntries p = fs.hasEntries p := by
  rw [FileSystem.hasEntries, FileSystem.hasEntries, h.nodes]

theorem SameBut.target? {id : Nat} {fs fs' : FileSystem} (h : SameBut id fs fs') (f : FileName) :
    fs'.target? f = fs.target? f :=
  SameDirectories.target? ⟨h.workplace, fun p => by rw [h.nodeAt? p]⟩ f

theorem sameBut_nextRefusal (id : Nat) (fs : FileSystem) : SameBut id fs fs.nextRefusal.2 := by
  unfold nextRefusal
  split
  · exact .refl id fs
  · exact ⟨rfl, rfl, rfl, fun _ _ => rfl⟩

theorem contents_nextRefusal (fs : FileSystem) : fs.nextRefusal.2.contents = fs.contents := by
  unfold nextRefusal
  split <;> rfl

theorem sameBut_setContent (fs : FileSystem) (id : Nat) (bytes : Bytes) :
    SameBut id fs (fs.setContent id bytes) :=
  ⟨rfl, rfl, List.length_set, fun _ ho => List.getElem?_set_ne (Ne.symm ho)⟩

theorem content_setContent {fs : FileSystem} {id : Nat} (h : id < fs.contents.length) (bytes : Bytes) :
    (fs.setContent id bytes).content id = bytes := by
  simp [content, setContent, h]

def endOf (fs : FileSystem) (id : Nat) : Handle := ⟨.file id, (fs.content id).length⟩

/-- Writing at the end of a file appends to it, as far as that is not refused. -/
theorem write_endOf {fs fs' : FileSystem} {id : Nat} {bytes : Bytes} {done : Written} {h : Handle}
    (hl : id < fs.contents.length) (hw : fs.write (fs.endOf id) bytes = (done, h, fs')) :
    h = fs'.endOf id ∧ fs'.content id = fs.content id ++ bytes.take done.accepted ∧ SameBut id fs fs' ∧
      (done.error? = none → done.accepted = bytes.length) := by
  unfold write at hw
  cases hb : bytes with
  | nil =>
    rw [hb] at hw
    cases hw
    exact ⟨rfl, (List.append_nil _).symm, .refl id fs, fun _ => rfl⟩
  | cons b bs =>
    have hs := sameBut_nextRefusal id fs
    have hc := contents_nextRefusal fs
    rw [← hb]
    rw [show bytes.isEmpty = false by rw [hb]; rfl] at hw
    generalize fs.nextRefusal = next at hs hc hw
    obtain ⟨r, gs⟩ := next
    have hcid : gs.content id = fs.content id := by rw [content, content, hc]
    have hlen : id < gs.contents.length := hc ▸ hl
    -- whatever part goes through stands behind what was there
    have hput : ∀ part, gs.put (fs.endOf id) part = ((gs.setContent id (fs.content id ++ part)).endOf id,
        gs.setContent id (fs.content id ++ part)) := by
      intro part
      rw [endOf, endOf, content_setContent hlen, List.length_append]
      simp only [put, hcid, overwrite_length]
    have hset := fun part => content_setContent hlen (fs.content id ++ part)
    have hsame := fun part => hs.trans (sameBut_setContent gs id (fs.content id ++ part))
    cases r with
    | some r =>
      simp only [Bool.false_eq_true, if_false, hput] at hw
      cases hw
      refine ⟨rfl, ?_, hsame _, fun he => by cases he⟩
      rw [hset, List.length_take, ← List.take_take, List.take_length]
    | none =>
      have hnode : (fs.endOf id).node ≠ .device true := by simp [endOf]
      simp only [Bool.false_eq_true, if_false, if_neg hnode, hput] at hw
      cases hw
      refine ⟨rfl, ?_, hsame _, fun _ => rfl⟩
      rw [hset, List.take_length]

/-- A file that was opened for writing is empty, and no other one is less empty than before. -/
structure Created (fs : FileSystem) (h : Handle) (fs' : FileSystem) : Prop where
  offset : h.offset = 0
  empty : ∀ id, h.node = .file id → fs'.content id = []
  others : ∀ id, fs.content id = [] → fs'.content id = []

theorem content_of_append_nil {fs fs' : FileSystem} (h : fs'.contents = fs.contents ++ [[]]) (id : Nat) :
    fs'.content id = fs.content id := by
  unfold content
  rw [h]
  by_cases hl : id < fs.contents.length
  · rw [List.getElem?_append_left hl]
  · rw [List.getElem?_append_right (Nat.le_of_not_lt hl), List.getElem?_eq_none (Nat.le_of_not_lt hl)]
    cases id - fs.contents.length with
    | zero => rfl
    | succ n => rfl

theorem content_setContent_nil (fs : FileSystem) (id other : Nat) :
    (fs.setContent id []).content other = if other = id then [] else fs.content other := by
  unfold content setContent
  by_cases ho : other = id
  · subst ho
    by_cases hl : other < fs.contents.length <;> simp [hl]
  · simp [ho, Ne.symm ho]

theorem created_of_create {fs fs' : FileSystem} {f : FileName} {h : Handle}
    (hc : fs.create f = (.ok h, fs')) : Created fs h fs' := by
  have hcontents := contents_nextRefusal fs
  rw [create] at hc
  generalize fs.nextRefusal = next at hc hcontents
  obtain ⟨r, gs⟩ := next
  have hsame : ∀ id, gs.content id = fs.content id := by
    intro id
    rw [content, content, hcontents]
  cases r with
  | some r => cases hc
  | none =>
    dsimp only at hc
    split at hc
    · cases hc
    · cases hc
    · rename_i directory name slash _
      split at hc
      · cases hc
      split at hc
      · cases hc
      · -- a new file
        cases hc
        refine ⟨rfl, ?_, ?_⟩
        · intro id hid
          cases hid
          rw [content_of_append_nil rfl, content, List.getElem?_eq_none (Nat.le_refl _)]
          rfl
        · intro id hid
          rw [content_of_append_nil rfl, hsame, hid]
      · cases hc
      · -- a file that was there is emptied
        rename_i id _
        cases hc
        refine ⟨rfl, ?_, ?_⟩
        · intro other ho
          cases ho
          rw [content_setContent_nil, if_pos rfl]
        · intro other ho
          rw [content_setContent_nil, hsame, ho]
          exact ite_self []
      · -- a device holds nothing
        cases hc
        refine ⟨rfl, ?_, ?_⟩
        · intro id hid
          cases hid
        · intro id hid
          exact (hsame id).trans hid

theorem moved_self (a b : Place) : moved a b a = b := by
  have h : a.isPrefixOf a = true := by simp
  rw [moved, if_pos h, List.drop_length, List.append_nil]

theorem moved_of_not_inside {a b p : Place} (hp : p ≠ a) (h : isInside a p = false) : moved a b p = p := by
  unfold moved
  split
  · rename_i hpre
    obtain ⟨t, rfl⟩ := List.isPrefixOf_iff_prefix.1 hpre
    cases t with
    | nil => exact absurd (List.append_nil a) hp
    | cons x xs =>
      simp only [isInside, hpre, Bool.true_and, decide_eq_false_iff_not, List.length_append,
        List.length_cons] at h
      omega
  · rfl

theorem isInside_of_mem {fs : FileSystem} {a : Place} (h : fs.hasEntries a = false) {n : Place × Node}
    (hn : n ∈ fs.nodes) : isInside a n.1 = false := by
  cases hi : isInside a n.1 with
  | false => rfl
  | true => exact absurd (List.any_eq_true.2 ⟨n, hn, hi⟩) (by rw [← hasEntries, h]; simp)

theorem lookup_moved {a b : Place} (hab : a ≠ b) (p : Place) {ns : List (Place × Node)}
    (h : ∀ n ∈ ns, isInside a n.1 = false) :
    ((ns.filter fun n => n.1 != b).map fun n => (moved a b n.1, n.2)).lookup p =
      if p = b then ns.lookup a else if p = a then none else ns.lookup p := by
  induction ns with
  | nil => simp
  | cons n ns ih =>
    obtain ⟨q, node⟩ := n
    have ih := ih fun n hn => h n (List.mem_cons_of_mem _ hn)
    by_cases hqb : q = b
    · -- what stood at the target is gone
      subst hqb
      rw [List.filter_cons_of_neg (by simp), ih]
      split
      · rw [List.lookup_cons, beq_eq_false_iff_ne.2 hab]
      split
      · rfl
      · rename_i hp _
        rw [List.lookup_cons, beq_eq_false_iff_ne.2 hp]
    · rw [List.filter_cons_of_pos (by simpa using hqb), List.map_cons, List.lookup_cons]
      by_cases hqa : q = a
      · -- this entry moves, and every other one stays because it lies outside
        subst hqa
        rw [moved_self, ih]
        by_cases hpb : p = b
        · simp [hpb]
        · by_cases hpq : p = q
          · subst hpq
            simp [hpb, beq_eq_false_iff_ne.2 hpb]
          · simp [hpb, hpq, List.lookup_cons, beq_eq_false_iff_ne.2 hpq, beq_eq_false_iff_ne.2 hpb]
      · rw [moved_of_not_inside hqa (h (q, node) List.mem_cons_self), ih]
        by_cases hpq : p = q
        · subst hpq
          simp [hqa, hqb]
        · have hne : (a == q) = false := beq_eq_false_iff_ne.2 (Ne.symm hqa)
          simp [List.lookup_cons, beq_eq_false_iff_ne.2 hpq, hne]

theorem nodeAt?_move {fs : FileSystem} {a b : Place} (hab : a ≠ b) (h : fs.hasEntries a = false)
    (p : Place) :
    (fs.move a b).nodeAt? p = if p = b then fs.nodeAt? a else if p = a then none else fs.nodeAt? p :=
  lookup_moved hab p fun _ hn => isInside_of_mem h hn

theorem hasEntries_move {fs : FileSystem} {a b p : Place} (h : fs.hasEntries a = false)
    (hp : fs.hasEntries p = false) (hb : isInside p b = false) : (fs.move a b).hasEntries p = false := by
  rw [hasEntries, List.any_eq_false]
  intro m hm
  obtain ⟨n, hn, rfl⟩ := List.mem_map.1 hm
  have hn := (List.mem_filter.1 hn).1
  by_cases hna : n.1 = a
  · simp [hna, moved_self, hb]
  · simp [moved_of_not_inside hna (isInside_of_mem h hn), isInside_of_mem hp hn]

structure Renamed (fs : FileSystem) (id : Nat) (a b : Place) (fs' : FileSystem) : Prop where
  workplace : fs'.workplace = fs.workplace
  contents : fs'.contents = fs.contents
  overwritten : fs.nodeAt? b ≠ some .directory
  node : fs'.nodeAt? b = some (.file id)
  others : ∀ p, p ≠ a → p ≠ b → fs'.nodeAt? p = fs.nodeAt? p
  source : a ≠ b → fs'.nodeAt? a = none
  entries : ∀ p, isInside p b = false → fs.hasEntries p = false → fs'.hasEntries p = false

theorem Renamed.sameDirectories {fs fs' : FileSystem} {id : Nat} {a b : Place}
    (h : Renamed fs id a b fs') (ha : fs.nodeAt? a = some (.file id)) : SameDirectories fs fs' where
  workplace := h.workplace
  directory p := by
    by_cases hb : p = b
    · subst hb
      simp [h.node, h.overwritten]
    · by_cases hp : p = a
      · subst hp
        simp [h.source hb, ha]
      · rw [h.others p hp hb]

theorem renamed_move {fs : FileSystem} {id : Nat} {a b : Place} (hab : a ≠ b)
    (ha : fs.nodeAt? a = some (.file id)) (he : fs.hasEntries a = false)
    (hb : fs.nodeAt? b ≠ some .directory) : Renamed fs id a b (fs.move a b) where
  workplace := rfl
  contents := rfl
  overwritten := hb
  node := by
    rw [nodeAt?_move hab he, if_pos rfl]
    exact ha
  others p hpa hpb := by rw [nodeAt?_move hab he, if_neg hpb, if_neg hpa]
  source hab := by rw [nodeAt?_move hab he, if_neg hab, if_pos rfl]
  entries p hb hp := hasEntries_move he hp hb

theorem replaceFault?_file {fs : FileSystem} {id : Nat} {b : Place}
    (h : fs.replaceFault? (.file id) b = none) : fs.nodeAt? b ≠ some .directory := by
  intro hb
  unfold replaceFault? at h
  rw [hb] at h
  cases h

theorem renamed_self {fs : FileSystem} {id : Nat} {a : Place} (ha : fs.nodeAt? a = some (.file id)) :
    Renamed fs id a a fs where
  workplace := rfl
  contents := rfl
  overwritten := by simp [ha]
  node := ha
  others _ _ _ := rfl
  source h := absurd rfl h
  entries _ _ hp := hp

theorem renamed_of_checkedMove {fs fs' : FileSystem} {a b : FileName} {id : Nat} {p : Place}
    (ha : fs.IsFile a p id) (he : fs.hasEntries p = false) (h : fs.checkedMove a b = .ok fs') :
    ∃ q, fs.placeOf? b = some q ∧ Renamed fs id p q fs' ∧ fs'.IsFile b q id := by
  obtain ⟨⟨directory, name, hta, rfl, hn⟩, hnode⟩ := ha
  rw [checkedMove, locate_of_target? hta] at h
  cases hlb : fs.locate b with
  | error e => simp [hlb, bind, Except.bind] at h
  | ok t =>
    have htb : fs.target? b = some t := by
      rw [target?, hlb]
      rfl
    rw [hlb] at h
    cases t with
    | passed place => simp [bind, Except.bind] at h
    | entry toDir toName toSlash =>
      by_cases hnb : nameLimit < toName.utf8ByteSize
      · simp [bind, Except.bind, entryNode, Nat.not_lt.2 hn, hnode, hnb] at h
      · simp only [bind, Except.bind, entryNode, if_neg (Nat.not_lt.2 hn), hnode, if_neg hnb] at h
        cases toSlash with
        | true => simp at h
        | false =>
          have hr : Renamed fs id (directory ++ [name]) (toDir ++ [toName]) fs' := by
            by_cases hpq :
                (Target.entry directory name false).place = (Target.entry toDir toName false).place
            · rw [if_neg (by simp), if_pos hpq] at h
              cases h
              exact (show directory ++ [name] = toDir ++ [toName] from hpq) ▸ renamed_self hnode
            · rw [if_neg (by simp), if_neg hpq] at h
              split at h
              · cases h
              split at h
              · cases h
              · rename_i hf
                cases h
                exact renamed_move hpq hnode he (replaceFault?_file hf)
          refine ⟨toDir ++ [toName], ?_, hr, ⟨toDir, toName, ?_, rfl, Nat.le_of_not_lt hnb⟩, hr.node⟩
          · rw [placeOf?, htb]
            rfl
          · rw [(hr.sameDirectories hnode).target?, htb]

/-- A file that was renamed is found under its new name, and what else there is has stayed. -/
theorem renamed_of_rename {fs fs' : FileSystem} {a b : FileName} {id : Nat} {p : Place}
    (ha : fs.IsFile a p id) (he : fs.hasEntries p = false) (h : fs.rename a b = (.ok (), fs')) :
    ∃ q, fs.placeOf? b = some q ∧ Renamed fs id p q fs' ∧ fs'.IsFile b q id := by
  have hs := sameBut_nextRefusal id fs
  have hc := contents_nextRefusal fs
  rw [rename, attempt] at h
  generalize fs.nextRefusal = next at h hs hc
  obtain ⟨r, gs⟩ := next
  cases r with
  | some r => cases h
  | none =>
    dsimp only at h hs hc
    cases hm : gs.checkedMove a b with
    | error e => simp [hm] at h
    | ok gs' =>
      rw [hm] at h
      cases h
      obtain ⟨q, hq, hr, hf⟩ := renamed_of_checkedMove (ha.congr (hs.target? a) (hs.nodeAt? p))
        ((hs.hasEntries p).trans he) hm
      refine ⟨q, placeOf?_congr (hs.target? b) ▸ hq, ?_, hf⟩
      exact
        { workplace := hr.workplace.trans hs.workplace
          contents := hr.contents.trans hc
          overwritten := hs.nodeAt? q ▸ hr.overwritten
          node := hr.node
          others := fun o hp hq => (hr.others o hp hq).trans (hs.nodeAt? o)
          source := hr.source
          entries := fun o ho h => hr.entries o ho ((hs.hasEntries o).trans h) }

end EventHub.FileSystem

import EventHub.FileName
set_option autoImplicit false

/-!
A file system: a tree of named directories, files and devices. A file's content belongs to the file and
not to its name, so whoever has it open goes on writing to it after it was renamed, removed or created
anew, each at an offset of its own.
-/
namespace EventHub

abbrev Bytes := List UInt8

inductive OsError where
  | notFound
  | notDirectory
  | isDirectory
  | alreadyExists
  | noSpace
  | nameTooLong
  | invalid
  | busy
  | notEmpty
  | holdsNul
  | notText
  | other (text : String)
  deriving DecidableEq, Repr

namespace OsError

def message : OsError → String
  | notFound => "No such file or directory (os error 2)"
  | notDirectory => "Not a directory (os error 20)"
  | isDirectory => "Is a directory (os error 21)"
  | alreadyExists => "File exists (os error 17)"
  | noSpace => "No space left on device (os error 28)"
  | nameTooLong => "File name too long (os error 36)"
  | invalid => "Invalid argument (os error 22)"
  | busy => "Device or resource busy (os error 16)"
  | notEmpty => "Directory not empty (os error 39)"
  | holdsNul => "file name contained an unexpected NUL byte"
  | notText => "stream did not contain valid UTF-8"
  | other text => text

def kind : OsError → String
  | notFound => "entity not found"
  | notDirectory => "not a directory"
  | isDirectory => "is a directory"
  | alreadyExists => "entity already exists"
  | noSpace => "no storage space"
  | nameTooLong => "invalid filename"
  | invalid => "invalid input parameter"
  | busy => "resource busy"
  | notEmpty => "directory not empty"
  | holdsNul => "invalid input parameter"
  | notText => "invalid data"
  | other _ => "other error"

end OsError

abbrev Place := List String

/-- A device keeps nothing of what it accepts; a full one accepts nothing. -/
inductive Node where
  | directory
  | file (id : Nat)
  | device (full : Bool)
  deriving DecidableEq, Repr

/-- A refusal to come: how much of a write still goes through, and the error. -/
structure Refusal where
  accepted : Nat
  error : OsError
  deriving DecidableEq, Repr

/-- The contents are those of the files in the order of their making. `refusals` says which of the next
changes are going to be refused, the first entry for the first of them; those beyond its end are not. -/
structure FileSystem where
  nodes : List (Place × Node)
  contents : List Bytes
  workplace : Place
  refusals : List (Option Refusal)
  deriving DecidableEq, Repr

namespace FileSystem

def waysTo (place : Place) : List Place := (List.range (place.length + 1)).map place.take

def freshAt (place : Place) : FileSystem where
  nodes :=
    ((waysTo place ++ [["dev"]]).map fun p => (p, .directory))
      ++ [(["dev", "full"], .device true), (["dev", "null"], .device false)]
  contents := []
  workplace := place
  refusals := []

def fresh : FileSystem := freshAt ["tmp", "work"]

def nodeAt? (fs : FileSystem) (at_ : Place) : Option Node := fs.nodes.lookup at_

def content (fs : FileSystem) (id : Nat) : Bytes := fs.contents[id]?.getD []

def setNode (fs : FileSystem) (at_ : Place) (node : Node) : FileSystem :=
  { fs with nodes := (at_, node) :: fs.nodes.filter fun n => n.1 != at_ }

def dropNode (fs : FileSystem) (at_ : Place) : FileSystem :=
  { fs with nodes := fs.nodes.filter fun n => n.1 != at_ }

def setContent (fs : FileSystem) (id : Nat) (bytes : Bytes) : FileSystem :=
  { fs with contents := fs.contents.set id bytes }

/-- What is said of the next change, and the file system in which it has been said. -/
def nextRefusal (fs : FileSystem) : Option Refusal × FileSystem :=
  match fs.refusals with
  | [] => (none, fs)
  | r :: rs => (r, { fs with refusals := rs })

def nameLimit : Nat := 255
def textLimit : Nat := 4096

def enter (fs : FileSystem) (start : Place) : List String → Except OsError Place
  | [] => .ok start
  | name :: names =>
    if name = "" ∨ name = "." then fs.enter start names
    else if name = ".." then fs.enter start.dropLast names
    else if nameLimit < name.utf8ByteSize then .error .nameTooLong
    else match fs.nodeAt? (start ++ [name]) with
      | some .directory => fs.enter (start ++ [name]) names
      | some _ => .error .notDirectory
      | none => .error .notFound

/-- Where a name leads: to a directory that was walked through, or to a name in a directory, which need not
exist. A slash at the end asks for a directory. -/
inductive Target where
  | passed (place : Place)
  | entry (directory : Place) (name : String) (slash : Bool)
  deriving DecidableEq, Repr

def Target.place : Target → Place
  | .passed place => place
  | .entry directory name _ => directory ++ [name]

/-- What a name says without looking into the file system: where to start, the directories to walk through
and, unless the last piece is a dot or two, the name at the end. -/
def reading (f : FileName) : List String × Option (String × Bool) :=
  let pieces := f.pieces.map String.ofList
  let kept := (pieces.reverse.dropWhile (· == "")).reverse
  match kept.getLast? with
  | none => ([], none)
  | some last =>
    if last = "." ∨ last = ".." then (kept, none)
    else (kept.dropLast, some (last, kept.length != pieces.length))

def startOf (fs : FileSystem) (f : FileName) : Place := if f.isAbsolute then [] else fs.workplace

def locate (fs : FileSystem) (f : FileName) : Except OsError Target := do
  if f.text.toList.contains '\x00' then .error .holdsNul
  if f.isEmpty then .error .notFound
  if textLimit ≤ f.text.utf8ByteSize then .error .nameTooLong
  let place ← fs.enter (fs.startOf f) (reading f).1
  match (reading f).2 with
  | none => .ok (.passed place)
  | some (last, slash) => .ok (.entry place last slash)

def entryNode (fs : FileSystem) (directory : Place) (name : String) : Except OsError (Option Node) :=
  if nameLimit < name.utf8ByteSize then .error .nameTooLong
  else .ok (fs.nodeAt? (directory ++ [name]))

def find (fs : FileSystem) (f : FileName) : Except OsError Node := do
  match ← fs.locate f with
  | .passed _ => .ok .directory
  | .entry directory name slash =>
    match ← fs.entryNode directory name with
    | none => .error .notFound
    | some .directory => .ok .directory
    | some node => if slash then .error .notDirectory else .ok node

def isThere (fs : FileSystem) (f : FileName) : Bool := (fs.find f).toOption.isSome

def isDirectory (fs : FileSystem) (f : FileName) : Bool := (fs.find f).toOption == some .directory

def read (fs : FileSystem) (f : FileName) : Except OsError Bytes := do
  match ← fs.find f with
  | .directory => .error .isDirectory
  | .file id => .ok (fs.content id)
  | .device _ => .ok []

structure Handle where
  node : Node
  offset : Nat
  deriving DecidableEq, Repr

def create (fs : FileSystem) (f : FileName) : Except OsError Handle × FileSystem :=
  match fs.nextRefusal with
  | (some r, fs) => (.error r.error, fs)
  | (none, fs) =>
    match fs.locate f with
    | .error e => (.error e, fs)
    | .ok (.passed _) => (.error .isDirectory, fs)
    | .ok (.entry directory name slash) =>
      if slash then (.error .isDirectory, fs)
      else match fs.entryNode directory name with
        | .error e => (.error e, fs)
        | .ok none =>
          let id := fs.contents.length
          (.ok ⟨.file id, 0⟩,
           { fs.setNode (directory ++ [name]) (.file id) with contents := fs.contents ++ [[]] })
        | .ok (some .directory) => (.error .isDirectory, fs)
        | .ok (some (.file id)) => (.ok ⟨.file id, 0⟩, fs.setContent id [])
        | .ok (some (.device full)) => (.ok ⟨.device full, 0⟩, fs)

/-- The content after bytes were written over it from an offset on; a gap is filled with zeros. -/
def overwrite (old : Bytes) (offset : Nat) (bytes : Bytes) : Bytes :=
  old.take offset ++ List.replicate (offset - old.length) 0 ++ bytes ++ old.drop (offset + bytes.length)

theorem overwrite_length (old bytes : Bytes) : overwrite old old.length bytes = old ++ bytes := by
  simp [overwrite]

def put (fs : FileSystem) (h : Handle) (bytes : Bytes) : Handle × FileSystem :=
  match h.node with
  | .file id =>
    ({ h with offset := h.offset + bytes.length },
     fs.setContent id (overwrite (fs.content id) h.offset bytes))
  | _ => (h, fs)

structure Written where
  accepted : Nat
  error? : Option OsError
  deriving DecidableEq, Repr

def write (fs : FileSystem) (h : Handle) (bytes : Bytes) : Written × Handle × FileSystem :=
  if bytes.isEmpty then (⟨0, none⟩, h, fs)
  else match fs.nextRefusal with
    | (some r, fs) =>
      let part := bytes.take r.accepted
      (⟨part.length, some r.error⟩, fs.put h part)
    | (none, fs) =>
      if h.node = .device true then (⟨0, some .noSpace⟩, h, fs)
      else (⟨bytes.length, none⟩, fs.put h bytes)

def isInside (directory place : Place) : Bool :=
  directory.isPrefixOf place && directory.length < place.length

def hasEntries (fs : FileSystem) (directory : Place) : Bool :=
  fs.nodes.any fun n => isInside directory n.1

def moved (source target place : Place) : Place :=
  if source.isPrefixOf place then target ++ place.drop source.length else place

def move (fs : FileSystem) (source target : Place) : FileSystem :=
  { fs with nodes := (fs.nodes.filter fun n => n.1 != target).map fun n => (moved source target n.1, n.2) }

def replaceFault? (fs : FileSystem) (source : Node) (target : Place) : Option OsError :=
  match source, fs.nodeAt? target with
  | _, none => none
  | .directory, some .directory => if fs.hasEntries target then some .notEmpty else none
  | .directory, some _ => some .notDirectory
  | _, some .directory => some .isDirectory
  | _, some _ => none

def checkedMove (fs : FileSystem) (a b : FileName) : Except OsError FileSystem := do
  let source ← fs.locate a
  let target ← fs.locate b
  match source, target with
  | .entry fromDir fromName fromSlash, .entry toDir toName toSlash =>
    match ← fs.entryNode fromDir fromName with
    | none => .error .notFound
    | some node =>
      let _ ← fs.entryNode toDir toName
      if node ≠ .directory ∧ (fromSlash ∨ toSlash) then .error .notDirectory
      else if source.place = target.place then .ok fs
      else if isInside source.place target.place then .error .invalid
      else match fs.replaceFault? node target.place with
        | some e => .error e
        | none => .ok (fs.move source.place target.place)
  | _, _ => .error .busy

def attempt (fs : FileSystem) (change : FileSystem → Except OsError FileSystem) :
    Except OsError Unit × FileSystem :=
  match fs.nextRefusal with
  | (some r, fs) => (.error r.error, fs)
  | (none, fs) =>
    match change fs with
    | .error e => (.error e, fs)
    | .ok fs => (.ok (), fs)

def rename (fs : FileSystem) (a b : FileName) : Except OsError Unit × FileSystem :=
  fs.attempt fun fs => fs.checkedMove a b

def checkedRemove (fs : FileSystem) (f : FileName) : Except OsError FileSystem := do
  match ← fs.locate f with
  | .passed _ => .error .isDirectory
  | .entry directory name slash =>
    match ← fs.entryNode directory name with
    | none => .error .notFound
    | some .directory => .error .isDirectory
    | some _ => if slash then .error .notDirectory else .ok (fs.dropNode (directory ++ [name]))

def remove (fs : FileSystem) (f : FileName) : Except OsError Unit × FileSystem :=
  fs.attempt fun fs => fs.checkedRemove f

/-- Takes the name of a directory away that holds nothing. The root has no name to take away, and a dot or
two at the end are not the directory's own name. -/
def dropDirectory (fs : FileSystem) (f : FileName) : Except OsError FileSystem := do
  match ← fs.locate f with
  | .entry directory name _ => .ok (fs.dropNode (directory ++ [name]))
  | .passed _ =>
    match (f.pieces.filter fun p => !p.isEmpty).getLast? with
    | none => .error .busy
    | some ['.'] => .error .invalid
    | some _ => .error .notEmpty

/-- Takes a directory away with everything in it, or a file. A directory whose name is refused is empty
afterwards; one that is gone with what it held is no failure. -/
def removeAll (fs : FileSystem) (f : FileName) : Except OsError Unit × FileSystem :=
  match fs.find f, fs.locate f with
  | .ok .directory, .ok target =>
    let emptied := { fs with nodes := fs.nodes.filter fun n => !isInside target.place n.1 }
    match emptied.dropDirectory f with
    | .ok fs => (.ok (), fs)
    | .error .notFound => (.ok (), emptied)
    | .error e => (.error e, emptied)
  | _, _ => fs.remove f

def makeDirectory (fs : FileSystem) (f : FileName) : Except OsError FileSystem := do
  match ← fs.locate f with
  | .passed _ => .error .alreadyExists
  | .entry directory name _ =>
    match ← fs.entryNode directory name with
    | some _ => .error .alreadyExists
    | none => .ok (fs.setNode (directory ++ [name]) .directory)

def ensureDirectory (fs : FileSystem) (f : FileName) : Except OsError FileSystem :=
  if fs.isDirectory f then .ok fs else fs.makeDirectory f

/-- Makes the first of some names, of which each lies in the next one. Only if that is missing it is made
before. What was made stays when a later step fails, as one at a name such as `a/.` does: `a` is no
directory on the way to it. -/
def makeAlong (fs : FileSystem) : List FileName → Except OsError Unit × FileSystem
  | [] => (.ok (), fs)
  | f :: above =>
    if f.isEmpty then (.ok (), fs)
    else match fs.ensureDirectory f with
      | .ok fs => (.ok (), fs)
      | .error .notFound =>
        match fs.makeAlong above with
        | (.error e, fs) => (.error e, fs)
        | (.ok (), fs) =>
          match fs.ensureDirectory f with
          | .error e => (.error e, fs)
          | .ok fs => (.ok (), fs)
      | .error e => (.error e, fs)

/-- Makes a directory and those on the way to it; the empty name asks for nothing. -/
def makeDirectories (fs : FileSystem) (f : FileName) : Except OsError Unit × FileSystem :=
  fs.makeAlong f.ancestors

theorem makeDirectories_of_isDirectory {fs : FileSystem} {f : FileName} (h : fs.isDirectory f = true) :
    fs.makeDirectories f = (.ok (), fs) := by
  have hf : ∃ above, f.ancestors = f :: above := by
    unfold FileName.ancestors
    cases f.components.length with
    | zero => exact ⟨_, rfl⟩
    | succ n =>
      cases hp : f.parent? with
      | none => exact ⟨[], by simp [FileName.ancestorsWithin, hp]⟩
      | some g => exact ⟨FileName.ancestorsWithin n g, by simp [FileName.ancestorsWithin, hp]⟩
  obtain ⟨above, hf⟩ := hf
  simp [makeDirectories, hf, makeAlong, ensureDirectory, h]

def save (fs : FileSystem) (f : FileName) (bytes : Bytes) : Except OsError Unit × FileSystem :=
  match fs.makeDirectories f.withoutLast with
  | (.error e, fs) => (.error e, fs)
  | (.ok (), fs) =>
    match fs.create f with
    | (.error e, fs) => (.error e, fs)
    | (.ok h, fs) =>
      match fs.write h bytes with
      | (⟨_, some e⟩, _, fs) => (.error e, fs)
      | (⟨_, none⟩, _, fs) => (.ok (), fs)

def entries (fs : FileSystem) : List (String × Option Bytes) :=
  let inside := fs.nodes.filterMap fun (place, node) =>
    if isInside fs.workplace place then
      let name := "/".intercalate (place.drop fs.workplace.length)
      match node with
      | .directory => some (name ++ "/", none)
      | .file id => some (name, some (fs.content id))
      | .device _ => some (name, some [])
    else none
  inside.mergeSort fun a b => decide (a.1 ≤ b.1)

end FileSystem
end EventHub

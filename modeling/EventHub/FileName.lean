import EventHub.Text.Split
set_option autoImplicit false

/-!
Names of files: texts cut at slashes. Doubled slashes and dots inside a name say nothing, so two names
are told apart by their components.
-/
namespace EventHub

structure FileName where
  text : String
  deriving DecidableEq, Repr, Inhabited

namespace FileName

instance : ToString FileName := ⟨FileName.text⟩

inductive Component where
  | root
  | here
  | up
  | named (name : List Char)
  deriving DecidableEq, Repr

def pieces (f : FileName) : List (List Char) := Text.splitOn '/' f.text.toList

def isEmpty (f : FileName) : Bool := f.text.isEmpty

def isAbsolute (f : FileName) : Bool := f.text.toList.head? == some '/'

def isIdle (piece : List Char) : Bool := piece.isEmpty || piece == ['.']

def Component.ofPiece (piece : List Char) : Component :=
  if piece = ['.', '.'] then .up else .named piece

/-- What a name begins with: the root, or a dot that stands for the place where one is. -/
def lead (f : FileName) : List Component :=
  if f.isAbsolute then [.root] else if f.pieces.head? = some ['.'] then [.here] else []

def components (f : FileName) : List Component :=
  f.lead ++ (f.pieces.filter fun p => !isIdle p).map Component.ofPiece

def same (f g : FileName) : Bool := f.components == g.components

def lastName? (f : FileName) : Option (List Char) :=
  match f.components.getLast? with
  | some (.named n) => some n
  | _ => none

/-- A name up to its last dot and what follows the dot. A dot in front of everything cuts nothing off. -/
def cutAtLastDot (name : List Char) : List Char × Option (List Char) :=
  let after := (name.reverse.takeWhile (· != '.')).reverse
  let before := (name.reverse.dropWhile (· != '.')).drop 1 |>.reverse
  if name = ['.', '.'] ∨ before.isEmpty then (name, none) else (before, some after)

def join (base f : FileName) : FileName :=
  if f.isAbsolute || base.isEmpty then f
  else if base.text.toList.getLast? = some '/' then ⟨base.text ++ f.text⟩
  else ⟨base.text ++ "/" ++ f.text⟩

def dropIdleEnd (ps : List (List Char)) : List (List Char) := (ps.reverse.dropWhile isIdle).reverse

/-- The name without its last component, which does not stand for the beginning of the name. -/
def withoutLast (f : FileName) : FileName :=
  let first := match f.lead with
    | [] => 0
    | _ => 1
  let body := dropIdleEnd (dropIdleEnd (f.pieces.drop first)).dropLast
  let text := Text.join '/' (f.pieces.take first ++ body)
  if body.isEmpty ∧ f.isAbsolute then ⟨"/"⟩ else ⟨String.ofList text⟩

/-- The directory in which a name lies. The root lies in none, and the empty name is the place where
one is. -/
def parent? (f : FileName) : Option FileName :=
  match f.components.getLast? with
  | none | some .root => none
  | some .here => some ⟨""⟩
  | some _ => some f.withoutLast

def ancestorsWithin : Nat → FileName → List FileName
  | 0, f => [f]
  | n + 1, f =>
    match f.parent? with
    | none => [f]
    | some g => f :: ancestorsWithin n g

def ancestors (f : FileName) : List FileName := ancestorsWithin f.components.length f

def withLast (f : FileName) (last : String) : FileName :=
  (if f.lastName?.isSome then f.withoutLast else f).join ⟨last⟩

/-- A word put in front of the extension: `out.log` becomes `out.word.log`. -/
def qualified (f : FileName) (word : String) : FileName :=
  match cutAtLastDot (f.lastName?.getD []), f.lastName? with
  | _, none => f.withLast s!".{word}"
  | (stem, none), _ => f.withLast (String.ofList stem ++ "." ++ word)
  | (stem, some extension), _ =>
    f.withLast (String.ofList stem ++ "." ++ word ++ "." ++ String.ofList extension)

end FileName
end EventHub

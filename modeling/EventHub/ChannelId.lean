import EventHub.Json.Form
set_option autoImplicit false

namespace EventHub

structure ChannelId where
  bits : BitVec 128
  deriving DecidableEq

namespace ChannelId

def groups : List Nat := [8, 4, 4, 4, 12]

/-- Cuts off groups of the given sizes; all but the last are followed by a hyphen. -/
def dropHyphens? : List Nat → List Char → Option (List Char)
  | [], cs => if cs.isEmpty then some [] else none
  | [n], cs => if cs.length = n then some cs else none
  | n :: m :: ns, cs =>
    match cs.drop n with
    | '-' :: rest => (dropHyphens? (m :: ns) rest).map (cs.take n ++ ·)
    | _ => none

/-- Whether a text begins like the resource name of an id. In resource names the scheme and the namespace
are the same words in either case. -/
def isResourceName (cs : List Char) : Bool :=
  (cs.take 9).map Char.toLower == "urn:uuid:".toList

/-- The thirty-two digits of a hyphenated spelling, which may stand in braces or behind `urn:uuid:`; the
length tells which. -/
def digits? (cs : List Char) : Option (List Char) :=
  if cs.length = 32 then some cs
  else if cs.length = 36 then dropHyphens? groups cs
  else if cs.length = 38 ∧ cs.head? = some '\x7b' ∧ cs.getLast? = some '\x7d' then
    dropHyphens? groups (cs.drop 1).dropLast
  else if cs.length = 45 ∧ isResourceName cs then dropHyphens? groups (cs.drop 9)
  else none

def parse? (s : String) : Option ChannelId :=
  ((digits? s.toList).bind Json.hexDigitsValue?).map fun n => ⟨BitVec.ofNat 128 n⟩

def digits (c : ChannelId) : List Char :=
  let ds := Nat.toDigits 16 c.bits.toNat
  List.replicate (32 - ds.length) '0' ++ ds

def hyphenate : List Nat → List Char → List Char
  | [], cs => cs
  | [_], cs => cs
  | n :: m :: ns, cs => cs.take n ++ '-' :: hyphenate (m :: ns) (cs.drop n)

def number (c : ChannelId) : String := String.ofList (hyphenate groups c.digits)

instance : ToString ChannelId := ⟨fun c => s!"ch:{c.number}"⟩

instance : Json.Form ChannelId := Json.Form.ofStrings parse? number

end ChannelId
end EventHub

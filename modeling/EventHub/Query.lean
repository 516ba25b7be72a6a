import EventHub.Json.Form
set_option autoImplicit false

namespace EventHub

/-- `wait` sleeps until anything happens on the flag, `block` until the caller's own event arrives. -/
inductive WaitMode where
  | noWait
  | wait
  | block
  deriving DecidableEq, Repr

namespace WaitMode

def name : WaitMode → String
  | .noWait => "nowait"
  | .wait => "wait"
  | .block => "block"

instance : ToString WaitMode := ⟨name⟩
instance : Inhabited WaitMode := ⟨.noWait⟩

def all : List WaitMode := [.noWait, .wait, .block]

def ofName? (s : String) : Option WaitMode := all.find? fun m => m.name == s

/-- Capitals outside ASCII have no small letters here. -/
def lowered (s : String) : String := String.ofList (s.toList.map Char.toLower)

/-- In capitals or small letters, and `no-wait` with its hyphen. A failure gives the lowered text. -/
def parse (s : String) : Except String WaitMode :=
  let low := lowered s
  if low = "no-wait" then .ok .noWait
  else match ofName? low with
    | some m => .ok m
    | none => .error low

def unknownText (low : String) : String := s!"unknown wait mode '{low}'"

instance : Json.Form WaitMode where
  read? _ t := (Json.nameOf? t).bind ofName?
  value m := .string m.name

end WaitMode

inductive Status where
  | success
  | wait
  | outOfSeq
  | closed
  | error
  deriving DecidableEq, Repr

namespace Status

def name : Status → String
  | .success => "Success"
  | .wait => "Wait"
  | .outOfSeq => "OutOfSeq"
  | .closed => "Closed"
  | .error => "Error"

def wire : Status → String
  | .success => "SUCCESS"
  | .wait => "WAIT"
  | .outOfSeq => "OUTOFSEQ"
  | .closed => "CLOSED"
  | .error => "ERROR"

instance : ToString Status := ⟨wire⟩

def all : List Status := [.success, .wait, .outOfSeq, .closed, .error]

def ofName? (s : String) : Option Status := all.find? fun m => m.name == s

def isSuccess (s : Status) : Bool := s == .success

instance : Json.Form Status where
  read? _ t := (Json.nameOf? t).bind ofName?
  value s := .string s.name

end Status
end EventHub

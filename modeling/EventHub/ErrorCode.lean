set_option autoImplicit false

namespace EventHub

class ErrorCode (ε : Type) where
  code : ε → String
  recoverable : ε → Bool
  message : ε → String

namespace ErrorCode

/-- Runs of capitals and digits, joined by single underscores. -/
def isUpperSnake (cs : List Char) : Bool :=
  !cs.isEmpty && cs.head? != some '_' && cs.getLast? != some '_'
    && (cs.zip cs.tail).all (fun p => p != ('_', '_'))
    && cs.all (fun c => c.isUpper || c.isDigit || c == '_')

/-- Why a code may not be published under a family's common beginning, if it may not. -/
def fault? (family code : String) : Option String :=
  if code.isEmpty then some "error code must not be empty"
  else if !(family.toList.isPrefixOf code.toList) then
    some s!"error code '{code}' must start with prefix '{family}'"
  else if !isUpperSnake code.toList then some s!"error code '{code}' must be UPPER_SNAKE_CASE"
  else none

theorem fault?_eq_none_iff {family code : String} : fault? family code = none ↔
    code ≠ "" ∧ family.toList <+: code.toList ∧ isUpperSnake code.toList = true := by
  rw [← List.isPrefixOf_iff_prefix, fault?]
  by_cases he : code = ""
  · simp [he]
  · by_cases hp : family.toList.isPrefixOf code.toList = true
    · simp [he, hp]
    · simp [he, hp]

def firstFault? (family : String) (codes : List String) : Option String :=
  codes.findSome? (fault? family)

end ErrorCode
end EventHub

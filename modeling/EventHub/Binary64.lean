set_option autoImplicit false

/-!
Finite double-precision numbers, exactly: a double is a natural number times a power of two, and every
operation works out the exact quotient of naturals and rounds it once, to the nearest double and from a
tie to the even one.
-/
namespace EventHub

/-- A finite double without its sign: `significand * 2 ^ exponent`. The significand is below `2 ^ 53`,
and it is at least `2 ^ 52` unless the exponent is the least one. -/
structure Magnitude where
  significand : Nat
  exponent : Int
  deriving DecidableEq, Repr

structure Binary64 where
  negative : Bool
  magnitude : Magnitude
  deriving DecidableEq, Repr

namespace Magnitude

def leastExponent : Int := -1074
def greatestExponent : Int := 971

def scaleRatio : Int → Nat × Nat → Nat × Nat
  | .ofNat k, (num, den) => (num * Nat.pow 2 k, den)
  | .negSucc k, (num, den) => (num, den * Nat.pow 2 (k + 1))

def roundRatio : Nat × Nat → Nat
  | (num, den) =>
    let q := num / den
    let r := num % den
    if 2 * r < den then q
    else if den < 2 * r then q + 1
    else if q % 2 = 0 then q else q + 1

def ratioLog2 (r : Nat × Nat) : Int :=
  let guess : Int := (r.1.log2 : Int) - (r.2.log2 : Int)
  let scaled := scaleRatio (-guess) r
  if scaled.2 ≤ scaled.1 then guess else guess - 1

/-- The double nearest to a ratio; none if that is beyond the greatest double. -/
def ofRatio (r : Nat × Nat) : Option Magnitude :=
  if r.1 = 0 then some ⟨0, leastExponent⟩
  else
    let exponent := max (ratioLog2 r - 52) leastExponent
    let rounded := roundRatio (scaleRatio (-exponent) r)
    let m : Magnitude :=
      if rounded = Nat.pow 2 53 then ⟨Nat.pow 2 52, exponent + 1⟩ else ⟨rounded, exponent⟩
    if m.exponent ≤ greatestExponent then some m else none

def isZero (m : Magnitude) : Bool := m.significand == 0

def toRatio (m : Magnitude) : Nat × Nat := scaleRatio m.exponent (m.significand, 1)

def mul? (a b : Magnitude) : Option Magnitude :=
  ofRatio (scaleRatio (a.exponent + b.exponent) (a.significand * b.significand, 1))

def div? (a b : Magnitude) : Option Magnitude :=
  ofRatio (scaleRatio (a.exponent - b.exponent) (a.significand, b.significand))

def tenLimit : Nat := 308

def tenPow? (k : Nat) : Option Magnitude := ofRatio (Nat.pow 10 k, 1)

def divOften? (divisor : Option Magnitude) : Nat → Magnitude → Option Magnitude
  | 0, m => some m
  | n + 1, m =>
    if m.isZero then some m else (divisor.bind m.div?).bind (divOften? divisor n)

def divTen? (m : Magnitude) (k : Nat) : Option Magnitude :=
  let strides := (k - 1) / tenLimit
  (divOften? (tenPow? tenLimit) strides m).bind fun m => (tenPow? (k - tenLimit * strides)).bind m.div?

/-- A whole number times a power of ten as two roundings give it: first the number, then its product with
the power or its quotient by it. None beyond the greatest double. -/
def ofDecimal? (digits : Nat) (exponent : Int) : Option Magnitude :=
  (ofRatio (digits, 1)).bind fun m =>
    match exponent with
    | .ofNat k =>
      if k ≤ tenLimit then (tenPow? k).bind m.mul?
      else if m.isZero then some m else none
    | .negSucc k => m.divTen? (k + 1)

/-- Twice the distance to the next double below is one step of this exponent, or half of one where the
doubles get denser: the interval of the ratios that round to `m`, in quarters of its last place. -/
def roundingEnds (m : Magnitude) : (Nat × Nat) × (Nat × Nat) :=
  let low := if m.significand = Nat.pow 2 52 ∧ leastExponent < m.exponent then 1 else 2
  (scaleRatio (m.exponent - 2) (4 * m.significand - low, 1),
   scaleRatio (m.exponent - 2) (4 * m.significand + 2, 1))

end Magnitude
end EventHub

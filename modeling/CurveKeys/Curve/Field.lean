/-!
# Curve — the coordinate field

Residues modulo the prime `2²⁵⁶ − 2³² − 977`. Inverses and square roots are powers: in a field of
this order `a ^ (p − 2)` inverts a non-zero `a`, and since `p` is 3 modulo 4, `a ^ ((p + 1) / 4)` is
a square root of every square.
-/

namespace CurveKeys.Curve

/-- The order of the coordinate field, `2 ^ 256 - 2 ^ 32 - 977`. -/
def prime : Nat := 0xfffffffffffffffffffffffffffffffffffffffffffffffffffffffefffffc2f

-- Its zero is the one of numerals, as `Fin` has it.
instance instNeZeroPrime : @NeZero Nat Zero.ofOfNat0 prime := ⟨by decide⟩

/-- A residue modulo `prime`. -/
abbrev FieldElement := Fin prime

/-- The binary digits of a number, most significant first. -/
def binaryDigits (n : Nat) : List Bool := (List.range (n.log2 + 1)).reverse.map n.testBit

namespace FieldElement

/-- The power of `a` whose exponent has the given binary digits. -/
def powDigits (a : FieldElement) (digits : List Bool) : FieldElement :=
  digits.foldl (fun r d => if d then r * r * a else r * r) 1

def inverseExponent : List Bool := binaryDigits (prime - 2)

def rootExponent : List Bool := binaryDigits ((prime + 1) / 4)

/-- The inverse of `a`, zero for zero. -/
def inverse (a : FieldElement) : FieldElement := a.powDigits inverseExponent

/-- A square root of `a`, if it has one. -/
def sqrt? (a : FieldElement) : Option FieldElement :=
  let r := a.powDigits rootExponent
  if r * r = a then some r else none

/-- Whether the residue is an odd number. -/
def isOdd (a : FieldElement) : Bool := a.val % 2 == 1

end FieldElement

end CurveKeys.Curve

/-!
Reading decimals as binary64 numbers, given by their bits: the nearest number is chosen, a tie
goes to the even significand, and what lies past the largest finite number is infinity.
-/

namespace SquirrelAnalyzer.Decimal

def roundDiv (num den : Nat) : Nat :=
  let q := num / den
  let r := num % den
  if den < 2 * r ∨ (den = 2 * r ∧ q % 2 = 1) then q + 1 else q

def scaledDiv (num den : Nat) (k : Int) : Nat :=
  if 0 ≤ k then roundDiv num (den <<< k.toNat) else roundDiv (num <<< (-k).toNat) den

def lastBit (num den : Nat) : Int :=
  let k : Int := (Nat.log2 num : Int) - (Nat.log2 den : Int) - 52
  let tooBig := if 0 ≤ k then num < den <<< (52 + k.toNat) else num <<< (-k).toNat < den <<< 52
  max (if tooBig then k - 1 else k) (-1074)

def infinity : Nat := 2047 <<< 52

def ofRatio (num den : Nat) : Nat :=
  if num = 0 then 0
  else
    let k := lastBit num den
    min infinity (((k + 1074).toNat <<< 52) + scaledDiv num den k)

/-- The bits of the binary64 number nearest to `mantissa * 10 ^ exponent`. Exponents whose numbers
are all infinite, or all round to zero, are answered without computing the power. -/
def toBinary64 (mantissa : Nat) (exponent : Int) : UInt64 :=
  if mantissa = 0 then 0
  else if 400 < exponent then UInt64.ofNat infinity
  else if exponent < -400 - (Nat.log2 mantissa + 1 : Nat) then 0
  else if 0 ≤ exponent then UInt64.ofNat (ofRatio (mantissa * Nat.pow 10 exponent.toNat) 1)
  else UInt64.ofNat (ofRatio mantissa (Nat.pow 10 (-exponent).toNat))

end SquirrelAnalyzer.Decimal

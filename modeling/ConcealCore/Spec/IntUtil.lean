import Mathlib

/-!
# The 128-bit helpers of `int-util.h`

`mul128` multiplies two words through their 32-bit halves, detecting each
carry by the wrap of an unsigned sum; `div128_32` divides a 128-bit number by
a 32-bit divisor one 32-bit digit at a time, `div_with_reminder` carrying the
remainder from digit to digit. The words are `UInt64` and wrap as the source's
`uint64_t` do.
-/

namespace Cn

namespace IntUtil

/-- `hi_dword(val)`. -/
def hiDword (val : UInt64) : UInt64 := val >>> 32

/-- `lo_dword(val)`. -/
def loDword (val : UInt64) : UInt64 := val &&& 0xFFFFFFFF

/-- `mul128(multiplier, multiplicand, &product_hi)`: the low word and `product_hi`. -/
@[grind] def mul128 (multiplier multiplicand : UInt64) : UInt64 × UInt64 :=
  let a := hiDword multiplier
  let b := loDword multiplier
  let c := hiDword multiplicand
  let d := loDword multiplicand
  let ac := a * c
  let ad := a * d
  let bc := b * c
  let bd := b * d
  let adbc := ad + bc
  let adbcCarry : UInt64 := if adbc < ad then 1 else 0
  let productLo := bd + (adbc <<< 32)
  let productLoCarry : UInt64 := if productLo < bd then 1 else 0
  (productLo, ac + (adbc >>> 32) + (adbcCarry <<< 32) + productLoCarry)

/-- `div_with_reminder(dividend, divisor, &remainder)`: the quotient of the
dividend under the remainder so far, and the new remainder. -/
def divWithReminder (dividend : UInt64) (divisor : UInt32) (remainder : UInt32) : UInt64 × UInt32 :=
  let dividend := dividend ||| (remainder.toUInt64 <<< 32)
  (dividend / divisor.toUInt64, (dividend % divisor.toUInt64).toUInt32)

/-- `div128_32(dividend_hi, dividend_lo, divisor, &quotient_hi, &quotient_lo)`:
the remainder it returns, then `quotient_hi` and `quotient_lo`. -/
@[grind] def div128_32 (dividendHi dividendLo : UInt64) (divisor : UInt32) : UInt32 × UInt64 × UInt64 :=
  let (q3, remainder) := divWithReminder (hiDword dividendHi) divisor 0
  let (q2, remainder) := divWithReminder (loDword dividendHi) divisor remainder
  let (q1, remainder) := divWithReminder (hiDword dividendLo) divisor remainder
  let (q0, remainder) := divWithReminder (loDword dividendLo) divisor remainder
  (remainder, (q3 <<< 32) ||| q2, (q1 <<< 32) ||| q0)

end IntUtil

end Cn

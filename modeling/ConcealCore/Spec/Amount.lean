import ConcealCore.Lib.Decimal

/-!
# Amounts as text

`Currency::formatAmount` prints an amount of atomic units as a decimal with
`m_numberOfDecimalPlaces` digits after the point, and `Currency::parseAmount`
reads such a decimal back. The number of places is the one member of
`Currency` they read, and a parameter here. Strings are lists of characters;
`std::to_string` is `Decimal.toDecimal`, and `common::fromString` into a
`uint64_t` is only ever given a string of digits, which
`std::istringstream >> uint64_t` reads as its value, failing from `2 ^ 64` on.
-/

namespace Cn

open Decimal

/-- `std::isspace` in the classic locale, the test `boost::algorithm::trim`
uses by default. -/
def isSpace (c : Char) : Bool :=
  c = ' ' || c = '\t' || c = '\n' || c = '\x0b' || c = '\x0c' || c = '\r'

/-- `boost::algorithm::trim`: the white space at both ends removed. -/
def trim (s : List Char) : List Char :=
  ((s.dropWhile isSpace).reverse.dropWhile isSpace).reverse

/-- `Currency::formatAmount(uint64_t)`: the digits of the amount, padded with
zeros in front to `numberOfDecimalPlaces + 1` digits, and a point before the
last `numberOfDecimalPlaces` of them. -/
def formatAmount (numberOfDecimalPlaces : ℕ) (amount : UInt64) : List Char :=
  let s := toDecimal amount.toNat
  let s := if s.length < numberOfDecimalPlaces + 1 then
      List.replicate (numberOfDecimalPlaces + 1 - s.length) '0' ++ s
    else s
  s.take (s.length - numberOfDecimalPlaces) ++ '.' :: s.drop (s.length - numberOfDecimalPlaces)

/-- The loop of `parseAmount` that drops the last character while the fraction
is longer than allowed and that character is a zero: the string and
`fractionSize` after it. -/
def parseAmount.dropZeros (numberOfDecimalPlaces : ℕ) : ℕ → List Char → List Char × ℕ
  | 0, s => (s, 0)
  | fractionSize + 1, s =>
    if numberOfDecimalPlaces < fractionSize + 1 ∧ s.getLast? = some '0' then
      parseAmount.dropZeros numberOfDecimalPlaces fractionSize s.dropLast
    else (s, fractionSize + 1)

/-- `common::fromString(text, value)` into a `uint64_t`, on a string of digits. -/
def fromString (text : List Char) : Option UInt64 :=
  if value text < 2 ^ 64 then some (UInt64.ofNat (value text)) else none

/-- The end of `parseAmount`, once the point is gone: an empty string and a
character other than a digit are refused, and the fraction is padded with
zeros to `numberOfDecimalPlaces` digits before the digits are read. -/
def parseAmount.finish (numberOfDecimalPlaces : ℕ) (strAmount : List Char) (fractionSize : ℕ) :
    Option UInt64 :=
  if strAmount.isEmpty then none
  else if !strAmount.all Char.isDigit then none
  else
    let strAmount := if fractionSize < numberOfDecimalPlaces then
        strAmount ++ List.replicate (numberOfDecimalPlaces - fractionSize) '0'
      else strAmount
    fromString strAmount

/-- `Currency::parseAmount(str, amount)`: the amount, or `none` where it
returns `false`. The fraction starts after the first point
(`find_first_of('.')`). -/
def parseAmount (numberOfDecimalPlaces : ℕ) (str : List Char) : Option UInt64 :=
  let strAmount := trim str
  match strAmount.findIdx? (· == '.') with
  | some pointIndex =>
    let (strAmount, fractionSize) :=
      parseAmount.dropZeros numberOfDecimalPlaces (strAmount.length - pointIndex - 1) strAmount
    if numberOfDecimalPlaces < fractionSize then none
    else parseAmount.finish numberOfDecimalPlaces (strAmount.eraseIdx pointIndex) fractionSize
  | none => parseAmount.finish numberOfDecimalPlaces strAmount 0

end Cn

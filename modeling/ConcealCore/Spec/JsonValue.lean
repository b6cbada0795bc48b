import ConcealCore.Lib.Descent

/-!
# JSON values and the text parser

`common::JsonValue` and its reading from text: `operator>>(istream, JsonValue)`
with `readArray`, `readObject`, `readNumber`, `readString` and the literals,
as `JsonValue::fromString` runs it on an RPC request body. Text is bytes; an
object is its `std::map`, a list of members in key order.

The parser is recursive descent with no depth counter. Each of its three
recursive functions takes a budget `d`, the number of their frames the native
stack still has room for: at `0` the call ends in `stackOverflow`, which the
process meets as a crash, not as an exception. The `for (;;)` loops of
`readArray` and `readObject` are given one more turn than their input has bytes
(`turnsExhausted` past it; every turn but the last takes a byte). The
conversion of a decimal text to a `double` is a parameter.
-/

namespace Cn

/-- `common::JsonValue`: a real is the bits of its `double`, an object the
members of its `std::map` in key order. -/
inductive JsonValue
  | array (items : List JsonValue)
  | bool (value : Bool)
  | integer (value : Int64)
  | nil
  | object (members : List (List UInt8 × JsonValue))
  | real (bits : UInt64)
  | string (value : List UInt8)
  deriving Repr

/-- How a parse ends short of a value. -/
inductive ParseError
  /-- A `std::runtime_error`, with its `what()`. -/
  | exception (what : String)
  /-- The native stack ran out: the process crashes. -/
  | stackOverflow
  /-- A loop ran past its bound on turns. -/
  | turnsExhausted
  deriving DecidableEq, Repr

namespace JsonValue

/-! ## Objects -/

/-- `JsonValue::insert(key, value)`, `std::map::emplace`: a key already present
keeps its value. -/
def insert : List (List UInt8 × JsonValue) → List UInt8 → JsonValue → List (List UInt8 × JsonValue)
  | [], key, value => [(key, value)]
  | (k, v) :: members, key, value =>
    if key = k then (k, v) :: members
    else if key < k then (key, value) :: (k, v) :: members
    else (k, v) :: insert members key value

/-- `JsonValue::set(key, value)`, `map[key] = value`: a key already present
takes the new value. -/
def set : List (List UInt8 × JsonValue) → List UInt8 → JsonValue → List (List UInt8 × JsonValue)
  | [], key, value => [(key, value)]
  | (k, v) :: members, key, value =>
    if key = k then (k, value) :: members
    else if key < k then (key, value) :: (k, v) :: members
    else (k, v) :: set members key value

mutual

/-- The nesting depth of a value: `0` for a scalar, one more than its deepest
member for an array or an object. -/
def depth : JsonValue → Nat
  | array items => depthItems items + 1
  | object members => depthMembers members + 1
  | _ => 0

/-- The depth of the deepest of some items. -/
def depthItems : List JsonValue → Nat
  | [] => 0
  | v :: items => max (depth v) (depthItems items)

/-- The depth of the deepest of some members. -/
def depthMembers : List (List UInt8 × JsonValue) → Nat
  | [] => 0
  | (_, v) :: members => max (depth v) (depthMembers members)

end

/-! ## Reading text -/

open Descent

/-- `"Unable to parse"`, the parser's one complaint about its input. -/
def unableToParse : ParseError := .exception "Unable to parse"

/-- What `readChar` throws at the end of the stream. -/
def unexpectedEnd : ParseError := .exception "Unable to parse: unexpected end of stream"

/-- `"`. -/
def quotationMark : UInt8 := 34

/-- The backslash. -/
def reverseSolidus : UInt8 := 92

/-- `isspace` in the C locale. -/
def isspace (c : UInt8) : Bool := c = ' '.toUInt8 || (9 ≤ c && c ≤ 13)

/-- A decimal digit. -/
def isDigit (c : UInt8) : Bool := '0'.toUInt8 ≤ c && c ≤ '9'.toUInt8

/-- `readNonWsChar`: the next byte that is not white space. -/
def readNonWsChar : Parser UInt8 ParseError UInt8
  | [] => .error unexpectedEnd
  | c :: s => if isspace c then readNonWsChar s else .ok (c, s)

/-- `readStringToken`: the bytes up to the closing quotation mark, a backslash
kept with the byte after it. -/
def readStringToken : Parser UInt8 ParseError (List UInt8)
  | [] => .error unexpectedEnd
  | c :: s =>
    if c = quotationMark then .ok ([], s)
    else if c = reverseSolidus then
      match s with
      | [] => .error unexpectedEnd
      | c' :: s' =>
        match readStringToken s' with
        | .error e => .error e
        | .ok (value, r) => .ok (c :: c' :: value, r)
    else
      match readStringToken s with
      | .error e => .error e
      | .ok (value, r) => .ok (c :: value, r)

/-- `readTrue`, `readFalse` and `readNull`: the rest of the word. A stream too
short for it leaves the compared bytes undefined and the stream failed, which
the source throws on then or at its next read. -/
def readLiteral (rest : List UInt8) (value : JsonValue) : Parser UInt8 ParseError JsonValue := fun s =>
  if s.take rest.length = rest then .ok (value, s.drop rest.length) else .error unableToParse

/-- The value of a string of decimal digits. -/
@[grind] def decimalValue (digits : List UInt8) : Nat :=
  digits.foldl (fun n c => 10 * n + (c - '0'.toUInt8).toNat) 0

/-- `std::istringstream(text) >> int64_t` on a sign or digit followed by
digits: the value saturated at the bounds, `0` for a lone `-`. -/
def istreamInt64 : List UInt8 → Int64
  | [] => 0
  | c :: digits =>
    if c = '-'.toUInt8 then
      if digits = [] then 0 else Int64.ofInt (max (-(decimalValue digits : Int)) (-2 ^ 63))
    else Int64.ofInt (min (decimalValue (c :: digits) : Int) (2 ^ 63 - 1))

/-- The sign of an exponent, `+` or `-`, if there is one. -/
def readSign : List UInt8 → List UInt8 × List UInt8
  | [] => ([], [])
  | i :: s => if i = '+'.toUInt8 ∨ i = '-'.toUInt8 then ([i], s) else ([], i :: s)

/-- The exponent `readNumber` reads after a fraction: `e`, a sign if any, and
at least one digit. -/
def readExponent : List UInt8 → Except ParseError (List UInt8 × List UInt8)
  | [] => .ok ([], [])
  | e :: s =>
    if e ≠ 'e'.toUInt8 then .ok ([], e :: s)
    else
      match readSign s with
      | (sign, i :: s) =>
        if isDigit i then .ok (e :: sign ++ (i :: s).takeWhile isDigit, (i :: s).dropWhile isDigit)
        else .error unableToParse
      | (_, []) => .error unableToParse

/-- A byte of the first loop of `readNumber`. -/
def isDigitOrDot (i : UInt8) : Bool := isDigit i || i = '.'.toUInt8

section Text

variable (toReal : List UInt8 → UInt64)

/-- `readNumber(in, c)`: digits and dots after `c`; with one dot a real with an
optional exponent, with none an integer without a leading zero. -/
def readNumber (c : UInt8) (s : List UInt8) : Except ParseError (JsonValue × List UInt8) :=
  let text := c :: s.takeWhile isDigitOrDot
  let s := s.dropWhile isDigitOrDot
  let dots := text.count '.'.toUInt8
  if dots > 0 then
    if dots > 1 then .error unableToParse
    else
      match readExponent s with
      | .error e => .error e
      | .ok (exponent, s) => .ok (real (toReal (text ++ exponent)), s)
  else if text.length > 1 ∧ (c = '0'.toUInt8 ∨ (c = '-'.toUInt8 ∧ text[1]? = some '0'.toUInt8)) then
    .error unableToParse
  else .ok (integer (istreamInt64 text), s)

/-- `readString`. -/
@[grind] def readString (s : List UInt8) : Except ParseError (JsonValue × List UInt8) :=
  match readStringToken s with
  | .error e => .error e
  | .ok (value, r) => .ok (string value, r)

/-- One turn of the loop of `readArray`: an item, then `]` to stop or `,` to go on. -/
@[grind] def arrayTurn (item : Parser UInt8 ParseError JsonValue) (items : List JsonValue) :
    Parser UInt8 ParseError (List JsonValue ⊕ List JsonValue) := fun s =>
  match item s with
  | .error e => .error e
  | .ok (v, s) =>
    match readNonWsChar s with
    | .error e => .error e
    | .ok (c, s) =>
      if c = ']'.toUInt8 then .ok (.inr (items ++ [v]), s)
      else if c ≠ ','.toUInt8 then .error unableToParse
      else .ok (.inl (items ++ [v]), s)

/-- One turn of the loop of `readObject`, from the byte read before it: a
quoted name, `:`, the member's value, then `}` to stop or `,` and the next
byte to go on. -/
@[grind] def objectTurn (member : Parser UInt8 ParseError JsonValue) (state : UInt8 × List (List UInt8 × JsonValue)) :
    Parser UInt8 ParseError ((UInt8 × List (List UInt8 × JsonValue)) ⊕ List (List UInt8 × JsonValue)) :=
  fun s =>
  if state.1 ≠ quotationMark then .error unableToParse
  else
    match readStringToken s with
    | .error e => .error e
    | .ok (name, s) =>
      match readNonWsChar s with
      | .error e => .error e
      | .ok (c, s) =>
        if c ≠ ':'.toUInt8 then .error unableToParse
        else
          match member s with
          | .error e => .error e
          | .ok (v, s) =>
            let members := set state.2 name v
            match readNonWsChar s with
            | .error e => .error e
            | .ok (c, s) =>
              if c = '}'.toUInt8 then .ok (.inr members, s)
              else if c ≠ ','.toUInt8 then .error unableToParse
              else
                match readNonWsChar s with
                | .error e => .error e
                | .ok (c, s) => .ok (.inl (c, members), s)

mutual

/-- `operator>>(istream, JsonValue)`, with room for `d` frames. -/
def readValue : Nat → Parser UInt8 ParseError JsonValue
  | 0, _ => .error .stackOverflow
  | d + 1, s =>
    match readNonWsChar s with
    | .error e => .error e
    | .ok (c, s) =>
      if c = '['.toUInt8 then readArray d s
      else if c = 't'.toUInt8 then readLiteral ['r'.toUInt8, 'u'.toUInt8, 'e'.toUInt8] (bool true) s
      else if c = 'f'.toUInt8 then
        readLiteral ['a'.toUInt8, 'l'.toUInt8, 's'.toUInt8, 'e'.toUInt8] (bool false) s
      else if c = '-'.toUInt8 ∨ isDigit c then readNumber toReal c s
      else if c = 'n'.toUInt8 then readLiteral ['u'.toUInt8, 'l'.toUInt8, 'l'.toUInt8] nil s
      else if c = '{'.toUInt8 then readObject d s
      else if c = quotationMark then readString s
      else .error unableToParse

/-- `JsonValue::readArray`, after the `[`: `]`, or the byte put back and items
up to `]`. -/
@[grind] def readArray : Nat → Parser UInt8 ParseError JsonValue
  | 0, _ => .error .stackOverflow
  | d + 1, s =>
    match readNonWsChar s with
    | .error e => .error e
    | .ok (c, s) =>
      if c = ']'.toUInt8 then .ok (array [], s)
      else
        match loopUntil (arrayTurn (readValue d)) .turnsExhausted (s.length + 2) [] (c :: s) with
        | .error e => .error e
        | .ok (items, r) => .ok (array items, r)

/-- `JsonValue::readObject`, after the `{`: `}`, or members up to `}`. -/
@[grind] def readObject : Nat → Parser UInt8 ParseError JsonValue
  | 0, _ => .error .stackOverflow
  | d + 1, s =>
    match readNonWsChar s with
    | .error e => .error e
    | .ok (c, s) =>
      if c = '}'.toUInt8 then .ok (object [], s)
      else
        match loopUntil (objectTurn (readValue d)) .turnsExhausted (s.length + 1) (c, []) s with
        | .error e => .error e
        | .ok (members, r) => .ok (object members, r)

end

/-- `JsonValue::fromString(source)`, with room for `d` frames: what follows the
value is not looked at. -/
def fromString (d : Nat) (source : List UInt8) : Except ParseError JsonValue :=
  match readValue toReal d source with
  | .error e => .error e
  | .ok (v, _) => .ok v

end Text

end JsonValue

end Cn

import LineShell.Toml.Quoted

namespace LineShell.Toml

/-! Numbers, as they are written.

A number must be one that can be held: a whole number in 64 bits with a sign, a
fraction below the greatest power that a double has. A fraction that is too far
below zero counts as minus infinity and is accepted.
-/

namespace Number

/-- Digits, between which single underscores may stand. -/
def areDigits (isDigit : Char → Bool) (text : Text) : Bool :=
  (Text.splitOn ['_'] text).all fun group => group ≠ [] && group.all isDigit

/-- What digits with underscores amount to. -/
def digitsValue (base : Nat) (text : Text) : Nat :=
  (text.filter (· ≠ '_')).foldl (fun value c => value * base + hexDigitValue c) 0

/-- The text after its sign, and whether that is a minus. -/
def unsigned : Text → Bool × Text
  | '-' :: text => (true, text)
  | '+' :: text => (false, text)
  | text => (false, text)

/-- Decimal digits that begin with zero only if there is no other. -/
def isWhole (text : Text) : Bool :=
  areDigits Char.isDigit text && (text.head? ≠ some '0' || text = ['0'])

/-- The first number too great to be held; minus it can be held. -/
def wholeLimit : Nat := 0x8000000000000000

def isDecimal (text : Text) : Bool :=
  let (negative, digits) := unsigned text
  let value := digitsValue 10 digits
  isWhole digits && (if negative then value ≤ wholeLimit else value < wholeLimit)

/-- A whole number in digits of another base. -/
def isBased (base : Nat) (isDigit : Char → Bool) (digits : Text) : Bool :=
  areDigits isDigit digits && digitsValue base digits < wholeLimit

def isInteger : Text → Bool
  | '0' :: 'x' :: digits => isBased 16 isHexDigit digits
  | '0' :: 'o' :: digits => isBased 8 (fun c => '0' ≤ c && c ≤ '7') digits
  | '0' :: 'b' :: digits => isBased 2 (fun c => c = '0' || c = '1') digits
  | text => isDecimal text

/-- The least value that rounds to infinity. -/
def overflow : Nat := Nat.pow 2 1024 - Nat.pow 2 970

/-- Whether `digits * 10 ^ exponent` rounds to infinity. Its decimal length
decides but for the few lengths that `overflow` itself may have. -/
def overflows (digits : Nat) (exponent : Int) : Bool :=
  let length := (Text.ofNat digits).length + exponent
  if digits = 0 || length < 309 then false
  else if 309 < length then true
  else if 0 ≤ exponent then overflow ≤ digits * Nat.pow 10 exponent.toNat
  else overflow * Nat.pow 10 (-exponent).toNat ≤ digits

/-- A whole number with a fraction or an exponent or both. -/
def isDecimalFraction (text : Text) : Bool :=
  let (negative, text) := unsigned text
  let mantissa := text.takeWhile fun c => c ≠ 'e' && c ≠ 'E'
  let exponent := text.drop mantissa.length
  let whole := mantissa.takeWhile (· ≠ '.')
  let fraction := mantissa.drop whole.length
  let (lowered, power) := unsigned (exponent.drop 1)
  let isPart part := part = [] || areDigits Char.isDigit (part.drop 1)
  let scale : Int := (if lowered then -1 else 1) * (digitsValue 10 power : Int) -
    ((fraction.drop 1).filter (· ≠ '_')).length
  isWhole whole && isPart fraction && (exponent = [] || areDigits Char.isDigit power) &&
    (fraction ≠ [] || exponent ≠ []) &&
    (negative || !overflows (digitsValue 10 (whole ++ fraction.drop 1)) scale)

/-- A number that need not be whole. -/
def isFraction (text : Text) : Bool :=
  (unsigned text).2 = "inf".toList || (unsigned text).2 = "nan".toList ||
    isDecimalFraction text

end Number

end LineShell.Toml

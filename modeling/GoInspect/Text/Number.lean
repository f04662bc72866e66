import GoInspect.Text

/-!
# Numbers in text

Printing and reading of whole numbers. A literal is decimal, or hexadecimal after `0x`, binary after
`0b`, octal after any other leading `0`; blanks around it do not count. Addresses are hexadecimal
with or without `0x`, and take no blanks.
-/

namespace GoInspect

namespace Text

/-- The digits of `n` in the given base, most significant first. Zero has the single digit 0. -/
def digits (base n : Nat) : List Nat :=
  if _h : n < base ∨ base < 2 then [n] else digits base (n / base) ++ [n % base]
termination_by n
decreasing_by exact Nat.div_lt_self (by omega) (by omega)

/-- The character of a digit; letters are small. -/
def digitByte (d : Nat) : UInt8 := if d < 10 then (48 + d).toUInt8 else (87 + d).toUInt8

def ofNat (base n : Nat) : Text := (digits base n).map digitByte

def decimal (n : Nat) : Text := ofNat 10 n

/-- An integer in decimal, with a minus where it is negative. -/
def signedDecimal (n : Int) : Text :=
  if n < 0 then 45 :: decimal n.natAbs else decimal n.natAbs

def hex (n : Nat) : Text := utf8 "0x" ++ ofNat 16 n

/-- A number in hexadecimal, filled up with zeros to at least `width` digits. -/
def paddedHex (width n : Nat) : Text :=
  let t := ofNat 16 n
  List.replicate (width - t.length) 48 ++ t

/-- The value of a digit in any base up to 36, letters of either case. -/
def digitValue (b : UInt8) : Nat :=
  if 48 ≤ b ∧ b ≤ 57 then b.toNat - 48
  else if 97 ≤ b ∧ b ≤ 122 then b.toNat - 87
  else if 65 ≤ b ∧ b ≤ 90 then b.toNat - 55
  else 36

/-- The number written by one digit after another, refused where a byte is no digit of the base. -/
def digitsValue? (base : Nat) (t : Text) : Option Nat :=
  t.foldlM (fun value b =>
    if digitValue b < base then some (value * base + digitValue b) else none) 0

/-- The number written by at least one digit. -/
def natOfDigits? (base : Nat) (t : Text) : Option Nat :=
  if t.isEmpty then none else digitsValue? base t

/-- As `natOfDigits?`, with a minus allowed in front. -/
def intOfDigits? (base : Nat) (t : Text) : Option Int :=
  match t with
  | 45 :: rest => (natOfDigits? base rest).map fun n => -(n : Int)
  | _ => (natOfDigits? base t).map fun n => (n : Int)

/-- The base that a literal announces, and the part in which its digits stand. The announcement only
counts where something follows it, so `0` is decimal and `0x` is the octal digit `x`. -/
def literalBase (t : Text) : Nat × Text :=
  match t with
  | 48 :: b :: c :: rest =>
    if b = 120 ∨ b = 88 then (16, c :: rest)
    else if b = 98 ∨ b = 66 then (2, c :: rest)
    else (8, b :: c :: rest)
  | [48, b] => (8, [b])
  | _ => (10, t)

/-- The number that a literal denotes, however large. -/
def natLiteral? (t : Text) : Option Nat :=
  let (base, digits) := literalBase t.trim
  natOfDigits? base digits

/-- The number that a literal denotes, if it is below `2 ^ bits`. -/
def unsigned? (bits : Nat) (t : Text) : Option Nat :=
  (natLiteral? t).filter (· < Nat.pow 2 bits)

def toUInt64? (t : Text) : Option UInt64 := (unsigned? 64 t).map UInt64.ofNat

def toUInt32? (t : Text) : Option UInt32 := (unsigned? 32 t).map UInt32.ofNat

def toUInt8? (t : Text) : Option UInt8 := (unsigned? 8 t).map UInt8.ofNat

/-- A literal of 64 bits with a sign, which stands in front of the digits and after the base. -/
def toInt64? (t : Text) : Option Int :=
  let (base, digits) := literalBase t.trim
  (intOfDigits? base digits).filter fun n =>
    -0x8000000000000000 ≤ n ∧ n < 0x8000000000000000

/-- A hexadecimal address, `0x` in front or not. -/
def toAddress? (t : Text) : Option UInt64 :=
  let digits := match t with
    | 48 :: 120 :: rest => rest
    | 48 :: 88 :: rest => rest
    | _ => t
  ((natOfDigits? 16 digits).filter (· < 0x10000000000000000)).map UInt64.ofNat

end Text

end GoInspect

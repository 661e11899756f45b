/- # Text.Numeral -- integers as text

Two written forms: the shortest decimal form of an integer, and a numeral of a
fixed width in a given base, which holds the last digits of the number. Digits
above nine are the letters from a on, in lower case; the reader takes both cases.
-/

namespace ArchiveRecord.Text

/-- The last `width` digits of a number, highest first. -/
def numeral (base : Nat) : Nat → Nat → List Char
  | 0, _ => []
  | width + 1, n => numeral base width (n / base) ++ [Nat.digitChar (n % base)]

@[simp] theorem length_numeral (base width n : Nat) : (numeral base width n).length = width := by
  induction width generalizing n with
  | zero => rfl
  | succ width ih => simp [numeral, ih]

/-- A natural number in decimal digits without leading zeros. -/
def natural (n : Nat) : List Char := Nat.toDigits 10 n

/-- An integer in decimal digits, after a minus sign where it is negative. -/
def integer : Int → List Char
  | .ofNat n => natural n
  | .negSucc n => '-' :: natural (n + 1)

/-! ## Reading -/

/-- The value of a digit of a base. -/
def digitValue? (base : Nat) (c : Char) : Option Nat :=
  let value :=
    if '0' ≤ c ∧ c ≤ '9' then c.toNat - '0'.toNat
    else if 'a' ≤ c ∧ c ≤ 'z' then c.toNat - 'a'.toNat + 10
    else if 'A' ≤ c ∧ c ≤ 'Z' then c.toNat - 'A'.toNat + 10
    else base
  if value < base then some value else none

/-- The number that digits of a base stand for, highest first. -/
def number? (base : Nat) (digits : List Char) : Option Nat :=
  digits.foldlM (fun n c => (digitValue? base c).map (n * base + ·)) 0

end ArchiveRecord.Text

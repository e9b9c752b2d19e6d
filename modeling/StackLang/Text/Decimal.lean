/-!
Integers in decimal notation. A number has at least one digit and may have leading zeros; a sign
is a single character in front of it. Integers of the language have 64 bits with a sign, counts
and indices 64 bits without one.
-/
namespace StackLang.Text

def InIntRange (n : Int) : Prop := -0x8000000000000000 ≤ n ∧ n < 0x8000000000000000

instance (n : Int) : Decidable (InIntRange n) := inferInstanceAs (Decidable (_ ∧ _))

def InCountRange (n : Nat) : Prop := n < 0x10000000000000000

instance (n : Nat) : Decidable (InCountRange n) := inferInstanceAs (Decidable (_ < _))

def digitsValue? (cs : List Char) : Option Nat :=
  if cs ≠ [] ∧ cs.all Char.isDigit then some (Nat.ofDigitChars 10 cs 0) else none

/-- Reads a count: digits, with an optional plus sign in front. -/
def readCount? (cs : List Char) : Option Nat :=
  let digits := match cs with
    | '+' :: rest => rest
    | _ => cs
  (digitsValue? digits).filter fun n => decide (InCountRange n)

def readInt? (cs : List Char) : Option Int :=
  let value := match cs with
    | '+' :: rest => (digitsValue? rest).map Int.ofNat
    | '-' :: rest => (digitsValue? rest).map fun n => -(n : Int)
    | _ => (digitsValue? cs).map Int.ofNat
  value.filter fun n => decide (InIntRange n)

def showInt (n : Int) : String :=
  if n < 0 then "-" ++ Nat.repr n.natAbs else Nat.repr n.natAbs

def showPadded (width n : Nat) : String :=
  let digits := Nat.repr n
  String.ofList (List.replicate (width - digits.length) '0') ++ digits

def padEnd (width : Nat) (s : String) : String :=
  s ++ String.ofList (List.replicate (width - s.length) ' ')

end StackLang.Text

import StackLang.Text.Utf8

/-!
Plain data as bytes. A natural number is cut into groups of seven bits, the lowest first, and all
bytes but its last have their top bit set; an integer is first folded into a natural number, which
is even for those that are not negative. A text and a list follow their lengths. Reading takes a
number from at most as many bytes as its width needs, whether it could have been shorter or not.
-/
namespace StackLang.Wire

inductive WireFault
  | endOfData
  | badNumber
  | badBool
  | badText
  | unknownTag

def WireFault.message : WireFault → String
  | .endOfData => "Hit the end of buffer, expected more data"
  | .badNumber => "Found a varint that didn't terminate. Is the usize too big for this platform?"
  | .badBool => "Found a bool that wasn't 0 or 1"
  | .badText => "Tried to parse invalid utf-8"
  | .unknownTag => "Serde Deserialization Error"

abbrev Reader := StateT (List UInt8) (Except WireFault)

def writeNat (n : Nat) : List UInt8 :=
  if n < 128 then [n.toUInt8] else (n % 128 + 128).toUInt8 :: writeNat (n / 128)

/-- The width of a number: the most bytes it takes, and the greatest value of the last of them. -/
structure Width where
  bytes : Nat
  last : Nat

def Width.wide : Width := ⟨10, 1⟩

def Width.narrow : Width := ⟨5, 15⟩

/-- Takes a number from at most `bytes` bytes. -/
def readNatFrom (last : Nat) : (bytes : Nat) → List UInt8 → Except WireFault (Nat × List UInt8)
  | 0, _ => .error .badNumber
  | _, [] => .error .endOfData
  | 1, b :: rest => if b.toNat ≤ last then .ok (b.toNat, rest) else .error .badNumber
  | bytes + 1, b :: rest =>
    if b.toNat < 128 then .ok (b.toNat, rest)
    else
      match readNatFrom last bytes rest with
      | .ok (n, rest) => .ok (b.toNat - 128 + 128 * n, rest)
      | .error e => .error e

def readNat (width : Width) : Reader Nat := readNatFrom width.last width.bytes

/-- Folds the integers into the natural numbers. -/
def zigzag (n : Int) : Nat := if n < 0 then 2 * n.natAbs - 1 else 2 * n.natAbs

def unzigzag (n : Nat) : Int := if n % 2 = 0 then (n / 2 : Nat) else -((n / 2 : Nat) : Int) - 1

def writeInt (n : Int) : List UInt8 := writeNat (zigzag n)

def readInt : Reader Int := do return unzigzag (← readNat .wide)

def writeBool (b : Bool) : List UInt8 := [if b then 1 else 0]

def readBool : Reader Bool := fun bytes =>
  match bytes with
  | [] => .error .endOfData
  | b :: rest =>
    if b = 0 then .ok (false, rest) else if b = 1 then .ok (true, rest) else .error .badBool

def writeText (s : String) : List UInt8 :=
  let bytes := Text.encodeUtf8 s
  writeNat bytes.length ++ bytes

def take (n : Nat) : Reader (List UInt8) := fun bytes =>
  if bytes.length < n then .error .endOfData else .ok (bytes.take n, bytes.drop n)

def readText : Reader String := do
  let bytes ← take (← readNat .wide)
  match Text.decodeUtf8? bytes with
  | some s => return s
  | none => throw .badText

def writeList {α : Type} (write : α → List UInt8) (items : List α) : List UInt8 :=
  writeNat items.length ++ items.flatMap write

def readMany {α : Type} (read : Reader α) : Nat → Reader (List α)
  | 0 => return []
  | n + 1 => do
    let item ← read
    return item :: (← readMany read n)

def readList {α : Type} (read : Reader α) : Reader (List α) := do
  readMany read (← readNat .wide)

end StackLang.Wire

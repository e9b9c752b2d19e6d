import StackLang.Code
import StackLang.Wire

/-!
Tables as bytes. Four bytes mark the format; after them stand the fields of the table in their
order. An instruction is a tag and its operand. Bytes after the table are ignored.
-/
namespace StackLang

open Wire

def binaryMark : List UInt8 := [0x4B, 0x42, 0x43, 0x01]

namespace Instr

def tag : Instr → Nat
  | .push (.int _) => 0
  | .push (.bool _) => 1
  | .push (.str _) => 2
  | .push .nothing => 3
  | .load (.frame _) => 4
  | .store (.frame _) => 5
  | .load (.global _) => 6
  | .store (.global _) => 7
  | .binary .add => 8
  | .binary .sub => 9
  | .binary .mul => 10
  | .binary .div => 11
  | .unary .neg => 12
  | .binary .and => 13
  | .binary .or => 14
  | .unary .not => 15
  | .binary .eq => 16
  | .binary .ne => 17
  | .binary .lt => 18
  | .binary .gt => 19
  | .binary .le => 20
  | .binary .ge => 21
  | .pop => 22
  | .jump _ => 23
  | .jumpIf _ => 24
  | .call _ => 25
  | .native _ => 26
  | .ret => 27

def writeOperand : Instr → List UInt8
  | .push (.int n) => writeInt n
  | .push (.bool b) => writeBool b
  | .push (.str s) => writeText s
  | .load (.frame i) | .load (.global i) | .store (.frame i) | .store (.global i) => writeNat i
  | .jump target | .jumpIf target => writeNat target
  | .call function => writeText function
  | .native i => writeNat i
  | _ => []

def write (i : Instr) : List UInt8 := writeNat i.tag ++ i.writeOperand

def readOperand : Nat → Reader Instr
  | 0 => do return .push (.int (← readInt))
  | 1 => do return .push (.bool (← readBool))
  | 2 => do return .push (.str (← readText))
  | 3 => return .push .nothing
  | 4 => do return .load (.frame (← readNat .wide))
  | 5 => do return .store (.frame (← readNat .wide))
  | 6 => do return .load (.global (← readNat .wide))
  | 7 => do return .store (.global (← readNat .wide))
  | 8 => return .binary .add
  | 9 => return .binary .sub
  | 10 => return .binary .mul
  | 11 => return .binary .div
  | 12 => return .unary .neg
  | 13 => return .binary .and
  | 14 => return .binary .or
  | 15 => return .unary .not
  | 16 => return .binary .eq
  | 17 => return .binary .ne
  | 18 => return .binary .lt
  | 19 => return .binary .gt
  | 20 => return .binary .le
  | 21 => return .binary .ge
  | 22 => return .pop
  | 23 => do return .jump (← readNat .wide)
  | 24 => do return .jumpIf (← readNat .wide)
  | 25 => do return .call (← readText)
  | 26 => do return .native (← readNat .wide)
  | 27 => return .ret
  | _ => throw .unknownTag

def read : Reader Instr := do readOperand (← readNat .narrow)

end Instr

namespace FunctionCode

def write (f : FunctionCode) : List UInt8 :=
  writeText f.name ++ writeNat f.paramCount ++ writeNat f.localCount ++
    writeList Instr.write f.code.toList

def read : Reader FunctionCode := do
  let name ← readText
  let paramCount ← readNat .wide
  let localCount ← readNat .wide
  let code ← readList Instr.read
  return ⟨name, paramCount, localCount, code.toArray⟩

end FunctionCode

namespace Table

def toBytes (t : Table) : List UInt8 :=
  binaryMark ++ (writeNat t.globalCount ++ writeList FunctionCode.write t.functions)

def read : Reader Table := do
  let globalCount ← readNat .wide
  let functions ← readList FunctionCode.read
  return ⟨globalCount, functions⟩

def isBinary (bytes : List UInt8) : Bool := binaryMark.isPrefixOf bytes

end Table

end StackLang

import StackLang.Code

/-!
Checks of a table before it runs: operands refer to something that exists, no function can run past
its end, and a scan from the first instruction to the last one, which does not follow jumps, never
takes more from the stack than it put there.
-/
namespace StackLang

inductive CheckFault
  | frameTooSmall
  | runsPastEnd
  | badSlot (slot : Slot)
  | badJump (target : Nat)
  | unknownNative (index : Nat)
  | undefinedCall (function : String)
  | underflow (instr : Instr) (needed : Nat)

def Slot.outOfRange : Slot → String
  | .frame i => "local slot " ++ Nat.repr i ++ " out of range"
  | .global i => "global slot " ++ Nat.repr i ++ " out of range"

def CheckFault.message : CheckFault → String
  | .frameTooSmall => "frame smaller than parameter count"
  | .runsPastEnd => "code can run past the last instruction"
  | .badSlot slot => slot.outOfRange
  | .badJump target => "jump target " ++ Nat.repr target ++ " out of range"
  | .unknownNative i => "unknown native function " ++ Nat.repr i
  | .undefinedCall function => "call to undefined function '" ++ function ++ "'"
  | .underflow instr needed =>
    "stack underflow: " ++ instr.mnemonic ++ " needs " ++ Nat.repr needed ++ " value(s)"

structure CheckError where
  function : String
  position : Nat
  fault : CheckFault

def CheckError.message (e : CheckError) : String :=
  "malformed bytecode in '" ++ e.function ++ "' at " ++ Text.showPadded 4 e.position ++ ": " ++
    e.fault.message

namespace Instr

def operandFault? (t : Table) (f : FunctionCode) : Instr → Option CheckFault
  | .load (.frame i) | .store (.frame i) =>
    if i < f.localCount then none else some (.badSlot (.frame i))
  | .load (.global i) | .store (.global i) =>
    if i < t.globalCount then none else some (.badSlot (.global i))
  | .jump target | .jumpIf target => if target < f.code.size then none else some (.badJump target)
  | .native i => if (Native.ofIndex? i).isSome then none else some (.unknownNative i)
  | .call function => if (t.find? function).isSome then none else some (.undefinedCall function)
  | _ => none

/-- How many values an instruction takes from the stack. A call takes its arguments. -/
def pops (t : Table) : Instr → Nat
  | .push _ | .load _ | .jump _ => 0
  | .store _ | .unary _ | .pop | .jumpIf _ | .native _ | .ret => 1
  | .binary _ => 2
  | .call function => ((t.find? function).map (·.paramCount)).getD 0

def pushes : Instr → Nat
  | .push _ | .load _ | .unary _ | .binary _ | .native _ | .call _ => 1
  | .store _ | .pop | .jump _ | .jumpIf _ | .ret => 0

/-- Can control never go on to the next instruction? -/
def endsCode : Instr → Bool
  | .ret | .jump _ => true
  | _ => false

end Instr

namespace FunctionCode

/-- Checks instructions from the given position and height of the stack on. -/
def checkFrom (t : Table) (f : FunctionCode) (position height : Nat) :
    List Instr → Except CheckError Unit
  | [] => .ok ()
  | i :: rest =>
    match i.operandFault? t f with
    | some fault => .error ⟨f.name, position, fault⟩
    | none =>
      if height < i.pops t then .error ⟨f.name, position, .underflow i (i.pops t)⟩
      else checkFrom t f (position + 1) (height - i.pops t + i.pushes) rest

def check (t : Table) (f : FunctionCode) : Except CheckError Unit :=
  if f.localCount < f.paramCount then .error ⟨f.name, 0, .frameTooSmall⟩
  else if (f.code.back?.map Instr.endsCode) = some true then checkFrom t f 0 0 f.code.toList
  else .error ⟨f.name, f.code.size, .runsPastEnd⟩

end FunctionCode

def Table.checkAll (t : Table) : List FunctionCode → Except CheckError Unit
  | [] => .ok ()
  | f :: rest => do
    f.check t
    t.checkAll rest

def Table.check (t : Table) : Except CheckError Unit := t.checkAll t.functions

end StackLang

import StackLang.Code
import StackLang.Text.Blank
import StackLang.Text.Quoted

/-!
Tables as text. Two lines give the number of global variables and of functions. A function has a
line with its name, its parameters and the size of its frame, a line for each instruction, and a
line with a colon and its name. Reading ignores empty lines and blanks around a line, and every
fault has the number of the line where it shows.
-/
namespace StackLang

open Text

inductive CountLine
  | globals
  | functions

def CountLine.description : CountLine → String
  | .globals => "global variable count"
  | .functions => "function count"

inductive TextFault
  | missingCount (what : CountLine)
  | badCount (found : String)
  | missingHeader
  | badHeader
  | frameTooSmall (function : String)
  | unterminated (function : String)
  | wrongEnd (function found : String)
  | trailing (found : String)
  | missingOperand (mnemonic : String)
  | badInteger
  | notQuoted
  | unknownEscape (letter : Char)
  | danglingBackslash
  | blankInName
  | unknownInstruction (mnemonic : String)
  | unwantedOperand (mnemonic : String)
  | notText

def TextFault.message : TextFault → String
  | .missingCount what => "missing " ++ what.description
  | .badCount found => "expected a count or index, found '" ++ found ++ "'"
  | .missingHeader => "missing function header"
  | .badHeader => "function header must be '<name> <paramCount> <localCount>'"
  | .frameTooSmall function => "function '" ++ function ++ "' has fewer locals than parameters"
  | .unterminated function => "function '" ++ function ++ "' is not terminated"
  | .wrongEnd function found => "expected ':" ++ function ++ "', found ':" ++ found ++ "'"
  | .trailing found => "unexpected content after last function: '" ++ found ++ "'"
  | .missingOperand mnemonic => "'" ++ mnemonic ++ "' needs an operand"
  | .badInteger => "lint operand must be an integer"
  | .notQuoted => "lstr operand must be double-quoted"
  | .unknownEscape letter => "unknown escape '\\" ++ letter.toString ++ "'"
  | .danglingBackslash => "dangling '\\' in string"
  | .blankInName => "call target must be a bare name"
  | .unknownInstruction mnemonic => "unknown instruction '" ++ mnemonic ++ "'"
  | .unwantedOperand mnemonic => "'" ++ mnemonic ++ "' takes no operand"
  | .notText => "bytecode is neither binary nor UTF-8 text"

structure TextError where
  line : Nat
  fault : TextFault

/-! Writing -/

def Instr.operand? : Instr → Option String
  | .push (.int n) => some (showInt n)
  | .push (.bool b) => some (Value.bool b).display
  | .push (.str s) => some (quote s)
  | .load (.frame i) | .load (.global i) | .store (.frame i) | .store (.global i) =>
    some (Nat.repr i)
  | .jump target | .jumpIf target => some (Nat.repr target)
  | .call function => some function
  | .native i => some (Nat.repr i)
  | _ => none

def Instr.text (i : Instr) : String :=
  match i.operand? with
  | some operand => i.mnemonic ++ " " ++ operand
  | none => i.mnemonic

def FunctionCode.text (f : FunctionCode) : String :=
  "\n" ++ f.name ++ " " ++ Nat.repr f.paramCount ++ " " ++ Nat.repr f.localCount ++ "\n" ++
    String.join (f.code.toList.map fun i => "    " ++ i.text ++ "\n") ++ ":" ++ f.name ++ "\n"

def Table.text (t : Table) : String :=
  Nat.repr t.globalCount ++ "\n" ++ Nat.repr t.functions.length ++ "\n" ++
    String.join (t.functions.map FunctionCode.text)

/-! Reading -/

def readCount (text : List Char) : Except TextFault Nat :=
  match readCount? text with
  | some n => .ok n
  | none => .error (.badCount (String.ofList text))

def readQuoted (text : List Char) : Except TextFault String :=
  match unquote text with
  | .ok s => .ok s
  | .error .notQuoted => .error .notQuoted
  | .error (.unknownEscape letter) => .error (.unknownEscape letter)
  | .error .danglingBackslash => .error .danglingBackslash

namespace Instr

def required (mnemonic : String) : Option (List Char) → Except TextFault (List Char)
  | some (c :: cs) => .ok (c :: cs)
  | _ => .error (.missingOperand mnemonic)

def plain? (mnemonic : String) : Option Instr :=
  match mnemonic with
  | "lnon" => some (.push .nothing)
  | "add" => some (.binary .add)
  | "subtract" => some (.binary .sub)
  | "mul" => some (.binary .mul)
  | "div" => some (.binary .div)
  | "neg" => some (.unary .neg)
  | "and" => some (.binary .and)
  | "or" => some (.binary .or)
  | "not" => some (.unary .not)
  | "equal" => some (.binary .eq)
  | "nequal" => some (.binary .ne)
  | "less" => some (.binary .lt)
  | "great" => some (.binary .gt)
  | "leq" => some (.binary .le)
  | "geq" => some (.binary .ge)
  | "pop" => some .pop
  | "ret" => some .ret
  | _ => none

/-- Reads an instruction from its mnemonic and what stands after the first space. -/
def ofParts (mnemonic : String) (operand : Option (List Char)) : Except TextFault Instr :=
  match mnemonic with
  | "lint" => do
    match readInt? (← required mnemonic operand) with
    | some n => return .push (.int n)
    | none => .error .badInteger
  | "lboo" => do return .push (.bool ((← required mnemonic operand) = "TRUE".toList))
  | "lstr" => do return .push (.str (← readQuoted (← required mnemonic operand)))
  | "lload" => do return .load (.frame (← readCount (← required mnemonic operand)))
  | "lstore" => do return .store (.frame (← readCount (← required mnemonic operand)))
  | "gload" => do return .load (.global (← readCount (← required mnemonic operand)))
  | "gstore" => do return .store (.global (← readCount (← required mnemonic operand)))
  | "jmp" => do return .jump (← readCount (← required mnemonic operand))
  | "cjmp" => do return .jumpIf (← readCount (← required mnemonic operand))
  | "ncall" => do return .native (← readCount (← required mnemonic operand))
  | "call" => do
    let name ← required mnemonic operand
    if name.any isBlank then .error .blankInName else return .call (String.ofList name)
  | _ =>
    match plain? mnemonic, operand with
    | none, _ => .error (.unknownInstruction mnemonic)
    | some _, some _ => .error (.unwantedOperand mnemonic)
    | some i, none => .ok i

/-- Reads a trimmed line. The first space ends the mnemonic. -/
def ofText (line : List Char) : Except TextFault Instr :=
  let mnemonic := String.ofList (line.takeWhile (· ≠ ' '))
  match line.dropWhile (· ≠ ' ') with
  | [] => ofParts mnemonic none
  | _ :: operand => ofParts mnemonic (some (trim operand))

end Instr

structure Line where
  number : Nat
  text : List Char

def contentLines (text : List Char) : List Line :=
  ((lines text).zipIdx.map fun (line, i) => ⟨i + 1, trim line⟩).filter fun line =>
    !line.text.isEmpty

/-- Reads instructions up to the line that ends the function. Those already read come in
reverse. -/
def readInstrs (function : List Char) (lineCount : Nat) (done : List Instr) :
    List Line → Except TextError (List Instr × List Line)
  | [] => .error ⟨lineCount, .unterminated (String.ofList function)⟩
  | ⟨number, ':' :: found⟩ :: rest =>
    if found = function then .ok (done.reverse, rest)
    else .error ⟨number, .wrongEnd (String.ofList function) (String.ofList found)⟩
  | ⟨number, text⟩ :: rest =>
    match Instr.ofText text with
    | .ok i => readInstrs function lineCount (i :: done) rest
    | .error fault => .error ⟨number, fault⟩

namespace FunctionCode

def readHeader (text : List Char) : Except TextFault (List Char × Nat × Nat) :=
  match words text with
  | [name, params, locals] => do
    let paramCount ← readCount params
    let localCount ← readCount locals
    if localCount < paramCount then .error (.frameTooSmall (String.ofList name))
    else return (name, paramCount, localCount)
  | _ => .error .badHeader

def ofLines (lineCount : Nat) : List Line → Except TextError (FunctionCode × List Line)
  | [] => .error ⟨lineCount, .missingHeader⟩
  | header :: rest =>
    match readHeader header.text with
    | .error fault => .error ⟨header.number, fault⟩
    | .ok (name, paramCount, localCount) => do
      let (code, rest) ← readInstrs name lineCount [] rest
      return (⟨String.ofList name, paramCount, localCount, code.toArray⟩, rest)

def manyOfLines (lineCount : Nat) :
    Nat → List Line → Except TextError (List FunctionCode × List Line)
  | 0, rest => .ok ([], rest)
  | n + 1, rest => do
    let (first, rest) ← ofLines lineCount rest
    let (others, rest) ← manyOfLines lineCount n rest
    return (first :: others, rest)

end FunctionCode

def readCountLine (what : CountLine) (lineCount : Nat) :
    List Line → Except TextError (Nat × List Line)
  | [] => .error ⟨lineCount, .missingCount what⟩
  | line :: rest =>
    match readCount line.text with
    | .ok n => .ok (n, rest)
    | .error fault => .error ⟨line.number, fault⟩

def Table.ofText (text : String) : Except TextError Table := do
  let cs := text.toList
  let lineCount := (lines cs).length
  let (globalCount, rest) ← readCountLine .globals lineCount (contentLines cs)
  let (functionCount, rest) ← readCountLine .functions lineCount rest
  let (functions, rest) ← FunctionCode.manyOfLines lineCount functionCount rest
  match rest with
  | [] => return ⟨globalCount, functions⟩
  | line :: _ => .error ⟨line.number, .trailing (String.ofList line.text)⟩

end StackLang

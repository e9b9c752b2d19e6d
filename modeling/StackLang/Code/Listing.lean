import StackLang.Code.Text

/-!
Listings of tables for people: each instruction with its position, marks at the positions that
jumps go to, arrows that tell whether a jump goes back, and the names of natives.
-/
namespace StackLang

open Text

namespace Instr

def listing (position : Nat) (i : Instr) : String :=
  match i with
  | .jump target | .jumpIf target =>
    padEnd 12 i.mnemonic ++ (if target ≤ position then "↑" else "↓") ++ " (→ " ++
      showPadded 4 target ++ ")"
  | .native index =>
    match Native.ofIndex? index with
    | some known => padEnd 12 i.mnemonic ++ Nat.repr index ++ "  ; " ++ known.name
    | none => i.text
  | _ => i.text

def listingLines (targets : List Nat) (position : Nat) (i : Instr) : String :=
  if position ∈ targets then
    "      ┌──────────────────────────────────\n" ++
      showPadded 4 position ++ " ► " ++ i.listing position ++ "\n"
  else showPadded 4 position ++ "   " ++ i.listing position ++ "\n"

end Instr

def FunctionCode.listing (f : FunctionCode) : String :=
  let code := f.code.toList
  let targets := code.filterMap Instr.jumpTarget?
  let rule := "════════════════════════════════════════\n"
  rule ++ " " ++ f.name ++ " (params: " ++ Nat.repr f.paramCount ++ ", locals: " ++
    Nat.repr f.localCount ++ ")\n " ++ Nat.repr f.code.size ++ " instructions\n" ++ rule ++
    String.join (code.zipIdx.map fun (i, position) => i.listingLines targets position) ++ "\n"

def Table.listing (t : Table) : String :=
  "=== BYTECODE PROGRAM ===\n" ++ Nat.repr t.globalCount ++ " global(s)\n\n" ++
    String.join (t.functions.map FunctionCode.listing)

end StackLang

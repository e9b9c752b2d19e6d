import StackLang.Code.Binary
import StackLang.Code.Text

/-!
Reading a table in either form: as bytes if they carry the mark of that form, else as text.
-/
namespace StackLang

inductive LoadError
  | malformed (error : TextError)
  | corrupt (fault : Wire.WireFault)
  | noMark

def LoadError.message : LoadError → String
  | .malformed e => "invalid bytecode at line " ++ Nat.repr e.line ++ ": " ++ e.fault.message
  | .corrupt fault => "corrupt binary bytecode: " ++ fault.message
  | .noMark => "missing bytecode header\n  hint: binary bytecode starts with \"KBC\\x01\""

namespace Table

def ofTextChecked (text : String) : Except LoadError Table :=
  match ofText text with
  | .ok t => .ok t
  | .error e => .error (.malformed e)

def ofBytes (bytes : List UInt8) : Except LoadError Table :=
  if isBinary bytes then
    match read (bytes.drop binaryMark.length) with
    | .ok (t, _) => .ok t
    | .error fault => .error (.corrupt fault)
  else .error .noMark

def load (bytes : List UInt8) : Except LoadError Table :=
  if isBinary bytes then ofBytes bytes
  else
    match Text.decodeUtf8? bytes with
    | some text => ofTextChecked text
    | none => .error (.malformed ⟨Text.firstBadLine bytes, .notText⟩)

end Table

end StackLang

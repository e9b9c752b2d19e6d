import StackLang.CommandLine.Job
import StackLang.Proofs.SourceTables
import StackLang.Proofs.WrittenFiles

/-!
Compiling to a file and executing the file, against running the text itself. The table of an
accepted text is read back from the file as it was, in both forms, so the machine starts with the
same table, and the job shows the same at every turn.
-/
namespace StackLang

open Text

theorem Text.encodeUtf8_of_decodeUtf8? {bytes : List UInt8} {text : String}
    (h : decodeUtf8? bytes = some text) : encodeUtf8 text = bytes := by
  unfold decodeUtf8? String.fromUTF8? at h
  split at h
  · cases h
    rfl
  · cases h

/-! Loading what was compiled. -/

theorem isBinary_encodeUtf8_of_digit {c : Char} {cs : List Char} (hc : c.isDigit = true) :
    Table.isBinary (encodeUtf8 (String.ofList (c :: cs))) = false := by
  have hrange : 0x30 ≤ c.val.toNat ∧ c.val.toNat ≤ 0x39 := by
    simpa [Char.isDigit, UInt32.le_iff_toNat_le] using hc
  have hencode : String.utf8EncodeChar c = [UInt8.ofNat c.val.toNat] := by
    rw [String.utf8EncodeChar, if_pos (by omega)]
  have hfirst : (0x4B == UInt8.ofNat c.val.toNat) = false := by
    rw [beq_eq_false_iff_ne]
    intro heq
    have hnat := congrArg UInt8.toNat heq
    rw [UInt8.toNat_ofNat'] at hnat
    have hmark : (0x4B : UInt8).toNat = 0x4B := rfl
    omega
  have hbytes : encodeUtf8 (String.ofList (c :: cs)) =
      UInt8.ofNat c.val.toNat :: cs.flatMap String.utf8EncodeChar := by
    simp [encodeUtf8, List.utf8Encode, hencode]
  rw [hbytes, Table.isBinary, binaryMark, List.isPrefixOf, hfirst, Bool.false_and]

/-- The text form begins with a number, so it is not taken for the other form. -/
theorem Table.isBinary_text (t : Table) : isBinary (encodeUtf8 t.text) = false := by
  obtain ⟨c, cs, hrepr⟩ := List.exists_cons_of_ne_nil (repr_ne_nil t.globalCount)
  have hdigit : c.isDigit = true := isDigit_of_mem_repr (hrepr ▸ List.mem_cons_self)
  have htext : ∃ rest, t.text.toList = c :: rest := by
    simp only [Table.text, String.toList_append, hrepr, List.cons_append]
    exact ⟨_, rfl⟩
  obtain ⟨rest, htext⟩ := htext
  rw [← String.ofList_toList (s := t.text), htext]
  exact isBinary_encodeUtf8_of_digit hdigit

/-- A table is loaded from the text it is written as. -/
theorem Table.load_text {t : Table} (hrange : t.InRange) (hreadable : t.Readable) :
    load (encodeUtf8 t.text) = .ok t := by
  rw [load, t.isBinary_text, if_neg Bool.false_ne_true, decodeUtf8?_encodeUtf8]
  simp only [ofTextChecked, Table.ofText_text hrange hreadable]

/-- The bytes that a table is compiled to. -/
theorem Table.load_compiled {source : String} {t : Table} (h : Table.ofSource source = .ok t)
    (hsize : InCountRange (encodeUtf8 source).length) (binary : Bool) :
    load (if binary then t.toBytes else encodeUtf8 t.text) = .ok t := by
  obtain ⟨hstorable, hreadable⟩ := Table.ofSource_storable h hsize
  cases binary with
  | true =>
    have hload := (Table.load_whole hstorable []).1
    rwa [List.append_nil] at hload
  | false => exact Table.load_text hstorable.inRange hreadable

namespace CommandLine

/-! Jobs. -/

/-- What is seen of a job: what it has printed, and at its end the exit code and the error. -/
def Job.shown : Job → String × Option (Nat × Option String)
  | .executing _ _ _ (.running _ w) => (w.output, none)
  | .executing _ _ _ (.halted _ _ w) => (w.output, none)
  | .finished r => (r.output, some (r.exitCode, r.error))

namespace Job

/-- A machine does not touch the files, and a job shows nothing of them. -/
theorem shown_advance_ofTurn (t : Table) (limits : Limits) (turn : Turn Console)
    (fs fs' : FileSystem) (n : Nat) :
    ((ofTurn t limits fs turn).advance n).shown = ((ofTurn t limits fs' turn).advance n).shown := by
  have hshown : ∀ turn, (ofTurn t limits fs turn).shown = (ofTurn t limits fs' turn).shown := by
    intro turn
    cases turn with
    | running s w => rfl
    | halted result s w => cases result <;> rfl
  cases turn with
  | running s w => exact hshown _
  | halted result s w => cases result <;> rfl

variable {fs : FileSystem} {source output path text : String} {bytes : List UInt8} {t : Table}

theorem start_exec (limits : Limits) (input : List UInt8) (hread : fs.read path = .ok bytes)
    (hload : Table.load bytes = .ok t) :
    start ⟨limits, .exec path⟩ fs input = ofTurn t limits fs (t.start ⟨input, ""⟩) := by
  unfold start
  simp only [Command.input, hread, Command.action, Command.loadFile, hload, ok_bind, pure_eq_ok]
  rfl

theorem start_run (limits : Limits) (input : List UInt8) (hread : fs.read source = .ok bytes)
    (htext : decodeUtf8? bytes = some text) (htable : Table.ofSource text = .ok t) :
    start ⟨limits, .run source⟩ fs input = ofTurn t limits fs (t.start ⟨input, ""⟩) := by
  unfold start
  simp only [Command.input, hread, Command.action, Command.compileFile, Command.readSource, htext,
    htable, ok_bind, pure_eq_ok]
  rfl

theorem start_compile {fs' : FileSystem} (limits : Limits) (input : List UInt8) (binary : Bool)
    (hread : fs.read source = .ok bytes) (htext : decodeUtf8? bytes = some text)
    (htable : Table.ofSource text = .ok t)
    (hwrite : fs.write output (if binary then t.toBytes else encodeUtf8 t.text) = .ok fs') :
    start ⟨limits, .compile source output binary⟩ fs input = .finished (.success "" fs') := by
  unfold start
  simp only [Command.input, hread, Command.action, Command.compileFile, Command.readSource, htext,
    htable, ok_bind, pure_eq_ok, perform, hwrite]

/-- Nothing is written for a source file that has an error. -/
theorem start_compile_error {e : SourceError} (limits : Limits) (input : List UInt8)
    (binary : Bool) (hread : fs.read source = .ok bytes) (htext : decodeUtf8? bytes = some text)
    (herror : Table.ofSource text = .error e) :
    start ⟨limits, .compile source output binary⟩ fs input =
      .finished (.failure "" (chain (inFile source :: sourceLinks e)) fs) := by
  unfold start
  simp only [Command.input, hread, Command.action, Command.compileFile, Command.readSource, htext,
    herror, ok_bind]
  rfl

/-- Executing what a text was compiled to shows at every turn what running the text shows, whether
the text is run before it is compiled or after. A text that is refused is not compiled, and the
files stay as they are. -/
theorem exec_of_compile_eq_run (hread : fs.read source = .ok bytes)
    (htext : decodeUtf8? bytes = some text) (hsize : InCountRange bytes.length) (binary : Bool)
    (limits : Limits) (input : List UInt8) :
    (∀ t, Table.ofSource text = .ok t → fs.Writable output →
      ∃ fs', start ⟨limits, .compile source output binary⟩ fs input =
          .finished (.success "" fs') ∧
        ∀ limits' input' n,
          ((start ⟨limits', .exec output⟩ fs' input').advance n).shown =
            ((start ⟨limits', .run source⟩ fs input').advance n).shown ∧
          (¬fs.SameFile output source →
            ((start ⟨limits', .exec output⟩ fs' input').advance n).shown =
              ((start ⟨limits', .run source⟩ fs' input').advance n).shown)) ∧
      ∀ e, Table.ofSource text = .error e →
        ∃ error, start ⟨limits, .compile source output binary⟩ fs input =
          .finished ⟨1, "", some error, fs⟩ := by
  rw [← encodeUtf8_of_decodeUtf8? htext] at hsize
  constructor
  · intro t htable houtput
    let file := if binary then t.toBytes else encodeUtf8 t.text
    have hload : Table.load file = .ok t := Table.load_compiled htable hsize binary
    obtain ⟨fs', hwrite⟩ := houtput.write file
    refine ⟨fs', start_compile limits input binary hread htext htable hwrite, ?_⟩
    intro limits' input' n
    rw [start_exec limits' input' (FileSystem.read_of_write hwrite) hload]
    constructor
    · rw [start_run limits' input' hread htext htable]
      exact shown_advance_ofTurn t limits' _ _ _ n
    · intro hother
      have hsource := FileSystem.read_other_of_write hwrite hother hread
      rw [start_run limits' input' hsource htext htable]
  · intro e herror
    exact ⟨_, start_compile_error limits input binary hread htext herror⟩

/-- A text with a call, an escape in a string, and the letters of the mark in another. -/
def greeting : String := "f(x)\x7breturn x+\"\\n\";\x7dmain()\x7bdecl s;s=f(\"KBC\");print(s);\x7d"

def misspelled : String := "main()\x7breturn s;\x7d"

def twoTexts : FileSystem where
  nodes := [(["home"], .directory), (["home", "a"], .file (encodeUtf8 greeting)),
    (["home", "b"], .file (encodeUtf8 misspelled)), (["tmp"], .directory)]
  workingDirectory := ["home"]

/-- Both forms of the first text in a new file of the empty directory, and the second text
refused. -/
theorem exec_of_compile_eq_run_twoTexts :
    (∀ binary, ∃ fs',
      start ⟨.standard, .compile "../home/a" "/tmp/o" binary⟩ twoTexts [] =
          .finished (.success "" fs') ∧
        ∀ limits input n,
          ((start ⟨limits, .exec "/tmp/o"⟩ fs' input).advance n).shown =
            ((start ⟨limits, .run "../home/a"⟩ twoTexts input).advance n).shown ∧
          ((start ⟨limits, .exec "/tmp/o"⟩ fs' input).advance n).shown =
            ((start ⟨limits, .run "../home/a"⟩ fs' input).advance n).shown) ∧
      ∃ error, start ⟨.standard, .compile "b" "/tmp/o" true⟩ twoTexts [] =
        .finished ⟨1, "", some error, twoTexts⟩ := by
  have hfirst : twoTexts.read "../home/a" = .ok (encodeUtf8 greeting) := rfl
  have hsecond : twoTexts.read "b" = .ok (encodeUtf8 misspelled) := rfl
  have houtput : twoTexts.Writable "/tmp/o" := ⟨[], _, rfl⟩
  have hother : ¬twoTexts.SameFile "/tmp/o" "../home/a" := by
    rintro ⟨l, l', hl, hl', hsame⟩
    cases (show twoTexts.locate "/tmp/o" = .ok ⟨["tmp"], "o", false⟩ from rfl).symm.trans hl
    cases (show twoTexts.locate "../home/a" = .ok ⟨["home"], "a", false⟩ from rfl).symm.trans hl'
    exact absurd hsame (by decide)
  constructor
  · intro binary
    have haccepted : (Table.ofSource greeting).toOption.isSome = true := by decide +kernel
    obtain ⟨haccept, -⟩ := exec_of_compile_eq_run hfirst (decodeUtf8?_encodeUtf8 greeting)
      (by decide +kernel) binary .standard []
    cases htable : Table.ofSource greeting with
    | error e => simp [htable, Except.toOption] at haccepted
    | ok t =>
      obtain ⟨fs', hcompile, hshown⟩ := haccept t htable houtput
      refine ⟨fs', hcompile, ?_⟩
      intro limits input n
      exact ⟨(hshown limits input n).1, (hshown limits input n).2 hother⟩
  · have hrefused : (Table.ofSource misspelled).toOption.isSome = false := by decide +kernel
    obtain ⟨-, hrefuse⟩ := exec_of_compile_eq_run hsecond (decodeUtf8?_encodeUtf8 misspelled)
      (by decide +kernel) true .standard []
    cases htable : Table.ofSource misspelled with
    | error e => exact hrefuse e htable
    | ok t => simp [htable, Except.toOption] at hrefused

end Job

end CommandLine

end StackLang

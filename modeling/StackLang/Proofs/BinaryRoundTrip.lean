import Mathlib.Algebra.Group.Nat.Defs
import StackLang.Code.Load
import StackLang.Proofs.TextRoundTrip

/-!
Tables that survive being written as bytes. What is written for a value says itself where it ends:
its reader takes exactly those bytes, whatever follows them, and runs out of data on every part of
them. Values written one after the other keep this, so it holds of a whole table, and a file that
was cut off is never taken for another table.
-/
namespace StackLang

open Text

namespace Wire

variable {α β : Type}

/-- The reader takes exactly these bytes for the value, and wants more when they were cut off. -/
structure Delimits (read : Reader α) (bytes : List UInt8) (a : α) : Prop where
  whole : ∀ rest, read (bytes ++ rest) = .ok (a, rest)
  cut : ∀ part more, bytes = part ++ more → more ≠ [] → read part = .error .endOfData

/-- A part of two runs of bytes has all of the first, or less than that. -/
theorem part_of_append {bytes bytes' part more : List UInt8} (h : bytes ++ bytes' = part ++ more) :
    (∃ part', part = bytes ++ part' ∧ bytes' = part' ++ more) ∨
      ∃ tail, tail ≠ [] ∧ bytes = part ++ tail := by
  rcases List.append_eq_append_iff.1 h with hsecond | ⟨tail, hbytes, htail⟩
  · exact Or.inl hsecond
  · by_cases hnil : tail = []
    · subst hnil
      rw [List.append_nil] at hbytes
      exact Or.inl ⟨[], by rw [List.append_nil, hbytes], htail.symm⟩
    · exact Or.inr ⟨tail, hnil, hbytes⟩

theorem bind_of_ok {read : Reader α} {f : α → Reader β} {bytes rest : List UInt8} {a : α}
    (h : read bytes = .ok (a, rest)) : (read >>= f) bytes = f a rest := by
  show Except.bind (read bytes) _ = _
  rw [h]
  rfl

theorem bind_of_error {read : Reader α} {f : α → Reader β} {bytes : List UInt8} {e : WireFault}
    (h : read bytes = .error e) : (read >>= f) bytes = .error e := by
  show Except.bind (read bytes) _ = _
  rw [h]
  rfl

namespace Delimits

theorem pure (a : α) : Delimits (Pure.pure a) [] a where
  whole _ := rfl
  cut part more h hmore := by
    have hnil := List.append_eq_nil_iff.1 h.symm
    exact absurd hnil.2 hmore

/-- Two values stand one after the other. A part of both ends in the first or in the second. -/
theorem bind {read : Reader α} {f : α → Reader β} {bytes bytes' : List UInt8} {a : α} {b : β}
    (h : Delimits read bytes a) (h' : Delimits (f a) bytes' b) :
    Delimits (read >>= f) (bytes ++ bytes') b where
  whole rest := by
    rw [List.append_assoc, bind_of_ok (h.whole (bytes' ++ rest)), h'.whole]
  cut part more heq hmore := by
    rcases part_of_append heq with ⟨part', hpart, hbytes'⟩ | ⟨tail, htail, hbytes⟩
    · rw [hpart, bind_of_ok (h.whole part')]
      exact h'.cut part' more hbytes' hmore
    · exact bind_of_error (h.cut part tail hbytes htail)

theorem map {read : Reader α} {bytes : List UInt8} {a : α} (h : Delimits read bytes a)
    (f : α → β) : Delimits (do return f (← read)) bytes (f a) := by
  have hboth := h.bind (f := fun a => Pure.pure (f a)) (pure (f a))
  rwa [List.append_nil] at hboth

end Delimits

/-! Numbers. -/

theorem toNat_toUInt8 {n : Nat} (h : n < 256) : n.toUInt8.toNat = n := by
  simp [Nat.mod_eq_of_lt h]

/-- The only part of a single byte is nothing at all. -/
theorem Delimits.byte {read : Reader α} {b : UInt8} {a : α}
    (hwhole : ∀ rest, read (b :: rest) = .ok (a, rest)) (hcut : read [] = .error .endOfData) :
    Delimits read [b] a where
  whole := hwhole
  cut part more h hmore := by
    cases part with
    | nil => exact hcut
    | cons c part =>
      have htail := (List.cons.inj h).2
      exact absurd (List.append_eq_nil_iff.1 htail.symm).2 hmore

theorem readNatFrom_large {last k : Nat} {b : UInt8} {rest : List UInt8} (h : ¬b.toNat < 128) :
    readNatFrom last (k + 2) (b :: rest) =
      match readNatFrom last (k + 1) rest with
      | .ok (n, rest) => .ok (b.toNat - 128 + 128 * n, rest)
      | .error e => .error e :=
  if_neg h

/-- A byte with its top bit set stands in front of a number that takes one byte less. -/
theorem Delimits.group {last k n : Nat} {bytes : List UInt8} {b : UInt8} (hb : ¬b.toNat < 128)
    (h : Delimits (readNatFrom last (k + 1)) bytes n) :
    Delimits (readNatFrom last (k + 2)) (b :: bytes) (b.toNat - 128 + 128 * n) where
  whole rest := by
    rw [List.cons_append, readNatFrom_large hb, h.whole]
  cut part more heq hmore := by
    cases part with
    | nil => rfl
    | cons c part =>
      obtain ⟨rfl, htail⟩ := List.cons.inj heq
      rw [readNatFrom_large hb, h.cut part more htail hmore]

/-- A number that has room in `k + 1` bytes, of which the last may hold up to `last`, is read back
from the bytes it is written as, and no shorter piece of them is enough. -/
theorem delimits_writeNatFrom {last k n : Nat} (hlast : last < 128)
    (h : n < 128 ^ k * (last + 1)) : Delimits (readNatFrom last (k + 1)) (writeNat n) n := by
  -- On the bytes that may still follow, since each group of seven bits takes one of them.
  induction k generalizing n with
  | zero =>
    have hn : n ≤ last := by omega
    have hbyte : n.toUInt8.toNat = n := toNat_toUInt8 (by omega)
    rw [writeNat, if_pos (by omega)]
    refine .byte ?_ rfl
    intro rest
    rw [readNatFrom, hbyte, if_pos hn]
  | succ k ih =>
    by_cases hsmall : n < 128
    · have hbyte : n.toUInt8.toNat = n := toNat_toUInt8 (by omega)
      rw [writeNat, if_pos hsmall]
      refine .byte ?_ rfl
      intro rest
      simp [readNatFrom, hbyte, hsmall]
    · have hbyte : (n % 128 + 128).toUInt8.toNat = n % 128 + 128 := toNat_toUInt8 (by omega)
      have hrest : n / 128 < 128 ^ k * (last + 1) := by
        rw [Nat.div_lt_iff_lt_mul (by omega), Nat.mul_right_comm, ← Nat.pow_succ]
        exact h
      have hvalue : (n % 128 + 128).toUInt8.toNat - 128 + 128 * (n / 128) = n := by omega
      have htop : ¬(n % 128 + 128).toUInt8.toNat < 128 := by omega
      have hgroup := Delimits.group htop (ih hrest)
      rw [hvalue] at hgroup
      rwa [writeNat, if_neg hsmall]

theorem delimits_wide {n : Nat} (h : InCountRange n) :
    Delimits (readNat .wide) (writeNat n) n := by
  have hbound : n < 128 ^ 9 * (1 + 1) := by
    unfold InCountRange at h
    omega
  exact delimits_writeNatFrom (by decide) hbound

theorem delimits_narrow {n : Nat} (h : n < 0x100000000) :
    Delimits (readNat .narrow) (writeNat n) n := by
  have hbound : n < 128 ^ 4 * (15 + 1) := by omega
  exact delimits_writeNatFrom (by decide) hbound

/-- An integer is found again after its sign has been moved into the lowest bit. -/
theorem unzigzag_zigzag (n : Int) : unzigzag (zigzag n) = n := by
  unfold zigzag unzigzag
  split <;> split <;> omega

theorem delimits_writeInt {n : Int} (h : InIntRange n) : Delimits readInt (writeInt n) n := by
  have hfolded : InCountRange (zigzag n) := by
    unfold InIntRange at h
    unfold InCountRange zigzag
    split <;> omega
  have hint := (delimits_wide hfolded).map unzigzag
  rwa [unzigzag_zigzag] at hint

theorem delimits_writeBool (b : Bool) : Delimits readBool (writeBool b) b := by
  refine .byte ?_ rfl
  intro rest
  cases b <;> rfl

/-! Texts and lists. -/

theorem delimits_take (bytes : List UInt8) : Delimits (take bytes.length) bytes bytes where
  whole rest := by
    have henough : ¬(bytes ++ rest).length < bytes.length := by
      rw [List.length_append]
      omega
    rw [take, if_neg henough, List.take_left, List.drop_left]
  cut part more h hmore := by
    have hpos := List.length_pos_iff.2 hmore
    have hshort : part.length < bytes.length := by
      rw [h, List.length_append]
      omega
    rw [take, if_pos hshort]

theorem delimits_writeText {s : String} (h : InCountRange (encodeUtf8 s).length) :
    Delimits readText (writeText s) s := by
  refine (delimits_wide h).bind ?_
  conv => arg 2; rw [← List.append_nil (encodeUtf8 s)]
  refine (delimits_take (encodeUtf8 s)).bind ?_
  rw [decodeUtf8?_encodeUtf8]
  exact .pure s

/-- Items that are written one behind the other are read back in that number. -/
theorem delimits_flatMap {read : Reader α} {write : α → List UInt8} {items : List α}
    (h : ∀ a ∈ items, Delimits read (write a) a) :
    Delimits (readMany read items.length) (items.flatMap write) items := by
  induction items with
  | nil => exact .pure []
  | cons a rest ih =>
    rw [List.forall_mem_cons] at h
    exact h.1.bind ((ih h.2).map (a :: ·))

theorem delimits_writeList {read : Reader α} {write : α → List UInt8} {items : List α}
    (hlength : InCountRange items.length) (h : ∀ a ∈ items, Delimits read (write a) a) :
    Delimits (readList read) (writeList write items) items :=
  (delimits_wide hlength).bind (delimits_flatMap h)

end Wire

open Wire

/-! Tables. -/

def Instr.TextFits : Instr → Prop
  | .push (.str s) => InCountRange (encodeUtf8 s).length
  | .call function => InCountRange (encodeUtf8 function).length
  | _ => True

structure FunctionCode.Sized (f : FunctionCode) : Prop where
  name : InCountRange (encodeUtf8 f.name).length
  code : InCountRange f.code.size
  texts : ∀ i ∈ f.code.toList, i.TextFits

/-- All numbers and all lengths of the table fit in 64 bits. -/
structure Table.Storable (t : Table) : Prop where
  inRange : t.InRange
  sized : ∀ f ∈ t.functions, f.Sized

theorem Instr.tag_lt (i : Instr) : i.tag < 28 := by
  unfold tag
  split <;> decide

theorem Instr.delimits_writeOperand {i : Instr} (h : i.InRange) (htext : i.TextFits) :
    Delimits (readOperand i.tag) i.writeOperand i := by
  cases i with
  | push value =>
    cases value with
    | int n => exact (delimits_writeInt h).map _
    | bool b => exact (delimits_writeBool b).map _
    | str s => exact (delimits_writeText htext).map _
    | nothing => exact .pure _
  | load slot => cases slot <;> exact (delimits_wide h).map _
  | store slot => cases slot <;> exact (delimits_wide h).map _
  | unary op => cases op <;> exact .pure _
  | binary op => cases op <;> exact .pure _
  | pop => exact .pure _
  | jump target => exact (delimits_wide h).map _
  | jumpIf target => exact (delimits_wide h).map _
  | call function => exact (delimits_writeText htext).map _
  | native index => exact (delimits_wide h).map _
  | ret => exact .pure _

theorem Instr.delimits_write {i : Instr} (h : i.InRange) (htext : i.TextFits) :
    Delimits Instr.read i.write i := by
  have htag := i.tag_lt
  exact (delimits_narrow (by omega)).bind (delimits_writeOperand h htext)

/-- A function is read back from the bytes it is written as. -/
theorem FunctionCode.delimits_write {f : FunctionCode} (h : f.InRange) (hsized : f.Sized) :
    Delimits FunctionCode.read f.write f := by
  have hinstr : ∀ i ∈ f.code.toList, Delimits Instr.read i.write i := fun i hi =>
    Instr.delimits_write (h.code i hi) (hsized.texts i hi)
  have hcode := (delimits_writeList (by simpa using hsized.code) hinstr).map fun code =>
    (⟨f.name, f.paramCount, f.localCount, code.toArray⟩ : FunctionCode)
  unfold FunctionCode.read FunctionCode.write
  rw [List.append_assoc, List.append_assoc]
  exact (delimits_writeText hsized.name).bind
    ((delimits_wide h.params).bind ((delimits_wide h.locals).bind hcode))

/-- A table is read back from the bytes behind the mark. -/
theorem Table.delimits_write {t : Table} (h : t.Storable) :
    Delimits Table.read (writeNat t.globalCount ++ writeList FunctionCode.write t.functions) t := by
  have hfunction : ∀ f ∈ t.functions, Delimits FunctionCode.read f.write f := fun f hf =>
    FunctionCode.delimits_write (h.inRange.functions f hf) (h.sized f hf)
  have hfunctions := (delimits_writeList h.inRange.count hfunction).map (Table.mk t.globalCount)
  exact (delimits_wide h.inRange.globals).bind hfunctions

/-! Files. -/

theorem Table.isBinary_append (bytes : List UInt8) : isBinary (binaryMark ++ bytes) = true := by
  simp [isBinary]

theorem Table.load_of_isBinary {bytes : List UInt8} (h : isBinary bytes = true) :
    load bytes = ofBytes bytes := by
  rw [load, if_pos h]

theorem Table.ofBytes_of_ok {bytes rest : List UInt8} {t : Table} (h : read bytes = .ok (t, rest)) :
    ofBytes (binaryMark ++ bytes) = .ok t := by
  rw [ofBytes, if_pos (isBinary_append bytes), List.drop_left, h]

theorem Table.ofBytes_of_error {bytes : List UInt8} {fault : WireFault}
    (h : read bytes = .error fault) : ofBytes (binaryMark ++ bytes) = .error (.corrupt fault) := by
  rw [ofBytes, if_pos (isBinary_append bytes), List.drop_left, h]

/-- A part of the mark is read as text, and is none. -/
theorem Table.load_part_of_mark {k : Nat} (h : k < binaryMark.length) :
    ∃ e, load (binaryMark.take k) = .error e := by
  have hnone : ∀ k < binaryMark.length, (load (binaryMark.take k)).toOption = none := by
    decide +kernel
  have hk := hnone k h
  cases hload : load (binaryMark.take k) with
  | ok t => simp [hload, Except.toOption] at hk
  | error e => exact ⟨e, rfl⟩

/-- A table is loaded from its bytes, whatever stands behind them. -/
theorem Table.load_whole {t : Table} (h : t.Storable) (suffix : List UInt8) :
    load (t.toBytes ++ suffix) = .ok t ∧ ofBytes (t.toBytes ++ suffix) = .ok t := by
  have hbytes : ofBytes (t.toBytes ++ suffix) = .ok t := by
    rw [toBytes, List.append_assoc]
    exact ofBytes_of_ok ((Table.delimits_write h).whole suffix)
  refine ⟨?_, hbytes⟩
  rw [load_of_isBinary, hbytes]
  rw [toBytes, List.append_assoc]
  exact isBinary_append _

/-- A table is read back from the bytes written for it, whatever follows them, and nothing is read
from a part of them. -/
theorem Table.load_toBytes {t : Table} (h : t.Storable) :
    (∀ suffix, load (t.toBytes ++ suffix) = .ok t ∧ ofBytes (t.toBytes ++ suffix) = .ok t) ∧
      ∀ part, part <+: t.toBytes → part ≠ t.toBytes → ∃ e, load part = .error e := by
  have hdelimits := Table.delimits_write h
  constructor
  · exact Table.load_whole h
  · rintro part ⟨more, hmore⟩ hne
    have hcut : more ≠ [] := by
      rintro rfl
      exact hne (by rw [← hmore, List.append_nil])
    rcases part_of_append hmore.symm with ⟨part', hpart, hpayload⟩ | ⟨tail, htail, hmark⟩
    · rw [hpart, load_of_isBinary (isBinary_append part')]
      exact ⟨_, ofBytes_of_error (hdelimits.cut part' more hpayload hcut)⟩
    · have hshort : part.length < binaryMark.length := by
        have hpos := List.length_pos_iff.2 htail
        rw [hmark, List.length_append]
        omega
      have htake : binaryMark.take part.length = part := by
        rw [hmark, List.take_left]
      have hload := load_part_of_mark hshort
      rwa [htake] at hload

/-- The largest numbers, both ends of the integers, and names that no text can hold. -/
def widestTable : Table where
  globalCount := 0xFFFFFFFFFFFFFFFF
  functions :=
    [⟨"main", 0, 0xFFFFFFFFFFFFFFFF, #[.push (.int (-0x8000000000000000)),
      .push (.int 0x7FFFFFFFFFFFFFFF), .push (.str "é😀\n"), .push (.bool true),
      .load (.global 0xFFFFFFFFFFFFFFFF), .jump 300, .call "a b", .native 7, .ret]⟩,
     ⟨"", 2, 1, #[]⟩]

/-- The table with the widest numbers: a byte too many does no harm, a byte too few is an error. -/
theorem Table.load_toBytes_widestTable :
    widestTable.Storable ∧ load (widestTable.toBytes ++ [0xFF]) = .ok widestTable ∧
      ∃ e, load widestTable.toBytes.dropLast = .error e := by
  have hstorable : widestTable.Storable := by
    refine ⟨⟨by decide, by decide, ?_⟩, ?_⟩
    · simp only [widestTable, List.forall_mem_cons]
      refine ⟨⟨by decide, by decide, ?_⟩, ⟨by decide, by decide, by simp⟩, by simp⟩
      simp only [List.forall_mem_cons, List.not_mem_nil, Instr.InRange, false_imp_iff, implies_true]
      decide
    · simp only [widestTable, List.forall_mem_cons]
      refine ⟨⟨by decide, by decide, ?_⟩, ⟨by decide, by decide, by simp⟩, by simp⟩
      simp only [List.forall_mem_cons, List.not_mem_nil, Instr.TextFits, false_imp_iff,
        implies_true]
      decide
  obtain ⟨hwhole, hcut⟩ := Table.load_toBytes hstorable
  refine ⟨hstorable, (hwhole [0xFF]).1, hcut _ (List.dropLast_prefix _) ?_⟩
  intro heq
  have hlength := congrArg List.length heq
  simp [Table.toBytes, binaryMark] at hlength

end StackLang

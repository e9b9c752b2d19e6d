import StackLang.CommandLine.FileSystem
import StackLang.Proofs.Resolved

/-!
Files that are written and read again. Whether a path can be written to does not depend on what is
written. What was written is read back under the same path, and every other file is read as before.
-/
namespace StackLang.CommandLine.FileSystem

def Writable (fs : FileSystem) (path : String) : Prop := ∃ bytes fs', fs.write path bytes = .ok fs'

/-- The paths lead to one place, whether there is a file or not. -/
def SameFile (fs : FileSystem) (path other : String) : Prop :=
  ∃ l l', fs.locate path = .ok l ∧ fs.locate other = .ok l' ∧ l.place = l'.place

variable {fs : FileSystem} {path other : String} {bytes old : List UInt8}

/-! What each operation needs in order to succeed. -/

/-- A name is looked up just in a directory, and if it is not too long. There may be nothing of that
name. -/
theorem child?_eq_ok_iff {folder : Place} {name : String} {found : Option Node} :
    fs.child? folder name = .ok found ↔
      fs.node? folder = some .directory ∧ name.utf8ByteSize ≤ maxNameSize ∧
        fs.node? (folder ++ [name]) = found := by
  unfold child?
  cases fs.node? folder with
  | none => simp
  | some node =>
    cases node with
    | file bytes => simp
    | directory =>
      by_cases hsize : maxNameSize < name.utf8ByteSize
      · simp [hsize, Nat.not_le.2 hsize]
      · simp [hsize, Nat.le_of_not_lt hsize]

/-- Only a directory is entered by its name. -/
theorem enter_name_eq_ok_iff {folder next : Place} {name : String} :
    fs.enter folder (.name name) = .ok next ↔
      fs.child? folder name = .ok (some .directory) ∧ folder ++ [name] = next := by
  rw [enter, bind_eq_ok_iff]
  constructor
  · rintro ⟨found, hchild, hnext⟩
    cases found with
    | none => cases hnext
    | some node =>
      cases node with
      | file content => cases hnext
      | directory =>
        cases hnext
        exact ⟨hchild, rfl⟩
  · rintro ⟨hchild, rfl⟩
    exact ⟨_, hchild, rfl⟩

/-- A path is located just if it is neither empty nor too long, all but its last part can be walked,
and that part is a name. -/
theorem locate_eq_ok_iff {l : Location} :
    fs.locate path = .ok l ↔
      path.isEmpty = false ∧ path.utf8ByteSize ≤ maxPathSize ∧
        (Path.ofString path).parts.getLast? = some (.name l.name) ∧
        fs.walk (fs.startOf (.ofString path)) (Path.ofString path).parts.dropLast = .ok l.folder ∧
        (Path.ofString path).endsInSlash = l.endsInSlash := by
  unfold locate
  by_cases hempty : path.isEmpty = true
  · simp [hempty]
  by_cases hsize : maxPathSize < path.utf8ByteSize
  · simp [hempty, hsize, Nat.not_le.2 hsize]
  rw [if_neg hempty, if_neg hsize]
  simp only [Bool.not_eq_true] at hempty
  simp only [hempty, Nat.le_of_not_lt hsize, true_and]
  split
  · rename_i name hlast
    rw [bind_eq_ok_iff, hlast]
    constructor
    · rintro ⟨folder, hwalk, hl⟩
      cases hl
      exact ⟨rfl, hwalk, rfl⟩
    · rintro ⟨hname, hwalk, hslash⟩
      cases hname
      exact ⟨l.folder, hwalk, by rw [hslash]; rfl⟩
  · rename_i hlast
    constructor
    · intro h
      obtain ⟨folder, -, herror⟩ := bind_eq_ok_iff.1 h
      cases herror
    · rintro ⟨hname, -⟩
      exact absurd hname (hlast _)

/-- A file is read just if its path is located, does not end in a slash, and leads to a file. -/
theorem read_eq_ok_iff :
    fs.read path = .ok bytes ↔
      ∃ l, fs.locate path = .ok l ∧ l.endsInSlash = false ∧
        fs.child? l.folder l.name = .ok (some (.file bytes)) := by
  rw [read, bind_eq_ok_iff]
  constructor
  · rintro ⟨l, hl, h⟩
    obtain ⟨found, hchild, hread⟩ := bind_eq_ok_iff.1 h
    cases found with
    | none => cases hread
    | some node =>
      cases node with
      | directory => cases hread
      | file content =>
        dsimp only at hread
        split at hread
        · cases hread
        · rename_i hslash
          cases hread
          exact ⟨l, hl, by simpa using hslash, hchild⟩
  · rintro ⟨l, hl, hslash, hchild⟩
    exact ⟨l, hl, bind_eq_ok_iff.2 ⟨_, hchild, by simp [hslash]⟩⟩

/-- A file is written where no directory is. -/
theorem write_eq_ok_iff {fs' : FileSystem} :
    fs.write path bytes = .ok fs' ↔
      ∃ l, fs.locate path = .ok l ∧ l.endsInSlash = false ∧
        (∃ found, fs.child? l.folder l.name = .ok found ∧ found ≠ some .directory) ∧
        fs.put l.place bytes = fs' := by
  rw [write, bind_eq_ok_iff]
  constructor
  · rintro ⟨l, hl, h⟩
    split at h
    · cases h
    · rename_i hslash
      obtain ⟨found, hchild, hwrite⟩ := bind_eq_ok_iff.1 h
      split at hwrite
      · cases hwrite
      · rename_i hfree
        cases hwrite
        exact ⟨l, hl, by simpa using hslash, ⟨found, hchild, hfree⟩, rfl⟩
  · rintro ⟨l, hl, hslash, ⟨found, hchild, hfree⟩, rfl⟩
    refine ⟨l, hl, ?_⟩
    rw [if_neg (by simp [hslash]), hchild, ok_bind]
    split
    · contradiction
    · rfl

/-! What a file that is put somewhere changes. -/

section

variable {place : Place} (hfree : fs.node? place ≠ some .directory)

include hfree

/-- Only the place of the file changes. -/
theorem node?_put (bytes : List UInt8) (anywhere : Place) :
    (fs.put place bytes).node? anywhere =
      if anywhere = place then some (.file bytes) else fs.node? anywhere := by
  have hroot : place ≠ [] := by
    rintro rfl
    exact hfree rfl
  unfold node? put
  by_cases hsame : anywhere = place
  · simp [hsame, hroot]
  · have hne : (anywhere == place) = false := by simpa using hsame
    simp [hsame, List.lookup_cons, hne]

theorem node?_put_directory (bytes : List UInt8) {folder : Place}
    (h : fs.node? folder = some .directory) :
    (fs.put place bytes).node? folder = some .directory := by
  rw [node?_put hfree, if_neg, h]
  rintro rfl
  exact hfree h

/-- A name is looked up as before, but for the place of the file. -/
theorem child?_put (bytes : List UInt8) {folder : Place} {name : String} {found : Option Node}
    (h : fs.child? folder name = .ok found) :
    (fs.put place bytes).child? folder name =
      .ok (if folder ++ [name] = place then some (.file bytes) else found) := by
  obtain ⟨hfolder, hsize, rfl⟩ := child?_eq_ok_iff.1 h
  exact child?_eq_ok_iff.2 ⟨node?_put_directory hfree bytes hfolder, hsize, node?_put hfree bytes _⟩

/-- A walk enters directories only, and these stay. -/
theorem walk_put (bytes : List UInt8) {folder reached : Place} {parts : List PathPart}
    (h : fs.walk folder parts = .ok reached) :
    (fs.put place bytes).walk folder parts = .ok reached := by
  induction parts generalizing folder with
  | nil => exact h
  | cons part rest ih =>
    rw [walk, bind_eq_ok_iff] at h ⊢
    obtain ⟨next, henter, hrest⟩ := h
    refine ⟨next, ?_, ih hrest⟩
    cases part with
    | here => exact henter
    | up => exact henter
    | name name =>
      obtain ⟨hchild, hnext⟩ := enter_name_eq_ok_iff.1 henter
      refine enter_name_eq_ok_iff.2 ⟨?_, hnext⟩
      rw [child?_put hfree bytes hchild, if_neg]
      intro hsame
      exact hfree (hsame ▸ (child?_eq_ok_iff.1 hchild).2.2)

/-- Putting a file changes nothing about where paths lead. -/
theorem locate_put (bytes : List UInt8) {l : Location} (h : fs.locate path = .ok l) :
    (fs.put place bytes).locate path = .ok l := by
  obtain ⟨hempty, hsize, hlast, hwalk, hslash⟩ := locate_eq_ok_iff.1 h
  exact locate_eq_ok_iff.2 ⟨hempty, hsize, hlast, walk_put hfree bytes hwalk, hslash⟩

end

/-! Reading and writing. -/

/-- Whether a path can be written to does not depend on the bytes. -/
theorem Writable.write (h : fs.Writable path) (bytes : List UInt8) :
    ∃ fs', fs.write path bytes = .ok fs' := by
  obtain ⟨_, _, hwrite⟩ := h
  obtain ⟨l, hl, hslash, hfree, -⟩ := write_eq_ok_iff.1 hwrite
  exact ⟨_, write_eq_ok_iff.2 ⟨l, hl, hslash, hfree, rfl⟩⟩

/-- The file holds what was written to it. -/
theorem read_of_write {fs' : FileSystem} (h : fs.write path bytes = .ok fs') :
    fs'.read path = .ok bytes := by
  obtain ⟨l, hl, hslash, ⟨found, hchild, hfound⟩, rfl⟩ := write_eq_ok_iff.1 h
  have hfree : fs.node? l.place ≠ some .directory := (child?_eq_ok_iff.1 hchild).2.2 ▸ hfound
  refine read_eq_ok_iff.2 ⟨l, locate_put hfree bytes hl, hslash, ?_⟩
  rw [child?_put hfree bytes hchild, ← Location.place, if_pos rfl]

/-- All other files stay as they are. -/
theorem read_other_of_write {fs' : FileSystem} (h : fs.write path bytes = .ok fs')
    (hother : ¬fs.SameFile path other) (hread : fs.read other = .ok old) :
    fs'.read other = .ok old := by
  obtain ⟨l, hl, hslash, ⟨found, hchild, hfound⟩, rfl⟩ := write_eq_ok_iff.1 h
  have hfree : fs.node? l.place ≠ some .directory := (child?_eq_ok_iff.1 hchild).2.2 ▸ hfound
  obtain ⟨l', hl', hslash', hchild'⟩ := read_eq_ok_iff.1 hread
  refine read_eq_ok_iff.2 ⟨l', locate_put hfree bytes hl', hslash', ?_⟩
  have hne : l'.folder ++ [l'.name] ≠ l.place := fun hsame => hother ⟨l, l', hl, hl', hsame.symm⟩
  rw [child?_put hfree bytes hchild', if_neg hne]

end StackLang.CommandLine.FileSystem

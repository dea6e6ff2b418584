import PackageAssets.Files.Basic

/-!
# Storing and opening files

Storing a file where no directory stands changes that place only. Walks lead
through directories, so every path leads where it led before, and the file is
found again by the path it was stored under.
-/
namespace PackageAssets.Files

variable {files : Files} {place : Place} {content : List UInt8}

@[simp] theorem store_store (files : Files) (place : Place) (old new : List UInt8) :
    (files.store place old).store place new = files.store place new := by
  unfold store
  congr 1
  funext other
  by_cases same : other = place
  · rw [if_pos same, if_pos same]
  · rw [if_neg same, if_neg same]
    exact if_neg same

/-- Whether a path can be walked at all. -/
def Proper (path : String) : Prop :=
  path.toList.contains '\x00' = false ∧ path ≠ "" ∧ path.utf8ByteSize ≤ longestPath

theorem locate_eq_ok_iff {path : String} : files.locate path = .ok place ↔
    Proper path ∧ files.walk (startOf path) (Path.parts path) = .ok place := by
  unfold locate Proper
  by_cases zero : path.toList.contains '\x00' = true
  · rw [if_pos zero, zero]
    simp
  by_cases empty : path = ""
  · rw [if_neg zero, if_pos empty]
    simp [empty]
  by_cases long : longestPath < path.utf8ByteSize
  · rw [if_neg zero, if_neg empty, if_pos long]
    simp [Nat.not_le.mpr long]
  · rw [if_neg zero, if_neg empty, if_neg long]
    exact (and_iff_right ⟨Bool.eq_false_iff.mpr zero, empty, Nat.le_of_not_lt long⟩).symm

section Plain

variable (plain : files.isDirectory place = false)

include plain

theorem isDirectory_store (other : Place) :
    (files.store place content).isDirectory other = files.isDirectory other := by
  unfold isDirectory at plain ⊢
  rw [find?_store]
  by_cases same : other = place
  · subst same
    rw [plain, if_pos rfl]
    simp only [Bool.or_eq_false_iff] at plain
    rw [plain.1.1, plain.1.2]
    rfl
  · rw [if_neg same]

theorem walk_store {here found : Place} {parts : List String}
    (walked : files.walk here parts = .ok found) :
    (files.store place content).walk here parts = .ok found := by
  induction parts generalizing here with
  | nil => exact walked
  | cons part rest ih =>
    unfold walk at walked ⊢
    rw [isDirectory_store plain]
    by_cases through : files.isDirectory here = true
    · rw [if_pos through] at walked ⊢
      by_cases long : longestName < part.utf8ByteSize
      · rw [if_pos long] at walked
        cases walked
      · rw [if_neg long] at walked ⊢
        exact ih walked
    · rw [if_neg through] at walked
      split at walked <;> cases walked

theorem locate_store {path : String} {found : Place} (located : files.locate path = .ok found) :
    (files.store place content).locate path = .ok found := by
  obtain ⟨proper, walked⟩ := locate_eq_ok_iff.mp located
  exact locate_eq_ok_iff.mpr ⟨proper, walk_store plain walked⟩

/-- A stored file is opened by the path it was stored under. -/
theorem openPath_stored {path : String} (located : files.locate path = .ok place) :
    (files.store place content).openPath path .read =
      .ok ⟨place, .ofFile content false files.furthest, files.store place content⟩ := by
  have there : (files.store place content).find? place = some (.file content) := if_pos rfl
  rw [openPath, locate_store plain located]
  dsimp only
  rw [openAt, isDirectory_store plain, plain, there]
  rfl

theorem content?_stored {path : String} (located : files.locate path = .ok place) :
    (files.store place content).content? path = some content := by
  have there : (files.store place content).find? place = some (.file content) := if_pos rfl
  rw [content?, locate_store plain located]
  dsimp only
  rw [there]

end Plain

/-- Opening for reading changes nothing, and what is read is a file or a directory. -/
theorem of_openPath_read {path : String} {opened : Opened}
    (done : files.openPath path .read = .ok opened) :
    opened.files = files ∧ (opened.source = ⟨[], .directory⟩ ∨
      ∃ content, files.content? path = some content ∧
        opened.source = .ofFile content false files.furthest) := by
  unfold openPath at done
  unfold content?
  cases located : files.locate path with
  | error fault =>
    rw [located] at done
    cases done
  | ok place =>
    rw [located] at done
    dsimp only at done ⊢
    unfold openAt at done
    by_cases directory : files.isDirectory place = true
    · rw [if_pos directory] at done
      cases done
      exact ⟨rfl, Or.inl rfl⟩
    · rw [if_neg directory] at done
      cases there : files.find? place with
      | none =>
        rw [there] at done
        cases done
      | some entry =>
        rw [there] at done
        cases entry with
        | directory => cases done
        | file content =>
          cases done
          exact ⟨rfl, Or.inr ⟨content, rfl, rfl⟩⟩

/-- A file is created empty where the path leads, if no directory is there. -/
theorem of_openPath_create {path : String} {opened : Opened}
    (done : files.openPath path .create = .ok opened) :
    ∃ place, files.locate path = .ok place ∧ files.isDirectory place = false ∧
      opened = ⟨place, .ofFile [] true files.furthest, files.store place []⟩ := by
  unfold openPath at done
  cases located : files.locate path with
  | error fault =>
    rw [located] at done
    cases done
  | ok place =>
    rw [located] at done
    dsimp only at done
    unfold openAt at done
    by_cases directory : files.isDirectory place = true
    · rw [if_pos directory] at done
      cases done
    · rw [if_neg directory] at done
      cases done
      exact ⟨place, rfl, Bool.eq_false_iff.mpr directory, rfl⟩

end PackageAssets.Files

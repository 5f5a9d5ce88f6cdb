import Mathlib.Data.List.Nodup
import ModuleBundler.Disk

/-!
What writing does to a file tree. Making directories changes no file, and a text that was written is
at one place, where its path leads from then on; every other file is as it was. A NUL character is
what keeps a path from naming anything, and nothing else does.
-/
namespace ModuleBundler.Disk

variable {disk after : Disk}

-- The file at a place, if there is one.
def fileAt (disk : Disk) (location : Location) : Option Entry :=
  (disk.entryAt location).filter (· ≠ .directory)

theorem isFileAt_eq (disk : Disk) (location : Location) :
    disk.isFileAt location = (disk.fileAt location).isSome := by
  unfold isFileAt fileAt
  generalize disk.entryAt location = entry
  match entry with
  | none | some (.text _) | some (.bytes _) | some .locked | some .directory => simp

theorem entryAt_put (disk : Disk) (location other : Location) (entry : Entry) :
    (disk.put location entry).entryAt other
      = if other == location then some entry else disk.entryAt other :=
  Dictionary.lookup_put _ _ _ _

theorem fileAt_put (disk : Disk) (location : Location) (text : Text) :
    (disk.put location (.text text)).fileAt location = some (.text text) := by
  simp [fileAt, entryAt_put]

theorem fileAt_put_other (disk : Disk) (entry : Entry) (apart : other ≠ location) :
    (disk.put location entry).fileAt other = disk.fileAt other := by
  simp [fileAt, entryAt_put, apart]

theorem fileAt_put_directory (free : disk.entryAt location = none) (other : Location) :
    (disk.put location .directory).fileAt other = disk.fileAt other := by
  by_cases same : other = location
  · subst same
    simp [fileAt, entryAt_put, free]
  · exact fileAt_put_other disk _ same

theorem makeDirectory_put (made : disk.makeDirectory path = .ok after) :
    ∃ location, disk.existsAt location = false ∧ after = disk.put location .directory := by
  unfold makeDirectory at made
  cases found : disk.locateIn (Path.trimSlashes path) with
  | error fault => simp [found, Bind.bind, Except.bind] at made
  | ok place =>
    obtain ⟨parent, name⟩ := place
    simp only [found, Bind.bind, Except.bind] at made
    split at made
    · cases made
    · split at made
      · cases made
      · rename_i free
        cases made
        exact ⟨parent ++ [name], by simpa using free, rfl⟩

theorem entryAt_free (free : disk.existsAt location = false) : disk.entryAt location = none := by
  simp only [existsAt, Bool.or_eq_false_iff, Option.isSome_eq_false_iff,
    Option.isNone_iff_eq_none] at free
  exact free.1

theorem makeLast_files (disk : Disk) (path : Text) (location : Location) :
    (disk.makeLast path).1.fileAt location = disk.fileAt location := by
  unfold makeLast
  split
  · rename_i made
    obtain ⟨place, free, rfl⟩ := makeDirectory_put made
    exact fileAt_put_directory (entryAt_free free) location
  · rfl
  · rfl

-- The induction is on the fuel: the directories above come first, then the directory itself.
theorem makeDirectories_files (disk : Disk) (path : Text) (fuel : Nat) (location : Location) :
    (disk.makeDirectories path fuel).1.fileAt location = disk.fileAt location := by
  induction fuel generalizing path with
  | zero => rfl
  | succ fuel ih =>
    unfold makeDirectories
    dsimp only
    have above := ih (splitLast path).1
    have last : ∀ made : Disk, made.fileAt location = disk.fileAt location →
        (if (splitLast path).2 = Path.dot then (made, .ok ()) else made.makeLast path).1.fileAt location
          = disk.fileAt location := by
      intro made kept
      split
      · exact kept
      · rw [makeLast_files, kept]
    split
    · exact makeLast_files disk path location
    · split
      · rename_i made
        rw [made] at above
        exact last _ above
      · rename_i made
        rw [made] at above
        exact last _ above
      · exact above

theorem ensureDirectory_files (disk : Disk) (path : Text) (location : Location) :
    (disk.ensureDirectory path).1.fileAt location = disk.fileAt location :=
  makeDirectories_files disk path _ location

-- No key is lost when something is put into a dictionary.
theorem any_put [BEq κ] [LawfulBEq κ] (entries : Dictionary κ α) (key : κ) (value : α)
    (wanted : κ → Bool) (found : entries.any (fun entry => wanted entry.1) = true) :
    (Dictionary.put entries key value).any (fun entry => wanted entry.1) = true := by
  induction entries with
  | nil => cases found
  | cons entry rest ih =>
    unfold Dictionary.put
    rw [List.any_cons, Bool.or_eq_true] at found
    split
    · rename_i same
      have equal : entry.1 = key := eq_of_beq same
      rw [List.any_cons, Bool.or_eq_true, ← equal]
      exact found
    · rw [List.any_cons, Bool.or_eq_true]
      exact found.imp_right ih

-- A file that is put where no directory is leaves every directory there.
theorem isDirectoryAt_put (entry : Entry) (vacant : disk.isDirectoryAt location = false)
    (there : disk.isDirectoryAt here = true) :
    (disk.put location entry).isDirectoryAt here = true := by
  have apart : here ≠ location := by
    rintro rfl
    simp [vacant] at there
  unfold isDirectoryAt at there ⊢
  rw [entryAt_put, if_neg (by simpa using apart)]
  split at there
  · rfl
  · cases there
  · simp only [Bool.or_eq_true] at there ⊢
    exact there.imp_right (any_put disk.entries location entry _)

theorem existsAt_put (entry : Entry) (vacant : disk.isDirectoryAt location = false)
    (there : disk.existsAt here = true) : (disk.put location entry).existsAt here = true := by
  unfold existsAt at there ⊢
  rw [Bool.or_eq_true] at there ⊢
  by_cases same : here = location
  · left
    simp [entryAt_put, same]
  · rw [entryAt_put, if_neg (by simpa using same)]
    exact there.imp_right (isDirectoryAt_put entry vacant)

theorem enter_put (entry : Entry) (vacant : disk.isDirectoryAt location = false)
    (entered : disk.enter here name = .ok next) : (disk.put location entry).enter here name = .ok next := by
  unfold enter at entered ⊢
  split at entered
  · cases entered
  · rename_i directory
    have kept := isDirectoryAt_put entry vacant (by simpa using directory)
    rw [if_neg (by simp [kept])]
    split at entered
    · rw [if_pos ‹_›]
      exact entered
    · rw [if_neg ‹_›]
      split at entered
      · rw [if_pos ‹_›]
        exact entered
      · rw [if_neg ‹_›]
        split at entered
        · rename_i there
          rw [if_pos (existsAt_put entry vacant there)]
          exact entered
        · cases entered

theorem walk_put {names : List Text} (entry : Entry) (vacant : disk.isDirectoryAt location = false)
    (walked : names.foldlM disk.enter here = .ok next) :
    names.foldlM (disk.put location entry).enter here = .ok next := by
  induction names generalizing here with
  | nil => exact walked
  | cons name names ih =>
    rw [List.foldlM_cons] at walked ⊢
    cases entered : disk.enter here name with
    | error fault => simp [entered, Bind.bind, Except.bind] at walked
    | ok between =>
      rw [entered] at walked
      rw [enter_put entry vacant entered]
      exact ih walked

-- A file that was just put under an existing directory is found there.
theorem enter_new (content : Text) (vacant : disk.isDirectoryAt (parent ++ [name]) = false)
    (directory : disk.isDirectoryAt parent = true) (named : name ≠ []) (notDot : name ≠ Path.dot)
    (notDotDot : name ≠ Path.dotDot) :
    (disk.put (parent ++ [name]) (.text content)).enter parent name = .ok (parent ++ [name]) := by
  have kept := isDirectoryAt_put (.text content) vacant directory
  have there : (disk.put (parent ++ [name]) (.text content)).existsAt (parent ++ [name]) = true := by
    simp [existsAt, entryAt_put]
  simp [enter, kept, named, notDot, notDotDot, there]

-- The path of a file that was just put in its place leads there.
theorem locate_new (content : Text) (found : disk.locateIn path = .ok (parent, name))
    (vacant : disk.isDirectoryAt (parent ++ [name]) = false) (named : name ≠ [])
    (notDot : name ≠ Path.dot) (notDotDot : name ≠ Path.dotDot) :
    (disk.put (parent ++ [name]) (.text content)).locate path = .ok (parent ++ [name]) := by
  unfold locateIn at found
  split at found
  · cases found
  split at found
  · cases found
  rename_i unbroken filled
  dsimp only at found
  split at found
  · cases found
  rename_i reached walked
  split at found
  · rename_i directory
    cases found
    have parts : Path.components path
        = (Path.components path).dropLast ++ [(Path.components path).getLastD []] := by
      have some_ : Path.components path ≠ [] := Text.splitOn_ne_nil '/' path
      rw [List.getLastD_eq_getLast?, List.getLast?_eq_some_getLast some_]
      exact (List.dropLast_concat_getLast some_).symm
    generalize (Path.components path).getLastD [] = name at *
    have above := walk_put (.text content) vacant walked
    have last := enter_new content vacant directory named notDot notDotDot
    unfold locate
    rw [if_neg unbroken, if_neg filled, parts, List.foldlM_append]
    have start : (disk.put (parent ++ [name]) (.text content)).start path = disk.start path := rfl
    rw [start, above]
    simp [Bind.bind, Except.bind, last, Except.mapError, Pure.pure, Except.pure]
  · cases found

theorem writeText_put (written : disk.writeText path content = .ok after) :
    ∃ location, after = disk.put location (.text content) ∧ after.locate path = .ok location := by
  unfold writeText at written
  cases found : disk.locateIn path with
  | error fault => simp [found, Bind.bind, Except.bind] at written
  | ok there =>
    obtain ⟨parent, name⟩ := there
    simp only [found, Bind.bind, Except.bind, Bool.or_eq_true, decide_eq_true_eq] at written
    split at written
    · cases written
    · rename_i proper
      simp only [not_or] at proper
      obtain ⟨⟨named, notDot⟩, notDotDot⟩ := proper
      have placed : ∀ vacant : disk.isDirectoryAt (parent ++ [name]) = false,
          after = disk.put (parent ++ [name]) (.text content) →
          ∃ location, after = disk.put location (.text content) ∧ after.locate path = .ok location := by
        rintro vacant rfl
        exact ⟨parent ++ [name], rfl, locate_new content found vacant named notDot notDotDot⟩
      split at written
      · cases written
      · rename_i entry
        exact placed (by simp [isDirectoryAt, entry]) (Except.ok.inj written).symm
      · rename_i entry
        exact placed (by simp [isDirectoryAt, entry]) (Except.ok.inj written).symm
      · cases written
      · split at written
        · cases written
        · rename_i vacant
          exact placed (by simpa using vacant) (Except.ok.inj written).symm

-- A path names nothing at all exactly if it has a NUL character.
theorem locateIn_nullByte (disk : Disk) (path : Text) :
    disk.locateIn path = .error .nullByte ↔ '\x00' ∈ path := by
  unfold locateIn
  split
  · simp [*]
  · rename_i absent
    refine iff_of_false ?_ absent
    dsimp only
    split
    · simp
    · split
      · simp
      · split <;> simp

theorem locate_nullByte (disk : Disk) (path : Text) :
    disk.locate path = .error .nullByte ↔ '\x00' ∈ path := by
  unfold locate
  split
  · simp [*]
  · rename_i absent
    refine iff_of_false ?_ absent
    split
    · simp
    · cases (Path.components path).foldlM disk.enter (disk.start path) <;> simp [Except.mapError]

theorem isFile_clean (file : disk.isFile path = true) : '\x00' ∉ path := by
  intro broken
  rw [isFile, (locate_nullByte disk path).mpr broken] at file
  cases file

theorem readText_nullByte (refused : disk.readText path = .error .nullByte) : '\x00' ∈ path := by
  unfold readText at refused
  cases found : disk.locate path with
  | error fault =>
    simp only [found, Bind.bind, Except.bind] at refused
    cases refused
    exact (locate_nullByte disk path).mp found
  | ok location =>
    simp only [found, Bind.bind, Except.bind] at refused
    split at refused
    · cases refused
    · rename_i content _
      cases decoded : Utf8.decode content <;> simp [decoded, Except.map, Except.mapError] at refused
    · cases refused
    · cases refused
    · cases refused

theorem writeText_nullByte (disk : Disk) (path content : Text) :
    disk.writeText path content = .error .nullByte ↔ '\x00' ∈ path := by
  rw [← locateIn_nullByte disk path]
  unfold writeText
  cases found : disk.locateIn path with
  | error fault => simp [Bind.bind, Except.bind]
  | ok there =>
    simp only [Bind.bind, Except.bind, reduceCtorEq, iff_false]
    split
    · nofun
    · split
      · nofun
      · nofun
      · nofun
      · nofun
      · split <;> nofun

end ModuleBundler.Disk

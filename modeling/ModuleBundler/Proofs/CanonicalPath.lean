import Mathlib.Data.List.Nodup
import ModuleBundler.Disk

/-!
Canonical paths. An absolute path is canonical when its components all name something. Normalising
an absolute path makes it canonical and leaves a canonical one as it is, so a resolved specifier is
the very path that its module is kept under. On a disk a canonical path can only be the place that
its components spell.
-/
namespace ModuleBundler

namespace Text

theorem splitOn_of_not_mem (absent : separator ∉ part) : splitOn separator part = [part] := by
  induction part with
  | nil => rfl
  | cons c rest ih =>
    obtain ⟨different, later⟩ := not_or.mp (mt List.mem_cons.mpr absent)
    simp [splitOn, ih later, Ne.symm different]

theorem splitOn_append_cons (absent : separator ∉ part) (rest : Text) :
    splitOn separator (part ++ separator :: rest) = part :: splitOn separator rest := by
  induction part with
  | nil => simp [splitOn]
  | cons c more ih =>
    obtain ⟨different, later⟩ := not_or.mp (mt List.mem_cons.mpr absent)
    simp [splitOn, ih later, Ne.symm different]

theorem splitOn_joinWith (parts : List Text) (some_ : parts ≠ [])
    (absent : ∀ part ∈ parts, separator ∉ part) :
    splitOn separator (joinWith [separator] parts) = parts := by
  induction parts with
  | nil => exact absurd rfl some_
  | cons part parts ih =>
    have here := absent part (by simp)
    cases parts with
    | nil => exact splitOn_of_not_mem here
    | cons next others =>
      have later := ih (by simp) fun other member => absent other (List.mem_cons_of_mem _ member)
      have joined : joinWith [separator] (part :: next :: others)
          = part ++ separator :: joinWith [separator] (next :: others) := by simp [joinWith]
      rw [joined, splitOn_append_cons here, later]

theorem not_mem_of_mem_splitOn (member : part ∈ splitOn separator text) : separator ∉ part := by
  induction text generalizing part with
  | nil => simp only [splitOn, List.mem_singleton] at member; simp [member]
  | cons c rest ih =>
    simp only [splitOn] at member
    split at member
    · rcases List.mem_cons.mp member with rfl | later
      · simp
      · exact ih later
    · rename_i different
      have different : separator ≠ c := fun same => different (by simp [same])
      cases parts : splitOn separator rest with
      | nil => exact absurd parts (splitOn_ne_nil separator rest)
      | cons first others =>
        simp only [parts] at member ih
        rcases List.mem_cons.mp member with rfl | later
        · exact mt List.mem_cons.mp (not_or.mpr ⟨different, ih (by simp)⟩)
        · exact ih (List.mem_cons_of_mem _ later)

end Text

namespace Path

-- A component that names something.
def Plain (part : Text) : Prop := part ≠ [] ∧ part ≠ dot ∧ part ≠ dotDot ∧ '/' ∉ part

def slashes (twice : Bool) : Text := if twice then ['/', '/'] else ['/']

def rooted (twice : Bool) (parts : List Text) : Text := slashes twice ++ Text.joinWith ['/'] parts

def Canonical (path : Text) : Prop :=
  ∃ twice parts, (∀ part ∈ parts, Plain part) ∧ path = rooted twice parts

theorem Plain.push (plain : Plain part) (absolute : Bool) (kept : List Text) :
    push absolute kept part = part :: kept := by
  obtain ⟨named, step, parent, _⟩ := plain
  simp [Path.push, named, step, parent]

theorem foldl_push_plain (absolute : Bool) (parts kept : List Text)
    (plain : ∀ part ∈ parts, Plain part) :
    parts.foldl (push absolute) kept = parts.reverse ++ kept := by
  induction parts generalizing kept with
  | nil => rfl
  | cons part parts ih =>
    have later : ∀ other ∈ parts, Plain other :=
      fun other member => plain other (List.mem_cons_of_mem _ member)
    rw [List.foldl_cons, (plain part (by simp)).push absolute kept, ih _ later]
    simp

-- Stacks that normalising leaves: names, and parent steps below them where a path is relative.
inductive Settled (based : Bool) : List Text → Prop where
  | nil : Settled based []
  | name (plain : Plain part) (settled : Settled based kept) : Settled based (part :: kept)
  | parent (relative : based = false) (parents : ∀ part ∈ kept, part = dotDot)
      (settled : Settled based kept) : Settled based (dotDot :: kept)

theorem slash_not_mem (member : part ∈ components path) : '/' ∉ part :=
  Text.not_mem_of_mem_splitOn member

-- A parent step takes back the name in front of it.
theorem Plain.push_parent (plain : Plain part) (based : Bool) (kept : List Text) :
    Path.push based (part :: kept) dotDot = kept := by
  rw [Path.push, if_neg (by decide), if_pos rfl]
  exact if_neg plain.2.2.1

-- A parent step that stays comes behind parent steps only, so what is kept stays settled.
theorem Settled.push (settled : Settled based kept) (absent : '/' ∉ part) :
    Settled based (push based kept part) := by
  unfold Path.push
  split
  · exact settled
  · rename_i visible
    simp only [Bool.or_eq_true, decide_eq_true_eq, not_or] at visible
    split
    · cases settled with
      | nil =>
        cases based
        · exact .parent rfl (by simp) .nil
        · exact .nil
      | name plain settled =>
        simp only [plain.2.2.1, if_false]
        exact settled
      | parent relative parents settled =>
        exact .parent relative (by simpa using parents) (.parent relative parents settled)
    · rename_i forward
      exact .name ⟨visible.1, visible.2, forward, absent⟩ settled

theorem Settled.foldl_push (settled : Settled based kept) (parts : List Text)
    (absent : ∀ part ∈ parts, '/' ∉ part) :
    Settled based (parts.foldl (Path.push based) kept) := by
  induction parts generalizing kept with
  | nil => exact settled
  | cons part parts ih =>
    exact ih (settled.push (absent part (by simp)))
      fun other member => absent other (List.mem_cons_of_mem _ member)

theorem Settled.named (settled : Settled based kept) (member : part ∈ kept) :
    part ≠ [] ∧ '/' ∉ part ∧ (based = true → Plain part) := by
  induction settled with
  | nil => cases member
  | name plain _ ih =>
    rcases List.mem_cons.mp member with rfl | earlier
    · exact ⟨plain.1, plain.2.2.2, fun _ => plain⟩
    · exact ih earlier
  | parent relative _ _ ih =>
    rcases List.mem_cons.mp member with rfl | earlier
    · exact ⟨by simp [dotDot], by simp [dotDot], fun rooted => absurd rooted (by simp [relative])⟩
    · exact ih earlier

theorem root_slashes (absolute : isAbsolute path = true) : ∃ twice, root path = slashes twice := by
  cases path with
  | nil => simp [isAbsolute] at absolute
  | cons c rest =>
    have slash : c = '/' := by simpa [isAbsolute] using absolute
    unfold root
    split
    · rename_i none_; simp [slash] at none_
    · exact ⟨true, rfl⟩
    · exact ⟨false, rfl⟩

-- The slashes at the start of an absolute path stay when it is normalised.
theorem normalize_rooted (absolute : isAbsolute path = true) :
    ∃ twice parts, root path = slashes twice ∧ (∀ part ∈ parts, Plain part) ∧
      normalize path = rooted twice parts := by
  obtain ⟨twice, rootAt⟩ := root_slashes absolute
  have settled : Settled true ((components path).foldl (push true) []) :=
    Settled.nil.foldl_push _ fun _ => slash_not_mem
  refine ⟨twice, ((components path).foldl (push true) []).reverse, rootAt, ?_, ?_⟩
  · intro part member
    exact (settled.named (List.mem_reverse.mp member)).2.2 rfl
  · simp only [normalize, absolute, rootAt, rooted]
    cases twice <;> simp [slashes]

theorem normalize_canonical_of_absolute (absolute : isAbsolute path = true) :
    Canonical (normalize path) := by
  obtain ⟨twice, parts, _, plain, normal⟩ := normalize_rooted absolute
  exact ⟨twice, parts, plain, normal⟩

theorem joinWith_head_ne (parts : List Text) (plain : ∀ part ∈ parts, Plain part) :
    (Text.joinWith ['/'] parts).head? ≠ some '/' := by
  cases parts with
  | nil => simp [Text.joinWith]
  | cons part parts =>
    obtain ⟨named, _, _, absent⟩ := plain part (by simp)
    cases part with
    | nil => exact absurd rfl named
    | cons c rest =>
      have different : c ≠ '/' := by rintro rfl; simp at absent
      cases parts <;> simpa [Text.joinWith] using different

theorem takeWhile_rooted (twice : Bool) (parts : List Text) (plain : ∀ part ∈ parts, Plain part) :
    (rooted twice parts).takeWhile (· == '/') = slashes twice := by
  have ends : (Text.joinWith ['/'] parts).takeWhile (· == '/') = [] := by
    have first := joinWith_head_ne parts plain
    cases joined : Text.joinWith ['/'] parts with
    | nil => rfl
    | cons c rest =>
      have different : c ≠ '/' := by simpa [joined] using first
      simp [different]
  cases twice <;> simp [rooted, slashes, ends]

theorem components_rooted (twice : Bool) (parts : List Text) (plain : ∀ part ∈ parts, Plain part) :
    ∃ blank, (∀ part ∈ blank, part = []) ∧
      (components (rooted twice parts) = blank ++ parts) := by
  have absent : ∀ part ∈ parts, '/' ∉ part := fun part member => (plain part member).2.2.2
  cases parts with
  | nil =>
    cases twice
    · exact ⟨[[], []], by simp, rfl⟩
    · exact ⟨[[], [], []], by simp, rfl⟩
  | cons part parts =>
    have read := Text.splitOn_joinWith (part :: parts) (by simp) absent
    cases twice
    · exact ⟨[[]], by simp, by simp [components, rooted, slashes, Text.splitOn, read]⟩
    · exact ⟨[[], []], by simp, by simp [components, rooted, slashes, Text.splitOn, read]⟩

theorem push_blank (absolute : Bool) (kept : List Text) (blank : part = [] ∨ part = dot) :
    push absolute kept part = kept := by
  rcases blank with rfl | rfl <;> simp [push]

theorem foldl_push_blank (absolute : Bool) (blank kept : List Text)
    (empty : ∀ part ∈ blank, part = [] ∨ part = dot) : blank.foldl (push absolute) kept = kept := by
  induction blank with
  | nil => rfl
  | cons part blank ih =>
    rw [List.foldl_cons, push_blank absolute kept (empty part (by simp))]
    exact ih fun other member => empty other (List.mem_cons_of_mem _ member)

theorem Canonical.isAbsolute (canonical : Canonical path) : isAbsolute path = true := by
  obtain ⟨twice, parts, _, rfl⟩ := canonical
  cases twice <;> simp [Path.isAbsolute, rooted, slashes]

theorem root_rooted (twice : Bool) (parts : List Text) (plain : ∀ part ∈ parts, Plain part) :
    root (rooted twice parts) = slashes twice := by
  unfold root
  rw [takeWhile_rooted twice parts plain]
  cases twice <;> rfl

theorem Canonical.normalize (canonical : Canonical path) : normalize path = path := by
  have absolute := canonical.isAbsolute
  obtain ⟨twice, parts, plain, rfl⟩ := canonical
  obtain ⟨blank, empty, read⟩ := components_rooted twice parts plain
  simp only [Path.normalize, absolute, root_rooted twice parts plain, read, List.foldl_append,
    foldl_push_blank true blank [] fun part member => .inl (empty part member),
    foldl_push_plain true parts [] plain]
  cases twice <;> simp [rooted, slashes]

theorem Canonical.absolute (canonical : Canonical path) (cwd : Text) : absolute cwd path = path := by
  simp [Path.absolute, join, canonical.isAbsolute, canonical.normalize]

theorem isAbsolute_join (based : isAbsolute base = true) (path : Text) :
    isAbsolute (join base path) = true := by
  unfold join
  split
  · assumption
  · cases base with
    | nil => simp [isAbsolute] at based
    | cons c rest => split <;> simpa [isAbsolute] using based

theorem absolute_canonical (based : isAbsolute cwd = true) (path : Text) :
    Canonical (absolute cwd path) :=
  normalize_canonical_of_absolute (isAbsolute_join based path)

theorem head_throughSlash (rest : Text) : (throughSlash ('/' :: rest)).head? = some '/' := by
  have kept : ∀ text : Text, ∃ more, (text ++ ['/']).dropWhile (· != '/') = more ++ ['/'] := by
    intro text
    induction text with
    | nil => exact ⟨[], by simp⟩
    | cons c text ih =>
      by_cases slash : c = '/'
      · exact ⟨c :: text, by simp [slash]⟩
      · simpa [slash] using ih
  obtain ⟨more, read⟩ := kept rest.reverse
  simp [throughSlash, read]

theorem isAbsolute_trimSlashes (absolute : isAbsolute path = true) :
    isAbsolute (trimSlashes path) = true := by
  unfold trimSlashes
  split
  · exact absolute
  · rename_i trimmed
    have start : (path.reverse.dropWhile (· == '/')).reverse <+: path := by
      have last := List.dropWhile_suffix (· == '/') (l := path.reverse)
      simpa using List.reverse_prefix.mpr last
    obtain ⟨rest, whole⟩ := start
    cases kept : (path.reverse.dropWhile (· == '/')).reverse with
    | nil => exact absurd kept trimmed
    | cons c more =>
      rw [kept] at whole
      rw [← whole] at absolute
      simpa [isAbsolute] using absolute

theorem isAbsolute_dirname (absolute : isAbsolute path = true) : isAbsolute (dirname path) = true := by
  cases path with
  | nil => simp [isAbsolute] at absolute
  | cons c rest =>
    have slash : c = '/' := by simpa [isAbsolute] using absolute
    exact isAbsolute_trimSlashes (by simp [isAbsolute, slash, head_throughSlash])

end Path

namespace Disk

-- Walking down plain components leads to the place that they spell or nowhere.
theorem foldlM_enter_plain (disk : Disk) (parts : List Text) (here : Location)
    (plain : ∀ part ∈ parts, Path.Plain part) (walked : parts.foldlM disk.enter here = .ok reached) :
    reached = here ++ parts := by
  induction parts generalizing here with
  | nil => cases walked; simp
  | cons part parts ih =>
    have later : ∀ other ∈ parts, Path.Plain other :=
      fun other member => plain other (List.mem_cons_of_mem _ member)
    obtain ⟨named, step, parent, _⟩ := plain part (by simp)
    rw [List.foldlM_cons] at walked
    cases entered : disk.enter here part with
    | error fault => rw [entered] at walked; cases walked
    | ok next =>
      rw [entered] at walked
      have nextAt : next = here ++ [part] := by
        simp only [enter, named, step, parent, decide_false, Bool.or_self, Bool.false_eq_true,
          if_false] at entered
        split at entered
        · cases entered
        · split at entered
          · cases entered; rfl
          · cases entered
      have placed := ih next later walked
      rw [placed, nextAt]
      simp

theorem foldlM_enter_blank (disk : Disk) (blank : List Text) (here : Location)
    (empty : ∀ part ∈ blank, part = []) (walked : blank.foldlM disk.enter here = .ok reached) :
    reached = here := by
  induction blank generalizing here with
  | nil => cases walked; rfl
  | cons part blank ih =>
    have hereEmpty := empty part (by simp)
    rw [List.foldlM_cons, hereEmpty] at walked
    cases entered : disk.enter here [] with
    | error fault => rw [entered] at walked; cases walked
    | ok next =>
      rw [entered] at walked
      have nextAt : next = here := by
        simp only [enter, decide_true, Bool.true_or, if_true] at entered
        split at entered
        · cases entered
        · cases entered; rfl
      rw [← nextAt]
      exact ih next (fun other member => empty other (List.mem_cons_of_mem _ member)) walked

theorem locate_rooted (disk : Disk) (plain : ∀ part ∈ parts, Path.Plain part)
    (found : disk.locate (Path.rooted twice parts) = .ok reached) : reached = parts := by
  have absolute : Path.isAbsolute (Path.rooted twice parts) = true :=
    Path.Canonical.isAbsolute ⟨twice, parts, plain, rfl⟩
  obtain ⟨blank, empty, read⟩ := Path.components_rooted twice parts plain
  unfold locate at found
  split at found
  · cases found
  · split at found
    · cases found
    · rw [read, List.foldlM_append] at found
      simp only [start, absolute, if_true] at found
      cases first : blank.foldlM disk.enter [] with
      | error fault => rw [first] at found; cases found
      | ok here =>
        rw [first] at found
        have hereAt := foldlM_enter_blank disk blank [] empty first
        cases walked : parts.foldlM disk.enter here with
        | error fault => simp [bind, Except.bind, walked, Except.mapError] at found
        | ok next =>
          have nextAt := foldlM_enter_plain disk parts here plain walked
          simp only [bind, Except.bind, walked, Except.mapError, Except.ok.injEq] at found
          rw [← found, nextAt, hereAt]
          simp

theorem mem_of_isFile (disk : Disk) (path : Text) (file : disk.isFile path = true) :
    ∃ location ∈ disk.entries.map Prod.fst, disk.locate path = .ok location := by
  unfold isFile at file
  cases found : disk.locate path with
  | error fault => simp [found] at file
  | ok location =>
    simp only [found] at file
    refine ⟨location, ?_, rfl⟩
    cases entry : disk.entryAt location with
    | none => simp [isFileAt, entry] at file
    | some content =>
      obtain ⟨earlier, later, split, _⟩ := List.lookup_eq_some_iff.mp entry
      exact List.mem_map.mpr ⟨(location, content), by simp [split], rfl⟩

-- A file has at most two canonical paths: one with a slash at its start and one with two.
theorem length_le_of_files (disk : Disk) (paths : List Text) (distinct : paths.Nodup)
    (canonical : ∀ path ∈ paths, Path.Canonical path)
    (files : ∀ path ∈ paths, disk.isFile path = true) :
    paths.length ≤ 2 * disk.entries.length := by
  let key (path : Text) := (path.takeWhile (· == '/'), (disk.locate path).toOption)
  have injective : ∀ path ∈ paths, ∀ other ∈ paths, key path = key other → path = other := by
    intro path member other otherMember same
    obtain ⟨twice, parts, plain, rfl⟩ := canonical path member
    obtain ⟨twice', parts', plain', rfl⟩ := canonical other otherMember
    obtain ⟨location, _, found⟩ := mem_of_isFile disk _ (files _ member)
    obtain ⟨location', _, found'⟩ := mem_of_isFile disk _ (files _ otherMember)
    have partsAt := locate_rooted disk plain found
    have partsAt' := locate_rooted disk plain' found'
    simp only [key, Prod.mk.injEq, found, found', Path.takeWhile_rooted _ _ plain,
      Path.takeWhile_rooted _ _ plain', Except.toOption, Option.some.injEq] at same
    rw [Path.rooted, Path.rooted, same.1, ← partsAt, ← partsAt', same.2]
  let spellings := fun location : Location =>
    [(Path.slashes false, some location), (Path.slashes true, some location)]
  have inside : paths.map key ⊆ (disk.entries.map Prod.fst).flatMap spellings := by
    intro spelled member
    obtain ⟨path, here, rfl⟩ := List.mem_map.mp member
    obtain ⟨location, listed, found⟩ := mem_of_isFile disk path (files path here)
    obtain ⟨twice, parts, plain, rfl⟩ := canonical path here
    refine List.mem_flatMap.mpr ⟨location, listed, ?_⟩
    cases twice <;> simp [key, spellings, found, Path.takeWhile_rooted _ _ plain, Except.toOption]
  have bound := (distinct.map_on injective).length_le_of_subset inside
  simpa [spellings, List.length_flatMap, Function.comp_def, Nat.mul_comm] using bound

end Disk
end ModuleBundler

import Mathlib.Data.List.TakeWhile
import ModuleBundler.Proofs.CanonicalPath

/-!
What normalising keeps of a path: the slashes that it begins with and a stack of components. Every
operation on paths is said here by what it does to these two, for absolute paths and for relative
ones. Normalising a second time changes nothing, and the directory of a normalised path is its stack
without the last component.
-/
namespace ModuleBundler

namespace Text

theorem splitOn_append (separator : Char) (front back : Text) :
    splitOn separator (front ++ separator :: back)
      = splitOn separator front ++ splitOn separator back := by
  induction front with
  | nil => simp [splitOn]
  | cons c rest ih =>
    by_cases same : c = separator
    · simp [splitOn, same, ih]
    · cases parts : splitOn separator rest with
      | nil => exact absurd parts (splitOn_ne_nil separator rest)
      | cons part more => simp [splitOn, same, ih, parts]

theorem joinWith_ne_nil (separator : Text) {parts : List Text} (some_ : parts ≠ [])
    (named : ∀ part ∈ parts, part ≠ []) : joinWith separator parts ≠ [] := by
  cases parts with
  | nil => exact absurd rfl some_
  | cons part parts =>
    have here := named part (by simp)
    cases parts <;> simp [joinWith, here]

end Text

namespace Path

-- All slashes that a path begins with.
def leading (path : Text) : Text := path.takeWhile (· == '/')

-- The components that are kept when a path is normalised, last one first.
def stack (path : Text) : List Text := (components path).foldl (push (isAbsolute path)) []

-- The same for the directory that a path stands in.
def above (path : Text) : List Text :=
  (components path).dropLast.foldl (push (isAbsolute path)) []

-- How a root and a stack are written.
def spell (start : Text) (kept : List Text) : Text :=
  match start ++ Text.joinWith ['/'] kept.reverse with
  | [] => dot
  | normal => normal

variable {path base front back part : Text} {kept : List Text} {based : Bool}

theorem normalize_spell (path : Text) : normalize path = spell (root path) (stack path) := rfl

theorem components_slash (absent : '/' ∉ part) (rest : Text) :
    components (part ++ '/' :: rest) = part :: components rest :=
  Text.splitOn_append_cons absent rest

theorem root_congr (same : leading path = leading other) : root path = root other := by
  unfold leading at same
  unfold root
  rw [same]

theorem isAbsolute_congr (same : leading path = leading other) :
    isAbsolute path = isAbsolute other := by
  have read : ∀ text : Text, isAbsolute text = !(leading text).isEmpty := by
    intro text
    cases text with
    | nil => rfl
    | cons c rest => by_cases slash : c = '/' <;> simp [isAbsolute, leading, slash]
  rw [read, read, same]

theorem leading_relative (relative : isAbsolute path = false) : leading path = [] := by
  cases path with
  | nil => rfl
  | cons c rest =>
    have apart : c ≠ '/' := by simpa [isAbsolute] using relative
    simp [leading, apart]

theorem root_relative (relative : isAbsolute path = false) : root path = [] := by
  have none_ := leading_relative relative
  unfold leading at none_
  unfold root
  rw [none_]

theorem leading_append_plain (front : Text) (plain : leading back = []) :
    leading (front ++ back) = leading front := by
  unfold leading at *
  rw [List.takeWhile_append]
  split
  · rename_i whole
    have all := (List.takeWhile_prefix _).eq_of_length whole
    rw [plain, List.append_nil, all]
  · rfl

theorem leading_append_named (named : ∃ c ∈ front, c ≠ '/') (back : Text) :
    leading (front ++ back) = leading front := by
  unfold leading
  rw [List.takeWhile_append, if_neg]
  intro whole
  obtain ⟨c, member, apart⟩ := named
  have all := List.takeWhile_eq_self_iff.mp ((List.takeWhile_prefix _).eq_of_length whole)
  exact apart (by simpa using all c member)

theorem throughSlash_basename (path : Text) : throughSlash path ++ basename path = path := by
  rw [throughSlash, basename, ← List.reverse_append, List.takeWhile_append_dropWhile,
    List.reverse_reverse]

theorem slash_not_mem_basename (path : Text) : '/' ∉ basename path := by
  intro member
  have kept := List.all_eq_true.mp List.all_takeWhile '/' (List.mem_reverse.mp member)
  simp at kept

theorem throughSlash_ends (path : Text) :
    throughSlash path = [] ∨ ∃ front, throughSlash path = front ++ ['/'] := by
  unfold throughSlash
  cases kept : path.reverse.dropWhile (· != '/') with
  | nil => exact .inl rfl
  | cons c rest =>
    have first := List.head_dropWhile_not (· != '/') (l := path.reverse) (by simp [kept])
    simp only [kept, List.head_cons, bne_eq_false_iff_eq] at first
    exact .inr ⟨rest.reverse, by simp [first]⟩

-- A path of slashes alone keeps them; of any other only those behind its last name are taken off.
theorem trimSlashes_parts (path : Text) :
    trimSlashes path = path ∨ ∃ back, path = trimSlashes path ++ back ∧
      (∀ c ∈ back, c = '/') ∧ ∃ c ∈ trimSlashes path, c ≠ '/' := by
  unfold trimSlashes
  split
  · exact .inl rfl
  · rename_i trimmed
    refine .inr ⟨(path.reverse.takeWhile (· == '/')).reverse, ?_, ?_, ?_⟩
    · rw [← List.reverse_append, List.takeWhile_append_dropWhile, List.reverse_reverse]
    · intro c member
      simpa using List.all_eq_true.mp List.all_takeWhile c (List.mem_reverse.mp member)
    · cases kept : path.reverse.dropWhile (· == '/') with
      | nil => exact absurd (by simp [kept]) trimmed
      | cons c rest =>
        have first := List.head_dropWhile_not (· == '/') (l := path.reverse) (by simp [kept])
        simp only [kept, List.head_cons, beq_eq_false_iff_ne] at first
        exact ⟨c, by simp, first⟩

theorem leading_throughSlash (path : Text) : leading (throughSlash path) = leading path := by
  have named : leading (basename path) = [] := by
    have absent := slash_not_mem_basename path
    cases last : basename path with
    | nil => rfl
    | cons c rest =>
      have apart : c ≠ '/' := fun slash => absent (by simp [last, slash])
      simp [leading, apart]
  rw [← leading_append_plain (throughSlash path) named, throughSlash_basename]

theorem leading_trimSlashes (path : Text) : leading (trimSlashes path) = leading path := by
  rcases trimSlashes_parts path with same | ⟨back, whole, _, named⟩
  · rw [same]
  · rw [← leading_append_named named back, ← whole]

theorem leading_dirname (path : Text) : leading (dirname path) = leading path := by
  rw [dirname, leading_trimSlashes, leading_throughSlash]

theorem leading_join (base : Text) (relative : isAbsolute path = false) :
    leading (join base path) = leading base := by
  unfold join
  rw [relative, if_neg (by simp)]
  split
  · exact leading_append_plain base (leading_relative relative)
  · rename_i inside
    simp only [Bool.or_eq_true, List.isEmpty_iff, beq_iff_eq, not_or] at inside
    refine leading_append_named ?_ _
    cases last : base.getLast? with
    | none => exact absurd (List.getLast?_eq_none_iff.mp last) inside.1
    | some c =>
      refine ⟨c, List.mem_of_getLast? last, ?_⟩
      rintro rfl
      exact inside.2 last

theorem settled_stack (path : Text) : Settled (isAbsolute path) (stack path) :=
  Settled.nil.foldl_push _ fun _ => slash_not_mem

theorem settled_above (path : Text) : Settled (isAbsolute path) (above path) :=
  Settled.nil.foldl_push _ fun _ member => slash_not_mem (List.dropLast_subset _ member)

-- A settled stack is what its own components leave.
theorem Settled.again (settled : Settled based kept) :
    kept.reverse.foldl (Path.push based) [] = kept := by
  induction settled with
  | nil => rfl
  | name plain _ ih => rw [List.reverse_cons, List.foldl_append, ih]; exact plain.push based _
  | @parent kept relative parents _ ih =>
    rw [List.reverse_cons, List.foldl_append, ih, List.foldl_cons, List.foldl_nil, relative]
    cases kept with
    | nil => rfl
    | cons last earlier => simp [Path.push, parents last (by simp), dotDot, dot]

theorem spell_slashes (twice : Bool) (kept : List Text) :
    spell (slashes twice) kept = rooted twice kept.reverse := by
  cases twice <;> rfl

-- A path that begins with a slash has an empty component in front.
theorem isAbsolute_of_named (named : ∀ part ∈ components path, part ≠ []) :
    isAbsolute path = false := by
  cases path with
  | nil => rfl
  | cons c rest =>
    have apart : c ≠ '/' := by
      rintro rfl
      exact named [] (by simp [components, Text.splitOn]) rfl
    simp [isAbsolute, apart]

theorem components_spell (settled : Settled based kept) (some_ : kept ≠ []) :
    components (spell [] kept) = kept.reverse := by
  have named : ∀ part ∈ kept.reverse, part ≠ [] ∧ '/' ∉ part := fun part member =>
    have facts := settled.named (List.mem_reverse.mp member)
    ⟨facts.1, facts.2.1⟩
  have filled : kept.reverse ≠ [] := by simpa using some_
  have written := Text.joinWith_ne_nil ['/'] filled fun part member =>
    (named part member).1
  have spelled : spell [] kept = Text.joinWith ['/'] kept.reverse := by
    unfold spell
    rw [List.nil_append]
    split
    · rename_i empty
      exact absurd empty written
    · rfl
  rw [spelled]
  exact Text.splitOn_joinWith _ filled fun part member => (named part member).2

-- The components of a settled stack are read back from its text, behind some that keep nothing.
theorem spell_parts (settled : Settled (isAbsolute path) kept) :
    root (spell (root path) kept) = root path ∧
      isAbsolute (spell (root path) kept) = isAbsolute path ∧
      ∃ blank, (∀ part ∈ blank, part = [] ∨ part = dot) ∧
        components (spell (root path) kept) = blank ++ kept.reverse := by
  cases absolute : isAbsolute path with
  | true =>
    have plain : ∀ part ∈ kept.reverse, Plain part := fun part member =>
      (settled.named (List.mem_reverse.mp member)).2.2 absolute
    obtain ⟨twice, start⟩ := root_slashes absolute
    obtain ⟨blank, empty, read⟩ := components_rooted twice kept.reverse plain
    rw [start, spell_slashes]
    exact ⟨root_rooted twice _ plain, Canonical.isAbsolute ⟨twice, _, plain, rfl⟩,
      blank, fun part member => .inl (empty part member), read⟩
  | false =>
    rw [root_relative absolute]
    cases kept with
    | nil => exact ⟨rfl, rfl, [dot], by simp, rfl⟩
    | cons last earlier =>
      have read := components_spell settled (by simp)
      have relative : isAbsolute (spell [] (last :: earlier)) = false :=
        isAbsolute_of_named fun part member =>
          (settled.named (List.mem_reverse.mp (read ▸ member))).1
      exact ⟨root_relative relative, relative, [], by simp, read⟩

theorem stack_spell (settled : Settled (isAbsolute path) kept) :
    stack (spell (root path) kept) = kept := by
  obtain ⟨_, absolute, blank, empty, read⟩ := spell_parts settled
  rw [stack, read, absolute, List.foldl_append, foldl_push_blank _ blank [] empty, settled.again]

theorem above_spell (plain : Plain part) (settled : Settled (isAbsolute path) kept) :
    above (spell (root path) (part :: kept)) = kept := by
  obtain ⟨_, absolute, blank, empty, read⟩ := spell_parts (settled.name plain)
  rw [above, read, absolute, List.reverse_cons, ← List.append_assoc, List.dropLast_concat,
    List.foldl_append, foldl_push_blank _ blank [] empty, settled.again]

theorem root_normalize (path : Text) : root (normalize path) = root path :=
  (spell_parts (settled_stack path)).1

-- Normalising once is enough, whatever the path.
theorem normalize_normalize (path : Text) : normalize (normalize path) = normalize path := by
  rw [normalize_spell (normalize path), root_normalize, normalize_spell path,
    stack_spell (settled_stack path)]

theorem stack_cut (front back : Text) :
    stack (front ++ '/' :: back)
      = (components back).foldl (push (isAbsolute (front ++ ['/']))) (stack (front ++ ['/'])) := by
  have start : isAbsolute (front ++ '/' :: back) = isAbsolute (front ++ ['/']) := by
    cases front <;> rfl
  rw [stack, stack, start, components, components, Text.splitOn_append, Text.splitOn_append,
    List.foldl_append, List.foldl_append]
  rfl

theorem isAbsolute_slash (named : front ≠ []) : isAbsolute (front ++ ['/']) = isAbsolute front := by
  cases front with
  | nil => exact absurd rfl named
  | cons c rest => rfl

theorem stack_slash (named : front ≠ []) : stack (front ++ ['/']) = stack front := by
  rw [stack, isAbsolute_slash named, components, Text.splitOn_append, List.foldl_append]
  rfl

theorem stack_slashes (named : front ≠ []) (slashes : ∀ c ∈ back, c = '/') :
    stack (front ++ back) = stack front := by
  induction back generalizing front with
  | nil => rw [List.append_nil]
  | cons c rest ih =>
    have slash : c = '/' := slashes c (by simp)
    have later := ih (show front ++ ['/'] ≠ [] by simp)
      fun other member => slashes other (List.mem_cons_of_mem _ member)
    rw [slash, ← stack_slash named, ← later, List.append_assoc]
    rfl

theorem stack_trimSlashes (path : Text) : stack (trimSlashes path) = stack path := by
  rcases trimSlashes_parts path with same | ⟨back, whole, slashes, c, member, _⟩
  · rw [same]
  · have named : trimSlashes path ≠ [] := List.ne_nil_of_mem member
    have shown := stack_slashes named slashes
    rw [← shown, ← whole]

theorem components_throughSlash (path : Text) :
    components (throughSlash path) = (components path).dropLast ++ [[]] := by
  have whole := throughSlash_basename path
  have absent := slash_not_mem_basename path
  rcases throughSlash_ends path with none_ | ⟨front, ends⟩
  · rw [none_, List.nil_append] at whole
    rw [whole] at absent
    have read : components path = [path] := Text.splitOn_of_not_mem absent
    rw [none_, read]
    rfl
  · have read : components path = components front ++ [basename path] := by
      rw [ends, List.append_assoc] at whole
      rw [components, ← Text.splitOn_of_not_mem absent, components, ← Text.splitOn_append]
      exact congrArg _ whole.symm
    rw [ends, read, List.dropLast_concat, components, Text.splitOn_append]
    rfl

theorem stack_dirname (path : Text) : stack (dirname path) = above path := by
  rw [dirname, stack_trimSlashes, stack, isAbsolute_congr (leading_throughSlash path),
    components_throughSlash, List.foldl_append]
  exact push_blank (isAbsolute path) _ (.inl rfl)

theorem stack_join (base : Text) (relative : isAbsolute path = false) :
    stack (join base path)
      = (components path).foldl (push (isAbsolute base)) (stack base) := by
  cases whole : base with
  | nil =>
    have kept : stack [] = [] := rfl
    rw [join, relative, if_neg (by simp), if_pos (by rfl), List.nil_append, kept, stack, relative]
    rfl
  | cons c rest =>
    have named : c :: rest ≠ [] := by simp
    unfold join
    rw [relative, if_neg (by simp)]
    split
    · rename_i ends
      obtain ⟨front, parts⟩ := List.getLast?_eq_some_iff.mp (by simpa using ends)
      rw [parts, List.append_assoc]
      exact stack_cut front path
    · rw [stack_cut, isAbsolute_slash named, stack_slash named]

-- A relative path that is joined takes its slashes from the path that it starts from.
theorem normalize_join (base : Text) (relative : isAbsolute path = false) :
    normalize (join base path) = spell (root base)
      ((components path).foldl (push (isAbsolute base)) (stack base)) := by
  rw [normalize_spell, root_congr (leading_join base relative), stack_join base relative]

end Path
end ModuleBundler

import ModuleBundler.Proofs.CodePoints
import ModuleBundler.Proofs.Graph.Invariant
import ModuleBundler.Proofs.NormalPath

/-!
Where specifiers lead that are written alike. Two surrogates are written like the character that they are the
halves of, but no file has a surrogate in its name: a specifier that leads to a file has a directory with such a
name only where a parent step takes it back, and leads to the same file with the character in its place.
-/
namespace ModuleBundler

theorem Text.splitOn_cons (apart : c ≠ separator) (rest : Text) :
    ∃ part parts, splitOn separator rest = part :: parts ∧
      splitOn separator (c :: rest) = (c :: part) :: parts := by
  obtain ⟨part, parts, split⟩ := List.exists_cons_of_ne_nil (splitOn_ne_nil separator rest)
  refine ⟨part, parts, split, ?_⟩
  rw [splitOn, if_neg (by simpa using apart), split]

theorem Text.mem_joinWith {separator part : Text} {parts : List Text} (among : part ∈ parts) (member : c ∈ part) :
    c ∈ joinWith separator parts := by
  induction parts with
  | nil => cases among
  | cons first rest ih =>
    rcases List.mem_cons.mp among with rfl | later
    · cases rest with
      | nil => exact member
      | cons => exact List.mem_append_left _ (List.mem_append_left _ member)
    · cases rest with
      | nil => cases later
      | cons => exact List.mem_append_right _ (ih later)

namespace Path

-- Some pairs of NUL characters have been merged into one character that means nothing in a path.
inductive Merged : Text → Text → Prop where
  | nil : Merged [] []
  | same (c : Char) (rest : Merged text other) : Merged (c :: text) (c :: other)
  | pair (unslashed : c ≠ '/') (undotted : c ≠ '.') (rest : Merged text other) :
      Merged ('\x00' :: '\x00' :: text) (c :: other)

variable {text other : Text}

theorem Merged.front (front : Text) (merged : Merged text other) : Merged (front ++ text) (front ++ other) := by
  induction front with
  | nil => exact merged
  | cons c front ih => exact .same c ih

theorem Merged.refl (text : Text) : Merged text text := by
  have whole := Merged.nil.front text
  rwa [List.append_nil] at whole

-- Without NUL characters nothing has been merged.
theorem Merged.eq (merged : Merged text other) (clean : '\x00' ∉ text) : text = other := by
  induction merged with
  | nil => rfl
  | same c _ ih => rw [ih fun later => clean (List.mem_cons_of_mem _ later)]
  | pair => exact absurd List.mem_cons_self clean

-- What is compared with a text of dots and slashes has not been merged either.
theorem Merged.marks (merged : Merged text other) (marks : ∀ c ∈ word, c = '/' ∨ c = '.') :
    text = word ↔ other = word := by
  have clean : '\x00' ∉ word := fun among => by
    rcases marks _ among with slash | dot
    · exact absurd slash (by decide)
    · exact absurd dot (by decide)
  constructor
  · rintro rfl
    exact (merged.eq clean).symm
  · rintro rfl
    induction merged with
    | nil => rfl
    | same c _ ih =>
      obtain ⟨_, later⟩ := List.forall_mem_cons.mp marks
      rw [ih later fun among => clean (List.mem_cons_of_mem _ among)]
    | pair unslashed undotted =>
      rcases marks _ List.mem_cons_self with slash | dot
      · exact absurd slash unslashed
      · exact absurd dot undotted

theorem Merged.begins (merged : Merged text other) (marks : ∀ c ∈ word, c = '/' ∨ c = '.')
    (begins : word <+: text) : word <+: other := by
  induction word generalizing text other with
  | nil => exact List.nil_prefix
  | cons c word ih =>
    obtain ⟨mark, later⟩ := List.forall_mem_cons.mp marks
    cases merged with
    | nil => cases List.prefix_nil.mp begins
    | same d rest =>
      obtain ⟨rfl, behind⟩ := List.cons_prefix_cons.mp begins
      exact List.cons_prefix_cons.mpr ⟨rfl, ih rest later behind⟩
    | pair =>
      obtain ⟨rfl, _⟩ := List.cons_prefix_cons.mp begins
      exact absurd mark (by decide)

theorem Merged.isAbsolute (merged : Merged text other) : isAbsolute text = isAbsolute other := by
  cases merged with
  | nil | same => rfl
  | pair unslashed => simp [Path.isAbsolute, unslashed]

theorem Merged.leading (merged : Merged text other) : leading text = leading other := by
  induction merged with
  | nil => rfl
  | same c _ ih =>
    unfold Path.leading at ih ⊢
    rw [List.takeWhile_cons, List.takeWhile_cons, ih]
  | pair unslashed => simp [Path.leading, unslashed]

theorem Merged.components (merged : Merged text other) :
    List.Forall₂ Merged (components text) (components other) := by
  unfold Path.components
  induction merged with
  | nil => exact .cons .nil .nil
  | @same text other c rest ih =>
    by_cases slash : c = '/'
    · simp only [slash, Text.splitOn, beq_self_eq_true, if_true]
      exact .cons .nil ih
    · obtain ⟨part, parts, split, with_⟩ := Text.splitOn_cons slash text
      obtain ⟨part', parts', split', with'⟩ := Text.splitOn_cons slash other
      rw [split, split'] at ih
      obtain ⟨here, later⟩ := List.forall₂_cons.mp ih
      rw [with_, with']
      exact .cons (.same c here) later
  | @pair c text other unslashed undotted rest ih =>
    have slashless : '\x00' ≠ '/' := by decide
    obtain ⟨part, parts, split, with_⟩ := Text.splitOn_cons slashless text
    obtain ⟨part', parts', split', with'⟩ := Text.splitOn_cons unslashed other
    obtain ⟨again, others, twice, with''⟩ := Text.splitOn_cons slashless ('\x00' :: text)
    rw [split, split'] at ih
    obtain ⟨here, later⟩ := List.forall₂_cons.mp ih
    cases with_.symm.trans twice
    rw [with'', with']
    exact .cons (.pair unslashed undotted here) later

theorem push_visible (rooted : Bool) (kept : List Text) (visible : ¬ (part = [] ∨ part = dot)) :
    push rooted kept part = if part = dotDot then push rooted kept dotDot else part :: kept := by
  by_cases up : part = dotDot
  · rw [if_pos up, up]
  · simp_all [push]

theorem Merged.push (rooted : Bool) (piled : List.Forall₂ Merged kept others) (merged : Merged text other) :
    List.Forall₂ Merged (push rooted kept text) (push rooted others other) := by
  have blank : text = [] ∨ text = dot ↔ other = [] ∨ other = dot :=
    or_congr (merged.marks nofun) (merged.marks (by simp [dot]))
  have back : text = dotDot ↔ other = dotDot := merged.marks (by simp [dotDot])
  by_cases stays : text = [] ∨ text = dot
  · rw [push_blank rooted kept stays, push_blank rooted others (blank.mp stays)]
    exact piled
  · rw [push_visible rooted kept stays, push_visible rooted others (mt blank.mpr stays)]
    by_cases up : text = dotDot
    · rw [if_pos up, if_pos (back.mp up)]
      cases piled with
      | nil => exact List.forall₂_same.mpr fun part among => .refl part
      | @cons last last' earlier earlier' here later =>
        have outside : last = dotDot ↔ last' = dotDot := here.marks (by simp [dotDot])
        by_cases kept : last = dotDot
        · rw [kept, outside.mp kept]
          exact .cons (.refl _) (.cons (.refl _) later)
        · have back : ∀ {part earlier}, part ≠ dotDot → Path.push rooted (part :: earlier) dotDot = earlier :=
            fun apart => by rw [Path.push, if_neg (by decide), if_pos rfl]; exact if_neg apart
          rw [back kept, back (mt outside.mpr kept)]
          exact later
    · rw [if_neg up, if_neg (mt back.mpr up)]
      exact .cons merged piled

theorem Merged.foldl_push (rooted : Bool) (parts : List.Forall₂ Merged texts more)
    (piled : List.Forall₂ Merged kept others) :
    List.Forall₂ Merged (texts.foldl (Path.push rooted) kept) (more.foldl (Path.push rooted) others) := by
  induction parts generalizing kept others with
  | nil => exact piled
  | cons here _ ih => exact ih (Merged.push rooted piled here)

theorem Merged.join (base : Text) (merged : Merged text other) : Merged (join base text) (join base other) := by
  unfold Path.join
  rw [merged.isAbsolute]
  split
  · exact merged
  · split
    · exact merged.front base
    · exact (merged.same '/').front base

theorem mem_spell (among : part ∈ kept) (member : c ∈ part) : c ∈ spell start kept := by
  have joined : c ∈ start ++ Text.joinWith ['/'] kept.reverse :=
    List.mem_append_right _ (Text.mem_joinWith (List.mem_reverse.mpr among) member)
  unfold spell
  split
  · rename_i empty
    rw [empty] at joined
    cases joined
  · exact joined

-- In a path with no NUL character nothing merged is left.
theorem Merged.normalize (merged : Merged text other) (clean : '\x00' ∉ normalize text) :
    normalize other = normalize text := by
  have piled : List.Forall₂ Merged (stack text) (stack other) := by
    unfold stack
    rw [← merged.isAbsolute]
    exact Merged.foldl_push _ merged.components .nil
  have same : stack text = stack other := by
    have each : ∀ part ∈ stack text, '\x00' ∉ part := fun part among null => clean (mem_spell among null)
    have equal : List.Forall₂ Eq (stack text) (stack other) :=
      ((List.forall₂_and_left _ _).mpr ⟨each, piled⟩).imp fun _ _ both => both.2.eq both.1
    rwa [List.forall₂_eq_eq_eq] at equal
  rw [normalize_spell, normalize_spell, root_congr merged.leading, same]

end Path

namespace Graph

open CodePoints

variable {importer path : Text}

theorem merged_joined (codes : CodePoints) : Path.Merged (named codes) (named (joined codes)) := by
  fun_induction joined codes with
  | case1 => exact .nil
  | case2 high low rest both ih =>
    obtain ⟨least, most, _⟩ := pair_bounds both
    have char : (pair high low).isValidChar := .inr ⟨by omega, most⟩
    have first : named (high :: low :: rest) = '\x00' :: '\x00' :: named rest := by
      obtain ⟨odd, odd'⟩ := halves_odd both
      simp only [named, List.map_cons, if_neg odd, if_neg odd']
    have second : named (pair high low :: joined rest) = Char.ofNat (pair high low) :: named (joined rest) := by
      simp only [named, List.map_cons, if_pos char]
    have large : ∀ c : Char, c.toNat < 65536 → Char.ofNat (pair high low) ≠ c := by
      rintro _ small rfl
      rw [toNat_ofNat char] at small
      omega
    rw [first, second]
    exact .pair (large '/' (by decide)) (large '.' (by decide)) ih
  | case3 code low rest alone ih => exact .same _ ih
  | case4 code => exact .refl _

theorem spelled?_merged (merged : Path.Merged text other) (spelled : spelled? importer text = some path)
    (clean : '\x00' ∉ path) : spelled? importer other = some path := by
  have marked : ∀ word ∈ pathBeginnings, ∀ c ∈ word, c = '/' ∨ c = '.' := by decide +kernel
  unfold spelled? at spelled ⊢
  split at spelled
  · rename_i begins
    cases spelled
    obtain ⟨word, among, starts⟩ := List.any_eq_true.mp begins
    have starts' : Text.startsWith other word = true :=
      List.isPrefixOf_iff_prefix.mpr (merged.begins (marked word among) (List.isPrefixOf_iff_prefix.mp starts))
    rw [if_pos (List.any_eq_true.mpr ⟨word, among, starts'⟩), (merged.join _).normalize clean]
  · cases spelled

-- A specifier that leads to a file leads there with the characters in the place of their halves, too.
theorem resolve_joined {specifier : CodePoints} (resolved : resolve importer specifier = .ok path)
    (clean : '\x00' ∉ path) : resolve importer (joined specifier) = .ok path :=
  resolve_ok_iff.mpr (spelled?_merged (merged_joined specifier) (resolve_ok_iff.mp resolved) clean)

-- So specifiers that are written alike lead to one file.
theorem resolve_alike {first second : CodePoints} (alike : joined first = joined second)
    (resolved : resolve importer first = .ok path) (clean : '\x00' ∉ path)
    (resolved' : resolve importer second = .ok other) (clean' : '\x00' ∉ other) : path = other := by
  have same := resolve_joined resolved clean
  rw [alike, resolve_joined resolved' clean'] at same
  exact (Except.ok.inj same).symm

end Graph
end ModuleBundler

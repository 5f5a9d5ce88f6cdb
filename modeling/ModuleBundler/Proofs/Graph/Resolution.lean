import ModuleBundler.Proofs.Graph.Files

/-!
Resolved paths as keys. A specifier leads where its steps lead from the directory of its importer, and
the path of that place is canonical, so whatever is built for it is stored under it and found under it
again. Of the importer only the directory counts: a step back from a module one directory further down
is no step at all.
-/
namespace ModuleBundler

namespace Path

-- One step of a walk over names. Above the root there is nothing.
def step (here : List Text) (part : Text) : List Text :=
  if part = [] ∨ part = dot then here
  else if part = dotDot then here.dropLast
  else here ++ [part]

def walk (here : List Text) (parts : List Text) : List Text := parts.foldl step here

-- The names from the root to the directory that a path stands in.
def directory (path : Text) : List Text := walk [] (components path).dropLast

theorem step_plain (plain : ∀ part ∈ here, Plain part) (absent : '/' ∉ part) :
    ∀ other ∈ step here part, Plain other := by
  unfold step
  split
  · exact plain
  · rename_i visible
    obtain ⟨named, forward⟩ := not_or.mp visible
    split
    · exact fun other member => plain other (List.dropLast_subset _ member)
    · rename_i onward
      intro other member
      rcases List.mem_append.mp member with earlier | last
      · exact plain other earlier
      · exact List.mem_singleton.mp last ▸ ⟨named, forward, onward, absent⟩

theorem walk_plain (plain : ∀ part ∈ here, Plain part) (absent : ∀ part ∈ parts, '/' ∉ part) :
    ∀ other ∈ walk here parts, Plain other := by
  induction parts generalizing here with
  | nil => exact plain
  | cons part parts ih =>
    exact ih (step_plain plain (absent part (by simp)))
      fun other member => absent other (List.mem_cons_of_mem _ member)

theorem reverse_push (settled : Settled true kept) (part : Text) :
    (push true kept part).reverse = step kept.reverse part := by
  by_cases blank : part = [] ∨ part = dot
  · rw [push_blank true kept blank, step, if_pos blank]
  · by_cases back : part = dotDot
    · rw [step, if_neg blank, if_pos back, back]
      cases settled with
      | nil => rfl
      | name plain _ => rw [plain.push_parent true _, List.reverse_cons, List.dropLast_concat]
      | parent relative => cases relative
    · obtain ⟨named, forward⟩ := not_or.mp blank
      simp [push, step, named, forward, back]

-- On an absolute path the stack of normalising is a walk from the root.
theorem reverse_foldl_push (settled : Settled true kept) (parts : List Text)
    (absent : ∀ part ∈ parts, '/' ∉ part) :
    (parts.foldl (push true) kept).reverse = walk kept.reverse parts := by
  induction parts generalizing kept with
  | nil => rfl
  | cons part parts ih =>
    have later := ih (settled.push (absent part (by simp)))
      fun other member => absent other (List.mem_cons_of_mem _ member)
    rw [List.foldl_cons, later, reverse_push settled]
    rfl

theorem directory_plain (path : Text) : ∀ part ∈ directory path, Plain part :=
  walk_plain (by simp) fun _ member => slash_not_mem (List.dropLast_subset _ member)

theorem directory_above (absolute : isAbsolute path = true) :
    directory path = (above path).reverse := by
  have absent : ∀ part ∈ (components path).dropLast, '/' ∉ part := fun part member =>
    slash_not_mem (List.dropLast_subset _ member)
  rw [above, absolute, reverse_foldl_push .nil _ absent]
  rfl

end Path

namespace Graph

-- A specifier that names a path and no package.
def NamesPath (specifier : Text) : Prop :=
  "./".toList <+: specifier ∨ "../".toList <+: specifier ∨ "/".toList <+: specifier

-- The names from the root to the place that a specifier leads to.
def destination (importer specifier : Text) : List Text :=
  Path.walk (if Path.isAbsolute specifier then [] else Path.directory importer)
    (Path.components specifier)

theorem destination_plain (importer specifier : Text) :
    ∀ part ∈ destination importer specifier, Path.Plain part := by
  refine Path.walk_plain ?_ fun _ member => Path.slash_not_mem member
  split
  · simp
  · exact Path.directory_plain importer

variable {workshop : Workshop} {graph next : Graph} {asset importer : Asset} {path specifier : Text}

theorem resolve_named (importer : Text) (named : NamesPath specifier) :
    resolve importer specifier
      = .ok (Path.normalize (Path.join (Path.dirname importer) specifier)) := by
  have begins : pathBeginnings.any (Text.startsWith specifier) = true := by
    simpa [pathBeginnings, Text.startsWith, NamesPath] using named
  rw [resolve_ok_iff, CodePoints.named_ofText, spelled?, if_pos begins]

-- Resolving a relative specifier goes on from the stack of the directory.
theorem resolve_relative (importer : Text) (named : NamesPath specifier)
    (relative : Path.isAbsolute specifier = false) :
    resolve importer specifier = .ok (Path.spell (Path.root importer)
      ((Path.components specifier).foldl (Path.push (Path.isAbsolute importer))
        (Path.above importer))) := by
  have leading := Path.leading_dirname importer
  rw [resolve_named importer named, Path.normalize_join _ relative, Path.root_congr leading,
    Path.isAbsolute_congr leading, Path.stack_dirname]

-- Resolving is walking, for absolute importers.
theorem resolve_destination {importer : Text} (absolute : Path.isAbsolute importer = true)
    (named : NamesPath specifier) :
    ∃ twice, resolve importer specifier
      = .ok (Path.rooted twice (destination importer specifier)) := by
  have absent : ∀ part ∈ Path.components specifier, '/' ∉ part := fun _ => Path.slash_not_mem
  cases start : Path.isAbsolute specifier with
  | true =>
    obtain ⟨twice, slashes⟩ := Path.root_slashes start
    have walked := Path.reverse_foldl_push .nil (Path.components specifier) absent
    refine ⟨twice, ?_⟩
    rw [resolve_named importer named, Path.join, if_pos start, Path.normalize_spell, slashes,
      Path.spell_slashes, Path.stack, start, walked, destination, if_pos start]
    rfl
  | false =>
    obtain ⟨twice, slashes⟩ := Path.root_slashes absolute
    have settled := Path.settled_above importer
    rw [absolute] at settled
    have walked := Path.reverse_foldl_push settled (Path.components specifier) absent
    refine ⟨twice, ?_⟩
    rw [resolve_relative importer named start, slashes, Path.spell_slashes, absolute, walked, destination,
      start, if_neg (by simp), Path.directory_above absolute]

-- One directory further down and a step back from there: the name that was put on top of the stack is
-- taken off again.
theorem resolve_back (importer tail : Text) (down : Path.Plain directory) (file : Path.Plain name) :
    ∃ middle path,
      resolve importer (CodePoints.ofText ("./".toList ++ directory ++ '/' :: name)) = .ok middle ∧
      resolve middle (CodePoints.ofText ("../".toList ++ tail)) = .ok path ∧
      resolve importer (CodePoints.ofText ("./".toList ++ tail)) = .ok path := by
  have settled := (Path.settled_above importer).name down
  obtain ⟨root, absolute, _⟩ := Path.spell_parts (settled.name file)
  have above := Path.above_spell file settled
  have components : Path.components ("./".toList ++ directory ++ '/' :: name)
      = [Path.dot, directory, name] := by
    have last : Path.components name = [name] := Text.splitOn_of_not_mem file.2.2.2
    have lower := Path.components_slash down.2.2.2 name
    rw [last] at lower
    rw [List.append_assoc, ← lower]
    exact Path.components_slash (show '/' ∉ Path.dot by decide) _
  have here : ∀ kept, Path.push (Path.isAbsolute importer) kept Path.dot = kept :=
    fun kept => Path.push_blank _ kept (.inr rfl)
  refine ⟨Path.spell (Path.root importer) (name :: directory :: Path.above importer),
    Path.spell (Path.root importer) ((Path.components tail).foldl
      (Path.push (Path.isAbsolute importer)) (Path.above importer)), ?_, ?_, ?_⟩
  · rw [resolve_relative importer (.inl (by simp)) rfl, components, List.foldl_cons, List.foldl_cons,
      List.foldl_cons, List.foldl_nil, here, down.push, file.push]
  · have read : Path.components ("../".toList ++ tail) = Path.dotDot :: Path.components tail :=
      Path.components_slash (show '/' ∉ Path.dotDot by decide) tail
    rw [resolve_relative _ (.inr (.inl (by simp))) rfl, root, absolute, above, read, List.foldl_cons,
      down.push_parent]
  · have read : Path.components ("./".toList ++ tail) = Path.dot :: Path.components tail :=
      Path.components_slash (show '/' ∉ Path.dot by decide) tail
    rw [resolve_relative importer (.inl (by simp)) rfl, read, List.foldl_cons, here]

theorem resolve_normal {specifier : CodePoints} (importer : Text)
    (resolved : resolve importer specifier = .ok path) : Path.normalize path = path := by
  rw [resolve_normalize resolved]
  exact Path.normalize_normalize _

-- What is built for a path is stored under the path in its absolute form.
theorem build_path {context later : BuildContext}
    (built : context.build workshop path = .ok (asset, later)) :
    asset.path = workshop.absolute path := by
  unfold BuildContext.build Workshop.produceAsset at built
  cases yielded : workshop.produce (workshop.absolute path) with
  | error failure => rw [yielded] at built; cases built
  | ok transpiled => rw [yielded] at built; cases built; rfl

-- The path that a specifier resolves to finds what the specifier was followed to.
theorem follow_stored {specifier : CodePoints} (absolute : Path.isAbsolute importer.path = true)
    (ran : (graph.follow workshop importer specifier).outcome = .ok (asset, next)) :
    resolve importer.path specifier = .ok asset.path ∧ next.assetAt? asset.path = some asset := by
  rw [← step_recordFollow] at ran
  obtain ⟨path, resolved, follows⟩ := follow_parts ran
  generalize (graph.recordFollow workshop importer specifier).produced = produced at follows
  cases follows with
  | known there =>
    obtain ⟨_, rfl⟩ := assetAt?_some there
    exact ⟨resolved, there⟩
  | new missing file made =>
    obtain ⟨rfl, _⟩ := produceNext_made (resolve_canonical absolute resolved) file made
    refine ⟨resolved, ?_⟩
    unfold assetAt? at missing ⊢
    rw [List.find?_append, missing]
    simp

theorem follow_known {specifier : CodePoints} (other : Asset) (resolved : resolve other.path specifier = .ok path)
    (there : graph.assetAt? path = some asset) :
    (graph.follow workshop other specifier).outcome = .ok (asset, graph) := by
  unfold follow
  rw [Logged.outcome_bind, resolved]
  simp only [Logged.outcome_ofExcept, bind, Except.bind, there]
  rfl

-- A specifier that names a path always resolves, and to a canonical path: the spelling of the place
-- that its steps lead to. Making that path absolute leaves it as it is from every working directory,
-- so what is built for it is stored under it and, once a module has been followed to, every specifier
-- of any module that resolves to the same path finds it. A step back from a module in a directory
-- further down leads where a step on the spot leads, and that for relative importers, too.
theorem resolved_keys :
    (∀ importer specifier : Text, Path.isAbsolute importer = true → NamesPath specifier →
      ∃ twice path, resolve importer specifier = .ok path ∧
        path = Path.rooted twice (destination importer specifier) ∧
        (∀ part ∈ destination importer specifier, Path.Plain part) ∧
        (twice = true ↔
          Path.Doubled (if Path.isAbsolute specifier then specifier else importer)) ∧
        (∀ cwd, Path.absolute cwd path = path) ∧
        ∀ (workshop : Workshop) (context later : BuildContext) (asset : Asset),
          context.build workshop path = .ok (asset, later) →
            asset.path = path ∧ (later.remember asset).lookup path = some asset) ∧
    (∀ (workshop : Workshop) (importer asset : Asset) (graph next : Graph) (specifier : CodePoints),
      Path.isAbsolute importer.path = true →
      (graph.follow workshop importer specifier).outcome = .ok (asset, next) →
        resolve importer.path specifier = .ok asset.path ∧
          ∀ (other : Asset) (again : CodePoints), resolve other.path again = .ok asset.path →
            (next.follow workshop other again).outcome = .ok (asset, next)) ∧
    (∀ (importer path : Text) (specifier : CodePoints), resolve importer specifier = .ok path →
      Path.normalize path = path) ∧
    ∀ importer directory name tail : Text, Path.Plain directory → Path.Plain name →
      ∃ middle path,
        resolve importer (CodePoints.ofText ("./".toList ++ directory ++ '/' :: name)) = .ok middle ∧
        resolve middle (CodePoints.ofText ("../".toList ++ tail)) = .ok path ∧
        resolve importer (CodePoints.ofText ("./".toList ++ tail)) = .ok path := by
  refine ⟨?_, ?_, fun importer _ _ => resolve_normal importer,
    fun importer _ _ tail => resolve_back importer tail⟩
  · intro importer specifier absolute named
    obtain ⟨twice, resolved⟩ := resolve_destination absolute named
    have plain := destination_plain importer specifier
    have slashes := root_resolve resolved
    rw [Path.root_rooted twice _ plain, CodePoints.named_ofText] at slashes
    have fixed := Path.Canonical.absolute ⟨twice, _, plain, rfl⟩
    refine ⟨twice, _, resolved, rfl, plain, ?_, fixed, ?_⟩
    · rw [Path.Doubled, apply_ite Path.root, ← slashes]
      cases twice <;> simp [Path.slashes]
    · intro workshop context later asset built
      have stored := (build_path built).trans (fixed _)
      refine ⟨stored, ?_⟩
      rw [BuildContext.lookup, BuildContext.remember, Dictionary.lookup_put, stored]
      simp
  · intro workshop importer asset graph next specifier absolute ran
    obtain ⟨resolved, there⟩ := follow_stored absolute ran
    exact ⟨resolved, fun other again same => follow_known other same there⟩

-- An importer that is not normalised itself, with two slashes at its start; a module that is built for
-- one spelling, followed to by it and looked up by another; and a step back from below a relative
-- importer.
theorem winding_keys :
    let workshop := winding [".//b.js", "/w/../w/b.js"]
    let first : Asset := ⟨0, "/w/a.js".toList, [], [], []⟩
    let second : Asset := ⟨1, "/w/b.js".toList, ["./b.js".toList], [], []⟩
    let importer := "//w/lib/../src/a.js".toList
    let path := "//w/b/c.js".toList
    (Path.isAbsolute importer = true ∧ NamesPath "./..//b/./c.js".toList ∧
      resolve importer "./..//b/./c.js".toList = .ok path ∧
      (∀ cwd, Path.absolute cwd path = path) ∧ Path.normalize path = path) ∧
    (Path.isAbsolute first.path = true ∧ NamesPath ".//b.js".toList ∧
      resolve first.path ".//b.js".toList = .ok second.path ∧
      BuildContext.build ⟨1, []⟩ workshop second.path = .ok (second, ⟨2, []⟩) ∧
      (BuildContext.remember ⟨2, []⟩ second).lookup second.path = some second ∧
      (follow workshop first [first] ".//b.js".toList).outcome = .ok (second, [first, second]) ∧
      resolve second.path "/w/../w/b.js".toList = .ok second.path ∧
      (follow workshop second [first, second] "/w/../w/b.js".toList).outcome
        = .ok (second, [first, second])) ∧
    Path.Plain "lib".toList ∧ Path.Plain "f.js".toList ∧
      ∃ middle target, resolve "../a/b.js".toList "./lib/f.js".toList = .ok middle ∧
        resolve middle "../../../x//y/.".toList = .ok target ∧
        resolve "../a/b.js".toList "./../../x//y/.".toList = .ok target := by
  intro workshop first second importer path
  obtain ⟨canonical, stored, normal, back⟩ := resolved_keys
  refine ⟨?_, ?_, ?_⟩
  · have absolute : Path.isAbsolute importer = true := by decide
    have named : NamesPath "./..//b/./c.js".toList := .inl (by decide)
    have resolved : resolve importer "./..//b/./c.js".toList = .ok path :=
      ok_of_toOption (by decide +kernel)
    obtain ⟨_, _, resolved', _, _, _, fixed, _⟩ := canonical _ _ absolute named
    rw [resolved] at resolved'
    cases resolved'
    exact ⟨absolute, named, resolved, fixed, normal _ _ _ resolved⟩
  · have absolute : Path.isAbsolute first.path = true := by decide
    have named : NamesPath ".//b.js".toList := .inl (by decide)
    have resolved : resolve first.path ".//b.js".toList = .ok second.path :=
      ok_of_toOption (by decide +kernel)
    have built : BuildContext.build ⟨1, []⟩ workshop second.path = .ok (second, ⟨2, []⟩) := rfl
    have ran : (follow workshop first [first] ".//b.js".toList).outcome
        = .ok (second, [first, second]) := ok_of_toOption (by decide +kernel)
    have again : resolve second.path "/w/../w/b.js".toList = .ok second.path :=
      ok_of_toOption (by decide +kernel)
    obtain ⟨_, _, resolved', _, _, _, _, kept⟩ := canonical _ _ absolute named
    rw [resolved] at resolved'
    cases resolved'
    obtain ⟨_, found⟩ := stored workshop first second _ _ _ absolute ran
    exact ⟨absolute, named, resolved, built, (kept _ _ _ _ built).2, ran, again, found second _ again⟩
  · have plain : Path.Plain "lib".toList ∧ Path.Plain "f.js".toList := by
      unfold Path.Plain
      decide
    exact ⟨plain.1, plain.2,
      back "../a/b.js".toList "lib".toList "f.js".toList "../../x//y/.".toList plain.1 plain.2⟩

end Graph
end ModuleBundler

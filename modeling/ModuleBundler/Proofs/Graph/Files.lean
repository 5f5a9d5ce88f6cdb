import ModuleBundler.Proofs.Graph.Closure
import ModuleBundler.Proofs.NormalPath

/-!
Which assets of a graph are one file. A path is kept as it is spelled once it is normalised, and
normalising tells two slashes at the start from one. That is the only way in which two assets can be
one file, and only an entry or a specifier with exactly two slashes at its start brings it about.
-/
namespace ModuleBundler

namespace Path

-- A path with exactly two slashes at its start.
def Doubled (path : Text) : Prop := root path = ['/', '/']

-- An absolute path brings its own slashes, a relative one takes those of the path it starts from.
theorem root_joined (base path : Text) :
    root (normalize (join base path)) = if isAbsolute path then root path else root base := by
  rw [root_normalize]
  split
  · rename_i absolute
    rw [join, if_pos absolute]
  · rename_i relative
    exact root_congr (leading_join base (by simpa using relative))

end Path

namespace Graph

variable {workshop : Workshop} {graph : Graph} {asset other : Asset} {path entry : Text}

theorem root_resolve (resolved : resolve importer specifier = .ok path) :
    Path.root path = if Path.isAbsolute (CodePoints.named specifier) then
      Path.root (CodePoints.named specifier) else Path.root importer := by
  rw [resolve_normalize resolved, Path.root_joined, Path.root_congr (Path.leading_dirname importer)]

-- Two slashes at the start of a path come from its entry or from a specifier, as far back as the
-- module that was found first.
theorem Found.single (valid : Found workshop (workshop.absolute entry) front graph)
    (entrySingle : ¬ Path.Doubled (Path.join workshop.disk.cwdPath entry))
    (single : ∀ asset ∈ graph, ∀ specifier ∈ asset.dependencies,
      ¬ Path.Doubled (CodePoints.named specifier))
    (member : asset ∈ graph) : ¬ Path.Doubled asset.path := by
  refine valid.induction (motive := fun asset => ¬ Path.Doubled asset.path) (fun start path => ?_) ?_ member
  · rwa [Path.Doubled, path, Workshop.absolute, Path.absolute, Path.root_normalize]
  · intro owner listed specifier specified asset resolved ownerSingle
    rw [Path.Doubled, root_resolve resolved]
    split
    · exact single owner listed specifier specified
    · exact ownerSingle

-- Every module spells the second one its own way: with steps back, doubled slashes, and three slashes
-- at the start.
def winding (specifiers : List String) : Workshop :=
  let transpiler : Transpiler := fun source path =>
    .ok ⟨if path = "/w/a.js".toList then specifiers.map String.toList else ["./b.js".toList], source⟩
  let file (name : String) : Location × Entry := ([['w'], name.toList], .text [])
  ⟨⟨[['w']], [file "a.js", file "b.js"]⟩, [], [], transpiler⟩

end Graph
end ModuleBundler

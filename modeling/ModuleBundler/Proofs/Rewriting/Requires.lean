import ModuleBundler.Proofs.Rewriting.Passthrough

/-!
What a prologue requires: each specifier that the module depends on once, in the order of the
variables that hold what it exports.
-/
namespace ModuleBundler

def Statement.required? : Statement → Option (Nat × CodePoints)
  | .require index specifier => some (index, specifier)
  | _ => none

namespace Prologue

-- The index and the specifier of every line that requires something.
def required (statements : List Statement) : List (Nat × CodePoints) :=
  statements.filterMap Statement.required?

-- Specifiers with their places in the list.
def numbered (specifiers : List CodePoints) : List (Nat × CodePoints) := specifiers.zipIdx.map Prod.swap

theorem numbered_concat (specifiers : List CodePoints) (specifier : CodePoints) :
    numbered (specifiers ++ [specifier]) = numbered specifiers ++ [(specifiers.length, specifier)] := by
  simp [numbered, List.zipIdx_append]

theorem mem_numbered {specifiers : List CodePoints} :
    (index, specifier) ∈ numbered specifiers ↔ specifiers[index]? = some specifier := by
  rw [numbered, List.mem_map]
  constructor
  · rintro ⟨⟨found, place⟩, member, same⟩
    cases same
    exact List.mk_mem_zipIdx_iff_getElem?.mp member
  · intro at_
    exact ⟨(specifier, index), List.mk_mem_zipIdx_iff_getElem?.mpr at_, rfl⟩

structure Requires (imports : Imports) : Prop where
  distinct : imports.dependencies.Nodup
  each : required imports.statements = numbered imports.dependencies

theorem Requires.push {imports : Imports} {statement : Statement} (requires : Requires imports)
    (silent : statement.required? = none) :
    Requires { imports with statements := imports.statements ++ [statement] } := by
  refine ⟨requires.distinct, ?_⟩
  rw [required, List.filterMap_append, List.filterMap_cons_none silent, List.filterMap_nil,
    List.append_nil]
  exact requires.each

theorem require_requires (imports : Imports) (specifier : CodePoints) (requires : Requires imports) :
    Requires (imports.require specifier).1 := by
  unfold Imports.require
  split
  · exact requires
  · rename_i unknown
    have absent : specifier ∉ imports.dependencies := by
      intro member
      have missed := List.findIdx?_eq_none_iff.mp unknown specifier member
      simp at missed
    refine ⟨?_, ?_⟩
    · exact List.nodup_append.mpr ⟨requires.distinct, by simp, by
        rintro _ member _ last rfl
        exact absent (List.mem_singleton.mp last ▸ member)⟩
    · rw [numbered_concat, ← requires.each]
      exact List.filterMap_append

theorem bind_requires (localNames : List Text) (index : Nat) (imports : Imports)
    (binding : ImportBinding) (requires : Requires imports) :
    Requires (imports.bind localNames index binding) := by
  have viewed := requires.push (show (Statement.view index).required? = none from rfl)
  unfold Imports.bind
  dsimp only
  split
  · split
    · exact ⟨viewed.distinct, viewed.each⟩
    · exact ⟨requires.distinct, requires.each⟩
  · split
    · exact ⟨viewed.distinct, viewed.each⟩
    · exact ⟨requires.distinct, requires.each⟩

theorem add_requires (localNames : List Text) (imports : Imports) (declaration : Declaration)
    (requires : Requires imports) : Requires (imports.add localNames declaration) := by
  unfold Imports.add
  split
  · exact requires
  · rename_i specifier _
    have first := require_requires imports specifier requires
    dsimp only
    split
    · exact first
    · rename_i bindings _ _
      have bound := List.foldlRecOn bindings (Imports.bind localNames (imports.require specifier).2)
        (motive := fun imports : Imports => Requires imports) first
        fun _ kept binding _ => bind_requires localNames _ _ binding kept
      exact bound.push rfl
    · exact first.push rfl
    · exact first

theorem imports_requires (localNames : List Text) (declarations : List Declaration) :
    Requires (imports localNames declarations) := by
  have start : Requires {} := ⟨List.nodup_nil, rfl⟩
  exact List.foldlRecOn declarations _ (motive := fun imports : Imports => Requires imports) start
    fun _ kept declaration _ => add_requires localNames _ declaration kept

-- The text of a prologue, line by line.
def prologueLines (hasExports : Bool) (statements : List Statement) : List Text :=
  [strictLine] ++ (if hasExports then [markerLine] else []) ++ statements.map Statement.render

end Prologue

namespace Rewriting

-- The lines of a prologue behind those that every module has.
def Analysis.statements (analysis : Analysis) : List Statement :=
  analysis.getters ++ analysis.imports.statements

theorem Analysis.getters_cases (analyzed : analyzeSource source = .ok analysis) :
    ∀ statement ∈ analysis.getters, ∃ declaration ∈ analysis.declarations, ∃ name expression,
      (name, some expression) ∈ Prologue.exports analysis.imports declaration ∧
        statement = .getter name expression := by
  obtain ⟨parsed, _, meant⟩ := analyzeSource_parts analyzed
  obtain ⟨items, _, _, _, getters, _⟩ := analyze_parts meant
  rw [getters]
  intro statement member
  obtain ⟨⟨name, expression?⟩, exported, some_⟩ := List.mem_filterMap.mp member
  obtain ⟨declaration, among, exports⟩ := List.mem_flatMap.mp exported
  obtain ⟨expression, rfl, rfl⟩ := Option.map_eq_some_iff.mp some_
  exact ⟨declaration, among, name, expression, exports, rfl⟩

theorem Analysis.requires (analyzed : analyzeSource source = .ok analysis) :
    analysis.imports.dependencies.Nodup ∧
      Prologue.required analysis.statements = Prologue.numbered analysis.imports.dependencies := by
  obtain ⟨parsed, _, meant⟩ := analyzeSource_parts analyzed
  obtain ⟨items, _, _, imports, _⟩ := analyze_parts meant
  have requires : Prologue.Requires analysis.imports := imports ▸ Prologue.imports_requires _ _
  have silent : Prologue.required analysis.getters = [] := by
    rw [Prologue.required, List.filterMap_eq_nil_iff]
    intro statement member
    obtain ⟨_, _, _, _, _, rfl⟩ := Analysis.getters_cases analyzed statement member
    rfl
  refine ⟨requires.distinct, ?_⟩
  rw [← requires.each, Analysis.statements, Prologue.required, List.filterMap_append]
  change Prologue.required analysis.getters ++ _ = _
  rw [silent]
  rfl

end Rewriting
end ModuleBundler

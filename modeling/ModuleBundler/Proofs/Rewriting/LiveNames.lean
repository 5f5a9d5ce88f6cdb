import ModuleBundler.Proofs.Rewriting.Imported
import ModuleBundler.Proofs.Rewriting.TemplateCode

/-!
Which names are live depends on the imports of a module and on the names that it binds itself, and the edits of
code depend on the live names alone: two modules with the same imports edit the same code alike, unless a name
that the one edits is bound in the other.
-/
namespace ModuleBundler

namespace Prologue

variable {specifiers : List CodePoints} {localNames others : List Text} {name : Text}
  {declarations alike : List Declaration}

theorem Access.functional (distinct : specifiers.Nodup) (access : Access specifiers specifier imported expression)
    (other : Access specifiers specifier imported expression') : expression = expression' := by
  have only : ∀ {index index' : Nat}, specifiers[index]? = some specifier →
      specifiers[index']? = some specifier → index = index' := by
    intro index index' place place'
    exact (List.getElem?_inj (List.getElem?_eq_some_iff.mp place).1 distinct).mp (place.trans place'.symm)
  cases access with
  | «namespace» place =>
    cases other with
    | «namespace» place' => rw [only place place']
  | default place =>
    cases other with
    | default place' => rw [only place place']
  | named place =>
    cases other with
    | named place' => rw [only place place']

-- What the bindings of a module are read from is fixed by its specifiers.
theorem bound_unique (distinct : specifiers.Nodup) {sources : List (CodePoints × ImportBinding)}
    (reads : List.Forall₂ (fun source (binding : ImportBinding × Text) =>
      binding.1 = source.2 ∧ Access specifiers source.1 binding.1.imported binding.2) sources bound)
    (again : List.Forall₂ (fun source (binding : ImportBinding × Text) =>
      binding.1 = source.2 ∧ Access specifiers source.1 binding.1.imported binding.2) sources bound') :
    bound = bound' := by
  induction reads generalizing bound' with
  | nil =>
    cases again
    rfl
  | @cons source binding sources rest here _ ih =>
    cases again with
    | @cons _ binding' _ rest' here' later' =>
      obtain ⟨imported, expression⟩ := binding
      obtain ⟨imported', expression'⟩ := binding'
      obtain ⟨rfl, access⟩ := here
      obtain ⟨rfl, access'⟩ := here'
      have same : expression = expression' := access.functional distinct access'
      rw [ih later', same]

-- Names that the module binds are taken out, and no others.
theorem lookup_puts (bound : List (ImportBinding × Text)) {live all : LiveBindings}
    (before : live.lookup name = if name ∈ localNames then none else all.lookup name) :
    ((bound.filter fun binding => lively localNames binding.1).foldl putLive live).lookup name
      = if name ∈ localNames then none
        else ((bound.filter fun binding => lively [] binding.1).foldl putLive all).lookup name := by
  induction bound generalizing live all with
  | nil => exact before
  | cons first rest ih =>
    by_cases whole : first.1.imported = .namespace
    · have out : ∀ names, lively names first.1 = false := fun names => by simp [lively, whole]
      rw [List.filter_cons_of_neg (by simp [out]), List.filter_cons_of_neg (by simp [out])]
      exact ih before
    · have free : lively [] first.1 = true := by simp [lively, whole]
      rw [List.filter_cons_of_pos (l := rest) (p := fun binding => lively [] binding.1) free]
      by_cases bound : first.1.localName ∈ localNames
      · have out : lively localNames first.1 = false := by simp [lively, bound]
        rw [List.filter_cons_of_neg (by simp [out])]
        refine ih ?_
        rw [before, putLive, Dictionary.lookup_put]
        by_cases own : name ∈ localNames
        · rw [if_pos own, if_pos own]
        · have apart : name ≠ first.1.localName := fun same => own (same ▸ bound)
          rw [beq_false_of_ne apart]
          rfl
      · have lives : lively localNames first.1 = true := by simp [lively, whole, bound]
        rw [List.filter_cons_of_pos (by exact lives)]
        refine ih ?_
        rw [putLive, putLive, Dictionary.lookup_put, Dictionary.lookup_put, before]
        by_cases same : name = first.1.localName
        · subst same
          rw [if_neg bound, if_neg bound, beq_self_eq_true]
        · rw [beq_false_of_ne same]
          rfl

theorem lookup_liveThrough_bound (localNames : List Text) (bound : List (ImportBinding × Text)) (name : Text) :
    (liveThrough localNames bound).lookup name
      = if name ∈ localNames then none else (liveThrough [] bound).lookup name :=
  lookup_puts bound (by simp)

-- Modules with the same imports read a name alike, if neither of them binds it.
theorem imports_agree (origins : alike.filterMap Declaration.origin? = declarations.filterMap Declaration.origin?)
    (bindings : alike.flatMap Declaration.importBindings = declarations.flatMap Declaration.importBindings)
    (free : name ∉ localNames) (free' : name ∉ others) :
    (imports others alike).live.lookup name = (imports localNames declarations).live.lookup name := by
  obtain ⟨bound, follows⟩ := imports_follow localNames declarations
  obtain ⟨bound', follows'⟩ := imports_follow others alike
  have dependencies : (imports others alike).dependencies = (imports localNames declarations).dependencies := by
    rw [follows.specifiers, follows'.specifiers, origins]
  have again := follows'.reads
  rw [bindings, dependencies] at again
  have distinct := (imports_requires localNames declarations).distinct
  rw [follows.live, follows'.live, bound_unique distinct again follows.reads,
    lookup_liveThrough_bound, if_neg free',
    lookup_liveThrough_bound localNames, if_neg free]

end Prologue

namespace Reference

variable {source : Text} {live other : LiveBindings} {edit : Edit}

-- An edit belongs to the name that it takes out: it is made wherever that is read alike.
theorem edits_kept {position : Position} (cut : position.token.CutFrom source) (made : edit ∈ position.edits live) :
    ∃ expression, live.lookup (edit.removed source) = some expression ∧
      ∀ other : LiveBindings, other.lookup (edit.removed source) = some expression → edit ∈ position.edits other := by
  have here : position.token.text <+: source.drop position.token.start := by
    rw [cut.slice]
    exact List.take_prefix _ _
  by_cases named : position.token.terminal = .leaf .name
  · rw [Position.edits_name named, Option.mem_toList, Option.map_eq_some_iff] at made
    obtain ⟨text, found, rfl⟩ := made
    obtain ⟨expression, looked, replaced⟩ := Option.bind_eq_some_iff.mp found
    rw [Token.stop, removed_name here]
    refine ⟨expression, looked, fun other again => ?_⟩
    rw [Position.edits_name named, again, Option.bind_some, replaced]
    exact List.mem_singleton_self _
  · by_cases template : position.token.terminal = .leaf .template
    · rw [Rewriting.edits_template template] at made
      obtain ⟨looked, _⟩ := templateEdits_reads cut made
      refine ⟨edit.text, looked, fun other again => ?_⟩
      rw [Rewriting.edits_template template, templateEdits_sites, List.mem_flatMap]
      rw [templateEdits_sites, List.mem_flatMap] at made
      obtain ⟨site, among, made⟩ := made
      refine ⟨site, among, ?_⟩
      unfold siteEdits at made ⊢
      split at made
      · rename_i plain
        rw [if_pos plain]
        obtain ⟨⟨place, name⟩, stands, replaced⟩ := List.mem_filterMap.mp made
        obtain ⟨expression, read, rfl⟩ := Option.map_eq_some_iff.mp replaced
        obtain ⟨within, _⟩ := namesIn_stands (substitutions_stand here among) stands
        rw [removed_name within] at again
        exact List.mem_filterMap.mpr ⟨(place, name), stands, by rw [nameEdit?, again]; rfl⟩
      · cases made
    · rw [Position.edits_other named template] at made
      cases made

-- The same for the source of a mask, and the code of a level.
theorem levelEdits_kept (setting : Setting) {before : List Sibling} {nodes : List Node}
    (cut : ∀ token ∈ nodes.flatMap Node.tokens, token.CutFrom (Masking.mask source))
    (made : edit ∈ levelEdits live setting.level before nodes) :
    ∃ expression, live.lookup (edit.removed source) = some expression ∧
      ∀ other : LiveBindings, other.lookup (edit.removed source) = some expression →
        edit ∈ levelEdits other setting.level before nodes := by
  rw [levelEdits_positions, List.mem_flatMap] at made
  obtain ⟨position, among, made⟩ := made
  have token : position.token ∈ nodes.flatMap Node.tokens := by
    rw [← levelPositions_tokens setting before]
    exact List.mem_map_of_mem among
  have visible : ' ' ∉ edit.removed (Masking.mask source) := fun blank =>
    absurd ((leafEdits_replace (cut _ token) made).named _ blank) (by decide)
  obtain ⟨expression, looked, kept⟩ := edits_kept (cut _ token) made
  rw [edit.removed_mask visible]
  refine ⟨expression, looked, fun other again => ?_⟩
  rw [levelEdits_positions, List.mem_flatMap]
  exact ⟨position, among, kept other again⟩

end Reference
end ModuleBundler

import ModuleBundler.Proofs.Json.Reading
import ModuleBundler.Proofs.Rewriting.Names
import ModuleBundler.Proofs.Rewriting.Requires

/-!
The variables of generated code. A prologue introduces one for every dependency and another one for every
dependency whose default is imported, each of them once; generated code reads nothing else of what the
prologue requires.
-/
namespace ModuleBundler

-- The variable that a line declares for generated code.
def Statement.introduced? : Statement → Option Text
  | .require index _ => some (Prologue.dependencyVariable index)
  | .view index => some (Prologue.viewVariable index)
  | .declare _ | .exportAll _ | .getter _ _ => none

-- The variables that a line reads, apart from what a getter returns.
def Statement.reads : Statement → List Text
  | .require _ _ | .getter _ _ => []
  | .view index | .exportAll index => [Prologue.dependencyVariable index]
  | .declare bindings => bindings.map fun binding => Prologue.root binding.2

namespace Prologue

def introduced (statements : List Statement) : List Text := statements.filterMap Statement.introduced?

theorem introduced_concat (statements : List Statement) (statement : Statement) :
    introduced (statements ++ [statement]) = introduced statements ++ statement.introduced?.toList := by
  rw [introduced, List.filterMap_append]
  cases same : statement.introduced? <;> simp [introduced, same]

-- A line reads only what lines in front of it introduce.
def Scoped (statements : List Statement) : Prop :=
  ∀ before statement after, statements = before ++ statement :: after →
    ∀ name ∈ statement.reads, name ∈ introduced before

theorem Scoped.concat (ordered : Scoped statements)
    (reads : ∀ name ∈ statement.reads, name ∈ introduced statements) :
    Scoped (statements ++ [statement]) := by
  intro before other after parts
  rcases List.eq_nil_or_concat after with rfl | ⟨middle, last, rfl⟩
  · obtain ⟨rfl, same⟩ := List.append_inj' parts rfl
    cases same
    exact reads
  · rw [List.concat_eq_append, ← List.cons_append, ← List.append_assoc] at parts
    obtain ⟨front, _⟩ := List.append_inj' parts rfl
    exact ordered before other middle front

theorem dependencyVariable_injective (same : dependencyVariable index = dependencyVariable other) :
    index = other :=
  Json.natText_injective (List.append_cancel_left same)

theorem viewVariable_injective (same : viewVariable index = viewVariable other) : index = other :=
  Json.natText_injective (List.append_cancel_left same)

theorem dependencyVariable_ne_viewVariable (index other : Nat) :
    dependencyVariable index ≠ viewVariable other := by
  have dependency : (dependencyVariable index).take 5 = "__dep".toList := List.take_left' (by decide +kernel)
  have view : (viewVariable other).take 5 = "__mod".toList := List.take_left' (by decide +kernel)
  intro same
  rw [same, view] at dependency
  exact absurd dependency (by decide +kernel)

-- What a prologue offers to generated code: every dependency, and the default of one that has a view.
def Imports.Offers (imports : Imports) (index : Nat) (imported : Imported) : Prop :=
  index < imports.dependencies.length ∧ (imported = .default → index ∈ imports.viewed)

-- Expressions that read an offered binding.
def Read (offers : Nat → Imported → Prop) (expression : Text) : Prop :=
  ∃ index imported, offers index imported ∧ expression = bindingExpression index imported

theorem Read.mono (read : Read offers expression)
    (more : ∀ index imported, offers index imported → offered index imported) : Read offered expression := by
  obtain ⟨index, imported, holds, same⟩ := read
  exact ⟨index, imported, more index imported holds, same⟩

-- The variables that offered bindings are read from.
def Carried (offers : Nat → Imported → Prop) (name : Text) : Prop :=
  ∃ index imported, offers index imported ∧ name = carrier index imported

theorem Read.carried (read : Read offers expression) : Carried offers (root expression) := by
  obtain ⟨index, imported, holds, rfl⟩ := read
  exact ⟨index, imported, holds, root_bindingExpression index imported⟩

-- A prologue under way only grows.
structure Extends (before after : Imports) : Prop where
  dependencies : before.dependencies <+: after.dependencies
  viewed : before.viewed ⊆ after.viewed

variable {before after imports : Imports} {declarations : List Declaration} {declaration : Declaration}
  {specifiers : List CodePoints} {specifier : CodePoints} {binding : ImportBinding} {index : Nat}

theorem Extends.refl (imports : Imports) : Extends imports imports :=
  ⟨List.prefix_refl _, List.Subset.refl _⟩

theorem Extends.trans (first : Extends before imports) (second : Extends imports after) :
    Extends before after :=
  ⟨first.dependencies.trans second.dependencies, List.Subset.trans first.viewed second.viewed⟩

theorem Extends.offers (extended : Extends before after) (index : Nat) (imported : Imported)
    (offers : before.Offers index imported) : after.Offers index imported :=
  ⟨Nat.lt_of_lt_of_le offers.1 extended.dependencies.length_le, fun same => extended.viewed (offers.2 same)⟩

theorem Extends.place (extended : Extends before after)
    (place : before.dependencies[index]? = some specifier) : after.dependencies[index]? = some specifier := by
  obtain ⟨more, parts⟩ := extended.dependencies
  obtain ⟨inside, _⟩ := List.getElem?_eq_some_iff.mp place
  rw [← parts, List.getElem?_append_left inside]
  exact place

theorem extends_foldl {step : Imports → α → Imports}
    (steps : ∀ imports item, Extends imports (step imports item)) (items : List α) (imports : Imports) :
    Extends imports (items.foldl step imports) :=
  List.foldlRecOn items step (motive := Extends imports) (.refl imports)
    fun _ extended item _ => extended.trans (steps _ item)

theorem require_extends (imports : Imports) (specifier : CodePoints) :
    Extends imports (imports.require specifier).1 := by
  unfold Imports.require
  split
  · exact .refl _
  · exact ⟨List.prefix_append _ _, List.Subset.refl _⟩

theorem require_place (imports : Imports) (specifier : CodePoints) :
    (imports.require specifier).1.dependencies[(imports.require specifier).2]? = some specifier := by
  unfold Imports.require
  split
  · rename_i index known
    obtain ⟨inside, same, _⟩ := List.findIdx?_eq_some_iff_getElem.mp known
    exact List.getElem?_eq_some_iff.mpr ⟨inside, eq_of_beq same⟩
  · exact List.getElem?_concat_length

-- The view that a binding needs.
def Imports.view (index : Nat) (imports : Imports) (binding : ImportBinding) : Imports :=
  if binding.imported = .default && !imports.viewed.contains index then
    { imports with
      viewed := index :: imports.viewed
      statements := imports.statements ++ [.view index] }
  else imports

theorem bind_eq (localNames : List Text) (index : Nat) (imports : Imports) (binding : ImportBinding) :
    imports.bind localNames index binding =
      if binding.imported = .namespace || localNames.contains binding.localName then
        imports.view index binding
      else { imports.view index binding with
        live := Dictionary.put (imports.view index binding).live binding.localName
          (bindingExpression index binding.imported) } :=
  rfl

theorem view_extends (index : Nat) (imports : Imports) (binding : ImportBinding) :
    Extends imports (imports.view index binding) := by
  unfold Imports.view
  split
  · exact ⟨List.prefix_refl _, List.subset_cons_self _ _⟩
  · exact .refl _

theorem view_viewed (index : Nat) (imports : Imports) (default : binding.imported = .default) :
    index ∈ (imports.view index binding).viewed := by
  unfold Imports.view
  split
  · exact List.mem_cons_self
  · rename_i known
    simpa [default] using known

theorem bind_extends_view (localNames : List Text) (index : Nat) (imports : Imports)
    (binding : ImportBinding) : Extends (imports.view index binding) (imports.bind localNames index binding) := by
  rw [bind_eq]
  split
  · exact .refl _
  · exact ⟨List.prefix_refl _, List.Subset.refl _⟩

theorem bind_extends (localNames : List Text) (index : Nat) (imports : Imports) (binding : ImportBinding) :
    Extends imports (imports.bind localNames index binding) :=
  (view_extends index imports binding).trans (bind_extends_view localNames index imports binding)

theorem bind_offers (localNames : List Text) (binding : ImportBinding)
    (inside : index < imports.dependencies.length) :
    (imports.bind localNames index binding).Offers index binding.imported :=
  ⟨Nat.lt_of_lt_of_le inside (bind_extends localNames index imports binding).dependencies.length_le,
    fun default =>
      (bind_extends_view localNames index imports binding).viewed (view_viewed index imports default)⟩

-- When all bindings of a declaration are done, each of them is offered.
theorem binds_offer (localNames : List Text) (bindings : List ImportBinding)
    (inside : index < imports.dependencies.length) :
    ∀ binding ∈ bindings,
      (bindings.foldl (Imports.bind localNames index) imports).Offers index binding.imported := by
  induction bindings generalizing imports with
  | nil => nofun
  | cons binding bindings ih =>
    have first := bind_extends localNames index imports binding
    refine List.forall_mem_cons.mpr ⟨?_, ih (Nat.lt_of_lt_of_le inside first.dependencies.length_le)⟩
    exact (extends_foldl (bind_extends localNames index) bindings _).offers index _
      (bind_offers localNames binding inside)

theorem add_extends_require (localNames : List Text) (imports : Imports)
    (depends : declaration.origin? = some specifier) :
    Extends (imports.require specifier).1 (imports.add localNames declaration) := by
  unfold Imports.add
  rw [depends]
  dsimp only
  split
  · exact .refl _
  · rename_i bindings _ _
    have bound := extends_foldl (bind_extends localNames (imports.require specifier).2) bindings
      (imports.require specifier).1
    exact ⟨bound.dependencies, bound.viewed⟩
  · exact ⟨List.prefix_refl _, List.Subset.refl _⟩
  · exact .refl _

theorem add_extends (localNames : List Text) (imports : Imports) (declaration : Declaration) :
    Extends imports (imports.add localNames declaration) := by
  cases depends : declaration.origin? with
  | none =>
    unfold Imports.add
    rw [depends]
    exact .refl _
  | some specifier =>
    exact (require_extends imports specifier).trans (add_extends_require localNames imports depends)

theorem imports_extends (localNames : List Text) (among : declaration ∈ declarations) :
    ∃ before, Extends (Imports.add localNames before declaration)
      (Prologue.imports localNames declarations) := by
  obtain ⟨front, back, rfl⟩ := List.append_of_mem among
  refine ⟨front.foldl (Imports.add localNames) {}, ?_⟩
  rw [Prologue.imports, List.foldl_append, List.foldl_cons]
  exact extends_foldl (add_extends localNames) back _

-- What a declaration depends on is required.
theorem imports_depend (localNames : List Text) (among : declaration ∈ declarations)
    (depends : declaration.origin? = some specifier) :
    specifier ∈ (Prologue.imports localNames declarations).dependencies := by
  obtain ⟨before, extended⟩ := imports_extends localNames among
  have later := (add_extends_require localNames before depends).trans extended
  exact List.mem_of_getElem? (later.place (require_place before specifier))

-- A declaration imports the default of a dependency.
def Views (declarations : List Declaration) (specifiers : List CodePoints) (index : Nat) : Prop :=
  ∃ declaration ∈ declarations, ∃ specifier bindings, declaration.meaning = .imports specifier bindings ∧
    specifiers[index]? = some specifier ∧ ∃ binding ∈ bindings, binding.imported = .default

theorem Views.inside (views : Views declarations specifiers index) : index < specifiers.length := by
  obtain ⟨_, _, _, _, _, place, _⟩ := views
  exact (List.getElem?_eq_some_iff.mp place).1

theorem Views.mono (views : Views declarations specifiers index) (more : specifiers <+: later) :
    Views declarations later index := by
  obtain ⟨declaration, among, specifier, bindings, meaning, place, defaults⟩ := views
  refine ⟨declaration, among, specifier, bindings, meaning, ?_, defaults⟩
  obtain ⟨rest, rfl⟩ := more
  rwa [List.getElem?_append_left (List.getElem?_eq_some_iff.mp place).1]

theorem imports_view (localNames : List Text)
    (views : Views declarations (Prologue.imports localNames declarations).dependencies index) :
    index ∈ (Prologue.imports localNames declarations).viewed := by
  obtain ⟨declaration, among, specifier, bindings, meaning, place, binding, bound, default⟩ := views
  obtain ⟨before, extended⟩ := imports_extends localNames among
  have depends : declaration.origin? = some specifier := by simp [Declaration.origin?, meaning]
  have placed := require_place before specifier
  have inside := (List.getElem?_eq_some_iff.mp placed).1
  -- The specifier stands at one place only.
  have same : (before.require specifier).2 = index := by
    have later := ((add_extends_require localNames before depends).trans extended).place placed
    have distinct := (imports_requires localNames declarations).distinct
    obtain ⟨_, here⟩ := List.getElem?_eq_some_iff.mp later
    obtain ⟨_, there⟩ := List.getElem?_eq_some_iff.mp place
    exact (List.Nodup.getElem_inj_iff distinct).mp (here.trans there.symm)
  have offered := binds_offer localNames bindings inside binding bound
  have added : (before.add localNames declaration).viewed = (bindings.foldl
      (Imports.bind localNames (before.require specifier).2) (before.require specifier).1).viewed := by
    unfold Imports.add
    rw [depends, meaning]
    cases bindings with
    | nil => cases bound
    | cons => rfl
  rw [← same]
  exact extended.viewed (added ▸ offered.2 default)

-- A name that the module itself gives to what it imports or exports.
def Owns (declarations : List Declaration) (name : Text) : Prop :=
  ∃ declaration ∈ declarations, name ∈ declaration.meaning.localNames

def hasExports (declarations : List Declaration) : Bool := declarations.any (!·.isImport)

-- A line that reads nothing but what is offered and what the module names itself.
def Backed (declarations : List Declaration) (offers : Nat → Imported → Prop) : Statement → Prop
  | .require index _ => offers index .namespace
  | .view index => offers index .namespace ∧ offers index .default
  | .declare bindings => ∀ binding ∈ bindings, Owns declarations binding.1 ∧ Read offers binding.2
  | .exportAll index => hasExports declarations = true ∧ offers index .namespace
  | .getter _ expression =>
    hasExports declarations = true ∧ (Read offers expression ∨ Owns declarations expression)

theorem Backed.mono {statement : Statement} (backed : Backed declarations offers statement)
    (more : ∀ index imported, offers index imported → offered index imported) :
    Backed declarations offered statement := by
  cases statement with
  | require => exact more _ _ backed
  | view => exact ⟨more _ _ backed.1, more _ _ backed.2⟩
  | declare bindings =>
    exact fun binding among => ⟨(backed binding among).1, (backed binding among).2.mono more⟩
  | exportAll => exact ⟨backed.1, more _ _ backed.2⟩
  | getter => exact ⟨backed.1, backed.2.imp_left (·.mono more)⟩

theorem Backed.reads {statement : Statement} (backed : Backed declarations offers statement) :
    ∀ name ∈ statement.reads, Carried offers name := by
  intro name found
  cases statement with
  | require | getter => cases found
  | view index =>
    cases List.mem_singleton.mp found
    exact ⟨index, .namespace, backed.1, rfl⟩
  | exportAll index =>
    cases List.mem_singleton.mp found
    exact ⟨index, .namespace, backed.2, rfl⟩
  | declare bindings =>
    obtain ⟨binding, among, rfl⟩ := List.mem_map.mp found
    exact (backed binding among).2.carried

-- What holds of a prologue under way.
structure Built (declarations : List Declaration) (state : Imports) : Prop where
  distinct : (introduced state.statements).Nodup
  ordered : Scoped state.statements
  introduces : ∀ name, name ∈ introduced state.statements ↔ Carried state.Offers name
  backed : ∀ statement ∈ state.statements, Backed declarations state.Offers statement
  live : ∀ name expression, state.live.lookup name = some expression → Read state.Offers expression
  views : ∀ index ∈ state.viewed, Views declarations state.dependencies index

variable {state : Imports}

-- A line that declares a variable of its own is pushed.
theorem Built.introduce {later : Imports} (built : Built declarations state) (extended : Extends state later)
    (pushed : later.statements = state.statements ++ [statement])
    (declares : statement.introduced? = some fresh) (unknown : fresh ∉ introduced state.statements)
    (reads : ∀ name ∈ statement.reads, Carried state.Offers name)
    (offered : ∀ name, Carried later.Offers name ↔ Carried state.Offers name ∨ name = fresh)
    (backed : Backed declarations later.Offers statement) (live : later.live = state.live)
    (views : ∀ index ∈ later.viewed, Views declarations later.dependencies index) :
    Built declarations later where
  distinct := by
    rw [pushed, introduced_concat, declares]
    refine List.nodup_append.mpr ⟨built.distinct, List.nodup_singleton _, ?_⟩
    rintro name known _ last rfl
    exact unknown (List.mem_singleton.mp last ▸ known)
  ordered := by
    rw [pushed]
    exact built.ordered.concat fun name found => (built.introduces name).mpr (reads name found)
  introduces := by
    intro name
    rw [pushed, introduced_concat, declares, List.mem_append, built.introduces, offered]
    simp
  backed := by
    rw [pushed]
    refine List.forall_mem_append.mpr ⟨?_, fun _ among => List.mem_singleton.mp among ▸ backed⟩
    exact fun earlier among => (built.backed earlier among).mono extended.offers
  live := by
    rw [live]
    exact fun name expression looked => (built.live name expression looked).mono extended.offers
  views := views

theorem Built.push (built : Built declarations state) (silent : statement.introduced? = none)
    (backed : Backed declarations state.Offers statement) :
    Built declarations { state with statements := state.statements ++ [statement] } where
  distinct := by
    rw [introduced_concat, silent, Option.toList_none, List.append_nil]
    exact built.distinct
  ordered := built.ordered.concat fun name found => (built.introduces name).mpr (backed.reads name found)
  introduces := by
    intro name
    rw [introduced_concat, silent, Option.toList_none, List.append_nil]
    exact built.introduces name
  backed := List.forall_mem_append.mpr ⟨built.backed, fun _ among => List.mem_singleton.mp among ▸ backed⟩
  live := built.live
  views := built.views

theorem require_built (specifier : CodePoints) (built : Built declarations state) :
    Built declarations (state.require specifier).1 := by
  have extended := require_extends state specifier
  have unviewed : ∀ index imported, state.dependencies.length ≤ index →
      (imported = .default → index ∈ state.viewed) → carrier index imported = dependencyVariable index := by
    intro index imported beyond default
    cases imported with
    | default => exact absurd (built.views index (default rfl)).inside (by omega)
    | «namespace» | named => rfl
  unfold Imports.require at extended ⊢
  split at extended
  · exact built
  · refine built.introduce extended rfl rfl ?_ nofun ?_ ?_ rfl ?_
    · rw [built.introduces]
      rintro ⟨index, imported, offers, same⟩
      cases imported with
      | default => exact dependencyVariable_ne_viewVariable _ _ same
      | «namespace» | named => exact absurd offers.1 (by rw [dependencyVariable_injective same]; omega)
    · intro name
      constructor
      · rintro ⟨index, imported, ⟨inside, default⟩, rfl⟩
        rw [List.length_append, List.length_singleton] at inside
        by_cases known : index < state.dependencies.length
        · exact .inl ⟨index, imported, ⟨known, default⟩, rfl⟩
        · have last : index = state.dependencies.length := by omega
          rw [unviewed index imported (by omega) default, last]
          exact .inr rfl
      · rintro (⟨index, imported, offers, rfl⟩ | rfl)
        · exact ⟨index, imported, extended.offers index imported offers, rfl⟩
        · exact ⟨_, .namespace, ⟨by simp, nofun⟩, rfl⟩
    · exact ⟨by simp, nofun⟩
    · exact fun index viewed => (built.views index viewed).mono extended.dependencies

theorem view_built (built : Built declarations state)
    (views : binding.imported = .default → Views declarations state.dependencies index) :
    Built declarations (state.view index binding) := by
  have extended := view_extends index state binding
  by_cases needed : (binding.imported = .default && !state.viewed.contains index) = true
  · rw [Imports.view, if_pos needed] at extended ⊢
    simp only [Bool.and_eq_true, decide_eq_true_eq, Bool.not_eq_true', List.contains_eq_mem,
      decide_eq_false_iff_not] at needed
    have view := views needed.1
    have offers : Imports.Offers { state with
        viewed := index :: state.viewed
        statements := state.statements ++ [.view index] } index .default :=
      ⟨view.inside, fun _ => List.mem_cons_self⟩
    refine built.introduce extended rfl rfl ?_ ?_ ?_ ⟨⟨offers.1, nofun⟩, offers⟩ rfl ?_
    · rw [built.introduces]
      rintro ⟨other, imported, offered, same⟩
      cases imported with
      | default => exact needed.2 (viewVariable_injective same ▸ offered.2 rfl)
      | «namespace» | named => exact dependencyVariable_ne_viewVariable _ _ same.symm
    · intro name found
      cases List.mem_singleton.mp found
      exact ⟨index, .namespace, ⟨view.inside, nofun⟩, rfl⟩
    · intro name
      constructor
      · rintro ⟨other, imported, ⟨inside, viewed⟩, rfl⟩
        cases imported with
        | default =>
          rcases List.mem_cons.mp (viewed rfl) with rfl | known
          · exact .inr rfl
          · exact .inl ⟨other, .default, ⟨inside, fun _ => known⟩, rfl⟩
        | «namespace» | named => exact .inl ⟨other, .namespace, ⟨inside, nofun⟩, rfl⟩
      · rintro (⟨other, imported, offered, rfl⟩ | rfl)
        · exact ⟨other, imported, extended.offers other imported offered, rfl⟩
        · exact ⟨index, .default, offers, rfl⟩
    · exact List.forall_mem_cons.mpr ⟨view, built.views⟩
  · rwa [Imports.view, if_neg needed]

theorem bind_built (localNames : List Text) (built : Built declarations state)
    (inside : index < state.dependencies.length)
    (views : binding.imported = .default → Views declarations state.dependencies index) :
    Built declarations (state.bind localNames index binding) := by
  have viewed := view_built built views
  have offers : (state.view index binding).Offers index binding.imported :=
    ⟨Nat.lt_of_lt_of_le inside (view_extends index state binding).dependencies.length_le,
      view_viewed index state⟩
  rw [bind_eq]
  split
  · exact viewed
  · refine ⟨viewed.distinct, viewed.ordered, viewed.introduces, viewed.backed, ?_, viewed.views⟩
    intro name expression looked
    rw [Dictionary.lookup_put] at looked
    split at looked
    · cases looked
      exact ⟨index, binding.imported, offers, rfl⟩
    · exact viewed.live name expression looked

theorem add_built (localNames : List Text) (among : declaration ∈ declarations)
    (built : Built declarations state) : Built declarations (state.add localNames declaration) := by
  unfold Imports.add
  split
  · exact built
  · rename_i specifier depends
    have required := require_built specifier built
    have placed := require_place state specifier
    have inside := (List.getElem?_eq_some_iff.mp placed).1
    dsimp only
    split
    · exact required
    · rename_i other bindings _ meaning
      have same : other = specifier := by simpa [Declaration.origin?, meaning] using depends
      subst same
      -- Every binding finds the dependency where it was required.
      have bound := List.foldlRecOn bindings (Imports.bind localNames (state.require other).2)
        (motive := fun later : Imports => Built declarations later ∧ Extends (state.require other).1 later)
        ⟨required, .refl _⟩ fun later kept binding member => by
          obtain ⟨built, extended⟩ := kept
          have placed := extended.place placed
          have inside := (List.getElem?_eq_some_iff.mp placed).1
          have bound := bind_built localNames built inside fun default =>
            ⟨declaration, among, other, bindings, meaning, placed, binding, member, default⟩
          exact ⟨bound, extended.trans (bind_extends localNames _ later binding)⟩
      have offered := binds_offer localNames bindings inside
      refine bound.1.push rfl fun pair paired => ?_
      obtain ⟨binding, member, rfl⟩ := List.mem_map.mp paired
      refine ⟨⟨declaration, among, ?_⟩, _, _, offered binding member, rfl⟩
      rw [meaning]
      exact List.mem_map_of_mem member
    · rename_i other meaning
      refine required.push rfl ⟨?_, inside, nofun⟩
      exact List.any_eq_true.mpr ⟨declaration, among, by simp [Declaration.isImport, meaning]⟩
    · exact required

theorem imports_built (localNames : List Text) (declarations : List Declaration) :
    Built declarations (Prologue.imports localNames declarations) := by
  have start : Built declarations {} := by
    refine ⟨List.nodup_nil, ?_, fun name => ?_, nofun, nofun, nofun⟩
    · intro before statement after parts
      exact absurd parts.symm (List.append_ne_nil_of_right_ne_nil _ (List.cons_ne_nil _ _))
    constructor
    · nofun
    · rintro ⟨_, _, ⟨inside, _⟩, _⟩
      cases inside
  exact List.foldlRecOn declarations _ (motive := Built declarations) start
    fun _ built declaration among => add_built localNames among built

-- A getter reads an offered binding or names something that the module declares.
theorem exports_backed {state : Imports} (built : Built declarations state)
    (depend : ∀ declaration ∈ declarations, ∀ specifier, declaration.origin? = some specifier →
      specifier ∈ state.dependencies)
    (among : declaration ∈ declarations) (exported : (name, some expression) ∈ exports state declaration) :
    Backed declarations state.Offers (.getter name expression) := by
  have exporting : declaration.isImport = false → hasExports declarations = true := fun other =>
    List.any_eq_true.mpr ⟨declaration, among, by rw [other]; rfl⟩
  have live : ∀ localName, localName ∈ declaration.meaning.localNames →
      Read state.Offers ((state.live.lookup localName).getD localName) ∨
        Owns declarations ((state.live.lookup localName).getD localName) := by
    intro localName member
    cases looked : state.live.lookup localName with
    | none => exact .inr ⟨declaration, among, member⟩
    | some expression => exact .inl (built.live localName expression looked)
  -- Where a re-export reads its dependency.
  have placed : ∀ specifier, declaration.origin? = some specifier →
      (state.dependencies.findIdx? (· == specifier)).getD state.dependencies.length
        < state.dependencies.length := by
    intro specifier depends
    have member := depend declaration among specifier depends
    cases found : state.dependencies.findIdx? (· == specifier) with
    | none => simpa using List.findIdx?_eq_none_iff.mp found specifier member
    | some index => exact (List.findIdx?_eq_some_iff_getElem.mp found).1
  unfold exports at exported
  unfold Declaration.isImport at exporting
  unfold Declaration.origin? at placed
  dsimp only at exported
  split at exported
  · cases exported
  · cases exported
  · cases List.mem_singleton.mp exported
  · rename_i meaning
    rw [meaning] at exporting live
    cases List.mem_singleton.mp exported
    exact ⟨exporting rfl, live _ List.mem_cons_self⟩
  · rename_i names meaning
    rw [meaning] at exporting live
    obtain ⟨localName, member, same⟩ := List.mem_map.mp exported
    cases same
    exact ⟨exporting rfl, live _ member⟩
  · rename_i bindings meaning
    rw [meaning] at exporting live
    obtain ⟨binding, member, same⟩ := List.mem_map.mp exported
    cases same
    exact ⟨exporting rfl, live _ (List.mem_map_of_mem member)⟩
  · rename_i specifier bindings meaning
    rw [meaning] at exporting placed
    obtain ⟨binding, member, same⟩ := List.mem_map.mp exported
    cases same
    exact ⟨exporting rfl, .inl ⟨_, .named binding.2, ⟨placed specifier rfl, nofun⟩, rfl⟩⟩
  · rename_i specifier exportedName meaning
    rw [meaning] at exporting placed
    cases List.mem_singleton.mp exported
    exact ⟨exporting rfl, .inl ⟨_, .namespace, ⟨placed specifier rfl, nofun⟩, rfl⟩⟩

end Prologue

namespace Rewriting

open Prologue

theorem Analysis.built (analyzed : analyzeSource source = .ok analysis) :
    Built analysis.declarations analysis.imports ∧
      ∀ statement ∈ analysis.statements, Backed analysis.declarations analysis.imports.Offers statement := by
  obtain ⟨parsed, _, meant⟩ := analyzeSource_parts analyzed
  obtain ⟨items, _, _, imports, _⟩ := analyze_parts meant
  have built : Built analysis.declarations analysis.imports := imports ▸ imports_built _ _
  refine ⟨built, List.forall_mem_append.mpr ⟨?_, built.backed⟩⟩
  intro statement member
  obtain ⟨declaration, among, name, expression, exports,
    rfl⟩ := Analysis.getters_cases analyzed statement member
  refine exports_backed built (fun declaration among specifier depends => ?_) among exports
  rw [imports]
  exact imports_depend _ among depends

theorem Analysis.viewed (analyzed : analyzeSource source = .ok analysis)
    (views : Views analysis.declarations analysis.imports.dependencies index) :
    index ∈ analysis.imports.viewed := by
  obtain ⟨parsed, _, meant⟩ := analyzeSource_parts analyzed
  obtain ⟨items, _, _, imports, _⟩ := analyze_parts meant
  rw [imports] at views ⊢
  exact imports_view _ views

-- Getters declare no variable.
theorem introduced_statements (analyzed : analyzeSource source = .ok analysis) :
    introduced analysis.statements = introduced analysis.imports.statements := by
  have silent : introduced analysis.getters = [] := by
    rw [introduced, List.filterMap_eq_nil_iff]
    intro statement member
    obtain ⟨_, _, _, _, _, rfl⟩ := Analysis.getters_cases analyzed statement member
    rfl
  rw [Analysis.statements, introduced, List.filterMap_append]
  change introduced analysis.getters ++ _ = _
  rw [silent]
  rfl

end Rewriting
end ModuleBundler

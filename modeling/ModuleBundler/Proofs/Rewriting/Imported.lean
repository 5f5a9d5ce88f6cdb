import Mathlib.Data.List.Perm.Basic
import ModuleBundler.Proofs.Rewriting.Hygiene

/-!
What becomes of the imports of a module. Its specifiers are required once, in the order in which they are
first used; every imported binding is given to its local name, read from a variable that a line in front
introduces; and a name is live through the same expression unless the module binds it itself.
-/
namespace ModuleBundler

open Prologue

-- What a declaration imports, each binding with the specifier that it comes from.
def Declaration.importBindings (declaration : Declaration) : List (CodePoints × ImportBinding) :=
  match declaration.meaning with
  | .imports specifier bindings => bindings.map fun binding => (specifier, binding)
  | _ => []

namespace Statement

-- The local names of a line, each with what it is read from.
def declarators : Statement → List (Text × Text)
  | declare bindings => bindings
  | require _ _ | view _ | exportAll _ | getter _ _ => []

-- What a line exports, each name with the expression that its getter returns.
def gotten : Statement → List (Text × Text)
  | getter name expression => [(name, expression)]
  | require _ _ | view _ | declare _ | exportAll _ => []

-- All names that a line declares, those of the source and those of generated code.
def declared (statement : Statement) : List Text :=
  statement.introduced?.toList ++ statement.declarators.map Prod.fst

variable {index : Nat} {specifier : CodePoints} {statement : Statement}

-- A word of a line is a variable that it declares or reads, a global or a word of the language.
theorem spelled_uses (silent : ∀ name expression, statement ≠ getter name expression) :
    statement.spelled ⊆ statement.declared ++ statement.reads ++ (outer statement ++ scaffold) := by
  have word : "var".toList ∈ scaffold := by decide +kernel
  have key : "key".toList ∈ scaffold := by decide +kernel
  intro name found
  cases statement with
  | require index specifier =>
    simp only [spelled, List.mem_cons, List.not_mem_nil, or_false] at found
    rcases found with rfl | rfl | rfl
    · exact List.mem_append_right _ (List.mem_append_right _ word)
    · exact List.mem_append_left _ List.mem_cons_self
    · exact List.mem_append_right _ List.mem_cons_self
  | view index =>
    simp only [spelled, List.mem_cons, List.mem_replicate] at found
    rcases found with rfl | rfl | ⟨_, rfl⟩
    · exact List.mem_append_right _ word
    · exact List.mem_append_left _ List.mem_cons_self
    · exact List.mem_append_left _ (List.mem_append_right _ List.mem_cons_self)
  | declare bindings =>
    rw [spelled, List.mem_cons, List.mem_flatMap] at found
    rcases found with rfl | ⟨binding, among, part⟩
    · exact List.mem_append_right _ word
    · simp only [List.mem_cons, List.not_mem_nil, or_false] at part
      rcases part with rfl | rfl
      · exact List.mem_append_left _ (List.mem_append_left _ (List.mem_map_of_mem among))
      · exact List.mem_append_left _ (List.mem_append_right _ (List.mem_map.mpr ⟨binding, among, rfl⟩))
  | exportAll index =>
    have reads : dependencyVariable index ∈ (exportAll index).declared ++ (exportAll index).reads :=
      List.mem_append_right _ List.mem_cons_self
    simp only [spelled, List.mem_append, List.mem_cons, List.not_mem_nil, or_false] at found
    rcases found with ((rfl | rfl) | copies) | (rfl | rfl)
    · exact List.mem_append_right _ List.mem_cons_self
    · exact List.mem_append_left _ reads
    · exact List.mem_append_right _ (copiesWords_known copies)
    · exact List.mem_append_left _ reads
    · exact List.mem_append_right _ (List.mem_append_right _ key)
  | getter name expression => exact absurd rfl (silent name expression)

theorem render_require (index : Nat) (specifier : CodePoints) :
    (require index specifier).render = "var ".toList ++ (dependencyVariable index
      ++ (" = ".toList ++ ("require(".toList ++ (Literal.writeCodes specifier ++ ");".toList)))) := by
  have called : " = require(".toList = " = ".toList ++ "require(".toList := by decide
  have parts : (require index specifier).render = "var ".toList ++ dependencyVariable index
      ++ " = require(".toList ++ Literal.writeCodes specifier ++ ");".toList := by
    delta render
    rfl
  rw [parts, called]
  simp only [List.append_assoc]

theorem render_view (index : Nat) : ∃ rest,
    (view index).render = "var ".toList ++ (viewVariable index ++ (" = ".toList ++ rest)) := by
  delta render
  simp only [List.append_assoc]
  exact ⟨_, rfl⟩

theorem exportAll_head (index : Nat) : (exportAll index).render.head? = some 'O' := by
  delta render
  rfl

theorem getter_head (name expression : Text) : (getter name expression).render.head? = some 'O' := by
  delta render
  rfl

theorem bindingExpression_head (index : Nat) (imported : Imported) :
    (bindingExpression index imported).head? = some '_' := by
  cases imported <;> rfl

-- No other line is written like one that requires a specifier for this variable.
theorem render_eq_require (proper : statement.Proper)
    (same : statement.render = (require index specifier).render) :
    ∃ other, statement = require index other := by
  have equals : " = ".toList = [' ', '=', ' '] := by decide
  have behind : ∀ rest, Masking.NotName (" = ".toList ++ rest) := by
    intro rest c first
    rw [equals] at first
    cases first
    decide
  have dependency : ∀ place, Text.IsName (dependencyVariable place) := fun place =>
    isName_variable "__dep".toList place (by decide)
  have view_ : ∀ place, Text.IsName (viewVariable place) := fun place =>
    isName_variable "__mod".toList place (by decide)
  have called : "require(".toList = 'r' :: "equire(".toList := by decide
  have opens : "var ".toList = ['v', 'a', 'r', ' '] := by decide
  rw [render_require] at same
  cases statement with
  | require other found =>
    rw [render_require] at same
    have behindVar := List.append_cancel_left same
    have name := congrArg root behindVar
    rw [root_before (dependency other) (behind _), root_before (dependency index) (behind _)] at name
    cases dependencyVariable_injective name
    exact ⟨found, rfl⟩
  | view other =>
    obtain ⟨rest, written⟩ := render_view other
    rw [written] at same
    have name := congrArg root (List.append_cancel_left same)
    rw [root_before (view_ other) (behind _), root_before (dependency index) (behind _)] at name
    exact absurd name.symm (dependencyVariable_ne_viewVariable index other)
  | declare bindings =>
    obtain ⟨place, found, some_, named, rfl⟩ := proper
    obtain ⟨first, rest, rfl⟩ := List.exists_cons_of_ne_nil some_
    rw [render_declare, clause, List.append_assoc, List.append_assoc] at same
    have clauses := List.append_cancel_left same
    have name := congrArg root clauses
    rw [root_before (named first List.mem_cons_self) (behind _),
      root_before (dependency index) (behind _)] at name
    rw [name] at clauses
    -- What is required is called, what is imported is read from a variable.
    have reads := congrArg List.head? (List.append_cancel_left (List.append_cancel_left clauses))
    rw [List.head?_append, bindingExpression_head, called] at reads
    cases reads
  | exportAll other =>
    have head := exportAll_head other
    rw [same, opens] at head
    cases head
  | getter name expression =>
    have head := getter_head name expression
    rw [same, opens] at head
    cases head

end Statement

namespace Prologue

open Statement

variable {declarations front : List Declaration} {declaration : Declaration} {state : Imports}
  {localNames : List Text}

-- How an imported binding is read, by the place of its specifier.
inductive Access (specifiers : List CodePoints) (specifier : CodePoints) :
    Imported → Text → Prop where
  | «namespace» (place : specifiers[index]? = some specifier) :
    Access specifiers specifier .namespace (dependencyVariable index)
  | default (place : specifiers[index]? = some specifier) :
    Access specifiers specifier .default (viewVariable index ++ "[\"default\"]".toList)
  | named (place : specifiers[index]? = some specifier) :
    Access specifiers specifier (.named name)
      (dependencyVariable index ++ '[' :: Literal.write name ++ [']'])

theorem access_bindingExpression (imported : Imported) (place : specifiers[index]? = some specifier) :
    Access specifiers specifier imported (bindingExpression index imported) := by
  cases imported with
  | default => exact .default place
  | «namespace» => exact .namespace place
  | named name => exact .named place

theorem Access.mono (access : Access specifiers specifier imported expression) (more : specifiers <+: later) :
    Access later specifier imported expression := by
  obtain ⟨rest, rfl⟩ := more
  have kept : ∀ {index : Nat}, specifiers[index]? = some specifier →
      (specifiers ++ rest)[index]? = some specifier := by
    intro index place
    rwa [List.getElem?_append_left (List.getElem?_eq_some_iff.mp place).1]
  cases access with
  | «namespace» place => exact .namespace (kept place)
  | default place => exact .default (kept place)
  | named place => exact .named (kept place)

-- Whether an imported name is live: the module does not bind it, and it stands for no whole module.
def lively (localNames : List Text) (binding : ImportBinding) : Bool :=
  !(binding.imported = .namespace || localNames.contains binding.localName)

def putLive (live : LiveBindings) (bound : ImportBinding × Text) : LiveBindings :=
  Dictionary.put live bound.1.localName bound.2

-- The names that are live, given how each binding is read.
def liveThrough (localNames : List Text) (bound : List (ImportBinding × Text)) : LiveBindings :=
  (bound.filter fun binding => lively localNames binding.1).foldl putLive []

theorem liveThrough_append (localNames : List Text) (bound more : List (ImportBinding × Text)) :
    liveThrough localNames (bound ++ more)
      = (more.filter fun binding => lively localNames binding.1).foldl putLive (liveThrough localNames bound) := by
  rw [liveThrough, List.filter_append, List.foldl_append]
  rfl

theorem lookup_putLive {bound : List (ImportBinding × Text)} {live : LiveBindings}
    (distinct : (bound.map (·.1.localName)).Nodup)
    (unknown : ∀ binding ∈ bound, live.lookup binding.1.localName = none) :
    (bound.foldl putLive live).lookup name = some expression ↔
      live.lookup name = some expression ∨ ∃ binding ∈ bound, binding.1.localName = name ∧ binding.2 = expression := by
  induction bound generalizing live with
  | nil => simp
  | cons first rest ih =>
    obtain ⟨once, others⟩ := List.nodup_cons.mp distinct
    obtain ⟨here, later⟩ := List.forall_mem_cons.mp unknown
    have apart : ∀ binding ∈ rest, binding.1.localName ≠ first.1.localName := by
      intro binding among same
      exact once (List.mem_map.mpr ⟨binding, among, same⟩)
    have fresh : ∀ binding ∈ rest, (putLive live first).lookup binding.1.localName = none := by
      intro binding among
      rw [putLive, Dictionary.lookup_put, beq_false_of_ne (apart binding among)]
      exact later binding among
    rw [List.foldl_cons, ih others fresh, putLive, Dictionary.lookup_put, List.exists_mem_cons_iff]
    by_cases same : name = first.1.localName
    · subst same
      rw [beq_self_eq_true, here]
      simp
    · rw [beq_false_of_ne same]
      simp [Ne.symm same]

-- A name is live through the expression that its binding is read from.
theorem lookup_liveThrough {bound : List (ImportBinding × Text)}
    (distinct : (bound.map (·.1.localName)).Nodup) :
    (liveThrough localNames bound).lookup name = some expression ↔
      ∃ binding ∈ bound, binding.1.localName = name ∧ binding.2 = expression ∧
        binding.1.imported ≠ .namespace ∧ name ∉ localNames := by
  have fewer := (List.filter_sublist (p := fun binding => lively localNames binding.1) (l := bound)).map
    (·.1.localName)
  rw [liveThrough, lookup_putLive (distinct.sublist fewer) fun _ _ => rfl]
  simp only [List.lookup_nil, reduceCtorEq, false_or, List.mem_filter, lively]
  constructor
  · rintro ⟨binding, ⟨among, live⟩, rfl, rfl⟩
    simp at live
    exact ⟨binding, among, rfl, rfl, live.1, live.2⟩
  · rintro ⟨binding, among, rfl, rfl, single, free⟩
    exact ⟨binding, ⟨among, by simp [single, free]⟩, rfl, rfl⟩

-- What holds of a prologue when the declarations in front are done: `bound` tells for each binding, in
-- order, what it is read from.
structure Follows (localNames : List Text) (front : List Declaration) (bound : List (ImportBinding × Text))
    (state : Imports) : Prop where
  specifiers : state.dependencies = (front.filterMap Declaration.origin?).eraseDups
  reads : List.Forall₂ (fun (source : CodePoints × ImportBinding) (binding : ImportBinding × Text) =>
    binding.1 = source.2 ∧ Access state.dependencies source.1 binding.1.imported binding.2)
    (front.flatMap Declaration.importBindings) bound
  declarators : state.statements.flatMap Statement.declarators
    = bound.map fun binding => (binding.1.localName, binding.2)
  ungot : state.statements.flatMap Statement.gotten = []
  live : state.live = liveThrough localNames bound

theorem require_dependencies (imports : Imports) (specifier : CodePoints) :
    (imports.require specifier).1.dependencies
      = imports.dependencies ++ if specifier ∈ imports.dependencies then [] else [specifier] := by
  unfold Imports.require
  split
  · rename_i index known
    obtain ⟨inside, same, _⟩ := List.findIdx?_eq_some_iff_getElem.mp known
    rw [if_pos (eq_of_beq same ▸ List.getElem_mem inside), List.append_nil]
  · rename_i unknown
    have absent : specifier ∉ imports.dependencies := by
      intro member
      have missed := List.findIdx?_eq_none_iff.mp unknown specifier member
      simp at missed
    rw [if_neg absent]

-- A view of lines that shows nothing of those that introduce a variable of generated code.
structure Silent (part : Statement → List α) : Prop where
  require : ∀ index specifier, part (.require index specifier) = []
  view : ∀ index, part (.view index) = []

theorem declarators_silent : Silent Statement.declarators := ⟨fun _ _ => rfl, fun _ => rfl⟩

theorem gotten_silent : Silent Statement.gotten := ⟨fun _ _ => rfl, fun _ => rfl⟩

variable {part : Statement → List α}

theorem flatMap_concat (part : Statement → List α) (statements : List Statement) (statement : Statement) :
    (statements ++ [statement]).flatMap part = statements.flatMap part ++ part statement := by
  rw [List.flatMap_append, List.flatMap_singleton]

theorem require_silent (silent : Silent part) (imports : Imports) (specifier : CodePoints) :
    (imports.require specifier).1.statements.flatMap part = imports.statements.flatMap part ∧
      (imports.require specifier).1.live = imports.live := by
  unfold Imports.require
  split
  · exact ⟨rfl, rfl⟩
  · refine ⟨?_, rfl⟩
    rw [flatMap_concat, silent.require, List.append_nil]

theorem view_silent (silent : Silent part) (index : Nat) (imports : Imports) (binding : ImportBinding) :
    (imports.view index binding).statements.flatMap part = imports.statements.flatMap part ∧
      (imports.view index binding).live = imports.live := by
  unfold Imports.view
  split
  · refine ⟨?_, rfl⟩
    rw [flatMap_concat, silent.view, List.append_nil]
  · exact ⟨rfl, rfl⟩

-- What one binding of a declaration adds.
theorem bind_follows (silent : Silent part) (localNames : List Text) (index : Nat) (imports : Imports)
    (binding : ImportBinding) :
    (imports.bind localNames index binding).statements.flatMap part = imports.statements.flatMap part ∧
      (imports.bind localNames index binding).live
        = ([(binding, bindingExpression index binding.imported)].filter fun bound =>
            lively localNames bound.1).foldl putLive imports.live := by
  obtain ⟨parts, live⟩ := view_silent silent index imports binding
  rw [bind_eq]
  split
  · rename_i kept
    refine ⟨parts, live.trans ?_⟩
    rw [List.filter_cons_of_neg (by rw [lively, kept]; nofun)]
    rfl
  · rename_i free
    refine ⟨parts, ?_⟩
    rw [List.filter_cons_of_pos (by simpa [lively] using free), ← live]
    rfl

theorem binds_follow (silent : Silent part) (localNames : List Text) (index : Nat)
    (bindings : List ImportBinding) (imports : Imports) :
    (bindings.foldl (Imports.bind localNames index) imports).statements.flatMap part
        = imports.statements.flatMap part ∧
      (bindings.foldl (Imports.bind localNames index) imports).live
        = ((bindings.map fun binding => (binding,
          bindingExpression index binding.imported)).filter fun bound =>
            lively localNames bound.1).foldl putLive imports.live := by
  induction bindings generalizing imports with
  | nil => exact ⟨rfl, rfl⟩
  | cons binding rest ih =>
    obtain ⟨parts, live⟩ := bind_follows silent localNames index imports binding
    obtain ⟨others, lives⟩ := ih (imports.bind localNames index binding)
    refine ⟨others.trans parts, lives.trans ?_⟩
    rw [live, ← List.foldl_append, ← List.filter_append]
    rfl

theorem binds_dependencies (localNames : List Text) (index : Nat) (bindings : List ImportBinding)
    (imports : Imports) :
    (bindings.foldl (Imports.bind localNames index) imports).dependencies = imports.dependencies := by
  refine List.foldlRecOn bindings _ (motive := fun later : Imports => later.dependencies = imports.dependencies)
    rfl fun later kept binding _ => ?_
  rw [bind_eq, Imports.view, ← kept]
  split
  · split <;> rfl
  · split <;> rfl

theorem eraseDups_concat (known : List CodePoints) (specifier : CodePoints) :
    (known ++ [specifier]).eraseDups = known.eraseDups ++ if specifier ∈ known then [] else [specifier] := by
  rw [List.eraseDups_append, List.removeAll]
  by_cases repeated : specifier ∈ known
  · simp [repeated]
  · simp [repeated, List.eraseDups_cons]

-- A declaration without a specifier adds nothing.
theorem add_free (localNames : List Text) (imports : Imports) (free : declaration.origin? = none) :
    imports.add localNames declaration = imports ∧ declaration.importBindings = [] := by
  refine ⟨by rw [Imports.add, free], ?_⟩
  unfold Declaration.origin? at free
  unfold Declaration.importBindings
  split
  · rename_i specifier bindings meaning
    rw [meaning] at free
    cases free
  · rfl

theorem importBindings_origin (depends : declaration.origin? = some specifier) :
    ∀ source ∈ declaration.importBindings, source.1 = specifier := by
  unfold Declaration.origin? at depends
  unfold Declaration.importBindings
  split
  · rename_i other bindings meaning
    rw [meaning] at depends
    cases depends
    intro source among
    obtain ⟨_, _, rfl⟩ := List.mem_map.mp among
    rfl
  · nofun

-- Behind what requires its specifier, a declaration adds what it binds.
theorem add_bound (localNames : List Text) (imports : Imports) (depends : declaration.origin? = some specifier) :
    (imports.add localNames declaration).dependencies = (imports.require specifier).1.dependencies ∧
      (imports.add localNames declaration).statements.flatMap Statement.declarators
        = imports.statements.flatMap Statement.declarators
          ++ declaration.importBindings.map (fun source =>
            (source.2.localName, bindingExpression (imports.require specifier).2 source.2.imported)) ∧
      (imports.add localNames declaration).statements.flatMap Statement.gotten
        = imports.statements.flatMap Statement.gotten ∧
      (imports.add localNames declaration).live
        = ((declaration.importBindings.map fun source =>
            (source.2, bindingExpression (imports.require specifier).2 source.2.imported)).filter fun bound =>
              lively localNames bound.1).foldl putLive imports.live := by
  obtain ⟨declarators, live⟩ := require_silent declarators_silent imports specifier
  obtain ⟨gotten, _⟩ := require_silent gotten_silent imports specifier
  unfold Imports.add Declaration.importBindings
  rw [depends, ← declarators, ← gotten, ← live]
  obtain ⟨start, stop, meaning⟩ := declaration
  cases meaning with
  | imports other bindings =>
    have dependencies := binds_dependencies localNames (imports.require specifier).2 bindings
      (imports.require specifier).1
    obtain ⟨bound, lives⟩ := binds_follow declarators_silent localNames (imports.require specifier).2 bindings
      (imports.require specifier).1
    obtain ⟨others, _⟩ := binds_follow gotten_silent localNames (imports.require specifier).2 bindings
      (imports.require specifier).1
    cases bindings with
    | nil => exact ⟨rfl, (List.append_nil _).symm, rfl, rfl⟩
    | cons first rest =>
      rw [List.map_map, List.map_map]
      refine ⟨dependencies, ?_, ?_, lives⟩
      · rw [← bound]
        exact flatMap_concat _ _ _
      · exact (flatMap_concat _ _ _).trans ((List.append_nil _).trans others)
  | reexportsAll other =>
    exact ⟨rfl, flatMap_concat _ _ _, (flatMap_concat _ _ _).trans (List.append_nil _), rfl⟩
  | reexports | reexportsNamespace | assignsDefault | exportsLocal | exportsVariables | exportsNames =>
    exact ⟨rfl, (List.append_nil _).symm, rfl, rfl⟩

theorem add_kept (follows : Follows localNames front bound state) (declaration : Declaration) :
    ∃ more, Follows localNames (front ++ [declaration]) (bound ++ more) (state.add localNames declaration) := by
  cases depends : declaration.origin? with
  | none =>
    obtain ⟨same, nothing⟩ := add_free localNames state depends
    refine ⟨[], ?_⟩
    rw [same, List.append_nil]
    refine ⟨?_, ?_, follows.declarators, follows.ungot, follows.live⟩
    · rw [follows.specifiers, List.filterMap_append, List.filterMap_cons_none depends]
      exact congrArg _ (List.append_nil _).symm
    · rw [List.flatMap_append, List.flatMap_singleton, nothing, List.append_nil]
      exact follows.reads
  | some specifier =>
    obtain ⟨dependencies, declarators, gotten, live⟩ := add_bound localNames state depends
    have extended := add_extends localNames state declaration
    have place := (add_extends_require localNames state depends).place (require_place state specifier)
    refine ⟨declaration.importBindings.map fun source =>
      (source.2, bindingExpression (state.require specifier).2 source.2.imported), ?_⟩
    refine ⟨?_, ?_, ?_, gotten.trans follows.ungot, ?_⟩
    · have known : specifier ∈ state.dependencies ↔ specifier ∈ front.filterMap Declaration.origin? := by
        rw [follows.specifiers, List.mem_eraseDups]
      rw [dependencies, require_dependencies, List.filterMap_append, List.filterMap_cons_some depends,
        List.filterMap_nil, eraseDups_concat, ← follows.specifiers]
      simp only [known]
    · rw [List.flatMap_append, List.flatMap_singleton]
      refine List.rel_append (follows.reads.imp fun _ _ kept => ?_) ?_
      · exact ⟨kept.1, kept.2.mono extended.dependencies⟩
      · rw [List.forall₂_map_right_iff, List.forall₂_same]
        intro source among
        refine ⟨rfl, ?_⟩
        rw [importBindings_origin depends source among]
        exact access_bindingExpression source.2.imported place
    · rw [declarators, follows.declarators, List.map_append, List.map_map]
      rfl
    · rw [live, follows.live, liveThrough_append]

theorem imports_follow (localNames : List Text) (declarations : List Declaration) :
    ∃ bound, Follows localNames declarations bound (imports localNames declarations) := by
  suffices run : ∀ rest front bound state, Follows localNames front bound state →
      ∃ all, Follows localNames (front ++ rest) all (rest.foldl (Imports.add localNames) state) from
    run declarations [] [] {} ⟨rfl, .nil, rfl, rfl, rfl⟩
  intro rest
  induction rest with
  | nil =>
    intro front bound state follows
    exact ⟨bound, by rwa [List.append_nil]⟩
  | cons declaration rest ih =>
    intro front bound state follows
    obtain ⟨more, added⟩ := add_kept follows declaration
    obtain ⟨all, done⟩ := ih _ _ _ added
    rw [List.append_assoc] at done
    exact ⟨all, done⟩

-- The imports of a module in its prologue. `bound` tells for each binding, in order, what it is read from.
structure Introduces (localNames : List Text) (declarations : List Declaration)
    (bound : List (ImportBinding × Text)) (imports : Imports) : Prop where
  specifiers : imports.dependencies = (declarations.filterMap Declaration.origin?).eraseDups
  distinct : imports.dependencies.Nodup
  requires : required imports.statements = numbered imports.dependencies
  ordered : Scoped imports.statements
  once : (introduced imports.statements).Nodup
  uses : ∀ statement ∈ imports.statements,
    statement.spelled ⊆ statement.declared ++ statement.reads ++ (outer statement ++ scaffold)
  declared : (imports.statements.flatMap Statement.declared).Perm
    (introduced imports.statements ++ bound.map (·.1.localName))
  -- Nothing keeps an import from taking the name of such a variable.
  single : ∀ name ∈ introduced imports.statements,
    (imports.statements.flatMap Statement.declared).count name = 1 ↔
      ∀ binding ∈ bound, binding.1.localName ≠ name
  reads : List.Forall₂ (fun (source : CodePoints × ImportBinding) (binding : ImportBinding × Text) =>
    binding.1 = source.2 ∧ Access imports.dependencies source.1 binding.1.imported binding.2)
    (declarations.flatMap Declaration.importBindings) bound
  declarators : imports.statements.flatMap Statement.declarators
    = bound.map fun binding => (binding.1.localName, binding.2)
  ungot : imports.statements.flatMap Statement.gotten = []
  live : (bound.map (·.1.localName)).Nodup → ∀ name expression,
    imports.live.lookup name = some expression ↔ ∃ binding ∈ bound, binding.1.localName = name ∧
      binding.2 = expression ∧ binding.1.imported ≠ .namespace ∧ name ∉ localNames

theorem declared_perm (statements : List Statement) : (statements.flatMap Statement.declared).Perm
    (introduced statements ++ (statements.flatMap Statement.declarators).map Prod.fst) := by
  have parts := (List.flatMap_append_perm statements (fun statement => statement.introduced?.toList)
    fun statement => statement.declarators.map Prod.fst).symm
  rwa [← List.filterMap_eq_flatMap_toList, ← List.map_flatMap] at parts

theorem imports_introduces (localNames : List Text) (declarations : List Declaration) :
    ∃ bound, Introduces localNames declarations bound (imports localNames declarations) := by
  obtain ⟨bound, follows⟩ := imports_follow localNames declarations
  have built := imports_built localNames declarations
  have requires := imports_requires localNames declarations
  have perm := declared_perm (imports localNames declarations).statements
  rw [follows.declarators, List.map_map] at perm
  refine ⟨bound, ⟨follows.specifiers, requires.distinct, requires.each, built.ordered,
    built.distinct, ?_, perm,
    ?_, follows.reads, follows.declarators, follows.ungot, ?_⟩⟩
  · intro statement among
    refine spelled_uses fun name expression same => ?_
    have none := List.flatMap_eq_nil_iff.mp follows.ungot statement among
    rw [same] at none
    cases none
  · intro name among
    rw [perm.count_eq, List.count_append, List.count_eq_one_of_mem built.distinct among,
      Nat.add_eq_left, List.count_eq_zero, List.mem_map, not_exists]
    exact forall_congr' fun binding => not_and
  · intro distinct name expression
    rw [follows.live]
    exact lookup_liveThrough distinct

theorem numbered_nodup (specifiers : List CodePoints) : (numbered specifiers).Nodup := by
  have indices : (numbered specifiers).map Prod.fst = List.range' 0 specifiers.length := by
    rw [numbered, List.map_map]
    exact List.zipIdx_map_snd 0 specifiers
  have distinct : ((numbered specifiers).map Prod.fst).Nodup := indices ▸ List.nodup_range'
  exact distinct.of_map Prod.fst

-- What is required is required in one line.
theorem count_require {hasExports : Bool} {statements : List Statement} {specifiers : List CodePoints}
    (proper : ∀ statement ∈ statements, statement.Proper) (requires : required statements = numbered specifiers)
    (place : specifiers[index]? = some specifier) :
    (prologueLines hasExports statements).count (require index specifier).render = 1 := by
  have opens : "var ".toList = ['v', 'a', 'r', ' '] := by decide
  have single : (required statements).count (index, specifier) = 1 := by
    rw [requires]
    exact List.count_eq_one_of_mem (numbered_nodup specifiers) (mem_numbered.mpr place)
  have lines : (statements.map Statement.render).count (require index specifier).render
      = (required statements).count (index, specifier) := by
    rw [required, List.count_filterMap, List.count, List.countP_map]
    refine List.countP_congr fun statement among => ?_
    rw [Function.comp_apply, beq_iff_eq, beq_iff_eq]
    constructor
    · intro same
      obtain ⟨other, rfl⟩ := Statement.render_eq_require (proper statement among) same
      have required_ : (index, other) ∈ required statements := List.mem_filterMap.mpr ⟨_, among, rfl⟩
      rw [requires, mem_numbered] at required_
      cases place.symm.trans required_
      rfl
    · intro found
      cases statement with
      | require other text =>
        cases found
        rfl
      | view | declare | exportAll | getter => cases found
  have apart : ∀ line, line.head? ≠ some 'v' → ([line].count (require index specifier).render) = 0 := by
    intro line other
    refine List.count_eq_zero.mpr fun among => other ?_
    rw [← List.mem_singleton.mp among, render_require, opens]
    rfl
  have marker : (if hasExports then [markerLine] else []).count (require index specifier).render = 0 := by
    cases hasExports with
    | false => rfl
    | true => exact apart markerLine (by decide)
  rw [prologueLines, List.count_append, List.count_append, apart strictLine (by decide), marker,
    lines, single]

end Prologue

namespace Rewriting

open Prologue

-- All lines of a prologue.
def Analysis.lines (analysis : Analysis) : List Text :=
  prologueLines (hasExports analysis.declarations) analysis.statements

variable {source : Text} {analysis : Analysis}

-- The prologue of an accepted source requires its specifiers, each once and in order, and introduces its
-- imports.
theorem imports_introduced (analyzed : analyzeSource source = .ok analysis) :
    ∃ parsed items bound, Syntax.parse (Masking.mask source) = .ok parsed ∧
      parsed.items.mapM sibling = .ok items ∧ analysis.declarations = declarations items ∧
      (analysis.declarations = [] → transpile source = .ok ⟨⟨[]⟩, source⟩) ∧
      (analysis.declarations ≠ [] → transpile source = .ok ⟨
        ⟨analysis.imports.dependencies⟩,
        Text.joinWith ['\n'] analysis.lines ++ '\n' :: replaced (analysis.spans source) 0 source⟩) ∧
      (∀ index specifier, analysis.imports.dependencies[index]? = some specifier →
        analysis.lines.count (Statement.require index specifier).render = 1) ∧
      Introduces (Sibling.localNames items) analysis.declarations bound analysis.imports := by
  obtain ⟨parsed, parses, meant⟩ := analyzeSource_parts analyzed
  obtain ⟨items, read, found, imports, _⟩ := analyze_parts meant
  obtain ⟨bound, introduces⟩ := imports_introduces (Sibling.localNames items) analysis.declarations
  rw [← imports] at introduces
  obtain ⟨_, requires⟩ := Analysis.requires analyzed
  refine ⟨parsed, items, bound, parses, read, found, ?_, transpile_declared analyzed, ?_, introduces⟩
  · intro none
    rw [transpile, analyzed]
    exact congrArg Except.ok (by rw [Analysis.transpiled, none])
  · intro index specifier place
    exact count_require (statements_proper analyzed) requires place

-- A default, named and namespace imports, a specifier that comes back, and a name that is bound again.
def prologueSource : Text :=
  "import d,\x7bx as y,z\x7d from'./a';import*as n from'./b';import\x7be\x7dfrom'./a';export*from'./c';z=>y;".toList

def prologueStatements : List Statement :=
  [.require 0 "./a".toList, .view 0,
    .declare [("d".toList, "__mod0[\"default\"]".toList), ("y".toList, "__dep0[\"x\"]".toList),
      ("z".toList, "__dep0[\"z\"]".toList)],
    .require 1 "./b".toList, .declare [("n".toList, "__dep1".toList)],
    .declare [("e".toList, "__dep0[\"e\"]".toList)],
    .require 2 "./c".toList, .exportAll 2]

def prologueLive : LiveBindings :=
  [("d".toList, "__mod0[\"default\"]".toList), ("y".toList, "__dep0[\"x\"]".toList), ("e".toList,
    "__dep0[\"e\"]".toList)]

theorem prologue_introduced : ∃ analysis items bound, analyzeSource prologueSource = .ok analysis ∧
    analysis.declarations = declarations items ∧ analysis.imports.statements = prologueStatements ∧
    analysis.imports.live = prologueLive ∧
    Introduces (Sibling.localNames items) analysis.declarations bound analysis.imports := by
  have found : (analyzeSource prologueSource).toOption.map (fun analysis =>
      (analysis.imports.statements, analysis.imports.live)) = some (prologueStatements, prologueLive) := by
    unfold prologueSource prologueStatements prologueLive
    repeat rw [String.toList_ofList]
    decide +kernel
  obtain ⟨analysis, analyzed, shown⟩ := ok_of_toOption_map found
  obtain ⟨statements, live⟩ := Prod.mk.inj shown
  obtain ⟨_, items, bound, _, _, declared, _, _, _, introduces⟩ := imports_introduced analyzed
  exact ⟨analysis, items, bound, analyzed, declared, statements, live, introduces⟩

-- An import takes the name of the view that a default import in front of it is read from.
def viewedSource : Text := "import d from './a';import\x7b__mod0\x7dfrom'./a';d();".toList

def viewedStatements : List Statement :=
  [.require 0 "./a".toList, .view 0, .declare [("d".toList, "__mod0[\"default\"]".toList)],
    .declare [("__mod0".toList, "__dep0[\"__mod0\"]".toList)]]

def viewedCode : Text :=
  ("\"use strict\";\nvar __dep0 = require(\"./a\");\n"
    ++ "var __mod0 = __dep0 && __dep0.__esModule ? __dep0 : \x7b \"default\": __dep0 \x7d;\n"
    ++ "var d = __mod0[\"default\"];\nvar __mod0 = __dep0[\"__mod0\"];\n"
    ++ "__mod0[\"default\"]();").toList

theorem viewed_twice : ∃ analysis, analyzeSource viewedSource = .ok analysis ∧
    transpile viewedSource = .ok ⟨["./a".toList], viewedCode⟩ ∧
    analysis.imports.statements = viewedStatements ∧
    "__mod0".toList ∈ introduced analysis.imports.statements ∧
    (analysis.imports.statements.flatMap Statement.declared).count "__mod0".toList = 2 := by
  have found : (analyzeSource viewedSource).toOption.map (fun analysis =>
      (analysis.declarations.isEmpty, analysis.imports.dependencies, analysis.imports.statements,
        analysis.prologue ++ '\n' :: replaced (analysis.spans viewedSource) 0 viewedSource))
      = some (false, [CodePoints.ofText "./a".toList], viewedStatements, viewedCode) := by
    unfold viewedSource viewedStatements viewedCode
    simp only [String.toList_append]
    repeat rw [String.toList_ofList]
    decide +kernel
  obtain ⟨analysis, analyzed, shown⟩ := ok_of_toOption_map found
  simp only [Prod.mk.injEq, List.isEmpty_eq_false_iff] at shown
  obtain ⟨declares, dependencies, statements, code⟩ := shown
  refine ⟨analysis, analyzed, ?_, statements, ?_⟩
  · rw [transpile_declared analyzed declares, dependencies, code]
    rfl
  · rw [statements]
    decide +kernel

end Rewriting
end ModuleBundler

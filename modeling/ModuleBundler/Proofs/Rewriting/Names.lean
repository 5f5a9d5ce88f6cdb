import ModuleBundler.Proofs.Rewriting.Binders
import ModuleBundler.Proofs.Rewriting.Passthrough
import ModuleBundler.Proofs.Rewriting.Prologue
import ModuleBundler.Proofs.Syntax.Named

/-!
What the lines of a prologue are made of: the names that code binds stand in it and were read as names,
and every expression that a line holds reads an imported binding or is such a name.
-/
namespace ModuleBundler

namespace Node

-- The name is the text of a token among these that was read as a name.
def Stands (tokens : List Token) (name : Text) : Prop :=
  ∃ token ∈ tokens, token.isName = true ∧ token.text = name

theorem Stands.mono {part whole : List Token} (stands : Stands part name) (subset : part ⊆ whole) :
    Stands whole name := by
  obtain ⟨token, member, named, spelled⟩ := stands
  exact ⟨token, subset member, named, spelled⟩

theorem mem_splitOnP {elements part : List α} {separates : α → Bool}
    (found : part ∈ elements.splitOnP separates) : part ⊆ elements := by
  induction elements generalizing part with
  | nil =>
    cases List.mem_singleton.mp found
    exact List.nil_subset _
  | cons element elements ih =>
    rw [List.splitOnP_cons_eq_if_modifyHead] at found
    split at found
    · rcases List.mem_cons.mp found with rfl | later
      · exact List.nil_subset _
      · exact List.subset_cons_of_subset _ (ih later)
    · obtain ⟨head, tail, split⟩ := List.exists_cons_of_ne_nil (List.splitOnP_ne_nil separates elements)
      rw [split, List.modifyHead_cons] at found
      rcases List.mem_cons.mp found with rfl | later
      · exact List.cons_subset_cons _ (ih (split ▸ List.mem_cons_self))
      · exact List.subset_cons_of_subset _ (ih (split ▸ List.mem_cons_of_mem _ later))

theorem mem_partsBetween {elements part : List α} {separates : α → Bool}
    (found : part ∈ partsBetween separates elements) : part ⊆ elements := by
  rw [partsBetween_eq, List.mem_filter] at found
  exact mem_splitOnP found.1

theorem mem_elementNames {element : List Bound} (found : name ∈ elementNames bracket element) :
    ∃ bound ∈ element, name ∈ bound.2 := by
  cases element with
  | nil => simp [elementNames] at found
  | cons first rest =>
    unfold elementNames at found
    dsimp only at found
    split at found
    · rename_i target behind same
      split at found
      · cases found
      · refine ⟨target, ?_, found⟩
        -- The target stands behind a colon or a rest mark, or comes first.
        have member : target ∈ target :: behind := List.mem_cons_self
        have behindMark : (if first.1.isPunctuator "..." then rest else first :: rest) ⊆ first :: rest := by
          split
          · exact List.subset_cons_self _ _
          · exact List.Subset.refl _
        rw [← same] at member
        refine behindMark ?_
        split at member
        · split at member
          · rename_i dropped
            exact (List.dropWhile_suffix _).mem (dropped ▸ List.mem_cons_of_mem _ member)
          · exact member
        · exact member
    · cases found

mutual
-- A pattern binds names that stand in it.
theorem boundNames_stand : (node : Node) → ∀ name ∈ node.boundNames, Stands node.tokens name
  | .leaf token => by
    intro name found
    rw [boundNames] at found
    split at found
    · rename_i named
      exact ⟨token, by simp, named, (List.mem_singleton.mp found).symm⟩
    · cases found
  | .group bracket children => by
    intro name found
    rw [boundNames] at found
    obtain ⟨part, parted, inPart⟩ := List.mem_flatMap.mp found
    obtain ⟨bound, member, binds⟩ := mem_elementNames inPart
    have inner := mem_partsBetween parted member
    have child := List.mem_of_mem_drop (List.dropLast_subset _ inner)
    rw [tokens_group]
    exact eachBound_stand children bound child name binds

theorem eachBound_stand : (nodes : List Node) → ∀ bound ∈ eachBound nodes, ∀ name ∈ bound.2,
    Stands (nodes.flatMap tokens) name
  | [] => nofun
  | node :: nodes => by
    intro bound member name binds
    rw [List.flatMap_cons]
    rcases List.mem_cons.mp member with rfl | later
    · exact (boundNames_stand node name binds).mono (List.subset_append_left _ _)
    · exact (eachBound_stand nodes bound later name binds).mono (List.subset_append_right _ _)
end

end Node

namespace Sibling

-- A declarator list binds names that stand in the code behind it.
theorem trailingNames_bound (previous : Option Sibling) (afterComma : Bool) (items : List Sibling) :
    ∀ name ∈ trailingNames previous afterComma items, ∃ item ∈ items, name ∈ item.boundNames := by
  fun_induction trailingNames previous afterComma items with
  | case1 | case2 | case3 => nofun
  | case4 previous item rest _ goesOn ih =>
    intro name found
    rcases List.mem_append.mp found with here | later
    · exact ⟨item, List.mem_cons_self, here⟩
    · obtain ⟨item, member, binds⟩ := ih name later
      exact ⟨item, List.mem_cons_of_mem _ member, binds⟩
  | case5 previous afterComma item rest _ goesOn _ ih =>
    intro name found
    obtain ⟨item, member, binds⟩ := ih name found
    exact ⟨item, List.mem_cons_of_mem _ member, binds⟩

end Sibling

-- The names that a module gives to what it imports, declares and exports.
def Meaning.localNames : Meaning → List Text
  | .imports _ bindings => bindings.map ImportBinding.localName
  | .exportsLocal _ localName _ => [localName]
  | .exportsVariables names => names
  | .exportsNames bindings => bindings.map Prod.snd
  | .assignsDefault _ _ | .reexports _ _ | .reexportsAll _ | .reexportsNamespace _ _ => []

def Meaning.Named (meaning : Meaning) : Prop := ∀ name ∈ meaning.localNames, Text.IsName name

def Sibling.Named : Sibling → Prop
  | .node code => ∀ name ∈ code.boundNames, Text.IsName name
  | .importExpression _ => True
  | .declaration found => found.meaning.Named

namespace Syntax

theorem names_named {specifier : Specifier} (named : AllNamed specifier.nameTokens) :
    Text.IsName specifier.names.1 ∧ Text.IsName specifier.names.2 := by
  obtain ⟨name, rename⟩ := specifier
  have own := named name List.mem_cons_self
  cases rename with
  | none => exact ⟨own, own⟩
  | some rename => exact ⟨own, named rename.name (List.mem_cons_of_mem _ List.mem_cons_self)⟩

theorem entry_named {entries : List Entry} (named : AllNamed (entryNames entries)) :
    ∀ entry ∈ entries, AllNamed entry.specifier.nameTokens :=
  fun _ member token among => named token (List.mem_flatMap.mpr ⟨_, member, among⟩)

theorem imports_named {list : SpecifierList} (named : AllNamed (entryNames list.entries)) :
    ∀ binding ∈ list.imports, Text.IsName binding.localName := by
  intro binding member
  obtain ⟨entry, among, rfl⟩ := List.mem_map.mp member
  exact (names_named (entry_named named entry among)).2

theorem head_named {head : Option DefaultHead} (named : AllNamed (headNames head)) :
    ∀ binding ∈ DefaultHead.imports head, Text.IsName binding.localName := by
  cases head with
  | none => nofun
  | some head =>
    intro binding member
    cases List.mem_singleton.mp member
    exact named head.name List.mem_cons_self

theorem clause_named {clause : ImportClause} (named : AllNamed clause.nameTokens) :
    ∀ binding ∈ clause.bindings, Text.IsName binding.localName := by
  cases clause with
  | defaultOnly name =>
    intro binding member
    cases List.mem_singleton.mp member
    exact named name List.mem_cons_self
  | «namespace» head star asWord name =>
    obtain ⟨heads, own⟩ := (allNamed_append _ _).mp named
    intro binding member
    rcases List.mem_append.mp member with before | here
    · exact head_named heads binding before
    · cases List.mem_singleton.mp here
      exact own name List.mem_cons_self
  | named head list =>
    obtain ⟨heads, own⟩ := (allNamed_append _ _).mp named
    intro binding member
    rcases List.mem_append.mp member with before | here
    · exact head_named heads binding before
    · exact imports_named own binding here

theorem node_named {node : Node} (reads : ∀ token ∈ node.tokens, Names token) :
    ∀ name ∈ node.boundNames, Text.IsName name := by
  intro name found
  obtain ⟨token, member, named, rfl⟩ := Node.boundNames_stand node name found
  exact reads token member (.inl (by simpa [Token.isName] using named))

end Syntax

namespace Rewriting

open Syntax

theorem exportMeaning_named (named : AllNamed body.nameTokens)
    (reads : ∀ token ∈ body.tokens, Names token) (read : exportMeaning body = .ok meaning) :
    meaning.Named := by
  cases body with
  | default word target =>
    cases read
    cases target with
    | namedFunction _ name | namedClass _ name =>
      intro text member
      cases List.mem_singleton.mp member
      exact named name List.mem_cons_self
    | _ => nofun
  | function head name | «class» classWord name =>
    cases read
    intro text member
    cases List.mem_singleton.mp member
    exact named name List.mem_cons_self
  | «variable» kind binding =>
    cases read
    exact node_named fun token member => reads token (List.mem_cons_of_mem _ member)
  | names list =>
    cases read
    intro text member
    obtain ⟨pair, paired, rfl⟩ := List.mem_map.mp member
    obtain ⟨entry, among, rfl⟩ := List.mem_map.mp paired
    exact (names_named (entry_named named entry among)).1
  | namesFrom list fromWord source | all star fromWord source
  | «namespace» star asWord name fromWord source =>
    obtain ⟨text, value, same⟩ := ok_of_bind read
    cases same
    nofun

theorem sibling_named (named : AllNamed item.nameTokens) (reads : ∀ token ∈ item.tokens, Names token)
    (read : sibling item = .ok found) : found.Named := by
  cases item with
  | node node =>
    cases read
    exact node_named reads
  | importCall word arguments | importMeta word dot name =>
    cases read
    trivial
  | importBare word source =>
    obtain ⟨text, value, same⟩ := ok_of_bind read
    cases same
    nofun
  | importFrom word clause fromWord source =>
    obtain ⟨text, value, same⟩ := ok_of_bind read
    cases same
    intro name member
    obtain ⟨binding, among, rfl⟩ := List.mem_map.mp member
    exact clause_named named binding among
  | «export» word body =>
    obtain ⟨meaning, value, same⟩ := ok_of_bind read
    cases same
    refine exportMeaning_named named (fun token member => reads token ?_) value
    rw [Item.tokens_export]
    exact List.mem_cons_of_mem _ member

theorem complete_named (own : declaration.meaning.Named)
    (behind : ∀ item ∈ rest, Sibling.Named item) : (complete declaration rest).meaning.Named := by
  unfold complete
  dsimp only
  split
  · rename_i names same
    rw [same] at own
    intro name member
    rcases List.mem_append.mp member with first | later
    · exact own name first
    · obtain ⟨item, among, binds⟩ := Sibling.trailingNames_bound none false rest name later
      have itemNamed := behind item among
      cases item with
      | node code => exact itemNamed name binds
      | importExpression | declaration => cases binds
  · exact own

theorem declarations_named {items : List Sibling} (named : ∀ item ∈ items, Sibling.Named item) :
    ∀ declaration ∈ declarations items, declaration.meaning.Named := by
  fun_induction declarations items with
  | case1 => nofun
  | case2 declaration rest ih =>
    obtain ⟨own, behind⟩ := List.forall_mem_cons.mp named
    exact List.forall_mem_cons.mpr ⟨complete_named own behind, ih behind⟩
  | case3 item rest _ ih => exact ih (List.forall_mem_cons.mp named).2

end Rewriting

namespace Prologue

open Statement

def AllProper (statements : List Statement) : Prop := ∀ statement ∈ statements, statement.Proper

theorem AllProper.push (proper : AllProper statements) (own : statement.Proper) :
    AllProper (statements ++ [statement]) :=
  List.forall_mem_append.mpr ⟨proper, fun _ member => List.mem_singleton.mp member ▸ own⟩

theorem require_proper (imports : Imports) (specifier : CodePoints) (proper : AllProper imports.statements) :
    AllProper (imports.require specifier).1.statements := by
  unfold Imports.require
  split
  · exact proper
  · exact proper.push trivial

theorem bind_proper (localNames : List Text) (index : Nat) (imports : Imports)
    (binding : ImportBinding) (proper : AllProper imports.statements) :
    AllProper (imports.bind localNames index binding).statements := by
  unfold Imports.bind
  dsimp only
  split
  · split
    · exact proper.push trivial
    · exact proper
  · split
    · exact proper.push trivial
    · exact proper

theorem add_proper (localNames : List Text) (imports : Imports) (declaration : Declaration)
    (named : declaration.meaning.Named) (proper : AllProper imports.statements) :
    AllProper (imports.add localNames declaration).statements := by
  unfold Imports.add
  split
  · exact proper
  · rename_i specifier _
    have required := require_proper imports specifier proper
    dsimp only
    split
    · exact required
    · rename_i specifier' bindings some_ meaning
      have bound := List.foldlRecOn bindings (Imports.bind localNames (imports.require specifier).2)
        (motive := fun imports : Imports => AllProper imports.statements) required
        fun _ kept binding _ => bind_proper localNames _ _ binding kept
      refine bound.push ⟨_, bindings, ?_, ?_, rfl⟩
      · rintro rfl
        exact some_ rfl
      · intro binding member
        rw [meaning] at named
        exact named _ (List.mem_map_of_mem member)
    · exact required.push trivial
    · exact required

theorem imports_proper (localNames : List Text) (declarations : List Declaration)
    (named : ∀ declaration ∈ declarations, declaration.meaning.Named) :
    AllProper (imports localNames declarations).statements := by
  have start : AllProper [] := nofun
  exact List.foldlRecOn declarations _ (motive := fun imports : Imports => AllProper imports.statements)
    start fun _ kept declaration member => add_proper localNames _ declaration (named declaration member) kept

-- A getter reads an imported binding or names something that the module declares.
theorem exports_proper {imports : Imports} (reads : Reads imports.live) (named : declaration.meaning.Named)
    (exported : (name, some expression) ∈ exports imports declaration) :
    (Statement.getter name expression).Proper := by
  have live : ∀ localName, Text.IsName localName →
      (Statement.getter name ((imports.live.lookup localName).getD localName)).Proper := by
    intro localName isName
    cases looked : imports.live.lookup localName with
    | none => exact .inr isName
    | some expression => exact .inl (reads localName expression looked)
  unfold exports at exported
  dsimp only at exported
  unfold Meaning.Named at named
  split at exported
  · cases exported
  · cases exported
  · rename_i meaning
    cases List.mem_singleton.mp exported
  · rename_i meaning
    rw [meaning] at named
    cases List.mem_singleton.mp exported
    exact live _ (named _ List.mem_cons_self)
  · rename_i names meaning
    rw [meaning] at named
    obtain ⟨localName, member, same⟩ := List.mem_map.mp exported
    cases same
    exact live _ (named _ member)
  · rename_i bindings meaning
    rw [meaning] at named
    obtain ⟨binding, member, same⟩ := List.mem_map.mp exported
    cases same
    exact live _ (named _ (List.mem_map_of_mem member))
  · obtain ⟨binding, member, same⟩ := List.mem_map.mp exported
    cases same
    exact .inl ⟨_, .named binding.2, rfl⟩
  · cases List.mem_singleton.mp exported
    exact .inl ⟨_, .namespace, rfl⟩

end Prologue

namespace Rewriting

open Syntax

theorem siblings_named {items : List Item} (read : items.mapM sibling = .ok siblings)
    (named : ∀ item ∈ items, AllNamed item.nameTokens)
    (reads : ∀ item ∈ items, ∀ token ∈ item.tokens, Names token) :
    ∀ found ∈ siblings, Sibling.Named found := by
  have each := forall₂_of_mapM read
  clear read
  induction each with
  | nil => nofun
  | cons here _ ih =>
    obtain ⟨ownNamed, behindNamed⟩ := List.forall_mem_cons.mp named
    obtain ⟨ownReads, behindReads⟩ := List.forall_mem_cons.mp reads
    exact List.forall_mem_cons.mpr
      ⟨sibling_named ownNamed ownReads here, ih behindNamed behindReads⟩

theorem meanings_named (analyzed : analyzeSource source = .ok analysis) :
    ∀ declaration ∈ analysis.declarations, declaration.meaning.Named := by
  obtain ⟨parsed, accepted, meant⟩ := analyzeSource_parts analyzed
  obtain ⟨items, read, found, _⟩ := analyze_parts meant
  have laid := parse_laid accepted
  have siblings := siblings_named read (parse_named accepted) fun item member token among =>
    (laid.cut token (List.mem_flatMap.mpr ⟨item, member, among⟩)).named
  rw [found]
  exact declarations_named siblings

-- Every line of the prologue of a module is made of proper parts.
theorem statements_proper (analyzed : analyzeSource source = .ok analysis) :
    Prologue.AllProper (analysis.getters ++ analysis.imports.statements) := by
  obtain ⟨parsed, accepted, meant⟩ := analyzeSource_parts analyzed
  obtain ⟨items, _, _, imports, getters, _⟩ := analyze_parts meant
  have named := meanings_named analyzed
  refine List.forall_mem_append.mpr ⟨?_, ?_⟩
  · rw [getters]
    intro statement member
    obtain ⟨⟨name, expression?⟩, exported, some_⟩ := List.mem_filterMap.mp member
    obtain ⟨declaration, among, exports⟩ := List.mem_flatMap.mp exported
    obtain ⟨expression, rfl, rfl⟩ := Option.map_eq_some_iff.mp some_
    have reads : Prologue.Reads analysis.imports.live := imports ▸ Prologue.imports_reads _ _
    exact Prologue.exports_proper reads (named declaration among) exports
  · rw [imports]
    exact Prologue.imports_proper _ _ named

end Rewriting
end ModuleBundler

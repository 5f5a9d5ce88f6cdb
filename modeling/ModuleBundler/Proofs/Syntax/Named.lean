import ModuleBundler.Proofs.Syntax.Tokens

/-!
The names in the declarations of a parsed module are names: each was read as one, or as a keyword that
stands for one.
-/
namespace ModuleBundler.Syntax

def Specifier.nameTokens (specifier : Specifier) : List Token :=
  specifier.name :: (specifier.rename.map Rename.name).toList

def entryNames (entries : List Entry) : List Token := entries.flatMap fun entry => entry.specifier.nameTokens

def headNames (head : Option DefaultHead) : List Token := (head.map DefaultHead.name).toList

def ImportClause.nameTokens : ImportClause → List Token
  | .defaultOnly name => [name]
  | .namespace head _ _ name => headNames head ++ [name]
  | .named head list => headNames head ++ entryNames list.entries

def DefaultTarget.nameTokens : DefaultTarget → List Token
  | .namedFunction _ name | .namedClass _ name => [name]
  | _ => []

def ExportBody.nameTokens : ExportBody → List Token
  | .default _ target => target.nameTokens
  | .function _ name | .class _ name | .namespace _ _ name _ _ => [name]
  | .names list | .namesFrom list _ _ => entryNames list.entries
  | .variable _ _ | .all _ _ _ => []

def Item.nameTokens : Item → List Token
  | .importFrom _ clause _ _ => clause.nameTokens
  | .export _ body => body.nameTokens
  | _ => []

def SpecifierStage.nameTokens : SpecifierStage → List Token
  | .fresh => []
  | .named name | .renaming name _ => [name]
  | .renamed specifier => specifier.nameTokens

def PartialList.nameTokens (list : PartialList) : List Token :=
  entryNames list.entries ++ list.stage.nameTokens

def Progress.nameTokens : Progress → List Token
  | .importDefault _ name => [name]
  | .importDefaultComma _ head => headNames (some head)
  | .importStar _ head _ | .importStarAs _ head _ _ => headNames head
  | .importNames _ head list => headNames head ++ list.nameTokens
  | .importClause _ clause | .importFrom _ clause _ => clause.nameTokens
  | .exportNames _ list => list.nameTokens
  | .exportList _ list | .exportListFrom _ list _ => entryNames list.entries
  | .exportNamespace _ _ _ name | .exportNamespaceFrom _ _ _ name _ => [name]
  | _ => []

def AllNamed (tokens : List Token) : Prop := ∀ token ∈ tokens, Text.IsName token.text

def ListStep.nameTokens : ListStep → List Token
  | .open list => list.nameTokens
  | .closed list => entryNames list.entries

structure Machine.Named (machine : Machine) : Prop where
  items : ∀ item ∈ machine.items, AllNamed item.nameTokens
  progress : AllNamed machine.progress.nameTokens

variable {list : PartialList} {machine next : Machine} {token : Token}

-- A token that is read as a name.
def Names (token : Token) : Prop :=
  (token.terminal = .leaf .name ∨ ∃ keyword, token.terminal = .keyword keyword) → Text.IsName token.text

@[simp] theorem allNamed_nil : AllNamed [] := nofun

@[simp] theorem allNamed_cons (first : Token) (rest : List Token) :
    AllNamed (first :: rest) ↔ Text.IsName first.text ∧ AllNamed rest := List.forall_mem_cons

@[simp] theorem allNamed_append (front back : List Token) :
    AllNamed (front ++ back) ↔ AllNamed front ∧ AllNamed back := List.forall_mem_append

@[simp] theorem entryNames_nil : entryNames [] = [] := rfl

@[simp] theorem entryNames_cons (entry : Entry) (entries : List Entry) :
    entryNames (entry :: entries) = entry.specifier.nameTokens ++ entryNames entries := List.flatMap_cons

@[simp] theorem entryNames_append (front back : List Entry) :
    entryNames (front ++ back) = entryNames front ++ entryNames back := List.flatMap_append

@[simp] theorem allNamed_reverse (entries : List Entry) :
    AllNamed (entryNames entries.reverse) ↔ AllNamed (entryNames entries) := by
  simp [AllNamed, entryNames]

theorem PartialList.feed_named (named : AllNamed list.nameTokens) (reads : Names token)
    (fed : list.feed exporting token = some step) : AllNamed step.nameTokens := by
  obtain ⟨opener, entries, stage⟩ := list
  unfold feed at fed
  dsimp only at fed
  split at fed <;> rename_i terminal
  all_goals try split at fed
  all_goals cases fed
  all_goals
    simp_all [nameTokens, ListStep.nameTokens, SpecifierStage.nameTokens, Specifier.nameTokens,
      Names, add, close]

namespace Progress

theorem Takes.named (taken : Takes token progress longer) (named : AllNamed progress.nameTokens)
    (reads : Names token) : AllNamed longer.nameTokens := by
  have name := fun kind => reads (.inl kind)
  cases taken with
  | importList step | importListEnd step | exportNamesMore step | exportNamesEnd step =>
    have read := PartialList.feed_named (by simp_all [nameTokens]) reads step
    simp_all [nameTokens, ListStep.nameTokens, ImportClause.nameTokens]
  | _ => simp_all [nameTokens, ImportClause.nameTokens, headNames, PartialList.nameTokens,
    SpecifierStage.nameTokens]

theorem Completes.named (completed : Completes token progress item) (named : AllNamed progress.nameTokens)
    (reads : Names token) : AllNamed item.nameTokens := by
  have name := fun kind => reads (.inl kind)
  cases completed
  all_goals simp_all [nameTokens, Item.nameTokens, ExportBody.nameTokens, DefaultTarget.nameTokens]

theorem Complete.named (complete : Complete progress item) (named : AllNamed progress.nameTokens) :
    AllNamed item.nameTokens := by
  cases complete
  all_goals simp_all [nameTokens, Item.nameTokens, ExportBody.nameTokens, DefaultTarget.nameTokens]

end Progress

namespace Machine

theorem finish_named (items : ∀ item ∈ machine.items, AllNamed item.nameTokens)
    (own : AllNamed item.nameTokens) : (machine.finish item afterNode).Named :=
  ⟨List.forall_mem_cons.mpr ⟨own, items⟩, allNamed_nil⟩

theorem Begins.named (begun : machine.Begins token next) (items : ∀ item ∈ machine.items,
    AllNamed item.nameTokens) :
    next.Named := by
  cases begun
  all_goals
    constructor
    · simpa [addNode, opened, Item.nameTokens] using items
    · simp [addNode, opened, Progress.nameTokens]

theorem attach_named (named : machine.Named) (group : Node) : (machine.attach group).Named := by
  obtain ⟨items, progress⟩ := named
  unfold attach
  split
  all_goals
    constructor
    · simpa [addNode, finish, Item.nameTokens, ExportBody.nameTokens, DefaultTarget.nameTokens] using items
    · simp [addNode, finish, Progress.nameTokens]

theorem feed_named (named : machine.Named) (reads : Names token) (fed : machine.feed token = some next) :
    next.Named := by
  obtain ⟨items, progress⟩ := named
  cases feed_step fed with
  | leaf | group | closesInner | opens => exact ⟨items, progress⟩
  | closes =>
    have outside : Named { machine with frames := [] } := ⟨items, progress⟩
    exact attach_named outside _
  | begins _ _ begun => exact begun.named items
  | takes _ taken => exact ⟨items, taken.named progress reads⟩
  | completes _ completed => exact finish_named items (completed.named progress reads)
  | follows _ complete begun => exact begun.named (List.forall_mem_cons.mpr ⟨complete.named progress, items⟩)

theorem result?_named (named : machine.Named) (ended : machine.result? = some parsed) :
    ∀ item ∈ parsed.items, AllNamed item.nameTokens := by
  obtain ⟨items, progress, frames⟩ := machine
  obtain ⟨itemsNamed, progressNamed⟩ := named
  have reversed : ∀ last : Item, AllNamed last.nameTokens →
      ∀ item ∈ (last :: items).reverse, AllNamed item.nameTokens := by
    intro last own item member
    rcases List.mem_cons.mp (List.mem_reverse.mp member) with rfl | earlier
    · exact own
    · exact itemsNamed item earlier
  unfold result? at ended
  split at ended
  all_goals cases ended
  all_goals rename_i progressed
  all_goals cases progressed
  · exact fun item member => itemsNamed item (List.mem_reverse.mp member)
  · exact reversed _ allNamed_nil
  · exact reversed _ allNamed_nil
  · exact reversed _ progressNamed

end Machine

theorem parseFrom_named (named : machine.Named)
    (accepted : parseFrom fuel machine cursor previous = .ok parsed) :
    ∀ item ∈ parsed.items, AllNamed item.nameTokens := by
  fun_induction parseFrom fuel machine cursor previous with
  | case1 fuel machine cursor previous ended module ending =>
    cases accepted
    exact Machine.result?_named named ending
  | case2 | case3 | case4 | case7 => cases accepted
  | case5 machine cursor previous first tail remaining size fuel read ih => exact ih named accepted
  | case6 machine cursor previous first tail remaining terminal size fuel read token next fed ih =>
    have reads : Names token := Lexer.lexeme?_isName read
    exact ih (Machine.feed_named named reads fed) accepted

theorem parse_named (accepted : parse text = .ok parsed) :
    ∀ item ∈ parsed.items, AllNamed item.nameTokens := by
  have start : Machine.Named {} := ⟨fun _ member => absurd member List.not_mem_nil, allNamed_nil⟩
  exact parseFrom_named start accepted

end ModuleBundler.Syntax

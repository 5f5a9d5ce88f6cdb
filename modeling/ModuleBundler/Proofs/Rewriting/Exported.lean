import ModuleBundler.Proofs.Rewriting.Capture

/-!
The names that a module exports, in order, and how the scan for declarators behind an exported one ends.
-/
namespace ModuleBundler

namespace Sibling

theorem declares (item : Sibling) :
    (∀ parsed, item ≠ .declaration parsed) ∨ ∃ parsed, item = .declaration parsed := by
  cases item with
  | declaration parsed => exact .inr ⟨parsed, rfl⟩
  | node | importExpression => exact .inl fun _ => nofun

theorem trailingNames_code (code : ∀ parsed, item ≠ .declaration parsed) (previous : Option Sibling)
    (afterComma : Bool) (rest : List Sibling) : trailingNames previous afterComma (item :: rest)
      = if item.isPunctuator ";" || breaksLine previous item then []
        else if afterComma then item.boundNames ++ trailingNames (some item) false rest
        else trailingNames (some item) (item.isPunctuator ",") rest :=
  trailingNames.eq_3 previous afterComma item rest code

-- The scan ends where a declaration begins.
theorem trailingNames_declaration (previous : Option Sibling) (afterComma : Bool) (items : List Sibling)
    (parsed : Declaration) (rest : List Sibling) :
    trailingNames previous afterComma (items ++ .declaration parsed :: rest)
      = trailingNames previous afterComma items := by
  induction items generalizing previous afterComma with
  | nil => rfl
  | cons item items ih =>
    rcases item.declares with code | ⟨parsed, rfl⟩
    · rw [List.cons_append, trailingNames_code code, trailingNames_code code, ih, ih]
    · rfl

-- It ends at a semicolon and at a line break that ends the statement.
theorem trailingNames_ends {item : Sibling} (previous : Option Sibling) (afterComma : Bool)
    (items rest : List Sibling)
    (ends : item.isPunctuator ";" = true ∨ breaksLine (items.getLast?.or previous) item = true) :
    trailingNames previous afterComma (items ++ item :: rest) = trailingNames previous afterComma items := by
  induction items generalizing previous afterComma with
  | nil =>
    have code : ∀ parsed, item ≠ .declaration parsed := by
      rintro parsed rfl
      rcases ends with semicolon | broken
      · cases semicolon
      · cases previous <;> cases broken
    have stops : (item.isPunctuator ";" || breaksLine previous item) = true := Bool.or_eq_true_iff.mpr ends
    rw [List.nil_append, trailingNames_code code, if_pos stops]
    rfl
  | cons first items ih =>
    have last : (first :: items).getLast?.or previous = items.getLast?.or (some first) := by
      rw [List.getLast?_cons]
      cases items.getLast? <;> rfl
    rw [last] at ends
    rcases first.declares with code | ⟨parsed, rfl⟩
    · rw [List.cons_append, trailingNames_code code, trailingNames_code code, ih _ _ ends, ih _ _ ends]
    · rfl

end Sibling

-- The names that a declaration exports itself, without those of the declarators behind it.
def Meaning.exported : Meaning → List Text
  | .imports _ _ | .reexportsAll _ => []
  | .assignsDefault _ _ => [Keyword.default.spelling]
  | .exportsLocal exported _ _ => [exported]
  | .exportsVariables names => names
  | .exportsNames bindings | .reexports _ bindings => bindings.map Prod.fst
  | .reexportsNamespace _ name => [name]

def Meaning.isList : Meaning → Bool
  | .exportsVariables _ => true
  | _ => false

-- All names that a module exports, in order.
def exportedNames : List Sibling → List Text
  | [] => []
  | .declaration parsed :: rest =>
    parsed.meaning.exported ++ (if parsed.meaning.isList then Sibling.trailingNames none false rest else [])
      ++ exportedNames rest
  | _ :: rest => exportedNames rest

theorem exportedNames_code (code : ∀ parsed, item ≠ Sibling.declaration parsed) (rest : List Sibling) :
    exportedNames (item :: rest) = exportedNames rest := exportedNames.eq_3 item rest code

theorem exported_complete (imports : Prologue.Imports) (parsed : Declaration) (rest : List Sibling) :
    (Prologue.exports imports (Rewriting.complete parsed rest)).map Prod.fst
      = parsed.meaning.exported ++ if parsed.meaning.isList then Sibling.trailingNames none false rest else [] := by
  obtain ⟨start, stop, meaning⟩ := parsed
  cases meaning <;> simp [Prologue.exports, Rewriting.complete, Meaning.exported, Meaning.isList,
    Function.comp_def]

theorem exported_declarations (imports : Prologue.Imports) (items : List Sibling) :
    ((Rewriting.declarations items).flatMap (Prologue.exports imports)).map Prod.fst = exportedNames items := by
  induction items with
  | nil => rfl
  | cons item rest ih =>
    rcases item.declares with code | ⟨parsed, rfl⟩
    · rw [exportedNames_code code, ← ih, Rewriting.declarations.eq_3 item rest code]
    · rw [Rewriting.declarations, exportedNames, List.flatMap_cons, List.map_append, exported_complete, ih]

-- In front of a declaration names are exported as if nothing followed.
theorem exportedNames_split (items : List Sibling) (parsed : Declaration) (rest : List Sibling) :
    exportedNames (items ++ .declaration parsed :: rest)
      = exportedNames items ++ exportedNames (.declaration parsed :: rest) := by
  induction items with
  | nil => rfl
  | cons item items ih =>
    rcases item.declares with code | ⟨before, rfl⟩
    · rw [List.cons_append, exportedNames_code code, exportedNames_code code, ih]
    · rw [List.cons_append, exportedNames, exportedNames, Sibling.trailingNames_declaration, ih]
      simp only [List.append_assoc]

theorem exportedNames_behind (nothing : Rewriting.declarations items = []) (rest : List Sibling) :
    exportedNames (items ++ rest) = exportedNames rest := by
  induction items with
  | nil => rfl
  | cons item items ih =>
    cases item with
    | declaration => cases nothing
    | node | importExpression => exact ih nothing

namespace Rewriting

def siblings? (items : List Syntax.Item) : Option (List Sibling) := (items.mapM sibling).toOption

theorem siblings?_cons (item : Syntax.Item) (items : List Syntax.Item) :
    siblings? (item :: items) = (sibling item).toOption.bind fun first => (siblings? items).map (first :: ·) := by
  rw [siblings?, siblings?, List.mapM_cons]
  cases sibling item with
  | error fault => rfl
  | ok first => cases items.mapM sibling <;> rfl

theorem siblings?_singleton (item : Syntax.Item) :
    siblings? [item] = (sibling item).toOption.map fun found => [found] := by
  rw [siblings?_cons]
  cases sibling item <;> rfl

theorem ok_of_toOption {outcome : Except ε α} (succeeded : outcome.toOption = some result) :
    outcome = .ok result := by
  cases outcome with
  | error fault => cases succeeded
  | ok _ => exact congrArg _ (Option.some.inj succeeded)

theorem siblings?_length (read : siblings? items = some found) : found.length = items.length :=
  (forall₂_of_mapM (ok_of_toOption read)).length_eq.symm

theorem siblings?_append (items others : List Syntax.Item) :
    siblings? (items ++ others) = (siblings? items).bind fun front => (siblings? others).map (front ++ ·) := by
  induction items with
  | nil =>
    have nothing : siblings? [] = some [] := rfl
    rw [nothing]
    cases h : siblings? others <;> simp [h]
  | cons item items ih =>
    rw [List.cons_append, siblings?_cons, siblings?_cons, ih]
    cases (sibling item).toOption <;> cases siblings? items <;> cases siblings? others <;> rfl

-- The names that a source exports, if it is accepted.
def exported? (source : Text) : Option (List Text) :=
  (analyzeSource source).toOption.map fun analysis =>
    (analysis.declarations.flatMap (Prologue.exports analysis.imports)).map Prod.fst

theorem firstRepeated?_eq_none (seen names : List Text) :
    Prologue.firstRepeated? seen names = none ↔ names.Nodup ∧ ∀ name ∈ names, name ∉ seen := by
  induction names generalizing seen with
  | nil => simp [Prologue.firstRepeated?]
  | cons name names ih =>
    rw [Prologue.firstRepeated?, List.nodup_cons, List.forall_mem_cons]
    by_cases repeated : name ∈ seen
    · simp [repeated]
    · have fresh : seen.contains name = false := by simpa using repeated
      simp only [fresh, Bool.false_eq_true, if_false, ih, List.mem_cons, not_or]
      constructor
      · rintro ⟨distinct, other⟩
        exact ⟨⟨fun among => (other name among).1 rfl, distinct⟩, repeated,
          fun later among => (other later among).2⟩
      · rintro ⟨⟨once, distinct⟩, _, other⟩
        exact ⟨distinct, fun later among => ⟨fun same => once (same ▸ among), other later among⟩⟩

-- The names of a module, if none of them repeats another.
def distinct (names : List Text) : Option (List Text) := if names.Nodup then some names else none

theorem distinct_fewer {names : List Text} (fewer : others.Sublist names) (repeated : distinct others = none) :
    distinct names = none := by
  unfold distinct at repeated ⊢
  split at repeated
  · cases repeated
  · rename_i twice
    exact if_neg fun once => twice (once.sublist fewer)

-- An accepted source exports no name twice.
theorem analyze_exported (read : parsed.items.mapM sibling = .ok items) :
    ((analyze parsed).toOption.map fun analysis =>
        (analysis.declarations.flatMap (Prologue.exports analysis.imports)).map Prod.fst)
      = distinct (exportedNames items) := by
  have names := exported_declarations
  have once := firstRepeated?_eq_none [] (exportedNames items)
  simp only [List.not_mem_nil, not_false_eq_true, implies_true, and_true] at once
  unfold distinct
  unfold analyze
  rw [read]
  dsimp only [bind, Except.bind]
  split
  · rename_i nothing
    rw [← names {} items, nothing]
    rfl
  · rw [names]
    split
    · rename_i repeated
      rw [repeated] at once
      rw [if_neg (mt once.mpr (Option.some_ne_none _))]
      rfl
    · rename_i fresh
      rw [if_pos (once.mp fresh), ← names]
      rfl

theorem exported?_eq (source : Text) :
    exported? source = (items? source).bind fun items => distinct (exportedNames items) := by
  have forget : ∀ outcome : Except MeaningFault Analysis,
      (outcome.mapError SourceFault.meaning).toOption = outcome.toOption := by
    intro outcome
    cases outcome <;> rfl
  unfold exported? analyzeSource items?
  cases Syntax.parse (Masking.mask source) with
  | error fault => rfl
  | ok parsed =>
    change ((analyze parsed).mapError SourceFault.meaning).toOption.map _
      = (parsed.items.mapM sibling).toOption.bind _
    rw [forget]
    cases read : parsed.items.mapM sibling with
    | error fault =>
      unfold analyze
      rw [read]
      rfl
    | ok items => exact analyze_exported read

end Rewriting
end ModuleBundler

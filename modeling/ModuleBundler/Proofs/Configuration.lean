import Mathlib.Data.List.Nodup
import ModuleBundler.Config

/-!
What reading a configuration can end with. A check breaks off exactly if one of its parts does, and
of all that a configuration holds only the expressions of its rules can break one off. What is read
in the end names only loaders that are registered.
-/
namespace ModuleBundler
namespace Schema

def Interrupts (checked : Checked α) : Prop := ∃ fault, checked = .error (.interrupted fault)

theorem not_interrupts_ok (value : α) : ¬ Interrupts (.ok value : Checked α) := by
  rintro ⟨_, ⟨⟩⟩

theorem not_interrupts_reject (kind : IssueKind) : ¬ Interrupts (reject kind : Checked α) := by
  rintro ⟨_, ⟨⟩⟩

theorem interrupts_map (checked : Checked α) (f : α → β) :
    Interrupts (checked.map f) ↔ Interrupts checked := by
  cases checked <;> simp [Interrupts, Except.map]

theorem interrupts_inside (step : Step) (checked : Checked α) :
    Interrupts (inside step checked) ↔ Interrupts checked := by
  unfold inside
  split
  · simp [Interrupts]
  · rfl

-- Issues are collected from both parts, so that neither hides that the other breaks off.
theorem interrupts_both (first : Checked α) (second : Checked β) :
    Interrupts (both first second) ↔ Interrupts first ∨ Interrupts second := by
  unfold both
  split <;> simp_all [Interrupts]

theorem interrupts_optional (members : Dictionary Text Json) (name : String) (default : α)
    (read : Json → Checked α) : Interrupts (optional members name default read) ↔
      ∃ value, members.lookup name.toList = some value ∧ Interrupts (read value) := by
  unfold optional
  cases members.lookup name.toList with
  | none => simp [not_interrupts_ok]
  | some value => simp [interrupts_inside]

theorem interrupts_required (members : Dictionary Text Json) (name : String)
    (read : Json → Checked α) : Interrupts (required members name read) ↔
      ∃ value, members.lookup name.toList = some value ∧ Interrupts (read value) := by
  unfold required
  rw [interrupts_inside]
  cases members.lookup name.toList with
  | none => simp [not_interrupts_reject]
  | some value => simp

theorem interrupts_readElements (read : Json → Checked α) (position : Nat) (elements : List Json) :
    Interrupts (readElements read position elements) ↔
      ∃ element ∈ elements, Interrupts (read element) := by
  induction elements generalizing position with
  | nil => simp [readElements, not_interrupts_ok]
  | cons element elements ih =>
    simp [readElements, interrupts_map, interrupts_both, interrupts_inside, ih]

theorem interrupts_readList (read : Json → Checked α) (value : Json) :
    Interrupts (readList read value) ↔
      ∃ elements, value = .array elements ∧ ∃ element ∈ elements, Interrupts (read element) := by
  cases value <;> simp [readList, interrupts_readElements, not_interrupts_reject]

theorem not_interrupts_readText (value : Json) : ¬ Interrupts (readText value) := by
  cases value <;> simp [readText, not_interrupts_ok, not_interrupts_reject]

theorem interrupts_readText_bind (value : Json) (next : Text → Checked α) :
    Interrupts (readText value >>= next) ↔ ∃ text, readText value = .ok text ∧ Interrupts (next text) := by
  cases value <;> simp [readText, reject, Interrupts, Bind.bind, Except.bind]

theorem not_interrupts_readOptional {read : Json → Checked α} (never : ∀ value, ¬ Interrupts (read value))
    (value : Json) : ¬ Interrupts (readOptional read value) := by
  unfold readOptional
  split
  · exact not_interrupts_ok _
  · rw [interrupts_map]
    exact never _

theorem not_interrupts_readWord (allowed : List (String × α)) (value : Json) :
    ¬ Interrupts (readWord allowed value) := by
  unfold readWord
  repeat' split
  all_goals first | exact not_interrupts_ok _ | exact not_interrupts_reject _

theorem not_interrupts_boolOfInt (value : Int) : ¬ Interrupts (boolOfInt value) := by
  unfold boolOfInt
  repeat' split
  all_goals first | exact not_interrupts_ok _ | exact not_interrupts_reject _

theorem not_interrupts_readBool (value : Json) : ¬ Interrupts (readBool value) := by
  unfold readBool
  dsimp only
  repeat' split
  all_goals
    first
    | exact not_interrupts_ok _
    | exact not_interrupts_reject _
    | exact not_interrupts_boolOfInt _

theorem not_interrupts_onlyNames (names : List String) (members : Dictionary Text Json) :
    ¬ Interrupts (onlyNames names members) := by
  unfold onlyNames
  split <;> simp [Interrupts]

end Schema

open Schema

-- An expression with a number in it that is too large for the matcher.
def Regex.Overlarge (test : Text) : Prop :=
  Regex.compile test = .error .hugeRepeat ∨ Regex.compile test = .error .hugeCode

namespace LoaderRule

theorem interrupts_readTest (test : Text) : Interrupts (readTest test) ↔ Regex.Overlarge test := by
  unfold readTest Regex.Overlarge
  cases Regex.compile test with
  | ok pattern => simp [not_interrupts_ok]
  | error fault => cases fault <;> simp [Interrupts, reject]

theorem not_interrupts_readLoader (loaders : Loaders) (name : Text) :
    ¬ Interrupts (readLoader loaders name) := by
  unfold readLoader
  split
  · exact not_interrupts_ok _
  · exact not_interrupts_reject _

theorem interrupts_read (loaders : Loaders) (value : Json) : Interrupts (read loaders value) ↔
    ∃ members expression test, value = .object members ∧
      members.lookup "test".toList = some expression ∧ readText expression = .ok test ∧
      Regex.Overlarge test := by
  unfold read
  split
  · rename_i members
    simp only [interrupts_map, interrupts_both, interrupts_required, interrupts_readText_bind,
      interrupts_readTest, not_interrupts_readLoader, and_false, exists_false, or_false]
    constructor
    · rintro ⟨expression, found, test, spelled, overlarge⟩
      exact ⟨members, expression, test, rfl, found, spelled, overlarge⟩
    · rintro ⟨members', expression, test, same, found, spelled, overlarge⟩
      cases same
      exact ⟨expression, found, test, spelled, overlarge⟩
  · rename_i noObject
    refine iff_of_false (not_interrupts_reject _) ?_
    rintro ⟨members, _, _, same, _⟩
    exact noObject members same

end LoaderRule

namespace Config

-- A configuration has a rule whose expression is overlarge.
def Overlarge (value : Json) : Prop :=
  ∃ members elements rule expression test, value = .object members ∧
    members.lookup "loaders".toList = some (.array elements) ∧ .object rule ∈ elements ∧
    rule.lookup "test".toList = some expression ∧ readText expression = .ok test ∧
    Regex.Overlarge test

theorem interrupts_read (loaders : Loaders) (value : Json) :
    Interrupts (read loaders value) ↔ Overlarge value := by
  unfold read
  split
  · rename_i members
    simp only [interrupts_map, interrupts_both, interrupts_optional, readFormat, readRules,
      not_interrupts_readOptional not_interrupts_readText, not_interrupts_readWord,
      not_interrupts_readBool, not_interrupts_onlyNames, and_false, exists_false, or_false, false_or,
      interrupts_readList, LoaderRule.interrupts_read]
    constructor
    · rintro ⟨_, found, elements, rfl, _, member, rule, expression, test, rfl, stated⟩
      exact ⟨members, elements, rule, expression, test, rfl, found, member, stated⟩
    · rintro ⟨members', elements, rule, expression, test, same, found, member, stated⟩
      cases same
      exact ⟨_, found, elements, rfl, _, member, rule, expression, test, rfl, stated⟩
  · rename_i noObject
    refine iff_of_false (not_interrupts_reject _) ?_
    rintro ⟨members, _, _, _, _, same, _⟩
    exact noObject members same

theorem readFile_interrupted (disk : Disk) (loaders : Loaders) (path : Text) :
    (∃ fault, readFile disk loaders path = .error (.regex fault)) ↔
      ∃ text value, disk.readText path = .ok text ∧ Json.read text = .ok value ∧ Overlarge value := by
  unfold readFile
  cases text : disk.readText path with
  | error fault => simp [Except.mapError, Bind.bind, Except.bind]
  | ok text' =>
  cases value : Json.read text' with
  | error fault => simp [value, Except.mapError, Bind.bind, Except.bind]
  | ok value' =>
    have breaks := interrupts_read loaders value'
    simp only [Except.ok.injEq, exists_and_left, exists_eq_left', value, ← breaks, Interrupts]
    simp only [Except.mapError, Bind.bind, Except.bind, value]
    cases read loaders value' with
    | ok config => simp
    | error rejection => cases rejection <;> simp

theorem load_interrupted (disk : Disk) (loaders : Loaders) (path : Option Text) :
    (∃ fault, load disk loaders path = .error (.regex fault)) ↔
      disk.pathExists (file path) = true ∧ ∃ text value, disk.readText (file path) = .ok text ∧
        Json.read text = .ok value ∧ Overlarge value := by
  unfold load
  split
  · rename_i there
    simp only [there, true_and]
    exact readFile_interrupted disk loaders (file path)
  · rename_i absent
    refine iff_of_false ?_ fun there => absent there.1
    rintro ⟨fault, failed⟩
    split at failed <;> cases failed

end Config
end ModuleBundler

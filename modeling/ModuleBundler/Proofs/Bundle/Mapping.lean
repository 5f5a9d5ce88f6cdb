import ModuleBundler.Bundle.Basic
import ModuleBundler.Proofs.Masking.Division

/-!
The mapping of a module is divided into pieces in one way, whatever its specifiers are.
-/
namespace ModuleBundler

namespace Bundle

open Masking

theorem harmless_intText (n : Int) : Harmless (Json.intText n) NotName := by
  unfold Json.intText
  split
  · exact (harmless_mark (c := '-') (by decide) (by decide)).append (harmless_word _ (spelled_natText _))
      fun _ _ => trivial
  · exact harmless_word _ (spelled_natText _)

theorem intText_plain (n : Int) : '<' ∉ Json.intText n := by
  have digits : ∀ n, '<' ∉ Json.natText n :=
    fun n member => absurd (Json.natText_digits n _ member) (by decide)
  unfold Json.intText
  split
  · simp [digits]
  · exact digits _

-- The members of a written mapping, closing tags kept apart.
def membersText (mapping : Dictionary CodePoints Int) : Text :=
  Literal.guardClosers (Text.joinWith [',', ' '] (Graph.mappingMembers mapping))

theorem mappingText_parts (mapping : Dictionary CodePoints Int) :
    mappingText mapping = ['{'] ++ (membersText mapping ++ ['}']) := by
  have plain : (['}'] : Text).head? ≠ some '/' := by decide
  have comma : ", ".toList = [',', ' '] := by decide +kernel
  rw [mappingText, comma, List.cons_append, Literal.guardClosers_other (by decide),
    Literal.guardClosers_append _ plain]
  rfl

theorem guardClosers_member (key : CodePoints) (id : Int) (more : Text)
    (plain : more.head? ≠ some '/') :
    Literal.guardClosers (Graph.member key (Json.intText id) ++ more)
      = Literal.writeCodes key
        ++ ([':'] ++ ([' '] ++ (Json.intText id ++ Literal.guardClosers more))) := by
  have numbered : '<' ∉ ':' :: ' ' :: Json.intText id := by simp [intText_plain id]
  rw [Graph.member, List.append_assoc, Literal.guardClosers_append _ (by simp),
    Literal.guardClosers_append _ plain, Literal.guardClosers_plain numbered]
  rfl

theorem membersText_last (key : CodePoints) (id : Int) :
    membersText [(key, id)]
      = Literal.writeCodes key ++ ([':'] ++ ([' '] ++ (Json.intText id ++ []))) := by
  have member := guardClosers_member key id [] (by simp)
  rwa [List.append_nil] at member

theorem membersText_cons (key : CodePoints) (id : Int) (entry : CodePoints × Int)
    (mapping : Dictionary CodePoints Int) :
    membersText ((key, id) :: entry :: mapping)
      = Literal.writeCodes key ++ ([':'] ++ ([' '] ++ (Json.intText id ++ ([','] ++ ([' ']
        ++ membersText (entry :: mapping)))))) := by
  have member := guardClosers_member key id
    (',' :: ' ' :: Text.joinWith [',', ' '] (Graph.mappingMembers (entry :: mapping))) (by simp)
  rw [Literal.guardClosers_other (by decide), Literal.guardClosers_other (by decide)] at member
  have listed : Text.joinWith [',', ' '] (Graph.mappingMembers ((key, id) :: entry :: mapping))
      = Graph.member key (Json.intText id)
        ++ ',' :: ' ' :: Text.joinWith [',', ' '] (Graph.mappingMembers (entry :: mapping)) := by
    simp [Graph.mappingMembers, Text.joinWith]
  rw [membersText, listed]
  exact member

theorem begins_intText (id : Int) : Begins (Json.intText id) := by
  unfold Json.intText
  split
  · exact ⟨'-', _, rfl, by decide⟩
  · exact begins_word (spelled_natText _)

theorem begins_members (entry : CodePoints × Int) (mapping : Dictionary CodePoints Int) :
    Begins (membersText (entry :: mapping)) := by
  cases mapping with
  | nil =>
    rw [membersText_last]
    exact (begins_literal _).append _
  | cons next mapping =>
    rw [membersText_cons]
    exact (begins_literal _).append _

theorem harmless_member (key : CodePoints) (id : Int) (second : Harmless later apart)
    (meets : ∀ more, apart more → NotName (later ++ more)) :
    Harmless (Literal.writeCodes key ++ ([':'] ++ ([' '] ++ (Json.intText id ++ later)))) apart := by
  have number := (harmless_intText id).append second meets
  have spaced := number.spaced ((begins_intText id).append later)
  exact (harmless_literal key).follow (spaced.marked (by decide) (by decide))

theorem harmless_members (mapping : Dictionary CodePoints Int) :
    Harmless (membersText mapping) NotName := by
  induction mapping with
  | nil => exact fun start calm => ⟨[], ⟨rfl, fun _ _ => rfl⟩, calm⟩
  | cons entry mapping ih =>
    obtain ⟨key, id⟩ := entry
    cases mapping with
    | nil =>
      rw [membersText_last]
      refine harmless_member key id ih fun more apart => apart
    | cons next mapping =>
      rw [membersText_cons]
      refine harmless_member key id (ih.listed (begins_members next mapping)) ?_
      intro more _ c same
      cases same
      decide

theorem harmless_mapping (mapping : Dictionary CodePoints Int) :
    Harmless (mappingText mapping) Anything := by
  rw [mappingText_parts]
  have closed := (harmless_members mapping).append
    (harmless_mark (c := '}') (by decide) (by decide))
    (by
      intro more _ c same
      cases same
      decide)
  exact closed.marked (by decide) (by decide)

end Bundle
end ModuleBundler

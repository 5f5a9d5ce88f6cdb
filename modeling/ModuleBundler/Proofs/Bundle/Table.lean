import ModuleBundler.Proofs.Bundle.Isolation
import ModuleBundler.Proofs.LiteralValue

/-!
The table of a bundle as it is written: one row for each module, with the key that `require` looks
up, the function of the module and the members of its mapping.
-/
namespace ModuleBundler

namespace Bundle

structure Row where
  key : Text
  function : Text
  members : List (Text × Text)
  deriving DecidableEq, Repr

-- A key and its value.
def memberText (member : Text × Text) : Text := member.1 ++ ([':', ' '] ++ member.2)

def Row.text (row : Row) : Text :=
  row.key ++ ([':', ' ', '['] ++ (row.function ++ ([',', ' ', '{']
    ++ (Text.joinWith [',', ' '] (row.members.map memberText) ++ ['}', ']']))))

def rowOf (format : BundleFormat) (asset : Asset) : Row where
  key := Literal.write (Json.intText asset.id)
  function := (body format asset.code).render
  members := asset.mapping.map fun (specifier, id) => (Literal.writeCodes specifier, Json.intText id)

theorem membersText_joined (mapping : Dictionary CodePoints Int) :
    membersText mapping
      = Text.joinWith [',', ' '] ((mapping.map fun (specifier, id) =>
          (Literal.writeCodes specifier, Json.intText id)).map memberText) := by
  induction mapping with
  | nil => rfl
  | cons entry mapping ih =>
    obtain ⟨specifier, id⟩ := entry
    cases mapping with
    | nil =>
      rw [membersText_last]
      simp [memberText, Text.joinWith]
    | cons next mapping =>
      rw [membersText_cons, ih]
      simp [memberText, Text.joinWith]

theorem rowOf_text (format : BundleFormat) (asset : Asset) :
    (rowOf format asset).text = tableEntry asset (body format asset.code) := by
  have opening : ": [".toList = [':', ' ', '['] := by decide +kernel
  have comma : ", ".toList = [',', ' '] := by decide +kernel
  rw [tableEntry, opening, comma, mappingText_parts, membersText_joined]
  simp only [Row.text, rowOf, List.append_assoc, List.cons_append, List.nil_append]

-- A bundle is its table between what its script opens and closes, in either format.
theorem emit_rows (format : BundleFormat) (hasBanner : Bool) {graph : Graph} (some_ : graph ≠ []) :
    (emit format hasBanner graph).outcome
      = .ok (bannerText hasBanner graph ++ (tableOpening
        ++ (Text.joinWith [',', '\n'] ((graph.map (rowOf format)).map Row.text)
          ++ "\n\x7d, 0);\n".toList))) := by
  obtain ⟨entry, rest, rfl⟩ := List.exists_cons_of_ne_nil some_
  rw [emit_text, List.map_map]
  simp only [Function.comp_def, rowOf_text]

-- The members of a row are those of the mapping, each specifier as a literal.
theorem mem_rowOf (format : BundleFormat) (asset : Asset) :
    (literal, value) ∈ (rowOf format asset).members ↔ ∃ specifier id, (specifier, id) ∈ asset.mapping ∧
      Literal.writeCodes specifier = literal ∧ Json.intText id = value := by
  simp [rowOf]

end Bundle
end ModuleBundler

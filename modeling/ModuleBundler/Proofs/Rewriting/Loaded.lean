import ModuleBundler.Proofs.Json.Documents
import ModuleBundler.Proofs.Rewriting.DefaultValue

/-!
What loaders make of a file is a module that the rewriting accepts: no document and no text is taken for
anything but the value of its default export.
-/
namespace ModuleBundler.Rewriting

open Masking (Anything Begins)

theorem loads_document (path : Text) (accepted : Json.read source = .ok value) :
    Loader.json path source = .ok (Loader.defaultExport (Text.strip source)) := by
  rw [Loader.json, accepted]

theorem transpile_document (accepted : Json.read source = .ok value) :
    transpile (Loader.defaultExport (Text.strip source)) = .ok ⟨⟨[]⟩, assigned (Text.strip source)⟩ := by
  obtain ⟨front, spelled, back, rfl, before, behind, shown⟩ := Json.read_parts accepted
  obtain ⟨code, begins⟩ := shown.code
  rw [Json.strip_around before behind begins shown.ends]
  refine transpile_defaultExport code begins fun more c same => ?_
  cases same
  decide

theorem transpile_literal (source : Text) :
    transpile (Loader.defaultExport (Literal.write source)) = .ok ⟨⟨[]⟩,
      assigned (Literal.write source)⟩ := by
  obtain ⟨inner, parts, closed⟩ := Literal.writeCodes_parts source
  have code : Syntax.Code (Literal.write source) Anything := by
    rw [Literal.write, parts]
    exact Syntax.code_sealed closed
  exact transpile_defaultExport code (Masking.begins_literal _) fun _ => trivial

-- Loaded modules depend on nothing, and their value stays as it is written.
theorem loaded_assigned (path : Text) :
    (∀ source value, Json.read source = .ok value →
      ∃ module, Loader.json path source = .ok module ∧
        transpile module = .ok ⟨⟨[]⟩, assigned (Text.strip source)⟩) ∧
    ∀ source, ∃ module, Loader.text path source = .ok module ∧
      transpile module = .ok ⟨⟨[]⟩, assigned (Literal.write source)⟩ :=
  ⟨fun _ _ accepted => ⟨_, loads_document path accepted, transpile_document accepted⟩,
    fun source => ⟨_, rfl, transpile_literal source⟩⟩

def intricateDocument : Text :=
  "\t\x7b \"a/b\": [ -0, 1.5E+10 ,-Infinity, \"\\/* \\\" //\"],\n\"import\": \x7b\x7d, \"\": NaN \x7d\r\n".toList

def intricateCode : Text :=
  ("\"use strict\";\nObject.defineProperty(exports, \"__esModule\", \x7b value: true \x7d);\n"
    ++ "exports[\"default\"] = \x7b \"a/b\": [ -0, 1.5E+10 ,-Infinity, \"\\/* \\\" //\"],\n"
    ++ "\"import\": \x7b\x7d, \"\": NaN \x7d;\n").toList

theorem intricate_assigned : ∃ value, Json.read intricateDocument = .ok value ∧
    ∃ module, Loader.json "/a.json".toList intricateDocument = .ok module ∧
      transpile module = .ok ⟨⟨[]⟩, intricateCode⟩ := by
  have ⟨readable, shown⟩ : (Json.read intricateDocument).toOption.isSome = true ∧
      assigned (Text.strip intricateDocument) = intricateCode := by
    unfold intricateDocument intricateCode
    simp only [String.toList_append]
    repeat rw [String.toList_ofList]
    decide +kernel
  obtain ⟨value, found⟩ := Option.isSome_iff_exists.mp readable
  obtain ⟨documents, _⟩ := loaded_assigned "/a.json".toList
  have loaded := documents intricateDocument value (ok_of_toOption found)
  rw [shown] at loaded
  exact ⟨value, ok_of_toOption found, loaded⟩

end ModuleBundler.Rewriting

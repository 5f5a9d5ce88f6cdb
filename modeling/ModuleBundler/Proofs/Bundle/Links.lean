import ModuleBundler.Proofs.Bundle.Table
import ModuleBundler.Proofs.Disk
import ModuleBundler.Proofs.Graph.Ending
import ModuleBundler.Proofs.Graph.Spelling
import ModuleBundler.Proofs.Rewriting.Parts

/-!
Links from the source of a module to the table of its bundle: what its prologue requires is what its
row sends to another row.
-/
namespace ModuleBundler.Bundle

open Rewriting

-- A module whose declarations were rewritten, in the table of its bundle.
structure Linked (graph : Graph) (asset : Asset) (analysis : Analysis) : Prop where
  -- The code begins with the lines of the prologue.
  lines : ∃ body, asset.code
    = Text.joinWith ['\n']
        (Prologue.prologueLines (analysis.declarations.any (!·.isImport)) analysis.statements)
      ++ '\n' :: body
  -- The lines that require something are one for each dependency.
  once : Prologue.required analysis.statements = Prologue.numbered asset.dependencies
  specifiers : asset.dependencies = analysis.imports.dependencies
  distinct : asset.dependencies.Nodup
  -- The literal of such a line is a key of the row, and wherever it is one it gives the number in the key of
  -- the row that the specifier leads to.
  sent : ∀ (index : Nat) (specifier : CodePoints), asset.dependencies[index]? = some specifier →
    (Statement.require index specifier).render
        = "var ".toList ++ Prologue.dependencyVariable index ++ " = require(".toList
          ++ Literal.writeCodes specifier ++ ");".toList ∧
      ∃ (position : Nat) (target : Asset), graph[position]? = some target ∧
        Graph.resolve asset.path specifier = .ok target.path ∧
        ∀ format, (Literal.writeCodes specifier, Json.natText position) ∈ (rowOf format asset).members ∧
          (∀ value, (Literal.writeCodes specifier, value) ∈ (rowOf format asset).members →
            value = Json.natText position) ∧
          (rowOf format target).key = Literal.write (Json.natText position)

variable {workshop : Workshop} {graph : Graph} {asset target : Asset} {entry : Text} {specifier : CodePoints}
  {position : Nat}

theorem standard_analysis (standard : workshop.transpiler = .standard)
    (made : Graph.Made workshop position asset) :
    ∃ source loaded analysis, workshop.read asset.path = .ok source ∧
      workshop.loaders.apply workshop.rules asset.path source = .ok loaded ∧
      analyzeSource loaded = .ok analysis ∧
      asset.dependencies = (analysis.transpiled loaded).dependencies ∧
      asset.code = (analysis.transpiled loaded).code := by
  obtain ⟨transpiled, produced, dependencies, code⟩ := made.produced
  obtain ⟨source, loaded, read, applied, accepted⟩ := Graph.produce_ok_iff.mp produced
  rw [standard] at accepted
  obtain ⟨analysis, analyzed, rfl⟩ := transpile_analysis (ok_of_mapError accepted)
  exact ⟨source, loaded, analysis, read, applied, analyzed, dependencies, code⟩

theorem exportMeaning_decoded {body : Syntax.ExportBody} (read : exportMeaning body = .ok meaning)
    (origin : Declaration.origin? ⟨start, stop, meaning⟩ = some specifier) :
    ∃ literal, Literal.decode literal = .ok specifier := by
  cases body with
  | default word target =>
    cases target <;> (cases read; cases origin)
  | function | «class» | «variable» | names =>
    cases read
    cases origin
  | namesFrom | all | «namespace» =>
    obtain ⟨found, decoded, same⟩ := ok_of_bind read
    cases same
    cases origin
    exact ⟨_, ok_of_mapError decoded⟩

theorem sibling_decoded (read : sibling item = .ok found) (origin : found.origin? = some specifier) :
    ∃ literal, Literal.decode literal = .ok specifier := by
  cases item with
  | node | importCall | importMeta =>
    cases read
    cases origin
  | importBare | importFrom =>
    obtain ⟨spelled, decoded, same⟩ := ok_of_bind read
    cases same
    cases origin
    exact ⟨_, ok_of_mapError decoded⟩
  | «export» word body =>
    obtain ⟨meaning, meant, same⟩ := ok_of_bind read
    cases same
    exact exportMeaning_decoded meant origin

-- What is read is read of something.
theorem exists_of_forall₂ {related : α → β → Prop} (each : List.Forall₂ related sources found)
    (member : b ∈ found) : ∃ a ∈ sources, related a b := by
  induction each with
  | nil => cases member
  | cons here _ ih =>
    rcases List.mem_cons.mp member with rfl | later
    · exact ⟨_, List.mem_cons_self, here⟩
    · obtain ⟨a, among, there⟩ := ih later
      exact ⟨a, List.mem_cons_of_mem _ among, there⟩

-- What a module depends on is spelled by its literals.
theorem dependencies_bounded (analyzed : analyzeSource source = .ok analysis)
    (among : specifier ∈ analysis.imports.dependencies) : CodePoints.Bounded specifier := by
  obtain ⟨parsed, _, meant⟩ := analyzeSource_parts analyzed
  obtain ⟨items, read, found, imports, _⟩ := analyze_parts meant
  obtain ⟨_, follows⟩ := Prologue.imports_follow (Sibling.localNames items) analysis.declarations
  rw [← imports] at follows
  rw [follows.specifiers, List.mem_eraseDups, found, declarations_origins, List.mem_filterMap] at among
  obtain ⟨item, member, origin⟩ := among
  obtain ⟨spelled, _, given⟩ := exists_of_forall₂ (forall₂_of_mapM read) member
  obtain ⟨literal, decoded⟩ := sibling_decoded given origin
  exact Literal.decode_bounded decoded

-- Members with one literal for their key are of specifiers that lead to one module.
theorem members_agree (valid : Graph.Found workshop entry front graph)
    (leads : Graph.Leads graph asset.path asset.dependencies asset.mapping)
    (bounded : ∀ specifier ∈ asset.dependencies, CodePoints.Bounded specifier)
    (among : specifier ∈ asset.dependencies) (there : graph[position]? = some target)
    (resolved : Graph.resolve asset.path specifier = .ok target.path)
    (member : (Literal.writeCodes specifier, value) ∈ (rowOf format asset).members) :
    value = Json.natText position := by
  obtain ⟨other, id, listed, literal, rfl⟩ := (mem_rowOf format asset).mp member
  have depends := (leads.keys other).mp (List.mem_map_of_mem listed)
  obtain ⟨position', target', found', there', resolved'⟩ := leads.targets other depends
  cases (Dictionary.lookup_of_mem leads.distinct listed).symm.trans found'
  have alike := (Literal.writeCodes_cancel (bounded other depends) (bounded specifier among)
    (congrArg (· ++ []) literal)).1
  have paths := Graph.resolve_alike alike resolved'
    (Disk.isFile_clean (valid.made position' target' there').file) resolved
    (Disk.isFile_clean (valid.made position target there).file)
  have inside : position' < (graph.map Asset.path).length := by
    rw [List.length_map]
    exact (List.getElem?_eq_some_iff.mp there').1
  have same : (graph.map Asset.path)[position']? = (graph.map Asset.path)[position]? := by
    rw [List.getElem?_map, List.getElem?_map, there, there']
    exact congrArg some paths
  cases (List.getElem?_inj inside valid.distinct).mp same
  rfl

theorem linked (valid : Graph.Found workshop entry front graph)
    (leads : Graph.Leads graph asset.path asset.dependencies asset.mapping)
    (analyzed : analyzeSource loaded = .ok analysis) (some_ : analysis.declarations ≠ [])
    (dependencies : asset.dependencies = (analysis.transpiled loaded).dependencies)
    (code : asset.code = (analysis.transpiled loaded).code) : Linked graph asset analysis := by
  have specifiers : asset.dependencies = analysis.imports.dependencies := by
    rw [dependencies]
    unfold Analysis.transpiled
    split
    · rename_i none
      exact absurd none some_
    · rfl
  have bounded : ∀ specifier ∈ asset.dependencies, CodePoints.Bounded specifier := by
    rw [specifiers]
    exact fun _ => dependencies_bounded analyzed
  obtain ⟨distinct, once⟩ := Analysis.requires analyzed
  rw [← specifiers] at once distinct
  refine ⟨⟨_, code.trans (transpiled_code analyzed some_)⟩, once, specifiers, distinct, ?_⟩
  intro index specifier at_
  have among := List.mem_of_getElem? at_
  obtain ⟨position, target, found, there, resolved⟩ := leads.targets specifier among
  have numbered : target.id = Int.ofNat position := (valid.made position target there).id
  refine ⟨rfl, position, target, there, resolved, fun format => ⟨?_, fun value member => ?_, ?_⟩⟩
  · obtain ⟨before, after, parts, _⟩ := List.lookup_eq_some_iff.mp found
    refine (mem_rowOf format asset).mpr ⟨specifier, Int.ofNat position, ?_, rfl, rfl⟩
    rw [parts]
    exact List.mem_append_right _ List.mem_cons_self
  · exact members_agree valid leads bounded among there resolved member
  · rw [rowOf, numbered]
    rfl

-- In a build that succeeds with the standard transpiler every module with declarations is linked.
theorem build_links (standard : workshop.transpiler = .standard)
    (built : (Graph.discover workshop entry).outcome = .ok graph) :
    (∀ format hasBanner, (emit format hasBanner graph).outcome
      = .ok (bannerText hasBanner graph ++ (tableOpening
        ++ (Text.joinWith [',', '\n'] ((graph.map (rowOf format)).map Row.text)
          ++ "\n\x7d, 0);\n".toList)))) ∧
      ∀ asset ∈ graph, ∃ source loaded analysis, workshop.read asset.path = .ok source ∧
        workshop.loaders.apply workshop.rules asset.path source = .ok loaded ∧
        analyzeSource loaded = .ok analysis ∧
        (analysis.declarations ≠ [] → Linked graph asset analysis) := by
  rw [← Graph.step_recordDiscovery] at built
  obtain ⟨valid, mapped, _⟩ := Graph.discovery_found built
  constructor
  · obtain ⟨start, startAt, _⟩ := valid.first
    have some_ : graph ≠ [] := by
      rintro rfl
      cases startAt
    exact fun format hasBanner => emit_rows format hasBanner some_
  · intro asset member
    obtain ⟨position, at_, _⟩ := valid.numbered member
    obtain ⟨source, loaded, analysis, read, applied, analyzed, dependencies, code⟩ :=
      standard_analysis standard (valid.made position asset at_)
    exact ⟨source, loaded, analysis, read, applied, analyzed, fun some_ =>
      linked valid (mapped position asset at_) analyzed some_ dependencies code⟩

-- A specifier with a quote, a closing tag and a letter beyond ASCII, spelled with an escape, and two that differ
-- in code points, but are written alike.
def quotedSource : Text :=
  ("import \x7b x \x7d from './d<\\/\"é.js';\nimport './\\ud83d\\ude00/../a.js';"
    ++ "import './😀/../a.js';\nx();\n").toList

def quotedWorkshop : Workshop :=
  ⟨⟨[['w']], [([['w'], "a.js".toList], .text quotedSource),
    ([['w'], "d<".toList, "\"é.js".toList], .text "exports.x = 1;\n".toList)]⟩, [], [], .standard⟩

def quotedDependencies : List CodePoints :=
  ["./d</\"é.js".toList, CodePoints.ofText "./".toList ++ [55357,
    56832] ++ CodePoints.ofText "/../a.js".toList,
    "./😀/../a.js".toList]

def quotedMembers : List (Text × Text) :=
  [("\"./d<\\/\\\"\\u00e9.js\"".toList, ['1']), ("\"./\\ud83d\\ude00/../a.js\"".toList, ['0']),
    ("\"./\\ud83d\\ude00/../a.js\"".toList, ['0'])]

theorem quoted_linked :
    ∃ graph asset analysis,
      (Graph.discover quotedWorkshop "a.js".toList).outcome = .ok graph ∧ graph[0]? = some asset ∧
      asset.dependencies = quotedDependencies ∧ (rowOf .string asset).members = quotedMembers ∧
      Linked graph asset analysis := by
  have ⟨found, given, declared⟩ : (Graph.discover quotedWorkshop "a.js".toList).outcome.toOption.map
      (List.map fun asset => { asset with code := [] })
        = some [⟨0, "/w/a.js".toList, quotedDependencies, [], quotedDependencies.zip [1, 0, 0]⟩,
          ⟨1, "/w/d</\"é.js".toList, [], [], []⟩] ∧
      quotedWorkshop.read "/w/a.js".toList = .ok quotedSource ∧
      (analyzeSource quotedSource).toOption.map (·.declarations.isEmpty) = some false := by
    unfold quotedWorkshop quotedSource quotedDependencies
    simp only [String.toList_append]
    repeat rw [String.toList_ofList]
    decide +kernel
  obtain ⟨graph, built, shown⟩ := ok_of_toOption_map found
  obtain ⟨asset, others, rfl, entry, _⟩ := List.map_eq_cons_iff.mp shown
  obtain ⟨_, path, dependencies, mapping⟩ : asset.id = 0 ∧ asset.path = "/w/a.js".toList ∧
      asset.dependencies = quotedDependencies ∧ asset.mapping = quotedDependencies.zip [1, 0, 0] := by
    simpa using entry
  obtain ⟨_, each⟩ := build_links rfl built
  obtain ⟨source, loaded, analysis, read, applied, analyzed, linked⟩ := each asset List.mem_cons_self
  rw [path, given] at read
  cases read
  cases applied
  rw [analyzed] at declared
  have some_ : analysis.declarations ≠ [] := by simpa [Except.toOption] using declared
  have members : (rowOf .string asset).members = quotedMembers := by
    simp only [rowOf, mapping]
    decide +kernel
  exact ⟨_, asset, analysis, built, rfl, dependencies, members, linked some_⟩

end ModuleBundler.Bundle

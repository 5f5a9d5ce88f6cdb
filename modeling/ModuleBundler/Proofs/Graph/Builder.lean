import ModuleBundler.Graph.Builder
import ModuleBundler.Proofs.Graph.Closure

/-!
The context and the queue of a builder hold nothing that the graph does not tell: the next identity is its length,
the assets that are remembered are its assets, and those in the queue are the ones behind the position that the
discovery has come to. So building a graph is discovering it.
-/
namespace ModuleBundler

-- Two steps that log the same and end alike.
structure Logged.Alike (related : α → β → Prop) (first : Logged α) (second : Logged β) : Prop where
  log : first.log = second.log
  outcome : (∃ failure, first.outcome = .error failure ∧ second.outcome = .error failure) ∨
    ∃ value other, first.outcome = .ok value ∧ second.outcome = .ok other ∧ related value other

namespace Logged.Alike

variable {related : α → β → Prop} {related' : γ → δ → Prop}

theorem pure (same : related value other) : Alike related (Pure.pure value) (Pure.pure other) :=
  ⟨rfl, .inr ⟨value, other, rfl, rfl, same⟩⟩

theorem fail (failure : Failure) : Alike related (Logged.fail failure) (Logged.fail failure) :=
  ⟨rfl, .inl ⟨failure, rfl, rfl⟩⟩

theorem refl (step : Logged α) : Alike Eq step step := by
  refine ⟨rfl, ?_⟩
  cases step.outcome with
  | error failure => exact .inl ⟨failure, rfl, rfl⟩
  | ok value => exact .inr ⟨value, value, rfl, rfl, rfl⟩

theorem bind {first : Logged α} {second : Logged β} {next : α → Logged γ} {next' : β → Logged δ}
    (steps : Alike related first second)
    (rest : ∀ value other, first.outcome = .ok value → related value other →
      Alike related' (next value) (next' other)) :
    Alike related' (first >>= next) (second >>= next') := by
  obtain ⟨log, outcome⟩ := first
  obtain ⟨log', outcome'⟩ := second
  obtain ⟨rfl, ⟨failure, rfl, rfl⟩ | ⟨value, other, rfl, rfl, same⟩⟩ := steps
  · exact ⟨rfl, .inl ⟨failure, rfl, rfl⟩⟩
  · obtain ⟨logs, outcomes⟩ := rest value other rfl same
    exact ⟨congrArg (log ++ ·) logs, outcomes⟩

theorem eq {first second : Logged α} (alike : Alike Eq first second) : first = second := by
  obtain ⟨log, outcome⟩ := first
  obtain ⟨log', outcome'⟩ := second
  obtain ⟨rfl, ⟨failure, rfl, rfl⟩ | ⟨value, other, rfl, rfl, rfl⟩⟩ := alike
  · rfl
  · rfl

end Logged.Alike

namespace Graph

open Logged (Alike)

-- What a builder is about while the discovery stands at a position of a graph.
structure Builder.Mirrors (builder : Builder) (position : Nat) (graph : Graph) : Prop where
  found : builder.graph = graph
  next : builder.context.nextId = graph.length
  pending : builder.queue = graph.drop position
  inside : position ≤ graph.length
  known : ∀ path, (builder.context.lookup path).map Asset.id = (graph.assetAt? path).map Asset.id
  canonical : ∀ asset ∈ graph, Path.Canonical asset.path
  numbered : ∀ position asset, graph[position]? = some asset → asset.id = Int.ofNat position

variable {workshop : Workshop} {graph : Graph} {asset importer : Asset} {position : Nat} {path entry : Text}

theorem assetAt?_append (graph : Graph) (asset : Asset) (path : Text) :
    assetAt? (graph ++ [asset]) path
      = (graph.assetAt? path).or (if asset.path = path then some asset else none) := by
  rw [assetAt?, List.find?_append]
  congr 1
  by_cases here : asset.path = path <;> simp [here]

-- Which assets there are does not depend on their mappings.
theorem assetAt?_bare (graph : Graph) (path : Text) :
    (graph.assetAt? path).map Asset.id = (assetAt? (graph.map bare) path).map Asset.id := by
  rw [assetAt?, assetAt?, List.find?_map, Option.map_map]
  rfl

namespace Builder

variable {builder : Builder} {context : BuildContext}

theorem Mirrors.add (mirrors : builder.Mirrors position graph) (missing : graph.assetAt? asset.path = none)
    (canonical : Path.Canonical asset.path) (id : asset.id = Int.ofNat graph.length)
    (next : context = builder.context.takeId.2) :
    (builder.add asset context).Mirrors position (graph ++ [asset]) where
  found := congrArg (· ++ [asset]) mirrors.found
  next := by
    rw [next, List.length_append, List.length_singleton, ← mirrors.next]
    rfl
  pending := by
    rw [List.drop_append_of_le_length mirrors.inside, ← mirrors.pending]
    rfl
  inside := by
    rw [List.length_append]
    exact Nat.le_add_right_of_le mirrors.inside
  known path := by
    have remembered : (builder.add asset context).context.lookup path
        = if path == asset.path then some asset else builder.context.lookup path := by
      rw [next]
      exact Dictionary.lookup_put _ _ _ _
    rw [remembered, assetAt?_append]
    by_cases here : path = asset.path
    · rw [here, missing]
      simp
    · rw [if_neg (by simpa using here), if_neg (Ne.symm here), Option.or_none]
      exact mirrors.known path
  canonical other member := by
    obtain earlier | last := List.mem_append.mp member
    · exact mirrors.canonical other earlier
    · rw [List.mem_singleton.mp last]
      exact canonical
  numbered later other at_ := by
    obtain earlier | ⟨rfl, rfl⟩ := append_singleton_cases at_
    · exact mirrors.numbered later other earlier
    · exact id

-- The context builds what comes next in the graph.
theorem build_alike (mirrors : builder.Mirrors position graph) (path : Text) :
    Alike (fun (built, context) asset => built = asset ∧ context = builder.context.takeId.2 ∧
        graph.produceNext workshop path = .ok asset)
      (Logged.ofExcept (builder.context.build workshop path))
      (Logged.ofExcept (graph.produceNext workshop path)) := by
  have same : builder.context.build workshop path
      = (graph.produceNext workshop path).map fun asset => (asset, builder.context.takeId.2) := by
    rw [BuildContext.build, produceNext, mirrors.next]
    cases workshop.produceAsset graph.length (workshop.absolute path) <;> rfl
  rw [same]
  cases graph.produceNext workshop path with
  | error failure => exact .fail failure
  | ok asset => exact .pure ⟨rfl, rfl, rfl⟩

theorem follow_alike (mirrors : builder.Mirrors position graph) (canonical : Path.Canonical importer.path)
    (specifier : CodePoints) :
    Alike (fun (target, builder) (target', graph) => target.id = target'.id ∧ builder.Mirrors position graph)
      (builder.follow workshop importer specifier) (graph.follow workshop importer specifier) := by
  refine (Alike.refl _).bind ?_
  rintro path _ resolved rfl
  have target := resolve_canonical canonical.isAbsolute resolved
  have known := mirrors.known path
  cases there : graph.assetAt? path with
  | some asset =>
    rw [there] at known
    obtain ⟨remembered, looked, same⟩ := Option.map_eq_some_iff.mp known
    have note : reusedNote remembered importer specifier = reusedNote asset importer specifier := by
      unfold reusedNote
      rw [same]
    rw [looked]
    dsimp only
    rw [note]
    exact (Alike.refl _).bind fun _ _ _ _ => .pure ⟨same, mirrors⟩
  | none =>
    rw [there, Option.map_none, Option.map_eq_none_iff] at known
    rw [known]
    dsimp only
    split
    · rename_i file
      refine (build_alike mirrors path).bind ?_
      rintro ⟨asset, context⟩ _ built ⟨rfl, next, made⟩
      obtain ⟨rfl, _, new⟩ := produceNext_made target file made
      exact (Alike.refl _).bind fun _ _ _ _ => .pure ⟨rfl, mirrors.add there target new.id next⟩
    · exact .fail _

theorem followAll_alike (mirrors : builder.Mirrors position graph) (canonical : Path.Canonical importer.path)
    (specifiers : List CodePoints) (mapping : Dictionary CodePoints Int) :
    Alike (fun (mapping, builder) (mapping', graph) => mapping = mapping' ∧ builder.Mirrors position graph)
      (followAll workshop importer specifiers mapping builder)
      (Graph.followAll workshop importer specifiers mapping graph) := by
  induction specifiers generalizing mapping builder graph with
  | nil => exact .pure ⟨rfl, mirrors⟩
  | cons specifier specifiers ih =>
    refine (follow_alike mirrors canonical specifier).bind ?_
    rintro ⟨target, builder⟩ ⟨target', graph⟩ _ ⟨same, mirrors⟩
    dsimp only at same ⊢
    rw [same]
    exact ih mirrors _

theorem Mirrors.assign (mirrors : builder.Mirrors (position + 1) graph) (id : Int) (same : id = Int.ofNat position)
    (mapping : Dictionary CodePoints Int) :
    (builder.assign id mapping).Mirrors (position + 1) (graph.setMapping position mapping) := by
  have same_bare := setMapping_bare graph position mapping
  have kept : ∀ place asset, (graph.setMapping position mapping)[place]? = some asset →
      ∃ other, graph[place]? = some other ∧ bare other = bare asset := fun place asset at_ =>
    bare_parts same_bare at_
  have length : (graph.setMapping position mapping).length = graph.length := List.length_modify _ _ _
  constructor
  case found =>
    apply List.ext_getElem?
    intro place
    simp only [Builder.assign, mirrors.found, setMapping, List.getElem?_map, List.getElem?_modify]
    cases at_ : graph[place]? with
    | none => rfl
    | some asset =>
      have number := mirrors.numbered place asset at_
      by_cases here : position = place
      · simp [here, number, same]
      · have apart : ¬ asset.id = id := by
          rw [number, same]
          exact fun equal => here (Int.ofNat.inj equal).symm
        simp [here, apart]
  case next => exact mirrors.next.trans length.symm
  case pending =>
    refine mirrors.pending.trans (List.ext_getElem? fun place => ?_)
    have behind : position ≠ position + 1 + place := by omega
    simp only [setMapping, List.getElem?_drop, List.getElem?_modify, behind, if_false]
    cases graph[position + 1 + place]? <;> rfl
  case inside => exact length ▸ mirrors.inside
  case known =>
    intro path
    rw [assetAt?_bare, same_bare, ← assetAt?_bare]
    exact mirrors.known path
  case canonical =>
    intro asset member
    obtain ⟨place, at_⟩ := List.mem_iff_getElem?.mp member
    obtain ⟨other, there, equal⟩ := kept place asset at_
    rw [← (bare_fields equal).2.1]
    exact mirrors.canonical other (List.mem_of_getElem? there)
  case numbered =>
    intro place asset at_
    obtain ⟨other, there, equal⟩ := kept place asset at_
    rw [← (bare_fields equal).1]
    exact mirrors.numbered place other there

theorem drain_alike (fuel : Nat) (mirrors : builder.Mirrors position graph) :
    Alike (fun builder graph' => builder.graph = graph')
      (builder.drain workshop fuel) (visitFrom workshop fuel position graph) := by
  induction fuel generalizing builder position graph with
  | zero => exact .pure mirrors.found
  | succ fuel ih =>
    unfold drain visitFrom
    cases at_ : graph[position]? with
    | none =>
      have past := List.getElem?_eq_none_iff.mp at_
      rw [mirrors.pending, List.drop_eq_nil_of_le past]
      exact .pure mirrors.found
    | some asset =>
      obtain ⟨inside, here⟩ := List.getElem?_eq_some_iff.mp at_
      have pending := mirrors.pending
      rw [List.drop_eq_getElem_cons inside, here] at pending
      rw [pending]
      have popped : Mirrors { builder with queue := graph.drop (position + 1) } (position + 1) graph :=
        { mirrors with pending := rfl, inside := inside }
      have member := List.mem_of_getElem? at_
      refine (followAll_alike popped (mirrors.canonical asset member) _ _).bind ?_
      rintro ⟨mapping, builder⟩ ⟨mapping', graph⟩ _ ⟨same, mirrors'⟩
      dsimp only at same ⊢
      rw [same]
      exact ih (mirrors'.assign _ (mirrors.numbered _ _ at_) _)

theorem start_alike (workshop : Workshop) (entry : Text) :
    Alike (fun builder asset => builder.Mirrors 0 [asset])
      (start workshop entry) (produceEntry workshop entry) := by
  have canonical : Path.Canonical (workshop.absolute entry) :=
    Path.absolute_canonical (by simp [Path.isAbsolute, Disk.cwdPath]) entry
  have empty : Mirrors ⟨{}, [], []⟩ 0 [] := by
    refine ⟨rfl, rfl, rfl, Nat.le_refl _, fun _ => rfl, fun asset among => ?_, fun place asset at_ => ?_⟩
    · cases among
    · cases at_
  unfold start produceEntry
  dsimp only
  split
  · rename_i file
    refine (build_alike empty _).bind ?_
    rintro ⟨asset, context⟩ _ _ ⟨rfl, next, made⟩
    obtain ⟨same, _, new⟩ := produceNext_made canonical file made
    refine (Alike.refl _).bind fun _ _ _ _ => .pure ?_
    exact empty.add rfl (same ▸ canonical) new.id next
  · exact .fail _

end Builder

theorem build_eq_discover (workshop : Workshop) (entry : Text) :
    build workshop entry = discover workshop entry := by
  refine ((Builder.start_alike workshop entry).bind fun builder asset _ mirrors => ?_).eq
  refine (Builder.drain_alike _ mirrors).bind fun builder graph _ same => ?_
  rw [same]
  exact .refl _

end Graph
end ModuleBundler

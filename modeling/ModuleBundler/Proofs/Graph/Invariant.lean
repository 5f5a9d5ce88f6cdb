import ModuleBundler.Proofs.CanonicalPath
import ModuleBundler.Proofs.Graph.Recorded

/-!
What holds of a module graph while it is discovered. A front divides the places of specifiers, in
breadth-first order, into those that have been followed and those that have not; every step of the
discovery moves the front past one place and keeps the invariant.
-/
namespace ModuleBundler

namespace Dictionary

theorem keys_put_of_ne [BEq κ] [LawfulBEq κ] (rest : Dictionary κ α) {k key : κ} (v value : α)
    (different : k ≠ key) :
    (put ((k, v) :: rest) key value).keys = k :: (put rest key value).keys := by
  simp [put, different, keys]

theorem mem_keys_put [BEq κ] [LawfulBEq κ] (entries : Dictionary κ α) (key : κ) (value : α) :
    other ∈ (entries.put key value).keys ↔ other = key ∨ other ∈ entries.keys := by
  induction entries with
  | nil => simp [put, keys]
  | cons entry rest ih =>
    obtain ⟨k, v⟩ := entry
    by_cases same : k = key
    · subst same
      simp [put, keys]
    · rw [keys_put_of_ne rest v value same, List.mem_cons, ih]
      simp only [keys, List.map_cons, List.mem_cons]
      tauto

theorem nodup_keys_put [BEq κ] [LawfulBEq κ] (entries : Dictionary κ α) (key : κ) (value : α)
    (distinct : entries.keys.Nodup) : (entries.put key value).keys.Nodup := by
  induction entries with
  | nil => simp [put, keys]
  | cons entry rest ih =>
    obtain ⟨k, v⟩ := entry
    obtain ⟨absent, later⟩ := List.nodup_cons.mp distinct
    by_cases same : k = key
    · subst same
      simpa [put, keys] using distinct
    · have kept : k ∉ (put rest key value).keys := by
        rw [mem_keys_put]
        exact not_or.mpr ⟨same, absent⟩
      rw [keys_put_of_ne rest v value same]
      exact List.nodup_cons.mpr ⟨kept, ih later⟩

end Dictionary

namespace Graph

-- The code at one path needs the file at another.
def Imports (workshop : Workshop) (path target : Text) : Prop :=
  ∃ transpiled, workshop.produce path = .ok transpiled ∧
    ∃ specifier ∈ transpiled.dependencies, resolve path specifier = .ok target

inductive Reachable (workshop : Workshop) (entry : Text) : Text → Prop where
  | entry : Reachable workshop entry entry
  | next : Reachable workshop entry path → Imports workshop path target →
      Reachable workshop entry target

-- The place of a specifier: the position of its module and its own position in that module.
abbrev Place := Nat × Nat

-- Breadth-first order, by module first.
def Place.Before (first second : Place) : Prop :=
  first.1 < second.1 ∨ first.1 = second.1 ∧ first.2 < second.2

def Refers (graph : Graph) (place : Place) (path : Text) : Prop :=
  ∃ asset, graph[place.1]? = some asset ∧
    ∃ specifier, asset.dependencies[place.2]? = some specifier ∧
      resolve asset.path specifier = .ok path

-- The place at which a path is met for the first time.
def FirstRefers (graph : Graph) (place : Place) (path : Text) : Prop :=
  Refers graph place path ∧ ∀ earlier : Place, earlier.Before place → ¬ Refers graph earlier path

-- The keys of a mapping are the given specifiers, and each leads to the position of the asset that
-- it resolves to.
structure Leads (graph : Graph) (path : Text) (specifiers : List CodePoints)
    (mapping : Dictionary CodePoints Int) : Prop where
  distinct : mapping.keys.Nodup
  keys : ∀ specifier, specifier ∈ mapping.keys ↔ specifier ∈ specifiers
  targets : ∀ specifier ∈ specifiers, ∃ (position : Nat) (asset : Asset),
    mapping.lookup specifier = some (Int.ofNat position) ∧ graph[position]? = some asset ∧
      resolve path specifier = .ok asset.path

-- An asset is what its file yields, under its canonical path and with its position for identity.
structure Made (workshop : Workshop) (position : Nat) (asset : Asset) : Prop where
  id : asset.id = position
  canonical : Path.Canonical asset.path
  file : workshop.disk.isFile asset.path = true
  produced : ∃ transpiled, workshop.produce asset.path = .ok transpiled ∧
    asset.dependencies = transpiled.dependencies ∧ asset.code = transpiled.code

structure Found (workshop : Workshop) (entry : Text) (front : Place) (graph : Graph) : Prop where
  first : ∃ asset, graph[0]? = some asset ∧ asset.path = entry
  made : ∀ position asset, graph[position]? = some asset → Made workshop position asset
  distinct : (graph.map Asset.path).Nodup
  closed : ∀ place : Place, place.Before front → ∀ asset specifier,
    graph[place.1]? = some asset → asset.dependencies[place.2]? = some specifier →
      ∃ target ∈ graph, resolve asset.path specifier = .ok target.path
  found : ∀ position asset, graph[position]? = some asset → 0 < position →
    ∃ place : Place, place.Before front ∧ place.1 < position ∧ FirstRefers graph place asset.path
  ordered : ∀ position later asset other, graph[position]? = some asset →
    graph[later]? = some other → 0 < position → position < later → ∀ place place' : Place,
      FirstRefers graph place asset.path → FirstRefers graph place' other.path → place.Before place'

-- What one specifier can lead to: an asset that is there already, or a new one at the end.
inductive Follows (workshop : Workshop) (graph : Graph) (path : Text) :
    Asset → Graph → List Text → Prop where
  | known (there : graph.assetAt? path = some asset) :
      Follows workshop graph path asset graph []
  | new (missing : graph.assetAt? path = none) (file : workshop.disk.isFile path = true)
      (made : graph.produceNext workshop path = .ok asset) :
      Follows workshop graph path asset (graph ++ [asset]) [workshop.absolute path]

variable {workshop : Workshop} {graph : Graph} {asset importer : Asset} {place : Place}
  {position count : Nat} {path entry : Text} {specifier : CodePoints}

namespace Place

theorem Before.trans {first second third : Place} (left : first.Before second)
    (right : second.Before third) : first.Before third := by
  unfold Before at *
  omega

theorem Before.irrefl (place : Place) : ¬ place.Before place := by
  unfold Before
  omega

theorem Before.next (before : place.Before (position, count + 1)) :
    place.Before (position, count) ∨ place = (position, count) := by
  obtain ⟨i, k⟩ := place
  simp only [Before, Prod.mk.injEq] at before ⊢
  omega

theorem Before.total (first second : Place) :
    first.Before second ∨ first = second ∨ second.Before first := by
  obtain ⟨i, k⟩ := first
  obtain ⟨j, l⟩ := second
  simp only [Before, Prod.mk.injEq]
  omega

end Place

theorem FirstRefers.unique (left : FirstRefers graph place path)
    (right : FirstRefers graph other path) : place = other := by
  rcases Place.Before.total place other with earlier | same | later
  · exact absurd left.1 (right.2 place earlier)
  · exact same
  · exact absurd right.1 (left.2 other later)

theorem getElem?_append_singleton {graph : Graph} (found : graph[position]? = some asset)
    (new : Asset) : (graph ++ [new])[position]? = some asset := by
  rw [List.getElem?_append_left (List.getElem?_eq_some_iff.mp found).1, found]

theorem append_singleton_cases (at_ : (graph ++ [asset])[later]? = some other) :
    graph[later]? = some other ∨ later = graph.length ∧ other = asset := by
  rcases Nat.lt_trichotomy later graph.length with less | same | more
  · exact .inl (by rwa [List.getElem?_append_left less] at at_)
  · subst same
    exact .inr ⟨rfl, by simpa [eq_comm] using at_⟩
  · have out : (graph ++ [asset]).length ≤ later := by simp; omega
    rw [List.getElem?_eq_none out] at at_
    cases at_

-- Appending an asset changes nothing that the assets before it refer to.
theorem refers_append (inside : place.1 < graph.length) (new : Asset) :
    Refers (graph ++ [new]) place path ↔ Refers graph place path := by
  simp only [Refers, List.getElem?_append_left inside]

theorem firstRefers_append (inside : place.1 < graph.length) (new : Asset) :
    FirstRefers (graph ++ [new]) place path ↔ FirstRefers graph place path := by
  unfold FirstRefers
  rw [refers_append inside]
  refine and_congr_right fun _ => forall_congr' fun earlier => imp_congr_right fun before => ?_
  have bounded : earlier.1 < graph.length := by
    rcases before with less | ⟨same, _⟩
    · exact Nat.lt_trans less inside
    · exact same ▸ inside
  rw [refers_append bounded]

theorem Refers.inside (refers : Refers graph place path) : place.1 < graph.length := by
  obtain ⟨asset, at_, _⟩ := refers
  exact (List.getElem?_eq_some_iff.mp at_).1

theorem follow_parts
    (ran : (graph.recordFollow workshop importer specifier).step.outcome = .ok (target, next)) :
    ∃ path, resolve importer.path specifier = .ok path ∧
      Follows workshop graph path target next
        (graph.recordFollow workshop importer specifier).produced := by
  unfold recordFollow at ran ⊢
  obtain ⟨path, resolved, rest, recorded⟩ := Recorded.bind_parts ran
  refine ⟨path, resolved, ?_⟩
  rw [recorded]
  clear ran recorded
  cases known : graph.assetAt? path with
  | some asset =>
    simp only [known] at rest ⊢
    obtain ⟨_, _, answer, recorded⟩ := Recorded.bind_parts rest
    rw [recorded]
    cases answer
    exact .known known
  | none =>
    simp only [known] at rest ⊢
    split at rest
    · rename_i file
      simp only [file, if_true]
      obtain ⟨asset, made, noted, recorded⟩ := Recorded.bind_parts rest
      obtain ⟨_, _, answer, silent⟩ := Recorded.bind_parts noted
      rw [recorded, silent]
      cases answer
      exact .new known file made
    · cases rest

theorem assetAt?_some (there : assetAt? graph path = some asset) :
    asset ∈ graph ∧ asset.path = path := by
  have kept := List.find?_some there
  exact ⟨List.mem_of_find?_eq_some there, by simpa using kept⟩

theorem assetAt?_none (missing : assetAt? graph path = none) : path ∉ graph.map Asset.path := by
  intro member
  obtain ⟨asset, listed, rfl⟩ := List.mem_map.mp member
  have absent := List.find?_eq_none.mp missing asset listed
  simp at absent

theorem produceNext_made (canonical : Path.Canonical path)
    (file : workshop.disk.isFile path = true)
    (made : produceNext workshop graph path = .ok asset) :
    asset.path = path ∧ asset.mapping = [] ∧ Made workshop graph.length asset := by
  unfold produceNext Workshop.produceAsset at made
  rw [show workshop.absolute path = path from canonical.absolute _] at made
  cases yielded : workshop.produce path with
  | error failure => rw [yielded] at made; cases made
  | ok transpiled =>
    rw [yielded] at made
    cases made
    exact ⟨rfl, rfl, ⟨rfl, canonical, file, transpiled, yielded, rfl, rfl⟩⟩

theorem resolve_ok_iff {importer : Text} :
    resolve importer specifier = .ok path ↔ spelled? importer (CodePoints.named specifier) = some path := by
  unfold resolve
  split <;> simp [*]

theorem resolve_normalize {importer : Text} (resolved : resolve importer specifier = .ok path) :
    path = Path.normalize (Path.join (Path.dirname importer) (CodePoints.named specifier)) := by
  have spelled := resolve_ok_iff.mp resolved
  unfold spelled? at spelled
  split at spelled
  · exact (Option.some.inj spelled).symm
  · cases spelled

theorem resolve_canonical (absolute : Path.isAbsolute importer.path = true)
    (resolved : resolve importer.path specifier = .ok path) : Path.Canonical path := by
  rw [resolve_normalize resolved]
  exact Path.normalize_canonical_of_absolute
    (Path.isAbsolute_join (Path.isAbsolute_dirname absolute) _)

-- The asset that a known path leads to stands at the position of its identity.
theorem Found.numbered (valid : Found workshop entry front graph) (member : asset ∈ graph) :
    ∃ position, graph[position]? = some asset ∧ asset.id = Int.ofNat position := by
  obtain ⟨position, _, at_⟩ := List.mem_iff_getElem.mp member
  have there : graph[position]? = some asset := List.getElem?_eq_some_iff.mpr ⟨_, at_⟩
  exact ⟨position, there, (valid.made position asset there).id⟩

-- What is left of the specifiers begins with the one at the front.
theorem drop_parts {specifiers : List CodePoints} (rest : specifiers.drop count = specifier :: later) :
    specifiers[count]? = some specifier ∧ specifiers.drop (count + 1) = later := by
  constructor
  · rw [← List.head?_drop, rest]
    rfl
  · rw [← List.tail_drop, rest]
    rfl

-- A path that is referred to at a place that has been followed stands in the graph.
theorem Found.listed (valid : Found workshop entry front graph) (before : place.Before front)
    (refers : Refers graph place path) : ∃ asset ∈ graph, asset.path = path := by
  obtain ⟨owner, ownerAt, specifier, specifierAt, resolved⟩ := refers
  obtain ⟨target, member, leads⟩ := valid.closed place before owner specifier ownerAt specifierAt
  exact ⟨target, member, Except.ok.inj (leads.symm.trans resolved)⟩

-- Once every place has been followed, each specifier of each module leads to a module.
theorem Found.leads (valid : Found workshop entry (graph.length, 0) graph) (member : asset ∈ graph)
    (specified : specifier ∈ asset.dependencies) :
    ∃ target ∈ graph, resolve asset.path specifier = .ok target.path := by
  obtain ⟨position, at_, _⟩ := valid.numbered member
  obtain ⟨count, specifierAt⟩ := List.mem_iff_getElem?.mp specified
  have inside := (List.getElem?_eq_some_iff.mp at_).1
  exact valid.closed (position, count) (.inl inside) asset specifier at_ specifierAt

-- What holds of the entry, and of a module that is imported by one it holds of, holds of every module.
theorem Found.induction {motive : Asset → Prop} (valid : Found workshop entry front graph)
    (start : ∀ asset, asset.path = entry → motive asset)
    (next : ∀ owner ∈ graph, ∀ specifier ∈ owner.dependencies, ∀ asset : Asset,
      resolve owner.path specifier = .ok asset.path → motive owner → motive asset)
    (member : asset ∈ graph) : motive asset := by
  obtain ⟨position, at_, _⟩ := valid.numbered member
  induction position using Nat.strongRecOn generalizing asset with
  | ind position ih =>
    rcases Nat.eq_zero_or_pos position with rfl | positive
    · obtain ⟨first, firstAt, firstPath⟩ := valid.first
      rw [firstAt] at at_
      cases at_
      exact start _ firstPath
    · obtain ⟨place, _, bounded, ⟨owner, ownerAt, specifier, specifierAt, resolved⟩, _⟩ :=
        valid.found position asset at_ positive
      have imports := List.mem_of_getElem? ownerAt
      exact next owner imports specifier (List.mem_of_getElem? specifierAt) asset resolved
        (ih place.1 bounded imports ownerAt (valid.made _ owner ownerAt).id)

theorem Found.known (valid : Found workshop entry (position, count) graph)
    (importerAt : graph[position]? = some importer)
    (specifierAt : importer.dependencies[count]? = some specifier)
    (resolved : resolve importer.path specifier = .ok path)
    (there : graph.assetAt? path = some asset) : Found workshop entry (position, count + 1) graph := by
  obtain ⟨member, pathAt⟩ := assetAt?_some there
  refine ⟨valid.first, valid.made, valid.distinct, ?_, ?_, valid.ordered⟩
  · intro place before owner spelled ownerAt spelledAt
    rcases before.next with earlier | rfl
    · exact valid.closed place earlier owner spelled ownerAt spelledAt
    · rw [importerAt] at ownerAt
      cases ownerAt
      rw [specifierAt] at spelledAt
      cases spelledAt
      exact ⟨asset, member, pathAt ▸ resolved⟩
  · intro later other otherAt positive
    obtain ⟨place, before, bounded, refers⟩ := valid.found later other otherAt positive
    exact ⟨place, before.trans (by simp [Place.Before]), bounded, refers⟩

-- A path that is met for the first time at the front comes after all that were met before.
theorem Found.new (valid : Found workshop entry (position, count) graph)
    (importerAt : graph[position]? = some importer)
    (specifierAt : importer.dependencies[count]? = some specifier)
    (resolved : resolve importer.path specifier = .ok path)
    (missing : path ∉ graph.map Asset.path) (made : Made workshop graph.length asset)
    (pathAt : asset.path = path) :
    Found workshop entry (position, count + 1) (graph ++ [asset]) := by
  have inside : position < graph.length := (List.getElem?_eq_some_iff.mp importerAt).1
  have absent : ∀ other ∈ graph, other.path ≠ path :=
    fun other member same => missing (List.mem_map.mpr ⟨other, member, same⟩)
  have firstHere : FirstRefers graph (position, count) path := by
    refine ⟨⟨importer, importerAt, specifier, specifierAt, resolved⟩, ?_⟩
    intro earlier before refers
    obtain ⟨target, member, same⟩ := valid.listed before refers
    exact absent target member same
  refine ⟨?_, ?_, ?_, ?_, ?_, ?_⟩
  · obtain ⟨start, startAt, startPath⟩ := valid.first
    exact ⟨start, getElem?_append_singleton startAt asset, startPath⟩
  · intro later other at_
    rcases append_singleton_cases at_ with old | ⟨rfl, rfl⟩
    · exact valid.made later other old
    · exact made
  · rw [List.map_append, List.nodup_append]
    refine ⟨valid.distinct, by simp, ?_⟩
    intro known member new newMember same
    obtain rfl : new = asset.path := by simpa using newMember
    exact missing (pathAt ▸ same ▸ member)
  · intro place before owner spelled ownerAt spelledAt
    have bounded : place.1 < graph.length := by
      rcases before with less | ⟨same, _⟩
      · exact Nat.lt_trans less inside
      · exact same ▸ inside
    rw [List.getElem?_append_left bounded] at ownerAt
    rcases before.next with earlier | rfl
    · obtain ⟨target, member, leads⟩ := valid.closed place earlier owner spelled ownerAt spelledAt
      exact ⟨target, List.mem_append_left _ member, leads⟩
    · rw [importerAt] at ownerAt
      cases ownerAt
      rw [specifierAt] at spelledAt
      cases spelledAt
      exact ⟨asset, by simp, pathAt ▸ resolved⟩
  · intro later other at_ positive
    rcases append_singleton_cases at_ with old | ⟨rfl, rfl⟩
    · obtain ⟨place, before, bounded, refers⟩ := valid.found later other old positive
      exact ⟨place, before.trans (by simp [Place.Before]), bounded,
        (firstRefers_append refers.1.inside asset).mpr refers⟩
    · exact ⟨(position, count), by simp [Place.Before], inside,
        (firstRefers_append inside other).mpr (pathAt ▸ firstHere)⟩
  · intro early later one other oneAt otherAt positive less place place' firstOne firstOther
    rcases append_singleton_cases oneAt with oldOne | ⟨rfl, rfl⟩
    · obtain ⟨known, before, _, refers⟩ := valid.found early one oldOne positive
      have placeAt : place = known :=
        firstOne.unique ((firstRefers_append refers.1.inside asset).mpr refers)
      rcases append_singleton_cases otherAt with oldOther | ⟨rfl, rfl⟩
      · obtain ⟨known', _, _, refers'⟩ :=
          valid.found later other oldOther (Nat.lt_trans positive less)
        have placeAt' : place' = known' :=
          firstOther.unique ((firstRefers_append refers'.1.inside asset).mpr refers')
        rw [placeAt, placeAt']
        exact valid.ordered early later one other oldOne oldOther positive less _ _ refers refers'
      · have placeAt' : place' = (position, count) :=
          firstOther.unique ((firstRefers_append inside other).mpr (pathAt ▸ firstHere))
        rw [placeAt, placeAt']
        exact before
    · rcases append_singleton_cases otherAt with oldOther | ⟨rfl, rfl⟩
      · have bounded := (List.getElem?_eq_some_iff.mp oldOther).1
        omega
      · omega

end Graph
end ModuleBundler

import ModuleBundler.Proofs.Graph.Invariant

/-!
A discovered graph is the closure of its entry under imports, each file produced once and met in
breadth-first order.
-/
namespace ModuleBundler.Graph

-- An asset without its mapping, which is all that a later visit changes.
def bare (asset : Asset) : Asset := { asset with mapping := [] }

-- Everything that a run appends, and what it leaves in place.
structure Extends (graph next : Graph) (produced : List Text) : Prop where
  kept : ∀ (position : Nat) (asset : Asset), graph[position]? = some asset → next[position]? = some asset
  paths : next.map Asset.path = graph.map Asset.path ++ produced

variable {workshop : Workshop} {graph next : Graph} {asset importer target : Asset}
  {position count : Nat} {path entry : Text} {specifier : CodePoints}
  {mapping : Dictionary CodePoints Int}

theorem Extends.refl (graph : Graph) : Extends graph graph [] := ⟨fun _ _ at_ => at_, by simp⟩

theorem Extends.trans {last : Graph} {first second : List Text} (left : Extends graph next first)
    (right : Extends next last second) : Extends graph last (first ++ second) :=
  ⟨fun position asset at_ => right.kept position asset (left.kept position asset at_),
    by rw [right.paths, left.paths, List.append_assoc]⟩

theorem Leads.kept (leads : Leads graph path specifiers mapping)
    (kept : ∀ (position : Nat) (asset : Asset), graph[position]? = some asset →
      ∃ later, next[position]? = some later ∧ later.path = asset.path) :
    Leads next path specifiers mapping := by
  refine ⟨leads.distinct, leads.keys, ?_⟩
  intro spelled member
  obtain ⟨position, asset, found, at_, resolved⟩ := leads.targets spelled member
  obtain ⟨later, laterAt, same⟩ := kept position asset at_
  exact ⟨position, later, found, laterAt, same ▸ resolved⟩

theorem Leads.put (leads : Leads graph path specifiers mapping)
    (at_ : graph[position]? = some target) (resolved : resolve path specifier = .ok target.path) :
    Leads graph path (specifiers ++ [specifier]) (mapping.put specifier (Int.ofNat position)) := by
  refine ⟨Dictionary.nodup_keys_put mapping specifier _ leads.distinct, ?_, ?_⟩
  · intro spelled
    rw [Dictionary.mem_keys_put, leads.keys]
    simp [or_comm]
  · intro spelled member
    by_cases same : spelled = specifier
    · subst same
      exact ⟨position, target, by simp [Dictionary.lookup_put], at_, resolved⟩
    · have old : spelled ∈ specifiers := by simpa [same] using member
      obtain ⟨known, asset, found, there, leadsTo⟩ := leads.targets spelled old
      exact ⟨known, asset, by simpa [Dictionary.lookup_put, same] using found, there, leadsTo⟩

-- One specifier: the front moves past it and the mapping gains it.
theorem follow_found (valid : Found workshop entry (position, count) graph)
    (importerAt : graph[position]? = some importer)
    (specifierAt : importer.dependencies[count]? = some specifier)
    (leads : Leads graph importer.path (importer.dependencies.take count) mapping)
    (ran : (graph.recordFollow workshop importer specifier).step.outcome = .ok (target, next)) :
    Found workshop entry (position, count + 1) next ∧
      Leads next importer.path (importer.dependencies.take (count + 1))
        (mapping.put specifier target.id) ∧
      Extends graph next (graph.recordFollow workshop importer specifier).produced := by
  obtain ⟨path, resolved, follows⟩ := follow_parts ran
  have canonical := resolve_canonical (valid.made position importer importerAt).canonical.isAbsolute
    resolved
  have taken : importer.dependencies.take (count + 1)
      = importer.dependencies.take count ++ [specifier] := by
    rw [List.take_add_one, specifierAt]; rfl
  rw [taken]
  generalize (graph.recordFollow workshop importer specifier).produced = produced at follows
  cases follows with
  | known there =>
    obtain ⟨member, pathAt⟩ := assetAt?_some there
    obtain ⟨known, knownAt, idAt⟩ := valid.numbered member
    refine ⟨valid.known importerAt specifierAt resolved there, ?_, .refl graph⟩
    rw [idAt]
    exact leads.put knownAt (pathAt ▸ resolved)
  | new missing file made =>
    obtain ⟨pathAt, _, madeAt⟩ := produceNext_made canonical file made
    have absent := assetAt?_none missing
    refine ⟨valid.new importerAt specifierAt resolved absent madeAt pathAt, ?_, ?_, ?_⟩
    · rw [madeAt.id]
      refine Leads.put (leads.kept fun known asset at_ => ?_) (by simp) (pathAt ▸ resolved)
      exact ⟨asset, getElem?_append_singleton at_ target, rfl⟩
    · exact fun known asset at_ => getElem?_append_singleton at_ target
    · have same : workshop.absolute path = path := canonical.absolute _
      simp [same, pathAt]

theorem followAll_found (specifiers : List CodePoints) (mapping : Dictionary CodePoints Int) (graph : Graph)
    (valid : Found workshop entry (position, count) graph)
    (importerAt : graph[position]? = some importer)
    (rest : importer.dependencies.drop count = specifiers)
    (leads : Leads graph importer.path (importer.dependencies.take count) mapping)
    (ran : (graph.recordFollowAll workshop importer specifiers mapping).step.outcome
      = .ok (mapped, next)) :
    Found workshop entry (position, importer.dependencies.length) next ∧
      Leads next importer.path importer.dependencies mapped ∧
      Extends graph next (graph.recordFollowAll workshop importer specifiers mapping).produced := by
  induction specifiers generalizing count mapping graph with
  | nil =>
    have whole : importer.dependencies.length ≤ count := List.drop_eq_nil_iff.mp rest
    cases ran
    rw [List.take_of_length_le whole] at leads
    refine ⟨⟨valid.first, valid.made, valid.distinct, ?_, ?_, valid.ordered⟩, leads, .refl _⟩
    · intro place before
      exact valid.closed place (by simp only [Place.Before] at *; omega)
    · intro later other otherAt positive
      obtain ⟨place, before, bounded, refers⟩ := valid.found later other otherAt positive
      refine ⟨place, ?_, bounded, refers⟩
      obtain ⟨owner, ownerAt, spelled, spelledAt, _⟩ := refers.1
      have inside := (List.getElem?_eq_some_iff.mp spelledAt).1
      rcases before with less | ⟨same, _⟩
      · exact .inl less
      · dsimp only at same
        rw [same, importerAt] at ownerAt
        cases ownerAt
        exact .inr ⟨same, inside⟩
  | cons specifier specifiers ih =>
    obtain ⟨specifierAt, later⟩ := drop_parts rest
    unfold recordFollowAll at ran ⊢
    obtain ⟨⟨target, middle⟩, followed, continued, recorded⟩ := Recorded.bind_parts ran
    obtain ⟨validMiddle, leadsMiddle, grown⟩ :=
      follow_found valid importerAt specifierAt leads followed
    obtain ⟨validNext, leadsNext, extended⟩ :=
      ih _ middle validMiddle (grown.kept _ _ importerAt) later leadsMiddle continued
    rw [recorded]
    exact ⟨validNext, leadsNext, grown.trans extended⟩

theorem bare_parts (same : next.map bare = graph.map bare) (at_ : next[position]? = some asset) :
    ∃ old, graph[position]? = some old ∧ bare old = bare asset := by
  have mapped : (graph.map bare)[position]? = some (bare asset) := by
    rw [← same, List.getElem?_map, at_]; rfl
  rw [List.getElem?_map] at mapped
  exact Option.map_eq_some_iff.mp mapped

theorem bare_fields (same : bare asset = bare target) :
    asset.id = target.id ∧ asset.path = target.path ∧ asset.dependencies = target.dependencies ∧
      asset.code = target.code := by
  simpa [bare] using same

theorem refers_bare (same : next.map bare = graph.map bare) (refers : Refers next place path) :
    Refers graph place path := by
  obtain ⟨asset, at_, specifier, specifierAt, resolved⟩ := refers
  obtain ⟨old, oldAt, alike⟩ := bare_parts same at_
  obtain ⟨_, pathAt, dependenciesAt, _⟩ := bare_fields alike
  exact ⟨old, oldAt, specifier, dependenciesAt ▸ specifierAt, pathAt ▸ resolved⟩

theorem firstRefers_bare (same : next.map bare = graph.map bare)
    (refers : FirstRefers next place path) : FirstRefers graph place path :=
  ⟨refers_bare same refers.1,
    fun earlier before there => refers.2 earlier before (refers_bare same.symm there)⟩

-- The invariant does not look at mappings.
theorem Found.bare (valid : Found workshop entry front graph)
    (same : next.map bare = graph.map bare) : Found workshop entry front next := by
  refine ⟨?_, ?_, ?_, ?_, ?_, ?_⟩
  · obtain ⟨asset, at_, pathAt⟩ := valid.first
    obtain ⟨later, laterAt, alike⟩ := bare_parts same.symm at_
    exact ⟨later, laterAt, (bare_fields alike).2.1.trans pathAt⟩
  · intro position asset at_
    obtain ⟨old, oldAt, alike⟩ := bare_parts same at_
    obtain ⟨idAt, pathAt, dependenciesAt, codeAt⟩ := bare_fields alike
    obtain ⟨id, canonical, file, produced⟩ := valid.made position old oldAt
    rw [pathAt, dependenciesAt, codeAt] at *
    exact ⟨idAt ▸ id, canonical, file, produced⟩
  · have paths : next.map Asset.path = graph.map Asset.path := by
      have dropped : ∀ assets : Graph, (assets.map Graph.bare).map Asset.path = assets.map Asset.path :=
        fun assets => by simp [Graph.bare, Function.comp_def]
      rw [← dropped next, same, dropped graph]
    exact paths ▸ valid.distinct
  · intro place before asset specifier at_ specifierAt
    obtain ⟨old, oldAt, alike⟩ := bare_parts same at_
    obtain ⟨_, pathAt, dependenciesAt, _⟩ := bare_fields alike
    obtain ⟨target, member, resolved⟩ :=
      valid.closed place before old specifier oldAt (dependenciesAt ▸ specifierAt)
    obtain ⟨targetPosition, _, targetAt⟩ := List.mem_iff_getElem.mp member
    obtain ⟨later, laterAt, alikeTarget⟩ :=
      bare_parts same.symm (List.getElem?_eq_some_iff.mpr ⟨_, targetAt⟩)
    refine ⟨later, List.mem_of_getElem? laterAt, ?_⟩
    rw [← pathAt, (bare_fields alikeTarget).2.1]
    exact resolved
  · intro position asset at_ positive
    obtain ⟨old, oldAt, alike⟩ := bare_parts same at_
    obtain ⟨place, before, bounded, refers⟩ := valid.found position old oldAt positive
    rw [(bare_fields alike).2.1] at refers
    exact ⟨place, before, bounded, firstRefers_bare same.symm refers⟩
  · intro position later asset other at_ otherAt positive less place place' first first'
    obtain ⟨old, oldAt, alike⟩ := bare_parts same at_
    obtain ⟨old', oldAt', alike'⟩ := bare_parts same otherAt
    refine valid.ordered position later old old' oldAt oldAt' positive less place place' ?_ ?_
    · exact (bare_fields alike).2.1 ▸ firstRefers_bare same first
    · exact (bare_fields alike').2.1 ▸ firstRefers_bare same first'

theorem setMapping_bare (graph : Graph) (position : Nat) (mapping : Dictionary CodePoints Int) :
    (graph.setMapping position mapping).map bare = graph.map bare := by
  apply List.ext_getElem?
  intro place
  simp only [setMapping, List.getElem?_map, List.getElem?_modify]
  cases graph[place]? with
  | none => rfl
  | some asset => by_cases here : position = place <;> simp [here, bare]

-- The modules that can be found are files, so there are not more than the fuel allows for.
theorem Found.length_le (valid : Found workshop entry front graph) :
    graph.length ≤ mostAssets workshop := by
  have known : ∀ path ∈ graph.map Asset.path,
      Path.Canonical path ∧ workshop.disk.isFile path = true := by
    intro path member
    obtain ⟨asset, listed, rfl⟩ := List.mem_map.mp member
    obtain ⟨position, at_, _⟩ := valid.numbered listed
    have made := valid.made position asset at_
    exact ⟨made.canonical, made.file⟩
  have bound := Disk.length_le_of_files workshop.disk (graph.map Asset.path) valid.distinct
    (fun path member => (known path member).1) (fun path member => (known path member).2)
  simpa [mostAssets] using bound

-- Behind the last specifier of a module the front stands before the first one of the next.
theorem Found.advance (valid : Found workshop entry (position, importer.dependencies.length) graph)
    (importerAt : graph[position]? = some importer) :
    Found workshop entry (position + 1, 0) graph := by
  refine ⟨valid.first, valid.made, valid.distinct, ?_, ?_, valid.ordered⟩
  · intro place before owner spelled ownerAt spelledAt
    refine valid.closed place ?_ owner spelled ownerAt spelledAt
    have limit := (List.getElem?_eq_some_iff.mp spelledAt).1
    rcases Nat.lt_or_ge place.1 position with less | more
    · exact .inl less
    · have same : place.1 = position := by simp only [Place.Before] at before; omega
      rw [same, importerAt] at ownerAt
      cases ownerAt
      exact .inr ⟨same, limit⟩
  · intro later other otherAt positive
    obtain ⟨place, before, below, refers⟩ := valid.found later other otherAt positive
    exact ⟨place, before.trans (by simp [Place.Before]), below, refers⟩

theorem visits_found (fuel position : Nat) (graph : Graph)
    (valid : Found workshop entry (position, 0) graph)
    (mapped : ∀ (visited : Nat) (asset : Asset), visited < position → graph[visited]? = some asset →
      Leads graph asset.path asset.dependencies asset.mapping)
    (enough : mostAssets workshop < fuel + position) (bounded : position ≤ graph.length)
    (ran : (recordVisits workshop fuel position graph).step.outcome = .ok next) :
    Found workshop entry (next.length, 0) next ∧
      (∀ (visited : Nat) (asset : Asset), next[visited]? = some asset →
        Leads next asset.path asset.dependencies asset.mapping) ∧
      next.map Asset.path
        = graph.map Asset.path ++ (recordVisits workshop fuel position graph).produced := by
  induction fuel generalizing position graph with
  | zero =>
    have most := valid.length_le
    omega
  | succ fuel ih =>
    unfold recordVisits at ran ⊢
    cases at_ : graph[position]? with
    | none =>
      simp only [at_] at ran ⊢
      cases ran
      have ended : position = next.length := by
        have out := List.getElem?_eq_none_iff.mp at_
        omega
      subst ended
      refine ⟨valid, fun visited asset visitedAt => ?_, by simp [pure, Recorded.lift]⟩
      exact mapped visited asset (List.getElem?_eq_some_iff.mp visitedAt).1 visitedAt
    | some importer =>
      simp only [at_] at ran ⊢
      obtain ⟨⟨mapping, middle⟩, followed, continued, recorded⟩ := Recorded.bind_parts ran
      obtain ⟨validMiddle, leads, grown⟩ := followAll_found importer.dependencies [] graph valid at_
        (by simp) ⟨by simp [Dictionary.keys], by simp [Dictionary.keys], by simp⟩ followed
      have importerAt := grown.kept position importer at_
      have inside : position < middle.length := (List.getElem?_eq_some_iff.mp importerAt).1
      have same := setMapping_bare middle position mapping
      have keeps : ∀ (visited : Nat) (asset : Asset), middle[visited]? = some asset →
          ∃ later, (middle.setMapping position mapping)[visited]? = some later ∧
            later.path = asset.path := by
        intro visited asset visitedAt
        obtain ⟨later, laterAt, alike⟩ := bare_parts same.symm visitedAt
        exact ⟨later, laterAt, (bare_fields alike).2.1⟩
      have mappedNext : ∀ (visited : Nat) (asset : Asset), visited < position + 1 →
          (middle.setMapping position mapping)[visited]? = some asset →
            Leads (middle.setMapping position mapping) asset.path asset.dependencies
              asset.mapping := by
        intro visited asset less visitedAt
        simp only [setMapping, List.getElem?_modify] at visitedAt
        rcases Nat.lt_or_ge visited position with earlier | reached
        · have different : position ≠ visited := by omega
          obtain ⟨old, oldAt⟩ : ∃ old, graph[visited]? = some old :=
            ⟨_, List.getElem?_eq_getElem (by omega)⟩
          have there := grown.kept visited old oldAt
          simp only [there, different, if_false] at visitedAt
          cases visitedAt
          exact ((mapped visited _ earlier oldAt).kept
            fun known asset at_ => ⟨asset, grown.kept known asset at_, rfl⟩).kept keeps
        · obtain rfl : visited = position := by omega
          simp only [importerAt, if_true] at visitedAt
          cases visitedAt
          exact leads.kept keeps
      obtain ⟨validLast, mappedLast, paths⟩ := ih (position + 1) (middle.setMapping position mapping)
        ((validMiddle.advance importerAt).bare same) mappedNext (by omega) (by simp only [setMapping, List.length_modify]; omega) continued
      refine ⟨validLast, mappedLast, ?_⟩
      have kept : (middle.setMapping position mapping).map Asset.path = middle.map Asset.path := by
        apply List.ext_getElem?
        intro place
        simp only [setMapping, List.getElem?_map, List.getElem?_modify]
        cases middle[place]? with
        | none => rfl
        | some asset => by_cases here : position = place <;> simp [here]
      rw [recorded, paths, kept, grown.paths, List.append_assoc]

theorem entry_found (ran : (recordEntry workshop entry).step.outcome = .ok asset) :
    Found workshop (workshop.absolute entry) (0, 0) [asset] ∧
      (recordEntry workshop entry).produced = [asset].map Asset.path := by
  have canonical : Path.Canonical (workshop.absolute entry) :=
    Path.absolute_canonical (by simp [Path.isAbsolute, Disk.cwdPath]) entry
  unfold recordEntry at ran ⊢
  dsimp only at ran ⊢
  split at ran
  · rename_i file
    simp only [file, if_true]
    obtain ⟨made, produced, noted, recorded⟩ := Recorded.bind_parts ran
    obtain ⟨_, _, answer, silent⟩ := Recorded.bind_parts noted
    cases answer
    obtain ⟨pathAt, _, madeAt⟩ := produceNext_made canonical file produced
    have only : ∀ {position other}, [asset][position]? = some other →
        position = 0 ∧ other = asset := by
      intro position other at_
      cases position with
      | zero => exact ⟨rfl, by simpa [eq_comm] using at_⟩
      | succ position => simp at at_
    refine ⟨⟨⟨asset, rfl, pathAt⟩, ?_, by simp, ?_, ?_, ?_⟩, ?_⟩
    · intro position other at_
      obtain ⟨rfl, rfl⟩ := only at_
      exact madeAt
    · intro place before
      simp [Place.Before] at before
    · intro position other at_ positive
      have zero := (only at_).1
      omega
    · intro position later one other _ otherAt positive less
      have zero := (only otherAt).1
      omega
    · rw [recorded, silent]
      have same : workshop.absolute (workshop.absolute entry) = workshop.absolute entry :=
        canonical.absolute _
      simp [recordNext, Recorded.lift, pure, same, pathAt, Logged.note]
  · cases ran

-- What a discovery that succeeds has found.
theorem discovery_found (ran : (recordDiscovery workshop entry).step.outcome = .ok graph) :
    Found workshop (workshop.absolute entry) (graph.length, 0) graph ∧
      (∀ (position : Nat) (asset : Asset), graph[position]? = some asset →
        Leads graph asset.path asset.dependencies asset.mapping) ∧
      (recordDiscovery workshop entry).produced = graph.map Asset.path := by
  unfold recordDiscovery at ran ⊢
  obtain ⟨asset, entered, rest, recorded⟩ := Recorded.bind_parts ran
  obtain ⟨visited, ran_, validated, recordedRest⟩ := Recorded.bind_parts rest
  obtain ⟨valid, produced⟩ := entry_found entered
  have answer : visited = graph := by
    simp only [Recorded.lift, Logged.ofExcept, validate] at validated
    split at validated
    · cases validated; rfl
    · cases validated
  subst answer
  obtain ⟨validLast, mapped, paths⟩ := visits_found _ 0 [asset] valid
    (fun _ _ less => absurd less (Nat.not_lt_zero _)) (by omega) (by simp) ran_
  refine ⟨validLast, mapped, ?_⟩
  rw [recorded, recordedRest, paths, produced]
  simp [Recorded.lift]

-- Whatever has been found is reachable, also while places are still to be followed.
theorem Found.reached (valid : Found workshop entry front graph) (member : asset ∈ graph) :
    Reachable workshop entry asset.path := by
  refine valid.induction (motive := fun asset => Reachable workshop entry asset.path)
    (fun first path => path ▸ .entry) ?_ member
  intro owner listed specifier specified asset resolved reachable
  obtain ⟨position, at_, _⟩ := valid.numbered listed
  obtain ⟨transpiled, produced, dependencies, _⟩ := (valid.made position owner at_).produced
  exact .next reachable ⟨transpiled, produced, specifier, dependencies ▸ specified, resolved⟩

-- Once every place has been followed, the paths of the graph are closed under imports.
theorem Found.reachable (valid : Found workshop entry (graph.length, 0) graph) (path : Text) :
    path ∈ graph.map Asset.path ↔ Reachable workshop entry path := by
  constructor
  · intro member
    obtain ⟨asset, listed, rfl⟩ := List.mem_map.mp member
    exact valid.reached listed
  · intro reachable
    induction reachable with
    | entry =>
      obtain ⟨start, startAt, startPath⟩ := valid.first
      exact startPath ▸ List.mem_map_of_mem (List.mem_of_getElem? startAt)
    | next _ imports ih =>
      obtain ⟨asset, listed, rfl⟩ := List.mem_map.mp ih
      obtain ⟨position, at_, _⟩ := valid.numbered listed
      obtain ⟨transpiled, produced, dependencies, _⟩ := (valid.made position asset at_).produced
      obtain ⟨transpiled', produced', specifier, member, resolved⟩ := imports
      rw [produced] at produced'
      cases produced'
      obtain ⟨target, targetMember, leads⟩ := valid.leads listed (dependencies ▸ member)
      rw [resolved] at leads
      cases leads
      exact List.mem_map_of_mem targetMember

-- A discovery that succeeds has found the modules that the entry reaches, in breadth-first order:
-- identities are positions, every file was produced once, and every specifier of every module leads
-- to the asset it resolves to.
theorem discover_breadth_first_closure (ran : (discover workshop entry).outcome = .ok graph) :
    (∀ (position : Nat) (asset : Asset), graph[position]? = some asset →
      asset.id = Int.ofNat position) ∧
    (graph.map Asset.path).Nodup ∧
    graph.head?.map Asset.path = some (workshop.absolute entry) ∧
    (∀ path, path ∈ graph.map Asset.path ↔ Reachable workshop (workshop.absolute entry) path) ∧
    (∀ asset ∈ graph, ∃ transpiled, workshop.produce asset.path = .ok transpiled ∧
      asset.dependencies = transpiled.dependencies ∧ asset.code = transpiled.code) ∧
    (recordDiscovery workshop entry).step = discover workshop entry ∧
    (recordDiscovery workshop entry).produced = graph.map Asset.path ∧
    (∀ asset ∈ graph, Leads graph asset.path asset.dependencies asset.mapping) ∧
    (∀ (position : Nat) (asset : Asset), graph[position]? = some asset → 0 < position →
      ∃ place : Place, place.1 < position ∧ FirstRefers graph place asset.path) ∧
    ∀ (position later : Nat) (asset other : Asset), graph[position]? = some asset →
      graph[later]? = some other → 0 < position → position < later → ∀ place place' : Place,
        FirstRefers graph place asset.path → FirstRefers graph place' other.path →
          place.Before place' := by
  rw [← step_recordDiscovery] at ran
  obtain ⟨valid, mapped, produced⟩ := discovery_found ran
  refine ⟨fun position asset at_ => (valid.made position asset at_).id, valid.distinct, ?_,
    valid.reachable, ?_, step_recordDiscovery workshop entry, produced, ?_, ?_, valid.ordered⟩
  · obtain ⟨start, startAt, startPath⟩ := valid.first
    rw [List.head?_eq_getElem?, startAt, ← startPath]
    rfl
  · intro asset member
    obtain ⟨position, at_, _⟩ := valid.numbered member
    exact (valid.made position asset at_).produced
  · intro asset member
    obtain ⟨position, at_, _⟩ := valid.numbered member
    exact mapped position asset at_
  · intro position asset at_ positive
    obtain ⟨place, _, bounded, refers⟩ := valid.found position asset at_ positive
    exact ⟨place, bounded, refers⟩

-- Two modules that import each other and themselves, with two specifiers for one path.
def mutualWorkshop : Workshop :=
  let transpiler : Transpiler := fun source path =>
    let specifiers :=
      if path = "/w/a.js".toList then ["./b.js", "../w/b.js", "./b.js"] else ["./a.js", "/w/b.js"]
    .ok ⟨specifiers.map String.toList, source⟩
  let file (name : String) : Location × Entry := ([['w'], name.toList], .text [])
  ⟨⟨[['w']], [file "a.js", file "b.js"]⟩, [], [], transpiler⟩

def mutualGraph : Graph :=
  [⟨0, "/w/a.js".toList, ["./b.js", "../w/b.js", "./b.js"].map (CodePoints.ofText ·.toList), [],
      [("./b.js".toList, 1), ("../w/b.js".toList, 1)]⟩,
    ⟨1, "/w/b.js".toList, ["./a.js", "/w/b.js"].map (CodePoints.ofText ·.toList), [],
      [("./a.js".toList, 0), ("/w/b.js".toList, 1)]⟩]

theorem discover_mutual_closure :
    (discover mutualWorkshop "a.js".toList).outcome = .ok mutualGraph ∧
      (recordDiscovery mutualWorkshop "a.js".toList).produced = mutualGraph.map Asset.path := by
  have ran : (discover mutualWorkshop "a.js".toList).outcome = .ok mutualGraph :=
    ok_of_toOption (by decide +kernel)
  obtain ⟨_, _, _, _, _, _, once, _⟩ := discover_breadth_first_closure ran
  exact ⟨ran, once⟩

end ModuleBundler.Graph

import Mathlib.Data.Int.Order.Basic
import Mathlib.Data.List.Cycle
import Mathlib.Data.List.Lex
import ModuleBundler.Graph.Cycle
import ModuleBundler.Proofs.Graph.Invariant

/-!
The cycles of a graph are its elementary cycles: every one is found, once, from its smallest identity.
The search keeps a stack of paths that are still to be lengthened. It is described here without a bound
on its turns, and it ends because no path meets an asset twice.
-/
namespace ModuleBundler.Graph

-- One module needs another: the mapping leads there from one of its dependencies.
def Edge (graph : Graph) (source target : Int) : Prop :=
  ∃ asset ∈ graph, asset.id = source ∧
    ∃ specifier ∈ asset.dependencies, asset.mapping.lookup specifier = some target

-- A walk that comes back to where it began and meets no module twice on the way. Where it begins
-- does not matter.
structure Elementary (graph : Graph) (cycle : List Int) : Prop where
  walked : cycle ≠ []
  distinct : cycle.Nodup
  linked : (cycle : Cycle Int).Chain (Edge graph)

-- The smallest identity comes first.
def LeastFirst (cycle : List Int) : Prop :=
  ∃ start more, cycle = start :: more ∧ ∀ id ∈ more, start < id

-- The paths that go on from the end of a path.
def lengthened (edges : Dictionary Int (List Int)) (start : Int) (path : List Int) (node : Int) :
    List (List Int × Int) :=
  ((targetsOf edges node).filter fun target =>
    target ≠ start && start < target && !path.contains target).map fun target =>
      (path ++ [target], target)

-- The path itself, for every edge that leads back to its start.
def closings (edges : Dictionary Int (List Int)) (start : Int) (path : List Int) (node : Int) :
    List (List Int) :=
  ((targetsOf edges node).filter (· = start)).map fun _ => path

-- A run of the search from a stack of paths, each with its end, and what it finds. In every turn the
-- path on top makes way for those that go on from it.
inductive Searches (edges : Dictionary Int (List Int)) (start : Int) :
    List (List Int × Int) → List (List Int) → Prop where
  | done : Searches edges start [] []
  | turn (rest : Searches edges start ((lengthened edges start path node).reverse ++ pending) found) :
      Searches edges start ((path, node) :: pending) (closings edges start path node ++ found)

-- What is left to be met: the assets that are not on the path, and the end if it is an asset itself.
def rank (edges : Dictionary Int (List Int)) (path : List Int) (node : Int) : Nat :=
  (edges.keys.filter (· ∉ path)).length + if node ∈ edges.keys then 1 else 0

variable {graph : Graph} {asset : Asset} {edges : Dictionary Int (List Int)}
  {start node target id : Int} {path cycle : List Int} {fuel : Nat}

def addTarget (mapping : Dictionary CodePoints Int) (found : List Int) (specifier : CodePoints) : List Int :=
  match mapping.lookup specifier with
  | some target => if found.contains target then found else found ++ [target]
  | none => found

theorem targets_eq (asset : Asset) :
    targets asset = asset.dependencies.foldl (addTarget asset.mapping) [] := rfl

theorem mem_addTarget (mapping : Dictionary CodePoints Int) (found : List Int) (specifier : CodePoints) :
    target ∈ addTarget mapping found specifier
      ↔ target ∈ found ∨ mapping.lookup specifier = some target := by
  unfold addTarget
  cases mapping.lookup specifier with
  | none => simp
  | some other =>
    by_cases known : other ∈ found
    · have same : other = target → target ∈ found := fun same => same ▸ known
      simpa [known] using same
    · simp [known, eq_comm]

theorem nodup_addTarget {found : List Int} (distinct : found.Nodup)
    (mapping : Dictionary CodePoints Int) (specifier : CodePoints) :
    (addTarget mapping found specifier).Nodup := by
  unfold addTarget
  split
  · split
    · exact distinct
    · rename_i new
      simpa using distinct.concat (by simpa using new)
  · exact distinct

theorem mem_targets (asset : Asset) : target ∈ targets asset ↔
    ∃ specifier ∈ asset.dependencies, asset.mapping.lookup specifier = some target := by
  rw [targets_eq]
  induction asset.dependencies using List.reverseRecOn with
  | nil => simp
  | append_singleton specifiers specifier ih =>
    rw [List.foldl_append, List.foldl_cons, List.foldl_nil, mem_addTarget, ih]
    simp only [List.mem_append, List.mem_singleton, or_and_right, exists_or, exists_eq_left]

theorem nodup_targets (asset : Asset) : (targets asset).Nodup := by
  rw [targets_eq]
  induction asset.dependencies using List.reverseRecOn with
  | nil => simp
  | append_singleton specifiers specifier ih =>
    rw [List.foldl_append]
    exact nodup_addTarget ih asset.mapping specifier

theorem edges_append (graph : Graph) (asset : Asset) :
    Graph.edges (graph ++ [asset]) = Dictionary.put (Graph.edges graph) asset.id (targets asset) := by
  simp [Graph.edges]

theorem mem_keys_edges (graph : Graph) :
    id ∈ (Graph.edges graph).keys ↔ id ∈ graph.map Asset.id := by
  induction graph using List.reverseRecOn with
  | nil => simp [Graph.edges, Dictionary.keys]
  | append_singleton graph asset ih =>
    rw [edges_append, Dictionary.mem_keys_put, ih]
    simp only [List.map_append, List.map_cons, List.map_nil, List.mem_append, List.mem_singleton]
    tauto

theorem nodup_keys_edges (graph : Graph) : (Graph.edges graph).keys.Nodup := by
  induction graph using List.reverseRecOn with
  | nil => simp [Graph.edges, Dictionary.keys]
  | append_singleton graph asset ih =>
    rw [edges_append]
    exact Dictionary.nodup_keys_put _ _ _ ih

-- The targets under an identity are those of an asset that has it.
theorem lookup_edges (found : (Graph.edges graph).lookup id = some known) :
    ∃ asset ∈ graph, asset.id = id ∧ known = targets asset := by
  induction graph using List.reverseRecOn with
  | nil => simp [Graph.edges] at found
  | append_singleton graph asset ih =>
    rw [edges_append, Dictionary.lookup_put] at found
    split at found
    · rename_i same
      exact ⟨asset, by simp, (eq_of_beq same).symm, (Option.some.inj found).symm⟩
    · obtain ⟨older, member, idAt, same⟩ := ih found
      exact ⟨older, List.mem_append_left _ member, idAt, same⟩

theorem mem_keys_of_target (leads : target ∈ targetsOf edges node) : node ∈ edges.keys := by
  unfold targetsOf at leads
  cases found : edges.lookup node with
  | none => simp [found] at leads
  | some known =>
    obtain ⟨earlier, later, split, _⟩ := List.lookup_eq_some_iff.mp found
    exact List.mem_map.mpr ⟨(node, known), by simp [split], rfl⟩

theorem nodup_targetsOf (graph : Graph) (node : Int) :
    (targetsOf (Graph.edges graph) node).Nodup := by
  unfold targetsOf
  cases found : (Graph.edges graph).lookup node with
  | none => simp
  | some known =>
    obtain ⟨asset, _, _, rfl⟩ := lookup_edges found
    exact nodup_targets asset

-- Where identities are distinct no asset takes the place of another.
theorem mem_targetsOf (distinct : (graph.map Asset.id).Nodup) :
    target ∈ targetsOf (Graph.edges graph) node ↔ Edge graph node target := by
  constructor
  · intro leads
    unfold targetsOf at leads
    cases found : (Graph.edges graph).lookup node with
    | none => simp [found] at leads
    | some known =>
      obtain ⟨asset, member, idAt, rfl⟩ := lookup_edges found
      rw [found] at leads
      exact ⟨asset, member, idAt, (mem_targets asset).mp leads⟩
  · rintro ⟨asset, member, rfl, leads⟩
    have there : asset.id ∈ (Graph.edges graph).keys :=
      (mem_keys_edges graph).mpr (List.mem_map_of_mem member)
    obtain ⟨⟨_, known⟩, listed, rfl⟩ := List.mem_map.mp there
    unfold targetsOf
    cases found : (Graph.edges graph).lookup asset.id with
    | none =>
      have absent := List.lookup_eq_none_iff.mp found _ listed
      simp at absent
    | some known =>
      obtain ⟨other, otherMember, same, rfl⟩ := lookup_edges found
      rw [List.inj_on_of_nodup_map distinct otherMember member same]
      exact (mem_targets asset).mpr leads

theorem mem_closings : cycle ∈ closings edges start path node ↔
    start ∈ targetsOf edges node ∧ cycle = path := by
  simp only [closings, List.mem_map, List.mem_filter, decide_eq_true_eq]
  constructor
  · rintro ⟨_, ⟨back, rfl⟩, rfl⟩
    exact ⟨back, rfl⟩
  · rintro ⟨back, rfl⟩
    exact ⟨start, ⟨back, rfl⟩, rfl⟩

theorem mem_lengthened {further : List Int × Int} :
    further ∈ lengthened edges start path node ↔
      ∃ target ∈ targetsOf edges node, start < target ∧ target ∉ path ∧
        further = (path ++ [target], target) := by
  simp only [lengthened, List.mem_map, List.mem_filter, Bool.and_eq_true, decide_eq_true_eq,
    Bool.not_eq_true', List.contains_eq_mem, decide_eq_false_iff_not]
  constructor
  · rintro ⟨target, ⟨leads, ⟨_, above⟩, new⟩, rfl⟩
    exact ⟨target, leads, above, new, rfl⟩
  · rintro ⟨target, leads, above, new, rfl⟩
    exact ⟨target, ⟨leads, ⟨above.ne', above⟩, new⟩, rfl⟩

theorem mem_cyclesThrough_succ :
    cycle ∈ cyclesThrough edges start (fuel + 1) path node ↔
      cycle ∈ closings edges start path node ∨
        ∃ further ∈ lengthened edges start path node,
          cycle ∈ cyclesThrough edges start fuel further.1 further.2 := by
  simp only [cyclesThrough, List.mem_flatMap, mem_closings, mem_lengthened]
  constructor
  · rintro ⟨target, leads, found⟩
    split at found
    · rename_i back
      exact .inl ⟨back ▸ leads, List.mem_singleton.mp found⟩
    · split at found
      · rename_i on
        simp only [Bool.and_eq_true, decide_eq_true_eq, Bool.not_eq_true', List.contains_eq_mem,
          decide_eq_false_iff_not] at on
        exact .inr ⟨_, ⟨target, leads, on.1, on.2, rfl⟩, found⟩
      · cases found
  · rintro (⟨leads, rfl⟩ | ⟨_, ⟨target, leads, above, new, rfl⟩, found⟩)
    · exact ⟨start, leads, by simp⟩
    · exact ⟨target, leads, by simpa [above.ne', above, new] using found⟩

-- Every step takes an asset off what is left to be met.
theorem rank_lengthened {further : List Int × Int}
    (on : further ∈ lengthened edges start path node) :
    rank edges further.1 further.2 < rank edges path node := by
  obtain ⟨target, leads, _, new, rfl⟩ := mem_lengthened.mp on
  have fewer : (edges.keys.filter (· ∉ path ++ [target])).Sublist (edges.keys.filter (· ∉ path)) :=
    List.monotone_filter_right _ (by simp +contextual)
  simp only [rank, mem_keys_of_target leads, if_true]
  split
  · rename_i there
    have less : (edges.keys.filter (· ∉ path ++ [target])).length
        < (edges.keys.filter (· ∉ path)).length := by
      refine lt_of_le_of_ne fewer.length_le fun same => ?_
      have kept : target ∈ edges.keys.filter (· ∉ path ++ [target]) :=
        (fewer.eq_of_length same).symm ▸ List.mem_filter.mpr ⟨there, by simpa using new⟩
      simp at kept
    omega
  · have less := fewer.length_le
    omega

theorem rank_start (known : start ∈ edges.keys) : rank edges [start] start < edges.length + 1 := by
  have less : (edges.keys.filter (· ∉ [start])).length < edges.keys.length :=
    List.length_filter_lt_length_iff_exists.mpr ⟨start, known, by simp⟩
  have whole : edges.keys.length = edges.length := List.length_map _
  simp only [rank, known, if_true]
  omega

-- The paths on top of a stack are searched one by one, each in front of what is left.
theorem searches_append {paths pending : List (List Int × Int)} {found : List (List Int)}
    (each : ∀ further ∈ paths, ∀ pending found, Searches edges start pending found →
      ∃ more, Searches edges start (further :: pending) more ∧ ∀ cycle, cycle ∈ more ↔
        cycle ∈ cyclesThrough edges start fuel further.1 further.2 ∨ cycle ∈ found)
    (rest : Searches edges start pending found) :
    ∃ more, Searches edges start (paths ++ pending) more ∧ ∀ cycle, cycle ∈ more ↔
      (∃ further ∈ paths, cycle ∈ cyclesThrough edges start fuel further.1 further.2) ∨
        cycle ∈ found := by
  induction paths with
  | nil => exact ⟨found, rest, by simp⟩
  | cons further paths ih =>
    obtain ⟨middle, searched, middleAt⟩ :=
      ih fun other member => each other (List.mem_cons_of_mem _ member)
    obtain ⟨more, reached, moreAt⟩ := each further (by simp) _ _ searched
    refine ⟨more, reached, fun cycle => ?_⟩
    rw [moreAt, middleAt]
    simp only [List.mem_cons, exists_eq_or_imp, or_assoc]

-- The induction is on the fuel, which never runs out while it is above what is left to be met.
theorem searches_cons (enough : rank edges path node < fuel) {pending : List (List Int × Int)}
    {found : List (List Int)} (rest : Searches edges start pending found) :
    ∃ more, Searches edges start ((path, node) :: pending) more ∧ ∀ cycle, cycle ∈ more ↔
      cycle ∈ cyclesThrough edges start fuel path node ∨ cycle ∈ found := by
  induction fuel generalizing path node pending found with
  | zero => cases enough
  | succ fuel ih =>
    have each : ∀ further ∈ (lengthened edges start path node).reverse, ∀ pending found,
        Searches edges start pending found →
          ∃ more, Searches edges start (further :: pending) more ∧ ∀ cycle, cycle ∈ more ↔
            cycle ∈ cyclesThrough edges start fuel further.1 further.2 ∨ cycle ∈ found := by
      intro further on pending found rest
      have less := rank_lengthened (List.mem_reverse.mp on)
      exact ih (by omega) rest
    obtain ⟨more, reached, moreAt⟩ := searches_append each rest
    refine ⟨_, .turn reached, fun cycle => ?_⟩
    simp only [List.mem_append, moreAt, mem_cyclesThrough_succ, List.mem_reverse, or_assoc]

-- What is found from a path is the path with a way back to the start behind it.
theorem mem_cyclesThrough (enough : rank edges path node < fuel) :
    cycle ∈ cyclesThrough edges start fuel path node ↔
      ∃ more, cycle = path ++ more ∧
        List.IsChain (fun source target => target ∈ targetsOf edges source)
          (node :: (more ++ [start])) ∧
        more.Nodup ∧ ∀ id ∈ more, start < id ∧ id ∉ path := by
  induction fuel generalizing path node with
  | zero => cases enough
  | succ fuel ih =>
    rw [mem_cyclesThrough_succ, mem_closings]
    constructor
    · rintro (⟨back, rfl⟩ | ⟨further, on, found⟩)
      · exact ⟨[], by simp, by simpa using back, by simp, by simp⟩
      · have less := rank_lengthened on
        obtain ⟨target, leads, above, new, rfl⟩ := mem_lengthened.mp on
        obtain ⟨more, rfl, linked, distinct, apart⟩ := (ih (by omega)).mp found
        refine ⟨target :: more, by simp, ?_, ?_, ?_⟩
        · exact List.isChain_cons_cons.mpr ⟨leads, linked⟩
        · exact List.nodup_cons.mpr ⟨fun again => (apart target again).2 (by simp), distinct⟩
        · intro id member
          rcases List.mem_cons.mp member with rfl | later
          · exact ⟨above, new⟩
          · exact ⟨(apart id later).1, fun old => (apart id later).2 (List.mem_append_left _ old)⟩
    · rintro ⟨more, rfl, linked, distinct, apart⟩
      cases more with
      | nil => exact .inl ⟨by simpa using linked, by simp⟩
      | cons target more =>
        obtain ⟨leads, linked⟩ := List.isChain_cons_cons.mp linked
        obtain ⟨absent, distinct⟩ := List.nodup_cons.mp distinct
        obtain ⟨above, new⟩ := apart target (by simp)
        have on : (path ++ [target], target) ∈ lengthened edges start path node :=
          mem_lengthened.mpr ⟨target, leads, above, new, rfl⟩
        have less := rank_lengthened on
        refine .inr ⟨_, on, (ih (by omega)).mpr ⟨more, by simp, linked, distinct, fun id member => ?_⟩⟩
        obtain ⟨above, new⟩ := apart id (List.mem_cons_of_mem _ member)
        refine ⟨above, fun old => ?_⟩
        rcases List.mem_append.mp old with old | last
        · exact new old
        · exact absent (List.mem_singleton.mp last ▸ member)

theorem prefix_cyclesThrough (found : cycle ∈ cyclesThrough edges start fuel path node) :
    path <+: cycle := by
  induction fuel generalizing path node with
  | zero => cases found
  | succ fuel ih =>
    rcases mem_cyclesThrough_succ.mp found with closed | ⟨further, on, found⟩
    · rw [(mem_closings.mp closed).2]
    · obtain ⟨target, _, _, _, rfl⟩ := mem_lengthened.mp on
      exact (List.prefix_append path [target]).trans (ih found)

-- Cycles through different targets differ behind the path.
theorem nodup_cyclesThrough (distinct : ∀ node, (targetsOf edges node).Nodup)
    (fuel : Nat) (path : List Int) (node : Int) :
    (cyclesThrough edges start fuel path node).Nodup := by
  induction fuel generalizing path node with
  | zero => simp [cyclesThrough]
  | succ fuel ih =>
    rw [cyclesThrough, List.nodup_flatMap]
    refine ⟨fun target _ => ?_, (distinct node).imp fun {target other} apart => ?_⟩
    · split
      · simp
      · split
        · exact ih _ _
        · simp
    · have through : ∀ target cycle,
          (cycle ∈ if target = start then [path]
            else if start < target && !path.contains target then
              cyclesThrough edges start fuel (path ++ [target]) target
            else []) →
          target = start ∧ cycle = path ∨ target ≠ start ∧ path ++ [target] <+: cycle := by
        intro target cycle found
        split at found
        · exact .inl ⟨‹_›, List.mem_singleton.mp found⟩
        · split at found
          · exact .inr ⟨‹_›, prefix_cyclesThrough found⟩
          · cases found
      have longer : ∀ target, ¬ path ++ [target] <+: path := by
        intro target within
        have bound := within.length_le
        rw [List.length_append, List.length_singleton] at bound
        omega
      intro cycle one two
      rcases through target cycle one with ⟨back, rfl⟩ | ⟨_, first⟩
      · rcases through other cycle two with ⟨same, _⟩ | ⟨_, second⟩
        · exact apart (back.trans same.symm)
        · exact longer other second
      · rcases through other cycle two with ⟨_, rfl⟩ | ⟨_, second⟩
        · exact longer target first
        · have same := List.prefix_of_prefix_length_le first second (by simp)
          exact apart (by simpa using same.eq_of_length (by simp))

theorem pathLe_iff (first second : List Int) : pathLe first second = true ↔ first ≤ second := by
  induction first generalizing second with
  | nil => cases second <;> simp [pathLe, le_iff_lt_or_eq]
  | cons a first ih =>
    cases second with
    | nil => simp [pathLe, le_iff_lt_or_eq]
    | cons b second =>
      simp only [pathLe, Bool.or_eq_true, decide_eq_true_eq, Bool.and_eq_true, beq_iff_eq, ih,
        le_iff_lt_or_eq, List.cons_lt_cons_iff, List.cons.injEq]
      tauto

theorem cycles_increasing (graph : Graph) : (cycles graph).Pairwise (· < ·) := by
  have transitive : ∀ a b c, pathLe a b = true → pathLe b c = true → pathLe a c = true := by
    simp only [pathLe_iff]
    exact fun _ _ _ => le_trans
  have total : ∀ a b, (pathLe a b || pathLe b a) = true := by
    simpa [pathLe_iff] using fun a b => le_total a b
  have ordered : (cycles graph).Pairwise fun a b => pathLe a b = true :=
    List.pairwise_mergeSort transitive total _
  have once : (cycles graph).Nodup := by
    rw [cycles, List.nodup_mergeSort, List.nodup_flatMap]
    refine ⟨fun start _ => nodup_cyclesThrough (nodup_targetsOf graph) _ _ _, ?_⟩
    refine (nodup_keys_edges graph).imp fun {start other} apart cycle one two => ?_
    have same := List.prefix_of_prefix_length_le (prefix_cyclesThrough one)
      (prefix_cyclesThrough two) (by simp)
    exact apart (by simpa using same.eq_of_length (by simp))
  refine (ordered.and once).imp fun {first second} both => ?_
  exact lt_of_le_of_ne ((pathLe_iff first second).mp both.1) both.2

theorem mem_cycles (distinct : (graph.map Asset.id).Nodup) :
    cycle ∈ cycles graph ↔ Elementary graph cycle ∧ LeastFirst cycle := by
  have linked_iff : ∀ ids, List.IsChain
      (fun source target => target ∈ targetsOf (Graph.edges graph) source) ids
        ↔ List.IsChain (Edge graph) ids := fun ids => by simp only [mem_targetsOf distinct]
  simp only [cycles, List.mem_mergeSort, List.mem_flatMap]
  constructor
  · rintro ⟨start, known, found⟩
    obtain ⟨more, rfl, linked, apart, above⟩ := (mem_cyclesThrough (rank_start known)).mp found
    refine ⟨⟨by simp, ?_, ?_⟩, start, more, rfl, fun id member => (above id member).1⟩
    · exact List.nodup_cons.mpr ⟨fun again => (above start again).1.false, apart⟩
    · exact (Cycle.chain_coe_cons _ _ _).mpr ((linked_iff _).mp linked)
  · rintro ⟨⟨_, apart, linked⟩, start, more, rfl, above⟩
    have walked := (linked_iff _).mpr ((Cycle.chain_coe_cons _ _ _).mp linked)
    have known : start ∈ (Graph.edges graph).keys := by
      cases more with
      | nil => exact mem_keys_of_target (List.isChain_pair.mp walked)
      | cons next more => exact mem_keys_of_target (List.isChain_cons_cons.mp walked).1
    refine ⟨start, known, (mem_cyclesThrough (rank_start known)).mpr ?_⟩
    refine ⟨more, rfl, walked, (List.nodup_cons.mp apart).2, fun id member => ⟨above id member, ?_⟩⟩
    simpa using (above id member).ne'

theorem Elementary.rotated (elementary : Elementary graph cycle) (turned : found ~r cycle) :
    Elementary graph found := by
  have same : (found : Cycle Int) = cycle := Cycle.coe_eq_coe.mpr turned
  refine ⟨?_, turned.nodup_iff.mpr elementary.distinct, same ▸ elementary.linked⟩
  rintro rfl
  exact elementary.walked (List.isRotated_nil_iff'.mp turned).symm

theorem leastFirst_exists (walked : cycle ≠ []) (distinct : cycle.Nodup) :
    ∃ found, LeastFirst found ∧ found ~r cycle := by
  cases least : cycle.min? with
  | none => exact absurd (List.min?_eq_none_iff.mp least) walked
  | some start =>
    obtain ⟨member, bound⟩ := List.min?_eq_some_iff.mp least
    obtain ⟨earlier, later, rfl⟩ := List.append_of_mem member
    refine ⟨start :: later ++ earlier, ⟨start, later ++ earlier, rfl, ?_⟩, List.isRotated_append⟩
    have turned : (start :: later ++ earlier).Nodup :=
      List.isRotated_append.nodup_iff.mpr distinct
    obtain ⟨absent, _⟩ := List.nodup_cons.mp turned
    intro id there
    refine lt_of_le_of_ne (bound id ?_) fun same => absent (same ▸ there)
    simp only [List.mem_append, List.mem_cons] at there ⊢
    tauto

theorem leastFirst_unique (first : LeastFirst path) (second : LeastFirst cycle)
    (distinct : path.Nodup) (turned : path ~r cycle) : path = cycle := by
  obtain ⟨start, more, rfl, above⟩ := first
  obtain ⟨start', more', rfl, above'⟩ := second
  have same : start = start' := by
    rcases List.mem_cons.mp (turned.mem_iff.mp (List.mem_cons_self (a := start))) with here | later
    · exact here
    · rcases List.mem_cons.mp (turned.mem_iff.mpr (List.mem_cons_self (a := start'))) with here | later'
      · exact here.symm
      · exact absurd (above' start later) (above start' later').asymm
  subst same
  obtain ⟨count, bound, rotated⟩ := List.isRotated_iff_mod.mp turned
  rcases Nat.lt_or_eq_of_le bound with less | whole
  · have head := congrArg List.head? rotated
    rw [List.head?_rotate less] at head
    obtain ⟨inside, at_⟩ := List.getElem?_eq_some_iff.mp head
    have zero : count = 0 := by
      have first : (start :: more)[count] = (start :: more)[0] := at_
      exact distinct.getElem_inj_iff.mp first
    rw [← rotated, zero, List.rotate_zero]
  · rw [← rotated, whole, List.rotate_length]

-- In a graph whose identities are distinct the cycles are exactly the elementary ones, each turned to
-- begin with its smallest identity and listed once, in increasing order; and the search from every
-- start ends, with the cycles that begin there.
theorem cycles_exact (distinct : (graph.map Asset.id).Nodup) :
    (∀ cycle, cycle ∈ cycles graph ↔ Elementary graph cycle ∧ LeastFirst cycle) ∧
    (∀ cycle, Elementary graph cycle → ∃! found, found ∈ cycles graph ∧ found ~r cycle) ∧
    (cycles graph).Pairwise (· < ·) ∧
    ∀ start ∈ graph.map Asset.id, ∃ found, Searches (Graph.edges graph) start [([start], start)] found ∧
      ∀ cycle, cycle ∈ found ↔ cycle ∈ cycles graph ∧ cycle.head? = some start := by
  refine ⟨fun cycle => mem_cycles distinct, ?_, cycles_increasing graph, ?_⟩
  · intro cycle elementary
    obtain ⟨found, least, turned⟩ := leastFirst_exists elementary.walked elementary.distinct
    have listed := (mem_cycles distinct).mpr ⟨elementary.rotated turned, least⟩
    refine ⟨found, ⟨listed, turned⟩, ?_⟩
    rintro other ⟨otherListed, otherTurned⟩
    obtain ⟨otherElementary, otherLeast⟩ := (mem_cycles distinct).mp otherListed
    exact leastFirst_unique otherLeast least otherElementary.distinct (otherTurned.trans turned.symm)
  · intro start member
    have known := (mem_keys_edges graph).mpr member
    obtain ⟨found, searched, foundAt⟩ := searches_cons (rank_start known) .done
    refine ⟨found, searched, fun cycle => ?_⟩
    rw [foundAt]
    simp only [List.not_mem_nil, or_false, cycles, List.mem_mergeSort, List.mem_flatMap]
    constructor
    · intro here
      obtain ⟨more, rfl⟩ := prefix_cyclesThrough here
      exact ⟨⟨start, known, here⟩, rfl⟩
    · rintro ⟨⟨other, _, there⟩, head⟩
      obtain ⟨more, rfl⟩ := prefix_cyclesThrough there
      have same : other = start := by simpa using head
      exact same ▸ there

-- Identities out of order, a module that needs itself, two specifiers for one target, a target that is
-- no asset, and a mapping with an entry that nothing depends on.
def tangledGraph : Graph :=
  let asset (id : Int) (mapping : List (String × Int)) (dependencies : List String) : Asset :=
    ⟨id, [], dependencies.map (CodePoints.ofText ·.toList), [], mapping.map fun (specifier, target) =>
      (specifier.toList, target)⟩
  [asset 5 [("./b", 2), ("./c", 9)] ["./b", "./c"],
    asset 2 [("./b", 2), ("./a", 5), ("../d/a", 5), ("./c", 9)] ["./a", "./b", "../d/a"],
    asset 9 [("./b", 2), ("./x", 77)] ["./x", "./b"]]

theorem tangled_cycles :
    cycles tangledGraph = [[2], [2, 5], [2, 5, 9]] ∧ Elementary tangledGraph [2, 5, 9] ∧
      ∀ cycle, Elementary tangledGraph cycle →
        ∃! found, found ∈ [[2], [2, 5], [2, 5, 9]] ∧ found ~r cycle := by
  have distinct : (tangledGraph.map Asset.id).Nodup := by decide
  obtain ⟨exact_, once, _, _⟩ := cycles_exact distinct
  have listed : cycles tangledGraph = [[2], [2, 5], [2, 5, 9]] := by
    calc cycles tangledGraph
      _ = [[2, 5], [2, 5, 9], [2]].mergeSort pathLe := rfl
      _ = [[2], [2, 5], [2, 5, 9]] := by cbv
  rw [listed] at exact_ once
  exact ⟨listed, ((exact_ [2, 5, 9]).mp (by simp)).1, once⟩

end ModuleBundler.Graph

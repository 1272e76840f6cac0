import PhpArray.Proofs.Nesting

/-!
Pairs of merge keys. They are left out before anything of a pair is looked at, so nothing in them
is ever noticed: not a missing document, not a collection inside of itself, not a list below the
key. `Document.remaining` is the tree that is left of a document without these pairs, and `Remains`
defines such trees by the nodes that they are seen at. The main statement is that a rendering is
decided by what remains of its document and of those that are loaded.
-/

namespace PhpArray

open Yaml

private theorem forall₂_and {α β : Type} {R S : α → β → Prop} {as : List α} {bs : List β}
    (hR : List.Forall₂ R as bs) (hS : List.Forall₂ S as bs) :
    List.Forall₂ (fun a b => R a b ∧ S a b) as bs := by
  rw [List.forall₂_iff_get] at hR hS ⊢
  exact ⟨hR.1, fun i hi hi' => ⟨hR.2 i hi hi', hS.2 i hi hi'⟩⟩

namespace Yaml

namespace Graph

/-- A mapping without the pairs of merge keys. -/
def withoutPairs (g : Graph) : Node → Node
  | .mapping tag pairs => .mapping tag (g.kept pairs)
  | node => node

/-- Every mapping without the pairs of merge keys. -/
def withoutMerges (g : Graph) : Graph :=
  ⟨g.nodes.map g.withoutPairs⟩

theorem node_withoutMerges (g : Graph) (id : NodeId) :
    g.withoutMerges.node id = g.withoutPairs (g.node id) := by
  unfold withoutMerges node
  by_cases hid : id < g.nodes.size
  · simp [hid]
  · simp [Array.getD_eq_getD_getElem?, hid, withoutPairs]

@[simp] theorem isCollection_withoutPairs (g : Graph) (n : Node) :
    (g.withoutPairs n).isCollection = n.isCollection := by
  cases n <;> rfl

/-- Which keys are merge keys does not depend on the pairs of a mapping. -/
theorem isMergeKey_node_replace (g : Graph) (id i : NodeId) (tag : String)
    (pairs : List (NodeId × NodeId)) :
    ((g.replace id (.mapping tag pairs)).node i).isMergeKey =
      (decide (i ≠ id) && (g.node i).isMergeKey) := by
  by_cases hi : i = id
  · subst hi
    by_cases hid : i < g.nodes.size <;> simp [replace, node, hid, Node.isMergeKey]
  · simp [replace, node, hi, Ne.symm hi]

/-- Nothing remains of a pair that is put into a mapping with a merge key. -/
theorem withoutMerges_replace_insert {g : Graph} {id key : NodeId}
    (hkey : (g.node key).isMergeKey = true) (hne : key ≠ id) (tag : String)
    (before after : List (NodeId × NodeId)) (value : NodeId) :
    (g.replace id (.mapping tag (before ++ (key, value) :: after))).withoutMerges =
      (g.replace id (.mapping tag (before ++ after))).withoutMerges := by
  have hpairs (pairs pairs' : List (NodeId × NodeId)) :
      (g.replace id (.mapping tag pairs)).withoutPairs =
        (g.replace id (.mapping tag pairs')).withoutPairs := by
    funext n
    cases n with
    | mapping _ _ => simp only [withoutPairs, kept, isMergeKey_node_replace]
    | _ => rfl
  have hinserted (pairs : List (NodeId × NodeId)) :
      (g.replace id (.mapping tag pairs)).kept (before ++ (key, value) :: after) =
        (g.replace id (.mapping tag pairs)).kept (before ++ after) := by
    simp [kept, isMergeKey_node_replace, hkey, hne]
  unfold withoutMerges
  rw [hpairs _ (before ++ after)]
  unfold replace
  rw [Array.map_setIfInBounds, Array.map_setIfInBounds, withoutPairs, withoutPairs]
  unfold replace at hinserted
  rw [hinserted]

/-- A node, inside of collections, innermost first. -/
structure Place where
  around : List NodeId
  id : NodeId

/-- A node directly below another place. -/
def Place.below (p : Place) (id : NodeId) : Place :=
  ⟨p.id :: p.around, id⟩

/-- What remains of the tree at a place without the pairs of merge keys. -/
inductive Remains (g : Graph) : Place → Tree → Prop
  | enclosing {p : Place} {i : Nat} : p.around[i]? = some p.id → Remains g p (.enclosing (i + 1))
  | scalar {p : Place} {s : Scalar} : p.id ∉ p.around → g.node p.id = .scalar s →
      Remains g p (.scalar s)
  | sequence {p : Place} {tag : String} {items : List NodeId} {trees : List Tree} :
      p.id ∉ p.around → g.node p.id = .sequence tag items →
      List.Forall₂ (Remains g) (items.map p.below) trees → Remains g p (.sequence tag trees)
  | mapping {p : Place} {tag : String} {pairs : List (NodeId × NodeId)}
      {trees : List (Tree × Tree)} :
      p.id ∉ p.around → g.node p.id = .mapping tag pairs →
      List.Forall₂ (Remains g) ((g.kept pairs).map fun pair => p.below pair.1)
        (trees.map Prod.fst) →
      List.Forall₂ (Remains g) ((g.kept pairs).map fun pair => p.below pair.2)
        (trees.map Prod.snd) →
      Remains g p (.mapping tag trees)
  | bare {p : Place} {tag : String} : p.id ∉ p.around → g.node p.id = .bare tag →
      Remains g p (.bare tag)
  | foreign {p : Place} : p.id ∉ p.around → g.node p.id = .foreign → Remains g p .foreign

/-- The graph without these pairs is unfolded to what remains, if the collections around are
distinct and there is a level for each of the others and one more. -/
theorem remains_unfold (g : Graph) {levels : Nat} {p : Place} (hnodup : p.around.Nodup)
    (hall : ∀ id ∈ p.around, (g.withoutMerges.node id).isCollection = true)
    (hlevels : g.withoutMerges.collections < levels + p.around.length) :
    g.Remains p (g.withoutMerges.unfold levels p.around p.id) := by
  induction levels generalizing p with
  | zero =>
      have hle := length_le_collections hnodup hall
      omega
  | succ levels ih =>
      rw [unfold]
      cases hindex : p.around.idxOf? p.id with
      | some i =>
          obtain ⟨hi, hget, -⟩ := List.idxOf?_eq_some_iff.1 hindex
          exact .enclosing (List.getElem?_eq_some_iff.2 ⟨hi, hget⟩)
      | none =>
          have hid : p.id ∉ p.around := List.idxOf?_eq_none_iff.1 hindex
          have hbelow (hcollection : (g.node p.id).isCollection = true) (child : NodeId) :
              g.Remains (p.below child)
                (g.withoutMerges.unfold levels (p.id :: p.around) child) := by
            apply ih
            · exact List.nodup_cons.2 ⟨hid, hnodup⟩
            · refine List.forall_mem_cons.2 ⟨?_, hall⟩
              rw [node_withoutMerges, isCollection_withoutPairs, hcollection]
            · simp only [Place.below, List.length_cons]
              omega
          dsimp only
          rw [node_withoutMerges]
          cases hnode : g.node p.id with
          | scalar s => exact .scalar hid hnode
          | sequence tag items =>
              apply Remains.sequence hid hnode
              rw [List.forall₂_map_left_iff, List.forall₂_map_right_iff, List.forall₂_same]
              exact fun item _ => hbelow (by simp [hnode, Node.isCollection]) item
          | mapping tag pairs =>
              have hpairs := hbelow (by simp [hnode, Node.isCollection])
              apply Remains.mapping hid hnode
              · rw [List.map_map, List.forall₂_map_left_iff, List.forall₂_map_right_iff,
                  List.forall₂_same]
                exact fun pair _ => hpairs pair.1
              · rw [List.map_map, List.forall₂_map_left_iff, List.forall₂_map_right_iff,
                  List.forall₂_same]
                exact fun pair _ => hpairs pair.2
          | bare tag => exact .bare hid hnode
          | foreign => exact .foreign hid hnode

/-- A collection that may be gone into. -/
inductive Enterable (g : Graph) (id : NodeId) : Shape → Prop
  | sequence {tag : String} {items : List NodeId} :
      g.node id = .sequence tag items → tag ≠ includeTag → Enterable g id .sequence
  | mapping {tag : String} {pairs : List (NodeId × NodeId)} :
      g.node id = .mapping tag pairs → tag ≠ includeTag → Enterable g id .mapping

/-- The collections around two places are of the same kinds. -/
def AroundAlike (g g' : Graph) (p p' : Place) : Prop :=
  List.Forall₂ (fun id id' => ∃ shape, g.Enterable id shape ∧ g'.Enterable id' shape)
    p.around p'.around

theorem AroundAlike.below {g g' : Graph} {p p' : Place} (h : g.AroundAlike g' p p') {shape : Shape}
    (hid : g.Enterable p.id shape) (hid' : g'.Enterable p'.id shape) (child child' : NodeId) :
    g.AroundAlike g' (p.below child) (p'.below child') :=
  .cons ⟨shape, hid, hid'⟩ h

end Graph

/-- What is left of a document without the pairs of merge keys. -/
def Document.remaining (d : Document) : Tree :=
  (⟨d.graph.withoutMerges, d.root⟩ : Document).tree

theorem Document.remains (d : Document) : d.graph.Remains ⟨[], d.root⟩ d.remaining :=
  d.graph.remains_unfold .nil (by simp) (by simp)

end Yaml

/-- The same is left of the documents of two sources, and they fail alike. -/
structure Source.RemainsOf (source' source : Source) : Prop where
  home : source'.home = source.home
  load : ∀ path, (source'.load path).map (Option.map Document.remaining) =
    (source.load path).map (Option.map Document.remaining)

theorem Source.RemainsOf.load_cases {source source' : Source} (h : source'.RemainsOf source)
    (path : String) :
    (∃ failure, source.load path = .error failure ∧ source'.load path = .error failure) ∨
    (source.load path = .ok none ∧ source'.load path = .ok none) ∨
    ∃ d d', source.load path = .ok (some d) ∧ source'.load path = .ok (some d') ∧
      d'.remaining = d.remaining := by
  have hload := h.load path
  rcases hold : source.load path with failure | _ | d <;>
    rcases hnew : source'.load path with failure' | _ | d' <;>
    simp_all [Except.map]

namespace Renderer

variable {r : Renderer} {source' : Source} {g g' : Graph} {p p' : Graph.Place}

theorem node_of_active {levels : Nat} {chain : List String} {depth : Int} {shape : Shape}
    (h : g.Enterable p.id shape) (hactive : p.id ∈ p.around) :
    r.node (levels + 1) chain g p.around depth p.id =
      Run.fail (.unsupported shape .recursiveAlias) := by
  cases h with
  | sequence hnode htag => simp only [node, hnode, enter, if_neg htag, if_pos hactive]
  | mapping hnode htag => simp only [node, hnode, enter, if_neg htag, if_pos hactive]

/-- Where a place shows a collection around it, so does the other, and of the same kind. -/
theorem enterable_of_enclosing (halike : g.AroundAlike g' p p') {i : Nat}
    (h : p.around[i]? = some p.id) (h' : p'.around[i]? = some p'.id) :
    ∃ shape, g.Enterable p.id shape ∧ g'.Enterable p'.id shape := by
  obtain ⟨hi, hget⟩ := List.getElem?_eq_some_iff.1 h
  obtain ⟨hi', hget'⟩ := List.getElem?_eq_some_iff.1 h'
  rw [← hget, ← hget']
  exact halike.get hi hi'

theorem renderKey_eq_of_remains {t : Tree} (halike : g.AroundAlike g' p p')
    (h : g.Remains p t) (h' : g'.Remains p' t) :
    renderKey (g'.node p'.id) = renderKey (g.node p.id) := by
  cases h with
  | enclosing hi =>
      cases h' with
      | enclosing hi' =>
          obtain ⟨shape, hentered, hentered'⟩ := enterable_of_enclosing halike hi hi'
          cases hentered with
          | sequence hnode _ => cases hentered' with
            | sequence hnode' _ => rw [hnode, hnode']; rfl
          | mapping hnode _ => cases hentered' with
            | mapping hnode' _ => rw [hnode, hnode']; rfl
  | scalar _ hnode => cases h' with
    | scalar _ hnode' => rw [hnode, hnode']
  | sequence _ hnode _ => cases h' with
    | sequence _ hnode' _ => rw [hnode, hnode']; rfl
  | mapping _ hnode _ _ => cases h' with
    | mapping _ hnode' _ _ => rw [hnode, hnode']; rfl
  | bare _ hnode => cases h' with
    | bare _ hnode' => rw [hnode, hnode']
  | foreign _ hnode => cases h' with
    | foreign _ hnode' => rw [hnode, hnode']

/-- Includes are the same if what is done with the documents is the same for those of which the
same is left. -/
theorem included_eq_of_remains {α : Type} (hsource : source'.RemainsOf r.source)
    (chain : List String) (depth : Int) (name : String) (empty : α)
    {root root' : List String → Document → Run α}
    (h : ∀ chain d d', d'.remaining = d.remaining → root' chain d' = root chain d) :
    included { r with source := source' } chain depth name empty root' =
      r.included chain depth name empty root := by
  have hload := hsource.load (Path.join r.includeDir name)
  unfold included checked
  dsimp only
  rw [hsource.home]
  split
  · rfl
  · congr 1
    funext _
    congr 1
    funext _
    rcases hsource.load_cases (Path.join r.includeDir name) with
      ⟨failure, hold, hnew⟩ | ⟨hold, hnew⟩ | ⟨d, d', hold, hnew, hremaining⟩
    · rw [hold, hnew, Run.ofExcept_error, Run.fail_bind, Run.fail_bind]
    · rw [hold, hnew]
      rfl
    · rw [hold, hnew, Run.ofExcept_ok, Run.ofExcept_ok, pure_bind, pure_bind]
      dsimp only
      split
      · rfl
      · exact h _ d d' hremaining

/-- Two collections are entered alike, if neither is inside of itself. -/
theorem enter_eq {α : Type} {shape : Shape} {tag : String} {id id' : NodeId}
    {active active' : List NodeId} {inside inside' : List NodeId → Run α} (hid : id ∉ active)
    (hid' : id' ∉ active')
    (h : tag ≠ includeTag → inside' (id' :: active') = inside (id :: active)) :
    enter shape tag id' active' inside' = enter shape tag id active inside := by
  unfold enter
  rw [if_neg hid, if_neg hid']
  split
  · rfl
  · exact h ‹_›

theorem pair_eq {depth : Int} {key key' : Node} {value value' : Unit → Run String}
    (hkey : renderKey key' = renderKey key) (hvalue : value' () = value ()) :
    { r with source := source' }.pair depth key' value' = r.pair depth key value := by
  unfold pair
  rw [hkey, hvalue]
  rfl

/-- Two places at which the same remains are rendered alike. -/
theorem node_eq_of_remains (hsource : source'.RemainsOf r.source) (levels : Nat)
    (chain : List String) (depth : Int) (p p' : Graph.Place) {t : Tree}
    (halike : g.AroundAlike g' p p')
    (h : g.Remains p t) (h' : g'.Remains p' t) :
    { r with source := source' }.node levels chain g' p'.around depth p'.id =
      r.node levels chain g p.around depth p.id := by
  induction levels generalizing chain depth g g' p p' t with
  | zero => rfl
  | succ levels ih =>
      cases h with
      | enclosing hi => cases h' with
        | enclosing hi' =>
          obtain ⟨shape, hentered, hentered'⟩ := enterable_of_enclosing halike hi hi'
          rw [node_of_active hentered (List.mem_of_getElem? hi),
            node_of_active hentered' (List.mem_of_getElem? hi')]
      | scalar _ hnode => cases h' with
        | scalar _ hnode' =>
          rw [node, node, hnode, hnode']
          dsimp only
          split
          · apply included_eq_of_remains hsource
            intro chain d d' hremaining
            have hroot := d'.remains
            rw [hremaining] at hroot
            exact ih chain depth ⟨[], d.root⟩ ⟨[], d'.root⟩ .nil d.remains hroot
          · rfl
      | @sequence _ tag items trees hid hnode hitems => cases h' with
        | @sequence _ _ items' _ hid' hnode' hitems' =>
          rw [node, node, hnode, hnode']
          apply enter_eq hid hid'
          intro htag
          congr 1
          apply Run.mapM_eq_of_forall₂
          rw [List.forall₂_map_left_iff] at hitems hitems'
          apply Source.forall₂_of_common hitems.flip hitems'.flip
          intro t item item' _ hitem hitem'
          have haround := halike.below (.sequence hnode htag) (.sequence hnode' htag) item item'
          exact congrArg (· >>= fun text => pure (r.line (depth + 1) text))
            (ih chain (depth + 1) (p.below item) (p'.below item') haround hitem hitem')
      | @mapping _ tag pairs trees hid hnode hkeys hvalues => cases h' with
        | @mapping _ _ pairs' _ hid' hnode' hkeys' hvalues' =>
          rw [node, node, hnode, hnode']
          apply enter_eq hid hid'
          intro htag
          congr 1
          apply Run.mapM_eq_of_forall₂
          rw [List.forall₂_map_left_iff, List.forall₂_map_right_iff] at hkeys hkeys' hvalues hvalues'
          have hpairs := forall₂_and hkeys hvalues
          have hpairs' := forall₂_and hkeys' hvalues'
          apply Source.forall₂_of_common hpairs.flip hpairs'.flip
          rintro entry pair pair' - ⟨hkey, hvalue⟩ ⟨hkey', hvalue'⟩
          have haround := halike.below (.mapping hnode htag) (.mapping hnode' htag)
          exact pair_eq (renderKey_eq_of_remains (haround pair.1 pair'.1) hkey hkey')
            (ih chain (depth + 1) _ _ (haround pair.2 pair'.2) hvalue hvalue')
      | bare _ hnode => cases h' with
        | bare _ hnode' => rw [node, node, hnode, hnode']
      | foreign _ hnode => cases h' with
        | foreign _ hnode' => rw [node, node, hnode, hnode']

theorem renderWithin_eq_of_remains (hsource : source'.RemainsOf r.source) (d d' : Document)
    (hroot : d'.remaining = d.remaining) (levels : Nat) :
    { r with source := source' }.renderWithin levels d'.graph d'.root =
      r.renderWithin levels d.graph d.root := by
  have hremains := d'.remains
  rw [hroot] at hremains
  exact node_eq_of_remains hsource levels r.chain r.depth ⟨[], d.root⟩ ⟨[], d'.root⟩ .nil d.remains
    hremains

/-- A pair of a merge key may be put anywhere in a mapping, with anything as its value. -/
theorem renderWithin_replace_insert (r : Renderer) (levels : Nat) {id key : NodeId}
    (hkey : (g.node key).isMergeKey = true) (hne : key ≠ id) (tag : String)
    (before after : List (NodeId × NodeId)) (value root : NodeId) :
    r.renderWithin levels (g.replace id (.mapping tag (before ++ (key, value) :: after))) root =
      r.renderWithin levels (g.replace id (.mapping tag (before ++ after))) root := by
  have hremaining := Graph.withoutMerges_replace_insert hkey hne tag before after value
  have hsame : r.source.RemainsOf r.source := ⟨rfl, fun _ => rfl⟩
  exact renderWithin_eq_of_remains hsame ⟨_, root⟩ ⟨_, root⟩
    (congrArg (fun graph => Document.tree ⟨graph, root⟩) hremaining) levels

/-- Pairs of merge keys have no influence. If the same remains of two documents without them, and
of all documents that are loaded, then they have the same literal, or the same failure, and the
same documents are asked for, whatever stands in those pairs. -/
theorem merge_pairs_unnoticed (r : Renderer) (source' : Source) (d d' : Document)
    (hsource : source'.RemainsOf r.source) (hroot : d'.remaining = d.remaining) :
    (∀ levels, { r with source := source' }.renderWithin levels d'.graph d'.root =
      r.renderWithin levels d.graph d.root) ∧
    ((r.render d.graph d.root).outcome ≠ .error .nesting →
      ({ r with source := source' }.render d'.graph d'.root).outcome ≠ .error .nesting →
      { r with source := source' }.render d'.graph d'.root = r.render d.graph d.root) := by
  have hwithin := renderWithin_eq_of_remains hsource d d' hroot
  refine ⟨hwithin, fun hends hends' => ?_⟩
  -- Each has its own budget; both have an end with the larger one.
  have hle := Nat.le_max_left (r.budget d.graph) ({ r with source := source' }.budget d'.graph)
  have hle' := Nat.le_max_right (r.budget d.graph) ({ r with source := source' }.budget d'.graph)
  unfold render at hends hends' ⊢
  rw [← renderWithin_of_le hle hends, ← renderWithin_of_le hle' hends', hwithin]

/-- An include, and below a merge key the document itself, a missing document and no node. -/
def mergedList : Document :=
  ⟨⟨#[.mapping "" [(1, 2), (3, 4)], .scalar ⟨coreTag "str", "k"⟩, .scalar ⟨includeTag, "part"⟩,
    .scalar ⟨"", mergeKey⟩, .sequence "" [0, 5, 6], .scalar ⟨includeTag, "missing"⟩, .foreign]⟩, 0⟩

/-- The include alone. -/
def unmergedList : Document :=
  ⟨⟨#[.mapping "" [(1, 2)], .scalar ⟨coreTag "str", "k"⟩, .scalar ⟨includeTag, "part"⟩]⟩, 0⟩

/-- A mapping with some pairs of a merge key. -/
def part (pairs : List (NodeId × NodeId)) : Document :=
  ⟨⟨#[.mapping "" pairs, .scalar ⟨"", mergeKey⟩]⟩, 0⟩

def partSource (pairs : List (NodeId × NodeId)) : Source where
  home := "/"
  load path := if path = "/part" then .ok (some (part pairs))
    else .error (.unreadable path .notSupplied)
  documents := [part pairs]
  load_ne_nesting path := by split <;> simp

theorem remaining_mergedList : mergedList.remaining = unmergedList.remaining := by
  simp [Document.remaining, Document.tree, Graph.withoutMerges, Graph.withoutPairs, Graph.kept,
    Graph.collections, List.countP_cons, Graph.unfold, Graph.node, Node.isMergeKey,
    Node.isCollection, mergedList, unmergedList, mergeKey]

theorem partSource_remainsOf : (partSource [(1, 0)]).RemainsOf (partSource []) := by
  refine ⟨rfl, fun path => ?_⟩
  simp only [partSource]
  split
  · simp [Except.map, Document.remaining, Document.tree, Graph.withoutMerges, Graph.withoutPairs,
      Graph.kept, Graph.collections, List.countP_cons, Graph.unfold, Graph.node, Node.isMergeKey,
      Node.isCollection, part]
  · rfl

theorem merge_pairs_unnoticed_mergedList :
    let r : Renderer := ⟨"/", true, 2, 0, [], partSource []⟩
    let merged : Renderer := { r with source := partSource [(1, 0)] }
    (partSource [(1, 0)]).RemainsOf (partSource []) ∧
    mergedList.remaining = unmergedList.remaining ∧
    (∀ levels, merged.renderWithin levels mergedList.graph 0 =
      r.renderWithin levels unmergedList.graph 0) ∧
    merged.render mergedList.graph 0 = r.render unmergedList.graph 0 ∧
    (r.render unmergedList.graph 0).outcome = .ok "array(\n  'k' => array(\n  )\n)" ∧
    (r.render unmergedList.graph 0).loads = ["/part"] := by
  intro r merged
  have hends : (r.render unmergedList.graph 0).outcome ≠ .error .nesting := by decide +kernel
  have hends' : (merged.render mergedList.graph 0).outcome ≠ .error .nesting := by decide +kernel
  obtain ⟨hwithin, hrender⟩ := merge_pairs_unnoticed r (partSource [(1, 0)]) unmergedList mergedList
    partSource_remainsOf remaining_mergedList
  exact ⟨partSource_remainsOf, remaining_mergedList, hwithin, hrender hends hends',
    by decide +kernel, by decide +kernel⟩

end Renderer

end PhpArray

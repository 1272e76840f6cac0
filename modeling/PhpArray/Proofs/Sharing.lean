import Mathlib.Data.Set.Finite.Basic
import PhpArray.Proofs.Traversal
import PhpArray.Proofs.Unsharing

/-!
Shared nodes and nodes inside of themselves, in documents without includes. What a rendering asks of
a document is a condition on each rendered node for itself, and that no collection is inside of
itself; then every way down ends, so the document has a content, which is also the content of the
document without shared nodes. The main statements are that this is exactly when a document is
rendered, that sharing makes no difference, and that a recursive alias is reported for nothing else.
-/

namespace PhpArray

open Yaml

namespace Yaml

/-- A node is somewhere below another. -/
abbrev Graph.Contains (g : Graph) : NodeId → NodeId → Prop :=
  Relation.TransGen g.Part

namespace Document

/-- A document none of whose nodes is tagged as an include has no includes. -/
theorem includeFree_of_nodes {d : Document}
    (h : ∀ n ∈ d.graph.nodes.toList, n.tag? ≠ some includeTag) : d.IncludeFree := by
  intro id s _ hnode htag
  have hlt : id < d.graph.nodes.size := Graph.lt_size_of_node (by simp [hnode])
  have hmem : d.graph.node id ∈ d.graph.nodes.toList := by simp [Graph.node, hlt]
  rw [hnode] at hmem
  exact h _ hmem (by rw [Node.tag?, htag])

/-- Nothing that is rendered stands in the way of a rendering. -/
structure Renderable (d : Document) : Prop where
  shape : ∀ id, d.Rendered id → (d.graph.node id).shape ∈ [.scalar, .sequence, .mapping]
  tag : ∀ id, d.Rendered id → (d.graph.node id).isCollection = true →
    (d.graph.node id).tag? ≠ some includeTag
  key : ∀ id tag pairs, d.Rendered id → d.graph.node id = .mapping tag pairs →
    ∀ pair ∈ d.graph.kept pairs,
      ∃ s, d.graph.node pair.1 = .scalar s ∧ s.tag ≠ includeTag ∧ s.HasLiteral
  acyclic : ∀ id, d.Rendered id → ¬ d.graph.Contains id id
  literal : ∀ id s, d.Rendered id → d.graph.node id = .scalar s → s.HasLiteral

end Document

end Yaml

namespace Source

variable {source : Source} {dir : String}

/-- Contents get smaller on the way down, so a node with a content is not inside of itself. -/
theorem HasContent.not_contains {g : Graph} {id : NodeId} {c : Content}
    (h : source.HasContent dir ⟨g, id⟩ c) : ¬ g.Contains id id := by
  have hsmaller : ∀ below, g.Contains id below →
      ∃ c', source.HasContent dir ⟨g, below⟩ c' ∧ sizeOf c' < sizeOf c := by
    intro below hbelow
    induction hbelow with
    | single hpart =>
        obtain ⟨c', hc', hlt, -⟩ := h.part hpart
        exact ⟨c', hc', hlt⟩
    | tail _ hpart ih =>
        obtain ⟨c', hc', hlt⟩ := ih
        obtain ⟨c'', hc'', hlt', -⟩ := hc'.part hpart
        exact ⟨c'', hc'', hlt'.trans hlt⟩
  intro hself
  obtain ⟨c', hc', hlt⟩ := hsmaller id hself
  rw [hc'.unique h] at hlt
  exact lt_irrefl _ hlt

/-- A document with a content, all of whose scalars are rendered, has nothing in the way. -/
theorem renderable_of_hasContent {d : Document} {c : Content} (hfree : d.IncludeFree)
    (h : source.HasContent dir d c) (hliteral : ∀ s ∈ c.scalars, s.HasLiteral) :
    d.Renderable := by
  constructor
  · intro id hid
    obtain ⟨c', hc', -⟩ := h.rendered hid
    cases hc' <;> simp_all [Node.shape]
  · intro id hid hcollection
    obtain ⟨c', hc', -⟩ := h.rendered hid
    cases hc' <;> simp_all [Node.tag?, Node.isCollection]
  · intro id tag pairs hid hnode pair hpair
    obtain ⟨c', hc', hsub⟩ := h.rendered hid
    cases hc' with
    | @mapping _ _ _ _ entries hnode' _ hkeys _ =>
        cases hnode.symm.trans hnode'
        rw [List.forall₂_map_right_iff] at hkeys
        obtain ⟨entry, hentry, hkey, htag⟩ := forall₂_exists_of_mem hkeys.flip hpair
        have hscalar := hsub (Content.mem_scalars_ofPairs.2 ⟨entry, hentry, .inl rfl⟩)
        exact ⟨entry.1, hkey, htag, hliteral _ hscalar⟩
    | _ => simp_all
  · intro id hid
    obtain ⟨c', hc', -⟩ := h.rendered hid
    exact hc'.not_contains
  · intro id s hid hnode
    obtain ⟨c', hc', hsub⟩ := h.rendered hid
    cases hc' with
    | scalar hnode' _ =>
        cases hnode.symm.trans hnode'
        exact hliteral s (hsub (by simp [Content.scalars]))
    | included hnode' htag _ _ =>
        cases hnode.symm.trans hnode'
        exact absurd htag (hfree id s hid hnode)
    | _ => simp_all

private theorem exists_forall₂ {α β : Type} {R : α → β → Prop} {as : List α}
    (h : ∀ a ∈ as, ∃ b, R a b) : ∃ bs, List.Forall₂ R as bs := by
  induction as with
  | nil => exact ⟨[], .nil⟩
  | cons a as ih =>
      obtain ⟨b, hb⟩ := h a (by simp)
      obtain ⟨bs, hbs⟩ := ih fun a' ha' => h a' (by simp [ha'])
      exact ⟨b :: bs, .cons hb hbs⟩

/-- A content all of whose scalars are rendered. -/
def HasWritable (dir : String) (d : Document) (c : Content) : Prop :=
  nothing.HasContent dir d c ∧ ∀ s ∈ c.scalars, s.HasLiteral

theorem HasWritable.sequence {g : Graph} {id : NodeId} {tag : String} {items : List NodeId}
    (hnode : g.node id = .sequence tag items) (htag : tag ≠ includeTag)
    (hitems : ∀ item ∈ items, ∃ c, HasWritable dir ⟨g, item⟩ c) :
    ∃ c, HasWritable dir ⟨g, id⟩ c := by
  obtain ⟨contents, hcontents⟩ := exists_forall₂ hitems
  refine ⟨.ofItems contents, .sequence hnode htag ?_, fun s hs => ?_⟩
  · rw [List.forall₂_map_left_iff]
    exact hcontents.imp fun _ _ hcontent => hcontent.1
  · obtain ⟨c, hc, hs⟩ := Content.mem_scalars_ofItems.1 hs
    obtain ⟨item, -, -, hliteral⟩ := forall₂_exists_of_mem hcontents hc
    exact hliteral s hs

theorem HasWritable.mapping {g : Graph} {id : NodeId} {tag : String}
    {pairs : List (NodeId × NodeId)} (hnode : g.node id = .mapping tag pairs)
    (htag : tag ≠ includeTag)
    (hkeys : ∀ pair ∈ g.kept pairs,
      ∃ s, g.node pair.1 = .scalar s ∧ s.tag ≠ includeTag ∧ s.HasLiteral)
    (hvalues : ∀ pair ∈ g.kept pairs, ∃ c, HasWritable dir ⟨g, pair.2⟩ c) :
    ∃ c, HasWritable dir ⟨g, id⟩ c := by
  have hpairs : ∀ pair ∈ g.kept pairs, ∃ entry : Scalar × Content,
      (g.node pair.1 = .scalar entry.1 ∧ entry.1.tag ≠ includeTag ∧ entry.1.HasLiteral) ∧
        HasWritable dir ⟨g, pair.2⟩ entry.2 := by
    intro pair hpair
    obtain ⟨key, hkey⟩ := hkeys pair hpair
    obtain ⟨c, hc⟩ := hvalues pair hpair
    exact ⟨(key, c), hkey, hc⟩
  obtain ⟨entries, hentries⟩ := exists_forall₂ hpairs
  refine ⟨.ofPairs entries, .mapping hnode htag ?_ ?_, fun s hs => ?_⟩
  · rw [List.forall₂_map_right_iff]
    exact hentries.imp fun _ _ hentry => ⟨hentry.1.1, hentry.1.2.1⟩
  · rw [List.forall₂_map_left_iff, List.forall₂_map_right_iff]
    exact hentries.imp fun _ _ hentry => hentry.2.1
  · obtain ⟨entry, hentry, hcase⟩ := Content.mem_scalars_ofPairs.1 hs
    obtain ⟨pair, -, hkey, -, hliteral⟩ := forall₂_exists_of_mem hentries hentry
    rcases hcase with rfl | hs
    · exact hkey.2.2
    · exact hliteral s hs

end Source

namespace Yaml.Document.Renderable

variable {d : Document} {dir : String}

theorem lt_size (h : d.Renderable) {id : NodeId} (hid : d.Rendered id) :
    id < d.graph.nodes.size := by
  apply Graph.lt_size_of_node
  intro hforeign
  have hshape := h.shape id hid
  simp [hforeign, Node.shape] at hshape

/-- There are finitely many nodes and none is inside of itself, so every way down ends. -/
theorem wellFounded (h : d.Renderable) :
    WellFounded fun part id : {id // d.Rendered id} => d.graph.Contains id part := by
  have : Finite {id // d.Rendered id} :=
    (Set.finite_lt_nat d.graph.nodes.size).subset fun id hid => h.lt_size hid
  have : IsTrans {id // d.Rendered id} fun part id => d.graph.Contains id part :=
    ⟨fun _ _ _ hfirst hsecond => hsecond.trans hfirst⟩
  have : Std.Irrefl fun part id : {id // d.Rendered id} => d.graph.Contains id part :=
    ⟨fun id => h.acyclic id id.2⟩
  exact Finite.wellFounded_of_trans_of_irrefl _

/-- A node has a content if its parts have one. -/
theorem exists_hasWritable_of_parts (h : d.Renderable) (hfree : d.IncludeFree) {id : NodeId}
    (hid : d.Rendered id)
    (hparts : ∀ part, d.graph.Part id part → ∃ c, Source.HasWritable dir ⟨d.graph, part⟩ c) :
    ∃ c, Source.HasWritable dir ⟨d.graph, id⟩ c := by
  have htag := h.tag id hid
  have hshape := h.shape id hid
  cases hnode : d.graph.node id with
  | scalar s =>
      refine ⟨.scalar s, .scalar hnode (hfree id s hid hnode), ?_⟩
      simpa [Content.scalars] using h.literal id s hid hnode
  | sequence tag items =>
      have htag : tag ≠ includeTag := by simpa [hnode, Node.isCollection, Node.tag?] using htag
      exact Source.HasWritable.sequence hnode htag fun item hitem => hparts item (.item hnode hitem)
  | mapping tag pairs =>
      have htag : tag ≠ includeTag := by simpa [hnode, Node.isCollection, Node.tag?] using htag
      exact Source.HasWritable.mapping hnode htag (h.key id tag pairs hid hnode) fun pair hpair =>
        hparts pair.2 (.value hnode hpair)
  | bare tag => simp [hnode, Node.shape] at hshape
  | foreign => simp [hnode, Node.shape] at hshape

/-- A document with nothing in the way has a content. -/
theorem exists_hasWritable (h : d.Renderable) (hfree : d.IncludeFree) :
    ∃ c, Source.HasWritable dir d c := by
  have hall : ∀ id : {id // d.Rendered id}, ∃ c, Source.HasWritable dir ⟨d.graph, id⟩ c := by
    intro id
    induction id using h.wellFounded.induction with
    | _ id ih =>
      apply h.exists_hasWritable_of_parts hfree id.2
      intro part hpart
      exact ih ⟨part, id.2.part hpart⟩ (.single hpart)
  exact hall ⟨d.root, .root⟩

end Yaml.Document.Renderable

namespace Renderer

variable {r : Renderer}

/-- A document with a writable content is rendered as the text of its content. -/
theorem render_of_hasWritable (hindent : 0 ≤ r.indent) {d : Document} {c : Content}
    (h : Source.HasWritable r.includeDir d c) :
    (r.render d.graph d.root).outcome = .ok (r.text r.depth c) := by
  have hyields : (r.source.gather r.includeDir (r.budget d.graph) r.chain d.graph [] r.depth
      d.root).Yields c :=
    Source.gather_yields h.1 h.2 ⟨.nil, by simp, by simp⟩ (collections_lt_budget r d.graph)
  rw [render, renderWithin, node_eq_gather hindent, Run.outcome_map, hyields.outcome]
  rfl

/-- A document without includes is rendered exactly if nothing stands in the way. -/
theorem render_ok_iff (hindent : 0 ≤ r.indent) {d : Document} (hfree : d.IncludeFree) :
    (∃ text, (r.render d.graph d.root).outcome = .ok text) ↔ d.Renderable := by
  constructor
  · rintro ⟨text, htext⟩
    rw [render, renderWithin, node_eq_gather hindent, Run.map_ok_iff] at htext
    obtain ⟨c, hgather, -⟩ := htext
    exact Source.renderable_of_hasContent hfree (Source.hasContent_of_gather hgather)
      fun s hs => Source.hasLiteral_of_gather hgather hs
  · intro hrenderable
    obtain ⟨c, hc⟩ := hrenderable.exists_hasWritable hfree
    exact ⟨_, render_of_hasWritable hindent hc⟩

end Renderer

namespace Source

variable {source : Source} {dir : String} {d : Document}

/-- A task that is a call is at a node of the document inside of all collections around it. -/
def Inside (d : Document) : Task → Prop
  | .key _ => True
  | .node _ call => call.document.graph = d.graph ∧ d.Rendered call.document.root ∧
    ∀ id ∈ call.active, d.graph.Contains id call.document.root

theorem Inside.part {depth depth' : Int} {chain : List String} {active : List NodeId} {g : Graph}
    {id part : NodeId} (h : Inside d (.node depth ⟨chain, active, ⟨g, id⟩⟩))
    (hpart : g.Part id part) : Inside d (.node depth' ⟨chain, id :: active, ⟨g, part⟩⟩) := by
  obtain ⟨rfl, hid, haround⟩ := h
  refine ⟨rfl, hid.part hpart, List.forall_mem_cons.2 ⟨.single hpart, fun i hi => ?_⟩⟩
  exact (haround i hi).tail hpart

theorem Inside.step {task : Task} {notes : List Note} {parts : List Task}
    (hfree : d.IncludeFree) (hstep : source.Step dir task notes parts) (h : Inside d task) :
    ∀ part ∈ parts, Inside d part := by
  cases hstep with
  | key _ _ => simp
  | scalar _ _ _ => simp
  | empty _ _ _ => simp
  | document hnode _ _ =>
      obtain ⟨rfl, hid, -⟩ := h
      exact absurd rfl (hfree _ _ hid hnode)
  | sequence hnode _ _ =>
      intro part hpart
      obtain ⟨item, hitem, rfl⟩ := List.mem_map.1 hpart
      exact h.part (.item hnode hitem)
  | mapping hnode _ _ =>
      intro part hpart
      obtain ⟨pair, hpair, hmem⟩ := List.mem_flatMap.1 hpart
      rcases List.mem_pair.1 hmem with rfl | rfl
      · trivial
      · exact h.part (.value hnode hpair)

end Source

namespace Renderer

variable {r : Renderer}

/-- A recursive alias is reported only of a collection that is inside of itself. -/
theorem contains_of_recursiveAlias (hindent : 0 ≤ r.indent) {d : Document} (hfree : d.IncludeFree)
    {shape : Shape}
    (h : (r.render d.graph d.root).outcome = .error (.unsupported shape .recursiveAlias)) :
    ∃ id, d.Rendered id ∧ (d.graph.node id).shape = shape ∧ d.graph.Contains id id := by
  obtain ⟨task, n, rest, before, last, hsteps, hstuck, -⟩ :=
    (renderWithin_does hindent (r.budget d.graph) d.graph d.root).stops _ h (by simp)
  have hstart : ∀ task ∈ r.start d.graph d.root, Source.Inside d task := by
    intro task htask
    rw [List.mem_singleton.1 htask]
    exact ⟨rfl, .root, by simp⟩
  have hinside := hsteps.forall_mem (Source.Inside.step hfree) hstart _ List.mem_cons_self
  cases hstuck with
  | load hnode _ _ =>
      obtain ⟨rfl, hid, -⟩ := hinside
      exact absurd rfl (hfree _ _ hid hnode)
  | recursive _ _ hactive =>
      obtain ⟨rfl, hid, haround⟩ := hinside
      exact ⟨_, hid, rfl, haround _ hactive⟩

/-- Aliases are treated exactly. A document without includes is rendered if nothing that is rendered
stands in the way, and only then. Its text is that of the tree in which every place has a node of
its own, so shared nodes make no difference. A recursive alias is reported only of a collection that
is inside of itself by ways that are rendered, which leaves out the values of merge keys. -/
theorem aliases_exact (r : Renderer) (hindent : 0 ≤ r.indent) (d : Document)
    (hfree : d.IncludeFree) :
    ((∃ text, (r.render d.graph d.root).outcome = .ok text) ↔ d.Renderable) ∧
    d.unshared.IsTree ∧
    (∀ text, (r.render d.graph d.root).outcome = .ok text →
      (r.render d.unshared.graph d.unshared.root).outcome = .ok text) ∧
    (∀ shape, (r.render d.graph d.root).outcome = .error (.unsupported shape .recursiveAlias) →
      ∃ id, d.Rendered id ∧ (d.graph.node id).shape = shape ∧ d.graph.Contains id id) := by
  refine ⟨render_ok_iff hindent hfree, d.unshared_isTree, fun text htext => ?_, fun shape h => ?_⟩
  · obtain ⟨c, hc⟩ := ((render_ok_iff hindent hfree).1 ⟨text, htext⟩).exists_hasWritable hfree
    rw [← htext, render_of_hasWritable hindent hc]
    exact render_of_hasWritable hindent ⟨hc.1.unshared, hc.2⟩
  · exact contains_of_recursiveAlias hindent hfree h

/-- A list of the same pair twice. The pair has itself as the value of a merge key. -/
def pairTwice : Document :=
  ⟨⟨#[.sequence "" [1, 1], .mapping "" [(2, 1), (3, 4)], .scalar ⟨coreTag "merge", "<<"⟩,
    .scalar ⟨coreTag "str", "k"⟩, .scalar ⟨coreTag "int", "7"⟩]⟩, 0⟩

/-- A list of a list of the first list. -/
def listInside : Document :=
  ⟨⟨#[.sequence "" [1], .sequence "" [0]]⟩, 0⟩

theorem aliases_exact_pairTwice :
    let r : Renderer := ⟨"/", false, 4, 0, [], .nothing⟩
    let text := "array(array('k' => 7), array('k' => 7))"
    (pairTwice.IncludeFree ∧ (r.render pairTwice.graph 0).outcome = .ok text ∧
      pairTwice.Renderable ∧
      (r.render pairTwice.unshared.graph pairTwice.unshared.root).outcome = .ok text) ∧
    (listInside.IncludeFree ∧
      (r.render listInside.graph 0).outcome = .error (.unsupported .sequence .recursiveAlias) ∧
      ¬ listInside.Renderable ∧
      ∃ id, listInside.Rendered id ∧ listInside.graph.Contains id id) := by
  intro r text
  constructor
  · have hfree : pairTwice.IncludeFree := Document.includeFree_of_nodes (by decide)
    have hrun : (r.render pairTwice.graph 0).outcome = .ok text := by decide +kernel
    obtain ⟨hiff, -, hunshared, -⟩ := aliases_exact r (by decide) pairTwice hfree
    exact ⟨hfree, hrun, hiff.1 ⟨text, hrun⟩, hunshared text hrun⟩
  · have hfree : listInside.IncludeFree := Document.includeFree_of_nodes (by decide)
    have hrun : (r.render listInside.graph 0).outcome =
        .error (.unsupported .sequence .recursiveAlias) := by decide +kernel
    obtain ⟨hiff, -, -, hrecursive⟩ := aliases_exact r (by decide) listInside hfree
    obtain ⟨id, hid, -, hcontains⟩ := hrecursive .sequence hrun
    exact ⟨hfree, hrun, fun hrenderable => hrenderable.acyclic id hid hcontains,
      id, hid, hcontains⟩

end Renderer

end PhpArray

import PhpArray.Proofs.Layout
import PhpArray.Proofs.Nesting

/-!
Includes put in place. An item, a value or a root that is an include is replaced by a fresh copy of
the document it names, whose nodes are placed behind those that are there, with their numbers
shifted. Keys and the values of merge keys stay as they are. What is left has no includes, the same
content and so the same literal, for which no document is asked for.
-/

namespace PhpArray

open Yaml

namespace Yaml

/-- A node with the numbers renamed that it refers to. -/
def Node.mapIds (f : NodeId → NodeId) : Node → Node
  | .sequence tag items => .sequence tag (items.map f)
  | .mapping tag pairs => .mapping tag (pairs.map fun pair => (f pair.1, f pair.2))
  | node => node

namespace Graph

/-- A node with its items and values renamed, except the values of merge keys. -/
def redirect (g : Graph) (f : NodeId → NodeId) : Node → Node
  | .sequence tag items => .sequence tag (items.map f)
  | .mapping tag pairs =>
    .mapping tag (pairs.map fun pair =>
      if (g.node pair.1).isMergeKey then pair else (pair.1, f pair.2))
  | node => node

/-- The nodes of a graph stand in another with all numbers shifted. -/
def Copied (g' g : Graph) (shift : NodeId) : Prop :=
  ∀ id < g.nodes.size, g'.node (shift + id) = (g.node id).mapIds (shift + ·)

theorem lt_size_of_node {g : Graph} {id : NodeId} (h : g.node id ≠ .foreign) :
    id < g.nodes.size := by
  by_contra hge
  exact h (by simp [node, Array.getD_eq_getD_getElem?, hge])

end Graph

/-- A node in a rendered position: the root, an item, or a value whose key is no merge key. -/
inductive Document.Rendered (d : Document) : NodeId → Prop
  | root : Rendered d d.root
  | item {id item : NodeId} {tag : String} {items : List NodeId} :
      Rendered d id → d.graph.node id = .sequence tag items → item ∈ items → Rendered d item
  | value {id : NodeId} {tag : String} {pairs : List (NodeId × NodeId)} {pair : NodeId × NodeId} :
      Rendered d id → d.graph.node id = .mapping tag pairs → pair ∈ d.graph.kept pairs →
      Rendered d pair.2

def Document.IncludeFree (d : Document) : Prop :=
  ∀ id s, d.Rendered id → d.graph.node id = .scalar s → s.tag ≠ includeTag

/-- A node is directly below another in a rendered position. -/
inductive Graph.Part (g : Graph) : NodeId → NodeId → Prop
  | item {id item : NodeId} {tag : String} {items : List NodeId} :
      g.node id = .sequence tag items → item ∈ items → Part g id item
  | value {id : NodeId} {tag : String} {pairs : List (NodeId × NodeId)} {pair : NodeId × NodeId} :
      g.node id = .mapping tag pairs → pair ∈ g.kept pairs → Part g id pair.2

theorem Document.Rendered.part {d : Document} {id part : NodeId} (h : d.Rendered id)
    (hpart : d.graph.Part id part) : d.Rendered part := by
  cases hpart with
  | item hnode hitem => exact .item h hnode hitem
  | value hnode hpair => exact .value h hnode hpair

/-- Copies of documents, one behind the other from a position on, each with its root. -/
def copies (start : NodeId) : List (NodeId × Document) → List (NodeId × NodeId) × List Node
  | [] => ([], [])
  | (id, d) :: rest =>
    let (roots, nodes) := copies (start + d.graph.nodes.size) rest
    ((id, start + d.root) :: roots, d.graph.nodes.toList.map (Node.mapIds (start + ·)) ++ nodes)

namespace Document

/-- Copies of what stands for some nodes of a document, placed behind all of its nodes. -/
def placed (d : Document) (included : NodeId → Option Document) :
    List (NodeId × NodeId) × List Node :=
  copies d.graph.nodes.size ((List.range d.graph.nodes.size).filterMap fun id =>
    (included id).map fun copy => (id, copy))

def renamed (d : Document) (included : NodeId → Option Document) (id : NodeId) : NodeId :=
  ((d.placed included).1.lookup id).getD id

/-- A document in which some nodes, wherever they are items, values or the root, are replaced by
copies of documents. -/
def withCopies (d : Document) (included : NodeId → Option Document) : Document :=
  ⟨⟨(d.graph.nodes.toList.map (d.graph.redirect (d.renamed included)) ++
    (d.placed included).2).toArray⟩, d.renamed included d.root⟩

end Document

end Yaml

namespace Source

/-- The document that a node names, if it is an include. -/
def includedAt? (source : Source) (dir : String) (g : Graph) (id : NodeId) : Option Document :=
  match g.node id with
  | .scalar s => if s.tag = includeTag then source.included? dir s.value else none
  | _ => none

/-- The document with its includes in place, down to some levels of includes. -/
def inlined (source : Source) (dir : String) : Nat → Document → Document
  | 0, d => d
  | levels + 1, d =>
    d.withCopies fun id => (source.includedAt? dir d.graph id).map (source.inlined dir levels)

/-- No documents. -/
def nothing : Source :=
  ⟨"/", fun path => .error (.unreadable path .notSupplied), [], by simp⟩

end Source

theorem lookup_filterMap {β : Type} (f : NodeId → Option β) (ids : List NodeId) (id : NodeId) :
    (ids.filterMap fun id => (f id).map fun b => (id, b)).lookup id =
      if id ∈ ids then f id else none := by
  induction ids with
  | nil => simp
  | cons first rest ih =>
      by_cases hid : id = first
      · subst hid
        cases hf : f id with
        | none => simp [hf, ih]
        | some b => simp [hf]
      · have hne : (id == first) = false := by simpa using hid
        cases hf : f first with
        | none => simp [hf, ih, hid]
        | some b => simp [hf, ih, hid, List.lookup_cons, hne]

namespace Yaml

theorem lookup_copies_eq_none {start : NodeId} {included : List (NodeId × Document)} {id : NodeId}
    (h : included.lookup id = none) : (copies start included).1.lookup id = none := by
  induction included generalizing start with
  | nil => rfl
  | cons first rest ih =>
      rw [List.lookup_cons] at h
      cases hid : id == first.1 with
      | true => simp [hid] at h
      | false =>
          rw [hid] at h
          simpa [copies, List.lookup_cons, hid] using ih h

/-- A copy stands behind the nodes before it, whatever they are, and other copies follow. -/
theorem copied_of_lookup {before : List Node} {included : List (NodeId × Document)} {id : NodeId}
    {d : Document} (h : included.lookup id = some d) :
    ∃ shift, (copies before.length included).1.lookup id = some (shift + d.root) ∧
      Graph.Copied ⟨(before ++ (copies before.length included).2).toArray⟩ d.graph shift := by
  induction included generalizing before with
  | nil => simp at h
  | cons first rest ih =>
      obtain ⟨firstId, firstDocument⟩ := first
      rw [List.lookup_cons] at h
      cases hid : id == firstId with
      | true =>
          rw [hid] at h
          obtain rfl : firstDocument = d := by simpa using h
          refine ⟨before.length, by simp [copies, List.lookup_cons, hid], fun i hi => ?_⟩
          have hnode : firstDocument.graph.node i = firstDocument.graph.nodes[i] := by
            simp [Graph.node, hi]
          rw [hnode]
          have hge : ¬ before.length + i < before.length := by omega
          simp [copies, Graph.node, List.getElem?_append, hi, hge]
      | false =>
          rw [hid] at h
          have hlength : (before ++ firstDocument.graph.nodes.toList.map
              (Node.mapIds (before.length + ·))).length =
                before.length + firstDocument.graph.nodes.size := by simp
          obtain ⟨shift, hroot, hcopied⟩ := @ih (before ++
            firstDocument.graph.nodes.toList.map (Node.mapIds (before.length + ·))) h
          rw [hlength] at hroot hcopied
          refine ⟨shift, by simpa [copies, List.lookup_cons, hid] using hroot, ?_⟩
          rw [List.append_assoc] at hcopied
          exact hcopied

/-- A graph has the nodes of another, those that are replaced being renamed to the roots of their
copies. -/
structure Graph.Expands (g' g : Graph) (included : NodeId → Option Document)
    (renamed : NodeId → NodeId) : Prop where
  node_eq : ∀ id < g.nodes.size, g'.node id = g.redirect renamed (g.node id)
  renamed_eq : ∀ id, included id = none → renamed id = id
  copied : ∀ id copy, included id = some copy →
    ∃ shift, renamed id = shift + copy.root ∧ g'.Copied copy.graph shift

theorem Document.withCopies_expands (d : Document) {included : NodeId → Option Document}
    (hincluded : ∀ id copy, included id = some copy → id < d.graph.nodes.size) :
    (d.withCopies included).graph.Expands d.graph included (d.renamed included) := by
  have hlookup := lookup_filterMap included (List.range d.graph.nodes.size)
  refine ⟨fun id hid => ?_, fun id hnone => ?_, fun id copy hcopy => ?_⟩
  · have hnode : d.graph.node id = d.graph.nodes[id] := by simp [Graph.node, hid]
    rw [hnode]
    simp [withCopies, Graph.node, List.getElem?_append, hid]
  · have hlookupNone := hlookup id
    rw [hnone, ite_self] at hlookupNone
    simp [renamed, placed, lookup_copies_eq_none hlookupNone]
  · have hlookupCopy := hlookup id
    rw [if_pos (List.mem_range.2 (hincluded id copy hcopy)), hcopy] at hlookupCopy
    obtain ⟨shift, hroot, hcopied⟩ := @copied_of_lookup (d.graph.nodes.toList.map
      (d.graph.redirect (d.renamed included))) _ _ _ hlookupCopy
    rw [List.length_map, Array.length_toList] at hroot hcopied
    exact ⟨shift, by simp [renamed, placed, hroot], hcopied⟩

@[simp] theorem Node.isMergeKey_mapIds (f : NodeId → NodeId) (n : Node) :
    (n.mapIds f).isMergeKey = n.isMergeKey := by
  cases n <;> rfl

@[simp] theorem Graph.isMergeKey_redirect (g : Graph) (f : NodeId → NodeId) (n : Node) :
    (g.redirect f n).isMergeKey = n.isMergeKey := by
  cases n <;> rfl

theorem Graph.kept_map {g g' : Graph} {pairs : List (NodeId × NodeId)}
    {f : NodeId × NodeId → NodeId × NodeId}
    (h : ∀ pair ∈ pairs, (g'.node (f pair).1).isMergeKey = (g.node pair.1).isMergeKey) :
    g'.kept (pairs.map f) = (g.kept pairs).map f := by
  unfold kept
  rw [List.filter_map]
  congr 1
  apply List.filter_congr
  intro pair hpair
  simp [h pair hpair]

/-- The key of a pair is a node if it is a merge key or else a scalar. -/
theorem Graph.lt_size_of_kept {g : Graph} {pairs : List (NodeId × NodeId)}
    (h : ∀ pair ∈ g.kept pairs, ∃ s, g.node pair.1 = .scalar s) {pair : NodeId × NodeId}
    (hpair : pair ∈ pairs) : pair.1 < g.nodes.size := by
  apply lt_size_of_node
  intro hforeign
  have hkept : pair ∈ g.kept pairs := by
    simp [kept, hpair, hforeign, Node.isMergeKey]
  obtain ⟨s, hs⟩ := h pair hkept
  rw [hforeign] at hs
  cases hs

end Yaml

namespace Source

variable {source : Source} {dir : String}

/-- A copy has the content of what was copied. -/
theorem HasContent.copied {g' : Graph} {d : Document} {c : Content} {shift : NodeId}
    (h : source.HasContent dir d c) (hcopied : g'.Copied d.graph shift) :
    source.HasContent dir ⟨g', shift + d.root⟩ c := by
  induction h using HasContent.induct with
  | @scalar g id s hnode htag =>
      have hid : id < g.nodes.size := Graph.lt_size_of_node (by simp [hnode])
      exact .scalar (by rw [hcopied id hid, hnode]; rfl) htag
  | @included g id s d c hnode htag hload h =>
      have hid : id < g.nodes.size := Graph.lt_size_of_node (by simp [hnode])
      exact .included (by rw [hcopied id hid, hnode]; rfl) htag hload h
  | @sequence g id tag items contents hnode htag hitems ih =>
      have hid : id < g.nodes.size := Graph.lt_size_of_node (by simp [hnode])
      apply HasContent.sequence (by rw [hcopied id hid, hnode]; rfl) htag
      rw [List.map_map, List.forall₂_map_left_iff]
      rw [List.forall₂_map_left_iff] at ih
      exact ih.imp fun item c ⟨_, hitem⟩ => hitem hcopied
  | @mapping g id tag pairs entries hnode htag hkeys hvalues ih =>
      have hid : id < g.nodes.size := Graph.lt_size_of_node (by simp [hnode])
      have hkeyIds : ∀ pair ∈ pairs, pair.1 < g.nodes.size := by
        refine fun pair hpair => Graph.lt_size_of_kept (fun pair hpair => ?_) hpair
        obtain ⟨key, -, hkey, -⟩ := forall₂_exists_of_mem hkeys.flip hpair
        exact ⟨key, hkey⟩
      have hkept : g'.kept (pairs.map fun pair => (shift + pair.1, shift + pair.2)) =
          (g.kept pairs).map fun pair => (shift + pair.1, shift + pair.2) :=
        Graph.kept_map fun pair hpair => by simp [hcopied pair.1 (hkeyIds pair hpair)]
      refine .mapping (by rw [hcopied id hid, hnode]; rfl) htag ?_ ?_
      · rw [hkept, List.forall₂_map_left_iff]
        refine hkeys.imp fun pair key ⟨hkey, hother⟩ => ⟨?_, hother⟩
        have hpair : pair.1 < g.nodes.size := Graph.lt_size_of_node (by simp [hkey])
        rw [hcopied _ hpair, hkey]
        rfl
      · rw [hkept, List.map_map, List.forall₂_map_left_iff]
        rw [List.forall₂_map_left_iff] at ih
        exact ih.imp fun pair c ⟨_, hvalue⟩ => hvalue hcopied

theorem includedAt?_of_include {g : Graph} {id : NodeId} {s : Scalar}
    (hnode : g.node id = .scalar s) (htag : s.tag = includeTag) :
    source.includedAt? dir g id = source.included? dir s.value := by
  simp [includedAt?, hnode, htag]

theorem includedAt?_of_scalar {g : Graph} {id : NodeId} {s : Scalar}
    (hnode : g.node id = .scalar s) (htag : s.tag ≠ includeTag) :
    source.includedAt? dir g id = none := by
  simp [includedAt?, hnode, htag]

theorem inlined_expands (source : Source) (dir : String) (levels : Nat) (d : Document) :
    ∃ g' renamed, source.inlined dir (levels + 1) d = ⟨g', renamed d.root⟩ ∧
      g'.Expands d.graph (fun id =>
        (source.includedAt? dir d.graph id).map (source.inlined dir levels)) renamed := by
  refine ⟨_, _, rfl, d.withCopies_expands fun id copy hcopy => ?_⟩
  apply Graph.lt_size_of_node
  intro hforeign
  simp [includedAt?, hforeign] at hcopy

theorem hasContent_inlined_nullDocument (levels : Nat) :
    nothing.HasContent dir (source.inlined dir levels nullDocument) (.scalar nullScalar) := by
  cases levels with
  | zero => exact hasContent_nullDocument
  | succ levels =>
      obtain ⟨g', renamed, hinlined, hexpands⟩ := source.inlined_expands dir levels nullDocument
      have hroot : renamed nullDocument.root = 0 := hexpands.renamed_eq 0 rfl
      have hnode : g'.node 0 = .scalar nullScalar := hexpands.node_eq 0 (by decide)
      rw [hinlined, hroot]
      exact .scalar hnode (by decide)

/-- What is gathered from a node is the content of the node with all includes in place. -/
theorem hasContent_of_gather_of_expands {levels more : Nat} (hmore : levels ≤ more + 1)
    {chain : List String} {g g' : Graph} {active : List NodeId} {depth : Int} {id : NodeId}
    {c : Content} {renamed : NodeId → NodeId}
    (h : (source.gather dir levels chain g active depth id).outcome = .ok c)
    (hexpands : g'.Expands g
      (fun id => (source.includedAt? dir g id).map (source.inlined dir more)) renamed) :
    nothing.HasContent dir ⟨g', renamed id⟩ c := by
  induction levels generalizing more chain g g' active depth id c renamed with
  | zero => simp [gather] at h
  | succ levels ih =>
      rcases gather_ok_cases h with ⟨s, hnode, htag, -, rfl⟩ |
        ⟨s, d, hnode, htag, -, hload, hroot⟩ | ⟨tag, items, contents, hnode, htag, -, rfl, hitems⟩ |
        ⟨tag, pairs, entries, hnode, htag, -, rfl, hpairs⟩
      · have hid : id < g.nodes.size := Graph.lt_size_of_node (by simp [hnode])
        have hsame : renamed id = id :=
          hexpands.renamed_eq id (by simp [includedAt?_of_scalar hnode htag])
        exact .scalar (by rw [hsame, hexpands.node_eq id hid, hnode]; rfl) htag
      · have hat : source.includedAt? dir g id = source.included? dir s.value :=
          includedAt?_of_include hnode htag
        obtain ⟨shift, hrenamed, hcopied⟩ :=
          hexpands.copied id (source.inlined dir more d) (by rw [hat, hload]; rfl)
        rw [hrenamed]
        refine HasContent.copied ?_ hcopied
        rcases hroot with ⟨rfl, rfl⟩ | hroot
        · exact hasContent_inlined_nullDocument more
        · cases more with
          | zero =>
              obtain rfl : levels = 0 := by omega
              simp [gather] at hroot
          | succ more =>
              obtain ⟨copy, renamed', hinlined, hcopy⟩ := source.inlined_expands dir more d
              rw [hinlined]
              exact ih (by omega) hroot hcopy
      · have hid : id < g.nodes.size := Graph.lt_size_of_node (by simp [hnode])
        have hsame : renamed id = id := hexpands.renamed_eq id (by simp [includedAt?, hnode])
        apply HasContent.sequence (by rw [hsame, hexpands.node_eq id hid, hnode]; rfl) htag
        rw [List.map_map, List.forall₂_map_left_iff]
        exact hitems.imp fun item c hitem => ih (by omega) hitem hexpands
      · have hid : id < g.nodes.size := Graph.lt_size_of_node (by simp [hnode])
        have hsame : renamed id = id := hexpands.renamed_eq id (by simp [includedAt?, hnode])
        have hkeyIds : ∀ pair ∈ pairs, pair.1 < g.nodes.size := by
          refine fun pair hpair => Graph.lt_size_of_kept (fun pair hpair => ?_) hpair
          obtain ⟨entry, -, ⟨hkey, -⟩, -⟩ := forall₂_exists_of_mem hpairs.flip hpair
          exact ⟨entry.1, hkey⟩
        have hkept : g'.kept (pairs.map fun pair =>
            if (g.node pair.1).isMergeKey then pair else (pair.1, renamed pair.2)) =
              (g.kept pairs).map fun pair => (pair.1, renamed pair.2) := by
          rw [Graph.kept_map]
          · apply List.map_congr_left
            intro pair hpair
            have hkey : (g.node pair.1).isMergeKey = false := by
              simpa using (List.mem_filter.1 hpair).2
            rw [hkey]
            rfl
          · intro pair hpair
            have hfst : (if (g.node pair.1).isMergeKey then pair
                else (pair.1, renamed pair.2)).1 = pair.1 := by
              split <;> rfl
            rw [hfst, hexpands.node_eq pair.1 (hkeyIds pair hpair), Graph.isMergeKey_redirect]
        refine .mapping (by rw [hsame, hexpands.node_eq id hid, hnode]; rfl) htag ?_ ?_
        · rw [hkept, List.forall₂_map_left_iff, List.forall₂_map_right_iff]
          apply hpairs.imp
          intro pair entry hpair
          obtain ⟨⟨hkey, hother, -⟩, -⟩ := hpair
          refine ⟨?_, hother⟩
          have hpair : pair.1 < g.nodes.size := Graph.lt_size_of_node (by simp [hkey])
          rw [hexpands.node_eq _ hpair, hkey]
          rfl
        · rw [hkept, List.map_map, List.forall₂_map_left_iff, List.forall₂_map_right_iff]
          exact hpairs.imp fun pair entry hpair => ih (by omega) hpair.2 hexpands

/-- The collections around a node whose content is known: each of them once, and with a content that
is larger, so that the node is none of them. -/
structure Around (dir : String) (g : Graph) (active : List NodeId) (c : Content) : Prop where
  nodup : active.Nodup
  isCollection : ∀ id ∈ active, (g.node id).isCollection = true
  larger : ∀ id ∈ active, ∃ c', nothing.HasContent dir ⟨g, id⟩ c' ∧ sizeOf c < sizeOf c'

theorem Around.not_mem {g : Graph} {active : List NodeId} {id : NodeId} {c : Content}
    (haround : Around dir g active c) (h : nothing.HasContent dir ⟨g, id⟩ c) : id ∉ active := by
  intro hmem
  obtain ⟨c', hc', hlt⟩ := haround.larger id hmem
  rw [hc'.unique h] at hlt
  exact absurd hlt (lt_irrefl _)

theorem Around.enter {g : Graph} {active : List NodeId} {id : NodeId} {c part : Content}
    (haround : Around dir g active c) (h : nothing.HasContent dir ⟨g, id⟩ c)
    (hcollection : (g.node id).isCollection = true) (hpart : sizeOf part < sizeOf c) :
    Around dir g (id :: active) part := by
  refine ⟨List.nodup_cons.2 ⟨haround.not_mem h, haround.nodup⟩,
    List.forall_mem_cons.2 ⟨hcollection, haround.isCollection⟩,
    List.forall_mem_cons.2 ⟨⟨c, h, hpart⟩, fun i hi => ?_⟩⟩
  obtain ⟨c', hc', hlt⟩ := haround.larger i hi
  exact ⟨c', hc', hpart.trans hlt⟩

theorem Around.exists_succ {g : Graph} {active : List NodeId} {c : Content} {levels : Nat}
    (haround : Around dir g active c) (hlevels : g.collections < levels + active.length) :
    ∃ fewer, levels = fewer + 1 := by
  have hactive := Graph.length_le_collections haround.nodup haround.isCollection
  exact ⟨levels - 1, by omega⟩

theorem gatherScalar_yields {s : Scalar} (h : s.HasLiteral) : (gatherScalar s).Yields s := by
  refine ⟨gatherScalar_ok_iff.2 ⟨h, rfl⟩, ?_⟩
  unfold gatherScalar renderScalar
  rw [Run.loads_map]
  rcases hvalue : Literal.ofText (Literal.kindOf s.tag) s.value with (_ | _) | literal <;>
    simp [hvalue, Run.loads]

theorem gatherKey_yields {g : Graph} {id : NodeId} {s : Scalar} (hnode : g.node id = .scalar s)
    (htag : s.tag ≠ includeTag) (h : s.HasLiteral) : (gatherKey (g.node id)).Yields s := by
  rw [hnode]
  simp only [gatherKey, if_neg htag]
  exact gatherScalar_yields h

theorem enter_yields {α : Type} {shape : Shape} {tag : String} {id : NodeId}
    {active : List NodeId} {inside : List NodeId → Run α} {a : α} (htag : tag ≠ includeTag)
    (hactive : id ∉ active) (h : (inside (id :: active)).Yields a) :
    (Renderer.enter shape tag id active inside).Yields a := by
  rw [Renderer.enter, if_neg htag, if_neg hactive]
  exact h

/-- A content that takes no includes is gathered from any source without a document being asked for,
with a level for each collection of the graph and one more. -/
theorem gather_yields {d : Document} {c : Content} (h : nothing.HasContent dir d c)
    (hliteral : ∀ s ∈ c.scalars, s.HasLiteral) {levels : Nat} {chain : List String}
    {active : List NodeId} {depth : Int} (haround : Around dir d.graph active c)
    (hlevels : d.graph.collections < levels + active.length) :
    (source.gather dir levels chain d.graph active depth d.root).Yields c := by
  induction h using HasContent.induct generalizing levels active depth with
  | @scalar g id s hnode htag =>
      obtain ⟨levels, rfl⟩ := haround.exists_succ hlevels
      simp only [gather, hnode, if_neg htag]
      exact (gatherScalar_yields (hliteral s (by simp [Content.scalars]))).map _
  | included hnode htag hload => cases hload
  | @sequence g id tag items contents hnode htag hitems ih =>
      obtain ⟨levels, rfl⟩ := haround.exists_succ hlevels
      simp only [gather, hnode]
      have hcontent := HasContent.sequence hnode htag hitems
      refine enter_yields htag (haround.not_mem hcontent) (.map _ (.mapM ?_))
      rw [List.forall₂_map_left_iff] at ih
      apply forall₂_imp_of_mem ih
      intro item c hc hpair
      obtain ⟨-, hitem⟩ := hpair
      have haround' := haround.enter hcontent (by simp [hnode, Node.isCollection])
        (Content.sizeOf_lt_of_mem_items hc)
      refine hitem (fun s hs => hliteral s (Content.mem_scalars_ofItems.2 ⟨c, hc, hs⟩)) haround' ?_
      rw [List.length_cons]
      dsimp only at hlevels ⊢
      omega
  | @mapping g id tag pairs entries hnode htag hkeys hvalues ih =>
      obtain ⟨levels, rfl⟩ := haround.exists_succ hlevels
      simp only [gather, hnode]
      have hcontent := HasContent.mapping hnode htag hkeys hvalues
      refine enter_yields htag (haround.not_mem hcontent) (.map _ (.mapM ?_))
      rw [List.forall₂_map_left_iff, List.forall₂_map_right_iff] at ih
      rw [List.forall₂_map_right_iff] at hkeys
      refine forall₂_imp_of_mem (hkeys.mp (fun pair entry hkey hvalue => And.intro hkey hvalue) ih)
        fun pair entry hentry hpair => ?_
      obtain ⟨hkey, -, hvalue⟩ := hpair
      have haround' := haround.enter hcontent (by simp [hnode, Node.isCollection])
        (Content.sizeOf_lt_of_mem_pairs hentry)
      refine (gatherKey_yields hkey.1 hkey.2 ?_).bind (.bind (a := entry.2) ?_ (Run.Yields.pure _))
      · exact hliteral _ (Content.mem_scalars_ofPairs.2 ⟨entry, hentry, .inl rfl⟩)
      · refine hvalue (fun s hs => hliteral s (Content.mem_scalars_ofPairs.2
          ⟨entry, hentry, .inr hs⟩)) haround' ?_
        rw [List.length_cons]
        dsimp only at hlevels ⊢
        omega

/-- What is below a node has a content that is a part of the content of the node. -/
theorem HasContent.part {g : Graph} {id part : NodeId} {c : Content}
    (h : source.HasContent dir ⟨g, id⟩ c) (hpart : g.Part id part) :
    ∃ c', source.HasContent dir ⟨g, part⟩ c' ∧ sizeOf c' < sizeOf c ∧ c'.scalars ⊆ c.scalars := by
  cases hpart with
  | item hnode hitem =>
      cases h with
      | sequence hnode' _ hitems =>
          cases hnode.symm.trans hnode'
          rw [List.forall₂_map_left_iff] at hitems
          obtain ⟨c', hc', hcontent⟩ := forall₂_exists_of_mem hitems.flip hitem
          exact ⟨c', hcontent, Content.sizeOf_lt_of_mem_items hc',
            fun s hs => Content.mem_scalars_ofItems.2 ⟨c', hc', hs⟩⟩
      | _ => simp_all
  | @value _ pairs pair hnode hpair =>
      cases h with
      | @mapping _ _ _ _ entries hnode' _ _ hvalues =>
          cases hnode.symm.trans hnode'
          rw [List.forall₂_map_left_iff, List.forall₂_map_right_iff] at hvalues
          obtain ⟨entry, hentry, hcontent⟩ := forall₂_exists_of_mem hvalues.flip hpair
          exact ⟨entry.2, hcontent, Content.sizeOf_lt_of_mem_pairs hentry,
            fun s hs => Content.mem_scalars_ofPairs.2 ⟨entry, hentry, .inr hs⟩⟩
      | _ => simp_all

theorem HasContent.rendered {d : Document} {id : NodeId} {c : Content}
    (h : source.HasContent dir d c) (hid : d.Rendered id) :
    ∃ c', source.HasContent dir ⟨d.graph, id⟩ c' ∧ c'.scalars ⊆ c.scalars := by
  induction hid with
  | root => exact ⟨c, h, List.Subset.refl _⟩
  | item _ hnode hitem ih =>
      obtain ⟨c', hc', hsub⟩ := ih
      obtain ⟨part, hpart, -, hsub'⟩ := hc'.part (.item hnode hitem)
      exact ⟨part, hpart, fun s hs => hsub (hsub' hs)⟩
  | value _ hnode hpair ih =>
      obtain ⟨c', hc', hsub⟩ := ih
      obtain ⟨part, hpart, -, hsub'⟩ := hc'.part (.value hnode hpair)
      exact ⟨part, hpart, fun s hs => hsub (hsub' hs)⟩

theorem includeFree_of_hasContent {d : Document} {c : Content} (h : nothing.HasContent dir d c) :
    d.IncludeFree := by
  intro id s hid hnode htag
  obtain ⟨part, hpart, -⟩ := h.rendered hid
  cases hpart with
  | scalar hnode' htag' =>
      cases hnode.symm.trans hnode'
      exact htag' htag
  | included _ _ hload => cases hload
  | _ => simp_all

end Source

namespace Renderer

theorem le_foldl_max (ns : List Nat) (first : Nat) : first ≤ ns.foldl max first := by
  induction ns generalizing first with
  | nil => exact le_rfl
  | cons n rest ih => exact (le_max_left first n).trans (ih (max first n))

theorem collections_lt_budget (r : Renderer) (g : Graph) : g.collections < r.budget g := by
  have hfold := le_foldl_max (r.source.documents.map fun d => d.graph.collections) g.collections
  unfold budget
  exact Nat.lt_of_lt_of_le (Nat.lt_succ_of_le hfold) (Nat.le_mul_of_pos_left _ (by omega))

/-- Includes are transparent. If a document is rendered, the document with its includes in place has
none left, and it is rendered to the same text without any document being asked for. -/
theorem includes_transparent (source : Source) (dir : String) (chain : List String) (pretty : Bool)
    (indent depth levels more : Nat) (g : Graph) (id : NodeId) (text : String)
    (h : ((⟨dir, pretty, indent, depth, chain, source⟩ : Renderer).renderWithin
      levels g id).outcome = .ok text) (hmore : levels ≤ more) :
    let inlined := source.inlined dir more ⟨g, id⟩
    let run := (⟨dir, pretty, indent, depth, chain, source⟩ : Renderer).render
      inlined.graph inlined.root
    inlined.IncludeFree ∧ run.outcome = .ok text ∧ run.loads = [] := by
  rw [renderWithin_eq_gather, Run.map_ok_iff, Run.outcome_deeper] at h
  obtain ⟨c, hgather, rfl⟩ := h
  have hcontent : Source.nothing.HasContent dir (source.inlined dir more ⟨g, id⟩) c := by
    cases more with
    | zero =>
        obtain rfl : levels = 0 := by omega
        simp [Source.gather] at hgather
    | succ more =>
        obtain ⟨g', renamed, hinlined, hexpands⟩ := source.inlined_expands dir more ⟨g, id⟩
        rw [hinlined]
        exact Source.hasContent_of_gather_of_expands hmore hgather hexpands
  have hliteral : ∀ s ∈ c.scalars, s.HasLiteral := fun s hs =>
    Source.hasLiteral_of_gather hgather hs
  have hyields (budget : Nat)
      (hbudget : (source.inlined dir more ⟨g, id⟩).graph.collections < budget) :
      (source.gather dir budget chain (source.inlined dir more ⟨g, id⟩).graph [] 0
        (source.inlined dir more ⟨g, id⟩).root).Yields c :=
    Source.gather_yields hcontent hliteral ⟨.nil, by simp, by simp⟩ hbudget
  have hrun := hyields _ (collections_lt_budget ⟨dir, pretty, indent, depth, chain, source⟩ _)
  refine ⟨Source.includeFree_of_hasContent hcontent, ?_, ?_⟩
  · rw [render, renderWithin_eq_gather, Run.outcome_map, Run.outcome_deeper, hrun.outcome]
    rfl
  · rw [render, renderWithin_eq_gather, Run.loads_map, Run.loads_deeper, hrun.loads]

def pairDocument : Document :=
  ⟨⟨#[.mapping "" [(1, 2)], .scalar ⟨coreTag "str", "k"⟩, .scalar ⟨coreTag "null", ""⟩]⟩, 0⟩

def pairSource : Source where
  home := "/"
  load path := if path = "/pair" then .ok (some pairDocument) else .ok none
  documents := [pairDocument]
  load_ne_nesting path := by split <;> simp

/-- A list of an include of a pair and of an include of an empty document. -/
def pairList : Document :=
  ⟨⟨#[.sequence "" [1, 2], .scalar ⟨includeTag, "pair"⟩, .scalar ⟨includeTag, "none"⟩]⟩, 0⟩

theorem includes_transparent_pairList :
    let inlined := pairSource.inlined "/" 4 pairList
    let run := (⟨"/", true, 2, 0, [], pairSource⟩ : Renderer).render inlined.graph inlined.root
    inlined.IncludeFree ∧
      run.outcome = .ok "array(\n  array(\n    'k' => null\n  ), \n  null\n)" ∧ run.loads = [] :=
  includes_transparent pairSource "/" [] true 2 0 4 4 pairList.graph 0 _ (by decide +kernel)
    (by decide)

end Renderer

end PhpArray

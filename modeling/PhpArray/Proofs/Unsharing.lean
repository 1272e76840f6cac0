import PhpArray.Proofs.Inlining

/-!
Documents without shared nodes. The tree of a document has a node of its own for each place, put
behind its parts. A collection inside of itself has no tree, so what is further down than there are
collections is cut off; nothing that has a content is. The main statements are that a document of
this kind is a tree, and that it has the same content.
-/

namespace PhpArray

open Yaml

namespace Yaml

/-- The nodes that a node refers to, with repetitions. -/
def Node.references : Node → List NodeId
  | .sequence _ items => items
  | .mapping _ pairs => pairs.flatMap fun pair => [pair.1, pair.2]
  | _ => []

/-- Puts a node behind those that are there. -/
def Graph.put (n : Node) : StateM Graph NodeId :=
  modifyGet fun g => g.add n

/-- Puts the tree of a node behind the nodes that are there, down to some levels of collections. -/
def Graph.unshare (g : Graph) : Nat → NodeId → StateM Graph NodeId
  | 0, id => Graph.put (if (g.node id).isCollection then .foreign else g.node id)
  | levels + 1, id =>
    match g.node id with
    | .sequence tag items => do
      let items ← items.mapM (g.unshare levels)
      Graph.put (.sequence tag items)
    | .mapping tag pairs => do
      let pairs ← pairs.mapM fun (key, value) => do
        let key ← g.unshare levels key
        let value ← g.unshare levels value
        return (key, value)
      Graph.put (.mapping tag pairs)
    | node => Graph.put node

/-- The document with a node of its own for each place. -/
def Document.unshared (d : Document) : Document :=
  let (root, graph) := (d.graph.unshare d.graph.collections d.root).run .empty
  ⟨graph, root⟩

/-- All nodes are referred to once by later nodes, except some that are not yet referred to. -/
structure Graph.Pending (g : Graph) (ids : List NodeId) : Prop where
  once : (ids ++ g.nodes.toList.flatMap Node.references).Perm (List.range g.nodes.size)
  later : ∀ id, ∀ part ∈ (g.node id).references, part < id

/-- Only the root is not referred to, and every other node once, by a later node. -/
def Document.IsTree (d : Document) : Prop :=
  d.graph.Pending [d.root]

/-- The nodes of one graph are the first nodes of another. -/
def Graph.BeginsWith (h g : Graph) : Prop :=
  g.nodes.toList <+: h.nodes.toList

namespace Graph

variable {α β : Type}

/-- A step leads from graphs of one kind to a result and a graph that belong together. -/
def Leads (before : Graph → Prop) (step : StateM Graph α) (after : α → Graph → Prop) : Prop :=
  ∀ g, before g → after (step.run g).1 (step.run g).2

theorem Leads.bind {before : Graph → Prop} {step : StateM Graph α} {between : α → Graph → Prop}
    {next : α → StateM Graph β} {after : β → Graph → Prop} (hstep : Leads before step between)
    (hnext : ∀ a, Leads (between a) (next a) after) : Leads before (step >>= next) after :=
  fun g hg => hnext _ _ (hstep g hg)

theorem Leads.pure {before : Graph → Prop} {after : α → Graph → Prop} {a : α}
    (h : ∀ g, before g → after a g) : Leads before (pure a : StateM Graph α) after :=
  h

theorem Leads.imp {before : Graph → Prop} {step : StateM Graph α} {after after' : α → Graph → Prop}
    (h : Leads before step after) (himp : ∀ a g, after a g → after' a g) :
    Leads before step after' :=
  fun g hg => himp _ _ (h g hg)

/-- What each step keeps about the part of a list that is done holds of the whole list. -/
theorem Leads.mapM {step : α → StateM Graph β} (holds : List α → List β → Graph → Prop)
    (h : ∀ done results a, Leads (holds done results) (step a) fun b =>
      holds (done ++ [a]) (results ++ [b])) (as : List α) :
    Leads (holds [] []) (as.mapM step) (holds as) := by
  have hfrom : ∀ done results, Leads (holds done results) (as.mapM step) fun bs =>
      holds (done ++ as) (results ++ bs) := by
    induction as with
    | nil =>
        intro done results
        exact .pure fun g hg => by simpa using hg
    | cons a as ih =>
        intro done results
        rw [List.mapM_cons]
        refine (h done results a).bind fun b => ?_
        refine (ih (done ++ [a]) (results ++ [b])).bind fun bs => ?_
        exact .pure fun g hg => by simpa using hg
  simpa using hfrom [] []

theorem node_add_of_lt {g : Graph} {n : Node} {id : NodeId} (h : id < g.nodes.size) :
    (g.add n).2.node id = g.node id := by
  simp [add, node, Array.getElem?_push, h.ne]

theorem node_add_size (g : Graph) (n : Node) : (g.add n).2.node g.nodes.size = n := by
  simp [add, node]

/-! ### New nodes are referred to once -/

theorem Pending.perm {g : Graph} {ids ids' : List NodeId} (h : g.Pending ids)
    (hperm : ids.Perm ids') : g.Pending ids' :=
  ⟨(hperm.symm.append_right _).trans h.once, h.later⟩

theorem Pending.lt_size {g : Graph} {ids : List NodeId} (h : g.Pending ids) {id : NodeId}
    (hid : id ∈ ids) : id < g.nodes.size :=
  List.mem_range.1 (h.once.subset (List.mem_append_left _ hid))

/-- A node takes what it refers to from the nodes that are not yet referred to. -/
theorem put_pending (n : Node) (ids : List NodeId) :
    Leads (Pending · (n.references ++ ids)) (put n) fun id g => g.Pending (id :: ids) := by
  intro g hpending
  show (g.add n).2.Pending (g.nodes.size :: ids)
  have hnodes : (g.add n).2.nodes.toList = g.nodes.toList ++ [n] := by simp [add]
  have hsize : (g.add n).2.nodes.size = g.nodes.size + 1 := by simp [add]
  constructor
  · rw [hnodes, hsize, List.range_succ, List.flatMap_append, List.flatMap_singleton]
    refine .trans ?_ (hpending.once.append_right [g.nodes.size])
    rw [List.perm_iff_count]
    intro other
    simp only [List.count_append, List.count_cons, List.count_nil]
    omega
  · intro id part hpart
    rcases Nat.lt_trichotomy id g.nodes.size with hid | rfl | hid
    · rw [node_add_of_lt hid] at hpart
      exact hpending.later id part hpart
    · rw [node_add_size] at hpart
      exact hpending.lt_size (List.mem_append_left _ hpart)
    · have hforeign : (g.add n).2.node id = .foreign := by
        by_contra hnode
        have hlt := lt_size_of_node hnode
        rw [hsize] at hlt
        exact absurd hid (Nat.not_lt.2 (Nat.le_of_lt_succ hlt))
      rw [hforeign] at hpart
      cases hpart

theorem unshare_pending (g : Graph) (levels : Nat) (id : NodeId) (ids : List NodeId) :
    Leads (Pending · ids) (g.unshare levels id) fun id g => g.Pending (id :: ids) := by
  induction levels generalizing id ids with
  | zero =>
      unfold unshare
      cases g.node id with
      | scalar s => exact put_pending (.scalar s) ids
      | bare tag => exact put_pending (.bare tag) ids
      | _ => exact put_pending .foreign ids
  | succ levels ih =>
      unfold unshare
      cases g.node id with
      | sequence tag items =>
          have hitems := Leads.mapM (fun _ items g => g.Pending (items ++ ids))
            (fun _ items item g hpending => (ih item _ g hpending).perm (by grind)) items
          exact hitems.bind fun items => put_pending (.sequence tag items) ids
      | mapping tag pairs =>
          refine Leads.bind (Leads.mapM (fun _ pairs g => g.Pending
            ((Node.mapping tag pairs).references ++ ids)) ?_ pairs)
            fun pairs => put_pending (.mapping tag pairs) ids
          intro _ pairs pair
          refine (ih pair.1 _).bind fun key => (ih pair.2 _).bind fun value => ?_
          refine .pure fun g hpending => hpending.perm (List.perm_iff_count.2 fun other => ?_)
          simp only [Node.references, List.flatMap_append, List.flatMap_singleton,
            List.count_append, List.count_cons, List.count_nil]
          omega
      | scalar s => exact put_pending (.scalar s) ids
      | bare tag => exact put_pending (.bare tag) ids
      | foreign => exact put_pending .foreign ids

end Graph

theorem Document.unshared_isTree (d : Document) : d.unshared.IsTree :=
  Graph.unshare_pending d.graph _ d.root [] .empty ⟨.refl _, fun id part h => by
    simp [Graph.empty, Graph.node, Node.references] at h⟩

namespace Graph

/-! ### The content stays the same -/

theorem BeginsWith.node_eq {g g' : Graph} (h : g'.BeginsWith g) {id : NodeId}
    (hid : id < g.nodes.size) : g'.node id = g.node id := by
  obtain ⟨added, hadded⟩ := h
  have hnode (g : Graph) : g.node id = (g.nodes.toList[id]?).getD .foreign := by
    simp [node]
  rw [hnode, hnode, ← hadded, List.getElem?_append_left (by simpa using hid)]

theorem BeginsWith.copied {g g' : Graph} (h : g'.BeginsWith g) : g'.Copied g 0 := by
  intro id hid
  simp only [Nat.zero_add]
  rw [h.node_eq hid]
  cases g.node id <;> simp [Node.mapIds]

theorem put_beginsWith (n : Node) (before : Graph → Prop) :
    Leads before (put n) fun id h' =>
      ∃ h, before h ∧ h'.BeginsWith h ∧ id < h'.nodes.size ∧ h'.node id = n := by
  intro h hbefore
  have hlt : h.nodes.size < (h.add n).2.nodes.size := by simp [add]
  exact ⟨h, hbefore, ⟨[n], Array.toList_push.symm⟩, hlt, node_add_size h n⟩

end Graph

end Yaml

theorem Node.isMergeKey_iff {n : Node} :
    n.isMergeKey = true ↔ ∃ s, n = .scalar s ∧ s.value = mergeKey := by
  cases n <;> simp [Node.isMergeKey]

namespace Source

variable {dir : String} {g h : Graph} {levels : Nat} {id id' : NodeId}

/-- A node stands for a node of another graph: it is a scalar only if that is the same, and it has
the same content, if this is found within the levels. -/
structure StandsFor (dir : String) (g : Graph) (levels : Nat) (id : NodeId) (h : Graph)
    (id' : NodeId) : Prop where
  lt_size : id' < h.nodes.size
  scalar_iff : ∀ s, h.node id' = .scalar s ↔ g.node id = .scalar s
  content : ∀ active c, nothing.HasContent dir ⟨g, id⟩ c → Around dir g active c →
    g.collections ≤ levels + active.length → nothing.HasContent dir ⟨h, id'⟩ c

theorem StandsFor.mono {h' : Graph} (hstands : StandsFor dir g levels id h id')
    (hbegins : h'.BeginsWith h) : StandsFor dir g levels id h' id' := by
  have hnode := hbegins.node_eq hstands.lt_size
  refine ⟨hstands.lt_size.trans_le ?_, fun s => ?_, fun active c hc haround hlevels => ?_⟩
  · simpa using hbegins.length_le
  · rw [hnode]
    exact hstands.scalar_iff s
  · have hcontent := hstands.content active c hc haround hlevels
    simpa using hcontent.copied hbegins.copied

theorem StandsFor.leaf (hlt : id' < h.nodes.size) (hleaf : (g.node id).isCollection = false)
    (hsame : h.node id' = g.node id) : StandsFor dir g levels id h id' := by
  refine ⟨hlt, fun s => by rw [hsame], fun active c hc _ _ => ?_⟩
  cases hc with
  | scalar hnode htag => exact .scalar (hsame.trans hnode) htag
  | included _ _ hload => cases hload
  | _ => simp_all [Node.isCollection]

/-- There is a level left for a collection that has a content. -/
theorem Around.ne_zero {active : List NodeId} {c : Content} (haround : Around dir g active c)
    (hc : nothing.HasContent dir ⟨g, id⟩ c) (hcollection : (g.node id).isCollection = true)
    (hlevels : g.collections ≤ levels + active.length) : levels ≠ 0 := by
  have hentered := Graph.length_le_collections
    (List.nodup_cons.2 ⟨haround.not_mem hc, haround.nodup⟩)
    (List.forall_mem_cons.2 ⟨hcollection, haround.isCollection⟩)
  rw [List.length_cons] at hentered
  omega

/-- Nothing stands for a collection at the last level, as it has no content there. -/
theorem StandsFor.cut (hlt : id' < h.nodes.size) (hcollection : (g.node id).isCollection = true)
    (hforeign : h.node id' = .foreign) : StandsFor dir g 0 id h id' := by
  refine ⟨hlt, fun s => ?_, fun active c hc haround hlevels => ?_⟩
  · have hscalar : g.node id ≠ .scalar s := by
      intro hs
      simp [hs, Node.isCollection] at hcollection
    simp [hforeign, hscalar]
  · exact absurd rfl (haround.ne_zero hc hcollection hlevels)

theorem StandsFor.sequence {tag : String} {items items' : List NodeId}
    (hlt : id' < h.nodes.size) (hnode : g.node id = .sequence tag items)
    (hnode' : h.node id' = .sequence tag items')
    (hitems : List.Forall₂ (fun item item' => StandsFor dir g levels item h item') items items') :
    StandsFor dir g (levels + 1) id h id' := by
  refine ⟨hlt, fun s => by simp [hnode, hnode'], fun active c hc haround hlevels => ?_⟩
  have hcontent := hc
  cases hc with
  | @sequence _ _ _ _ contents hsame htag hcontents =>
      cases hnode.symm.trans hsame
      apply HasContent.sequence hnode' htag
      rw [List.forall₂_map_left_iff] at hcontents ⊢
      apply forall₂_of_common hitems hcontents
      intro item item' c hmem hstands hc
      have haround' := haround.enter hcontent (by simp [hnode, Node.isCollection])
        (Content.sizeOf_lt_of_mem_items hmem)
      refine hstands.content (id :: active) c hc haround' ?_
      rw [List.length_cons]
      omega
  | _ => simp_all

theorem StandsFor.mapping {tag : String} {pairs pairs' : List (NodeId × NodeId)}
    (hlt : id' < h.nodes.size) (hnode : g.node id = .mapping tag pairs)
    (hnode' : h.node id' = .mapping tag pairs')
    (hpairs : List.Forall₂ (fun pair pair' => StandsFor dir g levels pair.1 h pair'.1 ∧
      StandsFor dir g levels pair.2 h pair'.2) pairs pairs') :
    StandsFor dir g (levels + 1) id h id' := by
  refine ⟨hlt, fun s => by simp [hnode, hnode'], fun active c hc haround hlevels => ?_⟩
  have hkept : List.Forall₂ (fun pair pair' => StandsFor dir g levels pair.1 h pair'.1 ∧
      StandsFor dir g levels pair.2 h pair'.2) (g.kept pairs) (h.kept pairs') := by
    refine List.rel_filter (fun pair pair' hpair => ?_) hpairs
    have hkey : (h.node pair'.1).isMergeKey = (g.node pair.1).isMergeKey := by
      rw [Bool.eq_iff_iff, Node.isMergeKey_iff, Node.isMergeKey_iff]
      simp only [hpair.1.scalar_iff]
    simp [hkey]
  have hcontent := hc
  cases hc with
  | @mapping _ _ _ _ entries hsame htag hkeys hvalues =>
      cases hnode.symm.trans hsame
      rw [List.forall₂_map_left_iff, List.forall₂_map_right_iff] at hvalues
      rw [List.forall₂_map_right_iff] at hkeys
      apply HasContent.mapping hnode' htag
      · rw [List.forall₂_map_right_iff]
        apply forall₂_of_common hkept hkeys
        intro pair pair' entry _ hstands ⟨hkey, hother⟩
        exact ⟨(hstands.1.scalar_iff _).2 hkey, hother⟩
      · rw [List.forall₂_map_left_iff, List.forall₂_map_right_iff]
        apply forall₂_of_common hkept hvalues
        intro pair pair' entry hmem hstands hc
        have haround' := haround.enter hcontent (by simp [hnode, Node.isCollection])
          (Content.sizeOf_lt_of_mem_pairs hmem)
        refine hstands.2.content (id :: active) entry.2 hc haround' ?_
        rw [List.length_cons]
        omega
  | _ => simp_all

/-- Each step over a list adds a result that stands for its part. -/
private theorem mapM_standsFor {α β : Type} {step : α → StateM Graph β}
    (stands : α → β → Graph → Prop)
    (hmono : ∀ a b h h', h'.BeginsWith h → stands a b h → stands a b h')
    (hstep : ∀ a h, Graph.Leads (· = h) (step a) fun b h' => h'.BeginsWith h ∧ stands a b h')
    (as : List α) (h : Graph) :
    Graph.Leads (· = h) (as.mapM step) fun bs h' =>
      h'.BeginsWith h ∧ List.Forall₂ (stands · · h') as bs := by
  intro start hstart
  refine Graph.Leads.mapM (fun done results h' => h'.BeginsWith h ∧
    List.Forall₂ (stands · · h') done results) ?_ as start ⟨hstart ▸ List.prefix_rfl, .nil⟩
  intro done results a h' ⟨hbegins, hdone⟩
  obtain ⟨hbegins', ha⟩ := hstep a h' h' rfl
  refine ⟨hbegins.trans hbegins', List.rel_append ?_ (.cons ha .nil)⟩
  exact hdone.imp fun a b => hmono a b h' _ hbegins'

theorem unshare_standsFor (dir : String) (g : Graph) (levels : Nat) (id : NodeId) (h : Graph) :
    Graph.Leads (· = h) (g.unshare levels id) fun id' h' =>
      h'.BeginsWith h ∧ StandsFor dir g levels id h' id' := by
  induction levels generalizing id h with
  | zero =>
      unfold Graph.unshare
      refine (Graph.put_beginsWith _ _).imp ?_
      rintro id' h' ⟨h, rfl, hbegins, hlt, hnode'⟩
      refine ⟨hbegins, ?_⟩
      split at hnode'
      next hcollection => exact .cut hlt hcollection hnode'
      next hleaf => exact .leaf hlt (by simpa using hleaf) hnode'
  | succ levels ih =>
      have hleaf (hleaf : (g.node id).isCollection = false) : Graph.Leads (· = h)
          (Graph.put (g.node id)) fun id' h' =>
            h'.BeginsWith h ∧ StandsFor dir g (levels + 1) id h' id' := by
        refine (Graph.put_beginsWith _ _).imp ?_
        rintro id' h' ⟨h, rfl, hbegins, hlt, hnode'⟩
        exact ⟨hbegins, .leaf hlt hleaf hnode'⟩
      unfold Graph.unshare
      cases hnode : g.node id with
      | sequence tag items =>
          have hitems := mapM_standsFor (fun item item' h' => StandsFor dir g levels item h' item')
            (fun _ _ _ _ hbegins hitem => hitem.mono hbegins) ih items h
          refine hitems.bind fun items' => (Graph.put_beginsWith _ _).imp ?_
          rintro id' h' ⟨h'', ⟨hbegins, hitems⟩, hput, hlt, hnode'⟩
          refine ⟨hbegins.trans hput, .sequence hlt hnode hnode' ?_⟩
          exact hitems.imp fun _ _ hitem => hitem.mono hput
      | mapping tag pairs =>
          refine (mapM_standsFor (fun pair pair' h' => StandsFor dir g levels pair.1 h' pair'.1 ∧
            StandsFor dir g levels pair.2 h' pair'.2)
            (fun _ _ _ _ hbegins hpair => hpair.imp (·.mono hbegins) (·.mono hbegins)) ?_ pairs
            h).bind fun pairs' => (Graph.put_beginsWith _ _).imp ?_
          · intro pair h
            refine (ih pair.1 h).bind fun key h' hfirst => ?_
            obtain ⟨hbegins, hkey⟩ := hfirst
            obtain ⟨hbegins', hvalue⟩ := ih pair.2 h' h' rfl
            exact ⟨hbegins.trans hbegins', hkey.mono hbegins', hvalue⟩
          · rintro id' h' ⟨h'', ⟨hbegins, hpairs⟩, hput, hlt, hnode'⟩
            refine ⟨hbegins.trans hput, .mapping hlt hnode hnode' ?_⟩
            exact hpairs.imp fun _ _ hpair => hpair.imp (·.mono hput) (·.mono hput)
      | _ =>
          rw [hnode] at hleaf
          exact hleaf rfl

/-- The document without shared nodes has the content of the document with them. -/
theorem HasContent.unshared {d : Document} {c : Content} (h : nothing.HasContent dir d c) :
    nothing.HasContent dir d.unshared c := by
  obtain ⟨-, hstands⟩ := unshare_standsFor dir d.graph d.graph.collections d.root .empty _ rfl
  exact hstands.content [] c h ⟨.nil, by simp, by simp⟩ (Nat.le_add_right _ _)

end Source

end PhpArray

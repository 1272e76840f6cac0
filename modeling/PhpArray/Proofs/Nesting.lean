import Mathlib.Data.Finset.Card
import Mathlib.Data.List.Perm.Subperm
import PhpArray.Proofs.Layout
import PhpArray.Proofs.Stepwise

/-!
How deep a rendering nests. Two guards stop it: a collection is not rendered inside of itself, and a
document is not included inside of itself. The first forgets everything at an include and the second
knows no nodes, so neither is enough alone. What they leave is counted by `Call.room`: each path
that is not on the chain yet has room for all collections of a document and one more node, and
inside a document there is room for the collections that are not active. Every nested call takes
some of it, which bounds all stacks of calls, with no condition on the graphs.
-/

namespace PhpArray

open Yaml

/-- A collection is active once, so there are no more active ones than the graph has. -/
theorem Yaml.Graph.length_le_collections {g : Graph} {ids : List NodeId} (hnodup : ids.Nodup)
    (h : ∀ id ∈ ids, (g.node id).isCollection = true) : ids.length ≤ g.collections := by
  have hnodes : g.nodes.toList = (List.range g.nodes.size).map g.node := by
    apply List.ext_getElem
    · simp
    · intro i hi _
      have hi' : i < g.nodes.size := by simpa using hi
      simp [Graph.node, hi']
  have hcount : g.collections =
      ((List.range g.nodes.size).filter fun id => (g.node id).isCollection).length := by
    rw [Graph.collections, ← Array.countP_toList, hnodes, List.countP_map,
      List.countP_eq_length_filter]
    rfl
  rw [hcount]
  refine (hnodup.subperm ?_).length_le
  intro id hid
  have hcollection := h id hid
  have hlt : id < g.nodes.size := by
    by_contra hge
    simp [Graph.node, Array.getD_eq_getD_getElem?, hge, Node.isCollection] at hcollection
  simp [hlt, hcollection]

/-- A call of a rendering: a document, inside of some of its collections and of the documents on a
chain. -/
structure Call where
  chain : List String
  active : List NodeId
  document : Document

/-- The calls that a call makes. -/
inductive Source.Calls (source : Source) (dir : String) : Call → Call → Prop
  | included {chain : List String} {active : List NodeId} {g : Graph} {id : NodeId} {s : Scalar}
      {d : Document} :
      g.node id = .scalar s → source.target dir s.value ∉ chain →
      source.load (Path.join dir s.value) = .ok (some d) →
      Calls source dir ⟨chain, active, ⟨g, id⟩⟩ ⟨chain ++ [source.target dir s.value], [], d⟩
  | item {chain : List String} {active : List NodeId} {g : Graph} {id item : NodeId}
      {tag : String} {items : List NodeId} :
      g.node id = .sequence tag items → id ∉ active → item ∈ items →
      Calls source dir ⟨chain, active, ⟨g, id⟩⟩ ⟨chain, id :: active, ⟨g, item⟩⟩
  | value {chain : List String} {active : List NodeId} {g : Graph} {id : NodeId}
      {tag : String} {pairs : List (NodeId × NodeId)} {pair : NodeId × NodeId} :
      g.node id = .mapping tag pairs → id ∉ active → pair ∈ g.kept pairs →
      Calls source dir ⟨chain, active, ⟨g, id⟩⟩ ⟨chain, id :: active, ⟨g, pair.2⟩⟩

/-- What is known of the documents that may be loaded: how they are known on a chain, how many
collections they have, and which texts are in them that may name others. -/
structure Source.Bounded (source : Source) (dir : String) (named : String → Prop)
    (targets : Finset String) (bound : Nat) : Prop where
  target_mem : ∀ name d, named name → source.load (Path.join dir name) = .ok (some d) →
    source.target dir name ∈ targets
  collections_le : ∀ name d, source.load (Path.join dir name) = .ok (some d) →
    d.graph.collections ≤ bound
  named : ∀ name d, source.load (Path.join dir name) = .ok (some d) →
    ∀ id s, d.graph.node id = .scalar s → named s.value

/-- What holds of every call, if no document has more collections than a bound. -/
structure Call.Fits (named : String → Prop) (bound : Nat) (call : Call) : Prop where
  collections_le : call.document.graph.collections ≤ bound
  nodup : call.active.Nodup
  isCollection : ∀ id ∈ call.active, (call.document.graph.node id).isCollection = true
  named : ∀ id s, call.document.graph.node id = .scalar s → named s.value

/-- The calls that may still be nested from a call on, itself included, if only some targets can be
included and no document has more collections than a bound. -/
def Call.room (targets : Finset String) (bound : Nat) (call : Call) : Nat :=
  {target ∈ targets | target ∉ call.chain}.card * (bound + 1) + (bound - call.active.length) + 1

variable {source : Source} {dir : String} {named : String → Prop} {targets : Finset String}
  {bound : Nat} {call next : Call}

/-- Entering a collection leaves room for one call less. -/
private theorem Call.Fits.enter {chain : List String} {active : List NodeId} {g : Graph}
    {id child : NodeId} (hfits : Call.Fits named bound ⟨chain, active, ⟨g, id⟩⟩)
    (hactive : id ∉ active) (hcollection : (g.node id).isCollection = true) :
    Call.Fits named bound ⟨chain, id :: active, ⟨g, child⟩⟩ ∧
      Call.room targets bound ⟨chain, id :: active, ⟨g, child⟩⟩ <
        Call.room targets bound ⟨chain, active, ⟨g, id⟩⟩ := by
  have hnodup : (id :: active).Nodup := List.nodup_cons.2 ⟨hactive, hfits.nodup⟩
  have hall : ∀ i ∈ id :: active, (g.node i).isCollection = true :=
    List.forall_mem_cons.2 ⟨hcollection, hfits.isCollection⟩
  have hlength : active.length + 1 ≤ bound :=
    (Graph.length_le_collections hnodup hall).trans hfits.collections_le
  refine ⟨⟨hfits.collections_le, hnodup, hall, hfits.named⟩, ?_⟩
  simp only [Call.room, List.length_cons]
  omega

/-- A target that joins the chain is one that was not on it. -/
private theorem card_not_mem_chain_lt {chain : List String} {target : String}
    (htarget : target ∈ targets) (hchain : target ∉ chain) :
    {t ∈ targets | t ∉ chain ++ [target]}.card < {t ∈ targets | t ∉ chain}.card := by
  refine Finset.card_lt_card (Finset.ssubset_iff_of_subset ?_ |>.2 ⟨target, ?_⟩)
  · intro t ht
    simp only [Finset.mem_filter, List.mem_append, not_or] at ht ⊢
    exact ⟨ht.1, ht.2.1⟩
  · simp [htarget, hchain]

/-- Each nested call fits and leaves room for one call less. -/
theorem Source.Calls.fits_and_room_lt (hbounded : source.Bounded dir named targets bound)
    (h : source.Calls dir call next) (hfits : call.Fits named bound) :
    next.Fits named bound ∧ next.room targets bound < call.room targets bound := by
  cases h with
  | @included chain active g id s d hnode hchain hload =>
      have htarget := hbounded.target_mem _ d (hfits.named id s hnode) hload
      have hbound := hbounded.collections_le _ d hload
      refine ⟨⟨hbound, .nil, by simp, hbounded.named _ d hload⟩, ?_⟩
      have hcard := card_not_mem_chain_lt htarget hchain
      have hroom := Nat.mul_le_mul_right (bound + 1) (Nat.succ_le_of_lt hcard)
      rw [Nat.succ_mul] at hroom
      simp only [Call.room, List.length_nil]
      omega
  | item hnode hactive _ => exact hfits.enter hactive (by simp [hnode, Node.isCollection])
  | value hnode hactive _ => exact hfits.enter hactive (by simp [hnode, Node.isCollection])

/-- No stack of calls is longer than the room of the call at its bottom. -/
theorem Source.Calls.length_le_room (hbounded : source.Bounded dir named targets bound)
    {stack : List Call} (hstack : List.IsChain (source.Calls dir) (call :: stack))
    (hfits : call.Fits named bound) : (call :: stack).length ≤ call.room targets bound := by
  induction stack generalizing call with
  | nil => simp [Call.room]
  | cons next stack ih =>
      obtain ⟨hcalls, hrest⟩ := List.isChain_cons_cons.1 hstack
      obtain ⟨hnext, hlt⟩ := hcalls.fits_and_room_lt hbounded hfits
      have hlength := ih hrest hnext
      rw [List.length_cons]
      omega

/-- The room of a call at the root of a document, whatever the chain. -/
theorem Call.room_root_le {chain : List String} {g : Graph} {id : NodeId} :
    Call.room targets bound ⟨chain, [], ⟨g, id⟩⟩ ≤ (targets.card + 1) * (bound + 1) := by
  have hcard := Finset.card_filter_le targets (fun target => target ∉ chain)
  have hroom := Nat.mul_le_mul_right (bound + 1) hcard
  rw [Nat.succ_mul]
  simp only [Call.room, List.length_nil]
  omega

namespace Renderer

variable {r : Renderer} {α : Type}

theorem included_ne_nesting {chain : List String} {depth : Int} {name : String} {empty : α}
    {root : List String → Document → Run α}
    (h : ∀ d, r.source.target r.includeDir name ∉ chain →
      r.source.load (Path.join r.includeDir name) = .ok (some d) →
      (root (chain ++ [r.source.target r.includeDir name]) d).outcome ≠ .error .nesting) :
    (r.included chain depth name empty root).outcome ≠ .error .nesting := by
  unfold included
  dsimp only
  split
  next => simp
  next hchain =>
    refine Run.bind_ne_nesting (by simp) fun _ _ => Run.bind_ne_nesting (by simp) fun _ _ => ?_
    apply Run.bind_ne_nesting (r.source.load_ne_nesting _)
    intro document hload
    cases document with
    | none => simp
    | some d =>
        refine Run.bind_ne_nesting ?_ fun _ _ => h d hchain hload
        unfold checked
        split <;> simp

theorem enter_ne_nesting {shape : Shape} {tag : String} {id : NodeId} {active : List NodeId}
    {inside : List NodeId → Run α}
    (h : id ∉ active → (inside (id :: active)).outcome ≠ .error .nesting) :
    (enter shape tag id active inside).outcome ≠ .error .nesting := by
  unfold enter
  split
  · simp
  · split
    · simp
    · exact h ‹_›

theorem renderScalar_ne_nesting (s : Scalar) : (renderScalar s).outcome ≠ .error .nesting := by
  unfold renderScalar
  rcases h : Literal.ofText (Literal.kindOf s.tag) s.value with (_ | _) | literal <;>
    simp [h, Run.outcome_map, Except.map]

theorem renderKey_ne_nesting (key : Node) : (renderKey key).outcome ≠ .error .nesting := by
  cases key with
  | scalar s =>
      simp only [renderKey]
      split
      · simp
      · exact renderScalar_ne_nesting s
  | _ => simp [renderKey]

/-- The run of a call. -/
def run (r : Renderer) (levels : Nat) (depth : Int) (call : Call) : Run String :=
  r.node levels call.chain call.document.graph call.active depth call.document.root

/-- A call has levels to spare if each call that it makes has. -/
theorem run_ne_nesting_of_calls {levels : Nat} {depth : Int}
    (h : ∀ next depth, r.source.Calls r.includeDir call next →
      (r.run levels depth next).outcome ≠ .error .nesting) :
    (r.run (levels + 1) depth call).outcome ≠ .error .nesting := by
  obtain ⟨chain, active, g, id⟩ := call
  unfold run
  dsimp only
  cases hnode : g.node id with
  | scalar s =>
      simp only [node, hnode]
      split
      · exact included_ne_nesting fun d hchain hload => h _ depth (.included hnode hchain hload)
      · exact renderScalar_ne_nesting s
  | sequence tag items =>
      simp only [node, hnode]
      refine enter_ne_nesting fun hactive => Run.bind_ne_nesting ?_ fun _ _ => by simp
      refine Run.mapM_ne_nesting fun item hitem => Run.bind_ne_nesting ?_ fun _ _ => by simp
      exact h _ (depth + 1) (.item hnode hactive hitem)
  | mapping tag pairs =>
      simp only [node, hnode]
      refine enter_ne_nesting fun hactive => Run.bind_ne_nesting ?_ fun _ _ => by simp
      apply Run.mapM_ne_nesting
      intro pair hpair
      apply Run.bind_ne_nesting (renderKey_ne_nesting _)
      intro _ _
      refine Run.bind_ne_nesting ?_ fun _ _ => by simp
      exact h _ (depth + 1) (.value hnode hactive hpair)
  | bare tag =>
      simp only [node, hnode]
      split <;> simp
  | foreign => simp [node, hnode]

/-- A call does not run out of levels if it is given its room. -/
theorem run_ne_nesting (hbounded : r.source.Bounded r.includeDir named targets bound)
    {levels : Nat} {depth : Int} (hfits : call.Fits named bound)
    (hroom : call.room targets bound ≤ levels) :
    (r.run levels depth call).outcome ≠ .error .nesting := by
  induction levels generalizing call depth with
  | zero => simp [Call.room] at hroom
  | succ levels ih =>
      apply run_ne_nesting_of_calls
      intro next depth hcalls
      obtain ⟨hnext, hlt⟩ := hcalls.fits_and_room_lt hbounded hfits
      exact ih hnext (by omega)

/-- One level more changes nothing unless the levels run out. -/
theorem node_extends (levels : Nat) (chain : List String) (g : Graph) (active : List NodeId)
    (depth : Int) (id : NodeId) :
    Run.Extends (r.node (levels + 1) chain g active depth id)
      (r.node levels chain g active depth id) := by
  have hstepwise : Run.Stepwise fun _ => Run.Extends := ⟨Run.Extends.refl, Run.Extends.bind⟩
  induction levels generalizing chain g active depth id with
  | zero => exact Run.extends_nesting _
  | succ levels ih =>
      apply node_succ_related hstepwise rfl
      · intro depth name
        by_cases htarget : r.source.target r.includeDir name ∈ chain
        · rw [included_of_mem htarget, included_of_mem htarget]
          exact Run.Extends.refl _
        · exact included_related hstepwise rfl rfl rfl htarget htarget fun d =>
            ih _ d.graph [] depth d.root
      · exact ih chain g

/-- More levels change nothing if those given are enough. -/
theorem renderWithin_of_le {levels more : Nat} (h : levels ≤ more) {g : Graph} {id : NodeId}
    (hends : (r.renderWithin levels g id).outcome ≠ .error .nesting) :
    r.renderWithin more g id = r.renderWithin levels g id := by
  induction more, h using Nat.le_induction with
  | base => rfl
  | succ more _ ih =>
      rw [← ih] at hends ⊢
      exact node_extends more r.chain g [] r.depth id hends

/-- Rendering always stops. If no more than so many paths have a document and no document has more
than so many collections, a rendering never nests more calls than the product of the two, each
increased by one; so that many levels give it an end, which is the same with more. -/
theorem nesting_bounded (r : Renderer) (g : Graph) (id : NodeId) (paths : Finset String)
    (bound : Nat) (hroot : g.collections ≤ bound)
    (hload : ∀ path d, r.source.load path = .ok (some d) →
      path ∈ paths ∧ d.graph.collections ≤ bound) :
    (∀ stack, List.IsChain (r.source.Calls r.includeDir) (⟨r.chain, [], ⟨g, id⟩⟩ :: stack) →
      stack.length + 1 ≤ (paths.card + 1) * (bound + 1)) ∧
    ∃ run : Run String, run.outcome ≠ .error .nesting ∧
      ∀ levels, (paths.card + 1) * (bound + 1) ≤ levels → r.renderWithin levels g id = run := by
  have hbounded : r.source.Bounded r.includeDir (fun _ => True)
      (paths.image (Path.absolute r.source.home)) bound :=
    ⟨fun _ d _ hname => Finset.mem_image_of_mem _ (hload _ d hname).1,
      fun _ d hname => (hload _ d hname).2, fun _ _ _ _ _ _ => trivial⟩
  have hfits : Call.Fits (fun _ => True) bound ⟨r.chain, [], ⟨g, id⟩⟩ :=
    ⟨hroot, .nil, by simp, fun _ _ _ => trivial⟩
  have hroom : Call.room (paths.image (Path.absolute r.source.home)) bound
      ⟨r.chain, [], ⟨g, id⟩⟩ ≤ (paths.card + 1) * (bound + 1) :=
    Call.room_root_le.trans
      (Nat.mul_le_mul_right _ (Nat.succ_le_succ Finset.card_image_le))
  refine ⟨fun stack hstack => ?_, r.renderWithin ((paths.card + 1) * (bound + 1)) g id, ?_⟩
  · exact (Source.Calls.length_le_room hbounded hstack hfits).trans hroom
  · have hends : (r.renderWithin ((paths.card + 1) * (bound + 1)) g id).outcome ≠
        .error .nesting := run_ne_nesting hbounded hfits hroom
    exact ⟨hends, fun levels hle => renderWithin_of_le hle hends⟩

/-- A document that is an item of itself and includes itself. -/
def loop : Document :=
  ⟨⟨#[.sequence "" [1, 0], .scalar ⟨includeTag, "/loop"⟩]⟩, 0⟩

def loopSource : Source where
  home := "/"
  load path := if path = "/loop" then .ok (some loop) else .error (.unreadable path .notSupplied)
  documents := [loop]
  load_ne_nesting path := by split <;> simp

theorem nesting_bounded_loop :
    (∀ stack, List.IsChain (loopSource.Calls "/") (⟨[], [], ⟨loop.graph, 0⟩⟩ :: stack) →
      stack.length + 1 ≤ 4) ∧
    ∃ run : Run String, run.outcome ≠ .error .nesting ∧
      ∀ levels, 4 ≤ levels →
        (⟨"/", true, 2, 0, [], loopSource⟩ : Renderer).renderWithin levels loop.graph 0 = run := by
  refine nesting_bounded ⟨"/", true, 2, 0, [], loopSource⟩ loop.graph 0 {"/loop"} 1 (by decide) ?_
  intro path d hload
  by_cases hpath : path = "/loop"
  · simp only [loopSource, if_pos hpath, Except.ok.injEq, Option.some.injEq] at hload
    subst hload
    exact ⟨by simp [hpath], by decide⟩
  · simp [loopSource, hpath] at hload

end Renderer

end PhpArray

import PhpArray.Proofs.Inlining
import PhpArray.Proofs.Traversal

/-!
The chain of documents around a place. It grows by the target of each include that leads down to the
place and by nothing else, so what was included before and is done is not on it. A document is asked
for exactly if its target is not on the chain yet; otherwise the rendering ends there, with the
chain and the target that is met again.
-/

namespace PhpArray

open Yaml

/-- A scalar is written as a literal: it is in a rendered position or the key of a rendered pair. -/
inductive Yaml.Document.Writes (d : Document) : Scalar → Prop
  | value {id : NodeId} {s : Scalar} : d.Rendered id → d.graph.node id = .scalar s → Writes d s
  | key {id : NodeId} {tag : String} {pairs : List (NodeId × NodeId)} {pair : NodeId × NodeId}
      {s : Scalar} :
      d.Rendered id → d.graph.node id = .mapping tag pairs → pair ∈ d.graph.kept pairs →
      d.graph.node pair.1 = .scalar s → Writes d s

namespace Source

/-- The documents that includes lead to, each named in a rendered position of the one before it,
with the targets of these includes. -/
inductive Leads (source : Source) (dir : String) (d : Document) : List String → Document → Prop
  | root : Leads source dir d [] d
  | included {targets : List String} {last next : Document} {id : NodeId} {name : String} :
      Leads source dir d targets last → last.Rendered id →
      last.graph.node id = .scalar ⟨includeTag, name⟩ →
      source.load (Path.join dir name) = .ok (some next) →
      Leads source dir d (targets ++ [source.target dir name]) next

/-- A call inside of a document to which some new targets lead from a root. -/
structure Within (source : Source) (dir : String) (chain : List String) (root : Document)
    (added : List String) (d : Document) (call : Call) : Prop where
  leads : source.Leads dir root added d
  chain_eq : call.chain = chain ++ added
  nodup : added.Nodup
  fresh : ∀ target ∈ added, target ∉ chain
  graph_eq : call.document.graph = d.graph
  rendered : d.Rendered call.document.root

variable {source : Source} {dir : String} {chain : List String} {root : Document}

theorem Within.part {chain' added : List String} {active active' : List NodeId} {d : Document}
    {id part : NodeId} (h : source.Within dir chain root added d ⟨chain', active, ⟨d.graph, id⟩⟩)
    (hpart : d.Rendered id → d.Rendered part) :
    source.Within dir chain root added d ⟨chain', active', ⟨d.graph, part⟩⟩ :=
  ⟨h.leads, h.chain_eq, h.nodup, h.fresh, rfl, hpart h.rendered⟩

theorem Within.included {chain' added : List String} {active : List NodeId} {d next : Document}
    {g : Graph} {id : NodeId} {name : String}
    (h : source.Within dir chain root added d ⟨chain', active, ⟨g, id⟩⟩)
    (hnode : g.node id = .scalar ⟨includeTag, name⟩) (htarget : source.target dir name ∉ chain')
    (hload : source.load (Path.join dir name) = .ok (some next)) :
    source.Within dir chain root (added ++ [source.target dir name]) next
      ⟨chain' ++ [source.target dir name], [], next⟩ := by
  obtain ⟨hleads, rfl, hnodup, hfresh, rfl, hrendered⟩ := h
  rw [List.mem_append, not_or] at htarget
  refine ⟨.included hleads hrendered hnode hload, by rw [List.append_assoc], ?_, ?_, rfl, .root⟩
  · exact List.nodup_append.2 ⟨hnodup, List.nodup_singleton _, by grind⟩
  · intro target hmem
    rcases List.mem_append.1 hmem with hmem | hmem
    · exact hfresh target hmem
    · rw [List.mem_singleton.1 hmem]
      exact htarget.1

/-- A task stands within some document, of which a key is a key that is rendered. -/
def WithinSome (source : Source) (dir : String) (chain : List String) (root : Document) :
    Task → Prop
  | .key key => ∃ added d, source.Leads dir root added d ∧ ∀ s, key = .scalar s → d.Writes s
  | .node _ call => ∃ added d, source.Within dir chain root added d call

theorem WithinSome.step {task : Task} {notes : List Note} {parts : List Task}
    (hstep : source.Step dir task notes parts) (h : source.WithinSome dir chain root task) :
    ∀ part ∈ parts, source.WithinSome dir chain root part := by
  cases hstep with
  | key _ _ => simp
  | scalar _ _ _ => simp
  | empty _ _ _ => simp
  | document hnode htarget hload =>
      obtain ⟨added, d, hwithin⟩ := h
      intro part hpart
      rw [List.mem_singleton.1 hpart]
      exact ⟨_, _, hwithin.included hnode htarget hload⟩
  | @sequence depth chain' active g id tag items hnode _ _ =>
      obtain ⟨added, d, hwithin⟩ := h
      obtain rfl : g = d.graph := hwithin.graph_eq
      intro part hpart
      obtain ⟨item, hitem, rfl⟩ := List.mem_map.1 hpart
      exact ⟨added, d, hwithin.part fun hid => .item hid hnode hitem⟩
  | @mapping depth chain' active g id tag pairs hnode _ _ =>
      obtain ⟨added, d, hwithin⟩ := h
      obtain rfl : g = d.graph := hwithin.graph_eq
      intro part hpart
      obtain ⟨pair, hpair, hmem⟩ := List.mem_flatMap.1 hpart
      rcases List.mem_pair.1 hmem with rfl | rfl
      · exact ⟨added, d, hwithin.leads, fun s hs => .key hwithin.rendered hnode hpair hs⟩
      · exact ⟨added, d, hwithin.part fun hid => .value hid hnode hpair⟩

/-- An include is stuck for a cycle if its target is on the chain, unless the document is refused
for a cycle of its own. -/
theorem stopsAt_includeCycle_iff {tasks : List Task} {cycle : List String} {notes : List Note} :
    (∃ task, source.StopsAt dir tasks task notes (.includeCycle cycle)) ↔
      ∃ n before depth call rest name, source.Steps dir n tasks before (.node depth call :: rest) ∧
        call.document.graph.node call.document.root = .scalar ⟨includeTag, name⟩ ∧
        (source.target dir name ∈ call.chain ∧
            cycle = call.chain ++ [source.target dir name] ∧ notes = before ∨
          source.target dir name ∉ call.chain ∧
            source.load (Path.join dir name) = .error (.includeCycle cycle) ∧
            notes = before ++ includeNotes dir name depth) := by
  constructor
  · rintro ⟨task, n, rest, before, last, hsteps, hstuck, rfl⟩
    cases hstuck with
    | cycle hnode htarget =>
        refine ⟨n, before, _, _, rest, _, hsteps, hnode, .inl ?_⟩
        exact ⟨htarget, rfl, List.append_nil before⟩
    | load hnode htarget hload =>
        refine ⟨n, before, _, _, rest, _, hsteps, hnode, .inr ?_⟩
        exact ⟨htarget, hload, rfl⟩
  · rintro ⟨n, before, depth, call, rest, name, hsteps, hnode, hcase⟩
    rcases hcase with ⟨htarget, rfl, rfl⟩ | ⟨htarget, hload, rfl⟩
    · have hstuck : source.Stuck dir (.node depth call) [] _ := .cycle hnode htarget
      exact ⟨_, n, rest, notes, [], hsteps, hstuck, (List.append_nil notes).symm⟩
    · have hstuck : source.Stuck dir (.node depth call) _ _ := .load hnode htarget hload
      exact ⟨_, n, rest, before, _, hsteps, hstuck, rfl⟩

end Source

namespace Renderer

/-- At every moment the chain is that of some documents that lead down from the root. -/
theorem exists_within {r : Renderer} {g : Graph} {id : NodeId} {n : Nat} {notes : List Note}
    {depth : Int} {call : Call} {rest : List Task}
    (hsteps : r.source.Steps r.includeDir n (r.start g id) notes (.node depth call :: rest)) :
    ∃ added d, r.source.Within r.includeDir r.chain ⟨g, id⟩ added d call := by
  have hstart : ∀ task ∈ r.start g id,
      r.source.WithinSome r.includeDir r.chain ⟨g, id⟩ task := by
    intro task htask
    rw [List.mem_singleton.1 htask]
    exact ⟨[], ⟨g, id⟩, .root, (List.append_nil r.chain).symm, .nil, by simp, rfl, .root⟩
  exact hsteps.forall_mem Source.WithinSome.step hstart _ List.mem_cons_self

/-- The document of an include is asked for if its target is not on the chain. -/
theorem asks_of_fresh {r : Renderer} (hindent : 0 ≤ r.indent) {g : Graph} {id : NodeId}
    {levels n : Nat} (hends : (r.renderWithin levels g id).outcome ≠ .error .nesting)
    {depth : Int} {call : Call} {rest : List Task} {before : List Note} {name : String}
    (hsteps : r.source.Steps r.includeDir n (r.start g id) before (.node depth call :: rest))
    (hnode : call.document.graph.node call.document.root = .scalar ⟨includeTag, name⟩)
    (htarget : r.source.target r.includeDir name ∉ call.chain) :
    before ++ includeNotes r.includeDir name depth <+: (r.renderWithin levels g id).notes := by
  cases hload : r.source.load (Path.join r.includeDir name) with
  | error failure =>
      have hstuck : r.source.Stuck r.includeDir (.node depth call) _ _ :=
        .load hnode htarget hload
      rw [renderWithin_of_stopsAt hindent hends ⟨n, rest, before, _, hsteps, hstuck, rfl⟩]
  | ok document =>
      have hstep : ∃ parts, r.source.Step r.includeDir (.node depth call)
          (includeNotes r.includeDir name depth) parts := by
        cases document with
        | none => exact ⟨_, .empty hnode htarget hload⟩
        | some d => exact ⟨_, .document hnode htarget hload⟩
      obtain ⟨parts, hstep⟩ := hstep
      exact notes_of_steps hindent hends (hsteps.trans ((Source.Steps.single hstep).append rest))

/-- Cycles of includes are found exactly. At every moment the chain is the one at the start and then
the targets of the includes that lead down to this place, which are new and distinct. A rendering
ends in a cycle exactly if the first task that cannot be done is an include whose target is on the
chain at this place (or whose document is refused for a cycle of its own); it asks for no document
then, and for any other include that it comes to it asks for the document. -/
theorem include_cycles_exact (r : Renderer) (hindent : 0 ≤ r.indent) (g : Graph) (id : NodeId) :
    (∀ n notes depth call rest,
      r.source.Steps r.includeDir n (r.start g id) notes (.node depth call :: rest) →
        ∃ added d, r.source.Within r.includeDir r.chain ⟨g, id⟩ added d call) ∧
    (∀ cycle notes,
      (∃ levels, r.renderWithin levels g id = ⟨.error (.includeCycle cycle), notes⟩) ↔
        ∃ n before depth call rest name,
          r.source.Steps r.includeDir n (r.start g id) before (.node depth call :: rest) ∧
          call.document.graph.node call.document.root = .scalar ⟨includeTag, name⟩ ∧
          (r.source.target r.includeDir name ∈ call.chain ∧
              cycle = call.chain ++ [r.source.target r.includeDir name] ∧ notes = before ∨
            r.source.target r.includeDir name ∉ call.chain ∧
              r.source.load (Path.join r.includeDir name) = .error (.includeCycle cycle) ∧
              notes = before ++ includeNotes r.includeDir name depth)) ∧
    (∀ n before depth call rest name levels,
      r.source.Steps r.includeDir n (r.start g id) before (.node depth call :: rest) →
      call.document.graph.node call.document.root = .scalar ⟨includeTag, name⟩ →
      r.source.target r.includeDir name ∉ call.chain →
      (r.renderWithin levels g id).outcome ≠ .error .nesting →
        before ++ includeNotes r.includeDir name depth <+: (r.renderWithin levels g id).notes) := by
  refine ⟨fun n notes depth call rest hsteps => ?_, fun cycle notes => ?_, ?_⟩
  · exact exists_within hsteps
  · rw [← Source.stopsAt_includeCycle_iff, stopsAt_iff hindent]
    simp
  · intro n before depth call rest name levels hsteps hnode htarget hends
    exact asks_of_fresh hindent hends hsteps hnode htarget

def leftPart : Document := ⟨⟨#[.scalar ⟨includeTag, "leaf"⟩]⟩, 0⟩

/-- A list of an include of the leaf and of an include of the list itself. -/
def rightPart : Document :=
  ⟨⟨#[.sequence "" [1, 2], .scalar ⟨includeTag, "leaf"⟩, .scalar ⟨includeTag, "./right"⟩]⟩, 0⟩

def diamondSource : Source where
  home := "/"
  load path :=
    if path = "/left" then .ok (some leftPart)
    else if path = "/right" then .ok (some rightPart)
    else if path = "/leaf" then .ok none
    else .error (.unreadable path .notSupplied)
  documents := [leftPart, rightPart]
  load_ne_nesting path := by split_ifs <;> simp

/-- The leaf is included by both parts, and the right part by itself. -/
def diamond : Document :=
  ⟨⟨#[.sequence "" [1, 2], .scalar ⟨includeTag, "left"⟩, .scalar ⟨includeTag, "right"⟩]⟩, 0⟩

def diamondRenderer : Renderer := ⟨"/", false, 4, 0, ["/top"], diamondSource⟩

theorem include_cycles_exact_diamond :
    let cycle := ["/top", "/right", "/right"]
    (diamondRenderer.renderWithin 6 diamond.graph 0).outcome = .error (.includeCycle cycle) ∧
    (diamondRenderer.renderWithin 6 diamond.graph 0).loads = ["/left", "/leaf", "/right", "/leaf"] ∧
    ∃ n before depth call rest name,
      diamondSource.Steps "/" n (diamondRenderer.start diamond.graph 0) before
        (.node depth call :: rest) ∧
      call.document.graph.node call.document.root = .scalar ⟨includeTag, name⟩ ∧
      diamondSource.target "/" name ∈ call.chain ∧
      cycle = call.chain ++ [diamondSource.target "/" name] := by
  intro cycle
  have houtcome : (diamondRenderer.renderWithin 6 diamond.graph 0).outcome =
      .error (.includeCycle cycle) := by decide +kernel
  refine ⟨houtcome, by decide +kernel, ?_⟩
  obtain ⟨n, before, depth, call, rest, name, hsteps, hnode, hcase⟩ :=
    ((include_cycles_exact diamondRenderer (by decide) diamond.graph 0).2.1 cycle _).1
      ⟨6, Run.ext_parts houtcome rfl⟩
  refine ⟨n, before, depth, call, rest, name, hsteps, hnode, ?_⟩
  rcases hcase with ⟨htarget, hcycle, -⟩ | ⟨-, hload, -⟩
  · exact ⟨htarget, hcycle⟩
  · unfold diamondRenderer diamondSource at hload
    dsimp only at hload
    split_ifs at hload
    cases hload

end Renderer

end PhpArray

import PhpArray.Proofs.IncludeChain
import PhpArray.Proofs.Stepwise

/-!
Renderings that start on different chains. A chain only ever forbids includes, and both chains grow
by the same targets, so a rendering on a smaller chain does what one on a larger chain does until
the larger chain forbids an include. The main statement is that the two are one run if the larger
chain never does, and that otherwise the smaller chain forbids the same include, unless its target
is what the smaller chain lacks.
-/

namespace PhpArray

open Yaml

namespace Run

variable {smaller larger : List String} {α β : Type}

/-- How a run on a smaller chain stands to the run on a larger one: it is the same run if that does
not end in a cycle, and otherwise it begins in the same way and ends there in a cycle of the same
target, unless it may go on with a target that only the larger chain has. -/
structure Narrows (smaller larger : List String) (short full : Run α) : Prop where
  same : (∀ cycle, full.outcome ≠ .error (.includeCycle cycle)) → short = full
  notes : full.notes <+: short.notes
  cycle : ∀ cycle, full.outcome = .error (.includeCycle cycle) →
    (∃ cycle', short = ⟨.error (.includeCycle cycle'), full.notes⟩ ∧
        cycle'.getLast? = cycle.getLast?) ∨
      ∃ target, cycle.getLast? = some target ∧ target ∈ larger ∧ target ∉ smaller

theorem Narrows.refl (r : Run α) : Narrows smaller larger r r :=
  ⟨fun _ => rfl, List.prefix_rfl, fun cycle h => .inl ⟨cycle, ext_parts h rfl, rfl⟩⟩

theorem Narrows.bind {short full : Run α} {next' next : α → Run β}
    (hfirst : Narrows smaller larger short full)
    (hnext : ∀ a, Narrows smaller larger (next' a) (next a)) :
    Narrows smaller larger (short >>= next') (full >>= next) := by
  cases h : full.outcome with
  | ok a =>
      obtain rfl : short = full := hfirst.same (by simp [h])
      rw [bind_of_ok next h, bind_of_ok next' h]
      refine ⟨fun hends => ?_, ?_, fun cycle hcycle => ?_⟩
      · rw [(hnext a).same hends]
      · exact (List.prefix_append_right_inj _).2 (hnext a).notes
      · refine ((hnext a).cycle cycle hcycle).imp_left ?_
        rintro ⟨cycle', hcycle', hlast⟩
        exact ⟨cycle', by rw [hcycle'], hlast⟩
  | error failure =>
      rw [bind_of_error next h]
      refine ⟨fun hends => ?_, hfirst.notes.trans (notes_prefix_bind short next'), ?_⟩
      · have hnone : ∀ cycle, full.outcome ≠ .error (.includeCycle cycle) := by
          intro cycle hcycle
          cases h.symm.trans hcycle
          exact hends cycle rfl
        obtain rfl : short = full := hfirst.same hnone
        exact bind_of_error next' h
      · rintro cycle ⟨⟩
        refine (hfirst.cycle cycle h).imp_left ?_
        rintro ⟨cycle', rfl, hlast⟩
        exact ⟨cycle', bind_of_error next' rfl, hlast⟩

theorem narrows_stepwise : Stepwise fun _ => Narrows smaller larger :=
  ⟨Narrows.refl, Narrows.bind⟩

end Run

/-- The same task inside of more documents. -/
def Task.behind (chain : List String) : Task → Task
  | .key k => .key k
  | .node depth call => .node depth ⟨chain ++ call.chain, call.active, call.document⟩

private theorem not_mem_of_subset {smaller larger chain : List String} (hsub : smaller ⊆ larger)
    {target : String} (h : target ∉ larger ++ chain) : target ∉ smaller ++ chain := by
  rw [List.mem_append, not_or] at h ⊢
  exact ⟨fun hmem => h.1 (hsub hmem), h.2⟩

namespace Source

variable {source : Source} {dir : String} {smaller larger : List String} {task : Task}
  {notes : List Note}

/-- What can be done on a chain can be done on a smaller one. -/
theorem Step.behind {parts : List Task} (hsub : smaller ⊆ larger)
    (h : source.Step dir (task.behind larger) notes parts) :
    ∃ added : List Task, parts = added.map (Task.behind larger) ∧
      source.Step dir (task.behind smaller) notes (added.map (Task.behind smaller)) := by
  cases task with
  | key key =>
      cases h with
      | key htag hliteral => exact ⟨[], rfl, .key htag hliteral⟩
  | node depth call =>
      obtain ⟨chain, active, g, id⟩ := call
      cases h with
      | scalar hnode htag hliteral => exact ⟨[], rfl, .scalar hnode htag hliteral⟩
      | empty hnode htarget hload =>
          exact ⟨[], rfl, .empty hnode (not_mem_of_subset hsub htarget) hload⟩
      | @document _ _ _ _ _ name d hnode htarget hload =>
          refine ⟨[.node depth ⟨chain ++ [source.target dir name], [], d⟩], ?_, ?_⟩
          · simp [Task.behind]
          · simp only [List.map_singleton, Task.behind, ← List.append_assoc]
            exact .document hnode (not_mem_of_subset hsub htarget) hload
      | @sequence _ _ _ _ _ tag items hnode htag hactive =>
          refine ⟨items.map fun item => .node (depth + 1) ⟨chain, id :: active, ⟨g, item⟩⟩, ?_, ?_⟩
          · simp [Task.behind]
          · rw [List.map_map]
            exact .sequence hnode htag hactive
      | @mapping _ _ _ _ _ tag pairs hnode htag hactive =>
          refine ⟨(g.kept pairs).flatMap fun pair =>
            [.key (g.node pair.1), .node (depth + 1) ⟨chain, id :: active, ⟨g, pair.2⟩⟩], ?_, ?_⟩
          · simp [Task.behind, List.map_flatMap]
          · rw [List.map_flatMap]
            exact .mapping hnode htag hactive

/-- Steps on a chain are steps on a smaller one, from the same tasks to the same tasks. -/
theorem Steps.behind {n : Nat} {tasks left : List Task} (hsub : smaller ⊆ larger)
    (h : source.Steps dir n (tasks.map (Task.behind larger)) notes left) :
    ∃ added : List Task, left = added.map (Task.behind larger) ∧
      source.Steps dir n (tasks.map (Task.behind smaller)) notes
        (added.map (Task.behind smaller)) := by
  generalize htasks : tasks.map (Task.behind larger) = all at h
  induction h generalizing tasks with
  | refl => exact ⟨tasks, htasks.symm, .refl _⟩
  | step hstep _ ih =>
      obtain ⟨task, rest, rfl, rfl, rfl⟩ := List.map_eq_cons_iff.1 htasks
      obtain ⟨parts, rfl, hstep'⟩ := hstep.behind hsub
      obtain ⟨added, hleft, hsteps⟩ := ih List.map_append
      rw [List.map_append] at hsteps
      exact ⟨added, hleft, .step hstep' hsteps⟩

/-- A task that is stuck for a cycle is so on a smaller chain, unless the target is what that
lacks. -/
theorem Stuck.behind {cycle : List String} (hsub : smaller ⊆ larger)
    (h : source.Stuck dir (task.behind larger) notes (.includeCycle cycle)) :
    (∃ cycle', source.Stuck dir (task.behind smaller) notes (.includeCycle cycle')) ∨
      ∃ target, cycle.getLast? = some target ∧ target ∈ larger ∧ target ∉ smaller := by
  cases task with
  | key key => cases h
  | node depth call =>
      obtain ⟨chain, active, g, id⟩ := call
      cases h with
      | @cycle _ _ _ _ _ name hnode htarget =>
          by_cases hmem : source.target dir name ∈ smaller ++ chain
          · exact .inl ⟨_, .cycle hnode hmem⟩
          · refine .inr ⟨source.target dir name, by simp, ?_, fun h => hmem ?_⟩
            · exact (List.mem_append.1 htarget).resolve_right fun h =>
                hmem (List.mem_append_right _ h)
            · exact List.mem_append_left _ h
      | load hnode htarget hload =>
          exact .inl ⟨cycle, .load hnode (not_mem_of_subset hsub htarget) hload⟩

end Source

namespace Renderer

variable {r' r : Renderer} {smaller larger : List String}

theorem included_narrows (hdir : r'.includeDir = r.includeDir) (hindent : r'.indent = r.indent)
    (hsource : r'.source = r.source) (hsub : smaller ⊆ larger) {chain : List String} {depth : Int}
    {name : String} {root' root : List String → Document → Run String}
    (hroot : ∀ chain d, Run.Narrows smaller larger (root' (smaller ++ chain) d)
      (root (larger ++ chain) d)) :
    Run.Narrows smaller larger (r'.included (smaller ++ chain) depth name "null" root')
      (r.included (larger ++ chain) depth name "null" root) := by
  by_cases htarget : r.source.target r.includeDir name ∈ larger ++ chain
  · rw [included_of_mem htarget]
    refine ⟨fun hends => absurd rfl (hends _), List.nil_prefix, ?_⟩
    rintro cycle ⟨⟩
    by_cases hmem : r.source.target r.includeDir name ∈ smaller ++ chain
    · rw [← hsource, ← hdir] at hmem
      rw [included_of_mem hmem, hsource, hdir]
      exact .inl ⟨_, rfl, by simp⟩
    · rw [List.mem_append, not_or] at hmem
      exact .inr ⟨_, by simp, (List.mem_append.1 htarget).resolve_right hmem.2, hmem.1⟩
  · have hfresh := not_mem_of_subset hsub htarget
    rw [← hsource] at hfresh
    apply included_related Run.narrows_stepwise hdir hindent (by rw [hsource]) hfresh htarget
    intro d
    rw [hsource, List.append_assoc, List.append_assoc]
    exact hroot _ d

theorem renderWithin_narrows (hsub : smaller ⊆ r.chain) (levels : Nat) (g : Graph) (id : NodeId) :
    Run.Narrows smaller r.chain ({ r with chain := smaller }.renderWithin levels g id)
      (r.renderWithin levels g id) := by
  let Alike (chain' chain : List String) : Prop :=
    ∃ added, chain' = smaller ++ added ∧ chain = r.chain ++ added
  have hstart : Alike smaller r.chain := ⟨[], by simp, by simp⟩
  refine node_related Run.narrows_stepwise (by rfl) ?_ levels hstart g [] r.depth id
  rintro _ _ depth name root' root ⟨chain, rfl, rfl⟩ hroot
  apply included_narrows (by rfl) (by rfl) (by rfl) hsub
  exact fun chain d => hroot d ⟨chain, rfl, rfl⟩

/-- A rendering ends in a cycle at a task, which is the first one that cannot be done, so many steps
from the start. The chain of the task is what has been added to the chain at the start. -/
structure CycleAt (r : Renderer) (levels : Nat) (g : Graph) (id : NodeId) (n : Nat) (task : Task)
    (cycle : List String) : Prop where
  outcome : (r.renderWithin levels g id).outcome = .error (.includeCycle cycle)
  stuck : ∃ before rest last,
    r.source.Steps r.includeDir n (r.start g id) before (task.behind r.chain :: rest) ∧
      r.source.Stuck r.includeDir (task.behind r.chain) last (.includeCycle cycle)

/-- Two renderings that end in a cycle do so at the same task, if the target that is met again is not
on the larger chain only. -/
theorem cycleAt_of_subset (hindent : 0 ≤ r.indent) (hsub : smaller ⊆ r.chain) {levels : Nat}
    {g : Graph} {id : NodeId} {cycle cycle' : List String}
    (hcycle : (r.renderWithin levels g id).outcome = .error (.includeCycle cycle))
    (hcycle' : ({ r with chain := smaller }.renderWithin levels g id).outcome =
      .error (.includeCycle cycle'))
    (hlacks : ¬∃ target, cycle.getLast? = some target ∧ target ∈ r.chain ∧ target ∉ smaller) :
    ∃ n task, r.CycleAt levels g id n task cycle ∧
      { r with chain := smaller }.CycleAt levels g id n task cycle' := by
  obtain ⟨_, n, rest, before, last, hsteps, hstuck, -⟩ :=
    (renderWithin_does hindent levels g id).stops _ hcycle (by simp)
  have hstart (chain : List String) : ({ r with chain := chain } : Renderer).start g id =
      [Task.node r.depth ⟨[], [], ⟨g, id⟩⟩].map (Task.behind chain) := by
    simp [start, Task.behind]
  -- The task where the larger chain stops is reached on the smaller one by the same steps.
  have hsteps' := hsteps
  rw [hstart r.chain] at hsteps'
  obtain ⟨added, hadded, hshort⟩ := hsteps'.behind hsub
  obtain ⟨task, later, rfl, rfl, rfl⟩ := List.map_eq_cons_iff.1 hadded.symm
  obtain ⟨cycle'', hstuck'⟩ := (hstuck.behind hsub).resolve_right hlacks
  rw [← hstart smaller] at hshort
  have hne : ({ r with chain := smaller }.renderWithin levels g id).outcome ≠ .error .nesting := by
    simp [hcycle']
  have hrun : { r with chain := smaller }.renderWithin levels g id =
      ⟨.error (.includeCycle cycle''), before ++ last⟩ :=
    renderWithin_of_stopsAt hindent hne ⟨n, _, before, last, hshort, hstuck', rfl⟩
  rw [hrun] at hcycle'
  cases hcycle'
  exact ⟨n, task, ⟨hcycle, before, _, last, hsteps, hstuck⟩,
    congrArg Run.outcome hrun, before, _, last, hshort, hstuck'⟩

/-- A smaller chain at the start changes nothing where no cycle is met: the result or the failure is
the same, and all notes are. A rendering that ends in a cycle asks for no document that the one on
the smaller chain does not ask for in the same order. Unless the target that is met again is on the
larger chain only, the latter ends in a cycle as well, with the same notes before and at the same
include. -/
theorem smaller_chain_same_run (r : Renderer) (smaller : List String) (hsub : smaller ⊆ r.chain)
    (levels : Nat) (g : Graph) (id : NodeId) :
    let full := r.renderWithin levels g id
    let short := { r with chain := smaller }.renderWithin levels g id
    ((∀ cycle, full.outcome ≠ .error (.includeCycle cycle)) → short = full) ∧
    ∀ cycle, full.outcome = .error (.includeCycle cycle) →
      full.loads <+: short.loads ∧
      ((∃ target, cycle.getLast? = some target ∧ target ∈ r.chain ∧ target ∉ smaller) ∨
        ∃ cycle', short = ⟨.error (.includeCycle cycle'), full.notes⟩ ∧
          cycle'.getLast? = cycle.getLast? ∧
          (0 ≤ r.indent → ∃ n task, r.CycleAt levels g id n task cycle ∧
            { r with chain := smaller }.CycleAt levels g id n task cycle')) := by
  intro full short
  have hnarrows : Run.Narrows smaller r.chain short full := renderWithin_narrows hsub levels g id
  refine ⟨hnarrows.same, fun cycle hcycle => ⟨hnarrows.notes.filterMap _, ?_⟩⟩
  refine or_iff_not_imp_left.2 fun hlacks => ?_
  obtain ⟨cycle', hshort, hlast⟩ := (hnarrows.cycle cycle hcycle).resolve_right hlacks
  refine ⟨cycle', hshort, hlast, fun hindent => ?_⟩
  exact cycleAt_of_subset hindent hsub hcycle (congrArg Run.outcome hshort) hlacks

/-- The diamond meets its right part again, whether or not it is itself on the chain. -/
theorem smaller_chain_same_run_diamond :
    let alone : Renderer := { diamondRenderer with chain := [] }
    let cycle := ["/top", "/right", "/right"]
    (diamondRenderer.renderWithin 6 diamond.graph 0).loads <+:
        (alone.renderWithin 6 diamond.graph 0).loads ∧
      ∃ n task cycle', diamondRenderer.CycleAt 6 diamond.graph 0 n task cycle ∧
        alone.CycleAt 6 diamond.graph 0 n task cycle' := by
  intro alone cycle
  have houtcome : (diamondRenderer.renderWithin 6 diamond.graph 0).outcome =
      .error (.includeCycle cycle) := by decide +kernel
  obtain ⟨-, hcycle⟩ := smaller_chain_same_run diamondRenderer [] (by simp) 6 diamond.graph 0
  obtain ⟨hloads, ⟨target, hlast, htarget, -⟩ | ⟨cycle', -, -, hsite⟩⟩ := hcycle cycle houtcome
  · obtain rfl : "/right" = target := Option.some.inj hlast
    simp [diamondRenderer] at htarget
  · obtain ⟨n, task, hfull, hshort⟩ := hsite (by decide)
    exact ⟨hloads, n, task, cycle', hfull, hshort⟩

end Renderer

end PhpArray

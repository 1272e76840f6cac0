import PhpArray.Proofs.Content

/-!
Two renderings side by side. They take the same steps as long as they find the same, so a relation
between runs that is kept from step to step holds of two renderings if it holds of their includes.
-/

namespace PhpArray

open Yaml

namespace Run

variable {α β : Type}

/-- A relation between runs that holds of each run with itself, and of two runs that go on in
related ways behind related runs. -/
structure Stepwise (R : (α : Type) → Run α → Run α → Prop) : Prop where
  refl {α : Type} (r : Run α) : R α r r
  bind {α β : Type} {r' r : Run α} {next' next : α → Run β} :
    R α r' r → (∀ a, R β (next' a) (next a)) → R β (r' >>= next') (r >>= next)

theorem Stepwise.mapM {R : (α : Type) → Run α → Run α → Prop} (hR : Stepwise R)
    {step' step : α → Run β} (as : List α) (h : ∀ a, R β (step' a) (step a)) :
    R (List β) (as.mapM step') (as.mapM step) := by
  induction as with
  | nil => exact hR.refl _
  | cons a as ih =>
      rw [List.mapM_cons, List.mapM_cons]
      exact hR.bind (h a) fun _ => hR.bind ih fun _ => hR.refl _

/-- What was noted is kept, however a run goes on. -/
theorem notes_prefix_bind (r : Run α) (next : α → Run β) : r.notes <+: (r >>= next).notes := by
  cases h : r.outcome with
  | error failure => exact ⟨[], by rw [bind_of_error next h, List.append_nil]⟩
  | ok a => exact ⟨(next a).notes, by rw [bind_of_ok next h]⟩

theorem loads_subset_of_prefix {r : Run α} {s : Run β} (h : r.notes <+: s.notes) :
    r.loads ⊆ s.loads :=
  (h.filterMap _).subset

end Run

namespace Renderer

variable {α : Type} {r' r : Renderer} {chain' chain : List String}

/-! ### What an include does -/

theorem checked_bind (r : Renderer) (next : Run α) :
    (Run.ofExcept r.checked >>= fun _ => next) =
      if r.indent < 0 then Run.fail (.negativeIndent r.indent) else next := by
  by_cases hindent : r.indent < 0 <;> simp [checked, hindent]

theorem included_of_mem {depth : Int} {name : String} {empty : α}
    {root : List String → Document → Run α} (h : r.source.target r.includeDir name ∈ chain) :
    r.included chain depth name empty root =
      Run.fail (.includeCycle (chain ++ [r.source.target r.includeDir name])) :=
  if_pos h

theorem included_of_not_mem {depth : Int} {name : String} {empty : α}
    {root : List String → Document → Run α} (h : r.source.target r.includeDir name ∉ chain) :
    r.included chain depth name empty root =
      (do
        Run.note (.including (Path.join r.includeDir name) depth)
        Run.note (.loading (Path.join r.includeDir name))
        match ← Run.ofExcept (r.source.load (Path.join r.includeDir name)) with
        | none => pure empty
        | some d =>
          if r.indent < 0 then Run.fail (.negativeIndent r.indent)
          else root (chain ++ [r.source.target r.includeDir name]) d) := by
  simp only [← checked_bind]
  exact if_neg h

/-- A document that is not on the chain is asked for. -/
theorem mem_loads_included {depth : Int} {name : String} {empty : α}
    {root : List String → Document → Run α} (h : r.source.target r.includeDir name ∉ chain) :
    Path.join r.includeDir name ∈ (r.included chain depth name empty root).loads := by
  rw [included_of_not_mem h, ← bind_assoc]
  exact Run.loads_subset_of_prefix (Run.notes_prefix_bind _ _) (List.mem_singleton_self _)

/-! ### Two renderings -/

variable {R : (α : Type) → Run α → Run α → Prop} (hR : Run.Stepwise R)

include hR

/-- Includes that ask for the same document and find the same go on with the document. -/
theorem included_related {depth : Int} {name : String} {empty : α}
    {root' root : List String → Document → Run α} (hdir : r'.includeDir = r.includeDir)
    (hindent : r'.indent = r.indent)
    (hload : r'.source.load (Path.join r.includeDir name) =
      r.source.load (Path.join r.includeDir name))
    (hfresh' : r'.source.target r.includeDir name ∉ chain')
    (hfresh : r.source.target r.includeDir name ∉ chain)
    (hroot : ∀ d, R α (root' (chain' ++ [r'.source.target r.includeDir name]) d)
      (root (chain ++ [r.source.target r.includeDir name]) d)) :
    R α (r'.included chain' depth name empty root') (r.included chain depth name empty root) := by
  rw [← hdir] at hfresh'
  rw [included_of_not_mem hfresh', included_of_not_mem hfresh, hdir, hload, hindent]
  refine hR.bind (hR.refl _) fun _ => hR.bind (hR.refl _) fun _ => hR.bind (hR.refl _) ?_
  intro loaded
  cases loaded with
  | none => exact hR.refl _
  | some d =>
      dsimp only
      split
      · exact hR.refl _
      · exact hroot d

theorem enter_related {shape : Shape} {tag : String} {id : NodeId} {active : List NodeId}
    {inside' inside : List NodeId → Run α} (h : ∀ active, R α (inside' active) (inside active)) :
    R α (enter shape tag id active inside') (enter shape tag id active inside) := by
  unfold enter
  split
  · exact hR.refl _
  · split
    · exact hR.refl _
    · exact h _

/-- Two renderings of a node take the same step, with what they do with includes and with the parts
of the node in its course. -/
theorem node_succ_related (hline : r'.line = r.line) {levels' levels : Nat} {g : Graph}
    (hincluded : ∀ depth name,
      R String (r'.included chain' depth name "null" fun chain d =>
          r'.node levels' chain d.graph [] depth d.root)
        (r.included chain depth name "null" fun chain d =>
          r.node levels chain d.graph [] depth d.root))
    (hpart : ∀ active depth id, R String (r'.node levels' chain' g active depth id)
      (r.node levels chain g active depth id))
    (active : List NodeId) (depth : Int) (id : NodeId) :
    R String (r'.node (levels' + 1) chain' g active depth id)
      (r.node (levels + 1) chain g active depth id) := by
  have harray : r'.array = r.array := by
    unfold array
    rw [hline]
  rw [node, node]
  cases g.node id with
  | scalar s =>
      dsimp only
      split
      · exact hincluded depth s.value
      · exact hR.refl _
  | sequence tag items =>
      rw [harray, hline]
      apply enter_related hR
      intro active
      apply hR.bind _ fun _ => hR.refl _
      exact hR.mapM items fun item => hR.bind (hpart active (depth + 1) item) fun _ => hR.refl _
  | mapping tag pairs =>
      unfold pair
      rw [harray, hline]
      apply enter_related hR
      intro active
      apply hR.bind _ fun _ => hR.refl _
      apply hR.mapM
      intro pair
      apply hR.bind (hR.refl _)
      intro key
      exact hR.bind (hpart active (depth + 1) pair.2) fun _ => hR.refl _
  | bare tag => exact hR.refl _
  | foreign => exact hR.refl _

/-- Two renderings on chains that are alike are related if their includes are. -/
theorem node_related (hline : r'.line = r.line) {Alike : List String → List String → Prop}
    (hincluded : ∀ {chain' chain : List String} (depth : Int) (name : String)
      {root' root : List String → Document → Run String}, Alike chain' chain →
      (∀ {chain' chain : List String} (d : Document), Alike chain' chain →
        R String (root' chain' d) (root chain d)) →
      R String (r'.included chain' depth name "null" root')
        (r.included chain depth name "null" root))
    (levels : Nat) {chain' chain : List String} (halike : Alike chain' chain) (g : Graph)
    (active : List NodeId) (depth : Int) (id : NodeId) :
    R String (r'.node levels chain' g active depth id) (r.node levels chain g active depth id) := by
  induction levels generalizing chain' chain g active depth id with
  | zero => exact hR.refl _
  | succ levels ih =>
      apply node_succ_related hR hline
      · intro depth name
        exact hincluded depth name halike fun d halike => ih halike d.graph [] depth d.root
      · exact ih halike g

end Renderer

end PhpArray

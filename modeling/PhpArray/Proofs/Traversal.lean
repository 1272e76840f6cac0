import PhpArray.Proofs.Nesting

/-!
A rendering task by task. What is still to be done is a list of tasks, and a step does the first of
them, which may leave others in its place. So the tasks come in the order of the document, depth
first and through includes, and the first one that is stuck is the first failing point. `Step` and
`Stuck` say what a task does and when it cannot be done, without texts, layouts and levels. The main
statements are that a rendering ends well with these notes exactly if all tasks can be done with
them, and that it ends in this failure exactly if the tasks stop there.
-/

namespace PhpArray

open Yaml

/-- The tag of a node, if it has one. -/
def Yaml.Node.tag? : Node → Option String
  | .scalar s => some s.tag
  | .sequence tag _ | .mapping tag _ | .bare tag => some tag
  | .foreign => none

theorem Yaml.Node.shape_ne_scalar {n : Node} (h : n.isCollection = true) : n.shape ≠ .scalar := by
  cases n <;> simp_all [shape, isCollection]

/-- What a rendering still has to do. -/
inductive Task where
  /-- The key of a pair. -/
  | key (key : Node)
  /-- A node inside of its collections and documents, at a depth. -/
  | node (depth : Int) (call : Call)

/-- The notes of an include whose document is asked for. -/
def includeNotes (dir name : String) (depth : Int) : List Note :=
  [.including (Path.join dir name) depth, .loading (Path.join dir name)]

namespace Source

/-- A task is done with some notes and leaves other tasks in its place. -/
inductive Step (source : Source) (dir : String) : Task → List Note → List Task → Prop
  | key {s : Scalar} :
      s.tag ≠ includeTag → s.HasLiteral →
      Step source dir (.key (.scalar s)) (renderScalar s).notes []
  | scalar {depth : Int} {chain : List String} {active : List NodeId} {g : Graph} {id : NodeId}
      {s : Scalar} :
      g.node id = .scalar s → s.tag ≠ includeTag → s.HasLiteral →
      Step source dir (.node depth ⟨chain, active, ⟨g, id⟩⟩) (renderScalar s).notes []
  | empty {depth : Int} {chain : List String} {active : List NodeId} {g : Graph} {id : NodeId}
      {name : String} :
      g.node id = .scalar ⟨includeTag, name⟩ → source.target dir name ∉ chain →
      source.load (Path.join dir name) = .ok none →
      Step source dir (.node depth ⟨chain, active, ⟨g, id⟩⟩) (includeNotes dir name depth) []
  | document {depth : Int} {chain : List String} {active : List NodeId} {g : Graph} {id : NodeId}
      {name : String} {d : Document} :
      g.node id = .scalar ⟨includeTag, name⟩ → source.target dir name ∉ chain →
      source.load (Path.join dir name) = .ok (some d) →
      Step source dir (.node depth ⟨chain, active, ⟨g, id⟩⟩) (includeNotes dir name depth)
        [.node depth ⟨chain ++ [source.target dir name], [], d⟩]
  | sequence {depth : Int} {chain : List String} {active : List NodeId} {g : Graph} {id : NodeId}
      {tag : String} {items : List NodeId} :
      g.node id = .sequence tag items → tag ≠ includeTag → id ∉ active →
      Step source dir (.node depth ⟨chain, active, ⟨g, id⟩⟩) []
        (items.map fun item => .node (depth + 1) ⟨chain, id :: active, ⟨g, item⟩⟩)
  | mapping {depth : Int} {chain : List String} {active : List NodeId} {g : Graph} {id : NodeId}
      {tag : String} {pairs : List (NodeId × NodeId)} :
      g.node id = .mapping tag pairs → tag ≠ includeTag → id ∉ active →
      Step source dir (.node depth ⟨chain, active, ⟨g, id⟩⟩) []
        ((g.kept pairs).flatMap fun pair =>
          [.key (g.node pair.1), .node (depth + 1) ⟨chain, id :: active, ⟨g, pair.2⟩⟩])

/-- A task cannot be done, which is noticed after some notes and reported as a failure. -/
inductive Stuck (source : Source) (dir : String) : Task → List Note → Failure → Prop
  | collectionKey {key : Node} :
      key.shape ≠ .scalar →
      Stuck source dir (.key key) [] (.unsupported key.shape .collectionKey)
  | includeKey {s : Scalar} :
      s.tag = includeTag → Stuck source dir (.key (.scalar s)) [] (.unsupported .scalar .includeKey)
  | keyRange {s : Scalar} :
      s.tag ≠ includeTag → ¬ s.HasLiteral → Stuck source dir (.key (.scalar s)) [] .floatRange
  | range {depth : Int} {chain : List String} {active : List NodeId} {g : Graph} {id : NodeId}
      {s : Scalar} :
      g.node id = .scalar s → s.tag ≠ includeTag → ¬ s.HasLiteral →
      Stuck source dir (.node depth ⟨chain, active, ⟨g, id⟩⟩) [] .floatRange
  | cycle {depth : Int} {chain : List String} {active : List NodeId} {g : Graph} {id : NodeId}
      {name : String} :
      g.node id = .scalar ⟨includeTag, name⟩ → source.target dir name ∈ chain →
      Stuck source dir (.node depth ⟨chain, active, ⟨g, id⟩⟩) []
        (.includeCycle (chain ++ [source.target dir name]))
  | load {depth : Int} {chain : List String} {active : List NodeId} {g : Graph} {id : NodeId}
      {name : String} {failure : Failure} :
      g.node id = .scalar ⟨includeTag, name⟩ → source.target dir name ∉ chain →
      source.load (Path.join dir name) = .error failure →
      Stuck source dir (.node depth ⟨chain, active, ⟨g, id⟩⟩) (includeNotes dir name depth) failure
  | tagged {depth : Int} {chain : List String} {active : List NodeId} {g : Graph} {id : NodeId} :
      (g.node id).shape ≠ .scalar → (g.node id).tag? = some includeTag →
      Stuck source dir (.node depth ⟨chain, active, ⟨g, id⟩⟩) []
        (.unsupported (g.node id).shape .includeWithoutPath)
  | recursive {depth : Int} {chain : List String} {active : List NodeId} {g : Graph}
      {id : NodeId} :
      (g.node id).isCollection = true → (g.node id).tag? ≠ some includeTag → id ∈ active →
      Stuck source dir (.node depth ⟨chain, active, ⟨g, id⟩⟩) []
        (.unsupported (g.node id).shape .recursiveAlias)
  | shape {depth : Int} {chain : List String} {active : List NodeId} {g : Graph} {id : NodeId} :
      (g.node id).shape ≠ .scalar → (g.node id).isCollection = false →
      (g.node id).tag? ≠ some includeTag →
      Stuck source dir (.node depth ⟨chain, active, ⟨g, id⟩⟩) []
        (.unsupported (g.node id).shape .shape)

/-- So many steps lead from tasks to other tasks, with the notes of all of them. -/
inductive Steps (source : Source) (dir : String) : Nat → List Task → List Note → List Task → Prop
  | refl (tasks : List Task) : Steps source dir 0 tasks [] tasks
  | step {task : Task} {parts rest tasks : List Task} {notes more : List Note} {n : Nat} :
      source.Step dir task notes parts → Steps source dir n (parts ++ rest) more tasks →
      Steps source dir (n + 1) (task :: rest) (notes ++ more) tasks

/-- All tasks can be done, with these notes. -/
def Completes (source : Source) (dir : String) (tasks : List Task) (notes : List Note) : Prop :=
  ∃ n, source.Steps dir n tasks notes []

/-- The first of the tasks that cannot be done is this one, with the notes made until then. -/
def StopsAt (source : Source) (dir : String) (tasks : List Task) (task : Task)
    (notes : List Note) (failure : Failure) : Prop :=
  ∃ n rest before last, source.Steps dir n tasks before (task :: rest) ∧
    source.Stuck dir task last failure ∧ notes = before ++ last

variable {source : Source} {dir : String}

/-! ### The order of the tasks leaves no choice -/

theorem Step.unique {task : Task} {notes notes' : List Note} {parts parts' : List Task}
    (h : source.Step dir task notes parts) (h' : source.Step dir task notes' parts') :
    notes = notes' ∧ parts = parts' := by
  cases h <;> cases h' <;> grind

theorem Stuck.not_step {task : Task} {notes notes' : List Note} {failure : Failure}
    {parts : List Task} (h : source.Stuck dir task notes failure)
    (hstep : source.Step dir task notes' parts) : False := by
  cases h <;> cases hstep <;> grind [Node.shape, Node.tag?, Node.isCollection]

theorem Stuck.unique {task : Task} {notes notes' : List Note} {failure failure' : Failure}
    (h : source.Stuck dir task notes failure) (h' : source.Stuck dir task notes' failure') :
    notes = notes' ∧ failure = failure' := by
  cases h <;> cases h' <;> grind [Node.shape, Node.tag?, Node.isCollection]

/-! ### Steps compose -/

theorem Steps.single {task : Task} {notes : List Note} {parts : List Task}
    (h : source.Step dir task notes parts) : source.Steps dir 1 [task] notes parts := by
  have hrest : source.Steps dir 0 (parts ++ []) [] parts := by
    rw [List.append_nil]
    exact .refl parts
  simpa using Steps.step h hrest

theorem Steps.trans {n m : Nat} {first second third : List Task} {notes more : List Note}
    (h : source.Steps dir n first notes second) (h' : source.Steps dir m second more third) :
    source.Steps dir (n + m) first (notes ++ more) third := by
  induction h with
  | refl => simpa using h'
  | @step task parts rest tasks notes more' n hstep _ ih =>
      rw [List.append_assoc, Nat.add_right_comm]
      exact .step hstep (ih h')

/-- Tasks that come later change nothing. -/
theorem Steps.append {n : Nat} {tasks left : List Task} {notes : List Note}
    (h : source.Steps dir n tasks notes left) (later : List Task) :
    source.Steps dir n (tasks ++ later) notes (left ++ later) := by
  induction h with
  | refl => exact .refl _
  | step hstep _ ih =>
      rw [List.append_assoc] at ih
      exact .step hstep ih

/-- What each step passes on to the tasks that it leaves holds of all tasks that are ever left. -/
theorem Steps.forall_mem {holds : Task → Prop}
    (hstep : ∀ {task notes parts}, source.Step dir task notes parts → holds task →
      ∀ part ∈ parts, holds part)
    {n : Nat} {tasks left : List Task} {notes : List Note}
    (h : source.Steps dir n tasks notes left) (htasks : ∀ task ∈ tasks, holds task) :
    ∀ task ∈ left, holds task := by
  induction h with
  | refl => exact htasks
  | step hfirst _ ih =>
      obtain ⟨htask, hrest⟩ := List.forall_mem_cons.1 htasks
      apply ih
      intro part hpart
      rcases List.mem_append.1 hpart with hpart | hpart
      · exact hstep hfirst htask part hpart
      · exact hrest part hpart

/-- Nothing is left to do, or the first task is stuck. -/
def Halted (source : Source) (dir : String) : List Task → Prop
  | [] => True
  | task :: _ => ∃ notes failure, source.Stuck dir task notes failure

/-- Steps that end where no step is possible go at least as far as any others, and through the same
tasks. -/
theorem Steps.rest_of_halted {n m : Nat} {tasks left last : List Task} {notes all : List Note}
    (h : source.Steps dir n tasks notes left) (hall : source.Steps dir m tasks all last)
    (hhalted : source.Halted dir last) :
    ∃ k more, m = n + k ∧ all = notes ++ more ∧ source.Steps dir k left more last := by
  induction h generalizing m all with
  | refl => exact ⟨m, all, by omega, rfl, hall⟩
  | step hstep _ ih =>
      cases hall with
      | refl =>
          obtain ⟨_, _, hstuck⟩ := hhalted
          exact absurd hstep hstuck.not_step
      | step hstep' hrest' =>
          obtain ⟨rfl, rfl⟩ := hstep.unique hstep'
          obtain ⟨k, more, rfl, rfl, hmore⟩ := ih hrest'
          exact ⟨k, more, by omega, by rw [List.append_assoc], hmore⟩

/-- Tasks end in one way only. -/
theorem Steps.halted_unique {n m : Nat} {tasks last last' : List Task} {notes notes' : List Note}
    (h : source.Steps dir n tasks notes last) (hhalted : source.Halted dir last)
    (h' : source.Steps dir m tasks notes' last') (hhalted' : source.Halted dir last') :
    n = m ∧ notes = notes' ∧ last = last' := by
  obtain ⟨k, more, rfl, rfl, hmore⟩ := h.rest_of_halted h' hhalted'
  cases hmore with
  | refl => exact ⟨rfl, by simp, rfl⟩
  | step hstep _ =>
      obtain ⟨_, _, hstuck⟩ := hhalted
      exact absurd hstep hstuck.not_step

end Source

/-- A run does tasks: it has a result if they can be done, it has the failure of the first that
cannot, and its notes are theirs. If it runs out of levels, they go on for as many steps. -/
structure Run.Does {α : Type} (source : Source) (dir : String) (levels : Nat) (r : Run α)
    (tasks : List Task) : Prop where
  completes : ∀ a, r.outcome = .ok a → source.Completes dir tasks r.notes
  stops : ∀ failure, r.outcome = .error failure → failure ≠ .nesting →
    ∃ task, source.StopsAt dir tasks task r.notes failure
  goesOn : r.outcome = .error .nesting → ∃ n notes left, levels ≤ n ∧
    source.Steps dir n tasks notes left

variable {source : Source} {dir : String} {α β : Type} {levels : Nat}

theorem Source.StopsAt.append {tasks : List Task} {task : Task} {notes : List Note}
    {failure : Failure} (h : source.StopsAt dir tasks task notes failure) (later : List Task) :
    source.StopsAt dir (tasks ++ later) task notes failure := by
  obtain ⟨n, rest, before, last, hsteps, hstuck, rfl⟩ := h
  exact ⟨n, rest ++ later, before, last, hsteps.append later, hstuck, rfl⟩

theorem Source.StopsAt.after {n : Nat} {tasks left : List Task} {task : Task}
    {notes more : List Note} {failure : Failure} (h : source.StopsAt dir left task more failure)
    (hsteps : source.Steps dir n tasks notes left) :
    source.StopsAt dir tasks task (notes ++ more) failure := by
  obtain ⟨m, rest, before, last, hrest, hstuck, rfl⟩ := h
  exact ⟨n + m, rest, notes ++ before, last, hsteps.trans hrest, hstuck,
    (List.append_assoc _ _ _).symm⟩

namespace Run

theorem Does.pure (a : α) : Does source dir levels (pure a : Run α) [] :=
  ⟨fun _ _ => ⟨0, .refl []⟩, by simp, by simp⟩

/-- Runs one after the other do their tasks one after the other. -/
theorem Does.bind {r : Run α} {next : α → Run β} {tasks later : List Task}
    (hfirst : Does source dir levels r tasks)
    (hnext : ∀ a, r.outcome = .ok a → Does source dir levels (next a) later) :
    Does source dir levels (r >>= next) (tasks ++ later) := by
  cases h : r.outcome with
  | error failure =>
      rw [bind_of_error next h]
      refine ⟨by simp, fun f hf hne => ?_, fun hnesting => ?_⟩
      · cases hf
        obtain ⟨task, hstop⟩ := hfirst.stops failure h hne
        exact ⟨task, hstop.append later⟩
      · cases hnesting
        obtain ⟨n, notes, left, hle, hsteps⟩ := hfirst.goesOn h
        exact ⟨n, notes, left ++ later, hle, hsteps.append later⟩
  | ok a =>
      obtain ⟨n, hsteps⟩ := hfirst.completes a h
      have hdone : source.Steps dir n (tasks ++ later) r.notes later := hsteps.append later
      rw [bind_of_ok next h]
      refine ⟨fun b hb => ?_, fun f hf hne => ?_, fun hnesting => ?_⟩
      · obtain ⟨m, hrest⟩ := (hnext a h).completes b hb
        exact ⟨n + m, hdone.trans hrest⟩
      · obtain ⟨task, hstop⟩ := (hnext a h).stops f hf hne
        exact ⟨task, hstop.after hdone⟩
      · obtain ⟨m, notes, left, hle, hrest⟩ := (hnext a h).goesOn hnesting
        exact ⟨n + m, r.notes ++ notes, left, by omega, hdone.trans hrest⟩

theorem Does.map {r : Run α} {tasks : List Task} (h : Does source dir levels r tasks)
    (f : α → β) : Does source dir levels (f <$> r) tasks := by
  rw [map_eq_pure_bind, ← List.append_nil tasks]
  exact h.bind fun a _ => .pure (f a)

theorem Does.mapM {step : α → Run β} {tasks : α → List Task} {as : List α}
    (h : ∀ a ∈ as, Does source dir levels (step a) (tasks a)) :
    Does source dir levels (as.mapM step) (as.flatMap tasks) := by
  induction as with
  | nil => exact .pure []
  | cons a as ih =>
      rw [List.mapM_cons, List.flatMap_cons]
      apply (h a (by simp)).bind
      intro b _
      rw [bind_pure_comp]
      exact (ih fun a' ha' => h a' (by simp [ha'])).map _

/-- A task is done by doing its parts. -/
theorem Does.step {r : Run α} {task : Task} {notes : List Note} {parts : List Task}
    (hstep : source.Step dir task notes parts) (h : Does source dir levels r parts) :
    Does source dir (levels + 1) ⟨r.outcome, notes ++ r.notes⟩ [task] := by
  have hsteps : source.Steps dir 1 [task] notes parts := Source.Steps.single hstep
  refine ⟨fun a ha => ?_, fun f hf hne => ?_, fun hnesting => ?_⟩
  · obtain ⟨n, hrest⟩ := h.completes a ha
    exact ⟨1 + n, hsteps.trans hrest⟩
  · obtain ⟨task', hstop⟩ := h.stops f hf hne
    exact ⟨task', hstop.after hsteps⟩
  · obtain ⟨n, more, left, hle, hrest⟩ := h.goesOn hnesting
    exact ⟨1 + n, notes ++ more, left, by omega, hsteps.trans hrest⟩

theorem Does.stuck {task : Task} {notes : List Note} {failure : Failure}
    (hstuck : source.Stuck dir task notes failure) (hne : failure ≠ .nesting) :
    Does source dir levels (⟨.error failure, notes⟩ : Run α) [task] := by
  refine ⟨by simp, fun f hf _ => ?_, fun hnesting => ?_⟩
  · cases hf
    exact ⟨task, 0, [], [], notes, .refl _, hstuck, rfl⟩
  · cases hnesting
    exact absurd rfl hne

theorem Does.done {task : Task} {notes : List Note} (hstep : source.Step dir task notes [])
    (a : α) : Does source dir levels ⟨.ok a, notes⟩ [task] :=
  ⟨fun _ _ => ⟨1, .single hstep⟩, by simp, by simp⟩

end Run

theorem renderScalar_of_hasLiteral {s : Scalar} (h : s.HasLiteral) :
    renderScalar s = ⟨.ok s.literal, (renderScalar s).notes⟩ := by
  refine Run.ext_parts ?_ rfl
  unfold Scalar.HasLiteral at h
  unfold renderScalar Scalar.literal
  rcases hvalue : Literal.ofText (Literal.kindOf s.tag) s.value with (_ | _) | literal <;>
    simp_all [Run.outcome_map, Except.map]

theorem renderScalar_of_not_hasLiteral {s : Scalar} (h : ¬ s.HasLiteral) :
    renderScalar s = Run.fail .floatRange := by
  unfold Scalar.HasLiteral at h
  simp [renderScalar, not_not.1 h]

namespace Renderer

variable {r : Renderer}

theorem renderKey_does (key : Node) :
    (renderKey key).Does source dir levels [.key key] := by
  cases key with
  | scalar s =>
      unfold renderKey
      dsimp only
      by_cases htag : s.tag = includeTag
      · rw [if_pos htag]
        exact .stuck (.includeKey htag) (by simp)
      · rw [if_neg htag]
        by_cases hliteral : s.HasLiteral
        · rw [renderScalar_of_hasLiteral hliteral]
          exact .done (.key htag hliteral) _
        · rw [renderScalar_of_not_hasLiteral hliteral]
          exact .stuck (.keyRange htag hliteral) (by simp)
  | _ => exact .stuck (.collectionKey (by simp [Node.shape])) (by simp)

variable {depth : Int} {chain : List String} {active : List NodeId} {g : Graph} {id : NodeId}

theorem renderScalar_does {s : Scalar} (hnode : g.node id = .scalar s) (htag : s.tag ≠ includeTag) :
    (renderScalar s).Does source dir levels [.node depth ⟨chain, active, ⟨g, id⟩⟩] := by
  by_cases hliteral : s.HasLiteral
  · rw [renderScalar_of_hasLiteral hliteral]
    exact .done (.scalar hnode htag hliteral) _
  · rw [renderScalar_of_not_hasLiteral hliteral]
    exact .stuck (.range hnode htag hliteral) (by simp)

theorem included_does (hindent : 0 ≤ r.indent) {name : String}
    (hnode : g.node id = .scalar ⟨includeTag, name⟩) {empty : α}
    {root : List String → Document → Run α}
    (hroot : ∀ chain d, (root chain d).Does r.source r.includeDir levels
      [.node depth ⟨chain, [], d⟩]) :
    (r.included chain depth name empty root).Does r.source r.includeDir (levels + 1)
      [.node depth ⟨chain, active, ⟨g, id⟩⟩] := by
  unfold included
  dsimp only
  rw [show Path.absolute r.source.home (Path.join r.includeDir name) =
    r.source.target r.includeDir name from rfl]
  by_cases hchain : r.source.target r.includeDir name ∈ chain
  · rw [if_pos hchain]
    exact .stuck (.cycle hnode hchain) (by simp)
  · rw [if_neg hchain]
    cases hload : r.source.load (Path.join r.includeDir name) with
    | error failure =>
        have hne : failure ≠ .nesting := by
          rintro rfl
          exact r.source.load_ne_nesting _ hload
        exact .stuck (.load hnode hchain hload) hne
    | ok document =>
        cases document with
        | none => exact .done (.empty hnode hchain hload) empty
        | some d =>
            have hstep : r.source.Step r.includeDir (.node depth ⟨chain, active, ⟨g, id⟩⟩) _ _ :=
              .document hnode hchain hload
            have hdoes := Run.Does.step hstep (hroot _ d)
            rw [checked_ok hindent]
            exact hdoes

theorem enter_does {shape : Shape} {tag : String} {inside : List NodeId → Run α}
    {parts : List Task} (hshape : (g.node id).shape = shape)
    (hcollection : (g.node id).isCollection = true) (htag : (g.node id).tag? = some tag)
    (hstep : tag ≠ includeTag → id ∉ active →
      source.Step dir (.node depth ⟨chain, active, ⟨g, id⟩⟩) [] parts)
    (hinside : (inside (id :: active)).Does source dir levels parts) :
    (enter shape tag id active inside).Does source dir (levels + 1)
      [.node depth ⟨chain, active, ⟨g, id⟩⟩] := by
  have hscalar := Node.shape_ne_scalar hcollection
  unfold enter
  rw [← hshape]
  by_cases hinclude : tag = includeTag
  · rw [if_pos hinclude]
    exact .stuck (.tagged hscalar (hinclude ▸ htag)) (by simp)
  · rw [if_neg hinclude]
    by_cases hactive : id ∈ active
    · rw [if_pos hactive]
      have hother : (g.node id).tag? ≠ some includeTag := by simpa [htag] using hinclude
      exact .stuck (.recursive hcollection hother hactive) (by simp)
    · rw [if_neg hactive]
      exact .step (hstep hinclude hactive) hinside

/-- A rendering of a node does the task of that node. -/
theorem node_does (hindent : 0 ≤ r.indent) (levels : Nat) (chain : List String) (g : Graph)
    (active : List NodeId) (depth : Int) (id : NodeId) :
    (r.node levels chain g active depth id).Does r.source r.includeDir levels
      [.node depth ⟨chain, active, ⟨g, id⟩⟩] := by
  induction levels generalizing chain g active depth id with
  | zero =>
      exact ⟨by simp [node], by simp [node], fun _ => ⟨0, [], _, Nat.le_refl 0, .refl _⟩⟩
  | succ levels ih =>
      unfold node
      cases hnode : g.node id with
      | scalar s =>
          dsimp only
          by_cases htag : s.tag = includeTag
          · have hinclude : g.node id = .scalar ⟨includeTag, s.value⟩ := by rw [hnode, ← htag]
            rw [if_pos htag]
            exact included_does hindent hinclude fun chain d => ih chain d.graph [] depth d.root
          · rw [if_neg htag]
            exact renderScalar_does hnode htag
      | sequence tag items =>
          apply enter_does (by rw [hnode]; rfl) (by rw [hnode]; rfl) (by rw [hnode]; rfl)
            (fun htag hactive => .sequence hnode htag hactive)
          rw [bind_pure_comp, List.map_eq_flatMap]
          refine .map (.mapM fun item _ => ?_) _
          rw [bind_pure_comp]
          exact (ih chain g (id :: active) (depth + 1) item).map _
      | mapping tag pairs =>
          apply enter_does (by rw [hnode]; rfl) (by rw [hnode]; rfl) (by rw [hnode]; rfl)
            (fun htag hactive => .mapping hnode htag hactive)
          rw [bind_pure_comp]
          refine .map (.mapM fun pair _ => ?_) _
          apply (renderKey_does (g.node pair.1)).bind
          intro key _
          rw [bind_pure_comp]
          exact (ih chain g (id :: active) (depth + 1) pair.2).map _
      | bare tag =>
          have hshape : (g.node id).shape = .bare := by rw [hnode]; rfl
          dsimp only
          rw [← hshape]
          by_cases htag : tag = includeTag
          · rw [if_pos htag]
            exact .stuck (.tagged (by simp [hshape]) (by simp [hnode, Node.tag?, htag])) (by simp)
          · rw [if_neg htag]
            exact .stuck (.shape (by simp [hshape]) (by simp [hnode, Node.isCollection])
              (by simpa [hnode, Node.tag?] using htag)) (by simp)
      | foreign =>
          have hshape : (g.node id).shape = .foreign := by rw [hnode]; rfl
          dsimp only
          rw [← hshape]
          exact .stuck (.shape (by simp [hshape]) (by simp [hnode, Node.isCollection])
            (by simp [hnode, Node.tag?])) (by simp)

end Renderer

namespace Source

variable {tasks : List Task} {task : Task} {notes : List Note} {failure : Failure}

theorem Stuck.ne_nesting (h : source.Stuck dir task notes failure) : failure ≠ .nesting := by
  cases h with
  | load _ _ hload =>
      rintro rfl
      exact source.load_ne_nesting _ hload
  | _ => simp

theorem Completes.unique {notes' : List Note} (h : source.Completes dir tasks notes)
    (h' : source.Completes dir tasks notes') : notes = notes' := by
  obtain ⟨n, hsteps⟩ := h
  obtain ⟨m, hsteps'⟩ := h'
  exact (hsteps.halted_unique trivial hsteps' trivial).2.1

theorem StopsAt.not_completes {notes' : List Note} (h : source.StopsAt dir tasks task notes failure)
    (h' : source.Completes dir tasks notes') : False := by
  obtain ⟨n, rest, before, last, hsteps, hstuck, -⟩ := h
  obtain ⟨m, hsteps'⟩ := h'
  have hlast := (hsteps.halted_unique ⟨last, failure, hstuck⟩ hsteps' trivial).2.2
  cases hlast

theorem StopsAt.unique {task' : Task} {notes' : List Note} {failure' : Failure}
    (h : source.StopsAt dir tasks task notes failure)
    (h' : source.StopsAt dir tasks task' notes' failure') :
    task = task' ∧ notes = notes' ∧ failure = failure' := by
  obtain ⟨n, rest, before, last, hsteps, hstuck, rfl⟩ := h
  obtain ⟨m, rest', before', last', hsteps', hstuck', rfl⟩ := h'
  obtain ⟨-, rfl, hsame⟩ :=
    hsteps.halted_unique ⟨last, failure, hstuck⟩ hsteps' ⟨last', failure', hstuck'⟩
  cases hsame
  obtain ⟨rfl, rfl⟩ := hstuck.unique hstuck'
  exact ⟨rfl, rfl, rfl⟩

end Source

/-- A run that is given more levels than its tasks have steps does not run out of them. -/
theorem Run.Does.ne_nesting {r : Run α} {tasks last : List Task} {notes : List Note} {n : Nat}
    (h : r.Does source dir levels tasks) (hsteps : source.Steps dir n tasks notes last)
    (hhalted : source.Halted dir last) (hlevels : n < levels) : r.outcome ≠ .error .nesting := by
  intro hnesting
  obtain ⟨m, _, _, hle, hmore⟩ := h.goesOn hnesting
  obtain ⟨k, _, heq, -⟩ := hmore.rest_of_halted hsteps hhalted
  omega

namespace Renderer

variable {r : Renderer}

/-- The task of a root. -/
def start (r : Renderer) (g : Graph) (id : NodeId) : List Task :=
  [.node r.depth ⟨r.chain, [], ⟨g, id⟩⟩]

theorem renderWithin_does (hindent : 0 ≤ r.indent) (levels : Nat) (g : Graph) (id : NodeId) :
    (r.renderWithin levels g id).Does r.source r.includeDir levels (r.start g id) :=
  node_does hindent levels r.chain g [] r.depth id

section

variable {g : Graph} {id : NodeId} {notes : List Note} {failure : Failure}
  (hindent : 0 ≤ r.indent) (hends : (r.renderWithin levels g id).outcome ≠ .error .nesting)

include hindent hends

theorem renderWithin_of_completes (h : r.source.Completes r.includeDir (r.start g id) notes) :
    ∃ text, r.renderWithin levels g id = ⟨.ok text, notes⟩ := by
  have hdoes := renderWithin_does hindent levels g id
  cases houtcome : (r.renderWithin levels g id).outcome with
  | error failure =>
      rw [houtcome] at hends
      obtain ⟨task, hstop⟩ := hdoes.stops failure houtcome fun hnesting => hends (hnesting ▸ rfl)
      exact (hstop.not_completes h).elim
  | ok text => exact ⟨text, Run.ext_parts houtcome ((hdoes.completes text houtcome).unique h)⟩

theorem renderWithin_of_stopsAt {task : Task}
    (h : r.source.StopsAt r.includeDir (r.start g id) task notes failure) :
    r.renderWithin levels g id = ⟨.error failure, notes⟩ := by
  have hdoes := renderWithin_does hindent levels g id
  cases houtcome : (r.renderWithin levels g id).outcome with
  | error failure' =>
      rw [houtcome] at hends
      obtain ⟨task', hstop⟩ := hdoes.stops failure' houtcome fun hnesting => hends (hnesting ▸ rfl)
      obtain ⟨-, hnotes, rfl⟩ := hstop.unique h
      exact Run.ext_parts houtcome hnotes
  | ok text => exact (h.not_completes (hdoes.completes text houtcome)).elim

/-- What was noted when a rendering comes to some tasks stands in front of all its notes. -/
theorem notes_of_steps {n : Nat} {left : List Task}
    (h : r.source.Steps r.includeDir n (r.start g id) notes left) :
    notes <+: (r.renderWithin levels g id).notes := by
  have hdoes := renderWithin_does hindent levels g id
  cases houtcome : (r.renderWithin levels g id).outcome with
  | error failure =>
      rw [houtcome] at hends
      obtain ⟨task, m, rest, before, last, hall, hstuck, hnotes⟩ :=
        hdoes.stops failure houtcome fun hnesting => hends (hnesting ▸ rfl)
      obtain ⟨_, more, -, rfl, -⟩ := h.rest_of_halted hall ⟨last, failure, hstuck⟩
      exact ⟨more ++ last, by rw [hnotes, List.append_assoc]⟩
  | ok text =>
      obtain ⟨m, hall⟩ := hdoes.completes text houtcome
      obtain ⟨_, more, -, hmore, -⟩ := h.rest_of_halted hall trivial
      exact ⟨more, hmore.symm⟩

end

/-- A rendering ends well exactly if all its tasks can be done, and then its notes are theirs. -/
theorem completes_iff (hindent : 0 ≤ r.indent) (g : Graph) (id : NodeId) (notes : List Note) :
    r.source.Completes r.includeDir (r.start g id) notes ↔
      ∃ levels text, r.renderWithin levels g id = ⟨.ok text, notes⟩ := by
  constructor
  · intro hcompletes
    obtain ⟨n, hsteps⟩ := hcompletes
    have hends := (renderWithin_does hindent (n + 1) g id).ne_nesting hsteps trivial
      (Nat.lt_succ_self n)
    exact ⟨n + 1, renderWithin_of_completes hindent hends ⟨n, hsteps⟩⟩
  · rintro ⟨levels, text, hrun⟩
    have hdoes := renderWithin_does hindent levels g id
    rw [hrun] at hdoes
    exact hdoes.completes text rfl

/-- A rendering ends in a failure exactly if its tasks stop there, and then its notes are those made
until then. -/
theorem stopsAt_iff (hindent : 0 ≤ r.indent) (g : Graph) (id : NodeId) (notes : List Note)
    (failure : Failure) :
    (∃ task, r.source.StopsAt r.includeDir (r.start g id) task notes failure) ↔
      failure ≠ .nesting ∧ ∃ levels, r.renderWithin levels g id = ⟨.error failure, notes⟩ := by
  constructor
  · rintro ⟨task, hstop⟩
    have ⟨n, rest, before, last, hsteps, hstuck, _⟩ := hstop
    have hends := (renderWithin_does hindent (n + 1) g id).ne_nesting hsteps
      ⟨last, failure, hstuck⟩ (Nat.lt_succ_self n)
    exact ⟨hstuck.ne_nesting, n + 1, renderWithin_of_stopsAt hindent hends hstop⟩
  · rintro ⟨hne, levels, hrun⟩
    have hdoes := renderWithin_does hindent levels g id
    rw [hrun] at hdoes
    exact hdoes.stops failure rfl hne

end Renderer

end PhpArray

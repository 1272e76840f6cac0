import Mathlib.Data.List.Lex
import PhpArray.Proofs.Traversal

/-!
The order in which a rendering comes to its tasks. A task is known by the way that leads down to it,
which goes through includes as well, and ways are compared as lists of numbers: a task comes before
its parts, and all that is below a part before the later parts. The main statement is that the
documents that are asked for are those of the includes in this order, up to the first task that
cannot be done, which is the one whose failure is reported.
-/

namespace PhpArray

open Yaml

/-- A way down: for each task on it, which of the parts is gone into. Ways are ordered as lists. -/
abbrev Way := List Nat

namespace Way

theorem lt_append_cons (way : Way) (i : Nat) (rest : Way) : way < way ++ i :: rest := by
  have hlt : way ++ [] < way ++ i :: rest := List.append_left_lt (List.nil_lt_cons i rest)
  simpa using hlt

theorem lt_append_of_lt {way later : Way} (h : way < later) (rest : Way) : way < later ++ rest :=
  List.Lex.append_right (· < ·) rest h

/-- What is below a way comes before a later way that does not lead on from it. -/
theorem append_lt_of_lt {way later : Way} (h : way < later) (hleads : ¬ way <+: later)
    (rest : Way) : way ++ rest < later := by
  induction h with
  | nil => simp at hleads
  | cons _ ih => exact List.Lex.cons (ih fun hrest => hleads (by simpa using hrest))
  | rel hlt => exact List.Lex.rel hlt

theorem append_singleton_lt (way : Way) {i j : Nat} (h : i < j) : way ++ [i] < way ++ [j] :=
  List.append_left_lt (List.cons_lt_cons_iff.2 (.inl h))

end Way

/-- The include that a note is about, as a path and a depth. -/
def Note.inclusion? : Note → Option (String × Int)
  | .including path depth => some (path, depth)
  | _ => none

/-- The includes whose documents were asked for, in order, each with its depth. -/
def Run.inclusions {α : Type} (r : Run α) : List (String × Int) :=
  r.notes.filterMap Note.inclusion?

namespace Task

/-- The path and the depth of a task that is an include. -/
def inclusion? (dir : String) : Task → Option (String × Int)
  | .key _ => none
  | .node depth call =>
    match call.document.graph.node call.document.root with
    | .scalar s => if s.tag = includeTag then some (Path.join dir s.value, depth) else none
    | _ => none

def isCollection : Task → Bool
  | .key _ => false
  | .node _ call => (call.document.graph.node call.document.root).isCollection

end Task

namespace Source

/-- The task at the end of a way, and the tasks above it. -/
inductive At (source : Source) (dir : String) (start : Task) : Way → List Task → Task → Prop
  | root : At source dir start [] [] start
  | part {way : Way} {above : List Task} {task part : Task} {notes : List Note}
      {parts : List Task} {i : Nat} :
      At source dir start way above task → source.Step dir task notes parts →
      parts[i]? = some part → At source dir start (way ++ [i]) (above ++ [task]) part

/-- All tasks at the ways of some kind, each once and in their order. None of them is stuck. -/
structure InOrder (source : Source) (dir : String) (start : Task) (ways : Way → Prop)
    (visits : List (Way × Task)) : Prop where
  sorted : visits.Pairwise fun visit later => visit.1 < later.1
  mem_iff : ∀ way task,
    (way, task) ∈ visits ↔ ways way ∧ ∃ above, source.At dir start way above task
  not_stuck : ∀ visit ∈ visits, ∀ notes failure, ¬ source.Stuck dir visit.2 notes failure

variable {source : Source} {dir : String} {start : Task}

/-! ### What is noted about a task -/

theorem inclusion?_renderScalar (s : Scalar) :
    (renderScalar s).notes.filterMap Note.inclusion? = [] := by
  unfold renderScalar
  rcases hvalue : Literal.ofText (Literal.kindOf s.tag) s.value with (_ | _) | literal <;>
    simp [hvalue, Note.inclusion?]

theorem Step.inclusions {task : Task} {notes : List Note} {parts : List Task}
    (h : source.Step dir task notes parts) :
    notes.filterMap Note.inclusion? = (task.inclusion? dir).toList := by
  cases h with
  | key _ _ => exact inclusion?_renderScalar _
  | scalar hnode htag _ => simp [Task.inclusion?, hnode, htag, inclusion?_renderScalar]
  | _ hnode => simp [Task.inclusion?, hnode, includeNotes, Note.inclusion?]

/-- Every include that is noted is followed by its load, and nothing else is loaded. -/
def Paired (notes : List Note) : Prop :=
  (⟨.ok (), notes⟩ : Run Unit).loads = (notes.filterMap Note.inclusion?).map Prod.fst

theorem Paired.nil : Paired [] := rfl

theorem Paired.append {notes more : List Note} (h : Paired notes) (h' : Paired more) :
    Paired (notes ++ more) := by
  unfold Paired Run.loads at h h' ⊢
  simp only [List.filterMap_append, List.map_append] at h h' ⊢
  rw [h, h']

theorem paired_includeNotes (dir name : String) (depth : Int) :
    Paired (includeNotes dir name depth) := rfl

theorem paired_renderScalar (s : Scalar) : Paired (renderScalar s).notes := by
  unfold Paired Run.loads renderScalar
  rcases hvalue : Literal.ofText (Literal.kindOf s.tag) s.value with (_ | _) | literal <;>
    simp [hvalue, Note.inclusion?]

theorem Step.paired {task : Task} {notes : List Note} {parts : List Task}
    (h : source.Step dir task notes parts) : Paired notes := by
  cases h with
  | key _ _ | scalar _ _ _ => exact paired_renderScalar _
  | empty _ _ _ | document _ _ _ => exact paired_includeNotes _ _ _
  | sequence _ _ _ | mapping _ _ _ => exact .nil

theorem Stuck.paired {task : Task} {notes : List Note} {failure : Failure}
    (h : source.Stuck dir task notes failure) : Paired notes := by
  cases h with
  | load _ _ _ => exact paired_includeNotes _ _ _
  | _ => exact .nil

theorem Steps.paired {n : Nat} {tasks left : List Task} {notes : List Note}
    (h : source.Steps dir n tasks notes left) : Paired notes := by
  induction h with
  | refl => exact .nil
  | step hstep _ ih => exact hstep.paired.append ih

/-! ### Ways -/

theorem At.nil_inv {above : List Task} {task : Task} (h : source.At dir start [] above task) :
    above = [] ∧ task = start := by
  generalize hway : ([] : Way) = way at h
  cases h with
  | root => exact ⟨rfl, rfl⟩
  | part => simp at hway

theorem At.snoc_inv {way : Way} {i : Nat} {above : List Task} {part : Task}
    (h : source.At dir start (way ++ [i]) above part) :
    ∃ front task notes parts, above = front ++ [task] ∧ source.At dir start way front task ∧
      source.Step dir task notes parts ∧ parts[i]? = some part := by
  generalize hway : way ++ [i] = long at h
  cases h with
  | root => simp at hway
  | part hat hstep hpart =>
      obtain ⟨rfl, hi⟩ := List.append_inj' hway rfl
      obtain rfl := List.singleton_inj.1 hi
      exact ⟨_, _, _, _, rfl, hat, hstep, hpart⟩

/-- A way leads to one task. -/
theorem At.unique {way : Way} {above above' : List Task} {task task' : Task}
    (h : source.At dir start way above task) (h' : source.At dir start way above' task') :
    above = above' ∧ task = task' := by
  induction h generalizing above' task' with
  | root =>
      obtain ⟨rfl, rfl⟩ := h'.nil_inv
      exact ⟨rfl, rfl⟩
  | part _ hstep hpart ih =>
      obtain ⟨front, _, _, parts', rfl, hat', hstep', hpart'⟩ := h'.snoc_inv
      obtain ⟨rfl, rfl⟩ := ih hat'
      obtain ⟨-, rfl⟩ := hstep.unique hstep'
      exact ⟨rfl, Option.some.inj (hpart.symm.trans hpart')⟩

/-- A way leads through the tasks of the ways that it leads on from. -/
theorem At.of_append {way rest : Way} {above : List Task} {task : Task}
    (h : source.At dir start (way ++ rest) above task) :
    ∃ front first, source.At dir start way front first := by
  induction rest using List.reverseRecOn generalizing above task with
  | nil => exact ⟨above, task, by simpa using h⟩
  | append_singleton rest i ih =>
      rw [← List.append_assoc] at h
      obtain ⟨_, _, _, _, -, hat, -⟩ := h.snoc_inv
      exact ih hat

/-- The depth of a task counts the collections above it, also those around includes. -/
theorem At.depth_eq {way : Way} {above : List Task} {task : Task} {first : Int} {root : Call}
    (h : source.At dir (.node first root) way above task) :
    ∀ depth call, task = .node depth call → depth = first + above.countP Task.isCollection := by
  induction h with
  | root =>
      rintro depth call ⟨⟩
      simp
  | @part way above task part notes parts i _ hstep hpart ih =>
      rintro depth call rfl
      have hmem : Task.node depth call ∈ parts := List.mem_of_getElem? hpart
      rw [List.countP_append]
      cases hstep with
      | key _ _ => simp at hmem
      | scalar _ _ _ => simp at hmem
      | empty _ _ _ => simp at hmem
      | document hnode _ _ =>
          obtain ⟨rfl, -⟩ := Task.node.inj (List.mem_singleton.1 hmem)
          simp [ih _ _ rfl, Task.isCollection, hnode, Node.isCollection]
      | sequence hnode _ _ =>
          obtain ⟨item, -, hitem⟩ := List.mem_map.1 hmem
          obtain ⟨rfl, -⟩ := Task.node.inj hitem
          simp [ih _ _ rfl, Task.isCollection, hnode, Node.isCollection, Int.add_assoc]
      | mapping hnode _ _ =>
          obtain ⟨pair, -, hpair⟩ := List.mem_flatMap.1 hmem
          simp only [List.mem_cons, reduceCtorEq, Task.node.injEq, List.not_mem_nil, or_false,
            false_or] at hpair
          obtain ⟨rfl, -⟩ := hpair
          simp [ih _ _ rfl, Task.isCollection, hnode, Node.isCollection, Int.add_assoc]

/-! ### Visiting in order -/

/-- The parts of a task with the ways to them. -/
def partsAt (way : Way) (parts : List Task) : List (Way × Task) :=
  parts.mapIdx fun i part => (way ++ [i], part)

@[simp] theorem map_snd_partsAt (way : Way) (parts : List Task) :
    (partsAt way parts).map Prod.snd = parts :=
  List.ext_getElem (by simp [partsAt]) (by simp [partsAt])

theorem mem_partsAt {way : Way} {parts : List Task} {visit : Way × Task} :
    visit ∈ partsAt way parts ↔ ∃ i, visit.1 = way ++ [i] ∧ parts[i]? = some visit.2 := by
  obtain ⟨long, task⟩ := visit
  simp only [partsAt, List.mem_mapIdx, Prod.mk.injEq, List.getElem?_eq_some_iff]
  constructor
  · rintro ⟨i, hi, rfl, rfl⟩
    exact ⟨i, rfl, hi, rfl⟩
  · rintro ⟨i, rfl, hi, rfl⟩
    exact ⟨i, hi, rfl, rfl⟩

/-- What is below a task that is done is the task itself or below one of its parts. -/
theorem At.append_cases {way rest : Way} {above front parts : List Task} {task below : Task}
    {notes : List Note} (hat : source.At dir start way above task)
    (hstep : source.Step dir task notes parts)
    (hbelow : source.At dir start (way ++ rest) front below) :
    (way ++ rest, below) = (way, task) ∨ ∃ visit ∈ partsAt way parts, visit.1 <+: way ++ rest := by
  cases rest with
  | nil =>
      rw [List.append_nil] at hbelow ⊢
      obtain ⟨-, rfl⟩ := hat.unique hbelow
      exact .inl rfl
  | cons i rest =>
      rw [List.append_cons way i rest] at hbelow ⊢
      obtain ⟨_, part, hpart⟩ := hbelow.of_append
      obtain ⟨_, _, _, parts', -, hat', hstep', hi⟩ := hpart.snoc_inv
      obtain ⟨-, rfl⟩ := hat.unique hat'
      obtain ⟨-, rfl⟩ := hstep.unique hstep'
      exact .inr ⟨(way ++ [i], part), mem_partsAt.2 ⟨i, rfl, hi⟩, List.prefix_append _ _⟩

/-- What holds in the middle of a rendering: the tasks that are done come before those that are
left, and all others are below one that is left. -/
structure Progress (source : Source) (dir : String) (start : Task)
    (done left : List (Way × Task)) : Prop where
  reached : ∀ visit ∈ done ++ left, ∃ above, source.At dir start visit.1 above visit.2
  sorted : (done ++ left).Pairwise fun visit later => visit.1 < later.1
  apart : left.Pairwise fun visit later => ¬ visit.1 <+: later.1
  covers : ∀ way above task, source.At dir start way above task →
    (way, task) ∈ done ∨ ∃ visit ∈ left, visit.1 <+: way
  not_stuck : ∀ visit ∈ done, ∀ notes failure, ¬ source.Stuck dir visit.2 notes failure

theorem Progress.init (start : Task) : Progress source dir start [] [([], start)] := by
  refine ⟨?_, List.pairwise_singleton _ _, List.pairwise_singleton _ _, ?_, by simp⟩
  · intro visit hvisit
    rw [List.nil_append, List.mem_singleton] at hvisit
    rw [hvisit]
    exact ⟨[], .root⟩
  · intro way above task _
    exact .inr ⟨_, List.mem_singleton_self _, List.nil_prefix⟩

section

variable {way : Way} {task : Task} {notes : List Note} {parts : List Task}
  {done rest : List (Way × Task)}

theorem pairwise_partsAt : (partsAt way parts).Pairwise fun visit later => visit.1 < later.1 := by
  rw [List.pairwise_iff_getElem]
  intro i j hi hj hlt
  simpa [partsAt] using way.append_singleton_lt hlt

theorem apart_partsAt :
    (partsAt way parts).Pairwise fun visit later => ¬ visit.1 <+: later.1 := by
  rw [List.pairwise_iff_getElem]
  intro i j hi hj hlt
  simp only [partsAt, List.getElem_mapIdx, List.prefix_append_right_inj]
  intro hleads
  have hsame : [i] = [j] := hleads.eq_of_length rfl
  rw [List.singleton_inj] at hsame
  omega

/-- The parts of a task take its place in the order. -/
theorem Progress.sorted_step (h : Progress source dir start done ((way, task) :: rest)) :
    ((done ++ [(way, task)]) ++ (partsAt way parts ++ rest)).Pairwise
      fun visit later => visit.1 < later.1 := by
  obtain ⟨hdone, hleft, hbetween⟩ := List.pairwise_append.1 h.sorted
  obtain ⟨hfirst, hrest⟩ := List.pairwise_cons.1 hleft
  obtain ⟨hapart, -⟩ := List.pairwise_cons.1 h.apart
  have hparts : ∀ visit ∈ partsAt way parts, way < visit.1 ∧
      (∀ later ∈ rest, visit.1 < later.1) ∧ ∀ earlier, earlier < way → earlier < visit.1 := by
    intro visit hvisit
    obtain ⟨i, hi, -⟩ := mem_partsAt.1 hvisit
    rw [hi]
    exact ⟨way.lt_append_cons i [], fun later hlater =>
      Way.append_lt_of_lt (hfirst later hlater) (hapart later hlater) [i],
      fun earlier hlt => Way.lt_append_of_lt hlt [i]⟩
  simp only [List.pairwise_append, List.mem_append, List.mem_singleton, List.pairwise_singleton]
  refine ⟨⟨hdone, trivial, fun visit hvisit later hlater => ?_⟩,
    ⟨pairwise_partsAt, hrest, fun visit hvisit => (hparts visit hvisit).2.1⟩, ?_⟩
  · rw [hlater]
    exact hbetween visit hvisit _ List.mem_cons_self
  · rintro visit (hvisit | rfl) later (hlater | hlater)
    · exact (hparts later hlater).2.2 _ (hbetween visit hvisit _ List.mem_cons_self)
    · exact hbetween visit hvisit later (List.mem_cons_of_mem _ hlater)
    · exact (hparts later hlater).1
    · exact hfirst later hlater

/-- A task that is done is visited, and its parts are left in its place. -/
theorem Progress.step (h : Progress source dir start done ((way, task) :: rest))
    (hstep : source.Step dir task notes parts) :
    Progress source dir start (done ++ [(way, task)]) (partsAt way parts ++ rest) := by
  obtain ⟨above, hat⟩ := h.reached (way, task) (by simp)
  refine ⟨?_, h.sorted_step, ?_, ?_, ?_⟩
  · intro visit hvisit
    simp only [List.mem_append, List.mem_singleton] at hvisit
    rcases hvisit with (hvisit | rfl) | hvisit | hvisit
    · exact h.reached visit (by simp [hvisit])
    · exact ⟨above, hat⟩
    · obtain ⟨i, hi, hpart⟩ := mem_partsAt.1 hvisit
      rw [hi]
      exact ⟨_, .part hat hstep hpart⟩
    · exact h.reached visit (by simp [hvisit])
  · obtain ⟨hapart, hrest⟩ := List.pairwise_cons.1 h.apart
    refine List.pairwise_append.2 ⟨apart_partsAt, hrest, fun visit hvisit later hlater => ?_⟩
    obtain ⟨i, hi, -⟩ := mem_partsAt.1 hvisit
    rw [hi]
    exact fun hleads => hapart later hlater ((List.prefix_append way [i]).trans hleads)
  · intro way' above' task' hat'
    rcases h.covers way' above' task' hat' with hdone | ⟨visit, hvisit, below, rfl⟩
    · exact .inl (List.mem_append_left _ hdone)
    · rcases List.mem_cons.1 hvisit with rfl | hrest
      · rcases hat.append_cases hstep hat' with hsame | ⟨part, hpart, hleads⟩
        · exact .inl (List.mem_append_right _ (List.mem_singleton.2 hsame))
        · exact .inr ⟨part, List.mem_append_left _ hpart, hleads⟩
      · exact .inr ⟨visit, List.mem_append_right _ hrest, List.prefix_append _ _⟩
  · intro visit hvisit notes failure hstuck
    rcases List.mem_append.1 hvisit with hvisit | hvisit
    · exact h.not_stuck visit hvisit notes failure hstuck
    · rw [List.mem_singleton.1 hvisit] at hstuck
      exact hstuck.not_step hstep

/-- Steps visit tasks in order, and what they note is the includes among these. -/
theorem Steps.progress {n : Nat} {tasks last : List Task}
    (h : source.Steps dir n tasks notes last) {left : List (Way × Task)}
    (hleft : left.map Prod.snd = tasks) (hprogress : Progress source dir start done left) :
    ∃ more left', left'.map Prod.snd = last ∧ Progress source dir start (done ++ more) left' ∧
      notes.filterMap Note.inclusion? = more.filterMap fun visit => visit.2.inclusion? dir := by
  induction h generalizing done left with
  | refl => exact ⟨[], left, hleft, by simpa using hprogress, rfl⟩
  | @step task parts later tasks notes more n hstep _ ih =>
      obtain ⟨⟨way, _⟩, rest, rfl, rfl, rfl⟩ := List.map_eq_cons_iff.1 hleft
      obtain ⟨visits, left', hlast, hprogress', hnotes⟩ :=
        ih (by simp) (hprogress.step hstep)
      refine ⟨(way, _) :: visits, left', hlast, by simpa using hprogress', ?_⟩
      rw [List.filterMap_append, hstep.inclusions, hnotes]
      cases htask : Task.inclusion? dir _ <;> simp [htask]

/-- When nothing is left, all tasks have been visited. -/
theorem Progress.inOrder (h : Progress source dir start done []) :
    InOrder source dir start (fun _ => True) done := by
  refine ⟨by simpa using h.sorted, fun way task => ⟨fun hmem => ?_, ?_⟩, h.not_stuck⟩
  · exact ⟨trivial, h.reached (way, task) (by simp [hmem])⟩
  · rintro ⟨-, above, hat⟩
    simpa using h.covers way above task hat

/-- All tasks before the first one that is left have been visited. -/
theorem Progress.inOrder_before (h : Progress source dir start done ((way, task) :: rest)) :
    InOrder source dir start (· < way) done := by
  obtain ⟨hsorted, hleft, hbetween⟩ := List.pairwise_append.1 h.sorted
  refine ⟨hsorted, fun way' task' => ⟨fun hmem => ?_, ?_⟩, h.not_stuck⟩
  · exact ⟨hbetween _ hmem _ List.mem_cons_self, h.reached (way', task') (by simp [hmem])⟩
  · rintro ⟨hlt, above, hat⟩
    refine (h.covers way' above task' hat).resolve_right ?_
    rintro ⟨visit, hvisit, below, rfl⟩
    have hle : way = visit.1 ∨ way < visit.1 := by
      rcases List.mem_cons.1 hvisit with rfl | hrest
      · exact .inl rfl
      · exact .inr ((List.pairwise_cons.1 hleft).1 visit hrest)
    rcases hle with rfl | hbefore
    · cases below with
      | nil => simp at hlt
      | cons i below => exact lt_asymm hlt (Way.lt_append_cons _ i below)
    · exact lt_asymm hlt (Way.lt_append_of_lt hbefore below)

end

end Source

namespace Renderer

variable {r : Renderer}

/-- Documents are asked for in document order. The documents that a rendering asks for are those of
the includes at the ways from the root, depth first and from left to right, once for each way,
with paths that are all read from one directory and with depths that count the collections around,
also those of the including documents. A rendering that ends well visits all ways; one that fails
stops at the first way whose task is stuck, and this is the failure that it reports. -/
theorem loads_follow_document_order (r : Renderer) (hindent : 0 ≤ r.indent) (g : Graph)
    (id : NodeId) (levels : Nat)
    (hends : (r.renderWithin levels g id).outcome ≠ .error .nesting) :
    let run := r.renderWithin levels g id
    let start : Task := .node r.depth ⟨r.chain, [], ⟨g, id⟩⟩
    run.loads = run.inclusions.map Prod.fst ∧
    (∀ way above depth call, r.source.At r.includeDir start way above (.node depth call) →
      depth = r.depth + above.countP Task.isCollection) ∧
    (∀ text, run.outcome = .ok text →
      ∃ visits, r.source.InOrder r.includeDir start (fun _ => True) visits ∧
        run.inclusions = visits.filterMap fun visit => visit.2.inclusion? r.includeDir) ∧
    (∀ failure, run.outcome = .error failure →
      ∃ way above task last visits, r.source.At r.includeDir start way above task ∧
        r.source.Stuck r.includeDir task last failure ∧
        r.source.InOrder r.includeDir start (· < way) visits ∧
        run.inclusions = visits.filterMap (fun visit => visit.2.inclusion? r.includeDir) ++
          last.filterMap Note.inclusion?) := by
  intro run start
  have hdoes := renderWithin_does hindent levels g id
  refine ⟨?_, fun way above depth call hat => hat.depth_eq depth call rfl, fun text htext => ?_,
    fun failure hfailure => ?_⟩
  · cases houtcome : run.outcome with
    | ok text =>
        obtain ⟨n, hsteps⟩ := hdoes.completes text houtcome
        exact hsteps.paired
    | error failure =>
        have hne : failure ≠ .nesting := fun h => hends (h ▸ houtcome)
        obtain ⟨task, n, rest, before, last, hsteps, hstuck, hnotes⟩ :=
          hdoes.stops failure houtcome hne
        have hpaired := hsteps.paired.append hstuck.paired
        rw [← hnotes] at hpaired
        exact hpaired
  · obtain ⟨n, hsteps⟩ := hdoes.completes text htext
    obtain ⟨visits, left, hleft, hprogress, hnotes⟩ :=
      hsteps.progress rfl (Source.Progress.init start)
    obtain rfl := List.map_eq_nil_iff.1 hleft
    exact ⟨visits, hprogress.inOrder, hnotes⟩
  · have hne : failure ≠ .nesting := fun h => hends (h ▸ hfailure)
    obtain ⟨task, n, rest, before, last, hsteps, hstuck, hnotes⟩ := hdoes.stops failure hfailure hne
    obtain ⟨visits, left, hleft, hprogress, hbefore⟩ :=
      hsteps.progress rfl (Source.Progress.init start)
    obtain ⟨⟨way, task⟩, rest', rfl, rfl, rfl⟩ := List.map_eq_cons_iff.1 hleft
    obtain ⟨above, hat⟩ := hprogress.reached (way, task) (by simp)
    refine ⟨way, above, task, last, visits, hat, hstuck, hprogress.inOrder_before, ?_⟩
    rw [← hbefore, ← List.filterMap_append, ← hnotes]
    rfl

/-- The same include of the leaf in two places. -/
def leafTwice : Document := ⟨⟨#[.sequence "" [1, 1], .scalar ⟨includeTag, "leaf"⟩]⟩, 0⟩

def leafSource : Source where
  home := "/"
  load path :=
    if path = "/part" then .ok (some leafTwice)
    else if path = "/leaf" then .ok none
    else .error (.unreadable path .notSupplied)
  documents := [leafTwice]
  load_ne_nesting path := by split_ifs <;> simp

/-- Two pairs with an include as their value, of which the second has a list as its key. -/
def listKey : Document :=
  ⟨⟨#[.mapping "" [(1, 2), (3, 4)], .scalar ⟨coreTag "str", "k"⟩, .scalar ⟨includeTag, "part"⟩,
    .sequence "" [], .scalar ⟨includeTag, "missing"⟩]⟩, 0⟩

def listKeyRenderer : Renderer := ⟨"/", true, 2, 3, [], leafSource⟩

theorem loads_follow_document_order_listKey :
    let run := listKeyRenderer.renderWithin 6 listKey.graph 0
    let start : Task := .node 3 ⟨[], [], listKey⟩
    let failure : Failure := .unsupported .sequence .collectionKey
    run.outcome = .error failure ∧ run.loads = ["/part", "/leaf", "/leaf"] ∧
    run.inclusions = [("/part", 4), ("/leaf", 5), ("/leaf", 5)] ∧
    ∃ way above task last visits, leafSource.At "/" start way above task ∧
      leafSource.Stuck "/" task last failure ∧
      leafSource.InOrder "/" start (· < way) visits ∧
      run.inclusions = visits.filterMap (fun visit => visit.2.inclusion? "/") ++
        last.filterMap Note.inclusion? := by
  intro run start failure
  have hfailure : run.outcome = .error failure := by decide +kernel
  have hends : run.outcome ≠ .error .nesting := by simp [hfailure, failure]
  obtain ⟨hloads, -, -, hstops⟩ :=
    loads_follow_document_order listKeyRenderer (by decide) listKey.graph 0 6 hends
  have hinclusions : run.inclusions = [("/part", 4), ("/leaf", 5), ("/leaf", 5)] := by
    decide +kernel
  refine ⟨hfailure, ?_, hinclusions, hstops failure hfailure⟩
  rw [show run.loads = run.inclusions.map Prod.fst from hloads, hinclusions]
  rfl

end Renderer

end PhpArray

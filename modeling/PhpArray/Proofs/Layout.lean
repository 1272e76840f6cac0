import PhpArray.Proofs.Content

/-!
Literals apart from their layout. The literal of a content is a list of segments: texts, which are
the same in every layout, and breaks, which are where a line of its own begins if the layout is
pretty. Rendering is gathering the content and writing its segments, at any depth; so a layout
changes nothing but the breaks.
-/

namespace PhpArray

open Yaml

/-- A piece of a literal. A break has the level of what stands behind it: how many collections
enclose it. -/
inductive Segment where
  | text (text : String)
  | lineBreak (level : Nat)

namespace Segment

/-- A break is written as a new line in pretty layout and not at all in dense layout. -/
def write (pretty : Bool) (indent depth : Nat) : Segment → String
  | .text t => t
  | .lineBreak level =>
    if pretty then "\n" ++ String.ofList (List.replicate (indent * (depth + level)) ' ') else ""

def writeAll (pretty : Bool) (indent depth : Nat) (segments : List Segment) : String :=
  String.join (segments.map (write pretty indent depth))

section

variable (pretty : Bool) (indent depth : Nat)

@[simp] theorem writeAll_nil : writeAll pretty indent depth [] = "" := by
  simp [writeAll]

@[simp] theorem writeAll_cons (segment : Segment) (rest : List Segment) :
    writeAll pretty indent depth (segment :: rest) =
      segment.write pretty indent depth ++ writeAll pretty indent depth rest := by
  simp [writeAll]

@[simp] theorem writeAll_append (first second : List Segment) :
    writeAll pretty indent depth (first ++ second) =
      writeAll pretty indent depth first ++ writeAll pretty indent depth second := by
  simp [writeAll]

theorem writeAll_intercalate (separator : String) (parts : List (List Segment)) :
    writeAll pretty indent depth ([Segment.text separator].intercalate parts) =
      separator.intercalate (parts.map (writeAll pretty indent depth)) := by
  induction parts with
  | nil => simp
  | cons part rest ih =>
      cases rest with
      | nil => simp
      | cons next rest =>
          rw [List.intercalate_cons_cons, writeAll_append, writeAll_append, ih]
          simp [String.intercalate_cons_cons, write, String.append_assoc]

end

end Segment

namespace Content

/-- The segment of a key, together with the arrow behind it. -/
def keySegments : Option Scalar → List Segment
  | none => []
  | some key => [.text (key.literal ++ " => ")]

mutual

/-- The segments of a literal that so many collections enclose. -/
def segments (level : Nat) : Content → List Segment
  | .scalar s => [.text s.literal]
  | .array entries =>
    .text "array(" :: [Segment.text ", "].intercalate (entrySegments (level + 1) entries) ++
      [.lineBreak level, .text ")"]

/-- The segments of each entry of a collection: a break, the key if there is one, and the value. -/
def entrySegments (level : Nat) : List (Option Scalar × Content) → List (List Segment)
  | [] => []
  | (key, c) :: rest =>
    (.lineBreak level :: keySegments key ++ c.segments level) :: entrySegments level rest

end

theorem entrySegments_eq_map (level : Nat) (entries : List (Option Scalar × Content)) :
    entrySegments level entries = entries.map fun entry =>
      .lineBreak level :: keySegments entry.1 ++ entry.2.segments level := by
  induction entries with
  | nil => rfl
  | cons entry rest ih => simp [entrySegments, ih]

/-- The literal of a content that so many collections enclose. -/
def literal (pretty : Bool) (indent depth level : Nat) (c : Content) : String :=
  Segment.writeAll pretty indent depth (c.segments level)

end Content

namespace Renderer

mutual

/-- The literal of a content at a depth. -/
def text (r : Renderer) (depth : Int) : Content → String
  | .scalar s => s.literal
  | .array entries => r.array depth (r.entryTexts (depth + 1) entries)

/-- The entries of an array, each on a line of its own in pretty layout. -/
def entryTexts (r : Renderer) (depth : Int) : List (Option Scalar × Content) → List String
  | [] => []
  | (key, c) :: rest =>
    r.line depth (key.elim "" (·.literal ++ " => ") ++ r.text depth c) :: r.entryTexts depth rest

end

variable {r : Renderer} {indent : Nat}

theorem entryTexts_eq_map (depth : Int) (entries : List (Option Scalar × Content)) :
    r.entryTexts depth entries = entries.map fun entry =>
      r.line depth (entry.1.elim "" (·.literal ++ " => ") ++ r.text depth entry.2) := by
  induction entries with
  | nil => rfl
  | cons entry rest ih => simp [entryTexts, ih]

theorem text_ofItems (depth : Int) (items : List Content) :
    r.text depth (.ofItems items) =
      r.array depth (items.map fun c => r.line (depth + 1) (r.text (depth + 1) c)) := by
  simp [Content.ofItems, text, entryTexts_eq_map, Function.comp_def]

theorem text_ofPairs (depth : Int) (pairs : List (Scalar × Content)) :
    r.text depth (.ofPairs pairs) = r.array depth (pairs.map fun pair =>
      r.line (depth + 1) (pair.1.literal ++ " => " ++ r.text (depth + 1) pair.2)) := by
  simp [Content.ofPairs, text, entryTexts_eq_map, Function.comp_def]

/-- A line of its own is a break and the text behind it. -/
theorem line_eq_write (hindent : r.indent = indent)
    (depth level : Nat) (text : String) :
    r.line (depth + level) text =
      (Segment.lineBreak level).write r.pretty indent depth ++ text := by
  have hspaces : (((depth : Int) + level) * indent).toNat = indent * (depth + level) := by
    rw [Int.mul_comm]
    exact Int.toNat_natCast (indent * (depth + level))
  unfold line Segment.write
  rw [hindent, hspaces]
  cases r.pretty <;> simp

/-- The literal at a depth is written with a break for each line of its own. -/
theorem text_eq_literal (hindent : r.indent = indent) (depth level : Nat) (c : Content) :
    r.text (depth + level) c = c.literal r.pretty indent depth level := by
  induction c generalizing level with
  | scalar s => simp [text, Content.literal, Content.segments, Segment.write]
  | array entries ih =>
      have hentry : ∀ entry ∈ entries,
          r.line (depth + (level + 1 : Nat)) (entry.1.elim "" (·.literal ++ " => ") ++
            r.text (depth + (level + 1 : Nat)) entry.2) =
          Segment.writeAll r.pretty indent depth (.lineBreak (level + 1) ::
            Content.keySegments entry.1 ++ entry.2.segments (level + 1)) := by
        intro entry hmem
        rw [ih entry hmem, line_eq_write hindent]
        cases entry.1 <;>
          simp [Content.literal, Content.keySegments, Segment.write, String.append_assoc]
      have hdepth : (depth : Int) + level + 1 = depth + (level + 1 : Nat) := by omega
      rw [text, hdepth, entryTexts_eq_map, List.map_congr_left hentry]
      simp only [array, Content.literal, Content.segments, Content.entrySegments_eq_map,
        Segment.writeAll_append, Segment.writeAll_cons, Segment.writeAll_intercalate,
        Segment.writeAll_nil, List.map_map, line_eq_write hindent]
      simp [Function.comp_def, Segment.write, String.append_assoc]

/-! ### Rendering as gathering and writing -/

theorem map_included {α β : Type} (f : α → β) (r : Renderer) (chain : List String) (depth : Int)
    (name : String) (empty : α) (root : List String → Document → Run α) :
    f <$> r.included chain depth name empty root =
      r.included chain depth name (f empty) fun chain d => f <$> root chain d := by
  unfold included
  dsimp only
  split
  · exact Run.map_fail f _
  · simp only [map_bind]
    rcases r.source.load (Path.join r.includeDir name) with _ | _ | document <;> simp

theorem deeper_included {α : Type} (levels : Int) (r : Renderer) (chain : List String)
    (depth : Int) (name : String) (empty : α) (root : List String → Document → Run α) :
    (r.included chain depth name empty root).deeper levels =
      r.included chain (levels + depth) name empty fun chain d => (root chain d).deeper levels := by
  unfold included
  dsimp only
  split
  · exact Run.deeper_fail levels _
  · simp only [Run.deeper_bind, Run.deeper_note, Note.deeper]
    rcases r.source.load (Path.join r.includeDir name) with _ | _ | document <;> simp

/-- An include is read in the same way in every layout. -/
theorem included_eq_reader {α : Type} (hindent : 0 ≤ r.indent) :
    @included α r = (r.source.reader r.includeDir).included := by
  have hr : r.checked = .ok r := checked_ok hindent
  have hreader : (r.source.reader r.includeDir).checked = .ok (r.source.reader r.includeDir) :=
    checked_ok (Int.le_refl 0)
  funext chain depth name empty root
  simp only [included, hr, hreader]
  rfl

theorem map_enter {α β : Type} (f : α → β) (shape : Shape) (tag : String) (id : NodeId)
    (active : List NodeId) (inside : List NodeId → Run α) :
    f <$> enter shape tag id active inside =
      enter shape tag id active fun active => f <$> inside active := by
  unfold enter
  split
  · exact Run.map_fail f _
  · split
    · exact Run.map_fail f _
    · rfl

theorem deeper_enter {α : Type} (levels : Int) (shape : Shape) (tag : String) (id : NodeId)
    (active : List NodeId) (inside : List NodeId → Run α) :
    (enter shape tag id active inside).deeper levels =
      enter shape tag id active fun active => (inside active).deeper levels := by
  unfold enter
  split
  · rfl
  · split <;> rfl

/-- What is noted about a scalar says nothing of its depth. -/
@[simp] theorem deeper_gatherScalar (levels : Int) (s : Scalar) :
    (gatherScalar s).deeper levels = gatherScalar s := by
  unfold gatherScalar renderScalar
  rcases h : Literal.ofText (Literal.kindOf s.tag) s.value with (_ | _) | literal <;>
    simp [h, Note.deeper]

@[simp] theorem deeper_gatherKey (levels : Int) (key : Node) :
    (gatherKey key).deeper levels = gatherKey key := by
  cases key with
  | scalar s =>
      simp only [gatherKey]
      split
      · rfl
      · exact deeper_gatherScalar levels s
  | _ => rfl

/-- What is gathered at another depth is the same, with other notes. -/
theorem gather_deeper (source : Source) (dir : String) (depth : Int) (levels : Nat)
    (chain : List String) (g : Graph) (active : List NodeId) (level : Int) (id : NodeId) :
    (source.gather dir levels chain g active level id).deeper depth =
      source.gather dir levels chain g active (depth + level) id := by
  induction levels generalizing chain g active level id with
  | zero => simp [Source.gather]
  | succ levels ih =>
      cases hnode : g.node id with
      | scalar s =>
          by_cases htag : s.tag = includeTag
          · simp only [Source.gather, hnode, if_pos htag, deeper_included, ih]
          · simp only [Source.gather, hnode, if_neg htag, Run.deeper_map, deeper_gatherScalar]
      | sequence tag items =>
          simp only [Source.gather, hnode, deeper_enter, ih, Run.deeper_map, Run.deeper_mapM,
            Int.add_assoc]
      | mapping tag pairs =>
          simp only [Source.gather, hnode, deeper_enter, ih, Run.deeper_map, Run.deeper_mapM,
            Run.deeper_bind, Run.deeper_pure, deeper_gatherKey, Int.add_assoc]
      | bare tag =>
          simp only [Source.gather, hnode]
          split <;> simp
      | foreign => simp [Source.gather, hnode]

/-- A rendering gathers the content and writes its literal, at any depth. -/
theorem node_eq_gather (hindent : 0 ≤ r.indent) (levels : Nat) (chain : List String) (g : Graph)
    (active : List NodeId) (depth : Int) (id : NodeId) :
    r.node levels chain g active depth id =
      r.text depth <$> r.source.gather r.includeDir levels chain g active depth id := by
  induction levels generalizing chain g active depth id with
  | zero => simp [node, Source.gather]
  | succ levels ih =>
      cases hnode : g.node id with
      | scalar s =>
          by_cases htag : s.tag = includeTag
          · simp only [node, Source.gather, hnode, if_pos htag, map_included,
              included_eq_reader hindent, ih]
            rfl
          · simp only [node, Source.gather, hnode, if_neg htag, renderScalar_eq_gatherScalar,
              Functor.map_map]
            rfl
      | sequence tag items =>
          simp only [node, Source.gather, hnode, map_enter, ih, bind_pure_comp, Functor.map_map,
            Run.mapM_map_result]
          congr! 3
          exact funext fun items => (text_ofItems depth items).symm
      | mapping tag pairs =>
          -- A pair is laid out after its key and its value have been gathered.
          have hpair (active : List NodeId) (pair : NodeId × NodeId) :
              r.pair (depth + 1) (g.node pair.1)
                (fun _ => r.node levels chain g active (depth + 1) pair.2) =
              (fun entry : Scalar × Content => r.line (depth + 1)
                (entry.1.literal ++ " => " ++ r.text (depth + 1) entry.2)) <$> (do
                let key ← gatherKey (g.node pair.1)
                let value ← r.source.gather r.includeDir levels chain g active (depth + 1) pair.2
                return (key, value)) := by
            simp only [Renderer.pair, renderKey_eq_gatherKey, ih, bind_pure_comp, bind_map_left,
              map_bind, Functor.map_map]
          simp only [node, Source.gather, hnode, map_enter, hpair, Run.mapM_map_result,
            bind_pure_comp, Functor.map_map]
          congr! 3
          exact funext fun pairs => (text_ofPairs depth pairs).symm
      | bare tag =>
          simp only [node, Source.gather, hnode]
          split <;> simp
      | foreign => simp [node, Source.gather, hnode]

theorem renderWithin_eq_gather (source : Source) (dir : String) (chain : List String)
    (pretty : Bool) (indent depth levels : Nat) (g : Graph) (id : NodeId) :
    (⟨dir, pretty, indent, depth, chain, source⟩ : Renderer).renderWithin levels g id =
      Content.literal pretty indent depth 0 <$>
        (source.gather dir levels chain g [] 0 id).deeper depth := by
  have htext := funext (text_eq_literal
    (r := ⟨dir, pretty, indent, depth, chain, source⟩) rfl depth 0)
  rw [gather_deeper, ← htext]
  exact node_eq_gather (Int.natCast_nonneg indent) levels chain g [] depth id

/-- A layout changes nothing but the breaks. Either a rendering fails in every layout, at every
depth and in the same way, or there is one list of segments that every layout writes; and the same
documents are asked for in the same order. -/
theorem layout_changes_breaks_only (source : Source) (dir : String) (chain : List String)
    (levels : Nat) (g : Graph) (id : NodeId) :
    (∃ failure loads, ∀ (pretty : Bool) (indent depth : Nat),
      let run := (⟨dir, pretty, indent, depth, chain, source⟩ : Renderer).renderWithin levels g id
      run.outcome = .error failure ∧ run.loads = loads) ∨
    (∃ content loads, source.HasContent dir ⟨g, id⟩ content ∧
      ∀ (pretty : Bool) (indent depth : Nat),
        let run := (⟨dir, pretty, indent, depth, chain, source⟩ : Renderer).renderWithin levels g id
        run.outcome = .ok (Segment.writeAll pretty indent depth (content.segments 0)) ∧
          run.loads = loads) := by
  simp only [renderWithin_eq_gather, Run.loads_map, Run.loads_deeper, Run.outcome_map,
    Run.outcome_deeper]
  cases h : (source.gather dir levels chain g [] 0 id).outcome with
  | error failure =>
      exact .inl ⟨failure, _, fun _ _ _ => ⟨rfl, rfl⟩⟩
  | ok content =>
      exact .inr ⟨content, _, Source.hasContent_of_gather h, fun _ _ _ => ⟨rfl, rfl⟩⟩

end Renderer

end PhpArray

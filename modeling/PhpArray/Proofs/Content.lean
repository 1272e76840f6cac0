import PhpArray.Proofs.Run
import PhpArray.Render

/-!
What a document says, apart from how it is written down: no aliases, no includes, no pairs of merge
keys. `HasContent` defines the content of a document by what its root refers to, and `gather` finds
it in the order of a rendering, with the same notes and failures. The main statements are that a
document has at most one content, and that what is gathered is the content.
-/

namespace PhpArray

open Yaml

/-- The content of a document: a scalar, or entries, where an item of a sequence has no key. -/
inductive Content where
  | scalar (scalar : Scalar)
  | array (entries : List (Option Scalar × Content))

namespace Content

@[elab_as_elim, induction_eliminator]
theorem induct {motive : Content → Prop} (scalar : ∀ s, motive (.scalar s))
    (array : ∀ entries, (∀ entry ∈ entries, motive entry.2) → motive (.array entries))
    (c : Content) : motive c :=
  Content.rec (motive_1 := motive) (motive_2 := fun entries => ∀ entry ∈ entries, motive entry.2)
    (motive_3 := fun entry => motive entry.2) scalar array (by simp)
    (fun _ _ hhead htail => List.forall_mem_cons.2 ⟨hhead, htail⟩) (fun _ _ h => h) c

def ofItems (items : List Content) : Content :=
  .array (items.map fun c => (none, c))

def ofPairs (pairs : List (Scalar × Content)) : Content :=
  .array (pairs.map fun pair => (some pair.1, pair.2))

mutual

/-- The scalars of a content, those that are keys included. -/
def scalars : Content → List Scalar
  | .scalar s => [s]
  | .array entries => entryScalars entries

def entryScalars : List (Option Scalar × Content) → List Scalar
  | [] => []
  | (key, c) :: rest => key.toList ++ c.scalars ++ entryScalars rest

end

theorem mem_scalars_array {entries : List (Option Scalar × Content)} {s : Scalar} :
    s ∈ (array entries).scalars ↔ ∃ entry ∈ entries, entry.1 = some s ∨ s ∈ entry.2.scalars := by
  have hentries : s ∈ entryScalars entries ↔
      ∃ entry ∈ entries, entry.1 = some s ∨ s ∈ entry.2.scalars := by
    induction entries with
    | nil => simp [entryScalars]
    | cons entry rest ih => simp [entryScalars, ih, or_assoc]
  rw [scalars]
  exact hentries

theorem mem_scalars_ofItems {items : List Content} {s : Scalar} :
    s ∈ (ofItems items).scalars ↔ ∃ c ∈ items, s ∈ c.scalars := by
  simp [ofItems, mem_scalars_array]

theorem mem_scalars_ofPairs {pairs : List (Scalar × Content)} {s : Scalar} :
    s ∈ (ofPairs pairs).scalars ↔ ∃ pair ∈ pairs, pair.1 = s ∨ s ∈ pair.2.scalars := by
  rw [ofPairs, mem_scalars_array]
  constructor
  · rintro ⟨entry, hentry, h⟩
    obtain ⟨pair, hpair, rfl⟩ := List.mem_map.1 hentry
    exact ⟨pair, hpair, h.imp Option.some.inj id⟩
  · rintro ⟨pair, hpair, h⟩
    exact ⟨_, List.mem_map_of_mem hpair, h.imp (congrArg some) id⟩

theorem sizeOf_lt_of_mem_items {items : List Content} {c : Content} (h : c ∈ items) :
    sizeOf c < sizeOf (ofItems items) := by
  have hmem : ((none : Option Scalar), c) ∈ items.map fun c => ((none : Option Scalar), c) :=
    List.mem_map_of_mem h
  have hlt := List.sizeOf_lt_of_mem hmem
  simp only [ofItems, array.sizeOf_spec, Prod.mk.sizeOf_spec] at hlt ⊢
  omega

theorem sizeOf_lt_of_mem_pairs {pairs : List (Scalar × Content)} {pair : Scalar × Content}
    (h : pair ∈ pairs) : sizeOf pair.2 < sizeOf (ofPairs pairs) := by
  have hmem : (some pair.1, pair.2) ∈ pairs.map fun pair => (some pair.1, pair.2) :=
    List.mem_map_of_mem h
  have hlt := List.sizeOf_lt_of_mem hmem
  simp only [ofPairs, array.sizeOf_spec, Prod.mk.sizeOf_spec] at hlt ⊢
  omega

end Content

/-- The scalar that stands for an empty document. -/
def nullScalar : Scalar := ⟨coreTag "null", ""⟩

def nullDocument : Document := ⟨⟨#[.scalar nullScalar]⟩, 0⟩

namespace Source

/-- The path that an include is known by on a chain. -/
def target (source : Source) (dir name : String) : String :=
  Path.absolute source.home (Path.join dir name)

/-- The document that an include names; an empty one is null. -/
def included? (source : Source) (dir name : String) : Option Document :=
  match source.load (Path.join dir name) with
  | .ok (some document) => some document
  | .ok none => some nullDocument
  | .error _ => none

theorem included?_of_load {source : Source} {dir name : String} {d : Document}
    (h : source.load (Path.join dir name) = .ok (some d)) : source.included? dir name = some d := by
  simp [included?, h]

theorem included?_of_empty {source : Source} {dir name : String}
    (h : source.load (Path.join dir name) = .ok none) :
    source.included? dir name = some nullDocument := by
  simp [included?, h]

/-- The content of a document whose includes are read from a directory. Nodes may be shared, but
every way down ends. -/
inductive HasContent (source : Source) (dir : String) : Document → Content → Prop
  | scalar {g : Graph} {id : NodeId} {s : Scalar} :
      g.node id = .scalar s → s.tag ≠ includeTag → HasContent source dir ⟨g, id⟩ (.scalar s)
  | included {g : Graph} {id : NodeId} {s : Scalar} {d : Document} {c : Content} :
      g.node id = .scalar s → s.tag = includeTag → source.included? dir s.value = some d →
      HasContent source dir d c → HasContent source dir ⟨g, id⟩ c
  | sequence {g : Graph} {id : NodeId} {tag : String} {items : List NodeId}
      {contents : List Content} :
      g.node id = .sequence tag items → tag ≠ includeTag →
      List.Forall₂ (HasContent source dir) (items.map fun item => ⟨g, item⟩) contents →
      HasContent source dir ⟨g, id⟩ (.ofItems contents)
  | mapping {g : Graph} {id : NodeId} {tag : String} {pairs : List (NodeId × NodeId)}
      {entries : List (Scalar × Content)} :
      g.node id = .mapping tag pairs → tag ≠ includeTag →
      List.Forall₂ (fun pair key => g.node pair.1 = .scalar key ∧ key.tag ≠ includeTag)
        (g.kept pairs) (entries.map Prod.fst) →
      List.Forall₂ (HasContent source dir) ((g.kept pairs).map fun pair => ⟨g, pair.2⟩)
        (entries.map Prod.snd) →
      HasContent source dir ⟨g, id⟩ (.ofPairs entries)

/-- Induction over the ways down from a node, with the hypothesis for each item and value. -/
@[elab_as_elim]
theorem HasContent.induct {source : Source} {dir : String}
    {motive : ∀ d c, source.HasContent dir d c → Prop}
    (scalar : ∀ {g : Graph} {id : NodeId} {s : Scalar} (hnode : g.node id = .scalar s)
      (htag : s.tag ≠ includeTag),
      motive ⟨g, id⟩ (.scalar s) (.scalar hnode htag))
    (included : ∀ {g : Graph} {id : NodeId} {s : Scalar} {d : Document} {c : Content}
      (hnode : g.node id = .scalar s) (htag : s.tag = includeTag)
      (hload : source.included? dir s.value = some d) (h : source.HasContent dir d c),
      motive d c h → motive ⟨g, id⟩ c (.included hnode htag hload h))
    (sequence : ∀ {g : Graph} {id : NodeId} {tag : String} {items : List NodeId}
      {contents : List Content} (hnode : g.node id = .sequence tag items)
      (htag : tag ≠ includeTag) (hitems : List.Forall₂ (source.HasContent dir)
        (items.map fun item => ⟨g, item⟩) contents),
      List.Forall₂ (fun d c => ∃ h, motive d c h) (items.map fun item => ⟨g, item⟩) contents →
      motive ⟨g, id⟩ (.ofItems contents) (.sequence hnode htag hitems))
    (mapping : ∀ {g : Graph} {id : NodeId} {tag : String} {pairs : List (NodeId × NodeId)}
      {entries : List (Scalar × Content)} (hnode : g.node id = .mapping tag pairs)
      (htag : tag ≠ includeTag)
      (hkeys : List.Forall₂ (fun pair key => g.node pair.1 = .scalar key ∧ key.tag ≠ includeTag)
        (g.kept pairs) (entries.map Prod.fst))
      (hvalues : List.Forall₂ (source.HasContent dir)
        ((g.kept pairs).map fun pair => ⟨g, pair.2⟩) (entries.map Prod.snd)),
      List.Forall₂ (fun d c => ∃ h, motive d c h)
        ((g.kept pairs).map fun pair => ⟨g, pair.2⟩) (entries.map Prod.snd) →
      motive ⟨g, id⟩ (.ofPairs entries) (.mapping hnode htag hkeys hvalues))
    {d : Document} {c : Content} (h : source.HasContent dir d c) : motive d c h :=
  HasContent.rec (motive_1 := motive)
    (motive_2 := fun ds cs _ => List.Forall₂ (fun d c => ∃ h, motive d c h) ds cs)
    @scalar @included @sequence @mapping .nil (fun h _ ih ihs => .cons ⟨h, ih⟩ ihs) h

/-- Lists that are related to one list are related to each other. -/
theorem forall₂_of_common {α β γ : Type} {R : α → β → Prop} {S : α → γ → Prop}
    {T : β → γ → Prop} {as : List α} {bs : List β} {cs : List γ} (hR : List.Forall₂ R as bs)
    (hS : List.Forall₂ S as cs) (h : ∀ a b, ∀ c ∈ cs, R a b → S a c → T b c) :
    List.Forall₂ T bs cs := by
  induction hR generalizing cs with
  | nil => cases hS; exact .nil
  | cons hhead _ ih =>
      cases hS with
      | cons hhead' htail' =>
          exact .cons (h _ _ _ (by simp) hhead hhead')
            (ih htail' fun a b c hc => h a b c (by simp [hc]))

private theorem forall₂_unique {α β : Type} {R S : α → β → Prop} {as : List α} {bs cs : List β}
    (hb : List.Forall₂ R as bs) (hc : List.Forall₂ S as cs)
    (h : ∀ a b c, R a b → S a c → b = c) : bs = cs := by
  rw [← List.forall₂_eq_eq_eq]
  exact forall₂_of_common hb hc fun a b c _ => h a b c

theorem forall₂_exists_of_mem {α β : Type} {R : α → β → Prop} {as : List α} {bs : List β}
    (h : List.Forall₂ R as bs) {b : β} (hb : b ∈ bs) : ∃ a ∈ as, R a b := by
  obtain ⟨i, hi, rfl⟩ := List.getElem_of_mem hb
  have hi' : i < as.length := h.length_eq ▸ hi
  exact ⟨as[i], List.getElem_mem hi', h.get hi' hi⟩

theorem forall₂_imp_of_mem {α β : Type} {R S : α → β → Prop} {as : List α} {bs : List β}
    (h : List.Forall₂ R as bs) (himp : ∀ a, ∀ b ∈ bs, R a b → S a b) : List.Forall₂ S as bs := by
  induction h with
  | nil => exact .nil
  | cons hhead _ ih =>
      exact .cons (himp _ _ (by simp) hhead) (ih fun a b hb => himp a b (by simp [hb]))

/-- A document has at most one content. -/
theorem HasContent.unique {source : Source} {dir : String} {d : Document} {c c' : Content}
    (hc : source.HasContent dir d c) (hc' : source.HasContent dir d c') : c = c' := by
  induction hc using HasContent.induct generalizing c' with
  | scalar hnode htag =>
      cases hc' <;> simp_all
  | included hnode htag hload _ ih =>
      cases hc' with
      | included hnode' _ hload' h' =>
          cases hnode.symm.trans hnode'
          cases hload.symm.trans hload'
          exact ih h'
      | _ => simp_all
  | sequence hnode htag _ ih =>
      cases hc' with
      | sequence hnode' _ hitems' =>
          cases hnode.symm.trans hnode'
          rw [forall₂_unique ih hitems' fun _ _ _ ⟨_, h⟩ h' => h h']
      | _ => simp_all
  | mapping hnode htag hkeys _ ih =>
      cases hc' with
      | mapping hnode' _ hkeys' hvalues' =>
          cases hnode.symm.trans hnode'
          have hkey := forall₂_unique hkeys hkeys' fun _ _ _ h h' =>
            Node.scalar.inj (h.1.symm.trans h'.1)
          have hvalue := forall₂_unique ih hvalues' fun _ _ _ ⟨_, h⟩ h' => h h'
          rw [List.zip_of_prod hkey hvalue, ← List.zip_of_prod rfl rfl]
      | _ => simp_all

end Source

namespace Yaml.Scalar

/-- The literal of a scalar; a text that is none of its kind is null. -/
def literal (s : Scalar) : String :=
  match Literal.ofText (Literal.kindOf s.tag) s.value with
  | .ok literal => literal
  | .error _ => "null"

/-- A scalar is rendered, unless its text is a number out of range. -/
def HasLiteral (s : Scalar) : Prop :=
  Literal.ofText (Literal.kindOf s.tag) s.value ≠ .error .outOfRange

end Yaml.Scalar

/-- Keeps a scalar of which the literal has been made. -/
def gatherScalar (s : Scalar) : Run Scalar :=
  (fun _ => s) <$> renderScalar s

def gatherKey (key : Node) : Run Scalar :=
  match key with
  | .scalar s => if s.tag = includeTag then Run.fail (.unsupported .scalar .includeKey)
    else gatherScalar s
  | key => Run.fail (.unsupported key.shape .collectionKey)

theorem renderScalar_eq_gatherScalar (s : Scalar) :
    renderScalar s = Scalar.literal <$> gatherScalar s := by
  unfold gatherScalar renderScalar Scalar.literal
  rcases h : Literal.ofText (Literal.kindOf s.tag) s.value with (_ | _) | literal <;> simp [h]

theorem renderKey_eq_gatherKey (key : Node) :
    Renderer.renderKey key = Scalar.literal <$> gatherKey key := by
  cases key with
  | scalar s =>
      simp only [gatherKey, Renderer.renderKey]
      split
      · simp
      · exact renderScalar_eq_gatherScalar s
  | _ => simp [gatherKey, Renderer.renderKey]

theorem gatherScalar_ok_iff {s t : Scalar} :
    (gatherScalar s).outcome = .ok t ↔ s.HasLiteral ∧ t = s := by
  unfold gatherScalar renderScalar Scalar.HasLiteral
  rcases h : Literal.ofText (Literal.kindOf s.tag) s.value with (_ | _) | literal <;>
    simp [h, Run.outcome_map, Except.map, eq_comm]

theorem gatherKey_ok_iff {key : Node} {t : Scalar} :
    (gatherKey key).outcome = .ok t ↔ key = .scalar t ∧ t.tag ≠ includeTag ∧ t.HasLiteral := by
  cases key with
  | scalar s =>
      simp only [gatherKey, Node.scalar.injEq]
      by_cases htag : s.tag = includeTag
      · rw [if_pos htag]
        constructor
        · simp
        · rintro ⟨rfl, hother, -⟩
          exact absurd htag hother
      · rw [if_neg htag, gatherScalar_ok_iff]
        constructor
        · rintro ⟨hliteral, rfl⟩
          exact ⟨rfl, htag, hliteral⟩
        · rintro ⟨rfl, -, hliteral⟩
          exact ⟨hliteral, rfl⟩
  | _ => simp [gatherKey]

namespace Renderer

variable {α : Type}

theorem checked_ok {r : Renderer} (hindent : 0 ≤ r.indent) : r.checked = .ok r :=
  if_neg (Int.not_lt.2 hindent)

theorem included_ok_iff {r : Renderer} {chain : List String} {depth : Int} {name : String}
    {empty : α} {root : List String → Document → Run α} {a : α} (hindent : 0 ≤ r.indent) :
    (r.included chain depth name empty root).outcome = .ok a ↔
      r.source.target r.includeDir name ∉ chain ∧
      ((r.source.load (Path.join r.includeDir name) = .ok none ∧ a = empty) ∨
        ∃ d, r.source.load (Path.join r.includeDir name) = .ok (some d) ∧
          (root (chain ++ [r.source.target r.includeDir name]) d).outcome = .ok a) := by
  unfold included Source.target
  dsimp only
  split
  next hmem => simp [hmem]
  next hmem =>
    simp only [Run.bind_ok_iff, hmem, checked_ok hindent]
    rcases r.source.load (Path.join r.includeDir name) with _ | _ | document <;> simp [eq_comm]

theorem enter_ok_iff {shape : Shape} {tag : String} {id : NodeId} {active : List NodeId}
    {inside : List NodeId → Run α} {a : α} :
    (enter shape tag id active inside).outcome = .ok a ↔
      tag ≠ includeTag ∧ id ∉ active ∧ (inside (id :: active)).outcome = .ok a := by
  unfold enter
  split
  · simp_all
  · split <;> simp_all

end Renderer

namespace Source

/-- A renderer that only reads documents. -/
def reader (source : Source) (dir : String) : Renderer :=
  ⟨dir, false, 0, 0, [], source⟩

/-- The content of a node, found in the order of a rendering with its notes and failures. -/
def gather (source : Source) (dir : String) :
    Nat → List String → Graph → List NodeId → Int → NodeId → Run Content
  | 0, _, _, _, _, _ => Run.fail .nesting
  | levels + 1, chain, g, active, depth, id =>
    match g.node id with
    | .scalar s =>
      if s.tag = includeTag then
        (source.reader dir).included chain depth s.value (.scalar nullScalar) fun chain d =>
          source.gather dir levels chain d.graph [] depth d.root
      else Content.scalar <$> gatherScalar s
    | .sequence tag items =>
      Renderer.enter .sequence tag id active fun active =>
        Content.ofItems <$> items.mapM (source.gather dir levels chain g active (depth + 1))
    | .mapping tag pairs =>
      Renderer.enter .mapping tag id active fun active =>
        Content.ofPairs <$> (g.kept pairs).mapM fun (key, value) => do
          let key ← gatherKey (g.node key)
          let value ← source.gather dir levels chain g active (depth + 1) value
          return (key, value)
    | .bare tag =>
      if tag = includeTag then Run.fail (.unsupported .bare .includeWithoutPath)
      else Run.fail (.unsupported .bare .shape)
    | .foreign => Run.fail (.unsupported .foreign .shape)

variable {source : Source} {dir : String}

/-- What a node is that has been gathered, and how its parts were. -/
theorem gather_ok_cases {levels : Nat} {chain : List String} {g : Graph} {active : List NodeId}
    {depth : Int} {id : NodeId} {c : Content}
    (h : (source.gather dir (levels + 1) chain g active depth id).outcome = .ok c) :
    (∃ s, g.node id = .scalar s ∧ s.tag ≠ includeTag ∧ s.HasLiteral ∧ c = .scalar s) ∨
    (∃ s d, g.node id = .scalar s ∧ s.tag = includeTag ∧
      source.target dir s.value ∉ chain ∧ source.included? dir s.value = some d ∧
      (d = nullDocument ∧ c = .scalar nullScalar ∨
        (source.gather dir levels (chain ++ [source.target dir s.value]) d.graph [] depth
          d.root).outcome = .ok c)) ∨
    (∃ tag items contents, g.node id = .sequence tag items ∧ tag ≠ includeTag ∧ id ∉ active ∧
      c = .ofItems contents ∧ List.Forall₂ (fun item c =>
        (source.gather dir levels chain g (id :: active) (depth + 1) item).outcome = .ok c)
        items contents) ∨
    (∃ tag pairs entries, g.node id = .mapping tag pairs ∧ tag ≠ includeTag ∧ id ∉ active ∧
      c = .ofPairs entries ∧ List.Forall₂ (fun pair entry =>
        (g.node pair.1 = .scalar entry.1 ∧ entry.1.tag ≠ includeTag ∧ entry.1.HasLiteral) ∧
        (source.gather dir levels chain g (id :: active) (depth + 1) pair.2).outcome = .ok entry.2)
        (g.kept pairs) entries) := by
  cases hnode : g.node id with
  | scalar s =>
      by_cases htag : s.tag = includeTag
      · simp only [gather, hnode, if_pos htag] at h
        obtain ⟨htarget, hload⟩ := (Renderer.included_ok_iff (Int.le_refl 0)).1 h
        refine .inr (.inl ⟨s, ?_⟩)
        rcases hload with ⟨hempty, hc⟩ | ⟨d, hload, hroot⟩
        · exact ⟨nullDocument, rfl, htag, htarget, included?_of_empty hempty, .inl ⟨rfl, hc⟩⟩
        · exact ⟨d, rfl, htag, htarget, included?_of_load hload, .inr hroot⟩
      · simp only [gather, hnode, if_neg htag, Run.map_ok_iff, gatherScalar_ok_iff] at h
        obtain ⟨s', ⟨hliteral, rfl⟩, hc⟩ := h
        exact .inl ⟨s', rfl, htag, hliteral, hc.symm⟩
  | sequence tag items =>
      simp only [gather, hnode, Renderer.enter_ok_iff, Run.map_ok_iff, Run.mapM_ok_iff] at h
      obtain ⟨htag, hactive, contents, hitems, hc⟩ := h
      exact .inr (.inr (.inl ⟨tag, items, contents, rfl, htag, hactive, hc.symm, hitems⟩))
  | mapping tag pairs =>
      simp only [gather, hnode, Renderer.enter_ok_iff, Run.map_ok_iff, Run.mapM_ok_iff,
        Run.bind_ok_iff, gatherKey_ok_iff] at h
      obtain ⟨htag, hactive, entries, hpairs, hc⟩ := h
      refine .inr (.inr (.inr ⟨tag, pairs, entries, rfl, htag, hactive, hc.symm, ?_⟩))
      refine hpairs.imp fun pair entry ⟨key, hkey, value, hvalue, hentry⟩ => ?_
      cases hentry
      exact ⟨hkey, hvalue⟩
  | bare tag =>
      simp only [gather, hnode] at h
      split at h <;> simp at h
  | foreign => simp [gather, hnode] at h

theorem hasContent_nullDocument : source.HasContent dir nullDocument (.scalar nullScalar) :=
  .scalar rfl (by decide)

/-- What is gathered from a node is its content. -/
theorem hasContent_of_gather {levels : Nat} {chain : List String} {g : Graph}
    {active : List NodeId} {depth : Int} {id : NodeId} {c : Content}
    (h : (source.gather dir levels chain g active depth id).outcome = .ok c) :
    source.HasContent dir ⟨g, id⟩ c := by
  induction levels generalizing chain g active depth id c with
  | zero => simp [gather] at h
  | succ levels ih =>
      rcases gather_ok_cases h with ⟨s, hnode, htag, -, rfl⟩ |
        ⟨s, d, hnode, htag, -, hload, hroot⟩ | ⟨tag, items, contents, hnode, htag, -, rfl, hitems⟩ |
        ⟨tag, pairs, entries, hnode, htag, -, rfl, hpairs⟩
      · exact .scalar hnode htag
      · apply HasContent.included hnode htag hload
        rcases hroot with ⟨rfl, rfl⟩ | hroot
        · exact hasContent_nullDocument
        · exact ih hroot
      · apply HasContent.sequence hnode htag
        rw [List.forall₂_map_left_iff]
        exact hitems.imp fun _ _ hitem => ih hitem
      · refine .mapping hnode htag ?_ ?_
        · rw [List.forall₂_map_right_iff]
          exact hpairs.imp fun _ _ hpair => ⟨hpair.1.1, hpair.1.2.1⟩
        · rw [List.forall₂_map_left_iff, List.forall₂_map_right_iff]
          exact hpairs.imp fun _ _ hpair => ih hpair.2

theorem hasLiteral_nullScalar : nullScalar.HasLiteral := by
  unfold Scalar.HasLiteral
  decide

/-- What is gathered has only scalars that are rendered. -/
theorem hasLiteral_of_gather {levels : Nat} {chain : List String} {g : Graph}
    {active : List NodeId} {depth : Int} {id : NodeId} {c : Content}
    (h : (source.gather dir levels chain g active depth id).outcome = .ok c) {s : Scalar}
    (hs : s ∈ c.scalars) : s.HasLiteral := by
  induction levels generalizing chain g active depth id c with
  | zero => simp [gather] at h
  | succ levels ih =>
      rcases gather_ok_cases h with ⟨s', -, -, hliteral, rfl⟩ |
        ⟨s', d, -, -, -, -, hroot⟩ | ⟨tag, items, contents, -, -, -, rfl, hitems⟩ |
        ⟨tag, pairs, entries, -, -, -, rfl, hpairs⟩
      · obtain rfl : s = s' := by simpa [Content.scalars] using hs
        exact hliteral
      · rcases hroot with ⟨-, rfl⟩ | hroot
        · obtain rfl : s = nullScalar := by simpa [Content.scalars] using hs
          exact hasLiteral_nullScalar
        · exact ih hroot hs
      · obtain ⟨c, hc, hsc⟩ := Content.mem_scalars_ofItems.1 hs
        obtain ⟨item, -, hitem⟩ := forall₂_exists_of_mem hitems hc
        exact ih hitem hsc
      · obtain ⟨entry, hentry, hcase⟩ := Content.mem_scalars_ofPairs.1 hs
        obtain ⟨pair, -, hkey, hvalue⟩ := forall₂_exists_of_mem hpairs hentry
        rcases hcase with rfl | hsc
        · exact hkey.2.2
        · exact ih hvalue hsc

end Source

end PhpArray

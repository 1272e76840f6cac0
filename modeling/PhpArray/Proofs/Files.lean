import PhpArray.Proofs.Inlining
import PhpArray.Proofs.Paths

/-!
Documents in the files of a tree. What is read from a path is decided by the place it leads to. All
paths of includes are texts of the document that is rendered or of one in a file, so there are only
so many that can be on a chain, and the budget of a renderer is enough.
-/

namespace PhpArray

open Yaml

namespace FileTree

variable {t : FileTree}

/-- What is read is in a file, at the place that the path leads to. -/
theorem exists_of_readText {path : String} {text : List Char} (h : t.readText path = .ok text) :
    ∃ place bytes raw, t.locate path = .ok place ∧ t.find? place = some (.file bytes) ∧
      Text.Utf8.decode bytes = .ok raw ∧ text = Text.unifyLineEnds raw := by
  unfold readText at h
  split at h
  · cases h
  split at h
  · cases h
  next bytes hbytes =>
    split at h
    · cases h
    next raw hraw =>
      cases h
      unfold read at hbytes
      cases hplace : t.locate path with
      | error refusal => simp [hplace, bind, Except.bind] at hbytes
      | ok place =>
          simp only [hplace, bind, Except.bind] at hbytes
          split at hbytes
          next found hfind =>
            cases hbytes
            exact ⟨place, bytes, raw, rfl, hfind, hraw, rfl⟩
          · cases hbytes
          · cases hbytes

/-- The text of a path depends on the place alone. -/
theorem readText_unique {path path' : String} {text text' : List Char}
    (h : t.readText path = .ok text) (h' : t.readText path' = .ok text')
    (hsame : t.locate path = t.locate path') : text = text' := by
  obtain ⟨place, bytes, raw, hplace, hfind, hraw, rfl⟩ := exists_of_readText h
  obtain ⟨place', bytes', raw', hplace', hfind', hraw', rfl⟩ := exists_of_readText h'
  rw [hplace, hplace'] at hsame
  cases hsame
  rw [hfind] at hfind'
  cases hfind'
  rw [hraw] at hraw'
  cases hraw'
  rfl

end FileTree

/-- A document that is there is read in the same way wherever its text comes from. -/
theorem parse_ok_iff {path : Option String} {text : List Char} {d : Option Document} :
    parse path text = .ok d ↔ Document.read text = .ok d := by
  unfold parse
  split
  next h => simp [h]
  next h => split <;> simp [h]

namespace FileTree

variable {t : FileTree}

theorem load_ok_iff {path : String} {d : Option Document} :
    t.load path = .ok d ↔ ∃ text, t.readText path = .ok text ∧ Document.read text = .ok d := by
  unfold load
  cases htext : t.readText path with
  | error failure => simp [bind, Except.bind]
  | ok text => simp [bind, Except.bind, parse_ok_iff]

/-- A document that is loaded is the document of a file. -/
theorem exists_entry_of_load {path : String} {d : Document} (h : t.load path = .ok (some d)) :
    ∃ place entry, t.locate path = .ok place ∧ (place, entry) ∈ t.entries ∧
      documentOf? entry = some d := by
  obtain ⟨text, htext, hread⟩ := load_ok_iff.1 h
  obtain ⟨place, bytes, raw, hplace, hfind, hraw, rfl⟩ := exists_of_readText htext
  refine ⟨place, .file bytes, hplace, ?_, by simp [documentOf?, hraw, hread, Except.toOption]⟩
  unfold find? at hfind
  split at hfind
  · cases hfind
  · obtain ⟨before, after, hentries, -⟩ := List.lookup_eq_some_iff.1 hfind
    simp [hentries]

theorem mem_documents {path : String} {d : Document} (h : t.load path = .ok (some d)) :
    d ∈ t.source.documents := by
  obtain ⟨_, _, -, hentry, hdocument⟩ := exists_entry_of_load h
  exact List.mem_filterMap.2 ⟨_, hentry, hdocument⟩

private theorem le_foldl_max_of_mem {n : Nat} {ns : List Nat} (h : n ∈ ns) (first : Nat) :
    n ≤ ns.foldl max first := by
  induction ns generalizing first with
  | nil => cases h
  | cons next rest ih =>
      rcases List.mem_cons.1 h with rfl | h
      · exact (le_max_right first n).trans (Renderer.le_foldl_max rest (max first n))
      · exact ih h (max first next)

/-- The text of a scalar is one of the texts of its graph. -/
theorem mem_texts {g : Graph} {id : NodeId} {s : Scalar} (h : g.node id = .scalar s) :
    s.value ∈ g.texts := by
  have hid : id < g.nodes.size := by
    by_contra hge
    simp [Graph.node, Array.getD_eq_getD_getElem?, hge] at h
  have hnode : g.nodes[id] = .scalar s := by
    simpa [Graph.node, Array.getD_eq_getD_getElem?, hid] using h
  refine List.mem_filterMap.2 ⟨.scalar s, ?_, rfl⟩
  rw [← hnode]
  simp

/-- The documents of a tree are known on a chain by the texts of the graph that is rendered and by
those of each other. -/
theorem bounded_source {r : Renderer} (hsource : r.source = t.source) (g : Graph) :
    r.source.Bounded r.includeDir (· ∈ r.texts g)
      ((r.texts g).map (r.source.target r.includeDir)).toFinset (r.mostCollections g) := by
  have hdocuments {name : String} {d : Document}
      (h : r.source.load (Path.join r.includeDir name) = .ok (some d)) :
      d ∈ r.source.documents := by
    rw [hsource] at h ⊢
    exact mem_documents h
  refine ⟨fun name d hname _ => ?_, fun name d h => ?_, fun name d h id s hnode => ?_⟩
  · exact List.mem_toFinset.2 (List.mem_map_of_mem hname)
  · have hmem : d.graph.collections ∈ r.source.documents.map fun d => d.graph.collections :=
      List.mem_map.2 ⟨d, hdocuments h, rfl⟩
    exact le_foldl_max_of_mem hmem g.collections
  · exact List.mem_append_right _ (List.mem_flatMap.2 ⟨d, hdocuments h, mem_texts hnode⟩)

/-- The budget of a renderer is enough for the documents of a tree. -/
theorem render_ne_nesting {r : Renderer} (hsource : r.source = t.source) (g : Graph)
    (id : NodeId) : (r.render g id).outcome ≠ .error .nesting := by
  have hroot : g.collections ≤ r.mostCollections g := Renderer.le_foldl_max _ _
  have hfits : Call.Fits (· ∈ r.texts g) (r.mostCollections g) ⟨r.chain, [], ⟨g, id⟩⟩ :=
    ⟨hroot, .nil, by simp, fun _ _ hnode => List.mem_append_left _ (mem_texts hnode)⟩
  have hcard : ((r.texts g).map (r.source.target r.includeDir)).toFinset.card ≤
      (r.texts g).length := by
    simpa using ((r.texts g).map (r.source.target r.includeDir)).toFinset_card_le
  have hroom : (((r.texts g).map (r.source.target r.includeDir)).toFinset.card + 1) *
      (r.mostCollections g + 1) ≤ r.budget g :=
    Nat.mul_le_mul_right _ (Nat.succ_le_succ hcard)
  exact Renderer.run_ne_nesting (bounded_source hsource g) hfits (Call.room_root_le.trans hroom)

end FileTree

end PhpArray

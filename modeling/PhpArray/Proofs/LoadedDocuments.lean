import PhpArray.Proofs.EntryPoints
import PhpArray.Proofs.Stepwise

/-!
What a conversion depends on. A rendering does nothing with its source but to ask for documents, so
what it does is decided by what it finds for the paths that it asks for. What the files of a tree
hold for a path is decided by what is at the places along the path: by the bytes of the file that
the path leads to, and by the kind of everything on the way there. So the conversion of a text may
change with a file that it does not ask for, if a path that it asks for goes through that file.
-/

namespace PhpArray

open Yaml

namespace Run

variable {agreed : String → Prop} {α β : Type}

/-- A run is the same as another one if everything that the other one asks for is agreed on. -/
def FollowsOn (agreed : String → Prop) (other r : Run α) : Prop :=
  (∀ path ∈ r.loads, agreed path) → other = r

theorem FollowsOn.refl (r : Run α) : FollowsOn agreed r r :=
  fun _ => rfl

theorem FollowsOn.bind {other r : Run α} {next' next : α → Run β}
    (hfirst : FollowsOn agreed other r) (hnext : ∀ a, FollowsOn agreed (next' a) (next a)) :
    FollowsOn agreed (other >>= next') (r >>= next) := by
  intro hagreed
  have hkept : r.loads ⊆ (r >>= next).loads := loads_subset_of_prefix (notes_prefix_bind r next)
  obtain rfl : other = r := hfirst fun path hpath => hagreed path (hkept hpath)
  cases h : other.outcome with
  | error failure => rw [bind_of_error next h, bind_of_error next' h]
  | ok a =>
      rw [bind_of_ok next h] at hagreed ⊢
      rw [bind_of_ok next' h]
      have hrest : next' a = next a := by
        refine hnext a fun path hpath => hagreed path ?_
        rw [loads, List.filterMap_append]
        exact List.mem_append_right _ hpath
      rw [hrest]

theorem followsOn_stepwise : Stepwise fun _ => FollowsOn agreed :=
  ⟨FollowsOn.refl, FollowsOn.bind⟩

end Run

/-! ### Sources -/

namespace Renderer

variable {r' r : Renderer}

/-- Two renderers find the same for a path. -/
def SameLoad (r' r : Renderer) (path : String) : Prop :=
  r'.source.load path = r.source.load path

theorem included_followsOn (hdir : r'.includeDir = r.includeDir) (hindent : r'.indent = r.indent)
    (hhome : r'.source.home = r.source.home) {chain : List String} {depth : Int} {name : String}
    {root' root : List String → Document → Run String}
    (hroot : ∀ chain d, Run.FollowsOn (SameLoad r' r) (root' chain d) (root chain d)) :
    Run.FollowsOn (SameLoad r' r) (r'.included chain depth name "null" root')
      (r.included chain depth name "null" root) := by
  have htarget : r'.source.target r'.includeDir name = r.source.target r.includeDir name := by
    rw [Source.target, hhome, hdir, Source.target]
  by_cases hmem : r.source.target r.includeDir name ∈ chain
  · have hmem' : r'.source.target r'.includeDir name ∈ chain := by rwa [htarget]
    rw [included_of_mem hmem, included_of_mem hmem', htarget]
    exact Run.FollowsOn.refl _
  · rw [hdir] at htarget
    by_cases hload : SameLoad r' r (Path.join r.includeDir name)
    · have hmem' : r'.source.target r.includeDir name ∉ chain := by rwa [htarget]
      refine included_related Run.followsOn_stepwise hdir hindent hload hmem' hmem fun d => ?_
      rw [htarget]
      exact hroot _ d
    · -- The path is asked for, so nothing is claimed of two sources that differ here.
      intro hagreed
      exact absurd (hagreed _ (mem_loads_included hmem)) hload

theorem renderWithin_followsOn (r : Renderer) {source' : Source}
    (hhome : source'.home = r.source.home) (levels : Nat) (g : Graph) (id : NodeId) :
    Run.FollowsOn (SameLoad { r with source := source' } r)
      ({ r with source := source' }.renderWithin levels g id) (r.renderWithin levels g id) := by
  refine node_related Run.followsOn_stepwise (by rfl) ?_ levels (Eq.refl r.chain) g [] r.depth id
  rintro _ chain depth name root' root rfl hroot
  exact included_followsOn (by rfl) (by rfl) hhome fun chain d => hroot d rfl

end Renderer

/-! ### Trees -/

namespace FileTree

variable {t t' : FileTree}

/-- Whether a directory is at a place or a file, if anything is. -/
def kindAt? (t : FileTree) (place : Place) : Option Bool :=
  (t.find? place).map (· == .directory)

/-- The places that a path leads to or passes on its way, as far as it can be walked. -/
def passed (t : FileTree) (path : String) : List Place :=
  (Path.names path).inits.filterMap fun first => (t.walk (t.origin path) first).toOption

/-- Along a path, two trees have things of the same kinds, and the same where it leads. -/
structure AgreeAlong (t t' : FileTree) (path : String) : Prop where
  kinds : ∀ place ∈ t.passed path ++ t'.passed path, t'.kindAt? place = t.kindAt? place
  content : ∀ place, t.locate path = .ok place → t'.find? place = t.find? place

theorem mem_passed {path : String} {place : Place} :
    place ∈ t.passed path ↔
      ∃ first, first <+: Path.names path ∧ t.walk (t.origin path) first = .ok place := by
  have htoOption (outcome : Except FileRefusal Place) :
      outcome.toOption = some place ↔ outcome = .ok place := by
    cases outcome <;> simp [Except.toOption]
  simp [passed, htoOption]

theorem isDirectoryAt_eq (t : FileTree) (place : Place) :
    t.isDirectoryAt place = (t.kindAt? place == some true) := by
  unfold isDirectoryAt kindAt?
  cases t.find? place with
  | none => rfl
  | some entry => cases entry <;> rfl

/-- One name is walked alike if the kinds are the same here and where the name leads. -/
theorem walk_name_eq_of_kinds {place : Place} {name : String}
    (hhere : t'.kindAt? place = t.kindAt? place)
    (hnext : ∀ next, t.walk place [name] = .ok next ∨ t'.walk place [name] = .ok next →
      t'.kindAt? next = t.kindAt? next) :
    t'.walk place [name] = t.walk place [name] := by
  have hdirectory : t'.isDirectoryAt place = t.isDirectoryAt place := by
    rw [isDirectoryAt_eq, isDirectoryAt_eq, hhere]
  simp only [walk, hdirectory] at hnext ⊢
  -- What is asked before the name is looked up has the same answer in both trees.
  split_ifs at hnext ⊢ <;> try rfl
  cases hfind : t.find? (below place name) with
  | none =>
      cases hfind' : t'.find? (below place name) with
      | none => rfl
      | some entry =>
          have hkind := hnext (below place name) (.inr (by rw [hfind']))
          simp [kindAt?, hfind, hfind'] at hkind
  | some entry =>
      cases hfind' : t'.find? (below place name) with
      | some entry' => rfl
      | none =>
          have hkind := hnext (below place name) (.inl (by rw [hfind]))
          simp [kindAt?, hfind, hfind'] at hkind

/-- A walk looks at nothing but the kinds of what it comes to. -/
theorem walk_eq_of_kinds {place : Place} {names : List String}
    (h : ∀ first last, first <+: names →
      t.walk place first = .ok last ∨ t'.walk place first = .ok last →
        t'.kindAt? last = t.kindAt? last) :
    t'.walk place names = t.walk place names := by
  induction names generalizing place with
  | nil => rfl
  | cons name rest ih =>
      have hone : t'.walk place [name] = t.walk place [name] :=
        walk_name_eq_of_kinds (h [] place List.nil_prefix (.inl rfl)) fun next =>
          h [name] next (by simp)
      have hstep (tree : FileTree) (names : List String) :
          tree.walk place (name :: names) = (tree.walk place [name]).bind (tree.walk · names) :=
        tree.walk_append place [name] names
      rw [hstep t' rest, hstep t rest, hone]
      cases hnext : t.walk place [name] with
      | error refusal => rfl
      | ok next =>
          refine ih fun first last hfirst hlast => ?_
          refine h (name :: first) last ((List.prefix_cons_inj name).2 hfirst) ?_
          rwa [hstep t' first, hstep t first, hone, hnext]

theorem AgreeAlong.load_eq (hhome : t'.home = t.home) {path : String} (h : t.AgreeAlong t' path) :
    t'.load path = t.load path := by
  have horigin : t'.origin path = t.origin path := by rw [origin, origin, hhome]
  have hwalk : t'.walk (t.origin path) (Path.names path) =
      t.walk (t.origin path) (Path.names path) := by
    refine walk_eq_of_kinds fun first last hfirst hlast => h.kinds last (List.mem_append.2 ?_)
    refine hlast.imp (fun hlast => ?_) fun hlast => ?_
    · exact mem_passed.2 ⟨first, hfirst, hlast⟩
    · exact mem_passed.2 ⟨first, hfirst, horigin ▸ hlast⟩
  have hlocate : t'.locate path = t.locate path := by rw [locate, locate, horigin, hwalk]
  have hread : t'.read path = t.read path := by
    rw [read, read, hlocate]
    cases hplace : t.locate path with
    | error refusal => rfl
    | ok place =>
        simp only [bind, Except.bind]
        rw [h.content place hplace]
  rw [load, load, readText, readText, hread]

/-! ### Conversions -/

theorem render_followsOn (hhome : t'.home = t.home) (r : Renderer) (hsource : r.source = t.source)
    (g : Graph) (id : NodeId) :
    Run.FollowsOn (fun path => t'.load path = t.load path)
      ({ r with source := t'.source }.render g id) (r.render g id) := by
  have hhomePath : t'.source.home = r.source.home := by
    rw [hsource]
    show t'.homePath = t.homePath
    rw [homePath, homePath, hhome]
  -- The budgets may differ, as the trees have different documents; the greater one does for both.
  obtain ⟨levels, hlevels, hlevels'⟩ : ∃ levels, r.budget g ≤ levels ∧
      { r with source := t'.source }.budget g ≤ levels :=
    ⟨max _ _, le_max_left _ _, le_max_right _ _⟩
  have hrender : r.renderWithin levels g id = r.render g id :=
    Renderer.renderWithin_of_le hlevels (render_ne_nesting hsource g id)
  have hrender' : { r with source := t'.source }.renderWithin levels g id =
      { r with source := t'.source }.render g id :=
    Renderer.renderWithin_of_le hlevels' (render_ne_nesting rfl g id)
  have hfollows := Renderer.renderWithin_followsOn r hhomePath levels g id
  unfold Renderer.SameLoad at hfollows
  rwa [hrender, hrender', hsource] at hfollows

theorem convertDocument_followsOn (hhome : t'.home = t.home)
    (layout : Layout) (dir : String) (chain : List String) (document : Option Document) :
    Run.FollowsOn (fun path => t'.load path = t.load path)
      (convertDocument t'.source layout dir chain document)
      (convertDocument t.source layout dir chain document) := by
  by_cases hindent : layout.indent < 0
  · rw [convertDocument_of_negative hindent, convertDocument_of_negative hindent]
    exact Run.FollowsOn.refl _
  · have hchecked (source : Source) :
        Renderer.checked ⟨dir, layout.pretty, layout.indent, 0, chain, source⟩ =
          .ok ⟨dir, layout.pretty, layout.indent, 0, chain, source⟩ :=
      Renderer.checked_ok (Int.not_lt.1 hindent)
    simp only [convertDocument, hchecked, Run.ofExcept_ok, pure_bind]
    cases document with
    | none => exact Run.FollowsOn.refl _
    | some d =>
        let r : Renderer := ⟨dir, layout.pretty, layout.indent, 0, chain, t.source⟩
        have hrender := render_followsOn hhome r rfl d.graph d.root
        exact hrender.bind fun literal => Run.FollowsOn.refl _

theorem convertFile_followsOn (hhome : t'.home = t.home)
    (layout : Layout) (path : String) :
    Run.FollowsOn (fun path => t'.load path = t.load path) (convertFile t' layout path)
      (convertFile t layout path) := by
  intro hagreed
  have hload : t'.load path = t.load path :=
    hagreed path (Run.loads_subset_of_prefix (Run.notes_prefix_bind _ _) (List.mem_singleton_self _))
  have hhomePath : t'.homePath = t.homePath := by rw [homePath, homePath, hhome]
  refine Run.FollowsOn.bind (Run.FollowsOn.refl _) (fun _ => ?_) hagreed
  rw [hload]
  refine Run.FollowsOn.bind (Run.FollowsOn.refl _) fun document => ?_
  rw [includeDirOf, includeDirOf, hhomePath]
  exact convertDocument_followsOn hhome layout _ _ document

theorem convertText_followsOn (hhome : t'.home = t.home)
    (layout : Layout) (dir : Option String) (text : List Char) :
    Run.FollowsOn (fun path => t'.load path = t.load path) (convertText t' layout dir text)
      (convertText t layout dir text) := by
  have hhomePath : t'.homePath = t.homePath := by rw [homePath, homePath, hhome]
  rw [convertText, convertText, hhomePath]
  exact Run.FollowsOn.bind (Run.FollowsOn.refl _) fun document =>
    convertDocument_followsOn hhome layout _ [] document

/-- A rendering is decided by what is found for the paths that it asks for: with a source that finds
the same for these, it is the same run, also if it ends in a failure. So is a conversion with the
files of another tree, and a path is read the same in two trees that agree along it. -/
theorem outcome_follows_loads :
    (∀ (r : Renderer) (source' : Source) (levels : Nat) (g : Graph) (id : NodeId),
      source'.home = r.source.home →
      (∀ path ∈ (r.renderWithin levels g id).loads, source'.load path = r.source.load path) →
        { r with source := source' }.renderWithin levels g id = r.renderWithin levels g id) ∧
    ∀ t t' : FileTree, t'.home = t.home →
      (∀ path, t.AgreeAlong t' path → t'.load path = t.load path) ∧
      (∀ layout path,
        (∀ loaded ∈ (convertFile t layout path).loads, t'.load loaded = t.load loaded) →
          convertFile t' layout path = convertFile t layout path) ∧
      ∀ layout dir text,
        (∀ loaded ∈ (convertText t layout dir text).loads, t'.load loaded = t.load loaded) →
          convertText t' layout dir text = convertText t layout dir text := by
  refine ⟨fun r source' levels g id hhome hagreed => ?_, fun t t' hhome => ⟨?_, ?_, ?_⟩⟩
  · exact Renderer.renderWithin_followsOn r hhome levels g id hagreed
  · exact fun path hagree => hagree.load_eq hhome
  · exact fun layout path hagreed => convertFile_followsOn hhome layout path hagreed
  · exact fun layout dir text hagreed => convertText_followsOn hhome layout dir text hagreed

/-- The small files without the list, with another leaf and with one file more. -/
def otherFiles : FileTree :=
  ⟨["w"], [(["w"], .directory), (["w", "one"], .file "!include two".toUTF8.toList),
    (["w", "two"], .file "- !include ./../w//one".toUTF8.toList),
    (["w", "leaf"], .file "8".toUTF8.toList), (["w", "more"], .file "9".toUTF8.toList)]⟩

/-- Two files that include each other fail in the same way beside other files. -/
theorem outcome_follows_loads_otherFiles :
    let r : Renderer := ⟨"/w", false, 4, 0, [], smallFiles.source⟩
    let g : Graph := ⟨#[.scalar ⟨includeTag, "two"⟩]⟩
    (convertFile smallFiles ⟨false, 4⟩ "one").outcome =
        .error (.includeCycle ["/w/one", "/w/two", "/w/one"]) ∧
      convertFile otherFiles ⟨false, 4⟩ "one" = convertFile smallFiles ⟨false, 4⟩ "one" ∧
      convertText otherFiles ⟨true, 2⟩ none "!include one".toList =
        convertText smallFiles ⟨true, 2⟩ none "!include one".toList ∧
      { r with source := otherFiles.source }.renderWithin 8 g 0 = r.renderWithin 8 g 0 := by
  intro r g
  obtain ⟨hrender, hconvert⟩ := outcome_follows_loads
  obtain ⟨hload, hfile, htext⟩ := hconvert smallFiles otherFiles rfl
  let asked := ["one", "/w/one", "/w/two", "/w/./../w//one"]
  have hkinds : ∀ path ∈ asked,
      ∀ place ∈ smallFiles.passed path ++ otherFiles.passed path,
        otherFiles.kindAt? place = smallFiles.kindAt? place := by decide +kernel
  have hleads : ∀ path ∈ asked, ∃ place ∈ [["w", "one"], ["w", "two"]],
      smallFiles.locate path = .ok place ∧
        otherFiles.find? place = smallFiles.find? place := by decide +kernel
  have hagree : ∀ path ∈ asked, otherFiles.load path = smallFiles.load path := by
    intro path hpath
    obtain ⟨place, -, hlocate, hfind⟩ := hleads path hpath
    refine hload path ⟨hkinds path hpath, fun place' hlocate' => ?_⟩
    cases hlocate.symm.trans hlocate'
    exact hfind
  refine ⟨by decide +kernel, hfile _ _ ?_, htext _ _ _ ?_, hrender r otherFiles.source 8 g 0 rfl ?_⟩
  · have hloads : (convertFile smallFiles ⟨false, 4⟩ "one").loads = ["one", "/w/two"] := by
      decide +kernel
    rw [hloads]
    exact fun path hpath => hagree path (by revert path; decide)
  · have hloads : (convertText smallFiles ⟨true, 2⟩ none "!include one".toList).loads =
        ["/w/one", "/w/two"] := by decide +kernel
    rw [hloads]
    exact fun path hpath => hagree path (by revert path; decide)
  · have hloads : (r.renderWithin 8 g 0).loads = ["/w/two", "/w/./../w//one"] := by decide +kernel
    rw [hloads]
    exact fun path hpath => hagree path (by revert path; decide)

/-- A directory without a file. -/
def bareFiles : FileTree :=
  ⟨["w"], [(["w"], .directory)]⟩

/-- A file that is not read makes a difference: a path that goes up behind its name fails in another
way than without the file. -/
theorem unread_file_decides_failure :
    let leaf := ["w", "leaf"]
    let files := bareFiles.put leaf (.file "7".toUTF8.toList)
    let text := "!include leaf/../x".toList
    let path := "/w/leaf/../x"
    let before := convertText bareFiles ⟨false, 4⟩ none text
    before.loads = [path] ∧ bareFiles.locate path ≠ .ok leaf ∧ files.locate path ≠ .ok leaf ∧
      (∀ place, place ≠ leaf → files.find? place = bareFiles.find? place) ∧
      before.outcome = .error (.unreadable path (.refused .noEntry)) ∧
      (convertText files ⟨false, 4⟩ none text).outcome =
        .error (.unreadable path (.refused .notDirectory)) := by
  intro leaf files text path before
  refine ⟨by decide +kernel, by decide +kernel, by decide +kernel, fun place hplace => ?_, ?_, ?_⟩
  · rw [find?_put _ _ _ _ (List.cons_ne_nil _ _), if_neg hplace]
  · decide +kernel
  · decide +kernel

end FileTree

end PhpArray

import PhpArray.Convert
import PhpArray.Proofs.Files

/-!
Converting a file and converting its text. A file is itself the first of the documents that no
include may lead back to, and a text is none. This makes no difference to the result: an include
that leads back to the file loads it again, and the document that is loaded leads there once more,
where the path is on the chain. So a document that includes itself is never converted.
-/

namespace PhpArray

open Yaml

namespace Source

/-- An include that is rendered with a document, in itself or in the documents it includes. -/
inductive Mentions (source : Source) (dir : String) : Document → String → Prop
  | here {g : Graph} {id : NodeId} {name : String} :
      g.node id = .scalar ⟨includeTag, name⟩ → Mentions source dir ⟨g, id⟩ name
  | part {g : Graph} {id part : NodeId} {name : String} :
      g.Part id part → Mentions source dir ⟨g, part⟩ name → Mentions source dir ⟨g, id⟩ name
  | inside {g : Graph} {id : NodeId} {other name : String} {d : Document} :
      g.node id = .scalar ⟨includeTag, other⟩ →
      source.load (Path.join dir other) = .ok (some d) → Mentions source dir d name →
      Mentions source dir ⟨g, id⟩ name

variable {source : Source} {dir : String} {levels : Nat} {chain : List String} {g : Graph}
  {active : List NodeId} {depth : Int} {id : NodeId} {c : Content}

theorem gather_part
    (h : (source.gather dir (levels + 1) chain g active depth id).outcome = .ok c)
    {part : NodeId} (hpart : g.Part id part) :
    ∃ c', (source.gather dir levels chain g (id :: active) (depth + 1) part).outcome = .ok c' := by
  rcases gather_ok_cases h with ⟨s, hnode, -⟩ | ⟨s, d, hnode, -⟩ |
    ⟨tag, items, contents, hnode, -, -, -, hitems⟩ | ⟨tag, pairs, entries, hnode, -, -, -, hpairs⟩
  · cases hpart <;> simp_all
  · cases hpart <;> simp_all
  · cases hpart with
    | item hnode' hitem =>
        cases hnode.symm.trans hnode'
        obtain ⟨c', -, hc'⟩ := forall₂_exists_of_mem hitems.flip hitem
        exact ⟨c', hc'⟩
    | value hnode' _ => cases hnode.symm.trans hnode'
  · cases hpart with
    | item hnode' _ => cases hnode.symm.trans hnode'
    | value hnode' hpair =>
        cases hnode.symm.trans hnode'
        obtain ⟨entry, -, -, hentry⟩ := forall₂_exists_of_mem hpairs.flip hpair
        exact ⟨entry.2, hentry⟩

theorem gather_include
    (h : (source.gather dir (levels + 1) chain g active depth id).outcome = .ok c)
    {name : String} (hnode : g.node id = .scalar ⟨includeTag, name⟩) :
    source.target dir name ∉ chain ∧
      (source.load (Path.join dir name) = .ok none ∨
        ∃ d, source.load (Path.join dir name) = .ok (some d) ∧
          (source.gather dir levels (chain ++ [source.target dir name]) d.graph [] depth
            d.root).outcome = .ok c) := by
  simp only [gather, hnode, if_true] at h
  obtain ⟨htarget, hload⟩ := (Renderer.included_ok_iff (Int.le_refl 0)).1 h
  exact ⟨htarget, hload.imp_left And.left⟩

/-- If a document is gathered, then so is every document that is mentioned, on a chain that has its
target only now. -/
theorem Mentions.gathered {d : Document} {name : String} (hmentions : source.Mentions dir d name)
    (h : (source.gather dir levels chain d.graph active depth d.root).outcome = .ok c) :
    ∃ chain', chain ⊆ chain' ∧ source.target dir name ∉ chain' ∧
      (source.load (Path.join dir name) = .ok none ∨
        ∃ d' levels depth c', source.load (Path.join dir name) = .ok (some d') ∧
          (source.gather dir levels (chain' ++ [source.target dir name]) d'.graph [] depth
            d'.root).outcome = .ok c') := by
  induction hmentions generalizing levels chain active depth c with
  | here hnode =>
      cases levels with
      | zero => simp [gather] at h
      | succ levels =>
          obtain ⟨htarget, hload⟩ := gather_include h hnode
          refine ⟨chain, List.Subset.refl _, htarget, hload.imp_right ?_⟩
          rintro ⟨d', hload, hroot⟩
          exact ⟨d', levels, depth, c, hload, hroot⟩
  | part hpart _ ih =>
      cases levels with
      | zero => simp [gather] at h
      | succ levels =>
          obtain ⟨c', hc'⟩ := gather_part h hpart
          exact ih hc'
  | inside hnode hother _ ih =>
      cases levels with
      | zero => simp [gather] at h
      | succ levels =>
          obtain ⟨-, hload⟩ := gather_include h hnode
          rw [hother] at hload
          rcases hload with hload | ⟨d', hload, hroot⟩
          · cases hload
          · cases hload
            obtain ⟨chain', hsub, hrest⟩ := ih hroot
            exact ⟨chain', List.Subset.trans (List.subset_append_left _ _) hsub, hrest⟩

/-- A document that mentions itself is not gathered, on any chain. -/
theorem Mentions.not_gathered {d : Document} {name : String}
    (hmentions : source.Mentions dir d name)
    (hload : source.load (Path.join dir name) = .ok (some d)) :
    (source.gather dir levels chain d.graph active depth d.root).outcome ≠ .ok c := by
  intro h
  obtain ⟨chain', -, -, hagain⟩ := hmentions.gathered h
  rw [hload] at hagain
  rcases hagain with hagain | ⟨d', levels', depth', c', hagain, hroot⟩
  · cases hagain
  · cases hagain
    obtain ⟨chain'', hsub, htarget, -⟩ := hmentions.gathered hroot
    exact htarget (hsub (by simp))

/-- The chain matters only for the targets of includes that are mentioned. -/
theorem gather_of_chain {chain' : List String}
    (h : (source.gather dir levels chain g active depth id).outcome = .ok c)
    (hchain : ∀ name, source.Mentions dir ⟨g, id⟩ name →
      source.target dir name ∈ chain' → source.target dir name ∈ chain) :
    (source.gather dir levels chain' g active depth id).outcome = .ok c := by
  induction levels generalizing chain chain' g active depth id c with
  | zero => simp [gather] at h
  | succ levels ih =>
      cases hnode : g.node id with
      | scalar s =>
          by_cases htag : s.tag = includeTag
          · have hinclude : g.node id = .scalar ⟨includeTag, s.value⟩ := by rw [hnode, ← htag]
            simp only [gather, hnode, if_pos htag] at h ⊢
            rw [Renderer.included_ok_iff (Int.le_refl 0)] at h ⊢
            obtain ⟨htarget, hload⟩ := h
            refine ⟨fun hmem => htarget (hchain _ (.here hinclude) hmem), hload.imp_right ?_⟩
            rintro ⟨d, hload, hroot⟩
            refine ⟨d, hload, ih hroot fun name hmentions hmem => ?_⟩
            rcases List.mem_append.1 hmem with hmem | hmem
            · exact List.mem_append_left _ (hchain name (.inside hinclude hload hmentions) hmem)
            · exact List.mem_append_right _ hmem
          · simpa only [gather, hnode, if_neg htag] using h
      | sequence tag items =>
          simp only [gather, hnode, Renderer.enter_ok_iff, Run.map_ok_iff, Run.mapM_ok_iff] at h ⊢
          obtain ⟨htag, hactive, contents, hitems, hc⟩ := h
          refine ⟨htag, hactive, contents, ?_, hc⟩
          refine (forall₂_imp_of_mem hitems.flip fun c item hitem hc => ?_).flip
          refine ih hc fun name hmentions hmem => ?_
          exact hchain name (.part (.item hnode hitem) hmentions) hmem
      | mapping tag pairs =>
          simp only [gather, hnode, Renderer.enter_ok_iff, Run.map_ok_iff, Run.mapM_ok_iff,
            Run.bind_ok_iff] at h ⊢
          obtain ⟨htag, hactive, entries, hpairs, hc⟩ := h
          refine ⟨htag, hactive, entries, ?_, hc⟩
          refine (forall₂_imp_of_mem hpairs.flip fun entry pair hpair hentry => ?_).flip
          obtain ⟨key, hkey, value, hvalue, hentry⟩ := hentry
          refine ⟨key, hkey, value, ih hvalue fun name hmentions hmem => ?_, hentry⟩
          exact hchain name (.part (.value hnode hpair) hmentions) hmem
      | bare tag => simpa only [gather, hnode] using h
      | foreign => simpa only [gather, hnode] using h

/-- A document is gathered behind itself on the chain exactly if it is gathered alone, if nothing
but the document is known by its target. -/
theorem gather_ok_iff_of_own_target {d : Document} {own : String}
    (hown : ∀ name loaded, source.target dir name = own →
      source.load (Path.join dir name) = .ok loaded → loaded = some d) :
    (source.gather dir levels [own] d.graph active depth d.root).outcome = .ok c ↔
      (source.gather dir levels [] d.graph active depth d.root).outcome = .ok c := by
  constructor
  · intro h
    exact gather_of_chain h (by simp)
  · intro h
    refine gather_of_chain h fun name hmentions hmem => ?_
    have hload : source.load (Path.join dir name) = .ok (some d) := by
      obtain ⟨_, -, -, hload⟩ := hmentions.gathered h
      rcases hload with hload | ⟨d', _, _, _, hload, -⟩
      · rw [hload, hown name none (List.mem_singleton.1 hmem) hload]
      · rw [hload, hown name (some d') (List.mem_singleton.1 hmem) hload]
    exact absurd h (hmentions.not_gathered hload)

end Source

/-! ### Programs -/

theorem convertDocument_of_negative {source : Source} {layout : Layout} {dir : String}
    {chain : List String} {document : Option Document} (hindent : layout.indent < 0) :
    convertDocument source layout dir chain document =
      Run.fail (.negativeIndent layout.indent) := by
  simp [convertDocument, Renderer.checked, hindent]

/-- The program of a document is written from its content. -/
theorem convertDocument_ok_iff {source : Source} {layout : Layout} {dir : String}
    {chain : List String} {d : Document} {output : String} (hindent : 0 ≤ layout.indent) :
    (convertDocument source layout dir chain (some d)).outcome = .ok output ↔
      ∃ c, (source.gather dir ((source.reader dir).budget d.graph) chain d.graph [] 0
          d.root).outcome = .ok c ∧
        program (c.literal layout.pretty layout.indent.toNat 0 0) = output := by
  obtain ⟨pretty, indent⟩ := layout
  obtain ⟨indent, rfl⟩ := Int.eq_ofNat_of_zero_le hindent
  have hchecked : Renderer.checked ⟨dir, pretty, indent, 0, chain, source⟩ =
      .ok ⟨dir, pretty, indent, 0, chain, source⟩ := Renderer.checked_ok hindent
  have hrender : (⟨dir, pretty, indent, 0, chain, source⟩ : Renderer).render d.graph d.root = _ :=
    Renderer.renderWithin_eq_gather source dir chain pretty indent 0
      ((source.reader dir).budget d.graph) d.graph d.root
  simp only [convertDocument, hchecked, hrender, Run.ofExcept_ok, pure_bind, Run.bind_ok_iff,
    Run.map_ok_iff, Run.outcome_deeper, Run.outcome_pure, Except.ok.injEq, Int.toNat_natCast]
  constructor
  · rintro ⟨_, ⟨c, hc, rfl⟩, houtput⟩
    exact ⟨c, hc, houtput⟩
  · rintro ⟨c, hc, houtput⟩
    exact ⟨_, ⟨c, hc, rfl⟩, houtput⟩

namespace FileTree

variable {files : FileTree} {layout : Layout} {path : String} {text : List Char}

theorem convertText_eq (dir : Option String) :
    convertText files layout dir text = Run.ofExcept (parse none text) >>=
      convertDocument files.source layout (dir.getD files.homePath) [] := rfl

theorem convertFile_eq (hread : files.readText path = .ok text) :
    convertFile files layout path = Run.note (.loading path) >>= fun _ =>
      Run.ofExcept (parse (some path) text) >>=
        convertDocument files.source layout (includeDirOf files path)
          [Path.absolute files.homePath path] := by
  have hload : files.load path = parse (some path) text := by simp [load, hread, bind, Except.bind]
  rw [← hload]
  rfl

theorem convertDocument_ne_nesting (dir : String) (chain : List String)
    (document : Option Document) :
    (convertDocument files.source layout dir chain document).outcome ≠ .error .nesting := by
  unfold convertDocument
  refine Run.bind_ne_nesting ?_ fun renderer hchecked => ?_
  · unfold Renderer.checked
    split <;> simp
  · have hsource : renderer.source = files.source := by
      unfold Renderer.checked at hchecked
      split at hchecked <;> cases hchecked
      rfl
    cases document with
    | none => simp
    | some d =>
        have hrender := render_ne_nesting hsource d.graph d.root
        exact Run.bind_ne_nesting hrender fun _ _ => by simp

/-- What is loaded from the place of a text is the document of the text. -/
theorem eq_of_load {path' : String} {document loaded : Option Document}
    (hread : files.readText path = .ok text) (hdocument : Document.read text = .ok document)
    (hsame : files.locate path' = files.locate path) (hload : files.load path' = .ok loaded) :
    loaded = document := by
  obtain ⟨text', htext', hloaded⟩ := load_ok_iff.1 hload
  rw [readText_unique htext' hread hsame, hdocument] at hloaded
  exact (Except.ok.inj hloaded).symm

/-- Of what is loaded, only what is at the place of a text is known by its target. -/
theorem eq_of_target (hhome : files.HomeIsPlace) {dir name : String}
    {document loaded : Option Document} (hread : files.readText path = .ok text)
    (hdocument : Document.read text = .ok document)
    (htarget : files.source.target dir name = Path.absolute files.homePath path)
    (hload : files.load (Path.join dir name) = .ok loaded) : loaded = document := by
  obtain ⟨text', htext', -⟩ := load_ok_iff.1 hload
  obtain ⟨place, -, -, hplace, -⟩ := exists_of_readText hread
  obtain ⟨place', -, -, hplace', -⟩ := exists_of_readText htext'
  refine eq_of_load hread hdocument ?_ hload
  rw [hplace, hplace', locate_unique hhome hplace' hplace htarget]

theorem convertText_ok_iff {dir output : String} :
    (convertText files layout (some dir) text).outcome = .ok output ↔
      ∃ document, Document.read text = .ok document ∧
        (convertDocument files.source layout dir [] document).outcome = .ok output := by
  simp [convertText_eq, Run.bind_ok_iff, parse_ok_iff]

theorem convertFile_ok_iff (hread : files.readText path = .ok text) {output : String} :
    (convertFile files layout path).outcome = .ok output ↔
      ∃ document, Document.read text = .ok document ∧
        (convertDocument files.source layout (includeDirOf files path)
          [Path.absolute files.homePath path] document).outcome = .ok output := by
  simp [convertFile_eq hread, Run.bind_ok_iff, parse_ok_iff]

/-- A document of a file is converted in the same way with the file on the chain. -/
theorem convertDocument_own_iff (hhome : files.HomeIsPlace) (hread : files.readText path = .ok text)
    {document : Option Document} (hdocument : Document.read text = .ok document)
    {output : String} :
    (convertDocument files.source layout (includeDirOf files path)
        [Path.absolute files.homePath path] document).outcome = .ok output ↔
      (convertDocument files.source layout (includeDirOf files path) [] document).outcome =
        .ok output := by
  by_cases hindent : 0 ≤ layout.indent
  · cases document with
    | none => simp [convertDocument, Renderer.checked, Int.not_lt.2 hindent]
    | some d =>
        rw [convertDocument_ok_iff hindent, convertDocument_ok_iff hindent]
        refine exists_congr fun c => and_congr_left fun _ => ?_
        exact Source.gather_ok_iff_of_own_target fun name loaded htarget hload =>
          eq_of_target hhome hread hdocument htarget hload
  · rw [convertDocument_of_negative (by omega), convertDocument_of_negative (by omega)]

/-- A file that mentions itself is not converted. -/
theorem convertFile_of_mentions (hread : files.readText path = .ok text) {d : Document}
    {name : String} (hdocument : Document.read text = .ok (some d))
    (hmentions : files.source.Mentions (includeDirOf files path) d name)
    (hsame : files.locate (Path.join (includeDirOf files path) name) = files.locate path)
    (output : String) : (convertFile files layout path).outcome ≠ .ok output := by
  intro houtput
  obtain ⟨document, hdocument', houtput⟩ := (convertFile_ok_iff hread).1 houtput
  cases hdocument.symm.trans hdocument'
  have hindent : 0 ≤ layout.indent := by
    by_contra hnegative
    rw [convertDocument_of_negative (by omega)] at houtput
    cases houtput
  obtain ⟨c, hc, -⟩ := (convertDocument_ok_iff hindent).1 houtput
  have hload : files.source.load (Path.join (includeDirOf files path) name) = .ok (some d) := by
    obtain ⟨_, -, -, hload⟩ := hmentions.gathered hc
    rcases hload with hload | ⟨d', _, _, _, hload, -⟩
    · rw [hload, eq_of_load hread hdocument hsame hload]
    · rw [hload, eq_of_load hread hdocument hsame hload]
  exact hmentions.not_gathered hload hc

/-- A file and its text are converted to the same program. Neither conversion spends its budget, and
both fail for a file that includes itself, directly or through others and under any spelling of its
path. -/
theorem entry_points_agree (files : FileTree) (hhome : files.HomeIsPlace) (layout : Layout)
    (path : String) (text : List Char) (hread : files.readText path = .ok text) :
    let fromFile := (convertFile files layout path).outcome
    let fromText := (convertText files layout (some (includeDirOf files path)) text).outcome
    (∀ output, fromFile = .ok output ↔ fromText = .ok output) ∧
    fromFile ≠ .error .nesting ∧ fromText ≠ .error .nesting ∧
    ∀ d name, Document.read text = .ok (some d) →
      files.source.Mentions (includeDirOf files path) d name →
      files.locate (Path.join (includeDirOf files path) name) = files.locate path →
      (∃ failure, fromFile = .error failure) ∧ ∃ failure, fromText = .error failure := by
  intro fromFile fromText
  have hagree : ∀ output, fromFile = .ok output ↔ fromText = .ok output := by
    intro output
    unfold fromFile fromText
    rw [convertFile_ok_iff hread, convertText_ok_iff]
    exact exists_congr fun document => and_congr_right fun hdocument =>
      convertDocument_own_iff hhome hread hdocument
  refine ⟨hagree, ?_, ?_, fun d name hdocument hmentions hsame => ?_⟩
  · unfold fromFile
    rw [convertFile_eq hread]
    refine Run.bind_ne_nesting (by simp) fun _ _ => ?_
    refine Run.bind_ne_nesting (parse_ne_nesting _ _) fun document _ => ?_
    exact convertDocument_ne_nesting _ _ document
  · unfold fromText
    rw [convertText_eq]
    refine Run.bind_ne_nesting (parse_ne_nesting _ _) fun document _ => ?_
    exact convertDocument_ne_nesting _ _ document
  · have hfile : ∀ output, fromFile ≠ .ok output :=
      convertFile_of_mentions hread hdocument hmentions hsame
    have herror (outcome : Except Failure String) (h : ∀ output, outcome ≠ .ok output) :
        ∃ failure, outcome = .error failure := by
      cases outcome with
      | error failure => exact ⟨failure, rfl⟩
      | ok output => exact absurd rfl (h output)
    exact ⟨herror _ hfile, herror _ fun output houtput => hfile output ((hagree output).2 houtput)⟩

/-- Two files that include each other, one of them by a path with dots and two slashes, and a file
that includes another one twice. -/
def smallFiles : FileTree :=
  ⟨["w"], [(["w"], .directory), (["w", "one"], .file "!include two".toUTF8.toList),
    (["w", "two"], .file "- !include ./../w//one".toUTF8.toList),
    (["w", "list"], .file "[!include leaf, !include leaf]".toUTF8.toList),
    (["w", "leaf"], .file "7".toUTF8.toList)]⟩

theorem entry_points_agree_smallFiles :
    let list := "[!include leaf, !include leaf]".toList
    let one := "!include two".toList
    let output := "<?php\nreturn array(7, 7);"
    smallFiles.HomeIsPlace ∧ smallFiles.readText "list" = .ok list ∧
      smallFiles.readText "../w/one" = .ok one ∧
      (convertFile smallFiles ⟨false, 4⟩ "list").outcome = .ok output ∧
      (convertText smallFiles ⟨false, 4⟩ (some (includeDirOf smallFiles "list")) list).outcome =
        .ok output ∧
      (∃ failure, (convertFile smallFiles ⟨false, 4⟩ "../w/one").outcome = .error failure) ∧
      ∃ failure, (convertText smallFiles ⟨false, 4⟩ (some (includeDirOf smallFiles "../w/one"))
        one).outcome = .error failure := by
  intro list one output
  have hhome : smallFiles.HomeIsPlace := by decide
  have hlist : smallFiles.readText "list" = .ok list := by decide +kernel
  have hone : smallFiles.readText "../w/one" = .ok one := by decide +kernel
  have houtput : (convertFile smallFiles ⟨false, 4⟩ "list").outcome = .ok output := by
    decide +kernel
  have hagree := (entry_points_agree smallFiles hhome ⟨false, 4⟩ "list" list hlist).1 output
  refine ⟨hhome, hlist, hone, houtput, hagree.1 houtput, ?_⟩
  have hread : Document.read one = .ok (some ⟨⟨#[.scalar ⟨includeTag, "two"⟩]⟩, 0⟩) := by
    decide +kernel
  have htwo : smallFiles.load (Path.join "/w" "two") = .ok (some ⟨⟨#[.sequence (coreTag "seq") [1],
    .scalar ⟨includeTag, "./../w//one"⟩]⟩, 0⟩) := by decide +kernel
  have hdir : includeDirOf smallFiles "../w/one" = "/w" := by decide +kernel
  have hmentions : smallFiles.source.Mentions (includeDirOf smallFiles "../w/one")
      ⟨⟨#[.scalar ⟨includeTag, "two"⟩]⟩, 0⟩ "./../w//one" := by
    rw [hdir]
    exact .inside rfl htwo (.part (.item rfl (List.mem_singleton_self 1)) (.here rfl))
  obtain ⟨-, -, -, hself⟩ := entry_points_agree smallFiles hhome ⟨false, 4⟩ "../w/one" one hone
  exact hself _ _ hread hmentions (by decide +kernel)

end FileTree

end PhpArray

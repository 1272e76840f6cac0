import Mathlib.Algebra.Group.Nat.Defs
import PhpArray.Proofs.Command
import PhpArray.Proofs.EntryPoints
import PhpArray.Proofs.IncludeChain

/-!
Failures that are not a document's. A conversion has three kinds: a path that no file can have,
for a null character or for surrogates, a number in a text that is neither read nor refused, and a
number in base sixty with so many parts that no double holds the highest power. Writing has one
more, a program with surrogates. The main statement is that nothing else fails but for reasons that
are the document's, for which the command has an answer. No limit is set here to how deep a
rendering may nest, nor to the memory that a program takes.
-/

namespace PhpArray

open Yaml

/-! ### Scalars without a literal -/

namespace Yaml

/-- The highest power of sixty that a double holds is the 173rd. -/
theorem ofInt?_sixty_pow {i : Nat} (hi : i ≤ 174) :
    Binary64.ofInt? (60 ^ i : Nat) = none ↔ i = 174 := by
  -- There are few powers to look at, so no bound on their logarithms is needed.
  revert i
  decide +kernel

theorem sexagesimalFrom_outOfRange_iff {parts : List Binary64} {i : Nat} (hi : i ≤ 174)
    (sum : Binary64) :
    sexagesimalFrom (60 ^ i) sum parts = .error .outOfRange ↔ 175 ≤ i + parts.length := by
  induction parts generalizing i sum with
  | nil =>
      simp only [sexagesimalFrom, List.length_nil, reduceCtorEq, false_iff]
      omega
  | cons part higher ih =>
      rw [sexagesimalFrom, List.length_cons]
      split
      next hnone =>
        have hlast := (ofInt?_sixty_pow hi).1 hnone
        simp only [true_iff]
        omega
      next factor hsome =>
        have hlast : i ≠ 174 := by
          intro hlast
          rw [(ofInt?_sixty_pow hi).2 hlast] at hsome
          cases hsome
        rw [← Nat.pow_succ, ih (by omega)]
        omega

theorem readUnsignedFloat_outOfRange_iff {text : List Char} :
    readUnsignedFloat text = .error .outOfRange ↔
      ':' ∈ text ∧ ∃ parts, (text.splitOn ':').mapM Decimal.read? = some parts ∧
        175 ≤ parts.length := by
  unfold readUnsignedFloat
  split
  next hinf => simp [hinf]
  split
  next hnan => simp [hnan]
  split
  next hcolon =>
    cases hparts : (text.splitOn ':').mapM Decimal.read? with
    | none => simp
    | some parts =>
        have hrange : sexagesimalFrom 1 (.zero false) parts.reverse = .error .outOfRange ↔
            175 ≤ 0 + parts.reverse.length :=
          sexagesimalFrom_outOfRange_iff (Nat.zero_le 174) (.zero false)
        simpa [hcolon] using hrange
  next hcolon =>
    cases Decimal.read? text <;> simp [hcolon]

private theorem map_eq_error_iff {ε α β : Type} {f : α → β} {x : Except ε α} {e : ε} :
    x.map f = .error e ↔ x = .error e := by
  cases x <;> simp [Except.map]

/-- A float in base sixty of 175 parts or more. -/
def Scalar.IsOutOfRange (s : Scalar) : Prop :=
  let unsigned := (Numeral.splitSign (lowerCase (dropBars s.value.toList))).2
  Literal.kindOf s.tag = .float ∧ ':' ∈ unsigned ∧
    ∃ parts, (unsigned.splitOn ':').mapM Decimal.read? = some parts ∧ 175 ≤ parts.length

theorem Scalar.not_hasLiteral_iff {s : Scalar} : ¬ s.HasLiteral ↔ s.IsOutOfRange := by
  have helim {α : Type} (x : Option α) (f : α → String) :
      (x.map f).elim (.error .malformed) .ok ≠ (.error .outOfRange : Except ValueFault String) := by
    cases x <;> simp
  unfold Scalar.HasLiteral Scalar.IsOutOfRange
  rw [not_not]
  cases hkind : Literal.kindOf s.tag with
  | string => simp [Literal.ofText]
  | bool => simpa [Literal.ofText] using helim _ _
  | int =>
      cases hvalue : (readInt? s.value.toList).bind Numeral.write? <;>
        simp [Literal.ofText, hvalue]
  | float =>
      rw [Literal.ofText, map_eq_error_iff, readFloat, map_eq_error_iff,
        readUnsignedFloat_outOfRange_iff]
      simp
  | null => simp [Literal.ofText]

end Yaml

/-! ### Texts that are not read -/

/-- A text that is not parsed is refused or holds a number out of range. -/
theorem parse_error {origin : Option String} {text : List Char} {failure : Failure}
    (h : parse origin text = .error failure) : failure.isConversion = true ∨
      ∃ fault, Document.read text = .error fault ∧ fault.stage? = none ∧
        failure = .numberRange fault := by
  unfold parse at h
  split at h
  · cases h
  next fault hread =>
    split at h
    · cases h
      exact .inl rfl
    next hstage =>
      cases h
      exact .inr ⟨fault, hread, hstage, rfl⟩

namespace FileTree

variable {files : FileTree}

theorem readText_error {path : String} {failure : Failure}
    (h : files.readText path = .error failure) :
    failure.isConversion = true ∨
      ∃ fault, Path.fault? path = some fault ∧ failure = .badPath fault := by
  unfold readText at h
  split at h
  next fault hfault =>
    cases h
    exact .inr ⟨fault, hfault, rfl⟩
  split at h
  · cases h
    exact .inl rfl
  · split at h <;> cases h
    exact .inl rfl

/-- Why a file is not loaded for which no document is to blame. -/
inductive Unreported (files : FileTree) (path : String) : Failure → Prop
  | path {fault : Path.Fault} :
      Path.fault? path = some fault → Unreported files path (.badPath fault)
  | number {text : List Char} {fault : Fault} :
      files.readText path = .ok text → Document.read text = .error fault →
      fault.stage? = none → Unreported files path (.numberRange fault)

theorem load_error {path : String} {failure : Failure} (h : files.load path = .error failure) :
    failure.isConversion = true ∨ files.Unreported path failure := by
  unfold load at h
  cases htext : files.readText path with
  | error failure' =>
      simp only [htext, bind, Except.bind] at h
      cases h
      rcases readText_error htext with hconversion | ⟨fault, hfault, rfl⟩
      · exact .inl hconversion
      · exact .inr (.path hfault)
  | ok text =>
      simp only [htext, bind, Except.bind] at h
      rcases parse_error h with hconversion | ⟨fault, hread, hstage, rfl⟩
      · exact .inl hconversion
      · exact .inr (.number htext hread hstage)

/-- Why a document is not rendered for which no document is to blame: for a file that is included,
or for a number that is written, by the document or by one that includes lead to. -/
inductive Uncaught (files : FileTree) (dir : String) (d : Document) : Failure → Prop
  | load {targets : List String} {last : Document} {id : NodeId} {name : String}
      {failure : Failure} :
      files.source.Leads dir d targets last → last.Rendered id →
      last.graph.node id = .scalar ⟨includeTag, name⟩ →
      files.Unreported (Path.join dir name) failure → Uncaught files dir d failure
  | range {targets : List String} {last : Document} {s : Scalar} :
      files.source.Leads dir d targets last → last.Writes s → s.IsOutOfRange →
      Uncaught files dir d .floatRange

/-- The first failing point of a rendering is a failure of a document, or one of three others. -/
theorem render_error {r : Renderer} (hsource : r.source = files.source) (hindent : 0 ≤ r.indent)
    {d : Document} {failure : Failure}
    (h : (r.render d.graph d.root).outcome = .error failure) :
    failure.isConversion = true ∨ files.Uncaught r.includeDir d failure := by
  have hne : failure ≠ .nesting := by
    rintro rfl
    exact render_ne_nesting hsource d.graph d.root h
  -- A run that fails ends at a stuck task, and every task reached belongs to a document that
  -- includes lead to; only three ways to be stuck are not the document's.
  obtain ⟨task, n, rest, before, last, hsteps, hstuck, -⟩ :=
    (Renderer.renderWithin_does hindent (r.budget d.graph) d.graph d.root).stops failure h hne
  have hstart : ∀ task ∈ r.start d.graph d.root,
      r.source.WithinSome r.includeDir r.chain d task := by
    intro task htask
    rw [List.mem_singleton.1 htask]
    exact ⟨[], d, .root, (List.append_nil r.chain).symm, .nil, by simp, rfl, .root⟩
  have hwithin := hsteps.forall_mem Source.WithinSome.step hstart _ List.mem_cons_self
  rw [hsource] at hstuck hwithin
  cases hstuck with
  | keyRange _ hliteral =>
      obtain ⟨targets, last, hleads, hwrites⟩ := hwithin
      exact .inr (.range hleads (hwrites _ rfl) (Scalar.not_hasLiteral_iff.1 hliteral))
  | range hnode _ hliteral =>
      obtain ⟨targets, last, hleads, -, -, -, rfl, hrendered⟩ := hwithin
      have hwrites : last.Writes _ := .value hrendered hnode
      exact .inr (.range hleads hwrites (Scalar.not_hasLiteral_iff.1 hliteral))
  | load hnode _ hload =>
      obtain ⟨targets, last, hleads, -, -, -, rfl, hrendered⟩ := hwithin
      exact (load_error hload).imp_right (.load hleads hrendered hnode)
  | _ => exact .inl rfl

theorem convertDocument_error {layout : Layout} (hindent : 0 ≤ layout.indent) {dir : String}
    {chain : List String} {document : Option Document} {failure : Failure}
    (h : (convertDocument files.source layout dir chain document).outcome = .error failure) :
    failure.isConversion = true ∨ ∃ d, document = some d ∧ files.Uncaught dir d failure := by
  have hchecked : Renderer.checked ⟨dir, layout.pretty, layout.indent, 0, chain, files.source⟩ =
      .ok _ := Renderer.checked_ok hindent
  rw [convertDocument, hchecked, Run.ofExcept_ok, pure_bind] at h
  cases document with
  | none => cases h
  | some d =>
      dsimp only at h
      cases hrender : (Renderer.render ⟨dir, layout.pretty, layout.indent, 0, chain, files.source⟩
          d.graph d.root).outcome with
      | ok output => simp [Run.bind_of_ok _ hrender] at h
      | error failure' =>
          rw [Run.bind_of_error _ hrender] at h
          cases h
          exact (render_error rfl hindent hrender).imp_right fun h => ⟨d, rfl, h⟩

/-- Why a text is not converted for which no document is to blame. -/
inductive UncaughtText (files : FileTree) (dir : String) (text : List Char) : Failure → Prop
  | number {fault : Fault} :
      Document.read text = .error fault → fault.stage? = none →
      UncaughtText files dir text (.numberRange fault)
  | document {d : Document} {failure : Failure} :
      Document.read text = .ok (some d) → files.Uncaught dir d failure →
      UncaughtText files dir text failure

/-- Why a file is not converted for which no document is to blame. -/
inductive UncaughtFile (files : FileTree) (path : String) : Failure → Prop
  | path {fault : Path.Fault} :
      Path.fault? path = some fault → UncaughtFile files path (.badPath fault)
  | text {text : List Char} {failure : Failure} :
      files.readText path = .ok text →
      files.UncaughtText (includeDirOf files path) text failure → UncaughtFile files path failure

theorem parsed_error {layout : Layout} (hindent : 0 ≤ layout.indent) {origin : Option String}
    {text : List Char} {dir : String} {chain : List String} {failure : Failure}
    (h : (Run.ofExcept (parse origin text) >>=
      convertDocument files.source layout dir chain).outcome = .error failure) :
    failure.isConversion = true ∨ files.UncaughtText dir text failure := by
  cases hparse : parse origin text with
  | error failure' =>
      simp only [hparse, Run.ofExcept_error, Run.fail_bind, Run.outcome_fail] at h
      cases h
      refine (parse_error hparse).imp_right ?_
      rintro ⟨fault, hread, hstage, rfl⟩
      exact .number hread hstage
  | ok document =>
      simp only [hparse, Run.ofExcept_ok, pure_bind] at h
      refine (convertDocument_error hindent h).imp_right ?_
      rintro ⟨d, rfl, huncaught⟩
      exact .document (parse_ok_iff.1 hparse) huncaught

theorem convertFile_error {layout : Layout} (hindent : 0 ≤ layout.indent) {path : String}
    {failure : Failure}
    (h : (convertFile files layout path).outcome = .error failure) :
    failure.isConversion = true ∨ files.UncaughtFile path failure := by
  cases hread : files.readText path with
  | error failure' =>
      have hload : files.load path = .error failure' := by simp [load, hread, bind, Except.bind]
      rw [convertFile, Run.bind_of_ok _ (Run.outcome_note _), hload] at h
      cases h
      refine (readText_error hread).imp_right ?_
      rintro ⟨fault, hfault, rfl⟩
      exact .path hfault
  | ok text =>
      rw [convertFile_eq hread, Run.bind_of_ok _ (Run.outcome_note _)] at h
      exact (parsed_error hindent h).imp_right (.text hread)

end FileTree

namespace CommandLine

open Text.Utf8 (encode)

variable {request : Request} {files : FileTree} {writing : Writing} {conversion : Run String}
  {effect : Effect}

/-- Why a program is not written for which the command has no answer. -/
inductive Request.Unwritten (request : Request) (program : String) : Failure → Prop
  | program {fault : Text.Utf8.Unencodable} :
      encode (program ++ "\n") = .error fault → Unwritten request program (.unencodable fault)
  | line {path : String} {fault : Text.Utf8.Unencodable} :
      request.out = some path → encode (completionLine path) = .error fault →
      Unwritten request program (.unencodable fault)
  | path {path part : String} {fault : Path.Fault} :
      request.out = some path → part.toList <+: path.toList → Path.fault? part = some fault →
      Unwritten request program (.badPath fault)

theorem Request.Ends.unwritten (h : request.Ends files writing conversion effect)
    {program : String} {failure : Failure} (hprogram : conversion.outcome = .ok program)
    (hstatus : effect.status = .error failure) : request.Unwritten program failure := by
  cases h with
  | negative _ | printed _ _ _ _ | saved _ _ _ _ _ => cases hstatus
  | failed _ hfailure _ => simp [hprogram] at hfailure
  | unprinted _ hprogram' _ hencode =>
      cases hprogram.symm.trans hprogram'
      cases hstatus
      exact .program hencode
  | unannounced _ _ hout _ hencode =>
      cases hstatus
      exact .line hout hencode
  | @unsaved _ _ path _ fault _ hprogram' hout hsave =>
      cases hprogram.symm.trans hprogram'
      rcases FileTree.save_fault (congrArg Prod.snd hsave) with hunopened | hwritten
      · cases hunopened with
        | path hpart hfault =>
            cases hstatus
            exact .path hout hpart hfault
        | refused _ => cases hstatus
      · rcases Writing.written_fault hwritten with ⟨bad, hencode, rfl⟩ | ⟨refusal, rfl⟩
        · cases hstatus
          exact .program hencode
        · cases hstatus

end CommandLine

/-- A conversion that fails does so for a failure of a document or for one of three others: a path
that no file can have, a number in a text that is neither read nor refused, and a float in base
sixty of too many parts. The command reports the first kind and ends with status one, and does not
answer for the others. Nor does it answer for a program that it cannot encode, for a line on the
output that it cannot encode, and for an output path that no file can have. -/
theorem failures_classified (files : FileTree) :
    (∀ layout dir text failure, 0 ≤ layout.indent →
      (convertText files layout dir text).outcome = .error failure →
      failure.isConversion = true ∨
        files.UncaughtText (dir.getD files.homePath) text failure) ∧
    (∀ layout path failure, 0 ≤ layout.indent →
      (convertFile files layout path).outcome = .error failure →
      failure.isConversion = true ∨ files.UncaughtFile path failure) ∧
    (∀ (request : CommandLine.Request) writing input failure, 0 ≤ request.indent →
      (request.convert files input).outcome = .error failure →
      ((request.run files writing input).status = .ok 1 ∧
        ∃ log, (request.run files writing input).errors =
          log ++ "Conversion failed: " ++ failure.message ++ "\n") ∨
        (request.run files writing input).status = .error failure ∧
          if request.input = "-" then
            files.UncaughtText files.homePath (Text.unifyLineEnds input) failure
          else files.UncaughtFile request.input failure) ∧
    ∀ (request : CommandLine.Request) writing input program failure,
      (request.convert files input).outcome = .ok program →
      (request.run files writing input).status = .error failure →
      request.Unwritten program failure := by
  refine ⟨fun layout dir text failure hindent h => ?_, fun layout path failure hindent h => ?_,
    fun request writing input failure hindent h => ?_,
    fun request writing input program failure h hstatus => ?_⟩
  · exact FileTree.parsed_error hindent h
  · exact FileTree.convertFile_error hindent h
  · unfold CommandLine.Request.run
    rw [if_neg (Int.not_lt.2 hindent)]
    simp only [h]
    split
    next => exact .inl ⟨rfl, _, rfl⟩
    next hother =>
      refine .inr ⟨rfl, ?_⟩
      unfold CommandLine.Request.convert at h
      split
      next hinput =>
        rw [if_pos hinput] at h
        exact (FileTree.parsed_error hindent h).resolve_left hother
      next hinput =>
        rw [if_neg hinput] at h
        exact (FileTree.convertFile_error hindent h).resolve_left hother
  · exact (request.run_ends files writing input).unwritten h hstatus

/-- A directory without files. -/
def emptyFiles : FileTree :=
  ⟨["w"], [(["w"], .directory)]⟩

/-- A surrogate by itself. -/
def loneSurrogate (position : Nat) : Text.Utf8.Unencodable :=
  ⟨0xD800, position, 0⟩

theorem failures_classified_emptyFiles :
    let path := "v: !include \"a\\u0000b\"\n".toList
    let surrogate := "v: !include \"/\\uD800\"\n".toList
    let request : CommandLine.Request := ⟨"-", none, false, 4, false⟩
    let value := "v: \"\\uD800\"\n".toList
    emptyFiles.UncaughtText emptyFiles.homePath path (.badPath .null) ∧
      emptyFiles.UncaughtText emptyFiles.homePath surrogate
        (.badPath (.unencodable (loneSurrogate 1))) ∧
      emptyFiles.UncaughtFile "a\u0000b" (.badPath .null) ∧
      (request.run emptyFiles .complete value).status = .error (.unencodable (loneSurrogate 27)) ∧
      ∃ program, (request.convert emptyFiles value).outcome = .ok program ∧
        request.Unwritten program (.unencodable (loneSurrogate 27)) := by
  intro path surrogate request value
  have htext : (convertText emptyFiles ⟨false, 4⟩ none path).outcome = .error (.badPath .null) := by
    decide +kernel
  have hsurrogate : (convertText emptyFiles ⟨false, 4⟩ none surrogate).outcome =
      .error (.badPath (.unencodable (loneSurrogate 1))) := by decide +kernel
  have hfile : (convertFile emptyFiles ⟨false, 4⟩ "a\u0000b").outcome =
      .error (.badPath .null) := by decide +kernel
  obtain ⟨program, hprogram⟩ :
      ∃ program, (request.convert emptyFiles value).outcome = .ok program :=
    ⟨String.ofList ("<?php\nreturn array('v' => '".toList ++ Text.ofCodePoint 0xD800 ++
      "');".toList), by decide +kernel⟩
  have hstatus : (request.run emptyFiles .complete value).status =
      .error (.unencodable (loneSurrogate 27)) := by decide +kernel
  obtain ⟨hofText, hofFile, -, hofProgram⟩ := failures_classified emptyFiles
  refine ⟨?_, ?_, ?_, hstatus, program, hprogram,
    hofProgram request .complete value program _ hprogram hstatus⟩
  · exact (hofText ⟨false, 4⟩ none path _ (by decide) htext).resolve_left (by decide)
  · exact (hofText ⟨false, 4⟩ none surrogate _ (by decide) hsurrogate).resolve_left (by decide)
  · exact (hofFile ⟨false, 4⟩ _ _ (by decide) hfile).resolve_left (by decide)

/-- A path that no file can have, an escape for no code point and a program with a surrogate are
answered neither by a failure of the document nor by the command. -/
theorem failures_not_all_conversions :
    let request : CommandLine.Request := ⟨"-", none, false, 4, false⟩
    let path := "v: !include \"a\\u0000b\"\n".toList
    let surrogate := "v: !include \"/\\uD800\"\n".toList
    let escape := "a: \"\\U00110000\"\n".toList
    let value := "v: \"\\uD800\"\n".toList
    (convertText emptyFiles ⟨false, 4⟩ none path).outcome = .error (.badPath .null) ∧
      (Failure.badPath .null).isConversion = false ∧
      (request.run emptyFiles .complete path).status = .error (.badPath .null) ∧
      (convertText emptyFiles ⟨false, 4⟩ none surrogate).outcome =
        .error (.badPath (.unencodable (loneSurrogate 1))) ∧
      (convertText emptyFiles ⟨false, 4⟩ none escape).outcome =
        .error (.numberRange (.codePoint 0x110000)) ∧
      (Failure.numberRange (.codePoint 0x110000)).isConversion = false ∧
      (request.run emptyFiles .complete value).status =
        .error (.unencodable (loneSurrogate 27)) := by
  decide +kernel

end PhpArray

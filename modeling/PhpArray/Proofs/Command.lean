import PhpArray.CommandLine.Command
import PhpArray.Proofs.Saving

/-!
What a call of the command leaves behind. A request ends in one of seven ways, which `Request.Ends`
lists; only two of them are a success. The main statement says when a call succeeds, what it prints
and what it does to the files. A call that fails prints nothing, but it is not without effect: once
the file for the program is open, what it held is gone, and a write that fails leaves it cut short.
-/

namespace PhpArray.CommandLine

open Text.Utf8 (encode)

variable {request : Request} {files : FileTree} {writing : Writing} {conversion : Run String}
  {effect : Effect}

/-- The ways in which a request ends whose conversion is given. -/
inductive Request.Ends (request : Request) (files : FileTree) (writing : Writing)
    (conversion : Run String) : Effect → Prop
  | negative {errors : String} : request.indent < 0 →
      Ends request files writing conversion ⟨.ok 2, "", errors, files, []⟩
  | failed {failure : Failure} {status : Except Failure Nat} {errors : String} :
      0 ≤ request.indent → conversion.outcome = .error failure →
      status = .ok 1 ∨ status = .error failure →
      Ends request files writing conversion ⟨status, "", errors, files, conversion.loads⟩
  | printed {program errors : String} {bytes : List UInt8} :
      0 ≤ request.indent → conversion.outcome = .ok program → request.out = none →
      encode (program ++ "\n") = .ok bytes →
      Ends request files writing conversion
        ⟨.ok 0, program ++ "\n", errors, files, conversion.loads⟩
  | unprinted {program errors : String} {fault : Text.Utf8.Unencodable} :
      0 ≤ request.indent → conversion.outcome = .ok program → request.out = none →
      encode (program ++ "\n") = .error fault →
      Ends request files writing conversion
        ⟨.error (.unencodable fault), "", errors, files, conversion.loads⟩
  | saved {program errors path : String} {written : FileTree} {bytes : List UInt8} :
      0 ≤ request.indent → conversion.outcome = .ok program → request.out = some path →
      files.save path writing (program ++ "\n") = (written, none) →
      encode (completionLine path) = .ok bytes →
      Ends request files writing conversion
        ⟨.ok 0, completionLine path, errors, written, conversion.loads⟩
  | unannounced {program errors path : String} {written : FileTree}
      {fault : Text.Utf8.Unencodable} :
      0 ≤ request.indent → conversion.outcome = .ok program → request.out = some path →
      files.save path writing (program ++ "\n") = (written, none) →
      encode (completionLine path) = .error fault →
      Ends request files writing conversion
        ⟨.error (.unencodable fault), "", errors, written, conversion.loads⟩
  | unsaved {program errors path : String} {left : FileTree} {fault : SaveFault} :
      0 ≤ request.indent → conversion.outcome = .ok program → request.out = some path →
      files.save path writing (program ++ "\n") = (left, some fault) →
      Ends request files writing conversion
        ⟨(saveAnswer fault).map fun _ => 1, "", errors, left, conversion.loads⟩

theorem Request.run_ends (request : Request) (files : FileTree) (writing : Writing)
    (input : List Char) :
    request.Ends files writing (request.convert files input)
      (request.run files writing input) := by
  unfold run
  split
  next hnegative => exact .negative hnegative
  next hindent =>
    rw [Int.not_lt] at hindent
    dsimp only
    split
    next program hprogram =>
      unfold writeProgram printed
      split
      next hout =>
        split
        next bytes hencode => exact .printed hindent hprogram hout hencode
        next fault hencode => exact .unprinted hindent hprogram hout hencode
      next path hout =>
        split
        next written hsave =>
          split
          next bytes hencode => exact .saved hindent hprogram hout hsave hencode
          next fault hencode => exact .unannounced hindent hprogram hout hsave hencode
        next left fault hsave =>
          have hends (errors : String) : request.Ends files writing (request.convert files input)
              ⟨(saveAnswer fault).map fun _ => 1, "", errors, left, _⟩ :=
            .unsaved hindent hprogram hout hsave
          split
          next message hanswer =>
            rw [hanswer] at hends
            exact hends _
          next failure hanswer =>
            rw [hanswer] at hends
            exact hends _
    next failure hfailure =>
      split
      · exact .failed hindent hfailure (.inl rfl)
      · exact .failed hindent hfailure (.inr rfl)

/-- A request succeeds if there is a program and it can be put where it was asked for. -/
theorem Request.Ends.status_iff (h : request.Ends files writing conversion effect) :
    effect.status = .ok 0 ↔ 0 ≤ request.indent ∧ ∃ program, conversion.outcome = .ok program ∧
      (∃ bytes, encode (program ++ "\n") = .ok bytes) ∧
      ∀ path, request.out = some path → files.CanOpen path ∧ writing = .complete ∧
        ∃ bytes, encode (completionLine path) = .ok bytes := by
  cases h with
  | negative hnegative => simp [Int.not_le.2 hnegative]
  | failed _ hfailure hstatus => rcases hstatus with rfl | rfl <;> simp [hfailure]
  | printed hindent hprogram hout hencode => simp [hindent, hprogram, hout, hencode]
  | unprinted _ hprogram _ hencode => simp [hprogram, hencode]
  | @saved program _ path _ _ hindent hprogram hout hsave hline =>
      have hsaved := FileTree.save_snd_eq_none_iff.1 (congrArg Prod.snd hsave)
      simp [hindent, hprogram, hout, hsaved, hline]
  | unannounced _ hprogram hout _ hline => simp [hprogram, hout, hline]
  | @unsaved program _ path left fault _ hprogram hout hsave =>
      have hunsaved : (files.save path writing (program ++ "\n")).2 ≠ none := by simp [hsave]
      rw [ne_eq, FileTree.save_snd_eq_none_iff] at hunsaved
      have hstatus : ((saveAnswer fault).map fun _ => 1) ≠ .ok 0 := by
        cases fault <;> simp [saveAnswer, Except.map]
      simp only [hstatus, hprogram, hout, false_iff, Except.ok.injEq, Option.some.injEq]
      rintro ⟨-, _, rfl, hencode, hall⟩
      obtain ⟨hopen, hcomplete, -⟩ := hall path rfl
      exact hunsaved ⟨hopen, hcomplete, hencode⟩

/-- A request that succeeds writes its program to the output or to the file. -/
theorem Request.Ends.written (h : request.Ends files writing conversion effect)
    (hstatus : effect.status = .ok 0) : ∃ program bytes, conversion.outcome = .ok program ∧
      encode (program ++ "\n") = .ok bytes ∧
      (request.out = none → effect.output = program ++ "\n" ∧ effect.files = files) ∧
      ∀ path, request.out = some path →
        effect.output = completionLine path ∧ files.Holds effect.files path bytes := by
  cases h with
  | negative _ => cases hstatus
  | failed _ _ hother => rcases hother with rfl | rfl <;> cases hstatus
  | printed _ hprogram hout hencode =>
      exact ⟨_, _, hprogram, hencode, fun _ => ⟨rfl, rfl⟩, by simp [hout]⟩
  | unprinted _ _ _ _ => cases hstatus
  | @saved program _ path _ _ _ hprogram hout hsave hline =>
      obtain ⟨hopen, rfl, bytes, hencode⟩ :=
        FileTree.save_snd_eq_none_iff.1 (congrArg Prod.snd hsave)
      refine ⟨program, bytes, hprogram, hencode, by simp [hout], fun path' hpath => ?_⟩
      obtain rfl : path = path' := Option.some.inj (hout.symm.trans hpath)
      have hholds := (hopen.save_holds .complete (program ++ "\n")).2
      rw [hsave, Writing.written_complete hencode] at hholds
      exact ⟨rfl, hholds⟩
  | unannounced _ _ _ _ _ => cases hstatus
  | @unsaved _ _ _ _ fault _ _ _ _ => cases fault <;> cases hstatus

/-- A request that does not succeed prints nothing. -/
theorem Request.Ends.output_eq (h : request.Ends files writing conversion effect)
    (hstatus : effect.status ≠ .ok 0) : effect.output = "" := by
  cases h with
  | printed _ _ _ _ | saved _ _ _ _ _ => exact absurd rfl hstatus
  | _ => rfl

/-- A request with a program and a file for it leaves the files as the save does. -/
theorem Request.Ends.files_eq_save (h : request.Ends files writing conversion effect)
    {path program : String} (hindent : 0 ≤ request.indent)
    (hprogram : conversion.outcome = .ok program) (hout : request.out = some path) :
    effect.files = (files.save path writing (program ++ "\n")).1 := by
  cases h with
  | negative hnegative => exact absurd hnegative (Int.not_lt.2 hindent)
  | failed _ hfailure _ => simp [hprogram] at hfailure
  | printed _ _ hnone _ | unprinted _ _ hnone _ => simp [hout] at hnone
  | saved _ hprogram' hout' hsave _ | unannounced _ hprogram' hout' hsave _
  | unsaved _ hprogram' hout' hsave =>
      cases hprogram.symm.trans hprogram'
      cases hout.symm.trans hout'
      rw [hsave]

/-- Without a program or a file for it, a request changes no file. -/
theorem Request.Ends.files_eq (h : request.Ends files writing conversion effect)
    (hnothing : request.indent < 0 ∨ (∃ failure, conversion.outcome = .error failure) ∨
      request.out = none) : effect.files = files := by
  cases h with
  | saved hindent hprogram hout _ _ | unannounced hindent hprogram hout _ _
  | unsaved hindent hprogram hout _ => simp [Int.not_lt.2 hindent, hprogram, hout] at hnothing
  | _ => rfl

/-- A write that is stopped is answered for. -/
theorem Request.Ends.status_of_stops (h : request.Ends files writing conversion effect)
    {path program : String} {bytes : List UInt8} {count : Nat} {refusal : WriteRefusal}
    (hindent : 0 ≤ request.indent) (hprogram : conversion.outcome = .ok program)
    (hout : request.out = some path) (hopen : files.CanOpen path)
    (hencode : encode (program ++ "\n") = .ok bytes) (hstops : writing = .stops count refusal) :
    effect.status = .ok 1 := by
  have hstopped : (files.save path writing (program ++ "\n")).2 = some (.stopped refusal) := by
    rw [(hopen.save_holds writing _).1, hstops]
    simp [Writing.written, hencode]
  cases h with
  | negative hnegative => exact absurd hnegative (Int.not_lt.2 hindent)
  | failed _ hfailure _ => simp [hprogram] at hfailure
  | printed _ _ hnone _ | unprinted _ _ hnone _ => simp [hout] at hnone
  | saved _ hprogram' hout' hsave _ | unannounced _ hprogram' hout' hsave _ =>
      cases hprogram.symm.trans hprogram'
      cases hout.symm.trans hout'
      simp [hsave] at hstopped
  | unsaved _ hprogram' hout' hsave =>
      cases hprogram.symm.trans hprogram'
      cases hout.symm.trans hout'
      rw [hsave] at hstopped
      cases hstopped
      rfl

theorem Request.Ends.status_le (h : request.Ends files writing conversion effect) {code : Nat}
    (hcode : effect.status = .ok code) : code ≤ 2 := by
  cases h with
  | negative _ | printed _ _ _ _ | saved _ _ _ _ _ => cases hcode; simp
  | failed _ _ hstatus => rcases hstatus with rfl | rfl <;> cases hcode; simp
  | unprinted _ _ _ _ | unannounced _ _ _ _ _ => cases hcode
  | @unsaved _ _ _ _ fault _ _ _ _ => cases fault <;> cases hcode <;> simp

/-- What a call leaves behind. It succeeds if the indent is not negative, the conversion gives a
program that can be encoded and the file, if one is asked for, can be opened and written to its end;
then the whole program is on the output or in the file, and no other file has changed. Otherwise
there is no output. A file that was opened holds as much as was written, which may be a beginning
or nothing, also where the status is one; if none was opened, no file has changed. -/
theorem call_leaves_behind (files : FileTree) (writing : Writing) (input : List Char)
    (args : List String) (request : Request) (haccepted : readArguments args = .ok request) :
    let layout : Layout := ⟨request.pretty, request.indent⟩
    let conversion :=
      if request.input = "-" then convertText files layout none (Text.unifyLineEnds input)
      else convertFile files layout request.input
    let effect := call files writing input args
    (effect.status = .ok 0 ↔ 0 ≤ request.indent ∧ ∃ program, conversion.outcome = .ok program ∧
      (∃ bytes, encode (program ++ "\n") = .ok bytes) ∧
      ∀ path, request.out = some path → files.CanOpen path ∧ writing = .complete ∧
        ∃ bytes, encode ("Conversion completed. Output at: " ++ path ++ "\n") = .ok bytes) ∧
    (effect.status = .ok 0 → ∃ program bytes, conversion.outcome = .ok program ∧
      encode (program ++ "\n") = .ok bytes ∧
      (request.out = none → effect.output = program ++ "\n" ∧ effect.files = files) ∧
      ∀ path, request.out = some path →
        effect.output = "Conversion completed. Output at: " ++ path ++ "\n" ∧
        files.Holds effect.files path bytes) ∧
    (effect.status ≠ .ok 0 → effect.output = "") ∧
    (∀ program path, 0 ≤ request.indent → conversion.outcome = .ok program →
      request.out = some path →
      (files.CanOpen path →
        files.Holds effect.files path (writing.written (program ++ "\n")).1 ∧
        ∀ bytes count refusal, encode (program ++ "\n") = .ok bytes →
          writing = .stops count refusal → effect.status = .ok 1) ∧
      (¬ files.CanOpen path → files.Grows effect.files)) ∧
    (request.indent < 0 ∨ (∃ failure, conversion.outcome = .error failure) ∨
      request.out = none → effect.files = files) ∧
    ∀ code, effect.status = .ok code → code ≤ 2 := by
  intro layout conversion effect
  have heffect : effect = request.run files writing input := by
    unfold effect call
    rw [haccepted]
  have hends : request.Ends files writing conversion effect := by
    rw [heffect]
    exact request.run_ends files writing input
  refine ⟨hends.status_iff, hends.written, hends.output_eq, ?_, hends.files_eq,
    fun _ => hends.status_le⟩
  intro program path hindent hprogram hout
  rw [hends.files_eq_save hindent hprogram hout]
  refine ⟨fun hopen => ⟨(hopen.save_holds writing _).2, ?_⟩, fun hopen => ?_⟩
  · intro bytes count refusal hencode hstops
    exact hends.status_of_stops hindent hprogram hout hopen hencode hstops
  · obtain ⟨grown, fault, hsave, hgrown⟩ := FileTree.save_grows hopen writing (program ++ "\n")
    rwa [hsave]

/-- A file in the current directory, and one in another that includes it. -/
def twoFiles : FileTree :=
  ⟨["w"], [(["w"], .directory), (["w", "leaf"], .file "7".toUTF8.toList),
    (["w", "part"], .directory), (["w", "part", "in"], .file "- !include ../leaf".toUTF8.toList)]⟩

/-- The output takes the place of an included file, as a whole or cut short. -/
theorem call_leaves_behind_twoFiles :
    let args := ["part/in", "--out=part/../new/../leaf"]
    let bytes := "<?php\nreturn array(7);\n".toUTF8.toList
    let whole := call twoFiles .complete [] args
    let cut := call twoFiles (.stops 5 .quotaExceeded) [] args
    readArguments args = .ok ⟨"part/in", some "part/../new/../leaf", false, 4, false⟩ ∧
    whole.status = .ok 0 ∧ twoFiles.Holds whole.files "part/../new/../leaf" bytes ∧
    whole.files.read "leaf" = .ok bytes ∧ whole.files.find? ["w", "new"] = some .directory ∧
    cut.status = .ok 1 ∧ twoFiles.Holds cut.files "part/../new/../leaf" "<?php".toUTF8.toList := by
  intro args bytes whole cut
  have haccepted : readArguments args =
      .ok ⟨"part/in", some "part/../new/../leaf", false, 4, false⟩ := by decide +kernel
  have hstatus : whole.status = .ok 0 := by decide +kernel
  have hconverted : (convertFile twoFiles ⟨false, 4⟩ "part/in").outcome =
      .ok "<?php\nreturn array(7);" := by decide +kernel
  have hencode : encode ("<?php\nreturn array(7);" ++ "\n") = .ok bytes := by decide +kernel
  have hopen : twoFiles.CanOpen "part/../new/../leaf" := ⟨["w", "leaf"], by decide +kernel⟩
  obtain ⟨-, hwhole, -, -, -, -⟩ := call_leaves_behind twoFiles .complete [] args _ haccepted
  obtain ⟨-, -, -, hcut, -, -⟩ :=
    call_leaves_behind twoFiles (.stops 5 .quotaExceeded) [] args _ haccepted
  obtain ⟨program, bytes', hprogram, hencode', -, hout⟩ := hwhole hstatus
  rw [if_neg (by decide)] at hprogram hcut
  obtain rfl : program = "<?php\nreturn array(7);" :=
    Except.ok.inj (hprogram.symm.trans hconverted)
  obtain rfl : bytes' = bytes := Except.ok.inj (hencode'.symm.trans hencode)
  obtain ⟨hholds, hone⟩ := (hcut _ _ (by decide) hconverted rfl).1 hopen
  refine ⟨haccepted, hstatus, (hout _ rfl).2, by decide +kernel, by decide +kernel,
    hone bytes 5 .quotaExceeded hencode rfl, ?_⟩
  have hwritten : ((Writing.stops 5 .quotaExceeded).written
      ("<?php\nreturn array(7);" ++ "\n")).1 = "<?php".toUTF8.toList := by decide +kernel
  rwa [hwritten] at hholds

/-- A call that ends with status one has emptied a file and made another one. -/
theorem failed_call_leaves_cut_files :
    let onto := call twoFiles (.stops 0 .noSpace) "7".toList ["-", "-o", "leaf"]
    let anew := call twoFiles (.stops 3 .noSpace) "7".toList ["-", "-o", "new"]
    onto.status = .ok 1 ∧ anew.status = .ok 1 ∧
      onto.errors = "Writing output failed: [Errno 28] No space left on device\n" ∧
      twoFiles.find? ["w", "leaf"] = some (.file "7".toUTF8.toList) ∧
      onto.files.find? ["w", "leaf"] = some (.file []) ∧
      twoFiles.find? ["w", "new"] = none ∧
      anew.files.find? ["w", "new"] = some (.file "<?p".toUTF8.toList) := by
  decide +kernel

end PhpArray.CommandLine

import PhpArray.Files.Save
import PhpArray.Proofs.Paths

/-!
What saving a file does to a tree. The directories above the file are made first, and nothing is
changed by that but that they are there; then the file is opened, which takes its content away, and
written as far as that goes. So a save that does not come to open the file leaves all files as they
were, and one that does changes this file alone, but may leave it cut short.
-/

namespace PhpArray

/-- A text is written to its end if it can be encoded and the writing is not stopped. -/
theorem Writing.written_snd_eq_none_iff {writing : Writing} {text : String} :
    (writing.written text).2 = none ↔
      writing = .complete ∧ ∃ bytes, Text.Utf8.encode text = .ok bytes := by
  unfold written
  cases hencode : Text.Utf8.encode text with
  | error fault => simp
  | ok bytes => cases writing <;> simp

/-- What goes wrong with an open file is the text or the writing of it. -/
theorem Writing.written_fault {writing : Writing} {text : String} {fault : SaveFault}
    (h : (writing.written text).2 = some fault) :
    (∃ bad, Text.Utf8.encode text = .error bad ∧ fault = .unencodable bad) ∨
      ∃ refusal, fault = .stopped refusal := by
  unfold written at h
  split at h
  next bad hencode =>
    cases h
    exact .inl ⟨bad, hencode, rfl⟩
  next =>
    split at h <;> cases h
    exact .inr ⟨_, rfl⟩

theorem Writing.written_complete {text : String} {bytes : List UInt8}
    (h : Text.Utf8.encode text = .ok bytes) : Writing.complete.written text = (bytes, none) := by
  simp [written, h]

namespace FileTree

open PhpArray.Path

variable {t t' : FileTree}

/-- A tree with more directories, if any, in which all else is as it was. -/
structure Grows (t t' : FileTree) : Prop where
  home_eq : t'.home = t.home
  find?_cases : ∀ place, t'.find? place = t.find? place ∨
    (t.find? place = none ∧ t'.find? place = some .directory)

theorem Grows.refl (t : FileTree) : t.Grows t :=
  ⟨rfl, fun _ => .inl rfl⟩

theorem Grows.trans {last : FileTree} (h : t.Grows t') (h' : t'.Grows last) : t.Grows last := by
  refine ⟨h'.home_eq.trans h.home_eq, fun place => ?_⟩
  rcases h'.find?_cases place with hsame | ⟨hnone, hmade⟩
  · rw [hsame]
    exact h.find?_cases place
  · rcases h.find?_cases place with hsame | ⟨-, hmade'⟩
    · exact .inr ⟨hsame ▸ hnone, hmade⟩
    · rw [hmade'] at hnone
      cases hnone

/-- A path whose last name is empty ends in a slash. -/
theorem getLast?_of_names {path : String} (before : List String) (hbefore : before ≠ [])
    (h : names path = before ++ [""]) : path.toList.getLast? = some '/' := by
  have hends (parts : List (List Char)) (hparts : parts ≠ []) :
      ['/'].intercalate (parts ++ [[]]) = ['/'].intercalate parts ++ ['/'] := by
    induction parts with
    | nil => exact absurd rfl hparts
    | cons part rest ih =>
        cases rest with
        | nil => simp
        | cons next rest => simpa using ih (by simp)
  have hparts : path.toList.splitOn '/' = before.map String.toList ++ [[]] := by
    have hmap := congrArg (List.map String.toList) h
    simpa [names, Function.comp_def] using hmap
  have hpath : ['/'].intercalate (path.toList.splitOn '/') = path.toList :=
    List.intercalate_splitOn '/'
  rw [hparts, hends _ (by simpa using hbefore)] at hpath
  rw [← hpath, List.getLast?_concat]

/-- A path to something that may be new: the way to a directory, a name, and nothing behind it but
slashes. -/
structure LeadsTo (t : FileTree) (path : String) (place : Place) (name : String) : Prop where
  size : checkSize path = .ok ()
  isDirectoryAt : t.isDirectoryAt place = true
  ne_empty : name ≠ ""
  ne_dot : name ≠ "."
  ne_dots : name ≠ ".."
  names_eq : ∃ above slashes, names path = above ++ name :: slashes ∧
    (∀ part ∈ slashes, part = "") ∧ t.walk (t.origin path) above = .ok place

theorem leadsTo_of_locateNew {path : String} {place : Place} {name : String}
    (h : t.locateNew path = .ok (place, some name)) : t.LeadsTo path place name := by
  unfold locateNew at h
  cases hsize : checkSize path with
  | error refusal => simp [hsize, bind, Except.bind] at h
  | ok _ =>
      have hnames : (names path).reverse.takeWhile (· == "") ++
          (names path).reverse.dropWhile (· == "") = (names path).reverse :=
        List.takeWhile_append_dropWhile
      cases htrimmed : (names path).reverse.dropWhile (· == "") with
      | nil =>
          simp only [hsize, htrimmed, bind, Except.bind] at h
          split at h
          · cases h
          · split at h <;> cases h
      | cons last above =>
          rw [htrimmed] at hnames
          have hlast : last ≠ "" := by
            have hhead := List.head?_dropWhile_not (· == "") (names path).reverse
            simpa [htrimmed] using hhead
          simp only [hsize, htrimmed, bind, Except.bind, List.tail_cons, List.head?_cons] at h
          split at h
          · cases h
          next found hfound =>
            split at h
            · cases h
            next hdirectory =>
              simp only [Except.ok.injEq, Prod.mk.injEq, Option.filter_eq_some_iff] at h
              obtain ⟨rfl, hname, hdots⟩ := h
              obtain rfl : last = name := Option.some.inj hname
              simp only [bne_iff_ne, Bool.and_eq_true, ne_eq] at hdots
              refine ⟨hsize, by simpa using hdirectory, hlast, hdots.1, hdots.2, above.reverse,
                ((names path).reverse.takeWhile (· == "")).reverse, ?_, ?_, hfound⟩
              · rw [← List.reverse_inj]
                simp [hnames]
              · intro part hpart
                have hpart' := List.all_eq_true.1 List.all_takeWhile part (List.mem_reverse.1 hpart)
                simpa using hpart'

/-- A new directory is put where there was nothing. -/
theorem makeDirectory_ok {path : String} (h : t.makeDirectory path = .ok t') :
    ∃ place name, t.LeadsTo path place name ∧ t.find? (below place name) = none ∧
      t' = t.put (below place name) .directory := by
  unfold makeDirectory at h
  cases hplace : t.locateNew path with
  | error refusal => simp [hplace, bind, Except.bind] at h
  | ok found =>
      obtain ⟨place, _ | name⟩ := found
      · simp [hplace, bind, Except.bind] at h
      · simp only [hplace, bind, Except.bind] at h
        split at h
        · cases h
        split at h
        · cases h
        next hnone =>
          refine ⟨place, name, leadsTo_of_locateNew hplace, by simpa using hnone, ?_⟩
          exact (Except.ok.inj h).symm

/-- A path to a file that can be opened to be written: nothing stands behind its name, and no
directory is there. -/
structure LeadsToFile (t : FileTree) (path : String) (above : Place) (name : String) : Prop
    extends t.LeadsTo path above name where
  no_slash : path.toList.getLast? ≠ some '/'
  name_size : byteSize name ≤ maxNameSize
  no_directory : t.isDirectoryAt (below above name) = false

theorem locateFile_ok {path : String} {place : Place} (h : t.locateFile path = .ok place) :
    ∃ above name, t.LeadsToFile path above name ∧ place = below above name := by
  unfold locateFile at h
  cases hplace : t.locateNew path with
  | error refusal => simp [hplace, bind, Except.bind] at h
  | ok found =>
      obtain ⟨above, _ | name⟩ := found
      · simp [hplace, bind, Except.bind] at h
      · simp only [hplace, bind, Except.bind] at h
        split at h
        · cases h
        next hslash =>
          split at h
          · cases h
          next hsize =>
            split at h
            · cases h
            next hdirectory =>
              have hleads : t.LeadsToFile path above name :=
                ⟨leadsTo_of_locateNew hplace, hslash, Nat.not_lt.1 hsize, by simpa using hdirectory⟩
              exact ⟨above, name, hleads, (Except.ok.inj h).symm⟩

theorem Grows.makeDirectory {path : String} (h : t.makeDirectory path = .ok t') : t.Grows t' := by
  obtain ⟨place, name, -, hnone, rfl⟩ := makeDirectory_ok h
  refine ⟨rfl, fun other => ?_⟩
  rw [find?_put _ _ _ _ (below_ne_nil place name)]
  split
  next hother => exact .inr ⟨hother ▸ hnone, rfl⟩
  next => exact .inl rfl

theorem grows_ensureDirectory (t : FileTree) (path : String) :
    t.Grows (t.ensureDirectory path).1 := by
  unfold ensureDirectory
  split
  · exact .refl t
  · split
    next hmade => exact .makeDirectory hmade
    next => split <;> exact .refl t

theorem grows_ensureDirectories (levels : Nat) (t : FileTree) (path : String) :
    t.Grows (ensureDirectories levels t path).1 := by
  induction levels generalizing t path with
  | zero => exact .refl t
  | succ levels ih =>
      unfold ensureDirectories
      dsimp only
      split
      · have habove := ih t (splitLast path).1
        split
        · exact habove
        · split
          · exact habove
          · exact habove.trans (grows_ensureDirectory _ path)
      · exact grows_ensureDirectory t path

/-- A walk stays possible while directories stay and nothing goes away. -/
theorem walk_of_walk {place last : Place} {parts : List String}
    (hdirectories : ∀ place, t.isDirectoryAt place = true → t'.isDirectoryAt place = true)
    (hfound : ∀ place, (t.find? place).isSome = true → (t'.find? place).isSome = true)
    (h : t.walk place parts = .ok last) : t'.walk place parts = .ok last := by
  induction parts generalizing place with
  | nil => exact h
  | cons name rest ih =>
      rw [walk] at h ⊢
      split at h
      · cases h
      next hdirectory =>
        rw [if_neg (by simpa using hdirectories place (by simpa using hdirectory))]
        split at h
        next hstay => rw [if_pos hstay]; exact ih h
        next hmove =>
          rw [if_neg hmove]
          split at h
          next hup => rw [if_pos hup]; exact ih h
          next hdown =>
            rw [if_neg hdown]
            split at h
            · cases h
            next hsize =>
              rw [if_neg hsize]
              split at h
              · cases h
              next entry hentry =>
                obtain ⟨entry', hentry'⟩ := Option.isSome_iff_exists.1
                  (hfound (below place name) (by simp [hentry]))
                rw [hentry']
                exact ih h

/-- A file that was put at the place of its path is found under the path. -/
theorem LeadsToFile.locate_put {path : String} {place : Place} {name : String}
    (hpath : t.LeadsToFile path place name) (bytes : List UInt8) :
    (t.put (below place name) (.file bytes)).locate path = .ok (below place name) := by
  obtain ⟨above, slashes, hnames, hslashes, hwalk⟩ := hpath.names_eq
  obtain rfl : slashes = [] := by
    rcases List.eq_nil_or_concat' slashes with h | ⟨before, last, rfl⟩
    · exact h
    · obtain rfl : last = "" := hslashes last (by simp)
      exact absurd (getLast?_of_names (above ++ name :: before) (by simp)
        (by simpa using hnames)) hpath.no_slash
  have hput (other : Place) := find?_put t (below place name) other (.file bytes) (below_ne_nil _ _)
  have hwalk' : (t.put (below place name) (.file bytes)).walk (t.origin path) above =
      .ok place := by
    refine walk_of_walk (fun other hother => ?_) (fun other hother => ?_) hwalk
    · have hne : other ≠ below place name := by
        rintro rfl
        rw [hpath.no_directory] at hother
        cases hother
      rw [isDirectoryAt, hput, if_neg hne]
      exact hother
    · rw [hput]
      split
      · rfl
      · exact hother
  have hplace : (t.put (below place name) (.file bytes)).isDirectoryAt place = true := by
    rw [isDirectoryAt, hput, if_neg (by simp [below])]
    exact hpath.isDirectoryAt
  unfold locate
  rw [hpath.size, hnames, walk_append]
  show Except.bind _ _ = _
  have horigin : (t.put (below place name) (.file bytes)).origin path = t.origin path := rfl
  rw [horigin, hwalk']
  simp [Except.bind, walk, hplace, hpath.ne_empty, hpath.ne_dot, hpath.ne_dots,
    Nat.not_lt.2 hpath.name_size, hput]

/-- A tree in which a file was put: it is found under its path, and of all other places only some
have become directories. -/
structure Holds (t t' : FileTree) (path : String) (bytes : List UInt8) : Prop where
  home_eq : t'.home = t.home
  read_eq : t'.read path = .ok bytes
  find?_cases : ∃ place, t'.locate path = .ok place ∧ t'.find? place = some (.file bytes) ∧
    ∀ other ≠ place, t'.find? other = t.find? other ∨
      (t.find? other = none ∧ t'.find? other = some .directory)

theorem holds_put {grown : FileTree} {path : String} {place : Place} (hgrown : t.Grows grown)
    (h : grown.locateFile path = .ok place) (bytes : List UInt8) :
    t.Holds (grown.put place (.file bytes)) path bytes := by
  obtain ⟨above, name, hpath, rfl⟩ := locateFile_ok h
  have hlocate := hpath.locate_put bytes
  have hput (other : Place) :=
    find?_put grown (below above name) other (.file bytes) (below_ne_nil _ _)
  have hfile : (grown.put (below above name) (.file bytes)).find? (below above name) =
      some (.file bytes) := by
    rw [hput, if_pos rfl]
  refine ⟨hgrown.home_eq, ?_, below above name, hlocate, hfile, fun other hother => ?_⟩
  · simp [read, hlocate, hfile, bind, Except.bind]
  · rw [hput, if_neg hother]
    exact hgrown.find?_cases other

theorem grows_ensureParents (t : FileTree) (path : String) : t.Grows (t.ensureParents path).1 := by
  unfold ensureParents
  dsimp only
  split
  · exact .refl t
  · exact grows_ensureDirectories _ t (parent path)

/-- A file is opened at its place, with nothing in it, or not opened for a reason. -/
theorem openFile_cases (t : FileTree) (path : String) :
    (∃ grown place, t.Grows grown ∧ grown.locateFile path = .ok place ∧
      t.openFile path = (grown.put place (.file []), .ok place)) ∨
    ∃ grown fault, t.Grows grown ∧ t.openFile path = (grown, .error fault) := by
  have hgrown := t.grows_ensureParents path
  unfold openFile
  split
  next grown fault hmade =>
    rw [hmade] at hgrown
    exact .inr ⟨grown, fault, hgrown, rfl⟩
  next grown hmade =>
    rw [hmade] at hgrown
    split
    next fault _ => exact .inr ⟨grown, .path fault, hgrown, rfl⟩
    next =>
      split
      next refusal _ => exact .inr ⟨grown, .refused refusal path, hgrown, rfl⟩
      next place hplace => exact .inl ⟨grown, place, hgrown, hplace, rfl⟩

/-- What is put at a place replaces what was put there before. -/
theorem put_put (t : FileTree) (place : Place) (entry entry' : FileEntry) :
    (t.put place entry).put place entry' = t.put place entry' := by
  simp [put]

/-- Whether a file can be opened under a path. -/
def CanOpen (t : FileTree) (path : String) : Prop :=
  ∃ place, (t.openFile path).2 = .ok place

/-- A file that can be opened holds as much as was written, and nothing of what it held before. -/
theorem CanOpen.save_holds {path : String} (h : t.CanOpen path) (writing : Writing)
    (text : String) :
    (t.save path writing text).2 = (writing.written text).2 ∧
      t.Holds (t.save path writing text).1 path (writing.written text).1 := by
  obtain ⟨place, hplace⟩ := h
  rcases t.openFile_cases path with ⟨grown, place', hgrown, hlocate, hopen⟩ |
    ⟨grown, fault, -, hopen⟩
  · simp only [save, hopen, put_put, true_and]
    exact holds_put hgrown hlocate _
  · rw [hopen] at hplace
    cases hplace

/-- If a file cannot be opened, all files stay as they are. -/
theorem save_grows {path : String} (h : ¬ t.CanOpen path) (writing : Writing) (text : String) :
    ∃ grown fault, t.save path writing text = (grown, some fault) ∧ t.Grows grown := by
  rcases t.openFile_cases path with ⟨grown, place, -, -, hopen⟩ | ⟨grown, fault, hgrown, hopen⟩
  · exact absurd ⟨place, by rw [hopen]⟩ h
  · exact ⟨grown, fault, by simp [save, hopen], hgrown⟩

theorem save_snd_eq_none_iff {path text : String} {writing : Writing} :
    (t.save path writing text).2 = none ↔ t.CanOpen path ∧ writing = .complete ∧
      ∃ bytes, Text.Utf8.encode text = .ok bytes := by
  by_cases hopen : t.CanOpen path
  · rw [(hopen.save_holds writing text).1, Writing.written_snd_eq_none_iff]
    simp [hopen]
  · obtain ⟨grown, fault, hsave, -⟩ := save_grows hopen writing text
    simp [hopen, hsave]

/-- A fault that is found before a file is open. It is in the path of the file or in one above. -/
inductive Unopened (path : String) : SaveFault → Prop
  | path {part : String} {fault : Path.Fault} : part.toList <+: path.toList →
      fault? part = some fault → Unopened path (.path fault)
  | refused {part : String} {refusal : FileRefusal} : part.toList <+: path.toList →
      Unopened path (.refused refusal part)

theorem Unopened.of_above {above path : String} {fault : SaveFault} (h : Unopened above fault)
    (habove : above.toList <+: path.toList) : Unopened path fault := by
  cases h with
  | path hpart hfault => exact .path (hpart.trans habove) hfault
  | refused hpart => exact .refused (hpart.trans habove)

/-- The path above is the beginning of a path. -/
theorem split_begins (path : String) : (split path).1.toList <+: path.toList := by
  have hbefore : (path.toList.reverse.dropWhile (· != '/')).reverse <+: path.toList := by
    simpa using List.reverse_prefix.2 (List.dropWhile_suffix (· != '/') (l := path.toList.reverse))
  unfold split
  dsimp only
  rw [String.toList_ofList]
  split
  · exact hbefore
  · exact (List.reverse_prefix.2 (List.dropWhile_suffix _)).trans hbefore

theorem splitLast_begins (path : String) : (splitLast path).1.toList <+: path.toList := by
  unfold splitLast
  dsimp only
  split
  · exact (split_begins _).trans (split_begins path)
  · exact split_begins path

theorem unopened_of_ensureDirectory {path : String} {fault : SaveFault}
    (h : (t.ensureDirectory path).2 = some fault) : Unopened path fault := by
  unfold ensureDirectory at h
  split at h
  next hfault =>
    cases h
    exact .path List.prefix_rfl hfault
  next =>
    split at h
    · cases h
    · split at h <;> cases h
      exact .refused List.prefix_rfl

theorem unopened_of_ensureDirectories {levels : Nat} {path : String} {fault : SaveFault}
    (h : (ensureDirectories levels t path).2 = some fault) : Unopened path fault := by
  induction levels generalizing t path with
  | zero => cases h
  | succ levels ih =>
      unfold ensureDirectories at h
      dsimp only at h
      split at h
      · split at h
        · exact (ih h).of_above (splitLast_begins path)
        · split at h
          · cases h
          · exact unopened_of_ensureDirectory h
      · exact unopened_of_ensureDirectory h

theorem unopened_of_openFile {path : String} {fault : SaveFault}
    (h : (t.openFile path).2 = .error fault) : Unopened path fault := by
  unfold openFile at h
  split at h
  next grown fault' hmade =>
    cases h
    unfold ensureParents at hmade
    dsimp only at hmade
    split at hmade
    · cases hmade
    · have habove := unopened_of_ensureDirectories (congrArg Prod.snd hmade)
      exact habove.of_above (split_begins path)
  next =>
    split at h
    next hfault =>
      cases h
      exact .path List.prefix_rfl hfault
    next =>
      split at h <;> cases h
      exact .refused List.prefix_rfl

/-- A save fails before the file is open or in writing to it. -/
theorem save_fault {path text : String} {writing : Writing} {fault : SaveFault}
    (h : (t.save path writing text).2 = some fault) :
    Unopened path fault ∨ (writing.written text).2 = some fault := by
  unfold save at h
  split at h
  next hopen =>
    cases h
    exact .inl (unopened_of_openFile (congrArg Prod.snd hopen))
  next => exact .inr h

end FileTree

end PhpArray

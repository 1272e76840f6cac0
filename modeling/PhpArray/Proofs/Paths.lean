import Mathlib.Data.List.Basic
import PhpArray.Source

/-!
Paths and places. A path is read name by name, and a walk through the directories of a tree does to
its place what normalizing does to the text. So the normal absolute path of what is found is a slash
or two and then the names of its place as the path spells them, and two paths with the same normal
absolute path lead to the same place.
-/

namespace PhpArray

namespace Path

/-- A name that something in a directory can have. -/
structure IsEntryName (name : String) : Prop where
  ne_empty : name ≠ ""
  ne_dot : name ≠ "."
  ne_dots : name ≠ ".."
  no_slash : '/' ∉ name.toList

instance (name : String) : Decidable (IsEntryName name) :=
  decidable_of_iff (name ≠ "" ∧ name ≠ "." ∧ name ≠ ".." ∧ '/' ∉ name.toList)
    ⟨fun ⟨hempty, hdot, hdots, hslash⟩ => ⟨hempty, hdot, hdots, hslash⟩,
      fun ⟨hempty, hdot, hdots, hslash⟩ => ⟨hempty, hdot, hdots, hslash⟩⟩

theorem names_append_slash (first second : String) :
    names (first ++ "/" ++ second) = names first ++ names second := by
  have hlist : (first ++ "/" ++ second).toList = first.toList ++ '/' :: second.toList := by simp
  rw [names, hlist, List.splitOn_append_cons_self, List.map_append]
  rfl

theorem names_slash (rest : String) : names ("/" ++ rest) = "" :: names rest := by
  simpa [names] using names_append_slash "" rest

/-- A part of a list holds no separator and nothing that the list does not hold. -/
private theorem not_mem_of_mem_splitOn {α : Type} [BEq α] [LawfulBEq α] {separator : α}
    {part list : List α} (h : part ∈ list.splitOn separator) :
    separator ∉ part ∧ part ⊆ list := by
  induction list generalizing part with
  | nil => simp_all
  | cons a list ih =>
      rw [List.splitOn_cons_eq_if_modifyHead] at h
      split at h
      next =>
        rcases List.mem_cons.1 h with rfl | h
        · simp
        · exact (ih h).imp_right (List.subset_cons_of_subset a)
      next hother =>
        obtain ⟨first, rest, hsplit⟩ := List.exists_cons_of_ne_nil
          (List.splitOn_ne_nil separator list)
        rw [hsplit] at h ih
        rcases List.mem_cons.1 h with rfl | h
        · obtain ⟨hfirst, hsubset⟩ := ih List.mem_cons_self
          have hne : separator ≠ a := fun hsame => hother (by simp [hsame])
          exact ⟨List.not_mem_cons_of_ne_of_not_mem hne hfirst, List.cons_subset_cons a hsubset⟩
        · exact (ih (List.mem_cons_of_mem first h)).imp_right (List.subset_cons_of_subset a)

theorem no_slash_of_mem_names {path name : String} (h : name ∈ names path) :
    '/' ∉ name.toList := by
  obtain ⟨part, hpart, rfl⟩ := List.mem_map.1 h
  rw [String.toList_ofList]
  exact (not_mem_of_mem_splitOn hpart).1

theorem subset_of_mem_names {path name : String} (h : name ∈ names path) :
    name.toList ⊆ path.toList := by
  obtain ⟨part, hpart, rfl⟩ := List.mem_map.1 h
  rw [String.toList_ofList]
  exact (not_mem_of_mem_splitOn hpart).2

/-- Names that are joined by slashes are the names of the path. -/
theorem names_intercalate {place : Place} (hplace : place ≠ [])
    (hnames : ∀ name ∈ place, IsEntryName name) : names ("/".intercalate place) = place := by
  have hslash : ∀ part ∈ place.map String.toList, '/' ∉ part := by
    intro part hpart
    obtain ⟨name, hname, rfl⟩ := List.mem_map.1 hpart
    exact (hnames name hname).no_slash
  have hsplit := List.splitOn_intercalate '/' hslash (by simpa using hplace)
  rw [names, String.toList_intercalate]
  show (List.splitOn '/' (['/'].intercalate _)).map _ = place
  rw [hsplit, List.map_map]
  simp [Function.comp_def]

/-- The names of a path that are not empty. -/
def entryNames (path : String) : List String :=
  (names path).filter (· ≠ "")

theorem addName_of_isEntryName {name : String} (h : IsEntryName name) (above : List String) :
    addName true above name = name :: above := by
  simp [addName, h.ne_empty, h.ne_dot, h.ne_dots]

/-- Of a place there is always a last name to take away, except at the root. -/
theorem addName_dots {place : Place} (hplace : ∀ name ∈ place, IsEntryName name) :
    addName true place.reverse ".." = place.dropLast.reverse := by
  rcases List.eq_nil_or_concat' place with rfl | ⟨above, last, rfl⟩
  · rfl
  · have hlast := (hplace last (by simp)).ne_dots
    simp [addName, hlast]

/-- Normalizing adds no names. -/
theorem mem_of_mem_foldl_addName {rooted : Bool} {names above : List String} {name : String}
    (h : name ∈ names.foldl (addName rooted) above) : name ∈ above ∨ name ∈ names := by
  induction names generalizing above with
  | nil => exact .inl h
  | cons next rest ih =>
      have hnext : addName rooted above next ⊆ next :: above := by
        unfold addName
        split
        · exact List.subset_cons_self next above
        · split
          · cases above <;> grind
          · exact List.Subset.refl _
      rcases ih h with h | h
      · rcases List.mem_cons.1 (hnext h) with rfl | h
        · exact .inr List.mem_cons_self
        · exact .inl h
      · exact .inr (List.mem_cons_of_mem next h)

theorem foldl_addName {place : Place} (hplace : ∀ name ∈ place, IsEntryName name)
    (above : List String) : place.foldl (addName true) above = place.reverse ++ above := by
  induction place generalizing above with
  | nil => rfl
  | cons name rest ih =>
      obtain ⟨hname, hrest⟩ := List.forall_mem_cons.1 hplace
      rw [List.foldl_cons, addName_of_isEntryName hname, ih hrest]
      simp

/-! ### The slashes in front -/

/-- Whether a path begins with two slashes and no more. -/
def hasTwoSlashes (path : String) : Bool :=
  leadingSlashes path.toList == 2

/-- The normal absolute paths of names that lead to something: they stand behind one slash, or
behind two. -/
def keyAt (spelled : List String) (twoSlashes : Bool) : String :=
  (if twoSlashes then "//" else "/") ++ "/".intercalate spelled

theorem exists_eq_slash_append {path : String} (h : isAbsolute path.toList) :
    ∃ rest, path = "/" ++ rest := by
  cases hlist : path.toList with
  | nil => simp [hlist, isAbsolute] at h
  | cons c rest =>
      obtain rfl : c = '/' := by simpa [hlist, isAbsolute] using h
      exact ⟨String.ofList rest, by rw [← String.toList_inj, hlist]; simp⟩

private theorem takeWhile_slash {path : List Char} (h : ¬ isAbsolute path) :
    path.takeWhile (· == '/') = [] := by
  cases path with
  | nil => rfl
  | cons c rest =>
      have hc : c ≠ '/' := by simpa [isAbsolute] using h
      simp [hc]

theorem leadingSlashes_of_not_isAbsolute {path : List Char} (h : ¬ isAbsolute path) :
    leadingSlashes path = 0 := by
  simp [leadingSlashes, takeWhile_slash h]

theorem leadingSlashes_cons {rest : List Char} (h : ¬ isAbsolute rest) :
    leadingSlashes ('/' :: rest) = 1 := by
  simp [leadingSlashes, takeWhile_slash h]

theorem leadingSlashes_of_isAbsolute {path : List Char} (h : isAbsolute path) :
    leadingSlashes path = 1 ∨ leadingSlashes path = 2 := by
  cases path with
  | nil => simp [isAbsolute] at h
  | cons c rest =>
      obtain rfl : c = '/' := by simpa [isAbsolute] using h
      unfold leadingSlashes
      simp only [List.takeWhile_cons, beq_self_eq_true, if_true, List.length_cons]
      split <;> simp

end Path

namespace FileTree

open PhpArray.Path

variable {t : FileTree}

/-- A walk does to the names that lead to its place what normalizing does. They are kept as the path
spells them, since a directory may list them in another form. -/
theorem walk_ok {spelled names : List String} {last : Place}
    (h : t.walk (spelled.map entryName) names = .ok last)
    (hspelled : ∀ name ∈ spelled, IsEntryName name) (hnames : ∀ name ∈ names, '/' ∉ name.toList) :
    ∃ spelled' : List String, last = spelled'.map entryName ∧
      (∀ name ∈ spelled', IsEntryName name) ∧
        names.foldl (addName true) spelled.reverse = spelled'.reverse := by
  induction names generalizing spelled with
  | nil =>
      cases h
      exact ⟨spelled, rfl, hspelled, rfl⟩
  | cons name rest ih =>
      obtain ⟨hname, hrest⟩ := List.forall_mem_cons.1 hnames
      rw [walk] at h
      rw [List.foldl_cons]
      split at h
      · cases h
      split at h
      next hstay =>
        have hadd : addName true spelled.reverse name = spelled.reverse := by
          simp [addName, hstay]
        rw [hadd]
        exact ih h hspelled hrest
      next hmove =>
        rw [not_or] at hmove
        split at h
        next hup =>
          rw [hup, addName_dots hspelled]
          rw [← List.map_dropLast] at h
          exact ih h (fun name hmem => hspelled name (List.dropLast_subset spelled hmem)) hrest
        next hdown =>
          have hentry : IsEntryName name := ⟨hmove.1, hmove.2, hdown, hname⟩
          split at h
          · cases h
          split at h
          · cases h
          next =>
            have hplace : below (spelled.map entryName) name =
                (spelled ++ [name]).map entryName := by simp [below]
            have hspelled' : ∀ other ∈ spelled ++ [name], IsEntryName other := by
              intro other hother
              rcases List.mem_append.1 hother with hother | hother
              · exact hspelled other hother
              · rwa [List.mem_singleton.1 hother]
            rw [hplace] at h
            rw [addName_of_isEntryName hentry]
            simpa using ih h hspelled' hrest

/-- The current directory has a place. -/
def HomeIsPlace (t : FileTree) : Prop :=
  ∀ name ∈ t.home, IsEntryName name

instance (t : FileTree) : Decidable t.HomeIsPlace :=
  inferInstanceAs (Decidable (∀ name ∈ t.home, IsEntryName name))

theorem names_homePath (hhome : t.HomeIsPlace) (hroot : t.home ≠ []) :
    names t.homePath = "" :: t.home := by
  rw [homePath, names_slash, names_intercalate hroot hhome]

/-- Only the root as a path ends in a slash. -/
theorem homePath_getLast? (hhome : t.HomeIsPlace) (hroot : t.home ≠ []) :
    t.homePath.toList.getLast? ≠ some '/' := by
  intro hlast
  obtain ⟨before, hbefore⟩ := List.getLast?_eq_some_iff.1 hlast
  have hpath : t.homePath = String.ofList before ++ "/" ++ "" := by
    rw [← String.toList_inj, hbefore]
    simp
  have hnames := names_homePath hhome hroot
  rw [hpath, names_append_slash] at hnames
  obtain ⟨above, last, hplace⟩ := (List.eq_nil_or_concat' t.home).resolve_left hroot
  have hempty : last = "" := by
    have hends := congrArg List.getLast? hnames
    rw [hplace, ← List.cons_append, List.getLast?_append, List.getLast?_append] at hends
    simpa [names, eq_comm] using hends
  exact (hhome last (by simp [hplace])).ne_empty hempty

theorem join_homePath (hhome : t.HomeIsPlace) (hroot : t.home ≠ []) {path : String}
    (hrelative : ¬ isAbsolute path.toList) :
    join t.homePath path = t.homePath ++ "/" ++ path := by
  have hlast : (t.homePath.toList.getLast?.all (· == '/')) = false := by
    have hne := homePath_getLast? hhome hroot
    cases hends : t.homePath.toList.getLast? with
    | none => simp [homePath] at hends
    | some c =>
        rw [hends] at hne
        simpa using hne
  rw [join, if_neg hrelative, if_neg (by simp [hlast])]

/-- A path that is read from the current directory begins with the names of that. -/
theorem names_join (hhome : t.HomeIsPlace) (path : String) :
    names (join t.homePath path) =
      if isAbsolute path.toList then names path else "" :: t.home ++ names path := by
  split
  next habsolute => rw [join, if_pos habsolute]
  next hrelative =>
    by_cases hroot : t.home = []
    · have hslash : t.homePath = "/" := by simp [homePath, hroot]
      simp [join, hrelative, hslash, hroot, names_slash]
    · rw [join_homePath hhome hroot hrelative, names_append_slash, names_homePath hhome hroot]

/-- The names that lead to a place as a path spells them, from the root on. -/
structure Spells (t : FileTree) (path : String) (place : Place) (spelled : List String) :
    Prop where
  place_eq : place = spelled.map entryName
  isEntryName : ∀ name ∈ spelled, IsEntryName name
  foldl_eq : (names (join t.homePath path)).foldl (addName true) [] = spelled.reverse

/-- Normalizing a path reads the names that a walk along the path finds. -/
theorem exists_spells (hhome : t.HomeIsPlace) {path : String} {place : Place}
    (h : t.locate path = .ok place) : ∃ spelled, t.Spells path place spelled := by
  have hwalk : t.walk (t.origin path) (names path) = .ok place := by
    unfold locate at h
    cases hsize : checkSize path with
    | error refusal => simp [hsize, bind, Except.bind] at h
    | ok _ => simpa [hsize, bind, Except.bind] using h
  have hslash : ∀ name ∈ names path, '/' ∉ name.toList := fun _ => no_slash_of_mem_names
  unfold origin at hwalk
  split at hwalk
  next habsolute =>
    obtain ⟨spelled, hplace, hspelled, hfold⟩ :=
      walk_ok (List.map_nil ▸ hwalk) (by simp) hslash
    exact ⟨spelled, hplace, hspelled, by rw [names_join hhome, if_pos habsolute, ← hfold]; rfl⟩
  next hrelative =>
    have hstart : ("" :: t.home).foldl (addName true) [] = t.home.reverse := by
      simpa [addName] using foldl_addName hhome []
    obtain ⟨spelled, hplace, hspelled, hfold⟩ := walk_ok hwalk hhome hslash
    refine ⟨spelled, hplace, hspelled, ?_⟩
    rw [names_join hhome, if_neg hrelative, List.foldl_append, hstart, hfold]

theorem Spells.mem (hhome : t.HomeIsPlace) {path : String} {place : Place}
    {spelled : List String} (h : t.Spells path place spelled) {name : String}
    (hname : name ∈ spelled) : name ∈ t.home ∨ name ∈ names path := by
  have hfold : name ∈ (names (join t.homePath path)).foldl (addName true) [] := by
    rw [h.foldl_eq]
    exact List.mem_reverse.2 hname
  have hjoin := (mem_of_mem_foldl_addName hfold).resolve_left List.not_mem_nil
  rw [names_join hhome] at hjoin
  split at hjoin
  · exact .inr hjoin
  · rcases List.mem_append.1 hjoin with hhere | hpath
    · exact .inl ((List.mem_cons.1 hhere).resolve_left (h.isEntryName name hname).ne_empty)
    · exact .inr hpath

/-- A path that is read from the current directory has two slashes in front if it has them
itself. -/
theorem leadingSlashes_join (hhome : t.HomeIsPlace) (path : String) :
    leadingSlashes (join t.homePath path).toList = if hasTwoSlashes path then 2 else 1 := by
  by_cases habsolute : isAbsolute path.toList = true
  · rw [join, if_pos habsolute, hasTwoSlashes]
    by_cases htwo : leadingSlashes path.toList = 2
    · simp [htwo]
    · simpa [htwo] using (leadingSlashes_of_isAbsolute habsolute).resolve_right htwo
  · have hother : hasTwoSlashes path = false := by
      simp [hasTwoSlashes, leadingSlashes_of_not_isAbsolute habsolute]
    rw [hother]
    by_cases hroot : t.home = []
    · have hslash : t.homePath = "/" := by simp [homePath, hroot]
      simpa [join, habsolute, hslash] using leadingSlashes_cons habsolute
    · have hnames : names ("/".intercalate t.home ++ "/" ++ path) = t.home ++ names path := by
        rw [names_append_slash, names_intercalate hroot hhome]
      have hhead : ¬ isAbsolute ("/".intercalate t.home ++ "/" ++ path).toList := by
        intro hslash
        obtain ⟨rest, hrest⟩ := exists_eq_slash_append hslash
        obtain ⟨name, above, hfirst⟩ := List.exists_cons_of_ne_nil hroot
        rw [hrest, names_slash, hfirst, List.cons_append] at hnames
        exact (hhome name (by simp [hfirst])).ne_empty (List.cons.inj hnames).1.symm
      rw [join_homePath hhome hroot habsolute, homePath]
      simpa using leadingSlashes_cons hhead

/-- The normal absolute path of what is found is the key of the names that lead to it. -/
theorem Spells.absolute_eq (hhome : t.HomeIsPlace) {path : String} {place : Place}
    {spelled : List String} (h : t.Spells path place spelled) :
    absolute t.homePath path = keyAt spelled (hasTwoSlashes path) := by
  have hslashes := leadingSlashes_join hhome path
  unfold absolute Path.normalize keyAt
  cases htwo : hasTwoSlashes path <;> simp [hslashes, htwo, h.foldl_eq]

/-- The names are read back from the key. -/
theorem entryNames_keyAt {spelled : List String} (hspelled : ∀ name ∈ spelled, IsEntryName name)
    (twoSlashes : Bool) : entryNames (keyAt spelled twoSlashes) = spelled := by
  have hnames : entryNames ("/".intercalate spelled) = spelled := by
    by_cases hroot : spelled = []
    · simp [hroot, entryNames, names]
    · rw [entryNames, names_intercalate hroot hspelled]
      refine List.filter_eq_self.2 fun name hname => ?_
      simpa using (hspelled name hname).ne_empty
  have hslash (rest : String) : entryNames ("/" ++ rest) = entryNames rest := by
    simp [entryNames, names_slash]
  cases twoSlashes with
  | false =>
      show entryNames ("/" ++ _) = spelled
      rw [hslash, hnames]
  | true =>
      show entryNames ("/" ++ "/" ++ _) = spelled
      rw [String.append_assoc, hslash, hslash, hnames]

/-- Two paths with the same normal absolute path lead to the same place. -/
theorem locate_unique (hhome : t.HomeIsPlace) {path path' : String} {place place' : Place}
    (h : t.locate path = .ok place) (h' : t.locate path' = .ok place')
    (hsame : absolute t.homePath path = absolute t.homePath path') : place = place' := by
  obtain ⟨spelled, hspells⟩ := exists_spells hhome h
  obtain ⟨spelled', hspells'⟩ := exists_spells hhome h'
  rw [hspells.absolute_eq hhome, hspells'.absolute_eq hhome] at hsame
  rw [hspells.place_eq, hspells'.place_eq, ← entryNames_keyAt hspells.isEntryName, hsame,
    entryNames_keyAt hspells'.isEntryName]

end FileTree

end PhpArray

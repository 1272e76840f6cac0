import PhpArray.Proofs.EntryPoints
import PhpArray.Proofs.IncludeChain

/-!
The keys by which files are known on a chain. All paths that spell the names of a file as
directories list them have the same key, except that two slashes in front stay two; and the key of
another file is another one. So a file has two keys. While it is being rendered it is asked for
again at most by the key that is not on the chain yet, and with both of them on the chain every
include of it is a cycle.
-/

namespace PhpArray

open Yaml

namespace FileTree

open PhpArray.Path

variable {t : FileTree}

/-- A path can be opened, the file that is opened is at a place, and the path spells the names that
lead there as directories list them. Surrogates that stand for bytes may spell out a character,
which is listed as the character. -/
structure Opens (t : FileTree) (path : String) (place : Place) : Prop where
  no_fault : fault? path = none
  leads : t.locate path = .ok place
  listed : ∀ name ∈ entryNames (absolute t.homePath path), entryName name = name
  file : ∃ bytes, t.find? place = some (.file bytes)

theorem entryName_of_not_mem {name : String} (h : Text.pairMark ∉ name.toList) :
    entryName name = name := by
  unfold entryName
  dsimp only
  rw [if_neg]
  rw [Text.codePoints_of_not_mem h, Bool.not_eq_true, List.any_eq_false]
  intro n hn hescape
  obtain ⟨c, -, rfl⟩ := List.mem_map.1 hn
  have hsurrogate : Text.isSurrogate c.toNat = true := by
    simp only [Text.isByteEscape, Text.isSurrogate, Bool.and_eq_true, decide_eq_true_eq]
      at hescape ⊢
    omega
  rw [Text.isSurrogate_toNat] at hsurrogate
  cases hsurrogate

/-- A path without surrogates spells names as directories list them, if the current directory has
its names so. -/
theorem listed_of_not_mem (hhome : t.HomeIsPlace)
    (hlisted : ∀ name ∈ t.home, entryName name = name) {path : String} {place : Place}
    (h : t.locate path = .ok place) (hpath : Text.pairMark ∉ path.toList) :
    ∀ name ∈ entryNames (absolute t.homePath path), entryName name = name := by
  obtain ⟨spelled, hspells⟩ := exists_spells hhome h
  rw [hspells.absolute_eq hhome, entryNames_keyAt hspells.isEntryName]
  intro name hname
  rcases hspells.mem hhome hname with hname | hname
  · exact hlisted name hname
  · exact entryName_of_not_mem fun hmark => hpath (subset_of_mem_names hname hmark)

/-- The key of a file is that of its place. -/
theorem Opens.absolute_eq (hhome : t.HomeIsPlace) {path : String} {place : Place}
    (h : t.Opens path place) : (∀ name ∈ place, IsEntryName name) ∧
      absolute t.homePath path = keyAt place (hasTwoSlashes path) := by
  obtain ⟨spelled, hspells⟩ := exists_spells hhome h.leads
  have hlisted := h.listed
  rw [hspells.absolute_eq hhome, entryNames_keyAt hspells.isEntryName] at hlisted
  obtain rfl : place = spelled := by
    rw [hspells.place_eq, List.map_congr_left hlisted, List.map_id']
  exact ⟨hspells.isEntryName, hspells.absolute_eq hhome⟩

theorem keyAt_eq_iff {place place' : Place} {twoSlashes twoSlashes' : Bool}
    (hplace : ∀ name ∈ place, IsEntryName name) (hplace' : ∀ name ∈ place', IsEntryName name) :
    keyAt place twoSlashes = keyAt place' twoSlashes' ↔
      place = place' ∧ twoSlashes = twoSlashes' := by
  constructor
  · intro hsame
    obtain rfl : place = place' := by
      rw [← entryNames_keyAt hplace twoSlashes, hsame, entryNames_keyAt hplace']
    refine ⟨rfl, ?_⟩
    have hlength := congrArg (fun key => key.toList.length) hsame
    cases twoSlashes <;> cases twoSlashes' <;> simp [keyAt] at hlength ⊢
  · rintro ⟨rfl, rfl⟩
    rfl

/-- Two paths of files have the same key if they lead to the same place and have the same slashes in
front. -/
theorem Opens.absolute_eq_iff (hhome : t.HomeIsPlace) {path path' : String} {place place' : Place}
    (h : t.Opens path place) (h' : t.Opens path' place') :
    absolute t.homePath path = absolute t.homePath path' ↔
      place = place' ∧ hasTwoSlashes path = hasTwoSlashes path' := by
  obtain ⟨hplace, hkey⟩ := h.absolute_eq hhome
  obtain ⟨hplace', hkey'⟩ := h'.absolute_eq hhome
  rw [hkey, hkey', keyAt_eq_iff hplace hplace']

/-- The keys of files are the same for includes of the same file with the same slashes in front, and
for no others. So a file whose key is on the chain is opened again only by a path with other slashes
in front. The key that is added then is a new one, and with it all keys of the file are on the
chain. -/
theorem include_keys_identify (t : FileTree) (hhome : t.HomeIsPlace) :
    (∀ dir p q place place', t.Opens (join dir p) place → t.Opens (join dir q) place' →
      (t.source.target dir p = t.source.target dir q ↔
        place = place' ∧ hasTwoSlashes (join dir p) = hasTwoSlashes (join dir q))) ∧
    ∀ (r : Renderer) g id n notes depth call rest name place, r.source = t.source →
      r.source.Steps r.includeDir n (r.start g id) notes (.node depth call :: rest) →
      call.document.graph.node call.document.root = .scalar ⟨includeTag, name⟩ →
      t.Opens (join r.includeDir name) place →
      r.source.target r.includeDir name ∉ call.chain →
        (∃ added, call.chain = r.chain ++ added ∧
          (added ++ [r.source.target r.includeDir name]).Nodup ∧
          ∀ key ∈ added ++ [r.source.target r.includeDir name], key ∉ r.chain) ∧
        ∀ path, t.Opens path place → absolute t.homePath path ∈ call.chain →
          hasTwoSlashes path = !hasTwoSlashes (join r.includeDir name) ∧
          ∀ other, t.Opens other place →
            absolute t.homePath other ∈ call.chain ++ [r.source.target r.includeDir name] := by
  refine ⟨fun dir p q place place' hp hq => hp.absolute_eq_iff hhome hq, ?_⟩
  intro r g id n notes depth call rest name place hsource hsteps hnode hopens htarget
  refine ⟨?_, fun path hpath hmem => ?_⟩
  · obtain ⟨added, d, hwithin⟩ := Renderer.exists_within hsteps
    obtain ⟨-, hchain, hnodup, hfresh, -, -⟩ := hwithin
    rw [hchain, List.mem_append, not_or] at htarget
    refine ⟨added, hchain, List.nodup_append.2 ⟨hnodup, List.nodup_singleton _, by grind⟩, ?_⟩
    intro key hkey
    rcases List.mem_append.1 hkey with hkey | hkey
    · exact hfresh key hkey
    · rw [List.mem_singleton.1 hkey]
      exact htarget.1
  · have htargetKey : r.source.target r.includeDir name =
        absolute t.homePath (join r.includeDir name) := by
      rw [hsource]
      rfl
    rw [htargetKey] at htarget ⊢
    have hslashes : hasTwoSlashes path = !hasTwoSlashes (join r.includeDir name) := by
      have hdiffer : absolute t.homePath path ≠ absolute t.homePath (join r.includeDir name) :=
        fun hsame => htarget (hsame ▸ hmem)
      rw [ne_eq, hpath.absolute_eq_iff hhome hopens] at hdiffer
      exact Bool.eq_not.2 fun hsame => hdiffer ⟨rfl, hsame⟩
    refine ⟨hslashes, fun other hother => ?_⟩
    by_cases hsame : hasTwoSlashes other = hasTwoSlashes path
    · rw [(hother.absolute_eq_iff hhome hpath).2 ⟨rfl, hsame⟩]
      exact List.mem_append_left _ hmem
    · have hsame' : hasTwoSlashes other = hasTwoSlashes (join r.includeDir name) := by
        rw [Bool.eq_not.2 hsame, hslashes, Bool.not_not]
      rw [(hother.absolute_eq_iff hhome hopens).2 ⟨rfl, hsame'⟩]
      exact List.mem_append_right _ (List.mem_singleton_self _)

/-- A file that includes itself by a path with two slashes in front. -/
def twoSlashFiles : FileTree :=
  ⟨["w"], [(["w"], .directory), (["w", "one"], .file "!include //w/one".toUTF8.toList)]⟩

theorem opens_twoSlashFiles {path : String}
    (hpath : path ∈ ["/w/one", "//w/one", "/w/./../w///one"]) :
    twoSlashFiles.Opens path ["w", "one"] := by
  have hleads : twoSlashFiles.locate path = .ok ["w", "one"] := by
    revert path
    decide +kernel
  refine ⟨?_, hleads, ?_, "!include //w/one".toUTF8.toList, by decide +kernel⟩
  · revert path
    decide +kernel
  · refine listed_of_not_mem (by decide) (by decide +kernel) hleads ?_
    revert path
    decide +kernel

theorem include_keys_identify_twoSlashFiles :
    twoSlashFiles.source.target "/w" "one" = twoSlashFiles.source.target "/w" "./../w///one" ∧
    ∀ other, twoSlashFiles.Opens other ["w", "one"] →
      absolute twoSlashFiles.homePath other ∈ ["/w/one", "//w/one"] := by
  have hhome : twoSlashFiles.HomeIsPlace := by decide
  obtain ⟨hkeys, hagain⟩ := include_keys_identify twoSlashFiles hhome
  have hkey : twoSlashFiles.source.target "/w" "one" =
      twoSlashFiles.source.target "/w" "./../w///one" := by
    refine (hkeys "/w" "one" "./../w///one" ["w", "one"] ["w", "one"] ?_ ?_).2 ⟨rfl, ?_⟩
    · exact opens_twoSlashFiles (by decide +kernel)
    · exact opens_twoSlashFiles (by decide +kernel)
    · decide +kernel
  let r : Renderer := ⟨"/w", false, 4, 0, ["/w/one"], twoSlashFiles.source⟩
  let g : Graph := ⟨#[.scalar ⟨includeTag, "//w/one"⟩]⟩
  have hopens : twoSlashFiles.Opens (join "/w" "//w/one") ["w", "one"] :=
    opens_twoSlashFiles (by decide +kernel)
  have htarget : r.source.target "/w" "//w/one" = "//w/one" := by decide +kernel
  obtain ⟨-, hprogress⟩ := hagain r g 0 0 [] 0 ⟨["/w/one"], [], ⟨g, 0⟩⟩ [] "//w/one" _ rfl
    (.refl _) rfl hopens (by decide +kernel)
  obtain ⟨-, hall⟩ := hprogress "/w/one" (opens_twoSlashFiles (by decide)) (by decide +kernel)
  rw [htarget] at hall
  exact ⟨hkey, hall⟩

/-- A file that includes itself by a path in which surrogates stand for the bytes of its name. -/
def escapedFiles : FileTree :=
  ⟨["w"], [(["w"], .directory),
    (["w", "é"], .file "!include \"\\uDCC3\\uDCA9\"".toUTF8.toList)]⟩

/-- A file has one key with one slash in front and one with two, so it is opened once more while it
is being rendered. So is a file if surrogates stand for bytes of its name. -/
theorem opened_again_in_progress :
    let place := ["w", "one"]
    let run := convertFile twoSlashFiles ⟨false, 4⟩ "one"
    let escaped := String.ofList ([0xDCC3, 0xDCA9].flatMap Text.ofCodePoint)
    let run' := convertFile escapedFiles ⟨false, 4⟩ "é"
    (twoSlashFiles.Opens (join "/w" "one") place ∧
      twoSlashFiles.Opens (join "/w" "//w/one") place ∧
      twoSlashFiles.source.target "/w" "one" ≠ twoSlashFiles.source.target "/w" "//w/one" ∧
      run.loads = ["one", "//w/one"] ∧
      run.outcome = .error (.includeCycle ["/w/one", "//w/one", "//w/one"])) ∧
    escapedFiles.locate "é" = escapedFiles.locate escaped ∧
      run'.loads = ["é", "/w/" ++ escaped] ∧
      run'.outcome = .error (.includeCycle ["/w/é", "/w/" ++ escaped, "/w/" ++ escaped]) := by
  intro place run escaped run'
  refine ⟨⟨?_, ?_, by decide +kernel, by decide +kernel, by decide +kernel⟩, by decide +kernel,
    by decide +kernel, by decide +kernel⟩
  · exact opens_twoSlashFiles (by decide +kernel)
  · exact opens_twoSlashFiles (by decide +kernel)

end FileTree

end PhpArray

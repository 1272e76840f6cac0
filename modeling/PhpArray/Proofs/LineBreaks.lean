import PhpArray.Proofs.Numerals
import PhpArray.Proofs.Quoting
import PhpArray.Proofs.Stepwise

/-!
The line breaks of dense literals. Dense layout begins no lines, numbers and names have none, and a
quote escapes no line break, so what is left are those that the strings of a document hold. The main
statement counts them: the literal is a single line exactly if no string that is rendered has a line
break. A marked expression never has one.
-/

namespace PhpArray

open Yaml

/-- The line breaks in a text. -/
def breaks (text : String) : Nat :=
  text.toList.count '\n'

@[simp] theorem breaks_append (first second : String) :
    breaks (first ++ second) = breaks first + breaks second := by
  simp [breaks]

theorem breaks_eq_zero_iff {text : String} : breaks text = 0 ↔ '\n' ∉ text.toList :=
  List.count_eq_zero

theorem breaks_intercalate {separator : String} (h : breaks separator = 0) (parts : List String) :
    breaks (separator.intercalate parts) = (parts.map breaks).sum := by
  induction parts with
  | nil => rfl
  | cons part rest ih =>
      cases rest with
      | nil => simp
      | cons next rest =>
          rw [String.intercalate_cons_cons, breaks_append, breaks_append, h, ih]
          simp

/-! ### Scalars -/

namespace Literal

theorem count_escape (special : Char → Bool) (s : List Char) :
    (escape special s).count '\n' = s.count '\n' := by
  induction s with
  | nil => rfl
  | cons c rest ih =>
      cases hspecial : special c with
      | true => simp [escape_cons_of_special hspecial, List.count_cons, ih]
      | false => simp [escape_cons_of_plain hspecial, List.count_cons, ih]

theorem count_quote (s : List Char) : (quote s).count '\n' = s.count '\n' := by
  unfold quote singleQuoted doubleQuoted
  split <;> simp [count_escape]

/-- A quote escapes no line break, and a marked expression has none. -/
theorem breaks_ofString (s : String) : breaks (ofString s) = breaks s := by
  unfold breaks ofString
  rw [String.toList_ofList]
  cases hmarked : expression? s.toList with
  | none => exact count_quote s.toList
  | some expression =>
      obtain ⟨htext, hline⟩ := expression?_eq_some_iff.1 hmarked
      simp [htext]

theorem IsDigits.no_break {text : List Char} (h : IsDigits text) : '\n' ∉ text :=
  fun hmem => absurd (h.2 _ hmem) (by decide)

theorem IsInteger.no_break {text : List Char} (h : IsInteger text) : '\n' ∉ text := by
  cases h with
  | zero => decide
  | positive hdigits _ => exact hdigits.no_break
  | negative hdigits _ => simpa using hdigits.no_break

theorem IsPower.no_break {text : List Char} (h : IsPower text) : '\n' ∉ text := by
  obtain ⟨rfl | rfl, hdigits⟩ := h
  · simpa using hdigits.no_break
  · simpa using hdigits.no_break

theorem IsUnsignedFraction.no_break {text : List Char} (h : IsUnsignedFraction text) :
    '\n' ∉ text := by
  cases h with
  | point hwhole hfraction => simp [hwhole.no_break, hfraction.no_break]
  | power hwhole hpower => simp [hwhole.no_break, hpower.no_break]
  | both hwhole hfraction hpower =>
      simp [hwhole.no_break, hfraction.no_break, hpower.no_break]

theorem IsFraction.no_break {text : List Char} (h : IsFraction text) : '\n' ∉ text := by
  cases h with
  | positive hunsigned => exact hunsigned.no_break
  | negative hunsigned => simpa using hunsigned.no_break

end Literal

namespace Yaml.Scalar

open Literal

/-- The line breaks of a string; what is no string is written in one line. -/
def lineBreaks (s : Scalar) : Nat :=
  if kindOf s.tag = .string then breaks s.value else 0

theorem lineBreaks_eq_zero_iff {s : Scalar} :
    s.lineBreaks = 0 ↔ ¬ (kindOf s.tag = .string ∧ '\n' ∈ s.value.toList) := by
  unfold lineBreaks
  split
  next hkind => simp [hkind, breaks_eq_zero_iff]
  next hkind => simp [hkind]

theorem breaks_literal (s : Scalar) : breaks s.literal = s.lineBreaks := by
  have hmayBe := s.literal_mayBe
  unfold lineBreaks
  cases hkind : kindOf s.tag with
  | string => rw [hmayBe.string hkind, breaks_ofString, if_pos rfl]
  | bool =>
      have hone : ∀ text ∈ ["true", "false", "null"], breaks text = 0 := by decide
      exact hone _ (hmayBe.bool hkind)
  | int =>
      rcases hmayBe.int hkind with hnull | hinteger
      · rw [hnull]
        rfl
      · exact breaks_eq_zero_iff.2 hinteger.no_break
  | float =>
      have hone : ∀ text ∈ ["null", "INF", "-INF", "NAN"], breaks text = 0 := by decide
      rcases hmayBe.float hkind with hname | ⟨hfraction, -⟩
      · exact hone _ hname
      · exact breaks_eq_zero_iff.2 hfraction.no_break
  | null =>
      have hnull : s.literal = "null" := by
        rw [literal, hkind]
        rfl
      rw [hnull]
      rfl

end Yaml.Scalar

/-! ### Contents -/

namespace Content

/-- The line breaks of the strings of a content. -/
def lineBreaks (c : Content) : Nat :=
  (c.scalars.map Scalar.lineBreaks).sum

theorem lineBreaks_array (entries : List (Option Scalar × Content)) :
    (array entries).lineBreaks =
      (entries.map fun entry => (entry.1.elim 0 Scalar.lineBreaks) + entry.2.lineBreaks).sum := by
  unfold lineBreaks
  rw [scalars]
  induction entries with
  | nil => rfl
  | cons entry rest ih =>
      obtain ⟨key, c⟩ := entry
      cases key <;> simp [entryScalars, ih, Nat.add_assoc]

end Content

namespace Renderer

variable {r : Renderer}

theorem breaks_text (hdense : r.pretty = false) (depth : Int) (c : Content) :
    breaks (r.text depth c) = c.lineBreaks := by
  induction c generalizing depth with
  | scalar s => simp [text, Content.lineBreaks, Content.scalars, Scalar.breaks_literal]
  | array entries ih =>
      have hentry : ∀ entry ∈ entries,
          breaks (r.line (depth + 1) (entry.1.elim "" (·.literal ++ " => ") ++
            r.text (depth + 1) entry.2)) =
          entry.1.elim 0 Scalar.lineBreaks + entry.2.lineBreaks := by
        intro entry hmem
        rw [line_of_dense r _ _ hdense, breaks_append, ih entry hmem]
        cases entry.1 with
        | none => rfl
        | some key =>
            have harrow : breaks " => " = 0 := rfl
            simp [Scalar.breaks_literal, harrow]
      have hparts := List.map_congr_left hentry
      rw [text, array, line_of_dense r _ _ hdense, breaks_append, breaks_append,
        breaks_intercalate rfl, entryTexts_eq_map, List.map_map, Content.lineBreaks_array, ← hparts]
      have hopen : breaks "array(" = 0 := rfl
      have hclose : breaks ")" = 0 := rfl
      simp [hopen, hclose, Function.comp_def]

end Renderer

/-! ### Any number of spaces -/

namespace Run

variable {α β : Type}

/-- A run succeeds with whatever another one succeeds with. -/
def Succeeds (other r : Run α) : Prop :=
  ∀ a, r.outcome = .ok a → other.outcome = .ok a

theorem Succeeds.refl (r : Run α) : Succeeds r r :=
  fun _ h => h

theorem Succeeds.bind {other r : Run α} {next' next : α → Run β} (hfirst : Succeeds other r)
    (hnext : ∀ a, Succeeds (next' a) (next a)) : Succeeds (other >>= next') (r >>= next) := by
  intro b h
  obtain ⟨a, ha, hb⟩ := bind_ok_iff.1 h
  exact bind_ok_iff.2 ⟨a, hfirst a ha, hnext a b hb⟩

theorem succeeds_stepwise : Stepwise fun _ => Succeeds :=
  ⟨Succeeds.refl, Succeeds.bind⟩

end Run

namespace Renderer

variable {r' r : Renderer}

theorem included_succeeds (hdir : r'.includeDir = r.includeDir) (hsource : r'.source = r.source)
    (hindent : 0 ≤ r'.indent) {chain : List String} {depth : Int} {name : String}
    {root' root : List String → Document → Run String}
    (hroot : ∀ chain d, Run.Succeeds (root' chain d) (root chain d)) :
    Run.Succeeds (r'.included chain depth name "null" root')
      (r.included chain depth name "null" root) := by
  by_cases htarget : r.source.target r.includeDir name ∈ chain
  · rw [included_of_mem htarget]
    intro text h
    cases h
  · have htarget' := htarget
    rw [← hsource, ← hdir] at htarget'
    rw [included_of_not_mem htarget, included_of_not_mem htarget', hsource, hdir]
    refine .bind (.refl _) fun _ => .bind (.refl _) fun _ => .bind (.refl _) fun loaded => ?_
    cases loaded with
    | none => exact .refl _
    | some d =>
        dsimp only
        rw [if_neg (Int.not_lt.2 hindent)]
        split
        · intro text h
          cases h
        · exact hroot _ d

/-- In dense layout the spaces of a level are never written. A negative number of them may only keep
an include from being rendered. -/
theorem renderWithin_succeeds (hdense : r.pretty = false) (levels : Nat) (g : Graph)
    (id : NodeId) :
    Run.Succeeds ({ r with indent := 0 }.renderWithin levels g id) (r.renderWithin levels g id) := by
  have hline : ({ r with indent := 0 } : Renderer).line = r.line := by
    funext depth text
    simp [line, hdense]
  refine node_related Run.succeeds_stepwise hline ?_ levels (Eq.refl r.chain) g [] r.depth id
  rintro _ chain depth name root' root rfl hroot
  exact included_succeeds (by rfl) (by rfl) (by exact Int.le_refl 0) fun chain d => hroot d rfl

/-- In dense layout a literal has the line breaks of the strings that are rendered, at whatever
depth, and no others. So it is a single line exactly if no such string has a line break. -/
theorem dense_breaks (r : Renderer) (hdense : r.pretty = false) (levels : Nat) (g : Graph)
    (id : NodeId) (text : String) (h : (r.renderWithin levels g id).outcome = .ok text) :
    ∃ content, r.source.HasContent r.includeDir ⟨g, id⟩ content ∧
      breaks text = (content.scalars.map Scalar.lineBreaks).sum ∧
      ('\n' ∈ text.toList ↔ ∃ s ∈ content.scalars,
        Literal.kindOf s.tag = .string ∧ '\n' ∈ s.value.toList) := by
  have hgather := renderWithin_succeeds hdense levels g id text h
  rw [renderWithin, node_eq_gather (Int.le_refl 0), Run.map_ok_iff] at hgather
  obtain ⟨content, hcontent, rfl⟩ := hgather
  have hdense' : ({ r with indent := 0 } : Renderer).pretty = false := hdense
  have hbreaks := breaks_text hdense' r.depth content
  refine ⟨content, Source.hasContent_of_gather hcontent, hbreaks, ?_⟩
  rw [← not_iff_not, ← breaks_eq_zero_iff, hbreaks, Content.lineBreaks,
    List.sum_eq_zero_iff_forall_eq_nat, List.forall_mem_map]
  push Not
  simp only [Scalar.lineBreaks_eq_zero_iff, not_and]

/-- A mapping whose value has two lines. -/
def twoLines : Document :=
  ⟨⟨#[.mapping (coreTag "map") [(1, 2)], .scalar ⟨coreTag "str", "v"⟩,
    .scalar ⟨coreTag "str", "a\nb"⟩]⟩, 0⟩

def denseRenderer : Renderer := ⟨"/", false, 4, 0, [], .nothing⟩

theorem dense_breaks_twoLines :
    let text := "array('v' => 'a\nb')"
    (denseRenderer.renderWithin 2 twoLines.graph 0).outcome = .ok text ∧
      ∃ content, Source.nothing.HasContent "/" twoLines content ∧
        (content.scalars.map Scalar.lineBreaks).sum = 1 := by
  intro text
  have htext : (denseRenderer.renderWithin 2 twoLines.graph 0).outcome = .ok text := by
    decide +kernel
  obtain ⟨content, hcontent, hbreaks, -⟩ :=
    dense_breaks denseRenderer rfl 2 twoLines.graph 0 text htext
  exact ⟨htext, content, hcontent, hbreaks.symm.trans (by decide +kernel)⟩

/-- The literal of a string of two lines is written in two lines in dense layout as well. -/
theorem dense_literal_of_two_lines :
    Document.read "v: \"a\\nb\"".toList = .ok (some twoLines) ∧
      ∃ text, (denseRenderer.renderWithin 2 twoLines.graph twoLines.root).outcome = .ok text ∧
        '\n' ∈ text.toList :=
  ⟨by decide +kernel, "array('v' => 'a\nb')", by decide +kernel, by decide⟩

end Renderer

end PhpArray

import PhpArray.Proofs.Layout
import PhpArray.Proofs.Reader.Arrays
import PhpArray.Proofs.Reader.Doubles

/-!
Reading what has been rendered. PHP reads the literal of a document, in any layout and whatever
follows it, as the value of its content: the same entries in the same order, each scalar as the atom
that its tag and text denote. Marked expressions are the exception, since they are not literals.
-/

namespace PhpArray

open Yaml Php

namespace Yaml.Scalar

/-- What a scalar denotes. A text that is none of its kind is null, and so is an integer of too many
digits. -/
def atom (s : Scalar) : Atom :=
  match Literal.kindOf s.tag with
  | .string => .string (utf8 s.value.toList)
  | .bool => (readBool? s.value.toList).elim .null .bool
  | .int =>
    match readInt? s.value.toList with
    | some n => if n.natAbs < 10 ^ Numeral.maxDecimalDigits then .int n else .null
    | none => .null
  | .float =>
    match readFloat s.value.toList with
    | .ok x => .float x
    | .error _ => .null
  | .null => .null

/-- A scalar that is not marked as an expression. -/
def IsPlain (s : Scalar) : Prop :=
  Literal.kindOf s.tag = .string → Literal.expression? s.value.toList = none

instance (s : Scalar) : Decidable s.IsPlain :=
  inferInstanceAs (Decidable (_ → _))

end Yaml.Scalar

theorem Numeral.write?_eq (n : Int) : Numeral.write? n =
    if n.natAbs < 10 ^ maxDecimalDigits then
      some (String.ofList (if n < 0 then '-' :: Nat.toDigits 10 n.natAbs
        else Nat.toDigits 10 n.natAbs))
    else none := by
  have hlimit : 0 < maxDecimalDigits := by decide
  simp only [write?, Nat.length_toDigits_le_iff (by omega : 1 < 10) hlimit]

namespace Php

variable {rest : List Char}

theorem readAtom_of_readString {text : List Char} {bytes : List UInt8}
    (h : readString text = some (bytes, rest)) : readAtom text = some (.string bytes, rest) := by
  unfold readAtom
  split
  next => cases h
  next => cases h
  next => rw [h]

theorem readAtom_null (hrest : Ends rest) : readAtom ("null".toList ++ rest) = some (.null, rest) :=
  readAtom_constant "null".toList rfl rfl rfl rfl hrest

theorem readAtom_ofBool (b : Bool) (hrest : Ends rest) :
    readAtom ((Literal.ofBool b).toList ++ rest) = some (.bool b, rest) := by
  cases b with
  | true => exact readAtom_constant "true".toList rfl rfl rfl rfl hrest
  | false => exact readAtom_constant "false".toList rfl rfl rfl rfl hrest

/-- The literal of a scalar is read as what the scalar denotes. -/
theorem readAtom_literal {s : Scalar} (hplain : s.IsPlain) (hrest : Ends rest) :
    readAtom (s.literal.toList ++ rest) = some (s.atom, rest) := by
  unfold Scalar.literal Scalar.atom
  cases hkind : Literal.kindOf s.tag with
  | string =>
      have hexpression := hplain hkind
      simp only [Literal.ofText, Literal.ofString, hexpression, Option.getD_none,
        String.toList_ofList]
      exact readAtom_of_readString (readString_quote s.value.toList rest)
  | bool =>
      cases hread : readBool? s.value.toList with
      | none => simpa [Literal.ofText, hread] using readAtom_null hrest
      | some b => simpa [Literal.ofText, hread] using readAtom_ofBool b hrest
  | int =>
      cases hread : readInt? s.value.toList with
      | none => simpa [Literal.ofText, hread] using readAtom_null hrest
      | some n =>
          simp only [Literal.ofText, hread, Option.bind_some, Numeral.write?_eq]
          by_cases hlimit : n.natAbs < 10 ^ Numeral.maxDecimalDigits
          · rw [if_pos hlimit, if_pos hlimit]
            simpa only [Option.elim_some, String.toList_ofList] using readAtom_int n hrest
          · rw [if_neg hlimit, if_neg hlimit]
            exact readAtom_null hrest
  | float =>
      cases hread : readFloat s.value.toList with
      | error fault => simpa [Literal.ofText, hread, Except.map] using readAtom_null hrest
      | ok x =>
          simpa [Literal.ofText, hread, Except.map] using
            readAtom_ofFloat (isDouble_readFloat hread) hrest
  | null => simpa [Literal.ofText] using readAtom_null hrest

end Php

namespace Content

mutual

/-- What PHP makes of a content. -/
def value : Content → Value
  | .scalar s => .atom s.atom
  | .array entries => .array (entryValues entries)

def entryValues : List (Option Scalar × Content) → List (Option Atom × Value)
  | [] => []
  | (key, c) :: rest => (key.map Scalar.atom, c.value) :: entryValues rest

end

mutual

/-- The fuel that reading the literal of a content takes. -/
def fuel : Content → Nat
  | .scalar _ => 1
  | .array entries => entriesFuel entries + 1

def entriesFuel : List (Option Scalar × Content) → Nat
  | [] => 1
  | (_, c) :: rest => c.fuel + entriesFuel rest + 2

end

theorem fuel_pos (c : Content) : 0 < c.fuel := by
  cases c <;> simp [fuel]

section

variable (pretty : Bool) (indent depth : Nat)

theorem forall_mem_scalars_cons {p : Scalar → Prop} {key : Option Scalar} {c : Content}
    {more : List (Option Scalar × Content)} :
    (∀ s ∈ (array ((key, c) :: more)).scalars, p s) ↔
      (∀ k ∈ key, p k) ∧ (∀ s ∈ c.scalars, p s) ∧ ∀ s ∈ (array more).scalars, p s := by
  simp only [scalars, entryScalars, List.forall_mem_append, Option.mem_toList, Option.mem_def,
    and_assoc]

theorem isBlank_of_mem_lineBreak (level : Nat) :
    ∀ c ∈ ((Segment.lineBreak level).write pretty indent depth).toList, isBlank c = true := by
  intro c hc
  cases pretty with
  | false => simp [Segment.write] at hc
  | true =>
      simp only [Segment.write, if_true, String.toList_append, String.toList_ofList,
        List.mem_append] at hc
      rcases hc with hnewline | hspace
      · obtain rfl : c = '\n' := by simpa using hnewline
        rfl
      · rw [List.eq_of_mem_replicate hspace]
        rfl

theorem skipBlanks_lineBreak (level : Nat) (text : List Char) :
    skipBlanks (((Segment.lineBreak level).write pretty indent depth).toList ++ text) =
      skipBlanks text :=
  skipBlanks_append (isBlank_of_mem_lineBreak pretty indent depth level) text

/-- The literal of a content can be read wherever it stands, if nothing goes on behind it. -/
def ReadsBack (c : Content) : Prop :=
  ∀ (level fuel : Nat) (text rest : List Char), c.fuel ≤ fuel → Ends rest →
    skipBlanks text = (c.literal pretty indent depth level).toList ++ rest →
    readValue fuel text = some (c.value, rest)

theorem opens_literal {s : Scalar} (hplain : s.IsPlain) : Opens s.literal.toList := by
  have hread := readAtom_literal hplain (by simp [Ends] : Ends [])
  rw [List.append_nil] at hread
  exact opens_of_readAtom hread

theorem opens_content {c : Content} (hplain : ∀ s ∈ c.scalars, s.IsPlain) (level : Nat) :
    Opens (c.literal pretty indent depth level).toList := by
  cases c with
  | scalar s =>
      have hs := opens_literal (hplain s (by simp [scalars]))
      simpa [literal, segments, Segment.write] using hs
  | array entries =>
      have hword : Opens "array(".toList := ⟨'a', rfl, rfl, by decide⟩
      simp only [literal, segments, List.cons_append, Segment.writeAll_cons, String.toList_append]
      exact hword.append _

theorem opens_entry {key : Option Scalar} {c : Content} (hkey : ∀ k ∈ key, k.IsPlain)
    (hplain : ∀ s ∈ c.scalars, s.IsPlain) (level : Nat) (rest : List Char) :
    Opens ((Segment.writeAll pretty indent depth (keySegments key)).toList ++
      ((c.literal pretty indent depth level).toList ++ rest)) := by
  cases key with
  | none => exact (opens_content pretty indent depth hplain level).append rest
  | some k =>
      have hk := (opens_literal (hkey k rfl)).append
        (" => ".toList ++ ((c.literal pretty indent depth level).toList ++ rest))
      simpa [keySegments, Segment.write] using hk

variable {pretty indent depth}

theorem readEntry_literal {key : Option Scalar} {c : Content} (hkey : ∀ k ∈ key, k.IsPlain)
    (hplain : ∀ s ∈ c.scalars, s.IsPlain) (hc : c.ReadsBack pretty indent depth)
    (level : Nat) {fuel : Nat} (hfuel : c.fuel ≤ fuel) {rest behind : List Char} {stop : Char}
    (hrest : skipBlanks rest = stop :: behind) (hstop : stop = ',' ∨ stop = ')') :
    readEntry (fuel + 1) ((Segment.writeAll pretty indent depth (keySegments key)).toList ++
      ((c.literal pretty indent depth level).toList ++ rest)) =
        some ((key.map Scalar.atom, c.value), rest) := by
  have hends : Ends rest := by
    rcases hstop with rfl | rfl
    · exact ends_of_skipBlanks hrest rfl (by decide)
    · exact ends_of_skipBlanks hrest rfl (by decide)
  have hequal : stop ≠ '=' := by
    rcases hstop with rfl | rfl <;> decide
  have hskip := skipBlanks_of_opens ((opens_content pretty indent depth hplain level).append rest)
  cases key with
  | none =>
      have hvalue := hc level fuel _ rest hfuel hends hskip
      simpa [keySegments] using readEntry_value hvalue hrest hequal
  | some k =>
      obtain ⟨fuel, rfl⟩ := Nat.exists_eq_add_one_of_ne_zero
        (Nat.pos_iff_ne_zero.1 (c.fuel_pos.trans_le hfuel))
      have hvalue := hc level (fuel + 1)
        (' ' :: ((c.literal pretty indent depth level).toList ++ rest)) rest hfuel hends hskip
      have harrow : Ends (" => ".toList ++
          ((c.literal pretty indent depth level).toList ++ rest)) :=
        ends_cons rfl (by decide) _
      have hk := readAtom_literal (hkey k rfl) harrow
      rw [← skipBlanks_of_opens ((opens_literal (hkey k rfl)).append _)] at hk
      have hkeyRead := readValue_of_readAtom fuel hk
      simpa [keySegments, Segment.write] using readEntry_pair hkeyRead rfl hvalue

variable (pretty indent depth)

/-- The literal of a collection without the word and the parenthesis it begins with. -/
def entriesLiteral (level : Nat) (entries : List (Option Scalar × Content)) : String :=
  Segment.writeAll pretty indent depth
    ([Segment.text ", "].intercalate (entrySegments (level + 1) entries) ++
      [.lineBreak level, .text ")"])

theorem literal_array (level : Nat) (entries : List (Option Scalar × Content)) :
    (array entries).literal pretty indent depth level =
      "array(" ++ entriesLiteral pretty indent depth level entries := by
  simp [literal, segments, entriesLiteral, Segment.write]

/-- What stands behind an entry: the next one, or the end of the collection. -/
def behindEntry (level : Nat) (more : List (Option Scalar × Content)) : String :=
  match more with
  | [] => entriesLiteral pretty indent depth level []
  | more => ", " ++ entriesLiteral pretty indent depth level more

theorem entriesLiteral_cons (level : Nat) (key : Option Scalar) (c : Content)
    (more : List (Option Scalar × Content)) :
    entriesLiteral pretty indent depth level ((key, c) :: more) =
      (Segment.lineBreak (level + 1)).write pretty indent depth ++
        (Segment.writeAll pretty indent depth (keySegments key) ++
          (c.literal pretty indent depth (level + 1) ++
            behindEntry pretty indent depth level more)) := by
  cases more with
  | nil => simp [entriesLiteral, behindEntry, entrySegments, literal]
  | cons next more =>
      simp [entriesLiteral, behindEntry, entrySegments, literal,
        List.intercalate_cons_cons, Segment.write]

variable {pretty indent depth}

/-- Behind the parenthesis of a collection its entries are read, whatever blanks stand before. -/
theorem readEntries_literal {entries : List (Option Scalar × Content)}
    (hplain : ∀ s ∈ (array entries).scalars, s.IsPlain)
    (hentries : ∀ entry ∈ entries, entry.2.ReadsBack pretty indent depth) (level : Nat)
    {fuel : Nat} (hfuel : entriesFuel entries ≤ fuel) {blanks : List Char}
    (hblanks : ∀ c ∈ blanks, isBlank c = true) (rest : List Char) :
    readEntries fuel
      (blanks ++ ((entriesLiteral pretty indent depth level entries).toList ++ rest)) =
        some (entryValues entries, rest) := by
  have hclose : skipBlanks ((entriesLiteral pretty indent depth level []).toList ++ rest) =
      ')' :: rest := by
    have hskip := skipBlanks_lineBreak pretty indent depth level (')' :: rest)
    refine Eq.trans ?_ (hskip.trans rfl)
    simp [entriesLiteral, entrySegments, Segment.write]
  induction entries generalizing blanks fuel with
  | nil =>
      obtain ⟨fuel, rfl⟩ := Nat.exists_eq_add_one_of_ne_zero (Nat.one_le_iff_ne_zero.1 hfuel)
      apply readEntries_nil
      rw [skipBlanks_append hblanks, hclose]
  | cons entry more ih =>
      obtain ⟨key, c⟩ := entry
      simp only [entriesFuel] at hfuel
      obtain ⟨fuel, rfl⟩ := Nat.exists_eq_add_of_le' (show 2 ≤ fuel by omega)
      obtain ⟨hkey, hc, hmore⟩ := forall_mem_scalars_cons.1 hplain
      obtain ⟨hreads, hentries⟩ := List.forall_mem_cons.1 hentries
      have hcfuel : c.fuel ≤ fuel := by omega
      have hopens := opens_entry pretty indent depth hkey hc (level + 1)
        ((behindEntry pretty indent depth level more).toList ++ rest)
      have hskip := skipBlanks_of_opens hopens
      rw [← skipBlanks_lineBreak pretty indent depth (level + 1), ← skipBlanks_append hblanks]
        at hskip
      rw [entriesLiteral_cons]
      simp only [String.toList_append, List.append_assoc]
      cases more with
      | nil =>
          have hentry := readEntry_literal hkey hc hreads (level + 1) hcfuel hclose (.inr rfl)
          exact readEntries_last hskip hopens hentry hclose
      | cons next more =>
          have hcomma : skipBlanks
              ((behindEntry pretty indent depth level (next :: more)).toList ++ rest) =
                ',' :: ([' '] ++
                  ((entriesLiteral pretty indent depth level (next :: more)).toList ++ rest)) := by
            simp [behindEntry, skipBlanks, isBlank]
          have hentry := readEntry_literal hkey hc hreads (level + 1) hcfuel hcomma (.inl rfl)
          have hnext := ih hmore hentries (by omega : _ ≤ fuel + 1)
            (by simp [isBlank] : ∀ c ∈ [' '], isBlank c = true)
          exact readEntries_cons hskip hopens hentry hcomma hnext

theorem readsBack {c : Content} (hplain : ∀ s ∈ c.scalars, s.IsPlain) :
    c.ReadsBack pretty indent depth := by
  induction c with
  | scalar s =>
      intro level fuel text rest hfuel hends htext
      obtain ⟨fuel, rfl⟩ := Nat.exists_eq_add_one_of_ne_zero (Nat.one_le_iff_ne_zero.1 hfuel)
      have hs := readAtom_literal (hplain s (by simp [scalars])) hends
      apply readValue_of_readAtom fuel
      rw [htext]
      simpa [literal, segments, Segment.write] using hs
  | array entries ih =>
      intro level fuel text rest hfuel hends htext
      simp only [Content.fuel] at hfuel
      obtain ⟨fuel, rfl⟩ := Nat.exists_eq_add_one_of_ne_zero (Nat.ne_zero_of_lt hfuel)
      have hentries : ∀ entry ∈ entries, entry.2.ReadsBack pretty indent depth :=
        fun entry hentry => ih entry hentry fun s hs =>
          hplain s (mem_scalars_array.2 ⟨entry, hentry, .inr hs⟩)
      rw [literal_array, String.toList_append, List.append_assoc] at htext
      have hread := readEntries_literal hplain hentries level (Nat.le_of_succ_le_succ hfuel)
        (List.forall_mem_nil _) rest
      exact readValue_array htext hread

variable (pretty indent depth)

theorem entriesFuel_le_length {entries : List (Option Scalar × Content)} (level : Nat)
    (h : ∀ entry ∈ entries,
      entry.2.fuel ≤ (entry.2.literal pretty indent depth (level + 1)).length) :
    entriesFuel entries ≤ (entriesLiteral pretty indent depth level entries).length + 3 := by
  induction entries with
  | nil => simp [entriesFuel]
  | cons entry more ih =>
      obtain ⟨key, c⟩ := entry
      obtain ⟨hc, hmore⟩ := List.forall_mem_cons.1 h
      dsimp only at hc
      have hbehind : entriesFuel more ≤
          (behindEntry pretty indent depth level more).length + 1 := by
        cases more with
        | nil => simp [entriesFuel]
        | cons next more =>
            have hnext := ih hmore
            have hcomma : ", ".length = 2 := rfl
            rw [behindEntry, String.length_append]
            · omega
            · simp
      simp only [entriesFuel, entriesLiteral_cons, String.length_append]
      omega

/-- A literal has characters enough for the fuel that reading it takes. -/
theorem fuel_le_length {c : Content} (hplain : ∀ s ∈ c.scalars, s.IsPlain) (level : Nat) :
    c.fuel ≤ (c.literal pretty indent depth level).length := by
  induction c generalizing level with
  | scalar s =>
      obtain ⟨first, hfirst, -⟩ := opens_content pretty indent depth hplain level
      obtain ⟨more, hmore⟩ := List.head?_eq_some_iff.1 hfirst
      rw [fuel, ← String.length_toList, hmore]
      simp
  | array entries ih =>
      have hentries := entriesFuel_le_length pretty indent depth level fun entry hentry =>
        ih entry hentry (fun s hs => hplain s (mem_scalars_array.2 ⟨entry, hentry, .inr hs⟩))
          (level + 1)
      have hword : "array(".length = 6 := rfl
      rw [literal_array, fuel, String.length_append]
      omega

/-- A literal is read as its content if a semicolon stands behind it. -/
theorem read_literal {c : Content} (hplain : ∀ s ∈ c.scalars, s.IsPlain) (rest : List Char) :
    Php.read ((c.literal pretty indent depth 0).toList ++ ';' :: rest) =
      some (c.value, ';' :: rest) := by
  have hfuel := fuel_le_length pretty indent depth hplain 0
  have hopens := opens_content pretty indent depth hplain 0
  have hends : Ends (';' :: rest) := ends_cons rfl (by decide) rest
  refine readsBack hplain 0 _ _ _ ?_ hends (skipBlanks_of_opens (hopens.append _))
  rw [List.length_append, String.length_toList]
  omega

end

end Content

namespace Renderer

/-- A literal reads back. If a document is rendered in whatever layout, PHP reads the content of the
document from the text and stops right behind it, provided that no string in it is an expression. -/
theorem reads_back (source : Source) (dir : String) (chain : List String) (pretty : Bool)
    (indent depth levels : Nat) (g : Graph) (id : NodeId) (text : String)
    (h : ((⟨dir, pretty, indent, depth, chain, source⟩ : Renderer).renderWithin
      levels g id).outcome = .ok text) :
    ∃ content, source.HasContent dir ⟨g, id⟩ content ∧
      ((∀ s ∈ content.scalars, s.IsPlain) → ∀ rest,
        Php.read (text.toList ++ ';' :: rest) = some (content.value, ';' :: rest)) := by
  rw [renderWithin_eq_gather, Run.map_ok_iff, Run.outcome_deeper] at h
  obtain ⟨content, hgather, rfl⟩ := h
  refine ⟨content, Source.hasContent_of_gather hgather, fun hplain rest => ?_⟩
  exact Content.read_literal pretty indent depth hplain rest

def quotedPart : Document := ⟨⟨#[.sequence "" [1], .scalar ⟨coreTag "str", "a\"b"⟩]⟩, 0⟩

def quotedSource : Source where
  home := "/"
  load path := if path = "/part" then .ok (some quotedPart) else .ok none
  documents := [quotedPart]
  load_ne_nesting path := by split <;> simp

/-- A pair of an apostrophe and an include of quotes, and a pair of a merge key. -/
def quotedDocument : Document :=
  ⟨⟨#[.mapping "" [(1, 2), (3, 1)], .scalar ⟨coreTag "str", "it's"⟩,
    .scalar ⟨includeTag, "part"⟩, .scalar ⟨coreTag "merge", "<<"⟩]⟩, 0⟩

def quotedContent : Content :=
  .ofPairs [(⟨coreTag "str", "it's"⟩, .ofItems [.scalar ⟨coreTag "str", "a\"b"⟩])]

theorem hasContent_quotedDocument : quotedSource.HasContent "/" quotedDocument quotedContent := by
  have hpath : Path.join "/" "part" = "/part" := by decide +kernel
  have hload : quotedSource.load (Path.join "/" "part") = .ok (some quotedPart) := by
    simp [quotedSource, hpath]
  refine .mapping rfl (by decide) (.cons ⟨rfl, by decide⟩ .nil) (.cons ?_ .nil)
  refine .included rfl rfl (Source.included?_of_load hload) ?_
  refine .sequence rfl (by decide) (.cons ?_ .nil)
  exact .scalar rfl (by decide)

theorem reads_back_quotedDocument :
    let text := "array(\n  'it\\'s' => array(\n    \"a\\\"b\"\n  )\n)"
    ((⟨"/", true, 2, 0, [], quotedSource⟩ : Renderer).renderWithin 4
      quotedDocument.graph 0).outcome = .ok text ∧
    Php.read (text.toList ++ [';']) =
      some (.array [(some (.string (utf8 "it's".toList)),
        .array [(none, .atom (.string (utf8 "a\"b".toList)))])], [';']) := by
  intro text
  have htext : ((⟨"/", true, 2, 0, [], quotedSource⟩ : Renderer).renderWithin 4
      quotedDocument.graph 0).outcome = .ok text := by decide +kernel
  obtain ⟨content, hcontent, hread⟩ :=
    reads_back quotedSource "/" [] true 2 0 4 quotedDocument.graph 0 text htext
  obtain rfl := hcontent.unique hasContent_quotedDocument
  exact ⟨htext, hread (by decide) []⟩

end Renderer

end PhpArray

import PhpArray.Proofs.Inlining
import PhpArray.Proofs.Reader.Keys
import PhpArray.Proofs.Reader.RoundTrip

/-!
The keys of a mapping as keys of a PHP array. A key is written like any other scalar, and what PHP
takes for the same key is not told apart: `1.5` and `1` are different keys of a document and one key
of an array, of which the later pair is left. The main statement is that this is all that can go
wrong. The literal of a mapping has an entry for each pair in its order, and PHP keeps all of them
if and only if the keys are pairwise different to PHP.
-/

namespace PhpArray

open Yaml Php

/-- Strings that denote the same are the same text. -/
theorem Yaml.Scalar.value_eq_of_atom {s t : Scalar} (hkind : Literal.kindOf s.tag = .string)
    (h : s.atom = t.atom) : s.value = t.value := by
  have hs : s.atom = .string (utf8 s.value.toList) := by simp only [Scalar.atom, hkind]
  rw [hs, Scalar.atom] at h
  cases htag : Literal.kindOf t.tag with
  | string =>
      simp only [htag, Atom.string.injEq] at h
      exact String.toList_inj.1 (utf8_injective h)
  | bool => cases hread : readBool? t.value.toList <;> simp [htag, hread] at h
  | int =>
      simp only [htag] at h
      split at h
      · split at h <;> cases h
      · cases h
  | float => cases hread : readFloat t.value.toList <;> simp [htag, hread] at h
  | null => simp [htag] at h

namespace Content

theorem value_ofPairs (pairs : List (Scalar × Content)) :
    (ofPairs pairs).value = .array (pairs.map fun pair => (some pair.1.atom, pair.2.value)) := by
  have hentries : entryValues (pairs.map fun pair => (some pair.1, pair.2)) =
      pairs.map fun pair => (some pair.1.atom, pair.2.value) := by
    induction pairs with
    | nil => rfl
    | cons pair rest ih => simp [entryValues, ih]
  rw [ofPairs, value, hentries]

end Content

namespace Renderer

variable {r : Renderer}

/-- What a mapping that is rendered consists of. -/
theorem exists_pairs_of_mapping (hindent : 0 ≤ r.indent) {levels : Nat} {chain : List String}
    {g : Graph} {active : List NodeId} {depth : Int} {id : NodeId} {tag : String}
    {pairs : List (NodeId × NodeId)} {text : String} (hnode : g.node id = .mapping tag pairs)
    (htext : (r.node (levels + 1) chain g active depth id).outcome = .ok text) :
    ∃ entries : List (Scalar × Content),
      r.source.HasContent r.includeDir ⟨g, id⟩ (.ofPairs entries) ∧
      text = r.text depth (.ofPairs entries) ∧
      List.Forall₂ (fun pair entry => g.node pair.1 = .scalar entry.1 ∧
        (r.node levels chain g (id :: active) (depth + 1) pair.2).outcome =
          .ok (r.text (depth + 1) entry.2)) (g.kept pairs) entries := by
  rw [node_eq_gather hindent, Run.map_ok_iff] at htext
  obtain ⟨c, hgather, rfl⟩ := htext
  have hcontent := Source.hasContent_of_gather hgather
  rcases Source.gather_ok_cases hgather with ⟨s, hs, -⟩ | ⟨s, d, hs, -⟩ | ⟨_, _, _, hs, -⟩ |
    ⟨tag', pairs', entries, hpairs, -, -, rfl, hentries⟩
  · rw [hnode] at hs
    cases hs
  · rw [hnode] at hs
    cases hs
  · rw [hnode] at hs
    cases hs
  · rw [hnode] at hpairs
    cases hpairs
    refine ⟨entries, hcontent, rfl, hentries.imp ?_⟩
    rintro pair entry ⟨⟨hkey, -⟩, hvalue⟩
    rw [node_eq_gather hindent, Run.map_ok_iff]
    exact ⟨hkey, entry.2, hvalue, rfl⟩

/-- Keys are kept apart as far as PHP can. The literal of a mapping whose keys are no expressions
has an entry for each pair in its order, with a key that PHP reads as what the key of the pair
denotes; and the whole literal is read as these entries if nothing in it is an expression. PHP keeps
all entries, whatever their values, if and only if the keys are pairwise different to it, as
different strings, truth values and integers of 64 bits are among their own. -/
theorem keys_kept_iff (r : Renderer) (hindent : 0 ≤ r.indent) (wrap : Int → Int) (levels : Nat)
    (chain : List String) (g : Graph) (active : List NodeId) (depth : Int) (id : NodeId)
    (tag : String) (pairs : List (NodeId × NodeId)) (text : String)
    (hnode : g.node id = .mapping tag pairs)
    (hplain : ∀ pair ∈ g.kept pairs, ∀ s, g.node pair.1 = .scalar s → s.IsPlain)
    (htext : (r.node (levels + 1) chain g active depth id).outcome = .ok text) :
    ∃ entries : List (Scalar × String),
      List.Forall₂ (fun pair entry => g.node pair.1 = .scalar entry.1 ∧
        (r.node levels chain g (id :: active) (depth + 1) pair.2).outcome = .ok entry.2)
        (g.kept pairs) entries ∧
      text = r.array depth (entries.map fun entry =>
        r.line (depth + 1) (entry.1.literal ++ " => " ++ entry.2)) ∧
      (∀ entry ∈ entries, ∀ rest, Ends rest →
        readAtom (entry.1.literal.toList ++ rest) = some (entry.1.atom, rest)) ∧
      (∀ c, 0 ≤ depth → r.source.HasContent r.includeDir ⟨g, id⟩ c →
        (∀ s ∈ c.scalars, s.IsPlain) → ∃ values : List Value, values.length = entries.length ∧
          ∀ rest, Php.read (text.toList ++ ';' :: rest) =
            some (.array ((entries.map fun entry => some entry.1.atom).zip values), ';' :: rest)) ∧
      (∀ (V : Type) (values : List V), values.length = entries.length →
        let keys := entries.map fun entry => Key.ofAtom wrap entry.1.atom
        arrayOf (keys.zip values) = keys.zip values ↔ keys.Nodup) ∧
      ∀ entry ∈ entries, ∀ other ∈ entries, SameKind entry.1.atom other.1.atom →
        Key.ofAtom wrap entry.1.atom = Key.ofAtom wrap other.1.atom →
          entry.1.atom = other.1.atom ∧
          (Literal.kindOf entry.1.tag = .string → entry.1.value = other.1.value) := by
  obtain ⟨contents, hcontent, rfl, hentries⟩ := exists_pairs_of_mapping hindent hnode htext
  refine ⟨contents.map fun entry => (entry.1, r.text (depth + 1) entry.2), ?_, ?_, ?_, ?_, ?_, ?_⟩
  · rwa [List.forall₂_map_right_iff]
  · rw [text_ofPairs, List.map_map]
    rfl
  · intro entry hentry rest hrest
    obtain ⟨content, hmem, rfl⟩ := List.mem_map.1 hentry
    obtain ⟨pair, hpair, hkey, -⟩ := Source.forall₂_exists_of_mem hentries hmem
    exact readAtom_literal (hplain pair hpair content.1 hkey) hrest
  · intro c hdepth hc hscalars
    obtain rfl := hc.unique hcontent
    obtain ⟨depth, rfl⟩ := Int.eq_ofNat_of_zero_le hdepth
    obtain ⟨indent, hindent⟩ := Int.eq_ofNat_of_zero_le hindent
    refine ⟨contents.map fun entry => entry.2.value, by simp, fun rest => ?_⟩
    have hliteral : r.text depth (.ofPairs contents) =
        (Content.ofPairs contents).literal r.pretty indent depth 0 :=
      text_eq_literal hindent depth 0 _
    rw [hliteral, Content.read_literal _ _ _ hscalars, Content.value_ofPairs, List.map_map,
      List.zip_map']
    rfl
  · intro V values hlength keys
    rw [arrayOf_eq_self_iff, List.map_fst_zip]
    simp [keys, hlength]
  · intro entry _ other _ hkind hkey
    have hatom := hkind.eq_of_ofAtom hkey
    exact ⟨hatom, fun hstring => Scalar.value_eq_of_atom hstring hatom⟩

/-- Strings that look like numbers and are none, and a number. -/
def likeNumbers : Document :=
  ⟨⟨#[.mapping "" [(1, 4), (2, 4), (3, 4)], .scalar ⟨coreTag "str", "01"⟩,
    .scalar ⟨coreTag "int", "1"⟩, .scalar ⟨coreTag "str", "-0"⟩, .scalar ⟨coreTag "null", ""⟩]⟩, 0⟩

theorem keys_kept_iff_likeNumbers :
    let r : Renderer := ⟨"/", false, 4, 0, [], .nothing⟩
    let keys : List Key := [.string (utf8 "01".toList), .int 1, .string (utf8 "-0".toList)]
    (r.node 2 [] likeNumbers.graph [] 0 0).outcome =
      .ok "array('01' => null, 1 => null, '-0' => null)" ∧
    ∀ values : List Value, values.length = 3 → arrayOf (keys.zip values) = keys.zip values := by
  intro r keys
  have htext : (r.node 2 [] likeNumbers.graph [] 0 0).outcome =
      .ok "array('01' => null, 1 => null, '-0' => null)" := by decide +kernel
  have hpairs : likeNumbers.graph.kept [(1, 4), (2, 4), (3, 4)] = [(1, 4), (2, 4), (3, 4)] := by
    decide +kernel
  have hplain : ∀ pair ∈ likeNumbers.graph.kept [(1, 4), (2, 4), (3, 4)],
      ∀ s, likeNumbers.graph.node pair.1 = .scalar s → s.IsPlain := by
    intro pair hpair s hs
    rw [hpairs] at hpair
    simp only [List.mem_cons, List.not_mem_nil, or_false] at hpair
    rcases hpair with rfl | rfl | rfl <;> cases hs <;> decide
  obtain ⟨entries, hentries, -, -, -, hkept, -⟩ := keys_kept_iff r (by decide) id 1 [] _ [] 0 0 ""
    [(1, 4), (2, 4), (3, 4)] _ rfl hplain htext
  have hkeys : entries.map (fun entry => Key.ofAtom id entry.1.atom) = keys := by
    rw [hpairs] at hentries
    rcases hentries with _ | ⟨⟨hfirst, -⟩, _ | ⟨⟨hsecond, -⟩, _ | ⟨⟨hthird, -⟩, _ | _⟩⟩⟩
    rw [List.map_cons, List.map_cons, List.map_cons, ← Node.scalar.inj hfirst,
      ← Node.scalar.inj hsecond, ← Node.scalar.inj hthird]
    decide +kernel
  have hlength : entries.length = 3 := by
    rw [← List.length_map (fun entry => Key.ofAtom id entry.1.atom), hkeys]
    rfl
  refine ⟨htext, fun values hvalues => ?_⟩
  have hnodup := (hkept Value values (hvalues.trans hlength.symm)).2
  rw [hkeys] at hnodup
  exact hnodup (by decide +kernel)

/-- A fraction and its whole part. -/
def fractions : Document :=
  ⟨⟨#[.mapping "" [(1, 2), (3, 4)], .scalar ⟨coreTag "float", "1.5"⟩,
    .scalar ⟨coreTag "str", "a"⟩, .scalar ⟨coreTag "int", "1"⟩, .scalar ⟨coreTag "str", "b"⟩]⟩, 0⟩

/-- Two keys of different kinds and values, of which PHP keeps one. -/
theorem fraction_overwritten :
    let half : Scalar := ⟨coreTag "float", "1.5"⟩
    let one : Scalar := ⟨coreTag "int", "1"⟩
    ((⟨"/", false, 4, 0, [], .nothing⟩ : Renderer).renderWithin 2 fractions.graph 0).outcome =
      .ok ("array(" ++ half.literal ++ " => 'a', " ++ one.literal ++ " => 'b')") ∧
    half.IsPlain ∧ one.IsPlain ∧ half.atom ≠ one.atom ∧
    readAtom half.literal.toList = some (half.atom, []) ∧
    readAtom one.literal.toList = some (one.atom, []) ∧
    arrayOf [(Key.ofAtom id half.atom, "a"), (Key.ofAtom id one.atom, "b")] =
      [(Key.int 1, "b")] := by
  decide +kernel

end Renderer

end PhpArray

import Mathlib.Data.List.Basic
import PhpArray.Proofs.Reader.Strings

/-!
Strings as literals, character by character. A quoted literal is taken apart by PHP into pieces, and
each piece stands for some bytes. The main statement is that a string that is marked as an
expression is written as just that, and every other string as a literal with one piece for each of
its characters: the character itself, or the character behind a backslash where it would end the
literal, begin an escape or put in a variable.
-/

namespace PhpArray

namespace Literal

/-- A text that is marked as an expression, on one line. -/
def IsMarked (text expression : List Char) : Prop :=
  text = ['%', 'P', 'H', 'P', '{'] ++ expression ++ ['}'] ∧ '\n' ∉ expression

theorem expression?_eq_some_iff {text expression : List Char} :
    expression? text = some expression ↔ IsMarked text expression := by
  constructor
  · intro h
    unfold expression? at h
    split at h
    next rest =>
      split at h
      next hmarked =>
        obtain rfl := Option.some.inj h
        obtain ⟨hlast, hline⟩ := hmarked
        refine ⟨?_, hline⟩
        have hrest : rest.dropLast ++ ['}'] = rest := List.dropLast_append_getLast? '}' hlast
        rw [List.append_assoc, hrest]
        rfl
      next => cases h
    next => cases h
  · rintro ⟨rfl, hline⟩
    simp [expression?, hline]

/-! ### Escaping one character after another -/

/-- Escapes follow each other if the later ones leave the backslashes of the earlier ones alone. -/
theorem escape_escape {p q : Char → Bool} (hbackslash : q '\\' = false)
    (hapart : ∀ c, p c = true → q c = false) (s : List Char) :
    escape q (escape p s) = escape (fun c => p c || q c) s := by
  induction s with
  | nil => rfl
  | cons c s ih =>
      cases hp : p c with
      | true =>
          have hboth : (p c || q c) = true := by simp [hp]
          rw [escape_cons_of_special hp, escape_cons_of_plain hbackslash,
            escape_cons_of_plain (hapart c hp), ih]
          exact Eq.symm (escape_cons_of_special hboth s)
      | false =>
          cases hq : q c with
          | true =>
              have hboth : (p c || q c) = true := by simp [hq]
              rw [escape_cons_of_plain hp, escape_cons_of_special hq, ih]
              exact Eq.symm (escape_cons_of_special hboth s)
          | false =>
              have hneither : (p c || q c) = false := by simp [hp, hq]
              rw [escape_cons_of_plain hp, escape_cons_of_plain hq, ih]
              exact Eq.symm (escape_cons_of_plain hneither s)

/-- Writes a backslash before each occurrence of one character. -/
def escapeAll (c : Char) (s : List Char) : List Char :=
  escape (· == c) s

theorem singleQuoted_eq (s : List Char) :
    singleQuoted s = '\'' :: escapeAll '\'' (escapeAll '\\' s) ++ ['\''] := by
  have hsteps := escape_escape (p := (· == '\\')) (q := (· == '\'')) rfl (by simp) s
  have hclass : (fun c => c == '\'' || c == '\\') = fun c => c == '\\' || c == '\'' :=
    funext fun c => Bool.or_comm ..
  rw [singleQuoted, escapeAll, escapeAll, hsteps, hclass]

theorem doubleQuoted_eq (s : List Char) :
    doubleQuoted s = '"' :: escapeAll '$' (escapeAll '"' (escapeAll '\\' s)) ++ ['"'] := by
  have hquotes := escape_escape (p := (· == '\\')) (q := (· == '"')) rfl (by simp) s
  have hdollars := escape_escape (p := fun c => c == '\\' || c == '"') (q := (· == '$')) rfl
    (by simp) s
  have hclass : (fun c => c == '"' || c == '\\' || c == '$') =
      fun c => c == '\\' || c == '"' || c == '$' :=
    funext fun c => congrArg (· || c == '$') (Bool.or_comm ..)
  rw [doubleQuoted, escapeAll, escapeAll, escapeAll, hquotes, hdollars, hclass]

/-- The literal of a string made in steps: quotes are put around it and dropped again, and what is
left is an expression or is escaped, the backslashes first. -/
def ofStringInSteps (s : List Char) : List Char :=
  let content := dropQuotes ('"' :: s ++ ['"'])
  match expression? content with
  | some expression => expression
  | none =>
    if '\'' ∈ content then '\'' :: escapeAll '\'' (escapeAll '\\' content) ++ ['\'']
    else if '"' ∈ content then
      '"' :: escapeAll '$' (escapeAll '"' (escapeAll '\\' content)) ++ ['"']
    else '\'' :: escapeAll '\'' (escapeAll '\\' content) ++ ['\'']

theorem toList_ofString (s : String) : (ofString s).toList = ofStringInSteps s.toList := by
  unfold ofStringInSteps
  rw [dropQuotes_quoted]
  dsimp only
  rw [← singleQuoted_eq, ← doubleQuoted_eq, ofString, String.toList_ofList]
  cases expression? s.toList with
  | some expression => rfl
  | none =>
      rw [Option.getD_none, quote]
      by_cases hsingle : '\'' ∈ s.toList
      · rw [if_neg fun h => h.2 hsingle, if_pos hsingle]
      · by_cases hdouble : '"' ∈ s.toList
        · rw [if_pos ⟨hdouble, hsingle⟩, if_neg hsingle, if_pos hdouble]
        · rw [if_neg fun h => hdouble h.1, if_neg hsingle, if_neg hdouble]

end Literal

namespace Php

/-! ### Pieces of literals -/

theorem utf8_singleton (c : Char) : utf8 [c] = String.utf8EncodeChar c :=
  List.append_nil _

/-- What a backslash between apostrophes stands for together with what follows it. -/
def unescapeSingle : List Char → List UInt8 × List Char
  | '\\' :: rest => (utf8 ['\\'], rest)
  | '\'' :: rest => (utf8 ['\''], rest)
  | rest => (utf8 ['\\'], rest)

/-- The bytes of the first piece of what stands between quotes, a character or an escape, and the
text behind it. -/
def nextPiece (quote : Char) : List Char → Option (List UInt8 × List Char)
  | '\\' :: rest => if quote = '"' then unescape rest else some (unescapeSingle rest)
  | c :: rest => some (utf8 [c], rest)
  | [] => none

/-- A text consists of pieces that stand for bytes. -/
inductive TakesApart (quote : Char) : List Char → List (List Char × List UInt8) → Prop
  | nil : TakesApart quote [] []
  | cons {piece rest : List Char} {bytes : List UInt8} {more : List (List Char × List UInt8)} :
      nextPiece quote (piece ++ rest) = some (bytes, rest) → TakesApart quote rest more →
      TakesApart quote (piece ++ rest) ((piece, bytes) :: more)

theorem nextPiece_of_ne {quote c : Char} (hc : c ≠ '\\') (rest : List Char) :
    nextPiece quote (c :: rest) = some (utf8 [c], rest) := by
  unfold nextPiece
  split
  next h => exact absurd (List.cons.inj h).1 hc
  next h =>
    cases h
    rfl
  next h => cases h

theorem decodeSingle_of_nextPiece {text rest : List Char} {bytes : List UInt8}
    (h : nextPiece '\'' text = some (bytes, rest)) :
    decodeSingle text = bytes ++ decodeSingle rest := by
  cases text with
  | nil => cases h
  | cons c behind =>
      by_cases hc : c = '\\'
      · subst hc
        have hpiece : unescapeSingle behind = (bytes, rest) := Option.some.inj h
        unfold unescapeSingle at hpiece
        split at hpiece
        next =>
          cases hpiece
          rw [decodeSingle]
          rfl
        next =>
          cases hpiece
          rw [decodeSingle]
          rfl
        next hbackslash hquote =>
          cases hpiece
          rw [decodeSingle, utf8_singleton]
          · exact fun rest _ h => hbackslash rest h
          · exact fun rest _ h => hquote rest h
      · rw [nextPiece_of_ne hc] at h
        cases h
        rw [decodeSingle, utf8_singleton]
        · exact fun _ h => absurd h hc
        · exact fun _ h => absurd h hc

theorem decodeDouble_of_nextPiece {text rest : List Char} {bytes : List UInt8}
    (h : nextPiece '"' text = some (bytes, rest)) :
    decodeDouble text = (decodeDouble rest).map (bytes ++ ·) := by
  cases text with
  | nil => cases h
  | cons c behind =>
      by_cases hc : c = '\\'
      · subst hc
        exact decodeDouble_backslash h
      · rw [nextPiece_of_ne hc] at h
        cases h
        rw [decodeDouble, utf8_singleton]
        exact fun h => absurd h hc

/-- The bytes of a text between apostrophes are those of its pieces. -/
theorem TakesApart.decodeSingle {text : List Char} {pieces : List (List Char × List UInt8)}
    (h : TakesApart '\'' text pieces) : decodeSingle text = pieces.flatMap Prod.snd := by
  induction h with
  | nil => rfl
  | cons hpiece _ ih => rw [decodeSingle_of_nextPiece hpiece, ih, List.flatMap_cons]

/-- The bytes of a text between double quotes are those of its pieces. -/
theorem TakesApart.decodeDouble {text : List Char} {pieces : List (List Char × List UInt8)}
    (h : TakesApart '"' text pieces) : decodeDouble text = some (pieces.flatMap Prod.snd) := by
  induction h with
  | nil =>
      rw [Php.decodeDouble]
      rfl
  | cons hpiece _ ih =>
      rw [decodeDouble_of_nextPiece hpiece, ih, List.flatMap_cons]
      rfl

/-- A literal that consists of pieces between two quotes, of which PHP finds the second one whatever
follows it. -/
structure ConsistsOf (text : List Char) (quote : Char) (body : List Char)
    (pieces : List (List Char × List UInt8)) : Prop where
  quoted : text = quote :: body ++ [quote]
  ends : ∀ rest, scan quote (body ++ quote :: rest) = some (body, rest)
  apart : TakesApart quote body pieces

/-- A literal is read as the bytes of its pieces. -/
theorem ConsistsOf.readString {text body : List Char} {quote : Char}
    {pieces : List (List Char × List UInt8)} (h : ConsistsOf text quote body pieces)
    (hquote : quote = '"' ∨ quote = '\'') (rest : List Char) :
    readString (text ++ rest) = some (pieces.flatMap Prod.snd, rest) := by
  have hends := h.ends rest
  have hapart := h.apart
  rw [h.quoted, List.append_assoc, List.cons_append, List.singleton_append]
  rcases hquote with rfl | rfl
  · rw [Php.readString, hends]
    dsimp only [Option.bind_some]
    rw [hapart.decodeDouble]
    rfl
  · rw [Php.readString, hends]
    dsimp only [Option.map_some]
    rw [hapart.decodeSingle]

/-- The piece that a character is written as. -/
def pieceOf (special : Char → Bool) (c : Char) : List Char × List UInt8 :=
  (if special c then ['\\', c] else [c], utf8 [c])

theorem flatMap_pieceOf (special : Char → Bool) (s : List Char) :
    (s.map (pieceOf special)).flatMap Prod.snd = utf8 s := by
  induction s with
  | nil => rfl
  | cons c s ih => simp [pieceOf, ih]

/-- An escaped text has a piece for each character, if backslashes are escaped and a backslash with
an escaped character stands for that character. -/
theorem takesApart_escape {quote : Char} {special : Char → Bool} (hbackslash : special '\\' = true)
    (hspecial : ∀ c rest, special c = true →
      nextPiece quote ('\\' :: c :: rest) = some (utf8 [c], rest)) (s : List Char) :
    TakesApart quote (Literal.escape special s) (s.map (pieceOf special)) := by
  induction s with
  | nil => exact .nil
  | cons c s ih =>
      rw [List.map_cons, pieceOf]
      cases hc : special c with
      | true =>
          rw [Literal.escape_cons_of_special hc]
          exact @TakesApart.cons quote ['\\', c] _ _ _ (hspecial c _ hc) ih
      | false =>
          rw [Literal.escape_cons_of_plain hc]
          exact @TakesApart.cons quote [c] _ _ _ (nextPiece_of_ne (ne_of_plain hc hbackslash) _) ih

/-- The characters that are escaped between quotes of a kind. -/
def isSpecial (quote c : Char) : Bool :=
  c == quote || c == '\\' || (quote == '"' && c == '$')

theorem singleQuoted_consistsOf (s : List Char) :
    ConsistsOf (Literal.singleQuoted s) '\'' (Literal.escape (isSpecial '\'') s)
      (s.map (pieceOf (isSpecial '\''))) where
  quoted := by
    have hclass : isSpecial '\'' = fun c => c == '\'' || c == '\\' := by
      funext c
      simp [isSpecial]
    rw [hclass, Literal.singleQuoted]
  ends := scan_escape rfl rfl (by decide) (by decide) s
  apart := takesApart_escape rfl (fun c rest hc => by
    have hcases : c = '\'' ∨ c = '\\' := by simpa [isSpecial] using hc
    rcases hcases with rfl | rfl <;> rfl) s

theorem doubleQuoted_consistsOf (s : List Char) :
    ConsistsOf (Literal.doubleQuoted s) '"' (Literal.escape (isSpecial '"') s)
      (s.map (pieceOf (isSpecial '"'))) where
  quoted := by
    have hclass : isSpecial '"' = fun c => c == '"' || c == '\\' || c == '$' := by
      funext c
      simp [isSpecial]
    rw [hclass, Literal.doubleQuoted]
  ends := scan_escape rfl rfl (by decide) (fun _ => rfl) s
  apart := takesApart_escape rfl (fun c rest hc => by
    have hcases : (c = '"' ∨ c = '\\') ∨ c = '$' := by simpa [isSpecial] using hc
    rcases hcases with (rfl | rfl) | rfl <;> rfl) s

end Php

namespace Literal

open Php

/-- The quotes that are put around a text. -/
def quoteFor (s : List Char) : Char :=
  if '"' ∈ s ∧ '\'' ∉ s then '"' else '\''

theorem quote_consistsOf (s : List Char) :
    ConsistsOf (quote s) (quoteFor s) (escape (isSpecial (quoteFor s)) s)
      (s.map (pieceOf (isSpecial (quoteFor s)))) := by
  unfold quote quoteFor
  split
  · exact doubleQuoted_consistsOf s
  · exact singleQuoted_consistsOf s

/-- A string that is marked as an expression becomes the expression, whatever is in it. Every other
string becomes one literal that ends where it ends, whatever follows, and is read as the string: its
pieces are the characters of the string, a backslash before those that need one. Double quotes are
around it if it holds some and no apostrophe. Making it in steps, the quotes around it being put
there and dropped first and one character being escaped after another, gives the same. -/
theorem ofString_faithful (s : String) :
    (ofString s).toList = ofStringInSteps s.toList ∧
    (∀ expression, IsMarked s.toList expression → ofString s = String.ofList expression) ∧
    ((∀ expression, ¬ IsMarked s.toList expression) →
      ∃ mark body, (mark = '"' ∨ mark = '\'') ∧
        (mark = '"' ↔ '"' ∈ s.toList ∧ '\'' ∉ s.toList) ∧
        ConsistsOf (ofString s).toList mark body (s.toList.map (pieceOf (isSpecial mark))) ∧
        ∀ rest, readString ((ofString s).toList ++ rest) = some (utf8 s.toList, rest)) := by
  refine ⟨toList_ofString s, fun expression hmarked => ?_, fun hplain => ?_⟩
  · rw [ofString, expression?_eq_some_iff.2 hmarked, Option.getD_some]
  · have hnone : expression? s.toList = none :=
      Option.eq_none_iff_forall_not_mem.2 fun expression h =>
        hplain expression (expression?_eq_some_iff.1 h)
    have htext : (ofString s).toList = quote s.toList := by
      rw [ofString, hnone, Option.getD_none, String.toList_ofList]
    have hmark : quoteFor s.toList = '"' ∨ quoteFor s.toList = '\'' := by
      unfold quoteFor
      split
      · exact .inl rfl
      · exact .inr rfl
    have hconsists := quote_consistsOf s.toList
    rw [← htext] at hconsists
    refine ⟨_, _, hmark, ?_, hconsists, fun rest => ?_⟩
    · unfold quoteFor
      split
      next hdouble => simpa using hdouble
      next hsingle => simpa using hsingle
    · rw [hconsists.readString hmark, flatMap_pieceOf]

/-- An expression with a brace in it, and a string that begins with a quote and a variable. -/
theorem ofString_faithful_variable :
    let marked := "%PHP\x7bf(\"\x7d\")\x7d"
    let plain := "\"$x\\"
    IsMarked marked.toList "f(\"\x7d\")".toList ∧ ofString marked = "f(\"\x7d\")" ∧
      (∀ expression, ¬ IsMarked plain.toList expression) ∧
      ∀ rest, readString ((ofString plain).toList ++ rest) = some (utf8 plain.toList, rest) := by
  intro marked plain
  have hmarked : IsMarked marked.toList "f(\"\x7d\")".toList := ⟨by decide, by decide⟩
  have hplain : ∀ expression, ¬ IsMarked plain.toList expression := by
    intro expression h
    have hnone : expression? plain.toList = none := by decide
    rw [expression?_eq_some_iff.2 h] at hnone
    cases hnone
  obtain ⟨-, -, -, -, -, hread⟩ := (ofString_faithful plain).2.2 hplain
  exact ⟨hmarked, (ofString_faithful marked).2.1 _ hmarked, hplain, hread⟩

end Literal

end PhpArray

import Mathlib.Data.List.TakeWhile
import PhpArray.Literal.String
import PhpArray.Text.Digit

/-!
String literals as PHP reads them. The end of a literal is found first: the next quote of its kind
that no backslash takes away. Then what stands between the quotes becomes bytes. Between single
quotes a backslash only takes a quote or a backslash behind it; between double quotes it begins
many escapes, and a dollar sign may put in a variable, which is refused here. A literal that is
written is read as its text, and reading ends at its last quote whatever follows.
-/

namespace PhpArray.Php

/-- The bytes of a text. -/
def utf8 (text : List Char) : List UInt8 :=
  text.flatMap String.utf8EncodeChar

@[simp] theorem utf8_nil : utf8 [] = [] := rfl

@[simp] theorem utf8_cons (c : Char) (rest : List Char) :
    utf8 (c :: rest) = String.utf8EncodeChar c ++ utf8 rest := rfl

/-- Names begin with a letter, an underscore or any character beyond ASCII. -/
def isNameStart (c : Char) : Bool :=
  c.isAlpha || c == '_' || 0x80 ≤ c.toNat

def isNamePart (c : Char) : Bool :=
  isNameStart c || c.isDigit

/-- A variable is put in here if the text is between double quotes. -/
def interpolates : List Char → Bool
  | '$' :: c :: _ => isNameStart c || c == '{'
  | '{' :: '$' :: _ => true
  | _ => false

/-- Splits a text at the quote that ends a literal. -/
def scan (quote : Char) : List Char → Option (List Char × List Char)
  | [] => none
  | '\\' :: c :: rest => (scan quote rest).map fun (body, rest) => ('\\' :: c :: body, rest)
  | c :: rest =>
    if c = quote then some ([], rest)
    else if quote = '"' ∧ interpolates (c :: rest) then none
    else (scan quote rest).map fun (body, rest) => (c :: body, rest)

def decodeSingle : List Char → List UInt8
  | [] => []
  | '\\' :: '\\' :: rest => String.utf8EncodeChar '\\' ++ decodeSingle rest
  | '\\' :: '\'' :: rest => String.utf8EncodeChar '\'' ++ decodeSingle rest
  | c :: rest => String.utf8EncodeChar c ++ decodeSingle rest

def digit? (base : Nat) (c : Char) : Option Nat :=
  (Text.latinDigit? c).filter (· < base)

/-- Takes digits from the front of a text, at most so many. -/
def takeDigits (base : Nat) : Nat → List Char → List Nat × List Char
  | 0, text => ([], text)
  | _ + 1, [] => ([], [])
  | more + 1, c :: rest =>
    match digit? base c with
    | none => ([], c :: rest)
    | some d =>
      let (digits, rest) := takeDigits base more rest
      (d :: digits, rest)

/-- The bytes of a code point, which may be a surrogate. -/
def codePoint (n : Nat) : List UInt8 :=
  if n < 0x80 then [n.toUInt8]
  else if n < 0x800 then [(0xC0 + n / 0x40).toUInt8, (0x80 + n % 0x40).toUInt8]
  else if n < 0x10000 then
    [(0xE0 + n / 0x1000).toUInt8, (0x80 + n / 0x40 % 0x40).toUInt8, (0x80 + n % 0x40).toUInt8]
  else
    [(0xF0 + n / 0x40000).toUInt8, (0x80 + n / 0x1000 % 0x40).toUInt8,
      (0x80 + n / 0x40 % 0x40).toUInt8, (0x80 + n % 0x40).toUInt8]

/-- The byte that digits stand for, or what is kept if there are none. -/
def byteOf (base : Nat) (kept : List UInt8) : List Nat × List Char → List UInt8 × List Char
  | ([], rest) => (kept, rest)
  | (digits, rest) => ([(Text.digitsValue base digits).toUInt8], rest)

/-- What a backslash between double quotes stands for together with what follows it, and the text
behind. A code point in braces must be there and in range; all else that is no escape stays. -/
def unescape : List Char → Option (List UInt8 × List Char)
  | 'n' :: rest => some ([0x0A], rest)
  | 't' :: rest => some ([0x09], rest)
  | 'r' :: rest => some ([0x0D], rest)
  | 'v' :: rest => some ([0x0B], rest)
  | 'e' :: rest => some ([0x1B], rest)
  | 'f' :: rest => some ([0x0C], rest)
  | '\\' :: rest => some (utf8 ['\\'], rest)
  | '$' :: rest => some (utf8 ['$'], rest)
  | '"' :: rest => some (utf8 ['"'], rest)
  | 'x' :: rest => some (byteOf 16 (utf8 ['\\', 'x']) (takeDigits 16 2 rest))
  | 'X' :: rest => some (byteOf 16 (utf8 ['\\', 'X']) (takeDigits 16 2 rest))
  | 'u' :: '{' :: rest =>
    match takeDigits 16 rest.length rest with
    | (digits, '}' :: rest) =>
      let n := Text.digitsValue 16 digits
      if digits ≠ [] ∧ n ≤ 0x10FFFF then some (codePoint n, rest) else none
    | _ => none
  | text => some (byteOf 8 (utf8 ['\\']) (takeDigits 8 3 text))

theorem length_takeDigits_le (base most : Nat) (text : List Char) :
    (takeDigits base most text).2.length ≤ text.length := by
  induction most generalizing text with
  | zero => exact le_rfl
  | succ more ih =>
      cases text with
      | nil => exact le_rfl
      | cons c rest =>
          unfold takeDigits
          split
          · exact le_rfl
          · exact (ih rest).trans (Nat.le_succ _)

theorem length_byteOf_le {base most : Nat} {kept bytes : List UInt8} {text rest : List Char}
    (h : byteOf base kept (takeDigits base most text) = (bytes, rest)) :
    rest.length ≤ text.length := by
  have hrest : (takeDigits base most text).2 = rest := by
    cases htaken : takeDigits base most text with
    | mk digits behind =>
        rw [htaken] at h
        cases digits <;> exact congrArg Prod.snd h
  rw [← hrest]
  exact length_takeDigits_le base most text

theorem length_unescape_le {text rest : List Char} {bytes : List UInt8}
    (h : unescape text = some (bytes, rest)) : rest.length ≤ text.length := by
  unfold unescape at h
  split at h
  case h_10 | h_11 =>
    exact (length_byteOf_le (Option.some.inj h)).trans (Nat.le_succ _)
  case h_12 behind =>
    have hle := length_takeDigits_le 16 behind.length behind
    split at h
    next digits after htaken =>
      rw [htaken] at hle
      simp only [Option.ite_none_right_eq_some, Option.some.injEq, Prod.mk.injEq] at h
      obtain ⟨-, -, rfl⟩ := h
      simp only [List.length_cons] at hle ⊢
      omega
    next => cases h
  case h_13 => exact length_byteOf_le (Option.some.inj h)
  all_goals
    cases h
    exact Nat.le_succ _

/-- The bytes of what stands between double quotes, unless it names no code point. -/
def decodeDouble : List Char → Option (List UInt8)
  | [] => some []
  | '\\' :: rest =>
    match h : unescape rest with
    | none => none
    | some (bytes, rest') =>
      have := length_unescape_le h
      (decodeDouble rest').map (bytes ++ ·)
  | c :: rest => (decodeDouble rest).map (String.utf8EncodeChar c ++ ·)
termination_by text => text.length

/-- Reads the literal that a text begins with, which leaves the text behind it. -/
def readString : List Char → Option (List UInt8 × List Char)
  | '\'' :: rest => (scan '\'' rest).map fun (body, rest) => (decodeSingle body, rest)
  | '"' :: rest => (scan '"' rest).bind fun (body, rest) =>
    (decodeDouble body).map fun bytes => (bytes, rest)
  | _ => none

theorem scan_backslash (quote c : Char) (rest : List Char) :
    scan quote ('\\' :: c :: rest) =
      (scan quote rest).map fun (body, rest) => ('\\' :: c :: body, rest) := by
  rw [scan]

/-- A character that is neither a backslash nor the quote belongs to the literal. -/
theorem scan_plain {quote c : Char} {rest : List Char} (hbackslash : c ≠ '\\') (hquote : c ≠ quote)
    (hplain : quote = '"' → interpolates (c :: rest) = false) :
    scan quote (c :: rest) = (scan quote rest).map fun (body, rest) => (c :: body, rest) := by
  have hnone : ¬ (quote = '"' ∧ interpolates (c :: rest) = true) := by
    rintro ⟨hdouble, hinterpolates⟩
    rw [hplain hdouble] at hinterpolates
    cases hinterpolates
  rw [scan]
  · rw [if_neg hquote, if_neg hnone]
  · intro c' rest' h
    exact absurd h hbackslash

theorem interpolates_eq_false {c : Char} {rest : List Char} (hc : c ≠ '$')
    (hrest : rest.head? ≠ some '$') : interpolates (c :: rest) = false := by
  unfold interpolates
  split
  next h =>
    cases h
    exact absurd rfl hc
  next h =>
    cases h
    exact absurd rfl hrest
  next => rfl

theorem ne_of_plain {special : Char → Bool} {c d : Char} (hc : special c = false)
    (hd : special d = true) : c ≠ d := by
  rintro rfl
  rw [hd] at hc
  cases hc

theorem head?_escape_ne_dollar {special : Char → Bool} (hdollar : special '$' = true)
    (s : List Char) {quote : Char} (hquote : quote ≠ '$') (rest : List Char) :
    (Literal.escape special s ++ quote :: rest).head? ≠ some '$' := by
  cases s with
  | nil => simpa using hquote
  | cons c s =>
      cases hc : special c with
      | true => simp [Literal.escape_cons_of_special hc]
      | false => simpa [Literal.escape_cons_of_plain hc] using ne_of_plain hc hdollar

/-- Reading ends at the quote behind an escaped text, if quotes and backslashes are escaped, and
dollar signs between double quotes. -/
theorem scan_escape {quote : Char} {special : Char → Bool} (hbackslash : special '\\' = true)
    (hquote : special quote = true) (hne : quote ≠ '\\')
    (hdouble : quote = '"' → special '$' = true) (s rest : List Char) :
    scan quote (Literal.escape special s ++ quote :: rest) =
      some (Literal.escape special s, rest) := by
  induction s with
  | nil =>
      rw [Literal.escape_nil, List.nil_append, scan, if_pos rfl]
      exact fun _ _ h => absurd h hne
  | cons c s ih =>
      cases hc : special c with
      | true =>
          rw [Literal.escape_cons_of_special hc, List.cons_append, List.cons_append,
            scan_backslash, ih]
          rfl
      | false =>
          rw [Literal.escape_cons_of_plain hc, List.cons_append,
            scan_plain (ne_of_plain hc hbackslash) (ne_of_plain hc hquote), ih]
          · rfl
          · rintro rfl
            have hdollar := hdouble rfl
            exact interpolates_eq_false (ne_of_plain hc hdollar)
              (head?_escape_ne_dollar hdollar s (by decide) rest)

theorem decodeSingle_escape (s : List Char) :
    decodeSingle (Literal.escape (fun c => c == '\'' || c == '\\') s) = utf8 s := by
  induction s with
  | nil => rfl
  | cons c s ih =>
      cases hc : c == '\'' || c == '\\' with
      | true =>
          rw [Literal.escape_cons_of_special hc, utf8_cons, ← ih]
          rcases Bool.or_eq_true_iff.1 hc with hquote | hbackslash
          · rw [eq_of_beq hquote, decodeSingle]
          · rw [eq_of_beq hbackslash, decodeSingle]
      | false =>
          have hne : c ≠ '\\' := by
            rintro rfl
            simp at hc
          rw [Literal.escape_cons_of_plain hc, utf8_cons, ← ih, decodeSingle]
          · exact fun _ h => absurd h hne
          · exact fun _ h => absurd h hne

theorem decodeDouble_backslash {text rest : List Char} {bytes : List UInt8}
    (h : unescape text = some (bytes, rest)) :
    decodeDouble ('\\' :: text) = (decodeDouble rest).map (bytes ++ ·) := by
  rw [decodeDouble]
  split
  next hnone =>
    rw [h] at hnone
    cases hnone
  next hsome =>
    rw [h] at hsome
    cases hsome
    rfl

theorem decodeDouble_escape (s : List Char) :
    decodeDouble (Literal.escape (fun c => c == '"' || c == '\\' || c == '$') s) =
      some (utf8 s) := by
  induction s with
  | nil => rw [Literal.escape_nil, decodeDouble, utf8_nil]
  | cons c s ih =>
      cases hc : c == '"' || c == '\\' || c == '$' with
      | true =>
          have hunescape (rest : List Char) : unescape (c :: rest) = some (utf8 [c], rest) := by
            simp only [Bool.or_eq_true, beq_iff_eq] at hc
            rcases hc with (rfl | rfl) | rfl <;> rfl
          rw [Literal.escape_cons_of_special hc, decodeDouble_backslash (hunescape _), ih]
          simp
      | false =>
          have hne : c ≠ '\\' := by
            rintro rfl
            simp at hc
          rw [Literal.escape_cons_of_plain hc, decodeDouble, ih]
          · rfl
          · exact fun h => absurd h hne

/-- A text in quotes is read as its bytes, whatever follows. -/
theorem readString_quote (s rest : List Char) :
    readString (Literal.quote s ++ rest) = some (utf8 s, rest) := by
  unfold Literal.quote
  split
  · rw [Literal.doubleQuoted, List.append_assoc, List.cons_append, List.singleton_append,
      readString, scan_escape rfl rfl (by decide) fun _ => rfl]
    dsimp only [Option.bind_some]
    rw [decodeDouble_escape]
    rfl
  · rw [Literal.singleQuoted, List.append_assoc, List.cons_append, List.singleton_append,
      readString, scan_escape rfl rfl (by decide) (by decide)]
    dsimp only [Option.map_some]
    rw [decodeSingle_escape]

end PhpArray.Php

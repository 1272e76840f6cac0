import PhpArray.Proofs.Reader.Atoms

/-!
Array literals as PHP reads them. An array is a word, a parenthesis and entries with commas between
them; an entry is a value, or a key, an arrow and a value. Blanks may stand everywhere but inside of
a name, a number or a string. Reading stops behind the literal and leaves the rest.
-/

namespace PhpArray.Php

inductive Value where
  | atom (atom : Atom)
  | array (entries : List (Option Atom × Value))

/-- The name before the parenthesis, in letters of any case. -/
def isArrayName (name : List Char) : Bool :=
  name.map Char.toLower == "array".toList

mutual

/-- Reads a value. Each level of nesting takes some fuel, of which a text needs no more than it has
characters. -/
def readValue : Nat → List Char → Option (Value × List Char)
  | 0, _ => none
  | fuel + 1, text =>
    let text := skipBlanks text
    if isArrayName (readName text).1 then
      match skipBlanks (readName text).2 with
      | '(' :: rest => (readEntries fuel rest).map fun (entries, rest) => (.array entries, rest)
      | _ => none
    else (readAtom text).map fun (atom, rest) => (.atom atom, rest)

/-- Reads entries up to the parenthesis that closes them. A comma may stand before it. -/
def readEntries : Nat → List Char → Option (List (Option Atom × Value) × List Char)
  | 0, _ => none
  | fuel + 1, text =>
    match skipBlanks text with
    | ')' :: rest => some ([], rest)
    | text => do
      let (entry, rest) ← readEntry fuel text
      match skipBlanks rest with
      | ')' :: rest => return ([entry], rest)
      | ',' :: rest =>
        let (entries, rest) ← readEntries fuel rest
        return (entry :: entries, rest)
      | _ => none

def readEntry : Nat → List Char → Option ((Option Atom × Value) × List Char)
  | 0, _ => none
  | fuel + 1, text => do
    let (first, rest) ← readValue fuel text
    match skipBlanks rest, first with
    | '=' :: '>' :: rest, .atom key =>
      (readValue fuel rest).map fun (value, rest) => ((some key, value), rest)
    | '=' :: '>' :: _, .array _ => none
    | _, first => some ((none, first), rest)

end

/-- Reads the value that a text begins with. -/
def read (text : List Char) : Option (Value × List Char) :=
  readValue (text.length + 1) text

/-! ### Blanks and what stands behind them -/

theorem isBlank_cases {c : Char} (h : isBlank c = true) :
    c = ' ' ∨ c = '\t' ∨ c = '\n' ∨ c = '\r' := by
  simpa [isBlank, or_assoc] using h

theorem skipBlanks_append {blanks : List Char} (hblanks : ∀ c ∈ blanks, isBlank c = true)
    (text : List Char) : skipBlanks (blanks ++ text) = skipBlanks text :=
  List.dropWhile_append_of_pos hblanks

/-- A text that begins with neither a blank nor the end of an array. -/
def Opens (text : List Char) : Prop :=
  ∃ c ∈ text.head?, isBlank c = false ∧ c ≠ ')'

theorem Opens.append {text : List Char} (h : Opens text) (rest : List Char) :
    Opens (text ++ rest) := by
  obtain ⟨c, hc, hopens⟩ := h
  refine ⟨c, ?_, hopens⟩
  rw [Option.mem_def] at hc ⊢
  rw [List.head?_append, hc, Option.some_or]

theorem skipBlanks_of_opens {text : List Char} (h : Opens text) : skipBlanks text = text := by
  obtain ⟨c, hc, hblank, -⟩ := h
  obtain ⟨rest, rfl⟩ := List.head?_eq_some_iff.1 hc
  simp [skipBlanks, hblank]

/-- An atom begins with no blank and no parenthesis. -/
theorem opens_of_readAtom {text : List Char} {result : Atom × List Char}
    (h : readAtom text = some result) : Opens text := by
  cases text with
  | nil => cases h
  | cons c rest =>
      have hnone (hname : isNameStart c = false) (hplain : c ∉ ['-', '+', '\'', '"'])
          (hnumber : c.isDigit = false ∧ c ≠ '.') : readAtom (c :: rest) = none := by
        rw [readAtom_of_head rfl hplain]
        simp [readUnsigned, hname, readNumeral, splitPoint, hnumber.1, hnumber.2]
      have hother : ∀ c ∈ [' ', '\t', '\n', '\r', ')'], isNameStart c = false ∧
          c ∉ ['-', '+', '\'', '"'] ∧ c.isDigit = false ∧ c ≠ '.' := by
        simp only [List.forall_mem_cons, List.not_mem_nil, false_implies, implies_true]
        decide
      have hmem : c ∉ [' ', '\t', '\n', '\r', ')'] := by
        intro hmem
        obtain ⟨hname, hplain, hnumber⟩ := hother c hmem
        rw [hnone hname hplain hnumber] at h
        cases h
      refine ⟨c, rfl, Bool.eq_false_iff.2 fun hblank => hmem ?_, fun hc => hmem (by simp [hc])⟩
      rcases isBlank_cases hblank with rfl | rfl | rfl | rfl <;> simp

/-- What ends a number or a name after some blanks ends it before them as well. -/
theorem ends_of_skipBlanks {rest behind : List Char} {c : Char} (h : skipBlanks rest = c :: behind)
    (hname : isNamePart c = false) (hpoint : c ≠ '.') : Ends rest := by
  cases rest with
  | nil => cases h
  | cons first rest =>
      cases hblank : isBlank first with
      | true =>
          rcases isBlank_cases hblank with rfl | rfl | rfl | rfl <;>
            exact ends_cons rfl (by decide) _
      | false =>
          rw [skipBlanks, List.dropWhile_cons_of_neg (by simp [hblank])] at h
          obtain rfl := (List.cons.inj h).1
          exact ends_cons hname hpoint rest

/-! ### The word for arrays -/

theorem constant?_of_isArrayName {name : List Char} (h : isArrayName name = true) :
    constant? name = none := by
  have hlower : name.map Char.toLower = "array".toList := eq_of_beq h
  have hinf : name ≠ "INF".toList := by
    rintro rfl
    cases h
  have hnan : name ≠ "NAN".toList := by
    rintro rfl
    cases h
  rw [constant?, hlower, if_neg hinf, if_neg hnan]
  rfl

theorem isAlpha_of_toLower {c : Char} (h : c.toLower = 'a') : c.isAlpha = true := by
  unfold Char.toLower at h
  split at h
  next hupper =>
    have hisUpper : c.isUpper = true := decide_eq_true hupper
    exact Bool.or_eq_true_iff.2 (.inl hisUpper)
  next =>
    rw [h]
    rfl

/-- The word for arrays is no constant. -/
theorem readAtom_of_isArrayName {text : List Char} (h : isArrayName (readName text).1 = true) :
    readAtom text = none := by
  have hconstant := constant?_of_isArrayName h
  cases text with
  | nil => rfl
  | cons c rest =>
      have hstart : isNameStart c = true := by
        have hlower : (readName (c :: rest)).1.map Char.toLower = "array".toList := eq_of_beq h
        cases hpart : isNamePart c with
        | false => simp [readName, hpart] at hlower
        | true =>
            rw [readName, List.takeWhile_cons_of_pos hpart, List.map_cons] at hlower
            have hc : c.toLower = 'a' := (List.cons.inj hlower).1
            simp [isNameStart, isAlpha_of_toLower hc]
      rw [readAtom_of_head rfl (plain_of_isNameStart hstart), readUnsigned,
        if_pos (by simpa using hstart)]
      dsimp only
      rw [hconstant]
      rfl

/-! ### Reading a value by its parts -/

section

variable {fuel : Nat} {text rest : List Char}

theorem readValue_of_readAtom (fuel : Nat) {atom : Atom}
    (h : readAtom (skipBlanks text) = some (atom, rest)) :
    readValue (fuel + 1) text = some (.atom atom, rest) := by
  have hname : ¬ isArrayName (readName (skipBlanks text)).1 = true := by
    intro hname
    rw [readAtom_of_isArrayName hname] at h
    cases h
  rw [readValue]
  dsimp only
  rw [if_neg hname, h]
  rfl

theorem readValue_array {behind : List Char} {entries : List (Option Atom × Value)}
    (htext : skipBlanks text = "array(".toList ++ behind)
    (h : readEntries fuel behind = some (entries, rest)) :
    readValue (fuel + 1) text = some (.array entries, rest) := by
  have hname : readName ("array(".toList ++ behind) = ("array".toList, '(' :: behind) := by
    simp [readName, isNamePart, isNameStart]
  have hword : isArrayName "array".toList = true := rfl
  have hopen : skipBlanks ('(' :: behind) = '(' :: behind := rfl
  rw [readValue]
  simp only [htext, hname, if_pos hword, hopen, h]
  rfl

theorem readEntry_value {value : Value} {behind : List Char} {c : Char}
    (h : readValue fuel text = some (value, rest)) (hrest : skipBlanks rest = c :: behind)
    (hc : c ≠ '=') : readEntry (fuel + 1) text = some ((none, value), rest) := by
  rw [readEntry, h]
  simp only [Option.bind_eq_bind, Option.bind_some, hrest]
  split
  next heq => exact absurd (List.cons.inj heq).1 hc
  next heq => exact absurd (List.cons.inj heq).1 hc
  next => rfl

theorem readEntry_pair {key : Atom} {value : Value} {behind arrow : List Char}
    (hkey : readValue fuel text = some (.atom key, arrow))
    (harrow : skipBlanks arrow = '=' :: '>' :: behind)
    (hvalue : readValue fuel behind = some (value, rest)) :
    readEntry (fuel + 1) text = some ((some key, value), rest) := by
  rw [readEntry, hkey]
  simp only [Option.bind_eq_bind, Option.bind_some, harrow, hvalue]
  rfl

theorem readEntries_nil (h : skipBlanks text = ')' :: rest) :
    readEntries (fuel + 1) text = some ([], rest) := by
  rw [readEntries, h]
  rfl

variable {entry : Option Atom × Value} {first behind : List Char}

theorem readEntries_of_opens (htext : skipBlanks text = first) (hopens : Opens first) :
    readEntries (fuel + 1) text = (readEntry fuel first).bind fun (entry, rest) =>
      match skipBlanks rest with
      | ')' :: rest => some ([entry], rest)
      | ',' :: rest => (readEntries fuel rest).bind fun (entries, rest) =>
          some (entry :: entries, rest)
      | _ => none := by
  subst htext
  obtain ⟨c, hc, -, hclose⟩ := hopens
  rw [readEntries]
  split
  next heq =>
    rw [heq] at hc
    exact absurd (Option.some.inj hc).symm hclose
  next => rfl

theorem readEntries_last (htext : skipBlanks text = first) (hopens : Opens first)
    (hentry : readEntry fuel first = some (entry, behind))
    (hbehind : skipBlanks behind = ')' :: rest) :
    readEntries (fuel + 1) text = some ([entry], rest) := by
  rw [readEntries_of_opens htext hopens, hentry, Option.bind_some]
  simp only [hbehind]

theorem readEntries_cons {next : List Char} {entries : List (Option Atom × Value)}
    (htext : skipBlanks text = first) (hopens : Opens first)
    (hentry : readEntry fuel first = some (entry, behind))
    (hbehind : skipBlanks behind = ',' :: next)
    (hnext : readEntries fuel next = some (entries, rest)) :
    readEntries (fuel + 1) text = some (entry :: entries, rest) := by
  rw [readEntries_of_opens htext hopens, hentry, Option.bind_some]
  simp only [hbehind, hnext, Option.bind_some]

end

end PhpArray.Php

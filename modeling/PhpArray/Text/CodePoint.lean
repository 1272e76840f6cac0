/-!
Texts with surrogates. An escape may give a surrogate, which is a code point but no character. So a
text of code points is written in characters: a surrogate as a mark and a private character behind
it, the mark itself as two marks, and all else as it is. The mark is not allowed in a document, so
only an escape brings it into a text.
-/

namespace PhpArray.Text

/-- The last code point. -/
def maxCodePoint : Nat := 0x10FFFF

def isSurrogate (n : Nat) : Bool :=
  0xD800 ≤ n && n ≤ 0xDFFF

/-- The number that a byte is added to if a surrogate stands for it. -/
def byteEscapes : Nat := 0xDC00

/-- The surrogates that stand for a byte of a path which is no character in UTF-8. -/
def isByteEscape (n : Nat) : Bool :=
  0xDC80 ≤ n && n ≤ 0xDCFF

/-- Begins a code point that is written as two characters. -/
def pairMark : Char := '\uffff'

/-- How far behind a surrogate the private character is that stands for it. -/
def standInOffset : Nat := 0x800

/-- A code point in characters. -/
def ofCodePoint (n : Nat) : List Char :=
  if isSurrogate n then [pairMark, Char.ofNat (n + standInOffset)]
  else if n = pairMark.toNat then [pairMark, pairMark]
  else [Char.ofNat n]

/-- The code point of two characters that stand for one. -/
def pairedPoint? (c next : Char) : Option Nat :=
  if c ≠ pairMark then none
  else if next = pairMark then some pairMark.toNat
  else if isSurrogate (next.toNat - standInOffset) then some (next.toNat - standInOffset)
  else none

/-- The code points of a text. -/
def codePoints : List Char → List Nat
  | [] => []
  | [c] => [c.toNat]
  | c :: next :: rest =>
    match pairedPoint? c next with
    | some n => n :: codePoints rest
    | none => c.toNat :: codePoints (next :: rest)

/-- No character is a surrogate. -/
theorem isSurrogate_toNat (c : Char) : isSurrogate c.toNat = false := by
  have hvalid : c.toNat < 0xD800 ∨ 0xDFFF < c.toNat := c.valid.imp_right And.left
  simp only [isSurrogate, Bool.and_eq_false_iff, decide_eq_false_iff_not]
  omega

theorem codePoints_cons_of_ne {c : Char} (h : c ≠ pairMark) (rest : List Char) :
    codePoints (c :: rest) = c.toNat :: codePoints rest := by
  cases rest with
  | nil => rfl
  | cons next rest => simp [codePoints, pairedPoint?, h]

/-- A text without the mark has the code points of its characters. -/
theorem codePoints_of_not_mem {s : List Char} (h : pairMark ∉ s) :
    codePoints s = s.map Char.toNat := by
  induction s with
  | nil => rfl
  | cons c rest ih =>
      rw [List.mem_cons, not_or] at h
      rw [codePoints_cons_of_ne (Ne.symm h.1), ih h.2, List.map_cons]

private theorem toNat_ofNat {n : Nat} (h : n.isValidChar) : (Char.ofNat n).toNat = n := by
  rw [Char.ofNat, dif_pos h]
  rfl

private theorem ofNat_ne_pairMark {n : Nat} (h : n.isValidChar) (hne : n ≠ pairMark.toNat) :
    Char.ofNat n ≠ pairMark := by
  intro hsame
  rw [← hsame, toNat_ofNat h] at hne
  exact hne rfl

/-- The two characters of a surrogate are read as the surrogate. -/
theorem pairedPoint?_surrogate {n : Nat} (h : isSurrogate n = true) :
    pairedPoint? pairMark (Char.ofNat (n + standInOffset)) = some n := by
  have hrange : 0xD800 ≤ n ∧ n ≤ 0xDFFF := by simpa [isSurrogate] using h
  have hvalid : (n + standInOffset).isValidChar := by
    unfold Nat.isValidChar standInOffset
    omega
  have hne : n + standInOffset ≠ pairMark.toNat := by
    show n + 0x800 ≠ 0xFFFF
    omega
  simp [pairedPoint?, ofNat_ne_pairMark hvalid hne, toNat_ofNat hvalid, h]

theorem codePoints_ofCodePoint_append {n : Nat} (h : n ≤ maxCodePoint) (rest : List Char) :
    codePoints (ofCodePoint n ++ rest) = n :: codePoints rest := by
  unfold ofCodePoint
  split
  next hsurrogate => simp [codePoints, pairedPoint?_surrogate hsurrogate]
  next hplain =>
    have hvalid : n.isValidChar := by
      have hrange : 0xD800 ≤ n → 0xDFFF < n := by simpa [isSurrogate] using hplain
      unfold maxCodePoint at h
      unfold Nat.isValidChar
      omega
    split
    next hsame => simp [hsame, codePoints, pairedPoint?]
    next hother =>
      rw [List.singleton_append, codePoints_cons_of_ne (ofNat_ne_pairMark hvalid hother),
        toNat_ofNat hvalid]

/-- Code points that are written in characters are read back. -/
theorem codePoints_flatMap {ns : List Nat} (h : ∀ n ∈ ns, n ≤ maxCodePoint) :
    codePoints (ns.flatMap ofCodePoint) = ns := by
  induction ns with
  | nil => rfl
  | cons n rest ih =>
      have hn := h n List.mem_cons_self
      have hrest : ∀ n ∈ rest, n ≤ maxCodePoint := fun n hmem => h n (List.mem_cons_of_mem _ hmem)
      rw [List.flatMap_cons, codePoints_ofCodePoint_append hn, ih hrest]

end PhpArray.Text

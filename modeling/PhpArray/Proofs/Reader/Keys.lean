import PhpArray.Proofs.Reader.Atoms

/-!
Keys of PHP arrays. A key is an integer of 64 bits or a string, and every value that is used as a
key becomes one of these: a string that is the decimal text of an integer becomes the integer, a
truth value one or zero, null the empty string, and a number that is no integer of 64 bits loses its
fraction. An entry with a key that is there already takes the place of the one before. The main
statements are that nothing is lost from an array if and only if its keys are pairwise different,
and that different strings, truth values and integers of 64 bits are different keys among their own.
-/

namespace PhpArray

/-- The whole part of a finite number. -/
def Binary64.wholePart (negative : Bool) (mantissa : Nat) (exponent : Int) : Int :=
  Numeral.signed negative (mantissa * posPow 2 exponent / posPow 2 (-exponent))

namespace Php

inductive Key where
  | int (n : Int)
  | string (bytes : List UInt8)
deriving DecidableEq, Repr

/-- The integers of 64 bits. -/
def IsInt64 (n : Int) : Prop :=
  -0x8000000000000000 ≤ n ∧ n < 0x8000000000000000

instance (n : Int) : Decidable (IsInt64 n) :=
  inferInstanceAs (Decidable (_ ∧ _))

/-- The text of an integer, with a minus if it is negative and no zeros in front. -/
def decimal (n : Int) : List Char :=
  if n < 0 then '-' :: Nat.toDigits 10 n.natAbs else Nat.toDigits 10 n.natAbs

/-- The integer of 64 bits whose decimal text some bytes are. -/
def int64? (bytes : List UInt8) : Option Int :=
  let (negative, digits) := Numeral.splitSign (bytes.map fun b => Char.ofNat b.toNat)
  let n := Numeral.signed negative (Nat.ofDigitChars 10 digits 0)
  if bytes = utf8 (decimal n) ∧ IsInt64 n then some n else none

namespace Key

/-- The key that a double becomes. What an integer becomes that has more than 64 bits is left open,
since it depends on the version. -/
def ofDouble (wrap : Int → Int) : Binary64 → Key
  | .finite negative mantissa exponent =>
    let n := Binary64.wholePart negative mantissa exponent
    .int (if IsInt64 n then n else wrap n)
  | _ => .int 0

/-- The key that a value becomes. An integer literal of more than 64 bits is a double. -/
def ofAtom (wrap : Int → Int) : Atom → Key
  | .null => .string []
  | .bool b => .int (if b then 1 else 0)
  | .int n => if IsInt64 n then .int n else ofDouble wrap (.ofQuotient (n < 0) n.natAbs 1)
  | .float x => ofDouble wrap x
  | .string bytes => (int64? bytes).elim (.string bytes) .int

end Key

/-! ### Decimal texts -/

theorem utf8_injective {text text' : List Char} (h : utf8 text = utf8 text') : text = text' := by
  have hbytes : (String.ofList text).toByteArray = (String.ofList text').toByteArray := by
    show text.utf8Encode = text'.utf8Encode
    unfold List.utf8Encode
    exact congrArg List.toByteArray h
  exact String.ofList_injective (String.toByteArray_inj.1 hbytes)

/-- Text in ASCII is its own bytes. -/
theorem map_ofNat_utf8 {text : List Char} (h : ∀ c ∈ text, c.toNat < 128) :
    (utf8 text).map (fun b => Char.ofNat b.toNat) = text := by
  induction text with
  | nil => rfl
  | cons c rest ih =>
      obtain ⟨hc, hrest⟩ := List.forall_mem_cons.1 h
      have hval : c.val.toNat < 128 := hc
      have hsize : c.val ≤ 127 := by
        rw [UInt32.le_iff_toNat_le]
        exact Nat.le_of_lt_succ hval
      have hbyte : c.val.toUInt8.toNat = c.toNat := by
        rw [UInt32.toNat_toUInt8]
        exact Nat.mod_eq_of_lt (hval.trans (by decide))
      rw [utf8_cons, String.utf8EncodeChar_eq_singleton (Char.utf8Size_eq_one_iff.2 hsize),
        List.singleton_append, List.map_cons, ih hrest, hbyte, Char.ofNat_toNat]

theorem lt_of_mem_decimal {n : Int} : ∀ c ∈ decimal n, c.toNat < 128 := by
  have hdigit : ∀ c ∈ Nat.toDigits 10 n.natAbs, c.toNat < 128 := by
    intro c hc
    have hrange : 48 ≤ c.toNat ∧ c.toNat ≤ 57 := by
      simpa [Char.isDigit, UInt32.le_iff_toNat_le] using isDigit_of_mem_toDigits c hc
    omega
  unfold decimal
  split
  · exact List.forall_mem_cons.2 ⟨by decide, hdigit⟩
  · exact hdigit

/-- Digits are not split. -/
theorem splitSign_toDigits (n : Nat) :
    Numeral.splitSign (Nat.toDigits 10 n) = (false, Nat.toDigits 10 n) := by
  unfold Numeral.splitSign
  split
  next rest htext =>
    have hdigit := isDigit_of_mem_toDigits '-' (by rw [htext]; exact List.mem_cons_self)
    cases hdigit
  next rest htext =>
    have hdigit := isDigit_of_mem_toDigits '+' (by rw [htext]; exact List.mem_cons_self)
    cases hdigit
  next => rfl

/-- Some bytes are an integer if they are its decimal text. -/
theorem int64?_eq_some_iff {bytes : List UInt8} {n : Int} :
    int64? bytes = some n ↔ bytes = utf8 (decimal n) ∧ IsInt64 n := by
  constructor
  · intro h
    unfold int64? at h
    dsimp only at h
    split at h
    next hdecimal =>
      obtain rfl := Option.some.inj h
      exact hdecimal
    next => cases h
  · rintro ⟨rfl, hn⟩
    have hread : (Numeral.splitSign (decimal n)).1 = decide (n < 0) ∧
        (Numeral.splitSign (decimal n)).2 = Nat.toDigits 10 n.natAbs := by
      unfold decimal
      split
      next hneg => simp [Numeral.splitSign, hneg]
      next hpos => simp [splitSign_toDigits, hpos]
    have hsigned : Numeral.signed (decide (n < 0))
        (Nat.ofDigitChars 10 (Nat.toDigits 10 n.natAbs) 0) = n := by
      rw [Nat.ofDigitChars_ten_toDigits, Numeral.signed]
      split
      next hneg =>
        rw [decide_eq_true_eq] at hneg
        omega
      next hpos =>
        rw [decide_eq_true_eq] at hpos
        omega
    unfold int64?
    rw [map_ofNat_utf8 lt_of_mem_decimal]
    dsimp only
    rw [hread.1, hread.2, hsigned, if_pos ⟨rfl, hn⟩]

/-! ### Values that are different keys -/

/-- Two values of one kind, of which any two that differ are different keys. -/
inductive SameKind : Atom → Atom → Prop
  | bool (b c : Bool) : SameKind (.bool b) (.bool c)
  | int {m n : Int} : IsInt64 m → IsInt64 n → SameKind (.int m) (.int n)
  | string (s t : List UInt8) : SameKind (.string s) (.string t)

theorem ofAtom_string_eq_int_iff {wrap : Int → Int} {bytes : List UInt8} {n : Int} :
    Key.ofAtom wrap (.string bytes) = .int n ↔ bytes = utf8 (decimal n) ∧ IsInt64 n := by
  rw [← int64?_eq_some_iff, Key.ofAtom]
  cases int64? bytes <;> simp

theorem ofAtom_string_eq_string {wrap : Int → Int} {bytes other : List UInt8}
    (h : Key.ofAtom wrap (.string bytes) = .string other) : bytes = other := by
  rw [Key.ofAtom] at h
  cases hint : int64? bytes with
  | none => simpa [hint] using h
  | some n => simp [hint] at h

/-- Strings, truth values and integers of 64 bits are different keys if they differ. -/
theorem SameKind.eq_of_ofAtom {wrap : Int → Int} {a b : Atom} (h : SameKind a b)
    (hkey : Key.ofAtom wrap a = Key.ofAtom wrap b) : a = b := by
  cases h with
  | bool b c => cases b <;> cases c <;> simp_all [Key.ofAtom]
  | int hm hn => simpa [Key.ofAtom, hm, hn] using hkey
  | string s t =>
      cases htext : Key.ofAtom wrap (.string t) with
      | int n =>
          rw [htext] at hkey
          rw [(ofAtom_string_eq_int_iff.1 hkey).1, (ofAtom_string_eq_int_iff.1 htext).1]
      | string bytes =>
          rw [htext] at hkey
          rw [ofAtom_string_eq_string hkey, ofAtom_string_eq_string htext]

/-! ### Arrays -/

variable {V : Type}

/-- Puts an entry into an array: in place of the one with its key, or behind all others. -/
def setEntry (entries : List (Key × V)) (entry : Key × V) : List (Key × V) :=
  if entry.1 ∈ entries.map Prod.fst then
    entries.map fun old => if old.1 = entry.1 then entry else old
  else entries ++ [entry]

/-- The array that an array literal makes of its entries, in order. -/
def arrayOf (entries : List (Key × V)) : List (Key × V) :=
  entries.foldl setEntry []

theorem length_foldl_setEntry_le (entries made : List (Key × V)) :
    (entries.foldl setEntry made).length ≤ made.length + entries.length := by
  induction entries generalizing made with
  | nil => simp
  | cons entry rest ih =>
      have hset : (setEntry made entry).length ≤ made.length + 1 := by
        unfold setEntry
        split <;> simp
      have hrest := ih (setEntry made entry)
      simp only [List.foldl_cons, List.length_cons]
      omega

theorem foldl_setEntry_eq_iff {entries made : List (Key × V)}
    (hmade : (made.map Prod.fst).Nodup) :
    entries.foldl setEntry made = made ++ entries ↔
      ((made ++ entries).map Prod.fst).Nodup := by
  induction entries generalizing made with
  | nil => simpa using hmade
  | cons entry rest ih =>
      by_cases hmem : entry.1 ∈ made.map Prod.fst
      · -- An entry that is replaced is missing in the end.
        have hlength : (setEntry made entry).length = made.length := by
          rw [setEntry, if_pos hmem, List.length_map]
        have hle := length_foldl_setEntry_le rest (setEntry made entry)
        constructor
        · intro heq
          have hlengths := congrArg List.length heq
          simp only [List.foldl_cons, List.length_append, List.length_cons] at hlengths
          omega
        · intro hnodup
          rw [List.map_append, List.map_cons] at hnodup
          have hdiffer := (List.nodup_append.1 hnodup).2.2 entry.1 hmem entry.1 List.mem_cons_self
          exact absurd rfl hdiffer
      · have hset : setEntry made entry = made ++ [entry] := by rw [setEntry, if_neg hmem]
        have hnext : ((made ++ [entry]).map Prod.fst).Nodup := by
          rw [List.map_append, List.map_singleton, List.nodup_append]
          exact ⟨hmade, by simp, fun key hkey other hother hsame => hmem
            (List.mem_singleton.1 hother ▸ hsame ▸ hkey)⟩
        have happend : made ++ entry :: rest = made ++ [entry] ++ rest := List.append_cons ..
        rw [List.foldl_cons, hset, happend, ih hnext]

/-- An array has all entries of its literal in their order if and only if their keys are pairwise
different. -/
theorem arrayOf_eq_self_iff {entries : List (Key × V)} :
    arrayOf entries = entries ↔ (entries.map Prod.fst).Nodup := by
  have hnil : entries.foldl setEntry [] = [] ++ entries ↔
      (([] ++ entries).map Prod.fst).Nodup := foldl_setEntry_eq_iff .nil
  exact hnil

end Php

end PhpArray

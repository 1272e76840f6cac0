import PhpArray.Text.Quoted

/-!
Strict UTF-8. A text is decoded as a whole or not at all: overlong forms, surrogates and numbers
beyond the last code point are refused, and the fault says which bytes are bad and why. The bad
part is the longest beginning of a valid sequence, or one byte that begins none. In the other
direction only surrogates are refused.
-/

namespace PhpArray.Text.Utf8

inductive Defect
  | badStart
  | badContinuation
  | cutShort
deriving DecidableEq, Repr

structure Fault where
  defect : Defect
  position : Nat
  /-- The bad part, never empty. -/
  first : UInt8
  more : List UInt8
deriving DecidableEq, Repr

def Defect.message : Defect → String
  | .badStart => "invalid start byte"
  | .badContinuation => "invalid continuation byte"
  | .cutShort => "unexpected end of data"

def Fault.message (f : Fault) : String :=
  let bad :=
    if f.more.isEmpty then
      "byte 0x" ++ String.ofList (hexDigits 2 f.first.toNat) ++ " in position " ++
        toString f.position
    else
      "bytes in position " ++ toString f.position ++ "-" ++
        toString (f.position + f.more.length)
  "'utf-8' codec can't decode " ++ bad ++ ": " ++ f.defect.message

/-- The shape of a sequence, read off its first byte: how many bytes follow, the range of the
second one, and the bits that the first one brings. -/
structure Lead where
  follow : Nat
  low : Nat
  high : Nat
  bits : Nat

def lead? (b : UInt8) : Option Lead :=
  let n := b.toNat
  if n < 0x80 then some ⟨0, 0, 0, n⟩
  else if n < 0xC2 then none
  else if n < 0xE0 then some ⟨1, 0x80, 0xBF, n - 0xC0⟩
  else if n < 0xF0 then
    some ⟨2, if n = 0xE0 then 0xA0 else 0x80, if n = 0xED then 0x9F else 0xBF, n - 0xE0⟩
  else if n < 0xF5 then
    some ⟨3, if n = 0xF0 then 0x90 else 0x80, if n = 0xF4 then 0x8F else 0xBF, n - 0xF0⟩
  else none

/-- Takes the bytes that follow a first one, the next within its own range and the others within
the general one. The result is the number they complete, or the defect and the bytes that were
still good. -/
def follow (low high : Nat) : Nat → Nat → List UInt8 → Except (Defect × List UInt8) Nat
  | 0, bits, _ => .ok bits
  | _ + 1, _, [] => .error (.cutShort, [])
  | n + 1, bits, b :: rest =>
    if low ≤ b.toNat ∧ b.toNat ≤ high then
      match follow 0x80 0xBF n (bits * 64 + (b.toNat - 0x80)) rest with
      | .ok bits => .ok bits
      | .error (defect, good) => .error (defect, b :: good)
    else .error (.badContinuation, [])

/-- The number of the sequence that begins with a byte, and how many bytes of it follow. -/
def readPoint (b : UInt8) (rest : List UInt8) : Except (Defect × List UInt8) (Nat × Nat) :=
  match lead? b with
  | none => .error (.badStart, [])
  | some lead =>
    match follow lead.low lead.high lead.follow lead.bits rest with
    | .error (defect, good) => .error (defect, good)
    | .ok n => .ok (n, lead.follow)

/-- Decodes from a position on; `skip` bytes belong to a sequence already read. -/
def decodeFrom : Nat → Nat → List UInt8 → Except Fault (List Char)
  | _, _, [] => .ok []
  | position, skip + 1, _ :: rest => decodeFrom (position + 1) skip rest
  | position, 0, b :: rest =>
    match readPoint b rest with
    | .error (defect, good) => .error ⟨defect, position, b, good⟩
    | .ok (n, more) => (decodeFrom (position + 1) more rest).map (Char.ofNat n :: ·)

def decode (bytes : List UInt8) : Except Fault (List Char) :=
  decodeFrom 0 0 bytes

/-- Decodes bytes that need not be a text: a byte that is no part of a character is a surrogate.
The first number is that of the bytes that belong to a sequence already read. -/
def decodeBytes : Nat → List UInt8 → List Nat
  | _, [] => []
  | skip + 1, _ :: rest => decodeBytes skip rest
  | 0, b :: rest =>
    match readPoint b rest with
    | .error _ => (byteEscapes + b.toNat) :: decodeBytes 0 rest
    | .ok (n, more) => n :: decodeBytes more rest

/-- Surrogates in a row, for which there are no bytes. -/
structure Unencodable where
  first : Nat
  position : Nat
  /-- How many follow the first one. -/
  more : Nat
deriving DecidableEq, Repr

def Unencodable.message (u : Unencodable) : String :=
  let bad :=
    if u.more = 0 then
      "character '\\u" ++ String.ofList (hexDigits 4 u.first) ++ "' in position " ++
        toString u.position
    else
      "characters in position " ++ toString u.position ++ "-" ++ toString (u.position + u.more)
  "'utf-8' codec can't encode " ++ bad ++ ": surrogates not allowed"

/-- Looks for surrogates that are not spared, counting code points from a position. -/
def unencodable? (spared : Nat → Bool) : Nat → List Nat → Option Unencodable
  | _, [] => none
  | position, n :: rest =>
    if isSurrogate n && !spared n then some ⟨n, position, (rest.takeWhile isSurrogate).length⟩
    else unencodable? spared (position + 1) rest

/-- The bytes of code points, of which a surrogate may stand for a byte. -/
def encodeBytes (points : List Nat) : List UInt8 :=
  points.flatMap fun n =>
    if isByteEscape n then [UInt8.ofNat (n - byteEscapes)]
    else (String.singleton (Char.ofNat n)).toUTF8.toList

def encode (text : String) : Except Unencodable (List UInt8) :=
  let points := codePoints text.toList
  match unencodable? (fun _ => false) 0 points with
  | some fault => .error fault
  | none => .ok (String.ofList (points.map Char.ofNat)).toUTF8.toList

theorem unencodable?_eq_none_iff {spared : Nat → Bool} {position : Nat} {points : List Nat} :
    unencodable? spared position points = none ↔
      ∀ n ∈ points, isSurrogate n = true → spared n = true := by
  induction points generalizing position with
  | nil => simp [unencodable?]
  | cons n rest ih =>
      rw [unencodable?, List.forall_mem_cons]
      split
      next hbad => simp_all
      next hgood =>
        rw [ih]
        simp_all

/-- A text without the mark of surrogates is encoded character by character. -/
theorem encode_of_not_mem {text : String} (h : pairMark ∉ text.toList) :
    encode text = .ok text.toUTF8.toList := by
  have hpoints : codePoints text.toList = text.toList.map Char.toNat := codePoints_of_not_mem h
  have hfree : unencodable? (fun _ => false) 0 (text.toList.map Char.toNat) = none := by
    rw [unencodable?_eq_none_iff]
    intro n hn hsurrogate
    obtain ⟨c, -, rfl⟩ := List.mem_map.1 hn
    rwa [isSurrogate_toNat] at hsurrogate
  have hchars : (text.toList.map Char.toNat).map Char.ofNat = text.toList := by
    simp [Function.comp_def]
  simp only [encode, hpoints, hfree, hchars, String.ofList_toList]

end PhpArray.Text.Utf8

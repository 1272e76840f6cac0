import PhpArray.Yaml.Fault

/-!
A place in a text together with the text behind it, and reading from there. A reading either takes
characters and moves the cursor, or stops with a fault.
-/

namespace PhpArray.Yaml

structure Cursor where
  rest : List Char
  mark : Mark
deriving DecidableEq, Repr

namespace Cursor

def ofText (text : List Char) : Cursor :=
  ⟨text, ⟨0, 0, 0⟩⟩

/-- The cursor behind the next character. -/
def step (c : Cursor) : Cursor :=
  match c.rest with
  | [] => c
  | head :: tail => ⟨tail, c.mark.pass head (tail.headD endOfText)⟩

def advance (c : Cursor) : Nat → Cursor
  | 0 => c
  | n + 1 => c.step.advance n

@[simp] theorem rest_step (c : Cursor) : c.step.rest = c.rest.tail := by
  unfold step
  split <;> simp_all

/-- Advancing drops characters from the front and nothing else. -/
theorem rest_advance (c : Cursor) (n : Nat) : (c.advance n).rest = c.rest.drop n := by
  induction n generalizing c with
  | zero => rfl
  | succ n ih => rw [advance, ih, rest_step, List.drop_tail]

end Cursor

abbrev Scan := StateT Cursor (Except Fault)

namespace Scan

def here : Scan Mark :=
  return (← get).mark

/-- The character some places ahead. -/
def peekAt (n : Nat) : Scan Char :=
  return (← get).rest.getD n endOfText

def peek : Scan Char :=
  peekAt 0

def skip (n : Nat) : Scan Unit :=
  modify (·.advance n)

/-- Takes some characters. -/
def take (n : Nat) : Scan (List Char) := do
  let taken := (← get).rest.take n
  skip n
  return taken

/-- Takes characters as long as they are in a class. -/
def takeWhile (p : Char → Bool) : Scan (List Char) := do
  take ((← get).rest.takeWhile p).length

def skipWhile (p : Char → Bool) : Scan Unit := do
  let _ ← takeWhile p

/-- The most turns of a loop that takes a character in each turn but the last. -/
def turns : Scan Nat :=
  return (← get).rest.length + 1

/-- Repeats a turn on a value until it says that it is done. -/
def turn {σ : Type} (body : σ → Scan (ForInStep σ)) : Nat → σ → Scan σ
  | 0, s => return s
  | n + 1, s => do
    match ← body s with
    | .done s => return s
    | .yield s => turn body n s

def loop {σ : Type} (start : σ) (body : σ → Scan (ForInStep σ)) : Scan σ := do
  turn body (← turns) start

/-- Stops with a problem here, in the course of something that began at a mark. -/
def fail {α : Type} (context : Context) (start : Mark) (problem : Problem) : Scan α := do
  throw (.report ⟨some context, some start, problem, ← here⟩)

/-- Stops because the next character is not what was wanted. -/
def unexpected {α : Type} (context : Context) (start : Mark) (wanted : Wanted) : Scan α := do
  fail context start (.unexpected wanted (← peek))

/-- Insists on the class of the next character without taking it. -/
def expect (p : Char → Bool) (context : Context) (start : Mark) (wanted : Wanted) :
    Scan Unit := do
  unless p (← peek) do unexpected context start wanted

/-- Takes a line end if there is one. All but the two Unicode separators count as a line feed. -/
def lineBreak : Scan (List Char) := do
  match (← get).rest with
  | '\r' :: '\n' :: _ => skip 2; return ['\n']
  | c :: _ =>
    if c == '\n' || c == '\r' || c == '\u0085' then skip 1; return ['\n']
    else if isBreak c then skip 1; return [c]
    else return []
  | [] => return []

/-- Takes the spaces, the comment and the end of a line; other text is refused. -/
def restOfLine (context : Context) (start : Mark) : Scan Unit := do
  skipWhile (· == ' ')
  if (← peek) == '#' then skipWhile (!endsLine ·)
  expect endsLine context start .commentOrBreak
  let _ ← lineBreak

/-- Whether a line of three marks stands here, which separates documents anywhere. -/
def atSeparator : Scan Bool := do
  let rest := (← get).rest
  let marks := rest.take 3
  return (marks == "---".toList || marks == "...".toList) && isGap (rest.getD 3 endOfText)

end Scan

end PhpArray.Yaml

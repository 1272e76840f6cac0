/-!
Strings as PHP literals. A literal in single quotes escapes only the quote and the backslash; one in
double quotes also escapes the dollar sign, so that no variable is put in. A string that is marked
as a PHP expression is written as that expression.
-/

namespace PhpArray.Literal

/-- Writes a backslash before the characters of a class. -/
def escape (special : Char → Bool) (s : List Char) : List Char :=
  s.flatMap fun c => if special c then ['\\', c] else [c]

@[simp] theorem escape_nil (special : Char → Bool) : escape special [] = [] := rfl

theorem escape_cons_of_special {special : Char → Bool} {c : Char} (h : special c = true)
    (s : List Char) : escape special (c :: s) = '\\' :: c :: escape special s := by
  simp [escape, h]

theorem escape_cons_of_plain {special : Char → Bool} {c : Char} (h : special c = false)
    (s : List Char) : escape special (c :: s) = c :: escape special s := by
  simp [escape, h]

theorem escape_append (special : Char → Bool) (s t : List Char) :
    escape special (s ++ t) = escape special s ++ escape special t := by
  simp [escape]

def singleQuoted (s : List Char) : List Char :=
  '\'' :: escape (fun c => c == '\'' || c == '\\') s ++ ['\'']

def doubleQuoted (s : List Char) : List Char :=
  '"' :: escape (fun c => c == '"' || c == '\\' || c == '$') s ++ ['"']

/-- Drops one pair of equal quotes around a text. -/
def dropQuotes (s : List Char) : List Char :=
  match s with
  | first :: c :: rest =>
    if (first == '\'' || first == '"') && (c :: rest).getLast? == some first then
      (c :: rest).dropLast
    else s
  | _ => s

/-- Quotes put around a text are dropped again, whatever the text. -/
theorem dropQuotes_quoted (s : List Char) : dropQuotes ('"' :: s ++ ['"']) = s := by
  cases s with
  | nil => rfl
  | cons c rest =>
      have hlast : (c :: (rest ++ ['"'])).getLast? = some '"' := by
        rw [← List.cons_append, List.getLast?_append]
        simp
      have hinit : (c :: (rest ++ ['"'])).dropLast = c :: rest := by
        rw [← List.cons_append, List.dropLast_concat]
      simp [dropQuotes, hlast, hinit]

/-- The expression inside `%PHP{...}`, which must be on one line. -/
def expression? : List Char → Option (List Char)
  | '%' :: 'P' :: 'H' :: 'P' :: '{' :: rest =>
    if rest.getLast? = some '}' ∧ '\n' ∉ rest.dropLast then some rest.dropLast else none
  | _ => none

/-- Double quotes are used for a text that holds some, unless it holds an apostrophe as well. -/
def quote (s : List Char) : List Char :=
  if '"' ∈ s ∧ '\'' ∉ s then doubleQuoted s else singleQuoted s

/-- The literal of a string, or the expression it is marked as. -/
def ofString (s : String) : String :=
  String.ofList ((expression? s.toList).getD (quote s.toList))

end PhpArray.Literal

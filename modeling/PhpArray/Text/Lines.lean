/-!
Line ends. A line read from a file may end in a line feed, a carriage return or both; inside the
program it ends in a line feed.
-/

namespace PhpArray.Text

def unifyLineEnds : List Char → List Char
  | '\r' :: '\n' :: rest => '\n' :: unifyLineEnds rest
  | '\r' :: rest => '\n' :: unifyLineEnds rest
  | c :: rest => c :: unifyLineEnds rest
  | [] => []

theorem not_mem_unifyLineEnds (s : List Char) : '\r' ∉ unifyLineEnds s := by
  fun_induction unifyLineEnds s with
  | case1 rest ih => simpa using ih
  | case2 rest _ ih => simpa using ih
  | case3 c rest _ hc ih =>
      intro h
      rcases List.mem_cons.1 h with h | h
      · exact hc h.symm
      · exact ih h
  | case4 => simp

end PhpArray.Text

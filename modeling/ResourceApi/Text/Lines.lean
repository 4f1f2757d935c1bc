/-! # Line ends of text files

A text file may end its lines with a carriage return, a line feed or both. What
is read from it ends every line with a line feed. -/

namespace ResourceApi.Text

/-- Every carriage return, with the line feed after it if there is one, becomes a line feed. -/
def unifyLineEnds : List Char → List Char
  | [] => []
  | '\r' :: '\n' :: rest => '\n' :: unifyLineEnds rest
  | c :: rest => (if c == '\r' then '\n' else c) :: unifyLineEnds rest

theorem unifyLineEnds_eq_self {cs : List Char} (h : '\r' ∉ cs) : unifyLineEnds cs = cs := by
  fun_induction unifyLineEnds cs with
  | case1 => rfl
  | case2 => simp at h
  | case3 c rest _ ih =>
    have hc : ¬ c = '\r' := fun e => h (by simp [e])
    simp [hc, ih (fun m => h (List.mem_cons_of_mem _ m))]

/-- What was read holds no carriage return. -/
theorem not_mem_unifyLineEnds (cs : List Char) : '\r' ∉ unifyLineEnds cs := by
  fun_induction unifyLineEnds cs with
  | case1 => simp
  | case2 rest ih => simp [ih]
  | case3 c rest _ ih =>
    by_cases hc : c = '\r'
    · simp [hc, ih]
    · simp [hc, ih, Ne.symm hc]

end ResourceApi.Text

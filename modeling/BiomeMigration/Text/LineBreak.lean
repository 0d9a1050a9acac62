/-
  This file defines the reading of line breaks in text
  files: a carriage return, alone or before a line feed,
  is read as one line feed.

  Key definitions include:
    * `LineBreak.unify`
-/

namespace BiomeMigration

namespace LineBreak

/- All line breaks written as line feeds. -/
def unify : List Char → List Char
  | [] => []
  | '\r' :: '\n' :: rest => '\n' :: unify rest
  | c :: rest =>
      if c == '\r' then '\n' :: unify rest
      else c :: unify rest

/- A text without carriage returns is read as it stands. -/
theorem unify_eq_self
    {cs : List Char}
    (h : '\r' ∉ cs) :
    unify cs = cs := by
  fun_induction unify cs with
  | case1 => rfl
  | case2 rest ih => simp at h
  | case3 c rest _ hc ih =>
      simp only [beq_iff_eq] at hc
      subst hc
      simp at h
  | case4 c rest _ hc ih =>
      simp only [List.mem_cons, not_or] at h
      rw [ih h.2]

end LineBreak

end BiomeMigration

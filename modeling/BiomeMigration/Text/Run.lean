/-
  This file defines the run of a class of characters that a
  text starts with, and the text after it.

  Key definitions include:
    * `run`
-/

namespace BiomeMigration

/- The longest run of allowed characters, and the rest. -/
def run
    (allowed : Char → Bool)
    (cs : List Char) : List Char × List Char :=
  (cs.takeWhile allowed, cs.dropWhile allowed)

/- Nothing is lost. -/
@[simp] theorem run_append
    (allowed : Char → Bool)
    (cs : List Char) :
    (run allowed cs).1 ++ (run allowed cs).2 = cs :=
  List.takeWhile_append_dropWhile

/- The run holds allowed characters only. -/
theorem of_mem_run
    {allowed : Char → Bool}
    {cs : List Char}
    {c : Char}
    (h : c ∈ (run allowed cs).1) :
    allowed c = true := by
  induction cs with
  | nil => simp [run] at h
  | cons d cs ih =>
      simp only [run, List.takeWhile_cons] at h ih
      split at h
      · next hd =>
          rcases List.mem_cons.1 h with rfl | h
          · exact hd
          · exact ih h
      · simp at h

/- The rest starts with no allowed character. -/
theorem head_rest_of_run
    {allowed : Char → Bool}
    {cs rest : List Char}
    {c : Char}
    (h : (run allowed cs).2 = c :: rest) :
    allowed c = false := by
  induction cs with
  | nil => simp [run] at h
  | cons d cs ih =>
      simp only [run, List.dropWhile_cons] at h ih
      split at h
      · exact ih h
      · next hd =>
          simp only [List.cons.injEq] at h
          rw [← h.1]
          simpa using hd

/- Allowed characters in front become part of the run. -/
theorem run_append_of_forall
    {allowed : Char → Bool}
    {lead cs : List Char}
    (hLead : ∀ c ∈ lead, allowed c = true) :
    run allowed (lead ++ cs) =
      (lead ++ (run allowed cs).1, (run allowed cs).2) := by
  unfold run
  rw [List.takeWhile_append_of_pos hLead,
    List.dropWhile_append_of_pos hLead]

/- The run is empty before a character that is not allowed. -/
theorem run_eq_of_head
    {allowed : Char → Bool}
    {cs : List Char}
    (hHead : ∀ c ∈ cs.head?, allowed c = false) :
    run allowed cs = ([], cs) := by
  cases cs with
  | nil => rfl
  | cons c cs =>
      have hc : allowed c = false := hHead c (by simp)
      simp [run, hc]

/- A run ends where a text starts that does not go on with it. -/
theorem run_append_right
    {allowed : Char → Bool}
    {rest : List Char}
    (hRest : ∀ c ∈ rest.head?, allowed c = false)
    (cs : List Char) :
    run allowed (cs ++ rest) =
      ((run allowed cs).1, (run allowed cs).2 ++ rest) := by
  induction cs with
  | nil => exact run_eq_of_head hRest
  | cons c cs ih =>
      cases hc : allowed c with
      | false => simp [run, hc]
      | true =>
          unfold run at ih
          simp only [Prod.mk.injEq] at ih
          simp [run, hc, ih.1, ih.2]

/-
  A run is told by its characters and by the one that ends
  it.
-/
theorem run_eq_iff
    {allowed : Char → Bool}
    {cs lead rest : List Char} :
    run allowed cs = (lead, rest) ↔
      cs = lead ++ rest ∧
        (∀ c ∈ lead, allowed c = true) ∧
        (∀ c ∈ rest.head?, allowed c = false) := by
  constructor
  · intro hRun
    refine ⟨?_, ?_, ?_⟩
    · have hText := run_append allowed cs
      rw [hRun] at hText
      exact hText.symm
    · intro c hc
      have hMember : c ∈ (run allowed cs).1 := by
        rw [hRun]
        exact hc
      exact of_mem_run hMember
    · intro c hc
      rcases List.head?_eq_some_iff.mp hc with ⟨tail, rfl⟩
      exact head_rest_of_run (congrArg Prod.snd hRun)
  · rintro ⟨rfl, hLead, hHead⟩
    rw [run_append_of_forall hLead, run_eq_of_head hHead,
      List.append_nil]

end BiomeMigration

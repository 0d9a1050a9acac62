import BiomeMigration.Directive.Pattern
import BiomeMigration.Proofs.Directive.Scan

/-
  The rules need no backtracking. Read as patterns with
  greedy repetition, they match at each place what the
  forward scan reads there, so deleting every match deletes
  the pieces of the scan.

  Main declarations:
    * `Directive.Cursor.past`
    * `Directive.Pattern.TakesOne`
    * `Directive.Pattern.ends_both_many`
    * `Directive.Form.EndsAs`
    * `Directive.Form.head?_ends_pattern`
    * `Directive.Form.deletes_pieces`
-/

------------------------------------------------------------
-- Places behind a Text
------------------------------------------------------------

namespace BiomeMigration

namespace Directive

/- The place behind some characters of a text. -/
def Cursor.past
    (before : Option Char)
    (taken rest : List Char) : Cursor :=
  ⟨taken.getLast?.or before, rest⟩

namespace Cursor

variable {before : Option Char} {taken more rest : List Char}

@[simp] theorem past_nil
    (before : Option Char)
    (rest : List Char) :
    past before [] rest = ⟨before, rest⟩ :=
  rfl

@[simp] theorem past_cons
    (before : Option Char)
    (c : Char)
    (taken rest : List Char) :
    past before (c :: taken) rest = past (some c) taken rest := by
  unfold past
  rw [List.getLast?_cons]
  cases taken.getLast? with
  | none => rfl
  | some d => rfl

/- Only the last character behind which a place is counts. -/
theorem past_append
    (before : Option Char)
    (taken more rest : List Char) :
    past (taken.getLast?.or before) more rest =
      past before (taken ++ more) rest := by
  unfold past
  rw [List.getLast?_append, Option.or_assoc]

/- A line starts behind a text as the scan says. -/
theorem startsLine_past
    (before : Option Char)
    (taken rest : List Char) :
    (past before taken rest).before.all (· == '\n') =
      startsLine (before.all (· == '\n')) taken := by
  induction taken generalizing before with
  | nil => rfl
  | cons c taken ih =>
      rw [past_cons, ih]
      rfl

end Cursor

------------------------------------------------------------
-- Greedy Repetition
------------------------------------------------------------

namespace Pattern

open Cursor (past)

variable {p q : Pattern} {before : Option Char}
variable {takes : Char → List Char → Bool}
variable {c : Char} {cs rest : List Char}

/-
  A pattern takes one character, if that character and the
  text behind it allow it, and ends nowhere else.
-/
structure TakesOne
    (p : Pattern)
    (takes : Char → List Char → Bool) : Prop where
  nil : ∀ before, p.ends ⟨before, []⟩ = []
  cons :
    ∀ before c rest,
      p.ends ⟨before, c :: rest⟩ =
        if takes c rest then [⟨some c, rest⟩] else []

theorem takesOne_one (allowed : Char → Bool) :
    (Pattern.one allowed).TakesOne fun c _ => allowed c where
  nil _ := rfl
  cons _ _ _ := rfl

/- The longest run of characters that are taken, and the rest. -/
def longest
    (takes : Char → List Char → Bool) :
    List Char → List Char × List Char
  | [] => ([], [])
  | c :: rest =>
      if takes c rest then
        (c :: (longest takes rest).1, (longest takes rest).2)
      else ([], c :: rest)

theorem longest_eq_run
    (allowed : Char → Bool)
    (cs : List Char) :
    longest (fun c _ => allowed c) cs = run allowed cs := by
  induction cs with
  | nil => rfl
  | cons c cs ih =>
      rw [longest, ih]
      unfold run
      rw [List.takeWhile_cons, List.dropWhile_cons]
      cases allowed c with
      | false => rfl
      | true => rfl

theorem ends_many_nil
    (p : Pattern)
    (before : Option Char) :
    (Pattern.many p).ends ⟨before, []⟩ = [⟨before, []⟩] :=
  rfl

/- The longest run is tried first. -/
theorem ends_many_cons
    (hTakes : p.TakesOne takes)
    (before : Option Char)
    (c : Char)
    (rest : List Char) :
    (Pattern.many p).ends ⟨before, c :: rest⟩ =
      (if takes c rest then
          (Pattern.many p).ends ⟨some c, rest⟩
        else []) ++
        [⟨before, c :: rest⟩] := by
  simp only [Pattern.ends, List.length_cons, repeated,
    hTakes.cons]
  cases takes c rest with
  | false => rfl
  | true => simp

/-
  If what follows a repetition cannot match where the
  repetition goes on, nothing is ever given back.
-/
theorem ends_both_many
    (hTakes : p.TakesOne takes)
    (hStuck :
      ∀ before c rest, takes c rest = true →
        q.ends ⟨before, c :: rest⟩ = [])
    (before : Option Char)
    (cs : List Char) :
    (Pattern.both (.many p) q).ends ⟨before, cs⟩ =
      q.ends
        (past before (longest takes cs).1
          (longest takes cs).2) := by
  induction cs generalizing before with
  | nil => simp [Pattern.ends, repeated, longest]
  | cons c cs ih =>
      have hEnds :
          (Pattern.both (.many p) q).ends ⟨before, c :: cs⟩ =
            ((Pattern.many p).ends ⟨before, c :: cs⟩).flatMap
              q.ends :=
        rfl
      rw [hEnds, ends_many_cons hTakes, longest]
      cases hHere : takes c cs with
      | false => simp
      | true =>
          have hLast := hStuck before c cs hHere
          have hLater :
              ((Pattern.many p).ends ⟨some c, cs⟩).flatMap
                  q.ends =
                q.ends
                  (past (some c) (longest takes cs).1
                    (longest takes cs).2) :=
            ih (some c)
          simp [hLater, hLast]

/- The longest run is found first. -/
theorem ends_many_eq
    (hTakes : p.TakesOne takes)
    (before : Option Char)
    (cs : List Char) :
    ∃ others,
      (Pattern.many p).ends ⟨before, cs⟩ =
        past before (longest takes cs).1 (longest takes cs).2 ::
          others := by
  induction cs generalizing before with
  | nil => exact ⟨[], rfl⟩
  | cons c cs ih =>
      rw [ends_many_cons hTakes, longest]
      cases takes c cs with
      | false => exact ⟨[], rfl⟩
      | true =>
          rcases ih (some c) with ⟨others, hEnds⟩
          exact ⟨others ++ [⟨before, c :: cs⟩], by simp [hEnds]⟩

------------------------------------------------------------
-- Given Texts
------------------------------------------------------------

theorem ends_sequence_cons
    (p q : Pattern)
    (qs : List Pattern)
    (k : Cursor) :
    (sequence (p :: q :: qs)).ends k =
      (p.ends k).flatMap (sequence (q :: qs)).ends :=
  rfl

/- A given text ends behind itself. -/
theorem ends_literal
    (lead : List Char)
    (before : Option Char)
    (cs : List Char) :
    (literal lead).ends ⟨before, cs⟩ =
      ((after? lead cs).map (past before lead)).toList := by
  induction lead generalizing before cs with
  | nil => rfl
  | cons a lead ih =>
      cases cs with
      | nil =>
          cases lead with
          | nil => rfl
          | cons b lead => rfl
      | cons c cs =>
          have hHead :
              (Pattern.one (· == a)).ends ⟨before, c :: cs⟩ =
                if c = a then [⟨some c, cs⟩] else [] := by
            simp [Pattern.ends]
          have hEnds :
              (literal (a :: lead)).ends ⟨before, c :: cs⟩ =
                if c = a then (literal lead).ends ⟨some c, cs⟩
                else [] := by
            cases lead with
            | nil =>
                refine hHead.trans ?_
                split
                · rfl
                · rfl
            | cons b lead =>
                have hBoth :=
                  ends_sequence_cons (.one (· == a))
                    (.one (· == b))
                    (lead.map fun d => .one (· == d))
                    ⟨before, c :: cs⟩
                refine hBoth.trans ?_
                rw [hHead]
                split
                · exact List.flatMap_singleton _ _
                · rfl
          rw [hEnds, after?]
          by_cases hSame : a = c
          · subst hSame
            rw [if_pos rfl, if_pos rfl, ih]
            congr 2
            funext rest
            rw [Cursor.past_cons]
          · rw [if_neg hSame, if_neg (Ne.symm hSame)]
            rfl

theorem ends_both_literal
    (lead : List Char)
    (q : Pattern)
    (before : Option Char)
    (cs : List Char) :
    (Pattern.both (literal lead) q).ends ⟨before, cs⟩ =
      match after? lead cs with
      | some rest => q.ends (past before lead rest)
      | none => [] := by
  have hEnds :
      (Pattern.both (literal lead) q).ends ⟨before, cs⟩ =
        ((literal lead).ends ⟨before, cs⟩).flatMap q.ends :=
    rfl
  rw [hEnds, ends_literal]
  cases after? lead cs with
  | none => rfl
  | some rest => exact List.flatMap_singleton _ _

------------------------------------------------------------
-- One Step of Deleting
------------------------------------------------------------

theorem deleteFrom_cons
    (p : Pattern)
    (fuel : Nat)
    (before : Option Char)
    (c : Char)
    (rest : List Char) :
    p.deleteFrom (fuel + 1) ⟨before, c :: rest⟩ =
      match p.ends ⟨before, c :: rest⟩ with
      | next :: _ =>
          ((p.deleteFrom fuel next).1,
            (p.deleteFrom fuel next).2 + 1)
      | [] =>
          (c :: (p.deleteFrom fuel ⟨some c, rest⟩).1,
            (p.deleteFrom fuel ⟨some c, rest⟩).2) :=
  rfl

end Pattern

------------------------------------------------------------
-- Comments
------------------------------------------------------------

namespace Form

open Pattern
open Cursor (past)

variable {form : Form} {before : Option Char}
variable {cs taken rest : List Char} {ends : List Cursor}

/-
  The ends of a match are those of a reader: none where
  nothing is read, else the end of what is read first. If
  there are others, they are the same place again, or the
  first one is at the end of a line.
-/
def EndsAs
    (found? : Option (List Char × List Char))
    (before : Option Char)
    (ends : List Cursor) : Prop :=
  match found? with
  | none => ends = []
  | some (taken, rest) =>
      ∃ others,
        ends = past before taken rest :: others ∧
          ((∀ k ∈ others, k = past before taken rest) ∨
            ∀ c ∈ rest.head?, isLineEnd c = true)

/- What is read may be read behind another text. -/
theorem EndsAs.behind
    {found? : Option (List Char × List Char)}
    (lead : List Char)
    (hEnds : EndsAs found? (lead.getLast?.or before) ends) :
    EndsAs
      (found?.map fun x => (lead ++ x.1, x.2))
      before ends := by
  cases found? with
  | none => exact hEnds
  | some found =>
      rcases found with ⟨taken, rest⟩
      rcases hEnds with ⟨others, hEnds, hOthers⟩
      rw [Cursor.past_append] at hEnds hOthers
      exact ⟨others, hEnds, hOthers⟩

/- A pattern ends everywhere as a reader reads. -/
def Reads
    (p : Pattern)
    (read : List Char → Option (List Char × List Char)) :
    Prop :=
  ∀ before cs, EndsAs (read cs) before (p.ends ⟨before, cs⟩)

theorem Reads.literal
    {q : Pattern}
    {read : List Char → Option (List Char × List Char)}
    (hReads : Reads q read)
    (lead : List Char) :
    Reads (.both (Pattern.literal lead) q) fun cs =>
      (after? lead cs).bind fun rest =>
        (read rest).map fun x => (lead ++ x.1, x.2) := by
  intro before cs
  rw [ends_both_literal]
  dsimp only
  cases after? lead cs with
  | none => rfl
  | some rest => exact (hReads _ rest).behind lead

theorem Reads.many
    {p q : Pattern}
    {takes : Char → List Char → Bool}
    {read : List Char → Option (List Char × List Char)}
    (hReads : Reads q read)
    (hTakes : p.TakesOne takes)
    (hStuck :
      ∀ before c rest, takes c rest = true →
        q.ends ⟨before, c :: rest⟩ = []) :
    Reads (.both (.many p) q) fun cs =>
      (read (longest takes cs).2).map fun x =>
        ((longest takes cs).1 ++ x.1, x.2) := by
  intro before cs
  rw [ends_both_many hTakes hStuck]
  exact (hReads _ _).behind _

/- A block goes on with a character: its end is not here. -/
def goesOn (c : Char) (rest : List Char) : Bool :=
  (after? ['*', '/'] (c :: rest)).isNone

/- The end of a block is where it cannot go on. -/
theorem throughClose?_eq_longest (cs : List Char) :
    throughClose? cs =
      (after? ['*', '/'] (longest goesOn cs).2).map
        fun rest =>
          ((longest goesOn cs).1 ++ ['*', '/'], rest) := by
  fun_induction throughClose? cs with
  | case1 rest => simp [longest, goesOn, after?]
  | case2 c rest hOther ih =>
      have hGoes : goesOn c rest = true := by
        unfold goesOn
        cases hCloses : after? ['*', '/'] (c :: rest) with
        | none => rfl
        | some more =>
            have hText := append_of_after? hCloses
            simp only [List.cons_append, List.nil_append,
              List.cons.injEq] at hText
            exact (hOther more hText.1 hText.2).elim
      rw [ih, longest, if_pos hGoes]
      cases after? ['*', '/'] (longest goesOn rest).2 with
      | none => rfl
      | some more => rfl
  | case3 => rfl

theorem takesOne_goesOn :
    (Pattern.both (.unless close)
      (.one fun _ => true)).TakesOne goesOn where
  nil _ := rfl
  cons before c rest := by
    have hEnds :
        (Pattern.both (.unless close)
            (.one fun _ => true)).ends ⟨before, c :: rest⟩ =
          (if (close.ends ⟨before, c :: rest⟩).isEmpty then
              [⟨before, c :: rest⟩]
            else []).flatMap
            (Pattern.one fun _ => true).ends :=
      rfl
    rw [hEnds]
    unfold close goesOn
    rw [ends_literal]
    cases after? ['*', '/'] (c :: rest) with
    | none => rfl
    | some more => rfl

/- A body that goes on to a sign, read once and for all. -/
theorem ends_both_many_close
    {p : Pattern}
    {takes : Char → List Char → Bool}
    (hTakes : p.TakesOne takes)
    (hStuck :
      ∀ c rest, takes c rest = true →
        after? ['*', '/'] (c :: rest) = none)
    (before : Option Char)
    (cs : List Char) :
    (Pattern.both (.many p) close).ends ⟨before, cs⟩ =
      ((after? ['*', '/'] (longest takes cs).2).map
        (past before
          ((longest takes cs).1 ++ ['*', '/']))).toList := by
  rw [ends_both_many hTakes]
  · unfold close past
    rw [ends_literal]
    cases after? ['*', '/'] (longest takes cs).2 with
    | none => rfl
    | some rest =>
        rw [Option.map_some, Option.map_some,
          Cursor.past_append]
        rfl
  · intro before c rest hGoes
    unfold close
    rw [ends_literal, hStuck c rest hGoes]
    rfl

theorem reads_block (word : List Char) :
    Reads (bodyPattern (.block word)) throughClose? := by
  intro before cs
  have hEnds :=
    ends_both_many_close takesOne_goesOn
      (fun _ _ hGoes => Option.isNone_iff_eq_none.mp hGoes)
      before cs
  unfold bodyPattern
  rw [hEnds, throughClose?_eq_longest]
  cases after? ['*', '/'] (longest goesOn cs).2 with
  | none => rfl
  | some rest => exact ⟨[], rfl, Or.inl (by simp)⟩

/- What follows the blanks of a configuration. -/
theorem ends_unstarred
    (before : Option Char)
    (cs : List Char) :
    (Pattern.both (.many (.one (· != '*'))) close).ends
        ⟨before, cs⟩ =
      ((after? ['*', '/'] (run (· != '*') cs).2).map
        (past before
          ((run (· != '*') cs).1 ++ ['*', '/']))).toList := by
  rw [ends_both_many_close (takesOne_one _), longest_eq_run]
  intro c rest hOther
  have hNe : '*' ≠ c := by
    rintro rfl
    cases hOther
  rw [after?, if_neg hNe]

/- A blank is no star. -/
theorem run_unstarred_cons
    {c : Char}
    (hBlank : isBlank c = true) :
    run (· != '*') (c :: cs) =
      (c :: (run (· != '*') cs).1, (run (· != '*') cs).2) := by
  have hOther : (c != '*') = true := by
    rw [bne_iff_ne]
    rintro rfl
    exact absurd hBlank (by decide)
  simp [run, hOther]

/-
  Blanks that are given back are taken again by what follows
  them, so that all ends of a configuration are the same.
-/
theorem ends_unstarred_of_mem
    {k : Cursor}
    (hMember :
      k ∈ (Pattern.many (.one isBlank)).ends ⟨before, cs⟩) :
    (Pattern.both (.many (.one (· != '*'))) close).ends k =
      (Pattern.both (.many (.one (· != '*'))) close).ends
        ⟨before, cs⟩ := by
  induction cs generalizing before with
  | nil =>
      rw [ends_many_nil, List.mem_singleton] at hMember
      rw [hMember]
  | cons c cs ih =>
      rw [ends_many_cons (takesOne_one isBlank),
        List.mem_append, List.mem_singleton] at hMember
      rcases hMember with hTaken | rfl
      · cases hBlank : isBlank c with
        | false =>
            rw [hBlank] at hTaken
            simp at hTaken
        | true =>
            rw [hBlank, if_pos rfl] at hTaken
            rw [ih hTaken, ends_unstarred, ends_unstarred,
              run_unstarred_cons hBlank]
            rw [List.cons_append]
            congr 2
            funext rest
            exact (Cursor.past_cons before c _ rest).symm
      · rfl

theorem blankThroughClose?_cons
    (c : Char)
    (rest : List Char) :
    blankThroughClose? (c :: rest) =
      if isBlank c then
        (after? ['*', '/'] (run (· != '*') rest).2).map
          fun more =>
            (c :: ((run (· != '*') rest).1 ++ ['*', '/']), more)
      else none := by
  unfold blankThroughClose?
  cases hBlank : isBlank c with
  | false =>
      split
      · next d body more hRun =>
          have hText := run_append (· != '*') (c :: rest)
          rw [hRun] at hText
          have hSame : d = c := List.head_eq_of_cons_eq hText
          rw [hSame, hBlank]
          rfl
      · rfl
  | true =>
      rw [run_unstarred_cons hBlank, if_pos rfl]
      split
      · next d body more hSame =>
          rcases Prod.mk.inj hSame with ⟨hFirst, hRest⟩
          rcases List.cons.inj hFirst with ⟨rfl, rfl⟩
          rw [if_pos hBlank, hRest]
          rfl
      · next hOther =>
          cases hCloses :
              after? ['*', '/'] (run (· != '*') rest).2 with
          | none => rfl
          | some more =>
              have hText := append_of_after? hCloses
              exact (hOther c _ more (Prod.ext rfl hText)).elim

/- Ends that are all the same are those of a reader. -/
theorem endsAs_of_forall
    {found? : Option (List Char × List Char)}
    (hSome : ends ≠ [] ∨ found? = none)
    (hSame :
      ∀ k ∈ ends, ∃ found,
        found? = some found ∧
          k = past before found.1 found.2) :
    EndsAs found? before ends := by
  cases found? with
  | none =>
      apply List.eq_nil_iff_forall_not_mem.mpr
      intro k hk
      rcases hSame k hk with ⟨_, hFound, _⟩
      cases hFound
  | some found =>
      cases ends with
      | nil => simp at hSome
      | cons k others =>
          have hAll :
              ∀ k' ∈ k :: others,
                k' = past before found.1 found.2 := by
            intro k' hk'
            rcases hSame k' hk' with ⟨_, hFound, hPlace⟩
            rcases Option.some.inj hFound with rfl
            exact hPlace
          rw [hAll k List.mem_cons_self]
          exact ⟨others, rfl, Or.inl fun k' hk' =>
            hAll k' (List.mem_cons_of_mem _ hk')⟩

theorem reads_configuration :
    Reads (bodyPattern .configuration) blankThroughClose? := by
  intro before cs
  cases cs with
  | nil => rfl
  | cons c rest =>
      have hEnds :
          (bodyPattern .configuration).ends ⟨before, c :: rest⟩ =
            ((Pattern.one isBlank).ends
                ⟨before, c :: rest⟩).flatMap
              fun k =>
                ((Pattern.many (.one isBlank)).ends k).flatMap
                  (Pattern.both (.many (.one (· != '*')))
                    close).ends :=
        rfl
      rw [hEnds, (takesOne_one isBlank).cons,
        blankThroughClose?_cons]
      cases isBlank c with
      | false => rfl
      | true =>
          rw [if_pos rfl, if_pos rfl, List.flatMap_singleton]
          rcases ends_many_eq (takesOne_one isBlank) (some c)
              rest with
            ⟨others, hMany⟩
          apply endsAs_of_forall
          · cases hCloses :
                after? ['*', '/'] (run (· != '*') rest).2 with
            | none => exact Or.inr rfl
            | some more =>
                left
                rw [hMany, List.flatMap_cons,
                  ends_unstarred_of_mem
                    (hMany ▸ List.mem_cons_self),
                  ends_unstarred, hCloses]
                simp
          · intro k hk
            rcases List.mem_flatMap.mp hk with ⟨k', hk', hk⟩
            rw [ends_unstarred_of_mem hk', ends_unstarred,
              Option.mem_toList, Option.map_eq_some_iff] at hk
            rcases hk with ⟨more, hMore, rfl⟩
            rw [hMore]
            exact ⟨_, rfl, (Cursor.past_cons ..).symm⟩

theorem reads_line (word : List Char) :
    Reads (bodyPattern (.line word)) fun cs =>
      some (run (!isLineEnd ·) cs) := by
  intro before cs
  rcases ends_many_eq (takesOne_one (!isLineEnd ·)) before
      cs with
    ⟨others, hEnds⟩
  rw [longest_eq_run] at hEnds
  refine ⟨others, hEnds, Or.inr fun c hc => ?_⟩
  rcases List.head?_eq_some_iff.mp hc with ⟨rest, hRest⟩
  simpa using head_rest_of_run hRest

theorem reads_body (form : Form) :
    Reads form.bodyPattern form.body? := by
  cases form with
  | block word => exact reads_block word
  | configuration => exact reads_configuration
  | line word => exact reads_line word

/- The word of a form starts where the blanks end. -/
theorem after?_word_eq_none
    (hWorded : form.Worded)
    {c : Char}
    (hBlank : isBlank c = true)
    (rest : List Char) :
    after? form.word (c :: rest) = none := by
  unfold Worded at hWorded
  cases hWord : form.word with
  | nil => simp [hWord] at hWorded
  | cons a word =>
      have hNe : a ≠ c := by
        rintro rfl
        simp [hWord, hBlank] at hWorded
      rw [after?, if_neg hNe]

/- The pattern of a comment ends as the comment is read. -/
theorem reads_comment
    (hWorded : form.Worded) :
    Reads form.commentPattern form.comment? := by
  have hWord := (reads_body form).literal form.word
  have hBlanks :=
    hWord.many (takesOne_one isBlank)
      fun before c rest hBlank => by
        rw [ends_both_literal,
          after?_word_eq_none hWorded hBlank]
  have hOpener := hBlanks.literal form.opener
  intro before cs
  have hComment :
      form.comment? cs =
        (after? form.opener cs).bind fun inside =>
          Option.map (fun x => (form.opener ++ x.1, x.2))
            (((after? form.word
                (longest (fun c _ => isBlank c) inside).2).bind
              fun rest =>
                (form.body? rest).map fun x =>
                  (form.word ++ x.1, x.2)).map fun x =>
              ((longest (fun c _ => isBlank c) inside).1 ++ x.1,
                x.2)) := by
    unfold comment?
    cases after? form.opener cs with
    | none => rfl
    | some inside =>
        dsimp only [Option.bind_eq_bind, Option.bind_some]
        rw [longest_eq_run]
        cases after? form.word (run isBlank inside).2 with
        | none => rfl
        | some rest =>
            dsimp only [Option.bind_some]
            cases form.body? rest with
            | none => rfl
            | some body => simp
  rw [hComment]
  exact hOpener before cs

------------------------------------------------------------
-- Whole Lines
------------------------------------------------------------

/- A line break, or the end of the text, is found first. -/
theorem head?_ends_ending
    (before : Option Char)
    (cs : List Char) :
    (ending.ends ⟨before, cs⟩).head? =
      (lineBreak? cs).map fun (taken, rest) =>
        past before taken rest := by
  have hEnds :
      ending.ends ⟨before, cs⟩ =
        (literal ['\r', '\n']).ends ⟨before, cs⟩ ++
          ((literal ['\n']).ends ⟨before, cs⟩ ++
            ((literal ['\r']).ends ⟨before, cs⟩ ++
              if cs.isEmpty then [⟨before, cs⟩] else [])) :=
    rfl
  rw [hEnds]
  simp only [ends_literal]
  fun_cases lineBreak? cs with
  | case1 rest => rfl
  | case2 rest => rfl
  | case3 rest hOther =>
      cases rest with
      | nil => rfl
      | cons c rest =>
          have hNe : '\n' ≠ c := by
            rintro rfl
            exact hOther rest rfl
          simp [after?, hNe]
  | case4 => rfl
  | case5 cs hPair hFeed hReturn hNil =>
      cases cs with
      | nil => exact (hNil rfl).elim
      | cons c rest =>
          have hFeed' : '\n' ≠ c := by
            rintro rfl
            exact hFeed rest rfl
          have hReturn' : '\r' ≠ c := by
            rintro rfl
            exact hReturn rest rfl
          simp [after?, hFeed', hReturn']

/- Indentation ends no line. -/
theorem ends_ending_eq_nil
    {c : Char}
    (hIndent : isIndent c = true)
    (before : Option Char)
    (rest : List Char) :
    ending.ends ⟨before, c :: rest⟩ = [] := by
  have hHead := head?_ends_ending before (c :: rest)
  have hBreak : lineBreak? (c :: rest) = none := by
    cases hFound : lineBreak? (c :: rest) with
    | none => rfl
    | some found =>
        have hNot := not_isIndent_head_of_lineBreak? hFound
        simp [hIndent] at hNot
  rw [hBreak] at hHead
  exact List.head?_eq_none_iff.mp hHead

/- Behind a comment, blanks are skipped to the line break. -/
theorem head?_ends_trail
    (before : Option Char)
    (cs : List Char) :
    ((Pattern.both indent ending).ends ⟨before, cs⟩).head? =
      (lineBreak? (run isIndent cs).2).map fun x =>
        past before ((run isIndent cs).1 ++ x.1) x.2 := by
  unfold indent
  rw [ends_both_many (takesOne_one isIndent)
    fun before c rest hIndent =>
      ends_ending_eq_nil hIndent before rest]
  rw [longest_eq_run, past, head?_ends_ending]
  congr 1
  funext x
  exact Cursor.past_append before _ x.1 x.2

/- A line that ends here has a line break behind it. -/
theorem ends_trail_ne_nil
    (before : Option Char)
    (hEnd : ∀ c ∈ cs.head?, isLineEnd c = true) :
    (Pattern.both indent ending).ends ⟨before, cs⟩ ≠ [] := by
  have hBreak :
      ∃ found, lineBreak? (run isIndent cs).2 = some found := by
    cases cs with
    | nil => exact ⟨_, rfl⟩
    | cons c rest =>
        have hc : c = '\n' ∨ c = '\r' := by
          simpa [isLineEnd] using hEnd c rfl
        rcases hc with rfl | rfl
        · exact ⟨_, rfl⟩
        · cases rest with
          | nil => exact ⟨_, rfl⟩
          | cons d rest =>
              by_cases hFeed : d = '\n'
              · subst hFeed
                exact ⟨_, rfl⟩
              · exact ⟨(['\r'], d :: rest), by
                  simp [run, isIndent, lineBreak?, hFeed]⟩
  rcases hBreak with ⟨found, hFound⟩
  intro hNil
  have hHead := head?_ends_trail before cs
  rw [hNil, hFound] at hHead
  cases hHead

/-
  Of the ends of a comment only the first one counts: what
  follows on its line is found there, or nowhere.
-/
theorem head?_flatMap_of_endsAs
    {found? : Option (List Char × List Char)}
    (hEnds : EndsAs found? before ends) :
    (ends.flatMap (Pattern.both indent ending).ends).head? =
      found?.bind fun x =>
        ((Pattern.both indent ending).ends
          (past before x.1 x.2)).head? := by
  cases found? with
  | none =>
      rw [EndsAs] at hEnds
      rw [hEnds]
      rfl
  | some found =>
      rcases hEnds with ⟨others, rfl, hOthers⟩
      rw [List.flatMap_cons, List.head?_append,
        Option.bind_some]
      cases hFirst :
          (Pattern.both indent ending).ends
            (past before found.1 found.2) with
      | cons k more => rfl
      | nil =>
          rcases hOthers with hSame | hEnd
          · have hNone :
                others.flatMap
                    (Pattern.both indent ending).ends = [] := by
              apply List.flatMap_eq_nil_iff.mpr
              intro k hk
              rw [hSame k hk, hFirst]
            rw [hNone]
            rfl
          · exact (ends_trail_ne_nil _ hEnd hFirst).elim

/- Indentation starts no comment. -/
theorem ends_comment_eq_nil
    (hWorded : form.Worded)
    {c : Char}
    (hIndent : isIndent c = true)
    (before : Option Char)
    (rest : List Char) :
    form.commentPattern.ends ⟨before, c :: rest⟩ = [] := by
  have hReads := reads_comment hWorded before (c :: rest)
  cases hFound : form.comment? (c :: rest) with
  | none =>
      rw [hFound] at hReads
      exact hReads
  | some found =>
      have hHead := head?_of_comment? hFound
      have hText := append_of_comment? hFound
      rcases List.head?_eq_some_iff.mp hHead with ⟨body, hBody⟩
      rw [hBody] at hText
      rw [List.head_eq_of_cons_eq hText] at hIndent
      exact absurd hIndent (by decide)

/- A comment alone on its line is found where it is read. -/
theorem head?_ends_wholeLine
    (hWorded : form.Worded)
    (before : Option Char)
    (cs : List Char) :
    ((sequence
          [indent, form.commentPattern, indent, ending]).ends
        ⟨before, cs⟩).head? =
      (form.wholeLine? cs).map fun x =>
        past before x.1 x.2 := by
  have hStuck :
      ∀ before c rest, isIndent c = true →
        (sequence [form.commentPattern, indent, ending]).ends
          ⟨before, c :: rest⟩ = [] := by
    intro before c rest hIndent
    rw [ends_sequence_cons, ends_comment_eq_nil hWorded hIndent]
    rfl
  have hLine :=
    ends_both_many (takesOne_one isIndent) hStuck before cs
  have hParts :
      (sequence
          [indent, form.commentPattern, indent, ending]).ends
          ⟨before, cs⟩ =
        (Pattern.both (.many (.one isIndent))
          (sequence
            [form.commentPattern, indent, ending])).ends
          ⟨before, cs⟩ :=
    rfl
  rw [hParts, hLine, longest_eq_run]
  have hHead :=
    head?_flatMap_of_endsAs
      (reads_comment hWorded
        ((run isIndent cs).1.getLast?.or before)
        (run isIndent cs).2)
  refine hHead.trans ?_
  unfold wholeLine?
  dsimp only [Option.bind_eq_bind]
  cases form.comment? (run isIndent cs).2 with
  | none => rfl
  | some comment =>
      dsimp only [Option.bind_some]
      rw [Cursor.past_append, past, head?_ends_trail]
      cases lineBreak? (run isIndent comment.2).2 with
      | none => rfl
      | some found =>
          dsimp only [Option.map_some, Option.bind_some]
          rw [Cursor.past_append]
          simp

------------------------------------------------------------
-- Deleting
------------------------------------------------------------

/- The first end of a match is that of the piece. -/
theorem head?_ends_pattern
    (hWorded : form.Worded)
    (before : Option Char)
    (cs : List Char) :
    (form.pattern.ends ⟨before, cs⟩).head? =
      (form.piece? (before.all (· == '\n')) cs).map fun x =>
        past before x.1 x.2 := by
  have hComment :
      (form.commentPattern.ends ⟨before, cs⟩).head? =
        (form.comment? cs).map fun x =>
          past before x.1 x.2 := by
    have hReads := reads_comment hWorded before cs
    cases hFound : form.comment? cs with
    | none =>
        rw [hFound, EndsAs] at hReads
        rw [hReads]
        rfl
    | some found =>
        rw [hFound] at hReads
        rcases hReads with ⟨others, hEnds, _⟩
        rw [hEnds]
        rfl
  have hEnds :
      form.pattern.ends ⟨before, cs⟩ =
        (if before.all (· == '\n') then [⟨before, cs⟩]
          else []).flatMap
            (sequence
              [indent, form.commentPattern,
                indent, ending]).ends ++
          form.commentPattern.ends ⟨before, cs⟩ :=
    rfl
  rw [hEnds, List.head?_append, hComment]
  unfold piece?
  cases before.all (· == '\n') with
  | false => rfl
  | true =>
      rw [if_pos rfl, if_pos rfl, List.flatMap_singleton,
        head?_ends_wholeLine hWorded]
      cases form.wholeLine? cs with
      | none => rfl
      | some found => rfl

/- Deleting the matches from a place on keeps what stays. -/
theorem deleteFrom_eq
    (hWorded : form.Worded)
    (fuel : Nat)
    (before : Option Char)
    (cs : List Char)
    (hFuel : cs.length ≤ fuel) :
    form.pattern.deleteFrom fuel ⟨before, cs⟩ =
      (keep
          (form.marksFrom (before.all (· == '\n')) 0 cs) cs,
        pieces
          (form.marksFrom (before.all (· == '\n')) 0 cs)) := by
  induction fuel generalizing before cs with
  | zero =>
      have hNil : cs = [] := by
        simpa using hFuel
      rw [hNil]
      rfl
  | succ fuel ih =>
      cases cs with
      | nil => rfl
      | cons c rest =>
          have hHead :=
            head?_ends_pattern hWorded before (c :: rest)
          rw [deleteFrom_cons]
          cases hPiece :
              form.piece? (before.all (· == '\n'))
                (c :: rest) with
          | none =>
              rw [hPiece, Option.map_none,
                List.head?_eq_none_iff] at hHead
              have hStart :
                  (some c).all (· == '\n') = (c == '\n') :=
                rfl
              have hLater :=
                ih (some c) rest (by simpa using hFuel)
              rw [hStart] at hLater
              rw [hHead, marksFrom_stays hPiece, pieces_stays]
              dsimp only
              rw [hLater]
              rfl
          | some found =>
              rcases found with ⟨piece, after⟩
              have hText := append_of_piece? hPiece
              have hNonempty := ne_nil_of_piece? hPiece
              have hShorter : after.length ≤ fuel := by
                have hLengths := congrArg List.length hText
                have hPositive :=
                  List.length_pos_iff.mpr hNonempty
                simp only [List.length_cons,
                  List.length_append] at hLengths hFuel
                omega
              have hLater :=
                ih (piece.getLast?.or before) after hShorter
              have hStart :=
                Cursor.startsLine_past before piece after
              rw [past] at hStart
              rw [hStart] at hLater
              rw [hPiece, Option.map_some,
                List.head?_eq_some_iff] at hHead
              rcases hHead with ⟨others, hEnds⟩
              rw [hEnds, hText]
              rw [hText] at hPiece
              rw [marksFrom_piece hPiece,
                keep_piece hNonempty, pieces_piece]
              dsimp only [past]
              rw [hLater]

/-
  Each standard rule, read as a pattern, matches at every
  place just the piece that the scan finds there. Deleting
  its matches therefore gives what the scan leaves, and the
  number of pieces that it cuts.
-/
theorem deletes_pieces
    {rule : Rule}
    (hRule : rule ∈ Rule.standard) :
    (∀ k : Cursor,
        (rule.form.pattern.ends k).head? =
          (rule.form.piece? (k.before.all (· == '\n'))
            k.rest).map fun x => past k.before x.1 x.2) ∧
      ∀ cs : List Char,
        rule.form.pattern.deleteAll cs =
          (keep (rule.form.marks cs) cs,
            pieces (rule.form.marks cs)) := by
  have hWorded := worded_of_mem_standard rule hRule
  exact ⟨fun k => head?_ends_pattern hWorded k.before k.rest,
    fun cs =>
      deleteFrom_eq hWorded cs.length none cs (Nat.le_refl _)⟩

/-
  The second comment goes with its line, the first one alone:
  it stands behind a statement.
-/
theorem deletes_pieces_enable :
    Rule.line "line-enable" "eslint-enable" ∈ Rule.standard ∧
      (Rule.line "line-enable" "eslint-enable").form.pattern.deleteAll
          "a() // eslint-enable\n\t//eslint-enable b \r\nc".toList =
        ("a() \nc".toList, 2) := by
  have hRule :
      Rule.line "line-enable" "eslint-enable" ∈
        Rule.standard := by
    simp [Rule.standard]
  refine ⟨hRule, ((deletes_pieces hRule).2 _).trans ?_⟩
  decide +kernel

end Form

end Directive

end BiomeMigration

import BiomeMigration.Proofs.Directive.Comment

/-
  The scan of one pass as a relation: which characters stay
  and which pieces are cut, over characters that carry
  labels. The marks of a text are such a scan.

  Main declarations:
    * `startsLine`
    * `Form.Scan`
    * `Form.scan_marks`
    * `Form.Scan.exists_of_stays`
    * `Form.Scan.exists_of_cut`
-/

------------------------------------------------------------
-- Marks of a Piece
------------------------------------------------------------

namespace BiomeMigration

namespace Directive

/-
  A line starts behind some characters, given whether one
  starts before them.
-/
def startsLine
    (lineStart : Bool) :
    List Char → Bool
  | [] => lineStart
  | c :: cs => startsLine (c == '\n') cs

@[simp] theorem startsLine_append
    (lineStart : Bool)
    (as bs : List Char) :
    startsLine lineStart (as ++ bs) =
      startsLine (startsLine lineStart as) bs := by
  induction as generalizing lineStart with
  | nil => rfl
  | cons a as ih => exact ih (a == '\n')

/- Only the last character counts. -/
theorem startsLine_eq_of_getLast?
    {as bs : List Char}
    (lineStart : Bool)
    (hLast : as.getLast? = bs.getLast?) :
    startsLine lineStart as = startsLine lineStart bs := by
  rcases List.eq_nil_or_concat as with rfl | ⟨as, a, rfl⟩
  · have hNil : bs = [] := by
      simpa using hLast.symm
    rw [hNil]
  · rcases List.eq_nil_or_concat bs with rfl | ⟨bs, b, rfl⟩
    · simp at hLast
    · have hEq : a = b := by
        simpa using hLast
      simp [hEq, startsLine]

namespace Form

/- Characters that a found piece takes along are cut. -/
theorem marksFrom_skip
    (form : Form)
    (lineStart : Bool)
    (piece rest : List Char) :
    form.marksFrom lineStart piece.length (piece ++ rest) =
      List.replicate piece.length (.cut false) ++
        form.marksFrom (startsLine lineStart piece) 0 rest := by
  induction piece generalizing lineStart with
  | nil => rfl
  | cons c piece ih =>
      simp only [List.length_cons, List.cons_append,
        marksFrom, List.replicate_succ]
      rw [ih]
      rfl

/- The marks of a piece, and those of the text behind it. -/
theorem marksFrom_piece
    {form : Form}
    {lineStart : Bool}
    {piece rest : List Char}
    (hPiece :
      form.piece? lineStart (piece ++ rest) =
        some (piece, rest)) :
    form.marksFrom lineStart 0 (piece ++ rest) =
      .cut true ::
          List.replicate (piece.length - 1) (.cut false) ++
        form.marksFrom (startsLine lineStart piece) 0 rest := by
  cases piece with
  | nil => exact (ne_nil_of_piece? hPiece rfl).elim
  | cons c piece =>
      rw [List.cons_append] at hPiece ⊢
      simp only [marksFrom, hPiece, List.length_cons,
        Nat.add_sub_cancel]
      rw [marksFrom_skip]
      rfl

/- A character that starts no piece stays. -/
theorem marksFrom_stays
    {form : Form}
    {lineStart : Bool}
    {c : Char}
    {rest : List Char}
    (hPiece : form.piece? lineStart (c :: rest) = none) :
    form.marksFrom lineStart 0 (c :: rest) =
      .stays :: form.marksFrom (c == '\n') 0 rest := by
  simp [marksFrom, hPiece]

end Form

------------------------------------------------------------
-- Keeping and Counting
------------------------------------------------------------

/- Entries that are cut are not kept. -/
theorem keep_replicate_cut
    {α : Type}
    (piece rest : List α)
    (ms : List Mark) :
    keep
        (List.replicate piece.length (.cut false) ++ ms)
        (piece ++ rest) =
      keep ms rest := by
  induction piece with
  | nil => rfl
  | cons x piece ih => exact ih

theorem keep_piece
    {α : Type}
    {piece : List α}
    (hPiece : piece ≠ [])
    (rest : List α)
    (ms : List Mark) :
    keep
        (.cut true ::
            List.replicate (piece.length - 1) (.cut false) ++
          ms)
        (piece ++ rest) =
      keep ms rest := by
  cases piece with
  | nil => exact (hPiece rfl).elim
  | cons x piece => exact keep_replicate_cut piece rest ms

/- Entries that stay are kept. -/
theorem keep_replicate_stays
    {α : Type}
    (part rest : List α)
    (ms : List Mark) :
    keep (List.replicate part.length .stays ++ ms)
        (part ++ rest) =
      part ++ keep ms rest := by
  induction part with
  | nil => rfl
  | cons x part ih => exact congrArg (x :: ·) ih

theorem pieces_piece
    (n : Nat)
    (ms : List Mark) :
    pieces (.cut true :: List.replicate n (.cut false) ++ ms) =
      pieces ms + 1 := by
  unfold pieces
  rw [List.cons_append, List.count_cons_self,
    List.count_append, List.count_replicate]
  simp

theorem pieces_stays (ms : List Mark) :
    pieces (.stays :: ms) = pieces ms := by
  simp [pieces]

theorem pieces_replicate_stays
    (n : Nat)
    (ms : List Mark) :
    pieces (List.replicate n .stays ++ ms) = pieces ms := by
  unfold pieces
  rw [List.count_append, List.count_replicate]
  simp

end Directive

end BiomeMigration

------------------------------------------------------------
-- The Scan Relation
------------------------------------------------------------

namespace BiomeMigration

namespace Directive

variable {α : Type}

/- The characters of a labelled text. -/
def chars (xs : List (Char × α)) : List Char :=
  xs.map Prod.fst

@[simp] theorem chars_nil :
    chars ([] : List (Char × α)) = [] :=
  rfl

@[simp] theorem chars_cons
    (x : Char × α)
    (xs : List (Char × α)) :
    chars (x :: xs) = x.1 :: chars xs :=
  rfl

@[simp] theorem chars_append (xs ys : List (Char × α)) :
    chars (xs ++ ys) = chars xs ++ chars ys :=
  List.map_append

@[simp] theorem length_chars (xs : List (Char × α)) :
    (chars xs).length = xs.length :=
  List.length_map _

/- A split of the characters is a split of the text. -/
theorem exists_of_chars_eq_append
    {xs : List (Char × α)}
    {as bs : List Char}
    (hChars : chars xs = as ++ bs) :
    ∃ ys zs, xs = ys ++ zs ∧ chars ys = as ∧ chars zs = bs :=
  List.map_eq_append_iff.mp hChars

/-
  A scan of a labelled text with its result: the characters
  that stay, and the pieces that are cut, in order.
-/
inductive Form.Scan (form : Form) :
    Bool →
      List (Char × α) →
      List (Char × α) →
      List (List (Char × α)) → Prop where
  | done (lineStart : Bool) : form.Scan lineStart [] [] []
  | stays
      {lineStart : Bool}
      {x : Char × α}
      {xs kept : List (Char × α)}
      {cut : List (List (Char × α))}
      (hPiece : form.piece? lineStart (chars (x :: xs)) = none)
      (hRest : form.Scan (x.1 == '\n') xs kept cut) :
      form.Scan lineStart (x :: xs) (x :: kept) cut
  | cuts
      {lineStart : Bool}
      {piece xs kept : List (Char × α)}
      {cut : List (List (Char × α))}
      (hPiece :
        form.piece? lineStart (chars (piece ++ xs)) =
          some (chars piece, chars xs))
      (hRest :
        form.Scan (startsLine lineStart (chars piece)) xs
          kept cut) :
      form.Scan lineStart (piece ++ xs) kept (piece :: cut)

namespace Form

private theorem scan_marksFrom
    (form : Form)
    (n : Nat)
    (lineStart : Bool)
    (xs : List (Char × α))
    (hLength : xs.length ≤ n) :
    ∃ cut,
      form.Scan lineStart xs
          (keep (form.marksFrom lineStart 0 (chars xs)) xs)
          cut ∧
        pieces (form.marksFrom lineStart 0 (chars xs)) =
          cut.length := by
  induction n generalizing lineStart xs with
  | zero =>
      have hNil : xs = [] := by
        simpa using hLength
      subst hNil
      exact ⟨[], .done lineStart, rfl⟩
  | succ n ih =>
      cases xs with
      | nil => exact ⟨[], .done lineStart, rfl⟩
      | cons x xs =>
          cases hPiece :
              form.piece? lineStart (chars (x :: xs)) with
          | none =>
              rcases ih (x.1 == '\n') xs
                  (by simpa using hLength) with
                ⟨cut, hScan, hCount⟩
              have hMarks :
                  form.marksFrom lineStart 0
                      (chars (x :: xs)) =
                    .stays ::
                      form.marksFrom (x.1 == '\n') 0
                        (chars xs) :=
                marksFrom_stays hPiece
              refine ⟨cut, ?_, ?_⟩
              · rw [hMarks]
                exact .stays hPiece hScan
              · rw [hMarks, pieces_stays, hCount]
          | some result =>
              rcases result with ⟨taken, rest⟩
              rcases exists_of_chars_eq_append
                  (append_of_piece? hPiece) with
                ⟨piece, tail, hSplit, rfl, rfl⟩
              have hNonempty : piece ≠ [] := by
                intro hNil
                apply ne_nil_of_piece? hPiece
                rw [hNil]
                rfl
              have hShorter : tail.length ≤ n := by
                have hLengths := congrArg List.length hSplit
                have hPositive :=
                  List.length_pos_iff.mpr hNonempty
                simp only [List.length_cons,
                  List.length_append] at hLengths hLength
                omega
              rw [hSplit] at hPiece ⊢
              rw [chars_append] at hPiece
              rcases ih (startsLine lineStart (chars piece))
                  tail hShorter with
                ⟨cut, hScan, hCount⟩
              have hKept := keep_piece hNonempty tail
                (form.marksFrom
                  (startsLine lineStart (chars piece)) 0
                  (chars tail))
              refine ⟨piece :: cut, ?_, ?_⟩
              · rw [chars_append, marksFrom_piece hPiece,
                  length_chars, hKept]
                apply Scan.cuts _ hScan
                rw [chars_append]
                exact hPiece
              · rw [chars_append, marksFrom_piece hPiece,
                  pieces_piece, hCount, List.length_cons]

/-
  The marks of a text are a scan of it, and there are as
  many pieces as the marks count.
-/
theorem scan_marks
    (form : Form)
    (xs : List (Char × α)) :
    ∃ cut,
      form.Scan true xs (keep (form.marks (chars xs)) xs)
          cut ∧
        pieces (form.marks (chars xs)) = cut.length :=
  form.scan_marksFrom xs.length true xs (Nat.le_refl _)

namespace Scan

variable {form : Form} {lineStart : Bool}
variable {xs kept : List (Char × α)}
variable {cut : List (List (Char × α))}

/-
  At a character that stays no piece starts, and the rest of
  the result is a scan of the text behind it.
-/
theorem exists_of_stays
    (hScan : form.Scan lineStart xs kept cut)
    {before after : List (Char × α)}
    {x : Char × α}
    (hKept : kept = before ++ x :: after) :
    ∃ front back lineStart' cut',
      xs = front ++ x :: back ∧
        form.piece? lineStart' (chars (x :: back)) = none ∧
        form.Scan (x.1 == '\n') back after cut' := by
  induction hScan generalizing before with
  | done lineStart => simp at hKept
  | @stays lineStart y ys kept cut hPiece hRest ih =>
      cases before with
      | nil =>
          rcases List.cons.inj hKept with ⟨rfl, rfl⟩
          exact ⟨[], ys, lineStart, cut, rfl, hPiece, hRest⟩
      | cons z before =>
          rcases List.cons.inj hKept with ⟨rfl, hTail⟩
          rcases ih hTail with
            ⟨front, back, lineStart', cut', rfl, hNone, hBack⟩
          exact ⟨y :: front, back, lineStart', cut', rfl,
            hNone, hBack⟩
  | @cuts lineStart piece ys kept cut hPiece hRest ih =>
      rcases ih hKept with
        ⟨front, back, lineStart', cut', rfl, hNone, hBack⟩
      exact ⟨piece ++ front, back, lineStart', cut', by simp,
        hNone, hBack⟩

theorem sublist
    (hScan : form.Scan lineStart xs kept cut) :
    kept.Sublist xs := by
  induction hScan with
  | done lineStart => exact List.Sublist.slnil
  | stays hPiece hRest ih => exact ih.cons_cons _
  | cuts hPiece hRest ih =>
      exact ih.trans (List.sublist_append_right _ _)

/-
  A character that does not stay lies in a piece, and what
  stays was outside of that piece.
-/
theorem exists_of_cut
    (hScan : form.Scan lineStart xs kept cut)
    {x : Char × α}
    (hMember : x ∈ xs)
    (hGone : x ∉ kept) :
    ∃ before piece after,
      xs = before ++ piece ++ after ∧
        x ∈ piece ∧
        kept.Sublist (before ++ after) ∧
        form.piece? (startsLine lineStart (chars before))
            (chars (piece ++ after)) =
          some (chars piece, chars after) := by
  induction hScan with
  | done lineStart => simp at hMember
  | @stays lineStart y ys kept cut hPiece hRest ih =>
      simp only [List.mem_cons, not_or] at hMember hGone
      rcases hMember with hHead | hTail
      · exact (hGone.1 hHead).elim
      · rcases ih hTail hGone.2 with
          ⟨before, piece, after, rfl, hIn, hKept, hFound⟩
        exact ⟨y :: before, piece, after, rfl, hIn,
          hKept.cons_cons y, hFound⟩
  | @cuts lineStart piece ys kept cut hPiece hRest ih =>
      rcases List.mem_append.mp hMember with hIn | hTail
      · exact ⟨[], piece, ys, rfl, hIn, hRest.sublist, hPiece⟩
      · rcases ih hTail hGone with
          ⟨before, piece', after, rfl, hIn, hKept, hFound⟩
        refine ⟨piece ++ before, piece', after, by simp, hIn,
          ?_, ?_⟩
        · rw [List.append_assoc]
          exact hKept.trans (List.sublist_append_right _ _)
        · rw [chars_append, startsLine_append]
          exact hFound

/-
  A close in the result was one in the text: a piece that
  stood between its two signs started with a slash.
-/
theorem hasClose
    (hScan : form.Scan lineStart xs kept cut)
    (hClose : HasClose (chars kept)) :
    HasClose (chars xs) := by
  induction hScan with
  | done lineStart => exact hClose
  | @stays lineStart y ys kept cut hPiece hRest ih =>
      rw [chars_cons, hasClose_cons_iff] at hClose ⊢
      rcases hClose with ⟨hStar, hSlash⟩ | hClose
      · refine Or.inl ⟨hStar, ?_⟩
        have hNoLine : (y.1 == '\n') = false := by
          rw [hStar]
          decide
        rw [hNoLine] at hRest
        cases hRest with
        | done => exact hSlash
        | stays hNext hTail => exact hSlash
        | cuts hNext hTail =>
            rw [piece?_false] at hNext
            rw [chars_append, List.head?_append,
              head?_of_comment? hNext]
            rfl
      · exact Or.inr (ih hClose)
  | @cuts lineStart piece ys kept cut hPiece hRest ih =>
      rw [chars_append]
      exact (ih hClose).append_left _

end Scan

end Form

end Directive

end BiomeMigration

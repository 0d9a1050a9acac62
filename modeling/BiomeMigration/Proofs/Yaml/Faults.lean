import BiomeMigration.Yaml.Document

/-
  What can be wrong with a text before its values are looked
  at. Most of it means that the text is not well-formed. The
  rest is a numbered escape beyond the last code point, a
  version of too many digits in a directive, and collections
  inside each other that are too many.

  Main declarations:
    * `Yaml.Only`
    * `Yaml.IsLexical`
    * `Yaml.isLexical_of_tokens`
    * `Yaml.IsSyntactic`
    * `Yaml.syntactic_document?`
-/

------------------------------------------------------------
-- Results and their Faults
------------------------------------------------------------

namespace BiomeMigration

namespace Yaml

variable {α β : Type}

/- A result is a success, or a fault of a kind. -/
def Only
    (P : Fault → Prop)
    (result : Except Fault α) : Prop :=
  ∀ fault, result = .error fault → P fault

namespace Only

variable {P Q : Fault → Prop} {result : Except Fault α}

theorem ok (a : α) : Only P (.ok a) := by
  intro fault hSame
  cases hSame

theorem error
    {fault : Fault}
    (hFault : P fault) :
    Only P (.error fault : Except Fault α) := by
  intro other hSame
  rw [← Except.error.inj hSame]
  exact hFault

theorem bind
    {next : α → Except Fault β}
    (hFirst : Only P result)
    (hThen : ∀ a, Only P (next a)) :
    Only P (result >>= next) := by
  intro fault hSame
  cases result with
  | error other =>
      exact hFirst fault
        (congrArg Except.error (Except.error.inj hSame))
  | ok a => exact hThen a fault hSame

theorem map
    (f : α → β)
    (hOnly : Only P result) :
    Only P (result.map f) := by
  intro fault hSame
  cases result with
  | error other =>
      exact hOnly fault
        (congrArg Except.error (Except.error.inj hSame))
  | ok a => cases hSame

theorem mono
    (hOnly : Only P result)
    (hMore : ∀ fault, P fault → Q fault) :
    Only Q result :=
  fun fault hSame => hMore fault (hOnly fault hSame)

/- A choice has the faults of its branches. -/
theorem ite
    {c : Prop}
    [Decidable c]
    {result' : Except Fault α}
    (hThen : Only P result)
    (hElse : Only P result') :
    Only P (if c then result else result') := by
  split
  · exact hThen
  · exact hElse

/- A fold over a list has the faults of its steps. -/
theorem foldlM
    {step : β → α → Except Fault β}
    (hStep : ∀ b a, Only P (step b a))
    (as : List α)
    (b : β) :
    Only P (as.foldlM step b) := by
  induction as generalizing b with
  | nil => exact ok b
  | cons a as ih =>
      rw [List.foldlM_cons]
      exact (hStep b a).bind ih

theorem mapM
    {f : α → Except Fault β}
    (hEach : ∀ a, Only P (f a))
    (as : List α) :
    Only P (as.mapM f) := by
  induction as with
  | nil => exact ok []
  | cons a as ih =>
      rw [List.mapM_cons]
      exact (hEach a).bind fun _ => ih.bind fun _ => ok _

end Only

------------------------------------------------------------
-- Faults of Lexemes
------------------------------------------------------------

/-
  The faults of the reading of tokens. A fault that is not
  about the form of the text comes with what is too much.
-/
inductive IsLexical : Fault → Prop where
  | malformed : IsLexical .malformed
  | codePoint
      {n : Nat}
      (hLarge : 0x110000 ≤ n) :
      IsLexical (.codePoint n)
  | longInteger
      {digits : Nat}
      (hLong : Digit.limit < digits) :
      IsLexical (.longInteger digits)

namespace Lexeme

theorem lexical_malformed :
    Only IsLexical (.error .malformed : Except Fault α) :=
  Only.error .malformed

theorem lexical_name (cs : List Char) :
    Only IsLexical (name cs) := by
  unfold name
  split
  · exact lexical_malformed
  · exact Only.ok _

theorem lexical_label (cs : List Char) :
    Only IsLexical (label cs) := by
  unfold label
  apply (lexical_name cs).bind
  rintro ⟨found, rest⟩
  dsimp only
  split
  · exact Only.ok _
  · exact lexical_malformed

theorem lexical_unescape (bytes : Bytes) :
    Only IsLexical (unescape bytes) := by
  unfold unescape
  cases Utf8.decode bytes with
  | error fault => exact lexical_malformed
  | ok cs => exact Only.ok _

theorem lexical_tagBodyFrom
    (bytes : Bytes)
    (cs : List Char) :
    Only IsLexical (tagBodyFrom bytes cs) := by
  fun_induction tagBodyFrom bytes cs with
  | case1 bytes a b rest x y hX hY ih => exact ih
  | case2 => exact lexical_malformed
  | case3 bytes c rest hNot ih =>
      apply (lexical_unescape bytes).bind
      intro escaped
      split
      · exact lexical_malformed
      · split
        · exact ih.bind fun _ => Only.ok _
        · exact Only.ok _
  | case4 bytes =>
      exact (lexical_unescape bytes).bind fun _ => Only.ok _

theorem lexical_tagBody (cs : List Char) :
    Only IsLexical (tagBody cs) := by
  unfold tagBody
  split
  · exact lexical_malformed
  · split
    · exact lexical_tagBodyFrom [] _
    · exact lexical_malformed

theorem lexical_handle (cs : List Char) :
    Only IsLexical (handle cs) := by
  unfold handle
  split
  · exact Only.ok _
  · split
    · exact Only.ok _
    · exact lexical_malformed

theorem lexical_tag (cs : List Char) :
    Only IsLexical (tag cs) := by
  have hEnd :
      ∀ (found : Option (List Char) × List Char)
        (rest : List Char),
        Only IsLexical
          (if endsField rest then .ok (found, rest)
            else .error .malformed) :=
    fun _ _ => .ite (Only.ok _) lexical_malformed
  unfold tag
  split
  · apply (lexical_tagBody _).bind
    rintro ⟨body, rest⟩
    dsimp only
    split
    · exact hEnd _ _
    · exact lexical_malformed
  · apply Only.ite
    · exact hEnd _ _
    · apply Only.ite
      · exact (lexical_handle _).bind fun _ =>
          (lexical_tagBody _).bind fun _ => hEnd _ _
      · exact (lexical_tagBody _).bind fun _ => hEnd _ _

theorem lexical_lineEnd (cs : List Char) :
    Only IsLexical (lineEnd cs) := by
  unfold lineEnd
  dsimp only
  split
  · exact Only.ok _
  · exact lexical_malformed

theorem lexical_decimal (cs : List Char) :
    Only IsLexical (decimal cs) := by
  unfold decimal
  split
  · exact lexical_malformed
  · dsimp only
    split
    · next hLong => exact Only.error (.longInteger hLong)
    · exact Only.ok _

theorem lexical_version (cs : List Char) :
    Only IsLexical (version cs) := by
  unfold version
  apply (lexical_decimal _).bind
  rintro ⟨major, rest⟩
  dsimp only
  split
  · apply (lexical_decimal _).bind
    rintro ⟨minor, rest⟩
    dsimp only
    split
    · exact Only.ok _
    · exact lexical_malformed
  · exact lexical_malformed

theorem lexical_shorthand (cs : List Char) :
    Only IsLexical (shorthand cs) := by
  unfold shorthand
  split
  · apply (lexical_handle _).bind
    rintro ⟨handle, rest⟩
    dsimp only
    split
    · exact lexical_malformed
    · apply (lexical_tagBody _).bind
      rintro ⟨lead, rest⟩
      dsimp only
      split
      · exact Only.ok _
      · exact lexical_malformed
  · exact lexical_malformed

theorem lexical_directive (cs : List Char) :
    Only IsLexical (directive cs) := by
  have hEnd :
      ∀ found : Found Directive,
        Only IsLexical
          (lineEnd found.2 >>= fun rest => pure (found.1, rest)) :=
    fun found => (lexical_lineEnd found.2).bind fun _ => Only.ok _
  unfold directive
  apply (lexical_name cs).bind
  rintro ⟨word, rest⟩
  dsimp only
  exact .ite lexical_malformed <|
    .ite ((lexical_version rest).bind hEnd) <|
    .ite ((lexical_shorthand rest).bind hEnd) (hEnd _)

theorem lexical_increment (cs : List Char) :
    Only IsLexical (Block.increment cs) := by
  unfold Block.increment
  split
  · exact lexical_malformed
  · split
    · exact Only.ok _
    · exact Only.ok _
  · exact Only.ok _

theorem lexical_signs (cs : List Char) :
    Only IsLexical (Block.signs cs) := by
  unfold Block.signs
  split
  · exact (lexical_increment _).bind fun _ => Only.ok _
  · apply (lexical_increment _).bind
    rintro ⟨increment?, rest⟩
    dsimp only
    split
    · exact Only.ok _
    · exact Only.ok _

theorem lexical_block
    (fold : Bool)
    (indent : Int)
    (cs : List Char) :
    Only IsLexical (block fold indent cs) := by
  have hHeader : Only IsLexical (Block.header cs) := by
    unfold Block.header
    apply (lexical_signs cs).bind
    rintro ⟨found, rest⟩
    dsimp only
    split
    · exact (lexical_lineEnd rest).bind fun _ => Only.ok _
    · exact lexical_malformed
  exact hHeader.bind fun _ => Only.ok _

theorem lexical_afterBreak
    (first : Option Char)
    (others rest : List Char) :
    Only IsLexical (Quote.afterBreak first others rest) := by
  unfold Quote.afterBreak
  split
  · exact lexical_malformed
  · exact Only.ok _

theorem lexical_textStep
    (q : Quote)
    (c : Char)
    (rest : List Char) :
    Only IsLexical (q.textStep c rest) := by
  unfold Quote.textStep
  split
  · exact Only.ok _
  · split
    · exact (lexical_afterBreak _ _ _).map _
    · repeat' split
      all_goals exact Only.ok _

theorem lexical_escapeStep
    (c : Char)
    (rest : List Char) :
    Only IsLexical (Quote.escapeStep c rest) := by
  unfold Quote.escapeStep
  split
  · exact Only.ok _
  · exact Only.ok _
  · split
    · exact (lexical_afterBreak _ _ _).map _
    · exact lexical_malformed

theorem lexical_digitStep
    (left value : Nat)
    (c : Char) :
    Only IsLexical (Quote.digitStep left value c) := by
  unfold Quote.digitStep
  split
  · exact lexical_malformed
  · dsimp only
    split
    · split
      · exact Only.ok _
      · next hLarge =>
          exact Only.error (.codePoint (Nat.not_lt.mp hLarge))
    · exact Only.ok _

theorem lexical_step
    (q : Quote)
    (stage : Quote.Stage)
    (c : Char)
    (rest : List Char) :
    Only IsLexical (q.step stage c rest) := by
  cases stage with
  | text => exact lexical_textStep q c rest
  | blanks pending =>
      unfold Quote.step
      dsimp only
      split
      · exact Only.ok _
      · split
        · exact lexical_textStep q c rest
        · exact (lexical_textStep q c rest).bind fun _ => Only.ok _
  | breaks first others =>
      unfold Quote.step
      dsimp only
      split
      · exact Only.ok _
      · split
        · exact (lexical_afterBreak _ _ _).map _
        · exact (lexical_textStep q c rest).bind fun _ => Only.ok _
  | quote =>
      unfold Quote.step
      dsimp only
      split
      · exact Only.ok _
      · exact Only.ok _
  | escape => exact lexical_escapeStep c rest
  | digits left value => exact lexical_digitStep left value c

theorem lexical_quoted
    (q : Quote)
    (cs : List Char) :
    Only IsLexical (quoted q cs) := by
  have hFrom :
      ∀ stage, Only IsLexical (quotedFrom q stage cs) := by
    induction cs with
    | nil =>
        intro stage
        unfold quotedFrom
        split
        · exact Only.ok _
        · exact lexical_malformed
    | cons c rest ih =>
        intro stage
        unfold quotedFrom
        apply (lexical_step q stage c rest).bind
        rintro ⟨t, turn⟩
        cases turn with
        | goOn next => exact (ih next).bind fun _ => Only.ok _
        | endAfter => exact Only.ok _
        | endBefore => exact Only.ok _
  exact hFrom .text

end Lexeme

------------------------------------------------------------
-- Faults of Tokens
------------------------------------------------------------

namespace Layout

open Lexeme

theorem lexical_dropStale (l : Layout) :
    Only IsLexical l.dropStale := by
  unfold dropStale
  dsimp only
  split
  · exact lexical_malformed
  · exact Only.ok _

theorem lexical_dropCandidate (l : Layout) :
    Only IsLexical l.dropCandidate := by
  unfold dropCandidate
  split
  · exact lexical_malformed
  · exact Only.ok _

theorem lexical_noteCandidate (l : Layout) :
    Only IsLexical l.noteCandidate := by
  unfold noteCandidate
  split
  · exact Only.ok _
  · exact (lexical_dropCandidate l).bind fun _ => Only.ok _

theorem lexical_sign
    (l : Layout)
    (block token : Token)
    (keyAllowed : Bool) :
    Only IsLexical (l.sign block token keyAllowed) := by
  unfold sign
  split
  · exact lexical_malformed
  · exact (lexical_dropCandidate _).bind fun _ => Only.ok _

theorem lexical_part
    (l : Layout)
    {found : Except Fault (Found Token)}
    (hFound : Only IsLexical found) :
    Only IsLexical (l.part found) :=
  (lexical_noteCandidate l).bind fun _ =>
    hFound.bind fun _ => Only.ok _

theorem lexical_directive (l : Layout) :
    Only IsLexical l.directive :=
  (lexical_dropCandidate _).bind fun _ =>
    (Lexeme.lexical_directive _).bind fun _ => Only.ok _

theorem lexical_block
    (l : Layout)
    (fold : Bool) :
    Only IsLexical (l.block fold) :=
  (lexical_dropCandidate _).bind fun _ =>
    (Lexeme.lexical_block _ _ _).bind fun _ => Only.ok _

theorem lexical_value (l : Layout) :
    Only IsLexical l.value := by
  unfold value
  split
  · exact Only.ok _
  · exact lexical_sign _ _ _ _

/- One token, by the character that it starts with. -/
theorem lexical_tokenAt
    (l : Layout)
    (c : Char)
    (rest : List Char) :
    Only IsLexical (l.tokenAt c rest) := by
  have hBracket : ∀ token, Only IsLexical (l.openBracket token) :=
    fun _ => (lexical_noteCandidate l).bind fun _ => Only.ok _
  have hClosing : ∀ token, Only IsLexical (l.closeBracket token) :=
    fun _ => (lexical_dropCandidate l).bind fun _ => Only.ok _
  have hMarker : ∀ token, Only IsLexical (l.marker token) :=
    fun _ => (lexical_dropCandidate _).bind fun _ => Only.ok _
  have hComma : Only IsLexical l.comma :=
    (lexical_dropCandidate _).bind fun _ => Only.ok _
  have hPlain : Only IsLexical l.plain :=
    (lexical_part _ (Only.ok _)).bind fun _ => Only.ok _
  have hQuoted :
      ∀ q, Only IsLexical
        (l.part (found (.scalar false) (quoted q rest))) :=
    fun q => lexical_part _ ((lexical_quoted q rest).map _)
  unfold tokenAt
  exact .ite (lexical_directive l) <|
    .ite (hMarker _) <|
    .ite (hBracket _) <|
    .ite (hBracket _) <|
    .ite (hClosing _) <|
    .ite (hClosing _) <|
    .ite hComma <|
    .ite (lexical_sign _ _ _ _) <|
    .ite (lexical_sign _ _ _ _) <|
    .ite (lexical_value l) <|
    .ite (lexical_part _ ((lexical_label rest).map _)) <|
    .ite (lexical_part _ ((lexical_label rest).map _)) <|
    .ite (lexical_part _ ((lexical_tag rest).map _)) <|
    .ite (lexical_block l false) <|
    .ite (lexical_block l true) <|
    .ite (hQuoted .single) <|
    .ite (hQuoted .double) <|
    .ite hPlain lexical_malformed

theorem lexical_next (l : Layout) :
    Only IsLexical l.next := by
  unfold next
  apply (lexical_dropStale _).bind
  intro fresh
  dsimp only
  split
  · exact (lexical_dropCandidate _).bind fun _ => Only.ok _
  · exact lexical_tokenAt _ _ _

end Layout

/- The fault in a text, if its tokens end with one. -/
theorem isLexical_of_tokens
    {cs : List Char}
    {fault : Fault}
    (hFault : (tokens cs).fault? = some fault) :
    IsLexical fault := by
  have hFrom :
      ∀ count l, (tokensFrom l count).fault? = some fault →
        IsLexical fault := by
    intro count
    induction count with
    | zero =>
        intro l hSome
        cases hSome
    | succ count ih =>
        intro l hSome
        unfold tokensFrom at hSome
        split at hSome
        · next other hStale =>
            rw [← Option.some.inj hSome]
            exact Layout.lexical_dropStale l other hStale
        · next fresh _ =>
            split at hSome
            · next other hNext =>
                rw [← Option.some.inj hSome]
                exact Layout.lexical_next fresh other hNext
            · split at hSome
              · cases hSome
              · exact ih _ hSome
  unfold tokens at hFault
  split at hFault
  · exact hFrom _ _ hFault
  · rw [← Option.some.inj hFault]
    exact .malformed

------------------------------------------------------------
-- Faults of Documents
------------------------------------------------------------

/- The faults of the reading of a document. -/
inductive IsSyntactic : Fault → Prop where
  | lexical
      {fault : Fault}
      (hLexical : IsLexical fault) :
      IsSyntactic fault
  | tooDeep : IsSyntactic .tooDeep

namespace Reading

theorem syntactic_malformed :
    Only IsSyntactic (.error .malformed : Except Fault α) :=
  Only.error (.lexical .malformed)

theorem syntactic_tagOf
    (r : Reading)
    (p : Properties) :
    Only IsSyntactic (r.tagOf p) := by
  unfold tagOf
  split
  · exact Only.ok _
  · apply Only.map
    unfold tagName
    split
    · exact Only.ok _
    · split
      · exact Only.ok _
      · exact syntactic_malformed

theorem syntactic_anchored
    (r : Reading)
    (anchor? : Option (List Char))
    (node : Node) :
    Only IsSyntactic (r.anchored anchor? node) := by
  unfold anchored
  dsimp only
  split
  · exact Only.ok _
  · split
    · exact syntactic_malformed
    · exact Only.ok _

theorem syntactic_scalar
    (r : Reading)
    (p : Properties)
    (plain : Bool)
    (content : Text) :
    Only IsSyntactic (r.scalar p plain content) :=
  (syntactic_tagOf r p).bind fun _ =>
    (syntactic_anchored r _ _).bind fun _ => Only.ok _

theorem syntactic_collection
    (r : Reading)
    (p : Properties)
    (usual : Tag)
    (frame : Mark → Frame)
    (stage : Stage) :
    Only IsSyntactic (r.collection p usual frame stage) := by
  unfold collection
  split
  · exact Only.error .tooDeep
  · exact (syntactic_tagOf r p).bind fun _ =>
      (syntactic_anchored r _ _).bind fun _ => Only.ok _

theorem syntactic_leaveEmpty
    (r : Reading)
    (p : Properties) :
    Only IsSyntactic (r.leaveEmpty p) := by
  unfold leaveEmpty
  split
  · exact syntactic_malformed
  · exact (syntactic_scalar r p true []).bind fun _ => Only.ok _

theorem syntactic_nodeTurn
    (r : Reading)
    (place : Place)
    (p : Properties)
    (token : Token) :
    Only IsSyntactic (r.nodeTurn place p token) := by
  have hEmpty := syntactic_leaveEmpty r p
  have hOpen :
      ∀ usual frame stage (turn : Reading → Turn),
        Only IsSyntactic
          (r.collection p usual frame stage >>= fun r =>
            pure (turn r)) :=
    fun usual frame stage turn =>
      (syntactic_collection r p usual frame stage).bind
        fun _ => Only.ok _
  unfold nodeTurn
  dsimp only
  split
  · exact Only.ok _
  · split
    · split
      · exact hEmpty
      · split
        · exact Only.ok _
        · exact syntactic_malformed
    · split
      · exact hEmpty
      · exact Only.ok _
    · split
      · exact hEmpty
      · exact Only.ok _
    · exact (syntactic_scalar r p _ _).bind fun _ => Only.ok _
    · exact hOpen _ _ _ _
    · exact hOpen _ _ _ _
    · split
      · exact hOpen _ _ _ _
      · exact hEmpty
    · split
      · exact hOpen _ _ _ _
      · exact hEmpty
    · split
      · exact hOpen _ _ _ _
      · exact hEmpty
    · exact hEmpty

theorem syntactic_partTurn
    (r : Reading)
    (token : Token) :
    Only IsSyntactic (r.partTurn token) := by
  unfold partTurn
  split
  all_goals first | exact Only.ok _ | exact syntactic_malformed

theorem syntactic_afterTurn
    (r : Reading)
    (token : Token) :
    Only IsSyntactic (r.afterTurn token) := by
  unfold afterTurn
  split
  all_goals
    first
    | exact Only.ok _
    | exact syntactic_partTurn r _
    | exact syntactic_malformed

theorem syntactic_prologTurn
    (r : Reading)
    (handles : List (List Char × List Char))
    (versioned : Bool)
    (token : Token) :
    Only IsSyntactic (r.prologTurn handles versioned token) := by
  unfold prologTurn
  repeat' split
  all_goals first | exact Only.ok _ | exact syntactic_malformed

theorem syntactic_turn
    (r : Reading)
    (token : Token) :
    Only IsSyntactic (r.turn token) := by
  unfold turn
  split
  all_goals
    first
    | exact Only.ok _
    | exact syntactic_prologTurn r _ _ _
    | exact syntactic_nodeTurn r _ _ _
    | exact syntactic_afterTurn r _
    | exact syntactic_partTurn r _
    | exact syntactic_malformed

theorem syntactic_take
    (r : Reading)
    (token : Token) :
    Only IsSyntactic (r.take token) := by
  have hWithin :
      ∀ turns r, Only IsSyntactic (takeWithin token turns r) := by
    intro turns
    induction turns with
    | zero => exact fun _ => syntactic_malformed
    | succ turns ih =>
        intro r
        unfold takeWithin
        apply (syntactic_turn r token).bind
        intro turn
        cases turn with
        | taken r => exact Only.ok _
        | again r => exact ih r
  exact hWithin turnLimit r

end Reading

/- What keeps a text from being read as a document. -/
theorem syntactic_document?
    (room : Nat)
    (cs : List Char) :
    Only IsSyntactic (document? room cs) := by
  unfold document?
  apply (Only.foldlM Reading.syntactic_take _ _).bind
  intro r
  split
  · next fault hFault =>
      exact Only.error (.lexical (isLexical_of_tokens hFault))
  · exact Only.ok _

end Yaml

end BiomeMigration

import BiomeMigration.Session.World
import BiomeMigration.Text.Blank

/-
  This file defines questions that are answered by yes or
  no: what a line answers, and how a question is asked
  until a line answers it.

  Key definitions include:
    * `Question`
    * `Question.reading`
    * `Question.converse`
    * `Question.confirm`
-/

namespace BiomeMigration

/- A question with its default answer. -/
structure Question where
  message : String
  default : Bool
  deriving DecidableEq, Repr

namespace Question

/- The prompt of a question. -/
def prompt (q : Question) : String :=
  let hint := if q.default then "Y/n" else "y/N"
  s!"? {q.message} ({hint}) "

/- The answer that a line gives, in any letter case. -/
def reading
    (q : Question)
    (line : String) : Option Bool :=
  let word := Blank.lower (Blank.trim line.toList)
  if word == [] then some q.default
  else if word == ['y'] || word == ['y', 'e', 's'] then some true
  else if word == ['n'] || word == ['n', 'o'] then some false
  else none

/-
  The end of a conversation: the answer, unless it was
  interrupted, how often the prompt was shown, and the
  lines that are left.
-/
structure Conversation where
  answer? : Option Bool
  shown : Nat
  rest : List (Option String)
  deriving DecidableEq, Repr

/-
  Ask until a line answers. The end of the input gives the
  default answer.
-/
def converse
    (q : Question) :
    List (Option String) → Conversation
  | [] => ⟨some q.default, 1, []⟩
  | none :: rest => ⟨none, 1, rest⟩
  | some line :: rest =>
      match q.reading line with
      | some answer => ⟨some answer, 1, rest⟩
      | none =>
          let later := q.converse rest
          { later with shown := later.shown + 1 }

/- Take up the lines of a conversation, prompt by prompt. -/
def ask (q : Question) : Session Bool := do
  let talk := q.converse (← get).lines
  modify fun w =>
    { w with
      lines := talk.rest
      journal :=
        w.journal ++ List.replicate talk.shown (.ask q.prompt) }
  match talk.answer? with
  | some answer => return answer
  | none => throw .interrupted

/-
  The answer of a question. One who accepts every default
  answer is not asked.
-/
def confirm
    (q : Question)
    (assumeYes : Bool) : Session Bool :=
  if assumeYes then return q.default else q.ask

end Question

end BiomeMigration

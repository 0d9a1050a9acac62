import BiomeMigration.Proofs.Session.Deaf

/-
  Operations that report no error. What they do not listen
  to the user for is so, and so are questions; if such an
  operation fails, its failure is one that is named for its
  cause.

  Main declarations:
    * `World.Errorless`
    * `Failure.isNamed`
    * `Session.Orderly`
    * `Session.Orderly.bind`
-/

------------------------------------------------------------
-- Operations that Report no Error
------------------------------------------------------------

namespace BiomeMigration

open Session

/-
  A world has become another one with the same logger, and
  without an error being logged.
-/
structure World.Errorless (w w' : World) : Prop where
  logger : w'.logger = w.logger
  journal :
    ∃ events,
      w'.journal = w.journal ++ events ∧
        ∀ e ∈ events, e.isError = false

theorem World.Errorless.trans
    {u v w : World}
    (hFirst : u.Errorless v)
    (hSecond : v.Errorless w) :
    u.Errorless w := by
  rcases hFirst.journal with ⟨events₁, hEvents₁, hNone₁⟩
  rcases hSecond.journal with ⟨events₂, hEvents₂, hNone₂⟩
  refine ⟨hSecond.logger.trans hFirst.logger,
    events₁ ++ events₂, ?_, ?_⟩
  · rw [hEvents₂, hEvents₁, List.append_assoc]
  · intro e he
    rcases List.mem_append.mp he with hIn | hIn
    · exact hNone₁ e hIn
    · exact hNone₂ e hIn

/-
  A failure is named for its cause: a settings file that is
  not well-formed is a failure of its own.
-/
def Failure.isNamed : Failure → Bool
  | .settingsValue .malformed => false
  | _ => true

theorem Failure.isNamed_of_isOfWork
    {failure : Failure}
    (hWork : failure.isOfWork = true) :
    failure.isNamed = true := by
  unfold isNamed
  split
  · exact hWork
  · rfl

namespace Session

variable {α β : Type}

/-
  However an operation ends, no error is logged, and its
  failure is named.
-/
def Orderly (x : Session α) : Prop :=
  ∀ w result w', Ends x w result w' →
    w.Errorless w' ∧
      ∀ failure, result = .error failure →
        failure.isNamed = true

theorem orderly_of_deaf
    {x : Session α}
    (hDeaf : Deaf x) :
    Orderly x := by
  intro w result w' hEnds
  rcases hDeaf w.files w.logger with
    ⟨found, fs, events, hWork, hQuiet, hAlways⟩
  rcases hEnds.unique (hAlways w.lines w.journal) with
    ⟨rfl, rfl⟩
  exact
    ⟨⟨rfl, events, rfl, fun e he => (hQuiet e he).2⟩,
      fun failure hSame =>
        Failure.isNamed_of_isOfWork (hWork failure hSame)⟩

theorem Orderly.bind
    {x : Session α}
    {f : α → Session β}
    (hFirst : Orderly x)
    (hThen : ∀ a, Orderly (f a)) :
    Orderly (x >>= f) := by
  intro w result w' hEnds
  rcases ends_bind_iff.mp hEnds with
    ⟨failure, hFailed, rfl⟩ | ⟨a, v, hRan, hRest⟩
  · rcases hFirst w _ w' hFailed with ⟨hErrorless, hNamed⟩
    refine ⟨hErrorless, fun other hSame => hNamed other ?_⟩
    rw [Except.error.inj hSame]
  · rcases hThen a v result w' hRest with ⟨hErrorless, hNamed⟩
    exact ⟨(hFirst w _ v hRan).1.trans hErrorless, hNamed⟩

/- A question may be interrupted. -/
theorem orderly_ask (q : Question) : Orderly q.ask := by
  intro w result w' hEnds
  rcases ends_ask_iff.mp hEnds with ⟨rfl, rfl⟩
  refine ⟨⟨rfl, _, rfl, ?_⟩, ?_⟩
  · intro e he
    rw [List.eq_of_mem_replicate he]
    rfl
  · intro failure hSame
    split at hSame
    · cases hSame
    · rw [← Except.error.inj hSame]
      rfl

end Session

end BiomeMigration

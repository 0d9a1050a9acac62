import BiomeMigration.Proofs.Session.Course

/-
  What operations ensure when they succeed, and when they are
  ended by a command that has failed. Nothing is said about
  how they leave the world when they fail otherwise.

  Main declarations:
    * `Session.Lasting`
    * `Session.Ensures`
    * `Session.Ensures.bind`
    * `Session.ensures_of_keeps`
    * `Session.ensures_check`
-/

------------------------------------------------------------
-- Lasting Properties
------------------------------------------------------------

namespace BiomeMigration

namespace Session

/- A property of worlds that logging and printing keep. -/
structure Lasting (P : World → Prop) : Prop where
  record : ∀ r w, P w → P (recorded r w)
  echo :
    ∀ text w, P w →
      P { w with journal := w.journal ++ [.echo text] }

/- Nothing in particular is kept. -/
theorem steady_true : Steady fun _ _ => True where
  refl _ := trivial
  trans _ _ := trivial
  record _ _ := trivial
  echo _ _ := trivial

/- Operations may keep a lasting property. -/
theorem Lasting.steady
    {P : World → Prop}
    (hLasting : Lasting P) :
    Steady fun w w' => P w → P w' where
  refl _ hHere := hHere
  trans hFirst hSecond hHere := hSecond (hFirst hHere)
  record := hLasting.record
  echo := hLasting.echo

------------------------------------------------------------
-- Conditions before and after Operations
------------------------------------------------------------

variable {α β : Type} {P P' E E' : World → Prop}
variable {Q Q' : α → World → Prop} {x : Session α}

/-
  From worlds with one property, an operation leads to worlds
  with another one if it succeeds, and with a third one if a
  command in it fails.
-/
def Ensures
    (P : World → Prop)
    (x : Session α)
    (Q : α → World → Prop)
    (E : World → Prop) : Prop :=
  ∀ w result w', P w → Ends x w result w' →
    (∀ a, result = .ok a → Q a w') ∧
      ∀ r, result = .error (.command r) → E w'

theorem Ensures.of_runs
    (hEnsures : Ensures P x Q E)
    {w w' : World}
    {a : α}
    (hHere : P w)
    (hRuns : Runs x w a w') :
    Q a w' :=
  (hEnsures w _ w' hHere hRuns).1 a rfl

/- Less may be ensured. -/
theorem Ensures.imp
    (hEnsures : Ensures P x Q E)
    (hBefore : ∀ w, P' w → P w)
    (hAfter : ∀ a w, Q a w → Q' a w)
    (hFailed : ∀ w, E w → E' w) :
    Ensures P' x Q' E' := by
  intro w result w' hHere hEnds
  rcases hEnsures w result w' (hBefore w hHere) hEnds with
    ⟨hOk, hCommand⟩
  exact ⟨fun a hSame => hAfter a w' (hOk a hSame),
    fun r hSame => hFailed w' (hCommand r hSame)⟩

/- What is ensured first is given to the rest. -/
theorem Ensures.bind
    {f : α → Session β}
    {R : β → World → Prop}
    (hFirst : Ensures P x Q E)
    (hThen : ∀ a, Ensures (Q a) (f a) R E) :
    Ensures P (x >>= f) R E := by
  intro w result w' hHere hEnds
  rcases ends_bind_iff.mp hEnds with
    ⟨failure, hFailed, rfl⟩ | ⟨a, v, hRan, hRest⟩
  · refine ⟨fun b hSame => (by cases hSame), fun r hSame => ?_⟩
    rcases Except.error.inj hSame with rfl
    exact (hFirst w _ w' hHere hFailed).2 r rfl
  · exact hThen a v result w'
      ((hFirst w _ v hHere hRan).1 a rfl) hRest

/- A fact that goes with a property may be used, and is kept. -/
theorem Ensures.given
    {F : Prop}
    (hEnsures : F → Ensures P x Q E) :
    Ensures (fun w => P w ∧ F) x Q E := by
  intro w result w' hHere hEnds
  exact hEnsures hHere.2 w result w' hHere.1 hEnds

theorem ensures_pure
    {a : α}
    (hHere : ∀ w, P w → Q a w) :
    Ensures P (pure a) Q E := by
  intro w result w' hBefore hEnds
  rcases ends_pure_iff.mp hEnds with ⟨rfl, rfl⟩
  refine ⟨fun b hSame => ?_, fun r hSame => by cases hSame⟩
  rcases Except.ok.inj hSame with rfl
  exact hHere w' hBefore

/- A property is ensured that an operation keeps. -/
theorem ensures_of_keeps
    (hKeeps : Keeps (fun w w' => P w → P w') x) :
    Ensures P x (fun _ => P) E := by
  intro w result w' hHere hEnds
  rcases hKeeps w result w' hEnds with ⟨hKept, hOther⟩
  exact ⟨fun _ _ => hKept hHere, fun r hSame =>
    (hOther r hSame).elim⟩

/- What is ensured of each successful run of a quiet operation. -/
theorem ensures_of_runs
    (hQuiet : Keeps (fun _ _ => True) x)
    (hRuns : ∀ w a w', P w → Runs x w a w' → Q a w') :
    Ensures P x Q E := by
  intro w result w' hHere hEnds
  refine ⟨fun a hSame => ?_, fun r hSame =>
    ((hQuiet w result w' hEnds).2 r hSame).elim⟩
  rw [hSame] at hEnds
  exact hRuns w a w' hHere hEnds

/- What is looked up is told of the world as it is. -/
theorem ensures_ofFiles
    (look : FileSystem → Except PathFault α) :
    Ensures P (ofFiles look)
      (fun a w => P w ∧ look w.files = .ok a) E := by
  intro w result w' hHere hEnds
  rcases ends_ofFiles_iff.mp hEnds with ⟨hResult, rfl⟩
  refine ⟨fun a hSame => ⟨hHere, ?_⟩, fun r hSame => ?_⟩
  · rw [hSame] at hResult
    exact mapError_eq_ok_iff.mp hResult.symm
  · rw [hSame] at hEnds
    rcases (ends_ofFiles_error hEnds).1 with ⟨fault, hFault⟩
    cases hFault

theorem ensures_log
    (hLasting : Lasting P)
    (level : Level)
    (name : String)
    (message : Text) :
    Ensures P (log level name message) (fun _ => P) E :=
  ensures_of_keeps (keeps_log hLasting.steady level name message)

/-
  A command is announced in a world with a lasting property,
  and run in another one.
-/
theorem ensures_check
    (hLasting : Lasting P)
    {shell : Shell}
    {text : Text}
    {Q : World → Prop}
    (hOk :
      ∀ w r, P w → (shell text w.files).1 = .ok r → r.ok = true →
        Q (executed shell text w))
    (hFailed :
      ∀ w r, P w → (shell text w.files).1 = .ok r → r.ok = false →
        E (executed shell text w)) :
    Ensures P (check shell text) (fun _ => Q) E := by
  intro w result w' hHere hEnds
  rcases ends_check_iff.mp hEnds with ⟨rfl, rfl⟩
  have hAnnounced : P (announced text w) :=
    hLasting.record _ w hHere
  refine ⟨fun _ hSame => ?_, fun r hSame => ?_⟩
  · rcases verdict_eq_ok_iff.mp hSame with ⟨r, hRan, hResult⟩
    exact hOk _ r hAnnounced hRan hResult
  · rcases verdict_eq_command_iff.mp hSame with ⟨hRan, hResult⟩
    exact hFailed _ r hAnnounced hRan hResult

end Session

end BiomeMigration

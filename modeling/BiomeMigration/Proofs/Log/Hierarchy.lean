import BiomeMigration.Log.Hierarchy

/-
  What becomes of a record in a hierarchy of loggers. Once
  the main logger is settled, a record that comes to it is
  written to the console once, if its level passes, and goes
  no further; a logger whose name starts with no dot passes
  its records on to the main one.

  Main declarations:
    * `Logger.Settled`
    * `Logger.settled_configure`
    * `Hierarchy.Leads`
    * `Hierarchy.leads_sourceOf`
    * `Hierarchy.Leads.texts_eq`
    * `Logging.never_stacks`
-/

namespace BiomeMigration

/- The line of a record on the console, piece by piece. -/
theorem Record.consoleLine_eq
    (level : Level)
    (source : String)
    (message : Text)
    (cause? stack? : Option Text) :
    (Record.mk level source message cause? stack?).consoleLine =
      let start :=
        if level = .info ∧ cause? = none then message
        else
          Text.ofString ("[biomeup] " ++ level.name ++ " ")
            ++ message
      Record.follow (Record.follow start cause?) stack?
        ++ Text.ofString "\n" := by
  unfold consoleLine line consoleStart
  simp [rootSource, String.append_assoc]

------------------------------------------------------------
-- Settled Loggers
------------------------------------------------------------

/- A handler writes to the console. -/
def Handler.isConsole : Handler → Bool
  | .console _ => true
  | .file _ => false

/- A log file is asked for, be it without a name. -/
def LogTarget.asksForFile : LogTarget → Bool
  | .console => false
  | .nameless => true
  | .file _ => true

namespace Logger

variable {l : Logger} {verbose filed : Bool}

/-
  A logger has one handler for the console and at most one
  for a file. It passes no record on, and its threshold is
  that of its console.
-/
structure Settled
    (l : Logger)
    (verbose filed : Bool) : Prop where
  threshold : l.threshold? = some (thresholdFor verbose)
  closed : l.propagates = false
  console :
    l.handlers.filter Handler.isConsole =
      [.console (thresholdFor verbose)]
  file :
    (l.handlers.filter (!·.isConsole)).length =
      if filed then 1 else 0

theorem settled_plain (verbose : Bool) :
    (plain verbose).Settled verbose false :=
  ⟨rfl, rfl, rfl, rfl⟩

theorem settled_add_file
    (verbose : Bool)
    (loc : Location) :
    ((plain verbose).add (.file loc)).Settled verbose true :=
  ⟨rfl, rfl, rfl, rfl⟩

/-
  A logger is settled by its configuration, whatever it was,
  and also if its log file cannot be opened.
-/
theorem settled_configure
    (l : Logger)
    (verbose : Bool)
    (target : LogTarget)
    (fs : FileSystem) :
    (l.configure verbose target fs).1.Settled verbose
      (target.asksForFile &&
        (l.configure verbose target fs).2.2.isNone) := by
  rw [configure_eq]
  cases target with
  | console => exact settled_plain verbose
  | nameless => exact settled_plain verbose
  | file p =>
      dsimp only
      split
      · next loc opened _ => exact settled_add_file verbose loc
      · exact settled_plain verbose

/- Only consoles show something of a record. -/
theorem filter_handlerText
    (r : Record)
    (handlers : List Handler) :
    (handlers.map (handlerText r)).filter (!·.isEmpty) =
      ((handlers.filter Handler.isConsole).map
        (handlerText r)).filter (!·.isEmpty) := by
  induction handlers with
  | nil => rfl
  | cons handler handlers ih =>
      cases handler with
      | console threshold =>
          simp only [Handler.isConsole, List.filter_cons, if_true,
            List.map_cons, ih]
      | file loc =>
          simp only [Handler.isConsole, List.filter_cons,
            List.map_cons, handlerText, List.isEmpty_nil,
            Bool.not_true, Bool.false_eq_true, if_false, ih]

/- A line ends with a line break. -/
theorem isEmpty_line
    (r : Record)
    (start : Text) :
    (r.line start).isEmpty = false := by
  unfold Record.line
  simp [Text.ofString, Text.ofChars]

/- The one line that a settled logger shows of a record. -/
theorem Settled.filter_handlerText_eq
    (hSettled : l.Settled verbose filed)
    {r : Record}
    (hPasses : r.level.passes (thresholdFor verbose) = true) :
    (l.handlers.map (handlerText r)).filter (!·.isEmpty) =
      [r.consoleLine] := by
  have hLine : r.consoleLine.isEmpty = false := isEmpty_line r _
  rw [filter_handlerText, hSettled.console]
  simp [handlerText, hPasses, hLine]

/- What shows nothing can be left out. -/
theorem flatten_filter_not_isEmpty (texts : List Text) :
    (texts.filter (!·.isEmpty)).flatten = texts.flatten := by
  induction texts with
  | nil => rfl
  | cons text texts ih =>
      cases text with
      | nil => simpa using ih
      | cons p text => simpa using ih

/- The one line of a record, or nothing if it does not pass. -/
theorem Settled.consoleText_eq
    (hSettled : l.Settled verbose filed)
    (r : Record) :
    l.consoleText r =
      if r.level.passes (thresholdFor verbose) then r.consoleLine
      else [] := by
  unfold consoleText accepts
  rw [hSettled.threshold]
  simp only [Option.isNone_some, Bool.false_eq_true, if_false,
    Option.any_some]
  split
  · next hPasses =>
      rw [List.flatMap_def, ← flatten_filter_not_isEmpty,
        hSettled.filter_handlerText_eq hPasses]
      simp
  · rfl

theorem Settled.handlers_ne_nil
    (hSettled : l.Settled verbose filed) :
    l.handlers ≠ [] := by
  intro hNone
  have hConsole := hSettled.console
  rw [hNone] at hConsole
  cases hConsole

end Logger

------------------------------------------------------------
-- Names
------------------------------------------------------------

namespace Hierarchy

/- A logger that stands before the first dot is never missed. -/
theorem mem_namesAbove
    {isLogger : List Char → Bool}
    {back : List Char}
    (hLogger : isLogger back = true)
    (hBack : back ≠ []) :
    ∀ front : List Char, front.getLast? ≠ some '.' →
      back ∈ namesAbove isLogger (front ++ '.' :: back)
  | [], _ => by
      cases back with
      | nil => exact (hBack rfl).elim
      | cons d rest => simp [namesAbove, hLogger]
  | [c], hLast => by
      have hHere := mem_namesAbove hLogger hBack [] (by simp)
      have hOther : c ≠ '.' := by simpa using hLast
      simpa [namesAbove, hOther] using hHere
  | c :: d :: rest, hLast => by
      have hNext :=
        mem_namesAbove hLogger hBack (d :: rest)
          (by simpa using hLast)
      have hOver :=
        mem_namesAbove hLogger hBack rest (by
          cases rest with
          | nil => simp
          | cons e rest => simpa using hLast)
      simp only [List.cons_append, namesAbove] at hNext ⊢
      split
      · exact hNext
      · split
        · exact List.mem_cons_of_mem _ hNext
        · exact hOver

variable {h : Hierarchy} {source : String}
variable {verbose filed : Bool} {r : Record}

/- The loggers on the way of a record include the main one. -/
def Leads
    (h : Hierarchy)
    (source : String) : Prop :=
  Record.rootSource ∈ source :: h.ancestors source

instance (h : Hierarchy) (source : String) :
    Decidable (h.Leads source) :=
  inferInstanceAs (Decidable (_ ∈ _))

/-
  Loggers lead to the main one, whichever others there are
  and have been asked for since.
-/
theorem leads_sourceOf
    (h : Hierarchy)
    {name : String}
    (hName : name.toList.head? ≠ some '.') :
    h.Leads (Record.sourceOf name) := by
  unfold Leads Record.sourceOf
  split
  · exact List.mem_cons_self
  · apply List.mem_cons_of_mem
    let isLogger (cs : List Char) : Bool :=
      h.has (String.ofList cs.reverse)
    have hLogger :
        isLogger Record.rootSource.toList.reverse = true := by
      simp [isLogger, has]
    have hAbove :=
      mem_namesAbove hLogger (by decide) name.toList.reverse
        (by rwa [List.getLast?_reverse])
    have hChars :
        (Record.rootSource ++ "." ++ name).toList.reverse =
          name.toList.reverse ++
            '.' :: Record.rootSource.toList.reverse := by
      simp
    unfold ancestors
    dsimp only
    rw [hChars]
    exact List.mem_map.mpr ⟨_, hAbove, by simp⟩

------------------------------------------------------------
-- Ways
------------------------------------------------------------

/- Nothing but bare loggers stands before the main one. -/
theorem Leads.way_eq
    (hLeads : h.Leads source) :
    ∃ (n : Nat) (rest : List Logger),
      h.way source =
        List.replicate n .initial ++ h.main :: rest := by
  rcases List.eq_append_cons_of_mem hLeads with
    ⟨before, after, hNames, hBefore⟩
  refine ⟨before.length, after.map h.loggerOf, ?_⟩
  have hBare :
      before.map h.loggerOf =
        List.replicate before.length .initial := by
    apply List.map_eq_replicate_iff.mpr
    intro name hMem
    have hOther : name ≠ Record.rootSource :=
      fun hSame => hBefore (hSame ▸ hMem)
    simp [loggerOf, hOther]
  unfold way
  rw [hNames, List.map_append, hBare, List.map_cons]
  simp [loggerOf]

theorem findSome?_bare_append
    (n : Nat)
    (loggers : List Logger) :
    (List.replicate n Logger.initial ++ loggers).findSome?
        Logger.threshold? =
      loggers.findSome? Logger.threshold? := by
  induction n with
  | zero => rfl
  | succ n ih =>
      rw [List.replicate_succ, List.cons_append,
        List.findSome?_cons]
      exact ih

theorem carry_bare_append
    (n : Nat)
    (loggers : List Logger) :
    carry (List.replicate n .initial ++ loggers) =
      carry loggers := by
  induction n with
  | zero => rfl
  | succ n ih =>
      rw [List.replicate_succ, List.cons_append]
      simp only [carry, Logger.initial, if_true,
        List.nil_append]
      exact ih

/- A settled logger says which levels pass. -/
theorem Leads.threshold_eq
    (hLeads : h.Leads source)
    (hSettled : h.main.Settled verbose filed) :
    h.threshold source = Logger.thresholdFor verbose := by
  rcases hLeads.way_eq with ⟨n, rest, hWay⟩
  unfold threshold
  rw [hWay, findSome?_bare_append]
  simp [hSettled.threshold]

/- A settled logger is the last that a record comes to. -/
theorem Leads.carry_way
    (hLeads : h.Leads source)
    (hSettled : h.main.Settled verbose filed) :
    carry (h.way source) = (h.main.handlers, false) := by
  rcases hLeads.way_eq with ⟨n, rest, hWay⟩
  rw [hWay, carry_bare_append]
  simp [carry, hSettled.closed]

/- A record is shown once, or not at all. -/
theorem Leads.texts_eq
    (hLeads : h.Leads r.source)
    (hSettled : h.main.Settled verbose filed) :
    h.texts r =
      if r.level.passes (Logger.thresholdFor verbose) then
        [r.consoleLine]
      else [] := by
  have hSome : h.main.handlers.isEmpty = false := by
    simpa using hSettled.handlers_ne_nil
  unfold texts
  rw [hLeads.threshold_eq hSettled, hLeads.carry_way hSettled]
  split
  · next hPasses =>
      simp only [hSome, Bool.false_and, Bool.false_eq_true,
        if_false, List.map_nil, List.append_nil]
      exact hSettled.filter_handlerText_eq hPasses
  · rfl

end Hierarchy

------------------------------------------------------------
-- Histories
------------------------------------------------------------

/- A call configures the main logger. -/
def LogCall.configures : LogCall → Bool
  | .configure _ _ => true
  | .obtain _ => false
  | .log _ _ _ _ _ _ => false

namespace Logging

theorem main_after
    (s : Logging)
    {call : LogCall}
    (hOther : call.configures = false) :
    (s.after call).loggers.main = s.loggers.main := by
  cases call with
  | configure verbose target => cases hOther
  | obtain name => rfl
  | log name level message args cause? stack? =>
      simp only [after, log]
      split
      · rfl
      · rfl

/- Only its configuration touches the main logger. -/
theorem main_run
    (s : Logging)
    {calls : List LogCall}
    (hOthers : ∀ call ∈ calls, call.configures = false) :
    (s.run calls).loggers.main = s.loggers.main := by
  induction calls generalizing s with
  | nil => rfl
  | cons call calls ih =>
      have hRest :=
        ih (s.after call) fun other hMem =>
          hOthers other (List.mem_cons_of_mem _ hMem)
      exact hRest.trans
        (main_after s (hOthers call List.mem_cons_self))

/- A configuration settles the main logger. -/
theorem settled_configure
    (s : Logging)
    (verbose : Bool)
    (target : LogTarget) :
    (s.configure verbose target).1.loggers.main.Settled verbose
      (target.asksForFile &&
        (s.configure verbose target).2.isNone) :=
  Logger.settled_configure s.loggers.main verbose target s.files

/-
  Handlers never stack. Whatever loggers there were and what
  has been done with them, a configuration that succeeds or
  fails settles the main one, and it stays settled until the
  next. From then on every message whose arguments fit, of
  any logger that leads to the main one, is shown exactly
  once if its level passes, and not at all if not: bare for
  progress without a cause, and behind a mark of the level
  else, with the cause and the calls behind it, if they are
  given.
-/
theorem never_stacks
    (s : Logging)
    (earlier later : List LogCall)
    (verbose : Bool)
    (target : LogTarget)
    (hLater : ∀ call ∈ later, call.configures = false) :
    let configured := (s.run earlier).configure verbose target
    let t := configured.1.run later
    configured.1.loggers.main.Settled verbose
        (target.asksForFile && configured.2.isNone) ∧
      t.loggers.main = configured.1.loggers.main ∧
      (∀ name : String, name.toList.head? ≠ some '.' →
        t.loggers.Leads (Record.sourceOf name)) ∧
      ∀ name level message args cause? stack? filled,
        (t.obtain name).loggers.Leads (Record.sourceOf name) →
        args.fill? message = some filled →
        let start :=
          if level = .info ∧ cause? = none then filled
          else
            Text.ofString ("[biomeup] " ++ level.name ++ " ")
              ++ filled
        (t.log name level message args cause? stack?).2 =
          if level.passes (Logger.thresholdFor verbose) then
            [Record.follow (Record.follow start cause?) stack?
              ++ Text.ofString "\n"]
          else [] := by
  intro configured t
  have hSettled :=
    settled_configure (s.run earlier) verbose target
  have hMain : t.loggers.main = configured.1.loggers.main :=
    main_run configured.1 hLater
  refine ⟨hSettled, hMain,
    fun name hName => t.loggers.leads_sourceOf hName, ?_⟩
  intro name level message args cause? stack? filled hLeads hFill
  let r : Record :=
    ⟨level, Record.sourceOf name, filled, cause?, stack?⟩
  have hShown :
      (t.log name level message args cause? stack?).2 =
        (t.obtain name).loggers.texts r := by
    unfold log
    rw [hFill]
  rw [hShown, Hierarchy.Leads.texts_eq (r := r) hLeads
    (hMain ▸ hSettled), Record.consoleLine_eq]

------------------------------------------------------------
-- A Log File That Cannot Be Opened
------------------------------------------------------------

/-
  The working directory is empty, and the main logger is not
  configured.
-/
def emptyProject : Logging :=
  .initial
    { root := .directory [("project", .directory [])]
      working := ["project"]
      home := ⟨.root, []⟩
      homes := []
      opened := [] }

/- A log file in a directory that there is not. -/
def missingLog : LogTarget :=
  .file ⟨.working, ["logs", "run.log"]⟩

/- A line on an error that ends with a line break. -/
def failedText : Text :=
  Text.ofString "Failed\n"

/- No arguments. -/
def noArguments : Message.Arguments :=
  .values 100 []

/-
  A log file is opened, then another one that cannot be. A
  warning of a logger with arguments is still shown once,
  and so is an error with its cause, which needs no further
  line break, and progress with the calls that led to it;
  progress that needs a verbose logger is not shown.
-/
theorem never_stacks_missingLog :
    let configured :=
      (emptyProject.run
          [.configure true (.file ⟨.working, ["run.log"]⟩),
            .log "scrubber.tree" .info (Text.ofString "Done")
              noArguments none none]).configure
        false missingLog
    let t :=
      configured.1.run
        [.obtain "scrubber",
          .log "" .error failedText noArguments none none]
    configured.2.isNone = false ∧
      configured.1.loggers.main.Settled false false ∧
      (t.log "scrubber.tree" .warning
          (Text.ofString "%d%% of %s")
          (.values 100 [.int 50, .string (Text.ofString "it")])
          none none).2 =
        [Text.ofString "[biomeup] WARNING 50% of it\n"] ∧
      (t.log "" .error failedText noArguments
          (some (Text.ofString "OSError")) none).2 =
        [Text.ofString "[biomeup] ERROR Failed\nOSError\n"] ∧
      (t.log "" .info (Text.ofString "Done") noArguments none
          (some (Text.ofString "Stack"))).2 =
        [Text.ofString "Done\nStack\n"] ∧
      (t.log "" .debug (Text.ofString "Done") noArguments none
          none).2 =
        [] := by
  have hFault :
      ((emptyProject.run
          [.configure true (.file ⟨.working, ["run.log"]⟩),
            .log "scrubber.tree" .info (Text.ofString "Done")
              noArguments none none]).configure
        false missingLog).2.isNone = false := by
    decide +kernel
  rcases never_stacks emptyProject
      [.configure true (.file ⟨.working, ["run.log"]⟩),
        .log "scrubber.tree" .info (Text.ofString "Done")
          noArguments none none]
      [.obtain "scrubber",
        .log "" .error failedText noArguments none none]
      false missingLog (by decide) with
    ⟨hSettled, _, hLeads, hShown⟩
  rw [hFault] at hSettled
  refine ⟨hFault, hSettled, ?_, ?_, ?_, ?_⟩
  · exact hShown "scrubber.tree" .warning
      (Text.ofString "%d%% of %s")
      (.values 100 [.int 50, .string (Text.ofString "it")])
      none none (Text.ofString "50% of it")
      (Hierarchy.leads_sourceOf _ (by decide)) (by decide +kernel)
  · exact hShown "" .error failedText noArguments
      (some (Text.ofString "OSError")) none failedText
      (Hierarchy.leads_sourceOf _ (by decide)) rfl
  · exact hShown "" .info (Text.ofString "Done") noArguments none
      (some (Text.ofString "Stack")) (Text.ofString "Done")
      (Hierarchy.leads_sourceOf _ (by decide)) rfl
  · exact hShown "" .debug (Text.ofString "Done") noArguments none
      none (Text.ofString "Done")
      (Hierarchy.leads_sourceOf _ (by decide)) rfl

end Logging

end BiomeMigration

import BiomeMigration.Proofs.Package.Removal

/-
  The two edits of a manifest: the settings of the old tools
  are taken out, and scripts are put in. Neither one meets
  what the other one touches, a second time changes nothing,
  and everything else stays, in its order.

  Main declarations:
    * `Members.keys_insertAll`
    * `Members.Extends`
    * `Manager.Calls`
    * `Manifest.withoutLegacySettings_withScripts`
    * `Manifest.edits_touch_targets`
-/

------------------------------------------------------------
-- Members in Their Order
------------------------------------------------------------

namespace BiomeMigration

namespace Members

variable {ms news : Members} {key other : Text} {v : Json}

/- A key is set wherever another one has been removed. -/
theorem erase_insert_comm
    (hOther : key ≠ other)
    (ms : Members)
    (v : Json) :
    erase (insert ms key v) other =
      insert (erase ms other) key v := by
  induction ms with
  | nil => simp [insert, erase, hOther]
  | cons m ms ih =>
      rcases m with ⟨k, w⟩
      unfold erase at ih ⊢
      rw [insert]
      by_cases hKey : k = key
      · rw [if_pos hKey, hKey]
        simp [insert, hOther]
      · rw [if_neg hKey, List.filter_cons, List.filter_cons,
          ih]
        split
        · rw [insert, if_neg hKey]
        · rfl

theorem filter_insertAll
    (keeps : Text → Bool)
    (hNews : ∀ m ∈ news, keeps m.1 = false)
    (ms : Members) :
    (insertAll ms news).filter (fun m => keeps m.1) =
      ms.filter fun m => keeps m.1 := by
  induction news generalizing ms with
  | nil => rfl
  | cons new news ih =>
      have hRest := ih
        (fun m hm => hNews m (List.mem_cons_of_mem new hm))
        (insert ms new.1 new.2)
      exact hRest.trans
        (filter_insert keeps (hNews new List.mem_cons_self) ms
          new.2)

/- Keys that are new come to the end, in their order. -/
theorem keys_insertAll
    (hUnique : (keys news).Nodup)
    (ms : Members) :
    keys (insertAll ms news) =
      keys ms ++ (keys news).filter (· ∉ keys ms) := by
  induction news generalizing ms with
  | nil => exact (List.append_nil _).symm
  | cons new news ih =>
      have hNews : keys (new :: news) = new.1 :: keys news := rfl
      rw [hNews, List.nodup_cons] at hUnique
      have hRest := ih hUnique.2 (insert ms new.1 new.2)
      have hKeys := keys_insert ms new.1 new.2
      refine hRest.trans ?_
      rw [hNews, List.filter_cons]
      by_cases hOld : new.1 ∈ keys ms
      · rw [hKeys, if_pos hOld, if_neg (by simpa using hOld)]
      · rw [hKeys, if_neg hOld, if_pos (by simpa using hOld),
          List.append_assoc]
        apply congrArg (keys ms ++ new.1 :: ·)
        apply List.filter_congr
        intro k hk
        have hNe : k ≠ new.1 := by
          rintro rfl
          exact hUnique.1 hk
        simp [hNe]

/-
  Members have been set: each has its value, keys that were
  there keep their place, new ones follow in their order, and
  the members of other keys are as they were.
-/
structure Extends (ms news ms' : Members) : Prop where
  set : ∀ m ∈ news, get? ms' m.1 = some m.2
  order :
    keys ms' = keys ms ++ (keys news).filter (· ∉ keys ms)
  others :
    ms'.filter (·.1 ∉ keys news) = ms.filter (·.1 ∉ keys news)

theorem extends_insertAll
    (hUnique : (keys news).Nodup)
    (ms : Members) :
    Extends ms news (insertAll ms news) where
  set _ hm := get?_insertAll_of_mem hUnique hm
  order := keys_insertAll hUnique ms
  others := by
    have hKeys :
        ∀ m ∈ news, decide (m.1 ∉ keys news) = false := by
      intro m hm
      have hKey : m.1 ∈ keys news := List.mem_map_of_mem hm
      simpa using hKey
    exact filter_insertAll (· ∉ keys news) hKeys ms

theorem Extends.mem_keys
    {ms' : Members}
    (hExtends : Extends ms news ms')
    (hKey : key ∈ keys news) :
    key ∈ keys ms' := by
  rw [hExtends.order, List.mem_append, List.mem_filter]
  by_cases hOld : key ∈ keys ms
  · exact Or.inl hOld
  · exact Or.inr ⟨hKey, by simpa using hOld⟩

end Members

------------------------------------------------------------
-- Scripts that Call Scripts
------------------------------------------------------------

namespace Manager

/- The words of a command. -/
def words (command : String) : List String :=
  (command.toList.splitOn ' ').map String.ofList

theorem words_append (front back : String) :
    words (front ++ " " ++ back) = words front ++ words back := by
  unfold words
  have hBlank : " ".toList = [' '] := rfl
  rw [String.toList_append, String.toList_append, hBlank,
    List.append_assoc, List.singleton_append,
    List.splitOn_append_cons_self, List.map_append]

/- The words of the verb that runs scripts. -/
def runWords : Manager → List String
  | .pnpm => ["pnpm"]
  | .yarn => ["yarn"]
  | .bun => ["bun", "run"]
  | .npm => ["npm", "run"]

theorem words_runVerb (m : Manager) :
    words m.runVerb = m.runWords := by
  cases m <;> decide +kernel

/-
  A command calls a script: somewhere in it the name of the
  script stands behind the verb that runs scripts.
-/
def Calls
    (m : Manager)
    (command script : String) : Prop :=
  ∃ front back,
    words command = front ++ words m.runVerb ++ script :: back

/- A command that goes on with a script that is run. -/
theorem words_run
    (m : Manager)
    (front script : String) :
    words (front ++ " && " ++ m.run script) =
      words front ++ ["&&"] ++ words m.runVerb ++
        words script := by
  have hParts :
      front ++ " && " ++ m.run script =
        front ++ " " ++
          ("&&" ++ " " ++ (m.runVerb ++ " " ++ script)) := by
    unfold run
    simp only [String.append_assoc]
    rfl
  have hAnd : words "&&" = ["&&"] := by
    decide +kernel
  rw [hParts, words_append, words_append, words_append, hAnd]
  simp

/- The words of a list that stand behind a verb. -/
def behind (verb words : List String) : List String :=
  words.tails.filterMap fun rest =>
    if verb <+: rest then (rest.drop verb.length).head?
    else none

theorem mem_behind_of_calls
    {m : Manager}
    {command script : String}
    (hCalls : m.Calls command script) :
    script ∈ behind m.runWords (words command) := by
  rcases hCalls with ⟨front, back, hWords⟩
  rw [words_runVerb] at hWords
  apply List.mem_filterMap.mpr
  refine ⟨m.runWords ++ script :: back, ?_, ?_⟩
  · rw [List.mem_tails, hWords, List.append_assoc]
    exact List.suffix_append front _
  · rw [if_pos (List.prefix_append _ _), List.drop_left]
    rfl

end Manager

------------------------------------------------------------
-- The Edits
------------------------------------------------------------

namespace Manifest

variable {m : Manifest}

/- The members that scripts are written as. -/
def scriptMembers (added : List (String × String)) : Members :=
  added.map fun x => (Text.ofString x.1, .ofString x.2)

theorem keys_scriptMembers (added : List (String × String)) :
    Members.keys (scriptMembers added) =
      (added.map Prod.fst).map Text.ofString := by
  unfold Members.keys scriptMembers
  rw [List.map_map, List.map_map]
  rfl

/- The names of the scripts that a migration adds, in order. -/
def scriptNames (typescript : Bool) : List String :=
  if typescript then ["type-check", "lint", "lint:fix"]
  else ["lint", "lint:fix"]

theorem map_fst_scripts
    (manager : Manager)
    (typescript : Bool) :
    (scripts manager typescript).map Prod.fst =
      scriptNames typescript := by
  cases typescript <;> rfl

theorem words_lintScript :
    Manager.words lintScript =
      ["biome", "lint", "--diagnostic-level=error",
        "--no-errors-on-unmatched"] := by
  decide +kernel

theorem words_lintFixScript :
    Manager.words lintFixScript =
      ["biome", "check", "--write", "--unsafe"] := by
  decide +kernel

theorem words_typeCheckScript :
    Manager.words typeCheckScript =
      ["tsc", "-b", "--noEmit"] := by
  decide +kernel

theorem words_typeCheck :
    Manager.words "type-check" = ["type-check"] := by
  decide +kernel

/- The commands of the added scripts, by their words. -/
theorem words_scripts
    {manager : Manager}
    {typescript : Bool}
    {x : String × String}
    (hAdded : x ∈ scripts manager typescript) :
    ∃ front ∈ [lintScript, lintFixScript, typeCheckScript],
      Manager.words x.2 = Manager.words front ∨
        typescript = true ∧
          Manager.words x.2 =
            Manager.words front ++ ["&&"] ++
              Manager.words manager.runVerb ++
              ["type-check"] := by
  unfold scripts at hAdded
  cases typescript with
  | false =>
      simp only [Bool.false_eq_true, if_false, List.mem_cons,
        List.not_mem_nil, or_false] at hAdded
      rcases hAdded with rfl | rfl
      · exact ⟨lintScript, by simp, Or.inl rfl⟩
      · exact ⟨lintFixScript, by simp, Or.inl rfl⟩
  | true =>
      simp only [if_true, List.mem_cons, List.not_mem_nil,
        or_false, ← String.append_assoc] at hAdded
      rw [← words_typeCheck]
      rcases hAdded with rfl | rfl | rfl
      · exact ⟨typeCheckScript, by simp, Or.inl rfl⟩
      · exact ⟨lintScript, by simp,
          Or.inr ⟨rfl, manager.words_run _ _⟩⟩
      · exact ⟨lintFixScript, by simp,
          Or.inr ⟨rfl, manager.words_run _ _⟩⟩

/- The one script that the commands may call is the check. -/
theorem behind_runWords
    {front : String}
    (hFront :
      front ∈ [lintScript, lintFixScript, typeCheckScript])
    (manager : Manager) :
    Manager.behind manager.runWords (Manager.words front) = [] ∧
      Manager.behind manager.runWords
          (Manager.words front ++ ["&&"] ++
            manager.runWords ++ ["type-check"]) =
        ["type-check"] := by
  simp only [List.mem_cons, List.not_mem_nil, or_false]
    at hFront
  rcases hFront with rfl | rfl | rfl
  · rw [words_lintScript]
    cases manager <;> decide
  · rw [words_lintFixScript]
    cases manager <;> decide
  · rw [words_typeCheckScript]
    cases manager <;> decide

/- Scripts that are called are added as well. -/
theorem mem_scriptNames_of_calls
    {manager : Manager}
    {typescript : Bool}
    {x : String × String}
    (hAdded : x ∈ scripts manager typescript)
    {called : String}
    (hCalls : manager.Calls x.2 called) :
    called ∈ scriptNames typescript := by
  have hBehind := Manager.mem_behind_of_calls hCalls
  rcases words_scripts hAdded with
    ⟨front, hFront, hWords | ⟨rfl, hWords⟩⟩
  · rw [hWords, (behind_runWords hFront manager).1] at hBehind
    cases hBehind
  · rw [hWords, Manager.words_runVerb,
      (behind_runWords hFront manager).2, List.mem_singleton]
      at hBehind
    rw [hBehind]
    decide

theorem withoutLegacySettings_eq_filter (m : Manifest) :
    m.withoutLegacySettings =
      m.filter (·.1 ∉ legacyFields.map Text.ofString) := by
  unfold withoutLegacySettings legacyFields Members.erase
  rw [List.foldl_cons, List.foldl_cons, List.foldl_nil,
    List.filter_filter]
  apply List.filter_congr
  intro x _
  simp [Bool.and_comm]

/- The scripts are no setting of the old tools. -/
theorem withoutLegacySettings_withScripts
    (m : Manifest)
    (added : List (String × String)) :
    (m.withScripts added).withoutLegacySettings =
      m.withoutLegacySettings.withScripts added := by
  have hScripts :
      m.withoutLegacySettings.currentScripts =
        m.currentScripts := by
    unfold currentScripts
    rw [get?_withoutLegacySettings m (by decide)]
  unfold withScripts
  rw [hScripts]
  unfold withoutLegacySettings legacyFields
  simp only [List.foldl_cons, List.foldl_nil]
  rw [Members.erase_insert_comm (by decide),
    Members.erase_insert_comm (by decide)]

theorem withoutLegacySettings_idem (m : Manifest) :
    m.withoutLegacySettings.withoutLegacySettings =
      m.withoutLegacySettings := by
  rw [withoutLegacySettings_eq_filter,
    withoutLegacySettings_eq_filter, List.filter_filter]
  simp only [Bool.and_self]

/- The scripts of a manifest get the added ones. -/
theorem extends_withScripts
    (m : Manifest)
    {added : List (String × String)}
    (hUnique : (added.map Prod.fst).Nodup) :
    ∃ written,
      Members.Extends m
          [(Text.ofString "scripts", .object written)]
          (m.withScripts added) ∧
        Members.Extends m.currentScripts (scriptMembers added)
          written := by
  refine ⟨Members.insertAll m.currentScripts
    (scriptMembers added), ?_, ?_⟩
  · exact Members.extends_insertAll (by simp [Members.keys]) m
  · apply Members.extends_insertAll
    rw [keys_scriptMembers]
    exact hUnique.map fun _ _ => Text.ofString_injective

/- Where types are checked, both lint scripts call the check. -/
theorem calls_typeCheck
    (manager : Manager)
    {x : String × String}
    (hAdded : x ∈ scripts manager true)
    (hLint : x.1 ≠ "type-check") :
    manager.Calls x.2 "type-check" := by
  have hCalls :
      ∀ front : String,
        manager.Calls
          (front ++ " && " ++ manager.run "type-check")
          "type-check" := by
    intro front
    refine ⟨Manager.words front ++ ["&&"], [], ?_⟩
    rw [manager.words_run, words_typeCheck]
  unfold scripts at hAdded
  simp only [if_true, List.mem_cons, List.not_mem_nil,
    or_false, ← String.append_assoc] at hAdded
  rcases hAdded with rfl | rfl | rfl
  · exact (hLint rfl).elim
  · exact hCalls lintScript
  · exact hCalls lintFixScript

/- Two manifests that list the same packages. -/
structure SamePackages (m m' : Manifest) : Prop where
  dependencies : m'.dependencies = m.dependencies
  legacy : Legacy.packages m' = Legacy.packages m
  archetype : Archetype.ofManifest m' = Archetype.ofManifest m
  has :
    ∀ package,
      m'.hasDependency package = m.hasDependency package

theorem samePackages_of_dependencies
    {m' : Manifest}
    (hSame : m'.dependencies = m.dependencies) :
    m.SamePackages m' where
  dependencies := hSame
  legacy := Legacy.packages_congr hSame
  archetype :=
    ofManifest_congr fun package _ =>
      hasDependency_congr hSame package
  has := hasDependency_congr hSame

/-
  The edits may be made in any order, and each one again
  without effect. The first one only takes members out, those
  that configure the old tools. The second one only sets the
  scripts, as an object: the added ones are set in it, with
  the ones that they call, and the other ones stay. The
  packages that are listed are the same after each edit.
-/
theorem edits_touch_targets
    (m : Manifest)
    (manager : Manager)
    (typescript : Bool) :
    let added := scripts manager typescript
    (m.withScripts added).withoutLegacySettings =
        m.withoutLegacySettings.withScripts added ∧
      m.withoutLegacySettings.withoutLegacySettings =
        m.withoutLegacySettings ∧
      (m.withScripts added).withScripts added =
        m.withScripts added ∧
      m.withoutLegacySettings =
        m.filter (·.1 ∉ legacyFields.map Text.ofString) ∧
      added.map Prod.fst = scriptNames typescript ∧
      (∃ written,
        Members.Extends m
            [(Text.ofString "scripts", .object written)]
            (m.withScripts added) ∧
          Members.Extends m.currentScripts
            (scriptMembers added) written ∧
          ∀ x ∈ added, ∀ called, manager.Calls x.2 called →
            Text.ofString called ∈ Members.keys written) ∧
      (typescript = true → ∀ x ∈ added, x.1 ≠ "type-check" →
        manager.Calls x.2 "type-check") ∧
      m.SamePackages m.withoutLegacySettings ∧
      m.SamePackages (m.withScripts added) := by
  intro added
  have hUnique := nodup_scripts manager typescript
  have hNames := map_fst_scripts manager typescript
  rcases extends_withScripts m hUnique with
    ⟨written, hTop, hScripts⟩
  refine ⟨withoutLegacySettings_withScripts m added,
    withoutLegacySettings_idem m,
    withScripts_withScripts m hUnique,
    withoutLegacySettings_eq_filter m, hNames,
    ⟨written, hTop, hScripts, ?calls⟩, ?check,
    samePackages_of_dependencies
      (dependencies_withoutLegacySettings m),
    samePackages_of_dependencies
      (dependencies_withScripts m added)⟩
  case calls =>
    intro x hAdded called hCalls
    apply hScripts.mem_keys
    rw [keys_scriptMembers, hNames]
    exact List.mem_map_of_mem
      (mem_scriptNames_of_calls hAdded hCalls)
  case check =>
    rintro rfl x hAdded hLint
    exact calls_typeCheck manager hAdded hLint

end Manifest

end BiomeMigration

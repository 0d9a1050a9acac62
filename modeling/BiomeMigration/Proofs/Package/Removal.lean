import BiomeMigration.Package.Archetype
import BiomeMigration.Package.Legacy
import BiomeMigration.Proofs.Package.Manifest

/-
  What becomes of a manifest when packages are removed from
  its groups, and when scripts are added to it: which of its
  parts stay, and that a second time changes nothing.

  Main declarations:
    * `Manager.removed?`
    * `Manifest.sifted`
    * `Manifest.without`
    * `Manifest.cleaned`
    * `Legacy.packages_cleaned`
    * `Manifest.Akin`
    * `Manifest.withScripts_withScripts`
-/

------------------------------------------------------------
-- Commands that Remove Packages
------------------------------------------------------------

namespace BiomeMigration

namespace Manager

variable {m : Manager} {names : List Text}

/- The packages that a command removes, if it removes any. -/
def removed? (command : Text) : Option (List Text) :=
  all.findSome? fun m =>
    let start := Text.ofString (m.uninstallVerb ++ " ")
    if start.isPrefixOf command then
      some ((command.drop start.length).splitOn (.scalar ' '))
    else none

/- A command tells which packages it removes. -/
theorem removed?_uninstall
    (hSome : names ≠ [])
    (hBlanks : ∀ name ∈ names, .scalar ' ' ∉ name) :
    removed? (m.uninstall names) = some names := by
  have hSplit :
      (Text.join " " names).splitOn (.scalar ' ') = names :=
    List.splitOn_intercalate _ hBlanks hSome
  unfold removed? uninstall all
  cases m <;>
    simp [uninstallVerb, Text.ofString, Text.ofChars, hSplit]

/- Other commands remove nothing. -/
theorem removed?_install
    (m : Manager)
    (dependency : Text) :
    removed? (m.install dependency) = none := by
  unfold removed? install all
  cases m <;>
    simp [installVerb, uninstallVerb, Text.ofString, Text.ofChars]

theorem removed?_lintFix (m : Manager) :
    removed? (Text.ofString m.lintFix) = none := by
  cases m <;> decide +kernel

end Manager

------------------------------------------------------------
-- Members
------------------------------------------------------------

namespace Members

variable {ms : Members} {key : Text} {v : Json}

/- Setting a key to the value that it has changes nothing. -/
theorem insert_eq_self
    (hGet : get? ms key = some v) :
    insert ms key v = ms := by
  induction ms with
  | nil => simp [get?] at hGet
  | cons m ms ih =>
      rcases m with ⟨k, w⟩
      rw [get?] at hGet
      rw [insert]
      split at hGet
      · next hKey => rw [if_pos hKey, Option.some.inj hGet]
      · next hKey => rw [if_neg hKey, ih hGet]

theorem insertAll_eq_self
    {news : Members}
    (hNews : ∀ x ∈ news, get? ms x.1 = some x.2) :
    insertAll ms news = ms := by
  induction news with
  | nil => rfl
  | cons new news ih =>
      have hFirst := insert_eq_self (hNews new (by simp))
      have hRest := ih fun x hx => hNews x (by simp [hx])
      show insertAll (insert ms new.1 new.2) news = ms
      rw [hFirst, hRest]

theorem get?_insertAll_of_not_mem
    {news : Members}
    (hKey : key ∉ keys news) :
    get? (insertAll ms news) key = get? ms key := by
  induction news generalizing ms with
  | nil => rfl
  | cons new news ih =>
      simp only [keys, List.map_cons, List.mem_cons, not_or]
        at hKey
      have hRest :
          get? (insertAll (insert ms new.1 new.2) news) key =
            get? (insert ms new.1 new.2) key :=
        ih hKey.2
      rw [get?_insert, if_neg (Ne.symm hKey.1)] at hRest
      exact hRest

/- Different keys that are set have their values then. -/
theorem get?_insertAll_of_mem
    {news : Members}
    (hUnique : (keys news).Nodup)
    {x : Text × Json}
    (hMember : x ∈ news) :
    get? (insertAll ms news) x.1 = some x.2 := by
  induction news generalizing ms with
  | nil => simp at hMember
  | cons new news ih =>
      rw [keys, List.map_cons, List.nodup_cons] at hUnique
      rcases List.mem_cons.mp hMember with rfl | hLater
      · have hRest :
            get? (insertAll (insert ms x.1 x.2) news) x.1 =
              get? (insert ms x.1 x.2) x.1 :=
          get?_insertAll_of_not_mem hUnique.1
        rw [get?_insert, if_pos rfl] at hRest
        exact hRest
      · exact ih hUnique.2 hLater

end Members

------------------------------------------------------------
-- Removed Packages
------------------------------------------------------------

namespace Manifest

variable {m m' : Manifest} {names : List Text}
variable {key : Text} {package : String}

/- A group with only the packages of one kind. -/
def sift (kept : Text → Bool) : Json → Json
  | .object packages =>
      .object (packages.filter fun p => kept p.1)
  | v => v

/- A manifest with only the packages of one kind. -/
def sifted
    (m : Manifest)
    (kept : Text → Bool) : Manifest :=
  m.map fun (key, v) =>
    (key,
      if key ∈ groups.map Text.ofString then sift kept v
      else v)

theorem get?_sifted
    (m : Manifest)
    (kept : Text → Bool)
    (key : Text) :
    Members.get? (m.sifted kept) key =
      if key ∈ groups.map Text.ofString then
        (Members.get? m key).map (sift kept)
      else Members.get? m key := by
  induction m with
  | nil => simp [sifted, Members.get?]
  | cons x m ih =>
      rcases x with ⟨k, v⟩
      unfold sifted at ih ⊢
      rw [List.map_cons, Members.get?, Members.get?]
      by_cases hKey : k = key
      · subst hKey
        rw [if_pos rfl, if_pos rfl]
        split
        · rfl
        · rfl
      · rw [if_neg hKey, if_neg hKey]
        exact ih

theorem group_sifted
    (m : Manifest)
    (kept : Text → Bool)
    {name : String}
    (hGroup : name ∈ groups) :
    (m.sifted kept).group name =
      (m.group name).filter kept := by
  have hKey : Text.ofString name ∈ groups.map Text.ofString :=
    List.mem_map_of_mem hGroup
  unfold group
  rw [get?_sifted, if_pos hKey]
  cases Members.get? m (Text.ofString name) with
  | none => rfl
  | some v =>
      cases v with
      | object packages =>
          simp only [Option.map_some, sift, Members.keys,
            List.filter_map]
          rfl
      | _ => rfl

theorem dependencies_sifted
    (m : Manifest)
    (kept : Text → Bool) :
    (m.sifted kept).dependencies =
      m.dependencies.filter fun p => kept p.2 := by
  unfold dependencies
  rw [List.filter_flatMap]
  apply List.flatMap_congr
  intro name hGroup
  rw [group_sifted m kept hGroup, List.filter_map]
  rfl

/- A group without the packages of some names. -/
def lighten (names : List Text) : Json → Json
  | .object packages =>
      .object (packages.filter fun p => p.1 ∉ names)
  | v => v

theorem lighten_eq_sift (names : List Text) :
    lighten names = sift (· ∉ names) := by
  funext v
  cases v with
  | object packages => rfl
  | _ => rfl

/- A manifest without the packages of some names. -/
def without
    (m : Manifest)
    (names : List Text) : Manifest :=
  m.map fun (key, v) =>
    (key,
      if key ∈ groups.map Text.ofString then lighten names v
      else v)

theorem without_eq_sifted
    (m : Manifest)
    (names : List Text) :
    m.without names = m.sifted (· ∉ names) := by
  unfold without sifted
  rw [lighten_eq_sift]

theorem get?_without
    (m : Manifest)
    (names : List Text)
    (hKey : key ∉ groups.map Text.ofString) :
    Members.get? (m.without names) key =
      Members.get? m key := by
  rw [without_eq_sifted, get?_sifted, if_neg hKey]

/- Without some packages a sound manifest is sound. -/
theorem IsSound.without
    {room : Nat}
    (hSound : m.IsSound room)
    (names : List Text) :
    (m.without names).IsSound room := by
  rcases hSound with ⟨hDepth, hKeys, hValues⟩
  refine ⟨hDepth, ?_, ?_⟩
  · have hSame :
        Members.keys (m.without names) = Members.keys m := by
      unfold Members.keys Manifest.without
      rw [List.map_map]
      rfl
    rw [hSame]
    exact hKeys
  · intro x hx
    rcases List.mem_map.mp hx with ⟨⟨key, v⟩, hMember, rfl⟩
    have hFits := hValues _ hMember
    dsimp only at hFits ⊢
    split
    · unfold lighten
      split
      · next packages =>
          have hPackages := Json.MembersFitAt.of_object hFits
          apply Json.MembersFitAt.fitsAt_object
          refine ⟨hPackages.1, ?_, fun y hy =>
            hPackages.2.2 y (List.mem_of_mem_filter hy)⟩
          exact ((List.filter_sublist
            (l := packages)).map Prod.fst).nodup hPackages.2.1
      · exact hFits
    · exact hFits

theorem dependencies_without
    (m : Manifest)
    (names : List Text) :
    (m.without names).dependencies =
      m.dependencies.filter (·.2 ∉ names) := by
  rw [without_eq_sifted, dependencies_sifted]

/- A package that is not removed stays. -/
theorem hasDependency_without
    (m : Manifest)
    (hKept : Text.ofString package ∉ names) :
    (m.without names).hasDependency package =
      m.hasDependency package := by
  unfold hasDependency
  rw [dependencies_without, List.any_filter]
  congr 1
  funext p
  by_cases hPackage : p.2 = Text.ofString package
  · simp [hPackage, hKept]
  · simp [hPackage]

------------------------------------------------------------
-- Settings and Scripts
------------------------------------------------------------

/- The packages of a manifest are listed by its groups. -/
theorem dependencies_congr
    (hGroups :
      ∀ name ∈ groups,
        Members.get? m' (Text.ofString name) =
          Members.get? m (Text.ofString name)) :
    m'.dependencies = m.dependencies := by
  unfold dependencies
  apply List.flatMap_congr
  intro name hGroup
  unfold group
  rw [hGroups name hGroup]

theorem get?_withoutLegacySettings
    (m : Manifest)
    (hKey : key ∉ legacyFields.map Text.ofString) :
    Members.get? m.withoutLegacySettings key =
      Members.get? m key := by
  unfold legacyFields at hKey
  simp only [List.map_cons, List.map_nil, List.mem_cons,
    List.not_mem_nil, or_false, not_or] at hKey
  unfold withoutLegacySettings legacyFields
  rw [List.foldl_cons, List.foldl_cons, List.foldl_nil,
    Members.get?_erase, if_neg (Ne.symm hKey.2),
    Members.get?_erase, if_neg (Ne.symm hKey.1)]

theorem dependencies_withoutLegacySettings (m : Manifest) :
    m.withoutLegacySettings.dependencies = m.dependencies := by
  apply dependencies_congr
  intro name hGroup
  apply get?_withoutLegacySettings
  revert name
  decide

theorem get?_withScripts
    (m : Manifest)
    (added : List (String × String))
    (hKey : key ≠ Text.ofString "scripts") :
    Members.get? (m.withScripts added) key =
      Members.get? m key := by
  unfold withScripts
  rw [Members.get?_insert, if_neg (Ne.symm hKey)]

theorem dependencies_withScripts
    (m : Manifest)
    (added : List (String × String)) :
    (m.withScripts added).dependencies = m.dependencies := by
  apply dependencies_congr
  intro name hGroup
  apply get?_withScripts
  revert name
  decide

/- Scripts with different names are added only once. -/
theorem withScripts_withScripts
    (m : Manifest)
    {added : List (String × String)}
    (hUnique : (added.map Prod.fst).Nodup) :
    (m.withScripts added).withScripts added =
      m.withScripts added := by
  have hKeys :
      (Members.keys (added.map fun x =>
        (Text.ofString x.1, Json.ofString x.2))).Nodup := by
    unfold Members.keys
    rw [List.map_map]
    have hNames :
        (Prod.fst ∘ fun x : String × String =>
          (Text.ofString x.1, Json.ofString x.2)) =
            Text.ofString ∘ Prod.fst := rfl
    rw [hNames, ← List.map_map]
    exact hUnique.map fun _ _ => Text.ofString_injective
  have hCurrent :
      (m.withScripts added).currentScripts =
        Members.insertAll m.currentScripts
          (added.map fun x =>
            (Text.ofString x.1, Json.ofString x.2)) := by
    unfold withScripts
    rw [currentScripts, Members.get?_insert, if_pos rfl]
  apply Members.insert_eq_self
  rw [hCurrent, Members.insertAll_eq_self
    fun x hx => Members.get?_insertAll_of_mem hKeys hx]
  unfold withScripts
  rw [Members.get?_insert, if_pos rfl]

theorem nodup_scripts
    (manager : Manager)
    (typescript : Bool) :
    ((scripts manager typescript).map Prod.fst).Nodup := by
  cases manager <;> cases typescript <;> decide

end Manifest

------------------------------------------------------------
-- The Packages of the Old Tools
------------------------------------------------------------

namespace Legacy

variable {m m' : Manifest} {name : String}

theorem mem_packages_iff
    {package : Text} :
    package ∈ packages m ↔
      package ∈ m.dependencies.map Prod.snd ∧
        isLegacy package = true := by
  unfold packages
  rw [mem_distinct, List.mem_filter]

theorem packages_congr
    (hSame : m'.dependencies = m.dependencies) :
    packages m' = packages m := by
  unfold packages
  rw [hSame]

/- A name that does not belong to the old tools is not found. -/
theorem not_mem_packages
    (m : Manifest)
    (hOther : isLegacy (Text.ofString name) = false) :
    Text.ofString name ∉ packages m := by
  intro hMember
  have hLegacy := (mem_packages_iff.mp hMember).2
  rw [hOther] at hLegacy
  cases hLegacy

end Legacy

namespace Manifest

/- A manifest without the packages and settings of the old tools. -/
def cleaned (m : Manifest) : Manifest :=
  (m.without (Legacy.packages m)).withoutLegacySettings

theorem dependencies_cleaned (m : Manifest) :
    m.cleaned.dependencies =
      m.dependencies.filter (·.2 ∉ Legacy.packages m) := by
  unfold cleaned
  rw [dependencies_withoutLegacySettings, dependencies_without]

end Manifest

/- No package of the old tools is left. -/
theorem Legacy.packages_cleaned (m : Manifest) :
    packages m.cleaned = [] := by
  apply List.eq_nil_iff_forall_not_mem.mpr
  intro package hPackage
  rcases mem_packages_iff.mp hPackage with ⟨hListed, hLegacy⟩
  rw [Manifest.dependencies_cleaned] at hListed
  rcases List.mem_map.mp hListed with ⟨p, hp, rfl⟩
  rcases List.mem_filter.mp hp with ⟨hMember, hKept⟩
  have hOld : p.2 ∈ packages m :=
    mem_packages_iff.mpr
      ⟨List.mem_map.mpr ⟨p, hMember, rfl⟩, hLegacy⟩
  exact of_decide_eq_true hKept hOld

------------------------------------------------------------
-- Akin Manifests
------------------------------------------------------------

namespace Manifest

/-
  Two manifests show the same kind of project, and the same
  package manager.
-/
structure Akin (m m' : Manifest) : Prop where
  archetype : Archetype.ofManifest m' = Archetype.ofManifest m
  typescript :
    m'.hasDependency "typescript" = m.hasDependency "typescript"
  manager :
    Members.get? m' (Text.ofString "packageManager") =
      Members.get? m (Text.ofString "packageManager")

variable {m m' m'' : Manifest}

theorem Akin.refl (m : Manifest) : m.Akin m :=
  ⟨rfl, rfl, rfl⟩

theorem Akin.trans
    (hFirst : m.Akin m')
    (hSecond : m'.Akin m'') :
    m.Akin m'' :=
  ⟨hSecond.archetype.trans hFirst.archetype,
    hSecond.typescript.trans hFirst.typescript,
    hSecond.manager.trans hFirst.manager⟩

theorem Akin.symm
    (hAkin : m.Akin m') :
    m'.Akin m :=
  ⟨hAkin.archetype.symm, hAkin.typescript.symm,
    hAkin.manager.symm⟩

theorem ofManifest_congr
    (hPackages :
      ∀ package ∈ Archetype.reactPackages,
        m'.hasDependency package = m.hasDependency package) :
    Archetype.ofManifest m' = Archetype.ofManifest m := by
  have hAny :
      Archetype.reactPackages.any m'.hasDependency =
        Archetype.reactPackages.any m.hasDependency := by
    rw [Bool.eq_iff_iff]
    simp only [List.any_eq_true]
    constructor
    · rintro ⟨package, hPackage, hHas⟩
      exact ⟨package, hPackage, hPackages package hPackage ▸ hHas⟩
    · rintro ⟨package, hPackage, hHas⟩
      exact ⟨package, hPackage,
        (hPackages package hPackage).symm ▸ hHas⟩
  unfold Archetype.ofManifest
  rw [hAny]

theorem hasDependency_congr
    (hSame : m'.dependencies = m.dependencies)
    (package : String) :
    m'.hasDependency package = m.hasDependency package := by
  unfold hasDependency
  rw [hSame]

theorem akin_withScripts
    (m : Manifest)
    (added : List (String × String)) :
    m.Akin (m.withScripts added) := by
  have hSame :=
    hasDependency_congr (dependencies_withScripts m added)
  exact ⟨ofManifest_congr fun package _ => hSame package,
    hSame _, get?_withScripts m added (by decide)⟩

theorem akin_cleaned (m : Manifest) : m.Akin m.cleaned := by
  have hSame :
      ∀ package : String,
        Legacy.isLegacy (Text.ofString package) = false →
          m.cleaned.hasDependency package =
            m.hasDependency package := by
    intro package hOther
    unfold cleaned
    rw [hasDependency_congr
      (dependencies_withoutLegacySettings _)]
    exact hasDependency_without m
      (Legacy.not_mem_packages m hOther)
  refine ⟨ofManifest_congr fun package hPackage =>
      hSame package ?other,
    hSame _ (by decide), ?manager⟩
  case other =>
    revert package
    decide
  case manager =>
    unfold cleaned
    rw [get?_withoutLegacySettings _ (by decide),
      get?_without _ _ (by decide)]

end Manifest

end BiomeMigration

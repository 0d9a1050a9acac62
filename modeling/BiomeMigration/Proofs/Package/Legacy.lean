import BiomeMigration.Proofs.Package.Removal
import Mathlib

/-
  Which packages of a manifest belong to the old tools, by
  the letters of their names and by their places in the
  manifest, and what is left when they are removed.

  Main declarations:
    * `Legacy.CaseOf`
    * `Legacy.Names`
    * `Manifest.ListedAt`
    * `Manifest.ListedBefore`
    * `Legacy.packages_exact`
-/

------------------------------------------------------------
-- Letters in Some Case
------------------------------------------------------------

namespace BiomeMigration

namespace Legacy

/-
  The code points that a small letter stands for when case
  is ignored: itself, its capital, the long s, and the two
  kinds of i that keep or lose their dots.
-/
inductive CaseOf : Char → CodePoint → Prop
  | small (letter : Char) : CaseOf letter (.scalar letter)
  | capital (letter : Char) :
      CaseOf letter (.scalar letter.toUpper)
  | long : CaseOf 's' (.scalar 'ſ')
  | dotted : CaseOf 'i' (.scalar 'İ')
  | dotless : CaseOf 'i' (.scalar 'ı')

/-
  A text names a tool: a part of it, without a gap, is the
  name of the tool when case is ignored.
-/
def Names (tool : String) (t : Text) : Prop :=
  ∃ part,
    part <:+: t ∧ List.Forall₂ CaseOf tool.toList part

variable {letter : Char} {word : List Char} {t : Text}

theorem toLower_eq_iff
    (hSmall : letter.isLower = true)
    {c : Char} :
    c.toLower = letter ↔ c = letter ∨ c = letter.toUpper := by
  have hSelf : letter.toLower = letter :=
    Char.toLower_eq_of_not_isUpper
      (Char.not_isUpper_of_isLower hSmall)
  constructor
  · intro hLower
    by_cases hUpper : c.isUpper = true
    · right
      rw [← hLower, Char.toUpper_toLower_eq_toUpper]
      exact (Char.toUpper_eq_of_not_isLower
        (Char.not_isLower_of_isUpper hUpper)).symm
    · left
      rw [← hLower, Char.toLower_eq_of_not_isUpper hUpper]
  · rintro (rfl | rfl)
    · exact hSelf
    · rw [Char.toLower_toUpper_eq_toLower, hSelf]

theorem isFormOf_iff
    (hSmall : letter.isLower = true)
    {p : CodePoint} :
    isFormOf letter p = true ↔ CaseOf letter p := by
  cases p with
  | surrogate i => exact ⟨nofun, nofun⟩
  | scalar c =>
      have hPoint :
          ∀ d : Char, c.toNat = d.toNat → c = d :=
        fun d => Char.toNat_inj.mp
      simp only [isFormOf, Bool.or_eq_true, Bool.and_eq_true,
        beq_iff_eq, toLower_eq_iff hSmall]
      constructor
      · rintro (((rfl | rfl) | ⟨rfl, hLong⟩) |
          ⟨rfl, hDotted | hDotless⟩)
        · exact .small c
        · exact .capital letter
        · rw [hPoint 'ſ' hLong]
          exact .long
        · rw [hPoint 'İ' hDotted]
          exact .dotted
        · rw [hPoint 'ı' hDotless]
          exact .dotless
      · intro hCase
        cases hCase with
        | small => exact Or.inl (Or.inl (Or.inl rfl))
        | capital => exact Or.inl (Or.inl (Or.inr rfl))
        | long => exact Or.inl (Or.inr ⟨rfl, rfl⟩)
        | dotted => exact Or.inr ⟨rfl, Or.inl rfl⟩
        | dotless => exact Or.inr ⟨rfl, Or.inr rfl⟩

theorem startsWith_iff
    (hSmall : ∀ letter ∈ word, letter.isLower = true) :
    startsWith word t = true ↔
      ∃ part, part <+: t ∧ List.Forall₂ CaseOf word part := by
  induction word generalizing t with
  | nil => exact ⟨fun _ => ⟨[], List.nil_prefix, .nil⟩, fun _ => rfl⟩
  | cons letter word ih =>
      rcases List.forall_mem_cons.mp hSmall with
        ⟨hLetter, hWord⟩
      cases t with
      | nil =>
          refine ⟨nofun, ?_⟩
          rintro ⟨part, hPart, hCases⟩
          rw [List.prefix_nil.mp hPart] at hCases
          cases hCases
      | cons p t =>
          rw [startsWith, Bool.and_eq_true,
            isFormOf_iff hLetter, ih hWord]
          constructor
          · rintro ⟨hCase, part, hPart, hCases⟩
            exact ⟨p :: part,
              List.cons_prefix_cons.mpr ⟨rfl, hPart⟩,
              .cons hCase hCases⟩
          · rintro ⟨part, hPart, hCases⟩
            cases hCases with
            | cons hCase hCases =>
                rcases List.cons_prefix_cons.mp hPart with
                  ⟨rfl, hRest⟩
                exact ⟨hCase, _, hRest, hCases⟩

theorem contains_iff
    (hSmall : ∀ letter ∈ word, letter.isLower = true) :
    contains word t = true ↔
      ∃ part, part <:+: t ∧ List.Forall₂ CaseOf word part := by
  induction t with
  | nil =>
      rw [contains, startsWith_iff hSmall]
      simp only [List.prefix_nil, List.infix_nil]
  | cons p t ih =>
      rw [contains, Bool.or_eq_true, startsWith_iff hSmall, ih]
      simp only [List.infix_cons_iff, or_and_right, exists_or]

theorem isLegacy_iff :
    isLegacy t = true ↔ ∃ tool ∈ tools, Names tool t := by
  have hSmall :
      ∀ tool ∈ tools, ∀ letter ∈ tool.toList,
        letter.isLower = true := by
    decide
  unfold isLegacy
  rw [List.any_eq_true]
  constructor
  · rintro ⟨tool, hTool, hContains⟩
    exact ⟨tool, hTool,
      (contains_iff (hSmall tool hTool)).mp hContains⟩
  · rintro ⟨tool, hTool, hNames⟩
    exact ⟨tool, hTool,
      (contains_iff (hSmall tool hTool)).mpr hNames⟩

------------------------------------------------------------
-- First Places
------------------------------------------------------------

/-
  In a list one entry comes first before another one: at some
  place of its own, the other one has not come yet.
-/
def Precedes {α : Type} (xs : List α) (x y : α) : Prop :=
  ∃ before after, xs = before ++ x :: after ∧ y ∉ before ++ [x]

variable {α : Type} {x y : α} {xs : List α}

theorem Precedes.cons
    (hOther : y ≠ x)
    {z : α}
    (hPrecedes : Precedes xs z y) :
    Precedes (x :: xs) z y := by
  rcases hPrecedes with ⟨before, after, rfl, hNew⟩
  exact ⟨x :: before, after, rfl,
    List.not_mem_cons_of_ne_of_not_mem hOther hNew⟩

/- The entries of one kind, in the order of their first places. -/
theorem pairwise_distinct_filter
    [DecidableEq α]
    (kind : α → Bool)
    (xs : List α) :
    (distinct (xs.filter kind)).Pairwise (Precedes xs) := by
  induction xs with
  | nil => exact .nil
  | cons x xs ih =>
      have hLater :
          ∀ {ys : List α}, ys.Pairwise (Precedes xs) →
            (∀ y ∈ ys, y ≠ x) →
              ys.Pairwise (Precedes (x :: xs)) :=
        fun hPairs hOther =>
          hPairs.imp_of_mem fun _ hy hPrecedes =>
            hPrecedes.cons (hOther _ hy)
      by_cases hKind : kind x = true
      · rw [List.filter_cons_of_pos hKind, distinct,
          List.pairwise_cons]
        have hOther :
            ∀ y ∈ (distinct (xs.filter kind)).filter (· ≠ x),
              y ≠ x :=
          fun y hy => of_decide_eq_true (List.mem_filter.mp hy).2
        refine ⟨fun y hy => ⟨[], xs, rfl, ?_⟩,
          hLater (ih.filter _) hOther⟩
        simpa using hOther y hy
      · rw [List.filter_cons_of_neg hKind]
        apply hLater ih
        rintro y hy rfl
        exact hKind (List.mem_filter.mp (mem_distinct.mp hy)).2

/-
  A cut through lists that are one after the other is a cut
  through one of them.
-/
theorem exists_cut_of_flatten
    {lists : List (List α)}
    {before after : List α}
    (hCut : lists.flatten = before ++ x :: after) :
    ∃ earlier front back later,
      lists = earlier ++ (front ++ x :: back) :: later ∧
        before = earlier.flatten ++ front := by
  rcases List.flatten_eq_append_iff.mp hCut with
    ⟨earlier, rest, rfl, rfl, hRest⟩ |
      ⟨earlier, front, _, back, later, rfl, rfl, hRest⟩
  · rcases List.flatten_eq_cons_iff.mp hRest.symm with
      ⟨empty, back, later, rfl, hEmpty, _⟩
    refine ⟨earlier ++ empty, [], back, later, by simp, ?_⟩
    rw [List.flatten_append, List.flatten_eq_nil_iff.mpr hEmpty,
      List.append_nil, List.append_nil]
  · rcases List.cons.inj hRest with ⟨rfl, _⟩
    exact ⟨earlier, front, back, later, rfl, rfl⟩

theorem getElem?_cut (before after : List α) (x : α) :
    (before ++ x :: after)[before.length]? = some x := by
  simp

end Legacy

namespace Manifest

/-
  A package is listed at a place: that of a group, in the
  order of the groups, and that of a key of the object there.
-/
def ListedAt
    (m : Manifest)
    (place : Nat × Nat)
    (package : Text) : Prop :=
  ∃ name packages,
    groups[place.1]? = some name ∧
      Members.get? m (Text.ofString name) =
        some (.object packages) ∧
      (Members.keys packages)[place.2]? = some package

/-
  A package is listed before another one: it has a place, in
  an earlier group or at an earlier key of the same group,
  before all places of the other one.
-/
def ListedBefore
    (m : Manifest)
    (package other : Text) : Prop :=
  ∃ place,
    m.ListedAt place package ∧
      ∀ place', m.ListedAt place' other →
        Prod.Lex (· < ·) (· < ·) place place'

variable {m : Manifest} {package other : Text}

theorem listedAt_iff
    {i j : Nat} :
    m.ListedAt (i, j) package ↔
      ∃ names,
        (groups.map m.group)[i]? = some names ∧
          names[j]? = some package := by
  constructor
  · rintro ⟨name, packages, hGroup, hGet, hKey⟩
    refine ⟨m.group name, ?_, ?_⟩
    · rw [List.getElem?_map, hGroup]
      rfl
    · unfold group
      rw [hGet]
      exact hKey
  · rintro ⟨names, hNames, hKey⟩
    rw [List.getElem?_map] at hNames
    rcases Option.map_eq_some_iff.mp hNames with
      ⟨name, hGroup, rfl⟩
    unfold group at hKey
    split at hKey
    · next packages hGet =>
        exact ⟨name, packages, hGroup, hGet, hKey⟩
    · cases hKey

theorem map_snd_dependencies (m : Manifest) :
    m.dependencies.map Prod.snd = (groups.map m.group).flatten := by
  unfold dependencies
  rw [List.map_flatMap, List.flatMap_def]
  simp

theorem exists_listedAt_iff :
    (∃ place, m.ListedAt place package) ↔
      package ∈ m.dependencies.map Prod.snd := by
  rw [map_snd_dependencies, List.mem_flatten]
  constructor
  · rintro ⟨⟨i, j⟩, hListed⟩
    rcases listedAt_iff.mp hListed with ⟨names, hNames, hKey⟩
    exact ⟨names, List.mem_of_getElem? hNames,
      List.mem_of_getElem? hKey⟩
  · rintro ⟨names, hNames, hKey⟩
    rcases List.mem_iff_getElem?.mp hNames with ⟨i, hi⟩
    rcases List.mem_iff_getElem?.mp hKey with ⟨j, hj⟩
    exact ⟨(i, j), listedAt_iff.mpr ⟨names, hi, hj⟩⟩

/-
  The order of the packages of all groups is that of their
  places: the group where one comes first is cut at it.
-/
theorem listedBefore_of_precedes
    (hPrecedes :
      Legacy.Precedes (m.dependencies.map Prod.snd)
        package other) :
    m.ListedBefore package other := by
  rcases hPrecedes with ⟨before, after, hCut, hNew⟩
  rw [map_snd_dependencies] at hCut
  rcases Legacy.exists_cut_of_flatten hCut with
    ⟨earlier, front, back, later, hGroups, rfl⟩
  simp only [List.mem_append, List.mem_singleton, not_or]
    at hNew
  rcases hNew with ⟨⟨hEarlier, hFront⟩, hOther⟩
  refine ⟨(earlier.length, front.length),
    listedAt_iff.mpr ⟨front ++ package :: back, ?_, ?_⟩, ?_⟩
  · rw [hGroups]
    exact Legacy.getElem?_cut ..
  · exact Legacy.getElem?_cut ..
  · rintro ⟨i, j⟩ hListed
    rcases listedAt_iff.mp hListed with ⟨names, hNames, hKey⟩
    rw [hGroups] at hNames
    rcases Nat.lt_trichotomy earlier.length i with
      hLater | rfl | hBefore
    · exact .left _ _ hLater
    · apply Prod.Lex.right
      rw [Legacy.getElem?_cut] at hNames
      rcases Option.some.inj hNames with rfl
      rcases Nat.lt_trichotomy front.length j with
        hAfter | rfl | hAhead
      · exact hAfter
      · rw [Legacy.getElem?_cut] at hKey
        exact (hOther (Option.some.inj hKey).symm).elim
      · rw [List.getElem?_append_left hAhead] at hKey
        exact (hFront (List.mem_of_getElem? hKey)).elim
    · rw [List.getElem?_append_left hBefore] at hNames
      exact (hEarlier (List.mem_flatten.mpr
        ⟨names, List.mem_of_getElem? hNames,
          List.mem_of_getElem? hKey⟩)).elim

end Manifest

------------------------------------------------------------
-- Exactness
------------------------------------------------------------

/-
  The packages of the old tools are those that some group
  lists and that name one of the tools, each once, in the
  order of their first places. Without them in its groups a
  manifest has no packages of the old tools, and its other
  packages are as before.
-/
theorem Legacy.packages_exact (m : Manifest) :
    (∀ package,
      package ∈ packages m ↔
        (∃ place, m.ListedAt place package) ∧
          (Names "eslint" package ∨ Names "prettier" package)) ∧
      (packages m).Nodup ∧
      (packages m).Pairwise m.ListedBefore ∧
      packages (m.sifted (· ∉ packages m)) = [] ∧
      (m.sifted (· ∉ packages m)).dependencies =
        m.dependencies.filter (·.2 ∉ packages m) := by
  have hDependencies :=
    m.dependencies_sifted (· ∉ packages m)
  refine ⟨fun package => ?_, nodup_distinct _,
    (pairwise_distinct_filter isLegacy _).imp
      Manifest.listedBefore_of_precedes,
    ?_, hDependencies⟩
  · rw [mem_packages_iff, Manifest.exists_listedAt_iff,
      isLegacy_iff]
    simp [tools]
  · apply List.eq_nil_iff_forall_not_mem.mpr
    intro package hPackage
    rcases mem_packages_iff.mp hPackage with ⟨hListed, hLegacy⟩
    rw [hDependencies] at hListed
    rcases List.mem_map.mp hListed with ⟨p, hp, rfl⟩
    rcases List.mem_filter.mp hp with ⟨hMember, hKept⟩
    exact of_decide_eq_true hKept
      (mem_packages_iff.mpr
        ⟨List.mem_map_of_mem hMember, hLegacy⟩)

end BiomeMigration

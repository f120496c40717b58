import PycListing.Proofs.Files.Actions
import PycListing.Proofs.Files.Path
import Mathlib.Data.List.Sort

/-! # What a source stands for

The file that a source stands for is one beside it, or the least by name of those in the cache
directory (`PycListing.Artifact.resolve_exact`). A file in the cache directory counts with a tag
between the name of the source and the extension, and also without one.
-/

namespace PycListing

namespace Artifact

/-! ## Names in a cache directory -/

/-- The name of a compiled file of a source in a cache directory. -/
inductive CacheName (stem : String) : String → Prop where
  | tagged (tag : String) : CacheName stem (stem ++ "." ++ tag ++ ".pyc")
  | untagged : CacheName stem (stem ++ ".pyc")

theorem dotted_eq (stem extension : String) :
    stem ++ "." ++ extension = stem ++ ("." ++ extension) :=
  String.append_assoc

/-- A name that starts with the stem and a dot and ends in the extension has a tag between the two
dots, unless these are the same one. -/
theorem CacheName.of_split {stem base : String} {rest : List Char}
    (split : (base ++ ".pyc").toList = (stem ++ ".").toList ++ rest) :
    CacheName stem (base ++ ".pyc") := by
  have cut : (base ++ ".pyc").toList = base.toList ++ '.' :: ['p', 'y', 'c'] := String.toList_append
  rw [cut] at split
  rcases List.append_eq_append_iff.mp split with ⟨more, front, suffix⟩ | ⟨tag, front, _⟩
  · have front : stem.toList ++ ['.'] = base.toList ++ more := by
      rw [← front, String.toList_append]
      rfl
    rcases more.eq_nil_or_concat with rfl | ⟨others, last, rfl⟩
    · have whole : base = stem ++ "." ++ "" := by
        apply String.toList_injective
        rw [String.append_empty, String.toList_append, ← List.append_nil base.toList, ← front]
        rfl
      rw [whole]
      exact .tagged ""
    · rw [List.concat_eq_append, ← List.append_assoc] at front
      obtain ⟨before, dot⟩ := List.append_inj' front rfl
      cases dot
      cases others with
      | nil =>
          rw [List.append_nil] at before
          rw [← String.toList_injective before]
          exact .untagged
      | cons first others =>
          -- The dot would stand in the extension.
          rw [List.concat_eq_append, List.cons_append, List.cons_append] at suffix
          have inside : '.' ∈ ['p', 'y', 'c'] := by
            rw [(List.cons.inj suffix).2]
            exact List.mem_append_left _ List.mem_concat_self
          exact absurd inside (by decide)
  · have whole : base = stem ++ "." ++ String.ofList tag := by
      apply String.toList_injective
      rw [front, String.toList_append (s := stem ++ "."), String.toList_ofList]
    rw [whole]
    exact .tagged _

theorem extension_compiled {base : String} (named : base ≠ "") :
    (Path.splitName (base ++ ".pyc")).2 = some "pyc" := by
  have cut : Path.splitName (base ++ "." ++ "pyc") = (base, some "pyc") :=
    Path.splitName_eq named (by decide)
  rw [dotted_eq] at cut
  exact congrArg Prod.snd cut

theorem isCacheName_iff {stem name : String} (named : stem ≠ "") :
    isCacheName stem name = true ↔ CacheName stem name := by
  rw [isCacheName, Bool.and_eq_true, decide_eq_true_eq, List.isPrefixOf_iff_prefix]
  constructor
  · rintro ⟨⟨rest, split⟩, cut⟩
    obtain ⟨_, base, _, rfl⟩ := Path.exists_of_splitName cut
    rw [dotted_eq] at split ⊢
    exact .of_split split.symm
  · intro cacheName
    cases cacheName with
    | tagged tag =>
        have some : stem ++ "." ++ tag ≠ "" :=
          (Path.isIdle_eq_false_iff.mp (Path.isIdle_dotted named tag)).1
        refine ⟨⟨(tag ++ ".pyc").toList, ?_⟩, ?_⟩
        · rw [← String.toList_append, ← String.append_assoc]
        · exact extension_compiled some
    | untagged =>
        refine ⟨⟨['p', 'y', 'c'], ?_⟩, extension_compiled named⟩
        rw [String.toList_append, String.toList_append, List.append_assoc]
        rfl

/-- The least name is one of the names, and no other one comes before it. -/
theorem leastName?_eq_some_iff {names : List String} {name : String} :
    leastName? names = some name ↔ name ∈ names ∧ ∀ other ∈ names, name ≤ other := by
  have sorted : (names.mergeSort fun first second => first ≤ second).Pairwise (· ≤ ·) :=
    List.pairwise_mergeSort' (· ≤ ·) names
  have same (other : String) :
      other ∈ (names.mergeSort fun first second => first ≤ second) ↔ other ∈ names :=
    (List.mergeSort_perm names _).mem_iff
  rw [leastName?]
  constructor
  · intro least
    obtain ⟨others, split⟩ := List.head?_eq_some_iff.mp least
    rw [split] at sorted same
    refine ⟨(same name).mp List.mem_cons_self, fun other member => ?_⟩
    rcases List.mem_cons.mp ((same other).mpr member) with rfl | later
    · exact le_refl _
    · exact (List.pairwise_cons.mp sorted).1 other later
  · rintro ⟨member, least⟩
    cases split : names.mergeSort fun first second => first ≤ second with
    | nil =>
        rw [split] at same
        exact absurd ((same name).mpr member) List.not_mem_nil
    | cons first others =>
        rw [split] at sorted same
        have before := least first ((same first).mp List.mem_cons_self)
        rw [List.head?_cons]
        rcases List.mem_cons.mp ((same name).mpr member) with rfl | later
        · rfl
        · rw [le_antisymm ((List.pairwise_cons.mp sorted).1 name later) before]

theorem leastName?_eq_none_iff {names : List String} : leastName? names = none ↔ names = [] := by
  rw [leastName?, List.head?_eq_none_iff]
  constructor
  · intro none
    have length := (List.mergeSort_perm names fun first second => first ≤ second).length_eq
    rw [none] at length
    exact List.eq_nil_of_length_eq_zero length.symm
  · rintro rfl
    exact List.mergeSort_nil

/-! ## Reading a tree -/

variable (tree : FileTree)

theorem firstFile?_eq (paths : List String) :
    firstFile? FileTree.system paths tree = (paths.find? tree.isFile, tree) := by
  induction paths with
  | nil => rfl
  | cons path more ih =>
      have read : FileTree.system.isFile path tree = (tree.isFile path, tree) := rfl
      rw [firstFile?, bind_eq_of_run read]
      cases stands : tree.isFile path with
      | true =>
          rw [List.find?_cons_of_pos stands]
          rfl
      | false =>
          rw [List.find?_cons_of_neg (Bool.eq_false_iff.mp stands)]
          exact ih

/-- The names of compiled files of a source in its cache directory. -/
def cachedNames (tree : FileTree) (source stem : String) : List String :=
  ((tree.names (cacheDirectory source)).filter (isCacheName stem)).filter fun name =>
    tree.isFile (Path.join (cacheDirectory source) name)

theorem cached?_eq {source stem : String} (cut : Path.stem? source = some stem) :
    cached? FileTree.system source tree =
      ((leastName? (cachedNames tree source stem)).map (Path.join (cacheDirectory source)),
        tree) := by
  have names : FileTree.system.names (cacheDirectory source) tree =
      (tree.names (cacheDirectory source), tree) := rfl
  have reads (name : String) :
      FileTree.system.isFile (Path.join (cacheDirectory source) name) tree =
        (tree.isFile (Path.join (cacheDirectory source) name), tree) := rfl
  have hits := filterM_eq reads ((tree.names (cacheDirectory source)).filter (isCacheName stem))
  rw [cached?, cut]
  dsimp only
  rw [bind_eq_of_run names, bind_eq_of_run hits]
  rfl

/-- The file that a source stands for, if there is one. -/
def found? (tree : FileTree) (source stem : String) : Option String :=
  ([Path.withExtension source "pyc", Path.withExtension source "pyo"].find? tree.isFile).or
    ((leastName? (cachedNames tree source stem)).map (Path.join (cacheDirectory source)))

theorem ofSource_eq {source stem : String} (cut : Path.stem? source = some stem) :
    ofSource FileTree.system source tree =
      ((found? tree source stem).elim (.error (.noCompiledFile source)) .ok, tree) := by
  rw [ofSource, bind_eq_of_run (firstFile?_eq tree _), found?]
  cases [Path.withExtension source "pyc", Path.withExtension source "pyo"].find? tree.isFile with
  | some path => rfl
  | none =>
      dsimp only
      rw [bind_eq_of_run (cached?_eq tree cut), Option.none_or]
      cases (leastName? (cachedNames tree source stem)).map (Path.join (cacheDirectory source)) with
      | some path => rfl
      | none => rfl

/-! ## The file of a source -/

variable {tree} {directory stem : String}

/-- A file beside a source. A source that has a dot for its name is not looked for beside itself. -/
def Beside (tree : FileTree) (directory stem suffix : String) : Prop :=
  stem ≠ "." ∧ tree.isFile (Path.join directory (stem ++ suffix)) = true

/-- The name of a file in the cache directory of a source. -/
structure Cached (tree : FileTree) (directory stem name : String) : Prop where
  listed : name ∈ tree.names (cacheDirectory (Path.join directory (stem ++ ".py")))
  named : CacheName stem name
  file : tree.isFile
    (Path.join (cacheDirectory (Path.join directory (stem ++ ".py"))) name) = true

/-- The file that a source stands for. -/
inductive Preferred (tree : FileTree) (directory stem : String) : String → Prop where
  | compiled (stands : Beside tree directory stem ".pyc") :
      Preferred tree directory stem (Path.join directory (stem ++ ".pyc"))
  | optimized (notCompiled : ¬Beside tree directory stem ".pyc")
      (stands : Beside tree directory stem ".pyo") :
      Preferred tree directory stem (Path.join directory (stem ++ ".pyo"))
  | cached {name : String} (notCompiled : ¬Beside tree directory stem ".pyc")
      (notOptimized : ¬Beside tree directory stem ".pyo")
      (found : Cached tree directory stem name)
      (least : ∀ other, Cached tree directory stem other → name ≤ other) :
      Preferred tree directory stem
        (Path.join (cacheDirectory (Path.join directory (stem ++ ".py"))) name)

theorem mem_cachedNames_iff (named : stem ≠ "") {name : String} :
    name ∈ cachedNames tree (Path.join directory (stem ++ ".py")) stem ↔
      Cached tree directory stem name := by
  rw [cachedNames, List.mem_filter, List.mem_filter, isCacheName_iff named]
  exact ⟨fun ⟨⟨listed, cacheName⟩, file⟩ => ⟨listed, cacheName, file⟩,
    fun ⟨listed, cacheName, file⟩ => ⟨⟨listed, cacheName⟩, file⟩⟩

section

variable {extension suffix : String}

theorem withExtension_eq (named : stem ≠ "") (plain : '/' ∉ stem.toList)
    (plainExtension : '/' ∉ extension.toList) (dotted : "." ++ extension = suffix)
    (other : stem ≠ ".") :
    Path.withExtension (Path.join directory (stem ++ ".py")) extension =
      Path.join directory (stem ++ suffix) := by
  rw [Path.withExtension_source named plain plainExtension, if_neg other, dotted_eq, dotted]

/-- What stands beside a source is found by the extension that is put in the place of its own. -/
theorem isFile_withExtension_iff (named : stem ≠ "") (plain : '/' ∉ stem.toList)
    (plainExtension : '/' ∉ extension.toList) (dotted : "." ++ extension = suffix) :
    tree.isFile (Path.withExtension (Path.join directory (stem ++ ".py")) extension) = true ↔
      Beside tree directory stem suffix := by
  by_cases single : stem = "."
  · rw [Path.withExtension_source named plain plainExtension, if_pos single,
      FileTree.isFile_join_up]
    exact iff_of_false Bool.false_ne_true fun beside => beside.1 single
  · rw [withExtension_eq named plain plainExtension dotted single]
    exact (and_iff_right single).symm

end

/-- What stands for a source is the preferred file. -/
theorem found?_eq_some_iff (named : stem ≠ "") (plain : '/' ∉ stem.toList) {path : String} :
    found? tree (Path.join directory (stem ++ ".py")) stem = some path ↔
      Preferred tree directory stem path := by
  have compiled : _ ↔ Beside tree directory stem ".pyc" :=
    isFile_withExtension_iff named plain (by decide : '/' ∉ "pyc".toList) rfl
  have optimized : _ ↔ Beside tree directory stem ".pyo" :=
    isFile_withExtension_iff named plain (by decide : '/' ∉ "pyo".toList) rfl
  rw [found?]
  by_cases first : Beside tree directory stem ".pyc"
  · rw [List.find?_cons_of_pos (compiled.mpr first), Option.some_or,
      withExtension_eq named plain (by decide) (rfl : "." ++ "pyc" = ".pyc") first.1]
    constructor
    · rintro ⟨⟩
      exact .compiled first
    · intro preferred
      cases preferred with
      | compiled => rfl
      | optimized notCompiled => exact absurd first notCompiled
      | cached notCompiled => exact absurd first notCompiled
  · rw [List.find?_cons_of_neg (mt compiled.mp first)]
    by_cases second : Beside tree directory stem ".pyo"
    · rw [List.find?_cons_of_pos (optimized.mpr second), Option.some_or,
        withExtension_eq named plain (by decide) (rfl : "." ++ "pyo" = ".pyo") second.1]
      constructor
      · rintro ⟨⟩
        exact .optimized first second
      · intro preferred
        cases preferred with
        | compiled stands => exact absurd stands first
        | optimized => rfl
        | cached _ notOptimized => exact absurd second notOptimized
    · rw [List.find?_cons_of_neg (mt optimized.mp second), List.find?_nil, Option.none_or,
        Option.map_eq_some_iff]
      simp only [leastName?_eq_some_iff, mem_cachedNames_iff named]
      constructor
      · rintro ⟨name, ⟨found, least⟩, rfl⟩
        exact .cached first second found least
      · intro preferred
        cases preferred with
        | compiled stands => exact absurd stands first
        | optimized _ stands => exact absurd stands second
        | cached _ _ found least => exact ⟨_, ⟨found, least⟩, rfl⟩

/-- Nothing stands for a source that has no file beside it and none in its cache directory. -/
theorem found?_eq_none_iff (named : stem ≠ "") (plain : '/' ∉ stem.toList) :
    found? tree (Path.join directory (stem ++ ".py")) stem = none ↔
      ¬Beside tree directory stem ".pyc" ∧ ¬Beside tree directory stem ".pyo" ∧
        ∀ name, ¬Cached tree directory stem name := by
  have compiled : _ ↔ Beside tree directory stem ".pyc" :=
    isFile_withExtension_iff named plain (by decide : '/' ∉ "pyc".toList) rfl
  have optimized : _ ↔ Beside tree directory stem ".pyo" :=
    isFile_withExtension_iff named plain (by decide : '/' ∉ "pyo".toList) rfl
  rw [found?, Option.or_eq_none_iff, List.find?_eq_none, Option.map_eq_none_iff,
    leastName?_eq_none_iff, List.eq_nil_iff_forall_not_mem, List.forall_mem_cons,
    List.forall_mem_singleton, compiled, optimized, and_assoc]
  simp only [mem_cachedNames_iff named]

/-! ## Resolving paths -/

/-- **What a source stands for.** -/
structure SourceStands (tree : FileTree) (directory stem : String) : Prop where
  found : ∀ path, resolve FileTree.system (Path.join directory (stem ++ ".py")) tree =
    (.ok path, tree) ↔ Preferred tree directory stem path
  missing : resolve FileTree.system (Path.join directory (stem ++ ".py")) tree =
      (.error (.noCompiledFile (Path.join directory (stem ++ ".py"))), tree) ↔
    ¬Beside tree directory stem ".pyc" ∧ ¬Beside tree directory stem ".pyo" ∧
      ∀ name, ¬Cached tree directory stem name
  /-- The cache directory is the one in the directory of the source. -/
  cache : FileTree.checkPath (Path.join directory "__pycache__") = .ok () →
    tree.follow (cacheDirectory (Path.join directory (stem ++ ".py"))) =
      tree.follow (Path.join directory "__pycache__")

theorem resolve_source (tree : FileTree) (named : stem ≠ "") (plain : '/' ∉ stem.toList) :
    resolve FileTree.system (Path.join directory (stem ++ ".py")) tree =
      ((found? tree (Path.join directory (stem ++ ".py")) stem).elim
        (.error (.noCompiledFile (Path.join directory (stem ++ ".py")))) .ok, tree) := by
  rw [resolve, if_pos (Path.extension?_source named plain),
    ofSource_eq tree (Path.stem?_source named plain)]

theorem resolve_other (tree : FileTree) {path : String} (other : Path.extension? path ≠ some "py") :
    resolve FileTree.system path tree =
      (if tree.isFile path then .ok path else .error (.notFile path), tree) := by
  have read : FileTree.system.isFile path tree = (tree.isFile path, tree) := rfl
  rw [resolve, if_neg other, bind_eq_of_run read]
  cases tree.isFile path <;> rfl

theorem follow_cacheDirectory (tree : FileTree) (named : stem ≠ "") (plain : '/' ∉ stem.toList)
    (checked : FileTree.checkPath (Path.join directory "__pycache__") = .ok ()) :
    tree.follow (cacheDirectory (Path.join directory (stem ++ ".py"))) =
      tree.follow (Path.join directory "__pycache__") := by
  have apart := Path.plain_append plain (by decide : '/' ∉ ".py".toList)
  have proper := Path.isIdle_dotted named "py"
  rw [← Path.source_eq] at proper
  obtain ⟨above, parent, shortens⟩ : ∃ above, Path.parent? (Path.join directory (stem ++ ".py")) =
      some above ∧ Path.Shortens above directory := Path.exists_parent apart proper
  rw [cacheDirectory, parent, Option.getD_some]
  exact FileTree.follow_join_of_shortens shortens (by decide) (by decide) checked

theorem sourceStands (tree : FileTree) (named : stem ≠ "") (plain : '/' ∉ stem.toList) :
    SourceStands tree directory stem := by
  refine ⟨fun path => ?_, ?_, follow_cacheDirectory tree named plain⟩
  · rw [resolve_source tree named plain, ← found?_eq_some_iff named plain]
    cases found? tree (Path.join directory (stem ++ ".py")) stem with
    | none => exact iff_of_false nofun nofun
    | some found =>
        constructor
        · rintro ⟨⟩
          rfl
        · rintro ⟨⟩
          rfl
  · rw [resolve_source tree named plain, ← found?_eq_none_iff named plain]
    cases found? tree (Path.join directory (stem ++ ".py")) stem with
    | none => exact iff_of_true rfl rfl
    | some found => exact iff_of_false nofun nofun

theorem isFile_of_found? {source path : String} (found : found? tree source stem = some path) :
    tree.isFile path = true := by
  rw [found?, Option.or_eq_some_iff] at found
  rcases found with beside | ⟨_, cached⟩
  · exact List.find?_some beside
  · obtain ⟨name, least, rfl⟩ := Option.map_eq_some_iff.mp cached
    exact (List.mem_filter.mp (leastName?_eq_some_iff.mp least).1).2

/-- What comes back is a file, whatever the path was. -/
theorem isFile_of_resolve {path found : String}
    (resolved : (resolve FileTree.system path tree).1 = .ok found) : tree.isFile found = true := by
  by_cases source : Path.extension? path = some "py"
  · obtain ⟨name, named, _⟩ := Option.bind_eq_some_iff.mp source
    have cut : Path.stem? path = some (Path.splitName name).1 := by
      rw [Path.stem?, named, Option.map_some]
    rw [resolve, if_pos source, ofSource_eq tree cut] at resolved
    cases stands : found? tree path (Path.splitName name).1 with
    | none =>
        rw [stands] at resolved
        cases resolved
    | some other =>
        rw [stands] at resolved
        cases resolved
        exact isFile_of_found? stands
  · rw [resolve_other tree source] at resolved
    by_cases stands : tree.isFile path = true
    · rw [if_pos stands] at resolved
      cases resolved
      exact stands
    · rw [if_neg stands] at resolved
      cases resolved

/-- **Paths stand for files.** A source stands for the preferred file of its name, and for none if
there is neither one beside it nor one in its cache directory; every other path stands for itself
if it leads to a file. What a path stands for is a file, and nothing changes. -/
theorem resolve_exact (tree : FileTree) :
    (∀ directory stem, stem ≠ "" → '/' ∉ stem.toList → SourceStands tree directory stem) ∧
    (∀ path, Path.extension? path ≠ some "py" →
      resolve FileTree.system path tree =
        (if tree.isFile path then .ok path else .error (.notFile path), tree)) ∧
    ∀ path found, (resolve FileTree.system path tree).1 = .ok found →
      tree.isFile found = true :=
  ⟨fun _ _ named plain => sourceStands tree named plain, fun _ other => resolve_other tree other,
    fun _ _ resolved => isFile_of_resolve resolved⟩

/-- A cache directory with a file that has no tag. -/
def untaggedTree : FileTree :=
  ⟨.directory [("__pycache__", .directory [("m.pyc", .file [])])], []⟩

theorem cached_untagged_iff {name : String} : Cached untaggedTree "" "m" name ↔ name = "m.pyc" := by
  constructor
  · intro cached
    exact List.mem_singleton.mp cached.listed
  · rintro rfl
    exact ⟨List.mem_singleton_self _, .untagged, rfl⟩

/-- The file without a tag is what the source stands for. -/
theorem resolve_exact_untagged :
    resolve FileTree.system "m.py" untaggedTree = (.ok "__pycache__/m.pyc", untaggedTree) ∧
      ∀ tag, "m.pyc" ≠ "m" ++ "." ++ tag ++ ".pyc" := by
  constructor
  · have stands := (resolve_exact untaggedTree).1 "" "m" (by decide) (by decide)
    refine (stands.found _).mpr (.cached ?_ ?_ (cached_untagged_iff.mpr rfl) ?_)
    · rintro ⟨_, file⟩
      cases file
    · rintro ⟨_, file⟩
      cases file
    · rintro other cached
      rw [cached_untagged_iff.mp cached]
  · intro tag same
    have length := congrArg String.length same
    simp only [String.length_append] at length
    change 5 = 1 + 1 + tag.length + 4 at length
    omega

end Artifact

end PycListing

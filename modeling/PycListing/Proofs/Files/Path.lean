import PycListing.Proofs.Files.Tree
import PycListing.Proofs.Text.Words
import Mathlib.Data.String.Basic

/-! # Names that are joined to a directory

A path that is made of a directory and a name has that name as its last one, and any extension can
be put in the place of the name's own (`PycListing.Path.withExtension_join`). The path above it is
that of the directory, or a shorter one with the same names in it: what is joined to either leads
to the same place (`PycListing.FileTree.follow_join_of_shortens`).
-/

namespace PycListing

namespace Path

/-! ## Segments -/

theorem ofSegments_segments (path : String) : ofSegments (segments path) = path := by
  have same : String.toList ∘ String.ofList = id := funext fun _ => String.toList_ofList
  apply String.toList_injective
  rw [ofSegments, segments, String.toList_intercalate, List.map_map, same, List.map_id]
  exact List.intercalate_splitOn '/'

theorem segments_ofSegments {names : List String} (some : names ≠ [])
    (plain : ∀ name ∈ names, '/' ∉ name.toList) : segments (ofSegments names) = names := by
  have same : String.ofList ∘ String.toList = id := funext fun _ => String.ofList_toList
  have apart : ∀ text ∈ names.map String.toList, '/' ∉ text := by
    intro text member
    obtain ⟨name, among, rfl⟩ := List.mem_map.mp member
    exact plain name among
  have split := List.splitOn_intercalate '/' apart (mt List.map_eq_nil_iff.mp some)
  rw [ofSegments, segments, String.toList_intercalate]
  change (List.splitOn '/' (['/'].intercalate _)).map _ = _
  rw [split, List.map_map, same, List.map_id]

theorem slash_not_mem_of_mem_segments {path name : String} (member : name ∈ segments path) :
    '/' ∉ name.toList := by
  obtain ⟨text, among, rfl⟩ := List.mem_map.mp member
  rw [String.toList_ofList]
  exact Text.not_mem_of_mem_splitOn among

theorem segments_append_slash (before after : String) :
    segments (before ++ "/" ++ after) = segments before ++ segments after := by
  rw [segments, segments, segments, ← List.map_append, String.toList_append,
    String.toList_append, List.append_assoc]
  exact congrArg _ (List.splitOn_append_cons_self _ _)

/-- A path starts at the root if its first segment is empty, unless it is empty itself. -/
theorem isAbsolute_iff {path : String} (named : path ≠ "") :
    isAbsolute path = true ↔ (segments path).head? = some "" := by
  rw [isAbsolute, segments, List.head?_map, decide_eq_true_iff]
  cases text : path.toList with
  | nil => exact absurd (String.toList_eq_nil_iff.mp text) named
  | cons c rest =>
      rw [List.splitOn_cons_eq_if_modifyHead, List.head?_cons]
      by_cases slash : c = '/'
      · subst slash
        exact iff_of_true rfl rfl
      · rw [if_neg (mt beq_iff_eq.mp slash)]
        cases pieces : rest.splitOn '/' with
        | nil => exact absurd pieces (List.splitOn_ne_nil _ _)
        | cons front others =>
            refine iff_of_false (mt (Option.some.inj ·) slash) ?_
            intro empty
            have none := String.ofList_injective (Option.some.inj empty)
            cases none

/-! ## Joined names -/

/-- The segments in front of a name that is joined to a directory. -/
def front (directory : String) : List String :=
  if directory = "" then []
  else if directory.toList.getLast? = some '/' then (segments directory).dropLast
  else segments directory

theorem isAbsolute_eq_false {name : String} (plain : '/' ∉ name.toList) :
    isAbsolute name = false := by
  rw [isAbsolute, decide_eq_false_iff_not]
  exact fun first => plain (List.mem_of_mem_head? first)

/-- What ends in a slash has an empty segment behind it. -/
theorem exists_of_getLast?_slash {path : String} (slashed : path.toList.getLast? = some '/') :
    ∃ before, path = before ++ "/" := by
  obtain ⟨before, split⟩ := List.getLast?_eq_some_iff.mp slashed
  refine ⟨String.ofList before, ?_⟩
  apply String.toList_injective
  rw [split, String.toList_append, String.toList_ofList]
  rfl

variable {directory name stem : String}

theorem segments_of_plain (plain : '/' ∉ name.toList) : segments name = [name] := by
  rw [segments, List.splitOn_eq_singleton plain, List.map_singleton, String.ofList_toList]

theorem segments_slashed (before : String) :
    segments (before ++ "/") = segments before ++ [""] := by
  have ends := segments_append_slash before ""
  rwa [String.append_empty] at ends

theorem segments_join (plain : '/' ∉ name.toList) :
    segments (join directory name) = front directory ++ [name] := by
  have single := segments_of_plain plain
  rw [join, front, isAbsolute_eq_false plain, if_neg Bool.false_ne_true]
  by_cases empty : directory = ""
  · rw [if_pos empty, if_pos empty, single, List.nil_append]
  · rw [if_neg empty, if_neg empty]
    by_cases slashed : directory.toList.getLast? = some '/'
    · rw [if_pos slashed, if_pos slashed]
      obtain ⟨before, rfl⟩ := exists_of_getLast?_slash slashed
      rw [segments_append_slash, segments_slashed, List.dropLast_concat, single]
    · rw [if_neg slashed, if_neg slashed, segments_append_slash, single]

theorem join_eq (plain : '/' ∉ name.toList) :
    join directory name = ofSegments (front directory ++ [name]) := by
  rw [← segments_join plain, ofSegments_segments]

theorem join_append {more : String} (plain : '/' ∉ (name ++ more).toList) :
    join directory (name ++ more) = join directory name ++ more := by
  have plainName : '/' ∉ name.toList := by
    rw [String.toList_append] at plain
    exact fun member => plain (List.mem_append_left _ member)
  rw [join, join, isAbsolute_eq_false plain, isAbsolute_eq_false plainName]
  simp only [Bool.false_eq_true, if_false]
  split
  · rfl
  · split
    · exact String.append_assoc.symm
    · exact String.append_assoc.symm

theorem splitLast?_join (plain : '/' ∉ name.toList) (proper : isIdle name = false) :
    splitLast? (join directory name) =
      if name = ".." then none else some (front directory, name) := by
  rw [splitLast?, segments_join plain, List.reverse_append, List.reverse_singleton,
    List.singleton_append, List.dropWhile_cons_of_neg (Bool.eq_false_iff.mp proper)]
  simp only [List.reverse_reverse]

/-! ## Extensions -/

/-- A name is cut at its last dot, which it does not start with. -/
theorem splitName_eq {extension : String} (named : stem ≠ "") (plain : '.' ∉ extension.toList) :
    splitName (stem ++ "." ++ extension) = (stem, some extension) := by
  have reversed : (stem ++ "." ++ extension).toList.reverse =
      extension.toList.reverse ++ '.' :: stem.toList.reverse := by
    rw [String.toList_append, String.toList_append, List.reverse_append, List.reverse_append]
    rfl
  have taken : (stem ++ "." ++ extension).toList.reverse.takeWhile (· != '.') =
      extension.toList.reverse := by
    rw [reversed, List.takeWhile_append_of_pos, List.takeWhile_cons_of_neg, List.append_nil]
    · decide
    · intro c member
      rw [bne_iff_ne]
      rintro rfl
      exact plain (List.mem_reverse.mp member)
  simp only [splitName, taken]
  rw [reversed, List.drop_left, List.reverse_reverse, String.ofList_toList]
  split
  · rename_i none
    cases none
  · rename_i single
    exact absurd (List.reverse_eq_nil_iff.mp (List.cons.inj single).2)
      (mt String.toList_eq_nil_iff.mp named)
  · rename_i cut
    rw [← (List.cons.inj cut).2, List.reverse_reverse, String.ofList_toList]

/-- A name that has an extension is cut in front of it. -/
theorem exists_of_splitName {extension : String} (cut : (splitName name).2 = some extension) :
    '.' ∉ extension.toList ∧ ∃ stem, stem ≠ "" ∧ name = stem ++ "." ++ extension := by
  let other := fun c : Char => c != '.'
  have dropped : (name.toList.reverse.takeWhile other ++ name.toList.reverse.dropWhile other).drop
      (name.toList.reverse.takeWhile other).length = name.toList.reverse.dropWhile other :=
    List.drop_left
  rw [List.takeWhile_append_dropWhile] at dropped
  simp only [splitName] at cut
  split at cut
  · cases cut
  · cases cut
  · rename_i dot before longer rest
    have rest : name.toList.reverse.dropWhile other = dot :: before := dropped.symm.trans rest
    have isDot := List.head?_dropWhile_not other name.toList.reverse
    rw [rest] at isDot
    obtain rfl : dot = '.' := bne_eq_false_iff_eq.mp isDot
    have whole := List.takeWhile_append_dropWhile (p := other) (l := name.toList.reverse)
    rw [rest] at whole
    obtain rfl := Option.some.inj cut
    constructor
    · rw [String.toList_ofList, List.mem_reverse]
      exact fun member => Bool.false_ne_true (List.mem_takeWhile_imp member)
    · refine ⟨String.ofList before.reverse, ?_, ?_⟩
      · exact fun empty => longer (List.reverse_eq_nil_iff.mp (String.ofList_injective empty))
      · have split := congrArg List.reverse whole
        rw [List.reverse_reverse, List.reverse_append, List.reverse_cons] at split
        apply String.toList_injective
        rw [String.toList_append, String.toList_append, String.toList_ofList, String.toList_ofList,
          String.toList_ofList]
        exact split.symm

theorem isIdle_eq_false_iff : isIdle name = false ↔ name ≠ "" ∧ name ≠ "." := by
  simp only [isIdle, Bool.or_eq_false_iff, decide_eq_false_iff_not]

/-- A name with a dot, and something in front of it, is no idle segment. -/
theorem isIdle_dotted (named : stem ≠ "") (more : String) :
    isIdle (stem ++ "." ++ more) = false := by
  have long : 0 < stem.length := Nat.pos_of_ne_zero (mt String.length_eq_zero_iff.mp named)
  have length : (stem ++ "." ++ more).length = stem.length + 1 + more.length := by
    rw [String.length_append, String.length_append]
    rfl
  refine isIdle_eq_false_iff.mpr ⟨?_, ?_⟩
  · intro same
    rw [same, String.length_empty] at length
    omega
  · intro same
    rw [same] at length
    change 1 = _ at length
    omega

theorem source_eq (stem : String) : stem ++ ".py" = stem ++ "." ++ "py" := by
  rw [String.append_assoc]
  rfl

theorem plain_append {first second : String} (plain : '/' ∉ first.toList)
    (plainSecond : '/' ∉ second.toList) : '/' ∉ (first ++ second).toList := by
  rw [String.toList_append, List.mem_append, not_or]
  exact ⟨plain, plainSecond⟩

/-- A source is cut in front of its extension. -/
theorem splitLast?_source (named : stem ≠ "") (plain : '/' ∉ stem.toList) :
    splitLast? (join directory (stem ++ ".py")) = some (front directory, stem ++ ".py") := by
  have other : stem ++ ".py" ≠ ".." := by
    intro same
    have length := congrArg String.length same
    rw [String.length_append] at length
    change stem.length + 3 = 2 at length
    omega
  rw [splitLast?_join (plain_append plain (by decide)) (source_eq stem ▸ isIdle_dotted named "py"),
    if_neg other]

theorem splitName_source (named : stem ≠ "") : splitName (stem ++ ".py") = (stem, some "py") := by
  rw [source_eq, splitName_eq named (by decide)]

theorem stem?_source (named : stem ≠ "") (plain : '/' ∉ stem.toList) :
    stem? (join directory (stem ++ ".py")) = some stem := by
  rw [stem?, fileName?, splitLast?_source named plain, Option.map_some, Option.map_some,
    splitName_source named]

theorem extension?_source (named : stem ≠ "") (plain : '/' ∉ stem.toList) :
    extension? (join directory (stem ++ ".py")) = some "py" := by
  rw [extension?, fileName?, splitLast?_source named plain, Option.map_some, Option.bind_some,
    splitName_source named]

/-- Another extension is put in the place of a source's own, unless the name in front of it is a
dot: the two dots that are left then are no name. -/
theorem withExtension_source {extension : String} (named : stem ≠ "") (plain : '/' ∉ stem.toList)
    (plainExtension : '/' ∉ extension.toList) :
    withExtension (join directory (stem ++ ".py")) extension =
      join directory (if stem = "." then ".." else stem ++ "." ++ extension) := by
  have dotted : '/' ∉ (stem ++ ".").toList := plain_append plain (by decide)
  have taken : (join directory (stem ++ ".py")).toList.take
      ((join directory (stem ++ ".py")).length - "py".length) =
        (join directory (stem ++ ".")).toList := by
    rw [source_eq, join_append (plain_append dotted (by decide)), String.length_append,
      Nat.add_sub_cancel, String.toList_append]
    exact List.take_left
  rw [withExtension, extension?_source named plain]
  dsimp only
  rw [taken, String.ofList_toList, putExtension]
  have dots : "." ++ "." = ".." := rfl
  by_cases single : stem = "."
  · subst single
    rw [splitLast?_join dotted (by decide), dots, if_pos rfl, if_pos rfl]
  · have proper := isIdle_dotted named ""
    have cut : splitName (stem ++ "." ++ "") = (stem, some "") :=
      splitName_eq named List.not_mem_nil
    rw [String.append_empty] at proper cut
    have other : stem ++ "." ≠ ".." := by
      intro same
      rw [← dots] at same
      exact single ((String.append_left_inj ".").mp same)
    rw [splitLast?_join dotted proper, if_neg other, if_neg single,
      join_eq (plain_append dotted plainExtension)]
    dsimp only
    rw [cut]

/-! ## The path above -/

/-- A directory that is named with fewer segments, where the others lead nowhere else. -/
structure Shortens (short long : String) : Prop where
  fewer : (front short).Sublist (front long)
  bare : dropIdleEnd (front short) = dropIdleEnd (front long)
  absolute : isAbsolute short = isAbsolute long

theorem isAbsolute_join (plain : '/' ∉ name.toList) :
    isAbsolute (join directory name) = isAbsolute directory := by
  have starts (more : String) (some : directory ≠ "") :
      isAbsolute (directory ++ more) = isAbsolute directory := by
    have chars := mt String.toList_eq_nil_iff.mp some
    rw [isAbsolute, isAbsolute, String.toList_append, List.head?_append_of_ne_nil _ chars]
  rw [join, isAbsolute_eq_false plain, if_neg Bool.false_ne_true]
  by_cases empty : directory = ""
  · rw [if_pos empty, empty, isAbsolute_eq_false plain]
    rfl
  · rw [if_neg empty]
    split
    · exact starts name empty
    · rw [String.append_assoc]
      exact starts ("/" ++ name) empty

theorem dropIdleEnd_eq (names : List String) : dropIdleEnd names = names.rdropWhile isIdle :=
  rfl

/-- Segments that do not end in an idle one are all in front of a name that is joined to them. -/
theorem front_ofSegments {names : List String} (plain : ∀ name ∈ names, '/' ∉ name.toList)
    (some : names ≠ []) (proper : dropIdleEnd names = names) :
    front (ofSegments names) = names := by
  have split := segments_ofSegments some plain
  have last := List.rdropWhile_eq_self_iff.mp proper some
  have notIdle : names.getLast? ≠ Option.some "" := by
    intro ends
    rw [List.getLast?_eq_getLast_of_ne_nil some] at ends
    rw [Option.some.inj ends] at last
    exact last rfl
  rw [front]
  by_cases empty : ofSegments names = ""
  · rw [empty] at split
    rw [← split] at notIdle
    exact absurd rfl notIdle
  · rw [if_neg empty]
    by_cases slashed : (ofSegments names).toList.getLast? = Option.some '/'
    · obtain ⟨before, same⟩ := exists_of_getLast?_slash slashed
      rw [same, segments_slashed] at split
      rw [← split, List.getLast?_concat] at notIdle
      exact absurd rfl notIdle
    · rw [if_neg slashed, split]

theorem slash_not_mem_of_mem_front {segment : String} (member : segment ∈ front directory) :
    '/' ∉ segment.toList := by
  have segments : segments (join directory "") = front directory ++ [""] :=
    segments_join List.not_mem_nil
  apply slash_not_mem_of_mem_segments
  rw [segments]
  exact List.mem_append_left _ member

theorem join_ne_empty (plain : '/' ∉ name.toList) (proper : isIdle name = false) :
    join directory name ≠ "" := by
  intro empty
  have split : segments (join directory name) = front directory ++ [name] := segments_join plain
  have last := congrArg List.getLast? split
  rw [empty, List.getLast?_concat] at last
  exact (isIdle_eq_false_iff.mp proper).1 (Option.some.inj last).symm

theorem isAbsolute_iff_front :
    isAbsolute directory = true ↔ (front directory).head? = some "" := by
  have plain : '/' ∉ "x".toList := by decide
  rw [← isAbsolute_join plain, isAbsolute_iff (join_ne_empty plain (by decide)),
    segments_join plain]
  cases front directory with
  | nil => exact iff_of_false (by decide) nofun
  | cons first others => exact Iff.rfl

/-- The path above a name that is joined to a directory is the directory's, or a shorter one. -/
theorem exists_parent (plain : '/' ∉ name.toList) (proper : isIdle name = false) :
    ∃ above, parent? (join directory name) = some above ∧ Shortens above directory := by
  rw [parent?, segments_join plain, List.reverse_append, List.reverse_singleton,
    List.singleton_append, List.dropWhile_cons_of_neg (Bool.eq_false_iff.mp proper)]
  dsimp only
  rw [List.reverse_reverse, isAbsolute_join plain]
  cases bare : dropIdleEnd (front directory) with
  | nil =>
      refine ⟨_, rfl, ?_⟩
      by_cases root : isAbsolute directory = true
      · rw [if_pos root]
        have among := List.mem_of_mem_head? (isAbsolute_iff_front.mp root)
        refine ⟨List.singleton_sublist.mpr among, ?_, root.symm⟩
        rw [bare]
        rfl
      · rw [if_neg root]
        have relative := Bool.eq_false_iff.mpr root
        by_cases dot : (front directory).head? = some "."
        · rw [if_pos dot]
          refine ⟨List.singleton_sublist.mpr (List.mem_of_mem_head? dot), ?_, relative.symm⟩
          rw [bare]
          rfl
        · rw [if_neg dot]
          refine ⟨List.nil_sublist _, ?_, relative.symm⟩
          rw [bare]
          rfl
  | cons first others =>
      refine ⟨_, rfl, ?_⟩
      have shorter : first :: others <+: front directory := by
        rw [← bare]
        exact List.rdropWhile_prefix _ _
      have again : dropIdleEnd (first :: others) = first :: others := by
        rw [← bare]
        exact List.rdropWhile_idempotent _ _
      have same : front (ofSegments (first :: others)) = first :: others :=
        front_ofSegments (fun segment member => slash_not_mem_of_mem_front (shorter.subset member))
          (List.cons_ne_nil _ _) again
      refine ⟨?_, ?_, ?_⟩
      · rw [same]
        exact shorter.sublist
      · rw [same, again, bare]
      · rw [Bool.eq_iff_iff, isAbsolute_iff_front, isAbsolute_iff_front, same]
        obtain ⟨more, split⟩ := shorter
        rw [← split]
        rfl

end Path

namespace FileTree

/-! ## Where joined names lead -/

theorem sublist_intercalate {separator : List Char} {few many : List (List Char)}
    (fewer : few.Sublist many) :
    (separator.intercalate few).Sublist (separator.intercalate many) := by
  induction fewer with
  | slnil => exact .slnil
  | @cons few many text fewer ih =>
      cases many with
      | nil =>
          rw [List.sublist_nil.mp fewer]
          exact List.nil_sublist _
      | cons next many =>
          rw [List.intercalate_cons_cons]
          exact ih.trans (List.sublist_append_right _ _)
  | @cons_cons few many text fewer ih =>
      cases many with
      | nil => rw [List.sublist_nil.mp fewer]
      | cons next many =>
          rw [List.intercalate_cons_cons]
          cases few with
          | nil =>
              rw [List.intercalate_singleton, List.append_assoc]
              exact List.sublist_append_left _ _
          | cons other few =>
              rw [List.intercalate_cons_cons]
              exact ih.append_left _

/-- Fewer segments make a text of fewer characters. -/
theorem sublist_ofSegments {few many : List String} (fewer : few.Sublist many) :
    (Path.ofSegments few).toList.Sublist (Path.ofSegments many).toList := by
  rw [Path.ofSegments, Path.ofSegments, String.toList_intercalate, String.toList_intercalate]
  exact sublist_intercalate (fewer.map String.toList)

theorem checkPath_of_sublist {short long : String} (named : short ≠ "")
    (part : short.toList.Sublist long.toList) (checked : checkPath long = .ok ()) :
    checkPath short = .ok () := by
  have smaller : short.utf8ByteSize ≤ long.utf8ByteSize := by
    rw [← String.utf8Len_toList, ← String.utf8Len_toList]
    exact String.utf8Len_le_of_sublist part
  rw [checkPath] at checked ⊢
  split at checked
  · cases checked
  · rename_i clean
    split at checked
    · cases checked
    · split at checked
      · cases checked
      · rename_i fits
        have alsoClean : ¬short.toList.contains '\x00' = true := fun inside =>
          clean (List.contains_iff_mem.mpr (part.subset (List.contains_iff_mem.mp inside)))
        rw [if_neg alsoClean, if_neg named,
          if_neg fun large => fits (Nat.le_trans large smaller)]

variable {tree : FileTree} {place : List String}

/-- An idle segment leads nowhere else, and what follows it fails where it does. -/
theorem step_idle {segment : String} (idle : Path.isIdle segment = true) (next : String) :
    (tree.step place segment >>= fun place => tree.step place next) = tree.step place next := by
  cases stands : tree.at? place with
  | none =>
      have nowhere (name : String) : tree.step place name = .error .notFound := by
        rw [step, stands]
      rw [nowhere, nowhere]
      rfl
  | some node =>
      cases node with
      | file content =>
          have nowhere (name : String) : tree.step place name = .error .notDirectory := by
            rw [step, stands]
          rw [nowhere, nowhere]
          rfl
      | directory entries =>
          have stays : tree.step place segment = .ok place := by
            rw [step, stands]
            exact if_pos idle
          rw [stays]
          rfl

theorem foldlM_dropIdleEnd (names : List String) (next : String) :
    (names ++ [next]).foldlM tree.step place =
      (Path.dropIdleEnd names ++ [next]).foldlM tree.step place := by
  induction names using List.reverseRecOn with
  | nil => rfl
  | append_singleton names last ih =>
      by_cases idle : Path.isIdle last = true
      · rw [Path.dropIdleEnd_eq, List.rdropWhile_concat_pos _ _ _ idle, ← Path.dropIdleEnd_eq, ← ih,
          List.append_assoc, List.foldlM_append, List.foldlM_append]
        congr 1
        funext middle
        have step : (tree.step middle last >>= fun place => tree.step place next) =
            tree.step middle next := step_idle idle next
        simp only [List.singleton_append, List.foldlM_cons, List.foldlM_nil, bind_pure]
        exact step
      · rw [Path.dropIdleEnd_eq, List.rdropWhile_concat_neg _ _ _ idle]

/-- A name that is joined to either of two such directories leads to the same place. -/
theorem follow_join_of_shortens {short long name : String} (shortens : Path.Shortens short long)
    (plain : '/' ∉ name.toList) (proper : Path.isIdle name = false)
    (checked : checkPath (Path.join long name) = .ok ()) :
    tree.follow (Path.join short name) = tree.follow (Path.join long name) := by
  have part : (Path.join short name).toList.Sublist (Path.join long name).toList := by
    rw [Path.join_eq plain, Path.join_eq plain]
    exact sublist_ofSegments (shortens.fewer.append_right [name])
  have alsoChecked := checkPath_of_sublist (Path.join_ne_empty plain proper) part checked
  have start : tree.start (Path.join short name) = tree.start (Path.join long name) := by
    rw [start, start, Path.isAbsolute_join plain, Path.isAbsolute_join plain, shortens.absolute]
  rw [follow, follow, checked, alsoChecked, start, Path.segments_join plain,
    Path.segments_join plain, foldlM_dropIdleEnd, shortens.bare, ← foldlM_dropIdleEnd]

/-- Two dots lead to a directory, if to anything. -/
theorem isFile_join_up (tree : FileTree) (directory : String) :
    tree.isFile (Path.join directory "..") = false := by
  rw [isFile]
  cases followed : tree.follow (Path.join directory "..") with
  | error error =>
      rw [find, followed]
      rfl
  | ok place =>
      obtain ⟨⟨⟩, _, steps⟩ := except_bind_eq_ok followed
      rw [Path.segments_join (by decide), List.foldlM_append] at steps
      obtain ⟨middle, _, last⟩ := except_bind_eq_ok steps
      obtain ⟨next, stepped, done⟩ := except_bind_eq_ok last
      cases done
      obtain ⟨stood, leads⟩ := step_eq_ok_iff.mp stepped
      have above : tree.standing place = .directory := by
        cases leads with
        | stay idle => cases idle
        | into proper other => exact absurd rfl other
        | up => exact standing_dropLast stood
      obtain ⟨entries, found⟩ := standing_eq_directory.mp above
      rw [find_eq followed, found]
      rfl

end FileTree

end PycListing

import PycListing.Proofs.Traversal.Occurrence
import Mathlib.Data.List.Flatten
import Mathlib.Data.List.Nodup
import Mathlib.Data.List.Perm.Basic

/-! # The two orders list the same units

Each loop over a tree is followed with the paths of the units in hand. In discovery order no unit
comes after one that stands below it, in dependency order none comes before it, and both list every
path of the tree once (`PycListing.orders_enumerate`). That they list the same is the one fact that
ties them together: the units of a queue in discovery order are, but for their arrangement, those
of each of its trees in dependency order (`PycListing.Occurrence.discover_perm`).
-/

namespace PycListing

namespace Traversal

/-- What a frame has yet to list: the trees among the constants not looked at, then its unit. -/
def Frame.left (frame : Frame) : List CodeUnit :=
  (frame.rest.filterMap Value.unit?).flatMap CodeUnit.dependencyOrder ++ [frame.unit]

theorem filterMap_unit?_of_nextUnit? (consts : List Value) :
    consts.filterMap Value.unit? =
      match nextUnit? consts with
      | some (child, rest) => child :: rest.filterMap Value.unit?
      | none => [] := by
  induction consts with
  | nil => rfl
  | cons value rest ih =>
      cases isUnit : value.unit? with
      | none => simp only [List.filterMap_cons, nextUnit?, isUnit, ih]
      | some unit => simp only [List.filterMap_cons, nextUnit?, isUnit]

/-- The frames are left one after another, each with all that it has yet to list. The induction is
on the constants that no frame has looked at. -/
theorem resolve_eq (done : List CodeUnit) (frames : List Frame) :
    resolve done frames = done.reverse ++ frames.flatMap Frame.left := by
  induction size : sizeOf (frames.map Frame.rest) using Nat.strong_induction_on
    generalizing done frames with
  | _ count ih =>
      cases frames with
      | nil => rw [resolve, List.flatMap_nil, List.append_nil]
      | cons frame outer =>
          obtain ⟨unit, consts⟩ := frame
          have units := filterMap_unit?_of_nextUnit? consts
          rw [resolve]
          split
          · rename_i child rest found
            rw [found] at units
            have smaller := sizeOf_of_nextUnit?_eq_some found
            have inside := child.sizeOf_consts_lt
            simp only [List.map_cons, List.cons.sizeOf_spec] at size
            have within := ih (sizeOf ((Frame.enter child :: ⟨unit, rest⟩ :: outer).map Frame.rest))
              (by simp only [Frame.enter, List.map_cons, List.cons.sizeOf_spec]; omega)
              done _ rfl
            have alone := ih (sizeOf ([Frame.enter child].map Frame.rest))
              (by simp only [Frame.enter, List.map_cons, List.map_nil, List.cons.sizeOf_spec,
                List.nil.sizeOf_spec]; omega) [] _ rfl
            have entered : (Frame.enter child).left = child.dependencyOrder := by
              rw [CodeUnit.dependencyOrder, alone]
              simp only [List.reverse_nil, List.nil_append, List.flatMap_cons, List.flatMap_nil,
                List.append_nil]
            rw [within, List.flatMap_cons, List.flatMap_cons, List.flatMap_cons, entered]
            simp only [Frame.left, units, List.flatMap_cons, List.append_assoc]
          · rename_i found
            rw [found] at units
            have within := ih (sizeOf (outer.map Frame.rest))
              (by simp only [List.map_cons, List.cons.sizeOf_spec] at size; omega)
              (unit :: done) _ rfl
            rw [within]
            simp only [List.flatMap_cons, Frame.left, units, List.flatMap_nil, List.nil_append,
              List.reverse_cons, List.append_assoc]

end Traversal

/-- A unit comes after the trees directly in it, which come in the order of the constants. -/
theorem CodeUnit.dependencyOrder_eq (root : CodeUnit) :
    root.dependencyOrder = root.nested.flatMap dependencyOrder ++ [root] := by
  conv_lhs => rw [dependencyOrder, Traversal.resolve_eq]
  simp only [List.reverse_nil, List.nil_append, List.flatMap_cons, List.flatMap_nil,
    List.append_nil, Traversal.Frame.left, Traversal.Frame.enter, nested]

namespace Occurrence

/-! ## Traversals that know the paths -/

/-- The discovery of the occurrences of a queue, and of those below them. -/
def discover : List Occurrence → List Occurrence
  | [] => []
  | outer :: queue => outer :: discover (queue ++ outer.nested)
termination_by queue => sizeOf (queue.map unit)
decreasing_by
  have smaller := outer.sizeOf_map_unit_nested_lt
  have together := Traversal.sizeOf_append_le (queue.map unit) (outer.nested.map unit)
  rw [List.map_append, List.map_cons, List.cons.sizeOf_spec]
  omega

/-- An occurrence after those below it. -/
def resolve (outer : Occurrence) : List Occurrence :=
  outer.nested.attach.flatMap (fun ⟨inner, _member⟩ => resolve inner) ++ [outer]
termination_by sizeOf outer.unit
decreasing_by exact sizeOf_unit_lt _member

theorem resolve_eq (outer : Occurrence) :
    outer.resolve = outer.nested.flatMap resolve ++ [outer] := by
  rw [resolve, List.flatMap_subtype, List.unattach_attach]
  intros
  rfl

theorem map_unit_discover (queue : List Occurrence) :
    (discover queue).map unit = Traversal.discover (queue.map unit) := by
  fun_induction discover queue with
  | case1 => rw [List.map_nil, Traversal.discover]
  | case2 outer queue ih =>
      rw [List.map_cons, ih, List.map_append, map_unit_nested, List.map_cons, Traversal.discover]

theorem map_unit_resolve (outer : Occurrence) :
    outer.resolve.map unit = outer.unit.dependencyOrder := by
  induction outer using resolve.induct with
  | case1 outer ih =>
      rw [resolve_eq, CodeUnit.dependencyOrder_eq, List.map_append, List.map_flatMap,
        ← map_unit_nested, List.flatMap_map]
      congr 1
      exact List.flatMap_congr ih

open scoped List in
/-- **One order is the other one rearranged.** -/
theorem discover_perm (queue : List Occurrence) :
    (discover queue).Perm (queue.flatMap resolve) := by
  fun_induction discover queue with
  | case1 => exact .nil
  | case2 outer queue ih =>
      calc outer :: discover (queue ++ outer.nested)
        _ ~ outer :: (queue ++ outer.nested).flatMap resolve := ih.cons outer
        _ = [outer] ++ (queue.flatMap resolve ++ outer.nested.flatMap resolve) := by
          rw [List.flatMap_append, List.singleton_append]
        _ ~ (queue.flatMap resolve ++ outer.nested.flatMap resolve) ++ [outer] :=
          List.perm_append_comm
        _ ~ (outer.nested.flatMap resolve ++ queue.flatMap resolve) ++ [outer] :=
          List.perm_append_comm.append_right _
        _ = outer.nested.flatMap resolve ++ (queue.flatMap resolve ++ [outer]) :=
          List.append_assoc _ _ _
        _ ~ outer.nested.flatMap resolve ++ ([outer] ++ queue.flatMap resolve) :=
          List.perm_append_comm.append_left _
        _ = (outer :: queue).flatMap resolve := by
          rw [List.flatMap_cons, resolve_eq outer, List.append_assoc]

/-! ## What the orders list -/

theorem mem_discover {queue : List Occurrence} {inner : Occurrence} :
    inner ∈ discover queue ↔ ∃ outer ∈ queue, inner.Below outer := by
  fun_induction discover queue with
  | case1 => simp only [List.not_mem_nil, false_and, exists_false]
  | case2 outer queue ih =>
      have here : inner.Below outer ↔ _ := below_iff
      simp only [List.mem_cons, ih, List.mem_append, or_and_right, exists_or, exists_eq_left, here]
      rw [or_assoc]
      exact or_congr_right or_comm

theorem mem_resolve {outer inner : Occurrence} :
    inner ∈ outer.resolve ↔ inner.Below outer := by
  have same := discover_perm [outer]
  rw [List.flatMap_singleton] at same
  rw [← same.mem_iff, mem_discover]
  simp only [List.mem_singleton, exists_eq_left]

/-- In discovery order no occurrence comes after one that stands below it. -/
theorem pairwise_discover {queue : List Occurrence} (apart : queue.Pairwise Apart) :
    (discover queue).Pairwise fun earlier later => ¬later.path <+: earlier.path := by
  fun_induction discover queue with
  | case1 => exact .nil
  | case2 outer queue ih =>
      obtain ⟨apartOuter, apartQueue⟩ := List.pairwise_cons.mp apart
      refine List.pairwise_cons.mpr ⟨?_, ih (List.pairwise_append.mpr ⟨apartQueue, ?_, ?_⟩)⟩
      · intro later member
        obtain ⟨start, listed, below⟩ := mem_discover.mp member
        rcases List.mem_append.mp listed with waiting | child
        · exact ((apartOuter start waiting).below (.refl outer) below).2
        · intro within
          have longer := length_lt_of_below_nested child below
          have shorter := within.length_le
          omega
      · exact pairwise_apart_nested outer
      · intro waiting listed child member
        have below := below_iff.mpr (.inr ⟨child, member, .refl child⟩)
        exact ((apartOuter waiting listed).below below (.refl waiting)).symm

/-- In dependency order no occurrence comes before one that stands below it. -/
theorem pairwise_resolve (outer : Occurrence) :
    outer.resolve.Pairwise fun earlier later => ¬earlier.path <+: later.path := by
  induction outer using resolve.induct with
  | case1 outer ih =>
      rw [resolve_eq, List.pairwise_append, List.pairwise_flatMap]
      refine ⟨⟨ih, ?_⟩, List.pairwise_singleton _ _, ?_⟩
      · apply (pairwise_apart_nested outer).imp
        intro first second apart inFirst memberFirst inSecond memberSecond
        exact (apart.below (mem_resolve.mp memberFirst) (mem_resolve.mp memberSecond)).1
      · intro inner member last isOuter within
        obtain ⟨child, nested, below⟩ := List.mem_flatMap.mp member
        have longer := length_lt_of_below_nested nested (mem_resolve.mp below)
        have shorter := within.length_le
        rw [List.mem_singleton.mp isOuter] at shorter
        omega

end Occurrence

/-! ## The orders of a tree -/

/-- The occurrences of the units of a tree, in an order of them. -/
def CodeUnit.occurrences (root : CodeUnit) : TraversalOrder → List Occurrence
  | .discovery => Occurrence.discover [.root root]
  | .dependency => (Occurrence.root root).resolve

theorem CodeUnit.map_unit_occurrences (root : CodeUnit) (order : TraversalOrder) :
    (root.occurrences order).map Occurrence.unit = root.inOrder order := by
  cases order with
  | discovery => exact Occurrence.map_unit_discover _
  | dependency => exact Occurrence.map_unit_resolve _

theorem CodeUnit.occurrences_perm (root : CodeUnit) :
    (root.occurrences .dependency).Perm (root.occurrences .discovery) := by
  have same := (Occurrence.discover_perm [.root root]).symm
  rwa [List.flatMap_singleton] at same

theorem CodeUnit.inOrder_perm (root : CodeUnit) :
    (root.inOrder .dependency).Perm (root.inOrder .discovery) := by
  rw [← map_unit_occurrences, ← map_unit_occurrences]
  exact root.occurrences_perm.map Occurrence.unit

theorem CodeUnit.mem_occurrences {root : CodeUnit} {order : TraversalOrder} {inner : Occurrence} :
    inner ∈ root.occurrences order ↔ root.unitAt? inner.path = some inner.unit := by
  have resolved : inner ∈ root.occurrences .dependency ↔ inner.Below (.root root) :=
    Occurrence.mem_resolve
  rw [← Occurrence.below_root, ← resolved]
  cases order with
  | discovery => exact root.occurrences_perm.symm.mem_iff
  | dependency => exact Iff.rfl

/-- The units that an order lists are those that stand somewhere in the tree. -/
theorem CodeUnit.mem_inOrder {root unit : CodeUnit} {order : TraversalOrder} :
    unit ∈ root.inOrder order ↔ ∃ path, root.unitAt? path = some unit := by
  rw [← map_unit_occurrences, List.mem_map]
  constructor
  · rintro ⟨inner, member, rfl⟩
    exact ⟨inner.path, mem_occurrences.mp member⟩
  · rintro ⟨path, found⟩
    exact ⟨⟨path, unit⟩, mem_occurrences.mpr found, rfl⟩

/-- The paths of a tree's units in an order of them: each path stands there once. -/
structure Enumerates (root : CodeUnit) (order : TraversalOrder) (paths : List Path) : Prop where
  units : paths.map root.unitAt? = (root.inOrder order).map some
  once : paths.Nodup
  mem_iff : ∀ path, path ∈ paths ↔ (root.unitAt? path).isSome

theorem enumerates_of_once {root : CodeUnit} {order : TraversalOrder}
    (once : ((root.occurrences order).map Occurrence.path).Nodup) :
    Enumerates root order ((root.occurrences order).map Occurrence.path) := by
  refine ⟨?_, once, fun path => ?_⟩
  · rw [← CodeUnit.map_unit_occurrences, List.map_map, List.map_map]
    exact List.map_congr_left fun inner member => CodeUnit.mem_occurrences.mp member
  · rw [List.mem_map, Option.isSome_iff_exists]
    constructor
    · rintro ⟨inner, member, rfl⟩
      exact ⟨inner.unit, CodeUnit.mem_occurrences.mp member⟩
    · rintro ⟨unit, found⟩
      exact ⟨⟨path, unit⟩, CodeUnit.mem_occurrences.mpr found, rfl⟩

theorem pairwise_discovered (root : CodeUnit) :
    ((root.occurrences .discovery).map Occurrence.path).Pairwise
      fun earlier later => ¬later <+: earlier :=
  List.pairwise_map.mpr (Occurrence.pairwise_discover (List.pairwise_singleton _ _))

theorem pairwise_resolved (root : CodeUnit) :
    ((root.occurrences .dependency).map Occurrence.path).Pairwise
      fun earlier later => ¬earlier <+: later :=
  List.pairwise_map.mpr (Occurrence.pairwise_resolve _)

theorem idxOf_lt_of_pairwise {α : Type} [BEq α] [LawfulBEq α] {before : α → α → Prop}
    {items : List α} (ordered : items.Pairwise before) {first second : α} (memberFirst : first ∈ items)
    (memberSecond : second ∈ items) (differ : first ≠ second) (never : ¬before second first) :
    items.idxOf first < items.idxOf second := by
  have inFirst := List.idxOf_lt_length_of_mem memberFirst
  have inSecond := List.idxOf_lt_length_of_mem memberSecond
  rcases Nat.lt_trichotomy (items.idxOf first) (items.idxOf second) with less | same | more
  · exact less
  · exact absurd ((List.idxOf_inj memberFirst).mp same) differ
  · have holds := List.pairwise_iff_getElem.mp ordered _ _ inSecond inFirst more
    rw [List.getElem_idxOf, List.getElem_idxOf] at holds
    exact absurd holds never

/-- **Both orders list every unit of the tree once at each of its paths.** -/
theorem orders_enumerate (root : CodeUnit) :
    root.dependencyOrder.Perm root.discoveryOrder ∧
      ∃ discovered resolved : List Path,
        Enumerates root .discovery discovered ∧ Enumerates root .dependency resolved ∧
        discovered.head? = some [] ∧ resolved.getLast? = some [] ∧
        ∀ outer inner : Path, outer <+: inner → outer ≠ inner → (root.unitAt? inner).isSome →
          discovered.idxOf outer < discovered.idxOf inner ∧
            resolved.idxOf inner < resolved.idxOf outer := by
  have discovered := pairwise_discovered root
  have resolved := pairwise_resolved root
  have listsDiscovered := enumerates_of_once (discovered.imp fun never => by
    rintro rfl
    exact never List.prefix_rfl)
  have listsResolved := enumerates_of_once (resolved.imp fun never => by
    rintro rfl
    exact never List.prefix_rfl)
  refine ⟨root.inOrder_perm, _, _, listsDiscovered, listsResolved, ?_, ?_, ?_⟩
  · rw [CodeUnit.occurrences, Occurrence.discover]
    rfl
  · rw [CodeUnit.occurrences, Occurrence.resolve_eq, List.map_append, List.map_singleton,
      List.getLast?_concat]
    rfl
  · intro outer inner within differ stands
    have around := CodeUnit.isSome_unitAt?_of_prefix within stands
    constructor
    · exact idxOf_lt_of_pairwise discovered ((listsDiscovered.mem_iff _).mpr around)
        ((listsDiscovered.mem_iff _).mpr stands) differ fun never => never within
    · exact idxOf_lt_of_pairwise resolved ((listsResolved.mem_iff _).mpr stands)
        ((listsResolved.mem_iff _).mpr around) differ.symm fun never => never within

end PycListing

import VersionRange.Collection
import VersionRange.Proofs.Version.Order

/-! Sorted collections.

Sorting keeps all entries and puts them in order, and leaves equal versions in the
order they had, in either direction. A list can be arranged so in one way only, so
any two roads to such an arrangement end in the same entries: sorting in descending
order and sorting the reversed list in ascending order, or sorting once and twice.
-/

set_option autoImplicit false

namespace VersionRange.Collection

/-- An order to sort by: any two versions stand in it one way or the other, and both ways only if
they are equal. -/
structure IsDirection (before : Version → Version → Bool) : Prop where
  trans : ∀ a b c, before a b → before b c → before a c
  total : ∀ a b, before a b || before b a
  equal : ∀ a b, a == b ↔ before a b ∧ before b a

/-- The entries of a list in order, with those that are equal as they stand in the list. -/
structure IsSorting (before : Version → Version → Bool) (versions sorted : List Version) : Prop where
  perm : sorted.Perm versions
  ordered : sorted.Pairwise fun a b => before a b
  stable : ∀ version, sorted.filter (· == version) = versions.filter (· == version)

theorem isDirection_ascending : IsDirection fun a b => (compare a b).isLE where
  trans _ _ _ first second := Std.TransOrd.isLE_trans first second
  total a b := by
    rw [Std.OrientedOrd.eq_swap (a := b) (b := a)]
    cases compare a b <;> rfl
  equal a b := by
    rw [Std.OrientedOrd.eq_swap (a := b) (b := a)]
    change (compare a b == .eq) ↔ _
    cases compare a b <;> decide

variable {before : Version → Version → Bool}

theorem IsDirection.swap (direction : IsDirection before) : IsDirection fun a b => before b a where
  trans a b c first second := direction.trans c b a second first
  total a b := direction.total b a
  equal a b := (direction.equal a b).trans And.comm

theorem IsDirection.of_beq (direction : IsDirection before) {a b version : Version}
    (first : a == version) (second : b == version) : before a b :=
  direction.trans a version b ((direction.equal a version).mp first).1
    ((direction.equal b version).mp second).2

theorem isSorting_mergeSort (direction : IsDirection before) (versions : List Version) :
    IsSorting before versions (versions.mergeSort before) where
  perm := List.mergeSort_perm versions before
  ordered := List.pairwise_mergeSort direction.trans direction.total versions
  stable version := by
    -- equal versions are in order as they stand, so sorting leaves them in this row
    have row : (versions.filter (· == version)).Pairwise fun a b => before a b := by
      apply List.pairwise_of_forall_mem_list
      intro a first b second
      exact direction.of_beq (List.mem_filter.mp first).2 (List.mem_filter.mp second).2
    have kept := List.sublist_mergeSort direction.trans direction.total row List.filter_sublist
    have inside := kept.filter (· == version)
    simp only [List.filter_filter, Bool.and_self] at inside
    have all := (List.mergeSort_perm versions before).filter (· == version)
    exact (inside.eq_of_length all.length_eq.symm).symm

theorem beq_self (version : Version) : version == version :=
  Version.beq_iff_toPrecedence_eq.mpr rfl

theorem IsDirection.before_of_mem (direction : IsDirection before) {a b : Version}
    {versions : List Version} (ordered : (a :: versions).Pairwise fun a b => before a b)
    (member : b ∈ a :: versions) : before a b := by
  cases member with
  | head => exact ((direction.equal a a).mp (beq_self a)).1
  | tail _ member => exact (List.pairwise_cons.mp ordered).1 b member

theorem mem_iff_of_rows {first second : List Version}
    (rows : ∀ version, first.filter (· == version) = second.filter (· == version))
    (version : Version) : version ∈ first ↔ version ∈ second := by
  have same := congrArg (version ∈ ·) (rows version)
  simpa [List.mem_filter, beq_self] using same

theorem IsDirection.eq_of_ordered (direction : IsDirection before) {first second : List Version}
    (firstOrdered : first.Pairwise fun a b => before a b)
    (secondOrdered : second.Pairwise fun a b => before a b)
    (rows : ∀ version, first.filter (· == version) = second.filter (· == version)) :
    first = second := by
  have members := mem_iff_of_rows rows
  induction first generalizing second with
  | nil => exact (List.eq_nil_iff_forall_not_mem.mpr fun version => by simpa using members version).symm
  | cons a first ih =>
    cases second with
    | nil => simpa using members a
    | cons b second =>
      -- each head is before the other, so both lead the row of one class
      have same : b == a := (direction.equal b a).mpr
        ⟨direction.before_of_mem secondOrdered ((members a).mp (List.mem_cons_self ..)),
          direction.before_of_mem firstOrdered ((members b).mpr (List.mem_cons_self ..))⟩
      have row := rows a
      rw [List.filter_cons, List.filter_cons, if_pos (beq_self a), if_pos same] at row
      obtain ⟨rfl, _⟩ := List.cons.inj row
      have tails : ∀ version, first.filter (· == version) = second.filter (· == version) := by
        intro version
        have row := rows version
        rw [List.filter_cons, List.filter_cons] at row
        split at row
        · exact (List.cons.inj row).2
        · exact row
      rw [ih (List.pairwise_cons.mp firstOrdered).2 (List.pairwise_cons.mp secondOrdered).2 tails
        (mem_iff_of_rows tails)]

variable {versions sorted : List Version}

theorem IsSorting.unique (direction : IsDirection before) {other : List Version}
    (sorting : IsSorting before versions sorted) (otherSorting : IsSorting before versions other) :
    sorted = other := by
  apply direction.eq_of_ordered sorting.ordered otherSorting.ordered
  intro version
  rw [sorting.stable, otherSorting.stable]

theorem IsSorting.reverse (sorting : IsSorting before versions sorted) :
    IsSorting (fun a b => before b a) versions.reverse sorted.reverse where
  perm := (List.reverse_perm sorted).trans (sorting.perm.trans (List.reverse_perm versions).symm)
  ordered := List.pairwise_reverse.mpr sorting.ordered
  stable version := by rw [List.filter_reverse, List.filter_reverse, sorting.stable]

theorem IsSorting.trans {after : Version → Version → Bool} {again : List Version}
    (sorting : IsSorting before versions sorted) (resorting : IsSorting after sorted again) :
    IsSorting after versions again where
  perm := resorting.perm.trans sorting.perm
  ordered := resorting.ordered
  stable version := (resorting.stable version).trans (sorting.stable version)

theorem isSorting_sort (collection : Collection) :
    IsSorting (fun a b => (compare a b).isLE) collection.versions collection.sort.versions :=
  isSorting_mergeSort isDirection_ascending collection.versions

theorem isSorting_sortDescending (collection : Collection) :
    IsSorting (fun a b => (compare b a).isLE) collection.versions
      collection.sortDescending.versions :=
  isSorting_mergeSort isDirection_ascending.swap collection.versions

theorem sortDescending_eq (collection : Collection) :
    collection.sortDescending = collection.reverse.sort.reverse := by
  have backwards := (isSorting_sort collection.reverse).reverse
  rw [reverse, List.reverse_reverse] at backwards
  exact congrArg mk ((isSorting_sortDescending collection).unique isDirection_ascending.swap backwards)

theorem sort_sortDescending (collection : Collection) :
    collection.sortDescending.sort = collection.sort := by
  have twice := (isSorting_sortDescending collection).trans (isSorting_sort collection.sortDescending)
  exact congrArg mk (twice.unique isDirection_ascending (isSorting_sort collection))

theorem beq_iff {first second : Collection} : first == second ↔
    first.versions.map Version.toPrecedence = second.versions.map Version.toPrecedence := by
  obtain ⟨first⟩ := first
  obtain ⟨second⟩ := second
  change first == second ↔ _
  induction first generalizing second with
  | nil => cases second <;> simp
  | cons a first ih =>
    cases second with
    | nil => simp
    | cons b second =>
      simp only [List.cons_beq_cons, Bool.and_eq_true, Version.beq_iff_toPrecedence_eq, ih,
        List.map_cons, List.cons.injEq]

theorem sort_beq_sort {first second : Collection} (perm : first.versions.Perm second.versions) :
    first.sort == second.sort := by
  have sorted (collection : Collection) :
      (collection.sort.versions.map Version.toPrecedence).Pairwise fun a b => (compare a b).isLE :=
    List.pairwise_map.mpr (isSorting_sort collection).ordered
  have perms : first.sort.versions.Perm second.sort.versions :=
    (isSorting_sort first).perm.trans (perm.trans (isSorting_sort second).perm.symm)
  rw [beq_iff]
  refine List.Perm.eq_of_pairwise ?_ (sorted first) (sorted second) (perms.map _)
  intro a b _ _ first second
  exact Std.LawfulEqOrd.eq_of_compare (Std.OrientedCmp.isLE_antisymm first second)

/-- Sorting arranges all entries in order and leaves equal ones as they stand, in both directions.
Descending order is ascending order of the reversed list, read backwards, and leaves no trace when
the list is sorted again. How the entries were arranged shows only among equal ones. -/
theorem sorting_is_stable :
    (∀ collection : Collection,
      IsSorting (fun a b => (compare a b).isLE) collection.versions collection.sort.versions ∧
      IsSorting (fun a b => (compare b a).isLE) collection.versions
        collection.sortDescending.versions ∧
      collection.sortDescending = collection.reverse.sort.reverse ∧
      collection.sortDescending.sort = collection.sort) ∧
    ∀ first second : Collection, first.versions.Perm second.versions →
      first.sort == second.sort ∧ first.sortDescending == second.sortDescending := by
  constructor
  · intro collection
    exact ⟨isSorting_sort collection, isSorting_sortDescending collection,
      sortDescending_eq collection, sort_sortDescending collection⟩
  · intro first second perm
    have backwards : first.reverse.versions.Perm second.reverse.versions :=
      (List.reverse_perm _).trans (perm.trans (List.reverse_perm _).symm)
    have same := congrArg List.reverse (beq_iff.mp (sort_beq_sort backwards))
    rw [← List.map_reverse, ← List.map_reverse] at same
    rw [sortDescending_eq, sortDescending_eq]
    exact ⟨sort_beq_sort perm, beq_iff.mpr same⟩

/-- Two builds of a release around a pre-release of it, and the same read backwards. -/
theorem sorting_is_stable_builds :
    let early : Version := ⟨⟨.ofNumbers 1 0 0, .bare⟩, some "b", "1.0.0+b"⟩
    let late : Version := ⟨⟨.ofNumbers 1 0 0, .bare⟩, some "a", "1.0.0+a"⟩
    let preRelease : Version :=
      ⟨⟨.ofNumbers 1 0 0, .preRelease [.alphanumeric "rc"]⟩, none, "1.0.0-rc"⟩
    let collection : Collection := ⟨[early, preRelease, late]⟩
    collection.sort = ⟨[preRelease, early, late]⟩ ∧
      collection.sortDescending = ⟨[early, late, preRelease]⟩ ∧
      collection.versions.Perm collection.reverse.versions ∧
      collection.sort == collection.reverse.sort := by
  intro early late preRelease collection
  have perm : collection.versions.Perm collection.reverse.versions :=
    (List.reverse_perm collection.versions).symm
  have earlyPre : (compare early preRelease).isLE = false := by decide
  have preLate : (compare preRelease late).isLE := by decide
  have preEarly : (compare preRelease early).isLE := by decide
  have latePre : (compare late preRelease).isLE = false := by decide
  have earlyLate : (compare early late).isLE := by decide
  have lateEarly : (compare late early).isLE := by decide
  refine ⟨?_, ?_, perm, (sorting_is_stable.2 _ _ perm).1⟩
  · simp [collection, sort, List.mergeSort, List.MergeSort.Internal.splitInTwo, earlyPre,
      preLate, earlyLate]
  · simp [collection, sortDescending, List.mergeSort, List.MergeSort.Internal.splitInTwo,
      preEarly, latePre, lateEarly]

end VersionRange.Collection

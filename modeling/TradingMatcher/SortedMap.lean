import Mathlib.Tactic
import Mathlib.Order.Bounds.Basic

/-!
# Finite maps sorted by key

An ordered map is kept as the list of its entries in strictly increasing key
order; the order is a field of the structure, so an unsorted map cannot be
built.  Lookup, assignment and erasure are described by one decomposition,
`SortedMap.exists_split`: around any key the entries split into those below it,
at most one at it, and those above it.
-/

namespace TradingMatcher

/-- A finite map given by its entries in strictly increasing key order. -/
structure SortedMap (Key Value : Type*) [LT Key] where
  entries : List (Key × Value)
  increasing : entries.Pairwise fun first second => first.1 < second.1

namespace SortedMap

variable {Key Value : Type*} [LinearOrder Key]

/-- The map without entries. -/
def empty : SortedMap Key Value where
  entries := []
  increasing := .nil

instance : Inhabited (SortedMap Key Value) := ⟨empty⟩

def findEntry (key : Key) : List (Key × Value) → Option Value
  | [] => none
  | entry :: rest => if key = entry.1 then some entry.2 else findEntry key rest

def insertEntry (key : Key) (value : Value) :
    List (Key × Value) → List (Key × Value)
  | [] => [(key, value)]
  | entry :: rest =>
      if key < entry.1 then (key, value) :: entry :: rest
      else if key = entry.1 then (key, value) :: rest
      else entry :: insertEntry key value rest

def eraseEntry (key : Key) : List (Key × Value) → List (Key × Value)
  | [] => []
  | entry :: rest => if key = entry.1 then rest else entry :: eraseEntry key rest

/-- The entries around a key, split below, at and above it. -/
theorem exists_splitEntries (key : Key) {entries : List (Key × Value)}
    (increasing : entries.Pairwise fun first second => first.1 < second.1) :
    ∃ below above : List (Key × Value),
      (∀ entry ∈ below, entry.1 < key) ∧ (∀ entry ∈ above, key < entry.1) ∧
      entries = below ++
        ((findEntry key entries).toList.map (Prod.mk key)) ++ above ∧
      (∀ value, insertEntry key value entries =
        below ++ (key, value) :: above) ∧
      eraseEntry key entries = below ++ above := by
  induction entries with
  | nil => exact ⟨[], [], by simp, by simp, rfl, fun _ => rfl, rfl⟩
  | cons entry rest ih =>
      have headBelow : ∀ later ∈ rest, entry.1 < later.1 := fun _ member =>
        List.rel_of_pairwise_cons increasing member
      rcases lt_trichotomy key entry.1 with before | equal | after
      · obtain ⟨below, above, belowKey, -, restEq, -, eraseEq⟩ :=
          ih increasing.of_cons
        have restAbove : ∀ later ∈ rest, key < later.1 := fun later member =>
          before.trans (headBelow later member)
        have belowNil : below = [] := by
          refine List.eq_nil_iff_forall_not_mem.mpr fun low member => ?_
          refine lt_asymm (belowKey low member) (restAbove low ?_)
          rw [restEq]
          simp [member]
        have absent : findEntry key rest = none := by
          cases found : findEntry key rest with
          | none => rfl
          | some value =>
              have member : (key, value) ∈ rest := by
                rw [restEq]
                simp [found]
              exact (lt_irrefl _ (restAbove _ member)).elim
        refine ⟨[], entry :: rest, by simp, ?_, ?_, ?_, ?_⟩
        · simpa using ⟨before, fun first second member =>
            restAbove (first, second) member⟩
        · simp [findEntry, before.ne, absent]
        · simp [insertEntry, before]
        · subst belowNil
          rw [eraseEntry, if_neg before.ne, eraseEq]
          rw [absent] at restEq
          simp [restEq]
      · refine ⟨[], rest, by simp, ?_, ?_, ?_, ?_⟩
        · intro later member
          rw [equal]
          exact headBelow later member
        · simp [findEntry, equal]
        · simp [insertEntry, equal]
        · simp [eraseEntry, equal]
      · obtain ⟨below, above, belowKey, aboveKey, restEq, insertEq, eraseEq⟩ :=
          ih increasing.of_cons
        refine ⟨entry :: below, above, ?_, aboveKey, ?_, ?_, ?_⟩
        · simpa using ⟨after, fun first second member =>
            belowKey (first, second) member⟩
        · rw [findEntry, if_neg after.ne']
          simpa using restEq
        · intro value
          rw [insertEntry, if_neg after.not_gt, if_neg after.ne', insertEq]
          rfl
        · rw [eraseEntry, if_neg after.ne', eraseEq]
          rfl

theorem insertEntry_increasing (key : Key) (value : Value)
    {entries : List (Key × Value)}
    (increasing : entries.Pairwise fun first second => first.1 < second.1) :
    (insertEntry key value entries).Pairwise
      fun first second => first.1 < second.1 := by
  obtain ⟨below, above, belowKey, aboveKey, entriesEq, insertEq, -⟩ :=
    exists_splitEntries key increasing
  rw [entriesEq, List.append_assoc, List.pairwise_append] at increasing
  obtain ⟨belowIncreasing, restIncreasing, -⟩ := increasing
  have aboveIncreasing := (List.pairwise_append.mp restIncreasing).2.1
  rw [insertEq, List.pairwise_append]
  refine ⟨belowIncreasing, aboveIncreasing.cons aboveKey, ?_⟩
  intro low lowMember high highMember
  rcases List.mem_cons.mp highMember with rfl | highMember
  · exact belowKey low lowMember
  · exact (belowKey low lowMember).trans (aboveKey high highMember)

theorem eraseEntry_sublist (key : Key) (entries : List (Key × Value)) :
    (eraseEntry key entries).Sublist entries := by
  induction entries with
  | nil => exact .refl _
  | cons entry rest ih =>
      rw [eraseEntry]
      split
      · exact List.sublist_cons_self _ _
      · exact ih.cons_cons _

/-- The value stored at a key, if any. -/
def find? (map : SortedMap Key Value) (key : Key) : Option Value :=
  findEntry key map.entries

/-- Assign a value to a key, replacing the value it has. -/
def insert (map : SortedMap Key Value) (key : Key) (value : Value) :
    SortedMap Key Value where
  entries := insertEntry key value map.entries
  increasing := insertEntry_increasing key value map.increasing

/-- Remove a key with its value. -/
def erase (map : SortedMap Key Value) (key : Key) : SortedMap Key Value where
  entries := eraseEntry key map.entries
  increasing := map.increasing.sublist (eraseEntry_sublist key map.entries)

/-- The entry with the least key. -/
def first? (map : SortedMap Key Value) : Option (Key × Value) :=
  map.entries.head?

/-- The entry with the greatest key. -/
def last? (map : SortedMap Key Value) : Option (Key × Value) :=
  map.entries.getLast?

/-- The keys of the map. -/
def keys (map : SortedMap Key Value) : Set Key :=
  { key | ∃ value, (key, value) ∈ map.entries }

variable {map : SortedMap Key Value} {key : Key} {value : Value}

/-- Lookup, assignment and erasure at a key, as one split of the entries. -/
theorem exists_split (map : SortedMap Key Value) (key : Key) :
    ∃ below above : List (Key × Value),
      (∀ entry ∈ below, entry.1 < key) ∧ (∀ entry ∈ above, key < entry.1) ∧
      map.entries = below ++ ((map.find? key).toList.map (Prod.mk key)) ++
        above ∧
      (∀ value, (map.insert key value).entries =
        below ++ (key, value) :: above) ∧
      (map.erase key).entries = below ++ above :=
  exists_splitEntries key map.increasing

theorem mem_entries_iff_find?_eq_some :
    (key, value) ∈ map.entries ↔ map.find? key = some value := by
  obtain ⟨below, above, belowKey, aboveKey, entriesEq, -, -⟩ :=
    map.exists_split key
  rw [entriesEq]
  constructor
  · intro member
    simp only [List.mem_append, List.mem_map, Option.mem_toList] at member
    rcases member with (low | ⟨stored, found, storedEq⟩) | high
    · exact (lt_irrefl _ (belowKey _ low)).elim
    · obtain ⟨-, rfl⟩ := Prod.mk.inj storedEq
      exact found
    · exact (lt_irrefl _ (aboveKey _ high)).elim
  · intro found
    simp [found]

/-- A map is what its lookups are. -/
theorem ext_find? {first second : SortedMap Key Value}
    (same : ∀ key, first.find? key = second.find? key) : first = second := by
  have nodup (map : SortedMap Key Value) : map.entries.Nodup :=
    map.increasing.imp fun less same => less.ne (congrArg Prod.fst same)
  have perm : first.entries.Perm second.entries := by
    refine (List.perm_ext_iff_of_nodup (nodup first) (nodup second)).mpr ?_
    rintro ⟨key, value⟩
    rw [mem_entries_iff_find?_eq_some, mem_entries_iff_find?_eq_some, same]
  have entriesEq : first.entries = second.entries :=
    List.Perm.eq_of_pairwise
      (fun _ _ _ _ less greater => (less.asymm greater).elim)
      first.increasing second.increasing perm
  cases first
  cases second
  cases entriesEq
  rfl

theorem mem_insert_entries {other : Key} {stored : Value} :
    (other, stored) ∈ (map.insert key value).entries ↔
      (other = key ∧ stored = value) ∨
        (other ≠ key ∧ (other, stored) ∈ map.entries) := by
  obtain ⟨below, above, belowKey, aboveKey, entriesEq, insertEq, -⟩ :=
    map.exists_split key
  rw [insertEq, entriesEq]
  have lowNe : (other, stored) ∈ below → other ≠ key := fun member =>
    (belowKey _ member).ne
  have highNe : (other, stored) ∈ above → other ≠ key := fun member =>
    (aboveKey _ member).ne'
  simp only [List.mem_append, List.mem_cons, Prod.mk.injEq, List.mem_map,
    Option.mem_toList]
  constructor
  · rintro (low | same | high)
    · exact .inr ⟨lowNe low, .inl (.inl low)⟩
    · exact .inl same
    · exact .inr ⟨highNe high, .inr high⟩
  · rintro (same | ⟨differs, (low | ⟨_, _, keyEq, _⟩) | high⟩)
    · exact .inr (.inl same)
    · exact .inl low
    · exact (differs keyEq.symm).elim
    · exact .inr (.inr high)

theorem mem_erase_entries {other : Key} {stored : Value} :
    (other, stored) ∈ (map.erase key).entries ↔
      other ≠ key ∧ (other, stored) ∈ map.entries := by
  obtain ⟨below, above, belowKey, aboveKey, entriesEq, -, eraseEq⟩ :=
    map.exists_split key
  rw [eraseEq, entriesEq]
  simp only [List.mem_append, List.mem_map, Option.mem_toList, Prod.mk.injEq]
  constructor
  · rintro (low | high)
    · exact ⟨(belowKey _ low).ne, .inl (.inl low)⟩
    · exact ⟨(aboveKey _ high).ne', .inr high⟩
  · rintro ⟨differs, (low | ⟨_, _, keyEq, _⟩) | high⟩
    · exact .inl low
    · exact (differs keyEq.symm).elim
    · exact .inr high

/-- The first entry of a map has its least key. -/
theorem isLeast_of_first? {entry : Key × Value}
    (isFirst : map.first? = some entry) : IsLeast map.keys entry.1 := by
  obtain ⟨rest, entriesEq⟩ := List.head?_eq_some_iff.mp isFirst
  refine ⟨⟨entry.2, by simp [entriesEq]⟩, ?_⟩
  rintro other ⟨stored, member⟩
  rw [entriesEq] at member
  have increasing := map.increasing
  rw [entriesEq] at increasing
  rcases List.mem_cons.mp member with same | later
  · exact (congrArg Prod.fst same).ge
  · exact (List.rel_of_pairwise_cons increasing later).le

/-- The last entry of a map has its greatest key. -/
theorem isGreatest_of_last? {entry : Key × Value}
    (isLast : map.last? = some entry) : IsGreatest map.keys entry.1 := by
  obtain ⟨earlier, entriesEq⟩ := List.getLast?_eq_some_iff.mp isLast
  refine ⟨⟨entry.2, by simp [entriesEq]⟩, ?_⟩
  rintro other ⟨stored, member⟩
  rw [entriesEq] at member
  have increasing := map.increasing
  rw [entriesEq, List.pairwise_append] at increasing
  rcases List.mem_append.mp member with low | same
  · exact (increasing.2.2 _ low _ (List.mem_singleton_self _)).le
  · exact (congrArg Prod.fst (List.mem_singleton.mp same)).le

end SortedMap

end TradingMatcher

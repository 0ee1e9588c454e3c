import DynamicObjects.Table
import Mathlib.Data.List.TakeWhile

/-!
Tables in good order: the index holds the positions of the entries under their hash codes and nothing
else, the counter counts the entries, and the last slot is never a hole. Every operation keeps this.
What an operation does to the entries is read off the slots, cut at the position that it touches:
holes never show, neither those that a removal leaves nor those that it drops from the end.
-/
namespace DynamicObjects

namespace PositionIndex

theorem positions_empty (hash : HashCode) : positions ∅ hash = [] :=
  Std.TreeMap.getD_emptyc

theorem positions_insert (index : PositionIndex) (hash hash' : HashCode) (found : List Nat) :
    positions (index.insert hash found) hash' =
      if hash' = hash then found else index.positions hash' := by
  unfold positions
  rw [Std.TreeMap.getD_insert]
  simp only [Std.compare_eq_iff_eq, eq_comm (a := hash)]

end PositionIndex

namespace Table

variable {κ ν : Type}

/-- The positions of the slots that hold an entry under a hash code; the first slot is at `start`. -/
def occupied (hash : HashCode) (start : Nat) (slots : List (Option (Entry κ ν))) : List Nat :=
  ((slots.zipIdx start).filter fun slot => slot.1.any (·.hash == hash)).map Prod.snd

theorem occupied_append (hash : HashCode) (start : Nat) (front back : List (Option (Entry κ ν))) :
    occupied hash start (front ++ back) =
      occupied hash start front ++ occupied hash (start + front.length) back := by
  unfold occupied
  rw [List.zipIdx_append, List.filter_append, List.map_append]

theorem occupied_none_cons (hash : HashCode) (start : Nat) (slots : List (Option (Entry κ ν))) :
    occupied hash start (none :: slots) = occupied hash (start + 1) slots := by
  simp [occupied]

theorem occupied_some_cons (hash : HashCode) (start : Nat) (e : Entry κ ν)
    (slots : List (Option (Entry κ ν))) :
    occupied hash start (some e :: slots) =
      if e.hash = hash then start :: occupied hash (start + 1) slots
      else occupied hash (start + 1) slots := by
  by_cases h : e.hash = hash <;> simp [occupied, h]

theorem mem_occupied {hash : HashCode} {slots : List (Option (Entry κ ν))} {position : Nat} :
    position ∈ occupied hash 0 slots ↔
      ∃ e, slots[position]? = some (some e) ∧ e.hash = hash := by
  simp only [occupied, List.mem_map, List.mem_filter, Prod.exists, List.mk_mem_zipIdx_iff_getElem?,
    exists_eq_right]
  constructor
  · rintro ⟨slot, found, matched⟩
    obtain ⟨e, rfl, he⟩ := (Option.any_eq_true _ _).mp matched
    exact ⟨e, found, by simpa using he⟩
  · rintro ⟨e, found, he⟩
    exact ⟨some e, found, by simpa using he⟩

theorem lt_of_mem_occupied {hash : HashCode} {slots : List (Option (Entry κ ν))} {position : Nat}
    (h : position ∈ occupied hash 0 slots) : position < slots.length := by
  obtain ⟨e, found, -⟩ := mem_occupied.mp h
  exact (List.getElem?_eq_some_iff.mp found).1

theorem occupied_holes {hash : HashCode} {holes : List (Option (Entry κ ν))} (start : Nat)
    (h : ∀ slot ∈ holes, slot = none) : occupied hash start holes = [] := by
  simp only [occupied, List.map_eq_nil_iff, List.filter_eq_nil_iff]
  intro slot mem
  simp [h slot.1 (List.fst_mem_of_mem_zipIdx mem)]

theorem positions_indexFrom (index : PositionIndex) (hash : HashCode) (start : Nat)
    (slots : List (Option (Entry κ ν))) :
    (indexFrom index start slots).positions hash =
      index.positions hash ++ occupied hash start slots := by
  induction slots generalizing index start with
  | nil => simp [indexFrom, occupied]
  | cons slot rest ih =>
    cases slot with
    | none => rw [indexFrom, ih, occupied_none_cons]
    | some e =>
      rw [indexFrom, ih, occupied_some_cons, PositionIndex.add, PositionIndex.positions_insert]
      by_cases h : e.hash = hash
      · simp [h]
      · simp [h, Ne.symm h]

theorem entry?_eq_some_iff {t : Table κ ν} {position : Nat} {e : Entry κ ν} :
    t.entry? position = some e ↔ t.entries.toList[position]? = some (some e) := by
  simp [ entry?, Option.join_eq_some_iff]

theorem exists_cut {t : Table κ ν} {position : Nat} {e : Entry κ ν}
    (h : t.entry? position = some e) :
    ∃ before after, t.entries.toList = before ++ some e :: after ∧ before.length = position := by
  have found := entry?_eq_some_iff.mp h
  obtain ⟨bound, value⟩ := List.getElem?_eq_some_iff.mp found
  refine ⟨t.entries.toList.take position, t.entries.toList.drop (position + 1), ?_, ?_⟩
  · rw [← value, ← List.drop_eq_getElem_cons bound, List.take_append_drop]
  · exact List.length_take_of_le (Nat.le_of_lt bound)

theorem entries_setValue {t : Table κ ν} {position : Nat} {e : Entry κ ν} (value : ν)
    {before after : List (Option (Entry κ ν))} (h : t.entry? position = some e)
    (cut : t.entries.toList = before ++ some e :: after) (at_position : before.length = position) :
    (t.setValue position value).entries.toList = before ++ some { e with value } :: after := by
  simp only [setValue, h, Array.toList_setIfInBounds, cut]
  simp [← at_position]

theorem exists_popped (slots : Array (Option (Entry κ ν))) :
    ∃ holes, (∀ slot ∈ holes, slot = none) ∧
      slots.toList = (slots.popWhile (·.isNone)).toList ++ holes := by
  have popped : (slots.popWhile (·.isNone)).toList =
      (slots.toList.reverse.dropWhile (·.isNone)).reverse := by
    obtain ⟨slots⟩ := slots
    simp
  refine ⟨(slots.toList.reverse.takeWhile (·.isNone)).reverse, ?_, ?_⟩
  · intro slot mem
    exact Option.isNone_iff_eq_none.mp (List.mem_takeWhile_imp (List.mem_reverse.mp mem))
  · rw [popped, ← List.reverse_append, List.takeWhile_append_dropWhile, List.reverse_reverse]

theorem isSome_of_getLast?_popWhile {slots : Array (Option (Entry κ ν))}
    {slot : Option (Entry κ ν)}
    (h : (slots.popWhile (·.isNone)).toList.getLast? = some slot) : slot.isSome := by
  obtain ⟨slots⟩ := slots
  simp only [List.popWhile_toArray, List.getLast?_reverse] at h
  have kept := List.head?_dropWhile_not (·.isNone) slots.reverse
  rw [h] at kept
  simpa using kept

theorem entries_remove {t : Table κ ν} {position : Nat} {e : Entry κ ν}
    {before after : List (Option (Entry κ ν))} (h : t.entry? position = some e)
    (cut : t.entries.toList = before ++ some e :: after) (at_position : before.length = position) :
    ∃ holes, (∀ slot ∈ holes, slot = none) ∧
      before ++ none :: after = (t.remove position).entries.toList ++ holes := by
  obtain ⟨holes, empty, popped⟩ := exists_popped (t.entries.setIfInBounds position none)
  refine ⟨holes, empty, ?_⟩
  simp only [remove, h]
  rw [← popped, Array.toList_setIfInBounds, cut]
  simp [← at_position]

theorem filterMap_holes {holes : List (Option (Entry κ ν))} (h : ∀ slot ∈ holes, slot = none) :
    holes.filterMap id = [] := by
  rw [List.filterMap_eq_nil_iff]
  exact h

/-- Setting a value and removing, seen in the list of entries: both leave what stands before and
after the position as it is. -/
theorem toList_cut {t : Table κ ν} {position : Nat} {e : Entry κ ν}
    (h : t.entry? position = some e) :
    ∃ before after, t.toList = before ++ e :: after ∧
      (∀ value, (t.setValue position value).toList = before ++ { e with value } :: after) ∧
      (t.remove position).toList = before ++ after := by
  obtain ⟨before, after, cut, at_position⟩ := exists_cut h
  refine ⟨before.filterMap id, after.filterMap id, ?_, ?_, ?_⟩
  · simp [toList, cut]
  · intro value
    simp [toList, entries_setValue value h cut at_position]
  · obtain ⟨holes, empty, removed⟩ := entries_remove h cut at_position
    have listed := congrArg (List.filterMap id) removed
    simp only [List.filterMap_append, filterMap_holes empty, List.append_nil] at listed
    simpa [toList] using listed.symm

theorem mem_toList_iff {t : Table κ ν} {e : Entry κ ν} :
    e ∈ t.toList ↔ ∃ position, t.entry? position = some e := by
  simp only [entry?_eq_some_iff, ← List.mem_iff_getElem?]
  simp [toList]

theorem lastBelow_eq_some {t : Table κ ν} {bound position : Nat} {e : Entry κ ν}
    (h : t.lastBelow bound = some (position, e)) :
    t.entry? position = some e ∧ ∀ later, position < later → later < bound →
      t.entry? later = none := by
  induction bound with
  | zero => simp [lastBelow] at h
  | succ bound ih =>
    rw [lastBelow] at h
    cases found : t.entry? bound with
    | some e' =>
      simp only [found, Option.some.injEq, Prod.mk.injEq] at h
      obtain ⟨rfl, rfl⟩ := h
      exact ⟨found, fun later above below => by omega⟩
    | none =>
      rw [found] at h
      obtain ⟨entry, beyond⟩ := ih h
      refine ⟨entry, fun later above below => ?_⟩
      by_cases same : later = bound
      · exact same ▸ found
      · exact beyond later above (by omega)

theorem lastBelow_eq_none {t : Table κ ν} {bound : Nat} (h : t.lastBelow bound = none) :
    ∀ position < bound, t.entry? position = none := by
  induction bound with
  | zero => intro position below; omega
  | succ bound ih =>
    rw [lastBelow] at h
    cases found : t.entry? bound with
    | some e => simp [found] at h
    | none =>
      rw [found] at h
      intro position below
      by_cases same : position = bound
      · exact same ▸ found
      · exact ih h position (by omega)

theorem toList_of_last? {t : Table κ ν} {position : Nat} {e : Entry κ ν}
    (h : t.last? = some (position, e)) : t.toList = (t.remove position).toList ++ [e] := by
  obtain ⟨entry, beyond⟩ := lastBelow_eq_some h
  obtain ⟨before, after, cut, at_position⟩ := exists_cut entry
  have holes : ∀ slot ∈ after, slot = none := by
    intro slot mem
    obtain ⟨i, bound, rfl⟩ := List.getElem_of_mem mem
    have size : t.entries.size = position + 1 + after.length := by
      rw [← Array.length_toList, cut, ← at_position]
      simp
      omega
    have hole := beyond (position + 1 + i) (by omega) (by omega)
    have there : t.entries.toList[position + 1 + i]? = some after[i] := by
      rw [cut, List.getElem?_append_right (by omega)]
      simp [at_position, show position + 1 + i - position = i + 1 by omega, bound]
    cases slot : after[i] with
    | none => rfl
    | some e' =>
      rw [slot] at there
      rw [entry?_eq_some_iff.mpr there] at hole
      cases hole
  obtain ⟨dropped, empty, removed⟩ := entries_remove entry cut at_position
  have rest := congrArg (List.filterMap id) removed
  simp only [List.filterMap_append, filterMap_holes empty, List.append_nil] at rest
  have value : List.filterMap id (some e :: after) = [e] :=
    congrArg (e :: ·) (filterMap_holes holes)
  have hole : List.filterMap id (none :: after) = [] :=
    filterMap_holes (List.forall_mem_cons.mpr ⟨rfl, holes⟩)
  unfold toList
  rw [cut, ← rest, List.filterMap_append, value, hole, List.append_nil]

theorem toList_of_last?_eq_none {t : Table κ ν} (h : t.last? = none) : t.toList = [] := by
  rw [List.eq_nil_iff_forall_not_mem]
  intro e mem
  obtain ⟨position, found⟩ := mem_toList_iff.mp mem
  have bound := (List.getElem?_eq_some_iff.mp (entry?_eq_some_iff.mp found)).1
  rw [lastBelow_eq_none h position (by simpa using bound)] at found
  cases found

structure Valid (t : Table κ ν) : Prop where
  index : ∀ hash, t.index.positions hash = occupied hash 0 t.entries.toList
  live : t.live = t.toList.length
  last : ∀ slot, t.entries.toList.getLast? = some slot → slot.isSome

theorem valid_empty : (empty : Table κ ν).Valid where
  index hash := PositionIndex.positions_empty hash
  live := rfl
  last := by simp [empty]

theorem valid_clear (t : Table κ ν) : t.clear.Valid where
  index hash := PositionIndex.positions_empty hash
  live := rfl
  last := by simp [clear]

theorem Valid.compact {t : Table κ ν} (h : t.Valid) : t.compact.Valid where
  index hash := by
    simp [Table.compact, positions_indexFrom, PositionIndex.positions_empty]
  live := by
    rw [toList_compact]
    exact h.live
  last := by
    intro slot found
    have mem := List.mem_of_getLast? found
    simp only [Table.compact, Array.toList_filter, List.mem_filter] at mem
    exact mem.2

def squeezed (t : Table κ ν) : Table κ ν := if t.needsCompaction then t.compact else t

theorem toList_squeezed (t : Table κ ν) : t.squeezed.toList = t.toList := by
  unfold squeezed
  split
  · exact toList_compact t
  · rfl

theorem Valid.squeezed {t : Table κ ν} (h : t.Valid) : t.squeezed.Valid := by
  unfold Table.squeezed
  split
  · exact h.compact
  · exact h

theorem insertNew_eq (t : Table κ ν) (hash : HashCode) (key : κ) (value : ν) :
    t.insertNew hash key value = { t.squeezed with
      index := t.squeezed.index.add hash t.squeezed.entries.size
      entries := t.squeezed.entries.push (some ⟨hash, key, value⟩)
      live := t.squeezed.live + 1 } :=
  rfl

theorem Valid.insertNew {t : Table κ ν} (h : t.Valid) (hash : HashCode) (key : κ) (value : ν) :
    (t.insertNew hash key value).Valid := by
  constructor
  · intro hash'
    simp only [insertNew_eq, PositionIndex.add, PositionIndex.positions_insert, h.squeezed.index,
      Array.toList_push, occupied_append, occupied_some_cons]
    by_cases same : hash' = hash
    · simp [same, occupied]
    · simp [same, Ne.symm same, occupied]
  · rw [toList_insertNew, insertNew_eq]
    simp [h.squeezed.live, toList_squeezed]
  · intro slot found
    simp only [insertNew_eq, Array.toList_push, List.getLast?_append, List.getLast?_singleton,
      Option.some_or, Option.some.injEq] at found
    rw [← found]
    rfl

theorem Valid.setValue {t : Table κ ν} (h : t.Valid) (position : Nat) (value : ν) :
    (t.setValue position value).Valid := by
  cases found : t.entry? position with
  | none => simpa [Table.setValue, found] using h
  | some e =>
    obtain ⟨before, after, cut, at_position⟩ := exists_cut found
    have slots := entries_setValue value found cut at_position
    constructor
    · intro hash
      rw [slots, occupied_append, occupied_some_cons]
      simp only [Table.setValue, found]
      rw [h.index, cut, occupied_append, occupied_some_cons]
    · have count := h.live
      simp only [toList, cut] at count
      simp only [toList, slots]
      simp only [Table.setValue, found, count]
      simp
    · have last := h.last
      rw [cut] at last
      rw [slots]
      cases after with
      | nil => simp
      | cons slot rest => simpa using last

theorem Valid.remove {t : Table κ ν} (h : t.Valid) (position : Nat) : (t.remove position).Valid := by
  cases found : t.entry? position with
  | none => simpa [Table.remove, found] using h
  | some e =>
    obtain ⟨before, after, cut, at_position⟩ := exists_cut found
    obtain ⟨holes, empty, slots⟩ := entries_remove found cut at_position
    constructor
    · intro hash
      have rest : occupied hash 0 (t.remove position).entries.toList =
          occupied hash 0 before ++ occupied hash (position + 1) after := by
        have both := congrArg (occupied hash 0) slots
        rw [occupied_append, occupied_none_cons, occupied_append, occupied_holes _ empty] at both
        simpa [at_position] using both.symm
      rw [rest]
      simp only [Table.remove, found, PositionIndex.drop, PositionIndex.positions_insert, h.index,
        cut, occupied_append, occupied_some_cons, Nat.zero_add, at_position]
      by_cases same : hash = e.hash
      · -- the position stands behind those of `before`, so the first occurrence is the entry itself
        have fresh : position ∉ occupied hash 0 before := by
          intro mem
          have := lt_of_mem_occupied mem
          omega
        subst same
        simp [List.erase_append_right _ fresh]
      · simp [same, Ne.symm same]
    · obtain ⟨front, back, all, -, removed⟩ := toList_cut found
      have count := h.live
      rw [all] at count
      rw [removed]
      simp only [Table.remove, found, count]
      simp
    · intro slot last
      simp only [Table.remove, found] at last
      exact isSome_of_getLast?_popWhile last

theorem mem_candidatesAmong {t : Table κ ν} {found : List Nat} {hash : HashCode} {position : Nat} {key : κ} :
    (position, key) ∈ t.candidatesAmong found hash ↔
      position ∈ found ∧ ∃ e, t.entry? position = some e ∧ e.hash = hash ∧ e.key = key := by
  simp only [candidatesAmong, List.mem_filterMap, Option.map_eq_some_iff, Option.filter_eq_some_iff, beq_iff_eq,
    Prod.mk.injEq]
  constructor
  · rintro ⟨_, mem, e, ⟨found, hash_eq⟩, rfl, key_eq⟩
    exact ⟨mem, e, found, hash_eq, key_eq⟩
  · rintro ⟨mem, e, found, hash_eq, key_eq⟩
    exact ⟨position, mem, e, ⟨found, hash_eq⟩, rfl, key_eq⟩

theorem mem_keys_of_candidate {t : Table κ ν} {hash : HashCode} {c : Nat × κ} (mem : c ∈ t.candidates hash) :
    c.2 ∈ t.keys := by
  obtain ⟨-, e, found, -, key⟩ := mem_candidatesAmong.mp mem
  exact List.mem_map.mpr ⟨e, mem_toList_iff.mpr ⟨_, found⟩, key⟩

theorem mem_candidates {t : Table κ ν} (h : t.Valid) {hash : HashCode} {position : Nat} {key : κ} :
    (position, key) ∈ t.candidates hash ↔
      ∃ e, t.entry? position = some e ∧ e.hash = hash ∧ e.key = key := by
  rw [candidates, mem_candidatesAmong, h.index, mem_occupied]
  simp only [← entry?_eq_some_iff]
  exact and_iff_right_of_imp fun ⟨e, found, hash_eq, _⟩ => ⟨e, found, hash_eq⟩

end Table

end DynamicObjects

import DynamicObjects.Proofs.Tables

/-!
Where the entries of a table stand. Setting a value and removing leave every other position as it is, and so does
an insertion that finds no need to squeeze out the holes; the entries below a position are the first ones.
-/
namespace DynamicObjects

namespace Table

variable {κ ν : Type} {t : Table κ ν} {p q : Nat} {e : Entry κ ν}

theorem join_append_holes {slots holes : List (Option (Entry κ ν))} (h : ∀ slot ∈ holes, slot = none) :
    ((slots ++ holes)[p]?).join = (slots[p]?).join := by
  by_cases inside : p < slots.length
  · rw [List.getElem?_append_left inside]
  · rw [List.getElem?_append_right (by omega), List.getElem?_eq_none (by omega : slots.length ≤ p)]
    cases found : holes[p - slots.length]? with
    | none => rfl
    | some slot => rw [h slot (List.mem_of_getElem? found)]; rfl

theorem entry?_setValue (t : Table κ ν) (q p : Nat) (value : ν) :
    Table.entry? (t.setValue q value) p =
      if p = q then (t.entry? p).map ({ · with value }) else t.entry? p := by
  unfold setValue
  cases found : t.entry? q with
  | none => by_cases same : p = q <;> simp [same, found]
  | some e =>
    have bound := (List.getElem?_eq_some_iff.mp (entry?_eq_some_iff.mp found)).1
    rw [Array.length_toList] at bound
    by_cases same : p = q
    · rw [if_pos same, same, found]
      simp [ entry?, bound]
    · simp [ entry?, same, Ne.symm same]

theorem entry?_remove (t : Table κ ν) (q p : Nat) :
    Table.entry? (t.remove q) p = if p = q then none else t.entry? p := by
  unfold remove
  cases found : t.entry? q with
  | none => by_cases same : p = q <;> simp [same, found]
  | some e =>
    obtain ⟨holes, empty, popped⟩ := exists_popped (t.entries.setIfInBounds q none)
    have shorter : ((t.entries.setIfInBounds q none).toList[p]?).join =
        (((t.entries.setIfInBounds q none).popWhile (·.isNone)).toList[p]?).join := by
      rw [popped, join_append_holes empty]
    unfold Table.entry?
    dsimp only
    rw [← Array.getElem?_toList, ← shorter, Array.getElem?_toList, Array.getElem?_setIfInBounds]
    by_cases same : p = q
    · subst same
      by_cases bound : p < t.entries.size <;> simp [bound]
    · simp [same, Ne.symm same]

theorem entry?_insertNew (t : Table κ ν) (p : Nat) (hash : HashCode) (key : κ) (value : ν) :
    Table.entry? (t.insertNew hash key value) p =
      if p = t.squeezed.entries.size then some ⟨hash, key, value⟩ else t.squeezed.entry? p := by
  rw [insertNew_eq]
  unfold Table.entry?
  simp only [Array.getElem?_push]
  split <;> rfl

theorem squeezed_of_roomy (roomy : t.needsCompaction = false) : t.squeezed = t := by
  rw [squeezed, roomy]
  rfl

theorem nextAmong_eq_some {position count : Nat} (h : t.nextAmong position count = some (q, e)) :
    position ≤ q ∧ t.entry? q = some e ∧ ∀ p, position ≤ p → p < q → t.entry? p = none := by
  induction count generalizing position with
  | zero => cases h
  | succ count ih =>
    unfold nextAmong at h
    cases found : t.entry? position with
    | some here =>
      simp only [found, Option.some.injEq, Prod.mk.injEq] at h
      obtain ⟨rfl, rfl⟩ := h
      exact ⟨Nat.le_refl _, found, by omega⟩
    | none =>
      simp only [found] at h
      obtain ⟨above, there, holes⟩ := ih h
      refine ⟨by omega, there, fun p from_ below => ?_⟩
      by_cases first : p = position
      · rw [first, found]
      · exact holes p (by omega) below

theorem nextAmong_eq_none {position count : Nat} (h : t.nextAmong position count = none) :
    ∀ p, position ≤ p → p < position + count → t.entry? p = none := by
  induction count generalizing position with
  | zero => omega
  | succ count ih =>
    unfold nextAmong at h
    cases found : t.entry? position with
    | some here => simp [found] at h
    | none =>
      simp only [found] at h
      intro p from_ below
      by_cases first : p = position
      · rw [first, found]
      · exact ih h p (by omega) (by omega)

theorem entry?_eq_none_of_size_le (h : t.entries.size ≤ p) : t.entry? p = none := by
  simp [ entry?, Array.getElem?_eq_none h]

theorem nextFrom_eq_none {position : Nat} (h : t.nextFrom position = none) :
    ∀ p, position ≤ p → t.entry? p = none := by
  intro p above
  by_cases inside : p < t.entries.size
  · exact nextAmong_eq_none h p above (by omega)
  · exact entry?_eq_none_of_size_le (by omega)

def below (t : Table κ ν) (position : Nat) : List (Entry κ ν) :=
  (t.entries.toList.take position).filterMap id

theorem below_of_holes {position : Nat} (le : position ≤ q)
    (holes : ∀ p, position ≤ p → p < q → t.entry? p = none) : t.below q = t.below position := by
  induction le with
  | refl => rfl
  | @step q le ih =>
    rw [← ih fun p above less => holes p above (by omega)]
    have hole := holes q le (by omega)
    unfold below
    rw [List.take_add_one, List.filterMap_append]
    rw [ Table.entry?, ← Array.getElem?_toList] at hole
    rcases slot : t.entries.toList[q]? with _ | _ | e <;> simp_all

theorem below_succ (found : t.entry? q = some e) : t.below (q + 1) = t.below q ++ [e] := by
  unfold below
  rw [List.take_add_one, List.filterMap_append, entry?_eq_some_iff.mp found]
  rfl

theorem getElem?_toList_below (found : t.entry? q = some e) :
    t.toList[(t.below q).length]? = some e := by
  have cut : t.toList = t.below (q + 1) ++ (t.entries.toList.drop (q + 1)).filterMap id := by
    unfold below toList
    rw [← List.filterMap_append, List.take_append_drop]
  rw [cut, below_succ found, List.append_assoc, List.getElem?_append_right (Nat.le_refl _), Nat.sub_self]
  rfl

theorem below_of_nextFrom_eq_none {position : Nat} (h : t.nextFrom position = none) :
    t.below position = t.toList := by
  have all : t.below (max position t.entries.size) = t.toList := by
    unfold below toList
    rw [List.take_of_length_le (by rw [Array.length_toList]; omega)]
  rw [← all, below_of_holes (Nat.le_max_left _ _)]
  exact fun p above _ => nextFrom_eq_none h p above

/-- A table without entries has no slots either, since the last slot always holds an entry. -/
theorem Valid.isEmpty_iff (h : t.Valid) : t.entries.isEmpty = true ↔ t.size = 0 := by
  rw [size, h.live, List.length_eq_zero_iff, Array.isEmpty_iff, ← Array.toList_eq_nil_iff]
  constructor
  · intro empty
    simp [toList, empty]
  · intro bare
    by_contra slots
    obtain ⟨slot, last⟩ : ∃ slot, t.entries.toList.getLast? = some slot :=
      Option.ne_none_iff_exists'.mp (mt List.getLast?_eq_none_iff.mp slots)
    obtain ⟨e, live⟩ := Option.isSome_iff_exists.mp (h.last slot last)
    have mem : e ∈ t.toList := List.mem_filterMap.mpr ⟨slot, List.mem_of_getLast? last, live⟩
    simp [bare] at mem

end Table

end DynamicObjects

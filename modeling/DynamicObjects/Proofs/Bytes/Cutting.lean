import Mathlib.Tactic.Ring
import DynamicObjects.Proofs.Bytes.Windows

/-!
Cutting at a separator, joining again, and replacing. From either end there are as many cuts as matches that
do not overlap, or as many as asked for if that is less; joined with the separator the parts are what was
cut, and joined with something else they are what a replacement makes of it. As the cuts are found one after
the other, so are they here: every law is by induction on the number of cuts.
-/
namespace DynamicObjects.Bytes

variable {data sep new : Bytes} {i : Nat}

theorem findIn_reverse (sep data : Bytes) :
    findIn sep.reverse data.reverse = (rfindIn sep data).map fun i => data.length - (i + sep.length) := by
  have turned {j : Nat} (there : Occurs data.reverse sep.reverse j) :
      Occurs data sep (data.length - (j + sep.length)) := by
    simpa using occurs_reverse there
  have spots := rfindIn_spots sep data
  generalize rfindIn sep data = answer at spots
  cases spots with
  | missing nowhere => exact findIn_eq_none_iff.mpr fun j there => nowhere _ (turned there)
  | @found i greatest =>
    refine findIn_eq_some_iff.mpr ⟨occurs_reverse greatest.1, fun j there => ?_⟩
    have last := greatest.2 (turned there)
    have within := there.1
    simp only [List.length_reverse] at within
    show data.length - (i + sep.length) ≤ j
    omega

/-- The last part is what is behind the last match; the others are those of what is in front of it. -/
theorem cutRight_succ (sep : Bytes) (most : Nat) (data : Bytes) :
    cutRight sep (most + 1) data =
      match rfindIn sep data with
      | none => [data]
      | some i => data.drop (i + sep.length) :: cutRight sep most (data.take i) := by
  have spots := rfindIn_spots sep data
  rw [cutRight, cutLeft, findIn_reverse]
  generalize rfindIn sep data = answer at spots
  cases spots with
  | missing => simp
  | @found i greatest =>
    have within := greatest.1.1
    have front : data.length - (data.length - (i + sep.length) + sep.length) = i := by omega
    rw [Option.map_some]
    dsimp only
    rw [List.map_cons, List.take_reverse, List.drop_reverse, List.reverse_reverse, List.length_reverse, front,
      Nat.sub_sub_self within]
    rfl

theorem cutLeft_ne_nil (sep : Bytes) (most : Nat) (data : Bytes) : cutLeft sep most data ≠ [] := by
  cases most with
  | zero => simp [cutLeft]
  | succ most =>
    rw [cutLeft]
    split <;> simp

theorem cutRight_ne_nil (sep : Bytes) (most : Nat) (data : Bytes) : cutRight sep most data ≠ [] := by
  simpa [cutRight] using cutLeft_ne_nil sep.reverse most data.reverse

theorem join_cons {part : Bytes} {parts : List Bytes} (more : parts ≠ []) :
    join sep (part :: parts) = part ++ sep ++ join sep parts :=
  List.intercalate_cons_of_ne_nil more

theorem join_concat {part : Bytes} {parts : List Bytes} (more : parts ≠ []) :
    join sep (parts ++ [part]) = join sep parts ++ sep ++ part := by
  induction parts with
  | nil => exact absurd rfl more
  | cons first rest ih =>
    cases rest with
    | nil => simp [join]
    | cons second rest =>
      rw [List.cons_append, join_cons (by simp), join_cons (by simp), ih (by simp)]
      simp only [List.append_assoc]

theorem join_cutLeft (sep : Bytes) (most : Nat) (data : Bytes) : join sep (cutLeft sep most data) = data := by
  induction most generalizing data with
  | zero => exact List.intercalate_singleton
  | succ most ih =>
    rw [cutLeft]
    split
    next => exact List.intercalate_singleton
    next i found =>
      have there := (findIn_eq_some_iff.mp found).1
      rw [join_cons (cutLeft_ne_nil sep most _), ih, List.append_assoc]
      exact there.eq_append.symm

theorem join_cutRight (sep : Bytes) (most : Nat) (data : Bytes) :
    join sep (cutRight sep most data).reverse = data := by
  induction most generalizing data with
  | zero => simp [cutRight, cutLeft, join]
  | succ most ih =>
    rw [cutRight_succ]
    have spots := rfindIn_spots sep data
    generalize rfindIn sep data = answer at spots
    cases spots with
    | missing => exact List.intercalate_singleton
    | @found i greatest =>
      dsimp only
      rw [List.reverse_cons, join_concat (by simpa using cutRight_ne_nil sep most _), ih, List.append_assoc]
      exact greatest.1.eq_append.symm

theorem replaceFrom_eq (old new : Bytes) (most : Nat) (data : Bytes) :
    replaceFrom old new most data = join new (cutLeft old most data) := by
  induction most generalizing data with
  | zero => exact List.intercalate_singleton.symm
  | succ most ih =>
    rw [replaceFrom, cutLeft]
    split
    next => exact List.intercalate_singleton.symm
    next i found => rw [join_cons (cutLeft_ne_nil old most _), ih]

theorem length_cutLeft (nonempty : sep ≠ []) (most : Nat) (data : Bytes) :
    (cutLeft sep most data).length = min most (countIn sep data) + 1 := by
  rw [countIn_eq nonempty]
  induction most generalizing data with
  | zero => simp [cutLeft]
  | succ most ih =>
    rw [cutLeft]
    split
    next missing => simp [countFrom_missing missing]
    next i found =>
      rw [List.length_cons, ih, countFrom_found nonempty found]
      omega

theorem length_cutRight (nonempty : sep ≠ []) (most : Nat) (data : Bytes) :
    (cutRight sep most data).length = min most (countIn sep data) + 1 := by
  rw [cutRight, List.length_map, length_cutLeft (by simpa using nonempty), countIn_reverse nonempty]

theorem countFrom_le (needle : Bytes) (skip : Nat) (hay : Bytes) : countFrom needle skip hay ≤ hay.length := by
  induction hay generalizing skip with
  | nil => simp [countFrom]
  | cons b rest ih =>
    cases skip with
    | succ skip => exact Nat.le_succ_of_le (ih skip)
    | zero =>
      rw [countFrom]
      split
      · exact Nat.succ_le_succ (ih _)
      · exact Nat.le_succ_of_le (ih 0)

theorem countIn_le (needle hay : Bytes) : countIn needle hay ≤ hay.length + 1 := by
  unfold countIn
  split
  · exact Nat.le_refl _
  · exact Nat.le_succ_of_le (countFrom_le needle 0 hay)

/-- How many of `count` things are taken if `most` are asked for, where a negative number asks for all. -/
def taken (most : Int) (count : Nat) : Nat :=
  if most < 0 then count else min count most.toNat

theorem min_limit (most : Int) {count len : Nat} (few : count ≤ len + 1) :
    min (limit most len) count = taken most count := by
  unfold limit taken
  split <;> omega

theorem length_replaceFrom (nonempty : sep ≠ []) (new : Bytes) (most : Nat) (data : Bytes) :
    ((replaceFrom sep new most data).length : Int) =
      data.length + (min most (countIn sep data) : Nat) * ((new.length : Int) - sep.length) := by
  rw [countIn_eq nonempty]
  induction most generalizing data with
  | zero => simp [replaceFrom]
  | succ most ih =>
    rw [replaceFrom]
    split
    next missing => simp [countFrom_missing missing]
    next i found =>
      have within := (findIn_eq_some_iff.mp found).1.1
      have cut : min (most + 1) (countFrom sep 0 (data.drop (i + sep.length)) + 1) =
          min most (countFrom sep 0 (data.drop (i + sep.length))) + 1 := by omega
      rw [countFrom_found nonempty found, cut, List.length_append, List.length_append, Nat.cast_add, Nat.cast_add, ih,
        List.length_take_of_le (by omega), List.length_drop, Nat.cast_sub within]
      push_cast
      ring

theorem length_interleave (new : Bytes) (most : Nat) (data : Bytes) :
    (interleave new most data).length = data.length + min most (data.length + 1) * new.length := by
  induction data generalizing most with
  | nil => cases most <;> simp [interleave]
  | cons b rest ih =>
    cases most with
    | zero => simp [interleave]
    | succ most =>
      rw [interleave, List.length_append, List.length_cons, ih, List.length_cons, Nat.add_min_add_right]
      ring

def splitLoop (data sep : Bytes) : Nat → Nat → List Bytes
  | 0, start => [data.drop start]
  | most + 1, start =>
    match data.find sep start data.length with
    | none => [data.drop start]
    | some i => data.window start i :: splitLoop data sep most (i + sep.length)

/-- Cuts up to a place, the last part first; each search ends in front of the match before. -/
def rsplitLoop (data sep : Bytes) : Nat → Nat → List Bytes
  | 0, stop => [data.take stop]
  | most + 1, stop =>
    match data.rfind sep 0 stop with
    | none => [data.take stop]
    | some i => data.window (i + sep.length) stop :: rsplitLoop data sep most i

def replaceLoop (data old new : Bytes) : Nat → Nat → Bytes
  | 0, start => data.drop start
  | most + 1, start =>
    match data.find old start data.length with
    | none => data.drop start
    | some i => data.window start i ++ new ++ replaceLoop data old new most (i + old.length)

/-- The number of cuts as a size, where a negative request asks for the largest one. -/
def sizeLimit (most : Int) : Nat :=
  if most < 0 then Word.sizeMax else most.toNat

theorem find_from {start : Nat} (inside : start ≤ data.length) :
    data.find sep start data.length = (findIn sep (data.drop start)).map (start + ·) := by
  have rest : data.window start data.length = data.drop start :=
    List.take_of_length_le (by rw [List.length_drop])
  rw [find, if_pos ((validWindow_iff (Nat.le_refl _)).mpr inside), rest]

theorem rfind_upto {stop : Nat} (inside : stop ≤ data.length) :
    data.rfind sep 0 stop = rfindIn sep (data.take stop) := by
  rw [rfind, if_pos ((validWindow_iff inside).mpr (Nat.zero_le _))]
  simp [window]

theorem window_from (start j : Nat) : data.window start (start + j) = (data.drop start).take j := by
  rw [window, Nat.add_sub_cancel_left]

theorem found_within {start j : Nat} (found : findIn sep (data.drop start) = some j)
    (inside : start ≤ data.length) : start + j + sep.length ≤ data.length :=
  ((occurs_drop_iff inside).mp (findIn_eq_some_iff.mp found).1).1

theorem splitLoop_eq {start : Nat} (inside : start ≤ data.length) (most : Nat) :
    splitLoop data sep most start = cutLeft sep most (data.drop start) := by
  induction most generalizing start with
  | zero => rfl
  | succ most ih =>
    rw [splitLoop, cutLeft, find_from inside]
    cases found : findIn sep (data.drop start) with
    | none => rfl
    | some j =>
      rw [Option.map_some]
      dsimp only
      rw [window_from, ih (found_within found inside), List.drop_drop, Nat.add_assoc]

theorem replaceLoop_eq {start : Nat} (inside : start ≤ data.length) (new : Bytes) (most : Nat) :
    replaceLoop data sep new most start = replaceFrom sep new most (data.drop start) := by
  induction most generalizing start with
  | zero => rfl
  | succ most ih =>
    rw [replaceLoop, replaceFrom, find_from inside]
    cases found : findIn sep (data.drop start) with
    | none => rfl
    | some j =>
      rw [Option.map_some]
      dsimp only
      rw [window_from, ih (found_within found inside), List.drop_drop, Nat.add_assoc]

theorem rsplitLoop_eq {stop : Nat} (inside : stop ≤ data.length) (most : Nat) :
    rsplitLoop data sep most stop = cutRight sep most (data.take stop) := by
  induction most generalizing stop with
  | zero => simp [rsplitLoop, cutRight, cutLeft]
  | succ most ih =>
    rw [rsplitLoop, cutRight_succ, rfind_upto inside]
    have spots := rfindIn_spots sep (data.take stop)
    generalize rfindIn sep (data.take stop) = answer at spots
    cases spots with
    | missing => rfl
    | @found i greatest =>
      have below := (occurs_take_iff.mp greatest.1).1
      dsimp only
      rw [ih (by omega), List.take_take, Nat.min_eq_left (by omega), List.drop_take, window]

theorem cutLeft_min (nonempty : sep ≠ []) (most : Nat) (data : Bytes) :
    cutLeft sep (min most (countIn sep data)) data = cutLeft sep most data := by
  rw [countIn_eq nonempty]
  induction most generalizing data with
  | zero => simp
  | succ most ih =>
    cases found : findIn sep data with
    | none => simp [countFrom_missing found, cutLeft, found]
    | some i => simp [countFrom_found nonempty found, Nat.add_min_add_right, cutLeft, found, ih]

theorem interleave_min (new : Bytes) (most : Nat) (data : Bytes) :
    interleave new (min most (data.length + 1)) data = interleave new most data := by
  induction data generalizing most with
  | nil => cases most <;> simp [interleave]
  | cons b rest ih =>
    cases most with
    | zero => simp
    | succ most => simp [Nat.add_min_add_right, interleave, ih]

theorem min_sizeLimit (most : Int) {count : Nat} (few : count ≤ Word.sizeMax) :
    min (sizeLimit most) count = taken most count := by
  unfold sizeLimit taken
  split <;> omega

end DynamicObjects.Bytes

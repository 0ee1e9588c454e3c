import Mathlib.Data.Nat.Find
import Mathlib.Order.Bounds.Basic
import DynamicObjects.Bytes.Split

/-!
Where a needle stands in a byte string. Both searches are described by the places at which it does, the
least and the greatest of them. Matches that are taken greedily from the left, each behind the one before,
are as many as can be taken without overlap in any way, so it does not matter from which end they are taken.
-/
namespace DynamicObjects.Bytes

def Occurs (data needle : Bytes) (i : Nat) : Prop :=
  i + needle.length ≤ data.length ∧ data.window i (i + needle.length) = needle

instance (data needle : Bytes) (i : Nat) : Decidable (Occurs data needle i) :=
  inferInstanceAs (Decidable (_ ∧ _))

section Occurrences

variable {data needle rest : Bytes} {b : UInt8} {i lo hi : Nat}

theorem occurs_iff_append :
    Occurs data needle i ↔ ∃ before after, before.length = i ∧ data = before ++ (needle ++ after) := by
  unfold Occurs window
  rw [Nat.add_sub_cancel_left]
  constructor
  · rintro ⟨within, same⟩
    refine ⟨data.take i, data.drop (i + needle.length), List.length_take_of_le (by omega), ?_⟩
    rw [← List.drop_drop, ← same, List.length_take_of_le (by rw [List.length_drop]; omega),
      List.take_append_drop, List.take_append_drop]
  · rintro ⟨before, after, rfl, rfl⟩
    simp

theorem Occurs.eq_append (h : Occurs data needle i) :
    data = data.take i ++ (needle ++ data.drop (i + needle.length)) := by
  obtain ⟨before, after, rfl, rfl⟩ := occurs_iff_append.mp h
  rw [List.take_left, ← List.drop_drop, List.drop_left, List.drop_left]

theorem occurs_zero_iff : Occurs data needle 0 ↔ needle.isPrefixOf data = true := by
  rw [List.isPrefixOf_iff_prefix, occurs_iff_append]
  constructor
  · rintro ⟨before, after, nothing, rfl⟩
    rw [List.eq_nil_of_length_eq_zero nothing]
    exact ⟨after, rfl⟩
  · rintro ⟨after, rfl⟩
    exact ⟨[], after, rfl, rfl⟩

theorem occurs_cons_succ : Occurs (b :: rest) needle (i + 1) ↔ Occurs rest needle i := by
  unfold Occurs window
  rw [List.drop_succ_cons, List.length_cons, show i + 1 + needle.length - (i + 1) = needle.length by omega,
    Nat.add_sub_cancel_left]
  exact and_congr_left' (by omega)

theorem occurs_drop_iff (within : lo ≤ data.length) :
    Occurs (data.drop lo) needle i ↔ Occurs data needle (lo + i) := by
  unfold Occurs window
  rw [List.drop_drop, List.length_drop, Nat.add_sub_cancel_left, Nat.add_sub_cancel_left]
  exact and_congr_left' (by omega)

theorem occurs_take_iff : Occurs (data.take hi) needle i ↔ i + needle.length ≤ hi ∧ Occurs data needle i := by
  unfold Occurs window
  rw [List.drop_take, List.take_take, List.length_take, Nat.add_sub_cancel_left, ← and_assoc,
    ← Nat.le_min, and_congr_right_iff]
  intro within
  rw [Nat.min_eq_left (by omega)]

theorem occurs_window_iff (ordered : lo ≤ hi) (within : lo ≤ data.length) :
    Occurs (data.window lo hi) needle i ↔ lo + i + needle.length ≤ hi ∧ Occurs data needle (lo + i) := by
  rw [window, occurs_take_iff, occurs_drop_iff within]
  exact and_congr_left' (by omega)

theorem occurs_reverse (h : Occurs data needle i) :
    Occurs data.reverse needle.reverse (data.length - (i + needle.length)) := by
  obtain ⟨before, after, rfl, rfl⟩ := occurs_iff_append.mp h
  refine occurs_iff_append.mpr ⟨after.reverse, before.reverse, ?_, ?_⟩
  · simp only [List.length_reverse, List.length_append]
    omega
  · simp

end Occurrences

/-- What a search says that is after one member of a set of places: that member, or that the set is empty. -/
inductive Spots (Wanted : Set Nat → Nat → Prop) (places : Set Nat) : Option Nat → Prop
  | found {i : Nat} (wanted : Wanted places i) : Spots Wanted places (some i)
  | missing (nowhere : ∀ i, i ∉ places) : Spots Wanted places none

namespace Spots

variable {Wanted : Set Nat → Nat → Prop} {places : Set Nat} {answer answer' : Option Nat} {i : Nat}

theorem eq_none_iff (h : Spots Wanted places answer) (member : ∀ i, Wanted places i → i ∈ places) :
    answer = none ↔ ∀ i, i ∉ places := by
  cases h with
  | found wanted => exact ⟨nofun, fun nowhere => absurd (member _ wanted) (nowhere _)⟩
  | missing nowhere => exact ⟨fun _ => nowhere, fun _ => rfl⟩

theorem eq_some_iff (h : Spots Wanted places answer) (member : ∀ i, Wanted places i → i ∈ places)
    (unique : ∀ i j, Wanted places i → Wanted places j → i = j) : answer = some i ↔ Wanted places i := by
  cases h with
  | found wanted => exact ⟨fun same => Option.some.inj same ▸ wanted, fun other => congrArg some (unique _ _ wanted other)⟩
  | missing nowhere => exact ⟨nofun, fun wanted => absurd (member i wanted) (nowhere i)⟩

theorem least_iff (h : Spots IsLeast places answer) : answer = some i ↔ IsLeast places i :=
  h.eq_some_iff (fun _ least => least.1) fun _ _ least least' => least.unique least'

theorem greatest_iff (h : Spots IsGreatest places answer) : answer = some i ↔ IsGreatest places i :=
  h.eq_some_iff (fun _ greatest => greatest.1) fun _ _ greatest greatest' => greatest.unique greatest'

theorem least_unique (h : Spots IsLeast places answer) (h' : Spots IsLeast places answer') : answer = answer' :=
  Option.ext fun _ => h.least_iff.trans h'.least_iff.symm

theorem greatest_unique (h : Spots IsGreatest places answer) (h' : Spots IsGreatest places answer') :
    answer = answer' :=
  Option.ext fun _ => h.greatest_iff.trans h'.greatest_iff.symm

end Spots

section Searches

variable {hay needle : Bytes} {i : Nat}

theorem findIn_spots (needle hay : Bytes) : Spots IsLeast {i | Occurs hay needle i} (findIn needle hay) := by
  induction hay with
  | nil =>
    cases needle with
    | nil => exact .found ⟨by decide, fun i _ => Nat.zero_le i⟩
    | cons c needle => exact .missing fun i occurs => by simpa using occurs.1
  | cons b rest ih =>
    rw [findIn]
    by_cases here : needle.isPrefixOf (b :: rest) = true
    · rw [if_pos here]
      exact .found ⟨occurs_zero_iff.mpr here, fun i _ => Nat.zero_le i⟩
    · rw [if_neg here]
      rw [← occurs_zero_iff] at here
      generalize findIn needle rest = answer at ih
      cases ih with
      | found least =>
        refine .found ⟨occurs_cons_succ.mpr least.1, fun j there => ?_⟩
        cases j with
        | zero => exact absurd there here
        | succ j => exact Nat.succ_le_succ (least.2 (occurs_cons_succ.mp there))
      | missing nowhere =>
        refine .missing fun j there => ?_
        cases j with
        | zero => exact here there
        | succ j => exact nowhere j (occurs_cons_succ.mp there)

theorem rfindIn_spots (needle hay : Bytes) :
    Spots IsGreatest {i | Occurs hay needle i} (rfindIn needle hay) := by
  induction hay with
  | nil =>
    cases needle with
    | nil => exact .found ⟨by decide, fun i occurs => by simpa using occurs.1⟩
    | cons c needle => exact .missing fun i occurs => by simpa using occurs.1
  | cons b rest ih =>
    rw [rfindIn]
    generalize rfindIn needle rest = answer at ih
    cases ih with
    | found greatest =>
      refine .found ⟨occurs_cons_succ.mpr greatest.1, fun j there => ?_⟩
      cases j with
      | zero => exact Nat.zero_le _
      | succ j => exact Nat.succ_le_succ (greatest.2 (occurs_cons_succ.mp there))
    | missing nowhere =>
      have first (j : Nat) (there : Occurs (b :: rest) needle j) : j = 0 := by
        cases j with
        | zero => rfl
        | succ j => exact absurd (occurs_cons_succ.mp there) (nowhere j)
      by_cases here : needle.isPrefixOf (b :: rest) = true
      · simp only [if_pos here]
        exact .found ⟨occurs_zero_iff.mpr here, fun j there => (first j there).le⟩
      · simp only [if_neg here]
        refine .missing fun j there => here ?_
        rw [← occurs_zero_iff, ← first j there]
        exact there

theorem findIn_eq_some_iff : findIn needle hay = some i ↔ IsLeast {i | Occurs hay needle i} i :=
  (findIn_spots needle hay).least_iff

theorem findIn_eq_none_iff : findIn needle hay = none ↔ ∀ i, ¬ Occurs hay needle i :=
  (findIn_spots needle hay).eq_none_iff fun _ least => least.1

end Searches

/-- Places of matches from left to right, each behind the one before. -/
structure Packing (data needle : Bytes) (places : List Nat) : Prop where
  apart : places.Pairwise fun i j => i + needle.length ≤ j
  occur : ∀ i ∈ places, Occurs data needle i

/-- The places at which matches are found from `lo` on, when the search goes on behind each of them. -/
inductive Greedy (data needle : Bytes) : Nat → List Nat → Prop
  | done {lo : Nat} (nowhere : ∀ i, lo ≤ i → ¬ Occurs data needle i) : Greedy data needle lo []
  | step {lo i : Nat} {rest : List Nat} (least : IsLeast {i | lo ≤ i ∧ Occurs data needle i} i)
    (others : Greedy data needle (i + needle.length) rest) : Greedy data needle lo (i :: rest)

section Matches

variable {data needle hay : Bytes} {places : List Nat} {lo : Nat}

theorem Greedy.lower (h : Greedy data needle lo places) : ∀ i ∈ places, lo ≤ i := by
  induction h with
  | done => simp
  | step least others ih =>
    intro j mem
    rcases List.mem_cons.mp mem with rfl | further
    · exact least.1.1
    · have := ih j further
      have := least.1.1
      omega

theorem Greedy.packing (h : Greedy data needle lo places) : Packing data needle places := by
  induction h with
  | done => exact ⟨.nil, by simp⟩
  | step least others ih =>
    refine ⟨List.pairwise_cons.mpr ⟨others.lower, ih.apart⟩, fun j mem => ?_⟩
    rcases List.mem_cons.mp mem with rfl | further
    · exact least.1.2
    · exact ih.occur j further

/-- There are never more matches that do not overlap: the first of them cannot end before the one that is
found, and so on behind it. -/
theorem Greedy.most (h : Greedy data needle lo places) {others : List Nat} (packing : Packing data needle others)
    (lower : ∀ i ∈ others, lo ≤ i) : others.length ≤ places.length := by
  induction h generalizing others with
  | done nowhere =>
    cases others with
    | nil => exact Nat.le_refl _
    | cons j rest =>
      exact absurd (packing.occur j List.mem_cons_self) (nowhere j (lower j List.mem_cons_self))
  | @step lo i _ least _ ih =>
    cases others with
    | nil => exact Nat.zero_le _
    | cons j rest =>
      obtain ⟨behind, apart⟩ := List.pairwise_cons.mp packing.apart
      have first : i ≤ j := least.2 ⟨lower j List.mem_cons_self, packing.occur j List.mem_cons_self⟩
      refine Nat.succ_le_succ (ih ⟨apart, fun k mem => packing.occur k (List.mem_cons_of_mem j mem)⟩ ?_)
      intro k mem
      have := behind k mem
      omega

theorem Packing.reverse (h : Packing data needle places) :
    Packing data.reverse needle.reverse
      (places.reverse.map fun i => data.length - (i + needle.length)) where
  apart := by
    rw [List.pairwise_map, List.pairwise_reverse, List.length_reverse]
    refine h.apart.imp_of_mem fun {i j} _ mem behind => ?_
    have := (h.occur j mem).1
    omega
  occur := by
    intro k mem
    obtain ⟨i, there, rfl⟩ := List.mem_map.mp mem
    exact occurs_reverse (h.occur i (List.mem_reverse.mp there))

theorem countFrom_skip (needle : Bytes) (skip : Nat) (hay : Bytes) :
    countFrom needle skip hay = countFrom needle 0 (hay.drop skip) := by
  induction hay generalizing skip with
  | nil => cases skip <;> simp [countFrom]
  | cons b rest ih =>
    cases skip with
    | zero => rfl
    | succ skip => rw [countFrom, ih, List.drop_succ_cons]

theorem countFrom_missing (missing : findIn needle hay = none) : countFrom needle 0 hay = 0 := by
  induction hay with
  | nil => rfl
  | cons b rest ih =>
    rw [findIn] at missing
    split at missing
    · cases missing
    next elsewhere =>
      rw [countFrom, if_neg elsewhere, ih (Option.map_eq_none_iff.mp missing)]

theorem countFrom_found {i : Nat} (nonempty : needle ≠ []) (found : findIn needle hay = some i) :
    countFrom needle 0 hay = countFrom needle 0 (hay.drop (i + needle.length)) + 1 := by
  have positive := List.length_pos_iff.mpr nonempty
  induction hay generalizing i with
  | nil =>
    rw [findIn, if_neg (by simpa using nonempty)] at found
    cases found
  | cons b rest ih =>
    rw [findIn] at found
    split at found
    next here =>
      obtain rfl := Option.some.inj found
      rw [countFrom, if_pos here, countFrom_skip, Nat.zero_add]
      rw [show needle.length = needle.length - 1 + 1 by omega, List.drop_succ_cons, Nat.add_sub_cancel]
    next elsewhere =>
      obtain ⟨j, further, rfl⟩ := Option.map_eq_some_iff.mp found
      rw [countFrom, if_neg elsewhere, ih further, show j + 1 + needle.length = j + needle.length + 1 by omega,
        List.drop_succ_cons]

theorem exists_greedy (nonempty : needle ≠ []) (data : Bytes) (lo : Nat) :
    ∃ places, Greedy data needle lo places := by
  have positive := List.length_pos_iff.mpr nonempty
  by_cases somewhere : ∃ i, lo ≤ i ∧ Occurs data needle i
  · obtain ⟨places, others⟩ := exists_greedy nonempty data (Nat.find somewhere + needle.length)
    exact ⟨_, .step ⟨Nat.find_spec somewhere, fun i h => Nat.find_min' somewhere h⟩ others⟩
  · exact ⟨[], .done fun i above there => somewhere ⟨i, above, there⟩⟩
termination_by data.length - lo
decreasing_by
  obtain ⟨above, within, -⟩ := Nat.find_spec somewhere
  omega

theorem Greedy.count (nonempty : needle ≠ []) (h : Greedy data needle lo places) (within : lo ≤ data.length) :
    countFrom needle 0 (data.drop lo) = places.length := by
  induction h with
  | done nowhere =>
    refine countFrom_missing (findIn_eq_none_iff.mpr fun i there => ?_)
    exact nowhere (_ + i) (Nat.le_add_right _ i) ((occurs_drop_iff within).mp there)
  | @step lo i rest least others ih =>
    obtain ⟨above, there⟩ := least.1
    have found : findIn needle (data.drop lo) = some (i - lo) := by
      refine findIn_eq_some_iff.mpr ⟨(occurs_drop_iff within).mpr ?_, fun j further => ?_⟩
      · rwa [Nat.add_sub_cancel' above]
      · have := least.2 ⟨Nat.le_add_right lo j, (occurs_drop_iff within).mp further⟩
        omega
    rw [countFrom_found nonempty found, List.drop_drop, show lo + (i - lo + needle.length) = i + needle.length by omega,
      ih there.1, List.length_cons]

theorem countIn_eq (nonempty : needle ≠ []) : countIn needle hay = countFrom needle 0 hay := by
  rw [countIn, if_neg (by simpa using nonempty)]

theorem countIn_isGreatest (nonempty : needle ≠ []) (hay : Bytes) :
    IsGreatest {n | ∃ places, Packing hay needle places ∧ places.length = n} (countIn needle hay) := by
  obtain ⟨places, greedy⟩ := exists_greedy nonempty hay 0
  have counted := greedy.count nonempty (Nat.zero_le _)
  rw [List.drop_zero, ← countIn_eq nonempty] at counted
  rw [counted]
  refine ⟨⟨places, greedy.packing, rfl⟩, ?_⟩
  rintro n ⟨others, packing, rfl⟩
  exact greedy.most packing fun i _ => Nat.zero_le i

theorem countIn_reverse (nonempty : needle ≠ []) (hay : Bytes) :
    countIn needle.reverse hay.reverse = countIn needle hay := by
  refine (countIn_isGreatest (by simpa using nonempty) hay.reverse).unique ?_
  obtain ⟨⟨places, packing, counted⟩, most⟩ := countIn_isGreatest nonempty hay
  refine ⟨⟨_, packing.reverse, by simpa using counted⟩, ?_⟩
  rintro n ⟨others, packing', rfl⟩
  have turned := packing'.reverse
  rw [List.reverse_reverse, List.reverse_reverse] at turned
  have bound := most ⟨_, turned, rfl⟩
  simpa using bound

end Matches

end DynamicObjects.Bytes

import DynamicObjects.ByteSequences.Basic
import DynamicObjects.Proofs.Bytes.Occurrences
import DynamicObjects.Proofs.Slices.Assignment

/-!
Searching between optional bounds. The bounds leave a window of the data, or none if they are crossed or
the first is beyond the end. All answers are about the places in the window at which the needle stands, and
they are the answers on the slice between the same bounds, moved by where the window begins.
-/
namespace DynamicObjects.Bytes

/-- All pieces of one length, each a place behind the one before. -/
def windows (size : Nat) (hay : Bytes) : List Bytes :=
  (List.range (hay.length + 1 - size)).map fun i => hay.window i (i + size)

def lastIdx? {α : Type} (p : α → Bool) (xs : List α) : Option Nat :=
  (xs.reverse.findIdx? p).map (xs.length - 1 - ·)

/-- The empty needle is at the front, a byte is looked for among the bytes, and others among the pieces of
their length. -/
def scan (needle hay : Bytes) : Option Nat :=
  match needle with
  | [] => some 0
  | [b] => hay.findIdx? (· == b)
  | needle => (windows needle.length hay).findIdx? (· == needle)

def rscan (needle hay : Bytes) : Option Nat :=
  match needle with
  | [] => some hay.length
  | [b] => lastIdx? (· == b) hay
  | needle => lastIdx? (· == needle) (windows needle.length hay)

def countLoop (needle hay : Bytes) (i : Nat) : Nat :=
  if h : i + needle.length ≤ hay.length ∧ needle ≠ [] then
    if hay.window i (i + needle.length) = needle then countLoop needle hay (i + needle.length) + 1
    else countLoop needle hay (i + 1)
  else 0
termination_by hay.length - i
decreasing_by
  · have := List.length_pos_iff.mpr h.2
    omega
  · have := List.length_pos_iff.mpr h.2
    omega

section Scans

variable {α : Type} {p : α → Bool} {needle hay : Bytes} {i : Nat} {b : UInt8}

theorem findIdx?_spots (p : α → Bool) (xs : List α) :
    Spots IsLeast {i | ∃ x, xs[i]? = some x ∧ p x = true} (xs.findIdx? p) := by
  cases found : xs.findIdx? p with
  | none =>
    rw [List.findIdx?_eq_none_iff] at found
    refine .missing fun i ⟨x, item, holds⟩ => ?_
    rw [found x (List.mem_of_getElem? item)] at holds
    cases holds
  | some i =>
    obtain ⟨bound, holds, before⟩ := List.findIdx?_eq_some_iff_getElem.mp found
    refine .found ⟨⟨xs[i], List.getElem?_eq_getElem bound, holds⟩, fun j ⟨x, item, holds'⟩ => ?_⟩
    refine Nat.le_of_not_lt fun lt => before j lt ?_
    obtain ⟨_, rfl⟩ := List.getElem?_eq_some_iff.mp item
    exact holds'

theorem lastIdx?_spots (p : α → Bool) (xs : List α) :
    Spots IsGreatest {i | ∃ x, xs[i]? = some x ∧ p x = true} (lastIdx? p xs) := by
  have turned {i : Nat} (lt : i < xs.length) : xs.reverse[xs.length - 1 - i]? = xs[i]? := by
    rw [List.getElem?_reverse (by omega)]
    congr 1
    omega
  have spots := findIdx?_spots p xs.reverse
  unfold lastIdx?
  generalize xs.reverse.findIdx? p = answer at spots
  cases spots with
  | @found i least =>
    obtain ⟨x, item, holds⟩ := least.1
    have bound : i < xs.length := by simpa using (List.getElem?_eq_some_iff.mp item).1
    have same : xs[xs.length - 1 - i]? = some x := by rw [← List.getElem?_reverse bound, item]
    refine .found ⟨⟨x, same, holds⟩, fun j ⟨y, there, holds'⟩ => ?_⟩
    have inside := (List.getElem?_eq_some_iff.mp there).1
    have := least.2 ⟨y, (turned inside).trans there, holds'⟩
    show j ≤ xs.length - 1 - i
    omega
  | missing nowhere =>
    refine .missing fun i ⟨x, item, holds⟩ => ?_
    have inside := (List.getElem?_eq_some_iff.mp item).1
    exact nowhere (xs.length - 1 - i) ⟨x, (turned inside).trans item, holds⟩

theorem occurs_nil_iff : Occurs hay [] i ↔ i ≤ hay.length := by
  simp [Occurs, window]

theorem occurs_byte_iff : Occurs hay [b] i ↔ ∃ c, hay[i]? = some c ∧ (c == b) = true := by
  unfold Occurs window
  rw [List.length_singleton, Nat.add_sub_cancel_left, List.take_one, List.head?_drop]
  constructor
  · rintro ⟨bound, same⟩
    rw [List.getElem?_eq_getElem bound] at same ⊢
    exact ⟨_, rfl, by simpa using same⟩
  · rintro ⟨c, item, same⟩
    have bound := (List.getElem?_eq_some_iff.mp item).1
    rw [item, eq_of_beq same]
    exact ⟨bound, rfl⟩

theorem occurs_piece_iff :
    Occurs hay needle i ↔ ∃ piece, (windows needle.length hay)[i]? = some piece ∧ (piece == needle) = true := by
  unfold Occurs windows
  rw [List.getElem?_map]
  constructor
  · rintro ⟨within, same⟩
    exact ⟨_, by rw [List.getElem?_range (by omega)]; rfl, beq_iff_eq.mpr same⟩
  · rintro ⟨piece, item, same⟩
    obtain ⟨j, there, rfl⟩ := Option.map_eq_some_iff.mp item
    obtain ⟨bound, rfl⟩ := List.getElem?_eq_some_iff.mp there
    rw [List.length_range] at bound
    rw [List.getElem_range] at same
    exact ⟨by omega, eq_of_beq same⟩

theorem scan_spots (needle hay : Bytes) : Spots IsLeast {i | Occurs hay needle i} (scan needle hay) := by
  match needle with
  | [] => exact .found ⟨occurs_nil_iff.mpr (Nat.zero_le _), fun i _ => Nat.zero_le i⟩
  | [b] =>
    simp only [occurs_byte_iff]
    exact findIdx?_spots _ hay
  | b :: c :: needle =>
    simp only [occurs_piece_iff]
    exact findIdx?_spots _ _

theorem rscan_spots (needle hay : Bytes) : Spots IsGreatest {i | Occurs hay needle i} (rscan needle hay) := by
  match needle with
  | [] => exact .found ⟨occurs_nil_iff.mpr (Nat.le_refl _), fun i there => occurs_nil_iff.mp there⟩
  | [b] =>
    simp only [occurs_byte_iff]
    exact lastIdx?_spots _ hay
  | b :: c :: needle =>
    simp only [occurs_piece_iff]
    exact lastIdx?_spots _ _

theorem scan_eq (needle hay : Bytes) : scan needle hay = findIn needle hay :=
  (scan_spots needle hay).least_unique (findIn_spots needle hay)

theorem rscan_eq (needle hay : Bytes) : rscan needle hay = rfindIn needle hay :=
  (rscan_spots needle hay).greatest_unique (rfindIn_spots needle hay)

theorem countLoop_eq (nonempty : needle ≠ []) (hay : Bytes) (i : Nat) :
    countLoop needle hay i = countFrom needle 0 (hay.drop i) := by
  have here_iff (i : Nat) (bound : i < hay.length) :
      needle.isPrefixOf (hay.drop i) = true ↔ Occurs hay needle i := by
    rw [← occurs_zero_iff, occurs_drop_iff bound.le, Nat.add_zero]
  have positive := List.length_pos_iff.mpr nonempty
  fun_induction countLoop needle hay i with
  | case1 i more same ih =>
    have found : findIn needle (hay.drop i) = some 0 := by
      refine findIn_eq_some_iff.mpr ⟨?_, fun j _ => Nat.zero_le j⟩
      exact occurs_zero_iff.mpr ((here_iff i (by omega)).mpr ⟨more.1, same⟩)
    rw [ih, countFrom_found nonempty found, List.drop_drop, Nat.zero_add]
  | case2 i more differs ih =>
    have elsewhere := mt (here_iff i (by omega)).mp fun there => differs there.2
    rw [ih]
    rw [List.drop_eq_getElem_cons (show i < hay.length by omega)] at elsewhere ⊢
    rw [countFrom, if_neg elsewhere]
  | case3 i stopped =>
    refine (countFrom_missing (findIn_eq_none_iff.mpr fun j there => ?_)).symm
    have within := there.1
    rw [List.length_drop] at within
    exact stopped ⟨by omega, nonempty⟩

end Scans

/-- A bound counted from the end once if it is negative, and never before the front. -/
def wrapped (bound : Int64) (len : Nat) : Nat :=
  if bound.toInt < 0 then (bound.toInt + len).toNat else bound.toInt.toNat

def windowStart (start : Option Int64) (len : Nat) : Nat :=
  (start.map (wrapped · len)).getD 0

/-- Where a window ends, which is never beyond the end of the data. -/
def windowStop (stop : Option Int64) (len : Nat) : Nat :=
  min len ((stop.map (wrapped · len)).getD len)

section Bounds

variable {start stop : Option Int64} {len : Nat}

theorem clampInsert_wrapped (bound : Int64) (fits : (len : Int) ≤ Word.greatest) :
    Index.clampInsert bound.toInt len = min len (wrapped bound len) := by
  unfold Index.clampInsert wrapped
  rw [Slice.clampLength_eq fits]
  dsimp only
  split <;> omega

theorem adjustRange_wrapped (fits : (len : Int) ≤ Word.greatest) :
    Index.adjustRange (start.map Int64.toInt) (stop.map Int64.toInt) len =
      (min len (windowStart start len), windowStop stop len) := by
  unfold Index.adjustRange windowStart windowStop
  cases start <;> cases stop <;> simp [clampInsert_wrapped _ fits]

theorem searchRange_eq (fits : (len : Int) ≤ Word.greatest) :
    ByteSequence.searchRange (start.map Int64.toInt) (stop.map Int64.toInt) len =
      (min (len + 1) (windowStart start len), windowStop stop len) := by
  unfold ByteSequence.searchRange
  rw [adjustRange_wrapped fits]
  cases start with
  | none => simp [windowStart]
  | some bound =>
    simp only [Option.map_some, windowStart, Option.getD_some, wrapped]
    split <;> split <;> congr 1 <;> omega

end Bounds

def Within (data needle : Bytes) (lo hi i : Nat) : Prop :=
  lo ≤ i ∧ i + needle.length ≤ hi ∧ data.window i (i + needle.length) = needle

section Windows

variable {data needle : Bytes} {places : Set Nat} {answer : Option Nat} {lo hi i : Nat}

theorem isLeast_shift (lo i : Nat) (h : IsLeast places i) : IsLeast ((lo + ·) '' places) (lo + i) := by
  refine ⟨⟨i, h.1, rfl⟩, ?_⟩
  rintro _ ⟨j, there, rfl⟩
  exact Nat.add_le_add_left (h.2 there) lo

theorem isGreatest_shift (lo i : Nat) (h : IsGreatest places i) : IsGreatest ((lo + ·) '' places) (lo + i) := by
  refine ⟨⟨i, h.1, rfl⟩, ?_⟩
  rintro _ ⟨j, there, rfl⟩
  exact Nat.add_le_add_left (h.2 there) lo

theorem length_window (within : hi ≤ data.length) : (data.window lo hi).length = hi - lo := by
  rw [window, List.length_take, List.length_drop]
  omega

theorem within_eq (ordered : lo ≤ hi) (inside : hi ≤ data.length) :
    {i | Within data needle lo hi i} = (lo + ·) '' {j | Occurs (data.window lo hi) needle j} := by
  ext i
  constructor
  · rintro ⟨above, below, same⟩
    refine ⟨i - lo, (occurs_window_iff ordered (by omega)).mpr ?_, Nat.add_sub_cancel' above⟩
    rw [Nat.add_sub_cancel' above]
    exact ⟨below, by omega, same⟩
  · rintro ⟨j, there, rfl⟩
    obtain ⟨below, -, same⟩ := (occurs_window_iff ordered (by omega)).mp there
    exact ⟨Nat.le_add_right lo j, below, same⟩

theorem not_within_of_crossed (crossed : hi < lo) (i : Nat) : ¬ Within data needle lo hi i := by
  rintro ⟨above, below, -⟩
  omega

theorem validWindow_iff (inside : hi ≤ data.length) : validWindow data lo hi = true ↔ lo ≤ hi := by
  simp [validWindow, inside]

theorem window_spots {Wanted : Set Nat → Nat → Prop} (inside : hi ≤ data.length)
    (shift : ∀ i, Wanted {i | Occurs (data.window lo hi) needle i} i →
      Wanted ((lo + ·) '' {i | Occurs (data.window lo hi) needle i}) (lo + i))
    (spots : Spots Wanted {i | Occurs (data.window lo hi) needle i} answer) :
    Spots Wanted {i | Within data needle lo hi i}
      (if validWindow data lo hi = true then answer.map (lo + ·) else none) := by
  by_cases ordered : lo ≤ hi
  · rw [if_pos ((validWindow_iff inside).mpr ordered), within_eq ordered inside]
    cases spots with
    | found wanted => exact .found (shift _ wanted)
    | missing nowhere =>
      refine .missing ?_
      rintro _ ⟨j, there, rfl⟩
      exact nowhere j there
  · rw [if_neg (mt (validWindow_iff inside).mp ordered)]
    exact .missing (not_within_of_crossed (Nat.lt_of_not_le ordered))

theorem find_spots (inside : hi ≤ data.length) :
    Spots IsLeast {i | Within data needle lo hi i} (data.find needle lo hi) :=
  window_spots inside (isLeast_shift lo) (findIn_spots needle _)

theorem rfind_spots (inside : hi ≤ data.length) :
    Spots IsGreatest {i | Within data needle lo hi i} (data.rfind needle lo hi) :=
  window_spots inside (isGreatest_shift lo) (rfindIn_spots needle _)

theorem startsWith_iff (inside : hi ≤ data.length) :
    data.startsWith needle lo hi = true ↔ lo ≤ hi ∧ Within data needle lo hi lo := by
  rw [startsWith, Bool.and_eq_true, validWindow_iff inside, ← occurs_zero_iff, and_congr_right_iff]
  intro ordered
  rw [occurs_window_iff ordered (by omega), Nat.add_zero]
  exact ⟨fun there => ⟨Nat.le_refl lo, there.1, there.2.2⟩,
    fun there => ⟨there.2.1, Nat.le_trans there.2.1 inside, there.2.2⟩⟩

theorem isSuffixOf_iff :
    needle.isSuffixOf data = true ↔ ∃ i, i + needle.length = data.length ∧ Occurs data needle i := by
  rw [List.isSuffixOf_iff_suffix]
  constructor
  · rintro ⟨before, rfl⟩
    exact ⟨before.length, (List.length_append).symm, occurs_iff_append.mpr ⟨before, [], rfl, by simp⟩⟩
  · rintro ⟨i, last, there⟩
    have nothing : data.drop (i + needle.length) = [] := List.drop_of_length_le (by omega)
    rw [there.eq_append, nothing, List.append_nil]
    exact List.suffix_append _ _

theorem endsWith_iff (inside : hi ≤ data.length) :
    data.endsWith needle lo hi = true ↔ lo ≤ hi ∧ ∃ i, i + needle.length = hi ∧ Within data needle lo hi i := by
  rw [endsWith, Bool.and_eq_true, validWindow_iff inside, isSuffixOf_iff, and_congr_right_iff]
  intro ordered
  rw [length_window inside]
  constructor
  · rintro ⟨j, last, there⟩
    obtain ⟨below, -, same⟩ := (occurs_window_iff ordered (by omega)).mp there
    exact ⟨lo + j, by omega, Nat.le_add_right lo j, below, same⟩
  · rintro ⟨i, last, above, below, same⟩
    refine ⟨i - lo, by omega, (occurs_window_iff ordered (by omega)).mpr ?_⟩
    rw [Nat.add_sub_cancel' above]
    exact ⟨below, by omega, same⟩

theorem window_all (data : Bytes) : data.window 0 data.length = data := by
  simp [window]

theorem not_validWindow_of_crossed (crossed : hi < lo) : validWindow data lo hi = false := by
  rw [validWindow, Bool.and_eq_false_iff]
  exact .inl (by simpa using crossed)

end Windows

/-- What the searches answer between the ends of a window. -/
structure Searched (data needle : Bytes) (lo hi : Nat) (range : Nat × Nat) : Prop where
  find : Spots IsLeast {i | Within data needle lo hi i} (data.find needle range.1 range.2)
  rfind : Spots IsGreatest {i | Within data needle lo hi i} (data.rfind needle range.1 range.2)
  startsWith : data.startsWith needle range.1 range.2 = true ↔ lo ≤ hi ∧ Within data needle lo hi lo
  endsWith : data.endsWith needle range.1 range.2 = true ↔
    lo ≤ hi ∧ ∃ i, i + needle.length = hi ∧ Within data needle lo hi i
  crossed : hi < lo → data.find needle range.1 range.2 = none ∧ data.rfind needle range.1 range.2 = none ∧
    data.count needle range.1 range.2 = 0

/-- What the searches answer is what they answer on a slice by itself, moved by where it begins. -/
structure Sliced (data needle slice : Bytes) (lo hi : Nat) (range : Nat × Nat) : Prop where
  find : data.find needle range.1 range.2 = (slice.find needle 0 slice.length).map (lo + ·)
  rfind : data.rfind needle range.1 range.2 = (slice.rfind needle 0 slice.length).map (lo + ·)
  count : data.count needle range.1 range.2 = slice.count needle 0 slice.length
  scan : data.find needle range.1 range.2 = (scan needle slice).map (lo + ·)
  rscan : data.rfind needle range.1 range.2 = (rscan needle slice).map (lo + ·)
  empty : needle = [] → data.count needle range.1 range.2 = hi - lo + 1
  greedy : needle ≠ [] → (∃ places, Greedy slice needle 0 places) ∧
    ∀ places, Greedy slice needle 0 places → data.count needle range.1 range.2 = places.length
  loop : needle ≠ [] → data.count needle range.1 range.2 = countLoop needle slice 0

section Answers

variable {data needle : Bytes} {start stop : Option Int64}

theorem searched (fits : (data.length : Int) ≤ Word.greatest) :
    Searched data needle (windowStart start data.length) (windowStop stop data.length)
      (ByteSequence.searchRange (start.map Int64.toInt) (stop.map Int64.toInt) data.length) := by
  rw [searchRange_eq fits]
  have inside : windowStop stop data.length ≤ data.length := Nat.min_le_left _ _
  generalize windowStop stop data.length = hi at inside
  generalize windowStart start data.length = lo
  by_cases before : lo ≤ data.length + 1
  · rw [Nat.min_eq_right before]
    refine ⟨find_spots inside, rfind_spots inside, startsWith_iff inside, endsWith_iff inside, fun crossed => ?_⟩
    simp [find, rfind, count, not_validWindow_of_crossed crossed]
  · have crossed : hi < lo := by omega
    rw [Nat.min_eq_left (Nat.le_of_not_le before)]
    have invalid : validWindow data (data.length + 1) hi = false := not_validWindow_of_crossed (by omega)
    have nothing : data.find needle (data.length + 1) hi = none ∧ data.rfind needle (data.length + 1) hi = none ∧
        data.count needle (data.length + 1) hi = 0 := by simp [find, rfind, count, invalid]
    refine ⟨?_, ?_, ?_, ?_, fun _ => nothing⟩
    · rw [nothing.1]
      exact .missing (not_within_of_crossed crossed)
    · rw [nothing.2.1]
      exact .missing (not_within_of_crossed crossed)
    · simp [startsWith, invalid, Nat.not_le.mpr crossed]
    · simp [endsWith, invalid, Nat.not_le.mpr crossed]

theorem select_window (fits : (data.length : Int) ≤ Word.greatest)
    (ordered : windowStart start data.length ≤ windowStop stop data.length) :
    ∃ p, (⟨start, stop, none⟩ : Slice).indices data.length = .ok p ∧
      Buffer.select data.toArray p = data.window (windowStart start data.length) (windowStop stop data.length) := by
  have inside : windowStop stop data.length ≤ data.length := Nat.min_le_left _ _
  have forwards : ¬ (⟨start, stop, none⟩ : Slice).writtenStep < 0 := by
    simp [Slice.writtenStep]
  have ends := Slice.adjustRange_eq fits forwards
  dsimp only at ends
  rw [adjustRange_wrapped fits, Nat.min_eq_right (by omega)] at ends
  obtain ⟨starts, stops⟩ := Prod.mk.inj ends
  refine ⟨_, Slice.indices_eq (by simp) fits, ?_⟩
  rw [starts, stops]
  dsimp only [Slice.stride]
  generalize windowStop stop data.length = hi at inside ordered
  generalize windowStart start data.length = lo at ordered
  have count : Slice.countBetween (Int.ofNat lo) (Int.ofNat hi) 1 = hi - lo := by
    simp only [Slice.countBetween, Int.reduceLT, if_false, Int.ediv_one, Int.ofNat_eq_natCast]
    split <;> omega
  rw [count, Buffer.select, if_pos (Buffer.isContiguous_iff.mpr rfl)]
  simp [window, List.extract_eq_take_drop]

theorem sliced (fits : (data.length : Int) ≤ Word.greatest)
    (ordered : windowStart start data.length ≤ windowStop stop data.length) :
    Sliced data needle (data.window (windowStart start data.length) (windowStop stop data.length))
      (windowStart start data.length) (windowStop stop data.length)
      (ByteSequence.searchRange (start.map Int64.toInt) (stop.map Int64.toInt) data.length) := by
  rw [searchRange_eq fits]
  have inside : windowStop stop data.length ≤ data.length := Nat.min_le_left _ _
  generalize windowStop stop data.length = hi at inside ordered
  generalize windowStart start data.length = lo at ordered
  rw [Nat.min_eq_right (by omega)]
  have valid := (validWindow_iff inside).mpr ordered
  have valid' : validWindow (data.window lo hi) 0 (data.window lo hi).length = true := by simp [validWindow]
  have counted : data.count needle lo hi = countIn needle (data.window lo hi) := by rw [count, if_pos valid]
  constructor
  case find => simp [find, valid, valid', window_all]
  case rfind => simp [rfind, valid, valid', window_all]
  case count => simp [count, valid, valid', window_all]
  case scan => simp [find, valid, scan_eq]
  case rscan => simp [rfind, valid, rscan_eq]
  case empty =>
    rintro rfl
    simp [counted, countIn, length_window inside]
  case greedy =>
    intro nonempty
    refine ⟨exists_greedy nonempty _ 0, fun places greedy => ?_⟩
    rw [counted, countIn_eq nonempty, ← greedy.count nonempty (Nat.zero_le _), List.drop_zero]
  case loop =>
    intro nonempty
    rw [counted, countIn_eq nonempty, countLoop_eq nonempty, List.drop_zero]

end Answers

end DynamicObjects.Bytes

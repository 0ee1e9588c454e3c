import DynamicObjects.Bytes.Split
import Mathlib.Data.List.Basic

/-!
Cutting at line ends. A line is its content and what ends it; there is only one way to read data as lines, and
both ways of cutting, with the ends and without, are read off these lines.
-/
namespace DynamicObjects.Bytes

/-- What ends a line; carriage return and line feed end it together. -/
inductive Terminator
  | lineFeed
  | carriageReturn
  | both
  deriving DecidableEq, Repr

def Terminator.bytes : Terminator → Bytes
  | .lineFeed => [10]
  | .carriageReturn => [13]
  | .both => [13, 10]

theorem Terminator.bytes_ne_nil (ending : Terminator) : ending.bytes ≠ [] := by
  cases ending <;> exact List.cons_ne_nil _ _

def endsLine (b : UInt8) : Bool := b == 10 || b == 13

theorem Terminator.exists_of_endsLine {b : UInt8} (ends : endsLine b = true) :
    ∃ ending : Terminator, ending.bytes = [b] ∧ (ending = .carriageReturn → b = 13) := by
  rcases Bool.or_eq_true_iff.mp ends with fed | returned
  · exact ⟨.lineFeed, by rw [beq_iff_eq.mp fed, Terminator.bytes], nofun⟩
  · exact ⟨.carriageReturn, by rw [beq_iff_eq.mp returned, Terminator.bytes], fun _ => beq_iff_eq.mp returned⟩

@[ext] structure Line where
  content : Bytes
  ending : Option Terminator
  plain : ∀ b ∈ content, endsLine b = false
  nonempty : content ≠ [] ∨ ending ≠ none

def endingBytes : Option Terminator → Bytes
  | none => []
  | some ending => ending.bytes

def Line.kept (line : Line) : Bytes := line.content ++ endingBytes line.ending

def joined (lines : List Line) : Bytes := lines.flatMap Line.kept

/-- Data read as lines: only the last one may lack its end, and a carriage return that ends a line is not
followed by a line feed. -/
structure Lines (data : Bytes) (lines : List Line) : Prop where
  whole : joined lines = data
  ended : ∀ before line behind, lines = before ++ line :: behind → behind ≠ [] → line.ending ≠ none
  apart : ∀ before line behind, lines = before ++ line :: behind → line.ending = some .carriageReturn →
    data[(joined (before ++ [line])).length]? ≠ some 10

structure Line.Before (line : Line) (rest : Bytes) : Prop where
  ended : rest ≠ [] → line.ending ≠ none
  apart : line.ending = some .carriageReturn → rest.head? ≠ some 10

section Lines

variable {data rest : Bytes} {line : Line} {lines : List Line}

@[simp] theorem joined_nil : joined [] = [] := rfl

@[simp] theorem joined_cons : joined (line :: lines) = line.kept ++ joined lines := rfl

theorem getElem?_joined_cons (before : List Line) :
    (line.kept ++ rest)[(joined (line :: before)).length]? = rest[(joined before).length]? := by
  rw [joined_cons, List.length_append, List.getElem?_append_right (Nat.le_add_right _ _), Nat.add_sub_cancel_left]

theorem Line.kept_ne_nil (line : Line) : line.kept ≠ [] := by
  obtain ⟨content, ending, -, nonempty⟩ := line
  intro empty
  obtain ⟨rfl, noEnd⟩ := List.append_eq_nil_iff.mp empty
  rcases nonempty with some | some
  · exact some rfl
  · cases ending with
    | none => exact some rfl
    | some ending => exact ending.bytes_ne_nil noEnd

theorem Lines.nil : Lines [] [] where
  whole := rfl
  ended := by simp
  apart := by simp

theorem Lines.cons (line : Line) (rest : Bytes) (first : line.Before rest) (others : Lines rest lines) :
    Lines (line.kept ++ rest) (line :: lines) where
  whole := by rw [joined_cons, others.whole]
  ended := by
    intro before last behind cut more
    cases before with
    | nil =>
      obtain ⟨rfl, rfl⟩ := List.cons.inj cut
      refine first.ended ?_
      obtain ⟨next, lines, rfl⟩ := List.exists_cons_of_ne_nil more
      rw [← others.whole, joined_cons]
      exact List.append_ne_nil_of_left_ne_nil next.kept_ne_nil _
    | cons _ before => exact others.ended before last behind (List.cons.inj cut).2 more
  apart := by
    intro before last behind cut returned
    cases before with
    | nil =>
      obtain ⟨rfl, -⟩ := List.cons.inj cut
      rw [List.nil_append, getElem?_joined_cons, joined_nil, List.length_nil, ← List.head?_eq_getElem?]
      exact first.apart returned
    | cons _ before =>
      obtain ⟨rfl, others'⟩ := List.cons.inj cut
      rw [List.cons_append, getElem?_joined_cons]
      exact others.apart before last behind others' returned

theorem Lines.of_cons (h : Lines data (line :: lines)) :
    ∃ rest, data = line.kept ++ rest ∧ line.Before rest ∧ Lines rest lines := by
  have whole := h.whole
  rw [joined_cons] at whole
  refine ⟨joined lines, whole.symm, ⟨fun more => ?_, fun returned => ?_⟩,
    ⟨rfl, fun before last behind cut => ?_, fun before last behind cut returned => ?_⟩⟩
  · refine h.ended [] line lines rfl ?_
    rintro rfl
    exact more rfl
  · have behindLine := h.apart [] line lines rfl returned
    rwa [← whole, List.nil_append, getElem?_joined_cons, joined_nil, List.length_nil,
      ← List.head?_eq_getElem?] at behindLine
  · exact h.ended (line :: before) last behind (congrArg (line :: ·) cut)
  · have behindLine := h.apart (line :: before) last behind (congrArg (line :: ·) cut) returned
    rwa [← whole, List.cons_append, getElem?_joined_cons] at behindLine

theorem Lines.ne_nil (h : Lines data (line :: lines)) : data ≠ [] := by
  obtain ⟨rest, rfl, -⟩ := h.of_cons
  exact List.append_ne_nil_of_left_ne_nil line.kept_ne_nil rest

def terminator? : Bytes → Option Terminator
  | 13 :: 10 :: _ => some .both
  | 13 :: _ => some .carriageReturn
  | 10 :: _ => some .lineFeed
  | _ => none

theorem terminator?_carriageReturn (apart : rest.head? ≠ some 10) :
    terminator? (13 :: rest) = some .carriageReturn := by
  unfold terminator?
  split
  next follows =>
    rw [(List.cons.inj follows).2] at apart
    exact absurd rfl apart
  next => rfl
  next other => exact absurd (List.cons.inj other).1 (by decide)
  next _ alone _ => exact absurd rfl (alone rest)

theorem Line.Before.eq_nil (first : line.Before rest) (noEnd : line.ending = none) : rest = [] := by
  by_contra more
  exact first.ended more noEnd

/-- What stands behind the content ends the line, or there is nothing. -/
theorem Line.Before.boundary (first : line.Before rest) :
    ∀ b, (endingBytes line.ending ++ rest).head? = some b → endsLine b = true := by
  cases ending : line.ending with
  | none =>
    rw [first.eq_nil ending]
    exact nofun
  | some ending' => cases ending' <;> rintro b ⟨⟩ <;> rfl

theorem Line.Before.read (first : line.Before rest) :
    (line.kept ++ rest).takeWhile (!endsLine ·) = line.content ∧
      terminator? ((line.kept ++ rest).dropWhile (!endsLine ·)) = line.ending := by
  have front : ∀ b ∈ line.content, (!endsLine b) = true := fun b here => by rw [line.plain b here, Bool.not_false]
  rw [Line.kept, List.append_assoc, List.takeWhile_append_of_pos front, List.dropWhile_append_of_pos front]
  cases ending : line.ending with
  | none => simp [first.eq_nil ending, endingBytes, terminator?]
  | some ending' =>
    cases ending' with
    | lineFeed => simp [endingBytes, Terminator.bytes, endsLine, terminator?]
    | both => simp [endingBytes, Terminator.bytes, endsLine, terminator?]
    | carriageReturn =>
      simp [endingBytes, Terminator.bytes, endsLine, terminator?_carriageReturn (first.apart ending)]

theorem Line.Before.unique {line' : Line} {rest' : Bytes} (first : line.Before rest) (first' : line'.Before rest')
    (same : line.kept ++ rest = line'.kept ++ rest') : line = line' := by
  obtain ⟨content, ending⟩ := first.read
  obtain ⟨content', ending'⟩ := first'.read
  rw [same] at content ending
  exact Line.ext (content.symm.trans content') (ending.symm.trans ending')

theorem Lines.unique {lines' : List Line} (h : Lines data lines) (h' : Lines data lines') : lines = lines' := by
  induction lines generalizing data lines' with
  | nil =>
    cases lines' with
    | nil => rfl
    | cons => exact absurd h.whole.symm h'.ne_nil
  | cons line lines ih =>
    cases lines' with
    | nil => exact absurd h'.whole.symm h.ne_nil
    | cons line' lines' =>
      obtain ⟨rest, whole, first, others⟩ := h.of_cons
      obtain ⟨rest', whole', first', others'⟩ := h'.of_cons
      obtain rfl := first.unique first' (whole.symm.trans whole')
      obtain rfl := List.append_cancel_left (whole.symm.trans whole')
      rw [ih others others']

def Line.text (keepEnds : Bool) (line : Line) : Bytes := if keepEnds then line.kept else line.content

section Collected

variable {collected : Bytes} (plain : ∀ b ∈ collected, endsLine b = false)

def endedLine (ending : Terminator) : Line where
  content := collected.reverse
  ending := some ending
  plain := fun b here => plain b (List.mem_reverse.mp here)
  nonempty := .inr nofun

def lastLine (nonempty : collected ≠ []) : Line where
  content := collected.reverse
  ending := none
  plain := fun b here => plain b (List.mem_reverse.mp here)
  nonempty := .inl (List.reverse_ne_nil_iff.mpr nonempty)

theorem text_endedLine (ending : Terminator) (keepEnds : Bool) :
    (endedLine plain ending).text keepEnds = finishedLine keepEnds collected ending.bytes := by
  cases keepEnds
  · exact (List.append_nil _).symm
  · rfl

theorem text_lastLine (nonempty : collected ≠ []) (keepEnds : Bool) :
    (lastLine plain nonempty).text keepEnds = collected.reverse := by
  cases keepEnds
  · rfl
  · exact List.append_nil _

theorem lines_endedLine {ending : Terminator} (alone : ending = .carriageReturn → rest.head? ≠ some 10)
    (others : Lines rest lines) :
    Lines (collected.reverse ++ (ending.bytes ++ rest)) (endedLine plain ending :: lines) := by
  have first : (endedLine plain ending).Before rest := ⟨nofun, fun same => alone (Option.some.inj same)⟩
  have joint := Lines.cons _ rest first others
  rwa [Line.kept, List.append_assoc] at joint

theorem lines_lastLine (nonempty : collected ≠ []) : Lines collected.reverse [lastLine plain nonempty] := by
  have last : (lastLine plain nonempty).Before [] := ⟨fun more => absurd rfl more, nofun⟩
  have joint := Lines.cons _ [] last .nil
  rwa [Line.kept, List.append_nil, lastLine, endingBytes, List.append_nil] at joint

end Collected

/-- The line collected so far and the data that are left make lines, and these are the ones that are handed out. -/
theorem linesFrom_spec (collected data : Bytes) (plain : ∀ b ∈ collected, endsLine b = false) :
    ∃ lines, Lines (collected.reverse ++ data) lines ∧
      ∀ keepEnds, linesFrom keepEnds collected data = lines.map (Line.text keepEnds) := by
  induction collected, data using linesFrom.induct with
  | case1 collected none =>
    obtain rfl := List.isEmpty_iff.mp none
    exact ⟨[], .nil, fun keepEnds => rfl⟩
  | case2 collected some =>
    have nonempty : collected ≠ [] := fun none => some (List.isEmpty_iff.mpr none)
    refine ⟨[lastLine plain nonempty], ?_, fun keepEnds => ?_⟩
    · rw [List.append_nil]
      exact lines_lastLine plain nonempty
    · rw [linesFrom, if_neg some, List.map_singleton, text_lastLine]
  | case3 collected rest ih =>
    obtain ⟨lines, others, handed⟩ := ih nofun
    have joint : Lines _ (endedLine plain .both :: lines) := lines_endedLine plain (fun same => by cases same) others
    refine ⟨_, joint, fun keepEnds => ?_⟩
    rw [linesFrom, handed, List.map_cons, text_endedLine]
    rfl
  | case4 collected b rest notBoth ends ih =>
    obtain ⟨lines, others, handed⟩ := ih nofun
    obtain ⟨ending, bytes, returned⟩ := Terminator.exists_of_endsLine ends
    have alone : ending = .carriageReturn → rest.head? ≠ some 10 := by
      intro same follows
      obtain ⟨rest, rfl⟩ := List.head?_eq_some_iff.mp follows
      exact notBoth rest (returned same) rfl
    refine ⟨endedLine plain ending :: lines, ?_, fun keepEnds => ?_⟩
    · have joint := lines_endedLine plain alone others
      rwa [bytes] at joint
    · rw [linesFrom, if_pos ends, handed, List.map_cons, text_endedLine, bytes]
      exact notBoth
  | case5 collected b rest notBoth goesOn ih =>
    have inside : endsLine b = false := Bool.eq_false_iff.mpr goesOn
    obtain ⟨lines, same, handed⟩ := ih (List.forall_mem_cons.mpr ⟨inside, plain⟩)
    refine ⟨lines, ?_, fun keepEnds => ?_⟩
    · rwa [List.reverse_cons, List.append_assoc] at same
    · rw [linesFrom, if_neg goesOn, handed]
      exact notBoth

/-- The place of the first end of a line from `k` on, or the end of the data. -/
def lineEnd (data : Bytes) (k : Nat) : Nat :=
  if more : k < data.length then
    if endsLine data[k] then k else lineEnd data (k + 1)
  else k

def behindEnd (data : Bytes) (k : Nat) : Nat :=
  if k < data.length then k + (if data[k]? = some 13 ∧ data[k + 1]? = some 10 then 2 else 1) else k

theorem le_lineEnd (data : Bytes) (k : Nat) : k ≤ lineEnd data k := by
  fun_induction lineEnd data k <;> omega

theorem lt_behindEnd (data : Bytes) (k : Nat) (inside : k < data.length) : k < behindEnd data (lineEnd data k) := by
  have := le_lineEnd data k
  unfold behindEnd
  split_ifs <;> omega

def linesAt (keepEnds : Bool) (data : Bytes) (start : Nat) : List Bytes :=
  if start < data.length then
    let stop := lineEnd data start
    let next := behindEnd data stop
    data.window start (if keepEnds then next else stop) :: linesAt keepEnds data next
  else []
termination_by data.length - start
decreasing_by
  have := lt_behindEnd data start ‹_›
  omega

theorem lineEnd_eq {k : Nat} {content : Bytes} (plain : ∀ b ∈ content, endsLine b = false)
    (ends : ∀ b, rest.head? = some b → endsLine b = true) (front : data.drop k = content ++ rest) :
    lineEnd data k = k + content.length := by
  induction content generalizing k with
  | nil =>
    rw [lineEnd]
    split_ifs with more here
    · rfl
    · refine absurd (ends data[k] ?_) here
      rw [← List.nil_append rest, ← front, List.head?_drop, List.getElem?_eq_getElem more]
    · rfl
  | cons b content ih =>
    obtain ⟨inside, plain'⟩ := List.forall_mem_cons.mp plain
    have item : data[k]? = some b := by rw [← List.head?_drop, front]; rfl
    obtain ⟨more, rfl⟩ := List.getElem?_eq_some_iff.mp item
    have front' : data.drop (k + 1) = content ++ rest := by rw [← List.tail_drop, front]; rfl
    rw [lineEnd, dif_pos more, if_neg (Bool.eq_false_iff.mp inside), ih plain' front', List.length_cons]
    omega

theorem behindEnd_eq {k : Nat} (first : line.Before rest) (front : data.drop k = endingBytes line.ending ++ rest) :
    behindEnd data k = k + (endingBytes line.ending).length := by
  have item (n : Nat) : data[k + n]? = (endingBytes line.ending ++ rest)[n]? := by rw [← front, List.getElem?_drop]
  have here := item 0
  have next := item 1
  rw [Nat.add_zero] at here
  cases ending : line.ending with
  | none =>
    have past : ¬ k < data.length := by
      rw [ending, first.eq_nil ending] at front
      exact Nat.not_lt_of_le (List.drop_eq_nil_iff.mp front)
    rw [behindEnd, if_neg past]
    rfl
  | some ending' =>
    have inside : k < data.length := by
      by_contra past
      rw [ending, List.drop_eq_nil_of_le (Nat.le_of_not_lt past)] at front
      exact List.append_ne_nil_of_left_ne_nil ending'.bytes_ne_nil rest front.symm
    rw [ending] at here next
    rw [behindEnd, if_pos inside, here, next]
    cases ending' with
    | lineFeed => simp [endingBytes, Terminator.bytes]
    | both => simp [endingBytes, Terminator.bytes]
    | carriageReturn =>
      have apart := first.apart ending
      rw [List.head?_eq_getElem?] at apart
      simp [endingBytes, Terminator.bytes, apart]

theorem linesAt_eq (keepEnds : Bool) {start : Nat} (h : Lines (data.drop start) lines) :
    linesAt keepEnds data start = lines.map (Line.text keepEnds) := by
  induction lines generalizing start with
  | nil =>
    have past : ¬ start < data.length := Nat.not_lt_of_le (List.drop_eq_nil_iff.mp h.whole.symm)
    rw [linesAt, if_neg past, List.map_nil]
  | cons line lines ih =>
    obtain ⟨rest, whole, first, others⟩ := h.of_cons
    have inside : start < data.length := by
      by_contra past
      exact h.ne_nil (List.drop_eq_nil_iff.mpr (Nat.le_of_not_lt past))
    have stop : lineEnd data start = start + line.content.length :=
      lineEnd_eq line.plain first.boundary (whole.trans (List.append_assoc _ _ _))
    have next : behindEnd data (lineEnd data start) = start + line.kept.length := by
      rw [stop, behindEnd_eq first, Line.kept, List.length_append, Nat.add_assoc]
      rw [← List.drop_drop, whole, Line.kept, List.append_assoc, List.drop_left]
    have others' : Lines (data.drop (behindEnd data (lineEnd data start))) lines := by
      rwa [next, ← List.drop_drop, whole, List.drop_left]
    rw [linesAt, if_pos inside, List.map_cons]
    simp only [ih others']
    congr 1
    rw [next, stop, window, whole]
    cases keepEnds
    · simp [Line.text, Line.kept]
    · simp [Line.text]

end Lines

/-- Data have one reading as lines: contents without carriage return and line feed, each but the last one with its
end. Cut at line ends they give the contents, or the lines with their ends, which joined are the data; going from
place to place gives the same. -/
theorem splitLines_reads (data : Bytes) :
    ∃ lines, Lines data lines ∧ (∀ lines', Lines data lines' → lines' = lines) ∧
      data.splitLines true = lines.map Line.kept ∧ data.splitLines false = lines.map Line.content ∧
      (data.splitLines true).flatten = data ∧ [] ∉ data.splitLines true ∧
      ∀ keepEnds, linesAt keepEnds data 0 = data.splitLines keepEnds := by
  obtain ⟨lines, reading, handed⟩ := linesFrom_spec [] data nofun
  have kept : data.splitLines true = lines.map Line.kept := handed true
  have only (lines' : List Line) (reading' : Lines data lines') : lines' = lines := reading'.unique reading
  refine ⟨lines, reading, only, kept, handed false, ?_, ?_, fun keepEnds => ?_⟩
  · rw [kept, ← List.flatMap_def]
    exact reading.whole
  · rw [kept]
    intro here
    obtain ⟨line, -, empty⟩ := List.mem_map.mp here
    exact line.kept_ne_nil empty
  · have walked : linesAt keepEnds data 0 = lines.map (Line.text keepEnds) := linesAt_eq keepEnds reading
    exact walked.trans (handed keepEnds).symm

/-- Both ends together, the same bytes the other way round, two carriage returns, and no end at last. -/
def mixedLines : List Line :=
  [⟨[97], some .both, by simp [endsLine], by decide⟩, ⟨[], some .lineFeed, nofun, by decide⟩,
    ⟨[], some .carriageReturn, nofun, by decide⟩, ⟨[], some .carriageReturn, nofun, by decide⟩,
    ⟨[98], none, by simp [endsLine], by decide⟩]

theorem splitLines_reads_mixed :
    Lines [97, 13, 10, 10, 13, 13, 98] mixedLines ∧
      splitLines [97, 13, 10, 10, 13, 13, 98] true = [[97, 13, 10], [10], [13], [13], [98]] ∧
      splitLines [97, 13, 10, 10, 13, 13, 98] false = [[97], [], [], [], [98]] := by
  have reading : Lines [97, 13, 10, 10, 13, 13, 98] mixedLines :=
    .cons ⟨[97], some .both, by simp [endsLine], by decide⟩ [10, 13, 13, 98] ⟨nofun, nofun⟩ <|
    .cons ⟨[], some .lineFeed, nofun, by decide⟩ [13, 13, 98] ⟨nofun, nofun⟩ <|
    .cons ⟨[], some .carriageReturn, nofun, by decide⟩ [13, 98] ⟨nofun, by decide⟩ <|
    .cons ⟨[], some .carriageReturn, nofun, by decide⟩ [98] ⟨nofun, by decide⟩ <|
    .cons ⟨[98], none, by simp [endsLine], by decide⟩ [] ⟨nofun, nofun⟩ .nil
  obtain ⟨lines, -, unique, kept, content, -⟩ := splitLines_reads [97, 13, 10, 10, 13, 13, 98]
  rw [← unique mixedLines reading] at kept content
  exact ⟨reading, kept, content⟩

end DynamicObjects.Bytes

import DynamicObjects.Bytes.LetterCase
import Mathlib.Data.List.Forall2

/-!
Letter case by rules. A rule tells from the byte before whether a letter is a capital. Of all data that differ
from given ones in the case of letters only, exactly one obeys a rule: a conversion makes it, and a test accepts
data that obey the rule and contain a letter. What a conversion leaves alone, and what a test says of what a
conversion has made, is read off the rule.
-/
namespace DynamicObjects.Bytes

section Bytes

variable {a b : UInt8}

@[simp] theorem toLower_toLower (b : UInt8) : toLower (toLower b) = toLower b := by
  grind [toLower, isUpperLetter]

theorem isLetter_congr (same : toLower a = toLower b) : isLetter a = isLetter b := by
  grind [toLower, isLetter, isUpperLetter, isLowerLetter]

theorem isLowerLetter_eq (b : UInt8) : isLowerLetter b = (isLetter b && isUpperLetter b == false) := by
  grind [isLetter, isUpperLetter, isLowerLetter]

theorem isUpperLetter_eq (b : UInt8) : isUpperLetter b = (isLetter b && isUpperLetter b == true) := by
  grind [isLetter]

/-- The letter is the same and its case is given: there is only one such byte. -/
theorem eq_cased_iff (capital : Bool) :
    a = (if capital then toUpper b else toLower b) ↔
      toLower a = toLower b ∧ (isLetter a = true → isUpperLetter a = capital) := by
  cases capital <;> grind [toLower, toUpper, isLetter, isUpperLetter, isLowerLetter]

def Opposite (a b : UInt8) : Prop :=
  toLower b = toLower a ∧ (isLetter a = true → isUpperLetter b = !isUpperLetter a)

theorem eq_swapped_iff : b = (if isUpperLetter a then toLower a else toUpper a) ↔ Opposite a b := by
  grind [Opposite, toLower, toUpper, isLetter, isUpperLetter, isLowerLetter]

theorem Opposite.symm (opposite : Opposite a b) : Opposite b a := by
  grind [Opposite, isLetter_congr]

end Bytes

def HasLetter (data : Bytes) : Prop := ∃ b ∈ data, isLetter b = true

theorem hasLetter_cons {b : UInt8} {rest : Bytes} : HasLetter (b :: rest) ↔ isLetter b = true ∨ HasLetter rest :=
  List.exists_mem_cons_iff ..

theorem hasLetter_lower (data : Bytes) : HasLetter (lower data) ↔ HasLetter data := by
  simp [HasLetter, lower, isLetter_congr (toLower_toLower _)]

theorem hasLetter_congr {s t : Bytes} (same : lower s = lower t) : HasLetter s ↔ HasLetter t := by
  rw [← hasLetter_lower s, same, hasLetter_lower]

/-- Which letters are capitals, by the byte before, whose own case does not count. -/
structure CaseRule where
  capital : Option UInt8 → Bool
  caseless : ∀ a b, toLower a = toLower b → capital (some a) = capital (some b)

namespace CaseRule

def lowerCase : CaseRule := ⟨fun _ => false, fun _ _ _ => rfl⟩

def upperCase : CaseRule := ⟨fun _ => true, fun _ _ _ => rfl⟩

def titleCase : CaseRule where
  capital before := !before.any isLetter
  caseless _ _ same := congrArg not (isLetter_congr same)

def sentenceCase : CaseRule := ⟨Option.isNone, fun _ _ _ => rfl⟩

variable (rule : CaseRule)

/-- Obedience of data that stand behind a byte, or behind nothing. -/
def ObeysAfter (before : Option UInt8) (data : Bytes) : Prop :=
  ∀ front b back, data = front ++ b :: back → isLetter b = true →
    isUpperLetter b = rule.capital (front.getLast?.or before)

def Obeys (data : Bytes) : Prop := rule.ObeysAfter none data

def writeAfter (before : Option UInt8) : Bytes → Bytes
  | [] => []
  | b :: rest => (if rule.capital before then toUpper b else toLower b) :: writeAfter (some b) rest

variable {rule} {before before' : Option UInt8} {data t : Bytes} {b : UInt8}

theorem obeysAfter_nil : rule.ObeysAfter before [] := by
  intro front b back cut
  cases front <;> cases cut

/-- The byte before what follows is the last one so far. -/
theorem getLast?_cons_or (front : Bytes) (b : UInt8) (before : Option UInt8) :
    (b :: front).getLast?.or before = front.getLast?.or (some b) := by
  rw [List.getLast?_cons]
  cases front.getLast? <;> rfl

theorem obeysAfter_cons : rule.ObeysAfter before (b :: data) ↔
    (isLetter b = true → isUpperLetter b = rule.capital before) ∧ rule.ObeysAfter (some b) data := by
  constructor
  · intro obeys
    refine ⟨obeys [] b data rfl, fun front c back cut letter => ?_⟩
    rw [obeys (b :: front) c back (congrArg (b :: ·) cut) letter, getLast?_cons_or]
  · rintro ⟨first, rest⟩ front c back cut letter
    cases front with
    | nil =>
      obtain ⟨rfl, rfl⟩ := List.cons.inj cut
      exact first letter
    | cons _ front =>
      obtain ⟨rfl, rfl⟩ := List.cons.inj cut
      rw [rest front c back rfl letter, getLast?_cons_or]

/-- The byte before stands in the data as it was written before or after; the rule does not see which. -/
theorem eq_writeAfter_iff (alike : rule.capital before = rule.capital before') :
    t = rule.writeAfter before data ↔ lower t = lower data ∧ rule.ObeysAfter before' t := by
  induction data generalizing before before' t with
  | nil =>
    simp only [writeAfter, lower, List.map_nil, List.map_eq_nil_iff]
    exact ⟨fun empty => ⟨empty, empty ▸ obeysAfter_nil⟩, fun same => same.1⟩
  | cons b data ih =>
    cases t with
    | nil => simp [writeAfter, lower]
    | cons c t =>
      simp only [writeAfter, lower, List.map_cons, List.cons.injEq, eq_cased_iff, alike, obeysAfter_cons]
      constructor
      · rintro ⟨⟨letter, capital⟩, rest⟩
        obtain ⟨letters, obeys⟩ := (ih (rule.caseless b c letter.symm)).mp rest
        exact ⟨⟨letter, letters⟩, capital, obeys⟩
      · rintro ⟨⟨letter, letters⟩, capital, obeys⟩
        exact ⟨⟨letter, capital⟩, (ih (rule.caseless b c letter.symm)).mpr ⟨letters, obeys⟩⟩

theorem obeysAfter_of_constant {capital : Bool} (constant : ∀ before, rule.capital before = capital) :
    rule.ObeysAfter before data ↔ ∀ b ∈ data, isLetter b = true → isUpperLetter b = capital := by
  induction data generalizing before with
  | nil => simp [obeysAfter_nil]
  | cons b data ih => rw [obeysAfter_cons, ih, constant, List.forall_mem_cons]

/-- The conversion makes the data that differ in case only and obey the rule. -/
def Writes (rule : CaseRule) (convert : Bytes → Bytes) : Prop :=
  ∀ data t, t = convert data ↔ lower t = lower data ∧ rule.Obeys t

theorem writes_of_eq {convert : Bytes → Bytes} (same : ∀ data, convert data = rule.writeAfter none data) :
    rule.Writes convert := by
  intro data t
  rw [same]
  exact eq_writeAfter_iff rfl

section Writes

variable {convert : Bytes → Bytes} (writes : rule.Writes convert) (data : Bytes)

include writes

theorem Writes.obeys : lower (convert data) = lower data ∧ rule.Obeys (convert data) :=
  (writes data (convert data)).mp rfl

theorem Writes.eq_self_iff : convert data = data ↔ rule.Obeys data := by
  rw [eq_comm, writes data data]
  exact and_iff_right rfl

theorem Writes.idempotent : convert (convert data) = convert data :=
  (writes.eq_self_iff _).mpr (writes.obeys data).2

end Writes

theorem writeAfter_lowerCase : lowerCase.writeAfter before data = lower data := by
  induction data generalizing before with
  | nil => rfl
  | cons b data ih => exact congrArg (toLower b :: ·) ih

theorem writeAfter_upperCase : upperCase.writeAfter before data = upper data := by
  induction data generalizing before with
  | nil => rfl
  | cons b data ih => exact congrArg (toUpper b :: ·) ih

theorem writeAfter_titleCase : titleCase.writeAfter before data = titleFrom (before.any isLetter) data := by
  induction data generalizing before with
  | nil => rfl
  | cons b data ih =>
    rw [writeAfter, titleFrom, ih]
    cases letter : before.any isLetter <;> simp [titleCase, letter]

theorem writeAfter_sentenceCase_some : sentenceCase.writeAfter (some b) data = lower data := by
  induction data generalizing b with
  | nil => rfl
  | cons c data ih => exact congrArg (toLower c :: ·) ih

theorem writes_lower : lowerCase.Writes lower := writes_of_eq fun _ => writeAfter_lowerCase.symm

theorem writes_upper : upperCase.Writes upper := writes_of_eq fun _ => writeAfter_upperCase.symm

theorem writes_title : titleCase.Writes title :=
  writes_of_eq fun data => (@writeAfter_titleCase none data).symm

theorem writes_capitalize : sentenceCase.Writes capitalize := by
  refine writes_of_eq fun data => ?_
  cases data with
  | nil => rfl
  | cons b data => exact congrArg (toUpper b :: ·) writeAfter_sentenceCase_some.symm

def Accepts (rule : CaseRule) (test : Bytes → Bool) : Prop :=
  ∀ data, test data = true ↔ HasLetter data ∧ rule.Obeys data

theorem Accepts.iff_eq_self {convert : Bytes → Bytes} {test : Bytes → Bool} (accepts : rule.Accepts test)
    (writes : rule.Writes convert) (data : Bytes) : test data = true ↔ HasLetter data ∧ convert data = data := by
  rw [accepts data, writes.eq_self_iff]

theorem Accepts.iff_hasLetter {convert : Bytes → Bytes} {test : Bytes → Bool} (accepts : rule.Accepts test)
    (writes : rule.Writes convert) (data : Bytes) : test (convert data) = true ↔ HasLetter data := by
  obtain ⟨same, obeys⟩ := writes.obeys data
  rw [accepts, hasLetter_congr same]
  exact and_iff_left obeys

theorem accepts_of_constant {capital : Bool} {own other : UInt8 → Bool}
    (constant : ∀ before, rule.capital before = capital)
    (own_eq : ∀ b, own b = (isLetter b && isUpperLetter b == capital))
    (other_eq : ∀ b, other b = (isLetter b && isUpperLetter b == !capital)) :
    rule.Accepts fun data => data.any own && !data.any other := by
  intro data
  simp only [Obeys, obeysAfter_of_constant constant, HasLetter, Bool.and_eq_true, List.any_eq_true,
    Bool.not_eq_true', List.any_eq_false, own_eq, other_eq, beq_iff_eq]
  constructor
  · rintro ⟨⟨b, mem, letter, -⟩, none⟩
    refine ⟨⟨b, mem, letter⟩, fun c mem letter => ?_⟩
    by_contra differs
    exact none c mem ⟨letter, Bool.eq_not.mpr differs⟩
  · rintro ⟨⟨b, mem, letter⟩, all⟩
    exact ⟨⟨b, mem, letter, all b mem letter⟩, fun c mem other =>
      Bool.eq_not.mp other.2 (all c mem other.1)⟩

theorem accepts_isLower : lowerCase.Accepts isLower :=
  accepts_of_constant (fun _ => rfl) isLowerLetter_eq isUpperLetter_eq

theorem accepts_isUpper : upperCase.Accepts isUpper :=
  accepts_of_constant (fun _ => rfl) isUpperLetter_eq isLowerLetter_eq

theorem isTitleFrom_iff (found : Bool) : isTitleFrom (before.any isLetter) found data = true ↔
    (found = true ∨ HasLetter data) ∧ titleCase.ObeysAfter before data := by
  induction data generalizing before found with
  | nil => simp [isTitleFrom, HasLetter, obeysAfter_nil]
  | cons b data ih =>
    have next := @ih (some b) (isLetter b || found)
    rw [Option.any_some] at next
    have capital : titleCase.capital before = !before.any isLetter := rfl
    have step : isTitleFrom (before.any isLetter) found (b :: data) = true ↔
        (isLetter b = true → isUpperLetter b = !before.any isLetter) ∧
          isTitleFrom (isLetter b) (isLetter b || found) data = true := by
      grind [isTitleFrom, isLetter, isUpperLetter, isLowerLetter]
    rw [step, next, obeysAfter_cons, hasLetter_cons, capital]
    grind

theorem accepts_isTitle : titleCase.Accepts isTitle := by
  intro data
  have whole := @isTitleFrom_iff none data false
  rwa [Option.any_none, Bool.false_eq_true, false_or] at whole

end CaseRule

theorem eq_swapCase_iff {data t : Bytes} : t = swapCase data ↔ List.Forall₂ Opposite data t := by
  induction data generalizing t with
  | nil => rw [swapCase, List.map_nil, List.forall₂_nil_left_iff]
  | cons b data ih =>
    cases t with
    | nil => simp [swapCase]
    | cons c t =>
      rw [swapCase, List.map_cons, List.cons.injEq, List.forall₂_cons, eq_swapped_iff, ← ih, swapCase]

theorem swapCase_swapCase (data : Bytes) : swapCase (swapCase data) = data := by
  have there : List.Forall₂ Opposite data (swapCase data) := eq_swapCase_iff.mp rfl
  have back : List.Forall₂ Opposite (swapCase data) data := there.flip.imp fun _ _ => Opposite.symm
  exact (eq_swapCase_iff.mpr back).symm

/-- Each conversion makes the one form of the data that its rule allows, each test recognises what its conversion
leaves alone, and all of them but one do nothing when done again; that one undoes itself. -/
theorem letter_cases (data : Bytes) :
    (isTitle data = true ↔ HasLetter data ∧ title data = data) ∧
      (isLower data = true ↔ HasLetter data ∧ lower data = data) ∧
      (isUpper data = true ↔ HasLetter data ∧ upper data = data) ∧
      title (title data) = title data ∧ lower (lower data) = lower data ∧ upper (upper data) = upper data ∧
      capitalize (capitalize data) = capitalize data ∧ swapCase (swapCase data) = data ∧
      (isTitle (title data) = true ↔ HasLetter data) ∧
      (∀ t, t = title data ↔ lower t = lower data ∧ CaseRule.titleCase.Obeys t) ∧
      (∀ t, t = lower data ↔ lower t = lower data ∧ CaseRule.lowerCase.Obeys t) ∧
      (∀ t, t = upper data ↔ lower t = lower data ∧ CaseRule.upperCase.Obeys t) ∧
      (∀ t, t = capitalize data ↔ lower t = lower data ∧ CaseRule.sentenceCase.Obeys t) ∧
      (∀ t, t = swapCase data ↔ List.Forall₂ Opposite data t) := by
  have titles := CaseRule.accepts_isTitle.iff_eq_self CaseRule.writes_title data
  have lowers := CaseRule.accepts_isLower.iff_eq_self CaseRule.writes_lower data
  have uppers := CaseRule.accepts_isUpper.iff_eq_self CaseRule.writes_upper data
  refine ⟨titles, lowers, uppers, CaseRule.writes_title.idempotent data, CaseRule.writes_lower.idempotent data,
    CaseRule.writes_upper.idempotent data, CaseRule.writes_capitalize.idempotent data, swapCase_swapCase data,
    CaseRule.accepts_isTitle.iff_hasLetter CaseRule.writes_title data, ?_⟩
  exact ⟨CaseRule.writes_title data, CaseRule.writes_lower data, CaseRule.writes_upper data,
    CaseRule.writes_capitalize data, fun _ => eq_swapCase_iff⟩

end DynamicObjects.Bytes

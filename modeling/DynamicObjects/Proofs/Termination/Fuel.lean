import DynamicObjects.Proofs.Termination.Comparing
import Mathlib.Order.Filter.AtTopBot.Basic
import Mathlib.Order.Filter.Finite

/-!
How much fuel comparisons need. There is always enough of it: by induction on the levels that are
left, and where no level is used, on the size of the sets.
-/
namespace DynamicObjects

open Script (hooks)
open Run Filter

variable {s : Store} {P : Value → Prop} {levels n : Nat} {a b v : Value}

theorem eventually_forall_mem {α : Type} {p : α → Nat → Prop} {xs : List α}
    (h : ∀ x ∈ xs, ∀ᶠ n in atTop, p x n) : ∀ᶠ n in atTop, ∀ x ∈ xs, p x n :=
  (eventually_all_finite xs.finite_toSet).mpr h

theorem eventually_called {p : Nat → Prop} (h : ∀ᶠ n in atTop, p n) :
    ∀ᶠ n in atTop, ∃ m, n = m + 2 ∧ p (m + 1) := by
  obtain ⟨least, holds⟩ := eventually_atTop.mp h
  refine eventually_atTop.mpr ⟨least + 2, fun n enough => ⟨n - 2, by omega, holds _ (by omega)⟩⟩

theorem Retags.isSetLike_eq {x : Value} (h : Retags v x) : Store.isSetLike x = Store.isSetLike v := by
  rcases h with rfl | ⟨id, id', items, rfl, rfl⟩ <;> rfl

theorem Retags.eq_of_isSetLike {x : Value} (h : Retags v x) (like : Store.isSetLike v = true) :
    x = v := by
  rcases h with rfl | ⟨id, id', items, rfl, rfl⟩
  · rfl
  · cases like

theorem eq_frozenSet_of_code (like : Store.isSetLike v = true) (coded : (s.code? v).isSome = true) :
    ∃ id t, v = .frozenSet id t := by
  cases v
  case frozenSet id t => exact ⟨id, t, rfl⟩
  case dictKeys | dictItems => simp [Store.code?] at coded
  all_goals cases like

theorem BuiltinData.element_cases (data : BuiltinData s P) (mem : P v) {x : Value}
    (element : x ∈ s.elements v) :
    (P x ∧ (s.code? x).isSome = true) ∨ ∃ p : Value × Value, x = itemTuple p ∧ P p.1 ∧ P p.2 := by
  cases v
  case frozenSet id t =>
    exact .inl ⟨data.contained _ mem x element, data.hashable _ mem x element⟩
  case dictKeys r =>
    exact .inl ⟨data.contained _ mem x element, data.hashable _ mem x element⟩
  case dictItems r =>
    obtain ⟨p, listed, rfl⟩ := List.mem_map.mp element
    obtain ⟨key, value⟩ := mem_of_pair listed
    exact .inr ⟨p, rfl, data.contained _ mem _ (List.mem_append_left _ key),
      data.contained _ mem _ (List.mem_append_right _ value)⟩
  all_goals cases element

theorem BuiltinData.element_made (data : BuiltinData s P) (mem : P v) {x : Value}
    (element : x ∈ s.elements v) : Made s P x := by
  obtain ⟨inside, -⟩ | ⟨p, rfl, key, value⟩ := data.element_cases mem element
  · exact data.made inside
  · exact .itemTuple key value

theorem BuiltinData.element_hash_halts (data : BuiltinData s P) (mem : P v) {x : Value}
    (element : s.Element v x) : Halts s levels (fun _ => True) (Protocol.hash (hooks (n + 1)) x) := by
  obtain ⟨y, listed, retags⟩ := element
  exact data.hash_halts levels n x (retags.made (data.element_made mem listed))

section Levels

variable (data : BuiltinData s P)
  (lower : ∀ below, levels = below + 1 → ∀ a b, P a → P b → ∀ᶠ n in atTop, Compares s below n a b)

include lower in
theorem deep_eventually {xs : List Value} (inside : ∀ x ∈ xs, P x) :
    ∀ᶠ n in atTop, Deep s levels n xs := by
  cases levels with
  | zero => exact .of_forall fun _ => nofun
  | succ below =>
    have pairs : ∀ᶠ n in atTop, ∀ x ∈ xs, ∀ y ∈ xs, Compares s below n x y :=
      eventually_forall_mem fun x mem => eventually_forall_mem fun y mem' =>
        lower below rfl x y (inside x mem) (inside y mem')
    refine pairs.mono fun n holds => ?_
    rintro _ ⟨⟩
    exact holds

include data lower

theorem compares_eventually (ha : Made s P a) (hb : Made s P b)
    (sets : Store.isSetLike a = true → Store.isSetLike b = true →
      ∀ᶠ n in atTop, SetsCompare s levels n a b) : ∀ᶠ n in atTop, Compares s levels n a b := by
  have deep : ∀ᶠ n in atTop, Deep s levels n (s.parts a ++ s.parts b) := by
    refine deep_eventually lower fun x mem => ?_
    exact (List.mem_append.mp mem).elim (ha.inside x) (hb.inside x)
  have sets : ∀ᶠ n in atTop, Store.isSetLike a = true → Store.isSetLike b = true →
      SetsCompare s levels n a b :=
    eventually_imp_distrib_left.mpr fun like => eventually_imp_distrib_left.mpr fun like' =>
      sets like like'
  refine (eventually_called (deep.and sets)).mono ?_
  rintro _ ⟨m, rfl, deep, sets⟩
  exact ha.compares data hb deep sets

theorem retagged_eventually (ha : Made s P a) (hb : Made s P b)
    (sets : Store.isSetLike a = true → Store.isSetLike b = true →
      ∀ᶠ n in atTop, Compares s levels n a b) :
    ∀ᶠ n in atTop, ∀ x y, Retags a x → Retags b y → Compares s levels n x y := by
  by_cases both : Store.isSetLike a = true ∧ Store.isSetLike b = true
  · refine (sets both.1 both.2).mono fun n compares x y retagged retagged' => ?_
    rwa [retagged.eq_of_isSetLike both.1, retagged'.eq_of_isSetLike both.2]
  · have deep : ∀ᶠ n in atTop, Deep s levels n (s.parts a ++ s.parts b) := by
      refine deep_eventually lower fun x mem => ?_
      exact (List.mem_append.mp mem).elim (ha.inside x) (hb.inside x)
    refine (eventually_called deep).mono ?_
    rintro _ ⟨m, rfl, deep⟩ x y retagged retagged'
    refine (retagged.made ha).compares data (retagged'.made hb) ?_ fun like like' => ?_
    · rwa [retagged.parts_eq, retagged'.parts_eq]
    · exact absurd ⟨retagged.isSetLike_eq ▸ like, retagged'.isSetLike_eq ▸ like'⟩ both

theorem elements_eventually (ha : ∀ x ∈ s.elements a, Made s P x) (hb : ∀ y ∈ s.elements b, Made s P y)
    (sets : ∀ x ∈ s.elements a, ∀ y ∈ s.elements b, Store.isSetLike x = true →
      Store.isSetLike y = true → ∀ᶠ n in atTop, Compares s levels n x y) :
    ∀ᶠ n in atTop, ∀ x y, s.Element a x → s.Element b y → Compares s levels n x y := by
  have pairs : ∀ᶠ n in atTop, ∀ x ∈ s.elements a, ∀ y ∈ s.elements b, ∀ x' y', Retags x x' →
      Retags y y' → Compares s levels n x' y' :=
    eventually_forall_mem fun x mem => eventually_forall_mem fun y mem' =>
      retagged_eventually data lower (ha x mem) (hb y mem') (sets x mem y mem')
  refine pairs.mono fun n holds x' y' element element' => ?_
  obtain ⟨x, mem, retagged⟩ := element
  obtain ⟨y, mem', retagged'⟩ := element'
  exact holds x mem y mem' x' y' retagged retagged'

/-- Values with hash codes: of those that act as sets there are only sets, which hold their elements
directly, so that the induction is on the size of the two values. -/
theorem hashable_eventually (bound : Nat) (a b : Value) (size : sizeOf a + sizeOf b < bound) (ha : P a)
    (hb : P b) (coded : (s.code? a).isSome = true) (coded' : (s.code? b).isSome = true) :
    ∀ᶠ n in atTop, Compares s levels n a b := by
  induction bound generalizing a b with
  | zero => omega
  | succ bound ih =>
    refine compares_eventually data lower (data.made ha) (data.made hb) fun like like' => ?_
    obtain ⟨id, t, rfl⟩ := eq_frozenSet_of_code like coded
    obtain ⟨id', t', rfl⟩ := eq_frozenSet_of_code like' coded'
    have inside : ∀ x ∈ t.keys, P x := data.contained _ ha
    have inside' : ∀ y ∈ t'.keys, P y := data.contained _ hb
    have smaller : ∀ x ∈ t.keys, ∀ y ∈ t'.keys, sizeOf x + sizeOf y < bound := by
      intro x mem y mem'
      have := sizeOf_key_lt mem id
      have := sizeOf_key_lt mem' id'
      omega
    have across := elements_eventually data lower (a := .frozenSet id t) (b := .frozenSet id' t')
      (fun x mem => data.made (inside x mem)) (fun y mem => data.made (inside' y mem))
      fun x mem y mem' _ _ => ih x y (smaller x mem y mem') (inside x mem) (inside' y mem')
        (data.hashable _ ha x mem) (data.hashable _ hb y mem')
    have back := elements_eventually data lower (a := .frozenSet id' t') (b := .frozenSet id t)
      (fun y mem => data.made (inside' y mem)) (fun x mem => data.made (inside x mem))
      fun y mem x mem' _ _ => ih y x (by have := smaller x mem' y mem; omega) (inside' y mem)
        (inside x mem') (data.hashable _ hb y mem) (data.hashable _ ha x mem')
    refine (across.and back).mono fun n holds => ⟨fun no => absurd rfl no, fun no => absurd rfl no, ?_⟩
    exact fun x y element element' => ⟨holds.1 x y element element', holds.2 y x element' element⟩

theorem among_eventually (ha : P a) (hb : P b) :
    ∀ᶠ n in atTop, ∀ x y, s.Element a x → s.Element b y → Compares s levels n x y := by
  refine elements_eventually data lower (fun x => data.element_made ha)
    (fun y => data.element_made hb) fun x mem y mem' like like' => ?_
  obtain ⟨inside, coded⟩ | ⟨p, rfl, -⟩ := data.element_cases ha mem
  · obtain ⟨inside', coded'⟩ | ⟨p, rfl, -⟩ := data.element_cases hb mem'
    · exact hashable_eventually data lower _ x y (Nat.lt_succ_self _) inside inside' coded coded'
    · cases like'
  · cases like

theorem sets_eventually (ha : P a) (hb : P b) : ∀ᶠ n in atTop, SetsCompare s levels n a b := by
  have gathers : ∀ {v}, P v → ∀ᶠ n in atTop, Gathers s levels n v := by
    intro v mem
    filter_upwards [among_eventually data lower mem mem, eventually_ge_atTop 1] with n pairs enough
    refine ⟨fun x element => ?_, pairs⟩
    obtain ⟨m, rfl⟩ : ∃ m, n = m + 1 := ⟨n - 1, by omega⟩
    exact data.element_hash_halts mem element
  filter_upwards [gathers ha, gathers hb, among_eventually data lower ha hb,
    among_eventually data lower hb ha] with n left right across back
  exact ⟨fun _ => left, fun _ => right, fun x y element element' =>
    ⟨across x y element element', back y x element' element⟩⟩

end Levels

/-- With enough fuel any two values of built-in data compare, however many levels are left. -/
theorem BuiltinData.compares_eventually (data : BuiltinData s P) (levels : Nat) (ha : P a) (hb : P b) :
    ∀ᶠ n in atTop, Compares s levels n a b := by
  induction levels generalizing a b with
  | zero =>
    exact DynamicObjects.compares_eventually data nofun (data.made ha) (data.made hb)
      fun _ _ => sets_eventually data nofun ha hb
  | succ levels ih =>
    have lower : ∀ below, levels + 1 = below + 1 → ∀ a b, P a → P b →
        ∀ᶠ n in atTop, Compares s below n a b := by
      rintro below ⟨⟩ a b
      exact ih
    exact DynamicObjects.compares_eventually data lower (data.made ha) (data.made hb)
      fun _ _ => sets_eventually data lower ha hb

end DynamicObjects

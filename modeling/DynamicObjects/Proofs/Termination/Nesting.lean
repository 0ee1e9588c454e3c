import DynamicObjects.Proofs.Termination.Fuel
import DynamicObjects.Proofs.Termination.Printing
import Mathlib.Logic.Relation

/-!
How deep data is nested. Data that does not contain itself meets no container again, so that a value
is printed exactly when no chain of containers in it is longer than there are levels.
-/
namespace DynamicObjects

open Script (hooks)
open Run

variable {s : Store} {P : Value → Prop} {levels n : Nat} {v : Value}

def Store.Nests (s : Store) (chain : List Value) : Prop :=
  chain.IsChain (fun outer inner => inner ∈ s.shown outer) ∧ ∀ v ∈ chain, v.isContainer = true

/-- No chain of containers from the value on is longer than there are levels. -/
def Store.Fits (s : Store) (levels : Nat) (v : Value) : Prop :=
  ∀ inner, s.Nests (v :: inner) → (v :: inner).length ≤ levels

theorem fits_of_leaf (leaf : v.isContainer = false) : s.Fits levels v := by
  intro inner nests
  have container := nests.2 v List.mem_cons_self
  rw [leaf] at container
  cases container

theorem not_fits_zero (container : v.isContainer = true) : ¬ s.Fits 0 v := by
  intro fits
  have alone : s.Nests [v] := ⟨.singleton v, by simpa using container⟩
  exact Nat.not_succ_le_zero _ (fits [] alone)

theorem fits_succ (container : v.isContainer = true) :
    s.Fits (levels + 1) v ↔ ∀ x ∈ s.shown v, s.Fits levels x := by
  constructor
  · intro fits x mem inner nests
    refine Nat.le_of_succ_le_succ (fits (x :: inner) ⟨.cons_cons mem nests.1, ?_⟩)
    exact List.forall_mem_cons.mpr ⟨container, nests.2⟩
  · intro fits inner nests
    cases inner with
    | nil => exact Nat.succ_le_succ (Nat.zero_le _)
    | cons x inner =>
      obtain ⟨mem, chain⟩ := List.isChain_cons_cons.mp nests.1
      exact Nat.succ_le_succ (fits x mem inner ⟨chain, (List.forall_mem_cons.mp nests.2).2⟩)

theorem Retags.fits_iff {x y : Value} (retags : Retags x y) : s.Fits levels y ↔ s.Fits levels x := by
  rcases retags with rfl | ⟨id, id', items, rfl, rfl⟩
  · rfl
  · cases levels with
    | zero => exact iff_of_false (not_fits_zero rfl) (not_fits_zero rfl)
    | succ levels => rw [fits_succ rfl, fits_succ rfl]; rfl

/-- The values that a value holds references to: a view holds its dictionary. -/
def Store.refers (s : Store) : Value → List Value
  | .dictKeys r | .dictValues r | .dictItems r => [.dict r]
  | v => s.contained v

/-- A value is found by following references, none of them too. -/
def Store.Reaches (s : Store) : Value → Value → Prop :=
  Relation.ReflTransGen fun v x => x ∈ s.refers v

def Store.Inside (s : Store) : Value → Value → Prop :=
  Relation.TransGen fun v x => x ∈ s.refers v

def Store.Acyclic (s : Store) (v : Value) : Prop := ∀ x, s.Reaches v x → ¬ s.Inside x x

def Value.owner : Value → Value
  | .dictKeys r | .dictValues r | .dictItems r => .dict r
  | v => v

/-- Among what is reached, only the views of one dictionary go by the same identity. -/
def Store.Identified (s : Store) (v : Value) : Prop :=
  ∀ a b, s.Reaches v a → s.Reaches v b → ∀ id again again',
    s.mark a = some (id, again) → s.mark b = some (id, again') → a.owner = b.owner

theorem reaches_owner (v : Value) : s.Reaches v v.owner := by
  cases v
  case dictKeys | dictValues | dictItems => exact .single List.mem_cons_self
  all_goals exact .refl

theorem shown_cases {x y : Value} (mem : x ∈ s.shown v) (retags : Retags x y) :
    s.Inside v.owner y ∨ ∃ id items, y = .tuple id items ∧ ∀ i ∈ items, s.Inside v.owner i := by
  have held : s.Inside v.owner x ∨ ∃ p : Value × Value, x = itemTuple p ∧ s.Inside v.owner p.1 ∧
      s.Inside v.owner p.2 := by
    have entry {r : DictRef} {p : Value × Value} (listed : p ∈ (s.dict r).table.pairs) :
        s.Inside (.dict r) p.1 ∧ s.Inside (.dict r) p.2 :=
      ⟨.single (List.mem_append_left _ (mem_of_pair listed).1),
        .single (List.mem_append_right _ (mem_of_pair listed).2)⟩
    cases v
    case tuple | list | frozenSet => exact .inl (.single mem)
    case dict r =>
      obtain ⟨p, listed, among⟩ := List.mem_flatMap.mp mem
      simp only [List.mem_cons, List.not_mem_nil, or_false] at among
      rcases among with rfl | rfl
      · exact .inl (entry listed).1
      · exact .inl (entry listed).2
    case dictKeys r => exact .inl (.single (List.mem_append_left _ mem))
    case dictValues r => exact .inl (.single (List.mem_append_right _ mem))
    case dictItems r =>
      obtain ⟨p, listed, rfl⟩ := List.mem_map.mp mem
      exact .inr ⟨p, rfl, entry listed⟩
    all_goals cases mem
  obtain inside | ⟨p, rfl, key, value⟩ := held
  · rcases retags with rfl | ⟨id, id', items, rfl, rfl⟩
    · exact .inl inside
    · exact .inr ⟨id', items, rfl, fun i among => inside.tail among⟩
  · rcases retags with rfl | ⟨id, id', items, same, rfl⟩
    · exact .inr ⟨0, _, rfl, by simp [key, value]⟩
    · obtain ⟨-, rfl⟩ := Value.tuple.inj same
      exact .inr ⟨id', _, rfl, by simp [key, value]⟩

/-- No container in the value is met again while it is being printed, given those that already are. -/
structure Tidy (s : Store) (path : List Identity) (v : Value) : Prop where
  acyclic : s.Acyclic v
  identified : s.Identified v
  clear : ∀ x, s.Reaches v x → ∀ id again, s.mark x = some (id, again) → id ∉ path

def Store.opened (s : Store) (v : Value) (path : List Identity) : List Identity :=
  match s.mark v with
  | some (id, _) => id :: path
  | none => path

theorem Tidy.shown {path : List Identity} (tidy : Tidy s path v) {x y : Value}
    (mem : x ∈ s.shown v) (retags : Retags x y) : Tidy s (s.opened v path) y := by
  have below {z : Value} (inside : s.Inside v.owner z) : s.Reaches v z :=
    (reaches_owner v).trans inside.to_reflTransGen
  -- a new tuple itself has no mark, so what matters of what is reached is inside the owner
  have reached {z : Value} (reaches : s.Reaches y z) :
      s.Inside v.owner z ∨ (z = y ∧ ∃ id items, y = .tuple id items ∧ ∀ i ∈ items, s.Inside v.owner i) := by
    obtain inside | ⟨id, items, same, inside⟩ := shown_cases mem retags
    · exact .inl (inside.trans_left reaches)
    · obtain rfl | ⟨i, among, onwards⟩ := reaches.cases_head
      · exact .inr ⟨rfl, id, items, same, inside⟩
      · rw [same] at among
        exact .inl ((inside i among).trans_left onwards)
  have marked {z : Value} {id : Identity} {again : String} (reaches : s.Reaches y z)
      (mark : s.mark z = some (id, again)) : s.Inside v.owner z := by
    obtain inside | ⟨rfl, id, items, rfl, -⟩ := reached reaches
    · exact inside
    · cases mark
  refine ⟨fun z reaches cycle => ?_, fun a b ha hb id again again' mark mark' => ?_,
    fun z reaches id again mark => ?_⟩
  · obtain inside | ⟨rfl, id, items, rfl, inside⟩ := reached reaches
    · exact tidy.acyclic z (below inside) cycle
    · obtain ⟨i, among, onwards⟩ := Relation.TransGen.head'_iff.mp cycle
      exact tidy.acyclic i (below (inside i among)) (.tail' onwards among)
  · exact tidy.identified a b (below (marked ha mark)) (below (marked hb mark')) id again again'
      mark mark'
  · have inside := marked reaches mark
    have old := tidy.clear z (below inside) id again mark
    unfold Store.opened
    split
    next own again' mark' =>
      refine List.not_mem_cons_of_ne_of_not_mem ?_ old
      rintro rfl
      have same := tidy.identified z v (below inside) .refl id again again' mark mark'
      exact tidy.acyclic v.owner (reaches_owner v) (inside.trans_left (same ▸ reaches_owner z))
    · exact old

theorem Stands.moved {limit : Option Nat} {path path' : List Identity} {used used' depth : Nat}
    {w : World} (stands : Stands s limit path used depth w) {dataDepth : Nat}
    {printing : List Identity} (same : printing = path') (same' : dataDepth = used') :
    Stands s limit path' used' depth { w with dataDepth, printing } :=
  ⟨⟨stands.calm.store, stands.calm.bound, stands.calm.honest⟩, stands.limit, same, same', stands.depth⟩

theorem stands_opened {limit : Option Nat} {path : List Identity} {used depth : Nat} {E : Error → Prop}
    {Q : String → Prop} {body : Run String}
    (clear : ∀ id again, s.mark v = some (id, again) → id ∉ path)
    (room : used < dataDepthLimit)
    (inner : Finishes (Stands s limit (s.opened v path) (used + 1) depth) Q E body) :
    Finishes (Stands s limit path used depth) Q E (s.enclosed v body) := by
  have full (w : World) (stands : Stands s limit path used depth w)
      (none : dataDepthLimit ≤ w.dataDepth) : E .recursionLimit := by
    have := stands.used
    omega
  unfold Store.enclosed
  unfold Store.opened at inner
  cases mark : s.mark v with
  | none =>
    rw [mark] at inner
    exact finishes_nested full inner
      (fun w stands _ => stands.moved stands.printing (congrArg (· + 1) stands.used))
      fun w stands => stands.moved stands.printing (congrArg (· - 1) stands.used)
  | some marked =>
    obtain ⟨id, again⟩ := marked
    rw [mark] at inner
    refine finishes_printing full inner (fun w stands met => ?_)
      (fun w stands _ _ => stands.moved (congrArg (id :: ·) stands.printing)
        (congrArg (· + 1) stands.used)) fun w stands => ?_
    · exact absurd (stands.printing ▸ met) (clear id again mark)
    · refine stands.moved ?_ (congrArg (· - 1) stands.used)
      exact (congrArg (·.erase id) stands.printing).trans (List.erase_cons_head ..)

theorem stands_refused {limit : Option Nat} {path : List Identity} {used depth : Nat}
    {E : Error → Prop} {Q : String → Prop} {body : Run String}
    (clear : ∀ id again, s.mark v = some (id, again) → id ∉ path)
    (full : dataDepthLimit ≤ used) (refused : E .recursionLimit) :
    Finishes (Stands s limit path used depth) Q E (s.enclosed v body) := by
  have stuck (w : World) (stands : Stands s limit path used depth w)
      (left : w.dataDepth < dataDepthLimit) : False := by
    have := stands.used
    omega
  unfold Store.enclosed
  cases mark : s.mark v with
  | none =>
    exact finishes_nested (J := fun _ => False) (fun _ _ _ => refused) (fun _ => False.elim) stuck
      fun _ => False.elim
  | some marked =>
    obtain ⟨id, again⟩ := marked
    refine finishes_printing (J := fun _ => False) (fun _ _ _ => refused) (fun _ => False.elim)
      (fun w stands met => ?_) (fun w stands _ => stuck w stands) fun _ => False.elim
    exact absurd (stands.printing ▸ met) (clear id again mark)

/-- Data that does not contain itself is printed if the levels are enough for it, and fails if they
are not. -/
theorem BuiltinData.repr_fits (data : BuiltinData s P) {path : List Identity} {used depth : Nat}
    (made : Made s P v) (tidy : Tidy s path v) (room : used + levels = dataDepthLimit)
    (shallow : depth + levels < defaultRecursionLimit) (enough : levels < n) :
    Finishes (Stands s (some defaultRecursionLimit) path used depth) (fun _ => s.Fits levels v)
      (fun e => e = .recursionLimit ∧ ¬ s.Fits levels v) (Protocol.repr (hooks n) v) := by
  induction n generalizing v levels path used depth with
  | zero => omega
  | succ n ih =>
    have steady := steady_stands s (some defaultRecursionLimit) path used
    have clear := tidy.clear v .refl
    have refusal {goal : Prop} (w : World) (most : Nat)
        (stands : Stands s (some defaultRecursionLimit) path used depth w)
        (found : w.limit = some most) (reached : most ≤ w.depth) : goal := by
      obtain rfl := Option.some.inj (stands.limit.symm.trans found)
      have := stands.depth
      omega
    cases container : v.isContainer with
    | false =>
      exact (steady.leaf_finishes depth refusal made.builtin container).imp
        fun _ _ => fits_of_leaf container
    | true =>
      cases levels with
      | zero =>
        refine steady.container_finishes (J := fun _ _ => False) (F := fun _ => True)
          (G := fun _ _ => True) depth refusal (fun stands => stands.calm) container
          (fun _ _ _ _ _ _ _ => False.elim) fun deeper body _ => ?_
        exact stands_refused clear (Nat.le_of_eq room.symm) ⟨rfl, not_fits_zero container⟩
      | succ levels =>
        refine steady.container_finishes
          (J := Stands s (some defaultRecursionLimit) (s.opened v path) (used + 1))
          (F := s.Fits levels) (G := fun x e => e = .recursionLimit ∧ ¬ s.Fits levels x) depth
          refusal (fun stands => stands.calm) container ?_ ?_
        · intro deeper le x mem y retags
          rw [← retags.fits_iff]
          exact ih (retags.made (made.shown data x mem)) (tidy.shown mem retags) (by omega) (by omega)
            (by omega)
        · intro deeper body inner
          refine stands_opened clear (by omega) (inner.mono (fun _ => (fits_succ container).mpr) ?_)
          rintro e ⟨x, mem, rfl, deep⟩
          exact ⟨rfl, fun fits => deep ((fits_succ container).mp fits x mem)⟩

/-- A call from outside: nothing is open, and the limit is the one that holds when none is set. -/
structure World.AtTop (w : World) : Prop where
  depth : w.depth = 0
  dataDepth : w.dataDepth = 0
  printing : w.printing = []
  limit : w.limit = some defaultRecursionLimit

theorem BuiltinData.ends (data : BuiltinData s P) {a b : Value} (ha : P a) (hb : P b) :
    ∃ least, ∀ n, least ≤ n → ∀ w, Calm s 0 w →
      (Protocol.repr (hooks n) a w).1 ≠ .outOfFuel ∧
      (Protocol.equals (hooks n) a b w).1 ≠ .outOfFuel ∧
      ∀ op, (Protocol.compare (hooks n) op a b w).1 ≠ .outOfFuel := by
  have compares := data.compares_eventually dataDepthLimit ha hb
  obtain ⟨least, holds⟩ := Filter.eventually_atTop.mp compares
  refine ⟨max least (dataDepthLimit + 1), fun n enough w calm => ?_⟩
  have ready : Ready s dataDepthLimit w := ⟨calm, Nat.le_add_left _ _⟩
  have print := data.repr_halts (n := n) (data.made ha) (Nat.le_trans (Nat.le_max_right _ _) enough)
  have compare := holds n (Nat.le_trans (Nat.le_max_left _ _) enough)
  exact ⟨print.ne_outOfFuel ready, compare.equals.ne_outOfFuel ready, fun op =>
    (compare.compare op).ne_outOfFuel ready⟩

theorem BuiltinData.repr_at_top (data : BuiltinData s P) (mem : P v) (acyclic : s.Acyclic v)
    (identified : s.Identified v) (enough : dataDepthLimit < n) {w : World} (calm : Calm s 0 w)
    (top : w.AtTop) :
    ((Protocol.repr (hooks n) v w).1 = .error .recursionLimit ↔ ¬ s.Fits dataDepthLimit v) ∧
      (s.Fits dataDepthLimit v → ∃ text, (Protocol.repr (hooks n) v w).1 = .ok text) := by
  have tidy : Tidy s [] v := ⟨acyclic, identified, fun _ _ _ _ _ => List.not_mem_nil⟩
  have stands : Stands s (some defaultRecursionLimit) [] 0 0 w :=
    ⟨calm, top.limit, top.printing, top.dataDepth, top.depth⟩
  have shallow : 0 + dataDepthLimit < defaultRecursionLimit := by decide
  have print := data.repr_fits (data.made mem) tidy (Nat.zero_add _) shallow enough
  rcases print.cases stands with ⟨text, w', ran, -, fits⟩ | ⟨e, w', ran, -, rfl, deep⟩
  · rw [ran]
    exact ⟨iff_of_false nofun (not_not_intro fits), fun _ => ⟨text, rfl⟩⟩
  · rw [ran]
    exact ⟨iff_of_true rfl deep, fun fits => absurd fits deep⟩

/-- Printing and comparing built-in data end with an answer or an error, whatever contains what and
whatever the limit on calls is. At the top, data that does not contain itself is printed unless some
chain of containers in it is longer than the levels there are. A container that is met again while it
is being printed is printed by its placeholder, also where no level is left. -/
theorem BuiltinData.printed_and_compared (data : BuiltinData s P) :
    (∀ a b, P a → P b → ∃ least, ∀ n, least ≤ n → ∀ w, Calm s 0 w →
      (Protocol.repr (hooks n) a w).1 ≠ .outOfFuel ∧
      (Protocol.equals (hooks n) a b w).1 ≠ .outOfFuel ∧
      ∀ op, (Protocol.compare (hooks n) op a b w).1 ≠ .outOfFuel) ∧
    (∀ v, P v → s.Acyclic v → s.Identified v →
      ∀ n, dataDepthLimit < n → ∀ w, Calm s 0 w → w.AtTop →
        ((Protocol.repr (hooks n) v w).1 = .error .recursionLimit ↔
          ∃ inner, s.Nests (v :: inner) ∧ dataDepthLimit < (v :: inner).length) ∧
        ((Protocol.repr (hooks n) v w).1 ≠ .error .recursionLimit →
          ∃ text, (Protocol.repr (hooks n) v w).1 = .ok text)) ∧
    (∀ v id again, v.isContainer = true → s.mark v = some (id, again) →
      ∀ n w, Calm s 0 w → id ∈ w.printing → (∀ limit, w.limit = some limit → w.depth < limit) →
        (Protocol.repr (hooks (n + 1)) v w).1 = .ok again ∧
        w.SameLevels (Protocol.repr (hooks (n + 1)) v w).2) := by
  refine ⟨fun a b => data.ends, fun v mem acyclic identified n enough w calm top => ?_,
    fun v id again container mark n w calm met room => ?_⟩
  · obtain ⟨failed, printed⟩ := data.repr_at_top mem acyclic identified enough calm top
    have deep : ¬ s.Fits dataDepthLimit v ↔
        ∃ inner, s.Nests (v :: inner) ∧ dataDepthLimit < (v :: inner).length := by
      simp only [Store.Fits, not_forall, Nat.not_le, exists_prop]
    rw [← deep]
    exact ⟨failed, fun no => printed (not_not.mp (mt failed.mpr no))⟩
  · have stands : Stands s w.limit w.printing w.dataDepth w.depth w := ⟨calm, rfl, rfl, rfl, rfl⟩
    rcases (repr_again (n := n) container mark met room).cases stands with
      ⟨text, w', ran, after, rfl⟩ | ⟨e, w', ran, -, impossible⟩
    · rw [ran]
      exact ⟨rfl, after.depth, after.used, after.printing⟩
    · exact impossible.elim

namespace Knot

def pair : Value := .tuple 300 [.none, .tuple 301 []]

def store : Store := (Store.empty.addList (.ofArray #[.list ⟨0⟩, pair])).2

def Mem (v : Value) : Prop := v ∈ [.list ⟨0⟩, pair, .none, .tuple 301 []]

def printing : World := { World.blank with store, dataDepth := 100, printing := [257] }

theorem data : BuiltinData store Mem := by
  have items : store.contained (.list ⟨0⟩) = [.list ⟨0⟩, pair] := rfl
  refine ⟨?_, ?_, ?_⟩
  · simp [Mem, pair, Value.kind]
  · simp only [Mem, List.forall_mem_cons]
    refine ⟨?_, ?_, ?_, ?_, List.forall_mem_nil _⟩
    · simp [items]
    · simp [pair, Store.contained, Store.parts]
    · exact List.forall_mem_nil _
    · exact List.forall_mem_nil _
  · simp [Mem, pair, Store.hashed]

theorem inside_pair {x : Value} (inside : store.Inside pair x) : x = .none ∨ x = .tuple 301 [] := by
  induction inside with
  | single step => simpa [pair, Store.refers, Store.contained, Store.parts] using step
  | tail _ step ih => rcases ih with rfl | rfl <;> cases step

theorem reaches_pair {x : Value} (reaches : store.Reaches pair x) : x = pair ∨ store.Inside pair x :=
  (Relation.reflTransGen_iff_eq_or_transGen.mp reaches).imp_left id

theorem acyclic : store.Acyclic pair := by
  intro x reaches cycle
  have inside : store.Inside pair x := by
    rcases reaches_pair reaches with rfl | inside
    · exact cycle
    · exact inside
  obtain ⟨y, step, -⟩ := Relation.TransGen.head'_iff.mp cycle
  rcases inside_pair inside with rfl | rfl <;> cases step

theorem identified : store.Identified pair := by
  intro a b ha hb id again again' mark
  rcases reaches_pair ha with rfl | inside
  · cases mark
  · rcases inside_pair inside with rfl | rfl <;> cases mark

theorem fits : store.Fits 2 pair := by
  have empty : store.Fits 1 (.tuple 301 []) := (fits_succ rfl).mpr nofun
  have none : store.Fits 1 .none := fits_of_leaf rfl
  refine (fits_succ rfl).mpr ?_
  simp [pair, Store.shown, none, empty]

end Knot

/-- The list can be printed and compared though it holds itself, the pair in it is printed, and inside
the list, with no level left, the list is printed by its placeholder. -/
theorem BuiltinData.printed_and_compared_knot :
    (∃ least, ∀ n, least ≤ n → (Protocol.repr (hooks n) (.list ⟨0⟩) Knot.printing).1 ≠ .outOfFuel ∧
      (Protocol.equals (hooks n) (.list ⟨0⟩) Knot.pair Knot.printing).1 ≠ .outOfFuel) ∧
    (∃ text, (Protocol.repr (hooks 101) Knot.pair { Knot.printing with dataDepth := 0, printing := [] }).1 =
      .ok text) ∧
    (Protocol.repr (hooks 1) (.list ⟨0⟩) Knot.printing).1 = .ok "[...]" := by
  have calm : Calm Knot.store 0 Knot.printing :=
    ⟨rfl, Nat.zero_le _, Dispatcher.honest_initial _ _ _ _⟩
  obtain ⟨ends, printed, again⟩ := BuiltinData.printed_and_compared Knot.data
  refine ⟨?_, ?_, ?_⟩
  · obtain ⟨least, holds⟩ := ends (.list ⟨0⟩) Knot.pair List.mem_cons_self
      (List.mem_cons_of_mem _ List.mem_cons_self)
    exact ⟨least, fun n enough => (holds n enough _ calm).imp_right And.left⟩
  · obtain ⟨deep, otherwise⟩ := printed Knot.pair (List.mem_cons_of_mem _ List.mem_cons_self)
      Knot.acyclic Knot.identified 101 (by decide) { Knot.printing with dataDepth := 0, printing := [] }
      ⟨calm.store, calm.bound, calm.honest⟩ ⟨rfl, rfl, rfl, rfl⟩
    refine otherwise fun failed => ?_
    obtain ⟨inner, nests, long⟩ := deep.mp failed
    exact absurd (Nat.lt_of_lt_of_le long (Knot.fits inner nests)) (by decide)
  · exact (again (.list ⟨0⟩) 257 "[...]" rfl rfl 0 Knot.printing calm List.mem_cons_self (by decide)).1

end DynamicObjects

import DynamicObjects.Proofs.Conduct.Programs
import DynamicObjects.Proofs.Objects

/-!
The accounts of what is open: calls that count against the limit, levels of nested data, containers
that are being printed. Everything that is opened is closed again, however the code in between ends and
whatever it did to the policy. So the depth is the number of limited calls that are open, and a call is
refused only when there are as many of them as the limit says.
-/
namespace DynamicObjects

open Conduct

structure World.SameLevels (w w' : World) : Prop where
  depth : w'.depth = w.depth
  dataDepth : w'.dataDepth = w.dataDepth
  printing : w'.printing = w.printing

def Conduct.levels : Conduct where
  Step := World.SameLevels
  Allowed _ := True
  Kept _ := True
  Strict := False
  refl _ := ⟨rfl, rfl, rfl⟩
  trans h h' :=
    ⟨h'.depth.trans h.depth, h'.dataDepth.trans h.dataDepth, h'.printing.trans h.printing⟩
  allowed _ := trivial
  retained _ := ⟨rfl, rfl, rfl⟩
  dispatched _ := ⟨rfl, rfl, rfl⟩
  traced h := ⟨h.depth, h.dataDepth, h.printing⟩
  nested h := ⟨h.depth, congrArg (· - 1) h.dataDepth, h.printing⟩
  printed {_ _ id} h :=
    ⟨h.depth, h.dataDepth, (congrArg (·.erase id) h.printing).trans (List.erase_cons_head ..)⟩
  limited h := ⟨rfl, h.dataDepth, h.printing⟩
  told _ := trivial
  resolved _ := trivial
  fits strict := strict.elim

theorem Conduct.levels_free : Conduct.levels.Free where
  lax := id
  writes _ _ _ := ⟨rfl, rfl, rfl⟩
  session _ _ := ⟨rfl, rfl, rfl⟩
  performed _ _ := trivial
  redefined _ _ := trivial

theorem Conduct.sameLevels {α : Type} {x : Run α} (obeys : Conduct.levels.Obeys x) (w : World) :
    w.SameLevels (x w).2 :=
  (obeys w trivial).2.1

def World.limit (w : World) : Option Nat := w.dispatcher.policy.recursionLimit

namespace Thunk

def entered (t : Thunk) (w : World) : World :=
  let depth := if t.limited then w.depth + 1 else w.depth
  match t.tracer with
  | none => { w with depth }
  | some tracer =>
    { w with
      depth
      dispatcher := w.dispatcher.tell tracer (.called t.op.slotName t.typeName depth) }

def left (t : Thunk) (w w' : World) : World :=
  let depth := if t.limited then w.depth else w'.depth
  match t.tracer with
  | none => { w' with depth }
  | some tracer =>
    let before := if t.limited then w.depth else w.depth - 1
    { w' with depth, dispatcher := w'.dispatcher.tell tracer (.returned t.op.slotName before) }

@[simp] theorem depth_entered {t : Thunk} (limited : t.limited = true) (w : World) :
    (t.entered w).depth = w.depth + 1 := by
  unfold entered
  simp only [limited, if_true]
  split <;> rfl

end Thunk

namespace Run

variable {α : Type} {w : World}

theorem limited_refused (x : Nat → Run α) {limit : Nat} (found : w.limit = some limit)
    (reached : limit ≤ w.depth) : limited x w = (.error .recursionLimit, w) := by
  unfold World.limit at found
  simp only [limited, found]
  exact if_pos (decide_eq_true reached)

theorem limited_entered (x : Nat → Run α)
    (below : ∀ limit, w.limit = some limit → w.depth < limit) :
    limited x w = (x (w.depth + 1)).andThen (fun w' => { w' with depth := w.depth })
      { w with depth := w.depth + 1 } := by
  refine if_neg ?_
  cases found : w.dispatcher.policy.recursionLimit with
  | none => exact Bool.false_ne_true
  | some limit => simpa using below limit found

end Run

namespace Protocol

variable {h : Hooks} {t : Thunk} {w : World}

theorem callThunk_limited (limited : t.limited = true) (args : List Value) :
    callThunk h t args = Run.limited fun depth => traced t depth (runTarget h t args) :=
  if_pos limited

theorem callThunk_refused (limited : t.limited = true) {limit : Nat} (found : w.limit = some limit)
    (reached : limit ≤ w.depth) (args : List Value) :
    callThunk h t args w = (.error .recursionLimit, w) := by
  rw [callThunk_limited limited, Run.limited_refused _ found reached]

/-- A call that is not refused runs its target, one level deeper if it is limited. -/
theorem callThunk_entered
    (below : t.limited = true → ∀ limit, w.limit = some limit → w.depth < limit)
    (args : List Value) :
    callThunk h t args w = ((runTarget h t args (t.entered w)).1,
      t.left w (runTarget h t args (t.entered w)).2) := by
  cases limited : t.limited with
  | true =>
    rw [callThunk_limited limited, Run.limited_entered _ (below limited)]
    unfold traced Thunk.entered Thunk.left Run.andThen
    simp only [limited, if_true]
    cases t.tracer <;> rfl
  | false =>
    have unlimited : callThunk h t args w = traced t w.depth (runTarget h t args) w := by
      unfold callThunk
      rw [limited]
      rfl
    rw [unlimited]
    unfold traced Thunk.entered Thunk.left Run.andThen
    simp only [limited]
    cases t.tracer <;> rfl

theorem refused_or_below (t : Thunk) (w : World) :
    (t.limited = true ∧ ∃ limit, w.limit = some limit ∧ limit ≤ w.depth) ∨
      (t.limited = true → ∀ limit, w.limit = some limit → w.depth < limit) := by
  refine Classical.or_iff_not_imp_left.mpr fun taken limited limit found => ?_
  exact Nat.lt_of_not_le fun reached => taken ⟨limited, limit, found, reached⟩

theorem callThunk_cases (h : Hooks) (t : Thunk) (args : List Value) (w : World) :
    callThunk h t args w = (.error .recursionLimit, w) ∨
      callThunk h t args w = ((runTarget h t args (t.entered w)).1,
        t.left w (runTarget h t args (t.entered w)).2) := by
  rcases refused_or_below t w with ⟨limited, limit, found, reached⟩ | below
  · exact .inl (callThunk_refused limited found reached args)
  · exact .inr (callThunk_entered below args)

end Protocol

/-- The states that code runs in, with the limits under which the limited calls around it were let in,
the innermost first. Code makes calls, follows data and prints containers one level down, and does
anything between that leaves the accounts as they were. -/
inductive Open : List (Option Nat) → World → Prop
  | outermost {w : World} (depth : w.depth = 0) : Open [] w
  | limitedCall {calls : List (Option Nat)} {w : World} {t : Thunk} (before : Open calls w)
    (limited : t.limited = true) (below : ∀ limit, w.limit = some limit → w.depth < limit) :
    Open (w.limit :: calls) (t.entered w)
  | unlimitedCall {calls : List (Option Nat)} {w : World} {t : Thunk} (before : Open calls w)
    (unlimited : t.limited = false) : Open calls (t.entered w)
  | nested {calls : List (Option Nat)} {w : World} (before : Open calls w) :
    Open calls { w with dataDepth := w.dataDepth + 1 }
  | printing {calls : List (Option Nat)} {w : World} (before : Open calls w) (id : Identity) :
    Open calls { w with printing := id :: w.printing }
  | work {calls : List (Option Nat)} {w w' : World} (before : Open calls w)
    (same : w.SameLevels w') : Open calls w'

namespace Open

variable {calls : List (Option Nat)} {w : World}

theorem depth_eq (h : Open calls w) : w.depth = calls.length := by
  induction h with
  | outermost depth => exact depth
  | limitedCall _ limited _ ih => rw [Thunk.depth_entered limited, ih, List.length_cons]
  | @unlimitedCall _ _ t _ unlimited ih =>
    rw [← ih]
    unfold Thunk.entered
    simp only [unlimited]
    split <;> rfl
  | nested _ ih => exact ih
  | printing _ _ ih => exact ih
  | work _ same ih => exact same.depth.trans ih

theorem within (h : Open calls w) {inner outer : List (Option Nat)} {limit : Nat}
    (call : calls = inner ++ some limit :: outer) : outer.length + 1 ≤ limit := by
  induction h generalizing inner with
  | outermost => simp at call
  | limitedCall before _ below ih =>
    cases inner with
    | nil =>
      obtain ⟨found, rfl⟩ := List.cons.inj call
      rw [← before.depth_eq]
      exact below limit found
    | cons _ inner => exact ih (List.cons.inj call).2
  | unlimitedCall _ _ ih => exact ih call
  | nested _ ih => exact ih call
  | printing _ _ ih => exact ih call
  | work _ _ ih => exact ih call

end Open

namespace Script

/-- Calls, comparisons, hashing and printing leave the accounts as they were, whatever programs do in
between. And wherever code runs, the depth is the number of limited calls that are open. Each of those
that were let in under a limit runs at a depth within it. A further limited call is refused if that many
are open already; else its target runs, as one of them. -/
theorem levels_kept (n : Nat) :
    (∀ t args w, World.SameLevels w (Protocol.callThunk (hooks n) t args w).2) ∧
    (∀ v w, World.SameLevels w (Protocol.repr (hooks n) v w).2) ∧
    (∀ a b w, World.SameLevels w (Protocol.equals (hooks n) a b w).2) ∧
    (∀ op a b w, World.SameLevels w (Protocol.compare (hooks n) op a b w).2) ∧
    (∀ a b w, World.SameLevels w (Protocol.lessThan (hooks n) a b w).2) ∧
    (∀ v w, World.SameLevels w (Protocol.hash (hooks n) v w).2) ∧
    ∀ {calls : List (Option Nat)} {w : World}, Open calls w →
      w.depth = calls.length ∧
      (∀ inner limit outer, calls = inner ++ some limit :: outer → outer.length + 1 ≤ limit) ∧
      ∀ t : Thunk, t.limited = true →
        (∀ limit, w.limit = some limit → limit ≤ calls.length →
          ∀ args, Protocol.callThunk (hooks n) t args w = (.error .recursionLimit, w)) ∧
        ((∀ limit, w.limit = some limit → calls.length < limit) →
          Open (w.limit :: calls) (t.entered w) ∧
          ∀ args, Protocol.callThunk (hooks n) t args w =
            ((Protocol.runTarget (hooks n) t args (t.entered w)).1,
              t.left w (Protocol.runTarget (hooks n) t args (t.entered w)).2)) := by
  have free := levels_free
  have hooks := hooks_conducts free n
  refine ⟨fun t args => sameLevels (free.callThunk_obeys hooks t args),
    fun v => sameLevels (Protocol.repr_obeys hooks v),
    fun a b => sameLevels (Protocol.equals_obeys hooks a b),
    fun op a b => sameLevels (Protocol.compare_obeys hooks op a b),
    fun a b => sameLevels (Protocol.lessThan_obeys hooks a b),
    fun v => sameLevels (Protocol.hash_obeys hooks v), fun {calls w} running => ?_⟩
  refine ⟨running.depth_eq, fun inner limit outer call => running.within call, fun t limited => ?_⟩
  rw [← running.depth_eq]
  exact ⟨fun limit found reached => Protocol.callThunk_refused limited found reached,
    fun below => ⟨running.limitedCall limited below, Protocol.callThunk_entered fun _ => below⟩⟩

def shallow : World :=
  { World.blank with
    dispatcher := Dispatcher.initial ⟨#[], [], true⟩ {} { recursionLimit := some 1 } false }

/-- While one call is open, another one is refused, unless the limit is raised in between. -/
theorem levels_kept_shallow :
    let t := (shallow.dispatcher.resolve Kind.hasSlot .len (.builtin .list)).1
    let inside := t.entered shallow
    let raised := { inside with dispatcher := inside.dispatcher.setRecursionLimit (some 2) }
    Protocol.callThunk (hooks 3) t [.list ⟨0⟩] inside = (.error .recursionLimit, inside) ∧
      Open [some 2, some 1] (t.entered raised) ∧ (t.entered raised).depth = 2 := by
  intro t inside raised
  have limited : t.limited = true := by decide +kernel
  have outside : Open [] shallow := .outermost rfl
  obtain ⟨-, -, -, -, -, -, running⟩ := levels_kept 3
  obtain ⟨inFirst, -⟩ := ((running outside).2.2 t limited).2 (by decide +kernel)
  have refused := ((running inFirst).2.2 t limited).1 1 rfl (by decide +kernel)
  have inRaised : Open [some 1] raised := inFirst.work ⟨rfl, rfl, rfl⟩
  obtain ⟨inSecond, -⟩ := ((running inRaised).2.2 t limited).2 (by decide +kernel)
  exact ⟨refused _, inSecond, (running inSecond).1⟩

end Script

end DynamicObjects

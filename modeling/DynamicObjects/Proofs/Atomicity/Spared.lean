import DynamicObjects.Proofs.Levels

/-!
What happens to one container while an operation runs. The container is spared when nothing but code
that the program brought along has changed it; a run spares it in the cases that matter when it did so
whenever it ends like that. Most of this is a conduct, so that everything that only asks questions is
known to spare all containers.
-/
namespace DynamicObjects

open Conduct

inductive Contents
  | items (buffer : Buffer Value)
  | bytes (buffer : Buffer UInt8)
  | entries (table : Table Value Value)

def Store.contents? (s : Store) : Value → Option Contents
  | .list r => s.lists[r.number]?.map fun o => .items o.buffer
  | .byteArray r => s.byteArrays[r.number]?.map fun o => .bytes o.buffer
  | .dict r => s.dicts[r.number]?.map fun o => .entries o.table
  | _ => none

def Store.Spares (c : Value) (s s' : Store) : Prop :=
  ∀ contents, s.contents? c = some contents → s'.contents? c = some contents

theorem Store.Retains.spares {s s' : Store} (h : s.Retains s') (c : Value) : s.Spares c s' := by
  intro contents held
  cases c with
  | list r =>
    obtain ⟨o, found, rfl⟩ := Option.map_eq_some_iff.mp held
    obtain ⟨version, found'⟩ := h.lists found
    exact Option.map_eq_some_iff.mpr ⟨_, found', rfl⟩
  | byteArray r =>
    obtain ⟨o, found, rfl⟩ := Option.map_eq_some_iff.mp held
    exact Option.map_eq_some_iff.mpr ⟨_, h.byteArrays found, rfl⟩
  | dict r =>
    obtain ⟨o, found, rfl⟩ := Option.map_eq_some_iff.mp held
    obtain ⟨version, found'⟩ := h.dicts found
    exact Option.map_eq_some_iff.mpr ⟨_, found', rfl⟩
  | _ => cases held

theorem Store.Grows.contents? {s s' : Store} (h : s.Grows s') {c : Value}
    (live : (s.contents? c).isSome = true) : (s'.contents? c).isSome = true := by
  have kept : ∀ {α : Type} {xs ys : Array α} {i : Nat}, xs.size ≤ ys.size → xs[i]?.isSome = true →
      ys[i]?.isSome = true := by
    intro α xs ys i size found
    rw [Option.isSome_iff_exists] at found ⊢
    obtain ⟨x, found⟩ := found
    have bound := (Array.getElem?_eq_some_iff.mp found).1
    exact ⟨_, Array.getElem?_eq_getElem (Nat.lt_of_lt_of_le bound size)⟩
  cases c with
  | list r =>
    rw [Store.contents?, Option.isSome_map] at live ⊢
    exact kept h.lists live
  | byteArray r =>
    rw [Store.contents?, Option.isSome_map] at live ⊢
    exact kept h.byteArrays live
  | dict r =>
    rw [Store.contents?, Option.isSome_map] at live ⊢
    exact kept h.dicts live
  | _ => cases live

/-- From one state to another, the library spares the container, and calls code that the program
brought along, which may do to it what it likes. -/
inductive Spared (code : UserCode) (c : Value) (w : World) : World → Prop
  | refl : Spared code c w w
  | library {w₁ w₂ : World} (before : Spared code c w w₁) (grows : w₁.store.Grows w₂.store)
    (spares : w₁.store.Spares c w₂.store) : Spared code c w w₂
  | invoked {w₁ : World} (before : Spared code c w w₁) (reached : w₁.dispatcher.Reached) (n : Nat)
    (f : Value) (args : List Value) : Spared code c w (code.invoke n f args w₁).2
  | enumerated {w₁ : World} (before : Spared code c w w₁) (reached : w₁.dispatcher.Reached) (n : Nat)
    (v : Value) : Spared code c w (code.enumerate n v w₁).2

namespace Spared

variable {code : UserCode} {c : Value} {w w₁ w₂ : World}

theorem trans (h : Spared code c w w₁) (h' : Spared code c w₁ w₂) : Spared code c w w₂ := by
  induction h' with
  | refl => exact h
  | library _ grows spares ih => exact ih.library grows spares
  | invoked _ reached n f args ih => exact ih.invoked reached n f args
  | enumerated _ reached n v ih => exact ih.enumerated reached n v

theorem of_retains (retains : w.store.Retains w₁.store) : Spared code c w w₁ :=
  .library .refl retains.grows (retains.spares c)

theorem of_store (same : w₁.store = w.store) : Spared code c w w₁ :=
  .of_retains (same ▸ .refl _)

theorem between {w₃ : World} (h : Spared code c w₁ w₂) (entered : w₁.store = w.store)
    (left : w₃.store = w₂.store) : Spared code c w w₃ :=
  ((Spared.of_store entered).trans h).trans (.of_store left)

theorem grows (h : Spared code c w w₁) : w.store.Grows w₁.store := by
  induction h with
  | refl => exact .refl _
  | library _ grows _ ih => exact ih.trans grows
  | invoked _ reached n f args ih => exact ih.trans (code.invoke_orderly n f args _ reached).store
  | enumerated _ reached n v ih => exact ih.trans (code.enumerate_orderly n v _ reached).store

theorem unchanged (h : Spared code c w w₁)
    (invoke : ∀ n f args (w : World), w.store.Spares c (code.invoke n f args w).2.store)
    (enumerate : ∀ n v (w : World), w.store.Spares c (code.enumerate n v w).2.store) :
    w.store.Spares c w₁.store := by
  induction h with
  | refl => exact fun _ held => held
  | library _ _ spares ih => exact fun contents held => spares contents (ih contents held)
  | invoked _ _ n f args ih => exact fun contents held => invoke n f args _ contents (ih contents held)
  | enumerated _ _ n v ih => exact fun contents held => enumerate n v _ contents (ih contents held)

end Spared

def Conduct.sparing (code : UserCode) (c : Value) : Conduct where
  Step := Spared code c
  Allowed _ := True
  Kept := Dispatcher.Reached
  Strict := True
  refl _ := .refl
  trans := .trans
  allowed _ := trivial
  retained retains := .of_retains retains
  dispatched _ := .of_store rfl
  traced h := h.between rfl rfl
  nested h := h.between rfl rfl
  printed h := h.between rfl rfl
  limited h := h.between rfl rfl
  told reached := reached.tell _ _
  resolved reached := reached.resolve _ _
  fits _ reached := reached.fits _ _

/-- When the run ends in one of the given ways, it has spared the container, if that existed. -/
def UserCode.Spares {α : Type} (code : UserCode) (c : Value) (bad : Outcome α → Prop) (x : Run α) :
    Prop :=
  ∀ w, w.dispatcher.Reached → (w.store.contents? c).isSome = true → bad (x w).1 →
    (x w).2.dispatcher.Reached ∧ Spared code c w (x w).2

inductive Outcome.Fails {α : Type} : Outcome α → Prop
  | error (e : Error) : Fails (.error e)

instance {α : Type} : (outcome : Outcome α) → Decidable outcome.Fails
  | .ok _ => isFalse nofun
  | .error e => isTrue (.error e)
  | .outOfFuel => isFalse nofun

theorem Outcome.Fails.eq_error {α : Type} {result : Outcome α × World} (h : result.1.Fails) :
    ∃ e, result = (.error e, result.2) := by
  obtain ⟨outcome, w⟩ := result
  cases h with
  | error e => exact ⟨e, rfl⟩

inductive Outcome.FailsOrDeclines : Outcome Value → Prop
  | error (e : Error) : FailsOrDeclines (.error e)
  | declined : FailsOrDeclines (.ok .notImplemented)

def World.entering (w : World) (op : Operation) (args : List Value) : World :=
  let found := w.dispatcher.resolve Kind.hasSlot op (Protocol.receiver args).typeKey
  found.1.entered { w with dispatcher := found.2 }

namespace UserCode

variable {α β : Type} {code : UserCode} {c : Value}

theorem hooks_spare (code : UserCode) (c : Value) (n : Nat) :
    (code.hooks plain n).Conducts (sparing code c) := by
  refine hooks_conducts transparent_plain (fun n f args w reached => ?_) (fun n v w reached => ?_)
    trivial n
  · exact ⟨(code.invoke_orderly n f args w reached).dispatcher,
      Spared.refl.invoked reached n f args, by cases (code.invoke n f args w).1 <;> trivial⟩
  · exact ⟨(code.enumerate_orderly n v w reached).dispatcher,
      Spared.refl.enumerated reached n v, by cases (code.enumerate n v w).1 <;> trivial⟩

variable {bad : Outcome α → Prop} {bad' : Outcome β → Prop} {x : Run α} {f : α → Run β}

theorem spares_of_obeys (hx : (sparing code c).Obeys x) : code.Spares c bad x :=
  fun w reached _ _ => ⟨(hx w reached).1, (hx w reached).2.1⟩

theorem spared_then {w w₁ : World} (reached : w₁.dispatcher.Reached) (spared : Spared code c w w₁)
    (hx : (sparing code c).Obeys x) :
    (x w₁).2.dispatcher.Reached ∧ Spared code c w (x w₁).2 :=
  ⟨(hx w₁ reached).1, spared.trans (hx w₁ reached).2.1⟩

/-- A run that writes last spares the container unless it gives a value. -/
theorem spares_of_commits (hx : (sparing code c).Commits x) : code.Spares c Outcome.Fails x := by
  intro w reached _ failed
  obtain ⟨w₁, reached₁, spared, ⟨a, store, -, ran⟩ | ⟨failure, ran, -⟩⟩ := hx w reached
  · rw [ran] at failed
    cases failed
  · rw [ran]
    exact ⟨reached₁, spared⟩

theorem spares_bind (hx : (sparing code c).Obeys x) (hf : ∀ a, code.Spares c bad' (f a)) :
    code.Spares c bad' (x >>= f) := by
  intro w reached live ended
  obtain ⟨reached₁, spared, -⟩ := hx w reached
  rcases Run.outcome_cases x w with ⟨a, w₁, ran⟩ | ⟨failure, w₁, ran⟩
  · rw [ran] at reached₁ spared
    rw [Run.bind_ok ran] at ended ⊢
    obtain ⟨reached₂, spared₂⟩ := hf a w₁ reached₁ (spared.grows.contents? live) ended
    exact ⟨reached₂, spared.trans spared₂⟩
  · rw [ran] at reached₁ spared
    rw [Run.bind_failure ran]
    exact ⟨reached₁, spared⟩

theorem spares_value {x : Run Unit} {v : Value} (hx : (sparing code c).Commits x)
    (value : v.isNotImplemented = false) :
    code.Spares c Outcome.FailsOrDeclines (x >>= fun _ => pure v) := by
  intro w reached _ ended
  obtain ⟨w₁, reached₁, spared, ⟨a, store, -, ran⟩ | ⟨failure, ran, -⟩⟩ := hx w reached
  · rw [Run.bind_ok ran] at ended
    cases ended
    cases value
  · rw [Run.bind_failure ran]
    exact ⟨reached₁, spared⟩

section Calls

variable {bad : Outcome Value → Prop} {n : Nat} {op : Operation} {args : List Value}

theorem store_entered (t : Thunk) (w : World) : (t.entered w).store = w.store := by
  unfold Thunk.entered
  cases t.tracer <;> rfl

theorem store_left (t : Thunk) (w w' : World) : (t.left w w').store = w'.store := by
  unfold Thunk.left
  cases t.tracer <;> rfl

theorem reached_entered {t : Thunk} {w : World} (reached : w.dispatcher.Reached) :
    (t.entered w).dispatcher.Reached := by
  unfold Thunk.entered
  cases t.tracer with
  | none => exact reached
  | some tracer => exact reached.tell _ _

theorem callThunk_spares {h : Hooks} {t : Thunk} (hx : code.Spares c bad (Protocol.runTarget h t args)) :
    code.Spares c bad (Protocol.callThunk h t args) := by
  intro w reached live ended
  rcases Protocol.callThunk_cases h t args w with refused | ran
  · rw [refused]
    exact ⟨reached, .refl⟩
  · rw [ran] at ended ⊢
    obtain ⟨reached', spared⟩ := hx (t.entered w) (reached_entered reached) (store_entered t w ▸ live) ended
    generalize (Protocol.runTarget h t args (t.entered w)).2 = w₁ at reached' spared ⊢
    refine ⟨?_, spared.between (store_entered t w) (store_left t w w₁)⟩
    unfold Thunk.left
    cases t.tracer with
    | none => exact reached'
    | some tracer => exact reached'.perform (.tell _ _)

theorem runTarget_spares {t : Thunk} (fits : t.Fits op (Protocol.receiver args).typeKey)
    (slot : ∀ kind, Kind.Receives kind op args →
      code.Spares c bad ((code.hooks plain n).builtin kind op args)) :
    code.Spares c bad (Protocol.runTarget (code.hooks plain n) t args) := by
  have hooks := code.hooks_spare c n
  unfold Protocol.runTarget
  split
  next kind target key =>
    obtain ⟨kind', same, found⟩ := fits.hasSlot target
    obtain rfl : kind = kind' := by
      rw [fits.sameKey, same] at key
      exact (TypeKey.builtin.inj key).symm
    rw [fits.sameOp]
    exact slot kind ⟨same, found⟩
  next number target key =>
    obtain ⟨kind', same, -⟩ := fits.hasSlot target
    rw [fits.sameKey, same] at key
    cases key
  next => exact spares_of_obeys (hooks.invoke _ _)
  next => exact spares_of_obeys (obeys_pure _)
  next => exact spares_of_obeys (obeys_ofExcept_clean (missing_clean t))

theorem callSlot_spares (slot : ∀ kind, Kind.Receives kind op args →
      code.Spares c bad ((code.hooks plain n).builtin kind op args)) :
    code.Spares c bad (Protocol.callSlot (code.hooks plain n) op args) := by
  intro w reached live ended
  have slots := (code.hooks_spare c n).slots
  have fits := (reached.aligned.resolve op (Protocol.receiver args).typeKey).1
  rw [← slots] at fits
  obtain ⟨reached', spared⟩ := callThunk_spares (runTarget_spares fits slot)
    { w with dispatcher :=
      (w.dispatcher.resolve (code.hooks plain n).hasSlot op (Protocol.receiver args).typeKey).2 }
    (slots ▸ reached.resolve _ _) live ended
  exact ⟨reached', spared.between rfl rfl⟩

theorem callSlot_obeys (slot : ∀ kind, Kind.Receives kind op args →
      (sparing code c).Obeys ((code.hooks plain n).builtin kind op args)) :
    (sparing code c).Obeys (Protocol.callSlot (code.hooks plain n) op args) := by
  have hooks := code.hooks_spare c n
  refine obeys_bind_holds (Protocol.resolve_holds hooks.slots op _) fun t fits => ?_
  refine Protocol.callThunk_obeys_of (Protocol.runTarget_obeys fits ?_ fun f => hooks.invoke f args)
  intro kind op' proper
  obtain ⟨rfl, receives⟩ := proper trivial
  exact slot kind receives

theorem callSlot_target (code : UserCode) (n : Nat) {kind : Kind} {op : Operation}
    {args : List Value} {body : Slot} (found : kind.slot? op = some body)
    (own : (Protocol.receiver args).typeKey = .builtin kind) {w : World}
    (reached : w.dispatcher.Reached) :
    let resolved := w.dispatcher.resolve Kind.hasSlot op (Protocol.receiver args).typeKey
    Protocol.callSlot (code.hooks plain (n + 1)) op args w =
        Protocol.callThunk (code.hooks plain (n + 1)) resolved.1 args
          { w with dispatcher := resolved.2 } ∧
      Protocol.runTarget (code.hooks plain (n + 1)) resolved.1 args =
        body (code.hooks plain n) args := by
  intro resolved
  refine ⟨rfl, ?_⟩
  have fits : resolved.1.Fits op _ := (reached.aligned.resolve op (Protocol.receiver args).typeKey).1
  have hasSlot : kind.hasSlot op = true := by simp [Kind.hasSlot, found]
  unfold Protocol.runTarget
  rw [fits.runsSlot kind own hasSlot, fits.sameKey, own, fits.sameOp]
  simp only [hooks, plain, found]

theorem callSlot_cases (code : UserCode) (n : Nat) {kind : Kind} {op : Operation}
    {args : List Value} {body : Slot} (found : kind.slot? op = some body)
    (own : (Protocol.receiver args).typeKey = .builtin kind) {w : World}
    (reached : w.dispatcher.Reached) :
    ∃ w', w'.store = w.store ∧
        Protocol.callSlot (code.hooks plain (n + 1)) op args w = (.error .recursionLimit, w') ∨
      w'.store = (body (code.hooks plain n) args (w.entering op args)).2.store ∧
        Protocol.callSlot (code.hooks plain (n + 1)) op args w =
          ((body (code.hooks plain n) args (w.entering op args)).1, w') := by
  obtain ⟨called, target⟩ := callSlot_target code n found own reached
  have entering : w.entering op args =
      (w.dispatcher.resolve Kind.hasSlot op (Protocol.receiver args).typeKey).1.entered
        { w with dispatcher :=
          (w.dispatcher.resolve Kind.hasSlot op (Protocol.receiver args).typeKey).2 } := rfl
  rw [called, entering]
  generalize (w.dispatcher.resolve Kind.hasSlot op (Protocol.receiver args).typeKey).1 = t at target ⊢
  generalize (w.dispatcher.resolve Kind.hasSlot op (Protocol.receiver args).typeKey).2 = d
  rcases Protocol.callThunk_cases (code.hooks plain (n + 1)) t args { w with dispatcher := d } with
    refused | ran
  · exact ⟨{ w with dispatcher := d }, .inl ⟨rfl, refused⟩⟩
  · rw [ran, target]
    exact ⟨_, .inr ⟨store_left t _ _, rfl⟩⟩

theorem inPlace_spares {op : BinaryOp} {a b : Value}
    (first : code.Spares c Outcome.FailsOrDeclines
      (Protocol.callSlot (code.hooks plain n) (.inPlace op) [a, b]))
    (then_ : (sparing code c).Obeys (Protocol.binaryDispatch (code.hooks plain n) op a b)) :
    code.Spares c Outcome.Fails (Protocol.inPlace (code.hooks plain n) op a b) := by
  intro w reached live failed
  unfold Protocol.inPlace at failed ⊢
  have ended := first w reached live
  rcases Run.outcome_cases (Protocol.callSlot (code.hooks plain n) (.inPlace op) [a, b]) w with
    ⟨v, w₁, ran⟩ | ⟨failure, w₁, ran⟩
  · rw [ran] at ended
    rw [Run.bind_ok ran] at failed ⊢
    by_cases declined : v = .notImplemented
    · subst declined
      obtain ⟨reached₁, spared₁⟩ := ended .declined
      refine spared_then reached₁ spared₁ ?_
      change (sparing code c).Obeys (Protocol.binaryDispatch (code.hooks plain n) op a b >>= _)
      grind
    · have value : v.isNotImplemented = false := by
        cases v with
        | notImplemented => exact absurd rfl declined
        | _ => rfl
      simp only [value] at failed
      cases failed
  · rw [ran] at ended
    rw [Run.bind_failure ran] at failed ⊢
    cases failure with
    | error e => exact ended (.error e)
    | outOfFuel => cases failed

end Calls

end UserCode

end DynamicObjects

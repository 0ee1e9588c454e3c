import DynamicObjects.Script.Interpreter
import DynamicObjects.Proofs.Conduct.Callbacks
import DynamicObjects.Proofs.Objects

/-!
Slots are entered with receivers of their own kind only. In every state that the dispatch layer can
reach, an operation that is resolved on its first argument, or through a call site, runs a slot of the
kind of that argument; so no slot ever complains about its receiver, whatever the code in between did
to policies, classes and caches.
-/
namespace DynamicObjects

open Conduct

/-- No internal errors, from states that the dispatch layer can reach. -/
def Conduct.sound : Conduct where
  Step _ _ := True
  Allowed e := e.isInternal = false
  Kept := Dispatcher.Reached
  Strict := True
  refl _ := trivial
  trans _ _ := trivial
  allowed clean := clean trivial
  retained _ := trivial
  dispatched _ := trivial
  traced _ := trivial
  nested _ := trivial
  printed _ := trivial
  limited _ := trivial
  told reached := reached.tell _ _
  resolved reached := reached.resolve _ _
  fits _ reached := reached.fits _ _

theorem Conduct.obeys_sound {α : Type} {x : Run α}
    (orderly : ∀ w : World, w.dispatcher.Reached → w.Orderly (x w).2)
    (quiet : ∀ w text, w.dispatcher.Reached → (x w).1 ≠ .error (.internal text)) :
    Conduct.sound.Obeys x := by
  intro w reached
  refine ⟨(orderly w reached).dispatcher, trivial, ?_⟩
  have named := quiet w
  cases ended : (x w).1 with
  | ok a => trivial
  | outOfFuel => trivial
  | error e =>
    cases e with
    | internal text => exact absurd ended (named text reached)
    | _ => rfl

/-- The functions and classes of a program do not end with internal errors of their own. -/
structure UserCode.Quiet (code : UserCode) : Prop where
  invoke : ∀ n f args w text, w.dispatcher.Reached →
    (code.invoke n f args w).1 ≠ .error (.internal text)
  enumerate : ∀ n v w text, w.dispatcher.Reached →
    (code.enumerate n v w).1 ≠ .error (.internal text)

/-- What a run leaves behind when it keeps the promise of the library. -/
structure EndsSoundly (result : Outcome Value × World) : Prop where
  outcome : ∀ text, result.1 ≠ .error (.internal text)
  dispatcher : result.2.dispatcher.Reached

theorem Conduct.endsSoundly {x : Run Value} (obeys : Conduct.sound.Obeys x) {w : World}
    (reached : w.dispatcher.Reached) : EndsSoundly (x w) := by
  obtain ⟨reached', -, suits⟩ := obeys w reached
  refine ⟨fun text ended => ?_, reached'⟩
  rw [ended] at suits
  cases suits

namespace UserCode

variable {code : UserCode} {enter : Kind → Operation → List Value → Run Value → Run Value}

section Calls

variable (quiet : code.Quiet) (transparent : Transparent enter) (n : Nat)

include quiet transparent

theorem callThunk_sound {t : Thunk} {op : Operation} {args : List Value}
    (fits : t.Fits op (Protocol.receiver args).typeKey) :
    Conduct.sound.Obeys (Protocol.callThunk (code.hooks enter n) t args) := by
  have invoke : ∀ n f args, Conduct.sound.Obeys (code.invoke n f args) := fun n f args =>
    obeys_sound (code.invoke_orderly n f args) (quiet.invoke n f args)
  have enumerate : ∀ n v, Conduct.sound.Obeys (code.enumerate n v) := fun n v =>
    obeys_sound (code.enumerate_orderly n v) (quiet.enumerate n v)
  have hooks := hooks_conducts transparent invoke enumerate trivial n
  refine Protocol.callThunk_obeys_of (Protocol.runTarget_obeys (fun _ => fits) ?_ fun f => ?_)
  · intro kind op' proper
    obtain ⟨rfl, receives⟩ := proper trivial
    exact builtin_obeys transparent invoke enumerate trivial (fun _ _ _ => trivial) n receives
  · exact hooks.invoke f args

theorem callSlot_sound (op : Operation) (args : List Value) :
    Conduct.sound.Obeys (Protocol.callSlot (code.hooks enter n) op args) := by
  have slots : (code.hooks enter n).hasSlot = Kind.hasSlot := by cases n <;> rfl
  exact obeys_bind_holds (Protocol.resolve_holds slots op _) fun t fits =>
    callThunk_sound quiet transparent n (fits trivial)

theorem runSite_endsSoundly {w : World} (reached : w.dispatcher.Reached) {site : Nat} {s : Site}
    (found : w.dispatcher.sites[site]? = some s) (args : List Value) :
    EndsSoundly (Script.runSite (code.hooks enter n) site args w) := by
  have slots : (code.hooks enter n).hasSlot = Kind.hasSlot := by cases n <;> rfl
  obtain ⟨t, d, resolved, fits, -⟩ :=
    reached.aligned.resolveSite found (Protocol.receiver args).typeKey
  have ran : Script.runSite (code.hooks enter n) site args w =
      Protocol.callThunk (code.hooks enter n) t args { w with dispatcher := d } := by
    simp only [Script.runSite, Run.bind_apply, Run.change, slots, resolved]
  have reached' : d.Reached := by
    have performed := reached.perform (.resolveSite site (Protocol.receiver args).typeKey)
    simpa [Dispatcher.perform, resolved] using performed
  rw [ran]
  exact endsSoundly (callThunk_sound quiet transparent n fits) reached'

/-- From every state that the dispatch layer can reach, no operation ends with an internal error, on
whatever arguments, neither through the runtime nor through a call site, and the layer is in such a
state again. This holds whatever `enter` would do if a slot were entered with a receiver of another
kind; it might raise an internal error at once. -/
theorem never_internal {w : World} (reached : w.dispatcher.Reached) (args : List Value) :
    (∀ op, EndsSoundly (Protocol.callSlot (code.hooks enter n) op args w)) ∧
      ∀ site, site < w.dispatcher.sites.size →
        EndsSoundly (Script.runSite (code.hooks enter n) site args w) := by
  refine ⟨fun op => ?_, fun site bound => ?_⟩
  · exact endsSoundly (callSlot_sound quiet transparent n op args) reached
  · have found := Array.getElem?_eq_getElem bound
    exact runSite_endsSoundly quiet transparent n reached found args

end Calls

def meddling : UserCode where
  invoke _ _ _ := do
    Run.modifyDispatcher (·.setRecursionLimit none)
    Run.modifyDispatcher (·.invalidateAll)
    return .notImplemented
  enumerate _ _ := return []
  invoke_orderly _ _ _ _ reached :=
    ⟨(reached.perform (.change (.setRecursionLimit none))).perform (.change .invalidateAll), .refl _⟩
  enumerate_orderly _ _ _ reached := .refl reached

def report (kind : Kind) (_ : Operation) (args : List Value) (run : Run Value) : Run Value :=
  if (Protocol.receiver args).typeKey = .builtin kind then run
  else Run.raise (.internal "a receiver of another kind")

def meddled : World :=
  { World.blank with
    dispatcher := (Dispatcher.initial
      ⟨#[⟨some "Moody", [("__eq__", .native 1 "moody" [])]⟩], [], true⟩ {} {} false).perform
        Kind.hasSlot (.openSite (.compare .eq)) }

/-- A site compares two lists and then two tuples. The elements are of the class, so that everything
is invalidated and no longer limited while slots of both kinds are running. -/
theorem never_internal_meddled :
    let h := meddling.hooks report 9
    let moody (id : Nat) : Value := .object id 0 .none
    let w := { meddled with store :=
      ((meddled.store.addList (.ofArray #[moody 2])).2.addList (.ofArray #[moody 3])).2 }
    let w₁ := (Script.runSite h 0 [.list ⟨0⟩, .list ⟨1⟩] w).2
    EndsSoundly (Script.runSite h 0 [.tuple 4 [moody 2], .tuple 5 [moody 3]] w₁) ∧
      w₁.dispatcher.policy.recursionLimit = none ∧ w₁.dispatcher.version = 3 := by
  intro h moody w w₁
  have quiet : meddling.Quiet := ⟨fun _ _ _ _ _ _ => nofun, fun _ _ _ _ _ => nofun⟩
  have transparent : Transparent report := fun _ _ _ _ receives => if_pos receives.receiver
  have reached : w.dispatcher.Reached :=
    (Dispatcher.Reached.initial _ {} {} false).perform (.openSite (.compare .eq))
  have first := (never_internal quiet transparent 9 reached [.list ⟨0⟩, .list ⟨1⟩]).2 0
    (by decide +kernel)
  refine ⟨(never_internal quiet transparent 9 first.dispatcher _).2 0 ?_, ?_, ?_⟩
  all_goals decide +kernel

end UserCode

end DynamicObjects

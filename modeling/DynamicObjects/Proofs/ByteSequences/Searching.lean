import DynamicObjects.Slots
import DynamicObjects.Proofs.Runs
import DynamicObjects.Proofs.Bytes.Windows

/-!
The methods of byte strings and byte arrays that search. Each takes the bytes of its receiver, a needle or
affixes, and up to two bounds, and answers what the search in the window between these bounds finds. The
state stays as it was.
-/
namespace DynamicObjects

/-- A method of a value ends so, and leaves the state as it was. -/
def MethodEnds (h : Hooks) (w : World) (v : Value) (name : String) (args : List Value) (outcome : Outcome Value) :
    Prop :=
  ∃ method, v.kind.slot? (.invokeMember name) = some method ∧ method h (v :: args) w = (outcome, w)

/-- A bound as an argument, where `None` stands for no bound. -/
def Value.bound : Option Int64 → Value
  | .none => .none
  | some n => .int n

/-- The arguments behind the needle; bounds may be left out from the end. -/
inductive BoundArguments : List Value → Option Int64 → Option Int64 → Prop
  | none : BoundArguments [] none none
  | start (start : Option Int64) : BoundArguments [.bound start] start none
  | both (start stop : Option Int64) : BoundArguments [.bound start, .bound stop] start stop

/-- The affixes of one argument: those of a tuple, or one. -/
inductive AffixArgument (s : Store) : Value → List Bytes → Prop
  | one {v : Value} {affix : Bytes} (same : s.bytesLike? v = some affix) : AffixArgument s v [affix]
  | tuple {id : Identity} {items : List Value} {affixes : List Bytes}
    (same : List.Forall₂ (fun v affix => s.bytesLike? v = some affix) items affixes) :
    AffixArgument s (.tuple id items) affixes

section Methods

variable {h : Hooks} {w : World} {v sub : Value} {data needle : Bytes} {args : List Value}
  {start stop : Option Int64} {name : String}

theorem optionalIndex_bound (bound : Option Int64) :
    Arguments.optionalIndex (some (.bound bound)) = .ok (bound.map Int64.toInt) := by
  cases bound <;> rfl

theorem BoundArguments.split (bounds : BoundArguments args start stop) (name : String) (sub : Value) :
    ∃ a b, Arguments.oneToThree name (sub :: args) = .ok (sub, a, b) ∧
      Arguments.optionalIndex a = .ok (start.map Int64.toInt) ∧
      Arguments.optionalIndex b = .ok (stop.map Int64.toInt) := by
  cases bounds with
  | none => exact ⟨_, _, rfl, rfl, rfl⟩
  | start => exact ⟨_, _, rfl, optionalIndex_bound start, rfl⟩
  | both => exact ⟨_, _, rfl, optionalIndex_bound start, optionalIndex_bound stop⟩

namespace ByteSequence

theorem exists_kind (bytes : w.store.bytesLike? v = some data) : ∃ q : ByteSequence, v.kind = q.kind := by
  cases v <;> simp only [Store.bytesLike?, reduceCtorEq] at bytes
  case bytes => exact ⟨.string, rfl⟩
  case byteArray => exact ⟨.array, rfl⟩

theorem slot_apply {q : ByteSequence} (kind : v.kind = q.kind) (bytes : w.store.bytesLike? v = some data)
    (body : Bytes → List Value → Run Value) : q.slot body (v :: args) w = body data args w := by
  have received : q.receive (v :: args) = .ok (v, args) := if_pos kind
  rw [slot, received]
  show body ((w.store.bytesLike? v).getD []) args w = _
  rw [bytes]
  rfl

theorem searchArguments_apply (found : needleOf sub w = (.ok needle, w))
    (bounds : BoundArguments args start stop) :
    searchArguments data name (sub :: args) w =
      (.ok (needle, searchRange (start.map Int64.toInt) (stop.map Int64.toInt) data.length), w) := by
  obtain ⟨a, b, split, first, last⟩ := bounds.split name sub
  rw [searchArguments, split]
  refine (Run.bind_ok found).trans ?_
  rw [first, last]
  rfl

theorem bytesLike?_apply (bytes : w.store.bytesLike? v = some data) :
    bytesLike? v w = (.ok (some data), w) := by
  rw [← bytes]
  rfl

theorem expectBytesLike_apply {affix : Bytes} (same : w.store.bytesLike? v = some affix) :
    expectBytesLike v w = (.ok affix, w) :=
  Run.bind_ok (bytesLike?_apply same)

theorem mapM_expectBytesLike {items : List Value} {affixes : List Bytes}
    (same : List.Forall₂ (fun v affix => w.store.bytesLike? v = some affix) items affixes) :
    items.mapM expectBytesLike w = (.ok affixes, w) := by
  induction same with
  | nil => rfl
  | cons first _ ih =>
    rw [List.mapM_cons]
    refine (Run.bind_ok (expectBytesLike_apply first)).trans ((Run.bind_ok ih).trans rfl)

theorem affixMethod_apply {q : ByteSequence} {test : Bytes → Bytes → Nat → Nat → Bool} {affixes : List Bytes}
    (kind : v.kind = q.kind) (bytes : w.store.bytesLike? v = some data)
    (given : AffixArgument w.store sub affixes) (bounds : BoundArguments args start stop) :
    affixMethod name test q h (v :: sub :: args) w =
      (.ok (.bool (affixes.any fun affix =>
        let (lo, hi) := searchRange (start.map Int64.toInt) (stop.map Int64.toInt) data.length
        test data affix lo hi)), w) := by
  refine (slot_apply kind bytes _).trans ?_
  obtain ⟨a, b, split, first, last⟩ := bounds.split name sub
  rw [split]
  cases given with
  | tuple same =>
    refine (Run.bind_ok (mapM_expectBytesLike same)).trans ?_
    rw [first, last]
    rfl
  | one same =>
    cases sub <;> simp only [Store.bytesLike?, reduceCtorEq] at same
    all_goals
      cases same
      show (Run.ofExcept (Arguments.optionalIndex a) >>= _) w = _
      rw [first, last]
      rfl

theorem findMethod_apply {q : ByteSequence} (search : Bytes → Bytes → Nat → Nat → Option Nat)
    (kind : v.kind = q.kind) (bytes : w.store.bytesLike? v = some data)
    (given : needleOf sub w = (.ok needle, w)) (bounds : BoundArguments args start stop) :
    findMethod name search q h (v :: sub :: args) w =
      (.ok (position
        (let (lo, hi) := searchRange (start.map Int64.toInt) (stop.map Int64.toInt) data.length
        search data needle lo hi)), w) :=
  (slot_apply kind bytes _).trans (Run.bind_ok (searchArguments_apply given bounds))

/-- How a search ends that fails if there is nothing to find. -/
def indexOutcome : Option Nat → Outcome Value
  | some i => .ok (.ofNat i)
  | none => .error .subsectionNotFound

theorem indexMethod_apply {q : ByteSequence} (search : Bytes → Bytes → Nat → Nat → Option Nat)
    (kind : v.kind = q.kind) (bytes : w.store.bytesLike? v = some data)
    (given : needleOf sub w = (.ok needle, w)) (bounds : BoundArguments args start stop) :
    indexMethod name search q h (v :: sub :: args) w =
      (indexOutcome
        (let (lo, hi) := searchRange (start.map Int64.toInt) (stop.map Int64.toInt) data.length
        search data needle lo hi), w) := by
  refine (slot_apply kind bytes _).trans ((Run.bind_ok (searchArguments_apply given bounds)).trans ?_)
  unfold indexOutcome
  dsimp only
  split
  next i found => simp only [found]; rfl
  next missing => simp only [missing]; rfl

theorem countMethod_apply {q : ByteSequence} (kind : v.kind = q.kind)
    (bytes : w.store.bytesLike? v = some data) (given : needleOf sub w = (.ok needle, w))
    (bounds : BoundArguments args start stop) :
    countMethod q h (v :: sub :: args) w =
      (.ok (.ofNat
        (let (lo, hi) := searchRange (start.map Int64.toInt) (stop.map Int64.toInt) data.length
        data.count needle lo hi)), w) :=
  (slot_apply kind bytes _).trans (Run.bind_ok (searchArguments_apply given bounds))

end ByteSequence

/-- Two methods tell what a search has found: one gives -1 and the other fails when that is nothing. -/
structure Tells (h : Hooks) (w : World) (v : Value) (name indexName : String) (args : List Value)
    (found : Option Nat) : Prop where
  place : ∃ n : Int64, MethodEnds h w v name args (.ok (.int n)) ∧ n.toInt = (found.map Int.ofNat).getD (-1)
  index : ∀ i, found = some i → ∃ n : Int64, MethodEnds h w v indexName args (.ok (.int n)) ∧ n.toInt = i
  missing : found = none → MethodEnds h w v indexName args (.error .subsectionNotFound)

/-- What the methods of a receiver answer about bytes, with what is searched for and the bounds as arguments. -/
structure SearchMethods (h : Hooks) (w : World) (v sub : Value) (bounds : List Value) (data : Bytes)
    (range : Nat × Nat) : Prop where
  find : ∀ needle, ByteSequence.needleOf sub w = (.ok needle, w) →
    Tells h w v "find" "index" (sub :: bounds) (data.find needle range.1 range.2) ∧
      Tells h w v "rfind" "rindex" (sub :: bounds) (data.rfind needle range.1 range.2) ∧
      MethodEnds h w v "count" (sub :: bounds) (.ok (.ofNat (data.count needle range.1 range.2)))
  affix : ∀ affixes, AffixArgument w.store sub affixes →
    MethodEnds h w v "startswith" (sub :: bounds)
        (.ok (.bool (affixes.any fun affix => data.startsWith affix range.1 range.2))) ∧
      MethodEnds h w v "endswith" (sub :: bounds)
        (.ok (.bool (affixes.any fun affix => data.endsWith affix range.1 range.2)))

theorem toInt_ofSize {n : Nat} (fits : (n : Int) ≤ Word.greatest) : (Word.ofSize n).toInt = n := by
  have word : Word.Fits n := ⟨by unfold Word.least; omega, fits⟩
  rw [Word.ofSize, Word.ofInt?_of_fits word, Option.getD_some, Word.toInt_ofInt word]

theorem tells {name indexName : String} {found : Option Nat} {args : List Value}
    (bounded : ∀ i, found = some i → (i : Int) ≤ Word.greatest)
    (place : MethodEnds h w v name args (.ok (ByteSequence.position found)))
    (index : MethodEnds h w v indexName args (ByteSequence.indexOutcome found)) :
    Tells h w v name indexName args found := by
  cases found with
  | none => exact ⟨⟨-1, place, by decide⟩, nofun, fun _ => index⟩
  | some i =>
    have exact := toInt_ofSize (bounded i rfl)
    exact ⟨⟨_, place, exact⟩, fun j same => Option.some.inj same ▸ ⟨_, index, exact⟩, nofun⟩

theorem searchMethods {bounds : List Value} (h : Hooks) (fits : (data.length : Int) ≤ Word.greatest)
    (bytes : w.store.bytesLike? v = some data) (given : BoundArguments bounds start stop) :
    SearchMethods h w v sub bounds data
      (ByteSequence.searchRange (start.map Int64.toInt) (stop.map Int64.toInt) data.length) := by
  obtain ⟨q, kind⟩ := ByteSequence.exists_kind bytes
  constructor
  case find =>
    intro needle sought
    have searched : Bytes.Searched data needle (Bytes.windowStart start data.length)
        (Bytes.windowStop stop data.length) _ := Bytes.searched fits
    have inside : Bytes.windowStop stop data.length ≤ data.length := Nat.min_le_left _ _
    refine ⟨tells (fun i found => ?_) ?_ ?_, tells (fun i found => ?_) ?_ ?_, ?_⟩
    · have there := (searched.find.least_iff.mp found).1.2.1
      omega
    · exact ⟨ByteSequence.findMethod "find" Bytes.find q, by rw [kind]; cases q <;> rfl,
        ByteSequence.findMethod_apply _ kind bytes sought given⟩
    · exact ⟨ByteSequence.indexMethod "index" Bytes.find q, by rw [kind]; cases q <;> rfl,
        ByteSequence.indexMethod_apply _ kind bytes sought given⟩
    · have there := (searched.rfind.greatest_iff.mp found).1.2.1
      omega
    · exact ⟨ByteSequence.findMethod "rfind" Bytes.rfind q, by rw [kind]; cases q <;> rfl,
        ByteSequence.findMethod_apply _ kind bytes sought given⟩
    · exact ⟨ByteSequence.indexMethod "rindex" Bytes.rfind q, by rw [kind]; cases q <;> rfl,
        ByteSequence.indexMethod_apply _ kind bytes sought given⟩
    · exact ⟨ByteSequence.countMethod q, by rw [kind]; cases q <;> rfl,
        ByteSequence.countMethod_apply kind bytes sought given⟩
  case affix =>
    intro affixes affix
    exact ⟨⟨_, by rw [kind]; cases q <;> rfl, ByteSequence.affixMethod_apply kind bytes affix given⟩,
      ⟨_, by rw [kind]; cases q <;> rfl, ByteSequence.affixMethod_apply kind bytes affix given⟩⟩

end Methods

/-- Between optional bounds, every search answers about the places in the window at which the needle
stands, as it does on the slice with these bounds by itself, and the methods answer what the searches do. -/
theorem searches_in_window (data needle : Bytes) (start stop : Option Int64)
    (fits : (data.length : Int) ≤ Word.greatest) :
    let lo := Bytes.windowStart start data.length
    let hi := Bytes.windowStop stop data.length
    let range := ByteSequence.searchRange (start.map Int64.toInt) (stop.map Int64.toInt) data.length
    Bytes.Searched data needle lo hi range ∧
      (lo ≤ hi → ∃ p, (⟨start, stop, none⟩ : Slice).indices data.length = .ok p ∧
        Bytes.Sliced data needle (Buffer.select data.toArray p) lo hi range) ∧
      ∀ h w v sub bounds, w.store.bytesLike? v = some data → BoundArguments bounds start stop →
        SearchMethods h w v sub bounds data range := by
  intro lo hi range
  refine ⟨Bytes.searched fits, fun ordered => ?_, fun h w v sub bounds bytes given => ?_⟩
  · obtain ⟨p, resolved, selected⟩ := Bytes.select_window fits ordered
    exact ⟨p, resolved, selected ▸ Bytes.sliced fits ordered⟩
  · exact searchMethods h fits bytes given

/-- The needle stands at the front too, but the window begins one place behind it. -/
theorem searches_in_window_straddled :
    ((List.length [97, 98, 97, 98, 97] : Nat) : Int) ≤ Word.greatest ∧
      Bytes.Searched [97, 98, 97, 98, 97] [97, 98, 97] 1 5 (1, 5) ∧
      Bytes.find [97, 98, 97, 98, 97] [97, 98, 97] 1 5 = some 2 ∧
      ∀ h w, SearchMethods h w (.bytes 257 [97, 98, 97, 98, 97]) (.bytes 258 [97, 98, 97])
        [.int (-4), .int 9] [97, 98, 97, 98, 97] (1, 5) := by
  obtain ⟨searched, -, methods⟩ :=
    searches_in_window [97, 98, 97, 98, 97] [97, 98, 97] (some (-4)) (some 9) (by decide)
  exact ⟨by decide, searched, by decide, fun h w => methods h w _ _ _ rfl (.both (some (-4)) (some 9))⟩

end DynamicObjects

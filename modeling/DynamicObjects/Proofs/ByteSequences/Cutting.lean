import DynamicObjects.Proofs.Bytes.Cutting
import DynamicObjects.Proofs.ByteSequences.Searching
import DynamicObjects.Proofs.Slices.Sequences

/-!
The methods that cut, join and replace. Cutting makes a list of new values of the kind of the receiver, and
a separator that joins such a list makes what had been cut.
-/
namespace DynamicObjects

namespace Bytes

variable {data sep : Bytes}

/-- With the separator between them the parts are the data, and there is one more of them than cuts. -/
structure Parted (data sep : Bytes) (cuts : Nat) (parts : List Bytes) : Prop where
  joined : join sep parts = data
  length : parts.length = cuts + 1

/-- Counting, cutting and replacing go through the data from one match to the next; the limit of the last two
is a size. -/
structure Looped (data sep : Bytes) (most : Int) : Prop where
  count : data.count sep 0 data.length = countLoop sep data 0
  split : data.split (some sep) most = .ok (splitLoop data sep (sizeLimit most) 0)
  rsplit : data.rsplit (some sep) most = .ok (rsplitLoop data sep (sizeLimit most) data.length).reverse
  replace : ∀ new, data.replace sep new most = replaceLoop data sep new (sizeLimit most) 0

theorem count_all (needle data : Bytes) : data.count needle 0 data.length = countIn needle data := by
  rw [count, if_pos ((validWindow_iff (Nat.le_refl _)).mpr (Nat.zero_le _)), window_all]

theorem split_eq (nonempty : sep ≠ []) (data : Bytes) (most : Int) :
    data.split (some sep) most = .ok (cutLeft sep (limit most data.length) data) := by
  simp [split, nonempty]

theorem rsplit_eq (nonempty : sep ≠ []) (data : Bytes) (most : Int) :
    data.rsplit (some sep) most = .ok (cutRight sep (limit most data.length) data).reverse := by
  simp [rsplit, nonempty]

theorem replace_eq (nonempty : sep ≠ []) (data new : Bytes) (most : Int) :
    data.replace sep new most = replaceFrom sep new (limit most data.length) data := by
  simp [replace, nonempty]

theorem parted_cutLeft (nonempty : sep ≠ []) (data : Bytes) (most : Int) :
    Parted data sep (taken most (data.count sep 0 data.length)) (cutLeft sep (limit most data.length) data) where
  joined := join_cutLeft sep _ data
  length := by rw [length_cutLeft nonempty, count_all, min_limit most (countIn_le sep data)]

theorem parted_cutRight (nonempty : sep ≠ []) (data : Bytes) (most : Int) :
    Parted data sep (taken most (data.count sep 0 data.length))
      (cutRight sep (limit most data.length) data).reverse where
  joined := join_cutRight sep _ data
  length := by
    rw [List.length_reverse, length_cutRight nonempty, count_all, min_limit most (countIn_le sep data)]

theorem length_replace (data old new : Bytes) (most : Int) :
    ((data.replace old new most).length : Int) =
      data.length + taken most (data.count old 0 data.length) * ((new.length : Int) - old.length) := by
  rw [count_all, ← min_limit most (countIn_le old data)]
  by_cases empty : old = []
  · subst empty
    simp [replace, length_interleave, countIn]
  · rw [replace_eq empty, length_replaceFrom empty]

theorem cutLeft_sizeLimit (nonempty : sep ≠ []) (fits : (data.length : Int) ≤ Word.greatest) (most : Int) :
    cutLeft sep (sizeLimit most) data = cutLeft sep (limit most data.length) data := by
  have few := countIn_le sep data
  have fewer : countIn sep data ≤ Word.sizeMax := by unfold Word.greatest Word.sizeMax at *; omega
  rw [← cutLeft_min nonempty, ← cutLeft_min nonempty (limit _ _), min_sizeLimit most fewer, min_limit most few]

theorem looped (nonempty : sep ≠ []) (fits : (data.length : Int) ≤ Word.greatest) (most : Int) :
    Looped data sep most where
  count := by rw [count_all, countIn_eq nonempty, countLoop_eq nonempty, List.drop_zero]
  split := by
    rw [split_eq nonempty, splitLoop_eq (Nat.zero_le _), List.drop_zero, cutLeft_sizeLimit nonempty fits]
  rsplit := by
    have backwards : cutLeft sep.reverse (sizeLimit most) data.reverse =
        cutLeft sep.reverse (limit most data.reverse.length) data.reverse :=
      cutLeft_sizeLimit (by simpa using nonempty) (by simpa using fits) most
    rw [rsplit_eq nonempty, rsplitLoop_eq (Nat.le_refl _), List.take_length, cutRight, cutRight, backwards,
      List.length_reverse]
  replace new := by
    rw [replace_eq nonempty, replaceLoop_eq (Nat.zero_le _), List.drop_zero, replaceFrom_eq, replaceFrom_eq,
      cutLeft_sizeLimit nonempty fits]

theorem replace_empty (fits : (data.length : Int) ≤ Word.greatest) (new : Bytes) (most : Int) :
    data.replace [] new most = interleave new (sizeLimit most) data := by
  have fewer : data.length + 1 ≤ Word.sizeMax := by unfold Word.greatest Word.sizeMax at *; omega
  show interleave new (limit most data.length) data = _
  rw [← interleave_min, ← interleave_min new (sizeLimit most), min_sizeLimit most fewer,
    min_limit most (Nat.le_refl _)]

end Bytes

/-- Stepped again and again, the iterator yields these values and then ends, and the state stays as it is. -/
inductive Iterator.Yields (h : Hooks) (w : World) : Iterator → List Value → Prop
  | nil {it it' : Iterator} (ended : Protocol.step h it w = (.ok (.ok none, it'), w)) : Yields h w it []
  | cons {it it' : Iterator} {v : Value} {values : List Value}
    (next : Protocol.step h it w = (.ok (.ok (some v), it'), w)) (rest : Yields h w it' values) :
    Yields h w it (v :: values)

namespace Iterator

variable {h : Hooks} {w : World} {it : Iterator} {values : List Value}

theorem Yields.search {α β : Type} {f : α → Value → Run α} {g : α → β → α} {parts : List β}
    (yields : Yields h w it values)
    (body : List.Forall₂ (fun v part => ∀ a, f a v w = (.ok (g a part), w)) values parts)
    {fuel : Nat} (fits : parts.length < fuel) (a : α) :
    Protocol.search h (β := Empty) (fun a v => return .inl (← f a v)) fuel a it w =
      (.ok (.inl (parts.foldl g a)), w) := by
  -- each value takes one of the rounds, and one more is needed to see the end
  induction yields generalizing parts fuel a with
  | nil ended =>
    cases body
    cases fuel with
    | zero => cases fits
    | succ fuel => exact (Run.bind_ok ended).trans rfl
  | @cons it it' v values next rest ih =>
    cases body with
    | @cons _ part _ parts first others =>
      cases fuel with
      | zero => cases fits
      | succ fuel =>
        refine (Run.bind_ok next).trans ((Run.bind_ok rfl).trans ?_)
        have fed : (return .inl (← f a v) : Run (α ⊕ Empty)) w = (.ok (.inl (g a part)), w) :=
          Run.bind_ok (first a)
        exact (Run.bind_ok fed).trans (ih others (Nat.lt_of_succ_lt_succ fits) _)

theorem Yields.fold {α β : Type} {f : α → Value → Run α} {g : α → β → α} {parts : List β}
    (yields : Yields h w it values)
    (body : List.Forall₂ (fun v part => ∀ a, f a v w = (.ok (g a part), w)) values parts)
    (fits : parts.length < h.fuel) (a : α) : Protocol.fold h f a it w = (.ok (parts.foldl g a), w) :=
  (Run.bind_ok (yields.search body fits a)).trans rfl

theorem yields_list {r : ListRef} {o : ListObject} (live : w.list? r = some o) (cursor : Nat) :
    Yields h w (.list r cursor) (o.buffer.toList.drop cursor) := by
  generalize rest : o.buffer.toList.drop cursor = values
  have here : o.buffer.items[cursor]? = values.head? := by
    rw [← rest, List.head?_drop, Buffer.toList, Array.getElem?_toList]
  induction values generalizing cursor with
  | nil =>
    have ended : Protocol.step h (.list r cursor) w = (.ok (.ok none, .list r cursor), w) := by
      simp only [Protocol.step, Run.readStore, Run.read, World.list_of_list? live, here, List.head?_nil]
    exact .nil ended
  | cons v values ih =>
    have after : o.buffer.toList.drop (cursor + 1) = values := by rw [← List.tail_drop, rest, List.tail_cons]
    refine .cons ?_ (ih (cursor + 1) after ?_)
    · simp only [Protocol.step, Run.readStore, Run.read, World.list_of_list? live, here, List.head?_cons]
    · rw [← after, List.head?_drop, Buffer.toList, Array.getElem?_toList]

end Iterator

namespace Store

variable {s s' : Store} {kind : Kind} {values : List Value} {parts : List Bytes}

def Hold (s : Store) (kind : Kind) : List Value → List Bytes → Prop :=
  List.Forall₂ fun v part => v.kind = kind ∧ s.items? v = some (.bytes part)

theorem Retains.hold (h : s.Retains s') (held : s.Hold kind values parts) : s'.Hold kind values parts :=
  held.imp fun _ _ ⟨same, holds⟩ => ⟨same, h.items? holds⟩

end Store

namespace ByteSequence

variable {h : Hooks} {w : World} {v u : Value} {data sep : Bytes} {values : List Value} {parts : List Bytes}
  {most : Int64} {limit : List Value} {q : ByteSequence}

theorem make_makes (q : ByteSequence) (data : Bytes) : Run.Makes q.kind (.bytes data) (q.make data) := by
  cases q with
  | string => exact Run.newBytes_makes data
  | array => exact Run.newByteArray_makes (Buffer.ofArray data.toArray)

theorem mapM_make_apply (q : ByteSequence) (parts : List Bytes) (w : World) :
    ∃ values w', parts.mapM q.make w = (.ok values, w') ∧ w'.store.Hold q.kind values parts ∧
      w.store.Retains w'.store := by
  induction parts generalizing w with
  | nil => exact ⟨[], w, rfl, .nil, .refl _⟩
  | cons part parts ih =>
    obtain ⟨v, w₁, made, of_kind, holds, retains⟩ := make_makes q part w
    obtain ⟨values, w₂, rest, held, retains'⟩ := ih w₁
    -- making the others leaves the first as it is
    refine ⟨v :: values, w₂, ?_, .cons ⟨of_kind, retains'.items? holds⟩ held, retains.trans retains'⟩
    rw [List.mapM_cons]
    exact (Run.bind_ok made).trans ((Run.bind_ok rest).trans rfl)

theorem listOf_apply (q : ByteSequence) (parts : List Bytes) (w : World) :
    ∃ list values w', q.listOf parts w = (.ok list, w') ∧ list.kind = .list ∧
      w'.store.items? list = some (.values values) ∧ w'.store.Hold q.kind values parts ∧
      w.store.Retains w'.store := by
  obtain ⟨values, w₁, made, held, retains⟩ := mapM_make_apply q parts w
  obtain ⟨list, w₂, listed, of_kind, holds, retains'⟩ := Run.newList_makes (Buffer.ofArray values.toArray) w₁
  exact ⟨list, values, w₂, (Run.bind_ok made).trans listed, of_kind, holds, retains'.hold held,
    retains.trans retains'⟩

end ByteSequence

/-- A limit as the last argument, which may be left out. -/
inductive LimitArgument : Int64 → List Value → Prop
  | none : LimitArgument (-1) []
  | some (most : Int64) : LimitArgument most [.int most]

namespace ByteSequence

theorem splitMethod_apply {name : String} {cut : Bytes → Option Bytes → Int → Except Error (List Bytes)}
    (kind : v.kind = q.kind) (bytes : w.store.bytesLike? v = some data)
    (separator : w.store.bytesLike? u = some sep) (limited : LimitArgument most limit)
    (done : cut data (some sep) most.toInt = .ok parts) :
    splitMethod name cut q h (v :: u :: limit) w = q.listOf parts w := by
  refine (slot_apply kind bytes _).trans ?_
  have given : splitArguments name (u :: limit) w = (.ok (some sep, most.toInt), w) := by
    cases u <;> simp only [Store.bytesLike?, reduceCtorEq] at separator
    all_goals
      cases separator
      cases limited <;> rfl
  refine (Run.bind_ok given).trans ?_
  show (Run.ofExcept (cut data (some sep) most.toInt) >>= _) w = _
  rw [done]
  rfl

theorem replaceMethod_apply {old new : Value} {this that : Bytes} (kind : v.kind = q.kind)
    (bytes : w.store.bytesLike? v = some data) (replaced : w.store.bytesLike? old = some this)
    (replacement : w.store.bytesLike? new = some that) (limited : LimitArgument most limit) :
    replaceMethod q h (v :: old :: new :: limit) w = q.make (data.replace this that most.toInt) w := by
  refine (slot_apply kind bytes _).trans ?_
  have ran (most : Int) : (do
      let this ← expectBytesLike old
      let that ← expectBytesLike new
      q.make (data.replace this that most)) w = q.make (data.replace this that most) w :=
    (Run.bind_ok (expectBytesLike_apply replaced)).trans (Run.bind_ok (expectBytesLike_apply replacement))
  cases limited with
  | none => exact ran (-1)
  | some => exact ran most.toInt

theorem joinPart_apply {part : Bytes} (same : w.store.bytesLike? v = some part) (index : Nat) :
    joinPart index v w = (.ok part, w) :=
  Run.bind_ok (bytesLike?_apply same)

theorem foldl_collect (parts collected : List Bytes) (count : Nat) :
    parts.foldl (fun acc part => (acc.1 + 1, part :: acc.2)) (count, collected) =
      (count + parts.length, parts.reverse ++ collected) := by
  induction parts generalizing count collected with
  | nil => rfl
  | cons part parts ih => simp [ih, Nat.add_comm, Nat.add_left_comm]

theorem joinMethod_apply {list : Value} {kind' : Kind} (kind : u.kind = q.kind)
    (separator : w.store.bytesLike? u = some sep) (of_kind : list.kind = .list)
    (holds : w.store.items? list = some (.values values)) (held : w.store.Hold kind' values parts)
    (fits : parts.length < h.fuel) :
    joinMethod q h [u, list] w = q.make (Bytes.join sep parts) w := by
  refine (slot_apply kind separator _).trans ?_
  cases list <;> cases of_kind
  case list r =>
    obtain ⟨o, live, same⟩ := Option.map_eq_some_iff.mp holds
    obtain rfl : o.buffer.toList = values := Items.values.inj same
    have yields : Iterator.Yields h w (.ofList r) o.buffer.toList := Iterator.yields_list live 0
    have body : List.Forall₂ (fun v part => ∀ acc : Nat × List Bytes,
        (do return (acc.1 + 1, (← joinPart acc.1 v) :: acc.2) : Run (Nat × List Bytes)) w =
          (.ok (acc.1 + 1, part :: acc.2), w)) o.buffer.toList parts :=
      held.imp fun _ _ ⟨_, holds⟩ acc => Run.bind_ok (joinPart_apply (Store.bytesLike?_of_items? holds) acc.1)
    have folded := yields.fold body fits (0, [])
    rw [foldl_collect, List.append_nil] at folded
    refine (Run.bind_ok folded).trans ?_
    dsimp only
    rw [List.reverse_reverse]

end ByteSequence

section Methods

variable {h : Hooks} {w : World} {v u : Value} {data sep : Bytes} {parts : List Bytes} {most : Int64}
  {limit : List Value} {name : String}

/-- A method makes a new list of values that hold the parts, and the separator joins the list to the data if
loops may go round often enough. Whatever was there is still there. -/
def CutsAndJoins (h : Hooks) (w : World) (v u : Value) (name : String) (limit : List Value) (data : Bytes)
    (parts : List Bytes) : Prop :=
  ∃ cut join list values w₁, v.kind.slot? (.invokeMember name) = some cut ∧
    u.kind.slot? (.invokeMember "join") = some join ∧
    cut h (v :: u :: limit) w = (.ok list, w₁) ∧ list.kind = .list ∧ w.store.Retains w₁.store ∧
    w₁.store.items? list = some (.values values) ∧ w₁.store.Hold v.kind values parts ∧
    (parts.length < h.fuel → ∃ joined w₂, join h [u, list] w₁ = (.ok joined, w₂) ∧ joined.kind = u.kind ∧
      w₂.store.items? joined = some (.bytes data) ∧ w₁.store.Retains w₂.store)

def MakesBytes (h : Hooks) (w : World) (v : Value) (name : String) (args : List Value) (data : Bytes) : Prop :=
  ∃ method made w', v.kind.slot? (.invokeMember name) = some method ∧
    method h (v :: args) w = (.ok made, w') ∧ made.kind = v.kind ∧
    w'.store.items? made = some (.bytes data) ∧ w.store.Retains w'.store

theorem cutsAndJoins {cut : Bytes → Option Bytes → Int → Except Error (List Bytes)}
    (slot : ∀ q : ByteSequence, q.kind.slot? (.invokeMember name) = some (ByteSequence.splitMethod name cut q))
    (holds : w.store.items? v = some (.bytes data)) (separator : w.store.items? u = some (.bytes sep))
    (limited : LimitArgument most limit) (done : cut data (some sep) most.toInt = .ok parts)
    (joined : Bytes.join sep parts = data) : CutsAndJoins h w v u name limit data parts := by
  have bytes := Store.bytesLike?_of_items? holds
  have bytes' := Store.bytesLike?_of_items? separator
  obtain ⟨q, kind⟩ := ByteSequence.exists_kind bytes
  obtain ⟨q', kind'⟩ := ByteSequence.exists_kind bytes'
  obtain ⟨list, values, w₁, made, of_kind, listed, held, retains⟩ := q.listOf_apply parts w
  have ran : ByteSequence.splitMethod name cut q h (v :: u :: limit) w = q.listOf parts w :=
    ByteSequence.splitMethod_apply kind bytes bytes' limited done
  have separator₁ := Store.bytesLike?_of_items? (retains.items? separator)
  refine ⟨_, q'.joinMethod, list, values, w₁, kind ▸ slot q, by rw [kind']; cases q' <;> rfl, ran.trans made,
    of_kind, retains, listed, kind ▸ held, fun fits => ?_⟩
  obtain ⟨v', w₂, remade, of_kind', holds', retains'⟩ := q'.make_makes (Bytes.join sep parts) w₁
  have rejoined := ByteSequence.joinMethod_apply kind' separator₁ of_kind listed held fits
  exact ⟨v', w₂, rejoined.trans remade, of_kind'.trans kind'.symm, joined ▸ holds', retains'⟩

theorem replace_makesBytes {old new : Value} {this that : Bytes} (holds : w.store.items? v = some (.bytes data))
    (replaced : w.store.bytesLike? old = some this) (replacement : w.store.bytesLike? new = some that)
    (limited : LimitArgument most limit) :
    MakesBytes h w v "replace" (old :: new :: limit) (data.replace this that most.toInt) := by
  have bytes := Store.bytesLike?_of_items? holds
  obtain ⟨q, kind⟩ := ByteSequence.exists_kind bytes
  obtain ⟨made, w', ran, of_kind, holds', retains⟩ := q.make_makes (data.replace this that most.toInt) w
  exact ⟨q.replaceMethod, made, w', by rw [kind]; cases q <;> rfl,
    (ByteSequence.replaceMethod_apply kind bytes replaced replacement limited).trans ran,
    of_kind.trans kind.symm, holds', retains⟩

end Methods

/-- What the methods make of values that hold the data and the separator. -/
structure CuttingMethods (h : Hooks) (w : World) (data sep : Bytes) (most : Int64)
    (parts backwards : List Bytes) : Prop where
  split : ∀ v u limit, w.store.items? v = some (.bytes data) → w.store.items? u = some (.bytes sep) →
    LimitArgument most limit → CutsAndJoins h w v u "split" limit data parts
  rsplit : ∀ v u limit, w.store.items? v = some (.bytes data) → w.store.items? u = some (.bytes sep) →
    LimitArgument most limit → CutsAndJoins h w v u "rsplit" limit data backwards
  replace : ∀ v old new this that limit, w.store.items? v = some (.bytes data) →
    w.store.bytesLike? old = some this → w.store.bytesLike? new = some that → LimitArgument most limit →
    MakesBytes h w v "replace" (old :: new :: limit) (data.replace this that most.toInt)

/-- Cut from the left or from the right, data give the same number of parts, one more than there are cuts, and
joined with the separator the parts are the data again. With something else between them they are what a
replacement makes, whose length changes by the same amount for each match. -/
theorem cutting_joins_again (data sep : Bytes) (nonempty : sep ≠ []) (most : Int64) :
    let cuts := fun old => Bytes.taken most.toInt (data.count old 0 data.length)
    (∃ parts backwards, data.split (some sep) most.toInt = .ok parts ∧
      data.rsplit (some sep) most.toInt = .ok backwards ∧ Bytes.Parted data sep (cuts sep) parts ∧
      Bytes.Parted data sep (cuts sep) backwards ∧
      (∀ new, data.replace sep new most.toInt = Bytes.join new parts) ∧
      ∀ h w, CuttingMethods h w data sep most parts backwards) ∧
    (∀ old new, ((data.replace old new most.toInt).length : Int) =
      data.length + cuts old * ((new.length : Int) - old.length)) ∧
    data.count [] 0 data.length = data.length + 1 ∧
    ((data.length : Int) ≤ Word.greatest → Bytes.Looped data sep most.toInt ∧
      ∀ new, data.replace [] new most.toInt = Bytes.interleave new (Bytes.sizeLimit most.toInt) data) := by
  have cut := Bytes.parted_cutLeft nonempty data most.toInt
  have backwards := Bytes.parted_cutRight nonempty data most.toInt
  refine ⟨⟨_, _, Bytes.split_eq nonempty data _, Bytes.rsplit_eq nonempty data _, cut, backwards, fun new => ?_,
    fun h w => ?_⟩, fun old new => Bytes.length_replace data old new _, Bytes.count_all [] data,
    fun fits => ⟨Bytes.looped nonempty fits _, fun new => Bytes.replace_empty fits new _⟩⟩
  · rw [Bytes.replace_eq nonempty, Bytes.replaceFrom_eq]
  constructor
  case split =>
    exact fun v u limit holds separator limited => cutsAndJoins (fun q => by cases q <;> rfl) holds separator
      limited (Bytes.split_eq nonempty data _) cut.joined
  case rsplit =>
    exact fun v u limit holds separator limited => cutsAndJoins (fun q => by cases q <;> rfl) holds separator
      limited (Bytes.rsplit_eq nonempty data _) backwards.joined
  case replace =>
    exact fun v old new this that limit holds replaced replacement limited =>
      replace_makesBytes holds replaced replacement limited

/-- Matches overlap here, so the cuts from both ends are different ones, but as many. -/
theorem cutting_joins_again_overlapping :
    ([97, 97] : Bytes) ≠ [] ∧
      ∃ parts backwards, parts ≠ backwards ∧
        Bytes.Parted [97, 97, 97] [97, 97] 1 parts ∧ Bytes.Parted [97, 97, 97] [97, 97] 1 backwards ∧
        ∀ h w, CuttingMethods h w [97, 97, 97] [97, 97] (-1) parts backwards := by
  obtain ⟨⟨parts, backwards, split, rsplit, cut, uncut, -, methods⟩, -⟩ :=
    cutting_joins_again [97, 97, 97] [97, 97] (by decide) (-1)
  obtain rfl : [[], [97]] = parts := Except.ok.inj split
  obtain rfl : [[97], []] = backwards := Except.ok.inj rsplit
  exact ⟨by decide, _, _, by decide, cut, uncut, methods⟩

end DynamicObjects

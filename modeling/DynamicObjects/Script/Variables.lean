import DynamicObjects.Run

/-!
The names that a running program has given: variables, which belong to the innermost function call or
to the program, and iterators, prepared calls and call sites, which always belong to the program.
-/
namespace DynamicObjects.Script

def modifySession (f : Session → Session) : Run Unit :=
  Run.modify fun w => { w with session := f w.session }

def Session.find? (s : Session) (name : String) : Option Value :=
  ((s.frames.head?).bind (·.lookup name)).or (s.globals.lookup name)

def Session.setVariable (s : Session) (name : String) (v : Value) : Session :=
  match s.frames with
  | frame :: rest => { s with frames := assign name v frame :: rest }
  | [] => { s with globals := assign name v s.globals }

/-- The fault of a program that uses a name it has not given. -/
def unknownName {α : Type} (name : String) : Run α :=
  Run.raise (.internal ("unknown name " ++ name))

def readVariable (name : String) : Run Value := do
  match ← Run.read fun w => Session.find? w.session name with
  | some v => return v
  | none => unknownName name

def setVariable (name : String) (v : Value) : Run Unit :=
  modifySession fun s => Session.setVariable s name v

def argumentFrame (args : List Value) : List (String × Value) :=
  args.zipIdx.map fun (v, i) => (s!"a{i}", v)

def withFrame {α : Type} (args : List Value) (x : Run α) : Run α := do
  let callers ← Run.read fun w => w.session.frames
  modifySession fun s => { s with frames := argumentFrame args :: s.frames }
  x.andThen fun w => { w with session := { w.session with frames := callers } }

def iterator (name : String) : Run Iterator := do
  match ← Run.read fun w => w.session.iterators.lookup name with
  | some it => return it
  | none => unknownName name

def setIterator (name : String) (it : Iterator) : Run Unit :=
  modifySession fun s => { s with iterators := assign name it s.iterators }

def thunk (name : String) : Run Thunk := do
  match ← Run.read fun w => w.session.thunks.lookup name with
  | some t => return t
  | none => unknownName name

def setThunk (name : String) (t : Thunk) : Run Unit :=
  modifySession fun s => { s with thunks := assign name t s.thunks }

def site (name : String) : Run Nat := do
  match ← Run.read fun w => w.session.sites.lookup name with
  | some number => return number
  | none => unknownName name

def forgetSite (name : String) : Run Unit := do
  match ← Run.read fun w => w.session.sites.lookup name with
  | some number =>
    Run.modifyDispatcher (·.releaseSite number)
    modifySession fun s => { s with sites := s.sites.filter fun (key, _) => key != name }
  | none => return ()

def setSite (name : String) (number : Nat) : Run Unit := do
  forgetSite name
  modifySession fun s => { s with sites := assign name number s.sites }

/-- Looks a site up and holds on to it while `x` runs, whatever becomes of its name. -/
def withSite {α : Type} (name : String) (x : Nat → Run α) : Run α := do
  let number ← site name
  Run.modifyDispatcher (·.holdSite number)
  (x number).andThen fun w => { w with dispatcher := w.dispatcher.releaseSite number }

end DynamicObjects.Script

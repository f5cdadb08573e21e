import SymbolAtlas.Disk.Basic
import SymbolAtlas.Fault

/-! Work on files as a script: a tree of requests and what is to be done with each answer. A script
can be played on a `Disk`, request by request, and nothing in it depends on who plays it. A job is a
script that may fail: what the disk refuses is a fault of its own kind, while a missing file is left
to the caller, who knows what it means. -/
namespace SymbolAtlas

inductive Request where
  | read (path : String)
  | isDirectory (path : String)
  | write (path : String) (content : ByteArray)
  | rename (source target : String)
  /-- Waits until nobody holds the lock file, and holds it then. -/
  | lock (path : String)
  | unlock (path : String)

@[reducible] def Request.Answer : Request → Type
  | .read _ => Except DiskFault ByteArray
  | .isDirectory _ => Bool
  | .write _ _ => Except DiskFault Unit
  | .rename _ _ => Except DiskFault Unit
  | .lock _ => Except DiskFault Unit
  | .unlock _ => Unit

def Disk.settle (d : Disk) : Except DiskFault Disk → Except DiskFault Unit × Disk
  | .ok d => (.ok (), d)
  | .error fault => (.error fault, d)

/-- One request. There is no answer while a lock has to be waited for. -/
def Disk.answer (d : Disk) : (request : Request) → Option (request.Answer × Disk)
  | .read path => some (d.read path, d)
  | .isDirectory path => some (d.isDirectory path, d)
  | .write path content => some (d.settle (d.write path content))
  | .rename source target => some (d.settle (d.rename source target))
  | .lock path =>
    match d.tryLock path with
    | (.ok true, d) => some (.ok (), d)
    | (.ok false, _) => none
    | (.error fault, d) => some (.error fault, d)
  | .unlock path => some ((), d.unlock path)

inductive Script (α : Type) : Type where
  | done (result : α)
  | ask (request : Request) (next : request.Answer → Script α)

namespace Script

variable {α β : Type}

def andThen : Script α → (α → Script β) → Script β
  | done result, next => next result
  | ask request rest, next => ask request (fun answer => (rest answer).andThen next)

instance : Monad Script where
  pure := done
  bind := andThen

theorem andThen_done (s : Script α) : s.andThen done = s := by
  induction s with
  | done => rfl
  | ask request rest ih => simp only [andThen, ih]

theorem andThen_assoc {γ : Type} (s : Script α) (f : α → Script β) (g : β → Script γ) :
    (s.andThen f).andThen g = s.andThen (fun a => (f a).andThen g) := by
  induction s with
  | done => rfl
  | ask request rest ih => simp only [andThen, ih]

instance : LawfulMonad Script :=
  LawfulMonad.mk' Script andThen_done (fun _ _ => rfl) andThen_assoc

def request (r : Request) : Script r.Answer := ask r done

/-- The result of a script on a disk, and the disk it leaves. A script that waits for a lock
without end has none. -/
def play : Script α → Disk → Option (α × Disk)
  | done result, d => some (result, d)
  | ask request next, d =>
    match d.answer request with
    | some (answer, d) => (next answer).play d
    | none => none

theorem play_andThen (s : Script α) (next : α → Script β) (d : Disk) :
    (s.andThen next).play d = (s.play d).bind (fun r => (next r.1).play r.2) := by
  induction s generalizing d with
  | done => rfl
  | ask request rest ih =>
    simp only [andThen, play]
    cases d.answer request with
    | none => rfl
    | some r => exact ih r.1 r.2

end Script

abbrev Job := ExceptT Fault Script

namespace Job

variable {α : Type}

def request (r : Request) : Job r.Answer := ExceptT.lift (Script.request r)

def play (job : Job α) (d : Disk) : Option (Except Fault α × Disk) := Script.play job d

def ofExcept (result : Except Fault α) : Job α := ExceptT.mk (pure result)

/-- A change that must succeed. -/
def demand : Except DiskFault α → Job α
  | .ok a => pure a
  | .error .missing => throw (.io "no such file or directory")
  | .error (.refused detail) => throw (.io detail)

def write (path : String) (content : ByteArray) : Job Unit := do
  demand (← request (.write path content))

def rename (source target : String) : Job Unit := do
  demand (← request (.rename source target))

def decode (content : ByteArray) : Job String :=
  match String.fromUTF8? content with
  | some text => pure text
  | none => throw (.io "not valid UTF-8")

/-- The content of a file, if it exists. -/
def readBytes? (path : String) : Job (Option ByteArray) := do
  match ← request (.read path) with
  | .error .missing => return none
  | answer => return some (← demand answer)

def readText? (path : String) : Job (Option String) := do
  match ← readBytes? path with
  | some content => return some (← decode content)
  | none => return none

/-- Holds a lock from before the job starts until it has ended or failed. -/
def holding (path : String) (job : Job α) : Job α := do
  demand (← request (.lock path))
  let result ← ExceptT.lift (ExceptT.run job)
  request (.unlock path)
  ofExcept result

end Job

end SymbolAtlas

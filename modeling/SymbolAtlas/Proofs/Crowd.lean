import SymbolAtlas.Proofs.Looking

/-! Scripts side by side on one disk. Any process may make its next request at any time, unless it
has ended or its request is for a lock that somebody holds; a schedule says who is next, request by
request. What a disk answers depends on nothing but the disk, so a process that is the only one to
change anything from some moment on goes on as if it were alone. -/
namespace SymbolAtlas

def Request.locks : Request → Bool
  | .lock _ => true
  | _ => false

def Request.grants : (request : Request) → request.Answer → Bool
  | .lock _, .ok () => true
  | _, _ => false

theorem Request.grants_of_locks {request : Request} (other : request.locks = false)
    (answer : request.Answer) : request.grants answer = false := by
  cases request with
  | lock path => cases other
  | _ => rfl

theorem Request.locks_of_looks {request : Request} (looks : request.looks = true) :
    request.locks = false := by
  cases request with
  | lock path => cases looks
  | _ => rfl

def Script.isDone : Script α → Bool
  | done _ => true
  | ask _ _ => false

/-- What processes have still to do on a disk, and who was granted a lock, in that order. -/
structure Crowd where
  disk : Disk
  scripts : List (Script (Except Fault Report))
  granted : List Nat

namespace Crowd

def start (commands : List (Instant × Command)) (d : Disk) : Crowd :=
  ⟨d, commands.map (fun c => ExceptT.run (c.2.run c.1)), []⟩

/-- One request of one process. There is none if the process has ended or has to wait. -/
def step (crowd : Crowd) (i : Nat) : Option Crowd :=
  match crowd.scripts[i]? with
  | some (.ask request next) =>
    (crowd.disk.answer request).map (fun (answer, disk) =>
      ⟨disk, crowd.scripts.set i (next answer),
        if request.grants answer then crowd.granted ++ [i] else crowd.granted⟩)
  | _ => none

/-- The processes take turns in the order of a schedule. -/
def run (crowd : Crowd) (schedule : List Nat) : Option Crowd := schedule.foldlM step crowd

def Finished (crowd : Crowd) : Prop := ∀ script ∈ crowd.scripts, ∃ outcome, script = .done outcome

def unfinished (crowd : Crowd) : Nat := crowd.scripts.countP (fun script => !script.isDone)

theorem step_eq_some_iff {crowd later : Crowd} {i : Nat} :
    crowd.step i = some later ↔ ∃ request next answer disk,
      crowd.scripts[i]? = some (.ask request next) ∧
      crowd.disk.answer request = some (answer, disk) ∧
      later = ⟨disk, crowd.scripts.set i (next answer),
        if request.grants answer then crowd.granted ++ [i] else crowd.granted⟩ := by
  unfold step
  constructor
  · intro stepped
    split at stepped
    case h_1 request next asks =>
      obtain ⟨⟨answer, disk⟩, answered, rfl⟩ := Option.map_eq_some_iff.mp stepped
      exact ⟨request, next, answer, disk, asks, answered, rfl⟩
    case h_2 => cases stepped
  · rintro ⟨request, next, answer, disk, asks, answered, rfl⟩
    rw [asks]
    dsimp only
    rw [answered]
    rfl

theorem run_append (crowd : Crowd) (earlier later : List Nat) :
    crowd.run (earlier ++ later) = (crowd.run earlier).bind (·.run later) :=
  List.foldlM_append

theorem run_concat (crowd : Crowd) (schedule : List Nat) (i : Nat) :
    crowd.run (schedule ++ [i]) = (crowd.run schedule).bind (·.step i) := by
  rw [run_append]
  refine Option.bind_congr (fun moment _ => ?_)
  simp [run]

theorem finished_iff {crowd : Crowd} : crowd.Finished ↔ crowd.unfinished = 0 := by
  rw [unfinished, List.countP_eq_zero]
  refine forall₂_congr (fun script _ => ?_)
  cases script <;> simp [Script.isDone]

theorem Finished.isDone {crowd : Crowd} (finished : crowd.Finished) {i : Nat}
    {script : Script (Except Fault Report)} (here : crowd.scripts[i]? = some script) :
    script.isDone = true := by
  obtain ⟨outcome, rfl⟩ := finished script (List.mem_of_getElem? here)
  rfl

theorem unfinished_lt {crowd later : Crowd} {i : Nat} {script : Script (Except Fault Report)}
    (here : crowd.scripts[i]? = some script) (unfinished : script.isDone = false)
    {outcome : Except Fault Report}
    (scripts : later.scripts = crowd.scripts.set i (.done outcome)) :
    later.unfinished < crowd.unfinished := by
  obtain ⟨inside, same⟩ := List.getElem?_eq_some_iff.mp here
  have counted : 0 < crowd.scripts.countP (fun script => !script.isDone) :=
    List.countP_pos_iff.mpr ⟨script, List.mem_of_getElem? here, by simp [unfinished]⟩
  rw [Crowd.unfinished, Crowd.unfinished, scripts, List.countP_set inside, same, unfinished]
  change _ - 1 + 0 < _
  omega

theorem exists_run_of_play {crowd : Crowd} {i : Nat} {script : Script (Except Fault Report)}
    (asks : crowd.scripts[i]? = some script) {outcome : Except Fault Report} {e : Disk}
    (ended : script.play crowd.disk = some (outcome, e)) :
    ∃ schedule granted, crowd.run schedule =
      some ⟨e, crowd.scripts.set i (.done outcome), granted⟩ := by
  induction script generalizing crowd with
  | done =>
    cases ended
    obtain ⟨inside, here⟩ := List.getElem?_eq_some_iff.mp asks
    refine ⟨[], crowd.granted, ?_⟩
    rw [← here, List.set_getElem_self]
    rfl
  | ask request next ih =>
    rw [Script.play] at ended
    split at ended
    case h_1 answer disk answered =>
      let later : Crowd := ⟨disk, crowd.scripts.set i (next answer),
        if request.grants answer then crowd.granted ++ [i] else crowd.granted⟩
      have stepped : crowd.step i = some later :=
        step_eq_some_iff.mpr ⟨request, next, answer, disk, asks, answered, rfl⟩
      have inside : i < crowd.scripts.length := (List.getElem?_eq_some_iff.mp asks).1
      have asks' : later.scripts[i]? = some (next answer) := List.getElem?_set_self inside
      obtain ⟨schedule, granted, ran⟩ := ih answer asks' ended
      refine ⟨i :: schedule, granted, ?_⟩
      rw [run, List.foldlM_cons, stepped]
      simpa [run, later] using ran
    case h_2 => cases ended

end Crowd

namespace Script

variable {α β : Type} {holds : Disk → Request → Prop}

/-- What holds of every request that a script makes when it is played on a disk, and of the disk
then. -/
def During (holds : Disk → Request → Prop) : Script α → Disk → Prop
  | done _, _ => True
  | ask request next, d =>
    holds d request ∧ ∀ answer e, d.answer request = some (answer, e) → (next answer).During holds e

theorem During.andThen {s : Script α} {next : α → Script β} {d : Disk} (during : s.During holds d)
    (later : ∀ a e, s.play d = some (a, e) → (next a).During holds e) :
    (s.andThen next).During holds d := by
  induction s generalizing d with
  | done result => exact later result d rfl
  | ask request rest ih =>
    refine ⟨during.1, fun answer e answered => ih answer (during.2 answer e answered) ?_⟩
    exact fun a f ended => later a f (by rw [play, answered]; exact ended)

theorem Looks.during {s : Script α} (looks : s.Looks) {d : Disk}
    (free : ∀ request : Request, request.looks = true → holds d request) : s.During holds d := by
  induction s with
  | done result => trivial
  | ask request rest ih =>
    refine ⟨free request looks.1, fun answer e answered => ?_⟩
    obtain ⟨_, answered'⟩ := d.answer_of_looks looks.1
    cases answered.symm.trans answered'
    exact ih answer (looks.2 answer)

end Script

namespace Job

variable {α β : Type} {holds : Disk → Request → Prop}

def During (holds : Disk → Request → Prop) (job : Job α) (d : Disk) : Prop :=
  Script.During holds job d

theorem During.bind {job : Job α} {next : α → Job β} {d : Disk} (during : job.During holds d)
    (later : ∀ a e, job.play d = some (.ok a, e) → (next a).During holds e) :
    (job >>= next).During holds d :=
  Script.During.andThen during (fun result e ended => match result with
    | .ok a => later a e ended
    | .error _ => trivial)

theorem Looks.stays {job : Job α} (looks : job.Looks) {d e : Disk} {result : Except Fault α}
    (played : job.play d = some (result, e)) : d = e := by
  obtain ⟨_, played'⟩ := looks.play d
  cases played.symm.trans played'
  rfl

theorem Looks.during {job : Job α} (looks : job.Looks) {d : Disk}
    (free : ∀ request : Request, request.looks = true → holds d request) :
    job.During holds d :=
  Script.Looks.during looks free

end Job

end SymbolAtlas

import SymbolAtlas.Bundle.Basic
import SymbolAtlas.Command.Run
import SymbolAtlas.Proofs.DirectoryTree

/-! Jobs that only look. Whatever a disk answers them, they leave it as it is and come to an end; so
their results are facts about the disk. Opening bundles and name lists, settings and the store is
of this kind. -/
namespace SymbolAtlas

/-- Nothing can change by such a request, and nobody has to be waited for. -/
def Request.looks : Request → Bool
  | .read _ => true
  | .isDirectory _ => true
  | _ => false

theorem Disk.answer_of_looks (d : Disk) {request : Request} (looks : request.looks = true) :
    ∃ answer, d.answer request = some (answer, d) := by
  cases request with
  | read path => exact ⟨_, rfl⟩
  | isDirectory path => exact ⟨_, rfl⟩
  | _ => cases looks

namespace Script

variable {α β : Type}

/-- All requests only look, whatever the answers to the earlier ones. -/
def Looks : Script α → Prop
  | done _ => True
  | ask request next => request.looks = true ∧ ∀ answer, (next answer).Looks

theorem Looks.andThen {s : Script α} {next : α → Script β} (looks : s.Looks)
    (later : ∀ a, (next a).Looks) : (s.andThen next).Looks := by
  induction s with
  | done result => exact later result
  | ask request rest ih => exact ⟨looks.1, fun answer => ih answer (looks.2 answer)⟩

theorem Looks.play {s : Script α} (looks : s.Looks) (d : Disk) :
    ∃ result, s.play d = some (result, d) := by
  induction s with
  | done result => exact ⟨result, rfl⟩
  | ask request rest ih =>
    obtain ⟨answer, answered⟩ := d.answer_of_looks looks.1
    obtain ⟨result, played⟩ := ih answer (looks.2 answer)
    exact ⟨result, by rw [Script.play, answered, ← played]⟩

end Script

namespace Job

variable {α β : Type}

/-! ### Playing -/

@[simp] theorem play_pure (a : α) (d : Disk) : (pure a : Job α).play d = some (.ok a, d) := rfl

@[simp] theorem play_ofExcept (result : Except Fault α) (d : Disk) :
    (ofExcept result).play d = some (result, d) := rfl

theorem play_request {r : Request} {d e : Disk} {answer : r.Answer}
    (answered : d.answer r = some (answer, e)) : (request r).play d = some (.ok answer, e) := by
  change (Script.ask r (fun answer => .done (Except.ok answer))).play d = _
  rw [Script.play, answered]
  rfl

theorem play_attempt (job : Job α) (d : Disk) :
    (ExceptT.lift (ExceptT.run job) : Job (Except Fault α)).play d =
      (job.play d).map (fun ending => (.ok ending.1, ending.2)) := by
  refine (Script.play_andThen job _ d).trans ?_
  rw [play]
  cases Script.play job d <;> rfl

theorem play_bind (job : Job α) (next : α → Job β) (d : Disk) :
    (job >>= next).play d =
      match job.play d with
      | some (.ok a, e) => (next a).play e
      | some (.error fault, e) => some (.error fault, e)
      | none => none := by
  refine (Script.play_andThen job _ d).trans ?_
  rw [play]
  cases Script.play job d with
  | none => rfl
  | some ending =>
    obtain ⟨result, e⟩ := ending
    cases result <;> rfl

theorem play_bind_ok {job : Job α} {next : α → Job β} {d e : Disk} {a : α}
    (played : job.play d = some (.ok a, e)) : (job >>= next).play d = (next a).play e := by
  rw [play_bind, played]

theorem play_bind_error {job : Job α} {next : α → Job β} {d e : Disk} {fault : Fault}
    (played : job.play d = some (.error fault, e)) :
    (job >>= next).play d = some (.error fault, e) := by
  rw [play_bind, played]

theorem play_bind_eq_ok {job : Job α} {next : α → Job β} {d f : Disk} {b : β}
    (played : (job >>= next).play d = some (.ok b, f)) :
    ∃ a e, job.play d = some (.ok a, e) ∧ (next a).play e = some (.ok b, f) := by
  rw [play_bind] at played
  split at played
  case h_1 a e first => exact ⟨a, e, first, played⟩
  case h_2 => cases played
  case h_3 => cases played

/-! ### Looking -/

def Looks (job : Job α) : Prop := Script.Looks job

theorem looks_pure (a : α) : (pure a : Job α).Looks := trivial

theorem looks_throw (fault : Fault) : (throw fault : Job α).Looks := trivial

theorem looks_ofExcept (result : Except Fault α) : (ofExcept result).Looks := trivial

theorem Looks.bind {job : Job α} {next : α → Job β} (looks : job.Looks)
    (later : ∀ a, (next a).Looks) : (job >>= next).Looks :=
  Script.Looks.andThen looks (fun result => match result with
    | .ok a => later a
    | .error _ => trivial)

theorem Looks.play {job : Job α} (looks : job.Looks) (d : Disk) :
    ∃ result, job.play d = some (result, d) :=
  Script.Looks.play looks d

theorem looks_request {r : Request} (looks : r.looks = true) : (request r).Looks :=
  ⟨looks, fun _ => trivial⟩

theorem looks_decode (content : ByteArray) : (decode content).Looks := by
  unfold decode
  split
  · exact looks_pure _
  · exact looks_throw _

theorem looks_demand (result : Except DiskFault α) : (demand result).Looks := by
  unfold demand
  split
  · exact looks_pure _
  · exact looks_throw _
  · exact looks_throw _

theorem looks_readBytes? (path : String) : (readBytes? path).Looks :=
  (looks_request (r := .read path) rfl).bind (fun answer => by
    split
    · exact looks_pure _
    · exact (looks_demand _).bind (fun _ => looks_pure _))

theorem looks_readText? (path : String) : (readText? path).Looks :=
  (looks_readBytes? path).bind (fun content => by
    split
    · exact (looks_decode _).bind (fun _ => looks_pure _)
    · exact looks_pure _)

end Job

namespace Source

theorem looks_openAt (path : String) : (openAt path).Looks := by
  refine (Job.looks_request (r := .isDirectory path) rfl).bind (fun answer => ?_)
  split
  · exact Job.looks_pure _
  · refine (Job.looks_readBytes? path).bind (fun content => ?_)
    split
    · exact Job.looks_throw _
    · split
      · exact Job.looks_pure _
      · exact Job.looks_throw _

theorem looks_readText? (source : Source) (name : String) : (source.readText? name).Looks := by
  cases source with
  | directory root => exact Job.looks_readText? _
  | archive files =>
    refine (Job.looks_ofExcept _).bind (fun content => ?_)
    split
    · exact (Job.looks_decode _).bind (fun _ => Job.looks_pure _)
    · exact Job.looks_pure _

theorem looks_readFirst? (source : Source) (names : List String) :
    (source.readFirst? names).Looks := by
  induction names with
  | nil => exact Job.looks_pure _
  | cons name names ih =>
    refine (source.looks_readText? name).bind (fun text => ?_)
    split
    · exact Job.looks_pure _
    · exact ih

end Source

theorem MappingBundle.looks_load (path : String) : (load path).Looks := by
  refine (Source.looks_openAt path).bind (fun source => ?_)
  refine (source.looks_readFirst? _).bind (fun joined => ?_)
  split
  · exact Job.looks_throw _
  · refine (source.looks_readFirst? _).bind (fun constructors => ?_)
    exact (source.looks_readFirst? _).bind (fun statics => Job.looks_pure _)

theorem NameExport.looks_load (path : String) : (load path).Looks := by
  have rows (source : Source) (name : String) : (loadRows source name).Looks := by
    refine (source.looks_readText? name).bind (fun text => ?_)
    split
    · exact Job.looks_ofExcept _
    · exact Job.looks_pure _
  refine (Source.looks_openAt path).bind (fun source => ?_)
  refine (rows source _).bind (fun fields => ?_)
  refine (rows source _).bind (fun methods => ?_)
  exact (rows source _).bind (fun params => Job.looks_pure _)

namespace Disk

def text? (d : Disk) (path : String) : Except Fault (Option String) :=
  match d.read path with
  | .error .missing => .ok none
  | .error (.refused detail) => .error (.io detail)
  | .ok content =>
    match String.fromUTF8? content with
    | some text => .ok (some text)
    | none => .error (.io "not valid UTF-8")

def settings (d : Disk) : Except Fault Settings := do
  match ← d.text? (Path.join Workspace.root settingsFile) with
  | some text => Settings.parse Workspace.root text
  | none => return .defaults Workspace.root

def store (d : Disk) (database : String) : Except Fault Store := do
  match ← d.text? database with
  | some text => Store.parse text
  | none => return .empty

theorem play_readText? (d : Disk) (path : String) :
    (Job.readText? path).play d = some (d.text? path, d) := by
  have asked : (Job.request (.read path)).play d = some (.ok (d.read path), d) := rfl
  rw [Job.readText?, Job.readBytes?, Job.play_bind, Job.play_bind_ok asked, text?]
  match d.read path with
  | .error .missing => rfl
  | .error (.refused detail) => rfl
  | .ok content =>
    dsimp only
    rw [Job.demand, pure_bind]
    rw [Job.play_pure]
    dsimp only
    rw [Job.decode]
    cases String.fromUTF8? content <;> rfl

theorem play_loadSettings (d : Disk) : Workspace.loadSettings.play d = some (d.settings, d) := by
  rw [Workspace.loadSettings, Job.play_bind, play_readText?, settings]
  match d.text? (Path.join Workspace.root settingsFile) with
  | .error fault => rfl
  | .ok none => rfl
  | .ok (some text) => rfl

theorem play_openStore (d : Disk) (database : String) :
    (Workspace.openStore database).play d = some (d.store database, d) := by
  rw [Workspace.openStore, Job.play_bind, play_readText?, store]
  match d.text? database with
  | .error fault => rfl
  | .ok none => rfl
  | .ok (some text) => rfl

end Disk

/-! ### The store in a file -/

/-- The store as the content of its file. Without a file it is empty. -/
inductive Store.Filed : Option ByteArray → Store → Prop
  | absent : Filed none .empty
  | text {text : String} {s : Store} (read : parse text = .ok s) : Filed (some text.toUTF8) s

theorem toUTF8_of_fromUTF8? {content : ByteArray} {text : String}
    (decoded : String.fromUTF8? content = some text) : text.toUTF8 = content := by
  unfold String.fromUTF8? at decoded
  split at decoded
  · cases decoded
    rfl
  · cases decoded

theorem fromUTF8?_toUTF8 (text : String) : String.fromUTF8? text.toUTF8 = some text := by
  unfold String.fromUTF8?
  rw [String.toUTF8_eq_toByteArray, dif_pos text.isValidUTF8]
  rfl

theorem Store.parse_of_filed {text : String} {s : Store} (filed : Filed (some text.toUTF8) s) :
    parse text = .ok s := by
  generalize found : some text.toUTF8 = content at filed
  cases filed with
  | absent => cases found
  | text read =>
    have same := congrArg (fun content => content.bind String.fromUTF8?) found
    simp only [Option.bind_some, fromUTF8?_toUTF8, Option.some.injEq] at same
    rw [same, read]

namespace Disk

variable {d : Disk} {database : String}

theorem text?_of_content? {path text : String} (content : d.content? path = some text.toUTF8) :
    d.text? path = .ok (some text) := by
  have read : d.read path = .ok text.toUTF8 := by
    rw [content?] at content
    cases read : d.read path with
    | error fault =>
      rw [read] at content
      cases content
    | ok found =>
      rw [read] at content
      rw [Option.some.inj content]
  rw [text?, read]
  dsimp only
  rw [fromUTF8?_toUTF8]

theorem content?_of_text? {path : String} {found : Option String}
    (text : d.text? path = .ok found) : d.content? path = found.map String.toUTF8 := by
  unfold text? at text
  rw [content?]
  split at text
  case h_1 missing =>
    cases text
    rw [missing]
    rfl
  case h_2 => cases text
  case h_3 content read =>
    split at text
    case h_1 decoded =>
      cases text
      rw [read, ← toUTF8_of_fromUTF8? decoded]
      rfl
    case h_2 => cases text

theorem text?_of_no_content {path : String} (nothing : d.content? path = none) :
    d.text? path = .ok none ∨ ∃ detail, d.text? path = .error (.io detail) := by
  rw [content?] at nothing
  rw [text?]
  cases read : d.read path with
  | error fault =>
    cases fault with
    | missing => exact .inl rfl
    | refused detail => exact .inr ⟨detail, rfl⟩
  | ok content =>
    rw [read] at nothing
    cases nothing

theorem filed_of_store {s : Store} (read : d.store database = .ok s) :
    Store.Filed (d.content? database) s := by
  obtain ⟨found, text, read⟩ := bind_eq_ok.mp read
  rw [content?_of_text? text]
  cases found with
  | none =>
    cases read
    exact .absent
  | some text => exact .text read

theorem store_of_filed_at {s : Store} {place : Location} (led : d.locate database = .ok place)
    (plain : d.entryAt? place ≠ some .directory) (filed : Store.Filed (d.content? database) s) :
    d.store database = .ok s := by
  generalize found : d.content? database = content at filed
  cases filed with
  | text read => exact bind_eq_ok.mpr ⟨_, text?_of_content? found, read⟩
  | absent =>
    have missing : d.read database = .error .missing := by
      refine bind_eq_error.mpr (.inr ⟨place, led, ?_⟩)
      cases stands : d.entryAt? place with
      | none => rfl
      | some entry =>
        cases entry with
        | directory => exact absurd stands plain
        | file content =>
          cases found.symm.trans (content?_eq_some_iff.mpr ⟨place, led, stands⟩)
    exact bind_eq_ok.mpr ⟨none, by rw [text?, missing], rfl⟩

/-- The store in a file is read from there, unless the file cannot be used. -/
theorem store_of_filed {s : Store} (filed : Store.Filed (d.content? database) s) :
    d.store database = .ok s ∨ ∃ detail, d.store database = .error (.io detail) := by
  generalize found : d.content? database = content at filed
  cases filed with
  | absent =>
    rcases text?_of_no_content found with text | ⟨detail, refused⟩
    · exact .inl (bind_eq_ok.mpr ⟨none, text, rfl⟩)
    · exact .inr ⟨detail, bind_eq_error.mpr (.inl refused)⟩
  | text read => exact .inl (bind_eq_ok.mpr ⟨_, text?_of_content? found, read⟩)

end Disk

/-- A question is answered from the store and leaves the disk as it is. -/
theorem Question.play_run (question : Question) (json : Bool) (d : Disk) :
    (question.run json).play d =
      some (d.settings >>= fun settings => d.store settings.database >>= fun s =>
        question.answer s json, d) := by
  rw [Question.run, Job.play_bind, d.play_loadSettings]
  cases d.settings with
  | error fault => rfl
  | ok settings =>
    dsimp only
    rw [Job.play_bind, d.play_openStore]
    cases known : d.store settings.database with
    | error fault => simp [bind, Except.bind, known]
    | ok s => simp [bind, Except.bind, known]

end SymbolAtlas

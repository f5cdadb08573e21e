import SymbolAtlas.Disk.Basic
import SymbolAtlas.Fault
import SymbolAtlas.Settings.Token
import SymbolAtlas.Text.Line

/-! Settings of a working directory: who acts by default, who holds the elevated permission, where
the store is and how much is logged. A line sets one of four keys, each at most once; a text with
anything else is refused as a whole. -/
namespace SymbolAtlas

structure Settings where
  /-- Acts when a command names nobody. -/
  actor : Option String
  admins : List String
  /-- Path of the store. -/
  database : String
  /-- What to log. -/
  log : String
  deriving DecidableEq, Repr

namespace Settings

structure Draft where
  actor : Option String
  admins : Option (List String)
  database : Option String
  log : Option String
  deriving DecidableEq, Repr

namespace Draft

def blank : Draft := ⟨none, none, none, none⟩

def setText (d : Draft) (key value : String) : Option Draft :=
  if key = "actor" && d.actor.isNone then some { d with actor := some value }
  else if key = "database" && d.database.isNone then some { d with database := some value }
  else if key = "log" && d.log.isNone then some { d with log := some value }
  else none

def setList (d : Draft) (key : String) (values : List String) : Option Draft :=
  if key = "admins" && d.admins.isNone then some { d with admins := some values } else none

end Draft

inductive Mode where
  /-- A key, or the end of an empty line. -/
  | key
  | equals (key : String)
  | value (key : String)
  /-- A text of a list or the list's end; the texts so far are last first. -/
  | item (key : String) (values : List String)
  /-- A comma or the list's end. -/
  | separator (key : String) (values : List String)
  | lineEnd
  deriving DecidableEq, Repr

structure Machine where
  draft : Draft
  mode : Mode
  deriving DecidableEq, Repr

namespace Machine

def start : Machine := ⟨.blank, .key⟩

/-- Line ends are free inside a list and nowhere else within a setting. -/
def step (m : Machine) (token : Token) : Option Machine :=
  match m.mode, token with
  | .key, .lineEnd => some m
  | .key, .word key => some ⟨m.draft, .equals key⟩
  | .key, .quoted key false => some ⟨m.draft, .equals key⟩
  | .equals key, .equals => some ⟨m.draft, .value key⟩
  | .value key, .quoted text _ => (m.draft.setText key text).map (⟨·, .lineEnd⟩)
  | .value key, .opening => some ⟨m.draft, .item key []⟩
  | .item _ _, .lineEnd => some m
  | .item key values, .quoted text _ => some ⟨m.draft, .separator key (text :: values)⟩
  | .item key values, .closing => (m.draft.setList key values.reverse).map (⟨·, .lineEnd⟩)
  | .separator _ _, .lineEnd => some m
  | .separator key values, .comma => some ⟨m.draft, .item key values⟩
  | .separator key values, .closing => (m.draft.setList key values.reverse).map (⟨·, .lineEnd⟩)
  | .lineEnd, .lineEnd => some ⟨m.draft, .key⟩
  | _, _ => none

/-- A text may end wherever a line may. -/
def result? (m : Machine) : Option Draft :=
  match m.mode with
  | .key => some m.draft
  | .lineEnd => some m.draft
  | _ => none

end Machine

/-- Every line end as a single line feed. -/
def unifyLineEnds : List Char → List Char
  | [] => []
  | '\r' :: '\n' :: rest => '\n' :: unifyLineEnds rest
  | c :: rest => c :: unifyLineEnds rest

def dropMark : List Char → List Char
  | '\uFEFF' :: rest => rest
  | s => s

def draft? (text : String) : Option Draft := do
  let tokens ← tokens? (unifyLineEnds (dropMark text.toList))
  let m ← tokens.foldlM Machine.step .start
  m.result?

/-- A relative store path is seen from `root`. -/
def ofDraft (root : String) (d : Draft) : Settings :=
  ⟨d.actor, d.admins.getD [], Path.join root (d.database.getD "srgmap.json"),
    d.log.getD "warn"⟩

def defaults (root : String) : Settings := ofDraft root .blank

def parse (root text : String) : Except Fault Settings :=
  match draft? text with
  | some d => .ok (ofDraft root d)
  | none => .error (.settings "expected lines that set `actor`, `admins`, `database` or `log`")

/-- The given name or else the default one. A blank name is none. -/
def actorFor (s : Settings) (given : Option String) : Except Fault String :=
  match given.or s.actor with
  | some name => if Text.allBlank name.toList then .error .unauthenticated else .ok name
  | none => .error .unauthenticated

def isAdmin (s : Settings) (name : String) : Bool := s.admins.contains name

end Settings

end SymbolAtlas

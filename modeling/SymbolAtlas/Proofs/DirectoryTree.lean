import Mathlib.Data.List.Induction
import SymbolAtlas.Disk.Basic
import SymbolAtlas.Proofs.Fallible

/-! Where paths lead on a disk, and what can change that. Only directories are walked through, so a
file that comes or goes moves no other file. Directories that are made where nothing stood leave a
path where it led; but a path that steps back out of a directory may have led nowhere before. -/
namespace SymbolAtlas

namespace Path

theorem names_append (path : String) {ending : String} (single : '/' ∉ ending.toList) :
    ∃ first last, names path = first ++ [last] ∧
      names (path ++ ending) = first ++ [last ++ ending] := by
  have cutAt {before after : List Char} (none : '/' ∉ after) :
      (before ++ '/' :: after).splitOn '/' = before.splitOn '/' ++ [after] := by
    rw [Text.splitOn_append_cons, Text.splitOn_of_free none]
  have ended {part : List Char} (none : '/' ∉ part) : '/' ∉ part ++ ending.toList := by
    simp [none, single]
  have spelled (part : List Char) :
      String.ofList (part ++ ending.toList) = String.ofList part ++ ending := by
    rw [String.ofList_append, String.ofList_toList]
  cases cut : Text.cutLast? '/' path.toList with
  | none =>
    have none := Text.cutLast?_eq_none_iff.mp cut
    refine ⟨[], path, ?_, ?_⟩
    · rw [names, Text.splitOn_of_free none, List.map_singleton, String.ofList_toList, List.nil_append]
    · rw [names, String.toList_append, Text.splitOn_of_free (ended none), List.map_singleton,
        spelled, String.ofList_toList, List.nil_append]
  | some parts =>
    obtain ⟨before, after⟩ := parts
    obtain ⟨whole, none⟩ := Text.cutLast?_eq_some_iff.mp cut
    refine ⟨(before.splitOn '/').map String.ofList, String.ofList after, ?_, ?_⟩
    · rw [names, whole, cutAt none, List.map_append, List.map_singleton]
    · rw [names, String.toList_append, whole, List.append_assoc, List.cons_append,
        cutAt (ended none), List.map_append, List.map_singleton, spelled]

end Path

namespace Disk

variable {d e : Disk}

theorem entryAt?_top (d : Disk) : d.entryAt? [] = some .directory := rfl

theorem entryAt?_insert (d : Disk) (place other : Location) (entry : Entry) :
    { d with entries := d.entries.insert place entry }.entryAt? other =
      if other = [] then some .directory
      else if other = place then some entry else d.entryAt? other := by
  unfold entryAt?
  by_cases top : other = []
  · rw [if_pos top, if_pos top]
  · rw [if_neg top, if_neg top, if_neg top, Table.get?_insert]

theorem entryAt?_insert_of_ne {place other : Location} (apart : other ≠ place) (entry : Entry) :
    { d with entries := d.entries.insert place entry }.entryAt? other = d.entryAt? other := by
  rw [entryAt?_insert, if_neg apart]
  split
  case isTrue top => rw [top, entryAt?_top]
  case isFalse => rfl

theorem entryAt?_erase (d : Disk) (place other : Location) :
    { d with entries := d.entries.erase place }.entryAt? other =
      if other = [] then some .directory
      else if other = place then none else d.entryAt? other := by
  unfold entryAt?
  by_cases top : other = []
  · rw [if_pos top, if_pos top]
  · rw [if_neg top, if_neg top, if_neg top, Table.get?_erase]

theorem entryAt?_erase_of_ne {place other : Location} (apart : other ≠ place) :
    { d with entries := d.entries.erase place }.entryAt? other = d.entryAt? other := by
  rw [entryAt?_erase, if_neg apart]
  split
  case isTrue top => rw [top, entryAt?_top]
  case isFalse => rfl

/-! ### Walks -/

/-- Wherever there are more directories, a walk arrives at the same place. -/
theorem walk_mono (more : ∀ place, d.entryAt? place = some .directory →
      e.entryAt? place = some .directory) {start place : Location} {names : List String}
    (arrives : d.walk start names = .ok place) : e.walk start names = .ok place := by
  induction names generalizing start with
  | nil => exact arrives
  | cons name names ih =>
    unfold walk at arrives ⊢
    split at arrives
    case h_1 directory =>
      rw [more start directory]
      dsimp only
      split at arrives
      · cases arrives
      case isFalse fits =>
        rw [if_neg fits]
        exact ih arrives
    case h_2 => cases arrives
    case h_3 => cases arrives

theorem walk_append {start place : Location} {names more : List String} :
    d.walk start (names ++ more) = .ok place ↔
      ∃ between, d.walk start names = .ok between ∧ d.walk between more = .ok place := by
  induction names generalizing start with
  | nil => simp [walk]
  | cons name names ih =>
    rw [List.cons_append, walk, walk]
    split
    · split
      · simp
      · exact ih
    · simp
    · simp

theorem walk_single {start place : Location} {name : String} :
    d.walk start [name] = .ok place ↔
      d.entryAt? start = some .directory ∧ isTooLong name = false ∧ further start name = place := by
  rw [walk]
  split
  case h_1 directory => cases isTooLong name <;> simp [walk, directory]
  case h_2 file => simp [file]
  case h_3 nothing => simp [nothing]

theorem origin_eq (here : e.here = d.here) (path : String) : e.origin path = d.origin path := by
  rw [origin, origin, here]

theorem locate_eq_ok_iff {path : String} {place : Location} :
    d.locate path = .ok place ↔
      path ≠ "" ∧ isPath path = true ∧ d.walk (d.origin path) (Path.names path) = .ok place := by
  unfold locate
  split
  case isTrue empty =>
    rw [String.isEmpty_iff] at empty
    simp [empty]
  case isFalse text =>
    rw [String.isEmpty_iff] at text
    cases isPath path <;> simp [text]

theorem locate_mono (here : e.here = d.here)
    (more : ∀ place, d.entryAt? place = some .directory → e.entryAt? place = some .directory)
    {path : String} {place : Location} (led : d.locate path = .ok place) :
    e.locate path = .ok place := by
  rw [locate_eq_ok_iff] at led ⊢
  obtain ⟨text, fits, arrives⟩ := led
  rw [origin_eq here]
  exact ⟨text, fits, walk_mono more arrives⟩

/-! ### Files -/

/-- The content of the file that a path leads to, if it leads to one. -/
def content? (d : Disk) (path : String) : Option ByteArray := (d.read path).toOption

theorem read_eq_ok_iff {path : String} {content : ByteArray} :
    d.read path = .ok content ↔
      ∃ place, d.locate path = .ok place ∧ d.entryAt? place = some (.file content) := by
  rw [read, bind_eq_ok]
  refine exists_congr (fun place => and_congr_right (fun _ => ?_))
  cases d.entryAt? place with
  | none => simp
  | some entry => cases entry <;> simp

theorem content?_eq_some_iff {path : String} {content : ByteArray} :
    d.content? path = some content ↔
      ∃ place, d.locate path = .ok place ∧ d.entryAt? place = some (.file content) := by
  rw [← read_eq_ok_iff, content?]
  cases d.read path <;> simp [Except.toOption]

/-- The same directories, and the same files but for those at some places. -/
structure Touched (places : List Location) (d e : Disk) : Prop where
  here : e.here = d.here
  directory : ∀ place, e.entryAt? place = some .directory ↔ d.entryAt? place = some .directory
  others : ∀ place ∉ places, e.entryAt? place = d.entryAt? place

namespace Touched

variable {places : List Location}

theorem refl (places : List Location) (d : Disk) : Touched places d d :=
  ⟨rfl, fun _ => Iff.rfl, fun _ _ => rfl⟩

theorem symm (touched : Touched places d e) : Touched places e d where
  here := touched.here.symm
  directory place := (touched.directory place).symm
  others place other := (touched.others place other).symm

theorem trans {f : Disk} (first : Touched places d e) (second : Touched places e f) :
    Touched places d f where
  here := second.here.trans first.here
  directory place := (second.directory place).trans (first.directory place)
  others place other := (second.others place other).trans (first.others place other)

theorem mono {more : List Location} (touched : Touched places d e) (within : places ⊆ more) :
    Touched more d e where
  here := touched.here
  directory := touched.directory
  others place other := touched.others place (fun member => other (within member))

theorem locate (touched : Touched places d e) {path : String} {place : Location}
    (led : d.locate path = .ok place) : e.locate path = .ok place :=
  locate_mono touched.here (fun place => (touched.directory place).mpr) led

theorem content?_eq (touched : Touched places d e) {path : String}
    (apart : ∀ place ∈ places, d.locate path ≠ .ok place) :
    e.content? path = d.content? path := by
  apply Option.ext
  intro content
  rw [content?_eq_some_iff, content?_eq_some_iff]
  constructor
  · rintro ⟨place, led, file⟩
    have led := touched.symm.locate led
    rw [touched.others place (fun member => apart place member led)] at file
    exact ⟨place, led, file⟩
  · rintro ⟨place, led, file⟩
    rw [← touched.others place (fun member => apart place member led)] at file
    exact ⟨place, touched.locate led, file⟩

end Touched

theorem touched_of_others {place : Location} (here : e.here = d.here)
    (before : d.entryAt? place ≠ some .directory) (after : e.entryAt? place ≠ some .directory)
    (others : ∀ other ≠ place, e.entryAt? other = d.entryAt? other) : Touched [place] d e where
  here := here
  directory other := by
    by_cases same : other = place
    · subst same
      exact iff_of_false after before
    · rw [others other same]
  others other apart := others other (fun same => apart (List.mem_singleton.mpr same))

theorem touched_insert {place : Location} (content : ByteArray)
    (free : d.entryAt? place ≠ some .directory) :
    Touched [place] d { d with entries := d.entries.insert place (.file content) } := by
  have inside : place ≠ [] := fun top => free (top ▸ d.entryAt?_top)
  refine touched_of_others rfl free ?_ (fun other apart => entryAt?_insert_of_ne apart _)
  rw [entryAt?_insert, if_neg inside, if_pos rfl]
  simp

theorem touched_erase {place : Location} (free : d.entryAt? place ≠ some .directory) :
    Touched [place] d { d with entries := d.entries.erase place } := by
  have inside : place ≠ [] := fun top => free (top ▸ d.entryAt?_top)
  refine touched_of_others rfl free ?_ (fun other apart => entryAt?_erase_of_ne apart)
  rw [entryAt?_erase, if_neg inside, if_pos rfl]
  simp

/-- What a change of one file leaves: nobody's lock is gone, and the file has its new content. -/
structure Filled (places : List Location) (place : Location) (content : ByteArray) (d e : Disk) :
    Prop extends Touched places d e where
  held : e.held = d.held
  file : e.entryAt? place = some (.file content)

theorem filled_insert {place : Location} (content : ByteArray)
    (free : d.entryAt? place ≠ some .directory) :
    Filled [place] place content d
      { d with entries := d.entries.insert place (.file content) } where
  toTouched := touched_insert content free
  held := rfl
  file := by
    have inside : place ≠ [] := fun top => free (top ▸ d.entryAt?_top)
    rw [entryAt?_insert, if_neg inside, if_pos rfl]

theorem write_eq_ok {path : String} {place : Location} (led : d.locate path = .ok place)
    (free : d.entryAt? place ≠ some .directory) (content : ByteArray) :
    d.write path content = .ok { d with entries := d.entries.insert place (.file content) } := by
  refine bind_eq_ok.mpr ⟨place, led, ?_⟩
  split
  case h_1 directory => exact absurd directory free
  case h_2 => rfl

theorem write_eq_error {path : String} {place : Location} (led : d.locate path = .ok place)
    (directory : d.entryAt? place = some .directory) (content : ByteArray) :
    d.write path content = .error (.refused "is a directory") := by
  refine bind_eq_error.mpr (.inr ⟨place, led, ?_⟩)
  rw [directory]

section Rename

variable {source target : String} {content : ByteArray} {origin place : Location}

theorem rename_eq_ok (start : d.locate source = .ok origin) (led : d.locate target = .ok place)
    (file : d.entryAt? origin = some (.file content)) (free : d.entryAt? place ≠ some .directory) :
    d.rename source target =
      .ok { d with entries := (d.entries.erase origin).insert place (.file content) } := by
  refine bind_eq_ok.mpr ⟨origin, start, bind_eq_ok.mpr ⟨place, led, ?_⟩⟩
  cases stands : d.entryAt? place with
  | none => rw [file]
  | some entry =>
    cases entry with
    | directory => exact absurd stands free
    | file old => rw [file]

theorem rename_eq_error (start : d.locate source = .ok origin) (led : d.locate target = .ok place)
    (file : d.entryAt? origin = some (.file content))
    (directory : d.entryAt? place = some .directory) :
    d.rename source target = .error (.refused "is a directory") := by
  refine bind_eq_error.mpr (.inr ⟨origin, start, bind_eq_error.mpr (.inr ⟨place, led, ?_⟩)⟩)
  rw [file, directory]

theorem filled_rename (file : d.entryAt? origin = some (.file content))
    (free : d.entryAt? place ≠ some .directory) : Filled [origin, place] place content d
      { d with entries := (d.entries.erase origin).insert place (.file content) } := by
  have erased : Touched [origin] d { d with entries := d.entries.erase origin } :=
    touched_erase (by simp [file])
  have filled := filled_insert content (mt (erased.directory place).mp free)
  have first : Touched [origin, place] d { d with entries := d.entries.erase origin } :=
    erased.mono (by simp)
  exact ⟨first.trans (filled.toTouched.mono (by simp)), rfl, filled.file⟩

end Rename

/-! ### New directories -/

/-- The second disk has more directories, where nothing stood on the first, and is the same
otherwise. -/
structure Furnished (d e : Disk) : Prop where
  here : e.here = d.here
  held : e.held = d.held
  entries : ∀ place, e.entryAt? place = d.entryAt? place ∨
    d.entryAt? place = none ∧ e.entryAt? place = some .directory

namespace Furnished

theorem refl (d : Disk) : Furnished d d := ⟨rfl, rfl, fun _ => .inl rfl⟩

theorem stays (furnished : Furnished d e) {place : Location} {entry : Entry}
    (stands : d.entryAt? place = some entry) : e.entryAt? place = some entry := by
  rcases furnished.entries place with same | ⟨nothing, _⟩
  · rw [same, stands]
  · cases nothing.symm.trans stands

theorem trans {f : Disk} (first : Furnished d e) (second : Furnished e f) : Furnished d f where
  here := second.here.trans first.here
  held := second.held.trans first.held
  entries place := by
    rcases first.entries place with same | ⟨nothing, made⟩
    · exact same ▸ second.entries place
    · exact .inr ⟨nothing, second.stays made⟩

theorem file (furnished : Furnished d e) {place : Location} {content : ByteArray}
    (stands : e.entryAt? place = some (.file content)) :
    d.entryAt? place = some (.file content) := by
  rcases furnished.entries place with same | ⟨_, made⟩
  · rw [← same, stands]
  · cases made.symm.trans stands

theorem locate (furnished : Furnished d e) {path : String} {place : Location}
    (led : d.locate path = .ok place) : e.locate path = .ok place :=
  locate_mono furnished.here (fun _ => furnished.stays) led

end Furnished

theorem directory_insert (d : Disk) (place : Location) :
    { d with entries := d.entries.insert place .directory }.entryAt? place = some .directory := by
  rw [entryAt?_insert]
  split <;> simp

theorem furnished_insert {place : Location} (nothing : d.entryAt? place = none) :
    Furnished d { d with entries := d.entries.insert place .directory } := by
  refine ⟨rfl, rfl, fun other => ?_⟩
  by_cases same : other = place
  · subst same
    exact .inr ⟨nothing, directory_insert d other⟩
  · exact .inl (entryAt?_insert_of_ne same _)

section MakeFrom

variable {start : Location} {name : String} {names : List String}

theorem makeFrom_directory (stands : d.entryAt? (further start name) = some .directory) :
    d.makeFrom start (name :: names) = d.makeFrom (further start name) names := by
  rw [makeFrom, stands]

theorem makeFrom_file {content : ByteArray}
    (stands : d.entryAt? (further start name) = some (.file content)) :
    d.makeFrom start (name :: names) = (.error (.refused "not a directory"), d) := by
  rw [makeFrom, stands]

theorem makeFrom_nothing (nothing : d.entryAt? (further start name) = none) :
    d.makeFrom start (name :: names) =
      if isTooLong name then (.error (.refused "name too long"), d)
      else { d with entries := d.entries.insert (further start name) .directory }.makeFrom
        (further start name) names := by
  rw [makeFrom, nothing]

end MakeFrom

theorem furnished_makeFrom (d : Disk) (start : Location) (names : List String) :
    Furnished d (d.makeFrom start names).2 := by
  induction names generalizing d start with
  | nil => exact .refl d
  | cons name names ih =>
    cases stands : d.entryAt? (further start name) with
    | none =>
      rw [makeFrom_nothing stands]
      split
      · exact .refl d
      · exact (furnished_insert stands).trans (ih _ _)
    | some entry =>
      cases entry with
      | directory =>
        rw [makeFrom_directory stands]
        exact ih d _
      | file content =>
        rw [makeFrom_file stands]
        exact .refl d

theorem makeFrom_again (d : Disk) (start : Location) (names : List String) :
    (d.makeFrom start names).2.makeFrom start names = d.makeFrom start names := by
  induction names generalizing d start with
  | nil => rfl
  | cons name names ih =>
    cases stands : d.entryAt? (further start name) with
    | none =>
      rw [makeFrom_nothing stands]
      split
      case isTrue long =>
        rw [makeFrom_nothing stands, if_pos long]
      case isFalse =>
        have there := directory_insert d (further start name)
        rw [makeFrom_directory ((furnished_makeFrom _ _ _).stays there)]
        exact ih _ _
    | some entry =>
      cases entry with
      | directory =>
        rw [makeFrom_directory stands,
          makeFrom_directory ((furnished_makeFrom d _ _).stays stands)]
        exact ih d _
      | file content => rw [makeFrom_file stands, makeFrom_file stands]

theorem makeFrom_touched {places : List Location} (touched : Touched places d e) {start : Location}
    {names : List String} (made : d.makeFrom start names = (.ok (), d)) :
    e.makeFrom start names = (.ok (), e) := by
  induction names generalizing start with
  | nil => rfl
  | cons name names ih =>
    cases stands : d.entryAt? (further start name) with
    | none =>
      rw [makeFrom_nothing stands] at made
      split at made
      · cases made
      · have later := furnished_makeFrom
          { d with entries := d.entries.insert (further start name) .directory }
          (further start name) names
        rw [made] at later
        cases stands.symm.trans (later.stays (directory_insert d (further start name)))
    | some entry =>
      cases entry with
      | directory =>
        rw [makeFrom_directory stands] at made
        rw [makeFrom_directory ((touched.directory _).mpr stands)]
        exact ih made
      | file content =>
        rw [makeFrom_file stands] at made
        cases made

theorem furnished_makeDirectories (d : Disk) (path : String) :
    Furnished d (d.makeDirectories path).2 := by
  unfold makeDirectories
  split
  · exact .refl d
  · exact furnished_makeFrom d _ _

theorem makeDirectories_again (d : Disk) (path : String) :
    (d.makeDirectories path).2.makeDirectories path = d.makeDirectories path := by
  have start := origin_eq (furnished_makeDirectories d path).here path
  unfold makeDirectories at start ⊢
  split
  · rfl
  case isFalse fits =>
    rw [if_neg fits] at start
    rw [start]
    exact makeFrom_again d _ _

theorem makeDirectories_touched {places : List Location} (touched : Touched places d e)
    {path : String} (made : d.makeDirectories path = (.ok (), d)) :
    e.makeDirectories path = (.ok (), e) := by
  unfold makeDirectories at made ⊢
  split at made
  · cases made
  case isFalse fits =>
    rw [if_neg fits, origin_eq touched.here, makeFrom_touched touched made]

/-! ### Trees -/

/-- Whatever stands somewhere stands in a directory. -/
def IsTree (d : Disk) : Prop :=
  ∀ place, d.entryAt? place ≠ none → d.entryAt? place.dropLast = some .directory

theorem IsTree.directory_above (tree : d.IsTree) {place above : Location}
    (stands : d.entryAt? place ≠ none) (isAbove : above <+: place) (proper : above ≠ place) :
    d.entryAt? above = some .directory := by
  induction place using List.reverseRecOn with
  | nil => exact absurd (List.prefix_nil.mp isAbove) proper
  | append_singleton place name ih =>
    have directory := tree _ stands
    rw [List.dropLast_concat] at directory
    rcases List.prefix_concat_iff.mp isAbove with same | isAbove
    · exact absurd same proper
    · by_cases last : above = place
      · rw [last, directory]
      · exact ih (by simp [directory]) isAbove last

theorem prefix_of_walk {start place : Location} {names : List String} (onward : ".." ∉ names)
    (arrives : d.walk start names = .ok place) : start <+: place := by
  induction names generalizing start with
  | nil =>
    cases arrives
    exact List.prefix_rfl
  | cons name names ih =>
    rw [List.mem_cons, not_or] at onward
    rw [walk] at arrives
    split at arrives
    · split at arrives
      · cases arrives
      · refine List.IsPrefix.trans ?_ (ih onward.2 arrives)
        unfold further
        split
        · exact List.prefix_rfl
        · rw [if_neg (Ne.symm onward.1)]
          exact List.prefix_append _ _
    · cases arrives
    · cases arrives

/-- A walk that only goes down needs no directories but those above its end. -/
theorem walk_of_onward {start place : Location} {names : List String} (onward : ".." ∉ names)
    (arrives : e.walk start names = .ok place)
    (above : ∀ other, other <+: place → e.entryAt? other = some .directory →
      d.entryAt? other = some .directory) : d.walk start names = .ok place := by
  induction names generalizing start with
  | nil => exact arrives
  | cons name names ih =>
    have down := prefix_of_walk onward arrives
    rw [List.mem_cons, not_or] at onward
    unfold walk at arrives ⊢
    split at arrives
    case h_1 directory =>
      rw [above start down directory]
      dsimp only
      split at arrives
      · cases arrives
      case isFalse fits =>
        rw [if_neg fits]
        exact ih onward.2 arrives
    case h_2 => cases arrives
    case h_3 => cases arrives

/-- New directories bring no file to light where a path never steps back. -/
theorem Furnished.content?_eq (furnished : Furnished d e) (tree : d.IsTree) {path : String}
    (onward : ".." ∉ Path.names path) : e.content? path = d.content? path := by
  apply Option.ext
  intro content
  rw [content?_eq_some_iff, content?_eq_some_iff]
  constructor
  · rintro ⟨place, led, file⟩
    have before := furnished.file file
    refine ⟨place, ?_, before⟩
    rw [locate_eq_ok_iff] at led ⊢
    obtain ⟨text, fits, arrives⟩ := led
    rw [origin_eq furnished.here] at arrives
    refine ⟨text, fits, walk_of_onward onward arrives (fun other isAbove directory => ?_)⟩
    refine tree.directory_above (by simp [before]) isAbove ?_
    rintro rfl
    cases directory.symm.trans file
  · rintro ⟨place, led, file⟩
    exact ⟨place, furnished.locate led, furnished.stays file⟩

end Disk

end SymbolAtlas

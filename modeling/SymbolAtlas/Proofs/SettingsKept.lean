import SymbolAtlas.Proofs.CommandEffect
import SymbolAtlas.Proofs.SettingsText

/-! Changes leave the settings as they are. The files beside a store have endings that the settings
file has not, and a store is never committed to a file with settings in it: it would have to be
read from there first. Where there is no settings file, the store has another name. -/
namespace SymbolAtlas.Disk

variable {d e : Disk}

/-- Where the settings are looked for. -/
def settingsPlace (d : Disk) : Location := d.here ++ [settingsFile]

theorem locate_here {name : String} (directory : d.entryAt? d.here = some .directory)
    (fits : isPath ("./" ++ name) = true) (relative : Path.isAbsolute ("./" ++ name) = false)
    (names : Path.names ("./" ++ name) = [".", name]) (short : isTooLong name = false)
    (plain : ∀ place, further place name = place ++ [name]) :
    d.locate ("./" ++ name) = .ok (d.here ++ [name]) := by
  rw [locate_eq_ok_iff]
  refine ⟨fun empty => ?_, fits, ?_⟩
  · exact absurd (String.append_eq_empty_iff.mp empty).1 (by decide)
  · have dot : further d.here "." = d.here := by simp [further]
    have short' : isTooLong "." = false := by decide
    rw [names, origin, relative, if_neg Bool.false_ne_true, walk, directory]
    dsimp only
    rw [short', if_neg Bool.false_ne_true, dot]
    exact walk_single.mpr ⟨directory, short, plain d.here⟩

theorem locate_settings (directory : d.entryAt? d.here = some .directory) :
    d.locate (Path.join Workspace.root settingsFile) = .ok d.settingsPlace := by
  have joined : Path.join Workspace.root settingsFile = "./" ++ settingsFile := by decide
  rw [joined]
  refine locate_here directory (by decide) (by decide) (by decide) (by decide) (fun place => ?_)
  simp [further, settingsFile]

theorem settings_congr (directory : d.entryAt? d.here = some .directory) (here : e.here = d.here)
    (directory' : e.entryAt? e.here = some .directory)
    (same : e.entryAt? d.settingsPlace = d.entryAt? d.settingsPlace) : e.settings = d.settings := by
  have place : e.settingsPlace = d.settingsPlace := by rw [settingsPlace, here, settingsPlace]
  rw [settings, settings, text?, text?, read, read, locate_settings directory,
    locate_settings directory', place]
  simp only [bind, Except.bind, same]

theorem locate_ending_ne_settings {ending path : String} (single : '/' ∉ ending.toList)
    (long : 2 < ending.length) (other : ¬ ending.toList <:+ settingsFile.toList) :
    d.locate (path ++ ending) ≠ .ok d.settingsPlace := by
  intro led
  obtain ⟨parent, last, same⟩ := locate_ending single long led
  obtain ⟨_, same⟩ := List.append_inj' same rfl
  have spelled := congrArg String.toList (List.singleton_inj.mp same)
  rw [String.toList_append] at spelled
  exact other ⟨_, spelled.symm⟩

theorem settingsPlace_not_mem {database : String}
    (apart : d.locate database ≠ .ok d.settingsPlace) :
    d.settingsPlace ∉ d.storeFiles database := by
  intro member
  obtain ⟨path, listed, led⟩ := List.mem_filterMap.mp member
  have led : d.locate path = .ok d.settingsPlace := by
    cases found : d.locate path with
    | error fault =>
      rw [found] at led
      cases led
    | ok place =>
      rw [found] at led
      exact congrArg Except.ok (Option.some.inj led)
  simp only [List.mem_cons, List.not_mem_nil, or_false] at listed
  rcases listed with rfl | rfl | rfl
  · exact apart led
  · exact locate_ending_ne_settings (by decide) (by decide) (by decide) led
  · exact locate_ending_ne_settings (by decide) (by decide) (by decide) led

/-- Settings that hold are in a file, or there is none and they are the defaults. -/
theorem settings_origin {settings : Settings} (directory : d.entryAt? d.here = some .directory)
    (known : d.settings = .ok settings) :
    (d.entryAt? d.settingsPlace = none ∧ settings = .defaults Workspace.root) ∨
      ∃ text, d.entryAt? d.settingsPlace = some (.file text.toUTF8) ∧
        Settings.parse Workspace.root text = .ok settings := by
  have led := locate_settings directory
  rw [Disk.settings] at known
  cases stands : d.entryAt? d.settingsPlace with
  | none =>
    have missing : d.read (Path.join Workspace.root settingsFile) = .error .missing := by
      rw [read, led]
      simp only [bind, Except.bind, stands]
    rw [text?, missing] at known
    cases known
    exact .inl ⟨rfl, rfl⟩
  | some entry =>
    cases entry with
    | directory =>
      have refused : d.read (Path.join Workspace.root settingsFile) =
          .error (.refused "is a directory") := by
        rw [read, led]
        simp only [bind, Except.bind, stands]
      rw [text?, refused] at known
      cases known
    | file content =>
      rw [text?, read_eq_ok_iff.mpr ⟨_, led, stands⟩] at known
      dsimp only at known
      split at known
      case h_1 text decoded =>
        exact .inr ⟨text, by rw [toUTF8_of_fromUTF8? decoded], known⟩
      case h_2 => cases known

theorem prepared_defaults (directory : d.entryAt? d.here = some .directory) :
    d.prepared (Settings.defaults Workspace.root).database = d := by
  have parent :
      Path.parent (Workspace.lockPath (Settings.defaults Workspace.root).database) = "." := by
    decide
  have fits : isPath "." = true := by decide
  have names : Path.names "." = ["."] := by decide
  have start : d.origin "." = d.here := by rw [origin]; rfl
  have dot : further d.here "." = d.here := by simp [further]
  rw [prepared, parent, makeDirectories, fits, names, start,
    makeFrom_directory (dot.symm ▸ directory), dot]
  rfl

theorem locate_defaults (directory : d.entryAt? d.here = some .directory) :
    d.locate (Settings.defaults Workspace.root).database = .ok (d.here ++ ["srgmap.json"]) := by
  have joined : (Settings.defaults Workspace.root).database = "./" ++ "srgmap.json" := by decide
  rw [joined]
  refine locate_here directory (by decide) (by decide) (by decide) (by decide) (fun place => ?_)
  simp [further]

/-- To make directories for a store changes nothing where the settings are looked for. -/
theorem settings_prepared {settings : Settings} (directory : d.entryAt? d.here = some .directory)
    (known : d.settings = .ok settings) :
    (d.prepared settings.database).entryAt? d.settingsPlace = d.entryAt? d.settingsPlace := by
  rcases settings_origin directory known with ⟨_, rfl⟩ | ⟨text, stands, _⟩
  · rw [prepared_defaults directory]
  · rw [stands, (d.furnished_prepared settings.database).stays stands]

/-- The settings file stands where it stood when directories have been made for a store, and it is
not the store. -/
theorem settings_apart {settings : Settings} {s : Store}
    (directory : d.entryAt? d.here = some .directory) (known : d.settings = .ok settings)
    (filed : Store.Filed ((d.prepared settings.database).content? settings.database) s) :
    (d.prepared settings.database).entryAt? d.settingsPlace = d.entryAt? d.settingsPlace ∧
      (d.prepared settings.database).locate settings.database ≠ .ok d.settingsPlace := by
  have kept := settings_prepared directory known
  refine ⟨kept, fun led => ?_⟩
  rcases settings_origin directory known with ⟨nothing, rfl⟩ | ⟨text, stands, parsed⟩
  · rw [prepared_defaults directory] at led
    have same := List.singleton_inj.mp
      (List.append_cancel_left (Except.ok.inj ((locate_defaults directory).symm.trans led)))
    exact absurd same (by decide)
  · rw [content?_eq_some_iff.mpr ⟨_, led, kept.trans stands⟩] at filed
    exact Settings.not_parse_of_parse parsed s (Store.parse_of_filed filed)

theorem Aftermath.here_eq {database : String} (aftermath : d.Aftermath database e) :
    e.here = d.here :=
  aftermath.touched.here.trans (d.furnished_prepared database).here

theorem Aftermath.directory {database : String} (aftermath : d.Aftermath database e)
    {place : Location} (stands : d.entryAt? place = some .directory) :
    e.entryAt? place = some .directory :=
  (aftermath.touched.directory place).mpr ((d.furnished_prepared database).stays stands)

theorem Aftermath.settings_eq {settings : Settings} {s : Store}
    (directory : d.entryAt? d.here = some .directory) (known : d.settings = .ok settings)
    (filed : Store.Filed ((d.prepared settings.database).content? settings.database) s)
    (aftermath : d.Aftermath settings.database e) : e.settings = d.settings := by
  obtain ⟨stands, apart⟩ := settings_apart directory known filed
  have place : (d.prepared settings.database).settingsPlace = d.settingsPlace := by
    rw [settingsPlace, (d.furnished_prepared settings.database).here, settingsPlace]
  refine settings_congr directory aftermath.here_eq ?_ ?_
  · exact aftermath.here_eq ▸ aftermath.directory directory
  · rw [aftermath.touched.others _ (place ▸ settingsPlace_not_mem (place.symm ▸ apart)), stands]

end SymbolAtlas.Disk

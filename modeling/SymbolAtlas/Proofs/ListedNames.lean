import SymbolAtlas.Proofs.TakenNames

/-! What a list of names comes to. Which rows are applied is told by the store as it was before the
list and by the rows in front: a row is applied when members have its name, none of them is named,
and it is the first row of this name. The rows of one kind have no bearing on another kind, and
within a kind rows of different names may change places without a difference to any final name. -/
namespace SymbolAtlas

def NameRow.change (version : String) (kind : MemberKind) (actor : String) (row : NameRow) :
    NameChange :=
  ⟨⟨version, kind, row.intermediate⟩, actor, row.final⟩

/-- The same rows in another order, where rows of one name keep theirs. -/
inductive NameRow.Reordered : List NameRow → List NameRow → Prop where
  | refl (rows : List NameRow) : Reordered rows rows
  | swap (before after : List NameRow) {x y : NameRow} (apart : x.intermediate ≠ y.intermediate) :
      Reordered (before ++ x :: y :: after) (before ++ y :: x :: after)
  | trans {a b c : List NameRow} (first : Reordered a b) (second : Reordered b c) : Reordered a c

theorem NameRow.Reordered.find?_eq {rows others : List NameRow} (reordered : Reordered rows others)
    (name : String) :
    rows.find? (fun row => row.intermediate = name) =
      others.find? (fun row => row.intermediate = name) := by
  induction reordered with
  | refl => rfl
  | trans _ _ first second => exact first.trans second
  | swap before after apart =>
    rename_i x y
    rw [List.find?_append, List.find?_append]
    congr 1
    -- only one of the two rows that change places can have the name
    by_cases here : x.intermediate = name
    · have other : y.intermediate ≠ name := fun same => apart (here.trans same.symm)
      simp [here, other]
    · simp [List.find?_cons, here]

namespace Store

/-- The row at a position is applied: its name awaits a final name, and no row in front has it. -/
def Applies (s : Store) (version : String) (kind : MemberKind) (rows : List NameRow)
    (row : NameRow) (position : Nat) : Prop :=
  s.Awaiting ⟨version, kind, row.intermediate⟩ ∧
    ∀ earlier ∈ rows.take position, earlier.intermediate ≠ row.intermediate

instance (s : Store) (version : String) (kind : MemberKind) (rows : List NameRow) (row : NameRow)
    (position : Nat) : Decidable (s.Applies version kind rows row position) :=
  inferInstanceAs (Decidable (_ ∧ _))

def appliedRows (s : Store) (version : String) (kind : MemberKind) (rows : List NameRow) :
    List NameRow :=
  (rows.zipIdx.filter (fun p => decide (s.Applies version kind rows p.1 p.2))).map Prod.fst

section

variable {s : Store}

theorem changes_eq_flatMap (names : NameExport) (version actor : String) :
    names.changes version actor = MemberKind.all.flatMap (fun kind =>
      (names.rows kind).map (NameRow.change version kind actor)) := rfl

theorem kind_of_mem_map_change {version actor : String} {kind : MemberKind} {rows : List NameRow}
    {change : NameChange} (listed : change ∈ rows.map (NameRow.change version kind actor)) :
    change.key.kind = kind := by
  obtain ⟨row, _, rfl⟩ := List.mem_map.mp listed
  rfl

theorem Sound.accepted_rows (sound : s.Sound) (version : String) (kind : MemberKind)
    (actor : String) (rows : List NameRow) :
    s.accepted (rows.map (NameRow.change version kind actor)) =
      (s.appliedRows version kind rows).map (NameRow.change version kind actor) := by
  have keys (x y : NameRow) : (x.change version kind actor).key = (y.change version kind actor).key ↔
      x.intermediate = y.intermediate := by
    simp [NameRow.change]
  have applied : s.appliedRows version kind rows =
      (firsts NameRow.intermediate rows).filter
        (fun row => s.awaitsName (row.change version kind actor).key) := by
    rw [firsts_eq_zipIdx, List.filter_map, List.filter_filter]
    refine congrArg (List.map Prod.fst) (List.filter_congr (fun p _ => ?_))
    rw [Bool.eq_iff_iff, decide_eq_true_iff, Applies, ← sound.awaitsName_iff]
    simp [NameRow.change]
  rw [accepted_eq_filter, firsts_map, firsts_congr keys, List.filter_map, applied]
  rfl

/-- The rows that are applied, kind by kind, as the changes that are made. -/
theorem Sound.accepted_changes (sound : s.Sound) (names : NameExport) (version actor : String) :
    s.accepted (names.changes version actor) =
      MemberKind.all.flatMap (fun kind => (s.appliedRows version kind (names.rows kind)).map
        (NameRow.change version kind actor)) := by
  rw [changes_eq_flatMap, s.accepted_flatMap_kinds (fun _ _ => kind_of_mem_map_change) (by decide)]
  simp only [sound.accepted_rows]

/-- A change is taken when its key awaits a name and it is the first that is offered for the key. -/
theorem find?_accepted (s : Store) (changes : List NameChange) (key : NameKey) :
    (s.accepted changes).find? (fun c => key = c.key) =
      if s.awaitsName key then changes.find? (fun c => key = c.key) else none := by
  induction changes with
  | nil => simp [accepted]
  | cons change changes ih =>
    by_cases here : key = change.key
    · subst here
      by_cases awaits : s.awaitsName change.key = true
      · simp [accepted, awaits]
      · rw [accepted, if_neg awaits, ih, if_neg awaits, if_neg awaits]
    · have hidden : ((s.accepted changes).filter (fun c => c.key ≠ change.key)).find?
          (fun c => key = c.key) = (s.accepted changes).find? (fun c => key = c.key) := by
        rw [List.find?_filter]
        refine congrArg (fun p => List.find? p (s.accepted changes)) (funext fun c => ?_)
        by_cases same : key = c.key
        · simp [← same, here]
        · simp [same]
      rw [List.find?_cons_of_neg (by simpa using here), ← ih, accepted]
      split
      · rw [List.find?_cons_of_neg (by simpa using here), hidden]
      · rfl

/-- A final name after an offer: the first that is offered to a name that awaits one. -/
theorem Sound.finalName?_offered (sound : s.Sound) (now : Instant) (changes : List NameChange)
    {m : MemberRecord} (member : m ∈ s.members) :
    (s.enterAll now (s.accepted changes)).finalNameAt? m.id =
      if s.awaitsName m.key then (changes.find? (fun c => m.key = c.key)).map NameChange.final
      else s.finalName? m := by
  rw [sound.finalNameAt?_enterAll (sound.toIndexed.member?_id member) now
    sound.toIndexed.known_of_accepted, find?_reverse_of_nodup _ (s.nodup_accepted changes),
    find?_accepted, sound.toIndexed.finalNameAt?_id member]
  split
  case isTrue awaits =>
    rw [((sound.awaitsName_iff _).mp awaits).2 m member rfl, Option.or_none]
  case isFalse => rfl

theorem find?_changes (names : NameExport) (version actor : String) (key : NameKey) :
    ((names.changes version actor).find? (fun c => key = c.key)).map NameChange.final =
      if key.version = version then
        ((names.rows key.kind).find? (fun row => row.intermediate = key.name)).map NameRow.final
      else none := by
  obtain ⟨v, k, n⟩ := key
  have part (kind : MemberKind) :
      ((names.rows kind).map (NameRow.change version kind actor)).find? (fun c => ⟨v, k, n⟩ = c.key) =
        if v = version ∧ k = kind then
          ((names.rows kind).find? (fun row => row.intermediate = n)).map
            (NameRow.change version kind actor)
        else none := by
    rw [List.find?_map]
    split
    case isTrue here =>
      obtain ⟨rfl, rfl⟩ := here
      refine congrArg (fun p => ((names.rows k).find? p).map _) (funext fun row => ?_)
      simp [NameRow.change, eq_comm]
    case isFalse elsewhere =>
      have none : (names.rows kind).find?
          ((fun c : NameChange => ⟨v, k, n⟩ = c.key) ∘ NameRow.change version kind actor) = none := by
        refine List.find?_eq_none.mpr (fun row _ same => elsewhere ?_)
        simp only [Function.comp, NameRow.change, decide_eq_true_eq, NameKey.mk.injEq] at same
        exact ⟨same.1, same.2.1⟩
      rw [none, Option.map_none]
  have taken (kind : MemberKind) : NameChange.final ∘ NameRow.change version kind actor =
      NameRow.final := rfl
  simp only [changes_eq_flatMap, MemberKind.all, List.flatMap_cons, List.flatMap_nil, List.append_nil,
    List.find?_append, part]
  by_cases here : v = version
  · cases k <;> simp [here, taken]
  · simp [here]

end

/-- In a store after any run a list of names for a version that is there is taken in, kind by kind
and row by row: the applied rows become entries in their order, the members of their names point at
these entries, and nothing else is different, a name that was there least of all. The report counts
the applied rows. The final names of a kind are the same for any other list in which the rows of
the kind are in another order, if only rows of one name keep theirs. -/
theorem importNames_applies_first_rows {s₀ : Store} (origin : Origin s₀) (steps : List Step)
    {version : String} (known : ((replay Step.run steps s₀).version? version).isSome)
    (now : Instant) (names : NameExport) (actor : String) :
    let s := replay Step.run steps s₀
    let applied kind := s.appliedRows version kind (names.rows kind)
    ∃ t, (importNames now version names actor).applyTo s =
        (.ok ⟨(applied .field).length, (applied .method).length, (applied .parameter).length⟩, t) ∧
      s.Receives now (MemberKind.all.flatMap (fun kind =>
        (applied kind).map (NameRow.change version kind actor))) t ∧
      (∀ m ∈ s.members, (s.finalName? m).isSome → t.member? m.id = some m) ∧
      ∀ kind others, NameRow.Reordered (names.rows kind) (others.rows kind) →
        ∀ later another, ∀ m ∈ s.members, m.key.kind = kind →
          ((importNames later version others another).applyTo s).2.finalNameAt? m.id =
            t.finalNameAt? m.id := by
  intro s applied
  have sound : s.Sound := sound_of_replay origin steps
  have taken := sound.accepted_changes names version actor
  have counts : NamesReport.ofChanges (s.accepted (names.changes version actor)) =
      ⟨(applied .field).length, (applied .method).length, (applied .parameter).length⟩ := by
    rw [taken, ofChanges_flatMap_kinds]
    · simp [applied]
    · exact fun _ _ => kind_of_mem_map_change
  let t := s.enterAll now (s.accepted (names.changes version actor))
  have receives : ∀ changes, s.accepted (names.changes version actor) = changes →
      s.Receives now changes t := by
    rintro _ rfl
    exact sound.receives_accepted now _
  refine ⟨t, ?_, receives _ taken, ?_, ?_⟩
  · rw [sound.importNames_eq known, counts]
  · intro m member named
    exact (receives _ rfl).untouched m member (sound.not_mem_accepted_of_named member named)
  · intro kind others reordered later another m member same
    have first := reordered.find?_eq m.key.name
    rw [sound.importNames_eq known, sound.finalName?_offered later _ member,
      sound.finalName?_offered now _ member, find?_changes, find?_changes, same, first]

/-- The second row of a name is passed over, and so is a name that no member has. The row of the
unknown name may as well come first. -/
theorem importNames_applies_first_rows_common :
    let s := replay Step.run commonTwice .empty
    let late : NameRow := ⟨"field_3_d", "late"⟩
    let strange : NameRow := ⟨"field_9_x", "none"⟩
    let methods : List NameRow := [⟨"func_2_c", "shut"⟩]
    ∃ t, (importNames ⟨150, 0⟩ "2" ⟨[late, strange, ⟨"field_3_d", "depth"⟩], methods, []⟩
          "bob").applyTo s = (.ok ⟨1, 1, 0⟩, t) ∧
      s.Receives ⟨150, 0⟩ [late.change "2" .field "bob",
        ⟨⟨"2", .method, "func_2_c"⟩, "bob", "shut"⟩] t ∧
      ∀ m ∈ s.members, m.key.kind = .field →
        ((importNames ⟨180, 0⟩ "2" ⟨[strange, late, ⟨"field_3_d", "depth"⟩], methods, []⟩
          "ann").applyTo s).2.finalNameAt? m.id = t.finalNameAt? m.id := by
  intro s late strange methods
  have known : (s.version? "2").isSome := by decide +kernel
  obtain ⟨t, answered, receives, _, ordered⟩ := importNames_applies_first_rows .empty commonTwice
    known ⟨150, 0⟩ ⟨[late, strange, ⟨"field_3_d", "depth"⟩], methods, []⟩ "bob"
  have fields : s.appliedRows "2" .field [late, strange, ⟨"field_3_d", "depth"⟩] = [late] := by
    decide +kernel
  have named : s.appliedRows "2" .method methods = methods := by decide +kernel
  have none : s.appliedRows "2" .parameter [] = [] := rfl
  have swapped : NameRow.Reordered [late, strange, ⟨"field_3_d", "depth"⟩]
      [strange, late, ⟨"field_3_d", "depth"⟩] := .swap [] _ (by decide)
  refine ⟨t, ?_, ?_, fun m member kind => ?_⟩
  · simpa [NameExport.rows, s, fields, named, none, methods] using answered
  · simpa [MemberKind.all, NameExport.rows, s, fields, named, none, methods, NameRow.change]
      using receives
  · exact ordered .field ⟨[strange, late, ⟨"field_3_d", "depth"⟩], methods, []⟩ swapped
      ⟨180, 0⟩ "ann" m member kind

end Store

end SymbolAtlas

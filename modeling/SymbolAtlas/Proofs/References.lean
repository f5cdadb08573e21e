import SymbolAtlas.Proofs.DocumentRoundTrip
import SymbolAtlas.Proofs.ImportContents

/-! References from one record to another. Reading a store checks that every id is a position and
that no member points past the ledger; whether the owner of a member is there, and is of the right
kind, is not looked at. Operations never make an owner that is not: an import owns its members by
records that it stores itself, and nothing else touches an owner. -/
namespace SymbolAtlas.Store

/-- Whether the id can own a member of the kind: methods own parameters, classes own the rest. -/
def Owns (s : Store) (owner : Nat) : MemberKind → Prop
  | .parameter => ∃ m ∈ s.members, m.id = owner ∧ m.key.kind = .method
  | _ => ∃ c ∈ s.classes, c.id = owner

def Owned (s : Store) : Prop := ∀ m ∈ s.members, ∀ owner ∈ m.owner, s.Owns owner m.key.kind

/-- Every id that is stored is that of the record in its place or of a record that is there. -/
structure Resolves (s : Store) : Prop where
  classes : Placed ClassRecord.id s.classes
  members : Placed MemberRecord.id s.members
  entries : Placed LedgerEntry.id s.ledger.entries
  changes : ∀ m ∈ s.members, ∀ change ∈ m.lastChange, ∃ e ∈ s.ledger.entries, e.id = change
  owners : s.Owned

instance (s : Store) (owner : Nat) : (kind : MemberKind) → Decidable (s.Owns owner kind)
  | .parameter => inferInstanceAs (Decidable (∃ m ∈ s.members, _))
  | .field => inferInstanceAs (Decidable (∃ c ∈ s.classes, _))
  | .method => inferInstanceAs (Decidable (∃ c ∈ s.classes, _))

instance (s : Store) : Decidable s.Owned :=
  inferInstanceAs (Decidable (∀ m ∈ s.members, ∀ owner ∈ m.owner, _))

theorem Sound.resolves_iff {s : Store} (sound : s.Sound) : s.Resolves ↔ s.Owned := by
  refine ⟨Resolves.owners, fun owned => ⟨sound.classes, sound.placed, sound.entries, ?_, owned⟩⟩
  intro m member change points
  have inside : change < s.ledger.entries.length := sound.recorded m member change points
  exact ⟨_, List.getElem_mem inside, sound.entries change _ (List.getElem?_eq_getElem inside)⟩

theorem Owns.mono {s t : Store} {owner : Nat} {kind : MemberKind} (owns : s.Owns owner kind)
    (classes : s.classes ⊆ t.classes)
    (members : ∀ m ∈ s.members, ∃ n ∈ t.members, n.id = m.id ∧ n.key.kind = m.key.kind) :
    t.Owns owner kind := by
  have ofClass : (∃ c ∈ s.classes, c.id = owner) → ∃ c ∈ t.classes, c.id = owner :=
    fun ⟨c, listed, id⟩ => ⟨c, classes listed, id⟩
  cases kind with
  | field => exact ofClass owns
  | method => exact ofClass owns
  | parameter =>
    obtain ⟨m, listed, id, isMethod⟩ := owns
    obtain ⟨n, listed, id', kind⟩ := members m listed
    exact ⟨n, listed, id'.trans id, kind.trans isMethod⟩

theorem Owned.mapKey {s : Store} (owned : s.Owned) (key : NameKey)
    {f : MemberRecord → MemberRecord}
    (keeps : ∀ m, (f m).id = m.id ∧ (f m).key = m.key ∧ (f m).owner = m.owner) :
    (s.mapKey key f).Owned := by
  let g (m : MemberRecord) : MemberRecord := if m.key = key then f m else m
  have kept (m : MemberRecord) : (g m).id = m.id ∧ (g m).key = m.key ∧ (g m).owner = m.owner := by
    dsimp only [g]
    split
    · exact keeps m
    · exact ⟨rfl, rfl, rfl⟩
  intro m member owner known
  obtain ⟨old, listed, rfl⟩ := List.mem_map.mp member
  have owns := owned old listed owner ((kept old).2.2 ▸ known)
  rw [(kept old).2.1]
  refine owns.mono (fun _ listed => listed) (fun m listed => ?_)
  exact ⟨g m, List.mem_map_of_mem listed, (kept m).1, by rw [(kept m).2.1]⟩

theorem id_of_symbol {g : Graph} {version : String} {first n : Nat} {x : MemberSymbol}
    (listed : (n, x) ∈ g.symbols first) : ∃ c ∈ g.classRecords version first, c.id = n := by
  obtain ⟨i, c, there, rfl, _⟩ := ClassSymbol.mem_symbolsFrom.mp listed
  obtain ⟨bound, _⟩ := List.getElem?_eq_some_iff.mp there
  exact ⟨_, List.mem_mapIdx.mpr ⟨i, bound, rfl⟩, rfl⟩

theorem Owned.takenIn {g : Graph} {version : String} {s t : Store} (owned : s.Owned)
    (takenIn : TakenIn g version s t) : t.Owned := by
  have classes : s.classes ⊆ t.classes :=
    fun c listed => takenIn.classes ▸ List.mem_append_left _ listed
  intro m member owner known
  rw [takenIn.members] at member
  rcases List.mem_append.mp member with earlier | later
  · refine (owned m earlier owner known).mono classes (fun m listed => ⟨m, ?_, rfl, rfl⟩)
    exact takenIn.members ▸ List.mem_append_left _ listed
  · obtain ⟨j, bound, rfl⟩ := List.mem_mapIdx.mp later
    have found := List.getElem?_eq_getElem bound
    generalize (g.symbols s.classes.length)[j] = symbol at found known
    obtain ⟨n, x⟩ := symbol
    have ofClass : ∃ c ∈ t.classes, c.id = n := by
      obtain ⟨c, listed, id⟩ : ∃ c ∈ g.classRecords version s.classes.length, c.id = n :=
        id_of_symbol (List.mem_of_getElem? found)
      exact ⟨c, takenIn.classes ▸ List.mem_append_right _ listed, id⟩
    cases x with
    | field f =>
      cases known
      exact ofClass
    | method m =>
      cases known
      exact ofClass
    | argument m i type =>
      obtain ⟨r, method, name, there, owner', _, head, _⟩ := takenIn.arguments j n m i type found
      cases (member?_of_symbol takenIn.members found).symm.trans there
      cases owner'.symm.trans known
      exact ⟨_, List.mem_of_getElem? head, rfl, rfl⟩

theorem kept_owned : Kept Owned where
  entered _ _ change _ owned := owned.mapKey change.key (fun _ => ⟨rfl, rfl, rfl⟩)
  relocked _ key _ owned := owned.mapKey key (fun _ => ⟨rfl, rfl, rfl⟩)
  promoted _ _ owned := owned
  imported s now _ digest _ _ _ made owned :=
    owned.takenIn (takenIn_withVersion made s now digest)

theorem Owned.of_document {s t : Store} (owned : s.Owned) (read : parse s.document = .ok t) :
    t.Owned := by
  obtain ⟨reread, _⟩ := parse_document_iff.mp read
  intro m member owner known
  refine (owned m (reread.members.2 ▸ member) owner known).mono ?_ ?_
  · exact fun c listed => reread.classes.2 ▸ listed
  · exact fun m listed => ⟨m, reread.members.2 ▸ listed, rfl, rfl⟩

theorem Owned.replay {start : Store} (owned : start.Owned) (indexed : start.Indexed)
    (steps : List Step) : (replay Step.run steps start).Owned :=
  kept_owned.replay_of_reread Owned.of_document indexed owned steps

/-- In a store that is read from a text everything resolves but for owners, which may be any. If
they are there too, all resolves after any run as well; and they are there in every text that was
written by a run from the empty store. -/
theorem resolves_of_parse {text : String} {s : Store} (read : parse text = .ok s) :
    (s.Resolves ↔ s.Owned) ∧ (s.Owned → ∀ steps, (replay Step.run steps s).Resolves) ∧
      ∀ steps, text = (replay Step.run steps .empty).document → s.Resolves := by
  have sound := sound_of_parse read
  refine ⟨sound.resolves_iff, fun owned steps => ?_, ?_⟩
  · have stays := sound_of_replay (.parsed read) steps
    exact stays.resolves_iff.mpr (owned.replay sound.toIndexed steps)
  · rintro steps rfl
    have nothing : Store.Owned .empty := fun m member => by cases member
    have written := nothing.replay indexed_empty steps
    exact sound.resolves_iff.mpr (written.of_document read)

theorem resolves_of_parse_specimen :
    let s := replay Step.run specimen .empty
    ∃ t, parse s.document = .ok t ∧ t.Resolves ∧ t.members.map MemberRecord.owner =
      [some 0, some 0, some 1, some 2] := by
  intro s
  have sound : s.Sound := sound_of_replay .empty specimen
  have grounded : s.Grounded :=
    kept_grounded.replay grounded_of_parse grounded_empty .empty specimen
  have addressable : s.Addressable := ⟨by decide +kernel, by decide +kernel, by decide +kernel⟩
  have reread : Reread s s := reread_self sound grounded addressable (by decide +kernel)
  have read : parse s.document = .ok s := parse_document_iff.mpr ⟨reread, sound.flaw?_eq_none⟩
  exact ⟨s, read, (resolves_of_parse read).2.2 specimen rfl, by decide +kernel⟩

/-- A field of a class that is not there, and a parameter of that field. -/
def strays : Store :=
  let field := (MemberRecord.plain ⟨"1", .field, "field_1_a"⟩ "a").ownedBy 7
  let parameter := (MemberRecord.plain ⟨"1", .parameter, "p_1_0_"⟩ "b").ownedBy 0
  Store.empty.insertMembers [field, parameter]

theorem strays_accepted : parse strays.document = .ok strays ∧ ¬ strays.Resolves := by
  have sound : strays.Sound := ⟨indexed_empty.insertMembers _, .nil, .nil, by decide +kernel⟩
  have grounded : strays.Grounded := by
    unfold Grounded
    decide +kernel
  have addressable : strays.Addressable :=
    ⟨by decide +kernel, by decide +kernel, by decide +kernel⟩
  have reread : Reread strays strays := reread_self sound grounded addressable (by decide +kernel)
  refine ⟨parse_document_iff.mpr ⟨reread, sound.flaw?_eq_none⟩, fun resolves => ?_⟩
  have unowned : ¬ strays.Owned := by decide +kernel
  exact unowned resolves.owners

end SymbolAtlas.Store

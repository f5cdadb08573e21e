import SymbolAtlas.Proofs.RenameOutcome
import SymbolAtlas.Proofs.VersionContents

/-! Names of arguments. Such a name is put together from a text, which may be any, and a slot in
decimals. Decimals hold no underscore, so the last underscore but one tells where the text ends, and
the name tells both parts. A rename goes by the name: in its version it reaches the arguments whose
methods have ids of this text and that are passed in this slot, whatever class they are in. -/
namespace SymbolAtlas

namespace Method

theorem underscore_not_mem_repr (n : Nat) : '_' ∉ n.repr.toList := by
  rw [Nat.toList_repr]
  intro member
  have digit := Nat.isDigit_of_mem_toDigits (by decide) (by decide) member
  revert digit
  decide

theorem eq_of_toList_repr {n k : Nat} (same : n.repr.toList = k.repr.toList) : n = k := by
  rw [Nat.toList_repr, Nat.toList_repr] at same
  calc
    n = Nat.ofDigitChars 10 (Nat.toDigits 10 n) 0 :=
      (Nat.ofDigitChars_toDigits (by decide) (by decide)).symm
    _ = Nat.ofDigitChars 10 (Nat.toDigits 10 k) 0 := by rw [same]
    _ = k := Nat.ofDigitChars_toDigits (by decide) (by decide)

/-- The last underscore but one parts the text from the slot. -/
theorem slotName_inj {stem stem' : String} {slot slot' : Nat} :
    slotName stem slot = slotName stem' slot' ↔ stem = stem' ∧ slot = slot' := by
  constructor
  · intro same
    have inner := (String.append_left_inj "_").mp same
    have chars := congrArg String.toList inner
    simp only [String.toList_append, List.append_assoc, List.append_cancel_left_eq] at chars
    have cut := Text.cutLast?_eq_some_iff.mpr ⟨chars, underscore_not_mem_repr slot'⟩
    have cut' := Text.cutLast?_eq_some_iff.mpr
      ⟨(rfl : stem.toList ++ '_' :: slot.repr.toList = _), underscore_not_mem_repr slot⟩
    obtain ⟨stems, slots⟩ := Prod.mk.inj (Option.some.inj (cut'.symm.trans cut))
    exact ⟨String.toList_inj.mp stems, eq_of_toList_repr slots⟩
  · rintro ⟨rfl, rfl⟩
    rfl

variable (m : Method)

theorem parameterNames_get {i : Nat} (bound : i < m.arity) :
    m.parameterNames[i]? = some (m.parameterName i) := by
  simp [parameterNames, bound]

theorem obfuscatedParameterNames_get {i : Nat} (bound : i < m.arity) :
    m.obfuscatedParameterNames[i]? = some (m.obfuscatedParameterName i) := by
  simp [obfuscatedParameterNames, bound]

theorem nodup_slotNames (stem : String) :
    ((List.range m.arity).map (fun i => slotName stem (m.firstSlot + i))).Nodup := by
  refine List.nodup_range.map (fun i j same => ?_)
  have slots := (slotName_inj.mp same).2
  omega

end Method

/-- Whether a symbol is an argument that is passed in the slot, of a method with an id of the
text. -/
def MemberSymbol.isInSlot (text : String) (slot : Nat) : MemberSymbol → Bool
  | argument m i _ => m.id.text = text && m.firstSlot + i = slot
  | _ => false

theorem MemberSymbol.label_eq_slotName_iff {x : MemberSymbol} {text : String} {slot : Nat} :
    x.label = (.parameter, Method.slotName text slot) ↔ x.isInSlot text slot = true := by
  cases x with
  | field f => simp [label, isInSlot]
  | method m => simp [label, isInSlot]
  | argument m i type =>
    have spelled : m.argumentName m.id.text i = Method.slotName m.id.text (m.firstSlot + i) := rfl
    simp [label, isInSlot, spelled, Method.slotName_inj]

theorem MemberSymbol.exists_slotName {x : MemberSymbol} (kind : x.label.1 = .parameter) :
    ∃ text slot, x.label.2 = Method.slotName text slot := by
  cases x with
  | field f => cases kind
  | method m => cases kind
  | argument m i type => exact ⟨m.id.text, m.firstSlot + i, rfl⟩

namespace Store

def membersIn (s : Store) (version : String) : List MemberRecord :=
  s.members.filter (fun m => m.key.version = version)

/-- A record behind a change, which reaches it or does not. -/
def pointed (entry : Nat) (reached : Bool) (m : MemberRecord) : MemberRecord :=
  if reached then { m with lastChange := some entry } else m

/-- A change of an argument's name, told by the symbols of its version: the records of the arguments
in one slot under one id point at the new entry, and all other records stay. -/
structure ReachesSlot (g : Graph) (s t : Store) (key : NameKey) (text : String) (slot : Nat) :
    Prop where
  name : key.name = Method.slotName text slot
  entry : ∃ e, t.ledger.entries = s.ledger.entries ++ [e] ∧ e.id = s.ledger.size ∧
    e.change.key = key
  /-- The records belong to the symbols one by one. -/
  labels : s.labelsIn key.version = g.labels
  within : t.membersIn key.version =
    List.zipWith (fun x m => pointed s.ledger.size (x.isInSlot text slot) m)
      (g.classes.toList.flatMap ClassSymbol.symbols) (s.membersIn key.version)
  elsewhere : t.members.filter (fun m => m.key.version ≠ key.version) =
    s.members.filter (fun m => m.key.version ≠ key.version)

theorem zipWith_of_forall₂ {related : α → β → Prop} {xs : List α} {ys : List β}
    (pairs : List.Forall₂ related xs ys) {f : α → β → γ} {g : β → γ}
    (agree : ∀ x, ∀ y ∈ ys, related x y → f x y = g y) : List.zipWith f xs ys = ys.map g := by
  induction pairs with
  | nil => rfl
  | @cons x y xs ys first _ ih =>
    have later := ih (fun x y member => agree x y (List.mem_cons_of_mem _ member))
    rw [List.zipWith_cons_cons, agree x y List.mem_cons_self first, later, List.map_cons]

theorem filter_enter (s : Store) (now : Instant) (change : NameChange) (p : NameKey → Bool) :
    (s.enter now change).members.filter (fun m => p m.key) =
      (s.members.filter (fun m => p m.key)).map
        (fun m => pointed s.ledger.size (m.key = change.key) m) := by
  have members : (s.enter now change).members =
      s.members.map (fun m => pointed s.ledger.size (m.key = change.key) m) := by
    refine List.map_congr_left (fun m _ => ?_)
    simp [pointed]
  have keys (m : MemberRecord) :
      (pointed s.ledger.size (m.key = change.key) m).key = m.key := by
    rw [pointed]
    split <;> rfl
  rw [members, List.filter_map]
  simp only [Function.comp_def, keys]

theorem key_eq_iff_label {m : MemberRecord} {key : NameKey}
    (version : m.key.version = key.version) : m.key = key ↔ m.label = (key.kind, key.name) := by
  rw [MemberRecord.label, Prod.mk.injEq]
  constructor
  · rintro rfl
    exact ⟨rfl, rfl⟩
  · rintro ⟨kind, name⟩
    calc
      m.key = ⟨m.key.version, m.key.kind, m.key.name⟩ := rfl
      _ = key := by rw [version, kind, name]

theorem reachesSlot_enter {g : Graph} {s : Store} {text : String} {slot : Nat} (now : Instant)
    (change : NameChange) (holds : Holds change.key.version g.labels s)
    (kind : change.key.kind = .parameter) (name : change.key.name = Method.slotName text slot) :
    ReachesSlot g s (s.enter now change) change.key text slot := by
  refine ⟨name, ⟨_, rfl, rfl, rfl⟩, holds.labels, ?_, ?_⟩
  · have labels : List.Forall₂ (fun (x : MemberSymbol) (m : MemberRecord) => x.label = m.label)
        (g.classes.toList.flatMap ClassSymbol.symbols) (s.membersIn change.key.version) := by
      have same : List.Forall₂ (· = ·) g.labels (s.labelsIn change.key.version) := by
        rw [List.forall₂_eq_eq_eq, holds.labels]
      exact List.forall₂_map_right_iff.mp (List.forall₂_map_left_iff.mp same)
    have reached := filter_enter s now change (fun k => k.version = change.key.version)
    refine reached.trans (zipWith_of_forall₂ labels (fun x m listed same => ?_)).symm
    have version := of_decide_eq_true (List.mem_filter.mp listed).2
    have key_iff : m.key = change.key ↔ x.isInSlot text slot = true := by
      rw [← MemberSymbol.label_eq_slotName_iff, same, ← name, ← kind]
      exact key_eq_iff_label version
    rw [Bool.eq_iff_iff.mpr (key_iff.symm.trans decide_eq_true_iff.symm)]
  · rw [filter_enter s now change (fun k => k.version ≠ change.key.version)]
    refine (List.map_congr_left (fun m listed => ?_)).trans (List.map_id _)
    have other := of_decide_eq_true (List.mem_filter.mp listed).2
    have apart : m.key ≠ change.key := fun same => other (by rw [same])
    simp [pointed, apart]

theorem reachesSlot_of_rename {steps : List Step} {g : Graph} {admins : Permissions} {now : Instant}
    {actor : String} {request : RenameRequest} {old : Option String} {t : Store}
    (imported : ImportedFrom steps request.key.version g) (kind : request.key.kind = .parameter)
    (renamed : (rename admins now actor request).applyTo (replay Step.run steps .empty) =
      (.ok ⟨true, old⟩, t)) :
    ∃ text slot, ReachesSlot g (replay Step.run steps .empty) t request.key text slot := by
  have coherent : (replay Step.run steps .empty).Coherent := coherent_of_replay steps
  have sound : (replay Step.run steps .empty).Sound := sound_of_replay .empty steps
  have holds := holds_of_importedFrom imported
  rw [coherent.applyTo_rename sound] at renamed
  split at renamed
  case h_1 => cases renamed
  case h_2 passed =>
    split at renamed
    case isTrue => cases renamed
    case isFalse =>
      obtain ⟨_, rfl⟩ := Prod.mk.inj renamed
      obtain ⟨m, member, key⟩ := coherent.known_of_refusal? sound passed
      have listed : m.label ∈ g.labels := by
        rw [← holds.labels]
        exact List.mem_map_of_mem (List.mem_filter.mpr ⟨member, by simp [key]⟩)
      obtain ⟨x, _, same⟩ := List.mem_map.mp listed
      have label : x.label = (request.key.kind, request.key.name) := by
        rw [same, MemberRecord.label, key]
      obtain ⟨text, slot, name⟩ := MemberSymbol.exists_slotName (x := x) (by rw [label, kind])
      rw [label] at name
      exact ⟨text, slot, reachesSlot_enter now ⟨request.key, actor, request.final⟩ holds kind name⟩

/-- Two arguments have one name exactly if the ids of their methods have one text and their slots
are the same; the obfuscated names go by the obfuscated names of the methods. So no method has an
argument name twice, and a rename of one reaches the arguments in that slot under that id. -/
theorem argument_names_exact :
    (∀ m₁ m₂ : Method, ∀ i j, i < m₁.arity → j < m₂.arity →
      ((m₁.parameterNames[i]? = m₂.parameterNames[j]? ↔
          m₁.id.text = m₂.id.text ∧ m₁.firstSlot + i = m₂.firstSlot + j) ∧
        (m₁.obfuscatedParameterNames[i]? = m₂.obfuscatedParameterNames[j]? ↔
          m₁.obfuscated = m₂.obfuscated ∧ m₁.firstSlot + i = m₂.firstSlot + j))) ∧
    (∀ m : Method, m.parameterNames.Nodup ∧ m.obfuscatedParameterNames.Nodup) ∧
    ∀ steps g admins now actor request old t,
      ImportedFrom steps request.key.version g → request.key.kind = .parameter →
      (rename admins now actor request).applyTo (replay Step.run steps .empty) =
        (.ok ⟨true, old⟩, t) →
      ∃ text slot, ReachesSlot g (replay Step.run steps .empty) t request.key text slot := by
  refine ⟨fun m₁ m₂ i j bound bound' => ⟨?_, ?_⟩, fun m => ?_, ?_⟩
  · rw [m₁.parameterNames_get bound, m₂.parameterNames_get bound', Option.some.injEq]
    exact Method.slotName_inj
  · rw [m₁.obfuscatedParameterNames_get bound, m₂.obfuscatedParameterNames_get bound',
      Option.some.injEq]
    exact Method.slotName_inj
  · exact ⟨m.nodup_slotNames m.id.text, m.nodup_slotNames m.obfuscated⟩
  · exact fun _ _ _ _ _ _ _ _ imported kind renamed => reachesSlot_of_rename imported kind renamed

/-- A method that two classes share, and one whose obfuscated name looks like an id and a slot. -/
def lookalike : Graph :=
  match Graph.read "a Base\n\tc (I)V func_2_c\n\t2_1 (I)V run\nb Sub\n\tc (I)V func_2_c\n" with
  | .error _ => .empty
  | .ok graph => graph

def lookalikeSteps : List Step := [.operation (.importGraph ⟨0, 0⟩ "1" lookalike "0")]

/-- The shared argument is reached in both classes, and the other one is not. -/
theorem argument_names_exact_lookalike :
    let request : RenameRequest := ⟨⟨"1", .parameter, "p_2_1_"⟩, "speed", false⟩
    let s := replay Step.run lookalikeSteps .empty
    ∃ t, ImportedFrom lookalikeSteps "1" lookalike ∧
      (rename (fun _ => false) ⟨120, 0⟩ "bob" request).applyTo s = (.ok ⟨true, none⟩, t) ∧
      ReachesSlot lookalike s t request.key "2" 1 ∧
      (t.membersIn "1").map (fun m => (m.key.name, m.lastChange)) =
        [("func_2_c", none), ("p_2_1_", some 0), ("run", none), ("p_2_1_1_", none),
          ("func_2_c", none), ("p_2_1_", some 0)] := by
  intro request s
  have imported : ImportedFrom lookalikeSteps "1" lookalike :=
    ⟨[], _, _, _, ⟨2, 0, 0, 3, 3⟩, rfl, by decide +kernel⟩
  have answered : ((rename (fun _ => false) ⟨120, 0⟩ "bob" request).applyTo s).1 =
        .ok ⟨true, none⟩ ∧
      (((rename (fun _ => false) ⟨120, 0⟩ "bob" request).applyTo s).2.membersIn "1").map
        (fun m => (m.key.name, m.lastChange)) =
        [("func_2_c", none), ("p_2_1_", some 0), ("run", none), ("p_2_1_1_", none),
          ("func_2_c", none), ("p_2_1_", some 0)] := by
    decide +kernel
  cases done : (rename (fun _ => false) ⟨120, 0⟩ "bob" request).applyTo s with
  | mk answer t =>
    rw [done] at answered
    obtain ⟨rfl, members⟩ := answered
    obtain ⟨text, slot, reaches⟩ := argument_names_exact.2.2 lookalikeSteps lookalike
      (fun _ => false) ⟨120, 0⟩ "bob" request none t imported rfl done
    have name : Method.slotName "2" 1 = Method.slotName text slot := reaches.name
    obtain ⟨rfl, rfl⟩ := Method.slotName_inj.mp name
    exact ⟨t, imported, rfl, reaches, members⟩

end Store

end SymbolAtlas

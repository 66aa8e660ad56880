import Reconcile.Json.Records
import Reconcile.Proofs.Json.Reader
import Reconcile.Proofs.Text.Splice

/-! The JSON form of a value is decoded to that value. A form may nest as deep as its type does, and
the integers in it have to fit in 64 bits; both are what its text needs to be read back. -/

namespace Reconcile.Json

variable {α : Type}

theorem Legible.mono {depth more : Nat} {v : Value} (legible : Legible depth v)
    (deeper : depth ≤ more) : Legible more v := by
  induction legible generalizing more with
  | null => exact .null
  | bool b => exact .bool b
  | integer held => exact .integer held
  | string text => exact .string text
  | array _ ih =>
    cases more with
    | zero => exact absurd deeper (Nat.not_succ_le_zero _)
    | succ more => exact .array fun item h => ih item h (Nat.le_of_succ_le_succ deeper)
  | object _ ih =>
    cases more with
    | zero => exact absurd deeper (Nat.not_succ_le_zero _)
    | succ more => exact .object fun field h => ih field h (Nat.le_of_succ_le_succ deeper)

theorem allReadable_of_forall {items : List Value}
    (each : ∀ item ∈ items, item.isReadable = true) : Value.allReadable items = true := by
  induction items with
  | nil => rfl
  | cons item items ih =>
    rw [List.forall_mem_cons] at each
    rw [Value.allReadable, each.1, ih each.2]
    rfl

theorem fieldsReadable_of_forall {fields : List (String × Value)}
    (each : ∀ field ∈ fields, field.2.isReadable = true) :
    Value.fieldsReadable fields = true := by
  induction fields with
  | nil => rfl
  | cons field fields ih =>
    rw [List.forall_mem_cons] at each
    rw [Value.fieldsReadable, each.1, ih each.2]
    rfl

theorem Legible.isReadable {depth : Nat} {v : Value} (legible : Legible depth v) :
    v.isReadable = true := by
  induction legible with
  | array _ ih => exact allReadable_of_forall ih
  | object _ ih => exact fieldsReadable_of_forall ih
  | _ => rfl

/-- A type whose values can be told from their JSON form, those that fit: `levels` says how deep the
form nests at most. -/
class Lossless (α : Type) [Coded α] where
  Fits : α → Prop
  levels : Nat
  legible : ∀ x, Fits x → Legible levels (encode x)
  decode_encode : ∀ x, Fits x → decode? (encode x) = some x
  decodePart_encode : ∀ x, Fits x → decodePart? (encode x) = some x
  encode_ne_null : ∀ x : α, encode x ≠ .null

export Lossless (Fits levels legible decode_encode decodePart_encode encode_ne_null)

theorem read?_encode [Coded α] [Lossless α] (shallow : levels α ≤ maxDepth) {x : α}
    (fits : Fits x) : (read? (encode x).pretty >>= decode?) = some x := by
  rw [read?_pretty ((legible x fits).mono shallow)]
  exact decode_encode x fits

instance : Lossless String where
  Fits _ := True
  levels := 0
  legible text _ := .string text
  decode_encode _ _ := rfl
  decodePart_encode _ _ := rfl
  encode_ne_null _ := Value.noConfusion

instance : Lossless Bool where
  Fits _ := True
  levels := 0
  legible b _ := .bool b
  decode_encode _ _ := rfl
  decodePart_encode _ _ := rfl
  encode_ne_null _ := Value.noConfusion

instance : Lossless Int where
  Fits n := Width.Signed64 n
  levels := 0
  legible _ fits := .integer (.inl fits)
  decode_encode _ fits := if_pos fits
  decodePart_encode _ fits := if_pos fits
  encode_ne_null _ := Value.noConfusion

theorem decode_nat {n : Nat} (fits : Width.Unsigned64 n) : decode? (encode n) = some n :=
  (if_pos fits).trans (congrArg some (Int.toNat_natCast n))

instance : Lossless Nat where
  Fits n := Width.Unsigned64 n
  levels := 0
  legible _ fits := .integer (.inr fits)
  decode_encode _ := decode_nat
  decodePart_encode _ := decode_nat
  encode_ne_null _ := Value.noConfusion

instance : Lossless Revision where
  Fits r := Fits r.value
  levels := 0
  legible r fits := legible r.value fits
  decode_encode r fits := congrArg (Option.map Revision.mk) (decode_encode r.value fits)
  decodePart_encode r fits := congrArg (Option.map Revision.mk) (decode_encode r.value fits)
  encode_ne_null _ := Value.noConfusion

instance : Lossless Text.Document where
  Fits _ := True
  levels := 0
  legible doc _ := .string (String.ofList doc)
  decode_encode doc _ := congrArg some (String.toList_ofList (l := doc))
  decodePart_encode doc _ := congrArg some (String.toList_ofList (l := doc))
  encode_ne_null _ := Value.noConfusion

section containers

variable [Coded α] [Lossless α]

instance : Lossless (List α) where
  Fits xs := ∀ x ∈ xs, Fits x
  levels := levels α + 1
  legible xs fits := .array fun item h => by
    obtain ⟨x, member, rfl⟩ := List.mem_map.1 h
    exact legible x (fits x member)
  decode_encode xs fits := by
    have each := mapM_map (g := id) fun x h => decode_encode x (fits x h)
    rwa [List.map_id] at each
  decodePart_encode xs fits := by
    have each := mapM_map (g := id) fun x h => decodePart_encode x (fits x h)
    rwa [List.map_id] at each
  encode_ne_null _ := Value.noConfusion

theorem decode_option {x : Option α} (fits : ∀ y ∈ x, Fits y) : decode? (encode x) = some x := by
  cases x with
  | none => rfl
  | some y =>
    have decoded := decode_encode y (fits y rfl)
    have there := encode_ne_null y
    change (decode? (encode y) : Option (Option α)) = some (some y)
    generalize encode y = v at decoded there ⊢
    cases v with
    | null => exact absurd rfl there
    | _ => exact congrArg (Option.map some) decoded

theorem legible_option {x : Option α} (fits : ∀ y ∈ x, Fits y) : Legible (levels α) (encode x) := by
  cases x with
  | none => exact .null
  | some y => exact legible y (fits y rfl)

theorem decode_set (s : Std.ExtTreeSet String) : decode? (encode s) = some s := by
  have members : Std.ExtTreeSet.ofList s.toList = s := by
    apply Std.ExtTreeSet.ext_mem
    intro key
    rw [Std.ExtTreeSet.mem_ofList, List.contains_iff_mem, Std.ExtTreeSet.mem_toList]
  change (decode? (encode s.toList)).map (fun keys : List String => .ofList keys) = some s
  rw [decode_encode s.toList fun _ _ => trivial, Option.map_some, members]

instance : Lossless (Std.ExtTreeSet String) where
  Fits _ := True
  levels := 1
  legible s _ := legible s.toList fun _ _ => trivial
  decode_encode s _ := decode_set s
  decodePart_encode s _ := decode_set s
  encode_ne_null _ := Value.noConfusion

omit [Coded α] [Lossless α] in
theorem ofList_toList (m : Std.ExtTreeMap String α) : Std.ExtTreeMap.ofList m.toList = m := by
  apply Std.ExtTreeMap.ext_getElem?
  intro key
  cases found : m[key]? with
  | none =>
    refine Std.ExtTreeMap.getElem?_ofList_of_contains_eq_false ?_
    rw [List.contains_eq_mem, decide_eq_false_iff_not]
    intro member
    obtain ⟨⟨other, x⟩, there, rfl⟩ := List.mem_map.1 member
    rw [Std.ExtTreeMap.mem_toList_iff_getElem?_eq_some.1 there] at found
    cases found
  | some x =>
    exact Std.ExtTreeMap.getElem?_ofList_of_mem Std.ReflCmp.compare_self
      Std.ExtTreeMap.distinct_keys_toList (Std.ExtTreeMap.mem_toList_iff_getElem?_eq_some.2 found)

theorem decode_map {m : Std.ExtTreeMap String α} (fits : ∀ entry ∈ m.toList, Fits entry.2) :
    decode? (encode m) = some m := by
  have entries : decodeEntries? (encode m) = some m.toList :=
    (mapM_map (g := id) fun entry h =>
      congrArg (Option.map (entry.1, ·)) (decode_encode entry.2 (fits entry h))).trans
      (congrArg some (List.map_id _))
  refine (congrArg (Option.map _) entries).trans ?_
  rw [Option.map_some, ofList_toList]

instance : Lossless (Std.ExtTreeMap String α) where
  Fits m := ∀ entry ∈ m.toList, Fits entry.2
  levels := levels α + 1
  legible m fits := .object fun field h => by
    obtain ⟨entry, member, rfl⟩ := List.mem_map.1 h
    exact legible entry.2 (fits entry member)
  decode_encode _ := decode_map
  decodePart_encode _ := decode_map
  encode_ne_null _ := Value.noConfusion

end containers

section records

variable {fields : List (String × Value)}

theorem field?_of_mem (distinct : (fields.map Prod.fst).Nodup) {field : String × Value}
    (member : field ∈ fields) : Value.field? fields field.1 = some (some field.2) := by
  have alone : fields.filter (·.1 == field.1) = [field] := by
    induction fields with
    | nil => cases member
    | cons other fields ih =>
      rw [List.map_cons, List.nodup_cons] at distinct
      rcases List.mem_cons.1 member with rfl | later
      · rw [List.filter_cons_of_pos (by simp), List.filter_eq_nil_iff.2]
        intro f h same
        exact distinct.1 (List.mem_map.2 ⟨f, h, beq_iff_eq.1 same⟩)
      · rw [List.filter_cons_of_neg, ih distinct.2 later]
        intro same
        exact distinct.1 (List.mem_map.2 ⟨field, later, (beq_iff_eq.1 same).symm⟩)
  rw [Value.field?, alone]

theorem record?_object (distinct : (fields.map Prod.fst).Nodup) :
    Value.record? (fields.map Prod.fst) (.object fields) = some (fields.map (some ·.2)) :=
  mapM_map fun _ => field?_of_mem distinct

theorem tagged?_object {tag name : String} (places : List String)
    (readable : Value.fieldsReadable fields = true) (distinct : (tag :: fields.map Prod.fst).Nodup) :
    Value.tagged? tag places (.object ((tag, .string name) :: fields)) =
      some (name, .object fields) := by
  have found : Value.field? ((tag, .string name) :: fields) tag = some (some (.string name)) :=
    field?_of_mem (show (((tag, Value.string name) :: fields).map Prod.fst).Nodup from distinct)
      List.mem_cons_self
  have rest : ((tag, .string name) :: fields).filter (·.1 != tag) = fields := by
    rw [List.filter_cons_of_neg (by simp), List.filter_eq_self]
    intro f h
    have other : f.1 ≠ tag := fun same =>
      (List.nodup_cons.1 distinct).1 (List.mem_map.2 ⟨f, h, same⟩)
    simpa using other
  have whole : (Value.object ((tag, .string name) :: fields)).isReadable = true := by
    rw [Value.isReadable, Value.fieldsReadable, readable]
    rfl
  rw [Value.tagged?, if_pos whole]
  simp only [found, rest, bind, Option.bind, Value.tagName?]
  rfl

end records

theorem decode_room (room : Room) : decode? (encode room) = some room := by
  refine Option.bind_eq_some_iff.2 ⟨_, record?_object (by simp), ?_⟩
  refine Option.bind_eq_some_iff.2 ⟨_, decode_encode room.participants trivial, ?_⟩
  exact Option.bind_eq_some_iff.2 ⟨_, decode_encode room.deleted trivial, rfl⟩

instance : Lossless Room where
  Fits _ := True
  levels := 2
  legible room _ := by
    refine .object ?_
    simp only [List.forall_mem_cons, List.not_mem_nil, false_imp_iff, implies_true, and_true]
    exact ⟨legible room.participants trivial, (legible room.deleted trivial).mono (Nat.zero_le _)⟩
  decode_encode room _ := decode_room room
  decodePart_encode room _ := decode_room room
  encode_ne_null _ := Value.noConfusion

theorem legible_edit {e : Text.Edit} (fits : Width.Unsigned64 e.pos) : Legible 1 (encode e) := by
  cases e <;>
  · refine .object ?_
    simp only [List.forall_mem_cons, List.not_mem_nil, false_imp_iff, implies_true, and_true]
    refine ⟨.string _, .integer (.inr fits), ?_⟩
    first | exact .string _ | exact ⟨.string _, .string _⟩

section edits

variable {places : List String} {v p t u : Value} {pos : Nat} {text new : List Char}

-- the fields are values at large in these lemmas, for those of an edit would be unfolded with it
theorem decodeEdit?_insert
    (tagged : v.tagged? "type" places = some ("Insert", .object [("pos", p), ("text", t)]))
    (first : decode? p = some pos) (second : decode? t = some text) :
    decodeEdit? places v = some (.insert pos text) := by
  have found : Value.record? ["pos", "text"] (.object [("pos", p), ("text", t)]) =
      some [some p, some t] := record?_object (by simp)
  rw [decodeEdit?, tagged]
  simp only [Option.bind_eq_bind, Option.bind_some, found, first, second]
  rfl

theorem decodeEdit?_delete
    (tagged : v.tagged? "type" places = some ("Delete", .object [("pos", p), ("text", t)]))
    (first : decode? p = some pos) (second : decode? t = some text) :
    decodeEdit? places v = some (.delete pos text) := by
  have found : Value.record? ["pos", "text"] (.object [("pos", p), ("text", t)]) =
      some [some p, some t] := record?_object (by simp)
  rw [decodeEdit?, tagged]
  simp only [Option.bind_eq_bind, Option.bind_some, found, first, second]
  rfl

theorem decodeEdit?_replace
    (tagged : v.tagged? "type" places =
      some ("Replace", .object [("pos", p), ("old", t), ("new", u)]))
    (first : decode? p = some pos) (second : decode? t = some text) (third : decode? u = some new) :
    decodeEdit? places v = some (.replace pos text new) := by
  have found : Value.record? ["pos", "old", "new"]
      (.object [("pos", p), ("old", t), ("new", u)]) = some [some p, some t, some u] :=
    record?_object (by simp)
  rw [decodeEdit?, tagged]
  simp only [Option.bind_eq_bind, Option.bind_some, found, first, second, third]
  rfl

theorem decodeEdit?_encode (places : List String) {e : Text.Edit}
    (fits : Width.Unsigned64 e.pos) : decodeEdit? places (encode e) = some e := by
  cases e with
  | insert pos text =>
    exact decodeEdit?_insert (tagged?_object places rfl (by simp)) (decode_nat fits)
      (decode_encode text trivial)
  | delete pos text =>
    exact decodeEdit?_delete (tagged?_object places rfl (by simp)) (decode_nat fits)
      (decode_encode text trivial)
  | replace pos old new =>
    exact decodeEdit?_replace (tagged?_object places rfl (by simp)) (decode_nat fits)
      (decode_encode old trivial) (decode_encode new trivial)

end edits

instance : Lossless Text.Edit where
  Fits e := Width.Unsigned64 e.pos
  levels := 1
  legible _ := legible_edit
  decode_encode _ := decodeEdit?_encode []
  decodePart_encode _ := decodeEdit?_encode ["Insert", "Delete", "Replace"]
  encode_ne_null e := by cases e <;> exact Value.noConfusion

theorem legible_change (c : Room.Change) : Legible 2 (encode c) := by
  cases c <;>
  · refine .object ?_
    simp only [List.forall_mem_cons, List.not_mem_nil, false_imp_iff, implies_true, and_true]
    refine ⟨.string _, ?_⟩
    first
    | exact .string _
    | exact ⟨.string _, legible (_ : Room.Participants) trivial⟩

theorem decodeChange?_encode (places : List String) (c : Room.Change) :
    decodeChange? places (encode c) = some c := by
  have alone (id : Value) : Value.record? ["id"] (.object [("id", id)]) = some [some id] :=
    record?_object (by simp)
  have found (id participants : Value) : Value.record? ["id", "participants"]
      (.object [("id", id), ("participants", participants)]) = some [some id, some participants] :=
    record?_object (by simp)
  cases c with
  | add id participants =>
    have tagged : Value.tagged? "type" places (encode (Room.Change.add id participants)) =
        some ("Add", .object [("id", encode id), ("participants", encode participants)]) :=
      tagged?_object places
        (fieldsReadable_of_forall (by simp [(legible id trivial).isReadable,
          (legible participants trivial).isReadable])) (by simp)
    rw [decodeChange?, tagged]
    simp only [Option.bind_eq_bind, Option.bind_some, found, decode_encode id trivial,
      decode_encode participants trivial]
    rfl
  | delete id =>
    have tagged : Value.tagged? "type" places (encode (Room.Change.delete id)) =
        some ("Delete", .object [("id", encode id)]) := tagged?_object places rfl (by simp)
    rw [decodeChange?, tagged]
    simp only [Option.bind_eq_bind, Option.bind_some, alone, decode_encode id trivial]
    rfl
  | restore id =>
    have tagged : Value.tagged? "type" places (encode (Room.Change.restore id)) =
        some ("Restore", .object [("id", encode id)]) := tagged?_object places rfl (by simp)
    rw [decodeChange?, tagged]
    simp only [Option.bind_eq_bind, Option.bind_some, alone, decode_encode id trivial]
    rfl
  | withdraw id participants =>
    have tagged : Value.tagged? "type" places (encode (Room.Change.withdraw id participants)) =
        some ("Withdraw", .object [("id", encode id), ("participants", encode participants)]) :=
      tagged?_object places
        (fieldsReadable_of_forall (by simp [(legible id trivial).isReadable,
          (legible participants trivial).isReadable])) (by simp)
    rw [decodeChange?, tagged]
    simp only [Option.bind_eq_bind, Option.bind_some, found, decode_encode id trivial,
      decode_encode participants trivial]
    rfl

instance : Lossless Room.Change where
  Fits _ := True
  levels := 2
  legible c _ := legible_change c
  decode_encode c _ := decodeChange?_encode [] c
  decodePart_encode c _ := decodeChange?_encode ["Add", "Delete", "Restore", "Withdraw"] c
  encode_ne_null c := by cases c <;> exact Value.noConfusion

variable {σ op V : Type}

section writes

variable [Coded V] [Lossless V]

theorem decode_write {w : Register.Write String V} (before : ∀ x ∈ w.before, Fits x)
    (after : ∀ x ∈ w.after, Fits x) : decode? (encode w) = some w := by
  refine Option.bind_eq_some_iff.2 ⟨_, record?_object (by simp), ?_⟩
  refine Option.bind_eq_some_iff.2 ⟨_, decode_encode w.key trivial, ?_⟩
  refine Option.bind_eq_some_iff.2 ⟨_, decode_option before, ?_⟩
  exact Option.bind_eq_some_iff.2 ⟨_, decode_option after, rfl⟩

instance : Lossless (Register.Write String V) where
  Fits w := (∀ x ∈ w.before, Fits x) ∧ ∀ x ∈ w.after, Fits x
  levels := levels V + 1
  legible w fits := by
    refine .object ?_
    simp only [List.forall_mem_cons, List.not_mem_nil, false_imp_iff, implies_true, and_true]
    exact ⟨.string w.key, legible_option fits.1, legible_option fits.2⟩
  decode_encode _ fits := decode_write fits.1 fits.2
  decodePart_encode _ fits := decode_write fits.1 fits.2
  encode_ne_null _ := Value.noConfusion

end writes

section snapshots

variable [Coded σ] [Coded op] [Lossless σ] [Lossless op]

theorem decode_snapshot {s : Snapshot σ op} (revision : Fits s.revision) (base : Fits s.base)
    (inflight : Fits s.inflight) (pending : Fits s.pending) : decode? (encode s) = some s := by
  refine Option.bind_eq_some_iff.2 ⟨_, record?_object (by simp), ?_⟩
  refine Option.bind_eq_some_iff.2 ⟨_, decode_encode _ revision, ?_⟩
  refine Option.bind_eq_some_iff.2 ⟨_, decode_encode _ base, ?_⟩
  refine Option.bind_eq_some_iff.2 ⟨_, decode_encode _ inflight, ?_⟩
  exact Option.bind_eq_some_iff.2 ⟨_, decode_encode _ pending, rfl⟩

instance : Lossless (Snapshot σ op) where
  Fits s := Fits s.revision ∧ Fits s.base ∧ Fits s.inflight ∧ Fits s.pending
  levels := max (levels σ) (levels op + 1) + 1
  legible s fits := by
    obtain ⟨revision, base, inflight, pending⟩ := fits
    refine .object ?_
    simp only [List.forall_mem_cons, List.not_mem_nil, false_imp_iff, implies_true, and_true]
    exact ⟨(legible _ revision).mono (Nat.zero_le _), (legible _ base).mono (Nat.le_max_left ..),
      (legible _ inflight).mono (Nat.le_max_right ..),
      (legible _ pending).mono (Nat.le_max_right ..)⟩
  decode_encode _ fits := decode_snapshot fits.1 fits.2.1 fits.2.2.1 fits.2.2.2
  decodePart_encode _ fits := decode_snapshot fits.1 fits.2.1 fits.2.2.1 fits.2.2.2
  encode_ne_null _ := Value.noConfusion

end snapshots

end Reconcile.Json

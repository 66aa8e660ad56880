import Mathlib.Data.List.Induction
import Reconcile.Proofs.Grid
import Reconcile.Proofs.Storage.Path
import Reconcile.Storage.Disk

/-! A folder of a disk that files come and go in. Whether its names lead anywhere depends on the
folders alone, which are never taken away; so a file in it is read and written at one place, and
what happens to other files there does not matter to it. -/

namespace Reconcile.Storage.Disk

open Storage.Path (names join)

variable {d d' : Disk} {place folder : List String} {file dir : String} {text : String}

def Grounded (d : Disk) : Prop :=
  ∀ folder name, (d[folder ++ [name]]?).isSome = true → d.nodeAt? folder = some .folder

def KeepsFolders (d d' : Disk) : Prop :=
  ∀ place, d.nodeAt? place = some .folder → d'.nodeAt? place = some .folder

theorem KeepsFolders.refl (d : Disk) : d.KeepsFolders d := fun _ h => h

theorem KeepsFolders.trans {d'' : Disk} (first : d.KeepsFolders d') (second : d'.KeepsFolders d'') :
    d.KeepsFolders d'' := fun place h => second place (first place h)

theorem nodeAt?_concat (d : Disk) (folder : List String) (name : String) :
    d.nodeAt? (folder ++ [name]) = d[folder ++ [name]]? := by
  simp [nodeAt?]

theorem getElem?_insert_other {other : String} (different : other ≠ file) (node : Node) :
    (d.insert (folder ++ [file]) node)[folder ++ [other]]? = d[folder ++ [other]]? := by
  rw [Std.ExtTreeMap.getElem?_insert, if_neg (by simpa using Ne.symm different)]

theorem getElem?_erase_other {other : String} (different : other ≠ file) :
    (d.erase (folder ++ [file]))[folder ++ [other]]? = d[folder ++ [other]]? := by
  rw [Std.ExtTreeMap.getElem?_erase, if_neg (by simpa using Ne.symm different)]

theorem Grounded.dropLast (grounded : d.Grounded) (inside : d.nodeAt? place = some .folder) :
    d.nodeAt? place.dropLast = some .folder := by
  rcases List.eq_nil_or_concat place with rfl | ⟨folder, name, rfl⟩
  · exact inside
  · rw [List.concat_eq_append] at *
    rw [List.dropLast_concat]
    rw [nodeAt?_concat] at inside
    exact grounded folder name (by simp [inside])

theorem Grounded.of_append (grounded : d.Grounded) {names : List String}
    (inside : d.nodeAt? (place ++ names) = some .folder) : d.nodeAt? place = some .folder := by
  induction names using List.reverseRecOn with
  | nil => rwa [List.append_nil] at inside
  | append_singleton names name ih =>
    rw [← List.append_assoc] at inside
    have above := grounded.dropLast inside
    rw [List.dropLast_concat] at above
    exact ih above

theorem Grounded.insert (grounded : d.Grounded) (inside : d.nodeAt? folder = some .folder)
    (node : Node) (free : d[folder ++ [file]]? = some .folder → node = .folder) :
    let d' := d.insert (folder ++ [file]) node
    Grounded d' ∧ d.KeepsFolders d' := by
  intro d'
  have keeps : d.KeepsFolders d' := by
    intro place h
    rcases List.eq_nil_or_concat place with rfl | ⟨above, name, rfl⟩
    · rfl
    · rw [List.concat_eq_append, nodeAt?_concat] at *
      rw [Std.ExtTreeMap.getElem?_insert]
      split
      · rename_i same
        rw [free (Std.LawfulEqOrd.compare_eq_iff_eq.1 same ▸ h)]
      · exact h
  refine ⟨fun above name h => ?_, keeps⟩
  rw [Std.ExtTreeMap.getElem?_insert] at h
  split at h
  · rename_i same
    obtain ⟨rfl, -⟩ := List.append_inj' (Std.LawfulEqOrd.compare_eq_iff_eq.1 same) rfl
    exact keeps _ inside
  · exact keeps _ (grounded above name h)

theorem Grounded.erase (grounded : d.Grounded)
    (found : d[folder ++ [file]]? = some (.file text)) :
    let d' := d.erase (folder ++ [file])
    Grounded d' ∧ d.KeepsFolders d' := by
  intro d'
  have keeps : d.KeepsFolders d' := by
    intro place h
    rcases List.eq_nil_or_concat place with rfl | ⟨above, name, rfl⟩
    · rfl
    · rw [List.concat_eq_append, nodeAt?_concat] at *
      have different : folder ++ [file] ≠ above ++ [name] := fun same => by simp [same ▸ h] at found
      rwa [Std.ExtTreeMap.getElem?_erase, if_neg (by simpa using different)]
  refine ⟨fun above name h => ?_, keeps⟩
  rw [Std.ExtTreeMap.getElem?_erase] at h
  split at h
  · cases h
  · exact keeps _ (grounded above name h)

def Short (name : String) : Prop := name.utf8ByteSize ≤ maxNameBytes

instance (name : String) : Decidable (Short name) := inferInstanceAs (Decidable (_ ≤ _))

def enter (d : Disk) : List String → List String → Option (List String)
  | place, [] => some place
  | place, name :: names =>
    if name = ".." then enter d place.dropLast names
    else if Short name ∧ d.nodeAt? (place ++ [name]) = some .folder then
      enter d (place ++ [name]) names
    else none

theorem enter_cons {name : String} {names : List String} :
    d.enter place (name :: names) = some folder ↔
      name = ".." ∧ d.enter place.dropLast names = some folder ∨
        name ≠ ".." ∧ Short name ∧ d.nodeAt? (place ++ [name]) = some .folder ∧
          d.enter (place ++ [name]) names = some folder := by
  rw [enter]
  by_cases up : name = ".."
  · simp [up]
  · by_cases below : Short name ∧ d.nodeAt? (place ++ [name]) = some .folder
    · simp [up, below]
    · rw [if_neg up, if_neg below]
      simp only [up, false_and, false_or, ne_eq, not_false_iff, true_and, reduceCtorEq, false_iff]
      exact fun h => below ⟨h.1, h.2.1⟩

theorem walk_concat (place names : List String) (file : String) :
    (d.walk place (names ++ [file])).toOption =
      (d.enter place names).bind fun folder => (d.walk folder [file]).toOption := by
  induction names generalizing place with
  | nil => rfl
  | cons name names ih =>
    rw [List.cons_append, walk, enter]
    by_cases up : name = ".."
    · rw [if_pos up, if_pos up, ih]
    rw [if_neg up, if_neg up]
    by_cases long : maxNameBytes < name.utf8ByteSize
    · rw [if_pos long, if_neg fun h => absurd h.1 (Nat.not_le.2 long)]
      rfl
    rw [if_neg long, if_neg (by simp)]
    -- which fault it is when there is no such folder does not matter
    rcases inside : d.nodeAt? (place ++ [name]) with - | (- | text)
    · rw [if_neg (by simp)]
      rfl
    · rw [if_pos ⟨Nat.not_lt.1 long, rfl⟩]
      exact ih _
    · rw [if_neg (by simp)]
      rfl

theorem enter_mono (keeps : d.KeepsFolders d') {names : List String}
    (entered : d.enter place names = some folder) : d'.enter place names = some folder := by
  induction names generalizing place with
  | nil => exact entered
  | cons name names ih =>
    rcases enter_cons.1 entered with ⟨up, entered⟩ | ⟨down, short, inside, entered⟩
    · exact enter_cons.2 (.inl ⟨up, ih entered⟩)
    · exact enter_cons.2 (.inr ⟨down, short, keeps _ inside, ih entered⟩)

theorem Grounded.enter (grounded : d.Grounded) {names : List String}
    (inside : d.nodeAt? place = some .folder) (entered : d.enter place names = some folder) :
    d.nodeAt? folder = some .folder := by
  induction names generalizing place with
  | nil =>
    obtain rfl := Option.some.inj entered
    exact inside
  | cons name names ih =>
    rcases enter_cons.1 entered with ⟨-, entered⟩ | ⟨-, -, below, entered⟩
    · exact ih (grounded.dropLast inside) entered
    · exact ih below entered

theorem enter_eq_append {names : List String} (down : ".." ∉ names)
    (entered : d.enter place names = some folder) : folder = place ++ names := by
  induction names generalizing place with
  | nil =>
    obtain rfl := Option.some.inj entered
    exact (List.append_nil place).symm
  | cons name names ih =>
    rw [List.mem_cons, not_or] at down
    rcases enter_cons.1 entered with ⟨up, -⟩ | ⟨-, -, -, entered⟩
    · exact absurd up.symm down.1
    · rw [ih down.2 entered, List.append_assoc, List.singleton_append]

theorem Grounded.enter_append (grounded : d.Grounded) {names : List String} (place : List String)
    (down : ".." ∉ names) (short : ∀ name ∈ names, Short name)
    (inside : d.nodeAt? (place ++ names) = some .folder) :
    d.enter place names = some (place ++ names) := by
  induction names generalizing place with
  | nil => rw [Disk.enter, List.append_nil]
  | cons name names ih =>
    rw [List.mem_cons, not_or] at down
    rw [List.forall_mem_cons] at short
    rw [List.append_cons] at inside ⊢
    exact enter_cons.2 (.inr ⟨Ne.symm down.1, short.1, grounded.of_append inside,
      ih _ down.2 short.2 inside⟩)

theorem short_of_enter {names : List String} (entered : d.enter place names = some folder) :
    ∀ name ∈ names, name ≠ ".." → Short name := by
  induction names generalizing place with
  | nil => exact fun _ h => nomatch h
  | cons name names ih =>
    rw [List.forall_mem_cons]
    rcases enter_cons.1 entered with ⟨up, entered⟩ | ⟨-, short, -, entered⟩
    · exact ⟨fun down => absurd up down, ih entered⟩
    · exact ⟨fun _ => short, ih entered⟩

theorem walk_up : d.walk place [".."] = .ok place.dropLast := by
  rw [walk, if_pos rfl, walk]

theorem walk_singleton (down : file ≠ "..") :
    d.walk place [file] = if Short file then .ok (place ++ [file]) else .error .badName := by
  rw [walk, if_neg down]
  by_cases long : maxNameBytes < file.utf8ByteSize
  · rw [if_pos long, if_neg (show ¬Short file from Nat.not_le.2 long)]
  · rw [if_neg long, if_pos (show Short file from Nat.not_lt.1 long)]
    rfl

theorem makeFolders_cons {name : String} {names : List String}
    (made : d.makeFolders place (name :: names) = .ok d') :
    ∃ next, d.walk place [name] = .ok next ∧
      (d.nodeAt? next = some .folder ∧ d.makeFolders next names = .ok d' ∨
        d.nodeAt? next = none ∧ Disk.makeFolders (d.insert next .folder) next names = .ok d') := by
  rw [makeFolders] at made
  obtain ⟨next, found, made⟩ := bind_eq_ok.1 made
  refine ⟨next, found, ?_⟩
  split at made
  · cases made
  · rename_i there
    exact .inl ⟨there, made⟩
  · rename_i missing
    exact .inr ⟨missing, made⟩

theorem length_of_walk {name : String} {next : List String}
    (found : d.walk place [name] = .ok next) : next.length ≤ place.length + 1 := by
  by_cases up : name = ".."
  · rw [up, walk_up] at found
    obtain rfl := Except.ok.inj found
    rw [List.length_dropLast]
    omega
  · rw [walk_singleton up] at found
    split at found
    · obtain rfl := Except.ok.inj found
      simp
    · cases found

theorem Grounded.makeFolders (grounded : d.Grounded) {names : List String}
    (inside : d.nodeAt? place = some .folder) (made : d.makeFolders place names = .ok d') :
    Grounded d' ∧ d.KeepsFolders d' ∧ ∀ other : List String,
      place.length + names.length < other.length → d'[other]? = d[other]? := by
  induction names generalizing d place with
  | nil =>
    obtain rfl := Except.ok.inj made
    exact ⟨grounded, .refl d, fun _ _ => rfl⟩
  | cons name names ih =>
    obtain ⟨next, found, ⟨there, made⟩ | ⟨missing, made⟩⟩ := makeFolders_cons made
    · have near := length_of_walk found
      obtain ⟨grounded', keeps, rest⟩ := ih grounded there made
      refine ⟨grounded', keeps, fun other longer => rest other ?_⟩
      rw [List.length_cons] at longer
      omega
    · -- the folder above is there already, so what is missing is the one that the name spells
      have down : name ≠ ".." := by
        rintro rfl
        rw [walk_up] at found
        obtain rfl := Except.ok.inj found
        rw [grounded.dropLast inside] at missing
        cases missing
      rw [walk_singleton down] at found
      split at found
      case isFalse => cases found
      obtain rfl := Except.ok.inj found
      obtain ⟨first, kept⟩ := grounded.insert inside .folder fun _ => rfl
      obtain ⟨grounded', keeps, rest⟩ := ih first (by simp [nodeAt?]) made
      refine ⟨grounded', kept.trans keeps, fun other longer => ?_⟩
      simp only [List.length_append, List.length_cons, List.length_nil] at longer rest
      rw [rest other (by omega), Std.ExtTreeMap.getElem?_insert, if_neg]
      intro same
      rw [← Std.LawfulEqOrd.compare_eq_iff_eq.1 same] at longer
      simp only [List.length_append, List.length_cons, List.length_nil] at longer
      omega

theorem makeFolders_of_enter {names : List String} (k : Nat)
    (entered : d.enter place names = some folder) (grounded : d.Grounded)
    (inside : d.nodeAt? place = some .folder) :
    d.makeFolders place (names.take k) = .ok d := by
  induction names generalizing place k with
  | nil => rw [List.take_nil, Disk.makeFolders]
  | cons name names ih =>
    cases k with
    | zero => rw [List.take_zero, Disk.makeFolders]
    | succ k =>
      rw [List.take_succ_cons, Disk.makeFolders]
      rcases enter_cons.1 entered with ⟨rfl, entered⟩ | ⟨down, short, below, entered⟩
      · have above := grounded.dropLast inside
        rw [walk_up, ok_bind, above]
        exact ih k entered above
      · rw [walk_singleton down, if_pos short, ok_bind, below]
        exact ih k entered below

/-- The folder of the given path stands at a place, or will stand there once the folders that are
missing are made. -/
structure Homed (d : Disk) (dir : String) (place : List String) : Prop where
  grounded : d.Grounded
  leads : d.enter [] (names dir) = some place ∨ ".." ∉ names dir ∧ place = names dir

theorem Grounded.exists_homed (grounded : d.Grounded)
    (reached : (d.enter [] (names dir)).isSome = true ∨ ".." ∉ names dir) :
    ∃ place, d.Homed dir place := by
  rcases reached with there | spelled
  · obtain ⟨place, entered⟩ := Option.isSome_iff_exists.1 there
    exact ⟨place, grounded, .inl entered⟩
  · exact ⟨names dir, grounded, .inr ⟨spelled, rfl⟩⟩

/-- Whether the path of a file is one that the disk takes. -/
def Accepted (dir file : String) : Prop :=
  ¬((join dir file).contains '\x00' ∨ maxPathBytes < (join dir file).utf8ByteSize) ∧
    (∀ name ∈ names dir, name ≠ ".." → Short name) ∧ Short file

instance (dir file : String) : Decidable (Accepted dir file) :=
  inferInstanceAs (Decidable (_ ∧ _ ∧ _))

theorem accepted_of_leading {front : String} (leads : Storage.Path.leading dir = front.toList)
    (slash : '/' ∉ file.toList) (zero : '\x00' ∉ front.toList ++ file.toList)
    (fits : front.utf8ByteSize + file.utf8ByteSize ≤ maxPathBytes)
    (folders : ∀ name ∈ names dir, name ≠ ".." → Short name) (short : Short file) :
    Accepted dir file := by
  refine ⟨?_, folders, short⟩
  rw [Storage.Path.join_eq_append slash, leads, String.ofList_toList, String.contains_char_eq,
    String.toList_append, String.utf8ByteSize_append]
  rintro (there | long)
  · exact zero (of_decide_eq_true there)
  · omega

structure Plain (file : String) : Prop where
  slash : '/' ∉ file.toList
  named : file ≠ ""
  other : file ≠ "."

theorem locate_join (d : Disk) (dir : String) (plain : Plain file) (down : file ≠ "..") :
    (d.locate (join dir file)).toOption =
      if Accepted dir file then (d.enter [] (names dir)).map (· ++ [file]) else none := by
  rw [locate, namesOf]
  split
  · rename_i illegal
    rw [if_neg fun accepted => accepted.1 illegal]
    rfl
  rename_i legal
  change (d.walk [] (names (join dir file))).toOption = _
  rw [Path.names_join plain.slash plain.named plain.other, walk_concat]
  simp only [walk_singleton down]
  rcases entered : d.enter [] (names dir) with - | folder
  · simp
  · by_cases short : Short file
    · rw [if_pos ⟨legal, short_of_enter entered, short⟩, Option.bind_some, if_pos short]
      rfl
    · rw [if_neg fun accepted => short accepted.2.2, Option.bind_some, if_neg short]
      rfl

theorem namesOf_ok {path : String} {along : List String} (legal : namesOf path = .ok along) :
    along = names path := by
  rw [namesOf] at legal
  split at legal
  · cases legal
  · exact (Except.ok.inj legal).symm

theorem makeFolder_ok (made : d.makeFolder dir = .ok d') :
    d.makeFolders [] (names dir) = .ok d' := by
  obtain ⟨along, legal, made⟩ := bind_eq_ok.1 made
  rwa [namesOf_ok legal] at made

theorem node?_eq_bind (d : Disk) (path : String) :
    d.node? path = (d.locate path).toOption.bind d.nodeAt? := by
  rw [node?]
  cases d.locate path <;> rfl

theorem read_file {path : String} (there : d.node? path = some (.file text)) :
    d.read path = .ok text := by
  rw [node?] at there
  rw [read]
  cases located : d.locate path with
  | error fault => simp [located] at there
  | ok spot =>
    simp only [located] at there
    simp only [bind, Except.bind, there]
    rfl

theorem read_folder {path : String} (there : d.node? path = some .folder) :
    d.read path = .error .isFolder := by
  rw [node?] at there
  rw [read]
  cases located : d.locate path with
  | error fault => simp [located] at there
  | ok spot =>
    simp only [located] at there
    simp only [bind, Except.bind, there]

theorem read_ok {path : String} (done : d.read path = .ok text) :
    ∃ spot, d.locate path = .ok spot ∧ d.nodeAt? spot = some (.file text) := by
  obtain ⟨spot, found, done⟩ := bind_eq_ok.1 done
  refine ⟨spot, found, ?_⟩
  split at done
  · rename_i there
    obtain rfl := Except.ok.inj done
    exact there
  · cases done
  · cases done

theorem write_ok {path : String} (done : d.write path text = .ok d') :
    ∃ spot, d.locate path = .ok spot ∧ d.nodeAt? spot ≠ some .folder ∧
      d' = d.insert spot (.file text) := by
  obtain ⟨spot, found, done⟩ := bind_eq_ok.1 done
  refine ⟨spot, found, ?_⟩
  split at done
  · cases done
  · rename_i free
    exact ⟨free, (Except.ok.inj done).symm⟩

theorem remove_ok {path : String} (done : d.remove path = .ok d') :
    ∃ spot text, d.locate path = .ok spot ∧ d.nodeAt? spot = some (.file text) ∧
      d' = d.erase spot := by
  obtain ⟨spot, found, done⟩ := bind_eq_ok.1 done
  split at done
  · rename_i text there
    exact ⟨spot, text, found, there, (Except.ok.inj done).symm⟩
  · cases done
  · cases done

theorem rename_ok {path target : String} (done : d.rename path target = .ok d') :
    ∃ spot text, d.locate path = .ok spot ∧ d.nodeAt? spot = some (.file text) ∧
      Disk.write (d.erase spot) target text = .ok d' := by
  obtain ⟨text, opened, done⟩ := bind_eq_ok.1 done
  obtain ⟨spot, found, there⟩ := read_ok opened
  rw [found, ok_bind] at done
  exact ⟨spot, text, found, there, done⟩

namespace Homed

theorem enter_eq (home : d.Homed dir place) (entered : d.enter [] (names dir) = some folder) :
    folder = place := by
  rcases home.leads with there | ⟨down, rfl⟩
  · exact Option.some.inj (entered.symm.trans there)
  · exact enter_eq_append down entered

theorem of_keeps (home : d.Homed dir place) (grounded : d'.Grounded) (keeps : d.KeepsFolders d') :
    d'.Homed dir place :=
  ⟨grounded, home.leads.imp_left (enter_mono keeps)⟩

theorem locate_eq (home : d.Homed dir place) (plain : Plain file) (down : file ≠ "..")
    {spot : List String} (found : d.locate (join dir file) = .ok spot) :
    Accepted dir file ∧ d.nodeAt? place = some .folder ∧ spot = place ++ [file] := by
  have located := locate_join d dir plain down
  rw [found] at located
  split at located
  · rename_i accepted
    obtain ⟨folder, entered, rfl⟩ := Option.map_eq_some_iff.1 located.symm
    obtain rfl := home.enter_eq entered
    exact ⟨accepted, home.grounded.enter rfl entered, rfl⟩
  · cases located

theorem node?_join (home : d.Homed dir place) (plain : Plain file) (down : file ≠ "..") :
    d.node? (join dir file) = if Accepted dir file then d[place ++ [file]]? else none := by
  rw [node?_eq_bind, locate_join d dir plain down]
  split
  · rename_i accepted
    rcases entered : d.enter [] (names dir) with - | folder
    · rcases home.leads with there | ⟨spelled, rfl⟩
      · simp [entered] at there
      -- a file would stand in a folder, and to that the names would lead
      · refine (Option.eq_none_iff_forall_ne_some.2 fun node there => ?_).symm
        have inside := home.grounded _ file (Option.isSome_iff_exists.2 ⟨node, there⟩)
        have short : ∀ name ∈ names dir, Short name := fun name member =>
          accepted.2.1 name member fun up => spelled (up ▸ member)
        have entered' := home.grounded.enter_append [] spelled short inside
        rw [entered] at entered'
        cases entered'
    · obtain rfl := home.enter_eq entered
      exact nodeAt?_concat d folder file
  · rfl

theorem makeFolders (home : d.Homed dir place) {k : Nat}
    (made : d.makeFolders [] ((names dir).take k) = .ok d') :
    d'.Homed dir place ∧ ∀ file : String, d'[place ++ [file]]? = d[place ++ [file]]? := by
  rcases home.leads with there | ⟨-, spelled⟩
  · rw [makeFolders_of_enter k there home.grounded rfl] at made
    obtain rfl := Except.ok.inj made
    exact ⟨home, fun _ => rfl⟩
  · obtain ⟨grounded, keeps, rest⟩ := home.grounded.makeFolders rfl made
    refine ⟨home.of_keeps grounded keeps, fun file => rest _ ?_⟩
    have few := List.length_take_le' k (names dir)
    simp only [spelled, List.length_append, List.length_cons, List.length_nil]
    omega

theorem makeFolder (home : d.Homed dir place) (made : d.makeFolder dir = .ok d') :
    d'.Homed dir place ∧ ∀ file : String, d'[place ++ [file]]? = d[place ++ [file]]? := by
  have whole := makeFolder_ok made
  rw [← List.take_length (l := names dir)] at whole
  exact home.makeFolders whole

theorem insert (home : d.Homed dir place) (inside : d.nodeAt? place = some .folder)
    (free : d[place ++ [file]]? ≠ some .folder) (text : String) :
    Homed (d.insert (place ++ [file]) (.file text)) dir place := by
  obtain ⟨grounded, keeps⟩ := home.grounded.insert inside (.file text) fun h => absurd h free
  exact home.of_keeps grounded keeps

theorem erase (home : d.Homed dir place) (there : d[place ++ [file]]? = some (.file text)) :
    Homed (d.erase (place ++ [file])) dir place := by
  obtain ⟨grounded, keeps⟩ := home.grounded.erase there
  exact home.of_keeps grounded keeps

theorem write (home : d.Homed dir place) (plain : Plain file)
    (written : d.write (join dir file) text = .ok d') :
    file ≠ ".." ∧ Accepted dir file ∧ d'.Homed dir place ∧
      d' = d.insert (place ++ [file]) (.file text) := by
  obtain ⟨spot, found, free, rfl⟩ := write_ok written
  by_cases up : file = ".."
  · refine absurd ?_ free
    obtain ⟨along, legal, found⟩ := bind_eq_ok.1 found
    rw [namesOf_ok legal, Path.names_join plain.slash plain.named plain.other, up] at found
    have walked := walk_concat (d := d) [] (names dir) ".."
    rw [found] at walked
    obtain ⟨folder, entered, walked⟩ := Option.bind_eq_some_iff.1 walked.symm
    rw [walk_up] at walked
    obtain rfl := Option.some.inj walked
    exact home.grounded.dropLast (home.grounded.enter rfl entered)
  · obtain ⟨accepted, inside, rfl⟩ := home.locate_eq plain up found
    rw [nodeAt?_concat] at free
    exact ⟨up, accepted, home.insert inside free text, rfl⟩

theorem locate_ok (plain : Plain file) (down : file ≠ "..") (accepted : Accepted dir file)
    (entered : d.enter [] (names dir) = some place) :
    d.locate (join dir file) = .ok (place ++ [file]) := by
  have found := locate_join d dir plain down
  rw [if_pos accepted, entered, Option.map_some] at found
  cases located : d.locate (join dir file) with
  | error fault =>
    rw [located] at found
    cases found
  | ok spot =>
    rw [located] at found
    exact congrArg _ (Option.some.inj found)

theorem write_eq (plain : Plain file) (down : file ≠ "..") (accepted : Accepted dir file)
    (entered : d.enter [] (names dir) = some place) (free : d[place ++ [file]]? ≠ some .folder)
    (text : String) :
    d.write (join dir file) text = .ok (d.insert (place ++ [file]) (.file text)) := by
  rw [Disk.write, locate_ok plain down accepted entered]
  rw [← nodeAt?_concat] at free
  simp only [bind, Except.bind]
  rfl

theorem rename_eq (home : d.Homed dir place) (plain : Plain file) (down : file ≠ "..")
    (accepted : Accepted dir file) {target : String} (plain' : Plain target) (down' : target ≠ "..")
    (accepted' : Accepted dir target) (different : target ≠ file)
    (entered : d.enter [] (names dir) = some place) (there : d[place ++ [file]]? = some (.file text))
    (free : d[place ++ [target]]? ≠ some .folder) :
    d.rename (join dir file) (join dir target) =
      .ok ((d.erase (place ++ [file])).insert (place ++ [target]) (.file text)) := by
  have located := locate_ok plain down accepted entered
  have read : d.read (join dir file) = .ok text := read_file (by
    rw [node?_eq_bind, located]
    exact (nodeAt?_concat d place file).trans there)
  have free' : (Std.ExtTreeMap.erase d (place ++ [file]))[place ++ [target]]? ≠ some .folder := by
    rwa [getElem?_erase_other different]
  rw [Disk.rename, read, located]
  exact write_eq plain' down' accepted' (enter_mono (home.grounded.erase there).2 entered) free' text

theorem remove (home : d.Homed dir place) (plain : Plain file) (down : file ≠ "..")
    (removed : d.remove (join dir file) = .ok d') :
    d'.Homed dir place ∧ d' = d.erase (place ++ [file]) := by
  obtain ⟨spot, text, found, there, rfl⟩ := remove_ok removed
  obtain ⟨-, -, rfl⟩ := home.locate_eq plain down found
  rw [nodeAt?_concat] at there
  exact ⟨home.erase there, rfl⟩

theorem rename (home : d.Homed dir place) (plain : Plain file) (down : file ≠ "..")
    {target : String} (plain' : Plain target)
    (renamed : d.rename (join dir file) (join dir target) = .ok d') :
    ∃ text, d[place ++ [file]]? = some (.file text) ∧ target ≠ ".." ∧ Accepted dir target ∧
      d'.Homed dir place ∧ d' = (d.erase (place ++ [file])).insert (place ++ [target]) (.file text) := by
  obtain ⟨spot, text, found, there, written⟩ := rename_ok renamed
  obtain ⟨-, -, rfl⟩ := home.locate_eq plain down found
  rw [nodeAt?_concat] at there
  exact ⟨text, there, (home.erase there).write plain' written⟩

end Homed

end Reconcile.Storage.Disk

import Reconcile.Proofs.Json.Records
import Reconcile.Proofs.Storage.Disk
import Reconcile.Storage.Store

/-! Stores that keep their snapshots in one folder. A snapshot is read from a file of its own, and
what a store writes besides is a draft, whose name is none that any store reads; so what one store
does never shows to another, and a save shows at once or not at all. -/

namespace Reconcile.Storage

open Json (Coded Lossless Fits levels encode decode?)

variable {dir : String} {place : List String} {d d' : Disk} {file text : String}

abbrev Resource := {name : String // '/' ∉ name.toList}

namespace Resource

variable (r other : Resource)

def fileName : String := r.1 ++ ".json"

def draftName : String := Path.renamed r.fileName "json.tmp"

def store (dir : String) : Store := ⟨dir, r.1⟩

theorem toList_fileName : r.fileName.toList = r.1.toList ++ ['.', 'j', 's', 'o', 'n'] := by
  rw [fileName, String.toList_append]
  rfl

theorem slash_fileName : '/' ∉ r.fileName.toList := by
  rw [toList_fileName, List.mem_append, not_or]
  exact ⟨r.2, by decide⟩

theorem fileName_ne {name : String} (last : name.toList.getLast? ≠ some 'n') :
    r.fileName ≠ name := by
  rintro rfl
  rw [toList_fileName, List.getLast?_append] at last
  exact last rfl

theorem fileName_plain : Disk.Plain r.fileName :=
  ⟨r.slash_fileName, r.fileName_ne (by decide), r.fileName_ne (by decide)⟩

theorem fileName_inj (same : r.fileName = other.fileName) : r = other := by
  have lists := congrArg String.toList same
  rw [toList_fileName, toList_fileName, List.append_left_inj] at lists
  exact Subtype.ext (String.toList_injective lists)

theorem draftName_cases : r.draftName = ".." ∨
    ∃ stem, '/' ∉ stem ∧ r.draftName.toList = stem ++ ".json.tmp".toList := by
  rw [draftName, Path.renamed]
  split
  · exact .inl rfl
  · refine .inr ⟨Path.stem r.fileName.toList, fun slash => r.slash_fileName ?_, ?_⟩
    · exact Path.mem_of_mem_stem slash
    · rw [String.toList_ofList]
      rfl

theorem slash_draftName : '/' ∉ r.draftName.toList := by
  rcases r.draftName_cases with up | ⟨stem, plain, whole⟩
  · rw [up]
    decide
  · rw [whole, List.mem_append, not_or]
    exact ⟨plain, by decide⟩

theorem getLast?_draftName :
    r.draftName = ".." ∨ r.draftName.toList.getLast? = some 'p' := by
  refine r.draftName_cases.imp_right fun ⟨stem, _, whole⟩ => ?_
  rw [whole, List.getLast?_append]
  rfl

theorem draftName_plain : Disk.Plain r.draftName := by
  refine ⟨r.slash_draftName, ?_, ?_⟩
  all_goals
    intro same
    rcases r.getLast?_draftName with up | last
    · exact absurd (same.symm.trans up) (by decide)
    · exact absurd (same ▸ last) (by decide)

theorem fileName_ne_draftName : other.fileName ≠ r.draftName := by
  refine other.fileName_ne ?_
  rcases r.getLast?_draftName with up | last
  · rw [up]
    decide
  · rw [last]
    decide

end Resource

namespace Store

variable {σ op : Type} [Coded σ] [Coded op] {s : Store} {snapshot : Snapshot σ op} (r : Resource)

theorem path_eq : (r.store dir).path = Path.join dir r.fileName := rfl

theorem draft_eq : (r.store dir).draft = Path.join dir r.draftName :=
  Path.withExtension_join r.slash_fileName r.slash_draftName

theorem load_of_file (there : d.node? s.path = some (.file text))
    (decoded : (Json.read? text >>= decode?) = some snapshot) :
    s.load d = .ok (some snapshot) := by
  rw [load, if_neg (by simp [there]), Disk.read_file there]
  simp only [decoded]

theorem load_congr (same : d'.node? s.path = d.node? s.path) :
    (s.load d' : Except SyncError (Option (Snapshot σ op))) = s.load d := by
  rw [load, load, same]
  rcases there : d.node? s.path with - | (- | text)
  · rfl
  · rw [Disk.read_folder there, Disk.read_folder (same.trans there)]
  · rw [Disk.read_file there, Disk.read_file (same.trans there)]

inductive Halted (s : Store) (d : Disk) : Disk → Prop
  | folders {d' : Disk} (k : Nat) (made : d.makeFolders [] ((Path.names s.dir).take k) = .ok d') :
    Halted s d d'
  | draft {d₁ d' : Disk} (text : String) (made : d.makeFolder s.dir = .ok d₁)
    (written : d₁.write s.draft text = .ok d') : Halted s d d'

theorem save_cases (s : Store) (d : Disk) (snapshot : Snapshot σ op) :
    (∃ d₁ d₂, (s.save d snapshot).1 = .ok () ∧ d.makeFolder s.dir = .ok d₁ ∧
      d₁.write s.draft (encode snapshot).pretty = .ok d₂ ∧
      d₂.rename s.draft s.path = .ok (s.save d snapshot).2) ∨
    (s.save d snapshot).1 = .error .io ∧ Halted s d (s.save d snapshot).2 := by
  rw [save]
  rcases made : d.makeFolder s.dir with fault | d₁
  -- a save that makes none of the folders or not all of them leaves the disk as it was
  · exact .inr ⟨rfl, .folders 0 rfl⟩
  simp only
  rcases written : d₁.write s.draft (encode snapshot).pretty with fault | d₂
  · refine .inr ⟨rfl, .folders (Path.names s.dir).length ?_⟩
    rw [List.take_length]
    exact Disk.makeFolder_ok made
  simp only
  rcases renamed : d₂.rename s.draft s.path with fault | d₃
  · exact .inr ⟨rfl, .draft _ made written⟩
  · exact .inl ⟨d₁, d₂, rfl, rfl, written, renamed⟩

theorem clear_cases (s : Store) (d : Disk) :
    (s.clear d).2 = d ∨ (s.clear d).1 = .ok () ∧ d.remove s.path = .ok (s.clear d).2 := by
  rw [clear]
  split
  · rename_i removed
    exact .inr ⟨rfl, removed⟩
  · exact .inl rfl
  · exact .inl rfl

variable {r}

theorem Halted.effect (home : d.Homed dir place) (halted : Halted (r.store dir) d d') :
    d'.Homed dir place ∧
      ∀ file, file ≠ r.draftName → d'[place ++ [file]]? = d[place ++ [file]]? := by
  cases halted with
  | folders k made =>
    obtain ⟨home', same⟩ := home.makeFolders made
    exact ⟨home', fun file _ => same file⟩
  | draft text made written =>
    obtain ⟨home₁, same⟩ := home.makeFolder made
    rw [draft_eq] at written
    obtain ⟨-, -, home', rfl⟩ := home₁.write r.draftName_plain written
    refine ⟨home', fun file other => ?_⟩
    rw [Disk.getElem?_insert_other other, same]

theorem save_effect (home : d.Homed dir place) {d₁ d₂ : Disk}
    (made : d.makeFolder dir = .ok d₁) (written : d₁.write (r.store dir).draft text = .ok d₂)
    (renamed : d₂.rename (r.store dir).draft (r.store dir).path = .ok d') :
    d'.Homed dir place ∧ d'.node? (r.store dir).path = some (.file text) ∧
      ∀ file, file ≠ r.draftName → file ≠ r.fileName →
        d'[place ++ [file]]? = d[place ++ [file]]? := by
  obtain ⟨home₁, same⟩ := home.makeFolder made
  rw [draft_eq] at written renamed
  obtain ⟨down, -, home₂, rfl⟩ := home₁.write r.draftName_plain written
  obtain ⟨moved, there, named, accepted, home', rfl⟩ :=
    home₂.rename r.draftName_plain down r.fileName_plain renamed
  rw [Std.ExtTreeMap.getElem?_insert_self, Option.some.injEq, Node.file.injEq] at there
  refine ⟨home', ?_, fun file notDraft notFile => ?_⟩
  · rw [path_eq, home'.node?_join r.fileName_plain named, if_pos accepted,
      Std.ExtTreeMap.getElem?_insert_self, there]
  · rw [Disk.getElem?_insert_other notFile, Disk.getElem?_erase_other notDraft,
      Disk.getElem?_insert_other notDraft, same]

theorem save_succeeds {d₁ : Disk} (made : d.makeFolder dir = .ok d₁) (home : d₁.Homed dir place)
    (entered : d₁.enter [] (Path.names dir) = some place) (down : r.draftName ≠ "..")
    (draft : Disk.Accepted dir r.draftName) (file : Disk.Accepted dir r.fileName)
    (free : d₁[place ++ [r.draftName]]? ≠ some .folder)
    (free' : d₁[place ++ [r.fileName]]? ≠ some .folder) (snapshot : Snapshot σ op) :
    ((r.store dir).save d snapshot).1 = .ok () := by
  have inside : d₁.nodeAt? place = some .folder := home.grounded.enter rfl entered
  have written := Disk.Homed.write_eq r.draftName_plain down draft entered free
    (encode snapshot).pretty
  obtain ⟨grounded, keeps⟩ := home.grounded.insert inside (.file (encode snapshot).pretty)
    fun folder => absurd folder free
  have different := r.fileName_ne_draftName r
  have renamed := (home.of_keeps grounded keeps).rename_eq r.draftName_plain down draft
    r.fileName_plain (r.fileName_ne (by decide)) file different (Disk.enter_mono keeps entered)
    Std.ExtTreeMap.getElem?_insert_self (by rwa [Disk.getElem?_insert_other different])
  rw [← draft_eq] at written renamed
  rw [← path_eq] at renamed
  have made' : d.makeFolder (r.store dir).dir = .ok d₁ := made
  simp only [save, made', written, renamed]

theorem clear_effect (home : d.Homed dir place)
    (removed : d.remove (r.store dir).path = .ok d') :
    d'.Homed dir place ∧
      ∀ file, file ≠ r.fileName → d'[place ++ [file]]? = d[place ++ [file]]? := by
  obtain ⟨home', rfl⟩ := home.remove r.fileName_plain (r.fileName_ne (by decide)) removed
  exact ⟨home', fun file other => Disk.getElem?_erase_other other⟩

theorem load_eq (home : d.Homed dir place) (home' : d'.Homed dir place)
    (same : d'[place ++ [r.fileName]]? = d[place ++ [r.fileName]]?) :
    ((r.store dir).load d' : Except SyncError (Option (Snapshot σ op))) =
      (r.store dir).load d := by
  refine load_congr ?_
  have down : r.fileName ≠ ".." := r.fileName_ne (by decide)
  rw [path_eq, home'.node?_join r.fileName_plain down, same, home.node?_join r.fileName_plain down]

inductive Call (σ op : Type)
  | save (r : Resource) (snapshot : Snapshot σ op)
  | load (r : Resource)
  | clear (r : Resource)

namespace Call

def resource : Call σ op → Resource
  | .save r _ | .load r | .clear r => r

/-- Whether the call, if it succeeds, is the next save or clear of the resource. -/
def Replaces (r : Resource) : Call σ op → Prop
  | .save r' _ | .clear r' => r' = r
  | .load _ => False

/-- A call and whether it succeeds. The disk as it is decides that; besides, the system may fail a
save at any of its stages, and a removal. -/
inductive Step (dir : String) (d : Disk) : Call σ op → Bool → Disk → Prop
  | save (r : Resource) (snapshot : Snapshot σ op) :
    Step dir d (.save r snapshot) ((r.store dir).save d snapshot).1.isOk
      ((r.store dir).save d snapshot).2
  | halt (r : Resource) (snapshot : Snapshot σ op) {d' : Disk} (halted : Halted (r.store dir) d d') :
    Step dir d (.save r snapshot) false d'
  | load (r : Resource) :
    Step dir d (.load r)
      ((r.store dir).load d : Except SyncError (Option (Snapshot σ op))).isOk d
  | clear (r : Resource) :
    Step dir d (.clear r) ((r.store dir).clear d).1.isOk ((r.store dir).clear d).2
  | keep (r : Resource) : Step dir d (.clear r) false d

inductive Run (dir : String) : Disk → List (Call σ op × Bool) → Disk → Prop
  | nil {d : Disk} : Run dir d [] d
  | cons {d d' d'' : Disk} {call : Call σ op} {done : Bool} {calls : List (Call σ op × Bool)}
    (first : Step dir d call done d') (rest : Run dir d' calls d'') :
    Run dir d ((call, done) :: calls) d''

variable {call : Call σ op} {done : Bool}

theorem Step.effect (home : d.Homed dir place) (step : Step dir d call done d') :
    d'.Homed dir place ∧ ∀ other : Resource, (done = true → ¬call.Replaces other) →
      d'[place ++ [other.fileName]]? = d[place ++ [other.fileName]]? := by
  -- every change but a draft's is one of the file that the call is about
  cases step with
  | save r snapshot =>
    rcases save_cases (r.store dir) d snapshot with ⟨d₁, d₂, ok, made, written, renamed⟩ | ⟨-, halted⟩
    · obtain ⟨home', -, same⟩ := save_effect home made written renamed
      refine ⟨home', fun other kept => same _ (r.fileName_ne_draftName other) fun named => ?_⟩
      exact kept (by rw [ok]; rfl) (other.fileName_inj r named).symm
    · obtain ⟨home', same⟩ := halted.effect home
      exact ⟨home', fun other _ => same _ (r.fileName_ne_draftName other)⟩
  | halt r snapshot halted =>
    obtain ⟨home', same⟩ := halted.effect home
    exact ⟨home', fun other _ => same _ (r.fileName_ne_draftName other)⟩
  | load r => exact ⟨home, fun _ _ => rfl⟩
  | clear r =>
    rcases clear_cases (r.store dir) d with unchanged | ⟨ok, removed⟩
    · rw [unchanged]
      exact ⟨home, fun _ _ => rfl⟩
    · obtain ⟨home', same⟩ := clear_effect home removed
      refine ⟨home', fun other kept => same _ fun named => ?_⟩
      exact kept (by rw [ok]; rfl) (other.fileName_inj r named).symm
  | keep r => exact ⟨home, fun _ _ => rfl⟩

theorem Run.effect {calls : List (Call σ op × Bool)} (home : d.Homed dir place)
    (ran : Run dir d calls d') :
    d'.Homed dir place ∧ ∀ other : Resource,
      (∀ c ∈ calls, c.2 = true → ¬c.1.Replaces other) →
        d'[place ++ [other.fileName]]? = d[place ++ [other.fileName]]? := by
  induction ran with
  | nil => exact ⟨home, fun _ _ => rfl⟩
  | cons first rest ih =>
    obtain ⟨home₁, same⟩ := first.effect home
    obtain ⟨home', later⟩ := ih home₁
    refine ⟨home', fun other kept => ?_⟩
    rw [List.forall_mem_cons] at kept
    rw [later other kept.2, same other kept.1]

omit [Coded σ] [Coded op] in
theorem Replaces.resource_eq {r : Resource} (replaces : call.Replaces r) : call.resource = r := by
  cases call with
  | load => cases replaces
  | _ => exact replaces

theorem Step.load_saved [Lossless σ] [Lossless op] {snapshot : Snapshot σ op}
    (home : d.Homed dir place) (step : Step dir d (.save r snapshot) true d')
    (fits : Fits snapshot) (shallow : levels (Snapshot σ op) ≤ Json.maxDepth) :
    (r.store dir).load d' = .ok (some snapshot) := by
  generalize saved : true = done at step
  cases step with
  | save =>
    rcases save_cases (r.store dir) d snapshot with ⟨d₁, d₂, -, made, written, renamed⟩ | ⟨failed, -⟩
    · obtain ⟨-, there, -⟩ := save_effect home made written renamed
      exact load_of_file there (Json.read?_encode shallow fits)
    · rw [failed] at saved
      cases saved
  | halt => cases saved

/-- Whatever the folder holds and the stores have done: a save that succeeds is what is loaded until
the resource's next save or clear, a save that fails leaves what is loaded of every resource as it
was, and no call changes what is loaded of another resource. The folder is there at the start, or
its path names no folder above, as it might otherwise come to lead past one that a save makes. -/
theorem atomic_and_isolated [Lossless σ] [Lossless op]
    (shallow : levels (Snapshot σ op) ≤ Json.maxDepth) {start d d' finish : Disk}
    {earlier later : List (Call σ op × Bool)} (grounded : start.Grounded)
    (reached : (start.enter [] (Path.names dir)).isSome = true ∨ ".." ∉ Path.names dir)
    (before : Run dir start earlier d) (step : Step dir d call done d')
    (after : Run dir d' later finish) :
    (∀ r snapshot, call = .save r snapshot → done = true → Fits snapshot →
      (∀ c ∈ later, c.2 = true → ¬c.1.Replaces r) →
        (r.store dir).load finish = .ok (some snapshot)) ∧
    (∀ r snapshot, call = .save r snapshot → done = false → ∀ other : Resource,
      ((other.store dir).load d' : Except SyncError (Option (Snapshot σ op))) =
        (other.store dir).load d) ∧
    ∀ other, other ≠ call.resource →
      ((other.store dir).load d' : Except SyncError (Option (Snapshot σ op))) =
        (other.store dir).load d := by
  obtain ⟨place, home₀⟩ := grounded.exists_homed reached
  obtain ⟨home, -⟩ := before.effect home₀
  obtain ⟨home', same⟩ := step.effect home
  obtain ⟨home'', kept⟩ := after.effect home'
  refine ⟨?_, ?_, ?_⟩
  · rintro r snapshot rfl rfl fits alone
    rw [load_eq home' home'' (kept r alone)]
    exact step.load_saved home fits shallow
  · rintro r snapshot rfl rfl other
    exact load_eq home home' (same other fun done => nomatch done)
  · intro other different
    exact load_eq home home' (same other fun _ replaces => different replaces.resource_eq.symm)

theorem atomic_and_isolated_with_shared_draft :
    let first : Resource := ⟨"", by decide⟩
    let second : Resource := ⟨".json", by decide⟩
    let snapshot : Snapshot Text.Document Text.Edit := ⟨⟨4⟩, ['a'], [.insert 1 ['b']], []⟩
    let torn := ((∅ : Disk).insert ["snapshots"] .folder).insert
      ["snapshots", ".json.json.tmp"] (.file "half")
    let d := ((first.store "snapshots").save torn snapshot).2
    first.draftName = second.draftName ∧
      (first.store "snapshots").load d = .ok (some snapshot) ∧
      ((second.store "snapshots").load d :
        Except SyncError (Option (Snapshot Text.Document Text.Edit))) =
          (second.store "snapshots").load torn := by
  intro first second snapshot torn d
  have grounded : (∅ : Disk).Grounded := fun folder name there => by simp at there
  have leads : Path.leading "snapshots" = "snapshots/".toList := by
    rw [Path.leading, String.endsWith_char_eq_getLast?]
    rfl
  have made (d d' : Disk) (folders : d.makeFolders [] ["snapshots"] = .ok d') :
      d.makeFolder "snapshots" = .ok d' := by
    rw [Disk.makeFolder, Disk.namesOf, String.contains_char_eq, if_neg (by decide +kernel)]
    exact folders
  have home : (∅ : Disk).Homed "snapshots" ["snapshots"] :=
    ⟨grounded, .inr ⟨by decide +kernel, by decide +kernel⟩⟩
  have shared : first.draftName = ".json.json.tmp" ∧ second.draftName = ".json.json.tmp" := by
    decide +kernel
  have draft : Disk.Accepted "snapshots" ".json.json.tmp" :=
    Disk.accepted_of_leading leads (by decide) (by decide) (by decide) (by decide +kernel)
      (by decide)
  have file : Disk.Accepted "snapshots" first.fileName :=
    Disk.accepted_of_leading leads first.slash_fileName (by decide +kernel) (by decide +kernel)
      (by decide +kernel) (by decide +kernel)
  have written : Disk.write ((∅ : Disk).insert ["snapshots"] .folder)
      (second.store "snapshots").draft "half" = .ok torn := by
    rw [draft_eq, shared.2]
    have entered : Disk.enter ((∅ : Disk).insert ["snapshots"] .folder) []
        (Path.names "snapshots") = some ["snapshots"] := by decide +kernel
    exact Disk.Homed.write_eq (shared.2 ▸ second.draftName_plain) (by decide) draft entered
      (by decide +kernel) "half"
  have before : Run "snapshots" ∅ [(.save second snapshot, false)] torn :=
    .cons (.halt second snapshot (.draft "half" (made _ _ rfl) written)) .nil
  have saved : ((first.store "snapshots").save torn snapshot).1 = .ok () :=
    save_succeeds (made torn torn rfl) (before.effect home).1 (by decide +kernel)
      (by decide +kernel) (shared.1 ▸ draft) file (by decide +kernel) (by decide +kernel) snapshot
  have step : Step "snapshots" torn (.save first snapshot) _ d := .save first snapshot
  rw [saved] at step
  obtain ⟨holds, -, isolated⟩ := atomic_and_isolated (by decide) grounded
    (.inr (by decide +kernel)) before step (.cons (.load second) .nil)
  refine ⟨shared.1.trans shared.2.symm, holds first snapshot rfl rfl ⟨?_, trivial, ?_, ?_⟩ ?_,
    isolated second (by decide)⟩
  · exact show Width.Unsigned64 4 by decide
  · intro e member
    rw [List.mem_singleton.1 member]
    exact show Width.Unsigned64 1 by decide
  · exact fun _ member => absurd member List.not_mem_nil
  · intro c member _
    rw [List.mem_singleton.1 member]
    exact id

end Call

end Store

end Reconcile.Storage

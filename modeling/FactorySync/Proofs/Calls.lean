import FactorySync.Disk.Discover
import FactorySync.Proofs.Disks
import FactorySync.Proofs.FirstUses
import FactorySync.Proofs.Paths
import Mathlib.Data.Finset.Card

/-!
# Calls that change a project

A project changes by calls that add a file, change a text or write a file. What the calls before
have left is described by two lists: the names that files were added under, and the texts that were
settled, which are those that a file was first added with or was written with
(`Project.Tracks`). Every call keeps that (`Project.Tracks.call`), hence all calls do
(`Project.Tracks.calls`).
-/

namespace FactorySync

theorem map_eq_ok {ε α β : Type} {x : Except ε α} {g : α → β} {b : β} :
    x.map g = .ok b ↔ ∃ a, x = .ok a ∧ g a = b := by
  cases x <;> simp [Except.map]

theorem map_eq_error {ε α β : Type} {x : Except ε α} {g : α → β} {e : ε} :
    x.map g = .error e ↔ x = .error e := by
  cases x <;> simp [Except.map]

namespace ProjectFile

variable {f : ProjectFile} {text : List Char}

/-- The file once it has been written. -/
def settled (f : ProjectFile) : ProjectFile := { f with modified := false }

@[simp]
theorem withText_path : (f.withText text).path = f.path := rfl

theorem withText_modified :
    (f.withText text).modified = false ↔ f.modified = false ∧ f.text = text := by
  simp [withText]

theorem withText_self : f.withText f.text = f := by simp [withText]

theorem withText_of_ne (h : f.text ≠ text) :
    f.withText text = { f with text, modified := true } := by
  simp [withText, h]

end ProjectFile

namespace Project

variable {p : Project} {file : FileId} {f : ProjectFile} {g g' : ProjectFile → ProjectFile}
  {path : String} {text : List Char}

/-! ## Files -/

theorem setText_of_file? (h : p.file? file = some f) (text : List Char) :
    p.setText file text = .ok (p.modify file (.withText text)) := by
  rw [setText, h]

theorem modify_file? (h : p.file? file = some f) : (p.modify file g).file? file = some (g f) := by
  simp only [file?] at h
  simp [modify, file?, h]

theorem modify_file?_eq_none (h : p.file? file = none) : (p.modify file g).file? file = none := by
  simp only [file?] at h
  simp [modify, file?, h]

theorem modify_file?_of_ne {other : FileId} (h : file ≠ other) :
    (p.modify file g).file? other = p.file? other := by
  simp [modify, file?, h]

/-- Only what becomes of the file itself counts. -/
theorem modify_congr (h : ∀ f, p.file? file = some f → g f = g' f) :
    p.modify file g = p.modify file g' := by
  have same : p.files.modify file g = p.files.modify file g' := by
    refine List.ext_getElem? fun i => ?_
    rw [List.getElem?_modify, List.getElem?_modify]
    split
    · next hi =>
      subst hi
      cases hf : p.files[file]? with
      | none => rfl
      | some f => simp [h f hf]
    · rfl
  rw [modify, modify, same]

/-- Storing the text that a file has changes nothing. -/
theorem modify_withText_self (h : p.file? file = some f) :
    p.modify file (.withText f.text) = p := by
  have same : p.modify file (.withText f.text) = p.modify file id := by
    refine modify_congr fun stored hstored => ?_
    cases h.symm.trans hstored
    exact ProjectFile.withText_self
  rw [same, modify, List.modify_id]

/-! ## Paths -/

/-- The paths of the files, in the order of their numbers. -/
def paths (p : Project) : List String := p.files.map (·.path)

theorem position?_eq (p : Project) (path : String) :
    p.position? path = p.paths.findIdx? (· == path) := by
  simp [position?, paths, List.findIdx?_map, Function.comp_def]

theorem modify_paths (h : ∀ f, (g f).path = f.path) : (p.modify file g).paths = p.paths := by
  refine List.ext_getElem? fun i => ?_
  simp only [paths, modify, List.getElem?_map, List.getElem?_modify]
  split <;> cases p.files[i]? <;> simp [h]

theorem paths_getElem? :
    p.paths[file]? = some path ↔ ∃ f, p.file? file = some f ∧ f.path = path := by
  simp [paths, file?]

/-! ## Changes -/

theorem add_of_found (h : p.fileId? path = some file) (text : List Char) :
    p.add path text = (file, p.modify file (.withText text)) := by
  rw [fileId?] at h
  simp only [add, h]

theorem add_of_new (h : p.fileId? path = none) (text : List Char) : p.add path text =
    (p.size, { p with files := p.files ++ [{ path := Path.normalize path, text }] }) := by
  rw [fileId?] at h
  simp only [add, h]

theorem setText_eq_ok {q : Project} (h : p.setText file text = .ok q) :
    ∃ f, p.file? file = some f ∧ p.modify file (.withText text) = q := by
  unfold setText at h
  cases hf : p.file? file with
  | none =>
    rw [hf] at h
    cases h
  | some f =>
    rw [hf] at h
    cases h
    exact ⟨f, rfl, rfl⟩

/-- A write that succeeds has put the text of the file on the disk. -/
theorem write_eq_ok {disk after : Disk} {q : Project}
    (h : p.write disk file = .ok (path, q, after)) : ∃ f root, p.file? file = some f ∧ p.root = some root ∧ Path.combine root f.path = path ∧
      disk.write? path f.text = some after ∧ p.modify file .settled = q := by
  unfold write at h
  split at h
  · cases h
  · cases h
  · next f root hf hroot =>
    dsimp only at h
    split at h
    · cases h
    · next hdisk =>
      cases h
      exact ⟨f, root, hf, hroot, rfl, hdisk, rfl⟩

/-- What every change of a project leaves as it is: the root, and the numbers of the files. -/
structure Grows (p q : Project) : Prop where
  root : q.root = p.root
  paths : p.paths <+: q.paths

namespace Grows

variable {q r : Project}

theorem refl (p : Project) : p.Grows p := ⟨rfl, List.prefix_refl _⟩

theorem trans (h : p.Grows q) (h' : q.Grows r) : p.Grows r :=
  ⟨h'.root.trans h.root, h.paths.trans h'.paths⟩

theorem modify (p : Project) (file : FileId) (samePath : ∀ f, (g f).path = f.path) :
    p.Grows (p.modify file g) :=
  ⟨rfl, modify_paths samePath ▸ List.prefix_refl _⟩

theorem add (p : Project) (path : String) (text : List Char) : p.Grows (p.add path text).2 := by
  cases found : p.fileId? path with
  | some file =>
    rw [add_of_found found]
    exact .modify p file fun _ => ProjectFile.withText_path
  | none =>
    rw [add_of_new found]
    exact ⟨rfl, by simp [Project.paths]⟩

theorem setText {text : List Char} (h : p.setText file text = .ok q) : p.Grows q := by
  obtain ⟨f, -, rfl⟩ := setText_eq_ok h
  exact .modify p file fun _ => ProjectFile.withText_path

theorem write {disk after : Disk} (h : p.write disk file = .ok (path, q, after)) : p.Grows q := by
  obtain ⟨f, root, -, -, -, -, rfl⟩ := write_eq_ok h
  exact .modify p file fun _ => rfl

/-- A file keeps its number. -/
theorem file? (h : p.Grows q) (hf : p.file? file = some f) :
    ∃ later, q.file? file = some later ∧ later.path = f.path := by
  have stands : p.paths[file]? = some f.path := paths_getElem?.2 ⟨f, hf, rfl⟩
  obtain ⟨new, before⟩ := h.paths
  refine paths_getElem?.1 ?_
  rw [← before, List.getElem?_append_left (List.getElem?_eq_some_iff.1 stands).1]
  exact stands

end Grows

/-! ## Calls -/

/-- A call that changes a project. A write meets the disk as it is at that time. -/
inductive Call where
  | add (path : String) (text : List Char)
  | setText (file : FileId) (text : List Char)
  | write (disk : Disk) (file : FileId)

/-- What a call that succeeds tells: the number of an added file, or where a file was written to and
the disk with it. -/
inductive Answer where
  | added (file : FileId)
  | done
  | written (path : String) (disk : Disk)

def call? (p : Project) : Call → Except ProjectProblem (Answer × Project)
  | .add path text => .ok (.added (p.add path text).1, (p.add path text).2)
  | .setText file text => (p.setText file text).map fun p => (.done, p)
  | .write disk file => (p.write disk file).map fun (path, p, disk) => (.written path disk, p)

/-- The project that the caller has after a call. -/
def call (p : Project) (c : Call) : Project :=
  match p.call? c with
  | .ok (_, q) => q
  | .error _ => p

def calls (p : Project) (cs : List Call) : Project := cs.foldl call p

/-- The name under which a call adds a file. -/
def Call.name? : Call → Option String
  | .add path _ => some (Path.normalize path)
  | _ => none

/-- The text that a call settles and the file it does so for: the text a file is first added with,
and the text of a write that succeeds. -/
def settles (p : Project) : Call → List (FileId × List Char)
  | .add path text => if p.fileId? path = none then [(p.size, text)] else []
  | .setText _ _ => []
  | .write disk file =>
    match p.file? file, p.write disk file with
    | some f, .ok _ => [(file, f.text)]
    | _, _ => []

/-- The texts that calls settle, the last ones first. -/
def settled (p : Project) : List Call → List (FileId × List Char)
  | [] => []
  | c :: cs => (p.call c).settled cs ++ p.settles c

theorem call_of_ok {answer : Answer} {q : Project} {c : Call} (h : p.call? c = .ok (answer, q)) :
    p.call c = q := by rw [call, h]

theorem call_of_error {problem : ProjectProblem} {c : Call} (h : p.call? c = .error problem) :
    p.call c = p := by rw [call, h]

theorem Grows.call? {answer : Answer} {q : Project} {c : Call} (h : p.call? c = .ok (answer, q)) :
    p.Grows q := by
  cases c with
  | add path text =>
    cases h
    exact .add p path text
  | setText file text =>
    obtain ⟨r, set, result⟩ := map_eq_ok.1 h
    cases result
    exact .setText set
  | write disk file =>
    obtain ⟨r, written, result⟩ := map_eq_ok.1 h
    cases result
    exact .write written

theorem Grows.call (p : Project) (c : Call) : p.Grows (p.call c) := by
  rw [Project.call]
  split
  · next called => exact .call? called
  · exact .refl p

theorem Grows.calls (p : Project) (cs : List Call) : p.Grows (p.calls cs) := by
  induction cs generalizing p with
  | nil => exact .refl p
  | cons c cs ih => exact (Grows.call p c).trans (ih (p.call c))

/-- What fails settles nothing. -/
theorem settles_of_error {problem : ProjectProblem} {c : Call} (h : p.call? c = .error problem) :
    p.settles c = [] := by
  cases c with
  | add path text => cases h
  | setText file text => rfl
  | write disk file =>
    rw [settles, map_eq_error.1 h]
    cases p.file? file with
    | none => rfl
    | some f => rfl

/-- What is known of a project from the names that files were added under and the texts that were
settled. -/
structure Tracks (names : List String) (log : List (FileId × List Char)) (p : Project) : Prop where
  normal : ∀ name ∈ names, Path.normalize name = name
  order : p.paths = names.eraseDups
  text : ∀ file f, p.file? file = some f → f.modified = false → log.lookup file = some f.text

variable {names : List String} {log entries : List (FileId × List Char)} {c : Call}

namespace Tracks

theorem nodup (h : Tracks names log p) : p.paths.Nodup := h.order ▸ nodup_eraseDups names

theorem mem_paths (h : Tracks names log p) : path ∈ p.paths ↔ path ∈ names := by
  rw [h.order, List.mem_eraseDups]

theorem size_eq (h : Tracks names log p) : p.size = names.toFinset.card := by
  have same : names.toFinset = names.eraseDups.toFinset := by
    ext name
    simp
  rw [same, List.toFinset_card_of_nodup (nodup_eraseDups names), ← h.order, paths, List.length_map,
    size]

/-- A path is found where it stands. -/
theorem fileId?_eq_some_iff (h : Tracks names log p) : p.fileId? path = some file ↔
    ∃ f, p.file? file = some f ∧ f.path = Path.normalize path := by
  rw [← paths_getElem?, fileId?, position?_eq, List.findIdx?_eq_some_iff_getElem,
    List.getElem?_eq_some_iff]
  constructor
  · rintro ⟨lt, here, -⟩
    exact ⟨lt, beq_iff_eq.1 here⟩
  · rintro ⟨lt, here⟩
    refine ⟨lt, beq_iff_eq.2 here, fun earlier before same => ?_⟩
    -- no path stands twice
    have twice := (List.Nodup.getElem_inj_iff h.nodup).1 ((beq_iff_eq.1 same).trans here.symm)
    omega

theorem fileId?_eq_none_iff (h : Tracks names log p) :
    p.fileId? path = none ↔ Path.normalize path ∉ names := by
  rw [← h.mem_paths, fileId?, position?_eq, List.findIdx?_eq_none_iff]
  constructor
  · intro other present
    exact absurd (other _ present) (by simp)
  · intro absent name present
    exact beq_eq_false_iff_ne.2 fun same => absent (same ▸ present)

/-! ## What a call keeps -/

/-- A file changes its text and its flag, and either is modified then or has its text settled. -/
theorem modify (h : Tracks names log p) (samePath : ∀ f, (g f).path = f.path)
    (others : ∀ other, file ≠ other → entries.lookup other = log.lookup other)
    (here : ∀ f, p.file? file = some f → (g f).modified = false →
      entries.lookup file = some (g f).text) :
    Tracks names entries (p.modify file g) where
  normal := h.normal
  order := (modify_paths samePath).trans h.order
  text := by
    intro other f hf unmodified
    by_cases same : file = other
    · subst same
      cases stored : p.file? file with
      | none =>
        rw [modify_file?_eq_none stored] at hf
        cases hf
      | some before =>
        obtain rfl : g before = f := Option.some.inj ((modify_file? stored).symm.trans hf)
        exact here before stored unmodified
    · rw [modify_file?_of_ne same] at hf
      rw [others other same]
      exact h.text other f hf unmodified

theorem withText (h : Tracks names log p) (file : FileId) (text : List Char) :
    Tracks names log (p.modify file (.withText text)) := by
  refine h.modify (fun _ => ProjectFile.withText_path) (fun _ _ => rfl) fun f hf unmodified => ?_
  -- the file is as it was
  obtain ⟨before, rfl⟩ := ProjectFile.withText_modified.1 unmodified
  exact h.text file f hf before

theorem settled (h : Tracks names log p) (hf : p.file? file = some f) :
    Tracks names ((file, f.text) :: log) (p.modify file .settled) := by
  refine h.modify (fun _ => rfl) (fun other ne => ?_) fun stored hstored _ => ?_
  · rw [lookup_cons_eq, if_neg ne.symm]
  · cases hf.symm.trans hstored
    exact List.lookup_cons_self

theorem normal_concat (h : Tracks names log p) (path : String) :
    ∀ name ∈ names ++ [Path.normalize path], Path.normalize name = name := by
  intro name hname
  rcases List.mem_append.1 hname with earlier | last
  · exact h.normal name earlier
  · rw [List.mem_singleton.1 last, Path.normalize_normalize]

theorem append (h : Tracks names log p) (new : p.fileId? path = none) (text : List Char) :
    Tracks (names ++ [Path.normalize path]) ((p.size, text) :: log)
      { p with files := p.files ++ [{ path := Path.normalize path, text }] } where
  normal := h.normal_concat path
  order := by
    have fresh := h.fileId?_eq_none_iff.1 new
    rw [eraseDups_concat, if_neg fresh, ← h.order]
    simp [paths]
  text := by
    intro other f hf unmodified
    by_cases last : other = p.size
    · subst last
      have stored : (f : ProjectFile) = { path := Path.normalize path, text } := by
        simpa [file?, size] using hf.symm
      rw [stored]
      exact List.lookup_cons_self
    · have within : other < p.size + 1 := by
        have bound := (List.getElem?_eq_some_iff.1 hf).1
        rwa [List.length_append, List.length_singleton] at bound
      have lt : other < p.files.length := Nat.lt_of_le_of_ne (Nat.le_of_lt_succ within) last
      have before : p.file? other = some f := by
        rwa [file?, List.getElem?_append_left lt] at hf
      rw [lookup_cons_eq, if_neg last]
      exact h.text other f before unmodified

theorem again (h : Tracks names log p) (found : p.fileId? path = some file) :
    Tracks (names ++ [Path.normalize path]) log p := by
  have present : Path.normalize path ∈ names := by
    by_contra absent
    rw [h.fileId?_eq_none_iff.2 absent] at found
    cases found
  exact {
    normal := h.normal_concat path
    order := by rw [eraseDups_concat, if_pos present, List.append_nil, h.order]
    text := h.text }

theorem add (h : Tracks names log p) (path : String) (text : List Char) :
    Tracks (names ++ [Path.normalize path]) (p.settles (.add path text) ++ log)
      (p.add path text).2 := by
  cases found : p.fileId? path with
  | some file =>
    have settles : p.settles (.add path text) = [] := by simp [settles, found]
    rw [settles, add_of_found found]
    exact (h.again found).withText file text
  | none =>
    have settles : p.settles (.add path text) = [(p.size, text)] := by simp [settles, found]
    rw [settles, add_of_new found]
    exact h.append found text

theorem setText (h : Tracks names log p) {q : Project} (set : p.setText file text = .ok q) :
    Tracks names log q := by
  obtain ⟨f, -, rfl⟩ := setText_eq_ok set
  exact h.withText file text

theorem write (h : Tracks names log p) {disk after : Disk} {q : Project}
    (written : p.write disk file = .ok (path, q, after)) :
    Tracks names (p.settles (.write disk file) ++ log) q := by
  obtain ⟨f, root, hf, -, -, -, rfl⟩ := write_eq_ok written
  have settles : p.settles (.write disk file) = [(file, f.text)] := by
    simp only [settles, hf, written]
  rw [settles]
  exact h.settled hf

/-- One call. -/
theorem call (h : Tracks names log p) (c : Call) :
    Tracks (names ++ c.name?.toList) (p.settles c ++ log) (p.call c) := by
  cases c with
  | add path text => exact h.add path text
  | setText file text =>
    rw [show names ++ (Call.setText file text).name?.toList = names from List.append_nil names]
    cases called : p.call? (.setText file text) with
    | error problem => rwa [call_of_error called]
    | ok result =>
      obtain ⟨q, set, rfl⟩ := map_eq_ok.1 called
      rw [call_of_ok called]
      exact h.setText set
  | write disk file =>
    rw [show names ++ (Call.write disk file).name?.toList = names from List.append_nil names]
    cases called : p.call? (.write disk file) with
    | error problem =>
      rw [call_of_error called, settles_of_error called]
      exact h
    | ok result =>
      obtain ⟨r, written, rfl⟩ := map_eq_ok.1 called
      rw [call_of_ok called]
      exact h.write written

/-- All calls. -/
theorem calls (h : Tracks names log p) (cs : List Call) :
    Tracks (names ++ cs.filterMap Call.name?) (p.settled cs ++ log) (p.calls cs) := by
  induction cs generalizing names log p with
  | nil => simpa [Project.settled, Project.calls] using h
  | cons c cs ih =>
    have rest := ih (h.call c)
    rw [Project.settled, List.append_assoc]
    have split : names ++ (c :: cs).filterMap Call.name? =
        names ++ c.name?.toList ++ cs.filterMap Call.name? := by
      cases hname : c.name? <;> simp [hname]
    rw [split]
    exact rest

end Tracks

end Project
end FactorySync

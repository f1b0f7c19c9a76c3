import FactorySync.Proofs.Calls

/-!
# The store

A project is kept as two tables that have to agree, the files and an index of their paths. `Store`
is that way to keep it: it changes in place, and a call that fails leaves behind what it has changed
until then. It stands for the same project after every call (`Store.Represents.call`), so what is
known of projects after any calls is known of stores (`Project.calls_consistent`).
-/

namespace FactorySync

/-! ## Two tables -/

/-- A project as it is kept: its files, and beside them an index of their paths. -/
structure Store where
  root : Option String := none
  files : List ProjectFile := []
  byPath : List (String × FileId) := []

/-- What changes a store in place. A failure leaves behind the changes before it. -/
abbrev StoreM := ExceptT ProjectProblem (StateM Store)

namespace Store

open Project (Call Answer)

def add (path : String) (text : List Char) : StoreM Answer := do
  let path := Path.normalize path
  let s ← get
  match s.byPath.lookup path with
  | some file =>
    set { s with files := s.files.modify file (.withText text) }
    return .added file
  | none =>
    let new : ProjectFile := { path, text }
    set { s with byPath := (path, s.files.length) :: s.byPath, files := s.files ++ [new] }
    return .added s.files.length

def setText (file : FileId) (text : List Char) : StoreM Answer := do
  let s ← get
  let some f := s.files[file]? | throw (.unknownFile file)
  if f.text ≠ text then
    set { s with files := s.files.modify file fun f => { f with text, modified := true } }
  return .done

def write (disk : Disk) (file : FileId) : StoreM Answer := do
  let s ← get
  let some f := s.files[file]? | throw (.unknownFile file)
  let some root := s.root | throw (.inMemory f.path)
  let path := Path.combine root f.path
  let some after := disk.write? path f.text | throw (.unwritable path)
  set { s with files := s.files.modify file .settled }
  return .written path after

def perform : Call → StoreM Answer
  | .add path text => add path text
  | .setText file text => setText file text
  | .write disk file => write disk file

/-- What a call answers and the store after it. -/
def run (s : Store) (c : Call) : Except ProjectProblem Answer × Store := (perform c).run.run s

theorem run_get_bind {α : Type} (s : Store) (f : Store → StoreM α) :
    (get >>= f).run.run s = (f s).run.run s := rfl

def runs (s : Store) (cs : List Call) : Store := cs.foldl (fun s c => (s.run c).2) s

/-- That a store keeps a project: the same files, and each path is found where it stands. -/
structure Represents (s : Store) (p : Project) : Prop where
  root : s.root = p.root
  files : s.files = p.files
  index : ∀ path, s.byPath.lookup path = p.position? path

variable {s : Store} {p : Project} {c : Call}

theorem Represents.modify (h : s.Represents p) (file : FileId) {g : ProjectFile → ProjectFile}
    (samePath : ∀ f, (g f).path = f.path) :
    Represents { s with files := s.files.modify file g } (p.modify file g) where
  root := h.root
  files := by rw [h.files]; rfl
  index := by
    intro path
    rw [Project.position?_eq, Project.modify_paths samePath, ← Project.position?_eq]
    exact h.index path

theorem Represents.append (h : s.Represents p) {path : String} (new : p.position? path = none)
    (text : List Char) :
    Represents
      { s with byPath := (path, s.files.length) :: s.byPath, files := s.files ++ [{ path, text }] }
      { p with files := p.files ++ [{ path, text }] } where
  root := h.root
  files := by rw [h.files]
  index := by
    intro other
    rw [lookup_cons_eq, Project.position?, List.findIdx?_append]
    show _ = (p.position? other).or _
    by_cases same : other = path
    · subst same
      simp [new, h.files]
    · simp [same, h.index other, Ne.symm same]

/-! ### What a call does to both -/

namespace Represents

theorem run_add (h : s.Represents p) (path : String) (text : List Char) :
    ∃ after, s.run (.add path text) = (.ok (.added (p.add path text).1), after) ∧
      after.Represents (p.add path text).2 := by
  have index := h.index (Path.normalize path)
  cases found : p.position? (Path.normalize path) with
  | some file =>
    rw [found] at index
    refine ⟨{ s with files := s.files.modify file (.withText text) }, ?_, ?_⟩
    · rw [Project.add_of_found found]
      simp only [Store.run, perform, add, run_get_bind, index]
      rfl
    · rw [Project.add_of_found found]
      exact h.modify file fun _ => ProjectFile.withText_path
  | none =>
    rw [found] at index
    have kept := h.append found text
    rw [Project.add_of_new found]
    refine ⟨_, ?_, kept⟩
    rw [Project.size, ← h.files]
    simp only [Store.run, perform, add, run_get_bind, index]
    rfl

theorem run_setText_error (h : s.Represents p) {file : FileId} {text : List Char}
    {problem : ProjectProblem} (failed : p.setText file text = .error problem) :
    s.run (.setText file text) = (.error problem, s) := by
  unfold Project.setText Project.file? at failed
  rw [← h.files] at failed
  simp only [Store.run, perform, setText, run_get_bind]
  cases stored : s.files[file]? with
  | none =>
    rw [stored] at failed
    cases failed
    rfl
  | some f =>
    rw [stored] at failed
    cases failed

theorem run_setText_ok (h : s.Represents p) {file : FileId} {text : List Char} {q : Project}
    (done : p.setText file text = .ok q) :
    ∃ after, s.run (.setText file text) = (.ok .done, after) ∧ after.Represents q := by
  unfold Project.setText at done
  cases stored : p.file? file with
  | none =>
    rw [stored] at done
    cases done
  | some f =>
    rw [stored] at done
    cases done
    simp only [Store.run, perform, setText, run_get_bind, h.files,
      show p.files[file]? = some f from stored]
    by_cases unchanged : f.text = text
    · subst unchanged
      rw [Project.modify_withText_self stored, if_neg (not_not_intro rfl)]
      exact ⟨s, rfl, h⟩
    · have changed : p.modify file (.withText text) =
          p.modify file fun f => { f with text, modified := true } := by
        refine Project.modify_congr fun before hbefore => ?_
        cases stored.symm.trans hbefore
        exact ProjectFile.withText_of_ne unchanged
      rw [changed, if_pos unchanged, ← h.files]
      exact ⟨_, rfl, h.modify file fun _ => rfl⟩

theorem run_write_error (h : s.Represents p) {disk : Disk} {file : FileId}
    {problem : ProjectProblem} (failed : p.write disk file = .error problem) :
    s.run (.write disk file) = (.error problem, s) := by
  unfold Project.write Project.file? at failed
  rw [← h.files, ← h.root] at failed
  simp only [Store.run, perform, write, run_get_bind]
  cases stored : s.files[file]? with
  | none =>
    rw [stored] at failed
    cases failed
    rfl
  | some f =>
    cases rooted : s.root with
    | none =>
      rw [stored, rooted] at failed
      cases failed
      rfl
    | some root =>
      rw [stored, rooted] at failed
      dsimp only at failed ⊢
      cases written : disk.write? (Path.combine root f.path) f.text with
      | none =>
        rw [written] at failed
        cases failed
        rfl
      | some after =>
        rw [written] at failed
        cases failed

theorem run_write_ok (h : s.Represents p) {disk after : Disk} {file : FileId} {path : String}
    {q : Project} (done : p.write disk file = .ok (path, q, after)) :
    ∃ t, s.run (.write disk file) = (.ok (.written path after), t) ∧ t.Represents q := by
  obtain ⟨f, root, hf, hroot, rfl, hdisk, rfl⟩ := Project.write_eq_ok done
  refine ⟨_, ?_, h.modify file fun _ => rfl⟩
  simp only [Store.run, perform, write, run_get_bind, h.root, hroot, h.files,
    show p.files[file]? = some f from hf, hdisk]
  rfl

/-- A call that fails does so for the same reason, and changes nothing. -/
theorem run_error (h : s.Represents p) {problem : ProjectProblem}
    (failed : p.call? c = .error problem) : s.run c = (.error problem, s) := by
  cases c with
  | add path text => cases failed
  | setText file text => exact h.run_setText_error (map_eq_error.1 failed)
  | write disk file => exact h.run_write_error (map_eq_error.1 failed)

/-- A call that succeeds answers the same and keeps what the project becomes. -/
theorem run_ok (h : s.Represents p) {answer : Answer} {q : Project}
    (called : p.call? c = .ok (answer, q)) :
    ∃ after, s.run c = (.ok answer, after) ∧ after.Represents q := by
  cases c with
  | add path text =>
    cases called
    exact h.run_add path text
  | setText file text =>
    obtain ⟨r, set, result⟩ := map_eq_ok.1 called
    cases result
    exact h.run_setText_ok set
  | write disk file =>
    obtain ⟨r, written, result⟩ := map_eq_ok.1 called
    cases result
    exact h.run_write_ok written

theorem call (h : s.Represents p) (c : Call) : (s.run c).2.Represents (p.call c) := by
  cases called : p.call? c with
  | error problem =>
    rw [h.run_error called, Project.call_of_error called]
    exact h
  | ok result =>
    obtain ⟨after, ran, kept⟩ := h.run_ok called
    rw [ran, Project.call_of_ok called]
    exact kept

theorem calls (h : s.Represents p) (cs : List Call) : (s.runs cs).Represents (p.calls cs) := by
  induction cs generalizing s p with
  | nil => exact h
  | cons c cs ih => exact ih (h.call c)

end Represents

end Store

/-! ## Whole runs -/

namespace Project

/-- The number that adding a file tells is the one its path is found under. -/
theorem Tracks.fileId?_add {p : Project} {names : List String} {log : List (FileId × List Char)}
    (h : Tracks names log p) (path : String) (text : List Char) :
    (p.add path text).2.fileId? path = some (p.add path text).1 := by
  have tracks : Tracks _ _ (p.add path text).2 := h.call (.add path text)
  rw [tracks.fileId?_eq_some_iff]
  cases found : p.fileId? path with
  | some file =>
    obtain ⟨f, hf, same⟩ := h.fileId?_eq_some_iff.1 found
    rw [add_of_found found]
    exact ⟨f.withText text, modify_file? hf, same⟩
  | none =>
    rw [add_of_new found]
    exact ⟨{ path := Path.normalize path, text }, by simp [file?, size], rfl⟩

/-- What holds of a project that began without files, and of the store that keeps it, after some
calls. -/
structure Consistent (root : Option String) (cs : List Call) (p : Project) (s : Store) : Prop where
  normal : ∀ f ∈ p.files, Path.normalize f.path = f.path
  once : p.paths.Nodup
  /-- Any spelling of a path finds the file with that path. -/
  found : ∀ path file, p.fileId? path = some file ↔
    ∃ f, p.file? file = some f ∧ f.path = Path.normalize path
  numbered : ∀ path text, (p.add path text).2.fileId? path = some (p.add path text).1
  /-- A number is the position of a name among all names, each at its first use. -/
  order : p.paths = (cs.filterMap Call.name?).eraseDups
  size : p.size = (cs.filterMap Call.name?).toFinset.card
  /-- A file keeps its number. -/
  stays : ∀ more file f, p.file? file = some f →
    ∃ later, (p.calls more).file? file = some later ∧ later.path = f.path
  /-- Without the flag the text is the one that was settled last. -/
  settled : ∀ file f, p.file? file = some f → f.modified = false →
    (({ root } : Project).settled cs).lookup file = some f.text
  /-- Both tables agree. -/
  represents : s.Represents p
  failed : ∀ c problem, p.call? c = .error problem → p.call c = p ∧ s.run c = (.error problem, s)
  answered : ∀ c answer q, p.call? c = .ok (answer, q) → (s.run c).1 = .ok answer

theorem calls_consistent (root : Option String) (cs : List Call) :
    Consistent root cs (({ root } : Project).calls cs) (({ root } : Store).runs cs) := by
  have start : Tracks [] [] { root } :=
    { normal := by simp, order := rfl, text := fun _ _ h => absurd h (by simp [file?]) }
  have tracks : Tracks (cs.filterMap Call.name?) (({ root } : Project).settled cs)
      (({ root } : Project).calls cs) := by simpa using start.calls cs
  have kept : (({ root } : Store).runs cs).Represents (({ root } : Project).calls cs) :=
    Store.Represents.calls { root := rfl, files := rfl, index := fun _ => rfl } cs
  exact {
    normal := fun f hf => tracks.normal f.path (tracks.mem_paths.1 (List.mem_map_of_mem hf))
    once := tracks.nodup
    found := fun _ _ => tracks.fileId?_eq_some_iff
    numbered := tracks.fileId?_add
    order := tracks.order
    size := tracks.size_eq
    stays := fun more _ _ hf => (Grows.calls _ more).file? hf
    settled := tracks.text
    represents := kept
    failed := fun _ _ failed => ⟨call_of_error failed, kept.run_error failed⟩
    answered := by
      intro c answer q called
      obtain ⟨after, ran, -⟩ := kept.run_ok called
      rw [ran] }

end Project
end FactorySync

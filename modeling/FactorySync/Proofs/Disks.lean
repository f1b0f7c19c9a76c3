import FactorySync.Disk.Basic

/-!
# Disks

What is written is read back (`Disk.read?_of_write?`). That takes more than a look at one place of
the tree, since the path is walked again on the new disk: every directory on the way has to be there
still, and it is, because a write puts its text where no directory was
(`FileTree.directory_insert`).
-/

namespace FactorySync

theorem lookup_cons_eq {α β : Type} [BEq α] [LawfulBEq α] [DecidableEq α] (key other : α)
    (value : β) (entries : List (α × β)) : ((key, value) :: entries).lookup other =
      if other = key then some value else entries.lookup other := by
  by_cases same : other = key
  · rw [if_pos same, same, List.lookup_cons_self]
  · rw [if_neg same, List.lookup_cons, beq_false_of_ne same]

namespace FileTree

variable {t new : FileTree} {name other : Segment} {place q : List Segment}

theorem lookup_setEntry (name other : Segment) (new : FileTree)
    (entries : List (Segment × FileTree)) : (setEntry name new entries).lookup other =
      if other = name then some new else entries.lookup other := by
  induction entries with
  | nil => rw [setEntry, lookup_cons_eq]
  | cons e entries ih =>
    obtain ⟨first, here⟩ := e
    rw [setEntry, lookup_cons_eq]
    by_cases found : first = name
    · subst found
      rw [if_pos rfl, lookup_cons_eq]
      split
      · rfl
      · rfl
    · rw [if_neg found, lookup_cons_eq, ih]
      by_cases same : other = first
      · subst same
        rw [if_pos rfl, if_neg found, if_pos rfl]
      · rw [if_neg same, if_neg same]

theorem entry?_insert (t : FileTree) (name other : Segment) (names : List Segment)
    (new : FileTree) : entry? other (t.insert (name :: names) new) =
      if other = name then some (((t.entry? name).getD empty).insert names new)
      else t.entry? other := by
  cases t with
  | directory entries =>
    rw [insert, entry?, lookup_setEntry]
    rfl
  | text content => exact lookup_setEntry name other _ []
  | raw => exact lookup_setEntry name other _ []

theorem at?_insert_self (t : FileTree) (place : List Segment) (new : FileTree) :
    (t.insert place new).at? place = some new := by
  induction place generalizing t with
  | nil => rfl
  | cons name names ih => rw [at?, entry?_insert, if_pos rfl, Option.bind_some, ih]

/-- What is put where no directory is leaves every directory there. -/
theorem directory_insert (free : (t.at? place).any (·.isDirectory) = false)
    (h : (t.at? q).any (·.isDirectory) = true) :
    ((t.insert place new).at? q).any (·.isDirectory) = true := by
  induction place generalizing t q with
  | nil =>
    -- nothing is below what is not a directory
    cases t with
    | directory entries => exact Bool.noConfusion free
    | text content => cases q <;> exact Bool.noConfusion h
    | raw => cases q <;> exact Bool.noConfusion h
  | cons name names ih =>
    cases q with
    | nil => rfl
    | cons first rest =>
      rw [at?, entry?_insert]
      rw [at?] at h free
      by_cases same : first = name
      · subst same
        cases entry : t.entry? first with
        | none => simp [entry] at h
        | some below =>
          rw [entry] at h free
          rw [if_pos rfl]
          exact ih free h
      · rwa [if_neg same]

end FileTree

namespace Disk

variable {d after : Disk} {path : String} {place : List Segment} {content : List Char}

/-- The same way is open where there are the same directories or more. -/
theorem walk_of_directories (h : ∀ q, d.isDirectoryAt q = true → after.isDirectoryAt q = true)
    {segment : Segment} {next : List Segment} (walked : d.walk place segment = some next) :
    after.walk place segment = some next := by
  unfold walk at walked ⊢
  split at walked
  · next here => rwa [if_pos (h place here)]
  · cases walked

theorem foldlM_walk (h : ∀ q, d.isDirectoryAt q = true → after.isDirectoryAt q = true)
    {segments : List Segment} {start : List Segment}
    (walked : segments.foldlM d.walk start = some place) :
    segments.foldlM after.walk start = some place := by
  induction segments generalizing start with
  | nil => exact walked
  | cons segment segments ih =>
    rw [List.foldlM_cons] at walked ⊢
    obtain ⟨next, first, rest⟩ := Option.bind_eq_some_iff.1 walked
    rw [walk_of_directories h first]
    exact ih rest

theorem write?_eq_some (h : d.write? path content = some after) : ∃ place,
    d.place? path = some place ∧ d.isDirectoryAt place = false ∧
      after = { d with tree := d.tree.insert place (.text content) } := by
  obtain ⟨place, found, h⟩ := Option.bind_eq_some_iff.1 h
  split at h
  · cases h
  · next free => exact ⟨place, found, Bool.eq_false_iff.2 free, (Option.some.inj h).symm⟩

theorem read?_of_write? (h : d.write? path content = some after) :
    after.read? path = some content := by
  obtain ⟨place, found, free, rfl⟩ := write?_eq_some h
  have again : Disk.place? { d with tree := d.tree.insert place (.text content) } path =
      some place := by
    unfold place? at found ⊢
    dsimp only at found ⊢
    split at found
    · next short =>
      rw [if_pos short]
      have kept (q : List Segment) : d.isDirectoryAt q = true → isDirectoryAt
          { d with tree := d.tree.insert place (.text content) } q = true :=
        FileTree.directory_insert free
      exact foldlM_walk kept found
    · cases found
  rw [read?, find?, again, Option.bind_some, FileTree.at?_insert_self]

end Disk
end FactorySync

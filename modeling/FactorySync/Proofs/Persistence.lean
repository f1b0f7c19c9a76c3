import FactorySync.Proofs.Stages

/-!
# What is written

A session runs the generator on a project that changes in between, and uses the outcomes at any
later time. An outcome holds on to two texts, the one that the target file had and the one that it
is to have. Only if these differ does a write do anything, and then the new text stands in the
project and on the disk (`Outcome.write_of_changed`). If they are equal, it does nothing, also where
the project or the disk have other texts by then: a write that succeeds thus leaves the new text
behind exactly if the outcome changes something or the text is there already
(`Session.write_written`).
A run on a project that has been changed but not written is such a case
(`Session.appliedOnly_unwritten`).
-/

namespace FactorySync

/-! ## One write -/

namespace Outcome

variable {o : Outcome} {p q : Project} {d after : Disk} {answer : Option String}

theorem write_of_upToDate (h : o.isUpToDate = true) (p : Project) (d : Disk) :
    o.write p d = (.ok none, p, d) := by
  rw [write, if_pos h]

/-- A write that has something to do and succeeds has stored the new text and written it. -/
theorem write_of_changed (changed : o.isUpToDate = false)
    (h : o.write p d = (.ok answer, q, after)) : ∃ f root, p.file? o.file = some f ∧
      p.root = some root ∧ answer = some (Path.combine root f.path) ∧
      d.write? (Path.combine root f.path) o.after = some after ∧
      (p.modify o.file (.withText o.after)).modify o.file .settled = q := by
  rw [write, changed] at h
  cases applied : o.apply p with
  | error problem =>
    rw [applied] at h
    cases h
  | ok stored =>
    rw [applied] at h
    obtain ⟨f, hf, rfl⟩ := Project.setText_eq_ok applied
    dsimp only at h
    cases written : (p.modify o.file (.withText o.after)).write d o.file with
    | error problem =>
      rw [written] at h
      cases h
    | ok result =>
      obtain ⟨path, q, after⟩ := result
      rw [written] at h
      cases h
      obtain ⟨g, root, hg, hroot, rfl, hdisk, rfl⟩ := Project.write_eq_ok written
      obtain rfl := Option.some.inj ((Project.modify_file? hf).symm.trans hg)
      exact ⟨f, root, hf, hroot, rfl, hdisk, rfl⟩

theorem write_grows (o : Outcome) (p : Project) (d : Disk) : p.Grows (o.write p d).2.1 := by
  unfold write
  split
  · exact .refl p
  · cases applied : o.apply p with
    | error problem => exact .refl p
    | ok stored =>
      have stores : p.Grows stored := .setText applied
      dsimp only
      cases written : stored.write d o.file with
      | error problem => exact stores
      | ok result => exact stores.trans (.write written)

end Outcome

/-- A run that succeeds has read the text that its outcome begins with. -/
theorem Generation.run_file? {p : Project} {c : Config} {o : Outcome} (h : run p c = .ok o) :
    ∃ f, p.file? o.file = some f ∧ f.path = o.path ∧ f.text = o.before := by
  obtain ⟨passage⟩ := run_passage h
  have hfile := (intact_eq_ok.1 passage.before_intact).1
  rw [Program.ofProject_file?] at hfile
  obtain ⟨f, hf, same⟩ := Option.map_eq_some_iff.1 hfile
  refine ⟨f, hf, ?_, ?_⟩
  · simpa using congrArg SourceFile.path same
  · simpa [SourceFile.parse_text] using congrArg SourceFile.text same

/-! ## Sessions -/

/-- A project with the disk it is written to, and the outcomes of the runs so far. -/
structure Session where
  project : Project
  disk : Disk
  outcomes : List Outcome := []

namespace Session

/-- A step of a session. An outcome is named by its position among those so far. -/
inductive Step where
  | add (path : String) (text : List Char)
  | setText (file : FileId) (text : List Char)
  | generate (c : Config)
  | apply (n : Nat)
  | write (n : Nat)

/-- What fails changes nothing, but for the text that a write has stored before. -/
def step (s : Session) : Step → Session
  | .add path text => { s with project := (s.project.add path text).2 }
  | .setText file text =>
    match s.project.setText file text with
    | .ok project => { s with project }
    | .error _ => s
  | .generate c =>
    match Generation.run s.project c with
    | .ok o => { s with outcomes := s.outcomes ++ [o] }
    | .error _ => s
  | .apply n =>
    match s.outcomes[n]? with
    | none => s
    | some o =>
      match o.apply s.project with
      | .ok project => { s with project }
      | .error _ => s
  | .write n =>
    match s.outcomes[n]? with
    | none => s
    | some o =>
      let (_, project, disk) := o.write s.project s.disk
      { s with project, disk }

def run (s : Session) (steps : List Step) : Session := steps.foldl step s

/-- The project and the disk have the new text of an outcome. -/
def Holds (s : Session) (root : String) (o : Outcome) : Prop :=
  (∃ f, s.project.file? o.file = some f ∧ f.text = o.after) ∧
    s.disk.read? (Path.combine root o.path) = some o.after

/-- What every session keeps: the root, and that the outcomes name files of the project. -/
structure Sound (root : String) (s : Session) : Prop where
  root : s.project.root = some root
  known : ∀ o ∈ s.outcomes, ∃ f, s.project.file? o.file = some f ∧ f.path = o.path

variable {root : String} {s : Session} {o : Outcome} {answer : Option String} {n : Nat}

theorem Sound.grow (h : Sound root s) {project : Project} (grows : s.project.Grows project)
    (disk : Disk) : Sound root { s with project, disk } where
  root := grows.root.trans h.root
  known := by
    intro o ho
    obtain ⟨f, hf, named⟩ := h.known o ho
    obtain ⟨later, hlater, same⟩ := grows.file? hf
    exact ⟨later, hlater, same.trans named⟩

/-- One step. -/
theorem Sound.step (h : Sound root s) (step : Step) : Sound root (s.step step) := by
  cases step with
  | add path text => exact h.grow (.add s.project path text) s.disk
  | setText file text =>
    rw [Session.step]
    split
    · next set => exact h.grow (.setText set) s.disk
    · exact h
  | generate c =>
    rw [Session.step]
    split
    · next o ran =>
      refine { root := h.root, known := fun o' ho => ?_ }
      rcases List.mem_append.1 ho with ho | ho
      · exact h.known o' ho
      · obtain rfl := List.mem_singleton.1 ho
        obtain ⟨f, hf, named, -⟩ := Generation.run_file? ran
        exact ⟨f, hf, named⟩
    · exact h
  | apply n =>
    rw [Session.step]
    split
    · exact h
    · split
      · next applied => exact h.grow (.setText applied) s.disk
      · exact h
  | write n =>
    rw [Session.step]
    split
    · exact h
    · next o _ => exact h.grow (o.write_grows s.project s.disk) _

/-- All steps. -/
theorem Sound.run (h : Sound root s) (steps : List Step) : Sound root (s.run steps) := by
  induction steps generalizing s with
  | nil => exact h
  | cons step steps ih => exact ih (h.step step)

/-- What a write by an outcome has done that succeeded. -/
structure Written (root : String) (o : Outcome) (s after : Session) (answer : Option String) :
    Prop where
  answer : answer = if o.isUpToDate then none else some (Path.combine root o.path)
  untouched : o.isUpToDate = true → after = s
  /-- The new text is there afterwards if the outcome changes something or the text was there. -/
  holds : after.Holds root o ↔ o.isUpToDate = false ∨ s.Holds root o
  /-- Right after its run, an outcome knows the text of the project, but not that of the disk. -/
  fresh : ∀ c, Generation.run s.project c = .ok o → (after.Holds root o ↔
    o.isUpToDate = false ∨ s.disk.read? (Path.combine root o.path) = some o.after)

theorem step_write_of_upToDate (ho : s.outcomes[n]? = some o) (h : o.isUpToDate = true) :
    s.step (.write n) = s := by
  rw [step, ho]
  dsimp only
  rw [Outcome.write_of_upToDate h]

theorem Sound.holds_of_changed (h : Sound root s) (ho : s.outcomes[n]? = some o)
    (changed : o.isUpToDate = false) (ok : (o.write s.project s.disk).1 = .ok answer) :
    answer = some (Path.combine root o.path) ∧ (s.step (.write n)).Holds root o := by
  obtain ⟨q, after, result⟩ : ∃ q after, o.write s.project s.disk = (.ok answer, q, after) :=
    ⟨_, _, Prod.ext ok rfl⟩
  obtain ⟨f, root', hf, hroot, rfl, hdisk, rfl⟩ := Outcome.write_of_changed changed result
  obtain ⟨g, hg, named⟩ := h.known o (List.mem_of_getElem? ho)
  cases hf.symm.trans hg
  cases hroot.symm.trans h.root
  rw [named] at hdisk ⊢
  rw [Session.step, ho]
  dsimp only
  rw [result]
  refine ⟨rfl, ⟨_, Project.modify_file? (Project.modify_file? hf), rfl⟩, ?_⟩
  exact Disk.read?_of_write? hdisk

/-- Whether a write that succeeds persists. Outcomes may come from any earlier step. -/
theorem write_written {start : Session} (rooted : start.project.root = some root)
    (unused : start.outcomes = []) (steps : List Step)
    (ho : (start.run steps).outcomes[n]? = some o)
    (ok : (o.write (start.run steps).project (start.run steps).disk).1 = .ok answer) :
    Written root o (start.run steps) ((start.run steps).step (.write n)) answer := by
  have sound : Sound root (start.run steps) :=
    Sound.run { root := rooted, known := fun o ho => absurd ho (by simp [unused]) } steps
  generalize start.run steps = s at ho ok sound ⊢
  cases upToDate : o.isUpToDate with
  | true =>
    have same := step_write_of_upToDate ho upToDate
    rw [Outcome.write_of_upToDate upToDate] at ok
    cases ok
    refine { answer := ?_, untouched := fun _ => same, holds := ?_, fresh := ?_ }
    · rw [if_pos upToDate]
    · simp [same, upToDate]
    · intro c ran
      obtain ⟨f, hf, -, before⟩ := Generation.run_file? ran
      have unchanged : o.before = o.after := eq_of_beq upToDate
      rw [same]
      constructor
      · exact fun holds => .inr holds.2
      · rintro (changed | onDisk)
        · exact absurd changed (by simp [upToDate])
        · exact ⟨⟨f, hf, before.trans unchanged⟩, onDisk⟩
  | false =>
    obtain ⟨rfl, holds⟩ := sound.holds_of_changed ho upToDate ok
    refine { answer := ?_, untouched := ?_, holds := ?_, fresh := ?_ }
    · simp [upToDate]
    · exact fun h => absurd h (by simp [upToDate])
    · exact iff_of_true holds (.inl upToDate)
    · exact fun c _ => iff_of_true holds (.inl upToDate)

/-! ### A stale target -/

/-- A target with a factory that no structure asks for any more. -/
def staleTarget : Session where
  project := {
    root := some "r"
    files := [{
      path := "Structure.generated.ts"
      text := "export const T = \x7b cX() \x7b\x7d \x7d as const".toList }] }
  disk := { tree := .directory [("r".toList, .directory [("Structure.generated.ts".toList,
    .text "export const T = \x7b cX() \x7b\x7d \x7d as const".toList)])] }

open Generation (shortNames)

/-- The factory is cleared, and the write persists. -/
theorem staleTarget_written : ∃ o answer,
    (staleTarget.run [.generate shortNames]).outcomes[0]? = some o ∧ o.isUpToDate = false ∧
    Written "r" o (staleTarget.run [.generate shortNames])
      ((staleTarget.run [.generate shortNames]).step (.write 0)) answer := by
  have writes : (staleTarget.run [.generate shortNames]).outcomes[0]?.any (fun o =>
      !o.isUpToDate && (o.write (staleTarget.run [.generate shortNames]).project
        (staleTarget.run [.generate shortNames]).disk).1.toOption.isSome) = true := by
    decide +kernel
  obtain ⟨o, ho, writes⟩ := (Option.any_eq_true _ _).1 writes
  obtain ⟨changed, ok⟩ := Bool.and_eq_true_iff.1 writes
  obtain ⟨answer, ok⟩ := Option.isSome_iff_exists.1 ok
  exact ⟨o, answer, ho, by simpa using changed,
    write_written rfl rfl [.generate shortNames] ho (toOption_eq_some.1 ok)⟩

/-- The outcome is stored in the project but not written, and the generator runs again. -/
def appliedOnly : Session :=
  staleTarget.run [.generate shortNames, .apply 0, .generate shortNames]

/-- The second run finds nothing to do, and what it writes is nothing: the disk keeps the stale
text. -/
theorem appliedOnly_unwritten : staleTarget.project.root = some "r" ∧ staleTarget.outcomes = [] ∧
    ∃ o, appliedOnly.outcomes[1]? = some o ∧
      (o.write appliedOnly.project appliedOnly.disk).1 = .ok none ∧
      ¬ (appliedOnly.step (.write 1)).Holds "r" o := by
  have stale : appliedOnly.outcomes[1]?.any (fun o => o.isUpToDate &&
      decide (appliedOnly.disk.read? (Path.combine "r" o.path) ≠ some o.after)) = true := by
    decide +kernel
  obtain ⟨o, ho, stale⟩ := (Option.any_eq_true _ _).1 stale
  obtain ⟨upToDate, differs⟩ := Bool.and_eq_true_iff.1 stale
  refine ⟨rfl, rfl, o, ho, by rw [Outcome.write_of_upToDate upToDate], ?_⟩
  rw [step_write_of_upToDate ho upToDate]
  exact fun holds => of_decide_eq_true differs holds.2

end Session
end FactorySync

import FactorySync.Glob
import Mathlib.Data.List.Forall2

/-!
# What a pattern fits

Each part of a pattern stands for a run of what it is matched against: a byte of a segment for a run
of bytes (`ByteRun`), a segment of the pattern for a run of path segments (`SegmentRun`). A pattern
fits if the runs of its parts, one behind the other, are the whole (`Runs`). The search tries every
end of the text for `*` and every end of the path for `**`, and so misses none of them
(`Glob.fits_iff`).
-/

namespace FactorySync

/-- The text falls into runs, one for each part of the pattern. -/
def Runs {α β : Type} (R : α → List β → Prop) (pattern : List α) (text : List β) : Prop :=
  ∃ runs, List.Forall₂ R pattern runs ∧ runs.flatten = text

namespace Runs

variable {α β : Type} {R : α → List β → Prop} {a : α} {as : List α} {text : List β}

theorem nil_iff : Runs R [] text ↔ text = [] := by
  constructor
  · rintro ⟨runs, h, rfl⟩
    cases h
    rfl
  · rintro rfl
    exact ⟨[], .nil, rfl⟩

theorem cons_iff : Runs R (a :: as) text ↔
    ∃ run rest, text = run ++ rest ∧ R a run ∧ Runs R as rest := by
  constructor
  · rintro ⟨runs, h, rfl⟩
    cases h with
    | @cons _ run _ runs first more => exact ⟨run, runs.flatten, rfl, first, runs, more, rfl⟩
  · rintro ⟨run, rest, rfl, first, runs, more, rfl⟩
    exact ⟨run :: runs, .cons first more, rfl⟩

end Runs

theorem mem_suffixes {α : Type} {tail l : List α} :
    tail ∈ suffixes l ↔ ∃ run, l = run ++ tail := by
  induction l with
  | nil => simp [suffixes, eq_comm]
  | cons a as ih =>
    rw [suffixes, List.mem_cons, ih]
    constructor
    · rintro (rfl | ⟨run, rfl⟩)
      · exact ⟨[], rfl⟩
      · exact ⟨a :: run, rfl⟩
    · rintro ⟨run, heq⟩
      cases run with
      | nil => exact .inl heq.symm
      | cons b run => exact .inr ⟨run, (List.cons.inj heq).2⟩

theorem suffixes_map {α β : Type} (f : α → β) (l : List α) :
    suffixes (l.map f) = (suffixes l).map (·.map f) := by
  induction l with
  | nil => rfl
  | cons a as ih => simp [suffixes, ih]

namespace Glob

/-- The byte of `*`. -/
def star : UInt8 := 42

/-- The byte of `?`. -/
def questionMark : UInt8 := 63

/-- The bytes that one byte of a pattern stands for. -/
inductive ByteRun : UInt8 → List UInt8 → Prop
  | any (run : List UInt8) : ByteRun star run
  | one (b : UInt8) : ByteRun questionMark [b]
  | itself {b : UInt8} : b ≠ star → b ≠ questionMark → ByteRun b [b]

/-- The path segments that one segment of a pattern stands for. -/
inductive SegmentRun : Segment → List Segment → Prop
  | anyDepth (run : List Segment) : SegmentRun ['*', '*'] run
  | one {s t : Segment} : s ≠ ['*', '*'] → Runs ByteRun (bytes s) (bytes t) → SegmentRun s [t]

example : bytes ['*', '?'] = [star, questionMark] := by decide

theorem matchBytes_iff {pattern text : List UInt8} :
    matchBytes (pattern.map parseWildcard) text = true ↔ Runs ByteRun pattern text := by
  induction pattern generalizing text with
  | nil => rw [List.map_nil, matchBytes, Runs.nil_iff, List.isEmpty_iff]
  | cons b pattern ih =>
    have parsed : parseWildcard b =
        if b = star then .many else if b = questionMark then .one else .byte b := rfl
    rw [List.map_cons, Runs.cons_iff, parsed]
    by_cases many : b = star
    · subst many
      simp only [if_true, matchBytes, List.any_eq_true, mem_suffixes, ih]
      constructor
      · rintro ⟨tail, ⟨run, heq⟩, rest⟩
        exact ⟨run, tail, heq, .any run, rest⟩
      · rintro ⟨run, tail, heq, -, rest⟩
        exact ⟨tail, ⟨run, heq⟩, rest⟩
    by_cases one : b = questionMark
    · subst one
      rw [if_neg many, if_pos rfl]
      cases text with
      | nil =>
        refine ⟨nofun, ?_⟩
        rintro ⟨run, rest, heq, first, -⟩
        cases first with
        | one => cases heq
        | itself _ other => exact absurd rfl other
      | cons c tail =>
        rw [matchBytes, ih]
        constructor
        · exact fun rest => ⟨[c], tail, rfl, .one c, rest⟩
        · rintro ⟨run, rest, heq, first, more⟩
          cases first with
          | one => exact (List.cons.inj heq).2 ▸ more
          | itself _ other => exact absurd rfl other
    · rw [if_neg many, if_neg one]
      have only {run : List UInt8} (first : ByteRun b run) : run = [b] := by
        cases first with
        | any => exact absurd rfl many
        | one => exact absurd rfl one
        | itself => rfl
      cases text with
      | nil =>
        refine ⟨nofun, ?_⟩
        rintro ⟨run, rest, heq, first, -⟩
        rw [only first] at heq
        cases heq
      | cons c tail =>
        rw [matchBytes, Bool.and_eq_true, beq_iff_eq, ih]
        constructor
        · rintro ⟨rfl, rest⟩
          exact ⟨[c], tail, rfl, .itself many one, rest⟩
        · rintro ⟨run, rest, heq, first, more⟩
          rw [only first] at heq
          obtain ⟨rfl, rfl⟩ := List.cons.inj heq
          exact ⟨rfl, more⟩

theorem matchSegments_iff {pattern path : List Segment} :
    matchSegments (pattern.map parseSegment) (path.map bytes) = true ↔
      Runs SegmentRun pattern path := by
  induction pattern generalizing path with
  | nil => rw [List.map_nil, matchSegments, Runs.nil_iff, List.isEmpty_iff, List.map_eq_nil_iff]
  | cons s pattern ih =>
    rw [List.map_cons, Runs.cons_iff, parseSegment]
    by_cases anyDepth : s = ['*', '*']
    · subst anyDepth
      simp only [if_true, matchSegments, suffixes_map, List.any_map, List.any_eq_true,
        Function.comp_apply, mem_suffixes, ih]
      constructor
      · rintro ⟨tail, ⟨run, heq⟩, rest⟩
        exact ⟨run, tail, heq, .anyDepth run, rest⟩
      · rintro ⟨run, tail, heq, -, rest⟩
        exact ⟨tail, ⟨run, heq⟩, rest⟩
    · rw [if_neg anyDepth]
      cases path with
      | nil =>
        refine ⟨nofun, ?_⟩
        rintro ⟨run, rest, heq, first, -⟩
        cases first with
        | anyDepth => exact absurd rfl anyDepth
        | one => cases heq
      | cons t tail =>
        rw [List.map_cons, matchSegments, Bool.and_eq_true, matchBytes_iff, ih]
        constructor
        · rintro ⟨first, rest⟩
          exact ⟨[t], tail, rfl, .one anyDepth first, rest⟩
        · rintro ⟨run, rest, heq, first, more⟩
          cases first with
          | anyDepth => exact absurd rfl anyDepth
          | one _ first =>
            obtain ⟨rfl, rfl⟩ := List.cons.inj heq
            exact ⟨first, more⟩

/-- A pattern fits a path exactly if the path, cut at its slashes and without the empty pieces,
falls into runs that the segments of the pattern stand for, in order: any path segments for `**`,
and for another segment the one whose bytes fall into runs that its bytes stand for. -/
theorem fits_iff (pattern path : String) : fits pattern path = true ↔
    Runs SegmentRun ((pattern.toList.splitOn '/').filter (· ≠ []))
      ((path.toList.splitOn '/').filter (· ≠ [])) :=
  matchSegments_iff

/-- Two `**` and two `*` compete for the same text, and both `**` are left with nothing. -/
example : fits "**/a*b*/**" "//aabcb/" = true ∧ fits "**/a*b?/**" "aabcb" = false ∧
    fits "**/a*b?/**" "aabb/b" = true ∧ fits "a/**/*?" "a/" = false := by decide

end Glob
end FactorySync

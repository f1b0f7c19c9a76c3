import FactorySync.Proofs.Paths

/-!
# Canonical form

In canonical form a path is an optional root and segments, none of which is empty or a dot, with the
ways up in front and none behind a root (`NormalPath.IsCanonical`). Normalizing yields this form,
keeps the root and leaves exactly the canonical spellings as they are. What is read from a directory
depends on the canonical form of the directory only (`NormalPath.ofChars_combine`), also if that is
the empty path. `Path.normalize_canonical` states all of this together.
-/

namespace FactorySync

namespace NormalPath

/-- The segment that goes up. -/
def up : Segment := ['.', '.']

/-- Segments of a path in canonical form. -/
structure IsCanonical (p : NormalPath) : Prop where
  proper : ∀ s ∈ p.segments, Segment.IsProper s
  upsInFront : ∃ n names, p.segments = List.replicate n up ++ names ∧ up ∉ names ∧
    (p.rooted = true → n = 0)

/-! ## What folding leaves behind -/

section Folding

variable {rooted : Bool} {folded : List Segment}

/-- After folding, the ways up come before all other segments. -/
theorem Folded.upsLast (h : Folded rooted folded) : ∃ n names,
    folded = names ++ List.replicate n up ∧ up ∉ names ∧ (rooted = true → n = 0) := by
  induction h with
  | nil => exact ⟨0, [], rfl, List.not_mem_nil, fun _ => rfl⟩
  | @cons parents last _ kept ih =>
    obtain ⟨n, names, rfl, noUp, root⟩ := ih
    by_cases isUp : last = up
    · -- a way up is kept only behind another one, or in front of everything without a root
      subst isUp
      cases names with
      | nil =>
        refine ⟨n + 1, [], rfl, List.not_mem_nil, fun hrooted => ?_⟩
        rw [root hrooted, hrooted] at kept
        exact absurd kept (by decide)
      | cons name names =>
        have notUp : name ≠ up := fun same => noUp (same ▸ List.mem_cons_self)
        rw [List.cons_append, up, fold_up notUp] at kept
        exact absurd (congrArg List.length kept) (by simp; omega)
    · exact ⟨n, last :: names, rfl, by simp [Ne.symm isUp, noUp], root⟩

theorem folded_ups (n : Nat) (h : rooted = true → n = 0) : Folded rooted (List.replicate n up) := by
  induction n with
  | zero => exact .nil
  | succ n ih =>
    cases rooted with
    | true => exact absurd (h rfl) (Nat.succ_ne_zero n)
    | false =>
      refine .cons (ih nofun) ?_
      cases n with
      | zero => rfl
      | succ n => simp [fold, up, List.replicate_succ]

theorem folded_names {names : List Segment} (proper : ∀ s ∈ names, Segment.IsProper s)
    (noUp : up ∉ names) (h : Folded rooted folded) : Folded rooted (names ++ folded) := by
  induction names with
  | nil => exact h
  | cons s names ih =>
    obtain ⟨hs, rest⟩ := List.forall_mem_cons.1 proper
    have notUp : s ≠ ['.', '.'] := fun same => noUp (same ▸ List.mem_cons_self)
    refine .cons (ih rest fun mem => noUp (List.mem_cons_of_mem _ mem)) ?_
    unfold fold
    rw [if_neg (not_or.2 ⟨hs.nonempty, hs.notHere⟩), if_neg notUp]

end Folding

/-- Canonical segments are kept as they are. -/
theorem IsCanonical.folded {p : NormalPath} (h : p.IsCanonical) :
    Folded p.rooted p.segments.reverse := by
  obtain ⟨n, names, heq, noUp, root⟩ := h.upsInFront
  have proper : ∀ s ∈ names.reverse, Segment.IsProper s := fun s hs =>
    h.proper s (heq ▸ List.mem_append_right _ (List.mem_reverse.1 hs))
  rw [heq, List.reverse_append, List.reverse_replicate]
  exact folded_names proper (mt List.mem_reverse.1 noUp) (folded_ups n root)

theorem ofChars_canonical (path : List Char) : (ofChars path).IsCanonical := by
  obtain ⟨n, names, heq, noUp, root⟩ := (ofChars_folded path).upsLast
  refine ⟨ofChars_proper path, n, names.reverse, ?_, by simpa using noUp, root⟩
  rw [← List.reverse_reverse (ofChars path).segments, heq, List.reverse_append,
    List.reverse_replicate]

theorem ofChars_rooted (path : List Char) :
    (ofChars path).rooted = decide ((Path.withSlashes path).head? = some '/') := rfl

/-- A path in canonical form is read back as it was written. -/
theorem IsCanonical.ofChars_toChars {p : NormalPath} (h : p.IsCanonical) : ofChars p.toChars = p :=
  NormalPath.ofChars_toChars h.proper h.folded

/-! ## Reading from a directory -/

variable {rooted : Bool} {folded : List Segment}

theorem withSlashes_append (cs ds : List Char) :
    Path.withSlashes (cs ++ ds) = Path.withSlashes cs ++ Path.withSlashes ds := List.map_append

/-- A slash at the end adds nothing. -/
theorem enter_slash (cs : List Char) : enter rooted folded (cs ++ ['/']) = enter rooted folded cs :=
  (enter_append cs []).trans enter_nil

/-- What comes behind a slash is read on from what comes up to it. -/
theorem ofChars_append_slash (front rest : List Char) :
    ofChars (front ++ '/' :: rest) = ⟨(ofChars (front ++ ['/'])).rooted,
      (enter (ofChars (front ++ ['/'])).rooted (ofChars (front ++ ['/'])).segments.reverse
        (Path.withSlashes rest)).reverse⟩ := by
  have slash (more : List Char) : Path.withSlashes (front ++ '/' :: more) =
      Path.withSlashes front ++ '/' :: Path.withSlashes more := withSlashes_append ..
  have head : (Path.withSlashes (front ++ '/' :: rest)).head? =
      (Path.withSlashes (front ++ ['/'])).head? := by
    rw [slash, slash]
    cases Path.withSlashes front <;> rfl
  have rooted : (ofChars (front ++ '/' :: rest)).rooted = (ofChars (front ++ ['/'])).rooted := by
    rw [ofChars_rooted, ofChars_rooted, head]
  have segments := ofChars_segments (front ++ '/' :: rest)
  rw [rooted, slash, enter_append] at segments
  have upTo : enter (ofChars (front ++ ['/'])).rooted [] (Path.withSlashes front) =
      (ofChars (front ++ ['/'])).segments.reverse := by
    rw [ofChars_segments (front ++ ['/']), slash, List.reverse_reverse]
    exact (enter_slash _).symm
  rw [← upTo, ← segments, ← rooted]

theorem ofChars_slash {base : List Char} (nonempty : base ≠ []) :
    ofChars (base ++ ['/']) = ofChars base := by
  have slash : Path.withSlashes (base ++ ['/']) = Path.withSlashes base ++ ['/'] :=
    withSlashes_append ..
  have head : (Path.withSlashes base ++ ['/']).head? = (Path.withSlashes base).head? := by
    cases base with
    | nil => exact absurd rfl nonempty
    | cons c cs => rfl
  have spelled (path : List Char) :
      ofChars path = ⟨(ofChars path).rooted, (ofChars path).segments⟩ := rfl
  rw [spelled, spelled base, ofChars_segments, ofChars_segments, ofChars_rooted, ofChars_rooted,
    slash, head, enter_slash]

/-- What is read from a directory goes on from the canonical form of the directory. -/
theorem ofChars_combine {base relative : String} (h : relative.toList.head? ≠ some '/')
    (clean : '\\' ∉ relative.toList) :
    ofChars (Path.combine base relative).toList = ⟨(ofChars base.toList).rooted,
      (enter (ofChars base.toList).rooted (ofChars base.toList).segments.reverse
        relative.toList).reverse⟩ := by
  have written := Path.withSlashes_eq_self clean
  by_cases empty : base.isEmpty = true
  · have here : base = "" := String.isEmpty_iff.1 empty
    subst here
    have rooted : (ofChars relative.toList).rooted = false := by
      rw [ofChars_rooted, written]
      exact decide_eq_false h
    have segments := ofChars_segments relative.toList
    rw [rooted, written] at segments
    have nothing : ofChars "".toList = ⟨false, []⟩ := by decide
    rw [Path.combine, if_pos (by simp), nothing, List.reverse_nil, ← segments, ← rooted]
  · have nonempty : base.toList ≠ [] := fun nil =>
      empty (String.isEmpty_iff.2 (String.toList_eq_nil_iff.1 nil))
    rw [Path.combine, if_neg (by simp [h, empty]), Path.withTrailingSlash, String.toList_append]
    split
    · next last =>
      obtain ⟨front, heq⟩ := List.getLast?_eq_some_iff.1 last
      rw [heq, List.append_assoc, List.singleton_append, ofChars_append_slash, written]
    · rw [String.toList_push, List.append_assoc, List.singleton_append, ofChars_append_slash,
        ofChars_slash nonempty, written]

end NormalPath

namespace Path

open NormalPath

theorem ofChars_normalize (path : String) :
    ofChars (normalize path).toList = ofChars path.toList := by
  rw [normalize_toList, (ofChars_canonical path.toList).ofChars_toChars]

/-- The root is the slash in front. -/
theorem isRooted_normalize (path : String) :
    isRooted (normalize path) = (ofChars path.toList).rooted := by
  have clean : '\\' ∉ (normalize path).toList := by
    rw [normalize_toList, toChars]
    refine fun mem => (List.mem_append.1 mem).elim ?_ (intercalate_noBackslash fun s hs =>
      ((ofChars_canonical path.toList).proper s hs).noBackslash)
    split <;> simp
  rw [← ofChars_normalize, ofChars_rooted, withSlashes_eq_self clean, isRooted]

/-- Normalizing keeps exactly the spellings of paths in canonical form. -/
theorem normalize_eq_self_iff (path : String) :
    normalize path = path ↔ ∃ p : NormalPath, p.IsCanonical ∧ path.toList = p.toChars := by
  constructor
  · intro same
    exact ⟨ofChars path.toList, ofChars_canonical _, by rw [← normalize_toList, same]⟩
  · rintro ⟨p, canonical, spelled⟩
    rw [normalize, spelled, canonical.ofChars_toChars, ← spelled, String.ofList_toList]

/-- What is read from a directory depends only on the canonical form of the directory. -/
theorem normalize_combine {base relative : String} (h : isRooted relative = false)
    (clean : '\\' ∉ relative.toList) :
    normalize (combine base relative) = normalize (combine (normalize base) relative) := by
  have notRoot : relative.toList.head? ≠ some '/' := of_decide_eq_false h
  rw [normalize, normalize, ofChars_combine notRoot clean, ofChars_combine notRoot clean,
    ofChars_normalize]

/-- Normalizing spells a path in canonical form, with a root exactly if it had one, and keeps what
is in this form already; so it is idempotent. A path that is relative and has no backslash leads
from the canonical form of a directory to where it leads from the directory. -/
theorem normalize_canonical :
    (∀ path, ∃ p : NormalPath, p.IsCanonical ∧ (normalize path).toList = p.toChars ∧
      p.rooted = isRooted (String.ofList (withSlashes path.toList))) ∧
    (∀ path, isRooted (normalize path) = isRooted (String.ofList (withSlashes path.toList))) ∧
    (∀ path, normalize (normalize path) = normalize path) ∧
    (∀ path, normalize path = path ↔
      ∃ p : NormalPath, p.IsCanonical ∧ path.toList = p.toChars) ∧
    ∀ base relative, isRooted relative = false → '\\' ∉ relative.toList →
      normalize (combine base relative) = normalize (combine (normalize base) relative) := by
  have root (path : String) :
      (ofChars path.toList).rooted = isRooted (String.ofList (withSlashes path.toList)) := by
    rw [ofChars_rooted, isRooted, String.toList_ofList]
  refine ⟨fun path => ⟨ofChars path.toList, ofChars_canonical _, normalize_toList path, root path⟩,
    fun path => (isRooted_normalize path).trans (root path), normalize_normalize,
    normalize_eq_self_iff, fun _ _ => normalize_combine⟩

/-- A directory that folds to the empty path does not turn what is read from it into a rooted path. -/
theorem foldedDirectory_combine :
    isRooted "../b/./c.ts" = false ∧ '\\' ∉ "../b/./c.ts".toList ∧ normalize "a\\.." = "" ∧
      normalize (combine "a\\.." "../b/./c.ts") = "../b/c.ts" ∧
      normalize (combine (normalize "a\\..") "../b/./c.ts") = "../b/c.ts" := by
  have relative : isRooted "../b/./c.ts" = false ∧ '\\' ∉ "../b/./c.ts".toList := by decide
  have direct : normalize (combine "a\\.." "../b/./c.ts") = "../b/c.ts" := by decide
  have joined := normalize_canonical.2.2.2.2 "a\\.." "../b/./c.ts" relative.1 relative.2
  exact ⟨relative.1, relative.2, by decide, direct, joined.symm.trans direct⟩

end Path
end FactorySync

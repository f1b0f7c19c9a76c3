import FactorySync.Path.Basic

/-!
# Paths in canonical form

A path is read segment by segment from the left (`NormalPath.enter`), so reading what stands behind
a slash goes on from what was folded before it (`NormalPath.enter_append`). On plain segments,
which do not begin with two dots, folding only collects (`NormalPath.foldl_plain`), and `..` takes
back what was collected (`NormalPath.foldl_ups`). A path that is spelled canonically is thus its
directories, each with its slash, and a name behind them (`Path.IsPlain.cut`). What folding yields
(`NormalPath.Folded`) is folded to itself, so canonical form is stable (`Path.normalize_normalize`).
-/

namespace FactorySync

/-! ## Segments -/

/-- What a path in canonical form has for segments. -/
structure Segment.IsProper (s : Segment) : Prop where
  nonempty : s ≠ []
  notHere : s ≠ ['.']
  noSlash : '/' ∉ s
  noBackslash : '\\' ∉ s

/-- A segment that does not begin like the way up. -/
structure Segment.IsPlain (s : Segment) : Prop extends Segment.IsProper s where
  notUp : ¬ ['.', '.'] <+: s

theorem Segment.IsPlain.ne_up {s : Segment} (h : Segment.IsPlain s) : s ≠ ['.', '.'] := by
  rintro rfl
  exact h.notUp (List.prefix_refl _)

theorem Segment.IsPlain.head?_ne {s : Segment} (h : Segment.IsPlain s) : s.head? ≠ some '/' :=
  fun head => h.noSlash (List.mem_of_head? head)

theorem Segment.IsPlain.exists_last {s : Segment} (h : Segment.IsPlain s) :
    ∃ init last, s = init ++ [last] ∧ last ≠ '/' := by
  obtain ⟨init, last, rfl⟩ := (List.eq_nil_or_concat s).resolve_left h.nonempty
  refine ⟨init, last, List.concat_eq_append, ?_⟩
  rintro rfl
  exact h.noSlash (by simp)

/-- The pieces of a text are made of its other characters. -/
theorem mem_of_mem_splitOn {cs piece : List Char} {sep c : Char} (h : piece ∈ cs.splitOn sep)
    (hc : c ∈ piece) : c ∈ cs ∧ c ≠ sep := by
  induction cs generalizing piece with
  | nil =>
    rw [List.splitOn_nil, List.mem_singleton] at h
    exact absurd (h ▸ hc) List.not_mem_nil
  | cons x cs ih =>
    obtain ⟨first, pieces, split⟩ := List.exists_cons_of_ne_nil (List.splitOn_ne_nil sep cs)
    rw [List.splitOn_cons_eq_if_modifyHead] at h
    split at h
    · rcases List.mem_cons.1 h with rfl | h
      · exact absurd hc List.not_mem_nil
      · exact ⟨List.mem_cons_of_mem _ (ih h hc).1, (ih h hc).2⟩
    · next other =>
      rw [split, List.modifyHead_cons] at h
      rw [split] at ih
      rcases List.mem_cons.1 h with rfl | h
      · rcases List.mem_cons.1 hc with rfl | hc
        · exact ⟨List.mem_cons_self, by simpa using other⟩
        · have rest := ih List.mem_cons_self hc
          exact ⟨List.mem_cons_of_mem _ rest.1, rest.2⟩
      · have rest := ih (List.mem_cons_of_mem _ h) hc
        exact ⟨List.mem_cons_of_mem _ rest.1, rest.2⟩

theorem mem_intercalate {α : Type} {sep : List α} {pieces : List (List α)} {a : α}
    (h : a ∈ sep.intercalate pieces) : a ∈ sep ∨ ∃ piece ∈ pieces, a ∈ piece := by
  induction pieces with
  | nil => simp at h
  | cons piece pieces ih =>
    cases pieces with
    | nil => exact .inr ⟨piece, by simp, by simpa using h⟩
    | cons next pieces =>
      rw [List.intercalate_cons_cons, List.append_assoc] at h
      rcases List.mem_append.1 h with h | h
      · exact .inr ⟨piece, .head _, h⟩
      · rcases List.mem_append.1 h with h | h
        · exact .inl h
        · exact (ih h).imp_right fun ⟨found, mem, inside⟩ => ⟨found, .tail _ mem, inside⟩

namespace Path

theorem withSlashes_noBackslash (cs : List Char) : '\\' ∉ withSlashes cs := by
  intro h
  obtain ⟨c, -, hc⟩ := List.mem_map.1 h
  split at hc
  · exact absurd hc (by decide)
  · next other => exact other hc

theorem withSlashes_eq_self {cs : List Char} (h : '\\' ∉ cs) : withSlashes cs = cs := by
  refine (List.map_congr_left fun c hc => if_neg ?_).trans (List.map_id cs)
  rintro rfl
  exact h hc

end Path

namespace NormalPath

variable {rooted : Bool} {folded : List Segment} {s : Segment}

/-! ## Reading a path -/

/-- Reads the segments of a text after some others. -/
def enter (rooted : Bool) (folded : List Segment) (cs : List Char) : List Segment :=
  (cs.splitOn '/').foldl (fold rooted) folded

theorem enter_segment (h : '/' ∉ s) : enter rooted folded s = fold rooted folded s := by
  rw [enter, List.splitOn_eq_singleton h]
  rfl

theorem enter_append (cs rest : List Char) :
    enter rooted folded (cs ++ '/' :: rest) = enter rooted (enter rooted folded cs) rest := by
  simp only [enter, List.splitOn_append_cons_self, List.foldl_append]

@[simp]
theorem fold_nil : fold rooted folded [] = folded := if_pos (.inl rfl)

@[simp]
theorem fold_here : fold rooted folded ['.'] = folded := if_pos (.inr rfl)

@[simp]
theorem enter_nil : enter rooted folded [] = folded := by simp [enter]

theorem enter_here : enter rooted folded ['.'] = folded :=
  (enter_segment (by decide)).trans fold_here

theorem fold_plain (h : Segment.IsPlain s) : fold rooted folded s = s :: folded := by
  unfold fold
  rw [if_neg fun skipped => skipped.elim h.nonempty h.notHere, if_neg h.ne_up]

theorem fold_up {last : Segment} (h : last ≠ ['.', '.']) :
    fold rooted (last :: folded) ['.', '.'] = folded := by
  simp [fold, h]

theorem foldl_plain {segments : List Segment} (h : ∀ s ∈ segments, Segment.IsPlain s) :
    segments.foldl (fold rooted) folded = segments.reverse ++ folded := by
  induction segments generalizing folded with
  | nil => rfl
  | cons s segments ih =>
    -- folding lists the last segment first
    rw [List.foldl_cons, fold_plain (h s List.mem_cons_self),
      ih fun t ht => h t (List.mem_cons_of_mem _ ht)]
    simp

/-- Every `..` takes back one segment, as long as there are any. -/
theorem foldl_ups {n : Nat} (h : ∀ s ∈ folded, Segment.IsPlain s) (le : n ≤ folded.length) :
    (List.replicate n ['.', '.']).foldl (fold rooted) folded = folded.drop n := by
  induction n generalizing folded with
  | zero => rfl
  | succ n ih =>
    cases folded with
    | nil => exact absurd le (Nat.not_succ_le_zero n)
    | cons last folded =>
      rw [List.replicate_succ, List.foldl_cons, fold_up (h last List.mem_cons_self).ne_up,
        ih (fun t ht => h t (List.mem_cons_of_mem _ ht)) (Nat.le_of_succ_le_succ le)]
      rfl

theorem mem_fold {t : Segment} (h : t ∈ fold rooted folded s) :
    t ∈ folded ∨ (t = s ∧ s ≠ [] ∧ s ≠ ['.']) := by
  unfold fold at h
  split at h
  · exact .inl h
  next kept =>
  obtain ⟨nonempty, notHere⟩ := not_or.1 kept
  split at h
  · split at h
    · split at h
      · exact (List.mem_cons.1 h).elim (fun same => .inr ⟨same, nonempty, notHere⟩) .inl
      · exact .inl (List.mem_cons_of_mem _ h)
    · split at h
      · exact absurd h List.not_mem_nil
      · exact .inr ⟨List.mem_singleton.1 h, nonempty, notHere⟩
  · exact (List.mem_cons.1 h).elim (fun same => .inr ⟨same, nonempty, notHere⟩) .inl

theorem mem_foldl {segments : List Segment} {t : Segment}
    (h : t ∈ segments.foldl (fold rooted) folded) :
    t ∈ folded ∨ (t ∈ segments ∧ t ≠ [] ∧ t ≠ ['.']) := by
  induction segments generalizing folded with
  | nil => exact .inl h
  | cons s segments ih =>
    rcases ih h with hfold | ⟨hmem, hne⟩
    · rcases mem_fold hfold with hfolded | ⟨rfl, hne⟩
      · exact .inl hfolded
      · exact .inr ⟨List.mem_cons_self, hne⟩
    · exact .inr ⟨List.mem_cons_of_mem _ hmem, hne⟩

theorem ofChars_segments (path : List Char) : (ofChars path).segments =
    (enter (ofChars path).rooted [] (Path.withSlashes path)).reverse := rfl

theorem ofChars_proper (path : List Char) : ∀ s ∈ (ofChars path).segments, Segment.IsProper s := by
  intro s hs
  rw [ofChars_segments, List.mem_reverse] at hs
  obtain ⟨piece, nonempty, notHere⟩ := (mem_foldl hs).resolve_left List.not_mem_nil
  exact {
    nonempty, notHere
    noSlash := fun hc => (mem_of_mem_splitOn piece hc).2 rfl
    noBackslash := fun hc => Path.withSlashes_noBackslash _ (mem_of_mem_splitOn piece hc).1 }

/-! ## Writing a path -/

/-- The beginning of a path: its root and the directories, each with the slash behind it. -/
def below (rooted : Bool) (directories : List Segment) : List Char :=
  (if rooted then ['/'] else []) ++ directories.flatMap (· ++ ['/'])

variable {directories : List Segment}

theorem below_concat (directory : Segment) : below rooted (directories ++ [directory]) =
    below rooted directories ++ directory ++ ['/'] := by
  simp [below]

theorem intercalate_concat (segments : List Segment) (s : Segment) :
    ['/'].intercalate (segments ++ [s]) = segments.flatMap (· ++ ['/']) ++ s := by
  induction segments with
  | nil => simp
  | cons t segments ih =>
    rw [List.cons_append, List.intercalate_cons_of_ne_nil (by simp), ih]
    simp

theorem toChars_concat (s : Segment) :
    toChars ⟨rooted, directories ++ [s]⟩ = below rooted directories ++ s := by
  rw [toChars, intercalate_concat, below, List.append_assoc]

theorem intercalate_noBackslash {segments : List Segment} (h : ∀ s ∈ segments, '\\' ∉ s) :
    '\\' ∉ ['/'].intercalate segments := by
  intro hc
  rcases mem_intercalate hc with hc | ⟨s, hs, hc⟩
  · exact absurd hc (by decide)
  · exact h s hs hc

theorem enter_intercalate {segments : List Segment} (h : ∀ s ∈ segments, '/' ∉ s) :
    enter rooted folded (['/'].intercalate segments) = segments.foldl (fold rooted) folded := by
  by_cases empty : segments = []
  · subst empty
    exact enter_nil
  · rw [enter, List.splitOn_intercalate '/' h empty]

theorem below_eq_nil_or_slash (rooted : Bool) (directories : List Segment) :
    below rooted directories = [] ∨ (below rooted directories).getLast? = some '/' := by
  rcases List.eq_nil_or_concat directories with rfl | ⟨parents, directory, rfl⟩
  · cases rooted
    · exact .inl rfl
    · exact .inr rfl
  · refine .inr ?_
    rw [List.concat_eq_append, below_concat]
    simp

theorem exists_cut (p : NormalPath) (h : ∀ s ∈ p.segments, Segment.IsPlain s) :
    ∃ directories name, (∀ d ∈ directories, Segment.IsPlain d) ∧
      (name = [] ∨ Segment.IsPlain name) ∧ p.toChars = below p.rooted directories ++ name := by
  obtain ⟨rooted, segments⟩ := p
  rcases List.eq_nil_or_concat segments with rfl | ⟨directories, name, rfl⟩
  · exact ⟨[], [], by simp, .inl rfl, by simp [toChars, below]⟩
  · rw [List.concat_eq_append] at h ⊢
    refine ⟨directories, name, fun d hd => h d (List.mem_append_left _ hd),
      .inr (h name (List.mem_append_right _ (List.mem_singleton_self _))), toChars_concat name⟩

theorem below_noBackslash (h : ∀ d ∈ directories, Segment.IsPlain d) :
    '\\' ∉ below rooted directories := by
  intro hc
  rcases List.mem_append.1 hc with hroot | hdirectories
  · cases rooted <;> simp at hroot
  · obtain ⟨d, hd, hc⟩ := List.mem_flatMap.1 hdirectories
    rcases List.mem_append.1 hc with hc | hc
    · exact (h d hd).noBackslash hc
    · simp at hc

theorem enter_directories (h : ∀ d ∈ directories, Segment.IsPlain d) (rest : List Char) :
    enter rooted folded (directories.flatMap (· ++ ['/']) ++ rest) =
      enter rooted (directories.reverse ++ folded) rest := by
  induction directories generalizing folded with
  | nil => rfl
  | cons d directories ih =>
    have plain := h d List.mem_cons_self
    have split : (d :: directories).flatMap (· ++ ['/']) ++ rest =
        d ++ '/' :: (directories.flatMap (· ++ ['/']) ++ rest) := by simp
    rw [split, enter_append, enter_segment plain.noSlash, fold_plain plain,
      ih fun t ht => h t (List.mem_cons_of_mem _ ht)]
    simp

theorem enter_below (h : ∀ d ∈ directories, Segment.IsPlain d) (rest : List Char) :
    enter rooted [] (below rooted directories ++ rest) = enter rooted directories.reverse rest := by
  rw [below, List.append_assoc]
  cases rooted with
  | false =>
    have read : enter false [] (directories.flatMap (· ++ ['/']) ++ rest) = _ :=
      enter_directories h rest
    simpa using read
  | true =>
    -- the root is the slash behind an empty segment
    have root : (if true = true then ['/'] else []) ++ (directories.flatMap (· ++ ['/']) ++ rest) =
        [] ++ '/' :: (directories.flatMap (· ++ ['/']) ++ rest) := rfl
    rw [root, enter_append, enter_nil, enter_directories h, List.append_nil]

/-- Only the beginning tells whether a path has a root. -/
theorem below_rooted (h : ∀ d ∈ directories, Segment.IsPlain d) {rest : List Char}
    (hrest : rest.head? ≠ some '/') :
    decide ((below rooted directories ++ rest).head? = some '/') = rooted := by
  cases rooted with
  | true => rfl
  | false =>
    cases directories with
    | nil => simpa [below] using hrest
    | cons d directories =>
      obtain ⟨c, cs, rfl⟩ := List.exists_cons_of_ne_nil (h d List.mem_cons_self).nonempty
      have notSlash : c ≠ '/' := by
        rintro rfl
        exact (h _ List.mem_cons_self).noSlash List.mem_cons_self
      simpa [below] using notSlash

theorem ofChars_below (h : ∀ d ∈ directories, Segment.IsPlain d) {rest : List Char}
    (hrest : rest.head? ≠ some '/') (hslash : '\\' ∉ rest) :
    ofChars (below rooted directories ++ rest) =
      ⟨rooted, (enter rooted directories.reverse rest).reverse⟩ := by
  have clean : '\\' ∉ below rooted directories ++ rest := fun hc =>
    (List.mem_append.1 hc).elim (below_noBackslash h) hslash
  simp only [ofChars, Path.withSlashes_eq_self clean, below_rooted h hrest]
  rw [← enter, enter_below h]

end NormalPath

/-! ## Reading what was written -/

namespace NormalPath

variable {rooted : Bool} {folded segments : List Segment} {s : Segment}

/-- Folding passes over a segment, takes one back for it, or keeps it. -/
theorem fold_cases (rooted : Bool) (folded : List Segment) (s : Segment) :
    fold rooted folded s = folded ∨ (∃ last, folded = last :: fold rooted folded s) ∨
      fold rooted folded s = s :: folded := by
  unfold fold
  split
  · exact .inl rfl
  split
  · next up =>
    cases folded with
    | nil =>
      cases rooted with
      | false => exact .inr (.inr rfl)
      | true => exact .inl rfl
    | cons last parents =>
      by_cases kept : last = ['.', '.']
      · exact .inr (.inr (if_pos kept))
      · refine .inr (.inl ⟨last, ?_⟩)
        dsimp only
        rw [if_neg kept]
  · exact .inr (.inr rfl)

/-- What folding can leave behind: every segment is one that is kept after those before it. -/
inductive Folded (rooted : Bool) : List Segment → Prop
  | nil : Folded rooted []
  | cons {parents : List Segment} {last : Segment} : Folded rooted parents →
      fold rooted parents last = last :: parents → Folded rooted (last :: parents)

theorem Folded.fold (h : Folded rooted folded) (s : Segment) :
    Folded rooted (fold rooted folded s) := by
  rcases fold_cases rooted folded s with skipped | ⟨last, back⟩ | kept
  · rwa [skipped]
  · rw [back] at h
    cases h with
    | cons parents _ => exact parents
  · rw [kept]
    exact .cons h kept

theorem Folded.foldl (h : Folded rooted folded) :
    Folded rooted (segments.foldl (NormalPath.fold rooted) folded) := by
  induction segments generalizing folded with
  | nil => exact h
  | cons s segments ih => exact ih (h.fold s)

/-- Folding once more changes nothing. -/
theorem Folded.foldl_reverse (h : Folded rooted folded) :
    folded.reverse.foldl (NormalPath.fold rooted) [] = folded := by
  induction h with
  | nil => rfl
  | cons _ kept ih => rw [List.reverse_cons, List.foldl_append, ih, List.foldl_cons, kept]; rfl

/-- A path in canonical form is read back as it was written. -/
theorem ofChars_toChars (proper : ∀ s ∈ segments, Segment.IsProper s)
    (h : Folded rooted segments.reverse) :
    ofChars (toChars ⟨rooted, segments⟩) = ⟨rooted, segments⟩ := by
  have clean : '\\' ∉ ['/'].intercalate segments :=
    intercalate_noBackslash fun s hs => (proper s hs).noBackslash
  have read : enter rooted [] (['/'].intercalate segments) = segments.reverse := by
    rw [enter_intercalate fun s hs => (proper s hs).noSlash]
    simpa using h.foldl_reverse
  cases rooted with
  | true =>
    have spelled : toChars ⟨true, segments⟩ = [] ++ '/' :: ['/'].intercalate segments := rfl
    rw [spelled, ofChars, Path.withSlashes_eq_self (by simpa using clean)]
    show NormalPath.mk true (enter true [] ([] ++ '/' :: _)).reverse = _
    rw [enter_append, enter_nil, read, List.reverse_reverse]
  | false =>
    have head : (['/'].intercalate segments).head? ≠ some '/' := by
      cases segments with
      | nil => simp
      | cons s segments =>
        have hs := proper s List.mem_cons_self
        obtain ⟨c, cs, rfl⟩ := List.exists_cons_of_ne_nil hs.nonempty
        have notSlash : c ≠ '/' := fun same => hs.noSlash (same ▸ List.mem_cons_self)
        cases segments with
        | nil => simpa using notSlash
        | cons t segments => simpa using notSlash
    have spelled : toChars ⟨false, segments⟩ = ['/'].intercalate segments := rfl
    rw [spelled, ofChars, Path.withSlashes_eq_self clean, decide_eq_false head, ← enter, read,
      List.reverse_reverse]

theorem ofChars_folded (path : List Char) :
    Folded (ofChars path).rooted (ofChars path).segments.reverse := by
  rw [ofChars_segments, List.reverse_reverse]
  exact Folded.nil.foldl

end NormalPath

/-! ## Plain paths -/

namespace Path

/-- A path in its canonical spelling that leads down only. -/
structure IsPlain (path : String) : Prop where
  normal : normalize path = path
  plain : ∀ s ∈ (NormalPath.ofChars path.toList).segments, ¬ ['.', '.'] <+: s

/-- Whether a path begins at the root. -/
def isRooted (path : String) : Bool := path.toList.head? = some '/'

theorem normalize_toList (path : String) :
    (normalize path).toList = (NormalPath.ofChars path.toList).toChars := String.toList_ofList

/-- The canonical spelling is its own. -/
@[simp]
theorem normalize_normalize (path : String) : normalize (normalize path) = normalize path := by
  have read := NormalPath.ofChars_toChars (NormalPath.ofChars_proper path.toList)
    (NormalPath.ofChars_folded path.toList)
  rw [normalize, normalize_toList, read]
  rfl

theorem IsPlain.segments {path : String} (h : IsPlain path) :
    ∀ s ∈ (NormalPath.ofChars path.toList).segments, Segment.IsPlain s := fun s hs =>
  { NormalPath.ofChars_proper _ s hs with notUp := h.plain s hs }

/-- A plain path is made of directories and a name. Without a name it is the root or empty. -/
theorem IsPlain.cut {path : String} (h : IsPlain path) : ∃ directories name,
    (∀ d ∈ directories, Segment.IsPlain d) ∧ (name = [] ∨ Segment.IsPlain name) ∧
      path.toList = NormalPath.below (isRooted path) directories ++ name := by
  obtain ⟨directories, name, plain, hname, spelled⟩ :=
    NormalPath.exists_cut (NormalPath.ofChars path.toList) h.segments
  rw [← normalize_toList, h.normal] at spelled
  have notRoot : name.head? ≠ some '/' := by
    rcases hname with rfl | hname
    · simp
    · exact hname.head?_ne
  have rooted : isRooted path = (NormalPath.ofChars path.toList).rooted := by
    generalize (NormalPath.ofChars path.toList).rooted = rooted at spelled ⊢
    rw [isRooted, spelled]
    exact NormalPath.below_rooted plain notRoot
  exact ⟨directories, name, plain, hname, rooted ▸ spelled⟩

end Path
end FactorySync

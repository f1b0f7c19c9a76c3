import FactorySync.Disk.Discover
import Mathlib.Data.String.Basic

/-!
# What discovery finds

Searching a directory tree leaves out the directories that are never searched or excluded as a
whole. Nothing that is selected gets lost with them, because what excludes a directory excludes all
that it leads to (`Selection.excludes_of_leading`). So the files found are the selected ones, each
once and in ascending order of their paths (`FileTree.discover_exact`).
-/

namespace FactorySync

/-! ## Excluding -/

namespace Selection

/-- `trimmed` is the pattern without the `./` in front of it and without the slashes behind. -/
def Trims (pattern trimmed : List Char) : Prop :=
  ∃ n m rest, pattern = (List.replicate n ['.', '/']).flatten ++ rest ∧ ¬['.', '/'] <+: rest ∧
    rest = trimmed ++ List.replicate m '/' ∧ trimmed.getLast? ≠ some '/'

theorem dropHereMarks_split (pattern : List Char) :
    (∃ n, pattern = (List.replicate n ['.', '/']).flatten ++ Path.dropHereMarks pattern) ∧
      ¬['.', '/'] <+: Path.dropHereMarks pattern := by
  fun_induction Path.dropHereMarks pattern with
  | case1 rest ih =>
    obtain ⟨⟨n, heq⟩, more⟩ := ih
    refine ⟨⟨n + 1, ?_⟩, more⟩
    conv_lhs => rw [heq]
    rfl
  | case2 path none =>
    refine ⟨⟨0, rfl⟩, ?_⟩
    rintro ⟨rest, rfl⟩
    exact none rest rfl

theorem dropHereMarks_marks (n : Nat) {rest : List Char} (h : ¬['.', '/'] <+: rest) :
    Path.dropHereMarks ((List.replicate n ['.', '/']).flatten ++ rest) = rest := by
  induction n with
  | zero =>
    rw [List.replicate_zero, List.flatten_nil, List.nil_append]
    unfold Path.dropHereMarks
    split
    · next tail => exact absurd ⟨tail, rfl⟩ h
    · rfl
  | succ n ih =>
    have mark : (List.replicate (n + 1) ['.', '/']).flatten ++ rest =
        '.' :: '/' :: ((List.replicate n ['.', '/']).flatten ++ rest) := rfl
    rw [mark, Path.dropHereMarks, ih]

/-- A pattern is trimmed in one way only. -/
theorem trims_iff {pattern trimmed : List Char} :
    Trims pattern trimmed ↔
      ((Path.dropHereMarks pattern).reverse.dropWhile (· = '/')).reverse = trimmed := by
  constructor
  · rintro ⟨n, m, rest, rfl, noMark, rfl, last⟩
    rw [dropHereMarks_marks n noMark, List.reverse_append, List.reverse_replicate,
      List.dropWhile_append_of_pos (by simp)]
    cases heq : trimmed.reverse with
    | nil => rw [List.reverse_eq_nil_iff.1 heq]; rfl
    | cons c cs =>
      have other : c ≠ '/' := by
        rintro rfl
        rw [List.getLast?_eq_head?_reverse, heq] at last
        exact last rfl
      rw [List.dropWhile_cons_of_neg (by simpa using other), ← heq, List.reverse_reverse]
  · rintro rfl
    obtain ⟨⟨n, heq⟩, noMark⟩ := dropHereMarks_split pattern
    generalize Path.dropHereMarks pattern = rest at heq noMark ⊢
    have slashes : ∀ c ∈ rest.reverse.takeWhile (· = '/'), c = '/' := fun c hc => by
      simpa using List.all_eq_true.1 List.all_takeWhile c hc
    refine ⟨n, (rest.reverse.takeWhile (· = '/')).length, rest, heq, noMark, ?_, ?_⟩
    · rw [← List.reverse_replicate, ← List.eq_replicate_iff.2 ⟨rfl, slashes⟩,
        ← List.reverse_append, List.takeWhile_append_dropWhile, List.reverse_reverse]
    · rw [List.getLast?_reverse]
      intro head
      have stops := List.head?_dropWhile_not (fun c => decide (c = '/')) rest.reverse
      rw [head] at stops
      simp at stops

/-- The leading paths of a path are itself and what stands before one of its slashes. -/
theorem mem_leadingPaths_go {before rest leading : List Char} :
    leading ∈ leadingPaths.go before rest ↔
      ∃ front, leading = before.reverse ++ front ∧ (front = rest ∨ front ++ ['/'] <+: rest) := by
  fun_induction leadingPaths.go before rest with
  | case1 => simp
  | case2 before rest ih =>
    rw [List.mem_cons, ih]
    constructor
    · rintro (rfl | ⟨front, rfl, h⟩)
      · exact ⟨[], by simp, .inr ⟨rest, rfl⟩⟩
      · refine ⟨'/' :: front, by simp, h.imp (congrArg ('/' :: ·)) fun ⟨more, heq⟩ => ?_⟩
        exact ⟨more, by rw [← heq]; rfl⟩
    · rintro ⟨front, rfl, h⟩
      cases front with
      | nil => exact .inl (by simp)
      | cons c front =>
        have hc : c = '/' := by
          rcases h with h | ⟨more, heq⟩
          · exact (List.cons.inj h).1
          · exact (List.cons.inj heq).1
        subst hc
        exact .inr ⟨front, by simp, h.imp (fun h => (List.cons.inj h).2) fun ⟨more, heq⟩ =>
          ⟨more, (List.cons.inj heq).2⟩⟩
  | case3 before c rest other ih =>
    rw [ih]
    constructor
    · rintro ⟨front, rfl, h⟩
      refine ⟨c :: front, by simp, h.imp (congrArg (c :: ·)) fun ⟨more, heq⟩ => ?_⟩
      exact ⟨more, by rw [← heq]; rfl⟩
    · rintro ⟨front, rfl, h⟩
      cases front with
      | nil =>
        rcases h with h | ⟨more, heq⟩
        · cases h
        · exact absurd (List.cons.inj heq).1.symm (other ·)
      | cons d front =>
        have hd : d = c := by
          rcases h with h | ⟨more, heq⟩
          · exact (List.cons.inj h).1
          · exact (List.cons.inj heq).1
        subst hd
        exact ⟨front, by simp, h.imp (fun h => (List.cons.inj h).2) fun ⟨more, heq⟩ =>
          ⟨more, (List.cons.inj heq).2⟩⟩

/-- `leading` is the path itself or one of the directories that it leads through. -/
def Leads (leading path : List Char) : Prop := leading = path ∨ leading ++ ['/'] <+: path

theorem mem_leadingPaths {leading path : List Char} :
    leading ∈ leadingPaths path ↔ Leads leading path := by
  simp [leadingPaths, mem_leadingPaths_go, Leads]

theorem Leads.trans {a b c : List Char} (h : Leads a b) (h' : Leads b c) : Leads a c := by
  rcases h with rfl | h
  · exact h'
  · rcases h' with rfl | h'
    · exact .inr h
    · exact .inr (h.trans ((List.prefix_append _ _).trans h'))

/-- A path is excluded if a trimmed pattern fits it or a directory that it leads through. -/
theorem excludes_iff {s : Selection} {path : String} : s.excludes path = true ↔
    ∃ pattern ∈ s.excluded, ∃ trimmed leading : String, Trims pattern.toList trimmed.toList ∧
      Leads leading.toList path.toList ∧ Glob.fits trimmed leading = true := by
  simp only [excludes, List.any_eq_true, mem_leadingPaths]
  refine exists_congr fun pattern => and_congr_right fun _ => ?_
  constructor
  · rintro ⟨leading, leads, fits⟩
    refine ⟨trimExclude pattern, .ofList leading, trims_iff.2 ?_, ?_, fits⟩
    · rw [trimExclude, String.toList_ofList]
    · rwa [String.toList_ofList]
  · rintro ⟨trimmed, leading, trims, leads, fits⟩
    have same : trimExclude pattern = trimmed := by
      rw [trimExclude, trims_iff.1 trims, String.ofList_toList]
    exact ⟨leading.toList, leads, by rwa [same, String.ofList_toList]⟩

/-- What excludes a directory excludes all that it leads to. -/
theorem excludes_of_leads {s : Selection} {leading path : String}
    (h : s.excludes leading = true) (leads : Leads leading.toList path.toList) :
    s.excludes path = true := by
  obtain ⟨pattern, mem, trimmed, first, trims, before, fits⟩ := excludes_iff.1 h
  exact excludes_iff.2 ⟨pattern, mem, trimmed, first, trims, before.trans leads, fits⟩

end Selection

/-! ## Searching a tree -/

namespace FileTree

/-- A tree as it stands on a disk: no two entries of a directory have one name, and a name is not
empty and has no slash. -/
inductive IsProper : FileTree → Prop
  | text (content : List Char) : IsProper (.text content)
  | raw : IsProper .raw
  | directory {entries : List (Segment × FileTree)} : (entries.map (·.1)).Nodup →
    (∀ e ∈ entries, e.1 ≠ [] ∧ '/' ∉ e.1) → (∀ e ∈ entries, IsProper e.2) →
    IsProper (.directory entries)

/-- The path of a place, from the top of the tree. -/
def pathOf (place : List Segment) : String := .ofList (['/'].intercalate place)

variable {s : Selection} {t t' : FileTree} {place below : List Segment} {name : Segment}
  {entries : List (Segment × FileTree)}

theorem lookup_eq_some_iff_mem (distinct : (entries.map (·.1)).Nodup) :
    entries.lookup name = some t ↔ (name, t) ∈ entries := by
  rw [List.lookup_eq_some_iff]
  constructor
  · rintro ⟨front, rest, rfl, -⟩
    simp
  · intro mem
    obtain ⟨front, rest, rfl⟩ := List.append_of_mem mem
    refine ⟨front, rest, rfl, fun p hp => ?_⟩
    rw [List.map_append, List.nodup_append] at distinct
    have other := distinct.2.2 p.1 (List.mem_map_of_mem hp) name (by simp)
    simpa using other.symm

theorem at?_directory_cons (distinct : (entries.map (·.1)).Nodup) :
    at? (.directory entries) (name :: place) = some t ↔
      ∃ e ∈ entries, e.1 = name ∧ e.2.at? place = some t := by
  rw [at?, Option.bind_eq_some_iff]
  constructor
  · rintro ⟨sub, found, rest⟩
    exact ⟨(name, sub), (lookup_eq_some_iff_mem distinct).1 found, rfl, rest⟩
  · rintro ⟨⟨_, sub⟩, mem, rfl, rest⟩
    exact ⟨sub, (lookup_eq_some_iff_mem distinct).2 mem, rest⟩

/-- All that stands in a proper tree has proper names. -/
theorem IsProper.names_of_at? (h : t.IsProper) (found : t.at? place = some t') :
    ∀ n ∈ place, n ≠ [] ∧ '/' ∉ n := by
  induction h generalizing place with
  | text | raw =>
    cases place with
    | nil => exact nofun
    | cons name place => cases found
  | directory distinct named _ ih =>
    cases place with
    | nil => exact nofun
    | cons name place =>
      obtain ⟨e, mem, rfl, rest⟩ := (at?_directory_cons distinct).1 found
      exact List.forall_mem_cons.2 ⟨named e mem, ih e mem rest⟩

theorem pathOf_inj (names : ∀ n ∈ place, '/' ∉ n) (names' : ∀ n ∈ below, '/' ∉ n)
    (nonempty : place ≠ []) (nonempty' : below ≠ []) (h : pathOf place = pathOf below) :
    place = below := by
  have spelled := String.ofList_injective h
  rw [← List.splitOn_intercalate '/' names nonempty, spelled,
    List.splitOn_intercalate '/' names' nonempty']

theorem intercalate_append (nonempty : place ≠ []) (name : Segment) (below : List Segment) :
    ['/'].intercalate (place ++ name :: below) =
      ['/'].intercalate place ++ '/' :: ['/'].intercalate (name :: below) := by
  induction place with
  | nil => exact absurd rfl nonempty
  | cons first place ih =>
    cases place with
    | nil => simp
    | cons second place => simpa using ih (by simp)

/-- A place leads through the places above it. -/
theorem leads_pathOf (nonempty : place ≠ []) (below : List Segment) :
    Selection.Leads (pathOf place).toList (pathOf (place ++ below)).toList := by
  cases below with
  | nil => exact .inl (by rw [List.append_nil])
  | cons name below =>
    refine .inr ⟨['/'].intercalate (name :: below), ?_⟩
    rw [pathOf, pathOf, String.toList_ofList, String.toList_ofList, intercalate_append nonempty,
      List.append_assoc]
    rfl

theorem sourcesAt_eq (s : Selection) (names : ∀ n ∈ place, n ≠ []) (name : Segment) (t : FileTree) :
    sourcesAt s (['/'].intercalate place) (name, t) =
      if t.isDirectory then
        if unsearched.contains name || s.excludes (pathOf (place ++ [name])) then []
        else t.sources s (['/'].intercalate (place ++ [name]))
      else if s.includes (pathOf (place ++ [name])) then [(pathOf (place ++ [name]), t)]
      else [] := by
  have spelled : (if (['/'].intercalate place).isEmpty then name
      else ['/'].intercalate place ++ '/' :: name) = ['/'].intercalate (place ++ [name]) := by
    cases place with
    | nil => simp
    | cons first place =>
      obtain ⟨c, cs, hfirst⟩ := List.exists_cons_of_ne_nil (names first List.mem_cons_self)
      rw [intercalate_append (List.cons_ne_nil first place), if_neg ?_]
      · simp
      · cases place <;> simp [hfirst]
  rw [sourcesAt, spelled]
  rfl

theorem at?_of_not_directory (h : t.isDirectory = false) (found : t.at? place = some t') :
    place = [] := by
  cases place with
  | nil => rfl
  | cons name place =>
    cases t with
    | directory => cases h
    | text | raw => cases found

/-- The file at a place below another one is selected by its path, and no directory between the two
is left out by its name. -/
structure Selects (s : Selection) (place : List Segment) (t : FileTree) (below : List Segment)
    (found : String × FileTree) : Prop where
  stands : t.at? below = some found.2
  isFile : found.2.isDirectory = false
  path : found.1 = pathOf (place ++ below)
  included : s.includes found.1 = true
  searched : ∀ d ∈ below.dropLast, d ∉ unsearched

variable {found : String × FileTree}

/-- What is found in an entry, if in a directory just what is below it is found. -/
theorem mem_sourcesAt (names : ∀ n ∈ place, n ≠ []) (nonempty : name ≠ [])
    (ih : ∀ place, (∀ n ∈ place, n ≠ []) → (found ∈ t.sources s (['/'].intercalate place) ↔
      ∃ below, below ≠ [] ∧ Selects s place t below found)) :
    found ∈ sourcesAt s (['/'].intercalate place) (name, t) ↔
      ∃ below, t.at? below = some found.2 ∧ found.2.isDirectory = false ∧
        found.1 = pathOf (place ++ name :: below) ∧ s.includes found.1 = true ∧
          ∀ d ∈ (name :: below).dropLast, d ∉ unsearched := by
  have names' : ∀ n ∈ place ++ [name], n ≠ [] := fun n hn =>
    (List.mem_append.1 hn).elim (names n) fun hn => List.mem_singleton.1 hn ▸ nonempty
  have step (below : List Segment) : (place ++ [name]) ++ below = place ++ name :: below := by simp
  rw [sourcesAt_eq s names]
  by_cases directory : t.isDirectory = true
  · rw [if_pos directory]
    -- a file is not the directory itself, so the directory is one of those on the way
    have deeper {below : List Segment} (stands : t.at? below = some found.2)
        (isFile : found.2.isDirectory = false) : below ≠ [] := by
      rintro rfl
      rw [← Option.some.inj stands, directory] at isFile
      cases isFile
    split
    · next skipped =>
      refine ⟨nofun, ?_⟩
      rintro ⟨below, stands, isFile, path, included, searched⟩
      have nonempty := deeper stands isFile
      rw [List.dropLast_cons_of_ne_nil nonempty] at searched
      rcases Bool.or_eq_true_iff.1 skipped with byName | byPath
      · exact absurd (List.contains_iff_mem.1 byName) (searched name List.mem_cons_self)
      · have leads := leads_pathOf (List.concat_ne_nil name place) below
        rw [step, ← path] at leads
        rw [Selection.includes, Selection.excludes_of_leads byPath leads] at included
        simp at included
    · next entered =>
      have notHere : name ∉ unsearched := fun mem =>
        entered (Bool.or_eq_true_iff.2 (.inl (List.contains_iff_mem.2 mem)))
      rw [ih _ names']
      constructor
      · rintro ⟨below, nonempty, h⟩
        refine ⟨below, h.stands, h.isFile, (step below) ▸ h.path, h.included, ?_⟩
        rw [List.dropLast_cons_of_ne_nil nonempty]
        exact List.forall_mem_cons.2 ⟨notHere, h.searched⟩
      · rintro ⟨below, stands, isFile, path, included, searched⟩
        have nonempty := deeper stands isFile
        rw [List.dropLast_cons_of_ne_nil nonempty] at searched
        exact ⟨below, nonempty, stands, isFile, (step below).symm ▸ path, included,
          (List.forall_mem_cons.1 searched).2⟩
  · have isFile : t.isDirectory = false := Bool.eq_false_iff.2 directory
    rw [if_neg directory]
    constructor
    · intro mem
      split at mem
      · next included =>
        rw [List.mem_singleton.1 mem]
        exact ⟨[], rfl, isFile, rfl, included, nofun⟩
      · cases mem
    · rintro ⟨below, stands, -, path, included, -⟩
      have here := at?_of_not_directory isFile stands
      subst here
      rw [path] at included
      rw [if_pos included, List.mem_singleton]
      exact Prod.ext path (Option.some.inj stands).symm

theorem mem_sourcesIn {before : List Char} :
    found ∈ sourcesIn s before entries ↔ ∃ e ∈ entries, found ∈ sourcesAt s before e := by
  induction entries with
  | nil => simp [sourcesIn]
  | cons e entries ih => rw [sourcesIn, List.mem_append, ih, List.exists_mem_cons_iff]

/-- The search finds the selected files below its place and nothing else. -/
theorem IsProper.mem_sources (h : t.IsProper) (names : ∀ n ∈ place, n ≠ []) :
    found ∈ t.sources s (['/'].intercalate place) ↔
      ∃ below, below ≠ [] ∧ Selects s place t below found := by
  induction h generalizing place with
  | text | raw =>
    refine ⟨fun mem => by simp [sources] at mem, ?_⟩
    rintro ⟨below, nonempty, h⟩
    exact absurd (at?_of_not_directory rfl h.stands) nonempty
  | @directory entries distinct named _ ih =>
    rw [sources, mem_sourcesIn]
    have entry (e : Segment × FileTree) (he : e ∈ entries) :=
      mem_sourcesAt names (named e he).1 fun _ names => ih e he names
    constructor
    · rintro ⟨e, he, mem⟩
      obtain ⟨below, stands, isFile, path, included, searched⟩ := (entry e he).1 mem
      exact ⟨e.1 :: below, List.cons_ne_nil _ _,
        (at?_directory_cons distinct).2 ⟨e, he, rfl, stands⟩, isFile, path, included, searched⟩
    · rintro ⟨below, nonempty, h⟩
      obtain ⟨name, below, rfl⟩ := List.exists_cons_of_ne_nil nonempty
      obtain ⟨e, he, rfl, stands⟩ := (at?_directory_cons distinct).1 h.stands
      exact ⟨e, he, (entry e he).2 ⟨below, stands, h.isFile, h.path, h.included, h.searched⟩⟩

/-! ## Each file once -/

/-- What is found in an entry has a path that goes through it. -/
theorem IsProper.path_of_mem_sourcesAt (h : t.IsProper) (names : ∀ n ∈ place, n ≠ [])
    (nonempty : name ≠ [])
    (mem : found ∈ sourcesAt s (['/'].intercalate place) (name, t)) :
    ∃ below, (∀ n ∈ below, '/' ∉ n) ∧ found.1 = pathOf (place ++ name :: below) := by
  obtain ⟨below, stands, -, path, -, -⟩ :=
    (mem_sourcesAt names nonempty fun _ names => h.mem_sources names).1 mem
  exact ⟨below, fun n hn => (h.names_of_at? stands n hn).2, path⟩

theorem sourcesIn_nodup {before : List Char}
    (each : ∀ e ∈ entries, ((sourcesAt s before e).map (·.1)).Nodup)
    (apart : entries.Pairwise fun e e' =>
      ∀ x ∈ sourcesAt s before e, ∀ y ∈ sourcesAt s before e', x.1 ≠ y.1) :
    ((sourcesIn s before entries).map (·.1)).Nodup := by
  induction entries with
  | nil => simp [sourcesIn]
  | cons e entries ih =>
    obtain ⟨first, rest⟩ := List.forall_mem_cons.1 each
    obtain ⟨others, apart⟩ := List.pairwise_cons.1 apart
    rw [sourcesIn, List.map_append, List.nodup_append]
    refine ⟨first, ih rest apart, fun path hpath path' hpath' => ?_⟩
    obtain ⟨x, hx, rfl⟩ := List.mem_map.1 hpath
    obtain ⟨y, hy, rfl⟩ := List.mem_map.1 hpath'
    obtain ⟨e', he', hy⟩ := mem_sourcesIn.1 hy
    exact others e' he' x hx y hy

/-- No path is found twice. -/
theorem IsProper.sources_nodup (h : t.IsProper) (names : ∀ n ∈ place, n ≠ [] ∧ '/' ∉ n) :
    ((t.sources s (['/'].intercalate place)).map (·.1)).Nodup := by
  induction h generalizing place with
  | text | raw => simp [sources]
  | @directory entries distinct named proper ih =>
    have nonempty : ∀ n ∈ place, n ≠ [] := fun n hn => (names n hn).1
    rw [sources]
    refine sourcesIn_nodup (fun e he => ?_) ?_
    · rw [sourcesAt_eq s nonempty]
      split
      · split
        · exact List.nodup_nil
        · refine ih e he fun n hn => (List.mem_append.1 hn).elim (names n) fun hn => ?_
          exact List.mem_singleton.1 hn ▸ named e he
      · split <;> simp
    · refine (List.pairwise_map.1 distinct).imp_of_mem fun {e e'} he he' other x hx y hy same => ?_
      obtain ⟨below, hbelow, path⟩ :=
        (proper e he).path_of_mem_sourcesAt nonempty (named e he).1 hx
      obtain ⟨below', hbelow', path'⟩ :=
        (proper e' he').path_of_mem_sourcesAt nonempty (named e' he').1 hy
      have noSlash {e : Segment × FileTree} {below : List Segment} (he : e ∈ entries)
          (h : ∀ n ∈ below, '/' ∉ n) : ∀ n ∈ place ++ e.1 :: below, '/' ∉ n := fun n hn =>
        (List.mem_append.1 hn).elim (fun hn => (names n hn).2) fun hn =>
          (List.mem_cons.1 hn).elim (fun same => same ▸ (named e he).2) (h n)
      rw [path, path'] at same
      have places := pathOf_inj (noSlash he hbelow) (noSlash he' hbelow') (by simp) (by simp) same
      exact other (List.cons.inj (List.append_cancel_left places)).1

/-- Discovery in a proper tree finds the paths of the selected files outside the directories that
are never searched, each once and in ascending order. What an excluding pattern fits is excluded
with all that it leads to. -/
theorem discover_exact (s : Selection) {t : FileTree} (h : t.IsProper) :
    ((t.discover s).map (·.1)).Pairwise (· < ·) ∧
    (∀ path file, (path, file) ∈ t.discover s ↔ ∃ place, place ≠ [] ∧ t.at? place = some file ∧
      file.isDirectory = false ∧ path = pathOf place ∧ s.includes path = true ∧
        ∀ d ∈ place.dropLast, d ∉ unsearched) ∧
    ∀ path, s.excludes path = true ↔
      ∃ pattern ∈ s.excluded, ∃ trimmed leading : String,
        Selection.Trims pattern.toList trimmed.toList ∧
        Selection.Leads leading.toList path.toList ∧ Glob.fits trimmed leading = true := by
  have top : ∀ n ∈ ([] : List Segment), n ≠ [] ∧ '/' ∉ n := nofun
  refine ⟨?_, fun path file => ?_, fun path => Selection.excludes_iff⟩
  · have nodup : ((t.discover s).map (·.1)).Nodup :=
      ((List.mergeSort_perm _ _).map _).nodup_iff.2 (h.sources_nodup top)
    have sorted : (t.discover s).Pairwise fun a b => decide (a.1 ≤ b.1) = true :=
      List.pairwise_mergeSort (fun a b c hab hbc => by
          simp only [decide_eq_true_eq] at *
          exact String.le_trans hab hbc)
        (fun a b => by simpa using String.le_total a.1 b.1) _
    refine List.pairwise_map.2 ((sorted.and (List.pairwise_map.1 nodup)).imp fun {a b} pair => ?_)
    exact lt_of_le_of_ne (of_decide_eq_true pair.1) pair.2
  · rw [discover, List.mem_mergeSort]
    refine (h.mem_sources fun n hn => (top n hn).1).trans (exists_congr fun below => ?_)
    refine and_congr_right fun _ => ?_
    exact ⟨fun found => ⟨found.stands, found.isFile, found.path, found.included, found.searched⟩,
      fun ⟨stands, isFile, path, included, searched⟩ =>
        ⟨stands, isFile, path, included, searched⟩⟩

/-- A directory with a file and an excluded directory. -/
def mixedTree : FileTree :=
  .directory [("src".toList, .directory [
    ("legacy".toList, .directory [("a.ts".toList, .raw)]), ("b.ts".toList, .text [])])]

theorem mixedTree_discover : mixedTree.IsProper ∧
    ("src/b.ts", .text []) ∈ mixedTree.discover { excluded := ["./s*/legacy/"] } ∧
    ∀ file, ("src/legacy/a.ts", file) ∉ mixedTree.discover { excluded := ["./s*/legacy/"] } := by
  have legacy : IsProper (.directory [("a.ts".toList, .raw)]) :=
    .directory (by decide) (by decide) (List.forall_mem_singleton.2 .raw)
  have src : IsProper (.directory [("legacy".toList, .directory [("a.ts".toList, .raw)]),
      ("b.ts".toList, .text [])]) :=
    .directory (by decide) (by decide)
      (List.forall_mem_cons.2 ⟨legacy, List.forall_mem_singleton.2 (.text [])⟩)
  have proper : mixedTree.IsProper :=
    .directory (by decide) (by decide) (List.forall_mem_singleton.2 src)
  obtain ⟨-, mem, -⟩ := discover_exact { excluded := ["./s*/legacy/"] } proper
  refine ⟨proper, (mem _ _).2 ⟨["src".toList, "b.ts".toList], by decide, rfl, rfl, rfl, by decide,
    by decide⟩, fun file found => ?_⟩
  obtain ⟨place, -, -, -, -, included, -⟩ := (mem _ file).1 found
  exact absurd included (by decide)

end FileTree
end FactorySync

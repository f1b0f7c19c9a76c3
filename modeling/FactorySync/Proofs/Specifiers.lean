import FactorySync.Path.Module
import FactorySync.Proofs.Paths

/-!
# Specifiers lead back

The specifier of a source file goes up from the importing file to the last common directory and from
there down to the file without its extension. Read in the importing file it therefore leads to the
place it was made for (`Path.normalize_specifier`), and the source file is one of the candidates
there (`Path.Nameable.mem_candidates`).
-/

namespace FactorySync

namespace Path

open NormalPath

variable {path source target : String} {rooted : Bool} {directories : List Segment}
  {name stem : Segment} {e : Extension}

/-! ## Directories and names -/

theorem startsWith_iff {text head : String} :
    startsWith text head = true ↔ head.toList <+: text.toList := List.isPrefixOf_iff_prefix

theorem splitAfterLast_append {stop : Char → Bool} {front tail : List Char}
    (hfront : front = [] ∨ ∃ c, front.getLast? = some c ∧ stop c = true)
    (htail : ∀ c ∈ tail, stop c = false) :
    splitAfterLast stop (front ++ tail) = (front, tail) := by
  have stops : front.reverse.takeWhile (!stop ·) = [] := by
    rcases hfront with rfl | ⟨c, hlast, hc⟩
    · rfl
    · obtain ⟨init, rfl⟩ := List.getLast?_eq_some_iff.1 hlast
      simp [hc]
  have found : ((front ++ tail).reverse.takeWhile (!stop ·)).reverse = tail := by
    rw [List.reverse_append, List.takeWhile_append_of_pos (by simpa using htail), stops]
    simp
  simp only [splitAfterLast, found]
  simp

theorem splitAfterLast_below {stop : Char → Bool} (slash : stop '/' = true)
    (h : ∀ c ∈ name, stop c = false) :
    splitAfterLast stop (below rooted directories ++ name) = (below rooted directories, name) :=
  splitAfterLast_append
    ((below_eq_nil_or_slash rooted directories).imp_right fun last => ⟨'/', last, slash⟩) h

theorem directory_toList (plain : ∀ d ∈ directories, Segment.IsPlain d)
    (noSlash : '/' ∉ name) (noBackslash : '\\' ∉ name)
    (h : path.toList = below rooted directories ++ name) :
    (directory path).toList = below rooted directories := by
  have clean : '\\' ∉ path.toList := by
    rw [h]
    exact fun hc => (List.mem_append.1 hc).elim (below_noBackslash plain) noBackslash
  have inName : ∀ c ∈ name, decide (c = '/') = false := by
    intro c hc
    refine decide_eq_false ?_
    rintro rfl
    exact noSlash hc
  rw [directory, String.toList_ofList, withSlashes_eq_self clean, h,
    splitAfterLast_below (by simp) inName]

theorem baseName_toList (noSlash : '/' ∉ name) (noBackslash : '\\' ∉ name)
    (h : path.toList = below rooted directories ++ name) : (baseName path).toList = name := by
  rw [baseName, String.toList_ofList, h, splitAfterLast_below (by simp) fun c hc => ?_]
  have slash : c ≠ '/' := fun same => noSlash (same ▸ hc)
  have backslash : c ≠ '\\' := fun same => noBackslash (same ▸ hc)
  simp [slash, backslash]

/-! ## Source files -/

/-- A file that is found without its extension: its name is more than that, and an extension that
reads as `.d.ts` is spelled so. -/
def IsSource (path : String) : Prop :=
  ∃ stem e, stem ≠ [] ∧ e ∈ Extension.resolution ∧
    (baseName path).toList = stem ++ e.text.toList ∧
    (Extension.dts.endsPath path = true → e = .dts)

/-- The segments that a file has as a module. -/
def moduleSegments (directories : List Segment) (stem : Segment) : List Segment :=
  if stem = "index".toList then directories else directories ++ [stem]

theorem IsPlain.cutSource (h : IsPlain path) (hsource : IsSource path) : ∃ directories stem e,
    (∀ d ∈ directories, Segment.IsPlain d) ∧ Segment.IsPlain stem ∧ e ∈ Extension.resolution ∧
      (Extension.dts.endsPath path = true → e = .dts) ∧
      path.toList = below (isRooted path) directories ++ (stem ++ e.text.toList) := by
  obtain ⟨directories, name, plain, hname, spelled⟩ := h.cut
  obtain ⟨stem, e, nonempty, he, named, hdts⟩ := hsource
  have same : name = stem ++ e.text.toList := by
    rw [← named]
    rcases hname with rfl | hname
    · exact (baseName_toList (by simp) (by simp) spelled).symm
    · exact (baseName_toList hname.noSlash hname.noBackslash spelled).symm
  subst same
  have hname := hname.resolve_left (by simp [nonempty])
  have dotted : ∃ rest, e.text.toList = '.' :: rest := by cases e <;> exact ⟨_, rfl⟩
  obtain ⟨rest, hrest⟩ := dotted
  refine ⟨directories, stem, e, plain, ?_, he, hdts, spelled⟩
  exact {
    nonempty
    notHere := by
      rintro rfl
      exact hname.notUp ⟨rest, by simp [hrest]⟩
    noSlash := fun hc => hname.noSlash (List.mem_append_left _ hc)
    noBackslash := fun hc => hname.noBackslash (List.mem_append_left _ hc)
    notUp := fun up => hname.notUp (up.trans (List.prefix_append _ _)) }

theorem endsPath_dts (h : ".d.ts".toList <:+ path.toList) : Extension.dts.endsPath path = true := by
  obtain ⟨front, h⟩ := h
  rw [Extension.endsPath, ← h]
  exact List.isSuffixOf_iff_suffix.2 ⟨front.map Char.toLower, by simp [Extension.text]⟩

/-- Without its extension a source file is spelled by its directories and its stem. -/
theorem withoutExtension_toList (nonempty : stem ≠ []) (noSlash : '/' ∉ stem)
    (he : e ∈ Extension.resolution) (hdts : Extension.dts.endsPath path = true → e = .dts)
    (h : path.toList = below rooted directories ++ (stem ++ e.text.toList)) :
    (withoutExtension path).toList = below rooted directories ++ stem := by
  rw [← List.append_assoc] at h
  by_cases ends : Extension.dts.endsPath path = true
  · have five : e.text.toList.length = 5 := by rw [hdts ends]; rfl
    have front : path.toList.take (path.toList.length - 5) = below rooted directories ++ stem := by
      rw [h, List.length_append, five, Nat.add_sub_cancel, List.take_left]
    simp only [withoutExtension, ends, if_true, front, String.toList_ofList]
  · -- only `.ts` and `.tsx` are left, which have no second dot
    obtain ⟨letters, hletters, noDot, noSlashes⟩ : ∃ letters,
        e.text.toList = '.' :: letters ∧ '.' ∉ letters ∧ '/' ∉ letters := by
      cases e with
      | dts => exact absurd (endsPath_dts (h ▸ List.suffix_append _ _)) ends
      | _ => exact ⟨_, rfl, by decide, by decide⟩
    have lastDot : path.toList.reverse.dropWhile (· ≠ '.') =
        '.' :: (below rooted directories ++ stem).reverse := by
      rw [h, hletters, List.reverse_append, List.reverse_cons, List.append_assoc,
        List.dropWhile_append_of_pos]
      · simp
      · intro c hc
        refine decide_eq_true ?_
        rintro rfl
        exact noDot (List.mem_reverse.1 hc)
    have lastSlash : (splitAfterLast (· = '/') path.toList).1 = below rooted directories := by
      rw [h, List.append_assoc, splitAfterLast_below (by simp)]
      intro c hc
      refine decide_eq_false ?_
      rintro rfl
      rcases List.mem_append.1 hc with hc | hc
      · exact noSlash hc
      · rw [hletters] at hc
        exact noSlashes ((List.mem_cons.1 hc).resolve_left (by decide))
    have behind : (below rooted directories).length - 1 <
        (below rooted directories ++ stem).length := by
      have := List.length_pos_iff.2 nonempty
      rw [List.length_append]
      omega
    rw [withoutExtension, if_neg ends, lastDot]
    simp only [List.reverse_reverse, lastSlash, if_pos behind, String.toList_ofList]

theorem withoutTrailingSlashes_segments (plain : ∀ d ∈ directories, Segment.IsPlain d) :
    (ofChars (withoutTrailingSlashes (below rooted directories))).segments = directories := by
  rcases List.eq_nil_or_concat directories with rfl | ⟨parents, d, rfl⟩
  · cases rooted <;> rfl
  · rw [List.concat_eq_append] at plain ⊢
    have hd := plain d (List.mem_append_right _ (List.mem_singleton_self _))
    have hparents : ∀ t ∈ parents, Segment.IsPlain t := fun t ht =>
      plain t (List.mem_append_left _ ht)
    have dropped : withoutTrailingSlashes (below rooted (parents ++ [d])) =
        below rooted parents ++ d := by
      obtain ⟨init, last, rfl, other⟩ := hd.exists_last
      rw [below_concat, withoutTrailingSlashes]
      simp [other]
    rw [dropped, ofChars_below hparents hd.head?_ne hd.noBackslash, enter_segment hd.noSlash,
      fold_plain hd]
    simp

/-- The file as a module: what the specifier has to lead to. -/
theorem withoutIndex_segments (plain : ∀ d ∈ directories, Segment.IsPlain d)
    (hstem : Segment.IsPlain stem) (h : path.toList = below rooted directories ++ stem) :
    (ofChars (withoutIndex path).toList).segments = moduleSegments directories stem := by
  have base := baseName_toList hstem.noSlash hstem.noBackslash h
  rw [withoutIndex, moduleSegments]
  by_cases index : stem = "index".toList
  · have isIndex : baseName path = "index" := String.toList_inj.1 (base.trans index)
    have front : path.toList.take (path.toList.length - 5) = below rooted directories := by
      rw [h, List.length_append, index]
      exact List.take_left ..
    rw [if_pos isIndex, if_pos index, String.toList_ofList, front,
      withoutTrailingSlashes_segments plain]
  · have notIndex : baseName path ≠ "index" := by
      intro same
      exact index (by rw [← base, same])
    rw [if_neg notIndex, if_neg index, h, ofChars_below plain hstem.head?_ne hstem.noBackslash,
      enter_segment hstem.noSlash, fold_plain hstem]
    simp

/-! ## The way there -/

/-- The segments of the way from some directories to others. -/
def way (here there : List Segment) : List Segment :=
  List.replicate (here.length - commonLength here there) ['.', '.'] ++
    there.drop (commonLength here there)

theorem take_commonLength {α : Type} [DecidableEq α] (as bs : List α) :
    as.take (commonLength as bs) = bs.take (commonLength as bs) := by
  induction as generalizing bs with
  | nil => cases bs <;> rfl
  | cons a as ih =>
    cases bs with
    | nil => rfl
    | cons b bs =>
      rw [commonLength]
      split
      · next same => rw [List.take_succ_cons, List.take_succ_cons, same, ih]
      · rfl

theorem commonLength_le {α : Type} [DecidableEq α] (as bs : List α) :
    commonLength as bs ≤ as.length := by
  induction as generalizing bs with
  | nil => cases bs <;> exact Nat.le_refl 0
  | cons a as ih =>
    cases bs with
    | nil => exact Nat.zero_le _
    | cons b bs =>
      rw [commonLength]
      split
      · exact Nat.succ_le_succ (ih bs)
      · exact Nat.zero_le _

/-- Going the way leads there. -/
theorem foldl_way {here there : List Segment} (hhere : ∀ s ∈ here, Segment.IsPlain s)
    (hthere : ∀ s ∈ there, Segment.IsPlain s) :
    (way here there).foldl (fold rooted) here.reverse = there.reverse := by
  have back : here.reverse.drop (here.length - commonLength here there) =
      (there.take (commonLength here there)).reverse := by
    rw [List.drop_reverse, Nat.sub_sub_self (commonLength_le here there), take_commonLength]
  -- what is left after going up is shared, so going down from there gives the rest
  rw [way, List.foldl_append, foldl_ups (by simpa using hhere) (by simp), back,
    foldl_plain fun s hs => hthere s (List.mem_of_mem_drop hs), ← List.reverse_append,
    List.take_append_drop]

theorem mem_way {here there : List Segment} (h : ∀ s ∈ there, Segment.IsPlain s) :
    ∀ s ∈ way here there, s = ['.', '.'] ∨ Segment.IsPlain s := by
  intro s hs
  rcases List.mem_append.1 hs with hup | hdown
  · exact .inl (List.eq_of_mem_replicate hup)
  · exact .inr (h s (List.mem_of_mem_drop hdown))

/-- What begins with two dots goes up. -/
theorem intercalate_up {segments : List Segment}
    (h : ∀ s ∈ segments, s = ['.', '.'] ∨ Segment.IsPlain s)
    (up : ['.', '.'] <+: ['/'].intercalate segments) :
    ['/'].intercalate segments = ['.', '.'] ∨
      ['.', '.', '/'] <+: ['/'].intercalate segments := by
  cases segments with
  | nil => simp at up
  | cons s rest =>
    have tail : ∃ tail, ['/'].intercalate (s :: rest) = s ++ tail ∧
        (tail = [] ∨ ['/'] <+: tail) := by
      by_cases last : rest = []
      · exact ⟨[], by simp [last], .inl rfl⟩
      · exact ⟨'/' :: ['/'].intercalate rest, by simp [List.intercalate_cons_of_ne_nil last],
          .inr ⟨_, rfl⟩⟩
    obtain ⟨tail, split, htail⟩ := tail
    rw [split] at up ⊢
    rcases h s List.mem_cons_self with rfl | plain
    · rcases htail with rfl | ⟨rest, rfl⟩
      · exact .inl rfl
      · exact .inr ⟨rest, rfl⟩
    · -- the first segment has a first character and, as it is not a dot alone, a second one
      obtain ⟨c, cs, rfl⟩ := List.exists_cons_of_ne_nil plain.nonempty
      cases cs with
      | nil =>
        have dot : '.' = c := (List.cons_prefix_cons.1 up).1
        exact absurd (by rw [dot]) plain.notHere
      | cons d cs =>
        obtain ⟨first, up⟩ := List.cons_prefix_cons.1 up
        obtain ⟨second, -⟩ := List.cons_prefix_cons.1 up
        subst first second
        exact absurd ⟨cs, rfl⟩ plain.notUp

/-! ## Reading from a directory -/

theorem combine_toList {base relative : String} (hbase : base.toList = below rooted directories)
    (hrelative : relative.toList.head? ≠ some '/') :
    (combine base relative).toList = below rooted directories ++ relative.toList := by
  rw [combine]
  by_cases empty : base.isEmpty = true
  · have nothing : below rooted directories = [] := by
      rw [← hbase, String.isEmpty_iff.1 empty]
      rfl
    simp [empty, nothing]
  · have last : base.toList.getLast? = some '/' := by
      rw [hbase]
      refine (below_eq_nil_or_slash rooted directories).resolve_left fun nothing => empty ?_
      rw [← hbase] at nothing
      exact String.isEmpty_iff.2 (String.toList_eq_nil_iff.1 nothing)
    rw [if_neg (by simp [empty, hrelative]), withTrailingSlash, if_pos last, String.toList_append,
      hbase]

/-- Behind a directory that is spelled canonically comes a slash, if it has none yet. -/
theorem combine_toChars {base relative : String}
    (plain : ∀ d ∈ directories, Segment.IsPlain d)
    (hbase : base.toList = toChars ⟨rooted, directories⟩)
    (hrelative : relative.toList.head? ≠ some '/') :
    (combine base relative).toList = below rooted directories ++ relative.toList := by
  rcases List.eq_nil_or_concat directories with rfl | ⟨parents, d, rfl⟩
  · exact combine_toList (hbase.trans (by simp [toChars, below])) hrelative
  · rw [List.concat_eq_append] at plain hbase ⊢
    have hd := plain d (List.mem_append_right _ (List.mem_singleton_self _))
    rw [toChars_concat] at hbase
    obtain ⟨init, last, rfl, other⟩ := hd.exists_last
    have openEnd : base.toList.getLast? ≠ some '/' := by simpa [hbase] using other
    have nonempty : base.isEmpty = false := by
      refine Bool.eq_false_iff.2 fun empty => ?_
      rw [String.isEmpty_iff.1 empty] at hbase
      simp at hbase
    rw [combine, if_neg (by simp [nonempty, hrelative]), withTrailingSlash, if_neg openEnd,
      String.toList_append, String.toList_push, hbase, below_concat]

/-! ## Specifiers -/

/-- The way from a file to another one as a module, which the specifier is made of. -/
def moduleWay (source target : String) : String :=
  relativeTo (directory source) (withoutIndex (withoutExtension (normalize target)))

/-- A specifier is a dot alone, a way up, or a way down behind a dot. -/
theorem specifier_cases (source target : String) :
    (specifier source target = "." ∧ moduleWay source target = "") ∨
    (specifier source target = moduleWay source target ∧
      "..".toList <+: (moduleWay source target).toList) ∨
    specifier source target = "./" ++ moduleWay source target := by
  unfold specifier
  dsimp only
  rw [← moduleWay]
  split
  · next empty => exact .inl ⟨rfl, String.isEmpty_iff.1 empty⟩
  · split
    · next up => exact .inr (.inl ⟨rfl, startsWith_iff.1 up⟩)
    · exact .inr (.inr rfl)

/-- The segments of the specifier, read anywhere, are those of the way. -/
theorem enter_specifier (source target : String) (folded : List Segment) :
    enter rooted folded (specifier source target).toList =
      enter rooted folded (moduleWay source target).toList := by
  rcases specifier_cases source target with ⟨dot, here⟩ | ⟨up, -⟩ | down
  · rw [dot, here]
    exact enter_here.trans enter_nil.symm
  · rw [up]
  · have mark : "./".toList = ['.'] ++ ['/'] := by decide
    rw [down, String.toList_append, mark, List.append_assoc]
    exact (enter_append ['.'] (moduleWay source target).toList).trans (by rw [enter_here])

theorem specifier_head (source target : String) :
    (specifier source target).toList.head? = some '.' := by
  rcases specifier_cases source target with ⟨dot, -⟩ | ⟨up, ⟨rest, h⟩⟩ | down
  · rw [dot]
    rfl
  · rw [up, ← h]
    rfl
  · rw [down, String.toList_append]
    rfl

theorem specifier_noBackslash (h : '\\' ∉ (moduleWay source target).toList) :
    '\\' ∉ (specifier source target).toList := by
  rcases specifier_cases source target with ⟨dot, -⟩ | ⟨up, -⟩ | down
  · rw [dot]
    decide
  · rwa [up]
  · rw [down, String.toList_append]
    exact fun hc => (List.mem_append.1 hc).elim (absurd · (by decide)) h

theorem specifier_isRelative {segments : List Segment}
    (h : ∀ s ∈ segments, s = ['.', '.'] ∨ Segment.IsPlain s)
    (hway : (moduleWay source target).toList = ['/'].intercalate segments) :
    isRelativeSpecifier (specifier source target) = true := by
  rcases specifier_cases source target with ⟨dot, -⟩ | ⟨same, up⟩ | down
  · rw [dot]
    rfl
  · -- what goes up in a specifier goes up as a whole segment
    rw [same]
    rw [hway] at up
    rcases intercalate_up h up with alone | above
    · have parent : moduleWay source target = ".." := String.toList_inj.1 (hway.trans alone)
      rw [parent]
      rfl
    · rw [← hway] at above
      have goesUp : startsWith (moduleWay source target) "../" = true := startsWith_iff.2 above
      rw [isRelativeSpecifier, goesUp, Bool.or_true, Bool.true_or, Bool.true_or]
  · have goesDown : startsWith (specifier source target) "./" = true := by
      rw [startsWith_iff, down, String.toList_append]
      exact List.prefix_append _ _
    rw [isRelativeSpecifier, goesDown, Bool.true_or, Bool.true_or, Bool.true_or]

/-- Read in the source file, the specifier leads to the target as a module. -/
theorem normalize_specifier (hsource : IsPlain source) (htarget : IsPlain target)
    (sameRoot : isRooted source = isRooted target)
    (plain : ∀ d ∈ directories, Segment.IsPlain d) (hstem : Segment.IsPlain stem)
    (he : e ∈ Extension.resolution) (hdts : Extension.dts.endsPath target = true → e = .dts)
    (h : target.toList = below (isRooted target) directories ++ (stem ++ e.text.toList)) :
    isRelativeSpecifier (specifier source target) = true ∧
      (normalize (combine (directory source) (specifier source target))).toList =
        toChars ⟨isRooted target, moduleSegments directories stem⟩ := by
  obtain ⟨here, name, hhere, hname, spelled⟩ := hsource.cut
  have nameSlash : '/' ∉ name := by
    rcases hname with rfl | hname
    · exact List.not_mem_nil
    · exact hname.noSlash
  have nameBackslash : '\\' ∉ name := by
    rcases hname with rfl | hname
    · exact List.not_mem_nil
    · exact hname.noBackslash
  have base := directory_toList hhere nameSlash nameBackslash spelled
  have hthere : ∀ s ∈ moduleSegments directories stem, Segment.IsPlain s := by
    intro s hs
    unfold moduleSegments at hs
    split at hs
    · exact plain s hs
    · rcases List.mem_append.1 hs with hs | hs
      · exact plain s hs
      · exact List.mem_singleton.1 hs ▸ hstem
  have hereSegments : (ofChars (directory source).toList).segments = here := by
    rw [base, ← List.append_nil (below _ here), ofChars_below hhere (by simp) (by simp), enter_nil,
      List.reverse_reverse]
  have thereSegments := withoutIndex_segments plain hstem
    (withoutExtension_toList hstem.nonempty hstem.noSlash he hdts h)
  have hway : (moduleWay source target).toList =
      ['/'].intercalate (way here (moduleSegments directories stem)) := by
    rw [moduleWay, htarget.normal, relativeTo, String.toList_ofList, hereSegments, thereSegments]
    rfl
  have segments : ∀ s ∈ way here _, _ := mem_way hthere
  refine ⟨specifier_isRelative segments hway, ?_⟩
  have noSlash : ∀ s ∈ way here (moduleSegments directories stem), '/' ∉ s := fun s hs => by
    rcases segments s hs with rfl | plain
    · decide
    · exact plain.noSlash
  have noBackslash : ∀ s ∈ way here (moduleSegments directories stem), '\\' ∉ s := fun s hs => by
    rcases segments s hs with rfl | plain
    · decide
    · exact plain.noBackslash
  have clean : '\\' ∉ (specifier source target).toList :=
    specifier_noBackslash (hway ▸ intercalate_noBackslash noBackslash)
  have dot : (specifier source target).toList.head? ≠ some '/' := by
    rw [specifier_head]
    decide
  rw [normalize_toList, combine_toList base dot, ofChars_below hhere dot clean, enter_specifier,
    hway, enter_intercalate noSlash, foldl_way hhere hthere, List.reverse_reverse, sameRoot]

/-- That a file can be named by a specifier in another file: both have plain paths, from the same
root, and the name of the target ends with an extension that is tried for it. -/
structure Nameable (source target : String) : Prop where
  fromPlain : IsPlain source
  toPlain : IsPlain target
  toSource : IsSource target
  sameRoot : isRooted source = isRooted target

/-- A file that can be named is one of the candidates of its specifier. -/
theorem Nameable.mem_candidates (h : Nameable source target) :
    target ∈ candidates source (specifier source target) := by
  obtain ⟨directories, stem, e, plain, hstem, he, hdts, spelled⟩ :=
    h.toPlain.cutSource h.toSource
  obtain ⟨relative, base⟩ :=
    normalize_specifier h.fromPlain h.toPlain h.sameRoot plain hstem he hdts spelled
  rw [candidates, if_pos relative]
  -- the last three candidates are index files, the three before them are not
  by_cases index : stem = "index".toList
  · refine List.mem_append_right _ (List.mem_map.2 ⟨e, he, String.toList_inj.1 ?_⟩)
    rw [moduleSegments, if_pos index] at base
    rw [String.toList_append, combine_toChars plain base (by decide), spelled, index,
      List.append_assoc]
  · refine List.mem_append_left _ (List.mem_append_right _
      (List.mem_map.2 ⟨e, he, String.toList_inj.1 ?_⟩))
    rw [String.toList_append, base, moduleSegments, if_neg index, toChars_concat, spelled,
      List.append_assoc]

end Path
end FactorySync

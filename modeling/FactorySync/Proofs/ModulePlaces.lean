import FactorySync.Proofs.Specifiers

/-!
# The place of a module

A source file is known to its importers by its place: its path without the extension, and without
the last segment if that is `index` (`Path.modulePlace`). Whatever file imports it, the specifier
leads to this place, and so to the same candidates (`Path.specifier_leads_back`).
-/

namespace FactorySync
namespace Path

open NormalPath

variable {source source' target : String} {e : Extension}

/-- The path by which the file with this stem in these directories is a module. -/
def modulePlace (rooted : Bool) (directories : List Segment) (stem : Segment) : String :=
  String.ofList (toChars ⟨rooted, moduleSegments directories stem⟩)

theorem endsPath_of_suffix (h : e.text.toList <:+ target.toList) : e.endsPath target = true := by
  have lower : e.text.toList.map Char.toLower = e.text.toList := by cases e <;> decide
  rw [Extension.endsPath, ← lower]
  exact List.isSuffixOf_iff_suffix.2 (h.map _)

/-- Of the extensions that are tried, at most one is the ending of a path that does not end with
`.d.ts`. -/
theorem ofPath?_eq_some (he : e ∈ Extension.resolution)
    (hdts : Extension.dts.endsPath target = true → e = .dts)
    (h : e.text.toList <:+ target.toList) : Extension.ofPath? target = some e := by
  have ends := endsPath_of_suffix h
  rw [Extension.ofPath?, Extension.all, List.find?_cons]
  by_cases dts : Extension.dts.endsPath target = true
  · rw [dts, hdts dts]
  · rw [Bool.eq_false_iff.2 dts, List.find?_cons]
    cases e with
    | dts => exact absurd ends dts
    | ts => rw [ends]
    | tsx =>
      have notTs : Extension.ts.endsPath target = false := by
        refine Bool.eq_false_iff.2 fun endsTs => ?_
        -- the last letter would be two letters at once
        obtain ⟨front, hfront⟩ := List.isSuffixOf_iff_suffix.1 ends
        obtain ⟨front', hfront'⟩ := List.isSuffixOf_iff_suffix.1 endsTs
        have last := congrArg List.getLast? (hfront.trans hfront'.symm)
        simp [Extension.text] at last
      rw [notTs, List.find?_cons, ends]
    | mts => exact absurd he (by decide)
    | cts => exact absurd he (by decide)

/-- The specifier of a file is relative and leads from every importing file to the place that the
file has as a module. That place, and so the list of candidates, does not depend on the importing
file, and the file is among them. -/
theorem specifier_leads_back (h : Nameable source target) :
    ("./".toList <+: (specifier source target).toList ∨
      "../".toList <+: (specifier source target).toList ∨
      specifier source target = "." ∨ specifier source target = "..") ∧
    (∃ directories stem e, (∀ d ∈ directories, Segment.IsPlain d) ∧ Segment.IsPlain stem ∧
      Extension.ofPath? target = some e ∧
      target = String.ofList
        (toChars ⟨isRooted source, directories ++ [stem ++ e.text.toList]⟩) ∧
      normalize (combine (directory source) (specifier source target)) =
        modulePlace (isRooted source) directories stem) ∧
    target ∈ candidates source (specifier source target) ∧
    ∀ source', Nameable source' target →
      candidates source' (specifier source' target) =
        candidates source (specifier source target) := by
  obtain ⟨directories, stem, e, plain, hstem, he, hdts, spelled⟩ := h.toPlain.cutSource h.toSource
  have leads {from_ : String} (h : Nameable from_ target) :
      isRelativeSpecifier (specifier from_ target) = true ∧
        normalize (combine (directory from_) (specifier from_ target)) =
          modulePlace (isRooted target) directories stem := by
    obtain ⟨relative, place⟩ :=
      normalize_specifier h.fromPlain h.toPlain h.sameRoot plain hstem he hdts spelled
    exact ⟨relative, String.toList_inj.1 (place.trans String.toList_ofList.symm)⟩
  obtain ⟨relative, place⟩ := leads h
  refine ⟨?_, ⟨directories, stem, e, plain, hstem, ?_, ?_, ?_⟩, h.mem_candidates, ?_⟩
  · simpa only [isRelativeSpecifier, Bool.or_eq_true, startsWith_iff, beq_iff_eq, or_assoc]
      using relative
  · exact ofPath?_eq_some he hdts ⟨_, by rw [List.append_assoc, spelled]⟩
  · rw [toChars_concat, h.sameRoot, ← spelled, String.ofList_toList]
  · rw [h.sameRoot, place]
  · intro source' h'
    obtain ⟨relative', place'⟩ := leads h'
    rw [candidates, candidates, if_pos relative, if_pos relative', place, place']

/-- The module of a directory, named from below it and from the root. -/
theorem barrel_nameable (source : String) (h : source = "/a/b/c.ts" ∨ source = "/x.ts") :
    Nameable source "/a/index.d.ts" := by
  have facts : (∀ path ∈ ["/a/b/c.ts", "/x.ts", "/a/index.d.ts"], normalize path = path ∧
      isRooted path = true ∧
      ∀ s ∈ (NormalPath.ofChars path.toList).segments, ¬ ['.', '.'] <+: s) ∧
      (baseName "/a/index.d.ts").toList = "index".toList ++ Extension.dts.text.toList := by
    decide
  obtain ⟨paths, named⟩ := facts
  have plain : IsPlain source ∧ isRooted source = true := by
    obtain ⟨normal, rooted, plain⟩ := paths source (by rcases h with rfl | rfl <;> decide)
    exact ⟨⟨normal, plain⟩, rooted⟩
  obtain ⟨normal, rooted, target⟩ := paths "/a/index.d.ts" (by decide)
  exact {
    fromPlain := plain.1
    toPlain := ⟨normal, target⟩
    toSource := ⟨"index".toList, .dts, by decide, by decide, named, fun _ => rfl⟩
    sameRoot := plain.2.trans rooted.symm }

theorem barrel_leads_back : Nameable "/a/b/c.ts" "/a/index.d.ts" ∧ Nameable "/x.ts" "/a/index.d.ts" ∧
    "/a/index.d.ts" ∈ candidates "/x.ts" (specifier "/x.ts" "/a/index.d.ts") ∧
    candidates "/x.ts" (specifier "/x.ts" "/a/index.d.ts") =
      candidates "/a/b/c.ts" (specifier "/a/b/c.ts" "/a/index.d.ts") := by
  have below := barrel_nameable "/a/b/c.ts" (.inl rfl)
  have root := barrel_nameable "/x.ts" (.inr rfl)
  obtain ⟨-, -, mem, same⟩ := specifier_leads_back below
  exact ⟨below, root, (specifier_leads_back root).2.2.1, same "/x.ts" root⟩

end Path
end FactorySync

import FactorySync.Proofs.Place
import FactorySync.Text.Lines
import Mathlib.Data.List.Count
import Mathlib.Data.List.GetD

/-!
# Looking up lines

The table of a text of fewer than 2^32 bytes keeps the starts of its lines whole
(`LineMap.ofText_starts`), and they ascend, so those at or before an offset come first
(`ascending_le_iff`). Halving keeps the last of them in the stretch that is searched
(`LineMap.narrow_eq`) and therefore finds it, whether a line starts right at the offset or not
(`LineMap.lineOf_eq`). As many starts are at or before an offset as there are line feeds before it,
and one more (`LineMap.starts_le_count`), which makes a search by halving a count of line feeds
(`LineMap.lookup_exact`).

The bound on the text is that of the offsets. A text of 2^32 bytes whose last one is a line feed
has a last line that starts at an offset which 32 bits do not hold, and then the last offset that
they hold is not looked up rightly (`LineMap.Locates.starts_lt`).
-/

namespace FactorySync

/-- In an ascending list the entries up to a bound come first. -/
theorem ascending_le_iff {ns : List Nat} (ascending : ns.Pairwise (· < ·)) {i n : Nat}
    (entry : ns[i]? = some n) (bound : Nat) :
    n ≤ bound ↔ i < ns.countP (· ≤ bound) := by
  induction ns generalizing i with
  | nil => exact nomatch entry
  | cons first ns ih =>
    obtain ⟨above, rest⟩ := List.pairwise_cons.1 ascending
    by_cases within : first ≤ bound
    · rw [List.countP_cons_of_pos (by simpa using within)]
      cases i with
      | zero =>
        cases entry
        simp [within]
      | succ i =>
        rw [ih rest entry]
        omega
    · -- nothing behind a first entry above the bound is within it
      have none : ns.countP (· ≤ bound) = 0 := by
        refine List.countP_eq_zero.2 fun m mem => ?_
        have := above m mem
        simp only [decide_eq_true_eq]
        omega
      rw [List.countP_cons_of_neg (by simpa using within), none]
      cases i with
      | zero =>
        cases entry
        simp [within]
      | succ i =>
        have := above n (List.mem_of_getElem? entry)
        omega

namespace LineMap

/-! ## Starts of lines -/

theorem startsAfterBreaks_gt {pos : Nat} {cs : List Char} :
    ∀ start ∈ startsAfterBreaks pos cs, pos < start := by
  induction cs generalizing pos with
  | nil => exact nofun
  | cons c cs ih =>
    have size := c.utf8Size_pos
    intro start mem
    have later : start = pos + c.utf8Size ∨ start ∈ startsAfterBreaks (pos + c.utf8Size) cs := by
      unfold startsAfterBreaks at mem
      dsimp only at mem
      split at mem
      · exact List.mem_cons.1 mem
      · exact .inr mem
    obtain rfl | mem := later
    · omega
    · have := ih start mem
      omega

theorem startsAfterBreaks_ascend (pos : Nat) (cs : List Char) :
    (startsAfterBreaks pos cs).Pairwise (· < ·) := by
  induction cs generalizing pos with
  | nil => exact .nil
  | cons c cs ih =>
    unfold startsAfterBreaks
    dsimp only
    split
    · exact List.pairwise_cons.2 ⟨startsAfterBreaks_gt, ih _⟩
    · exact ih _

theorem startsAfterBreaks_le {pos : Nat} {cs : List Char} :
    ∀ start ∈ startsAfterBreaks pos cs, start ≤ pos + byteLength cs := by
  induction cs generalizing pos with
  | nil => exact nofun
  | cons c cs ih =>
    intro start mem
    have here : pos + byteLength (c :: cs) = pos + c.utf8Size + byteLength cs := by
      rw [byteLength, Nat.add_assoc]
    rw [here]
    unfold startsAfterBreaks at mem
    dsimp only at mem
    split at mem
    · obtain rfl | mem := List.mem_cons.1 mem
      · exact Nat.le_add_right ..
      · exact ih start mem
    · exact ih start mem

/-- The lines that start within `n` bytes are those behind the line feeds in these bytes. -/
theorem startsAfterBreaks_count (pos n : Nat) (cs : List Char) :
    (startsAfterBreaks pos cs).countP (· ≤ pos + n) = (takeBytes n cs).count '\n' := by
  induction cs generalizing pos n with
  | nil => cases n <;> rfl
  | cons c cs ih =>
    have size := c.utf8Size_pos
    cases n with
    | zero =>
      refine List.countP_eq_zero.2 fun start mem => ?_
      have := startsAfterBreaks_gt start mem
      simp only [decide_eq_true_eq]
      omega
    | succ n =>
      have rest : (startsAfterBreaks (pos + c.utf8Size) cs).countP (· ≤ pos + (n + 1)) =
          (takeBytes (n + 1 - c.utf8Size) cs).count '\n' := by
        rw [← ih]
        -- the bytes may end within the first character, before which no later line starts
        by_cases within : c.utf8Size ≤ n + 1
        · rw [show pos + c.utf8Size + (n + 1 - c.utf8Size) = pos + (n + 1) by omega]
        · rw [List.countP_eq_zero.2, List.countP_eq_zero.2] <;>
            intro start mem <;> have := startsAfterBreaks_gt start mem <;>
            simp only [decide_eq_true_eq] <;> omega
      simp only [startsAfterBreaks, takeBytes]
      split
      · next feed =>
        subst feed
        rw [List.countP_cons_of_pos (by simp [show '\n'.utf8Size = 1 from rfl]), rest,
          List.count_cons_self]
      · next other => rw [rest, List.count_cons_of_ne other]

theorem startsAfterBreaks_length (pos : Nat) (cs : List Char) :
    (startsAfterBreaks pos cs).length = cs.count '\n' := by
  induction cs generalizing pos with
  | nil => rfl
  | cons c cs ih =>
    simp only [startsAfterBreaks]
    split
    · next feed => rw [List.length_cons, ih, feed, List.count_cons_self]
    · next other => rw [ih, List.count_cons_of_ne other]

theorem lineCount_ofText (text : List Char) : (ofText text).lineCount = text.count '\n' + 1 := by
  rw [lineCount, ofText, List.length_cons, List.length_map, startsAfterBreaks_length]

section Small

variable {text : List Char}

/-- No start of a line is lost in a text whose offsets fit. -/
theorem ofText_starts (small : byteLength text < offsetCount) :
    (ofText text).starts = 0 :: startsAfterBreaks 0 text := by
  have kept : (startsAfterBreaks 0 text).map stored = (startsAfterBreaks 0 text).map id := by
    refine List.map_congr_left fun start mem => ?_
    have := startsAfterBreaks_le start mem
    exact stored_of_lt (by omega)
  rw [ofText, kept, List.map_id]

theorem starts_ascend (small : byteLength text < offsetCount) :
    (ofText text).starts.Pairwise (· < ·) := by
  rw [ofText_starts small]
  exact List.pairwise_cons.2 ⟨startsAfterBreaks_gt, startsAfterBreaks_ascend 0 text⟩

theorem starts_le_count (small : byteLength text < offsetCount) (pos : Nat) :
    (ofText text).starts.countP (· ≤ pos) = (takeBytes pos text).count '\n' + 1 := by
  have behind := startsAfterBreaks_count 0 pos text
  rw [Nat.zero_add] at behind
  rw [ofText_starts small, List.countP_cons_of_pos (by simp), behind]

/-- Where offsets fit, the numbers of the lines do too. -/
theorem lineCount_le (small : byteLength text < offsetCount) :
    (ofText text).starts.length ≤ offsetCount := by
  have feeds := List.count_le_length (a := '\n') (l := text)
  have bytes := length_le_byteLength text
  have lines : (ofText text).starts.length = text.count '\n' + 1 := lineCount_ofText text
  omega

end Small

/-! ## Searching -/

section Search

variable {m : LineMap} {pos : Nat}

/-- As long as the last start at or before `pos` is in the stretch, halving leads to it. -/
theorem narrow_eq {starts : List Nat} (ascending : starts.Pairwise (· < ·)) {first size : Nat}
    (within : first + size ≤ starts.length) (low : first ≤ starts.countP (· ≤ pos) - 1)
    (high : starts.countP (· ≤ pos) ≤ first + size) :
    narrow starts pos first size = starts.countP (· ≤ pos) - 1 := by
  fun_induction narrow starts pos first size with
  | case1 first size more half before ih =>
    have entry : starts[first + half]? = some (starts.getD (first + half) 0) := by
      rw [List.getD_eq_getElem _ _ (by omega), List.getElem?_eq_getElem]
    have := (ascending_le_iff ascending entry pos).1 before
    exact ih (by omega) (by omega) (by omega)
  | case2 first size more half behind ih =>
    have entry : starts[first + half]? = some (starts.getD (first + half) 0) := by
      rw [List.getD_eq_getElem _ _ (by omega), List.getElem?_eq_getElem]
    have := mt (ascending_le_iff ascending entry pos).2 behind
    exact ih (by omega) (by omega) (by omega)
  | case3 first size single => omega

/-- A search ends at the last line that starts at or before the offset, or right behind it. -/
theorem search_eq (ascending : m.starts.Pairwise (· < ·)) {line : Nat}
    (count : m.starts.countP (· ≤ pos) = line + 1) :
    ∃ start, m.starts[line]? = some start ∧ start ≤ pos ∧
      m.search pos = if start = pos then .hit line else .gap (line + 1) := by
  have length := m.starts.countP_le_length (p := (decide <| · ≤ pos))
  have found : narrow m.starts pos 0 m.starts.length = line := by
    rw [narrow_eq ascending (by omega) (by omega) (by omega), count, Nat.add_sub_cancel]
  have entry : m.starts[line]? = some m.starts[line] := List.getElem?_eq_getElem (by omega)
  have le : m.starts[line] ≤ pos := (ascending_le_iff ascending entry pos).2 (by omega)
  refine ⟨_, entry, le, ?_⟩
  rw [search, found, entry]
  dsimp only
  split
  · rfl
  · next other => rw [if_pos (by omega)]

theorem lineOf_eq (ascending : m.starts.Pairwise (· < ·)) (fit : m.starts.length ≤ offsetCount)
    {line : Nat} (count : m.starts.countP (· ≤ pos) = line + 1) : m.lineOf pos = line := by
  obtain ⟨start, entry, -, found⟩ := search_eq ascending count
  obtain ⟨lt, -⟩ := List.getElem?_eq_some_iff.1 entry
  rw [lineOf, found]
  split <;> next h => split at h <;> cases h; exact stored_of_lt (by omega)

end Search

/-- What looking up an offset tells: how many line feeds stand before it, and how far behind the
last of them it is. -/
structure Locates (text : List Char) (pos : Nat) : Prop where
  line : (ofText text).lineOf pos = (takeBytes pos text).count '\n'
  /-- No line has to be put in front of the first one, so counting down comes to a line. -/
  counts_down : ∀ next, (ofText text).search pos = .gap next → 0 < next
  line_lt : (ofText text).lineOf pos < (ofText text).lineCount
  start_le : (ofText text).lineStart ((ofText text).lineOf pos) ≤ pos
  lt_next : (ofText text).lineOf pos + 1 < (ofText text).lineCount →
    pos < (ofText text).lineStart ((ofText text).lineOf pos + 1)
  locate : (ofText text).locate pos = ⟨(ofText text).lineOf pos,
    pos - (ofText text).lineStart ((ofText text).lineOf pos)⟩
  lineCount : (ofText text).lineCount = text.count '\n' + 1

/-- Where the last offset of 32 bits is looked up rightly, every line starts at such an offset: the
start of a later line wraps around, so it is not behind that offset. -/
theorem Locates.starts_lt {text : List Char} (exact : Locates text (offsetCount - 1)) :
    ∀ start ∈ startsAfterBreaks 0 text, start < offsetCount := by
  refine fun start mem => Nat.lt_of_not_ge fun large => ?_
  have before := startsAfterBreaks_count 0 (offsetCount - 1) text
  rw [Nat.zero_add, ← exact.line] at before
  have fewer : (startsAfterBreaks 0 text).countP (· ≤ offsetCount - 1) <
      (startsAfterBreaks 0 text).length := by
    have := startsAfterBreaks_gt start mem
    exact List.countP_lt_length_iff.2 ⟨start, mem, decide_eq_false (by omega)⟩
  rw [before] at fewer
  have more : (ofText text).lineOf (offsetCount - 1) + 1 < (ofText text).lineCount := by
    rw [lineCount_ofText, ← startsAfterBreaks_length 0]
    omega
  have behind := exact.lt_next more
  have next : (ofText text).lineStart ((ofText text).lineOf (offsetCount - 1) + 1) < offsetCount := by
    have bound : ∀ start ∈ (ofText text).starts, start < offsetCount :=
      List.forall_mem_cons.2 ⟨by decide, List.forall_mem_map.2 fun _ _ => Nat.mod_lt _ (by decide)⟩
    rw [lineStart, List.getD_eq_getElem _ _ more]
    exact bound _ (List.getElem_mem _)
  omega

/-- In a text whose offsets fit, every offset is found on the line that holds it, also behind the
end of the text. -/
theorem lookup_exact (text : List Char) (small : byteLength text < offsetCount) (pos : Nat) :
    Locates text pos := by
  have ascending := starts_ascend small
  have count := starts_le_count small pos
  have line := lineOf_eq ascending (lineCount_le small) count
  obtain ⟨start, entry, le, found⟩ := search_eq ascending count
  obtain ⟨lt, -⟩ := List.getElem?_eq_some_iff.1 entry
  refine ⟨line, fun next gap => ?_, line ▸ lt, ?_, fun more => ?_, rfl, lineCount_ofText text⟩
  · rw [found] at gap
    split at gap <;> cases gap
    exact Nat.succ_pos _
  · rwa [line, lineStart, List.getD_eq_getElem?_getD, entry, Option.getD_some]
  · rw [line] at more ⊢
    rw [lineStart, List.getD_eq_getElem _ _ more]
    have next := ascending_le_iff ascending (List.getElem?_eq_getElem more) pos
    omega

/-- A line holds the line feed that ends it, and the last one all offsets behind the text: the two
bytes of the second line and an offset far behind it are on line 1, which starts at offset 2. -/
theorem lookup_two_lines :
    byteLength "a\n\u00e9".toList < offsetCount ∧
      (ofText "a\n\u00e9".toList).starts = [0, 2] ∧
      [0, 1, 2, 3, 9].map (ofText "a\n\u00e9".toList).lineOf = [0, 0, 1, 1, 1] ∧
      (ofText "a\n\u00e9".toList).locate 9 = ⟨1, 7⟩ := by
  have small : byteLength "a\n\u00e9".toList < offsetCount := by decide +kernel
  have starts : (ofText "a\n\u00e9".toList).starts = [0, 2] := by decide +kernel
  have at9 := lookup_exact "a\n\u00e9".toList small 9
  refine ⟨small, starts, by decide +kernel, ?_⟩
  rw [at9.locate, at9.line, lineStart, starts]
  decide +kernel

end LineMap
end FactorySync

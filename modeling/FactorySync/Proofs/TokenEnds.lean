import FactorySync.Proofs.Lexemes
import FactorySync.Proofs.Reading

/-!
# No token ends in a line break

A line break of two characters is never cut in two: no token ends with a carriage return that a line
feed follows (`Lexeme.TakenFrom.not_parts`). Outside quotes no token has a carriage return at all;
a string or regular expression that is not closed ends in front of the line break, and an escaped
line break is taken as a whole. So wherever a parser gets to in a text of which the line feeds all
follow carriage returns, no line feed stands behind what it consumed (`Parse.Run.notFeed`).
-/

namespace FactorySync

/-- The first `n` characters end with a carriage return and a line feed follows. -/
def Parts (cs : List Char) (n : Nat) : Prop :=
  (cs.take n).getLast? = some '\r' ∧ (cs.drop n).head? = some '\n'

theorem not_parts_zero (cs : List Char) : ¬ Parts cs 0 := fun h => by
  have last := h.1
  rw [List.take_zero] at last
  cases last

theorem Parts.of_cons {c : Char} {cs : List Char} {n : Nat} (h : Parts (c :: cs) (n + 1)) :
    (n = 0 ∧ c = '\r' ∧ cs.head? = some '\n') ∨ Parts cs n := by
  obtain ⟨last, feed⟩ := h
  rw [List.take_succ_cons, List.getLast?_cons] at last
  rw [List.drop_succ_cons] at feed
  cases n with
  | zero => exact .inl ⟨rfl, by simpa using last, by simpa using feed⟩
  | succ n =>
    cases cs with
    | nil => simp at feed
    | cons d cs => exact .inr ⟨by simpa [List.getLast?_cons] using last, feed⟩

theorem Parts.cons {c : Char} {cs : List Char} {n : Nat}
    (h : (n = 0 ∧ c = '\r' ∧ cs.head? = some '\n') ∨ Parts cs n) : Parts (c :: cs) (n + 1) := by
  refine ⟨?_, ?_⟩
  · rw [List.take_succ_cons, List.getLast?_cons]
    rcases h with ⟨rfl, rfl, -⟩ | ⟨last, -⟩
    · rw [List.take_zero]
      rfl
    · rw [last]
      rfl
  · rw [List.drop_succ_cons]
    rcases h with ⟨rfl, -, feed⟩ | ⟨-, feed⟩
    · exact feed
    · exact feed

/-- One character more in front matters only if nothing else is in front. -/
theorem not_parts_cons {c : Char} {cs : List Char} {n : Nat} (hc : c ≠ '\r') (h : ¬ Parts cs n) :
    ¬ Parts (c :: cs) (n + 1) :=
  fun parts => parts.of_cons.elim (fun first => hc first.2.1) h

theorem not_parts_of_not_mem {cs : List Char} {n : Nat} (h : '\r' ∉ cs.take n) : ¬ Parts cs n :=
  fun parts => h (List.mem_of_getLast? parts.1)

/-- The characters of a run are no carriage returns if none of its class is one. -/
theorem not_mem_run {p : Char → Bool} (hp : p '\r' = false) (cs : List Char) :
    '\r' ∉ cs.take (cs.takeWhile p).length := fun mem => by
  rw [← List.prefix_iff_eq_take.1 (List.takeWhile_prefix p)] at mem
  have := List.all_eq_true.1 List.all_takeWhile _ mem
  rw [hp] at this
  cases this

theorem not_mem_take_add {cs : List Char} {m n : Nat} (hm : '\r' ∉ cs.take m)
    (hn : '\r' ∉ (cs.drop m).take n) : '\r' ∉ cs.take (m + n) := by
  rw [List.take_add]
  exact fun mem => (List.mem_append.1 mem).elim hm hn

theorem not_mem_take_cons {c : Char} {cs : List Char} {n : Nat} (hc : c ≠ '\r')
    (hn : '\r' ∉ cs.take n) : '\r' ∉ (c :: cs).take (n + 1) := by
  rw [List.take_succ_cons]
  exact fun mem => (List.mem_cons.1 mem).elim (fun same => hc same.symm) hn

namespace Lexeme

/-! ## Quoted text -/

theorem bracedHex_noReturn (cs : List Char) :
    '\r' ∉ ('u' :: '\x7b' :: cs).take (bracedHex cs).size := by
  have size : (bracedHex cs).size = (cs.takeWhile CharClass.isHexDigit).length +
      (if (cs.drop (cs.takeWhile CharClass.isHexDigit).length).head? = some '\x7d' then 1 else 0) +
      1 + 1 := by
    simp only [bracedHex]
    omega
  rw [size]
  refine not_mem_take_cons (by decide) (not_mem_take_cons (by decide)
    (not_mem_take_add (not_mem_run (by decide) cs) ?_))
  split
  · next closes =>
    obtain ⟨rest, closes⟩ := List.head?_eq_some_iff.1 closes
    rw [closes]
    simp
  · simp

theorem fixedHex_not_parts {n : Nat} {c : Char} {cs : List Char} (hc : c ≠ '\r') :
    ¬ Parts (c :: cs) (fixedHex n cs).size := by
  unfold fixedHex
  dsimp only
  split
  · next digits =>
    simp only [Bool.and_eq_true, List.all_eq_true] at digits
    refine not_parts_of_not_mem (not_mem_take_cons hc fun mem => ?_)
    exact absurd (digits.2 _ mem) (by decide)
  · exact not_parts_cons hc (not_parts_zero cs)

/-- An escaped line break is taken as a whole. -/
theorem escape_not_parts (cs : List Char) : ¬ Parts cs (escape cs).size := by
  have single {c : Char} {cs : List Char} (hc : c ≠ '\r') : ¬ Parts (c :: cs) 1 :=
    not_parts_cons hc (not_parts_zero cs)
  fun_cases escape cs with
  | case1 => exact not_parts_zero _
  | case9 cs => exact fixedHex_not_parts (by decide)
  | case10 cs => exact not_parts_of_not_mem (bracedHex_noReturn cs)
  | case11 cs => exact fixedHex_not_parts (by decide)
  | case12 cs =>
    intro h
    rcases Parts.of_cons h with ⟨two, -⟩ | h
    · cases two
    · exact single (by decide) h
  | case13 c cs _ _ _ _ _ _ _ _ _ _ other =>
    intro h
    rcases Parts.of_cons h with ⟨-, rfl, feed⟩ | h
    · obtain ⟨rest, rfl⟩ := List.head?_eq_some_iff.1 feed
      exact other rest rfl rfl
    · exact not_parts_zero cs h
  | _ => exact single (by decide)

/-- Characters that are passed over with an escape end no token. -/
theorem not_parts_skip {c : Char} {cs : List Char} {skip size : Nat}
    (h : ¬ Parts (c :: cs) (skip + 1)) (ih : ¬ Parts cs skip → ¬ Parts cs size)
    (more : size = 0 → skip = 0 ∨ cs = []) : ¬ Parts (c :: cs) (size + 1) := by
  intro parts
  rcases parts.of_cons with ⟨none, return_, feed⟩ | parts
  · rcases more none with rfl | rfl
    · exact h (.cons (.inl ⟨rfl, return_, feed⟩))
    · cases feed
  · exact ih (fun parts => h (.cons (.inr parts))) parts

theorem stringBody_not_parts {quote : Char} (hquote : quote ≠ '\r') {skip : Nat} {cs : List Char}
    (h : ¬ Parts cs skip) : ¬ Parts cs (stringBody quote skip cs).size := by
  fun_induction stringBody quote skip cs with
  | case1 => exact not_parts_zero _
  | case2 skip c cs ih =>
    refine not_parts_skip h ih fun none => ?_
    cases skip with
    | zero => exact .inl rfl
    | succ skip =>
      cases cs with
      | nil => exact .inr rfl
      | cons d cs => cases none
  | case3 cs => exact not_parts_cons hquote (not_parts_zero cs)
  | case4 cs e _ ih => exact not_parts_cons (by decide) (ih (escape_not_parts cs))
  | case5 c cs => exact not_parts_zero _
  | case6 c cs _ _ other ih =>
    have line : c ≠ '\r' := fun isReturn => other (by simp [isReturn])
    exact not_parts_cons line (ih (not_parts_zero cs))

theorem templateBody_not_parts {skip : Nat} {cs : List Char}
    (h : ¬ Parts cs skip) : ¬ Parts cs (templateBody skip cs).size := by
  fun_induction templateBody skip cs with
  | case1 => exact not_parts_zero _
  | case2 skip c cs ih =>
    refine not_parts_skip h ih fun none => ?_
    cases skip with
    | zero => exact .inl rfl
    | succ skip =>
      cases cs with
      | nil => exact .inr rfl
      | cons d cs => cases none
  | case3 cs => exact not_parts_cons (by decide) (not_parts_zero cs)
  | case4 c cs _ opens =>
    simp only [Bool.and_eq_true, decide_eq_true_eq] at opens
    obtain ⟨rest, rfl⟩ := List.head?_eq_some_iff.1 opens.2
    exact not_parts_cons (by simp [opens.1]) (not_parts_cons (by decide) (not_parts_zero _))
  | case5 cs _ _ e ih => exact not_parts_cons (by decide) (ih (escape_not_parts cs))
  | case6 cs _ _ _ ih =>
    -- a line feed behind the carriage return is passed over with it
    intro parts
    by_cases feed : cs.head? = some '\n'
    · obtain ⟨rest, rfl⟩ := List.head?_eq_some_iff.1 feed
      rw [if_pos feed] at parts ih
      rcases parts.of_cons with ⟨none, -⟩ | parts
      · cases none
      · exact ih (not_parts_cons (by decide) (not_parts_zero rest)) parts
    · rw [if_neg feed] at parts ih
      exact parts.of_cons.elim (fun first => feed first.2.2) (ih (not_parts_zero cs))
  | case7 c cs _ _ _ line ih => exact not_parts_cons line (ih (not_parts_zero cs))

theorem regularExpressionBody_not_parts (inClass : Bool) (cs : List Char) :
    ¬ Parts cs (regularExpressionBody inClass cs).1 := by
  fun_induction regularExpressionBody inClass cs with
  | case1 => exact not_parts_zero _
  | case2 inClass c cs => exact not_parts_cons (by decide) (not_parts_zero _)
  | case3 inClass c cs line rest ih =>
    have hc : c ≠ '\r' := fun isReturn => line (by rw [isReturn]; rfl)
    exact not_parts_cons (by decide) (not_parts_cons hc ih)
  | case4 inClass c cs => exact not_parts_zero _
  | case5 inClass c cs _ _ closes =>
    rw [Nat.add_comm]
    simp only [Bool.and_eq_true, decide_eq_true_eq] at closes
    exact not_parts_of_not_mem
      (not_mem_take_cons (by simp [closes.1]) (not_mem_run (by decide) cs))
  | case6 inClass c cs _ line _ rest ih =>
    have hc : c ≠ '\r' := fun isReturn => line (by rw [isReturn]; rfl)
    exact not_parts_cons hc ih

/-! ## Numbers and other tokens -/

theorem digitRun_noReturn {isDigit : Char → Bool} (h : isDigit '\r' = false) (cs : List Char) :
    '\r' ∉ cs.take (digitRun isDigit cs) :=
  not_mem_run (by simp [h]) cs

theorem fraction_noReturn (cs : List Char) : '\r' ∉ cs.take (fraction cs) := by
  unfold fraction
  split
  · rw [Nat.add_comm]
    exact not_mem_take_cons (by decide) (digitRun_noReturn (by decide) _)
  · simp

theorem exponent_noReturn (cs : List Char) : '\r' ∉ cs.take (exponent cs) := by
  unfold exponent
  split
  · next c cs =>
    split
    · next mark =>
      have hc : c ≠ '\r' := fun isReturn => by simp [isReturn] at mark
      dsimp only
      rw [Nat.add_assoc, Nat.add_comm]
      refine not_mem_take_cons hc (not_mem_take_add ?_ (digitRun_noReturn (by decide) _))
      split
      · next sign =>
        simp only [Bool.or_eq_true, decide_eq_true_eq] at sign
        rcases sign with sign | sign
        all_goals
          obtain ⟨rest, rfl⟩ := List.head?_eq_some_iff.1 sign
          simp
      · simp
    · simp
  · simp

theorem radix?_noReturn {c : Char} {flags : TokenFlags} {isDigit : Char → Bool}
    (h : radix? c = some (flags, isDigit)) : c ≠ '\r' ∧ isDigit '\r' = false := by
  unfold radix? at h
  split at h <;> cases h <;> decide

theorem numberForm_noReturn (cs : List Char) : '\r' ∉ cs.take (numberForm cs).1 := by
  have decimal : '\r' ∉ cs.take (numberForm.decimal cs).1 := by
    simp only [numberForm.decimal]
    refine not_mem_take_add (not_mem_take_add (digitRun_noReturn (by decide) cs)
      (fraction_noReturn _)) ?_
    exact exponent_noReturn _
  unfold numberForm
  split
  · next c rest =>
    split
    · next flags isDigit radix =>
      obtain ⟨hc, hdigit⟩ := radix?_noReturn radix
      rw [Nat.add_comm]
      exact not_mem_take_cons (by decide) (not_mem_take_cons hc (digitRun_noReturn hdigit rest))
    · exact decimal
  · exact decimal

theorem number_noReturn (cs : List Char) : '\r' ∉ cs.take (number cs).size := by
  simp only [number]
  split
  · next isBig =>
    obtain ⟨rest, behind⟩ := List.head?_eq_some_iff.1 isBig
    exact not_mem_take_add (numberForm_noReturn cs) (by rw [behind]; simp)
  · exact numberForm_noReturn cs

theorem spellings_noReturn : ∀ entry ∈ spellings, '\r' ∉ entry.1 := by
  decide

theorem punctuation?_noReturn {cs : List Char} {l : Lexeme} (h : punctuation? cs = some l) :
    '\r' ∉ cs.take l.size := by
  obtain ⟨entry, hfind, rfl⟩ := Option.map_eq_some_iff.1 h
  have hfits := List.find?_some hfind
  simp only [fits, Bool.and_eq_true] at hfits
  obtain ⟨rest, rfl⟩ := List.isPrefixOf_iff_prefix.1 hfits.1
  simpa using spellings_noReturn entry (List.mem_of_find?_eq_some hfind)

theorem afterGreaterThan_noReturn (cs : List Char) :
    '\r' ∉ ('>' :: cs).take ((afterGreaterThan cs).2 + 1) := by
  unfold afterGreaterThan
  split <;> simp

theorem ofChars_not_parts {c : Char} {cs : List Char} (hc : c ≠ '\r') :
    ¬ Parts (c :: cs) (ofChars c cs).size := by
  unfold ofChars
  split
  · exact not_parts_cons hc (stringBody_not_parts hc (not_parts_zero cs))
  split
  · exact not_parts_cons hc (templateBody_not_parts (not_parts_zero cs))
  split
  · exact not_parts_of_not_mem (number_noReturn _)
  split
  · exact not_parts_of_not_mem (not_mem_run (by decide) _)
  split
  · next h => exact not_parts_of_not_mem (punctuation?_noReturn h)
  · exact not_parts_cons hc (not_parts_zero cs)

/-- No token ends between a carriage return and a line feed. -/
theorem TakenFrom.not_parts {l : Lexeme} {c : Char} {cs : List Char} (h : l.TakenFrom (c :: cs))
    (hc : c ≠ '\r') : ¬ Parts (c :: cs) l.size := by
  cases h with
  | next => exact ofChars_not_parts hc
  | greaterThan => exact not_parts_of_not_mem (afterGreaterThan_noReturn cs)
  | slash => exact not_parts_cons hc (regularExpressionBody_not_parts false cs)
  | template => exact not_parts_cons hc (templateBody_not_parts (not_parts_zero cs))

end Lexeme
end FactorySync

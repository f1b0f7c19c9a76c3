import FactorySync.Token.Lexeme

/-!
# Lexemes never take more than there is
-/

namespace FactorySync
namespace Lexeme

/-- The lexemes that are taken from the front of a text, at first or when a token is read again. -/
inductive TakenFrom : Lexeme → List Char → Prop
  | next (c : Char) (cs : List Char) : TakenFrom (.ofChars c cs) (c :: cs)
  | greaterThan (cs : List Char) :
    TakenFrom { kind := (afterGreaterThan cs).1, size := (afterGreaterThan cs).2 + 1 } ('>' :: cs)
  | slash (c : Char) (cs : List Char) : TakenFrom (.regularExpression (c :: cs)) (c :: cs)
  | template (c : Char) (cs : List Char) :
    TakenFrom (.template .templateTail .templateMiddle cs) (c :: cs)

/-! ## Quoted text -/

theorem stringBody_size_le (quote : Char) (skip : Nat) (cs : List Char) :
    (stringBody quote skip cs).size ≤ cs.length := by
  fun_induction stringBody quote skip cs with
  | case1 => exact Nat.zero_le _
  | case2 skip c cs ih => simpa [Body.after] using ih
  | case3 cs => simp
  | case4 cs e _ ih => simpa [Body.afterEscape] using ih
  | case5 c cs => exact Nat.zero_le _
  | case6 c cs _ _ _ ih => simpa [Body.cons] using ih

theorem templateBody_size_le (skip : Nat) (cs : List Char) :
    (templateBody skip cs).size ≤ cs.length := by
  fun_induction templateBody skip cs with
  | case1 => exact Nat.zero_le _
  | case2 skip c cs ih => simpa [Body.after] using ih
  | case3 cs => simp
  | case4 c cs _ opens =>
    cases cs with
    | nil => simp at opens
    | cons d ds => simp
  | case5 cs _ _ e ih => simpa [Body.afterEscape] using ih
  | case6 cs _ _ _ ih => simpa [Body.cons] using ih
  | case7 c cs _ _ _ _ ih => simpa [Body.cons] using ih

theorem regularExpressionBody_size_le (inClass : Bool) (cs : List Char) :
    (regularExpressionBody inClass cs).1 ≤ cs.length := by
  fun_induction regularExpressionBody inClass cs with
  | case1 => exact Nat.zero_le _
  | case2 inClass c cs => simp
  | case3 inClass c cs _ rest ih => simpa using ih
  | case4 inClass c cs => exact Nat.zero_le _
  | case5 inClass c cs =>
    have flags := (cs.takeWhile_sublist CharClass.isIdentifierPart).length_le
    simp only [List.length_cons]
    omega
  | case6 inClass c cs _ _ _ rest ih => simpa using ih

/-! ## Numbers -/

theorem digitRun_le (isDigit : Char → Bool) (cs : List Char) : digitRun isDigit cs ≤ cs.length :=
  (List.takeWhile_sublist _).length_le

theorem fraction_le (cs : List Char) : fraction cs ≤ cs.length := by
  unfold fraction
  split
  · next cs =>
    have := digitRun_le CharClass.isDigit cs
    simp only [List.length_cons]
    omega
  · exact Nat.zero_le _

theorem exponent_le (cs : List Char) : exponent cs ≤ cs.length := by
  unfold exponent
  split
  · next c cs =>
    split
    · dsimp only
      split
      · next signed =>
        cases cs with
        | nil => simp at signed
        | cons sign cs =>
          have digits := digitRun_le CharClass.isDigit cs
          simp only [List.drop_succ_cons, List.drop_zero, List.length_cons]
          omega
      · have digits := digitRun_le CharClass.isDigit cs
        simp only [List.drop_zero, List.length_cons]
        omega
    · exact Nat.zero_le _
  · exact Nat.zero_le _

theorem numberForm_le (cs : List Char) : (numberForm cs).1 ≤ cs.length := by
  have decimal : (numberForm.decimal cs).1 ≤ cs.length := by
    have whole := digitRun_le CharClass.isDigit cs
    have point := fraction_le (cs.drop (digitRun CharClass.isDigit cs))
    have power := exponent_le (cs.drop (digitRun CharClass.isDigit cs +
      fraction (cs.drop (digitRun CharClass.isDigit cs))))
    simp only [List.length_drop] at point power
    simp only [numberForm.decimal]
    omega
  unfold numberForm
  split
  · next c rest =>
    split
    · next flags isDigit _ =>
      have digits := digitRun_le isDigit rest
      simp only [List.length_cons]
      omega
    · exact decimal
  · exact decimal

theorem number_size_le (cs : List Char) : (number cs).size ≤ cs.length := by
  have form := numberForm_le cs
  simp only [number]
  split
  · next isBig =>
    have : cs.drop (numberForm cs).1 ≠ [] := fun nothing => by simp [nothing] at isBig
    rw [ne_eq, List.drop_eq_nil_iff] at this
    omega
  · exact form

/-! ## Any token -/

theorem punctuation?_size_le {cs : List Char} {l : Lexeme} (h : punctuation? cs = some l) :
    l.size ≤ cs.length := by
  obtain ⟨entry, hfind, rfl⟩ := Option.map_eq_some_iff.1 h
  have hfits := List.find?_some hfind
  simp only [fits, Bool.and_eq_true] at hfits
  exact (List.isPrefixOf_iff_prefix.1 hfits.1).length_le

theorem ofChars_size_le (c : Char) (cs : List Char) : (ofChars c cs).size ≤ (c :: cs).length := by
  unfold ofChars
  split
  · exact Nat.succ_le_succ (stringBody_size_le c 0 cs)
  split
  · exact Nat.succ_le_succ (templateBody_size_le 0 cs)
  split
  · exact number_size_le _
  split
  · exact (List.takeWhile_sublist _).length_le
  split
  · next h => exact punctuation?_size_le h
  · exact Nat.succ_le_succ (Nat.zero_le _)

theorem afterGreaterThan_le (cs : List Char) : (afterGreaterThan cs).2 ≤ cs.length := by
  unfold afterGreaterThan
  split <;> simp

/-- No token takes more characters than there are. -/
theorem TakenFrom.size_le {l : Lexeme} {cs : List Char} (h : l.TakenFrom cs) :
    l.size ≤ cs.length := by
  cases h with
  | next c cs => exact ofChars_size_le c cs
  | greaterThan cs => exact Nat.succ_le_succ (afterGreaterThan_le cs)
  | slash c cs => exact Nat.succ_le_succ (regularExpressionBody_size_le false cs)
  | template c cs => exact Nat.succ_le_succ (templateBody_size_le 0 cs)

end Lexeme
end FactorySync

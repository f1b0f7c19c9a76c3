import FactorySync.Proofs.TokenStream

/-!
# How names are spelled

A name begins with a character that identifiers begin with and goes on with characters that they go
on with (`IsWord`); whether it is a keyword, and which one, depends on nothing else
(`Kind.ofName`). Every token that may name something is spelled so (`Scanner.next_named`).
-/

namespace FactorySync

/-- The spelling of a name or keyword. -/
def IsWord (name : String) : Prop :=
  ∃ c cs, name.toList = c :: cs ∧ CharClass.isIdentifierStart c = true ∧
    ∀ d ∈ cs, CharClass.isIdentifierPart d = true

instance (name : String) : Decidable (IsWord name) :=
  match text : name.toList with
  | [] => isFalse fun ⟨_, _, text', _⟩ => nomatch text.symm.trans text'
  | c :: cs =>
    decidable_of_iff (CharClass.isIdentifierStart c = true ∧
        cs.all CharClass.isIdentifierPart = true)
      ⟨fun h => ⟨c, cs, text, h.1, List.all_eq_true.1 h.2⟩, fun ⟨_, _, text', h⟩ => by
        obtain ⟨rfl, rfl⟩ := List.cons.inj (text.symm.trans text')
        exact ⟨h.1, List.all_eq_true.2 h.2⟩⟩

/-- The kind of token that a name or keyword is. -/
def Kind.ofName (name : String) : Kind := (ofWord? name).getD .identifier

/-- The spelling of what may be declared: a name that is no reserved word. -/
structure IsName (name : String) : Prop where
  word : IsWord name
  kind : (Kind.ofName name).isName = true

instance (name : String) : Decidable (IsName name) :=
  decidable_of_iff (IsWord name ∧ (Kind.ofName name).isName = true)
    ⟨fun h => ⟨h.1, h.2⟩, fun h => ⟨h.word, h.kind⟩⟩

/-- A token that may name something is spelled like a name, and is the keyword it is spelled like. -/
def Token.Named (t : Token) : Prop :=
  t.kind.isPropertyWord = true → IsWord t.value ∧ Kind.ofName t.value = t.kind

namespace Kind

theorem isPropertyWord_of_isName {k : Kind} (h : k.isName = true) : k.isPropertyWord = true := by
  have word (text : String) (contextual : k.contextualText? = some text) : k.isWord = true := by
    rw [isWord, wordText?, contextual]
    cases k.reservedText? <;> rfl
  rw [isName, Bool.or_eq_true] at h
  rw [isPropertyWord, Bool.or_eq_true]
  refine h.imp id fun contextual => ?_
  obtain ⟨text, htext⟩ := Option.isSome_iff_exists.1 contextual
  exact word text htext

theorem spellings_isPropertyWord :
    ∀ entry ∈ Lexeme.spellings, entry.2.isPropertyWord = false := by
  decide +kernel

/-- Keywords are spelled like names. -/
theorem keyword_spelled : ∀ k ∈ reservedWords ++ contextualWords,
    IsWord (k.wordText?.getD "") ∧ ofName (k.wordText?.getD "") = k := by
  decide +kernel

/-- A name is a keyword that is spelled like it, or no keyword. -/
theorem ofName_cases (name : String) :
    ofName name = .identifier ∨ (ofName name).wordText? = some name := by
  cases found : ofWord? name with
  | none => exact .inl (by rw [ofName, found]; rfl)
  | some k =>
    right
    rw [ofName, found, Option.getD_some]
    obtain ⟨before, behind, entries, -⟩ := List.lookup_eq_some_iff.1 found
    have mem : (name, k) ∈ spelledWords := by simp [entries]
    obtain ⟨k', -, spelled⟩ := List.mem_filterMap.1 mem
    obtain ⟨x, text, pair⟩ := Option.map_eq_some_iff.1 spelled
    cases pair
    exact text

theorem isPropertyWord_ofName (name : String) : (ofName name).isPropertyWord = true := by
  obtain none | text := ofName_cases name
  · rw [none]
    rfl
  · rw [isPropertyWord, isWord, text]
    exact Bool.or_true _

/-- Only the keyword itself is spelled like it. -/
theorem eq_of_ofName {name text : String} {k : Kind} (kind : ofName name = k)
    (spelled : k.wordText? = some text) : name = text := by
  obtain none | spelled' := ofName_cases name
  · rw [← kind, none] at spelled
    cases spelled
  · rw [kind, spelled] at spelled'
    exact (Option.some_inj.1 spelled').symm

/-- No name comes of reading a token again. -/
theorem isPropertyWord_of_isReread {k : Kind} (h : k.isReread = true) : k.isPropertyWord = false := by
  unfold isReread at h
  split at h <;> first | rfl | cases h

end Kind

namespace Lexeme

/-- A lexeme that may name something is spelled like a name. -/
theorem ofChars_named {c : Char} {cs : List Char}
    (h : (ofChars c cs).kind.isPropertyWord = true) :
    IsWord (String.ofList (ofChars c cs).value) ∧
      Kind.ofName (String.ofList (ofChars c cs).value) = (ofChars c cs).kind := by
  unfold ofChars at h ⊢
  split at h
  · cases h
  split at h
  · simp only [template] at h
    split at h <;> cases h
  split at h
  · simp only [number] at h
    split at h <;> cases h
  split at h
  · next quote back digit start =>
    rw [if_neg quote, if_neg back, if_neg digit, if_pos start]
    refine ⟨⟨c, cs.takeWhile CharClass.isIdentifierPart, ?_, start, ?_⟩, rfl⟩
    · rw [String.toList_ofList]
      exact List.takeWhile_cons_of_pos (CharClass.isIdentifierPart_of_isIdentifierStart start)
    · exact List.all_eq_true.1 List.all_takeWhile
  split at h
  · next hp =>
    obtain ⟨entry, hfind, rfl⟩ := Option.map_eq_some_iff.1 hp
    rw [Kind.spellings_isPropertyWord entry (List.mem_of_find?_eq_some hfind)] at h
    cases h
  · cases h

end Lexeme

namespace Scanner

variable {s : Scanner}

theorem take_value (start : Nat) (flags : TokenFlags) (l : Lexeme) (cs : List Char) (s : Scanner) :
    (s.take start flags l cs).token.value = String.ofList l.value := by
  simp [take]

theorem next_named (s : Scanner) : s.next.token.Named := by
  intro h
  cases hahead : s.ahead with
  | nil =>
    obtain ⟨before, flags, -, hnext⟩ := next_of_ahead_nil hahead
    rw [hnext, take_kind] at h
    cases h
  | cons c cs =>
    obtain ⟨before, flags, -, hnext⟩ := next_of_ahead_cons hahead
    rw [hnext, take_kind] at h
    rw [hnext, take_kind, take_value]
    exact Lexeme.ofChars_named h

end Scanner
end FactorySync

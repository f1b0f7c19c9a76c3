import FactorySync.Proofs.Rows
import Mathlib.Data.List.Induction

/-!
# Types as terms

A `TypeTerm` is a type without its layout: references, type words, array and indexed types,
operators, intersections, unions, conditional types and types in parentheses. `TypeTerm.Fits` says
at which levels of the grammar a term may stand: where a tighter type is due a looser one needs
parentheses. A term that fits is printed on one line as a row of words (`TypeTerm.Fits.spells`), and
it is told by its tree (`TypeTerm.Fits.eq_of_tree`).
-/

namespace FactorySync

/-- A type without its layout. -/
inductive TypeTerm where
  /-- A dotted name with its arguments, if it has any. -/
  | reference (first : String) (others : List String) (arguments : List TypeTerm)
  /-- A word that is a type by itself. -/
  | word (k : Kind)
  | array (element : TypeTerm)
  | indexed (object index : TypeTerm)
  | operator (k : Kind) (operand : TypeTerm)
  | intersection (members : List TypeTerm)
  | union (members : List TypeTerm)
  | conditional (check bound whenTrue whenFalse : TypeTerm)
  | parenthesized (inner : TypeTerm)

/-- The levels of types, from the tightest to the loosest. -/
inductive TypeLevel where
  | postfixed
  | operator
  | intersection
  | union
  | whole
  deriving Repr, DecidableEq

namespace Kind

/-- The operators of types that a term may begin with. -/
def isTypeOperator (k : Kind) : Bool := k == .keyOfKeyword || k == .readonlyKeyword

end Kind

namespace TypeTerm

/-- The term may stand where a type of this level is due. -/
inductive Fits : TypeLevel → TypeTerm → Prop
  | reference {first : String} {others : List String} {arguments : List TypeTerm}
    (word : IsWord first) (plain : Kind.ofName first = .identifier)
    (words : ∀ x ∈ others, IsWord x) (fits : ∀ t ∈ arguments, Fits .whole t) :
    Fits .postfixed (.reference first others arguments)
  | word {k : Kind} (isType : k.isTypeWord = true) : Fits .postfixed (.word k)
  | array {t : TypeTerm} (element : Fits .postfixed t) : Fits .postfixed (.array t)
  | indexed {t u : TypeTerm} (object : Fits .postfixed t) (index : Fits .whole u) :
    Fits .postfixed (.indexed t u)
  | parenthesized {t : TypeTerm} (inner : Fits .whole t) : Fits .postfixed (.parenthesized t)
  | ofPostfixed {t : TypeTerm} (fits : Fits .postfixed t) : Fits .operator t
  | operator {k : Kind} {t : TypeTerm} (isOperator : k.isTypeOperator = true)
    (operand : Fits .operator t) : Fits .operator (.operator k t)
  | ofOperator {t : TypeTerm} (fits : Fits .operator t) : Fits .intersection t
  | intersection {t u : TypeTerm} {more : List TypeTerm}
    (fits : ∀ m ∈ t :: u :: more, Fits .operator m) :
    Fits .intersection (.intersection (t :: u :: more))
  | ofIntersection {t : TypeTerm} (fits : Fits .intersection t) : Fits .union t
  | union {t u : TypeTerm} {more : List TypeTerm}
    (fits : ∀ m ∈ t :: u :: more, Fits .intersection m) : Fits .union (.union (t :: u :: more))
  | ofUnion {t : TypeTerm} (fits : Fits .union t) : Fits .whole t
  /-- The type behind `extends` is no conditional type. -/
  | conditional {check bound whenTrue whenFalse : TypeTerm} (first : Fits .union check)
    (second : Fits .union bound) (third : Fits .whole whenTrue) (fourth : Fits .whole whenFalse) :
    Fits .whole (.conditional check bound whenTrue whenFalse)

/-- What may stand in front of brackets may stand wherever a type may. -/
theorem Fits.whole {t : TypeTerm} (fits : Fits .postfixed t) : Fits .whole t :=
  .ofUnion (.ofIntersection (.ofOperator (.ofPostfixed fits)))

/-- A name, perhaps with arguments. -/
theorem Fits.ofName {x : String} {ts : List TypeTerm} (word : IsWord x)
    (plain : Kind.ofName x = .identifier) (fits : ∀ t ∈ ts, Fits .whole t) :
    Fits .whole (.reference x [] ts) :=
  (Fits.reference word plain (List.forall_mem_nil _) fits).whole

/-! ## How deep terms are nested -/

mutual

/-- How many types stand within one another, each where a whole type is due. -/
def nesting : TypeTerm → Nat
  | .reference _ _ arguments => nestingInside arguments
  | .word _ => 0
  | .array element => element.nesting
  | .indexed object index => max object.nesting (index.nesting + 1)
  | .operator _ operand => operand.nesting
  | .intersection members => nestingAmong members
  | .union members => nestingAmong members
  | .conditional check bound whenTrue whenFalse =>
    max check.nesting (max bound.nesting (max whenTrue.nesting whenFalse.nesting) + 1)
  | .parenthesized inner => inner.nesting + 1

/-- The nesting of types that are one level deeper. -/
def nestingInside : List TypeTerm → Nat
  | [] => 0
  | t :: ts => max (t.nesting + 1) (nestingInside ts)

/-- The nesting of types on the same level. -/
def nestingAmong : List TypeTerm → Nat
  | [] => 0
  | t :: ts => max t.nesting (nestingAmong ts)

end

variable {t : TypeTerm} {ts : List TypeTerm} {n : Nat}

theorem nestingInside_le : nestingInside ts ≤ n ↔ ∀ t ∈ ts, t.nesting + 1 ≤ n := by
  induction ts with
  | nil => simp [nestingInside]
  | cons t ts ih => rw [nestingInside, Nat.max_le, ih, List.forall_mem_cons]

theorem nestingAmong_le : nestingAmong ts ≤ n ↔ ∀ t ∈ ts, t.nesting ≤ n := by
  induction ts with
  | nil => simp [nestingAmong]
  | cons t ts ih => rw [nestingAmong, Nat.max_le, ih, List.forall_mem_cons]

/-! ## Printing -/

mutual

/-- The term on one line. -/
def text : TypeTerm → List Char
  | .reference first others arguments =>
    first.toList ++ (others.flatMap ('.' :: ·.toList) ++
      if arguments.isEmpty then []
      else '<' :: [',', ' '].intercalate (texts arguments) ++ ['>'])
  | .word k => (k.wordText?.getD "").toList
  | .array element => element.text ++ ['[', ']']
  | .indexed object index => object.text ++ '[' :: (index.text ++ [']'])
  | .operator k operand => (k.wordText?.getD "").toList ++ ' ' :: operand.text
  | .intersection members => " & ".toList.intercalate (texts members)
  | .union members => " | ".toList.intercalate (texts members)
  | .conditional check bound whenTrue whenFalse =>
    check.text ++ (" extends ".toList ++ (bound.text ++ (" ? ".toList ++ (whenTrue.text ++
      (" : ".toList ++ whenFalse.text)))))
  | .parenthesized inner => '(' :: (inner.text ++ [')'])

def texts : List TypeTerm → List (List Char)
  | [] => []
  | t :: ts => t.text :: texts ts

end

theorem texts_eq (ts : List TypeTerm) : texts ts = ts.map text := by
  induction ts with
  | nil => rfl
  | cons t ts ih => rw [texts, ih, List.map_cons]

mutual

/-- The words of a term. -/
def words : TypeTerm → List Word
  | .reference first others arguments =>
    .name first :: (others.flatMap (fun x => [.mark .dot '.', .name x]) ++
      if arguments.isEmpty then []
      else .mark .lessThan '<' :: (Word.joined (.mark .comma ',') (rows arguments) ++
        [.mark .greaterThan '>']))
  | .word k => [.keyword k]
  | .array element => element.words ++ [.mark .openBracket '[', .mark .closeBracket ']']
  | .indexed object index =>
    object.words ++ .mark .openBracket '[' :: (index.words ++ [.mark .closeBracket ']'])
  | .operator k operand => .keyword k :: operand.words
  | .intersection members => Word.joined (.mark .ampersand '&') (rows members)
  | .union members => Word.joined (.mark .bar '|') (rows members)
  | .conditional check bound whenTrue whenFalse =>
    check.words ++ .keyword .extendsKeyword :: (bound.words ++ .mark .question '?' ::
      (whenTrue.words ++ .mark .colon ':' :: whenFalse.words))
  | .parenthesized inner => .mark .openParen '(' :: (inner.words ++ [.mark .closeParen ')'])

def rows : List TypeTerm → List (List Word)
  | [] => []
  | t :: ts => t.words :: rows ts

end

theorem rows_eq (ts : List TypeTerm) : rows ts = ts.map words := by
  induction ts with
  | nil => rfl
  | cons t ts ih => rw [rows, ih, List.map_cons]

/-! ## The text is the row of words -/

variable {l : TypeLevel} {tail cs : List Char} {ws : List Word}

theorem isWord_of_isTypeWord {k : Kind} (h : k.isTypeWord = true) :
    k ∈ Kind.reservedWords ++ Kind.contextualWords := by
  unfold Kind.isTypeWord at h
  split at h
  all_goals first | decide | cases h

theorem isWord_of_isTypeOperator {k : Kind} (h : k.isTypeOperator = true) :
    k ∈ Kind.reservedWords ++ Kind.contextualWords := by
  rw [Kind.isTypeOperator, Bool.or_eq_true, beq_iff_eq, beq_iff_eq] at h
  rcases h with rfl | rfl <;> decide

/-- What a type begins with. -/
def Begins (cs : List Char) : Prop :=
  ∃ c ds, cs = c :: ds ∧ (CharClass.isIdentifierStart c = true ∨ c = '(')

theorem Begins.append (h : Begins cs) (ds : List Char) : Begins (cs ++ ds) := by
  obtain ⟨c, cs, rfl, begins⟩ := h
  exact ⟨c, cs ++ ds, rfl, begins⟩

theorem begins_of_isWord {x : String} (word : IsWord x) : Begins x.toList := by
  obtain ⟨c, cs, text, start, -⟩ := word
  exact ⟨c, cs, text, .inl start⟩

theorem begins_of_keyword {k : Kind} (isWord : k ∈ Kind.reservedWords ++ Kind.contextualWords) :
    Begins (k.wordText?.getD "").toList :=
  begins_of_isWord (Kind.keyword_spelled k isWord).1

theorem Begins.intercalate {sep : List Char} (h : Begins t.text) :
    Begins (sep.intercalate (texts (t :: ts))) := by
  rw [texts]
  cases ts with
  | nil => rwa [texts, List.intercalate_singleton]
  | cons u us =>
    rw [texts, List.intercalate_cons_cons, List.append_assoc]
    exact h.append _

theorem Fits.begins (fits : Fits l t) : Begins t.text := by
  induction fits with
  | reference word => exact (begins_of_isWord word).append _
  | word isType => exact begins_of_keyword (isWord_of_isTypeWord isType)
  | array _ ih => exact ih.append _
  | indexed _ _ ih => exact ih.append _
  | parenthesized => exact ⟨'(', _, rfl, .inr rfl⟩
  | operator isOperator => exact (begins_of_keyword (isWord_of_isTypeOperator isOperator)).append _
  | intersection _ ih => exact (ih _ (.head _)).intercalate
  | union _ ih => exact (ih _ (.head _)).intercalate
  | conditional _ _ _ _ ih => exact ih.append _
  | ofPostfixed _ ih => exact ih
  | ofOperator _ ih => exact ih
  | ofIntersection _ ih => exact ih
  | ofUnion _ ih => exact ih

section Spelling

open Word

/-- Neither a dot nor an angle bracket becomes another mark in front of a type. -/
theorem not_continuing {c d : Char} (mark : c ∈ ['.', '<'])
    (start : CharClass.isIdentifierStart d = true ∨ d = '(') : d ∉ Lexeme.continuing c := by
  have apart : (['.', '<'].all fun c => (Lexeme.continuing c).all fun d =>
      !CharClass.isIdentifierStart d && d != '(') = true := by decide +kernel
  intro more
  have other := List.all_eq_true.1 (List.all_eq_true.1 apart c mark) d more
  simp only [Bool.and_eq_true, Bool.not_eq_true', bne_iff_ne] at other
  rw [other.1] at start
  exact start.elim nofun other.2

theorem endsName_dots {others : List String} (ends : EndsName cs) :
    EndsName (others.flatMap ('.' :: ·.toList) ++ cs) := by
  cases others with
  | nil => exact ends
  | cons => exact endsName_cons (by decide)

/-- Names with a dot in front of each. -/
theorem dots_spell {others : List String} (words : ∀ x ∈ others, IsWord x) (h : Spells tail cs ws)
    (ends : EndsName cs) : Spells tail (others.flatMap ('.' :: ·.toList) ++ cs)
      (others.flatMap (fun x => [.mark .dot '.', .name x]) ++ ws) := by
  induction others with
  | nil => exact h
  | cons x others ih =>
    obtain ⟨word, words⟩ := List.forall_mem_cons.1 words
    have named := (ih words).name word (endsName_dots ends)
    have before : (Word.mark .dot '.').Before
        (x.toList ++ (others.flatMap ('.' :: ·.toList) ++ cs)) := by
      obtain ⟨c, ds, text, start, -⟩ := word
      rw [text]
      refine before_mark (isMark_of_mem (_, _) (by decide)) fun d hd => ?_
      obtain rfl := Option.some_inj.1 hd
      exact ⟨not_continuing (by decide) (.inl start), fun _ => CharClass.not_digit_of_start start⟩
    have all := Spells.word rfl before named
    rw [List.flatMap_cons, List.flatMap_cons]
    simpa [Word.mark] using all

theorem angle_spells (begins : Begins cs) (h : Spells tail cs ws) :
    Spells tail ('<' :: cs) (.mark .lessThan '<' :: ws) := by
  have before : (Word.mark .lessThan '<').Before cs := by
    refine before_mark (isMark_of_mem (_, _) (by decide)) fun d hd => ?_
    obtain ⟨c, ds, rfl, start⟩ := begins
    obtain rfl := Option.some_inj.1 hd
    exact ⟨not_continuing (by decide) start, nofun⟩
  exact .word rfl before h

/-- The text of the arguments, if there are any. -/
def argumentsText (ts : List TypeTerm) : List Char :=
  if ts.isEmpty then [] else '<' :: [',', ' '].intercalate (ts.map text) ++ ['>']

/-- The words of the arguments, if there are any. -/
def argumentsWords (ts : List TypeTerm) : List Word :=
  if ts.isEmpty then []
  else .mark .lessThan '<' :: (Word.list words ts ++ [.mark .greaterThan '>'])

theorem text_reference (first : String) (others : List String) (ts : List TypeTerm) :
    (reference first others ts).text =
      first.toList ++ (others.flatMap ('.' :: ·.toList) ++ argumentsText ts) := by
  rw [text, texts_eq, argumentsText]

theorem words_reference (first : String) (others : List String) (ts : List TypeTerm) :
    (reference first others ts).words =
      .name first ::
        (others.flatMap (fun x => [.mark .dot '.', .name x]) ++ argumentsWords ts) := by
  rw [words, rows_eq, argumentsWords, list_eq_joined]

theorem endsName_arguments {ts : List TypeTerm} (ends : EndsName cs) :
    EndsName (argumentsText ts ++ cs) := by
  rw [argumentsText]
  split
  · exact ends
  · exact endsName_cons (by decide)

/-- The term is spelled in front of what is no part of a name. -/
def Spelled (t : TypeTerm) : Prop :=
  ∀ {tail cs : List Char} {ws : List Word}, Spells tail cs ws → EndsName cs →
    Spells tail (t.text ++ cs) (t.words ++ ws)

theorem arguments_spell {ts : List TypeTerm} (spelled : ∀ t ∈ ts, t.Spelled)
    (begins : ∀ t ∈ ts, Begins t.text) (h : Spells tail cs ws) :
    Spells tail (argumentsText ts ++ cs) (argumentsWords ts ++ ws) := by
  cases ts with
  | nil => exact h
  | cons t ts =>
    have closed := h.mark (k := .greaterThan) (c := '>') (by decide)
    have items : Spells tail ([',', ' '].intercalate ((t :: ts).map text) ++ '>' :: cs)
        (Word.list words (t :: ts) ++ .mark .greaterThan '>' :: ws) :=
      .list (fun _ => endsName_cons (by decide)) (fun t mem _ _ => spelled t mem) closed
        (endsName_cons (by decide))
    have begins : Begins ([',', ' '].intercalate ((t :: ts).map text) ++ '>' :: cs) := by
      rw [← texts_eq]
      exact (begins t (.head _)).intercalate.append _
    simpa [argumentsText, argumentsWords] using angle_spells begins items

/-- Members with an operator between them. -/
theorem members_spell {k : Kind} {c : Char} {ts : List TypeTerm}
    (mark : (k, c) ∈ wholeMarks ++ openMarks) (spelled : ∀ t ∈ ts, t.Spelled)
    (h : Spells tail cs ws) (ends : EndsName cs) :
    Spells tail ([' ', c, ' '].intercalate (texts ts) ++ cs)
      (Word.joined (.mark k c) (rows ts) ++ ws) := by
  rw [texts_eq, rows_eq]
  have fitsSep (ds : List Char) : EndsName ([' ', c, ' '] ++ ds) := endsName_cons (by decide)
  exact .joined (fun h => (h.markBlank mark).blank) fitsSep (fun t mem _ _ => spelled t mem)
    h ends

/-- The text of a term is the row of its words. -/
theorem Fits.spells (fits : Fits l t) : t.Spelled := by
  induction fits with
  | reference word _ words arguments ih =>
    intro tail cs ws h ends
    have arguments := arguments_spell ih (fun t mem => (arguments t mem).begins) h
    have dots := dots_spell words arguments (endsName_arguments ends)
    have all := dots.name word (endsName_dots (endsName_arguments ends))
    rw [text_reference, words_reference]
    simpa using all
  | word isType => exact fun h ends => h.wholeKeyword (isWord_of_isTypeWord isType) ends
  | @array t _ ih =>
    intro tail cs ws h _
    have closed := h.mark (k := .closeBracket) (c := ']') (by decide)
    have opened := closed.mark (k := .openBracket) (c := '[') (by decide)
    simpa [text, words] using ih opened (endsName_cons (by decide))
  | indexed _ _ object index =>
    intro tail cs ws h _
    have closed := h.mark (k := .closeBracket) (c := ']') (by decide)
    have opened := (index closed (endsName_cons (by decide))).mark (k := .openBracket) (c := '[')
      (by decide)
    simpa [text, words] using object opened (endsName_cons (by decide))
  | parenthesized _ ih =>
    intro tail cs ws h _
    have closed := h.mark (k := .closeParen) (c := ')') (by decide)
    have opened := (ih closed (endsName_cons (by decide))).mark (k := .openParen) (c := '(')
      (by decide)
    simpa [text, words] using opened
  | operator isOperator _ ih =>
    intro tail cs ws h ends
    have all := (ih h ends).keyword (isWord_of_isTypeOperator isOperator)
    simpa [text, words, Word.keyword] using all
  | intersection _ ih => exact members_spell (by decide) ih
  | union _ ih => exact members_spell (by decide) ih
  | conditional _ _ _ _ check bound whenTrue whenFalse =>
    intro tail cs ws h ends
    have colon := (whenFalse h ends).markBlank (k := .colon) (c := ':') (by decide)
    have question := (whenTrue colon.blank (endsName_cons (by decide))).markBlank (k := .question)
      (c := '?') (by decide)
    have extends_ := (bound question.blank (endsName_cons (by decide))).keyword
      (k := .extendsKeyword) (by decide)
    have all := check extends_.blank (endsName_cons (by decide))
    simpa [text, words, Word.keyword, Kind.wordText?, Kind.reservedText?] using all
  | ofPostfixed _ ih => exact ih
  | ofOperator _ ih => exact ih
  | ofIntersection _ ih => exact ih
  | ofUnion _ ih => exact ih

end Spelling

end TypeTerm

/-! ## Trees without places -/

def Mark.unplaced (m : Mark) : Mark := { m with span := .empty 0 }

def Detail.unplaced : Detail → Detail
  | .separators ends => .separators (ends.map (·.map fun _ => 0))
  | detail => detail

mutual

/-- The node with all that is in it, wherever it stands. -/
def Node.unplaced : Node → Node
  | { role, kind, span := _, flags, modifiers, detail, marks, lists, children } =>
    { role, kind, flags, modifiers, lists
      span := .empty 0
      detail := detail.unplaced
      marks := marks.map (·.unplaced)
      children := Node.unplacedAll children }

def Node.unplacedAll : List Node → List Node
  | [] => []
  | n :: ns => n.unplaced :: Node.unplacedAll ns

end

theorem Node.unplacedAll_eq (ns : List Node) : Node.unplacedAll ns = ns.map (·.unplaced) := by
  induction ns with
  | nil => rfl
  | cons n ns ih => rw [unplacedAll, ih, List.map_cons]

theorem Node.unplaced_mk (role : Role) (kind : Kind) (span : Span) (flags : NodeFlags)
    (modifiers : Modifiers) (detail : Detail) (marks : List Mark) (lists : List Role)
    (children : List Node) :
    Node.unplaced { role, kind, span, flags, modifiers, detail, marks, lists, children } =
      { role, kind, flags, modifiers, lists
        span := .empty 0
        detail := detail.unplaced
        marks := marks.map (·.unplaced)
        children := children.map (·.unplaced) } := by
  rw [Node.unplaced, Node.unplacedAll_eq]

@[simp] theorem Node.unplaced_inRole (n : Node) (role : Role) :
    (n.inRole role).unplaced = n.unplaced.inRole role := by cases n; rfl

theorem Node.eq_of_inRole {n m : Node} {role : Role} (roles : n.role = m.role)
    (h : n.inRole role = m.inRole role) : n = m := by
  obtain ⟨⟩ := n
  obtain ⟨⟩ := m
  cases roles
  cases h
  rfl

namespace TypeTerm

/-- The name as an identifier. -/
def nameTree (x : String) : Node :=
  { kind := .identifier, span := .empty 0, detail := .identifier x }

/-- A dotted name is nested to the left. -/
def qualified (left : Node) (x : String) : Node :=
  { kind := .qualifiedName, span := .empty 0
    children := [left.inRole .left, (nameTree x).inRole .right] }

def dottedTree (first : String) (others : List String) : Node :=
  others.foldl qualified (nameTree first)

mutual

/-- The tree of a term. -/
def tree : TypeTerm → Node
  | .reference first others arguments =>
    { kind := .typeReference, span := .empty 0
      lists := if arguments.isEmpty then [] else [.typeArguments]
      children := (dottedTree first others).inRole .typeName :: trees .typeArguments arguments }
  | .word k => { kind := k, span := .empty 0 }
  | .array element =>
    { kind := .arrayType, span := .empty 0, children := [element.tree.inRole .elementType] }
  | .indexed object index =>
    { kind := .indexedAccessType, span := .empty 0
      children := [object.tree.inRole .objectType, index.tree.inRole .indexType] }
  | .operator k operand =>
    { kind := .typeOperator, span := .empty 0, detail := .operator k
      children := [operand.tree.inRole .typeNode] }
  | .intersection members =>
    { kind := .intersectionType, span := .empty 0, children := trees .types members }
  | .union members => { kind := .unionType, span := .empty 0, children := trees .types members }
  | .conditional check bound whenTrue whenFalse =>
    { kind := .conditionalType, span := .empty 0
      children := [check.tree.inRole .checkType, bound.tree.inRole .extendsType,
        whenTrue.tree.inRole .trueType, whenFalse.tree.inRole .falseType] }
  | .parenthesized inner =>
    { kind := .parenthesizedType, span := .empty 0, children := [inner.tree.inRole .typeNode] }

def trees (role : Role) : List TypeTerm → List Node
  | [] => []
  | t :: ts => t.tree.inRole role :: trees role ts

end

/-! ## A term is told by its tree -/

theorem role_tree (t : TypeTerm) : t.tree.role = .statements := by
  cases t <;> rw [tree]

theorem role_dottedTree (first : String) (others : List String) :
    (dottedTree first others).role = .statements := by
  induction others using List.reverseRec with
  | nil => rfl
  | append_singleton others x => rw [dottedTree, List.foldl_append]; rfl

theorem dottedTree_injective {first first' : String} {others others' : List String}
    (h : dottedTree first others = dottedTree first' others') :
    first = first' ∧ others = others' := by
  induction others using List.reverseRec generalizing others' with
  | nil =>
    cases others' using List.reverseRec with
    | nil =>
      cases h
      exact ⟨rfl, rfl⟩
    | append_singleton others' x =>
      rw [dottedTree, dottedTree, List.foldl_append] at h
      cases h
  | append_singleton others x ih =>
    cases others' using List.reverseRec with
    | nil =>
      rw [dottedTree, dottedTree, List.foldl_append] at h
      cases h
    | append_singleton others' x' =>
      rw [dottedTree, dottedTree, List.foldl_append, List.foldl_append] at h
      injection h with _ _ _ _ _ _ _ _ children
      injection children with left right
      injection right with right
      have left := Node.eq_of_inRole
        ((role_dottedTree first others).trans (role_dottedTree first' others').symm) left
      obtain ⟨rfl, rfl⟩ := ih left
      cases right
      exact ⟨rfl, rfl⟩

theorem eq_of_tree_inRole {role : Role} {t u : TypeTerm}
    (injective : ∀ u, t.tree = u.tree → t = u)
    (h : t.tree.inRole role = u.tree.inRole role) : t = u :=
  injective u (Node.eq_of_inRole ((role_tree t).trans (role_tree u).symm) h)

theorem eq_of_trees {role : Role} {ts us : List TypeTerm}
    (injective : ∀ t ∈ ts, ∀ u, t.tree = u.tree → t = u) (h : trees role ts = trees role us) :
    ts = us := by
  induction ts generalizing us with
  | nil =>
    cases us with
    | nil => rfl
    | cons => rw [trees, trees] at h; cases h
  | cons t ts ih =>
    cases us with
    | nil => rw [trees, trees] at h; cases h
    | cons u us =>
      rw [trees, trees] at h
      injection h with first others
      obtain ⟨here, there⟩ := List.forall_mem_cons.1 injective
      rw [eq_of_tree_inRole here first, ih there others]

/-- No other term has the tree of a term that fits. -/
theorem Fits.eq_of_tree (fits : Fits l t) (u : TypeTerm) (h : t.tree = u.tree) : t = u := by
  induction fits generalizing u with
  | reference _ _ _ _ ih =>
    cases u with
    | reference =>
      rw [tree, tree] at h
      injection h with _ _ _ _ _ _ _ _ children
      injection children with name arguments
      have name := Node.eq_of_inRole ((role_dottedTree ..).trans (role_dottedTree ..).symm) name
      obtain ⟨rfl, rfl⟩ := dottedTree_injective name
      rw [eq_of_trees ih arguments]
    | _ => simp [tree] at h
  | word isType =>
    cases u with
    | word => simpa [tree] using h
    | intersection | union =>
      rw [tree, tree] at h
      injection h with _ kind
      rw [kind] at isType
      cases isType
    | _ => simp [tree] at h
  | array _ ih =>
    cases u with
    | array =>
      rw [tree, tree] at h
      injection h with _ _ _ _ _ _ _ _ children
      injection children with element
      rw [eq_of_tree_inRole ih element]
    | _ => simp [tree] at h
  | indexed _ _ object index =>
    cases u with
    | indexed =>
      rw [tree, tree] at h
      injection h with _ _ _ _ _ _ _ _ children
      injection children with first children
      injection children with second
      rw [eq_of_tree_inRole object first, eq_of_tree_inRole index second]
    | _ => simp [tree] at h
  | parenthesized _ ih =>
    cases u with
    | parenthesized =>
      rw [tree, tree] at h
      injection h with _ _ _ _ _ _ _ _ children
      injection children with inner
      rw [eq_of_tree_inRole ih inner]
    | _ => simp [tree] at h
  | operator _ _ ih =>
    cases u with
    | operator =>
      rw [tree, tree] at h
      injection h with _ _ _ _ _ detail _ _ children
      injection children with operand
      injection detail with k
      rw [k, eq_of_tree_inRole ih operand]
    | _ => simp [tree] at h
  | intersection _ ih =>
    cases u with
    | intersection =>
      rw [tree, tree] at h
      injection h with _ _ _ _ _ _ _ _ children
      rw [eq_of_trees ih children]
    | _ => simp [tree, trees] at h
  | union _ ih =>
    cases u with
    | union =>
      rw [tree, tree] at h
      injection h with _ _ _ _ _ _ _ _ children
      rw [eq_of_trees ih children]
    | _ => simp [tree, trees] at h
  | conditional _ _ _ _ check bound whenTrue whenFalse =>
    cases u with
    | conditional =>
      rw [tree, tree] at h
      injection h with _ _ _ _ _ _ _ _ children
      injection children with first children
      injection children with second children
      injection children with third children
      injection children with fourth
      rw [eq_of_tree_inRole check first, eq_of_tree_inRole bound second,
        eq_of_tree_inRole whenTrue third, eq_of_tree_inRole whenFalse fourth]
    | _ => simp [tree] at h
  | ofPostfixed _ ih => exact ih u h
  | ofOperator _ ih => exact ih u h
  | ofIntersection _ ih => exact ih u h
  | ofUnion _ ih => exact ih u h

end TypeTerm

end FactorySync

import FactorySync.Proofs.Inheritance

/-!
# How kinds are read

The kind of a structure is the type found first on the way through its bases (`Program.FirstKind`).
Each step of the way leaves a `Frame`: the type parameters of the interface that is extended, with
the arguments they are given. What the type stands for is read through these frames
(`StandsFor`): an argument in the frames behind its own, where it is written. The search replaces
arguments on its way, before it knows which of them are needed, and comes to the same type
(`Program.KindSearch.stands`).

A default is written beside the other type parameters, so it stands for what they make of it
(`Frame.before`); the search takes it as it is written (`Frame.nothing`). The two agree unless the
way comes to a default that is itself a type parameter (`Forwards`).
-/

namespace FactorySync

/-- The name of a type that may be a type parameter, up to parentheses. -/
def Node.bareName? (type : Node) : Option String :=
  if type.inner.kind = .typeReference ∧ ¬ type.inner.hasList .typeArguments then
    type.inner.nameIn? .typeName
  else none

/-- Up to parentheses, the type is a reference to a member of an enum without type arguments. -/
def Node.IsMember (type : Node) (enum member : String) : Prop :=
  type.inner.kind = .typeReference ∧ type.inner.hasList .typeArguments = false ∧
    ∃ name, type.inner.child? .typeName = some name ∧ name.kind = .qualifiedName ∧
      name.nameIn? .left = some enum ∧ name.nameIn? .right = some member

/-- The type parameters of an interface that is extended, and the arguments they are given. -/
structure Frame where
  parameters : List Node
  arguments : List Node

namespace Frame

variable {f : Frame} {type : Node} {name : String} {i j : Nat}

/-- The name of the type parameter at a position. -/
def name? (f : Frame) (i : Nat) : Option String :=
  f.parameters[i]?.map fun parameter => (parameter.nameIn? .name).getD ""

def default? (f : Frame) (i : Nat) : Option Node :=
  f.parameters[i]?.bind fun parameter => parameter.child? .fallback

/-- The type parameter has an argument or a default. -/
def HasValue (f : Frame) (i : Nat) : Prop :=
  (f.arguments[i]?).isSome = true ∨ (f.default? i).isSome = true

/-- A name means the last type parameter so called that has an argument or a default. -/
structure Binds (f : Frame) (name : String) (i : Nat) : Prop where
  named : f.name? i = some name
  hasValue : f.HasValue i
  last : ∀ j, i < j → f.name? j = some name → ¬ f.HasValue j

/-- The type is the name of the type parameter at a position. -/
def Means (f : Frame) (type : Node) (i : Nat) : Prop :=
  ∃ name, type.bareName? = some name ∧ f.Binds name i

/-- No type parameter so called has an argument or a default. -/
def Lacks (f : Frame) (name : String) : Prop := ∀ i, f.name? i = some name → ¬ f.HasValue i

/-- The type parameters before one of them. -/
def before (f : Frame) (i : Nat) : Frame := { f with parameters := f.parameters.take i }

/-- No type parameters, whatever the frame and the position are. -/
def nothing (_ : Frame) (_ : Nat) : Frame := ⟨[], []⟩

theorem lt_of_name? (h : f.name? i = some name) : i < f.parameters.length := by
  obtain ⟨parameter, here, -⟩ := Option.map_eq_some_iff.1 h
  exact (List.getElem?_eq_some_iff.1 here).1

theorem Binds.unique (h : f.Binds name i) (h' : f.Binds name j) : i = j := by
  rcases Nat.lt_trichotomy i j with lt | same | lt
  · exact absurd h'.hasValue (h.last j lt h'.named)
  · exact same
  · exact absurd h.hasValue (h'.last i lt h.named)

theorem Means.unique (h : f.Means type i) (h' : f.Means type j) : i = j := by
  obtain ⟨name, bare, binds⟩ := h
  obtain ⟨name', bare', binds'⟩ := h'
  obtain rfl := Option.some_inj.1 (bare.symm.trans bare')
  exact binds.unique binds'

theorem Lacks.not_means (h : f.Lacks name) (bare : type.bareName? = some name) :
    ¬ f.Means type i := by
  rintro ⟨name', bare', binds⟩
  obtain rfl := Option.some_inj.1 (bare.symm.trans bare')
  exact h i binds.named binds.hasValue

theorem nothing_not_means (f : Frame) (i : Nat) (type : Node) (j : Nat) :
    ¬ (nothing f i).Means type j := by
  rintro ⟨name, -, binds⟩
  simpa [name?, nothing] using binds.named

section

variable {parameter : Node} {parameters arguments : List Node}

theorem name?_succ : (⟨parameter :: parameters, arguments⟩ : Frame).name? (i + 1) =
    (⟨parameters, arguments.tail⟩ : Frame).name? i := by
  simp [name?]

theorem hasValue_succ : (⟨parameter :: parameters, arguments⟩ : Frame).HasValue (i + 1) ↔
    (⟨parameters, arguments.tail⟩ : Frame).HasValue i := by
  simp [HasValue, default?]

theorem Binds.succ (h : (⟨parameters, arguments.tail⟩ : Frame).Binds name i) :
    (⟨parameter :: parameters, arguments⟩ : Frame).Binds name (i + 1) where
  named := name?_succ.trans h.named
  hasValue := hasValue_succ.2 h.hasValue
  last j lt named := by
    obtain ⟨j, rfl⟩ : ∃ k, j = k + 1 := ⟨j - 1, by omega⟩
    rw [hasValue_succ]
    exact h.last j (by omega) (name?_succ.symm.trans named)

theorem Lacks.later (h : (⟨parameters, arguments.tail⟩ : Frame).Lacks name) (lt : 0 < j)
    (named : (⟨parameter :: parameters, arguments⟩ : Frame).name? j = some name) :
    ¬ (⟨parameter :: parameters, arguments⟩ : Frame).HasValue j := by
  obtain ⟨j, rfl⟩ : ∃ k, j = k + 1 := ⟨j - 1, by omega⟩
  rw [hasValue_succ]
  exact h j (name?_succ.symm.trans named)

theorem Lacks.cons (h : (⟨parameters, arguments.tail⟩ : Frame).Lacks name)
    (first : (⟨parameter :: parameters, arguments⟩ : Frame).name? 0 = some name →
      ¬ (⟨parameter :: parameters, arguments⟩ : Frame).HasValue 0) :
    (⟨parameter :: parameters, arguments⟩ : Frame).Lacks name := by
  intro j named
  rcases Nat.eq_zero_or_pos j with rfl | lt
  · exact first named
  · exact h.later lt named

end

end Frame

/-- What a type stands for within frames, the innermost first. The default of a type parameter is
read in the frame that `scope` makes for it. -/
inductive StandsFor (scope : Frame → Nat → Frame) : List Frame → Node → Node → Prop
  | itself {frames : List Frame} {type : Node}
      (free : ∀ f, frames.head? = some f → ∀ i, ¬ f.Means type i) :
      StandsFor scope frames type type
  | argument {f : Frame} {outer : List Frame} {type argument result : Node} {i : Nat}
      (means : f.Means type i) (given : f.arguments[i]? = some argument)
      (read : StandsFor scope outer argument result) :
      StandsFor scope (f :: outer) type result
  | fallback {f : Frame} {outer : List Frame} {type value result : Node} {i : Nat}
      (means : f.Means type i) (missing : f.arguments[i]? = none)
      (written : f.default? i = some value)
      (read : StandsFor scope (scope f i :: outer) value result) :
      StandsFor scope (f :: outer) type result

/-- Reading a type comes to a default that is itself the name of a type parameter before it. -/
inductive Forwards : List Frame → Node → Prop
  | here {f : Frame} {outer : List Frame} {type value : Node} {i j : Nat}
      (means : f.Means type i) (missing : f.arguments[i]? = none)
      (written : f.default? i = some value) (earlier : (f.before i).Means value j) :
      Forwards (f :: outer) type
  | onward {f : Frame} {outer : List Frame} {type argument : Node} {i : Nat}
      (means : f.Means type i) (given : f.arguments[i]? = some argument)
      (rest : Forwards outer argument) : Forwards (f :: outer) type

/-! ## Reading -/

section

variable {scope : Frame → Nat → Frame} {b : Bindings} {f : Frame} {frames outer : List Frame}
variable {type result other : Node}

theorem StandsFor.free (free : ∀ i, ¬ f.Means type i) : StandsFor scope (f :: outer) type type := by
  refine .itself fun g same => ?_
  obtain rfl := Option.some_inj.1 same
  exact free

/-- A type stands for one type only. -/
theorem StandsFor.unique (h : StandsFor scope frames type result)
    (h' : StandsFor scope frames type other) : result = other := by
  induction h with
  | itself free =>
    cases h' with
    | itself => rfl
    | argument means => exact absurd means (free _ rfl _)
    | fallback means => exact absurd means (free _ rfl _)
  | argument means given _ ih =>
    cases h' with
    | itself free => exact absurd means (free _ rfl _)
    | argument means' given' read =>
      obtain rfl := means.unique means'
      obtain rfl := Option.some_inj.1 (given.symm.trans given')
      exact ih read
    | fallback means' missing =>
      obtain rfl := means.unique means'
      exact nomatch given.symm.trans missing
  | fallback means missing written _ ih =>
    cases h' with
    | itself free => exact absurd means (free _ rfl _)
    | argument means' given =>
      obtain rfl := means.unique means'
      exact nomatch given.symm.trans missing
    | fallback means' _ written' read =>
      obtain rfl := means.unique means'
      obtain rfl := Option.some_inj.1 (written.symm.trans written')
      exact ih read

/-- Every type stands for one: a default is read among fewer type parameters than the name for which
it stands in. -/
theorem StandsFor.exists_before (frames : List Frame) (type : Node) :
    ∃ result, StandsFor Frame.before frames type result := by
  induction frames generalizing type with
  | nil => exact ⟨type, .itself fun _ none => nomatch none⟩
  | cons f outer ih =>
    induction hn : f.parameters.length using Nat.strongRecOn generalizing f type with
    | _ n shorter =>
      by_cases bound : ∃ i, f.Means type i
      · obtain ⟨i, means⟩ := bound
        have ⟨name, _, binds⟩ := means
        cases given : f.arguments[i]? with
        | some argument =>
          obtain ⟨result, read⟩ := ih argument
          exact ⟨result, .argument means given read⟩
        | none =>
          obtain ⟨value, written⟩ : ∃ value, f.default? i = some value := by
            simpa [Frame.HasValue, given, Option.isSome_iff_exists] using binds.hasValue
          have lt := Frame.lt_of_name? binds.named
          have fewer : (f.before i).parameters.length < n := by
            simp only [Frame.before, List.length_take]
            omega
          obtain ⟨result, read⟩ := shorter _ fewer (f.before i) value rfl
          exact ⟨result, .fallback means given written read⟩
      · exact ⟨type, .free (not_exists.1 bound)⟩

/-- If reading a type comes to no default that is itself a type parameter before it, defaults may as
well be read without any type parameters, and the other way round. -/
theorem StandsFor.of_not_forwards {scope' : Frame → Nat → Frame}
    (fewer : ∀ f i type, (∀ j, ¬ (f.before i).Means type j) → ∀ j, ¬ (scope f i).Means type j)
    (fewer' : ∀ f i type, (∀ j, ¬ (f.before i).Means type j) → ∀ j, ¬ (scope' f i).Means type j)
    (h : StandsFor scope frames type result) (closed : ¬ Forwards frames type) :
    StandsFor scope' frames type result := by
  induction h with
  | itself free => exact .itself free
  | argument means given _ ih =>
    exact .argument means given (ih fun rest => closed (.onward means given rest))
  | @fallback f outer type value result i means missing written read =>
    have plain (j : Nat) : ¬ (f.before i).Means value j :=
      fun earlier => closed (.here means missing written earlier)
    obtain rfl := read.unique (.free (fewer f i value plain))
    exact .fallback means missing written (.free (fewer' f i _ plain))

/-- The bindings read a type as the frames do, with defaults as they are written. -/
def Bindings.Agree (b : Bindings) (frames : List Frame) : Prop :=
  ∀ type, StandsFor Frame.nothing frames type (b.apply type)

theorem Bindings.apply_eq (b : Bindings) (type : Node) :
    b.apply type = (type.bareName?.bind (b.lookup ·)).getD type := by
  unfold apply Node.bareName?
  dsimp only
  split
  · cases (type.inner.nameIn? .typeName).bind (b.lookup ·) <;> rfl
  · rfl

/-- What a type parameter is bound to. -/
def Bindings.value? (b : Bindings) (f : Frame) (i : Nat) : Option Node :=
  (f.arguments[i]?.map b.apply) <|> f.default? i

theorem Bindings.value?_isSome {i : Nat} : (b.value? f i).isSome = true ↔ f.HasValue i := by
  rw [value?, Frame.HasValue]
  cases f.arguments[i]? <;> simp

theorem Bindings.ofArguments_cons (b : Bindings) (parameter : Node) (parameters arguments : List Node) :
    b.ofArguments (parameter :: parameters) arguments =
      b.ofArguments parameters arguments.tail ++
        (b.value? ⟨parameter :: parameters, arguments⟩ 0).toList.map
          ((parameter.nameIn? .name).getD "", ·) := by
  cases arguments <;> simp [ofArguments, value?, Frame.default?]

/-- The bindings made for a frame bind a name to the value of the type parameter that it means. -/
theorem Bindings.lookup_ofArguments (b : Bindings) (name : String) (parameters arguments : List Node) :
    (∃ i, (⟨parameters, arguments⟩ : Frame).Binds name i ∧
        (b.ofArguments parameters arguments).lookup name = b.value? ⟨parameters, arguments⟩ i) ∨
      (⟨parameters, arguments⟩ : Frame).Lacks name ∧
        (b.ofArguments parameters arguments).lookup name = none := by
  induction parameters generalizing arguments with
  | nil => exact .inr ⟨fun i named => by simp [Frame.name?] at named, rfl⟩
  | cons parameter parameters ih =>
    rw [ofArguments_cons, List.lookup_append]
    rcases ih arguments.tail with ⟨i, binds, found⟩ | ⟨lacks, unbound⟩
    · -- a later type parameter of the name counts
      obtain ⟨value, hvalue⟩ := Option.isSome_iff_exists.1 (value?_isSome (b := b).2 binds.hasValue)
      have same : b.value? ⟨parameter :: parameters, arguments⟩ (i + 1) = some value := by
        rw [← hvalue]
        simp [value?, Frame.default?]
      exact .inl ⟨i + 1, binds.succ, by rw [found, hvalue, same, Option.some_or]⟩
    · rw [unbound, Option.none_or]
      cases hvalue : b.value? ⟨parameter :: parameters, arguments⟩ 0 with
      | none =>
        refine .inr ⟨lacks.cons fun _ hasValue => ?_, rfl⟩
        simp [← value?_isSome (b := b), hvalue] at hasValue
      | some value =>
        have hasValue : (⟨parameter :: parameters, arguments⟩ : Frame).HasValue 0 := by
          simp [← value?_isSome (b := b), hvalue]
        by_cases same : (parameter.nameIn? .name).getD "" = name
        · exact .inl ⟨0, ⟨by simp [Frame.name?, same], hasValue, fun _ lt => lacks.later lt⟩,
            by simp [same, hvalue]⟩
        · have differs : (name == (parameter.nameIn? .name).getD "") = false := by
            simpa using Ne.symm same
          refine .inr ⟨lacks.cons fun named => ?_, by simp [List.lookup_cons, differs]⟩
          exact absurd (by simpa [Frame.name?] using named) same

theorem Bindings.Agree.nil : Bindings.Agree [] [] := by
  intro type
  have free : Bindings.apply [] type = type := by
    rw [Bindings.apply_eq]
    cases type.bareName? <;> rfl
  rw [free]
  exact .itself fun _ none => nomatch none

theorem Bindings.Agree.ofArguments (h : b.Agree outer) :
    (b.ofArguments f.parameters f.arguments).Agree (f :: outer) := by
  intro type
  rw [apply_eq]
  cases bare : type.bareName? with
  | none => exact .free fun _ ⟨_, bare', _⟩ => nomatch bare.symm.trans bare'
  | some name =>
    rw [Option.bind_some]
    rcases b.lookup_ofArguments name f.parameters f.arguments with ⟨i, binds, found⟩ | ⟨lacks, found⟩
    · have means : f.Means type i := ⟨name, bare, binds⟩
      rw [found, value?]
      cases given : f.arguments[i]? with
      | some argument => exact .argument means given (h argument)
      | none =>
        cases written : f.default? i with
        | some value => exact .fallback means given written (.free (Frame.nothing_not_means f i value))
        | none =>
          have hasValue := binds.hasValue
          simp [Frame.HasValue, given, written] at hasValue
    · rw [found]
      exact .free fun _ => lacks.not_means bare

end

namespace Program

variable {p : Program} {path : List InterfaceId} {b : Bindings} {id : InterfaceId}
variable {frames found : List Frame} {answer : Option Node} {type result : Node}

/-! ## The first kind -/

/-- The interface declares its kind or comes to one through bases that are not on the path. -/
inductive Leads (p : Program) : List InterfaceId → InterfaceId → Prop
  | here {path : List InterfaceId} {id : InterfaceId} (new : id ∉ path)
      (declares : p.DeclaresKind id) : Leads p path id
  | onward {path : List InterfaceId} {id : InterfaceId} {e : Heritage} (new : id ∉ path)
      (without : p.ownKind? id = none) (entry : e ∈ p.heritage id)
      (rest : Leads p (id :: path) e.base) : Leads p path id

/-- The frame for an interface that is extended. -/
def frame (p : Program) (e : Heritage) : Frame :=
  ⟨p.parametersOf e.base, e.entry.childrenIn .typeArguments⟩

/-- The type of the first kind that an interface comes to, with the frames on the way to it: that
of its own property `kind`, or else the one that the first of its bases comes to that leads to any. -/
inductive FirstKind (p : Program) :
    List InterfaceId → List Frame → InterfaceId → List Frame → Node → Prop
  | here {path : List InterfaceId} {frames : List Frame} {id : InterfaceId} {property type : Node}
      (new : id ∉ path) (own : p.ownKind? id = some property)
      (declared : property.child? .declaredType = some type) :
      FirstKind p path frames id frames type
  | onward {path : List InterfaceId} {frames found : List Frame} {id : InterfaceId} {type : Node}
      {earlier later : List Heritage} {e : Heritage} (new : id ∉ path)
      (without : p.ownKind? id = none) (entries : p.heritage id = earlier ++ e :: later)
      (none : ∀ other ∈ earlier, ¬ Leads p (id :: path) other.base)
      (rest : FirstKind p (id :: path) (p.frame e :: frames) e.base found type) :
      FirstKind p path frames id found type

theorem FirstKind.inherited (h : p.FirstKind path frames id found type)
    (without : p.ownKind? id = none) :
    ∃ e ∈ p.heritage id, p.FirstKind (id :: path) (p.frame e :: frames) e.base found type := by
  cases h with
  | here _ own => exact nomatch without.symm.trans own
  | onward _ _ entries _ rest => exact ⟨_, by simp [entries], rest⟩

theorem FirstKind.own (h : p.FirstKind path frames id found type)
    (own : (p.ownKind? id).isSome = true) : found = frames := by
  cases h with
  | here => rfl
  | onward _ without => simp [without] at own

/-- The kind of an interface is a member of an enum: the first type for it stands for the member. -/
def HasKind (p : Program) (scope : Frame → Nat → Frame) (kindEnum : String) (id : InterfaceId)
    (member : String) : Prop :=
  ∃ frames type result, p.FirstKind [] [] id frames type ∧ StandsFor scope frames type result ∧
    result.IsMember kindEnum member

/-! ## The search -/

theorem KindSearch.leads_iff (h : p.KindSearch path b id answer) :
    answer.isSome = true ↔ p.Leads path id := by
  induction h with
  | again before =>
    constructor
    · exact fun found => nomatch found
    · intro leads
      cases leads <;> contradiction
  | own new own =>
    rw [Option.isSome_map]
    constructor
    · intro declared
      obtain ⟨type, declared⟩ := Option.isSome_iff_exists.1 declared
      exact .here new ⟨_, type, own, declared⟩
    · intro leads
      cases leads with
      | here _ declares =>
        obtain ⟨property, type, own', declared⟩ := declares
        obtain rfl := Option.some_inj.1 (own.symm.trans own')
        simp [declared]
      | onward _ without => exact nomatch own.symm.trans without
  | inherited new without _ ih =>
    constructor
    · intro found
      obtain ⟨e, he, found⟩ := List.findSome?_isSome_iff.1 found
      exact .onward new without he ((ih e he).1 found)
    · intro leads
      cases leads with
      | here _ declares =>
        obtain ⟨property, type, own, declared⟩ := declares
        exact nomatch without.symm.trans own
      | onward _ _ entry rest =>
        exact List.findSome?_isSome_iff.2 ⟨_, entry, (ih _ entry).2 rest⟩

/-- The search finds what the first type for the kind stands for. -/
theorem KindSearch.stands (h : p.KindSearch path b id answer) (agree : b.Agree frames) :
    answer = some result ↔ ∃ found type, p.FirstKind path frames id found type ∧
      StandsFor Frame.nothing found type result := by
  induction h generalizing frames result with
  | again before =>
    constructor
    · exact fun found => nomatch found
    · rintro ⟨found, type, first, -⟩
      cases first <;> contradiction
  | own new own =>
    rw [Option.map_eq_some_iff]
    constructor
    · rintro ⟨type, declared, rfl⟩
      exact ⟨frames, type, .here new own declared, agree type⟩
    · rintro ⟨found, type, first, stands⟩
      cases first with
      | here _ own' declared =>
        obtain rfl := Option.some_inj.1 (own.symm.trans own')
        exact ⟨type, declared, (agree type).unique stands⟩
      | onward _ without => exact nomatch own.symm.trans without
  | @inherited path b id answer new without bases ih =>
    have onward (e : Heritage) : (p.bindingsFor b e).Agree (p.frame e :: frames) := agree.ofArguments
    rw [List.findSome?_eq_some_iff]
    constructor
    · rintro ⟨earlier, e, later, entries, answered, none⟩
      have he : e ∈ p.heritage id := by simp [entries]
      obtain ⟨found, type, first, stands⟩ := (ih e he (onward e)).1 answered
      refine ⟨found, type, .onward new without entries (fun other hother leads => ?_) first, stands⟩
      have nothing := none other hother
      have := (bases other (by simp [entries, hother])).leads_iff.2 leads
      simp [nothing] at this
    · rintro ⟨found, type, first, stands⟩
      cases first with
      | here _ own => exact nomatch without.symm.trans own
      | @onward _ _ found _ type earlier later e _ _ entries none rest =>
        have he : e ∈ p.heritage id := by simp [entries]
        refine ⟨earlier, e, later, entries, (ih e he (onward e)).2 ⟨found, type, rest, stands⟩,
          fun other hother => ?_⟩
        have unanswered := mt (bases other (by simp [entries, hother])).leads_iff.1 (none other hother)
        simpa using unanswered

theorem enumMember?_eq_some {kindEnum member : String} :
    enumMember? kindEnum type = some member ↔ type.IsMember kindEnum member := by
  unfold enumMember? Node.IsMember Node.halves?
  dsimp only
  by_cases reference : type.inner.kind = .typeReference ∧ ¬ type.inner.hasList .typeArguments
  · obtain ⟨isReference, bare⟩ := reference
    rw [if_pos ⟨isReference, bare⟩]
    cases type.inner.child? .typeName with
    | none => simp
    | some name =>
      by_cases qualified : name.kind = .qualifiedName
      · cases left : name.nameIn? .left <;> cases right : name.nameIn? .right <;>
          simp [isReference, bare, qualified, left, right]
      · simp [qualified]
  · rw [if_neg reference]
    constructor
    · exact fun none => nomatch none
    · rintro ⟨isReference, bare, -⟩
      exact absurd ⟨isReference, by simp [bare]⟩ reference

/-- The kind of a structure is what the first type for it stands for, with every default as it is
written. So it is the member that the type stands for with defaults read among the type parameters
before them, if reading it comes to no default that is itself one of those. Read in this way a type
always stands for one type. -/
theorem kind?_eq_some_iff (p : Program) (kindEnum : String) (id : InterfaceId) (member : String) :
    (p.kind? kindEnum id = some member ↔ p.HasKind Frame.nothing kindEnum id member) ∧
      ((∀ frames type, p.FirstKind [] [] id frames type → ¬ Forwards frames type) →
        (p.kind? kindEnum id = some member ↔ p.HasKind Frame.before kindEnum id member)) ∧
      ∀ frames type, p.FirstKind [] [] id frames type →
        ∃! result, StandsFor Frame.before frames type result := by
  have search : p.KindSearch [] [] id (p.kindType? (p.interfaces.length + 1) [] [] id) :=
    kindType?_searches List.nodup_nil (List.nil_subset _) (by simp)
  have written : p.kind? kindEnum id = some member ↔ p.HasKind Frame.nothing kindEnum id member := by
    rw [kind?, Option.bind_eq_some_iff]
    constructor
    · rintro ⟨result, found, named⟩
      obtain ⟨frames, type, first, stands⟩ := (search.stands .nil).1 found
      exact ⟨frames, type, result, first, stands, enumMember?_eq_some.1 named⟩
    · rintro ⟨frames, type, result, first, stands, named⟩
      exact ⟨result, (search.stands .nil).2 ⟨frames, type, first, stands⟩,
        enumMember?_eq_some.2 named⟩
  refine ⟨written, fun closed => written.trans ⟨?_, ?_⟩, fun frames type _ => ?_⟩
  · rintro ⟨frames, type, result, first, stands, named⟩
    exact ⟨frames, type, result, first, stands.of_not_forwards
      (fun f i type _ => Frame.nothing_not_means f i type) (fun _ _ _ free => free)
      (closed frames type first), named⟩
  · rintro ⟨frames, type, result, first, stands, named⟩
    exact ⟨frames, type, result, first, stands.of_not_forwards
      (fun _ _ _ free => free) (fun f i type _ => Frame.nothing_not_means f i type)
      (closed frames type first), named⟩
  · obtain ⟨result, stands⟩ := StandsFor.exists_before frames type
    exact ⟨result, stands, fun other stands' => stands'.unique stands⟩

/-! ## Defaults -/

/-- A base with a default that is an enum member, extended without arguments. -/
def memberDefault : Program :=
  .ofFiles [.parse "a.ts"
    "interface B<T = StructureKind.X> \x7b kind: T \x7d interface A extends B \x7b\x7d".toList]

theorem memberDefault_bases : memberDefault.kind? "StructureKind" ⟨0, "A"⟩ = some "X" ∧
    (memberDefault.ownKind? ⟨0, "A"⟩).isNone = true ∧
    (memberDefault.ownKind? ⟨0, "B"⟩).isSome = true ∧
    ∀ e ∈ memberDefault.heritage ⟨0, "A"⟩, e.base = ⟨0, "B"⟩ ∧
      (memberDefault.frame e).arguments.length = 0 ∧
      ∀ parameter ∈ (memberDefault.frame e).parameters,
        (parameter.child? .fallback).bind (·.bareName?) = none := by
  decide +kernel

/-- The default is read where it is needed, and it is not a type parameter. -/
theorem memberDefault_kind :
    (∀ frames type, memberDefault.FirstKind [] [] ⟨0, "A"⟩ frames type → ¬ Forwards frames type) ∧
      memberDefault.kind? "StructureKind" ⟨0, "A"⟩ = some "X" ∧
      memberDefault.HasKind Frame.before "StructureKind" ⟨0, "A"⟩ "X" := by
  obtain ⟨named, without, declares, bases⟩ := memberDefault_bases
  have closed (frames : List Frame) (type : Node)
      (first : memberDefault.FirstKind [] [] ⟨0, "A"⟩ frames type) : ¬ Forwards frames type := by
    obtain ⟨e, he, rest⟩ := first.inherited (by simpa using without)
    obtain ⟨base, unargued, defaults⟩ := bases e he
    rw [base] at rest
    rw [rest.own declares]
    generalize memberDefault.frame e = f at unargued defaults
    intro forwards
    cases forwards with
    | here _ _ written earlier =>
      obtain ⟨_, bareDefault, -⟩ := earlier
      obtain ⟨parameter, here, fallback⟩ := Option.bind_eq_some_iff.1 written
      have plain := defaults parameter (List.mem_of_getElem? here)
      rw [fallback, Option.bind_some, bareDefault] at plain
      exact nomatch plain
    | onward _ given =>
      rw [List.length_eq_zero_iff.1 unargued] at given
      exact nomatch given
  exact ⟨closed, named,
    ((kind?_eq_some_iff memberDefault "StructureKind" ⟨0, "A"⟩ "X").2.1 closed).1 named⟩

/-- A base with a default that is the type parameter before it, extended with one argument. -/
def chainedDefault : Program :=
  .ofFiles [.parse "a.ts"
    "interface B<T, U = T> \x7b kind: U \x7d interface A extends B<StructureKind.X> \x7b\x7d".toList]

theorem chainedDefault_bases : chainedDefault.kind? "StructureKind" ⟨0, "A"⟩ = none ∧
    (chainedDefault.ownKind? ⟨0, "A"⟩).isNone = true ∧
    ((chainedDefault.ownKind? ⟨0, "B"⟩).bind (·.child? .declaredType)).map (·.bareName?) =
      some (some "U") ∧
    (chainedDefault.heritage ⟨0, "A"⟩).length = 1 ∧
    ∀ e ∈ chainedDefault.heritage ⟨0, "A"⟩, e.base = ⟨0, "B"⟩ ∧
      (chainedDefault.frame e).parameters.map (fun parameter => parameter.nameIn? .name) =
        [some "T", some "U"] ∧
      (chainedDefault.frame e).arguments.map (fun argument =>
        (argument.bareName?, enumMember? "StructureKind" argument)) = [(none, some "X")] ∧
      ((chainedDefault.frame e).default? 1).map (·.bareName?) = some (some "T") := by
  decide +kernel

/-- Read after the argument, the default is an enum member, but the kind is not found. -/
theorem chainedDefault_missed :
    chainedDefault.HasKind Frame.before "StructureKind" ⟨0, "A"⟩ "X" ∧
      chainedDefault.kind? "StructureKind" ⟨0, "A"⟩ = none := by
  obtain ⟨missed, without, declared, single, bases⟩ := chainedDefault_bases
  refine ⟨?_, missed⟩
  obtain ⟨e, entries⟩ := List.length_eq_one_iff.1 single
  obtain ⟨base, parameters, arguments, fallback⟩ := bases e (by simp [entries])
  obtain ⟨type, declaredType, bareU⟩ := Option.map_eq_some_iff.1 declared
  obtain ⟨property, own, declaredType⟩ := Option.bind_eq_some_iff.1 declaredType
  obtain ⟨value, written, bareT⟩ := Option.map_eq_some_iff.1 fallback
  obtain ⟨argument, given, same⟩ := List.map_eq_singleton_iff.1 arguments
  obtain ⟨bareX, member⟩ := Prod.mk.inj same
  have first : chainedDefault.FirstKind [] [] ⟨0, "A"⟩ [chainedDefault.frame e] type := by
    have split : chainedDefault.heritage ⟨0, "A"⟩ = [] ++ e :: [] := entries
    refine .onward List.not_mem_nil (by simpa using without) split
      (fun _ none => absurd none List.not_mem_nil) ?_
    rw [base]
    exact .here (by decide) own declaredType
  generalize chainedDefault.frame e = f at *
  obtain ⟨t, u, two⟩ := List.length_eq_two.1 (by simpa using congrArg List.length parameters)
  obtain ⟨nameT, nameU⟩ : t.nameIn? .name = some "T" ∧ u.nameIn? .name = some "U" := by
    simpa [two] using parameters
  have bindsU : f.Binds "U" 1 :=
    { named := by simp [Frame.name?, two, nameU]
      hasValue := .inr (by simp [written])
      last := fun j lt named => by
        have := Frame.lt_of_name? named
        simp only [two, List.length_cons, List.length_nil] at this
        omega }
  have bindsT : (f.before 1).Binds "T" 0 :=
    { named := by simp [Frame.before, Frame.name?, two, nameT]
      hasValue := .inl (by simp [Frame.before, given])
      last := fun j lt named => by
        have := Frame.lt_of_name? named
        simp only [Frame.before, two, List.length_take, List.length_cons, List.length_nil] at this
        omega }
  have stands : StandsFor Frame.before [f] type argument :=
    .fallback ⟨"U", bareU, bindsU⟩ (by simp [given]) written
      (.argument ⟨"T", bareT, bindsT⟩ (by simp [Frame.before, given])
        (.itself fun _ none => nomatch none))
  exact ⟨[f], type, argument, first, stands, enumMember?_eq_some.1 member⟩

end Program
end FactorySync

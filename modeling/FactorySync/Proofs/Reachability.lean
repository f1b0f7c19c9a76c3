import FactorySync.Search
import Mathlib.Data.List.Perm.Subperm
import Mathlib.Logic.Relation

/-!
# What a search finds

`Search.Ends` describes the search without an allowance: it relates the places entered so far and
the steps still to be tried to what is found in the end. If only finitely many places can be come
by, an allowance of that many is never used up, so the search ends (`Search.run_ends`). What it
finds is an answer at a place that can be reached, and it finds something if there is one
(`Search.Ends.isSome_iff`). Entering no place twice loses nothing: when the search ends without an
answer, all that leads on from the places it has entered has been entered as well.
-/

namespace FactorySync.Search

variable {α β : Type} {steps : α → List (Step α β)}
variable {entered : List α} {todo : List (Step α β)} {result : Option β} {a start : α} {b : β}

/-- With the places in `entered` behind it, the search through `todo` comes to an end, and `result`
is what it finds. -/
inductive Ends (steps : α → List (Step α β)) : List α → List (Step α β) → Option β → Prop
  | nothing {entered : List α} : Ends steps entered [] none
  | answer {entered : List α} {todo : List (Step α β)} {b : β} :
      Ends steps entered (.answer b :: todo) (some b)
  | again {entered : List α} {todo : List (Step α β)} {result : Option β} {a : α}
      (before : a ∈ entered) (rest : Ends steps entered todo result) :
      Ends steps entered (.goTo a :: todo) result
  | enter {entered : List α} {todo : List (Step α β)} {result : Option β} {a : α}
      (new : a ∉ entered) (rest : Ends steps (a :: entered) (steps a ++ todo) result) :
      Ends steps entered (.goTo a :: todo) result

/-- One step on from a place. -/
def LeadsTo (steps : α → List (Step α β)) (a c : α) : Prop := .goTo c ∈ steps a

/-! ## The allowance -/

/-- All places that are come by are among `places`, and there is allowance for those of them that
have not been entered. -/
structure Suffices (steps : α → List (Step α β)) (places : List α) (allowance : Nat)
    (entered : List α) (todo : List (Step α β)) : Prop where
  closed : ∀ a ∈ places, ∀ c, LeadsTo steps a c → c ∈ places
  nodup : entered.Nodup
  entered_mem : ∀ a ∈ entered, a ∈ places
  todo_mem : ∀ a, .goTo a ∈ todo → a ∈ places
  enough : places.length ≤ allowance + entered.length

theorem Suffices.skip {places : List α} {allowance : Nat} {s : Step α β}
    (h : Suffices steps places allowance entered (s :: todo)) :
    Suffices steps places allowance entered todo :=
  { h with todo_mem := fun a ha => h.todo_mem a (List.mem_cons_of_mem _ ha) }

theorem Suffices.enter {places : List α} {allowance : Nat} (new : a ∉ entered)
    (h : Suffices steps places (allowance + 1) entered (.goTo a :: todo)) :
    Suffices steps places allowance (a :: entered) (steps a ++ todo) where
  closed := h.closed
  nodup := List.nodup_cons.2 ⟨new, h.nodup⟩
  entered_mem := List.forall_mem_cons.2 ⟨h.todo_mem a List.mem_cons_self, h.entered_mem⟩
  todo_mem c hc := by
    rcases List.mem_append.1 hc with onward | later
    · exact h.closed a (h.todo_mem a List.mem_cons_self) c onward
    · exact h.todo_mem c (List.mem_cons_of_mem _ later)
  enough := by
    have := h.enough
    rw [List.length_cons]
    omega

/-- Without allowance there is no place left to enter. -/
theorem Suffices.not_new {places : List α}
    (h : Suffices steps places 0 entered (.goTo a :: todo)) : a ∈ entered := by
  by_contra new
  have inside : a :: entered ⊆ places :=
    List.forall_mem_cons.2 ⟨h.todo_mem a List.mem_cons_self, h.entered_mem⟩
  have fits := (List.subperm_of_subset (List.nodup_cons.2 ⟨new, h.nodup⟩) inside).length_le
  have enough := h.enough
  rw [List.length_cons] at fits
  omega

/-- A search with sufficient allowance goes on to its end. -/
theorem run_ends [DecidableEq α] {places : List α} {allowance : Nat}
    (h : Suffices steps places allowance entered todo) :
    Ends steps entered todo (run steps allowance entered todo) := by
  induction allowance, entered, todo using run.induct steps with
  | case1 allowance entered =>
    rw [run]
    exact .nothing
  | case2 allowance entered b todo =>
    rw [run]
    exact .answer
  | case3 allowance entered a todo before ih =>
    rw [run.eq_def]
    dsimp only
    rw [if_pos before]
    exact .again before (ih h.skip)
  | case4 entered a todo new => exact absurd h.not_new new
  | case5 entered a todo new allowance ih =>
    rw [run, if_neg new]
    exact .enter new (ih (h.enter new))

/-! ## What is found -/

/-- What is found stands among the steps to be tried or at a place they lead to. -/
theorem Ends.answer_reached (h : Ends steps entered todo result) (found : result = some b) :
    .answer b ∈ todo ∨
      ∃ a c, .goTo a ∈ todo ∧ Relation.ReflTransGen (LeadsTo steps) a c ∧ .answer b ∈ steps c := by
  induction h with
  | nothing => exact nomatch found
  | answer =>
    cases found
    exact .inl List.mem_cons_self
  | again _ _ ih =>
    rcases ih found with here | ⟨a, c, ha, reached⟩
    · exact .inl (List.mem_cons_of_mem _ here)
    · exact .inr ⟨a, c, List.mem_cons_of_mem _ ha, reached⟩
  | @enter entered todo result a new _ ih =>
    have onward : .goTo a ∈ Step.goTo a :: todo := List.mem_cons_self
    rcases ih found with here | ⟨c, d, hc, reached, hd⟩
    · rcases List.mem_append.1 here with here | later
      · exact .inr ⟨a, a, onward, .refl, here⟩
      · exact .inl (List.mem_cons_of_mem _ later)
    · rcases List.mem_append.1 hc with here | later
      · exact .inr ⟨a, d, onward, .head here reached, hd⟩
      · exact .inr ⟨c, d, List.mem_cons_of_mem _ later, reached, hd⟩

/-- If nothing is found, the places that have been entered in the end are those that the steps to be
tried lead to, without an answer at any of them. -/
theorem Ends.exhausted (h : Ends steps entered todo result) (nothing : result = none) :
    ∃ seen : Set α, (∀ a ∈ entered, a ∈ seen) ∧ (∀ s ∈ todo, ∃ c ∈ seen, s = .goTo c) ∧
      ∀ a ∈ seen, a ∉ entered → ∀ s ∈ steps a, ∃ c ∈ seen, s = .goTo c := by
  induction h with
  | @nothing entered =>
    exact ⟨{a | a ∈ entered}, fun a ha => ha, fun s hs => absurd hs List.not_mem_nil,
      fun a ha new => absurd ha new⟩
  | answer => exact nomatch nothing
  | @again entered todo result a before _ ih =>
    obtain ⟨seen, old, ahead, onward⟩ := ih nothing
    exact ⟨seen, old, List.forall_mem_cons.2 ⟨⟨a, old a before, rfl⟩, ahead⟩, onward⟩
  | @enter entered todo result a new _ ih =>
    obtain ⟨seen, old, ahead, onward⟩ := ih nothing
    obtain ⟨here, old⟩ := List.forall_mem_cons.1 old
    obtain ⟨steps_ahead, ahead⟩ := List.forall_mem_append.1 ahead
    refine ⟨seen, old, List.forall_mem_cons.2 ⟨⟨a, here, rfl⟩, ahead⟩, fun c hc fresh => ?_⟩
    -- the place that was entered leads to what was tried next, any other one is left to the rest
    by_cases same : c = a
    · exact same ▸ steps_ahead
    · exact onward c hc fun hmem => (List.mem_cons.1 hmem).elim same fresh

/-- A search from a place finds something exactly if the place leads to an answer. -/
theorem Ends.isSome_iff (h : Ends steps [] [.goTo start] result) : result.isSome = true ↔
    ∃ c b, Relation.ReflTransGen (LeadsTo steps) start c ∧ .answer b ∈ steps c := by
  constructor
  · intro found
    obtain ⟨b, found⟩ := Option.isSome_iff_exists.1 found
    rcases h.answer_reached found with here | ⟨a, c, ha, reached, hc⟩
    · exact nomatch List.mem_singleton.1 here
    · cases List.mem_singleton.1 ha
      exact ⟨c, b, reached, hc⟩
  · rintro ⟨c, b, reached, hc⟩
    by_contra nothing
    obtain ⟨seen, -, ahead, onward⟩ := h.exhausted (by simpa using nothing)
    obtain ⟨first, hfirst, same⟩ := ahead _ (List.mem_singleton_self _)
    cases same
    have closed (a : α) (ha : a ∈ seen) := onward a ha List.not_mem_nil
    have inside : ∀ c, Relation.ReflTransGen (LeadsTo steps) start c → c ∈ seen := by
      intro c reached
      induction reached with
      | refl => exact hfirst
      | tail _ step ih =>
        obtain ⟨d, hd, same⟩ := closed _ ih _ step
        cases same
        exact hd
    obtain ⟨d, -, same⟩ := closed c (inside c reached) _ hc
    exact nomatch same

end FactorySync.Search

import FactorySync.Text.Span

/-!
# Places in a text

`StandsAt text pos cs` says that `cs` is what follows the byte offset `pos` of `text`. Scanning,
parsing and editing only ever name offsets at which something stands, so every cut they ask for is
clean: it falls between two characters (`StandsAt.isBoundary`) and yields what was to be expected
(`StandsAt.dropBytes`, `StandsAt.slice`). `Span.Cuts` says so of both ends of a span.
-/

namespace FactorySync

@[simp] theorem byteLength_nil : byteLength [] = 0 := rfl

@[simp] theorem byteLength_cons (c : Char) (cs : List Char) :
    byteLength (c :: cs) = c.utf8Size + byteLength cs := rfl

theorem byteLength_pos {cs : List Char} (h : cs ≠ []) : 0 < byteLength cs := by
  cases cs with
  | nil => exact absurd rfl h
  | cons c cs =>
    have := c.utf8Size_pos
    simp only [byteLength_cons]
    omega

theorem byteLength_eq_zero_iff {cs : List Char} : byteLength cs = 0 ↔ cs = [] := by
  refine ⟨fun h => ?_, fun h => by rw [h, byteLength_nil]⟩
  cases cs with
  | nil => rfl
  | cons c cs =>
    have := byteLength_pos (List.cons_ne_nil c cs)
    omega

/-- Characters of one byte each occupy as many bytes as they are. -/
theorem byteLength_eq_length {cs : List Char} (h : ∀ c ∈ cs, c.utf8Size = 1) :
    byteLength cs = cs.length := by
  induction cs with
  | nil => rfl
  | cons c cs ih =>
    have hc := h c List.mem_cons_self
    have hcs := ih fun d hd => h d (List.mem_cons_of_mem c hd)
    simp only [byteLength_cons, List.length_cons]
    omega

@[simp] theorem takeBytes_zero (cs : List Char) : takeBytes 0 cs = [] := by cases cs <;> rfl

@[simp] theorem dropBytes_zero (cs : List Char) : dropBytes 0 cs = cs := by cases cs <;> rfl

@[simp] theorem isBoundary_zero (cs : List Char) : isBoundary 0 cs = true := by cases cs <;> rfl

/-! ## Cuts after a known front -/

theorem takeBytes_add (cs ds : List Char) (n : Nat) :
    takeBytes (byteLength cs + n) (cs ++ ds) = cs ++ takeBytes n ds := by
  induction cs with
  | nil => simp
  | cons c cs ih =>
    obtain ⟨k, hk⟩ := Nat.exists_eq_succ_of_ne_zero (Nat.ne_of_gt c.utf8Size_pos)
    have size : byteLength (c :: cs) + n = k + byteLength cs + n + 1 := by
      rw [byteLength_cons, hk]
      omega
    have rest : k + byteLength cs + n + 1 - c.utf8Size = byteLength cs + n := by omega
    rw [size, List.cons_append, takeBytes, rest, ih, List.cons_append]

theorem takeBytes_append (cs ds : List Char) : takeBytes (byteLength cs) (cs ++ ds) = cs := by
  have front := takeBytes_add cs ds 0
  rwa [Nat.add_zero, takeBytes_zero, List.append_nil] at front

theorem dropBytes_append (cs ds : List Char) : dropBytes (byteLength cs) (cs ++ ds) = ds := by
  have h := takeBytes_append_dropBytes (byteLength cs) (cs ++ ds)
  rw [takeBytes_append] at h
  exact List.append_cancel_left h

theorem isBoundary_append (cs ds : List Char) : isBoundary (byteLength cs) (cs ++ ds) = true := by
  induction cs with
  | nil => simp
  | cons c cs ih =>
    have hc := c.utf8Size_pos
    obtain ⟨n, hn⟩ := Nat.exists_eq_add_one_of_ne_zero (n := c.utf8Size + byteLength cs) (by omega)
    have hr : n + 1 - c.utf8Size = byteLength cs := by omega
    have hle : c.utf8Size ≤ n + 1 := by omega
    simp only [byteLength_cons, hn, List.cons_append, isBoundary, hr, ih, hle, decide_true,
      Bool.and_self]

/-- The text from the byte offset `pos` on is `cs`. -/
def StandsAt (text : List Char) (pos : Nat) (cs : List Char) : Prop :=
  ∃ front, text = front ++ cs ∧ byteLength front = pos

namespace StandsAt

variable {text cs ds : List Char} {p q : Nat}

theorem zero (text : List Char) : StandsAt text 0 text := ⟨[], rfl, rfl⟩

theorem of_boundary (h : isBoundary p text = true) : StandsAt text p (dropBytes p text) :=
  ⟨takeBytes p text, (takeBytes_append_dropBytes p text).symm, byteLength_takeBytes h⟩

theorem after (h : StandsAt text p (cs ++ ds)) : StandsAt text (p + byteLength cs) ds := by
  obtain ⟨front, rfl, rfl⟩ := h
  exact ⟨front ++ cs, by simp, byteLength_append front cs⟩

protected theorem isBoundary (h : StandsAt text p cs) : isBoundary p text = true := by
  obtain ⟨front, rfl, rfl⟩ := h
  exact isBoundary_append front cs

protected theorem dropBytes (h : StandsAt text p cs) : dropBytes p text = cs := by
  obtain ⟨front, rfl, rfl⟩ := h
  exact dropBytes_append front cs

theorem unique (h : StandsAt text p cs) (h' : StandsAt text p ds) : cs = ds :=
  h.dropBytes.symm.trans h'.dropBytes

theorem length_eq (h : StandsAt text p cs) : p + byteLength cs = byteLength text := by
  obtain ⟨front, rfl, rfl⟩ := h
  exact (byteLength_append front cs).symm

theorem le (h : StandsAt text p cs) : p ≤ byteLength text := by
  have := h.length_eq
  omega

protected theorem slice (h : StandsAt text p (cs ++ ds)) :
    sliceBytes p (p + byteLength cs) text = cs := by
  rw [sliceBytes, h.dropBytes, Nat.add_sub_cancel_left, takeBytes_append]

/-- What stands at an earlier offset begins with all that lies between the two. -/
theorem between (h : StandsAt text p cs) (h' : StandsAt text q ds) (le : p ≤ q) :
    ∃ ms, cs = ms ++ ds ∧ q = p + byteLength ms := by
  obtain ⟨front, rfl, rfl⟩ := h
  obtain ⟨front', heq, rfl⟩ := h'
  obtain ⟨ms, hf, hc⟩ | ⟨ms, hf, hd⟩ := List.append_eq_append_iff.1 heq
  · exact ⟨ms, hc, by rw [hf, byteLength_append]⟩
  · -- the later offset has the shorter front only if nothing lies between the two
    rw [hf, byteLength_append] at le
    obtain rfl : ms = [] := byteLength_eq_zero_iff.1 (by omega)
    exact ⟨[], by simpa using hd.symm, by simp [hf]⟩

theorem slice_between (h : StandsAt text p cs) (h' : StandsAt text q ds) (le : p ≤ q) :
    cs = sliceBytes p q text ++ ds ∧ q = p + byteLength (sliceBytes p q text) := by
  obtain ⟨ms, rfl, rfl⟩ := h.between h' le
  rw [h.slice]
  exact ⟨rfl, rfl⟩

end StandsAt

/-- The span lies in the text and begins and ends between two characters. -/
structure Span.Cuts (text : List Char) (s : Span) : Prop where
  start_le_stop : s.start ≤ s.stop
  start_boundary : isBoundary s.start text = true
  stop_boundary : isBoundary s.stop text = true

theorem Span.Cuts.stop_le {text : List Char} {s : Span} (h : s.Cuts text) :
    s.stop ≤ byteLength text := (StandsAt.of_boundary h.stop_boundary).le

/-- A later boundary of the text is a boundary of what stands at an earlier offset. -/
theorem StandsAt.isBoundary_sub {text cs : List Char} {p q : Nat} (h : StandsAt text p cs)
    (le : p ≤ q) (boundary : isBoundary q text = true) : isBoundary (q - p) cs = true := by
  obtain ⟨ms, hcs, rfl⟩ := h.between (.of_boundary boundary) le
  rw [hcs, Nat.add_sub_cancel_left]
  exact isBoundary_append ms _

theorem StandsAt.drop_sub {text cs : List Char} {p q : Nat} (h : StandsAt text p cs)
    (le : p ≤ q) (boundary : isBoundary q text = true) :
    StandsAt text q (dropBytes (q - p) cs) := by
  have place := StandsAt.of_boundary boundary
  obtain ⟨ms, hcs, hq⟩ := h.between place le
  rw [hq, Nat.add_sub_cancel_left, hcs, dropBytes_append, ← hq]
  exact place

end FactorySync

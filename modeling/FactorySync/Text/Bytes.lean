/-!
# Byte offsets

Texts are lists of characters, but every position that the program reads, stores or prints is a
number of bytes of the UTF-8 form. This module cuts character lists at byte offsets.

`takeBytes n cs` and `dropBytes n cs` share one traversal, so they always split `cs` in two
(`takeBytes_append_dropBytes`). A cut that falls inside a character moves to its end; `isBoundary`
says when that does not happen.

The program keeps an offset in 32 bits, of which `stored` is left. It reads texts of fewer than
`offsetCount` bytes, where an offset never needs more (`stored_of_lt`). The scanner, the parser and
the edits are about such texts, and their offsets are plain natural numbers here. A line table is
made of any text, so it stores what it is given.
-/

namespace FactorySync

/-- How many different offsets 32 bits can tell apart, that is 2^32. -/
def offsetCount : Nat := 0x100000000

/-- What 32 bits keep of `n`. -/
def stored (n : Nat) : Nat := n % offsetCount

theorem stored_of_lt {n : Nat} (small : n < offsetCount) : stored n = n := Nat.mod_eq_of_lt small

/-- The number of bytes `cs` occupies. -/
def byteLength : List Char → Nat
  | [] => 0
  | c :: cs => c.utf8Size + byteLength cs

/-- The characters that start within the first `n` bytes of `cs`. -/
def takeBytes : Nat → List Char → List Char
  | 0, _ => []
  | _, [] => []
  | n + 1, c :: cs => c :: takeBytes (n + 1 - c.utf8Size) cs

/-- The characters that start after the first `n` bytes of `cs`. -/
def dropBytes : Nat → List Char → List Char
  | 0, cs => cs
  | _, [] => []
  | n + 1, c :: cs => dropBytes (n + 1 - c.utf8Size) cs

/-- Whether the offset `n` lies in `cs` and does not fall inside a character. -/
def isBoundary : Nat → List Char → Bool
  | 0, _ => true
  | _, [] => false
  | n + 1, c :: cs => c.utf8Size ≤ n + 1 && isBoundary (n + 1 - c.utf8Size) cs

/-- The characters of `cs` from the byte offset `start` up to `stop`. -/
def sliceBytes (start stop : Nat) (cs : List Char) : List Char :=
  takeBytes (stop - start) (dropBytes start cs)

theorem takeBytes_append_dropBytes (n : Nat) (cs : List Char) :
    takeBytes n cs ++ dropBytes n cs = cs := by
  induction cs generalizing n with
  | nil => cases n <;> rfl
  | cons c cs ih =>
    cases n with
    | zero => rfl
    | succ n => simp [takeBytes, dropBytes, ih]

theorem length_le_byteLength (cs : List Char) : cs.length ≤ byteLength cs := by
  induction cs with
  | nil => exact Nat.le_refl 0
  | cons c cs ih =>
    have := c.utf8Size_pos
    rw [List.length_cons, byteLength]
    omega

theorem byteLength_append (cs ds : List Char) :
    byteLength (cs ++ ds) = byteLength cs + byteLength ds := by
  induction cs with
  | nil => simp [byteLength]
  | cons c cs ih => simp [byteLength, ih, Nat.add_assoc]

/-- On a boundary the first part has exactly the asked number of bytes. -/
theorem byteLength_takeBytes {n : Nat} {cs : List Char} (h : isBoundary n cs = true) :
    byteLength (takeBytes n cs) = n := by
  induction cs generalizing n with
  | nil => cases n <;> simp_all [isBoundary, takeBytes, byteLength]
  | cons c cs ih =>
    cases n with
    | zero => rfl
    | succ n =>
      simp only [isBoundary, Bool.and_eq_true, decide_eq_true_eq] at h
      simp only [takeBytes, byteLength, ih h.2]
      omega

end FactorySync

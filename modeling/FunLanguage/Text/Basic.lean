/-!
# Texts as lists of characters

Positions in a text are byte offsets of its UTF-8 encoding, so `byteLength` is the measure that
turns a part of a text into a distance. `splitAfter` cuts a list into the pieces that end with a
terminator; nothing is lost by the cut (`flatten_splitAfter`).
-/

namespace FunLanguage.Text

/-- The number of bytes that the text occupies in UTF-8. -/
def byteLength : List Char → Nat
  | [] => 0
  | c :: cs => c.utf8Size + byteLength cs

@[simp] theorem byteLength_nil : byteLength [] = 0 := rfl

@[simp] theorem byteLength_cons (c : Char) (cs : List Char) :
    byteLength (c :: cs) = c.utf8Size + byteLength cs := rfl

@[simp] theorem byteLength_append (cs ds : List Char) :
    byteLength (cs ++ ds) = byteLength cs + byteLength ds := by
  induction cs with
  | nil => simp
  | cons c cs ih => rw [List.cons_append, byteLength_cons, byteLength_cons, ih, Nat.add_assoc]

/-- A text has at least one byte for each character. -/
theorem length_le_byteLength (cs : List Char) : cs.length ≤ byteLength cs := by
  induction cs with
  | nil => simp
  | cons c cs ih =>
    have := Char.utf8Size_pos c
    simp only [List.length_cons, byteLength_cons]
    omega

/-- Cuts a list after each element that `isEnd` accepts. The last piece may lack its terminator,
and no piece is empty. -/
def splitAfter {α : Type} (isEnd : α → Bool) : List α → List (List α)
  | [] => []
  | a :: as =>
    if isEnd a then [a] :: splitAfter isEnd as
    else
      match splitAfter isEnd as with
      | [] => [[a]]
      | piece :: pieces => (a :: piece) :: pieces

/-- The pieces, in order, are the whole list. -/
theorem flatten_splitAfter {α : Type} (isEnd : α → Bool) (as : List α) :
    (splitAfter isEnd as).flatten = as := by
  induction as with
  | nil => rfl
  | cons a as ih =>
    simp only [splitAfter]
    split
    · simp [ih]
    · split
      · next h => simpa [h] using ih
      · next h => rw [h] at ih; simpa using ih

/-- Removes the longest run of elements that `drop` accepts from the end of a list. -/
def trimEnd {α : Type} (drop : α → Bool) (as : List α) : List α :=
  (as.reverse.dropWhile drop).reverse

/-- Removes the longest runs of elements that `drop` accepts from both ends of a list. -/
def trim {α : Type} (drop : α → Bool) (as : List α) : List α :=
  trimEnd drop (as.dropWhile drop)

/-- Whether the character is a carriage return or a line feed. -/
def isLineEnd (c : Char) : Bool :=
  c == '\r' || c == '\n'

/-- The lines of a text, each with its line feed. -/
def lines (cs : List Char) : List (List Char) :=
  splitAfter (· == '\n') cs

end FunLanguage.Text

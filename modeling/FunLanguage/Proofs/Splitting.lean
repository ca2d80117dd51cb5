import FunLanguage.Text.Basic
import Mathlib.Data.List.DropRight
import Mathlib.Data.List.Induction

/-!
# Lists that are cut behind terminators

A list is cut behind its first terminator, and then the rest of it is (`splitAfter_append_cons`). So
what holds of the pieces is shown by going from one terminator to the next (`terminator_induction`).
What stands at the end of a piece is taken off by `trimEnd`, which looks at the members of the piece
only.
-/

namespace FunLanguage.Text

variable {α : Type}

/-! ## Pieces -/

/-- What holds of lists without a terminator, and of a list whose part behind its first terminator
it holds of, holds of every list. -/
theorem terminator_induction (x : α) {motive : List α → Prop} (nil : motive [])
    (last : ∀ as, as ≠ [] → x ∉ as → motive as)
    (piece : ∀ front rest, x ∉ front → motive rest → motive (front ++ x :: rest)) (as : List α) :
    motive as := by
  suffices ∀ front : List α, x ∉ front → motive (front ++ as) from this [] List.not_mem_nil
  induction as with
  | nil =>
    intro front none
    rw [List.append_nil]
    by_cases empty : front = []
    · exact empty ▸ nil
    · exact last front empty none
  | cons a as ih =>
    intro front none
    by_cases ends : a = x
    · exact ends ▸ piece front as (ends ▸ none) (ih [] List.not_mem_nil)
    · have longer := ih (front ++ [a]) (by simp [none, Ne.symm ends])
      rw [List.append_assoc] at longer
      exact longer

section

variable [BEq α] [LawfulBEq α] {x : α}

/-- A list without a terminator is one piece. -/
theorem splitAfter_eq_singleton {as : List α} (nonempty : as ≠ []) (none : x ∉ as) :
    splitAfter (· == x) as = [as] := by
  induction as with
  | nil => exact absurd rfl nonempty
  | cons a as ih =>
    obtain ⟨other, others⟩ := List.ne_and_not_mem_of_not_mem_cons none
    rw [splitAfter, beq_eq_false_iff_ne.mpr other.symm]
    cases as with
    | nil => rfl
    | cons b bs => rw [ih (List.cons_ne_nil b bs) others]; rfl

/-- The first piece goes up to the first terminator. -/
theorem splitAfter_append_cons {front : List α} (none : x ∉ front) (rest : List α) :
    splitAfter (· == x) (front ++ x :: rest) = (front ++ [x]) :: splitAfter (· == x) rest := by
  induction front with
  | nil => rw [List.nil_append, splitAfter, beq_self_eq_true]; rfl
  | cons b front ih =>
    obtain ⟨other, others⟩ := List.ne_and_not_mem_of_not_mem_cons none
    rw [List.cons_append, splitAfter, beq_eq_false_iff_ne.mpr other.symm, ih others]
    rfl

theorem ne_nil_of_mem_splitAfter {as piece : List α} (mem : piece ∈ splitAfter (· == x) as) :
    piece ≠ [] := by
  induction as using terminator_induction x with
  | nil => cases mem
  | last as nonempty none =>
    rw [splitAfter_eq_singleton nonempty none] at mem
    exact List.mem_singleton.mp mem ▸ nonempty
  | piece front rest none ih =>
    rw [splitAfter_append_cons none] at mem
    rcases List.mem_cons.mp mem with rfl | mem
    · exact List.append_ne_nil_of_right_ne_nil _ (List.cons_ne_nil _ _)
    · exact ih mem

end

/-! ## Ends that are taken off -/

variable {drop : α → Bool}

theorem trimEnd_eq_rdropWhile (drop : α → Bool) (as : List α) :
    trimEnd drop as = as.rdropWhile drop :=
  rfl

/-- A list whose first member is to be kept stays as it is. -/
theorem dropWhile_of_head? {as : List α} (kept : ∀ a ∈ as.head?, drop a = false) :
    as.dropWhile drop = as := by
  cases as with
  | nil => rfl
  | cons a as => rw [List.dropWhile_cons, kept a rfl]; rfl

theorem of_mem_head?_dropWhile {as : List α} {a : α} (mem : a ∈ (as.dropWhile drop).head?) :
    drop a = false := by
  have stopped := List.head?_dropWhile_not drop as
  rwa [Option.mem_def.mp mem] at stopped

theorem rdropWhile_append_of_pos {as bs : List α} (gone : ∀ b ∈ bs, drop b = true) :
    (as ++ bs).rdropWhile drop = as.rdropWhile drop := by
  rw [List.rdropWhile, List.reverse_append, List.dropWhile_append_of_pos (by simpa using gone)]
  rfl

theorem dropWhile_congr {drop' : α → Bool} {as : List α} (same : ∀ a ∈ as, drop a = drop' a) :
    as.dropWhile drop = as.dropWhile drop' := by
  induction as with
  | nil => rfl
  | cons a as ih =>
    obtain ⟨first, others⟩ := List.forall_mem_cons.mp same
    rw [List.dropWhile_cons, List.dropWhile_cons, first, ih others]

theorem trimEnd_congr {drop' : α → Bool} {as : List α} (same : ∀ a ∈ as, drop a = drop' a) :
    trimEnd drop as = trimEnd drop' as := by
  rw [trimEnd, trimEnd, dropWhile_congr fun a mem => same a (List.mem_reverse.mp mem)]

/-- What is kept reaches at least as far as the last member that is to be kept. -/
theorem prefix_trimEnd {front back : List α} {a b : α} (mem : b ∈ a :: back)
    (keeps : drop b = false) : front ++ [a] <+: trimEnd drop (front ++ a :: back) := by
  induction back using List.reverseRec with
  | nil =>
    obtain rfl := List.mem_singleton.mp mem
    have kept : trimEnd drop (front ++ [b]) = front ++ [b] :=
      List.rdropWhile_concat_neg _ _ _ (by simp [keeps])
    exact ⟨[], by rw [List.append_nil, kept]⟩
  | append_singleton back last ih =>
    rw [trimEnd_eq_rdropWhile, ← List.cons_append, ← List.append_assoc]
    by_cases drops : drop last = true
    · rw [List.rdropWhile_concat_pos _ _ _ drops]
      rw [← List.cons_append, List.mem_append, List.mem_singleton] at mem
      rcases mem with mem | rfl
      · exact ih mem
      · cases drops.symm.trans keeps
    · rw [List.rdropWhile_concat_neg _ _ _ drops]
      exact ⟨back ++ [last], by simp⟩

end FunLanguage.Text

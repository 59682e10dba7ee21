import Mathlib.Data.List.Basic
import Mathlib.Data.Nat.ModEq

/-!
# Lines of text

## Main definitions

* `lines text`: the text split at its newlines
* `WholeLines text`: the text ends at the end of a line, or is empty

## Main results

* `mem_lines`: a line between whole lines and a newline is one of the lines
* `lines_flatMap`: the lines of a text written line by line
-/

namespace Data

/-- The text split at its newlines; the last element is what follows the last newline. -/
def lines (text : List Char) : List (List Char) := text.splitOn '\n'

/-- The text is empty or ends with a newline. -/
def WholeLines (text : List Char) : Prop := text = [] ∨ ∃ t, text = t ++ ['\n']

theorem wholeLines_nil : WholeLines [] := Or.inl rfl

theorem WholeLines.append {s t : List Char} (hs : WholeLines s) (ht : WholeLines t) :
    WholeLines (s ++ t) := by
  rcases ht with rfl | ⟨t, rfl⟩
  · rwa [List.append_nil]
  · exact Or.inr ⟨s ++ t, (List.append_assoc s t ['\n']).symm⟩

theorem beq_newline {line : List Char} (h : '\n' ∉ line) : ∀ c ∈ line, (c == '\n') = false := by
  intro c hc
  rw [beq_eq_false_iff_ne]
  rintro rfl
  exact h hc

theorem lines_cons_newline {line : List Char} (h : '\n' ∉ line) (rest : List Char) :
    lines (line ++ '\n' :: rest) = line :: lines rest :=
  List.splitOnP_append_cons_of_forall_mem (beq_newline h) '\n' rfl rest

theorem lines_of_not_mem {line : List Char} (h : '\n' ∉ line) : lines line = [line] :=
  List.splitOnP_eq_singleton (beq_newline h)

/-- **A line after whole lines and before a newline** is one of the lines. -/
theorem mem_lines {before line : List Char} (hb : WholeLines before) (h : '\n' ∉ line)
    (rest : List Char) : line ∈ lines (before ++ (line ++ '\n' :: rest)) := by
  have hline := lines_cons_newline h rest
  rcases hb with rfl | ⟨t, rfl⟩
  · rw [List.nil_append, hline]
    exact List.mem_cons_self
  · have hsplit : lines (t ++ '\n' :: (line ++ '\n' :: rest)) =
        lines t ++ lines (line ++ '\n' :: rest) := List.splitOnP_append_cons _ _ rfl
    rw [List.append_assoc, List.singleton_append, hsplit, hline]
    exact List.mem_append_right _ List.mem_cons_self

/-- The lines of a text written line by line, with an unfinished line at its end. -/
theorem lines_flatMap {ls : List (List Char)} (hls : ∀ line ∈ ls, '\n' ∉ line) {rest : List Char}
    (hrest : '\n' ∉ rest) : lines (ls.flatMap (· ++ ['\n']) ++ rest) = ls ++ [rest] := by
  induction ls with
  | nil => exact lines_of_not_mem hrest
  | cons line ls ih =>
    rw [List.flatMap_cons, List.append_assoc, List.append_assoc, List.singleton_append,
      lines_cons_newline (hls line List.mem_cons_self),
      ih fun l hl => hls l (List.mem_cons_of_mem _ hl), List.cons_append]

end Data

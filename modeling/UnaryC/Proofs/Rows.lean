import Mathlib.Data.List.Basic
import UnaryC.Proofs.Numeral

/-!
# Texts made of rows

A row is a line with a line feed behind it. Rows that hold no line feed themselves can be told apart
from the end of a text, whatever stands before them.
-/
namespace UnaryC.Text

/-- What stands before each of the line feeds, from the one before it on. -/
def rows (text : String) : List String :=
  (text.toList.splitOn '\n').dropLast.map String.ofList

def ofRows (lines : List String) : String :=
  String.join (lines.map (· ++ "\n"))

theorem ofRows_cons (line : String) (lines : List String) :
    ofRows (line :: lines) = line ++ "\n" ++ ofRows lines := by
  rw [ofRows, List.map_cons, String.join_cons, ofRows]

theorem rows_line (a : String) : rows (a ++ "\n") = (a.toList.splitOn '\n').map String.ofList := by
  have hsplit : (a ++ "\n").toList = a.toList ++ '\n' :: [] := by simp
  rw [rows, hsplit, List.splitOn_append_cons_self, List.splitOn_nil, List.dropLast_concat]

theorem rows_append (a b : String) : rows (a ++ "\n" ++ b) = rows (a ++ "\n") ++ rows b := by
  have hsplit : (a ++ "\n" ++ b).toList = a.toList ++ '\n' :: b.toList := by simp
  rw [rows_line, rows, rows, hsplit, List.splitOn_append_cons_self,
    List.dropLast_append_of_ne_nil (List.splitOn_ne_nil _ _), List.map_append]

theorem rows_line_of_not_mem {a : String} (h : '\n' ∉ a.toList) : rows (a ++ "\n") = [a] := by
  rw [rows_line, List.splitOn_eq_singleton h, List.map_singleton, String.ofList_toList]

theorem rows_line_injective {a b : String} (h : rows (a ++ "\n") = rows (b ++ "\n")) : a = b := by
  rw [rows_line, rows_line] at h
  have hsplit := (List.map_inj_right fun _ _ => String.ofList_injective).mp h
  have hjoin := congrArg (List.intercalate ['\n']) hsplit
  rw [List.intercalate_splitOn, List.intercalate_splitOn] at hjoin
  exact String.toList_inj.mp hjoin

theorem rows_ofRows {lines : List String} (h : ∀ l ∈ lines, '\n' ∉ l.toList) :
    rows (ofRows lines) = lines := by
  induction lines with
  | nil => rfl
  | cons line lines ih =>
    obtain ⟨hline, hlines⟩ := List.forall_mem_cons.mp h
    rw [ofRows_cons, rows_append, rows_line_of_not_mem hline, ih hlines, List.singleton_append]

/-- Rows are read back from behind anything that ends a line. -/
theorem rows_append_ofRows (a : String) {lines : List String} (h : ∀ l ∈ lines, '\n' ∉ l.toList) :
    rows (a ++ "\n" ++ ofRows lines) = rows (a ++ "\n") ++ lines := by
  rw [rows_append, rows_ofRows h]

/-- Two texts fall apart at the last place of a character. -/
theorem append_cons_inj_of_not_mem {c : Char} {a b s t : List Char} (hs : c ∉ s) (ht : c ∉ t)
    (h : a ++ c :: s = b ++ c :: t) : a = b ∧ s = t := by
  rcases List.append_eq_append_iff.mp h with ⟨m, rfl, hm⟩ | ⟨m, rfl, hm⟩
  · cases m with
    | nil => simpa using hm
    | cons d m => exact absurd (List.cons.inj hm).2 fun hs' => hs (by rw [hs']; simp)
  · cases m with
    | nil => simpa using hm.symm
    | cons d m => exact absurd (List.cons.inj hm).2 fun ht' => ht (by rw [ht']; simp)

end UnaryC.Text

import Mathlib.Data.List.DropRight
import UnaryC.Proofs.Rows
import UnaryC.Tree.Eval
import UnaryC.Tree.Outline

/-!
# The outline of a tree tells the tree

The name of a function can be any text, also one that looks like rows of an outline, so an outline
is read from its end. The last row is that of the constant. Its dashes say how deep the constant is,
and so how many rows belong to the expression. The row before them is that of the return. What is
left without the first row is that of the function, and its line stands behind the last blank.
-/
namespace UnaryC.Tree

open Text

/-- A row of an outline without its line feed. -/
def rowText (depth : Nat) (title : String) (line : Nat) : String :=
  String.ofList (List.replicate depth '-') ++ title ++ ", ln " ++ Decimal.ofNat line

theorem outlineRow_eq (depth : Nat) (title : String) (line : Nat) :
    outlineRow depth title line = rowText depth title line ++ "\n" :=
  rfl

theorem toList_rowText (depth : Nat) (title : String) (line : Nat) :
    (rowText depth title line).toList =
      List.replicate depth '-' ++ (title.toList ++ [',', ' ', 'l', 'n']) ++
        ' ' :: (Decimal.ofNat line).toList := by
  simp [rowText]

theorem newline_not_mem_rowText {title : String} (h : '\n' ∉ title.toList) (depth line : Nat) :
    '\n' ∉ (rowText depth title line).toList := by
  have hline : '\n' ∉ (Decimal.ofNat line).toList := Decimal.not_mem_ofNat (by decide) line
  simp [toList_rowText, h, hline]

/-- The number of dashes that a line starts with. -/
def dashes (line : String) : Nat :=
  (line.toList.takeWhile (· == '-')).length

theorem dashes_rowText {title : String} (h : title.toList.head? ≠ some '-') (depth line : Nat) :
    dashes (rowText depth title line) = depth := by
  have hdash : ∀ c ∈ List.replicate depth '-', (c == '-') = true := by simp
  have hrest : ∀ c ∈ ((title.toList ++ [',', ' ', 'l', 'n']) ++
      ' ' :: (Decimal.ofNat line).toList).head?, (c == '-') = false := by
    cases htitle : title.toList with
    | nil => simp
    | cons c rest => simpa [htitle] using h
  rw [dashes, toList_rowText, List.append_assoc,
    (Token.takeWhile_append_of_head? hdash hrest).1, List.length_replicate]

/-- A row tells the depth, the title and the line, if the title does not start with a dash. -/
theorem rowText_inj {depth depth' line line' : Nat} {title title' : String}
    (ht : title.toList.head? ≠ some '-') (ht' : title'.toList.head? ≠ some '-')
    (h : rowText depth title line = rowText depth' title' line') :
    depth = depth' ∧ title = title' ∧ line = line' := by
  have hdepth : depth = depth' := by
    rw [← dashes_rowText ht depth line, h, dashes_rowText ht']
  subst hdepth
  have hchars := congrArg String.toList h
  rw [toList_rowText, toList_rowText] at hchars
  have hblank : ∀ n, ' ' ∉ (Decimal.ofNat n).toList := Decimal.not_mem_ofNat (by decide)
  obtain ⟨hfront, hline⟩ := append_cons_inj_of_not_mem (hblank line) (hblank line') hchars
  have htitle := List.append_cancel_right (List.append_cancel_left hfront)
  exact ⟨rfl, String.toList_inj.mp htitle, Decimal.ofNat_injective (String.toList_inj.mp hline)⟩

namespace Expr

/-- The rows of an expression, the first of which has `depth` dashes. -/
def rows (depth : Nat) : Expr → List String
  | constant value line => [rowText depth ("Constant(" ++ Decimal.ofInt32 value ++ ")") line]
  | unary op operand line => rowText depth op.title line :: operand.rows (depth + 1)

theorem outline_eq_ofRows (depth : Nat) (e : Expr) : e.outline depth = ofRows (e.rows depth) := by
  induction e generalizing depth with
  | constant value line =>
    rw [rows, ofRows_cons, outline, outlineRow_eq]
    exact String.append_empty.symm
  | unary op operand line ih => rw [outline, rows, ofRows_cons, outlineRow_eq, ih]

theorem newline_not_mem_rows (depth : Nat) (e : Expr) : ∀ l ∈ e.rows depth, '\n' ∉ l.toList := by
  induction e generalizing depth with
  | constant value line =>
    have hvalue : '\n' ∉ (Decimal.ofInt32 value).toList :=
      Decimal.not_mem_ofInt32 (by decide) (by decide) value
    exact List.forall_mem_singleton.mpr (newline_not_mem_rowText (by simp [hvalue]) depth line)
  | unary op operand line ih =>
    have hop : '\n' ∉ op.title.toList := by cases op <;> decide
    exact List.forall_mem_cons.mpr ⟨newline_not_mem_rowText hop depth line, ih (depth + 1)⟩

theorem head?_constant_ne (value : Int32) :
    ("Constant(" ++ Decimal.ofInt32 value ++ ")").toList.head? ≠ some '-' := by
  simp

theorem title_injective {op op' : UnaryOp} (h : op.title = op'.title) : op = op' := by
  revert h
  cases op <;> cases op' <;> decide

theorem head?_title_ne (op : UnaryOp) : op.title.toList.head? ≠ some '-' := by
  cases op <;> decide

/-- Every row has a dash more than the row above it. -/
theorem map_dashes_rows (depth : Nat) (e : Expr) :
    (e.rows depth).map dashes = List.range' depth (e.ops.length + 1) := by
  induction e generalizing depth with
  | constant value line =>
    rw [rows, List.map_singleton, dashes_rowText (head?_constant_ne value)]
    rfl
  | unary op operand line ih =>
    rw [rows, List.map_cons, dashes_rowText (head?_title_ne op), ih]
    rfl

theorem length_rows (depth : Nat) (e : Expr) : (e.rows depth).length = e.ops.length + 1 := by
  rw [← List.length_map, map_dashes_rows, List.length_range']

theorem length_ops_of_rows {depth : Nat} {e e' : Expr} (h : e.rows depth = e'.rows depth) :
    e.ops.length = e'.ops.length := by
  have hlength := congrArg List.length h
  rw [length_rows, length_rows] at hlength
  exact Nat.succ.inj hlength

theorem rows_injective {depth : Nat} {e e' : Expr} (h : e.rows depth = e'.rows depth) : e = e' := by
  induction e generalizing depth e' with
  | constant value line =>
    cases e' with
    | constant value' line' =>
      obtain ⟨-, htitle, rfl⟩ := rowText_inj (head?_constant_ne value) (head?_constant_ne value')
        (List.cons.inj h).1
      have hvalue := (String.append_right_inj _).mp ((String.append_left_inj _).mp htitle)
      rw [Decimal.ofInt32_injective hvalue]
    | unary op' operand' line' => exact absurd (length_ops_of_rows h) (by simp [ops])
  | unary op operand line ih =>
    cases e' with
    | constant value' line' => exact absurd (length_ops_of_rows h) (by simp [ops])
    | unary op' operand' line' =>
      obtain ⟨hrow, hrows⟩ := List.cons.inj h
      obtain ⟨-, htitle, rfl⟩ := rowText_inj (head?_title_ne op) (head?_title_ne op') hrow
      rw [title_injective htitle, ih hrows]

/-- Behind anything, the rows of an expression say how many there are. -/
theorem length_ops_of_append_rows {depth : Nat} {front front' : List String} {e e' : Expr}
    (h : front ++ e.rows depth = front' ++ e'.rows depth) : e.ops.length = e'.ops.length := by
  have hlast : ∀ (front : List String) (e : Expr),
      ((front ++ e.rows depth).map dashes).getLast? = some (depth + e.ops.length) := by
    intro front e
    rw [List.map_append, map_dashes_rows, List.range'_concat, ← List.append_assoc,
      List.getLast?_concat, Nat.one_mul]
  have hdepth := hlast front e
  rw [h, hlast, Option.some.injEq] at hdepth
  omega

end Expr

theorem rows_outline (p : Program) :
    Text.rows p.outline =
      (rowText 0 "Program" p.line ::
        Text.rows (rowText 1 ("Function(" ++ p.function.name ++ ")") p.function.line ++ "\n")) ++
      rowText 2 "Return" p.function.body.line :: p.function.body.value.rows 3 := by
  have hprogram : '\n' ∉ (rowText 0 "Program" p.line).toList :=
    newline_not_mem_rowText (by decide) 0 p.line
  have hreturn : '\n' ∉ (rowText 2 "Return" p.function.body.line).toList :=
    newline_not_mem_rowText (by decide) 2 p.function.body.line
  have hbody : ∀ l ∈ rowText 2 "Return" p.function.body.line :: p.function.body.value.rows 3,
      '\n' ∉ l.toList :=
    List.forall_mem_cons.mpr ⟨hreturn, p.function.body.value.newline_not_mem_rows 3⟩
  rw [Program.outline, Function.outline, Return.outline, Expr.outline_eq_ofRows, outlineRow_eq,
    outlineRow_eq, outlineRow_eq, ← ofRows_cons, rows_append, rows_line_of_not_mem hprogram,
    rows_append_ofRows _ hbody, List.singleton_append, List.cons_append]

/-- Trees with the same outline are the same. -/
theorem outline_injective {p q : Program} (h : p.outline = q.outline) : p = q := by
  have hrows := congrArg Text.rows h
  rw [rows_outline, rows_outline] at hrows
  have hlength : p.function.body.value.ops.length = q.function.body.value.ops.length := by
    rw [List.append_cons, List.append_cons _ _ (Expr.rows _ _)] at hrows
    exact Expr.length_ops_of_append_rows hrows
  obtain ⟨hfront, hbody⟩ := List.append_inj' hrows (by simp [Expr.length_rows, hlength])
  obtain ⟨hprogram, hfunction⟩ := List.cons.inj hfront
  obtain ⟨hreturn, hvalue⟩ := List.cons.inj hbody
  obtain ⟨-, -, hline⟩ := rowText_inj (by decide) (by decide) hprogram
  obtain ⟨-, htitle, hfunctionLine⟩ := rowText_inj (by simp) (by simp)
    (rows_line_injective hfunction)
  obtain ⟨-, -, hreturnLine⟩ := rowText_inj (by decide) (by decide) hreturn
  have hname := (String.append_right_inj _).mp ((String.append_left_inj _).mp htitle)
  obtain ⟨⟨name, ⟨value, returnLine⟩, functionLine⟩, line⟩ := p
  obtain ⟨⟨name', ⟨value', returnLine'⟩, functionLine'⟩, line'⟩ := q
  cases hname
  cases hline
  cases hfunctionLine
  cases hreturnLine
  cases Expr.rows_injective hvalue
  rfl

/-- The outline of a tree determines the tree, with all its lines and whatever its name is. The last
rows, one for each operator and one for the constant, start with 3, 4 and so on dashes. -/
theorem outline_determines_tree :
    (∀ p q : Program, p.outline = q.outline ↔ p = q) ∧
    ∀ p : Program,
      ((Text.rows p.outline).rtake (p.function.body.value.ops.length + 1)).map dashes =
        List.range' 3 (p.function.body.value.ops.length + 1) := by
  refine ⟨fun p q => ⟨outline_injective, congrArg Program.outline⟩, fun p => ?_⟩
  have hrows : (Text.rows p.outline).rtake (p.function.body.value.ops.length + 1) =
      p.function.body.value.rows 3 := by
    rw [rows_outline, List.append_cons, ← Expr.length_rows 3, List.rtake_eq_reverse_take_reverse,
      List.reverse_append, ← List.length_reverse, List.take_left, List.reverse_reverse]
  rw [hrows, Expr.map_dashes_rows]

/-- A function whose name looks like rows of an outline. -/
def imitating : Program :=
  { function :=
      { name := "f\n--Return\n---", body := { value := .constant 3 1, line := 1 }, line := 1 }
    line := 1 }

example : (Text.rows imitating.outline).map dashes = [0, 1, 2, 3, 2, 3] := by decide +kernel

end UnaryC.Tree

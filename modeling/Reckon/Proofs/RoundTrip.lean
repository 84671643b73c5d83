import Reckon.Proofs.Printing
import Reckon.Proofs.Written

/-!
# Printing and parsing

A line can make exactly the statements that are writable, and to print one and to parse it gives it
back: `Statement.parse_line_iff`.
-/

namespace Reckon.Statement

open Token (Kind)

/-- A line that says the statement, in infix form. -/
def line (statement : Statement) : String := String.ofList (Token.joined statement.words)

/-- Lines make writable statements only. -/
lemma writable_of_parse {fns : FunctionTable} {source : String} {statement : Statement}
    (made : parse fns source = .ok statement) : statement.Writable fns.contains := by
  obtain ⟨ks, written, forms⟩ := parse_eq_ok_iff.1 made
  exact writable_of_forms forms written.spelled

/-- The statements that lines make are those that are writable. The line of such a statement makes
it, and so does any other text that writes its words, whatever the blanks between them. -/
theorem parse_line_iff (fns : FunctionTable) (statement : Statement) :
    ((∃ source, parse fns source = .ok statement) ↔ statement.Writable fns.contains) ∧
    (parse fns statement.line = .ok statement ↔ statement.Writable fns.contains) ∧
    (statement.Writable fns.contains → ∀ source : String,
      Written statement.words source.toList → parse fns source = .ok statement) := by
  have parsed : statement.Writable fns.contains → ∀ source : String,
      Written statement.words source.toList → parse fns source = .ok statement :=
    fun h source written => parse_eq_ok_iff.2 ⟨_, written, h.forms⟩
  have printed : statement.Writable fns.contains → parse fns statement.line = .ok statement := by
    intro h
    apply parsed h
    rw [line, String.toList_ofList]
    exact Token.written_joined h.spelled
  refine ⟨⟨?_, fun h => ⟨_, printed h⟩⟩, ⟨writable_of_parse, printed⟩, parsed⟩
  intro made
  obtain ⟨source, made⟩ := made
  exact writable_of_parse made

/-- A definition whose body has conditionals in all three places of a conditional, an assignment in
an arm and in an argument, a sign in front of a sum and a difference of differences. Its line has
the parentheses that these need and no others, and it may be written with more blanks. -/
theorem parse_line_iff_nested :
    let fns : FunctionTable := .empty
    let args : List Expr := [.assign (.var "x") (.negate (.binary .add (.var "x") (.lit 1))),
      .binary .sub (.binary .sub (.lit 1) (.lit 2)) (.binary .sub (.lit 3) (.var "y"))]
    let body : Expr := .cond (.cond (.var "x") (.lit 1) (.lit 2))
      (.cond (.var "y") (.lit 3) (.lit 4))
      (.cond (.var "x") (.assign (.var "y") (.lit 5)) (.call "f" args))
    let statement : Statement := .define ⟨"f", ["x", "y"], body⟩
    let line := "deffn f(x,y)=(x?1:2)?(y?3:4):x?(y=5):f(x=-(x+1),1-2-(3-y))"
    let spaced :=
      " deffn f(x, y) = (x ? 1 : 2) ? (y?3:4) : x ? (y = 5) : f(x = -(x + 1), 1 - 2 - (3 - y)) "
    statement.Writable fns.contains ∧ Written statement.words spaced.toList ∧
      statement.line = line ∧ parse fns line = .ok statement ∧
      parse fns spaced = .ok statement := by
  intro fns args body statement line spaced
  have writable : statement.Writable fns.contains := by
    refine ⟨by decide, by decide, ?_⟩
    have name : ∀ n ∈ ["x", "y"], Expr.Writable (fun n => n == "f" || fns.contains n) (.var n) := by
      intro n mem
      simp only [List.mem_cons, List.not_mem_nil, or_false] at mem
      rcases mem with rfl | rfl <;> exact .var (by decide) (by decide)
    have x := name "x" (by simp)
    have y := name "y" (by simp)
    have literal : ∀ v : Int64, 0 ≤ v →
        Expr.Writable (fun n => n == "f" || fns.contains n) (.lit v) := fun _ => .lit
    have args : ∀ a ∈ args, Expr.Writable (fun n => n == "f" || fns.contains n) a := by
      simp only [args, List.forall_mem_cons]
      refine ⟨.assign x (.minus (.binary x (literal 1 (by decide)))), ?_, nofun⟩
      exact .binary (.binary (literal 1 (by decide)) (literal 2 (by decide)))
        (.binary (literal 3 (by decide)) y)
    exact .cond (.cond x (literal 1 (by decide)) (literal 2 (by decide)))
      (.cond y (literal 3 (by decide)) (literal 4 (by decide)))
      (.cond x (.assign y (literal 5 (by decide))) (.call (by decide) (by decide) args))
  have written : Written statement.words spaced.toList := by
    have lexed : (tokenize spaced).map (·.map Token.kind) = .ok (statement.words ++ [.eof]) := by
      decide +kernel
    cases made : tokenize spaced with
    | error e =>
      rw [made] at lexed
      cases lexed
    | ok tokens =>
      rw [made] at lexed
      obtain ⟨ks, written, kinds⟩ := Cursor.written_of_tokens made
      rwa [(List.append_inj' (kinds.symm.trans (Except.ok.inj lexed)) rfl).1] at written
  have same : statement.line = line := by decide +kernel
  obtain ⟨-, line_iff, parsed⟩ := parse_line_iff fns statement
  refine ⟨writable, written, same, ?_, parsed writable spaced written⟩
  rw [← same]
  exact line_iff.2 writable

end Reckon.Statement

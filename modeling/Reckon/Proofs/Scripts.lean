import Reckon.Proofs.Pieces

/-!
# Scripts

A script is carried out a line at a time, each line in the session that the one before left. What comes
of it is told by the answers to its lines (`Session.answers`): it has an outcome if every line has one
(`Session.Succeeds`), and otherwise it stops at the first line that has none (`Session.StopsAt`).

* `Session.executeAll_of_succeeds`, `Session.executeAll_of_stopsAt`: what lines lead to.
* `Session.succeeds_or_stopsAt`: one of the two is the case.
* `Session.runScript_append`: a script in two parts is the first part and then the second.
-/

namespace Reckon.Session

open Run Text

variable (engine : Engine) (depth : Nat)

/-- The session that lines leave, whatever comes of each of them. -/
def after (s : Session) (lines : List String) : Session :=
  lines.foldl (fun s line => (execute engine depth line s).2) s

/-- The answers to lines, each of which is carried out in the session that the one before left, whatever
came of that. -/
def answers (s : Session) : List String → List (Except (Stop LineError) Outcome)
  | [] => []
  | line :: rest => (execute engine depth line s).1 :: answers (execute engine depth line s).2 rest

/-- The text that an answer shows. -/
def shownAnswer? : Except (Stop LineError) Outcome → Option String
  | .ok outcome => outcome.shown?
  | .error _ => none

/-- The texts that lines show. -/
def shownTexts (s : Session) (lines : List String) : List String :=
  (answers engine depth s lines).filterMap shownAnswer?

/-- Whether a line of a script has an outcome other than `nothing`, even if its text is empty. -/
def speaks (s : Session) (source : String) : Bool :=
  (answers engine depth s (lines source)).any fun answer => (shownAnswer? answer).isSome

/-- Every line has an outcome. -/
def Succeeds (s : Session) (lines : List String) : Prop :=
  ∀ answer ∈ answers engine depth s lines, ∃ outcome, answer = .ok outcome

/-- The lines have outcomes up to one that stops and leaves `t`. -/
structure StopsAt (s : Session) (lines earlier : List String) (line : String) (stop : Stop LineError)
    (t : Session) : Prop where
  within : earlier ++ [line] <+: lines
  succeeds : Succeeds engine depth s earlier
  stops : execute engine depth line (after engine depth s earlier) = (.error stop, t)

section Answers

variable {engine : Engine} {depth : Nat} {s t : Session} {lines earlier : List String}
  {line : String} {stop : Stop LineError}

/-- The session behind lines is that behind the others once the first was carried out. -/
lemma after_cons {rest : List String} {answer : Except (Stop LineError) Outcome}
    (ran : execute engine depth line s = (answer, t)) :
    after engine depth s (line :: rest) = after engine depth t rest := by
  rw [after, List.foldl_cons, ran, after]

/-- The answers to lines are that to the first and those to the others. -/
lemma answers_cons {rest : List String} {answer : Except (Stop LineError) Outcome}
    (ran : execute engine depth line s = (answer, t)) :
    answers engine depth s (line :: rest) = answer :: answers engine depth t rest := by
  rw [answers, ran]

/-- What lines show is what the first shows and what the others do. -/
lemma shownTexts_cons {rest : List String} {outcome : Outcome}
    (ran : execute engine depth line s = (.ok outcome, t)) :
    shownTexts engine depth s (line :: rest) =
      outcome.shown?.toList ++ shownTexts engine depth t rest := by
  rw [shownTexts, answers_cons ran, List.filterMap_cons, shownAnswer?, shownTexts]
  cases outcome.shown? <;> rfl

/-- Lines may be carried out in two parts. -/
lemma after_append (s : Session) (xs ys : List String) :
    after engine depth s (xs ++ ys) = after engine depth (after engine depth s xs) ys :=
  List.foldl_append

/-- Lines may be answered in two parts. -/
lemma answers_append (s : Session) (xs ys : List String) :
    answers engine depth s (xs ++ ys) =
      answers engine depth s xs ++ answers engine depth (after engine depth s xs) ys := by
  induction xs generalizing s with
  | nil => rfl
  | cons x xs ih =>
    rcases ran : execute engine depth x s with ⟨answer, t⟩
    rw [List.cons_append, answers_cons ran, answers_cons ran, after_cons ran, ih, List.cons_append]

/-- There is an answer to each line. -/
lemma length_answers (s : Session) (lines : List String) :
    (answers engine depth s lines).length = lines.length := by
  induction lines generalizing s with
  | nil => rfl
  | cons line rest ih => rw [answers, List.length_cons, List.length_cons, ih]

/-- A line is answered in the session that the lines before it left. -/
lemma getElem?_answers {rest : List String} (split : lines = earlier ++ line :: rest) :
    (answers engine depth s lines)[earlier.length]? =
      some (execute engine depth line (after engine depth s earlier)).1 := by
  subst split
  rcases ran : execute engine depth line (after engine depth s earlier) with ⟨answer, t⟩
  rw [answers_append, answers_cons ran, List.getElem?_append_right (by rw [length_answers]),
    length_answers, Nat.sub_self]
  rfl

/-- What lines show is what their two parts do. -/
lemma shownTexts_append (s : Session) (xs ys : List String) :
    shownTexts engine depth s (xs ++ ys) =
      shownTexts engine depth s xs ++ shownTexts engine depth (after engine depth s xs) ys := by
  rw [shownTexts, answers_append, List.filterMap_append, shownTexts, shownTexts]

/-- Where there are no lines, none stops. -/
lemma succeeds_nil : Succeeds engine depth s [] := List.forall_mem_nil _

/-- Lines succeed if the first has an outcome and the others succeed behind it. -/
lemma succeeds_cons {rest : List String} : Succeeds engine depth s (line :: rest) ↔
    ∃ outcome t, execute engine depth line s = (.ok outcome, t) ∧ Succeeds engine depth t rest := by
  rcases ran : execute engine depth line s with ⟨answer, t⟩
  rw [Succeeds, answers_cons ran, List.forall_mem_cons]
  constructor
  · rintro ⟨⟨outcome, rfl⟩, others⟩
    exact ⟨outcome, t, rfl, others⟩
  · rintro ⟨outcome, _, ⟨⟩, others⟩
    exact ⟨⟨outcome, rfl⟩, others⟩

/-- Lines succeed if their first part does and then their second. -/
lemma succeeds_append {xs ys : List String} : Succeeds engine depth s (xs ++ ys) ↔
    Succeeds engine depth s xs ∧ Succeeds engine depth (after engine depth s xs) ys := by
  rw [Succeeds, answers_append, List.forall_mem_append, Succeeds, Succeeds]

/-- Lines have outcomes up to their end, or up to one that stops. -/
lemma succeeds_or_stopsAt (engine : Engine) (depth : Nat) (s : Session) (lines : List String) :
    Succeeds engine depth s lines ∨
      ∃ earlier line stop t, StopsAt engine depth s lines earlier line stop t := by
  induction lines generalizing s with
  | nil => exact .inl succeeds_nil
  | cons line rest ih =>
    rcases ran : execute engine depth line s with ⟨stop | outcome, t⟩
    · exact .inr ⟨[], line, stop, t, ⟨⟨rest, rfl⟩, succeeds_nil, ran⟩⟩
    · rcases ih t with all | ⟨earlier, other, stop, u, ⟨behind, split⟩, succeeds, stops⟩
      · exact .inl (succeeds_cons.2 ⟨outcome, t, ran, all⟩)
      · refine .inr ⟨line :: earlier, other, stop, u, ⟨behind, ?_⟩, ?_, ?_⟩
        · rw [List.cons_append, List.cons_append, split]
        · exact succeeds_cons.2 ⟨outcome, t, ran, succeeds⟩
        · rw [after_cons ran]
          exact stops

/-- More lines behind the one that stops make no difference. -/
lemma StopsAt.append (stops : StopsAt engine depth s lines earlier line stop t) (more : List String) :
    StopsAt engine depth s (lines ++ more) earlier line stop t :=
  ⟨stops.within.trans (List.prefix_append ..), stops.succeeds, stops.stops⟩

/-- A line that stops behind lines with outcomes. -/
lemma StopsAt.behind {first : List String} (succeeds : Succeeds engine depth s first)
    (stops : StopsAt engine depth (after engine depth s first) lines earlier line stop t) :
    StopsAt engine depth s (first ++ lines) (first ++ earlier) line stop t where
  within := by
    rw [List.append_assoc]
    exact (List.prefix_append_right_inj first).2 stops.within
  succeeds := succeeds_append.2 ⟨succeeds, stops.succeeds⟩
  stops := by
    rw [after_append]
    exact stops.stops

/-- A line with an outcome is followed by the others. -/
lemma executeAll_cons_of_ok {outcome : Outcome} {rest : List String}
    (ran : execute engine depth line s = (.ok outcome, t)) (number : Nat) :
    executeAll engine depth number (line :: rest) s =
      ((outcome.shown?.toList ++ ·) <$> executeAll engine depth (number + 1) rest) t := by
  rw [executeAll, bind_apply, mapError_apply, ran, ← bind_pure_comp]
  rfl

/-- Lines that have outcomes lead to the texts that they show. -/
lemma executeAll_of_succeeds (succeeds : Succeeds engine depth s lines) (number : Nat) :
    executeAll engine depth number lines s =
      (.ok (shownTexts engine depth s lines), after engine depth s lines) := by
  induction lines generalizing s number with
  | nil => rfl
  | cons line rest ih =>
    obtain ⟨outcome, t, ran, others⟩ := succeeds_cons.1 succeeds
    rw [executeAll_cons_of_ok ran, map_apply, ih others, shownTexts_cons ran, after_cons ran]

/-- Lines with one that stops lead to its error, with its number, and to the session that it left. -/
lemma executeAll_of_stopsAt (stops : StopsAt engine depth s lines earlier line stop t) (number : Nat) :
    executeAll engine depth number lines s =
      (.error (stop.map (⟨number + earlier.length, trim line, ·⟩)), t) := by
  obtain ⟨⟨behind, rfl⟩, succeeds, stops⟩ := stops
  induction earlier generalizing s number with
  | nil =>
    have ran : execute engine depth line s = (.error stop, t) := stops
    rw [List.nil_append, List.singleton_append, executeAll, bind_apply, mapError_apply, ran]
    rfl
  | cons first rest ih =>
    obtain ⟨outcome, u, ran, others⟩ := succeeds_cons.1 succeeds
    rw [after_cons ran] at stops
    have count : number + (first :: rest).length = number + 1 + rest.length := by
      rw [List.length_cons]
      omega
    rw [List.cons_append, List.cons_append, executeAll_cons_of_ok ran, map_apply,
      ih (number + 1) others stops, count]

/-- What lines do depends on them only as far as `trim` leaves them. -/
lemma executeAll_map_trim (lines : List String) (number : Nat) :
    executeAll engine depth number (lines.map trim) = executeAll engine depth number lines := by
  induction lines generalizing number with
  | nil => rfl
  | cons line rest ih =>
    rw [List.map_cons, executeAll, executeAll, ih, trim_trim, execute_trim_congr (trim_trim line)]

/-- An empty line at the end leads to nothing. -/
lemma executeAll_append_empty (lines : List String) (number : Nat) :
    executeAll engine depth number (lines ++ [""]) = executeAll engine depth number lines := by
  induction lines generalizing number with
  | nil =>
    funext s
    have silent : execute engine depth "" s = (.ok .nothing, s) :=
      execute_of_silent (.inl (by decide))
    rw [List.nil_append, executeAll_cons_of_ok silent]
    rfl
  | cons line rest ih => rw [List.cons_append, executeAll, executeAll, ih]

/-- A script does what its pieces say. -/
lemma executeAll_pieces (source : String) (number : Nat) :
    executeAll engine depth number (pieces source) =
      executeAll engine depth number (Text.lines source) := by
  rw [← executeAll_map_trim, ← executeAll_map_trim (Text.lines source)]
  cases map_trim_pieces source with
  | inl same => rw [same]
  | inr same => rw [same, executeAll_append_empty]

/-- Blanks around lines do not change the answers. -/
lemma answers_map_trim (s : Session) (lines : List String) :
    answers engine depth s (lines.map trim) = answers engine depth s lines := by
  induction lines generalizing s with
  | nil => rfl
  | cons line rest ih =>
    rcases ran : execute engine depth line s with ⟨answer, t⟩
    have ran' : execute engine depth (trim line) s = (answer, t) := by
      rw [execute_trim_congr (trim_trim line), ran]
    rw [List.map_cons, answers_cons ran', answers_cons ran, ih]

/-- The pieces of a script show what its lines show. -/
lemma shownTexts_pieces (s : Session) (source : String) :
    shownTexts engine depth s (pieces source) = shownTexts engine depth s (Text.lines source) := by
  rw [shownTexts, shownTexts, ← answers_map_trim, ← answers_map_trim s (Text.lines source)]
  cases map_trim_pieces source with
  | inl same => rw [same]
  | inr same =>
    have silent : ∀ t, answers engine depth t [""] = [.ok .nothing] := by
      intro t
      rw [answers_cons (execute_of_silent (.inl (by decide))), answers]
    rw [same, answers_append, silent, List.filterMap_append]
    exact List.append_nil _

/-- A script speaks if it shows a text. -/
lemma speaks_eq (s : Session) (source : String) :
    speaks engine depth s source = !(shownTexts engine depth s (Text.lines source)).isEmpty := by
  rw [speaks, shownTexts]
  induction answers engine depth s (Text.lines source) with
  | nil => rfl
  | cons answer rest ih =>
    rw [List.any_cons, ih, List.filterMap_cons]
    cases shownAnswer? answer <;> rfl

end Answers

section Parts

variable {engine : Engine} {depth : Nat} {s t : Session} {source : String}
  {lines earlier : List String} {line : String} {stop : Stop LineError}

/-- A script whose lines have outcomes shows them. -/
lemma runScript_of_succeeds
    (reads : executeAll engine depth 1 lines = executeAll engine depth 1 (Text.lines source))
    (succeeds : Succeeds engine depth s lines) :
    runScript engine depth source s =
      (.ok ("\n".intercalate (shownTexts engine depth s lines)), after engine depth s lines) := by
  rw [runScript, bind_pure_comp, map_apply, ← reads, executeAll_of_succeeds succeeds]

/-- A script with a line that stops ends there. -/
lemma runScript_of_stopsAt
    (reads : executeAll engine depth 1 lines = executeAll engine depth 1 (Text.lines source))
    (stops : StopsAt engine depth s lines earlier line stop t) :
    runScript engine depth source s =
      (.error (stop.map (⟨1 + earlier.length, trim line, ·⟩)), t) := by
  rw [runScript, bind_pure_comp, map_apply, ← reads, executeAll_of_stopsAt stops]

/-- A script has an outcome if all its lines have, and it stops where one of them does. -/
lemma runScript_cases
    (reads : executeAll engine depth 1 lines = executeAll engine depth 1 (Text.lines source))
    (s : Session) :
    (Succeeds engine depth s lines ∧ runScript engine depth source s =
      (.ok ("\n".intercalate (shownTexts engine depth s lines)), after engine depth s lines)) ∨
    ∃ earlier line stop t, StopsAt engine depth s lines earlier line stop t ∧
      runScript engine depth source s =
        (.error (stop.map (⟨1 + earlier.length, trim line, ·⟩)), t) := by
  rcases succeeds_or_stopsAt engine depth s lines with succeeds | ⟨earlier, line, stop, t, stops⟩
  · exact .inl ⟨succeeds, runScript_of_succeeds reads succeeds⟩
  · exact .inr ⟨earlier, line, stop, t, stops, runScript_of_stopsAt reads stops⟩

/-- A script that stops does so at one of its lines, and leaves what this line left. -/
lemma exists_stopsAt_of_runScript {stop : Stop ScriptError}
    (stopped : (runScript engine depth source s).1 = .error stop) :
    ∃ earlier line why,
      StopsAt engine depth s (Text.lines source) earlier line why (runScript engine depth source s).2 ∧
        stop = why.map (⟨earlier.length + 1, trim line, ·⟩) := by
  rcases runScript_cases (rfl : executeAll engine depth 1 (Text.lines source) = _) s with
    ⟨-, ran⟩ | ⟨earlier, line, why, t, stops, ran⟩
  · rw [ran] at stopped
    cases stopped
  · rw [ran] at stopped ⊢
    exact ⟨earlier, line, why, stops, by rw [← Except.error.inj stopped, Nat.add_comm]⟩

/-- What a script shows whose parts show these texts: the parts are joined by a newline if both of them
show any. -/
def joined (xs ys : List String) : String :=
  if xs.isEmpty then "\n".intercalate ys
  else if ys.isEmpty then "\n".intercalate xs
  else "\n".intercalate xs ++ "\n" ++ "\n".intercalate ys

/-- Texts in two parts are joined as the parts are. -/
lemma intercalate_append (xs ys : List String) : "\n".intercalate (xs ++ ys) = joined xs ys := by
  cases xs with
  | nil => rfl
  | cons x xs =>
    cases ys with
    | nil => exact congrArg _ (List.append_nil _)
    | cons y ys => exact String.intercalate_append_of_ne_nil nofun nofun

/-- The parts of a script are joined with a newline if both speak. -/
lemma joined_shownTexts (s t : Session) (a b : String) :
    joined (shownTexts engine depth s (Text.lines a)) (shownTexts engine depth t (Text.lines b)) =
      if speaks engine depth s a then
        if speaks engine depth t b then
          "\n".intercalate (shownTexts engine depth s (Text.lines a)) ++ "\n" ++
            "\n".intercalate (shownTexts engine depth t (Text.lines b))
        else "\n".intercalate (shownTexts engine depth s (Text.lines a))
      else "\n".intercalate (shownTexts engine depth t (Text.lines b)) := by
  rw [speaks_eq, speaks_eq, joined]
  cases (shownTexts engine depth s (Text.lines a)).isEmpty <;>
    cases (shownTexts engine depth t (Text.lines b)).isEmpty <;> rfl

/-- An error that is reported further down is the same but for the number of its line. -/
lemma error_later_iff {stop : Stop ScriptError} {e : ScriptError} {count newlines : Nat}
    (lines : count = newlines + 1) :
    (.error (stop.map fun e => { e with number := e.number + count }) : Except (Stop ScriptError) String) =
        .error (.error e) ↔
      ∃ e', (.error stop : Except (Stop ScriptError) String) = .error (.error e') ∧
        e.cause = e'.cause ∧ e.line = e'.line ∧ e.number = e'.number + (1 + newlines) := by
  subst lines
  cases stop with
  | error e' =>
    obtain ⟨number, line, cause⟩ := e
    rw [Nat.add_comm 1]
    constructor
    · intro same
      cases same
      exact ⟨e', rfl, rfl, rfl, rfl⟩
    · rintro ⟨_, ⟨⟩, rfl, rfl, rfl⟩
      rfl
  | trap trap => exact ⟨nofun, fun ⟨_, other, _⟩ => nomatch other⟩
  | exhausted => exact ⟨nofun, fun ⟨_, other, _⟩ => nomatch other⟩

/-- Behind a first part whose lines have outcomes, a script goes on with the second part from there. Its
errors are those of the second part, further down. -/
lemma runScript_append_of_succeeds {a : String} (succeeds : Succeeds engine depth s (pieces a))
    (b : String) :
    let t := after engine depth s (pieces a)
    (∃ u, runScript engine depth b t =
        (.ok ("\n".intercalate (shownTexts engine depth t (Text.lines b))), u) ∧
      runScript engine depth (a ++ "\n" ++ b) s =
        (.ok (joined (shownTexts engine depth s (Text.lines a))
          (shownTexts engine depth t (Text.lines b))), u)) ∨
    ∃ stop u, runScript engine depth b t = (.error stop, u) ∧
      runScript engine depth (a ++ "\n" ++ b) s =
        (.error (stop.map fun e => { e with number := e.number + (pieces a).length }), u) := by
  intro t
  have reads : executeAll engine depth 1 (pieces a ++ pieces b) =
      executeAll engine depth 1 (Text.lines (a ++ "\n" ++ b)) := by
    rw [← pieces_append, executeAll_pieces]
  have seconds : executeAll engine depth 1 (pieces b) = executeAll engine depth 1 (Text.lines b) :=
    executeAll_pieces b 1
  rcases runScript_cases seconds t with ⟨others, ran⟩ | ⟨earlier, line, stop, u, stops, ran⟩
  · have whole := runScript_of_succeeds reads (succeeds_append.2 ⟨succeeds, others⟩)
    refine .inl ⟨after engine depth t (pieces b), ?_, ?_⟩
    · rw [ran, shownTexts_pieces]
    · rw [whole, shownTexts_append, shownTexts_pieces, shownTexts_pieces, intercalate_append,
        after_append]
  · have whole := runScript_of_stopsAt reads (stops.behind succeeds)
    refine .inr ⟨_, u, ran, ?_⟩
    rw [whole]
    cases stop with
    | error e =>
      have count : 1 + (pieces a ++ earlier).length = 1 + earlier.length + (pieces a).length := by
        rw [List.length_append]
        omega
      rw [count]
      rfl
    | trap trap => rfl
    | exhausted => rfl

/-- A script in two parts with a newline between them is the first part and then the second, if the first
part has an outcome. It leaves the same session. It has an outcome if the second part has, and shows what
the parts show, with a newline between them unless one of the parts shows nothing. It fails if the second
part does, for the same cause in the same line, with a number that also counts the lines of the first
part; and it traps or runs out of depth if the second part does. If the first part does not get to its
end, the second part makes no difference: the first part is left as its lines before the failing one, and
then that one, leave it. -/
theorem runScript_append (engine : Engine) (depth : Nat) (a b : String) (s : Session) :
    let first := runScript engine depth a s
    let second := runScript engine depth b first.2
    let whole := runScript engine depth (a ++ "\n" ++ b) s
    (∀ out, first.1 = .ok out →
      whole.2 = second.2 ∧
      (∀ text, whole.1 = .ok text ↔ ∃ out', second.1 = .ok out' ∧
        text = if speaks engine depth s a then
          if speaks engine depth first.2 b then out ++ "\n" ++ out' else out
        else out') ∧
      (∀ e, whole.1 = .error (.error e) ↔ ∃ e', second.1 = .error (.error e') ∧
        e.cause = e'.cause ∧ e.line = e'.line ∧ e.number = e'.number + (1 + a.toList.count '\n')) ∧
      (∀ trap, whole.1 = .error (.trap trap) ↔ second.1 = .error (.trap trap)) ∧
      (whole.1 = .error .exhausted ↔ second.1 = .error .exhausted)) ∧
    (∀ stop, first.1 = .error stop → whole = first) ∧
    ∀ e, first.1 = .error (.error e) → ∃ earlier line,
      earlier ++ [line] <+: Text.lines a ∧ e.number = earlier.length + 1 ∧ e.line = trim line ∧
        Succeeds engine depth s earlier ∧
        execute engine depth line (after engine depth s earlier) = (.error (.error e.cause), first.2) := by
  intro first second whole
  have reads : executeAll engine depth 1 (pieces a) = executeAll engine depth 1 (Text.lines a) :=
    executeAll_pieces a 1
  refine ⟨fun out done => ?_, fun stop stopped => ?_, fun e failed => ?_⟩
  · rcases runScript_cases reads s with ⟨succeeds, ran⟩ | ⟨_, _, _, _, -, ran⟩
    · have left : first.2 = after engine depth s (pieces a) := congrArg Prod.snd ran
      rw [shownTexts_pieces] at ran
      cases (congrArg Prod.fst ran).symm.trans done
      rcases runScript_append_of_succeeds succeeds b with ⟨u, ran', all⟩ | ⟨stop, u, ran', all⟩
      · have second_eq : second = _ := (congrArg (runScript engine depth b) left).trans ran'
        have whole_eq : whole = _ := all
        rw [second_eq, whole_eq, left, joined_shownTexts]
        refine ⟨rfl, fun text => ?_, fun e => ?_, fun trap => ?_, ?_⟩
        · refine ⟨fun shown => ⟨_, rfl, (Except.ok.inj shown).symm⟩, fun ⟨out', shown, eq⟩ => ?_⟩
          cases shown
          rw [eq]
        · exact ⟨nofun, fun ⟨_, other, _⟩ => nomatch other⟩
        · exact ⟨nofun, nofun⟩
        · exact ⟨nofun, nofun⟩
      · have second_eq : second = _ := (congrArg (runScript engine depth b) left).trans ran'
        have whole_eq : whole = _ := all
        rw [second_eq, whole_eq]
        refine ⟨rfl, fun text => ?_, fun e => ?_, fun trap => ?_, ?_⟩
        · exact ⟨nofun, fun ⟨_, other, _⟩ => nomatch other⟩
        · exact error_later_iff (length_pieces a)
        · cases stop <;> simp [Stop.map]
        · cases stop <;> simp [Stop.map]
    · cases (congrArg Prod.fst ran).symm.trans done
  · rcases runScript_cases reads s with ⟨_, ran⟩ | ⟨earlier, line, stop, t, stops, ran⟩
    · cases (congrArg Prod.fst ran).symm.trans stopped
    · have more : executeAll engine depth 1 (pieces a ++ pieces b) =
          executeAll engine depth 1 (Text.lines (a ++ "\n" ++ b)) := by
        rw [← pieces_append, executeAll_pieces]
      exact (runScript_of_stopsAt more (stops.append (pieces b))).trans ran.symm
  · obtain ⟨earlier, line, why, stops, eq⟩ := exists_stopsAt_of_runScript failed
    cases why with
    | error cause =>
      cases eq
      exact ⟨earlier, line, stops.within, rfl, rfl, stops.succeeds, stops.stops⟩
    | trap trap => cases eq
    | exhausted => cases eq

/-- A first part that ends in a carriage return and shows an empty text, with three second parts: one that
shows something, one that shows nothing, and one that fails in its second line. A first part that fails is
all there is to any script that starts with it. -/
theorem runScript_append_seam :
    let a := ":functions\r"
    let failed : ScriptError := ⟨3, "!", .malformed (.lexical (.unexpectedCharacter '!' 0))⟩
    (runScript .vm 1 a .start).1 = .ok "" ∧
      (runScript .vm 1 (a ++ "\n" ++ "\n:vars") .start).1 = .ok "\n\x7b \x7d" ∧
      (runScript .vm 1 (a ++ "\n" ++ "# f\n") .start).1 = .ok "" ∧
      (runScript .vm 1 (a ++ "\n" ++ "\r\n !") .start).1 = .error (.error failed) ∧
      ∀ b, runScript .vm 1 ("!" ++ "\n" ++ b) .start = runScript .vm 1 "!" .start := by
  intro a failed
  have first : (runScript .vm 1 a .start).1 = .ok "" := by decide +kernel
  have behind := fun b => (runScript_append .vm 1 a b .start).1 "" first
  refine ⟨first, ?_, ?_, ?_, fun b => ?_⟩
  · obtain ⟨-, shows, -⟩ := behind "\n:vars"
    exact (shows _).2 ⟨"\x7b \x7d", by decide +kernel, by decide +kernel⟩
  · obtain ⟨-, shows, -⟩ := behind "# f\n"
    exact (shows _).2 ⟨"", by decide +kernel, by decide +kernel⟩
  · obtain ⟨-, -, fails, -⟩ := behind "\r\n !"
    exact (fails _).2 ⟨{ failed with number := 2 }, by decide +kernel, rfl, rfl, by decide +kernel⟩
  · obtain ⟨-, stops, -⟩ := runScript_append .vm 1 "!" b .start
    exact stops (.error { failed with number := 1 }) (by decide +kernel)

end Parts

end Reckon.Session

import Mathlib.Data.List.Forall2
import Reckon.Proofs.Agreement
import Reckon.Proofs.Respect

/-!
# Sessions on changing engines

The engine may change from line to line. Two runs of the same lines on different engines drift apart
in where the variables have their slots, so they are compared by the functions and the live variables
of their sessions (`Session.Alike`). Whatever the engines, a line leads from sessions that are alike to
sessions that are alike, with answers that read the same (`alike_execute`).

A `Transcript` holds the answer to each line and the session after it, up to a line that diverges. The
main statement is `Session.schedules_agree`: any two schedules of engines have the same transcript, up
to the slots.
-/

namespace Reckon.Session

open Run

/-- Two sessions have the same functions and the same live variables with the same values. -/
structure Alike (s t : Session) : Prop where
  functions : s.functions = t.functions
  values : ∀ x, s.globals.get? x = t.globals.get? x

/-- What an answer says: an error is known by its message only. -/
def said (answer : Except (Stop LineError) Outcome) : Except (Stop String) Outcome :=
  answer.mapError (Stop.map LineError.message)

section Line

variable {s t : Session} {answer : Except (Stop LineError) Outcome} {s' : Session}

/-- Only a lack of depth says so. -/
lemma said_eq_exhausted_iff : said answer = .error .exhausted ↔ answer = .error .exhausted := by
  rcases answer with (_ | _ | _) | _ <;> simp [said, Except.mapError, Stop.map]

/-- How a tree ends reads the same on all engines. -/
lemma said_shown (p q : Engine) (ending : Except (Stop Rejection) Int64) :
    said (shown p ending) = said (shown q ending) := by
  rcases ending with (reason | _ | _) | _
  · have same : (p.refusal reason).message = (q.refusal reason).message := by
      rw [Engine.message_refusal, Engine.message_refusal]
    exact congrArg (fun message => Except.error (Stop.error message)) same
  all_goals rfl

/-- Engines carry out a statement alike. -/
lemma alike_perform (alike : Alike s t) (p q : Engine) (depth : Nat) (statement : Statement) :
    said (perform p depth statement s).1 = said (perform q depth statement t).1 ∧
      Alike (perform p depth statement s).2 (perform q depth statement t).2 := by
  cases statement with
  | define d =>
    refine ⟨rfl, ?_, alike.values⟩
    exact congrArg (·.insert d) alike.functions
  | evaluate e =>
    obtain ⟨globals₁, same₁, eq₁⟩ := perform_evaluate_eq p depth e s
    obtain ⟨globals₂, same₂, eq₂⟩ := perform_evaluate_eq q depth e t
    have run : Match (fun a b : Scope => ∀ x, a.get? x = b.get? x)
        (e.run s.functions depth s.globals) (e.run t.functions depth t.globals) := by
      rw [alike.functions]
      exact e.eval_respects Scope.respected_get? _ _ alike.values
    rw [eq₁, eq₂, run.1]
    refine ⟨said_shown p q _, alike.functions, fun x => ?_⟩
    calc globals₁.get? x
      _ = (e.run s.functions depth s.globals).2.get? x := same₁ x
      _ = (e.run t.functions depth t.globals).2.get? x := run.2 x
      _ = globals₂.get? x := (same₂ x).symm

/-- Engines carry out a line alike. -/
lemma alike_execute (alike : Alike s t) (p q : Engine) (depth : Nat) (line : String) :
    said (execute p depth line s).1 = said (execute q depth line t).1 ∧
      Alike (execute p depth line s).2 (execute q depth line t).2 := by
  simp only [execute, Run.bind_apply, Run.get_apply]
  split
  · exact ⟨rfl, alike⟩
  · split
    · refine ⟨?_, alike⟩
      exact congrArg (fun text => Except.ok (Outcome.dump text)) (Scope.text_congr alike.values)
    · split
      · refine ⟨?_, alike⟩
        simp only [showFunctions, alike.functions, Run.pure_apply]
      · rw [alike.functions]
        cases Statement.parse t.functions (Text.trim line) with
        | error e => exact ⟨rfl, alike⟩
        | ok statement => exact alike_perform alike p q depth statement

/-- A line that ends on one engine ends on any, with an answer that reads the same. -/
lemma alike_ends (alike : Alike s t) (p q : Engine) {line : String}
    (ends : Ends (fun depth => execute p depth line) s answer s') :
    ∃ answer' t', Ends (fun depth => execute q depth line) t answer' t' ∧
      said answer = said answer' ∧ Alike s' t' := by
  obtain ⟨done, depth, ran⟩ := ends
  obtain ⟨same, alike'⟩ := alike_execute alike p q depth line
  rw [show execute p depth line s = (answer, s') from ran] at same alike'
  have ran' := (Prod.eta (execute q depth line t)).symm
  refine ⟨_, _, ⟨?_, depth, ran'⟩, same, alike'⟩
  intro cut
  exact done (said_eq_exhausted_iff.1 (same.trans (said_eq_exhausted_iff.2 cut)))

/-- A line that diverges on one engine diverges on any. -/
lemma alike_diverges (alike : Alike s t) (p q : Engine) {line : String}
    (diverges : Diverges (fun depth => execute p depth line) s) :
    Diverges (fun depth => execute q depth line) t := by
  intro depth
  obtain ⟨same, -⟩ := alike_execute alike p q depth line
  exact said_eq_exhausted_iff.1 (same.symm.trans (said_eq_exhausted_iff.2 (diverges depth)))

end Line

/-- The answer to a line, and the session after it. -/
abbrev Entry := Except (Stop LineError) Outcome × Session

/-- What comes of lines of which the `n`-th is carried out on the engine `schedule n`, where `n` is the
number of the first: an entry for each, up to the first that diverges. -/
inductive Transcript (schedule : Nat → Engine) : Nat → Session → List String → List Entry → Prop where
  | done {n s} : Transcript schedule n s [] []
  | step {n s line rest answer s' log} :
      Ends (fun depth => execute (schedule n) depth line) s answer s' →
      Transcript schedule (n + 1) s' rest log →
      Transcript schedule n s (line :: rest) ((answer, s') :: log)
  | stuck {n s line rest} :
      Diverges (fun depth => execute (schedule n) depth line) s →
      Transcript schedule n s (line :: rest) []

/-- Two entries have answers that read the same, and sessions that are alike and show the same. -/
structure Entry.Same (a b : Entry) : Prop where
  said : said a.1 = said b.1
  alike : Alike a.2 b.2
  text : a.2.globals.text = b.2.globals.text

variable {schedule : Nat → Engine} {n : Nat} {s : Session} {lines : List String} {a b : List Entry}

/-- Lines have one transcript only. -/
lemma Transcript.unique (ha : Transcript schedule n s lines a) (hb : Transcript schedule n s lines b) :
    a = b := by
  induction ha generalizing b with
  | done =>
    cases hb
    rfl
  | @step n s line rest answer s' log ends _ ih =>
    cases hb with
    | step ends' tail =>
      obtain ⟨rfl, rfl⟩ := (execute_deepening (schedule n) line).ends_unique ends ends'
      rw [ih tail]
    | stuck diverges => exact absurd diverges (Deepening.not_diverges ends)
  | stuck diverges =>
    cases hb with
    | step ends => exact absurd diverges (Deepening.not_diverges ends)
    | stuck => rfl

/-- From sessions that are alike, lines have transcripts on any two schedules, which agree. -/
lemma alike_transcripts (p q : Nat → Engine) (lines : List String) :
    ∀ (n : Nat) {s t : Session}, Alike s t →
      ∃ a b, Transcript p n s lines a ∧ Transcript q n t lines b ∧ List.Forall₂ Entry.Same a b := by
  induction lines with
  | nil => exact fun n s t _ => ⟨[], [], .done, .done, .nil⟩
  | cons line rest ih =>
    intro n s t alike
    cases ends_or_diverges (fun depth => execute (p n) depth line) s with
    | inl h =>
      obtain ⟨answer, s', ends⟩ := h
      obtain ⟨answer', t', ends', same, alike'⟩ := alike_ends alike (p n) (q n) ends
      -- the other lines start in sessions that differ in their slots at most
      obtain ⟨a, b, ha, hb, agree⟩ := ih (n + 1) alike'
      have entry : Entry.Same (answer, s') (answer', t') :=
        ⟨same, alike', Scope.text_congr alike'.values⟩
      exact ⟨_, _, .step ends ha, .step ends' hb, .cons entry agree⟩
    | inr diverges =>
      have diverges' := alike_diverges alike (p n) (q n) diverges
      exact ⟨[], [], .stuck diverges, .stuck diverges', .nil⟩

/-- The engine may be changed between lines. In any session, any lines have exactly one transcript on
each of two schedules, and the two agree entry by entry: the answers are the same outcome, errors with
the same message or the same trap, and the sessions have the same functions and show the same live
variables. -/
theorem schedules_agree (p q : Nat → Engine) (s : Session) (lines : List String) :
    ∃ a b, (∀ log, Transcript p 0 s lines log ↔ log = a) ∧
      (∀ log, Transcript q 0 s lines log ↔ log = b) ∧ List.Forall₂ Entry.Same a b := by
  have alike : Alike s s := ⟨rfl, fun _ => rfl⟩
  obtain ⟨a, b, ha, hb, agree⟩ := alike_transcripts p q lines 0 alike
  refine ⟨a, b, fun log => ?_, fun log => ?_, agree⟩
  · refine ⟨fun h => h.unique ha, fun eq => ?_⟩
    rw [eq]
    exact ha
  · refine ⟨fun h => h.unique hb, fun eq => ?_⟩
    rw [eq]
    exact hb

end Reckon.Session

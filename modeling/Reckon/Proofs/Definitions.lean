import Mathlib.Data.Finmap
import Mathlib.Data.List.Sort
import Reckon.Proofs.ByteOrder
import Reckon.Proofs.Defined
import Reckon.Proofs.LineEffect

/-!
# Histories of the functions

The definitions that were made are a history, the latest first. All that it leaves is the last definition
of each name (`FunctionTable.last`), whatever the order in which different names were defined.

* `FunctionTable.find?_ofHistory`, `FunctionTable.mem_entries_ofHistory`: what the functions are.
* `FunctionMap.Holds.define`: a map without an order that is given the same definitions holds the same,
  and `FunctionMap.Holds.sorted_eq`: in whatever order it lists them, sorted they are the functions.
* `Session.Made.functions`: the functions of a session are told by the definitions that lines made.
* `FunctionTable.functions_told_by_last`: what a history tells of the functions and how they are shown.
-/

namespace Reckon

open Text

namespace FunctionTable

/-- The functions that definitions leave of none, the latest of them first. -/
def ofHistory : List Definition → FunctionTable
  | [] => .empty
  | d :: earlier => ((ofHistory earlier).define d).2

/-- The last definition of a name in a history. -/
def last (h : List Definition) (n : String) : Option Definition := h.find? (·.name == n)

variable {h h' : List Definition} {n : String} {d : Definition}

/-- The last definition of a name is the latest one, if that is of this name. -/
lemma last_cons (d : Definition) (earlier : List Definition) (n : String) :
    last (d :: earlier) n = if n = d.name then some d else last earlier n := by
  rw [last, List.find?_cons]
  by_cases same : n = d.name
  · rw [if_pos same, beq_iff_eq.2 same.symm]
  · rw [if_neg same, beq_eq_false_iff_ne.2 (Ne.symm same), last]

/-- The last definition of a name has this name. -/
lemma name_of_last (here : last h n = some d) : d.name = n := by
  simpa using List.find?_some here

/-- A name has a last definition if it was defined. -/
lemma isSome_last : (last h n).isSome ↔ ∃ d ∈ h, d.name = n := by
  simp [last]

/-- The last definition of a name is among the definitions of this name. -/
lemma last_eq_head? (h : List Definition) (n : String) :
    last h n = (h.filter (·.name == n)).head? := List.head?_filter.symm

/-- Under each name is its last definition. -/
lemma find?_ofHistory (h : List Definition) (n : String) : (ofHistory h).find? n = last h n := by
  induction h with
  | nil => rfl
  | cons d earlier ih => rw [ofHistory, define, Session.find?_insert, last_cons, ih]

/-- A function is there if it was defined. -/
lemma contains_ofHistory : (ofHistory h).contains n ↔ ∃ d ∈ h, d.name = n := by
  rw [Catalogue.contains, find?_ofHistory, isSome_last]

/-- A definition is there if it is the last one of its name. -/
lemma mem_entries_ofHistory : d ∈ (ofHistory h).entries ↔ last h d.name = some d := by
  rw [Catalogue.mem_entries_iff, find?_ofHistory]

/-- The names of the functions are those that were defined. -/
lemma mem_names_ofHistory :
    n ∈ (ofHistory h).entries.map Definition.name ↔ ∃ d ∈ h, d.name = n := by
  rw [← isSome_last, Option.isSome_iff_exists, List.mem_map]
  refine ⟨fun ⟨d, mem, name⟩ => ⟨d, name ▸ mem_entries_ofHistory.1 mem⟩, fun ⟨d, here⟩ => ?_⟩
  have name := name_of_last here
  subst name
  exact ⟨d, mem_entries_ofHistory.2 here, rfl⟩

/-- Nothing of a history matters but the last definition of each name. -/
lemma ofHistory_congr (same : ∀ n, last h n = last h' n) : ofHistory h = ofHistory h' :=
  Catalogue.ext_find? fun n => by rw [find?_ofHistory, find?_ofHistory, same]

/-- The names of functions are in strictly increasing order of their bytes. -/
lemma pairwise_names (fns : FunctionTable) :
    (fns.entries.map Definition.name).Pairwise (encode · < encode ·) :=
  List.pairwise_map.2 (fns.sorted.imp fun lt => encode_lt_encode_iff.2 lt)

/-- No name occurs twice. -/
lemma nodup_names (fns : FunctionTable) : (fns.entries.map Definition.name).Nodup := by
  refine List.Pairwise.imp ?_ (pairwise_names fns)
  rintro n _ lt rfl
  exact List.lt_irrefl _ lt

/-- There are as many functions as names that were defined. -/
lemma size_ofHistory (h : List Definition) :
    (ofHistory h).size = (h.map Definition.name).toFinset.card := by
  have names : ((ofHistory h).entries.map Definition.name).toFinset =
      (h.map Definition.name).toFinset := by
    ext n
    rw [List.mem_toFinset, List.mem_toFinset, mem_names_ofHistory, List.mem_map]
  rw [← names, List.toFinset_card_of_nodup (nodup_names _), List.length_map, Catalogue.size]

end FunctionTable

/-- Functions by name, in no order. -/
abbrev FunctionMap := Finmap fun _ : String => Definition

namespace FunctionMap

/-- Files a definition under its name. The result holds the one that it replaced, if any. -/
def define (d : Definition) (m : FunctionMap) : Option Definition × FunctionMap :=
  (m.lookup d.name, m.insert d.name d)

/-- The map that definitions leave of the empty one, the latest of them first. -/
def ofHistory : List Definition → FunctionMap
  | [] => ∅
  | d :: earlier => (define d (ofHistory earlier)).2

/-- The list has what the map holds, in some order. -/
def Lists (m : FunctionMap) (order : List Definition) : Prop :=
  (order : Multiset Definition) = m.entries.map Sigma.snd

/-- Definitions in the order of the bytes of their names. -/
def sorted (order : List Definition) : List Definition :=
  order.mergeSort fun d d' => encode d.name ≤ encode d'.name

/-- Sorted definitions are in the order of the bytes of their names. -/
lemma pairwise_sorted (order : List Definition) :
    (sorted order).Pairwise fun d d' => encode d.name ≤ encode d'.name := by
  have trans : ∀ a b c : Definition, decide (encode a.name ≤ encode b.name) = true →
      decide (encode b.name ≤ encode c.name) = true → decide (encode a.name ≤ encode c.name) = true := by
    simp only [decide_eq_true_eq]
    exact fun a b c => List.le_trans
  have total : ∀ a b : Definition,
      (decide (encode a.name ≤ encode b.name) || decide (encode b.name ≤ encode a.name)) = true := by
    simp only [Bool.or_eq_true, decide_eq_true_eq]
    exact fun a b => List.le_total _ _
  exact (List.pairwise_mergeSort trans total order).imp of_decide_eq_true

/-- A map and a table hold the same definitions. -/
def Holds (m : FunctionMap) (fns : FunctionTable) : Prop := ∀ n, m.lookup n = fns.find? n

namespace Holds

variable {m : FunctionMap} {fns : FunctionTable} {n : String} {d : Definition} {order : List Definition}

/-- Map and table are given a definition: they replace the same and hold the same. -/
lemma define (holds : Holds m fns) (d : Definition) :
    (m.define d).1 = (fns.define d).1 ∧ Holds (m.define d).2 (fns.define d).2 := by
  refine ⟨holds d.name, fun n => ?_⟩
  rw [FunctionMap.define, FunctionTable.define, Session.find?_insert]
  by_cases same : n = d.name
  · rw [if_pos same, same, Finmap.lookup_insert]
  · rw [if_neg same, Finmap.lookup_insert_of_ne _ same, holds]

/-- A map and a table that were given the same definitions hold the same. -/
lemma ofHistory (h : List Definition) :
    Holds (FunctionMap.ofHistory h) (FunctionTable.ofHistory h) := by
  induction h with
  | nil => exact fun n => Finmap.lookup_empty n
  | cons d earlier ih => exact (ih.define d).2

/-- A map that holds what a table does files each definition under its own name. -/
lemma name_of_lookup (holds : Holds m fns) (here : m.lookup n = some d) : d.name = n :=
  Catalogue.name_of_find? ((holds n).symm.trans here)

/-- The definitions of the map are the entries of the table. -/
lemma values_eq (holds : Holds m fns) : m.entries.map Sigma.snd = (fns.entries : Multiset Definition) := by
  have own : ∀ b ∈ m.entries, b.2.name = b.1 := fun b mem =>
    holds.name_of_lookup (Finmap.mem_lookup_iff.2 mem)
  have distinct : (m.entries.map Sigma.snd).Nodup := by
    refine m.nodupKeys.nodup.map_on fun b mem c mem' same => ?_
    have key : b.1 = c.1 := by rw [← own b mem, ← own c mem', same]
    exact Sigma.ext key (heq_of_eq same)
  have single : fns.entries.Nodup := .of_map _ (FunctionTable.nodup_names fns)
  refine (Multiset.Nodup.ext distinct (Multiset.coe_nodup.2 single)).2 fun d => ?_
  rw [Multiset.mem_coe, Catalogue.mem_entries_iff, ← holds, Multiset.mem_map]
  constructor
  · rintro ⟨b, mem, rfl⟩
    rw [own b mem]
    exact Finmap.mem_lookup_iff.2 mem
  · exact fun here => ⟨⟨d.name, d⟩, Finmap.mem_lookup_iff.1 here, rfl⟩

/-- However the map lists what it holds, sorted it is the entries of the table. -/
lemma sorted_eq (holds : Holds m fns) (lists : m.Lists order) : sorted order = fns.entries := by
  have perm : (sorted order).Perm fns.entries :=
    (List.mergeSort_perm ..).trans (Multiset.coe_eq_coe.1 (lists.trans holds.values_eq))
  refine perm.eq_of_pairwise (fun d d' mem mem' le ge => ?_) (pairwise_sorted order)
    ((List.pairwise_map.1 (FunctionTable.pairwise_names fns)).imp List.le_of_lt)
  -- of each name there is one entry, so the order of two entries is that of their names
  have same : d.name = d'.name := by
    have le := mt encode_lt_encode_iff.2 le
    have ge := mt encode_lt_encode_iff.2 ge
    exact String.le_antisymm (String.not_lt.1 le) (String.not_lt.1 ge)
  have here := Catalogue.mem_entries_iff.1 (perm.mem_iff.1 mem)
  rw [same, Catalogue.mem_entries_iff.1 mem'] at here
  exact (Option.some.inj here).symm

/-- A map that holds what a table does has as many entries. -/
lemma card_entries (holds : Holds m fns) : Multiset.card m.entries = fns.size := by
  rw [← Multiset.card_map Sigma.snd, holds.values_eq, Multiset.coe_card, Catalogue.size]

end Holds

end FunctionMap

namespace Session

/-- Where lines lead from the empty session, on any engines and whatever comes of them, with the
definitions that they made, the latest first. -/
inductive Made : List Definition → Session → Prop where
  | start : Made [] .start
  | define {h s line d} (engine : Engine) (depth : Nat) : Made h s →
    Statement.parse s.functions line = .ok (.define d) → Made (d :: h) (execute engine depth line s).2
  | other {h s line} (engine : Engine) (depth : Nat) : Made h s →
    (∀ d, Statement.parse s.functions line ≠ .ok (.define d)) → Made h (execute engine depth line s).2

variable {s : Session} {h : List Definition} {engine : Engine} {depth : Nat} {line : String}

/-- A line that makes no definition leaves the functions as they were. -/
lemma functions_of_undefining (none : ∀ d, Statement.parse s.functions line ≠ .ok (.define d)) :
    (execute engine depth line s).2.functions = s.functions := by
  rcases execute_cases engine depth line s with ⟨_, ran⟩ | ⟨_, ran⟩ | ⟨statement, made, ran⟩
  · rw [ran]
  · rw [ran]
  · cases statement with
    | define d => exact absurd made (none d)
    | evaluate e =>
      obtain ⟨globals, -, same⟩ := perform_evaluate_eq engine depth e s
      rw [ran, same]

/-- The definitions that lines made tell the functions that there are. -/
lemma Made.functions (made : Made h s) : s.functions = FunctionTable.ofHistory h := by
  induction made with
  | start => rfl
  | @define h s line d engine depth _ parsed ih =>
    rw [execute_of_parse parsed, perform_define, ih]
    rfl
  | other engine depth _ none ih => rw [functions_of_undefining none, ih]

/-- A line makes a definition or it makes none. -/
lemma Made.exists_execute (made : Made h s) (engine : Engine) (depth : Nat) (line : String) :
    ∃ h, Made h (execute engine depth line s).2 := by
  by_cases defines : ∃ d, Statement.parse s.functions line = .ok (.define d)
  · obtain ⟨d, parsed⟩ := defines
    exact ⟨d :: h, made.define engine depth parsed⟩
  · exact ⟨h, made.other engine depth fun d parsed => defines ⟨d, parsed⟩⟩

/-- All that can be reached is reached by lines. -/
lemma Reachable.exists_made (reachable : Reachable s) : ∃ h, Made h s := by
  have line : ∀ engine depth line, Run.Safe (fun s => ∃ h, Made h s) (fun _ => True)
      (Session.execute engine depth line) := fun engine depth line s ⟨h, made⟩ =>
    ⟨made.exists_execute engine depth line, fun _ _ => trivial⟩
  induction reachable with
  | start => exact ⟨[], .start⟩
  | execute engine depth source _ ih => exact (line engine depth source _ ih).1
  | runScript engine depth source _ ih =>
    exact (runScript_of_execute (line engine depth) source _ ih).1

end Session

namespace FunctionTable

open Session (Made Reachable execute)

/-- What definitions leave is told by the last one of each name. It is stored under its own name, and is
what is found there; a definition returns the last one of its name before it. There are as many functions
as names that were defined, and they are listed one for each of these names, in strictly increasing order
of the bytes of the names. A map without an order that is given the same definitions finds, replaces and
counts the same, and in whatever order it lists them, sorted they are this list. It is the same for every
reordering in which each name keeps its definitions in their order. So of the lines that led to a session
`:functions` shows only the last definition of each name, however a map would list them. -/
theorem functions_told_by_last (h : List Definition) :
    let fns := ofHistory h
    let m := FunctionMap.ofHistory h
    (∀ n d, m.lookup n = some d → d.name = n) ∧
    (∀ n, fns.find? n = last h n ∧ m.lookup n = last h n) ∧
    (∀ n, (fns.contains n ↔ ∃ d ∈ h, d.name = n) ∧ (n ∈ m ↔ ∃ d ∈ h, d.name = n)) ∧
    (∀ d, (fns.define d).1 = last h d.name ∧ (m.define d).1 = last h d.name) ∧
    (fns.size = (h.map Definition.name).toFinset.card ∧ Multiset.card m.entries = fns.size) ∧
    (∀ n, n ∈ fns.entries.map Definition.name ↔ ∃ d ∈ h, d.name = n) ∧
    (fns.entries.map Definition.name).Pairwise (encode · < encode ·) ∧
    (∀ order, m.Lists order → FunctionMap.sorted order = fns.entries) ∧
    (∀ h', (∀ n, h'.filter (·.name == n) = h.filter (·.name == n)) →
      (ofHistory h').entries = fns.entries) ∧
    (∀ s, Reachable s → ∃ h', Made h' s) ∧
    ∀ h' s, Made h' s → (∀ n, last h' n = last h n) → ∀ order, m.Lists order →
      ∀ engine depth line, trim line = ":functions" → (execute engine depth line s).1 =
        .ok (.dump ("\n".intercalate ((FunctionMap.sorted order).map fun d =>
          d.signature ++ " = " ++ d.body.text))) := by
  intro fns m
  have holds : m.Holds fns := FunctionMap.Holds.ofHistory h
  have found : ∀ n, fns.find? n = last h n := find?_ofHistory h
  have filed : ∀ n, m.lookup n = last h n := fun n => (holds n).trans (found n)
  refine ⟨fun n d => holds.name_of_lookup, fun n => ⟨found n, filed n⟩,
    fun n => ⟨contains_ofHistory, ?_⟩, fun d => ⟨found d.name, filed d.name⟩,
    ⟨size_ofHistory h, holds.card_entries⟩, fun n => mem_names_ofHistory, pairwise_names fns,
    fun order => holds.sorted_eq, fun h' kept => ?_, fun s => Reachable.exists_made,
    fun h' s made same order lists engine depth line command => ?_⟩
  · rw [Finmap.mem_iff, ← isSome_last, ← filed, Option.isSome_iff_exists]
  · have same : ∀ n, last h' n = last h n := fun n => by
      rw [last_eq_head?, last_eq_head?, kept]
    rw [ofHistory_congr same]
  · rw [Session.execute_of_functions command, Session.showFunctions, made.functions,
      ofHistory_congr same, holds.sorted_eq lists]

/-- One function is defined twice, with another between its definitions or behind them. A map may list
the two functions in either order. -/
theorem functions_told_by_last_redefined :
    let f : Definition := ⟨"f", ["a"], .lit 1⟩
    let f' : Definition := ⟨"f", ["a", "b"], .lit 3⟩
    let g : Definition := ⟨"g", [], .lit 2⟩
    let earlier : Session := (execute .vm 1 "deffn f(a) = 1" .start).2
    let s : Session :=
      (execute .vm 1 "deffn g() = 2" (execute .interpreter 1 "deffn f(a, b) = 3" earlier).2).2
    (∀ n, [g, f', f].filter (·.name == n) = [f', g, f].filter (·.name == n)) ∧
    (FunctionMap.ofHistory [f', g, f]).Lists [g, f'] ∧ Made [g, f', f] s ∧
    ((ofHistory [g, f]).define f').1 = some f ∧ (ofHistory [f', g, f]).size = 2 ∧
    (ofHistory [g, f', f]).entries = FunctionMap.sorted [g, f'] ∧
    (execute .vm 1 ":functions" s).1 = .ok (.dump "f(a,b) = 3\ng() = 2") := by
  intro f f' g earlier s
  have parsed₁ : ∀ fns, Statement.parse fns "deffn f(a) = 1" = .ok (.define f) := by
    have lexed : tokenize "deffn f(a) = 1" = .ok [⟨.deffn, ⟨0, 5⟩⟩, ⟨.identifier "f", ⟨6, 7⟩⟩,
        ⟨.lparen, ⟨7, 8⟩⟩, ⟨.identifier "a", ⟨8, 9⟩⟩, ⟨.rparen, ⟨9, 10⟩⟩,
        ⟨.symbol .assign, ⟨11, 12⟩⟩, ⟨.integer 1, ⟨13, 14⟩⟩,
        ⟨.eof, ⟨14, 14⟩⟩] := by decide +kernel
    intro fns
    rw [Statement.parse, lexed]
    cbv
  have parsed₂ : ∀ fns, Statement.parse fns "deffn f(a, b) = 3" = .ok (.define f') := by
    have lexed : tokenize "deffn f(a, b) = 3" = .ok [⟨.deffn, ⟨0, 5⟩⟩, ⟨.identifier "f", ⟨6, 7⟩⟩,
        ⟨.lparen, ⟨7, 8⟩⟩, ⟨.identifier "a", ⟨8, 9⟩⟩, ⟨.comma, ⟨9, 10⟩⟩,
        ⟨.identifier "b", ⟨11, 12⟩⟩, ⟨.rparen, ⟨12, 13⟩⟩, ⟨.symbol .assign, ⟨14, 15⟩⟩,
        ⟨.integer 3, ⟨16, 17⟩⟩, ⟨.eof, ⟨17, 17⟩⟩] := by decide +kernel
    intro fns
    rw [Statement.parse, lexed]
    cbv
  have parsed₃ : ∀ fns, Statement.parse fns "deffn g() = 2" = .ok (.define g) := by
    have lexed : tokenize "deffn g() = 2" = .ok [⟨.deffn, ⟨0, 5⟩⟩, ⟨.identifier "g", ⟨6, 7⟩⟩,
        ⟨.lparen, ⟨7, 8⟩⟩, ⟨.rparen, ⟨8, 9⟩⟩, ⟨.symbol .assign, ⟨10, 11⟩⟩,
        ⟨.integer 2, ⟨12, 13⟩⟩, ⟨.eof, ⟨13, 13⟩⟩] := by decide +kernel
    intro fns
    rw [Statement.parse, lexed]
    cbv
  have made : Made [g, f', f] s :=
    ((Made.start.define .vm 1 (parsed₁ _)).define .interpreter 1 (parsed₂ _)).define .vm 1 (parsed₃ _)
  have kept : ∀ n, [g, f', f].filter (·.name == n) = [f', g, f].filter (·.name == n) := by
    intro n
    by_cases first : "f" = n
    · subst first
      rfl
    · simp [List.filter_cons, f, f', g, first]
  have lists : (FunctionMap.ofHistory [f', g, f]).Lists [g, f'] :=
    Multiset.coe_eq_coe.2 (.swap f' g [])
  obtain ⟨-, -, -, -, ⟨size, -⟩, -, -, sorted, reordered, -, shows⟩ :=
    functions_told_by_last [f', g, f]
  obtain ⟨-, -, -, replaced, -⟩ := functions_told_by_last [g, f]
  have same : ∀ n, last [g, f', f] n = last [f', g, f] n := fun n => by
    rw [last_eq_head?, last_eq_head?, kept]
  refine ⟨kept, lists, made, (replaced f').1, size.trans ?_, ?_, ?_⟩
  · rfl
  · rw [reordered _ kept, sorted _ lists]
  · have shown : "\n".intercalate ((ofHistory [f', g, f]).entries.map fun d =>
        d.signature ++ " = " ++ d.body.text) = "f(a,b) = 3\ng() = 2" := by decide +kernel
    rw [shows _ s made same _ lists .vm 1 ":functions" (by decide +kernel), sorted _ lists, shown]

end FunctionTable

end Reckon

import Mathlib.Computability.ContextFreeGrammar
import MolangCompiler.Grammar.Automaton

/-!
# The language of sources

Which sequences of tokens are sources is said by a context-free grammar with thirty-three
productions.  It is ambiguous: it says nothing about how strongly operators bind.

A word is derived from a nonterminal if it is in every family of words that is closed under the
productions (`derivable_least`).  `Spells` cuts a word into pieces, one for each symbol of a
right-hand side.
-/

namespace MolangCompiler

/-! ## Derivations of words -/

section

variable {T N : Type}

/-- A word is spelled by symbols: it is cut into pieces, and each piece is the terminal itself or
has the property of the nonterminal. -/
def Spells (P : N → List T → Prop) : List (Symbol T N) → List T → Prop
  | [], w => w = []
  | .terminal t :: rest, w => ∃ v, w = t :: v ∧ Spells P rest v
  | .nonterminal n :: rest, w => ∃ u v, w = u ++ v ∧ P n u ∧ Spells P rest v

namespace Spells

variable {P : N → List T → Prop} {n : N} {u v : List T} {rest : List (Symbol T N)}

theorem nil : Spells P [] [] := rfl

theorem terminal (t : T) (h : Spells P rest v) : Spells P (.terminal t :: rest) (t :: v) :=
  ⟨v, rfl, h⟩

theorem nonterminal (hn : P n u) (h : Spells P rest v) :
    Spells P (.nonterminal n :: rest) (u ++ v) := ⟨u, v, rfl, hn, h⟩

theorem last (hn : P n u) : Spells P [.nonterminal n] u :=
  ⟨u, [], (List.append_nil u).symm, hn, rfl⟩

theorem of_last (h : Spells P [.nonterminal n] u) : P n u := by
  obtain ⟨_, _, rfl, hn, rfl⟩ := h
  rwa [List.append_nil]

end Spells

theorem spells_append {P : N → List T → Prop} {xs ys : List (Symbol T N)} {w : List T} :
    Spells P (xs ++ ys) w ↔ ∃ u v, w = u ++ v ∧ Spells P xs u ∧ Spells P ys v := by
  induction xs generalizing w with
  | nil =>
    constructor
    · exact fun h => ⟨[], w, rfl, rfl, h⟩
    · rintro ⟨_, v, rfl, rfl, h⟩
      exact h
  | cons x xs ih =>
    cases x with
    | terminal t =>
      constructor
      · rintro ⟨v, rfl, h⟩
        obtain ⟨u, v, rfl, hx, hy⟩ := ih.mp h
        exact ⟨t :: u, v, rfl, ⟨u, rfl, hx⟩, hy⟩
      · rintro ⟨_, v, rfl, ⟨u, rfl, hx⟩, hy⟩
        exact ⟨u ++ v, rfl, ih.mpr ⟨u, v, rfl, hx, hy⟩⟩
    | nonterminal n =>
      constructor
      · rintro ⟨u, v, rfl, hn, h⟩
        obtain ⟨u', v, rfl, hx, hy⟩ := ih.mp h
        exact ⟨u ++ u', v, (List.append_assoc _ _ _).symm, ⟨u, u', rfl, hn, hx⟩, hy⟩
      · rintro ⟨_, v, rfl, ⟨u, u', rfl, hn, hx⟩, hy⟩
        exact ⟨u, u' ++ v, List.append_assoc _ _ _, hn, ih.mpr ⟨u', v, rfl, hx, hy⟩⟩

private theorem spells_terminals (P : N → List T → Prop) (w : List T) :
    Spells P (w.map Symbol.terminal) w := by
  induction w with
  | nil => rfl
  | cons t w ih => exact ⟨w, rfl, ih⟩

private theorem spells_of_derives {g : ContextFreeGrammar T} {P : g.NT → List T → Prop}
    (hClosed : ∀ r ∈ g.rules, ∀ w, Spells P r.output w → P r.input w) {xs : List (Symbol T g.NT)}
    {w : List T} (h : g.Derives xs (w.map Symbol.terminal)) : Spells P xs w := by
  induction h using Relation.ReflTransGen.head_induction_on with
  | refl => exact spells_terminals P w
  | head hStep _ ih =>
    obtain ⟨r, hr, hRewrites⟩ := hStep
    obtain ⟨p, q, rfl, rfl⟩ := hRewrites.exists_parts
    obtain ⟨_, v, rfl, hLeft, hq⟩ := spells_append.mp ih
    obtain ⟨u, u', rfl, hp, hOutput⟩ := spells_append.mp hLeft
    have hInput : Spells P [Symbol.nonterminal r.input] u' := .last (hClosed r hr u' hOutput)
    exact spells_append.mpr ⟨u ++ u', v, rfl, spells_append.mpr ⟨u, u', rfl, hp, hInput⟩, hq⟩

private theorem derives_of_spells {g : ContextFreeGrammar T} (xs : List (Symbol T g.NT))
    {w : List T} (h : Spells (fun n u => g.Derives [.nonterminal n] (u.map Symbol.terminal)) xs w) :
    g.Derives xs (w.map Symbol.terminal) := by
  induction xs generalizing w with
  | nil =>
    cases h
    exact .refl _
  | cons x xs ih =>
    cases x with
    | terminal t =>
      obtain ⟨v, rfl, h⟩ := h
      exact (ih h).append_left [.terminal t]
    | nonterminal n =>
      obtain ⟨u, v, rfl, hn, h⟩ := h
      rw [List.map_append]
      exact (hn.append_right xs).trans ((ih h).append_left (u.map Symbol.terminal))

end

/-! ## The grammar -/

/-- The kind of a token. -/
def Lexeme.kind : Lexeme → Kind
  | .number _ => .number
  | .name _ => .name
  | .ret => .ret
  | .operator op => .operator op
  | .not => .not
  | .openParen => .openParen
  | .closeParen => .closeParen
  | .openBracket => .openBracket
  | .closeBracket => .closeBracket
  | .comma => .comma
  | .semicolon => .semicolon
  | .assign => .assign
  | .question => .question
  | .colon => .colon

def Operator.all : List Operator := BinaryOp.all.map .binary ++ [.logical .and, .logical .or]

def operatorProduction (op : Operator) : ContextFreeRule Kind Nonterminal :=
  ⟨.expression, [.nonterminal .expression, .terminal (.operator op), .nonterminal .expression]⟩

def statementProductions : List (ContextFreeRule Kind Nonterminal) := [
  ⟨.program, [.nonterminal .expression]⟩,
  ⟨.program, [.nonterminal .effectStatement]⟩,
  ⟨.program, [.nonterminal .statementList]⟩,
  ⟨.program, [.nonterminal .statementList, .nonterminal .statement]⟩,
  ⟨.statementList, [.nonterminal .statement, .terminal .semicolon]⟩,
  ⟨.statementList, [.nonterminal .statementList, .nonterminal .statement, .terminal .semicolon]⟩,
  ⟨.statement, [.nonterminal .expression]⟩,
  ⟨.statement, [.nonterminal .effectStatement]⟩,
  ⟨.effectStatement, [.terminal .name, .terminal .assign, .nonterminal .expression]⟩,
  ⟨.effectStatement, [.terminal .ret, .nonterminal .expression]⟩]

/-- The productions for expressions other than those with an operator in the middle. -/
def expressionProductions : List (ContextFreeRule Kind Nonterminal) := [
  ⟨.expression, [.nonterminal .expression, .terminal .question, .nonterminal .expression,
    .terminal .colon, .nonterminal .expression]⟩,
  ⟨.expression, [.terminal (.operator (.binary .sub)), .nonterminal .expression]⟩,
  ⟨.expression, [.terminal .not, .nonterminal .expression]⟩,
  ⟨.expression, [.terminal .openParen, .nonterminal .expression, .terminal .closeParen]⟩,
  ⟨.expression, [.terminal .openBracket, .nonterminal .expressionList, .terminal .closeBracket]⟩,
  ⟨.expression, [.terminal .number]⟩,
  ⟨.expression, [.terminal .name]⟩,
  ⟨.expression, [.terminal .name, .terminal .openParen, .terminal .closeParen]⟩,
  ⟨.expression, [.terminal .name, .terminal .openParen, .nonterminal .expressionList,
    .terminal .closeParen]⟩,
  ⟨.expressionList, [.nonterminal .expression]⟩,
  ⟨.expressionList, [.nonterminal .expressionList, .terminal .comma, .nonterminal .expression]⟩]

/-- All productions. -/
def productions : List (ContextFreeRule Kind Nonterminal) :=
  statementProductions ++ Operator.all.map operatorProduction ++ expressionProductions

/-- The table numbers the productions in this order. -/
theorem table_productions :
    productions.map (fun r => (r.input, r.output.length)) = Table.productions := by
  decide

/-- **The grammar of sources.** -/
@[reducible]
def sourceGrammar : ContextFreeGrammar Kind := ⟨Nonterminal, .program, productions.toFinset⟩

def Derivable (n : Nonterminal) (w : List Kind) : Prop :=
  sourceGrammar.Derives [.nonterminal n] (w.map .terminal)

/-- A word with which sources begin. -/
def Viable (w : List Kind) : Prop := ∃ rest, w ++ rest ∈ sourceGrammar.language

/-- **The derivable words are closed under the productions.** -/
theorem derivable_closed {r : ContextFreeRule Kind Nonterminal} (hr : r ∈ productions)
    {w : List Kind} (h : Spells Derivable r.output w) : Derivable r.input w := by
  have hRule : sourceGrammar.Produces [.nonterminal r.input] r.output :=
    ⟨r, List.mem_toFinset.mpr hr, .input_output⟩
  exact hRule.trans_derives (derives_of_spells (g := sourceGrammar) r.output h)

/-- **No smaller family of words is.** -/
theorem derivable_least {P : Nonterminal → List Kind → Prop}
    (hClosed : ∀ r ∈ productions, ∀ w, Spells P r.output w → P r.input w) {n : Nonterminal}
    {w : List Kind} (h : Derivable n w) : P n w := by
  exact Spells.of_last (spells_of_derives (g := sourceGrammar)
    (fun r hr => hClosed r (List.mem_toFinset.mp hr)) h)

/-! ## Sources and their beginnings -/

variable {w : List Kind}

theorem mem_language : w ∈ sourceGrammar.language ↔ Derivable .program w :=
  sourceGrammar.mem_language_iff w

theorem Viable.of_append {v : List Kind} (h : Viable (w ++ v)) : Viable w := by
  obtain ⟨rest, hRest⟩ := h
  exact ⟨v ++ rest, by rwa [← List.append_assoc]⟩

theorem viable_of_derivable (h : Derivable .program w) : Viable w :=
  ⟨[], by rwa [List.append_nil, mem_language]⟩

theorem Viable.take (h : Viable w) (k : Nat) : Viable (w.take k) :=
  of_append (v := w.drop k) (by rwa [List.take_append_drop])

/-! ## Endings -/

namespace Ending

/-- An ending that the language gives to a word. -/
def Right (w : List Kind) : Ending → Prop
  | .accepted => w ∈ sourceGrammar.language
  | .blamed index => Viable (w.take index) ∧ ¬ Viable (w.take (index + 1))
  | .unfinished => Viable w ∧ w ∉ sourceGrammar.language

variable {e e' : Ending}

theorem Right.viable_iff (h : e.Right w) : Viable w ↔ ∀ k, e ≠ .blamed k := by
  cases e with
  | accepted => exact ⟨fun _ => nofun, fun _ => viable_of_derivable (mem_language.mp h)⟩
  | blamed k => exact ⟨fun hw => (h.2 (hw.take _)).elim, fun hNot => (hNot k rfl).elim⟩
  | unfinished => exact ⟨fun _ => nofun, fun _ => h.1⟩

/-- There is only one first impossible token. -/
theorem Right.le {i k : Nat} (hi : (blamed i).Right w) (hk : (blamed k).Right w) : k ≤ i := by
  by_contra hLt
  refine hi.2 ?_
  have hTake := hk.1.take (i + 1)
  rwa [List.take_take, Nat.min_eq_left (Nat.lt_of_not_le hLt)] at hTake

/-- **Only one ending is right.** -/
theorem Right.unique (h : e.Right w) (h' : e'.Right w) : e = e' := by
  have hBoth := h.viable_iff.symm.trans h'.viable_iff
  cases e with
  | accepted =>
    cases e' with
    | accepted => rfl
    | blamed k => exact (hBoth.mp nofun k rfl).elim
    | unfinished => exact (h'.2 h).elim
  | blamed i =>
    cases e' with
    | blamed k => rw [Nat.le_antisymm (h'.le h) (h.le h')]
    | accepted | unfinished => exact (hBoth.mpr nofun i rfl).elim
  | unfinished =>
    cases e' with
    | accepted => exact (h.2 h').elim
    | blamed k => exact (hBoth.mp nofun k rfl).elim
    | unfinished => rfl

theorem Right.eq_iff (h : e.Right w) : e = e' ↔ e'.Right w := ⟨fun he => he ▸ h, h.unique⟩

theorem right_unfinished : unfinished.Right w ↔
    (∃ rest, rest ≠ [] ∧ w ++ rest ∈ sourceGrammar.language) ∧ w ∉ sourceGrammar.language := by
  refine and_congr_left fun hNot => exists_congr fun rest => ?_
  refine (and_iff_right_of_imp fun hRest => ?_).symm
  rintro rfl
  rw [List.append_nil] at hRest
  exact hNot hRest

end Ending

end MolangCompiler

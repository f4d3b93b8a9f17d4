import MolangCompiler.Proofs.Recognition

/-!
# The table reads the language

The states on the stack spell what has been read, each with the symbol that leads to it.  So what is
accepted is derived from the grammar, and what has been read can always be completed.

Each state also stands for a mode of the acceptor, and some states open or close a bracket.  So a
stack of states is a state of the acceptor.  A shift is a step of the acceptor, and a reduction
changes nothing that the acceptor knows.

All this is a matter of finitely many entries, if it is known which states can lie below which
(`below`) and which bracket is the innermost one in a state (`tops`).  Both are kept by every move,
and checked entry by entry.  Every move makes `size` smaller, so that the automaton comes to an end.
-/

namespace MolangCompiler

open Acceptor

variable {w : List Kind} {state : Nat}

namespace Automaton

/-! ## What states stand for -/

/-- The symbol that leads to a state. -/
def symbol (state : Nat) : Option (Symbol Kind Nonterminal) :=
  match Table.actions.find? (·.2.2.contains state) with
  | some (some k, _) => some (.terminal k)
  | _ => (Table.gotos.find? (·.2.2.contains state)).map (.nonterminal ·.1)

/-- What has been read, in symbols. -/
def symbols (stack : List Nat) : List (Symbol Kind Nonterminal) :=
  (stack.filterMap symbol).reverse

/-- The mode of the acceptor that a state on top of the stack stands for. -/
def mode (state : Nat) : Mode :=
  if state = 0 then .start false
  else if state ∈ [4, 29, 52] then .start true
  else if state = 36 then .opened
  else if state = 11 then .name true
  else if state = 31 then .name false
  else if state ∈ [6, 7, 8, 9, 37, 55, 59] ∨ 12 ≤ state ∧ state ≤ 25 then .operand
  else .after

/-- The bracket that a state opens. -/
def opens (state : Nat) : Option Bracket :=
  [(8, .group), (9, .vector), (25, .question), (36, .call)].lookup state

/-- Whether a state closes the innermost bracket. -/
def closes (state : Nat) : Bool := [53, 54, 56, 59, 61].contains state

/-- The brackets that are open when a state is put on top. -/
def turn (state : Nat) (brackets : List Bracket) : List Bracket :=
  match opens state with
  | some bracket => bracket :: brackets
  | none => if closes state then brackets.tail else brackets

/-- The brackets that are open in a stack of states. -/
def brackets (stack : List Nat) : List Bracket := stack.foldr turn []

/-- The state of the acceptor that a stack stands for. -/
def outline (stack : List Nat) : Acceptor := ⟨mode (stack.headD 0), brackets stack⟩

/-- The states behind an expression from which an operator can be shifted. -/
def expressionStates : List Nat := [2, 27, 33, 35, 38, 58, 60, 62] ++ List.range' 39 13

/-- The states that can lie below a state. -/
def below (state : Nat) : List Nat :=
  if state ∈ [6, 7, 8, 9, 10, 31] then [0, 4, 6, 7, 8, 9, 36, 37, 55, 59] ++ List.range' 12 14
  else if 13 ≤ state ∧ state ≤ 25 then expressionStates
  else if 39 ≤ state ∧ state ≤ 51 then [state - 26]
  else ([(1, [0]), (2, [0]), (3, [0]), (4, [0]), (5, [0]), (11, [0, 4]), (12, [0, 4]), (26, [4]),
    (27, [4]), (28, [4]), (29, [5]), (30, [6]), (32, [7]), (33, [8]), (34, [9]), (35, [9, 36]),
    (36, [11, 31]), (37, [11]), (38, [12]), (52, [26]), (53, [33]), (54, [34]), (55, [34, 57]),
    (56, [36]), (57, [36]), (58, [37]), (59, [51]), (60, [55]), (61, [57]), (62, [59])].lookup
    state).getD []

/-- No bracket, or any one. -/
def anyTop : List (List Bracket) := [[], [.question], [.group], [.vector], [.call]]

/-- What the innermost bracket can be in a state. -/
def tops (state : Nat) : List (List Bracket) :=
  if state ∈ [0, 1, 2, 3, 4, 5, 11, 12, 26, 27, 28, 29, 37, 38, 52, 58] then [[]]
  else if state ∈ [8, 33] then [[.group]]
  else if state ∈ [9, 34] then [[.vector]]
  else if state ∈ [36, 57] then [[.call]]
  else if state ∈ [35, 55, 60] then [[.vector], [.call]]
  else if state ∈ [25, 51] then [[.question]]
  else anyTop

/-- How many times the state on top can be replaced by another. -/
def rank (state : Nat) : Nat :=
  if state = 0 then 6
  else if state ∈ [6, 7, 8, 9, 10, 11, 12, 31] then 4
  else if state ∈ [2, 3] then 3
  else if state = 5 then 2
  else if state ∈ [4, 27, 28, 35] then 1
  else 0

/-- What can come next in states that only reductions lead to. -/
def follow (state : Nat) : Option (List (Option Kind)) :=
  if state = 1 then some [none]
  else if state = 5 then some [some .semicolon]
  else if state ∈ [3, 26, 28] then some [none, some .semicolon]
  else if state ∈ [34, 57] then some [some .comma, some .closeParen, some .closeBracket]
  else none

/-- Whether a token can come next in a state. -/
def expects (state : Nat) (token : Option Kind) : Bool :=
  ((follow state).getD [token]).contains token

/-! ## The entries of the table -/

/-- How many of the brackets below a state are closed, if so many of those with it are. -/
def closed? (state closed : Nat) : Option Nat :=
  match opens state with
  | some _ => if closed = 0 then none else some (closed - 1)
  | none => some (if closes state then closed + 1 else closed)

/-- Whether a property holds of the state that comes to light when symbols are taken off. -/
def uncovers (good : Nat → Nat → Bool) :
    List (Symbol Kind Nonterminal) → (closed state : Nat) → Bool
  | [], closed, state => good closed state
  | x :: xs, closed, state => decide (symbol state = some x) &&
    (closed? state closed).elim false fun closed => (below state).all (uncovers good xs closed)

/-- Whether a state may be put on top of another. -/
def supports (under state : Nat) : Bool := state < 63 && (below state).contains under

/-- What the innermost bracket says about the one with another state on top. -/
def keepsTop (state under : Nat) : Bool :=
  match opens state with
  | some bracket => (tops state).contains [bracket]
  | none => (if closes state then anyTop else tops under).all (tops state).contains

/-- The mode of a state to which a reduction leads. -/
def reduced (state : Nat) : Mode := if state ∈ [29, 52] then .start true else .after

/-- Whether a reduction leads to a state that knows what was known before. -/
def reduces (state : Nat) (token : Option Kind) (number : Nat) : Bool :=
  productions[number]?.elim false fun r => uncovers (fun closed under =>
      closed == 0 && (Table.goto under r.input).elim false fun next =>
        supports under next && expects next token && (opens next).isNone && !closes next &&
        decide (symbol next = some (.nonterminal r.input)) && decide (mode next = reduced state) &&
        decide (rank next + 5 < rank state + 5 * r.output.length))
    r.output.reverse 0 state

/-- Whether an entry of the table leads to a stack of states that may lie on each other. -/
def leads (state : Nat) (token : Option Kind) : Bool :=
  match Table.action state token with
  | none => true
  | some (.ofNat 0) => token.isNone && state == 1
  | some (.ofNat next) => token.isSome && supports state next && (follow next).isNone &&
    decide (symbol next = token.map .terminal)
  | some (.negSucc number) => reduces state token number

/-- Whether a symbol can be spelled without much ado. -/
def simple : Symbol Kind Nonterminal → Bool
  | .terminal _ | .nonterminal .expression | .nonterminal .expressionList => true
  | _ => false

/-- Whether a production that has been read up to a dot can be completed. -/
def completes (state number dot : Nat) : Bool :=
  productions[number]?.elim false fun r => (r.output.drop dot).all simple &&
    uncovers (fun _ under => (Table.goto under r.input).elim false fun next =>
        supports under next && decide (symbol next = some (.nonterminal r.input)) &&
        decide (rank next + 5 < rank state + 5 * (r.output.take dot).length))
      (r.output.take dot).reverse 9 state

/-- What an entry of the table means for the acceptor. -/
def meant (state : Nat) (token : Option Kind) (bs : List Bracket) : Reaction :=
  match Table.action state token with
  | none => .stuck
  | some (.ofNat 0) => .accepted
  | some (.ofNat next) => .next ⟨mode next, turn next bs⟩
  | some (.negSucc _) => (⟨reduced state, bs⟩ : Acceptor).step token

/-- The table has a column for whatever can come next. -/
theorem mem_columns (token : Option Kind) : token ∈ Table.actions.map Prod.fst := by
  cases token with
  | none => decide
  | some k =>
    cases k with
    | operator op =>
      cases op with
      | binary op | logical op => cases op <;> decide
    | _ => decide

/-- **Every entry of the table** fits the stacks. -/
theorem table_leads : ∀ state < 63, ∀ token ∈ Table.actions.map Prod.fst,
    expects state token → leads state token := by
  decide +kernel

/-- **Every entry of the table** does what the acceptor does. -/
theorem table_meant : ∀ state < 63, ∀ token ∈ Table.actions.map Prod.fst, expects state token →
    ∀ top ∈ tops state, (⟨mode state, top⟩ : Acceptor).step token = meant state token top := by
  decide +kernel

/-- **In every state** a production can be completed. -/
theorem table_completes : ∀ state < 63, state ≠ 1 → ∃ number < 33, ∃ dot < 6,
    completes state number dot := by
  decide +kernel

theorem below_keepsTop : ∀ state < 63, ∀ under ∈ below state, keepsTop state under := by
  decide +kernel

/-! ## Stacks -/

/-- A stack that the automaton can have. -/
inductive Sits : List Nat → Prop
  | bottom : Sits [0]
  | push {state under : Nat} {rest : List Nat} :
      Sits (under :: rest) → supports under state = true →
    (brackets (state :: under :: rest)).take 1 ∈ tops state → Sits (state :: under :: rest)

section

variable {state under : Nat} {rest : List Nat}

theorem Sits.lt (h : Sits (state :: rest)) : state < 63 := by
  cases h with
  | bottom => decide
  | push _ hSupports _ =>
    rw [supports, Bool.and_eq_true, decide_eq_true_eq] at hSupports
    exact hSupports.1

theorem Sits.top (h : Sits (state :: rest)) : (brackets (state :: rest)).take 1 ∈ tops state := by
  cases h with
  | bottom => decide
  | push _ _ hTop => exact hTop

theorem take_mem_anyTop (bs : List Bracket) : bs.take 1 ∈ anyTop := by
  cases bs with
  | nil => decide
  | cons b _ =>
    rw [List.take_succ_cons, List.take_zero]
    cases b <;> decide

/-- A state is put on top. -/
theorem Sits.on (h : Sits (under :: rest)) (hSupports : supports under state = true) :
    Sits (state :: under :: rest) := by
  refine .push h hSupports ?_
  rw [supports, Bool.and_eq_true, decide_eq_true_eq, List.contains_iff_mem] at hSupports
  have hKeeps := below_keepsTop state hSupports.1 under hSupports.2
  show (turn state (brackets (under :: rest))).take 1 ∈ tops state
  unfold keepsTop at hKeeps
  unfold turn
  cases hOpens : opens state with
  | some bracket =>
    rw [hOpens] at hKeeps
    exact List.contains_iff_mem.mp hKeeps
  | none =>
    rw [hOpens] at hKeeps
    dsimp only at hKeeps ⊢
    rw [List.all_eq_true] at hKeeps
    split at hKeeps
    next hCloses =>
      rw [if_pos hCloses]
      exact List.contains_iff_mem.mp (hKeeps _ (take_mem_anyTop _))
    next hCloses =>
      rw [if_neg hCloses]
      exact List.contains_iff_mem.mp (hKeeps _ h.top)

theorem drop_turn {closed closed' : Nat} (h : closed? state closed = some closed')
    (bs : List Bracket) : (turn state bs).drop closed = bs.drop closed' := by
  unfold closed? at h
  unfold turn
  cases hOpens : opens state with
  | some bracket =>
    rw [hOpens] at h
    cases closed with
    | zero => cases h
    | succ closed =>
      cases h
      rfl
  | none =>
    rw [hOpens] at h
    cases h
    dsimp only
    split
    · rw [List.drop_tail, Nat.add_comm]
    · rfl

/-- **Symbols are taken off** a stack. -/
theorem uncovers_sound {good : Nat → Nat → Bool} {xs : List (Symbol Kind Nonterminal)}
    {closed : Nat} (h : Sits (state :: rest)) (hUncovers : uncovers good xs closed state = true) :
    ∃ under rest' closed', (state :: rest).drop xs.length = under :: rest' ∧
      good closed' under = true ∧ Sits (under :: rest') ∧
      symbols (state :: rest) = symbols (under :: rest') ++ xs.reverse ∧
      (brackets (state :: rest)).drop closed = (brackets (under :: rest')).drop closed' := by
  induction xs generalizing closed state rest with
  | nil => exact ⟨state, rest, closed, rfl, hUncovers, h, (List.append_nil _).symm, rfl⟩
  | cons x xs ih =>
    rw [uncovers, Bool.and_eq_true, decide_eq_true_eq] at hUncovers
    obtain ⟨hSymbol, hBelow⟩ := hUncovers
    cases h with
    | bottom => cases hSymbol
    | @push _ under rest hSits hSupports =>
      cases hClosed : closed? state closed with
      | none =>
        rw [hClosed] at hBelow
        cases hBelow
      | some next =>
        rw [hClosed, Option.elim_some, List.all_eq_true] at hBelow
        rw [supports, Bool.and_eq_true, List.contains_iff_mem] at hSupports
        obtain ⟨under', rest', closed', hDrop, hGood, hSits', hSymbols, hBrackets⟩ :=
          ih hSits (hBelow under hSupports.2)
        refine ⟨under', rest', closed', hDrop, hGood, hSits', ?_,
          (drop_turn hClosed _).trans hBrackets⟩
        rw [List.reverse_cons, ← List.append_assoc, ← hSymbols, symbols,
          List.filterMap_cons_some hSymbol, List.reverse_cons]
        rfl

/-! ## What has been read can be completed -/

theorem Sits.symbols_program (h : Sits (1 :: rest)) :
    symbols (1 :: rest) = [.nonterminal .program] := by
  cases h with
  | @push _ under rest hSits hSupports =>
    rw [supports, Bool.and_eq_true, List.contains_iff_mem] at hSupports
    cases List.mem_singleton.mp hSupports.2
    cases hSits with
    | bottom => rfl
    | push _ hNone => cases hNone

theorem symbols_cons {x : Symbol Kind Nonterminal} (h : symbol state = some x) (stack : List Nat) :
    symbols (state :: stack) = symbols stack ++ [x] := by
  rw [symbols, List.filterMap_cons_some h, List.reverse_cons]
  rfl

/-- The symbols of a production are replaced by what is on its left. -/
theorem spells_reduce {r : ContextFreeRule Kind Nonterminal} (hr : r ∈ productions)
    {xs : List (Symbol Kind Nonterminal)} (h : Spells Derivable (xs ++ r.output) w) :
    Spells Derivable (xs ++ [.nonterminal r.input]) w := by
  obtain ⟨u, v, rfl, hu, hv⟩ := spells_append.mp h
  exact spells_append.mpr ⟨u, v, rfl, hu, .last (derivable_closed hr hv)⟩

theorem derivable_number : Derivable .expression [.number] ∧
    Derivable .expressionList [.number] := by
  have hNumber : Derivable .expression [.number] :=
    derivable_closed (r := ⟨.expression, [.terminal .number]⟩) (by decide) (.terminal _ .nil)
  exact ⟨hNumber, derivable_closed (r := ⟨.expressionList, [.nonterminal .expression]⟩) (by decide)
    (.last hNumber)⟩

theorem exists_spelling (xs : List (Symbol Kind Nonterminal)) (h : xs.all simple = true) :
    ∃ w, Spells Derivable xs w := by
  induction xs with
  | nil => exact ⟨[], .nil⟩
  | cons x xs ih =>
    rw [List.all_cons, Bool.and_eq_true] at h
    obtain ⟨w, hw⟩ := ih h.2
    cases x with
    | terminal t => exact ⟨_, .terminal t hw⟩
    | nonterminal n =>
      cases n with
      | expression => exact ⟨_, .nonterminal derivable_number.1 hw⟩
      | expressionList => exact ⟨_, .nonterminal derivable_number.2 hw⟩
      | _ => cases h.1

/-- **Whatever a stack spells** is the beginning of a source. -/
theorem Sits.viable {stack : List Nat} (h : Sits stack)
    (hSpells : Spells Derivable (symbols stack) w) : Viable w := by
  -- completing a production makes the stack shorter, or leads to a state with a smaller rank
  induction hSize : 5 * stack.length + rank (stack.headD 0) using Nat.strongRecOn
    generalizing stack w with
  | ind size ih =>
  cases stack with
  | nil => cases h
  | cons state rest =>
    by_cases hEnd : state = 1
    · subst hEnd
      rw [h.symbols_program] at hSpells
      exact viable_of_derivable hSpells.of_last
    · obtain ⟨number, -, dot, -, hCompletes⟩ := table_completes state h.lt hEnd
      unfold completes at hCompletes
      cases hNumber : productions[number]? with
      | none =>
        rw [hNumber] at hCompletes
        cases hCompletes
      | some r =>
        rw [hNumber, Option.elim_some, Bool.and_eq_true] at hCompletes
        obtain ⟨v, hv⟩ := exists_spelling _ hCompletes.1
        obtain ⟨under, rest', closed, hDrop, hGood, hSits, hSymbols, -⟩ :=
          uncovers_sound h hCompletes.2
        cases hGoto : Table.goto under r.input with
        | none =>
          rw [hGoto] at hGood
          cases hGood
        | some next =>
          simp only [hGoto, Option.elim_some, Bool.and_eq_true, decide_eq_true_eq] at hGood
          obtain ⟨⟨hSupports, hSymbol⟩, hRank⟩ := hGood
          have hWhole : Spells Derivable (symbols (under :: rest') ++ r.output) (w ++ v) := by
            rw [← List.take_append_drop dot r.output, ← List.append_assoc,
              ← List.reverse_reverse (r.output.take dot), ← hSymbols]
            exact spells_append.mpr ⟨w, v, rfl, hSpells, hv⟩
          refine Viable.of_append (v := v) (ih _ ?_ (hSits.on hSupports) ?_ rfl)
          · have hLength := congrArg List.length hDrop
            rw [List.length_drop, List.length_reverse] at hLength
            simp only [List.length_cons, List.headD_cons] at hLength hSize ⊢
            omega
          · rw [symbols_cons hSymbol]
            exact spells_reduce (List.mem_of_getElem? hNumber) hWhole

end

/-! ## Moves -/

/-- A reaction inside more brackets. -/
def inside (outer : List Bracket) : Reaction → Reaction
  | .next a => .next ⟨a.mode, a.stack ++ outer⟩
  | other => other

theorem beginOperand_inside (first : Bool) (bracket : Bracket) (outer : List Bracket) (k : Kind) :
    beginOperand first (bracket :: outer) k = inside outer (beginOperand first [bracket] k) := by
  unfold beginOperand
  split
  case h_7 => cases first <;> rfl
  all_goals rfl

/-- The acceptor looks at the innermost bracket only. -/
theorem step_inside (m : Mode) (bs : List Bracket) (token : Option Kind) :
    (⟨m, bs⟩ : Acceptor).step token =
      inside (bs.drop 1) ((⟨m, bs.take 1⟩ : Acceptor).step token) := by
  cases bs with
  | nil =>
    rw [List.take_nil, List.drop_nil]
    cases (⟨m, []⟩ : Acceptor).step token with
    | next a => rw [inside, List.append_nil]
    | stuck | accepted => rfl
  | cons bracket outer =>
    show _ = inside outer ((⟨m, [bracket]⟩ : Acceptor).step token)
    cases m with
    | start later =>
      cases token with
      | none => cases later <;> rfl
      | some k => exact beginOperand_inside true bracket outer k
    | operand =>
      cases token with
      | none => rfl
      | some k => exact beginOperand_inside false bracket outer k
    | opened =>
      cases token with
      | none => rfl
      | some k =>
        cases bracket <;> cases k <;> first | rfl | exact beginOperand_inside false _ outer _
    | name first =>
      cases token with
      | none => rfl
      | some k => cases first <;> cases bracket <;> cases k <;> rfl
    | after =>
      cases token with
      | none => rfl
      | some k => cases bracket <;> cases k <;> rfl

theorem turn_inside (state : Nat) (bs : List Bracket) :
    turn state bs = turn state (bs.take 1) ++ bs.drop 1 := by
  unfold turn
  cases bs with
  | nil => rw [List.take_nil, List.drop_nil, List.append_nil]
  | cons bracket outer =>
    cases opens state with
    | some b => rfl
    | none => cases closes state <;> rfl

theorem meant_inside (state : Nat) (token : Option Kind) (bs : List Bracket) :
    meant state token bs = inside (bs.drop 1) (meant state token (bs.take 1)) := by
  unfold meant
  split
  · rfl
  · rfl
  · rw [turn_inside]
    rfl
  · exact step_inside _ _ _

theorem Sits.step_meant {stack : List Nat} (h : Sits (state :: stack)) {token : Option Kind}
    (hExpects : expects state token = true) :
    (outline (state :: stack)).step token = meant state token (brackets (state :: stack)) := by
  rw [meant_inside, ← table_meant state h.lt token (mem_columns token) hExpects _ h.top]
  exact step_inside _ _ _

/-- How the acceptor goes on. -/
def judged (a : Automaton) : Ending := judge a.index (outline a.stack) a.rest

/-- A bound on the moves that are left. -/
def size (a : Automaton) : Nat :=
  10 * a.rest.length + 5 * a.stack.length + rank (a.stack.headD 0)

/-- The stack is one that the automaton can have when it has read the beginning of a word. -/
structure Sound (w : List Kind) (a : Automaton) : Prop where
  sits : Sits a.stack
  expects : expects (a.stack.headD 0) a.rest.head? = true
  rest : a.rest = w.drop a.index
  spells : Spells Derivable (symbols a.stack) (w.take a.index)

theorem judge_congr {a b : Acceptor} {rest : List Kind} (index : Nat)
    (h : a.step rest.head? = b.step rest.head?) : judge index a rest = judge index b rest := by
  cases rest with
  | nil => exact congrArg (fun r => if r = .accepted then Ending.accepted else .unfinished) h
  | cons k rest => rw [judge, judge, show a.step (some k) = b.step (some k) from h]

theorem rank_le {under : Nat} (h : supports under state = true) : rank state ≤ 4 := by
  have hPos : state ≠ 0 := by
    rintro rfl
    cases h
  rw [rank, if_neg hPos]
  repeat' split
  all_goals decide

theorem expects_of_follow (h : (follow state).isNone = true) (token : Option Kind) :
    expects state token = true := by
  rw [expects, Option.isNone_iff_eq_none.mp h]
  simp

section

variable {w rest : List Kind} {state index : Nat} {stack : List Nat}

/-- **A reduction** is not noticed by the acceptor. -/
theorem Sound.reduce {number : Nat} (h : Sound w ⟨state :: stack, rest, index⟩)
    (hAction : Table.action state rest.head? = some (.negSucc number))
    (hReduces : reduces state rest.head? number = true) :
    ∃ n count b, Table.productions[number]? = some (n, count) ∧
      reduce ⟨state :: stack, rest, index⟩ n count = .on b ∧ b.Sound w ∧
      b.judged = judged ⟨state :: stack, rest, index⟩ ∧
      b.size < size ⟨state :: stack, rest, index⟩ := by
  have hMeant := h.sits.step_meant h.expects
  unfold reduces at hReduces
  cases hNumber : productions[number]? with
  | none =>
    rw [hNumber] at hReduces
    cases hReduces
  | some r =>
    rw [hNumber, Option.elim_some] at hReduces
    obtain ⟨under, below, closed, hDrop, hGood, hSits, hSymbols, hBrackets⟩ :=
      uncovers_sound h.sits hReduces
    cases hGoto : Table.goto under r.input with
    | none =>
      rw [hGoto, Bool.and_eq_true] at hGood
      cases hGood.2
    | some next =>
      simp only [hGoto, Option.elim_some, Bool.and_eq_true, decide_eq_true_eq, beq_iff_eq,
        Option.isNone_iff_eq_none, Bool.not_eq_true'] at hGood
      obtain ⟨rfl, ⟨⟨⟨⟨⟨hSupports, hExpects⟩, hOpens⟩, hCloses⟩, hSymbol⟩, hMode⟩, hRank⟩ := hGood
      have hSame : brackets (next :: under :: below) = brackets (state :: stack) := by
        show turn next (brackets (under :: below)) = _
        rw [turn, hOpens, hCloses]
        exact hBrackets.symm
      rw [List.reverse_reverse] at hSymbols
      rw [List.length_reverse] at hDrop
      have hSpells := h.spells
      dsimp only at hSpells
      rw [hSymbols] at hSpells
      refine ⟨r.input, r.output.length, ⟨next :: under :: below, rest, index⟩, ?_, ?_,
        ⟨hSits.on hSupports, hExpects, h.rest, ?_⟩, judge_congr index ?_, ?_⟩
      · rw [← table_productions, List.getElem?_map, hNumber]
        rfl
      · unfold Automaton.reduce
        dsimp only
        rw [hDrop, List.head?_cons, Option.bind_some, hGoto]
      · rw [symbols_cons hSymbol]
        exact spells_reduce (List.mem_of_getElem? hNumber) hSpells
      · rw [hMeant, meant, hAction, ← hSame, ← hMode]
        rfl
      · have hLength := congrArg List.length hDrop
        rw [List.length_drop, List.length_cons, List.length_cons] at hLength
        simp only [size, List.length_cons, List.headD_cons]
        omega

/-- **A shift** is a step of the acceptor. -/
theorem Sound.shift {next : Nat} {k : Kind} (h : Sound w ⟨state :: stack, k :: rest, index⟩)
    (hAction : Table.action state (some k) = some (.ofNat (next + 1)))
    (hSupports : supports state (next + 1) = true) (hFollow : (follow (next + 1)).isNone = true)
    (hSymbol : symbol (next + 1) = some (.terminal k)) :
    ∃ b, shift ⟨state :: stack, k :: rest, index⟩ (next + 1) = .on b ∧ b.Sound w ∧
      b.judged = judged ⟨state :: stack, k :: rest, index⟩ ∧
      b.size < size ⟨state :: stack, k :: rest, index⟩ := by
  have hMeant := h.sits.step_meant h.expects
  have hRest : w.drop index = k :: rest := h.rest.symm
  refine ⟨⟨(next + 1) :: state :: stack, rest, index + 1⟩, rfl,
    ⟨h.sits.on hSupports, expects_of_follow hFollow _, ?_, ?_⟩, ?_, ?_⟩
  · rw [← List.tail_drop, hRest]
    rfl
  · rw [symbols_cons hSymbol, List.take_add_one, ← List.head?_drop, hRest]
    exact spells_append.mpr ⟨_, _, rfl, h.spells, .terminal k .nil⟩
  · dsimp only [List.head?_cons] at hMeant
    rw [meant, hAction] at hMeant
    rw [judged, judged, judge, hMeant]
    rfl
  · have hRank := rank_le hSupports
    simp only [size, List.length_cons, List.headD_cons]
    omega

end

/-- What the automaton knows when it ends. -/
def Backs (w : List Kind) : Ending → Prop
  | .accepted => w ∈ sourceGrammar.language
  | .blamed index => Viable (w.take index)
  | .unfinished => Viable w

/-- **A move of the automaton** ends it as the acceptor says, or leads to where the acceptor says
the same. -/
theorem Sound.step {a : Automaton} (h : a.Sound w) : a.step = .ended a.judged ∧ Backs w a.judged ∨
      ∃ b, a.step = .on b ∧ b.Sound w ∧ b.judged = a.judged ∧ b.size < a.size := by
  obtain ⟨stack, rest, index⟩ := a
  cases stack with
  | nil => cases h.sits
  | cons state stack =>
    have hMeant := h.sits.step_meant h.expects
    have hLeads := table_leads state h.sits.lt rest.head? (mem_columns _) h.expects
    have hViable : Viable (w.take index) := h.sits.viable h.spells
    -- at the end everything has been read
    have hAll (hNil : rest = []) : w.take index = w :=
      List.take_of_length_le (List.drop_eq_nil_iff.mp (h.rest.symm.trans hNil))
    unfold Automaton.step
    dsimp only [List.head?_cons, Option.bind_some] at hMeant ⊢
    unfold meant at hMeant
    unfold leads at hLeads
    cases hAction : Table.action state rest.head? with
    | none =>
      rw [hAction] at hMeant
      refine .inl ?_
      cases rest with
      | nil =>
        have hJudged : judged ⟨state :: stack, [], index⟩ = .unfinished := if_neg (hMeant ▸ nofun)
        rw [hJudged]
        exact ⟨rfl, hAll rfl ▸ hViable⟩
      | cons k rest =>
        dsimp only [List.head?_cons] at hMeant
        rw [judged, judge, hMeant]
        exact ⟨rfl, hViable⟩
    | some entry =>
      rw [hAction] at hMeant hLeads
      cases entry with
      | negSucc number =>
        obtain ⟨n, count, b, hNumber, hReduce, hNext⟩ := h.reduce hAction hLeads
        refine .inr ⟨b, ?_, hNext⟩
        dsimp only
        rw [hNumber]
        exact hReduce
      | ofNat next =>
        cases next with
        | zero =>
          cases rest with
          | cons k rest => cases hLeads
          | nil =>
            have hJudged : judged ⟨state :: stack, [], index⟩ = .accepted := if_pos hMeant
            obtain rfl : state = 1 := beq_iff_eq.mp hLeads
            have hSpells := h.spells
            dsimp only at hSpells
            rw [h.sits.symbols_program, hAll rfl] at hSpells
            rw [hJudged]
            exact .inl ⟨rfl, mem_language.mpr hSpells.of_last⟩
        | succ next =>
          simp only [Bool.and_eq_true, decide_eq_true_eq] at hLeads
          obtain ⟨⟨⟨hToken, hSupports⟩, hFollow⟩, hSymbol⟩ := hLeads
          cases rest with
          | nil => cases hToken
          | cons k rest => exact .inr (h.shift hAction hSupports hFollow hSymbol)

/-- **A run of the automaton** ends as the acceptor says. -/
theorem Sound.run {a : Automaton} (h : a.Sound w) {n : Nat} (hSize : a.size < n) :
    run n a = .ended a.judged ∧ Backs w a.judged := by
  induction n generalizing a with
  | zero => exact absurd hSize (Nat.not_lt_zero _)
  | succ n ih =>
    rw [Automaton.run]
    rcases h.step with ⟨hEnd, hBacks⟩ | ⟨b, hStep, hSound, hSame, hLess⟩
    · rw [hEnd]
      exact ⟨rfl, hBacks⟩
    · rw [hStep, ← hSame]
      exact ih hSound (by omega)

theorem start_sound (w : List Kind) : (start w).Sound w :=
  ⟨.bottom, expects_of_follow (rfl : (follow 0).isNone = true) _, rfl, .nil⟩

/-- What the automaton knows and what the acceptor knows together make the ending right. -/
theorem judge_right (h : Backs w (judge 0 initial w)) : (judge 0 initial w).Right w := by
  cases hJudge : judge 0 initial w with
  | accepted =>
    rw [hJudge] at h
    exact h
  | blamed index =>
    rw [hJudge] at h
    exact ⟨h, not_viable_of_judge hJudge⟩
  | unfinished =>
    rw [hJudge] at h
    exact ⟨h, fun hMem => nomatch hJudge.symm.trans (judge_of_mem hMem)⟩

end Automaton

/-- **The grammar decides how the table reads**, whatever comes.  The table numbers the productions
of the grammar.  The automaton ends after at most so many moves: with success exactly if the tokens
are derived from the grammar, at a token exactly if it is the first one that no derivable sequence
has there, and at the end exactly if something is missing there.  The machine ends in the same way,
if no action fails, and sources that consist of tokens are read by driving it over them. -/
theorem table_decides_as_grammar_says (w : List Kind) :
    productions.map (fun r => (r.input, r.output.length)) = Table.productions ∧
    ∃ ending, (∀ n, 10 * w.length + 11 < n → Automaton.run n (.start w) = .ended ending) ∧
      (ending = .accepted ↔ w ∈ sourceGrammar.language) ∧
      (∀ k, ending = .blamed k ↔ Viable (w.take k) ∧ ¬ Viable (w.take (k + 1))) ∧
      (ending = .unfinished ↔ (∃ rest, rest ≠ [] ∧ w ++ rest ∈ sourceGrammar.language) ∧
        w ∉ sourceGrammar.language) ∧
      (∀ {σ E S : Type} (acts : Actions (Act σ) E S), acts.Reliable → ∀ stop tokens s,
        Token.kinds tokens = w → ∃ verdict s',
          Config.start.drive acts stop 0 tokens s = .ok verdict s' ∧ verdict.ending = ending ∧
            ∀ k t, verdict = .blamed k t → tokens[k]? = some t) ∧
      ∀ dict : Dictionary, dict.setting.source.toList.all isBlank = false →
        (scan 1 dict.setting.source).stop = .finished →
        dict.readSource = (Config.start.drive dict.actions dict.setting.source.length 0
          (scan 1 dict.setting.source).tokens >>= dict.conclude) := by
  have hRun {n : Nat} (hn : 10 * w.length + 11 < n) := (Automaton.start_sound w).run hn
  have hRight := Automaton.judge_right (hRun (Nat.lt_succ_self _)).2
  refine ⟨table_productions, judge 0 initial w, fun n hn => (hRun hn).1,
    hRight.eq_iff, fun k => hRight.eq_iff, hRight.eq_iff.trans Ending.right_unfinished, ?_,
    fun dict => dict.readSource_eq_drive⟩
  intro σ E S acts hActs stop tokens s hKinds
  have hRun := Config.drive_judged acts stop tokens [] Config.start_regular s
  generalize hOut : Config.start.drive acts stop 0 tokens s = out at hRun ⊢
  cases hRun with
  | error hUnreliable => exact (hUnreliable hActs).elim
  | @ok verdict s' hJudged =>
    refine ⟨verdict, s', rfl, ?_, hJudged.2⟩
    rw [hJudged.1, hKinds]
    rfl

/-- The tokens of `-x ? f(1, ] : 2`. -/
def strayBracket : List Token := [⟨.operator (.binary .sub), 0, 1⟩, ⟨.name "x", 1, 1⟩,
  ⟨.question, 3, 1⟩, ⟨.name "f", 5, 1⟩, ⟨.openParen, 6, 1⟩, ⟨.number 1, 7, 1⟩, ⟨.comma, 8, 1⟩,
  ⟨.closeBracket, 10, 1⟩, ⟨.colon, 12, 1⟩, ⟨.number 2, 14, 1⟩]

/-- The bracket is the first token that cannot stand where it does. -/
theorem bracket_is_first_impossible : Actions.idle.Reliable ∧
    (∃ verdict s', Config.start.drive Actions.idle 15 0 strayBracket () = .ok verdict s' ∧
      verdict.ending = .blamed 7) ∧
    Viable ((Token.kinds strayBracket).take 7) ∧ ¬ Viable ((Token.kinds strayBracket).take 8) := by
  obtain ⟨-, ending, hRun, _, hBlamed, _, hReading, _⟩ :=
    table_decides_as_grammar_says (Token.kinds strayBracket)
  have hEnd : Automaton.run 128 (.start (Token.kinds strayBracket)) = .ended (.blamed 7) := rfl
  cases hEnd.symm.trans (hRun 128 (by decide))
  obtain ⟨verdict, s', hDrive, hEnding, _⟩ :=
    hReading Actions.idle Actions.idle_reliable 15 strayBracket () rfl
  exact ⟨Actions.idle_reliable, ⟨verdict, s', hDrive, hEnding⟩, (hBlamed 7).mp rfl⟩

end MolangCompiler

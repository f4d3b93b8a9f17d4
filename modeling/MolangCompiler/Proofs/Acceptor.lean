import MolangCompiler.Proofs.Language

/-!
# An acceptor for the language of sources

Without its trees, reading is a machine with a stack of open brackets, where a question mark is a
bracket that a colon closes.  It accepts all words of the grammar, since the words that it reads are
a closed family in the sense of `derivable_least`.
-/

namespace MolangCompiler

/-- What has been opened and must be closed. -/
inductive Bracket where
  | question | group | vector | call
  deriving DecidableEq

/-- What may come next. -/
inductive Mode where
  /-- A statement, which is not the first one if `later`. -/
  | start (later : Bool)
  | operand
  /-- An argument, or the end of a call without arguments. -/
  | opened
  /-- What may follow a name, which is the first token of a statement if `first`. -/
  | name (first : Bool)
  /-- What may follow an expression. -/
  | after
  deriving DecidableEq

/-- A state of the acceptor. -/
structure Acceptor where
  mode : Mode
  stack : List Bracket
  deriving DecidableEq

/-- What reading a token leads to. -/
inductive Reaction where
  | stuck
  | next (state : Acceptor)
  | accepted
  deriving DecidableEq

namespace Acceptor

def goOn (stack : List Bracket) (token : Option Kind) : Reaction :=
  match token, stack with
  | some (.operator _), _ | some .comma, .vector :: _ | some .comma, .call :: _ =>
    .next ⟨.operand, stack⟩
  | some .question, _ => .next ⟨.operand, .question :: stack⟩
  | some .semicolon, [] => .next ⟨.start true, []⟩
  | none, [] => .accepted
  | some .colon, .question :: rest => .next ⟨.operand, rest⟩
  | some .closeParen, .group :: rest | some .closeParen, .call :: rest
  | some .closeBracket, .vector :: rest => .next ⟨.after, rest⟩
  | _, _ => .stuck

/-- Reads the first token of an operand, which starts a statement if `first`. -/
def beginOperand (first : Bool) (stack : List Bracket) : Kind → Reaction
  | .number => .next ⟨.after, stack⟩
  | .name => .next ⟨.name first, stack⟩
  | .operator (.binary .sub) => .next ⟨.operand, stack⟩
  | .not => .next ⟨.operand, stack⟩
  | .openParen => .next ⟨.operand, .group :: stack⟩
  | .openBracket => .next ⟨.operand, .vector :: stack⟩
  | .ret => if first then .next ⟨.operand, stack⟩ else .stuck
  | _ => .stuck

def step (a : Acceptor) (token : Option Kind) : Reaction :=
  match a.mode, token with
  | .start _, some k => beginOperand true a.stack k
  | .start later, none => if later then .accepted else .stuck
  | .operand, some k => beginOperand false a.stack k
  | .operand, none => .stuck
  | .opened, some k =>
    match k, a.stack with
    | .closeParen, .call :: rest => .next ⟨.after, rest⟩
    | _, _ => beginOperand false a.stack k
  | .opened, none => .stuck
  | .name first, token =>
    match token with
    | some .openParen => .next ⟨.opened, .call :: a.stack⟩
    | some .assign => if first then .next ⟨.operand, a.stack⟩ else .stuck
    | _ => goOn a.stack token
  | .after, token => goOn a.stack token

def Reads : Acceptor → List Kind → Acceptor → Prop
  | a, [], b => a = b
  | a, k :: w, b => ∃ c, a.step (some k) = .next c ∧ Reads c w b

def initial : Acceptor := ⟨.start false, []⟩

variable {a c : Acceptor}

theorem Reads.append {b : Acceptor} {u v : List Kind} (hu : Reads a u b) (hv : Reads b v c) :
    Reads a (u ++ v) c := by
  induction u generalizing a with
  | nil =>
    cases hu
    exact hv
  | cons k u ih =>
    obtain ⟨d, hStep, hu⟩ := hu
    exact ⟨d, hStep, ih hu⟩

theorem Reads.split {u v : List Kind} (h : Reads a (u ++ v) c) :
    ∃ b, Reads a u b ∧ Reads b v c := by
  induction u generalizing a with
  | nil => exact ⟨a, rfl, h⟩
  | cons k u ih =>
    obtain ⟨d, hStep, h⟩ := h
    obtain ⟨b, hu, hv⟩ := ih h
    exact ⟨b, ⟨d, hStep, hu⟩, hv⟩

variable {b : Acceptor} {w : List Kind} {k : Kind} {stack : List Bracket}

/-! ## Completeness -/

def Expects (a : Acceptor) : Prop :=
  match a.mode with
  | .start _ | .operand | .opened => True
  | .name _ | .after => False

/-- A state behind an expression inside the given brackets. -/
def Behind (stack : List Bracket) (b : Acceptor) : Prop :=
  b = ⟨.after, stack⟩ ∨ ∃ first, b = ⟨.name first, stack⟩

def Lists : List Bracket → Prop
  | .vector :: _ | .call :: _ => True
  | _ => False

/-- **What the acceptor reads of a word**, by what the word is derived from. -/
def Readable : Nonterminal → List Kind → Prop
  | .expression, w => ∀ a, Expects a → ∃ b, Reads a w b ∧ Behind a.stack b
  | .expressionList, w => ∀ a, Expects a → Lists a.stack → ∃ b, Reads a w b ∧ Behind a.stack b
  | .statement, w | .effectStatement, w => ∀ later, ∃ b, Reads ⟨.start later, []⟩ w b ∧ Behind [] b
  | .statementList, w => Reads initial w ⟨.start true, []⟩
  | .program, w => ∃ b, Reads initial w b ∧ b.step none = .accepted

theorem Expects.step (h : Expects a) (hk : k ≠ .closeParen) :
    ∃ first, a.step (some k) = beginOperand first a.stack k := by
  obtain ⟨mode, stack⟩ := a
  cases mode with
  | start later => exact ⟨true, rfl⟩
  | operand => exact ⟨false, rfl⟩
  | opened =>
    refine ⟨false, ?_⟩
    simp only [step]
    split
    next => exact absurd rfl hk
    next => rfl
  | name | after => exact h.elim

theorem Behind.step (h : Behind stack b) (token : Option Kind) (hParen : token ≠ some .openParen)
    (hAssign : token ≠ some .assign) :
    b.step token = goOn stack token := by
  rcases h with rfl | ⟨first, rfl⟩
  · rfl
  · simp only [step]

theorem Reads.snoc (h : Reads a w b) (hStep : b.step (some k) = .next c) : Reads a (w ++ [k]) c :=
  h.append ⟨c, hStep, rfl⟩

theorem Readable.behind (h : Readable .expression w) (stack : List Bracket) :
    ∃ b, Reads ⟨.operand, stack⟩ w b ∧ Behind stack b :=
  h ⟨.operand, stack⟩ trivial

theorem Readable.signed (h : Readable .expression w) (hk : k ≠ .closeParen)
    (hBegin : ∀ first stack, beginOperand first stack k = .next ⟨.operand, stack⟩) :
    Readable .expression (k :: w) := by
  intro a ha
  obtain ⟨first, hStep⟩ := ha.step hk
  obtain ⟨b, hReads, hBehind⟩ := h.behind a.stack
  exact ⟨b, ⟨_, hStep.trans (hBegin first a.stack), hReads⟩, hBehind⟩

theorem operatorProduction_readable (op : Operator)
    (h : Spells Readable (operatorProduction op).output w) : Readable .expression w := by
  obtain ⟨u, _, rfl, hu, v, rfl, hv⟩ := h
  intro a ha
  obtain ⟨b, hReads, hBehind⟩ := hu a ha
  obtain ⟨c, hReads', hBehind'⟩ := hv.of_last.behind a.stack
  exact ⟨c, hReads.append ⟨_, hBehind.step _ nofun nofun, hReads'⟩, hBehind'⟩

theorem Readable.closed {bracket : Bracket} {mode : Mode} (h : Readable .expressionList w)
    (hExpects : Expects ⟨mode, bracket :: stack⟩) (hLists : Lists (bracket :: stack))
    (hParen : k ≠ .openParen) (hAssign : k ≠ .assign)
    (hClose : goOn (bracket :: stack) (some k) = .next ⟨.after, stack⟩) :
    Reads ⟨mode, bracket :: stack⟩ (w ++ [k]) ⟨.after, stack⟩ := by
  obtain ⟨b, hReads, hBehind⟩ := h _ hExpects hLists
  have hStep := hBehind.step (some k) (by simpa using hParen) (by simpa using hAssign)
  exact hReads.snoc (hStep.trans hClose)

theorem expressionProductions_readable {r : ContextFreeRule Kind Nonterminal}
    (hr : r ∈ expressionProductions) (h : Spells Readable r.output w) :
    Readable r.input w := by
  simp only [expressionProductions, List.mem_cons, List.not_mem_nil, or_false] at hr
  rcases hr with rfl | rfl | rfl | rfl | rfl | rfl | rfl | rfl | rfl | rfl | rfl
  · -- condition ? yes : no
    obtain ⟨u, _, rfl, hu, _, rfl, v, _, rfl, hv, x, rfl, hx⟩ := h
    intro a ha
    obtain ⟨b, hReads, hBehind⟩ := hu a ha
    obtain ⟨c, hYes, hBehindYes⟩ := hv.behind (.question :: a.stack)
    obtain ⟨d, hNo, hBehindNo⟩ := hx.of_last.behind a.stack
    exact ⟨d, hReads.append ⟨_, hBehind.step _ nofun nofun,
      hYes.append ⟨_, hBehindYes.step _ nofun nofun, hNo⟩⟩, hBehindNo⟩
  · -- - operand
    obtain ⟨u, rfl, hu⟩ := h
    exact hu.of_last.signed nofun fun _ _ => rfl
  · -- ! operand
    obtain ⟨u, rfl, hu⟩ := h
    exact hu.of_last.signed nofun fun _ _ => rfl
  · -- ( expression )
    obtain ⟨_, rfl, u, _, rfl, hu, _, rfl, rfl⟩ := h
    intro a ha
    obtain ⟨first, hStep⟩ := ha.step (k := .openParen) nofun
    obtain ⟨b, hReads, hBehind⟩ := hu.behind (.group :: a.stack)
    exact ⟨_, ⟨_, hStep, hReads.snoc (hBehind.step _ nofun nofun)⟩, .inl rfl⟩
  · -- [ list ]
    obtain ⟨_, rfl, u, _, rfl, hu, _, rfl, rfl⟩ := h
    intro a ha
    obtain ⟨first, hStep⟩ := ha.step (k := .openBracket) nofun
    exact ⟨_, ⟨_, hStep, hu.closed trivial trivial nofun nofun rfl⟩, .inl rfl⟩
  · -- number
    obtain ⟨_, rfl, rfl⟩ := h
    intro a ha
    obtain ⟨first, hStep⟩ := ha.step (k := .number) nofun
    exact ⟨_, ⟨_, hStep, rfl⟩, .inl rfl⟩
  · -- name
    obtain ⟨_, rfl, rfl⟩ := h
    intro a ha
    obtain ⟨first, hStep⟩ := ha.step (k := .name) nofun
    exact ⟨_, ⟨_, hStep, rfl⟩, .inr ⟨first, rfl⟩⟩
  · -- name ( )
    obtain ⟨_, rfl, _, rfl, _, rfl, rfl⟩ := h
    intro a ha
    obtain ⟨first, hStep⟩ := ha.step (k := .name) nofun
    exact ⟨_, ⟨_, hStep, _, rfl, _, rfl, rfl⟩, .inl rfl⟩
  · -- name ( list )
    obtain ⟨_, rfl, _, rfl, u, _, rfl, hu, _, rfl, rfl⟩ := h
    intro a ha
    obtain ⟨first, hStep⟩ := ha.step (k := .name) nofun
    exact ⟨_, ⟨_, hStep, _, rfl, hu.closed trivial trivial nofun nofun rfl⟩, .inl rfl⟩
  · -- expression
    exact fun a ha _ => h.of_last a ha
  · -- list , expression
    obtain ⟨u, _, rfl, hu, v, rfl, hv⟩ := h
    intro a ha hLists
    obtain ⟨b, hReads, hBehind⟩ := hu a ha hLists
    have hComma : goOn a.stack (some .comma) = .next ⟨.operand, a.stack⟩ := by
      match a.stack, hLists with
      | .vector :: _, _ | .call :: _, _ => rfl
    have hStep := (hBehind.step (some .comma) nofun nofun).trans hComma
    obtain ⟨c, hReads', hBehind'⟩ := hv.of_last.behind a.stack
    exact ⟨c, hReads.append ⟨_, hStep, hReads'⟩, hBehind'⟩

theorem statementProductions_readable {r : ContextFreeRule Kind Nonterminal}
    (hr : r ∈ statementProductions) (h : Spells Readable r.output w) :
    Readable r.input w := by
  simp only [statementProductions, List.mem_cons, List.not_mem_nil, or_false] at hr
  rcases hr with rfl | rfl | rfl | rfl | rfl | rfl | rfl | rfl | rfl | rfl
  · -- program: expression
    obtain ⟨b, hReads, hBehind⟩ := h.of_last initial trivial
    exact ⟨b, hReads, hBehind.step _ nofun nofun⟩
  · -- program: effect
    obtain ⟨b, hReads, hBehind⟩ := h.of_last false
    exact ⟨b, hReads, hBehind.step _ nofun nofun⟩
  · -- program: statements
    exact ⟨_, h.of_last, rfl⟩
  · -- program: statements, the last one without a semicolon
    obtain ⟨u, v, rfl, hu, hv⟩ := h
    obtain ⟨b, hReads, hBehind⟩ := hv.of_last true
    exact ⟨b, .append hu hReads, hBehind.step _ nofun nofun⟩
  · -- statement ;
    obtain ⟨u, _, rfl, hu, _, rfl, rfl⟩ := h
    obtain ⟨b, hReads, hBehind⟩ := hu false
    exact hReads.snoc (hBehind.step _ nofun nofun)
  · -- statements statement ;
    obtain ⟨u, _, rfl, hu, v, _, rfl, hv, _, rfl, rfl⟩ := h
    obtain ⟨b, hReads, hBehind⟩ := hv true
    exact .append hu (hReads.snoc (hBehind.step _ nofun nofun))
  · -- statement: expression
    exact fun later => h.of_last ⟨.start later, []⟩ trivial
  · -- statement: effect
    exact h.of_last
  · -- name = expression
    obtain ⟨_, rfl, u, rfl, hu⟩ := h
    obtain ⟨b, hReads, hBehind⟩ := hu.of_last.behind []
    exact fun later => ⟨b, ⟨_, rfl, _, rfl, hReads⟩, hBehind⟩
  · -- return expression
    obtain ⟨u, rfl, hu⟩ := h
    obtain ⟨b, hReads, hBehind⟩ := hu.of_last.behind []
    exact fun later => ⟨b, ⟨_, rfl, hReads⟩, hBehind⟩

/-- **Completeness**: every derivable word is read. -/
theorem readable_of_derivable {n : Nonterminal} (h : Derivable n w) : Readable n w := by
  refine derivable_least (fun r hr w hw => ?_) h
  rcases List.mem_append.mp hr with hr | hr
  · rcases List.mem_append.mp hr with hr | hr
    · exact statementProductions_readable hr hw
    · obtain ⟨op, _, rfl⟩ := List.mem_map.mp hr
      exact operatorProduction_readable op hw
  · exact expressionProductions_readable hr hw

/-! ## Words that are read to their end -/

/-- How reading a word ends, if so many tokens have been read before it. -/
def judge : Nat → Acceptor → List Kind → Ending
  | _, a, [] => if a.step none = .accepted then .accepted else .unfinished
  | index, a, k :: rest =>
    match a.step (some k) with
    | .next b => judge (index + 1) b rest
    | _ => .blamed index

theorem judge_append {v : List Kind} (h : Reads a v b) (index : Nat) (w : List Kind) :
    judge index a (v ++ w) = judge (index + v.length) b w := by
  induction v generalizing a index with
  | nil =>
    cases h
    rfl
  | cons k v ih =>
    obtain ⟨c, hStep, h⟩ := h
    rw [List.cons_append, judge, hStep, List.length_cons, Nat.add_left_comm, Nat.add_comm v.length]
    exact ih h (index + 1)

theorem le_of_judge {index : Nat} {j : Nat} (h : judge index a w = .blamed j) : index ≤ j := by
  induction w generalizing a index with
  | nil =>
    rw [judge] at h
    split at h <;> cases h
  | cons k w ih =>
    rw [judge] at h
    split at h
    · exact Nat.le_of_succ_le (ih h)
    · cases h
      exact Nat.le_refl _

/-- Derivable words are accepted. -/
theorem judge_of_mem (h : w ∈ sourceGrammar.language) : judge 0 initial w = .accepted := by
  obtain ⟨b, hReads, hEnd⟩ := readable_of_derivable (mem_language.mp h)
  have hJudge := judge_append hReads 0 []
  rw [List.append_nil] at hJudge
  rw [hJudge, judge, if_pos hEnd]

/-- A token that is blamed is not part of a beginning. -/
theorem not_viable_of_judge {j : Nat} (h : judge 0 initial w = .blamed j) :
    ¬ Viable (w.take (j + 1)) := by
  rintro ⟨rest, hRest⟩
  obtain ⟨c, hReads, _⟩ := readable_of_derivable (mem_language.mp hRest)
  obtain ⟨b, hReads, _⟩ := hReads.split
  rw [← List.take_append_drop (j + 1) w, judge_append hReads] at h
  have hLe := le_of_judge h
  rw [List.length_take] at hLe
  -- then all tokens were read before the one that is blamed
  have hAll : w.drop (j + 1) = [] := List.drop_eq_nil_of_le (by omega)
  rw [hAll, judge] at h
  split at h <;> cases h

end Acceptor

end MolangCompiler

import MolangCompiler.Proofs.Acceptor
import MolangCompiler.Proofs.Outcome
import MolangCompiler.Resolve

/-!
# Which sources are read

Without trees, positions and statements the machine that reads a source is the acceptor: its frames
become open brackets, and frames that the next token may end leave no trace at all.  So, as long as
no action fails, it is the grammar that decides how reading ends.  Reading always comes to an end,
since putting frames together makes them fewer.
-/

namespace MolangCompiler

open Lexeme

open Token

open Acceptor

/-! ## Reading tokens to their end -/

/-- How reading ends. -/
inductive Verdict (E : Type) where
  | accepted (program : E)
  /-- The token with this index cannot stand where it does. -/
  | blamed (index : Nat) (token : Token)
  /-- The source must not end where it does. -/
  | unfinished

/-- Reads the remaining tokens, of which the first has the given index, and then the end of the
source. -/
def Config.drive {m : Type → Type} [Monad m] {E S : Type} (acts : Actions m E S) (stop : Nat) :
    Nat → Config E S → List Token → m (Verdict E)
  | _, c, [] => do
    match ← c.step acts none stop with
    | .accepted e => return .accepted e
    | _ => return .unfinished
  | index, c, t :: rest => do
    match ← c.step acts (some t.lexeme) t.start with
    | .next c' => drive acts stop (index + 1) c' rest
    | _ => return .blamed index t

namespace Dictionary

/-- The result of reading a source, or the failure that names the place of its problem. -/
def conclude (dict : Dictionary) : Verdict Expr → Reading Expr
  | .accepted e => return e
  | .blamed _ t =>
    Reading.fail dict.setting (.unexpected t.lexeme.text) t.start (t.start + t.lexeme.extent)
  | .unfinished =>
    Reading.fail dict.setting .unexpectedEnd dict.setting.source.length dict.setting.source.length

def finish (dict : Dictionary) (c : Config Expr Stmt) : Reading Expr := do
  match ← c.step dict.actions none dict.setting.source.length with
  | .accepted e => return e
  | _ => dict.conclude .unfinished

theorem readTokens_eq_drive (dict : Dictionary) (tokens : List Token) (index : Nat)
    (c : Config Expr Stmt) (s : Scope) :
    (dict.readTokens c tokens >>= dict.finish) s =
      (c.drive dict.actions dict.setting.source.length index tokens >>= dict.conclude) s := by
  induction tokens generalizing c s index with
  | nil =>
    simp only [readTokens, finish, Config.drive, pure_bind, bind_assoc]
    cases hStep : c.step dict.actions none dict.setting.source.length s with
    | error e s' => rw [bind_of_error hStep, bind_of_error hStep]
    | ok progress s' =>
      rw [bind_of_ok hStep, bind_of_ok hStep]
      cases progress <;> rfl
  | cons t rest ih =>
    simp only [readTokens, Config.drive, bind_assoc]
    cases hStep : c.step dict.actions (some t.lexeme) t.start s with
    | error e s' => rw [bind_of_error hStep, bind_of_error hStep]
    | ok progress s' =>
      rw [bind_of_ok hStep, bind_of_ok hStep]
      cases progress with
      | next c' => exact ih (index + 1) c' s'
      | stuck | accepted => rfl

/-- A source that is not blank and consists of tokens is read by driving the machine over them. -/
theorem readSource_eq_drive (dict : Dictionary)
    (hText : dict.setting.source.toList.all isBlank = false)
    (hTokens : (scan 1 dict.setting.source).stop = .finished) :
    dict.readSource =
      (Config.start.drive dict.actions dict.setting.source.length 0
        (scan 1 dict.setting.source).tokens >>= dict.conclude) := by
  funext s
  rw [← readTokens_eq_drive dict _ 0 _ s]
  unfold readSource
  simp only [hText, hTokens, Bool.false_eq_true, if_false]
  rfl

end Dictionary

/-! ## Actions that do not fail -/

section

variable {σ E S α β : Type}

def NeverFails (act : Act σ α) : Prop := ∀ s, ∃ a s', act s = .ok a s'

/-- None of the actions ever fails. -/
structure Actions.Reliable (acts : Actions (Act σ) E S) : Prop where
  number (x : Float) : NeverFails (acts.number x)
  name (text : String) (p : Nat) : NeverFails (acts.name text p)
  call (text : String) (p : Nat) (args : List E) : NeverFails (acts.call text p args)
  negate (p : Nat) (e : E) : NeverFails (acts.negate p e)
  not (p : Nat) (e : E) : NeverFails (acts.not p e)
  operator (op : Operator) (p : Nat) (l r : E) : NeverFails (acts.operator op p l r)
  ternary (p q : Nat) (condition yes no : E) : NeverFails (acts.ternary p q condition yes no)
  vector (p : Nat) (elements : List E) : NeverFails (acts.vector p elements)
  discard (e : E) : NeverFails (acts.discard e)
  assign (text : String) (p : Nat) (e : E) : NeverFails (acts.assign text p e)
  ret (p : Nat) (e : E) : NeverFails (acts.ret p e)
  sequence (statements : List S) : NeverFails (acts.sequence statements)

/-- An operation whose results have a property, and which does not fail if no action does. -/
def Yields (acts : Actions (Act σ) E S) (post : α → Prop) (act : Act σ α) : Prop :=
  ∀ s, Ends (fun a _ => post a) (fun _ => ¬ acts.Reliable) (act s)

namespace Yields

variable {acts : Actions (Act σ) E S} {p : α → Prop} {q : β → Prop}

theorem pure {a : α} (h : p a) : Yields acts p (Pure.pure a) := fun _ => .ok h

theorem bind {act : Act σ α} {next : α → Act σ β} (h : Yields acts p act)
    (hNext : ∀ a, p a → Yields acts q (next a)) : Yields acts q (act >>= next) :=
  fun s => (h s).bind fun a s' ha => hNext a ha s'

theorem of_action {act : Act σ α} (h : acts.Reliable → NeverFails act) :
    Yields acts (fun _ => True) act := by
  intro s
  cases hAct : act s with
  | ok a s' => exact .ok trivial
  | error e s' =>
    refine .error fun hReliable => ?_
    obtain ⟨a, s'', hOk⟩ := h hReliable s
    rw [hAct] at hOk
    cases hOk

end Yields

/-! ## The machine without its trees -/

def Frame.bracket? : Frame E → Option Bracket
  | .negate _ | .not _ | .operator _ _ _ | .colon _ _ _ _ => none
  | .group => some .group
  | .question _ _ => some .question
  | .vector _ _ => some .vector
  | .call _ _ _ => some .call

def Frame.brackets (frames : List (Frame E)) : List Bracket := frames.filterMap bracket?

/-- Nothing but what is in focus has been read of the current statement. -/
def Config.fresh (c : Config E S) : Bool :=
  match c.head, c.frames with
  | .plain, [] => true
  | _, _ => false

def Config.outline (c : Config E S) : Acceptor where
  mode := match c.focus with
    | .operand => if c.fresh then .start (!c.statements.isEmpty) else .operand
    | .opened => .opened
    | .name _ _ => .name c.fresh
    | .number _ | .group _ | .vector _ _ | .call _ _ _ => .after
  stack := Frame.brackets c.frames

/-- What is left of the result of a step without its trees. -/
def Progress.outline : Progress E S → Reaction
  | .stuck => .stuck
  | .next c => .next c.outline
  | .accepted _ => .accepted

def Config.Regular (c : Config E S) : Prop :=
  c.focus = .opened → ∃ name p args rest, c.frames = .call name p args :: rest

/-- A step of the machine that is a step of the acceptor. -/
def Progress.Outlines (progress : Progress E S) (reaction : Reaction) : Prop :=
  progress.outline = reaction ∧ ∀ c, progress = .next c → c.Regular

namespace Config

theorem fresh_of_frame (stmts : List S) (head : Head) (frame : Frame E) (rest : List (Frame E))
    (focus : Focus E) : (⟨stmts, head, frame :: rest, focus⟩ : Config E S).fresh = false := by
  cases head <;> rfl

theorem outlines_waiting (stmts : List S) (head : Head) (frame : Frame E)
    (rest : List (Frame E)) :
    (Progress.next (⟨stmts, head, frame :: rest, .operand⟩ : Config E S)).Outlines
      (.next ⟨.operand, Frame.brackets (frame :: rest)⟩) := by
  refine ⟨?_, ?_⟩
  · simp only [Progress.outline, outline, fresh_of_frame, Bool.false_eq_true, if_false]
  · rintro _ ⟨⟩ hOpened
    cases hOpened

theorem outlines_stuck : (Progress.stuck : Progress E S).Outlines .stuck := ⟨rfl, nofun⟩

variable {acts : Actions (Act σ) E S}

theorem endStatement_yields (head : Head) (e : E) :
    Yields acts (fun _ => True) (endStatement acts head e) := by
  cases head with
  | plain => exact .of_action fun h => h.discard e
  | assign name p => exact .of_action fun h => h.assign name p e
  | ret p => exact .of_action fun h => h.ret p e

theorem endProgram_yields (stmts : List S) (head : Head) (e : E) :
    Yields acts (fun _ => True) (endProgram acts stmts head e) := by
  unfold endProgram
  split
  · exact .pure trivial
  · exact .bind (endStatement_yields head e) fun t _ => .of_action fun h => h.sequence _

/-- Putting frames together and going on behind them is what the acceptor does behind an
expression. -/
theorem continueWith_outlines (stmts : List S) (head : Head) (token : Option Lexeme)
    (pos : Nat) (fs : List (Frame E)) (e : E) :
    Yields acts (fun r => r.Outlines (goOn (Frame.brackets fs) (token.map kind)))
      (continueWith acts stmts head token pos fs e) := by
  induction fs generalizing e with
  | nil =>
    cases token with
    | none => exact .bind (endProgram_yields stmts head e) fun _ _ => .pure ⟨rfl, nofun⟩
    | some t =>
      cases t with
      | operator | question => exact .pure (outlines_waiting _ _ _ _)
      | semicolon =>
        refine .bind (endStatement_yields head e) fun t _ => .pure ⟨?_, by rintro _ ⟨⟩ ⟨⟩⟩
        simp [Progress.outline, outline, fresh, Frame.brackets, goOn, kind]
      | _ => exact .pure outlines_stuck
  | cons frame rest ih =>
    -- a frame that leaves no bracket open is put together, whatever comes
    have hPut {act : Act σ E} (hAct : acts.Reliable → NeverFails act)
        (hBracket : frame.bracket? = none) :
        Yields acts (fun r => r.Outlines (goOn (Frame.brackets (frame :: rest)) (token.map kind)))
          (do continueWith acts stmts head token pos rest (← act)) := by
      have hSame : Frame.brackets (frame :: rest) = Frame.brackets rest :=
        List.filterMap_cons_none hBracket
      rw [hSame]
      exact .bind (.of_action hAct) fun e' _ => ih e'
    cases frame with
    | negate p => exact hPut (fun h => h.negate _ _) rfl
    | not p => exact hPut (fun h => h.not _ _) rfl
    | operator left op p =>
      have hJoin := hPut (fun h => h.operator op p left e) rfl
      cases token with
      | none => exact hJoin
      | some t =>
        cases t with
        | operator op' =>
          simp only [continueWith]
          split
          · exact .pure (outlines_waiting _ _ _ _)
          · exact hJoin
        | _ => exact hJoin
    | colon cond yes p q =>
      have hJoin := hPut (fun h => h.ternary p q cond yes e) rfl
      cases token with
      | none => exact hJoin
      | some t =>
        cases t with
        | operator | question => exact .pure (outlines_waiting _ _ _ _)
        | _ => exact hJoin
    | group | question | vector | call =>
      cases token with
      | none => exact .pure outlines_stuck
      | some t =>
        cases t with
        | operator | question => exact .pure (outlines_waiting _ _ _ _)
        | closeParen | closeBracket | comma | colon =>
          first
            | exact .pure outlines_stuck
            | exact .pure (outlines_waiting _ _ _ _)
            | exact .pure ⟨rfl, by rintro _ ⟨⟩ ⟨⟩⟩
        | _ => exact .pure outlines_stuck

variable {c : Config E S}

theorem beginOperand_outlines (hOperand : c.focus = .operand) (token : Lexeme) (pos : Nat) :
    (c.beginOperand token pos).Outlines
      (Acceptor.beginOperand c.fresh (Frame.brackets c.frames) token.kind) := by
  obtain ⟨stmts, head, fs, focus⟩ := c
  cases hOperand
  cases token with
  | number | name => exact ⟨rfl, by rintro _ ⟨⟩ ⟨⟩⟩
  | not | openParen | openBracket => exact outlines_waiting _ _ _ _
  | operator op =>
    cases op with
    | logical op => exact outlines_stuck
    | binary op =>
      cases op with
      | sub => exact outlines_waiting _ _ _ _
      | _ => exact outlines_stuck
  | ret =>
    cases head with
    | plain =>
      cases fs with
      | nil => exact ⟨rfl, by rintro _ ⟨⟩ ⟨⟩⟩
      | cons frame rest => exact outlines_stuck
    | assign | ret => exact outlines_stuck
  | _ => exact outlines_stuck

theorem step_operand (c : Config E S) (hOperand : c.focus = .operand) (k : Kind) :
    c.outline.step (some k) = Acceptor.beginOperand c.fresh (Frame.brackets c.frames) k := by
  cases hFresh : c.fresh <;> simp [outline, hOperand, hFresh, Acceptor.step]

/-- What ends no operand leaves the acceptor stuck behind an expression. -/
theorem proceed_outlines (c : Config E S) (token : Option Lexeme) (pos : Nat) {value : Act σ E}
    (hValue : Yields acts (fun _ => True) value) :
    Yields acts (fun r => r.Outlines (goOn (Frame.brackets c.frames) (token.map kind)))
      (if endsOperand token then
        (do continueWith acts c.statements c.head token pos c.frames (← value))
      else pure .stuck) := by
  split
  · exact .bind hValue fun e _ => continueWith_outlines _ _ _ _ _ _
  · rename_i hEnds
    cases token with
    | none => exact absurd rfl hEnds
    | some t =>
      cases t with
      | operator | question | semicolon | closeParen | closeBracket | comma | colon =>
        exact absurd rfl hEnds
      | _ => exact .pure outlines_stuck

theorem end_outlines (hOperand : c.focus = .operand) :
    Yields acts (fun r : Progress E S => r.Outlines (c.outline.step none))
      (if c.atStart && !c.statements.isEmpty then
        (do return .accepted (← acts.sequence c.statements))
      else pure .stuck) := by
  have hStart : c.atStart = c.fresh := by
    obtain ⟨stmts, head, fs, focus⟩ := c
    cases hOperand
    cases head <;> cases fs <;> rfl
  have hStep : c.outline.step none =
      if c.fresh && !c.statements.isEmpty then .accepted else .stuck := by
    cases hFresh : c.fresh <;> simp [outline, hOperand, hFresh, Acceptor.step]
  rw [hStart, hStep]
  split
  · exact .bind (.of_action fun h => h.sequence _) fun e _ => .pure ⟨rfl, by simp⟩
  · exact .pure outlines_stuck

/-- **A step of the machine is a step of the acceptor.** -/
theorem step_outlines (hRegular : c.Regular) (token : Option Lexeme) (pos : Nat) :
    Yields acts (fun r => r.Outlines (c.outline.step (token.map kind)))
      (c.step acts token pos) := by
  obtain ⟨stmts, head, fs, focus⟩ := c
  cases focus with
  | operand =>
    cases token with
    | some t =>
      refine .pure ?_
      rw [Option.map_some, step_operand _ rfl]
      exact beginOperand_outlines rfl t pos
    | none => exact end_outlines rfl
  | opened =>
    obtain ⟨name, p, args, rest, hFrames⟩ := hRegular rfl
    cases hFrames
    cases token with
    | none => exact .pure outlines_stuck
    | some t =>
      have hBegin := beginOperand_outlines
        (c := (⟨stmts, head, .call name p args :: rest, .operand⟩ : Config E S)) rfl t
        pos
      rw [fresh_of_frame] at hBegin
      cases t with
      | closeParen => exact .pure ⟨rfl, by rintro _ ⟨⟩ ⟨⟩⟩
      | _ => exact .pure hBegin
  | name text p =>
    have hProceed := proceed_outlines (⟨stmts, head, fs, .name text p⟩ : Config E S) token pos
      (.of_action fun h : acts.Reliable => h.name text p)
    cases token with
    | none => cases head <;> cases fs <;> exact hProceed
    | some t =>
      cases t with
      | openParen => exact .pure ⟨rfl, by rintro _ ⟨⟩ _; exact ⟨text, p, [], fs, rfl⟩⟩
      | operator | question | semicolon => cases head <;> cases fs <;> exact hProceed
      | _ =>
        -- a name at the start of a statement is not resolved if the token cannot follow it
        cases head <;> cases fs <;> first
          | exact hProceed
          | exact .pure outlines_stuck
          | exact .pure ⟨rfl, by rintro _ ⟨⟩ ⟨⟩⟩
  | number x => exact proceed_outlines _ token pos (.of_action fun h => h.number x)
  | group inner => exact proceed_outlines _ token pos (.pure trivial)
  | vector p es =>
    exact proceed_outlines _ token pos (.of_action fun h => h.vector p es)
  | call name p args =>
    exact proceed_outlines _ token pos (.of_action fun h => h.call name p args)

end Config

/-! ## Runs -/

/-- The kinds of tokens. -/
def Token.kinds (tokens : List Token) : List Kind := tokens.map fun t => t.lexeme.kind

/-- A verdict without the program and the token. -/
def Verdict.ending : Verdict E → Ending
  | .accepted _ => .accepted
  | .blamed index _ => .blamed index
  | .unfinished => .unfinished

theorem Config.start_regular : (start : Config E S).Regular := nofun

/-- **A run of the machine ends as a run of the acceptor**, unless an action fails. -/
theorem Config.drive_judged (acts : Actions (Act σ) E S) (stop : Nat) (tokens : List Token) :
    ∀ (read : List Token) {c : Config E S}, c.Regular →
    Yields acts (fun verdict => verdict.ending = judge read.length c.outline (kinds tokens) ∧
        ∀ k t, verdict = .blamed k t → (read ++ tokens)[k]? = some t)
      (c.drive acts stop read.length tokens) := by
  induction tokens with
  | nil =>
    intro read c hRegular
    refine .bind (step_outlines hRegular none stop) fun progress hProgress => ?_
    have hJudge : judge read.length c.outline [] =
        if progress.outline = .accepted then .accepted else .unfinished := by
      rw [hProgress.1]
      rfl
    rw [kinds, List.map_nil, hJudge]
    cases progress with
    | accepted | stuck | next => exact .pure ⟨rfl, nofun⟩
  | cons t rest ih =>
    intro read c hRegular
    refine .bind (step_outlines hRegular (some t.lexeme) t.start) fun progress hProgress => ?_
    obtain ⟨hOutline, hNext⟩ := hProgress
    have hStep : c.outline.step (some t.lexeme.kind) = progress.outline := hOutline.symm
    rw [kinds, List.map_cons, judge, hStep]
    have hBlamed : ∀ k u, Verdict.blamed (E := E) read.length t = .blamed k u →
        (read ++ t :: rest)[k]? = some u := by
      rintro _ _ ⟨⟩
      rw [List.getElem?_append_right (Nat.le_refl _), Nat.sub_self]
      rfl
    cases progress with
    | accepted | stuck => exact .pure ⟨rfl, hBlamed⟩
    | next c' =>
      have hRun := ih (read ++ [t]) (hNext c' rfl)
      rwa [List.append_assoc, List.length_append] at hRun

end

/-- Constructs that become nothing. -/
def Actions.idle : Actions (Act Unit) Unit Unit where
  number _ := pure ()
  name _ _ := pure ()
  call _ _ _ := pure ()
  negate _ _ := pure ()
  not _ _ := pure ()
  operator _ _ _ _ := pure ()
  ternary _ _ _ _ _ := pure ()
  vector _ _ := pure ()
  discard _ := pure ()
  assign _ _ _ := pure ()
  ret _ _ := pure ()
  sequence _ := pure ()

theorem Actions.idle_reliable : Actions.idle.Reliable := by
  constructor <;> intros <;> exact fun s => ⟨(), s, rfl⟩

end MolangCompiler

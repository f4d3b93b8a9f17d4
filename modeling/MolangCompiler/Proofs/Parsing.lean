import Mathlib.Algebra.Order.Group.Multiset
import MolangCompiler.Proofs.Outcome
import MolangCompiler.Resolve

/-!
# Readings as a whole

The machine that reads a source moves expressions, statements and names about but never looks into
them.  So what is true of a reading as a whole follows from what is true of each action.

A name ends up with one of three actions: it is called once its arguments are read, assigned once
its statement ends, or resolved at once.  In between it waits in the machine: in focus, in the frame
of a call, or in the head of a statement.  The machine never drops a name and never takes one twice.

A `View` says what is to be shown of a reading, or of two readings side by side: what holds of
expressions and of whole sources, and what holds while some names wait and some statements are
finished.  It is shown of a reading by showing it of the actions (`Actions.Viewed`).
-/

namespace MolangCompiler

open Config

/-! ## Names and what they are used for -/

/-- What a name in a source is used for. -/
inductive Usage where
  | alone
  | called
  | assigned
  deriving DecidableEq

def Usage.before : Option Lexeme → Usage
  | some .openParen => .called
  | some .assign => .assigned
  | _ => .alone

/-- A name in a source. -/
structure Site where
  text : String
  position : Nat
  usage : Usage
  deriving DecidableEq

/-- The name in a token, given the token behind it; none in the end of the source. -/
def Lexeme.sites (position : Nat) (next : Option Lexeme) : Option Lexeme → Multiset Site
  | some (.name text) => {⟨text, position, .before next⟩}
  | _ => 0

def Token.first? (tokens : List Token) : Option Lexeme := tokens.head?.map lexeme

/-- The names among tokens. -/
def nameSites : List Token → Multiset Site
  | [] => 0
  | t :: rest => Lexeme.sites t.start (Token.first? rest) t.lexeme + nameSites rest

theorem exists_token_of_mem_nameSites {tokens : List Token} {site : Site}
    (h : site ∈ nameSites tokens) :
    ∃ t ∈ tokens, t.lexeme = .name site.text ∧ t.start = site.position := by
  induction tokens with
  | nil => exact absurd h (Multiset.notMem_zero site)
  | cons t rest ih =>
    rcases Multiset.mem_add.mp h with hFirst | hRest
    · unfold Lexeme.sites at hFirst
      split at hFirst
      · rename_i text hText
        obtain rfl := Multiset.mem_singleton.mp hFirst
        exact ⟨t, List.mem_cons_self, Option.some.inj hText, rfl⟩
      · exact absurd hFirst (Multiset.notMem_zero site)
    · obtain ⟨u, hu, hText, hStart⟩ := ih hRest
      exact ⟨u, List.mem_cons_of_mem t hu, hText, hStart⟩

def Head.sites : Head → Multiset Site
  | .assign name position => {⟨name, position, .assigned⟩}
  | _ => 0

variable {head : Head} {token : Option Lexeme} {pos : Nat}

section

variable {σ τ ω E S : Type}

def Frame.sites : Frame E → Multiset Site
  | .call name position _ => {⟨name, position, .called⟩}
  | _ => 0

def Frame.sitesOf : List (Frame E) → Multiset Site
  | [] => 0
  | frame :: rest => frame.sites + sitesOf rest

/-- The name in focus.  What it is used for is decided by the next token. -/
def Focus.sites (next : Option Lexeme) : Focus E → Multiset Site
  | .name text position => {⟨text, position, .before next⟩}
  | .call text position _ => {⟨text, position, .called⟩}
  | _ => 0

def Config.sites (next : Option Lexeme) (c : Config E S) : Multiset Site :=
  c.head.sites + Frame.sitesOf c.frames + c.focus.sites next

/-! ## Expressions in the machine -/

/-- The expressions in a frame, in the order in which they were read. -/
def Frame.parts : Frame E → List E
  | .negate _ | .not _ | .group => []
  | .operator left _ _ => [left]
  | .question condition _ => [condition]
  | .colon condition yes _ _ => [condition, yes]
  | .vector _ elements => elements
  | .call _ _ args => args

/-- The expressions in frames.  The first one is the innermost, and was read last. -/
def Frame.partsOf : List (Frame E) → List E
  | [] => []
  | frame :: rest => partsOf rest ++ frame.parts

def Focus.parts : Focus E → List E
  | .operand | .opened | .number _ | .name _ _ => []
  | .group inner => [inner]
  | .vector _ elements => elements
  | .call _ _ args => args

/-- The expressions in the machine, in the order in which they were read. -/
def Config.parts (c : Config E S) : List E := Frame.partsOf c.frames ++ c.focus.parts

/-! ## Tokens in the machine -/

/-- A property of the tokens that a frame keeps, and of their places. -/
def Frame.Stands (q : Lexeme → Nat → Prop) : Frame E → Prop
  | .negate p => q (.operator (.binary .sub)) p
  | .not p => q .not p
  | .group => True
  | .operator _ op p => q (.operator op) p
  | .question _ p => q .question p
  | .colon _ _ p p' => q .question p ∧ q .colon p'
  | .vector p _ => q .openBracket p
  | .call text p _ => q (.name text) p

def Head.Stands (q : Lexeme → Nat → Prop) : Head → Prop
  | .plain => True
  | .assign text p => q (.name text) p
  | .ret p => q .ret p

def Focus.Stands (q : Lexeme → Nat → Prop) : Focus E → Prop
  | .name text p | .call text p _ => q (.name text) p
  | .vector p elements => q .openBracket p ∧ elements ≠ []
  | _ => True

/-- A property of every expression in the machine, and one of the tokens in it. -/
structure Config.Holds (p : E → Prop) (q : Lexeme → Nat → Prop) (c : Config E S) : Prop where
  parts : ∀ e ∈ c.parts, p e
  head : c.head.Stands q
  frames : ∀ frame ∈ c.frames, frame.Stands q
  focus : c.focus.Stands q

theorem forall_mem_snoc {α : Type} {p : α → Prop} {xs : List α} {x : α} (hxs : ∀ y ∈ xs, p y)
    (hx : p x) : ∀ y ∈ xs ++ [x], p y := by
  intro y hy
  rcases List.mem_append.mp hy with hOld | hNew
  · exact hxs y hOld
  · rw [List.mem_singleton.mp hNew]
    exact hx

/-! ## Views -/

/-- A way to look at two readings side by side, or at one.  `rel p x y w` relates operations started
where `w` says, and says that `p` holds of their result and of where they end.  There, expressions
are as `fits` says, and go on to be so `later`; tokens are where `stands` says; `pending` holds
while some names wait, some expressions are in the machine and some statements are finished; whole
sources are as `whole` says, and a reading may fail where `fails` says. -/
structure View (σ τ ω E S : Type) where
  rel {α : Type} : (α → ω → Prop) → Act σ α → Act τ α → ω → Prop
  pure {α : Type} {p : α → ω → Prop} {a : α} {w : ω} : p a w → rel p (Pure.pure a) (Pure.pure a) w
  bind {α β : Type} {p : α → ω → Prop} {q : β → ω → Prop} {x : Act σ α} {y : Act τ α}
    {f : α → Act σ β} {g : α → Act τ β} {w : ω} : rel p x y w →
    (∀ a w', p a w' → rel q (f a) (g a) w') → rel q (x >>= f) (y >>= g) w
  later : ω → ω → Prop
  refl (w : ω) : later w w
  fits : ω → E → Prop
  mono {w w' : ω} {e : E} : later w w' → fits w e → fits w' e
  stands : Lexeme → Nat → Prop := fun _ _ => True
  pending : Multiset Site → List E → List S → ω → Prop
  whole : Multiset Site → ω → E → Prop
  whole_of_fits {M : Multiset Site} {w : ω} {e : E} : fits w e → pending M [e] [] w → whole M w e
  fails : ω → Prop
  fails_of_pending {M : Multiset Site} {K : List E} {l : List S} {w : ω} : pending M K l w → fails w
  fails_of_whole {M : Multiset Site} {w : ω} {e : E} : whole M w e → fails w

namespace View

variable (v : View σ τ ω E S)

/-- An expression is made, while names wait, others are in the machine and statements are finished.
-/
def Makes (M : Multiset Site) (K : List E) (l : List S) (w : ω) (x : Act σ E)
    (y : Act τ E) : Prop :=
  v.rel (fun e w' => v.later w w' ∧ v.fits w' e ∧ v.pending M (K ++ [e]) l w') x y w

def Finishes (M : Multiset Site) (l : List S) (w : ω) (x : Act σ S) (y : Act τ S) : Prop :=
  v.rel (fun t w' => v.pending M [] (l ++ [t]) w') x y w

def Completes (M : Multiset Site) (w : ω) (x : Act σ E) (y : Act τ E) : Prop :=
  v.rel (fun e w' => v.whole M w' e) x y w

/-- What is true after a token was read, with the token behind it. -/
def After (next : Option Lexeme) (M : Multiset Site) (w : ω) : Progress E S → Prop
  | .stuck => v.fails w
  | .next c => c.Holds (v.fits w) v.stands ∧ v.pending (c.sites next + M) c.parts c.statements w
  | .accepted e => v.whole M w e

def Moves (next : Option Lexeme) (M : Multiset Site) (w : ω) (x : Act σ (Progress E S))
    (y : Act τ (Progress E S)) : Prop :=
  v.rel (fun progress w' => v.After next M w' progress) x y w

end View

/-- What is to be shown of actions, or of two kinds of them side by side. -/
structure Actions.Viewed (v : View σ τ ω E S) (acts : Actions (Act σ) E S)
    (acts' : Actions (Act τ) E S) : Prop where
  number (x : Float) {M K l w} : v.pending M K l w →
    v.Makes M K l w (acts.number x) (acts'.number x)
  name {text p M K l w} :
    v.stands (.name text) p → v.pending (⟨text, p, .alone⟩ ::ₘ M) K l w →
    v.Makes M K l w (acts.name text p) (acts'.name text p)
  call {text p args M K l w} :
    v.stands (.name text) p → (∀ e ∈ args, v.fits w e) →
    v.pending (⟨text, p, .called⟩ ::ₘ M) (K ++ args) l w →
    v.Makes M K l w (acts.call text p args) (acts'.call text p args)
  negate {p e M K l w} :
    v.stands (.operator (.binary .sub)) p → v.fits w e → v.pending M (K ++ [e]) l w →
    v.Makes M K l w (acts.negate p e) (acts'.negate p e)
  not {p e M K l w} : v.stands .not p →
    v.fits w e → v.pending M (K ++ [e]) l w → v.Makes M K l w (acts.not p e) (acts'.not p e)
  operator {op p left right M K l w} : v.stands (.operator op) p → v.fits w left → v.fits w right →
    v.pending M (K ++ [left, right]) l w →
    v.Makes M K l w (acts.operator op p left right) (acts'.operator op p left right)
  ternary {p q condition yes no M K l w} :
    v.stands .question p → v.stands .colon q → v.fits w condition → v.fits w yes → v.fits w no →
    v.pending M (K ++ [condition, yes, no]) l w →
    v.Makes M K l w (acts.ternary p q condition yes no) (acts'.ternary p q condition yes no)
  vector {p elements M K l w} :
    v.stands .openBracket p → elements ≠ [] → (∀ e ∈ elements, v.fits w e) →
    v.pending M (K ++ elements) l w →
    v.Makes M K l w (acts.vector p elements) (acts'.vector p elements)
  discard {e M l w} : v.fits w e → v.pending M [e] l w →
    v.Finishes M l w (acts.discard e) (acts'.discard e)
  assign {text p e M l w} :
    v.stands (.name text) p → v.fits w e → v.pending (⟨text, p, .assigned⟩ ::ₘ M) [e] l w →
    v.Finishes M l w (acts.assign text p e) (acts'.assign text p e)
  ret {p e M l w} : v.stands .ret p → v.fits w e →
    v.pending M [e] l w → v.Finishes M l w (acts.ret p e) (acts'.ret p e)
  sequence {M l w} : v.pending M [] l w → v.Completes M w (acts.sequence l) (acts'.sequence l)

namespace Config

variable {v : View σ τ ω E S} {acts : Actions (Act σ) E S} {acts' : Actions (Act τ) E S}
  {M : Multiset Site} {l : List S} {w : ω}

/-! ## Steps -/

variable {c : Config E S}

theorem next_viewed {next : Option Lexeme} {M' : Multiset Site} {K : List E}
    (hS : v.pending M' K c.statements w) (hFits : ∀ e ∈ K, v.fits w e)
    (hHead : c.head.Stands v.stands) (hFrames : ∀ f ∈ c.frames, f.Stands v.stands)
    (hFocus : c.focus.Stands v.stands) (hSites : c.sites next + M = M') (hParts : c.parts = K) :
    v.After next M w (.next c) := by
  subst hSites hParts
  exact ⟨⟨hFits, hHead, hFrames, hFocus⟩, hS⟩

theorem endStatement_viewed (h : acts.Viewed v acts') (hHead : head.Stands v.stands) {e : E}
    (hE : v.fits w e) (hS : v.pending (head.sites + M) [e] l w) :
    v.Finishes M l w (endStatement acts head e) (endStatement acts' head e) := by
  cases head with
  | plain =>
    rw [show Head.plain.sites = 0 from rfl, zero_add] at hS
    exact h.discard hE hS
  | assign name p => exact h.assign hHead hE hS
  | ret p =>
    rw [show (Head.ret p).sites = 0 from rfl, zero_add] at hS
    exact h.ret hHead hE hS

theorem endProgram_viewed (h : acts.Viewed v acts') (hHead : head.Stands v.stands) {e : E}
    (hE : v.fits w e) (hS : v.pending (head.sites + M) [e] l w) :
    v.Completes M w (endProgram acts l head e) (endProgram acts' l head e) := by
  have hLast : v.Completes M w (do let t ← endStatement acts head e; acts.sequence (l ++ [t]))
      (do let t ← endStatement acts' head e; acts'.sequence (l ++ [t])) :=
    v.bind (endStatement_viewed h hHead hE hS) fun t w' hS' => h.sequence hS'
  cases l with
  | cons => exact hLast
  | nil =>
    cases head with
    | plain =>
      rw [show Head.plain.sites = 0 from rfl, zero_add] at hS
      exact v.pure (v.whole_of_fits hE hS)
    | assign | ret => exact hLast

/-- A finished expression is handed to the frames that the next token ends, innermost first.  What
is left holds no other expressions than before and those the actions made, and the calls among the
frames keep their names. -/
theorem continueWith_viewed (h : acts.Viewed v acts') (hHead : head.Stands v.stands)
    (hToken : ∀ t ∈ token, v.stands t pos) (next : Option Lexeme) {fs : List (Frame E)}
    (hFrames : ∀ f ∈ fs, f.Stands v.stands) :
    ∀ {e : E} {w : ω}, (∀ x ∈ Frame.partsOf fs ++ [e], v.fits w x) →
    v.pending (head.sites + Frame.sitesOf fs + M) (Frame.partsOf fs ++ [e]) l w →
    v.Moves next M w (continueWith acts l head token pos fs e)
      (continueWith acts' l head token pos fs e) := by
  induction fs with
  | nil =>
    intro e w hFits hS
    rw [Frame.sitesOf, add_zero] at hS
    have hE : v.fits w e := hFits e (List.mem_singleton.mpr rfl)
    have hWait (frame : Frame E) (hStands : frame.Stands v.stands) (hParts : frame.parts = [e])
        (hSites : frame.sites = 0) :
        v.Moves next M w (continueWith.wait (m := Act σ) l head frame [])
          (continueWith.wait (m := Act τ) l head frame []) := by
      refine v.pure (next_viewed hS hFits hHead (by simpa using hStands) trivial ?_ ?_)
      · simp [sites, Frame.sitesOf, hSites, Focus.sites]
      · simp [parts, Frame.partsOf, hParts, Focus.parts]
    unfold continueWith
    split
    · exact hWait _ (hToken _ rfl) rfl rfl
    · exact hWait _ (hToken _ rfl) rfl rfl
    · refine v.bind (endStatement_viewed h hHead hE hS) fun t w' hS' => v.pure ?_
      refine next_viewed hS' nofun trivial nofun trivial ?_ rfl
      simp [sites, Head.sites, Frame.sitesOf, Focus.sites]
    · exact v.bind (endProgram_viewed h hHead hE hS) fun e' w' hEnd => v.pure hEnd
    · exact v.pure (v.fails_of_pending hS)
  | cons frame rest ih =>
    intro e w hFits hS
    rw [Frame.partsOf, List.append_assoc] at hFits hS
    obtain ⟨hStands, hRest⟩ := List.forall_mem_cons.mp hFrames
    have hE : v.fits w e := hFits e (by simp)
    have hFrame : ∀ x ∈ frame.parts, v.fits w x := fun x hx => hFits x (by simp [hx])
    -- a frame that is put together goes on inside the frames behind it
    have hPut {act : Act σ E} {act' : Act τ E} (hSites : frame.sites = 0)
        (hAct : v.pending (head.sites + Frame.sitesOf rest + M)
            (Frame.partsOf rest ++ (frame.parts ++ [e])) l w →
          v.Makes (head.sites + Frame.sitesOf rest + M) (Frame.partsOf rest) l w act act') :
        v.Moves next M w (do continueWith acts l head token pos rest (← act))
          (do continueWith acts' l head token pos rest (← act')) := by
      rw [Frame.sitesOf, hSites, zero_add] at hS
      refine v.bind (hAct hS) fun e' w' hEnd => ih hRest (forall_mem_snoc ?_ hEnd.2.1) hEnd.2.2
      exact fun x hx => v.mono hEnd.1 (hFits x (List.mem_append_left _ hx))
    -- what is opened behind an expression, inside the frame or in its place, keeps the same names
    have hWait (waiting : Frame E) (behind : List (Frame E))
        (hAll : ∀ f ∈ waiting :: behind, f.Stands v.stands)
        (hParts : Frame.partsOf (waiting :: behind) = Frame.partsOf rest ++ (frame.parts ++ [e]))
        (hSites : Frame.sitesOf (waiting :: behind) = Frame.sitesOf (frame :: rest)) :
        v.Moves next M w (continueWith.wait (m := Act σ) l head waiting behind)
          (continueWith.wait (m := Act τ) l head waiting behind) := by
      refine v.pure (next_viewed hS hFits hHead hAll trivial ?_ ?_)
      · simp only [sites, Focus.sites, add_zero, hSites]
      · rw [parts, hParts, Focus.parts, List.append_nil]
    have hOpen (waiting : Frame E) (hNew : waiting.Stands v.stands) (hParts : waiting.parts = [e])
        (hSites : waiting.sites = 0) :
        v.Moves next M w (continueWith.wait (m := Act σ) l head waiting (frame :: rest))
          (continueWith.wait (m := Act τ) l head waiting (frame :: rest)) := by
      refine hWait waiting _ (List.forall_mem_cons.mpr ⟨hNew, hFrames⟩) ?_ ?_
      · rw [Frame.partsOf, Frame.partsOf, hParts, List.append_assoc]
      · rw [Frame.sitesOf, hSites, zero_add]
    have hFinish (focus : Focus E) (hFocus : focus.Stands v.stands)
        (hParts : focus.parts = frame.parts ++ [e]) (hSites : focus.sites next = frame.sites) :
        v.Moves next M w (continueWith.finish (m := Act σ) l head focus rest)
          (continueWith.finish (m := Act τ) l head focus rest) := by
      refine v.pure (next_viewed hS hFits hHead hRest hFocus ?_ ?_)
      · rw [sites, hSites, Frame.sitesOf, add_assoc head.sites, add_comm (Frame.sitesOf rest)]
      · rw [parts, hParts]
    unfold continueWith
    split
    · exact hPut rfl (h.negate hStands hE)
    · exact hPut rfl (h.not hStands hE)
    · split
      · exact hOpen _ (hToken _ rfl) rfl rfl
      · exact hPut rfl (h.operator hStands (hFrame _ (by simp [Frame.parts])) hE)
    · exact hPut rfl (h.operator hStands (hFrame _ (by simp [Frame.parts])) hE)
    · exact hOpen _ (hToken _ rfl) rfl rfl
    · exact hOpen _ (hToken _ rfl) rfl rfl
    · exact hPut rfl (h.ternary hStands.1 hStands.2 (hFrame _ (by simp [Frame.parts]))
        (hFrame _ (by simp [Frame.parts])) hE)
    · exact hWait _ _ (List.forall_mem_cons.mpr ⟨⟨hStands, hToken _ rfl⟩, hRest⟩) rfl rfl
    · exact hFinish _ trivial rfl rfl
    · exact hWait _ _ (List.forall_mem_cons.mpr ⟨hStands, hRest⟩) rfl rfl
    · exact hFinish _ ⟨hStands, List.append_ne_nil_of_right_ne_nil _ (List.cons_ne_nil _ _)⟩ rfl rfl
    · exact hWait _ _ (List.forall_mem_cons.mpr ⟨hStands, hRest⟩) rfl rfl
    · exact hFinish _ hStands rfl rfl
    · exact v.pure (v.fails_of_pending hS)

theorem eq_of_atStart (h : c.atStart = true) :
    c.head = .plain ∧ c.frames = [] ∧ c.focus = .operand := by
  unfold atStart at h
  split at h
  next hHead hFrames hFocus => exact ⟨hHead, hFrames, hFocus⟩
  next => cases h

/-- Starting an operand makes nothing.  A name that starts one is in focus until the next token says
what it is used for. -/
theorem beginOperand_viewed {stmts : List S} {fs : List (Frame E)}
    (hFits : ∀ e ∈ Frame.partsOf fs, v.fits w e) (hHead : head.Stands v.stands)
    (hFrames : ∀ f ∈ fs, f.Stands v.stands) {token : Lexeme} (hToken : v.stands token pos)
    (next : Option Lexeme)
    (hS : v.pending (head.sites + Frame.sitesOf fs + (Lexeme.sites pos next (some token) + M))
      (Frame.partsOf fs) stmts w) :
    v.After next M w (beginOperand ⟨stmts, head, fs, .operand⟩ token pos) := by
  have hPush (frame : Frame E) (hStands : frame.Stands v.stands) (hParts : frame.parts = [])
      (hSites : frame.sites = 0) (hNone : Lexeme.sites pos next (some token) = 0) :
      v.After next M w (.next (push frame ⟨stmts, head, fs, .operand⟩)) := by
    refine next_viewed hS hFits hHead (List.forall_mem_cons.mpr ⟨hStands, hFrames⟩) trivial ?_ ?_
    · simp [sites, push, Frame.sitesOf, hSites, Focus.sites, hNone]
    · simp [parts, push, Frame.partsOf, hParts, Focus.parts]
  unfold beginOperand
  split
  · refine next_viewed hS hFits hHead hFrames trivial ?_ (List.append_nil _)
    simp [sites, Focus.sites, Lexeme.sites]
  · refine next_viewed hS hFits hHead hFrames hToken ?_ (List.append_nil _)
    simp only [sites, Focus.sites, Lexeme.sites, add_assoc]
  · exact hPush _ hToken rfl rfl rfl
  · exact hPush _ hToken rfl rfl rfl
  · exact hPush _ trivial rfl rfl rfl
  · exact hPush _ hToken rfl rfl rfl
  · split
    · rename_i hStart
      obtain ⟨rfl, -, -⟩ : head = .plain ∧ _ := eq_of_atStart hStart
      refine next_viewed hS hFits hToken hFrames trivial ?_ (List.append_nil _)
      simp [sites, Head.sites, Focus.sites, Lexeme.sites]
    · exact v.fails_of_pending hS
  · exact v.fails_of_pending hS

theorem sites_of_endsOperand (h : Lexeme.endsOperand token = true) (pos : Nat)
    (next : Option Lexeme) : Lexeme.sites pos next token = 0 := by
  unfold Lexeme.sites
  split
  · cases h
  · rfl

theorem before_of_endsOperand (h : Lexeme.endsOperand token = true) :
    Usage.before token = .alone := by
  unfold Usage.before
  split
  · cases h
  · cases h
  · rfl

/-- **Reading a token** hands names and expressions on, or gives them to an action. -/
theorem step_viewed (h : acts.Viewed v acts') (hConfig : c.Holds (v.fits w) v.stands)
    (hToken : ∀ t ∈ token, v.stands t pos) (next : Option Lexeme)
    (hS : v.pending (c.sites token + (Lexeme.sites pos next token + M)) c.parts c.statements w) :
    v.Moves next M w (c.step acts token pos) (c.step acts' token pos) := by
  obtain ⟨stmts, head, fs, focus⟩ := c
  obtain ⟨hFits, hHead, hFrames, hStands⟩ := hConfig
  have hParts : ∀ e ∈ Frame.partsOf fs, v.fits w e :=
    fun e he => hFits e (List.mem_append_left _ he)
  have hFocus : ∀ e ∈ focus.parts, v.fits w e := fun e he => hFits e (List.mem_append_right _ he)
  have hStuck : v.Moves next M w (pure .stuck) (pure .stuck) := v.pure (v.fails_of_pending hS)
  have hIf {b : Bool} {x y : Act σ (Progress E S)} {x' y' : Act τ (Progress E S)}
      (hx : v.Moves next M w x x') (hy : v.Moves next M w y y') :
      v.Moves next M w (if b then x else y) (if b then x' else y') := by
    cases b
    · exact hy
    · exact hx
  -- finishing an operand and going on behind it: what is in focus goes to the action
  have hProceed {value : Act σ E} {value' : Act τ E}
      (hValue : Lexeme.endsOperand token = true →
        ∀ {M' K}, v.pending (focus.sites token + M') (K ++ focus.parts) stmts w →
        v.Makes M' K stmts w value value') :
      v.Moves next M w
        (if Lexeme.endsOperand token then
          (do continueWith acts stmts head token pos fs (← value)) else pure .stuck)
        (if Lexeme.endsOperand token then
          (do continueWith acts' stmts head token pos fs (← value'))
          else pure .stuck) := by
    split
    · rename_i hEnds
      have hSame : head.sites + Frame.sitesOf fs + focus.sites token +
          (Lexeme.sites pos next token + M) =
            focus.sites token + (head.sites + Frame.sitesOf fs + M) := by
        rw [sites_of_endsOperand hEnds, zero_add, add_comm (head.sites + Frame.sitesOf fs),
          add_assoc]
      refine v.bind (hValue hEnds (hSame ▸ hS)) fun e w' hEnd =>
        continueWith_viewed h hHead hToken next hFrames (forall_mem_snoc (fun x hx => ?_) hEnd.2.1)
          hEnd.2.2
      exact v.mono hEnd.1 (hParts x hx)
    · exact hStuck
  cases focus with
  | operand =>
    cases token with
    | some t =>
      refine v.pure (beginOperand_viewed hParts hHead hFrames (hToken t rfl) next ?_)
      simpa [sites, parts, Focus.sites, Focus.parts] using hS
    | none =>
      unfold step
      dsimp only
      split
      · rename_i hStart
        obtain ⟨rfl, rfl, -⟩ : head = .plain ∧ fs = [] ∧ _ :=
          eq_of_atStart (Bool.and_eq_true_iff.mp hStart).1
        refine v.bind (h.sequence ?_) fun e w' hEnd => v.pure hEnd
        simpa [sites, parts, Head.sites, Frame.sitesOf, Frame.partsOf, Focus.sites,
          Focus.parts, Lexeme.sites] using hS
      · exact hStuck
  | opened =>
    unfold step
    dsimp only
    split
    · rename_i name p args rest
      obtain ⟨hCall, hRest⟩ := List.forall_mem_cons.mp hFrames
      refine v.pure (next_viewed hS hFits hHead hRest hCall ?_ ?_)
      · simp only [sites, Frame.sitesOf, Frame.sites, Focus.sites, Lexeme.sites, zero_add, add_zero]
        rw [add_assoc head.sites, add_comm (Frame.sitesOf rest)]
      · simp [parts, Frame.partsOf, Frame.parts, Focus.parts]
    · refine v.pure (beginOperand_viewed hParts hHead hFrames (hToken _ rfl) next ?_)
      simpa [sites, parts, Focus.sites, Focus.parts] using hS
    · exact hStuck
  | name text p =>
    unfold step
    dsimp only
    split
    · refine v.pure
        (next_viewed hS hFits hHead (List.forall_mem_cons.mpr ⟨hStands, hFrames⟩) trivial ?_ ?_)
      · simp only [sites, Frame.sitesOf, Frame.sites, Focus.sites, Usage.before,
          Lexeme.sites, zero_add, add_zero]
        rw [add_comm {_}, ← add_assoc head.sites]
      · simp [parts, Frame.partsOf, Frame.parts, Focus.parts]
    · cases head with
      | plain =>
        cases fs with
        | nil =>
          refine v.pure (next_viewed hS hFits hStands hFrames trivial ?_ rfl)
          simp [sites, Head.sites, Frame.sitesOf, Focus.sites, Usage.before, Lexeme.sites]
        | cons => exact hStuck
      | assign | ret => exact hStuck
    · refine hIf hStuck (hProceed fun hEnds _ K hS' => h.name hStands ?_)
      rw [Focus.parts, List.append_nil, Focus.sites, before_of_endsOperand hEnds] at hS'
      exact hS'
  | number x =>
    refine hProceed fun _ _ K hS' => h.number x ?_
    simpa [Focus.sites, Focus.parts] using hS'
  | group inner =>
    refine hProceed
      fun _ _ K hS' => v.pure ⟨v.refl w, hFocus inner (List.mem_singleton.mpr rfl), ?_⟩
    simpa [Focus.sites, Focus.parts] using hS'
  | vector p elements =>
    refine hProceed fun _ _ K hS' => h.vector hStands.1 hStands.2 hFocus ?_
    simpa [Focus.sites, Focus.parts] using hS'
  | call text p args => exact hProceed fun _ _ K hS' => h.call hStands hFocus hS'

end Config

end

/-! ## Sources -/

/-- A problem of the order in which tokens stand, whatever they stand for, and its place. -/
inductive Setting.Blamed (st : Setting) : SourceProblem → Nat → Nat → Prop
  | empty (h : st.source.toList.all isBlank = true) : Blamed st .emptySource 0 0
  | illegal {c : Char} {p : Nat} (h : (scan 1 st.source).stop = .illegal c p) :
    Blamed st (.illegalCharacter c) p (p + 1)
  | token {t : Token} (h : t ∈ (scan 1 st.source).tokens) :
    Blamed st (.unexpected t.lexeme.text) t.start (t.start + t.lexeme.extent)
  | ended : Blamed st .unexpectedEnd st.source.length st.source.length

namespace Setting

variable {σ τ ω E S : Type}

def failure (st : Setting) (problem : SourceProblem) (start stop : Nat) : Failure :=
  .source ⟨problem, st.source, start, stop⟩

def readTokensWith (st : Setting) (acts : Actions (Act σ) E S) :
    Config E S → List Token → Act σ (Config E S)
  | c, [] => return c
  | c, t :: rest => do
    match ← c.step acts (some t.lexeme) t.start with
    | .next c' => readTokensWith st acts c' rest
    | _ => throw (st.failure (.unexpected t.lexeme.text) t.start (t.start + t.lexeme.extent))

def readWith (st : Setting) (acts : Actions (Act σ) E S) : Act σ E :=
  if st.source.toList.all isBlank then throw (st.failure .emptySource 0 0) else do
  let c ← st.readTokensWith acts Config.start (scan 1 st.source).tokens
  match (scan 1 st.source).stop with
  | .illegal ch position => throw (st.failure (.illegalCharacter ch) position (position + 1))
  | .finished =>
    match ← c.step acts none st.source.length with
    | .accepted e => return e
    | _ => throw (st.failure .unexpectedEnd st.source.length st.source.length)

theorem readTokens_eq_with (dict : Dictionary) (tokens : List Token) (c : Config Expr Stmt) :
    dict.readTokens c tokens = dict.setting.readTokensWith dict.actions c tokens := by
  induction tokens generalizing c with
  | nil => rfl
  | cons t rest ih =>
    refine bind_congr fun progress => ?_
    cases progress with
    | next c' => exact ih c'
    | stuck | accepted => rfl

theorem readSource_eq_with (dict : Dictionary) :
    dict.readSource = dict.setting.readWith dict.actions := by
  unfold Dictionary.readSource readWith
  dsimp only
  split
  · rfl
  · rw [readTokens_eq_with]
    refine bind_congr fun c => ?_
    cases (scan 1 dict.setting.source).stop with
    | illegal => rfl
    | finished =>
      refine bind_congr fun progress => ?_
      cases progress <;> rfl

variable {v : View σ τ ω E S} {acts : Actions (Act σ) E S} {acts' : Actions (Act τ) E S}
  {st : Setting}

/-- What is to be shown of problems in the order of tokens. -/
def Blames (st : Setting) (v : View σ τ ω E S) : Prop :=
  ∀ {α : Type} {p : α → ω → Prop} {problem : SourceProblem} {start stop : Nat} {w : ω},
    st.Blamed problem start stop → v.fails w →
    v.rel p (throw (st.failure problem start stop)) (throw (st.failure problem start stop)) w

theorem readTokensWith_viewed (h : acts.Viewed v acts') (hFail : st.Blames v) {tokens : List Token}
    (hTokens : ∀ t ∈ tokens, t ∈ (scan 1 st.source).tokens ∧ v.stands t.lexeme t.start) :
    ∀ {c : Config E S} {w : ω}, c.Holds (v.fits w) v.stands →
    v.pending (c.sites (Token.first? tokens) + nameSites tokens) c.parts c.statements w →
    v.rel (fun c' w' => c'.Holds (v.fits w') v.stands ∧
        v.pending (c'.sites none) c'.parts c'.statements w')
      (st.readTokensWith acts c tokens) (st.readTokensWith acts' c tokens) w := by
  induction tokens with
  | nil =>
    intro c w hConfig hS
    rw [nameSites, add_zero] at hS
    exact v.pure ⟨hConfig, hS⟩
  | cons t rest ih =>
    intro c w hConfig hS
    obtain ⟨⟨hScanned, hStands⟩, hRest⟩ := List.forall_mem_cons.mp hTokens
    refine v.bind (step_viewed h hConfig (by simpa using hStands) (Token.first? rest) hS) ?_
    intro progress w' hAfter
    cases progress with
    | next c' => exact ih hRest hAfter.1 hAfter.2
    | stuck => exact hFail (.token hScanned) hAfter
    | accepted e => exact hFail (.token hScanned) (v.fails_of_whole hAfter)

/-- **Reading a source** gives its names to the actions, each once. -/
theorem readWith_viewed (st : Setting) (h : acts.Viewed v acts') (hFail : st.Blames v)
    (hTokens : ∀ t ∈ (scan 1 st.source).tokens, v.stands t.lexeme t.start) {w : ω}
    (hS : v.pending (nameSites (scan 1 st.source).tokens) [] [] w) :
    v.Completes 0 w (st.readWith acts) (st.readWith acts') := by
  have hStart : (start : Config E S).Holds (v.fits w) v.stands := ⟨nofun, trivial, nofun, trivial⟩
  unfold readWith
  split
  · rename_i hBlank
    exact hFail (.empty hBlank) (v.fails_of_pending hS)
  · refine v.bind (readTokensWith_viewed h hFail (fun t ht => ⟨ht, hTokens t ht⟩) hStart ?_) ?_
    · simpa [start, sites, parts, Head.sites, Frame.sitesOf, Frame.partsOf,
        Focus.sites, Focus.parts] using hS
    · rintro c w' ⟨hConfig, hS'⟩
      cases hStop : (scan 1 st.source).stop with
      | illegal => exact hFail (.illegal hStop) (v.fails_of_pending hS')
      | finished =>
        have hEnd : Lexeme.sites st.source.length none none + 0 = 0 := rfl
        rw [← add_zero (c.sites none), ← hEnd] at hS'
        refine v.bind (step_viewed h hConfig (fun t ht => absurd ht (Option.not_mem_none t)) none
          hS') ?_
        intro progress w'' hAfter
        cases progress with
        | accepted e => exact v.pure hAfter
        | stuck => exact hFail .ended hAfter
        | next c' => exact hFail .ended (v.fails_of_pending hAfter.2)

end Setting

end MolangCompiler

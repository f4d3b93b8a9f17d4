import MolangCompiler.Proofs.Hosts
import MolangCompiler.Proofs.Runs

/-!
# Operations on a state and on its image

Often an operation does on a state what another one does on an image of it, in which something is
replaced or left out: a buffer that is not looked into, the charges, or a log that is kept beside
the state.  `Comparison.shadowing` says this of a map to the images.  Meanwhile the state keeps to a
course, and some failures of the first operation may be excused; nothing is claimed behind them.

Evaluations are carried out in different manners on a state and on its image.  If the single things
that host functions do correspond, and so does an evaluation provided that the host functions do
which it calls, then all evaluations correspond (`Manner.Reflects.hosted`).
-/

namespace MolangCompiler

section

variable {σ τ ρ ρ' α β : Type}

/-- The second outcome is the image of the first one, which is as `done` and `failed` say; or the
first one is a failure that is excused. -/
inductive Shadows (image : σ → τ) (excused : Failure → Prop) (done : α → σ → Prop)
    (failed : σ → Prop) : Outcome σ α → Outcome τ α → Prop where
  | ok {a : α} {s : σ} : done a s → Shadows image excused done failed (.ok a s) (.ok a (image s))
  | error {e : Failure} {s : σ} : failed s →
      Shadows image excused done failed (.error e s) (.error e (image s))
  | excused {e : Failure} {s : σ} {out : Outcome τ α} : excused e →
      Shadows image excused done failed (.error e s) out

variable {image : σ → τ} {excused : Failure → Prop}

namespace Shadows

variable {done done' : α → σ → Prop} {failed failed' : σ → Prop} {x : Outcome σ α} {y : Outcome τ α}

theorem ok_of {a : α} {s : σ} {t : τ} (hSame : t = image s) (h : done a s) :
    Shadows image excused done failed (.ok a s) (.ok a t) := hSame ▸ .ok h

theorem error_of {e : Failure} {s : σ} {t : τ} (hSame : t = image s) (h : failed s) :
    Shadows image excused done failed (.error e s) (.error e t) := hSame ▸ .error h

theorem mono (h : Shadows image excused done failed x y) (hDone : ∀ a s, done a s → done' a s)
    (hFailed : ∀ s, failed s → failed' s) : Shadows image excused done' failed' x y := by
  cases h with
  | ok h => exact .ok (hDone _ _ h)
  | error h => exact .error (hFailed _ h)
  | excused h => exact .excused h

theorem bind {next : β → σ → Prop} {x : Act σ α} {y : Act τ α} {f : α → Act σ β} {g : α → Act τ β}
    {s : σ} {t : τ} (h : Shadows image excused done failed (x s) (y t))
    (hNext : ∀ a s', done a s' → Shadows image excused next failed (f a s') (g a (image s'))) :
    Shadows image excused next failed ((x >>= f) s) ((y >>= g) t) := by
  generalize hx : x s = outX at h
  generalize hy : y t = outY at h
  cases h with
  | ok h =>
    rw [bind_of_ok hx, bind_of_ok hy]
    exact hNext _ _ h
  | error h =>
    rw [bind_of_error hx, bind_of_error hy]
    exact .error h
  | excused h =>
    rw [bind_of_error hx]
    exact .excused h

theorem followedBy {x : Act σ α} {y : Act τ α} {after : σ → σ} {after' : τ → τ} {s : σ} {t : τ}
    (h : Shadows image excused
      (fun a s' => after' (image s') = image (after s') ∧ done a (after s'))
      (fun s' => after' (image s') = image (after s') ∧ failed (after s')) (x s) (y t)) :
    Shadows image excused done failed (followedBy x after s) (followedBy y after' t) := by
  unfold MolangCompiler.followedBy
  generalize x s = out at h ⊢
  generalize y t = out' at h ⊢
  cases h with
  | ok h => exact .ok_of h.1 h.2
  | error h => exact .error_of h.1 h.2
  | excused h => exact .excused h

theorem attempt {x : Act σ α} {y : Act τ α} {s : σ} {t : τ} {done' : Except Failure α → σ → Prop}
    (h : Shadows image (fun _ => False) done failed (x s) (y t))
    (hDone : ∀ a s, done a s → done' (.ok a) s) (hFailed : ∀ {e} s, failed s → done' (.error e) s) :
    Shadows image (fun _ => False) done' failed' (attempt x s) (attempt y t) := by
  unfold MolangCompiler.attempt
  generalize x s = out at h ⊢
  generalize y t = out' at h ⊢
  cases h with
  | ok h => exact .ok (hDone _ _ h)
  | error h => exact .ok (hFailed _ h)
  | excused h => exact h.elim

theorem agree (h : Shadows image (fun _ => False) done failed x y) :
    Agree (fun a t b s => b = a ∧ image s = t ∧ done b s) (fun t s => image s = t ∧ failed s)
      y x := by
  cases h with
  | ok h => exact .ok ⟨rfl, rfl, h⟩
  | error h => exact .error ⟨rfl, h⟩
  | excused h => exact h.elim

theorem ends (h : Shadows image (fun _ => False) done failed x y) : Ends done failed x := by
  cases h with
  | ok h => exact .ok h
  | error h => exact .error h
  | excused h => exact h.elim

end Shadows

namespace Comparison

/-- An operation on states with a counterpart on their images: they do the same, unless the first
one fails in a way that is excused, and the states keep to a course. -/
def shadowing (image : σ → τ) (c : Course σ) (excused : Failure → Prop) : Comparison σ τ where
  rel p x y := ∀ s, c.ok s → Shadows image excused (fun a s' => c.ok s' ∧ c.le s s' ∧ p a)
    (fun s' => c.ok s' ∧ c.le s s') (x s) (y (image s))
  pure h := fun s hOk => .ok ⟨hOk, c.refl s, h⟩
  bind h hNext := by
    refine fun s hOk => (h s hOk).bind fun a s' hDone => ?_
    refine (hNext a hDone.2.2 s' hDone.1).mono ?_ ?_
    · exact fun _ _ hLast => ⟨hLast.1, c.trans hDone.2.1 hLast.2.1, hLast.2.2⟩
    · exact fun _ hLast => ⟨hLast.1, c.trans hDone.2.1 hLast.2⟩
  throw e := fun s hOk => .error ⟨hOk, c.refl s⟩

/-- The same where no failure is excused. -/
abbrev through (image : σ → τ) (c : Course σ) : Comparison σ τ := shadowing image c fun _ => False

variable {c : Course σ} {p : α → Prop} {x : Act σ α} {y : Act τ α}

theorem shadowing_result (h : (shadowing image c excused).Like x y)
    (hResult : ∀ {s a s'}, x s = .ok a s' → p a) : (shadowing image c excused).rel p x y := by
  intro s hOk
  have hShadows := h s hOk
  generalize hx : x s = out at hShadows ⊢
  generalize y (image s) = out' at hShadows ⊢
  cases hShadows with
  | ok h => exact .ok ⟨h.1, h.2.1, hResult hx⟩
  | error h => exact .error h
  | excused h => exact .excused h

theorem shadowing_get {f : σ → Act σ α} {g : τ → Act τ α}
    (h : ∀ s, c.ok s → (shadowing image c excused).rel p (f s) (g (image s))) :
    (shadowing image c excused).rel p (get >>= f) (get >>= g) := by
  intro s hOk
  exact h s hOk s hOk

theorem shadowing_modify {f : σ → σ} {g : τ → τ}
    (h : ∀ s, c.ok s → g (image s) = image (f s) ∧ c.ok (f s) ∧ c.le s (f s)) :
    (shadowing image c excused).Like (modify f : Act σ PUnit) (modify g) := by
  intro s hOk
  obtain ⟨hSame, hOk', hLe⟩ := h s hOk
  exact .ok_of hSame ⟨hOk', hLe, trivial⟩

theorem shadowing_followedBy {after : σ → σ} {after' : τ → τ}
    (h : (shadowing image c excused).rel p x y)
    (hAfter : ∀ s, c.ok s → after' (image s) = image (after s) ∧ c.ok (after s) ∧
      c.le s (after s)) :
    (shadowing image c excused).rel p (followedBy x after) (followedBy y after') := by
  refine fun s hOk => .followedBy ((h s hOk).mono (fun _ s' hDone => ?_) fun s' hFailed => ?_)
  · obtain ⟨hSame, hOk', hLe⟩ := hAfter s' hDone.1
    exact ⟨hSame, hOk', c.trans hDone.2.1 hLe, hDone.2.2⟩
  · obtain ⟨hSame, hOk', hLe⟩ := hAfter s' hFailed.1
    exact ⟨hSame, hOk', c.trans hFailed.2 hLe⟩

theorem shadowing_onPart {whole : ρ → ρ'} {d : Course ρ} {part : ρ → σ} {put : σ → ρ → ρ}
    {part' : ρ' → τ} {put' : τ → ρ' → ρ'}
    (hPart : ∀ r, d.ok r → part' (whole r) = image (part r) ∧ c.ok (part r))
    (hPut : ∀ s r, d.ok r → c.ok s → c.le (part r) s →
      put' (image s) (whole r) = whole (put s r) ∧ d.ok (put s r) ∧ d.le r (put s r))
    (h : (shadowing image c excused).rel p x y) :
    (shadowing whole d excused).rel p (onPart part put x) (onPart part' put' y) := by
  intro r hFine
  obtain ⟨hImage, hOk⟩ := hPart r hFine
  have hShadows := h (part r) hOk
  unfold onPart
  rw [hImage]
  generalize x (part r) = out at hShadows ⊢
  generalize y (image (part r)) = out' at hShadows ⊢
  cases hShadows with
  | ok h =>
    obtain ⟨hWhole, hFine', hLe⟩ := hPut _ r hFine h.1 h.2.1
    exact .ok_of hWhole ⟨hFine', hLe, h.2.2⟩
  | error h =>
    obtain ⟨hWhole, hFine', hLe⟩ := hPut _ r hFine h.1 h.2
    exact .error_of hWhole ⟨hFine', hLe⟩
  | excused h => exact .excused h

/-- An operation on the image that is carried out inside the state. -/
theorem shadowing_lift {put : τ → σ → σ} (hPut : ∀ t s, image (put t s) = t)
    (h : ∀ s, c.ok s → Ends (fun a t => c.ok (put t s) ∧ c.le s (put t s) ∧ p a)
      (fun t => c.ok (put t s) ∧ c.le s (put t s)) (y (image s))) :
    (shadowing image c excused).rel p (onPart image put y) y := by
  intro s hOk
  have hEnds := h s hOk
  unfold onPart
  generalize y (image s) = out at hEnds ⊢
  cases hEnds with
  | ok h => exact .ok_of (hPut _ s).symm h
  | error h => exact .error_of (hPut _ s).symm h

theorem through_attempt (h : (through image c).rel p x y) :
    (through image c).Like (attempt x) (attempt y) :=
  fun s hOk => (h s hOk).attempt (fun _ _ h => ⟨h.1, h.2.1, trivial⟩) fun _ h => ⟨h.1, h.2, trivial⟩

theorem shadowing_id (x : Act σ α) : (shadowing id (.any σ) excused).Like x x := by
  intro s _
  show Shadows _ _ _ _ (x s) (x s)
  cases x s with
  | ok => exact .ok ⟨trivial, trivial, trivial⟩
  | error => exact .error ⟨trivial, trivial⟩

end Comparison

/-- An array that is the same in the image of a state. -/
structure Slots.Kept (k : Slots σ) (k' : Slots τ) (image : σ → τ) (c : Course σ) : Prop where
  get : ∀ s, c.ok s → k'.get (image s) = k.get s
  put : ∀ xs s, c.ok s →
    k'.put xs (image s) = image (k.put xs s) ∧ c.ok (k.put xs s) ∧ c.le s (k.put xs s)

namespace Slots.Kept

open Comparison

variable {c : Course σ} {k : Slots σ} {k' : Slots τ} (h : k.Kept k' image c)

include h

theorem putting (xs : Array Float) {s : σ} (hOk : c.ok s) :
    Shadows image excused (fun _ s' => c.ok s' ∧ c.le s s' ∧ True) (fun s' => c.ok s' ∧ c.le s s')
      (.ok () (k.put xs s)) (.ok () (k'.put xs (image s))) := by
  obtain ⟨hSame, hOk', hLe⟩ := h.put xs s hOk
  exact .ok_of hSame ⟨hOk', hLe, trivial⟩

theorem read (slot : Nat) : (shadowing image c excused).Like (k.read slot) (k'.read slot) := by
  intro s hOk
  unfold Slots.read
  rw [h.get s hOk]
  split
  · exact .ok ⟨hOk, c.refl s, trivial⟩
  · exact .error ⟨hOk, c.refl s⟩

theorem write (slot : Nat) (x : Float) :
    (shadowing image c excused).Like (k.write slot x) (k'.write slot x) := by
  intro s hOk
  unfold Slots.write
  rw [h.get s hOk]
  split
  · exact h.putting _ hOk
  · exact .error ⟨hOk, c.refl s⟩

theorem readMany (slot size : Nat) :
    (shadowing image c excused).Like (k.readMany slot size) (k'.readMany slot size) := by
  intro s hOk
  unfold Slots.readMany
  rw [h.get s hOk]
  exact .ok ⟨hOk, c.refl s, trivial⟩

theorem writeMany (slot size : Nat) (xs : Array Float) :
    (shadowing image c excused).Like (k.writeMany slot size xs) (k'.writeMany slot size xs) := by
  intro s hOk
  unfold Slots.writeMany
  rw [h.get s hOk]
  exact h.putting _ hOk

end Slots.Kept

/-! ## Evaluations -/

/-- A way to relate operations that are begun in a certain state.  `rel post x y s` relates `x` to
`y` and says what holds of the result and of the state behind it. -/
structure Pairing (σ τ : Type) where
  le : σ → σ → Prop
  rel : {α : Type} → (α → σ → Prop) → Act σ α → Act τ α → σ → Prop
  pure {α : Type} {post : α → σ → Prop} {a : α} {s : σ} : post a s →
    rel post (Pure.pure a) (Pure.pure a) s
  throw {α : Type} {post : α → σ → Prop} (e : Failure) (s : σ) :
    rel post (MonadExcept.throw e : Act σ α) (MonadExcept.throw e) s
  bind {α β : Type} {post : α → σ → Prop} {next : β → σ → Prop} {x : Act σ α} {y : Act τ α}
    {f : α → Act σ β} {g : α → Act τ β} {s : σ} : rel post x y s →
    (∀ a s', le s s' → post a s' → rel next (f a) (g a) s') → rel next (x >>= f) (y >>= g) s
  attempt {α : Type} {post : α → σ → Prop} {x : Act σ α} {y : Act τ α} {s : σ} : rel post x y s →
    rel (fun _ _ => True) (attempt x) (attempt y) s

/-- An operation on a state and its counterpart on the image do the same, and the state keeps to a
course. -/
def Pairing.shadowed (image : σ → τ) (c : Course σ) : Pairing σ τ where
  le := c.le
  rel post x y s := c.ok s → Shadows image (fun _ => False)
    (fun a s' => c.ok s' ∧ c.le s s' ∧ post a s') (fun s' => c.ok s' ∧ c.le s s') (x s)
    (y (image s))
  pure h := fun hOk => .ok ⟨hOk, c.refl _, h⟩
  throw _ _ := fun hOk => .error ⟨hOk, c.refl _⟩
  bind h hNext := by
    refine fun hOk => (h hOk).bind fun a s' hDone => ?_
    refine (hNext a s' hDone.2.1 hDone.2.2 hDone.1).mono ?_ ?_
    · exact fun _ _ hLast => ⟨hLast.1, c.trans hDone.2.1 hLast.2.1, hLast.2.2⟩
    · exact fun _ hLast => ⟨hLast.1, c.trans hDone.2.1 hLast.2⟩
  attempt h := fun hOk =>
    (h hOk).attempt (fun _ _ h => ⟨h.1, h.2.1, trivial⟩) fun _ h => ⟨h.1, h.2, trivial⟩

/-- Operations that keep to a course, whatever they are related to. -/
def Pairing.kept (c : Course σ) : Pairing σ σ where
  le := c.le
  rel post x _ s := Keeps c post x s
  pure h := .pure h
  throw _ _ := .throw
  bind h hNext := .bind h fun a s' _ hLe hPost => hNext a s' hLe hPost
  attempt {_ _ x _ s} h := by
    intro hOk
    have hEnds := h hOk
    unfold MolangCompiler.attempt
    generalize x s = out at hEnds ⊢
    cases hEnds with
    | ok h => exact .ok ⟨h.1, h.2.1, trivial⟩
    | error h => exact .ok ⟨h.1, h.2, trivial⟩

/-- Two manners of evaluating artifacts that correspond.  `fit` says which artifacts can be
evaluated, and `values` which values are returned. -/
structure Manner.Reflects (M : Manner σ) (N : Manner τ) (P : Pairing σ τ)
    (fit : Artifact → σ → Prop) (values : List Float → Prop) : Prop where
  lasts {a s s'} : P.le s s' → fit a s → fit a s'
  look (s : σ) : P.rel (fun _ _ => True) (M.doing (fun _ => false) get)
    (N.doing (fun _ => false) get) s
  record (e : HostEvent) (s : σ) : P.rel (fun _ _ => True)
    (M.doing (fun _ => false) (Session.record e)) (N.doing (fun _ => false) (Session.record e)) s
  chore (chore : Chore) {a s} : fit a s → P.rel (fun _ _ => True)
    (M.doing (chore.makes a.home ·) (chore.act a.home))
    (N.doing (chore.makes a.home ·) (chore.act a.home)) s
  find (target : Target) {a s} : fit a s → P.rel fit
    (M.doing (fun _ => target.makes) (target.find a))
    (N.doing (fun _ => target.makes) (target.find a)) s
  tooDeep {a s} : fit a s → P.rel (fun xs _ => values xs)
    (M.bracketed a.home (runFailure .nestingLimit))
    (N.bracketed a.home (runFailure .nestingLimit)) s
  evaluate {a call call'} (args : List Float) {s} :
    (∀ f xs {s}, fit a s → P.rel (fun _ _ => True) (call f xs) (call' f xs) s) →
    fit a s → P.rel (fun xs _ => values xs) (M.evaluateWith call a args)
      (N.evaluateWith call' a args) s

namespace Manner.Reflects

variable {M : Manner σ} {N : Manner τ} {P : Pairing σ τ} {fit : Artifact → σ → Prop}
  {values : List Float → Prop} (R : M.Reflects N P fit values)
include R

section

variable {evaluate : Artifact → List Float → Act σ (List Float)}
  {evaluate' : Artifact → List Float → Act τ (List Float)}
  (hEvaluate : ∀ a args {s : σ}, fit a s →
    P.rel (fun xs _ => values xs) (evaluate a args) (evaluate' a args) s)
include hEvaluate

/-- **Whatever a host function does** corresponds if the evaluations do that it asks for. -/
theorem perform {current : Artifact} (deed : Deed) {s : σ} (hFit : fit current s) :
    P.rel (fun _ _ => True) (deed.perform M evaluate current)
      (deed.perform N evaluate' current) s := by
  induction deed generalizing s with
  | give value => exact P.pure trivial
  | fail failure => exact P.throw failure s
  | look next ih => exact P.bind (R.look s) fun a s' hLe _ => ih a (R.lasts hLe hFit)
  | work chore next ih =>
    exact P.bind (P.attempt (R.chore chore hFit)) fun r s' hLe _ => ih r (R.lasts hLe hFit)
  | evaluate target args next ih =>
    have hBoth : P.rel (fun xs _ => values xs)
        (do let a ← M.doing (fun _ => target.makes) (target.find current); evaluate a args)
        (do let a ← N.doing (fun _ => target.makes) (target.find current); evaluate' a args) s :=
      P.bind (R.find target hFit) fun a s' _ hFound => hEvaluate a args hFound
    exact P.bind (P.attempt hBoth) fun r s' hLe _ => ih r (R.lasts hLe hFit)

theorem callDeed (host : Host) {a : Artifact} (f : String) (xs : List Float) {s : σ}
    (hFit : fit a s) : P.rel (fun _ _ => True) (M.callDeed host evaluate a f xs)
      (N.callDeed host evaluate' a f xs) s :=
  P.bind (R.record _ s) fun _ _ hLe _ => R.perform hEvaluate _ (R.lasts hLe hFit)

end

/-- **Evaluations nested to any depth** correspond, whatever the host functions do. -/
theorem hosted (host : Host) (limit : Nat) (a : Artifact) (args : List Float) {s : σ}
    (hFit : fit a s) : P.rel (fun xs _ => values xs) (M.hosted host limit a args)
      (N.hosted host limit a args) s := by
  induction limit generalizing a args s with
  | zero => exact R.tooDeep hFit
  | succ limit ih => exact R.evaluate args (fun f xs _ => R.callDeed ih host f xs) hFit

end Manner.Reflects

end

end MolangCompiler

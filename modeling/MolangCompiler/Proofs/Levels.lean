import MolangCompiler.Proofs.Logged
import MolangCompiler.Proofs.Recompiling
import MolangCompiler.Proofs.SinglePrecision
import MolangCompiler.Proofs.Upkeep

/-!
# Operations that leave the bytes in use alone

Only compiling and making variables charge anything that stays charged.  Whatever else a routine or
a host function does leaves the bytes in use as they were (`Session.Level`), with two exceptions
that cancel out: a buffer is charged when an evaluation gets it and refunded when it ends, and debts
are refunded.  The buffer of an evaluation that fails becomes a debt.

A buffer that was charged is refunded if the instance still has an account or still has none, so
`Session.Level` keeps track of which instances have one.
-/

namespace MolangCompiler

/-! ## Books -/

private theorem map_add_zero (used : Option Int) : used.map (· + 0) = used := by
  cases used with
  | none => rfl
  | some bytes => exact congrArg some (Int.add_zero bytes)

variable {lost : List Int} {s : Session}

namespace Books

theorem level_of_used {b b' : Books} {difference : Int} (hOwed : b'.owed = b.owed)
    (hUsed : b'.used? = b.used?.map (· + difference)) : b.Level difference [] b' where
  firm := by
    unfold firm?
    rw [hUsed, hOwed, Option.map_map, Option.map_map]
    refine Option.map_congr fun used _ => ?_
    show used + difference - b.owed.sum = used - b.owed.sum + difference
    omega
  owed := by rw [hOwed, List.append_nil]

theorem Level.refl (b : Books) : b.Level 0 [] b := level_of_used rfl (map_add_zero _).symm

theorem Level.trans {b₁ b₂ b₃ : Books} {x y : Int} {lost' : List Int} (h : b₁.Level x lost b₂)
    (h' : b₂.Level y lost' b₃) : b₁.Level (x + y) (lost ++ lost') b₃ where
  firm := by
    rw [h'.firm, h.firm, Option.map_map]
    exact Option.map_congr fun used _ => Int.add_assoc used x y
  owed := by
    obtain ⟨gone, hGone⟩ := h.owed
    refine h'.owed.trans ⟨gone, ?_⟩
    rw [← List.append_assoc, hGone, List.append_assoc]

theorem used?_refundAll (charges : List Int) (b : Books) :
    (refundAll charges b).used? = b.used?.map (· - charges.sum) := by
  induction charges generalizing b with
  | nil =>
    rw [List.sum_nil]
    simp only [Int.sub_zero]
    exact Option.map_id'.symm
  | cons bytes rest ih =>
    refine (ih _).trans ?_
    rw [used?_enter, List.sum_cons, Option.map_map]
    refine Option.map_congr fun used _ => ?_
    show used + -bytes - rest.sum = used - (bytes + rest.sum)
    omega

/-- As soon as debts are settled, all bytes in use are firm. -/
theorem used?_settle (b : Books) : b.settle.used? = b.firm? :=
  used?_refundAll b.owed { b with owed := [] }

theorem firm?_of_owed {b : Books} (h : b.owed = []) : b.firm? = b.used? := by
  unfold firm?
  rw [h, List.sum_nil]
  exact map_add_zero _

theorem Level.used_eq {b b' : Books} (h : b.Level 0 lost b') (hOwed : b.owed = []) :
    b'.settle.used? = b.used? ∧ (lost = [] → b'.used? = b.used?) := by
  have hFirm : b'.firm? = b.used? := by rw [h.firm, map_add_zero, firm?_of_owed hOwed]
  refine ⟨(used?_settle b').trans hFirm, fun hNone => ?_⟩
  have hNothing := h.owed
  rw [hOwed, hNone] at hNothing
  rw [← hFirm, firm?_of_owed (List.suffix_nil.mp hNothing)]

/-- **A charge becomes a debt.** -/
theorem level_owe (bytes : Int) (b : Books) : b.Level (-bytes) [bytes] (b.owe bytes) where
  firm := by
    show b.used?.map (· - (b.owed ++ [bytes]).sum) = (b.used?.map _).map _
    rw [List.sum_append, List.sum_singleton, Option.map_map]
    refine Option.map_congr fun used _ => ?_
    show used - (b.owed.sum + bytes) = used - b.owed.sum + -bytes
    omega
  owed := List.suffix_rfl

end Books

/-! ## Sessions -/

namespace Session

/-- The bytes in use are the same, but for a difference and for debts, and the same instances are
counted. -/
structure Level (difference : Int) (lost : List Int) (s s' : Session) : Prop where
  books : s.books.Level difference lost s'.books
  owners : ∀ n, (s'.workshop n).inst.owner.isSome = (s.workshop n).inst.owner.isSome

theorem Level.refl (s : Session) : Level 0 [] s s := ⟨.refl _, fun _ => rfl⟩

theorem Level.trans {s₁ s₂ s₃ : Session} {x y : Int} {lost' : List Int} (h : Level x lost s₁ s₂)
    (h' : Level y lost' s₂ s₃) : Level (x + y) (lost ++ lost') s₁ s₃ :=
  ⟨h.books.trans h'.books, fun n => (h'.owners n).trans (h.owners n)⟩

def charged (s : Session) (number : Nat) (bytes : Int) : Int :=
  if (s.workshop number).inst.owner.isSome then bytes else 0

theorem charged_neg (s : Session) (m : Nat) (bytes : Int) :
    s.charged m (-bytes) = -s.charged m bytes := by
  unfold charged
  split <;> rfl

theorem Level.charged_eq {s' : Session} {x : Int} (h : Level x lost s s') (m : Nat) (bytes : Int) :
    s'.charged m bytes = s.charged m bytes := by
  unfold charged
  rw [h.owners]

theorem owners_changeInstance (s : Session) (m n : Nat) {f : Instance → Instance}
    (hOwner : ∀ i, s.instance? m = some i → (f i).owner.isSome = i.owner.isSome) :
    ((s.changeInstance m f).workshop n).inst.owner.isSome = (s.workshop n).inst.owner.isSome := by
  show (((s.changeInstance m f).instance? n).getD default).owner.isSome =
    ((s.instance? n).getD default).owner.isSome
  rw [instance?_changeInstance]
  by_cases hSame : n = m
  · rw [if_pos hSame, hSame]
    cases hAt : s.instance? m with
    | none => rfl
    | some i => exact hOwner i hAt
  · rw [if_neg hSame]

theorem level_changeInstance (s : Session) (m : Nat) {f : Instance → Instance}
    (hOwner : ∀ i, s.instance? m = some i → (f i).owner.isSome = i.owner.isSome) :
    Level 0 [] s (s.changeInstance m f) :=
  ⟨.refl _, fun n => owners_changeInstance s m n hOwner⟩

theorem owed_workshop (s : Session) (m : Nat) : (s.workshop m).books.owed = s.books.owed := by
  show (booksFor (s.workshop m).inst s.books).owed = _
  unfold booksFor
  split <;> rfl

/-- **What an operation charges to an instance** is charged to the session if the instance is
counted; if it is not, it must not make debts. -/
theorem level_setWorkshop {m : Nat} {w : Workshop} {bytes : Int}
    (hOwner : w.inst.owner.isSome = (s.workshop m).inst.owner.isSome)
    (hLevel : (s.workshop m).books.Level bytes lost w.books)
    (hDebts : (s.workshop m).inst.owner = none → w.books.owed = (s.workshop m).books.owed ∧
      lost = [])
    :
    Level (s.charged m bytes) lost s (s.setWorkshop m w) := by
  refine ⟨?_, fun n => ?_⟩
  · rw [books_setWorkshop, hOwner]
    unfold charged
    change (booksFor (s.workshop m).inst s.books).Level bytes lost w.books at hLevel
    unfold booksFor at hLevel
    cases hCounted : (s.workshop m).inst.owner with
    | some account =>
      rw [hCounted] at hLevel
      exact hLevel
    | none =>
      obtain ⟨hOwed, rfl⟩ := hDebts hCounted
      exact Books.level_of_used (hOwed.trans (owed_workshop s m)) (map_add_zero _).symm
  · refine owners_changeInstance _ m n fun i hAt => hOwner.trans ?_
    have hHere : s.instance? m = some i := hAt
    rw [workshop_inst hHere]

theorem level_setWorkshop_of_used {m : Nat} {w : Workshop} {bytes : Int}
    (hOwner : w.inst.owner.isSome = (s.workshop m).inst.owner.isSome)
    (hOwed : w.books.owed = (s.workshop m).books.owed)
    (hUsed : w.books.used? = (s.workshop m).books.used?.map (· + bytes)) :
    Level (s.charged m bytes) [] s (s.setWorkshop m w) :=
  level_setWorkshop hOwner (Books.level_of_used hOwed hUsed) fun _ => ⟨hOwed, rfl⟩

/-- **A buffer is given back**, and refunded unless it is the shared one; or it is lost. -/
theorem World.close_level (failed : Bool) (w : World) (m : Nat) :
    Level (w.session.charged m (-w.loan.bytes)) (if failed then w.atStake m else []) w.session
      (w.close failed m) := by
  rw [close_eq]
  obtain ⟨s, loan⟩ := w
  have hRefund (bytes : Int) := level_setWorkshop_of_used
    (w := { s.workshop m with books := (s.workshop m).books.enter bytes }) rfl
    (Books.owed_enter _ _) (Books.used?_enter _ _)
  cases loan with
  | shared =>
    have hLost : (if failed then atStake m ⟨s, .shared⟩ else []) = [] := by cases failed <;> rfl
    rw [hLost]
    exact level_setWorkshop_of_used rfl rfl (map_add_zero _).symm
  | own buffer bytes =>
    dsimp only [ScratchRoom.release, atStake]
    cases hCounted : (s.workshop m).books.ledger.isSome with
    | false =>
      rw [Bool.and_false, if_neg Bool.false_ne_true, if_neg Bool.false_ne_true, ite_self]
      exact hRefund _
    | true =>
      rw [Bool.and_true, if_pos rfl]
      cases failed with
      | false => exact hRefund _
      | true =>
        refine level_setWorkshop rfl (Books.level_owe bytes _) fun hNone => ?_
        change (booksFor (s.workshop m).inst s.books).ledger.isSome = true at hCounted
        unfold booksFor at hCounted
        rw [hNone] at hCounted
        cases hCounted

end Session

/-! ## Chores -/

namespace Tenant

theorem setValues_of_found {t : Tenant} {name : String} {v : Variable}
    (hFound : t.space.find? name = some v) (vs : List Float) :
    Ends (fun _ t' => vs.length = v.size ∧ t' = { t with space := t.space.write v.offset vs })
      (fun t' => t' = t) (setValues name vs t) := by
  unfold setValues
  rw [get_bind]
  rw [hFound]
  by_cases hCount : vs.length ≠ v.size
  · simp only [pure_bind, if_pos hCount]
    exact .error rfl
  · simp only [pure_bind, if_neg hCount]
    exact .ok ⟨Decidable.not_not.mp hCount, rfl⟩

end Tenant

end MolangCompiler

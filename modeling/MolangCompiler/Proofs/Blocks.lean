import MolangCompiler.Routine.Load

/-!
# Blocks of lines

Steps are written as lines whose indentation shows which block they belong to, and they are read
back by that indentation (`foldr_absorb_listing`), provided that the line behind them does not stand
deeper.
-/

namespace MolangCompiler

mutual

def Step.lines (level : Nat) : Step → List (Nat × Line)
  | .act action => [(level, .act action)]
  | .choose test yes no =>
    (level, .onlyIf test) :: (listing (level + 1) yes ++
      (level, .otherwise) :: listing (level + 1) no)

/-- The lines of steps, with their levels. -/
def Step.listing (level : Nat) : List Step → List (Nat × Line)
  | [] => []
  | s :: rest => s.lines level ++ listing level rest

end

namespace Step

@[simp]
theorem listing_nil (level : Nat) : listing level [] = [] := rfl

theorem listing_cons (level : Nat) (s : Step) (rest : List Step) :
    listing level (s :: rest) = s.lines level ++ listing level rest := rfl

@[simp]
theorem listing_append (level : Nat) (xs ys : List Step) :
    listing level (xs ++ ys) = listing level xs ++ listing level ys := by
  induction xs with
  | nil => rfl
  | cons s rest ih => rw [List.cons_append, listing_cons, listing_cons, ih, List.append_assoc]

theorem listing_choose (level : Nat) (test : Test) (yes no : List Step) :
    listing level [.choose test yes no] =
      (level, .onlyIf test) :: (listing (level + 1) yes ++
        (level, .otherwise) :: listing (level + 1) no) := by
  rw [listing_cons, listing_nil, List.append_nil]
  rfl

/-- Only a block without steps has no lines. -/
theorem length_listing_eq_zero {level : Nat} {steps : List Step} :
    (listing level steps).length = 0 ↔ steps = [] := by
  cases steps with
  | nil => simp
  | cons s rest => cases s <;> simp [listing_cons, lines]

end Step

namespace Routine

/-! ## Reading blocks back -/

def piecesAt (level : Nat) (steps : List Step) : List (Nat × Piece) :=
  steps.map fun s => (level, .step s)

/-- The first piece, if there is one, does not stand deeper than a level. -/
def StartsWithin (level : Nat) (behind : List (Nat × Piece)) : Prop :=
  ∀ p ∈ behind.head?, p.1 ≤ level

variable {level : Nat} {behind : List (Nat × Piece)}

theorem StartsWithin.cons {k : Nat} {piece : Piece} (h : k ≤ level) :
    StartsWithin level ((k, piece) :: behind) := by
  intro p hp
  simp only [List.head?_cons, Option.mem_def, Option.some.injEq] at hp
  rw [← hp]
  exact h

theorem StartsWithin.append {steps : List Step} (h : StartsWithin level behind) :
    StartsWithin level (piecesAt level steps ++ behind) := by
  cases steps with
  | nil => exact h
  | cons s rest => exact cons (Nat.le_refl level)

/-- A block takes exactly its own steps. -/
theorem takeBlock_piecesAt (h : StartsWithin level behind) (steps : List Step) :
    takeBlock (level + 1) (piecesAt (level + 1) steps ++ behind) = (steps, behind) := by
  induction steps with
  | nil =>
    show takeBlock (level + 1) behind = ([], behind)
    cases behind with
    | nil => rfl
    | cons p rest =>
      obtain ⟨k, piece⟩ := p
      have hk : k ≤ level := h (k, piece) rfl
      cases piece with
      | step s =>
        have hne : k ≠ level + 1 := by omega
        simp [takeBlock, hne]
      | orElse | definition => rfl
  | cons s rest ih =>
    show takeBlock (level + 1) ((level + 1, .step s) :: (piecesAt (level + 1) rest ++ behind)) = _
    simp [takeBlock, ih]

mutual

theorem foldr_absorb_lines (level : Nat) (s : Step) (behind : List (Nat × Piece))
    (h : StartsWithin level behind) :
    (s.lines level).foldr absorb behind = (level, .step s) :: behind := by
  match s with
  | .act action => rfl
  | .choose test yes no =>
    have hNo := foldr_absorb_listing (level + 1) no behind fun p hp => Nat.le_succ_of_le (h p hp)
    have hElse : StartsWithin level ((level, .orElse no) :: behind) :=
      StartsWithin.cons (Nat.le_refl level)
    have hYes := foldr_absorb_listing (level + 1) yes ((level, .orElse no) :: behind)
      fun p hp => Nat.le_succ_of_le (hElse p hp)
    simp only [Step.lines, List.foldr_cons, List.foldr_append]
    rw [hNo]
    have hOtherwise : absorb (level, .otherwise) (piecesAt (level + 1) no ++ behind) =
        (level, .orElse no) :: behind := by
      simp only [absorb, takeBlock_piecesAt h no]
    rw [hOtherwise, hYes]
    simp [absorb, takeBlock_piecesAt hElse yes, takeOrElse]

/-- **Reading back.**  The lines of a block are read as the steps that they were written for,
whatever follows them, unless that stands deeper. -/
theorem foldr_absorb_listing (level : Nat) (steps : List Step) (behind : List (Nat × Piece))
    (h : StartsWithin level behind) :
    (Step.listing level steps).foldr absorb behind = piecesAt level steps ++ behind := by
  match steps with
  | [] => rfl
  | s :: rest =>
    have hRest := foldr_absorb_listing level rest behind h
    rw [Step.listing_cons, List.foldr_append, hRest]
    exact foldr_absorb_lines level s (piecesAt level rest ++ behind) h.append

end

theorem ofLines?_define (name : String) (params : Nat) (body : List Step) :
    ofLines? ((0, .define name params) :: Step.listing 1 body) = some ⟨name, params, body⟩ := by
  have hEmpty : StartsWithin 0 ([] : List (Nat × Piece)) := by
    intro p hp
    cases hp
  have hBody := foldr_absorb_listing 1 body [] fun p hp => Nat.le_succ_of_le (hEmpty p hp)
  simp only [ofLines?, List.foldr_cons]
  rw [hBody]
  simp only [absorb, takeBlock_piecesAt hEmpty body]

theorem ofLines?_of_load {lines : List (Nat × Line)} {r : Routine} (h : load lines = .ok r) :
    ofLines? lines = some r := by
  cases lines with
  | nil => cases h
  | cons first rest =>
    unfold load at h
    dsimp only at h
    split at h
    · cases h
    · split at h
      · rename_i routine hRead
        cases h
        exact hRead
      · cases h

end Routine

end MolangCompiler

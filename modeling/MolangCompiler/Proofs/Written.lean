import MolangCompiler.Proofs.Outcome
import MolangCompiler.Proofs.Outline

/-!
# Writing produces the outline

`Writes act l a steps l'` says that writing `act` from layout `l`, whatever has been written before
and at whatever level, adds the lines of `steps`, returns `a` and leaves layout `l'`.

Only the parts of an operation need marks: `inOrder` remembers where the lines of each part end, and
`setAside` inserts there, from right to left, so that the marks still to be used stay true.  The
invariant of that loop is `setAside_listing`: all lines up to the mark at hand are as they were
written first.
-/

namespace MolangCompiler

open Routine

open Emission MolangCompiler.Expr MolangCompiler.Part Step Writing

/-! ## Adding steps to a draft -/

/-- How many lines steps have does not depend on their level. -/
def Step.count (steps : List Step) : Nat := (listing 0 steps).length

mutual

theorem Step.length_lines (level : Nat) (s : Step) :
    (s.lines level).length = (s.lines 0).length := by
  match s with
  | .act action => rfl
  | .choose test yes no =>
    simp only [lines, List.length_cons, List.length_append]
    rw [length_listing (level + 1) yes, length_listing (level + 1) no,
      length_listing (0 + 1) yes, length_listing (0 + 1) no]

theorem Step.length_listing (level : Nat) (steps : List Step) :
    (listing level steps).length = count steps := by
  match steps with
  | [] => rfl
  | s :: rest =>
    show _ = (listing 0 (s :: rest)).length
    rw [listing_cons, listing_cons, List.length_append, List.length_append,
      length_lines level s, length_listing level rest]
    rfl

end

theorem Step.count_append (xs ys : List Step) : count (xs ++ ys) = count xs + count ys := by
  simp [count]

variable {steps : List Step} {l' l : Layout} {width : Int} {ps : List Part}

theorem Step.count_pos : 0 < count steps ↔ steps ≠ [] := by
  rw [Nat.pos_iff_ne_zero, count, Ne, length_listing_eq_zero]

/-- A draft with the lines of further steps, and a new layout. -/
def Draft.extend (d : Draft) (steps : List Step) (l : Layout) : Draft :=
  ⟨⟨d.listing.lines ++ Step.listing d.listing.level steps, d.listing.level⟩, l⟩

namespace Draft

theorem extend_extend (d : Draft) (xs ys : List Step) (l l' : Layout) :
    (d.extend xs l).extend ys l' = d.extend (xs ++ ys) l' := by
  simp [extend]

theorem mark_extend (d : Draft) (steps : List Step) (l : Layout) :
    mark (d.extend steps l) = .ok (d.listing.mark + Step.count steps) (d.extend steps l) := by
  show EStateM.Result.ok (d.listing.lines ++ _).length _ = _
  rw [List.length_append, Step.length_listing]
  rfl

end Draft

/-- Writing `act` from layout `l` returns `a`, adds the lines of `steps` and leaves layout `l'`. -/
def Writes {α : Type} (act : Writing α) (l : Layout) (a : α) (steps : List Step) (l' : Layout) :
    Prop :=
  ∀ d : Draft, d.layout = l → act d = .ok a (d.extend steps l')

namespace Writes

variable {α β : Type}

variable {x : Writing α} {l l₁ l₂ : Layout} {a : α} {xs ys : List Step}

/-- What only settles the layout adds no line. -/
theorem silent (h : ∀ ls, x ⟨ls, l⟩ = .ok a ⟨ls, l₁⟩) : Writes x l a [] l₁ := by
  rintro ⟨ls, _⟩ rfl
  rw [h ls]
  simp [Draft.extend]

theorem pure (a : α) (l : Layout) : Writes (Pure.pure a) l a [] l := silent fun _ => rfl

theorem bind {f : α → Writing β} {b : β} (hx : Writes x l a xs l₁) (hf : Writes (f a) l₁ b ys l₂) :
    Writes (x >>= f) l b (xs ++ ys) l₂ := by
  intro d hd
  rw [bind_of_ok (hx d hd), hf (d.extend xs l₁) rfl, Draft.extend_extend]

theorem bind_silent {f : α → Writing β} {b : β} (hx : Writes x l a [] l₁)
    (hf : Writes (f a) l₁ b ys l₂) :
    Writes (x >>= f) l b ys l₂ := .bind hx hf

theorem map (f : α → β) (hx : Writes x l a xs l') :
    Writes (do let a ← x; return f a) l (f a) xs l' := by
  have h := Writes.bind (f := fun a => Pure.pure (f a)) hx (Writes.pure (f a) l')
  rwa [List.append_nil] at h

theorem act (action : Action) (l : Layout) : Writes (act action) l () [.act action] l := by
  intro d hd
  rw [← hd]
  rfl

theorem freshLocal (l : Layout) :
    Writes freshLocal l (l.reserveLocals 1).1 [] (l.reserveLocals 1).2 := silent fun _ => rfl

theorem callee (f : String) (l : Layout) :
    Writes (callee f) l ⟨(l.bind f "fn").1, f⟩ [] (l.bind f "fn").2 := silent fun _ => rfl

theorem reserve (h : 0 ≤ width) (l : Layout) :
    Writes (Writing.reserve width) l l.nextSlot [] (l.opened width) := by
  refine silent fun ls => ?_
  rw [Writing.reserve, get_bind]
  simp only [Layout.reserve, if_neg (Int.not_lt.mpr h), Layout.opened]
  rfl

theorem release {base : Int} (h : base ≤ l.nextSlot) :
    Writes (release base) l () [] (l.closed base) := by
  refine silent fun ls => ?_
  rw [Writing.release, get_bind]
  simp only [Layout.release, if_neg (Int.not_lt.mpr h), Layout.closed]
  rfl

theorem block {header : Line} {body : Writing Unit} (h : Writes body l () steps l') (d : Draft)
    (hd : d.layout = l) :
    Writing.block header body d = .ok () ⟨⟨d.listing.lines ++ (d.listing.level, header) ::
      listing (d.listing.level + 1) steps, d.listing.level⟩, l'⟩ := by
  have hBody := h { d with listing := (d.listing.line header).indent } hd
  simp only [Writing.block, hBody]
  simp [Draft.extend, Listing.line, Listing.indent, Listing.dedent]

theorem choose (test : Test) {yes no : Writing Unit} {ns : List Step} (hy : Writes yes l () ys l₁)
    (hn : Writes no l₁ () ns l₂) :
    Writes (do Writing.block (.onlyIf test) yes; Writing.block .otherwise no) l ()
      [.choose test ys ns] l₂ := by
  intro d hd
  rw [bind_of_ok (block hy d hd), block hn _ rfl]
  simp [Draft.extend, listing_choose]

theorem choose_then (test : Test) {yes no : Writing Unit} {next : Writing α} {l₃ : Layout}
    {ns : List Step} (hy : Writes yes l () ys l₁) (hn : Writes no l₁ () ns l₂)
    (hNext : Writes next l₂ a xs l₃) :
    Writes (do Writing.block (.onlyIf test) yes; Writing.block .otherwise no; next) l a
      (.choose test ys ns :: xs) l₃ := by
  have h := Writes.bind (f := fun _ => next) (choose test hy hn) hNext
  rwa [bind_assoc] at h

end Writes

/-! ## Parts of an operation -/

/-- Each of several ways of writing a scalar writes the part at the same place of a list. -/
inductive WritesParts : List Emission → Layout → List Part → Layout → Prop where
  | nil (l : Layout) : WritesParts [] l [] l
  | cons {e : Emission} {rest : List Emission} {p : Part} {ps : List Part} {l l₁ l₂ : Layout} :
      e.constant = p.constant → Writes e.scalar l p.code p.steps l₁ →
      WritesParts rest l₁ ps l₂ → WritesParts (e :: rest) l (p :: ps) l₂

/-- What is remembered of parts whose first line stands at place `start`. -/
def Part.marked (start : Nat) : List Part → List (Bool × Code × Nat)
  | [] => []
  | p :: rest =>
    (p.constant, p.code, start + Step.count p.steps) :: marked (start + Step.count p.steps) rest

private theorem inOrder_writes {es : List Emission} (h : WritesParts es l ps l') :
    ∀ d : Draft, d.layout = l → inOrder es d =
      .ok (marked d.listing.mark ps) (d.extend (stepsOf ps) l') := by
  induction h with
  | nil l => exact Writes.pure [] l
  | @cons e rest p ps l l₁ l₂ hConst hScalar _ ih =>
    intro d hd
    have hRest := ih (d.extend p.steps l₁) rfl
    have hMark : (d.extend p.steps l₁).listing.mark = d.listing.mark + count p.steps := by
      simp [Draft.extend, Listing.mark, length_listing]
    rw [hMark, Draft.extend_extend] at hRest
    refine (bind_of_ok (hScalar d hd)).trans
      ((bind_of_ok (d.mark_extend p.steps l₁)).trans ((bind_of_ok hRest).trans ?_))
    rw [hConst]
    rfl

theorem insertAct_behind (pre post : List (Nat × Line)) (level : Nat) (l : Layout)
    (action : Action) :
    insertAct pre.length action ⟨⟨pre ++ post, level⟩, l⟩ =
      .ok () ⟨⟨pre ++ (level, .act action) :: post, level⟩, l⟩ := by
  have hPlace : (⟨pre ++ post, level⟩ : Listing Line).place pre.length = pre.length := by
    simp only [Listing.place, List.length_append]
    rw [if_neg (by omega)]
    omega
  show EStateM.Result.ok () _ = _
  simp only [Listing.insert, hPlace, List.take_left', List.drop_left']

/-- **Setting parts aside.**  The lines that stand before the parts stay where they are, and the
lines of the parts become those of the parts that were set aside. -/
theorem setAside_listing (level : Nat) (l : Layout) (ps : List Part) :
    ∀ pre : List (Nat × Line),
      setAside (pre.length + count (Part.stepsOf ps))
          (Part.marked pre.length ps)
          ⟨⟨pre ++ listing level (Part.stepsOf ps), level⟩, l⟩ =
        .ok (Part.codesOf (Part.setAside ps l).1)
          ⟨⟨pre ++ listing level (Part.stepsOf (Part.setAside ps l).1), level⟩,
            (Part.setAside ps l).2⟩ := by
  induction ps with
  | nil =>
    intro pre
    rfl
  | cons p rest ih =>
    intro pre
    have hSteps : Part.stepsOf (p :: rest) = p.steps ++ Part.stepsOf rest := rfl
    have hRest := ih (pre ++ listing level p.steps)
    have hLength : (pre ++ listing level p.steps).length = pre.length + count p.steps := by
      rw [List.length_append, length_listing]
    have hLast : pre.length + count p.steps + count (Part.stepsOf rest) =
        pre.length + count (Part.stepsOf (p :: rest)) := by
      rw [hSteps, count_append]
      omega
    rw [hLength, hLast] at hRest
    rw [hSteps, listing_append, ← List.append_assoc, ← hSteps]
    refine (bind_of_ok hRest).trans ?_
    -- the place of the part lies before the last one just if later parts have lines
    have hBehind : decide (pre.length + count p.steps <
          pre.length + count (Part.stepsOf (p :: rest))) =
        !(Part.stepsOf rest).isEmpty := by
      rw [← hLast]
      cases hEmpty : Part.stepsOf rest with
      | nil => simp [count]
      | cons s more =>
        have hPos : 0 < count (s :: more) := count_pos.mpr (by simp)
        simp only [List.isEmpty_cons, Bool.not_false, decide_eq_true_eq]
        omega
    simp only [Part.setAside, hBehind]
    by_cases hAside : (!p.constant && !(Part.stepsOf rest).isEmpty) = true
    · simp only [hAside, if_true]
      have hInsert := insertAct_behind (pre ++ listing level p.steps)
        (listing level (Part.stepsOf (Part.setAside rest l).1)) level
        ((Part.setAside rest l).2.reserveLocals 1).2
        (.setLocal ((Part.setAside rest l).2.reserveLocals 1).1 p.code)
      rw [hLength] at hInsert
      refine (bind_of_ok rfl).trans ((bind_of_ok hInsert).trans ?_)
      show EStateM.Result.ok _ _ = _
      simp [Part.stepsOf, Part.codesOf, listing_cons, lines, Layout.reserveLocals]
    · simp only [hAside]
      show EStateM.Result.ok _ _ = _
      simp [Part.stepsOf, Part.codesOf]

theorem operands_writes {es : List Emission} (h : WritesParts es l ps l') :
    Writes (operands es) l (codesOf (setAside ps l').1)
      (stepsOf (setAside ps l').1) (setAside ps l').2 := by
  intro d hd
  have hOrder := inOrder_writes h d hd
  have hAside := setAside_listing d.listing.level l' ps d.listing.lines
  exact (bind_of_ok hOrder).trans ((bind_of_ok (d.mark_extend _ l')).trans hAside)

/-! ## Scalars -/

mutual

theorem Expr.constant_emission : ∀ e : Expr, e.emission.constant = e.isConstant
  | .constant _ | .localRead _ _ => rfl
  | .variableRead v => by
    simp only [emission, Emission.ofVariable, Emission.byWidth, isConstant]
    split <;> rfl
  | .negate _ | .not _ => rfl
  | .binary _ left right => by
    show (left.emission.constant && right.emission.constant) = _
    rw [constant_emission left, constant_emission right]
    rfl
  | .logical _ _ _ => rfl
  | .ternary _ yes _ => by
    simp only [emission, Emission.ternary, Emission.byWidth, isConstant]
    split <;> rfl
  | .vector es | .helperCall _ es => constant_emissions es
  | .hostCall _ _ width => by
    simp only [emission, Emission.hostCall, Emission.byWidth, isConstant]
    split <;> rfl
  | .bind _ _ _ | .sequence _ _ => rfl

theorem Expr.constant_emissions : ∀ es : List Expr, (emissions es).all (·.constant) = allConstant es
  | [] => rfl
  | e :: rest => by
    simp only [emissions, List.all_cons, allConstant]
    rw [constant_emission e, constant_emissions rest]

end

theorem Expr.length_emissions : ∀ es : List Expr, (emissions es).length = es.length
  | [] => rfl
  | _ :: rest => congrArg (· + 1) (length_emissions rest)

theorem Expr.width_emission : ∀ e : Expr, e.emission.width = e.width
  | .constant _ | .localRead _ _ => rfl
  | .variableRead v => by
    simp only [emission, Emission.ofVariable, Emission.byWidth, width]
    split <;> rfl
  | .negate _ | .not _ | .binary _ _ _ | .logical _ _ _ => rfl
  | .ternary _ yes _ => by
    simp only [emission, Emission.ternary, Emission.byWidth, width]
    rw [width_emission yes]
    split <;> rfl
  | .vector es => by
    show ((emissions es).length : Int) = es.length
    rw [length_emissions es]
  | .helperCall _ _ => rfl
  | .hostCall _ _ width => by
    simp only [emission, Emission.hostCall, Emission.byWidth, Expr.width]
    split <;> rfl
  | .bind _ _ body => width_emission body
  | .sequence _ _ => rfl

theorem Expr.constant_part (e : Expr) (l : Layout) : (e.part l).1.constant = e.isConstant := by
  cases e with
  | vector es =>
    simp only [part]
    split <;> rfl
  | _ => rfl

private theorem binary_writes {left right : Emission} {op : BinaryOp}
    (h : WritesParts [left, right] l ps l') :
    Writes (binary op left right).scalar l
      (Code.ofOperands op (codesOf (setAside ps l').1))
      (stepsOf (setAside ps l').1) (setAside ps l').2 := by
  have hCode : (binary op left right).scalar =
      (do let codes ← operands [left, right]; return Code.ofOperands op codes) := by
    refine congrArg (operands [left, right] >>= ·) (funext fun codes => ?_)
    match codes with
    | [] | [_] | [_, _] | _ :: _ :: _ :: _ => rfl
  rw [hCode]
  exact .map _ (operands_writes h)

mutual

/-- **Writing a scalar** produces its outline. -/
theorem Expr.writes_part {b : Bounds} : ∀ e : Expr, e.Each (Fits b) → e.width = 1 →
    ∀ l : Layout, Writes e.emission.scalar l (e.part l).1.code (e.part l).1.steps (e.part l).2
  | .constant xs, _, hWidth, l => by
    match xs, hWidth with
    | [x], _ => exact Writes.pure _ l
  | .localRead index name, _, _, l => Writes.pure _ l
  | .variableRead v, _, hWidth, l => by
    have hSize : (v.size : Int) = 1 := hWidth
    simp only [emission, Emission.ofVariable, Emission.byWidth, if_pos hSize]
    exact Writes.pure _ l
  | .negate operand, h, _, l | .not operand, h, _, l =>
    Writes.map _ (writes_part operand h.2 h.1 l)
  | .binary op left right, h, _, l => by
    have hLeft := writes_part left h.2.1 h.1.1 l
    have hRight := writes_part right h.2.2 h.1.2 (left.part l).2
    have hBoth : WritesParts [left.emission, right.emission] l
        [(left.part l).1, (right.part (left.part l).2).1] (right.part (left.part l).2).2 := by
      refine .cons ?_ hLeft (.cons ?_ hRight (.nil _))
      · rw [constant_emission, constant_part]
      · rw [constant_emission, constant_part]
    exact binary_writes hBoth
  | .logical op left right, h, _, l => by
    have hLeft := writes_part left h.2.1 h.1.1 (l.reserveLocals 1).2
    have hRight := writes_part right h.2.2 h.1.2 (left.part (l.reserveLocals 1).2).2
    have hYes := Writes.bind (f := fun c => act (.setTruth (l.reserveLocals 1).1 c))
      hRight (Writes.act _ _)
    have hNo := Writes.act (.setLocal (l.reserveLocals 1).1 (.literal op.settled))
      (right.part (left.part (l.reserveLocals 1).2).2).2
    have hChoose := Writes.choose_then
      (op.openTest (left.part (l.reserveLocals 1).2).1.code) hYes hNo
      (Writes.pure (Code.readLocal (l.reserveLocals 1).1) _)
    exact Writes.bind_silent (Writes.freshLocal l) (Writes.bind hLeft hChoose)
  | .ternary cond yes no, h, hWidth, l => by
    have hYesWidth : yes.width = 1 := hWidth
    have hNoWidth : no.width = 1 := h.1.2.symm.trans hYesWidth
    have hTest := writes_part cond h.2.1 h.1.1 (l.reserveLocals 1).2
    have hYes := writes_part yes h.2.2.1 hYesWidth (cond.part (l.reserveLocals 1).2).2
    have hNo := writes_part no h.2.2.2 hNoWidth (yes.part (cond.part (l.reserveLocals 1).2).2).2
    have hSetYes := Writes.bind (f := fun c => act (.setLocal (l.reserveLocals 1).1 c))
      hYes (Writes.act _ _)
    have hSetNo := Writes.bind (f := fun c => act (.setLocal (l.reserveLocals 1).1 c))
      hNo (Writes.act _ _)
    have hChoose := Writes.choose_then
      (.holds (cond.part (l.reserveLocals 1).2).1.code) hSetYes hSetNo
      (Writes.pure (Code.readLocal (l.reserveLocals 1).1) _)
    simp only [emission, Emission.ternary, Emission.byWidth, width_emission, if_pos hYesWidth]
    exact Writes.bind_silent (Writes.freshLocal l) (Writes.bind hTest hChoose)
  | .vector [element], h, _, l =>
    writes_part element h.2.1 (h.1 element (List.mem_singleton.mpr rfl)) l
  | .vector [], _, hWidth, _ => absurd hWidth width_vector_nil
  | .vector (_ :: _ :: _), _, hWidth, _ =>
    absurd hWidth width_vector_cons_cons
  | .helperCall helper args, h, _, l => by
    have hArgs := writes_parts args h.2 h.1 l
    exact Writes.map (Code.helper helper) (operands_writes hArgs)
  | .hostCall function args width, h, hWidth, l => by
    have hOne : width = 1 := hWidth
    have hArgs := writes_parts args h.2 h.1 (l.bind function "fn").2
    simp only [emission, Emission.hostCall, Emission.byWidth, if_pos hOne]
    exact Writes.bind_silent (Writes.callee function l)
      (Writes.map (Code.call ⟨(l.bind function "fn").1, function⟩) (operands_writes hArgs))
  | .bind index value body, h, hWidth, l => by
    have hValue := writes_part value h.2.1 h.1.2 l
    have hBody := writes_part body h.2.2 hWidth (value.part l).2
    exact Writes.bind hValue (Writes.bind (Writes.act (.setLocal index _) _) hBody)
  | .sequence _ _, h, _, _ => absurd h id

theorem Expr.writes_parts {b : Bounds} : ∀ es : List Expr,
    EachOf (Fits b) es → (∀ e ∈ es, e.width = 1) →
    ∀ l : Layout, WritesParts (emissions es) l (parts es l).1 (parts es l).2
  | [], _, _, l => .nil l
  | e :: rest, h, hWidth, l => by
    refine .cons ?_ (writes_part e h.1 (hWidth e List.mem_cons_self) l)
      (writes_parts rest h.2 (fun e' he' => hWidth e' (List.mem_cons_of_mem e he')) _)
    rw [constant_emission, constant_part]

end

/-! ## Regions -/

private theorem storeScalar_writes {e : Emission} {slot : Int} {p : Part × Layout}
    (h : Writes e.scalar l p.1.code p.1.steps p.2) :
    Writes (storeScalar e.scalar slot) l () (stored slot p).1 (stored slot p).2 :=
  Writes.bind (f := fun c => act (.setSlot slot c)) h (.act _ _)

private theorem byWidth_into {kind : String} {constant : Bool} {scalar : Writing Code}
    {into : Int → Writing Unit} (h : width = 1) (slot : Int) :
    (byWidth kind width constant scalar into).into slot =
      storeScalar (byWidth kind width constant scalar into).scalar slot := by
  simp only [byWidth, if_pos h]

private theorem forM_act_writes {α : Type} (f : α → Action) (xs : List α) (l : Layout) :
    Writes (xs.forM fun x => act (f x)) l () (xs.map fun x => .act (f x)) l := by
  induction xs with
  | nil => exact .pure () l
  | cons x rest ih => exact .bind (f := fun _ => _) (.act (f x) l) ih

theorem Expr.into_of_simple {e : Expr} (h : e.Simple) (hWidth : e.width = 1) (slot : Int) :
    e.emission.into slot = storeScalar e.emission.scalar slot := by
  cases e with
  | constant | vector | bind | sequence => exact absurd h id
  | variableRead | hostCall => exact byWidth_into hWidth slot
  | ternary _ yes _ => exact byWidth_into ((width_emission yes).trans hWidth) slot
  | _ => rfl

/-- Writing expressions side by side produces their outlines one after the other; the first of
them belongs `k` slots behind the first slot of all. -/
theorem Expr.writes_regions {es : List Expr} (h : ∀ e ∈ es, ∀ slot l,
      Writes (e.emission.into slot) l () (e.region slot l).1 (e.region slot l).2)
    (slot : Int) (k : Nat) (l : Layout) :
    Writes (((emissions es).zipIdx k).forM fun (e, i) => e.into (slot + i)) l ()
      (regions es (slot + k) l).1 (regions es (slot + k) l).2 := by
  induction es generalizing k l with
  | nil => exact .pure () l
  | cons e rest ih =>
    obtain ⟨hFirst, hOthers⟩ := List.forall_mem_cons.mp h
    have hRest := ih hOthers (k + 1) (e.region (slot + k) l).2
    have hNext : slot + ((k + 1 : Nat) : Int) = slot + k + 1 := by omega
    rw [hNext] at hRest
    exact .bind (f := fun _ => _) (hFirst (slot + k) l) hRest

/-- **Writing a region** produces its outline. -/
theorem Expr.writes_region {b : Bounds} (e : Expr) (h : e.Each (Fits b)) (slot : Int) (l : Layout) :
    Writes (e.emission.into slot) l () (e.region slot l).1 (e.region slot l).2 := by
  induction e using region_induction generalizing slot l with
  | simple e hSimple hWidth =>
    rw [into_of_simple hSimple hWidth, region_of_simple hSimple hWidth]
    exact storeScalar_writes (writes_part e h hWidth l)
  | constant xs => exact forM_act_writes _ xs.zipIdx l
  | load v hSize =>
    have hWidth : ¬ (v.size : Int) = 1 := by omega
    simp only [emission, Emission.ofVariable, Emission.byWidth, if_neg hWidth, region, if_neg hSize]
    exact Writes.act _ l
  | choice cond yes no hWidth ihYes ihNo =>
    have hTest := writes_part cond h.2.1 h.1.1 l
    have hYes := ihYes h.2.2.1 slot (cond.part l).2
    have hNo := ihNo h.2.2.2 slot (yes.region slot (cond.part l).2).2
    simp only [emission, Emission.ternary, Emission.byWidth, width_emission, if_neg hWidth, region]
    exact Writes.bind hTest (Writes.choose _ hYes hNo)
  | vector es ih =>
    have hAll := writes_regions (fun e he => ih e he ((eachOf_iff es).mp h.2 e he)) slot 0 l
    rwa [Int.natCast_zero, Int.add_zero] at hAll
  | call f args width hWidth =>
    have hArgs := writes_parts args h.2 h.1 (l.bind f "fn").2
    simp only [emission, Emission.hostCall, Emission.byWidth, if_neg hWidth, region]
    exact .bind_silent (.callee f l)
      (Writes.bind (operands_writes hArgs) (Writes.act _ _))
  | bind index value body ih =>
    have hValue := writes_part value h.2.1 h.1.2 l
    have hBody := ih h.2.2 slot (value.part l).2
    exact .bind hValue (.bind (.act (.setLocal index _) _) hBody)
  | sequence => exact absurd h id

/-! ## Statements -/

private theorem region_writes {f : Int → Writing Unit} (hWidth : 0 ≤ width)
    (hBody : Writes (f l.nextSlot) (l.opened width) () steps l')
    (hSlot : l'.nextSlot = l.nextSlot + width) :
    Writes (do
      let region ← reserve width
      f region
      release region) l () steps (l'.closed l.nextSlot) := by
  have hBase : l.nextSlot ≤ l'.nextSlot := by omega
  have hAll := Writes.bind (f := fun _ => release l.nextSlot) hBody (Writes.release hBase)
  rw [List.append_nil] at hAll
  exact Writes.bind_silent (Writes.reserve hWidth l) hAll

variable {b : Bounds} {e : Expr} {least : Nat}

/-- **Writing a statement** produces its outline. -/
theorem Stmt.writes_outline {output : Int} (hOutput : l.resultRegion = some output) :
    ∀ s : Stmt, s.Writable b width least →
    Writes s.emission l () (s.outline output l).1 (s.outline output l).2
  | .discard e, h => by
    have hRegion := writes_region e h.2 l.nextSlot (l.opened e.width)
    have hSlot := (grows_region e l.nextSlot (l.opened e.width)).nextSlot
    simp only [emission, Emission.discard, constant_emission, width_emission, outline]
    split
    · exact Writes.pure () l
    · rename_i hWritten
      exact region_writes (f := e.emission.into) (h.1.resolve_left hWritten) hRegion hSlot
  | .assignLocal index e, h =>
    Writes.bind (f := fun c => act (.setLocal index c)) (writes_part e h.2 h.1 l) (Writes.act _ _)
  | .assignVariable v e, h => by
    simp only [emission, Emission.assignVariable, outline]
    by_cases hSize : v.size = 1
    · have hWidth : e.width = 1 := h.1.2.trans (congrArg Int.ofNat hSize)
      simp only [if_pos hSize]
      exact Writes.bind (f := fun c => act (.setVariable v.offset c))
        (writes_part e h.2 hWidth l) (Writes.act _ _)
    · have hRegion := writes_region e h.2 l.nextSlot (l.opened v.size)
      have hSlot := (grows_region e l.nextSlot (l.opened v.size)).nextSlot
      have hStore := Writes.bind
        (f := fun _ => act (.store v.offset v.size l.nextSlot)) hRegion (Writes.act _ _)
      have hBody := region_writes (f := fun region => do
        e.emission.into region
        act (.store v.offset v.size region)) (Int.natCast_nonneg _) hStore hSlot
      simp only [bind_assoc] at hBody
      simp only [if_neg hSize]
      exact hBody
  | .ret e, h => by
    have hRegion := writes_region e h.2 output l
    have hFinish := Writes.bind (f := fun _ => act .finish) hRegion (Writes.act _ _)
    intro d hd
    have hRes : d.layout.resultRegion = some output := by rw [hd, hOutput]
    rw [emission, Emission.ret, get_bind]
    simp only [hRes]
    exact hFinish d hd

theorem Stmt.writes_outlines {output : Int} :
    ∀ stmts : List Stmt, (∀ s ∈ stmts, s.Writable b width least) →
    ∀ l : Layout, l.resultRegion = some output →
    Writes ((emissions stmts).forM id) l () (outlines output stmts l).1 (outlines output stmts l).2
  | [], _, l, _ => Writes.pure () l
  | s :: rest, h, l, hOutput => by
    have hFirst := writes_outline hOutput s (h s List.mem_cons_self)
    have hNext := (grows_outline output s l).resultRegion.trans hOutput
    have hRest := writes_outlines rest (fun s' hs' => h s' (List.mem_cons_of_mem s hs'))
      (s.outline output l).2 hNext
    exact .bind (f := fun _ => _) hFirst hRest

/-- **Writing a source** into a region produces its outline. -/
theorem Expr.writes_rootRegion (h : e.Writable b least) (slot : Int) (l : Layout) :
    Writes (e.emission.into slot) l () (e.rootRegion slot l).1 (e.rootRegion slot l).2 := by
  rcases h.cases with ⟨stmts, width, rfl⟩ | hFits
  · let l₁ : Layout := { l with resultRegion := some slot }
    have hOpen :
        Writes (modify fun d => { d with layout := { d.layout with resultRegion := some slot } })
        l () [] l₁ := by
      intro d hd
      subst hd
      show EStateM.Result.ok () _ = _
      simp [Draft.extend, l₁]
    have hStatements := Stmt.writes_outlines stmts h.2 l₁ rfl
    have hZeros := forM_act_writes (fun i : Nat => .setSlot (slot + i) (.literal 0))
      (List.range width.toNat) (Stmt.outlines slot stmts l₁).2
    exact .bind_silent (f := fun _ => _) hOpen
      (.bind (f := fun _ => _) hStatements hZeros)
  · rw [rootRegion_eq hFits]
    exact writes_region e hFits slot l

/-! ## Whole routines -/

theorem insertActs_behind {α : Type} (f : α → Action) (pre : List (Nat × Line)) (level : Nat)
    (l : Layout) (xs : List α) : ∀ post : List (Nat × Line),
    xs.forM (fun x => insertAct pre.length (f x)) ⟨⟨pre ++ post, level⟩, l⟩ =
      .ok () ⟨⟨pre ++ (listing level (xs.reverse.map fun x => .act (f x)) ++ post), level⟩, l⟩ := by
  induction xs with
  | nil =>
    intro post
    rfl
  | cons x rest ih =>
    intro post
    have hFirst := insertAct_behind pre post level l (f x)
    refine (bind_of_ok hFirst).trans ((ih _).trans ?_)
    simp [listing_cons, lines]

/-- **Writing the body of a routine** produces its outline. -/
theorem Routine.writes_body (h : e.Writable b least) (temps : Nat) (l : Layout) :
    Writes (writeBody e temps) l () (e.body temps l).1 (e.body temps l).2 := by
  have hRegion := Expr.writes_rootRegion h l.nextSlot (l.opened e.width)
  have hMain : Writes (do
      let output ← reserve e.width
      e.emission.into output
      act .finish) l () (e.mainSteps l).1 (e.mainSteps l).2 :=
    Writes.bind_silent (Writes.reserve h.width_nonneg l)
      (Writes.bind (f := fun _ => act .finish) hRegion (Writes.act _ _))
  have hSplit : writeBody e temps = (do
      let header ← mark
      (do
        let output ← reserve e.width
        e.emission.into output
        act .finish)
      let d ← get
      (List.range temps).reverse.forM fun i =>
        insertAct header (.setLocal (d.layout.scratchLocal + 1 + i) (.literal 0))
      insertAct header (.acquire d.layout.extent)) := by
    simp only [writeBody, bind_assoc]
  intro d hd
  let l' := (e.mainSteps l).2
  let after := d.extend (e.mainSteps l).1 l'
  have hMark : mark d = .ok d.listing.lines.length d := rfl
  have hDraft : (get : Writing Draft) after = .ok after after := rfl
  -- both insertions go to the place where the body began
  have hTemps := insertActs_behind (fun i => .setLocal (l'.scratchLocal + 1 + i) (.literal 0))
    d.listing.lines d.listing.level l' (List.range temps).reverse
    (listing d.listing.level (e.mainSteps l).1)
  have hAcquire := insertAct_behind d.listing.lines
    (listing d.listing.level (tempSteps l'.scratchLocal temps) ++
      listing d.listing.level (e.mainSteps l).1) d.listing.level l' (.acquire l'.extent)
  rw [List.reverse_reverse] at hTemps
  rw [hSplit, bind_of_ok hMark, bind_of_ok (hMain d hd), bind_of_ok hDraft]
  refine (bind_of_ok hTemps).trans (hAcquire.trans ?_)
  simp [Draft.extend, Expr.body, listing_cons, lines, l']

/-- **Writing a routine succeeds**, and its lines are those of its outline. -/
theorem Routine.write_outline (h : e.Writable b least) (name : String) (args temps : Nat) :
    write name e args temps (draft args temps) =
      .ok () ⟨⟨(0, .define name args) :: listing 1 (outline name e args temps).body, 0⟩,
        (e.body temps (Layout.start args (args + 1 + temps) 0)).2⟩ :=
  Writes.block (writes_body h temps _) (draft args temps) rfl

theorem Routine.ofLines?_outline (name : String) (e : Expr) (args temps : Nat) :
    ofLines? ((0, .define name args) ::
      listing 1 (outline name e args temps).body) =
      some (outline name e args temps) :=
  ofLines?_define name args _

end MolangCompiler

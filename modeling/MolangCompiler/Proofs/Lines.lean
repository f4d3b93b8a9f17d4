import MolangCompiler.Proofs.Check
import MolangCompiler.Proofs.Placed
import MolangCompiler.Proofs.Written

/-!
# Lines of any routine

Templates may put parts together that do not fit, and then the lines that are written need not mean
anything.  Some things hold of each line all the same: variables are reached only within the store,
values are copied into a variable only from slots within the extent of the layout, and the only line
that asks for a scratch buffer is the first one of the body.

Where a routine is written, there was room for all that its statements discard.
-/

namespace MolangCompiler

open Draft Emission Writing

open Reference (Placed placed_append placed_singleton)

/-! ## Lines and drafts -/

/-- A line whose action or test is checked, whatever is known before it. -/
def Line.Neat (lim : Limits) : Line → Prop
  | .act action => action.Checked lim .all
  | .onlyIf test => test.Checked lim .all
  | .define _ _ => True
  | .otherwise => True

variable {l : Line} {b : Brief} {d : Draft}

theorem Line.Neat.mono {lim lim' : Limits} (hLim : lim.Le lim') (h : l.Neat lim) : l.Neat lim' := by
  cases l with
  | act action => exact .mono hLim (.refl _) h
  | onlyIf test => exact .mono hLim.toPermits (.refl _) h
  | define | otherwise => trivial

/-- What is asked of a draft: its first line, and how many variable slots and values there are. -/
structure Brief where
  first : Nat × Line
  slots : Nat
  returns : Nat

namespace Draft

def limits (b : Brief) (d : Draft) : Limits := .loose d.layout.extent.toNat b.slots b.returns

/-- A draft whose first line is the given one and whose lines are neat. -/
structure Neat (b : Brief) (d : Draft) : Prop where
  head : d.listing.lines.head? = some b.first
  lines : ∀ p ∈ d.listing.lines, p.2.Neat (d.limits b)
  slot : 0 ≤ d.layout.nextSlot

/-- How a draft changes while lines are written. -/
structure Extends (d d' : Draft) : Prop where
  level : d'.listing.level = d.listing.level
  extent : d.layout.extent ≤ d'.layout.extent

def course (b : Brief) : Course Draft where
  ok := Neat b
  le := Extends
  refl _ := ⟨rfl, Int.le_refl _⟩
  trans h h' := ⟨h'.level.trans h.level, Int.le_trans h.extent h'.extent⟩

variable {d : Draft}

theorem Extends.limits {d' : Draft} (hLe : d.Extends d') (b : Brief) :
    (d.limits b).Le (d'.limits b) := by
  refine .loose ?_ (Nat.le_refl _) b.returns
  have hExtent := hLe.extent
  omega

theorem Neat.length_pos (h : d.Neat b) : 1 ≤ d.listing.lines.length := by
  have hHead := h.head
  cases hLines : d.listing.lines with
  | nil =>
    rw [hLines] at hHead
    cases hHead
  | cons => exact Nat.le_add_left 1 _

theorem Neat.insert {place : Nat} (h : d.Neat b) (hPlace : 1 ≤ place) (hLine : l.Neat (d.limits b))
    :
    Neat b ⟨d.listing.insert place l, d.layout⟩ := by
  have hLength := h.length_pos
  have hBehind : 1 ≤ d.listing.place place := by
    unfold Listing.place
    rw [if_neg (by omega)]
    omega
  refine ⟨?_, List.forall_mem_append.mpr ⟨fun p hp => h.lines p (List.mem_of_mem_take hp),
    List.forall_mem_cons.mpr ⟨hLine, fun p hp => h.lines p (List.mem_of_mem_drop hp)⟩⟩, h.slot⟩
  show (d.listing.lines.take (d.listing.place place) ++ _).head? = some b.first
  rw [List.head?_append, List.head?_take, if_neg (by omega), h.head]
  rfl

/-- A line may be added at any level. -/
theorem Neat.line (h : d.Neat b) (hLine : l.Neat (d.limits b)) (level : Nat) :
    Neat b ⟨⟨d.listing.lines ++ [(d.listing.level, l)], level⟩, d.layout⟩ := by
  refine ⟨?_, List.forall_mem_append.mpr ⟨h.lines, List.forall_mem_singleton.mpr hLine⟩, h.slot⟩
  show (d.listing.lines ++ [(d.listing.level, l)]).head? = some b.first
  rw [List.head?_append, h.head]
  rfl

end Draft

/-! ## Writing -/

namespace Writing

variable {b : Brief} {d : Draft}

theorem line_keeps (h : l.Neat (d.limits b)) : Stays (course b) (line l) d :=
  .modify (fun hOk => hOk.line h _) (fun _ => ⟨rfl, Int.le_refl _⟩) fun _ => trivial

theorem act_keeps (action : Action) (h : action.Checked (d.limits b) .all) :
    Stays (course b) (act action) d :=
  line_keeps h

theorem mark_keeps : Keeps (course b) (fun place _ => 1 ≤ place) mark d :=
  .get_bind fun hOk => Keeps.pure hOk.length_pos hOk

theorem insertAct_keeps {place : Nat} (hPlace : 1 ≤ place) (action : Action)
    (h : action.Checked (d.limits b) .all) :
    Stays (course b) (insertAct place action) d :=
  .modify (fun hOk => .insert (l := .act action) hOk hPlace h) (fun _ => ⟨rfl, Int.le_refl _⟩)
    fun _ => trivial

theorem relayout_keeps {l : Layout} (hSlot : 0 ≤ d.layout.nextSlot → 0 ≤ l.nextSlot)
    (hExtent : d.layout.extent ≤ l.extent) :
    Keeps (course b) (fun _ d' => d'.layout = l)
      (modify fun d => { d with layout := l } : Writing Unit) d := by
  have hLe : d.Extends { d with layout := l } := ⟨rfl, hExtent⟩
  refine .modify (fun hOk => ⟨hOk.head, fun p hp => ?_, hSlot hOk.slot⟩) (fun _ => hLe) fun _ => rfl
  exact (hOk.lines p hp).mono (hLe.limits b)

theorem freshLocal_keeps : Stays (course b) freshLocal d :=
  .get_bind (.bind_pure (relayout_keeps id (Int.le_refl _)))

theorem callee_keeps (f : String) : Stays (course b) (callee f) d := by
  have hSame : (d.layout.bind f "fn").2.nextSlot = d.layout.nextSlot ∧
      (d.layout.bind f "fn").2.extent = d.layout.extent := by
    unfold Layout.bind
    split <;> exact ⟨rfl, rfl⟩
  refine .get_bind (.bind_pure (relayout_keeps ?_ ?_))
  · exact fun hSlot => Int.le_trans hSlot (Int.le_of_eq hSame.1.symm)
  · exact Int.le_of_eq hSame.2.symm

theorem reserve_keeps (width : Int) : Keeps (course b)
      (fun base d' => 0 ≤ width ∧ 0 ≤ base ∧ base + width ≤ d'.layout.extent)
      (reserve width) d := by
  unfold reserve Layout.reserve
  refine .get_bind ?_
  by_cases hWidth : width < 0
  · rw [if_pos hWidth]
    exact .throw
  · rw [if_neg hWidth]
    intro hOk
    have hSlot := hOk.slot
    refine Keeps.bind (relayout_keeps ?_ ?_) (fun _ d' _ _ hLayout => .pure ?_) hOk
    · intro _
      show 0 ≤ d.layout.nextSlot + width
      omega
    · exact Int.le_max_left _ _
    · rw [hLayout]
      exact ⟨by omega, hSlot, Int.le_max_right _ _⟩

theorem release_keeps {base : Int} (hBase : 0 ≤ base) : Stays (course b) (release base) d := by
  unfold release Layout.release
  refine .get_bind ?_
  by_cases hFree : d.layout.nextSlot < base
  · rw [if_pos hFree]
    exact .throw
  · rw [if_neg hFree]
    exact .forget (relayout_keeps (fun _ => hBase) (Int.le_refl _))

/-- A block leaves the level as it was, even if its body has a problem. -/
theorem block_keeps (header : Line) {body : Writing Unit} (hHeader : header.Neat (d.limits b))
    (hBody : ∀ d, Stays (course b) body d) : Stays (course b) (block header body) d := by
  intro hOk
  let opened : Draft := { d with listing := (d.listing.line header).indent }
  have hOpened : opened.Neat b := hOk.line hHeader _
  -- only the level tells the draft behind the block from the one behind its body
  have hClosed {d' : Draft} (hLe : opened.Extends d') :
      d.Extends { d' with listing := d'.listing.dedent } := by
    refine ⟨?_, hLe.extent⟩
    show d'.listing.level - 1 = d.listing.level
    rw [hLe.level]
    rfl
  have hEnd := hBody opened hOpened
  unfold block
  dsimp only
  change Ends _ _ (body { d with listing := (d.listing.line header).indent }) at hEnd
  generalize body { d with listing := (d.listing.line header).indent } = out at hEnd ⊢
  cases hEnd with
  | ok hEnd => exact .ok ⟨⟨hEnd.1.head, hEnd.1.lines, hEnd.1.slot⟩, hClosed hEnd.2.1, hEnd.2.2⟩
  | error hEnd => exact .error ⟨⟨hEnd.1.head, hEnd.1.lines, hEnd.1.slot⟩, hClosed hEnd.2⟩

end Writing

/-! ## Ways of writing an expression -/

/-- A code that reaches variables only within the slots that there are. -/
def Code.Neat (b : Brief) (c : Code) : Prop := c.Checked (.loose 0 b.slots b.returns) .all

theorem Code.Neat.checked {c : Code} (h : c.Neat b) (d : Draft) : c.Checked (d.limits b) .all :=
  Checked.mono (Limits.Le.loose (Nat.zero_le _) (Nat.le_refl _) b.returns).toPermits (.refl _) c h

theorem Code.Neat.allChecked {cs : List Code} (h : ∀ c ∈ cs, c.Neat b) (d : Draft) :
    AllChecked (d.limits b) .all cs :=
  (allChecked_iff cs).mpr fun c hc => (h c hc).checked d

/-- The same of a text with code in it. -/
abbrev Writing.Codes (b : Brief) : Writing Code → Draft → Prop :=
  Keeps (Draft.course b) fun c _ => c.Neat b

/-- Both ways of writing an expression keep drafts neat. -/
structure Emission.Sound (b : Brief) (em : Emission) : Prop where
  scalar : ∀ d, Writing.Codes b em.scalar d
  into : ∀ slot d, Stays (Draft.course b) (em.into slot) d

namespace Emission

variable {b : Brief} {scalar : Writing Code} {ems : List Emission} {value : Emission}

theorem storeScalar_keeps {slot : Int} (h : Codes b scalar d) :
    Stays (course b) (storeScalar scalar slot) d :=
  .bind h fun c d₁ _ _ hCode => act_keeps (.setSlot slot c) ⟨trivial, hCode.checked d₁⟩

theorem Sound.ofScalar {constant : Bool} (h : ∀ d, Codes b scalar d) :
    (ofScalar constant scalar).Sound b :=
  ⟨h, fun _ d => storeScalar_keeps (h d)⟩

theorem Sound.byWidth {kind : String} {width : Int} {constant : Bool} {into : Int → Writing Unit}
    (hScalar : width = 1 → ∀ d, Codes b scalar d)
    (hInto : width ≠ 1 → ∀ slot d, Stays (course b) (into slot) d) :
    (byWidth kind width constant scalar into).Sound b := by
  unfold Emission.byWidth
  by_cases hOne : width = 1
  · rw [if_pos hOne]
    exact ⟨hScalar hOne, fun _ d => storeScalar_keeps (hScalar hOne d)⟩
  · rw [if_neg hOne]
    exact ⟨fun _ => .throw, hInto hOne⟩

/-! ### Parts of an operation -/

theorem inOrder_keeps : (∀ em ∈ ems, em.Sound b) → ∀ d, Keeps (course b)
      (fun parts _ => ∀ p ∈ parts, p.2.1.Neat b ∧ 1 ≤ p.2.2) (inOrder ems) d := by
  induction ems with
  | nil => exact fun _ d => .pure (List.forall_mem_nil _)
  | cons em rest ih =>
    intro h d
    obtain ⟨hFirst, hRest⟩ := List.forall_mem_cons.mp h
    refine .bind (hFirst.scalar d) fun c d₁ _ _ hCode => ?_
    refine .bind mark_keeps fun place d₂ _ _ hPlace => ?_
    refine .bind (ih hRest d₂) fun others d₃ _ _ hOthers => .pure ?_
    exact List.forall_mem_cons.mpr ⟨⟨hCode, hPlace⟩, hOthers⟩

theorem setAside_keeps (last : Nat) (parts : List (Bool × Code × Nat)) :
    (∀ p ∈ parts, p.2.1.Neat b ∧ 1 ≤ p.2.2) → ∀ d,
    Keeps (course b) (fun codes _ => ∀ c ∈ codes, c.Neat b) (setAside last parts) d := by
  induction parts with
  | nil => exact fun _ d => .pure (List.forall_mem_nil _)
  | cons p rest ih =>
    intro hAll d
    obtain ⟨constant, code, place⟩ := p
    obtain ⟨hPart, hRest⟩ := List.forall_mem_cons.mp hAll
    refine .bind (ih hRest d) fun others d₁ _ _ hOthers => ?_
    split
    · refine .bind freshLocal_keeps fun index d₂ _ _ _ => ?_
      refine .bind (insertAct_keeps hPart.2 (.setLocal index code)
        (hPart.1.checked d₂)) fun _ _ _ _ _ => .pure ?_
      exact List.forall_mem_cons.mpr ⟨trivial, hOthers⟩
    · exact .pure (List.forall_mem_cons.mpr ⟨hPart.1, hOthers⟩)

theorem operands_keep (h : ∀ em ∈ ems, em.Sound b) (d : Draft) :
    Keeps (course b) (fun codes _ => ∀ c ∈ codes, c.Neat b) (operands ems) d := by
  refine .bind (inOrder_keeps h d) fun parts d₁ _ _ hParts => ?_
  exact .bind mark_keeps fun last d₂ _ _ _ => setAside_keeps last parts hParts d₂

/-! ### Kinds of expressions -/

theorem forM_keeps {α : Type} {f : α → Writing Unit} (xs : List α)
    (hf : ∀ x ∈ xs, ∀ d, Stays (course b) (f x) d) :
    ∀ d, Stays (course b) (xs.forM f) d := by
  induction xs with
  | nil => exact fun d => .pure trivial
  | cons x rest ih =>
    intro d
    obtain ⟨hFirst, hRest⟩ := List.forall_mem_cons.mp hf
    exact .bind (hFirst d) fun _ d₁ _ _ _ => ih hRest d₁

theorem setNumber_keeps (slot : Int) (x : Float) (d : Draft) :
    Stays (course b) (act (.setSlot slot (.literal x))) d :=
  act_keeps _ ⟨trivial, trivial⟩

theorem Sound.ofConstant (vs : List Float) : (Emission.ofConstant vs).Sound b where
  scalar d := by
    unfold Emission.ofConstant
    split
    · exact .pure trivial
    · exact .throw
  into slot d := forM_keeps vs.zipIdx (fun p _ => setNumber_keeps (slot + (p.2 : Nat)) p.1) d

theorem Sound.ofVariable {v : Variable} (hStop : v.stop ≤ b.slots) : (ofVariable v).Sound b := by
  have hSpan : v.offset + v.size ≤ b.slots := hStop
  refine .byWidth (fun hOne d => .pure ?_) fun _ slot d => ?_
  · show v.offset < b.slots
    omega
  · exact act_keeps (.load slot v.offset v.size) ⟨trivial, hSpan⟩

theorem Sound.unary (make : Code → Code) {operand : Emission}
    (hMake : ∀ c : Code, c.Neat b → (make c).Neat b) (h : operand.Sound b) :
    (unary make operand).Sound b :=
  .ofScalar fun d => .bind (h.scalar d) fun c _ _ _ hCode => .pure (hMake c hCode)

theorem Sound.binary (op : BinaryOp) {left right : Emission} (hLeft : left.Sound b)
    (hRight : right.Sound b) : (binary op left right).Sound b := by
  refine .ofScalar fun d => ?_
  have hBoth : ∀ em ∈ [left, right], em.Sound b :=
    List.forall_mem_cons.mpr ⟨hLeft, List.forall_mem_singleton.mpr hRight⟩
  refine .bind (operands_keep hBoth d) fun codes d₁ _ _ hCodes => ?_
  split
  · rename_i l r
    exact .pure ⟨hCodes l (by simp), hCodes r (by simp)⟩
  · exact .pure trivial

theorem keepScalar_keeps {em : Emission} (h : em.Sound b) (make : Code → Action)
    (hMake : ∀ (c : Code) (d : Draft), c.Neat b → (make c).Checked (d.limits b) .all) (d : Draft) :
    Stays (course b) (do let c ← em.scalar; act (make c)) d :=
  .bind (h.scalar d) fun c d₁ _ _ hCode => act_keeps (make c) (hMake c d₁ hCode)

theorem Sound.logical (op : LogicalOp) {left right : Emission} (hLeft : left.Sound b)
    (hRight : right.Sound b) : (logical op left right).Sound b := by
  refine .ofScalar fun d => ?_
  refine .bind freshLocal_keeps fun result d₁ _ _ _ => ?_
  refine .bind (hLeft.scalar d₁) fun l d₂ _ _ hCode => ?_
  have hTest : (op.openTest l).Checked (d₂.limits b) .all := by
    cases op <;> exact hCode.checked d₂
  refine .bind (block_keeps (.onlyIf _) hTest (keepScalar_keeps hRight (.setTruth result)
    fun c d hc => hc.checked d)) fun _ d₃ _ _ _ => ?_
  exact .bind (block_keeps .otherwise trivial fun d =>
    act_keeps (.setLocal result (.literal op.settled)) trivial) fun _ d₄ _ _ _ => .pure trivial

theorem Sound.ternary {cond yes no : Emission} (hCondition : cond.Sound b) (hYes : yes.Sound b)
    (hNo : no.Sound b) : (ternary cond yes no).Sound b := by
  refine .byWidth (fun _ d => ?_) fun _ slot d => ?_
  · refine .bind freshLocal_keeps fun result d₁ _ _ _ => ?_
    refine .bind (hCondition.scalar d₁) fun c d₂ _ _ hCode => ?_
    have hSet {em : Emission} (h : em.Sound b) :=
      keepScalar_keeps h (.setLocal result) fun c d hc => hc.checked d
    refine .bind (block_keeps (.onlyIf (.holds c)) (hCode.checked d₂) (hSet hYes))
      fun _ d₃ _ _ _ => ?_
    exact .bind (block_keeps .otherwise trivial (hSet hNo)) fun _ d₄ _ _ _ => .pure trivial
  · refine .bind (hCondition.scalar d) fun c d₁ _ _ hCode => ?_
    refine .bind (block_keeps (.onlyIf (.holds c)) (hCode.checked d₁) (hYes.into slot))
      fun _ d₂ _ _ _ => ?_
    exact block_keeps .otherwise trivial (hNo.into slot)

theorem Sound.vector (h : ∀ em ∈ ems, em.Sound b) : (vector ems).Sound b where
  scalar d := by
    match ems, h with
    | [em], h => exact (h em List.mem_cons_self).scalar d
    | [], _ | _ :: _ :: _, _ => exact .throw
  into slot d := forM_keeps ems.zipIdx
    (fun p hp => (h p.1 (List.fst_mem_of_mem_zipIdx hp)).into (slot + (p.2 : Nat))) d

theorem Sound.helperCall (helper : Helper) (h : ∀ em ∈ ems, em.Sound b) :
    (helperCall helper ems).Sound b :=
  .ofScalar fun d => .bind (operands_keep h d) fun codes _ _ _ hCodes =>
    .pure ⟨trivial, (Code.allChecked_iff codes).mpr hCodes⟩

theorem Sound.hostCall (function : String) (width : Int) (h : ∀ em ∈ ems, em.Sound b) :
    (hostCall function ems width).Sound b := by
  refine .byWidth (fun _ d => ?_) fun _ slot d => ?_
  · refine .bind (callee_keeps function) fun f d₁ _ _ _ => ?_
    exact .bind (operands_keep h d₁) fun codes d₂ _ _ hCodes =>
      .pure ⟨trivial, (Code.allChecked_iff codes).mpr hCodes⟩
  · refine .bind (callee_keeps function) fun f d₁ _ _ _ => ?_
    exact .bind (operands_keep h d₁) fun codes d₂ _ _ hCodes => act_keeps
      (.setSlots slot width.toNat f codes) ⟨trivial, trivial, Code.Neat.allChecked hCodes d₂⟩

theorem Sound.bind (index : Nat) {body : Emission} (hValue : value.Sound b) (hBody : body.Sound b) :
    (bind index value body).Sound b := by
  have hSet {α : Type} {next : Writing α} {p : α → Draft → Prop} (d : Draft)
      (hNext : ∀ d', Keeps (course b) p next d') :
      Keeps (course b) p (do let v ← value.scalar; act (.setLocal index v); next) d := by
    refine .bind (hValue.scalar d) fun v d₁ _ _ hCode => ?_
    exact .bind (act_keeps (.setLocal index v) (hCode.checked d₁)) fun _ d₂ _ _ _ => hNext d₂
  exact ⟨fun d => hSet d hBody.scalar, fun slot d => hSet d (hBody.into slot)⟩

theorem sequence_keeps {stmts : List (Writing Unit)} (width : Int) {φ : Prop}
    (h : ∀ d, Keeps (course b) (fun _ _ => φ) (stmts.forM id) d) (slot : Int) (d : Draft) :
    Keeps (course b) (fun _ _ => φ) ((sequence stmts width).into slot) d := by
  refine .bind (relayout_keeps (l := { d.layout with resultRegion := some slot }) id
    (Int.le_refl _)) fun _ d₁ _ _ _ => ?_
  refine .bind (h d₁) fun _ d₂ _ _ hφ => ?_
  exact .mono (forM_keeps (List.range width.toNat)
    (fun i _ => setNumber_keeps (slot + (i : Nat)) 0) d₂) fun _ d₃ _ _ _ => hφ

/-! ### Kinds of statements -/

theorem discard_keeps (h : value.Sound b) (d : Draft) :
    Keeps (course b) (fun _ _ => value.constant = true ∨ 0 ≤ value.width) (discard value) d := by
  unfold discard
  split
  · rename_i hConstant
    exact .pure (.inl hConstant)
  · refine .bind (reserve_keeps value.width) fun region d₁ _ _ hRegion => ?_
    refine .bind (h.into region d₁) fun _ d₂ _ _ _ => ?_
    exact .mono (release_keeps hRegion.2.1) fun _ d₃ _ _ _ => .inr hRegion.1

/-- A variable is assigned only from slots within the extent. -/
theorem assignVariable_keeps {v : Variable} (hStop : v.stop ≤ b.slots) (h : value.Sound b)
    (d : Draft) : Stays (course b) (assignVariable v value) d := by
  have hSpan : v.offset + v.size ≤ b.slots := hStop
  unfold assignVariable
  split
  · refine keepScalar_keeps h (.setVariable v.offset) (fun c d hc => ⟨?_, hc.checked d⟩) d
    show v.offset < b.slots
    omega
  · refine .bind (reserve_keeps v.size) fun region d₁ _ _ hRegion => ?_
    refine .bind (h.into region d₁) fun _ d₂ _ hLe₂ _ => ?_
    have hExtent := hLe₂.extent
    have hStore : (Action.store v.offset v.size region).Checked (d₂.limits b) .all := by
      refine ⟨hSpan, ⟨hRegion.2.1, ?_⟩, fun _ _ _ => trivial⟩
      show region + v.size ≤ ((d₂.layout.extent.toNat : Nat) : Int)
      omega
    exact .bind (act_keeps _ hStore) fun _ d₃ _ _ _ => release_keeps hRegion.2.1

theorem ret_keeps (h : value.Sound b) (d : Draft) : Stays (course b) (ret value) d := by
  refine .get_bind ?_
  split
  · exact .throw
  · rename_i slot _
    exact .bind (h.into slot d) fun _ d₁ _ _ _ => act_keeps .finish fun _ _ => trivial

end Emission

mutual

/-- **Every way of writing an expression** keeps drafts neat. -/
theorem Expr.sound_emission : ∀ e : Expr, e.Placed b.slots → e.emission.Sound b
  | .constant vs, _ => .ofConstant vs
  | .localRead _ _, _ => .ofScalar fun _ => .pure trivial
  | .variableRead _, h => .ofVariable (placed_singleton.mp h)
  | .negate operand, h => .unary .negate (fun _ hc => hc) (Expr.sound_emission operand h)
  | .not operand, h => .unary .not (fun _ hc => hc) (Expr.sound_emission operand h)
  | .binary op left right, h => .binary op (Expr.sound_emission left (placed_append.mp h).1)
    (Expr.sound_emission right (placed_append.mp h).2)
  | .logical op left right, h => .logical op (Expr.sound_emission left (placed_append.mp h).1)
    (Expr.sound_emission right (placed_append.mp h).2)
  | .ternary cond yes no, h => by
    obtain ⟨hBoth, hNo⟩ := placed_append.mp h
    obtain ⟨hCondition, hYes⟩ := placed_append.mp hBoth
    exact .ternary (Expr.sound_emission cond hCondition) (Expr.sound_emission yes hYes)
      (Expr.sound_emission no hNo)
  | .vector es, h => .vector (Expr.sound_emissions es h)
  | .helperCall helper args, h => .helperCall helper (Expr.sound_emissions args h)
  | .hostCall f args width, h => .hostCall f width (Expr.sound_emissions args h)
  | .bind index value body, h =>
    .bind index (Expr.sound_emission value (placed_append.mp h).1)
      (Expr.sound_emission body (placed_append.mp h).2)
  | .sequence stmts width, h =>
    ⟨fun _ => .throw,
      fun slot d => .forget (sequence_keeps width (Stmt.keeps_emissions stmts h) slot d)⟩

theorem Expr.sound_emissions : ∀ es : List Expr, Placed b.slots (Expr.referencesOf es) →
    ∀ em ∈ Expr.emissions es, em.Sound b
  | [], _ => List.forall_mem_nil _
  | e :: rest, h =>
    List.forall_mem_cons.mpr ⟨Expr.sound_emission e (placed_append.mp h).1,
      Expr.sound_emissions rest (placed_append.mp h).2⟩

theorem Stmt.keeps_emission : ∀ s : Stmt, s.Placed b.slots → ∀ d,
    Keeps (course b) (fun _ _ => s.Roomy) s.emission d
  | .discard e, h, d => by
    have hRoom := discard_keeps (Expr.sound_emission e h) d
    rwa [Expr.constant_emission, Expr.width_emission] at hRoom
  | .assignLocal index e, h, d =>
    keepScalar_keeps (Expr.sound_emission e h) (.setLocal index) (fun _ d hc => hc.checked d) d
  | .assignVariable _ e, h, d => assignVariable_keeps (placed_singleton.mp (placed_append.mp h).2)
    (Expr.sound_emission e (placed_append.mp h).1) d
  | .ret e, h, d => ret_keeps (Expr.sound_emission e h) d

theorem Stmt.keeps_emissions : ∀ stmts : List Stmt,
    Placed b.slots (Stmt.referencesOf stmts) → ∀ d,
    Keeps (course b) (fun _ _ => ∀ s ∈ stmts, s.Roomy) ((Stmt.emissions stmts).forM id) d
  | [], _, _ => .pure (List.forall_mem_nil _)
  | s :: rest, h, d =>
    .bind (Stmt.keeps_emission s (placed_append.mp h).1 d) fun _ d₁ _ _ hFirst =>
      .mono (Stmt.keeps_emissions rest (placed_append.mp h).2 d₁) fun _ _ _ _ hRest =>
        List.forall_mem_cons.mpr ⟨hFirst, hRest⟩

end

theorem Expr.keeps_root (e : Expr) (h : e.Placed b.slots) (slot : Int) (d : Draft) :
    Keeps (course b) (fun _ _ => e.Roomy) (e.emission.into slot) d := by
  cases e with
  | sequence stmts width => exact sequence_keeps width (Stmt.keeps_emissions stmts h) slot d
  | _ => exact (sound_emission _ h).into slot d

/-! ## Whole routines -/

namespace Routine

def Piece.Checked (lim : Limits) : Piece → Prop
  | .step s => s.Checked lim .all
  | .orElse block => Step.AllChecked lim .all block
  | .definition _ _ block => Step.AllChecked lim .all block

variable {lim : Limits} {name : String} {r : Routine}

theorem allChecked_cons {s : Step} {rest : List Step} (h : s.Checked lim .all)
    (hRest : Step.AllChecked lim .all rest) : Step.AllChecked lim .all (s :: rest) :=
  ⟨h, .mono (.refl lim) (Step.le_after .all s) rest hRest⟩

theorem takeBlock_checked (level : Nat) (pieces : List (Nat × Piece)) :
    (∀ p ∈ pieces, p.2.Checked lim) → Step.AllChecked lim .all (takeBlock level pieces).1 ∧
      ∀ p ∈ (takeBlock level pieces).2, p.2.Checked lim := by
  induction pieces with
  | nil => exact fun h => ⟨trivial, h⟩
  | cons p rest ih =>
    intro h
    obtain ⟨k, piece⟩ := p
    cases piece with
    | step s =>
      obtain ⟨hFirst, hRest⟩ := List.forall_mem_cons.mp h
      unfold takeBlock
      split
      · exact ⟨allChecked_cons hFirst (ih hRest).1, (ih hRest).2⟩
      · exact ⟨trivial, h⟩
    | orElse | definition => exact ⟨trivial, h⟩

theorem takeOrElse_checked (level : Nat) (pieces : List (Nat × Piece))
    (h : ∀ p ∈ pieces, p.2.Checked lim) : Step.AllChecked lim .all (takeOrElse level pieces).1 ∧
      ∀ p ∈ (takeOrElse level pieces).2, p.2.Checked lim := by
  cases pieces with
  | nil => exact ⟨trivial, h⟩
  | cons p rest =>
    obtain ⟨k, piece⟩ := p
    cases piece with
    | orElse block =>
      unfold takeOrElse
      dsimp only
      split
      · exact List.forall_mem_cons.mp h
      · exact ⟨trivial, h⟩
    | step | definition => exact ⟨trivial, h⟩

theorem absorb_checked {line : Nat × Line} (hLine : line.2.Neat lim) {behind : List (Nat × Piece)}
    (h : ∀ p ∈ behind, p.2.Checked lim) :
    ∀ p ∈ absorb line behind, p.2.Checked lim := by
  obtain ⟨level, l⟩ := line
  have hInner := takeBlock_checked (level + 1) behind h
  cases l with
  | act action => exact List.forall_mem_cons.mpr ⟨hLine, h⟩
  | onlyIf test =>
    have hElse := takeOrElse_checked level _ hInner.2
    exact List.forall_mem_cons.mpr ⟨⟨hLine, hInner.1, hElse.1⟩, hElse.2⟩
  | otherwise | define => exact List.forall_mem_cons.mpr hInner

theorem foldr_absorb_checked (lines : List (Nat × Line)) :
    (∀ p ∈ lines, p.2.Neat lim) → ∀ p ∈ lines.foldr absorb [], p.2.Checked lim := by
  induction lines with
  | nil => exact fun _ => List.forall_mem_nil _
  | cons line rest ih =>
    intro h
    obtain ⟨hLine, hRest⟩ := List.forall_mem_cons.mp h
    exact absorb_checked hLine (ih hRest)

/-- Lines that start with a header and ask for a buffer first are read back as a routine that asks
for a buffer first. -/
theorem body_of_ofLines? {params : Nat} {slots : Int} {lines : List (Nat × Line)}
    (hLines : ∀ p ∈ lines, p.2.Neat lim)
    (h : ofLines? ((0, .define name params) :: (1, .act (.acquire slots)) :: lines) = some r) :
    ∃ rest, r.body = .act (.acquire slots) :: rest ∧ Step.AllChecked lim .all rest := by
  have hBlock := (takeBlock_checked 1 _ (foldr_absorb_checked lines hLines)).1
  unfold ofLines? at h
  split at h
  · rename_i hShape
    cases h
    cases (List.cons.inj hShape).1
    exact ⟨_, rfl, hBlock⟩
  · cases h

theorem write_eq_ok {slots args : Nat} (returns : Nat) {e : Expr} {temps : Nat}
    (hPlaced : e.Placed slots) (h : write name e args temps (draft args temps) = .ok () d) :
    e.Roomy ∧ 0 ≤ e.width ∧ e.width ≤ d.layout.extent ∧
      ∃ lines, (∀ p ∈ lines, p.2.Neat (.loose d.layout.extent.toNat slots returns)) ∧
        d.listing.lines = (0, .define name args) :: (1, .act (.acquire d.layout.extent)) ::
        lines := by
  let b : Brief := ⟨(0, .define name args), slots, returns⟩
  unfold write block at h
  dsimp only at h
  split at h
  on_goal 2 => cases h
  rename_i d' hBody
  cases h
  let start : Draft := ⟨⟨[(0, .define name args)], 1⟩, .start args (args + 1 + temps) 0⟩
  have hStart : Neat b start := ⟨rfl, List.forall_mem_singleton.mpr trivial, Int.le_refl 0⟩
  obtain ⟨header, d₁, hMark, hBody⟩ := bind_eq_ok.mp hBody
  cases hMark
  obtain ⟨output, d₂, hReserve, hBody⟩ := bind_eq_ok.mp hBody
  obtain ⟨_, d₃, hInto, hBody⟩ := bind_eq_ok.mp hBody
  obtain ⟨_, d₄, hFinish, hBody⟩ := bind_eq_ok.mp hBody
  obtain ⟨layout, d₄', hGet, hBody⟩ := bind_eq_ok.mp hBody
  cases hGet
  obtain ⟨_, d₅, hTemps, hAcquire⟩ := bind_eq_ok.mp hBody
  obtain ⟨hNeat₂, hLe₂, hWidth, hOutput, hExtent⟩ := (reserve_keeps e.width).of_ok hStart hReserve
  obtain ⟨hNeat₃, hLe₃, hRoomy⟩ := (Expr.keeps_root e hPlaced output d₂).of_ok hNeat₂ hInto
  obtain ⟨hNeat₄, hLe₄, _⟩ := (act_keeps .finish fun _ _ => trivial).of_ok hNeat₃ hFinish
  obtain ⟨hNeat₅, hLe₅, _⟩ := (forM_keeps (List.range temps).reverse
    (fun i _ d => insertAct_keeps (Nat.le_refl 1) (.setLocal (d₄.layout.scratchLocal + 1 + i)
      (.literal 0)) trivial) d₄).of_ok hNeat₄ hTemps
  have hLevel : d₄.listing.level = 1 := (hLe₄.level.trans hLe₃.level).trans hLe₂.level
  -- all later lines stand behind the header, so this is where the buffer is asked for
  obtain ⟨⟨lines, level⟩, layout⟩ := d₄
  cases hLevel
  cases lines with
  | nil => cases hNeat₄.head
  | cons p rest =>
    cases hNeat₄.head
    have hCleared :=
      insertActs_behind (fun i => .setLocal (layout.scratchLocal + 1 + i) (.literal 0))
      [(0, .define name args)] 1 layout (List.range temps).reverse rest
    cases hCleared.symm.trans hTemps
    cases (insertAct_behind [(0, .define name args)] _ 1 layout
      (.acquire layout.extent)).symm.trans hAcquire
    have hLater := Int.le_trans hLe₃.extent hLe₄.extent
    refine ⟨hRoomy, hWidth, Int.le_trans ?_ hLater, _, fun p hp => ?_, rfl⟩
    · omega
    · exact hNeat₅.lines p (List.mem_cons_of_mem _ hp)

/-- **Every routine that can be loaded is checked** against loose limits. -/
theorem checked_of_load {slots args temps : Nat} {e : Expr} (hPlaced : e.Placed slots)
    (hWrite : write name e args temps (draft args temps) = .ok () d)
    (hLoad : load d.listing.lines = .ok r) :
    r.Checked (.loose d.layout.extent.toNat slots e.width.toNat) .all := by
  obtain ⟨-, hWidth, hExtent, lines, hLines, hEq⟩ := write_eq_ok e.width.toNat hPlaced hWrite
  have hRead := ofLines?_of_load hLoad
  rw [hEq] at hRead
  obtain ⟨rest, hRest, hChecked⟩ := body_of_ofLines? hLines hRead
  have hRoom : d.layout.extent = ((d.layout.extent.toNat : Nat) : Int) := by omega
  refine ⟨⟨rest, ?_, hChecked, fun j _ => (Step.le_afterAll .all rest).slots j trivial⟩, ?_⟩
  · rw [hRest, hRoom]
    rfl
  · show e.width.toNat ≤ d.layout.extent.toNat
    omega

end Routine

end MolangCompiler

import MolangCompiler.Proofs.Check
import MolangCompiler.Proofs.Outline

/-!
# Written routines are checked

The routine of a well-formed tree passes the check.  Each operand is evaluated behind the steps of
all operands, where there are only more facts than behind its own steps, so setting operands aside
needs no argument about which locals are fresh.  A region fills all of its slots on every way
through it.
-/

namespace MolangCompiler

open MolangCompiler.Expr Step

/-- Limits that suit trees within the given bounds. -/
structure Limits.Suits (lim : Limits) (b : Bounds) : Prop where
  slots : b.slots ≤ lim.slots
  writable : ∀ {slot : Int} {size : Nat}, lim.Spans slot size → lim.writable slot size

def Facts.Names (b : Bounds) (K : Facts) : Prop := ∀ i, b.Names i → K.locals i

variable {b : Bounds} {K : Facts} {lim : Limits} {l : Layout} {width : Int}

theorem Facts.Names.mono {K' : Facts} (h : K.Names b) (hLe : K.Le K') :
    K'.Names b := fun i hi => hLe.locals i (h i hi)

/-! ## Parts of an operation -/

namespace Part

variable {lim : Limits} {K K' : Facts}

/-- The steps of a part are checked, and its code behind them. -/
def Checked (lim : Limits) (K : Facts) (p : Part) : Prop :=
  Step.AllChecked lim K p.steps ∧ p.code.Checked lim (Step.afterAll K p.steps)

def ChainChecked (lim : Limits) : Facts → List Part → Prop
  | _, [] => True
  | K, p :: rest => p.Checked lim K ∧ ChainChecked lim (Step.afterAll K p.steps) rest

theorem Checked.mono {p : Part} (hLe : K.Le K') (h : p.Checked lim K) : p.Checked lim K' :=
  ⟨.mono (.refl lim) hLe _ h.1, .mono (.refl lim) (afterAll_mono hLe _) _ h.2⟩

variable {ps : List Part}

theorem ChainChecked.mono :
    ∀ {K K' : Facts}, K.Le K' → ChainChecked lim K ps → ChainChecked lim K' ps := by
  induction ps with
  | nil => exact fun _ _ => trivial
  | cons p rest ih => exact fun hLe h => ⟨h.1.mono hLe, ih (afterAll_mono hLe _) h.2⟩

theorem ChainChecked.steps : ∀ {K : Facts}, ChainChecked lim K ps →
    AllChecked lim K (stepsOf ps) ∧ Code.AllChecked lim (afterAll K (stepsOf ps)) (codesOf ps) := by
  induction ps with
  | nil => exact fun _ => ⟨trivial, trivial⟩
  | cons p rest ih =>
    intro K h
    obtain ⟨hSteps, hCodes⟩ := ih h.2
    have hSplit : stepsOf (p :: rest) = p.steps ++ stepsOf rest := rfl
    rw [hSplit, afterAll_append]
    refine ⟨allChecked_append.mpr ⟨h.1.1, hSteps⟩, ?_, hCodes⟩
    exact .mono (.refl lim) (le_afterAll _ _) _ h.1.2

theorem ChainChecked.setAside (l : Layout) :
    ∀ {K : Facts}, ChainChecked lim K ps → ChainChecked lim K (setAside ps l).1 := by
  induction ps with
  | nil => exact fun _ => trivial
  | cons p rest ih =>
    intro K h
    simp only [Part.setAside]
    split
    · -- the value is kept in a local that is set at once, so reading it is fine
      refine ⟨⟨allChecked_append.mpr ⟨h.1.1, allChecked_act h.1.2⟩, ?_⟩, ?_⟩
      · rw [afterAll_append]
        exact .inl rfl
      · rw [afterAll_append]
        exact (ih h.2).mono (Facts.le_setLocal _ _)
    · exact ⟨h.1, ih h.2⟩

end Part

theorem Code.AllChecked.ofOperands {cs : List Code} (op : BinaryOp) (h : AllChecked lim K cs) :
    (ofOperands op cs).Checked lim K := by
  unfold Code.ofOperands
  split
  · exact ⟨h.1, h.2.1⟩
  · trivial

mutual

/-- **A scalar** reads only locals that have been set and variables that exist. -/
theorem Expr.checked_part (hSlots : b.slots ≤ lim.slots) : ∀ e : Expr,
    e.Each (Fits b) → e.Each (Calls lim.calls) → e.width = 1 → ∀ {K : Facts}, K.Names b →
    ∀ l : Layout, (e.part l).1.Checked lim K
  | .constant _, _, _, _, _, _, _ => ⟨trivial, trivial⟩
  | .localRead index _, hWF, _, _, _, hK, _ => ⟨trivial, hK index hWF⟩
  | .variableRead v, hWF, _, hWidth, _, _, _ => by
    have hStop : v.offset + v.size ≤ b.slots := hWF
    have hSize : (v.size : Int) = 1 := hWidth
    refine ⟨trivial, ?_⟩
    show v.offset < lim.slots
    omega
  | .negate operand, hWF, hCalls, _, _, hK, l | .not operand, hWF, hCalls, _, _, hK, l =>
    checked_part hSlots operand hWF.2 hCalls.2 hWF.1 hK l
  | .binary op left right, hWF, hCalls, _, K, hK, l => by
    have hLeft := checked_part hSlots left hWF.2.1 hCalls.2.1 hWF.1.1 hK l
    have hLater := hK.mono (le_afterAll K (left.part l).1.steps)
    have hRight := checked_part hSlots right hWF.2.2 hCalls.2.2 hWF.1.2 hLater (left.part l).2
    have hBoth : Part.ChainChecked lim K [(left.part l).1, (right.part (left.part l).2).1] :=
      ⟨hLeft, hRight, trivial⟩
    obtain ⟨hSteps, hCodes⟩ := (hBoth.setAside (right.part (left.part l).2).2).steps
    exact ⟨hSteps, hCodes.ofOperands op⟩
  | .logical op left right, hWF, hCalls, _, K, hK, l => by
    let l₁ := (l.reserveLocals 1).2
    have hLeft := checked_part hSlots left hWF.2.1 hCalls.2.1 hWF.1.1 hK l₁
    have hLater := hK.mono (le_afterAll K (left.part l₁).1.steps)
    have hRight := checked_part hSlots right hWF.2.2 hCalls.2.2 hWF.1.2 hLater (left.part l₁).2
    refine ⟨allChecked_append.mpr ⟨hLeft.1, ⟨?_, ?_, ?_⟩, trivial⟩, ?_⟩
    · cases op with
      | and | or => exact hLeft.2
    · exact allChecked_append.mpr ⟨hRight.1, allChecked_act hRight.2⟩
    · exact allChecked_act trivial
    · -- both branches set the result
      show (afterAll K (_ ++ [_])).locals _
      rw [afterAll_append]
      refine ⟨?_, .inl rfl⟩
      rw [afterAll_append]
      exact .inl rfl
  | .ternary cond yes no, hWF, hCalls, hWidth, K, hK, l => by
    let l₁ := (l.reserveLocals 1).2
    let l₂ := (cond.part l₁).2
    have hTest := checked_part hSlots cond hWF.2.1 hCalls.2.1 hWF.1.1 hK l₁
    have hLater := hK.mono (le_afterAll K (cond.part l₁).1.steps)
    have hYes := checked_part hSlots yes hWF.2.2.1 hCalls.2.2.1 hWidth hLater l₂
    have hNo := checked_part hSlots no hWF.2.2.2 hCalls.2.2.2
      (hWF.1.2.symm.trans hWidth) hLater (yes.part l₂).2
    refine ⟨allChecked_append.mpr ⟨hTest.1, ⟨hTest.2, ?_, ?_⟩, trivial⟩, ?_⟩
    · exact allChecked_append.mpr ⟨hYes.1, allChecked_act hYes.2⟩
    · exact allChecked_append.mpr ⟨hNo.1, allChecked_act hNo.2⟩
    · show (afterAll K (_ ++ [_])).locals _
      rw [afterAll_append]
      refine ⟨?_, ?_⟩
      · rw [afterAll_append]
        exact .inl rfl
      · rw [afterAll_append]
        exact .inl rfl
  | .vector elements, hWF, hCalls, _, _, hK, l => by
    have hChain := chainChecked_parts hSlots elements hWF.2 hCalls.2 hWF.1 hK l
    simp only [part]
    split
    · rename_i p hOne
      rw [hOne] at hChain
      exact hChain.1
    · exact ⟨trivial, trivial⟩
  | .helperCall helper args, hWF, hCalls, _, _, hK, l => by
    have hChain := chainChecked_parts hSlots args hWF.2 hCalls.2 hWF.1 hK l
    obtain ⟨hSteps, hCodes⟩ := (hChain.setAside (parts args l).2).steps
    refine ⟨hSteps, ?_, hCodes⟩
    rw [Part.codesOf, List.length_map, Part.length_setAside, length_parts]
    exact hCalls.1
  | .hostCall f args width, hWF, hCalls, _, _, hK, l => by
    have hChain := chainChecked_parts hSlots args hWF.2 hCalls.2 hWF.1 hK (l.bind f "fn").2
    obtain ⟨hSteps, hCodes⟩ := (hChain.setAside (parts args _).2).steps
    exact ⟨hSteps, hCalls.1, hCodes⟩
  | .bind index value body, hWF, hCalls, hWidth, K, hK, l => by
    have hValue := checked_part hSlots value hWF.2.1 hCalls.2.1 hWF.1.2 hK l
    have hLater := hK.mono ((le_afterAll K (value.part l).1.steps).trans
      (Facts.le_setLocal index _))
    have hBody := checked_part hSlots body hWF.2.2 hCalls.2.2 hWidth hLater (value.part l).2
    refine ⟨allChecked_append.mpr ⟨hValue.1, hValue.2, hBody.1⟩, ?_⟩
    show Code.Checked lim (afterAll K (_ ++ _)) _
    rw [afterAll_append]
    exact hBody.2
  | .sequence _ _, hWF, _, _, _, _, _ => absurd hWF id

theorem Expr.chainChecked_parts (hSlots : b.slots ≤ lim.slots) :
    ∀ es : List Expr, EachOf (Fits b) es →
    EachOf (Calls lim.calls) es → (∀ e ∈ es, e.width = 1) → ∀ {K : Facts}, K.Names b →
    ∀ l : Layout, Part.ChainChecked lim K (parts es l).1
  | [], _, _, _, _, _, _ => trivial
  | e :: rest, hWF, hCalls, hWidth, K, hK, l => by
    have hFirst := checked_part hSlots e hWF.1 hCalls.1 (hWidth e List.mem_cons_self) hK l
    have hLater := hK.mono (le_afterAll K (e.part l).1.steps)
    exact ⟨hFirst, chainChecked_parts hSlots rest hWF.2 hCalls.2
      (fun e' he' => hWidth e' (List.mem_cons_of_mem e he')) hLater (e.part l).2⟩

end

/-! ## Regions -/

/-- Steps are checked and fill neighbouring slots. -/
structure Step.Fills (lim : Limits) (K : Facts) (slot : Int) (size : Nat) (steps : List Step) :
    Prop where
  checked : AllChecked lim K steps
  written : ∀ j, slot.toNat ≤ j → j < slot.toNat + size → (afterAll K steps).slots j

namespace Step.Fills

variable {lim : Limits} {K : Facts} {slot : Int} {size : Nat} {xs ys : List Step}

theorem behind (hXs : AllChecked lim K xs) (hYs : Fills lim (afterAll K xs) slot size ys) :
    Fills lim K slot size (xs ++ ys) where
  checked := allChecked_append.mpr ⟨hXs, hYs.checked⟩
  written j hLow hHigh := by
    rw [afterAll_append]
    exact hYs.written j hLow hHigh

theorem append {n : Nat} (hSlot : 0 ≤ slot) (hXs : Fills lim K slot size xs)
    (hYs : Fills lim (afterAll K xs) (slot + size) n ys) :
    Fills lim K slot (size + n) (xs ++ ys) where
  checked := allChecked_append.mpr ⟨hXs.checked, hYs.checked⟩
  written j hLow hHigh := by
    rw [afterAll_append]
    by_cases hFirst : j < slot.toNat + size
    · exact (le_afterAll _ ys).slots j (hXs.written j hLow hFirst)
    · exact hYs.written j (by omega) (by omega)

theorem stored {p : Part × Layout} (hPart : p.1.Checked lim K) (hSlot : lim.writable slot 1) :
    Fills lim K slot 1 (Part.stored slot p).1 :=
  behind hPart.1 ⟨allChecked_act ⟨hSlot, hPart.2⟩, fun _ hLow hHigh => .inl ⟨hLow, hHigh⟩⟩

end Step.Fills

/-- Actions that are checked whatever is known: each leaves its facts behind. -/
theorem Step.checked_actions {α : Type} {f : α → Action} (items : List α) :
    ∀ {K : Facts}, (∀ x ∈ items, ∀ K, (f x).Checked lim K) →
    AllChecked lim K (items.map fun x => .act (f x)) ∧
      ∀ x ∈ items, ((f x).after K).Le (afterAll K (items.map fun x => .act (f x))) := by
  induction items with
  | nil => exact fun _ => ⟨trivial, List.forall_mem_nil _⟩
  | cons x rest ih =>
    intro K hAll
    obtain ⟨hChecked, hLeft⟩ :=
      ih (K := (f x).after K) fun y hy => hAll y (List.mem_cons_of_mem x hy)
    refine ⟨⟨hAll x List.mem_cons_self K, hChecked⟩, fun y hy => ?_⟩
    rcases List.mem_cons.mp hy with rfl | hy
    · exact le_afterAll ((f y).after K) _
    · exact (Action.after_mono (Action.le_after K (f x)) (f y)).trans (hLeft y hy)

section

variable {b : Bounds} {lim : Limits} {K : Facts} {slot : Int}

namespace Limits

/-- Neighbouring slots may be written, all of them and some of them. -/
structure Frees (lim : Limits) (slot : Int) (size : Nat) : Prop where
  nonneg : 0 ≤ slot
  writable : ∀ {slot' : Int} {size' : Nat}, slot ≤ slot' → slot' + size' ≤ slot + size →
    lim.writable slot' size'

theorem Suits.frees (hSuits : lim.Suits b) {size : Nat} (hSpan : lim.Spans slot size) :
    lim.Frees slot size := by
  obtain ⟨hNonneg, hRoom⟩ := hSpan
  refine ⟨hNonneg, fun hLow hHigh => hSuits.writable ?_⟩
  unfold Spans
  omega

namespace Frees

variable {size : Nat}

theorem all (hFree : lim.Frees slot size) : lim.writable slot size :=
  hFree.writable (Int.le_refl _) (Int.le_refl _)

theorem part (hFree : lim.Frees slot size) {slot' : Int} {size' : Nat} (hLow : slot ≤ slot')
    (hHigh : slot' + size' ≤ slot + size) : lim.Frees slot' size' := by
  refine ⟨Int.le_trans hFree.nonneg hLow, fun hLow' hHigh' => hFree.writable ?_ ?_⟩
  · exact Int.le_trans hLow hLow'
  · exact Int.le_trans hHigh' hHigh

end Frees

end Limits

/-- Numbers that are stored side by side: item `x` goes to the slot `place x` behind the first. -/
theorem fills_numbers {α : Type} {size : Nat} (hFree : lim.Frees slot size)
    (items : List α) (place : α → Nat) (m : α → Float) (hPlace : ∀ x ∈ items, place x < size)
    (hAll : ∀ i < size, ∃ x ∈ items, place x = i) :
    Fills lim K slot size
      (items.map fun x => .act (.setSlot (slot + place x) (.literal (m x)))) := by
  obtain ⟨hChecked, hLeft⟩ := checked_actions (K := K)
    (f := fun x => .setSlot (slot + place x) (.literal (m x))) items
    fun x hx _ => by
      have hIn := hPlace x hx
      exact ⟨hFree.writable (by omega) (by omega), trivial⟩
  refine ⟨hChecked, fun j hLow hHigh => ?_⟩
  obtain ⟨x, hx, hi⟩ := hAll (j - slot.toNat) (by omega)
  refine (hLeft x hx).slots j (.inl ?_)
  have hNonneg := hFree.nonneg
  omega

private theorem fills_literalSteps {xs : List Float} (hFree : lim.Frees slot xs.length) :
    Fills lim K slot xs.length (literalSteps slot xs) := by
  refine fills_numbers hFree xs.zipIdx Prod.snd Prod.fst ?_ ?_
  · rintro ⟨x, i⟩ hp
    have hi := (List.mem_zipIdx hp).2.1
    omega
  · intro i hi
    exact ⟨(xs[i], i), List.mk_mem_zipIdx_iff_getElem?.mpr (List.getElem?_eq_getElem hi), rfl⟩

private theorem fills_zeroSteps {count : Nat} (hFree : lim.Frees slot count) :
    Fills lim K slot count (zeroSteps slot count) :=
  fills_numbers hFree (List.range count) id (fun _ => 0)
    (fun _ hi => List.mem_range.mp hi) fun i hi => ⟨i, List.mem_range.mpr hi, rfl⟩

theorem Expr.fills_regions {es : List Expr} (hWidth : ∀ e ∈ es, e.width = 1)
    (h : ∀ e ∈ es, ∀ {slot : Int} {K : Facts}, lim.Frees slot e.width.toNat → K.Names b →
      ∀ l, Fills lim K slot e.width.toNat (e.region slot l).1)
    (hFree : lim.Frees slot es.length) (hK : K.Names b) (l : Layout) :
    Fills lim K slot es.length (regions es slot l).1 := by
  induction es generalizing slot K l with
  | nil => exact ⟨trivial, fun j hLow hHigh => absurd hHigh (by simpa using hLow)⟩
  | cons e rest ih =>
    obtain ⟨hFills, hFillsRest⟩ := List.forall_mem_cons.mp h
    obtain ⟨hOne, hOnes⟩ := List.forall_mem_cons.mp hWidth
    rw [hOne] at hFills
    rw [List.length_cons] at hFree
    have hFreeRest : lim.Frees (slot + 1) rest.length := hFree.part (by omega) (by omega)
    have hFirst := hFills (hFree.part (Int.le_refl _) (by omega)) hK l
    have hLater := hK.mono (le_afterAll K (e.region slot l).1)
    have hRest := ih hOnes hFillsRest hFreeRest hLater (e.region slot l).2
    have hBoth := Fills.append (n := rest.length) hFree.nonneg hFirst hRest
    rw [List.length_cons, Nat.add_comm rest.length 1]
    exact hBoth

/-- **A region** is filled completely. -/
theorem Expr.fills_region (hSlots : b.slots ≤ lim.slots) (e : Expr) (hWF : e.Each (Fits b))
    (hCalls : e.Each (Calls lim.calls)) (hFree : lim.Frees slot e.width.toNat)
    (hK : K.Names b) (l : Layout) : Fills lim K slot e.width.toNat (e.region slot l).1 := by
  induction e using region_induction generalizing slot K l with
  | simple e hSimple hWidth =>
    rw [region_of_simple hSimple hWidth]
    rw [hWidth] at hFree ⊢
    exact .stored (checked_part hSlots e hWF hCalls hWidth hK l) hFree.all
  | constant xs => exact fills_literalSteps hFree
  | load v hSize =>
    rw [region, if_neg hSize]
    refine ⟨allChecked_act ⟨hFree.all, ?_⟩, fun j hLow hHigh => ?_⟩
    · exact Nat.le_trans hWF hSlots
    · exact .inl ⟨hLow, hHigh⟩
  | choice cond yes no hWidth ihYes ihNo =>
    rw [region, if_neg hWidth]
    have hSame : no.width.toNat = yes.width.toNat := congrArg Int.toNat hWF.1.2.symm
    have hTest := checked_part hSlots cond hWF.2.1 hCalls.2.1 hWF.1.1 hK l
    have hLater := hK.mono (le_afterAll K (cond.part l).1.steps)
    have hYes := ihYes hWF.2.2.1 hCalls.2.2.1 hFree hLater (cond.part l).2
    rw [hSame] at ihNo
    have hNo := ihNo hWF.2.2.2 hCalls.2.2.2 hFree hLater (yes.region slot (cond.part l).2).2
    refine .behind hTest.1 ⟨⟨⟨hTest.2, hYes.checked, hNo.checked⟩, trivial⟩, ?_⟩
    exact fun j hLow hHigh => ⟨hYes.written j hLow hHigh, hNo.written j hLow hHigh⟩
  | vector es ih =>
    refine fills_regions hWF.1 (fun e he => ?_) hFree hK l
    exact ih e he ((eachOf_iff es).mp hWF.2 e he) ((eachOf_iff es).mp hCalls.2 e he)
  | call f args width hWidth =>
    rw [region, if_neg hWidth]
    have hChain := chainChecked_parts hSlots args hWF.2 hCalls.2 hWF.1 hK (l.bind f "fn").2
    obtain ⟨hSteps, hCodes⟩ := (hChain.setAside (parts args _).2).steps
    refine .behind hSteps ⟨allChecked_act ⟨hCalls.1, hFree.all, hCodes⟩, ?_⟩
    exact fun j hLow hHigh => .inl ⟨hLow, hHigh⟩
  | bind index value body ih =>
    have hValue := checked_part hSlots value hWF.2.1 hCalls.2.1 hWF.1.2 hK l
    have hLater := hK.mono ((le_afterAll K (value.part l).1.steps).trans
      (Facts.le_setLocal index _))
    have hBody := ih hWF.2.2 hCalls.2.2 hFree hLater (value.part l).2
    exact .behind hValue.1 ⟨⟨hValue.2, hBody.checked⟩, hBody.written⟩
  | sequence => exact absurd hWF id

end

/-! ## Statements and whole routines -/

theorem Limits.spans_opened {l' : Layout} (hWidth : 0 ≤ width) (hSlot : 0 ≤ l.nextSlot)
    (hGrows : (l.opened width).Grows l') (hExtent : l'.extent ≤ lim.room) :
    lim.Spans l.nextSlot width.toNat := by
  have hReached : l.nextSlot + width ≤ (l.opened width).extent := Int.le_max_right _ _
  have hLater := hGrows.extent
  unfold Spans
  omega

section

variable {b : Bounds} {lim : Limits} {least : Nat}

/-- A statement of a routine whose result has `width` values and starts at the first slot. -/
theorem Stmt.checked_outline (hSuits : lim.Suits b) (hResult : lim.Spans 0 width.toNat)
    (hReturns : lim.returns ≤ least) {s : Stmt} (hWF : s.Writable b width least)
    (hCalls : s.expr.Each (Calls lim.calls)) (hK : K.Names b) (hSlot : 0 ≤ l.nextSlot)
    (hExtent : (s.outline 0 l).2.extent ≤ lim.room) :
    AllChecked lim K (s.outline 0 l).1 := by
  have hExpr := hWF.2
  cases s with
  | discard e =>
    simp only [outline] at hExtent ⊢
    split
    · trivial
    · rename_i hWritten
      rw [if_neg hWritten] at hExtent
      have hSpan := Limits.spans_opened (hWF.1.resolve_left hWritten) hSlot
        (grows_region e l.nextSlot (l.opened e.width)) hExtent
      exact (fills_region hSuits.slots e hExpr hCalls (hSuits.frees hSpan) hK _).checked
  | assignLocal index e =>
    have hPart := checked_part hSuits.slots e hExpr hCalls hWF.1 hK l
    exact allChecked_append.mpr ⟨hPart.1, allChecked_act hPart.2⟩
  | assignVariable v e =>
    have hStop : v.offset + v.size ≤ b.slots := hWF.1.1
    have hSize : e.width = v.size := hWF.1.2
    have hSlots := hSuits.slots
    simp only [outline] at hExtent ⊢
    split
    · rename_i hOne
      have hPart := checked_part hSuits.slots e hExpr hCalls (by rw [hSize, hOne]; rfl) hK l
      refine allChecked_append.mpr ⟨hPart.1, allChecked_act ⟨?_, hPart.2⟩⟩
      omega
    · rename_i hMany
      rw [if_neg hMany] at hExtent
      have hSpan := Limits.spans_opened (Int.natCast_nonneg v.size) hSlot
        (grows_region e l.nextSlot (l.opened v.size)) hExtent
      have hRegion : lim.Spans l.nextSlot e.width.toNat := by
        rw [hSize]
        exact hSpan
      have hFills := fills_region hSuits.slots e hExpr hCalls (hSuits.frees hRegion) hK
        (l.opened v.size)
      rw [hSize] at hFills
      refine allChecked_append.mpr ⟨hFills.checked, allChecked_act ⟨?_, hSpan, ?_⟩⟩
      · exact Nat.le_trans hStop hSlots
      · exact hFills.written
  | ret e =>
    obtain ⟨hLeast, hWidth⟩ := hWF.1
    have hSpan : lim.Spans 0 e.width.toNat := by
      unfold Limits.Spans at hResult ⊢
      omega
    have hFills := fills_region hSuits.slots e hExpr hCalls (hSuits.frees hSpan) hK l
    refine allChecked_append.mpr ⟨hFills.checked, allChecked_act ?_⟩
    exact fun j hj => hFills.written j (Nat.zero_le j) (by omega)

theorem Stmt.checked_outlines (hSuits : lim.Suits b) (hResult : lim.Spans 0 width.toNat)
    (hReturns : lim.returns ≤ least) (stmts : List Stmt) : (∀ s ∈ stmts, s.Writable b width least) →
    (∀ s ∈ stmts, s.expr.Each (Calls lim.calls)) → ∀ {K : Facts}, K.Names b →
    ∀ {l : Layout}, 0 ≤ l.nextSlot → (outlines 0 stmts l).2.extent ≤ lim.room →
    AllChecked lim K (outlines 0 stmts l).1 := by
  induction stmts with
  | nil => exact fun _ _ _ _ _ _ _ => trivial
  | cons s rest ih =>
    intro hWF hCalls K hK l hSlot hExtent
    have hGrows := grows_outline 0 s l
    have hLater := grows_outlines 0 rest (s.outline 0 l).2
    have hFirst := checked_outline hSuits hResult hReturns
      (hWF s List.mem_cons_self) (hCalls s List.mem_cons_self) hK hSlot
      (Int.le_trans hLater.extent hExtent)
    refine allChecked_append.mpr ⟨hFirst, ?_⟩
    refine ih (fun t ht => hWF t (List.mem_cons_of_mem s ht))
      (fun t ht => hCalls t (List.mem_cons_of_mem s ht)) (hK.mono (le_afterAll K _)) ?_ hExtent
    rw [hGrows.nextSlot]
    exact hSlot

theorem Expr.fills_rootRegion (hSuits : lim.Suits b) {e : Expr} (hWF : e.Writable b least)
    (hCalls : e.EachNode (Calls lim.calls)) (hReturns : lim.returns ≤ least) (hK : K.Names b)
    (hSlot : 0 ≤ l.nextSlot) (hSpan : lim.Spans 0 e.width.toNat)
    (hExtent : (e.rootRegion 0 l).2.extent ≤ lim.room) :
    Fills lim K 0 e.width.toNat (e.rootRegion 0 l).1 := by
  rcases hWF.cases with ⟨stmts, width, rfl⟩ | hTree
  · refine .behind ?_ (fills_zeroSteps (hSuits.frees hSpan))
    exact Stmt.checked_outlines hSuits hSpan hReturns stmts hWF.2 hCalls hK
      (l := { l with resultRegion := some 0 }) hSlot hExtent
  · rw [rootRegion_eq hTree]
    refine fills_region hSuits.slots e hTree ?_ (hSuits.frees hSpan) hK l
    cases e with
    | sequence => exact absurd hTree id
    | _ => exact hCalls

end

/-- The facts at the start of a routine: its arguments are set. -/
def Facts.start (args : Nat) : Facts := ⟨fun i => i < args, fun _ => False⟩

private theorem checked_tempSteps (lim : Limits) (scratchLocal temps : Nat) (K : Facts) :
    AllChecked lim K (tempSteps scratchLocal temps) ∧
      ∀ i < temps, (afterAll K (tempSteps scratchLocal temps)).locals (scratchLocal + 1 + i) := by
  obtain ⟨hChecked, hLeft⟩ := checked_actions (K := K)
    (f := fun i => .setLocal (scratchLocal + 1 + i) (.literal 0)) (List.range temps)
    fun _ _ _ => trivial
  exact ⟨hChecked, fun i hi => (hLeft i (List.mem_range.mpr hi)).locals _ (.inl rfl)⟩

/-- The limits of the routine of a tree: it keeps to its own extent and to the variables that
exist. -/
def Limits.ofTree (k : Callable) (e : Expr) (b : Bounds) (returns : Nat) : Limits :=
  .strict k (e.mainSteps (Layout.start b.args b.firstFresh 0)).2.extent.toNat b.slots returns

/-- **The routine of a tree is checked.** -/
theorem Routine.checked_outline {k : Callable} {e : Expr} {least : Nat} (hWF : e.Writable b least)
    (hLeast : least ≤ e.width.toNat) (hCalls : e.EachNode (Calls k)) (name : String) :
    (outline name e b.args b.temps).Checked (.ofTree k e b least) (.start b.args) := by
  have hWidth := hWF.width_nonneg
  let l := Layout.start b.args b.firstFresh 0
  let a := e.mainSteps l
  have hExtent : 0 + e.width ≤ a.2.extent := width_le_extent e l
  have hRoom : ((a.2.extent.toNat : Nat) : Int) = a.2.extent := by omega
  have hSuits : (Limits.ofTree k e b least).Suits b := ⟨Nat.le_refl _, fun hSpan => hSpan⟩
  have hSpan : (Limits.ofTree k e b least).Spans 0 e.width.toNat := by
    refine ⟨Int.le_refl 0, ?_⟩
    show 0 + ((e.width.toNat : Nat) : Int) ≤ ((a.2.extent.toNat : Nat) : Int)
    omega
  obtain ⟨hClear, hTemps⟩ := checked_tempSteps (.ofTree k e b least) b.args b.temps (.start b.args)
  have hK : (afterAll (.start b.args) (tempSteps b.args b.temps)).Names b := by
    intro i hi
    unfold Bounds.Names Bounds.firstFresh at hi
    by_cases hArg : i < b.args
    · exact (le_afterAll _ _).locals i hArg
    · have hTemp := hTemps (i - (b.args + 1)) (by omega)
      have hPlace : b.args + 1 + (i - (b.args + 1)) = i := by omega
      rw [hPlace] at hTemp
      exact hTemp
  have hFills := fills_rootRegion hSuits hWF hCalls (Nat.le_refl _) hK
    (l := l.opened e.width) (Int.le_trans hWidth (Int.le_of_eq (Int.zero_add _).symm)) hSpan
    (Int.le_of_eq hRoom.symm)
  refine ⟨⟨tempSteps b.args b.temps ++ a.1, ?_, ?_, ?_⟩, ?_⟩
  · show (.act (.acquire a.2.extent) :: (tempSteps a.2.scratchLocal b.temps ++ a.1) : List Step) =
      .act (.acquire ((a.2.extent.toNat : Nat) : Int)) :: (tempSteps b.args b.temps ++ a.1)
    rw [hRoom, scratchLocal_mainSteps e l]
    rfl
  · refine allChecked_append.mpr ⟨hClear, ?_⟩
    refine allChecked_append.mpr ⟨hFills.checked, allChecked_act ?_⟩
    exact fun j hj => hFills.written j (Nat.zero_le j)
      (Nat.lt_of_lt_of_le hj (Nat.le_trans hLeast (Nat.le_add_left _ _)))
  · -- nothing gets behind the end
    intro j _
    show (afterAll (.start b.args) (tempSteps b.args b.temps ++ (_ ++ [.act .finish]))).slots j
    rw [← List.append_assoc, afterAll_append]
    trivial
  · show least ≤ a.2.extent.toNat
    omega

end MolangCompiler

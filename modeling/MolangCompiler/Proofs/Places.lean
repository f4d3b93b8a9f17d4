import MolangCompiler.Instance
import MolangCompiler.Proofs.Outcome
import MolangCompiler.Proofs.Tiling

/-!
# Places stay where they are

The store is lengthened before a variable is made and is never shortened, so every variable lies
within the store for good.  The same goes for the shared scratch buffer.  A charge that is refused
half-way through may leave the store longer than needed, but never a variable without its place.
-/

namespace MolangCompiler

variable {α : Type} {t : Tenant}

theorem onPart_ends {σ τ : Type} {part : σ → τ} {put : τ → σ → σ} {act : Act τ α} {s : σ}
    {done : α → σ → Prop} {failed : σ → Prop}
    (h : Ends (fun a t => done a (put t s)) (fun t => failed (put t s)) (act (part s))) :
    Ends done failed (onPart part put act s) := by
  unfold onPart
  generalize act (part s) = out at h ⊢
  cases h with
  | ok h => exact .ok h
  | error h => exact .error h

namespace Workshop

theorem read_eq (r : Request) (w : Workshop) : read r w =
    match (w.dictionary r).readSource (Scope.start w.tenant) with
    | .ok e s => .ok (e, s.locals) (w.setTenant s.tenant)
    | .error f s => .error f (w.setTenant s.tenant) := by
  have hRead : read r w = onPart (fun w => .start w.tenant) (fun s w => w.setTenant s.tenant)
      (do let e ← (w.dictionary r).readSource; return (e, (← get).locals)) w := rfl
  rw [hRead]
  unfold onPart
  cases hSource : (w.dictionary r).readSource (.start w.tenant) with
  | ok e s => rw [bind_of_ok hSource]; rfl
  | error f s => rw [bind_of_error hSource]

theorem read_ends {r : Request} {w : Workshop} {done : Expr × Nat → Workshop → Prop}
    {failed : Workshop → Prop}
    (h : Ends (fun e s => done (e, s.locals) (w.setTenant s.tenant))
      (fun s => failed (w.setTenant s.tenant))
      ((w.dictionary r).readSource (Scope.start w.tenant))) : Ends done failed (read r w) := by
  rw [read_eq]
  generalize (w.dictionary r).readSource _ = out at h ⊢
  cases h with
  | ok h => exact .ok h
  | error h => exact .error h

end Workshop

/-! ## Variables -/

namespace Tenant

def making : Course Tenant where
  ok t := t.space.Sound
  le t t' := t.space.Extends t'.space
  refl t := .refl t.space
  trans h h' := h.trans h'

/-- Sound namespaces to which variables are added and whose values are set. -/
def course : Course Tenant where
  ok t := t.space.Sound
  le t t' := t.space.Grows t'.space
  refl t := .refl t.space
  trans h h' := h.trans h'

theorem keeps_of_making {act : Act Tenant α} {post : α → Tenant → Prop}
    (h : Keeps making post act t) : Keeps course post act t :=
  h.weaken (fun _ => Iff.rfl) fun _ _ hLe => hLe.grows

theorem keeps_of_space {act : Act Tenant α} {post : α → Tenant → Prop}
    (h : Ends (fun a t' => t'.space = t.space ∧ post a t') (fun t' => t'.space = t.space) (act t)) :
    Keeps making post act t := by
  intro hOk
  have hSame {t' : Tenant} (hSpace : t'.space = t.space) :
      t'.space.Sound ∧ t.space.Extends t'.space := by
    rw [hSpace]
    exact ⟨hOk, .refl _⟩
  refine .mono h ?_ fun t' hSpace => hSame hSpace
  rintro a t' ⟨hSpace, hPost⟩
  exact ⟨(hSame hSpace).1, (hSame hSpace).2, hPost⟩

theorem charge_space (bytes : Int) (t : Tenant) :
    Ends (fun _ t' => t'.space = t.space) (fun t' => t'.space = t.space) (charge bytes t) := by
  refine onPart_ends ?_
  cases Books.charge bytes t.books with
  | ok => exact .ok rfl
  | error => exact .error rfl

theorem chargeOwner_space (expense : Expense) (t : Tenant) :
    Ends (fun _ t' => t'.space = t.space) (fun t' => t'.space = t.space)
      (chargeOwner expense t) := by
  unfold chargeOwner
  rw [get_bind]
  cases t.owner with
  | none => exact .ok rfl
  | some => exact .bind (charge_space expense.bytes t) fun _ t' hSpace => .ok hSpace

/-- The bytes of a record are owed back if its name is refused. -/
theorem chargeRecord_ends_of {P R : Unit → Tenant → Prop} {E : Tenant → Prop} {name : String}
    (hEntry : Ends R E ((chargeOwner .entry *> charge recordBytes) t))
    (hName : ∀ t', R () t' → Ends P
      (fun t => E { t with books := t.books.owe recordBytes })
      (charge (textBytes name) t')) :
    Ends P E (chargeRecord name t) := by
  unfold chargeRecord
  generalize (chargeOwner .entry *> charge recordBytes) t = out at hEntry ⊢
  cases hEntry with
  | error hEntry => exact .error hEntry
  | @ok _ t' hEntry =>
    have hText := hName t' hEntry
    dsimp only
    generalize charge (textBytes name) t' = out at hText ⊢
    cases hText with
    | ok hText => exact .ok hText
    | error hText => exact .error hText

theorem chargeRecord_space (name : String) (t : Tenant) :
    Ends (fun _ t' => t'.space = t.space) (fun t' => t'.space = t.space) (chargeRecord name t) := by
  have hCharge (bytes : Int) (t' : Tenant) (hSpace : t'.space = t.space) :
      Ends (fun _ t' => t'.space = t.space) (fun t' => t'.space = t.space) (charge bytes t') :=
    Ends.mono (charge_space bytes t') (fun _ _ h => h.trans hSpace) fun _ h => h.trans hSpace
  exact chargeRecord_ends_of (.bind (chargeOwner_space .entry t) fun _ => hCharge recordBytes)
    (hCharge (textBytes name))

theorem growStore_space (slots : Nat) (t : Tenant) :
    Ends (fun _ t' => t'.space = t.space.lengthen (slots - t.space.store.size))
      (fun t' => t'.space = t.space) (growStore slots t) := by
  unfold growStore
  rw [get_bind]
  refine .bind (chargeOwner_space _ t) fun _ t' hSpace => .ok ?_
  exact congrArg (Namespace.lengthen _) hSpace

theorem create_eq (name : String) (size : Nat) (t : Tenant) :
    create name size t =
      (makeRoom (t.space.cursor + size) >>= fun _ => publish ⟨name, size, t.space.cursor⟩) t := by
  rfl

/-- **A new variable** lies behind the others and within the store. -/
theorem create_space (name : String) {size : Nat} (hSize : 1 ≤ size) (t : Tenant) :
    Ends (fun v t' => v = ⟨name, size, t.space.cursor⟩ ∧ ∃ slots,
        v.stop < t.space.store.size + slots ∧ t'.space = (t.space.lengthen slots).publish v)
      (fun t' => ∃ slots, t'.space = t.space.lengthen slots) (create name size t) := by
  have hRoom : Ends (fun _ t' => ∃ slots, t.space.cursor + size < t.space.store.size + slots ∧
        t'.space = t.space.lengthen slots)
      (fun t' => ∃ slots, t'.space = t.space.lengthen slots)
      (makeRoom (t.space.cursor + size) t) := by
    unfold makeRoom
    rw [get_bind]
    split
    · refine .mono (growStore_space _ t) (fun _ t' hSpace => ⟨_, ?_, hSpace⟩)
        fun t' hSpace => ⟨0, hSpace.trans t.space.lengthen_zero.symm⟩
      omega
    · exact .ok ⟨0, by omega, t.space.lengthen_zero.symm⟩
  rw [create_eq]
  refine .bind hRoom ?_
  rintro _ t' ⟨slots, hStop, hSpace⟩
  -- the variable is published once there is room for it and its record is paid for
  have hDone (t'' : Tenant) (h : t''.space = t'.space) (v : Variable) :
      t''.space.publish v = (t.space.lengthen slots).publish v := by
    rw [h, hSpace]
  unfold publish
  rw [get_bind]
  split
  · refine .bind (.mono (chargeRecord_space name t') (fun _ _ h => h) fun t'' h => ?_)
      fun _ t'' h => .ok ⟨rfl, slots, hStop, hDone t'' h _⟩
    exact ⟨slots, h.trans hSpace⟩
  · exact .ok ⟨rfl, slots, hStop, hDone t' rfl _⟩

/-- **All that obtaining a variable does** to the variables. -/
theorem obtain_space (name : String) (size : Int) (t : Tenant) :
    Ends (fun v t' => t.space.Obtains name size v t'.space)
      (fun t' => ∃ slots, t'.space = t.space.lengthen slots) (Tenant.obtain name size t) := by
  have hSame : ∃ slots, t.space = t.space.lengthen slots := ⟨0, t.space.lengthen_zero.symm⟩
  unfold Tenant.obtain
  rw [get_bind]
  cases hGet : t.space.get? name with
  | some v =>
    dsimp only
    split
    · rename_i hSize
      exact .ok (.old hGet hSize)
    · exact .error hSame
  | none =>
    cases hFine : Namespace.sizeProblem? name size with
    | some problem => exact .error hSame
    | none =>
      have hSize := (Namespace.size_of_no_problem hFine).1
      have hPositive : 1 ≤ size.toNat := by omega
      refine .mono (create_space name hPositive t) ?_ fun _ h => h
      rintro v t' ⟨hMade, slots, hRoom, hSpace⟩
      rw [hSpace]
      exact .new hGet hFine hMade hRoom

/-- **A variable that is obtained**, old or new, has the requested size. -/
theorem obtain_keeps (name : String) (size : Int) (t : Tenant) :
    Keeps making (fun v t' => v ∈ t'.space.records ∧ v.size = size)
      (Tenant.obtain name size) t := by
  intro hOk
  refine .mono (obtain_space name size t) ?_ ?_
  · intro v t' hObtains
    show t'.space.Sound ∧ t.space.Extends t'.space ∧ v ∈ t'.space.records ∧ (v.size : Int) = size
    generalize t'.space = ns at hObtains ⊢
    cases hObtains with
    | old hFound hSame => exact ⟨hOk, .refl _, Namespace.mem_of_get? hFound, hSame⟩
    | @new slots hNew hFine hMade hRoom =>
      subst hMade
      obtain ⟨hPositive, hNamed⟩ := Namespace.size_of_no_problem hFine
      have hLong := (t.space.size_lengthen slots).symm ▸ hRoom
      refine ⟨(hOk.lengthen slots).publish rfl ?_ ?_ hNew hLong, ?_, ?_, ?_⟩
      · show 1 ≤ size.toNat
        omega
      · show (encodedSize? name).getD 1 = size.toNat
        omega
      · exact (t.space.extends_lengthen slots).trans ((t.space.lengthen slots).extends_publish rfl)
      · exact List.mem_append_right _ (List.mem_singleton.mpr rfl)
      · exact Int.toNat_of_nonneg (by omega)
  · rintro t' ⟨slots, hSpace⟩
    show t'.space.Sound ∧ t.space.Extends t'.space
    rw [hSpace]
    exact ⟨hOk.lengthen slots, t.space.extends_lengthen slots⟩

/-- **Obtaining a variable keeps to a course** that making room and publishing keep to. -/
theorem obtain_course {c : Course Tenant} (hRoom : ∀ stop t, Stays c (makeRoom stop) t)
    (hPublish : ∀ v t, Stays c (publish v) t) (name : String) (size : Int) (t : Tenant) :
    Stays c (Tenant.obtain name size) t := by
  refine .get_bind ?_
  split
  · split
    · exact .pure trivial
    · exact .throw
  · split
    · exact .throw
    · exact .get_bind (.bind (hRoom _ t) fun _ t' _ _ _ => hPublish _ t')

/-- **Setting values keeps to a course** that obtaining a variable and writing to it keep to. -/
theorem setValues_course {c : Course Tenant} {P : Variable → Tenant → Prop} {name : String}
    {vs : List Float} (hFound : ∀ v, t.space.find? name = some v → P v t)
    (hObtain : t.space.find? name = none →
      Keeps c P (obtain (sizedName name vs.length) vs.length) t)
    (hWrite : ∀ v t', vs.length = v.size → P v t' → c.ok t' →
      c.ok { t' with space := t'.space.write v.offset vs } ∧
        c.le t' { t' with space := t'.space.write v.offset vs }) :
    Stays c (setValues name vs) t := by
  have hStore (v : Variable) (t' : Tenant) (hP : P v t') : Stays c
      (if vs.length ≠ v.size then throw (.valueCount name v.size vs.length)
        else modify fun t => { t with space := t.space.write v.offset vs } : Act Tenant Unit)
      t' := by
    split
    · exact .throw
    · rename_i hLength
      have hSize := Decidable.not_not.mp hLength
      exact .modify (fun hOk => (hWrite v t' hSize hP hOk).1)
        (fun hOk => (hWrite v t' hSize hP hOk).2) fun _ => trivial
  refine .get_bind ?_
  split
  · rename_i v hFind
    exact .bind (p := P) (.pure (hFound v hFind)) fun v t' _ _ hP => hStore v t' hP
  · rename_i hFind
    exact .bind (hObtain hFind) fun v t' _ _ hP => hStore v t' hP

theorem values_looks {c : Course Tenant} (name : String) (t : Tenant) :
    Stays c (values name) t := by
  refine .get_bind ?_
  dsimp only
  split
  · exact .pure trivial
  · exact .throw

theorem setValues_keeps (name : String) (vs : List Float) (t : Tenant) :
    Stays course (setValues name vs) t := by
  refine setValues_course (P := fun v t => v ∈ t.space.records) ?_ ?_ ?_
  · exact fun v hFound => Namespace.mem_of_find? hFound
  · exact fun _ => .mono (keeps_of_making (obtain_keeps _ _ t)) fun v t' _ _ hPost => hPost.1
  · exact fun v t' hLength hMem hOk =>
      ⟨hOk.write hMem hLength, t'.space.grows_write v.offset vs⟩

end Tenant

/-! ## Slots -/

namespace ScratchRoom

theorem charge_scratch (bytes : Int) (r : ScratchRoom) :
    Ends (fun _ r' => r'.scratch = r.scratch) (fun r' => r'.scratch = r.scratch)
      (charge bytes r) := by
  refine onPart_ends ?_
  cases Books.charge bytes r.books with
  | ok => exact .ok rfl
  | error => exact .error rfl

/-- The shared buffer is lengthened at its end, if at all. -/
def course : Course ScratchRoom where
  ok _ := True
  le r r' := r.scratch.buffer.toList <+: r'.scratch.buffer.toList
  refl _ := List.prefix_refl _
  trans h h' := h.trans h'

theorem charge_keeps (bytes : Int) (r : ScratchRoom) :
    Keeps course (fun _ r' => r'.scratch = r.scratch) (charge bytes) r := by
  intro _
  have hSame {r' : ScratchRoom} (hScratch : r'.scratch = r.scratch) :
      r.scratch.buffer.toList <+: r'.scratch.buffer.toList := hScratch ▸ List.prefix_refl _
  exact .mono (charge_scratch bytes r) (fun _ _ h => ⟨trivial, hSame h, h⟩)
    fun _ h => ⟨trivial, hSame h⟩

/-- **Making room** keeps the numbers of the buffer and leaves it long enough. -/
theorem ensure_keeps (slots : Int) (r : ScratchRoom) :
    Keeps course (fun _ r' => slots.toNat ≤ r'.scratch.buffer.size) (ensure slots) r := by
  refine .get_bind ?_
  extract_lets missing lengthen
  have hLengthen (r' : ScratchRoom) (hScratch : r'.scratch = r.scratch) :
      Keeps course (fun _ r'' => slots.toNat ≤ r''.scratch.buffer.size) (lengthen ⟨⟩) r' := by
    refine .bind (p := fun _ r'' => slots.toNat ≤ r''.scratch.buffer.size) (.modify ?_ ?_ ?_) ?_
    · exact fun _ => trivial
    · intro _
      show r'.scratch.buffer.toList <+: (r'.scratch.buffer ++ Array.replicate missing 0).toList
      rw [Array.toList_append]
      exact List.prefix_append _ _
    · intro _
      rw [Array.size_append, Array.size_replicate, hScratch]
      omega
    · intro _ r'' _ _ hLong
      exact .modify (fun _ => trivial) (fun _ => List.prefix_refl _) fun _ => hLong
  split
  · refine .get_bind ?_
    split
    · exact .bind (charge_keeps _ r) fun _ r' _ _ hScratch => hLengthen r' hScratch
    · exact hLengthen r rfl
  · refine .pure ?_
    omega

theorem acquire_shallow {depth : Nat} (hDepth : depth ≤ 1) (slots : Nat) :
    acquire slots depth = pure .shared := by
  have hState : Reentrancy.ofDepth depth = .idle ∨ Reentrancy.ofDepth depth = .oneActive := by
    unfold Reentrancy.ofDepth
    by_cases hZero : (depth : Int) ≤ 0
    · rw [if_pos hZero]
      exact .inl rfl
    · rw [if_neg hZero, if_pos (by omega)]
      exact .inr rfl
  unfold acquire
  rcases hState with hState | hState <;> rw [hState]

theorem acquire_deep {depth : Nat} (hDepth : 1 < depth) (slots : Nat) : acquire slots depth = (do
      charge (bufferBytes slots)
      return .own (Array.replicate slots 0) (bufferBytes slots)) := by
  have hState : Reentrancy.ofDepth depth = .multipleActive := by
    unfold Reentrancy.ofDepth
    rw [if_neg (by omega), if_neg (by omega)]
  unfold acquire
  rw [hState]

theorem acquire_keeps (slots depth : Nat) (r : ScratchRoom) :
    Keeps course (fun loan _ => (loan = .shared ∧ depth ≤ 1) ∨
      ∃ charged, loan = .own (Array.replicate slots 0) charged) (acquire slots depth) r := by
  by_cases hDepth : depth ≤ 1
  · rw [acquire_shallow hDepth]
    exact .pure (.inl ⟨rfl, hDepth⟩)
  · rw [acquire_deep (Nat.lt_of_not_le hDepth)]
    exact .bind (charge_keeps _ r) fun _ _ _ _ _ => .pure (.inr ⟨_, rfl⟩)

end ScratchRoom

end MolangCompiler

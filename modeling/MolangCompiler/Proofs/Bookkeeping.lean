import MolangCompiler.Proofs.Expanding
import MolangCompiler.Proofs.Places

/-!
# What happens to the books

All that any operation does to the books is to make a charge, to add a note that is no charge, to
remember a debt, or to refund what was charged.  `Bookkeeping` collects these four: a course of
books on which they may be made is kept by every operation on an instance, wherever it fails.
-/

namespace MolangCompiler

/-! ## Parts on a course -/

def Course.on {σ τ : Type} (c : Course τ) (part : σ → τ) : Course σ where
  ok s := c.ok (part s)
  le s s' := c.le (part s) (part s')
  refl s := c.refl (part s)
  trans h h' := c.trans h h'

variable {α : Type}

/-- An operation on a part of the state moves this part only. -/
theorem Keeps.onPart {σ τ : Type} {c : Course τ} {p : α → τ → Prop} {part : σ → τ} {put : τ → σ → σ}
    {act : Act τ α} {s : σ} (hPut : ∀ t, part (put t s) = t) (h : Keeps c p act (part s)) :
    Keeps (c.on part) (fun a s' => p a (part s')) (onPart part put act) s := by
  intro hOk
  refine onPart_ends (.mono (h hOk) ?_ ?_)
  · intro a t hEnd
    show c.ok (part (put t s)) ∧ c.le (part s) (part (put t s)) ∧ p a (part (put t s))
    rw [hPut]
    exact hEnd
  · intro t hEnd
    show c.ok (part (put t s)) ∧ c.le (part s) (part (put t s))
    rw [hPut]
    exact hEnd

theorem Keeps.modify_same {σ τ : Type} {c : Course τ} {part : σ → τ} {f : σ → σ} {s : σ}
    (h : part (f s) = part s) :
    Stays (c.on part) (MonadState.modifyGet fun s => (⟨⟩, f s) : Act σ PUnit) s := by
  refine .modify (fun hOk => ?_) (fun _ => ?_) fun _ => trivial
  · show c.ok (part (f s))
    rw [h]
    exact hOk
  · show c.le (part s) (part (f s))
    rw [h]
    exact c.refl _

/-- One run on a course, seen as a comparison of an operation with itself. -/
def Comparison.keeping {σ : Type} (c : Course σ) : Comparison σ σ where
  rel p x _ := ∀ s, Keeps c (fun a _ => p a) x s
  pure h := fun _ => .pure h
  bind h hNext := fun s => .bind (h s) fun a s' _ _ ha => hNext a ha s'
  throw _ := fun _ => .throw

theorem Reading.Aside.stays {x : Reading α} (h : Aside x) (c : Course Tenant) (s : Scope) :
    Stays (c.on Scope.tenant) x s := by
  intro hOk
  have hSame {s' : Scope} (h : s'.tenant = s.tenant) : c.ok s'.tenant ∧
      c.le s.tenant s'.tenant := by
    rw [h]
    exact ⟨hOk, c.refl _⟩
  cases hRun : x s with
  | ok a s' =>
    obtain ⟨hOk', hLe⟩ := hSame (h.tenant_eq hRun)
    exact .ok ⟨hOk', hLe, trivial⟩
  | error e s' => exact .error (hSame (h.tenant_eq_of_error hRun))

theorem Comparison.keeping_obtains {c : Course Tenant}
    (h : ∀ name size t, Stays c (Tenant.obtain name size) t) :
    (keeping (c.on Scope.tenant)).Obtains where
  aside hAside := hAside.stays c
  find _ _ := .get_bind (.pure trivial)
  obtains name size s := .onPart (fun _ => rfl) (h name size s.tenant)

/-- **Reading a source** keeps to any course of the namespace that obtaining variables keeps to. -/
theorem Dictionary.readSource_onTenant {c : Course Tenant}
    (h : ∀ name size t, Stays c (Tenant.obtain name size) t) (dict : Dictionary)
    (s : Scope) : Stays (c.on Scope.tenant) dict.readSource s :=
  readSource_obtains (Comparison.keeping_obtains h) dict s

/-! ## Keeping books -/

/-- Whether a note says that bytes were charged. -/
def Note.isCharge : Note → Bool
  | .charged .. => true
  | _ => false

def Note.isResult : Note → Bool
  | .loaded .. | .generated .. | .compiled .. => true
  | _ => false

/-- A course on which books are kept. -/
structure Bookkeeping (c : Course Books) : Prop where
  charge : ∀ bytes b, Keeps c (fun _ _ => True) (Books.charge bytes) b
  note : ∀ n : Note, n.isCharge = false → ∀ b, c.ok b → c.ok (b.note n) ∧ c.le b (b.note n)
  owe : ∀ bytes, 0 ≤ bytes → ∀ b, c.ok b → c.ok (b.owe bytes) ∧ c.le b (b.owe bytes)

theorem Bookkeeping.any : Bookkeeping (.any Books) where
  charge _ _ := .forget .ran_any
  note _ _ _ _ := ⟨trivial, trivial⟩
  owe _ _ _ _ := ⟨trivial, trivial⟩

theorem recordBytes_nonneg : 0 ≤ recordBytes := by decide

namespace Tenant

/-- Books are kept, and the bytes of the owner stay counted or not. -/
def paying (c : Course Books) : Course Tenant where
  ok t := c.ok t.books
  le t t' := c.le t.books t'.books ∧ t'.owner.isSome = t.owner.isSome
  refl t := ⟨c.refl t.books, rfl⟩
  trans h h' := ⟨c.trans h.1 h'.1, h'.2.trans h.2⟩

variable {c : Course Books}

theorem modify_paying {f : Tenant → Tenant} {t : Tenant} (hBooks : (f t).books = t.books)
    (hOwner : (f t).owner.isSome = t.owner.isSome) :
    Stays (paying c) (MonadState.modifyGet fun t => (⟨⟩, f t) : Act Tenant PUnit) t := by
  refine .modify (fun hOk => ?_) (fun _ => ⟨?_, hOwner⟩) fun _ => trivial
  · show c.ok (f t).books
    rw [hBooks]
    exact hOk
  · rw [hBooks]
    exact c.refl _

variable (k : Bookkeeping c)
include k

theorem charge_books (bytes : Int) (t : Tenant) : Stays (paying c) (charge bytes) t := by
  intro hOk
  refine onPart_ends (Ends.mono (k.charge bytes t.books hOk) ?_ ?_)
  · exact fun _ b hEnd => ⟨hEnd.1, ⟨hEnd.2.1, rfl⟩, trivial⟩
  · exact fun b hEnd => ⟨hEnd.1, hEnd.2, rfl⟩

theorem note_books {n : Note} (hOther : n.isCharge = false) (t : Tenant) :
    Stays (paying c) (note n) t :=
  .modify (fun hOk => (k.note n hOther t.books hOk).1)
    (fun hOk => ⟨(k.note n hOther t.books hOk).2, rfl⟩) fun _ => trivial

theorem chargeOwner_books (expense : Expense) (t : Tenant) :
    Stays (paying c) (chargeOwner expense) t := by
  refine .get_bind ?_
  split
  · exact .pure trivial
  · exact .bind (charge_books k expense.bytes t) fun _ t' _ _ _ =>
      modify_paying rfl Option.isSome_map

theorem growStore_books (slots : Nat) (t : Tenant) : Stays (paying c) (growStore slots) t := by
  refine .get_bind (.bind (chargeOwner_books k _ t) fun _ t' _ _ _ => ?_)
  refine .bind (modify_paying rfl rfl) fun _ t'' _ _ _ => .get_bind ?_
  exact note_books k rfl t''

theorem chargeRecord_books (name : String) (t : Tenant) :
    Stays (paying c) (chargeRecord name) t := by
  intro hOk
  have hBoth : Stays (paying c) (chargeOwner .entry >>= fun _ => charge recordBytes) t :=
    .bind (chargeOwner_books k .entry t) fun _ t' _ _ _ => charge_books k recordBytes t'
  refine chargeRecord_ends_of (hBoth hOk) fun t' hEnd => ?_
  refine Ends.mono (charge_books k (textBytes name) t' hEnd.1) (fun _ _ hText => ?_)
    fun t'' hText => ?_
  · exact ⟨hText.1, (paying c).trans hEnd.2.1 hText.2.1, trivial⟩
  · have hOwe := k.owe recordBytes recordBytes_nonneg t''.books hText.1
    exact ⟨hOwe.1, (paying c).trans hEnd.2.1 ((paying c).trans hText.2 ⟨hOwe.2, rfl⟩)⟩

theorem makeRoom_books (stop : Nat) (t : Tenant) : Stays (paying c) (makeRoom stop) t := by
  refine .get_bind ?_
  split
  · exact growStore_books k _ t
  · exact .pure trivial

theorem publish_books (v : Variable) (t : Tenant) : Stays (paying c) (publish v) t := by
  have hRecord (t' : Tenant) : Stays (paying c) (record v) t' := by
    refine .bind (modify_paying rfl rfl) fun _ t'' _ _ _ => ?_
    exact .bind_pure (note_books k rfl t'')
  refine .get_bind ?_
  split
  · exact .bind (chargeRecord_books k v.name t) fun _ t' _ _ _ => hRecord t'
  · exact hRecord t

/-- **Obtaining a variable** keeps books. -/
theorem obtain_books (name : String) (size : Int) (t : Tenant) :
    Stays (paying c) (Tenant.obtain name size) t :=
  obtain_course (makeRoom_books k) (publish_books k) name size t

theorem setValues_books (name : String) (values : List Float) (t : Tenant) :
    Stays (paying c) (setValues name values) t :=
  setValues_course (fun _ _ => trivial) (fun _ => obtain_books k _ _ t)
    fun _ _ _ _ hOk => ⟨hOk, c.refl _, rfl⟩

end Tenant

namespace ScratchRoom

variable {c : Course Books} (k : Bookkeeping c)
include k

theorem charge_books (bytes : Int) (r : ScratchRoom) : Stays (c.on books) (charge bytes) r :=
  .onPart (fun _ => rfl) (k.charge bytes r.books)

theorem ensure_books (slots : Int) (r : ScratchRoom) : Stays (c.on books) (ensure slots) r := by
  refine .get_bind ?_
  extract_lets missing jp
  split
  · refine .get_bind ?_
    have hGrow (r : ScratchRoom) : Stays (c.on books) (jp ⟨⟩) r := by
      refine .bind (.modify_same rfl) fun _ r' _ _ _ => ?_
      have hNote := k.note (.grewScratch r'.scratch.buffer.size) rfl
      exact .modify (fun hOk => (hNote _ hOk).1) (fun hOk => (hNote _ hOk).2) fun _ => trivial
    split
    · exact .bind (charge_books k _ r) fun _ r' _ _ _ => hGrow r'
    · exact hGrow r
  · exact .pure trivial

end ScratchRoom

namespace Workshop

/-- **Compiling keeps to a course** that its steps keep to. -/
theorem compile_course {c : Course Workshop} (home : Nat) (r : Request)
    (hRead : ∀ w, Stays c (read r) w)
    (hNumber : ∀ m w, c.ok w → c.ok { w with inst := { w.inst with nextRoutine := m } } ∧
      c.le w { w with inst := { w.inst with nextRoutine := m } })
    (hScratch : ∀ slots w, Stays c (onScratch (ScratchRoom.ensure slots)) w)
    (hCharge : ∀ size w, Stays c (onTenant (Tenant.chargeOwner (.code size))) w)
    (hNote : ∀ n : Note, n.isResult = true → ∀ w, Stays c (note n) w)
    (w : Workshop) : Stays c (compile home r) w := by
  unfold compile
  split
  · exact .throw
  refine .bind (hRead w) fun p w₁ _ _ _ => ?_
  refine .bind (p := fun _ _ => True) ?_ fun name w₂ _ _ _ => ?_
  · refine .get_bind (.bind_pure (p := fun _ _ => True) ?_)
    exact .modify (fun hOk => (hNumber _ _ hOk).1) (fun hOk => (hNumber _ _ hOk).2) fun _ => trivial
  refine .bind (p := fun _ _ => True) ?_ fun d w₃ _ _ _ => ?_
  · unfold write
    split
    · exact .pure trivial
    · exact .throw
  extract_lets text
  refine .bind (hScratch _ w₃) fun _ w₄ _ _ _ => ?_
  refine .bind (hCharge _ w₄) fun _ w₅ _ _ _ => ?_
  split
  · exact .throw
  · refine .bind (hNote _ rfl w₅) fun _ w₆ _ _ _ => .get_bind ?_
    split
    · exact .bind (hNote _ rfl w₆) fun _ w₇ _ _ _ => .bind_pure (hNote _ rfl w₇)
    · exact .bind_pure (hNote _ rfl w₆)

/-- Books are kept, and the bytes of the instance stay counted or not. -/
def paying (c : Course Books) : Course Workshop where
  ok w := c.ok w.books
  le w w' := c.le w.books w'.books ∧ w'.inst.owner.isSome = w.inst.owner.isSome
  refl w := ⟨c.refl w.books, rfl⟩
  trans h h' := ⟨c.trans h.1 h'.1, h'.2.trans h.2⟩

variable {c : Course Books}

theorem onTenant_books {act : Act Tenant α} {w : Workshop}
    (h : Stays (Tenant.paying c) act w.tenant) : Stays (paying c) (onTenant act) w := by
  intro hOk
  exact onPart_ends (.mono (h hOk) (fun _ _ hEnd => hEnd) fun _ hEnd => hEnd)

theorem onScratch_books {act : Act ScratchRoom α} {w : Workshop}
    (h : Stays (c.on ScratchRoom.books) act ⟨w.books, w.inst.scratch⟩) :
    Stays (paying c) (onScratch act) w := by
  intro hOk
  refine onPart_ends (.mono (h hOk) ?_ ?_)
  · exact fun _ r hEnd => ⟨hEnd.1, ⟨hEnd.2.1, rfl⟩, trivial⟩
  · exact fun r hEnd => ⟨hEnd.1, hEnd.2, rfl⟩

variable (k : Bookkeeping c)
include k

theorem note_books {n : Note} (hOther : n.isCharge = false) (w : Workshop) :
    Stays (paying c) (note n) w :=
  .modify (fun hOk => (k.note n hOther w.books hOk).1)
    (fun hOk => ⟨(k.note n hOther w.books hOk).2, rfl⟩) fun _ => trivial

theorem read_books (r : Request) (w : Workshop) : Stays (paying c) (read r) w := by
  intro hOk
  have hRead := Dictionary.readSource_onTenant (Tenant.obtain_books k) (w.dictionary r)
    (Scope.start w.tenant)
  exact read_ends (Ends.mono (hRead hOk) (fun _ _ hEnd => hEnd) fun _ hEnd => hEnd)

/-- **Compiling** keeps books. -/
theorem compile_books (home : Nat) (r : Request) (w : Workshop) :
    Stays (paying c) (compile home r) w := by
  refine compile_course home r (read_books k r) (fun _ _ hOk => ⟨hOk, c.refl _, rfl⟩) ?_ ?_ ?_ w
  · exact fun _ _ => onScratch_books (ScratchRoom.ensure_books k _ _)
  · exact fun _ _ => onTenant_books (Tenant.chargeOwner_books k _ _)
  · exact fun n hResult => note_books k (by cases n <;> first | rfl | cases hResult)

end Workshop

end MolangCompiler

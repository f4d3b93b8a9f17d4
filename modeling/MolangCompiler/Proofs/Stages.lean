import MolangCompiler.Proofs.Bookkeeping
import MolangCompiler.Proofs.Compiling

/-!
# The stages of compiling

Compiling goes through stages: the source is read, the routine is written, room is made for it, its
text is paid for and loaded, and the result is noted.  The statements here say exactly what the
stages make of an instance.
-/

namespace MolangCompiler

/-! ## Paying without a limit -/

/-- Bytes are not limited. -/
def Books.Unlimited (b : Books) : Prop := ∀ l, b.ledger = some l → l.budget = none

def Books.unlimited : Course Books where
  ok := Unlimited
  le _ _ := True
  refl _ := trivial
  trans _ _ := trivial

theorem Books.Unlimited.enter {b : Books} (h : b.Unlimited) (bytes : Int) :
    (b.enter bytes).Unlimited := by
  intro l hLedger
  unfold Books.enter at hLedger
  split at hLedger
  · exact h l hLedger
  · rename_i l' hLedger'
    cases hLedger
    exact h l' hLedger'

theorem Books.Unlimited.charge {b : Books} (h : b.Unlimited) (bytes : Int) :
    charge bytes b = .ok () (b.enter bytes) := by
  have hNone : b.ledger.bind (·.refusal? bytes) = none := by
    cases hLedger : b.ledger with
    | none => rfl
    | some l =>
      show l.refusal? bytes = none
      unfold Ledger.refusal?
      rw [h l hLedger]
  unfold Books.charge
  rw [hNone]

theorem Books.unlimited_bookkeeping : Bookkeeping unlimited where
  charge bytes b hOk := by
    rw [hOk.charge bytes]
    exact .ok ⟨hOk.enter bytes, trivial, trivial⟩
  note _ _ _ hOk := ⟨hOk, trivial⟩
  owe _ _ _ hOk := ⟨hOk, trivial⟩

variable {t : Tenant}

theorem Tenant.chargeOwner_unlimited (h : t.books.Unlimited) (expense : Expense) :
    chargeOwner expense t = .ok () { t with
      books := if t.owner.isSome then t.books.enter expense.bytes else t.books
      owner := t.owner.map (·.add expense) } := by
  obtain ⟨books, owner, space⟩ := t
  cases owner with
  | none => rfl
  | some account =>
    have hCharge : charge expense.bytes ⟨books, some account, space⟩ =
        .ok () ⟨books.enter expense.bytes, some account, space⟩ := onPart_of_ok (h.charge _)
    exact bind_of_ok hCharge

theorem ScratchRoom.ensure_unlimited (room : ScratchRoom) (h : room.books.Unlimited) (slots : Int) :
    ∃ room', ensure slots room = .ok () room' ∧ room'.books.Unlimited := by
  have hKept {room' : ScratchRoom} (hRun : ensure slots room = .ok () room') :
      room'.books.Unlimited :=
    ((ensure_books Books.unlimited_bookkeeping slots room).of_ok h hRun).1
  suffices hSome : ∃ room', ensure slots room = .ok () room' by
    obtain ⟨room', hRun⟩ := hSome
    exact ⟨room', hRun, hKept hRun⟩
  have hGet : (get : Act ScratchRoom ScratchRoom) room = .ok room room := rfl
  unfold ensure
  rw [bind_of_ok hGet]
  generalize (slots - room.scratch.buffer.size).toNat = missing
  by_cases hMissing : 0 < missing
  · rw [if_pos hMissing, bind_of_ok hGet]
    by_cases hCharged : room.scratch.charged.isSome = true
    · have hCharge : charge (missing * wordBytes) room =
          .ok () { room with books := room.books.enter (missing * wordBytes) } :=
        onPart_of_ok (h.charge _)
      rw [if_pos hCharged, bind_of_ok hCharge]
      exact ⟨_, rfl⟩
    · rw [if_neg hCharged]
      exact ⟨_, rfl⟩
  · rw [if_neg hMissing]
    exact ⟨_, rfl⟩

theorem Tenant.space_of_chargeOwner {expense : Expense} {t' : Tenant}
    (h : chargeOwner expense t = .ok () t') : t'.space = t.space := by
  have hEnds := chargeOwner_space expense t
  rw [h] at hEnds
  cases hEnds with
  | ok hSpace => exact hSpace

/-! ## Stages -/

def Artifact.noted (a : Artifact) (r : Request) (trace : Bool) (results slots : Int) (b : Books) :
    Books :=
  let loaded := b.note (.loaded a.name)
  let shown := if trace then loaded.note (.generated a.name r.source a.text) else loaded
  shown.note (.compiled r.source a.name r.context.length results slots)

namespace Workshop

variable {w w' : Workshop} {r : Request}

theorem onScratch_of_ok {α : Type} {act : Act ScratchRoom α} {a : α} {room : ScratchRoom}
    (h : act ⟨w.books, w.inst.scratch⟩ = .ok a room) :
    onScratch act w = .ok a ⟨room.books, { w.inst with scratch := room.scratch }⟩ := onPart_of_ok h

theorem onTenant_of_ok {α : Type} {act : Act Tenant α} {a : α} (h : act w.tenant = .ok a t) :
    onTenant act w = .ok a (w.setTenant t) := onPart_of_ok h

theorem write_eq_ok {name : String} {e : Expr} {temps : Nat} {d : Draft} :
    write r name e temps w = .ok d w' ↔ Routine.write name e r.context.length temps
      (Routine.draft r.context.length temps) = .ok () d ∧ w' = w := by
  unfold write
  cases Routine.write name e r.context.length temps (Routine.draft r.context.length temps) with
  | ok _ d' =>
    constructor
    · intro h
      cases h
      exact ⟨rfl, rfl⟩
    · rintro ⟨h, rfl⟩
      cases h
      rfl
  | error problem d' =>
    constructor
    · intro h
      cases h
    · rintro ⟨h, -⟩
      cases h

theorem noted_eq (home : Nat) (r : Request) (name text : String) (width extent : Int)
    (routine : Routine) (w : Workshop) :
    (do
      note (.loaded name)
      if (← get).inst.trace then note (.generated name r.source text)
      note (.compiled r.source name r.context.length width extent)
      return ⟨home, name, r.context.length, width.toNat, text, routine⟩ : Act Workshop Artifact) w =
    let a : Artifact := ⟨home, name, r.context.length, width.toNat, text, routine⟩
    .ok a ⟨a.noted r w.inst.trace width extent w.books, w.inst⟩ := by
  obtain ⟨books, inst⟩ := w
  cases hTrace : inst.trace with
  | false =>
    refine (bind_of_ok rfl).trans ((bind_of_ok rfl).trans ?_)
    rw [hTrace]
    rfl
  | true =>
    refine (bind_of_ok rfl).trans ((bind_of_ok rfl).trans ?_)
    dsimp only
    rw [hTrace]
    rfl

theorem nextName_eq (w : Workshop) : nextName w = .ok (routineName w.inst.nextRoutine)
    { w with inst := { w.inst with nextRoutine := w.inst.nextRoutine + 1 } } := rfl

/-- **After the text is paid for** all that can go wrong is loading it. -/
theorem compile_of_paid (home : Nat) {w₁ : Workshop} {p : Expr × Nat} {d : Draft}
    {room : ScratchRoom} (hContext : r.context.length ≤ maxContextValues)
    (hRead : read r w = .ok p w₁)
    (hWrite : Routine.write (routineName w₁.inst.nextRoutine) p.1 r.context.length p.2
      (Routine.draft r.context.length p.2) = .ok () d)
    (hEnsure : ScratchRoom.ensure d.layout.extent ⟨w₁.books, w₁.inst.scratch⟩ = .ok () room)
    (hCharge : Tenant.chargeOwner (.code d.text.length)
      ⟨room.books, w₁.inst.owner, w₁.inst.space⟩ = .ok () t) :
    let inst : Instance := { w₁.inst with
      nextRoutine := w₁.inst.nextRoutine + 1
      scratch := room.scratch
      owner := t.owner
      space := t.space }
    compile home r w = match Routine.load d.listing.lines with
      | .error problem => .error (.loading r.source problem) ⟨t.books, inst⟩
      | .ok routine =>
        let a : Artifact := ⟨home, routineName w₁.inst.nextRoutine, r.context.length,
          p.1.width.toNat, d.text, routine⟩
        .ok a ⟨a.noted r w₁.inst.trace p.1.width d.layout.extent t.books, inst⟩ := by
  intro inst
  unfold compile
  rw [if_neg (Nat.not_lt.mpr hContext)]
  refine (bind_of_ok hRead).trans ((bind_of_ok (nextName_eq w₁)).trans ?_)
  refine (bind_of_ok (write_eq_ok.mpr ⟨hWrite, rfl⟩)).trans ?_
  let w₂ : Workshop := { w₁ with inst := { w₁.inst with nextRoutine := w₁.inst.nextRoutine + 1 } }
  refine (bind_of_ok (onScratch_of_ok (w := w₂) hEnsure)).trans ?_
  let w₃ : Workshop := ⟨room.books, { w₂.inst with scratch := room.scratch }⟩
  refine (bind_of_ok (onTenant_of_ok (w := w₃) hCharge)).trans ?_
  cases Routine.load d.listing.lines with
  | error problem => rfl
  | ok routine => exact noted_eq home r _ d.text p.1.width d.layout.extent routine _

/-- What compiling consists of: the source is read, the routine is written, room is made for it, its
text is paid for and loaded, and the result is noted. -/
def Makes (home : Nat) (r : Request) (w : Workshop) (a : Artifact) (w' : Workshop) : Prop :=
  r.context.length ≤ maxContextValues ∧ ∃ p w₁ d room t routine,
    read r w = .ok p w₁ ∧
    Routine.write (routineName w₁.inst.nextRoutine) p.1 r.context.length p.2
      (Routine.draft r.context.length p.2) = .ok () d ∧
    ScratchRoom.ensure d.layout.extent ⟨w₁.books, w₁.inst.scratch⟩ = .ok () room ∧
    Tenant.chargeOwner (.code d.text.length) ⟨room.books, w₁.inst.owner, w₁.inst.space⟩ = .ok () t ∧
    Routine.load d.listing.lines = .ok routine ∧
    a = ⟨home, routineName w₁.inst.nextRoutine, r.context.length, p.1.width.toNat, d.text,
      routine⟩ ∧
    w' = ⟨a.noted r w₁.inst.trace p.1.width d.layout.extent t.books,
      { w₁.inst with
        nextRoutine := w₁.inst.nextRoutine + 1
        scratch := room.scratch
        owner := t.owner
        space := t.space }⟩

/-- **Compiling succeeds** if and only if each of its steps does. -/
theorem compile_eq_ok {home : Nat} {a : Artifact} :
    compile home r w = .ok a w' ↔ Makes home r w a w' := by
  constructor
  · suffices hMakes : Keeps (.any Workshop) (Makes home r w) (compile home r) w from
      fun h => (hMakes.of_ok trivial h).2.2
    unfold compile
    split
    · exact .throw
    rename_i hContext
    refine .bind .ran_any fun p w₁ _ _ hRead => ?_
    refine .bind .ran_any fun name w₂ _ _ hSecond => ?_
    cases (nextName_eq w₁).symm.trans hSecond
    refine .bind .ran_any fun d w₃ _ _ hThird => ?_
    obtain ⟨hWrite, rfl⟩ := write_eq_ok.mp hThird
    extract_lets text
    refine .bind .ran_any fun _ w₄ _ _ hFourth => ?_
    obtain ⟨room, hEnsure, rfl⟩ := onPart_eq_ok.mp hFourth
    refine .bind .ran_any fun _ w₅ _ _ hFifth => ?_
    obtain ⟨t, hCharge, rfl⟩ := onPart_eq_ok.mp hFifth
    cases hLoad : Routine.load d.listing.lines with
    | error problem => exact .throw
    | ok routine =>
      refine .mono .ran_any fun a w' _ _ hLast => ?_
      refine ⟨Nat.not_lt.mp hContext, p, w₁, d, room, t, routine, hRead, hWrite, hEnsure, hCharge,
        hLoad, ?_⟩
      injection (noted_eq home r _ text p.1.width d.layout.extent routine _).symm.trans hLast
        with ha hw
      subst ha
      exact ⟨rfl, hw.symm⟩
  · rintro ⟨hContext, p, w₁, d, room, t, routine, hRead, hWrite, hEnsure, hCharge, hLoad, rfl, rfl⟩
    rw [compile_of_paid home hContext hRead hWrite hEnsure hCharge, hLoad]

theorem read_eq_ok {p : Expr × Nat} :
    read r w = .ok p w' ↔ ∃ s, (w.dictionary r).readSource (Scope.start w.tenant) = .ok p.1 s ∧
      p.2 = s.locals ∧ w' = w.setTenant s.tenant := by
  rw [read_eq]
  cases (w.dictionary r).readSource (.start w.tenant) with
  | error f s => exact ⟨nofun, fun ⟨_, h, _⟩ => nomatch h⟩
  | ok e s =>
    constructor
    · rintro ⟨⟩
      exact ⟨s, rfl, rfl, rfl⟩
    · rintro ⟨_, ⟨⟩, hLocals, rfl⟩
      dsimp only
      rw [← hLocals]

end Workshop

end MolangCompiler

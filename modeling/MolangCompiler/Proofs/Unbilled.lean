import MolangCompiler.Proofs.Bookkeeping
import MolangCompiler.Proofs.Images
import MolangCompiler.Session.Command

/-!
# Leaving the charges out

To see that nothing but charging looks at the books, every state has a copy without charges:
`unbilled` takes the ledger away, the notes on charges, what is owed, and the accounts that
instances have.  An operation that is carried out on a state and on its copy does the same to both,
unless a charge is refused on the way (`Shadows`).  `Comparison.unlessRefused` is that relation
between operations.
-/

namespace MolangCompiler

/-! ## Unless a charge is refused -/

def Failure.IsRefusal : Failure → Prop
  | .refused _ => True
  | _ => False

variable {α : Type} {n : Note}

theorem Shadows.of_ok {σ τ : Type} {erase : σ → τ} {done : α → σ → Prop} {failed : σ → Prop}
    {out : Outcome σ α} {a : α} {t : τ}
    (h : Shadows erase Failure.IsRefusal done failed out (.ok a t)) :
    (∃ f s, out = .error (.refused f) s) ∨ ∃ s, out = .ok a s ∧ erase s = t := by
  generalize hOut : EStateM.Result.ok a t = out' at h
  cases h with
  | ok _ =>
    injection hOut with ha ht
    subst ha ht
    exact .inr ⟨_, rfl, rfl⟩
  | error => cases hOut
  | @excused e s _ h =>
    cases e with
    | refused f => exact .inl ⟨f, s, rfl⟩
    | _ => exact h.elim

namespace Comparison

variable {σ τ ρ ρ' α β : Type} {erase : σ → τ}

/-- An operation with its counterpart on what `erase` leaves: they do the same, unless the first one
is refused a charge. -/
abbrev unlessRefused (erase : σ → τ) : Comparison σ τ := shadowing erase (.any σ) Failure.IsRefusal

theorem get_like {p : β → Prop} {f : σ → Act σ β} {g : τ → Act τ β}
    (h : ∀ s, (unlessRefused erase).rel p (f s) (g (erase s))) :
    (unlessRefused erase).rel p (get >>= f) (get >>= g) := shadowing_get fun s _ => h s

theorem modify_like {f : σ → σ} {g : τ → τ} (h : ∀ s, g (erase s) = erase (f s)) :
    (unlessRefused erase).Like (modify f : Act σ PUnit) (modify g) :=
  shadowing_modify fun s _ => ⟨h s, trivial, trivial⟩

/-- An operation that has no counterpart: it only charges. -/
theorem skip_like {act : Act σ PUnit} {next : Act σ β} {next' : Act τ β}
    (hAct : (unlessRefused erase).Like act (Pure.pure ⟨⟩))
    (hNext : (unlessRefused erase).Like next next') :
    (unlessRefused erase).Like (act >>= fun _ => next) next' :=
  Like.bind (y := (Pure.pure ⟨⟩ : Act τ PUnit)) hAct fun _ => hNext

theorem onPart_like (erase : σ → τ) {part : ρ → σ} {put : σ → ρ → ρ} {part' : ρ' → τ}
    {put' : τ → ρ' → ρ'} {whole : ρ → ρ'} {act : Act σ α} {act' : Act τ α}
    (h : (unlessRefused erase).Like act act')
    (hPart : ∀ r, part' (whole r) = erase (part r) := by exact fun _ => rfl)
    (hPut : ∀ s r, put' (erase s) (whole r) = whole (put s r) := by exact fun _ _ => rfl) :
    (unlessRefused whole).Like (onPart part put act) (onPart part' put' act') :=
  shadowing_onPart (fun r _ => ⟨hPart r, trivial⟩) (fun s r _ _ _ => ⟨hPut s r, trivial, trivial⟩) h

end Comparison

open Comparison

/-! ## Books -/

namespace Books

/-- Books in which nothing was charged. -/
def unbilled (b : Books) : Books := ⟨none, b.journal.filter (!·.isCharge), []⟩

theorem unbilled_note (h : n.isCharge = false) (b : Books) :
    b.unbilled.note n = (b.note n).unbilled := by
  simp [unbilled, note, h]

theorem unbilled_enter (bytes : Int) (b : Books) : (b.enter bytes).unbilled = b.unbilled := by
  unfold enter
  split
  · rfl
  · simp [unbilled, note, Note.isCharge]

theorem unbilled_refundAll (charges : List Int) :
    ∀ b : Books, (b.refundAll charges).unbilled = b.unbilled := by
  induction charges with
  | nil => exact fun _ => rfl
  | cons bytes rest ih => exact fun b => (ih _).trans (unbilled_enter (-bytes) b)

theorem refundAll_uncounted {b : Books} (h : b.ledger = none) (charges : List Int) :
    b.refundAll charges = b := by
  induction charges with
  | nil => rfl
  | cons bytes rest ih =>
    show (b.enter (-bytes)).refundAll rest = b
    rw [enter_uncounted h, ih]

theorem unbilled_settle (b : Books) : b.unbilled.settle = b.settle.unbilled :=
  (unbilled_refundAll b.owed { b with owed := [] }).symm

theorem charge_unbilled (bytes : Int) :
    (unlessRefused unbilled).Like (charge bytes) (Pure.pure ()) := by
  intro b _
  unfold charge
  split
  · exact .excused trivial
  · rw [← unbilled_enter bytes b]
    exact .ok ⟨trivial, trivial, trivial⟩

end Books

/-! ## Variables -/

namespace Tenant

def unbilled (t : Tenant) : Tenant := ⟨t.books.unbilled, none, t.space⟩

theorem charge_unbilled (bytes : Int) :
    (unlessRefused unbilled).Like (charge bytes) (Pure.pure ()) := by
  show (unlessRefused unbilled).Like (charge bytes)
    (onPart books (fun b t => { t with books := b }) (Pure.pure ()))
  exact onPart_like Books.unbilled (Books.charge_unbilled bytes)

theorem note_unbilled (h : n.isCharge = false) : (unlessRefused unbilled).Like (note n) (note n) :=
  modify_like fun t => congrArg (Tenant.mk · none t.space) (Books.unbilled_note h t.books)

theorem chargeOwner_unbilled (expense : Expense) :
    (unlessRefused unbilled).Like (chargeOwner expense) (Pure.pure ()) := by
  rintro ⟨books, owner, space⟩ _
  cases owner with
  | none => exact .ok ⟨trivial, trivial, trivial⟩
  | some account =>
    exact skip_like (charge_unbilled expense.bytes)
      (modify_like (f := fun t => { t with owner := t.owner.map (·.add expense) }) (g := id)
        fun _ => rfl) ⟨books, some account, space⟩ trivial

theorem chargeOwner_like (expense : Expense) :
    (unlessRefused unbilled).Like (chargeOwner expense) (chargeOwner expense) :=
  fun t => chargeOwner_unbilled expense t

theorem growStore_unbilled (slots : Nat) :
    (unlessRefused unbilled).Like (growStore slots) (growStore slots) := by
  refine get_like fun t => (chargeOwner_like _).bind fun _ => ?_
  refine Like.bind (modify_like fun t => ?_) fun _ => get_like fun t => ?_
  · rfl
  · exact note_unbilled rfl

theorem chargeRecord_unbilled (name : String) :
    (unlessRefused unbilled).Like (chargeRecord name) (Pure.pure ()) := by
  have hEntry : (unlessRefused unbilled).Like (chargeOwner .entry *> charge recordBytes)
      (Pure.pure ()) := by
    exact skip_like (chargeOwner_unbilled .entry) (charge_unbilled recordBytes)
  intro t _
  unfold chargeRecord
  rcases (hEntry t trivial).of_ok with ⟨f, t₁, hRefused⟩ | ⟨t₁, hPaid, hSame⟩
  · rw [hRefused]
    exact .excused trivial
  rw [hPaid]
  dsimp only
  rcases (charge_unbilled (textBytes name) t₁ trivial).of_ok with
    ⟨f, t₂, hRefused⟩ | ⟨t₂, hPaid', hSame'⟩
  · rw [hRefused]
    exact .excused trivial
  · rw [hPaid']
    exact .ok_of (hSame ▸ hSame'.symm) ⟨trivial, trivial, trivial⟩

theorem makeRoom_unbilled (stop : Nat) :
    (unlessRefused unbilled).Like (makeRoom stop) (makeRoom stop) := by
  refine get_like fun t => ?_
  dsimp only [unbilled]
  split
  · exact growStore_unbilled _
  · exact (unlessRefused unbilled).pure trivial

theorem publish_unbilled (v : Variable) :
    (unlessRefused unbilled).Like (publish v) (publish v) := by
  have hRecord : (unlessRefused unbilled).Like (record v) (record v) :=
    Like.bind (modify_like fun t => rfl) fun _ =>
      (note_unbilled rfl).bind fun _ => (unlessRefused unbilled).pure trivial
  refine get_like fun t => ?_
  split
  · exact skip_like (chargeRecord_unbilled v.name) hRecord
  · exact hRecord

theorem create_unbilled (name : String) (size : Nat) :
    (unlessRefused unbilled).Like (create name size) (create name size) := by
  intro t
  rw [create_eq, create_eq]
  exact (makeRoom_unbilled _).bind (fun _ => publish_unbilled _) t

/-- **Obtaining a variable** does not depend on charges. -/
theorem obtain_unbilled (name : String) (size : Int) :
    (unlessRefused unbilled).Like (obtain name size) (obtain name size) := by
  refine get_like fun t => ?_
  dsimp only [unbilled]
  cases t.space.get? name with
  | some v =>
    dsimp only
    split
    · exact (unlessRefused unbilled).pure trivial
    · exact (unlessRefused unbilled).throw _
  | none =>
    cases Namespace.sizeProblem? name size with
    | some problem => exact (unlessRefused unbilled).throw _
    | none => exact create_unbilled name size.toNat

theorem setValues_unbilled (name : String) (vs : List Float) :
    (unlessRefused unbilled).Like (setValues name vs) (setValues name vs) := by
  let write (v : Variable) : Act Tenant Unit := do
    if vs.length ≠ v.size then throw (.valueCount name v.size vs.length)
    modify fun t => { t with space := t.space.write v.offset vs }
  have hWrite (v : Variable) : (unlessRefused unbilled).Like (write v) (write v) := by
    dsimp only [write]
    split
    · exact (unlessRefused unbilled).throw _
    · refine modify_like fun t => ?_
      rfl
  refine get_like fun t => ?_
  dsimp only [unbilled]
  cases t.space.find? name with
  | some v => exact hWrite v
  | none => exact (obtain_unbilled _ _).bind hWrite

theorem values_unbilled (name : String) :
    (unlessRefused unbilled).Like (values name) (values name) := by
  refine get_like fun t => ?_
  dsimp only [unbilled]
  cases t.space.find? name with
  | some v => exact (unlessRefused unbilled).pure trivial
  | none => exact (unlessRefused unbilled).throw _

end Tenant

/-! ## Scratch space -/

def Scratch.unbilled (s : Scratch) : Scratch := { s with charged := none }

namespace ScratchRoom

def unbilled (r : ScratchRoom) : ScratchRoom := ⟨r.books.unbilled, r.scratch.unbilled⟩

theorem charge_unbilled (bytes : Int) :
    (unlessRefused unbilled).Like (charge bytes) (Pure.pure ()) := by
  show (unlessRefused unbilled).Like (charge bytes)
    (onPart books (fun b r => { r with books := b }) (Pure.pure ()))
  exact onPart_like Books.unbilled (Books.charge_unbilled bytes)

theorem ensure_unbilled (slots : Int) :
    (unlessRefused unbilled).Like (ensure slots) (ensure slots) := by
  have hGrow (missing : Nat) : (unlessRefused unbilled).Like (grow missing) (grow missing) := by
    refine Like.bind (modify_like fun r => ?_) fun _ => modify_like fun r => ?_
    · rfl
    · exact congrArg (ScratchRoom.mk · _) (Books.unbilled_note rfl r.books)
  refine get_like fun r => ?_
  dsimp only [unbilled, Scratch.unbilled]
  split
  · refine get_like fun r' => ?_
    by_cases hCharged : r'.scratch.charged.isSome = true
    · rw [if_pos hCharged]
      exact skip_like (charge_unbilled _) (hGrow _)
    · rw [if_neg hCharged]
      exact hGrow _
  · exact (unlessRefused unbilled).pure trivial

theorem acquire_unbilled (slots : Nat) (depth : Int) :
    (unlessRefused unbilled).Like (acquire slots depth) (acquire slots depth) := by
  unfold acquire
  split
  · exact skip_like (charge_unbilled _) ((unlessRefused unbilled).pure trivial)
  · exact (unlessRefused unbilled).pure trivial

theorem establish_unbilled : (unlessRefused unbilled).Like establish (Pure.pure ()) := by
  refine get_like fun r => ?_
  split
  · refine skip_like (charge_unbilled _) ?_
    refine modify_like fun r => ?_
    rfl
  · exact (unlessRefused unbilled).pure trivial

theorem unbilled_release (failed : Bool) (loan : Loan) (r : ScratchRoom) :
    r.unbilled.release failed loan = (r.release failed loan).unbilled := by
  cases loan with
  | shared => rfl
  | own buffer charged =>
    dsimp only [release]
    rw [if_neg (by simp [unbilled, Books.unbilled]), apply_ite unbilled]
    refine (ite_self _).symm.trans (congrArg₂ (ite _) rfl ?_)
    exact congrArg (ScratchRoom.mk · _) (Books.unbilled_enter _ r.books).symm

end ScratchRoom

/-! ## Instances -/

def Scope.unbilled (s : Scope) : Scope := { s with tenant := s.tenant.unbilled }

theorem Scope.unbilled_obtains : (unlessRefused unbilled).Obtains where
  aside {α x} hAside s _ := by
    have hOther := hAside s s.tenant.unbilled
    show Shadows _ _ _ _ (x s) (x { s with tenant := s.tenant.unbilled })
    rw [hOther]
    have hSame {s' : Scope} (h : s'.tenant = s.tenant) :
        { s' with tenant := s.tenant.unbilled } = s'.unbilled := h ▸ rfl
    cases hRun : x s with
    | ok a s' => exact .ok_of (hSame (hAside.tenant_eq hRun)) ⟨trivial, trivial, trivial⟩
    | error e s' => exact .error_of (hSame (hAside.tenant_eq_of_error hRun)) ⟨trivial, trivial⟩
  find name := get_like fun s => (unlessRefused unbilled).pure trivial
  obtains name size := onPart_like Tenant.unbilled (Tenant.obtain_unbilled name size)

def Instance.unbilled (i : Instance) : Instance :=
  { i with owner := none, scratch := i.scratch.unbilled }

namespace Workshop

/-- An instance whose bytes are not counted, with books without charges. -/
def unbilled (w : Workshop) : Workshop := ⟨w.books.unbilled, w.inst.unbilled⟩

theorem onTenant_unbilled {act act' : Act Tenant α}
    (h : (unlessRefused Tenant.unbilled).Like act act') :
    (unlessRefused unbilled).Like (onTenant act) (onTenant act') := by
  exact onPart_like Tenant.unbilled h

theorem onScratch_unbilled {act act' : Act ScratchRoom α}
    (h : (unlessRefused ScratchRoom.unbilled).Like act act') :
    (unlessRefused unbilled).Like (onScratch act) (onScratch act') := by
  exact onPart_like ScratchRoom.unbilled h

theorem note_unbilled (h : n.isCharge = false) : (unlessRefused unbilled).Like (note n) (note n) :=
  modify_like fun w => congrArg (Workshop.mk · _) (Books.unbilled_note h w.books)

theorem read_unbilled (r : Request) : (unlessRefused unbilled).Like (read r) (read r) := by
  refine get_like fun w => ?_
  have hRead : (unlessRefused Scope.unbilled).Like
      (do let e ← (w.dictionary r).readSource; return (e, (← get).locals))
      (do let e ← (w.dictionary r).readSource; return (e, (← get).locals)) :=
    (Dictionary.readSource_obtains Scope.unbilled_obtains _).bind fun e =>
      get_like fun s => (unlessRefused Scope.unbilled).pure trivial
  exact onPart_like Scope.unbilled hRead

/-- **Compiling** does not depend on charges. -/
theorem compile_unbilled (home : Nat) (r : Request) :
    (unlessRefused unbilled).Like (compile home r) (compile home r) := by
  unfold compile
  split
  · exact (unlessRefused unbilled).throw _
  refine (read_unbilled r).bind fun p => ?_
  refine Like.bind (get_like fun w => Like.bind (modify_like fun w' => ?_) fun _ => ?_)
    fun name => ?_
  · rfl
  · exact (unlessRefused unbilled).pure trivial
  refine Like.bind ?_ fun d => ?_
  · unfold write
    split
    · exact (unlessRefused unbilled).pure trivial
    · exact (unlessRefused unbilled).throw _
  refine (onScratch_unbilled (ScratchRoom.ensure_unbilled _)).bind fun _ => ?_
  refine (onTenant_unbilled (Tenant.chargeOwner_like _)).bind fun _ => ?_
  cases Routine.load d.listing.lines with
  | error problem => exact (unlessRefused unbilled).throw _
  | ok routine =>
    refine (note_unbilled rfl).bind fun _ => get_like fun w => ?_
    dsimp only [unbilled, Instance.unbilled]
    split
    · refine (note_unbilled rfl).bind fun _ => (note_unbilled rfl).bind fun _ => ?_
      exact (unlessRefused unbilled).pure trivial
    · exact (note_unbilled rfl).bind fun _ => (unlessRefused unbilled).pure trivial

theorem establish_unbilled : (unlessRefused unbilled).Like establish (Pure.pure ()) := by
  intro w _
  unfold establish
  split
  · exact .ok ⟨trivial, trivial, trivial⟩
  rcases (Books.charge_unbilled w.inst.bytes w.books trivial).of_ok with
    ⟨f, b, hRefused⟩ | ⟨b, hPaid, hSame⟩
  · rw [hRefused]
    exact .excused trivial
  rw [hPaid]
  dsimp only
  let owned : Workshop := ⟨b, { w.inst with owner := some (.opened w.inst.bytes) }⟩
  have hScratch : (unlessRefused unbilled).Like (onScratch ScratchRoom.establish) (Pure.pure ()) :=
    onScratch_unbilled ScratchRoom.establish_unbilled
  have hOwned : owned.unbilled = w.unbilled := congrArg (Workshop.mk · _) hSame
  rcases (hScratch owned trivial).of_ok with ⟨f, w', hRefused⟩ | ⟨w', hPaid', hSame'⟩
  · rw [hRefused]
    exact .excused trivial
  · rw [hPaid']
    exact .ok_of (hOwned ▸ hSame'.symm) ⟨trivial, trivial, trivial⟩

end Workshop

/-! ## Sessions -/

/-- What a host function did, without the bytes in use. -/
def HostEvent.unbilled : HostEvent → HostEvent
  | .used _ => .used none
  | event => event

namespace Session

/-- A session as if nothing had ever been charged. -/
def unbilled (s : Session) : Session :=
  { s with
    books := s.books.unbilled
    instances := s.instances.map fun p => (p.1, p.2.unbilled)
    events := s.events.map HostEvent.unbilled }

theorem instance?_unbilled (s : Session) (m : Nat) :
    s.unbilled.instance? m = (s.instance? m).map Instance.unbilled := by
  unfold instance? unbilled
  induction s.instances with
  | nil => rfl
  | cons p rest ih =>
    rw [List.map_cons, List.find?_cons, List.find?_cons]
    cases p.1 == m with
    | true => rfl
    | false => exact ih

theorem workshop_unbilled (s : Session) (m : Nat) :
    s.unbilled.workshop m = (s.workshop m).unbilled := by
  unfold workshop
  rw [instance?_unbilled]
  cases s.instance? m with
  | none => rfl
  | some i =>
    dsimp only [Option.map_some, Option.getD_some]
    congr 1
    unfold booksFor
    cases i.owner <;> rfl

theorem changeInstance_unbilled {f g : Instance → Instance}
    (h : ∀ i, g i.unbilled = (f i).unbilled) (s : Session) (m : Nat) :
    s.unbilled.changeInstance m g = (s.changeInstance m f).unbilled := by
  unfold changeInstance unbilled
  congr 1
  rw [List.map_map, List.map_map]
  refine List.map_congr_left fun p _ => ?_
  dsimp only [Function.comp]
  split
  · rw [h]
  · rfl

theorem setWorkshop_unbilled (s : Session) (m : Nat) (w : Workshop) :
    s.unbilled.setWorkshop m w.unbilled = (s.setWorkshop m w).unbilled := by
  have hInst (books : Books) := changeInstance_unbilled (f := fun _ => w.inst)
    (g := fun _ => w.inst.unbilled) (fun _ => rfl) { s with books := books } m
  unfold setWorkshop
  cases hOwner : w.inst.owner with
  | none => exact hInst { w.books with ledger := s.books.ledger }
  | some account => exact hInst w.books

theorem onInstance_unbilled (m : Nat) {act act' : Act Workshop α}
    (h : (unlessRefused Workshop.unbilled).Like act act') :
    (unlessRefused unbilled).Like (onInstance m act) (onInstance m act') := by
  refine onPart_like Workshop.unbilled h ?_ ?_
  · exact fun s => workshop_unbilled s m
  · exact fun w s => setWorkshop_unbilled s m w

theorem changeDepth_unbilled (m : Nat) (f : Nat → Nat) (s : Session) :
    changeDepth m f s.unbilled = (changeDepth m f s).unbilled :=
  changeInstance_unbilled (f := fun i => { i with depth := f i.depth }) (fun _ => rfl) s m

theorem record_unbilled {event event' : HostEvent} (h : event' = event.unbilled) :
    (unlessRefused unbilled).Like (record event) (record event') := by
  refine modify_like fun s => ?_
  show ({ s.unbilled with events := s.events.map HostEvent.unbilled ++ [event'] } : Session) =
    { s.unbilled with events := (s.events ++ [event]).map HostEvent.unbilled }
  rw [List.map_append, List.map_singleton, h]

theorem artifact_unbilled (index : Int) :
    (unlessRefused unbilled).Like (artifact index) (artifact index) := by
  unfold artifact
  split
  · exact (unlessRefused unbilled).throw _
  · refine get_like fun s => ?_
    dsimp only [unbilled]
    split
    · exact (unlessRefused unbilled).pure trivial
    · exact (unlessRefused unbilled).throw _

theorem keep_unbilled (a : Artifact) : (unlessRefused unbilled).Like (keep a) (keep a) := by
  refine get_like fun s => Like.bind (modify_like fun s => ?_) fun _ => ?_
  · rfl
  · exact (unlessRefused unbilled).pure trivial

theorem compile_unbilled (m : Nat) (r : Request) :
    (unlessRefused unbilled).Like (onInstance m (Workshop.compile m r))
      (onInstance m (Workshop.compile m r)) :=
  onInstance_unbilled m (Workshop.compile_unbilled m r)

theorem settle_unbilled : (unlessRefused unbilled).Like
    (modify fun s => { s with books := s.books.settle } : Act Session PUnit)
    (modify fun s => { s with books := s.books.settle }) := by
  refine modify_like fun s => ?_
  show ({ s.unbilled with books := s.books.unbilled.settle } : Session) = _
  rw [Books.unbilled_settle]
  rfl

/-! ## Instances that come and go -/

/-- **Making an instance** does not depend on charges. -/
theorem create_unbilled (name : String) (p : Plan) :
    (unlessRefused unbilled).Like (create name p) (create name p) := by
  intro s _
  let i := Instance.fresh p.allQueries p.actor p.trace
  let ledger := if p.tracked then s.books.ledger else none
  have hCopy : create name p s.unbilled = .ok .done { s.unbilled with
      instances := s.unbilled.instances ++ [(s.nextInstance, i)]
      names := (name, s.nextInstance) :: s.names.filter (·.1 != name)
      nextInstance := s.nextInstance + 1 } := by
    unfold create
    cases p.tracked <;> rfl
  rw [hCopy]
  unfold create
  dsimp only
  rcases (Workshop.establish_unbilled ⟨{ s.books with ledger := ledger }, i⟩ trivial).of_ok with
    ⟨f, w, hRefused⟩ | ⟨w, hPaid, hSame⟩
  · rw [hRefused]
    exact .excused trivial
  have hBooks : w.books.unbilled = s.books.unbilled := congrArg Workshop.books hSame
  have hInst : w.inst.unbilled = i := congrArg Workshop.inst hSame
  rw [hPaid]
  dsimp only
  generalize hAfter : ({ s with books := _, instances := _, names := _, nextInstance := _ } :
    Session) = after
  have hErased : after.unbilled = { s.unbilled with
      instances := s.unbilled.instances ++ [(s.nextInstance, i)]
      names := (name, s.nextInstance) :: s.names.filter (·.1 != name)
      nextInstance := s.nextInstance + 1 } := by
    subst hAfter
    unfold unbilled
    dsimp only
    rw [List.map_append, List.map_singleton, hInst, ← hBooks]
    cases p.tracked <;> rfl
  exact .ok_of hErased.symm ⟨trivial, trivial, trivial⟩

theorem number?_unbilled (s : Session) (name : String) : s.unbilled.number? name = s.number? name :=
  rfl

theorem drop_unbilled (name : String) (s : Session) :
    s.unbilled.drop name = (s.drop name).unbilled := by
  unfold drop
  rw [number?_unbilled]
  cases s.number? name with
  | none => rfl
  | some m =>
    dsimp only
    rw [Books.refundAll_uncounted rfl]
    unfold unbilled
    dsimp only
    rw [Books.unbilled_refundAll, List.filter_map]
    rfl

theorem finish_unbilled (s : Session) : s.unbilled.finish = s.finish.unbilled := by
  show ({ s.unbilled with books := s.books.unbilled.settle } : Session) = _
  rw [Books.unbilled_settle]
  rfl

end Session

end MolangCompiler

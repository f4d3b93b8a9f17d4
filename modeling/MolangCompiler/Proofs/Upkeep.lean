import MolangCompiler.Proofs.Charges
import MolangCompiler.Proofs.Nesting

/-!
# Sessions keep their balance

What operations on an instance do to the balance of the books, they do to that of the whole session.
An evaluation inside another one is charged for the buffer that it is lent, and refunded when it
ends.  In between, the balance of the session is off by the bytes of all buffers that are lent; host
functions that are called meanwhile leave it so.

The routine itself only writes numbers.  It never changes the length of the store, because it copies
as many slots as it reads, and it lengthens the shared buffer only if it does not keep to its room.
-/

namespace MolangCompiler

open Books

open ScratchRoom

open Workshop

/-! ## Sessions -/

variable {α : Type} {call : Session.Calls}

namespace Session

variable {s : Session} {m : Nat} {i : Instance}

/-- Bytes are counted, and every instance has an account of its own. -/
structure Billed (s : Session) : Prop where
  counted : s.books.ledger.isSome = true
  debts : ∀ x ∈ s.books.owed, 0 ≤ x
  numbers : (s.instances.map (·.1)).Nodup
  instances : ∀ {n i}, s.instance? n = some i → i.Billed

def held (s : Session) : Int := (s.instances.map (·.2.held)).sum

def net (s : Session) : Int := s.books.net - s.held

theorem numbers_changeInstance (s : Session) (m : Nat) (g : Instance → Instance) :
    (s.changeInstance m g).instances.map (·.1) = s.instances.map (·.1) := by
  unfold changeInstance
  rw [List.map_map]
  refine List.map_congr_left fun p _ => ?_
  show (if p.1 == m then (m, g p.2) else p).1 = p.1
  split
  · rename_i hSame
    exact (beq_iff_eq.mp hSame).symm
  · rfl

theorem held_of_instance? (hNumbers : (s.instances.map (·.1)).Nodup)
    (hAt : s.instance? m = some i) :
    s.held = i.held + ((s.instances.filter (·.1 != m)).map (·.2.held)).sum := by
  unfold instance? at hAt
  unfold held
  revert hNumbers hAt
  generalize s.instances = instances
  intro hNumbers hAt
  induction instances with
  | nil => cases hAt
  | cons p rest ih =>
    obtain ⟨hFirst, hRest⟩ := List.nodup_cons.mp hNumbers
    simp only [List.map_cons, List.sum_cons]
    cases hSame : p.1 == m with
    | true =>
      -- no other instance has that number
      have hOthers : rest.filter (·.1 != m) = rest := by
        refine List.filter_eq_self.mpr fun q hq => bne_iff_ne.mpr fun hKey => hFirst ?_
        exact List.mem_map.mpr ⟨q, hq, hKey.trans (beq_iff_eq.mp hSame).symm⟩
      simp only [List.find?_cons, hSame] at hAt
      cases hAt
      rw [List.filter_cons_of_neg (by simp [beq_iff_eq.mp hSame]), hOthers]
    | false =>
      simp only [List.find?_cons, hSame] at hAt
      rw [ih hRest hAt, List.filter_cons_of_pos (by simp [bne, hSame]), List.map_cons,
        List.sum_cons]
      omega

theorem filter_changeInstance (s : Session) (m : Nat) (g : Instance → Instance) :
    (s.changeInstance m g).instances.filter (·.1 != m) = s.instances.filter (·.1 != m) := by
  unfold changeInstance
  induction s.instances with
  | nil => rfl
  | cons p rest ih =>
    rw [List.map_cons]
    cases hSame : p.1 == m with
    | true =>
      rw [if_pos rfl, List.filter_cons_of_neg (by simp), ih,
        List.filter_cons_of_neg (by simp [beq_iff_eq.mp hSame])]
    | false =>
      rw [if_neg (by decide), List.filter_cons_of_pos (by simp [bne, hSame]), ih,
        List.filter_cons_of_pos (by simp [bne, hSame])]

theorem held_changeInstance (hNumbers : (s.instances.map (·.1)).Nodup)
    (hAt : s.instance? m = some i) (g : Instance → Instance) :
    (s.changeInstance m g).held = s.held - i.held + (g i).held := by
  have hAt' : (s.changeInstance m g).instance? m = some (g i) := by
    rw [instance?_change hAt, if_pos rfl]
  rw [held_of_instance? hNumbers hAt,
    held_of_instance? ((numbers_changeInstance s m g).symm ▸ hNumbers) hAt',
    filter_changeInstance]
  omega

theorem Billed.change (h : s.Billed) (hAt : s.instance? m = some i) {g : Instance → Instance}
    (hNew : (g i).Billed) :
    (s.changeInstance m g).Billed where
  counted := h.counted
  debts := h.debts
  numbers := (numbers_changeInstance s m g).symm ▸ h.numbers
  instances := forall_instance?_change hAt hNew h.instances

/-- Charges are made within the budget, and the balance changes by `lent` bytes. -/
structure Bills (lent : Int) (s s' : Session) : Prop where
  net : s'.net = s.net + lent
  charged : s.books.Charged s'.books

theorem Bills.refl (s : Session) : Bills 0 s s := ⟨(Int.add_zero _).symm, .refl _⟩

theorem Bills.trans {lent more both : Int} {s₁ s₂ s₃ : Session} (h : Bills lent s₁ s₂)
    (h' : Bills more s₂ s₃) (hBoth : lent + more = both) : Bills both s₁ s₃ where
  net := by
    rw [h'.net, h.net]
    omega
  charged := h.charged.trans h'.charged

theorem Bills.of_change (hBilled : s.Billed) (hAt : s.instance? m = some i)
    {g : Instance → Instance} (hHeld : (g i).held = i.held) :
    Bills 0 s (s.changeInstance m g) where
  net := by
    unfold Session.net
    rw [held_changeInstance hBilled.numbers hAt, hHeld]
    show s.books.net - _ = _
    omega
  charged := .refl _

def billing : Course Session where
  ok := Billed
  le := Bills 0
  refl := .refl
  trans h h' := h.trans h' rfl

/-- Sound and billed sessions that keep their instances and their balance. -/
def upkeep : Course Session where
  ok s := s.Sound ∧ s.Billed
  le s s' := s.Enlarges s' ∧ Bills 0 s s'
  refl s := ⟨.refl s, .refl s⟩
  trans h h' := ⟨h.1.trans h'.1, h.2.trans h'.2 rfl⟩

theorem upkeeps_of_bills {act : Act Session α} {p q : α → Session → Prop} (h : Keeps course p act s)
    (hBills : Keeps billing q act s) : Keeps upkeep p act s := by
  refine fun hOk => .mono ((h hOk.1).and (hBills hOk.2)) ?_ ?_
  · exact fun _ _ h => ⟨⟨h.1.1, h.2.1⟩, ⟨h.1.2.1.enlarges, h.2.2.1⟩, h.1.2.2⟩
  · exact fun _ h => ⟨⟨h.1.1, h.2.1⟩, h.1.2.enlarges, h.2.2⟩

/-! ## Operations on an instance -/

section

variable {s : Session} {m : Nat} {i : Instance}

theorem workshop_of_billed (hBilled : s.Billed) (hAt : s.instance? m = some i) :
    s.workshop m = ⟨s.books, i⟩ := by
  obtain ⟨a, hOwner, -⟩ := (hBilled.instances hAt).account
  unfold workshop
  rw [hAt]
  show (⟨booksFor i s.books, i⟩ : Workshop) = _
  unfold booksFor
  rw [hOwner]

variable {w : Workshop}

theorem setWorkshop_of_billed (hBilled : w.inst.Billed) (s : Session) (m : Nat) :
    s.setWorkshop m w = ({ s with books := w.books }).changeInstance m fun _ => w.inst := by
  obtain ⟨a, hOwner, -⟩ := hBilled.account
  unfold setWorkshop
  rw [hOwner]

theorem Billed.setWorkshop (h : s.Billed) (hAt : s.instance? m = some i)
    (hOk : balance.ok w) (hDebts : ∀ x ∈ w.books.owed, 0 ≤ x) :
    (s.setWorkshop m w).Billed := by
  rw [setWorkshop_of_billed hOk.2]
  have hBooks : ({ s with books := w.books } : Session).Billed :=
    ⟨hOk.1, hDebts, h.numbers, h.instances⟩
  exact hBooks.change (i := i) hAt hOk.2

theorem net_setWorkshop (h : s.Billed) (hAt : s.instance? m = some i) (hBilled : w.inst.Billed)
    :
    (s.setWorkshop m w).net = s.net + (w.net - (s.workshop m).net) := by
  rw [setWorkshop_of_billed hBilled, workshop_of_billed h hAt]
  unfold net Workshop.net
  rw [held_changeInstance (s := { s with books := w.books }) h.numbers hAt]
  show w.books.net - (s.held - _ + _) = _
  dsimp only
  omega

/-- **What keeps the balance of an instance** keeps that of its session. -/
theorem onInstance_bills (hAt : s.instance? m = some i) {act : Act Workshop α}
    {p q : α → Workshop → Prop} (h : Keeps balance p act (s.workshop m))
    (hBooks : Keeps (paying charged) q act (s.workshop m)) :
    Stays billing (onInstance m act) s := by
  intro hBilled
  have hWorkshop := workshop_of_billed hBilled hAt
  have hAfter {w : Workshop} (hOk : balance.ok w) (hNet : w.net = (s.workshop m).net)
      (hDebts : ∀ x ∈ w.books.owed, 0 ≤ x) (hCharged : (s.workshop m).books.Charged w.books) :
      (s.setWorkshop m w).Billed ∧ Bills 0 s (s.setWorkshop m w) := by
    refine ⟨hBilled.setWorkshop hAt hOk hDebts, ?_, ?_⟩
    · rw [net_setWorkshop hBilled hAt hOk.2, hNet]
      omega
    · rw [setWorkshop_of_billed hOk.2]
      rw [hWorkshop] at hCharged
      exact hCharged
  have hEnd := h (by rw [hWorkshop]; exact ⟨hBilled.counted, hBilled.instances hAt⟩)
  have hEnd' := hBooks (by rw [hWorkshop]; exact hBilled.debts)
  refine onPart_ends (.mono (hEnd.and hEnd') (fun _ _ h => ?_) fun _ h => ?_)
  · obtain ⟨hOk, hLe⟩ := hAfter h.1.1 h.1.2.1 h.2.1 h.2.2.1.1
    exact ⟨hOk, hLe, trivial⟩
  · exact hAfter h.1.1 h.1.2 h.2.1 h.2.2.1

theorem modify_bills {f : Session → Session} (hBooks : (f s).books = s.books)
    (hInstances : (f s).instances = s.instances) :
    Stays billing (modify f : Act Session PUnit) s := by
  refine .modify (fun h => ⟨?_, ?_, ?_, fun {n j} hj => h.instances (n := n) ?_⟩)
    (fun _ => ⟨?_, ?_⟩) fun _ => trivial
  · rw [hBooks]
    exact h.counted
  · rw [hBooks]
    exact h.debts
  · rw [hInstances]
    exact h.numbers
  · unfold instance? at hj ⊢
    rw [← hInstances]
    exact hj
  · unfold net held
    rw [hBooks, hInstances, Int.add_zero]
  · rw [hBooks]
    exact .refl _

theorem onTenant_upkeeps (hAt : s.instance? m = some i) {act : Act Tenant α}
    {p q r : α → Tenant → Prop} (h : ∀ t, Keeps Tenant.course p act t)
    (hBalance : ∀ base t, Keeps (Tenant.balance base) q act t)
    (hBooks : ∀ t, Keeps (Tenant.paying charged) r act t) :
    Stays upkeep (onInstance m (onTenant act)) s := by
  exact .forget (upkeeps_of_bills (onInstance_keeps hAt (onTenant_keeps (h _)))
    (onInstance_bills hAt (onTenant_balances (hBalance _ _)) (onTenant_books (hBooks _).forget)))

theorem obtain_upkeeps (hAt : s.instance? m = some i) (name : String) (size : Int) :
    Stays upkeep (onInstance m (onTenant (Tenant.obtain name size))) s :=
  onTenant_upkeeps hAt (fun t => Tenant.keeps_of_making (Tenant.obtain_keeps name size t))
    (fun _ => Tenant.obtain_balances name size)
    (Tenant.obtain_books charged_bookkeeping name size)

theorem record_upkeeps (e : HostEvent) (s : Session) : Stays upkeep (record e) s :=
  upkeeps_of_bills (record_keeps e s) (modify_bills rfl rfl)

theorem changeDepth_upkeeps (hAt : s.instance? m = some i) (f : Nat → Nat)
    (hOk : upkeep.ok s) : upkeep.ok (s.changeDepth m f) ∧ upkeep.le s (s.changeDepth m f) := by
  have hBilled := hOk.2.instances hAt
  refine ⟨⟨hOk.1.changeDepth m f, hOk.2.change hAt ⟨hBilled.account, hBilled.scratch⟩⟩, ?_, ?_⟩
  · exact .of_change hAt (Nat.le_refl _) (Nat.le_refl _) rfl
  · exact .of_change hOk.2 hAt rfl

theorem modifyDepth_upkeeps (hAt : s.instance? m = some i) (f : Nat → Nat) :
    Stays upkeep (modify (changeDepth m f) : Act Session PUnit) s :=
  .modify (fun hOk => (changeDepth_upkeeps hAt f hOk).1)
    (fun hOk => (changeDepth_upkeeps hAt f hOk).2) fun _ => trivial

end

/-! ## Host functions -/

end Session

open Session

/-- **Single operations** keep the balance. -/
theorem Session.upkeep_managed :
    Managed upkeep (fun m s => ∃ i, s.instance? m = some i) (fun a s => s.Houses a) where
  home h := by
    obtain ⟨i, hAt, -⟩ := h
    exact ⟨i, hAt⟩
  later hLe := by
    rintro ⟨i, hAt⟩
    obtain ⟨i', hAt', -⟩ := hLe.1 _ i hAt
    exact ⟨i', hAt'⟩
  lasts hLe h := hLe.1.houses h
  compile request m s := fun ⟨_, hAt⟩ => upkeeps_of_bills (compile_keeps hAt request)
    (onInstance_bills hAt (compile_balances m request _)
      (compile_books charged_bookkeeping m request _))
  keep h := upkeeps_of_bills (q := fun _ _ => True) (keep_keeps h)
    (.get_bind (.bind_pure (modify_bills rfl rfl)))
  artifact index s := upkeeps_of_bills (artifact_keeps index s) (artifact_looks index s)
  set name values := fun ⟨_, hAt⟩ => onTenant_upkeeps hAt (Tenant.setValues_keeps name values)
    (fun _ => Tenant.setValues_balances name values)
    (Tenant.setValues_books charged_bookkeeping name values)
  get name := fun ⟨_, hAt⟩ => onTenant_upkeeps hAt (Tenant.values_looks name)
    (fun _ => Tenant.values_looks name) (Tenant.values_looks name)
  record := record_upkeeps
  settle s := by
    refine upkeeps_of_bills (q := fun _ _ => True) (.forget (modify_keeps rfl rfl rfl rfl)) ?_
    refine .modify (fun h => ?_) (fun h => ⟨?_, ?_⟩) fun _ => trivial
    · refine ⟨?_, (charged_settle h.debts).1, h.numbers, h.instances⟩
      exact (isSome_refundAll _ _).trans h.counted
    · show s.books.settle.net - _ = s.net + 0
      rw [net_settle h.counted, Int.add_zero]
      rfl
    · exact (charged_settle h.debts).2

/-! ## Routines -/

namespace Session

/-- Limits that suit an instance; without templates they keep to the room. -/
structure Suited (lim : Limits) (i : Instance) : Prop where
  slots : lim.slots ≤ i.space.cursor
  room : lim.room ≤ i.scratch.buffer.size
  exact : i.Templateless → ∀ slot size, lim.writable slot size → 0 ≤ slot ∧ slot + size ≤ lim.room

theorem Suited.mono {lim : Limits} {i i' : Instance} (h : Suited lim i)
    (hCursor : i.space.cursor ≤ i'.space.cursor)
    (hBuffer : i.scratch.buffer.size ≤ i'.scratch.buffer.size) (hQueries : i'.queries = i.queries) :
    Suited lim i' where
  slots := Nat.le_trans h.slots hCursor
  room := Nat.le_trans h.room hBuffer
  exact hTemplateless := by
    unfold Instance.Templateless at hTemplateless
    rw [hQueries] at hTemplateless
    exact h.exact hTemplateless

/-- A routine of an artifact is started in a session, with limits that suit its instance. -/
structure Berth where
  session : Session
  artifact : Artifact
  lim : Limits
  inst : Instance
  housed : session.Houses artifact
  here : session.instance? artifact.home = some inst
  suited : Suited lim inst

abbrev Berth.home (B : Berth) : Nat := B.artifact.home

/-- The routine runs: the balance is off by the bytes of the buffer that it was lent. -/
structure World.Upheld (B : Berth) (w : World) : Prop where
  ok : upkeep.ok w.session
  enlarges : B.session.Enlarges w.session
  bills : Bills w.loan.bytes B.session w.session
  lent : 0 ≤ w.loan.bytes
  room : B.lim.room ≤ ((bufferOf B.home).get w).size

namespace World.Upheld

variable {B : Berth} {w : World}

theorem instance? (h : w.Upheld B) :
    ∃ i, w.session.instance? B.home = some i ∧ Suited B.lim i ∧ i.queries = B.inst.queries := by
  obtain ⟨i, hi, hCursor, hBuffer, hQueries⟩ := h.enlarges B.home B.inst B.here
  exact ⟨i, hi, B.suited.mono hCursor hBuffer hQueries, hQueries⟩

theorem step (h : w.Upheld B) {s' : Session} (hOk : upkeep.ok s') (hLe : upkeep.le w.session s') :
    Upheld B { w with session := s' } where
  ok := hOk
  enlarges := h.enlarges.trans hLe.1
  bills := h.bills.trans hLe.2 (Int.add_zero _)
  lent := h.lent
  room := by
    refine Nat.le_trans h.room ?_
    obtain ⟨i, hi, -⟩ := h.enlarges B.home B.inst B.here
    exact hLe.1.buffer_le hi

theorem store_fits (h : w.Upheld B) : B.lim.slots ≤ ((storeOf B.home).get w).size := by
  obtain ⟨i, hi, hHere, -⟩ := h.instance?
  exact World.store_fits hi h.ok.1 hHere.slots

/-- **Variables are set**: the store keeps its length. -/
theorem putStore (h : w.Upheld B) {xs : Array Float}
    (hSize : xs.size = ((storeOf B.home).get w).size)
    (hSame : ∀ j, B.lim.slots ≤ j → xs[j]? = ((storeOf B.home).get w)[j]?) :
    ((storeOf B.home).put xs w).Upheld B := by
  obtain ⟨i, hi, hHere, -⟩ := h.instance?
  rw [store_eq hi] at hSize hSame
  have hBilled := h.ok.2.instances hi
  obtain ⟨a, hOwner, hCovers⟩ := hBilled.account
  have hSlots := hCovers.slots.trans hSize.symm
  refine h.step ⟨?_, ?_⟩ ⟨?_, ?_⟩
  · exact h.ok.1.setStore hi hSize fun j hj => hSame j (Nat.le_trans hHere.slots hj)
  · exact h.ok.2.change hi ⟨⟨a, hOwner, hCovers.base, hSlots, hCovers.entries⟩, hBilled.scratch⟩
  · exact .of_change hi (Nat.le_refl _) (Nat.le_refl _) rfl
  · exact .of_change h.ok.2 hi rfl

/-- **The buffer is written to**: it gets longer only if the routine does not keep to its room. -/
theorem putBuffer (h : w.Upheld B) {xs : Array Float}
    (hSize : ((bufferOf B.home).get w).size ≤ xs.size)
    (hExact : B.inst.Templateless → xs.size = ((bufferOf B.home).get w).size) :
    ((bufferOf B.home).put xs w).Upheld B := by
  obtain ⟨i, hi, hHere, hQueries⟩ := h.instance?
  have hRoom := Nat.le_trans h.room hSize
  obtain ⟨session, loan⟩ := w
  cases loan with
  | own buffer charged =>
    exact ⟨h.ok, h.enlarges, h.bills, h.lent, hRoom⟩
  | shared =>
    rw [buffer_shared rfl hi] at hSize hExact
    have hBilled := h.ok.2.instances hi
    have hPaid := hBilled.scratch.paid
    refine h.step ⟨h.ok.1.setBuffer hi hSize, h.ok.2.change hi ⟨hBilled.account, ?_⟩⟩
      ⟨.of_change hi (Nat.le_refl _) hSize rfl, .of_change h.ok.2 hi rfl⟩
    refine .of_charged _ hBilled.scratch.charged (Nat.le_trans hPaid hSize) fun hTemplateless => ?_
    have hStrict : i.Templateless := hTemplateless
    rw [hBilled.scratch.exact hStrict]
    refine (hExact ?_).symm
    unfold Instance.Templateless at hStrict
    rw [hQueries] at hStrict
    exact hStrict

end World.Upheld

/-- **The operations of a routine** keep the balance, but for the buffer that it was lent. -/
theorem machine_maintains (B : Berth) (depth : Nat)
    (hCall : ∀ f xs {s : Session}, s.Houses B.artifact → Stays upkeep (call f xs) s) :
    (machine B.home depth call).Maintains B.lim (World.Upheld B) (World.Upheld B) where
  readVariable {slot} _ {w} h := by
    refine Ends.mono (Slots.read_ends _ slot w) ?_ ?_
    · rintro _ w' rfl
      exact h
    · rintro w' rfl
      exact h
  writeVariable {slot} hSlot x {w} h := by
    refine Ends.mono (Slots.write_ends _ slot x w) ?_ ?_
    · rintro _ w' ⟨xs, hSet, rfl⟩
      refine h.putStore (size_of_setSlot? hSet) fun j hj => getElem?_of_setSlot? hSet ?_
      omega
    · rintro w' rfl
      exact h
  call _ g args {w} h := by
    show Ends _ _ (onPart World.session (fun s w => { w with session := s }) (call g args) w)
    refine onPart_ends (Ends.mono (hCall g args (h.enlarges.houses B.housed) h.ok) ?_ ?_)
    · exact fun _ s' hEnd => h.step hEnd.1 hEnd.2.1
    · exact fun s' hEnd => h.step hEnd.1 hEnd.2
  writeSlot {slot} _ x {w} h := by
    refine Ends.mono (Slots.write_ends _ slot x w) ?_ ?_
    · rintro _ w' ⟨xs, hSet, rfl⟩
      have hSize := size_of_setSlot? hSet
      exact h.putBuffer (Nat.le_of_eq hSize.symm) fun _ => hSize
    · rintro w' rfl
      exact h
  load {slot offset size} hSlot hSpan {w} h := by
    have hRead := size_slice (Nat.le_trans hSpan h.store_fits)
    refine Ends.ok (h.putBuffer (size_le_splice hRead) fun hTemplateless => ?_)
    have hWithin := B.suited.exact hTemplateless slot size hSlot
    have hRoom := h.room
    refine size_splice ?_ hRead
    omega
  store {slot offset size} hSpan hSlot {w} h := by
    have hRead := size_slice (hSlot.toNat_le h.room)
    have hFits := Nat.le_trans hSpan h.store_fits
    refine Ends.ok (h.putStore (size_splice hFits hRead) fun j hj => ?_)
    exact getElem?_splice_outside hFits hRead (.inr (by omega))

/-! ## Evaluations -/

section

variable {s : Session} {m : Nat} {i : Instance}

/-- Only the books change. -/
theorem setWorkshop_books (hBilled : s.Billed) (hAt : s.instance? m = some i) {b : Books}
    (hCounted : b.ledger.isSome = true) (hDebts : ∀ x ∈ b.owed, 0 ≤ x)
    (hCharged : s.books.Charged b) {lent : Int} (hNet : b.net = s.books.net + lent) :
    (s.setWorkshop m ⟨b, i⟩).Billed ∧ Bills lent s (s.setWorkshop m ⟨b, i⟩) := by
  have hOk : Workshop.balance.ok ⟨b, i⟩ := ⟨hCounted, hBilled.instances hAt⟩
  refine ⟨hBilled.setWorkshop hAt hOk hDebts, ?_, ?_⟩
  · rw [net_setWorkshop hBilled hAt hOk.2, workshop_of_billed hBilled hAt]
    unfold Workshop.net
    dsimp only
    omega
  · rw [setWorkshop_of_billed hOk.2]
    exact hCharged

theorem acquire_bills (hBilled : s.Billed) (hAt : s.instance? m = some i) (slots depth : Nat) :
    Ends (fun loan s' => s'.Billed ∧ Bills loan.bytes s s' ∧ 0 ≤ loan.bytes)
      (fun s' => s'.Billed ∧ Bills 0 s s')
      (onInstance m (onScratch (acquire slots depth)) s) := by
  have hLent := acquire_ends slots depth (r := ⟨s.books, i.scratch⟩) hBilled.counted
  have hBooks := acquire_books charged_bookkeeping slots depth ⟨s.books, i.scratch⟩ hBilled.debts
  unfold onInstance onScratch onPart
  rw [workshop_of_billed hBilled hAt]
  generalize acquire slots depth ⟨s.books, i.scratch⟩ = out at hLent hBooks ⊢
  cases hLent with
  | @ok loan r hLent =>
    obtain ⟨hScratch, hCounted, hNet, hPaid⟩ := hLent
    cases hBooks with
    | ok hEnd =>
      have hSame : r.scratch = i.scratch := by rw [hScratch]
      dsimp only
      rw [hSame]
      obtain ⟨hOk, hBills⟩ := setWorkshop_books hBilled hAt hCounted hEnd.1 hEnd.2.1 hNet
      exact .ok ⟨hOk, hBills, hPaid⟩
  | error hSame =>
    subst hSame
    exact .error (setWorkshop_books hBilled hAt hBilled.counted hBilled.debts (.refl _)
      (Int.add_zero _).symm)

theorem World.close_bills (failed : Bool) {w : World} (hBilled : w.session.Billed)
    (hAt : w.session.instance? m = some i) (hPaid : 0 ≤ w.loan.bytes) :
    (w.close failed m).Billed ∧ Bills (-w.loan.bytes) w.session (w.close failed m) := by
  let room : ScratchRoom := ⟨w.session.books, i.scratch⟩
  have hCounted : (room.release failed w.loan).books.ledger.isSome = true := by
    cases w.loan with
    | shared => exact hBilled.counted
    | own buffer charged =>
      dsimp only [release]
      split
      · exact hBilled.counted
      · exact (isSome_enter _ _).trans hBilled.counted
  have hClose : w.close failed m =
      w.session.setWorkshop m ⟨(room.release failed w.loan).books, i⟩ := by
    unfold close onInstance onScratch onPart
    rw [workshop_of_billed hBilled hAt]
    show w.session.setWorkshop m ⟨_, { i with scratch := (room.release failed w.loan).scratch }⟩ = _
    rw [room.scratch_release]
  obtain ⟨hDebts, hCharged⟩ := charged_release failed hPaid (r := room) hBilled.debts
  rw [hClose]
  refine setWorkshop_books hBilled hAt hCounted hDebts hCharged ?_
  rw [net_release failed w.loan (r := room) hBilled.counted]
  show w.session.books.net - _ = _
  omega

end

variable {s : Session}

/-- **A routine** keeps the balance, whatever it calls. -/
theorem runRoutine_upkeeps {a : Artifact} (depth : Nat)
    (hCall : ∀ f xs {s : Session}, s.Houses a → Stays upkeep (call f xs) s) (args : List Float)
    (hHoused : s.Houses a) : Stays upkeep (runRoutine a depth call args) s := by
  intro hOk
  obtain ⟨i, hAt, hSuits⟩ := id hHoused
  -- without templates the routine keeps to its room
  have hLimits : ∃ lim K, a.routine.Checked lim K ∧ Suited lim i := by
    by_cases hTemplateless : i.Templateless
    · obtain ⟨room, slots, hChecked, hSlots, hRoom⟩ := hSuits.exact .any hTemplateless.obeys
      exact ⟨_, _, hChecked, hSlots, hRoom, fun _ _ _ hSpan => hSpan⟩
    · obtain ⟨room, slots, hLoose, hSlots, hRoom⟩ := hSuits.loose
      exact ⟨_, _, hLoose, hSlots, hRoom, fun h => absurd h hTemplateless⟩
  obtain ⟨lim, K, hChecked, hSuited⟩ := hLimits
  let B : Berth := ⟨s, a, lim, i, hHoused, hAt, hSuited⟩
  have hAcquire : Ends (fun _ => World.Upheld B) (World.Upheld B)
      ((machine a.home depth call).acquire lim.room ⟨s, .shared⟩) := by
    refine acquire_lends (.mono ((acquire_roomy hAt hOk.1 hSuited.room depth).and
      (acquire_bills hOk.2 hAt lim.room depth)) ?_ ?_)
    · rintro loan s' ⟨⟨hSound, hGrows, hRoom, -⟩, hBilled, hBills, hLent⟩
      exact ⟨⟨hSound, hBilled⟩, hGrows.enlarges, hBills, hLent, hRoom⟩
    · rintro s' ⟨⟨hSound, hGrows, hRoom⟩, hBilled, hBills⟩
      exact ⟨⟨hSound, hBilled⟩, hGrows.enlarges, hBills, Int.le_refl _, hRoom⟩
  have hRun := Routine.run_maintains (machine_maintains B depth hCall) hChecked
    hAcquire args (.inl id)
  have hClosed (failed : Bool) {w : World} (h : w.Upheld B) :
      upkeep.ok (w.close failed a.home) ∧ upkeep.le s (w.close failed a.home) := by
    obtain ⟨i', hi', -⟩ := h.instance?
    obtain ⟨hSound, hGrows⟩ := World.close_grows failed hi' h.ok.1
    obtain ⟨hBilled, hBills⟩ := World.close_bills failed h.ok.2 hi' h.lent
    exact ⟨⟨hSound, hBilled⟩, h.enlarges.trans hGrows.enlarges,
      h.bills.trans hBills (Int.add_right_neg _)⟩
  unfold runRoutine
  generalize a.routine.run _ args (⟨s, .shared⟩ : World) = out at hRun ⊢
  cases hRun with
  | ok h => exact .ok ⟨(hClosed false h).1, (hClosed false h).2, trivial⟩
  | error h => exact .error (hClosed true h)

theorem evaluateWith_upkeeps {a : Artifact}
    (hCall : ∀ f xs {s : Session}, s.Houses a → Stays upkeep (call f xs) s) (args : List Float)
    (hHoused : s.Houses a) :
    Stays upkeep (evaluateWith call a args) s := by
  obtain ⟨i, hAt, -⟩ := id hHoused
  show Stays upkeep (if args.length ≠ a.args then _ else _) s
  split
  · exact .throw
  refine .bind (modifyDepth_upkeeps hAt _) fun _ s₁ _ hLe _ => .get_bind ?_
  have hHoused₁ := hLe.1.houses hHoused
  refine followedBy_keeps (runRoutine_upkeeps _ hCall _ hHoused₁) fun s' hOk hLe' => ?_
  obtain ⟨i', hAt', -⟩ := hLe'.1.houses hHoused₁
  exact changeDepth_upkeeps hAt' (· - 1) hOk

theorem plain_upkeeps :
    Manner.plain.Reflects .plain (.kept upkeep) (fun a s => s.Houses a) (fun _ => True) where
  lasts hLe h := hLe.1.houses h
  look s := fun hOk => .ok ⟨hOk, upkeep.refl s, trivial⟩
  record := record_upkeeps
  chore chore _ _ h := upkeep_managed.chore chore (upkeep_managed.home h)
  find target _ _ h := upkeep_managed.find target h
  tooDeep _ := .throw
  evaluate args _ hCall h := evaluateWith_upkeeps hCall args h

/-- **Evaluations nested to any depth** keep the balance, whatever the host functions do. -/
theorem hosted_upkeeps (host : Host) (limit : Nat) (a : Artifact) (args : List Float)
    (hHoused : s.Houses a) : Stays upkeep (hosted host limit a args) s :=
  plain_upkeeps.hosted host limit a args hHoused

end Session

end MolangCompiler

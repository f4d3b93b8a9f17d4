import MolangCompiler.Proofs.Bookkeeping
import MolangCompiler.Proofs.Scripts
import MolangCompiler.Proofs.Signs

/-!
# Numbers of single precision

Numbers are rounded when they enter a store or a buffer, what is copied from one place to another
has been rounded before, and whatever makes room fills it with zeros.  So all operations of a
session, whether they fail or not, keep a session in which all stored numbers are of single
precision (`Session.Rounded`).

Of rounding only this is used: rounding twice is rounding once, zero and one are not changed, a
change of the sign does not matter, and setting a slot rounds.
-/

namespace MolangCompiler

/-! ## Numbers -/

/-- A number that rounding to single precision does not change. -/
def IsSingle (x : Float) : Prop := single x = x

theorem isSingle_single (x : Float) : IsSingle (single x) := single_single x

private theorem isSingle_zero : IsSingle 0 := single_zero

private theorem isSingle_one : IsSingle 1 := single_one

variable {x : Float} {α : Type}

theorem IsSingle.neg (h : IsSingle x) : IsSingle (-x) := by
  unfold IsSingle
  rw [single_neg, h]

theorem BinaryOp.isSingle_ofBool (b : Bool) : IsSingle (ofBool b) := by
  cases b with
  | true => exact isSingle_one
  | false => exact isSingle_zero

theorem BinaryOp.isSingle_apply (op : BinaryOp) (x y : Float) : IsSingle (op.apply x y) := by
  cases op with
  | add | sub | mul | div => exact isSingle_single _
  | lt | le | gt | ge | eq | ne => exact isSingle_ofBool _

def AllSingle (xs : Array Float) : Prop := ∀ x ∈ xs, IsSingle x

namespace AllSingle

variable {xs ys : Array Float}

theorem empty : AllSingle #[] := fun _ hx => absurd hx (Array.not_mem_empty _)

theorem zeros (count : Nat) : AllSingle (Array.replicate count 0) := by
  intro x hx
  rw [(Array.mem_replicate.mp hx).2]
  exact isSingle_zero

theorem append (hxs : AllSingle xs) (hys : AllSingle ys) : AllSingle (xs ++ ys) := by
  intro x hx
  rcases Array.mem_append.mp hx with hx | hx
  · exact hxs x hx
  · exact hys x hx

theorem extract (h : AllSingle xs) (start stop : Nat) : AllSingle (xs.extract start stop) := by
  intro x hx
  obtain ⟨j, hj⟩ := Array.mem_iff_getElem?.mp hx
  rw [Array.getElem?_extract] at hj
  split at hj
  · exact h x (Array.mem_iff_getElem?.mpr ⟨_, hj⟩)
  · cases hj

theorem splice (hxs : AllSingle xs) (hys : AllSingle ys) (start stop : Nat) :
    AllSingle (splice xs start stop ys) :=
  ((hxs.extract 0 start).append hys).append (hxs.extract _ _)

/-- **A slot that is set** holds a rounded number. -/
theorem set (h : AllSingle xs) (slot : Nat) (x : Float) :
    AllSingle (xs.setIfInBounds slot (single x)) := by
  intro y hy
  rcases Array.mem_or_eq_of_mem_setIfInBounds hy with hy | rfl
  · exact h y hy
  · exact isSingle_single x

theorem setSlot? {slot : Nat} (h : AllSingle xs)
    (hSet : MolangCompiler.setSlot? xs slot x = some ys) : AllSingle ys := by
  unfold MolangCompiler.setSlot? at hSet
  split at hSet
  · cases hSet
    exact h.set slot x
  · cases hSet

end AllSingle

theorem IsSingle.read_back (h : IsSingle x) {xs ys : Array Float} {slot : Nat}
    (hSet : setSlot? xs slot x = some ys) : ys[slot]? = some x := by
  unfold setSlot? at hSet
  split at hSet
  · rename_i hSlot
    cases hSet
    rw [Array.getElem?_setIfInBounds_self_of_lt hSlot, h]
  · cases hSet

/-! ## Operations that keep a property -/

/-- An operation keeps a property of its state, whether it fails or not. -/
def Preserves {σ α : Type} (P : σ → Prop) (act : Act σ α) : Prop :=
  ∀ s, P s → Ends (fun _ => P) P (act s)

namespace Preserves

variable {σ τ α β : Type} {P : σ → Prop} {Q : τ → Prop}

variable {act : Act σ α}

theorem keeps (h : Preserves P act) (s : σ) : Stays (.holding P) act s :=
  fun hs => .mono (h s hs) (fun _ _ h' => ⟨h', trivial, trivial⟩) fun _ h' => ⟨h', trivial⟩

theorem of_keeps {p : α → σ → Prop} (h : ∀ s, Keeps (.holding P) p act s) : Preserves P act :=
  fun s hs => .mono (h s hs) (fun _ _ h' => h'.1) fun _ h' => h'.1

theorem pure (a : α) : Preserves P (Pure.pure a : Act σ α) := fun _ h => .ok h

theorem throw (e : Failure) : Preserves P (MonadExcept.throw e : Act σ α) := fun _ h => .error h

theorem bind {x : Act σ α} {f : α → Act σ β} (hx : Preserves P x) (hf : ∀ a, Preserves P (f a)) :
    Preserves P (x >>= f) :=
  fun s h => .bind (hx s h) fun a s' h' => hf a s' h'

theorem get_bind {f : σ → Act σ β} (hf : ∀ s, Preserves P (f s)) :
    Preserves P (MonadState.get >>= f) :=
  fun s h => hf s s h

theorem modify {f : σ → σ} (hf : ∀ s, P s → P (f s)) :
    Preserves P (MonadState.modifyGet fun s => (⟨⟩, f s) : Act σ PUnit) :=
  fun s h => .ok (hf s h)

theorem onPart {part : σ → τ} {put : τ → σ → σ} {act : Act τ α} (h : Preserves Q act)
    (hPart : ∀ s, P s → Q (part s)) (hPut : ∀ s t, P s → Q t → P (put t s)) :
    Preserves P (onPart part put act) := by
  intro s hs
  refine onPart_ends (.mono (h _ (hPart s hs)) ?_ ?_)
  · exact fun _ t ht => hPut s t hs ht
  · exact fun t ht => hPut s t hs ht

theorem of_same (part : σ → τ)
    (h : ∀ s, Ends (fun _ s' => part s' = part s) (fun s' => part s' = part s) (act s)) :
    Preserves (fun s => Q (part s)) act := by
  intro s hs
  refine .mono (h s) ?_ ?_
  · intro _ s' hSame
    rw [hSame]
    exact hs
  · intro s' hSame
    rw [hSame]
    exact hs

end Preserves

/-! ## Variables -/

def Namespace.Rounded (ns : Namespace) : Prop := AllSingle ns.store

theorem Namespace.Rounded.write {vs : List Float} :
    ∀ {ns : Namespace} {slot : Nat}, ns.Rounded → (ns.write slot vs).Rounded := by
  induction vs with
  | nil => exact fun h => h
  | cons x rest ih =>
    intro ns slot h
    apply ih
    exact h.set slot x

namespace Tenant

abbrev Rounded (t : Tenant) : Prop := t.space.Rounded

theorem chargeOwner_preserves (expense : Expense) : Preserves Rounded (chargeOwner expense) :=
  .of_same space (chargeOwner_space expense)

theorem obtain_preserves (name : String) (size : Int) :
    Preserves Rounded (Tenant.obtain name size) := by
  intro t h
  have hLong (slots : Nat) : (t.space.lengthen slots).Rounded := .append h (.zeros _)
  refine .mono (obtain_space name size t) (fun v t' hObtains => ?_) fun t' ⟨slots, hSpace⟩ => ?_
  · unfold Rounded
    generalize t'.space = ns at hObtains ⊢
    cases hObtains with
    | old => exact h
    | new => exact hLong _
  · unfold Rounded
    rw [hSpace]
    exact hLong slots

/-- **Values that are set are rounded.** -/
theorem setValues_preserves (name : String) (vs : List Float) :
    Preserves Rounded (setValues name vs) :=
  .of_keeps fun t => setValues_course (fun _ _ => trivial) (fun _ => (obtain_preserves _ _).keeps t)
    fun _ _ _ _ h => ⟨h.write, trivial⟩

theorem values_preserves {P : Tenant → Prop} (name : String) : Preserves P (values name) :=
  .of_keeps (values_looks name)

end Tenant

/-! ## Scratch space -/

namespace ScratchRoom

/-- The numbers in the shared buffer are of single precision. -/
abbrev Rounded (r : ScratchRoom) : Prop := AllSingle r.scratch.buffer

theorem charge_preserves (bytes : Int) : Preserves Rounded (charge bytes) :=
  .of_same (Q := fun scratch : Scratch => AllSingle scratch.buffer) scratch (charge_scratch bytes)

theorem establish_preserves : Preserves Rounded establish := by
  refine .get_bind fun r => ?_
  split
  · exact .bind (charge_preserves _) fun _ => .modify fun _ h => h
  · exact .pure _

theorem ensure_preserves (slots : Int) : Preserves Rounded (ensure slots) := by
  refine .get_bind fun r => ?_
  extract_lets missing lengthen
  have hLengthen : Preserves Rounded (lengthen ⟨⟩) := by
    refine .bind (.modify ?_) fun _ => .modify fun _ h => h
    exact fun r' h => .append h (.zeros _)
  split
  · refine .get_bind fun r' => ?_
    split
    · exact .bind (charge_preserves _) fun _ => hLengthen
    · exact hLengthen
  · exact .pure _

theorem release_rounded (failed : Bool) (loan : Loan) {r : ScratchRoom} (h : r.Rounded) :
    (r.release failed loan).Rounded := by
  unfold Rounded
  rw [r.scratch_release]
  exact h

end ScratchRoom

/-- A buffer of its own that an evaluation was given holds numbers of single precision. -/
def Loan.Rounded : Loan → Prop
  | .shared => True
  | .own buffer _ => AllSingle buffer

theorem ScratchRoom.acquire_rounded (slots depth : Nat) (r : ScratchRoom) (h : r.Rounded) :
    Ends (fun loan r' => loan.Rounded ∧ r'.Rounded) Rounded (acquire slots depth r) := by
  by_cases hDepth : depth ≤ 1
  · rw [acquire_shallow hDepth]
    exact .ok ⟨trivial, h⟩
  · rw [acquire_deep (Nat.lt_of_not_le hDepth)]
    exact .bind (charge_preserves _ r h) fun _ _ h' => .ok ⟨.zeros slots, h'⟩

/-! ## Instances -/

/-- All numbers that an instance stores are of single precision. -/
structure Instance.Rounded (i : Instance) : Prop where
  space : i.space.Rounded
  buffer : AllSingle i.scratch.buffer

namespace Workshop

/-- All numbers that the instance stores are of single precision. -/
abbrev Rounded (w : Workshop) : Prop := w.inst.Rounded

theorem onTenant_preserves {act : Act Tenant α} (h : Preserves Tenant.Rounded act) :
    Preserves Rounded (onTenant act) :=
  .onPart h (fun _ hw => hw.space) fun _ _ hw ht => ⟨ht, hw.buffer⟩

theorem onScratch_preserves {act : Act ScratchRoom α} (h : Preserves ScratchRoom.Rounded act) :
    Preserves Rounded (onScratch act) :=
  .onPart h (fun _ hw => hw.buffer) fun _ _ hw hr => ⟨hw.space, hr⟩

theorem note_preserves (n : Note) : Preserves Rounded (note n) := .modify fun _ h => h

theorem read_preserves (r : Request) : Preserves Rounded (read r) := by
  refine .get_bind fun w => .onPart (Q := fun s : Scope => s.tenant.Rounded) ?_
    (fun _ h => h.space) fun _ _ h hs => ⟨hs, h.buffer⟩
  refine .bind (fun s hs => ?_) fun e => .get_bind fun _ => .pure _
  -- reading reaches variables by obtaining them only
  have hRead := Dictionary.readSource_onTenant
    (fun name size => (Tenant.obtain_preserves name size).keeps) (w.dictionary r) s hs
  exact .mono hRead (fun _ _ h => h.1) fun _ h => h.1

/-- **Compiling** stores nothing but zeros. -/
theorem compile_preserves (home : Nat) (r : Request) : Preserves Rounded (compile home r) := by
  refine .of_keeps (compile_course home r (read_preserves r).keeps ?_ ?_ ?_ ?_)
  · exact fun _ _ h => ⟨⟨h.space, h.buffer⟩, trivial⟩
  · exact fun slots => (onScratch_preserves (ScratchRoom.ensure_preserves slots)).keeps
  · exact fun _ => (onTenant_preserves (Tenant.chargeOwner_preserves _)).keeps
  · exact fun n _ => (note_preserves n).keeps

theorem establish_preserves : Preserves Rounded establish := by
  intro w hw
  unfold establish
  split
  · exact .ok hw
  · cases Books.charge w.inst.bytes w.books with
    | error e b => exact .error hw
    | ok _ b =>
      have hScratch := onScratch_preserves ScratchRoom.establish_preserves
        ⟨b, { w.inst with owner := some (.opened w.inst.bytes) }⟩ ⟨hw.space, hw.buffer⟩
      dsimp only
      generalize onScratch ScratchRoom.establish _ = out at hScratch ⊢
      cases hScratch with
      | ok h => exact .ok h
      | error h => exact .error h

end Workshop

/-! ## Sessions -/

namespace Session

/-- All numbers that the instances of a session store are of single precision. -/
def Rounded (s : Session) : Prop := ∀ p ∈ s.instances, p.2.Rounded

theorem rounded_start (ledger : Option Ledger) : (start ledger).Rounded :=
  List.forall_mem_nil _

variable {s : Session}

theorem Rounded.changeInstance (h : s.Rounded) (m : Nat) {f : Instance → Instance}
    (hf : ∀ i, i.Rounded → (f i).Rounded) :
    (s.changeInstance m f).Rounded := by
  intro p hp
  obtain ⟨q, hq, rfl⟩ := List.mem_map.mp hp
  split
  · exact hf q.2 (h q hq)
  · exact h q hq

theorem Rounded.changeDepth (h : s.Rounded) (m : Nat) (f : Nat → Nat) :
    (s.changeDepth m f).Rounded :=
  h.changeInstance m fun _ hi => ⟨hi.space, hi.buffer⟩

theorem Rounded.workshop (h : s.Rounded) (m : Nat) : (s.workshop m).Rounded := by
  show ((s.instance? m).getD default).Rounded
  cases hAt : s.instance? m with
  | none => exact ⟨.empty, .empty⟩
  | some i =>
    obtain ⟨p, hp, rfl⟩ := Option.map_eq_some_iff.mp hAt
    exact h p (List.mem_of_find?_eq_some hp)

theorem Rounded.setWorkshop (h : s.Rounded) (m : Nat) {w : Workshop} (hw : w.Rounded) :
    (s.setWorkshop m w).Rounded := by
  have hInstances := h.changeInstance m (f := fun _ => w.inst) fun _ _ => hw
  exact hInstances

theorem onInstance_preserves (m : Nat) {act : Act Workshop α} (h : Preserves Workshop.Rounded act) :
    Preserves Rounded (onInstance m act) :=
  .onPart h (fun _ hs => hs.workshop m) fun _ _ hs hw => hs.setWorkshop m hw

theorem record_preserves (e : HostEvent) : Preserves Rounded (record e) := .modify fun _ h => h

theorem keep_preserves (a : Artifact) : Preserves Rounded (keep a) :=
  .get_bind fun _ => .bind (.modify fun _ h => h) fun _ => .pure _

/-- **Single operations** keep all stored numbers of single precision. -/
theorem rounded_managed : Managed (.holding Rounded) (fun _ _ => True) (fun _ _ => True) where
  home _ := trivial
  later _ _ := trivial
  lasts _ _ := trivial
  compile request number :=
    fun _ => (onInstance_preserves number (Workshop.compile_preserves _ request)).keeps _
  keep {a _} _ := (keep_preserves a).keeps _
  artifact index s := .forget (artifact_looks index s)
  set name values number := fun _ => (onInstance_preserves number
    (Workshop.onTenant_preserves (Tenant.setValues_preserves name values))).keeps _
  get name number := fun _ => (onInstance_preserves number
    (Workshop.onTenant_preserves (Tenant.values_preserves name))).keeps _
  record e := (record_preserves e).keeps
  settle := Preserves.keeps (.modify fun _ h => h)

/-! ## Commands -/

theorem create_preserves (name : String) (p : Plan) : Preserves Rounded (create name p) := by
  intro s hs
  unfold create
  extract_lets i ledger
  have hEstablish := Workshop.establish_preserves ⟨{ s.books with ledger := ledger }, i⟩
    ⟨.empty, .empty⟩
  generalize Workshop.establish _ = out at hEstablish ⊢
  cases hEstablish with
  | error _ => exact .error hs
  | ok hNew =>
    exact .ok (List.forall_mem_append.mpr ⟨hs, List.forall_mem_singleton.mpr hNew⟩)

theorem Rounded.drop (h : s.Rounded) (name : String) : (s.drop name).Rounded := by
  unfold Session.drop
  split
  · exact h
  · exact fun p hp => h p (List.mem_filter.mp hp).1

section

variable {evaluate : Evaluator} (hEvaluate : ∀ a args, Preserves Rounded (evaluate a args))
include hEvaluate

theorem doTask_preserves (m : Nat) (task : Task) : Preserves Rounded (doTask evaluate m task) := by
  refine .of_keeps fun s => rounded_managed.task (fun a args _ _ => (hEvaluate a args).keeps _) ?_
    trivial task fun name size _ => ?_
  · exact rounded_managed.nested (fun a args _ _ => (hEvaluate a args).keeps _)
      fun f s _ h => ⟨h.changeDepth m f, trivial⟩
  · exact (onInstance_preserves m
      (Workshop.onTenant_preserves (Tenant.obtain_preserves name size))).keeps s

/-- **Every command** keeps all stored numbers of single precision, if evaluations do. -/
theorem obeyVia_preserves (command : Command) : Preserves Rounded (obeyVia evaluate command) := by
  cases command with
  | create name plan => exact create_preserves name plan
  | drop name => exact .bind (.modify fun _ h => h.drop name) fun _ => .pure _
  | setBudget budget => exact .bind (.modify fun _ h => h) fun _ => .pure _
  | setSlack slack =>
    exact .get_bind fun _ => .bind (.modify fun _ h => h) fun _ => .pure _
  | task name task =>
    refine .get_bind fun s => ?_
    split
    · exact .throw _
    · exact doTask_preserves hEvaluate _ task

end

end Session

end MolangCompiler

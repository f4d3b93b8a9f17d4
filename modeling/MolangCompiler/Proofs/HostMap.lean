import MolangCompiler.Proofs.Mentions
import MolangCompiler.Proofs.NamedValues

/-!
# Variables as a host sees them

A host knows variables by their names without a size.  What it sees is a finite map from names to
lists of numbers: setting values replaces those of one name, and compiling a source adds names with
zeros.

Behind the map there are records with places in a store, and a name is looked up in two ways, as the
exact name of a record and then as a name behind a size.  That this makes a map rests on an
invariant: no two records have the same name behind their sizes (`Namespace.Indexed`).  Hosts and
sources keep it, since both look a name up before they make a record for it, and neither can spell a
size.
-/

namespace MolangCompiler

open Namespace

/-! ## Namespaces as maps -/

theorem Tiles.apart (vs : List Variable) : ∀ {start : Nat}, Tiles start vs → ∀ u ∈ vs, ∀ v ∈ vs,
    u ≠ v → u.stop ≤ v.offset ∨ v.stop ≤ u.offset := by
  induction vs with
  | nil => exact fun _ => List.forall_mem_nil _
  | cons w rest ih =>
    intro start h u hu v hv hOther
    have hBehind := mem_bounds rest h.2
    rcases List.mem_cons.mp hu with hFirst | hRest
    · rcases List.mem_cons.mp hv with hSame | hRest
      · exact absurd (hFirst.trans hSame.symm) hOther
      · exact .inl (hFirst ▸ (hBehind v hRest).1)
    · rcases List.mem_cons.mp hv with hFirst | hRest'
      · exact .inr (hFirst ▸ (hBehind u hRest).1)
      · exact ih h.2 u hRest v hRest' hOther

namespace Namespace

variable {ns ns' : Namespace} {n : String} {u v : Variable}

theorem read_congr (h : ∀ j, v.offset ≤ j → j < v.stop → ns'.store[j]? = ns.store[j]?) :
    ns'.read v = ns.read v := by
  have hShort (ns : Namespace) : (ns.read v).length ≤ v.size := by
    unfold read Variable.stop
    rw [Array.length_toList, Array.size_extract]
    omega
  apply List.ext_getElem?
  intro j
  by_cases hj : j < v.size
  · rw [getElem?_read _ _ hj, getElem?_read _ _ hj]
    exact h _ (by omega) (by unfold Variable.stop; omega)
  · rw [List.getElem?_eq_none (Nat.le_trans (hShort ns') (by omega)),
      List.getElem?_eq_none (Nat.le_trans (hShort ns) (by omega))]

def sees (ns : Namespace) (n : String) : Option (List Float) := (ns.find? n).map ns.read

/-- **At most one variable for each name.**  The names of variables are those that hosts and sources
use, with their sizes in front of them. -/
structure Indexed (ns : Namespace) : Prop where
  sound : ns.Sound
  plain : ∀ v ∈ ns.records, '$' ∉ v.base.toList ∧ v.base ≠ ""
  named : ∀ v ∈ ns.records, v.name = sizedName v.base v.size
  distinct : (ns.records.map Variable.base).Nodup

namespace Indexed

theorem empty : empty.Indexed where
  sound := sound_empty
  plain _ hv := absurd hv List.not_mem_nil
  named _ hv := absurd hv List.not_mem_nil
  distinct := .nil

theorem congr (h : ns.Indexed) (hSound : ns'.Sound) (hRecords : ns'.records = ns.records) :
    ns'.Indexed where
  sound := hSound
  plain := hRecords ▸ h.plain
  named := hRecords ▸ h.named
  distinct := hRecords ▸ h.distinct

/-- **A name stands for the one variable** that has it behind its size. -/
theorem find?_iff (h : ns.Indexed) (hPlain : '$' ∉ n.toList) :
    ns.find? n = some v ↔ v ∈ ns.records ∧ v.base = n := by
  have hMem {u : Variable} (hFound : ns.find? n = some u) : u ∈ ns.records ∧ u.base = n := by
    refine ⟨mem_of_find? hFound, ?_⟩
    rcases Option.or_eq_some_iff.mp hFound with hExact | ⟨-, hOldest⟩
    · have hName := name_of_get? hExact
      have hSized := h.named u (mem_of_get? hExact)
      rw [← hName, hSized] at hPlain
      rw [← hName, hSized, eq_of_sizedName_plain hPlain]
    · have hSame := List.find?_some hOldest
      exact beq_iff_eq.mp hSame
  refine ⟨hMem, fun ⟨hv, hBase⟩ => ?_⟩
  cases hFound : ns.find? n with
  | none => exact absurd hBase (base_ne_of_find? hFound hv)
  | some u =>
    obtain ⟨hu, hBase'⟩ := hMem hFound
    rw [List.inj_on_of_nodup_map h.distinct hu hv (hBase'.trans hBase.symm)]

theorem find?_eq_none_iff (h : ns.Indexed) (hPlain : '$' ∉ n.toList) :
    ns.find? n = none ↔ ∀ v ∈ ns.records, v.base ≠ n := by
  refine ⟨fun hNone v hv => base_ne_of_find? hNone hv, fun hOther => ?_⟩
  cases hFound : ns.find? n with
  | none => rfl
  | some v =>
    obtain ⟨hv, hBase⟩ := (h.find?_iff hPlain).mp hFound
    exact absurd hBase (hOther v hv)

theorem of_accounts (h : ns.Indexed) (hSound : ns'.Sound) {ms : List (String × Reference)}
    {new : List Variable} (hAccounts : ns.Accounts ms new ns') : ns'.Indexed where
  sound := hSound
  plain v hv := by
    rw [hAccounts.records] at hv
    rcases List.mem_append.mp hv with hOld | hNew
    · exact h.plain v hOld
    · obtain ⟨m, hm, hName⟩ := List.mem_map.mp
        ((hAccounts.missing v.base).mp (List.mem_map.mpr ⟨v, hNew, rfl⟩)).1
      exact hName ▸ hAccounts.plain m hm
  named v hv := by
    rw [hAccounts.records] at hv
    exact (List.mem_append.mp hv).elim (h.named v) (hAccounts.named v)
  distinct := by
    rw [hAccounts.records, List.map_append]
    refine List.Nodup.append h.distinct hAccounts.distinct fun n hOld hNew => ?_
    obtain ⟨v, hv, rfl⟩ := List.mem_map.mp hOld
    exact base_ne_of_find? ((hAccounts.missing _).mp hNew).2 hv rfl

/-- **Variables were added**: a host sees what it saw, and zeros where it saw nothing. -/
theorem sees_added (h : ns.Indexed) (h' : ns'.Indexed) (hExtends : ns.Extends ns')
    (hPlain : '$' ∉ n.toList) : ns'.sees n = (ns.sees n).or
      (((ns'.records.drop ns.records.length).find? (·.base = n)).map fun v =>
        List.replicate v.size 0) := by
  obtain ⟨new, hNew⟩ := hExtends.records
  have hDrop : ns'.records.drop ns.records.length = new := by rw [← hNew, List.drop_left]
  rw [hDrop]
  unfold sees
  cases hFound : ns.find? n with
  | some v =>
    obtain ⟨hv, hBase⟩ := (h.find?_iff hPlain).mp hFound
    have hStill : ns'.find? n = some v :=
      (h'.find?_iff hPlain).mpr ⟨hNew ▸ List.mem_append_left _ hv, hBase⟩
    have hStop := h.sound.stop_le_size hv
    rw [hStill, Option.map_some, Option.map_some, Option.some_or]
    exact congrArg some (read_congr fun j _ hj => hExtends.getElem?_eq (by omega))
  | none =>
    have hOld := (h.find?_eq_none_iff hPlain).mp hFound
    rw [Option.map_none, Option.none_or]
    cases hFirst : new.find? (·.base = n) with
    | none =>
      have hMissing : ns'.find? n = none := by
        rw [h'.find?_eq_none_iff hPlain, ← hNew]
        exact List.forall_mem_append.mpr ⟨hOld, by simpa using hFirst⟩
      rw [hMissing]
      rfl
    | some v =>
      have hBase : v.base = n := by simpa using List.find?_some hFirst
      have hv : v ∈ ns'.records := hNew ▸ List.mem_append_right _ (List.mem_of_find?_eq_some hFirst)
      rw [(h'.find?_iff hPlain).mpr ⟨hv, hBase⟩]
      exact congrArg some (h.sound.read_added h'.sound hExtends hv fun hMem => hOld v hMem hBase)

/-- **Values were written** to one variable: a host sees them, and all else as before. -/
theorem sees_write (h : ns.Indexed) (hPlain : '$' ∉ n.toList) (hv : v ∈ ns.records)
    {xs : List Float} (hLength : xs.length = v.size) : (ns.write v.offset xs).sees n =
      if n = v.base then some (xs.map single) else ns.sees n := by
  obtain ⟨hRecords, -, hSame⟩ := ns.write_eq v.offset xs
  unfold sees
  rw [find?_congr hRecords]
  by_cases hName : n = v.base
  · rw [if_pos hName, (h.find?_iff hPlain).mpr ⟨hv, hName.symm⟩]
    exact congrArg some (h.sound.read_write hv hLength)
  · rw [if_neg hName]
    cases hFound : ns.find? n with
    | none => rfl
    | some u =>
      obtain ⟨hu, hBase⟩ := (h.find?_iff hPlain).mp hFound
      have hOther : u ≠ v := fun hEq => hName (hEq ▸ hBase).symm
      refine congrArg some (read_congr fun j hLow hHigh => hSame j ?_)
      have hApart := h.sound.tiled.apart _ u hu v hv hOther
      unfold Variable.stop at hApart hHigh
      omega

end Indexed

end Namespace

/-! ## Setting values -/

namespace Tenant

variable {t : Tenant} {n : String}

/-- **A variable that a host makes** for a name that stands for nothing.  If it is refused, the
store may be longer than before. -/
theorem obtain_sees (hPlain : '$' ∉ n.toList) (hSome : n ≠ "") (h : t.space.Indexed)
    (hMissing : t.space.find? n = none) (size : Int) :
    Ends (fun v t' => t'.space.Indexed ∧ v ∈ t'.space.records ∧ v.base = n ∧ v.size = size ∧
        ∀ m, '$' ∉ m.toList → m ≠ n → t'.space.sees m = t.space.sees m)
      (fun t' => t'.space.Indexed ∧ t'.space.records = t.space.records ∧
        ∀ m, t'.space.sees m = t.space.sees m) (Tenant.obtain (sizedName n size) size t) := by
  have hKeeps := obtain_keeps (sizedName n size) size t h.sound
  have hSpace := obtain_space (sizedName n size) size t
  have hMade := obtain_meets hPlain hSome hMissing size
  generalize Tenant.obtain (sizedName n size) size t = out at hKeeps hSpace hMade ⊢
  cases hSpace with
  | @error f t' hSpace =>
    obtain ⟨slots, hSpace⟩ := hSpace
    have hRecords : t'.space.records = t.space.records := congrArg (·.records) hSpace
    refine .error ⟨h.congr (hSpace ▸ h.sound.lengthen slots) hRecords, hRecords, fun m => ?_⟩
    unfold sees
    rw [find?_congr hRecords]
    cases hFound : t.space.find? m with
    | none => rfl
    | some v =>
      have hStop := h.sound.stop_le_size (mem_of_find? hFound)
      refine congrArg some (read_congr fun j _ hj => ?_)
      rw [hSpace]
      exact (t.space.extends_lengthen slots).getElem?_eq (by omega)
  | @ok v t' _ =>
    cases hKeeps with
    | ok hKept =>
      obtain ⟨hSound, hExtends, hMem, hSize⟩ := hKept
      have hMeets := hMade.of_ok rfl
      obtain ⟨new, hAccounts⟩ := (Accounts.nil _).meet (a := .assign v size) hMeets hPlain hSome
      have hIndexed := h.of_accounts hSound hAccounts
      obtain ⟨hNamed, -, hRecords⟩ := hMeets.of_missing hMissing
      have hBase := Variable.base_of_named hPlain hSome hNamed
      refine .ok ⟨hIndexed, hMem, hBase, hSize, fun m hm hOther => ?_⟩
      have hNone : [v].find? (·.base = m) = none := by
        simpa [hBase] using hOther.symm
      rw [h.sees_added hIndexed hExtends hm, hRecords, List.drop_left, hNone, Option.map_none,
        Option.or_none]

/-- **A host that sets values** sees them afterwards, and all else as before.  If it fails, there
are the same variables with the same values. -/
theorem setValues_sees (hPlain : '$' ∉ n.toList) (hSome : n ≠ "") (h : t.space.Indexed)
    (vs : List Float) :
    Ends (fun _ t' => t'.space.Indexed ∧ ∀ m, '$' ∉ m.toList → t'.space.sees m =
        if m = n then some (vs.map single) else t.space.sees m)
      (fun t' => t'.space.Indexed ∧ t'.space.records = t.space.records ∧
        ∀ m, t'.space.sees m = t.space.sees m)
      (setValues n vs t) := by
  cases hFound : t.space.find? n with
  | some v =>
    obtain ⟨hv, hBase⟩ := (h.find?_iff hPlain).mp hFound
    refine .mono (setValues_of_found hFound vs) ?_ ?_
    · rintro _ t' ⟨hLength, rfl⟩
      refine ⟨h.congr (h.sound.write hv hLength) (write_eq _ _ _).1, fun m hm => ?_⟩
      rw [← hBase]
      exact h.sees_write hm hv hLength
    · rintro t' rfl
      exact ⟨h, rfl, fun _ => rfl⟩
  | none =>
    unfold setValues
    rw [get_bind, hFound]
    refine .bind (obtain_sees hPlain hSome h hFound vs.length) ?_
    rintro v t' ⟨hIndexed, hv, hBase, hSize, hSame⟩
    have hLength : vs.length = v.size := Int.ofNat.inj hSize.symm
    simp only [hLength, ne_eq, not_true_eq_false, if_false]
    refine .ok ⟨hIndexed.congr (hIndexed.sound.write hv hLength) (write_eq _ _ _).1, ?_⟩
    intro m hm
    refine (hIndexed.sees_write hm hv hLength).trans ?_
    rw [hBase]
    split
    · rfl
    · rename_i hOther
      exact hSame m hm hOther

end Tenant

/-! ## Compiling -/

theorem Instance.Templateless.congr {i i' : Instance} (h : i.Templateless)
    (hQueries : i'.queries = i.queries) : i'.Templateless := by
  unfold Templateless
  rw [hQueries]
  exact h

variable {w : Workshop}

namespace Workshop

theorem read_indexed (r : Request) (hTemplateless : w.inst.Templateless) (h : w.inst.space.Indexed)
    :
    Ends (fun _ w' => w'.inst.space.Indexed ∧ w'.inst.Templateless)
      (fun w' => w'.inst.space.Indexed ∧ w'.inst.Templateless) (read r w) := by
  have hKeeps := read_keeps r w (w.dictionary r).placed_rules h.sound
  have hAccounts := read_accounts r hTemplateless
  have hBoth {w' : Workshop} {ms new} (hSound : w'.inst.space.Sound)
      (hExtends : w.inst.Extends w'.inst) (hMet : w.inst.space.Accounts ms new w'.inst.space) :
      w'.inst.space.Indexed ∧ w'.inst.Templateless :=
    ⟨h.of_accounts hSound hMet, hTemplateless.congr hExtends.queries⟩
  refine .mono (hKeeps.and hAccounts) ?_ ?_
  · rintro _ w' ⟨hKept, ms, new, hMet, -⟩
    exact hBoth hKept.1 hKept.2.1 hMet
  · rintro w' ⟨hKept, ms, new, hMet, -⟩
    exact hBoth hKept.1 hKept.2 hMet

/-- **Compiling a source** keeps a namespace indexed, whether it fails or not. -/
theorem compile_indexed (home : Nat) (r : Request) :
    Preserves (fun w : Workshop => w.inst.space.Indexed ∧ w.inst.Templateless)
      (compile home r) := by
  refine .of_keeps (compile_course home r (Preserves.keeps fun w hw => ?_) ?_ ?_ ?_ ?_)
  · exact read_indexed r hw.2 hw.1
  · exact fun _ _ h => ⟨h, trivial⟩
  · refine fun slots => Preserves.keeps fun w hw => ?_
    unfold onScratch onPart
    cases ScratchRoom.ensure slots ⟨w.books, w.inst.scratch⟩ with
    | ok a room => exact .ok hw
    | error e room => exact .error hw
  · refine fun size => Preserves.keeps fun w hw => onPart_ends ?_
    have hSame {t : Tenant} (hSpace : t.space = w.tenant.space) :
        (w.setTenant t).inst.space.Indexed ∧ (w.setTenant t).inst.Templateless := by
      refine ⟨?_, hw.2⟩
      show t.space.Indexed
      rw [hSpace]
      exact hw.1
    exact Ends.mono (Tenant.chargeOwner_space _ _) (fun _ _ => hSame) fun _ => hSame
  · exact fun n _ => Preserves.keeps (.modify fun _ h => h)

/-- **A host that has a source compiled** sees what it saw, and zeros for the names of the variables
that were made. -/
theorem compile_sees (home : Nat) (r : Request) {w' : Workshop} (h : w.inst.space.Indexed)
    (hTemplateless : w.inst.Templateless) (hAfter : w' = Outcome.state (compile home r w)) :
    w'.inst.space.Indexed ∧ w'.inst.Templateless ∧ ∀ n, '$' ∉ n.toList → w'.inst.space.sees n =
      (w.inst.space.sees n).or
        (((w'.inst.space.records.drop w.inst.space.records.length).find? (·.base = n)).map fun v =>
          List.replicate v.size 0) := by
  have hKeeps := compile_keeps home r w h.sound
  have hIndexed := compile_indexed home r w ⟨h, hTemplateless⟩
  generalize compile home r w = out at hKeeps hIndexed hAfter
  subst hAfter
  cases hKeeps with
  | ok hKept =>
    cases hIndexed with
    | ok h' => exact ⟨h'.1, h'.2, fun n hn => h.sees_added h'.1 hKept.2.1.space hn⟩
  | error hKept =>
    cases hIndexed with
    | error h' => exact ⟨h'.1, h'.2, fun n hn => h.sees_added h'.1 hKept.2.space hn⟩

end Workshop

/-! ## The turns of a host -/

/-- What a host does with an instance: it sets the values of a variable, or has a source compiled.
-/
inductive Turn where
  | set (name : String) (values : List Float)
  | compile (home : Nat) (request : Request)

/-- What comes of a turn: the values of a name are replaced, or a variable is made for a source. -/
inductive Change where
  | set (name : String) (values : List Float)
  | made (v : Variable)

namespace Change

def set? (n : String) : Change → Option (List Float)
  | .set name values => if name = n then some (values.map single) else none
  | .made _ => none

def made? (n : String) : Change → Option (List Float)
  | .set _ _ => none
  | .made v => if v.base = n then some (List.replicate v.size 0) else none

/-- **The finite map**: a name has the values that it was given last, or else the zeros that it was
made with, or else nothing. -/
def lookup (n : String) (cs : List Change) : Option (List Float) :=
  (cs.reverse.findSome? (set? n)).or (cs.findSome? (made? n))

variable {n m : String} {cs : List Change}

theorem lookup_set (cs : List Change) (n m : String) (vs : List Float) :
    lookup m (cs ++ [.set n vs]) = if m = n then some (vs.map single) else lookup m cs := by
  unfold lookup
  by_cases h : m = n
  · simp [List.findSome?_cons, set?, h]
  · simp [List.findSome?_cons, set?, made?, h, Ne.symm h]

theorem findSome?_made (n : String) (vs : List Variable) :
    (vs.map made).findSome? (made? n) =
      (vs.find? (·.base = n)).map fun v => List.replicate v.size 0 := by
  induction vs with
  | nil => rfl
  | cons v vs ih =>
    by_cases h : v.base = n
    · simp [made?, h]
    · simp [made?, h, ih]

theorem lookup_made (cs : List Change) (n : String) (vs : List Variable) :
    lookup n (cs ++ vs.map .made) = (lookup n cs).or
      ((vs.find? (·.base = n)).map fun v => List.replicate v.size 0) := by
  have hSet : (vs.map made).reverse.findSome? (set? n) = none := by
    rw [List.findSome?_eq_none_iff]
    intro c hc
    obtain ⟨v, -, rfl⟩ := List.mem_map.mp (List.mem_reverse.mp hc)
    rfl
  unfold lookup
  rw [List.reverse_append, List.findSome?_append, hSet, Option.none_or, List.findSome?_append,
    findSome?_made, Option.or_assoc]

end Change

namespace Turn

/-- What is done in a turn. -/
def act : Turn → Act Workshop Unit
  | .set name values => Workshop.onTenant (Tenant.setValues name values)
  | .compile home request => (fun _ => ()) <$> Workshop.compile home request

/-- The workshop after a turn, even one that fails. -/
def after (t : Turn) (w : Workshop) : Workshop := Outcome.state (t.act w)

/-- What has come of a turn: values were set if it succeeded, and variables are there that were not
there before. -/
def changes (t : Turn) (w : Workshop) : List Change :=
  match t with
  | .set name values =>
    match t.act w with
    | .ok _ _ => [.set name values]
    | .error _ _ => []
  | .compile _ _ =>
    ((t.after w).inst.space.records.drop w.inst.space.records.length).map .made

/-- Values are set for a name that is not empty and does not spell a size. -/
def Named : Turn → Prop
  | .set name _ => '$' ∉ name.toList ∧ name ≠ ""
  | .compile _ _ => True

/-- The workshop after some turns. -/
def afterAll (w : Workshop) (turns : List Turn) : Workshop := turns.foldl (fun w t => t.after w) w

/-- What has come of some turns. -/
def changesOf : Workshop → List Turn → List Change
  | _, [] => []
  | w, t :: turns => t.changes w ++ changesOf (t.after w) turns

end Turn

namespace Workshop

/-- What a host is told when it asks for a variable. -/
def look (n : String) (w : Workshop) : Except Failure (List Float) :=
  match onTenant (Tenant.values n) w with
  | .ok values _ => .ok values
  | .error e _ => .error e

/-- **The invariant of the turns**: a host sees what the changes so far say. -/
structure Sees (w : Workshop) (past : List Change) : Prop where
  indexed : w.inst.space.Indexed
  templateless : w.inst.Templateless
  sees : ∀ n, '$' ∉ n.toList → w.inst.space.sees n = Change.lookup n past

/-- **A turn that sets values** either sets them, and all else is as before, or it fails, and then
all is as before. -/
theorem set_sees (h : w.inst.space.Indexed) {n : String} (hPlain : '$' ∉ n.toList) (hSome : n ≠ "")
    (vs : List Float) :
    Ends
      (fun _ w' => w'.inst.space.Indexed ∧ w'.inst.queries = w.inst.queries ∧ ∀ m, '$' ∉ m.toList →
        w'.inst.space.sees m = if m = n then some (vs.map single) else w.inst.space.sees m)
      (fun w' => w'.inst.space.Indexed ∧ w'.inst.queries = w.inst.queries ∧
        w'.inst.space.records = w.inst.space.records ∧
        ∀ m, w'.inst.space.sees m = w.inst.space.sees m) ((Turn.set n vs).act w) :=
  onPart_ends (Ends.mono (Tenant.setValues_sees hPlain hSome h vs)
    (fun _ _ h' => ⟨h'.1, rfl, h'.2⟩) fun _ h' => ⟨h'.1, rfl, h'.2⟩)

/-- **One turn.** -/
theorem Sees.after {past : List Change} (h : w.Sees past) (t : Turn) (hNamed : t.Named) :
    (t.after w).Sees (past ++ t.changes w) := by
  cases t with
  | set n vs =>
    have hSees := set_sees h.indexed hNamed.1 hNamed.2 vs
    unfold Turn.after Turn.changes
    generalize (Turn.set n vs).act w = out at hSees ⊢
    cases hSees with
    | ok h' =>
      refine ⟨h'.1, h.templateless.congr h'.2.1, fun m hm => ?_⟩
      refine (h'.2.2 m hm).trans ?_
      rw [h.sees m hm]
      exact (Change.lookup_set past n m vs).symm
    | error h' =>
      refine ⟨h'.1, h.templateless.congr h'.2.1, fun m hm => ?_⟩
      refine (h'.2.2.2 m).trans ?_
      rw [h.sees m hm]
      exact congrArg (Change.lookup m) (List.append_nil past).symm
  | compile home r =>
    have hAfter : (Turn.compile home r).after w = Outcome.state (compile home r w) := by
      unfold Turn.after Turn.act
      show Outcome.state (EStateM.map _ _ _) = _
      unfold EStateM.map
      cases compile home r w with
      | ok | error => rfl
    obtain ⟨hIndexed, hTemplateless, hSees⟩ := compile_sees home r h.indexed h.templateless hAfter
    refine ⟨hIndexed, hTemplateless, fun n hn => ?_⟩
    rw [hSees n hn, h.sees n hn]
    exact (Change.lookup_made past n _).symm

/-- **All turns.** -/
theorem Sees.afterAll (turns : List Turn) : ∀ {w : Workshop} {past : List Change}, w.Sees past →
    (∀ t ∈ turns, t.Named) → (Turn.afterAll w turns).Sees (past ++ Turn.changesOf w turns) := by
  induction turns with
  | nil =>
    intro w past h _
    rw [Turn.changesOf, List.append_nil]
    exact h
  | cons t turns ih =>
    intro w past h hNamed
    rw [Turn.changesOf, ← List.append_assoc]
    exact ih (h.after t (hNamed t List.mem_cons_self))
      fun u hu => hNamed u (List.mem_cons_of_mem _ hu)

end Workshop

end MolangCompiler

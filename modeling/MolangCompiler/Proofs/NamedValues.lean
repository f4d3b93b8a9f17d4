import MolangCompiler.Proofs.Denotation
import MolangCompiler.Proofs.Depth
import MolangCompiler.Proofs.Levels
import MolangCompiler.Proofs.Respelling

/-!
# Variables that a host sets and a source reads

What a host calls `n` is `v.n` in a source.  Names in a source are put into lower case and those of
a host are not, so the two stand for the same variable if the tail is in lower case.  A host that
sets values leaves a variable behind that holds them in single precision; a source that consists of
its name finds the variable, makes nothing, and returns what the variable holds.
-/

namespace MolangCompiler

open Namespace

/-! ## Names -/

namespace IsNameTail

variable {n : String}

theorem plainText (h : IsNameTail n) : PlainText ('v' :: '.' :: n.toList) := by
  have hPlain := nameLength_plain false ('v' :: '.' :: n.toList)
  rw [h, List.take_of_length_le (by simp [String.length_toList])] at hPlain
  exact hPlain

theorem plain (h : IsNameTail n) : '$' ∉ n.toList := by
  intro hDollar
  exact (h.plainText '$' (by simp [hDollar])).2 rfl

theorem ne_empty (h : IsNameTail n) : n ≠ "" := by
  rintro rfl
  exact absurd h (by decide)

/-- **A name in a source** is about the variable that the host calls by its tail. -/
theorem variableName?_eq (h : IsNameTail n) (hLower : IsLowerCase n) :
    variableName? ("v." ++ n) = some n := by
  have hChars : ("v." ++ n).toList = 'v' :: '.' :: n.toList := by simp
  have hCanonical : canonicalName ("v." ++ n) = "v." ++ n := by
    unfold canonicalName lowerText
    rw [String.toList_ofList, hChars, h.plainText.lowerChars_eq, List.map_cons, List.map_cons,
      show n.toList.map Char.toLower = n.toList from hLower]
    apply String.toList_injective
    rw [String.toList_ofList, hChars]
    rfl
  have hParts : nameParts ("v." ++ n) = ("v", n) := by
    unfold nameParts
    rw [hChars]
    show (String.ofList ['v'], String.ofList n.toList) = ("v", n)
    rw [String.ofList_toList]
  unfold variableName?
  rw [hCanonical, hParts]
  exact if_pos ⟨rfl, h.ne_empty⟩

end IsNameTail

/-! ## The values of a variable -/

variable {v : Variable}

namespace Namespace

theorem getElem?_read (ns : Namespace) (v : Variable) {j : Nat} (hj : j < v.size) :
    (ns.read v)[j]? = ns.store[v.offset + j]? := by
  unfold read Variable.stop
  rw [Array.getElem?_toList, Array.getElem?_extract]
  by_cases hIn : v.offset + j < ns.store.size
  · rw [if_pos (by omega)]
  · rw [if_neg (by omega), Array.getElem?_eq_none (by omega)]

theorem read_eq {ns : Namespace} {xs : List Float} (hLength : xs.length = v.size)
    (h : ∀ j < v.size, ns.store[v.offset + j]? = xs[j]?) : ns.read v = xs := by
  apply List.ext_getElem?
  intro j
  by_cases hj : j < v.size
  · rw [getElem?_read ns v hj, h j hj]
  · have hShort : (ns.read v).length ≤ v.size := by
      unfold read Variable.stop
      rw [Array.length_toList, Array.size_extract]
      omega
    rw [List.getElem?_eq_none (by omega), List.getElem?_eq_none (by omega)]

theorem getElem?_write (ns : Namespace) (slot : Nat) (xs : List Float)
    (hSpan : slot + xs.length ≤ ns.store.size) :
    ∀ j < xs.length, (ns.write slot xs).store[slot + j]? = (xs.map single)[j]? := by
  induction xs generalizing ns slot with
  | nil => intro j hj; simp at hj
  | cons x xs ih =>
    rw [List.length_cons] at hSpan
    intro j hj
    have hRest := ih { ns with store := ns.store.setIfInBounds slot (single x) } (slot + 1)
      (by rw [Array.size_setIfInBounds]; omega)
    cases j with
    | zero =>
      -- the numbers behind do not disturb the first one
      have hSame := (write_eq { ns with store := ns.store.setIfInBounds slot (single x) }
        (slot + 1) xs).2.2 slot (.inl (Nat.lt_succ_self slot))
      show (write _ (slot + 1) xs).store[slot]? = _
      rw [hSame, Array.getElem?_setIfInBounds_self_of_lt (by omega)]
      rfl
    | succ j =>
      have hNext := hRest j (by simpa using hj)
      rw [show slot + 1 + j = slot + (j + 1) by omega] at hNext
      exact hNext

/-- **Values that were written are read back** in single precision. -/
theorem Sound.read_write {ns : Namespace} (h : ns.Sound) (hv : v ∈ ns.records) {xs : List Float}
    (hLength : xs.length = v.size) :
    (ns.write v.offset xs).read v = xs.map single := by
  have hStop := h.stop_le_size hv
  unfold Variable.stop at hStop
  refine read_eq (by rw [List.length_map, hLength]) fun j hj => ?_
  exact getElem?_write ns v.offset xs (by omega) j (by omega)

end Namespace

namespace Tenant

variable {t t' : Tenant} {n : String} {vs : List Float}

theorem values_of_found (h : t.space.find? n = some v) : values n t = .ok (t.space.read v) t := by
  unfold values
  rw [get_bind, h]
  rfl

/-- **The values that a host has set** are in the variable that the name stands for. -/
theorem setValues_sets (hPlain : '$' ∉ n.toList) (hSome : n ≠ "") (hSound : t.space.Sound)
    (h : setValues n vs t = .ok () t') :
    ∃ v, t'.space.find? n = some v ∧ v.size = vs.length ∧ t'.space.read v = vs.map single := by
  -- the values are written to a variable that is there, or has just been made
  have hWritten {u : Tenant} {v : Variable} (hOk : u.space.Sound)
      (hFound : u.space.find? n = some v) (hCount : vs.length = v.size)
      (hLast : t' = { u with space := u.space.write v.offset vs }) :
      ∃ v, t'.space.find? n = some v ∧ v.size = vs.length ∧ t'.space.read v = vs.map single := by
    refine ⟨v, ?_, hCount.symm, ?_⟩
    · rw [hLast, ← hFound]
      exact find?_congr (write_eq _ _ _).1 n
    · rw [hLast]
      exact hOk.read_write (mem_of_find? hFound) hCount
  cases hFind : t.space.find? n with
  | some v =>
    have hEnds := setValues_of_found hFind vs
    rw [h] at hEnds
    cases hEnds with
    | ok hDone => exact hWritten hSound hFind hDone.1 hDone.2
  | none =>
    unfold setValues at h
    rw [get_bind, hFind] at h
    obtain ⟨v, u, hObtain, hLast⟩ := bind_eq_ok.mp h
    obtain ⟨hOk, -, -, hSize⟩ := (obtain_keeps _ _ t).of_ok hSound hObtain
    have hFound := ((obtain_meets hPlain hSome hFind _).of_ok hObtain).finds hPlain hSome
    have hCount : vs.length = v.size := Int.ofNat.inj hSize.symm
    change (if vs.length ≠ v.size then _ else _ : Act Tenant Unit) u = _ at hLast
    rw [if_neg (not_not.mpr hCount)] at hLast
    cases hLast
    exact hWritten hOk hFound hCount rfl

end Tenant

/-! ## What compiling leaves behind -/

/-- **What is left of a compilation** is what reading the source has made. -/
theorem Workshop.inst_of_compile {home : Nat} {r : Request} {w w' w₁ : Workshop} {a : Artifact}
    {p : Expr × Nat} (h : compile home r w = .ok a w') (hRead : read r w = .ok p w₁) :
    w'.inst.space = w₁.inst.space ∧ w'.inst.queries = w.inst.queries ∧
      w'.inst.actor = w.inst.actor := by
  obtain ⟨-, p', w₂, d, room, t, routine, hRead', -, -, hCharge, -, -, rfl⟩ := compile_eq_ok.mp h
  cases hRead.symm.trans hRead'
  have hSpace := Tenant.space_of_chargeOwner hCharge
  obtain ⟨s, -, -, rfl⟩ := read_eq_ok.mp hRead
  exact ⟨hSpace, rfl, rfl⟩

/-! ## A source that consists of a name -/

theorem Config.drive_name (acts : Actions Reading Expr Stmt) (text : String) (stop line : Nat)
    (s : Scope) : Config.start.drive acts stop 0 [⟨.name text, 0, line⟩] s =
      (acts.name text 0 >>= fun e => pure (.accepted e)) s := by
  cases hName : acts.name text 0 s with
  | ok e s' =>
    have hLast : step acts ⟨[], .plain, [], .name text 0⟩ none stop s =
        .ok (.accepted e) s' := (bind_of_ok hName).trans rfl
    rw [bind_of_ok hName]
    exact (bind_of_ok hLast).trans rfl
  | error e s' =>
    have hLast : step acts ⟨[], .plain, [], .name text 0⟩ none stop s = .error e s' :=
      bind_of_error hName
    have hFirst : step acts start (some (.name text)) 0 s =
        .ok (.next ⟨[], .plain, [], .name text 0⟩) s := rfl
    rw [bind_of_error hName]
    exact (bind_of_ok hFirst).trans (bind_of_error hLast)

theorem Dictionary.readSource_of_name {dict : Dictionary} {text : String}
    (hText : dict.setting.source.toList.all isBlank = false)
    (hScan : scan 1 dict.setting.source = ⟨[⟨.name text, 0, 1⟩], .finished, 1⟩) (s : Scope) :
    dict.readSource s = dict.actions.name text 0 s := by
  have hDrive := Config.drive_name dict.actions text dict.setting.source.length 1 s
  rw [readSource_eq_drive dict hText (by rw [hScan]), hScan]
  cases hName : dict.actions.name text 0 s with
  | ok e s' =>
    rw [bind_of_ok (hDrive.trans (bind_of_ok hName))]
    rfl
  | error e s' => exact bind_of_error (hDrive.trans (bind_of_error hName))

section

variable {n : String} (hTail : IsNameTail n) (hLower : IsLowerCase n) {v : Variable}
include hTail hLower

/-- **The name of a variable that is there** is read without making anything. -/
theorem Dictionary.readSource_of_variable {dict : Dictionary}
    (hSource : dict.setting.source = "v." ++ n) {s : Scope} (hFound : s.space.find? n = some v) :
    dict.readSource s = .ok (.variableRead v) s := by
  have hText : dict.setting.source.toList.all isBlank = false := by
    rw [hSource, String.toList_append, List.all_append]
    rfl
  have hScan : scan 1 dict.setting.source = ⟨[⟨.name ("v." ++ n), 0, 1⟩], .finished, 1⟩ := by
    rw [hSource]
    exact scan_variable hTail hLower 1
  rw [readSource_of_name hText hScan]
  dsimp only [actions]
  rw [name_of_variable (hTail.variableName?_eq hLower)]
  exact readVariable_of_found hFound

namespace Workshop

variable {r : Request} (hSource : r.source = "v." ++ n) {w : Workshop}
  (hFound : w.inst.space.find? n = some v)
include hSource hFound

theorem read_variable : read r w = .ok (.variableRead v, 0) w := by
  refine read_eq_ok.mpr ⟨.start w.tenant, ?_, rfl, rfl⟩
  exact Dictionary.readSource_of_variable hTail hLower hSource hFound

/-- **Compiling the name of a variable** makes an artifact that reads it, and no variable. -/
theorem compile_variable (hSound : w.inst.space.Sound) {home : Nat} {a : Artifact} {w' : Workshop}
    (h : compile home r w = .ok a w') :
    a.Renders (.variableRead v) 0 w'.inst ∧ w'.inst.space = w.inst.space := by
  have hRead := read_variable hTail hLower hSource hFound
  obtain ⟨-, -, p, w₁, d, hCompiled⟩ := (compile_keeps home r w).of_ok hSound h
  cases hRead.symm.trans hCompiled.read
  constructor
  · exact hCompiled.renders_of_compilable (Nat.le_refl _)
      ⟨hSound.stop_le (mem_of_find? hFound), trivial⟩
  · exact (inst_of_compile h hRead).1

/-- **The name of a variable can be compiled** if bytes are not limited. -/
theorem compile_variable_succeeds (hSound : w.inst.space.Sound) (hUnlimited : w.books.Unlimited)
    (hContext : r.context.length ≤ maxContextValues) (home : Nat) :
    ∃ a w', compile home r w = .ok a w' := by
  have hRead := read_variable hTail hLower hSource hFound
  have hMem := mem_of_find? hFound
  have hWF : (Expr.variableRead v).Compilable ⟨r.context.length, 0, w.inst.space.cursor⟩ :=
    ⟨hSound.stop_le hMem, trivial⟩
  exact compile_of_shallow home hContext hRead hUnlimited hWF (hSound.sized v hMem).1
    (Nat.zero_le _)

end Workshop

end

namespace Session

variable {s : Session} {m : Nat}

/-- **The values of a variable** are what a tree that consists of it stands for. -/
theorem evaluate_variable {vs : List Float} (hSize : v.size = vs.length)
    (hRead : (s.workshop m).inst.space.read v = vs.map single) (call : Calls)
    (args : List Float) (temps : Nat) :
    (Expr.variableRead v).evaluate (surroundings m call) args temps s = .ok (vs.map single) s := by
  have hValues (locals : Nat → Option Float) : (Expr.variableRead v).values (surroundings m call)
      ⟨locals, s⟩ = .ok (vs.map single) ⟨locals, s⟩ := by
    rw [Expr.values]
    by_cases hOne : v.size = 1
    · obtain ⟨x, rfl⟩ := List.length_eq_one_iff.mp (hSize.symm.trans hOne)
      have hSlot := getElem?_read (s.workshop m).inst.space v (j := 0) (by omega)
      rw [hRead, Nat.add_zero] at hSlot
      have hGet : (variablesOf m).read v.offset s = .ok (single x) s := by
        unfold Slots.read
        dsimp only [variablesOf]
        rw [← hSlot]
        rfl
      have hWorld : onWorld ((surroundings m call).readVariable v.offset) ⟨locals, s⟩ =
          .ok (single x) ⟨locals, s⟩ := onPart_of_ok hGet
      rw [if_pos hOne, bind_of_ok hWorld]
      show EStateM.Result.ok [single (single x)] _ = .ok [single x] _
      rw [single_single]
    · have hWorld : onWorld ((surroundings m call).readVariables v.offset v.size) ⟨locals, s⟩ =
          .ok (slice (s.workshop m).inst.space.store v.offset (v.offset + v.size)) ⟨locals, s⟩ :=
          rfl
      rw [if_neg hOne, bind_of_ok hWorld]
      show EStateM.Result.ok ((s.workshop m).inst.space.read v) _ = _
      rw [hRead]
  have hOutcome : (Expr.variableRead v).outcome (surroundings m call) =
    (Expr.variableRead v).values (surroundings m call) := rfl
  unfold Expr.evaluate
  rw [hOutcome, hValues]

end Session

end MolangCompiler

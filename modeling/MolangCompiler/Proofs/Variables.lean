import MolangCompiler.Proofs.Reached

/-!
# Variables keep their places and their values

In every session that commands lead to, the variables of an instance tile its store, also after
commands that fail: a refused charge may leave the store longer than its variables need, but it
neither publishes a variable nor touches a value.  Two kinds of operations make variables, obtaining
one by its name and compiling a source that mentions it.  `Session.OnlyAdds` says what both of them
leave alone.
-/

namespace MolangCompiler

namespace Session

/-- Whether it fails or not, an operation may add variables to an instance, which hold zeros, and
leaves the variables that were there and their values alone. -/
def OnlyAdds {α : Type} (number : Nat) (act : Act Session α) (s : Session) : Prop :=
  ∀ {i}, s.instance? number = some i → ∃ i', (outcome act s).2.instance? number = some i' ∧
    i.space.records <+: i'.space.records ∧
    (∀ j < i.space.cursor, i'.space.store[j]? = i.space.store[j]?) ∧
    ∀ v ∈ i'.space.records, v ∉ i.space.records → i'.space.read v = List.replicate v.size 0

/-- **Making variables** leaves those that are there alone. -/
theorem makes_onlyAdds {α : Type} {act : Act Workshop α} {p : α → Workshop → Prop} {s : Session}
    (hSound : s.Sound) {m : Nat} (h : Keeps Workshop.making p act (s.workshop m)) :
    OnlyAdds m (onInstance m act) s := by
  intro i hAt
  have hSpace := hSound.spaces hAt
  obtain ⟨i', hAt', hSpace', hMore⟩ := outcome_of_ends (onInstance_makes hAt hSpace h)
  refine ⟨i', hAt', hMore.space.records, fun j hj => ?_, fun v hv hNew => ?_⟩
  · exact hMore.space.getElem?_eq (Nat.lt_of_lt_of_le hj hSpace.cursor_le)
  · exact hSpace.read_added hSpace' hMore.space hv hNew

end Session

open Session in
/-- **The variables of an instance tile its store**, in every session that commands lead to.  None
of them ever changes its place or disappears, and making further ones, even in the middle of an
evaluation, leaves them alone. -/
theorem variables_tile_the_store {s : Session} (hReached : s.Reached) {number : Nat} {i : Instance}
    (hAt : s.instance? number = some i) :
    i.space.Sound ∧ i.space.cursor = (i.space.records.map (·.size)).sum ∧
      (∀ {s' i'}, s.Leads s' → s'.instance? number = some i' →
        i.space.records <+: i'.space.records) ∧
      s.Sound ∧ ∀ {t : Session}, t.Sound →
        (∀ name size,
          OnlyAdds number (onInstance number (Workshop.onTenant (Tenant.obtain name size))) t) ∧
        ∀ request, OnlyAdds number (onInstance number (Workshop.compile number request)) t := by
  have hRest := hReached.atRest
  have hSpace := hRest.sound.spaces hAt
  refine ⟨hSpace, hSpace.cursor_eq, fun hLeads hAt' => ?_, hRest.sound, fun hSound => ⟨?_, ?_⟩⟩
  · obtain ⟨j, hj, hMore⟩ := (hLeads.moves hRest).2.instances (hRest.numbers hAt) hAt'
    cases hAt.symm.trans hj
    exact hMore.space.records
  · exact fun name size => makes_onlyAdds hSound
      (Workshop.onTenant_makes (Tenant.obtain_keeps name size _))
  · exact fun request => makes_onlyAdds hSound (Workshop.compile_keeps number request _)

/-- A variable of two values, and then one of five values whose record is refused when the store has
been lengthened for it. -/
def refusedRecord : Session :=
  (Session.start (some ⟨none, 0, false⟩)).obeyAll .mute "a"
    [.create "a" ⟨some [], false, [], true, false⟩, .task "a" (.declare "2$x" 2), .setSlack 50,
      .task "a" (.declare "5$y" 5)]

/-- The slots that were meant for the refused variable stay behind as zeros. -/
theorem refused_record_keeps_the_tiling :
    refusedRecord.Reached ∧ ∃ i, refusedRecord.instance? 0 = some i ∧
      i.space.records = [⟨"2$x", 2, 0⟩] ∧ i.space.store.size = 14 ∧ i.space.Sound ∧
      i.space.cursor = (i.space.records.map (·.size)).sum := by
  have hReached : refusedRecord.Reached := Session.reached_obeyAll "a" _ _
  have hAt : refusedRecord.instance? 0 = some _ := rfl
  have hLayout := variables_tile_the_store hReached hAt
  exact ⟨hReached, _, hAt, by decide +kernel, by decide +kernel, hLayout.1, hLayout.2.1⟩

end MolangCompiler

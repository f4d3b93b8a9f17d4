import MolangCompiler.Proofs.Reached

/-!
# Routines on the shared buffer

An evaluation on an idle instance runs at depth one, on the shared buffer.  Its routine reaches two
arrays then, the store and the buffer of the instance.  `Session.Steady` says how long they are.
-/

namespace MolangCompiler

namespace Session

theorem instance?_setWorkshop_self (s : Session) (m n : Nat) :
    (s.setWorkshop m (s.workshop m)).instance? n = s.instance? n := instance?_setBooks s m n _

/-! ## The two arrays -/

/-- A routine of an instance runs on the shared buffer, and store and buffer have the given lengths.
-/
structure Steady (number stored room : Nat) (w : World) : Prop where
  shared : w.loan = .shared
  here : ∃ i, w.session.instance? number = some i ∧ i.space.store.size = stored ∧
    i.scratch.buffer.size = room

namespace Steady

variable {m stored room : Nat} {w : World}

section

variable (h : Steady m stored room w)
include h

theorem size_store : ((storeOf m).get w).size = stored := by
  obtain ⟨i, hAt, hStored, -⟩ := h.here
  rw [World.store_eq hAt, hStored]

theorem size_buffer : ((bufferOf m).get w).size = room := by
  obtain ⟨i, hAt, -, hRoom⟩ := h.here
  rw [World.buffer_shared h.shared hAt, hRoom]

theorem putStore {xs : Array Float} (hSize : xs.size = stored) :
    Steady m stored room ((storeOf m).put xs w) := by
  obtain ⟨i, hAt, -, hRoom⟩ := h.here
  refine ⟨h.shared, i.setStore xs, ?_, hSize, hRoom⟩
  exact instance?_changed hAt _

theorem putBuffer {xs : Array Float} (hSize : xs.size = room) :
    Steady m stored room ((bufferOf m).put xs w) := by
  obtain ⟨i, hAt, hStored, -⟩ := h.here
  rw [World.put_shared h.shared]
  refine ⟨rfl, i.setBuffer xs, ?_, hStored, hSize⟩
  exact instance?_changed hAt _

theorem of_same {s : Session} (hSame : s.instance? m = w.session.instance? m) :
    Steady m stored room ⟨s, .shared⟩ := by
  obtain ⟨i, hAt, hSizes⟩ := h.here
  exact ⟨rfl, i, hSame.trans hAt, hSizes⟩

end

end Steady

/-! ## At depth one -/

/-- **The outermost evaluation gets the shared buffer**, and the instance stays as it was. -/
theorem acquire_shared (m room : Nat) (call : Calls)
    (w : World) :
    (machine m 1 call).acquire room w =
      .ok () ⟨w.session.setWorkshop m (w.session.workshop m), .shared⟩ := by
  unfold machine Machine.ofSlots
  dsimp only
  rw [onInstance_acquire_shallow]

/-- **An evaluation on an idle instance** runs at depth one. -/
theorem evaluateWith_idle {s : Session} {a : Artifact} {i : Instance}
    (hAt : s.instance? a.home = some i) (hIdle : i.depth = 0) {args : List Float}
    (hArgs : args.length = a.args) (call : Calls) :
    evaluateWith call a args s = followedBy (runRoutine a 1 call (args.map single))
      (changeDepth a.home (· - 1)) (s.changeDepth a.home (· + 1)) := by
  have hDepth : ((s.changeDepth a.home (· + 1)).workshop a.home).inst.depth = 1 := by
    rw [workshop_inst (instance?_raised hAt), hIdle]
  rw [evaluateWith_of_length hArgs, hDepth]

end Session

end MolangCompiler

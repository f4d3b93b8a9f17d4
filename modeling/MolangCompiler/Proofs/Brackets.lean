import MolangCompiler.Proofs.Levels
import MolangCompiler.Proofs.Trails

/-!
# Evaluations bracket their bookkeeping

An evaluation raises the depth of its instance and may be charged for a buffer.  However it ends,
both are taken back, and the same holds of the evaluations that host functions start inside it.

The argument is one induction on how deep evaluations may nest.  `Logged.Orderly` is the invariant
of a logged run, and `Logged.Passes` is what happens between two points of it: no instance gets
deeper or less deep, and the bytes in use stay as they were unless a host function made something,
up to the buffer on loan. -/

namespace MolangCompiler

open Session

/-! ## Depth -/

variable {s : Session} {α : Type} {call : String → List Float → Act (Logged Session) HostValue}

namespace Session

/-- How deep the instance with a number is, if it is there. -/
def depth? (s : Session) (n : Nat) : Option Nat := (s.instance? n).map (·.depth)

theorem Grows.depth? {s' : Session} (h : s.Grows s') (n : Nat) : s'.depth? n = s.depth? n := by
  unfold Session.depth?
  cases hAt : s.instance? n with
  | none => rw [h.none hAt]
  | some i =>
    obtain ⟨i', hi', hMore⟩ := h.some hAt
    rw [hi']
    exact congrArg Option.some hMore.depth

theorem depth?_changeDepth (s : Session) (m n : Nat) (f : Nat → Nat) :
    (s.changeDepth m f).depth? n = if n = m then (s.depth? m).map f else s.depth? n := by
  unfold depth?
  rw [instance?_changeDepth]
  by_cases hSame : n = m
  · rw [if_pos hSame, if_pos hSame, Option.map_map, Option.map_map]
    rfl
  · rw [if_neg hSame, if_neg hSame]

theorem depth?_changeInstance (s : Session) (m n : Nat) {f : Instance → Instance}
    (hDepth : ∀ i, (f i).depth = i.depth) : (s.changeInstance m f).depth? n = s.depth? n := by
  unfold depth?
  rw [instance?_changeInstance]
  by_cases hSame : n = m
  · rw [if_pos hSame, Option.map_map, hSame]
    exact Option.map_congr fun i _ => hDepth i
  · rw [if_neg hSame]

end Session

/-! ## Between two points of a run -/

namespace Logged

/-- A logged session in which everything is in order. -/
structure Orderly (base : Nat → Nat) (l : Logged Session) : Prop where
  sound : l.state.Sound
  depths : ∀ n d, l.state.depth? n = some d → d = base n + l.active.count n
  seen : ∀ x ∈ l.seen, x.Good base

/-- What happens between two points of a run while some bytes are lent. -/
structure Passes (lent : Int) (l l' : Logged Session) : Prop where
  enlarges : l.state.Enlarges l'.state
  depths : ∀ n, l'.state.depth? n = l.state.depth? n
  active : l'.active = l.active
  made : l.made ≤ l'.made
  level : ∃ lost, l'.lost = l.lost ++ lost ∧ (l'.made = l.made → l.state.Level lent lost l'.state)

variable {base : Nat → Nat} {l l' : Logged Session}

/-- Nothing was lost. -/
theorem Passes.of_level {lent : Int} (hEnlarges : l.state.Enlarges l'.state)
    (hDepths : ∀ n, l'.state.depth? n = l.state.depth? n) (hActive : l'.active = l.active)
    (hMade : l.made ≤ l'.made) (hLost : l'.lost = l.lost)
    (hLevel : l'.made = l.made → l.state.Level lent [] l'.state) : Passes lent l l' :=
  ⟨hEnlarges, hDepths, hActive, hMade, [], by rw [hLost, List.append_nil], hLevel⟩

theorem Passes.refl (l : Logged Session) : Passes 0 l l :=
  .of_level (.refl _) (fun _ => rfl) rfl (Nat.le_refl _) rfl fun _ => .refl _

theorem Passes.trans {x y : Int} {l₁ l₂ l₃ : Logged Session} (h : Passes x l₁ l₂)
    (h' : Passes y l₂ l₃) : Passes (x + y) l₁ l₃ where
  enlarges := h.enlarges.trans h'.enlarges
  depths n := (h'.depths n).trans (h.depths n)
  active := h'.active.trans h.active
  made := Nat.le_trans h.made h'.made
  level := by
    obtain ⟨lost, hLost, hLevel⟩ := h.level
    obtain ⟨lost', hLost', hLevel'⟩ := h'.level
    refine ⟨lost ++ lost', by rw [hLost', hLost, List.append_assoc], fun hMade => ?_⟩
    have hFirst := h.made
    have hSecond := h'.made
    exact (hLevel (by omega)).trans (hLevel' (by omega))

/-- Logged sessions that stay in order. -/
def course (base : Nat → Nat) : Course (Logged Session) where
  ok := Orderly base
  le := Passes 0
  refl := .refl
  trans h h' := h.trans h'

/-- A session that only changed in ways that do not matter is taken down. -/
theorem Orderly.moment (h : l.Orderly base) (hSound : s.Sound)
    (hDepths : ∀ n, s.depth? n = l.state.depth? n) (made : Nat) :
    Orderly base ⟨s, l.active, made, l.lost, .moment s l.active :: l.seen⟩ := by
  have hCounts (n d : Nat) (hd : s.depth? n = some d) : d = base n + l.active.count n :=
    h.depths n d ((hDepths n).symm.trans hd)
  refine ⟨hSound, hCounts, List.forall_mem_cons.mpr ⟨fun n i hi => ?_, h.seen⟩⟩
  exact hCounts n i.depth (by unfold depth?; rw [hi]; rfl)

/-! ## Host functions -/

/-- A routine of an artifact is started at a point of a logged run, with limits that suit its
instance. -/
structure Boards (base : Nat → Nat) where
  start : Logged Session
  artifact : Artifact
  lim : Limits
  inst : Instance
  orderly : start.Orderly base
  housed : start.state.Houses artifact
  here : start.state.instance? artifact.home = some inst
  slots : lim.slots ≤ inst.space.cursor
  room : lim.room ≤ inst.scratch.buffer.size

abbrev Boards.home (B : Boards base) : Nat := B.artifact.home

/-- The routine runs: the bytes of the buffer that it was lent are charged. -/
structure Aboard (B : Boards base) (l : Logged Session.World) : Prop where
  orderly : l.session.Orderly base
  passes : Passes (B.start.state.charged B.home l.state.loan.bytes) B.start l.session
  room : B.lim.room ≤ ((Session.bufferOf B.home).get l.state).size

section

variable {B : Boards base} {r : Logged World}

theorem Aboard.instance? (h : Aboard B r) :
    ∃ i, r.state.session.instance? B.home = some i ∧ B.lim.slots ≤ i.space.cursor := by
  obtain ⟨i, hi, hCursor, -, -⟩ := h.passes.enlarges B.home B.inst B.here
  exact ⟨i, hi, Nat.le_trans B.slots hCursor⟩

theorem Aboard.step (h : Aboard B r) (hOrderly : l'.Orderly base) (hPasses : Passes 0 r.session l')
    :
    Aboard B { l' with state := { r.state with session := l'.state } } where
  orderly := hOrderly
  passes := by
    have hBoth := h.passes.trans hPasses
    rw [Int.add_zero] at hBoth
    exact hBoth
  room := by
    refine Nat.le_trans h.room ?_
    obtain ⟨i, hi, -⟩ := h.passes.enlarges B.home B.inst B.here
    exact hPasses.enlarges.buffer_le (w := r.state) hi

theorem Aboard.change (h : Aboard B r) {f : Instance → Instance}
    (hSound : (r.state.session.changeInstance B.home f).Sound)
    (hEnlarges : r.state.session.Enlarges (r.state.session.changeInstance B.home f))
    (hDepth : ∀ i, (f i).depth = i.depth) (hOwner : ∀ i, (f i).owner = i.owner) :
    Aboard B (r.move { r.state with session := r.state.session.changeInstance B.home f }) :=
  have hDepths (n : Nat) := depth?_changeInstance r.state.session B.home n hDepth
  h.step (h.orderly.moment hSound hDepths _) (.of_level hEnlarges hDepths rfl (Nat.le_refl _) rfl
    fun _ => level_changeInstance _ B.home fun i _ => by rw [hOwner])

theorem Aboard.still (h : Aboard B r) : Aboard B (r.move r.state) :=
  h.step (h.orderly.moment h.orderly.sound (fun _ => rfl) _) (.of_level (.refl _) (fun _ => rfl) rfl
    (Nat.le_refl _) rfl fun _ => .refl _)

theorem Aboard.store_fits (h : Aboard B r) : B.lim.slots ≤ ((storeOf B.home).get r.state).size := by
  obtain ⟨i, hi, hSlots⟩ := h.instance?
  exact World.store_fits hi h.orderly.sound hSlots

/-- **Variables are set**: the store keeps its length. -/
theorem Aboard.putStore (h : Aboard B r) {xs : Array Float}
    (hSize : xs.size = ((storeOf B.home).get r.state).size)
    (hSame : ∀ j, B.lim.slots ≤ j → xs[j]? = ((storeOf B.home).get r.state)[j]?) :
    Aboard B (r.move ((storeOf B.home).put xs r.state)) := by
  obtain ⟨i, hi, hSlots⟩ := h.instance?
  rw [World.store_eq hi] at hSize hSame
  refine h.change (h.orderly.sound.setStore hi hSize ?_) ?_ (fun _ => rfl) fun _ => rfl
  · exact fun j hj => hSame j (Nat.le_trans hSlots hj)
  · exact .of_change hi (Nat.le_refl _) (Nat.le_refl _) rfl

/-- **The buffer is written to**, and gets no shorter. -/
theorem Aboard.putBuffer (h : Aboard B r) {xs : Array Float}
    (hSize : ((bufferOf B.home).get r.state).size ≤ xs.size) :
    Aboard B (r.move ((bufferOf B.home).put xs r.state)) := by
  have hRoom := Nat.le_trans h.room hSize
  obtain ⟨i, hi, -⟩ := h.instance?
  obtain ⟨⟨session, loan⟩, active, made, lost, seen⟩ := r
  cases loan with
  | own buffer charged => exact ⟨h.still.orderly, h.still.passes, hRoom⟩
  | shared =>
    rw [World.buffer_shared rfl hi] at hSize
    exact h.change (h.orderly.sound.setBuffer hi hSize)
      (.of_change hi (Nat.le_refl _) hSize rfl) (fun _ => rfl) fun _ => rfl

/-- **The buffer is given back** or lost: nothing is lent any more. -/
theorem Aboard.close (h : Aboard B r) (failed : Bool) (hClosed : l' = { r with
      state := r.state.close failed B.home
      lost := r.lost ++ if failed then r.state.atStake B.home else [] }) :
    Orderly base l' ∧ Passes 0 B.start l' := by
  obtain ⟨i, hi, -⟩ := h.instance?
  obtain ⟨hSound, hGrows⟩ := World.close_grows failed hi h.orderly.sound
  have hDepths (n : Nat) : (r.state.close failed B.home).depth? n = r.state.session.depth? n :=
    hGrows.depth? n
  obtain ⟨lost, hLost, hLevel⟩ := h.passes.level
  subst hClosed
  refine ⟨⟨hSound, fun n d hd => ?_, h.orderly.seen⟩, h.passes.enlarges.trans hGrows.enlarges,
    fun n => (hDepths n).trans (h.passes.depths n), h.passes.active, h.passes.made,
    lost ++ (if failed then r.state.atStake B.home else []), ?_, fun hMade => ?_⟩
  · exact h.orderly.depths n d ((hDepths n).symm.trans hd)
  · rw [← List.append_assoc]
    exact congrArg (· ++ _) hLost
  · have hLent := hLevel hMade
    have hBoth := hLent.trans (World.close_level failed r.state B.home)
    have hRefund : r.state.session.charged B.home (-r.state.loan.bytes) =
        -B.start.state.charged B.home r.state.loan.bytes := by
      rw [charged_neg]
      exact congrArg (- ·) (hLent.charged_eq B.home _)
    rw [hRefund, Int.add_right_neg] at hBoth
    exact hBoth

/-! ## Evaluations -/

end

/-- **An evaluation is entered**: one more is running, and its instance is deeper by one. -/
theorem Orderly.enter (h : l.Orderly base) (home : Nat) : (l.enter home).Orderly base := by
  have hCounts (n d : Nat) (hd : (l.state.changeDepth home (· + 1)).depth? n = some d) :
      d = base n + (home :: l.active).count n := by
    rw [depth?_changeDepth] at hd
    split at hd
    · rename_i hSame
      obtain ⟨d', hd', rfl⟩ := Option.map_eq_some_iff.mp hd
      rw [hSame, List.count_cons_self, h.depths home d' hd', Nat.add_assoc]
    · rename_i hOther
      rw [List.count_cons_of_ne (.symm hOther), h.depths n d hd]
  refine ⟨h.sound.changeDepth home _, hCounts, List.forall_mem_cons.mpr ⟨fun n i hi => ?_, h.seen⟩⟩
  exact hCounts n i.depth (by unfold depth?; rw [hi]; rfl)

theorem enlarges_changeDepth {home : Nat} {i : Instance} (hAt : s.instance? home = some i)
    (f : Nat → Nat) : s.Enlarges (s.changeDepth home f) :=
  .of_change hAt (Nat.le_refl _) (Nat.le_refl _) rfl

theorem level_changeDepth (s : Session) (home : Nat) (f : Nat → Nat) :
    s.Level 0 [] (s.changeDepth home f) :=
  level_changeInstance s home fun _ _ => rfl

/-- **An evaluation is left**: everything that happened inside it is in order. -/
theorem Passes.leave {home : Nat} {i : Instance} (hAt : l.state.instance? home = some i)
    (hOrderly : l.Orderly base) (h' : l'.Orderly base) (h : Passes 0 (l.enter home) l') :
    (l'.leave home).Orderly base ∧ Passes 0 l (l'.leave home) := by
  have hRaised : (l.enter home).state.Enlarges l'.state := h.enlarges
  obtain ⟨i₁, hi₁, -⟩ := enlarges_changeDepth hAt (· + 1) home i hAt
  obtain ⟨i', hi', -⟩ := hRaised home i₁ hi₁
  have hDepths (n : Nat) : (l'.leave home).state.depth? n = l.state.depth? n := by
    show (l'.state.changeDepth home (· - 1)).depth? n = _
    have hInside (m : Nat) : l'.state.depth? m = if m = home then (l.state.depth? home).map (· + 1)
        else l.state.depth? m := (h.depths m).trans (depth?_changeDepth _ home m _)
    rw [depth?_changeDepth]
    by_cases hSame : n = home
    · rw [if_pos hSame, hInside, if_pos rfl, Option.map_map, hSame]
      exact (Option.map_congr fun d _ => Nat.add_sub_cancel d 1).trans Option.map_id'
    · rw [if_neg hSame, hInside, if_neg hSame]
  have hActive : (l'.leave home).active = l.active := by
    show l'.active.tail = l.active
    rw [h.active]
    rfl
  obtain ⟨lost, hLost, hLevel⟩ := h.level
  refine ⟨⟨h'.sound.changeDepth home (· - 1), fun n d hd => ?_, h'.seen⟩, ?_, hDepths,
    hActive, h.made, lost, hLost, fun hMade => ?_⟩
  · rw [hActive]
    exact hOrderly.depths n d ((hDepths n).symm.trans hd)
  · exact (enlarges_changeDepth hAt (· + 1)).trans
      (hRaised.trans (enlarges_changeDepth hi' (· - 1)))
  · have hBoth := ((level_changeDepth l.state home (· + 1)).trans (hLevel hMade)).trans
      (level_changeDepth l'.state home (· - 1))
    rw [List.append_nil] at hBoth
    exact hBoth

end Logged

/-- A host function that sets a variable to its arguments. -/
def setting : Host := fun _ _ args => .work (.set "x" args) fun
  | .ok _ => .give (.number 0)
  | .error e => .fail e

end MolangCompiler

import MolangCompiler.Proofs.Widths

/-!
# Excerpts

A message about a source quotes the line in which the problem begins and marks the characters that
it is about.  Whatever the source, the place is within it (`Workshop.read_rounded`), so there is
such a line, and the marks stand under it. -/

namespace MolangCompiler

/-- The line of a source that holds a position, and how many characters are marked from there on: at
least one, and beyond the end of the line only if nothing stands there. -/
structure MarkedLine (source : String) (start : Nat) where
  before : List Char
  line : List Char
  after : List Char
  carets : Nat
  whole : source.toList = before ++ line ++ after
  unbroken : '\n' ∉ line
  opens : ∀ c ∈ before.getLast?, c = '\n'
  closes : ∀ c ∈ after.head?, c = '\n'
  reached : before.length ≤ start
  marked : 1 ≤ carets
  ended : start + carets ≤ before.length + line.length ∨
    start = before.length + line.length ∧ carets = 1

/-- The line, and the marks below it. -/
def MarkedLine.shown {source : String} {start : Nat} (m : MarkedLine source start) : String :=
  String.ofList m.line ++ "\n" ++
    String.ofList (List.replicate (start - m.before.length) ' ' ++ List.replicate m.carets '^')

private theorem eq_newline_of_mem_head? {cs : List Char} {c : Char}
    (h : c ∈ (cs.dropWhile (· != '\n')).head?) : c = '\n' := by
  have hStop := List.head?_dropWhile_not (· != '\n') cs
  rw [Option.mem_def.mp h] at hStop
  simpa using hStop

/-- **The excerpt for a position in a source** is its line with marks. -/
theorem exists_markedLine {source : String} {start : Nat} (h : start ≤ source.length) (stop : Nat) :
    ∃ m : MarkedLine source start, excerpt source start (some stop) = m.shown := by
  let lead := ((source.toList.take start).reverse.takeWhile (· != '\n')).reverse
  let before := ((source.toList.take start).reverse.dropWhile (· != '\n')).reverse
  let tail := (source.toList.drop start).takeWhile (· != '\n')
  let carets := max 1 (min (if start < stop then stop - start else 1) tail.length)
  have hFront : before ++ lead = source.toList.take start := by
    rw [← List.reverse_append, List.takeWhile_append_dropWhile, List.reverse_reverse]
  have hStart : before.length + lead.length = start := by
    rw [← List.length_append, hFront, List.length_take, String.length_toList, Nat.min_eq_left h]
  refine ⟨⟨before, lead ++ tail, (source.toList.drop start).dropWhile (· != '\n'), carets,
    ?_, ?_, ?_, fun c => eq_newline_of_mem_head?, by omega, Nat.le_max_left 1 _, ?_⟩, ?_⟩
  · rw [← List.append_assoc, hFront, List.append_assoc, List.takeWhile_append_dropWhile,
      List.take_append_drop]
  · intro hMem
    rcases List.mem_append.mp hMem with hLead | hTail
    · simpa using List.all_eq_true.mp List.all_takeWhile _ (List.mem_reverse.mp hLead)
    · simpa using List.all_eq_true.mp List.all_takeWhile _ hTail
  · intro c hc
    rw [List.getLast?_reverse] at hc
    exact eq_newline_of_mem_head? hc
  · rw [List.length_append]
    omega
  · have hColumn : lead.length + (start - source.toList.length) = start - before.length := by
      rw [String.length_toList]
      omega
    show String.ofList (lead ++ tail) ++ "\n" ++ String.ofList (List.replicate _ ' ' ++ _) = _
    rw [hColumn]
    rfl

namespace Workshop

/-- **Problems in a source are reported where they are.**  Take an instance whose namespace is sound
and whose queries are no templates and return something.  If a source cannot be read, that is not
for an error that has no place.  If the source itself is to blame, then the problem begins and ends
within it.  It is about no character at all only if the source is blank or ends too early.  The
excerpt is the line in which the problem begins with the problem marked below it. -/
theorem problems_are_reported_in_place {w w' : Workshop} (hSound : w.inst.space.Sound)
    (hQueries : ∀ q ∈ w.inst.queries, q.2.Supplies) {r : Request} {f : Failure}
    (hRead : read r w = .error f w') :
    (∀ given, f ≠ .contextArity given) ∧ (∀ problem, f ≠ .variableSize problem) ∧
      ∀ e, f = .source e → e.source = r.source ∧ e.start ≤ e.stop ∧ e.stop ≤ r.source.length ∧
        (e.start = e.stop → e.problem = .unexpectedEnd ∨
          e.problem = .emptySource ∧ r.source.toList.all isBlank = true) ∧
        ∃ m : MarkedLine r.source e.start,
          excerptIfKnown (some e.source) (some e.start) (some e.stop) = m.shown := by
  have hOther := read_rounded hSound hQueries r
  rw [hRead] at hOther
  cases hOther with
  | error hPlaced =>
    refine ⟨?_, ?_, ?_⟩
    · rintro given rfl
      exact hPlaced
    · rintro problem rfl
      exact hPlaced
    · rintro e rfl
      obtain ⟨hSource, hOrder, hEnd, hAbout⟩ := hPlaced
      obtain ⟨m, hShown⟩ := exists_markedLine (Nat.le_trans hOrder hEnd) e.stop
      refine ⟨hSource, hOrder, hEnd, hAbout, m, ?_⟩
      rw [hSource, ← hShown, excerptIfKnown, if_pos (Int.natCast_nonneg _)]
      rfl

/-- A source that calls a function which does not exist, in its second line. -/
def strayCall : Request := ⟨"v.n = c.x;\nreturn q.g(c.x);", ["x"], []⟩

/-- The call is pointed at. -/
theorem stray_call_is_reported_in_place :
    (pairSession.workshop 0).inst.space.Sound ∧
      (∀ q ∈ (pairSession.workshop 0).inst.queries, q.2.Supplies) ∧
      ∃ e w', read strayCall (pairSession.workshop 0) = .error (.source e) w' ∧
        e.start = 18 ∧ e.stop = 21 ∧ ∃ m : MarkedLine strayCall.source 18,
          m.shown = "return q.g(c.x);\n       ^^^" := by
  obtain ⟨hSound, hQueries⟩ := pairSession_supplies
  have hFailure : Outcome.failure? (read strayCall (pairSession.workshop 0)) =
      some (.source ⟨.unknownFunction "q.g", strayCall.source, 18, 21⟩) := by decide +kernel
  obtain ⟨w', hRead⟩ := Outcome.error_of_failure? hFailure
  obtain ⟨-, -, -, -, m, hShown⟩ :=
    (problems_are_reported_in_place hSound hQueries hRead).2.2 _ rfl
  exact ⟨hSound, hQueries, _, w', hRead, rfl, rfl, m, hShown.symm.trans (by decide +kernel)⟩

end Workshop

end MolangCompiler

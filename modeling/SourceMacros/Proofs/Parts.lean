-- The parts of an output. Read from left to right, an output is made of source lines and of the
-- texts of directives and invocations. Which line stands where is settled by the turns of the
-- pass: each turn copies the lines that no turn before it reached, and a directive or an
-- invocation then takes the place of the lines it reaches.
import SourceMacros.Proofs.Turns

namespace SourceMacros

/-! ## The output of a pass -/

namespace Pass

variable {μ : Type} (p : Pass μ) (table : LineTable)

@[simp]
theorem emitted_copyThrough (line : Nat) :
    (p.copyThrough line).emitted = max p.emitted line := by
  unfold copyThrough
  split
  · dsimp only
    omega
  · omega

@[simp]
theorem emitted_insert (text : String) : (p.insert text).emitted = p.emitted := rfl

@[simp]
theorem emitted_skipThrough (line : Nat) :
    (p.skipThrough line).emitted = max p.emitted line := rfl

theorem render_copyThrough (line : Nat) :
    (p.copyThrough line).render table =
      p.render table ++ String.join ((table.numbers p.emitted line).map table.lineText) := by
  unfold copyThrough
  split
  · simp [render, Chunk.render, String.join_append, LineTable.between_eq_join_numbers]
  · have hnone : min line table.size - p.emitted = 0 := by omega
    simp [LineTable.numbers, hnone]

theorem render_insert (text : String) :
    (p.insert text).render table = p.render table ++ text := by
  simp [render, insert, Chunk.render, String.join_append]

theorem render_skipThrough (line : Nat) : (p.skipThrough line).render table = p.render table := rfl

end Pass

/-! ## Parts -/

/-- A part of an output: a source line, or what a directive or an invocation left. -/
inductive Part where
  | line (n : Nat)
  | event (t : Turn)
  deriving DecidableEq, Repr

namespace Part

/-- The text of a part. -/
def render (table : LineTable) : Part → String
  | line n => table.lineText n
  | event t => t.text.getD ""

def event? : Part → Option Turn
  | line _ => none
  | event t => some t

/-- One part may stand before another. Lines ascend; no line before the first of an event stands
after it, and no line behind the last of an event stands before it. -/
def Before (stream : Stream) : Part → Part → Prop
  | line m, line n => m < n
  | line n, event t => n ≤ t.last stream
  | event t, line n => t.first stream ≤ n
  | event _, event _ => True

end Part

/-- The parts that the turns leave when every line up to `emitted` is settled. The lines behind the
last turn come last. -/
def parts (stream : Stream) (emitted : Nat) : List Turn → List Part
  | [] => (stream.lines.numbers emitted stream.lines.size).map .line
  | t :: ts =>
    match t.text with
    | none =>
      (stream.lines.numbers emitted (t.last stream)).map .line ++
        parts stream (max emitted (t.last stream)) ts
    | some _ =>
      (stream.lines.numbers emitted (t.first stream - 1)).map .line ++
        .event t :: parts stream (max (max emitted (t.first stream - 1)) (t.last stream)) ts

theorem render_lines (table : LineTable) (ns : List Nat) :
    (ns.map Part.line).map (Part.render table) = ns.map table.lineText := by
  simp [Part.render, Function.comp_def]

/-- The output is made of its parts, in order. -/
theorem render_eq_parts {μ : Type} (stream : Stream) (ts : List Turn) (p : Pass μ) :
    ((ts.foldl (fun p t => t.act stream p) p).copyThrough stream.lines.size).render stream.lines =
      p.render stream.lines ++
        String.join ((parts stream p.emitted ts).map (Part.render stream.lines)) := by
  induction ts generalizing p with
  | nil => simp only [List.foldl_nil, Pass.render_copyThrough, parts, render_lines]
  | cons t ts ih =>
    rw [List.foldl_cons, ih]
    cases htext : t.text with
    | none =>
      simp only [Turn.act, parts, htext, Pass.emitted_copyThrough, Pass.render_copyThrough,
        List.map_append, render_lines, String.join_append, String.append_assoc]
    | some text =>
      simp only [Turn.act, parts, htext, Pass.emitted_skipThrough, Pass.emitted_insert,
        Pass.emitted_copyThrough, Pass.render_skipThrough, Pass.render_insert,
        Pass.render_copyThrough, List.map_append, List.map_cons, render_lines, String.join_append,
        String.join_cons, Part.render, Option.getD_some, String.append_assoc]

/-- The events among the parts are the turns that handled something, in order. -/
theorem events_parts (stream : Stream) (emitted : Nat) (ts : List Turn) :
    (parts stream emitted ts).filterMap Part.event? = ts.filter Turn.isEvent := by
  have hlines : ∀ ns : List Nat, (ns.map Part.line).filterMap Part.event? = [] := by
    intro ns
    rw [List.filterMap_map]
    exact List.filterMap_eq_nil_iff.mpr (fun _ _ => rfl)
  induction ts generalizing emitted with
  | nil => exact hlines _
  | cons t ts ih =>
    unfold parts
    split
    · next htext => simp [hlines, ih, Turn.isEvent, htext]
    · next text htext => simp [hlines, ih, Turn.isEvent, htext, Part.event?]

/-- Turns that handle nothing leave every line in place. -/
theorem parts_of_no_event (stream : Stream) (emitted : Nat) {ts : List Turn}
    (h : ∀ t ∈ ts, t.text = none) :
    parts stream emitted ts = (stream.lines.numbers emitted stream.lines.size).map .line := by
  induction ts generalizing emitted with
  | nil => rfl
  | cons t ts ih =>
    have ht : t.text = none := h t List.mem_cons_self
    unfold parts
    simp only [ht]
    rw [ih _ (fun u hu => h u (List.mem_cons_of_mem t hu)), ← List.map_append,
      LineTable.numbers_append]

/-! ## Parts of turns in order -/

section

open PassRun

variable {stream : Stream} {emitted : Nat}

/-- After a turn in order, its last line is the last one that is settled. -/
theorem settled_eq {t : Turn} (h1 : emitted ≤ t.first stream)
    (h2 : t.first stream ≤ t.last stream) :
    max emitted (t.last stream) = t.last stream ∧
      max (max emitted (t.first stream - 1)) (t.last stream) = t.last stream := by
  omega

theorem line_mem_map {ns : List Nat} {n : Nat} : Part.line n ∈ ns.map Part.line ↔ n ∈ ns := by
  simp

/-- Only lines that are not settled yet are among the parts. -/
theorem lt_of_line_mem_parts {ts : List Turn} (h : Ascends stream emitted ts) {n : Nat}
    (hn : Part.line n ∈ parts stream emitted ts) : emitted < n ∧ n ≤ stream.lines.size := by
  induction ts generalizing emitted with
  | nil =>
    obtain ⟨h1, _, h3⟩ := (LineTable.mem_numbers ..).mp (line_mem_map.mp hn)
    exact ⟨h1, h3⟩
  | cons t ts ih =>
    obtain ⟨h1, h2, h3⟩ := h
    obtain ⟨hplain, hevent⟩ := settled_eq h1 h2
    cases htext : t.text with
    | none =>
      simp only [parts, htext, hplain, List.mem_append, line_mem_map, LineTable.mem_numbers] at hn
      rcases hn with ⟨h4, _, h6⟩ | hn
      · exact ⟨h4, h6⟩
      · obtain ⟨h4, h5⟩ := ih h3 hn
        exact ⟨by omega, h5⟩
    | some text =>
      simp only [parts, htext, hevent, List.mem_append, line_mem_map, LineTable.mem_numbers,
        List.mem_cons, reduceCtorEq, false_or] at hn
      rcases hn with ⟨h4, _, h6⟩ | hn
      · exact ⟨h4, h6⟩
      · obtain ⟨h4, h5⟩ := ih h3 hn
        exact ⟨by omega, h5⟩

theorem event_mem_parts {ts : List Turn} {t : Turn}
    (ht : Part.event t ∈ parts stream emitted ts) : t ∈ ts := by
  have hmem : t ∈ (parts stream emitted ts).filterMap Part.event? :=
    List.mem_filterMap.mpr ⟨_, ht, rfl⟩
  rw [events_parts] at hmem
  exact (List.mem_filter.mp hmem).1

theorem lines_pairwise (after last : Nat) :
    ((stream.lines.numbers after last).map Part.line).Pairwise (Part.Before stream) := by
  rw [List.pairwise_map]
  exact LineTable.numbers_pairwise _ _ _

/-- A line up to the last of a turn comes before all that the turns behind it leave. -/
theorem line_before_parts {ts : List Turn} {n : Nat} (h : Ascends stream emitted ts)
    (hn : n ≤ emitted) : ∀ b ∈ parts stream emitted ts, (Part.line n).Before stream b := by
  intro b hb
  cases b with
  | line m =>
    have := (lt_of_line_mem_parts h hb).1
    exact Nat.lt_of_le_of_lt hn this
  | event t =>
    obtain ⟨h1, h2⟩ := h.mem t (event_mem_parts hb)
    exact Nat.le_trans hn (Nat.le_trans h1 h2)

/-- The parts stand in order. -/
theorem parts_pairwise {ts : List Turn} (h : Ascends stream emitted ts) :
    (parts stream emitted ts).Pairwise (Part.Before stream) := by
  induction ts generalizing emitted with
  | nil => exact lines_pairwise _ _
  | cons t ts ih =>
    obtain ⟨h1, h2, h3⟩ := h
    obtain ⟨hplain, hevent⟩ := settled_eq h1 h2
    cases htext : t.text with
    | none =>
      simp only [parts, htext, hplain]
      rw [List.pairwise_append]
      refine ⟨lines_pairwise _ _, ih h3, ?_⟩
      intro a ha b hb
      obtain ⟨n, hn, rfl⟩ := List.mem_map.mp ha
      rw [LineTable.mem_numbers] at hn
      exact line_before_parts h3 hn.2.1 b hb
    | some text =>
      simp only [parts, htext, hevent]
      rw [List.pairwise_append, List.pairwise_cons]
      refine ⟨lines_pairwise _ _, ⟨?_, ih h3⟩, ?_⟩
      · intro b hb
        cases b with
        | line n =>
          have := (lt_of_line_mem_parts h3 hb).1
          exact Nat.le_trans h2 (Nat.le_of_lt this)
        | event u => trivial
      · intro a ha b hb
        obtain ⟨n, hn, rfl⟩ := List.mem_map.mp ha
        rw [LineTable.mem_numbers] at hn
        have hlast : n ≤ t.last stream := by omega
        rcases List.mem_cons.mp hb with rfl | hb
        · exact hlast
        · exact line_before_parts h3 hlast b hb

/-- A line is among the parts unless the first turn that reaches it is an event that starts no
later. -/
theorem line_mem_parts_iff {ts : List Turn} (h : Ascends stream emitted ts) {n : Nat}
    (hn : emitted < n) (hsize : n ≤ stream.lines.size) :
    Part.line n ∈ parts stream emitted ts ↔
      ∀ t, ts.find? (fun t => n ≤ t.last stream) = some t → t.isEvent = true →
        n < t.first stream := by
  induction ts generalizing emitted with
  | nil => simp [parts, LineTable.mem_numbers, hn, hsize]
  | cons t ts ih =>
    obtain ⟨h1, h2, h3⟩ := h
    obtain ⟨hplain, hevent⟩ := settled_eq h1 h2
    -- Behind a turn that reaches the line, nothing copies it any more.
    have hlater : n ≤ t.last stream → Part.line n ∉ parts stream (t.last stream) ts := by
      intro hle hmem
      have := (lt_of_line_mem_parts h3 hmem).1
      omega
    cases htext : t.text with
    | none =>
      simp only [parts, htext, hplain, List.mem_append, line_mem_map, LineTable.mem_numbers]
      by_cases hle : n ≤ t.last stream
      · simp [hle, hn, hsize, Turn.isEvent, htext]
      · rw [List.find?_cons_of_neg (by simpa using hle), ← ih h3 (by omega)]
        simp [hle]
    | some text =>
      simp only [parts, htext, hevent, List.mem_append, line_mem_map, LineTable.mem_numbers,
        List.mem_cons, reduceCtorEq, false_or]
      by_cases hle : n ≤ t.last stream
      · simp only [hlater hle, hle, decide_true, List.find?_cons_of_pos, or_false,
          Option.some.injEq, forall_eq', Turn.isEvent, htext, Option.isSome_some, forall_const]
        omega
      · rw [List.find?_cons_of_neg (by simpa using hle), ← ih h3 (by omega)]
        have : ¬ n ≤ t.first stream - 1 := by omega
        simp [this]

end

end SourceMacros

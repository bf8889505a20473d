import TraceTutor.Proofs.Trace.Recording
import TraceTutor.Viewer.Replay

/-!
# What stays on screen

Keys, seconds and drawings may follow each other in any order. The position stays inside the trace
whatever happens (`Replay.isInside_after`). A drawing settles how the panes are scrolled: the lists
end where their last items show, and the source shows the current line (`Replay.stays_in_view`).
-/

namespace TraceTutor

namespace Viewer

/-! ## Scrolling -/

/-- What stands in some row of a pane still shows when the pane does not scroll beyond the end. -/
theorem Offset.clamp_shows {line row items visible : Nat} (hrow : row < visible) (hfirst : 1 ≤ line)
    (hlast : line ≤ items) :
    clamp (line - 1 - row) items visible < line ∧
      line ≤ clamp (line - 1 - row) items visible + visible := by
  show min (line - 1 - row) (items - visible) < line ∧
    line ≤ min (line - 1 - row) (items - visible) + visible
  omega

namespace SourceScroll

/-- The pinned row is a row of the pane. -/
theorem rowWithin_lt (s : SourceScroll) {visible : Nat} (h : 0 < visible) :
    s.rowWithin visible < visible := by
  unfold rowWithin
  omega

/-- A pane that follows the current line shows it. -/
theorem follow_shows (s : SourceScroll) {v : SourceView} {visible : Nat} (hvisible : 0 < visible)
    (hline : IsLine v.lines.length v.currentLine) :
    (s.follow v visible).offset < v.currentLine ∧
      v.currentLine ≤ (s.follow v visible).offset + visible := by
  obtain ⟨hfirst, hlast⟩ := hline
  have hrow := s.rowWithin_lt hvisible
  have hoffset : (s.follow v visible).offset =
      Offset.clamp (v.currentLine - 1 - s.rowWithin visible) v.lines.length visible :=
    if_pos ⟨hfirst, hlast⟩
  rw [hoffset]
  exact Offset.clamp_shows hrow hfirst hlast

end SourceScroll

namespace Replay

/-! ## What may happen -/

inductive Event where
  | press (key : Key)
  /-- A second without keys. -/
  | tick
  /-- The screen is drawn, however the panes share it. -/
  | draw (layout : Layout)

def happen (r : Replay) : Event → Replay
  | .press key => r.press key
  | .tick => r.tick
  | .draw layout => r.settle layout

/-- The replay after one event and another. -/
def after (r : Replay) (events : List Event) : Replay :=
  events.foldl happen r

theorem after_concat (r : Replay) (events : List Event) (event : Event) :
    r.after (events ++ [event]) = (r.after events).happen event :=
  List.foldl_append

/-- The step that playing makes as soon as it is switched on is that of a second without keys. -/
theorem respond_eq_after (r : Replay) (key : Key) :
    r.respond key = r.after [.press key] ∨ r.respond key = r.after [.press key, .tick] := by
  unfold respond
  dsimp only
  split
  next h =>
    refine .inr ?_
    show _ = (r.press key).tick
    rw [tick, if_pos (Bool.and_eq_true_iff.1 h).2]
  next => exact .inl rfl

/-! ## The position -/

/-- The replay shows a report, at a position of its trace or at the start of an empty one. -/
structure IsInside (report : Report) (source : String) (r : Replay) : Prop where
  report_eq : r.report = report
  source_eq : r.source = source
  position_lt : r.position < max 1 report.run.trace.length

namespace IsInside

variable {report : Report} {source : String} {r : Replay}

theorem start (report : Report) (source : String) (hasLearner : Bool) :
    IsInside report source (.start report source hasLearner) :=
  ⟨rfl, rfl, Nat.lt_of_lt_of_le Nat.zero_lt_one (Nat.le_max_left ..)⟩

theorem goTo (h : r.IsInside report source) {position : Nat}
    (hposition : position < max 1 report.run.trace.length) :
    (r.goTo position).IsInside report source :=
  ⟨h.report_eq, h.source_eq, hposition⟩

/-- Before the end there is a next position. -/
theorem goTo_next (h : r.IsInside report source) (hend : r.isAtEnd = false) :
    (r.goTo (r.position + 1)).IsInside report source := by
  refine h.goTo ?_
  have hlt : r.position + 1 < r.trace.length := Nat.lt_of_not_le (of_decide_eq_false hend)
  rw [trace, h.report_eq] at hlt
  omega

theorem stopped (h : r.IsInside report source) (message : Message) :
    (r.stopped message).IsInside report source :=
  ⟨h.report_eq, h.source_eq, h.position_lt⟩

theorem scrollBy (h : r.IsInside report source) (byLine : SourceScroll → SourceScroll)
    (byItem : Offset → Offset) : (r.scrollBy byLine byItem).IsInside report source :=
  ⟨h.report_eq, h.source_eq, h.position_lt⟩

theorem settle (h : r.IsInside report source) (layout : Layout) :
    (r.settle layout).IsInside report source :=
  ⟨h.report_eq, h.source_eq, h.position_lt⟩

theorem forward (h : r.IsInside report source) (n : Nat) :
    (r.forward n).1.IsInside report source := by
  induction n generalizing r with
  | zero => exact h
  | succ n ih =>
    unfold Replay.forward
    split
    next => exact h
    next hend => exact ih (h.goTo_next (Bool.eq_false_iff.2 hend))

theorem playStep (h : r.IsInside report source) : r.playStep.IsInside report source := by
  unfold Replay.playStep
  split
  next => exact ⟨h.report_eq, h.source_eq, h.position_lt⟩
  next hend =>
    have hnext := h.goTo_next (Bool.eq_false_iff.2 hend)
    exact ⟨hnext.report_eq, hnext.source_eq, hnext.position_lt⟩

theorem pressChar (h : r.IsInside report source) (c : Char) :
    (r.pressChar c).IsInside report source := by
  unfold Replay.pressChar
  split
  · exact ⟨h.report_eq, h.source_eq, h.position_lt⟩
  split
  · exact (h.forward _).stopped _
  · exact h

theorem press (h : r.IsInside report source) (key : Key) :
    (r.press key).IsInside report source := by
  cases key with
  | char c => exact h.pressChar c
  | tab => exact ⟨h.report_eq, h.source_eq, h.position_lt⟩
  | left =>
    simp only [Replay.press]
    split
    · exact h.stopped _
    · exact (h.goTo (Nat.lt_of_le_of_lt (Nat.sub_le _ 1) h.position_lt)).stopped _
  | right =>
    simp only [Replay.press]
    split
    next => exact h.stopped _
    next hend => exact (h.goTo_next (Bool.eq_false_iff.2 hend)).stopped _
  | up => exact h.scrollBy _ _
  | down => exact h.scrollBy _ _
  | space isRepeated =>
    cases isRepeated with
    | true => exact h
    | false =>
      simp only [Replay.press]
      split
      · exact h.stopped _
      · exact ⟨h.report_eq, h.source_eq, h.position_lt⟩
  | enter =>
    have hlast : r.trace.length - 1 < max 1 report.run.trace.length := by
      rw [trace, h.report_eq]
      omega
    exact (h.goTo hlast).stopped _
  | backspace =>
    exact (h.goTo (Nat.lt_of_lt_of_le Nat.zero_lt_one (Nat.le_max_left ..))).stopped _

theorem happen (h : r.IsInside report source) (event : Event) :
    (r.happen event).IsInside report source := by
  cases event with
  | press key => exact h.press key
  | tick =>
    show r.tick.IsInside report source
    unfold Replay.tick
    split
    · exact h.playStep
    · exact h
  | draw layout => exact h.settle layout

end IsInside

theorem isInside_after {report : Report} {source : String} {r : Replay}
    (h : r.IsInside report source) (events : List Event) :
    (r.after events).IsInside report source := by
  induction events generalizing r with
  | nil => exact h
  | cons event events ih => exact ih (h.happen event)

/-! ## The screen -/

/-- How a screen that has just been drawn is scrolled: no list further than its end, and the source
to where the current line shows, if the pane has a row for it inside its border. -/
structure IsSettled (r : Replay) (l : Layout) : Prop where
  output : r.current.emitted ≠ [] →
    r.scroll.output ≤ r.current.emitted.length - Pane.visibleRows l.outputHeight
  bindings :
    r.scroll.bindings ≤ r.variablesView.items.length - Pane.visibleRows l.variablesHeight
  discrepancies : r.report.discrepancies ≠ [] →
    r.scroll.discrepancies ≤
      r.report.discrepancies.length - Pane.visibleRows l.discrepanciesHeight
  source : IsLine (Text.lines r.source.toList).length r.current.line → 3 ≤ l.sourceHeight →
    r.scroll.source.offset < r.current.line ∧
      r.current.line ≤ r.scroll.source.offset + (l.sourceHeight - 2)

theorem isSettled_settle (r : Replay) (layout : Layout) : (r.settle layout).IsSettled layout where
  output h := by
    have hemitted : ¬ r.current.emitted.isEmpty := fun hempty => h (List.isEmpty_iff.1 hempty)
    show OutputView.scroll r.current.emitted _ _ ≤ _
    rw [OutputView.scroll, if_neg hemitted]
    exact Offset.clamp_le ..
  bindings := Offset.clamp_le ..
  discrepancies h := by
    have hentries : ¬ r.discrepancyView.entries.isEmpty := fun hempty =>
      h (List.map_eq_nil_iff.1 (List.isEmpty_iff.1 hempty))
    have hlength : r.discrepancyView.entries.length = r.report.discrepancies.length :=
      List.length_map ..
    show r.discrepancyView.scroll _ _ ≤ r.report.discrepancies.length - _
    rw [DiscrepancyView.scroll, if_neg hentries, ← hlength]
    exact Offset.clamp_le ..
  source hline hheight := by
    have hvisible : Pane.visibleRows layout.sourceHeight = layout.sourceHeight - 2 :=
      Nat.max_eq_left (by omega)
    rw [← hvisible]
    exact r.scroll.source.follow_shows (v := r.sourceView) (by omega) hline

/-- Whatever keys are pressed and however often the screen is drawn, in any layouts, the position
stays inside the trace, and the screen as it was drawn last is settled. A drawing on a screen of
some size is one in the layout of that size. -/
theorem stays_in_view (report : Report) (source : String) (hasLearner : Bool)
    (events : List Event) :
    ((start report source hasLearner).after events).IsInside report source ∧
    (∀ layout, ((start report source hasLearner).after
      (events ++ [.draw layout])).IsSettled layout) ∧
    ∀ width height, (((start report source hasLearner).after events).draw width height).2 =
      (start report source hasLearner).after (events ++ [.draw (.ofSize width height)]) := by
  refine ⟨isInside_after (.start report source hasLearner) events, fun layout => ?_,
    fun width height => ?_⟩
  · rw [after_concat]
    exact isSettled_settle _ layout
  · rw [after_concat]
    rfl

/-- A run of two steps on a source of nine lines. The second step is at the last line, and the
learner predicted it differently. -/
def twoSteps : Report where
  run :=
    { trace := [⟨1, 1, .empty, [], [], none, none⟩, ⟨2, 9, .empty, [], ["a", "b", "c"], none, none⟩]
      output := ["a", "b", "c"]
      fault := none
      truncated := false }
  discrepancies := [⟨2, "x", some (.int 1), none⟩]

/-- The end of the source and of each list shows, though the keys scroll beyond it and the screen
was larger before. -/
theorem stays_in_view_twoSteps :
    let r := (start twoSteps "1\n2\n3\n4\n5\n6\n7\n8\n9" true).after
      [.draw (.ofSize 80 24), .press .up, .press (.space false), .tick, .tick, .press .tab,
        .press .down, .draw (.ofSize 30 8)]
    r.position < 2 ∧ r.scroll.output ≤ 2 ∧ r.scroll.bindings ≤ 3 ∧ r.scroll.discrepancies = 0 ∧
      r.scroll.source.offset < 9 ∧ 9 ≤ r.scroll.source.offset + 3 := by
  intro r
  have hview := stays_in_view twoSteps "1\n2\n3\n4\n5\n6\n7\n8\n9" true
  have hinside := (hview [.draw (.ofSize 80 24), .press .up, .press (.space false), .tick, .tick,
    .press .tab, .press .down, .draw (.ofSize 30 8)]).1
  have hsettled := (hview [.draw (.ofSize 80 24), .press .up, .press (.space false), .tick, .tick,
    .press .tab, .press .down]).2.1 (.ofSize 30 8)
  have hline : IsLine 9 9 := ⟨by decide, by decide⟩
  have hsource := hsettled.source hline (by decide)
  exact ⟨hinside.position_lt, hsettled.output (by decide), hsettled.bindings,
    Nat.le_zero.1 (hsettled.discrepancies (List.cons_ne_nil _ _)), hsource⟩

end Replay

end Viewer

end TraceTutor

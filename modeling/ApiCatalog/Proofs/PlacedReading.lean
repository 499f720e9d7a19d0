import ApiCatalog.Form.Reader
import ApiCatalog.Proofs.Lexing
import ApiCatalog.Proofs.Placement

/-!
# Reading does not depend on place

The stack of a reader carries the spans of its tokens along and looks at one thing in them:
whether an opening bracket stands in the first column. So a change of spans that leaves first
columns alone changes the spans of what is read and nothing else.

Main statements: `Recovery.feed_mapSpan`, `Recovery.foldl_feed_mapSpan`.
-/

namespace ApiCatalog

/-- Whether a change of spans keeps what reading makes of them: the span from one to another,
and the first column. -/
structure Span.IsMove (g : Span → Span) : Prop where
  through : ∀ s t : Span, g (s.through t) = (g s).through (g t)
  isInFirstColumn : ∀ s : Span, (g s).isInFirstColumn = s.isInFirstColumn

theorem Span.isMove_shift (bytes : Nat) (lines : UInt32) :
    Span.IsMove (Span.shift bytes lines) :=
  ⟨fun _ _ => rfl, fun _ => rfl⟩

variable (g : Span → Span)

/-- The frame with every span in it changed. -/
def Frame.mapSpan : Frame → Frame
  | .items bracket start read => .items bracket (g start) (read.map (Form.mapSpan g))
  | .discard mark => .discard (g mark)

/-- The outcome of a step with every span in it changed. -/
def Step.mapSpan : Step → Step
  | .more stack => .more (stack.map (Frame.mapSpan g))
  | .done form => .done (form.mapSpan g)
  | .failed fault span stack => .failed fault (g span) (stack.map (Frame.mapSpan g))

namespace Stack

theorem depth_map (stack : Stack) : depth (stack.map (Frame.mapSpan g)) = depth stack := by
  rw [depth, depth, List.countP_map]
  congr 1
  funext frame
  cases frame <;> rfl

theorem accept_mapSpan (f : Form) (stack : Stack) :
    accept (f.mapSpan g) (stack.map (Frame.mapSpan g)) = (accept f stack).mapSpan g := by
  cases stack with
  | nil => rfl
  | cons frame outer => cases frame <;> rfl

variable {g} (hg : Span.IsMove g)
include hg

theorem close_mapSpan (bracket : Bracket) (span : Span) (stack : Stack) :
    close bracket (g span) (stack.map (Frame.mapSpan g)) =
      (close bracket span stack).mapSpan g := by
  rcases stack with _ | ⟨⟨opened, start, read⟩ | ⟨mark⟩, outer⟩
  · rfl
  · simp only [List.map_cons, Frame.mapSpan, close, List.length_map]
    split
    · rfl
    · split
      · rfl
      · rw [← accept_mapSpan, Form.mapSpan_seq, hg.through, List.map_reverse]
  · rfl

/-- One token does the same to the stack wherever it stands. -/
theorem step_mapSpan (stack : Stack) (t : Token) :
    step (stack.map (Frame.mapSpan g)) (t.mapSpan g) = (step stack t).mapSpan g := by
  obtain ⟨kind, span⟩ := t
  cases kind with
  | comment text => rfl
  | discard => rfl
  | opening bracket => rfl
  | atom a => exact accept_mapSpan g (.atom a span) stack
  | closing bracket => exact close_mapSpan hg bracket span stack
  | fault f => rfl

end Stack

/-- The state of a recovering reader with every span in it changed. -/
def RecoveryMode.mapSpan : RecoveryMode → RecoveryMode
  | .reading leftOpen stack => .reading leftOpen (stack.map (Frame.mapSpan g))
  | .skipping => .skipping

namespace Recovery

/-- What has been met, with every span in it changed. -/
def mapSpan (r : Recovery) : Recovery :=
  ⟨r.forms.map (Form.mapSpan g), r.faults.map (Prod.map id g), r.mode.mapSpan g⟩

theorem finish_mapSpan (r : Recovery) (stop : Span) :
    (r.mapSpan g).finish (g stop) = (r.finish stop).mapSpan g := by
  obtain ⟨forms, faults, mode⟩ := r
  cases mode with
  | skipping => rfl
  | reading leftOpen stack =>
    cases stack with
    | nil => rfl
    | cons frame outer => cases frame <;> rfl

variable {g} (hg : Span.IsMove g)
include hg

theorem beginsDeclaration_mapSpan (t : Token) :
    (t.mapSpan g).beginsDeclaration = t.beginsDeclaration := by
  rw [Token.beginsDeclaration, Token.beginsDeclaration, Token.mapSpan, hg.isInFirstColumn]

/-- A recovering reader does the same with a token wherever it stands. -/
theorem feed_mapSpan (r : Recovery) (t : Token) :
    (r.mapSpan g).feed (t.mapSpan g) = (r.feed t).mapSpan g := by
  obtain ⟨forms, faults, mode⟩ := r
  have begins := beginsDeclaration_mapSpan hg t
  cases mode with
  | skipping =>
    simp only [feed, mapSpan, RecoveryMode.mapSpan, begins]
    split <;> rfl
  | reading leftOpen stack =>
    simp only [feed, mapSpan, RecoveryMode.mapSpan, begins, List.isEmpty_map, Stack.depth_map,
      Stack.step_mapSpan hg]
    split
    · rfl
    · cases Stack.step stack t <;> rfl

theorem foldl_feed_mapSpan (r : Recovery) (ts : List Token) :
    (ts.map (Token.mapSpan g)).foldl feed (r.mapSpan g) = (ts.foldl feed r).mapSpan g := by
  induction ts generalizing r with
  | nil => rfl
  | cons t ts ih => rw [List.map_cons, List.foldl_cons, List.foldl_cons, feed_mapSpan hg, ih]

end Recovery

end ApiCatalog

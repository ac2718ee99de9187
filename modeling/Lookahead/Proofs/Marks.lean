import Lookahead.Proofs.Selection
import Lookahead.Source.Scripted

/-!
# Marks

A mark is the distance of the frontier from the token start. A caller who keeps it may look
ahead, move the frontier and free, and comes back by moving to the mark. In between the window
may have moved on any number of times, the frontier may have stopped at the last word, and the
source may have ended or failed. What the mark is counted from is still there: the token start
has stayed in the stream, and its index has only become smaller, so the way back is never cut
short by the width of a word.

What a look at the mark has shown is shown again after the return. A byte that was delivered
is not taken back, and where there was none the source had ended then.

## Main definitions

* `Op.shifts`: the operations that start the next token.
* `Scanner.Returns`: what a caller finds who moves to a mark.
* `Scanner.KeepsAlong`: the window is kept along all runs in which it has to be.

## Main statements

* `Scanner.Sound.place_moveTo`: moving to a mark leads back to the place it was taken at.
* `Scanner.Sound.peek_again`: looks from one place agree.
* `Scanner.marks_survive`: moving to a mark undoes whatever was looked at, moved and freed.
-/
namespace Lookahead

/-- Whether an operation may start the next token. -/
def Op.shifts : Op → Bool
  | .shift | .shiftToken | .skip | .shiftLent => true
  | _ => false

namespace Scanner

variable {σ : Type} {scanner later : Scanner σ} {delivered rest : List UInt8} {mode : Mode}

/-! ## The way back -/

/-- **Moving to a mark leads back to the place it was taken at**, if the token start is still
there and the window has not moved back. -/
theorem Sound.place_moveTo (h : scanner.Sound delivered)
    (hshifted : later.shiftedTotal = scanner.shiftedTotal)
    (horigin : scanner.window.origin ≤ later.window.origin) :
    (later.moveTo scanner.pos).place = scanner.place := by
  have hfrontier := h.frontierOffset_eq
  have hlt := h.frontier_lt
  simp only [shiftedTotal, frontierOffset] at hshifted hfrontier
  -- the index of the mark is not beyond the one the frontier had when it was taken
  have hword : later.start + scanner.pos < Word.bound := by omega
  rw [Scanner.moveTo, Word.saturate_of_lt hword]
  refine Place.ext hshifted ?_
  simp only [place, frontierOffset]
  omega

/-- From the same place the frontier has no larger an index, if the window has not moved back. -/
theorem frontier_le_of_place (hplace : later.place = scanner.place)
    (horigin : scanner.window.origin ≤ later.window.origin) :
    later.frontier ≤ scanner.frontier := by
  have hfrontier : later.frontierOffset = scanner.frontierOffset :=
    congrArg Place.frontier hplace
  simp only [frontierOffset] at hfrontier
  omega

variable [Source σ]

/-- An operation that starts no token leaves the token start in place, stopped or not. -/
theorem Sound.shiftedTotal_apply (h : scanner.Sound delivered) (mode : Mode) {op : Op}
    (hop : op.shifts = false) :
    (scanner.apply mode op).scanner.shiftedTotal = scanner.shiftedTotal := by
  cases op with
  | peek distance => exact (h.passes (passes_peek scanner distance)).steady.shifted
  | peekRune distance => exact (h.passes (passes_peekRune scanner distance)).steady.shifted
  | moveBy delta =>
    rw [Scanner.apply, Outcome.scanner_map, Scanner.moveBy]
    split <;> rfl
  | free n => exact congrArg Place.shifted (place_free mode scanner n)
  | moveTo n => rfl
  | bytes => rfl
  | lentBytes => rfl
  | _ => cases hop

theorem Sound.shiftedTotal_after (h : scanner.Sound delivered) {ops : List Op}
    (hops : ∀ op ∈ ops, op.shifts = false) :
    (scanner.after mode ops).1.shiftedTotal = scanner.shiftedTotal := by
  induction ops using List.reverseRecOn with
  | nil => rfl
  | append_singleton ops op ih =>
    rw [List.forall_mem_append, List.forall_mem_singleton] at hops
    rw [after_concat, (h.run mode ops).shiftedTotal_apply mode hops.2, ih hops.1]

/-! ## What is seen again -/

/-- **Looks from one place agree.** A byte that was delivered by the first is there for the
second. If there was none, the source had ended, and nothing has been delivered since. -/
theorem Sound.peek_again (h : scanner.Sound delivered) {distance : Nat}
    (hlater : later.Sound
      (delivered ++ deliveredBytes (scanner.peek mode distance).log ++ rest))
    (hplace : later.place = scanner.place)
    (horigin : scanner.window.origin ≤ later.window.origin)
    (hended : (scanner.peek mode distance).scanner.status.isActive = false →
      later.status.isActive = false ∧ rest = [])
    (hword : scanner.frontier + distance < Word.bound)
    (hfirst : (scanner.peek mode distance).scanner.window.Kept)
    (hlast : (later.peek mode distance).scanner.window.Kept) :
    ∃ byte, (scanner.peek mode distance).result = .ok byte ∧
      (later.peek mode distance).result = .ok byte := by
  have hfrontier : later.frontierOffset = scanner.frontierOffset := congrArg Place.frontier hplace
  have hindex : later.frontier + distance < Word.bound :=
    Nat.lt_of_le_of_lt (Nat.add_le_add_right (frontier_le_of_place hplace horigin) _) hword
  obtain ⟨hbyte, hpast⟩ := h.result_peek_of_lt hword hfirst
  obtain ⟨hagain, -⟩ := hlater.result_peek_of_lt hindex hlast
  refine ⟨_, hbyte, hagain.trans ?_⟩
  rw [hfrontier]
  rcases Nat.lt_or_ge (scanner.frontierOffset + distance)
    (delivered ++ deliveredBytes (scanner.peek mode distance).log).length with hlt | hge
  · rw [List.append_assoc, List.getD_append _ _ _ _ hlt]
  · obtain ⟨hi, rfl⟩ := hended (hpast hge)
    have hsilent : requests (later.peek mode distance).log = [] :=
      (quiet_apply_of_not_active hi mode (.peek distance)).requests_eq
    rw [deliveredBytes_of_requests hsilent, List.append_nil, List.append_nil]

/-- So do looks at the two ends of a run that leads back to the place. -/
theorem Sound.peek_after (h : scanner.Sound delivered) {distance : Nat} {ops : List Op}
    (hplace : (scanner.after mode (.peek distance :: ops)).1.place = scanner.place)
    (hword : scanner.frontier + distance < Word.bound)
    (hk : (scanner.after mode (.peek distance :: (ops ++ [.peek distance]))).1.window.Kept) :
    ∃ byte, (scanner.peek mode distance).result = .ok byte ∧
      ((scanner.after mode (.peek distance :: ops)).1.peek mode distance).result = .ok byte := by
  have hlooked := h.apply mode (.peek distance)
  have hlater : ((scanner.peek mode distance).scanner.after mode
      (ops ++ [.peek distance])).1.window.Kept := hk
  have hfirst := (inherits_after mode _ _).kept hlater
  have hlast : ((scanner.after mode (.peek distance :: ops)).1.peek mode
      distance).scanner.window.Kept := by
    rw [← List.cons_append, after_concat] at hk
    exact hk
  refine h.peek_again (hlooked.run mode ops) hplace
    (h.origin_le_after mode (.peek distance :: ops)) (fun hi => ?_) hword hfirst hlast
  have hquiet := quiet_after_of_not_active hi mode ops
  exact ⟨hquiet.status ▸ hi, hquiet.deliveredBytes_eq⟩

/-! ## Runs -/

/-- The scanner of a caller who takes a mark, does something else and moves to the mark. -/
def returned (mode : Mode) (here : Scanner σ) (between : List Op) : Scanner σ :=
  (here.after mode between).1.moveTo here.pos

/-- What such a caller finds, if the log says what happened before. -/
structure Returns (mode : Mode) (log : List Event) (here : Scanner σ) (between : List Op) :
    Prop where
  frontier : (here.returned mode between).frontierOffset = here.frontierOffset
  pos : (here.returned mode between).pos = here.pos
  /-- Up to as many bytes as a word can count, the frontier can be computed from the base. -/
  base :
    let told := log ++ (here.after mode between).2
    Affordable told → (deliveredBytes told).length < Word.bound →
    (here.returned mode between).window.base + (here.returned mode between).frontier =
      here.window.base + here.frontier
  /-- A look ahead that was made at the mark, possibly after other looks and frees, agrees with
  the same one made after the return. -/
  looks : ∀ first rest last distance, between = first ++ .peek distance :: rest →
    (∀ op ∈ first ++ last, op.stays = true) →
    (here.after mode first).1.frontier + distance < Word.bound →
    let told := log ++ ((here.after mode between).2 ++
      ((here.returned mode between).after mode (last ++ [.peek distance])).2)
    Affordable told → Numbered mode told →
    ∃ byte, ((here.after mode first).1.peek mode distance).result = .ok byte ∧
      (((here.returned mode between).after mode last).1.peek mode distance).result = .ok byte

/-- As long as the windows can be allocated and a checked run is given fewer bytes than a word
can count, those in an earlier log included, the window is kept. -/
def KeepsAlong (mode : Mode) (log : List Event) (scanner : Scanner σ) : Prop :=
  ∀ ops, Affordable (log ++ (scanner.after mode ops).2) →
    Numbered mode (log ++ (scanner.after mode ops).2) → (scanner.after mode ops).1.window.Kept

/-- A scanner over a source keeps its window so, wherever a run has led it. -/
theorem keepsAlong_after {config : Config} {source : σ} {built : Outcome σ UInt8}
    (hbuilt : ofSource mode config source = .ok built) (early : List Op) :
    (built.scanner.after mode early).1.KeepsAlong mode
      (built.log ++ (built.scanner.after mode early).2) := by
  intro ops hlog hcount
  rw [List.append_assoc] at hlog hcount
  have hk : Affordable _ → Numbered mode _ →
      (built.scanner.after mode (early ++ ops)).1.window.Kept := kept_of_numbered hbuilt
  rw [after_append] at hk
  exact hk hlog hcount

/-- What comes after a return is one run with what came before it. -/
theorem after_returned (mode : Mode) (here : Scanner σ) (between last : List Op) :
    here.after mode (between ++ .moveTo here.pos :: last) =
      (((here.returned mode between).after mode last).1,
        (here.after mode between).2 ++ ((here.returned mode between).after mode last).2) := by
  rw [after_append]
  rfl

/-- **A mark leads back** as long as no token is started. -/
theorem Sound.returns (h : scanner.Sound delivered) {log : List Event} {between : List Op}
    (hkept : scanner.KeepsAlong mode log)
    (hexact : ∀ ops, (scanner.after mode ops).1.window.Kept →
      (deliveredBytes (log ++ (scanner.after mode ops).2)).length < Word.bound →
      scanner.window.base = scanner.window.origin ∧
        (scanner.after mode ops).1.window.base = (scanner.after mode ops).1.window.origin)
    (hbetween : ∀ op ∈ between, op.shifts = false) : scanner.Returns mode log between := by
  have hback : (scanner.returned mode between).place = scanner.place :=
    h.place_moveTo (h.shiftedTotal_after hbetween) (h.origin_le_after mode between)
  have hreturned : (scanner.returned mode between).Sound _ :=
    (h.run mode between).moveTo scanner.pos
  constructor
  case frontier => exact congrArg Place.frontier hback
  case pos => rw [hreturned.pos_eq, hback, ← h.pos_eq]
  case base =>
    intro told hlog hlt
    obtain ⟨hbefore, hafter⟩ := hexact between (hkept between hlog fun _ => hlt) hlt
    change (scanner.after mode between).1.window.base + _ = _
    rw [hbefore, hafter]
    exact congrArg Place.frontier hback
  case looks =>
    rintro first rest last distance rfl hstays hword told hlog hcount
    rw [List.forall_mem_append] at hstays
    have hmark : (scanner.after mode first).1.place = scanner.place := h.place_after hstays.1
    have hlast : ((scanner.returned mode (first ++ .peek distance :: rest)).after mode
        last).1.place = scanner.place := (hreturned.place_after hstays.2).trans hback
    have hplace := hlast.trans hmark.symm
    -- what comes after the first look, the return included, is one run on from it
    have hrun (later : List Op) :
        ((scanner.returned mode (first ++ .peek distance :: rest)).after mode later).1 =
          ((scanner.after mode first).1.after mode
            (.peek distance :: (rest ++ .moveTo scanner.pos :: later))).1 := by
      rw [returned, after_append, after, after_append]
      rfl
    have hk := hkept ((first ++ .peek distance :: rest) ++
      .moveTo scanner.pos :: (last ++ [.peek distance]))
    rw [after_returned] at hk
    replace hk := hk hlog hcount
    have hsplit : rest ++ .moveTo scanner.pos :: (last ++ [.peek distance]) =
        (rest ++ .moveTo scanner.pos :: last) ++ [.peek distance] := by simp
    rw [hrun, hsplit] at hk
    rw [hrun] at hplace ⊢
    exact (h.run mode first).peek_after hplace hword hk

end Scanner
end Lookahead

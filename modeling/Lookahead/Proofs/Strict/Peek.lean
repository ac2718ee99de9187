import Lookahead.Proofs.Scanner.Place
import Lookahead.Proofs.Scanner.Sight
import Lookahead.Proofs.Strict.Refill

/-!
# Looking ahead strictly

Looking at a byte that is not buffered takes passes until it is or the source has
ended. The index of the byte is the sum of the frontier and a distance, and a move
of the window lowers the frontier, so the sum is made anew after every pass. The
position of the byte in the stream stays the same, which is why the passes come to
an end.

## Main definitions

* `Strict.pass`: one pass towards a byte, and `Strict.Passed`, what it leads to.
* `Strict.peek`, `Strict.peekEach` and `Strict.peekRune`.

## Main statements

* `Strict.peek_agrees` and `Strict.peekRune_agrees`: where nothing is found, looking
  ahead gives the same in either mode.
* `Strict.clear_peek` and `Strict.clear_peekRune`: nothing is found while the
  positions looked at are words.
-/
namespace Lookahead.Strict

variable {σ : Type} [Source σ]

/-! ## One pass -/

omit [Source σ] in
/-- The byte a given distance past the frontier, if it is buffered. -/
def look (scanner : Scanner σ) (distance : Nat) : Tested (Option UInt8) := do
  let index ← sum scanner.frontier distance
  if index < scanner.window.filled then
    inBounds index scanner.window.size
    return some (scanner.window.byteAt index)
  else
    return none

/-- One pass towards the byte a given distance past the frontier, which is given back
if it is buffered then. -/
def pass (scanner : Scanner σ) (distance : Nat) : Tested (Step σ (Option UInt8)) := do
  let index ← sum scanner.frontier distance
  let step ← refill scanner index
  let found ← look step.scanner distance
  return { value := found, scanner := step.scanner, log := step.log }

/-- What a pass leads to in which nothing is found. -/
structure Passed (scanner : Scanner σ) (distance : Nat) (step : Step σ (Option UInt8)) :
    Prop where
  word : scanner.frontier + distance < Word.bound
  refill_eq : ∀ mode, scanner.refill mode (scanner.frontierOffset + distance) =
    ⟨.ok (), step.scanner, step.log⟩
  place : step.scanner.frontierOffset = scanner.frontierOffset
  word_after : step.scanner.frontier + distance < Word.bound
  lt_size : step.scanner.frontier + distance < step.scanner.window.filled →
    step.scanner.frontier + distance < step.scanner.window.size
  value : step.value =
    if step.scanner.frontier + distance < step.scanner.window.filled then
      some (step.scanner.window.byteAt (step.scanner.frontier + distance))
    else none

omit [Source σ] in
theorem look_eq_ok {scanner : Scanner σ} {distance : Nat} {found : Option UInt8}
    (h : look scanner distance = .ok found) :
    scanner.frontier + distance < Word.bound ∧
      (scanner.frontier + distance < scanner.window.filled →
        scanner.frontier + distance < scanner.window.size) ∧ found =
      if scanner.frontier + distance < scanner.window.filled then
        some (scanner.window.byteAt (scanner.frontier + distance))
      else none := by
  simp only [look, bind_eq_ok, sum_eq_ok] at h
  obtain ⟨index, ⟨hword, rfl⟩, h⟩ := h
  split at h
  · rename_i hlt
    simp only [bind_eq_ok, inBounds_eq_ok, pure_eq_ok] at h
    obtain ⟨-, hsize, rfl⟩ := h
    exact ⟨hword, fun _ => hsize, by rw [if_pos hlt]⟩
  · rename_i hge
    exact ⟨hword, fun hlt => absurd hlt hge, by rw [if_neg hge, pure_eq_ok.1 h]⟩

theorem passed {scanner : Scanner σ} {distance : Nat} {step : Step σ (Option UInt8)}
    (h : pass scanner distance = .ok step) : Passed scanner distance step := by
  simp only [pass, bind_eq_ok, sum_eq_ok, pure_eq_ok] at h
  obtain ⟨index, ⟨hword, rfl⟩, moved, hmoved, found, hfound, rfl⟩ := h
  obtain ⟨hafter, hsize, hvalue⟩ := look_eq_ok hfound
  refine ⟨hword, fun mode => ?_, frontierOffset_refill hmoved, hafter, hsize, hvalue⟩
  rw [Scanner.frontierOffset, Nat.add_assoc]
  exact refill_agrees hmoved mode

/-- How many more passes are possible at most before a byte is buffered. -/
def remaining (scanner : Scanner σ) (distance : Nat) : Nat :=
  if scanner.status.isActive then
    scanner.frontierOffset + distance + 1 - scanner.window.stop + 1
  else 0

/-- A pass that does not find the byte brings it nearer. -/
theorem pass_progress {scanner : Scanner σ} {distance : Nat} {step : Step σ (Option UInt8)}
    (ha : scanner.status.isActive = true) (h : pass scanner distance = .ok step)
    (hnone : step.value = none) : remaining step.scanner distance < remaining scanner distance := by
  have hp := passed h
  have hok : (scanner.refill .checked (scanner.frontierOffset + distance)).result = .ok () := by
    rw [hp.refill_eq]
  have hprogress := Scanner.refill_progress hok
  rw [hp.refill_eq] at hprogress
  simp only [remaining, ha, if_true]
  split
  · rename_i hactive
    have hstop := hprogress.resolve_left (by simp [hactive])
    have hfar : step.scanner.window.filled ≤ step.scanner.frontier + distance := by
      have hv := hp.value
      rw [hnone] at hv
      by_contra hlt
      rw [if_pos (Nat.lt_of_not_le hlt)] at hv
      cases hv
    have hplace := hp.place
    simp only [Scanner.frontierOffset, Window.stop] at *
    omega
  · omega

/-! ## All passes -/

/-- Makes passes until the byte a given distance past the frontier is buffered or the
source has ended. -/
def read (scanner : Scanner σ) (distance : Nat) : Tested (Step σ UInt8) :=
  if _ha : scanner.status.isActive = true then
    match _h : pass scanner distance with
    | .error finding => .error finding
    | .ok step =>
      match _hv : step.value with
      | some byte => .ok { value := byte, scanner := step.scanner, log := step.log }
      | none => (read step.scanner distance).map (·.after step.log)
  else
    .ok { value := 0, scanner, log := [] }
termination_by remaining scanner distance
decreasing_by exact pass_progress _ha _h _hv

/-- The byte `distance` past the frontier, or zero. -/
def peek (scanner : Scanner σ) (distance : Nat) : Tested (Step σ UInt8) :=
  let index := scanner.frontier + distance
  if index < Word.bound then
    if index < scanner.window.filled then do
      inBounds index scanner.window.size
      return { value := scanner.window.byteAt index, scanner, log := [] }
    else
      read scanner distance
  else
    return { value := 0, scanner, log := [] }

/-- The bytes at several distances, looked at in turn. -/
def peekEach (scanner : Scanner σ) : List Nat → Tested (Step σ (List UInt8))
  | [] => return { value := [], scanner, log := [] }
  | distance :: distances => do
    let first ← peek scanner distance
    let rest ← peekEach first.scanner distances
    return (rest.map (first.value :: ·)).after first.log

/-- The character whose lead byte is `distance` past the frontier, and the number
of bytes it takes. -/
def peekRune (scanner : Scanner σ) (distance : Nat) : Tested (Step σ (Char × Nat)) := do
  let lead ← peek scanner distance
  let rest ← peekEach lead.scanner (Scanner.followers lead.value distance)
  let decode (followers : List UInt8) : Char × Nat :=
    (Rune.decode lead.value followers, Rune.width lead.value)
  return (rest.map decode).after lead.log

section
variable {scanner : Scanner σ} {distance : Nat} {mode : Mode}

/-- Looking ahead goes on after a pass. -/
theorem Passed.peek_eq {step : Step σ (Option UInt8)} (hp : Passed scanner distance step)
    (ha : scanner.status.isActive = true)
    (hfar : scanner.window.filled ≤ scanner.frontier + distance) (mode : Mode) :
    scanner.peek mode distance = (step.scanner.peek mode distance).after step.log := by
  have hok : (scanner.refill mode (scanner.frontierOffset + distance)).result = .ok () := by
    rw [hp.refill_eq]
  have hfill := Scanner.fill_of_ok ha (Scanner.stop_le_of_far hfar) hok
  rw [hp.refill_eq] at hfill
  rw [Scanner.peek, Scanner.peek, if_pos hp.word, if_pos hp.word_after, hfill, hp.place,
    Outcome.bind_after]

theorem read_agrees {step : Step σ UInt8} (h : read scanner distance = .ok step)
    (hfar : scanner.window.filled ≤ scanner.frontier + distance) (mode : Mode) :
    scanner.peek mode distance = step.outcome := by
  fun_induction read scanner distance generalizing step with
  | case1 scanner ha finding hpass => cases h
  | case2 scanner ha moved hpass byte hv =>
    cases Except.ok.inj h
    have hp := passed hpass
    have hvalue := hp.value
    rw [hv] at hvalue
    split at hvalue
    · rename_i hlt
      rw [hp.peek_eq ha hfar, Scanner.peek_of_lt_filled mode hp.word_after hlt (hp.lt_size hlt),
        ← Option.some.inj hvalue]
      simp [Outcome.after, Outcome.pure, Step.outcome]
    · cases hvalue
  | case3 scanner ha moved hpass hv ih =>
    obtain ⟨later, hlater, rfl⟩ := map_eq_ok.1 h
    have hp := passed hpass
    have hvalue := hp.value
    rw [hv] at hvalue
    split at hvalue
    · cases hvalue
    · rename_i hge
      rw [hp.peek_eq ha hfar, ih hlater (Nat.le_of_not_lt hge), Step.outcome_after]
  | case4 scanner hi =>
    cases Except.ok.inj h
    exact Scanner.peek_of_not_active mode (by simpa using hi) hfar

/-- Looking ahead while nothing is found gives the same in either mode. -/
theorem peek_agrees {step : Step σ UInt8} (h : peek scanner distance = .ok step) (mode : Mode) :
    scanner.peek mode distance = step.outcome := by
  rw [peek] at h
  split at h
  · rename_i hword
    split at h
    · rename_i hlt
      simp only [bind_eq_ok, inBounds_eq_ok, pure_eq_ok] at h
      obtain ⟨-, hsize, rfl⟩ := h
      exact Scanner.peek_of_lt_filled mode hword hlt hsize
    · rename_i hge
      exact read_agrees h (Nat.le_of_not_lt hge) mode
  · rename_i hge
    cases pure_eq_ok.1 h
    exact Scanner.peek_of_bound_le mode scanner (Nat.le_of_not_lt hge)

theorem peekEach_agrees {distances : List Nat} {step : Step σ (List UInt8)}
    (h : peekEach scanner distances = .ok step) (mode : Mode) :
    scanner.peekEach mode distances = step.outcome := by
  induction distances generalizing scanner step with
  | nil =>
    cases pure_eq_ok.1 h
    rfl
  | cons distance distances ih =>
    simp only [peekEach, bind_eq_ok, pure_eq_ok] at h
    obtain ⟨first, hfirst, rest, hrest, rfl⟩ := h
    rw [Scanner.peekEach, peek_agrees hfirst mode, Outcome.bind_of_ok first.result_outcome,
      Step.scanner_outcome, ih hrest]
    rfl

theorem peekRune_agrees {step : Step σ (Char × Nat)} (h : peekRune scanner distance = .ok step)
    (mode : Mode) : scanner.peekRune mode distance = step.outcome := by
  simp only [peekRune, bind_eq_ok, pure_eq_ok] at h
  obtain ⟨lead, hlead, rest, hrest, rfl⟩ := h
  rw [Scanner.peekRune, peek_agrees hlead mode, Outcome.bind_of_ok lead.result_outcome,
    Step.scanner_outcome, peekEach_agrees hrest]
  rfl

end

/-! ## Finding nothing -/

section
variable {scanner : Scanner σ} {delivered : List UInt8} {distance : Nat} {mode : Mode}

omit [Source σ] in
theorem clear_look (hk : scanner.window.Kept)
    (hword : scanner.frontierOffset + distance < Word.bound) :
    Clear (look scanner distance) := by
  rw [Scanner.frontierOffset] at hword
  refine (clear_sum (by omega)).bind fun index _ => ?_
  split
  · rename_i hlt
    have hle : index < scanner.window.size := Nat.lt_of_lt_of_le hlt hk.filled_le
    exact (clear_inBounds hle).bind fun _ _ => clear_pure _
  · exact clear_pure _

theorem clear_pass (h : scanner.Sound delivered) (hk : scanner.window.Kept)
    (hf : scanner.Fits) (ha : scanner.status.isActive = true)
    (hfar : scanner.window.filled ≤ scanner.frontier + distance)
    (hword : scanner.frontierOffset + distance < Word.bound)
    (hlog : Modest (scanner.refill mode (scanner.frontierOffset + distance)).log) :
    Clear (pass scanner distance) := by
  have hplace := hword
  rw [Scanner.frontierOffset, Nat.add_assoc] at hword hlog
  refine (clear_sum (by omega)).bind fun index hi => ?_
  obtain ⟨-, rfl⟩ := sum_eq_ok.1 hi
  refine (clear_refill h hk hf ha hfar hword hlog).bind fun step hs => ?_
  rw [← frontierOffset_refill hs] at hplace
  have hstep := refill_agrees hs mode
  have hpass : Scanner.Passes mode scanner _ :=
    Scanner.passes_refill ha (Nat.add_le_add_left hfar scanner.window.origin)
  rw [hstep] at hpass
  exact (clear_look (hpass.kept_of_ok hk rfl) hplace).bind fun _ _ => clear_pure _

/-- The first pass of a look ahead is among its events. -/
theorem log_refill_subset (ha : scanner.status.isActive = true)
    (hfar : scanner.window.filled ≤ scanner.frontier + distance)
    (hword : scanner.frontier + distance < Word.bound) :
    (scanner.refill mode (scanner.frontierOffset + distance)).log ⊆
      (scanner.peek mode distance).log := by
  have hstop := Scanner.stop_le_of_far hfar
  rw [Scanner.peek, if_pos hword]
  refine List.Subset.trans ?_ (Outcome.log_subset_bind ..)
  cases hr : (scanner.refill mode (scanner.frontierOffset + distance)).result with
  | ok _ =>
    rw [Scanner.fill_of_ok ha hstop hr]
    exact List.subset_append_left ..
  | error fault =>
    rw [Scanner.fill_of_error ha hstop hr]
    exact List.Subset.refl _

/-- Where a look ahead leads keeps the scanner sound, its window, its storage within bounds
and its frontier in place. -/
theorem passes_agree {α : Type} {step : Step σ α} {outcome : Outcome σ α}
    (h : scanner.Sound delivered) (hk : scanner.window.Kept)
    (hf : scanner.status.isActive = true → scanner.Fits)
    (hp : Scanner.Passes mode scanner outcome.forget) (hagrees : outcome = step.outcome)
    (hlog : Modest outcome.log) :
    step.scanner.Sound (delivered ++ deliveredBytes step.log) ∧ step.scanner.window.Kept ∧
      (step.scanner.status.isActive = true → step.scanner.Fits) ∧
      step.scanner.frontierOffset = scanner.frontierOffset := by
  subst hagrees
  have hread := h.passes hp
  exact ⟨hread.sound, hp.kept_of_ok hk rfl, h.fits_passes hk hf hp rfl hlog,
    hread.steady.frontier⟩

theorem clear_read (h : scanner.Sound delivered) (hk : scanner.window.Kept)
    (hf : scanner.status.isActive = true → scanner.Fits)
    (hfar : scanner.window.filled ≤ scanner.frontier + distance)
    (hword : scanner.frontierOffset + distance < Word.bound)
    (hlog : Modest (scanner.peek mode distance).log) : Clear (read scanner distance) := by
  fun_induction read scanner distance generalizing delivered with
  | case1 scanner ha finding hpass =>
    have hlt : scanner.frontier + distance < Word.bound := by
      rw [Scanner.frontierOffset] at hword
      omega
    obtain ⟨step, hstep⟩ :=
      clear_pass h hk (hf ha) ha hfar hword (hlog.mono (log_refill_subset ha hfar hlt))
    rw [hpass] at hstep
    cases hstep
  | case2 scanner ha step hpass byte hv => exact ⟨_, rfl⟩
  | case3 scanner ha step hpass hv ih =>
    have hp := passed hpass
    have hfirst := hlog.mono (log_refill_subset ha hfar hp.word)
    have hread := h.reading_refill ha mode (scanner.frontierOffset + distance)
    have hpass : Scanner.Passes mode scanner _ :=
      Scanner.passes_refill ha (Scanner.stop_le_of_far hfar)
    rw [hp.refill_eq] at hpass
    have hfits (hs : step.scanner.status.isActive = true) : step.scanner.Fits := by
      have hr := (hf ha).refill h hk ha (by rw [hp.refill_eq]) hfirst
      rw [hp.refill_eq] at hr
      exact hr hs
    have hvalue := hp.value
    rw [hv] at hvalue
    split at hvalue
    · cases hvalue
    · rename_i hge
      rw [hp.peek_eq ha hfar, Outcome.log_after, modest_append] at hlog
      rw [hp.refill_eq] at hread
      have hlater := ih hread.sound (hpass.kept_of_ok hk rfl) hfits (Nat.le_of_not_lt hge)
        (hp.place ▸ hword) hlog.2
      exact hlater.map _
  | case4 scanner hi => exact ⟨_, rfl⟩

/-- Looking at a position that is a word finds nothing, as long as the windows can be
allocated. -/
theorem clear_peek (h : scanner.Sound delivered) (hk : scanner.window.Kept)
    (hf : scanner.status.isActive = true → scanner.Fits)
    (hword : scanner.frontierOffset + distance < Word.bound)
    (hlog : Modest (scanner.peek mode distance).log) : Clear (peek scanner distance) := by
  rw [peek]
  split
  · split
    · rename_i hlt
      have hle : scanner.frontier + distance < scanner.window.size :=
        Nat.lt_of_lt_of_le hlt hk.filled_le
      exact (clear_inBounds hle).bind fun _ _ => clear_pure _
    · rename_i hge
      exact clear_read h hk hf (Nat.le_of_not_lt hge) hword hlog
  · exact clear_pure _

theorem clear_peekEach {distances : List Nat} (h : scanner.Sound delivered)
    (hk : scanner.window.Kept) (hf : scanner.status.isActive = true → scanner.Fits)
    (hword : ∀ distance ∈ distances, scanner.frontierOffset + distance < Word.bound)
    (hlog : Modest (scanner.peekEach mode distances).log) :
    Clear (peekEach scanner distances) := by
  induction distances generalizing scanner delivered with
  | nil => exact clear_pure _
  | cons distance distances ih =>
    have hfirst := hlog.mono (Outcome.log_subset_bind ..)
    refine (clear_peek h hk hf (hword distance (by simp)) hfirst).bind fun first hf' => ?_
    have hagrees := peek_agrees hf' mode
    obtain ⟨hsound, hkept, hfits, hplace⟩ :=
      passes_agree h hk hf (Scanner.passes_peek scanner distance) hagrees hfirst
    rw [Scanner.peekEach, hagrees, Outcome.bind_of_ok first.result_outcome, Outcome.log_after,
      modest_append] at hlog
    refine (ih hsound hkept hfits (fun d hd => ?_) hlog.2).bind fun _ _ => clear_pure _
    rw [hplace]
    exact hword d (by simp [hd])

theorem clear_peekRune (h : scanner.Sound delivered) (hk : scanner.window.Kept)
    (hf : scanner.status.isActive = true → scanner.Fits)
    (hword : scanner.InSight mode (.peekRune distance))
    (hlog : Modest (scanner.peekRune mode distance).log) : Clear (peekRune scanner distance) := by
  have hfirst := hlog.mono (Outcome.log_subset_bind ..)
  have hlead : scanner.frontierOffset + distance < Word.bound := by
    refine hword distance ?_
    rw [Scanner.sights]
    split <;> exact List.mem_cons_self
  refine (clear_peek h hk hf hlead hfirst).bind fun lead hl => ?_
  have hagrees := peek_agrees hl mode
  obtain ⟨hsound, hkept, hfits, hplace⟩ :=
    passes_agree h hk hf (Scanner.passes_peek scanner distance) hagrees hfirst
  rw [Scanner.peekRune, hagrees, Outcome.bind_of_ok lead.result_outcome, Outcome.log_after,
    modest_append] at hlog
  refine (clear_peekEach hsound hkept hfits (fun d hd => ?_) hlog.2).bind fun _ _ => clear_pure _
  rw [hplace]
  refine hword d ?_
  rw [Scanner.sights, hagrees]
  exact List.mem_cons_of_mem _ hd

end

end Lookahead.Strict

import Lookahead.Proofs.Scanner.History

/-!
# Places in the stream

The window of a scanner moves, and with it the numbers that its positions are
kept as. What a caller moves is the place in the stream: where the token begins
and up to where it has been scanned. As long as no move is one that the scanner
would have to correct, the place depends on the operations alone, not on the
source, the configuration or the mode.

## Main definitions

* `Place`, with `Place.after`, the place after an operation.
* `Place.Permits`: the moves that need no correction.
* `Scanner.MovesWithin`: all moves of a run are of this kind.
* `Scanner.LooksWithin`: a run looks at no position past the last word.

## Main statements

* `Scanner.Sound.place_apply`: an operation changes the place as it should.
* `Scanner.place_run`: two runs of the same operations end at the same place.
-/
namespace Lookahead

/-- Where a scanner is in the stream. -/
@[ext] structure Place where
  /-- The stream offset of the token start. -/
  shifted : Nat
  /-- The stream offset of the frontier. -/
  frontier : Nat
deriving DecidableEq

namespace Place

/-- The place after an operation. Shifting a selection that outlives the scanner
takes an input that is lent. -/
def after (place : Place) (lent : Bool) : Op → Place
  | .moveBy delta => { place with frontier := (place.frontier + delta).toNat }
  | .moveTo n => { place with frontier := place.shifted + n }
  | .shift | .shiftToken | .skip => { place with shifted := place.frontier }
  | .shiftLent => if lent then { place with shifted := place.frontier } else place
  | _ => place

/-- A move goes neither before the token start nor past the last word. -/
def Permits (place : Place) : Op → Prop
  | .moveBy delta => place.shifted ≤ place.frontier + delta ∧ place.frontier + delta < Word.bound
  | .moveTo n => place.shifted + n < Word.bound
  | _ => True

instance (place : Place) : DecidablePred place.Permits := fun op => by
  cases op <;> unfold Permits <;> infer_instance

/-- Moves that are permitted keep the frontier a word. -/
theorem frontier_after_lt {place : Place} (h : place.frontier < Word.bound) (lent : Bool) {op : Op}
    (hop : place.Permits op) : (place.after lent op).frontier < Word.bound := by
  cases op with
  | moveBy delta =>
    have hlt : place.frontier + delta < (Word.bound : Int) := hop.2
    simp only [after]
    omega
  | moveTo n => exact hop
  | shiftLent =>
    rw [after]
    split <;> exact h
  | _ => exact h

end Place

namespace Scanner
variable {σ τ : Type}

/-- Where a scanner is in the stream. -/
def place (scanner : Scanner σ) : Place := ⟨scanner.shiftedTotal, scanner.frontierOffset⟩

theorem Steady.place_eq {before after : Scanner σ} (h : Steady before after) :
    after.place = before.place := Place.ext h.shifted h.frontier

theorem Steady.pos_eq {before after : Scanner σ} (h : Steady before after) :
    after.pos = before.pos := by
  have hs := h.shifted
  have hf := h.frontier
  simp only [shiftedTotal, frontierOffset] at hs hf
  rw [pos, pos]
  omega

/-- The offset is computed from the exact count of bytes before the window, as long as a
checked run has its base exact. -/
theorem offset_of_base {mode : Mode} {scanner : Scanner σ}
    (hbase : mode = .checked → scanner.window.base = scanner.window.origin) :
    scanner.offset mode = mode.add scanner.window.origin scanner.start := by
  cases mode with
  | checked => rw [offset, hbase rfl]
  | unchecked => simp [offset, Mode.add, Window.base]

theorem Steady.offset_eq {before after : Scanner σ} {mode : Mode} (h : Steady before after)
    (hbefore : mode = .checked → before.window.base = before.window.origin)
    (hafter : mode = .checked → after.window.base = after.window.origin) :
    after.offset mode = before.offset mode := by
  have hshifted := h.shifted
  rw [shiftedTotal, shiftedTotal] at hshifted
  rw [offset_of_base hbefore, offset_of_base hafter, Mode.add, Mode.add, hshifted]

/-- The frontier of a steady scanner is counted from an origin that may have moved on. -/
theorem Steady.frontier_le {before after : Scanner σ} (h : Steady before after) :
    after.frontier ≤ before.frontier := by
  have hfrontier := h.frontier
  have horigin := h.origin_le
  rw [frontierOffset, frontierOffset] at hfrontier
  omega

section
variable {scanner : Scanner σ} {delivered : List UInt8}

/-- The frontier is as far from the token start in the stream as in the window. -/
theorem Sound.frontierOffset_eq (h : scanner.Sound delivered) :
    scanner.frontierOffset = scanner.shiftedTotal + scanner.pos := by
  have hstart := h.start_le
  rw [frontierOffset, shiftedTotal, pos]
  omega

theorem Sound.pos_eq (h : scanner.Sound delivered) :
    scanner.pos = scanner.place.frontier - scanner.place.shifted := by
  simp only [place, h.frontierOffset_eq, Nat.add_sub_cancel_left]

theorem Sound.shifted_le (h : scanner.Sound delivered) :
    scanner.place.shifted ≤ scanner.place.frontier := Nat.add_le_add_left h.start_le _

/-- The offset is the place of the token start, if that is a word. -/
theorem offset_of_lt (mode : Mode) (h : scanner.shiftedTotal < Word.bound) :
    scanner.offset mode = .ok scanner.shiftedTotal := by
  have horigin := Nat.lt_of_le_of_lt (Nat.le_add_right _ scanner.start) h
  rw [offset, Window.base_of_lt horigin]
  exact Mode.add_of_lt mode h

/-- Scanners at the same place agree on it. -/
theorem Sound.pos_offset_eq {s : Scanner σ} {t : Scanner τ} {early late : List UInt8}
    (hs : s.Sound early) (mode : Mode) (ht : t.Sound late) (hplace : s.place = t.place)
    (hlt : t.place.frontier < Word.bound) : s.pos = t.pos ∧ s.offset mode = t.offset mode := by
  have hshifted : s.shiftedTotal = t.shiftedTotal := congrArg Place.shifted hplace
  have hword : t.shiftedTotal < Word.bound := Nat.lt_of_le_of_lt ht.shifted_le hlt
  refine ⟨by rw [hs.pos_eq, ht.pos_eq, hplace], ?_⟩
  rw [offset_of_lt mode hword, offset_of_lt mode (hshifted ▸ hword), hshifted]

/-- The target of a permitted move by a distance is a word and not before the token
start. -/
theorem moveBy_target {delta : Int} (hp : scanner.place.Permits (.moveBy delta)) :
    Word.saturate (scanner.frontier + delta).toNat = (scanner.frontier + delta).toNat ∧
      scanner.start ≤ (scanner.frontier + delta).toNat := by
  have hlow : (scanner.place.shifted : Int) ≤ scanner.place.frontier + delta := hp.1
  have hhigh : scanner.place.frontier + delta < (Word.bound : Int) := hp.2
  simp only [place, shiftedTotal, frontierOffset] at hlow hhigh
  exact ⟨Word.saturate_of_lt (by omega), by omega⟩

/-- A permitted move by a distance is made as asked for. -/
theorem moveBy_eq (mode : Mode) {delta : Int} (hp : scanner.place.Permits (.moveBy delta)) :
    scanner.moveBy mode delta =
      .pure () { scanner with frontier := (scanner.frontier + delta).toNat } := by
  obtain ⟨hsat, hle⟩ := moveBy_target hp
  rw [moveBy, hsat, if_neg (Mode.not_rejects hle), Nat.max_eq_left hle]

/-- A permitted move to a distance from the token start is made as asked for. -/
theorem moveTo_eq {n : Nat} (hp : scanner.place.Permits (.moveTo n)) :
    scanner.moveTo n = { scanner with frontier := scanner.start + n } := by
  have hlt : scanner.window.origin + scanner.start + n < Word.bound := hp
  rw [moveTo, Word.saturate_of_lt (by omega)]

/-- Freeing stays at the place. -/
theorem place_free (mode : Mode) (scanner : Scanner σ) (n : Nat) :
    (scanner.free mode n).scanner.place = scanner.place := by
  rw [Scanner.free, Scanner.consume]
  split
  · rfl
  · split <;> rfl

variable [Source σ]

/-- An operation changes the place as it should. -/
theorem Sound.place_apply (h : scanner.Sound delivered) (mode : Mode)
    (hlt : scanner.place.frontier < Word.bound) {op : Op} (hop : scanner.place.Permits op) :
    (scanner.apply mode op).scanner.place = scanner.place.after scanner.window.lent op := by
  cases op with
  | peek distance => exact (h.passes (passes_peek scanner distance)).steady.place_eq
  | peekRune distance => exact (h.passes (passes_peekRune scanner distance)).steady.place_eq
  | moveBy delta =>
    have hlow : (scanner.place.shifted : Int) ≤ scanner.place.frontier + delta := hop.1
    simp only [place, shiftedTotal, frontierOffset] at hlow
    rw [Scanner.apply, Outcome.scanner_map, moveBy_eq mode hop]
    refine Place.ext rfl ?_
    simp only [place, frontierOffset, Place.after, Outcome.scanner_pure]
    omega
  | moveTo n =>
    rw [Scanner.apply, Outcome.scanner_pure, moveTo_eq hop]
    exact Place.ext rfl (Nat.add_assoc ..).symm
  | bytes => rfl
  | shift => rfl
  | shiftToken =>
    have hword := offset_of_lt mode (Nat.lt_of_le_of_lt h.shifted_le hlt)
    rw [Scanner.apply, Outcome.scanner_map, Scanner.shiftToken, hword]
    rfl
  | skip => rfl
  | free n => exact place_free mode scanner n
  | lentBytes => rfl
  | shiftLent =>
    rw [Scanner.apply, Outcome.scanner_map, Scanner.shiftLent?, lentBytes?, Place.after]
    by_cases hl : scanner.window.lent = true
    · simp only [if_pos hl]
      rfl
    · simp only [if_neg hl]
      rfl

end

/-! ## Runs -/

variable [Source σ] [Source τ] {mode : Mode}

/-- The caller moves neither before the token start nor past the last word. -/
def MovesWithin (mode : Mode) (scanner : Scanner σ) (ops : List Op) : Prop :=
  scanner.Along mode (fun _ here op => here.place.Permits op) ops

instance {scanner : Scanner σ} {ops : List Op} : Decidable (scanner.MovesWithin mode ops) :=
  inferInstanceAs (Decidable (scanner.Along mode (fun _ here op => here.place.Permits op) ops))

/-- The distances at which an operation looks, one after the other. How many bytes
follow a lead byte depends on the byte. -/
def sights (mode : Mode) (scanner : Scanner σ) : Op → List Nat
  | .peek distance => [distance]
  | .peekRune distance =>
    match (scanner.peek mode distance).result with
    | .ok lead => distance :: followers lead distance
    | .error _ => [distance]
  | _ => []

/-- All positions that an operation looks at are words. -/
def InSight (mode : Mode) (scanner : Scanner σ) (op : Op) : Prop :=
  ∀ distance ∈ scanner.sights mode op, scanner.frontierOffset + distance < Word.bound

instance {scanner : Scanner σ} : DecidablePred (scanner.InSight mode) := fun op =>
  inferInstanceAs (Decidable (∀ distance ∈ scanner.sights mode op, _ < _))

/-- The caller looks at no position past the last word. -/
def LooksWithin (mode : Mode) (scanner : Scanner σ) (ops : List Op) : Prop :=
  scanner.Along mode (fun _ here op => here.InSight mode op) ops

instance {scanner : Scanner σ} {ops : List Op} : Decidable (scanner.LooksWithin mode ops) :=
  inferInstanceAs (Decidable (scanner.Along mode (fun _ here op => here.InSight mode op) ops))

/-- Along a run the frontier stays a word. -/
theorem Sound.frontier_after_lt {scanner : Scanner σ} {delivered : List UInt8}
    (h : scanner.Sound delivered) (hlt : scanner.place.frontier < Word.bound) {ops : List Op}
    (hmove : scanner.MovesWithin mode ops) :
    (scanner.after mode ops).1.place.frontier < Word.bound := by
  induction ops using List.reverseRecOn with
  | nil => exact hlt
  | append_singleton ops op ih =>
    have hi := ih hmove.init
    rw [after_concat, (h.run mode ops).place_apply mode hi hmove.last]
    exact Place.frontier_after_lt hi _ hmove.last

theorem lent_after {scanner : Scanner σ} {delivered : List UInt8} (h : scanner.Sound delivered)
    (ops : List Op) : (scanner.after mode ops).1.window.lent = scanner.window.lent := by
  induction ops using List.reverseRecOn with
  | nil => rfl
  | append_singleton ops op ih =>
    rw [after_concat, ← ih]
    rcases passes_or_quiet mode (scanner.after mode ops).1 op with hp | hq
    · exact ((h.run mode ops).passes hp).steady.lent
    · exact congrArg Window.lent hq.window

/-- The window never moves back. -/
theorem Sound.origin_le_after {scanner : Scanner σ} {delivered : List UInt8}
    (h : scanner.Sound delivered) (mode : Mode) (ops : List Op) :
    scanner.window.origin ≤ (scanner.after mode ops).1.window.origin := by
  induction ops using List.reverseRecOn with
  | nil => exact Nat.le_refl _
  | append_singleton ops op ih =>
    rw [after_concat]
    refine Nat.le_trans ih ?_
    rcases passes_or_quiet mode (scanner.after mode ops).1 op with hp | hq
    · exact ((h.run mode ops).passes hp).steady.origin_le
    · exact Nat.le_of_eq (congrArg Window.origin hq.window).symm

/-- Runs of the same operations from the same place end at the same place, if their
windows are of the same kind or it does not matter. -/
theorem place_run_of_lent {s : Scanner σ} {t : Scanner τ} {early late : List UInt8}
    (hs : s.Sound early) (ht : t.Sound late) (hplace : s.place = t.place)
    (hlt : t.place.frontier < Word.bound) {ops : List Op}
    (hlent : s.window.lent = t.window.lent ∨ ∀ op ∈ ops, op ≠ .shiftLent)
    (hmove : t.MovesWithin mode ops) : (s.after mode ops).1.place = (t.after mode ops).1.place := by
  induction ops using List.reverseRecOn with
  | nil => exact hplace
  | append_singleton ops op ih =>
    have hi := ih (hlent.imp_right fun h op ho => h op (by simp [ho])) hmove.init
    have hword := ht.frontier_after_lt hlt hmove.init
    have hp := hmove.last
    have hafter : (t.after mode ops).1.place.after (s.after mode ops).1.window.lent op =
        (t.after mode ops).1.place.after (t.after mode ops).1.window.lent op := by
      rw [lent_after hs, lent_after ht]
      rcases hlent with heq | hops
      · rw [heq]
      · cases op with
        | shiftLent => exact absurd rfl (hops .shiftLent (by simp))
        | _ => rfl
    rw [after_concat, after_concat, (ht.run mode ops).place_apply mode hword hp]
    rw [← hi] at hword hp
    rw [(hs.run mode ops).place_apply mode hword hp, hi]
    exact hafter

theorem place_run {s : Scanner σ} {t : Scanner τ} {early late : List UInt8} (hs : s.Sound early)
    (ht : t.Sound late) (hplace : s.place = t.place) (hlt : t.place.frontier < Word.bound)
    {ops : List Op} (hops : ∀ op ∈ ops, op ≠ .shiftLent) (hmove : t.MovesWithin mode ops) :
    (s.after mode ops).1.place = (t.after mode ops).1.place :=
  place_run_of_lent hs ht hplace hlt (.inr hops) hmove

end Scanner
end Lookahead

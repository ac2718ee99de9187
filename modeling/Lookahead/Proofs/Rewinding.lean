import Lookahead.Proofs.Scanner.History
import Lookahead.Source.Scripted

/-!
# Moving back

A move by a distance may not take the frontier before the token start. The test is made on
indices of the window, after the sum has been stopped at zero. So it notices every such move
of a token that begins behind the front of the window, and none of a token that begins with
it: there the frontier stops at the token start, also in a checked scanner. A token begins
with the window in a scanner just made, and whenever the window has moved on for it.

Every other move is made as asked for, and none depends on where the token begins.

## Main definitions

* `Scanner.GuardsToken`: what becomes of a move by a distance in a checked scanner.

## Main statements

* `Scanner.Sound.moveBy_of_nonneg` and `Scanner.Sound.moveBy_of_neg`: a move that stays behind
  the token start, and one that does not.
* `Scanner.rewinding_guarded_behind_front`: which moves back are noticed in every state of a
  run, and where the others stop.
-/
namespace Lookahead.Scanner

variable {σ : Type} {scanner : Scanner σ} {delivered : List UInt8} {delta : Int}

/-- A move that stays behind the token start is made as asked for, if the sum is a word. -/
theorem Sound.moveBy_of_nonneg (h : scanner.Sound delivered) (mode : Mode)
    (hpos : 0 ≤ scanner.pos + delta) (hword : scanner.frontier + delta < Word.bound) :
    scanner.moveBy mode delta =
      .pure () { scanner with frontier := (scanner.frontier + delta).toNat } := by
  have hstart := h.start_le
  rw [pos] at hpos
  have hsat := Word.saturate_of_lt (show (scanner.frontier + delta).toNat < Word.bound by omega)
  have hle : scanner.start ≤ (scanner.frontier + delta).toNat := by omega
  rw [Scanner.moveBy, hsat, if_neg (Mode.not_rejects hle), Nat.max_eq_left hle]

/-- A move before the token start is stopped by a checked scanner, unless the token begins
with the window. If it is not stopped, it ends at the token start. -/
theorem Sound.moveBy_of_neg (h : scanner.Sound delivered) (mode : Mode)
    (hneg : scanner.pos + delta < 0) :
    scanner.moveBy mode delta =
      if mode.Rejects (scanner.start = 0) then .stop .beforeToken scanner
      else .pure () { scanner with frontier := scanner.start } := by
  have hstart := h.start_le
  have hlt := h.start_lt
  rw [pos] at hneg
  have hsat := Word.saturate_of_lt (show (scanner.frontier + delta).toNat < Word.bound by omega)
  have hbehind : scanner.start ≤ (scanner.frontier + delta).toNat ↔ scanner.start = 0 := by omega
  have hmax : max (scanner.frontier + delta).toNat scanner.start = scanner.start := by omega
  simp only [Scanner.moveBy, hsat, hbehind, hmax]

/-- What becomes of a move by a distance in a checked scanner. Where the frontier goes is
told by the distance from the token start, as long as no index exceeds a word; whether a
move before the token start is stopped is told by the place of the token in the window. -/
structure GuardsToken (scanner : Scanner σ) : Prop where
  moved : ∀ delta : Int, 0 ≤ scanner.pos + delta → scanner.frontier + delta < Word.bound →
    let moved : Scanner σ := { scanner with frontier := (scanner.frontier + delta).toNat }
    scanner.moveBy .checked delta = .pure () moved ∧ (moved.pos : Int) = scanner.pos + delta
  stopped : ∀ delta : Int, scanner.pos + delta < 0 → 0 < scanner.start →
    scanner.moveBy .checked delta = .stop .beforeToken scanner
  /-- A token that begins with the window is not guarded. -/
  clipped : ∀ delta : Int, scanner.pos + delta < 0 → scanner.start = 0 →
    scanner.moveBy .checked delta = .pure () { scanner with frontier := 0 }

theorem Sound.guardsToken (h : scanner.Sound delivered) : scanner.GuardsToken where
  moved := by
    intro delta hpos hword moved
    refine ⟨h.moveBy_of_nonneg .checked hpos hword, ?_⟩
    have hstart := h.start_le
    simp only [moved, pos] at hpos ⊢
    omega
  stopped := by
    intro delta hneg hpos
    rw [h.moveBy_of_neg .checked hneg, if_pos]
    exact Mode.checked_rejects_iff.2 (Nat.ne_of_gt hpos)
  clipped := by
    intro delta hneg hfront
    rw [h.moveBy_of_neg .checked hneg, if_neg (Mode.not_rejects hfront), hfront]

/-! ## Runs -/

variable [Source σ]

/-- **Moves before the token start are caught behind the front of the window**, and only
there. In every state of a checked scanner, over a source or in memory, a move by a distance
that leads before the token start is stopped and changes nothing, unless the token begins with
the window: then the frontier goes to the token start. Any other move changes the position in
the token by the distance. -/
theorem rewinding_guarded_behind_front {config : Config} (source : σ) (hvalid : config.Valid)
    (hinitial : config.initialCapacity ≤ Word.maxAllocation) :
    (∃ built, ofSource .checked config source = .ok built ∧
      ∀ ops, (built.scanner.after .checked ops).1.GuardsToken) ∧
      ∀ data ops, ((ofBytes data).after .checked ops).1.GuardsToken := by
  constructor
  · have hbuilt : ofSource .checked config source =
        .ok ((unread config source).peek .checked 0) :=
      ofSource_eq_ok_iff.2 ⟨hvalid, hinitial, rfl⟩
    exact ⟨_, hbuilt, fun ops => ((sound_ofSource hbuilt).run .checked ops).guardsToken⟩
  · exact fun data ops => ((sound_ofBytes data).run .checked ops).guardsToken

/-- The third byte of a stream is the next token. The move before it is stopped as long as
the window holds the bytes that were skipped, and no longer when a look ahead has moved the
window on to the token. -/
theorem rewinding_guarded_behind_front_relocated :
    let source : Source.Scripted := { data := [1, 2, 3, 4, 5, 6, 7, 8] }
    let built := (unread { initialCapacity := 2 } source).peek .checked 0
    let here := (built.scanner.after .checked [.moveTo 2, .skip]).1
    let there := (built.scanner.after .checked [.moveTo 2, .skip, .peek 0]).1
    here.shiftedTotal = there.shiftedTotal ∧ here.pos = there.pos ∧
      here.moveBy .checked (-1) = .stop .beforeToken here ∧
      there.moveBy .checked (-1) = .pure () { there with frontier := 0 } ∧
      (there.moveBy .checked 2).result = .ok () := by
  intro source built here there
  have hvalid : ({ initialCapacity := 2 } : Config).Valid := ⟨by decide, nofun⟩
  obtain ⟨⟨made, hmade, hguards⟩, -⟩ :=
    rewinding_guarded_behind_front source hvalid (by decide)
  obtain rfl : made = built := Except.ok.inj
    (hmade.symm.trans (ofSource_eq_ok_iff.2 ⟨hvalid, by decide, rfl⟩))
  have hstopped := (hguards [.moveTo 2, .skip]).stopped (-1) (by decide +kernel) (by decide +kernel)
  have hclipped := (hguards [.moveTo 2, .skip, .peek 0]).clipped (-1) (by decide +kernel)
    (by decide +kernel)
  have hmoved := (hguards [.moveTo 2, .skip, .peek 0]).moved 2 (by decide +kernel)
    (by decide +kernel)
  exact ⟨by decide +kernel, by decide +kernel, hstopped, hclipped,
    congrArg Outcome.result hmoved.1⟩

/-- In a scanner just made, a move before the token start is not stopped. Once a byte has been
skipped, it is: the position in the token and the distance are the same. -/
theorem front_of_memory_not_guarded :
    let fresh := ofBytes [1, 2]
    let later := (fresh.after .checked [.moveTo 1, .skip]).1
    fresh.pos = 0 ∧ later.pos = 0 ∧ (fresh.moveBy .checked (-1)).result = .ok () ∧
      (later.moveBy .checked (-1)).result = .error .beforeToken := by
  decide +kernel

end Lookahead.Scanner

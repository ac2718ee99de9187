import Lookahead.Proofs.Scanner.Induction
import Lookahead.Source.Scripted

/-!
# Freeing more than was shifted

An unchecked scanner is never stopped when it is asked to free more than was shifted. The
excess is lost: what is freed ends at the token start. That holds as long as the sum of
the bytes to free and of those of the window that are freed already is a word. If it is
not, it wraps around, and what is freed goes back instead: all that was asked for is
freed, less a whole range of words.

Bytes of the window are freed only when none is parked. So either there is no such sum, and
the pool takes its share of the bytes first, or it is all that matters.

## Main definitions

* `Scanner.Overflows`: the sum is no word.
* `Scanner.LosesExcess`: what becomes of all that an unchecked scanner is asked to free.

## Main statements

* `Scanner.Sound.freedTotal_free_of_lt` and `Scanner.Sound.freedTotal_free_of_overflows`: how
  much is freed, without an overflow and with one.
* `Scanner.excess_lost_unless_overflows`: in every state of a run the excess is lost, or the sum
  wraps around.
-/
namespace Lookahead.Scanner

variable {σ : Type} {scanner : Scanner σ} {delivered : List UInt8} {n : Nat}

/-- Freeing `n` bytes computes a sum that is no word. -/
def Overflows (scanner : Scanner σ) (n : Nat) : Prop := Word.bound ≤ scanner.consumed + n

instance {scanner : Scanner σ} : DecidablePred scanner.Overflows := fun _ =>
  inferInstanceAs (Decidable (_ ≤ _))

/-- An unchecked scanner is not stopped: it frees of the window up to a place that is not
past the token start. -/
theorem free_unchecked (scanner : Scanner σ) {n consumed : Nat}
    (hadd : Mode.unchecked.add scanner.consumed (scanner.pool.free n).spill = .ok consumed) :
    scanner.free .unchecked n =
      ⟨.ok (), { scanner with
          pool := (scanner.pool.free n).pool
          consumed := min consumed scanner.start },
        (scanner.pool.free n).log⟩ := by
  simp [free, consume, hadd, Outcome.after, Outcome.pure]

/-- **Without an overflow the excess is lost**: all that was asked for is freed, as far as
it was shifted. -/
theorem Sound.freedTotal_free_of_lt (h : scanner.Sound delivered) (hp : scanner.window.Placed)
    (hsum : scanner.consumed + n < Word.bound) :
    (scanner.free .unchecked n).scanner.freedTotal =
      min (scanner.freedTotal + n) scanner.shiftedTotal := by
  have hspill := h.pool.spill_free n
  have houtstanding := h.pool.outstanding_free n
  have hparked := h.consumed_eq_zero_or hp
  have hbase := h.outstanding_le hp
  have hconsumed := h.consumed_le
  have hword : scanner.consumed + (scanner.pool.free n).spill < Word.bound := by omega
  rw [free_unchecked scanner (Mode.add_of_lt .unchecked hword)]
  simp only [freedTotal, shiftedTotal]
  omega

/-- **An overflow takes bytes back**: a whole range of words is missing in what is freed. -/
theorem Sound.freedTotal_free_of_overflows (h : scanner.Sound delivered)
    (hp : scanner.window.Placed) (hn : n < Word.bound) (hover : scanner.Overflows n) :
    (scanner.free .unchecked n).scanner.freedTotal + Word.bound = scanner.freedTotal + n := by
  have hspill := h.pool.spill_free n
  have houtstanding := h.pool.outstanding_free n
  have hconsumed := h.consumed_le
  have hstart := h.start_lt
  rw [Overflows] at hover
  -- the window is freed in part, so no byte is parked and the spill is all of `n`
  have hnone : scanner.pool.outstanding = 0 := (h.consumed_eq_zero_or hp).resolve_left (by omega)
  have hsum : Word.bound ≤ scanner.consumed + (scanner.pool.free n).spill := by omega
  rw [free_unchecked scanner (Mode.unchecked_add_of_le (by omega) (by omega) hsum)]
  simp only [freedTotal]
  generalize Word.bound = bound at *
  omega

/-- However many bytes an unchecked scanner is asked to free, it is not stopped and stays
where it is in the stream. What is freed grows by as many bytes, up to what was shifted;
if their sum with those of the window that are freed is no word, it shrinks. -/
structure LosesExcess (scanner : Scanner σ) : Prop where
  result : ∀ n, (scanner.free .unchecked n).result = .ok ()
  shifted : ∀ n, (scanner.free .unchecked n).scanner.shiftedTotal = scanner.shiftedTotal
  freed : ∀ n < Word.bound, ¬scanner.Overflows n →
    (scanner.free .unchecked n).scanner.freedTotal =
      min (scanner.freedTotal + n) scanner.shiftedTotal
  overflow : ∀ n < Word.bound, scanner.Overflows n →
    (scanner.free .unchecked n).scanner.freedTotal + Word.bound = scanner.freedTotal + n

theorem Sound.losesExcess (h : scanner.Sound delivered) (hp : scanner.window.Placed) :
    scanner.LosesExcess where
  result := fun _ => congrArg Outcome.result (free_unchecked scanner rfl)
  shifted := fun _ => congrArg (fun outcome => outcome.scanner.shiftedTotal)
    (free_unchecked scanner rfl)
  freed := fun _ _ hsum => h.freedTotal_free_of_lt hp (Nat.lt_of_not_le hsum)
  overflow := fun _ hn hover => h.freedTotal_free_of_overflows hp hn hover

/-! ## Runs -/

/-- A move of an unchecked scanner is not stopped behind the swap. -/
theorem placed_relocate (hp : scanner.window.Placed) (target : Nat) :
    (scanner.relocate .unchecked target).scanner.window.Placed := by
  rcases scanner.relocate_cases .unchecked target with
    ⟨limit, -, hr⟩ | ⟨size, -, ⟨buffer, -, hr⟩ | ⟨fault, left, hstopped, hr⟩⟩
  · rw [hr]
    exact hp
  · rw [hr]
    exact hp
  · rw [hr]
    rcases hstopped with ⟨herr, -⟩ | ⟨-, hadd⟩
    · exact hp.lose left (Pool.ne_sumOverflow_of_swap herr)
    · exact nomatch (Mode.add_eq_error hadd).1

variable [Source σ]

/-- The positions of an unchecked scanner always belong to what counts as buffered. -/
theorem Sound.placed_after (h : scanner.Sound delivered) (hp : scanner.window.Placed)
    (ops : List Op) : (scanner.after .unchecked ops).1.window.Placed := by
  refine h.run_induction (motive := fun here _ => here.window.Placed) hp ?_ ?_ ?_ ops
  · exact fun here _ target _ _ _ _ hplaced => placed_relocate hplaced target
  · intro here _ _ _ _ hplaced
    obtain ⟨source, status, bytes, room, hs, -⟩ := here.draw_cases
    rw [hs]
    exact hplaced
  · intro here _ op _ hop hplaced
    rw [(quiet_apply .unchecked here hop).window]
    exact hplaced

/-- **Freeing more than was shifted loses only the excess, unless a sum is no word.** In every
state of an unchecked scanner, over a source or in memory, what is freed grows by the bytes
asked for up to what was shifted. The exception is a number of bytes so large that it does not
fit into a word together with the bytes of the window that are freed. -/
theorem excess_lost_unless_overflows {config : Config} (source : σ) (hvalid : config.Valid)
    (hinitial : config.initialCapacity ≤ Word.maxAllocation) :
    (∃ built, ofSource .unchecked config source = .ok built ∧
      ∀ ops, (built.scanner.after .unchecked ops).1.LosesExcess) ∧
      ∀ data ops, ((ofBytes data).after .unchecked ops).1.LosesExcess := by
  constructor
  · have hbuilt : ofSource .unchecked config source =
        .ok ((unread config source).peek .unchecked 0) :=
      ofSource_eq_ok_iff.2 ⟨hvalid, hinitial, rfl⟩
    refine ⟨_, hbuilt, fun ops => ?_⟩
    have hsound := sound_ofSource hbuilt
    have hplaced := placed_ofSource hbuilt
    exact (hsound.run .unchecked ops).losesExcess (hsound.placed_after hplaced ops)
  · intro data ops
    have hsound := sound_ofBytes data
    have hplaced := (Window.kept_ofBytes data).placed
    exact (hsound.run .unchecked ops).losesExcess (hsound.placed_after hplaced ops)

/-- Two bytes are parked and a third is shifted. Asked to free as many bytes as a word can
count, the scanner frees these three. Asked once more, it has freed only two. -/
theorem excess_lost_unless_overflows_twice :
    let source : Source.Scripted := { data := [1, 2, 3, 4, 5, 6, 7, 8] }
    let built := (unread { initialCapacity := 2 } source).peek .unchecked 0
    let early := [.moveTo 2, .skip, .peek 0, .moveTo 1, .skip]
    let most := Word.bound - 1
    let here := (built.scanner.after .unchecked early).1
    let there := (built.scanner.after .unchecked (early ++ [.free most])).1
    here.pool.outstanding = 2 ∧ here.freedTotal = 0 ∧ here.shiftedTotal = 3 ∧
      there.freedTotal = min (here.freedTotal + most) here.shiftedTotal ∧
      (there.free .unchecked most).scanner.freedTotal + Word.bound = there.freedTotal + most := by
  intro source built early most here there
  have hvalid : ({ initialCapacity := 2 } : Config).Valid := ⟨by decide, nofun⟩
  obtain ⟨⟨made, hmade, hloses⟩, -⟩ := excess_lost_unless_overflows source hvalid (by decide)
  obtain rfl : made = built := Except.ok.inj
    (hmade.symm.trans (ofSource_eq_ok_iff.2 ⟨hvalid, by decide, rfl⟩))
  have hfreed := (hloses early).freed most (by decide) (by decide +kernel)
  have hback := (hloses (early ++ [.free most])).overflow most (by decide) (by decide +kernel)
  exact ⟨by decide +kernel, by decide +kernel, by decide +kernel, hfreed, hback⟩

/-- Of two bytes in memory one is shifted and freed. Freeing as many bytes as a word can
count leaves it not freed again. -/
theorem freed_taken_back :
    let here := ((ofBytes [1, 2]).after .unchecked [.moveTo 1, .skip, .free 1]).1
    let freed := here.free .unchecked (Word.bound - 1)
    here.freedTotal = 1 ∧ here.shiftedTotal = 1 ∧ freed.scanner.freedTotal = 0 ∧
      freed.scanner.freedTotal ≠
        min (here.freedTotal + (Word.bound - 1)) here.shiftedTotal := by
  decide +kernel

end Lookahead.Scanner

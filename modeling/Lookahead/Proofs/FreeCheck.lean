import Lookahead.Proofs.Pool.Stock
import Lookahead.Proofs.Retention

/-!
# The test of freeing is exact

How much is freed is written down nowhere. It is spread over the offset of the tail, the
lengths of the parked blocks and the first byte of the window that is not freed, and moves
of the window shift bytes from one to the other. The test of a checked scanner compares only
what is left of the window. Yet it stops a caller just if all that was to be freed so far is
more than was shifted, wherever the bytes are by then.

A test that passes frees exactly what was asked for and changes nothing else: the bytes that
are not freed are those there were, less the ones freed, and every buffer is as it was.

## Main definitions

* `Scanner.unfreed`: the bytes in memory that are not freed.
* `Scanner.FreesPass`: no operation that frees is stopped.
* `Scanner.TestsExactly`: what the test of freeing lets pass.

## Main statements

* `Scanner.Sound.result_free_of_lt`: how freeing more than was shifted is stopped.
* `Scanner.Sound.freedTotal_of_freesPass`: what is freed where none is stopped.
* `Scanner.free_test_exact`: which frees of a run are stopped, and what the others free.
-/
namespace Lookahead.Scanner

variable {σ : Type} {scanner : Scanner σ} {delivered : List UInt8} {n : Nat}

/-- The bytes in memory that are not freed, oldest first. -/
def unfreed (scanner : Scanner σ) : List UInt8 :=
  scanner.pool.parked ++
    if scanner.window.Kept then scanner.window.bytes.drop scanner.consumed else []

/-! ## One free -/

/-- Going past the token start is a fault, and so is a sum that is no word. -/
theorem result_consume_of_lt (scanner : Scanner σ) (h : scanner.start < scanner.consumed + n) :
    (scanner.consume .checked n).result = .error .sumOverflow ∨
      (scanner.consume .checked n).result =
        .error (.pastShifted (scanner.consumed + n - scanner.start)) := by
  by_cases hword : scanner.consumed + n < Word.bound
  · right
    have hpast : ¬scanner.consumed + n ≤ scanner.start := Nat.not_le.2 h
    simp [consume, Mode.add_of_lt .checked hword, hpast, Outcome.stop]
  · left
    simp [consume, Mode.add, hword, Outcome.stop]

/-- **Freeing more than was shifted is stopped**, with the excess unless a sum is no word. -/
theorem Sound.result_free_of_lt (h : scanner.Sound delivered) (hp : scanner.window.Placed)
    (hn : scanner.shiftedTotal < scanner.freedTotal + n) :
    (scanner.free .checked n).result = .error .sumOverflow ∨
      (scanner.free .checked n).result =
        .error (.pastShifted (scanner.freedTotal + n - scanner.shiftedTotal)) := by
  have hspill := h.pool.spill_free n
  have hparked := h.consumed_eq_zero_or hp
  have hbase := h.outstanding_le hp
  rw [shiftedTotal, freedTotal] at hn ⊢
  -- either no byte of the window is freed or none is parked, so no subtraction is cut short
  have hpast : scanner.start < scanner.consumed + (scanner.pool.free n).spill := by omega
  have hexcess : scanner.consumed + (scanner.pool.free n).spill - scanner.start =
      scanner.window.origin + scanner.consumed - scanner.pool.outstanding + n -
        (scanner.window.origin + scanner.start) := by omega
  rw [← hexcess]
  exact result_consume_of_lt { scanner with pool := (scanner.pool.free n).pool } hpast

/-- A free is stopped just if it goes past what was shifted. -/
theorem Sound.free_stopped_iff (h : scanner.Sound delivered) (hp : scanner.window.Placed)
    (n : Nat) :
    (∃ fault, (scanner.free .checked n).result = .error fault) ↔
      scanner.shiftedTotal < scanner.freedTotal + n := by
  constructor
  · rintro ⟨fault, hfault⟩
    by_contra hle
    rw [(h.free_of_le .checked (Nat.le_of_not_lt hle)).1] at hfault
    cases hfault
  · intro hlt
    rcases h.result_free_of_lt hp hlt with hr | hr
    · exact ⟨_, hr⟩
    · exact ⟨_, hr⟩

theorem Sound.le_of_free_ok (h : scanner.Sound delivered) (hp : scanner.window.Placed)
    (hok : (scanner.free .checked n).result = .ok ()) :
    scanner.freedTotal + n ≤ scanner.shiftedTotal := by
  by_contra hlt
  obtain ⟨fault, hfault⟩ := (h.free_stopped_iff hp n).2 (Nat.lt_of_not_le hlt)
  rw [hok] at hfault
  cases hfault

/-- What is freed leaves the front of the bytes that are not. -/
theorem Sound.unfreed_free (h : scanner.Sound delivered) (mode : Mode)
    (hn : scanner.freedTotal + n ≤ scanner.shiftedTotal) :
    (scanner.free mode n).scanner.unfreed = scanner.unfreed.drop n := by
  have hfrees := h.pool.frees n
  rw [h.free_eq mode hn]
  simp only [unfreed, hfrees.parked_eq, hfrees.spill_eq, List.drop_append]
  split
  · rw [List.drop_drop]
  · rw [List.drop_nil]

/-! ## The test -/

/-- A checked scanner of which the given number of bytes is freed stops a caller just if that
and the bytes to free are more than was shifted. If it does not, these are freed and nothing
else changes. -/
structure TestsExactly (scanner : Scanner σ) (freed : Nat) : Prop where
  freedTotal_eq : scanner.freedTotal = freed
  stopped_iff : ∀ n, (∃ fault, (scanner.free .checked n).result = .error fault) ↔
    scanner.shiftedTotal < freed + n
  freed_add : ∀ n, (scanner.free .checked n).result = .ok () →
    (scanner.free .checked n).scanner.freedTotal = freed + n
  kept : ∀ n, (scanner.free .checked n).result = .ok () → ∃ pool consumed,
    (scanner.free .checked n).scanner = { scanner with pool, consumed } ∧
      pool.allocations = scanner.pool.allocations ∧
      pool.blocks.map (·.buffer) = scanner.pool.blocks.map (·.buffer)
  unfreed_drop : ∀ n, (scanner.free .checked n).result = .ok () →
    (scanner.free .checked n).scanner.unfreed = scanner.unfreed.drop n

theorem Sound.testsExactly (h : scanner.Sound delivered) (hp : scanner.window.Placed) :
    scanner.TestsExactly scanner.freedTotal where
  freedTotal_eq := rfl
  stopped_iff := h.free_stopped_iff hp
  freed_add := fun n hok => (h.free_of_le .checked (h.le_of_free_ok hp hok)).2 hp
  kept := by
    intro n hok
    rw [h.free_eq .checked (h.le_of_free_ok hp hok)]
    refine ⟨_, _, rfl, scanner.pool.allocations_freeAlong n _, ?_⟩
    exact Pool.map_blocks_freeAlong _ (fun _ => rfl) scanner.pool n _
  unfreed_drop := fun n hok => h.unfreed_free .checked (h.le_of_free_ok hp hok)

/-! ## Runs -/

variable [Source σ] {ops : List Op}

/-- An operation that frees is not stopped. -/
def MayPass (here : Scanner σ) (op : Op) : Prop :=
  ∀ n, op = .free n → (here.free .checked n).result = .ok ()

instance (here : Scanner σ) (op : Op) : Decidable (MayPass here op) :=
  decidable_of_iff (op = .free op.freed → (here.free .checked op.freed).result = .ok ())
    ⟨by rintro h n rfl; exact h rfl, fun h => h op.freed⟩

/-- No operation of a run that frees is stopped. -/
def FreesPass (scanner : Scanner σ) (ops : List Op) : Prop :=
  scanner.Along .checked (fun _ here op => MayPass here op) ops

instance : Decidable (scanner.FreesPass ops) :=
  inferInstanceAs (Decidable (scanner.Along .checked (fun _ here op => MayPass here op) ops))

/-- Along a run in which no free is stopped, what is freed adds up. -/
theorem Sound.freedTotal_of_freesPass (h : scanner.Sound delivered)
    (hz : scanner.freedTotal = 0) (hpass : scanner.FreesPass ops)
    (hp : (scanner.after .checked ops).1.window.Placed) :
    (scanner.after .checked ops).1.freedTotal = freedBy ops := by
  induction ops using List.reverseRecOn with
  | nil => exact hz
  | append_singleton ops op ih =>
    rw [after_concat] at hp ⊢
    have hlast : MayPass (scanner.after .checked ops).1 op := hpass.last
    have hsound := h.run .checked ops
    have hbefore := (inherits_apply .checked _ op).placed hp
    rw [hsound.freedTotal_apply .checked op hp fun n hop =>
      hsound.le_of_free_ok hbefore (hlast n hop), ih hpass.init hbefore, freedBy_concat]

theorem Sound.testsExactly_after (h : scanner.Sound delivered) (hz : scanner.freedTotal = 0)
    (hpass : scanner.FreesPass ops)
    (hword : (scanner.after .checked ops).1.shiftedTotal < Word.bound) :
    (scanner.after .checked ops).1.TestsExactly (freedBy ops) := by
  have hsound := h.run .checked ops
  have hp := hsound.placed_of_lt hword
  rw [← h.freedTotal_of_freesPass hz hpass hp]
  exact hsound.testsExactly hp

/-- **The test of freeing is exact.** In every state that a checked scanner comes to without
having been stopped when freeing, over a source or in memory, and as long as a word can count
what was shifted, freeing is stopped just if what was to be freed so far and now is more than
was shifted. Else the bytes are freed, and
neither the window nor the positions nor the source change, nor any byte that is not freed. -/
theorem free_test_exact {config : Config} (source : σ) (hvalid : config.Valid)
    (hinitial : config.initialCapacity ≤ Word.maxAllocation) :
    (∃ built, ofSource .checked config source = .ok built ∧
      ∀ ops, built.scanner.FreesPass ops →
        (built.scanner.after .checked ops).1.shiftedTotal < Word.bound →
          (built.scanner.after .checked ops).1.TestsExactly (freedBy ops)) ∧
      ∀ data ops, (ofBytes data).FreesPass ops →
        ((ofBytes data).after .checked ops).1.TestsExactly (freedBy ops) := by
  constructor
  · have hbuilt := ofSource_of_valid .checked source hvalid hinitial
    refine ⟨_, hbuilt, fun ops hpass hword => ?_⟩
    exact (sound_ofSource hbuilt).testsExactly_after (freedTotal_ofSource hbuilt) hpass hword
  · exact fun data ops hpass =>
      (sound_ofBytes data).testsExactly_after rfl hpass (shiftedTotal_ofBytes_lt data ops)

/-- Two bytes are parked, of which one is freed, and the third one is shifted but not read
again. The two that are left may be freed, and not one more. -/
theorem free_test_exact_parked :
    let source : Source.Scripted := { data := [1, 2, 3, 4, 5, 6, 7, 8] }
    let built := (unread { initialCapacity := 2 } source).peek .checked 0
    let ops := [.moveTo 2, .skip, .peek 0, .free 1, .moveTo 1, .skip]
    let here := (built.scanner.after .checked ops).1
    built.scanner.FreesPass ops ∧ here.pool.outstanding = 1 ∧ here.shiftedTotal = 3 ∧
      (here.free .checked 2).scanner.freedTotal = 1 + 2 ∧
      (here.free .checked 2).scanner.unfreed = here.unfreed.drop 2 ∧
      ∃ fault, (here.free .checked 3).result = .error fault := by
  intro source built ops here
  have hvalid : ({ initialCapacity := 2 } : Config).Valid := ⟨by decide, nofun⟩
  obtain ⟨⟨made, hmade, hexact⟩, -⟩ := free_test_exact source hvalid (by decide)
  obtain rfl : made = built :=
    Except.ok.inj (hmade.symm.trans (ofSource_of_valid .checked source hvalid (by decide)))
  have hpass : built.scanner.FreesPass ops := by decide +kernel
  have htests := hexact ops hpass (by decide +kernel)
  have hok : (here.free .checked 2).result = .ok () := by decide +kernel
  exact ⟨hpass, by decide +kernel, by decide +kernel, htests.freed_add 2 hok,
    htests.unfreed_drop 2 hok, (htests.stopped_iff 3).2 (by decide +kernel)⟩

end Lookahead.Scanner

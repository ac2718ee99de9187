import Lookahead.Proofs.Scanner.Affordable
import Mathlib.Data.List.GetD

/-!
# What a look ahead sees

The window holds what was delivered from its base on, so an index into it and a
position of the stream show the same byte. A look ahead answers with the byte
delivered at the position, and where there is none it has met the end of the source.

## Main statements

* `Scanner.peek_of_lt_filled` and `Scanner.peek_of_not_active`: a look that makes no pass.
* `Scanner.Sound.peek_of_lt`: a byte that was delivered is read without a request.
* `Scanner.Sound.result_peek_of_lt`: what any look ahead answers.
* `Scanner.peekRune_of_peek`: a look for a character, from what single looks answer.
-/
namespace Lookahead.Scanner

variable {σ : Type} {scanner : Scanner σ} {delivered : List UInt8} {mode : Mode} {distance : Nat}

/-- The byte at an index of the window is the one delivered at its position. -/
theorem Sound.byteAt_eq (h : scanner.Sound delivered) (hp : scanner.window.Placed) (index : Nat) :
    scanner.window.byteAt index = delivered.getD (scanner.window.origin + index) 0 := by
  rw [Window.byteAt, h.bytes_eq hp, List.getD_eq_getElem?_getD, List.getElem?_drop,
    ← List.getD_eq_getElem?_getD]

/-- A byte whose index is behind those buffered is at a position behind them. -/
theorem stop_le_of_far (hfar : scanner.window.filled ≤ scanner.frontier + distance) :
    scanner.window.stop ≤ scanner.frontierOffset + distance := by
  rw [Window.stop, frontierOffset]
  omega

theorem byteAt_of_far {index : Nat} (hfar : scanner.window.filled ≤ index) :
    scanner.window.byteAt index = 0 := by
  rw [Window.byteAt]
  exact List.getD_eq_default _ _ hfar

/-- A buffer that holds the end of the selection shows all of it. -/
theorem view_of_le (h : min scanner.frontier scanner.window.filled ≤ scanner.window.size) :
    scanner.view = .ok scanner.bytes := by
  rw [view]
  exact if_neg (Nat.not_lt.2 h)

/-- The selection that is read is the selection. -/
theorem eq_bytes_of_view {bytes : List UInt8} (h : scanner.view = .ok bytes) :
    bytes = scanner.bytes := by
  rw [view] at h
  split at h
  · exact nomatch h
  · exact (Except.ok.inj h).symm

theorem view_of_kept (hk : scanner.window.Kept) : scanner.view = .ok scanner.bytes :=
  view_of_le (Nat.le_trans (Nat.min_le_right ..) hk.filled_le)

/-- A buffer shows what is at an index that it holds. -/
theorem look_of_lt_size {index : Nat} (h : index < scanner.window.size) :
    scanner.look index = .pure (scanner.window.byteAt index) scanner := by
  rw [look, if_neg (by omega)]

/-- Where no byte is buffered, none is read, with a buffer or without. -/
theorem look_of_far {index : Nat} (hfar : scanner.window.filled ≤ index) :
    scanner.look index = .pure 0 scanner := by
  rw [look, if_neg fun h => Nat.not_lt.2 hfar h.2, byteAt_of_far hfar]

variable [Source σ]

/-- A byte that counts as buffered is taken from the buffer. -/
theorem peek_eq_look (mode : Mode) (hword : scanner.frontier + distance < Word.bound)
    (hlt : scanner.frontier + distance < scanner.window.filled) :
    scanner.peek mode distance = scanner.look (scanner.frontier + distance) := by
  have hstop : scanner.frontierOffset + distance < scanner.window.stop := by
    rw [Window.stop, frontierOffset]
    omega
  rw [peek, if_pos hword, fill_of_lt_stop mode scanner hstop, Outcome.pure_bind]

/-- Looking at a byte that is buffered, in a buffer that holds it, changes nothing. -/
theorem peek_of_lt_filled (mode : Mode) (hword : scanner.frontier + distance < Word.bound)
    (hlt : scanner.frontier + distance < scanner.window.filled)
    (hsize : scanner.frontier + distance < scanner.window.size) :
    scanner.peek mode distance =
      .pure (scanner.window.byteAt (scanner.frontier + distance)) scanner :=
  (peek_eq_look mode hword hlt).trans (look_of_lt_size hsize)

/-- Once the source has ended, a byte that is not buffered reads as zero. -/
theorem peek_of_not_active (mode : Mode) (hi : scanner.status.isActive = false)
    (hfar : scanner.window.filled ≤ scanner.frontier + distance) :
    scanner.peek mode distance = .pure 0 scanner := by
  rw [peek]
  split
  · rw [fill_of_not_active mode scanner _ hi, Outcome.pure_bind, look_of_far hfar]
  · rfl

/-- Looking at a byte that was delivered changes nothing. -/
theorem Sound.peek_of_lt (h : scanner.Sound delivered) (hk : scanner.window.Kept)
    (hb : scanner.frontier + distance < Word.bound)
    (hlt : scanner.frontierOffset + distance < delivered.length) :
    scanner.peek mode distance =
      .pure (delivered.getD (scanner.frontierOffset + distance) 0) scanner := by
  rw [← h.stop_eq hk.placed] at hlt
  rw [peek, if_pos hb, fill_of_lt_stop mode scanner hlt, Outcome.pure_bind, look_of_kept hk,
    h.byteAt_eq hk.placed, frontierOffset, Nat.add_assoc]

/-- A look ahead leaves the position it looks at where it is in the stream. -/
theorem Sound.frontier_fill (h : scanner.Sound delivered) (distance target : Nat) :
    (scanner.fill mode target).scanner.window.origin +
        ((scanner.fill mode target).scanner.frontier + distance) =
      scanner.frontierOffset + distance := by
  rw [← Nat.add_assoc]
  exact congrArg (· + distance) (h.passes (passes_fill scanner target)).steady.frontier

/-- A look ahead answers with the byte delivered at the position. Where none is, it
reads as zero and the source has ended. -/
theorem Sound.result_peek_of_lt (h : scanner.Sound delivered)
    (hb : scanner.frontier + distance < Word.bound)
    (hk : (scanner.peek mode distance).scanner.window.Kept) :
    let read := delivered ++ deliveredBytes (scanner.peek mode distance).log
    (scanner.peek mode distance).result =
        .ok (read.getD (scanner.frontierOffset + distance) 0) ∧
      (read.length ≤ scanner.frontierOffset + distance →
        (scanner.peek mode distance).scanner.status.isActive = false) := by
  rw [scanner_peek hb] at hk ⊢
  have hp : Passes mode scanner (scanner.fill mode (scanner.frontierOffset + distance)) :=
    passes_fill scanner _
  have hok := hp.result_of_kept hk
  have hsound := (h.passes hp).sound
  rw [log_peek hb, peek, if_pos hb, Outcome.bind_of_ok hok, look_of_kept hk]
  refine ⟨?_, fun hle => ?_⟩
  · rw [Outcome.result_after, Outcome.result_pure, hsound.byteAt_eq hk.placed, h.frontier_fill]
  · rw [← hsound.stop_eq hk.placed] at hle
    exact (fill_reaches hok).resolve_right (Nat.not_lt.2 hle)

/-! ## Several bytes -/

/-- Looks in turn that keep the window keep it with the first of them. -/
theorem kept_of_peekEach {distances : List Nat}
    (hk : (scanner.peekEach mode (distance :: distances)).scanner.window.Kept) :
    (scanner.peek mode distance).scanner.window.Kept := by
  refine kept_of_bind mode (fun byte => ?_) hk
  rw [Outcome.forget_map]
  exact passes_peekEach ..

/-- So does a look for a character. -/
theorem kept_of_peekRune (hk : (scanner.peekRune mode distance).scanner.window.Kept) :
    (scanner.peek mode distance).scanner.window.Kept := by
  refine kept_of_bind mode (fun lead => ?_) hk
  rw [Outcome.forget_map]
  exact passes_peekEach ..

section
variable {kind : Scanner σ → Prop} {byte : Nat → UInt8}

/-- Looks at several bytes answer with all of them, if each look keeps to a kind of scanner
for which a look answers with its byte. -/
theorem peekEach_of_peek {distances : List Nat}
    (hpeek : ∀ here, kind here → ∀ distance ∈ distances,
      (here.peek mode distance).scanner.window.Kept →
        (here.peek mode distance).result = .ok (byte distance) ∧
          kind (here.peek mode distance).scanner)
    (h : kind scanner) (hk : (scanner.peekEach mode distances).scanner.window.Kept) :
    (scanner.peekEach mode distances).result = .ok (distances.map byte) ∧
      kind (scanner.peekEach mode distances).scanner := by
  induction distances generalizing scanner with
  | nil => exact ⟨rfl, h⟩
  | cons distance distances ih =>
    obtain ⟨hok, hkind⟩ := hpeek scanner h distance List.mem_cons_self (kept_of_peekEach hk)
    rw [peekEach] at hk ⊢
    rw [Outcome.bind_of_ok hok, Outcome.scanner_after, Outcome.scanner_map] at hk
    obtain ⟨hothers, hlast⟩ :=
      ih (fun here hkind d hd => hpeek here hkind d (List.mem_cons_of_mem _ hd)) hkind hk
    rw [Outcome.bind_of_ok hok, Outcome.result_after, Outcome.result_map, Outcome.scanner_after,
      Outcome.scanner_map, hothers]
    exact ⟨rfl, hlast⟩

/-- So does a look for a character, which looks at the bytes that the first one calls for. -/
theorem peekRune_of_peek
    (hpeek : ∀ here, kind here → ∀ d ∈ distance :: followers (byte distance) distance,
      (here.peek mode d).scanner.window.Kept →
        (here.peek mode d).result = .ok (byte d) ∧ kind (here.peek mode d).scanner)
    (h : kind scanner) (hk : (scanner.peekRune mode distance).scanner.window.Kept) :
    (scanner.peekRune mode distance).result =
        .ok (Rune.decode (byte distance) ((followers (byte distance) distance).map byte),
          Rune.width (byte distance)) ∧
      kind (scanner.peekRune mode distance).scanner := by
  obtain ⟨hok, hkind⟩ := hpeek scanner h distance List.mem_cons_self (kept_of_peekRune hk)
  rw [peekRune] at hk ⊢
  rw [Outcome.bind_of_ok hok, Outcome.scanner_after, Outcome.scanner_map] at hk
  obtain ⟨hothers, hlast⟩ := peekEach_of_peek
    (fun here hkind d hd => hpeek here hkind d (List.mem_cons_of_mem _ hd)) hkind hk
  rw [Outcome.bind_of_ok hok, Outcome.result_after, Outcome.result_map, Outcome.scanner_after,
    Outcome.scanner_map, hothers]
  exact ⟨rfl, hlast⟩

end

end Lookahead.Scanner

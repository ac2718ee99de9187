import Lookahead.Proofs.Pool.Threading
import Lookahead.Proofs.Scanner.History
import Lookahead.Source.Scripted
import Mathlib.Algebra.Order.Ring.Nat

/-!
# Freeing in parts

Freeing a number of bytes at once and freeing them in parts, one after the other, come to
the same: the same blocks leave the chain, the tail is freed up to the same byte, and as much
is left over for the window. Where a part ends does not matter, be it inside a block, at its
border or behind the last one.

A part that ends inside a block leaves a chain that begins with the block, and the next part
goes on from there. A part that goes past the block retires it, and then the two are freed of
the chain behind it: the proof follows the chain.

## Main definitions

* `Pool.FreesInParts` and `Scanner.FreesInParts`: what is freed in parts is freed at once.

## Main statements

* `Pool.Linked.freeAlong_add`: two parts, along the chain.
* `Scanner.Sound.free_add`: two parts of what was shifted.
* `Scanner.freeing_additive`: parts add up in every pool and in every state of a scanner.
-/
namespace Lookahead

namespace Pool

variable {pool : Pool}

/-- Freeing another part after a first one is freeing both at once. -/
def Release.thenFree (release : Release) (n : Nat) : Release :=
  let later := release.pool.free n
  { later with spill := release.spill + later.spill, log := release.log ++ later.log }

/-- Whatever is freed in two parts is freed at once, and to free nothing changes nothing. -/
structure FreesInParts (pool : Pool) : Prop where
  add : ∀ a b, pool.free (a + b) = (pool.free a).thenFree b
  zero : pool.free 0 = { spill := 0, pool }

/-- A drained chain leaves all of the second part over as well. -/
theorem Linked.free_nil (h : pool.Linked []) (n : Nat) :
    pool.free n = { spill := n, pool := { pool with head := none } } := by
  rw [free, h.chain_eq, freeAlong]

/-- A part that ends inside the tail is added to the next one. -/
theorem freeAlong_advance {index a : Nat} (ha : a < pool.lengthAt index - pool.offset) (b : Nat)
    (newer : List Nat) :
    { pool with offset := pool.offset + a : Pool }.freeAlong b (index :: newer) =
      pool.freeAlong (a + b) (index :: newer) := by
  have hleft : pool.lengthAt index - (pool.offset + a) =
      pool.lengthAt index - pool.offset - a := Nat.sub_sub .. |>.symm
  have hlength : { pool with offset := pool.offset + a : Pool }.lengthAt index =
      pool.lengthAt index := rfl
  rw [freeAlong, freeAlong, hlength]
  dsimp only
  rw [hleft]
  by_cases hb : a + b < pool.lengthAt index - pool.offset
  · rw [if_pos hb, if_pos (by omega), Nat.add_assoc]
  · have hrest : b - (pool.lengthAt index - pool.offset - a) =
        a + b - (pool.lengthAt index - pool.offset) := by omega
    rw [if_neg hb, if_neg (by omega), hrest]
    rfl

/-- **Along the chain two parts are freed as at once.** -/
theorem Linked.freeAlong_add {indices : List Nat} (h : pool.Linked indices) (a b : Nat) :
    pool.freeAlong (a + b) indices = (pool.freeAlong a indices).thenFree b := by
  induction indices generalizing pool a with
  | nil =>
    rw [freeAlong, freeAlong, Release.thenFree, h.reset.free_nil]
    rfl
  | cons index newer ih =>
    by_cases ha : a < pool.lengthAt index - pool.offset
    -- the first part ends inside the tail, so the second begins there
    · have hadvanced := h.advance ha
      have hfirst : pool.freeAlong a (index :: newer) =
          { spill := 0, pool := { pool with offset := pool.offset + a } } := by
        rw [freeAlong, if_pos ha]
      rw [hfirst, Release.thenFree, ← freeAlong_advance ha, free, hadvanced.chain_eq]
      simp
    -- it goes past the tail, and both go on along the blocks behind it
    · have hboth : ¬a + b < pool.lengthAt index - pool.offset := by omega
      have hrest : a + b - (pool.lengthAt index - pool.offset) =
          a - (pool.lengthAt index - pool.offset) + b := by omega
      rw [freeAlong, freeAlong, if_neg ha, if_neg hboth, hrest, ih h.retire]
      rfl

/-- Freeing nothing leaves the chain as it is: its tail has a byte that is not freed. -/
theorem Sound.free_zero (h : pool.Sound) : pool.free 0 = { spill := 0, pool } := by
  cases hc : pool.chain with
  | nil =>
    have hhead := h.head_nil hc
    rw [free, hc, freeAlong, ← hhead]
  | cons index newer =>
    have hlt : pool.offset < pool.lengthAt index := h.offset_lt index (by simp [hc])
    rw [free, hc, freeAlong, if_pos (Nat.sub_pos_of_lt hlt), Nat.add_zero]

theorem Sound.freesInParts (h : pool.Sound) : pool.FreesInParts where
  add := h.toLinked.freeAlong_add
  zero := h.free_zero

/-- Commands in a row keep a pool sound if they are tested or keep the contract. -/
theorem Kept.sound_after {mode : Mode} {commands : List Command}
    (hcontract : mode = .checked ∨ Kept.start.AdmitsAll mode commands) :
    (Kept.start.after mode commands).pool.Sound := by
  induction commands using List.reverseRecOn with
  | nil => exact sound_empty
  | append_singleton commands command ih =>
    rw [Kept.admitsAll_concat] at hcontract
    rw [Kept.after_concat]
    exact (ih (hcontract.imp_right And.left)).obey
      (hcontract.imp_right fun hadmits => hadmits.2.honours)

end Pool

namespace Scanner

variable {σ : Type} {scanner : Scanner σ} {delivered : List UInt8} {mode : Mode}

/-- What was shifted and not freed yet is enough for the parts behind the first as well. -/
theorem Sound.within_free (h : scanner.Sound delivered) {n rest : Nat}
    (hn : scanner.freedTotal + (n + rest) ≤ scanner.shiftedTotal) :
    (scanner.free mode n).scanner.freedTotal + rest ≤
      (scanner.free mode n).scanner.shiftedTotal := by
  have hfirst : scanner.freedTotal + n ≤ scanner.shiftedTotal := by omega
  have hout := h.pool.outstanding_free n
  have hspill := h.pool.spill_free n
  rw [h.free_eq mode hfirst]
  simp only [freedTotal, shiftedTotal] at hn ⊢
  omega

/-- **Two parts of what was shifted are freed as at once**, with the same events. -/
theorem Sound.free_add (h : scanner.Sound delivered) {a b : Nat}
    (hn : scanner.freedTotal + (a + b) ≤ scanner.shiftedTotal) :
    scanner.free mode (a + b) =
      ((scanner.free mode a).scanner.free mode b).after (scanner.free mode a).log := by
  have ha : scanner.freedTotal + a ≤ scanner.shiftedTotal := by omega
  have hsound : (scanner.free mode a).scanner.Sound delivered := h.free mode a
  rw [h.free_eq mode hn, hsound.free_eq mode (h.within_free hn), h.free_eq mode ha,
    h.pool.freesInParts.add a b]
  simp [Pool.Release.thenFree, Outcome.after, Nat.add_assoc]

/-- To free nothing changes nothing. -/
theorem Sound.free_zero (h : scanner.Sound delivered) : scanner.free mode 0 = .pure () scanner := by
  have hconsumed := h.consumed_le
  have hle : scanner.freedTotal + 0 ≤ scanner.shiftedTotal := by
    rw [freedTotal, shiftedTotal]
    omega
  rw [h.free_eq mode hle, h.pool.free_zero]
  rfl

variable [Source σ]

/-- Freeing several parts in a row, no more than was shifted all together, leads to what
freeing all of it at once leads to, and no part is stopped. -/
structure FreesInParts (mode : Mode) (scanner : Scanner σ) : Prop where
  after : ∀ parts : List Nat, scanner.freedTotal + parts.sum ≤ scanner.shiftedTotal →
    scanner.after mode (parts.map .free) =
      ((scanner.free mode parts.sum).scanner, (scanner.free mode parts.sum).log)
  result : ∀ parts : List Nat, scanner.freedTotal + parts.sum ≤ scanner.shiftedTotal →
    (scanner.free mode parts.sum).result = .ok () ∧
      ∀ outcome ∈ scanner.run mode (parts.map .free), outcome.result = .ok .done

theorem Sound.after_parts (h : scanner.Sound delivered) (parts : List Nat)
    (hn : scanner.freedTotal + parts.sum ≤ scanner.shiftedTotal) :
    scanner.after mode (parts.map .free) =
      ((scanner.free mode parts.sum).scanner, (scanner.free mode parts.sum).log) := by
  induction parts generalizing scanner with
  | nil =>
    rw [List.sum_nil, h.free_zero]
    rfl
  | cons n parts ih =>
    rw [List.sum_cons] at hn ⊢
    have hrest := ih (h.free mode n) (h.within_free hn)
    rw [h.free_add hn, List.map_cons, Scanner.after]
    simp [Scanner.apply, hrest]

theorem Sound.result_parts (h : scanner.Sound delivered) (parts : List Nat)
    (hn : scanner.freedTotal + parts.sum ≤ scanner.shiftedTotal) :
    ∀ outcome ∈ scanner.run mode (parts.map .free), outcome.result = .ok .done := by
  induction parts generalizing scanner with
  | nil => simp [Scanner.run]
  | cons n parts ih =>
    rw [List.sum_cons] at hn
    have hfirst : scanner.freedTotal + n ≤ scanner.shiftedTotal := by omega
    have hok : (scanner.apply mode (.free n)).result = .ok .done := by
      rw [Scanner.apply, Outcome.result_map, (h.free_of_le mode hfirst).1]
      rfl
    rw [List.map_cons, Scanner.run]
    exact List.forall_mem_cons.2 ⟨hok, ih (h.free mode n) (h.within_free hn)⟩

theorem Sound.freesInParts (h : scanner.Sound delivered) : scanner.FreesInParts mode where
  after := h.after_parts
  result := fun parts hn => ⟨(h.free_of_le mode hn).1, h.result_parts parts hn⟩

/-- **Freeing is additive.** Of every pool that commands lead to, two parts freed in a row
leave the same pool as both at once, and as much over. Every scanner, over a source or in
memory, is left the same by parts of the bytes shifted as by all of them. -/
theorem freeing_additive {config : Config} (source : σ) (mode : Mode)
    (hvalid : config.Valid) (hinitial : config.initialCapacity ≤ Word.maxAllocation) :
    (∀ commands, mode = .checked ∨ Pool.Kept.start.AdmitsAll mode commands →
      (Pool.Kept.start.after mode commands).pool.FreesInParts) ∧
    (∃ built, ofSource mode config source = .ok built ∧ ∀ ops,
      let here := (built.scanner.after mode ops).1
      here.pool.FreesInParts ∧ here.FreesInParts mode) ∧
    ∀ data ops,
      let here := ((ofBytes data).after mode ops).1
      here.pool.FreesInParts ∧ here.FreesInParts mode := by
  refine ⟨?_, ?_, ?_⟩
  · intro commands hcontract
    exact (Pool.Kept.sound_after hcontract).freesInParts
  · have hbuilt := ofSource_of_valid mode source hvalid hinitial
    refine ⟨_, hbuilt, fun ops => ?_⟩
    have hsound := (sound_ofSource hbuilt).run mode ops
    exact ⟨hsound.pool.freesInParts, hsound.freesInParts⟩
  · intro data ops
    have hsound := (sound_ofBytes data).run mode ops
    exact ⟨hsound.pool.freesInParts, hsound.freesInParts⟩

/-- Two blocks of two bytes are parked and a fifth byte is shifted. The first part ends inside
the first block, the second at its border, the third goes past the second block. -/
theorem freeing_additive_across_blocks :
    let source : Source.Scripted := { data := [1, 2, 3, 4, 5, 6, 7, 8] }
    let built := (unread { initialCapacity := 2 } source).peek .checked 0
    let early := [.moveTo 2, .skip, .peek 0, .moveTo 2, .skip, .peek 0, .moveTo 1, .skip]
    let here := (built.scanner.after .checked early).1
    here.pool.chain = [0, 1] ∧ here.freedTotal + [1, 1, 3].sum = here.shiftedTotal ∧
      (here.pool.free 1).pool.offset = 1 ∧ (here.pool.free 2).pool.chain = [1] ∧
      here.pool.free (2 + 3) = (here.pool.free 2).thenFree 3 ∧
      here.after .checked ([1, 1, 3].map .free) =
        ((here.free .checked 5).scanner, (here.free .checked 5).log) := by
  intro source built early here
  have hvalid : ({ initialCapacity := 2 } : Config).Valid := ⟨by decide, nofun⟩
  obtain ⟨-, ⟨made, hmade, hparts⟩, -⟩ := freeing_additive source .checked hvalid (by decide)
  obtain rfl : made = built :=
    Except.ok.inj (hmade.symm.trans (ofSource_of_valid .checked source hvalid (by decide)))
  obtain ⟨hpool, hscanner⟩ := hparts early
  have hshifted : here.freedTotal + [1, 1, 3].sum = here.shiftedTotal := by decide +kernel
  exact ⟨by decide +kernel, hshifted, by decide +kernel, by decide +kernel, hpool.add 2 3,
    hscanner.after [1, 1, 3] (Nat.le_of_eq hshifted)⟩

end Scanner
end Lookahead

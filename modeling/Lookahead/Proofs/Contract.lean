import Lookahead.Proofs.Strict.Run
import Lookahead.Source.Scripted

/-!
# The contract suffices

A caller keeps the contract who moves neither before the token start nor past the last
word, frees no more than was shifted and looks at no position past the last word. As
long as the windows can be allocated, such a caller never meets a fault. More than
that, no test that a strict run makes finds anything: every sum, difference and product
is a word, every index and range is within bounds, and every assertion holds. What is
never found makes no difference, so the modes agree.

## Main definitions

* `Strict.make`: makes a streaming scanner with every test made.
* `Scanner.WithinContract`: what is asked of a caller.
* `Scanner.Assured`: what a caller can rely on.

## Main statements

* `Scanner.Sound.assured`: the same for any sound scanner.
* `Scanner.contract_suffices`: for scanners just made, streaming or in memory.
-/
namespace Lookahead

namespace Strict
variable {σ : Type} [Source σ]

/-- Makes a streaming scanner that has looked at the first byte. -/
def make (config : Config) (source : σ) : Tested (Step σ UInt8) := do
  require (config.initialCapacity ≤ Word.maxAllocation) (.fault .capacityOverflow)
  peek (Scanner.unread config source) 0

end Strict

namespace Scanner
variable {σ : Type}

section
variable [Source σ]

/-- What is asked of a caller, as a run in the given mode shows it. -/
structure WithinContract (mode : Mode) (scanner : Scanner σ) (ops : List Op) : Prop where
  moves : scanner.MovesWithin mode ops
  frees : scanner.FreesWithin mode ops
  looks : scanner.LooksWithin mode ops

/-- What a caller can rely on: a strict run finds nothing and consists of the given
steps, either mode takes the same steps to the same end, and the position and the offset
can be asked for at any time. -/
structure Assured (scanner : Scanner σ) (ops : List Op)
    (steps : List (Strict.Step σ Answer)) : Prop where
  strict : Strict.run scanner ops = .ok steps
  run_eq : ∀ mode, scanner.run mode ops = steps.map Strict.Step.outcome
  after_eq : scanner.after .checked ops = scanner.after .unchecked ops
  asked : ∀ early late, ops = early ++ late → ∀ mode,
    let here := (scanner.after mode early).1
    Strict.pos here = .ok here.pos ∧ Strict.offset here = .ok here.shiftedTotal ∧
      here.offset mode = .ok here.shiftedTotal

section
variable {scanner : Scanner σ} {delivered : List UInt8} {mode : Mode} {ops : List Op} {op : Op}

theorem WithinContract.of_append {early late : List Op}
    (h : scanner.WithinContract mode (early ++ late)) : scanner.WithinContract mode early :=
  ⟨h.moves.of_append, h.frees.of_append, h.looks.of_append⟩

/-- A run within the contract finds nothing and keeps the storage within bounds. -/
theorem Sound.clear_run (h : scanner.Sound delivered) (hk : scanner.window.Kept)
    (hf : scanner.status.isActive = true → scanner.Fits)
    (hword : scanner.place.frontier < Word.bound) (hz : scanner.freedTotal = 0)
    (hwithin : scanner.WithinContract mode ops) (hlog : Modest (scanner.after mode ops).2) :
    Strict.Clear (Strict.run scanner ops) ∧ (scanner.after mode ops).1.window.Kept ∧
      ((scanner.after mode ops).1.status.isActive = true → (scanner.after mode ops).1.Fits) := by
  induction ops using List.reverseRecOn with
  | nil => exact ⟨Strict.clear_pure _, hk, hf⟩
  | append_singleton ops op ih =>
    rw [after_concat, modest_append] at hlog
    obtain ⟨hclear, hkept, hfits⟩ := ih hwithin.of_append hlog.1
    have hsound := h.run mode ops
    have hfree : ∀ n, op = .free n → _ := hwithin.frees.last
    rw [← h.freedTotal_after hz hwithin.frees.init hkept.placed] at hfree
    have hop := Strict.clear_apply hsound hkept hfits (h.frontier_after_lt hword hwithin.moves.init)
      hwithin.moves.last hfree hwithin.looks.last hlog.2
    refine ⟨hclear.concat hop, ?_⟩
    obtain ⟨step, hstep⟩ := hop
    have hok : _ = Except.ok step.value :=
      congrArg Outcome.result (Strict.apply_agrees hstep mode)
    rw [after_concat]
    exact ⟨kept_apply_of_ok hkept hok, hsound.fits_apply hkept hfits hok hlog.2⟩

/-- A caller within the contract can rely on everything. -/
theorem Sound.assured (h : scanner.Sound delivered) (hk : scanner.window.Kept)
    (hf : scanner.status.isActive = true → scanner.Fits)
    (hword : scanner.place.frontier < Word.bound) (hz : scanner.freedTotal = 0)
    (hwithin : scanner.WithinContract mode ops) (hlog : Modest (scanner.after mode ops).2) :
    ∃ steps, scanner.Assured ops steps := by
  obtain ⟨⟨steps, hsteps⟩, -⟩ := h.clear_run hk hf hword hz hwithin hlog
  refine ⟨steps, hsteps, Strict.run_agrees hsteps, Strict.after_agrees hsteps .., ?_⟩
  rintro early late rfl mode' here
  have hpart := hwithin.of_append
  rw [after_append, modest_append] at hlog
  obtain ⟨⟨before, hbefore⟩, -⟩ := h.clear_run hk hf hword hz hpart hlog.1
  have hplace : here.place.frontier < Word.bound := by
    have hlt := h.frontier_after_lt hword hpart.moves
    rwa [Strict.after_agrees hbefore mode mode'] at hlt
  have hshifted : here.shiftedTotal < Word.bound :=
    Nat.lt_of_le_of_lt (h.run mode' early).shifted_le hplace
  exact ⟨Strict.pos_eq (h.run mode' early).start_le, Strict.offset_eq hshifted,
    offset_of_lt mode' hshifted⟩

end

/-! ## Scanners just made -/

section
variable {config : Config} (source : σ)

omit [Source σ] in
theorem fits_unread (hinitial : config.initialCapacity ≤ Word.maxAllocation)
    (hvalid : config.Valid) : (unread config source).Fits where
  size_le := by simpa [unread] using hinitial
  capacity_le := by
    change (Window.vacant config.initialCapacity).size ≤ _
    rw [Window.size_vacant]
    exact Nat.le_refl _
  count_lt := by
    change 0 < 0 + (Window.vacant config.initialCapacity).size
    rw [Window.size_vacant, Nat.zero_add]
    exact hvalid.1

/-- The first window has room, so a first look computes no size. -/
theorem modest_peek_unread (hvalid : config.Valid) (mode : Mode) :
    Modest ((unread config source).peek mode 0).log := by
  have hspare : (unread config source).window.spare ≠ [] := by
    have hpos := hvalid.1
    simp only [unread, Window.vacant, ne_eq, List.replicate_eq_nil_iff]
    omega
  have hrefill : (unread config source).refill mode 0 = (unread config source).draw := by
    rw [refill_of_kept (Window.kept_vacant _), if_neg hspare]
  have hok : ((unread config source).refill mode 0).result = .ok () := by
    rw [hrefill, result_draw]
  have hstart : (unread config source).window.stop ≤ 0 := Nat.le_refl 0
  have hword : (unread config source).frontier + 0 < Word.bound := (by decide : 0 < Word.bound)
  have hdone : ¬((unread config source).draw.scanner.status.isActive = true ∧
      (unread config source).draw.scanner.window.stop ≤ 0) := by
    rintro ⟨ha, hstop⟩
    rcases draw_progress (unread config source) with hi | hlt
    · simp [hi] at ha
    · exact Nat.not_lt_zero _ (Nat.lt_of_lt_of_le hlt hstop)
  have hfill : (unread config source).fill mode 0 =
      (Outcome.pure () (unread config source).draw.scanner).after
        (unread config source).draw.log := by
    rw [fill_of_ok rfl hstart hok, hrefill, fill_of_done hdone]
  have hlog : ((unread config source).peek mode 0).log = (unread config source).draw.log := by
    rw [peek, if_pos hword]
    change (((unread config source).fill mode 0).bind _).log = _
    rw [hfill, Outcome.bind_after, Outcome.pure_bind, Outcome.log_after, log_look,
      List.append_nil]
  rw [hlog]
  exact modest_draw _

/-- A sound configuration makes a streaming scanner, in either mode the same, if its
first window can be allocated. -/
theorem make_agrees (hvalid : config.Valid)
    (hinitial : config.initialCapacity ≤ Word.maxAllocation) :
    ∃ made, Strict.make config source = .ok made ∧
      (∀ mode, ofSource mode config source = .ok made.outcome) ∧
      made.scanner.window.Kept ∧ (made.scanner.status.isActive = true → made.scanner.Fits) ∧
      made.scanner.place.frontier < Word.bound := by
  have hsound := sound_unread hvalid source
  have hfits := fits_unread source hinitial hvalid
  have hlog := modest_peek_unread source hvalid .checked
  have hword : (unread config source).frontierOffset + 0 < Word.bound :=
    (by decide : 0 < Word.bound)
  have hkept : (unread config source).window.Kept := Window.kept_vacant _
  obtain ⟨made, hmade⟩ := Strict.clear_peek hsound hkept (fun _ => hfits) hword hlog
  have hagrees := Strict.peek_agrees hmade
  obtain ⟨-, hmadeKept, hmadeFits, hplace⟩ := Strict.passes_agree hsound hkept (fun _ => hfits)
    (passes_peek _ 0) (hagrees .checked) hlog
  refine ⟨made, Strict.bind_eq_ok.2 ⟨(), Strict.require_eq_ok.2 hinitial, hmade⟩, fun mode => ?_,
    hmadeKept, hmadeFits, ?_⟩
  · exact ofSource_eq_ok_iff.2 ⟨hvalid, hinitial, hagrees mode⟩
  · change made.scanner.frontierOffset < Word.bound
    rw [hplace]
    exact hword

end

end

/-- **A caller within the contract never meets a fault, and the modes agree.** For every
source and every sound configuration a scanner can be made, and as long as the windows
that follow can be allocated, no test of a strict run finds anything, and the results
and the scanner at the end are the same in either mode. So it is in memory, where no
window follows. -/
theorem contract_suffices [Source σ] {config : Config} (source : σ) (mode : Mode)
    (hvalid : config.Valid) (hinitial : config.initialCapacity ≤ Word.maxAllocation) :
    (∃ made, Strict.make config source = .ok made ∧
      (∀ mode', ofSource mode' config source = .ok made.outcome) ∧
      ∀ ops, made.scanner.WithinContract mode ops →
        Modest (made.scanner.after mode ops).2 → ∃ steps, made.scanner.Assured ops steps) ∧
    ∀ data ops, (ofBytes data).WithinContract mode ops →
      ∃ steps, (ofBytes data).Assured ops steps := by
  constructor
  · obtain ⟨made, hmade, hagrees, hkept, hfits, hword⟩ := make_agrees source hvalid hinitial
    refine ⟨made, hmade, hagrees, fun ops hwithin hlog => ?_⟩
    have hz := freedTotal_ofSource (hagrees mode)
    exact (sound_ofSource (hagrees mode)).assured hkept hfits hword hz hwithin hlog
  · intro data ops hwithin
    refine (sound_ofBytes data).assured (Window.kept_ofBytes data) nofun
      (by decide : 0 < Word.bound) rfl hwithin ?_
    exact modest_of_idle (quiet_after_of_not_active rfl mode ops).log

/-- A window of four bytes that moves on twice. Bytes are parked, freed in part and then
all freed; when the window moves on again, the token start and what is freed lie beyond
the buffered bytes. -/
theorem contract_suffices_parked :
    let source : Source.Scripted := { data := [1, 2, 3, 4, 5, 6, 7, 8, 9], pace? := some 3 }
    let config : Config := { initialCapacity := 4 }
    let ops := [.moveTo 3, .skip, .free 1, .peek 2, .moveTo 5, .shiftToken, .free 6, .moveBy 2,
      .moveBy (-1), .free 1, .peek 3]
    ∃ made, Strict.make config source = .ok made ∧
      (made.scanner.after .checked ops).1.window.base = 7 ∧
      ∃ steps, made.scanner.Assured ops steps := by
  intro source config ops
  have hvalid : config.Valid := ⟨by decide, nofun⟩
  obtain ⟨made, hmade, hagrees, hruns⟩ :=
    (contract_suffices source .checked hvalid (by decide)).1
  obtain ⟨-, -, hpeek⟩ := ofSource_eq_ok_iff.1 (hagrees .checked)
  have hscanner : made.scanner = ((unread config source).peek .checked 0).scanner := by
    rw [hpeek, Strict.Step.scanner_outcome]
  refine ⟨made, hmade, ?_⟩
  rw [hscanner] at hruns ⊢
  refine ⟨by decide +kernel, ?_⟩
  exact hruns ops ⟨by decide +kernel, by decide +kernel, by decide +kernel⟩ (by decide +kernel)

end Scanner
end Lookahead

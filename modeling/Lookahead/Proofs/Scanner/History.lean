import Lookahead.Proofs.Scanner.Affordable
import Lookahead.Scanner.Start
import Mathlib.Data.List.Induction

/-!
# Histories

A run begins with a scanner just made, and what a caller promises is promised at
each operation of it: `Scanner.Along` is a condition on every operation together
with the operations before it and the scanner it finds. Facts about runs are
proved by adding one operation at the end.

## Main definitions

* `Op.freed` and `freedBy`: the bytes that operations free.
* `Scanner.Along`: a condition met all along a run.
* `Scanner.FreesWithin`: no more is freed than was shifted.

## Main statements

* `Scanner.sound_ofSource`, `Scanner.sound_ofBytes` and `Scanner.Sound.run`:
  every scanner that a run can lead to is sound.
* `Scanner.Sound.freedTotal_after`: the bytes freed are those asked for.
-/
namespace Lookahead

/-- The number of bytes that an operation is to free. -/
def Op.freed : Op → Nat
  | .free n => n
  | _ => 0

/-- The number of bytes that operations are to free, all together. -/
def freedBy : List Op → Nat
  | [] => 0
  | op :: ops => op.freed + freedBy ops

@[simp] theorem freedBy_concat (ops : List Op) (op : Op) :
    freedBy (ops ++ [op]) = freedBy ops + op.freed := by
  induction ops with
  | nil => simp [freedBy]
  | cons first ops ih =>
    rw [List.cons_append, freedBy, freedBy, ih, Nat.add_assoc]

/-- An element of a list that is longer by one is the last one or one of those before. -/
theorem split_concat {α : Type} {list early late : List α} {last element : α}
    (h : list ++ [last] = early ++ element :: late) :
    (late = [] ∧ list = early ∧ last = element) ∨
      ∃ between, late = between ++ [last] ∧ list = early ++ element :: between := by
  rcases List.eq_nil_or_concat late with rfl | ⟨between, final, rfl⟩
  · obtain ⟨hlist, hlast⟩ := List.append_inj' h rfl
    exact .inl ⟨rfl, hlist, List.singleton_inj.1 hlast⟩
  · have hassoc : early ++ element :: (between ++ [final]) =
        (early ++ element :: between) ++ [final] := by simp
    rw [List.concat_eq_append, hassoc] at h
    obtain ⟨hlist, hlast⟩ := List.append_inj' h rfl
    cases hlast
    exact .inr ⟨between, List.concat_eq_append, hlist⟩

namespace Scanner
variable {σ : Type}

/-! ## Scanners just made -/

theorem sound_ofBytes (bytes : List UInt8) : (ofBytes bytes).Sound bytes where
  pool := Pool.sound_empty
  consumed_le := Nat.le_refl _
  start_le := Nat.le_refl _
  frontier_lt := (by decide : 0 < Word.bound)
  consumed_eq := fun _ _ => rfl
  stop_eq := fun _ => Nat.zero_add _
  linked_le := fun _ => Nat.le_refl _
  content := fun _ => rfl
  misplaced := fun hp => absurd (Window.kept_ofBytes bytes).placed hp
  room := nofun
  within := nofun

theorem sound_unread {config : Config} (h : config.Valid) (source : σ) :
    (unread config source).Sound [] where
  pool := Pool.sound_empty
  consumed_le := Nat.le_refl _
  start_le := Nat.le_refl _
  frontier_lt := (by decide : 0 < Word.bound)
  consumed_eq := fun _ _ => rfl
  stop_eq := fun _ => rfl
  linked_le := fun _ => Nat.le_refl _
  content := fun _ => rfl
  misplaced := fun hp => absurd (Window.kept_vacant config.initialCapacity).placed hp
  room := fun _ _ => by simpa [unread] using h.1
  within := fun limit hl => by simpa [unread] using h.2 limit hl

variable [Source σ] {mode : Mode}

/-- A streaming scanner is made just if the configuration is sound and the first
window can be. -/
theorem ofSource_eq_ok_iff {config : Config} {source : σ} {built : Outcome σ UInt8} :
    ofSource mode config source = .ok built ↔
      config.Valid ∧ config.initialCapacity ≤ Word.maxAllocation ∧
        (unread config source).peek mode 0 = built := by
  rw [ofSource, ← Config.flaw?_eq_none_iff]
  cases hf : config.flaw? with
  | some flaw => simp
  | none =>
    by_cases hc : config.initialCapacity ≤ Word.maxAllocation <;> simp [hc]

/-- It is the scanner that has looked at the first byte. -/
theorem ofSource_of_valid (mode : Mode) {config : Config} (source : σ)
    (hvalid : config.Valid) (hinitial : config.initialCapacity ≤ Word.maxAllocation) :
    ofSource mode config source = .ok ((unread config source).peek mode 0) :=
  ofSource_eq_ok_iff.2 ⟨hvalid, hinitial, rfl⟩

theorem sound_ofSource {config : Config} {source : σ} {built : Outcome σ UInt8}
    (h : ofSource mode config source = .ok built) :
    built.scanner.Sound (deliveredBytes built.log) := by
  obtain ⟨hv, -, rfl⟩ := ofSource_eq_ok_iff.1 h
  exact ((sound_unread hv source).passes (passes_peek _ 0)).sound

/-! ## Runs -/

theorem after_concat (mode : Mode) (scanner : Scanner σ) (ops : List Op) (op : Op) :
    scanner.after mode (ops ++ [op]) =
      (((scanner.after mode ops).1.apply mode op).scanner,
        (scanner.after mode ops).2 ++ ((scanner.after mode ops).1.apply mode op).log) := by
  rw [after_append]
  simp [after]

theorem Sound.run {scanner : Scanner σ} {delivered : List UInt8} (h : scanner.Sound delivered)
    (mode : Mode) (ops : List Op) :
    (scanner.after mode ops).1.Sound (delivered ++ deliveredBytes (scanner.after mode ops).2) := by
  induction ops using List.reverseRecOn with
  | nil => simpa [after] using h
  | append_singleton ops op ih =>
    rw [after_concat, deliveredBytes_append, ← List.append_assoc]
    exact ih.apply mode op

/-- The scanner at the end of a run is sound for all bytes delivered since it was made. -/
theorem sound_after {config : Config} {source : σ} {built : Outcome σ UInt8}
    (h : ofSource mode config source = .ok built) (ops : List Op) :
    (built.scanner.after mode ops).1.Sound
      (deliveredBytes (built.log ++ (built.scanner.after mode ops).2)) := by
  rw [deliveredBytes_append]
  exact (sound_ofSource h).run mode ops

/-! ### Keeping the window -/

/-- A window that lost its buffer does not get it back. -/
theorem inherits_apply (mode : Mode) (scanner : Scanner σ) (op : Op) :
    (scanner.apply mode op).scanner.window.Inherits scanner.window := by
  rcases passes_or_quiet mode scanner op with hp | hq
  · exact hp.inherits
  · rw [hq.window]
    exact .refl _

theorem inherits_after (mode : Mode) (scanner : Scanner σ) (ops : List Op) :
    (scanner.after mode ops).1.window.Inherits scanner.window := by
  induction ops using List.reverseRecOn with
  | nil => exact .refl _
  | append_singleton ops op ih =>
    rw [after_concat]
    exact (inherits_apply mode _ op).trans ih

/-- A window that has its buffer at the end of a run has had it all along. -/
theorem kept_of_after {scanner : Scanner σ} {early late : List Op}
    (hk : (scanner.after mode (early ++ late)).1.window.Kept) :
    (scanner.after mode early).1.window.Kept := by
  rw [after_append] at hk
  exact (inherits_after mode _ late).kept hk

/-- An operation of a run that keeps the window keeps it. -/
theorem kept_apply_of_after {scanner : Scanner σ} {early late : List Op} {op : Op}
    (hk : (scanner.after mode (early ++ op :: late)).1.window.Kept) :
    ((scanner.after mode early).1.apply mode op).scanner.window.Kept := by
  rw [List.append_cons] at hk
  have hop := kept_of_after hk
  rwa [after_concat] at hop

/-- An operation that is not stopped keeps the window. -/
theorem kept_apply_of_ok {scanner : Scanner σ} (hk : scanner.window.Kept) {op : Op}
    {answer : Answer} (hok : (scanner.apply mode op).result = .ok answer) :
    (scanner.apply mode op).scanner.window.Kept := by
  rcases passes_or_quiet mode scanner op with hp | hq
  · exact hp.kept_of_ok hk (Outcome.result_forget_eq_ok_iff.2 ⟨answer, hok⟩)
  · rw [hq.window]
    exact hk

/-- The token start never moves back. -/
theorem Sound.shiftedTotal_le_apply {scanner : Scanner σ} {delivered : List UInt8}
    (h : scanner.Sound delivered) (mode : Mode) (op : Op) :
    scanner.shiftedTotal ≤ (scanner.apply mode op).scanner.shiftedTotal := by
  cases hop : op.looks with
  | true => exact Nat.le_of_eq (h.passes (passes_apply mode scanner hop)).steady.shifted.symm
  | false =>
    rcases quiet_cases mode scanner hop with hs | hs | ⟨n, consumed, hs⟩ | ⟨-, frontier, hs⟩
    · exact Nat.le_of_eq (congrArg shiftedTotal hs).symm
    · rw [hs]
      exact Nat.add_le_add_left h.start_le _
    · rw [hs]
      exact Nat.le_refl _
    · rw [hs]
      exact Nat.le_refl _

/-- Every operation keeps the window, as long as the windows can be allocated and, in a
checked run, the bytes shifted or delivered can be counted. -/
theorem Sound.kept_apply {scanner : Scanner σ} {delivered : List UInt8}
    (h : scanner.Sound delivered) (hk : scanner.window.Kept) {op : Op}
    (hlog : Affordable (scanner.apply mode op).log)
    (hcount : (scanner.apply mode op).scanner.Countable mode
      (delivered ++ deliveredBytes (scanner.apply mode op).log)) :
    (scanner.apply mode op).scanner.window.Kept := by
  rcases passes_or_quiet mode scanner op with hp | hq
  · exact h.kept_passes hk hp hlog (fun hm => (h.passes hp).steady.shifted ▸ hcount hm)
  · rw [hq.window]
    exact hk

/-- **The window is kept** along every run, under the same conditions. -/
theorem Sound.kept_after {scanner : Scanner σ} {delivered : List UInt8}
    (h : scanner.Sound delivered) (hk : scanner.window.Kept) {ops : List Op}
    (hlog : Affordable (scanner.after mode ops).2)
    (hcount : (scanner.after mode ops).1.Countable mode
      (delivered ++ deliveredBytes (scanner.after mode ops).2)) :
    (scanner.after mode ops).1.window.Kept := by
  induction ops using List.reverseRecOn with
  | nil => exact hk
  | append_singleton ops op ih =>
    rw [after_concat] at hlog hcount ⊢
    rw [affordable_append] at hlog
    rw [deliveredBytes_append, ← List.append_assoc] at hcount
    have hsound := h.run mode ops
    exact hsound.kept_apply
      (ih hlog.1 (hcount.mono (hsound.shiftedTotal_le_apply mode op))) hlog.2 hcount

/-- An input in memory is always looked at through the same window. -/
theorem window_after_ofBytes (data : List UInt8) (mode : Mode) (ops : List Op) :
    ((ofBytes data).after mode ops).1.window = .ofBytes data := by
  have hended : (ofBytes data).status.isActive = false := rfl
  exact (quiet_after_of_not_active hended mode ops).window

/-- It is always kept. -/
theorem kept_after_ofBytes (data : List UInt8) (ops : List Op) :
    ((ofBytes data).after mode ops).1.window.Kept := by
  rw [window_after_ofBytes]
  exact Window.kept_ofBytes data

/-- What is shifted of an input in memory can always be counted. -/
theorem shiftedTotal_ofBytes_lt (data : List UInt8) (ops : List Op) :
    ((ofBytes data).after mode ops).1.shiftedTotal < Word.bound := by
  have hstart := ((sound_ofBytes data).run mode ops).start_lt
  have hwindow := window_after_ofBytes data mode ops
  rw [shiftedTotal, show ((ofBytes data).after mode ops).1.window.origin = 0 from
    congrArg Window.origin hwindow, Nat.zero_add]
  exact hstart

/-- A condition on an operation, the operations before it and the scanner that it
is applied to, met by every operation of a run. -/
def Along (mode : Mode) (scanner : Scanner σ) (condition : List Op → Scanner σ → Op → Prop)
    (ops : List Op) : Prop :=
  ∀ early op late, ops = early ++ op :: late → condition early (scanner.after mode early).1 op

/-- An operation that follows the given ones frees no more than was shifted or
skipped before. -/
def MayFree (early : List Op) (here : Scanner σ) (op : Op) : Prop :=
  ∀ n, op = .free n → freedBy early + n ≤ here.shiftedTotal

instance (early : List Op) (here : Scanner σ) (op : Op) : Decidable (MayFree early here op) :=
  decidable_of_iff (op = .free op.freed → freedBy early + op.freed ≤ here.shiftedTotal)
    ⟨by rintro h n rfl; exact h rfl, fun h => h op.freed⟩

/-- The caller never frees more than was shifted or skipped before. -/
def FreesWithin (mode : Mode) (scanner : Scanner σ) (ops : List Op) : Prop :=
  scanner.Along mode MayFree ops

section
variable {scanner : Scanner σ} {condition : List Op → Scanner σ → Op → Prop} {ops : List Op}
  {op : Op}

theorem Along.of_append {early late : List Op} (h : scanner.Along mode condition (early ++ late)) :
    scanner.Along mode condition early := by
  rintro first last rest rfl
  exact h first last (rest ++ late) (by simp)

theorem Along.init (h : scanner.Along mode condition (ops ++ [op])) :
    scanner.Along mode condition ops := h.of_append

theorem Along.last (h : scanner.Along mode condition (ops ++ [op])) :
    condition ops (scanner.after mode ops).1 op := h ops op [] rfl

theorem Along.concat (h : scanner.Along mode condition ops)
    (hop : condition ops (scanner.after mode ops).1 op) :
    scanner.Along mode condition (ops ++ [op]) := by
  intro early last late hsplit
  rcases split_concat hsplit with ⟨-, rfl, rfl⟩ | ⟨between, -, hbefore⟩
  · exact hop
  · exact h early last between hbefore

theorem along_iff_take : scanner.Along mode condition ops ↔
    ∀ i : Fin ops.length, condition (ops.take i) (scanner.after mode (ops.take i)).1 ops[i] := by
  constructor
  · intro h i
    refine h _ _ (ops.drop (i + 1)) ?_
    rw [Fin.getElem_fin, ← List.drop_eq_getElem_cons i.isLt, List.take_append_drop]
  · rintro h early op late rfl
    simpa using h ⟨early.length, by simp⟩

instance [∀ early here op, Decidable (condition early here op)] :
    Decidable (scanner.Along mode condition ops) :=
  decidable_of_iff _ along_iff_take.symm

instance : Decidable (scanner.FreesWithin mode ops) :=
  inferInstanceAs (Decidable (scanner.Along mode MayFree ops))

end

/-- An operation frees what it is asked to free, if that is no more than shifted. -/
theorem Sound.freedTotal_apply {scanner : Scanner σ} {delivered : List UInt8}
    (h : scanner.Sound delivered) (mode : Mode) (op : Op)
    (hp : (scanner.apply mode op).scanner.window.Placed)
    (hop : ∀ n, op = .free n → scanner.freedTotal + n ≤ scanner.shiftedTotal) :
    (scanner.apply mode op).scanner.freedTotal = scanner.freedTotal + op.freed := by
  cases op with
  | peek distance => exact (h.passes (passes_peek scanner distance)).steady.freed hp
  | peekRune distance => exact (h.passes (passes_peekRune scanner distance)).steady.freed hp
  | moveBy delta =>
    rw [Scanner.apply, Outcome.scanner_map, Scanner.moveBy]
    split <;> rfl
  | moveTo n => rfl
  | bytes => rfl
  | shift => rfl
  | shiftToken =>
    rw [Scanner.apply, Outcome.scanner_map, Scanner.shiftToken]
    split <;> rfl
  | skip => rfl
  | free n =>
    exact (h.free_of_le mode (hop n rfl)).2 ((inherits_apply mode scanner (.free n)).placed hp)
  | lentBytes => rfl
  | shiftLent =>
    rw [Scanner.apply, Outcome.scanner_map, Scanner.shiftLent?]
    split <;> rfl

/-- Along a run that frees no more than was shifted, what is freed adds up. -/
theorem Sound.freedTotal_after {scanner : Scanner σ} {delivered : List UInt8}
    (h : scanner.Sound delivered) (hz : scanner.freedTotal = 0) {ops : List Op}
    (hfree : scanner.FreesWithin mode ops) (hp : (scanner.after mode ops).1.window.Placed) :
    (scanner.after mode ops).1.freedTotal = freedBy ops := by
  induction ops using List.reverseRecOn with
  | nil => exact hz
  | append_singleton ops op ih =>
    rw [after_concat] at hp ⊢
    have hi := ih hfree.init ((inherits_apply mode _ op).placed hp)
    have hl : ∀ n, op = .free n → _ := hfree.last
    rw [← hi] at hl
    rw [(h.run mode ops).freedTotal_apply mode op hp hl, hi, freedBy_concat]

/-- Making a streaming scanner shifts nothing. -/
theorem shiftedTotal_ofSource {config : Config} {source : σ} {built : Outcome σ UInt8}
    (h : ofSource mode config source = .ok built) : built.scanner.shiftedTotal = 0 := by
  obtain ⟨hv, -, rfl⟩ := ofSource_eq_ok_iff.1 h
  exact ((sound_unread hv source).passes (passes_peek _ 0)).steady.shifted

/-- The positions of a scanner just made belong to what counts as buffered. -/
theorem placed_ofSource {config : Config} {source : σ} {built : Outcome σ UInt8}
    (h : ofSource mode config source = .ok built) : built.scanner.window.Placed := by
  refine (sound_ofSource h).placed_of_lt ?_
  rw [shiftedTotal_ofSource h]
  decide

/-- A scanner just made has its window. -/
theorem kept_ofSource {config : Config} {source : σ} {built : Outcome σ UInt8}
    (h : ofSource mode config source = .ok built) (hlog : Affordable built.log) :
    built.scanner.window.Kept := by
  obtain ⟨hv, -, rfl⟩ := ofSource_eq_ok_iff.1 h
  exact (sound_unread hv source).kept_passes (Window.kept_vacant _) (passes_peek _ 0) hlog
    fun _ => .inl (by decide : 0 < Word.bound)

/-- **A streaming scanner keeps its window**, as long as the windows can be allocated and, in
a checked run, the bytes shifted or delivered can be counted. -/
theorem kept_of_countable {config : Config} {source : σ} {built : Outcome σ UInt8}
    (h : ofSource mode config source = .ok built) {ops : List Op}
    (hlog : Affordable (built.log ++ (built.scanner.after mode ops).2))
    (hcount : (built.scanner.after mode ops).1.Countable mode
      (deliveredBytes (built.log ++ (built.scanner.after mode ops).2))) :
    (built.scanner.after mode ops).1.window.Kept := by
  rw [affordable_append] at hlog
  rw [deliveredBytes_append] at hcount
  exact (sound_ofSource h).kept_after (kept_ofSource h hlog.1) hlog.2 hcount

/-- So it does if a checked run is given fewer bytes than a word can count. -/
theorem kept_of_numbered {config : Config} {source : σ} {built : Outcome σ UInt8}
    (h : ofSource mode config source = .ok built) {ops : List Op}
    (hlog : Affordable (built.log ++ (built.scanner.after mode ops).2))
    (hcount : Numbered mode (built.log ++ (built.scanner.after mode ops).2)) :
    (built.scanner.after mode ops).1.window.Kept :=
  kept_of_countable h hlog fun hm => .inr (hcount hm)

/-- Making a streaming scanner frees nothing. -/
theorem freedTotal_ofSource {config : Config} {source : σ} {built : Outcome σ UInt8}
    (h : ofSource mode config source = .ok built) : built.scanner.freedTotal = 0 := by
  have hp := placed_ofSource h
  obtain ⟨hv, -, rfl⟩ := ofSource_eq_ok_iff.1 h
  exact ((sound_unread hv source).passes (passes_peek _ 0)).steady.freed hp

end Scanner
end Lookahead

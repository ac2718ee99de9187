import Lookahead.Scanner.Peek

/-!
# Passes

Looking ahead changes a scanner only by passes: the window moves on if it is
full, and one read follows. What a move and a read can do is said here once, and
`Scanner.Passes` lists the outcomes that a number of passes can lead to. Whatever
a pass keeps, every operation that looks ahead keeps.

## Main definitions

* `requests`: the requests in a log.
* `Scanner.Passes`: outcomes of passes in a row.

## Main statements

* `Scanner.draw_cases` and `Scanner.relocate_cases`: what a pass is made of.
* `Scanner.passes_peek` and `Scanner.passes_peekRune`: looking ahead is passes.
-/
namespace Lookahead

variable {σ : Type}

namespace Outcome
variable {α β : Type}

@[simp] theorem after_after (outcome : Outcome σ α) (early late : List Event) :
    (outcome.after late).after early = outcome.after (early ++ late) := by
  simp [after]

@[simp] theorem result_map (f : α → β) (outcome : Outcome σ α) :
    (outcome.map f).result = outcome.result.map f := rfl

theorem exists_of_map {f : α → β} {result : Except Fault α} {b : β}
    (h : result.map f = .ok b) : ∃ a, result = .ok a ∧ f a = b := by
  cases result with
  | ok a => exact ⟨a, rfl, Except.ok.inj h⟩
  | error fault => cases h

theorem exists_of_result_map {f : α → β} {outcome : Outcome σ α} {b : β}
    (h : (outcome.map f).result = .ok b) : ∃ a, outcome.result = .ok a ∧ f a = b :=
  exists_of_map h

@[simp] theorem map_after (f : α → β) (outcome : Outcome σ α) (log : List Event) :
    (outcome.after log).map f = (outcome.map f).after log := rfl

@[simp] theorem map_pure (f : α → β) (a : α) (scanner : Scanner σ) :
    (pure a scanner).map f = pure (f a) scanner := rfl

@[simp] theorem bind_after (outcome : Outcome σ α) (log : List Event)
    (next : α → Scanner σ → Outcome σ β) :
    (outcome.after log).bind next = (outcome.bind next).after log := by
  cases h : outcome.result with
  | ok a =>
    have hl : (outcome.after log).result = .ok a := h
    rw [bind_of_ok hl, bind_of_ok h, after_after, log_after, scanner_after]
  | error fault =>
    have hl : (outcome.after log).result = .error fault := h
    rw [bind_of_error hl, bind_of_error h]
    rfl

/-- The events before going on are among those of the whole. -/
theorem log_subset_bind (outcome : Outcome σ α) (next : α → Scanner σ → Outcome σ β) :
    outcome.log ⊆ (outcome.bind next).log := by
  cases h : outcome.result with
  | ok a =>
    rw [bind_of_ok h]
    exact List.subset_append_left ..
  | error fault =>
    rw [bind_of_error h]
    exact List.Subset.refl _

/-- An outcome without its result. -/
def forget (outcome : Outcome σ α) : Outcome σ Unit := outcome.map fun _ => ()

@[simp] theorem scanner_forget (outcome : Outcome σ α) :
    outcome.forget.scanner = outcome.scanner := rfl
@[simp] theorem log_forget (outcome : Outcome σ α) : outcome.forget.log = outcome.log := rfl
@[simp] theorem forget_map (f : α → β) (outcome : Outcome σ α) :
    (outcome.map f).forget = outcome.forget := by
  cases h : outcome.result <;> simp [forget, map, h, Except.map]
@[simp] theorem forget_unit (outcome : Outcome σ Unit) : outcome.forget = outcome := by
  cases outcome with
  | mk result scanner log => cases result <;> rfl

theorem result_forget_eq_ok_iff {outcome : Outcome σ α} :
    outcome.forget.result = .ok () ↔ ∃ a, outcome.result = .ok a := by
  cases h : outcome.result <;> simp [forget, map, h, Except.map]

end Outcome

/-! ## Requests -/

/-- The requests in a log, in order. -/
def requests (log : List Event) : List Source.Call := log.filterMap Event.call?

@[simp] theorem requests_append (first last : List Event) :
    requests (first ++ last) = requests first ++ requests last := List.filterMap_append

/-- Only requests bring bytes in. -/
theorem deliveredBytes_of_requests {log : List Event} (h : requests log = []) :
    deliveredBytes log = [] := by
  rw [deliveredBytes, List.flatMap_eq_nil_iff]
  intro event he
  rw [Event.delivered, List.filterMap_eq_nil_iff.1 h event he]
  rfl

/-! ## One read -/

@[simp] theorem deliveredBytes_cons (event : Event) (log : List Event) :
    deliveredBytes (event :: log) = event.delivered ++ deliveredBytes log := rfl

/-- Interrupted requests deliver nothing, so a pull delivers what its last answer
does. -/
theorem deliveredBytes_calls [Source σ] (source : σ) (room : List UInt8) :
    deliveredBytes ((Source.pull source room).calls.map Event.read) =
      (Source.pull source room).reply.delivered := by
  fun_induction Source.pull source room with
  | case1 source room answer h later ih =>
    have hnone : answer.1.delivered = [] := by
      cases hc : answer.1.count with
      | ok n => simp [Reply.isInterruption, hc] at h
      | error error => simp [Reply.delivered, hc]
    have hcall : (Event.read ⟨room, answer.1⟩).delivered = [] := hnone
    rw [List.map_cons, deliveredBytes_cons, hcall]
    exact ih
  | case2 source room answer h => exact List.append_nil _

namespace Scanner

/-- A read that succeeds delivers the front of the room. If that is empty, the source
has ended. -/
theorem draw_of_ok [Source σ] {scanner : Scanner σ} {n : Nat}
    (hc : (Source.pull scanner.source scanner.window.spare).reply.count = .ok n) :
    let pulled := Source.pull scanner.source scanner.window.spare
    scanner.draw.scanner =
        { scanner with
          source := pulled.source
          status := if n = 0 then scanner.status.finish none else scanner.status
          window := scanner.window.accept pulled.reply.room n } ∧
      deliveredBytes scanner.draw.log = pulled.reply.room.take n := by
  intro pulled
  have hlog := deliveredBytes_calls scanner.source scanner.window.spare
  simp only [Reply.delivered, hc] at hlog
  by_cases hn : n = 0
  · refine ⟨by simp [draw, hc, hn, pulled], ?_⟩
    simpa [draw, hc, hn, Event.delivered, Event.call?] using hlog
  · refine ⟨by simp [draw, hc, hn, pulled], ?_⟩
    simpa [draw, hc, hn, Event.delivered, Event.call?] using hlog

/-- A read that fails delivers nothing and ends the source. -/
theorem draw_of_error [Source σ] {scanner : Scanner σ} {error : ReadError}
    (hc : (Source.pull scanner.source scanner.window.spare).reply.count = .error error) :
    let pulled := Source.pull scanner.source scanner.window.spare
    scanner.draw.scanner =
        { scanner with
          source := pulled.source
          status := scanner.status.finish (some (.source error))
          window := scanner.window.overwrite pulled.reply.room } ∧
      deliveredBytes scanner.draw.log = [] := by
  intro pulled
  have hlog := deliveredBytes_calls scanner.source scanner.window.spare
  simp only [Reply.delivered, hc] at hlog
  refine ⟨by simp [draw, hc, pulled], ?_⟩
  simpa [draw, hc, Event.delivered, Event.call?] using hlog

/-- A read appends the bytes delivered and leaves the rest of the room to the next
one. If there are none, the source has ended. -/
theorem draw_cases [Source σ] (scanner : Scanner σ) :
    ∃ source status bytes room,
      scanner.draw.scanner =
        { scanner with
          source, status
          window := { scanner.window with
            buffer := scanner.window.buffer.append bytes, spare := room } } ∧
      deliveredBytes scanner.draw.log = bytes ∧
      bytes.length + room.length = scanner.window.spare.length ∧
      (status = scanner.status ∧ bytes ≠ [] ∨ status.isActive = false ∧ bytes = []) := by
  have hroom := Source.pull_length_room scanner.source scanner.window.spare
  cases hc : (Source.pull scanner.source scanner.window.spare).reply.count with
  | ok n =>
    obtain ⟨hs, hlog⟩ := draw_of_ok hc
    have hle : n ≤ scanner.window.spare.length := Source.pull_count_le hc
    refine ⟨_, _, _, _, hs, hlog, ?_, ?_⟩
    · rw [List.length_take, List.length_drop, hroom]
      omega
    · by_cases hn : n = 0
      · exact .inr ⟨by simp [hn], by rw [hn, List.take_zero]⟩
      · refine .inl ⟨if_neg hn, List.ne_nil_of_length_pos ?_⟩
        rw [List.length_take, hroom]
        omega
  | error error =>
    obtain ⟨hs, hlog⟩ := draw_of_error hc
    refine ⟨(Source.pull scanner.source scanner.window.spare).source,
      scanner.status.finish (some (.source error)), [],
      (Source.pull scanner.source scanner.window.spare).reply.room, hs.trans ?_, hlog, ?_,
      .inr ⟨Status.isActive_finish .., rfl⟩⟩
    · simp [Window.overwrite, Buffer.append]
    · simpa using hroom

/-! ## One move of the window -/

/-- The swap behind a move of the window. -/
def swapped (mode : Mode) (scanner : Scanner σ) (size : Nat) : Pool.Exchange :=
  scanner.pool.swap mode scanner.window.buffer scanner.retained
    (min scanner.consumed scanner.retained) size

/-- The notice of a move of the window. -/
def moving (scanner : Scanner σ) (size : Nat) : Event :=
  .relocating scanner.residual scanner.window.size size scanner.pool.outstanding

/-- A move of the window into one of the given size is stopped by a fault, and the given
bytes still count as buffered. -/
def Stopped (mode : Mode) (scanner : Scanner σ) (size : Nat) (fault : Fault) (left : Buffer) :
    Prop :=
  (scanner.swapped mode size).result = .error fault ∧ left = scanner.window.buffer ∨
    (scanner.swapped mode size).result = .ok left ∧
      mode.add scanner.window.base scanner.retained = .error fault

/-- The window is refused to grow, moves on, or loses its buffer because of a fault: in
the swap, or behind it when the base is no word any more. -/
theorem relocate_cases (mode : Mode) (scanner : Scanner σ) (target : Nat) :
    (∃ limit, scanner.nextSize scanner.residual = .error limit ∧
      scanner.relocate mode target = scanner.refuse target limit) ∨
    ∃ size, scanner.nextSize scanner.residual = .ok size ∧
      ((∃ buffer, (scanner.swapped mode size).result = .ok buffer ∧
        scanner.relocate mode target =
          ⟨.ok (), scanner.rebase buffer (scanner.swapped mode size).pool size,
            scanner.moving size :: (scanner.swapped mode size).log⟩) ∨
      ∃ fault left, scanner.Stopped mode size fault left ∧
        scanner.relocate mode target =
          ⟨.error fault, scanner.abandon left (scanner.swapped mode size).pool fault,
            scanner.moving size :: (scanner.swapped mode size).log⟩) := by
  cases hn : scanner.nextSize scanner.residual with
  | error limit => exact .inl ⟨limit, rfl, by simp [relocate, hn]⟩
  | ok size =>
    refine .inr ⟨size, rfl, ?_⟩
    cases hr : (scanner.swapped mode size).result with
    | error fault =>
      refine .inr ⟨fault, _, .inl ⟨hr, rfl⟩, ?_⟩
      rw [swapped] at hr
      simp [relocate, hn, hr, swapped, moving]
    | ok buffer =>
      cases hbase : mode.add scanner.window.base scanner.retained with
      | error fault =>
        refine .inr ⟨fault, buffer, .inr ⟨hr, hbase⟩, ?_⟩
        rw [swapped] at hr
        simp [relocate, hn, hr, hbase, swapped, moving]
      | ok base =>
        refine .inl ⟨buffer, rfl, ?_⟩
        rw [swapped] at hr
        simp [relocate, hn, hr, hbase, swapped, moving]

/-! ## Passes in a row -/

variable [Source σ] {mode : Mode}

/-- What a number of passes can lead to, each made for a position that is not
buffered yet while the source is active. Without a buffer, looking may be stopped
behind them. -/
inductive Passes (mode : Mode) (scanner : Scanner σ) : Outcome σ Unit → Prop where
  | none : Passes mode scanner (.pure () scanner)
  | stuck {outcome : Outcome σ Unit} {fault : Fault} :
    Passes mode scanner outcome → ¬outcome.scanner.window.Kept →
    Passes mode scanner { outcome with result := .error fault }
  | more {outcome : Outcome σ Unit} {target : Nat} :
    Passes mode scanner outcome → outcome.result = .ok () →
    outcome.scanner.status.isActive = true → outcome.scanner.window.stop ≤ target →
    Passes mode scanner ((outcome.scanner.refill mode target).after outcome.log)

theorem Passes.trans {scanner : Scanner σ} {early late : Outcome σ Unit}
    (he : Passes mode scanner early) (hok : early.result = .ok ())
    (hl : Passes mode early.scanner late) : Passes mode scanner (late.after early.log) := by
  induction hl with
  | none =>
    obtain ⟨result, scanner', log⟩ := early
    cases (hok : result = .ok ())
    simpa [Outcome.pure, Outcome.after] using he
  | stuck _ hk ih => exact ih.stuck hk
  | more _ hr ha ht ih =>
    rw [Outcome.after_after]
    exact ih.more hr ha ht

theorem passes_refill {scanner : Scanner σ} {target : Nat}
    (ha : scanner.status.isActive = true) (ht : scanner.window.stop ≤ target) :
    Passes mode scanner (scanner.refill mode target) := by
  have hnone : Passes mode scanner (.pure () scanner) := .none
  simpa using hnone.more rfl ha ht

/-- Once the source has ended there are no passes. -/
theorem Passes.eq_of_not_active {scanner : Scanner σ} {outcome : Outcome σ Unit}
    (h : Passes mode scanner outcome) (hi : scanner.status.isActive = false) :
    outcome.scanner = scanner ∧ outcome.log = [] := by
  induction h with
  | none => exact ⟨rfl, rfl⟩
  | stuck _ _ ih => exact ih
  | more _ _ ha _ ih =>
    rw [ih.1] at ha
    exact absurd ha (by simpa using hi)

/-- Filling starts over after a pass. -/
theorem fill_of_ok {scanner : Scanner σ} {target : Nat} (ha : scanner.status.isActive = true)
    (ht : scanner.window.stop ≤ target) (hr : (scanner.refill mode target).result = .ok ()) :
    scanner.fill mode target =
      ((scanner.refill mode target).scanner.fill mode target).after
        (scanner.refill mode target).log := by
  rw [fill, if_pos ⟨ha, ht⟩]
  simp only []
  split
  · rename_i h
    simp [hr] at h
  · rfl

/-- Filling ends with a pass that is stopped. -/
theorem fill_of_error {scanner : Scanner σ} {target : Nat} {fault : Fault}
    (ha : scanner.status.isActive = true) (ht : scanner.window.stop ≤ target)
    (hr : (scanner.refill mode target).result = .error fault) :
    scanner.fill mode target = scanner.refill mode target := by
  rw [fill, if_pos ⟨ha, ht⟩]
  simp only []
  split
  · rename_i h
    rw [← h]
  · rename_i h
    simp [hr] at h

theorem fill_of_done {scanner : Scanner σ} {target : Nat}
    (h : ¬(scanner.status.isActive = true ∧ scanner.window.stop ≤ target)) :
    scanner.fill mode target = .pure () scanner := by
  rw [fill, if_neg h]

theorem passes_fill (scanner : Scanner σ) (target : Nat) :
    Passes mode scanner (scanner.fill mode target) := by
  fun_induction fill mode scanner target with
  | case1 scanner h pass fault hr =>
    rw [← hr]
    exact passes_refill h.1 h.2
  | case2 scanner h pass hr ih => exact (passes_refill h.1 h.2).trans hr ih
  | case3 scanner h => exact .none

/-- Unless it is stopped, filling reaches the position or the end of the source. -/
theorem fill_reaches {scanner : Scanner σ} {target : Nat}
    (hok : (scanner.fill mode target).result = .ok ()) :
    (scanner.fill mode target).scanner.status.isActive = false ∨
      target < (scanner.fill mode target).scanner.window.stop := by
  fun_induction fill mode scanner target with
  | case1 scanner h pass fault hr => exact nomatch hok
  | case2 scanner h pass hr ih => exact ih hok
  | case3 scanner h =>
    by_cases ha : scanner.status.isActive = true
    · exact .inr (Nat.lt_of_not_le fun ht => h ⟨ha, ht⟩)
    · exact .inl (by simpa using ha)

/-! ## Looking ahead -/

section
variable {scanner : Scanner σ} {distance : Nat}

omit [Source σ] in
@[simp] theorem scanner_look (scanner : Scanner σ) (index : Nat) :
    (scanner.look index).scanner = scanner := by
  rw [look]
  split <;> rfl

omit [Source σ] in
@[simp] theorem log_look (scanner : Scanner σ) (index : Nat) : (scanner.look index).log = [] := by
  rw [look]
  split <;> rfl

omit [Source σ] in
/-- With its buffer a window shows what is at an index. -/
theorem look_of_kept (hk : scanner.window.Kept) (index : Nat) :
    scanner.look index = .pure (scanner.window.byteAt index) scanner := by
  have hle := hk.filled_le
  rw [look, if_neg (by omega)]

/-- Looking ahead ends with the scanner that filling leads to. -/
theorem scanner_peek (hb : scanner.frontier + distance < Word.bound) :
    (scanner.peek mode distance).scanner =
      (scanner.fill mode (scanner.frontierOffset + distance)).scanner := by
  rw [peek, if_pos hb]
  cases hr : (scanner.fill mode (scanner.frontierOffset + distance)).result with
  | ok u => rw [Outcome.bind_of_ok hr, Outcome.scanner_after, scanner_look]
  | error fault => rw [Outcome.bind_of_error hr]

/-- The log of a look ahead is that of filling the window. -/
theorem log_peek (hb : scanner.frontier + distance < Word.bound) :
    (scanner.peek mode distance).log =
      (scanner.fill mode (scanner.frontierOffset + distance)).log := by
  rw [peek, if_pos hb]
  cases hr : (scanner.fill mode (scanner.frontierOffset + distance)).result with
  | ok u => rw [Outcome.bind_of_ok hr, Outcome.log_after, log_look, List.append_nil]
  | error fault => rw [Outcome.bind_of_error hr]

end

theorem Passes.bind {α β : Type} {scanner : Scanner σ} {outcome : Outcome σ α}
    {next : α → Scanner σ → Outcome σ β} (h : Passes mode scanner outcome.forget)
    (hnext : ∀ a, Passes mode outcome.scanner (next a outcome.scanner).forget) :
    Passes mode scanner (outcome.bind next).forget := by
  cases hr : outcome.result with
  | ok a =>
    rw [Outcome.bind_of_ok hr, Outcome.forget, Outcome.map_after]
    exact h.trans (Outcome.result_forget_eq_ok_iff.2 ⟨a, hr⟩) (hnext a)
  | error fault =>
    have hf : (outcome.bind next).forget = outcome.forget := by
      rw [Outcome.bind_of_error hr]
      simp [Outcome.forget, Outcome.map, hr, Except.map]
    rw [hf]
    exact h

theorem passes_look (scanner : Scanner σ) (index : Nat) :
    Passes mode scanner (scanner.look index).forget := by
  have hnone : Passes mode scanner (.pure () scanner) := .none
  by_cases hk : scanner.window.Kept
  · rw [look_of_kept hk]
    exact hnone
  · rw [look]
    split
    · exact hnone.stuck hk
    · exact hnone

theorem passes_peek (scanner : Scanner σ) (distance : Nat) :
    Passes mode scanner (scanner.peek mode distance).forget := by
  rw [peek]
  split
  · refine Passes.bind ?_ fun _ => passes_look ..
    rw [Outcome.forget_unit]
    exact passes_fill ..
  · exact .none

theorem passes_peekEach (scanner : Scanner σ) (distances : List Nat) :
    Passes mode scanner (scanner.peekEach mode distances).forget := by
  induction distances generalizing scanner with
  | nil => exact .none
  | cons distance distances ih =>
    refine (passes_peek scanner distance).bind fun byte => ?_
    rw [Outcome.forget_map]
    exact ih _

/-- Looks in turn end with the first of them, if it is stopped, or with the others. -/
theorem scanner_peekEach_cons (mode : Mode) (scanner : Scanner σ) (first : Nat)
    (rest : List Nat) :
    (scanner.peekEach mode (first :: rest)).scanner = (scanner.peek mode first).scanner ∨
      (scanner.peekEach mode (first :: rest)).scanner =
        ((scanner.peek mode first).scanner.peekEach mode rest).scanner := by
  rw [peekEach]
  cases hr : (scanner.peek mode first).result with
  | error fault => exact .inl (by rw [Outcome.bind_of_error hr])
  | ok byte =>
    exact .inr (by rw [Outcome.bind_of_ok hr, Outcome.scanner_after, Outcome.scanner_map])

theorem passes_peekRune (scanner : Scanner σ) (distance : Nat) :
    Passes mode scanner (scanner.peekRune mode distance).forget := by
  refine (passes_peek scanner distance).bind fun lead => ?_
  rw [Outcome.forget_map]
  exact passes_peekEach ..

end Scanner
end Lookahead

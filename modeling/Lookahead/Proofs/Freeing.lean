import Lookahead.Proofs.Scanner.Affordable
import Lookahead.Proofs.Scanner.History
import Lookahead.Source.Scripted
import Mathlib.Data.List.Forall2

/-!
# Freeing is invisible

Freeing decides where the room for the next window comes from: the token slides
down in its buffer, a drained block is used again, or a buffer is allocated. None
of this can be told from what a caller sees, nor from what the source is asked.
In the unchecked mode that holds for any freeing at all, also for more than was
shifted.

Two scanners are alike (`Scanner.Alike`) if they differ in what is freed, in the
pool and in the storage of the window only. Alike scanners make the same requests
and give the same results, and freeing leads to an alike scanner.

## Main definitions

* `Scanner.Alike` and `Outcome.Alike`.
* `Scanner.shown`: the outcomes of a run, less those of freeing.

## Main statements

* `Scanner.Alike.apply`: alike scanners stay alike.
* `Scanner.freeing_invisible`: two runs that differ in freeing show the same.
-/
namespace Lookahead

/-- Whether an operation frees. -/
def Op.frees : Op → Bool
  | .free _ => true
  | _ => false

/-- The operations of a list that do not free. -/
def withoutFrees (ops : List Op) : List Op := ops.filter fun op => !op.frees

/-- Two scanners that show the same to a caller and to a source. As many bytes of the
stream came before their windows, and with them their bases agree. What they freed,
their pools and the storage behind their windows may differ. -/
structure Scanner.Alike {σ : Type} (s t : Scanner σ) : Prop where
  source : s.source = t.source
  status : s.status = t.status
  limit : s.limit? = t.limit?
  origin : s.window.origin = t.window.origin
  bytes : s.window.bytes = t.window.bytes
  spare : s.window.spare = t.window.spare
  lent : s.window.lent = t.window.lent
  fault : s.window.fault? = t.window.fault?
  start : s.start = t.start
  frontier : s.frontier = t.frontier

/-- Two outcomes with the same result and the same requests that lead to alike
scanners. -/
structure Outcome.Alike {σ α : Type} (p q : Outcome σ α) : Prop where
  result : p.result = q.result
  requests : requests p.log = requests q.log
  scanner : p.scanner.Alike q.scanner

namespace Outcome.Alike
variable {σ α β : Type} {p q : Outcome σ α}

theorem after (h : p.Alike q) {early late : List Event}
    (hlog : Lookahead.requests early = Lookahead.requests late) :
    (p.after early).Alike (q.after late) :=
  ⟨h.result, by simp [hlog, h.requests], h.scanner⟩

theorem map (h : p.Alike q) (f : α → β) : (p.map f).Alike (q.map f) :=
  ⟨congrArg (Except.map f) h.result, h.requests, h.scanner⟩

theorem bind (h : p.Alike q) {next : α → Scanner σ → Outcome σ β}
    (hnext : ∀ a, p.result = .ok a → (next a p.scanner).Alike (next a q.scanner)) :
    (p.bind next).Alike (q.bind next) := by
  cases hr : p.result with
  | ok a =>
    rw [bind_of_ok hr, bind_of_ok (h.result ▸ hr)]
    exact (hnext a hr).after h.requests
  | error fault =>
    rw [bind_of_error hr, bind_of_error (h.result ▸ hr)]
    exact ⟨rfl, h.requests, h.scanner⟩

end Outcome.Alike

namespace Scanner
variable {σ : Type} {s t : Scanner σ}

/-- A read makes the requests of one pull. -/
theorem requests_draw [Source σ] (s : Scanner σ) :
    requests s.draw.log = (Source.pull s.source s.window.spare).calls := by
  obtain ⟨notices, hlog, hidle⟩ := s.log_draw
  rw [hlog, requests_append, requests_of_idle hidle, List.append_nil, requests, List.filterMap_map]
  exact List.filterMap_some

/-- In the unchecked mode the contract of a swap is not tested. -/
theorem swapped_unchecked (s : Scanner σ) (size : Nat) :
    s.swapped .unchecked size = s.pool.exchange s.window.buffer s.retained
      (min s.consumed s.retained) size := by simp [swapped, Pool.swap]

namespace Alike

theorem refl (s : Scanner σ) : s.Alike s := ⟨rfl, rfl, rfl, rfl, rfl, rfl, rfl, rfl, rfl, rfl⟩

theorem symm (h : s.Alike t) : t.Alike s where
  source := h.source.symm
  status := h.status.symm
  limit := h.limit.symm
  origin := h.origin.symm
  bytes := h.bytes.symm
  spare := h.spare.symm
  lent := h.lent.symm
  fault := h.fault.symm
  start := h.start.symm
  frontier := h.frontier.symm

theorem trans {u : Scanner σ} (h : s.Alike t) (h' : t.Alike u) : s.Alike u where
  source := h.source.trans h'.source
  status := h.status.trans h'.status
  limit := h.limit.trans h'.limit
  origin := h.origin.trans h'.origin
  bytes := h.bytes.trans h'.bytes
  spare := h.spare.trans h'.spare
  lent := h.lent.trans h'.lent
  fault := h.fault.trans h'.fault
  start := h.start.trans h'.start
  frontier := h.frontier.trans h'.frontier

/-! ## What alike scanners show -/

theorem filled (h : s.Alike t) : s.window.filled = t.window.filled := congrArg List.length h.bytes

theorem size (h : s.Alike t) : s.window.size = t.window.size :=
  Window.size_congr h.fault (by rw [h.filled, h.spare])

theorem base (h : s.Alike t) : s.window.base = t.window.base := by
  rw [Window.base, Window.base, h.origin]

theorem stop (h : s.Alike t) : s.window.stop = t.window.stop := by
  rw [Window.stop, Window.stop, h.origin, h.filled]

theorem pos (h : s.Alike t) : s.pos = t.pos := by rw [Scanner.pos, Scanner.pos, h.start, h.frontier]

theorem selection (h : s.Alike t) : s.bytes = t.bytes := by
  rw [Scanner.bytes, Scanner.bytes, Window.segment, Window.segment, h.bytes, h.start, h.frontier]

theorem view (h : s.Alike t) : s.view = t.view := by
  simp only [Scanner.view, h.frontier, h.filled, h.size, h.selection]

theorem lentBytes? (h : s.Alike t) : s.lentBytes? = t.lentBytes? := by
  rw [Scanner.lentBytes?, Scanner.lentBytes?, h.lent, h.selection]

theorem isEof (h : s.Alike t) : s.isEof = t.isEof := by rw [Scanner.isEof, Scanner.isEof, h.status]

theorem err (h : s.Alike t) : s.err = t.err := by
  rw [Scanner.err, Scanner.err, h.status, h.filled, h.frontier]

theorem offset (h : s.Alike t) (mode : Mode) : s.offset mode = t.offset mode := by
  rw [Scanner.offset, Scanner.offset, h.base, h.start]

theorem frontierOffset (h : s.Alike t) : s.frontierOffset = t.frontierOffset := by
  rw [Scanner.frontierOffset, Scanner.frontierOffset, h.origin, h.frontier]

theorem byteAt (h : s.Alike t) (index : Nat) : s.window.byteAt index = t.window.byteAt index := by
  rw [Window.byteAt, Window.byteAt, h.bytes]

theorem look (h : s.Alike t) (index : Nat) : (s.look index).Alike (t.look index) := by
  rw [Scanner.look, Scanner.look, h.size, h.filled, h.byteAt]
  split
  · exact ⟨rfl, rfl, h⟩
  · exact ⟨rfl, rfl, h⟩

theorem retained (h : s.Alike t) : s.retained = t.retained := by
  rw [Scanner.retained, Scanner.retained, h.start, h.filled]

theorem residual (h : s.Alike t) : s.residual = t.residual := by
  rw [Scanner.residual, Scanner.residual, h.filled, h.retained]

theorem nextSize (h : s.Alike t) (residual : Nat) : s.nextSize residual = t.nextSize residual := by
  rw [Scanner.nextSize, Scanner.nextSize, h.size, h.limit]

/-! ## Looking ahead -/

/-- The next windows have the same size and the same contents, whatever their
storage. -/
theorem rebase (h : s.Alike t) (cs ct : Nat) (p q : Pool) (size : Nat) :
    (s.rebase ⟨s.window.bytes.drop s.retained, cs⟩ p size).Alike
      (t.rebase ⟨t.window.bytes.drop t.retained, ct⟩ q size) where
  source := h.source
  status := h.status
  limit := h.limit
  origin := by simp only [Scanner.rebase, Window.advance, h.origin, h.retained]
  bytes := by
    change s.window.bytes.drop s.retained = t.window.bytes.drop t.retained
    rw [h.bytes, h.retained]
  spare := by simp only [Scanner.rebase, Window.advance, Buffer.length, h.retained, h.bytes]
  lent := h.lent
  fault := h.fault
  start := by simp only [Scanner.rebase, h.start, h.retained]
  frontier := by simp only [Scanner.rebase, h.frontier, h.retained]

/-- Wherever the room comes from, a move looks the same. -/
theorem relocate (h : s.Alike t) {target : Nat}
    (hlog : Affordable (s.relocate .unchecked target).log) :
    (s.relocate .unchecked target).Alike (t.relocate .unchecked target) := by
  have hrequests : requests (s.relocate .unchecked target).log =
      requests (t.relocate .unchecked target).log := by
    rw [requests_relocate, requests_relocate]
  have hnext : t.nextSize t.residual = s.nextSize s.residual := by
    rw [h.nextSize, h.residual]
  cases hn : s.nextSize s.residual with
  | error limit =>
    have hs : s.relocate .unchecked target = s.refuse target limit := by simp [Scanner.relocate, hn]
    have ht : t.relocate .unchecked target = t.refuse target limit := by
      simp [Scanner.relocate, hnext, hn]
    rw [hs, ht]
    refine ⟨rfl, rfl, { h with status := ?_ }⟩
    simp only [refuse, h.status, h.origin, h.retained]
  | ok size =>
    have hsize := le_of_affordable_relocate hn hlog
    have hmode : Mode.unchecked ≠ .checked := by decide
    obtain ⟨cs, hs⟩ := relocate_of_swapped_eq (s.swapped_unchecked size) hn hsize
      (fun hm => absurd hm hmode) target
    obtain ⟨ct, ht⟩ := relocate_of_swapped_eq (t.swapped_unchecked size) (hnext.trans hn) hsize
      (fun hm => absurd hm hmode) target
    refine ⟨by rw [hs, ht], hrequests, ?_⟩
    rw [hs, ht]
    exact h.rebase ..

section
variable [Source σ]

/-- A read sees the same room and meets the same source. -/
theorem draw (h : s.Alike t) : s.draw.Alike t.draw := by
  have hpull : Source.pull s.source s.window.spare = Source.pull t.source t.window.spare := by
    rw [h.source, h.spare]
  refine ⟨by rw [result_draw, result_draw], by rw [requests_draw, requests_draw, hpull], ?_⟩
  cases hc : (Source.pull t.source t.window.spare).reply.count with
  | ok n =>
    rw [(draw_of_ok hc).1, (draw_of_ok (hpull ▸ hc)).1, hpull]
    refine { h with source := rfl, status := ?_, bytes := ?_, spare := rfl }
    · simp only [h.status]
    · exact congrArg (· ++ _) h.bytes
  | error error =>
    rw [(draw_of_error hc).1, (draw_of_error (hpull ▸ hc)).1, hpull]
    exact { h with source := rfl, status := by simp only [h.status], spare := rfl }

theorem refill (h : s.Alike t) {target : Nat}
    (hlog : Affordable (s.refill .unchecked target).log) :
    (s.refill .unchecked target).Alike (t.refill .unchecked target) := by
  rw [Scanner.refill, Scanner.refill, ← h.spare, ← h.size, ← h.filled] at *
  split
  · exact ⟨rfl, rfl, h⟩
  rename_i hroom
  rw [if_neg hroom] at hlog
  split
  · rename_i hs
    rw [if_pos hs] at hlog
    refine (h.relocate hlog.of_bind).bind fun _ _ => ?_
    have hmoved := (h.relocate hlog.of_bind).scanner
    rw [← hmoved.status]
    split
    · exact hmoved.draw
    · exact ⟨rfl, rfl, hmoved⟩
  · exact h.draw

/-- Filling takes the same passes. -/
theorem fill (h : s.Alike t) {target : Nat} (hlog : Affordable (s.fill .unchecked target).log) :
    (s.fill .unchecked target).Alike (t.fill .unchecked target) := by
  fun_induction Scanner.fill .unchecked s target generalizing t with
  | case1 s hmore pass fault =>
    rename_i hr
    have hpass : pass.Alike (t.refill .unchecked target) := h.refill hlog
    rw [fill_of_error (h.status ▸ hmore.1) (h.stop ▸ hmore.2) (hpass.result ▸ hr)]
    exact ⟨hr ▸ hpass.result, hpass.requests, hpass.scanner⟩
  | case2 s hmore pass =>
    rename_i hr ih
    rw [Outcome.log_after, affordable_append] at hlog
    have hpass : pass.Alike (t.refill .unchecked target) := h.refill hlog.1
    have ht := fill_of_ok (h.status ▸ hmore.1 : t.status.isActive = true)
      (h.stop ▸ hmore.2 : t.window.stop ≤ target) (hpass.result ▸ hr)
    rw [ht]
    exact (ih hpass.scanner hlog.2).after hpass.requests
  | case3 s hdone =>
    rw [h.status, h.stop] at hdone
    rw [fill_of_done hdone]
    exact ⟨rfl, rfl, h⟩

theorem peek (h : s.Alike t) {distance : Nat}
    (hlog : Affordable (s.peek .unchecked distance).log) :
    (s.peek .unchecked distance).Alike (t.peek .unchecked distance) := by
  rw [Scanner.peek, Scanner.peek, ← h.frontierOffset, ← h.frontier] at *
  split
  · rename_i hb
    rw [if_pos hb] at hlog
    refine (h.fill hlog.of_bind).bind fun _ _ => ?_
    have hfilled := (h.fill hlog.of_bind).scanner
    rw [hfilled.frontier]
    exact hfilled.look _
  · exact ⟨rfl, rfl, h⟩

theorem peekEach (h : s.Alike t) {distances : List Nat}
    (hlog : Affordable (s.peekEach .unchecked distances).log) :
    (s.peekEach .unchecked distances).Alike (t.peekEach .unchecked distances) := by
  induction distances generalizing s t with
  | nil => exact ⟨rfl, rfl, h⟩
  | cons distance distances ih =>
    rw [Scanner.peekEach] at hlog
    refine (h.peek hlog.of_bind).bind fun byte hr => ?_
    exact (ih (h.peek hlog.of_bind).scanner (hlog.of_bind_ok hr)).map _

theorem peekRune (h : s.Alike t) {distance : Nat}
    (hlog : Affordable (s.peekRune .unchecked distance).log) :
    (s.peekRune .unchecked distance).Alike (t.peekRune .unchecked distance) := by
  rw [Scanner.peekRune] at hlog
  refine (h.peek hlog.of_bind).bind fun lead hr => ?_
  exact ((h.peek hlog.of_bind).scanner.peekEach (hlog.of_bind_ok hr)).map _

end

/-! ## Every operation but freeing -/

theorem moveBy (h : s.Alike t) (delta : Int) :
    (s.moveBy .unchecked delta).Alike (t.moveBy .unchecked delta) := by
  simp only [Scanner.moveBy, Mode.not_unchecked_rejects, if_false]
  refine ⟨rfl, rfl, { h with frontier := ?_ }⟩
  rw [Outcome.scanner_pure, Outcome.scanner_pure, h.frontier, h.start]

theorem moveTo (h : s.Alike t) (n : Nat) : (s.moveTo n).Alike (t.moveTo n) := by
  refine { h with frontier := ?_ }
  rw [Scanner.moveTo, Scanner.moveTo, h.start]

theorem skip (h : s.Alike t) : s.skip.Alike t.skip := { h with start := h.frontier }

theorem shift (h : s.Alike t) : s.shift.Alike t.shift := ⟨h.view, rfl, h.skip⟩

theorem shiftToken (h : s.Alike t) (mode : Mode) :
    (s.shiftToken mode).Alike (t.shiftToken mode) := by
  rw [Scanner.shiftToken, Scanner.shiftToken, h.offset mode]
  split
  · exact h.shift.map _
  · exact ⟨rfl, rfl, h⟩

theorem shiftLent? (h : s.Alike t) : s.shiftLent?.Alike t.shiftLent? := by
  rw [Scanner.shiftLent?, Scanner.shiftLent?, h.lentBytes?]
  split
  · exact ⟨rfl, rfl, h.skip⟩
  · exact ⟨rfl, rfl, h⟩

/-- Alike scanners answer alike and stay alike. -/
theorem apply [Source σ] (h : s.Alike t) {op : Op} (hop : op.frees = false)
    (hlog : Affordable (s.apply .unchecked op).log) :
    (s.apply .unchecked op).Alike (t.apply .unchecked op) := by
  cases op with
  | peek distance => exact (h.peek hlog).map _
  | peekRune distance => exact (h.peekRune hlog).map _
  | moveBy delta => exact (h.moveBy delta).map _
  | moveTo n => exact ⟨rfl, rfl, h.moveTo n⟩
  | bytes => exact ⟨congrArg (Except.map Answer.bytes) h.view, rfl, h⟩
  | shift => exact h.shift.map _
  | shiftToken => exact (h.shiftToken .unchecked).map _
  | skip => exact ⟨rfl, rfl, h.skip⟩
  | free n => exact nomatch hop
  | lentBytes => exact ⟨congrArg (Except.ok <| Answer.lent ·) h.lentBytes?, rfl, h⟩
  | shiftLent => exact h.shiftLent?.map _

end Alike

/-! ## Runs -/

/-- Freeing changes nothing that shows. -/
theorem alike_free (mode : Mode) (s : Scanner σ) (n : Nat) :
    s.Alike (s.free mode n).scanner := by
  rw [free, consume]
  split
  · exact ⟨rfl, rfl, rfl, rfl, rfl, rfl, rfl, rfl, rfl, rfl⟩
  · split
    · exact ⟨rfl, rfl, rfl, rfl, rfl, rfl, rfl, rfl, rfl, rfl⟩
    · exact ⟨rfl, rfl, rfl, rfl, rfl, rfl, rfl, rfl, rfl, rfl⟩

variable [Source σ]

/-- The outcomes of a list of operations, less those of freeing. -/
def shown (mode : Mode) (scanner : Scanner σ) : List Op → List (Outcome σ Answer)
  | [] => []
  | op :: ops =>
    let outcome := scanner.apply mode op
    if op.frees then outcome.scanner.shown mode ops
    else outcome :: outcome.scanner.shown mode ops

theorem shown_append (mode : Mode) (scanner : Scanner σ) (first last : List Op) :
    scanner.shown mode (first ++ last) =
      scanner.shown mode first ++ (scanner.after mode first).1.shown mode last := by
  induction first generalizing scanner with
  | nil => rfl
  | cons op ops ih =>
    rw [List.cons_append, shown, shown, after]
    by_cases hf : op.frees = true
    · simp only [if_pos hf, ih]
    · simp only [if_neg hf, ih, List.cons_append]

/-- What an operation that frees leaves behind. -/
theorem alike_apply_of_frees (mode : Mode) (s : Scanner σ) {op : Op} (hop : op.frees = true) :
    s.Alike (s.apply mode op).scanner ∧ requests (s.apply mode op).log = [] := by
  cases op with
  | free n => exact ⟨alike_free mode s n, (quiet_free mode s n).requests_eq⟩
  | _ => exact nomatch hop

/-- A run that frees only shows nothing. -/
theorem alike_after_of_frees (mode : Mode) (s : Scanner σ) {ops : List Op}
    (hops : ∀ op ∈ ops, op.frees = true) :
    s.Alike (s.after mode ops).1 ∧ requests (s.after mode ops).2 = [] ∧ s.shown mode ops = [] := by
  induction ops generalizing s with
  | nil => exact ⟨.refl s, rfl, rfl⟩
  | cons op ops ih =>
    obtain ⟨hop, hrest⟩ := List.forall_mem_cons.1 hops
    obtain ⟨halike, hrequests⟩ := alike_apply_of_frees mode s hop
    obtain ⟨ha, hr, hs⟩ := ih (s.apply mode op).scanner hrest
    refine ⟨halike.trans ha, ?_, ?_⟩
    · rw [after, requests_append, hrequests, hr, List.append_nil]
    · rw [shown, if_pos hop, hs]

/-- Alike scanners show the same along runs that differ in freeing only. -/
theorem Alike.run (h : s.Alike t) {first last : List Op}
    (hops : withoutFrees first = withoutFrees last)
    (hlog : Affordable (s.after .unchecked first).2) :
    List.Forall₂ Outcome.Alike (s.shown .unchecked first) (t.shown .unchecked last) ∧
      requests (s.after .unchecked first).2 = requests (t.after .unchecked last).2 ∧
      (s.after .unchecked first).1.Alike (t.after .unchecked last).1 := by
  induction first generalizing s t last with
  | nil =>
    have hfrees : ∀ op ∈ last, op.frees = true := by
      simpa using List.filter_eq_nil_iff.1 hops.symm
    obtain ⟨ha, hr, hs⟩ := alike_after_of_frees .unchecked t hfrees
    refine ⟨?_, hr.symm, h.trans ha⟩
    rw [hs]
    exact .nil
  | cons op first ih =>
    obtain ⟨hop, hrest⟩ := affordable_append.1 hlog
    by_cases hf : op.frees = true
    · -- freeing on the one side is made up for by nothing on the other
      obtain ⟨ha, hr⟩ := alike_apply_of_frees .unchecked s hf
      obtain ⟨hshown, hrequests, halike⟩ :=
        ih (ha.symm.trans h) (by simpa [withoutFrees, hf] using hops) hrest
      refine ⟨?_, ?_, halike⟩
      · rwa [shown, if_pos hf]
      · rw [after, requests_append, hr, List.nil_append, hrequests]
    · -- the other side frees before it comes to the same operation
      rw [withoutFrees, List.filter_cons_of_pos (by simpa using hf)] at hops
      obtain ⟨frees, rest, rfl, hfrees, -, hfilter⟩ := List.filter_eq_cons_iff.1 hops.symm
      have hfree : ∀ op ∈ frees, op.frees = true := by simpa using hfrees
      obtain ⟨ha, hr, hs⟩ := alike_after_of_frees .unchecked t hfree
      have happly := (h.trans ha).apply (by simpa using hf) hop
      obtain ⟨hshown, hrequests, halike⟩ := ih happly.scanner hfilter.symm hrest
      rw [after_append, shown_append, hs, List.nil_append, shown, shown, if_neg hf, if_neg hf]
      refine ⟨.cons happly hshown, ?_, halike⟩
      simp only [after, requests_append, hr, List.nil_append, happly.requests, hrequests]

/-- **Freeing is invisible.** Two unchecked runs over the same source that differ
only in what they free and when give the same results, make the same requests with
the same room, contents included, and end in scanners that differ in nothing but
what is freed and where it is kept. -/
theorem freeing_invisible {config : Config} {source : σ} (hvalid : config.Valid)
    (hinitial : config.initialCapacity ≤ Word.maxAllocation) :
    ∃ built, ofSource .unchecked config source = .ok built ∧
      ∀ first last : List Op,
        withoutFrees first = withoutFrees last →
        Affordable (built.log ++ (built.scanner.after .unchecked first).2) →
        List.Forall₂
            (fun p q => p.result = q.result ∧ requests p.log = requests q.log ∧
              p.scanner.pos = q.scanner.pos ∧
              p.scanner.offset .unchecked = q.scanner.offset .unchecked ∧
              p.scanner.err = q.scanner.err ∧ p.scanner.isEof = q.scanner.isEof ∧
              p.scanner.Alike q.scanner)
            (built.scanner.shown .unchecked first) (built.scanner.shown .unchecked last) ∧
          requests (built.scanner.after .unchecked first).2 =
            requests (built.scanner.after .unchecked last).2 ∧
          (built.scanner.after .unchecked first).1.Alike
            (built.scanner.after .unchecked last).1 := by
  refine ⟨_, ofSource_eq_ok_iff.2 ⟨hvalid, hinitial, rfl⟩, fun first last hops hlog => ?_⟩
  obtain ⟨-, hrun⟩ := affordable_append.1 hlog
  obtain ⟨hshown, hrequests, halike⟩ := (Alike.refl _).run hops hrun
  refine ⟨hshown.imp fun p q h => ?_, hrequests, halike⟩
  exact ⟨h.result, h.requests, h.scanner.pos, h.scanner.offset .unchecked, h.scanner.err,
    h.scanner.isEof, h.scanner⟩

/-- A token freed at once slides down in its buffer, one that is not is parked: the
pools differ, and nothing else shows. -/
theorem freeing_invisible_parked :
    let source : Source.Scripted := { data := [1, 2, 3, 4, 5, 6, 7, 8], pace? := some 3 }
    let built := (unread { initialCapacity := 4 } source).peek .unchecked 0
    let first := [.moveTo 3, .skip, .free 3, .peek 4, .moveTo 2, .shift]
    let last := [.moveTo 3, .skip, .peek 4, .free 1, .moveTo 2, .shift, .free 9]
    let s := built.scanner.after .unchecked first
    let t := built.scanner.after .unchecked last
    s.1.pool ≠ t.1.pool ∧ requests s.2 = requests t.2 ∧ s.1.Alike t.1 := by
  intro source built first last s t
  let config : Config := { initialCapacity := 4 }
  have hvalid : config.Valid := ⟨by decide, nofun⟩
  obtain ⟨_, hbuilt, halike⟩ : ∃ built, ofSource .unchecked config source = .ok built ∧ _ :=
    freeing_invisible hvalid (by decide)
  obtain ⟨-, -, rfl⟩ := ofSource_eq_ok_iff.1 hbuilt
  exact ⟨by decide +kernel, (halike first last (by decide) (by decide +kernel)).2⟩

end Scanner
end Lookahead

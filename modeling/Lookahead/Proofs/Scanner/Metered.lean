import Lookahead.Proofs.Scanner.Follows
import Lookahead.Proofs.Scanner.Sizes
import Mathlib.Algebra.Order.Ring.Nat

/-!
# Metered logs

A log tells which window each request was lent room of: moves announce the size of the
window that follows and how much of it is filled, and answers tell how much was filled
since. Read along a log, a `Meter` keeps this account, together with all that was
delivered and whether the source has ended. A request is due if the source has not
ended, and is lent all the room that is left, which is not empty.

As long as the window is kept, every pass makes due requests only, and none after one
that delivered something. What the meter shows at the end of a log is the scanner that the
log led to.

## Main definitions

* `Reply.gain`, `Reply.ends` and `Event.ends`: what an answer brings, and which is the
  last.
* `Meter`, with `Meter.read` and `Meter.Allows`.
* `Meter.Due`: what is asked of a request.
* `Scanner.Metered`: an outcome whose requests are of a kind.

## Main statements

* `Scanner.Sound.metered_refill`: the requests of one pass.
* `Scanner.Sound.metered_run`: the requests of a run are due.
* `Scanner.Sound.allows_fill`: a position is filled by no request too many.
-/
namespace Lookahead

/-! ## Answers -/

/-- The number of bytes delivered: none if the read failed. -/
def Reply.gain (reply : Reply) : Nat := reply.count.toOption.getD 0

/-- Whether the source has ended with an answer: it delivers nothing, or fails and was
not just interrupted. -/
def Reply.ends (reply : Reply) : Bool :=
  match reply.count with
  | .ok n => n == 0
  | .error error => !error.isInterruption

/-- An interruption neither delivers nor ends anything. -/
theorem Reply.gain_ends_of_isInterruption {reply : Reply} (h : reply.isInterruption = true) :
    reply.gain = 0 ∧ reply.ends = false := by
  cases hc : reply.count with
  | ok n => simp [isInterruption, hc] at h
  | error error =>
    have herror : error.isInterruption = true := by simpa [isInterruption, hc] using h
    simp [gain, ends, hc, Except.toOption, herror]

/-- Whether the source is not to be asked again after an event. -/
def Event.ends : Event → Bool
  | read call => call.reply.ends
  | refused _ _ => true
  | _ => false

/-- The number of bytes delivered in the course of a log. -/
def gained (log : List Event) : Nat := ((requests log).map (·.reply.gain)).sum

@[simp] theorem gained_append (first last : List Event) :
    gained (first ++ last) = gained first + gained last := by simp [gained]

theorem gained_of_requests {log : List Event} (h : requests log = []) : gained log = 0 := by
  simp [gained, h]

/-- A log with a request can be split there. -/
theorem exists_read_of_requests {log : List Event} (h : requests log ≠ []) :
    ∃ early call late, log = early ++ .read call :: late := by
  obtain ⟨call, hcall⟩ := List.exists_mem_of_ne_nil _ h
  obtain ⟨event, hevent, hread⟩ := List.mem_filterMap.1 hcall
  obtain ⟨early, late, rfl⟩ := List.append_of_mem hevent
  cases event with
  | read call => exact ⟨early, call, late, rfl⟩
  | _ => cases hread

/-! ## Meters -/

/-- What a log tells about a window and its source. -/
structure Meter where
  /-- The size of the window. -/
  size : Nat
  /-- How much of it is filled. -/
  filled : Nat
  /-- How much was delivered from the start. -/
  delivered : Nat
  /-- Whether the source has ended. -/
  ended : Bool
deriving DecidableEq

namespace Meter

/-- Before anything has happened. -/
def start (size : Nat) : Meter := ⟨size, 0, 0, false⟩

/-- What an event changes. -/
def after (meter : Meter) : Event → Meter
  | .read call =>
    { meter with
      filled := meter.filled + call.reply.gain
      delivered := meter.delivered + call.reply.gain
      ended := meter.ended || call.reply.ends }
  | .relocating residual _ size _ => { meter with size, filled := residual }
  | .refused _ _ => { meter with ended := true }
  | _ => meter

/-- What the meter shows at the end of a log. -/
def read (meter : Meter) (log : List Event) : Meter := log.foldl after meter

/-- All requests in a log are of a kind, given what the meter shows then. -/
def Allows (kind : Meter → Source.Call → Prop) (meter : Meter) : List Event → Prop
  | [] => True
  | event :: log => (∀ call ∈ event.call?, kind meter call) ∧ (meter.after event).Allows kind log

/-- The source has not ended, and a request is lent all the room that is left. There is
some, and no more than a limit, if there is one. -/
structure Due (limit? : Option Nat) (meter : Meter) (call : Source.Call) : Prop where
  ended_eq : meter.ended = false
  room_eq : call.room.length = meter.size - meter.filled
  room_pos : 0 < call.room.length
  room_le : ∀ limit ∈ limit?, call.room.length ≤ limit

variable {kind : Meter → Source.Call → Prop} {meter : Meter} {log first last : List Event}

theorem read_append : meter.read (first ++ last) = (meter.read first).read last :=
  List.foldl_append

theorem allows_append : meter.Allows kind (first ++ last) ↔
    meter.Allows kind first ∧ (meter.read first).Allows kind last := by
  induction first generalizing meter with
  | nil => simp [Allows, read]
  | cons event first ih =>
    rw [List.cons_append, Allows, ih, Allows, and_assoc]
    rfl

theorem Allows.mono {weaker : Meter → Source.Call → Prop} (h : meter.Allows kind log)
    (hk : ∀ meter call, kind meter call → weaker meter call) : meter.Allows weaker log := by
  induction log generalizing meter with
  | nil => trivial
  | cons event log ih => exact ⟨fun call hc => hk _ _ (h.1 call hc), ih h.2⟩

/-- What is not a request is allowed in front. -/
theorem Allows.cons {event : Event} (h : (meter.after event).Allows kind log)
    (hevent : event.call? = none) : meter.Allows kind (event :: log) := by
  refine ⟨fun call hc => ?_, h⟩
  rw [hevent] at hc
  cases hc

/-- Each request in a log is of the kind. -/
theorem Allows.at {early late : List Event} {call : Source.Call}
    (h : meter.Allows kind (early ++ .read call :: late)) : kind (meter.read early) call :=
  (allows_append.1 h).2.1 call rfl

/-- The meter counts what is delivered. -/
theorem delivered_read (meter : Meter) (log : List Event) :
    (meter.read log).delivered = meter.delivered + gained log := by
  induction log generalizing meter with
  | nil => rfl
  | cons event log ih =>
    have hone : (meter.after event).delivered = meter.delivered + gained [event] := by
      cases event with
      | read call => simp [after, gained, requests, Event.call?]
      | _ => rfl
    rw [← List.singleton_append, read_append, ih, gained_append, ← Nat.add_assoc, ← hone]
    rfl

/-- It shows whether the source has ended. -/
theorem ended_read (meter : Meter) (log : List Event) :
    (meter.read log).ended = (meter.ended || log.any Event.ends) := by
  induction log generalizing meter with
  | nil => simp [read]
  | cons event log ih =>
    have hone : (meter.after event).ended = (meter.ended || event.ends) := by
      cases event with
      | read call => rfl
      | refused requested limit => simp [after, Event.ends]
      | _ => simp [after, Event.ends]
    rw [← List.singleton_append, read_append, ih, List.any_append, ← Bool.or_assoc]
    congr 1
    simpa [read] using hone

variable (kind) in
/-- Idle events do not matter. -/
theorem read_of_idle (meter : Meter) (h : ∀ event ∈ log, event.Idle) :
    meter.read log = meter ∧ meter.Allows kind log := by
  induction log with
  | nil => exact ⟨rfl, trivial⟩
  | cons event log ih =>
    obtain ⟨hevent, hlog⟩ := List.forall_mem_cons.1 h
    have hsame : meter.after event = meter := by
      cases event with
      | read call => cases hevent.call
      | relocating residual capacity size parked => cases hevent.size
      | refused requested limit => cases hevent.computed
      | _ => rfl
    obtain ⟨hread, hallows⟩ := ih hlog
    refine ⟨?_, .cons ?_ hevent.call⟩
    · rw [← List.singleton_append, read_append, show meter.read [event] = meter from hsame, hread]
    · rw [hsame]
      exact hallows

variable (kind) in
/-- The requests of one read: interruptions change nothing, and only the last may deliver
something or end the source. -/
theorem read_calls {σ : Type} [Source σ] (meter : Meter) (source : σ) (room : List UInt8)
    (hopen : meter.ended = false)
    (hkind : ∀ call, call.room.length = room.length → kind meter call) :
    let pulled := Source.pull source room
    meter.Allows kind (pulled.calls.map .read) ∧
      meter.read (pulled.calls.map .read) =
        { meter with
          filled := meter.filled + pulled.reply.gain
          delivered := meter.delivered + pulled.reply.gain
          ended := pulled.reply.ends } := by
  fun_induction Source.pull source room with
  | case1 source room answer hi later ih =>
    obtain ⟨hgain, hends⟩ := Reply.gain_ends_of_isInterruption hi
    have hsame : meter.after (.read ⟨room, answer.1⟩) = meter := by
      simp [after, hgain, hends]
    have hlength : answer.1.room.length = room.length := Source.length_room source room
    obtain ⟨hallows, hread⟩ := ih fun call hc => hkind call (hc.trans hlength)
    refine ⟨⟨fun call hc => ?_, ?_⟩, ?_⟩
    · cases hc
      exact hkind _ rfl
    · rw [hsame]
      exact hallows
    · rw [List.map_cons, ← List.singleton_append, read_append,
        show meter.read [.read ⟨room, answer.1⟩] = meter from hsame]
      exact hread
  | case2 source room answer hi =>
    refine ⟨⟨fun call hc => ?_, trivial⟩, ?_⟩
    · cases hc
      exact hkind _ rfl
    · simp [read, after, hopen]

end Meter

namespace Scanner

variable {σ α : Type} {scanner : Scanner σ} {delivered : List UInt8} {mode : Mode}
  {meter : Meter} {target : Nat}

/-- A meter shows the window of a scanner, and that the source has ended only if it is
not active. -/
structure Shown (scanner : Scanner σ) (meter : Meter) : Prop where
  size_eq : meter.size = scanner.window.size
  filled_eq : meter.filled = scanner.window.filled
  delivered_eq : meter.delivered = scanner.window.stop
  ended_eq : scanner.status.isActive = true → meter.ended = false

/-- An outcome whose requests are of a kind, and that leads to what the meter shows. -/
structure Metered (kind : Meter → Source.Call → Prop) (meter : Meter)
    (outcome : Outcome σ α) : Prop where
  allows : meter.Allows kind outcome.log
  shown : outcome.scanner.Shown (meter.read outcome.log)

theorem shown_unread (config : Config) (source : σ) :
    (unread config source).Shown (.start config.initialCapacity) where
  size_eq := (Window.size_vacant _).symm
  filled_eq := rfl
  delivered_eq := rfl
  ended_eq := fun _ => rfl

section
variable {kind : Meter → Source.Call → Prop} {β : Type}

theorem Shown.metered_pure (h : scanner.Shown meter) (a : α) :
    Metered kind meter (.pure a scanner) := ⟨trivial, h⟩

theorem Metered.after {first : Outcome σ α} {last : Outcome σ β} (h : Metered kind meter first)
    (h' : Metered kind (meter.read first.log) last) : Metered kind meter (last.after first.log) :=
  ⟨Meter.allows_append.2 ⟨h.allows, h'.allows⟩, by
    rw [Outcome.log_after, Meter.read_append]
    exact h'.shown⟩

theorem Metered.mono {weaker : Meter → Source.Call → Prop} {outcome : Outcome σ α}
    (h : Metered kind meter outcome) (hk : ∀ meter call, kind meter call → weaker meter call) :
    Metered weaker meter outcome := ⟨h.allows.mono hk, h.shown⟩

end

/-! ## Passes -/

/-- A move makes no request. The meter shows the window that follows, or the refusal. -/
theorem Sound.metered_relocate (h : scanner.Sound delivered) (hm : scanner.Shown meter)
    (ha : scanner.status.isActive = true)
    (hk : (scanner.relocate mode target).scanner.window.Kept)
    (kind : Meter → Source.Call → Prop) :
    Metered kind meter (scanner.relocate mode target) := by
  have hstop := stop_relocate (result_relocate_of_kept hk)
  have hbefore := (inherits_relocate mode scanner target).kept hk
  rcases relocate_cases_of_kept hk with ⟨limit, -, hr⟩ | ⟨size, buffer, hn, hb, hr⟩
  · rw [hr]
    refine ⟨.cons trivial rfl, hm.size_eq, hm.filled_eq, hm.delivered_eq, fun hactive => ?_⟩
    simp [refuse] at hactive
  · rw [hr] at hstop ⊢
    have hbytes := Pool.bytes_of_swap hb
    obtain ⟨hread, hallows⟩ := (meter.after (scanner.moving size)).read_of_idle kind
      (Pool.idle_swap mode scanner.pool scanner.window.buffer scanner.retained
        (min scanner.consumed scanner.retained) size)
    refine ⟨.cons hallows rfl, ?_⟩
    rw [Meter.read, List.foldl_cons, ← Meter.read, swapped, hread]
    constructor
    case size_eq =>
      exact (size_rebase hbefore hbytes (residual_lt_nextSize hn hbefore (h.room hbefore ha))).symm
    case filled_eq => exact (length_eq_residual hbytes).symm
    case delivered_eq => exact hm.delivered_eq.trans hstop.symm
    case ended_eq => exact hm.ended_eq

variable [Source σ]

/-- A read fills the window by what is delivered, and ends the source with its answer. -/
theorem Shown.draw (hm : scanner.Shown meter) :
    let pulled := Source.pull scanner.source scanner.window.spare
    scanner.draw.scanner.Shown
      { meter with
        filled := meter.filled + pulled.reply.gain
        delivered := meter.delivered + pulled.reply.gain
        ended := pulled.reply.ends } := by
  intro pulled
  have hlength : pulled.reply.room.length = scanner.window.spare.length :=
    Source.pull_length_room ..
  cases hc : pulled.reply.count with
  | ok n =>
    have hn : n ≤ pulled.reply.room.length := hlength ▸ Source.pull_count_le hc
    have hgain : pulled.reply.gain = n := by simp [Reply.gain, hc, Except.toOption]
    have hends : pulled.reply.ends = (n == 0) := by simp [Reply.ends, hc]
    rw [(draw_of_ok hc).1, hgain, hends]
    constructor
    case size_eq => exact hm.size_eq.trans (Window.size_accept _ hn hlength).symm
    case filled_eq =>
      simp only [Window.accept, Window.filled, Buffer.length_append, hm.filled_eq]
      exact congrArg _ (List.length_take_of_le hn).symm
    case delivered_eq =>
      simp only [hm.delivered_eq]
      exact (Window.stop_accept _ hn).symm
    case ended_eq =>
      intro hactive
      by_cases hz : n = 0
      · simp [hz] at hactive
      · simp [hz]
  | error error =>
    have hgain : pulled.reply.gain = 0 := by simp [Reply.gain, hc, Except.toOption]
    rw [(draw_of_error hc).1, hgain]
    constructor
    case size_eq =>
      refine hm.size_eq.trans (Window.size_congr rfl ?_)
      exact congrArg (scanner.window.filled + ·) hlength.symm
    case filled_eq => exact hm.filled_eq
    case delivered_eq => exact hm.delivered_eq
    case ended_eq =>
      intro hactive
      simp at hactive

/-- The requests of one read are due, and all are made before anything is delivered. -/
theorem Sound.metered_draw (h : scanner.Sound delivered) (hm : scanner.Shown meter)
    (hk : scanner.window.Kept) (ha : scanner.status.isActive = true)
    (hroom : scanner.window.spare ≠ []) :
    Metered (fun here call => here.Due scanner.limit? call ∧ here.delivered = meter.delivered)
      meter scanner.draw := by
  obtain ⟨notices, hlog, hidle⟩ := scanner.log_draw
  let kind : Meter → Source.Call → Prop :=
    fun here call => here.Due scanner.limit? call ∧ here.delivered = meter.delivered
  obtain ⟨hallows, hread⟩ := meter.read_calls kind scanner.source scanner.window.spare
    (hm.ended_eq ha) fun call hlength => by
      have hspare := List.length_pos_iff.2 hroom
      have hsize := hk.size_eq
      have heq := hm.size_eq
      have hfilled := hm.filled_eq
      refine ⟨⟨hm.ended_eq ha, by omega, by omega, fun limit hl => ?_⟩, rfl⟩
      have hwithin := h.within limit hl
      omega
  have hquiet := (meter.read ((Source.pull scanner.source scanner.window.spare).calls.map
    .read)).read_of_idle kind hidle
  constructor
  case allows =>
    rw [hlog]
    exact Meter.allows_append.2 ⟨hallows, hquiet.2⟩
  case shown =>
    rw [hlog, Meter.read_append, hquiet.1, hread]
    exact hm.draw

/-- **The requests of one pass** are due, and all are made before anything is
delivered. -/
theorem Sound.metered_refill (h : scanner.Sound delivered) (hm : scanner.Shown meter)
    (ha : scanner.status.isActive = true)
    (hk : (scanner.refill mode target).scanner.window.Kept) :
    Metered (fun here call => here.Due scanner.limit? call ∧ here.delivered = meter.delivered)
      meter (scanner.refill mode target) := by
  have hbefore := (inherits_refill mode scanner target).kept hk
  rw [refill_of_kept hbefore] at hk ⊢
  by_cases hfull : scanner.window.spare = []
  · rw [if_pos hfull] at hk ⊢
    have hkm := kept_bind_relocate hk
    have hmoved := h.reading_relocate hbefore.filled_le ha mode target
    have hmetered := h.metered_relocate hm ha hkm
      fun here call => here.Due scanner.limit? call ∧ here.delivered = meter.delivered
    rw [Outcome.bind_of_ok (result_relocate_of_kept hkm)]
    refine hmetered.after ?_
    split
    · rename_i hactive
      -- a move delivers nothing
      have hsame : (meter.read (scanner.relocate mode target).log).delivered = meter.delivered := by
        rw [Meter.delivered_read, gained_of_requests (scanner.requests_relocate mode target),
          Nat.add_zero]
      rw [← hsame, ← hmoved.steady.limit]
      exact hmoved.sound.metered_draw hmetered.shown hkm hactive
        (h.spare_of_relocate ha hkm hactive)
    · exact hmetered.shown.metered_pure ()
  · rw [if_neg hfull]
    exact h.metered_draw hm hbefore ha hfull

/-- The requests of passes are due. -/
theorem Sound.metered_passes (h : scanner.Sound delivered) (hm : scanner.Shown meter)
    {outcome : Outcome σ Unit} (hp : Passes mode scanner outcome)
    (hk : outcome.scanner.window.Kept) : Metered (Meter.Due scanner.limit?) meter outcome := by
  induction hp with
  | none => exact hm.metered_pure ()
  | stuck _ hlost => exact absurd hk hlost
  | more hp _ ha _ ih =>
    have hearly := ih ((inherits_refill mode _ _).kept hk)
    obtain ⟨hsound, hsteady⟩ := h.passes hp
    refine hearly.after ?_
    rw [← hsteady.limit]
    exact (hsound.metered_refill hearly.shown ha hk).mono fun _ _ hdue => hdue.1

/-- A pass is made while the position is missing, and nothing is delivered in it before its
requests. -/
theorem Sound.metered_missing (h : scanner.Sound delivered) (hm : scanner.Shown meter)
    (hmore : scanner.status.isActive = true ∧ scanner.window.stop ≤ target)
    (hk : (scanner.refill mode target).scanner.window.Kept) :
    Metered (fun here _ => here.delivered ≤ target) meter (scanner.refill mode target) := by
  refine (h.metered_refill hm hmore.1 hk).mono fun here call hdue => ?_
  rw [hdue.2, hm.delivered_eq]
  exact hmore.2

/-- **No request too many**: when a position is filled, every request is made before the
position is reached. -/
theorem Sound.allows_fill (h : scanner.Sound delivered) (hm : scanner.Shown meter)
    (hk : (scanner.fill mode target).scanner.window.Kept) :
    meter.Allows (fun here _ => here.delivered ≤ target) (scanner.fill mode target).log := by
  fun_induction fill mode scanner target generalizing delivered meter with
  | case1 scanner hmore pass fault => exact (h.metered_missing hm hmore hk).allows
  | case2 scanner hmore pass =>
    rename_i hr ih
    have hfirst := h.metered_missing hm hmore ((passes_fill _ target).inherits.kept hk)
    have hsound := (h.reading_refill hmore.1 mode target).sound
    exact Meter.allows_append.2 ⟨hfirst.allows, ih hsound hfirst.shown hk⟩
  | case3 scanner hdone => trivial

/-! ## Runs -/

theorem Sound.metered_apply (h : scanner.Sound delivered) (hm : scanner.Shown meter) {op : Op}
    (hk : (scanner.apply mode op).scanner.window.Kept) :
    Metered (Meter.Due scanner.limit?) meter (scanner.apply mode op) := by
  rcases passes_or_quiet mode scanner op with hp | hq
  · obtain ⟨hallows, hshown⟩ := h.metered_passes hm hp hk
    exact ⟨hallows, hshown⟩
  · obtain ⟨hread, hallows⟩ := meter.read_of_idle (Meter.Due scanner.limit?) hq.log
    refine ⟨hallows, ?_⟩
    rw [hread]
    exact ⟨hq.window ▸ hm.size_eq, hq.window ▸ hm.filled_eq, hq.window ▸ hm.delivered_eq,
      hq.status ▸ hm.ended_eq⟩

/-- **The requests of a run are due**, and the meter shows where it ends. -/
theorem Sound.metered_run (h : scanner.Sound delivered) (hm : scanner.Shown meter) {ops : List Op}
    (hk : (scanner.after mode ops).1.window.Kept) :
    meter.Allows (Meter.Due scanner.limit?) (scanner.after mode ops).2 ∧
      (scanner.after mode ops).1.Shown (meter.read (scanner.after mode ops).2) := by
  induction ops using List.reverseRecOn with
  | nil => exact ⟨trivial, hm⟩
  | append_singleton ops op ih =>
    obtain ⟨hallows, hshown⟩ := ih (kept_of_after hk)
    rw [after_concat] at hk ⊢
    have hlast := (h.run mode ops).metered_apply hshown hk
    rw [limit_after h ops] at hlast
    rw [Meter.allows_append, Meter.read_append]
    exact ⟨⟨hallows, hlast.allows⟩, hlast.shown⟩

end Scanner
end Lookahead

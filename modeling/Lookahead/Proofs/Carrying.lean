import Lookahead.Proofs.Scanner.Sizes
import Lookahead.Source.Scripted
import Mathlib.Algebra.BigOperators.Group.List.Basic
import Mathlib.Algebra.Order.Ring.Nat

/-!
# What moves carry over

Every move of the window copies the bytes of the token to the front of the next one. A token
may be carried over many times, and yet all the copies together are no more than twice the
bytes read, because the window moves only when it is full and the next one has room for as
many bytes as are carried over. So a move is paid for by the bytes that have to be read
before there can be another. Without a limit that is so whether the window keeps its size or
grows.

A log is read from the end, with the number of bytes that are still to be read before the
window is full again. A move needs this to be zero and a read makes it smaller.

## Main definitions

* `Event.carried`, `Event.room` and `carried`: the bytes that moves carry over and make room
  for.
* `Paced`: logs in which the window moves only when it is full.
* `Linear`: logs in which the moves carry over no more than is read twice.
* `Scanner.Carries`: the log of a scanner without a limit is of this kind.

## Main statements

* `Paced.carried_le`: the bytes read and the room that is left pay for all moves.
* `Paced.room_le`: between two moves the room that the first made is filled.
* `Scanner.Sound.carries_after`: without a limit all runs are paced.
* `Scanner.carried_linear`: all that moves carry over, against all that is read.
-/
namespace Lookahead

/-- The number of bytes that a move of the window carries over. -/
def Event.carried : Event → Nat
  | relocating residual _ _ _ => residual
  | _ => 0

/-- The number of bytes that there is room for behind those carried over. -/
def Event.room : Event → Nat
  | relocating residual _ size _ => size - residual
  | _ => 0

/-- The number of bytes that the moves in a log carry over, all together. -/
def carried (log : List Event) : Nat := (log.map Event.carried).sum

theorem carried_append (first last : List Event) :
    carried (first ++ last) = carried first + carried last := by simp [carried]

@[simp] theorem carried_concat (log : List Event) (event : Event) :
    carried (log ++ [event]) = carried log + event.carried := by simp [carried]

theorem Event.carried_of_size {event : Event} (h : event.size? = none) : event.carried = 0 := by
  cases event with
  | relocating residual capacity size parked => cases h
  | _ => rfl

theorem Event.room_of_size {event : Event} (h : event.size? = none) : event.room = 0 := by
  cases event with
  | relocating residual capacity size parked => cases h
  | _ => rfl

/-- A window that follows is at least twice as large as what is carried over. -/
theorem Window.two_mul_le_growth {size residual : Nat} (h : residual ≤ size) :
    2 * residual ≤ growth size residual := by
  rw [growth]
  split <;> omega

/-! ## Logs -/

/-- The window moves only when it is full, with bytes that were read, and the next one has
room for as many. The number is of the bytes that are to be read before it is full. -/
inductive Paced : List Event → Nat → Prop
  | start (room : Nat) : Paced [] room
  | move {log : List Event} {residual size : Nat} (capacity parked : Nat) :
    Paced log 0 → residual ≤ (deliveredBytes log).length → 2 * residual ≤ size →
    Paced (log ++ [.relocating residual capacity size parked]) (size - residual)
  | other {log : List Event} {event : Event} {owed : Nat} :
    Paced log (event.delivered.length + owed) → event.size? = none → Paced (log ++ [event]) owed

namespace Paced

variable {log late : List Event} {owed : Nat}

/-- Events that announce no window bring the next move nearer by the bytes they deliver. -/
theorem append (h : Paced log ((deliveredBytes late).length + owed))
    (hlate : ∀ event ∈ late, event.size? = none) : Paced (log ++ late) owed := by
  induction late using List.reverseRecOn generalizing owed with
  | nil => simpa using h
  | append_singleton late event ih =>
    rw [List.forall_mem_append, List.forall_mem_singleton] at hlate
    have hdelivered : (deliveredBytes (late ++ [event])).length + owed =
        (deliveredBytes late).length + (event.delivered.length + owed) := by simp [Nat.add_assoc]
    rw [hdelivered] at h
    rw [← List.append_assoc]
    exact .other (ih h hlate.1) hlate.2

/-- **The bytes read and the room that is left pay for all moves.** -/
theorem carried_le (h : Paced log owed) : carried log ≤ (deliveredBytes log).length + owed := by
  induction h with
  | start room => exact Nat.zero_le _
  | move capacity parked _ _ hhalf ih =>
    simp only [carried_concat, Event.carried, deliveredBytes_append, List.length_append]
    omega
  | other _ hsize ih =>
    simp only [carried_concat, Event.carried_of_size hsize, deliveredBytes_append,
      List.length_append, deliveredBytes_cons, deliveredBytes_nil, List.length_nil]
    omega

/-- What the last move carries over has been read as well. -/
theorem carried_le_two_mul (h : Paced log owed) :
    carried log ≤ 2 * (deliveredBytes log).length := by
  induction h with
  | start room => exact Nat.zero_le _
  | move capacity parked hfull hread _ _ =>
    -- nothing is to be read when the window moves, so the bytes read pay for the moves before
    have hpaid := hfull.carried_le
    simp only [carried_concat, Event.carried, deliveredBytes_append, List.length_append]
    omega
  | other _ hsize ih =>
    simp only [carried_concat, Event.carried_of_size hsize, deliveredBytes_append,
      List.length_append]
    omega

/-- Every move makes room for as many bytes as it carries over. -/
theorem carried_le_room (h : Paced log owed) : ∀ event ∈ log, event.carried ≤ event.room := by
  induction h with
  | start room => simp
  | move capacity parked _ _ hhalf ih =>
    rw [List.forall_mem_append, List.forall_mem_singleton]
    refine ⟨ih, ?_⟩
    simp only [Event.carried, Event.room]
    omega
  | other _ hsize ih =>
    rw [List.forall_mem_append, List.forall_mem_singleton, Event.carried_of_size hsize]
    exact ⟨ih, Nat.zero_le _⟩

/-- The room that a move made is filled by what is delivered behind it, but for the bytes that
are still to be read. -/
theorem room_le (h : Paced log owed) {early : List Event} {event : Event}
    (hsplit : log = early ++ event :: late) :
    event.room ≤ (deliveredBytes late).length + owed := by
  induction h generalizing late with
  | start room => simp at hsplit
  | move capacity parked _ _ _ ih =>
    rcases split_concat hsplit with ⟨rfl, -, rfl⟩ | ⟨between, rfl, hlog⟩
    · exact Nat.le_add_left ..
    · have hfilled := ih hlog
      simp only [deliveredBytes_append, List.length_append]
      omega
  | other _ hsize ih =>
    rcases split_concat hsplit with ⟨rfl, -, rfl⟩ | ⟨between, rfl, hlog⟩
    · rw [Event.room_of_size hsize]
      exact Nat.zero_le _
    · have hfilled := ih hlog
      simp only [deliveredBytes_append, List.length_append, deliveredBytes_cons,
        deliveredBytes_nil, List.length_nil]
      omega

/-- When the window moves, nothing is to be read before. -/
theorem before_move (h : Paced log owed) {early : List Event} {event : Event}
    (hsplit : log = early ++ event :: late) (hmove : event.size?.isSome = true) :
    Paced early 0 := by
  induction h generalizing late with
  | start room => simp at hsplit
  | move capacity parked hfull _ _ ih =>
    rcases split_concat hsplit with ⟨-, rfl, -⟩ | ⟨between, -, hlog⟩
    · exact hfull
    · exact ih hlog
  | other _ hsize ih =>
    rcases split_concat hsplit with ⟨-, -, rfl⟩ | ⟨between, -, hlog⟩
    · simp [hsize] at hmove
    · exact ih hlog

/-- **Between two moves the room that the first made is filled.** -/
theorem room_le_between (h : Paced log owed) {early between : List Event} {event next : Event}
    (hsplit : log = early ++ event :: (between ++ next :: late))
    (hmove : next.size?.isSome = true) : event.room ≤ (deliveredBytes between).length := by
  have hassoc : log = (early ++ event :: between) ++ next :: late := by simp [hsplit]
  exact (h.before_move hassoc hmove).room_le rfl

end Paced

/-- The moves in a log carry over no more than is read twice, and each makes room for as many
bytes as it carries over. -/
structure Linear (log : List Event) : Prop where
  carried_le : carried log ≤ 2 * (deliveredBytes log).length
  carried_le_room : ∀ event ∈ log, event.carried ≤ event.room

theorem Paced.linear {log : List Event} {owed : Nat} (h : Paced log owed) : Linear log :=
  ⟨h.carried_le_two_mul, h.carried_le_room⟩

/-- Events that carry nothing over change nothing. -/
theorem Linear.append {log late : List Event} (h : Linear log)
    (hlate : ∀ event ∈ late, event.carried = 0) : Linear (log ++ late) where
  carried_le := by
    have hnone : carried late = 0 := List.sum_eq_zero (by simpa using hlate)
    have hle := h.carried_le
    rw [carried_append, hnone, deliveredBytes_append, List.length_append]
    omega
  carried_le_room := by
    refine List.forall_mem_append.2 ⟨h.carried_le_room, fun event he => ?_⟩
    rw [hlate event he]
    exact Nat.zero_le _

namespace Scanner

variable {σ : Type} {scanner : Scanner σ} {delivered : List UInt8} {mode : Mode} {target : Nat}
  {log : List Event}

/-! ## Runs -/

/-- A scanner without a limit whose window, unless it lost its buffer, is full when the bytes
that are to be read before the next move are. -/
structure Carries (scanner : Scanner σ) (log : List Event) : Prop where
  unlimited : scanner.limit? = none
  paced : scanner.window.Kept → Paced log scanner.window.spare.length
  linear : Linear log

/-- Events that announce no window leave as much room as they do not fill. -/
theorem Carries.append (hc : scanner.Carries log) {after : Scanner σ} {late : List Event}
    (hlimit : after.limit? = scanner.limit?)
    (hkept : after.window.Kept → scanner.window.Kept)
    (hroom : scanner.window.spare.length =
      (deliveredBytes late).length + after.window.spare.length)
    (hlate : ∀ event ∈ late, event.size? = none) : after.Carries (log ++ late) where
  unlimited := hlimit.trans hc.unlimited
  paced := by
    intro hk
    have hpaced := hc.paced (hkept hk)
    rw [hroom] at hpaced
    exact hpaced.append hlate
  linear := hc.linear.append fun event he => Event.carried_of_size (hlate event he)

/-- A full window is paid for when it moves on, and the one that follows has room for as many
bytes as are carried over. -/
theorem Carries.paced_move (hc : scanner.Carries log) (mode : Mode)
    (h : scanner.Sound (deliveredBytes log)) (hk : scanner.window.Kept)
    (hfull : scanner.window.spare = []) {size : Nat}
    (hn : scanner.nextSize scanner.residual = .ok size) :
    Paced (log ++ scanner.moving size :: (scanner.swapped mode size).log)
      (size - scanner.residual) := by
  have hpaced := hc.paced hk
  rw [hfull] at hpaced
  have hread : scanner.residual ≤ (deliveredBytes log).length := by
    have hstop := h.stop_eq hk.placed
    rw [Window.stop] at hstop
    rw [residual]
    omega
  have hhalf : 2 * scanner.residual ≤ size := by
    rw [← Except.ok.inj ((nextSize_of_unlimited hc.unlimited scanner.residual).symm.trans hn)]
    exact Window.two_mul_le_growth (residual_le_size hk)
  have hmoved : Paced (log ++ [scanner.moving size]) (size - scanner.residual) :=
    .move _ _ hpaced hread hhalf
  have hidle : ∀ event ∈ (scanner.swapped mode size).log, event.Idle :=
    Pool.idle_swap _ _ _ _ _ _
  rw [List.append_cons]
  refine Paced.append ?_ fun event he => (hidle event he).size
  rw [deliveredBytes_of_requests (requests_of_idle hidle)]
  simpa using hmoved

/-- **A full window makes room for as many bytes as it carries over.** One that is stopped is
announced as well, and without a buffer nothing is carried over any more. -/
theorem Carries.relocate (hc : scanner.Carries log) (h : scanner.Sound (deliveredBytes log))
    (hfull : scanner.window.spare = []) (hroom : scanner.window.filled ≤ scanner.window.size) :
    (scanner.relocate mode target).scanner.Carries
      (log ++ (scanner.relocate mode target).log) := by
  have hcomputed := nextSize_of_unlimited hc.unlimited scanner.residual
  by_cases hk : scanner.window.Kept
  · rcases scanner.relocate_cases mode target with
      ⟨limit, hn, -⟩ | ⟨size, hn, ⟨buffer, hb, hr⟩ | ⟨fault, left, -, hr⟩⟩
    · cases hcomputed.symm.trans hn
    · have hpaced := hc.paced_move mode h hk hfull hn
      have hspare : (scanner.rebase buffer (scanner.swapped mode size).pool
          size).window.spare.length = size - scanner.residual := by
        rw [← length_eq_residual (Pool.bytes_of_swap hb)]
        exact List.length_replicate
      rw [hr]
      exact ⟨hc.unlimited, fun _ => hspare ▸ hpaced, hpaced.linear⟩
    · have hpaced := hc.paced_move mode h hk hfull hn
      rw [hr]
      exact ⟨hc.unlimited, fun hkept => absurd hkept Window.not_kept_lose, hpaced.linear⟩
  · rcases relocate_of_not_kept hk hroom h.within mode target with ⟨limit, hr⟩ | ⟨hzero, hr⟩
    · rw [hr]
      exact ⟨hc.unlimited, fun hkept => absurd hkept hk,
        hc.linear.append (by simp [refuse, Event.carried])⟩
    · rw [hr]
      exact ⟨hc.unlimited, fun hkept => absurd hkept hk,
        hc.linear.append (by simpa [moving, Event.carried] using hzero)⟩

variable [Source σ]

/-- **Without a limit all runs are paced.** -/
theorem Sound.carries_after (h : scanner.Sound []) (hc : scanner.Carries []) (ops : List Op) :
    (scanner.after mode ops).1.Carries (scanner.after mode ops).2 := by
  refine h.run_induction (motive := fun here log => here.Carries log) hc ?_ ?_ ?_ ops
  · intro here log target hsound _ hfull hroom hkept
    exact hkept.relocate hsound hfull hroom
  · intro here log hsound _ _ hkept
    obtain ⟨source, status, bytes, room, hs, hdelivered, hlength, -⟩ := here.draw_cases
    refine hkept.append hsound.reading_draw.steady.limit (kept_draw here).1 ?_ (size?_draw here)
    rw [hdelivered, hs]
    exact hlength.symm
  · intro here log op _ hop hkept
    have hquiet := quiet_apply mode here hop
    refine hkept.append hquiet.limit (fun hk => hquiet.window ▸ hk) ?_
      fun event he => (hquiet.log event he).size
    rw [hquiet.deliveredBytes_eq, hquiet.window]
    simp

end Scanner
end Lookahead

import Lookahead.Proofs.Pool.Queue
import Lookahead.Proofs.Scanner.Quiet

/-!
# Sound scanners

The bytes delivered to a scanner form one sequence, and what it keeps of them is
one stretch of it: the blocks of the pool in the order of the chain, and behind
them the window. `Scanner.Sound` says so, together with the order of the positions
and the one fact that ties them to the pool: while parked bytes are not freed, no
byte of the window is.

Every operation keeps this, in both modes and with any arguments, faults
included. Only a move that is stopped between the swap and the new positions leaves
a scanner whose positions do not belong to what counts as buffered
(`Window.Placed`): that takes a token start past the last word. Looking ahead keeps
more: it stays at the same place of the stream (`Scanner.Steady`).

## Main definitions

* `Scanner.Sound`: the invariant, relative to the bytes delivered so far.
* `Scanner.Steady`: nothing was shifted, moved or freed.

## Main statements

* `Scanner.Sound.passes`: looking ahead keeps both.
* `Scanner.Sound.apply`: every operation keeps the invariant.
-/
namespace Lookahead

/-- A window that follows has room for a byte more than it takes over. -/
theorem Window.lt_growth {size residual : Nat} (hs : 0 < size) (hr : residual ≤ size) :
    residual < growth size residual := by
  rw [growth]
  split <;> omega

/-- The window that follows is as large as asked for. -/
theorem Window.Kept.size_advance {window : Window} (hk : window.Kept) {retain size : Nat}
    {carried : Buffer} (hc : carried.length ≤ size) :
    (window.advance retain carried size).size = size := by
  have hkept : (window.advance retain carried size).Kept := hk
  rw [hkept.size_eq]
  simp only [advance, filled, List.length_replicate]
  omega

namespace Scanner
variable {σ : Type}

/-- What holds of a scanner after the given bytes were delivered to it. -/
structure Sound (scanner : Scanner σ) (delivered : List UInt8) : Prop where
  pool : scanner.pool.Sound
  consumed_le : scanner.consumed ≤ scanner.start
  start_le : scanner.start ≤ scanner.frontier
  frontier_lt : scanner.frontier < Word.bound
  consumed_eq : scanner.window.Placed → scanner.pool.isDrained = false → scanner.consumed = 0
  stop_eq : scanner.window.Placed → scanner.window.stop = delivered.length
  linked_le : scanner.window.Placed → scanner.pool.linkedBytes.length ≤ scanner.window.origin
  content : scanner.window.Placed → scanner.pool.linkedBytes ++ scanner.window.bytes =
    delivered.drop (scanner.window.origin - scanner.pool.linkedBytes.length)
  misplaced : ¬scanner.window.Placed → Word.bound ≤ scanner.shiftedTotal
  room : scanner.window.Kept → scanner.status.isActive = true → 0 < scanner.window.size
  within : ∀ limit ∈ scanner.limit?, scanner.window.size ≤ limit

/-- The second scanner is at the same place of the stream as the first. -/
structure Steady (before after : Scanner σ) : Prop where
  shifted : after.shiftedTotal = before.shiftedTotal
  frontier : after.frontierOffset = before.frontierOffset
  freed : after.window.Placed → after.freedTotal = before.freedTotal
  origin_le : before.window.origin ≤ after.window.origin
  limit : after.limit? = before.limit?
  lent : after.window.lent = before.window.lent
  inherits : after.window.Inherits before.window

theorem Steady.refl (scanner : Scanner σ) : Steady scanner scanner :=
  ⟨rfl, rfl, fun _ => rfl, Nat.le_refl _, rfl, rfl, .refl _⟩

theorem Steady.trans {a b c : Scanner σ} (h : Steady a b) (h' : Steady b c) : Steady a c where
  shifted := h'.shifted.trans h.shifted
  frontier := h'.frontier.trans h.frontier
  freed := fun hp => (h'.freed hp).trans (h.freed (h'.inherits.placed hp))
  origin_le := Nat.le_trans h.origin_le h'.origin_le
  limit := h'.limit.trans h.limit
  lent := h'.lent.trans h.lent
  inherits := h'.inherits.trans h.inherits

namespace Sound
variable {scanner : Scanner σ} {delivered : List UInt8}

/-- Bytes that are parked and not freed have left the window. -/
theorem outstanding_le (h : scanner.Sound delivered) (hp : scanner.window.Placed) :
    scanner.pool.outstanding ≤ scanner.window.origin := by
  have hlen := scanner.pool.outstanding_eq
  have := h.linked_le hp
  omega

/-- The window holds what was delivered behind the bytes that came before it. -/
theorem bytes_eq (h : scanner.Sound delivered) (hp : scanner.window.Placed) :
    scanner.window.bytes = delivered.drop scanner.window.origin := by
  have hc := congrArg (List.drop scanner.pool.linkedBytes.length) (h.content hp)
  rwa [List.drop_left, List.drop_drop, Nat.sub_add_cancel (h.linked_le hp)] at hc

/-- Until a word cannot count the bytes delivered any more, the base is exact. -/
theorem base_eq (h : scanner.Sound delivered) (hp : scanner.window.Placed)
    (hword : delivered.length < Word.bound) : scanner.window.base = scanner.window.origin := by
  have hstop := h.stop_eq hp
  rw [Window.stop] at hstop
  exact Window.base_of_lt (by omega)

theorem linkedBytes_eq_nil (h : scanner.Sound delivered) (hp : scanner.window.Placed)
    (hc : 0 < scanner.consumed) : scanner.pool.linkedBytes = [] := by
  cases hd : scanner.pool.isDrained with
  | true => exact h.pool.linkedBytes_eq_nil_iff.2 (h.pool.isDrained_iff.1 hd)
  | false =>
    have := h.consumed_eq hp hd
    omega

/-- Bytes of the window are freed only when none is parked. -/
theorem consumed_eq_zero_or (h : scanner.Sound delivered) (hp : scanner.window.Placed) :
    scanner.consumed = 0 ∨ scanner.pool.outstanding = 0 := by
  cases hd : scanner.pool.isDrained with
  | true => exact .inr (h.pool.outstanding_eq_zero hd)
  | false => exact .inl (h.consumed_eq hp hd)

/-- While bytes are parked, none of those that would leave the window are freed. -/
theorem freed_eq_zero_or (h : scanner.Sound delivered) (hp : scanner.window.Placed) :
    min scanner.consumed scanner.retained = 0 ∨ scanner.pool.isDrained = true := by
  cases hd : scanner.pool.isDrained with
  | true => exact .inr rfl
  | false => exact .inl (by rw [h.consumed_eq hp hd, Nat.zero_min])

/-- Only a token start past the last word comes with positions that do not belong to
what counts as buffered. -/
theorem placed_of_lt (h : scanner.Sound delivered) (hlt : scanner.shiftedTotal < Word.bound) :
    scanner.window.Placed := by
  by_contra hp
  exact Nat.not_le.2 hlt (h.misplaced hp)

end Sound

theorem residual_le_size {scanner : Scanner σ} (hk : scanner.window.Kept) :
    scanner.residual ≤ scanner.window.size := Nat.le_trans (Nat.sub_le ..) hk.filled_le

/-- What is carried over is all that a buffer holds that comes back from a swap. -/
theorem length_eq_residual {scanner : Scanner σ} {buffer : Buffer}
    (hb : buffer.bytes = scanner.window.bytes.drop scanner.retained) :
    buffer.length = scanner.residual := by
  rw [Buffer.length, hb, List.length_drop]
  rfl

/-- Without a limit there is always a next window, as large as computed. -/
theorem nextSize_of_unlimited {scanner : Scanner σ} (hl : scanner.limit? = none)
    (residual : Nat) :
    scanner.nextSize residual = .ok (Window.growth scanner.window.size residual) := by
  simp [nextSize, hl]

/-- The next window is within the limit. -/
theorem nextSize_within {scanner : Scanner σ} {residual size : Nat}
    (h : scanner.nextSize residual = .ok size) : ∀ limit ∈ scanner.limit?, size ≤ limit := by
  intro limit hl
  simp only [nextSize, Option.mem_def.1 hl] at h
  split at h
  · exact nomatch h
  · cases Except.ok.inj h
    exact Nat.min_le_right ..

/-- The next window is larger than what is carried over. -/
theorem residual_lt_nextSize {scanner : Scanner σ} {size : Nat}
    (h : scanner.nextSize scanner.residual = .ok size) (hk : scanner.window.Kept)
    (hs : 0 < scanner.window.size) : scanner.residual < size := by
  rw [nextSize] at h
  cases hl : scanner.limit? with
  | none =>
    simp only [hl] at h
    cases Except.ok.inj h
    exact Window.lt_growth hs (residual_le_size hk)
  | some limit =>
    simp only [hl] at h
    split at h
    · exact nomatch h
    · cases Except.ok.inj h
      rename_i hgt
      exact Nat.lt_of_not_le hgt

/-! ## Moving the window -/

namespace Sound
variable {scanner : Scanner σ} {delivered : List UInt8} {buffer : Buffer} {size : Nat}

/-- Where a move parks nothing, either it leaves nothing behind or no byte is parked
before it. -/
theorem retained_eq_zero_or (h : scanner.Sound delivered) (hp : scanner.window.Placed)
    (hc : scanner.retained ≤ scanner.consumed) :
    scanner.retained = 0 ∨ scanner.pool.linkedBytes = [] := by
  rcases Nat.eq_zero_or_pos scanner.retained with hz | hpos
  · exact .inl hz
  · exact .inr (h.linkedBytes_eq_nil hp (Nat.lt_of_lt_of_le hpos hc))

/-- The stretch of the stream in memory is the same after a swap: what leaves the
window is parked, or nothing older is. -/
theorem content_exchange (h : scanner.Sound delivered) (hp : scanner.window.Placed) {freed : Nat}
    (hf : freed = min scanner.consumed scanner.retained)
    (hok : (scanner.pool.exchange scanner.window.buffer scanner.retained freed size).result =
      .ok buffer) :
    (scanner.pool.exchange scanner.window.buffer scanner.retained freed size).pool.linkedBytes ++
        scanner.window.bytes.drop scanner.retained =
      delivered.drop (scanner.window.origin + scanner.retained -
        (scanner.pool.exchange scanner.window.buffer scanner.retained freed
          size).pool.linkedBytes.length) := by
  have hr : scanner.retained ≤ scanner.window.bytes.length := scanner.retained_le_filled
  have hc := h.content hp
  rw [h.pool.linkedBytes_exchange hr hok]
  rcases Nat.lt_or_ge scanner.consumed scanner.retained with hlt | hge
  · have hbase : scanner.window.origin + scanner.retained -
        (scanner.pool.linkedBytes ++ scanner.window.bytes.take scanner.retained).length =
        scanner.window.origin - scanner.pool.linkedBytes.length := by
      rw [List.length_append, List.length_take_of_le hr]
      omega
    rw [if_pos (by omega), List.append_assoc]
    change _ ++ (scanner.window.bytes.take _ ++ _) =
      delivered.drop (_ - (_ ++ scanner.window.bytes.take _).length)
    rw [List.take_append_drop, hc, hbase]
  · rw [if_neg (by omega), List.append_nil]
    rcases h.retained_eq_zero_or hp hge with hz | hnil
    · rw [hz]
      exact hc
    · rw [hnil, List.nil_append, List.length_nil, Nat.sub_zero] at hc ⊢
      rw [← List.drop_drop, ← hc]

/-- Parking what is shifted and taking the rest along keeps a scanner sound. -/
theorem rebase (h : scanner.Sound delivered) {freed : Nat}
    (hf : freed = min scanner.consumed scanner.retained)
    (hok : (scanner.pool.exchange scanner.window.buffer scanner.retained freed size).result =
      .ok buffer)
    (hroom : scanner.window.Kept → scanner.residual < size)
    (hwithin : ∀ limit ∈ scanner.limit?, size ≤ limit) :
    (scanner.rebase buffer
      (scanner.pool.exchange scanner.window.buffer scanner.retained freed size).pool size).Sound
      delivered := by
  have hr : scanner.retained ≤ scanner.window.bytes.length := scanner.retained_le_filled
  have hrs : scanner.retained ≤ scanner.start := Nat.min_le_left ..
  have hb : buffer.bytes = scanner.window.bytes.drop scanner.retained := Pool.bytes_of_exchange hok
  have hcl := h.consumed_le
  have hsl := h.start_le
  have hwindow (hk : scanner.window.Kept) :
      (scanner.window.advance scanner.retained buffer size).size = size :=
    hk.size_advance (length_eq_residual hb ▸ Nat.le_of_lt (hroom hk))
  constructor
  case pool => exact h.pool.exchange hr freed size
  case consumed_le =>
    simp only [Scanner.rebase]
    omega
  case start_le =>
    simp only [Scanner.rebase]
    omega
  case frontier_lt => exact Nat.lt_of_le_of_lt (Nat.sub_le ..) h.frontier_lt
  case consumed_eq =>
    intro hp hd
    simp only [Scanner.rebase] at hd ⊢
    rcases Nat.lt_or_ge scanner.consumed scanner.retained with hlt | hge
    · omega
    · rw [h.pool.isDrained_exchange (by omega)] at hd
      rw [h.consumed_eq hp hd, Nat.zero_sub]
  case stop_eq =>
    intro hp
    rw [← h.stop_eq hp]
    exact Window.stop_advance _ hr hb
  case linked_le =>
    intro hp
    have hll := h.linked_le hp
    simp only [Scanner.rebase, Window.advance]
    rw [h.pool.linkedBytes_exchange hr hok, List.length_append]
    split
    · change _ + (scanner.window.bytes.take scanner.retained).length ≤ _
      rw [List.length_take_of_le hr]
      omega
    · rw [List.length_nil]
      omega
  case content =>
    intro hp
    simp only [Scanner.rebase, Window.advance, Window.bytes, hb]
    exact h.content_exchange hp hf hok
  case misplaced =>
    intro hp
    have hbound := h.misplaced hp
    simp only [shiftedTotal, Scanner.rebase, Window.advance] at hbound ⊢
    omega
  case room =>
    intro hk _
    have hlt := hroom hk
    simp only [Scanner.rebase, hwindow hk]
    omega
  case within =>
    intro limit hl
    by_cases hk : scanner.window.Kept
    · simp only [Scanner.rebase, hwindow hk]
      exact hwithin limit hl
    · have hlost : ¬(scanner.window.advance scanner.retained buffer size).Kept := hk
      simp only [Scanner.rebase, Window.size_of_not_kept hlost, Nat.zero_le]

/-- Moving the window on changes indices but no place in the stream. -/
theorem steady_rebase (h : scanner.Sound delivered) {freed : Nat}
    (hf : freed = min scanner.consumed scanner.retained)
    (hok : (scanner.pool.exchange scanner.window.buffer scanner.retained freed size).result =
      .ok buffer) :
    Steady scanner (scanner.rebase buffer
      (scanner.pool.exchange scanner.window.buffer scanner.retained freed size).pool size) := by
  have hr : scanner.retained ≤ scanner.window.bytes.length := scanner.retained_le_filled
  have hrs : scanner.retained ≤ scanner.start := Nat.min_le_left ..
  have hcl := h.consumed_le
  have hsl := h.start_le
  constructor
  case shifted =>
    simp only [shiftedTotal, Scanner.rebase, Window.advance]
    omega
  case frontier =>
    simp only [frontierOffset, Scanner.rebase, Window.advance]
    omega
  case freed =>
    intro hp
    have hol := h.outstanding_le hp
    have hfr : freed ≤ scanner.retained := hf ▸ Nat.min_le_right ..
    have hdrained : freed = 0 ∨ scanner.pool.isDrained = true := hf ▸ h.freed_eq_zero_or hp
    have hparked := congrArg List.length (h.pool.parked_exchange hfr hr hdrained hok)
    rw [List.length_append, List.length_drop, Pool.length_parked, Pool.length_parked] at hparked
    change _ = _ + ((scanner.window.bytes.take scanner.retained).length - freed) at hparked
    rw [List.length_take_of_le hr] at hparked
    simp only [freedTotal, Scanner.rebase, Window.advance]
    omega
  case origin_le => exact Nat.le_add_right ..
  case limit => rfl
  case lent => rfl
  case inherits => exact .refl _

end Sound

/-! ## Moves that are stopped -/

section
variable {scanner : Scanner σ} {delivered : List UInt8} {fault : Fault}

/-- Losing its buffer, a scanner stays at its place, and a window that had lost it before
keeps the first fault. -/
theorem steady_abandon {left : Buffer} {pool : Pool}
    (hfreed : (scanner.window.lose left fault).Placed →
      pool.outstanding = scanner.pool.outstanding) :
    Steady scanner (scanner.abandon left pool fault) where
  shifted := rfl
  frontier := rfl
  freed := fun hp => by
    simp only [freedTotal, abandon, Window.lose, hfreed hp]
  origin_le := Nat.le_refl _
  limit := rfl
  lent := rfl
  inherits := Window.inherits_lose _ _ _

/-- Counting an allocation that failed changes nothing else. -/
theorem Sound.countAllocation (h : scanner.Sound delivered) :
    { scanner with pool := scanner.pool.countAllocation : Scanner σ }.Sound delivered := by
  have hl := h.pool.linkedBytes_countAllocation
  exact { h with
    pool := h.pool.countAllocation
    linked_le := hl ▸ h.linked_le
    content := hl ▸ h.content }

/-- A swap that is stopped leaves the bytes that count as buffered in their place. -/
theorem Sound.lose (h : scanner.Sound delivered) (hfault : fault ≠ .sumOverflow) :
    (scanner.abandon scanner.window.buffer scanner.pool fault).Sound delivered := by
  have hsteady : Steady scanner (scanner.abandon scanner.window.buffer scanner.pool fault) :=
    steady_abandon fun _ => rfl
  constructor
  case pool => exact h.pool
  case consumed_le => exact h.consumed_le
  case start_le => exact h.start_le
  case frontier_lt => exact h.frontier_lt
  case consumed_eq => exact fun hp => h.consumed_eq (hsteady.inherits.placed hp)
  case stop_eq => exact fun hp => h.stop_eq (hsteady.inherits.placed hp)
  case linked_le => exact fun hp => h.linked_le (hsteady.inherits.placed hp)
  case content => exact fun hp => h.content (hsteady.inherits.placed hp)
  case misplaced =>
    exact fun hp => h.misplaced fun hplaced => hp (hplaced.lose _ hfault)
  case room => exact fun hk => absurd hk Window.not_kept_lose
  case within =>
    intro limit _
    simp only [abandon, Window.size_lose, Nat.zero_le]

/-- A move that is stopped behind the swap takes a token start past the last word. -/
theorem Sound.misplace (h : scanner.Sound delivered) {mode : Mode} {left : Buffer} {size : Nat}
    (hroom : scanner.window.filled ≤ scanner.window.size)
    (hadd : mode.add scanner.window.base scanner.retained = .error fault) (freed : Nat) :
    let pool := (scanner.pool.exchange scanner.window.buffer scanner.retained freed size).pool
    (scanner.abandon left pool fault).Sound delivered ∧
      Steady scanner (scanner.abandon left pool fault) := by
  intro pool
  obtain ⟨-, rfl, hsum⟩ := Mode.add_eq_error hadd
  have hr := scanner.retained_le_filled
  have hrs : scanner.retained ≤ scanner.start := Nat.min_le_left ..
  have hword := scanner.window.base_lt
  have hbase : scanner.window.base ≤ scanner.window.origin := Word.wrap_le _
  -- without a buffer nothing counts as buffered, and the base stays the word that it is
  have hkept : scanner.window.fault? = none := by
    by_contra hk
    rw [Window.size_of_not_kept hk] at hroom
    omega
  have hlost : ¬(scanner.window.lose left .sumOverflow).Placed := by
    simp [Window.Placed, Window.lose, hkept]
  refine ⟨?_, steady_abandon fun hp => absurd hp hlost⟩
  constructor
  case pool => exact h.pool.exchange hr freed size
  case consumed_le => exact h.consumed_le
  case start_le => exact h.start_le
  case frontier_lt => exact h.frontier_lt
  case consumed_eq => exact fun hp => absurd hp hlost
  case stop_eq => exact fun hp => absurd hp hlost
  case linked_le => exact fun hp => absurd hp hlost
  case content => exact fun hp => absurd hp hlost
  case misplaced =>
    intro _
    simp only [shiftedTotal, abandon, Window.lose]
    omega
  case room => exact fun hk => absurd hk Window.not_kept_lose
  case within =>
    intro limit _
    simp only [abandon, Window.size_lose, Nat.zero_le]

end

/-! ## Looking ahead -/

/-- An outcome that is as sound as the scanner it comes from and at the same place
of the stream. -/
structure Reading {α : Type} (scanner : Scanner σ) (delivered : List UInt8)
    (outcome : Outcome σ α) : Prop where
  sound : outcome.scanner.Sound (delivered ++ deliveredBytes outcome.log)
  steady : Steady scanner outcome.scanner

section
variable {α β : Type} {scanner : Scanner σ} {delivered : List UInt8}

theorem Sound.reading_pure (h : scanner.Sound delivered) (a : α) :
    Reading scanner delivered (.pure a scanner) where
  sound := by simpa using h
  steady := .refl scanner

theorem Reading.after {first : Outcome σ α} {last : Outcome σ β}
    (h : Reading scanner delivered first)
    (h' : Reading first.scanner (delivered ++ deliveredBytes first.log) last) :
    Reading scanner delivered (last.after first.log) where
  sound := by simpa using h'.sound
  steady := h.steady.trans h'.steady

theorem Reading.bind {outcome : Outcome σ α} {next : α → Scanner σ → Outcome σ β}
    (h : Reading scanner delivered outcome)
    (hnext : ∀ a, Reading outcome.scanner (delivered ++ deliveredBytes outcome.log)
      (next a outcome.scanner)) :
    Reading scanner delivered (outcome.bind next) := by
  cases hr : outcome.result with
  | ok a =>
    rw [Outcome.bind_of_ok hr]
    exact h.after (hnext a)
  | error fault =>
    rw [Outcome.bind_of_error hr]
    exact ⟨h.sound, h.steady⟩

/-- Moving the window makes no requests. -/
theorem requests_moving (mode : Mode) (scanner : Scanner σ) (size : Nat) :
    requests (scanner.moving size :: (scanner.swapped mode size).log) = [] := by
  change requests (scanner.swapped mode size).log = []
  exact requests_of_idle (Pool.idle_swap _ _ _ _ _ _)

theorem requests_relocate (mode : Mode) (scanner : Scanner σ) (target : Nat) :
    requests (scanner.relocate mode target).log = [] := by
  rcases scanner.relocate_cases mode target with
    ⟨limit, -, hr⟩ | ⟨size, -, ⟨buffer, -, hr⟩ | ⟨fault, left, -, hr⟩⟩ <;> rw [hr]
  · rfl
  · exact scanner.requests_moving mode size
  · exact scanner.requests_moving mode size

@[simp] theorem deliveredBytes_relocate (mode : Mode) (scanner : Scanner σ) (target : Nat) :
    deliveredBytes (scanner.relocate mode target).log = [] :=
  deliveredBytes_of_requests (scanner.requests_relocate mode target)

/-- Without a request the bytes delivered stay the same. -/
theorem Reading.of_requests {outcome : Outcome σ α} (hr : requests outcome.log = [])
    (hsound : outcome.scanner.Sound delivered) (hsteady : Steady scanner outcome.scanner) :
    Reading scanner delivered outcome :=
  ⟨by rwa [deliveredBytes_of_requests hr, List.append_nil], hsteady⟩

theorem Sound.reading_relocate (h : scanner.Sound delivered)
    (hroom : scanner.window.filled ≤ scanner.window.size)
    (ha : scanner.status.isActive = true) (mode : Mode) (target : Nat) :
    Reading scanner delivered (scanner.relocate mode target) := by
  have hlog := scanner.requests_relocate mode target
  rcases scanner.relocate_cases mode target with
    ⟨limit, -, hr⟩ | ⟨size, hn, ⟨buffer, hok, hr⟩ | ⟨fault, left, hstopped, hr⟩⟩
  · rw [hr] at hlog ⊢
    have hsound : (scanner.refuse target limit).scanner.Sound delivered :=
      { h with room := fun _ hs => by simp [refuse] at hs }
    exact .of_requests hlog hsound ⟨rfl, rfl, fun _ => rfl, Nat.le_refl _, rfl, rfl, .refl _⟩
  · rw [hr] at hlog ⊢
    rw [swapped] at hok
    have hx := Pool.swap_eq_exchange hok
    rw [hx] at hok
    refine .of_requests hlog ?_ ?_ <;> rw [swapped, hx]
    · exact h.rebase rfl hok (fun hk => residual_lt_nextSize hn hk (h.room hk ha))
        (nextSize_within hn)
    · exact h.steady_rebase rfl hok
  · rw [hr] at hlog ⊢
    rw [swapped] at hlog ⊢
    rcases hstopped with ⟨herr, rfl⟩ | ⟨hok, hadd⟩
    · rw [swapped] at herr
      have hfault := Pool.ne_sumOverflow_of_swap herr
      rcases Pool.swap_of_error herr with ⟨-, hp⟩ | ⟨-, hp⟩ <;> rw [hp] at hlog ⊢
      · exact .of_requests hlog (h.lose hfault) (steady_abandon fun _ => rfl)
      · exact .of_requests hlog (h.countAllocation.lose hfault)
          (steady_abandon fun _ => h.pool.outstanding_countAllocation)
    · rw [swapped] at hok
      rw [Pool.swap_eq_exchange hok] at hlog ⊢
      obtain ⟨hsound, hsteady⟩ := h.misplace hroom hadd _
      exact .of_requests hlog hsound hsteady

/-- A window that has moved on has room for a byte, unless it was refused. -/
theorem Sound.spare_of_relocate (h : scanner.Sound delivered) {mode : Mode} {target : Nat}
    (ha : scanner.status.isActive = true) (hk : (scanner.relocate mode target).scanner.window.Kept)
    (hactive : (scanner.relocate mode target).scanner.status.isActive = true) :
    (scanner.relocate mode target).scanner.window.spare ≠ [] := by
  rcases scanner.relocate_cases mode target with
    ⟨limit, -, hr⟩ | ⟨size, hn, ⟨buffer, hb, hr⟩ | ⟨fault, left, -, hr⟩⟩
  · rw [hr] at hactive
    simp [refuse] at hactive
  · rw [hr] at hk ⊢
    have hlt := residual_lt_nextSize hn hk (h.room hk ha)
    have hlen := length_eq_residual (Pool.bytes_of_swap hb)
    rw [← List.length_pos_iff]
    change 0 < (List.replicate (size - buffer.length) 0).length
    rw [List.length_replicate]
    omega
  · rw [hr] at hk
    exact absurd hk Window.not_kept_lose

variable [Source σ]

theorem Sound.reading_draw (h : scanner.Sound delivered) :
    Reading scanner delivered scanner.draw := by
  obtain ⟨source, status, bytes, room, hs, hlog, hlen, hstatus⟩ := scanner.draw_cases
  constructor
  case sound =>
    rw [hs, hlog]
    have hsize : ({ scanner.window with
        buffer := scanner.window.buffer.append bytes, spare := room } : Window).size =
        scanner.window.size := by
      refine Window.size_congr rfl ?_
      simp only [Window.filled, Buffer.length_append]
      omega
    constructor
    case pool => exact h.pool
    case consumed_le => exact h.consumed_le
    case start_le => exact h.start_le
    case frontier_lt => exact h.frontier_lt
    case consumed_eq => exact h.consumed_eq
    case stop_eq =>
      intro hp
      rw [List.length_append, ← h.stop_eq hp]
      simp only [Window.stop, Window.filled, Buffer.length_append, Nat.add_assoc]
    case linked_le => exact h.linked_le
    case content =>
      intro hp
      have hb : scanner.window.origin - scanner.pool.linkedBytes.length ≤ delivered.length := by
        have := h.stop_eq hp
        rw [Window.stop] at this
        omega
      rw [List.drop_append_of_le_length hb, ← h.content hp, List.append_assoc]
      rfl
    case misplaced => exact h.misplaced
    case room =>
      intro hk ha
      rcases hstatus with ⟨rfl, -⟩ | ⟨hi, -⟩
      · exact Nat.lt_of_lt_of_eq (h.room hk ha) hsize.symm
      · simp [hi] at ha
    case within => exact fun limit hl => Nat.le_trans (Nat.le_of_eq hsize) (h.within limit hl)
  case steady =>
    rw [hs]
    exact ⟨rfl, rfl, fun _ => rfl, Nat.le_refl _, rfl, rfl, .refl _⟩

theorem Sound.reading_refill (h : scanner.Sound delivered)
    (ha : scanner.status.isActive = true) (mode : Mode) (target : Nat) :
    Reading scanner delivered (scanner.refill mode target) := by
  rw [refill]
  split
  · exact ⟨by simpa [Outcome.stop] using h, .refl scanner⟩
  rename_i hroom
  have hmove := h.reading_relocate (Nat.le_of_not_lt hroom) ha mode target
  split
  · refine hmove.bind fun _ => ?_
    split
    · exact hmove.sound.reading_draw
    · exact hmove.sound.reading_pure ()
  · exact h.reading_draw

/-- Looking ahead keeps a scanner sound and steady. -/
theorem Sound.passes {mode : Mode} (h : scanner.Sound delivered) {outcome : Outcome σ Unit}
    (hp : Passes mode scanner outcome) : Reading scanner delivered outcome := by
  induction hp with
  | none => exact h.reading_pure ()
  | stuck _ _ ih => exact ⟨ih.sound, ih.steady⟩
  | more _ _ ha _ ih => exact ih.after (ih.sound.reading_refill ha mode _)

end

/-! ## Freeing -/

section
variable {scanner : Scanner σ} {delivered : List UInt8}

/-- Freeing parked bytes alone keeps a scanner sound. -/
theorem Sound.release (h : scanner.Sound delivered) (n : Nat) :
    { scanner with pool := (scanner.pool.free n).pool : Scanner σ }.Sound delivered := by
  have hf := h.pool.frees n
  obtain ⟨front, hfront⟩ := hf.suffix
  have hlen := congrArg List.length hfront
  rw [List.length_append] at hlen
  constructor
  case pool => exact hf.sound
  case consumed_le => exact h.consumed_le
  case start_le => exact h.start_le
  case frontier_lt => exact h.frontier_lt
  case consumed_eq =>
    intro hp hd
    refine h.consumed_eq hp ?_
    rw [Bool.eq_false_iff, ne_eq, ← h.pool.parked_eq_nil_iff]
    intro hnone
    rw [Bool.eq_false_iff, ne_eq, ← hf.sound.parked_eq_nil_iff, hf.parked_eq, hnone] at hd
    exact hd List.drop_nil
  case stop_eq => exact h.stop_eq
  case linked_le =>
    intro hp
    have hll := h.linked_le hp
    change (scanner.pool.free n).pool.linkedBytes.length ≤ scanner.window.origin
    omega
  case content =>
    intro hp
    have hll := h.linked_le hp
    have hc := congrArg (List.drop front.length) (h.content hp)
    rw [← hfront, List.append_assoc, List.drop_left, List.drop_drop] at hc
    change (scanner.pool.free n).pool.linkedBytes ++ scanner.window.bytes =
      delivered.drop (scanner.window.origin - (scanner.pool.free n).pool.linkedBytes.length)
    rw [hc, List.length_append]
    congr 1
    omega
  case misplaced => exact h.misplaced
  case room => exact h.room
  case within => exact h.within

/-- Freeing bytes of the window keeps a scanner sound if none is parked. -/
theorem Sound.consume (h : scanner.Sound delivered) (mode : Mode) {n : Nat}
    (hd : n = 0 ∨ scanner.pool.isDrained = true) :
    (scanner.consume mode n).scanner.Sound delivered := by
  rw [Scanner.consume]
  split
  · exact h
  · rename_i consumed hadd
    split
    · exact h
    · refine { h with consumed_le := Nat.min_le_right .., consumed_eq := fun hp hf => ?_ }
      have hn : n = 0 := hd.resolve_right (by simp [show scanner.pool.isDrained = false from hf])
      have hz := h.consumed_eq hp hf
      rw [hn, hz, Mode.add_of_lt mode (by decide)] at hadd
      cases Except.ok.inj hadd
      exact Nat.zero_min _

/-- What runs past the pool is freed of the window only when the pool is empty. -/
theorem Sound.spill_eq_zero_or (h : scanner.Sound delivered) (n : Nat) :
    (scanner.pool.free n).spill = 0 ∨ (scanner.pool.free n).pool.isDrained = true := by
  have hf := h.pool.frees n
  rw [← hf.sound.parked_eq_nil_iff, hf.parked_eq, hf.spill_eq, List.drop_eq_nil_iff]
  omega

theorem Sound.free (h : scanner.Sound delivered) (mode : Mode) (n : Nat) :
    (scanner.free mode n).scanner.Sound delivered :=
  (h.release n).consume mode (h.spill_eq_zero_or n)

/-- What is no more than shifted is freed: first of the pool, the rest of the window. -/
theorem Sound.free_eq (h : scanner.Sound delivered) (mode : Mode) {n : Nat}
    (hn : scanner.freedTotal + n ≤ scanner.shiftedTotal) :
    scanner.free mode n =
      ⟨.ok (), { scanner with
          pool := (scanner.pool.free n).pool
          consumed := scanner.consumed + (scanner.pool.free n).spill },
        (scanner.pool.free n).log⟩ := by
  have hspill := h.pool.spill_free n
  have hcl := h.consumed_le
  have hlt := Nat.lt_of_le_of_lt h.start_le h.frontier_lt
  rw [freedTotal, shiftedTotal] at hn
  have hle : scanner.consumed + (scanner.pool.free n).spill ≤ scanner.start := by omega
  have hadd := Mode.add_of_lt mode (Nat.lt_of_le_of_lt hle hlt)
  simp [Scanner.free, Scanner.consume, hadd, Mode.not_rejects hle, Nat.min_eq_left hle,
    Outcome.after, Outcome.pure]

/-- Freeing no more than is shifted succeeds and counts. -/
theorem Sound.free_of_le (h : scanner.Sound delivered) (mode : Mode) {n : Nat}
    (hn : scanner.freedTotal + n ≤ scanner.shiftedTotal) :
    (scanner.free mode n).result = .ok () ∧ (scanner.window.Placed →
      (scanner.free mode n).scanner.freedTotal = scanner.freedTotal + n) := by
  have hout := h.pool.outstanding_free n
  have hspill := h.pool.spill_free n
  rw [h.free_eq mode hn]
  refine ⟨rfl, fun hp => ?_⟩
  have hol := h.outstanding_le hp
  simp only [freedTotal]
  omega

end

/-! ## Every operation -/

section
variable {scanner : Scanner σ} {delivered : List UInt8}

theorem Sound.start_lt (h : scanner.Sound delivered) : scanner.start < Word.bound :=
  Nat.lt_of_le_of_lt h.start_le h.frontier_lt

theorem Sound.skip (h : scanner.Sound delivered) : scanner.skip.Sound delivered :=
  { h with
    consumed_le := Nat.le_trans h.consumed_le h.start_le
    start_le := Nat.le_refl _
    misplaced := fun hp => Nat.le_trans (h.misplaced hp) (Nat.add_le_add_left h.start_le _) }

theorem Sound.moveTo (h : scanner.Sound delivered) (n : Nat) :
    (scanner.moveTo n).Sound delivered :=
  { h with
    start_le := by
      have hs := Word.saturate_of_lt h.start_lt
      have hm := Word.saturate_mono (Nat.le_add_right scanner.start n)
      rwa [hs] at hm
    frontier_lt := Word.saturate_lt _ }

theorem Sound.moveBy (h : scanner.Sound delivered) (mode : Mode) (delta : Int) :
    (scanner.moveBy mode delta).scanner.Sound delivered := by
  rw [Scanner.moveBy]
  split
  · exact h
  · exact { h with
      start_le := Nat.le_max_right ..
      frontier_lt := Nat.max_lt.2 ⟨Word.saturate_lt _, h.start_lt⟩ }

theorem Sound.shiftToken (h : scanner.Sound delivered) (mode : Mode) :
    (scanner.shiftToken mode).scanner.Sound delivered := by
  rw [Scanner.shiftToken]
  split
  · exact h.skip
  · exact h

theorem Sound.shiftLent? (h : scanner.Sound delivered) :
    scanner.shiftLent?.scanner.Sound delivered := by
  rw [Scanner.shiftLent?]
  split
  · exact h.skip
  · exact h

theorem Quiet.sound {α : Type} {outcome : Outcome σ α} (hq : Quiet scanner outcome)
    (h : outcome.scanner.Sound delivered) :
    outcome.scanner.Sound (delivered ++ deliveredBytes outcome.log) := by
  rwa [hq.deliveredBytes_eq, List.append_nil]

/-- Every operation keeps a scanner sound, whatever its arguments are and whether
it is stopped or not. -/
theorem Sound.apply [Source σ] (h : scanner.Sound delivered) (mode : Mode) (op : Op) :
    (scanner.apply mode op).scanner.Sound
      (delivered ++ deliveredBytes (scanner.apply mode op).log) := by
  cases op with
  | peek distance => exact (h.passes (passes_peek scanner distance)).sound
  | peekRune distance => exact (h.passes (passes_peekRune scanner distance)).sound
  | moveBy delta => exact ((quiet_moveBy mode scanner delta).map _).sound (h.moveBy mode delta)
  | moveTo n => simpa [Scanner.apply] using h.moveTo n
  | bytes => simpa [Scanner.apply] using h
  | shift => simpa [Scanner.apply, Scanner.shift] using h.skip
  | shiftToken => exact ((quiet_shiftToken mode scanner).map _).sound (h.shiftToken mode)
  | skip => simpa [Scanner.apply] using h.skip
  | free n => exact ((quiet_free mode scanner n).map _).sound (h.free mode n)
  | lentBytes => simpa [Scanner.apply] using h
  | shiftLent => exact ((quiet_shiftLent? scanner).map _).sound h.shiftLent?

end

end Scanner
end Lookahead

import Lookahead.Pool.Swap
import Lookahead.Scanner.Basic

/-!
# Filling the window

The window is filled one read at a time until a wanted position of the stream is
in it or the source has ended. When there is no spare room, the window first
moves on: it takes the bytes of the unfinished token along and leaves the others
to the pool. How large it becomes depends on the bytes it holds and not on the
position wanted, so a source that runs dry stops the growth early. If a limit
leaves no room, the token is too long and the source counts as failed.

Every pass ends the source or moves the end of the buffered bytes on
(`refill_progress`), so filling comes to an end even when the source does not.

## Main definitions

* `Scanner.relocate`: moves the window on.
* `Scanner.draw`: one read into the spare room.
* `Scanner.refill`: one pass, a read into a window with room.
* `Scanner.fill`: all passes.
-/
namespace Lookahead.Scanner
variable {σ : Type}

/-- The size of the next window if `residual` bytes are carried over, or the
limit if it leaves no room for another byte. -/
def nextSize (scanner : Scanner σ) (residual : Nat) : Except Nat Nat :=
  let size := Window.growth scanner.window.size residual
  match scanner.limit? with
  | none => .ok size
  | some limit => if min size limit ≤ residual then .error limit else .ok (min size limit)

/-- The number of bytes that stay behind when the window moves on: those before
the token start. -/
def retained (scanner : Scanner σ) : Nat := min scanner.start scanner.window.filled

/-- The number of bytes that are carried over when the window moves on. -/
def residual (scanner : Scanner σ) : Nat := scanner.window.filled - scanner.retained

/-- Ends the source because a window that reaches the wanted position of the
stream would exceed the limit. -/
def refuse (scanner : Scanner σ) (target limit : Nat) : Outcome σ Unit :=
  let requested :=
    Word.saturate (target - (scanner.window.origin + scanner.retained) + 1)
  ⟨.ok (),
    { scanner with
      status := scanner.status.finish (some (.limitExceeded requested limit)) },
    [.refused requested limit]⟩

/-- The scanner after the window moved on, given the buffer and the pool that
come back from the swap. -/
def rebase (scanner : Scanner σ) (buffer : Buffer) (pool : Pool) (size : Nat) : Scanner σ :=
  { scanner with
    pool
    window := scanner.window.advance scanner.retained buffer size
    consumed := scanner.consumed - min scanner.consumed scanner.retained
    start := scanner.start - scanner.retained
    frontier := scanner.frontier - scanner.retained }

/-- A move of the window is stopped by a fault, with the bytes that still count as
buffered and the pool that comes back from the swap. -/
def abandon (scanner : Scanner σ) (left : Buffer) (pool : Pool) (fault : Fault) : Scanner σ :=
  { scanner with pool, window := scanner.window.lose left fault }

/-- Moves the window on to make room, or ends the source if there is none to be
had. The buffer is given up before the swap, and the new one is put in its place
only after the base has been moved on: if one of the two is stopped, the buffer is
lost. By then the pool has what it was given, and the window counts what the swap
left to be carried over, but the positions have not moved. -/
def relocate (mode : Mode) (scanner : Scanner σ) (target : Nat) : Outcome σ Unit :=
  match scanner.nextSize scanner.residual with
  | .error limit => scanner.refuse target limit
  | .ok size =>
    let note := Event.relocating scanner.residual scanner.window.size size
      scanner.pool.outstanding
    let swapped := scanner.pool.swap mode scanner.window.buffer scanner.retained
      (min scanner.consumed scanner.retained) size
    match swapped.result with
    | .error fault =>
      ⟨.error fault, scanner.abandon scanner.window.buffer swapped.pool fault,
        note :: swapped.log⟩
    | .ok buffer =>
      match mode.add scanner.window.base scanner.retained with
      | .error fault =>
        ⟨.error fault, scanner.abandon buffer swapped.pool fault, note :: swapped.log⟩
      | .ok _ => ⟨.ok (), scanner.rebase buffer swapped.pool size, note :: swapped.log⟩

variable [Source σ]

/-- Reads once into the spare room. A read of no bytes ends the source. -/
def draw (scanner : Scanner σ) : Outcome σ Unit :=
  let pulled := Source.pull scanner.source scanner.window.spare
  let calls := pulled.calls.map Event.read
  match pulled.reply.count with
  | .ok n =>
    let window := scanner.window.accept pulled.reply.room n
    let note := Event.refilled n window.filled
    if n = 0 then
      ⟨.ok (),
        { scanner with source := pulled.source, window, status := scanner.status.finish none },
        calls ++ [note, .exhausted (Word.wrap window.stop) scanner.pool.allocations]⟩
    else
      ⟨.ok (), { scanner with source := pulled.source, window }, calls ++ [note]⟩
  | .error error =>
    ⟨.ok (),
      { scanner with
        source := pulled.source
        window := scanner.window.overwrite pulled.reply.room
        status := scanner.status.finish (some (.source error)) },
      calls ++ [.failed error]⟩

/-- Reads once, after moving the window on if it is full. Without its buffer a window
has no room that could be lent behind the bytes that count as buffered. -/
def refill (mode : Mode) (scanner : Scanner σ) (target : Nat) : Outcome σ Unit :=
  if scanner.window.size < scanner.window.filled then
    .stop (.outside (.onward scanner.window.filled) scanner.window.size) scanner
  else if scanner.window.spare = [] then
    (scanner.relocate mode target).bind fun _ scanner =>
      if scanner.status.isActive then scanner.draw else .pure () scanner
  else
    scanner.draw

/-! ## Progress -/

omit [Source σ] in
theorem retained_le_filled (scanner : Scanner σ) : scanner.retained ≤ scanner.window.filled :=
  Nat.min_le_right ..

omit [Source σ] in
/-- Moving the window on leaves the end of the buffered bytes in place, unless it is
stopped. -/
theorem stop_relocate {mode : Mode} {scanner : Scanner σ} {target : Nat}
    (hok : (scanner.relocate mode target).result = .ok ()) :
    (scanner.relocate mode target).scanner.window.stop = scanner.window.stop := by
  cases hn : scanner.nextSize scanner.residual with
  | error limit =>
    simp only [relocate, hn]
    rfl
  | ok size =>
    simp only [relocate, hn] at hok ⊢
    cases hb : (scanner.pool.swap mode scanner.window.buffer scanner.retained
      (min scanner.consumed scanner.retained) size).result with
    | error fault => simp [hb] at hok
    | ok buffer =>
      simp only [hb] at hok ⊢
      cases hadd : mode.add scanner.window.base scanner.retained with
      | error fault => simp [hadd] at hok
      | ok base => exact Window.stop_advance _ scanner.retained_le_filled (Pool.bytes_of_swap hb)

/-- A read ends the source or delivers a byte. -/
theorem draw_progress (scanner : Scanner σ) :
    scanner.draw.scanner.status.isActive = false ∨
      scanner.window.stop < scanner.draw.scanner.window.stop := by
  simp only [draw]
  split
  · rename_i n hn
    split
    · simp
    · right
      have hle := Source.pull_count_le hn
      rw [← Source.pull_length_room scanner.source scanner.window.spare] at hle
      simp only [Window.stop_accept _ hle]
      omega
  · simp

/-- A pass ends the source or moves the end of the buffered bytes on, unless it
is stopped by a fault. -/
theorem refill_progress {mode : Mode} {scanner : Scanner σ} {target : Nat}
    (h : (scanner.refill mode target).result = .ok ()) :
    (scanner.refill mode target).scanner.status.isActive = false ∨
      scanner.window.stop < (scanner.refill mode target).scanner.window.stop := by
  unfold refill at h ⊢
  split at h
  · exact nomatch h
  rename_i hroom
  rw [if_neg hroom]
  split
  · rename_i hs
    rw [if_pos hs] at h
    cases hr : (scanner.relocate mode target).result with
    | error fault => simp [Outcome.bind_of_error hr] at h
    | ok u =>
      rw [Outcome.bind_of_ok hr]
      split
      · rw [← stop_relocate hr]
        exact draw_progress _
      · rename_i hi
        exact .inl (by simpa using hi)
  · exact draw_progress scanner

/-! ## All passes -/

/-- How many more passes are possible at most before a position is buffered. -/
def missing (scanner : Scanner σ) (target : Nat) : Nat :=
  if scanner.status.isActive then target + 1 - scanner.window.stop else 0

/-- Refills until a position of the stream is buffered or the source has ended. -/
def fill (mode : Mode) (scanner : Scanner σ) (target : Nat) : Outcome σ Unit :=
  if scanner.status.isActive = true ∧ scanner.window.stop ≤ target then
    let pass := scanner.refill mode target
    match _h : pass.result with
    | .error fault => ⟨.error fault, pass.scanner, pass.log⟩
    | .ok () => (fill mode pass.scanner target).after pass.log
  else
    .pure () scanner
termination_by scanner.missing target
decreasing_by
  rename_i hc
  have := refill_progress _h
  simp only [missing, hc.1, if_true]
  split <;> grind

end Lookahead.Scanner

import Lookahead.Proofs.Ending
import Lookahead.Proofs.Marks
import Lookahead.Proofs.Tiling

/-!
# Offsets

The offset of the token start is the sum of two words, the offset of the window and the index
of the token start in it, and it is added up when it is asked for. The frontier can be moved
any distance ahead: its index stops at the last word. But a token that is started there has
this index, and if the window does not begin with the stream, the sum is no word.

So the offset is good for as long as every token is started at an offset that is a word, and
never again once one is not, because the token start does not move back. Bytes that are
delivered do not bring this about: with less than half the range of words delivered, it takes
a token that is started more than half the range ahead of what is buffered. Nor does it
happen before the window has moved on.

## Main definitions

* `Scanner.Starts`: an operation that starts the next token.
* `Scanner.StartsWithin`: all tokens of a run are started at offsets that are words.
* `Scanner.StartsNear`: none is started far ahead of what is buffered.

## Main statements

* `Scanner.Sound.startsWithin_iff`: the offset is a word just if all were before.
* `Scanner.Sound.startsWithin_of_near`: bytes delivered do not make it overflow.
* `Scanner.origin_lt_after`: the window of a checked run begins at a word.
* `Scanner.offset_exact_unless_started_far`: in which states of a run the offset is there, and
  in which it is stopped.
* `Scanner.offset_overflows`: a run over three bytes on which it is stopped.
-/
namespace Lookahead.Scanner

variable {σ : Type} {scanner : Scanner σ} {delivered : List UInt8} {mode : Mode}

/-- In a window that begins with the stream every index is an offset. -/
theorem Sound.shiftedTotal_lt_of_origin (h : scanner.Sound delivered)
    (horigin : scanner.window.origin = 0) : scanner.shiftedTotal < Word.bound := by
  rw [shiftedTotal, horigin, Nat.zero_add]
  exact h.start_lt

/-- A checked move is stopped where the window would begin at no word. -/
theorem origin_lt_relocate (hlt : scanner.window.origin < Word.bound) (target : Nat) :
    (scanner.relocate .checked target).scanner.window.origin < Word.bound := by
  simp only [relocate]
  split
  · exact hlt
  · split
    · exact hlt
    · split
      · exact hlt
      · rename_i hadd
        rw [Window.base_of_lt hlt] at hadd
        change scanner.window.origin + scanner.retained < Word.bound
        by_contra hover
        rw [Mode.add, if_pos (Mode.checked_rejects_iff.2 hover)] at hadd
        cases hadd

/-- **The window of a checked run begins at a word.** -/
theorem Sound.origin_lt_after [Source σ] (h : scanner.Sound delivered)
    (hlt : scanner.window.origin < Word.bound) (ops : List Op) :
    (scanner.after .checked ops).1.window.origin < Word.bound := by
  refine h.run_induction (motive := fun here _ => here.window.origin < Word.bound) hlt ?_ ?_ ?_ ops
  · exact fun here _ target _ _ _ _ ih => origin_lt_relocate ih target
  · intro here log _ _ _ ih
    obtain ⟨source, status, bytes, room, hs, -⟩ := here.draw_cases
    rwa [hs]
  · intro here log op _ hop ih
    rwa [(quiet_apply .checked here hop).window]

/-! ## Starting a token -/

/-- An operation starts the next token. Shifting a selection that outlives the scanner does so
if the input is in memory. -/
def Starts (here : Scanner σ) (op : Op) : Prop :=
  op.shifts = true ∧ (op = .shiftLent → here.window.lent = true)

instance (here : Scanner σ) : DecidablePred here.Starts := fun _ =>
  inferInstanceAs (Decidable (_ ∧ _))

section
variable [Source σ]

/-- An operation that starts a token does so at the frontier, if the offset of the token before
is a word. -/
theorem shiftedTotal_of_starts (mode : Mode) (hword : scanner.shiftedTotal < Word.bound) {op : Op}
    (hop : scanner.Starts op) :
    (scanner.apply mode op).scanner.shiftedTotal = scanner.frontierOffset := by
  obtain ⟨hshifts, hlent⟩ := hop
  cases op with
  | shift => rfl
  | skip => rfl
  | shiftToken =>
    rw [Scanner.apply, Outcome.scanner_map, Scanner.shiftToken, offset_of_lt mode hword]
    rfl
  | shiftLent =>
    rw [(lent_of_memory (hlent rfl) mode).2]
    rfl
  | _ => cases hshifts

/-- No other operation moves the token start. -/
theorem Sound.shiftedTotal_of_not_starts (h : scanner.Sound delivered) (mode : Mode) {op : Op}
    (hop : ¬scanner.Starts op) :
    (scanner.apply mode op).scanner.shiftedTotal = scanner.shiftedTotal := by
  by_cases hshifts : op.shifts = true
  · obtain rfl : op = .shiftLent := by
      by_contra hother
      exact hop ⟨hshifts, fun heq => absurd heq hother⟩
    have hstream : scanner.window.lent = false := by
      by_contra hmemory
      exact hop ⟨rfl, fun _ => by simpa using hmemory⟩
    rw [(lent_of_streaming hstream mode).2]
    rfl
  · exact h.shiftedTotal_apply mode (by simpa using hshifts)

/-! ## Runs -/

/-- Every token is started at an offset that is a word. -/
def StartsWithin (mode : Mode) (scanner : Scanner σ) (ops : List Op) : Prop :=
  scanner.Along mode (fun _ here op => here.Starts op → here.frontierOffset < Word.bound) ops

instance {ops : List Op} : Decidable (scanner.StartsWithin mode ops) :=
  inferInstanceAs (Decidable (scanner.Along mode
    (fun _ here op => here.Starts op → here.frontierOffset < Word.bound) ops))

/-- No token is started further than half the range of words behind the bytes buffered. -/
def StartsNear (mode : Mode) (scanner : Scanner σ) (ops : List Op) : Prop :=
  scanner.Along mode (fun _ here op => here.Starts op →
    here.frontier ≤ here.window.filled + Word.bound / 2) ops

instance {ops : List Op} : Decidable (scanner.StartsNear mode ops) :=
  inferInstanceAs (Decidable (scanner.Along mode (fun _ here op => here.Starts op →
    here.frontier ≤ here.window.filled + Word.bound / 2) ops))

/-- After one operation the token starts at a word just if it did before and any token started
by it does. -/
theorem Sound.shiftedTotal_apply_lt_iff (h : scanner.Sound delivered) (mode : Mode) (op : Op) :
    (scanner.apply mode op).scanner.shiftedTotal < Word.bound ↔
      scanner.shiftedTotal < Word.bound ∧
        (scanner.Starts op → scanner.frontierOffset < Word.bound) := by
  have hmono := h.shiftedTotal_le_apply mode op
  by_cases hop : scanner.Starts op
  · constructor
    · intro hlater
      have hword := Nat.lt_of_le_of_lt hmono hlater
      exact ⟨hword, fun _ => shiftedTotal_of_starts mode hword hop ▸ hlater⟩
    · rintro ⟨hword, hfrontier⟩
      rw [shiftedTotal_of_starts mode hword hop]
      exact hfrontier hop
  · rw [h.shiftedTotal_of_not_starts mode hop]
    exact ⟨fun hword => ⟨hword, fun hstarts => absurd hstarts hop⟩, And.left⟩

/-- **The token starts at a word just if all tokens before did.** -/
theorem Sound.startsWithin_iff (h : scanner.Sound delivered)
    (hfirst : scanner.shiftedTotal < Word.bound) (ops : List Op) :
    scanner.StartsWithin mode ops ↔ (scanner.after mode ops).1.shiftedTotal < Word.bound := by
  induction ops using List.reverseRecOn with
  | nil => exact ⟨fun _ => hfirst, fun _ early op late hsplit => by simp at hsplit⟩
  | append_singleton ops op ih =>
    rw [after_concat, (h.run mode ops).shiftedTotal_apply_lt_iff mode op, ← ih]
    exact ⟨fun hall => ⟨hall.init, hall.last⟩, fun hboth => hboth.1.concat hboth.2⟩

/-- **Bytes that are delivered do not make an offset overflow**, if no token is started far
ahead of them. -/
theorem Sound.startsWithin_of_near (h : scanner.Sound delivered)
    (hfirst : scanner.shiftedTotal < Word.bound) {ops : List Op}
    (hnear : scanner.StartsNear mode ops)
    (hfew : (delivered ++ deliveredBytes (scanner.after mode ops).2).length < Word.bound / 2) :
    scanner.StartsWithin mode ops := by
  induction ops using List.reverseRecOn with
  | nil => exact (h.startsWithin_iff hfirst []).2 hfirst
  | append_singleton ops op ih =>
    rw [after_concat, deliveredBytes_append, ← List.append_assoc, List.length_append] at hfew
    have hbefore := ih hnear.init (by omega)
    refine hbefore.concat fun hstarts => ?_
    -- the token started before is at a word, so the positions belong to what is buffered
    have hword := (h.startsWithin_iff hfirst ops).1 hbefore
    have hahead := hnear.last hstarts
    have hstop := (h.run mode ops).stop_eq ((h.run mode ops).placed_of_lt hword)
    rw [Window.stop] at hstop
    rw [frontierOffset]
    omega

/-- As long as the window has not moved on, no token can have been started too far ahead. -/
theorem Sound.startsWithin_of_origin (h : scanner.Sound delivered) {ops : List Op}
    (horigin : (scanner.after mode ops).1.window.origin = 0) :
    scanner.StartsWithin mode ops := by
  have hfirst : scanner.window.origin = 0 :=
    Nat.le_zero.1 (horigin ▸ h.origin_le_after mode ops)
  exact (h.startsWithin_iff (h.shiftedTotal_lt_of_origin hfirst) ops).2
    ((h.run mode ops).shiftedTotal_lt_of_origin horigin)

end

/-- A token start at a word has its offset, and the selection is shifted out with it. -/
theorem shiftToken_of_lt (hword : scanner.shiftedTotal < Word.bound) :
    scanner.offset .checked = .ok scanner.shiftedTotal ∧
      scanner.shiftToken .checked =
        scanner.shift.map fun bytes => ⟨bytes, scanner.shiftedTotal⟩ := by
  have hoffset := offset_of_lt .checked hword
  exact ⟨hoffset, by rw [Scanner.shiftToken, hoffset]⟩

/-- At a token start that is no word both are stopped, if the window begins at one. -/
theorem shiftToken_of_le (horigin : scanner.window.origin < Word.bound)
    (hbeyond : Word.bound ≤ scanner.shiftedTotal) :
    scanner.offset .checked = .error .sumOverflow ∧
      scanner.shiftToken .checked = .stop .sumOverflow scanner := by
  have hoffset : scanner.offset .checked = .error .sumOverflow := by
    rw [offset, Window.base_of_lt horigin]
    exact if_pos (Mode.checked_rejects_iff.2 (Nat.not_lt.2 hbeyond))
  exact ⟨hoffset, by rw [Scanner.shiftToken, hoffset]⟩

/-- A window with its buffer shows the selection that is shifted out. -/
theorem shift_of_kept (hk : scanner.window.Kept) :
    scanner.shift = .pure scanner.bytes scanner.skip := by
  rw [Scanner.shift, view_of_kept hk]
  rfl

/-- **An offset overflows just if a token was started too far ahead.** In every state of a
checked scanner over any source, the offset of the token start and the next token are there if
all tokens were started at offsets that are words, and both are stopped from the first one on
that was not, with the scanner left as it is. Such a token takes a frontier that was moved more
than half the range of words ahead of what is buffered, as long as less than half the range is
delivered, and a window that has moved on. Over memory there is none. The token shows the
selection as long as the windows can be allocated. -/
theorem offset_exact_unless_started_far [Source σ] {config : Config} (source : σ)
    (hvalid : config.Valid) (hinitial : config.initialCapacity ≤ Word.maxAllocation) :
    (∃ built, ofSource .checked config source = .ok built ∧
      ∀ ops,
        let here := (built.scanner.after .checked ops).1
        let log := built.log ++ (built.scanner.after .checked ops).2
        (built.scanner.StartsWithin .checked ops →
          here.offset .checked = .ok here.shiftedTotal ∧
            here.shiftToken .checked =
              here.shift.map (fun bytes => ⟨bytes, here.shiftedTotal⟩) ∧
            (Affordable log → here.shift = .pure here.bytes here.skip)) ∧
        (¬built.scanner.StartsWithin .checked ops →
          here.offset .checked = .error .sumOverflow ∧
            here.shiftToken .checked = .stop .sumOverflow here) ∧
        ((deliveredBytes log).length < Word.bound / 2 → built.scanner.StartsNear .checked ops →
          built.scanner.StartsWithin .checked ops) ∧
        (here.window.base = 0 → built.scanner.StartsWithin .checked ops)) ∧
      ∀ data ops,
        let here := ((ofBytes data).after .checked ops).1
        here.offset .checked = .ok here.shiftedTotal ∧
          here.shiftToken .checked = .pure ⟨here.bytes, here.shiftedTotal⟩ here.skip := by
  constructor
  · have hbuilt := ofSource_of_valid .checked source hvalid hinitial
    have hsound := sound_ofSource hbuilt
    have hfirst : ((unread config source).peek .checked 0).scanner.shiftedTotal < Word.bound := by
      rw [shiftedTotal_ofSource hbuilt]
      decide
    refine ⟨_, hbuilt, fun ops => ?_⟩
    intro here log
    have hiff : _ ↔ here.shiftedTotal < Word.bound := hsound.startsWithin_iff hfirst ops
    have horigin : here.window.origin < Word.bound :=
      hsound.origin_lt_after (Nat.lt_of_le_of_lt (Nat.le_add_right ..) hfirst) ops
    refine ⟨fun hwithin => ?_, fun hfar => ?_, fun hfew hnear => ?_, fun hbase => ?_⟩
    · have hword := hiff.1 hwithin
      obtain ⟨hoffset, htoken⟩ := shiftToken_of_lt hword
      refine ⟨hoffset, htoken, fun hlog => ?_⟩
      exact shift_of_kept (kept_of_countable hbuilt hlog fun _ => .inl hword)
    · exact shiftToken_of_le horigin (Nat.le_of_not_lt fun hword => hfar (hiff.2 hword))
    · rw [deliveredBytes_append] at hfew
      exact hsound.startsWithin_of_near hfirst hnear hfew
    · rw [Window.base_of_lt horigin] at hbase
      exact hsound.startsWithin_of_origin hbase
  · intro data ops here
    have hwindow : here.window = .ofBytes data := window_after_ofBytes data .checked ops
    have hhere : here.Sound _ := (sound_ofBytes data).run .checked ops
    have hword := hhere.shiftedTotal_lt_of_origin (congrArg Window.origin hwindow)
    obtain ⟨hoffset, htoken⟩ := shiftToken_of_lt hword
    rw [shift_of_kept (kept_after_ofBytes data ops)] at htoken
    exact ⟨hoffset, htoken⟩

/-- Three runs over three bytes. Behind a window that has moved on by two of them, a token that
is started one byte ahead has an offset. So has one that is started where the frontier stops at
the last word, while the window begins with the stream. Behind the window that has moved on
there is none. -/
theorem offset_exact_unless_started_far_moved :
    let source : Source.Scripted := { data := [97, 98, 99] }
    let built := (unread { initialCapacity := 2 } source).peek .checked 0
    let near := [.moveTo 2, .skip, .peek 0, .moveTo 1, .skip]
    let first := [.moveTo 2, .skip, .moveTo (Word.bound - 1), .skip]
    let far := [.moveTo 2, .skip, .peek 0, .moveTo (Word.bound - 1), .skip]
    let here := (built.scanner.after .checked far).1
    (built.scanner.after .checked near).1.window.base = 2 ∧
      (built.scanner.after .checked near).1.offset .checked = .ok 3 ∧
      (built.scanner.after .checked first).1.offset .checked = .ok (Word.bound - 1) ∧
      here.window.base = 2 ∧ here.offset .checked = .error .sumOverflow ∧
      here.shiftToken .checked = .stop .sumOverflow here := by
  intro source built near first far here
  have hvalid : ({ initialCapacity := 2 } : Config).Valid := ⟨by decide, nofun⟩
  obtain ⟨⟨made, hmade, hoffset⟩, -⟩ :=
    offset_exact_unless_started_far source hvalid (by decide)
  obtain rfl : made = built :=
    Except.ok.inj (hmade.symm.trans (ofSource_of_valid .checked source hvalid (by decide)))
  obtain ⟨hexact, -, hnear, -⟩ := hoffset near
  obtain ⟨hwhole, -, -, hfront⟩ := hoffset first
  obtain ⟨-, hstopped, -⟩ := hoffset far
  have hword := (hexact (hnear (by decide +kernel) (by decide +kernel))).1
  have hlast := (hwhole (hfront (by decide +kernel))).1
  have hbeyond := hstopped (by decide +kernel)
  exact ⟨by decide +kernel, hword.trans (congrArg Except.ok (by decide +kernel)),
    hlast.trans (congrArg Except.ok (by decide +kernel)), by decide +kernel, hbeyond⟩

/-- **The offset overflows** on three bytes. The window has moved on past the two that were
skipped, and there the frontier is moved to the last word and a token started. -/
theorem offset_overflows :
    let source : Source.Scripted := { data := [97, 98, 99] }
    let built := (unread { initialCapacity := 2 } source).peek .checked 0
    let ops := [.moveTo 2, .skip, .peek 0, .moveTo (Word.bound - 1), .skip]
    let run := built.scanner.after .checked ops
    ofSource .checked { initialCapacity := 2 } source = .ok built ∧
      deliveredBytes (built.log ++ run.2) = [97, 98, 99] ∧
      run.1.offset .checked = .error .sumOverflow ∧
      (run.1.shiftToken .checked).result = .error .sumOverflow := by
  intro source built ops run
  have hvalid : ({ initialCapacity := 2 } : Config).Valid := ⟨by decide, nofun⟩
  exact ⟨ofSource_of_valid .checked source hvalid (by decide), by decide +kernel,
    by decide +kernel, by decide +kernel⟩

end Lookahead.Scanner

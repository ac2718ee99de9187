import Lookahead.Proofs.Streaming
import Lookahead.Source.Scripted

/-!
# Tokens tile the stream

What a caller takes out of a stream as tokens, and what is skipped between them, are
stretches of all that is delivered, one beginning where the other ends: no byte is lost
between two tokens and none is in both. This holds for every source, failing ones
included, as long as the frontier is looked at before a token is shifted. A token, or a
range that is skipped, may reach behind the end of what was delivered; it is clipped
there.

A skipped range may lie ahead of what has been delivered when it is skipped, so stretches
are read in what is delivered by the end of the run. A token is read when it is shifted;
that it is the same stretch of what is delivered in the end is what the look ahead is for
(`Scanner.Settled`).

## Main definitions

* `Stretch`: what an operation takes out, with `Scanner.stretches`.
* `Scanner.Settled`: what is delivered in the end, seen from any point of a run.
* `Scanner.Tokenizes`: a caller who looks at the frontier and then shifts.

## Main statements

* `Scanner.Sound.shiftToken_eq`: the token that is shifted.
* `Scanner.Sound.tile`: the stretches up to any point of a run.
* `Scanner.tokens_tile`: where each token of a run lies, and that no byte is lost between
  two of them.
-/
namespace Lookahead

/-- A part of the stream that an operation takes out: a token, or a range that is
skipped. -/
inductive Stretch where
  | token (token : Token)
  | skipped (start stop : Nat)

/-- The bytes of a stretch, a range being one of all bytes delivered. -/
def Stretch.bytes (delivered : List UInt8) : Stretch → List UInt8
  | .token taken => taken.data
  | .skipped start stop => (delivered.take stop).drop start

/-- Two ranges of a list that meet make up one. -/
theorem drop_take_append {α : Type} (data : List α) {first middle last : Nat}
    (hfirst : first ≤ middle) (hlast : middle ≤ last) :
    (data.take middle).drop first ++ (data.take last).drop middle =
      (data.take last).drop first := by
  have htake : data.take middle = (data.take last).take middle := by
    rw [List.take_take, Nat.min_eq_left hlast]
  have hdrop : (data.take last).drop middle =
      ((data.take last).drop first).drop (middle - first) := by
    rw [List.drop_drop, Nat.add_sub_cancel' hfirst]
  rw [htake, List.drop_take, hdrop, List.take_append_drop]

namespace Scanner

variable {σ : Type} {scanner : Scanner σ} {delivered data : List UInt8} {mode : Mode}

/-! ## Tokens -/

/-- What is delivered in the end begins with what has been delivered, and is no more than
that once the source has ended. -/
structure Settled (scanner : Scanner σ) (delivered data : List UInt8) : Prop where
  front : delivered <+: data
  ended : scanner.status.isActive = false → delivered = data

/-- **The token that is shifted** once the frontier is reached is the selection in what is
delivered in the end. -/
theorem Sound.shiftToken_eq (h : scanner.Sound delivered) (hk : scanner.window.Kept)
    (hsettled : scanner.Settled delivered data) (hr : scanner.Reaches scanner.frontierOffset)
    (hlt : scanner.frontierOffset < Word.bound) :
    scanner.shiftToken mode =
      .pure ⟨scanner.place.selection data, scanner.shiftedTotal⟩ scanner.skip := by
  have hoffset := offset_of_lt mode (Nat.lt_of_le_of_lt h.shifted_le hlt)
  rw [Scanner.shiftToken, hoffset, Scanner.shift, view_of_kept hk,
    h.selection_eq hk.placed hsettled.front hsettled.ended hr]
  rfl

/-- A token of a selection ends with the frontier or before it, and at a word if the
frontier is one. -/
theorem Sound.stop_selection (h : scanner.Sound delivered) (mode : Mode)
    (hlt : scanner.frontierOffset < Word.bound) (data : List UInt8) :
    let token : Token := ⟨scanner.place.selection data, scanner.shiftedTotal⟩
    token.offset + token.length ≤ scanner.frontierOffset ∧
      token.stop mode = .ok (token.offset + token.length) := by
  intro token
  have hle : token.offset + token.length ≤ scanner.frontierOffset := by
    have hshifted : scanner.shiftedTotal ≤ scanner.frontierOffset := h.shifted_le
    have hlength : token.length ≤ scanner.frontierOffset - scanner.shiftedTotal := by
      simp only [token, Token.length, Place.selection, place, List.length_drop, List.length_take]
      omega
    change scanner.shiftedTotal + token.length ≤ scanner.frontierOffset
    omega
  exact ⟨hle, Mode.add_of_lt mode (Nat.lt_of_le_of_lt hle hlt)⟩

/-- The selection runs from the token start over as many bytes as the frontier is ahead,
clipped at the end of the data. -/
theorem Sound.selection_eq_drop (h : scanner.Sound delivered) (data : List UInt8) :
    scanner.place.selection data =
      (data.take (min (scanner.shiftedTotal + scanner.pos) data.length)).drop
        (min scanner.shiftedTotal data.length) := by
  have hfrontier := h.frontierOffset_eq
  have hdrop : (data.take scanner.frontierOffset).drop (min scanner.shiftedTotal data.length) =
      (data.take scanner.frontierOffset).drop scanner.shiftedTotal := by
    have hlength : (data.take scanner.frontierOffset).length ≤ data.length :=
      List.length_take_le' ..
    rcases Nat.le_total scanner.shiftedTotal data.length with hle | hge
    · rw [Nat.min_eq_left hle]
    · rw [Nat.min_eq_right hge, List.drop_eq_nil_of_le hlength,
        List.drop_eq_nil_of_le (Nat.le_trans hlength hge)]
  rw [← List.take_eq_take_min, ← hfrontier, hdrop]
  rfl

/-! ## Runs -/

variable [Source σ]

/-- What an operation takes out of the stream, if it does. -/
def stretch? (mode : Mode) (scanner : Scanner σ) : Op → Option Stretch
  | .skip => some (.skipped scanner.shiftedTotal scanner.frontierOffset)
  | .shiftToken => (scanner.shiftToken mode).result.toOption.map .token
  | _ => none

/-- What a list of operations takes out of the stream, in order. -/
def stretches (mode : Mode) (scanner : Scanner σ) : List Op → List Stretch
  | [] => []
  | op :: ops =>
    (scanner.stretch? mode op).toList ++ (scanner.apply mode op).scanner.stretches mode ops

theorem stretches_concat (mode : Mode) (scanner : Scanner σ) (ops : List Op) (op : Op) :
    scanner.stretches mode (ops ++ [op]) =
      scanner.stretches mode ops ++ ((scanner.after mode ops).1.stretch? mode op).toList := by
  induction ops generalizing scanner with
  | nil => simp [stretches, after]
  | cons first ops ih => simp [stretches, after, ih]

/-- An operation that keeps the frontier a word, shifts a token only right after a look at
the frontier, and starts a token in no other way than by this or by skipping. -/
def MayShift (mode : Mode) (early : List Op) (here : Scanner σ) (op : Op) : Prop :=
  here.frontierOffset < Word.bound ∧ (op = .shiftToken → [.peek 0] <:+ early) ∧
    ((here.apply mode op).scanner.shiftedTotal = here.shiftedTotal ∨ op = .skip ∨ op = .shiftToken)

instance (early : List Op) (here : Scanner σ) : DecidablePred (MayShift mode early here) :=
  fun _ => inferInstanceAs (Decidable (_ ∧ _))

/-- The caller shifts tokens that have been looked at, and skips what lies between them. -/
def Tokenizes (mode : Mode) (scanner : Scanner σ) (ops : List Op) : Prop :=
  scanner.Along mode (MayShift mode) ops

instance {ops : List Op} : Decidable (scanner.Tokenizes mode ops) :=
  inferInstanceAs (Decidable (scanner.Along mode (MayShift mode) ops))

/-- The token start never moves back. -/
theorem Sound.shiftedTotal_le_after (h : scanner.Sound delivered) (mode : Mode) (ops : List Op) :
    scanner.shiftedTotal ≤ (scanner.after mode ops).1.shiftedTotal := by
  induction ops using List.reverseRecOn with
  | nil => exact Nat.le_refl _
  | append_singleton ops op ih =>
    rw [after_concat]
    exact Nat.le_trans ih ((h.run mode ops).shiftedTotal_le_apply mode op)

/-- To the end of a run the token starts at a word. -/
theorem Sound.shiftedTotal_after_lt (h : scanner.Sound delivered)
    (hlt : scanner.shiftedTotal < Word.bound) {ops : List Op}
    (hops : scanner.Tokenizes mode ops) : (scanner.after mode ops).1.shiftedTotal < Word.bound := by
  cases ops using List.reverseRecOn with
  | nil => exact hlt
  | append_singleton ops op =>
    obtain ⟨hfrontier, -, hstarts⟩ := hops.last
    have hshifted := Nat.lt_of_le_of_lt (h.run mode ops).shifted_le hfrontier
    rw [after_concat]
    rcases hstarts with heq | rfl | rfl
    · rw [heq]
      exact hshifted
    · exact hfrontier
    · rw [Scanner.apply, Outcome.scanner_map, Scanner.shiftToken, offset_of_lt mode hshifted]
      exact hfrontier

/-- Every point of a run is settled by its end. -/
theorem settled_after (delivered : List UInt8) (mode : Mode) (scanner : Scanner σ)
    {early ops : List Op} (hearly : early <+: ops) :
    (scanner.after mode early).1.Settled (delivered ++ deliveredBytes (scanner.after mode early).2)
      (delivered ++ deliveredBytes (scanner.after mode ops).2) := by
  obtain ⟨late, rfl⟩ := hearly
  rw [after_append, deliveredBytes_append, ← List.append_assoc]
  refine ⟨List.prefix_append .., fun hi => ?_⟩
  have hnone := deliveredBytes_of_requests (requests_after_of_not_active hi mode late)
  rw [hnone, List.append_nil]

/-- Where a token is shifted the frontier is reached. -/
theorem Sound.reaches_token (h : scanner.Sound delivered) {early late : List Op}
    (hops : scanner.Tokenizes mode (early ++ .shiftToken :: late))
    (hk : (scanner.after mode (early ++ .shiftToken :: late)).1.window.Kept) :
    (scanner.after mode early).1.Reaches (scanner.after mode early).1.frontierOffset :=
  h.reaches_after ((hops early .shiftToken late rfl).2.1 rfl) (kept_of_after hk)

/-- What an operation takes out is the range by which it moves the token start. -/
theorem Sound.stretch_eq (h : scanner.Sound delivered) (hk : scanner.window.Kept)
    (hsettled : scanner.Settled delivered data) {early : List Op} {op : Op}
    (hop : MayShift mode early scanner op)
    (hr : op = .shiftToken → scanner.Reaches scanner.frontierOffset) :
    (scanner.stretch? mode op).toList.flatMap (Stretch.bytes data) =
      (data.take (scanner.apply mode op).scanner.shiftedTotal).drop scanner.shiftedTotal := by
  obtain ⟨hlt, -, hstarts⟩ := hop
  cases op with
  | skip => exact List.flatMap_singleton ..
  | shiftToken =>
    rw [Scanner.apply, Outcome.scanner_map, stretch?, h.shiftToken_eq hk hsettled (hr rfl) hlt]
    exact List.flatMap_singleton ..
  | _ =>
    -- nothing is taken out, and the token start stays
    rw [hstarts.resolve_right (by simp)]
    exact (List.drop_eq_nil_of_le (List.length_take_le ..)).symm

/-- **Stretches tile the stream**: up to any point of a run they make up, in order, what is
delivered in the end between the first token start and the last. -/
theorem Sound.tile (h : scanner.Sound delivered) {ops : List Op}
    (hops : scanner.Tokenizes mode ops) (hk : (scanner.after mode ops).1.window.Kept)
    {early : List Op} (hearly : early <+: ops) :
    (scanner.stretches mode early).flatMap
        (Stretch.bytes (delivered ++ deliveredBytes (scanner.after mode ops).2)) =
      ((delivered ++ deliveredBytes (scanner.after mode ops).2).take
        (scanner.after mode early).1.shiftedTotal).drop scanner.shiftedTotal := by
  induction early using List.reverseRecOn with
  | nil => exact (List.drop_eq_nil_of_le (List.length_take_le ..)).symm
  | append_singleton early op ih =>
    have hshorter : early <+: ops := (List.prefix_append early [op]).trans hearly
    have hsettled := settled_after delivered mode scanner hshorter
    obtain ⟨late, rfl⟩ := hearly
    rw [List.append_assoc] at hops hk
    have hhere := h.run mode early
    have hstretch := hhere.stretch_eq (kept_of_after hk) hsettled (hops early op late rfl)
      fun htoken => by
        subst htoken
        exact h.reaches_token hops hk
    rw [stretches_concat, List.flatMap_append, ih hshorter, hstretch, after_concat]
    exact drop_take_append _ (h.shiftedTotal_le_after mode early)
      (hhere.shiftedTotal_le_apply mode op)

/-- A token that is shifted in a run is a stretch of what is delivered in the end. -/
theorem Sound.token_after (h : scanner.Sound delivered) {early late : List Op}
    (hops : scanner.Tokenizes mode (early ++ .shiftToken :: late))
    (hk : (scanner.after mode (early ++ .shiftToken :: late)).1.window.Kept) :
    let here := (scanner.after mode early).1
    let data := delivered ++ deliveredBytes (scanner.after mode (early ++ .shiftToken :: late)).2
    here.frontierOffset < Word.bound ∧
      here.shiftToken mode = .pure ⟨here.place.selection data, here.shiftedTotal⟩ here.skip := by
  intro here data
  have hlt : here.frontierOffset < Word.bound := (hops early .shiftToken late rfl).1
  have hsettled : here.Settled _ data :=
    settled_after delivered mode scanner (List.prefix_append early (.shiftToken :: late))
  exact ⟨hlt, (h.run mode early).shiftToken_eq (kept_of_after hk) hsettled
    (h.reaches_token hops hk) hlt⟩

/-- A token that is shifted later does not begin before the frontier. -/
theorem Sound.le_offset_later (h : scanner.Sound delivered) {early between rest : List Op}
    {later : Token}
    (hops : scanner.Tokenizes mode (early ++ .shiftToken :: (between ++ .shiftToken :: rest)))
    (hk : (scanner.after mode
      (early ++ .shiftToken :: (between ++ .shiftToken :: rest))).1.window.Kept)
    (hlater : ((scanner.after mode (early ++ .shiftToken :: between)).1.shiftToken mode).result =
      .ok later) :
    (scanner.after mode early).1.frontierOffset ≤ later.offset := by
  obtain ⟨-, hfirst⟩ := h.token_after hops hk
  have hsplit : early ++ .shiftToken :: (between ++ .shiftToken :: rest) =
      (early ++ .shiftToken :: between) ++ .shiftToken :: rest := by simp
  rw [hsplit] at hops hk
  obtain ⟨-, hsecond⟩ := h.token_after hops hk
  rw [hsecond] at hlater
  have hskip : ((scanner.after mode early).1.apply mode .shiftToken).scanner =
      (scanner.after mode early).1.skip := by
    rw [Scanner.apply, Outcome.scanner_map, hfirst, Outcome.scanner_pure]
  have hthere : (scanner.after mode (early ++ .shiftToken :: between)).1 =
      ((scanner.after mode early).1.skip.after mode between).1 := by
    rw [after_append, ← hskip]
    rfl
  rw [← Except.ok.inj hlater, hthere]
  exact (h.run mode early).skip.shiftedTotal_le_after mode between

/-- **Tokens tile the stream.** A token that is shifted has the offset of the token start,
and its data are what is delivered in the end from there up to the frontier. It ends at a
word, no later than any token after it begins. Tokens and skipped ranges make up, in order,
all that is delivered up to the last token start. -/
theorem tokens_tile {config : Config} (source : σ) (mode : Mode) (hvalid : config.Valid)
    (hinitial : config.initialCapacity ≤ Word.maxAllocation) :
    ∃ built, ofSource mode config source = .ok built ∧
      ∀ ops, built.scanner.Tokenizes mode ops →
        Affordable (built.log ++ (built.scanner.after mode ops).2) →
        let delivered := deliveredBytes (built.log ++ (built.scanner.after mode ops).2)
        (∀ early late, ops = early ++ .shiftToken :: late →
          let here := (built.scanner.after mode early).1
          ∃ token stop, (here.shiftToken mode).result = .ok token ∧
            token.offset = here.shiftedTotal ∧
            token.data =
              (delivered.take (min (here.shiftedTotal + here.pos) delivered.length)).drop
                (min here.shiftedTotal delivered.length) ∧
            token.stop mode = .ok stop ∧
            ∀ between later rest, late = between ++ .shiftToken :: rest →
              let there := (built.scanner.after mode (early ++ .shiftToken :: between)).1
              (there.shiftToken mode).result = .ok later → stop ≤ later.offset) ∧
        (built.scanner.stretches mode ops).flatMap (Stretch.bytes delivered) =
          delivered.take
            (min (built.scanner.after mode ops).1.shiftedTotal delivered.length) := by
  have hbuilt := ofSource_of_valid mode source hvalid hinitial
  have hmade := sound_ofSource hbuilt
  refine ⟨_, hbuilt, fun ops hops hlog => ?_⟩
  intro delivered
  have hstart : ((unread config source).peek mode 0).scanner.shiftedTotal < Word.bound := by
    rw [shiftedTotal_ofSource hbuilt]
    decide
  have hk : (((unread config source).peek mode 0).scanner.after mode ops).1.window.Kept :=
    kept_of_countable hbuilt hlog fun _ => .inl (hmade.shiftedTotal_after_lt hstart hops)
  have hdelivered : delivered = _ ++ _ := deliveredBytes_append ..
  refine ⟨?_, ?_⟩
  · rintro early late rfl here
    obtain ⟨hlt, htoken⟩ := hmade.token_after hops hk
    rw [← hdelivered] at htoken
    have hhere := hmade.run mode early
    obtain ⟨hle, hstop⟩ := hhere.stop_selection mode hlt delivered
    refine ⟨_, _, congrArg Outcome.result htoken, rfl, hhere.selection_eq_drop delivered, hstop, ?_⟩
    rintro between later rest rfl there hlater
    exact Nat.le_trans hle (hmade.le_offset_later hops hk hlater)
  · have htile := hmade.tile hops hk List.prefix_rfl
    rw [← hdelivered, shiftedTotal_ofSource hbuilt, List.drop_zero] at htile
    rw [htile, ← List.take_eq_take_min]

/-- A window of two bytes and a source that fails after five: a token of three bytes, a
range that is skipped before it is read, a token that the failure cuts short, and a range
behind the end. -/
theorem tokens_tile_failed :
    let source : Source.Scripted :=
      { data := [1, 2, 3, 4, 5, 6, 7, 8]
        script := [.deliver 2, .fail ⟨.interrupted, none⟩, .deliver 1, .deliver 2,
          .fail ⟨.other, some "disk on fire"⟩] }
    let built := (unread { initialCapacity := 2 } source).peek .checked 0
    let ops := [.moveTo 2, .peek 0, .shiftToken, .moveTo 1, .skip, .free 2, .moveTo 4, .peek 0,
      .shiftToken, .moveTo 1, .skip]
    let delivered := deliveredBytes (built.log ++ (built.scanner.after .checked ops).2)
    let first := (built.scanner.after .checked (ops.take 2)).1
    let second := (built.scanner.after .checked (ops.take 8)).1
    delivered = [1, 2, 3, 4, 5] ∧
      (∃ token stop, (first.shiftToken .checked).result = .ok token ∧ token.data = [1, 2] ∧
        token.stop .checked = .ok stop ∧ ∀ later,
          (second.shiftToken .checked).result = .ok later → stop ≤ later.offset) ∧
      (∃ token, (second.shiftToken .checked).result = .ok token ∧ token.data = [4, 5]) ∧
      (built.scanner.stretches .checked ops).flatMap (Stretch.bytes delivered) = delivered := by
  intro source built ops delivered first second
  let config : Config := { initialCapacity := 2 }
  have hvalid : config.Valid := ⟨by decide, nofun⟩
  obtain ⟨_, hbuilt, htiles⟩ := tokens_tile source .checked hvalid (by decide)
  obtain ⟨-, -, rfl⟩ := ofSource_eq_ok_iff.1 hbuilt
  obtain ⟨htokens, hall⟩ := htiles ops (by decide +kernel) (by decide +kernel)
  have hdelivered : delivered = [1, 2, 3, 4, 5] := by decide +kernel
  obtain ⟨token, stop, hresult, -, hdata, hstop, hlater⟩ := htokens (ops.take 2) (ops.drop 3) rfl
  obtain ⟨clipped, -, hclipped, -, hshort, -⟩ := htokens (ops.take 8) (ops.drop 9) rfl
  refine ⟨hdelivered, ⟨token, stop, hresult, hdata.trans (by decide +kernel), hstop, fun later =>
    hlater ((ops.take 8).drop 3) later (ops.drop 9) rfl⟩,
    ⟨clipped, hclipped, hshort.trans (by decide +kernel)⟩, hall.trans (by decide +kernel)⟩

end Scanner
end Lookahead

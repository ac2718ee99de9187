import Lookahead.Proofs.Scanner.Follows
import Lookahead.Proofs.Scanner.Induction

/-!
# Streaming is scanning in memory

A scanner over an honest source answers every look ahead from the whole input,
however the source cuts it into reads and however the window moves and grows. So
does a scanner that has the input in memory: both are scanners that stream the
same data (`Scanner.Streams`), one of them with everything delivered already.
What such a scanner answers is determined by the data and its place in them.

## Main definitions

* `Scanner.Streams`: a scanner whose source delivers the rest of the data.
* `Scanner.Reaches`: a position is in the window or the source has ended.

## Main statements

* `Scanner.Streams.result_peek` and `Scanner.Streams.result_peekRune`: what looking
  ahead answers.
* `Scanner.Streams.selection_eq` and `Scanner.Streams.err_eq`: the selection and the
  end of the input, once the frontier has been looked at.
* `Scanner.streaming_agrees_in_memory`: both kinds of scanners agree along a run.
-/
namespace Lookahead

namespace Place

/-- The selection at a place of the data. -/
def selection (place : Place) (data : List UInt8) : List UInt8 :=
  (data.take place.frontier).drop place.shifted

/-- What an operation answers at a place of the data. -/
def answer (place : Place) (data : List UInt8) (lent : Bool) : Op → Answer
  | .peek distance => .byte (place.byteAt data distance)
  | .peekRune distance =>
    let lead := place.byteAt data distance
    .rune (Rune.decode lead ((Scanner.followers lead distance).map (place.byteAt data)))
      (Rune.width lead)
  | .bytes | .shift => .bytes (place.selection data)
  | .shiftToken => .token ⟨place.selection data, place.shifted⟩
  | .lentBytes | .shiftLent => .lent (if lent then some (place.selection data) else none)
  | .moveBy _ | .moveTo _ | .skip | .free _ => .done

end Place

/-- Whether an operation hands out the selection. -/
def Op.selects : Op → Bool
  | .bytes | .shift | .shiftToken | .lentBytes | .shiftLent => true
  | _ => false

namespace Scanner

variable {σ : Type} [Source σ]

/-- What holds of a scanner without a limit that follows its data: its source has not
failed. -/
structure Streams (scanner : Scanner σ) (data delivered : List UInt8) : Prop
    extends scanner.Follows data delivered where
  unfailed : scanner.status.failure? = none
  unlimited : scanner.limit? = none

/-- A position of the stream is in the window, or there is nothing to wait for. -/
def Reaches (scanner : Scanner σ) (position : Nat) : Prop :=
  scanner.status.isActive = false ∨ position < scanner.window.stop

theorem streams_unread {config : Config} {source : σ} {data : List UInt8} (hvalid : config.Valid)
    (hlimit : config.maxCapacity? = none) (hhonest : Source.Delivers source data) :
    (unread config source).Streams data [] :=
  { follows_unread hvalid hhonest with
    unfailed := rfl
    unlimited := hlimit }

/-- A scanner over memory streams what has been delivered in full. -/
theorem streams_ofBytes (data : List UInt8) : (ofBytes data).Streams data data := by
  refine { sound_ofBytes data with
    kept := Window.kept_ofBytes data
    front := List.prefix_rfl
    honest := ⟨fun _ rest => rest = [], ?_, List.drop_length⟩
    ended := fun _ => rfl
    unfailed := rfl
    unlimited := rfl }
  rintro source _ room rfl -
  exact .inr ⟨0, rfl, Nat.le_refl _, fun _ => rfl, rfl, rfl⟩

/-! ## Passes -/

section
variable {scanner : Scanner σ} {data delivered : List UInt8} {mode : Mode}

/-- A pass keeps a scanner streaming its data: without a limit nothing is refused. -/
theorem Streams.refill (h : scanner.Streams data delivered) (ha : scanner.status = .active)
    {target : Nat} (hk : (scanner.refill mode target).scanner.window.Kept) :
    (scanner.refill mode target).scanner.Streams data
      (delivered ++ deliveredBytes (scanner.refill mode target).log) := by
  obtain ⟨hfollows, hfailure⟩ := h.toFollows.refill ha hk
  have hsteady := (h.reading_refill (Status.isActive_iff.2 ha) mode target).steady
  refine { hfollows with unfailed := ?_, unlimited := hsteady.limit.trans h.unlimited }
  rcases hfailure with hf | ⟨limit, hn, -⟩
  · exact hf
  · have hlimit := limit_of_nextSize hn
    rw [h.unlimited] at hlimit
    cases hlimit

/-- Looking ahead keeps a scanner streaming its data. -/
theorem Streams.passes (h : scanner.Streams data delivered) {outcome : Outcome σ Unit}
    (hp : Passes mode scanner outcome) (hk : outcome.scanner.window.Kept) :
    outcome.scanner.Streams data (delivered ++ deliveredBytes outcome.log) := by
  induction hp with
  | none => simpa using h
  | stuck _ hlost => exact absurd hk hlost
  | more _ _ ha _ ih =>
    rw [Outcome.log_after, deliveredBytes_append, ← List.append_assoc]
    have hbefore := ih ((inherits_refill mode _ _).kept hk)
    exact hbefore.refill (Status.isActive_iff.1 ha) hk

/-- Every operation keeps a scanner streaming its data. -/
theorem Streams.apply (h : scanner.Streams data delivered) {op : Op}
    (hk : (scanner.apply mode op).scanner.window.Kept) :
    (scanner.apply mode op).scanner.Streams data
      (delivered ++ deliveredBytes (scanner.apply mode op).log) := by
  rcases passes_or_quiet mode scanner op with hp | hq
  · exact h.passes hp hk
  · exact { h.toFollows.apply hk with
      unfailed := hq.status ▸ h.unfailed
      unlimited := hq.limit ▸ h.unlimited }

theorem Streams.run (h : scanner.Streams data delivered) {ops : List Op}
    (hk : (scanner.after mode ops).1.window.Kept) :
    (scanner.after mode ops).1.Streams data
      (delivered ++ deliveredBytes (scanner.after mode ops).2) := by
  induction ops using List.reverseRecOn with
  | nil => simpa [after] using h
  | append_singleton ops op ih =>
    have hbefore := ih (kept_of_after hk)
    rw [after_concat] at hk ⊢
    rw [deliveredBytes_append, ← List.append_assoc]
    exact hbefore.apply hk

/-! ## What is seen -/

/-- Once the source has ended everything has been delivered. -/
theorem Streams.delivered_eq (h : scanner.Streams data delivered)
    (hi : scanner.status.isActive = false) : delivered = data :=
  h.ended (Status.eq_exhausted h.unfailed hi)

omit [Source σ] in
/-- The selection is what was delivered of the bytes between the token start and the
frontier. -/
theorem Sound.bytes_eq_selection (h : scanner.Sound delivered) (hp : scanner.window.Placed) :
    scanner.bytes = scanner.place.selection delivered := by
  rw [bytes, Window.segment, h.bytes_eq hp, List.take_drop, List.drop_drop]
  rfl

omit [Source σ] in
/-- A selection up to a frontier that is reached is that of all bytes that are ever
delivered. -/
theorem Sound.selection_eq (h : scanner.Sound delivered) (hp : scanner.window.Placed)
    (hfront : delivered <+: data)
    (hended : scanner.status.isActive = false → delivered = data)
    (hr : scanner.Reaches scanner.frontierOffset) :
    scanner.bytes = scanner.place.selection data := by
  have htake : data.take scanner.frontierOffset = delivered.take scanner.frontierOffset := by
    rcases hr with hi | hlt
    · rw [hended hi]
    · rw [h.stop_eq hp] at hlt
      obtain ⟨rest, rfl⟩ := hfront
      exact List.take_append_of_le_length (Nat.le_of_lt hlt)
  rw [h.bytes_eq_selection hp]
  exact congrArg (List.drop scanner.shiftedTotal) htake.symm

theorem Streams.selection_eq (h : scanner.Streams data delivered)
    (hr : scanner.Reaches scanner.frontierOffset) :
    scanner.bytes = scanner.place.selection data :=
  h.toSound.selection_eq h.kept.placed h.front h.delivered_eq hr

/-- The end of the input is reported just if a frontier that is reached is behind
the data. -/
theorem Streams.err_eq (h : scanner.Streams data delivered)
    (hr : scanner.Reaches scanner.frontierOffset) :
    scanner.err = if scanner.frontierOffset < data.length then none else some .exhausted := by
  have hle := h.front.length_le
  have hstop := h.stop_eq h.kept.placed
  rw [Window.stop] at hstop
  by_cases ha : scanner.status.isActive = true
  · rcases hr with hi | hlt
    · simp [ha] at hi
    · rw [Window.stop] at hlt
      have hlt' : scanner.frontierOffset < data.length := by omega
      simp only [err, Status.isActive_iff.1 ha, if_pos hlt']
  · have hi : scanner.status.isActive = false := by simpa using ha
    have hiff : scanner.frontier < scanner.window.filled ↔
        scanner.frontierOffset < data.length := by
      rw [← h.delivered_eq hi, ← hstop, frontierOffset]
      omega
    simp only [err, Status.eq_exhausted h.unfailed hi, hiff]

/-! ## What is answered -/

/-- Looking ahead reaches the byte that is looked at. -/
theorem reaches_fill {target : Nat} (hk : (scanner.fill mode target).scanner.window.Kept) :
    (scanner.fill mode target).scanner.Reaches target :=
  fill_reaches ((passes_fill scanner target).result_of_kept hk)

/-- Without a limit every distance is in reach: the data end before the last word. -/
theorem Streams.inReach (h : scanner.Streams data delivered) (hdata : data.length < Word.bound)
    (distance : Nat) : scanner.InReach data distance where
  within := by simp [h.unlimited]
  past := fun hb => Nat.le_trans (Nat.le_of_lt hdata) hb

/-- A look ahead answers with the byte of the data. -/
theorem Streams.result_peek (h : scanner.Streams data delivered)
    (hdata : data.length < Word.bound) {distance : Nat}
    (hk : (scanner.peek mode distance).scanner.window.Kept) :
    (scanner.peek mode distance).result =
      .ok (scanner.place.byteAt data distance) :=
  (h.peek_inReach h.unfailed (h.inReach hdata distance) hk).1

/-- A look ahead leaves a scanner at the same place of the same data. -/
theorem Streams.peek (h : scanner.Streams data delivered) {distance : Nat}
    (hk : (scanner.peek mode distance).scanner.window.Kept) :
    (scanner.peek mode distance).scanner.Streams data
        (delivered ++ deliveredBytes (scanner.peek mode distance).log) ∧
      (scanner.peek mode distance).scanner.place = scanner.place :=
  ⟨h.passes (passes_peek scanner distance) hk,
    (h.toSound.passes (passes_peek scanner distance)).steady.place_eq⟩

/-- Once the frontier has been looked at it is reached. -/
theorem Sound.reaches_peek (h : scanner.Sound delivered)
    (hk : (scanner.peek mode 0).scanner.window.Kept) :
    (scanner.peek mode 0).scanner.Reaches (scanner.peek mode 0).scanner.frontierOffset := by
  have hfrontier : (scanner.peek mode 0).scanner.frontierOffset = scanner.frontierOffset :=
    (h.passes (passes_peek scanner 0)).steady.frontier
  rw [hfrontier]
  rw [scanner_peek (by simpa using h.frontier_lt)] at hk ⊢
  exact reaches_fill hk

/-- A look ahead for a character answers with the one in the data. -/
theorem Streams.result_peekRune (h : scanner.Streams data delivered)
    (hdata : data.length < Word.bound) {distance : Nat}
    (hk : (scanner.peekRune mode distance).scanner.window.Kept) :
    (scanner.peekRune mode distance).result =
      let lead := scanner.place.byteAt data distance
      .ok (Rune.decode lead ((followers lead distance).map (scanner.place.byteAt data)),
        Rune.width lead) :=
  (h.peekRune_inReach h.unfailed (fun d _ => h.inReach hdata d) hk).1

/-- **The answers of a scanner are determined by the data and its place in them**,
for operations that hand out the selection once the frontier is reached. -/
theorem Streams.result_apply (h : scanner.Streams data delivered)
    (hdata : data.length < Word.bound) (hlt : scanner.place.frontier < Word.bound) {op : Op}
    (hmove : scanner.place.Permits op)
    (hfree : ∀ n, op = .free n → scanner.freedTotal + n ≤ scanner.shiftedTotal)
    (hselect : op.selects = true → scanner.Reaches scanner.frontierOffset)
    (hk : (scanner.apply mode op).scanner.window.Kept) :
    (scanner.apply mode op).result =
      .ok (scanner.place.answer data scanner.window.lent op) := by
  cases op with
  | peek distance =>
    rw [Scanner.apply, Outcome.result_map, h.result_peek hdata hk]
    rfl
  | peekRune distance =>
    rw [Scanner.apply, Outcome.result_map, h.result_peekRune hdata hk]
    rfl
  | moveBy delta =>
    rw [Scanner.apply, moveBy_eq mode hmove]
    rfl
  | moveTo n => rfl
  | bytes =>
    rw [Scanner.apply, view_of_kept h.kept, h.selection_eq (hselect rfl)]
    rfl
  | shift =>
    rw [Scanner.apply, Scanner.shift, view_of_kept h.kept, h.selection_eq (hselect rfl)]
    rfl
  | shiftToken =>
    have hword := offset_of_lt mode (Nat.lt_of_le_of_lt h.shifted_le hlt)
    rw [Scanner.apply, Scanner.shiftToken, hword, Scanner.shift, view_of_kept h.kept,
      h.selection_eq (hselect rfl)]
    rfl
  | skip => rfl
  | free n =>
    rw [Scanner.apply, Outcome.result_map, (h.free_of_le mode (hfree n rfl)).1]
    rfl
  | lentBytes =>
    rw [Scanner.apply, Outcome.result_pure, lentBytes?, h.selection_eq (hselect rfl)]
    rfl
  | shiftLent =>
    rw [Scanner.apply, Outcome.result_map, Scanner.shiftLent?, lentBytes?,
      h.selection_eq (hselect rfl)]
    cases hl : scanner.window.lent <;> rfl

end

/-! ## Two scanners of the same data -/

section
variable {τ : Type} [Source τ] {s : Scanner σ} {t : Scanner τ} {data early late : List UInt8}
  {mode : Mode}

/-- Scanners that have reached the same frontier have the same selection and agree on
the end of the input. -/
theorem Streams.bytes_err_eq (hs : s.Streams data early) (ht : t.Streams data late)
    (hplace : s.place = t.place) (hsr : s.Reaches s.frontierOffset)
    (htr : t.Reaches t.frontierOffset) : s.bytes = t.bytes ∧ s.err = t.err := by
  have hfrontier : s.frontierOffset = t.frontierOffset := congrArg Place.frontier hplace
  refine ⟨?_, ?_⟩
  · rw [hs.selection_eq hsr, ht.selection_eq htr, hplace]
  · rw [hs.err_eq hsr, ht.err_eq htr, hfrontier]

/-- Scanners at the same place give the same answers. -/
theorem Streams.answers_eq (hs : s.Streams data early) (ht : t.Streams data late)
    (hdata : data.length < Word.bound) (hplace : s.place = t.place)
    (hlt : t.place.frontier < Word.bound) (hfreed : s.freedTotal = t.freedTotal) {op : Op}
    (hop : op ≠ .lentBytes ∧ op ≠ .shiftLent) (hmove : t.place.Permits op)
    (hfree : ∀ n, op = .free n → t.freedTotal + n ≤ t.shiftedTotal)
    (hselect : op.selects = true →
      s.Reaches s.frontierOffset ∧ t.Reaches t.frontierOffset)
    (hsk : (s.apply mode op).scanner.window.Kept)
    (htk : (t.apply mode op).scanner.window.Kept) :
    ∃ answer, (s.apply mode op).result = .ok answer ∧ (t.apply mode op).result = .ok answer := by
  have hlent : t.place.answer data s.window.lent op = t.place.answer data t.window.lent op := by
    cases op with
    | lentBytes => exact absurd rfl hop.1
    | shiftLent => exact absurd rfl hop.2
    | _ => rfl
  have hshifted : s.shiftedTotal = t.shiftedTotal := congrArg Place.shifted hplace
  refine ⟨t.place.answer data t.window.lent op, ?_, ?_⟩
  · rw [← hlent, ← hplace]
    refine hs.result_apply hdata (hplace ▸ hlt) (hplace ▸ hmove) ?_ (fun h => (hselect h).1) hsk
    rwa [hfreed, hshifted]
  · exact ht.result_apply hdata hlt hmove hfree (fun h => (hselect h).2) htk

end

/-! ## Runs -/

/-- A caller who frees within what one of two scanners at the same place shifted
does so for the other. -/
theorem freesWithin_of_place {τ : Type} [Source τ] {mode : Mode} {s : Scanner σ} {t : Scanner τ}
    {early late : List UInt8} (hs : s.Sound early) (ht : t.Sound late) (hplace : s.place = t.place)
    (hlt : t.place.frontier < Word.bound) {ops : List Op} (hops : ∀ op ∈ ops, op ≠ .shiftLent)
    (hmove : t.MovesWithin mode ops) (hfree : t.FreesWithin mode ops) :
    s.FreesWithin mode ops := by
  rintro first op last rfl n hop
  have hlent : ∀ op ∈ first, op ≠ .shiftLent := fun op ho => hops op (by simp [ho])
  have hshifted : (s.after mode first).1.shiftedTotal = (t.after mode first).1.shiftedTotal :=
    congrArg Place.shifted (place_run hs ht hplace hlt hlent hmove.of_append)
  rw [hshifted]
  exact hfree first op last rfl n hop

/-- Where a run ends with a look at the frontier, that is reached. -/
theorem Sound.reaches_after {scanner : Scanner σ} {delivered : List UInt8} {mode : Mode}
    (h : scanner.Sound delivered) {ops : List Op} (hlook : [.peek 0] <:+ ops)
    (hk : (scanner.after mode ops).1.window.Kept) :
    (scanner.after mode ops).1.Reaches (scanner.after mode ops).1.frontierOffset := by
  obtain ⟨early, rfl⟩ := hlook
  rw [after_concat] at hk ⊢
  exact (h.run mode early).reaches_peek hk

/-- **A streaming scanner equals the scanner in memory.** Over a source that
delivers the data honestly, in whatever portions, and without a limit, the same
operations lead to the same places and the same bytes ahead. The selection, the
end of the input and what is shifted out agree whenever the frontier has just been
looked at. -/
theorem streaming_agrees_in_memory {config : Config} {source : σ} {data : List UInt8}
    (mode : Mode) (hvalid : config.Valid) (hlimit : config.maxCapacity? = none)
    (hinitial : config.initialCapacity ≤ Word.maxAllocation)
    (hhonest : Source.Delivers source data) (hdata : data.length < Word.bound) :
    ∃ built, ofSource mode config source = .ok built ∧
      ∀ ops, (∀ op ∈ ops, op ≠ .lentBytes ∧ op ≠ .shiftLent) →
        (ofBytes data).MovesWithin mode ops → (ofBytes data).FreesWithin mode ops →
        Affordable (built.log ++ (built.scanner.after mode ops).2) →
        ∀ early late, ops = early ++ late →
          let streaming := (built.scanner.after mode early).1
          let memory := ((ofBytes data).after mode early).1
          streaming.pos = memory.pos ∧ streaming.offset mode = memory.offset mode ∧
            ([.peek 0] <:+ early →
              streaming.bytes = memory.bytes ∧ streaming.err = memory.err) ∧
            ∀ op ∈ late.head?, (op.selects = true → [.peek 0] <:+ early) →
              ∃ answer, (streaming.apply mode op).result = .ok answer ∧
                (memory.apply mode op).result = .ok answer := by
  have hbuilt := ofSource_of_valid mode source hvalid hinitial
  refine ⟨_, hbuilt, ?_⟩
  rintro _ hops hmove hfree hlog early late rfl streaming memory
  -- both stream the data, and the look at the first byte has moved nothing
  obtain ⟨hmade, hplace₀⟩ := (streams_unread hvalid hlimit hhonest).peek
    (kept_ofSource hbuilt (affordable_append.1 hlog).1)
  have hmem := streams_ofBytes data
  have hword₀ : (ofBytes data).place.frontier < Word.bound := (by decide : 0 < Word.bound)
  -- the token starts at a word to the end, so the window is kept
  have hend := hmem.frontier_after_lt hword₀ hmove
  rw [← place_run hmade.toSound hmem.toSound hplace₀ hword₀ (fun op ho => (hops op ho).2)
    hmove] at hend
  have hkept := kept_of_countable hbuilt hlog fun _ =>
    .inl (Nat.lt_of_le_of_lt (hmade.toSound.run mode _).shifted_le hend)
  have hs : streaming.Streams data _ := hmade.run (kept_of_after hkept)
  have hm : memory.Streams data _ := hmem.run (kept_after_ofBytes data early)
  -- what is promised of the whole run is promised of its part
  have hlent : ∀ op ∈ early, op ≠ .shiftLent := fun op ho => (hops op (by simp [ho])).2
  have hplace : streaming.place = memory.place :=
    place_run hmade.toSound hmem.toSound hplace₀ hword₀ hlent hmove.of_append
  have hword : memory.place.frontier < Word.bound :=
    hmem.frontier_after_lt hword₀ hmove.of_append
  have hmfreed : memory.freedTotal = freedBy early :=
    hmem.freedTotal_after rfl hfree.of_append hm.kept.placed
  have hsfreed : streaming.freedTotal = freedBy early :=
    hmade.freedTotal_after (freedTotal_ofSource hbuilt)
      (freesWithin_of_place hmade.toSound hmem.toSound hplace₀ hword₀ hlent hmove.of_append
        hfree.of_append) hs.kept.placed
  have hreach (hlook : [.peek 0] <:+ early) :
      streaming.Reaches streaming.frontierOffset ∧ memory.Reaches memory.frontierOffset :=
    ⟨hmade.reaches_after hlook hs.kept, hmem.reaches_after hlook hm.kept⟩
  obtain ⟨hpos, hoffset⟩ := hs.toSound.pos_offset_eq mode hm.toSound hplace hword
  refine ⟨hpos, hoffset, fun hlook => ?_, fun op hop hselect => ?_⟩
  · exact hs.bytes_err_eq hm hplace (hreach hlook).1 (hreach hlook).2
  · cases late with
    | nil => exact nomatch hop
    | cons next rest =>
      cases Option.some.inj hop
      refine hs.answers_eq hm hdata hplace hword (hsfreed.trans hmfreed.symm) (hops op (by simp))
        (hmove early op rest rfl) ?_ (fun h => hreach (hselect h)) (kept_apply_of_after hkept)
        (kept_apply_of_after (kept_after_ofBytes data (early ++ op :: rest)))
      rw [hmfreed]
      exact hfree early op rest rfl

/-- A source that is interrupted and delivers little at a time, and a window of two
bytes: the token of two bytes lies behind three that are skipped and freed in part. -/
theorem streaming_agrees_in_memory_skipped :
    let source : Source.Scripted :=
      { data := [1, 2, 3, 4, 5, 6]
        script := [.deliver 1, .fail ⟨.interrupted, none⟩, .deliver 3], pace? := some 1 }
    let built := (unread { initialCapacity := 2 } source).peek .checked 0
    let early := [.moveTo 3, .skip, .free 2, .moveTo 2, .peek 0]
    let streaming := (built.scanner.after .checked early).1
    let memory := ((ofBytes source.data).after .checked early).1
    streaming.window.base = 3 ∧
      ∃ answer, (streaming.apply .checked .shift).result = .ok answer ∧
        (memory.apply .checked .shift).result = .ok answer := by
  intro source built early streaming memory
  let config : Config := { initialCapacity := 2 }
  have hvalid : config.Valid := ⟨by decide, nofun⟩
  have hhonest : Source.Delivers source source.data :=
    Source.delivers_scripted ⟨by decide, by decide⟩
  obtain ⟨_, hbuilt, hagree⟩ :=
    streaming_agrees_in_memory .checked hvalid rfl (by decide) hhonest (by decide)
  obtain ⟨-, -, rfl⟩ := ofSource_eq_ok_iff.1 hbuilt
  refine ⟨by decide +kernel, ?_⟩
  exact (hagree (early ++ [.shift]) (by decide) (by decide +kernel) (by decide +kernel)
    (by decide +kernel) early [.shift] rfl).2.2.2 .shift rfl
    fun _ => ⟨[.moveTo 3, .skip, .free 2, .moveTo 2], rfl⟩

end Scanner
end Lookahead

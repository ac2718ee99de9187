import Lookahead.Proofs.Scanner.Sizes
import Lookahead.Proofs.Streaming
import Mathlib.Algebra.Order.Ring.Nat

/-!
# The limit is exact

A limit bounds every window, and it is met by no token that is shorter: as long as all
bytes looked at lie within the limit from the token start, a scanner with a limit
answers as one without. A look behind the limit at a token that fills it is refused,
because a window as large as the limit slides whenever it does not begin with the
token. What was buffered by then stays readable, and the source is not asked again.

## Main definitions

* `Scanner.LooksShort`: all bytes looked at lie within a limit from the token start.

## Main statements

* `Scanner.Follows.run_inReach`: a run that looks at nothing out of reach does not fail.
* `Scanner.Follows.fill_refused`: a token that does not fit into the limit is refused.
* `Scanner.limit_exact`: windows stay within the limit, and a look fails just if it goes
  behind the limit at a token that fills it.
-/
namespace Lookahead.Scanner

variable {σ : Type} [Source σ] {data delivered : List UInt8} {mode : Mode}

/-! ## Below the limit -/

section
variable {scanner : Scanner σ} {op : Op}

/-- What is looked at is what the data have the caller look at, unless it is refused. -/
theorem Follows.sights_eq (h : scanner.Follows data delivered)
    (hf : scanner.status.failure? = none)
    (hin : ∀ distance ∈ scanner.sights mode op, scanner.InReach data distance)
    (hk : (scanner.apply mode op).scanner.window.Kept) :
    scanner.sights mode op = scanner.place.sights data op := by
  cases op with
  | peekRune distance =>
    have hfirst : scanner.InReach data distance := by
      refine hin distance ?_
      rw [sights]
      split <;> exact List.mem_cons_self
    have hlead := kept_of_peekRune hk
    simp only [sights, (h.peek_inReach hf hfirst hlead).1, Place.sights]
  | _ => rfl

/-- An operation that looks at nothing out of reach does not fail, and answers a look
ahead from the data. -/
theorem Follows.apply_inReach (h : scanner.Follows data delivered)
    (hf : scanner.status.failure? = none)
    (hin : ∀ distance ∈ scanner.place.sights data op, scanner.InReach data distance)
    (hk : (scanner.apply mode op).scanner.window.Kept) :
    (op.looks = true → (scanner.apply mode op).result =
        .ok (scanner.place.answer data scanner.window.lent op)) ∧
      (scanner.apply mode op).scanner.status.failure? = none := by
  cases hlook : op.looks with
  | false =>
    refine ⟨nofun, ?_⟩
    rw [(quiet_apply mode scanner hlook).status]
    exact hf
  | true =>
    cases op with
    | peek distance =>
      obtain ⟨hresult, hfailure⟩ := h.peek_inReach hf (hin distance (List.mem_singleton.2 rfl)) hk
      refine ⟨fun _ => ?_, hfailure⟩
      rw [Scanner.apply, Outcome.result_map, hresult]
      rfl
    | peekRune distance =>
      obtain ⟨hresult, hfailure⟩ := h.peekRune_inReach hf hin hk
      refine ⟨fun _ => ?_, hfailure⟩
      rw [Scanner.apply, Outcome.result_map, hresult]
      rfl
    | _ => cases hlook

/-- A run that looks at nothing out of reach does not fail. -/
theorem Follows.run_inReach (h : scanner.Follows data delivered)
    (hf : scanner.status.failure? = none) {ops : List Op}
    (hin : scanner.Along mode
      (fun _ here op => ∀ distance ∈ here.sights mode op, here.InReach data distance) ops)
    (hk : (scanner.after mode ops).1.window.Kept) :
    (scanner.after mode ops).1.status.failure? = none := by
  induction ops using List.reverseRecOn with
  | nil => exact hf
  | append_singleton ops op ih =>
    have hbefore := kept_of_after hk
    rw [after_concat] at hk ⊢
    have hfollows := h.run hbefore
    have hfailure := ih hin.init hbefore
    have hsights := hfollows.sights_eq hfailure hin.last hk
    refine (hfollows.apply_inReach hfailure ?_ hk).2
    rw [← hsights]
    exact hin.last

end

/-- The caller looks at no byte that lies a limit or more behind the token start. -/
def LooksShort (mode : Mode) (limit : Nat) (scanner : Scanner σ) (ops : List Op) : Prop :=
  scanner.Along mode
    (fun _ here op => ∀ distance ∈ here.sights mode op, here.pos + distance < limit) ops

instance {limit : Nat} {scanner : Scanner σ} {ops : List Op} :
    Decidable (scanner.LooksShort mode limit ops) :=
  inferInstanceAs (Decidable (scanner.Along mode
    (fun _ here op => ∀ distance ∈ here.sights mode op, here.pos + distance < limit) ops))

section
variable {scanner : Scanner σ} {limit : Nat}

/-- Short looks at words are in reach. -/
theorem LooksShort.inReach {ops : List Op} (h : scanner.LooksShort mode limit ops)
    (hsound : scanner.Sound delivered) (hlimit : scanner.limit? = some limit)
    (hlook : scanner.LooksWithin mode ops) (data : List UInt8) :
    scanner.Along mode
      (fun _ here op => ∀ distance ∈ here.sights mode op, here.InReach data distance) ops := by
  intro early op late heq distance hd
  constructor
  case within =>
    intro bound hb
    rw [limit_after hsound, hlimit] at hb
    cases hb
    exact h early op late heq distance hd
  case past =>
    exact fun hle => absurd (hlook early op late heq distance hd) (Nat.not_lt.2 hle)

/-- What a scanner with a limit announces can be allocated if the limit can, and no
window exceeds it. -/
theorem Sound.affordable_of_limit (h : scanner.Sound delivered) (mode : Mode)
    (hlimit : scanner.limit? = some limit) (hle : limit ≤ Word.maxAllocation) (ops : List Op) :
    Affordable (scanner.after mode ops).2 ∧ (scanner.after mode ops).1.window.size ≤ limit :=
  ⟨(h.announces_run ops).affordable hlimit hle,
    (h.run mode ops).within limit ((limit_after h ops).trans hlimit)⟩

/-! ## Behind the limit -/

/-- A read that finds the end of the source leaves room in a window that is kept, and no
other pass exhausts the source. -/
theorem Sound.spare_of_exhausted (h : scanner.Sound delivered)
    (hspare : scanner.status = .exhausted → scanner.window.spare ≠ []) {outcome : Outcome σ Unit}
    (hp : Passes mode scanner outcome) (hk : outcome.scanner.window.Kept) :
    outcome.scanner.status = .exhausted → outcome.scanner.window.spare ≠ [] := by
  refine h.passes_induction (motive := fun here _ =>
    here.window.Kept → here.status = .exhausted → here.window.spare ≠ []) (fun _ => hspare) ?_ ?_
    hp hk
  · intro here log target hmid _ _ _ hk he
    have ha := Status.isActive_iff.1 hmid.active
    rcases relocate_cases_of_kept hk with ⟨bound, -, hr⟩ | ⟨size, buffer, -, -, hr⟩
    · simp [hr, refuse, ha, Status.finish] at he
    · simp [hr, Scanner.rebase, ha] at he
  · intro here log hmid hroom _ hk he
    replace hroom := hroom ((kept_draw here).1 hk)
    obtain ⟨source, status, bytes, room, hs, -, hlen, hstatus⟩ := here.draw_cases
    rw [hs] at he ⊢
    rcases hstatus with ⟨hsame, -⟩ | ⟨-, rfl⟩
    · cases (hsame.trans (Status.isActive_iff.1 hmid.active)).symm.trans he
    · rw [← List.length_pos_iff] at hroom ⊢
      rw [List.length_nil, Nat.zero_add] at hlen
      exact hlen ▸ hroom

/-- A source is exhausted only if less than the limit remains of the data from the token
start on: the window holds all of it, and has room. -/
theorem Follows.length_lt_of_exhausted (h : scanner.Follows data delivered)
    (he : scanner.status = .exhausted) (hspare : scanner.window.spare ≠ [])
    (hlimit : scanner.limit? = some limit) : data.length < scanner.shiftedTotal + limit := by
  have hstop := h.stop_eq h.kept.placed
  have hsize := h.within limit hlimit
  have hroom := List.length_pos_iff.2 hspare
  rw [h.ended he, Window.stop] at hstop
  rw [h.kept.size_eq] at hsize
  rw [shiftedTotal]
  omega

/-- **A token that leaves no room within the limit is refused**, with its length up to the
byte that was asked for, and fills a window of the size of the limit. -/
theorem Follows.fill_refused {target : Nat} (h : scanner.Follows data delivered)
    (ha : scanner.status = .active) (hlimit : scanner.limit? = some limit)
    (hge : scanner.shiftedTotal + limit ≤ target)
    (hle : scanner.shiftedTotal + limit ≤ data.length)
    (hk : (scanner.fill mode target).scanner.window.Kept) :
    let filled := (scanner.fill mode target).scanner
    let requested := Word.saturate (target - scanner.shiftedTotal + 1)
    filled.status = .failed (.limitExceeded requested limit) ∧
      filled.start = 0 ∧ filled.window.filled = limit := by
  fun_induction Scanner.fill mode scanner target generalizing delivered with
  | case1 scanner hmore pass fault =>
    rename_i hr
    have hok := result_refill_of_kept hk
    rw [hr] at hok
    cases hok
  | case2 scanner hmore pass =>
    rename_i hr ih
    have hkept : pass.scanner.window.Kept := (passes_fill _ target).inherits.kept hk
    obtain ⟨hfollows, hpass⟩ := h.refill ha hkept
    have hsteady := (h.reading_refill hmore.1 mode target).steady
    rw [Outcome.scanner_after]
    rcases hpass with hf | ⟨bound, hn, hrefused⟩
    · -- the source cannot have ended: the bytes before the limit fill the window
      have hactive : pass.scanner.status = .active := by
        by_contra hne
        have hi : pass.scanner.status.isActive = false := by
          rwa [← Bool.not_eq_true, Status.isActive_iff]
        have he := Status.eq_exhausted hf hi
        have hspare := h.spare_of_exhausted (fun hx => by cases ha.symm.trans hx)
          (passes_refill hmore.1 hmore.2) hkept he
        have hshort := hfollows.length_lt_of_exhausted he hspare (hsteady.limit.trans hlimit)
        rw [hsteady.shifted] at hshort
        omega
      rw [← hsteady.shifted] at hge hle ⊢
      exact ih hfollows hactive (hsteady.limit.trans hlimit) hge hle hk
    · obtain ⟨hstart, hfilled⟩ := h.refused h.kept hmore.1 hn
      obtain rfl : limit = bound :=
        Option.some.inj (hlimit.symm.trans (limit_of_nextSize hn))
      have hdone : pass.scanner.status.isActive = false := by
        simp only [pass, hrefused]
        exact Status.isActive_finish ..
      rw [fill_of_not_active mode _ _ hdone, Outcome.scanner_pure]
      simp only [pass, hrefused]
      refine ⟨?_, hstart, hfilled⟩
      simp [refuse, ha, retained, hstart, shiftedTotal, Status.finish]
  | case3 scanner hdone =>
    have hstop := h.stop_le h.kept hlimit
    refine absurd ⟨Status.isActive_iff.2 ha, ?_⟩ hdone
    omega

/-- The window holds the data behind those that came before it. -/
theorem Follows.window_bytes_eq (h : scanner.Follows data delivered) :
    scanner.window.bytes = (data.drop scanner.window.origin).take scanner.window.filled := by
  have hstop := h.stop_eq h.kept.placed
  rw [Window.stop] at hstop
  have hprefix : delivered = data.take (scanner.window.origin + scanner.window.filled) := by
    rw [hstop]
    exact List.prefix_iff_eq_take.1 h.front
  rw [h.bytes_eq h.kept.placed, hprefix, List.drop_take, Nat.add_sub_cancel_left]

/-- If the window begins with the token, the selection is the front of the token, as far
as it is buffered. -/
theorem Follows.bytes_of_start_eq_zero (h : scanner.Follows data delivered)
    (hstart : scanner.start = 0) :
    scanner.bytes =
      (data.drop scanner.shiftedTotal).take (min scanner.pos scanner.window.filled) := by
  rw [bytes, Window.segment, h.window_bytes_eq, hstart, List.drop_zero, List.take_take, pos,
    hstart, shiftedTotal, hstart]
  rfl

/-- Its buffered bytes are those of the data. -/
theorem Follows.peek_of_start_eq_zero (h : scanner.Follows data delivered)
    (hstart : scanner.start = 0) {distance : Nat}
    (hlt : scanner.pos + distance < scanner.window.filled)
    (hword : scanner.pos + distance < Word.bound) :
    (scanner.peek mode distance).result =
      .ok (data.getD (scanner.shiftedTotal + (scanner.pos + distance)) 0) := by
  have hstop := h.stop_eq h.kept.placed
  have hoffset : scanner.frontierOffset + distance =
      scanner.shiftedTotal + (scanner.pos + distance) := by
    rw [h.frontierOffset_eq, Nat.add_assoc]
  have hposition : scanner.frontierOffset + distance < delivered.length := by
    rw [Window.stop] at hstop
    rw [hoffset, shiftedTotal, hstart]
    omega
  have hfront : delivered.getD (scanner.frontierOffset + distance) 0 =
      data.getD (scanner.frontierOffset + distance) 0 := by
    obtain ⟨rest, rfl⟩ := h.front
    exact (List.getD_append _ _ _ _ hposition).symm
  rw [pos, hstart] at hword
  rw [h.peek_of_lt h.kept hword hposition, Outcome.result_pure, hfront, hoffset]

/-- A look behind the limit at a token that fills it is refused, also if the data end
with the token. -/
theorem Follows.peek_refused_of_le {distance : Nat}
    (h : scanner.Follows data delivered) (ha : scanner.status = .active)
    (hlimit : scanner.limit? = some limit)
    (hk : (scanner.peek mode distance).scanner.window.Kept)
    (hge : limit ≤ scanner.pos + distance) (hword : scanner.frontier + distance < Word.bound)
    (hfull : scanner.shiftedTotal + limit ≤ data.length) :
    let looked := scanner.peek mode distance
    let requested := Word.saturate (scanner.pos + distance + 1)
    looked.result = .ok 0 ∧
      looked.scanner.status = .failed (.limitExceeded requested limit) ∧
      looked.scanner.start = 0 ∧ looked.scanner.window.filled = limit := by
  intro looked requested
  have hoffset := h.frontierOffset_eq
  have hrequested : scanner.frontierOffset + distance - scanner.shiftedTotal =
      scanner.pos + distance := by omega
  have hfill := hk
  rw [scanner_peek hword] at hfill
  have hrefused := h.fill_refused ha hlimit (by omega) hfull hfill
  simp only [hrequested, ← scanner_peek hword] at hrefused
  refine ⟨?_, hrefused⟩
  -- no byte behind the limit was let in
  obtain ⟨hresult, -⟩ := h.result_peek_of_lt hword hk
  obtain ⟨hafter, hsteady⟩ := h.peek hk
  have hstop := hafter.stop_le hk (hsteady.limit.trans hlimit)
  rw [hafter.stop_eq hk.placed, hsteady.shifted] at hstop
  refine hresult.trans (congrArg Except.ok (List.getD_eq_default _ _ ?_))
  omega

theorem Follows.peek_refused {distance : Nat}
    (h : scanner.Follows data delivered) (ha : scanner.status = .active)
    (hlimit : scanner.limit? = some limit)
    (hk : (scanner.peek mode distance).scanner.window.Kept)
    (hge : limit ≤ scanner.pos + distance) (hword : scanner.frontier + distance < Word.bound)
    (hlt : scanner.shiftedTotal + limit < data.length) :
    let looked := scanner.peek mode distance
    let requested := Word.saturate (scanner.pos + distance + 1)
    looked.result = .ok 0 ∧
      looked.scanner.status = .failed (.limitExceeded requested limit) ∧
      looked.scanner.start = 0 ∧ looked.scanner.window.filled = limit :=
  h.peek_refused_of_le ha hlimit hk hge hword (Nat.le_of_lt hlt)

/-- **After a refusal** nothing is requested any more, and as long as the token is not
left, its bytes stay readable as far as they were buffered. -/
theorem Follows.after_refusal (h : scanner.Follows data delivered) (mode : Mode)
    (hi : scanner.status.isActive = false) (hstart : scanner.start = 0) (ops : List Op) :
    let there := (scanner.after mode ops).1
    requests (scanner.after mode ops).2 = [] ∧
      (there.shiftedTotal = scanner.shiftedTotal →
        there.bytes =
            (data.drop scanner.shiftedTotal).take (min there.pos scanner.window.filled) ∧
          ∀ further, there.pos + further < scanner.window.filled →
            there.pos + further < Word.bound →
            (there.peek mode further).result =
              .ok (data.getD (scanner.shiftedTotal + (there.pos + further)) 0)) := by
  intro there
  have hwindow : there.window = scanner.window := (quiet_after_of_not_active hi mode ops).window
  have hthere : there.Follows data _ := h.run (hwindow ▸ h.kept)
  refine ⟨requests_after_of_not_active hi mode ops, fun hsame => ?_⟩
  have hbegins : there.start = 0 := by
    rw [shiftedTotal, shiftedTotal, hwindow] at hsame
    omega
  have hbytes := hthere.bytes_of_start_eq_zero hbegins
  refine ⟨?_, fun further hlt hword => ?_⟩
  · rwa [← hsame, ← hwindow]
  · rw [← hwindow] at hlt
    rw [hthere.peek_of_start_eq_zero hbegins hlt hword, ← hsame]

/-- What was buffered when a look was refused fills the limit, and stays readable. -/
theorem Follows.after_peek_refused {distance : Nat} (h : scanner.Follows data delivered)
    (ha : scanner.status = .active) (hlimit : scanner.limit? = some limit)
    (hk : (scanner.peek mode distance).scanner.window.Kept)
    (hle : limit ≤ Word.maxAllocation) (hge : limit ≤ scanner.pos + distance)
    (hword : scanner.frontier + distance < Word.bound)
    (hlt : scanner.shiftedTotal + limit < data.length) (later : List Op) :
    let looked := (scanner.peek mode distance).scanner
    let there := (looked.after mode later).1
    requests (looked.after mode later).2 = [] ∧
      (there.shiftedTotal = scanner.shiftedTotal →
        there.bytes = (data.drop scanner.shiftedTotal).take (min there.pos limit) ∧
          ∀ further, there.pos + further < limit →
            (there.peek mode further).result =
              .ok (data.getD (scanner.shiftedTotal + (there.pos + further)) 0)) := by
  intro looked there
  obtain ⟨-, hstatus, hstart, hfilled⟩ := h.peek_refused ha hlimit hk hge hword hlt
  obtain ⟨hlooked, hstill⟩ := h.peek hk
  have hended : looked.status.isActive = false := by
    rw [hstatus]
    rfl
  obtain ⟨hquiet, hreadable⟩ := hlooked.after_refusal mode hended hstart later
  rw [hstill.shifted, hfilled] at hreadable
  refine ⟨hquiet, fun hsame => ⟨(hreadable hsame).1, fun further hfurther => ?_⟩⟩
  have hbound : limit < Word.bound := Nat.lt_of_le_of_lt hle (by decide)
  exact (hreadable hsame).2 further hfurther (Nat.lt_trans hfurther hbound)

end

/-! ## Runs -/

/-- Scanners at the same place of the same data give the same answers to a look ahead
that is refused by neither. -/
theorem Follows.answers_eq {s t : Scanner σ} {early late : List UInt8}
    (hs : s.Follows data early) (ht : t.Follows data late) (hsf : s.status.failure? = none)
    (htf : t.status.failure? = none) (hplace : s.place = t.place) {op : Op}
    (hop : op.looks = true)
    (hsin : ∀ distance ∈ s.place.sights data op, s.InReach data distance)
    (htin : ∀ distance ∈ t.place.sights data op, t.InReach data distance)
    (hsk : (s.apply mode op).scanner.window.Kept)
    (htk : (t.apply mode op).scanner.window.Kept) :
    ∃ answer, (s.apply mode op).result = .ok answer ∧ (t.apply mode op).result = .ok answer := by
  have hlent : t.place.answer data t.window.lent op = s.place.answer data s.window.lent op := by
    cases op with
    | peek distance => rw [hplace]; rfl
    | peekRune distance => rw [hplace]; rfl
    | _ => exact nomatch hop
  refine ⟨_, (hs.apply_inReach hsf hsin hsk).1 hop, ?_⟩
  rw [← hlent]
  exact (ht.apply_inReach htf htin htk).1 hop

/-- **Below the limit** a scanner does not fail, and agrees with one that has no limit
on places and on what lies ahead. -/
theorem Follows.agrees_unlimited {s t : Scanner σ} {limit : Nat} {front back : List UInt8}
    (hs : s.Follows data front) (hf : s.status.failure? = none) (hlimit : s.limit? = some limit)
    (ht : t.Streams data back) (hplace : s.place = t.place)
    (hlent : s.window.lent = t.window.lent) (hword : s.place.frontier < Word.bound)
    {early late : List Op} (hmove : s.MovesWithin mode (early ++ late))
    (hlook : s.LooksWithin mode (early ++ late)) (hshort : s.LooksShort mode limit (early ++ late))
    (hsk : (s.after mode (early ++ late)).1.window.Kept)
    (htk : (t.after mode (early ++ late)).1.window.Kept) :
    let here := (s.after mode early).1
    let there := (t.after mode early).1
    here.status.failure? = none ∧ here.pos = there.pos ∧ here.offset mode = there.offset mode ∧
      ∀ op ∈ late.head?, op.looks = true →
        ∃ answer, (here.apply mode op).result = .ok answer ∧
          (there.apply mode op).result = .ok answer := by
  intro here there
  have hin := hshort.inReach hs.toSound hlimit hlook data
  have hhere : here.Follows data _ := hs.run (kept_of_after hsk)
  have hthere : there.Streams data _ := ht.run (kept_of_after htk)
  have hfailure := hs.run_inReach hf hin.of_append (kept_of_after hsk)
  have hplaces : there.place = here.place :=
    place_run_of_lent ht.toSound hs.toSound hplace.symm hword (.inl hlent.symm) hmove.of_append
  obtain ⟨hpos, hoffset⟩ := hthere.toSound.pos_offset_eq mode hhere.toSound hplaces
    (hs.frontier_after_lt hword hmove.of_append)
  refine ⟨hfailure, hpos.symm, hoffset.symm, fun op hop hlooks => ?_⟩
  cases late with
  | nil => exact nomatch hop
  | cons next rest =>
    cases Option.some.inj hop
    have hnext := kept_apply_of_after hsk
    have hreach : ∀ distance ∈ here.sights mode op, here.InReach data distance :=
      hin early op rest rfl
    rw [hhere.sights_eq hfailure hreach hnext] at hreach
    refine hhere.answers_eq hthere.toFollows hfailure hthere.unfailed hplaces.symm hlooks hreach
      (fun distance hd => ?_) hnext (kept_apply_of_after htk)
    rw [hplaces] at hd
    have hfrontier : there.frontierOffset = here.frontierOffset := congrArg Place.frontier hplaces
    constructor
    case within => simp [hthere.unlimited]
    case past =>
      rw [hfrontier]
      exact (hreach distance hd).past

/-- The first look moves nothing that the limit would refuse. -/
theorem failure_unread_peek {config : Config} {source : σ} {limit : Nat} (mode : Mode)
    (hvalid : config.Valid) (hlimit : config.maxCapacity? = some limit)
    (hmax : limit ≤ Word.maxAllocation) (hhonest : Source.Delivers source data) :
    ((unread config source).peek mode 0).scanner.status.failure? = none := by
  have hunread := follows_unread hvalid hhonest
  have hlog : Affordable ((unread config source).peek mode 0).log :=
    (hunread.announces_passes (passes_peek _ 0)).affordable hlimit hmax
  have hk := hunread.kept_passes hunread.kept (passes_peek _ 0) hlog
    fun _ => .inl (by decide : 0 < Word.bound)
  have hreach : (unread config source).InReach data 0 := by
    constructor
    case within =>
      intro bound hb
      cases hlimit.symm.trans hb
      exact Nat.lt_of_lt_of_le hvalid.1 (hvalid.2 limit hlimit)
    case past =>
      exact fun hle => absurd (show Word.bound ≤ 0 from hle) (by decide)
  exact (hunread.peek_inReach rfl hreach hk).2

/-- **The limit is exact.** No window exceeds it. As long as all bytes looked at lie
within it from the token start, the source does not fail, and places and looks ahead
are those of a scanner without a limit. A look behind the limit at a token that fills
it is refused with the length asked for; from then on nothing is requested, and the
token stays readable up to the limit until it is left. -/
theorem limit_exact {config : Config} {source : σ} {limit : Nat} (mode : Mode)
    (hvalid : config.Valid) (hlimit : config.maxCapacity? = some limit) (hle : limit < 2 ^ 60)
    (hhonest : Source.Delivers source data) :
    ∃ bounded unbounded, ofSource mode config source = .ok bounded ∧
      ofSource mode (config.withMaxCapacity none) source = .ok unbounded ∧
      (∀ ops, (bounded.scanner.after mode ops).1.window.size ≤ limit) ∧
      (∀ ops, bounded.scanner.MovesWithin mode ops → bounded.scanner.LooksWithin mode ops →
        bounded.scanner.LooksShort mode limit ops →
        Affordable (unbounded.log ++ (unbounded.scanner.after mode ops).2) →
        ∀ early late, ops = early ++ late →
          let here := (bounded.scanner.after mode early).1
          let there := (unbounded.scanner.after mode early).1
          here.status.failure? = none ∧ here.pos = there.pos ∧
            here.offset mode = there.offset mode ∧
            ∀ op ∈ late.head?, op.looks = true →
              ∃ answer, (here.apply mode op).result = .ok answer ∧
                (there.apply mode op).result = .ok answer) ∧
      ∀ ops distance,
        let here := (bounded.scanner.after mode ops).1
        let looked := here.peek mode distance
        here.isEof = false → (mode = .checked → here.shiftedTotal < Word.bound) →
        limit ≤ here.pos + distance →
        here.frontier + distance < Word.bound → here.shiftedTotal + limit < data.length →
          let requested := Word.saturate (here.pos + distance + 1)
          looked.result = .ok 0 ∧
            looked.scanner.status = .failed (.limitExceeded requested limit) ∧
            ∀ later,
              let there := (looked.scanner.after mode later).1
              requests (looked.scanner.after mode later).2 = [] ∧
                (there.shiftedTotal = here.shiftedTotal →
                  there.bytes = (data.drop here.shiftedTotal).take (min there.pos limit) ∧
                    ∀ further, there.pos + further < limit →
                      (there.peek mode further).result =
                        .ok (data.getD (here.shiftedTotal + (there.pos + further)) 0)) := by
  have hmax : limit ≤ Word.maxAllocation :=
    Nat.le_trans (Nat.le_of_lt hle) (by decide)
  have hinitial : config.initialCapacity ≤ limit := hvalid.2 limit hlimit
  have hfree : (config.withMaxCapacity none).Valid := ⟨hvalid.1, nofun⟩
  have hbounded := ofSource_of_valid mode source hvalid (Nat.le_trans hinitial hmax)
  have hunbounded := ofSource_of_valid mode source hfree (Nat.le_trans hinitial hmax)
  refine ⟨_, _, hbounded, hunbounded, ?_⟩
  have hfirst : Affordable ((unread config source).peek mode 0).log :=
    ((sound_unread hvalid source).announces_passes (passes_peek _ 0)).affordable hlimit hmax
  obtain ⟨hmade, hsteady⟩ := (follows_unread hvalid hhonest).peek (kept_ofSource hbounded hfirst)
  have hbound : ((unread config source).peek mode 0).scanner.limit? = some limit :=
    hsteady.limit.trans hlimit
  have hkept {ops : List Op}
      (hcount : mode = .checked →
        (((unread config source).peek mode 0).scanner.after mode ops).1.shiftedTotal < Word.bound) :
      (((unread config source).peek mode 0).scanner.after mode ops).1.window.Kept :=
    hmade.kept_after hmade.kept (hmade.affordable_of_limit mode hbound hmax ops).1
      fun hm => .inl (hcount hm)
  refine ⟨fun ops => (hmade.affordable_of_limit mode hbound hmax ops).2, ?_, ?_⟩
  · rintro _ hmove hlook hshort hlog early late rfl here there
    obtain ⟨hstreams, hplace⟩ := (streams_unread hfree rfl hhonest).peek
      (kept_ofSource hunbounded (affordable_append.1 hlog).1)
    have hplaces := hsteady.place_eq.trans hplace.symm
    have hstill : Steady _ ((unread (config.withMaxCapacity none) source).peek mode 0).scanner :=
      ((sound_unread hfree source).passes (passes_peek _ 0)).steady
    have hlent := hsteady.lent.trans hstill.lent.symm
    have hfrontier : ((unread config source).peek mode 0).scanner.place.frontier < Word.bound := by
      rw [hsteady.place_eq]
      exact show 0 < Word.bound by decide
    -- both runs end at the same place, a word, so both windows are kept
    have hend := hmade.frontier_after_lt hfrontier hmove
    have hword := Nat.lt_of_le_of_lt (hmade.toSound.run mode _).shifted_le hend
    rw [← place_run_of_lent hstreams.toSound hmade.toSound hplaces.symm hfrontier
      (.inl hlent.symm) hmove] at hend
    exact hmade.agrees_unlimited (failure_unread_peek mode hvalid hlimit hmax hhonest) hbound
      hstreams hplaces hlent hfrontier hmove hlook hshort (hkept fun _ => hword)
      (kept_of_countable hunbounded hlog fun _ =>
        .inl (Nat.lt_of_le_of_lt (hstreams.toSound.run mode _).shifted_le hend))
  · intro ops distance here looked heof hcount hge hword hlt requested
    have hhere : here.Follows data _ := hmade.run (hkept hcount)
    have hactive : here.status = .active := Status.isActive_iff.1 (by simpa [isEof] using heof)
    have hlimited : here.limit? = some limit := (limit_after hmade.toSound ops).trans hbound
    have hpasses : Passes mode here looked.forget := passes_peek here distance
    have hlooked : looked.scanner.window.Kept := hhere.kept_passes hhere.kept hpasses
      ((hhere.announces_passes hpasses).affordable hlimited hmax)
      fun hm => .inl ((hhere.toSound.passes hpasses).steady.shifted ▸ hcount hm)
    obtain ⟨hresult, hstatus, -⟩ := hhere.peek_refused hactive hlimited hlooked hge hword hlt
    exact ⟨hresult, hstatus,
      hhere.after_peek_refused hactive hlimited hlooked hmax hge hword hlt⟩

/-- A limit of eight bytes and a token that begins at the third byte of the data: its
eighth byte is looked at as without a limit, its ninth is refused, and the selection
is there afterwards. -/
theorem limit_exact_refused :
    let source : Source.Scripted :=
      { data := [1, 2, 3, 4, 5, 6, 7, 8, 9, 10, 11, 12]
        script := [.deliver 3, .fail ⟨.interrupted, none⟩], pace? := some 4 }
    let config : Config := { initialCapacity := 4, maxCapacity? := some 8 }
    let bounded := (unread config source).peek .checked 0
    let unbounded := (unread (config.withMaxCapacity none) source).peek .checked 0
    let early : List Op := [.moveTo 2, .skip, .moveTo 5]
    let here := (bounded.scanner.after .checked early).1
    let there := (unbounded.scanner.after .checked early).1
    let looked := here.peek .checked 3
    let later := (looked.scanner.after .checked [.moveTo 6]).1
    (∃ answer, (here.apply .checked (.peek 2)).result = .ok answer ∧
        (there.apply .checked (.peek 2)).result = .ok answer) ∧
      looked.scanner.status = .failed (.limitExceeded 9 8) ∧
      later.bytes = [3, 4, 5, 6, 7, 8] ∧ (later.peek .checked 1).result = .ok 10 := by
  intro source config bounded unbounded early here there looked later
  have hvalid : config.Valid := ⟨by decide, by decide⟩
  have hhonest : Source.Delivers source source.data :=
    Source.delivers_scripted ⟨by decide, by decide⟩
  obtain ⟨_, _, hbounded, hunbounded, -, hagree, hrefuse⟩ :=
    limit_exact .checked hvalid rfl (by decide) hhonest
  obtain ⟨-, -, rfl⟩ := ofSource_eq_ok_iff.1 hbounded
  obtain ⟨-, -, rfl⟩ := ofSource_eq_ok_iff.1 hunbounded
  obtain ⟨-, hstatus, hlater⟩ := hrefuse early 3 (by decide +kernel) (by decide +kernel)
    (by decide +kernel) (by decide +kernel) (by decide +kernel)
  obtain ⟨hbytes, hread⟩ := (hlater [.moveTo 6]).2 (by decide +kernel)
  refine ⟨?_, hstatus.trans (by decide +kernel), hbytes.trans (by decide +kernel),
    (hread 1 (by decide +kernel)).trans (congrArg Except.ok (by decide +kernel))⟩
  exact (hagree (early ++ [.peek 2]) (by decide +kernel) (by decide +kernel) (by decide +kernel)
    (by decide +kernel) early [.peek 2] rfl).2.2.2 (.peek 2) rfl rfl

end Lookahead.Scanner

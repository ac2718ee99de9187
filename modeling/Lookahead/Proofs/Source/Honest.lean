import Lookahead.Source.Scripted

/-!
# Honest sources

A source is honest about a list of bytes if it delivers them in order and nothing
else. Asked with room for at least one byte it is interrupted, delivers the next
bytes, as few or as many as it likes, or says that it has ended when there are no
more. What it writes behind the bytes that it delivers does not matter.

## Main definitions

* `Source.Answers`: an answer that delivers the front of some bytes.
* `Source.Honest`: a relation between sources and what they have to deliver that
  every answer keeps.
* `Source.Delivers`: a source and bytes related by one.

## Main statements

* `Source.Delivers.pull`: the answer that is no interruption.
* `Source.delivers_scripted`: scripts that keep to honest answers.
-/
namespace Lookahead.Source

variable {σ : Type}

/-- An answer of a source that has `rest` to deliver: an interruption, or the
front of the rest. The source has to deliver what remains afterwards. -/
def Answers (faithful : σ → List UInt8 → Prop) (rest : List UInt8) (answer : Reply × σ) : Prop :=
  answer.1.isInterruption = true ∧ faithful answer.2 rest ∨
  ∃ n, answer.1.count = .ok n ∧ n ≤ rest.length ∧ (n = 0 → rest = []) ∧
    answer.1.room.take n = rest.take n ∧ faithful answer.2 (rest.drop n)

variable [Source σ]

/-- Whenever there is room for a byte, a source that has bytes to deliver answers
with the front of them. -/
def Honest (faithful : σ → List UInt8 → Prop) : Prop :=
  ∀ source rest room, faithful source rest → room ≠ [] →
    Answers faithful rest (read source room)

/-- A source delivers the given bytes, whatever room it is lent. -/
def Delivers (source : σ) (rest : List UInt8) : Prop :=
  ∃ faithful : σ → List UInt8 → Prop, Honest faithful ∧ faithful source rest

/-- Asked until it is not interrupted, an honest source delivers bytes or has
ended. -/
theorem Delivers.pull {source : σ} {rest room : List UInt8} (h : Delivers source rest)
    (hroom : room ≠ []) :
    ∃ n, (pull source room).reply.count = .ok n ∧ n ≤ rest.length ∧ (n = 0 → rest = []) ∧
      (pull source room).reply.room.take n = rest.take n ∧
      Delivers (pull source room).source (rest.drop n) := by
  obtain ⟨faithful, hhonest, hfaithful⟩ := h
  fun_induction Source.pull source room with
  | case1 source room answer hi later ih =>
    rcases hhonest source rest room hfaithful hroom with ⟨-, hkept⟩ | ⟨n, hc, -⟩
    · refine ih ?_ hkept
      rw [← List.length_pos_iff] at hroom ⊢
      rwa [length_room]
    · have hcount : answer.1.count = .ok n := hc
      simp [Reply.isInterruption, hcount] at hi
  | case2 source room answer hi =>
    rcases hhonest source rest room hfaithful hroom with ⟨hc, -⟩ | ⟨n, hc, hn, hz, ht, hkept⟩
    · exact absurd hc hi
    · exact ⟨n, hc, hn, hz, ht, faithful, hhonest, hkept⟩

/-! ## Scripts -/

/-- An answer that is honest whatever is left to deliver. -/
def Turn.IsHonest : Turn → Prop
  | .deliver most => 0 < most
  | .fail error => error.isInterruption = true

instance : DecidablePred Turn.IsHonest
  | .deliver most => inferInstanceAs (Decidable (0 < most))
  | .fail error => inferInstanceAs (Decidable (error.isInterruption = true))

namespace Scripted

/-- A source that never ends early, while the script lasts and afterwards. -/
structure IsHonest (source : Scripted) : Prop where
  script : ∀ turn ∈ source.script, turn.IsHonest
  pace : source.pace? ≠ some 0

/-- A portion is empty only when there are no bytes or there is no room for one. -/
theorem data_of_portion_eq_zero {source : Scripted} {most? : Option Nat} {room : List UInt8}
    (hmost : most? ≠ some 0) (hroom : room ≠ []) (h : source.portion most? room = 0) :
    source.data = [] := by
  have hpos := List.length_pos_iff.2 hroom
  rw [← List.length_eq_zero_iff]
  cases most? with
  | none =>
    simp only [portion, Option.elim] at h
    omega
  | some most =>
    have hne : most ≠ 0 := fun he => hmost (he ▸ rfl)
    simp only [portion, Option.elim] at h
    omega

/-- A source that is honest and has the given bytes left. -/
def Holds (source : Scripted) (rest : List UInt8) : Prop := source.IsHonest ∧ source.data = rest

/-- A portion is the front of the bytes, and the others are left. -/
theorem IsHonest.answers_deliver {source : Scripted} (h : source.IsHonest) {most? : Option Nat}
    {room : List UInt8} (hmost : most? ≠ some 0) (hroom : room ≠ []) :
    Answers Holds source.data (source.deliver most? room) := by
  refine .inr ⟨source.portion most? room, rfl, source.portion_le_data most? room,
    data_of_portion_eq_zero hmost hroom, ?_, ⟨h.script, h.pace⟩, rfl⟩
  exact delivered_deliver source most? room

end Scripted

/-- A script of honest answers delivers the bytes of the source. -/
theorem delivers_scripted {source : Scripted} (h : source.IsHonest) :
    Delivers source source.data := by
  refine ⟨Scripted.Holds, ?_, h, rfl⟩
  rintro source _ room ⟨hsource, rfl⟩ hroom
  change Answers Scripted.Holds source.data (source.read room)
  rw [Scripted.read]
  split
  · exact hsource.answers_deliver hsource.pace hroom
  · rename_i most script hs
    have hturn : 0 < most := hsource.script (.deliver most) (by simp [hs])
    have hrest : { source with script }.IsHonest :=
      ⟨fun turn ht => hsource.script turn (by simp [hs, ht]), hsource.pace⟩
    exact hrest.answers_deliver (fun he => by simp at he; omega) hroom
  · rename_i error script hs
    have hturn : error.isInterruption = true := hsource.script (.fail error) (by simp [hs])
    exact .inl ⟨hturn, ⟨fun turn ht => hsource.script turn (by simp [hs, ht]), hsource.pace⟩, rfl⟩

end Lookahead.Source

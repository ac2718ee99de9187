import Lookahead.Source.Basic

/-!
# The silent source

Input that is in memory already needs no source. The silent source stands in its
place: it has nothing to deliver, and a scanner over memory never asks it.

## Main definitions

* `Source.Silent`.
-/
namespace Lookahead.Source

/-- The source that has nothing to deliver. -/
structure Silent where

instance : Source Silent where
  read source room := ({ room, count := .ok 0 }, source)
  patience _ _ := 0
  length_room _ _ := rfl
  count_le _ _ n h := by cases h; omega
  patience_lt _ _ h := nomatch h

end Lookahead.Source

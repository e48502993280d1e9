/-
# `Rv32.Proofs.Paging.Walk` — a walk is judged by the words it meets

A walk reads one or two words of a page table.  Which ones depends on the page of the
address only, and on the words themselves; so does the page it ends at.  `trail` is
what a walk of a page meets in a memory, and `verdict` what the walk makes of it.

Two consequences are used where translations are remembered.  A walk that maps one
address of a page maps every address of the page, to the same page and offset by
offset.  And two memories in which a walk meets the same words map the page alike.
-/
import Rv32.Paging.Walk
import Rv32.Proofs.Attempt
import Rv32.Proofs.Paging.Page

namespace Rv32.Paging

/-! ## What a walk meets -/

/-- The words a walk of an address reads, in order: where each is, and what reading it
gives. -/
def trail (c : AccessContext) (address : Word) (m : Memory) :
    List (Word × Except Fault PageEntry) :=
  let first := entryAddress c.root (firstIndex address)
  match readEntry first m with
  | (.ok entry, m) =>
    let second := entryAddress entry.target (secondIndex address)
    (first, .ok entry) ::
      if entry.valid && !entry.isLeaf then [(second, (readEntry second m).1)] else []
  | (.error fault, _) => [(first, .error fault)]

/-- The page a leaf maps an address to: a large page keeps the second index of the
address. -/
def frameOf (address : Word) (large : Bool) (leaf : PageEntry) : Page :=
  if large then leaf.targetHigh ++ secondIndex address else leaf.targetHigh ++ leaf.targetLow

/-- What a walk that met certain words says of an address. -/
def verdict (c : AccessContext) (address : Word) (access : Access) :
    List (Word × Except Fault PageEntry) → Except Fault Page
  | [(_, .ok e)] =>
    if !e.valid || !e.isLeaf || e.targetLow ≠ 0 || !c.allows e access then .error .page
    else .ok (frameOf address true e)
  | [_, (_, .ok e)] =>
    if !e.valid || !e.isLeaf || !c.allows e access then .error .page
    else .ok (frameOf address false e)
  | [(_, .error fault)] | [_, (_, .error fault)] => .error fault
  | _ => .error .page

theorem walk_eq_verdict (c : AccessContext) (address : Word) (access : Access) (m : Memory) :
    (walk c address access m).1 =
      (verdict c address access (trail c address m)).map (join · (offsetOf address)) := by
  unfold walk trail
  simp only [Attempt.bind_run]
  rcases readEntry (entryAddress c.root (firstIndex address)) m with ⟨fault | first, m'⟩
  · rfl
  · cases hv : first.valid with
    | false =>
        simp only [Bool.not_false, Bool.false_and, if_true, Bool.false_eq_true, if_false,
          verdict, hv, Bool.true_or]
        rfl
    | true =>
        cases hl : first.isLeaf with
        | true =>
            simp only [Bool.not_true, Bool.and_false, Bool.false_eq_true, if_false, if_true,
              verdict, hv, hl, Bool.false_or]
            split <;> rfl
        | false =>
            simp only [hv, hl, Bool.not_true, Bool.not_false, Bool.and_true, Bool.false_eq_true,
              if_false, if_true, Attempt.bind_run]
            rcases readEntry (entryAddress first.target (secondIndex address)) m' with
              ⟨fault | second, m''⟩
            · rfl
            · simp only [verdict]
              split <;> rfl

/-! ## Other addresses of the page -/

theorem trail_congr {a b : Word} (h : pageOf a = pageOf b) (c : AccessContext) (m : Memory) :
    trail c a m = trail c b m := by
  simp only [trail, firstIndex_congr h, secondIndex_congr h]

theorem frameOf_congr {a b : Word} (h : pageOf a = pageOf b) (large : Bool) (leaf : PageEntry) :
    frameOf a large leaf = frameOf b large leaf := by
  simp only [frameOf, secondIndex_congr h]

theorem verdict_congr {a b : Word} (h : pageOf a = pageOf b) (c : AccessContext)
    (access : Access) (words : List (Word × Except Fault PageEntry)) :
    verdict c a access words = verdict c b access words := by
  unfold verdict
  split <;> simp only [frameOf_congr h]

/-- A walk that maps an address to a page maps the whole page to it. -/
theorem walk_page {c : AccessContext} {a b physical : Word} {access : Access} {m m' : Memory}
    (h : walk c a access m = (.ok physical, m')) (same : pageOf b = pageOf a) :
    (walk c b access m).1 = .ok (join (pageOf physical) (offsetOf b)) := by
  have ha := walk_eq_verdict c a access m
  rw [h] at ha
  rw [walk_eq_verdict, trail_congr same, verdict_congr same]
  cases hv : verdict c a access (trail c a m) with
  | error fault =>
      rw [hv] at ha
      cases ha
  | ok frame =>
      rw [hv] at ha
      cases ha
      rw [pageOf_join]
      rfl

/-- Where a walk meets the same words, it says the same. -/
theorem walk_congr {c : AccessContext} {address : Word} {m m' : Memory}
    (h : trail c address m = trail c address m') (access : Access) :
    (walk c address access m).1 = (walk c address access m').1 := by
  rw [walk_eq_verdict, walk_eq_verdict, h]

end Rv32.Paging

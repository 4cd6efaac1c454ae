import Abacus.Text.Cluster
import Abacus.Text.Utf8
/-!
Lines in which something typed has been taken back.

A backspace takes away the cluster before it and itself. Clusters are those of the line as it was
typed, so what comes together only because of a backspace stays apart.
-/

namespace Abacus
namespace Backspace

/--
What is left of a line while it is read: its characters, last first, and the sizes of its clusters
in bytes, last first. There is one byte for a size; a cluster of 256 bytes or more counts for what
it exceeds a multiple of 256 by.
-/
structure Kept where
  reversed : List Char := []
  sizes : List UInt8 := []

/-- The characters without those that fill the first `count` bytes. -/
def dropBytes : Nat → List Char → List Char
  | _, [] => []
  | count, c :: text =>
      if c.utf8Size ≤ count then dropBytes (count - c.utf8Size) text else c :: text

namespace Kept

def add (kept : Kept) (cluster : List Char) : Kept where
  reversed := cluster.reverse ++ kept.reversed
  sizes := UInt8.ofNat (byteLength cluster) :: kept.sizes

/-- Without the last cluster; at the beginning of a line there is nothing to take away. -/
def takeBack (kept : Kept) : Kept :=
  match kept.sizes with
  | [] => kept
  | size :: sizes => ⟨dropBytes size.toNat kept.reversed, sizes⟩

def step (kept : Kept) (cluster : List Char) : Kept :=
  if cluster = ['\x08'] then kept.takeBack else kept.add cluster

end Kept

/-- The line that a typed line stands for. -/
def erase (typed : List Char) : List Char :=
  ((clusters typed).foldl Kept.step {}).reversed.reverse

theorem reversed_foldl_step (pieces : List (List Char)) (kept : Kept)
    (h : ['\x08'] ∉ pieces) :
    (pieces.foldl Kept.step kept).reversed = pieces.flatten.reverse ++ kept.reversed := by
  induction pieces generalizing kept with
  | nil => rfl
  | cons piece pieces ih =>
    have hp : piece ≠ ['\x08'] := fun e => h (e ▸ List.mem_cons_self)
    have hps : ['\x08'] ∉ pieces := fun m => h (List.mem_cons_of_mem _ m)
    rw [List.foldl_cons, ih _ hps, Kept.step, if_neg hp]
    simp [Kept.add]

/-- A line without a backspace stands for itself. -/
theorem erase_of_not_mem {typed : List Char} (h : '\x08' ∉ typed) : erase typed = typed := by
  have hc : ['\x08'] ∉ clusters typed := by
    intro m
    apply h
    rw [← flatten_clusters typed]
    exact List.mem_flatten.2 ⟨_, m, List.mem_singleton.2 rfl⟩
  rw [erase, reversed_foldl_step _ _ hc]
  simp [flatten_clusters]

end Backspace
end Abacus

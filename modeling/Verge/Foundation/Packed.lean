import Mathlib.Algebra.Ring.Int.Defs
import Mathlib.Algebra.Ring.Nat
import Mathlib.Data.List.Basic

/-!
# Packed records

A packed record is the concatenation of its fields, each of a known width.
`unpack` cuts a string at the widths; it undoes the concatenation whatever comes
after the record, and the fields it finds concatenate to the record again.
-/

namespace Verge.Foundation

open List

variable {β : Type}

def unpack : List Nat → List β → List (List β)
  | [], _ => []
  | width :: widths, bytes => bytes.take width :: unpack widths (bytes.drop width)

theorem unpack_flatten (fields : List (List β)) (rest : List β) :
    unpack (fields.map List.length) (fields.flatten ++ rest) = fields := by
  induction fields with
  | nil => rfl
  | cons field fields ih =>
    rw [map_cons, unpack, flatten_cons, append_assoc, take_left,
      drop_left, ih]

theorem map_length_unpack {widths : List Nat} {bytes : List β} (h : widths.sum ≤ bytes.length) :
    (unpack widths bytes).map List.length = widths := by
  induction widths generalizing bytes with
  | nil => rfl
  | cons width widths ih =>
    rw [sum_cons] at h
    have hrest : widths.sum ≤ (bytes.drop width).length := by
      rw [length_drop]
      omega
    rw [unpack, map_cons, ih hrest, length_take, List.cons.injEq]
    exact ⟨by omega, rfl⟩

theorem length_field {fields : List (List β)} {widths : List Nat}
    (h : fields.map List.length = widths) (i : Nat) :
    (fields.getD i []).length = widths.getD i 0 := by
  subst h
  simp only [getD_eq_getElem?_getD, List.getElem?_map]
  cases fields[i]? <;> rfl

end Verge.Foundation

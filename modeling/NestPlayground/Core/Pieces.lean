import Mathlib.Data.String.Basic
import Mathlib.Tactic.Common

/-!
# Texts joined by a separator

`split` undoes a join when no piece contains the separator, and its own pieces
never do. Hexadecimal digits are a text without punctuation that says what the
bytes were.
-/
namespace NestPlayground.Core

/-- `s.split(sep)` for a separator of one character. -/
def split (sep : Char) (s : String) : List String := (s.toList.splitOn sep).map String.ofList

section
variable {sep : Char}

theorem split_ne_nil (sep : Char) (s : String) : split sep s ≠ [] := by
  unfold split
  rw [Ne, List.map_eq_nil_iff]
  exact List.splitOn_ne_nil _ _

theorem split_of_not_mem {s : String} (h : sep ∉ s.toList) : split sep s = [s] := by
  unfold split
  rw [List.splitOn_eq_singleton h, List.map_singleton, String.ofList_toList]

/-- The first piece ends where the separator first occurs. -/
theorem split_append {s : String} (h : sep ∉ s.toList) (t : String) :
    split sep (s ++ (String.singleton sep ++ t)) = s :: split sep t := by
  unfold split
  rw [String.toList_append, String.toList_append, String.toList_singleton, List.singleton_append,
    List.splitOn_append_cons_self_of_not_mem h, List.map_cons, String.ofList_toList]

theorem not_mem_of_mem_splitOn {xs piece : List Char} (h : piece ∈ xs.splitOn sep) : sep ∉ piece := by
  induction xs generalizing piece with
  | nil =>
    rw [List.splitOn_nil, List.mem_singleton] at h
    rw [h]
    exact List.not_mem_nil
  | cons x xs ih =>
    rw [List.splitOn_cons_eq_if_modifyHead] at h
    split_ifs at h with hx
    · rcases List.mem_cons.mp h with rfl | h
      · exact List.not_mem_nil
      · exact ih h
    · -- `x` goes in front of the first piece and is not the separator
      obtain ⟨first, rest, hsplit⟩ := List.exists_cons_of_ne_nil (List.splitOn_ne_nil sep xs)
      rw [hsplit] at h ih
      rw [List.modifyHead_cons] at h
      rcases List.mem_cons.mp h with rfl | h
      · have hfirst := ih List.mem_cons_self
        simp only [beq_iff_eq] at hx
        exact List.not_mem_cons_of_ne_of_not_mem (Ne.symm hx) hfirst
      · exact ih (List.mem_cons_of_mem _ h)

theorem not_mem_of_mem_split {s piece : String} (h : piece ∈ split sep s) : sep ∉ piece.toList := by
  obtain ⟨cs, hcs, rfl⟩ := List.mem_map.mp h
  rw [String.toList_ofList]
  exact not_mem_of_mem_splitOn hcs

end

/-! ## Hexadecimal -/

def hexByte (b : UInt8) : List Char := [Nat.digitChar (b.toNat / 16), Nat.digitChar (b.toNat % 16)]

/-- `buffer.toString('hex')` -/
def toHex (bytes : List UInt8) : String := String.ofList (bytes.flatMap hexByte)

theorem digitChar_inj : ∀ m < 16, ∀ n < 16, Nat.digitChar m = Nat.digitChar n → m = n := by decide

theorem digitChar_ne_dot : ∀ n < 16, Nat.digitChar n ≠ '.' := by decide

theorem hexByte_injective : Function.Injective hexByte := by
  intro a b h
  have ha := a.toNat_lt
  have hb := b.toNat_lt
  obtain ⟨hhigh, hlow⟩ := List.cons_eq_cons.mp h
  have hhigh := digitChar_inj _ (by omega) _ (by omega) hhigh
  have hlow := digitChar_inj _ (by omega) _ (by omega) (List.cons_eq_cons.mp hlow).1
  apply UInt8.toNat_inj.mp
  omega

theorem toHex_injective : Function.Injective toHex := by
  intro xs ys h
  replace h := String.ofList_inj.mp h
  induction xs generalizing ys with
  | nil =>
    cases ys with
    | nil => rfl
    | cons y ys => exact absurd h (List.cons_ne_nil _ _).symm
  | cons x xs ih =>
    cases ys with
    | nil => exact absurd h (List.cons_ne_nil _ _)
    | cons y ys =>
      rw [List.flatMap_cons, List.flatMap_cons] at h
      obtain ⟨hxy, hrest⟩ := List.append_inj h rfl
      rw [hexByte_injective hxy, ih hrest]

theorem dot_not_mem_toHex (bytes : List UInt8) : '.' ∉ (toHex bytes).toList := by
  unfold toHex
  rw [String.toList_ofList, List.mem_flatMap]
  rintro ⟨b, -, hdot⟩
  have hb := b.toNat_lt
  rcases List.mem_pair.mp hdot with h | h
  · exact digitChar_ne_dot _ (by omega) h.symm
  · exact digitChar_ne_dot _ (by omega) h.symm

end NestPlayground.Core

import Mathlib.Data.List.Infix
import Mathlib.Data.String.Basic

/-!
# Texts with a hole

Keys, paths and topics are written by putting an id between two fixed texts.
Whatever ids are put into them, two templates write different texts when their
heads or their tails disagree where both have a character (`Apart.fill_ne`),
and one template writes one text for one id (`fill_inj`).
-/
namespace NestPlayground.Core

structure Template where
  head : String
  tail : String := ""
  deriving DecidableEq, Repr

namespace Template

def fill (t : Template) (x : String) : String := t.head ++ x ++ t.tail

/-- One of the lists is the beginning of the other. -/
def Aligned (xs ys : List Char) : Prop := xs <+: ys ∨ ys <+: xs

instance (xs ys : List Char) : Decidable (Aligned xs ys) := inferInstanceAs (Decidable (_ ∨ _))

/-- The heads disagree, or the tails do, read from the end. -/
def Apart (t t' : Template) : Prop :=
  ¬ Aligned t.head.toList t'.head.toList ∨ ¬ Aligned t.tail.toList.reverse t'.tail.toList.reverse

instance (t t' : Template) : Decidable (Apart t t') := inferInstanceAs (Decidable (_ ∨ _))

/-- The beginnings of one list are beginnings of each other. -/
theorem aligned_of_append {xs ys us vs : List Char} (h : xs ++ us = ys ++ vs) : Aligned xs ys := by
  rcases List.append_eq_append_iff.mp h with ⟨as, hy, -⟩ | ⟨as, hx, -⟩
  · exact .inl ⟨as, hy.symm⟩
  · exact .inr ⟨as, hx.symm⟩

theorem fill_inj {t : Template} {x y : String} : t.fill x = t.fill y ↔ x = y := by
  simp [fill]

theorem Apart.fill_ne {t t' : Template} (h : t.Apart t') (x y : String) : t.fill x ≠ t'.fill y := by
  intro he
  have he := congrArg String.toList he
  simp only [fill, String.toList_append, List.append_assoc] at he
  rcases h with h | h
  · exact h (aligned_of_append he)
  · have hr := congrArg List.reverse he
    simp only [List.reverse_append, List.append_assoc] at hr
    exact h (aligned_of_append hr)

end Template
end NestPlayground.Core

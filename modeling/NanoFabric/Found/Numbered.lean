import Mathlib

/-!
# Names that end in a number

A text, a separator and a decimal number can be told apart again, whatever the text is, if the last
character of the separator is in no decimal.

* `append_cons_inj_right`, `append_cons_inj_left` — a list is split uniquely at the last occurrence of
  an element, and at the first.
* `numbered_inj` — a name has one text and one number.
-/

namespace NanoFabric.Found

/-- A list is split uniquely at the last occurrence of an element. -/
theorem append_cons_inj_right {α : Type} {x y z t : List α} {a : α} (hz : a ∉ z) (ht : a ∉ t)
    (h : x ++ a :: z = y ++ a :: t) : x = y ∧ z = t := by
  rcases List.append_eq_append_iff.mp h with ⟨c, hy, hc⟩ | ⟨c, hx, hc⟩
  · rcases c with _ | ⟨a', c⟩
    · exact ⟨by rw [hy, List.append_nil], (List.cons.inj hc).2⟩
    · obtain ⟨-, hz'⟩ := List.cons.inj hc
      exact absurd (hz' ▸ List.mem_append_right c List.mem_cons_self) hz
  · rcases c with _ | ⟨a', c⟩
    · exact ⟨by rw [hx, List.append_nil], (List.cons.inj hc).2.symm⟩
    · obtain ⟨-, ht'⟩ := List.cons.inj hc
      exact absurd (ht' ▸ List.mem_append_right c List.mem_cons_self) ht

/-- A list is split uniquely at the first occurrence of an element. -/
theorem append_cons_inj_left {α : Type} {x y z t : List α} {a : α} (hx : a ∉ x) (hy : a ∉ y)
    (h : x ++ a :: z = y ++ a :: t) : x = y ∧ z = t := by
  have hrev : z.reverse ++ a :: x.reverse = t.reverse ++ a :: y.reverse := by
    simpa using congrArg List.reverse h
  obtain ⟨hz, hx⟩ := append_cons_inj_right (by simpa using hx) (by simpa using hy) hrev
  exact ⟨List.reverse_injective hx, List.reverse_injective hz⟩

/-- A decimal has digits and perhaps a sign. -/
theorem isDigit_or_eq_of_mem_repr {v : ℤ} {c : Char} (h : c ∈ (Int.repr v).toList) :
    c.isDigit = true ∨ c = '-' := by
  have hnat : ∀ n : ℕ, c ∈ n.repr.toList → c.isDigit = true := by
    intro n hc
    rw [Nat.toList_repr] at hc
    exact Nat.isDigit_of_mem_toDigits (by decide) (by decide) hc
  rw [Int.repr_eq_if] at h
  split at h
  · exact Or.inl (hnat _ h)
  · rw [String.toList_append, List.mem_append] at h
    rcases h with hsign | hdigits
    · exact Or.inr (List.mem_singleton.mp hsign)
    · exact Or.inl (hnat _ hdigits)

/-- A decimal does not have a character that is no digit and no sign. -/
theorem notMem_repr {c : Char} (hdigit : c.isDigit = false) (hsign : c ≠ '-') (v : ℤ) :
    c ∉ (Int.repr v).toList := by
  intro hc
  rcases isDigit_or_eq_of_mem_repr hc with hd | hs
  · rw [hdigit] at hd
    cases hd
  · exact hsign hs

/-- The name of a text and a number. -/
def numbered (separator : String) (text : String) (number : ℤ) : String :=
  text ++ separator ++ toString number

/-- A name has one text and one number, if its separator ends in a character of no decimal. -/
theorem numbered_inj {separator text text' : String} {number number' : ℤ} (body : List Char)
    {c : Char} (hsep : separator.toList = body ++ [c]) (hdigit : c.isDigit = false)
    (hsign : c ≠ '-') (h : numbered separator text number = numbered separator text' number') :
    text = text' ∧ number = number' := by
  have hnot := notMem_repr hdigit hsign
  have hlist : (text.toList ++ body) ++ c :: (Int.repr number).toList =
      (text'.toList ++ body) ++ c :: (Int.repr number').toList := by
    simpa [numbered, hsep] using congrArg String.toList h
  obtain ⟨htext, hnumber⟩ := append_cons_inj_right (hnot number) (hnot number') hlist
  exact ⟨String.toList_injective (List.append_cancel_right htext),
    Int.repr_injective (String.toList_injective hnumber)⟩

end NanoFabric.Found

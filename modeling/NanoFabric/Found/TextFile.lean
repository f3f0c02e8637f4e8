import Mathlib.Data.List.DropRight
import Mathlib.Tactic.Common

/-!
# Files of lines

A file as its bytes, read in binary mode or as UTF-8 text. A binary line ends after `\n`. In text mode
`\r\n` and `\r` are read as `\n` as well, so the two modes need not agree on what a line is; where the
text is printable they do.

* `decodeUtf8_encodeUtf8` — what is written is read.
* `linesOf_append_newline` — the first line of a file ends at its first newline.
* `take_encodeUtf8` — a file of printable text that is cut anywhere.
-/

namespace NanoFabric.Found

/-! ## UTF-8 -/

/-- The bytes of a text. -/
def encodeUtf8 (t : List Char) : List UInt8 := t.flatMap String.utf8EncodeChar

/-- The text of bytes, or none where they are not UTF-8. -/
def decodeUtf8 (b : List UInt8) : Option (List Char) :=
  b.toByteArray.utf8Decode?.map Array.toList

theorem decodeUtf8_encodeUtf8 (t : List Char) : decodeUtf8 (encodeUtf8 t) = some t := by
  have h : (encodeUtf8 t).toByteArray = t.utf8Encode := rfl
  rw [decodeUtf8, h, List.utf8Decode?_utf8Encode]
  rfl

theorem encodeUtf8_append (t u : List Char) : encodeUtf8 (t ++ u) = encodeUtf8 t ++ encodeUtf8 u :=
  List.flatMap_append

/-- Each of the characters is one byte. -/
def IsAscii (t : List Char) : Prop := ∀ c ∈ t, c.toNat < 128

theorem utf8EncodeChar_of_ascii {c : Char} (h : c.toNat < 128) :
    String.utf8EncodeChar c = [UInt8.ofNat c.toNat] := by
  have h' : c.val.toNat ≤ 0x7f := Nat.le_of_lt_succ h
  unfold String.utf8EncodeChar
  exact if_pos h'

theorem encodeUtf8_of_ascii {t : List Char} (h : IsAscii t) :
    encodeUtf8 t = t.map fun c => UInt8.ofNat c.toNat := by
  induction t with
  | nil => rfl
  | cons c t ih =>
      rw [encodeUtf8, List.flatMap_cons, utf8EncodeChar_of_ascii (h c List.mem_cons_self), List.map_cons,
        ← ih fun x hx => h x (List.mem_cons_of_mem _ hx)]
      rfl

theorem length_encodeUtf8 {t : List Char} (h : IsAscii t) : (encodeUtf8 t).length = t.length := by
  rw [encodeUtf8_of_ascii h, List.length_map]

/-- Bytes that are cut off a printable file are characters. -/
theorem take_encodeUtf8 {t : List Char} (h : IsAscii t) (k : ℕ) :
    (encodeUtf8 t).take k = encodeUtf8 (t.take k) := by
  rw [encodeUtf8_of_ascii h, encodeUtf8_of_ascii fun c hc => h c (List.mem_of_mem_take hc),
    List.map_take]

/-! ## Lines -/

/-- The lines, each with its end, and what is left after the last one if it is not empty. -/
def linesOf {α : Type} [DecidableEq α] (newline : α) : List α → List (List α)
  | [] => []
  | a :: l =>
      if a = newline then [a] :: linesOf newline l
      else
        match linesOf newline l with
        | [] => [[a]]
        | line :: lines => (a :: line) :: lines

section
variable {α : Type} [DecidableEq α] {newline : α}

theorem linesOf_append_newline {x : List α} (hx : newline ∉ x) (y : List α) :
    linesOf newline (x ++ newline :: y) = (x ++ [newline]) :: linesOf newline y := by
  induction x with
  | nil => simp [linesOf]
  | cons a x ih =>
      obtain ⟨ha, hx⟩ := not_or.mp (List.mem_cons.not.mp hx)
      rw [List.cons_append, linesOf, if_neg (Ne.symm ha), ih hx]
      rfl

theorem linesOf_rest {x : List α} (hx : newline ∉ x) :
    linesOf newline x = if x = [] then [] else [x] := by
  induction x with
  | nil => rfl
  | cons a x ih =>
      obtain ⟨ha, hx⟩ := not_or.mp (List.mem_cons.not.mp hx)
      rw [linesOf, if_neg (Ne.symm ha), ih hx]
      split_ifs with hnil <;> simp_all

/-- The lines are the whole file. -/
theorem flatten_linesOf (l : List α) : (linesOf newline l).flatten = l := by
  induction l with
  | nil => rfl
  | cons a l ih =>
      rw [linesOf]
      split_ifs with ha
      · rw [List.flatten_cons, ih]
        rfl
      · cases hlines : linesOf newline l with
        | nil =>
            rw [hlines] at ih
            rw [← ih]
            rfl
        | cons line lines =>
            rw [hlines, List.flatten_cons] at ih
            rw [← ih]
            rfl

variable (newline) in
/-- Lines are the same under another name of the elements. -/
theorem linesOf_map {β : Type} [DecidableEq β] (f : α → β) {l : List α}
    (h : ∀ a ∈ l, f a = f newline → a = newline) :
    linesOf (f newline) (l.map f) = (linesOf newline l).map (List.map f) := by
  induction l with
  | nil => rfl
  | cons a l ih =>
      rw [List.map_cons, linesOf, linesOf, ih fun x hx => h x (List.mem_cons_of_mem _ hx)]
      by_cases ha : a = newline
      · rw [if_pos ha, if_pos (congrArg f ha), ha]
        rfl
      · rw [if_neg ha, if_neg fun heq => ha (h a List.mem_cons_self heq)]
        cases linesOf newline l <;> rfl

end

/-- In a file of printable text the lines of the bytes are those of the text. -/
theorem linesOf_encodeUtf8 {t : List Char} (h : IsAscii t) :
    linesOf 10 (encodeUtf8 t) = (linesOf '\n' t).map encodeUtf8 := by
  have hnewline : ∀ c ∈ t, UInt8.ofNat c.toNat = UInt8.ofNat '\n'.toNat → c = '\n' := by
    intro c hc heq
    have hmod := congrArg UInt8.toNat heq
    rw [UInt8.toNat_ofNat', UInt8.toNat_ofNat', Nat.mod_eq_of_lt (by have := h c hc; omega)] at hmod
    exact Char.toNat_inj.mp hmod
  have hlines : ∀ line ∈ linesOf '\n' t, IsAscii line := by
    intro line hline c hc
    exact h c (flatten_linesOf t ▸ List.mem_flatten_of_mem hline hc)
  rw [encodeUtf8_of_ascii h, show (10 : UInt8) = UInt8.ofNat '\n'.toNat from rfl,
    linesOf_map '\n' (fun c : Char => UInt8.ofNat c.toNat) hnewline]
  exact List.map_congr_left fun line hline => (encodeUtf8_of_ascii (hlines line hline)).symm

/-- The text with every `\r\n` and `\r` as `\n`. -/
def universalNewlines : List Char → List Char
  | '\r' :: '\n' :: t => '\n' :: universalNewlines t
  | '\r' :: t => '\n' :: universalNewlines t
  | c :: t => c :: universalNewlines t
  | [] => []

theorem universalNewlines_eq_self {t : List Char} (h : '\r' ∉ t) : universalNewlines t = t := by
  induction t with
  | nil => rfl
  | cons c t ih =>
      obtain ⟨hc, ht⟩ := not_or.mp (List.mem_cons.not.mp h)
      have hne : c ≠ '\r' := Ne.symm hc
      rw [universalNewlines, ih ht]
      · exact fun _ heq _ => hne heq
      · exact hne

/-- The lines of a file that is open as text. -/
def textLines (t : List Char) : List (List Char) := linesOf '\n' (universalNewlines t)

/-! ## White space around a text -/

/-- The characters of `str.isspace`. -/
def isSpace (c : Char) : Bool :=
  (9 ≤ c.toNat && c.toNat ≤ 13) || (28 ≤ c.toNat && c.toNat ≤ 32) || c.toNat = 0x85 ||
    c.toNat = 0xa0 || c.toNat = 0x1680 || (0x2000 ≤ c.toNat && c.toNat ≤ 0x200a) ||
    c.toNat = 0x2028 || c.toNat = 0x2029 || c.toNat = 0x202f || c.toNat = 0x205f || c.toNat = 0x3000

/-- The text without the white space around it. -/
def strip (t : List Char) : List Char := (t.dropWhile isSpace).rdropWhile isSpace

theorem strip_eq_nil {t : List Char} : strip t = [] ↔ ∀ c ∈ t, isSpace c = true := by
  rw [strip, List.rdropWhile_eq_nil_iff]
  constructor
  · intro h c hc
    rw [← List.takeWhile_append_dropWhile (p := isSpace) (l := t), List.mem_append] at hc
    rcases hc with hc | hc
    · exact List.mem_takeWhile_imp hc
    · exact h c hc
  · exact fun h c hc => h c ((List.dropWhile_sublist _).subset hc)

theorem rdropWhile_append {w' : List Char} (hw' : ∀ c ∈ w', isSpace c = true) (t : List Char) :
    (t ++ w').rdropWhile isSpace = t.rdropWhile isSpace := by
  rw [List.rdropWhile, List.reverse_append,
    List.dropWhile_append_of_pos fun c hc => hw' c (List.mem_reverse.mp hc)]
  rfl

/-- White space in front of a text and after it is taken away. -/
theorem strip_append {w t w' : List Char} (hw : ∀ c ∈ w, isSpace c = true)
    (hw' : ∀ c ∈ w', isSpace c = true) : strip (w ++ t ++ w') = strip t := by
  rw [strip, strip, List.append_assoc, List.dropWhile_append_of_pos hw, List.dropWhile_append]
  split_ifs with ht
  · rw [List.isEmpty_iff.mp ht, List.dropWhile_eq_nil_iff.mpr hw']
  · exact rdropWhile_append hw' _

/-- A text with no white space at either end is its own. -/
theorem strip_eq_self {t : List Char} (hhead : ∀ c ∈ t.head?, isSpace c = false)
    (hlast : ∀ c ∈ t.getLast?, isSpace c = false) : strip t = t := by
  have hfront : t.dropWhile isSpace = t := by
    cases t with
    | nil => rfl
    | cons c t => exact List.dropWhile_cons_of_neg (by simp [hhead c rfl])
  rw [strip, hfront, List.rdropWhile_eq_self_iff]
  intro hne
  simp [hlast _ (List.getLast?_eq_some_getLast hne)]

/-- What is left of a text that starts with no white space is its beginning. -/
theorem strip_of_head {c : Char} (hc : isSpace c = false) (t : List Char) :
    ∃ u, strip (c :: t) = c :: u ∧ u <+: t := by
  have hfront : (c :: t).dropWhile isSpace = c :: t := List.dropWhile_cons_of_neg (by simp [hc])
  have hprefix : strip (c :: t) <+: c :: t := by
    rw [strip, hfront]
    exact List.rdropWhile_prefix isSpace _
  have hne : strip (c :: t) ≠ [] := fun h => by
    have := strip_eq_nil.mp h c List.mem_cons_self
    rw [hc] at this
    cases this
  obtain ⟨d, u, hdu⟩ := List.exists_cons_of_ne_nil hne
  rw [hdu, List.cons_prefix_cons] at hprefix
  exact ⟨u, by rw [hdu, hprefix.1], hprefix.2⟩

/-- White space is taken away after a text and not inside it. -/
theorem strip_append_cons {x : List Char} {c : Char} (hx : ∀ d ∈ x.head?, isSpace d = false)
    (hc : isSpace c = false) (t : List Char) : ∃ u, strip (x ++ c :: t) = x ++ c :: u := by
  cases x with
  | nil =>
      obtain ⟨u, hu, -⟩ := strip_of_head hc t
      exact ⟨u, hu⟩
  | cons d x =>
      have hd : isSpace d = false := hx d rfl
      have hfront : (d :: x ++ c :: t).dropWhile isSpace = d :: x ++ c :: t :=
        List.dropWhile_cons_of_neg (by simp [hd])
      have hne : (t.reverse ++ [c]).dropWhile isSpace ≠ [] := by
        rw [Ne, List.dropWhile_eq_nil_iff]
        intro h
        have := h c (by simp)
        rw [hc] at this
        cases this
      obtain ⟨u, hu, -⟩ := strip_of_head hc t
      refine ⟨u, ?_⟩
      have hback : (c :: t).rdropWhile isSpace = c :: u := by
        rw [← hu, strip, List.dropWhile_cons_of_neg (by simp [hc])]
      rw [strip, hfront, List.rdropWhile, List.reverse_append, List.reverse_cons, List.dropWhile_append,
        if_neg (by simpa using hne), List.reverse_append, List.reverse_reverse, ← hback, List.rdropWhile,
        List.reverse_cons]

end NanoFabric.Found

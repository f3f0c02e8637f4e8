import NanoFabric.Found.Json

/-!
# What is written is read back, and what is cut off is not read

`scanValue` takes exactly the text of a value from the front, whatever follows it. From that one fact
come the three that a file of documents needs.

* `loads_dumps` — what is written is read back.
* `loads_eq_none_of_cut` — no part of an object's document that stops before its end is a document.
* `loads_append_eq_none` — an object's document with more text after it is none.

`scanValue_of_scanValue` also says that the fuel does not matter once it is as long as the text.
-/

namespace NanoFabric.Found.Json

variable {floatRepr : List Char → List Char} {t r r' : List Char}

/-! ## White space -/

theorem skipWs_append_cons {w : List Char} {c : Char} (hw : ∀ x ∈ w, isWs x = true)
    (hc : isWs c = false) (r : List Char) : skipWs (w ++ c :: r) = c :: r := by
  rw [skipWs, List.dropWhile_append_of_pos hw, List.dropWhile_cons_of_neg (by simp [hc])]

/-- A text is its white space and what `skipWs` leaves. -/
theorem exists_skipWs (t : List Char) :
    ∃ w, (∀ x ∈ w, isWs x = true) ∧ t = w ++ skipWs t :=
  ⟨t.takeWhile isWs, fun _ hx => List.mem_takeWhile_imp hx, List.takeWhile_append_dropWhile.symm⟩

theorem skipWs_eq_self {c : Char} (hc : isWs c = false) (r : List Char) : skipWs (c :: r) = c :: r :=
  skipWs_append_cons (w := []) (by simp) hc r

/-! ## Numbers -/

/-- The value is a number, whose text has no end of its own. -/
def isNumber : Json → Bool
  | .int _ => true
  | .float _ => true
  | _ => false

/-- A character that may go on a number. -/
def isNumberChar (c : Char) : Bool := c.isDigit || c = '.' || c = 'e' || c = 'E'

/-- A number would end before this text. -/
def Stops (r : List Char) : Prop := ∀ c ∈ r.head?, isNumberChar c = false

theorem stops_nil : Stops [] := by simp [Stops]

theorem stops_cons {c : Char} (h : isNumberChar c = false) (r : List Char) : Stops (c :: r) := by
  simpa [Stops] using h

theorem not_white_of_isDigit {c : Char} (h : c.isDigit = true) : isWs c = false ∧ c ≠ ']' := by
  have hne : ∀ x : Char, x.isDigit = false → c ≠ x := by
    rintro x hx rfl
    rw [h] at hx
    cases hx
  simp [isWs, hne]

theorem takeWhile_isDigit_append {ds : List Char} (hds : ∀ c ∈ ds, c.isDigit = true)
    (hr : ∀ c ∈ r.head?, c.isDigit = false) :
    (ds ++ r).takeWhile Char.isDigit = ds ∧ (ds ++ r).dropWhile Char.isDigit = r := by
  rw [List.takeWhile_append_of_pos hds, List.dropWhile_append_of_pos hds]
  cases r with
  | nil => simp
  | cons c r =>
      have hc : c.isDigit = false := hr c rfl
      simp [hc]

theorem all_isDigit_takeWhile (t : List Char) :
    ∀ c ∈ t.takeWhile Char.isDigit, c.isDigit = true :=
  fun _ hc => List.mem_takeWhile_imp hc

theorem not_isDigit_of_stops (h : Stops r) : ∀ c ∈ r.head?, c.isDigit = false := by
  intro c hc
  have := h c hc
  simp only [isNumberChar, Bool.or_eq_false_iff] at this
  exact this.1.1.1

/-- The digits before the point are taken, whatever follows them. -/
theorem scanWhole_spec {ds : List Char} (h : scanWhole t = some (ds, r)) :
    t = ds ++ r ∧ (∃ c tl, ds = c :: tl ∧ c.isDigit = true) ∧
      ∀ r', (∀ c ∈ r'.head?, c.isDigit = false) → scanWhole (ds ++ r') = some (ds, r') := by
  unfold scanWhole at h
  split at h
  · cases h
    exact ⟨rfl, ⟨'0', [], rfl, rfl⟩, fun r' _ => rfl⟩
  next hzero =>
    split at h
    · cases h
    next hne =>
      cases h
      obtain ⟨c, tl, hct⟩ := List.exists_cons_of_ne_nil hne
      have hdigit : c.isDigit = true := all_isDigit_takeWhile t c (by simp [hct])
      have htext : t = t.takeWhile Char.isDigit ++ t.dropWhile Char.isDigit :=
        List.takeWhile_append_dropWhile.symm
      refine ⟨htext, ⟨c, tl, hct, hdigit⟩, fun r' hr' => ?_⟩
      have hspan := takeWhile_isDigit_append (all_isDigit_takeWhile t) hr'
      unfold scanWhole
      split
      next t' heq =>
        rw [hct] at heq
        obtain ⟨rfl, -⟩ := List.cons.inj heq
        exact absurd (htext.trans (by rw [hct]; rfl)) (hzero _)
      next => rw [hspan.1, hspan.2, if_neg hne]

theorem scanFraction_spec (t : List Char) :
    t = (scanFraction t).1 ++ (scanFraction t).2 ∧
      ((scanFraction t).1 = [] ∨ (scanFraction t).1.head? = some '.') ∧
      ∀ r', (∀ c ∈ r'.head?, c.isDigit = false ∧ c ≠ '.') →
        scanFraction ((scanFraction t).1 ++ r') = ((scanFraction t).1, r') := by
  have hnone : ∀ r' : List Char, (∀ c ∈ r'.head?, c.isDigit = false ∧ c ≠ '.') →
      scanFraction r' = ([], r') := by
    intro r' hr'
    unfold scanFraction
    split
    next t' => exact absurd rfl (And.right <| hr' '.' rfl)
    next => rfl
  unfold scanFraction
  split
  next t' =>
    split_ifs with hne
    · exact ⟨rfl, Or.inl rfl, hnone⟩
    · refine ⟨by simp, Or.inr rfl, fun r' hr' => ?_⟩
      have hspan := takeWhile_isDigit_append (all_isDigit_takeWhile t') fun c hc => (hr' c hc).1
      simp [hspan.1, hspan.2, hne]
  next => exact ⟨rfl, Or.inl rfl, hnone⟩

theorem scanSign_spec (t : List Char) :
    t = (scanSign t).1 ++ (scanSign t).2 ∧
      ∀ c tl, c.isDigit = true →
        scanSign ((scanSign t).1 ++ c :: tl) = ((scanSign t).1, c :: tl) := by
  unfold scanSign
  split
  · exact ⟨rfl, fun _ _ _ => rfl⟩
  · exact ⟨rfl, fun _ _ _ => rfl⟩
  · refine ⟨rfl, fun c tl hc => ?_⟩
    split
    next heq =>
      obtain ⟨rfl, -⟩ := List.cons.inj heq
      cases hc
    next heq =>
      obtain ⟨rfl, -⟩ := List.cons.inj heq
      cases hc
    next => rfl

theorem scanExponent_spec (t : List Char) :
    t = (scanExponent t).1 ++ (scanExponent t).2 ∧
      (∀ c ∈ (scanExponent t).1.head?, c = 'e' ∨ c = 'E') ∧
      ∀ r', Stops r' → scanExponent ((scanExponent t).1 ++ r') = ((scanExponent t).1, r') := by
  have hnone : ∀ r' : List Char, Stops r' → scanExponent r' = ([], r') := by
    intro r' hr'
    unfold scanExponent
    split
    next e t' =>
      have hnot : ¬(e = 'e' ∨ e = 'E') := by
        have hchar := hr' e rfl
        rintro (rfl | rfl) <;> cases hchar
      rw [if_neg fun h => hnot h.1]
    next => rfl
  unfold scanExponent
  split
  next e t' =>
    split_ifs with h
    · obtain ⟨he, hne⟩ := h
      obtain ⟨hsign, hsignAgain⟩ := scanSign_spec t'
      refine ⟨?_, by simpa using he, fun r' hr' => ?_⟩
      · simp only [List.cons_append, List.append_assoc, List.takeWhile_append_dropWhile]
        rw [← hsign]
      obtain ⟨c, tl, hct⟩ := List.exists_cons_of_ne_nil hne
      have hc : c.isDigit = true := all_isDigit_takeWhile _ c (by rw [hct]; simp)
      have hspan := takeWhile_isDigit_append (all_isDigit_takeWhile (scanSign t').2)
        (not_isDigit_of_stops hr')
      have hsign' : scanSign ((scanSign t').1 ++ ((scanSign t').2.takeWhile Char.isDigit ++ r')) =
          ((scanSign t').1, (scanSign t').2.takeWhile Char.isDigit ++ r') := by
        rw [hct]
        exact hsignAgain c (tl ++ r') hc
      simp only [List.cons_append, List.append_assoc, hsign', hspan.1, hspan.2]
      rw [if_pos ⟨he, hne⟩]
    · exact ⟨rfl, by simp, hnone⟩
  next => exact ⟨rfl, by simp, hnone⟩

/-- A number's text is taken, whatever follows it that is not of the number. -/
theorem scanUnsigned_spec {sign : List Char} {v : Json} (h : scanUnsigned sign t = some (v, r)) :
    ∃ c tl, c.isDigit = true ∧ t = c :: tl ++ r ∧
      ∀ r', Stops r' → scanUnsigned sign (c :: tl ++ r') = some (v, r') := by
  unfold scanUnsigned at h
  obtain ⟨⟨ds, u⟩, hwhole, h⟩ := Option.bind_eq_some_iff.mp h
  obtain ⟨ht, ⟨c, tl, rfl, hc⟩, hwholeAgain⟩ := scanWhole_spec hwhole
  obtain ⟨hfraction, hpoint, hfractionAgain⟩ := scanFraction_spec u
  obtain ⟨hexponent, he, hexponentAgain⟩ := scanExponent_spec (scanFraction u).2
  have hr : r = (scanExponent (scanFraction u).2).2 := by
    simp only at h
    split at h <;> · cases h; rfl
  refine ⟨c, tl ++ (scanFraction u).1 ++ (scanExponent (scanFraction u).2).1, hc, ?_,
    fun r' hr' => ?_⟩
  · rw [ht, hr, List.cons_append, List.cons_append, List.append_assoc, List.append_assoc, ← hexponent,
      ← hfraction]
  -- the text after each part does not go on that part
  have hexp : ∀ x ∈ ((scanExponent (scanFraction u).2).1 ++ r').head?,
      x.isDigit = false ∧ x ≠ '.' := by
    intro x hx
    cases hcase : (scanExponent (scanFraction u).2).1 with
    | nil =>
        rw [hcase, List.nil_append] at hx
        refine ⟨not_isDigit_of_stops hr' x hx, ?_⟩
        rintro rfl
        cases hr' '.' hx
    | cons y ys =>
        rw [hcase] at hx he
        cases hx
        rcases he x rfl with rfl | rfl <;> decide
  have hfrac : ∀ x ∈ ((scanFraction u).1 ++ ((scanExponent (scanFraction u).2).1 ++ r')).head?,
      x.isDigit = false := by
    intro x hx
    rcases hpoint with hnil | hdot
    · rw [hnil, List.nil_append] at hx
      exact (hexp x hx).1
    · obtain ⟨ys, hys⟩ := List.head?_eq_some_iff.mp hdot
      rw [hys] at hx
      cases hx
      rfl
  have hsplit : c :: (tl ++ (scanFraction u).1 ++ (scanExponent (scanFraction u).2).1) ++ r' =
      c :: tl ++ ((scanFraction u).1 ++ ((scanExponent (scanFraction u).2).1 ++ r')) := by
    simp
  unfold scanUnsigned
  rw [hsplit, hwholeAgain _ hfrac]
  simp only [Option.bind_eq_bind, Option.bind_some, hfractionAgain _ hexp, hexponentAgain r' hr'] at h ⊢
  split at h
  next hint =>
    cases h
    rw [if_pos hint]
    rfl
  next hfloat =>
    cases h
    rw [if_neg hfloat]
    rfl

theorem isNumber_of_scanNumber {v : Json} (h : scanNumber t = some (v, r)) : v.isNumber = true := by
  have hunsigned : ∀ sign t, scanUnsigned sign t = some (v, r) → v.isNumber = true := by
    intro sign t h
    unfold scanUnsigned at h
    obtain ⟨⟨ds, u⟩, -, h⟩ := Option.bind_eq_some_iff.mp h
    dsimp only at h
    split at h <;> · cases h; rfl
  unfold scanNumber at h
  split at h <;> exact hunsigned _ _ h

/-- A number starts with a digit, or with a minus and a digit. -/
theorem scanNumber_spec {v : Json} (h : scanNumber t = some (v, r)) :
    ∃ c tl, (c.isDigit = true ∨ ∃ d tl', c = '-' ∧ tl = d :: tl' ∧ d.isDigit = true) ∧
      t = c :: tl ++ r ∧ ∀ r', Stops r' → scanNumber (c :: tl ++ r') = some (v, r') := by
  unfold scanNumber at h
  split at h
  next t' =>
    obtain ⟨c, tl, hc, rfl, hagain⟩ := scanUnsigned_spec h
    exact ⟨'-', c :: tl, Or.inr ⟨c, tl, rfl, rfl, hc⟩, rfl, hagain⟩
  next =>
    obtain ⟨c, tl, hc, rfl, hagain⟩ := scanUnsigned_spec h
    refine ⟨c, tl, Or.inl hc, rfl, fun r' hr' => ?_⟩
    unfold scanNumber
    split
    next heq =>
      obtain ⟨rfl, -⟩ := List.cons.inj heq
      cases hc
    next => exact hagain r' hr'

/-! ## Texts -/

theorem scanUnits_cons {c : Char} (hquote : c ≠ '"') (hslash : c ≠ '\\') (hcontrol : 32 ≤ c.toNat)
    (t : List Char) :
    scanUnits (c :: t) = (scanUnits t).bind fun st => some (c.toNat :: st.1, st.2) := by
  rw [scanUnits]
  · rw [if_neg (by simp [hslash, hcontrol])]
    rfl
  · exact hquote
  · intro _ _ _ _ _ h _
    exact absurd h hslash
  · intro _ _ h _
    exact absurd h hslash

/-- The text inside quotes is taken, whatever follows the closing quote. -/
theorem scanUnits_spec {s : List ℕ} (h : scanUnits t = some (s, r)) :
    ∃ p, t = p ++ r ∧ ∀ r', scanUnits (p ++ r') = some (s, r') := by
  fun_induction scanUnits t generalizing s r with
  | case1 t =>
      cases h
      exact ⟨['"'], rfl, fun r' => rfl⟩
  | case2 a b c d t ih =>
      obtain ⟨n, hn, h⟩ := Option.bind_eq_some_iff.mp h
      obtain ⟨⟨s', t'⟩, hs', h⟩ := Option.bind_eq_some_iff.mp h
      cases h
      obtain ⟨p, rfl, hagain⟩ := ih hs'
      refine ⟨'\\' :: 'u' :: a :: b :: c :: d :: p, rfl, fun r' => ?_⟩
      simp [scanUnits, hn, hagain]
  | case3 c t hnot ih =>
      obtain ⟨n, hn, h⟩ := Option.bind_eq_some_iff.mp h
      obtain ⟨⟨s', t'⟩, hs', h⟩ := Option.bind_eq_some_iff.mp h
      cases h
      obtain ⟨p, rfl, hagain⟩ := ih hs'
      refine ⟨'\\' :: c :: p, rfl, fun r' => ?_⟩
      have hu : c ≠ 'u' := by
        rintro rfl
        cases hn
      simp [scanUnits, hu, hn, hagain]
  | case4 c t => cases h
  | case5 c t hquote hnot hnot' hchar ih =>
      obtain ⟨⟨s', t'⟩, hs', h⟩ := Option.bind_eq_some_iff.mp h
      cases h
      obtain ⟨p, rfl, hagain⟩ := ih hs'
      obtain ⟨hcontrol, hslash⟩ := not_or.mp hchar
      refine ⟨c :: p, rfl, fun r' => ?_⟩
      rw [List.cons_append, scanUnits_cons hquote hslash (not_lt.mp hcontrol), hagain]
      rfl
  | case6 => cases h

theorem scanString_spec {s : List ℕ} (h : scanString t = some (s, r)) :
    ∃ p, t = p ++ r ∧ ∀ r', scanString (p ++ r') = some (s, r') := by
  obtain ⟨⟨u, t'⟩, hu, hjoin⟩ := Option.map_eq_some_iff.mp h
  cases hjoin
  obtain ⟨p, rfl, hagain⟩ := scanUnits_spec hu
  exact ⟨p, rfl, fun r' => by rw [scanString, hagain]; rfl⟩

theorem scanKey_spec {k : List ℕ} (h : scanKey t = some (k, r)) :
    ∃ p, t = '"' :: p ++ r ∧ ∀ r', scanKey ('"' :: p ++ r') = some (k, r') := by
  unfold scanKey at h
  split at h
  next t =>
    obtain ⟨⟨k', u⟩, hk, h⟩ := Option.bind_eq_some_iff.mp h
    dsimp only at h
    split at h
    next u' hcolon =>
      cases h
      obtain ⟨p, rfl, hagain⟩ := scanString_spec hk
      obtain ⟨w, hw, hsplit⟩ := exists_skipWs u
      rw [hcolon] at hsplit
      refine ⟨p ++ w ++ [':'], by simp [hsplit], fun r' => ?_⟩
      have htext : '"' :: (p ++ w ++ [':']) ++ r' = '"' :: (p ++ (w ++ ':' :: r')) := by simp
      rw [htext, scanKey, hagain]
      simp [skipWs_append_cons hw (show isWs ':' = false by decide) r']
    next => cases h
  next => cases h

/-! ## Words -/

theorem scanLiteral_spec {v : Json} (h : scanLiteral t = some (v, r)) :
    ∃ c tl, (isWs c = false ∧ c ≠ ']') ∧ t = c :: tl ++ r ∧
      ∀ r', scanLiteral (c :: tl ++ r') = some (v, r') := by
  obtain ⟨⟨word, v'⟩, hmem, hword⟩ := List.exists_of_findSome?_eq_some h
  dsimp only at hword
  split at hword
  next hprefix =>
    cases hword
    obtain ⟨u, rfl⟩ := hprefix
    rw [List.drop_left]
    simp only [literals, List.mem_cons, Prod.mk.injEq, List.not_mem_nil, or_false] at hmem
    rcases hmem with ⟨rfl, rfl⟩ | ⟨rfl, rfl⟩ | ⟨rfl, rfl⟩ | ⟨rfl, rfl⟩ | ⟨rfl, rfl⟩ | ⟨rfl, rfl⟩ <;>
      exact ⟨_, _, ⟨rfl, by decide⟩, rfl, fun r' => by simp [scanLiteral, literals]⟩
  next => cases hword

/-- A number's text is no word. -/
theorem scanLiteral_of_number {c : Char} {tl : List Char}
    (h : c.isDigit = true ∨ ∃ d tl', c = '-' ∧ tl = d :: tl' ∧ d.isDigit = true) (r : List Char) :
    scanLiteral (c :: tl ++ r) = none := by
  have hne : ∀ {x y : Char}, x.isDigit = true → y.isDigit = false → y ≠ x := by
    rintro x y hx hy rfl
    rw [hx] at hy
    cases hy
  rcases h with hc | ⟨d, tl', rfl, rfl, hd⟩
  · simp [scanLiteral, literals, hne hc]
  · simp [scanLiteral, literals, hne hd]

/-! ## Values -/

/-- The text of a value and what follows it: `scanValue` takes it whatever else follows, if a number
would end there, and with any fuel that is as long as it. -/
def Takes (t : List Char) (v : Json) (r : List Char) : Prop :=
  ∃ c tl, isWs c = false ∧ c ≠ ']' ∧ t = c :: tl ++ r ∧
    ∀ m, tl.length + 1 ≤ m → ∀ r', (v.isNumber = true → Stops r' ∨ r' = r) →
      scanValue m (c :: tl ++ r') = some (v, r')

/-- What follows a value inside brackets ends a number. -/
theorem stops_of_white {w : List Char} {c : Char} (hw : ∀ x ∈ w, isWs x = true)
    (hc : isNumberChar c = false) (r : List Char) : Stops (w ++ c :: r) := by
  cases w with
  | nil => exact stops_cons hc r
  | cons x w =>
      refine stops_cons ?_ _
      have hx : isWs x = true := hw x List.mem_cons_self
      simp only [isWs, Bool.or_eq_true, decide_eq_true_eq] at hx
      rcases hx with ((rfl | rfl) | rfl) | rfl <;> rfl

/-- What is read after white space. -/
theorem Takes.after_white {u : List Char} {v : Json} (h : Takes (skipWs u) v r) :
    ∃ p, u = p ++ r ∧ ∀ m, p.length ≤ m → ∀ r', (v.isNumber = true → Stops r' ∨ r' = r) →
      scanValue m (skipWs (p ++ r')) = some (v, r') := by
  obtain ⟨w, hw, hsplit⟩ := exists_skipWs u
  obtain ⟨c, tl, hc, -, htext, hagain⟩ := h
  refine ⟨w ++ c :: tl, by rw [hsplit, htext, List.append_assoc], fun m hm r' hr' => ?_⟩
  rw [List.append_assoc, List.cons_append, skipWs_append_cons hw hc]
  exact hagain m (by simp at hm; omega) r' hr'

theorem scanItems_spec {n k : ℕ} (hvalue : ∀ t v r, scanValue n t = some (v, r) → Takes t v r)
    {vs : List Json} (h : scanItems (scanValue n) k t = some (vs, r)) :
    ∃ c tl, isWs c = false ∧ c ≠ ']' ∧ t = c :: tl ++ r ∧
      ∀ m k', tl.length + 1 ≤ m → tl.length + 1 ≤ k' → ∀ r',
        scanItems (scanValue m) k' (c :: tl ++ r') = some (vs, r') := by
  induction k generalizing t vs with
  | zero => cases h
  | succ k ih =>
      obtain ⟨⟨v, u⟩, hv, hnext⟩ := Option.bind_eq_some_iff.mp h
      obtain ⟨c, tl, hc, hbracket, rfl, hagain⟩ := hvalue _ _ _ hv
      obtain ⟨w, hw, hsplit⟩ := exists_skipWs u
      dsimp only at hnext
      split at hnext
      next u' hclose =>
        cases hnext
        rw [hclose] at hsplit
        refine ⟨c, tl ++ w ++ [']'], hc, hbracket, by simp [hsplit], fun m k' hm hk' r' => ?_⟩
        obtain ⟨k', rfl⟩ := Nat.exists_eq_add_of_lt (Nat.lt_of_lt_of_le (Nat.succ_pos _) hk')
        have htext : c :: (tl ++ w ++ [']']) ++ r' = c :: tl ++ (w ++ ']' :: r') := by simp
        rw [htext, Nat.zero_add, scanItems, hagain m (by simp at hm; omega) _ fun _ =>
          Or.inl (stops_of_white hw (by decide) r')]
        simp [skipWs_append_cons hw (show isWs ']' = false by decide) r']
      next u' hcomma =>
        obtain ⟨⟨vs', u''⟩, hvs', hlast⟩ := Option.bind_eq_some_iff.mp hnext
        cases hlast
        rw [hcomma] at hsplit
        obtain ⟨w', hw', hsplit'⟩ := exists_skipWs u'
        obtain ⟨c', tl', hc', -, htext', hagain'⟩ := ih hvs'
        rw [htext'] at hsplit'
        refine ⟨c, tl ++ w ++ ',' :: w' ++ c' :: tl', hc, hbracket, by simp [hsplit, hsplit'],
          fun m k' hm hk' r' => ?_⟩
        obtain ⟨k', rfl⟩ := Nat.exists_eq_add_of_lt (Nat.lt_of_lt_of_le (Nat.succ_pos _) hk')
        have htext : c :: (tl ++ w ++ ',' :: w' ++ c' :: tl') ++ r' =
            c :: tl ++ (w ++ ',' :: (w' ++ c' :: (tl' ++ r'))) := by simp
        simp only [List.length_append, List.length_cons] at hm hk'
        rw [htext, Nat.zero_add, scanItems, hagain m (by omega) _ fun _ =>
          Or.inl (stops_of_white hw (by decide) _)]
        have hrest := hagain' m k' (by omega) (by omega) r'
        rw [List.cons_append] at hrest
        simp [skipWs_append_cons hw (show isWs ',' = false by decide), skipWs_append_cons hw' hc', hrest]
      next => cases hnext

theorem scanMembers_spec {n k : ℕ} (hvalue : ∀ t v r, scanValue n t = some (v, r) → Takes t v r)
    {ms : List (List ℕ × Json)} (h : scanMembers (scanValue n) k t = some (ms, r)) :
    ∃ tl, t = '"' :: tl ++ r ∧ ∀ m k', tl.length + 1 ≤ m → tl.length + 1 ≤ k' → ∀ r',
      scanMembers (scanValue m) k' ('"' :: tl ++ r') = some (ms, r') := by
  induction k generalizing t ms with
  | zero => cases h
  | succ k ih =>
      obtain ⟨⟨key, a⟩, hkey, hafter⟩ := Option.bind_eq_some_iff.mp h
      obtain ⟨⟨v, u⟩, hv, hnext⟩ := Option.bind_eq_some_iff.mp hafter
      obtain ⟨pk, rfl, hkeyAgain⟩ := scanKey_spec hkey
      obtain ⟨pv, rfl, hagain⟩ := (hvalue _ _ _ hv).after_white
      obtain ⟨w, hw, hsplit⟩ := exists_skipWs u
      dsimp only at hnext
      split at hnext
      next u' hclose =>
        cases hnext
        rw [hclose] at hsplit
        refine ⟨pk ++ pv ++ w ++ ['}'], by simp [hsplit], fun m k' hm hk' r' => ?_⟩
        obtain ⟨k', rfl⟩ := Nat.exists_eq_add_of_lt (Nat.lt_of_lt_of_le (Nat.succ_pos _) hk')
        have htext : '"' :: (pk ++ pv ++ w ++ ['}']) ++ r' = '"' :: pk ++ (pv ++ (w ++ '}' :: r')) := by
          simp
        simp only [List.length_append, List.length_cons] at hm
        rw [htext, Nat.zero_add, scanMembers, hkeyAgain]
        simp only [Option.bind_eq_bind, Option.bind_some]
        rw [hagain m (by omega) _ fun _ => Or.inl (stops_of_white hw (by decide) r')]
        simp [skipWs_append_cons hw (show isWs '}' = false by decide) r']
      next u' hcomma =>
        obtain ⟨⟨ms', u''⟩, hms', hlast⟩ := Option.bind_eq_some_iff.mp hnext
        cases hlast
        rw [hcomma] at hsplit
        obtain ⟨w', hw', hsplit'⟩ := exists_skipWs u'
        obtain ⟨tl', htext', hagain'⟩ := ih hms'
        rw [htext'] at hsplit'
        refine ⟨pk ++ pv ++ w ++ ',' :: w' ++ '"' :: tl', by simp [hsplit, hsplit'],
          fun m k' hm hk' r' => ?_⟩
        obtain ⟨k', rfl⟩ := Nat.exists_eq_add_of_lt (Nat.lt_of_lt_of_le (Nat.succ_pos _) hk')
        have htext : '"' :: (pk ++ pv ++ w ++ ',' :: w' ++ '"' :: tl') ++ r' =
            '"' :: pk ++ (pv ++ (w ++ ',' :: (w' ++ '"' :: (tl' ++ r')))) := by simp
        simp only [List.length_append, List.length_cons] at hm hk'
        rw [htext, Nat.zero_add, scanMembers, hkeyAgain]
        simp only [Option.bind_eq_bind, Option.bind_some]
        rw [hagain m (by omega) _ fun _ => Or.inl (stops_of_white hw (by decide) _)]
        have hrest := hagain' m k' (by omega) (by omega) r'
        rw [List.cons_append] at hrest
        simp [skipWs_append_cons hw (show isWs ',' = false by decide),
          skipWs_append_cons hw' (show isWs '"' = false by decide), hrest]
      next => cases hnext

/-- What starts with a quote or a bracket is read by its own branch of `scanValue`. -/
theorem takes_of_opening {v : Json} (c : Char) (tl : List Char) (hc : isWs c = false)
    (hbracket : c ≠ ']') (ht : t = c :: tl ++ r)
    (hagain : ∀ m, tl.length ≤ m → ∀ r', scanValue (m + 1) (c :: tl ++ r') = some (v, r')) :
    Takes t v r := by
  refine ⟨c, tl, hc, hbracket, ht, fun m hm r' _ => ?_⟩
  obtain ⟨m, rfl⟩ := Nat.exists_eq_add_of_lt (Nat.lt_of_lt_of_le (Nat.succ_pos _) hm)
  rw [Nat.zero_add]
  exact hagain m (by omega) r'

/-- What starts with no quote and no bracket is a word or a number. -/
theorem scanValue_plain {c : Char} (hquote : c ≠ '"') (hbrace : c ≠ '{') (hopen : c ≠ '[') (m : ℕ)
    (tl : List Char) :
    scanValue (m + 1) (c :: tl) = (scanLiteral (c :: tl)).or (scanNumber (c :: tl)) := by
  unfold scanValue
  split
  next heq => exact absurd (List.cons.inj heq).1 hquote
  next heq => exact absurd (List.cons.inj heq).1 hbrace
  next heq => exact absurd (List.cons.inj heq).1 hopen
  next => rfl

/-- A value's text is taken from the front, whatever follows it. -/
theorem scanValue_spec {n : ℕ} {v : Json} (h : scanValue n t = some (v, r)) : Takes t v r := by
  induction n generalizing t v r with
  | zero => cases h
  | succ n ih =>
      unfold scanValue at h
      split at h
      -- a text
      next t =>
        obtain ⟨⟨s, u⟩, hs, heq⟩ := Option.map_eq_some_iff.mp h
        cases heq
        obtain ⟨p, rfl, hagain⟩ := scanString_spec hs
        refine takes_of_opening '"' p (by decide) (by decide) rfl fun m _ r' => ?_
        rw [List.cons_append, scanValue, hagain]
        rfl
      -- an object
      next t =>
        obtain ⟨w, hw, hsplit⟩ := exists_skipWs t
        split at h
        next u hclose =>
          cases h
          rw [hclose] at hsplit
          refine takes_of_opening '{' (w ++ ['}']) (by decide) (by decide) (by simp [hsplit])
            fun m _ r' => ?_
          have htext : '{' :: (w ++ ['}']) ++ r' = '{' :: (w ++ '}' :: r') := by simp
          rw [htext, scanValue, skipWs_append_cons hw (by decide)]
          rfl
        next u hnot =>
          obtain ⟨⟨ms, u'⟩, hms, heq⟩ := Option.map_eq_some_iff.mp h
          cases heq
          obtain ⟨tl, htext, hagain⟩ := scanMembers_spec (fun _ _ _ => ih) hms
          rw [htext] at hsplit
          refine takes_of_opening '{' (w ++ '"' :: tl) (by decide) (by decide) (by simp [hsplit])
            fun m hm r' => ?_
          have htext' : '{' :: (w ++ '"' :: tl) ++ r' = '{' :: (w ++ '"' :: (tl ++ r')) := by simp
          simp only [List.length_append, List.length_cons] at hm
          rw [htext', scanValue, skipWs_append_cons hw (by decide)]
          have hrest := hagain m m (by omega) (by omega) r'
          rw [List.cons_append] at hrest
          simp [hrest]
      -- an array
      next t =>
        obtain ⟨w, hw, hsplit⟩ := exists_skipWs t
        split at h
        next u hclose =>
          cases h
          rw [hclose] at hsplit
          refine takes_of_opening '[' (w ++ [']']) (by decide) (by decide) (by simp [hsplit])
            fun m _ r' => ?_
          have htext : '[' :: (w ++ [']']) ++ r' = '[' :: (w ++ ']' :: r') := by simp
          rw [htext, scanValue, skipWs_append_cons hw (by decide)]
          rfl
        next u hnot =>
          obtain ⟨⟨vs, u'⟩, hvs, heq⟩ := Option.map_eq_some_iff.mp h
          cases heq
          obtain ⟨c, tl, hc, hbracket, htext, hagain⟩ := scanItems_spec (fun _ _ _ => ih) hvs
          rw [htext] at hsplit
          refine takes_of_opening '[' (w ++ c :: tl) (by decide) (by decide) (by simp [hsplit])
            fun m hm r' => ?_
          have htext' : '[' :: (w ++ c :: tl) ++ r' = '[' :: (w ++ c :: (tl ++ r')) := by simp
          simp only [List.length_append, List.length_cons] at hm
          rw [htext', scanValue, skipWs_append_cons hw hc]
          have hrest := hagain m m (by omega) (by omega) r'
          rw [List.cons_append] at hrest
          simp [hbracket, hrest]
      -- a word or a number
      next hquote hbrace hopen =>
        have hplain : ∀ c tl, t = c :: tl ++ r → ∀ m, tl.length + 1 ≤ m → ∀ r',
            scanValue m (c :: tl ++ r') =
              (scanLiteral (c :: tl ++ r')).or (scanNumber (c :: tl ++ r')) := by
          rintro c tl ht m hm r'
          obtain ⟨m, rfl⟩ := Nat.exists_eq_add_of_lt (Nat.lt_of_lt_of_le (Nat.succ_pos _) hm)
          refine scanValue_plain ?_ ?_ ?_ _ _ <;> rintro rfl
          · exact hquote _ ht
          · exact hbrace _ ht
          · exact hopen _ ht
        rcases Option.or_eq_some_iff.mp h with hword | ⟨-, hnumber⟩
        · obtain ⟨c, tl, ⟨hc, hbracket⟩, ht, hagain⟩ := scanLiteral_spec hword
          refine ⟨c, tl, hc, hbracket, ht, fun m hm r' _ => ?_⟩
          rw [hplain c tl ht m hm, hagain]
          rfl
        · obtain ⟨c, tl, hstart, ht, hagain⟩ := scanNumber_spec hnumber
          have hc : isWs c = false ∧ c ≠ ']' := by
            rcases hstart with hdigit | ⟨-, -, rfl, -⟩
            · exact not_white_of_isDigit hdigit
            · decide
          refine ⟨c, tl, hc.1, hc.2, ht, fun m hm r' hr' => ?_⟩
          rw [hplain c tl ht m hm]
          rcases hr' (isNumber_of_scanNumber hnumber) with hstops | rfl
          · rw [scanLiteral_of_number hstart, hagain r' hstops]
            rfl
          · rw [← ht]
            exact h

/-! ## Escapes -/

theorem hexVal_digitChar : ∀ d < 16, hexVal (Nat.digitChar d) = some d := by decide

theorem hexVal4_hex4 {n : ℕ} (h : n < 0x10000) :
    hexVal4 (Nat.digitChar (n / 4096 % 16)) (Nat.digitChar (n / 256 % 16))
      (Nat.digitChar (n / 16 % 16)) (Nat.digitChar (n % 16)) = some n := by
  have hlt : ∀ m : ℕ, m % 16 < 16 := fun m => Nat.mod_lt m (by decide)
  simp only [hexVal4, hexVal_digitChar _ (hlt _), Option.bind_eq_bind, Option.bind_some,
    Option.pure_def, Option.some.injEq]
  omega

/-- A code point, or the two halves of its surrogate pair. -/
def units (c : ℕ) : List ℕ :=
  if c < 0x10000 then [c]
  else [0xd800 + (c - 0x10000) / 1024 % 1024, 0xdc00 + (c - 0x10000) % 1024]

theorem scanUnits_unicodeEscape {n : ℕ} (h : n < 0x10000) (t : List Char) :
    scanUnits (unicodeEscape n ++ t) = (scanUnits t).map fun st => (n :: st.1, st.2) := by
  simp only [unicodeEscape, hex4, List.cons_append, List.nil_append, scanUnits, hexVal4_hex4 h]
  cases scanUnits t <;> rfl

theorem toNat_ofNat_of_ascii : ∀ c < 127, (Char.ofNat c).toNat = c := by decide

theorem scanUnits_escaped {c : ℕ} (hc : c < 0x110000) (t : List Char) :
    scanUnits (escaped c ++ t) = (scanUnits t).map fun st => (units c ++ st.1, st.2) := by
  have hshort : ∀ a, unescaped a = some c → a ≠ 'u' → c < 0x10000 →
      scanUnits ('\\' :: a :: t) = (scanUnits t).map fun st => (units c ++ st.1, st.2) := by
    intro a ha hu hlt
    rw [scanUnits, ha, units, if_pos hlt]
    · cases scanUnits t <;> rfl
    · rintro _ _ _ _ _ rfl _
      exact absurd rfl hu
  unfold escaped
  split_ifs with h1 h2 h3 h4 h5 h6 h7 h8 h9
  · exact hshort '"' (by rw [h1]; rfl) (by decide) (by omega)
  · exact hshort '\\' (by rw [h2]; rfl) (by decide) (by omega)
  · exact hshort 'b' (by rw [h3]; rfl) (by decide) (by omega)
  · exact hshort 't' (by rw [h4]; rfl) (by decide) (by omega)
  · exact hshort 'n' (by rw [h5]; rfl) (by decide) (by omega)
  · exact hshort 'f' (by rw [h6]; rfl) (by decide) (by omega)
  · exact hshort 'r' (by rw [h7]; rfl) (by decide) (by omega)
  · have hnat : (Char.ofNat c).toNat = c := toNat_ofNat_of_ascii c (by omega)
    have hne : ∀ x : Char, x.toNat ≠ c → Char.ofNat c ≠ x := by
      rintro x hx rfl
      exact hx hnat
    rw [List.singleton_append, scanUnits_cons (hne '"' (Ne.symm h1)) (hne '\\' (Ne.symm h2))
      (by rw [hnat]; exact h8.1), hnat, units, if_pos (by omega)]
    cases scanUnits t <;> rfl
  · rw [scanUnits_unicodeEscape h9, units, if_pos h9]
    rfl
  · rw [List.append_assoc, scanUnits_unicodeEscape (by omega), scanUnits_unicodeEscape (by omega), units,
      if_neg h9]
    cases scanUnits t <;> rfl

theorem scanUnits_flatMap_escaped {s : List ℕ} (hs : ∀ c ∈ s, c.isValidChar) (r : List Char) :
    scanUnits (s.flatMap escaped ++ '"' :: r) = some (s.flatMap units, r) := by
  induction s with
  | nil => rfl
  | cons c s ih =>
      have hc : c < 0x110000 := by
        rcases hs c List.mem_cons_self with h | h <;> omega
      rw [List.flatMap_cons, List.append_assoc, scanUnits_escaped hc,
        ih fun x hx => hs x (List.mem_cons_of_mem _ hx)]
      rfl

/-- The halves of the pairs are joined again, as a text of characters has no half of its own. -/
theorem joinSurrogates_flatMap_units {s : List ℕ} (hs : ∀ c ∈ s, c.isValidChar) :
    joinSurrogates (s.flatMap units) = s := by
  have hlow : ∀ s : List ℕ, (∀ c ∈ s, c.isValidChar) → ∀ h, isHighSurrogate h = false →
      joinSurrogates (h :: s.flatMap units) = h :: joinSurrogates (s.flatMap units) := by
    intro s _ h hh
    cases s.flatMap units with
    | nil => rfl
    | cons l u => simp [joinSurrogates, hh]
  induction s with
  | nil => rfl
  | cons c s ih =>
      have hc : c.isValidChar := hs c List.mem_cons_self
      have hs' : ∀ x ∈ s, x.isValidChar := fun x hx => hs x (List.mem_cons_of_mem _ hx)
      rw [List.flatMap_cons, units]
      split_ifs with hlt
      · have hhigh : isHighSurrogate c = false := by
          simp only [isHighSurrogate, Bool.and_eq_false_imp, decide_eq_true_eq, decide_eq_false_iff_not]
          rcases hc with h | h <;> omega
        rw [List.singleton_append, hlow s hs' c hhigh, ih hs']
      · have hpair : isHighSurrogate (0xd800 + (c - 0x10000) / 1024 % 1024) &&
            isLowSurrogate (0xdc00 + (c - 0x10000) % 1024) := by
          simp only [isHighSurrogate, isLowSurrogate, Bool.and_eq_true, decide_eq_true_eq]
          omega
        have hjoin : 0x10000 + (0xd800 + (c - 0x10000) / 1024 % 1024 - 0xd800) * 1024 +
            (0xdc00 + (c - 0x10000) % 1024 - 0xdc00) = c := by
          rcases hc with h | h <;> omega
        simp only [List.cons_append, List.nil_append, joinSurrogates, hpair, if_true, hjoin, ih hs']

theorem scanString_quoted {s : List ℕ} (hs : ∀ c ∈ s, c.isValidChar) (r : List Char) :
    scanString (s.flatMap escaped ++ '"' :: r) = some (s, r) := by
  rw [scanString, scanUnits_flatMap_escaped hs, Option.map_some]
  exact congrArg some (Prod.ext (joinSurrogates_flatMap_units hs) rfl)

/-! ## Decimals -/

theorem head?_toDigits_ne_zero {n : ℕ} (hn : n ≠ 0) :
    ∃ c tl, Nat.toDigits 10 n = c :: tl ∧ c ≠ '0' := by
  induction n using Nat.strong_induction_on with
  | _ n ih =>
      rw [Nat.toDigits_eq_if (by decide)]
      split_ifs with hlt
      · refine ⟨_, [], rfl, ?_⟩
        interval_cases n <;> first | exact absurd rfl hn | decide
      · obtain ⟨c, tl, htl, hc⟩ := ih (n / 10) (by omega) (by omega)
        exact ⟨c, tl ++ [Nat.digitChar (n % 10)], by rw [htl]; rfl, hc⟩

theorem scanWhole_toDigits (n : ℕ) (hr : Stops r) :
    scanWhole (Nat.toDigits 10 n ++ r) = some (Nat.toDigits 10 n, r) := by
  by_cases hn : n = 0
  · rw [hn, Nat.toDigits_zero]
    rfl
  obtain ⟨c, tl, htl, hc⟩ := head?_toDigits_ne_zero hn
  have hdigits : ∀ x ∈ Nat.toDigits 10 n, x.isDigit = true :=
    fun x hx => Nat.isDigit_of_mem_toDigits (by decide) (by decide) hx
  have hspan := takeWhile_isDigit_append hdigits (not_isDigit_of_stops hr)
  unfold scanWhole
  split
  next heq =>
    rw [htl] at heq
    exact absurd (List.cons.inj heq).1 hc
  next => rw [hspan.1, hspan.2, if_neg Nat.toDigits_ne_nil]

theorem scanUnsigned_toDigits (sign : List Char) (n : ℕ) (hr : Stops r) :
    scanUnsigned sign (Nat.toDigits 10 n ++ r) =
      some (.int (if sign = [] then (n : ℤ) else -(n : ℤ)), r) := by
  have hpoint : scanFraction r = ([], r) := by
    unfold scanFraction
    split
    next => cases hr '.' rfl
    next => rfl
  have hexponent : scanExponent r = ([], r) := by
    unfold scanExponent
    split
    next e t =>
      have hchar := hr e rfl
      rw [if_neg]
      rintro ⟨rfl | rfl, -⟩ <;> cases hchar
    next => rfl
  simp [scanUnsigned, scanWhole_toDigits n hr, hpoint, hexponent]

theorem scanNumber_repr (i : ℤ) (hr : Stops r) :
    scanNumber ((Int.repr i).toList ++ r) = some (.int i, r) := by
  rw [Int.repr_eq_if]
  split_ifs with hi
  · rw [Nat.toList_repr]
    obtain ⟨c, tl, htl⟩ := List.exists_cons_of_ne_nil (Nat.toDigits_ne_nil (n := i.toNat) (b := 10))
    have hminus : c ≠ '-' := by
      rintro rfl
      have := Nat.isDigit_of_mem_toDigits (b := 10) (by decide) (by decide)
        (show '-' ∈ Nat.toDigits 10 i.toNat by rw [htl]; exact List.mem_cons_self)
      cases this
    unfold scanNumber
    split
    next heq =>
      rw [htl] at heq
      exact absurd (List.cons.inj heq).1 hminus
    next =>
      rw [scanUnsigned_toDigits [] _ hr]
      simp [hi]
  · rw [String.toList_append, Nat.toList_repr]
    show scanUnsigned ['-'] (Nat.toDigits 10 (-i).toNat ++ r) = _
    rw [scanUnsigned_toDigits _ _ hr]
    simp
    omega

/-! ## Documents -/

/-- No floats, no halves of surrogate pairs, and no key twice. -/
def Plain : Json → Prop
  | .float _ => False
  | .str s => ∀ c ∈ s, c.isValidChar
  | .arr items => plainItems items
  | .obj members => (members.map Prod.fst).Nodup ∧ plainMembers members
  | _ => True
where
  plainItems : List Json → Prop
    | [] => True
    | v :: items => Plain v ∧ plainItems items
  plainMembers : List (List ℕ × Json) → Prop
    | [] => True
    | (k, v) :: members => (∀ c ∈ k, c.isValidChar) ∧ Plain v ∧ plainMembers members

theorem foldl_setEntries_of_nodup (l d : List (List ℕ × Json))
    (h : ((d ++ l).map Prod.fst).Nodup) :
    l.foldl (fun d kv => Dict.setEntries kv.1 kv.2 d) d = d ++ l := by
  induction l generalizing d with
  | nil => simp
  | cons kv l ih =>
      have hnot : kv.1 ∉ d.map Prod.fst := by
        rw [List.map_append, List.map_cons, List.nodup_append] at h
        intro hmem
        exact h.2.2 kv.1 hmem kv.1 List.mem_cons_self rfl
      rw [List.foldl_cons, Dict.setEntries_of_notMem kv.1 kv.2 d hnot, ih _ (by simpa using h)]
      simp

theorem dictOf_of_nodup {l : List (List ℕ × Json)} (h : (l.map Prod.fst).Nodup) : dictOf l = l :=
  foldl_setEntries_of_nodup l [] h

variable (floatRepr) in
theorem exists_dumps_eq_cons {v : Json} (h : v.Plain) :
    ∃ c tl, dumps floatRepr v = c :: tl ∧ isWs c = false ∧ c ≠ ']' := by
  cases v with
  | null => exact ⟨_, _, rfl, by decide, by decide⟩
  | bool b => cases b <;> exact ⟨_, _, rfl, by decide, by decide⟩
  | int i =>
      obtain ⟨c, tl, hstart, htext, -⟩ := scanNumber_spec (scanNumber_repr i stops_nil)
      rw [List.append_nil, List.append_nil] at htext
      refine ⟨c, tl, htext, ?_⟩
      rcases hstart with hdigit | ⟨-, -, rfl, -⟩
      · exact not_white_of_isDigit hdigit
      · decide
  | float l => exact h.elim
  | str s => exact ⟨_, _, rfl, by decide, by decide⟩
  | arr items => exact ⟨_, _, rfl, by decide, by decide⟩
  | obj members => exact ⟨_, _, rfl, by decide, by decide⟩

variable (floatRepr) in
theorem dumpsItems_eq_cons {v : Json} (h : v.Plain) (items : List Json) :
    ∃ c tl, dumps.dumpsItems floatRepr (v :: items) = c :: tl ∧ isWs c = false ∧ c ≠ ']' := by
  obtain ⟨c, tl, htl, hc⟩ := exists_dumps_eq_cons floatRepr h
  cases items with
  | nil => exact ⟨c, tl, htl, hc⟩
  | cons w items => exact ⟨c, tl ++ _, by rw [dumps.dumpsItems, htl, List.cons_append], hc⟩

variable (floatRepr) in
theorem dumpsMembers_eq_cons (m : List ℕ × Json) (ms : List (List ℕ × Json)) :
    ∃ tl, dumps.dumpsMembers floatRepr (m :: ms) = '"' :: tl := by
  obtain ⟨k, v⟩ := m
  cases ms <;> exact ⟨_, rfl⟩

theorem scanKey_quoted {k : List ℕ} (hk : ∀ c ∈ k, c.isValidChar) (r : List Char) :
    scanKey (quoted k ++ ':' :: r) = some (k, r) := by
  have htext : quoted k ++ ':' :: r = '"' :: (k.flatMap escaped ++ '"' :: (':' :: r)) := by
    simp [quoted]
  rw [htext, scanKey, scanString_quoted hk]
  simp [skipWs_eq_self (show isWs ':' = false by decide) r]

mutual

/-- A value that is written is read back, with what follows it left. -/
theorem scanValue_dumps : ∀ (v : Json), v.Plain → ∀ m r,
    (dumps floatRepr v).length ≤ m → (v.isNumber = true → Stops r) →
      scanValue m (dumps floatRepr v ++ r) = some (v, r)
  | v, h, 0, r, hm, _ => by
      obtain ⟨c, tl, htl, -⟩ := exists_dumps_eq_cons floatRepr h
      rw [htl] at hm
      cases hm
  | .null, _, m + 1, r, _, _ => by simp [dumps, scanValue, scanLiteral, literals]
  | .bool true, _, m + 1, r, _, _ => by simp [dumps, scanValue, scanLiteral, literals]
  | .bool false, _, m + 1, r, _, _ => by simp [dumps, scanValue, scanLiteral, literals]
  | .int i, _, m + 1, r, hm, hr => by
      have hread := scanNumber_repr i (hr rfl)
      obtain ⟨c, tl, hstart, htext, -⟩ := scanNumber_spec hread
      have hne : ∀ x : Char, x.isDigit = false → x ≠ '-' → c ≠ x := by
        rintro x hx hminus rfl
        rcases hstart with hdigit | ⟨-, -, rfl, -⟩
        · rw [hx] at hdigit
          cases hdigit
        · exact hminus rfl
      show scanValue (m + 1) ((Int.repr i).toList ++ r) = _
      rw [htext] at hread ⊢
      rw [List.cons_append, scanValue_plain (hne '"' rfl (by decide)) (hne '{' rfl (by decide))
        (hne '[' rfl (by decide)), ← List.cons_append, scanLiteral_of_number hstart, hread]
      rfl
  | .float _, h, _, _, _, _ => h.elim
  | .str s, h, m + 1, r, _, _ => by
      show scanValue (m + 1) ('"' :: (s.flatMap escaped ++ ['"']) ++ r) = _
      rw [List.cons_append, List.append_assoc, List.singleton_append, scanValue, scanString_quoted h]
      rfl
  | .arr [], _, m + 1, r, _, _ => rfl
  | .arr (v :: items), h, m + 1, r, hm, _ => by
      obtain ⟨c, tl, htl, hc, hbracket⟩ := dumpsItems_eq_cons floatRepr h.1 items
      simp only [dumps, List.length_cons, List.length_append, List.length_nil] at hm
      have hitems := scanItems_dumps v items h m m r (by omega) (by omega)
      show scanValue (m + 1) ('[' :: (dumps.dumpsItems floatRepr (v :: items) ++ [']']) ++ r) = _
      rw [List.cons_append, List.append_assoc, List.singleton_append]
      rw [htl] at hitems ⊢
      rw [List.cons_append] at hitems ⊢
      rw [scanValue, skipWs_eq_self hc]
      simp [hbracket, hitems]
  | .obj [], _, m + 1, r, _, _ => rfl
  | .obj (kv :: members), h, m + 1, r, hm, _ => by
      obtain ⟨tl, htl⟩ := dumpsMembers_eq_cons floatRepr kv members
      simp only [dumps, List.length_cons, List.length_append, List.length_nil] at hm
      have hmembers := scanMembers_dumps kv members h.2 m m r (by omega) (by omega)
      show scanValue (m + 1) ('{' :: (dumps.dumpsMembers floatRepr (kv :: members) ++ ['}']) ++ r) = _
      rw [List.cons_append, List.append_assoc, List.singleton_append]
      rw [htl] at hmembers ⊢
      rw [List.cons_append] at hmembers ⊢
      rw [scanValue, skipWs_eq_self (by decide)]
      simp [hmembers, dictOf_of_nodup h.1]
termination_by v => sizeOf v

theorem scanItems_dumps : ∀ (v : Json) (items : List Json), Plain.plainItems (v :: items) → ∀ m k r,
    (dumps.dumpsItems floatRepr (v :: items)).length ≤ m →
      (dumps.dumpsItems floatRepr (v :: items)).length ≤ k →
        scanItems (scanValue m) k (dumps.dumpsItems floatRepr (v :: items) ++ ']' :: r) =
          some (v :: items, r)
  | v, items, h, _, 0, _, _, hk => by
      obtain ⟨c, tl, htl, -⟩ := dumpsItems_eq_cons floatRepr h.1 items
      rw [htl] at hk
      cases hk
  | v, [], h, m, k + 1, r, hm, hk => by
      have hv := scanValue_dumps v h.1 m (']' :: r) hm fun _ => stops_cons (by decide) r
      rw [dumps.dumpsItems, scanItems, hv]
      simp [skipWs_eq_self (show isWs ']' = false by decide) r]
  | v, w :: items, h, m, k + 1, r, hm, hk => by
      obtain ⟨c, tl, htl, hc, -⟩ := dumpsItems_eq_cons floatRepr h.2.1 items
      simp only [dumps.dumpsItems, List.length_cons, List.length_append] at hm hk
      have hitems := scanItems_dumps w items h.2 m k r (by omega) (by omega)
      have hv := scanValue_dumps v h.1 m (',' :: (dumps.dumpsItems floatRepr (w :: items) ++ ']' :: r))
        (by omega) fun _ => stops_cons (by decide) _
      rw [dumps.dumpsItems, List.append_assoc, List.cons_append, scanItems, hv]
      rw [htl] at hitems ⊢
      rw [List.cons_append] at hitems ⊢
      simp [skipWs_eq_self (show isWs ',' = false by decide), skipWs_eq_self hc, hitems]
termination_by v items => sizeOf (v :: items)

theorem scanMembers_dumps : ∀ (kv : List ℕ × Json) (members : List (List ℕ × Json)),
    Plain.plainMembers (kv :: members) → ∀ m k r,
      (dumps.dumpsMembers floatRepr (kv :: members)).length ≤ m →
        (dumps.dumpsMembers floatRepr (kv :: members)).length ≤ k →
          scanMembers (scanValue m) k (dumps.dumpsMembers floatRepr (kv :: members) ++ '}' :: r) =
            some (kv :: members, r)
  | kv, members, _, _, 0, _, _, hk => by
      obtain ⟨tl, htl⟩ := dumpsMembers_eq_cons floatRepr kv members
      rw [htl] at hk
      cases hk
  | (key, v), [], h, m, k + 1, r, hm, hk => by
      obtain ⟨c, tl, htl, hc, -⟩ := exists_dumps_eq_cons floatRepr h.2.1
      simp only [dumps.dumpsMembers, List.length_cons, List.length_append] at hm
      have hv := scanValue_dumps v h.2.1 m ('}' :: r) (by omega) fun _ => stops_cons (by decide) r
      rw [dumps.dumpsMembers, List.append_assoc, List.cons_append, scanMembers, scanKey_quoted h.1]
      rw [htl] at hv ⊢
      rw [List.cons_append] at hv ⊢
      simp [skipWs_eq_self hc, hv, skipWs_eq_self (show isWs '}' = false by decide) r]
  | (key, v), kv :: members, h, m, k + 1, r, hm, hk => by
      obtain ⟨c, tl, htl, hc, -⟩ := exists_dumps_eq_cons floatRepr h.2.1
      obtain ⟨tl', htl'⟩ := dumpsMembers_eq_cons floatRepr kv members
      simp only [dumps.dumpsMembers, List.length_cons, List.length_append] at hm hk
      have hmembers := scanMembers_dumps kv members h.2.2 m k r (by omega) (by omega)
      have hv := scanValue_dumps v h.2.1 m
        (',' :: (dumps.dumpsMembers floatRepr (kv :: members) ++ '}' :: r)) (by omega)
        fun _ => stops_cons (by decide) _
      rw [dumps.dumpsMembers, List.append_assoc, List.append_assoc, List.cons_append, List.cons_append,
        scanMembers, scanKey_quoted h.1]
      rw [htl] at hv ⊢
      rw [htl'] at hmembers hv ⊢
      rw [List.cons_append] at hmembers hv ⊢
      simp only [List.cons_append] at hv
      simp [skipWs_eq_self hc, hv, skipWs_eq_self (show isWs ',' = false by decide),
        skipWs_eq_self (show isWs '"' = false by decide), hmembers]
termination_by kv members => sizeOf (kv :: members)

end

/-! ## What is a document -/

/-- The fuel does not matter once it is as long as the text. -/
theorem scanValue_of_scanValue {n m : ℕ} {v : Json} (h : scanValue n t = some (v, r))
    (hm : t.length ≤ m) : scanValue m t = some (v, r) := by
  obtain ⟨c, tl, -, -, rfl, hagain⟩ := scanValue_spec h
  exact hagain m (by simp at hm; omega) r fun _ => Or.inr rfl

theorem loads_eq_some {v : Json} :
    loads t = some v ↔ ∃ n r, scanValue n (skipWs t) = some (v, r) ∧ skipWs r = [] := by
  constructor
  · intro h
    obtain ⟨⟨v', r⟩, hscan, hend⟩ := Option.bind_eq_some_iff.mp h
    dsimp only at hend
    split at hend
    next hrest =>
      cases hend
      exact ⟨_, r, hscan, hrest⟩
    next => cases hend
  · rintro ⟨n, r, hscan, hrest⟩
    have hlen : (skipWs t).length ≤ t.length + 1 :=
      (List.dropWhile_suffix isWs).length_le.trans (Nat.le_succ _)
    simp [loads, scanValue_of_scanValue hscan hlen, hrest]

/-- What is written is read back. -/
theorem loads_dumps {v : Json} (h : v.Plain) : loads (dumps floatRepr v) = some v := by
  obtain ⟨c, tl, htl, hc, -⟩ := exists_dumps_eq_cons floatRepr h
  have hscan := scanValue_dumps v h (dumps floatRepr v).length [] le_rfl fun _ => stops_nil
  rw [List.append_nil] at hscan
  refine loads_eq_some.mpr ⟨(dumps floatRepr v).length, [], ?_, rfl⟩
  rw [htl] at hscan ⊢
  rw [skipWs_eq_self hc]
  exact hscan

theorem isNumber_of_brace {n : ℕ} {v : Json} (h : scanValue n ('{' :: t) = some (v, r)) :
    v.isNumber = false := by
  cases n with
  | zero => cases h
  | succ n =>
      simp only [scanValue] at h
      split at h
      · cases h
        rfl
      · obtain ⟨⟨ms, u⟩, -, heq⟩ := Option.map_eq_some_iff.mp h
        cases heq
        rfl

/-- No part of an object's document that stops before its end is a document. -/
theorem loads_eq_none_of_cut {n : ℕ} {p q : List Char} {v : Json}
    (h : scanValue n (p ++ q) = some (v, [])) (hbrace : (p ++ q).head? = some '{') (hq : q ≠ []) :
    loads p = none := by
  refine Option.eq_none_iff_forall_ne_some.mpr fun w hw => ?_
  obtain ⟨k, r, hscan, -⟩ := loads_eq_some.mp hw
  cases p with
  | nil =>
      cases k with
      | zero => cases hscan
      | succ k => cases hscan
  | cons c p =>
      obtain rfl : c = '{' := Option.some.inj hbrace
      rw [skipWs_eq_self (by decide)] at hscan
      have hnumber := isNumber_of_brace hscan
      obtain ⟨c', tl, -, -, htext, hagain⟩ := scanValue_spec hscan
      have hmore := hagain (('{' :: p ++ q).length + tl.length + 1) (by omega) (r ++ q) (by simp [hnumber])
      rw [← List.append_assoc, ← htext,
        scanValue_of_scanValue h (by omega)] at hmore
      simp at hmore
      exact hq hmore.2.2

/-- A document that is no number, with more text after it, is none. -/
theorem loads_append_eq_none {v : Json} {c : Char} {u : List Char} (h : loads t = some v)
    (hv : v.isNumber = false) (hc : isWs c = false) : loads (t ++ c :: u) = none := by
  obtain ⟨n, r, hscan, hend⟩ := loads_eq_some.mp h
  obtain ⟨p, rfl, hagain⟩ := (scanValue_spec hscan).after_white
  refine Option.eq_none_iff_forall_ne_some.mpr fun w hw => ?_
  obtain ⟨k, r', hscan', hend'⟩ := loads_eq_some.mp hw
  rw [List.append_assoc] at hscan'
  have hmore := hagain (p.length + (skipWs (p ++ (r ++ c :: u))).length) (by omega) (r ++ c :: u)
    (by simp [hv])
  rw [scanValue_of_scanValue hscan' (by omega)] at hmore
  cases hmore
  obtain ⟨w', hw', hsplit⟩ := exists_skipWs r
  rw [hend, List.append_nil] at hsplit
  rw [hsplit, skipWs_append_cons hw' hc] at hend'
  cases hend'

/-! ## Characters -/

/-- A character that every encoding writes as one byte, and that ends no line. -/
def IsPrintable (c : Char) : Prop := 32 ≤ c.toNat ∧ c.toNat ≤ 126

theorem isPrintable_digitChar (n : ℕ) : IsPrintable (Nat.digitChar (n % 16)) := by
  have h : ∀ d < 16, 32 ≤ (Nat.digitChar d).toNat ∧ (Nat.digitChar d).toNat ≤ 126 := by decide
  exact h _ (Nat.mod_lt n (by decide))

theorem isPrintable_of_isDigit {c : Char} (h : c.isDigit = true) : IsPrintable c := by
  simp only [Char.isDigit, Bool.and_eq_true, decide_eq_true_eq] at h
  have h1 : 48 ≤ c.toNat := h.1
  have h2 : c.toNat ≤ 57 := h.2
  exact ⟨by omega, by omega⟩

theorem isPrintable_escaped {n : ℕ} : ∀ c ∈ escaped n, IsPrintable c := by
  have hunicode : ∀ m, ∀ c ∈ unicodeEscape m, IsPrintable c := by
    intro m c hc
    simp only [unicodeEscape, hex4, List.mem_cons, List.not_mem_nil, or_false] at hc
    rcases hc with rfl | rfl | rfl | rfl | rfl | rfl
    · exact ⟨by decide, by decide⟩
    · exact ⟨by decide, by decide⟩
    all_goals exact isPrintable_digitChar _
  have htwo : ∀ a, IsPrintable a → ∀ c ∈ ['\\', a], IsPrintable c := by
    intro a ha c hc
    rcases List.mem_cons.mp hc with rfl | hc
    · exact ⟨by decide, by decide⟩
    · exact List.mem_singleton.mp hc ▸ ha
  intro c hc
  unfold escaped at hc
  split_ifs at hc with h1 h2 h3 h4 h5 h6 h7 h8 h9
  iterate 7 exact htwo _ ⟨by decide, by decide⟩ c hc
  · rw [List.mem_singleton.mp hc, IsPrintable, toNat_ofNat_of_ascii n (by omega)]
    exact h8
  · exact hunicode _ c hc
  · rcases List.mem_append.mp hc with hc | hc
    · exact hunicode _ c hc
    · exact hunicode _ c hc

theorem isPrintable_quoted {s : List ℕ} : ∀ c ∈ quoted s, IsPrintable c := by
  intro c hc
  simp only [quoted, List.mem_cons, List.mem_append, List.mem_flatMap, List.not_mem_nil, or_false] at hc
  rcases hc with rfl | ⟨n, -, hc⟩ | rfl
  · exact ⟨by decide, by decide⟩
  · exact isPrintable_escaped c hc
  · exact ⟨by decide, by decide⟩

mutual

/-- What is written has no character outside of ASCII and no control character. -/
theorem isPrintable_dumps : ∀ (v : Json), v.Plain → ∀ c ∈ dumps floatRepr v, IsPrintable c
  | .null, _, c, hc => by
      simp only [dumps, List.mem_cons, List.not_mem_nil, or_false] at hc
      rcases hc with rfl | rfl | rfl | rfl <;> exact ⟨by decide, by decide⟩
  | .bool true, _, c, hc => by
      simp only [dumps, List.mem_cons, List.not_mem_nil, or_false] at hc
      rcases hc with rfl | rfl | rfl | rfl <;> exact ⟨by decide, by decide⟩
  | .bool false, _, c, hc => by
      simp only [dumps, List.mem_cons, List.not_mem_nil, or_false] at hc
      rcases hc with rfl | rfl | rfl | rfl | rfl <;> exact ⟨by decide, by decide⟩
  | .int i, _, c, hc => by
      rcases isDigit_or_eq_of_mem_repr hc with hdigit | rfl
      · exact isPrintable_of_isDigit hdigit
      · exact ⟨by decide, by decide⟩
  | .float _, h, _, _ => h.elim
  | .str s, _, c, hc => isPrintable_quoted c hc
  | .arr items, h, c, hc => by
      simp only [dumps, List.mem_cons, List.mem_append, List.not_mem_nil, or_false] at hc
      rcases hc with rfl | hc | rfl
      · exact ⟨by decide, by decide⟩
      · exact isPrintable_dumpsItems items h c hc
      · exact ⟨by decide, by decide⟩
  | .obj members, h, c, hc => by
      simp only [dumps, List.mem_cons, List.mem_append, List.not_mem_nil, or_false] at hc
      rcases hc with rfl | hc | rfl
      · exact ⟨by decide, by decide⟩
      · exact isPrintable_dumpsMembers members h.2 c hc
      · exact ⟨by decide, by decide⟩
termination_by v => sizeOf v

theorem isPrintable_dumpsItems : ∀ (items : List Json), Plain.plainItems items →
    ∀ c ∈ dumps.dumpsItems floatRepr items, IsPrintable c
  | [], _, c, hc => by cases hc
  | [v], h, c, hc => isPrintable_dumps v h.1 c hc
  | v :: w :: items, h, c, hc => by
      simp only [dumps.dumpsItems, List.mem_append, List.mem_cons] at hc
      rcases hc with hc | rfl | hc
      · exact isPrintable_dumps v h.1 c hc
      · exact ⟨by decide, by decide⟩
      · exact isPrintable_dumpsItems (w :: items) h.2 c hc
termination_by items => sizeOf items

theorem isPrintable_dumpsMembers : ∀ (members : List (List ℕ × Json)), Plain.plainMembers members →
    ∀ c ∈ dumps.dumpsMembers floatRepr members, IsPrintable c
  | [], _, c, hc => by cases hc
  | [(k, v)], h, c, hc => by
      simp only [dumps.dumpsMembers, List.mem_append, List.mem_cons] at hc
      rcases hc with hc | rfl | hc
      · exact isPrintable_quoted c hc
      · exact ⟨by decide, by decide⟩
      · exact isPrintable_dumps v h.2.1 c hc
  | (k, v) :: m :: members, h, c, hc => by
      simp only [dumps.dumpsMembers, List.mem_append, List.mem_cons] at hc
      rcases hc with (hc | rfl | hc) | rfl | hc
      · exact isPrintable_quoted c hc
      · exact ⟨by decide, by decide⟩
      · exact isPrintable_dumps v h.2.1 c hc
      · exact ⟨by decide, by decide⟩
      · exact isPrintable_dumpsMembers (m :: members) h.2.2 c hc
termination_by members => sizeOf members

end

end NanoFabric.Found.Json

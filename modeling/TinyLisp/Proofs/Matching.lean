import TinyLisp.Paren.Highlight
import TinyLisp.Proofs.Slices

/-!
# Parens that belong together

A `(` and a `)` belong together if the characters between them are balanced.  No paren belongs
together with two others, so a stack finds every pair: the `(` on top of it is the one that a `)`
behind the characters read so far would close.  A `)` that finds the stack empty closes nothing.

* `Parens.Matches` and `Parens.Stray`: pairs, and the `)` that have no partner.
* `Matches.start_unique` and `Matches.stop_unique`: there is no choice.
* `Opens`: what the stack holds behind some characters, with one lemma for each kind of character.
* `mem_pairs_iff` and `mem_strays_iff`: the stack finds these pairs and these parens, and no others.
-/

namespace TinyLisp.Parens

open Text (byteSize)
open Highlight (Pairing pairing)

/-! ## Balanced characters -/

/-- There are as many `)` as `(`, and up to no character there are more. -/
structure Balanced (chars : List Char) : Prop where
  total : chars.count ')' = chars.count '('
  front : ∀ front back, chars = front ++ back → front.count ')' ≤ front.count '('

/-- The `(` at the first offset and the `)` at the second belong together. -/
def Matches (chars : List Char) (start stop : Nat) : Prop :=
  ∃ before between after, chars = before ++ '(' :: (between ++ ')' :: after) ∧ Balanced between ∧
    byteSize before = start ∧ byteSize (before ++ '(' :: between) = stop

/-- At the offset stands a `)` that belongs to no `(`. -/
def Stray (chars : List Char) (offset : Nat) : Prop :=
  StandsAt chars offset ')' ∧ ∀ start, ¬ Matches chars start offset

/-- A `)` behind the characters would belong to the `(` at the offset. -/
def Closes (front : List Char) (start : Nat) : Prop :=
  ∃ before between, front = before ++ '(' :: between ∧ Balanced between ∧
    byteSize before = start

variable {chars more front rest before after : List Char} {c d : Char}
  {start stop offset other : Nat}

namespace Balanced

theorem nil : Balanced [] where
  total := rfl
  front front back h := by simp [(List.append_eq_nil_iff.mp h.symm).1]

/-- From no character on there are more `(`. -/
theorem back (h : Balanced (front ++ rest)) : rest.count '(' ≤ rest.count ')' := by
  have htotal := h.total
  have hfront := h.front front rest rfl
  simp only [List.count_append] at htotal
  omega

theorem append (h : Balanced chars) (hmore : Balanced more) : Balanced (chars ++ more) where
  total := by
    have htotal := h.total
    have hrest := hmore.total
    simp only [List.count_append]
    omega
  front front back heq := by
    rcases List.append_eq_append_iff.mp heq with ⟨gap, rfl, hgap⟩ | ⟨gap, hgap, -⟩
    · have htotal := h.total
      have hfront := hmore.front gap back hgap
      simp only [List.count_append]
      omega
    · exact h.front front gap hgap

/-- What is left of balanced characters if balanced characters are taken off the end. -/
theorem of_append (h : Balanced (chars ++ more)) (hmore : Balanced more) : Balanced chars where
  total := by
    have htotal := h.total
    have hrest := hmore.total
    simp only [List.count_append] at htotal
    omega
  front front back heq := h.front front (back ++ more) (by rw [heq, List.append_assoc])

theorem singleton (hopening : c ≠ '(') (hclosing : c ≠ ')') : Balanced [c] where
  total := by simp [hopening, hclosing]
  front front back heq := by
    rcases List.append_eq_singleton_iff.mp heq.symm with ⟨rfl, -⟩ | ⟨rfl, -⟩
    · exact Nat.le_refl _
    · simp [hclosing]

/-- Balanced characters between two parens. -/
theorem wrap (h : Balanced chars) : Balanced ('(' :: (chars ++ [')'])) where
  total := by simp [h.total]
  front front back heq := by
    cases front with
    | nil => exact Nat.le_refl _
    | cons d front =>
      obtain ⟨rfl, hrest⟩ := List.cons.inj heq
      rcases List.append_eq_append_iff.mp hrest with ⟨gap, rfl, hgap⟩ | ⟨gap, hgap, -⟩
      · have htotal := h.total
        have hle := List.Sublist.count_le ')' (List.sublist_append_left gap back)
        rw [← hgap, List.count_singleton_self] at hle
        simp
        omega
      · have hfront := h.front front gap hgap
        simp
        omega

/-- Up to a `)` that balanced characters hold, there is one `)` less than is allowed. -/
theorem not_append_closing (h : Balanced (chars ++ ')' :: rest)) : ¬ Balanced chars := by
  intro hchars
  have hfront := h.front (chars ++ [')']) rest (by simp)
  have htotal := hchars.total
  simp at hfront
  omega

/-- Behind a `(` that balanced characters hold, there is one `(` less than is allowed. -/
theorem not_opening_append (h : Balanced (front ++ '(' :: chars)) : ¬ Balanced chars := by
  intro hchars
  have hback := h.back
  have htotal := hchars.total
  simp at hback
  omega

end Balanced

/-! ## Partners -/

/-- The `(` that a `)` behind the characters would belong to is the only one of its kind. -/
theorem Closes.unique (h : Closes front start) (hother : Closes front other) : start = other := by
  obtain ⟨before, between, rfl, hbetween, rfl⟩ := h
  obtain ⟨before', between', heq, hbetween', rfl⟩ := hother
  rcases List.append_eq_append_iff.mp heq with ⟨gap, rfl, hgap⟩ | ⟨gap, rfl, hgap⟩
  · cases gap with
    | nil => rw [List.append_nil]
    | cons d gap =>
      obtain ⟨-, rfl⟩ := List.cons.inj hgap
      exact absurd hbetween' hbetween.not_opening_append
  · cases gap with
    | nil => rw [List.append_nil]
    | cons d gap =>
      obtain ⟨-, rfl⟩ := List.cons.inj hgap
      exact absurd hbetween hbetween'.not_opening_append

theorem matches_iff_closes : Matches (front ++ ')' :: rest) start (byteSize front) ↔
    Closes front start := by
  constructor
  · rintro ⟨before, between, after, heq, hbetween, hstart, hstop⟩
    have hchars : front ++ ')' :: rest = (before ++ '(' :: between) ++ ')' :: after := by
      simp [heq]
    obtain ⟨hfront, -⟩ := append_inj_of_byteSize_eq hchars hstop.symm
    exact ⟨before, between, hfront, hbetween, hstart⟩
  · rintro ⟨before, between, rfl, hbetween, hstart⟩
    exact ⟨before, between, rest, by simp, hbetween, hstart, rfl⟩

theorem stray_iff_closes : Stray (front ++ ')' :: rest) (byteSize front) ↔
    ∀ start, ¬ Closes front start := by
  simp only [Stray, matches_iff_closes, and_iff_right_iff_imp]
  intro _
  exact ⟨front, rest, rfl, rfl⟩

namespace Matches

variable (h : Matches chars start stop)

include h

theorem opening : StandsAt chars start '(' := by
  obtain ⟨before, between, after, rfl, -, hstart, -⟩ := h
  exact ⟨before, _, rfl, hstart⟩

theorem closing : StandsAt chars stop ')' := by
  obtain ⟨before, between, after, rfl, -, -, hstop⟩ := h
  exact ⟨before ++ '(' :: between, after, by simp, hstop⟩

theorem lt : start < stop := by
  obtain ⟨before, between, after, -, -, rfl, rfl⟩ := h
  have hsize := '('.utf8Size_pos
  simp only [Text.byteSize_append, byteSize]
  omega

/-- A `)` belongs to one `(` only. -/
theorem start_unique (hother : Matches chars other stop) : start = other := by
  obtain ⟨front, rest, rfl, rfl⟩ := h.closing
  exact (matches_iff_closes.mp h).unique (matches_iff_closes.mp hother)

/-- A `(` belongs to one `)` only. -/
theorem stop_unique (hother : Matches chars start other) : stop = other := by
  obtain ⟨before, between, after, rfl, hbetween, rfl, rfl⟩ := h
  obtain ⟨before', between', after', heq, hbetween', hstart, rfl⟩ := hother
  obtain ⟨rfl, hrest⟩ := append_inj_of_byteSize_eq heq hstart.symm
  obtain ⟨-, hinner⟩ := List.cons.inj hrest
  rcases List.append_eq_append_iff.mp hinner with ⟨gap, rfl, hgap⟩ | ⟨gap, rfl, hgap⟩
  · cases gap with
    | nil => rw [List.append_nil]
    | cons d gap =>
      obtain ⟨rfl, -⟩ := List.cons.inj hgap
      exact absurd hbetween hbetween'.not_append_closing
  · cases gap with
    | nil => rw [List.append_nil]
    | cons d gap =>
      obtain ⟨rfl, -⟩ := List.cons.inj hgap
      exact absurd hbetween' hbetween.not_append_closing

end Matches

/-- At an offset stands one character only. -/
theorem standsAt_unique (h : StandsAt chars offset c) (hother : StandsAt chars offset d) :
    c = d := by
  obtain ⟨before, after, rfl, rfl⟩ := h
  obtain ⟨before', after', heq, hsize⟩ := hother
  obtain ⟨-, hrest⟩ := append_inj_of_byteSize_eq heq hsize.symm
  exact (List.cons.inj hrest).1

/-- What is said of a `)` behind some characters is said of the next character, if that is one, or
of a `)` behind it. -/
theorem behind_iff {P : Prop} (hP : P → StandsAt (front ++ c :: rest) offset ')') :
    (byteSize front ≤ offset ∧ P) ↔
      (c = ')' ∧ offset = byteSize front ∧ P) ∨ (byteSize (front ++ [c]) ≤ offset ∧ P) := by
  have hsize := c.utf8Size_pos
  simp only [Text.byteSize_append, byteSize, Nat.add_zero]
  constructor
  · rintro ⟨hle, h⟩
    rcases (hP h).of_append with hlt | ⟨later, rfl, before, after, heq, rfl⟩
    · omega
    · cases before with
      | nil => exact .inl ⟨(List.cons.inj heq).1, by simp [byteSize], h⟩
      | cons d before =>
        obtain ⟨rfl, -⟩ := List.cons.inj heq
        refine .inr ⟨?_, h⟩
        simp only [byteSize]
        omega
  · rintro (⟨-, rfl, h⟩ | ⟨hle, h⟩)
    · exact ⟨Nat.le_refl _, h⟩
    · exact ⟨by omega, h⟩

/-! ## The stack -/

/-- These are the offsets of the `(` that are open behind the characters, the innermost first.  In
front of the outermost of them, from no character on there are more `(` than `)`. -/
inductive Opens : List Char → List Nat → Prop where
  | nil {front : List Char}
      (hclosed : ∀ before after, front = before ++ after → after.count '(' ≤ after.count ')') :
      Opens front []
  | cons {front inner : List Char} {opened} (houter : Opens front opened)
      (hinner : Balanced inner) : Opens (front ++ '(' :: inner) (byteSize front :: opened)

namespace Opens

variable {opened : List Nat}

theorem empty : Opens [] [] :=
  .nil fun before after h => by simp [(List.append_eq_nil_iff.mp h.symm).2]

/-- Balanced characters leave the same parens open. -/
theorem append (h : Opens front opened) (hmore : Balanced more) :
    Opens (front ++ more) opened := by
  cases h with
  | nil hclosed =>
    refine .nil fun before after heq => ?_
    rcases List.append_eq_append_iff.mp heq with ⟨gap, rfl, rfl⟩ | ⟨gap, hgap, rfl⟩
    · exact hmore.back
    · have hback := hclosed before gap hgap
      have htotal := hmore.total
      simp only [List.count_append]
      omega
  | cons houter hinner =>
    rw [List.append_assoc, List.cons_append]
    exact .cons houter (hinner.append hmore)

theorem opening (h : Opens front opened) : Opens (front ++ ['(']) (byteSize front :: opened) :=
  .cons h .nil

/-- A `)` closes the innermost open paren. -/
theorem closing (h : Opens front (start :: opened)) : Opens (front ++ [')']) opened := by
  cases h with
  | cons houter hinner =>
    rw [List.append_assoc, List.cons_append]
    exact houter.append hinner.wrap

/-- A `)` behind characters that leave no paren open leaves none open. -/
theorem stray (h : Opens front []) : Opens (front ++ [')']) [] := by
  cases h with
  | nil hclosed =>
    refine .nil fun before after heq => ?_
    rcases List.append_eq_append_iff.mp heq with ⟨gap, rfl, hgap⟩ | ⟨gap, hgap, rfl⟩
    · have hle := List.Sublist.count_le '(' (List.sublist_append_right gap after)
      rw [← hgap] at hle
      simp at hle
      omega
    · have hback := hclosed before gap hgap
      simp
      omega

/-- The `(` that a `)` would close is the one on top of the stack. -/
theorem closes_iff (h : Opens front opened) : Closes front start ↔ opened.head? = some start := by
  cases h with
  | nil hclosed =>
    simp only [List.head?_nil, reduceCtorEq, iff_false]
    rintro ⟨before, between, rfl, hbetween, -⟩
    have hback := hclosed before _ rfl
    have htotal := hbetween.total
    simp at hback
    omega
  | @cons front inner opened houter hinner =>
    have htop : Closes (front ++ '(' :: inner) (byteSize front) := ⟨front, inner, rfl, hinner, rfl⟩
    simp only [List.head?_cons, Option.some.injEq]
    constructor
    · intro hcloses
      exact htop.unique hcloses
    · rintro rfl
      exact htop

variable (h : Opens front opened)

include h

/-- Behind the characters, the next `)` that belongs to a `(` is the next character, if the stack
is not empty, or one behind it. -/
theorem matches_iff : byteSize front ≤ stop ∧ Matches (front ++ c :: rest) start stop ↔
    (c = ')' ∧ opened.head? = some start ∧ stop = byteSize front) ∨
      (byteSize (front ++ [c]) ≤ stop ∧ Matches (front ++ c :: rest) start stop) := by
  rw [behind_iff Matches.closing]
  refine or_congr_left (and_congr_right ?_)
  rintro rfl
  rw [and_comm]
  refine and_congr_left ?_
  rintro rfl
  rw [matches_iff_closes, h.closes_iff]

/-- Behind the characters, the next `)` that belongs to no `(` is the next character, if the stack
is empty, or one behind it. -/
theorem stray_iff : byteSize front ≤ offset ∧ Stray (front ++ c :: rest) offset ↔
    (c = ')' ∧ opened = [] ∧ offset = byteSize front) ∨
      (byteSize (front ++ [c]) ≤ offset ∧ Stray (front ++ c :: rest) offset) := by
  rw [behind_iff (P := Stray (front ++ c :: rest) offset) And.left]
  refine or_congr_left (and_congr_right ?_)
  rintro rfl
  rw [and_comm]
  refine and_congr_left ?_
  rintro rfl
  simp only [stray_iff_closes, h.closes_iff, List.head?_eq_some_iff]
  cases opened <;> simp

end Opens

/-! ## Pairs -/

/-- What the stack finds in the characters that are left.  The induction is over these characters,
and each of them leaves the stack as the lemma on its kind says. -/
theorem pairing_spec {opened : List Nat} (h : Opens front opened) (rest : List Char) :
    (∀ start stop, (start, stop) ∈ (pairing (byteSize front) opened rest).pairs ↔
      byteSize front ≤ stop ∧ Matches (front ++ rest) start stop) ∧
    ∀ offset, offset ∈ (pairing (byteSize front) opened rest).strays ↔
      byteSize front ≤ offset ∧ Stray (front ++ rest) offset := by
  induction rest generalizing front opened with
  | nil =>
    have hend : ∀ offset, byteSize front ≤ offset → ¬ StandsAt (front ++ []) offset ')' := by
      rintro offset hle ⟨before, after, heq, rfl⟩
      have hsize := ')'.utf8Size_pos
      rw [List.append_nil] at heq
      simp only [heq, Text.byteSize_append, byteSize] at hle
      omega
    simp only [pairing, List.not_mem_nil, false_iff]
    constructor
    · intro start stop h
      exact hend stop h.1 h.2.closing
    · intro offset h
      exact hend offset h.1 h.2.1
  | cons c rest ih =>
    have hnext : byteSize (front ++ [c]) = byteSize front + c.utf8Size := by
      simp [Text.byteSize_append, byteSize]
    have hlater := fun {opened : List Nat} (h : Opens (front ++ [c]) opened) => ih h
    simp only [h.matches_iff, h.stray_iff]
    simp only [hnext, List.append_assoc, List.singleton_append] at hlater ⊢
    by_cases hopening : c = '('
    · subst hopening
      simpa [pairing] using hlater h.opening
    · by_cases hclosing : c = ')'
      · subst hclosing
        cases opened with
        | nil => simp [pairing, hlater h.stray]
        | cons top outer => simp [pairing, hlater h.closing, eq_comm (a := top)]
      · simpa [pairing, hopening, hclosing] using hlater (h.append (.singleton hopening hclosing))

/-- The stack finds the parens that belong together. -/
theorem mem_pairs_iff (chars : List Char) :
    (start, stop) ∈ (pairing 0 [] chars).pairs ↔ Matches chars start stop := by
  simpa [byteSize] using (pairing_spec .empty chars).1 start stop

/-- The stack finds the `)` that belong to no `(`. -/
theorem mem_strays_iff (chars : List Char) (offset : Nat) :
    offset ∈ (pairing 0 [] chars).strays ↔ Stray chars offset := by
  simpa [byteSize] using (pairing_spec .empty chars).2 offset

end TinyLisp.Parens
